import ForgeNode.Editor.Command

/-! Cutting at several carets, and which caret is primary afterwards. -/

namespace ForgeNode.Editor

open List hiding after
open Utf8 Splice

variable {ranges : List Range}

/-- The bytes below an offset that the ranges cover. -/
def coveredBelow (ranges : List Range) (offset : Nat) : Nat :=
  (ranges.map fun range => min range.stop offset - min range.start offset).sum

/-- Where an offset lands when the ranges are deleted. -/
def imageUnder (ranges : List Range) (offset : Nat) : Nat := offset - coveredBelow ranges offset

/-- Ranges with a gap between each two. -/
def Apart (ranges : List Range) : Prop := ranges.Pairwise fun first second =>
    first.stop < second.start

section Images

theorem coveredBelow_cons (range : Range) (rest : List Range) (offset : Nat) :
    coveredBelow (range :: rest) offset = (min range.stop offset - min range.start offset) +
    coveredBelow rest offset := by
  simp [coveredBelow]

theorem coveredBelow_late {offset : Nat} (late : ∀ range ∈ ranges, offset ≤ range.start) :
    coveredBelow ranges offset = 0 := by
  induction ranges with
  | nil => rfl
  | cons range rest ih =>
    have start := late range mem_cons_self
    have order := range.ordered
    rw [coveredBelow_cons, ih fun other member => late other (mem_cons_of_mem _ member)]
    omega

theorem coveredBelow_filter (ranges : List Range) (offset : Nat) :
    coveredBelow (ranges.filter fun range => !range.isEmpty) offset =
      coveredBelow ranges offset := by
  induction ranges with
  | nil => rfl
  | cons range rest ih =>
    rw [coveredBelow_cons, ← ih]
    by_cases empty : range.isEmpty = true
    · rw [filter_cons_of_neg (by simp [empty])]
      have same : range.start = range.stop := beq_iff_eq.mp empty
      omega
    · rw [filter_cons_of_pos (by simp [empty]), coveredBelow_cons]

theorem coveredBelow_le (apart : Apart ranges) {at_ offset : Nat}
    (low : ∀ range ∈ ranges, at_ ≤ range.start) : coveredBelow ranges offset ≤ offset - at_ := by
  induction ranges generalizing at_ with
  | nil => exact Nat.zero_le _
  | cons range rest ih =>
    obtain ⟨gaps, others⟩ := pairwise_cons.mp apart
    have start := low range mem_cons_self
    have order := range.ordered
    have later := ih others fun other member => Nat.le_of_lt (gaps other member)
    rw [coveredBelow_cons]
    omega

/-- Behind a range something stays: a byte at least before the next one. -/
theorem coveredBelow_gap (apart : Apart ranges) {first : Range} (member : first ∈ ranges)
    {offset : Nat} (past : first.stop < offset) :
    coveredBelow ranges offset + first.start < coveredBelow ranges first.start + offset := by
  induction ranges with
  | nil => cases member
  | cons range rest ih =>
    obtain ⟨gaps, others⟩ := pairwise_cons.mp apart
    have inner := first.ordered
    rw [coveredBelow_cons, coveredBelow_cons]
    rcases mem_cons.mp member with rfl | member
    · have none_ : coveredBelow rest first.start = 0 :=
        coveredBelow_late fun other there =>
        Nat.le_of_lt (Nat.lt_of_le_of_lt inner (gaps other there))
      have some_ : coveredBelow rest offset ≤ offset - (first.stop + 1) := coveredBelow_le others gaps
      omega
    · have later := ih others member
      have gap := gaps first member
      have order := range.ordered
      omega

theorem imageUnder_lt (apart : Apart ranges) {first second : Range} (member : first ∈ ranges)
    (before : first.stop < second.start) :
    imageUnder ranges first.start < imageUnder ranges second.start := by
  have bound (offset : Nat) : coveredBelow ranges offset ≤ offset :=
    coveredBelow_le apart fun _ _ => Nat.zero_le _
  have low := bound first.start
  have high := bound second.start
  have between := coveredBelow_gap apart member before
  unfold imageUnder
  omega

theorem imageUnder_injective (apart : Apart ranges) {first second : Range}
    (member : first ∈ ranges) (there : second ∈ ranges)
    (same : imageUnder ranges first.start = imageUnder ranges second.start) : first = second := by
  obtain ⟨left, rfl⟩ := get_of_mem member
  obtain ⟨right, rfl⟩ := get_of_mem there
  have gaps := pairwise_iff_get.mp apart
  rcases lt_trichotomy left right with before | equal | after
  · exact absurd same (Nat.ne_of_lt (imageUnder_lt apart member (gaps left right before)))
  · rw [equal]
  · exact absurd same.symm (Nat.ne_of_lt (imageUnder_lt apart there (gaps right left after)))

private theorem deletionLandings_shifted (apart : Apart ranges) (shift : Int) (index : Nat) :
    (Document.deletionLandings shift ranges)[index]? = (ranges[index]?).map fun range =>
      .caret ((range.start : Int) + shift - coveredBelow ranges range.start).toNat := by
  induction ranges generalizing shift index with
  | nil => rfl
  | cons range rest ih =>
    obtain ⟨gaps, others⟩ := pairwise_cons.mp apart
    have order := range.ordered
    cases index with
    | zero =>
      have none_ : coveredBelow rest range.start = 0 :=
        coveredBelow_late fun other there =>
        Nat.le_of_lt (Nat.lt_of_le_of_lt order (gaps other there))
      simp only [Document.deletionLandings, getElem?_cons_zero, Option.map_some, Option.some.injEq]
      rw [coveredBelow_cons, none_]
      congr 1
      omega
    | succ index =>
      simp only [Document.deletionLandings, getElem?_cons_succ, ih others]
      cases found : rest[index]? with
      | none => rfl
      | some other =>
        have gap := gaps other (mem_of_getElem? found)
        have size : range.len = range.stop - range.start := rfl
        simp only [Option.map_some, Option.some.injEq]
        rw [coveredBelow_cons]
        congr 1
        omega

theorem deletionLandings_place (apart : Apart ranges) (index : Nat) :
    (Document.deletionLandings 0 ranges)[index]? =
      (ranges[index]?).map fun range => .caret (imageUnder ranges range.start) := by
  rw [deletionLandings_shifted apart]
  congr 1
  funext range
  unfold imageUnder
  congr 1
  omega

theorem length_deletionLandings (ranges : List Range) (shift : Int) :
    (Document.deletionLandings shift ranges).length = ranges.length := by
  induction ranges generalizing shift with
  | nil => rfl
  | cons range rest ih => exact congrArg (· + 1) (ih _)

theorem deletionLandings_apart (apart : Apart ranges) :
    (Document.deletionLandings 0 ranges).Pairwise Cursor.apart := by
  refine pairwise_iff_getElem.mpr fun left right inside inside' before => ?_
  have here := deletionLandings_place apart left
  have there := deletionLandings_place apart right
  rw [length_deletionLandings] at inside inside'
  have gap := imageUnder_lt apart (getElem_mem inside)
    (pairwise_iff_getElem.mp apart left right inside inside' before)
  rw [getElem?_eq_getElem (by rwa [length_deletionLandings]), getElem?_eq_getElem inside,
    Option.map_some, Option.some.injEq] at here
  rw [getElem?_eq_getElem (by rwa [length_deletionLandings]), getElem?_eq_getElem inside',
    Option.map_some, Option.some.injEq] at there
  rw [here, there]
  simpa only [Cursor.apart, Cursor.caret_range, Range.emptyAt] using gap

end Images

section Chosen

variable {α : Type}

/-- Which of a list's items an index names once some are left out. -/
theorem filter_index_iff {front back : List α} {item : α} (once : (front ++ item :: back).Nodup)
    (p : α → Bool) {chosen : α} (names : ((front ++ item :: back).filter p)[front.length]?.or
      ((front ++ item :: back).filter p).head? = some chosen) :
    chosen = item ↔ p item = true ∧ ((∀ other ∈ front, p other = true) ∨
      (((front ++ item :: back).filter p).length ≤ front.length ∧ ∀ other ∈ front,
      p other = false)) := by
  have bound := length_filter_le p front
  by_cases kept : p item = true
  · have shape : (front ++ item :: back).filter p = front.filter p ++ item :: back.filter p := by
      rw [filter_append, filter_cons_of_pos kept]
    have once' : (front.filter p ++ item :: back.filter p).Nodup := shape ▸ once.filter p
    obtain ⟨_, tail, apart⟩ := nodup_append.mp once'
    rw [shape] at names ⊢
    have all : (∀ other ∈ front, p other = true) ↔ (front.filter p).length = front.length :=
      length_filter_eq_length_iff.symm
    have none_ : (∀ other ∈ front, p other = false) ↔ front.filter p = [] := by
      simp [filter_eq_nil_iff]
    rw [all, none_]
    by_cases whole : (front.filter p).length = front.length
    · rw [getElem?_append_right (Nat.le_of_eq whole), whole, Nat.sub_self] at names
      simp [kept, whole, Option.some.inj names.symm]
    · have short : (front.filter p).length < front.length := Nat.lt_of_le_of_ne bound whole
      by_cases within : front.length < (front.filter p ++ item :: back.filter p).length
      · have found := getElem?_eq_getElem within
        rw [found] at names
        have is := Option.some.inj names
        have later : chosen ∈ back.filter p := by
          rw [← is]
          have here := found
          rw [getElem?_append_right (Nat.le_of_lt short)] at here
          obtain ⟨skip, gap⟩ : ∃ skip, front.length - (front.filter p).length = skip + 1 :=
            ⟨front.length - (front.filter p).length - 1, by omega⟩
          rw [gap, getElem?_cons_succ] at here
          exact mem_of_getElem? here
        have differs : chosen ≠ item := fun same =>
          (nodup_cons.mp tail).1 (same ▸ later)
        constructor
        · exact fun same => absurd same differs
        · rintro ⟨_, full | ⟨few, _⟩⟩
          · exact absurd full whole
          · exact absurd within (Nat.not_lt.mpr few)
      · rw [getElem?_eq_none (Nat.le_of_not_lt within)] at names
        cases head : front.filter p with
        | nil =>
          rw [head] at names within
          simp only [nil_append, head?_cons, Option.none_or, Option.some.injEq] at names
          simp only [nil_append, length_cons] at within
          simp [kept, names.symm]
          omega
        | cons first rest =>
          rw [head] at names
          simp only [cons_append, head?_cons, Option.none_or, Option.some.injEq] at names
          have differs : chosen ≠ item := by
            rw [← names]
            exact apart first (head ▸ mem_cons_self) item mem_cons_self
          constructor
          · exact fun same => absurd same differs
          · rintro ⟨_, full | ⟨_, empty⟩⟩
            · exact absurd full (head ▸ whole)
            · cases empty
  · have left_out : chosen ≠ item := by
      rintro rfl
      apply kept
      rcases Option.or_eq_some_iff.mp names with found | ⟨_, found⟩
      · exact (mem_filter.mp (mem_of_getElem? found)).2
      · exact (mem_filter.mp (mem_of_head? found)).2
    exact ⟨fun same => absurd same left_out, fun both => absurd both.1 kept⟩

end Chosen

namespace Document

/-- When a cut leaves the caret that was primary: everything is empty, or the primary one selects
something and either every caret above it does, or none does and too few do for its index to name
another. -/
def CutKeeps (selection : Selection) : Prop :=
  (∀ range ∈ selection.cursors.map Cursor.range, range.isEmpty = true) ∨
    (selection.primary.range.isEmpty = false ∧
      ((∀ range ∈ (selection.cursors.map Cursor.range).take selection.primaryIndex, range.isEmpty =
        false) ∨ (((selection.cursors.map Cursor.range).filter fun range => !range.isEmpty).length ≤
          selection.primaryIndex ∧
          ∀ range ∈ (selection.cursors.map Cursor.range).take selection.primaryIndex,
          range.isEmpty = true)))

/-- What a cut is to do: take the ranges out, hand their texts over, and stay where the primary
caret was. -/
structure CutsOut (document : Document) (outcome : Outcome) (after : Document) : Prop where
  text : after.text.bytes.bytes =
    splice 0 document.text.bytes.bytes (document.selection.cursors.map (Cursor.cutFor .empty))
  clipboard : outcome.clipboard = some (join (.ofChars ['\n'])
    (document.selection.cursors.map fun cursor => document.text.slice cursor.range))
  primary : after.selection.primary.range =
    .emptyAt (imageUnder (document.selection.cursors.map Cursor.range)
      document.selection.primary.range.start)

theorem splice_empty_cut {at_ : Nat} {text : List UInt8} {place : Nat} {rest : List (Cut UInt8)}
    (low : at_ ≤ place) (later : ∀ cut ∈ rest.head?, place ≤ cut.start ∧ place ≤ cut.stop) :
    text.take (place - at_) ++ splice place (text.drop (place - at_)) rest =
      splice at_ text rest := by
  cases rest with
  | nil => exact take_append_drop _ _
  | cons cut rest =>
    obtain ⟨start, stop⟩ := later cut rfl
    have gap : cut.start - at_ = (place - at_) + (cut.start - place) := by omega
    have skip : place - at_ + (cut.stop - place) = cut.stop - at_ := by omega
    rw [splice, splice, gap, take_add, drop_drop, skip, append_assoc]

/-- Carets that select nothing cut nothing. -/
theorem splice_nonempty {cursors : List Cursor} (apart : cursors.Pairwise Cursor.apart) {at_ : Nat}
    (low : ∀ cursor ∈ cursors, at_ ≤ cursor.range.start) (text : List UInt8) :
    splice at_ text
    ((cursors.filter fun cursor => !cursor.range.isEmpty).map (Cursor.cutFor .empty)) =
      splice at_ text (cursors.map (Cursor.cutFor .empty)) := by
  induction cursors generalizing at_ text with
  | nil => rfl
  | cons cursor rest ih =>
    obtain ⟨gaps, others⟩ := pairwise_cons.mp apart
    have start := low cursor mem_cons_self
    have order := cursor.range.ordered
    have inner := ih others (fun other member => Nat.le_of_lt (gaps other member))
      (text.drop (cursor.range.stop - at_))
    by_cases empty : cursor.range.isEmpty = true
    · have same : cursor.range.start = cursor.range.stop := beq_iff_eq.mp empty
      rw [filter_cons_of_neg (by simp [empty]), ih others (fun other member =>
        Nat.le_of_lt (Nat.lt_of_le_of_lt (Nat.le_trans start order) (gaps other member)))]
      rw [map_cons, splice]
      simp only [Cursor.cutFor, Str.empty, nil_append]
      rw [← same]
      refine (splice_empty_cut start fun cut head => ?_).symm
      obtain ⟨other, member, rfl⟩ := List.mem_map.mp (mem_of_mem_head? head)
      have gap := gaps other member
      have before := Nat.le_of_lt (Nat.lt_of_le_of_lt order gap)
      exact ⟨before, Nat.le_trans before other.range.ordered⟩
    · rw [filter_cons_of_pos (by simp [empty]), map_cons, map_cons, splice, splice]
      simp only [Cursor.cutFor] at inner ⊢
      rw [inner]

theorem deletionLandings_eq_landings (cursors : List Cursor) (shift : Int) :
    deletionLandings shift (cursors.map Cursor.range) = landings 0 0 shift cursors := by
  induction cursors generalizing shift with
  | nil => rfl
  | cons cursor rest ih =>
    have step : shift - cursor.range.len = shift + (((0 : Nat) : Int) - cursor.range.len) := by omega
    rw [map_cons, deletionLandings, landings, step, ih, Nat.add_zero]

theorem many_beyond {cursors : List Cursor} (some_ : cursors ≠ []) {index : Nat}
    (beyond : cursors.length ≤ index) :
    Selection.many cursors index = Selection.many cursors 0 := by
  cases cursors with
  | nil => exact absurd rfl some_
  | cons first others =>
    simp only [Selection.many, getElem?_eq_none beyond, Option.getD_none, getElem?_cons_zero,
      Option.getD_some]

/-- The range that a primary index names among those that are cut. -/
theorem primary_among {chosen : List Range} (some_ : chosen ≠ []) (index : Nat) :
    ∃ place range, chosen[place]? = some range ∧ (chosen[index]?).or chosen.head? = some range ∧
      Selection.many (deletionLandings 0 chosen) index = Selection.many (deletionLandings 0 chosen)
      place := by
  have carets : deletionLandings 0 chosen ≠ [] := by
    apply length_pos_iff.mp
    rw [length_deletionLandings]
    exact length_pos_iff.mpr some_
  by_cases within : index < chosen.length
  · have found := getElem?_eq_getElem within
    exact ⟨index, _, found, by rw [found]; rfl, rfl⟩
  · have beyond := Nat.le_of_not_lt within
    obtain ⟨first, others, rfl⟩ := exists_cons_of_ne_nil some_
    refine ⟨0, first, rfl, ?_, many_beyond carets ?_⟩
    · rw [getElem?_eq_none beyond]
      rfl
    · rwa [length_deletionLandings]

/-- What the transaction of a cut does to the text and to the primary caret. -/
theorem applyValidated_cut {document : Document} (placed : document.Placed)
    {transaction : Transaction} (valid : document.validate transaction = .ok ())
    {kept : List Cursor} (chosen : kept = document.selection.cursors.filter fun cursor =>
      !cursor.range.isEmpty) (some_ : kept ≠ [])
    (edits : transaction.edits = (kept.map Cursor.range).map Edit.delete) {index : Nat}
    (after : transaction.selectionAfter =
      some (.many (deletionLandings 0 (kept.map Cursor.range)) index)) :
    (document.applyValidated transaction true).2.text.bytes.bytes =
        splice 0 document.text.bytes.bytes (document.selection.cursors.map (Cursor.cutFor .empty)) ∧
      ∃ range ∈ kept.map Cursor.range,
      ((kept.map Cursor.range)[index]?).or (kept.map Cursor.range).head? = some range ∧
        (document.applyValidated transaction true).2.selection.primary =
          .caret (imageUnder (kept.map Cursor.range) range.start) := by
  have apart : kept.Pairwise Cursor.apart := chosen ▸ placed.sound.apart.filter _
  have inside (cursor : Cursor) (member : cursor ∈ kept) : document.text.bytes.IsBoundary
      cursor.range.start ∧
      document.text.bytes.IsBoundary cursor.range.stop := by
    rw [chosen] at member
    exact placed.range (mem_filter.mp member).1
  have asCuts : transaction.cuts = kept.map (Cursor.cutFor .empty) := by
    rw [Transaction.cuts, edits, map_map, map_map]
    rfl
  have spliced := applyValidated_splice valid true
  rw [asCuts] at spliced
  have nothing : Str.empty ++ Str.empty = Str.empty := rfl
  have ranges : Apart (kept.map Cursor.range) := pairwise_map.mpr apart
  obtain ⟨place, range, here, names, same⟩ := primary_among (mt map_eq_nil_iff.mp some_) index
  have bound := (List.getElem?_eq_some_iff.mp here).1
  have carets : (deletionLandings 0 (kept.map Cursor.range)).length =
      (kept.map Cursor.range).length :=
    length_deletionLandings _ _
  have few : (kept.map Cursor.range).length ≤ maxCursors := by
    rw [length_map, chosen]
    exact Nat.le_trans (length_filter_le _ _) placed.sound.few
  have settled := applyValidated_selection (carets.symm ▸ bound) (same ▸ after)
    (deletionLandings_apart ranges) (carets.symm ▸ few) (fun landed member => by
      obtain ⟨spot, there⟩ := getElem?_of_mem member
      have within := (List.getElem?_eq_some_iff.mp there).1
      rw [carets, length_map] at within
      obtain ⟨place, landing, _, _, boundary⟩ := landings_spot apart inside (nothing.symm ▸ spliced)
        (getElem?_eq_getElem within)
      rw [deletionLandings_eq_landings] at there
      exact ⟨place, Option.some.inj (there.symm.trans landing), boundary⟩)
  refine ⟨?_, range, mem_of_getElem? here, names, ?_⟩
  · rw [spliced, chosen]
    exact splice_nonempty placed.sound.apart (fun _ _ => Nat.zero_le _) _
  · have landed := deletionLandings_place ranges place
    rw [here, Option.map_some] at landed
    rw [settled]
    exact (List.getElem?_eq_some_iff.mp landed).2

/-- A cut at several carets does what it is to do exactly where it keeps the primary one. -/
theorem copy_cuts_iff {document : Document} (reached : document.Reached)
    (several : 1 < document.selection.count) {outcome : Outcome} {after : Document}
    (done : document.copy true = (outcome, after)) (success : outcome.refusal = none) :
    CutsOut document outcome after ↔ CutKeeps document.selection := by
  have placed := reached.placed
  have spans : document.selection.cursors.map
      (copiedSpan document.text (document.selection.count == 1)) =
      document.selection.cursors.map Cursor.range := by
    apply map_congr_left
    intro cursor _
    have many : (document.selection.count == 1) = false := beq_false_of_ne (Nat.ne_of_gt several)
    simp only [copiedSpan, many, Bool.false_and, Bool.false_eq_true, if_false]
  have filtered : (document.selection.cursors.map Cursor.range).filter (fun range => !range.isEmpty) =
      (document.selection.cursors.filter fun cursor => !cursor.range.isEmpty).map Cursor.range := by
    rw [filter_map]
    rfl
  have clipped : (document.selection.cursors.map Cursor.range).map document.text.slice =
      document.selection.cursors.map fun cursor => document.text.slice cursor.range := map_map
  have ranges : Apart (document.selection.cursors.map Cursor.range) :=
    pairwise_map.mpr placed.sound.apart
  have given : document.selection.primary.range ∈ document.selection.cursors.map Cursor.range :=
    mem_map_of_mem (Selection.primary_mem _)
  simp only [copy, spans, clipped, Bool.not_true, Bool.false_eq_true, if_false] at done
  generalize picked : (document.selection.cursors.map Cursor.range).filter (fun range =>
    !range.isEmpty) = chosen at *
  have below (offset : Nat) : coveredBelow chosen offset =
      coveredBelow (document.selection.cursors.map Cursor.range) offset :=
      picked ▸ coveredBelow_filter _ _
  by_cases none_ : chosen = []
  · -- nothing is selected anywhere: nothing moves
    rw [none_] at done
    obtain ⟨rfl, rfl⟩ := Prod.mk.inj done
    have empty (range : Range) (member : range ∈ document.selection.cursors.map Cursor.range) :
        range.isEmpty = true := by
      have out := filter_eq_nil_iff.mp (picked.trans none_) range member
      simpa using out
    refine ⟨fun _ => .inl empty, fun _ => ⟨?_, rfl, ?_⟩⟩
    · rw [← splice_nonempty placed.sound.apart fun _ _ => Nat.zero_le _]
      rw [none_] at filtered
      rw [map_eq_nil_iff.mp filtered.symm]
      rfl
    · have same : document.selection.primary.range.start = document.selection.primary.range.stop :=
        beq_iff_eq.mp (empty _ given)
      have nothing := below document.selection.primary.range.start
      rw [none_] at nothing
      have stays : imageUnder (document.selection.cursors.map Cursor.range)
          document.selection.primary.range.start = document.selection.primary.range.start := by
        rw [imageUnder, ← nothing]
        rfl
      rw [stays]
      ext
      · rfl
      · exact same.symm
  · have apart : Apart chosen := picked ▸ ranges.filter _
    have disjoint : (chosen.map Edit.delete).IsChain Edit.clear :=
      (pairwise_map.mpr (apart.imp fun gap => Nat.le_of_lt gap)).isChain
    have built := Transaction.new_of_disjoint disjoint .input document.selection
    have some_ : chosen.isEmpty = false := by
      cases chosen with
      | nil => exact absurd rfl none_
      | cons first rest => rfl
    simp only [some_, built, Bool.false_eq_true, if_false, apply] at done
    split at done
    · obtain ⟨rfl, _⟩ := Prod.mk.inj done
      cases success
    split at done
    · obtain ⟨rfl, _⟩ := Prod.mk.inj done
      cases success
    rename_i valid
    obtain ⟨rfl, rfl⟩ := Prod.mk.inj done
    subst filtered
    have broken : document.breakUndoGroup.Placed := placed.same ⟨rfl, rfl⟩
    obtain ⟨text, range, chosen, names, primary⟩ :=
      applyValidated_cut broken valid rfl (mt map_eq_nil_iff.mpr none_) rfl rfl
    have untouched : document.breakUndoGroup.selection = document.selection := rfl
    rw [untouched] at text chosen names primary
    have images (offset : Nat) : imageUnder ((document.selection.cursors.filter fun cursor =>
        !cursor.range.isEmpty).map Cursor.range) offset =
        imageUnder (document.selection.cursors.map Cursor.range) offset := by
      rw [imageUnder, below, imageUnder]
    have known : range ∈ document.selection.cursors.map Cursor.range := by
      rw [← picked] at chosen
      exact (mem_filter.mp chosen).1
    rw [images] at primary
    have split := take_append_drop document.selection.primaryIndex
      (document.selection.cursors.map Cursor.range)
    have bound : document.selection.primaryIndex <
        (document.selection.cursors.map Cursor.range).length := by
      rw [length_map]
      exact document.selection.inRange
    have item : (document.selection.cursors.map Cursor.range)[document.selection.primaryIndex] =
        document.selection.primary.range := getElem_map _
    rw [drop_eq_getElem_cons bound, item] at split
    have front : ((document.selection.cursors.map Cursor.range).take
        document.selection.primaryIndex).length =
        document.selection.primaryIndex := by
      rw [length_take, Nat.min_eq_left (Nat.le_of_lt bound)]
    have once : (document.selection.cursors.map Cursor.range).Nodup :=
      ranges.imp fun {first second} gap same => by
      have order := second.ordered
      rw [same] at gap
      omega
    have chooses : range = document.selection.primary.range ↔ _ := filter_index_iff (split ▸ once)
      (fun range => !range.isEmpty) (by rw [split, front, picked]; exact names)
    rw [split, front] at chooses
    have landed : (Cursor.caret (imageUnder (document.selection.cursors.map Cursor.range)
        range.start)).range = .emptyAt (imageUnder (document.selection.cursors.map Cursor.range)
        document.selection.primary.range.start) ↔
          range = document.selection.primary.range := by
      rw [Cursor.caret_range]
      constructor
      · intro equal
        exact imageUnder_injective ranges known given (congrArg Range.start equal)
      · exact fun equal => equal ▸ rfl
    have some_empty : ¬∀ range ∈ document.selection.cursors.map Cursor.range, range.isEmpty =
        true := by
      intro all
      apply none_
      rw [← picked]
      exact filter_eq_nil_iff.mpr fun range member => by simp [all range member]
    have states : (range = document.selection.primary.range) ↔ CutKeeps document.selection := by
      rw [chooses]
      simp only [CutKeeps, some_empty, false_or, Bool.not_eq_true', Bool.not_eq_false']
    rw [← states, ← landed, ← primary]
    exact ⟨fun cuts => cuts.primary, fun stays => ⟨text, rfl, stays⟩⟩

/-- Two letters cut, the second one under the primary caret. -/
theorem copy_cuts_letters :
    let document := (fromString (.ofChars ['a', 'b', 'c']) false).setSelection
      (.many [.new 0 1, .new 2 3] 1)
    CutsOut document (document.copy true).1 (document.copy true).2 := by
  have reached : Reached ((fromString (.ofChars ['a', 'b', 'c']) false).setSelection
      (.many [.new 0 1, .new 2 3] 1)) := .call (.setSelection _) (.load _ _)
  exact (copy_cuts_iff reached (by decide) rfl (by decide)).mpr (.inr ⟨by decide, .inl (by decide)⟩)

/-- A primary caret that selects nothing, in front of a selected letter. -/
theorem copy_moves_primary : ¬∀ document : Document, document.Reached →
    1 < document.selection.count → ∀ outcome after, document.copy true = (outcome, after) →
    outcome.refusal = none →
      CutsOut document outcome after := by
  intro always
  have reached : Reached ((fromString (.ofChars ['a', 'b']) false).setSelection
      (.many [.caret 0, .new 1 2] 0)) :=
    .call (.setSelection _) (.load _ _)
  have stays := (always _ reached (by decide) _ _ rfl (by decide)).primary
  exact absurd stays (by decide)

end Document

end ForgeNode.Editor
