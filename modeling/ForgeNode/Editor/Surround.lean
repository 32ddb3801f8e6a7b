import ForgeNode.Editor.Placing

/-! Inserting around every caret at once: one splice of the text, each caret between its own
halves. -/

namespace ForgeNode.Editor

open List hiding after
open Utf8 Splice

variable {cursors : List Cursor} {document : Document} {transaction : Transaction}

/-- What inserting at a caret does to its range. -/
def Cursor.cutFor (inserted : Str) (cursor : Cursor) : Cut UInt8 :=
  ⟨cursor.range.start, cursor.range.stop, inserted.bytes⟩

theorem Cursor.caret_range (offset : Nat) : (Cursor.caret offset).range = .emptyAt offset :=
  Range.new_of_le (Nat.le_refl _)

section Cuts

theorem ordered_cuts (apart : cursors.Pairwise Cursor.apart) {at_ length : Nat}
    (below : at_ ≤ length) (low : ∀ cursor ∈ cursors, at_ ≤ cursor.range.start)
    (high : ∀ cursor ∈ cursors, cursor.range.stop ≤ length) (inserted : Str) :
    Splice.Ordered at_ length (cursors.map (Cursor.cutFor inserted)) := by
  induction cursors generalizing at_ with
  | nil => exact below
  | cons cursor rest ih =>
    obtain ⟨first, others⟩ := pairwise_cons.mp apart
    refine ⟨low cursor mem_cons_self, cursor.range.ordered, ?_⟩
    refine ih others (high cursor mem_cons_self) (fun other member => ?_)
      (fun other member => high other (mem_cons_of_mem _ member))
    exact Nat.le_of_lt (first other member)

/-- What a splice leaves starts where a character starts. -/
theorem splice_startsClean {at_ : Nat} {text : List UInt8} {cuts : List (Cut UInt8)}
    (clean : StartsClean text) (whole : ∀ cut ∈ cuts, Valid cut.insert ∧
      StartsClean (text.drop (cut.stop - at_)))
    (ordered : Splice.Ordered at_ (at_ + text.length) cuts) :
    StartsClean (splice at_ text cuts) := by
  induction cuts generalizing at_ text with
  | nil => exact clean
  | cons cut rest ih =>
    obtain ⟨low, order, later⟩ := ordered
    obtain ⟨insert, stop⟩ := whole cut mem_cons_self
    have bound := later.le
    have size : cut.stop + (text.drop (cut.stop - at_)).length = at_ + text.length := by
      rw [List.length_drop]
      omega
    have inner : StartsClean (splice cut.stop (text.drop (cut.stop - at_)) rest) := by
      refine ih stop (fun other member => ?_) (by rw [size]; exact later)
      obtain ⟨insert, final⟩ := whole other (mem_cons_of_mem _ member)
      have past := (later.mem member).1
      have order' := (later.mem member).2.1
      have steps : cut.stop - at_ + (other.stop - cut.stop) = other.stop - at_ := by omega
      rw [drop_drop, steps]
      exact ⟨insert, final⟩
    have gap : StartsClean (text.take (cut.start - at_)) := by
      cases text with
      | nil => simpa using clean
      | cons byte rest =>
        cases cut.start - at_ with
        | zero => simp [StartsClean]
        | succ count => exact clean
    exact startsClean_append gap (startsClean_append insert.startsClean inner)

end Cuts

section Landings

variable {before inserted : Nat}

/-- Carets land no earlier than the carets above them and what those insert. -/
theorem le_landings {shift : Int} {least : Nat} (apart : cursors.Pairwise Cursor.apart)
    (low : ∀ cursor ∈ cursors, least ≤ cursor.range.start) (positive : 0 ≤ least + shift) :
    ∀ landed ∈ Document.landings before inserted shift cursors, (least : Int) + shift + before ≤
      landed.range.start := by
  induction cursors generalizing shift least with
  | nil => exact fun _ member => by cases member
  | cons cursor rest ih =>
    obtain ⟨first, others⟩ := pairwise_cons.mp apart
    have start := low cursor mem_cons_self
    have order := cursor.range.ordered
    intro landed member
    rcases mem_cons.mp member with rfl | member
    · rw [Cursor.caret_range]
      simp only [Range.emptyAt]
      omega
    · have size : cursor.range.len = cursor.range.stop - cursor.range.start := rfl
      have later := ih others (fun other there => Nat.le_of_lt (first other there))
        (by omega) landed member
      omega

/-- The landings are carets, in order and apart. -/
theorem landings_apart {shift : Int} (apart : cursors.Pairwise Cursor.apart)
    (positive : ∀ cursor ∈ cursors.head?, 0 ≤ cursor.range.start + shift) :
    (Document.landings before inserted shift cursors).Pairwise Cursor.apart := by
  induction cursors generalizing shift with
  | nil => exact .nil
  | cons cursor rest ih =>
    obtain ⟨first, others⟩ := pairwise_cons.mp apart
    have start := positive cursor rfl
    have order := cursor.range.ordered
    have size : cursor.range.len = cursor.range.stop - cursor.range.start := rfl
    refine pairwise_cons.mpr ⟨fun landed member => ?_, ih others fun next head => ?_⟩
    · have later := le_landings others first (by omega) landed member
      unfold Cursor.apart
      rw [Cursor.caret_range]
      simp only [Range.emptyAt]
      omega
    · have past := first next (mem_of_mem_head? head)
      unfold Cursor.apart at past
      omega

theorem length_landings (cursors : List Cursor) (shift : Int) :
    (Document.landings before inserted shift cursors).length = cursors.length := by
  induction cursors generalizing shift with
  | nil => rfl
  | cons cursor rest ih => exact congrArg (· + 1) (ih _)

/-- Each caret lands behind its own first half: after everything the splice made of the text before
it. -/
theorem landings_place {at_ place : Nat} {shift : Int} {text : List UInt8} {insert : Str}
    (apart : cursors.Pairwise Cursor.apart) (low : ∀ cursor ∈ cursors, at_ ≤ cursor.range.start)
    (high : ∀ cursor ∈ cursors, cursor.range.stop ≤ at_ + text.length)
    (moved : (at_ : Int) + shift = place) {index : Nat} {cursor : Cursor}
    (here : cursors[index]? = some cursor) :
    (Document.landings before insert.len shift cursors)[index]? = some (.caret (place +
      (splice at_ (text.take (cursor.range.start - at_))
      ((cursors.map (Cursor.cutFor insert)).take index)).length +
      before)) := by
  induction cursors generalizing at_ place shift text index with
  | nil => cases here
  | cons first rest ih =>
    obtain ⟨gaps, others⟩ := pairwise_cons.mp apart
    have start := low first mem_cons_self
    have stop := high first mem_cons_self
    have order := first.range.ordered
    cases index with
    | zero =>
      obtain rfl := Option.some.inj here
      simp only [Document.landings, getElem?_cons_zero, take_zero, splice, length_take]
      congr 2
      omega
    | succ index =>
      have member : cursor ∈ rest := mem_of_getElem? here
      have past : first.range.stop < cursor.range.start := gaps cursor member
      have inner := @ih first.range.stop (place + (first.range.start - at_) + insert.len)
        (shift + (insert.len - first.range.len : Int)) (text.drop (first.range.stop - at_)) others
        (fun other there => Nat.le_of_lt (gaps other there))
        (fun other there => by
          have bound := high other (mem_cons_of_mem _ there)
          rw [List.length_drop]
          omega)
        (by
          have size : first.range.len = first.range.stop - first.range.start := rfl
          omega) index here
      have gap : cursor.range.start - at_ - (first.range.stop - at_) =
          cursor.range.start - first.range.stop := by
        omega
      have final := high cursor (mem_cons_of_mem _ member)
      have order' := cursor.range.ordered
      simp only [Document.landings, getElem?_cons_succ, inner, map_cons, take_succ_cons, splice,
        Cursor.cutFor, length_append, take_take, drop_take, gap, length_take]
      have size : insert.bytes.length = insert.len := rfl
      congr 2
      omega

/-- Each caret lands behind its own first half, in front of its second one, on a boundary. -/
theorem landings_spot {text new : Str} (apart : cursors.Pairwise Cursor.apart)
    (inside : ∀ cursor ∈ cursors, text.IsBoundary cursor.range.start ∧
      text.IsBoundary cursor.range.stop)
    {before after : Str} (whole : new.bytes =
      splice 0 text.bytes (cursors.map (Cursor.cutFor (before ++ after)))) {index : Nat}
      {cursor : Cursor}
    (here : cursors[index]? = some cursor) :
    ∃ place, (Document.landings before.len (before ++ after).len 0 cursors)[index]? =
      some (.caret place) ∧ new.bytes.take place = splice 0 (text.bytes.take cursor.range.start)
        ((cursors.map (Cursor.cutFor (before ++ after))).take index) ++ before.bytes ∧
      new.bytes.drop place = after.bytes ++
        splice cursor.range.stop (text.bytes.drop cursor.range.stop)
        ((cursors.map (Cursor.cutFor (before ++ after))).drop (index + 1)) ∧
      new.IsBoundary place := by
  have ordered : Splice.Ordered 0 (0 + text.bytes.length)
      (cursors.map (Cursor.cutFor (before ++ after))) := by
    rw [Nat.zero_add]
    exact ordered_cuts apart (Nat.zero_le _) (fun _ _ => Nat.zero_le _)
      (fun cursor member => (inside cursor member).2.1) _
  have bound := (List.getElem?_eq_some_iff.mp here).1
  have landed : (Document.landings before.len (before ++ after).len 0 cursors)[index]? =
      some (.caret (0 + (splice 0 (text.bytes.take (cursor.range.start - 0))
        ((cursors.map (Cursor.cutFor (before ++ after))).take index)).length + before.len)) := by
    apply landings_place apart (fun _ _ => Nat.zero_le _) ?_ rfl here
    intro other member
    rw [Nat.zero_add]
    exact (inside other member).2.1
  have cut : (cursors.map (Cursor.cutFor (before ++ after)))[index]? =
      some (cursor.cutFor (before ++ after)) := by
    rw [getElem?_map, here]
    rfl
  generalize listed : cursors.map (Cursor.cutFor (before ++ after)) = cuts at *
  rw [Nat.zero_add, Nat.sub_zero] at landed
  have shape : cuts = cuts.take index ++ cursor.cutFor (before ++ after) ::
      cuts.drop (index + 1) := by
    obtain ⟨bound, is⟩ := List.getElem?_eq_some_iff.mp cut
    rw [← is, ← drop_eq_getElem_cons bound, take_append_drop]
  have split : splice 0 text.bytes (cuts.take index ++ cursor.cutFor (before ++ after) :: cuts.drop
      (index + 1)) = splice 0 (text.bytes.take (cursor.range.start - 0)) (cuts.take index) ++
        ((before ++ after).bytes ++ splice cursor.range.stop
        (text.bytes.drop (cursor.range.stop - 0)) (cuts.drop (index + 1))) :=
    splice_split (shape ▸ ordered)
  rw [← shape, ← whole, Str.bytes_append, append_assoc, ← append_assoc, Nat.sub_zero,
    Nat.sub_zero] at split
  have clear : StartsClean (splice cursor.range.stop (text.bytes.drop cursor.range.stop)
      (cuts.drop (index + 1))) := by
    have stop := (inside cursor (mem_of_getElem? here)).2
    have size : cursor.range.stop + (text.bytes.drop cursor.range.stop).length =
        0 + text.bytes.length := by
      have bound : cursor.range.stop ≤ text.bytes.length := stop.1
      rw [List.length_drop]
      omega
    have behind : Splice.Ordered cursor.range.stop (0 + text.bytes.length) (cuts.drop (index + 1)) :=
      (shape ▸ ordered : Splice.Ordered 0 (0 + text.bytes.length) (cuts.take index ++
        cursor.cutFor (before ++ after) :: cuts.drop (index + 1))).behind
    refine splice_startsClean stop.clean (fun cut member => ?_) (size ▸ behind)
    have known := mem_of_mem_drop member
    rw [← listed] at known
    obtain ⟨other, there, rfl⟩ := List.mem_map.mp known
    have later := behind.mem member
    have steps : cursor.range.stop + ((other.cutFor (before ++ after)).stop - cursor.range.stop) =
        other.range.stop := by
      have order := Nat.le_trans later.1 later.2.1
      simp only [Cursor.cutFor] at order ⊢
      omega
    rw [drop_drop, steps]
    exact ⟨(before ++ after).valid, (inside other there).2.clean⟩
  refine ⟨_, landed, ?_, ?_, ?_⟩
  · rw [split, ← Str.length_bytes before, ← length_append, take_left]
  · rw [split, ← Str.length_bytes before, ← length_append, drop_left]
  · have front : splice 0 (text.bytes.take cursor.range.start) (cuts.take index) ++ before.bytes <+:
        new.bytes :=
      split ▸ prefix_append _ _
    have bound := front.length_le
    rw [length_append] at bound
    refine ⟨bound, (isCharBoundary_iff new.valid _).mpr ⟨bound, ?_⟩⟩
    rw [split, ← Str.length_bytes before, ← length_append, drop_left]
    exact startsClean_append after.valid.startsClean clear

end Landings

namespace Document

theorem applyValidated_splice (valid : document.validate transaction = .ok ()) (record : Bool) :
    (document.applyValidated transaction record).2.text.bytes.bytes =
      splice 0 document.text.bytes.bytes transaction.cuts := by
  obtain ⟨new, change, performs⟩ := validate_ok valid
  rw [applyValidated_text change performs record, ← change.new_eq, after_eq_splice 0, change.old_eq]
  exact congrArg (splice 0 document.text.bytes.bytes) performs.symm

/-- What a successful insertion around the carets does. -/
theorem insertAround_eq (placed : document.Placed) {before after : Str} {origin : Origin}
    {applied : Applied} {result : Document}
    (done : document.insertAround before after origin = (.ok applied, result)) :
    ∃ transaction, document.validate transaction = .ok () ∧
      transaction.edits = document.selection.cursors.map
      (fun cursor => .replace cursor.range (before ++ after)) ∧ transaction.selectionAfter =
        some (.many (landings before.len (before ++ after).len 0 document.selection.cursors)
        document.selection.primaryIndex) ∧
      result = (document.applyValidated transaction true).2 := by
  have disjoint : (document.selection.cursors.map fun cursor =>
      Edit.replace cursor.range (before ++ after)).IsChain Edit.clear :=
    (pairwise_map.mpr (placed.sound.apart.imp fun gap => Nat.le_of_lt gap)).isChain
  have built := Transaction.new_of_disjoint disjoint origin document.selection
  simp only [insertAround, built, apply] at done
  split at done
  · cases done
  split at done
  · cases done
  · rename_i valid
    exact ⟨_, valid, rfl, rfl, (Prod.mk.inj done).2.symm⟩

/-- Carets on boundaries of the new text that are apart survive `apply_validated` as they are. -/
theorem applyValidated_cursors {record : Bool}
    {carets : List Cursor} {primary : Nat} (inside : primary < carets.length)
    (after : transaction.selectionAfter = some (.many carets primary))
    (apart : carets.Pairwise Cursor.apart) (few : carets.length ≤ maxCursors)
    (placed : ∀ cursor ∈ carets, cursor.goalColumn = none ∧
      (document.applyValidated transaction record).2.text.bytes.IsBoundary cursor.anchor ∧
      (document.applyValidated transaction record).2.text.bytes.IsBoundary cursor.head) :
    (document.applyValidated transaction record).2.selection = ⟨carets, primary, inside⟩ := by
  have settled : carets.map (fun cursor =>
      Cursor.new ((document.applyValidated transaction record).2.text.clampOffset cursor.anchor)
        ((document.applyValidated transaction record).2.text.clampOffset cursor.head)) = carets := by
    refine Eq.trans ?_ (map_id carets)
    apply map_congr_left
    intro cursor member
    obtain ⟨goal, anchor, head⟩ := placed cursor member
    rw [Text.clampOffset_of_isBoundary anchor, Text.clampOffset_of_isBoundary head,
      Cursor.new, ← goal]
    rfl
  have built : (document.applyValidated transaction record).2.selection =
      (transaction.selectionAfter.getD
      (.caret (Replay.run ⟨document.text, 0, 0, document.selection.head⟩
        transaction.edits).resumeAt)).mapped fun cursor =>
          .new ((document.applyValidated transaction record).2.text.clampOffset cursor.anchor)
            ((document.applyValidated transaction record).2.text.clampOffset cursor.head) := rfl
  rw [built, after, Option.getD_some, Selection.many_of_apart apart few inside, Selection.mapped,
    settled]
  exact Selection.many_of_apart apart few inside

theorem applyValidated_selection {record : Bool}
    {carets : List Cursor} {primary : Nat} (inside : primary < carets.length)
    (after : transaction.selectionAfter = some (.many carets primary))
    (apart : carets.Pairwise Cursor.apart) (few : carets.length ≤ maxCursors)
    (placed : ∀ cursor ∈ carets, ∃ place, cursor = .caret place ∧
      (document.applyValidated transaction record).2.text.bytes.IsBoundary place) :
    (document.applyValidated transaction record).2.selection = ⟨carets, primary, inside⟩ := by
  apply applyValidated_cursors inside after apart few
  intro cursor member
  obtain ⟨place, rfl, boundary⟩ := placed cursor member
  exact ⟨rfl, boundary, boundary⟩

/-- Around every caret at once: the text is one splice, and the carets stand between their own
halves. -/
theorem insertAround_carets {document : Document} (reached : document.Reached) {before after : Str}
    {origin : Origin} {applied : Applied} {result : Document}
    (done : document.insertAround before after origin = (.ok applied, result)) :
    let text := document.text.bytes.bytes
    let cuts := document.selection.cursors.map (Cursor.cutFor (before ++ after))
    result.text.bytes.bytes = splice 0 text cuts ∧
    result.selection.cursors.length = document.selection.cursors.length ∧
    result.selection.primaryIndex = document.selection.primaryIndex ∧
    (∀ index cursor, document.selection.cursors[index]? = some cursor → ∃ place,
      result.selection.cursors[index]? = some (.caret place) ∧
      result.text.bytes.bytes.take place =
        splice 0 (text.take cursor.range.start) (cuts.take index) ++ before.bytes ∧
      result.text.bytes.bytes.drop place =
        after.bytes ++ splice cursor.range.stop (text.drop cursor.range.stop)
        (cuts.drop (index + 1))) ∧
    result.text = document.selection.cursors.foldr
      (fun cursor text => text.replace cursor.range (before ++ after)) document.text := by
  intro text cuts
  have placed := reached.placed
  have apart := placed.sound.apart
  obtain ⟨transaction, valid, edits, final, rfl⟩ := insertAround_eq placed done
  obtain ⟨new, change, performs⟩ := validate_ok valid
  have same := applyValidated_text change performs true
  have asCuts : transaction.cuts = cuts := by
    unfold Transaction.cuts
    rw [edits, map_map]
    rfl
  have whole : new.bytes = splice 0 text cuts := by
    rw [← same, applyValidated_splice valid true, asCuts]
  have spot (index : Nat) (cursor : Cursor) (here : document.selection.cursors[index]? =
      some cursor) :=
    landings_spot apart (fun other member => placed.range member) whole here
  have inside : document.selection.primaryIndex <
      (landings before.len (before ++ after).len 0 document.selection.cursors).length := by
    rw [length_landings]
    exact document.selection.inRange
  have selection := applyValidated_selection inside final
    (landings_apart apart fun cursor _ => by omega)
    (by rw [length_landings]; exact placed.sound.few)
    (fun landed member => by
      obtain ⟨index, there⟩ := getElem?_of_mem member
      have bound := (List.getElem?_eq_some_iff.mp there).1
      rw [length_landings] at bound
      obtain ⟨place, landing, _, _, boundary⟩ := spot index _ (getElem?_eq_getElem bound)
      exact ⟨place, Option.some.inj (there.symm.trans landing), same.symm ▸ boundary⟩)
  have one : (document.applyValidated transaction true).2.text = document.selection.cursors.foldr
      (fun cursor text => text.replace cursor.range (before ++ after)) document.text := by
    have each : transaction.edits.foldr (fun edit text => text.replace edit.range edit.insert)
        document.text = document.selection.cursors.foldr (fun cursor text =>
        text.replace cursor.range (before ++ after))
          document.text := by
      rw [edits, foldr_map]
      rfl
    rw [← each]
    have indexed : (document.applyValidated transaction true).2.text.Indexed :=
      Replay.run_indexed reached.indexed _
    exact indexed.ext (Text.foldr_indexed reached.indexed _)
      (same.trans (foldr_change change performs rfl).symm)
  rw [same, selection]
  refine ⟨whole, length_landings _ _, rfl, fun index cursor here => ?_, one⟩
  obtain ⟨place, there, taken, dropped, _⟩ := spot index cursor here
  exact ⟨place, there, taken, dropped⟩

/-- Brackets typed around a selected letter and at a caret behind it. -/
theorem insertAround_brackets :
    let document := ((fromString (.ofChars ['a', 'b', 'c']) false).setSelection
      (.many [.new 0 1, .caret 2] 1))
    (document.insertAround (.ofChars ['(']) (.ofChars [')']) .input).2.text.bytes.bytes =
      splice 0 document.text.bytes.bytes (document.selection.cursors.map
        (Cursor.cutFor (.ofChars ['('] ++ .ofChars [')']))) := by
  have reached : Reached ((fromString (.ofChars ['a', 'b', 'c']) false).setSelection
      (.many [.new 0 1, .caret 2] 1)) := .call (.setSelection _) (.load _ _)
  have done : (((fromString (.ofChars ['a', 'b', 'c']) false).setSelection
      (.many [.new 0 1, .caret 2] 1)).insertAround (.ofChars ['(']) (.ofChars [')']) .input).1 =
        .ok ⟨1, 0, 0, 0⟩ := by decide
  exact (insertAround_carets reached (Prod.ext done rfl)).1

end Document

end ForgeNode.Editor
