import ForgeNode.Editor.Tracking
import ForgeNode.Editor.Folding

/-! Folds over an edit: when they stay on their blocks. -/

namespace ForgeNode.Editor.Fold

open List hiding after
open Utf8 Outline Splice Document Movement

/-- A line that a block can be folded under. -/
def Heads (script : Script) (text : Text) (line : Nat) : Prop :=
  (regionAt (regions script text) line).isSome = true

/-- Folds of a text: each on a block of it, and what is hidden in step with them. -/
structure Folds.Fits (folds : Folds) (script : Script) (text : Text) : Prop where
  regions : folds.regions = Fold.regions script text
  headed : ∀ line ∈ folds.folded, Heads script text line
  hidden : folds.hidden = hiddenBy folds.regions folds.folded.lines

section Law

variable (script : Script) (text new : Text) (transaction : Transaction) (applied : Applied)

/-- The folds are on the same blocks after an edit as before it. -/
structure Stays (before after : Folds) : Prop where
  landed : ∀ line ∈ after.folded, ∃ header ∈ before.folded, transaction.StandsOn text new header line
  kept : ∀ header ∈ before.folded, ¬ transaction.Touches text header →
    ∀ line, transaction.StandsOn text new header line → Heads script new line → line ∈ after.folded
  /-- No block that was open is folded. -/
  opened : ∀ header, Heads script text header → header ∉ before.folded → ∀ line ∈ after.folded,
    ¬ transaction.StandsOn text new header line
  apart : Apart after.hidden
  covered : ∀ line, Covers after.hidden line ↔
    ∃ region ∈ regions script new, region.header ∈ after.folded ∧ region.header < line ∧
      line ≤ region.last

/-- The folded headers on the lines of the report, and no open ones, are where their old numbers
say. -/
structure Steady (folded : Headers) : Prop where
  within : ∀ header ∈ folded, applied.firstLine ≤ header → header ≤ applied.lastLine →
    Heads script new header → ∃ source ∈ folded, ∃ offset, text.lineStart source ≤ offset ∧
      offset < text.lineEnd source ∧ transaction.Keeps offset ∧ (header : Int) = source +
        transaction.gained text offset
  alone : ∀ header ∈ folded, applied.firstLine ≤ header → header ≤ applied.lastLine →
    Heads script new header → ∀ source, Heads script text source → source ∉ folded →
      ∀ offset, text.lineStart source ≤ offset → offset < text.lineEnd source →
        transaction.Keeps offset → (header : Int) ≠ source + transaction.gained text offset
  between : ∀ header ∈ folded, applied.firstLine ≤ header → header ≤ applied.lastLine →
    ¬ transaction.Touches text header → ∀ line : Nat,
      (line : Int) = header + transaction.gained text (text.lineStart header) →
        Heads script new line → line ∈ folded ∧ (line ≤ applied.lastLine ∨ applied.lineDelta = 0)

end Law

section Headed

variable {script : Script} {text new : Text} {transaction : Transaction} {applied : Applied}
  {line : Nat}
  {change : Change text.bytes new.bytes}

/-- A header is a line of the text with something on it. -/
theorem Heads.filled (indexed : text.Indexed) (heads : Heads script text line) :
    line < text.lineCount ∧ text.lineStart line < text.lineEnd line := by
  obtain ⟨region, found⟩ := Option.isSome_iff_exists.mp heads
  obtain ⟨member, rfl⟩ := regionAt_eq_some_iff.mp found
  rw [regions_eq] at member
  obtain ⟨item, same, opens⟩ := (mem_blocks (outline_ordered _)).mp member
  obtain ⟨inside, some_⟩ := mem_outline.mp opens.mem
  replace some_ := content_eq_some.mpr some_
  rw [same] at inside some_
  have there : region.header < text.lineCount := by omega
  refine ⟨there, ?_⟩
  have size := line_len indexed there
  by_contra empty
  have zero : (text.line region.header).len = 0 := by omega
  rw [content] at some_
  simp only [zero, Movement.leadingBlank, if_true] at some_
  cases some_

theorem renumber_of_le (low : line ≤ applied.lastLine) :
    renumber applied line = some line := if_pos (.inr low)

/-- Outside the report a header goes where its text goes. -/
theorem renumber_outside (indexed : text.Indexed) (indexed' : new.Indexed)
    (performs : Performs transaction change) (framed : Framed text new transaction applied)
    (heads : Heads script text line) (outside : line < applied.firstLine ∨ applied.lastLine <
      line) : ¬ transaction.Touches text line ∧
      ∃ moved, renumber applied line = some moved ∧
        (moved : Int) = line + transaction.gained text (text.lineStart line) := by
  obtain ⟨there, filled⟩ := heads.filled indexed
  rcases outside with above | below
  · obtain ⟨untouched, gained⟩ := framed.above indexed there above
    have order := framed.order
    exact ⟨untouched, line, renumber_of_le (by omega), by rw [gained, Int.add_zero]⟩
  · obtain ⟨untouched, gained⟩ := framed.below indexed performs there below
    refine ⟨untouched, ?_⟩
    by_cases same : applied.lineDelta = 0
    · exact ⟨line, if_pos (.inl same), by rw [gained, same, Int.add_zero]⟩
    · have bound := (lineEnd_lt_next indexed there).1
      have first : text.lineOfOffset (text.lineStart line) = line :=
        @lineOfOffset_column text line 0 indexed there (Nat.zero_le _)
      obtain ⟨keeps, _⟩ := keeps_of_untouched indexed performs untouched (by omega)
        first (Nat.le_refl _)
      have moved := lineOfOffset_moved indexed indexed' performs keeps (by omega)
      rw [first, gained] at moved
      refine ⟨(line + applied.lineDelta).toNat, ?_, by rw [gained]; omega⟩
      rw [renumber, if_neg (by omega), checkedAddSigned, if_pos (by omega)]

/-- Folds stay on their blocks exactly where the renumbering has nothing to do on the lines of the
report. -/
theorem stays_iff (indexed : text.Indexed) (indexed' : new.Indexed)
    (performs : Performs transaction change) (framed : Framed text new transaction applied)
    {folds : Folds} (fits : folds.Fits script text) :
    Stays script text new transaction folds (folds.rescanEdited script new applied) ↔
      Steady script text new transaction applied folds.folded := by
  have hidden := @hiddenBy_spec script new (folds.rescanEdited script new applied).folded
  have outside {header : Nat} (member : header ∈ folds.folded)
      (away : header < applied.firstLine ∨ applied.lastLine < header) :=
    renumber_outside indexed indexed' performs framed (fits.headed header member) away
  constructor
  · intro stays
    constructor
    · intro header member _ low heads
      obtain ⟨source, folded, stands⟩ := stays.landed header
        (mem_rescanEdited.mpr ⟨heads, header, member, renumber_of_le low⟩)
      exact ⟨source, folded,
        (standsOn_iff indexed indexed' performs ((fits.headed source folded).filled indexed).1).mp
        stands⟩
    · intro header member _ low heads source open_ unfolded offset start stop keeps moved
      exact stays.opened source open_ unfolded header
        (mem_rescanEdited.mpr ⟨heads, header, member, renumber_of_le low⟩)
        ((standsOn_iff indexed indexed' performs (open_.filled indexed).1).mpr ⟨offset, start, stop,
        keeps, moved⟩)
    · intro header member _ low untouched line moved heads
      obtain ⟨there, filled⟩ := (fits.headed header member).filled indexed
      have stands := (standsOn_untouched indexed indexed' performs there untouched filled).mpr moved
      obtain ⟨_, other, folded, same⟩ := mem_rescanEdited.mp (stays.kept header member untouched
        line stands heads)
      by_cases kept : applied.lineDelta = 0 ∨ other ≤ applied.lastLine
      · rw [renumber, if_pos kept] at same
        obtain rfl := Option.some.inj same
        exact ⟨folded, kept.symm⟩
      · -- a header below the report stays below
        obtain ⟨away, place, is_, shifted⟩ := outside folded (.inr (by omega))
        obtain ⟨there', filled'⟩ := (fits.headed other folded).filled indexed
        rw [same] at is_
        obtain rfl := Option.some.inj is_
        obtain ⟨offset, start, stop, keeps, at_⟩ :=
          (standsOn_iff indexed indexed' performs there).mp stands
        obtain rfl := untouched_alone indexed performs there' away filled' there start stop keeps
          (by omega)
        omega
  · intro steady
    have landed : ∀ line ∈ (folds.rescanEdited script new applied).folded,
        ∃ header ∈ folds.folded, transaction.StandsOn text new header line := by
      intro line member
      obtain ⟨heads, header, folded, same⟩ := mem_rescanEdited.mp member
      obtain ⟨there, filled⟩ := (fits.headed header folded).filled indexed
      by_cases inside : applied.firstLine ≤ header ∧ header ≤ applied.lastLine
      · rw [renumber_of_le inside.2] at same
        obtain rfl := Option.some.inj same
        obtain ⟨source, others, stands⟩ := steady.within header folded inside.1 inside.2 heads
        exact ⟨source, others,
          (standsOn_iff indexed indexed' performs ((fits.headed source others).filled
          indexed).1).mpr stands⟩
      · obtain ⟨untouched, place, is_, shifted⟩ := outside folded (by omega)
        rw [same] at is_
        obtain rfl := Option.some.inj is_
        exact ⟨header, folded, (standsOn_untouched indexed indexed' performs there untouched
          filled).mpr shifted⟩
    refine ⟨landed, ?_, ?_, hidden.1, hidden.2⟩
    · intro header folded untouched line stands heads
      obtain ⟨there, filled⟩ := (fits.headed header folded).filled indexed
      have moved := (standsOn_untouched indexed indexed' performs there untouched filled).mp stands
      by_cases inside : applied.firstLine ≤ header ∧ header ≤ applied.lastLine
      · obtain ⟨member, kept⟩ := steady.between header folded inside.1 inside.2 untouched line moved
          heads
        exact mem_rescanEdited.mpr ⟨heads, line, member, if_pos kept.symm⟩
      · obtain ⟨_, place, is_, shifted⟩ := outside folded (by omega)
        obtain rfl : place = line := by omega
        exact mem_rescanEdited.mpr ⟨heads, header, folded, is_⟩
    · intro source open_ unfolded line member stands
      obtain ⟨heads, header, folded, same⟩ := mem_rescanEdited.mp member
      obtain ⟨offset, start, stop, keeps, moved⟩ :=
        (standsOn_iff indexed indexed' performs (open_.filled indexed).1).mp stands
      by_cases inside : applied.firstLine ≤ header ∧ header ≤ applied.lastLine
      · rw [renumber_of_le inside.2] at same
        obtain rfl := Option.some.inj same
        exact steady.alone header folded inside.1 inside.2 heads source open_ unfolded offset start
          stop keeps moved
      · -- the line of a header outside the report takes nothing of another
        obtain ⟨untouched, place, is_, shifted⟩ := outside folded (by omega)
        rw [same] at is_
        obtain rfl := Option.some.inj is_
        obtain ⟨there, filled⟩ := (fits.headed header folded).filled indexed
        obtain rfl := untouched_alone indexed performs there untouched filled
          (open_.filled indexed).1 start stop keeps (by omega)
        exact unfolded folded

end Headed

section Calls

variable {document : Document} {applied : Applied} {transaction : Transaction}

/-- A call that reports carried out a transaction, and reports what `apply_validated` says of it. -/
structure Carried (document after : Document) (applied : Applied) (transaction : Transaction) :
    Prop where
  performs : ∃ change : Change document.text.bytes after.text.bytes, Performs transaction change
  report : ∃ (here : Document) (record : Bool), here.text = document.text ∧
    applied = (here.applyValidated transaction record).1 ∧
    after.text = (here.applyValidated transaction record).2.text

theorem Carried.of_change {here after : Document} {new : Str} (same : here.text = document.text)
    (change : Change here.text.bytes new) (performs : Performs transaction change) (record : Bool)
    (text : after.text = (here.applyValidated transaction record).2.text) :
    Carried document after (here.applyValidated transaction record).1 transaction := by
  have bytes : after.text.bytes = new := by
    rw [text]
    exact applyValidated_text change performs record
  obtain rfl := bytes
  refine ⟨?_, here, record, same, rfl, text⟩
  rw [← same]
  exact ⟨change, performs⟩

/-- Whatever is applied, undone or redone is a transaction of the text. -/
theorem exists_carried (reached : document.Reached) (op : Op)
    (report : document.reported op = some applied) :
    ∃ transaction, Carried document (document.perform op) applied transaction := by
  obtain ⟨seen, coherent⟩ := reached.coherent
  cases reported_from op report with
  | @recorded here transaction same valid is_ text =>
    obtain ⟨new, change, performs⟩ := validate_ok valid
    rw [is_]
    exact ⟨transaction, .of_change same change performs true text⟩
  | undone done =>
    obtain ⟨writable, entry, rest, top⟩ := undo_eq_some done
    have line := coherent.undo
    rw [top] at line
    obtain ⟨change, _, undoes⟩ := line.1.change
    have carried : Carried document (document.perform op) (document.applyValidated entry.undo
        false).1 entry.undo :=
      .of_change rfl change.flip undoes false (undo_eq top done).1
    refine ⟨entry.undo, ?_⟩
    simp only [undo, writable, History.popUndo, top, Bool.false_eq_true, if_false, Option.some.injEq,
      Prod.mk.injEq] at done
    rw [← done.1]
    exact carried
  | redone done =>
    obtain ⟨writable, entry, rest, top⟩ := redo_eq_some done
    have line := coherent.redo
    rw [top] at line
    obtain ⟨same, next, links, _⟩ := line
    obtain ⟨change, redoes, _⟩ := links.change
    have forward : ∃ change : Change document.text.bytes next, Performs entry.redo change :=
      same ▸ ⟨change, redoes⟩
    obtain ⟨change, redoes⟩ := forward
    have carried : Carried document (document.perform op) (document.applyValidated entry.redo
        false).1 entry.redo :=
      .of_change rfl change redoes false (redo_eq top done).1
    refine ⟨entry.redo, ?_⟩
    simp only [redo, writable, History.popRedo, top, Bool.false_eq_true, if_false, Option.some.injEq,
      Prod.mk.injEq] at done
    rw [← done.1]
    exact carried

/-- The report frames the edits, which are in order and apart. -/
theorem Carried.framed {after : Document} (indexed : document.text.Indexed)
    (carried : Carried document after applied transaction) :
    Framed document.text after.text transaction applied := by
  obtain ⟨⟨change, performs⟩, here, record, same, rfl, text⟩ := carried
  have delta : (here.applyValidated transaction record).1.lineDelta =
      (newlines after.text.bytes - newlines document.text.bytes : Int) := by
    have counted := Replay.run_lineDelta ⟨here.text, 0, 0, here.selection.head⟩ transaction.edits
    change Replay.lineDelta _ - _ = (0 : Int) - newlines here.text.bytes at counted
    rw [text, ← same]
    simp only [applyValidated]
    omega
  have place {edit : Edit} (member : edit ∈ transaction.edits) :=
    change.performs_boundaries performs edit member
  have apart : transaction.edits.Pairwise Edit.clear := isChain_iff_pairwise.mp transaction.disjoint
  cases shape : transaction.edits with
  | nil =>
    have none_ {edit : Edit} (member : edit ∈ transaction.edits) : False := by
      rw [shape] at member
      cases member
    refine ⟨fun edit member => (none_ member).elim, fun edit member => (none_ member).elim, ?_, delta⟩
    simp only [applyValidated, shape]
    exact Nat.le_refl _
  | cons first rest =>
    obtain ⟨front, last, whole⟩ : ∃ front last, transaction.edits = front ++ [last] := by
      rw [shape]
      exact ⟨_, _, (dropLast_append_getLast (cons_ne_nil first rest)).symm⟩
    have firstLine : (here.applyValidated transaction record).1.firstLine =
        document.text.lineOfOffset first.range.start := by
      simp only [applyValidated, shape, same]
      rfl
    have lastLine : (here.applyValidated transaction record).1.lastLine =
        document.text.lineOfOffset last.range.stop := by
      simp only [applyValidated, whole, same, getLast?_append, getLast?_singleton]
      rfl
    have starts : ∀ edit ∈ transaction.edits, first.range.start ≤ edit.range.start := by
      intro edit member
      rw [shape] at member apart
      rcases mem_cons.mp member with rfl | later
      · exact Nat.le_refl _
      · exact Nat.le_trans first.range.ordered ((pairwise_cons.mp apart).1 edit later)
    have stops : ∀ edit ∈ transaction.edits, edit.range.stop ≤ last.range.stop := by
      intro edit member
      rw [whole] at member apart
      rcases mem_append.mp member with early | only
      · exact Nat.le_trans ((pairwise_append.mp apart).2.2 edit early last mem_cons_self)
          last.range.ordered
      · rw [mem_singleton.mp only]
    have some_ : first ∈ transaction.edits := by
      rw [shape]
      exact mem_cons_self
    have last_ : last ∈ transaction.edits := by
      rw [whole]
      exact mem_append_right _ mem_cons_self
    refine ⟨?_, ?_, ?_, delta⟩
    · intro edit member
      rw [firstLine]
      exact lineOfOffset_mono indexed (starts edit member) (place member).1.1
    · intro edit member
      rw [lastLine]
      exact lineOfOffset_mono indexed (stops edit member) (place last_).2.1
    · rw [firstLine, lastLine]
      exact lineOfOffset_mono indexed (Nat.le_trans first.range.ordered (stops first some_))
        (place last_).2.1

/-- Whatever is applied, undone or redone, the folds stay on their blocks exactly where they are
steady. -/
theorem folds_stay_iff (reached : document.Reached) (op : Op)
    (report : document.reported op = some applied) :
    (∃ transaction, Carried document (document.perform op) applied transaction) ∧
      ∀ transaction, Carried document (document.perform op) applied transaction →
        ∀ (script : Script) (folds : Folds), folds.Fits script document.text →
          (Stays script document.text (document.perform op).text transaction folds
              (folds.rescanEdited script (document.perform op).text applied) ↔
            Steady script document.text (document.perform op).text transaction applied
            folds.folded) := by
  refine ⟨exists_carried reached op report, ?_⟩
  intro transaction carried script folds fits
  have indexed := reached.indexed
  have indexed' := (Reached.call op reached).indexed
  obtain ⟨change, performs⟩ := carried.performs
  exact stays_iff indexed indexed' performs (carried.framed indexed) fits

/-- A block in a block. -/
def nestedBlocks : Document := .fromString (.ofChars "x:\n  y:\n    z".toList) false

/-- The folds of a document with one block folded. -/
def foldedAt (document : Document) (line : Nat) : Folds where
  regions := regions asciiScript document.text
  folded := ⟨[line], pairwise_singleton _ _⟩
  hidden := hiddenBy (regions asciiScript document.text) [line]

theorem foldedAt_fits {line : Nat} (heads : Heads asciiScript document.text line) :
    (foldedAt document line).Fits asciiScript document.text := by
  refine ⟨rfl, ?_, rfl⟩
  intro other member
  rw [mem_singleton.mp member]
  exact heads

/-- A line break typed above a folded block takes the fold along. -/
theorem folds_stay_iff_newline :
    let document := Document.fromString (.ofChars "q\nx:\n  y".toList) false
    let after := document.perform (.insert (.ofChars ['\n']) .input)
    ∃ transaction, Carried document after ⟨1, 0, 0, 1⟩ transaction ∧
      Stays asciiScript document.text after.text transaction (foldedAt document 1)
        ((foldedAt document 1).rescanEdited asciiScript after.text ⟨1, 0, 0, 1⟩) := by
  intro document after
  have heads : Heads asciiScript document.text 1 := by
    rw [Heads, regions_eq]
    decide +kernel
  obtain ⟨⟨transaction, carried⟩, law⟩ := @folds_stay_iff document ⟨1, 0, 0, 1⟩ (.load _ _)
    (.insert (.ofChars ['\n']) .input) (by decide)
  refine ⟨transaction, carried, (law transaction carried _ _ (foldedAt_fits heads)).mpr ⟨?_, ?_, ?_⟩⟩
  · intro header member _ low
    rw [mem_singleton.mp member] at low
    exact absurd low (by decide)
  · intro header member _ low
    rw [mem_singleton.mp member] at low
    exact absurd low (by decide)
  · intro header member _ low
    rw [mem_singleton.mp member] at low
    exact absurd low (by decide)

/-- The folded block's first line. -/
def headerDelete : Transaction := ⟨[.delete (.new 0 3)], .singleton _, .input, .caret 0, none⟩

/-- The header of a folded block is deleted, and the block inside, which was open, is folded. -/
theorem folds_move :
    ¬ ∀ (document : Document) (op : Op) (applied : Applied) (transaction : Transaction)
    (script : Script) (folds : Folds), document.Reached → document.reported op = some applied →
      Carried document (document.perform op) applied transaction → folds.Fits script document.text →
        Stays script document.text (document.perform op).text transaction folds
          (folds.rescanEdited script (document.perform op).text applied) := by
  intro always
  have heads : Heads asciiScript nestedBlocks.text 0 := by
    rw [Heads, regions_eq]
    decide +kernel
  have inner : Heads asciiScript (nestedBlocks.perform (.apply headerDelete)).text 0 := by
    rw [Heads, regions_eq]
    decide +kernel
  obtain ⟨new, change, performs⟩ := @validate_ok headerDelete nestedBlocks (by decide)
  have carried : Carried nestedBlocks (nestedBlocks.perform (.apply headerDelete))
      (nestedBlocks.applyValidated headerDelete true).1 headerDelete :=
    .of_change rfl change performs true (by decide)
  have stays := always nestedBlocks (.apply headerDelete) _ headerDelete asciiScript
    (foldedAt nestedBlocks 0) (.load _ _) (by decide) carried (foldedAt_fits heads)
  obtain ⟨header, member, offset, _, stop, keeps, _⟩ := stays.landed 0
    (mem_rescanEdited.mpr ⟨inner, 0, mem_singleton_self 0, by decide⟩)
  rw [mem_singleton.mp member] at stop
  have short : nestedBlocks.text.lineEnd 0 = 2 := by decide
  rcases keeps _ mem_cons_self with before | behind
  · cases before
  · have long : 3 ≤ offset := behind
    omega

end Calls

end ForgeNode.Editor.Fold
