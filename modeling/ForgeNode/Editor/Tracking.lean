import ForgeNode.Editor.Damage
import ForgeNode.Editor.Positions

/-! Where the lines of a text stand after the edits of a transaction. -/

namespace ForgeNode.Editor

open List hiding after
open Utf8 Splice

namespace Transaction

/-- No edit takes away the byte at an offset. -/
def Keeps (transaction : Transaction) (offset : Nat) : Prop :=
  ∀ edit ∈ transaction.edits, offset < edit.range.start ∨ edit.range.stop ≤ offset

/-- The edits in front of an offset. -/
def earlier (transaction : Transaction) (offset : Nat) : List Edit :=
  transaction.edits.filter (·.range.stop ≤ offset)

/-- How many lines the edits in front of an offset add, less those they take away. -/
def gained (transaction : Transaction) (text : Text) (offset : Nat) : Int :=
  ((transaction.earlier offset).map fun edit =>
    (newlines edit.insert - newlines (text.slice edit.range) : Int)).sum

/-- Where the byte at an offset is after the edits. -/
def moved (transaction : Transaction) (offset : Nat) : Nat :=
  (offset + ((transaction.earlier offset).map fun edit =>
    (edit.insert.len - edit.range.len : Int)).sum).toNat

/-- Some of the text of a line is kept, and on another line afterwards. -/
def StandsOn (transaction : Transaction) (text new : Text) (line other : Nat) : Prop :=
  ∃ offset, text.lineStart line ≤ offset ∧ offset < text.lineEnd line ∧ transaction.Keeps offset ∧
    new.lineOfOffset (transaction.moved offset) = other

/-- An edit starts on a line or before it, and ends on it or behind it. -/
def Touches (transaction : Transaction) (text : Text) (line : Nat) : Prop :=
  ∃ edit ∈ transaction.edits, text.lineOfOffset edit.range.start ≤ line ∧
    line ≤ text.lineOfOffset edit.range.stop

end Transaction

section Kept

variable {text new : Text} {transaction : Transaction} {change : Change text.bytes new.bytes}
  {offset : Nat}

theorem earlier_cuts (transaction : Transaction) (offset : Nat) :
    (transaction.earlier offset).map Edit.cut = transaction.cuts.filter (·.stop ≤ offset) := by
  rw [Transaction.cuts, filter_map]
  rfl

theorem gained_eq (performs : Document.Performs transaction change) (offset : Nat) :
    transaction.gained text offset =
      difference (· == newlineByte) text.bytes.bytes
      (transaction.cuts.filter (·.stop ≤ offset)) := by
  rw [← earlier_cuts, difference, map_map, Transaction.gained]
  congr 1
  apply map_congr_left
  intro edit member
  obtain ⟨first, last⟩ := change.performs_boundaries performs edit (mem_of_mem_filter member)
  have slice := Text.slice_bytes first last
  simp only [newlines, Function.comp_apply, slice, covered, Edit.cut]

theorem moved_eq (performs : Document.Performs transaction change) (offset : Nat) :
    transaction.moved offset =
      (offset + difference (fun _ => true)
      text.bytes.bytes (transaction.cuts.filter (·.stop ≤ offset))).toNat := by
  rw [← earlier_cuts, difference, map_map, Transaction.moved]
  congr 3
  apply map_congr_left
  intro edit member
  obtain ⟨_, last⟩ := change.performs_boundaries performs edit (mem_of_mem_filter member)
  have size : (covered text.bytes.bytes edit.cut).length = edit.range.len := by
    rw [covered, List.length_drop, length_take]
    have bound : edit.range.stop ≤ text.bytes.bytes.length := last.1
    simp only [Edit.cut, Nat.min_eq_left bound]
    rfl
  simp only [Function.comp_apply, countP_true, size]
  rfl

/-- What stands in front of a kept byte, before the edits and after them. -/
structure Fronts (text new : Text) (transaction : Transaction) (offset : Nat)
    (front front' : List UInt8)
    (item : UInt8) : Prop where
  old : ∃ back, text.bytes.bytes = front ++ item :: back
  new : ∃ back, new.bytes.bytes = front' ++ item :: back
  place : front.length = offset
  place' : front'.length = transaction.moved offset
  gained : transaction.gained text offset =
    (front'.countP (· == newlineByte) : Int) - front.countP (· == newlineByte)

theorem exists_fronts (performs : Document.Performs transaction change)
    (keeps : transaction.Keeps offset) (inside : offset < text.len) :
    ∃ front front' item, Fronts text new transaction offset front front' item := by
  have same : transaction.cuts = Splice.cuts 0 change.pieces := performs
  have clear : ∀ cut ∈ Splice.cuts 0 change.pieces, offset < cut.start ∨ cut.stop ≤ offset := by
    rw [← same]
    intro cut member
    obtain ⟨edit, there, rfl⟩ := List.mem_map.mp member
    exact keeps edit there
  have whole := change.old_eq
  obtain ⟨early, gap, item, rest, tail, old, after_, split, place, stops⟩ :=
    split_kept clear (Nat.zero_le _) (by rw [whole, Nat.zero_add]; exact inside)
  rw [whole] at old
  rw [change.new_eq] at after_
  rw [Nat.zero_add] at place
  have counts (p : UInt8 → Bool) : difference p text.bytes.bytes
      (transaction.cuts.filter (·.stop ≤ offset)) = (after early gap).countP p - (before early
      gap).countP p := by
    rw [old]
    exact @difference_kept _ p offset early rest gap [] (item :: before rest tail) _
      (same.trans split) (by rw [length_nil, Nat.zero_add]; exact place) stops
  refine ⟨before early gap, after early gap, item, ⟨_, old⟩, ⟨_, after_⟩, place, ?_, ?_⟩
  · have size := counts fun _ => true
    rw [countP_true, place] at size
    rw [moved_eq performs, size]
    omega
  · rw [gained_eq performs, counts]

theorem lineOfOffset_moved (indexed : text.Indexed) (indexed' : new.Indexed)
    (performs : Document.Performs transaction change) (keeps : transaction.Keeps offset)
    (inside : offset < text.len) : (new.lineOfOffset (transaction.moved offset) : Int) =
      text.lineOfOffset offset + transaction.gained text offset := by
  obtain ⟨front, front', item, fronts⟩ := exists_fronts performs keeps inside
  obtain ⟨back, old⟩ := fronts.old
  obtain ⟨back', after_⟩ := fronts.new
  have line := indexed.lineOfOffset old
  have line' := indexed'.lineOfOffset after_
  rw [fronts.place] at line
  rw [fronts.place'] at line'
  have gained := fronts.gained
  omega

/-- Kept bytes stay in their order: behind one every kept byte is on its line or a later one, and on
a later one where the first is a newline. -/
theorem gained_le (indexed : text.Indexed) (performs : Document.Performs transaction change)
    (keeps : transaction.Keeps offset) {later : Nat} (keeps' : transaction.Keeps later)
    (order : offset < later) (inside : later < text.len) :
    (text.lineOfOffset offset + transaction.gained text offset : Int) +
        (if text.bytes.bytes[offset]? = some newlineByte then 1 else 0) ≤
      text.lineOfOffset later + transaction.gained text later := by
  have same : transaction.cuts = Splice.cuts 0 change.pieces := performs
  have clear {place : Nat} (keeps : transaction.Keeps place) :
      ∀ cut ∈ Splice.cuts 0 change.pieces, place < cut.start ∨ cut.stop ≤ place := by
    rw [← same]
    intro cut member
    obtain ⟨edit, there, rfl⟩ := List.mem_map.mp member
    exact keeps edit there
  have whole := change.old_eq
  have size : text.len = (before change.pieces change.tail).length := by
    rw [whole]
    rfl
  have high : offset < 0 + (before change.pieces change.tail).length := by omega
  obtain ⟨early, gap, item, rest, tail, old, _, split, place, stops⟩ :=
    split_kept (clear keeps) (Nat.zero_le _) high
  rw [Nat.zero_add] at place
  rw [old, length_append, length_cons] at size
  obtain ⟨early', gap', item', rest', tail', old', _, split', place', stops'⟩ :=
    @split_kept _ (offset + 1) later rest tail
      (fun cut member => clear keeps' cut (by rw [split]; exact mem_append_right _ member)) order
      (by omega)
  rw [old', whole] at old
  -- the edits in front of the later byte are those in front of the first and those between
  have front : (transaction.cuts.filter (·.stop ≤ later)) = transaction.cuts.filter
      (·.stop ≤ offset) ++ (Splice.cuts (offset + 1) rest).filter (·.stop ≤ later) := by
    have first : (Splice.cuts 0 early).filter (·.stop ≤ later) = (Splice.cuts 0 early).filter
        (·.stop ≤ offset) := by
      apply filter_congr
      intro cut member
      have stop := stops cut member
      rw [decide_eq_true stop, decide_eq_true (Nat.le_trans stop (Nat.le_of_lt order))]
    have second : (Splice.cuts (offset + 1) rest).filter (·.stop ≤ offset) = [] := by
      apply filter_eq_nil_iff.mpr
      intro cut member
      obtain ⟨low, after_⟩ := le_of_mem_cuts member
      rw [decide_eq_true_eq]
      omega
    rw [same, split, filter_append, filter_append, first, second, append_nil]
  have between : difference (· == newlineByte) text.bytes.bytes
      ((Splice.cuts (offset + 1) rest).filter (·.stop ≤ later)) =
        (after early' gap').countP (· == newlineByte) - (before early' gap').countP
        (· == newlineByte) := by
    have size : (before early gap ++ [item]).length = offset + 1 := by
      rw [length_append, place, length_singleton]
    have whole : text.bytes.bytes =
        (before early gap ++ [item]) ++ before early' gap' ++ item' :: before rest' tail' := by
      rw [old]
      simp only [append_assoc, cons_append, nil_append]
    rw [whole]
    apply difference_kept
    · rw [size]
      exact split'
    · rw [size]
      exact place'
    · rw [size]
      exact stops'
  have here := indexed.lineOfOffset old
  rw [place] at here
  have there : text.bytes.bytes = (before early gap ++ item :: before early' gap') ++ item' ::
      before rest' tail' := by
    rw [old]
    simp only [append_assoc, cons_append]
  have there := indexed.lineOfOffset there
  rw [length_append, length_cons] at there
  have last : (before early gap).length + ((before early' gap').length + 1) = later := by omega
  rw [last] at there
  have is_ : text.bytes.bytes[offset]? = some item := by
    rw [old, getElem?_append_right (by omega), place, Nat.sub_self]
    rfl
  rw [gained_eq performs later, front, difference_append, between, ← gained_eq performs offset,
    here, there, is_, countP_append, countP_cons]
  simp only [Option.some.injEq, beq_iff_eq]
  split <;> omega

theorem gained_strict (indexed : text.Indexed) (performs : Document.Performs transaction change)
    (keeps : transaction.Keeps offset) {later : Nat} (keeps' : transaction.Keeps later)
    (order : offset < later) (inside : later < text.len)
    (newline : text.bytes.bytes[offset]? = some newlineByte) :
    (text.lineOfOffset offset + transaction.gained text offset : Int) <
      text.lineOfOffset later + transaction.gained text later := by
  have least := gained_le indexed performs keeps keeps' order inside
  rw [if_pos newline] at least
  omega

end Kept

section Lines

variable {text new : Text} {transaction : Transaction} {change : Change text.bytes new.bytes}
  {line offset : Nat}

theorem lineOfOffset_mono (indexed : text.Indexed) {first last : Nat} (order : first ≤ last)
    (inside : last ≤ text.len) : text.lineOfOffset first ≤ text.lineOfOffset last := by
  obtain ⟨start, _⟩ := lineOfOffset_spec indexed (Nat.le_trans order inside)
  obtain ⟨_, next⟩ := lineOfOffset_spec indexed inside
  have here := lineStart_getElem? (indexed.lineOfOffset_lt first)
  by_contra less
  have bound := indexed.lineOfOffset_lt first
  have there := lineStart_getElem? (show text.lineOfOffset last + 1 < text.lineCount by omega)
  have past := next _ there
  rcases Nat.lt_or_eq_of_le (show text.lineOfOffset last + 1 ≤
    text.lineOfOffset first by omega) with before | same
  · have := start_lt indexed there here before
    omega
  · rw [same] at past
    omega

theorem lineStart_mono (indexed : text.Indexed) {later : Nat} (order : line ≤ later)
    (there : later < text.lineCount) : text.lineStart line ≤ text.lineStart later := by
  rcases Nat.lt_or_eq_of_le order with less | rfl
  · exact Nat.le_of_lt (start_lt indexed (lineStart_getElem? (Nat.lt_trans less there))
      (lineStart_getElem? there) less)
  · exact Nat.le_refl _

/-- Some of a line is kept on another line where the edits in front of it gain the difference. -/
theorem standsOn_iff (indexed : text.Indexed) (indexed' : new.Indexed)
    (performs : Document.Performs transaction change) (there : line < text.lineCount)
    {other : Nat} : transaction.StandsOn text new line other ↔
      ∃ offset, text.lineStart line ≤ offset ∧ offset < text.lineEnd line ∧
      transaction.Keeps offset ∧
        (other : Int) = line + transaction.gained text offset := by
  apply exists_congr
  intro offset
  have bound := (lineEnd_lt_next indexed there).1
  refine and_congr_right fun start => and_congr_right fun stop => and_congr_right fun keeps => ?_
  have moved := lineOfOffset_moved indexed indexed' performs keeps (by omega)
  have here := @lineOfOffset_column text line (offset - text.lineStart line) indexed there
    (by rw [line_len indexed there]; omega)
  rw [Nat.add_sub_cancel' start] at here
  rw [here] at moved
  omega

/-- No edit takes from a line that none touches, and none ends within it. -/
theorem keeps_of_untouched (indexed : text.Indexed)
    (performs : Document.Performs transaction change) (untouched : ¬ transaction.Touches text line)
    (inside : offset ≤ text.len) (here : text.lineOfOffset offset = line)
    (start : text.lineStart line ≤ offset) : transaction.Keeps offset ∧
    transaction.gained text offset = transaction.gained text (text.lineStart line) := by
  have there : line < text.lineCount := by
    rw [← here]
    exact indexed.lineOfOffset_lt offset
  have first : text.lineOfOffset (text.lineStart line) = line :=
    @lineOfOffset_column text line 0 indexed there (Nat.zero_le _)
  constructor
  · intro edit member
    by_contra covers
    rw [not_or, Nat.not_lt, Nat.not_le] at covers
    have stop := (change.performs_boundaries performs edit member).2.1
    refine untouched ⟨edit, member, ?_, ?_⟩
    · rw [← here]
      exact lineOfOffset_mono indexed covers.1 inside
    · rw [← here]
      exact lineOfOffset_mono indexed (Nat.le_of_lt covers.2) stop
  · have same : transaction.earlier offset = transaction.earlier (text.lineStart line) := by
      apply filter_congr
      intro edit member
      have stop := (change.performs_boundaries performs edit member).2.1
      by_cases early : edit.range.stop ≤ text.lineStart line
      · rw [decide_eq_true early, decide_eq_true (Nat.le_trans early start)]
      · rw [decide_eq_false early]
        apply decide_eq_false
        intro within
        refine untouched ⟨edit, member, ?_, ?_⟩
        · rw [← here]
          exact lineOfOffset_mono indexed (Nat.le_trans edit.range.ordered within) inside
        · conv_lhs => rw [← first]
          exact lineOfOffset_mono indexed (Nat.le_of_not_le early) stop
    rw [Transaction.gained, Transaction.gained, same]

/-- An untouched line with something on it stands where the edits in front of it put it, and nowhere
else. -/
theorem standsOn_untouched (indexed : text.Indexed) (indexed' : new.Indexed)
    (performs : Document.Performs transaction change) (there : line < text.lineCount)
    (untouched : ¬ transaction.Touches text line) (filled : text.lineStart line < text.lineEnd line)
    {other : Nat} : transaction.StandsOn text new line other ↔
      (other : Int) = line + transaction.gained text (text.lineStart line) := by
  have bound := (lineEnd_lt_next indexed there).1
  have size := line_len indexed there
  have within {offset : Nat} (start : text.lineStart line ≤ offset)
      (stop : offset < text.lineEnd line) : transaction.Keeps offset ∧
      transaction.gained text offset = transaction.gained text (text.lineStart line) := by
    have here := @lineOfOffset_column text line (offset - text.lineStart line) indexed there
      (by omega)
    rw [Nat.add_sub_cancel' start] at here
    exact keeps_of_untouched indexed performs untouched (by omega) here start
  rw [standsOn_iff indexed indexed' performs there]
  constructor
  · rintro ⟨offset, start, stop, _, same⟩
    rwa [(within start stop).2] at same
  · intro same
    exact ⟨text.lineStart line, Nat.le_refl _, filled, (within (Nat.le_refl _) filled).1, same⟩

/-- On the line where an untouched one stands, nothing is kept of any other. -/
theorem untouched_alone (indexed : text.Indexed) (performs : Document.Performs transaction change)
    {other : Nat} (there : line < text.lineCount) (untouched : ¬ transaction.Touches text line)
    (filled : text.lineStart line < text.lineEnd line) (there' : other < text.lineCount)
    (start : text.lineStart other ≤ offset) (stop : offset < text.lineEnd other)
    (keeps : transaction.Keeps offset)
    (same : (line + transaction.gained text (text.lineStart line) : Int) =
      other + transaction.gained text offset) : other = line := by
  have place := @lineOfOffset_column text other (offset - text.lineStart other) indexed there'
    (by rw [line_len indexed there']; omega)
  rw [Nat.add_sub_cancel' start] at place
  have first : text.lineOfOffset (text.lineStart line) = line :=
    @lineOfOffset_column text line 0 indexed there (Nat.zero_le _)
  have bound := (lineEnd_lt_next indexed there).1
  have bound' := (lineEnd_lt_next indexed there').1
  rcases Nat.lt_trichotomy other line with above | rfl | below
  · -- the newline in front of the untouched line is kept, and the other line is above it
    have here := lineStart_getElem? there
    obtain ⟨before, rfl⟩ : ∃ before, line = before + 1 := ⟨line - 1, by omega⟩
    obtain ⟨newline, behind, byte⟩ := indexed.newline_before here
    have ends := (lineEnd_lt_next indexed there').2 _
      (lineStart_getElem? (Nat.lt_of_le_of_lt above there))
    have reach : text.lineStart (other + 1) ≤ text.lineStart (before + 1) :=
      lineStart_mono indexed above there
    have kept : transaction.Keeps newline := by
      intro edit member
      by_contra covers
      rw [not_or, Nat.not_lt, Nat.not_le] at covers
      have stop := (change.performs_boundaries performs edit member).2.1
      refine untouched ⟨edit, member, ?_, ?_⟩
      · conv_rhs => rw [← first]
        exact lineOfOffset_mono indexed (by omega) (by omega)
      · conv_lhs => rw [← first]
        exact lineOfOffset_mono indexed (by omega) stop
    obtain ⟨keeps', _⟩ := keeps_of_untouched indexed performs untouched (by omega)
      first (Nat.le_refl _)
    have low := gained_le indexed performs keeps kept (by omega) (by omega)
    have high := gained_strict indexed performs kept keeps' (by omega) (by omega) byte
    rw [place] at low
    rw [first] at high
    split at low <;> omega
  · rfl
  · -- the newline that ends the untouched line is kept, and the other line is behind it
    have after_ : line + 1 < text.lineCount := Nat.lt_of_le_of_lt below there'
    have next := lineStart_getElem? after_
    obtain ⟨newline, behind, byte⟩ := indexed.newline_before next
    have begins := start_lt indexed (lineStart_getElem? there) next (Nat.lt_succ_self _)
    have reach : text.lineStart (line + 1) ≤ text.lineStart other :=
      lineStart_mono indexed below there'
    have here : text.lineOfOffset newline = line := by
      apply lineOfOffset_eq indexed there (by omega) (by omega)
      intro item found
      rw [next] at found
      have := Option.some.inj found
      omega
    obtain ⟨kept, gained⟩ := keeps_of_untouched indexed performs untouched (by omega) here (by omega)
    have strict := gained_strict indexed performs kept keeps (by omega) (by omega) byte
    rw [here, place, gained] at strict
    omega

end Lines

section Report

variable {text new : Text} {transaction : Transaction} {change : Change text.bytes new.bytes}
  {applied : Applied}

/-- What the report of a transaction says: the lines its edits are within, and the lines they
gain. -/
structure Framed (text new : Text) (transaction : Transaction) (applied : Applied) : Prop where
  first : ∀ edit ∈ transaction.edits, applied.firstLine ≤ text.lineOfOffset edit.range.start
  last : ∀ edit ∈ transaction.edits, text.lineOfOffset edit.range.stop ≤ applied.lastLine
  order : applied.firstLine ≤ applied.lastLine
  delta : applied.lineDelta = (newlines new.bytes - newlines text.bytes : Int)

/-- Above the report no edit touches a line or gains one before it. -/
theorem Framed.above (indexed : text.Indexed)
    (framed : Framed text new transaction applied) {line : Nat} (there : line < text.lineCount)
    (above : line < applied.firstLine) :
    ¬ transaction.Touches text line ∧ transaction.gained text (text.lineStart line) = 0 := by
  have first : text.lineOfOffset (text.lineStart line) = line :=
    @lineOfOffset_column text line 0 indexed there (Nat.zero_le _)
  have inside := (lineEnd_lt_next indexed there).1
  have order := lineStart_le_lineEnd indexed there
  constructor
  · rintro ⟨edit, member, start, _⟩
    have := framed.first edit member
    omega
  · have none_ : transaction.earlier (text.lineStart line) = [] := by
      apply filter_eq_nil_iff.mpr
      intro edit member early
      have low := framed.first edit member
      have most := lineOfOffset_mono indexed (Nat.le_trans edit.range.ordered
        (of_decide_eq_true early)) (by omega)
      omega
    rw [Transaction.gained, none_]
    rfl

/-- Below the report none touches a line, and all of them are before it. -/
theorem Framed.below (indexed : text.Indexed) (performs : Document.Performs transaction change)
    (framed : Framed text new transaction applied) {line : Nat} (there : line < text.lineCount)
    (below : applied.lastLine < line) :
    ¬ transaction.Touches text line ∧ transaction.gained text (text.lineStart line) =
      applied.lineDelta := by
  have first : text.lineOfOffset (text.lineStart line) = line :=
    @lineOfOffset_column text line 0 indexed there (Nat.zero_le _)
  constructor
  · rintro ⟨edit, member, _, stop⟩
    have := framed.last edit member
    omega
  · have all : transaction.cuts.filter (·.stop ≤ text.lineStart line) = transaction.cuts := by
      apply filter_eq_self.mpr
      intro cut member
      obtain ⟨edit, within, rfl⟩ := List.mem_map.mp member
      have stop := (change.performs_boundaries performs edit within).2.1
      have most := framed.last edit within
      apply decide_eq_true
      by_contra late
      have later := lineOfOffset_mono indexed (Nat.le_of_not_le late) stop
      simp only [Edit.cut] at later
      omega
    have same : transaction.cuts = Splice.cuts ([] : List UInt8).length change.pieces := performs
    have whole : text.bytes.bytes = [] ++ before change.pieces change.tail := change.old_eq.symm
    rw [gained_eq performs, all, same, framed.delta]
    conv_lhs => rw [whole]
    rw [difference_cuts, change.new_eq, change.old_eq]
    rfl

end Report

end ForgeNode.Editor
