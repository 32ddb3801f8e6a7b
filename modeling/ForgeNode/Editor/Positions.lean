import ForgeNode.Editor.Landing

/-! Offsets as lines and columns, and back. -/

namespace ForgeNode.Editor

open List Utf8

/-- Offset of `column` bytes into `line`, clamped to that line's end. -/
def Text.offsetOf (text : Text) (position : LineCol) : Nat :=
  let line := min position.line (text.lineStarts.length - 1)
  let start := text.lineStarts.getD line 0
  text.clampOffset (min (start + position.column) (text.lineEnd line))

/-- A line of the text, and a boundary of it. -/
structure LineCol.Within (position : LineCol) (text : Text) : Prop where
  line : position.line < text.lineCount
  column : (text.line position.line).IsBoundary position.column

section Partition

variable {p : Nat → Bool} {list : List Nat} {count index : Nat}

theorem partitionPoint_eq (short : count ≤ list.length)
    (front : ∀ start ∈ list.take count, p start = true)
    (behind : ∀ next, list[count]? = some next → p next = false) :
    partitionPoint p list = count := by
  rw [partitionPoint]
  conv_lhs => rw [← take_append_drop count list, takeWhile_append_of_pos front]
  have none_ : (list.drop count).takeWhile p = [] := by
    cases rest : list.drop count with
    | nil => rfl
    | cons next rest =>
      have there : list[count]? = some next := by
        rw [← Nat.add_zero count, ← getElem?_drop, rest]
        rfl
      exact takeWhile_cons_of_neg (by rw [behind next there]; exact Bool.false_ne_true)
  rw [none_, append_nil, length_take_of_le short]

theorem partitionPoint_holds (before : index < partitionPoint p list) :
    ∃ start, list[index]? = some start ∧ p start = true := by
  have front : (list.takeWhile p)[index]? = some (list.takeWhile p)[index] :=
    getElem?_eq_getElem before
  refine ⟨(list.takeWhile p)[index], ?_, all_eq_true.mp all_takeWhile _ (getElem_mem before)⟩
  obtain ⟨rest, whole⟩ := @List.takeWhile_prefix _ list p
  rw [← front]
  conv_lhs => rw [← whole, getElem?_append_left before]

theorem partitionPoint_fails {next : Nat} (there : list[partitionPoint p list]? = some next) :
    p next = false := by
  induction list with
  | nil => cases there
  | cons start rest ih =>
    cases holds : p start with
    | false =>
      rw [partitionPoint, takeWhile_cons_of_neg (by rw [holds]; exact Bool.false_ne_true)] at there
      rw [← Option.some.inj there]
      exact holds
    | true =>
      rw [partitionPoint, takeWhile_cons_of_pos holds] at there
      exact ih there

end Partition

section Lines

variable {text : Text} {line offset column : Nat}

/-- The line of an offset starts at it or before, and the next one behind it. -/
theorem lineOfOffset_spec (indexed : text.Indexed) (inside : offset ≤ text.len) :
    text.lineStart (text.lineOfOffset offset) ≤ offset ∧
      ∀ next, text.lineStarts[text.lineOfOffset offset + 1]? = some next → offset < next := by
  have first : text.lineStarts[0]? = some 0 := by rw [indexed]; rfl
  have some_ : partitionPoint (fun start => decide (start ≤ offset)) text.lineStarts ≠ 0 := by
    intro zero
    have there : text.lineStarts[partitionPoint (fun start => decide (start ≤ offset))
        text.lineStarts]? = some 0 := by
      rw [zero]
      exact first
    exact absurd (Nat.zero_le _) (of_decide_eq_false (partitionPoint_fails there))
  have line : text.lineOfOffset offset + 1 =
      partitionPoint (fun start => decide (start ≤ offset)) text.lineStarts := by
    rw [Text.lineOfOffset, Nat.min_eq_left inside]
    omega
  constructor
  · obtain ⟨start, found, low⟩ := partitionPoint_holds (by rw [← line]; exact Nat.lt_succ_self _)
    have here := lineStart_getElem? (indexed.lineOfOffset_lt offset)
    rw [← Option.some.inj (found.symm.trans here)]
    exact of_decide_eq_true low
  · intro next after
    rw [line] at after
    exact Nat.lt_of_not_le (of_decide_eq_false (partitionPoint_fails after))

/-- No other line does. -/
theorem lineOfOffset_eq (indexed : text.Indexed) (there : line < text.lineCount)
    (inside : offset ≤ text.len) (start : text.lineStart line ≤ offset)
    (next : ∀ next, text.lineStarts[line + 1]? = some next → offset < next) :
    text.lineOfOffset offset = line := by
  have here := lineStart_getElem? there
  rw [Text.lineOfOffset, Nat.min_eq_left inside, partitionPoint_eq there, Nat.succ_sub_one]
  · intro earlier member
    obtain ⟨place, low, rfl⟩ := mem_take_iff_getElem.mp member
    apply decide_eq_true
    have found : text.lineStarts[place]? = some text.lineStarts[place] := getElem?_eq_getElem _
    rcases Nat.lt_or_ge place line with below | same
    · have order := start_lt indexed found here below
      omega
    · obtain rfl : place = line := by omega
      rw [Option.some.inj (found.symm.trans here)]
      exact start
  · intro later after
    exact decide_eq_false (Nat.not_le.mpr (next later after))

theorem lineEnd_lt_next (indexed : text.Indexed) (there : line < text.lineCount) :
    text.lineEnd line ≤ text.len ∧ ∀ next, text.lineStarts[line + 1]? = some next →
    text.lineEnd line < next := by
  refine ⟨(indexed.lineEnd_isBoundary line).1, ?_⟩
  intro next after
  have order := start_lt indexed (lineStart_getElem? there) after (Nat.lt_succ_self _)
  unfold Text.lineEnd
  simp only [min_line there, after, Text.beforeReturn]
  split <;> omega

theorem lineOfOffset_column (indexed : text.Indexed) (there : line < text.lineCount)
    (inside : column ≤ (text.line line).len) :
    text.lineOfOffset (text.lineStart line + column) = line := by
  have size := line_len indexed there
  have order := lineStart_le_lineEnd indexed there
  obtain ⟨bound, before⟩ := lineEnd_lt_next indexed there
  apply lineOfOffset_eq indexed there (by omega) (Nat.le_add_right _ _)
  intro next after
  have later := before next after
  omega

/-- A place for a caret is on its line, in front of the terminator. -/
theorem Whole.le_lineEnd (indexed : text.Indexed) (whole : Whole text.bytes offset) :
    offset ≤ text.lineEnd (text.lineOfOffset offset) := by
  have there := indexed.lineOfOffset_lt offset
  obtain ⟨_, before⟩ := lineOfOffset_spec indexed whole.boundary.1
  unfold Text.lineEnd
  simp only [min_line there]
  split
  · rename_i next after
    obtain ⟨newline, rfl, ends⟩ := indexed.newline_before after
    have low := before _ after
    unfold Text.beforeReturn
    split
    · rename_i return_
      rw [Bool.and_eq_true, beq_iff_eq] at return_
      obtain ⟨past, byte⟩ := return_
      have positive : 0 < newline := Nat.lt_of_le_of_lt (Nat.zero_le _) (of_decide_eq_true past)
      -- at the newline itself the offset would split the pair
      have other : offset ≠ newline := by
        intro same
        exact whole.outside
          ⟨newline - 1, by omega, byte, by rw [Nat.sub_add_cancel positive]; exact ends⟩
      omega
    · omega
  · exact whole.boundary.1

/-- A boundary of the text within a line is a boundary of the line. -/
theorem column_isBoundary (indexed : text.Indexed) (there : line < text.lineCount)
    (boundary : text.bytes.IsBoundary (text.lineStart line + column))
    (inside : column ≤ (text.line line).len) : (text.line line).IsBoundary column := by
  refine ⟨inside, ?_⟩
  rcases Nat.eq_zero_or_pos column with rfl | positive
  · rfl
  have size := line_len indexed there
  have clean := boundary.2
  unfold isCharBoundary at clean ⊢
  rw [if_neg (by omega)] at clean ⊢
  rcases Nat.lt_or_eq_of_le inside with within | ends
  · have byte : (text.line line).bytes[column]? = text.bytes.bytes[text.lineStart line +
        column]? := by
      rw [line_bytes indexed there, getElem?_drop, getElem?_take_of_lt (by omega)]
    have here : column < (text.line line).bytes.length := within
    rw [← byte, getElem?_eq_getElem here] at clean
    rw [getElem?_eq_getElem here]
    exact clean
  · have beyond : (text.line line).bytes[column]? = none := by
      rw [ends]
      exact getElem?_eq_none (Nat.le_refl _)
    rw [beyond, ends]
    exact beq_self_eq_true _

theorem lineCol_of_whole (whole : Whole text.bytes offset) (indexed : text.Indexed) :
    text.lineCol offset = ⟨text.lineOfOffset offset,
      offset - text.lineStart (text.lineOfOffset offset)⟩ := by
  have here := lineStart_getElem? (indexed.lineOfOffset_lt offset)
  simp only [Text.lineCol, Text.clampOffset_of_isBoundary whole.boundary, getD_eq_getElem?_getD, here,
    Option.getD_some]

theorem offsetOf_of_within {position : LineCol} (within : position.Within text)
    (indexed : text.Indexed) : text.offsetOf position = text.lineStart position.line +
    position.column := by
  have size := line_len indexed within.line
  have order := lineStart_le_lineEnd indexed within.line
  have column := within.column.1
  have fits : text.lineStart position.line + position.column ≤ text.lineEnd position.line := by omega
  have here := lineStart_getElem? within.line
  simp only [Text.offsetOf, min_line within.line, getD_eq_getElem?_getD, here, Option.getD_some,
    Nat.min_eq_left fits]
  exact Text.clampOffset_of_isBoundary (inLine_whole indexed within.line within.column).boundary

/-- A place for a caret is a column of its line. -/
theorem lineCol_within (indexed : text.Indexed) (whole : Whole text.bytes offset) :
    (text.lineCol offset).Within text ∧ text.offsetOf (text.lineCol offset) = offset := by
  have there := indexed.lineOfOffset_lt offset
  have start := (lineOfOffset_spec indexed whole.boundary.1).1
  have stop := whole.le_lineEnd indexed
  have size := line_len indexed there
  have place : text.lineStart (text.lineOfOffset offset) + (offset - text.lineStart
      (text.lineOfOffset offset)) =
      offset := by omega
  have within : (text.lineCol offset).Within text := by
    rw [lineCol_of_whole whole indexed]
    refine ⟨there, column_isBoundary indexed there ?_ (by simp only; omega)⟩
    rw [place]
    exact whole.boundary
  refine ⟨within, ?_⟩
  rw [offsetOf_of_within within indexed, lineCol_of_whole whole indexed]
  exact place

theorem offsetOf_whole (indexed : text.Indexed) {position : LineCol}
    (within : position.Within text) : Whole text.bytes (text.offsetOf position) ∧
    text.lineCol (text.offsetOf position) = position := by
  have whole := inLine_whole indexed within.line within.column
  rw [offsetOf_of_within within indexed]
  refine ⟨whole, ?_⟩
  rw [lineCol_of_whole whole indexed, lineOfOffset_column indexed within.line within.column.1,
    Nat.add_sub_cancel_left]

end Lines

/-- An edit leaves the index that a scan of the new bytes finds, and by it offsets and positions
stand for each other: the offsets on boundaries outside a terminator, and the boundaries of the
lines. -/
theorem replace_positions {text : Text} (indexed : text.Indexed) (range : Range) (insert : Str) :
    let edited := text.replace range insert
    edited.lineStarts = scanLineStarts edited.bytes ∧
      (∀ offset, Whole edited.bytes offset →
        (edited.lineCol offset).Within edited ∧ edited.offsetOf (edited.lineCol offset) = offset) ∧
      ∀ position : LineCol, position.Within edited →
        Whole edited.bytes (edited.offsetOf position) ∧ edited.lineCol (edited.offsetOf position) =
          position := by
  intro edited
  have after : edited.Indexed := Text.replace_indexed indexed range insert
  exact ⟨after, fun _ whole => lineCol_within after whole, fun _ within =>
    offsetOf_whole after within⟩

/-- A line break in place of a letter between a CRLF and the end. -/
theorem replace_positions_newline :
    ((Text.new (.ofChars "a\r\nbc".toList)).replace (.new 3 4) (.ofChars ['\n'])).lineStarts =
      [0, 3, 4] ∧
      let edited := (Text.new (.ofChars "a\r\nbc".toList)).replace (.new 3 4) (.ofChars ['\n'])
      edited.lineStarts = scanLineStarts edited.bytes :=
  ⟨by decide, (replace_positions (Text.new_indexed _) (.new 3 4) (.ofChars ['\n'])).1⟩

end ForgeNode.Editor
