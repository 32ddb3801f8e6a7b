import ForgeNode.Editor.Movement

/-! Where movement lands: on character boundaries, and not between the bytes of a CRLF. -/

namespace ForgeNode.Editor

open List Utf8

/-- Strictly between the bytes of a CRLF. -/
def Splits (body : Str) (offset : Nat) : Prop :=
  ∃ before, offset = before + 1 ∧ body.bytes[before]? = some 13 ∧ body.bytes[before + 1]? =
    some newlineByte

/-- A place for a caret. -/
structure Whole (body : Str) (offset : Nat) : Prop where
  boundary : body.IsBoundary offset
  outside : ¬Splits body offset

section Lines

variable {text : Text}

theorem min_line {line : Nat} (inside : line < text.lineCount) :
    min line (text.lineStarts.length - 1) = line := by
  unfold Text.lineCount at inside
  omega

theorem start_lt (indexed : text.Indexed) {first second start stop : Nat}
    (here : text.lineStarts[first]? = some start) (there : text.lineStarts[second]? = some stop)
    (later : first < second) : start < stop := by
  obtain ⟨low, rfl⟩ := List.getElem?_eq_some_iff.mp here
  obtain ⟨high, rfl⟩ := List.getElem?_eq_some_iff.mp there
  exact pairwise_iff_getElem.mp indexed.ascending _ _ low high later

theorem lineStart_getElem? {line : Nat} (inside : line < text.lineCount) :
    text.lineStarts[line]? = some (text.lineStart line) := by
  rw [Text.lineStart, min_line inside, getD_eq_getElem?_getD, getElem?_eq_getElem inside]
  rfl

theorem lineStart_whole (indexed : text.Indexed) {line : Nat} (inside : line < text.lineCount) :
    Whole text.bytes (text.lineStart line) := by
  have there := lineStart_getElem? inside
  refine ⟨indexed.start_isBoundary (mem_of_getElem? there), ?_⟩
  rintro ⟨before, place, return_, _⟩
  cases line with
  | zero =>
    rw [indexed] at there
    have zero : 0 = text.lineStart 0 := Option.some.inj there
    omega
  | succ line =>
    obtain ⟨offset, same, newline⟩ := indexed.newline_before there
    obtain rfl : before = offset := by omega
    rw [return_] at newline
    exact absurd (Option.some.inj newline) (by decide)

/-- No newline stands within a line. -/
theorem no_newline (indexed : text.Indexed) {line offset : Nat} (inside : line < text.lineCount)
    (from_ : text.lineStart line ≤ offset) (before : offset < text.lineEnd line) :
    text.bytes.bytes[offset]? ≠ some newlineByte := by
  intro newline
  obtain ⟨bound, is⟩ := List.getElem?_eq_some_iff.mp newline
  have start : offset + 1 ∈ text.lineStarts := by
    rw [indexed]
    refine mem_cons_of_mem _ (mem_map_of_mem ?_)
    exact mem_findIdxs_iff_exists_getElem_pos.mpr ⟨bound, beq_iff_eq.mpr is⟩
  obtain ⟨place, there⟩ := getElem?_of_mem start
  have here := lineStart_getElem? inside
  have later : line < place := by
    rcases Nat.lt_trichotomy place line with less | same | more
    · have := start_lt indexed there here less
      omega
    · rw [same, here] at there
      have := Option.some.inj there
      omega
    · exact more
  unfold Text.lineEnd at before
  simp only [min_line inside] at before
  split at before
  · rename_i next found
    have stop : text.beforeReturn (text.lineStarts.getD line 0) (next - 1) ≤ next - 1 := by
      unfold Text.beforeReturn
      split <;> omega
    rcases Nat.lt_or_eq_of_le (Nat.succ_le_of_lt later) with more | same
    · have := start_lt indexed found there more
      omega
    · rw [← same, found] at there
      have := Option.some.inj there
      omega
  · rename_i none_
    have within := (List.getElem?_eq_some_iff.mp there).1
    have beyond := List.getElem?_eq_none_iff.mp none_
    omega

theorem lineStart_le_lineEnd (indexed : text.Indexed) {line : Nat}
    (inside : line < text.lineCount) : text.lineStart line ≤ text.lineEnd line := by
  have here := lineStart_getElem? inside
  unfold Text.lineEnd
  simp only [min_line inside, getD_eq_getElem?_getD, here, Option.getD_some]
  split
  · rename_i next found
    have order := start_lt indexed here found (Nat.lt_succ_self _)
    unfold Text.beforeReturn
    split
    · rename_i ends
      simp only [Bool.and_eq_true, decide_eq_true_eq] at ends
      omega
    · omega
  · exact (indexed.start_isBoundary (mem_of_getElem? here)).1

/-- Lines do not reach past the start of a later one. -/
theorem lineEnd_le_start (indexed : text.Indexed) {line later : Nat}
    (inside : later < text.lineCount) (order : line < later) :
    text.lineEnd line ≤ text.lineStart later := by
  have there := lineStart_getElem? inside
  have first : line < text.lineCount := Nat.lt_trans order inside
  unfold Text.lineEnd
  simp only [min_line first]
  cases found : text.lineStarts[line + 1]? with
  | none =>
    have beyond := List.getElem?_eq_none_iff.mp found
    have size : text.lineCount = text.lineStarts.length := rfl
    omega
  | some next =>
    have most : next ≤ text.lineStart later := by
      rcases Nat.lt_or_eq_of_le (Nat.succ_le_of_lt order) with less | same
      · exact Nat.le_of_lt (start_lt indexed found there less)
      · rw [← same, found] at there
        rw [← same]
        exact Nat.le_of_eq (Option.some.inj there)
    simp only [Text.beforeReturn]
    split <;> omega

theorem lineEnd_whole (indexed : text.Indexed) {line : Nat} (inside : line < text.lineCount) :
    Whole text.bytes (text.lineEnd line) := by
  refine ⟨indexed.lineEnd_isBoundary line, ?_⟩
  have start := lineStart_whole indexed inside
  have here := lineStart_getElem? inside
  rintro ⟨before, place, return_, newline⟩
  unfold Text.lineEnd at place
  simp only [min_line inside, getD_eq_getElem?_getD, here, Option.getD_some] at place
  split at place
  · rename_i next found
    unfold Text.beforeReturn at place
    split at place
    · rename_i ends
      simp only [Bool.and_eq_true, decide_eq_true_eq, beq_iff_eq] at ends
      rw [← place, ends.2] at newline
      exact absurd (Option.some.inj newline) (by decide)
    · rename_i ends
      have after : next - 1 - 1 = before := by omega
      have at_start : ¬next - 1 > text.lineStart line := by
        intro past
        apply ends
        rw [after, return_]
        simp [past]
      have order := start_lt indexed here found (Nat.lt_succ_self _)
      exact start.outside ⟨before, by omega, return_, newline⟩
  · have bound := (List.getElem?_eq_some_iff.mp newline).1
    have size : text.len = text.bytes.bytes.length := rfl
    omega

theorem line_bytes (indexed : text.Indexed) {line : Nat} (inside : line < text.lineCount) :
    (text.line line).bytes = (text.bytes.bytes.take (text.lineEnd line)).drop
    (text.lineStart line) := by
  have first := (lineStart_whole indexed inside).boundary
  have last := indexed.lineEnd_isBoundary line
  unfold Text.line Str.get?
  rw [dif_pos ⟨first, last, lineStart_le_lineEnd indexed inside⟩]
  rfl

theorem line_len (indexed : text.Indexed) {line : Nat} (inside : line < text.lineCount) :
    (text.line line).len = text.lineEnd line - text.lineStart line := by
  have last : text.lineEnd line ≤ text.bytes.bytes.length := (indexed.lineEnd_isBoundary line).1
  rw [Str.len, line_bytes indexed inside, List.length_drop, length_take, Nat.min_eq_left last]

/-- A boundary of a line is a place for a caret. -/
theorem inLine_whole (indexed : text.Indexed) {line column : Nat} (inside : line < text.lineCount)
    (boundary : (text.line line).IsBoundary column) :
    Whole text.bytes (text.lineStart line + column) := by
  have bytes := line_bytes indexed inside
  have order := lineStart_le_lineEnd indexed inside
  have last := (indexed.lineEnd_isBoundary line).1
  have size := line_len indexed inside
  have fits := boundary.1
  rcases Nat.lt_or_eq_of_le fits with within | ends
  · rcases Nat.eq_zero_or_pos column with rfl | positive
    · exact lineStart_whole indexed inside
    have byte : (text.line line).bytes[column]? = text.bytes.bytes[text.lineStart line +
        column]? := by
      rw [bytes, getElem?_drop, getElem?_take_of_lt (by omega)]
    refine ⟨⟨by omega, ?_⟩, ?_⟩
    · have clean := boundary.2
      have here : column < (text.line line).bytes.length := within
      unfold isCharBoundary at clean ⊢
      rw [if_neg (by omega)] at clean ⊢
      rw [← byte, getElem?_eq_getElem here]
      rw [getElem?_eq_getElem here] at clean
      exact clean
    · rintro ⟨before, place, _, newline⟩
      rw [← place] at newline
      exact no_newline indexed inside (Nat.le_add_right _ _) (by omega) newline
  · have final : text.lineStart line + column = text.lineEnd line := by omega
    rw [final]
    exact lineEnd_whole indexed inside

end Lines

namespace Movement

variable {script : Script} {text : Text}

section Columns

theorem previousBoundary_isBoundary (lawful : script.Lawful) (line : Str) (offset : Nat) :
    line.IsBoundary (previousBoundary script line offset) := by
  unfold previousBoundary
  cases found : (((script.graphemeIndices line).map (·.1)).takeWhile (· < offset)).getLast? with
  | none => exact line.isBoundary_zero
  | some place =>
    have member := (List.takeWhile_prefix _).subset (mem_of_getLast? found)
    obtain ⟨indexed, there, rfl⟩ := List.mem_map.mp member
    exact lawful.boundary line indexed there

theorem nextBoundary_isBoundary (lawful : script.Lawful) (line : Str) (offset : Nat) :
    line.IsBoundary (nextBoundary script line offset) := by
  unfold nextBoundary
  cases found : ((script.graphemeIndices line).map (·.1)).find? (· > offset) with
  | none => exact line.isBoundary_len
  | some place =>
    obtain ⟨indexed, there, rfl⟩ := List.mem_map.mp (mem_of_find?_eq_some found)
    exact lawful.boundary line indexed there

theorem byteColumnForDisplay_isBoundary (lawful : script.Lawful) (line : Str) (target : Nat) :
    line.IsBoundary (byteColumnForDisplay script line target) := by
  have each (cell : Nat) (rest : List (Nat × Str)) (known : ∀ indexed ∈ rest,
      line.IsBoundary indexed.1) : line.IsBoundary (columnFrom script line target cell rest) := by
    induction rest generalizing cell with
    | nil => exact line.isBoundary_len
    | cons indexed rest ih =>
      unfold columnFrom
      split
      · exact known indexed mem_cons_self
      · exact ih _ fun other member => known other (mem_cons_of_mem _ member)
  exact each 0 _ (lawful.boundary line)

theorem leadingBlank_isBoundary (line : Str) (fuel : Nat) {at_ : Nat}
    (boundary : line.IsBoundary at_) :
    line.IsBoundary (leadingBlank script line.bytes fuel at_) := by
  induction fuel generalizing at_ with
  | zero => exact boundary
  | succ fuel ih =>
    unfold leadingBlank
    split
    · apply ih
      have parts := line.valid.split at_ boundary.1 boundary.clean
      obtain ⟨back, shape⟩ := parts.2.chars
      have whole : line.bytes = line.bytes.take at_ ++ encode back := by
        rw [← shape, take_append_drop]
      have size : (line.bytes.take at_).length = at_ := by
        rw [length_take]
        exact Nat.min_eq_left boundary.1
      cases back with
      | nil =>
        rename_i blank
        have none_ : charAt line.bytes at_ = none := by
          rw [charAt, shape]
          rfl
        rw [none_] at blank
        cases blank
      | cons c rest =>
        have step : nextChar line.bytes at_ = (line.bytes.take at_ ++ encode [c]).length := by
          rw [← nextChar_split _ c rest, ← whole, size]
        have split : line.bytes = (line.bytes.take at_ ++ encode [c]) ++ encode rest := by
          rw [append_assoc, ← encode_append]
          exact whole
        rw [step]
        exact Str.isBoundary_seam split (valid_encode rest)
    · exact boundary

end Columns

section Lined

variable (lawful : script.Lawful) (indexed : text.Indexed) (offset : Nat)

include lawful indexed

theorem left_whole : Whole text.bytes (left script text offset) := by
  have inside := indexed.lineOfOffset_lt offset
  simp only [left]
  split
  · exact inLine_whole indexed inside (previousBoundary_isBoundary lawful _ _)
  split
  · exact lineEnd_whole indexed (Nat.lt_of_le_of_lt (Nat.sub_le _ _) inside)
  · exact ⟨text.bytes.isBoundary_zero, fun ⟨_, place, _⟩ => by omega⟩

theorem right_whole : Whole text.bytes (right script text offset) := by
  have inside := indexed.lineOfOffset_lt offset
  simp only [right]
  split
  · exact inLine_whole indexed inside (nextBoundary_isBoundary lawful _ _)
  split
  · rename_i more
    exact lineStart_whole indexed more
  · exact lineEnd_whole indexed inside

theorem vertical_whole (delta : Int) (goal : Option Nat) :
    Whole text.bytes (vertical script text offset delta goal).1 := by
  have inside := indexed.lineOfOffset_lt offset
  simp only [vertical]
  exact inLine_whole indexed (by omega) (byteColumnForDisplay_isBoundary lawful _ _)

omit lawful in
theorem lineStart_offset_whole : Whole text.bytes (lineStart text offset) :=
  lineStart_whole indexed (indexed.lineOfOffset_lt offset)

omit lawful in
theorem lineEnd_offset_whole : Whole text.bytes (lineEnd text offset) :=
  lineEnd_whole indexed (indexed.lineOfOffset_lt offset)

omit lawful in
theorem lineFirstNonBlank_whole : Whole text.bytes (lineFirstNonBlank script text offset) := by
  have inside := indexed.lineOfOffset_lt offset
  simp only [lineFirstNonBlank]
  split
  · exact lineStart_whole indexed inside
  · exact inLine_whole indexed inside (leadingBlank_isBoundary _ _ (Str.isBoundary_zero _))

end Lined

end Movement

end ForgeNode.Editor
