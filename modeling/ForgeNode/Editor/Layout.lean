import ForgeNode.Editor.Landing
import ForgeNode.Editor.Typing
import ForgeNode.Lib.Rows

/-! A text as rows with their terminators, and the lines and columns of its offsets in them. -/

namespace ForgeNode.Editor

open List hiding choose
open Utf8 Rows

variable {front back : List (List UInt8)} {row : List UInt8}

section Starts

theorem newlineOffsets_of_clean {body : List UInt8}
    (clean : ∀ byte ∈ body, (byte == newlineByte) = false) : newlineOffsets body = [] := by
  have size : (newlineOffsets body).length = 0 := by
    rw [newlineOffsets, length_findIdxs]
    exact countP_eq_zero.mpr fun byte member => by rw [clean byte member]; exact Bool.false_ne_true
  exact length_eq_zero_iff.mp size

theorem starts_row {body : List UInt8} (clean : ∀ byte ∈ body, (byte == newlineByte) = false)
    {end_ : UInt8} (closes : (end_ == newlineByte) = true) (rest : List UInt8) :
    starts (body ++ [end_] ++ rest) = 0 :: (starts rest).map ((body ++ [end_]).length + ·) := by
  have alone : starts (body ++ [end_]) = [0, body.length + 1] := by
    rw [starts_append, starts, newlineOffsets_of_clean clean]
    simp only [newlineOffsets, findIdxs_cons, closes, findIdxs_nil]
    rfl
  rw [starts_append, alone, starts, map_cons, map_map, length_append]
  simp only [cons_append, nil_append, length_singleton, Nat.add_zero, List.cons.injEq, true_and]
  apply map_congr_left
  intro offset _
  simp only [Function.comp_apply]
  omega

theorem starts_getElem? {rows : List (List UInt8)} (rowed : Rowed (· == newlineByte) rows)
    (index : Nat) : (starts rows.flatten)[index]? =
      if index < rows.length then some (rows.take index).flatten.length else none := by
  induction rowed generalizing index with
  | last inside =>
    rename_i row
    rw [flatten_singleton, starts, newlineOffsets_of_clean inside]
    cases index with
    | zero => rfl
    | succ index => rfl
  | cons inside closes rest ih =>
    rw [flatten_cons, starts_row inside closes]
    cases index with
    | zero => rfl
    | succ index =>
      rw [getElem?_cons_succ, getElem?_map, ih]
      simp only [length_cons, Nat.add_lt_add_iff_right, take_succ_cons, flatten_cons]
      split
      · rw [Option.map_some, ← length_append]
      · rfl

theorem countP_front (rowed : Rowed (· == newlineByte) (front ++ row :: back)) :
    front.flatten.countP (· == newlineByte) = front.length := by
  induction front with
  | nil => rfl
  | cons first rest ih =>
    obtain ⟨body, item, shape, inside, closes, later⟩ := rowed.ended (by simp)
    have none_ : body.countP (· == newlineByte) = 0 := countP_eq_zero.mpr fun byte member => by
      rw [inside byte member]
      exact Bool.false_ne_true
    rw [shape, flatten_cons, countP_append, countP_append, ih later, none_, countP_singleton,
      if_pos closes, length_cons]
    omega

end Starts

/-- A row without its terminator. -/
def lineOf (row : List UInt8) : List UInt8 :=
  if row.getLast? = some newlineByte then
    if row.dropLast.getLast? = some 13 then row.dropLast.dropLast else row.dropLast
  else row

theorem lineOf_ended (body : List UInt8) {end_ : UInt8} (closes : (end_ == newlineByte) = true) :
    lineOf (body ++ [end_]) = if body.getLast? = some 13 then body.dropLast else body := by
  obtain rfl := beq_iff_eq.mp closes
  unfold lineOf
  rw [getLast?_concat, if_pos rfl, dropLast_concat]

theorem lineOf_clean (clean : ∀ byte ∈ row, (byte == newlineByte) = false) : lineOf row = row := by
  apply if_neg
  intro ends
  have never := clean newlineByte (mem_of_getLast? ends)
  rw [beq_self_eq_true] at never
  cases never

/-- The terminator of a row. -/
def terminatorOf (row : List UInt8) : List UInt8 := row.drop (lineOf row).length

theorem lineOf_append (row : List UInt8) : lineOf row ++ terminatorOf row = row := by
  have first : lineOf row <+: row := by
    unfold lineOf
    split_ifs
    · exact (List.dropLast_prefix _).trans (List.dropLast_prefix _)
    · exact dropLast_prefix _
    · exact prefix_refl _
  obtain ⟨rest, whole⟩ := first
  have behind : terminatorOf row = rest := by
    rw [terminatorOf]
    generalize lineOf row = line at whole
    rw [← whole, drop_left]
  rw [behind, whole]

/-- What can end a line: nothing at all, a newline, or a carriage return and a newline. -/
def Terminates (line end_ : List UInt8) : Prop :=
  (end_ = [] ∧ line.getLast? ≠ some newlineByte) ∨ (end_ = [newlineByte] ∧ line.getLast? ≠ some 13) ∨
    end_ = [13, newlineByte]

theorem terminates (row : List UInt8) : Terminates (lineOf row) (terminatorOf row) := by
  have parts := lineOf_append row
  generalize shape : terminatorOf row = end_ at parts ⊢
  unfold lineOf at parts ⊢
  split_ifs at parts ⊢ with newline return_
  · obtain ⟨body, rfl⟩ := getLast?_eq_some_iff.mp newline
    rw [dropLast_concat] at parts return_ ⊢
    obtain ⟨line, rfl⟩ := getLast?_eq_some_iff.mp return_
    rw [dropLast_concat, append_assoc] at parts
    exact .inr (.inr (append_cancel_left parts))
  · obtain ⟨body, rfl⟩ := getLast?_eq_some_iff.mp newline
    rw [dropLast_concat] at parts return_ ⊢
    exact .inr (.inl ⟨append_cancel_left parts, return_⟩)
  · exact .inl ⟨append_right_eq_self.mp parts, newline⟩

theorem Terminates.lineOf {line end_ : List UInt8} (ends : Terminates line end_) :
    lineOf (line ++ end_) = line ∧ terminatorOf (line ++ end_) = end_ := by
  have line_ : Editor.lineOf (line ++ end_) = line := by
    rcases ends with ⟨rfl, clean⟩ | ⟨rfl, clean⟩ | rfl
    · rw [append_nil]
      exact if_neg clean
    · rw [lineOf_ended line (beq_self_eq_true _), if_neg clean]
    · have split : line ++ [13, newlineByte] = (line ++ [13]) ++ [newlineByte] := by
        rw [append_assoc]
        rfl
      rw [split, lineOf_ended _ (beq_self_eq_true _), getLast?_concat, if_pos rfl, dropLast_concat]
  refine ⟨line_, ?_⟩
  rw [terminatorOf, line_, drop_left]

theorem Terminates.behind {first back end_ : List UInt8} (ends : Terminates (first ++ back) end_)
    (other : List UInt8) (some_ : back ≠ []) : Terminates (other ++ back) end_ := by
  unfold Terminates at ends ⊢
  rw [getLast?_append_of_ne_nil _ some_] at ends ⊢
  exact ends

theorem Terminates.blank {line end_ blanks : List UInt8} (ends : Terminates line end_)
    (clean : ∀ byte ∈ blanks, Indent.isBlankByte byte = true) : Terminates blanks end_ := by
  have never (byte : UInt8) (printed : Indent.isBlankByte byte = false) : blanks.getLast? ≠
      some byte := by
    intro last
    have blank := clean byte (mem_of_getLast? last)
    rw [printed] at blank
    cases blank
  rcases ends with ⟨rfl, _⟩ | ⟨rfl, _⟩ | rfl
  · exact .inl ⟨rfl, never newlineByte rfl⟩
  · exact .inr (.inl ⟨rfl, never 13 rfl⟩)
  · exact .inr (.inr rfl)

namespace Text

/-- The rows of a text, with their terminators. -/
structure Laid (text : Text) (rows : List (List UInt8)) : Prop where
  rowed : Rowed (· == newlineByte) rows
  whole : rows.flatten = text.bytes.bytes

section Laid

variable {text : Text} {rows : List (List UInt8)} (indexed : text.Indexed) (laid : text.Laid rows)

include indexed laid

theorem Laid.lineStarts_getElem? (index : Nat) : text.lineStarts[index]? =
    if index < rows.length then some (rows.take index).flatten.length else none := by
  rw [indexed]
  change (starts text.bytes.bytes)[index]? = _
  rw [← laid.whole]
  exact starts_getElem? laid.rowed index

theorem Laid.lineCount : text.lineCount = rows.length := by
  have known := laid.lineStarts_getElem? indexed
  unfold Text.lineCount
  rcases Nat.lt_trichotomy text.lineStarts.length rows.length with less | same | more
  · have none_ := known text.lineStarts.length
    rw [if_pos less, getElem?_eq_none (Nat.le_refl _)] at none_
    cases none_
  · exact same
  · have some_ := known rows.length
    rw [if_neg (Nat.lt_irrefl _), getElem?_eq_getElem more] at some_
    cases some_

theorem Laid.lineStart {index : Nat} (inside : index < rows.length) :
    text.lineStart index = (rows.take index).flatten.length := by
  have here := lineStart_getElem? (laid.lineCount indexed ▸ inside)
  rw [laid.lineStarts_getElem? indexed, if_pos inside] at here
  exact (Option.some.inj here).symm

/-- The line of a column within a row. -/
theorem Laid.lineOfOffset (shape : rows = front ++ row :: back)
    {column : Nat} (inside : column < row.length ∨ (back = [] ∧ column ≤ row.length)) :
    text.lineOfOffset (front.flatten.length + column) = front.length := by
  have rowed := laid.rowed
  rw [shape] at rowed
  have clean : (row.take column).countP (· == newlineByte) = 0 := by
    have last := rowed.behind
    apply countP_eq_zero.mpr
    intro byte member
    cases last with
    | last none_ =>
      rw [none_ byte (mem_of_mem_take member)]
      exact Bool.false_ne_true
    | cons none_ closes later =>
      rcases inside with within | ⟨ends, _⟩
      · rw [length_append, length_singleton] at within
        rw [take_append_of_le_length (Nat.le_of_lt_succ within)] at member
        rw [none_ byte (mem_of_mem_take member)]
        exact Bool.false_ne_true
      · exact absurd ends later.ne_nil
  have size : (row.take column).length = column := by
    rw [length_take]
    omega
  have whole : text.bytes.bytes = (front.flatten ++ row.take column) ++
      (row.drop column ++ back.flatten) := by
    rw [← laid.whole, shape, flatten_append, flatten_cons, append_assoc, ← append_assoc
      (row.take column), take_append_drop]
  have line := indexed.lineOfOffset whole
  rw [length_append, size, countP_append, clean, countP_front rowed] at line
  exact line

theorem Laid.lineCol (shape : rows = front ++ row :: back)
    {column : Nat} (inside : column < row.length ∨ (back = [] ∧ column ≤ row.length))
    (boundary : text.bytes.IsBoundary (front.flatten.length + column)) :
    text.lineCol (front.flatten.length + column) = ⟨front.length, column⟩ := by
  have here : front.length < rows.length := by
    rw [shape, length_append, length_cons]
    omega
  have start : text.lineStarts.getD front.length 0 = front.flatten.length := by
    rw [getD_eq_getElem?_getD, laid.lineStarts_getElem? indexed, if_pos here, shape, take_left]
    rfl
  simp only [Text.lineCol, Text.clampOffset_of_isBoundary boundary, laid.lineOfOffset indexed shape
    inside, start, Nat.add_sub_cancel_left]

theorem Laid.lineEnd (shape : rows = front ++ row :: back) :
    text.lineEnd front.length = front.flatten.length + (lineOf row).length := by
  have known := laid.lineStarts_getElem? indexed
  have count : rows.length = front.length + (back.length + 1) := by
    rw [shape, length_append, length_cons]
  have here : front.length < rows.length := by omega
  have rowed := laid.rowed
  rw [shape] at rowed
  have start : text.lineStarts.getD front.length 0 = front.flatten.length := by
    rw [getD_eq_getElem?_getD, known, if_pos here, shape, take_left]
    rfl
  have whole : text.bytes.bytes = front.flatten ++ (row ++ back.flatten) := by
    rw [← laid.whole, shape, flatten_append, flatten_cons]
  unfold Text.lineEnd
  simp only [min_line (laid.lineCount indexed ▸ here), start, known]
  by_cases more : back = []
  · have last := rowed.behind
    rw [more] at last count
    rw [if_neg (by rw [count]; exact Nat.lt_irrefl _)]
    cases last with
    | last clean =>
      rw [lineOf_clean clean]
      change text.bytes.bytes.length = _
      rw [whole, more, flatten_nil, append_nil, length_append]
    | cons _ _ later => exact absurd rfl later.ne_nil
  · obtain ⟨body, item, split, clean, closes, _⟩ := rowed.behind.ended more
    have some_ : 0 < back.length := length_pos_iff.mpr more
    have next : (rows.take (front.length + 1)).flatten.length - 1 = front.flatten.length +
        body.length := by
      rw [shape, split, take_length_add_append, take_succ_cons, take_zero, flatten_append,
        flatten_singleton, length_append, length_append, length_singleton]
      omega
    rw [if_pos (by omega)]
    simp only [next]
    rw [split, lineOf_ended body closes]
    unfold beforeReturn
    cases empty : body.length with
    | zero =>
      have nothing := length_eq_zero_iff.mp empty
      simp [nothing]
    | succ count =>
      have place : front.flatten.length + (count + 1) - 1 = front.flatten.length + count := by omega
      have byte : text.bytes.bytes[front.flatten.length + count]? = body.getLast? := by
        rw [whole, split, getElem?_append_right (Nat.le_add_right _ _), Nat.add_sub_cancel_left,
          append_assoc, getElem?_append_left (by omega), getLast?_eq_getElem?, empty]
        rfl
      rw [place, byte]
      have past : front.flatten.length + (count + 1) > front.flatten.length := by omega
      simp only [past, decide_true, Bool.true_and, beq_iff_eq]
      split
      · rw [length_dropLast, empty]
        rfl
      · rw [empty]

theorem Laid.line (shape : rows = front ++ row :: back) :
    (text.line front.length).bytes = lineOf row := by
  have here : front.length < rows.length := by
    rw [shape, length_append, length_cons]
    omega
  have parts := lineOf_append row
  have whole : text.bytes.bytes = front.flatten ++
      (lineOf row ++ (terminatorOf row ++ back.flatten)) := by
    rw [← laid.whole, shape, flatten_append, flatten_cons, ← append_assoc (lineOf row), parts]
  rw [line_bytes indexed (laid.lineCount indexed ▸ here), laid.lineEnd indexed shape,
    laid.lineStart indexed here, shape, take_left, whole, take_length_add_append, take_left,
    drop_left]

/-- The terminator of a row's line. -/
theorem Laid.lineTerminator (shape : rows = front ++ row :: back) :
    (text.lineTerminator front.length).bytes = terminatorOf row := by
  have count : rows.length = front.length + (back.length + 1) := by
    rw [shape, length_append, length_cons]
  have here : front.length < rows.length := by omega
  have parts := lineOf_append row
  have known := laid.lineStarts_getElem? indexed (front.length + 1)
  have whole : text.bytes.bytes = front.flatten ++
      (lineOf row ++ (terminatorOf row ++ back.flatten)) := by
    rw [← laid.whole, shape, flatten_append, flatten_cons, ← append_assoc (lineOf row), parts]
  unfold Text.lineTerminator
  simp only [min_line (laid.lineCount indexed ▸ here)]
  by_cases more : back = []
  · have last := laid.rowed
    rw [shape] at last
    have alone := last.behind
    rw [more] at alone
    rw [known, if_neg (by rw [count, more]; exact Nat.lt_irrefl _)]
    have nothing : terminatorOf row = [] := by
      cases alone with
      | last clean => rw [terminatorOf, lineOf_clean clean, drop_length]
      | cons _ _ later => exact absurd rfl later.ne_nil
    exact nothing.symm
  · have some_ : 0 < back.length := length_pos_iff.mpr more
    have next : (rows.take (front.length + 1)).flatten.length =
        front.flatten.length + ((lineOf row).length + (terminatorOf row).length) := by
      rw [shape, take_length_add_append, take_succ_cons, take_zero, flatten_append,
        flatten_singleton, length_append, ← @length_append _ (lineOf row), parts]
    rw [known, if_pos (by omega), next]
    have first := indexed.lineEnd_isBoundary front.length
    have last : text.bytes.IsBoundary
        (front.flatten.length + ((lineOf row).length + (terminatorOf row).length)) := by
      apply indexed.start_isBoundary
      rw [← next]
      exact mem_of_getElem? (known.trans (if_pos (by omega)))
    have end_ := laid.lineEnd indexed shape
    simp only
    rw [end_] at first ⊢
    unfold Str.get?
    rw [dif_pos ⟨first, last, by omega⟩]
    change ((text.bytes.bytes.take _).drop _) = _
    rw [whole, take_length_add_append, drop_length_add_append, take_length_add_append, take_left,
      drop_left]

end Laid

end Text

end ForgeNode.Editor
