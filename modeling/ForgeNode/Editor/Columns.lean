import Mathlib.Data.List.TakeWhile
import ForgeNode.Editor.Execute
import ForgeNode.Editor.Positions
import ForgeNode.Editor.Surround

/-! The display column by its shortcut over bytes, and by the graphemes. -/

namespace ForgeNode.Pointer

open List Utf8 Editor Editor.Movement

/-- The graphemes of a line, one behind the other. -/
def Tiled : Nat → List (Nat × Str) → List UInt8 → Prop
  | _, [], bytes => bytes = []
  | start, (offset, grapheme) :: rest, bytes =>
    offset = start ∧ grapheme.bytes ≠ [] ∧
      ∃ more, Valid more ∧ bytes = grapheme.bytes ++ more ∧ Tiled (start + grapheme.len) rest more

/-- Folding `grapheme_width` over the graphemes that start before a byte column. -/
def segmentedColumn (script : Script) (line : Str) (byteColumn : Nat) : Nat :=
  ((script.graphemeIndices line).filter (·.1 < byteColumn)).foldl
    (fun cell indexed => cell + graphemeWidth script indexed.2 cell) 0

/-- What is taken from the Unicode crates: the graphemes make up the line, the only ASCII characters
joined are CR LF, and a printable one has one cell. -/
structure Segmenting (script : Script) : Prop where
  tiled : ∀ line, Tiled 0 (script.graphemeIndices line) line.bytes
  joined : ∀ line, ∀ indexed ∈ script.graphemeIndices line, ∀ index first second,
    indexed.2.bytes[index]? = some first → indexed.2.bytes[index + 1]? = some second →
      first < 0x80 → second < 0x80 → first = 13 ∧ second = newlineByte
  printable : ∀ c : Char, 0x20 ≤ c.val → c.val < 0x7F → script.width (.ofChars [c]) = 1

section Tiles

variable {start byteColumn : Nat} {graphemes : List (Nat × Str)} {bytes : List UInt8}

/-- A grapheme is not empty, and its bytes stand where it starts. -/
theorem Tiled.bytes_at (tiled : Tiled start graphemes bytes) {indexed : Nat × Str}
    (member : indexed ∈ graphemes) : indexed.2.bytes ≠ [] ∧ ∃ place, indexed.1 = start + place ∧
      ∀ index, index < indexed.2.len → indexed.2.bytes[index]? = bytes[place + index]? := by
  induction graphemes generalizing start bytes with
  | nil => cases member
  | cons first rest ih =>
    obtain ⟨offset, grapheme⟩ := first
    obtain ⟨rfl, some_, more, _, rfl, behind⟩ := tiled
    rcases mem_cons.mp member with rfl | later
    · refine ⟨some_, 0, rfl, ?_⟩
      intro index inside
      rw [Nat.zero_add, getElem?_append_left inside]
    · obtain ⟨filled, place, starts, here⟩ := ih behind later
      refine ⟨filled, grapheme.len + place, by omega, ?_⟩
      intro index inside
      have size : grapheme.bytes.length = grapheme.len := rfl
      rw [here index inside, getElem?_append_right (by omega)]
      congr 1
      omega

/-- The graphemes start in their order: none behind the first that starts at the column starts
before it. -/
theorem Tiled.takeWhile_eq_filter (tiled : Tiled start graphemes bytes) :
    graphemes.takeWhile (·.1 < byteColumn) = graphemes.filter (·.1 < byteColumn) := by
  induction graphemes generalizing start bytes with
  | nil => rfl
  | cons first rest ih =>
    obtain ⟨offset, grapheme⟩ := first
    obtain ⟨rfl, some_, more, _, rfl, behind⟩ := tiled
    by_cases before : offset < byteColumn
    · rw [takeWhile_cons_of_pos (by simpa using before), filter_cons_of_pos (by simpa using before),
        ih behind]
    · rw [takeWhile_cons_of_neg (by simpa using before), filter_cons_of_neg (by simpa using before)]
      symm
      apply filter_eq_nil_iff.mpr
      intro indexed member
      obtain ⟨_, place, starts, _⟩ := behind.bytes_at member
      simp only [decide_eq_true_eq]
      omega

end Tiles

section Cells

variable {script : Script} {line : Str}

/-- The cells of some graphemes from a cell on. -/
def cellsFrom (script : Script) (cell : Nat) (graphemes : List (Nat × Str)) : Nat :=
  graphemes.foldl (fun cell indexed => cell + graphemeWidth script indexed.2 cell) cell

theorem le_cellsFrom (cell : Nat) (graphemes : List (Nat × Str)) :
    cell ≤ cellsFrom script cell graphemes := by
  induction graphemes generalizing cell with
  | nil => exact Nat.le_refl _
  | cons indexed rest ih => exact Nat.le_trans (Nat.le_add_right _ _) (ih _)

theorem cellsFrom_takeWhile_le (p : Nat × Str → Bool) (cell : Nat) (graphemes : List (Nat × Str)) :
    cellsFrom script cell (graphemes.takeWhile p) ≤ cellsFrom script cell graphemes := by
  conv_rhs => rw [← takeWhile_append_dropWhile (p := p) (l := graphemes), cellsFrom, foldl_append]
  exact le_cellsFrom _ _

/-- Where the prefix is ASCII, the count over its bytes is that over its graphemes. -/
theorem cells_ascii {start byteColumn : Nat} {graphemes : List (Nat × Str)} {bytes : List UInt8}
    (tiled : Tiled start graphemes bytes)
    (single : ∀ indexed ∈ graphemes, indexed.1 < byteColumn →
      indexed.2.len = 1 ∧ (isSingleControl indexed.2 = false → script.width indexed.2 = 1))
      (cell : Nat) :
    asciiCells (bytes.take (byteColumn - start)) cell =
      cellsFrom script cell (graphemes.takeWhile (·.1 < byteColumn)) := by
  induction graphemes generalizing start bytes cell with
  | nil =>
    rw [Tiled] at tiled
    rw [tiled, take_nil]
    rfl
  | cons indexed rest ih =>
    obtain ⟨offset, grapheme⟩ := indexed
    obtain ⟨rfl, some_, more, valid, rfl, behind⟩ := tiled
    by_cases before : offset < byteColumn
    case neg =>
      rw [Nat.sub_eq_zero_of_le (Nat.not_lt.mp before), takeWhile_cons_of_neg (by simpa using before)]
      rfl
    case pos =>
      obtain ⟨one, wide⟩ := single _ mem_cons_self before
      change grapheme.len = 1 at one
      obtain ⟨byte, bytes⟩ := length_eq_one_iff.mp one
      have others := ih behind (fun indexed member => single indexed (mem_cons_of_mem _ member))
      rw [one] at others
      have step : byteColumn - offset = byteColumn - (offset + 1) + 1 := by omega
      rw [takeWhile_cons_of_pos (by simpa using before), bytes, step, singleton_append,
        take_succ_cons, asciiCells, foldl_cons, ← asciiCells, others]
      have width : (if byte == 9 then cell + tabWidth - cell % tabWidth else cell + 1) =
          cell + graphemeWidth script grapheme cell := by
        have tabBytes : (Str.ofChars ['\t']).bytes = [9] := by decide
        have low := Nat.mod_lt cell (show 0 < tabWidth from Nat.succ_pos 3)
        by_cases tab : byte = 9
        · have same : grapheme = .ofChars ['\t'] := Str.ext (by rw [bytes, tab, tabBytes])
          rw [graphemeWidth, if_pos same, tab]
          simp only [beq_self_eq_true, if_true]
          omega
        · have other : grapheme ≠ .ofChars ['\t'] := by
            rintro rfl
            rw [tabBytes] at bytes
            cases bytes
            exact tab rfl
          rw [graphemeWidth, if_neg other, if_neg (by simpa using tab)]
          split
          · rfl
          · rename_i print
            rw [wide (by simpa using print)]
      rw [width]
      rfl

end Cells

section Shortcut

variable {script : Script} {line grapheme : Str} {byteColumn cell : Nat}

/-- A grapheme of one byte is a control character or has one cell. -/
theorem Segmenting.width_of_single (laws : Segmenting script) (one : grapheme.len = 1)
    (print : isSingleControl grapheme = false) : script.width grapheme = 1 := by
  obtain ⟨chars, bytes⟩ := grapheme.valid.chars
  obtain ⟨c, rfl⟩ : ∃ c, chars = [c] := by
    have most := length_le_encode chars
    rw [← bytes, Str.length_bytes, one] at most
    cases chars with
    | nil =>
      have size : grapheme.len = 0 := congrArg List.length bytes
      omega
    | cons c rest =>
      rw [length_cons] at most
      have none_ : rest = [] := eq_nil_of_length_eq_zero (by omega)
      exact ⟨c, by rw [none_]⟩
  obtain rfl : grapheme = .ofChars [c] := Str.ext bytes
  have size : c.utf8Size = 1 := by
    rw [← one, Str.len, bytes, encode_singleton, String.length_utf8EncodeChar]
  have first : firstChar (Str.ofChars [c]).bytes = some c := by
    rw [bytes, encode_singleton, ← append_nil (String.utf8EncodeChar c), firstChar_encodeChar]
  simp only [isSingleControl, first, one, size, beq_self_eq_true, Bool.true_and, Bool.or_eq_false_iff,
    Bool.and_eq_false_iff, decide_eq_false_iff_not] at print
  have ascii := Char.utf8Size_eq_one_iff.mp size
  apply laws.printable
  · exact UInt32.not_lt.mp print.1
  · apply UInt32.not_le.mp
    intro delete
    rcases print.2 with low | high
    · exact low delete
    · exact high (UInt32.lt_of_le_of_lt ascii (by decide))

/-- Where the shortcut answers, every grapheme before the column is one byte. -/
theorem Segmenting.single (laws : Segmenting script)
    (fast : asciiDisplayColumn line byteColumn = some cell) :
    ∀ indexed ∈ script.graphemeIndices line, indexed.1 < byteColumn →
      indexed.2.len = 1 ∧ (isSingleControl indexed.2 = false → script.width indexed.2 = 1) := by
  intro indexed member before
  obtain ⟨some_, place, starts, here⟩ := (laws.tiled line).bytes_at member
  rw [Nat.zero_add] at starts
  have plain := (asciiDisplayColumn_eq_some fast).2
  have one : indexed.2.len = 1 := by
    have positive : 0 < indexed.2.len := length_pos_iff.mpr some_
    by_contra other
    have long : 1 < indexed.2.len := by omega
    -- the byte at the column is checked too, so the second byte is ASCII and no newline
    have first : indexed.2.bytes[0]? = some indexed.2.bytes[0] := getElem?_eq_getElem positive
    have second : indexed.2.bytes[1]? = some indexed.2.bytes[1] := getElem?_eq_getElem long
    have low := plain place _ ((here 0 positive).symm.trans first) (by omega)
    have next := plain (place + 1) _ ((here 1 long).symm.trans second) (by omega)
    exact next.2 (laws.joined line indexed member 0 _ _ first second low.1 next.1).2
  exact ⟨one, laws.width_of_single one⟩

theorem displayColumn_eq (laws : Segmenting script) (line : Str) (byteColumn : Nat) :
    displayColumn script line byteColumn =
      cellsFrom script 0 ((script.graphemeIndices line).takeWhile (·.1 < byteColumn)) := by
  rw [displayColumn]
  cases fast : asciiDisplayColumn line byteColumn with
  | none => rfl
  | some cell =>
    rw [Option.getD_some, ← cells_ascii (laws.tiled line) (laws.single fast) 0, Nat.sub_zero,
      (asciiDisplayColumn_eq_some fast).1]

/-- By the shortcut or by segmenting, the display column is the fold over the graphemes before the
column. -/
theorem displayColumn_eq_segmented (laws : Segmenting script) (line : Str) (byteColumn : Nat) :
    displayColumn script line byteColumn = segmentedColumn script line byteColumn := by
  rw [displayColumn_eq laws, (laws.tiled line).takeWhile_eq_filter]
  rfl

/-- Every character a grapheme, of one cell. -/
def charsFrom : Nat → List Char → List (Nat × Str)
  | _, [] => []
  | offset, ch :: rest => (offset, .ofChars [ch]) :: charsFrom (offset + ch.utf8Size) rest

def charScript : Script where
  graphemeIndices line := charsFrom 0 (decode line.bytes)
  width text := min text.len 1
  isAlphanumeric := Char.isAlphanum
  isWhitespace := Char.isWhitespace

theorem charsFrom_tiled (start : Nat) (chars : List Char) :
    Tiled start (charsFrom start chars) (encode chars) := by
  induction chars generalizing start with
  | nil => rfl
  | cons ch rest ih =>
    have bytes : (Str.ofChars [ch]).bytes = String.utf8EncodeChar ch := encode_singleton ch
    have len : (Str.ofChars [ch]).len = ch.utf8Size := by
      rw [Str.len, bytes, String.length_utf8EncodeChar]
    refine ⟨rfl, ?_, encode rest, valid_encode rest, by rw [bytes, encode_cons], ?_⟩
    · apply length_pos_iff.mp
      rw [bytes, String.length_utf8EncodeChar]
      exact Char.utf8Size_pos ch
    · rw [len]
      exact ih _

theorem charsFrom_single {start : Nat} {chars : List Char} {indexed : Nat × Str}
    (member : indexed ∈ charsFrom start chars) : ∃ ch, indexed.2 = .ofChars [ch] := by
  induction chars generalizing start with
  | nil => cases member
  | cons ch rest ih =>
    rcases mem_cons.mp member with rfl | later
    · exact ⟨ch, rfl⟩
    · exact ih later

theorem charScript_segmenting : Segmenting charScript where
  tiled line := by
    have tiled := charsFrom_tiled 0 (decode line.bytes)
    rwa [encode_decode line.valid] at tiled
  joined line indexed member index first second _ behind _ low := by
    obtain ⟨ch, same⟩ := charsFrom_single member
    obtain ⟨lead, tail, shape, _, continues⟩ := encodeChar_shape ch
    -- a second byte of a character is no ASCII
    have bytes : indexed.2.bytes = lead :: tail := by
      rw [same, ← shape]
      exact encode_singleton ch
    rw [bytes, getElem?_cons_succ] at behind
    have high := continues second (mem_of_getElem? behind)
    rw [isContinuation, Bool.and_eq_true, decide_eq_true_eq] at high
    exact absurd low (UInt8.not_lt.mpr high.1)
  printable c _ high := by
    have one : c.utf8Size = 1 := Char.utf8Size_eq_one_iff.mpr (UInt32.le_of_lt high)
    have size : (Str.ofChars [c]).len = 1 := by
      rw [← one, ← String.length_utf8EncodeChar c, ← encode_singleton c]
      rfl
    have width : charScript.width (.ofChars [c]) = min (Str.ofChars [c]).len 1 := rfl
    rw [width, size]
    rfl

/-- A tab and a letter, with a wide character behind them. -/
theorem displayColumn_eq_segmented_tab :
    displayColumn charScript (.ofChars ['\t', 'a', 'b', '中']) 2 = 5 ∧
    displayColumn charScript (.ofChars ['\t', 'a', 'b', '中']) 2 =
      segmentedColumn charScript (.ofChars ['\t', 'a', 'b', '中']) 2 :=
  ⟨by decide, displayColumn_eq_segmented charScript_segmenting _ 2⟩

end Shortcut

end ForgeNode.Pointer
