import ForgeNode.Lib.Chars
import ForgeNode.Editor.Lines

/-! Caret movement over the buffer: pure maps from offset to offset. -/

namespace ForgeNode.Editor

open List Utf8

/-- What movement takes from libraries: grapheme segmentation, cell widths and the Unicode tables
behind `char::is_alphanumeric` and `char::is_whitespace`. -/
structure Script where
  /-- `grapheme_indices(true)`. -/
  graphemeIndices : Str → List (Nat × Str)
  width : Str → Nat
  isAlphanumeric : Char → Bool
  isWhitespace : Char → Bool

/-- Graphemes start at boundaries, and no line break is part of a word. -/
structure Script.Lawful (script : Script) : Prop where
  boundary : ∀ line, ∀ indexed ∈ script.graphemeIndices line, line.IsBoundary indexed.1
  newline : script.isAlphanumeric '\n' = false
  carriageReturn : script.isAlphanumeric '\r' = false

def tabWidth : Nat := 4

/-- The control character of a single-control grapheme counts as one cell. -/
def isSingleControl (grapheme : Str) : Bool :=
  match firstChar grapheme.bytes with
  | none => false
  | some c => grapheme.len == c.utf8Size && (c.val < 0x20 || (0x7F ≤ c.val && c.val < 0xA0))

def graphemeWidth (script : Script) (grapheme : Str) (cell : Nat) : Nat :=
  if grapheme = .ofChars ['\t'] then tabWidth - cell % tabWidth
  else if isSingleControl grapheme then 1
  else script.width grapheme

/-- The loop of `ascii_display_column`, over the bytes of a plain prefix. -/
def asciiCells (plain : List UInt8) (cell : Nat) : Nat :=
  plain.foldl (fun cell byte => if byte == 9 then cell + tabWidth - cell % tabWidth else cell + 1)
    cell

/-- `display_column` without segmenting, for a prefix of plain ASCII. -/
def asciiDisplayColumn (line : Str) (byteColumn : Nat) : Option Nat :=
  let stop := min byteColumn line.len
  let checked := line.bytes.take (min (stop + 1) line.len)
  let plain := line.bytes.take stop
  if checked.any (0x80 ≤ ·) || checked.contains newlineByte then none
  else if !plain.contains 9 then some plain.length
  else some (asciiCells plain 0)

/-- Display column of a byte column within `line`. -/
def displayColumn (script : Script) (line : Str) (byteColumn : Nat) : Nat :=
  (asciiDisplayColumn line byteColumn).getD
    (((script.graphemeIndices line).takeWhile (·.1 < byteColumn)).foldl (fun cell indexed =>
      cell + graphemeWidth script indexed.2 cell) 0)

theorem asciiCells_untabbed {plain : List UInt8} (none_ : plain.contains 9 = false) (cell : Nat) :
    asciiCells plain cell = cell + plain.length := by
  induction plain generalizing cell with
  | nil => rfl
  | cons byte rest ih =>
    rw [contains_cons, Bool.or_eq_false_iff, BEq.comm] at none_
    rw [asciiCells, foldl_cons, none_.1, if_neg Bool.false_ne_true, ← asciiCells, ih none_.2,
      length_cons]
    omega

/-- What the shortcut answers where it answers, and what it has checked then. -/
theorem asciiDisplayColumn_eq_some {line : Str} {byteColumn cell : Nat}
    (fast : asciiDisplayColumn line byteColumn = some cell) :
    cell = asciiCells (line.bytes.take byteColumn) 0 ∧
      ∀ index byte, line.bytes[index]? = some byte → index ≤ byteColumn → byte < 0x80 ∧
      byte ≠ newlineByte := by
  have same : line.bytes.take (min byteColumn line.len) = line.bytes.take byteColumn := by
    rw [← take_take, Str.len, take_length]
  simp only [asciiDisplayColumn, same] at fast
  split at fast
  · cases fast
  · rename_i ascii
    rw [Bool.or_eq_true, not_or] at ascii
    refine ⟨?_, ?_⟩
    · split at fast
      · rename_i untabbed
        rw [asciiCells_untabbed (Bool.not_eq_eq_eq_not.mp untabbed), Nat.zero_add]
        exact (Option.some.inj fast).symm
      · exact (Option.some.inj fast).symm
    · intro index byte there before
      obtain ⟨inside, found⟩ := List.getElem?_eq_some_iff.mp there
      have member : byte ∈ line.bytes.take (min (min byteColumn line.len + 1) line.len) := by
        have size : line.len = line.bytes.length := rfl
        rw [← found]
        exact mem_take_iff_getElem.mpr ⟨index, by omega, rfl⟩
      constructor
      · apply UInt8.not_le.mp
        intro high
        exact ascii.1 (any_eq_true.mpr ⟨byte, member, decide_eq_true high⟩)
      · rintro rfl
        exact ascii.2 (contains_iff_mem.mpr member)

/-- The loop of `byte_column_for_display`. -/
def columnFrom (script : Script) (line : Str) (target : Nat) : Nat → List (Nat × Str) → Nat
  | _, [] => line.len
  | cell, (offset, grapheme) :: rest =>
    if cell + graphemeWidth script grapheme cell > target then offset
    else columnFrom script line target (cell + graphemeWidth script grapheme cell) rest

def byteColumnForDisplay (script : Script) (line : Str) (target : Nat) : Nat :=
  columnFrom script line target 0 (script.graphemeIndices line)

/-- Byte offset of the grapheme boundary before `offset` within `line`. -/
def previousBoundary (script : Script) (line : Str) (offset : Nat) : Nat :=
  ((((script.graphemeIndices line).map (·.1)).takeWhile (· < offset)).getLast?).getD 0

/-- Byte offset of the grapheme boundary after `offset` within `line`. -/
def nextBoundary (script : Script) (line : Str) (offset : Nat) : Nat :=
  (((script.graphemeIndices line).map (·.1)).find? (· > offset)).getD line.len

/-- The line and byte column of an offset. -/
def Text.lineCol (text : Text) (offset : Nat) : LineCol :=
  let offset := text.clampOffset offset
  let line := text.lineOfOffset offset
  ⟨line, offset - text.lineStarts.getD line 0⟩

namespace Movement

def isWordChar (script : Script) (c : Char) : Bool := script.isAlphanumeric c || c == '_'

def isWord (script : Script) (c : Option Char) : Bool := c.any (isWordChar script)

/-- Move one grapheme left, crossing into the previous line at column 0. -/
def left (script : Script) (text : Text) (offset : Nat) : Nat :=
  let line := text.lineOfOffset offset
  let start := text.lineStart line
  if offset > start then start + previousBoundary script (text.line line) (offset - start)
  else if line > 0 then text.lineEnd (line - 1)
  else 0

/-- Move one grapheme right, crossing into the next line past its end. -/
def right (script : Script) (text : Text) (offset : Nat) : Nat :=
  let line := text.lineOfOffset offset
  let stop := text.lineEnd line
  if offset < stop then
    text.lineStart line + nextBoundary script (text.line line) (offset - text.lineStart line)
  else if line + 1 < text.lineCount then text.lineStart (line + 1)
  else stop

/-- Move `delta` lines, keeping the display column the caret is aiming for. -/
def vertical (script : Script) (text : Text) (offset : Nat) (delta : Int) (goal : Option Nat) :
    Nat × Nat :=
  let line := text.lineOfOffset offset
  let column := (text.lineCol offset).column
  let goal := goal.getD (displayColumn script (text.line line) column)
  let target := (max 0 (min ((line : Int) + delta) ((text.lineCount - 1 : Nat) : Int))).toNat
  (text.lineStart target + byteColumnForDisplay script (text.line target) goal, goal)

def lineStart (text : Text) (offset : Nat) : Nat := text.lineStart (text.lineOfOffset offset)

/-- `body.len() - body.trim_start().len()`, by the characters dropped from `at_` on. -/
def leadingBlank (script : Script) (bytes : List UInt8) : Nat → Nat → Nat
  | 0, at_ => at_
  | fuel + 1, at_ =>
    if (charAt bytes at_).any script.isWhitespace then leadingBlank script bytes fuel
      (nextChar bytes at_) else at_

/-- First non-blank character of the line, or its start when already there. -/
def lineFirstNonBlank (script : Script) (text : Text) (offset : Nat) : Nat :=
  let line := text.lineOfOffset offset
  let start := text.lineStart line
  let indent := leadingBlank script (text.line line).bytes (text.line line).len 0
  if start + indent = offset then start else start + indent

def lineEnd (text : Text) (offset : Nat) : Nat := text.lineEnd (text.lineOfOffset offset)

/-- The first loop of `word_left`: back over what is no word, past one line break at most. -/
def skipGapBack (script : Script) (bytes : List UInt8) : Nat → Nat → Nat
  | 0, at_ => at_
  | fuel + 1, at_ =>
    if at_ > 0 && !isWord script (charBefore bytes at_) then
      if charBefore bytes at_ = some '\n' then previousChar bytes at_
      else skipGapBack script bytes fuel (previousChar bytes at_)
    else at_

def skipWordBack (script : Script) (bytes : List UInt8) : Nat → Nat → Nat
  | 0, at_ => at_
  | fuel + 1, at_ =>
    if at_ > 0 && isWord script (charBefore bytes at_) then
      skipWordBack script bytes fuel (previousChar bytes at_)
    else at_

/-- Start of the word before `offset`, crossing at most one line break. -/
def wordLeft (script : Script) (text : Text) (offset : Nat) : Nat :=
  let body := text.bytes.bytes
  skipWordBack script body text.len (skipGapBack script body text.len (min offset text.len))

def skipWord (script : Script) (bytes : List UInt8) : Nat → Nat → Nat
  | 0, at_ => at_
  | fuel + 1, at_ =>
    if at_ < bytes.length && isWord script (charAt bytes at_) then
      skipWord script bytes fuel (nextChar bytes at_)
    else at_

/-- The second loop of `word_right`: over what is no word, past one line break at most. -/
def skipGap (script : Script) (bytes : List UInt8) : Nat → Nat → Nat
  | 0, at_ => at_
  | fuel + 1, at_ =>
    if at_ < bytes.length && !isWord script (charAt bytes at_) then
      if charAt bytes at_ = some '\n' then nextChar bytes at_
      else skipGap script bytes fuel (nextChar bytes at_)
    else at_

/-- Start of the word after `offset`, crossing at most one line break. -/
def wordRight (script : Script) (text : Text) (offset : Nat) : Nat :=
  let body := text.bytes.bytes
  skipGap script body text.len (skipWord script body text.len (min offset text.len))

end Movement

end ForgeNode.Editor
