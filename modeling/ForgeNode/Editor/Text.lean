import ForgeNode.Lib.Utf8
import ForgeNode.Editor.Selection

/-! Byte-exact text storage with an incrementally maintained line index. -/

namespace ForgeNode.Editor

open Utf8

def newlineByte : UInt8 := 10

/-- `match_indices('\n')`: where the newline bytes stand. -/
def newlineOffsets (bytes : List UInt8) : List Nat := bytes.findIdxs (· == newlineByte)

/-- `newlines(body)`: how many newline bytes there are. -/
def newlines (body : Str) : Nat := body.bytes.countP (· == newlineByte)

/-- `slice::partition_point` on a partitioned list. -/
def partitionPoint (p : Nat → Bool) (list : List Nat) : Nat := (list.takeWhile p).length

def scanLineStarts (bytes : Str) : List Nat := 0 :: (newlineOffsets bytes.bytes).map (· + 1)

/-- The file's bytes and the offset of every line's first byte. -/
structure Text where
  bytes : Str
  lineStarts : List Nat
  deriving DecidableEq

namespace Text

def new (bytes : Str) : Text := ⟨bytes, scanLineStarts bytes⟩

def asStr (text : Text) : Str := text.bytes

def len (text : Text) : Nat := text.bytes.len

def lineCount (text : Text) : Nat := text.lineStarts.length

/-- First byte of `line`, clamped to the last line. -/
def lineStart (text : Text) (line : Nat) : Nat :=
  text.lineStarts.getD (min line (text.lineStarts.length - 1)) 0

def lineOfOffset (text : Text) (offset : Nat) : Nat :=
  partitionPoint (fun start => decide (start ≤ min offset text.len)) text.lineStarts - 1

/-- Nearest offset inside the buffer that is a boundary, rounded down. -/
def clampOffset (text : Text) (offset : Nat) : Nat :=
  floorBoundary text.bytes.bytes (min offset text.len)

theorem clampOffset_isBoundary (text : Text) (offset : Nat) :
    text.bytes.IsBoundary (text.clampOffset offset) :=
  ⟨Nat.le_trans (floorBoundary_le _ _) (Nat.min_le_right _ _), floorBoundary_isCharBoundary _ _⟩

theorem clampOffset_of_isBoundary {text : Text} (boundary : text.bytes.IsBoundary offset) :
    text.clampOffset offset = offset := by
  have inside : min offset text.len = offset := Nat.min_eq_left boundary.1
  rw [clampOffset, inside]
  exact floorBoundary_of_isCharBoundary boundary.2

theorem clampOffset_mono (text : Text) (order : first ≤ last) :
    text.clampOffset first ≤ text.clampOffset last := by
  apply floorBoundary_mono
  omega

def clampRange (text : Text) (range : Range) : Range where
  start := text.clampOffset range.start
  stop := max (text.clampOffset range.stop) (text.clampOffset range.start)
  ordered := Nat.le_max_right _ _

theorem clampRange_start (text : Text) (range : Range) :
    text.bytes.IsBoundary (text.clampRange range).start := text.clampOffset_isBoundary _

theorem clampRange_stop (text : Text) (range : Range) :
    text.bytes.IsBoundary (text.clampRange range).stop := by
  rcases Nat.le_total (text.clampOffset range.stop) (text.clampOffset range.start) with order | order
  · simpa only [clampRange, Nat.max_eq_right order] using text.clampOffset_isBoundary _
  · simpa only [clampRange, Nat.max_eq_left order] using text.clampOffset_isBoundary _

theorem clampRange_of_isBoundary {text : Text} {range : Range}
    (first : text.bytes.IsBoundary range.start) (last : text.bytes.IsBoundary range.stop) :
    text.clampRange range = range := by
  ext
  · exact clampOffset_of_isBoundary first
  · simp only [clampRange, clampOffset_of_isBoundary first, clampOffset_of_isBoundary last]
    exact Nat.max_eq_left range.ordered

def slice (text : Text) (range : Range) : Str :=
  text.bytes.slice (text.clampRange range).start (text.clampRange range).stop
    (text.clampRange_start range) (text.clampRange_stop range)

def isBoundary (text : Text) (offset : Nat) : Bool := decide (text.bytes.IsBoundary offset)

/-- Move a line start of the untouched tail past an edit. -/
def shiftStart (inserted removed start : Nat) : Nat :=
  if inserted ≥ removed then start + (inserted - removed) else start - (removed - inserted)

/-- Replace `range` with `insert`, moving only the line starts the edit can reach. -/
def replace (text : Text) (range : Range) (insert : Str) : Text :=
  let clamped := text.clampRange range
  let removed := clamped.stop - clamped.start
  let first := partitionPoint (fun start => decide (start ≤ clamped.start)) text.lineStarts
  let last := partitionPoint (fun start => decide (start ≤ clamped.stop)) text.lineStarts
  let fresh := (newlineOffsets insert.bytes).map fun offset => clamped.start + offset + 1
  { bytes := text.bytes.replaceRange clamped.start clamped.stop (text.clampRange_start range)
      (text.clampRange_stop range) insert
    lineStarts := text.lineStarts.take first ++ fresh ++
      (text.lineStarts.drop last).map (shiftStart insert.len removed) }

theorem slice_bytes {text : Text} {range : Range} (first : text.bytes.IsBoundary range.start)
    (last : text.bytes.IsBoundary range.stop) :
    (text.slice range).bytes = (text.bytes.bytes.take range.stop).drop range.start := by
  simp only [slice, Str.slice, clampRange_of_isBoundary first last]

theorem replace_bytes {text : Text} {range : Range} (first : text.bytes.IsBoundary range.start)
    (last : text.bytes.IsBoundary range.stop) (insert : Str) :
    (text.replace range insert).bytes.bytes =
      text.bytes.bytes.take range.start ++ (insert.bytes ++ text.bytes.bytes.drop range.stop) := by
  simp only [replace, Str.replaceRange, Str.upTo, Str.since, Str.bytes_append,
    clampRange_of_isBoundary first last, List.append_assoc]

end Text

end ForgeNode.Editor
