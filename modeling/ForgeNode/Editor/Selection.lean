import ForgeNode.Editor.Limits
import Mathlib.Data.List.Sort
import Mathlib.Order.MinMax

/-! Positions as byte offsets, and the set of carets a view carries. -/

namespace ForgeNode.Editor

/-- A half-open byte range. -/
@[ext] structure Range where
  start : Nat
  stop : Nat
  ordered : start ≤ stop
  deriving DecidableEq

namespace Range

def new (start stop : Nat) : Range :=
  if order : start ≤ stop then ⟨start, stop, order⟩ else ⟨stop, start, Nat.le_of_not_le order⟩

def emptyAt (offset : Nat) : Range := ⟨offset, offset, Nat.le_refl _⟩

def len (range : Range) : Nat := range.stop - range.start

def isEmpty (range : Range) : Bool := range.start == range.stop

def contains (range : Range) (offset : Nat) : Bool := range.start ≤ offset && offset < range.stop

theorem new_of_le {first last : Nat} (order : first ≤ last) :
    new first last = ⟨first, last, order⟩ :=
  dif_pos order

end Range

/-- A 0-based line and a byte column within it. -/
structure LineCol where
  line : Nat
  column : Nat
  deriving DecidableEq

/-- One caret: `head` is where it is, `anchor` the end it left behind. -/
structure Cursor where
  anchor : Nat
  head : Nat
  goalColumn : Option Nat
  deriving DecidableEq

namespace Cursor

def caret (offset : Nat) : Cursor := ⟨offset, offset, none⟩

def new (anchor head : Nat) : Cursor := ⟨anchor, head, none⟩

def range (cursor : Cursor) : Range := .new cursor.anchor cursor.head

def isEmpty (cursor : Cursor) : Bool := cursor.anchor == cursor.head

/-- Collapse to the caret, keeping the goal column. -/
def collapsed (cursor : Cursor) : Cursor := ⟨cursor.head, cursor.head, cursor.goalColumn⟩

def withHead (cursor : Cursor) (head : Nat) (extend : Bool) : Cursor :=
  ⟨if extend then cursor.anchor else head, head, none⟩

/-- Shift both ends by a signed byte delta, clamped at zero. -/
def shifted (cursor : Cursor) (delta : Int) : Cursor :=
  ⟨(cursor.anchor + delta).toNat, (cursor.head + delta).toNat, cursor.goalColumn⟩

end Cursor

/-- `sort_by_key(|cursor| (cursor.range().start, cursor.range().end))`. -/
def Cursor.before (first second : Cursor) : Prop :=
  first.range.start < second.range.start ∨
    (first.range.start = second.range.start ∧ first.range.stop ≤ second.range.stop)

instance : DecidableRel Cursor.before := fun _ _ => inferInstanceAs (Decidable (_ ∨ _))

/-- The caret two touching carets become; the later one gives the direction. -/
def Cursor.joined (last cursor : Cursor) : Cursor :=
  let range := Range.new (min last.range.start cursor.range.start)
    (max last.range.stop cursor.range.stop)
  if cursor.head ≥ cursor.anchor then .new range.start range.stop else .new range.stop range.start

/-- The merge loop of `Selection::many`, with the caret last pushed. -/
def mergeTouching (last : Cursor) : List Cursor → List Cursor
  | [] => [last]
  | cursor :: rest =>
    if cursor.range.start ≤ last.range.stop then mergeTouching (last.joined cursor) rest
    else last :: mergeTouching cursor rest

theorem mergeTouching_ne_nil (last : Cursor) (rest : List Cursor) :
    mergeTouching last rest ≠ [] := by
  induction rest generalizing last with
  | nil => simp [mergeTouching]
  | cons cursor rest ih =>
    unfold mergeTouching
    split
    · exact ih _
    · simp

/-- Keep at most `maxCursors` carets, the ones around `keep`. -/
def capCursors (keep : Cursor) (merged : List Cursor) : List Cursor :=
  if merged.length > maxCursors then
    let position := (merged.findIdx? fun cursor => cursor.range.start ≥ keep.range.start).getD 0
    let start := min (position - maxCursors / 2) (merged.length - maxCursors)
    (merged.drop start).take maxCursors
  else merged

theorem capCursors_ne_nil (keep : Cursor) (nonempty : merged ≠ []) :
    capCursors keep merged ≠ [] := by
  unfold capCursors
  split
  · rename_i long
    have positive : 0 < maxCursors := by decide
    intro empty
    have size := congrArg List.length empty
    simp only [List.length_take, List.length_drop, List.length_nil] at size
    omega
  · exact nonempty

/-- Every caret in the buffer, never empty, with the index of the primary one. -/
structure Selection where
  cursors : List Cursor
  primaryIndex : Nat
  inRange : primaryIndex < cursors.length
  deriving DecidableEq

namespace Selection

def one (cursor : Cursor) : Selection := ⟨[cursor], 0, Nat.zero_lt_one⟩

def caret (offset : Nat) : Selection := one (.caret offset)

/-- Build from carets in any order, merging the ones that touch. -/
def many : List Cursor → Nat → Selection
  | [], _ => caret 0
  | first :: others, primary =>
    let keep := (first :: others)[primary]?.getD first
    match sorted : (first :: others).insertionSort Cursor.before with
    | [] => caret 0
    | lowest :: rest =>
      let merged := capCursors keep (mergeTouching lowest rest)
      let index := (merged.findIdx? fun cursor =>
        cursor.range.contains keep.head || cursor.head == keep.head).getD 0
      ⟨merged, index, by
        have nonempty := capCursors_ne_nil keep (mergeTouching_ne_nil lowest rest)
        simp only [index]
        cases found : merged.findIdx? fun cursor =>
            cursor.range.contains keep.head || cursor.head == keep.head with
        | none => exact List.length_pos_iff.mpr nonempty
        | some position => exact (List.findIdx?_eq_some_iff_findIdx_eq.mp found).1⟩

def primary (selection : Selection) : Cursor :=
  selection.cursors.get ⟨selection.primaryIndex, selection.inRange⟩

def count (selection : Selection) : Nat := selection.cursors.length

def head (selection : Selection) : Nat := selection.primary.head

/-- Rebuild with `f` applied to every caret, re-sorting and merging. -/
def mapped (selection : Selection) (f : Cursor → Cursor) : Selection :=
  many (selection.cursors.map f) selection.primaryIndex

/-- Add a caret, which becomes the primary one. -/
def withAdded (selection : Selection) (cursor : Cursor) : Selection :=
  many (selection.cursors ++ [cursor]) selection.cursors.length

def shifted (selection : Selection) (delta : Int) : Selection := selection.mapped (·.shifted delta)

/-- Collapse every caret to its head. -/
def collapsed (selection : Selection) : Selection := selection.mapped Cursor.collapsed

/-- Drop back to one caret at the primary's head. -/
def single (selection : Selection) : Selection := one selection.primary

/-- Move the primary caret, dropping every other one. -/
def withHead (selection : Selection) (head : Nat) (extend : Bool) : Selection :=
  one (selection.primary.withHead head extend)

/-- The primary caret's range. -/
def range (selection : Selection) : Range := selection.primary.range

end Selection

end ForgeNode.Editor
