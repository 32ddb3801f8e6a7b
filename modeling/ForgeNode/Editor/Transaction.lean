import ForgeNode.Editor.Text
import ForgeNode.Lib.Splice
import Mathlib.Data.List.Chain

/-! The only way a document changes: ordered, non-overlapping range replacements. -/

namespace ForgeNode.Editor

open Utf8 (Str)
open Splice (Cut)

/-- One range replacement. An empty `range` inserts; an empty `insert` deletes. -/
structure Edit where
  range : Range
  insert : Str
  deriving DecidableEq

namespace Edit

def delete (range : Range) : Edit := ⟨range, .empty⟩

def replace (range : Range) (text : Str) : Edit := ⟨range, text⟩

/-- The edit as a cut of the byte sequence. -/
def cut (edit : Edit) : Cut UInt8 := ⟨edit.range.start, edit.range.stop, edit.insert.bytes⟩

/-- `sort_by_key(|edit| (edit.range.start, edit.range.end))`. -/
def before (first second : Edit) : Prop :=
  first.range.start < second.range.start ∨
    (first.range.start = second.range.start ∧ first.range.stop ≤ second.range.stop)

instance : DecidableRel before := fun _ _ => inferInstanceAs (Decidable (_ ∨ _))

/-- The windows check of `Transaction::new` on one pair. -/
def clear (first second : Edit) : Prop := first.range.stop ≤ second.range.start

instance : DecidableRel clear := fun _ _ => inferInstanceAs (Decidable (_ ≤ _))

theorem clear.before {first second : Edit} (clear : clear first second) : before first second := by
  have order := first.range.ordered
  have later := second.range.ordered
  unfold Edit.clear at clear
  unfold Edit.before
  omega

theorem clear.trans {first second third : Edit} (left : clear first second)
    (right : clear second third) : clear first third :=
  Nat.le_trans left (Nat.le_trans second.range.ordered right)

instance : IsTrans Edit clear := ⟨fun _ _ _ => clear.trans⟩

end Edit

/-- Why an edit happened. -/
inductive Origin where
  | input | paste | replace | replaceAll | history | preview | reload
  deriving DecidableEq

/-- Whether two consecutive edits of this origin may share an undo entry. -/
def Origin.coalesces : Origin → Bool
  | .input => true
  | _ => false

inductive EditError where
  | unsavedChanges
  | readOnly
  | overlapping
  | outOfBounds (start stop : Nat)
  | tooLarge (size limit : Nat)
  deriving DecidableEq

/-- Edits applied as a unit, sorted and disjoint, with the selection on both sides. -/
structure Transaction where
  edits : List Edit
  disjoint : edits.IsChain Edit.clear
  origin : Origin
  selectionBefore : Selection
  selectionAfter : Option Selection
  deriving DecidableEq

namespace Transaction

/-- Build a transaction, sorting the edits and refusing overlaps. -/
def new (edits : List Edit) (origin : Origin) (selectionBefore : Selection) :
    Except EditError Transaction :=
  if disjoint : (edits.insertionSort Edit.before).IsChain Edit.clear then
    .ok ⟨_, disjoint, origin, selectionBefore, none⟩
  else .error .overlapping

def withSelectionAfter (transaction : Transaction) (selection : Selection) : Transaction :=
  { transaction with selectionAfter := some selection }

/-- Bytes this transaction adds, minus those it removes. -/
def sizeDelta (transaction : Transaction) : Int :=
  (transaction.edits.map fun edit => (edit.insert.len : Int) - edit.range.len).sum

/-- Text retained if this transaction is kept in history. -/
def retainedBytes (transaction : Transaction) : Nat :=
  (transaction.edits.map fun edit => edit.insert.len + edit.range.len).sum

/-- `single`: the edit, when there is exactly one. -/
def single (transaction : Transaction) : Option Edit :=
  match transaction.edits with
  | [edit] => some edit
  | _ => none

/-- What `single_mut` allows: another edit in place of the only one. -/
def withSingle (transaction : Transaction) (edit : Edit) : Transaction :=
  { transaction with edits := [edit], disjoint := .singleton edit }

theorem single_eq_some {transaction : Transaction} (found : transaction.single = some edit) :
    transaction.edits = [edit] := by
  unfold single at found
  split at found
  · rename_i only shape
    rw [shape, Option.some.inj found]
  · cases found

theorem new_of_disjoint {edits : List Edit} (disjoint : edits.IsChain Edit.clear)
    (origin : Origin) (selectionBefore : Selection) :
    new edits origin selectionBefore = .ok ⟨edits, disjoint, origin, selectionBefore, none⟩ := by
  have sorted : edits.insertionSort Edit.before = edits :=
    List.Pairwise.insertionSort_eq (disjoint.pairwise.imp Edit.clear.before)
  unfold new
  simp only [sorted, dif_pos disjoint]

/-- The transaction as cuts of the byte sequence. -/
def cuts (transaction : Transaction) : List (Cut UInt8) := transaction.edits.map Edit.cut

end Transaction

end ForgeNode.Editor
