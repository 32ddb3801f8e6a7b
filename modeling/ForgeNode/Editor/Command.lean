import ForgeNode.Editor.Surround

/-! Commands that copy, cut and replace, one outcome each. -/

namespace ForgeNode.Editor

open Utf8 (Str)

/-- Why a command did nothing. -/
inductive Refusal where
  | readOnly
  | tooLarge (size limit : Nat)
  | nothingToUndo
  | nothingToRedo
  | noMatch
  | tooManyMatches (limit : Nat)
  deriving DecidableEq

structure Outcome where
  changed : Bool
  applied : Option Applied
  /-- Text a copy or cut produced, for the adapter to put on the clipboard. -/
  clipboard : Option Str
  replaced : Option Nat
  refusal : Option Refusal
  deriving DecidableEq

def refusalFor : EditError → Refusal
  | .readOnly => .readOnly
  | .tooLarge size limit => .tooLarge size limit
  | .unsavedChanges | .overlapping | .outOfBounds _ _ => .noMatch

namespace Outcome

def default : Outcome := ⟨false, none, none, none, none⟩

def refused (refusal : Refusal) : Outcome := { default with refusal := some refusal }

def fromOptionalEdit : Except EditError (Option Applied) → Outcome
  | .ok (some applied) => { default with changed := true, applied := some applied }
  | .ok none => default
  | .error error => refused (refusalFor error)

def fromEdit (result : Except EditError Applied) : Outcome := fromOptionalEdit (result.map some)

end Outcome

/-- Whole lines covering the selection, terminator included when there is one. -/
def lineSpan (text : Text) (selection : Selection) : Nat × Nat :=
  let first := text.lineOfOffset selection.range.start
  let last := text.lineOfOffset selection.range.stop
  (text.lineStart first, if last + 1 < text.lineCount then text.lineStart (last + 1) else text.len)

/-- `slice::join`. -/
def join (separator : Str) : List Str → Str
  | [] => .empty
  | [part] => part
  | part :: rest => part ++ separator ++ join separator rest

namespace Document

/-- What a copy takes at one caret: its range, or the whole line of a lone caret that selects
nothing. -/
def copiedSpan (text : Text) (single : Bool) (cursor : Cursor) : Range :=
  if single && cursor.isEmpty then .new (lineSpan text (.one cursor)).1
    (lineSpan text (.one cursor)).2
  else cursor.range

/-- Copy or cut the selection, or the whole line when there is none. -/
def copy (document : Document) (cut : Bool) : Outcome × Document :=
  let selection := document.selection
  let spans := selection.cursors.map (copiedSpan document.text (selection.count == 1))
  let clipboard := join (.ofChars ['\n']) (spans.map document.text.slice)
  let copied : Outcome := { Outcome.default with clipboard := some clipboard }
  if !cut then (copied, document)
  else
    let chosen := spans.filter fun range => !range.isEmpty
    if chosen.isEmpty then (copied, document)
    else match Transaction.new (chosen.map Edit.delete) .input selection with
      | .error error => (.refused (refusalFor error), document.breakUndoGroup)
      | .ok transaction =>
        let (result, document) := document.breakUndoGroup.apply (transaction.withSelectionAfter
          (.many (deletionLandings 0 chosen) selection.primaryIndex))
        ({ Outcome.fromEdit result with clipboard := some clipboard }, document.breakUndoGroup)

end Document

end ForgeNode.Editor
