import ForgeNode.Editor.History
import ForgeNode.Editor.Search

/-! One open document: text, selection, history, versions and the dirty flag. -/

namespace ForgeNode.Editor

open Utf8 (Str)

/-- Text handed to an adapter to write, with the state it was taken at. -/
structure Snapshot where
  version : Nat
  state : Nat
  text : Str
  deriving DecidableEq

/-- What an applied transaction changed. -/
structure Applied where
  version : Nat
  firstLine : Nat
  lastLine : Nat
  lineDelta : Int
  deriving DecidableEq

inductive ReplaceOutcome where
  | replaced (count : Nat) (applied : Option Applied)
  | overBudget (limit : Nat)
  deriving DecidableEq

structure Document where
  text : Text
  selection : Selection
  history : History
  readOnly : Bool
  version : Nat
  /-- Content identity, restored by undo and redo. -/
  state : Nat
  nextState : Nat
  savedState : Option Nat
  diskRevision : Option String

/-- The loop of `apply_validated`: the text, the shift of later edits, the lines
gained and where the last insertion ended. -/
structure Replay where
  text : Text
  shift : Int
  lineDelta : Int
  resumeAt : Nat

namespace Replay

def step (replay : Replay) (edit : Edit) : Replay :=
  let start := (edit.range.start + replay.shift).toNat
  let stop := (edit.range.stop + replay.shift).toNat
  let range := Range.new start stop
  { text := replay.text.replace range edit.insert
    shift := replay.shift + (edit.insert.len - (stop - start : Int))
    lineDelta := replay.lineDelta + (newlines edit.insert - newlines (replay.text.slice range) : Int)
    resumeAt := start + edit.insert.len }

def run (replay : Replay) (edits : List Edit) : Replay := edits.foldl step replay

end Replay

/-- The edits of `inverse_of`, in coordinates shifted by the edits before. -/
def inverseEdits (text : Text) (shift : Int) : List Edit → List Edit
  | [] => []
  | edit :: rest =>
    let start := (edit.range.start + shift).toNat
    .replace (.new start (start + edit.insert.len)) (text.slice edit.range) ::
      inverseEdits text (shift + (edit.insert.len - edit.range.len : Int)) rest

/-- The bytes that differ between two texts, widened to boundaries of both. -/
structure ReloadSpan where
  start : Nat
  oldEnd : Nat
  newEnd : Nat

namespace ReloadSpan

/-- `zip(..).take_while(|(a, b)| a == b).count()`. -/
def common : List UInt8 → List UInt8 → Nat
  | first :: left, second :: right => if first == second then common left right + 1 else 0
  | _, _ => 0

def onBoundaries (old text : Str) (oldAt newAt : Nat) : Bool :=
  Utf8.isCharBoundary old.bytes oldAt && Utf8.isCharBoundary text.bytes newAt

/-- Walk the start back to a boundary of both texts. -/
def retreat (old text : Str) : Nat → Nat
  | 0 => 0
  | start + 1 =>
    if onBoundaries old text (start + 1) (start + 1) then start + 1 else retreat old text start

/-- Walk both ends forward, by at most the common suffix, to a boundary of both texts. -/
def advance (old text : Str) : Nat → Nat → Nat → Nat × Nat
  | 0, oldEnd, newEnd => (oldEnd, newEnd)
  | suffix + 1, oldEnd, newEnd =>
    if onBoundaries old text oldEnd newEnd then (oldEnd, newEnd)
    else advance old text suffix (oldEnd + 1) (newEnd + 1)

def between (old text : Str) : ReloadSpan :=
  let start := retreat old text (common old.bytes text.bytes)
  let suffix := common (old.bytes.drop start).reverse (text.bytes.drop start).reverse
  let ends := advance old text suffix (old.len - suffix) (text.len - suffix)
  ⟨start, ends.1, ends.2⟩

/-- Where a caret of the old text stands in the new one. -/
def map (span : ReloadSpan) (offset : Nat) : Nat :=
  if offset < span.start then offset
  else if offset ≥ span.oldEnd then span.newEnd + offset - span.oldEnd
  else span.start + min (offset - span.start) (span.newEnd - span.start)

end ReloadSpan

namespace Document

def fromString (body : Str) (readOnly : Bool) : Document where
  text := .new body
  selection := .caret 0
  history := .default
  readOnly := readOnly
  version := 0
  state := 0
  nextState := 1
  savedState := some 0
  diskRevision := none

def asStr (document : Document) : Str := document.text.asStr

def isDirty (document : Document) : Bool := document.savedState != some document.state

/-- `version.max(replaced + 1)`, saturating at the largest `u64`. -/
def continueFrom (document : Document) (replaced : Nat) : Document :=
  { document with version := max document.version (min (replaced + 1) (2 ^ 64 - 1)) }

def setSelection (document : Document) (selection : Selection) : Document :=
  let clamped := selection.mapped fun cursor =>
    { anchor := document.text.clampOffset cursor.anchor
      head := document.text.clampOffset cursor.head
      goalColumn := cursor.goalColumn }
  let jumped := clamped.head != document.selection.head || clamped.count != document.selection.count
  { document with
    selection := clamped
    history := if jumped then document.history.sealRun else document.history }

def setReadOnly (document : Document) (readOnly : Bool) : Document := { document with readOnly }

def snapshot (document : Document) : Snapshot :=
  ⟨document.version, document.state, document.text.asStr⟩

/-- Record that `snapshot` reached the disk at `revision`. -/
def confirmSave (document : Document) (snapshot : Snapshot) (revision : String) : Document :=
  { document with savedState := some snapshot.state, diskRevision := some revision }

def setDiskRevision (document : Document) (revision : String) : Document :=
  { document with diskRevision := some revision }

/-- Start a new undo entry, whatever comes next. -/
def breakUndoGroup (document : Document) : Document :=
  { document with history := document.history.sealRun }

def goneOutside (text : Text) (edit : Edit) : Bool :=
  edit.range.stop > text.len || !text.isBoundary edit.range.start || !text.isBoundary edit.range.stop

def validate (document : Document) (transaction : Transaction) : Except EditError Unit :=
  match transaction.edits.find? (goneOutside document.text) with
  | some edit => .error (.outOfBounds edit.range.start edit.range.stop)
  | none =>
    let size := (document.text.len + transaction.sizeDelta).toNat
    if size > maxDocumentBytes then .error (.tooLarge size maxDocumentBytes) else .ok ()

/-- The transaction that puts back exactly what `transaction` displaces. -/
def inverseOf (document : Document) (transaction : Transaction) : Transaction :=
  let built := match Transaction.new (inverseEdits document.text 0 transaction.edits) .history
      document.selection with
    | .ok inverse => inverse
    | .error _ => ⟨[], .nil, .history, document.selection, none⟩
  built.withSelectionAfter transaction.selectionBefore

/-- Apply a transaction nobody checks any more, and record it unless it is a replay. -/
def applyValidated (document : Document) (transaction : Transaction) (record : Bool) :
    Applied × Document :=
  let firstLine := document.text.lineOfOffset
    ((transaction.edits.head?.map (·.range.start)).getD document.selection.head)
  let lastLine := document.text.lineOfOffset
    ((transaction.edits.getLast?.map (·.range.stop)).getD document.selection.head)
  let replay := Replay.run ⟨document.text, 0, 0, document.selection.head⟩ transaction.edits
  let selection := transaction.selectionAfter.getD (.caret replay.resumeAt)
  let history :=
    if record then
      document.history.record (document.inverseOf transaction) transaction document.state
        document.nextState replay.resumeAt document.text.bytes
    else document.history
  (⟨document.version + 1, firstLine, lastLine, replay.lineDelta⟩,
    { document with
      text := replay.text
      selection := selection.mapped fun cursor =>
        .new (replay.text.clampOffset cursor.anchor) (replay.text.clampOffset cursor.head)
      history
      version := document.version + 1
      state := document.nextState
      nextState := document.nextState + 1 })

/-- Apply user edits atomically, enforcing read-only and the byte budget. -/
def apply (document : Document) (transaction : Transaction) : Except EditError Applied × Document :=
  if document.readOnly then (.error .readOnly, document)
  else match document.validate transaction with
    | .error error => (.error error, document)
    | .ok () =>
      let (applied, document) := document.applyValidated transaction true
      (.ok applied, document)

/-- Where the carets of `insert_around` land: every range start shifted by the edits above it. -/
def landings (before inserted : Nat) (shift : Int) : List Cursor → List Cursor
  | [] => []
  | cursor :: rest =>
    .caret ((cursor.range.start + shift).toNat + before) ::
      landings before inserted (shift + (inserted - cursor.range.len : Int)) rest

/-- Insert `before` and `after` around every caret, leaving it between them. -/
def insertAround (document : Document) (before after : Str) (origin : Origin) :
    Except EditError Applied × Document :=
  let inserted := before ++ after
  let edits := document.selection.cursors.map fun cursor => Edit.replace cursor.range inserted
  let carets := landings before.len inserted.len 0 document.selection.cursors
  match Transaction.new edits origin document.selection with
  | .error error => (.error error, document)
  | .ok transaction => document.apply
      (transaction.withSelectionAfter (.many carets document.selection.primaryIndex))

/-- Replace the selection (or insert at the caret) with `text`. -/
def insert (document : Document) (text : Str) (origin : Origin) :
    Except EditError Applied × Document :=
  document.insertAround text .empty origin

/-- The range that `delete` takes at one caret. -/
def deletedRange (into : Text → Nat → Nat) (text : Text) (cursor : Cursor) : Range :=
  if cursor.isEmpty then .new cursor.head (into text cursor.head) else cursor.range

/-- The carets of `delete`, each at its range start shifted by the deletions above it. -/
def deletionLandings (shift : Int) : List Range → List Cursor
  | [] => []
  | range :: rest =>
    .caret (range.start + shift).toNat :: deletionLandings (shift - range.len) rest

/-- Delete the selection, or the range `into` maps the caret to. -/
def delete (document : Document) (into : Text → Nat → Nat) (origin : Origin) :
    Except EditError (Option Applied) × Document :=
  if document.readOnly then (.error .readOnly, document)
  else
    let ranges := document.selection.cursors.map (deletedRange into document.text)
    let edits := (ranges.filter fun range => !range.isEmpty).map Edit.delete
    if edits.isEmpty then (.ok none, document)
    else match Transaction.new edits origin document.selection with
      | .error error => (.error error, document)
      | .ok transaction =>
        let (result, document) := document.apply (transaction.withSelectionAfter
          (.many (deletionLandings 0 ranges) document.selection.primaryIndex))
        (result.map some, document)

/-- Reconcile saved disk text, including read-only buffers, without discarding undo. -/
def reloadClean (document : Document) (text : Str) (revision : String) :
    Except EditError (Option Applied) × Document :=
  if document.isDirty then (.error .unsavedChanges, document)
  else if text.len > maxDocumentBytes then (.error (.tooLarge text.len maxDocumentBytes), document)
  else if document.asStr = text then (.ok none, document.setDiskRevision revision)
  else
    let span := ReloadSpan.between document.asStr text
    let after := document.selection.mapped fun cursor =>
      .new (span.map cursor.anchor) (span.map cursor.head)
    -- Indexing panics where `get?` finds nothing; the span is always on boundaries.
    let insert := (text.get? span.start span.newEnd).getD .empty
    match Transaction.new [.replace (.new span.start span.oldEnd) insert] .reload
        document.selection with
    | .error error => (.error error, document)
    | .ok transaction =>
      let transaction := transaction.withSelectionAfter after
      match document.validate transaction with
      | .error error => (.error error, document)
      | .ok () =>
        let (applied, document) := document.breakUndoGroup.applyValidated transaction true
        (.ok (some applied), { document with
          savedState := some document.state, diskRevision := some revision })

def undo (document : Document) : Option (Applied × Document) :=
  if document.readOnly then none
  else match document.history.popUndo with
    | none => none
    | some ((transaction, state), history) =>
      let (applied, document) := { document with history }.applyValidated transaction false
      some (applied, { document with state })

def redo (document : Document) : Option (Applied × Document) :=
  if document.readOnly then none
  else match document.history.popRedo with
    | none => none
    | some ((transaction, state), history) =>
      let (applied, document) := { document with history }.applyValidated transaction false
      some (applied, { document with state })

/-- Replace every match of `query` with `replacement`, as one undo unit. -/
def replaceAll (document : Document) (engine : Engine) (query : Query) (replacement : Str) :
    Except EditError ReplaceOutcome × Document :=
  if document.readOnly then (.error .readOnly, document)
  else match replaceAllRanges engine document.text query with
    | .error limit => (.ok (.overBudget limit), document)
    | .ok ranges =>
      if ranges.isEmpty then (.ok (.replaced 0 none), document)
      else
        let removed := (ranges.map Range.len).sum
        let size := min (document.text.len - removed + replacement.len * ranges.length) (2 ^ 64 - 1)
        if size > maxDocumentBytes then (.error (.tooLarge size maxDocumentBytes), document)
        else match Transaction.new (ranges.map fun range => .replace range replacement) .replaceAll
            document.selection with
          | .error error => (.error error, document)
          | .ok transaction =>
            let (result, document) := document.breakUndoGroup.apply transaction
            match result with
            | .error error => (.error error, document)
            | .ok applied =>
              (.ok (.replaced ranges.length (some applied)), document.breakUndoGroup)

/-- Move the caret to the start of a 1-based line. -/
def gotoLine (document : Document) (lineOneBased : Nat) : Document :=
  let line := min (lineOneBased - 1) (document.text.lineCount - 1)
  document.setSelection (.caret (document.text.lineStart line))

/-- Replace the whole buffer with content read from disk again. -/
def reload (document : Document) (body : Str) (revision : String) :
    Except EditError Applied × Document :=
  let wasReadOnly := document.readOnly
  let range := Range.new 0 document.text.len
  let caret := min document.selection.head body.len
  match Transaction.new [.replace range body] .reload document.selection with
  | .error error => (.error error, document.setReadOnly false)
  | .ok transaction =>
    let (result, document) := (document.setReadOnly false).breakUndoGroup.apply
      (transaction.withSelectionAfter (.caret caret))
    let document := document.setReadOnly wasReadOnly
    match result with
    | .error error => (.error error, document)
    | .ok applied => (.ok applied, { document with
        savedState := some document.state, diskRevision := some revision })

end Document

end ForgeNode.Editor
