import ForgeNode.Editor.Typing

/-! Running one command, and the verdict on the edit that it builds. -/

namespace ForgeNode.Editor

open Utf8 (Str)

inductive Command where
  | moveLeft (extend : Bool)
  | moveRight (extend : Bool)
  | moveUp (extend : Bool)
  | moveDown (extend : Bool)
  | moveWordLeft (extend : Bool)
  | moveWordRight (extend : Bool)
  | moveLineStart (extend : Bool)
  | moveLineEnd (extend : Bool)
  | moveDocumentStart (extend : Bool)
  | moveDocumentEnd (extend : Bool)
  | movePage (lines : Nat) (down extend : Bool)
  | selectAll
  | selectLine
  | insertText (text : Str)
  | insertNewline
  | insertTab
  | toggleLineComment
  | deleteBackward
  | deleteForward
  | deleteWordBackward
  | deleteLine
  | copy
  | cut
  | paste (text : Str)
  | undo
  | redo
  | gotoLine (line : Nat)
  | findNext (query : Query)
  | findPrevious (query : Query)
  | replaceMatch (query : Query) (replacement : Str)
  | replaceAll (query : Query) (replacement : Str)
  | addCaretVertically (down : Bool)
  | addNextOccurrence
  | collapseCarets
  deriving DecidableEq

namespace Movement

/-- The word `offset` is inside or touching. -/
def wordSpan (script : Script) (text : Text) (offset : Nat) : Nat × Nat :=
  let body := text.bytes.bytes
  let here := min offset text.len
  let inside := isWord script (Utf8.charAt body here)
  let touching := !inside && isWord script (Utf8.charBefore body here)
  if !inside && !touching then (here, here)
  else (skipWordBack script body text.len here, skipWord script body text.len here)

end Movement

namespace Document

def moveTo (document : Document) (extend : Bool) (target : Text → Nat → Nat) : Outcome × Document :=
  let head := target document.text document.selection.head
  (.default, document.setSelection (document.selection.withHead head extend))

def moveVertically (script : Script) (document : Document) (delta : Int) (extend : Bool) :
    Outcome × Document :=
  let selection := document.selection
  let moved := Movement.vertical script document.text selection.head delta
    selection.primary.goalColumn
  let cursor := { selection.primary.withHead moved.1 extend with goalColumn := some moved.2 }
  (.default, document.setSelection (.one cursor))

/-- Take a grown selection; one that merged into what was there is no new caret. -/
def grow (document : Document) (grown : Selection) : Outcome × Document :=
  (if grown.count > document.selection.count then .default else .refused .noMatch,
    document.setSelection grown)

/-- Put another caret one line up or down from the primary, in its column. -/
def addCaretVertically (script : Script) (document : Document) (down : Bool) : Outcome × Document :=
  let text := document.text
  let primary := document.selection.primary
  let here := text.lineCol primary.head
  if !down && here.line = 0 then (.default, document)
  else
    let line := if down then here.line + 1 else here.line - 1
    if line ≥ text.lineCount then (.default, document)
    else
      let goal := primary.goalColumn.getD (displayColumn script (text.line here.line) here.column)
      let target := text.line line
      let column := min goal (displayColumn script target target.len)
      let added := { Cursor.caret (text.lineStart line + byteColumnForDisplay script target
        column) with
        goalColumn := some goal }
      document.grow (document.selection.withAdded added)

/-- Select the next occurrence, keeping the carets already placed. -/
def addNextOccurrence (script : Script) (engine : Engine) (document : Document) :
    Outcome × Document :=
  let selection := document.selection
  let text := document.text
  let primary := selection.primary
  if primary.isEmpty then
    let span := Movement.wordSpan script text primary.head
    if span.1 = span.2 then (.refused .noMatch, document)
    else (.default, document.setSelection (.one (.new span.1 span.2)))
  else
    let query : Query := ⟨text.slice primary.range, true, false, false⟩
    let start := (selection.cursors.map (·.range.stop)).foldl max 0
    match findNext engine text query start with
    | none => (.refused .noMatch, document)
    | some found => document.grow (selection.withAdded (.new found.start found.stop))

/-- A found outcome of an undo or a redo. -/
def stepped (document : Document) (refusal : Refusal) :
    Option (Applied × Document) → Outcome × Document
  | some (applied, document) => ({ Outcome.default with changed := true, applied := some applied },
  document)
  | none => (.refused refusal, document)

/-- Paste in a group of its own. -/
def paste (document : Document) (text : Str) : Except EditError Applied × Document :=
  let (result, document) := document.breakUndoGroup.insert text .paste
  (result, document.breakUndoGroup)

/-- What a replace-all reports. -/
def replacedAll : Except EditError ReplaceOutcome → Outcome
  | .ok (.replaced count applied) =>
    if count = 0 then .refused .noMatch
    else { Outcome.default with changed := true, replaced := some count, applied }
  | .ok (.overBudget limit) => .refused (.tooManyMatches limit)
  | .error error => .refused (refusalFor error)

/-- Run one command against `document`. -/
def execute (script : Script) (engine : Engine) (style : InputStyle) (document : Document) :
    Command → Outcome × Document
  | .moveLeft extend => document.moveTo extend (Movement.left script)
  | .moveRight extend => document.moveTo extend (Movement.right script)
  | .moveUp extend => document.moveVertically script (-1) extend
  | .moveDown extend => document.moveVertically script 1 extend
  | .movePage lines down extend =>
    let step : Int := max lines 1
    document.moveVertically script (if down then step else -step) extend
  | .moveWordLeft extend => document.moveTo extend (Movement.wordLeft script)
  | .moveWordRight extend => document.moveTo extend (Movement.wordRight script)
  | .moveLineStart extend => document.moveTo extend (Movement.lineFirstNonBlank script)
  | .moveLineEnd extend => document.moveTo extend Movement.lineEnd
  | .moveDocumentStart extend => document.moveTo extend fun _ _ => 0
  | .moveDocumentEnd extend => document.moveTo extend fun text _ => text.len
  | .selectAll => (.default, document.setSelection (.one (.new 0 document.text.len)))
  | .selectLine =>
    let span := lineSpan document.text document.selection
    (.default, document.setSelection (.one (.new span.1 span.2)))
  | .insertText typed => (document.insertText script style typed).map Outcome.fromOptionalEdit id
  | .insertNewline => (document.insertNewline script style).map Outcome.fromOptionalEdit id
  | .insertTab => (document.insert (document.indentText script style) .input).map Outcome.fromEdit id
  | .deleteBackward => (document.delete (Movement.left script) .input).map Outcome.fromOptionalEdit id
  | .deleteForward => (document.delete (Movement.right script) .input).map Outcome.fromOptionalEdit id
  | .deleteWordBackward =>
    (document.breakUndoGroup.delete (Movement.wordLeft script) .input).map Outcome.fromOptionalEdit id
  | .deleteLine => document.deleteLine.map Outcome.fromOptionalEdit id
  | .copy => document.copy false
  | .cut => document.copy true
  | .toggleLineComment => (Comment.toggle script style document).map Outcome.fromOptionalEdit id
  | .paste text => (document.paste text).map Outcome.fromEdit id
  | .undo => document.stepped .nothingToUndo document.undo
  | .redo => document.stepped .nothingToRedo document.redo
  | .gotoLine line => (.default, document.gotoLine line)
  | .findNext query => document.find engine query true
  | .findPrevious query => document.find engine query false
  | .addCaretVertically down => document.addCaretVertically script down
  | .addNextOccurrence => document.addNextOccurrence script engine
  | .collapseCarets => (.default, document.setSelection document.selection.single)
  | .replaceMatch query replacement => document.replaceMatch engine query replacement
  | .replaceAll query replacement => (document.replaceAll engine query replacement).map replacedAll id

/-- The document after commands, one by one. -/
def executeAll (script : Script) (engine : Engine) (style : InputStyle) (document : Document)
    (commands : List Command) : Document :=
  commands.foldl (fun document command => (document.execute script engine style command).2) document

/-- The error of a refused edit. -/
def refusedWith {α : Type} : Except EditError α → Option EditError
  | .ok _ => none
  | .error error => some error

/-- What the document says to the edit that a cut builds. -/
def cutVerdict (document : Document) : Option EditError :=
  let chosen := (document.selection.cursors.map
    (copiedSpan document.text (document.selection.count == 1))).filter fun range => !range.isEmpty
  if chosen.isEmpty then none
  else match Transaction.new (chosen.map Edit.delete) .input document.selection with
    | .error error => some error
    | .ok transaction => refusedWith (document.breakUndoGroup.apply (transaction.withSelectionAfter
        (.many (deletionLandings 0 chosen) document.selection.primaryIndex))).1

/-- What the document says to the edit that a command builds, if it builds one. -/
def verdict (script : Script) (engine : Engine) (style : InputStyle) (document : Document) :
    Command → Option EditError
  | .insertText typed => refusedWith (document.insertText script style typed).1
  | .insertNewline => refusedWith (document.insertNewline script style).1
  | .insertTab => refusedWith (document.insert (document.indentText script style) .input).1
  | .deleteBackward => refusedWith (document.delete (Movement.left script) .input).1
  | .deleteForward => refusedWith (document.delete (Movement.right script) .input).1
  | .deleteWordBackward =>
    refusedWith (document.breakUndoGroup.delete (Movement.wordLeft script) .input).1
  | .deleteLine => refusedWith document.deleteLine.1
  | .cut => document.cutVerdict
  | .toggleLineComment => refusedWith (Comment.toggle script style document).1
  | .paste text => refusedWith (document.paste text).1
  | .replaceMatch query replacement =>
    if !query.equals (document.text.slice document.selection.range) || query.pattern.len = 0 then none
    else refusedWith (document.breakUndoGroup.insert replacement .replace).1
  | .replaceAll query replacement => refusedWith (document.replaceAll engine query replacement).1
  | _ => none

theorem fromOptionalEdit_refusal {result : Except EditError (Option Applied)} {error : EditError}
    (refused : refusedWith result = some error) :
    (Outcome.fromOptionalEdit result).refusal = some (refusalFor error) := by
  cases result with
  | ok applied => cases refused
  | error other =>
    obtain rfl : other = error := Option.some.inj refused
    rfl

theorem fromEdit_refusal {result : Except EditError Applied} {error : EditError}
    (refused : refusedWith result = some error) :
    (Outcome.fromEdit result).refusal = some (refusalFor error) := by
  cases result with
  | ok applied => cases refused
  | error other =>
    obtain rfl : other = error := Option.some.inj refused
    rfl

theorem copy_refusal {document : Document} {error : EditError}
    (refused : document.cutVerdict = some error) :
    (document.copy true).1.refusal = some (refusalFor error) := by
  unfold cutVerdict at refused
  unfold copy
  simp only [Bool.not_true, Bool.false_eq_true, if_false] at refused ⊢
  by_cases nothing : ((document.selection.cursors.map (copiedSpan document.text
      (document.selection.count == 1))).filter fun range => !range.isEmpty).isEmpty = true
  · rw [if_pos nothing] at refused
    cases refused
  · rw [if_neg nothing] at refused ⊢
    cases built : Transaction.new (((document.selection.cursors.map (copiedSpan document.text
        (document.selection.count == 1))).filter fun range => !range.isEmpty).map Edit.delete) .input
          document.selection with
    | error other =>
      rw [built] at refused
      obtain rfl : other = error := Option.some.inj refused
      rfl
    | ok transaction =>
      rw [built] at refused
      exact fromEdit_refusal refused

theorem replaceMatch_refusal {engine : Engine} {document : Document} {query : Query}
    {replacement : Str} {error : EditError}
    (refused : (if !query.equals (document.text.slice document.selection.range) ||
      query.pattern.len = 0 then none
        else refusedWith (document.breakUndoGroup.insert replacement .replace).1) = some error) :
    (document.replaceMatch engine query replacement).1.refusal = some (refusalFor error) := by
  unfold replaceMatch
  simp only
  split at refused
  · cases refused
  · rename_i goes
    rw [if_neg goes]
    have told := fromEdit_refusal refused
    rw [if_pos (by rw [told]; rfl)]
    exact told

/-- A refused edit is what the command reports. -/
theorem execute_refusal (script : Script) (engine : Engine) (style : InputStyle)
    (document : Document) (command : Command) {error : EditError}
    (refused : document.verdict script engine style command = some error) :
    (document.execute script engine style command).1.refusal = some (refusalFor error) := by
  cases command with
  | insertText | insertNewline | deleteBackward | deleteForward | deleteWordBackward | deleteLine
  | toggleLineComment => exact fromOptionalEdit_refusal refused
  | insertTab | paste => exact fromEdit_refusal refused
  | cut => exact copy_refusal refused
  | replaceMatch => exact replaceMatch_refusal refused
  | replaceAll query replacement =>
    simp only [verdict, execute, Prod.map] at refused ⊢
    cases result : (document.replaceAll engine query replacement).1 with
    | ok outcome =>
      rw [result] at refused
      cases refused
    | error other =>
      rw [result] at refused
      obtain rfl : other = error := Option.some.inj refused
      rfl
  | _ => cases refused

section Calls

variable {document : Document} (reached : document.Reached) (script : Script) (engine : Engine)
  (style : InputStyle)

include reached

theorem find_reached (query : Query) (forward : Bool) :
    (document.find engine query forward).2.Reached := by
  unfold find
  split
  · exact reached
  · simp only
    split
    · exact .call (.setSelection _) reached
    · exact reached

theorem insertText_reached (typed : Str) : (document.insertText script style typed).2.Reached := by
  have plain : (document.insert typed .input).2.Reached := .call (.insert typed .input) reached
  unfold insertText
  simp only
  split
  · exact plain
  split
  · exact plain
  split
  · exact plain
  split
  · exact .call (.setSelection _) reached
  split
  · split
    · exact .call (.insertAround typed _ .input) reached
    · exact plain
  · exact plain

theorem insertNewline_reached : (document.insertNewline script style).2.Reached := by
  unfold insertNewline
  simp only
  split
  · exact .call (.insertAround _ _ .input) reached
  · exact .call (.insert _ .input) reached

theorem deleteLine_reached : document.deleteLine.2.Reached := by
  have sealed : document.breakUndoGroup.Reached := .call .breakUndoGroup reached
  unfold deleteLine
  simp only
  split
  · exact reached
  split
  · exact sealed
  · exact .call .breakUndoGroup (.call (.apply _) sealed)

theorem toggle_reached : (Comment.toggle script style document).2.Reached := by
  unfold Comment.toggle
  split
  · exact reached
  split
  · exact reached
  simp only
  split
  · exact reached
  split
  · exact reached
  · exact .call (.apply _) (.call .breakUndoGroup reached)

theorem copy_reached (cut : Bool) : (document.copy cut).2.Reached := by
  have sealed : document.breakUndoGroup.Reached := .call .breakUndoGroup reached
  unfold copy
  simp only
  split
  · exact reached
  split
  · exact reached
  split
  · exact sealed
  · exact .call .breakUndoGroup (.call (.apply _) sealed)

theorem replaceMatch_reached (query : Query) (replacement : Str) :
    (document.replaceMatch engine query replacement).2.Reached := by
  have sealed : document.breakUndoGroup.Reached := .call .breakUndoGroup reached
  have inserted : (document.breakUndoGroup.insert replacement .replace).2.breakUndoGroup.Reached :=
    .call .breakUndoGroup (.call (.insert replacement .replace) sealed)
  unfold replaceMatch
  simp only
  split
  · exact find_reached reached engine query true
  split
  · exact inserted
  · exact find_reached inserted engine query true

theorem addCaretVertically_reached (down : Bool) :
    (document.addCaretVertically script down).2.Reached := by
  unfold addCaretVertically
  simp only
  split
  · exact reached
  generalize (if down = true then (document.text.lineCol document.selection.primary.head).line + 1
    else (document.text.lineCol document.selection.primary.head).line - 1) = line
  split
  · exact reached
  · exact .call (.setSelection _) reached

theorem addNextOccurrence_reached : (document.addNextOccurrence script engine).2.Reached := by
  unfold addNextOccurrence
  simp only
  split
  · split
    · exact reached
    · exact .call (.setSelection _) reached
  · split
    · exact reached
    · exact .call (.setSelection _) reached

/-- A command is calls of the document's interface. -/
theorem execute_reached (command : Command) :
    (document.execute script engine style command).2.Reached := by
  have sealed : document.breakUndoGroup.Reached := .call .breakUndoGroup reached
  cases command with
  | insertText typed => exact insertText_reached reached script style typed
  | insertNewline => exact insertNewline_reached reached script style
  | insertTab => exact .call (.insert _ .input) reached
  | toggleLineComment => exact toggle_reached reached script style
  | deleteBackward | deleteForward => exact .call (.delete _ .input) reached
  | deleteWordBackward => exact .call (.delete _ .input) sealed
  | deleteLine => exact deleteLine_reached reached
  | copy => exact copy_reached reached false
  | cut => exact copy_reached reached true
  | paste text => exact .call .breakUndoGroup (.call (.insert text .paste) sealed)
  | undo =>
    have after := Reached.call .undo reached
    simp only [execute, perform] at after ⊢
    cases found : document.undo with
    | none => exact reached
    | some pair =>
      rw [found] at after
      exact after
  | redo =>
    have after := Reached.call .redo reached
    simp only [execute, perform] at after ⊢
    cases found : document.redo with
    | none => exact reached
    | some pair =>
      rw [found] at after
      exact after
  | gotoLine line => exact .call (.gotoLine line) reached
  | findNext query => exact find_reached reached engine query true
  | findPrevious query => exact find_reached reached engine query false
  | replaceMatch query replacement => exact replaceMatch_reached reached engine query replacement
  | replaceAll query replacement => exact .call (.replaceAll engine query replacement) reached
  | addCaretVertically down => exact addCaretVertically_reached reached script down
  | addNextOccurrence => exact addNextOccurrence_reached reached script engine
  | _ => exact .call (.setSelection _) reached

theorem executeAll_reached (commands : List Command) :
    (document.executeAll script engine style commands).Reached := by
  induction commands generalizing document with
  | nil => exact reached
  | cons command rest ih => exact ih (execute_reached reached script engine style command)

end Calls

end Document

end ForgeNode.Editor
