import ForgeNode.Editor.Reload
import ForgeNode.Lib.Run

/-! Every call of a document, and the few things a call can do to its text. -/

namespace ForgeNode.Editor

open Utf8 (Str)

/-- A call of the document's interface. -/
inductive Op where
  | apply (transaction : Transaction)
  | insert (text : Str) (origin : Origin)
  | insertAround (before after : Str) (origin : Origin)
  | delete (into : Text → Nat → Nat) (origin : Origin)
  | replaceAll (engine : Engine) (query : Query) (replacement : Str)
  | reload (body : Str) (revision : String)
  | reloadClean (text : Str) (revision : String)
  | undo
  | redo
  | setSelection (selection : Selection)
  | gotoLine (lineOneBased : Nat)
  | breakUndoGroup
  | setReadOnly (readOnly : Bool)
  | continueFrom (replaced : Nat)
  | setDiskRevision (revision : String)
  | snapshot
  | confirmSave (snapshot : Snapshot) (revision : String)

namespace Document

/-- The document after a call. -/
def perform (document : Document) : Op → Document
  | .apply transaction => (document.apply transaction).2
  | .insert text origin => (document.insert text origin).2
  | .insertAround before after origin => (document.insertAround before after origin).2
  | .delete into origin => (document.delete into origin).2
  | .replaceAll engine query replacement => (document.replaceAll engine query replacement).2
  | .reload body revision => (document.reload body revision).2
  | .reloadClean text revision => (document.reloadClean text revision).2
  | .undo => (document.undo.map (·.2)).getD document
  | .redo => (document.redo.map (·.2)).getD document
  | .setSelection selection => document.setSelection selection
  | .gotoLine line => document.gotoLine line
  | .breakUndoGroup => document.breakUndoGroup
  | .setReadOnly readOnly => document.setReadOnly readOnly
  | .continueFrom replaced => document.continueFrom replaced
  | .setDiskRevision revision => document.setDiskRevision revision
  | .snapshot => document
  | .confirmSave snapshot revision => document.confirmSave snapshot revision

/-- Two documents that differ at most in selection, flags, version and sealing. -/
structure SameContent (document other : Document) : Prop where
  text : other.text = document.text
  undo : other.history.undo = document.history.undo
  redo : other.history.redo = document.history.redo
  state : other.state = document.state
  nextState : other.nextState = document.nextState

theorem SameContent.refl (document : Document) : SameContent document document :=
  ⟨rfl, rfl, rfl, rfl, rfl⟩

theorem SameContent.trans (first : SameContent document middle)
    (second : SameContent middle other) : SameContent document other :=
  ⟨second.text.trans first.text, second.undo.trans first.undo, second.redo.trans first.redo,
    second.state.trans first.state, second.nextState.trans first.nextState⟩

/-- What a call can do: leave the content alone, record one validated transaction,
or replay the entry on top of one of the stacks. -/
inductive Effect (document : Document) : Document → Prop where
  | quiet (same : SameContent document after) : Effect document after
  | recorded (same : SameContent document here) (valid : here.validate transaction = .ok ())
      (done : SameContent (here.applyValidated transaction true).2 after) : Effect document after
  | undone (writable : document.readOnly = false) (top : document.history.undo = entry :: rest)
      (done : document.undo = some (applied, after)) : Effect document after
  | redone (writable : document.readOnly = false) (top : document.history.redo = entry :: rest)
      (done : document.redo = some (applied, after)) : Effect document after

theorem breakUndoGroup_same (document : Document) : SameContent document document.breakUndoGroup :=
  ⟨rfl, rfl, rfl, rfl, rfl⟩

theorem setSelection_same (document : Document) (selection : Selection) :
    SameContent document (document.setSelection selection) := by
  unfold setSelection
  refine ⟨rfl, ?_, ?_, rfl, rfl⟩ <;> simp only <;> split <;> rfl

theorem setReadOnly_same (document : Document) (readOnly : Bool) :
    SameContent document (document.setReadOnly readOnly) := ⟨rfl, rfl, rfl, rfl, rfl⟩

theorem apply_effect {document here after : Document} {transaction : Transaction}
    (same : SameContent document here)
    (done : SameContent (here.apply transaction).2 after) : Effect document after := by
  unfold apply at done
  split at done
  · exact .quiet (same.trans done)
  split at done
  · exact .quiet (same.trans done)
  · rename_i valid
    exact .recorded same valid done

theorem insertAround_effect (document : Document) (before after : Str) (origin : Origin) :
    Effect document (document.insertAround before after origin).2 := by
  unfold insertAround
  simp only
  split
  · exact .quiet (.refl document)
  · exact apply_effect (.refl document) (.refl _)

theorem delete_effect (document : Document) (into : Text → Nat → Nat) (origin : Origin) :
    Effect document (document.delete into origin).2 := by
  unfold delete
  split
  · exact .quiet (.refl document)
  simp only
  split
  · exact .quiet (.refl document)
  split
  · exact .quiet (.refl document)
  · exact apply_effect (.refl document) (.refl _)

theorem replaceAll_effect (document : Document) (engine : Engine) (query : Query)
    (replacement : Str) : Effect document (document.replaceAll engine query replacement).2 := by
  unfold replaceAll
  split
  · exact .quiet (.refl document)
  split
  · exact .quiet (.refl document)
  split
  · exact .quiet (.refl document)
  simp only
  split
  · exact .quiet (.refl document)
  split
  · exact .quiet (.refl document)
  split
  · exact apply_effect (breakUndoGroup_same document) (.refl _)
  · exact apply_effect (breakUndoGroup_same document) (breakUndoGroup_same _)

theorem reload_effect (document : Document) (body : Str) (revision : String) :
    Effect document (document.reload body revision).2 := by
  have opened : SameContent document (document.setReadOnly false).breakUndoGroup :=
    (setReadOnly_same document false).trans (breakUndoGroup_same _)
  unfold reload
  simp only
  split
  · exact .quiet (setReadOnly_same document false)
  · split
    · exact apply_effect opened (setReadOnly_same _ _)
    · exact apply_effect opened ⟨rfl, rfl, rfl, rfl, rfl⟩

theorem reloadClean_effect (document : Document) (text : Str) (revision : String) :
    Effect document (document.reloadClean text revision).2 := by
  unfold reloadClean
  split
  · exact .quiet (.refl document)
  split
  · exact .quiet (.refl document)
  split
  · exact .quiet ⟨rfl, rfl, rfl, rfl, rfl⟩
  simp only
  split
  · exact .quiet (.refl document)
  split
  · exact .quiet (.refl document)
  · rename_i valid
    exact .recorded (breakUndoGroup_same document) valid ⟨rfl, rfl, rfl, rfl, rfl⟩

theorem undo_eq_some {document : Document} (done : document.undo = some (applied, after)) :
    document.readOnly = false ∧ ∃ entry rest, document.history.undo = entry :: rest := by
  unfold undo at done
  split at done
  · cases done
  · rename_i writable
    unfold History.popUndo at done
    cases top : document.history.undo with
    | nil => simp [top] at done
    | cons entry rest => exact ⟨eq_false_of_ne_true writable, entry, rest, rfl⟩

theorem redo_eq_some {document : Document} (done : document.redo = some (applied, after)) :
    document.readOnly = false ∧ ∃ entry rest, document.history.redo = entry :: rest := by
  unfold redo at done
  split at done
  · cases done
  · rename_i writable
    unfold History.popRedo at done
    cases top : document.history.redo with
    | nil => simp [top] at done
    | cons entry rest => exact ⟨eq_false_of_ne_true writable, entry, rest, rfl⟩

/-- Every call has one of the four effects. -/
theorem perform_effect (document : Document) (op : Op) : Effect document (document.perform op) := by
  cases op with
  | apply transaction => exact apply_effect (.refl document) (.refl _)
  | insert text origin => exact insertAround_effect document text .empty origin
  | insertAround before after origin => exact insertAround_effect document before after origin
  | delete into origin => exact delete_effect document into origin
  | replaceAll engine query replacement => exact replaceAll_effect document engine query replacement
  | reload body revision => exact reload_effect document body revision
  | reloadClean text revision => exact reloadClean_effect document text revision
  | undo =>
    simp only [perform]
    cases done : document.undo with
    | none => exact .quiet (.refl document)
    | some result =>
      obtain ⟨writable, entry, rest, top⟩ := undo_eq_some done
      exact .undone writable top done
  | redo =>
    simp only [perform]
    cases done : document.redo with
    | none => exact .quiet (.refl document)
    | some result =>
      obtain ⟨writable, entry, rest, top⟩ := redo_eq_some done
      exact .redone writable top done
  | setSelection selection => exact .quiet (setSelection_same document selection)
  | gotoLine line => exact .quiet (setSelection_same document _)
  | breakUndoGroup => exact .quiet (breakUndoGroup_same document)
  | setReadOnly readOnly => exact .quiet (setReadOnly_same document readOnly)
  | continueFrom | setDiskRevision => exact .quiet ⟨rfl, rfl, rfl, rfl, rfl⟩
  | snapshot => exact .quiet (.refl document)
  | confirmSave snapshot revision => exact .quiet ⟨rfl, rfl, rfl, rfl, rfl⟩

/-- Documents that some calls reach from a freshly loaded one. -/
inductive Reached : Document → Prop where
  | load (body : Str) (readOnly : Bool) : Reached (.fromString body readOnly)
  | call {document : Document} (op : Op) (reached : Reached document) : Reached (document.perform op)

end Document

/-- A document with the facts about its past that the laws speak of. -/
structure Session where
  document : Document
  /-- Snapshots taken so far. -/
  taken : List Snapshot
  /-- The text most recently confirmed, loaded or reloaded. -/
  saved : Str
  /-- Every content-state number the document had, with the text it had then. -/
  seen : List (Nat × Str)

namespace Session

def load (body : Str) (readOnly : Bool) : Session :=
  ⟨.fromString body readOnly, [], body, [(0, body)]⟩

def savedBy (session : Session) : Op → Str
  | .reload body revision =>
    match (session.document.reload body revision).1 with
    | .ok _ => body
    | .error _ => session.saved
  | .reloadClean text revision =>
    match (session.document.reloadClean text revision).1 with
    | .ok _ => text
    | .error _ => session.saved
  | .confirmSave snapshot _ => snapshot.text
  | _ => session.saved

def after (session : Session) (op : Op) : Session :=
  let document := session.document.perform op
  { document
    taken := match op with
      | .snapshot => session.document.snapshot :: session.taken
      | _ => session.taken
    saved := session.savedBy op
    seen := (document.state, document.asStr) :: session.seen }

/-- A save is only confirmed for a snapshot this document took, however long ago. -/
inductive Step : Session → Op → Session → Prop where
  | call (own : ∀ snapshot revision, op = .confirmSave snapshot revision → snapshot ∈ session.taken) :
      Step session op (session.after op)

/-- Sessions that some run of calls reaches from a freshly loaded document. -/
def Reachable (session : Session) : Prop :=
  ∃ body readOnly steps, Run Step (load body readOnly) steps session

end Session

end ForgeNode.Editor
