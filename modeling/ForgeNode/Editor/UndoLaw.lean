import ForgeNode.Editor.Lineage

/-! Undo puts back the text from before an entry's first transaction, redo the text after it. -/

namespace ForgeNode.Editor

open Utf8 (Str)
open Document

/-- Every edit of a replayed transaction is in bounds and on boundaries of the text. -/
def Transaction.StandsIn (transaction : Transaction) (text : Str) : Prop :=
  ∀ edit ∈ transaction.edits, text.IsBoundary edit.range.start ∧ text.IsBoundary edit.range.stop

namespace Document

/-- Undo, when it does something, restores the text just before the first transaction of
the popped entry, and a redo right after it restores the text it was called on. -/
def UndoRestores (document : Document) : Prop :=
  ∀ applied after, document.undo = some (applied, after) →
    ∃ entry rest, document.history.undo = entry :: rest ∧ entry.undo.StandsIn document.asStr ∧
      after.asStr = entry.base ∧ entry.redo.StandsIn after.asStr ∧
      ∃ again restored, after.redo = some (again, restored) ∧ restored.asStr = document.asStr

/-- Redo, whenever it does something, replays a transaction that stands in the text. -/
def RedoStands (document : Document) : Prop :=
  ∀ applied after, document.redo = some (applied, after) →
    ∃ entry rest, document.history.redo = entry :: rest ∧ entry.base = document.asStr ∧
      entry.redo.StandsIn document.asStr

theorem redo_of_top {document : Document} (writable : document.readOnly = false)
    (top : document.history.redo = entry :: rest) :
    ∃ applied after, document.redo = some (applied, after) := by
  simp only [redo, writable, History.popRedo, top]
  exact ⟨_, _, rfl⟩

theorem Coherent.undoRestores {document : Document} (coherent : document.Coherent seen) :
    document.UndoRestores := by
  intro applied after done
  obtain ⟨_, entry, rest, top⟩ := undo_eq_some done
  obtain ⟨text, _, redo, _, _, writable⟩ := undo_eq top done
  have base := coherent.undo_text top
  rw [← text] at base
  have line := coherent.undo
  rw [top] at line
  obtain ⟨change, redoes, undoes⟩ := line.1.change
  obtain ⟨again, restored, redone⟩ := redo_of_top writable redo
  refine ⟨entry, rest, top, change.flip.performs_boundaries undoes, base, ?_, again, restored,
    redone, ?_⟩
  · rw [show after.asStr = entry.base from base]
    exact change.performs_boundaries redoes
  · obtain ⟨next, _, _, forward⟩ := (coherent.undone top done).redo_text redo
    have here : Document.asStr restored = next := by rw [← forward, ← (redo_eq redo redone).1]; rfl
    -- The entry leads back to one text only: the base determines what redo yields.
    have rebased : ∃ change : Change after.text.bytes document.text.bytes,
        Performs entry.redo change := by
      rw [base]
      exact ⟨change, redoes⟩
    obtain ⟨forth, performs⟩ := rebased
    rw [here, ← forward]
    exact applyValidated_text forth performs false

theorem Coherent.redoStands {document : Document} (coherent : document.Coherent seen) :
    document.RedoStands := by
  intro applied after done
  obtain ⟨_, entry, rest, top⟩ := redo_eq_some done
  have line := coherent.redo
  rw [top] at line
  obtain ⟨same, next, links, _⟩ := line
  obtain ⟨change, redoes, _⟩ := links.change
  refine ⟨entry, rest, top, same, ?_⟩
  rw [show document.asStr = entry.base from same.symm]
  exact change.performs_boundaries redoes

end Document

/-- Whatever calls led here, undo and redo replay exactly what the entries recorded. -/
theorem Session.undo_redo_replay {session : Session} (reachable : session.Reachable) :
    session.document.UndoRestores ∧ session.document.RedoStands :=
  ⟨reachable.coherent.undoRestores, reachable.coherent.redoStands⟩

/-- Two keystrokes at the start of "a" share one entry, and undoing it takes both back. -/
theorem Session.undo_redo_replay_typed :
    let session := ((load (.ofChars ['a']) false).after (.insert (.ofChars ['b']) .input)).after
      (.insert (.ofChars ['c']) .input)
    (session.document.UndoRestores ∧ session.document.RedoStands) ∧
      session.document.undo.map (·.2.asStr) = some (.ofChars ['a']) := by
  intro session
  have own (session : Session) (text : Str) : Step session (.insert text .input) (session.after _) :=
    .call (fun _ _ same => by cases same)
  exact ⟨Session.undo_redo_replay ⟨_, false, _, .cons (own _ _) (.cons (own _ _) .nil)⟩, by decide⟩

end ForgeNode.Editor
