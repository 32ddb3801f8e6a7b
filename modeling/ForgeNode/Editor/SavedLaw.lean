import ForgeNode.Editor.Lineage

/-! A clean document shows the text that was last saved, loaded or reloaded. -/

namespace ForgeNode.Editor

open List hiding after
open Utf8 Splice

variable {document : Document} {session : Session}

namespace Document

@[simp] theorem apply_savedState (document : Document) (transaction : Transaction) :
    (document.apply transaction).2.savedState = document.savedState := by
  unfold apply
  split
  · rfl
  split <;> rfl

@[simp] theorem insertAround_savedState (document : Document) (before after : Str)
    (origin : Origin) : (document.insertAround before after origin).2.savedState =
      document.savedState := by
  unfold insertAround
  simp only
  split
  · rfl
  · exact apply_savedState _ _

@[simp] theorem delete_savedState (document : Document) (into : Text → Nat → Nat)
    (origin : Origin) : (document.delete into origin).2.savedState = document.savedState := by
  unfold delete
  split
  · rfl
  simp only
  split
  · rfl
  split
  · rfl
  · exact apply_savedState _ _

@[simp] theorem replaceAll_savedState (document : Document) (engine : Engine) (query : Query)
    (replacement : Str) :
    (document.replaceAll engine query replacement).2.savedState = document.savedState := by
  unfold replaceAll
  split
  · rfl
  split
  · rfl
  split
  · rfl
  simp only
  split
  · rfl
  split
  · rfl
  split <;> exact apply_savedState _ _

theorem undo_savedState {document after : Document} (done : document.undo = some (applied, after)) :
    after.savedState = document.savedState := by
  obtain ⟨writable, entry, rest, top⟩ := undo_eq_some done
  simp only [undo, writable, History.popUndo, top, Bool.false_eq_true, if_false, Option.some.injEq,
    Prod.mk.injEq] at done
  rw [← done.2]
  rfl

theorem redo_savedState {document after : Document} (done : document.redo = some (applied, after)) :
    after.savedState = document.savedState := by
  obtain ⟨writable, entry, rest, top⟩ := redo_eq_some done
  simp only [redo, writable, History.popRedo, top, Bool.false_eq_true, if_false, Option.some.injEq,
    Prod.mk.injEq] at done
  rw [← done.2]
  rfl

private theorem replace_change {document : Document} {transaction : Transaction} {range : Range}
    {insert : Str} (single : transaction.edits = [.replace range insert])
    (first : document.text.bytes.IsBoundary range.start)
    (last : document.text.bytes.IsBoundary range.stop) (record : Bool) :
    (document.applyValidated transaction record).2.text.bytes.bytes =
      document.text.bytes.bytes.take range.start ++
        (insert.bytes ++ document.text.bytes.bytes.drop range.stop) := by
  have here : Range.new range.start range.stop = range := Range.new_of_le range.ordered
  simp only [applyValidated, single, Replay.run, foldl_cons, foldl_nil, Replay.step,
    Edit.replace, Int.add_zero, Int.toNat_natCast, here]
  exact Text.replace_bytes first last insert

theorem apply_ok {transaction : Transaction} (done : (document.apply transaction).1 = .ok applied) :
    (document.apply transaction).2 = (document.applyValidated transaction true).2 := by
  unfold apply at done ⊢
  split at done
  · cases done
  · rename_i writable
    split at done
    · cases done
    · rename_i valid
      simp only [writable]
      rfl

/-- A reload that succeeds leaves the body, saved. -/
theorem reload_ok {body : Str} (done : (document.reload body revision).1 = .ok applied) :
    (document.reload body revision).2.asStr = body ∧
      (document.reload body revision).2.savedState =
        some (document.reload body revision).2.state := by
  have built := Transaction.new_of_disjoint
    (.singleton (Edit.replace (.new 0 document.text.len) body)) .reload document.selection
  unfold reload at done ⊢
  simp only [built] at done ⊢
  split at done
  · cases done
  · rename_i applied result
    simp only [and_true]
    change ((document.setReadOnly false).breakUndoGroup.apply _).2.text.bytes = body
    rw [apply_ok result]
    have whole : Range.new 0 document.text.len = ⟨0, document.text.len, Nat.zero_le _⟩ :=
      Range.new_of_le _
    apply Str.ext
    rw [whole] at *
    rw [replace_change rfl (Str.isBoundary_zero _) (Str.isBoundary_len _)]
    have nothing : document.text.bytes.bytes.drop document.text.len = [] := drop_length
    exact (congrArg (body.bytes ++ ·) nothing).trans (append_nil _)

theorem reload_error (failed : (document.reload body revision).1 = .error error) :
    (document.reload body revision).2.savedState = document.savedState := by
  unfold reload at failed ⊢
  simp only at failed ⊢
  split
  · rfl
  · rename_i transaction built
    simp only [built] at failed
    split at failed
    · rename_i problem result
      exact apply_savedState _ _
    · cases failed

/-- A clean reload that succeeds leaves the disk text, saved. -/
theorem reloadClean_ok {disk : Str} (done : (document.reloadClean disk revision).1 = .ok applied) :
    (document.reloadClean disk revision).2.asStr = disk ∧
      (document.reloadClean disk revision).2.savedState =
        some (document.reloadClean disk revision).2.state := by
  unfold reloadClean at done ⊢
  split at done
  · cases done
  split at done
  · cases done
  rename_i clean small
  split at done
  · rename_i same
    have saved : document.savedState = some document.state := by
      simpa [isDirty] using clean
    simp only [clean, small, same, Bool.false_eq_true, if_false, if_true]
    exact ⟨same, saved⟩
  · rename_i differs
    obtain ⟨insert, found, order, first, last, joined⟩ := ReloadSpan.between_spec document.asStr disk
    have built := Transaction.new_of_disjoint (.singleton (Edit.replace
      (.new (ReloadSpan.between document.asStr disk).start
        (ReloadSpan.between document.asStr disk).oldEnd) insert)) .reload document.selection
    simp only [found, Option.getD_some, built] at done ⊢
    split at done
    · cases done
    · rename_i valid
      simp only [clean, small, differs, Bool.false_eq_true, if_false, and_true]
      apply Str.ext
      rw [← joined]
      rw [Range.new_of_le order] at *
      exact @replace_change document.breakUndoGroup _ ⟨_, _, order⟩ insert rfl first last true

theorem reloadClean_error {disk : Str}
    (failed : (document.reloadClean disk revision).1 = .error error) :
    (document.reloadClean disk revision).2 = document := by
  unfold reloadClean at failed ⊢
  split
  · rfl
  split
  · rfl
  split
  · rename_i clean small same
    simp only [clean, small, same, Bool.false_eq_true, if_false, if_true] at failed
    cases failed
  · rename_i clean small differs
    simp only [clean, small, differs, Bool.false_eq_true, if_false] at failed ⊢
    split
    · rfl
    · rename_i transaction built
      simp only [built] at failed
      split at failed
      · rfl
      · cases failed

/-- Only reloads and confirmations decide what counts as saved. -/
theorem perform_savedState {op : Op} (reload : ∀ body revision, op ≠ .reload body revision)
    (reloadClean : ∀ text revision, op ≠ .reloadClean text revision)
    (confirm : ∀ snapshot revision, op ≠ .confirmSave snapshot revision) :
    (document.perform op).savedState = document.savedState := by
  cases op with
  | apply transaction => exact apply_savedState _ _
  | insert | insertAround => exact insertAround_savedState _ _ _ _
  | delete into origin => exact delete_savedState _ _ _
  | replaceAll engine query replacement => exact replaceAll_savedState _ _ _ _
  | reload body revision => exact False.elim (reload body revision rfl)
  | reloadClean text revision => exact False.elim (reloadClean text revision rfl)
  | undo =>
    simp only [perform]
    cases done : document.undo with
    | none => rfl
    | some result => exact undo_savedState done
  | redo =>
    simp only [perform]
    cases done : document.redo with
    | none => rfl
    | some result => exact redo_savedState done
  | confirmSave snapshot revision => exact False.elim (confirm snapshot revision rfl)
  | _ => rfl

end Document

namespace Session

/-- Snapshots and the saved state refer to texts the document had under those numbers. -/
structure Saved (session : Session) : Prop where
  coherent : session.document.Coherent session.seen
  taken : ∀ snapshot ∈ session.taken, (snapshot.state, snapshot.text) ∈ session.seen
  saved : ∀ state, session.document.savedState = some state → (state, session.saved) ∈ session.seen

theorem load_saved (body : Str) (readOnly : Bool) : (load body readOnly).Saved where
  coherent := Document.fromString_coherent body readOnly
  taken := by simp [load]
  saved state same := by
    rw [← Option.some.inj same]
    exact mem_cons_self

/-- What the saved state means after any call. -/
theorem Saved.saved_after (saved : session.Saved)
    (own : ∀ snapshot revision, op = .confirmSave snapshot revision → snapshot ∈ session.taken)
    (state : Nat) (same : (session.document.perform op).savedState = some state) :
    (state, session.savedBy op) ∈ (session.after op).seen := by
  have grows : session.seen ⊆ (session.after op).seen := subset_cons_self _ _
  by_cases reloads : ∃ body revision, op = .reload body revision
  · obtain ⟨body, revision, rfl⟩ := reloads
    simp only [savedBy]
    cases result : (session.document.reload body revision).1 with
    | ok applied =>
      obtain ⟨text, marked⟩ := Document.reload_ok result
      have here := Option.some.inj (marked.symm.trans same)
      rw [← here]
      simp only [after, Document.perform, text]
      exact mem_cons_self
    | error error =>
      exact grows (saved.saved state ((Document.reload_error result).symm.trans same))
  by_cases rereads : ∃ text revision, op = .reloadClean text revision
  · obtain ⟨disk, revision, rfl⟩ := rereads
    simp only [savedBy]
    cases result : (session.document.reloadClean disk revision).1 with
    | ok applied =>
      obtain ⟨text, marked⟩ := Document.reloadClean_ok result
      have here := Option.some.inj (marked.symm.trans same)
      rw [← here]
      simp only [after, Document.perform, text]
      exact mem_cons_self
    | error error =>
      have untouched := congrArg Document.savedState (Document.reloadClean_error result)
      exact grows (saved.saved state (untouched.symm.trans same))
  by_cases confirms : ∃ snapshot revision, op = .confirmSave snapshot revision
  · obtain ⟨snapshot, revision, rfl⟩ := confirms
    rw [← Option.some.inj same]
    exact grows (saved.taken snapshot (own snapshot revision rfl))
  · have kept : session.savedBy op = session.saved := by
      cases op with
      | reload body revision => exact False.elim (reloads ⟨body, revision, rfl⟩)
      | reloadClean text revision => exact False.elim (rereads ⟨text, revision, rfl⟩)
      | confirmSave snapshot revision => exact False.elim (confirms ⟨snapshot, revision, rfl⟩)
      | _ => rfl
    rw [kept]
    refine grows (saved.saved state ?_)
    rw [← same]
    exact (Document.perform_savedState (fun body revision here => reloads ⟨body, revision, here⟩)
      (fun text revision here => rereads ⟨text, revision, here⟩)
      (fun snapshot revision here => confirms ⟨snapshot, revision, here⟩)).symm

theorem Saved.step {session after : Session} (saved : session.Saved)
    (step : Step session op after) :
    after.Saved := by
  obtain ⟨own⟩ := step
  have grows : session.seen ⊆ (session.after op).seen := subset_cons_self _ _
  refine ⟨saved.coherent.effect (Document.perform_effect _ op), ?_, saved.saved_after own⟩
  intro snapshot member
  simp only [Session.after] at member
  split at member
  · rcases mem_cons.mp member with rfl | older
    · exact grows saved.coherent.current
    · exact grows (saved.taken snapshot older)
  · exact grows (saved.taken snapshot member)

theorem Reachable.saved (reachable : session.Reachable) : session.Saved := by
  obtain ⟨body, readOnly, steps, run⟩ := reachable
  exact (Run.invariant Saved (fun step saved => saved.step step) run (load_saved body readOnly)).1

theorem Saved.clean (saved : session.Saved) (clean : session.document.isDirty = false) :
    session.document.asStr = session.saved := by
  have marked : session.document.savedState = some session.document.state := by
    simpa [Document.isDirty] using clean
  exact saved.coherent.single _ _ _ saved.coherent.current (saved.saved _ marked)

/-- A clean document shows the text most recently confirmed, loaded or reloaded, and no
content-state number was ever shared by two texts. -/
theorem clean_text_saved {session : Session} (reachable : session.Reachable) :
    (session.document.isDirty = false → session.document.asStr = session.saved) ∧
      ∀ state text other, (state, text) ∈ session.seen → (state, other) ∈ session.seen →
        text = other := by
  have saved := reachable.saved
  exact ⟨saved.clean, saved.coherent.single⟩

/-- A keystroke undone: the buffer is clean again and shows the text it was loaded with. -/
theorem clean_text_saved_undone :
    let session := ((load (.ofChars ['a']) false).after (.insert (.ofChars ['b']) .input)).after
      .undo
    session.document.isDirty = false ∧ session.document.asStr = session.saved := by
  intro session
  have own (session : Session) (op : Op) (quiet : ∀ snapshot revision,
      op ≠ .confirmSave snapshot revision) : Step session op (session.after op) :=
    .call (fun snapshot revision same => False.elim (quiet snapshot revision same))
  have reachable : session.Reachable := ⟨_, false, _,
    .cons (own _ (.insert (.ofChars ['b']) .input) (by simp)) (.cons (own _ .undo (by simp)) .nil)⟩
  have clean : session.document.isDirty = false := by decide
  exact ⟨clean, (clean_text_saved reachable).1 clean⟩

end Session

end ForgeNode.Editor
