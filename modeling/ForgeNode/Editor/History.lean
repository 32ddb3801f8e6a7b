import ForgeNode.Editor.Transaction

/-! Undo and redo stacks, bounded in bytes and in entries. -/

namespace ForgeNode.Editor

open Utf8 (Str)

/-- A transaction, its inverse, and the content state on each side. `base` is a ghost the
source does not keep: the text just before the first transaction of the entry. -/
structure Entry where
  undo : Transaction
  redo : Transaction
  stateBefore : Nat
  stateAfter : Nat
  retained : Nat
  /-- Offset the caret reached after `redo`. -/
  resumeAt : Nat
  base : Str

/-- Merge a keystroke into the entry before it, or refuse. -/
def coalesce (last : Entry) (undo redo : Transaction) : Option Entry :=
  if !last.redo.origin.coalesces || !redo.origin.coalesces then none
  else match redo.single with
    | none => none
    | some addition =>
      if undo.single.isNone || !addition.range.isEmpty || addition.range.start !=
        last.resumeAt then none
      else match last.undo.single, last.redo.single with
        | some previousUndo, some previousRedo =>
          let merged := { previousRedo with insert := previousRedo.insert ++ addition.insert }
          let start := merged.range.start
          let undone := { previousUndo with range := .new start (start + merged.insert.len) }
          some { last with
            undo := { last.undo.withSingle undone with origin := .history }
            redo := last.redo.withSingle merged }
        | _, _ => none

/-- Both stacks have their newest entry first. -/
structure History where
  undo : List Entry
  redo : List Entry
  retained : Nat
  dropped : Nat
  sealed : Bool

namespace History

def default : History := ⟨[], [], 0, 0, false⟩

/-- The loop of `trim`, over the undo entries from the oldest on. -/
def trimOldest : List Entry → Nat → Nat → List Entry × Nat × Nat
  | [], retained, dropped => ([], retained, dropped)
  | oldest :: rest, retained, dropped =>
    if rest.length + 1 > maxHistoryEntries ∨ (retained > maxHistoryBytes ∧ rest.length + 1 > 1) then
      trimOldest rest (retained - oldest.retained) (dropped + 1)
    else (oldest :: rest, retained, dropped)

/-- Drop the oldest entries until the budget holds. -/
def trim (history : History) : History :=
  let (kept, retained, dropped) := trimOldest history.undo.reverse history.retained history.dropped
  { history with undo := kept.reverse, retained, dropped }

/-- The entry that `record` grows in place, when it does. -/
def joined (history : History) (undo redo : Transaction) : Option Entry :=
  if history.sealed then none
  else match history.undo with
    | [] => none
    | last :: _ => coalesce last undo redo

/-- Record `redo` and its inverse `undo`, coalescing with the previous entry when
both are ordinary typing that continued where the last one stopped. -/
def record (history : History) (undo redo : Transaction)
    (stateBefore stateAfter resumeAt : Nat) (base : Str) : History :=
  let kept := history.retained - (history.redo.map Entry.retained).sum
  let retained := undo.retainedBytes + redo.retainedBytes
  match history.joined undo redo with
  | some last =>
    let last := { last with
      undo := { last.undo with selectionBefore := undo.selectionBefore }
      redo := { last.redo with selectionAfter := redo.selectionAfter }
      stateAfter, resumeAt, retained := last.retained + retained }
    trim { history with undo := last :: history.undo.tail, redo := [], retained := kept + retained }
  | none =>
    let entry := { undo, redo, stateBefore, stateAfter, retained, resumeAt, base }
    trim { history with
      undo := entry :: history.undo, redo := [], retained := kept + retained, sealed := false }

/-- Stop the next edit from joining the current typing run. -/
def sealRun (history : History) : History := { history with sealed := true }

def popUndo (history : History) : Option ((Transaction × Nat) × History) :=
  match history.undo with
  | [] => none
  | entry :: rest =>
    some ((entry.undo, entry.stateBefore),
      { history with undo := rest, redo := entry :: history.redo, sealed := true })

def popRedo (history : History) : Option ((Transaction × Nat) × History) :=
  match history.redo with
  | [] => none
  | entry :: rest =>
    some ((entry.redo, entry.stateAfter),
      { history with undo := entry :: history.undo, redo := rest, sealed := true })

private theorem trimOldest_eq_drop (entries : List Entry) (retained dropped : Nat) :
    ∃ count, (trimOldest entries retained dropped).1 = entries.drop count := by
  induction entries generalizing retained dropped with
  | nil => exact ⟨0, rfl⟩
  | cons oldest rest ih =>
    unfold trimOldest
    split
    · obtain ⟨count, same⟩ := ih (retained - oldest.retained) (dropped + 1)
      exact ⟨count + 1, by rw [List.drop_succ_cons, same]⟩
    · exact ⟨0, rfl⟩

theorem trim_undo (history : History) : ∃ count, history.trim.undo = history.undo.take count := by
  obtain ⟨count, same⟩ :=
    trimOldest_eq_drop history.undo.reverse history.retained history.dropped
  refine ⟨history.undo.length - count, ?_⟩
  simp only [trim, same, List.drop_reverse, List.reverse_reverse]

@[simp] theorem record_redo (history : History) (undo redo : Transaction)
    (stateBefore stateAfter resumeAt : Nat) (base : Str) :
    (history.record undo redo stateBefore stateAfter resumeAt base).redo = [] := by
  unfold record
  simp only
  split <;> rfl

end History

/-- Everything a merge needs: two single edits, the new one inserting where the last stopped. -/
theorem coalesce_eq_some {last : Entry} (found : coalesce last undo redo = some merged) :
    ∃ addition previousUndo previousRedo,
      redo.edits = [addition] ∧ addition.range.start = last.resumeAt ∧
      addition.range.stop = last.resumeAt ∧
      last.undo.edits = [previousUndo] ∧ last.redo.edits = [previousRedo] ∧
      (∃ range : Range, range.start = previousRedo.range.start ∧
        range.stop = previousRedo.range.start + (previousRedo.insert.len + addition.insert.len) ∧
        merged.undo.edits = [{ previousUndo with range }]) ∧
      merged.redo.edits = [{ previousRedo with insert := previousRedo.insert ++ addition.insert }] ∧
      merged.stateBefore = last.stateBefore ∧ merged.base = last.base := by
  unfold coalesce at found
  split at found
  · cases found
  split at found
  · cases found
  rename_i addition single
  split at found
  · cases found
  rename_i resumes
  split at found
  · rename_i previousUndo previousRedo undoSingle redoSingle
    simp only [Range.isEmpty, Bool.or_eq_true, Bool.not_eq_true', beq_eq_false_iff_ne, bne_iff_ne,
      ne_eq, not_or, not_not] at resumes
    refine ⟨addition, previousUndo, previousRedo, Transaction.single_eq_some single, resumes.2,
      resumes.1.2 ▸ resumes.2, Transaction.single_eq_some undoSingle,
      Transaction.single_eq_some redoSingle, ?_⟩
    rw [← Option.some.inj found]
    refine ⟨⟨_, ?_, ?_, rfl⟩, rfl, rfl, rfl⟩ <;> rw [Range.new_of_le (Nat.le_add_right _ _)]
    simp only [Str.len_append]
  · cases found

end ForgeNode.Editor
