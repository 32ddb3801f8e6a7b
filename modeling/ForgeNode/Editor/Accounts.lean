import ForgeNode.Editor.History

/-! What a history keeps count of: the bytes it retains, over any calls on it. -/

namespace ForgeNode.Editor

open List
open Utf8 (Str)

/-- The bytes that entries say they retain. -/
def retainedSum (entries : List Entry) : Nat := (entries.map Entry.retained).sum

@[simp] theorem retainedSum_nil : retainedSum [] = 0 := rfl

@[simp] theorem retainedSum_cons (entry : Entry) (rest : List Entry) :
    retainedSum (entry :: rest) = entry.retained + retainedSum rest := by
  rw [retainedSum, map_cons, sum_cons]
  rfl

theorem retainedSum_reverse (entries : List Entry) :
    retainedSum entries.reverse = retainedSum entries := by
  rw [retainedSum, map_reverse, sum_reverse]
  rfl

/-- A subtraction of unsigned numbers, where it does not underflow. -/
def checkedSub (whole part : Nat) : Option Nat := if part ≤ whole then some (whole - part) else none

theorem checkedSub_of_le {whole part : Nat} (fits : part ≤ whole) :
    checkedSub whole part = some (whole - part) :=
  if_pos fits

/-- One call on a history. -/
inductive HistoryOp where
  | record (undo redo : Transaction) (stateBefore stateAfter resumeAt : Nat) (base : Str)
  | sealRun
  | popUndo
  | popRedo

namespace History

/-- `trimOldest` with its subtraction checked. -/
def trimOldestChecked : List Entry → Nat → Nat → Option (List Entry × Nat × Nat)
  | [], retained, dropped => some ([], retained, dropped)
  | oldest :: rest, retained, dropped =>
    if rest.length + 1 > maxHistoryEntries ∨
      (retained > maxHistoryBytes ∧ rest.length + 1 > 1) then do
      let left ← checkedSub retained oldest.retained
      trimOldestChecked rest left (dropped + 1)
    else some (oldest :: rest, retained, dropped)

def trimChecked (history : History) : Option History := do
  let (kept, retained, dropped) ← trimOldestChecked history.undo.reverse history.retained
    history.dropped
  pure { history with undo := kept.reverse, retained, dropped }

/-- What `record` trims, once the redo stack is cleared and `kept` bytes are left. -/
def pushed (history : History) (kept : Nat) (undo redo : Transaction)
    (stateBefore stateAfter resumeAt : Nat) (base : Str) : History :=
  let retained := undo.retainedBytes + redo.retainedBytes
  match history.joined undo redo with
  | some last =>
    let last := { last with
      undo := { last.undo with selectionBefore := undo.selectionBefore }
      redo := { last.redo with selectionAfter := redo.selectionAfter }
      stateAfter, resumeAt, retained := last.retained + retained }
    { history with undo := last :: history.undo.tail, redo := [], retained := kept + retained }
  | none =>
    let entry := { undo, redo, stateBefore, stateAfter, retained, resumeAt, base }
    { history with undo := entry :: history.undo, redo := [], retained := kept + retained, sealed := false }

/-- `record` with its subtractions checked. -/
def recordChecked (history : History) (undo redo : Transaction)
    (stateBefore stateAfter resumeAt : Nat) (base : Str) : Option History := do
  let kept ← checkedSub history.retained (retainedSum history.redo)
  (history.pushed kept undo redo stateBefore stateAfter resumeAt base).trimChecked

def perform (history : History) : HistoryOp → History
  | .record undo redo stateBefore stateAfter resumeAt base =>
    history.record undo redo stateBefore stateAfter resumeAt base
  | .sealRun => history.sealRun
  | .popUndo => (history.popUndo.map (·.2)).getD history
  | .popRedo => (history.popRedo.map (·.2)).getD history

/-- A call with every subtraction checked; only `record` subtracts. -/
def performChecked (history : History) : HistoryOp → Option History
  | .record undo redo stateBefore stateAfter resumeAt base =>
    history.recordChecked undo redo stateBefore stateAfter resumeAt base
  | op => some (history.perform op)

def performAll (history : History) (ops : List HistoryOp) : History := ops.foldl perform history

/-- The counter is right, and both stacks together keep the budgets; one entry may be over its
own. -/
structure Accounted (history : History) : Prop where
  retained : history.retained = retainedSum history.undo + retainedSum history.redo
  count : history.undo.length + history.redo.length ≤ maxHistoryEntries
  budget : history.retained ≤ maxHistoryBytes ∨ history.undo.length + history.redo.length = 1

/-- The edit recorded last is the top entry, or the end of the run of typing that it continues. -/
structure Newest (before after : History) (undo redo : Transaction)
    (stateBefore stateAfter resumeAt : Nat) : Prop where
  shown : ∃ top rest, after.undo = top :: rest ∧ top.stateAfter = stateAfter ∧
    top.resumeAt = resumeAt ∧ top.undo.selectionBefore = undo.selectionBefore ∧
      top.redo.selectionAfter = redo.selectionAfter ∧
    (top.undo = undo ∧ top.redo = redo ∧ top.stateBefore = stateBefore ∨
      ∃ last older addition previous, before.undo = last :: older ∧ redo.edits = [addition] ∧
        addition.range.start = last.resumeAt ∧ addition.range.stop = last.resumeAt ∧
        last.redo.edits = [previous] ∧ top.stateBefore = last.stateBefore ∧
        top.redo.edits = [{ previous with insert := previous.insert ++ addition.insert }])

theorem record_eq (history : History) (undo redo : Transaction)
    (stateBefore stateAfter resumeAt : Nat) (base : Str) :
    history.record undo redo stateBefore stateAfter resumeAt base =
      (history.pushed (history.retained - retainedSum history.redo)
      undo redo stateBefore stateAfter resumeAt
        base).trim := by
  unfold record pushed
  cases history.joined undo redo with
  | some | none => rfl

/-- The loop of `trim`: every entry it drops is counted off, the newest entry stays, and it ends
within the budgets. -/
theorem trimOldest_spec {entries : List Entry} {retained : Nat}
    (sum : retained = retainedSum entries) (some_ : entries ≠ []) (dropped : Nat) :
    trimOldestChecked entries retained dropped = some (trimOldest entries retained dropped) ∧
      (trimOldest entries retained dropped).2.1 =
        retainedSum (trimOldest entries retained dropped).1 ∧
      (trimOldest entries retained dropped).1.length ≤ maxHistoryEntries ∧
      ((trimOldest entries retained dropped).2.1 ≤ maxHistoryBytes ∨
        (trimOldest entries retained dropped).1.length = 1) ∧
      (trimOldest entries retained dropped).1.getLast? = entries.getLast? := by
  induction entries generalizing retained dropped with
  | nil => exact absurd rfl some_
  | cons oldest rest ih =>
    rw [retainedSum_cons] at sum
    unfold trimOldest trimOldestChecked
    split
    · rename_i beyond
      have fits : oldest.retained ≤ retained := by omega
      have more : rest ≠ [] := by
        intro empty
        rw [empty] at beyond
        simp [maxHistoryEntries] at beyond
      have left : retained - oldest.retained = retainedSum rest := by omega
      obtain ⟨checked, counted, few, budget, newest⟩ := ih left more (dropped + 1)
      refine ⟨?_, counted, few, budget, ?_⟩
      · rw [checkedSub_of_le fits]
        exact checked
      · rw [newest, getLast?_cons_of_ne_nil more]
    · rename_i within
      rw [not_or, not_and] at within
      refine ⟨rfl, sum.trans (retainedSum_cons _ _).symm, Nat.le_of_not_lt within.1, ?_, rfl⟩
      rcases Nat.lt_or_ge maxHistoryBytes retained with beyond | under
      · have only := within.2 beyond
        right
        rw [length_cons]
        omega
      · exact .inl under

/-- Trimming what counts right leaves it counting right, and within the budgets. -/
theorem trim_accounted {history : History} {top : Entry} {rest : List Entry}
    (stack : history.undo = top :: rest) (cleared : history.redo = [])
    (sum : history.retained = retainedSum history.undo) :
    history.trimChecked = some history.trim ∧ history.trim.Accounted ∧
      ∃ older, history.trim.undo = top :: older := by
  have some_ : history.undo.reverse ≠ [] := by
    rw [stack]
    simp
  obtain ⟨checked, counted, few, budget, newest⟩ :=
    trimOldest_spec (sum.trans (retainedSum_reverse _).symm) some_ history.dropped
  refine ⟨?_, ⟨?_, ?_, ?_⟩, ?_⟩
  · unfold trimChecked
    rw [checked]
    rfl
  · simp only [trim, cleared, retainedSum_nil, retainedSum_reverse, Nat.add_zero]
    exact counted
  · simp only [trim, cleared, length_nil, length_reverse, Nat.add_zero]
    exact few
  · simp only [trim, cleared, length_nil, length_reverse, Nat.add_zero]
    exact budget
  · rw [stack, getLast?_reverse, head?_cons] at newest
    have head : history.trim.undo.head? = some top := by
      simp only [trim, stack, head?_reverse]
      exact newest
    obtain ⟨older, shape⟩ := head?_eq_some_iff.mp head
    exact ⟨older, shape⟩

section Record

variable {history : History} {undo redo : Transaction} {stateBefore stateAfter resumeAt : Nat}
  {base : Str}

theorem coalesce_retained {last merged : Entry} (found : coalesce last undo redo = some merged) :
    merged.retained = last.retained := by
  unfold coalesce at found
  split at found
  · cases found
  split at found
  · cases found
  split at found
  · cases found
  split at found
  · rw [← Option.some.inj found]
  · cases found

theorem joined_eq_some {merged : Entry} (found : history.joined undo redo = some merged) :
    ∃ last older, history.undo = last :: older ∧ coalesce last undo redo = some merged := by
  unfold joined at found
  split at found
  · cases found
  split at found
  · cases found
  · rename_i last older stack
    exact ⟨last, older, stack, found⟩

/-- Pushing and growing count what they add, and put the newest edit on top. -/
theorem pushed_spec (kept : Nat) (sum : kept = retainedSum history.undo) :
    ∃ top rest, (history.pushed kept undo redo stateBefore stateAfter resumeAt base).undo = top ::
      rest ∧ (history.pushed kept undo redo stateBefore stateAfter resumeAt base).redo = [] ∧
      (history.pushed kept undo redo stateBefore stateAfter resumeAt base).retained =
        retainedSum (history.pushed kept undo redo stateBefore stateAfter resumeAt base).undo ∧
      ∀ after : History, (∃ older, after.undo = top :: older) →
        Newest history after undo redo stateBefore stateAfter resumeAt := by
  cases found : history.joined undo redo with
  | some merged =>
    obtain ⟨last, older, stack, merge⟩ := joined_eq_some found
    have grown := coalesce_retained merge
    obtain ⟨addition, _, previous, single, start, stop, _, run, _, text, state, _⟩ :=
      coalesce_eq_some merge
    rw [stack, retainedSum_cons] at sum
    simp only [pushed, found, stack, tail_cons, true_and]
    refine ⟨_, older, rfl, ?_, ?_⟩
    · simp only [retainedSum_cons]
      omega
    · rintro after ⟨rest, top⟩
      exact ⟨_, rest, top, rfl, rfl, rfl, rfl, .inr ⟨last, older, addition, previous, stack, single,
        start, stop, run, state, text⟩⟩
  | none =>
    simp only [pushed, found, true_and]
    refine ⟨_, history.undo, rfl, ?_, ?_⟩
    · simp only [retainedSum_cons]
      omega
    · rintro after ⟨rest, top⟩
      exact ⟨_, rest, top, rfl, rfl, rfl, rfl, .inl ⟨rfl, rfl, rfl⟩⟩

/-- Recording keeps the count, underflows nowhere and leaves the newest edit on top. -/
theorem record_accounted (accounted : history.Accounted) (undo redo : Transaction)
    (stateBefore stateAfter resumeAt : Nat) (base : Str) :
    history.recordChecked undo redo stateBefore stateAfter resumeAt base =
        some (history.record undo redo stateBefore stateAfter resumeAt base) ∧
      (history.record undo redo stateBefore stateAfter resumeAt base).Accounted ∧
      Newest history (history.record undo redo stateBefore stateAfter resumeAt base) undo redo
        stateBefore stateAfter resumeAt := by
  have retained := accounted.retained
  have fits : retainedSum history.redo ≤ history.retained := by omega
  obtain ⟨top, rest, stack, cleared, sum, newest⟩ := @pushed_spec history undo redo stateBefore
    stateAfter resumeAt base (history.retained - retainedSum history.redo) (by omega)
  obtain ⟨checked, kept, shown⟩ := trim_accounted stack cleared sum
  rw [record_eq]
  refine ⟨?_, kept, newest _ shown⟩
  unfold recordChecked
  rw [checkedSub_of_le fits]
  exact checked

end Record

theorem default_accounted : default.Accounted := ⟨rfl, Nat.zero_le _, .inl (Nat.zero_le _)⟩

/-- One call keeps the count and underflows nowhere. -/
theorem perform_accounted {history : History} (accounted : history.Accounted) (op : HistoryOp) :
    history.performChecked op = some (history.perform op) ∧ (history.perform op).Accounted := by
  obtain ⟨retained, count, budget⟩ := accounted
  cases op with
  | record undo redo stateBefore stateAfter resumeAt base =>
    obtain ⟨checked, kept, _⟩ := record_accounted ⟨retained, count, budget⟩ undo redo stateBefore
      stateAfter resumeAt base
    exact ⟨checked, kept⟩
  | sealRun => exact ⟨rfl, retained, count, budget⟩
  | popUndo =>
    refine ⟨rfl, ?_⟩
    unfold perform popUndo
    cases stack : history.undo with
    | nil => exact ⟨retained, count, budget⟩
    | cons entry rest =>
      rw [stack, retainedSum_cons] at retained
      rw [stack, length_cons] at count budget
      refine ⟨?_, ?_, ?_⟩ <;> simp only [Option.map_some, Option.getD_some, retainedSum_cons,
        length_cons] <;> omega
  | popRedo =>
    refine ⟨rfl, ?_⟩
    unfold perform popRedo
    cases stack : history.redo with
    | nil => exact ⟨retained, count, budget⟩
    | cons entry rest =>
      rw [stack, retainedSum_cons] at retained
      rw [stack, length_cons] at count budget
      refine ⟨?_, ?_, ?_⟩ <;> simp only [Option.map_some, Option.getD_some, retainedSum_cons,
        length_cons] <;> omega

theorem performAll_accounted {history : History} (accounted : history.Accounted)
    (ops : List HistoryOp) : (history.performAll ops).Accounted := by
  induction ops generalizing history with
  | nil => exact accounted
  | cons op rest ih => exact ih (perform_accounted accounted op).2

/-- After any calls the counter is the sum over both stacks, no subtraction of the next call
underflows, and the budgets hold: over its bytes is only an entry that is alone, on the undo stack
when it has just been recorded. -/
theorem performAll_counts (ops : List HistoryOp) :
    let history := default.performAll ops
    history.retained = retainedSum history.undo + retainedSum history.redo ∧
      (∀ op, history.performChecked op = some (history.perform op)) ∧
      (∀ undo redo stateBefore stateAfter resumeAt base,
        let after := history.record undo redo stateBefore stateAfter resumeAt base
        Newest history after undo redo stateBefore stateAfter resumeAt ∧
          (after.retained ≤ maxHistoryBytes ∨ after.undo.length = 1)) ∧
      history.undo.length ≤ maxHistoryEntries ∧
      (history.retained ≤ maxHistoryBytes ∨ history.undo.length + history.redo.length = 1) := by
  intro history
  have accounted : history.Accounted := performAll_accounted default_accounted ops
  have count := accounted.count
  refine ⟨accounted.retained, fun op => (perform_accounted accounted op).1,
    ?_, by omega, accounted.budget⟩
  intro undo redo stateBefore stateAfter resumeAt base after
  obtain ⟨_, kept, newest⟩ := record_accounted accounted undo redo stateBefore stateAfter resumeAt
    base
  refine ⟨newest, ?_⟩
  have budget := kept.budget
  rwa [record_redo, length_nil, Nat.add_zero] at budget

/-- As many bytes as a document may have. -/
def fullText : Str := .ofChars (List.replicate maxDocumentBytes 'x')

/-- All of a full document replaced by as much. -/
def replacedWhole : Transaction :=
  ⟨[.replace (.new 0 maxDocumentBytes) fullText], .singleton _, .reload, .caret 0, none⟩

theorem fullText_len : fullText.len = maxDocumentBytes := by
  have one : String.utf8EncodeChar 'x' = [120] := by decide
  unfold fullText Str.ofChars Str.len
  simp [flatMap_replicate, one]

theorem replacedWhole_retainedBytes : replacedWhole.retainedBytes = 2 * maxDocumentBytes := by
  have range : (Range.new 0 maxDocumentBytes).len = maxDocumentBytes := by decide
  simp only [Transaction.retainedBytes, replacedWhole, Edit.replace, map_cons, map_nil, sum_cons,
    sum_nil, fullText_len, range]
  rfl

theorem recorded_undone (undo redo : Transaction) :
    (default.performAll [.record undo redo 0 1 0 .empty, .popUndo]).retained =
        undo.retainedBytes + redo.retainedBytes ∧
      (default.performAll [.record undo redo 0 1 0 .empty, .popUndo]).undo = [] := by
  have kept (entry : Entry) (retained : Nat) : trimOldest [entry] retained 0 =
      ([entry], retained, 0) := by
    simp [trimOldest, maxHistoryEntries]
  simp [performAll, perform, record, joined, default, trim, kept, popUndo]

/-- An entry over the budget that is undone leaves no undo entry and all its bytes. -/
theorem retains_undone : ¬ ∀ ops : List HistoryOp, (default.performAll ops).retained ≤
    maxHistoryBytes ∨ (default.performAll ops).undo.length = 1 := by
  intro always
  obtain ⟨retained, gone⟩ := recorded_undone replacedWhole replacedWhole
  have beyond : ¬ (2 * maxDocumentBytes + 2 * maxDocumentBytes ≤ maxHistoryBytes) := by decide
  rcases always [.record replacedWhole replacedWhole 0 1 0 .empty, .popUndo] with budget | one
  · rw [retained, replacedWhole_retainedBytes] at budget
    exact beyond budget
  · rw [gone] at one
    cases one

end History

end ForgeNode.Editor
