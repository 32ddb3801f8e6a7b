import ForgeNode.Orchestration.Startup

/-! What a restart makes of the stored rows. -/

namespace ForgeNode.Orchestration

open List

/-- A live attempt of the task. -/
def HasLive (attempts : List Attempt) (task : Task) : Prop :=
  ∃ attempt ∈ attempts, attempt.isLive = true ∧ attempt.taskId = task.id

/-- An attempt and what it is after the restart. -/
structure AttemptSettled (before after : Attempt) : Prop where
  lost : before.isLive = true → after.phase = .lost ∧ after.lostReason = some .daemonRestarted
  kept : before.isLive = false → after = before

/-- A run and what it is after the restart. -/
structure RunSettled (before after : Run) : Prop where
  interrupted : before.status = .active → after.status = .interrupted
  kept : before.status ≠ .active → after = before
  revised : before.revision < after.revision ↔ after ≠ before

/-- A task and what it is after the restart. -/
structure TaskSettled (limits : OrchestrationLimits) (attempts : List Attempt)
    (before after : Task) : Prop where
  settled : HasLive attempts before → before.status.inProgress = true →
    (after.status = .ready ∨ after.status = .failed) ∧
      (after.status = .failed ↔ before.attemptsUsed ≥ limits.maxAttemptsPerTask)
  kept : ¬(HasLive attempts before ∧ before.status.inProgress = true) → after = before
  revised : before.revision < after.revision ↔ after ≠ before

private theorem map_of_kept {α : Type} {f : α → α} {list : List α}
    (kept : ∀ item ∈ list, f item = item) : list.map f = list :=
  (map_congr_left kept).trans (map_id' list)

section Rows

variable {limits : OrchestrationLimits} {now : Timestamp}

theorem reconcileAttempt_settled (attempt : Attempt) :
    AttemptSettled attempt (reconcileAttempt now attempt) where
  lost live := by
    rw [reconcileAttempt, if_pos live]
    exact ⟨rfl, rfl⟩
  kept idle := by
    rw [reconcileAttempt, if_neg (Bool.eq_false_iff.mp idle)]

theorem reconcileAttempt_idle (attempt : Attempt) :
    (reconcileAttempt now attempt).isLive = false := by
  cases live : attempt.isLive with
  | false => rw [(reconcileAttempt_settled attempt).kept live, live]
  | true =>
    have settled : AttemptSettled attempt (reconcileAttempt now attempt) :=
      reconcileAttempt_settled attempt
    have lost := (settled.lost live).1
    rw [Attempt.isLive, lost]
    rfl

theorem reconcileRun_settled (run : Run) : RunSettled run (reconcileRun now run) := by
  by_cases active : run.status = .active
  · have next : reconcileRun now run = { run with
        status := .interrupted, updatedAt := now, revision := run.revision + 1 } := if_pos active
    have later : run.revision < (reconcileRun now run).revision := by
      rw [next]
      exact Nat.lt_succ_self _
    refine ⟨fun _ => by rw [next], fun other => absurd active other, fun _ same => ?_, fun _ => later⟩
    rw [same] at later
    exact Nat.lt_irrefl _ later
  · have same : reconcileRun now run = run := if_neg active
    refine ⟨fun other => absurd other active, fun _ => same, ?_⟩
    rw [same]
    exact ⟨fun less => absurd less (Nat.lt_irrefl _), fun other => absurd rfl other⟩

theorem reconcileRun_inactive (run : Run) : (reconcileRun now run).status ≠ .active := by
  by_cases active : run.status = .active
  · rw [(reconcileRun_settled run).interrupted active]
    exact RunStatus.noConfusion
  · rwa [(reconcileRun_settled run).kept active]

theorem lost_iff (attempts : List Attempt) (task : Task) :
    ((attempts.filter Attempt.isLive).map (·.taskId)).contains task.id = true ↔
    HasLive attempts task := by
  rw [contains_iff_mem, List.mem_map]
  constructor
  · rintro ⟨attempt, kept, same⟩
    obtain ⟨member, live⟩ := mem_filter.mp kept
    exact ⟨attempt, member, live, same⟩
  · rintro ⟨attempt, member, live, same⟩
    exact ⟨attempt, mem_filter.mpr ⟨member, live⟩, same⟩

theorem reconcileTask_settled (attempts : List Attempt) (task : Task) :
    TaskSettled limits attempts task
    (reconcileTask ((attempts.filter Attempt.isLive).map (·.taskId)) limits now task) := by
  have goes : ((((attempts.filter Attempt.isLive).map (·.taskId)).contains task.id &&
      task.status.inProgress) = true) ↔ HasLive attempts task ∧ task.status.inProgress = true := by
    rw [Bool.and_eq_true, lost_iff]
  by_cases lost : HasLive attempts task ∧ task.status.inProgress = true
  · have next : reconcileTask ((attempts.filter Attempt.isLive).map (·.taskId)) limits now task =
        { task with
        status := taskStatusAfterLoss task.attemptsUsed limits.maxAttemptsPerTask
        updatedAt := now, revision := task.revision + 1 } := if_pos (goes.mpr lost)
    rw [next]
    refine ⟨fun _ _ => ?_, fun other => absurd lost other, fun _ same => ?_, fun _ =>
      Nat.lt_succ_self _⟩
    · simp only [taskStatusAfterLoss]
      by_cases used : task.attemptsUsed ≥ limits.maxAttemptsPerTask
      · rw [if_pos used]
        exact ⟨.inr rfl, fun _ => used, fun _ => rfl⟩
      · rw [if_neg used]
        exact ⟨.inl rfl, fun never => TaskStatus.noConfusion never, fun more => absurd more used⟩
    · have revision := congrArg Task.revision same
      exact absurd revision (Nat.succ_ne_self _)
  · have same : reconcileTask ((attempts.filter Attempt.isLive).map (·.taskId)) limits now task =
        task :=
      if_neg (mt goes.mp lost)
    rw [same]
    exact ⟨fun live progress => absurd ⟨live, progress⟩ lost, fun _ => rfl,
      fun less => absurd less (Nat.lt_irrefl _), fun other => absurd rfl other⟩

end Rows

/-- A restart settles what was going on, row by row, and a second one finds nothing to settle. -/
theorem reconcileRestart_settles (runs : List Run) (tasks : List Task) (attempts : List Attempt)
    (limits : OrchestrationLimits) (now : Timestamp) :
    let after := reconcileRestart runs tasks attempts limits now
    (∀ attempt ∈ after.attempts, attempt.isLive = false) ∧
    (∀ run ∈ after.runs, run.status ≠ .active) ∧
    List.Forall₂ RunSettled runs after.runs ∧
    List.Forall₂ (TaskSettled limits attempts) tasks after.tasks ∧
    List.Forall₂ AttemptSettled attempts after.attempts ∧
    ∀ limits later, reconcileRestart after.runs after.tasks after.attempts limits later = after := by
  intro after
  have idle : ∀ attempt ∈ after.attempts, attempt.isLive = false := by
    intro attempt member
    obtain ⟨before, _, rfl⟩ := List.mem_map.mp member
    exact reconcileAttempt_idle before
  have inactive : ∀ run ∈ after.runs, run.status ≠ .active := by
    intro run member
    obtain ⟨before, _, rfl⟩ := List.mem_map.mp member
    exact reconcileRun_inactive before
  refine ⟨idle, inactive, ?_, ?_, ?_, ?_⟩
  · exact forall₂_map_right_iff.mpr (forall₂_same.mpr fun run _ => reconcileRun_settled run)
  · exact forall₂_map_right_iff.mpr (forall₂_same.mpr fun task _ =>
      reconcileTask_settled attempts task)
  · exact forall₂_map_right_iff.mpr (forall₂_same.mpr fun attempt _ =>
      reconcileAttempt_settled attempt)
  · intro limits later
    have none_ (task : Task) : ¬HasLive after.attempts task := by
      rintro ⟨attempt, member, live, _⟩
      rw [idle attempt member] at live
      cases live
    have runs : after.runs.map (reconcileRun later) = after.runs :=
      map_of_kept fun run member => (reconcileRun_settled run).kept (inactive run member)
    have tasks : after.tasks.map (reconcileTask ((after.attempts.filter Attempt.isLive).map
        (·.taskId)) limits later) = after.tasks :=
      map_of_kept fun task _ => (reconcileTask_settled after.attempts task).kept fun both =>
      none_ task both.1
    have attempts : after.attempts.map (reconcileAttempt later) = after.attempts :=
      map_of_kept fun attempt member => (reconcileAttempt_settled attempt).kept (idle attempt member)
    simp only [reconcileRestart, runs, tasks, attempts]

end ForgeNode.Orchestration
