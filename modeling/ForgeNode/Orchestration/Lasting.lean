import ForgeNode.Orchestration.Rails

/-! Facts about the daemon that outlast its sections: a section rewrites rows without a change of
what they belong to, and stores rows that it read. Only the sections that add rows, or drop a
project, say something new. -/

namespace ForgeNode.Orchestration

open List Store
open Section (Meets Preserves)

variable {request : DecideTask} {run : RunId} {session : SessionId} {task : TaskId}
  {tasks : List Task} {workspace : WorkspaceId}

section Rewriting

/-- The run stays where it belongs. -/
structure Run.Like (old run : Run) : Prop where
  id : run.id = old.id
  project : run.projectId = old.projectId
  parent : run.parentAttemptId = old.parentAttemptId

structure Task.Like (old task : Task) : Prop where
  id : task.id = old.id
  run : task.runId = old.runId
  created : task.createdAt = old.createdAt
  after : task.after = old.after

theorem Task.Like.back {old first second : Task} (like : old.Like first) (other : old.Like second) :
    first.Like second :=
  ⟨other.id.trans like.id.symm, other.run.trans like.run.symm, other.created.trans like.created.symm,
    other.after.trans like.after.symm⟩

/-- The attempt stays where it belongs, and gains no session. -/
structure Attempt.Like (old attempt : Attempt) : Prop where
  id : attempt.id = old.id
  task : attempt.taskId = old.taskId
  n : attempt.n = old.n
  created : attempt.createdAt = old.createdAt
  session : attempt.sessionId = old.sessionId ∨ attempt.sessionId = none

/-- What the ledger's rows belong to is as it was. -/
structure Kept (before after : Ledger) : Prop where
  runs : Store.Rewritten Run.Like before.runs after.runs
  tasks : Store.Rewritten Task.Like before.tasks after.tasks
  attempts : Store.Rewritten Attempt.Like before.attempts after.attempts

variable {ledger after : Ledger} {now : Timestamp}

theorem Attempt.Like.of_eq {old attempt : Attempt} (id : attempt.id = old.id)
    (task : attempt.taskId = old.taskId) (n : attempt.n = old.n)
    (created : attempt.createdAt = old.createdAt) (session : attempt.sessionId = old.sessionId) :
    old.Like attempt :=
  ⟨id, task, n, created, .inl session⟩

theorem Task.Like.loseAttempt (maxAttempts : Nat) (task : Task) :
    task.Like (task.loseAttempt maxAttempts now) := by
  unfold Task.loseAttempt
  split <;> exact ⟨rfl, rfl, rfl, rfl⟩

theorem Attempt.Like.forgetSession (session : SessionId) (attempt : Attempt) :
    attempt.Like (attempt.forgetSession session now) := by
  unfold Attempt.forgetSession
  split
  · split <;> exact ⟨rfl, rfl, rfl, rfl, .inr rfl⟩
  · exact .of_eq rfl rfl rfl rfl rfl

theorem Attempt.Like.forgetWorkspace (workspace : WorkspaceId) (attempt : Attempt) :
    attempt.Like (attempt.forgetWorkspace workspace) := by
  unfold Attempt.forgetWorkspace
  split <;> exact .of_eq rfl rfl rfl rfl rfl

theorem Run.Like.forgetSession (session : SessionId) (run : Run) :
    run.Like (run.forgetSession session) := by
  unfold Run.forgetSession
  split <;> exact ⟨rfl, rfl, rfl⟩

theorem Run.Like.forgetWorkspace (workspace : WorkspaceId) (run : Run) :
    run.Like (run.forgetWorkspace workspace) := by
  unfold Run.forgetWorkspace
  split <;> exact ⟨rfl, rfl, rfl⟩

theorem Promotion.like {before after : Task} (promotion : Promotion tasks before after) :
    before.Like after := by
  rcases promotion with rfl | ⟨_, rfl⟩ <;> exact ⟨rfl, rfl, rfl, rfl⟩

namespace Kept

theorem sameRuns (runs : Store Run.id) : Store.Rewritten Run.Like runs runs :=
  .refl fun _ _ => ⟨rfl, rfl, rfl⟩

theorem sameTasks (tasks : Store Task.id) : Store.Rewritten Task.Like tasks tasks :=
  .refl fun _ _ => ⟨rfl, rfl, rfl, rfl⟩

theorem sameAttempts (attempts : Store Attempt.id) :
    Store.Rewritten Attempt.Like attempts attempts :=
  .refl fun _ _ => .of_eq rfl rfl rfl rfl rfl

theorem of_same (runs : after.runs = ledger.runs) (tasks : after.tasks = ledger.tasks)
    (attempts : after.attempts = ledger.attempts) : Kept ledger after := by
  constructor
  · rw [runs]
    exact sameRuns _
  · rw [tasks]
    exact sameTasks _
  · rw [attempts]
    exact sameAttempts _

theorem of_mem (runs : ∀ run, run ∈ after.runs ↔ run ∈ ledger.runs)
    (tasks : ∀ task, task ∈ after.tasks ↔ task ∈ ledger.tasks)
    (attempts : ∀ attempt, attempt ∈ after.attempts ↔ attempt ∈ ledger.attempts) :
    Kept ledger after :=
  ⟨⟨fun run there => ⟨run, (runs run).mp there, rfl, rfl, rfl, rfl⟩,
      fun run there => ⟨run, (runs run).mpr there, rfl, rfl, rfl, rfl⟩⟩,
    ⟨fun task there => ⟨task, (tasks task).mp there, rfl, rfl, rfl, rfl, rfl⟩,
      fun task there => ⟨task, (tasks task).mpr there, rfl, rfl, rfl, rfl, rfl⟩⟩,
    ⟨fun attempt there => ⟨attempt, (attempts attempt).mp there, rfl, .of_eq rfl rfl rfl rfl rfl⟩,
      fun attempt there => ⟨attempt, (attempts attempt).mpr there, rfl, .of_eq rfl rfl rfl rfl rfl⟩⟩⟩

theorem of_setRun {id : RunId} {update : Run → Run} {keeps : ∀ run, (update run).id = run.id}
    (like : ∀ run, Run.Like run (update run)) : Kept ledger (ledger.setRun id update keeps) :=
  ⟨@Store.Rewritten.of_modify _ _ _ _ _ _ _ keeps _ (fun row _ _ => like row) fun _ _ _ =>
  ⟨rfl, rfl, rfl⟩,
    sameTasks _, sameAttempts _⟩

theorem of_setTask {id : TaskId} {update : Task → Task} {keeps : ∀ task, (update task).id = task.id}
    (like : ∀ task, Task.Like task (update task)) : Kept ledger (ledger.setTask id update keeps) :=
  ⟨sameRuns _, @Store.Rewritten.of_modify _ _ _ _ _ _ _ keeps _ (fun row _ _ => like row)
    fun _ _ _ => ⟨rfl, rfl, rfl, rfl⟩, sameAttempts _⟩

theorem of_setAttempt {id : AttemptId} {update : Attempt → Attempt}
    {keeps : ∀ attempt, (update attempt).id = attempt.id}
    (like : ∀ attempt, Attempt.Like attempt (update attempt)) :
    Kept ledger (ledger.setAttempt id update keeps) :=
  ⟨sameRuns _, sameTasks _, @Store.Rewritten.of_modify _ _ _ _ _ _ _ keeps _
    (fun row _ _ => like row) fun _ _ _ => .of_eq rfl rfl rfl rfl rfl⟩

theorem of_cancelAttempts : Kept ledger (ledger.cancelAttempts task now) := by
  refine ⟨sameRuns _, sameTasks _, @Store.Rewritten.of_map _ _ _ _ _ _ (fun row => by split <;> rfl)
    fun attempt _ => ?_⟩
  split <;> exact .of_eq rfl rfl rfl rfl rfl

theorem of_recordCommit {commit : Option String} :
    Kept ledger (ledger.recordCommit task commit) := by
  unfold Ledger.recordCommit
  split
  · exact .of_same rfl rfl rfl
  · exact .of_setAttempt fun _ => .of_eq rfl rfl rfl rfl rfl

theorem of_forgetSession : Kept ledger (ledger.forgetSession session now) := by
  refine ⟨@Store.Rewritten.of_map _ _ _ _ _ _ (fun run => (Run.Like.forgetSession session run).id)
      fun run _ => .forgetSession session run,
    @Store.Rewritten.of_map _ _ _ _ _ _
    (fun row => by unfold Task.loseAttempt; split <;> [split; skip] <;> rfl) ?_,
    @Store.Rewritten.of_map _ _ _ _ _ _ (fun attempt =>
    (Attempt.Like.forgetSession session attempt).id)
      fun attempt _ => .forgetSession session attempt⟩
  intro task _
  split
  · exact .loseAttempt _ task
  · exact ⟨rfl, rfl, rfl, rfl⟩

theorem of_forgetWorkspace : Kept ledger (ledger.forgetWorkspace workspace) :=
  ⟨@Store.Rewritten.of_map _ _ _ _ _ _ (fun run => (Run.Like.forgetWorkspace workspace run).id)
      fun run _ => .forgetWorkspace workspace run, sameTasks _,
    @Store.Rewritten.of_map _ _ _ _ _ _ (fun attempt =>
    (Attempt.Like.forgetWorkspace workspace attempt).id)
      fun attempt _ => .forgetWorkspace workspace attempt⟩

theorem put (kept : Kept ledger after) {old task : Task} (there : old ∈ ledger.tasks)
    (like : old.Like task) : Kept ledger { after with tasks := after.tasks.put task } :=
  ⟨kept.runs, kept.tasks.put there like.id.symm like, kept.attempts⟩

end Kept

end Rewriting

/-- A fact about the daemon, with what it says of the single rows. -/
structure Fact where
  holds : Inner → Prop
  run : Run → Prop
  task : Task → Prop
  attempt : Attempt → Prop

/-- The fact outlasts a change of rows that stay where they belong, in memory and stored, and a
statement on tables that it says nothing of. -/
structure Fact.Lasts (fact : Fact) : Prop where
  runs : ∀ {inner}, fact.holds inner → ∀ run ∈ inner.ledger.runs, fact.run run
  tasks : ∀ {inner}, fact.holds inner → ∀ task ∈ inner.ledger.tasks, fact.task task
  attempts : ∀ {inner}, fact.holds inner → ∀ attempt ∈ inner.ledger.attempts, fact.attempt attempt
  likeRun : ∀ {old run : Run}, fact.run old → old.Like run → fact.run run
  likeTask : ∀ {old task : Task}, fact.task old → old.Like task → fact.task task
  likeAttempt : ∀ {old attempt : Attempt}, fact.attempt old → old.Like attempt → fact.attempt attempt
  rewrites : ∀ {inner ledger}, Kept inner.ledger ledger → fact.holds inner →
    fact.holds { inner with ledger }
  storesRun : ∀ {run}, fact.run run → Preserves fact.holds (persist (updateRun run))
  storesTask : ∀ {task}, fact.task task → Preserves fact.holds (persistTask task)
  storesAttempt : ∀ {attempt}, fact.attempt attempt → Preserves fact.holds (persistAttempt attempt)
  elsewhere : ∀ {statement}, Keeps (fun tables => (tables.runs, tables.tasks, tables.taskDeps,
    tables.attempts, tables.sessions, tables.runState)) statement →
    Preserves fact.holds (persist statement)
  beside : ∀ {inner after : Inner}, after.ledger = inner.ledger → after.db = inner.db →
    after.sessions = inner.sessions → fact.holds inner → fact.holds after

/-- The fact says nothing of the sessions. -/
structure Fact.Apart (fact : Fact) : Prop extends fact.Lasts where
  unsaid : ∀ {statement}, Keeps (fun tables => (tables.runs, tables.tasks, tables.taskDeps,
    tables.attempts, tables.runState)) statement → Preserves fact.holds (persist statement)
  apart : ∀ {inner after : Inner}, after.ledger = inner.ledger → after.db = inner.db →
    fact.holds inner → fact.holds after
  dropsSession : ∀ {session}, Preserves fact.holds (persist (execute (deleteSessionRow session)))
  dropsWorkspace : ∀ {workspace}, Preserves fact.holds
    (persist (execute (deleteWorkspaceRow workspace)))

variable {fact : Fact} {platform : Platform} {limits : OrchestrationLimits} {now : Timestamp}
  {fresh : Nat}

theorem persist_ledger {statement : Statement} {inner : Inner} :
    (persist statement).Meets inner fun _ after => after.ledger = inner.ledger :=
  Handler.persist_meets (show statement.Meets inner.db fun _ _ => True from trivial) (fun _ _ _ =>
  rfl)
    fun _ _ => rfl

theorem Preserves.finish {holds : Inner → Prop} {program : Handler PUnit} {calls : List Call}
    (keeps : Preserves holds program) :
    Preserves holds (program >>= fun _ => (pure calls : Handler (List Call))) :=
  .bind keeps fun _ => .pure

section Rules

variable (lasts : fact.Lasts)

include lasts

theorem onLedger_lasts {update : Ledger → Ledger} (kept : ∀ ledger, Kept ledger (update ledger)) :
    Preserves fact.holds (onLedger update) :=
  .change fun _ holds => lasts.rewrites (kept _) holds

theorem setTask_lasts {id : TaskId} {update : Task → Task}
    {keeps : ∀ task, (update task).id = task.id} (like : ∀ task, Task.Like task (update task)) :
    Preserves fact.holds (onLedger (Ledger.setTask id update keeps)) :=
  onLedger_lasts lasts fun _ => .of_setTask like

theorem setAttempt_lasts {id : AttemptId} {update : Attempt → Attempt}
    {keeps : ∀ attempt, (update attempt).id = attempt.id}
    (like : ∀ attempt, Attempt.Like attempt (update attempt)) :
    Preserves fact.holds (onLedger (Ledger.setAttempt id update keeps)) :=
  onLedger_lasts lasts fun _ => .of_setAttempt like

theorem taskFound_lasts {inner : Inner} {id : TaskId} {task : Task} (holds : fact.holds inner)
    (found : inner.ledger.tasks.get? id = some task) : fact.task task :=
  lasts.tasks holds task (mem_of_get? found)

end Rules

section Runs

variable (lasts : fact.Lasts)

include lasts

theorem changeRun_lasts {look : Inner → Except ProtocolError Run} {id : RunId} {update : Run → Run}
    {keeps : ∀ run, (update run).id = run.id} (like : ∀ run, Run.Like run (update run))
    (found : ∀ {inner run}, look inner = .ok run → inner.ledger.runs.get? id = some run) :
    Preserves fact.holds (do
      let run ← Section.check look
      onLedger (Ledger.setRun id update keeps)
      persist (updateRun (update run))) :=
  .check_bind fun _ run holds passed =>
    .bind (onLedger_lasts lasts fun _ => .of_setRun like) fun _ => lasts.storesRun
      (lasts.likeRun (lasts.runs holds run (mem_of_get? (found passed))) (like run))

theorem updateBrief_lasts {caller : Option SessionId} {brief : String} {expected : Nat} :
    Preserves fact.holds (updateBrief caller run brief expected now) := by
  refine changeRun_lasts lasts (fun _ => ⟨rfl, rfl, rfl⟩) fun passed => ?_
  simp only [updateBriefCheck, bind_eq_ok, found_eq_ok, pure_eq_ok] at passed
  obtain ⟨_, found, _, _, _, _, rfl⟩ := passed
  exact found

theorem closeRun_lasts {request : CloseRun} : Preserves fact.holds (closeRun request now) :=
  changeRun_lasts lasts (fun _ => ⟨rfl, rfl, rfl⟩) found_eq_ok.mp

theorem resumeRun_lasts :
    Preserves fact.holds (resumeRun run session now) :=
  changeRun_lasts lasts (fun _ => ⟨rfl, rfl, rfl⟩) found_eq_ok.mp

theorem claimResume_lasts {caller : Option SessionId} :
    Preserves fact.holds (claimResume caller run) :=
  .bind .check fun _ => .bind (onLedger_lasts lasts fun _ => .of_same rfl rfl rfl) fun _ => .pure

theorem reportAttempt_lasts {reporting : Reporting} {facts : ReportFacts} :
    Preserves fact.holds (reportAttempt reporting facts limits now) := by
  refine .bind .check fun _ => .check_bind fun _ attempt holds passed => ?_
  have said := lasts.attempts holds attempt (mem_of_get? (settleCheck_ok passed).1)
  refine .bind (setAttempt_lasts lasts fun _ => .of_eq rfl rfl rfl rfl rfl) fun _ =>
    .check_bind fun _ task holds passed => ?_
  have known := taskFound_lasts lasts holds (found_eq_ok.mp passed)
  exact .bind (setTask_lasts lasts fun _ => ⟨rfl, rfl, rfl, rfl⟩) fun _ =>
    .bind (lasts.storesAttempt (lasts.likeAttempt said (.of_eq rfl rfl rfl rfl rfl))) fun _ =>
      lasts.storesTask (lasts.likeTask known ⟨rfl, rfl, rfl, rfl⟩)

end Runs

section Decisions

variable (lasts : fact.Lasts)

include lasts

/-- The write loop of a promotion, over tasks like the ledger's own. -/
theorem persistPromoted_lasts {inner : Inner}
    (promoted : ∀ task ∈ tasks, ∃ old ∈ inner.ledger.tasks, Task.Like old task)
    (holds : fact.holds inner) : (persistPromoted tasks).Meets inner fun _ after =>
    fact.holds after := by
  refine (Meets.each_keeps (fun after => fact.holds after ∧ Kept inner.ledger after.ledger)
    ⟨holds, .of_same rfl rfl rfl⟩ ?_).mono fun _ _ kept => kept.1
  rintro task member before ⟨held, kept⟩
  obtain ⟨old, there, like⟩ := promoted task member
  have said := lasts.likeTask (lasts.tasks holds old there) like
  refine ((lasts.storesTask said before held).both persist_ledger).bind (fun _ _ both => ?_)
    fun _ middle both => ?_
  · exact ⟨both.1, both.2 ▸ kept⟩
  · rw [← both.2] at kept
    obtain ⟨later, there', named, like'⟩ := kept.tasks.forth old there
    have put : Kept middle.ledger { middle.ledger with tasks := middle.ledger.tasks.put task } :=
      Kept.put (.of_same rfl rfl rfl) there' (like'.back like)
    exact Handler.onLedger_last ⟨lasts.rewrites put both.1, kept.put there like⟩

theorem acceptTask_lasts : Preserves fact.holds (acceptTask request now) := by
  refine .bind .check fun task => .bind (setTask_lasts lasts fun _ => ⟨rfl, rfl, rfl, rfl⟩) fun _ =>
    ?_
  intro inner holds
  refine Handler.read_bind (persistPromoted_lasts lasts (fun task member => ?_) holds)
  obtain ⟨old, there, promoted⟩ := promoteReady_rewritten inner.ledger _ task member
  exact ⟨old, there, promoted.like⟩

theorem rejectTask_lasts {feedback : String} :
    Preserves fact.holds (rejectTask request feedback now) := by
  refine .check_bind fun _ task holds passed => ?_
  simp only [rejectCheck, bind_eq_ok, pure_eq_ok] at passed
  obtain ⟨_, decided, _, _, rfl⟩ := passed
  have known := taskFound_lasts lasts holds (checkDecision_ok decided).1
  refine .bind (setTask_lasts lasts fun _ => ⟨rfl, rfl, rfl, rfl⟩) fun _ =>
    .check_bind fun _ newest holds found => ?_
  cases newest with
  | none => exact .bind (lasts.storesTask (lasts.likeTask known ⟨rfl, rfl, rfl, rfl⟩)) fun _ => .pure
  | some attempt =>
    have said := lasts.attempts holds attempt (Ledger.newest_eq_some (Except.ok.inj found)).1
    exact .bind (setAttempt_lasts lasts fun _ => .of_eq rfl rfl rfl rfl rfl) fun _ =>
      .bind (lasts.storesTask (lasts.likeTask known ⟨rfl, rfl, rfl, rfl⟩)) fun _ =>
        .bind (lasts.storesAttempt (lasts.likeAttempt said (.of_eq rfl rfl rfl rfl rfl))) fun _ =>
        .pure

theorem retryTask_lasts {feedback : String} :
    Preserves fact.holds (retryTask request feedback limits now) := by
  refine .check_bind fun _ task holds passed => ?_
  have known := taskFound_lasts lasts holds (checkDecision_ok passed).1
  split
  · exact .bind (setTask_lasts lasts fun _ => ⟨rfl, rfl, rfl, rfl⟩) fun _ =>
      .bind (lasts.storesTask (lasts.likeTask known ⟨rfl, rfl, rfl, rfl⟩)) fun _ => .check
  · refine .bind (setTask_lasts lasts fun _ => ⟨rfl, rfl, rfl, rfl⟩) fun _ =>
      .check_bind fun _ newest holds found => ?_
    cases newest with
    | none => exact .bind (lasts.storesTask (lasts.likeTask known ⟨rfl, rfl, rfl, rfl⟩)) fun _ => .check
    | some attempt =>
      have said := lasts.attempts holds attempt (Ledger.newest_eq_some (Except.ok.inj found)).1
      exact .bind (setAttempt_lasts lasts fun _ => .of_eq rfl rfl rfl rfl rfl) fun _ =>
        .bind (lasts.storesTask (lasts.likeTask known ⟨rfl, rfl, rfl, rfl⟩)) fun _ =>
          .bind (lasts.storesAttempt (lasts.likeAttempt said (.of_eq rfl rfl rfl rfl rfl))) fun _ =>
          .check

theorem cancelTask_lasts : Preserves fact.holds (cancelTask request now) := by
  refine .check_bind fun _ task holds passed => .check_bind fun inner live holds' found => ?_
  have known := taskFound_lasts lasts holds (checkDecision_ok passed).1
  refine .bind (setTask_lasts lasts fun _ => ⟨rfl, rfl, rfl, rfl⟩) fun _ =>
    .bind (onLedger_lasts lasts fun _ => .of_cancelAttempts) fun _ =>
      .bind (lasts.storesTask (lasts.likeTask known ⟨rfl, rfl, rfl, rfl⟩)) fun _ =>
      .each fun attempt member => ?_
  obtain ⟨old, there, rfl⟩ := List.mem_map.mp member
  rw [← Except.ok.inj found] at there
  have held := (Ledger.mem_attemptsOf.mp (mem_filter.mp there).1).1
  exact lasts.storesAttempt (lasts.likeAttempt (lasts.attempts holds' old held)
    (.of_eq rfl rfl rfl rfl rfl))

theorem decideTask_lasts :
    Preserves fact.holds (decideTask platform limits request now) := by
  unfold decideTask
  split
  · exact Preserves.finish (acceptTask_lasts lasts)
  · exact .bind (rejectTask_lasts lasts) fun _ => .pure
  · exact .bind (retryTask_lasts lasts) fun _ => .pure
  · exact Preserves.finish (cancelTask_lasts lasts)
  · exact .check

theorem markIntegrated_lasts {commit : Option String} :
    Preserves fact.holds (markIntegrated task commit now) := by
  refine .bind .check fun before => .bind (setTask_lasts lasts fun _ => ⟨rfl, rfl, rfl, rfl⟩) fun _ =>
    .bind (onLedger_lasts lasts fun _ => .of_recordCommit) fun _ => ?_
  intro inner holds
  refine Handler.read_bind (Handler.read_bind
    ((persistPromoted_lasts lasts (fun task member => ?_) holds).bind (fun _ _ kept => kept)
    fun _ after kept => ?_))
  · obtain ⟨old, there, promoted⟩ := promoteReady_rewritten inner.ledger _ task member
    exact ⟨old, there, promoted.like⟩
  · refine (Preserves.each fun attempt member => lasts.storesAttempt ?_) after kept
    exact lasts.attempts holds attempt (Ledger.mem_attemptsOf.mp member).1

theorem integrate_lasts {integrating : Integrating} {answer : Answer} :
    Preserves fact.holds (integrate integrating answer now) := by
  unfold integrate
  split
  · exact Preserves.finish (markIntegrated_lasts lasts)
  · exact Preserves.finish (onLedger_lasts lasts fun _ => .of_same rfl rfl rfl)
  · exact .pure
  · exact .bind .check fun _ => .pure
  · exact .check
  · exact .check
  · exact .pure

end Decisions

section Messages

variable (lasts : fact.Lasts)

include lasts

theorem resumeOne_lasts {attempt : Attempt} : Preserves fact.holds (resumeOne now attempt) := by
  refine .check_bind fun _ current holds found => ?_
  cases current with
  | none => exact .pure
  | some current =>
    have said := lasts.attempts holds current (mem_of_get? (Except.ok.inj found))
    refine .bind (setAttempt_lasts lasts fun _ => .of_eq rfl rfl rfl rfl rfl) fun _ =>
      .check_bind fun _ task holds found => ?_
    cases task with
    | none => exact .pure
    | some task =>
      have known := taskFound_lasts lasts holds (Except.ok.inj found)
      exact .bind (setTask_lasts lasts fun _ => ⟨rfl, rfl, rfl, rfl⟩) fun _ =>
        .bind (lasts.storesAttempt (lasts.likeAttempt said (.of_eq rfl rfl rfl rfl rfl))) fun _ =>
          lasts.storesTask (lasts.likeTask known ⟨rfl, rfl, rfl, rfl⟩)

theorem deliverMessage_lasts {request : PostMessage} {targets : List DeliveryTarget} :
    Preserves fact.holds (deliverMessage request targets fresh now) := by
  refine .bind .check fun _ => .bind .check fun _ => .bind .check fun _ => ?_
  refine .bind (.each fun _ _ => lasts.elsewhere (keeps_execute fun _ _ inserted => ?_)) fun _ =>
    .bind .check fun _ => .each fun _ _ => resumeOne_lasts lasts
  rw [← Except.ok.inj inserted]

/-- A write to the board, of a fact that says nothing of the stored one. -/
theorem setState_lasts {request : SetState}
    (board : ∀ {statement},
      Keeps (fun tables => (tables.runs, tables.tasks, tables.taskDeps, tables.attempts,
      tables.sessions)) statement → Preserves fact.holds (persist statement)) :
    Preserves fact.holds (setState platform request now) := by
  refine .bind .check fun current => ?_
  split
  · refine .bind (onLedger_lasts lasts fun _ => .of_same rfl rfl rfl) fun _ =>
      board (keeps_execute ?_)
    exact fun _ _ deleted => by rw [← Except.ok.inj deleted]
  · refine .bind (board (keeps_execute fun tables after written => ?_)) fun _ =>
      onLedger_lasts lasts fun _ => .of_same rfl rfl rfl
    simp only [upsertBoardRow, bind_eq_ok, pure_eq_ok] at written
    obtain ⟨_, _, rfl⟩ := written
    rfl

theorem noteSessionExit_lasts :
    Preserves fact.holds (noteSessionExit session limits now) := by
  refine .check_bind fun _ live holds found => ?_
  cases live with
  | none => exact .pure
  | some attempt =>
    have said := lasts.attempts holds attempt (mem_of_find?_eq_some (Except.ok.inj found))
    refine .bind (setAttempt_lasts lasts fun _ => .of_eq rfl rfl rfl rfl rfl) fun _ =>
      .bind (setTask_lasts lasts (.loseAttempt _)) fun _ => .check_bind fun _ task holds found => ?_
    refine .bind
      (.ignore (lasts.storesAttempt (lasts.likeAttempt said (.of_eq rfl rfl rfl rfl rfl)))) fun _ =>
      .each fun row listed => .ignore (lasts.storesTask ?_)
    rw [← Except.ok.inj found] at listed
    exact taskFound_lasts lasts holds (Option.mem_toList.mp listed)

theorem persistForgotten_lasts {runs : List Run} {attempts : List Attempt}
    (known : ∀ run ∈ runs, fact.run run) (known' : ∀ task ∈ tasks, fact.task task)
    (said : ∀ attempt ∈ attempts, fact.attempt attempt) :
    Preserves fact.holds (persistForgotten runs tasks attempts) :=
  .bind (.each fun run member => .ignore (lasts.storesRun (known run member))) fun _ =>
    .bind (.each fun task member => .ignore (lasts.storesTask (known' task member))) fun _ =>
      .each fun attempt member => .ignore (lasts.storesAttempt (said attempt member))

theorem addWorkspace_lasts {workspace : Workspace} :
    Preserves fact.holds (addWorkspace workspace) := by
  refine .bind (lasts.elsewhere (keeps_execute fun tables after inserted => ?_)) fun _ =>
    .change fun _ => lasts.beside rfl rfl rfl
  simp only [insertWorkspaceRow, bind_eq_ok, pure_eq_ok] at inserted
  obtain ⟨_, _, _, _, rfl⟩ := inserted
  rfl

theorem addProject_lasts {project : ProjectId} : Preserves fact.holds (addProject project) := by
  refine .bind (lasts.elsewhere (keeps_execute fun tables after inserted => ?_)) fun _ =>
    .change fun _ => lasts.beside rfl rfl rfl
  rw [← Except.ok.inj inserted]

end Messages

section Sections

variable (lasts : fact.Lasts) {inner : Inner}

include lasts

/-- The first section of a request, beside the task that it may add. -/
theorem runRequest_lasts {request : Request} (holds : fact.holds inner)
    (created : ∀ create, (request = .createTask create ∨ ∃ start, request = .runTask create start) →
      (createTask create limits fresh now).Meets inner fun _ after => fact.holds after)
    (posted : ∀ post, request = .setState post →
      (setState platform post now).Meets inner fun _ after =>
      fact.holds after) :
    (runRequest platform limits request now fresh).Meets inner fun _ after => fact.holds after := by
  have keeps {program : Handler (List Call)} (preserves : Preserves fact.holds program) :
      program.Meets inner fun _ after => fact.holds after := preserves inner holds
  cases request with
  | createRun request => exact keeps (.bind .check fun _ => .pure)
  | updateBrief caller run brief expected => exact keeps (Preserves.finish (updateBrief_lasts lasts))
  | closeRun request => exact keeps (.bind .check fun _ => .pure)
  | resumeRun caller run => exact keeps (.bind (claimResume_lasts lasts) fun _ => .pure)
  | createTask request =>
    exact (created request (.inl rfl)).bind (fun _ _ kept => kept) fun _ _ kept => Meets.pure kept
  | runTask request start =>
    exact (created request (.inr ⟨start, rfl⟩)).bind (fun _ _ kept => kept) fun _ _ kept =>
      Meets.pure kept
  | startAttempt | reportAttempt => exact keeps (.bind .check fun _ => .pure)
  | decideTask request => exact keeps (decideTask_lasts lasts)
  | integrateTask | postMessage => exact keeps (.bind .check fun _ => .pure)
  | setState request =>
    exact (posted request rfl).bind (fun _ _ kept => kept) fun _ _ kept => Meets.pure kept

/-- A later section, beside the run, the session or the attempt that it may add. -/
theorem runCall_lasts {call : Call} {answer : Answer} (holds : fact.holds inner)
    (opened : ∀ request, call = .createRun request → ∀ worktree spawned,
      Preserves fact.holds (createRun request worktree spawned fresh now))
    (spawns : ∀ workspace, Preserves fact.holds (spawnWorker workspace fresh))
    (started : ∀ spawned, call = .spawned spawned → answer = .proceed →
      (commitStart spawned limits fresh now).Meets inner fun _ after => fact.holds after) :
    (runCall platform limits call answer now fresh).Meets inner fun _ after =>
    fact.holds after := by
  have keeps {program : Handler (List Call)} (preserves : Preserves fact.holds program) :
      program.Meets inner fun _ after => fact.holds after := preserves inner holds
  have ledger {update : Ledger → Ledger} {calls : List Call} (kept : ∀ ledger,
      Kept ledger (update ledger)) : Preserves fact.holds (onLedger update >>= fun _ =>
      (pure calls : Handler (List Call))) :=
    Preserves.finish (onLedger_lasts lasts kept)
  unfold runCall
  split
  · exact keeps (Preserves.finish (opened _ rfl _ _))
  · exact keeps (.bind .check fun _ => .pure)
  · exact keeps (Preserves.finish (spawns _))
  · exact (started _ rfl rfl).bind (fun _ _ kept => kept) fun _ _ kept => Meets.pure kept
  · exact keeps (Preserves.finish (reportAttempt_lasts lasts))
  · exact keeps (.bind .check fun _ => .pure)
  · exact keeps (Preserves.finish (deliverMessage_lasts lasts))
  · exact keeps (.bind .check fun _ => .pure)
  · exact keeps (integrate_lasts lasts)
  · exact keeps (Preserves.finish (markIntegrated_lasts lasts))
  · exact keeps (ledger fun _ => .of_same rfl rfl rfl)
  · exact keeps (ledger fun _ => .of_same rfl rfl rfl)
  · exact keeps (.bind .check fun _ => Preserves.finish (closeRun_lasts lasts))
  · exact keeps (.bind .check fun _ => .pure)
  · exact keeps (.bind (.ignore (cancelTask_lasts lasts)) fun _ => .pure)
  · exact keeps (.bind (.ignore (resumeRun_lasts lasts)) fun _ => .pure)
  · exact keeps .pure
  · exact keeps .pure
  · exact keeps (ledger fun _ => .of_same rfl rfl rfl)
  · exact keeps (Preserves.finish (noteSessionExit_lasts lasts))
  · exact keeps .check
  · exact keeps .pure

end Sections

section Removals

variable (apart : fact.Apart)

include apart

theorem removeSessionCache_lasts :
    Preserves fact.holds (removeSessionCache session now) := by
  refine .check_bind fun inner before holds found => ?_
  obtain rfl := Except.ok.inj found
  refine .bind (onLedger_lasts apart.toLasts fun _ => .of_forgetSession) fun _ =>
    .bind (persistForgotten_lasts apart.toLasts (fun run member => ?_) (fun task member => ?_)
      fun attempt member => ?_) fun _ => .change fun _ => apart.apart rfl rfl
  · obtain ⟨old, there, rfl⟩ := List.mem_map.mp member
    exact apart.likeRun (apart.runs holds old (mem_filter.mp there).1) (.forgetSession _ old)
  · obtain ⟨old, there, rfl⟩ := List.mem_map.mp member
    exact apart.likeTask (apart.tasks holds old (mem_filter.mp there).1) (.loseAttempt _ old)
  · obtain ⟨old, there, rfl⟩ := List.mem_map.mp member
    exact apart.likeAttempt (apart.attempts holds old (mem_filter.mp there).1) (.forgetSession _ old)

theorem deleteSession_lasts : Preserves fact.holds (deleteSession session now) :=
  .bind apart.dropsSession fun _ => removeSessionCache_lasts apart

theorem dropWorkspace_lasts : Preserves fact.holds (dropWorkspace workspace now) := by
  refine .bind .check fun _ => .bind (.each fun _ _ => deleteSession_lasts apart) fun _ =>
    .bind apart.dropsWorkspace fun _ => .bind (.change fun _ => apart.apart rfl rfl) fun _ =>
      .check_bind fun inner before holds found => ?_
  obtain rfl := Except.ok.inj found
  refine .bind (onLedger_lasts apart.toLasts fun _ => .of_forgetWorkspace) fun _ =>
    persistForgotten_lasts apart.toLasts (fun run member => ?_) (fun _ never =>
    absurd never not_mem_nil)
      fun attempt member => ?_
  · obtain ⟨old, there, rfl⟩ := List.mem_map.mp member
    exact apart.likeRun (apart.runs holds old (mem_filter.mp there).1) (.forgetWorkspace _ old)
  · obtain ⟨old, there, rfl⟩ := List.mem_map.mp member
    exact apart.likeAttempt (apart.attempts holds old (mem_filter.mp there).1)
      (.forgetWorkspace _ old)

theorem addSession_lasts {session : Session} : Preserves fact.holds (addSession session) := by
  refine .bind (apart.unsaid (keeps_execute fun tables after inserted => ?_)) fun _ =>
    .change fun _ => apart.apart rfl rfl
  simp only [insertSessionRow, bind_eq_ok, pure_eq_ok] at inserted
  obtain ⟨_, _, _, _, rfl⟩ := inserted
  rfl

theorem spawnWorker_lasts : Preserves fact.holds (spawnWorker workspace fresh) :=
  .bind .check fun _ => addSession_lasts apart

theorem moveSession_lasts {state : SessionState} :
    Preserves fact.holds (moveSession session state) := by
  refine .bind .check fun _ => .bind .check fun _ => .bind (.change fun _ => apart.apart rfl rfl)
    fun _ =>
    .ignore (apart.unsaid (keeps_execute fun tables after moved => ?_))
  rw [← Except.ok.inj moved]

end Removals

section Step

variable {before : World} {event : Event}

/-- What a section leaves is what its event leaves. -/
theorem enter_meets {world : World} {others : List Call} {program : Handler (List Call)}
    {holds : Inner → Prop} (meets : program.Meets world.inner fun _ after => holds after) :
    holds (world.enter others program).inner := by
  unfold World.enter
  unfold Section.Meets at meets
  split
  · rename_i outcome
    rw [outcome] at meets
    exact meets
  · rename_i outcome
    rw [outcome] at meets
    exact meets

/-- Any event keeps a fact that says nothing of the sessions, beside the rows that it adds, the
board, the removal of a project and a restart. -/
theorem step_lasts (apart : fact.Apart) (allowed : before.Allows event)
    (met : fact.holds (before.meeting event).inner)
    (created : ∀ create, (event.cause = .request (.createTask create) ∨
      ∃ start, event.cause = .request (.runTask create start)) →
        (createTask create limits event.fresh event.now).Meets (before.meeting event).inner
        fun _ after =>
          fact.holds after)
    (posted : ∀ post, event.cause = .request (.setState post) →
      (setState platform post event.now).Meets (before.meeting event).inner fun _ after =>
      fact.holds after)
    (opened : ∀ request index answer, event.cause = .advance index answer →
      before.calls[index]? = some (.createRun request) → ∀ worktree spawned,
        Preserves fact.holds (createRun request worktree spawned event.fresh event.now))
    (started : ∀ spawned index answer, event.cause = .advance index answer →
      before.calls[index]? = some (.spawned spawned) →
        (commitStart spawned limits event.fresh event.now).Meets (before.meeting event).inner
        fun _ after =>
          fact.holds after)
    (removed : ∀ project, event.cause = .removeProject project →
      Preserves fact.holds (removeProject project event.now))
    (restarted : ∀ persistHistory, event.cause = .restart persistHistory →
      fact.holds (before.step platform limits event).inner) :
    fact.holds (before.step platform limits event).inner := by
  have keeps {others : List Call} {program : Handler (List Call)}
      (preserves : Preserves fact.holds program) : fact.holds ((before.meeting event).enter others
      program).inner := enter_meets (preserves _ met)
  cases cause : event.cause with
  | request request =>
    simp only [World.step, cause]
    exact enter_meets (runRequest_lasts apart.toLasts met (fun create creates =>
      created create (by simpa [cause])) fun post posts => posted post (by rw [cause, posts]))
  | advance index answer =>
    simp only [World.step, cause]
    split
    · exact met
    · rename_i call at_
      refine enter_meets (runCall_lasts apart.toLasts met ?_ (fun _ => spawnWorker_lasts apart) ?_)
      · rintro request rfl
        exact opened request index answer cause at_
      · rintro spawned rfl _
        exact started spawned index answer cause at_
  | addProject project =>
    simp only [World.step, cause]
    exact keeps (Preserves.finish (addProject_lasts apart.toLasts))
  | addWorkspace workspace =>
    simp only [World.step, cause]
    exact keeps (Preserves.finish (addWorkspace_lasts apart.toLasts))
  | addSession session =>
    simp only [World.step, cause]
    exact keeps (Preserves.finish (addSession_lasts apart))
  | moveSession session state =>
    simp only [World.step, cause]
    exact keeps (Preserves.finish (moveSession_lasts apart))
  | removeSession session =>
    simp only [World.step, cause]
    exact keeps (Preserves.finish (deleteSession_lasts apart))
  | removeWorkspace workspace =>
    simp only [World.step, cause]
    exact keeps (Preserves.finish (dropWorkspace_lasts apart))
  | removeProject project =>
    simp only [World.step, cause]
    exact keeps (Preserves.finish (removed project cause))
  | reorder runs tasks attempts board =>
    have permitted := allowed.2
    simp only [cause, World.permits, Bool.and_eq_true, decide_eq_true_eq] at permitted
    obtain ⟨⟨⟨⟨_, runs_⟩, tasks_⟩, attempts_⟩, _⟩ := permitted
    simp only [World.step, cause]
    have kept : Kept before.inner.ledger { before.inner.ledger with runs, tasks, attempts, board } :=
      .of_mem (fun _ => runs_.mem) (fun _ => tasks_.mem) fun _ => attempts_.mem
    exact apart.rewrites kept met
  | restart persistHistory => exact restarted persistHistory cause

end Step

end ForgeNode.Orchestration
