import ForgeNode.Orchestration.Policy
import ForgeNode.Orchestration.Tables

/-! The ledger in memory, what the daemon holds beside it, and the changes of single rows. -/

namespace ForgeNode.Orchestration

variable {attempt : Attempt} {now : Timestamp} {session : SessionId} {task : TaskId}

/-- The ledger in memory; its event queues are not state that a decision reads. -/
structure Ledger where
  runs : Store Run.id
  tasks : Store Task.id
  attempts : Store Attempt.id
  board : Store BoardEntry.place
  conflict : List RunId
  maxAttemptsPerTask : Nat
  resuming : List RunId
  deriving DecidableEq

/-- What the core lock guards. -/
structure Inner where
  ledger : Ledger
  sessions : Store Session.id
  workspaces : Store Workspace.id
  projects : List ProjectId
  db : Database
  deriving DecidableEq

section Errors

def policy (refusal : RailRefusal) : ProtocolError :=
  ⟨.preconditionFailed, refusal.message, some ("\x7b\"reason\":\"policy:" ++ refusal.rail ++
    "\"\x7d")⟩

def versionConflict (current : Nat) : ProtocolError :=
  ⟨.conflict, s!"current version is {current}",
    some ("\x7b\"current_version\":" ++ toString current ++ "\x7d")⟩

def reportErr : ReportRefuse → ProtocolError
  | .foreign => .conflict "report is from another session"
  | .superseded => .conflict "attempt is superseded or already settled"

def dbErr (error : DbError) : ProtocolError := .internal error.text

end Errors

namespace Run

def briefed (brief : String) (now : Timestamp) (run : Run) : Run :=
  { run with
    brief, briefVersion := run.briefVersion + 1, revision := run.revision + 1, updatedAt := now }

def close (cancel : Bool) (now : Timestamp) (run : Run) : Run :=
  { run with
    status := if cancel then .cancelled else .completed
    closedAt := some now, updatedAt := now, revision := run.revision + 1 }

def resume (session : SessionId) (now : Timestamp) (run : Run) : Run :=
  { run with
    status := .active, controllerSessionId := some session, updatedAt := now
    revision := run.revision + 1 }

def forgetSession (session : SessionId) (run : Run) : Run :=
  if run.controllerSessionId = some session then { run with controllerSessionId := none } else run

def forgetWorkspace (workspace : WorkspaceId) (run : Run) : Run :=
  if run.integrationWorkspaceId = some workspace then { run with integrationWorkspaceId := none }
  else run

end Run

namespace Task

/-- A status written with its time and revision. -/
def become (status : TaskStatus) (now : Timestamp) (task : Task) : Task :=
  { task with status, updatedAt := now, revision := task.revision + 1 }

def started (n : Nat) (now : Timestamp) (task : Task) : Task :=
  { task.become .active now with attemptsUsed := n }

def returned (feedback : String) (status : TaskStatus) (now : Timestamp) (task : Task) : Task :=
  { task.become status now with feedback := some feedback }

/-- Where a task in progress goes when its attempt is lost. -/
def loseAttempt (maxAttempts : Nat) (now : Timestamp) (task : Task) : Task :=
  if task.status.inProgress then
    task.become (taskStatusAfterLoss task.attemptsUsed maxAttempts) now
  else task

end Task

namespace Attempt

def reported (report : AttemptReport) (now : Timestamp) (attempt : Attempt) : Attempt :=
  { attempt with
    phase := .reported, outcome := some report.outcome, settledAt := some now, report := some report }

/-- Handed back by a reject without a retry. -/
def reopened (attempt : Attempt) : Attempt :=
  { attempt with phase := .running, outcome := none, settledAt := none }

/-- Handed back by an answer. -/
def resumed (attempt : Attempt) : Attempt :=
  { attempt with phase := .running, settledAt := none }

def rejected (now : Timestamp) (attempt : Attempt) : Attempt :=
  { attempt with phase := .rejected, settledAt := some now }

def lost (reason : LostReason) (now : Timestamp) (attempt : Attempt) : Attempt :=
  { attempt with phase := .lost, lostReason := some reason, settledAt := some now }

def forgetSession (session : SessionId) (now : Timestamp) (attempt : Attempt) : Attempt :=
  if attempt.sessionId = some session then
    if attempt.isLive then { attempt.lost .exitedWithoutReport now with sessionId := none }
    else { attempt with sessionId := none }
  else attempt

def forgetWorkspace (workspace : WorkspaceId) (attempt : Attempt) : Attempt :=
  if attempt.workspaceId = some workspace then { attempt with workspaceId := none } else attempt

end Attempt

namespace Ledger

def tasksOf (ledger : Ledger) (run : RunId) : List Task :=
  ledger.tasks.rows.filter fun task => task.runId == run

def attemptsOf (ledger : Ledger) (task : TaskId) : List Attempt :=
  ledger.attempts.rows.filter fun attempt => attempt.taskId == task

/-- `.max_by_key(|attempt| attempt.n)` over a task's attempts. -/
def newest (ledger : Ledger) (task : TaskId) : Option Attempt :=
  maxBy (fun best next => best.n ≤ next.n) (ledger.attemptsOf task)

theorem mem_attemptsOf {ledger : Ledger} :
    attempt ∈ ledger.attemptsOf task ↔ attempt ∈ ledger.attempts ∧ attempt.taskId = task := by
  unfold attemptsOf
  rw [List.mem_filter, beq_iff_eq]
  exact Iff.rfl

theorem newest_eq_some {ledger : Ledger} (newest : ledger.newest task = some attempt) :
    attempt ∈ ledger.attempts ∧ attempt.taskId = task ∧
      ∀ other ∈ ledger.attempts, other.taskId = task → other.n ≤ attempt.n := by
  have found : maxBy (fun best next => decide (best.n ≤ next.n)) (ledger.attemptsOf task) =
    some attempt := newest
  obtain ⟨member, greatest⟩ := maxBy_le_eq_some found
  obtain ⟨there, same⟩ := mem_attemptsOf.mp member
  exact ⟨there, same, fun other held equal => greatest other (mem_attemptsOf.mpr ⟨held, equal⟩)⟩

def taskStatus (ledger : Ledger) (task : TaskId) : Option TaskStatus :=
  (ledger.tasks.get? task).map (·.status)

/-- A live attempt of a task in the run. -/
def liveIn (ledger : Ledger) (run : RunId) (attempt : Attempt) : Bool :=
  attempt.isLive && (ledger.tasks.get? attempt.taskId).any fun task => task.runId == run

/-- The live attempts that a start counts against the run's rail. -/
def activeIn (ledger : Ledger) (run : RunId) : Nat := ledger.attempts.count (ledger.liveIn run)

/-- A live attempt that writes in the workspace. -/
def writesIn (workspace : WorkspaceId) (attempt : Attempt) : Bool :=
  attempt.isLive && !attempt.readOnly && attempt.workspaceId == some workspace

def hasWriter (ledger : Ledger) (workspace : WorkspaceId) : Bool :=
  ledger.attempts.rows.any (writesIn workspace)

def setRun (run : RunId) (update : Run → Run) (keeps : ∀ run, (update run).id = run.id)
    (ledger : Ledger) : Ledger :=
  { ledger with runs := ledger.runs.modify run update keeps }

def setTask (task : TaskId) (update : Task → Task) (keeps : ∀ task, (update task).id = task.id)
    (ledger : Ledger) : Ledger :=
  { ledger with tasks := ledger.tasks.modify task update keeps }

def setAttempt (attempt : AttemptId) (update : Attempt → Attempt)
    (keeps : ∀ attempt, (update attempt).id = attempt.id) (ledger : Ledger) : Ledger :=
  { ledger with attempts := ledger.attempts.modify attempt update keeps }

/-- The newest attempt of an integrated task keeps the commit. -/
def recordCommit (task : TaskId) (commit : Option String) (ledger : Ledger) : Ledger :=
  match ledger.newest task with
  | none => ledger
  | some attempt => ledger.setAttempt attempt.id
      (fun attempt => { attempt with integratedCommit := commit }) fun _ => rfl

/-- Every live attempt of a cancelled task is lost. -/
def cancelAttempts (task : TaskId) (now : Timestamp) (ledger : Ledger) : Ledger :=
  { ledger with
    attempts := ledger.attempts.map
      (fun attempt => if attempt.taskId == task && attempt.isLive then attempt.lost .cancelled now
        else attempt)
      fun attempt => by split <;> rfl }

/-- A live attempt of the task names the session. -/
def loses (ledger : Ledger) (session : SessionId) (task : Task) : Bool :=
  ledger.attempts.rows.any fun attempt =>
    attempt.sessionId == some session && attempt.isLive && attempt.taskId == task.id

/-- A session row is gone: nothing names it any more, and its live attempts are lost. -/
def forgetSession (session : SessionId) (now : Timestamp) (ledger : Ledger) : Ledger :=
  { ledger with
    attempts := ledger.attempts.map (Attempt.forgetSession session now)
      fun attempt => by unfold Attempt.forgetSession; split <;> [split; skip] <;> rfl
    tasks := ledger.tasks.map
      (fun task => if ledger.loses session task then
        task.loseAttempt ledger.maxAttemptsPerTask now else task)
      fun task => by unfold Task.loseAttempt; split <;> [split; skip] <;> rfl
    runs := ledger.runs.map (Run.forgetSession session)
      fun run => by unfold Run.forgetSession; split <;> rfl }

/-- A workspace row is gone. -/
def forgetWorkspace (workspace : WorkspaceId) (ledger : Ledger) : Ledger :=
  { ledger with
    attempts := ledger.attempts.map (Attempt.forgetWorkspace workspace)
      fun attempt => by unfold Attempt.forgetWorkspace; split <;> rfl
    runs := ledger.runs.map (Run.forgetWorkspace workspace)
      fun run => by unfold Run.forgetWorkspace; split <;> rfl }

/-- A project row is gone, with its runs and all that is theirs. -/
def forgetProject (project : ProjectId) (ledger : Ledger) : Ledger :=
  let runs := (ledger.runs.rows.filter fun run => run.projectId == project).map (·.id)
  let tasks := (ledger.tasks.rows.filter fun task => runs.contains task.runId).map (·.id)
  { ledger with
    runs := ledger.runs.retain fun run => run.projectId != project
    tasks := ledger.tasks.retain fun task => !tasks.contains task.id
    attempts := ledger.attempts.retain fun attempt => !tasks.contains attempt.taskId
    board := ledger.board.retain fun entry => !runs.contains entry.runId
    conflict := ledger.conflict.filter fun run => !runs.contains run }

section Rows

variable {ledger : Ledger}

theorem mem_setTask {id : TaskId} {update : Task → Task}
    {keeps : ∀ task, (update task).id = task.id} {task : Task} :
    task ∈ (ledger.setTask id update keeps).tasks ↔
      (∃ old ∈ ledger.tasks, old.id = id ∧ update old = task) ∨ task ∈ ledger.tasks ∧
      task.id ≠ id :=
  @Store.mem_modify _ _ _ _ _ _ keeps _ _

theorem mem_setAttempt {id : AttemptId} {update : Attempt → Attempt}
    {keeps : ∀ attempt, (update attempt).id = attempt.id} :
    attempt ∈ (ledger.setAttempt id update keeps).attempts ↔
      (∃ old ∈ ledger.attempts, old.id = id ∧ update old = attempt) ∨
        attempt ∈ ledger.attempts ∧ attempt.id ≠ id :=
  @Store.mem_modify _ _ _ _ _ _ keeps _ _

theorem mem_cancelAttempts :
    attempt ∈ (ledger.cancelAttempts task now).attempts ↔ ∃ old ∈ ledger.attempts,
      (if old.taskId == task && old.isLive then old.lost .cancelled now else old) = attempt :=
  List.mem_map

theorem attempts_forgetSession :
    attempt ∈ (ledger.forgetSession session now).attempts ↔
      ∃ old ∈ ledger.attempts, old.forgetSession session now = attempt :=
  List.mem_map

theorem tasks_forgetSession {task : Task} :
    task ∈ (ledger.forgetSession session now).tasks ↔ ∃ old ∈ ledger.tasks,
      (if ledger.loses session old then old.loseAttempt ledger.maxAttemptsPerTask now else old) =
        task :=
  List.mem_map

theorem runs_forgetSession {run : Run} :
    run ∈ (ledger.forgetSession session now).runs ↔
      ∃ old ∈ ledger.runs, old.forgetSession session = run :=
  List.mem_map

theorem attempts_forgetWorkspace {workspace : WorkspaceId} :
    attempt ∈ (ledger.forgetWorkspace workspace).attempts ↔
      ∃ old ∈ ledger.attempts, old.forgetWorkspace workspace = attempt :=
  List.mem_map

theorem runs_forgetWorkspace {workspace : WorkspaceId} {run : Run} :
    run ∈ (ledger.forgetWorkspace workspace).runs ↔
      ∃ old ∈ ledger.runs, old.forgetWorkspace workspace = run :=
  List.mem_map

end Rows

/-- One more than the links to the root, as far as eight of them. -/
def depthFrom (ledger : Ledger) : Nat → Nat → Option AttemptId → Nat
  | 0, depth, _ => depth
  | _ + 1, depth, none => depth
  | fuel + 1, depth, some attempt =>
    let parent := ((ledger.attempts.get? attempt).bind fun attempt =>
      (ledger.tasks.get? attempt.taskId).bind fun task => ledger.runs.get? task.runId).bind
        (·.parentAttemptId)
    if depth + 1 > 8 then depth + 1 else ledger.depthFrom fuel (depth + 1) parent

def runDepth (ledger : Ledger) (run : Run) : Nat := ledger.depthFrom 9 1 run.parentAttemptId

end Ledger

end ForgeNode.Orchestration
