import Mathlib.Data.List.Sort
import ForgeNode.Lib.Section
import ForgeNode.Lib.Store
import ForgeNode.Orchestration.Types

/-! The stored ledger: rows with enum tags as text, the keys and references that the
schema declares, and the repository's statements. -/

namespace ForgeNode.Orchestration

inductive SessionState where
  | starting | running | exited | failed | orphaned
  deriving DecidableEq

namespace SessionState

/-- No process is attached without an explicit restart. -/
def isTerminal : SessionState → Bool
  | .exited | .failed | .orphaned => true
  | _ => false

def canTransitionTo : SessionState → SessionState → Bool
  | .starting, .running | .starting, .failed | .running, .exited | .running, .orphaned
  | .exited, .starting | .failed, .starting | .orphaned, .starting => true
  | _, _ => false

end SessionState

structure Session where
  id : SessionId
  workspaceId : WorkspaceId
  state : SessionState
  deriving DecidableEq

structure Workspace where
  id : WorkspaceId
  projectId : ProjectId
  managedByApp : Bool
  deriving DecidableEq

structure ContextEnvelope where
  id : ContextId
  sourceSessionId : Option SessionId
  targetSessionId : Option SessionId
  instructions : Option String
  createdAt : Timestamp
  runId : Option RunId
  taskId : Option TaskId
  kind : Option ContextKind
  inReplyTo : Option ContextId
  deriving DecidableEq

inductive DbError where
  | sqlite (message : String)
  | decode (message : String)
  | encode (message : String)
  deriving DecidableEq

def DbError.text : DbError → String
  | .sqlite message => "sqlite error: " ++ message
  | .decode message => "could not decode " ++ message
  | .encode message => "could not encode " ++ message

section Tags

def decodeMsg (what value : String) : DbError :=
  .decode s!"{what} from \"{value}\": unknown tag"

def runStatusToStr : RunStatus → Except DbError String
  | .active => .ok "active"
  | .completed => .ok "completed"
  | .cancelled => .ok "cancelled"
  | .interrupted => .ok "interrupted"
  | .unrecognized => .error (.encode "unhandled RunStatus: Unrecognized")

def runStatusFromStr : String → Except DbError RunStatus
  | "active" => .ok .active
  | "completed" => .ok .completed
  | "cancelled" => .ok .cancelled
  | "interrupted" => .ok .interrupted
  | value => .error (decodeMsg "RunStatus" value)

def taskStatusToStr : TaskStatus → Except DbError String
  | .pending => .ok "pending"
  | .ready => .ok "ready"
  | .active => .ok "active"
  | .review => .ok "review"
  | .accepted => .ok "accepted"
  | .integrated => .ok "integrated"
  | .blocked => .ok "blocked"
  | .cancelled => .ok "cancelled"
  | .failed => .ok "failed"
  | .unrecognized => .error (.encode "unhandled TaskStatus: Unrecognized")

def taskStatusFromStr : String → Except DbError TaskStatus
  | "pending" => .ok .pending
  | "ready" => .ok .ready
  | "active" => .ok .active
  | "review" => .ok .review
  | "accepted" => .ok .accepted
  | "integrated" => .ok .integrated
  | "blocked" => .ok .blocked
  | "cancelled" => .ok .cancelled
  | "failed" => .ok .failed
  | value => .error (decodeMsg "TaskStatus" value)

def taskModeToStr : WorkMode → Except DbError String
  | .write => .ok "write"
  | .readOnly => .ok "read_only"
  | .unrecognized => .error (.encode "unhandled WorkMode: Unrecognized")

def taskModeFromStr : String → Except DbError WorkMode
  | "write" => .ok .write
  | "read_only" => .ok .readOnly
  | value => .error (decodeMsg "WorkMode" value)

def attemptPhaseToStr : AttemptPhase → Except DbError String
  | .starting => .ok "starting"
  | .running => .ok "running"
  | .reported => .ok "reported"
  | .rejected => .ok "rejected"
  | .lost => .ok "lost"
  | .unrecognized => .error (.encode "unhandled AttemptPhase: Unrecognized")

def attemptPhaseFromStr : String → Except DbError AttemptPhase
  | "starting" => .ok .starting
  | "running" => .ok .running
  | "reported" => .ok .reported
  | "rejected" => .ok .rejected
  | "lost" => .ok .lost
  | value => .error (decodeMsg "AttemptPhase" value)

def reportOutcomeToStr : ReportOutcome → Except DbError String
  | .done => .ok "done"
  | .failed => .ok "failed"
  | .blocked => .ok "blocked"
  | .unrecognized => .error (.encode "unhandled ReportOutcome: Unrecognized")

def reportOutcomeFromStr : String → Except DbError ReportOutcome
  | "done" => .ok .done
  | "failed" => .ok .failed
  | "blocked" => .ok .blocked
  | value => .error (decodeMsg "ReportOutcome" value)

def lostReasonToStr : LostReason → Except DbError String
  | .exitedWithoutReport => .ok "exited_without_report"
  | .daemonRestarted => .ok "daemon_restarted"
  | .cancelled => .ok "cancelled"
  | .spawnFailed => .ok "spawn_failed"
  | .unrecognized => .error (.encode "unhandled LostReason: Unrecognized")

def lostReasonFromStr : String → Except DbError LostReason
  | "exited_without_report" => .ok .exitedWithoutReport
  | "daemon_restarted" => .ok .daemonRestarted
  | "cancelled" => .ok .cancelled
  | "spawn_failed" => .ok .spawnFailed
  | value => .error (decodeMsg "LostReason" value)

end Tags

/-- `Option::map(f).transpose()?`. -/
def transpose (convert : α → Except ε β) : Option α → Except ε (Option β)
  | none => .ok none
  | some value => (convert value).map some

structure RunRow where
  id : RunId
  projectId : ProjectId
  objective : String
  brief : String
  briefVersion : Nat
  controllerSessionId : Option SessionId
  integrationWorkspaceId : Option WorkspaceId
  base : Option String
  parentAttemptId : Option AttemptId
  status : String
  revision : Nat
  createdAt : Timestamp
  updatedAt : Timestamp
  closedAt : Option Timestamp
  deriving DecidableEq

structure TaskRow where
  id : TaskId
  runId : RunId
  title : String
  spec : String
  acceptance : String
  mode : String
  allowSubruns : Bool
  status : String
  attemptsUsed : Nat
  revision : Nat
  feedback : Option String
  createdAt : Timestamp
  updatedAt : Timestamp
  deriving DecidableEq

structure TaskDep where
  taskId : TaskId
  afterTaskId : TaskId
  deriving DecidableEq

structure AttemptRow where
  id : AttemptId
  taskId : TaskId
  n : Nat
  sessionId : Option SessionId
  workspaceId : Option WorkspaceId
  branch : Option String
  baseCommit : Option String
  providerId : AgentProviderId
  profileId : Option AgentProfileId
  readOnly : Bool
  phase : String
  outcome : Option String
  lostReason : Option String
  summary : Option String
  verification : Option String
  resultPath : Option String
  reportedHead : Option String
  dirtyAtReport : Option Bool
  filesChanged : Option (List String)
  integratedCommit : Option String
  createdAt : Timestamp
  settledAt : Option Timestamp
  deriving DecidableEq

def BoardEntry.place (entry : BoardEntry) : RunId × String := (entry.runId, entry.key)

section Rows

def runValues (run : Run) : Except DbError RunRow := do
  let status ← runStatusToStr run.status
  return { run with status }

def runFromRow (row : RunRow) : Except DbError Run := do
  let status ← runStatusFromStr row.status
  return { row with status }

def taskValues (task : Task) : Except DbError TaskRow := do
  let mode ← taskModeToStr task.mode
  let status ← taskStatusToStr task.status
  return { task with mode, status }

def taskFromRow (row : TaskRow) (after : List TaskId) : Except DbError Task := do
  let mode ← taskModeFromStr row.mode
  let status ← taskStatusFromStr row.status
  return { row with mode, status, after }

def attemptValues (attempt : Attempt) : Except DbError AttemptRow := do
  let phase ← attemptPhaseToStr attempt.phase
  let outcome ← transpose reportOutcomeToStr attempt.outcome
  let lostReason ← transpose lostReasonToStr attempt.lostReason
  let report := attempt.report
  return { attempt with
    phase, outcome, lostReason
    summary := report.map (·.summary)
    verification := report.bind (·.verification)
    resultPath := report.bind (·.resultPath)
    reportedHead := report.bind (·.reportedHead)
    dirtyAtReport := report.map (·.dirtyAtReport)
    filesChanged := report.map (·.filesChanged) }

def attemptFromRow (row : AttemptRow) : Except DbError Attempt := do
  let outcome ← transpose reportOutcomeFromStr row.outcome
  let phase ← attemptPhaseFromStr row.phase
  let lostReason ← transpose lostReasonFromStr row.lostReason
  return { row with
    phase, outcome, lostReason
    report := row.summary.map fun summary => {
      outcome := outcome.getD .done
      summary
      verification := row.verification
      resultPath := row.resultPath
      reportedHead := row.reportedHead
      dirtyAtReport := row.dirtyAtReport.getD false
      filesChanged := row.filesChanged.getD [] } }

end Rows

/-- The tables that the ledger is kept in, and the ones it refers to. -/
structure Tables where
  projects : List ProjectId
  workspaces : Store Workspace.id
  sessions : Store Session.id
  runs : Store RunRow.id
  tasks : Store TaskRow.id
  taskDeps : Store (id : TaskDep → TaskDep)
  attempts : Store AttemptRow.id
  runState : Store BoardEntry.place
  contextEnvelopes : List ContextEnvelope
  deriving DecidableEq

/-- The connection. `faults` says which of the coming statements fail on their own, and
`failures` counts the statements that failed. -/
structure Database where
  tables : Tables
  faults : List Bool
  failures : Nat
  deriving DecidableEq

abbrev Statement := Section Database DbError PUnit

/-- Run one statement: all of it, or an error and nothing. -/
def execute (statement : Tables → Except DbError Tables) : Statement := fun db =>
  match db.faults with
  | true :: faults =>
    (.error (.sqlite "disk I/O error"), { db with faults, failures := db.failures + 1 })
  | faults =>
    match statement db.tables with
    | .ok tables => (.ok ⟨⟩, { db with tables, faults := faults.tail })
    | .error error => (.error error, { db with faults := faults.tail, failures := db.failures + 1 })

def foreignKey : DbError := .sqlite "FOREIGN KEY constraint failed"

def unique (columns : String) : DbError := .sqlite ("UNIQUE constraint failed: " ++ columns)

/-- `REFERENCES .. ON DELETE SET NULL`: a null names nothing. -/
def Tables.hasSession (tables : Tables) (session : Option SessionId) : Bool :=
  session.all fun id => (tables.sessions.get? id).isSome

def Tables.hasWorkspace (tables : Tables) (workspace : Option WorkspaceId) : Bool :=
  workspace.all fun id => (tables.workspaces.get? id).isSome

def Tables.hasAttempt (tables : Tables) (attempt : Option AttemptId) : Bool :=
  attempt.all fun id => (tables.attempts.get? id).isSome

section Statements

def insertRunRow (run : Run) (tables : Tables) : Except DbError Tables := do
  let row ← runValues run
  require ((tables.runs.get? run.id).isNone) (unique "runs.id")
  require (run.projectId ∈ tables.projects ∧ tables.hasSession run.controllerSessionId ∧
    tables.hasWorkspace run.integrationWorkspaceId ∧ tables.hasAttempt run.parentAttemptId) foreignKey
  return { tables with runs := tables.runs.put row }

def updateRunRow (run : Run) (tables : Tables) : Except DbError Tables := do
  let row ← runValues run
  require ((tables.runs.get? run.id).isSome → tables.hasSession run.controllerSessionId ∧
    tables.hasWorkspace run.integrationWorkspaceId ∧ tables.hasAttempt run.parentAttemptId) foreignKey
  return { tables with
    runs := tables.runs.modify run.id
      (fun old => { row with id := old.id, projectId := old.projectId, createdAt := old.createdAt })
      fun _ => rfl }

def insertTaskRow (task : Task) (tables : Tables) : Except DbError Tables := do
  let row ← taskValues task
  require ((tables.tasks.get? task.id).isNone) (unique "tasks.id")
  require ((tables.runs.get? task.runId).isSome) foreignKey
  return { tables with tasks := tables.tasks.put row }

def updateTaskRow (task : Task) (tables : Tables) : Except DbError Tables := do
  let row ← taskValues task
  return { tables with
    tasks := tables.tasks.modify task.id
      (fun old => { row with id := old.id, runId := old.runId, createdAt := old.createdAt })
      fun _ => rfl }

def deleteDeps (task : TaskId) (tables : Tables) : Except DbError Tables :=
  .ok { tables with taskDeps := tables.taskDeps.retain fun dep => dep.taskId != task }

def insertDep (task after : TaskId) (tables : Tables) : Except DbError Tables := do
  require ((tables.taskDeps.get? ⟨task, after⟩).isNone)
    (unique "task_deps.task_id, task_deps.after_task_id")
  require ((tables.tasks.get? task).isSome ∧ (tables.tasks.get? after).isSome) foreignKey
  return { tables with taskDeps := tables.taskDeps.put ⟨task, after⟩ }

def insertAttemptRow (attempt : Attempt) (tables : Tables) : Except DbError Tables := do
  let row ← attemptValues attempt
  require ((tables.attempts.get? attempt.id).isNone) (unique "attempts.id")
  require ((tables.tasks.get? attempt.taskId).isSome ∧ tables.hasSession attempt.sessionId ∧
    tables.hasWorkspace attempt.workspaceId) foreignKey
  return { tables with attempts := tables.attempts.put row }

def updateAttemptRow (attempt : Attempt) (tables : Tables) : Except DbError Tables := do
  let row ← attemptValues attempt
  require ((tables.attempts.get? attempt.id).isSome → tables.hasSession attempt.sessionId ∧
    tables.hasWorkspace attempt.workspaceId) foreignKey
  return { tables with
    attempts := tables.attempts.modify attempt.id
      (fun old => { row with
        id := old.id, taskId := old.taskId, n := old.n, createdAt := old.createdAt })
      fun _ => rfl }

def upsertBoardRow (entry : BoardEntry) (tables : Tables) : Except DbError Tables := do
  require ((tables.runs.get? entry.runId).isSome) foreignKey
  return { tables with runState := tables.runState.put entry }

def deleteBoardRow (run : RunId) (key : String) (tables : Tables) : Except DbError Tables :=
  .ok { tables with runState := tables.runState.retain fun entry => entry.place != (run, key) }

def insertEnvelope (envelope : ContextEnvelope) (tables : Tables) : Except DbError Tables :=
  .ok { tables with contextEnvelopes := tables.contextEnvelopes ++ [envelope] }

def insertSessionRow (session : Session) (tables : Tables) : Except DbError Tables := do
  require ((tables.sessions.get? session.id).isNone) (unique "sessions.id")
  require ((tables.workspaces.get? session.workspaceId).isSome) foreignKey
  return { tables with sessions := tables.sessions.put session }

def updateSessionState (session : SessionId) (state : SessionState) (tables : Tables) :
    Except DbError Tables :=
  .ok { tables with sessions := tables.sessions.modify session (fun row => { row with state }) fun _ => rfl }

/-- Deleting a session nulls the references to it. -/
def deleteSessionRow (session : SessionId) (tables : Tables) : Except DbError Tables :=
  .ok { tables with
    sessions := tables.sessions.retain fun row => row.id != session
    attempts := tables.attempts.map
      (fun row => if row.sessionId = some session then { row with sessionId := none } else row)
      (fun row => by split <;> rfl)
    runs := tables.runs.map
      (fun row => if row.controllerSessionId = some session then
        { row with controllerSessionId := none } else row)
      (fun row => by split <;> rfl) }

/-- `DELETE FROM sessions`. -/
def purgeSessions (tables : Tables) : Except DbError Tables :=
  .ok { tables with
    sessions := Store.empty
    attempts := tables.attempts.map (fun row => { row with sessionId := none }) fun _ => rfl
    runs := tables.runs.map (fun row => { row with controllerSessionId := none }) fun _ => rfl }

/-- A PTY never survives the daemon. -/
def Session.orphan (session : Session) : Session :=
  if session.state = .starting ∨ session.state = .running then { session with state := .orphaned }
  else session

def reconcileOrphaned (tables : Tables) : Except DbError Tables :=
  .ok { tables with
    sessions := tables.sessions.map Session.orphan
      fun session => by unfold Session.orphan; split <;> rfl }

def insertWorkspaceRow (workspace : Workspace) (tables : Tables) : Except DbError Tables := do
  require ((tables.workspaces.get? workspace.id).isNone) (unique "workspaces.id")
  require (workspace.projectId ∈ tables.projects) foreignKey
  return { tables with workspaces := tables.workspaces.put workspace }

def deleteWorkspaceRow (workspace : WorkspaceId) (tables : Tables) : Except DbError Tables := do
  require (∀ session ∈ tables.sessions.rows, session.workspaceId ≠ workspace) foreignKey
  return { tables with
    workspaces := tables.workspaces.retain fun row => row.id != workspace
    attempts := tables.attempts.map
      (fun row => if row.workspaceId = some workspace then { row with workspaceId := none } else row)
      (fun row => by split <;> rfl)
    runs := tables.runs.map
      (fun row => if row.integrationWorkspaceId = some workspace then
        { row with integrationWorkspaceId := none } else row)
      (fun row => by split <;> rfl) }

/-- Deleting a project cascades to its runs, their tasks and their attempts. -/
def deleteProjectRow (project : ProjectId) (tables : Tables) : Except DbError Tables := do
  require (∀ workspace ∈ tables.workspaces.rows, workspace.projectId ≠ project) foreignKey
  let runs := (tables.runs.rows.filter fun row => row.projectId == project).map (·.id)
  let tasks := (tables.tasks.rows.filter fun row => runs.contains row.runId).map (·.id)
  let attempts := (tables.attempts.rows.filter fun row => tasks.contains row.taskId).map (·.id)
  return { tables with
    projects := tables.projects.filter (· != project)
    runs := (tables.runs.retain fun row => row.projectId != project).map
      (fun row => if row.parentAttemptId.any attempts.contains then
        { row with parentAttemptId := none } else row)
      (fun row => by split <;> rfl)
    tasks := tables.tasks.retain fun row => !runs.contains row.runId
    taskDeps := tables.taskDeps.retain fun dep =>
      !tasks.contains dep.taskId && !tasks.contains dep.afterTaskId
    attempts := tables.attempts.retain fun row => !tasks.contains row.taskId
    runState := tables.runState.retain fun entry => !runs.contains entry.runId
    contextEnvelopes := tables.contextEnvelopes.filter fun envelope =>
      !envelope.runId.any runs.contains }

end Statements

section Repository

def insertRun (run : Run) : Statement := execute (insertRunRow run)

def updateRun (run : Run) : Statement := execute (updateRunRow run)

/-- The row, then one row for each dependency. -/
def insertTask (task : Task) : Statement := do
  execute (insertTaskRow task)
  Section.each (fun after => execute (insertDep task.id after)) task.after

/-- The row, then the dependencies anew. -/
def updateTask (task : Task) : Statement := do
  execute (updateTaskRow task)
  execute (deleteDeps task.id)
  Section.each (fun after => execute (insertDep task.id after)) task.after

def insertAttempt (attempt : Attempt) : Statement := execute (insertAttemptRow attempt)

def updateAttempt (attempt : Attempt) : Statement := execute (updateAttemptRow attempt)

def upsertBoard (entry : BoardEntry) : Statement := execute (upsertBoardRow entry)

def deleteBoard (run : RunId) (key : String) : Statement := execute (deleteBoardRow run key)

def listRuns (tables : Tables) : Except DbError (List Run) := tables.runs.rows.mapM runFromRow

/-- The dependencies of a task in the order of their ids. -/
def deps (tables : Tables) (task : TaskId) : List TaskId :=
  ((tables.taskDeps.rows.filter fun dep => dep.taskId == task).map (·.afterTaskId)).insertionSort
    (· ≤ ·)

def listTasks (tables : Tables) : Except DbError (List Task) :=
  tables.tasks.rows.mapM fun row => taskFromRow row (deps tables row.id)

def listAttempts (tables : Tables) : Except DbError (List Attempt) :=
  tables.attempts.rows.mapM attemptFromRow

def listBoard (tables : Tables) (run : RunId) : List BoardEntry :=
  tables.runState.rows.filter fun entry => entry.runId == run

end Repository

end ForgeNode.Orchestration
