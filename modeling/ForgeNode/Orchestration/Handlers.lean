import ForgeNode.Orchestration.Ledger

/-! The critical sections of each request: what one hold of the core lock reads, checks,
changes in memory and writes. -/

namespace ForgeNode.Orchestration

open ProtocolError

/-- One critical section of the daemon. -/
abbrev Handler (α : Type) := Section Inner ProtocolError α

/-- What the ledger takes from its libraries: the text of an id and the JSON parser. -/
structure Platform where
  display : Nat → String
  isJson : String → Bool

def persist (statement : Statement) : Handler PUnit :=
  Section.within Inner.db (fun db inner => { inner with db }) dbErr statement

def persistTask (task : Task) : Handler PUnit := persist (updateTask task)

def persistAttempt (attempt : Attempt) : Handler PUnit := persist (updateAttempt attempt)

def onLedger (update : Ledger → Ledger) : Handler PUnit :=
  Section.change fun inner => { inner with ledger := update inner.ledger }

def notReady (status : TaskStatus) : ProtocolError :=
  preconditionFailed s!"task is {status.debug}, not ready"

section Runs

structure CreateRun where
  caller : Option SessionId
  projectId : ProjectId
  objective : String
  controller : ControllerSpec
  integration : IntegrationPlacement
  base : Option String
  parentAttemptId : Option AttemptId
  deriving DecidableEq

/-- The project is open and a parent attempt may nest a run. -/
def createRunCheck (request : CreateRun) (limits : OrchestrationLimits) (inner : Inner) :
    Except ProtocolError Unit := do
  require (!isBlank (clampText request.objective maxObjectiveBytes).1)
    (invalidRequest "objective is empty")
  require (request.projectId ∈ inner.projects) (notFound "project")
  match request.parentAttemptId with
  | none => .ok ()
  | some id => do
    let attempt ← found (inner.ledger.attempts.get? id) (notFound "parent attempt")
    let task ← found (inner.ledger.tasks.get? attempt.taskId) (notFound "parent task")
    let run ← found (inner.ledger.runs.get? task.runId) (notFound "parent run")
    (allowNestedRun (inner.ledger.runDepth run) task.allowSubruns limits).mapError policy

/-- Where the run integrates. `worktree` is the branch and the workspace that a new
placement made. -/
def placeIntegration (request : CreateRun) (worktree : String × WorkspaceId) (inner : Inner) :
    Except ProtocolError (Option WorkspaceId × Option String) :=
  match request.integration with
  | .new => .ok (some worktree.2, request.base.or (some worktree.1))
  | .current =>
    let atCaller := request.caller.bind fun session => (inner.sessions.get? session).map
      (·.workspaceId)
    let primary := inner.workspaces.rows.find? fun workspace =>
      workspace.projectId == request.projectId && !workspace.managedByApp
    .ok (atCaller.or (primary.map (·.id)), request.base)
  | .workspace id => do
    require (inner.workspaces.get? id).isSome (notFound "workspace")
    return (some id, request.base)

/-- `spawned` is the session an agent controller was started in. -/
def controllerSession (request : CreateRun) (workspace : Option WorkspaceId)
    (spawned : Except ProtocolError SessionId) : Except ProtocolError (Option SessionId) :=
  match request.controller with
  | .none => .ok none
  | .selfSession => .ok request.caller
  | .agent _ _ => do
    let _ ← found workspace
      (preconditionFailed "an agent controller needs an integration workspace")
    let session ← spawned
    return some session

def insertRunSection (run : Run) : Handler PUnit := do
  persist (insertRun run)
  onLedger fun ledger => { ledger with runs := ledger.runs.put run }

/-- The work after the check: place, spawn, then record the run. -/
def createRun (request : CreateRun) (worktree : String × WorkspaceId)
    (spawned : Except ProtocolError SessionId) (id : RunId) (now : Timestamp) : Handler PUnit := do
  let (workspace, base) ← Section.check (placeIntegration request worktree)
  let controller ← Section.check fun _ => controllerSession request workspace spawned
  insertRunSection {
    id
    projectId := request.projectId
    objective := (clampText request.objective maxObjectiveBytes).1
    brief := ""
    briefVersion := 0
    controllerSessionId := controller
    integrationWorkspaceId := workspace
    base
    parentAttemptId := request.parentAttemptId
    status := .active
    revision := 1
    createdAt := now
    updatedAt := now
    closedAt := none }

/-- The version checks of `update_brief`: both arms of its match, then the guard after it. -/
def checkBriefVersion (current expected : Nat) : Except ProtocolError Unit :=
  match compareAndSet (some current) expected with
  | .mismatch known =>
    if !(expected == 0 && current == 0) && expected != current then
      .error (versionConflict (if current = 0 then 0 else max known current))
    else require (expected = current ∨ expected = 0 ∧ current = 0) (versionConflict current)
  | _ => require (expected = current ∨ expected = 0 ∧ current = 0) (versionConflict current)

def updateBriefCheck (caller : Option SessionId) (id : RunId) (expected : Nat) (inner : Inner) :
    Except ProtocolError Run := do
  let run ← found (inner.ledger.runs.get? id) (notFound "run")
  (allowController caller run.controllerSessionId).mapError policy
  checkBriefVersion run.briefVersion expected
  return run

/-- The ledger's run changes before the row is written. -/
def updateBrief (caller : Option SessionId) (id : RunId) (brief : String) (expected : Nat)
    (now : Timestamp) : Handler PUnit := do
  let brief := (clampText brief maxBriefBytes).1
  let run ← Section.check (updateBriefCheck caller id expected)
  onLedger (Ledger.setRun id (Run.briefed brief now) fun _ => rfl)
  persist (updateRun (run.briefed brief now))

structure CloseRun where
  caller : Option SessionId
  runId : RunId
  cancel : Bool
  pullRequest : Bool
  deriving DecidableEq

/-- Who may close the run; gives its tasks and its integration workspace. -/
def closeRunCheck (request : CloseRun) (limits : OrchestrationLimits) (inner : Inner) :
    Except ProtocolError (List TaskId × Option WorkspaceId) := do
  let run ← found (inner.ledger.runs.get? request.runId) (notFound "run")
  (allowController request.caller run.controllerSessionId).mapError policy
  (if request.caller.isSome && request.pullRequest then
    allowAgentIntegrate true limits.agentMayIntegrate else .ok ()).mapError policy
  return ((inner.ledger.tasksOf request.runId).map (·.id), run.integrationWorkspaceId)

/-- The pull request of `close_run`; `opened` is what the forge answered. -/
def openPullRequest (request : CloseRun) (integration : Option WorkspaceId)
    (opened : Except ProtocolError Unit) : Except ProtocolError Unit :=
  if request.pullRequest then do
    let _ ← found integration
      (preconditionFailed "run has no integration workspace to open a PR from")
    opened
  else .ok ()

/-- The final write of `close_run`. It does not read the run's status. -/
def closeRun (request : CloseRun) (now : Timestamp) : Handler PUnit := do
  let run ← Section.check fun inner => found (inner.ledger.runs.get? request.runId) (notFound "run")
  onLedger (Ledger.setRun request.runId (Run.close request.cancel now) fun _ => rfl)
  persist (updateRun (run.close request.cancel now))

/-- An interrupted run, or an active one whose controller has ended. -/
def resumable (run : Run) (inner : Inner) : Bool :=
  let controllerLive := (run.controllerSessionId.bind inner.sessions.get?).any fun session =>
    !session.state.isTerminal
  run.status == .interrupted || (run.status == .active && !controllerLive)

def resumeRunCheck (caller : Option SessionId) (id : RunId) (inner : Inner) :
    Except ProtocolError (Option WorkspaceId) := do
  let run ← found (inner.ledger.runs.get? id) (notFound "run")
  (allowController caller run.controllerSessionId).mapError policy
  require (resumable run inner) (preconditionFailed
    "only an interrupted run, or one whose controller has ended, can be resumed")
  require (id ∉ inner.ledger.resuming) (conflict "run is already being resumed")
  return run.integrationWorkspaceId

/-- The check of `resume_run`, which claims the run. -/
def claimResume (caller : Option SessionId) (id : RunId) : Handler (Option WorkspaceId) := do
  let workspace ← Section.check (resumeRunCheck caller id)
  onLedger fun ledger => { ledger with resuming := id :: ledger.resuming }
  return workspace

/-- The final write of `resume_run`. It does not read the run's status. -/
def resumeRun (id : RunId) (session : SessionId) (now : Timestamp) : Handler PUnit := do
  let run ← Section.check fun inner => found (inner.ledger.runs.get? id) (notFound "run")
  onLedger (Ledger.setRun id (Run.resume session now) fun _ => rfl)
  persist (updateRun (run.resume session now))

/-- `ResumeClaim::drop`. -/
def releaseClaim (id : RunId) : Handler PUnit :=
  onLedger fun ledger => { ledger with resuming := ledger.resuming.filter (· != id) }

end Runs

section Tasks

structure CreateTask where
  caller : Option SessionId
  runId : RunId
  title : String
  spec : String
  acceptance : String
  after : List TaskId
  mode : WorkMode
  allowSubruns : Bool
  deriving DecidableEq

/-- The task as it is first stored, before promotion. -/
def CreateTask.task (request : CreateTask) (id : TaskId) (now : Timestamp) : Task where
  id := id
  runId := request.runId
  title := (clampText request.title maxTitleBytes).1
  spec := (clampText request.spec maxSpecBytes).1
  acceptance := (clampText request.acceptance maxAcceptanceBytes).1
  after := request.after
  mode := request.mode
  allowSubruns := request.allowSubruns
  status := .pending
  attemptsUsed := 0
  revision := 1
  createdAt := now
  updatedAt := now
  feedback := none

def checkDependency (run : RunId) (inner : Inner) (dep : TaskId) : Except ProtocolError Unit := do
  let other ← found (inner.ledger.tasks.get? dep) (notFound "dependency")
  require (other.runId = run) (invalidRequest "dependencies must be tasks in the same run")

/-- Everything `create_task` refuses; gives the task, promoted where its dependencies are met. -/
def createTaskCheck (request : CreateTask) (limits : OrchestrationLimits) (id : TaskId)
    (now : Timestamp) (inner : Inner) : Except ProtocolError Task := do
  require (!isBlank (clampText request.title maxTitleBytes).1) (invalidRequest "title is empty")
  let run ← found (inner.ledger.runs.get? request.runId) (notFound "run")
  (allowController request.caller run.controllerSessionId).mapError policy
  require run.status.isOpen (preconditionFailed "run is not open")
  let tasks := inner.ledger.tasksOf request.runId
  (allowNewTask tasks.length limits).mapError policy
  checkEach (checkDependency request.runId inner) request.after
  let edges := tasks.flatMap fun task => task.after.map fun after => (task.id, after)
  require (!dependencyCycle edges id request.after)
    (policy ⟨"cycle", "task dependencies would cycle"⟩)
  let task := request.task id now
  return ((promoteReady (tasks ++ [task])).find? fun item => item.id == id).getD task

def createTask (request : CreateTask) (limits : OrchestrationLimits) (id : TaskId)
    (now : Timestamp) : Handler TaskId := do
  let task ← Section.check (createTaskCheck request limits id now)
  persist (insertTask task)
  onLedger fun ledger => { ledger with tasks := ledger.tasks.put task }
  return id

end Tasks

section Attempts

structure StartAttempt where
  caller : Option SessionId
  taskId : TaskId
  providerId : AgentProviderId
  profileId : Option AgentProfileId
  placement : AttemptPlacement
  deriving DecidableEq

/-- What a start read before its worktree and its session existed. -/
structure StartPlan where
  request : StartAttempt
  task : Task
  run : Run
  workspaceHint : WorkspaceId
  deriving DecidableEq

def resolveWorkspace (run : Run) (placement : AttemptPlacement) (caller : Option SessionId)
    (inner : Inner) : Except ProtocolError WorkspaceId :=
  match placement with
  | .worktree | .integration =>
    found run.integrationWorkspaceId (preconditionFailed "run has no integration workspace")
  | .same =>
    let atCaller := caller.bind fun session => (inner.sessions.get? session).map (·.workspaceId)
    found (atCaller.or run.integrationWorkspaceId)
      (preconditionFailed "no workspace for this attempt")
  | .workspace id => do
    require (inner.workspaces.get? id).isSome (notFound "workspace")
    return id

def planStart (request : StartAttempt) (limits : OrchestrationLimits) (inner : Inner) :
    Except ProtocolError StartPlan := do
  let task ← found (inner.ledger.tasks.get? request.taskId) (notFound "task")
  let run ← found (inner.ledger.runs.get? task.runId) (notFound "run")
  (allowController request.caller run.controllerSessionId).mapError policy
  require run.status.isOpen (preconditionFailed "run is not open")
  require task.status.startable (notReady task.status)
  require (dependenciesMet task.after inner.ledger.taskStatus)
    (preconditionFailed "dependencies are not accepted or integrated")
  let workspace ← resolveWorkspace run request.placement request.caller inner
  (allowStart (inner.ledger.activeIn run.id) task.attemptsUsed task.mode
    (inner.ledger.hasWriter workspace) limits).mapError policy
  return ⟨request, task, run, workspace⟩

/-- `n` for a start that is still allowed, from the row under the lock. -/
def refuseStaleStart (run : RunId) (task : TaskId) (workspace : WorkspaceId)
    (limits : OrchestrationLimits) (inner : Inner) : Except ProtocolError Nat := do
  require ((inner.ledger.runs.get? run).any fun run => run.status.isOpen)
    (preconditionFailed "run is not open")
  let task ← found (inner.ledger.tasks.get? task) (internal "task vanished")
  require task.status.startable (notReady task.status)
  require (dependenciesMet task.after inner.ledger.taskStatus)
    (preconditionFailed "dependencies are not accepted or integrated")
  (allowStart (inner.ledger.activeIn run) task.attemptsUsed task.mode
    (inner.ledger.hasWriter workspace) limits).mapError policy
  return task.attemptsUsed + 1

/-- The checkout a start was given: the hinted workspace, or a worktree of its own. -/
structure Materialized where
  workspace : WorkspaceId
  branch : Option String
  baseCommit : Option String
  deriving DecidableEq

/-- The session row of a worker, once its process runs. -/
def spawnWorker (workspace : WorkspaceId) (id : SessionId) : Handler PUnit := do
  Section.check fun inner => require (inner.workspaces.get? workspace).isSome (notFound "workspace")
  let session : Session := ⟨id, workspace, .running⟩
  persist (execute (insertSessionRow session))
  Section.change fun inner => { inner with sessions := inner.sessions.put session }

/-- A start whose session runs and whose attempt is not recorded yet. -/
structure Spawned where
  plan : StartPlan
  materialized : Materialized
  session : SessionId
  deriving DecidableEq

def Spawned.attempt (spawned : Spawned) (id : AttemptId) (n : Nat) (now : Timestamp) : Attempt where
  id := id
  taskId := spawned.plan.task.id
  n := n
  sessionId := some spawned.session
  workspaceId := some spawned.materialized.workspace
  branch := spawned.materialized.branch
  baseCommit := spawned.materialized.baseCommit
  providerId := spawned.plan.request.providerId
  profileId := spawned.plan.request.profileId
  readOnly := spawned.plan.task.mode == .readOnly
  phase := .running
  outcome := none
  lostReason := none
  report := none
  integratedCommit := none
  createdAt := now
  settledAt := none

/-- What the commit of a start refuses; gives the task under the lock and the new number. -/
def commitStartCheck (spawned : Spawned) (limits : OrchestrationLimits) (inner : Inner) :
    Except ProtocolError (Task × Nat) := do
  let n ← refuseStaleStart spawned.plan.run.id spawned.plan.task.id spawned.materialized.workspace
    limits inner
  let task ← found (inner.ledger.tasks.get? spawned.plan.task.id) (internal "task vanished")
  return (task, n)

/-- The commit section of `start_attempt`: the task in memory, the attempt row, the task
row, and last the attempt in memory. -/
def commitStart (spawned : Spawned) (limits : OrchestrationLimits) (id : AttemptId)
    (now : Timestamp) : Handler PUnit := do
  let (task, n) ← Section.check (commitStartCheck spawned limits)
  onLedger (Ledger.setTask spawned.plan.task.id (Task.started n now) fun _ => rfl)
  persist (insertAttempt (spawned.attempt id n now))
  persistTask (task.started n now)
  onLedger fun ledger => { ledger with attempts := ledger.attempts.put (spawned.attempt id n now) }

structure ReportAttempt where
  caller : Option SessionId
  attemptId : AttemptId
  outcome : ReportOutcome
  summary : String
  verification : Option String
  resultFile : Option String
  deriving DecidableEq

/-- What a report read before its result file was copied. -/
structure Reporting where
  request : ReportAttempt
  taskId : TaskId
  attemptsUsed : Nat
  deriving DecidableEq

def hasNewer (ledger : Ledger) (attempt : Attempt) : Bool :=
  ledger.attempts.rows.any fun other => other.taskId == attempt.taskId && other.n > attempt.n

def reportCheck (request : ReportAttempt) (inner : Inner) : Except ProtocolError Reporting := do
  require (!isBlank (clampText request.summary maxSummaryBytes).1) (invalidRequest "summary is empty")
  let attempt ← found (inner.ledger.attempts.get? request.attemptId) (notFound "attempt")
  (settleReport attempt.phase attempt.sessionId request.caller
    (hasNewer inner.ledger attempt)).mapError reportErr
  let task ← found (inner.ledger.tasks.get? attempt.taskId) (notFound "task")
  return ⟨request, task.id, task.attemptsUsed⟩

/-- What the file system and git said of a report: the copied result, then the facts. -/
structure ReportFacts where
  copied : Except ProtocolError (Option String)
  head : Option String
  dirty : Bool
  files : List String

def Reporting.report (reporting : Reporting) (facts : ReportFacts) (copied : Option String) :
    AttemptReport where
  outcome := reporting.request.outcome
  summary := (clampText reporting.request.summary maxSummaryBytes).1
  verification := reporting.request.verification.map fun text =>
    (clampText text maxVerificationBytes).1
  resultPath := copied
  reportedHead := facts.head
  dirtyAtReport := facts.dirty
  filesChanged := facts.files

def settleCheck (reporting : Reporting) (inner : Inner) : Except ProtocolError Attempt := do
  let attempt ← found (inner.ledger.attempts.get? reporting.request.attemptId) (notFound "attempt")
  (settleReport attempt.phase attempt.sessionId reporting.request.caller
    (hasNewer inner.ledger attempt)).mapError reportErr
  return attempt

/-- The task status comes from the attempts used when the report was checked. -/
def Reporting.status (reporting : Reporting) (limits : OrchestrationLimits) : TaskStatus :=
  taskStatusAfterReport reporting.request.outcome reporting.attemptsUsed limits.maxAttemptsPerTask

/-- The settling section of `report_attempt`. -/
def reportAttempt (reporting : Reporting) (facts : ReportFacts) (limits : OrchestrationLimits)
    (now : Timestamp) : Handler PUnit := do
  let copied ← Section.check fun _ => facts.copied
  let report := reporting.report facts copied
  let attempt ← Section.check (settleCheck reporting)
  onLedger (Ledger.setAttempt reporting.request.attemptId (Attempt.reported report now) fun _ => rfl)
  let task ← Section.check fun inner =>
    found (inner.ledger.tasks.get? reporting.taskId) (notFound "task")
  onLedger (Ledger.setTask reporting.taskId (Task.become (reporting.status limits) now) fun _ => rfl)
  persistAttempt (attempt.reported report now)
  persistTask (task.become (reporting.status limits) now)

end Attempts

section Decisions

structure DecideTask where
  caller : Option SessionId
  taskId : TaskId
  expectedRevision : Nat
  decision : TaskDecision
  retryProvider : Option AgentProviderId
  retryProfile : Option AgentProfileId
  deriving DecidableEq

/-- What each decision asks of the task's status. -/
def decisionFits (status : TaskStatus) : TaskDecision → Except ProtocolError Unit
  | .accept _ | .reject _ _ =>
    require (status = .review ∨ status = .blocked)
      (preconditionFailed "task is not awaiting a decision")
  | .cancel _ => require (!status.isFinal) (preconditionFailed "task is already final")
  | .unrecognized => .error (invalidRequest "decision")

/-- The compare-and-set half of a decision. -/
def checkDecision (request : DecideTask) (inner : Inner) : Except ProtocolError Task := do
  let task ← found (inner.ledger.tasks.get? request.taskId) (notFound "task")
  let run ← found (inner.ledger.runs.get? task.runId) (notFound "run")
  (allowController request.caller run.controllerSessionId).mapError policy
  require (task.revision = request.expectedRevision) (versionConflict task.revision)
  decisionFits task.status request.decision
  return task

/-- Write the tasks of a run and put them back, up to the first that fails. -/
def persistPromoted (tasks : List Task) : Handler PUnit :=
  Section.each (fun task => do
    persistTask task
    onLedger fun ledger => { ledger with tasks := ledger.tasks.put task }) tasks

def acceptTask (request : DecideTask) (now : Timestamp) : Handler PUnit := do
  let task ← Section.check (checkDecision request)
  onLedger (Ledger.setTask request.taskId (Task.become .accepted now) fun _ => rfl)
  let tasks ← Section.check fun inner => .ok (promoteReady (inner.ledger.tasksOf task.runId))
  persistPromoted tasks

/-- The worker that reported is still there to take its task back. -/
def workerAlive (task : TaskId) (inner : Inner) : Bool :=
  (((inner.ledger.newest task).bind (·.sessionId)).bind inner.sessions.get?).any fun session =>
    !session.state.isTerminal

def rejectCheck (request : DecideTask) (inner : Inner) : Except ProtocolError Task := do
  let task ← checkDecision request inner
  require (workerAlive request.taskId inner) (preconditionFailed
    "the attempt's session has ended; reject with a retry instead")
  return task

/-- A reject without a retry; gives the run and the session that is told the feedback. -/
def rejectTask (request : DecideTask) (feedback : String) (now : Timestamp) :
    Handler (RunId × Option SessionId) := do
  let feedback := (clampText feedback maxMessageBytes).1
  let task ← Section.check (rejectCheck request)
  onLedger (Ledger.setTask request.taskId (Task.returned feedback .active now) fun _ => rfl)
  let newest ← Section.check fun inner => .ok (inner.ledger.newest request.taskId)
  match newest with
  | none => do
    persistTask (task.returned feedback .active now)
    return (task.runId, none)
  | some attempt => do
    onLedger (Ledger.setAttempt attempt.id Attempt.reopened fun _ => rfl)
    persistTask (task.returned feedback .active now)
    persistAttempt attempt.reopened
    return (task.runId, attempt.sessionId)

/-- The budget is spent: the task fails, and the request with it. -/
def exhaustTask (request : DecideTask) (task : Task) (now : Timestamp) : Handler StartAttempt := do
  onLedger (Ledger.setTask request.taskId (Task.become .failed now) fun _ => rfl)
  persistTask (task.become .failed now)
  Section.check fun _ => .error (policy ⟨"max_attempts", "attempt budget is spent"⟩)

/-- The start that follows a reject with a retry. -/
def retryStart (request : DecideTask) (task : Task) (previous : Option Attempt) :
    Except ProtocolError StartAttempt := do
  let provider ← found (request.retryProvider.or (previous.map (·.providerId)))
    (invalidRequest "retry needs a provider")
  return {
    caller := request.caller
    taskId := request.taskId
    providerId := provider
    profileId := request.retryProfile.or (previous.bind (·.profileId))
    placement := if task.mode = .readOnly then .integration else .worktree }

/-- The section of a reject with a retry, up to its start. -/
def retryTask (request : DecideTask) (feedback : String) (limits : OrchestrationLimits)
    (now : Timestamp) : Handler StartAttempt := do
  let feedback := (clampText feedback maxMessageBytes).1
  let task ← Section.check (checkDecision request)
  if task.attemptsUsed ≥ limits.maxAttemptsPerTask then exhaustTask request task now
  else do
    onLedger (Ledger.setTask request.taskId (Task.returned feedback .ready now) fun _ => rfl)
    let newest ← Section.check fun inner => .ok (inner.ledger.newest request.taskId)
    match newest with
    | none => do
      persistTask (task.returned feedback .ready now)
      Section.check fun _ => retryStart request task none
    | some attempt => do
      onLedger (Ledger.setAttempt attempt.id (Attempt.rejected now) fun _ => rfl)
      persistTask (task.returned feedback .ready now)
      persistAttempt (attempt.rejected now)
      Section.check fun _ => retryStart request task (some attempt)

def cancelTask (request : DecideTask) (now : Timestamp) : Handler PUnit := do
  let task ← Section.check (checkDecision request)
  let live ← Section.check fun inner =>
    .ok ((inner.ledger.attemptsOf request.taskId).filter Attempt.isLive)
  onLedger (Ledger.setTask request.taskId (Task.become .cancelled now) fun _ => rfl)
  onLedger (Ledger.cancelAttempts request.taskId now)
  persistTask (task.become .cancelled now)
  Section.each persistAttempt (live.map (Attempt.lost .cancelled now))

end Decisions

section Integration

structure IntegrateTask where
  caller : Option SessionId
  taskId : TaskId
  how : IntegrateHow
  deriving DecidableEq

/-- What `integrate_task` read before it ran git. -/
structure Integrating where
  request : IntegrateTask
  runId : RunId
  branch : Option String
  integration : WorkspaceId
  deriving DecidableEq

def integrateCheck (request : IntegrateTask) (limits : OrchestrationLimits) (inner : Inner) :
    Except ProtocolError Integrating := do
  let task ← found (inner.ledger.tasks.get? request.taskId) (notFound "task")
  let run ← found (inner.ledger.runs.get? task.runId) (notFound "run")
  (allowController request.caller run.controllerSessionId).mapError policy
  (if request.caller.isSome then allowAgentIntegrate false limits.agentMayIntegrate
    else .ok ()).mapError policy
  let integration ← found run.integrationWorkspaceId
    (preconditionFailed "run has no integration workspace")
  return ⟨request, run.id, (inner.ledger.newest request.taskId).bind (·.branch), integration⟩

/-- The status that a merge asks for; gives the branch to merge. -/
def mergeCheck (integrating : Integrating) (inner : Inner) : Except ProtocolError String := do
  require (inner.ledger.taskStatus integrating.request.taskId = some .accepted)
    (preconditionFailed "only an accepted task can be integrated")
  found integrating.branch (preconditionFailed "attempt has no branch to merge")

/-- Integrated, whatever the task's status was. -/
def markIntegrated (task : TaskId) (commit : Option String) (now : Timestamp) : Handler PUnit := do
  let before ← Section.check fun inner => found (inner.ledger.tasks.get? task) (notFound "task")
  onLedger (Ledger.setTask task (Task.become .integrated now) fun _ => rfl)
  onLedger (Ledger.recordCommit task commit)
  let tasks ← Section.check fun inner => .ok (promoteReady (inner.ledger.tasksOf before.runId))
  let attempts ← Section.check fun inner => .ok (inner.ledger.attemptsOf task)
  persistPromoted tasks
  Section.each persistAttempt attempts

def setConflict (run : RunId) : Handler PUnit :=
  onLedger fun ledger => { ledger with conflict := ledger.conflict ++ [run] }

def clearConflict (run : RunId) : Handler PUnit :=
  onLedger fun ledger => { ledger with conflict := ledger.conflict.filter (· != run) }

end Integration

section Messages

structure PostMessage where
  caller : Option SessionId
  runId : RunId
  address : String
  kind : ContextKind
  body : String
  inReplyTo : Option ContextId
  deriving DecidableEq

/-- `resolve_prefix` over the ids of one kind. -/
def resolveId (platform : Platform) (ids : List Nat) (raw what : String) :
    Except ProtocolError Nat :=
  (resolvePrefix platform.display ids raw).mapError fun _ => notFound what

def resolveParsed (platform : Platform) (parsed : ParsedAddress) (inner : Inner) :
    Except ProtocolError Address :=
  match parsed with
  | .controller => .ok .controller
  | .task raw => (resolveId platform inner.ledger.tasks.keys raw "task").map .task
  | .session raw => (resolveId platform inner.sessions.keys raw "session").map .session
  | .run raw => (resolveId platform inner.ledger.runs.keys raw "run").map .run

def Ledger.addressees (ledger : Ledger) (run : RunId) : List LiveAttempt :=
  (ledger.attempts.rows.filter fun attempt =>
    (ledger.tasks.get? attempt.taskId).any fun task => task.runId == run).map
    fun attempt => ⟨attempt.taskId, attempt.sessionId, attempt.n, attempt.isLive⟩

/-- The first section of `post_message`: the targets of its address. -/
def postCheck (platform : Platform) (request : PostMessage) (inner : Inner) :
    Except ProtocolError (List DeliveryTarget) := do
  require (!isBlank (clampText request.body maxMessageBytes).1) (invalidRequest "message is empty")
  let parsed ← (parseAddress request.address).mapError fun _ => invalidRequest "address"
  let run ← found (inner.ledger.runs.get? request.runId) (notFound "run")
  let address ← resolveParsed platform parsed inner
  (resolveAddress address run.controllerSessionId (inner.ledger.addressees request.runId)).mapError
    fun _ => notFound "address"

def targetSession : DeliveryTarget → Option SessionId
  | .session session => some session
  | .humanController => none

def taskOfSession (ledger : Ledger) (session : Option SessionId) : Option TaskId :=
  session.bind fun session => (maxBy (fun best next => best.n ≤ next.n)
    (ledger.attempts.rows.filter fun attempt => attempt.sessionId == some session)).map (·.taskId)

/-- The newest unanswered question whose author is one of the targets. -/
def linkAnswer (inner : Inner) (run : RunId) (targets : List SessionId) : Option ContextId :=
  let envelopes := inner.db.tables.contextEnvelopes.filter fun envelope => envelope.runId == some run
  (envelopes.reverse.find? fun envelope =>
    envelope.kind == some .question && envelope.sourceSessionId.any targets.contains &&
      !envelopes.any fun other => other.kind == some .answer && other.inReplyTo == some
      envelope.id).map
    (·.id)

def replyTo (request : PostMessage) (targets : List SessionId) (inner : Inner) : Option ContextId :=
  request.inReplyTo.or (if request.kind = .answer then linkAnswer inner request.runId targets
    else none)

def PostMessage.envelope (request : PostMessage) (target : DeliveryTarget) (id : ContextId)
    (reply : Option ContextId) (now : Timestamp) (ledger : Ledger) : ContextEnvelope where
  id := id
  sourceSessionId := request.caller
  targetSessionId := targetSession target
  instructions := some (clampText request.body maxMessageBytes).1
  createdAt := now
  runId := some request.runId
  taskId := (taskOfSession ledger request.caller).or (taskOfSession ledger (targetSession target))
  kind := some request.kind
  inReplyTo := reply

/-- The blocked attempts of the sessions whose tasks are still blocked. -/
def blockedAttempts (ledger : Ledger) (sessions : List SessionId) : List Attempt :=
  ledger.attempts.rows.filter fun attempt =>
    attempt.sessionId.any sessions.contains && attempt.phase == .reported &&
      attempt.outcome == some .blocked && ledger.taskStatus attempt.taskId == some .blocked

/-- One pass of `resume_blocked`. -/
def resumeOne (now : Timestamp) (attempt : Attempt) : Handler PUnit := do
  let current ← Section.check fun inner => .ok (inner.ledger.attempts.get? attempt.id)
  match current with
  | none => pure ⟨⟩
  | some current => do
    onLedger (Ledger.setAttempt attempt.id Attempt.resumed fun _ => rfl)
    let task ← Section.check fun inner => .ok (inner.ledger.tasks.get? attempt.taskId)
    match task with
    | none => pure ⟨⟩
    | some task => do
      onLedger (Ledger.setTask attempt.taskId (Task.become .active now) fun _ => rfl)
      persistAttempt current.resumed
      persistTask (task.become .active now)

/-- `Blocked ──answer/send──► Active` on the same attempt. -/
def resumeBlocked (sessions : List SessionId) (now : Timestamp) : Handler PUnit := do
  let attempts ← Section.check fun inner => .ok (blockedAttempts inner.ledger sessions)
  Section.each (resumeOne now) attempts

/-- The second section of `post_message`: an envelope for each target, then the resumption. -/
def deliverMessage (request : PostMessage) (resolved : List DeliveryTarget) (firstId : ContextId)
    (now : Timestamp) : Handler PUnit := do
  Section.check fun _ => require (!resolved.isEmpty) (notFound "no live attempt to message")
  let targets := resolved.filterMap targetSession
  let reply ← Section.check fun inner => .ok (replyTo request targets inner)
  let ledger ← Section.check fun inner => .ok inner.ledger
  Section.each (fun (target, index) => persist (execute (insertEnvelope
    (request.envelope target (firstId + index) reply now ledger)))) resolved.zipIdx
  resumeBlocked targets now

end Messages

section Board

structure SetState where
  caller : Option SessionId
  runId : RunId
  key : String
  valueJson : String
  expectedVersion : Nat
  delete : Bool
  deriving DecidableEq

def boardErr : BoardValueError → ProtocolError
  | .oversize len => invalidRequest s!"board value is {len} bytes"
  | .notJson => invalidRequest "board value is not json"

/-- The value of a write, checked before the lock; a delete has none. -/
def checkBoardValue (platform : Platform) (request : SetState) : Except ProtocolError Unit :=
  if request.delete then .ok ()
  else match boardValue platform.isJson request.valueJson with
    | .error error => .error (boardErr error)
    | .ok _ => .ok ()

/-- The compare-and-set of a board write; a delete needs an entry. -/
def checkBoardVersion (request : SetState) (current : Option Nat) : Except ProtocolError Unit :=
  match compareAndSet current request.expectedVersion with
  | .mismatch current => .error (versionConflict current)
  | .created => require (!request.delete) (versionConflict 0)
  | .updated _ => .ok ()

/-- What `set_state` refuses; gives the entry's version. -/
def setStateCheck (platform : Platform) (request : SetState) (inner : Inner) :
    Except ProtocolError (Option Nat) := do
  require (validBoardKey request.key)
    (invalidRequest "board key must match [a-z0-9._/-]\x7b1,128\x7d")
  checkBoardValue platform request
  require (inner.ledger.runs.get? request.runId).isSome (notFound "run")
  let current := (inner.ledger.board.get? (request.runId, request.key)).map (·.version)
  let write := if current.isNone && !request.delete then BoardWrite.addsKey else .keepsKeyCount
  require (!boardIsFull (inner.ledger.board.count fun entry => entry.runId == request.runId) write)
    (policy ⟨"max_board_keys", "run board is full"⟩)
  checkBoardVersion request current
  return current

def SetState.entry (request : SetState) (current : Option Nat) (now : Timestamp) : BoardEntry where
  runId := request.runId
  key := request.key
  valueJson := request.valueJson
  version := current.getD 0 + 1
  updatedBy := request.caller
  updatedAt := now

/-- A delete changes memory first, a write the table first. -/
def setState (platform : Platform) (request : SetState) (now : Timestamp) : Handler PUnit := do
  let current ← Section.check (setStateCheck platform request)
  if request.delete then do
    onLedger fun ledger => { ledger with
      board := ledger.board.retain fun entry => entry.place != (request.runId, request.key) }
    persist (deleteBoard request.runId request.key)
  else do
    persist (upsertBoard (request.entry current now))
    onLedger fun ledger => { ledger with board := ledger.board.put (request.entry current now) }

end Board

section Removals

/-- `persist_forgotten`: every row that a removal changed; a failure is only logged. -/
def persistForgotten (runs : List Run) (tasks : List Task) (attempts : List Attempt) :
    Handler PUnit := do
  Section.each (fun run => Section.ignore (persist (updateRun run))) runs
  Section.each (fun task => Section.ignore (persistTask task)) tasks
  Section.each (fun attempt => Section.ignore (persistAttempt attempt)) attempts

/-- The cache's half of a session's removal, after its row is gone. -/
def removeSessionCache (session : SessionId) (now : Timestamp) : Handler PUnit := do
  let before ← Section.check fun inner => .ok inner.ledger
  onLedger (Ledger.forgetSession session now)
  persistForgotten
    ((before.runs.rows.filter fun run => run.controllerSessionId == some session).map
      (Run.forgetSession session))
    ((before.tasks.rows.filter fun task => before.loses session task && task.status.inProgress).map
      (Task.loseAttempt before.maxAttemptsPerTask now))
    ((before.attempts.rows.filter fun attempt => attempt.sessionId == some session).map
      (Attempt.forgetSession session now))
  Section.change fun inner =>
    { inner with sessions := inner.sessions.retain fun row => row.id != session }

/-- `delete_session_locked`. -/
def deleteSession (session : SessionId) (now : Timestamp) : Handler PUnit := do
  persist (execute (deleteSessionRow session))
  removeSessionCache session now

/-- `drop_workspace_rows`: its sessions, its row, its cache. -/
def dropWorkspace (workspace : WorkspaceId) (now : Timestamp) : Handler PUnit := do
  let sessions ← Section.check fun inner =>
    .ok (inner.sessions.rows.filter fun session => session.workspaceId == workspace)
  Section.each (fun (session : Session) => deleteSession session.id now) sessions
  persist (execute (deleteWorkspaceRow workspace))
  Section.change fun inner =>
    { inner with workspaces := inner.workspaces.retain fun row => row.id != workspace }
  let before ← Section.check fun inner => .ok inner.ledger
  onLedger (Ledger.forgetWorkspace workspace)
  persistForgotten
    ((before.runs.rows.filter fun run => run.integrationWorkspaceId == some workspace).map
      (Run.forgetWorkspace workspace))
    []
    ((before.attempts.rows.filter fun attempt => attempt.workspaceId == some workspace).map
      (Attempt.forgetWorkspace workspace))

/-- The locked end of `remove_project`: every row first, then the caches. -/
def removeProject (project : ProjectId) (now : Timestamp) : Handler PUnit := do
  let workspaces ← Section.check fun inner =>
    .ok ((inner.workspaces.rows.filter fun row => row.projectId == project).map (·.id))
  let sessions ← Section.check fun inner =>
    .ok ((inner.sessions.rows.filter fun row => workspaces.contains row.workspaceId).map (·.id))
  Section.each (fun session => persist (execute (deleteSessionRow session))) sessions
  Section.each (fun workspace => persist (execute (deleteWorkspaceRow workspace))) workspaces
  persist (execute (deleteProjectRow project))
  onLedger (Ledger.forgetProject project)
  Section.each (fun session => removeSessionCache session now) sessions
  Section.change fun inner =>
    { inner with
      workspaces := inner.workspaces.retain fun row => !workspaces.contains row.id
      projects := inner.projects.filter (· != project) }

/-- `note_session_exit`: the first live attempt of the session is lost. -/
def noteSessionExit (session : SessionId) (limits : OrchestrationLimits) (now : Timestamp) :
    Handler PUnit := do
  let live ← Section.check fun inner => .ok (inner.ledger.attempts.rows.find? fun attempt =>
    attempt.sessionId == some session && attempt.isLive)
  match live with
  | none => pure ⟨⟩
  | some attempt => do
    onLedger (Ledger.setAttempt attempt.id (Attempt.lost .exitedWithoutReport now) fun _ => rfl)
    onLedger (Ledger.setTask attempt.taskId (Task.loseAttempt limits.maxAttemptsPerTask now)
      fun task => by unfold Task.loseAttempt; split <;> rfl)
    let task ← Section.check fun inner => .ok (inner.ledger.tasks.get? attempt.taskId)
    Section.ignore (persistAttempt (attempt.lost .exitedWithoutReport now))
    Section.each (fun task => Section.ignore (persistTask task)) task.toList

end Removals

section Startup

/-- Put listed rows into a map. -/
def collect {α κ : Type} [DecidableEq κ] (key : α → κ) (rows : List α) : Store key :=
  rows.foldl (fun store row => store.put row) Store.empty

def loadLedger (limits : OrchestrationLimits) (tables : Tables) : Except DbError Ledger := do
  let runs ← listRuns tables
  let tasks ← listTasks tables
  let attempts ← listAttempts tables
  return {
    runs := collect Run.id runs
    tasks := collect Task.id tasks
    attempts := collect Attempt.id attempts
    board := collect BoardEntry.place (runs.flatMap fun run => listBoard tables run.id)
    conflict := []
    maxAttemptsPerTask := limits.maxAttemptsPerTask
    resuming := [] }

/-- What `reconcile_startup` lists. -/
def listAll (db : Database) : Except DbError (List Run × List Task × List Attempt) := do
  let runs ← listRuns db.tables
  let tasks ← listTasks db.tables
  let attempts ← listAttempts db.tables
  return (runs, tasks, attempts)

def reconcileStartup (limits : OrchestrationLimits) (now : Timestamp) : Statement := do
  let (runs, tasks, attempts) ← Section.check listAll
  if runs.isEmpty && attempts.isEmpty then pure ⟨⟩
  else do
    let reconciled := reconcileRestart runs tasks attempts limits now
    Section.each updateRun reconciled.runs
    Section.each updateTask reconciled.tasks
    Section.each updateAttempt reconciled.attempts

/-- Startup: reconcile, drop or orphan the sessions, then load. -/
def loadDaemon (limits : OrchestrationLimits) (persistHistory : Bool) (now : Timestamp) :
    Handler PUnit := do
  persist (reconcileStartup limits now)
  persist (execute (if persistHistory then reconcileOrphaned else purgeSessions))
  let ledger ← Section.check fun inner => (loadLedger limits inner.db.tables).mapError dbErr
  Section.change fun inner => { inner with
    ledger
    sessions := inner.db.tables.sessions
    workspaces := inner.db.tables.workspaces
    projects := inner.db.tables.projects }

end Startup

end ForgeNode.Orchestration
