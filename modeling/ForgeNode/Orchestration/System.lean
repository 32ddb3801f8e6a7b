import ForgeNode.Lib.Run
import ForgeNode.Orchestration.Handlers

/-! The daemon as a state machine: requests split at their lock acquisitions, interleaved
with each other, with sessions that exit or go away, and with restarts. -/

namespace ForgeNode.Orchestration

/-- A call between two of its critical sections, or a notification still to be handled. -/
inductive Call where
  | createRun (request : CreateRun)
  | start (request : StartAttempt)
  | planned (plan : StartPlan)
  | spawned (spawned : Spawned)
  | reporting (reporting : Reporting)
  | posting (request : PostMessage)
  | delivering (request : PostMessage) (resolved : List DeliveryTarget)
  | locating (integrating : Integrating)
  | integrating (integrating : Integrating)
  | merging (integrating : Integrating) (branch : String)
  | clearingConflict (run : RunId)
  | closing (request : CloseRun) (tasks : List TaskId) (integration : Option WorkspaceId)
  | cancelling (request : CloseRun) (task : TaskId) (revision : Nat) (rest : List TaskId)
      (integration : Option WorkspaceId)
  | resuming (run : RunId) (workspace : Option WorkspaceId)
  | releasing (run : RunId)
  | exiting (session : SessionId)
  deriving DecidableEq

inductive Request where
  | createRun (request : CreateRun)
  | updateBrief (caller : Option SessionId) (run : RunId) (brief : String) (expectedVersion : Nat)
  | closeRun (request : CloseRun)
  | resumeRun (caller : Option SessionId) (run : RunId)
  | createTask (request : CreateTask)
  | runTask (request : CreateTask) (start : StartAttempt)
  | startAttempt (request : StartAttempt)
  | reportAttempt (request : ReportAttempt)
  | decideTask (request : DecideTask)
  | integrateTask (request : IntegrateTask)
  | postMessage (request : PostMessage)
  | setState (request : SetState)

/-- What the world outside the core lock answered a call. -/
inductive Answer where
  | proceed
  | failed (error : ProtocolError)
  | placed (branch : String) (workspace : WorkspaceId) (session : Except ProtocolError SessionId)
  | checkout (materialized : Materialized)
  | facts (facts : ReportFacts)
  | finished (head : Option String)
  | conflict
  | controller (session : SessionId)

inductive Cause where
  | request (request : Request)
  | advance (index : Nat) (answer : Answer)
  | addProject (project : ProjectId)
  | addWorkspace (workspace : Workspace)
  | addSession (session : Session)
  | moveSession (session : SessionId) (state : SessionState)
  | removeSession (session : SessionId)
  | removeWorkspace (workspace : WorkspaceId)
  | removeProject (project : ProjectId)
  | reorder (runs : Store Run.id) (tasks : Store Task.id) (attempts : Store Attempt.id)
      (board : Store BoardEntry.place)
  | restart (persistHistory : Bool)

/-- A cause with the clock, the next random id and the faults of the coming statements. -/
structure Event where
  cause : Cause
  now : Timestamp
  fresh : Nat
  faults : List Bool

/-- The daemon with the calls that are under way. While it is down, only a restart happens. -/
structure World where
  inner : Inner
  calls : List Call
  up : Bool
  deriving DecidableEq

section Sections

variable (platform : Platform) (limits : OrchestrationLimits)

/-- The end of `reject_task`: the worker is told its feedback. -/
def feedbackMessage (request : DecideTask) (feedback : String) (run : RunId) (session : SessionId) :
    PostMessage where
  caller := request.caller
  runId := run
  address := "session:" ++ platform.display session
  kind := .feedback
  body := (clampText feedback maxMessageBytes).1
  inReplyTo := none

def decideTask (request : DecideTask) (now : Timestamp) : Handler (List Call) :=
  match request.decision with
  | .accept _ => do
    acceptTask request now
    return []
  | .reject feedback false => do
    let (run, session) ← rejectTask request feedback now
    return session.toList.map fun session =>
      .posting (feedbackMessage platform request feedback run session)
  | .reject feedback true => do
    let start ← retryTask request feedback limits now
    return [.start start]
  | .cancel _ => do
    cancelTask request now
    return []
  | .unrecognized => Section.check fun _ => .error (.invalidRequest "decision")

/-- The first section of a request, with the call it leaves under way. -/
def runRequest (request : Request) (now : Timestamp) (fresh : Nat) : Handler (List Call) :=
  match request with
  | .createRun request => do
    Section.check (createRunCheck request limits)
    return [.createRun request]
  | .updateBrief caller run brief expectedVersion => do
    updateBrief caller run brief expectedVersion now
    return []
  | .closeRun request => do
    let (tasks, integration) ← Section.check (closeRunCheck request limits)
    return [.closing request (if request.cancel then tasks else []) integration]
  | .resumeRun caller run => do
    let workspace ← claimResume caller run
    return [.resuming run workspace]
  | .createTask request => do
    let _ ← createTask request limits fresh now
    return []
  | .runTask request start => do
    let task ← createTask request limits fresh now
    return [.start { start with taskId := task }]
  | .startAttempt request => do
    let plan ← Section.check (planStart request limits)
    return [.planned plan]
  | .reportAttempt request => do
    let reporting ← Section.check (reportCheck request)
    return [.reporting reporting]
  | .decideTask request => decideTask platform limits request now
  | .integrateTask request => do
    let integrating ← Section.check (integrateCheck request limits)
    return [.locating integrating]
  | .postMessage request => do
    let targets ← Section.check (postCheck platform request)
    return [.delivering request targets]
  | .setState request => do
    setState platform request now
    return []

/-- `close_run` cancels a task at the revision it read. -/
def closingDecision (request : CloseRun) (task : TaskId) (revision : Nat) : DecideTask where
  caller := request.caller
  taskId := task
  expectedRevision := revision
  decision := .cancel true
  retryProvider := none
  retryProfile := none

/-- What git answered `integrate_task`, by the way of integrating. -/
def integrate (integrating : Integrating) (answer : Answer) (now : Timestamp) :
    Handler (List Call) :=
  match integrating.request.how, answer with
  | .continue, .finished head => do
    markIntegrated integrating.request.taskId head now
    return [.clearingConflict integrating.runId]
  | .continue, .conflict => do
    setConflict integrating.runId
    return []
  | .abort, .finished _ => return [.clearingConflict integrating.runId]
  | .merge _, .proceed => do
    let branch ← Section.check (mergeCheck integrating)
    return [.merging integrating branch]
  | .unrecognized, .proceed => Section.check fun _ => .error (.invalidRequest "integrate how")
  | _, .failed error => Section.check fun _ => .error error
  | _, _ => return [.integrating integrating]

/-- The next section of a call, with what is still under way after it. -/
def runCall (call : Call) (answer : Answer) (now : Timestamp) (fresh : Nat) : Handler (List Call) :=
  match call, answer with
  | .createRun request, .placed branch workspace session => do
    createRun request (branch, workspace) session fresh now
    return []
  | .start request, .proceed => do
    let plan ← Section.check (planStart request limits)
    return [.planned plan]
  | .planned plan, .checkout materialized => do
    spawnWorker materialized.workspace fresh
    return [.spawned ⟨plan, materialized, fresh⟩]
  | .spawned spawned, .proceed => do
    commitStart spawned limits fresh now
    return []
  | .reporting reporting, .facts facts => do
    reportAttempt reporting facts limits now
    return []
  | .posting request, .proceed => do
    let targets ← Section.check (postCheck platform request)
    return [.delivering request targets]
  | .delivering request targets, .proceed => do
    deliverMessage request targets fresh now
    return []
  | .locating integrating, .proceed => do
    Section.check fun inner =>
      require (inner.workspaces.get? integrating.integration).isSome (.notFound "workspace")
    return [.integrating integrating]
  | .integrating integrating, answer => integrate integrating answer now
  | .merging integrating _, .finished head => do
    markIntegrated integrating.request.taskId head now
    return [.clearingConflict integrating.runId]
  | .merging integrating _, .conflict => do
    setConflict integrating.runId
    return []
  | .clearingConflict run, .proceed => do
    clearConflict run
    return []
  | .closing request [] integration, .proceed => do
    Section.check fun _ => openPullRequest request integration (.ok ())
    closeRun request now
    return []
  | .closing request (task :: rest) integration, .proceed => do
    let current ← Section.check fun inner => .ok (inner.ledger.tasks.get? task)
    return [match current with
      | some current => .cancelling request task current.revision rest integration
      | none => .closing request rest integration]
  | .cancelling request task revision rest integration, .proceed => do
    Section.ignore (cancelTask (closingDecision request task revision) now)
    return [.closing request rest integration]
  | .resuming run (some _), .controller session => do
    Section.ignore (resumeRun run session now)
    return [.releasing run]
  | .resuming run none, .proceed => return [.releasing run]
  | .resuming run _, .failed _ => return [.releasing run]
  | .releasing run, .proceed => do
    releaseClaim run
    return []
  | .exiting session, .proceed => do
    noteSessionExit session limits now
    return []
  | _, .failed error => Section.check fun _ => .error error
  | call, _ => return [call]

def addSession (session : Session) : Handler PUnit := do
  persist (execute (insertSessionRow session))
  Section.change fun inner => { inner with sessions := inner.sessions.put session }

def addWorkspace (workspace : Workspace) : Handler PUnit := do
  persist (execute (insertWorkspaceRow workspace))
  Section.change fun inner => { inner with workspaces := inner.workspaces.put workspace }

def addProject (project : ProjectId) : Handler PUnit := do
  persist (execute fun tables => .ok { tables with projects := project :: tables.projects })
  Section.change fun inner => { inner with projects := project :: inner.projects }

theorem Session.id_moved (state : SessionState) (row : Session) :
    ({ row with state } : Session).id = row.id := rfl

/-- `set_session_state`. -/
def moveSession (session : SessionId) (state : SessionState) : Handler PUnit := do
  let current ← Section.check fun inner => found (inner.sessions.get? session)
    (.notFound "session")
  Section.check fun _ => require (current.state.canTransitionTo state)
    (.internal "invalid session state transition rejected")
  Section.change fun inner => { inner with
    sessions := inner.sessions.modify session (fun row => { row with state })
      (Session.id_moved state) }
  Section.ignore (persist (execute (updateSessionState session state)))

/-- An exit is told to the ledger in a later section. -/
def exitNotice (session : SessionId) (state : SessionState) : List Call :=
  if state = .exited then [.exiting session] else []

end Sections

namespace World

/-- Every id that anything in the ledger, the tables or a call under way holds. -/
def names (world : World) : List Nat :=
  let ledger := world.inner.ledger
  let tables := world.inner.db.tables
  let ofCall : Call → List Nat
    | .start request => [request.taskId]
    | .planned plan => [plan.task.id, plan.run.id]
    | .spawned spawned => [spawned.plan.task.id, spawned.plan.run.id, spawned.session]
    | .reporting reporting => [reporting.request.attemptId, reporting.taskId]
    | .locating integrating | .integrating integrating | .merging integrating _ =>
      [integrating.request.taskId, integrating.runId]
    | .closing request tasks _ => request.runId :: tasks
    | .cancelling request task _ rest _ => request.runId :: task :: rest
    | .resuming run _ | .releasing run | .clearingConflict run => [run]
    | .exiting session => [session]
    | .delivering _ targets => targets.filterMap targetSession
    | .createRun request => request.parentAttemptId.toList
    | .posting _ => []
  ledger.runs.keys ++ ledger.runs.rows.filterMap (·.parentAttemptId) ++ ledger.tasks.keys ++
    ledger.attempts.keys ++ ledger.tasks.rows.map (·.runId) ++ ledger.attempts.rows.map (·.taskId) ++
    ledger.attempts.rows.filterMap (·.sessionId) ++ world.inner.sessions.keys ++
    tables.runs.keys ++ tables.tasks.keys ++ tables.attempts.keys ++
    tables.tasks.rows.map (·.runId) ++ tables.attempts.rows.map (·.taskId) ++
    tables.attempts.rows.filterMap (·.sessionId) ++ tables.sessions.keys ++
    world.calls.flatMap ofCall

/-- A worktree of its own only where the placement and the mode ask for one. -/
def fits (plan : StartPlan) (materialized : Materialized) : Bool :=
  (plan.request.placement == .worktree && plan.task.mode != .readOnly) ||
    materialized.workspace == plan.workspaceHint

/-- The answers that a call waits for. -/
def awaits : Call → Answer → Bool
  | .createRun _, .placed _ _ _ | .createRun _, .failed _ => true
  | .planned plan, .checkout materialized => fits plan materialized
  | .planned _, .failed _ | .reporting _, .facts _ => true
  | .integrating integrating, answer =>
    match integrating.request.how, answer with
    | .continue, .finished _ | .continue, .conflict | .continue, .failed _ => true
    | .abort, .finished _ | .abort, .failed _ => true
    | .merge _, .proceed | .unrecognized, .proceed => true
    | _, _ => false
  | .merging _ _, .finished _ | .merging _ _, .conflict | .merging _ _, .failed _ => true
  | .closing request [] _, .failed _ => request.pullRequest
  | .resuming _ (some _), .controller _ | .resuming _ (some _), .failed _ => true
  | .resuming _ none, .proceed => true
  | .start _, .proceed | .spawned _, .proceed | .posting _, .proceed | .delivering _ _, .proceed
  | .locating _, .proceed | .clearingConflict _, .proceed | .closing _ _ _, .proceed
  | .cancelling _ _ _ _ _, .proceed | .releasing _, .proceed | .exiting _, .proceed => true
  | _, _ => false

/-- What can happen beside drawing new ids: a call gets an answer it waits for, a map is
only ever reordered, and a daemon that is down can only be started. -/
def permits (world : World) : Cause → Bool
  | .advance index answer => world.up && world.calls[index]?.any fun call => awaits call answer
  | .addSession session => world.up && !world.names.contains session.id && session.state != .exited
  | .moveSession _ state => world.up && state != .orphaned
  | .reorder runs tasks attempts board =>
    world.up && decide (runs.Reordered world.inner.ledger.runs) &&
      decide (tasks.Reordered world.inner.ledger.tasks) &&
      decide (attempts.Reordered world.inner.ledger.attempts) &&
      decide (board.Reordered world.inner.ledger.board)
  | .restart _ => true
  | _ => world.up

/-- A drawn id is new. -/
def Allows (world : World) (event : Event) : Prop :=
  event.fresh ∉ world.names ∧ world.permits event.cause = true

instance (world : World) (event : Event) : Decidable (world.Allows event) :=
  inferInstanceAs (Decidable (_ ∧ _))

variable (platform : Platform) (limits : OrchestrationLimits)

/-- A section that an event starts: on an error the call is over. -/
def enter (world : World) (others : List Call) (program : Handler (List Call)) : World :=
  match program.run world.inner with
  | (.ok calls, inner) => { world with inner, calls := others ++ calls }
  | (.error _, inner) => { world with inner, calls := others }

/-- The state an event meets: the faults of its statements are laid out. -/
def meeting (world : World) (event : Event) : World :=
  { world with inner := { world.inner with db := { world.inner.db with faults := event.faults } } }

def step (world : World) (event : Event) : World :=
  let world := world.meeting event
  let done (program : Handler PUnit) : Handler (List Call) := program >>= fun _ => pure []
  match event.cause with
  | .request request =>
    world.enter world.calls (runRequest platform limits request event.now event.fresh)
  | .advance index answer =>
    match world.calls[index]? with
    | none => world
    | some call => world.enter (world.calls.eraseIdx index)
      (runCall platform limits call answer event.now event.fresh)
  | .addProject project => world.enter world.calls (done (addProject project))
  | .addWorkspace workspace => world.enter world.calls (done (addWorkspace workspace))
  | .addSession session => world.enter world.calls (done (addSession session))
  | .moveSession session state => world.enter world.calls
      (moveSession session state >>= fun _ => pure (exitNotice session state))
  | .removeSession session => world.enter world.calls (done (deleteSession session event.now))
  | .removeWorkspace workspace => world.enter world.calls (done (dropWorkspace workspace event.now))
  | .removeProject project => world.enter world.calls (done (removeProject project event.now))
  | .reorder runs tasks attempts board =>
    { world with inner := { world.inner with ledger := { world.inner.ledger with
      runs, tasks, attempts, board } } }
  | .restart persistHistory =>
    let result := (loadDaemon limits persistHistory event.now).run world.inner
    ⟨result.2, [], result.1.isOk⟩

/-- A fresh installation: nothing stored and nothing under way. -/
def initial : World where
  inner := {
    ledger := ⟨Store.empty, Store.empty, Store.empty, Store.empty, [], limits.maxAttemptsPerTask, []⟩
    sessions := Store.empty
    workspaces := Store.empty
    projects := []
    db := ⟨⟨[], Store.empty, Store.empty, Store.empty, Store.empty, Store.empty, Store.empty,
      Store.empty, []⟩, [], 0⟩ }
  calls := []
  up := true

/-- One allowed event. -/
def Step (before : World) (event : Event) (after : World) : Prop :=
  before.Allows event ∧ after = before.step platform limits event

/-- Where a list of events leads, and the steps on the way. -/
def replay (world : World) : List Event → World
  | [] => world
  | event :: rest => (world.step platform limits event).replay rest

def trace (world : World) : List Event → List (Taken World Event)
  | [] => []
  | event :: rest =>
    ⟨world, event, world.step platform limits event⟩ :: (world.step platform limits event).trace rest

/-- Each event of a list is allowed when its turn comes. -/
def admits (world : World) : List Event → Bool
  | [] => true
  | event :: rest => decide (world.Allows event) && (world.step platform limits event).admits rest

theorem run_of_admits {world : World} {events : List Event}
    (admitted : world.admits platform limits events = true) :
    ForgeNode.Run (Step platform limits) world (world.trace platform limits events)
      (world.replay platform limits events) := by
  induction events generalizing world with
  | nil => exact .nil
  | cons event rest ih =>
    obtain ⟨here, later⟩ := Bool.and_eq_true_iff.mp admitted
    exact .cons ⟨of_decide_eq_true here, rfl⟩ (ih later)

/-- The worlds that some interleaving of events leads to. -/
def Reachable (world : World) : Prop :=
  ∃ steps, ForgeNode.Run (Step platform limits) (initial limits) steps world

end World

end ForgeNode.Orchestration
