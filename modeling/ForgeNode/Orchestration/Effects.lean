import ForgeNode.Orchestration.Statements

/-! What one critical section can do to the ledger and to the sessions beside it, and that
each section of the daemon does one of these things, whichever of its writes fail. -/

namespace ForgeNode.Orchestration

/-- What a section is about to do without asking the ledger whether it still may. -/
structure Intent where
  reopened : List Attempt
  accepted : Option TaskId
  integrated : Option TaskId
  resumed : Option RunId
  committed : Option Spawned
  exiting : Option SessionId
  dropped : Option ProjectId
  reported : Option Reporting
  posted : Option SetState

/-- The rows in memory after a section that leaves the sessions alone. -/
structure Leaves (inner after : Inner) (runs : Store Run.id) (tasks : Store Task.id)
    (attempts : Store Attempt.id) : Prop where
  runs : after.ledger.runs = runs
  tasks : after.ledger.tasks = tasks
  attempts : after.ledger.attempts = attempts
  sessions : after.sessions = inner.sessions
  board : after.ledger.board = inner.ledger.board

/-- What the commit of a start found under its lock. -/
structure MayStart (limits : OrchestrationLimits) (run : RunId) (workspace : WorkspaceId)
    (ledger : Ledger) (task : Task) : Prop where
  runOpen : ∃ row, ledger.runs.get? run = some row ∧ row.status.isOpen = true
  found : ledger.tasks.get? task.id = some task
  startable : task.status.startable = true
  room : ledger.activeIn run < limits.maxActiveAttemptsPerRun
  budget : task.attemptsUsed < limits.maxAttemptsPerTask
  writer : task.mode = .write → ledger.hasWriter workspace = false

/-- A task is itself, or was promoted among the tasks of its run. -/
def Promotion (tasks : List Task) (before after : Task) : Prop :=
  after = before ∨ (before ∈ tasks ∧ before.status = .pending ∧
    dependenciesMet before.after (statusIn tasks) = true) ∧ after = { before with status := .ready }

/-- The tasks that a promotion reads once one of them is accepted or integrated. -/
def Ledger.settling (ledger : Ledger) (task : Task) (status : TaskStatus) (now : Timestamp) :
    List Task :=
  (ledger.setTask task.id (Task.become status now) fun _ => rfl).tasksOf task.runId

/-- A task goes to `Active` when one of its attempts is handed back, and else stays. -/
def Answers (done : List Attempt) (before after : Task) : Prop :=
  after.runId = before.runId ∧ after.mode = before.mode ∧
    after.attemptsUsed = before.attemptsUsed ∧
    ((∃ attempt ∈ done, attempt.taskId = before.id) →
      after.status = .active ∧ before.revision < after.revision) ∧
    ((∀ attempt ∈ done, attempt.taskId ≠ before.id) → after = before)

/-- An attempt is handed back, or stays as it is. -/
def HandedBack (done : List Attempt) (before after : Attempt) : Prop :=
  (before ∈ done → after = before.resumed) ∧ (before ∉ done → after = before)

/-- One removal of a row that the ledger refers to. -/
inductive Removal (dropped : Option ProjectId) (inner after : Inner) : Prop where
  | still (left : Leaves inner after inner.ledger.runs inner.ledger.tasks inner.ledger.attempts)
      (budget : after.ledger.maxAttemptsPerTask = inner.ledger.maxAttemptsPerTask)
  | session (session : SessionId) (now : Timestamp)
      (ledger : after.ledger = inner.ledger.forgetSession session now)
      (sessions : after.sessions = inner.sessions.retain fun row => row.id != session)
  | workspace (workspace : WorkspaceId) (ledger : after.ledger =
      inner.ledger.forgetWorkspace workspace) (sessions : after.sessions = inner.sessions)
  | project (project : ProjectId) (intended : dropped = some project)
      (ledger : after.ledger = inner.ledger.forgetProject project)
      (sessions : after.sessions = inner.sessions)

/-- What a section did, by the rows it changed in memory. -/
inductive Effect (limits : OrchestrationLimits) (now : Timestamp) (fresh : Nat) (intent : Intent)
    (inner after : Inner) : Prop where
  | still (left : Leaves inner after inner.ledger.runs inner.ledger.tasks inner.ledger.attempts)
  | opened (run : Run) (named : run.id = fresh) (status : run.status = .active)
      (left : Leaves inner after (inner.ledger.runs.put run) inner.ledger.tasks inner.ledger.attempts)
  | briefed (run : RunId) (brief : String)
      (left : Leaves inner after (inner.ledger.runs.modify run (Run.briefed brief now) fun _ => rfl)
        inner.ledger.tasks inner.ledger.attempts)
  | closed (run : RunId) (cancel : Bool)
      (left : Leaves inner after (inner.ledger.runs.modify run (Run.close cancel now) fun _ => rfl)
        inner.ledger.tasks inner.ledger.attempts)
  | resumed (run : RunId) (session : SessionId) (intended : intent.resumed = some run)
      (left : Leaves inner after (inner.ledger.runs.modify run (Run.resume session now) fun _ => rfl)
        inner.ledger.tasks inner.ledger.attempts)
  | created (task : Task) (named : task.id = fresh) (unused : task.attemptsUsed = 0)
      (status : task.status = .pending ∨ task.status = .ready) (mode : task.mode ≠ .unrecognized)
      (left : Leaves inner after inner.ledger.runs (inner.ledger.tasks.put task)
        inner.ledger.attempts)
  | stranded (run : RunId) (workspace : WorkspaceId) (task : Task)
      (may : MayStart limits run workspace inner.ledger task)
      (failed : inner.db.failures < after.db.failures)
      (left : Leaves inner after inner.ledger.runs (inner.ledger.tasks.modify task.id
        (Task.started (task.attemptsUsed + 1) now) fun _ => rfl) inner.ledger.attempts)
  | started (spawned : Spawned) (task : Task)
      (may : MayStart limits spawned.plan.run.id spawned.materialized.workspace inner.ledger task)
      (same : task.id = spawned.plan.task.id) (committed : intent.committed = some spawned)
      (session : inner.db.tables.hasSession (some spawned.session) = true)
      (passed : (commitStartCheck spawned limits inner).isOk = true)
      (left : Leaves inner after inner.ledger.runs (inner.ledger.tasks.modify task.id
          (Task.started (task.attemptsUsed + 1) now) fun _ => rfl)
        (inner.ledger.attempts.put (spawned.attempt fresh (task.attemptsUsed + 1) now)))
  | reported (reporting : Reporting) (report : AttemptReport) (attempt : Attempt)
      (found : inner.ledger.attempts.get? reporting.request.attemptId = some attempt)
      (live : attempt.isLive = true) (newest : hasNewer inner.ledger attempt = false)
      (own : reporting.request.caller.isSome = true ∧ reporting.request.caller = attempt.sessionId)
      (intended : intent.reported = some reporting)
      (left : Leaves inner after inner.ledger.runs (inner.ledger.tasks.modify reporting.taskId
          (Task.become (reporting.status limits) now) fun _ => rfl)
        (inner.ledger.attempts.modify attempt.id (Attempt.reported report now) fun _ => rfl))
  | accepted (task : Task) (found : inner.ledger.tasks.get? task.id = some task)
      (status : task.status = .review ∨ task.status = .blocked)
      (intended : intent.accepted = some task.id) (tasks : Store Task.id)
      (promoted : Store.Rewritten (Promotion (inner.ledger.settling task .accepted now))
        (inner.ledger.tasks.modify task.id (Task.become .accepted now) fun _ => rfl) tasks)
      (left : Leaves inner after inner.ledger.runs tasks inner.ledger.attempts)
  | reopened (feedback : String) (task : Task) (found : inner.ledger.tasks.get? task.id = some task)
      (status : task.status = .review ∨ task.status = .blocked) (attempt : Attempt)
      (newest : inner.ledger.newest task.id = some attempt) (intended : attempt ∈ intent.reopened)
      (alive : ∃ session, attempt.sessionId.bind inner.sessions.get? = some session ∧
        session.state.isTerminal = false)
      (left : Leaves inner after inner.ledger.runs (inner.ledger.tasks.modify task.id
          (Task.returned feedback .active now) fun _ => rfl)
        (inner.ledger.attempts.modify attempt.id Attempt.reopened fun _ => rfl))
  | exhausted (task : Task) (found : inner.ledger.tasks.get? task.id = some task)
      (status : task.status = .review ∨ task.status = .blocked)
      (left : Leaves inner after inner.ledger.runs (inner.ledger.tasks.modify task.id
        (Task.become .failed now) fun _ => rfl) inner.ledger.attempts)
  | retried (feedback : String) (task : Task) (found : inner.ledger.tasks.get? task.id = some task)
      (status : task.status = .review ∨ task.status = .blocked) (attempts : Store Attempt.id)
      (rejected : (inner.ledger.newest task.id = none ∧ attempts = inner.ledger.attempts) ∨
        ∃ attempt, inner.ledger.newest task.id = some attempt ∧
          attempts = inner.ledger.attempts.modify attempt.id (Attempt.rejected now) fun _ => rfl)
      (left : Leaves inner after inner.ledger.runs (inner.ledger.tasks.modify task.id
        (Task.returned feedback .ready now) fun _ => rfl) attempts)
  | cancelled (task : Task) (found : inner.ledger.tasks.get? task.id = some task)
      (status : task.status.isFinal = false)
      (left : Leaves inner after inner.ledger.runs (inner.ledger.tasks.modify task.id
          (Task.become .cancelled now) fun _ => rfl)
        (inner.ledger.cancelAttempts task.id now).attempts)
  | integrated (commit : Option String) (task : Task)
      (found : inner.ledger.tasks.get? task.id = some task)
      (intended : intent.integrated = some task.id) (tasks : Store Task.id)
      (promoted : Store.Rewritten (Promotion (inner.ledger.settling task .integrated now))
        (inner.ledger.tasks.modify task.id (Task.become .integrated now) fun _ => rfl) tasks)
      (attempts : Store Attempt.id)
      (marked : Store.Rewritten (fun before after => after = before ∨
        after = { before with integratedCommit := commit }) inner.ledger.attempts attempts)
      (left : Leaves inner after inner.ledger.runs tasks attempts)
  | answered (done : List Attempt)
      (intended : ∀ attempt ∈ done, attempt ∈ intent.reopened ∧ attempt ∈ inner.ledger.attempts ∧
        attempt.phase = .reported ∧ attempt.outcome = some .blocked ∧
        inner.ledger.taskStatus attempt.taskId = some .blocked)
      (tasks : Store Task.id) (turned : Store.Rewritten (Answers done) inner.ledger.tasks tasks)
      (attempts : Store Attempt.id)
      (back : Store.Rewritten (HandedBack done) inner.ledger.attempts attempts)
      (left : Leaves inner after inner.ledger.runs tasks attempts)
  | exited (session : SessionId) (attempt : Attempt) (member : attempt ∈ inner.ledger.attempts)
      (names : attempt.sessionId = some session) (live : attempt.isLive = true)
      (left : Leaves inner after inner.ledger.runs (inner.ledger.tasks.modify attempt.taskId
          (Task.loseAttempt limits.maxAttemptsPerTask now)
          fun task => by unfold Task.loseAttempt; split <;> rfl)
        (inner.ledger.attempts.modify attempt.id (Attempt.lost .exitedWithoutReport now)
          fun _ => rfl))
  | posted (request : SetState) (board : Store BoardEntry.place)
      (intended : intent.posted = some request)
      (fits : checkBoardVersion request
        ((inner.ledger.board.get? (request.runId, request.key)).map (·.version)) = .ok ())
      (changed : (request.delete = true ∧ board = inner.ledger.board.retain fun entry =>
          entry.place != (request.runId, request.key)) ∨
        request.delete = false ∧ board = inner.ledger.board.put (request.entry
          ((inner.ledger.board.get? (request.runId, request.key)).map (·.version)) now))
      (ledger : after.ledger = { inner.ledger with board }) (sessions : after.sessions =
        inner.sessions)
  | removed (chain : Relation.ReflTransGen (Removal intent.dropped) inner after)
  | joined (session : Session) (unused : inner.sessions.get? session.id = none)
      (state : session.state ≠ .exited) (ledger : after.ledger = inner.ledger)
      (sessions : after.sessions = inner.sessions.put session)
  | moved (session : Session) (state : SessionState)
      (found : inner.sessions.get? session.id = some session)
      (legal : session.state.canTransitionTo state = true)
      (attached : state ≠ .orphaned) (told : state = .exited → intent.exiting = some session.id)
      (ledger : after.ledger = inner.ledger)
      (sessions : after.sessions =
        inner.sessions.modify session.id (fun row => { row with state }) fun _ => rfl)

variable {limits : OrchestrationLimits} {now : Timestamp} {fresh : Nat} {intent : Intent}
  {inner : Inner}

theorem Effect.of_db (db : Database) : Effect limits now fresh intent inner { inner with db } :=
  .still ⟨rfl, rfl, rfl, rfl, rfl⟩

theorem Effect.none : Effect limits now fresh intent inner inner := .still ⟨rfl, rfl, rfl, rfl, rfl⟩

/-- Every outcome of the section is one of the effects. -/
abbrev Does (limits : OrchestrationLimits) (now : Timestamp) (fresh : Nat) (intent : Intent)
    (inner : Inner) {α : Type} (program : Handler α) : Prop :=
  program.Meets inner fun _ after => Effect limits now fresh intent inner after

end ForgeNode.Orchestration
