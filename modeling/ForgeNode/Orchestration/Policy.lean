import ForgeNode.Orchestration.Types

/-! Pure transitions, rails, addresses and clamps. -/

namespace ForgeNode.Orchestration

open List

inductive ReportRefuse where
  | foreign | superseded
  deriving DecidableEq

/-- Only an explicit report of a live attempt, from its own session, settles it. -/
def settleReport (phase : AttemptPhase) (attemptSession caller : Option SessionId)
    (newerAttemptExists : Bool) : Except ReportRefuse Unit :=
  if newerAttemptExists || !phase.isLive then .error .superseded
  else if caller.isNone || caller != attemptSession then .error .foreign
  else .ok ()

/-- Task status after a report the policy accepted. -/
def taskStatusAfterReport (outcome : ReportOutcome) (attemptsUsed maxAttempts : Nat) : TaskStatus :=
  match outcome with
  | .blocked => .blocked
  | .done | .unrecognized => .review
  | .failed => if attemptsUsed ≥ maxAttempts then .failed else .review

/-- Where a task goes when its live attempt is lost and nobody reported. -/
def taskStatusAfterLoss (attemptsUsed maxAttempts : Nat) : TaskStatus :=
  if attemptsUsed ≥ maxAttempts then .failed else .ready

theorem taskStatusAfterReport_eq (outcome : ReportOutcome) (attemptsUsed maxAttempts : Nat) :
    taskStatusAfterReport outcome attemptsUsed maxAttempts = .blocked ∨
      taskStatusAfterReport outcome attemptsUsed maxAttempts = .review ∨
      taskStatusAfterReport outcome attemptsUsed maxAttempts = .failed := by
  cases outcome with
  | blocked => exact .inl rfl
  | done | unrecognized => exact .inr (.inl rfl)
  | failed =>
    simp only [taskStatusAfterReport]
    split
    · exact .inr (.inr rfl)
    · exact .inr (.inl rfl)

theorem taskStatusAfterLoss_eq (attemptsUsed maxAttempts : Nat) :
    taskStatusAfterLoss attemptsUsed maxAttempts = .failed ∨
    taskStatusAfterLoss attemptsUsed maxAttempts = .ready := by
  unfold taskStatusAfterLoss
  split
  · exact .inl rfl
  · exact .inr rfl

def allowNewTask (existing : Nat) (limits : OrchestrationLimits) : Except RailRefusal Unit :=
  if existing ≥ limits.maxTasksPerRun then
    .error ⟨"max_tasks", s!"run already has {existing} tasks (limit {limits.maxTasksPerRun})"⟩
  else .ok ()

def allowStart (activeInRun attemptsUsed : Nat) (mode : WorkMode) (workspaceHasWriter : Bool)
    (limits : OrchestrationLimits) : Except RailRefusal Unit :=
  if activeInRun ≥ limits.maxActiveAttemptsPerRun then
    .error ⟨"max_active_attempts",
      s!"run already has {activeInRun} live attempts (limit {limits.maxActiveAttemptsPerRun})"⟩
  else if attemptsUsed ≥ limits.maxAttemptsPerTask then
    .error ⟨"max_attempts",
      s!"task already used {attemptsUsed} attempts (limit {limits.maxAttemptsPerTask})"⟩
  else if mode = .write ∧ workspaceHasWriter then
    .error ⟨"one_writer", "this workspace already has a live writing attempt"⟩
  else .ok ()

def allowNestedRun (parentDepth : Nat) (parentAllowsSubruns : Bool) (limits : OrchestrationLimits) :
    Except RailRefusal Unit :=
  if !parentAllowsSubruns then
    .error ⟨"subruns", "the parent task does not allow a nested run"⟩
  else
    let depth := parentDepth + 1
    if depth > limits.maxRunDepth then
      .error ⟨"max_run_depth", s!"nested run would be depth {depth} (limit {limits.maxRunDepth})"⟩
    else .ok ()

/-- Accept, reject, integrate, and cancel. Humans (no session) always pass. -/
def allowController (caller controller : Option SessionId) : Except RailRefusal Unit :=
  if caller.isNone then .ok ()
  else if caller = controller then .ok ()
  else .error ⟨"controller_only", "only the run's controller or a human may decide"⟩

/-- An agent controller opening a PR or merging. Humans are not checked here. -/
def allowAgentIntegrate (openPullRequest : Bool) (permission : IntegratePermission) :
    Except RailRefusal Unit :=
  match openPullRequest, permission with
  | false, .none =>
    .error ⟨"agent_may_integrate", "an agent controller may not merge into the integration branch"⟩
  | true, .none | true, .merge =>
    .error ⟨"agent_may_integrate", "an agent controller may not open a pull request"⟩
  | true, .pr | false, .merge | false, .pr => .ok ()
  | _, .unrecognized =>
    .error ⟨"agent_may_integrate", "integration permission is not recognized"⟩

/-- The recursion of `dependency_cycle`; `seen` and `stack` are shared by the whole walk. -/
def walk (graph : TaskId → List TaskId) : Nat → TaskId → List TaskId × List TaskId →
    Bool × List TaskId × List TaskId
  | 0, _, (seen, stack) => (false, seen, stack)
  | fuel + 1, node, (seen, stack) =>
    if stack.contains node then (true, seen, stack)
    else if seen.contains node then (false, seen, stack)
    else
      let (found, seen, stack) := (graph node).foldl
        (fun (found, state) dep => if found then (true, state) else walk graph fuel dep state)
        (false, node :: seen, node :: stack)
      if found then (true, seen, stack) else (false, seen, stack.erase node)

/-- `edges` are `(task, after)`. Adding `after` onto `task` must not cycle. -/
def dependencyCycle (edges : List (TaskId × TaskId)) (task : TaskId) (after : List TaskId) : Bool :=
  let all := edges ++ after.map fun dep => (task, dep)
  let graph (node : TaskId) := (all.filter fun edge => edge.1 == node).map (·.2)
  let nodes := (edges.map (·.1)).eraseDups ++ [task] ++ after
  (nodes.foldl (fun (found, state) node =>
    if found then (true, state) else walk graph (2 * all.length + 2) node state)
    (false, [], [])).1

/-- Ready only when every dependency is accepted or integrated. -/
def dependenciesMet (after : List TaskId) (status : TaskId → Option TaskStatus) : Bool :=
  after.all fun id => (status id).any TaskStatus.satisfiesDependency

/-- One task of `promote_ready`. -/
def promote (statuses : TaskId → Option TaskStatus) (task : Task) : Task :=
  if task.status = .pending ∧ dependenciesMet task.after statuses then { task with status := .ready }
  else task

/-- Tasks that are `Pending` and whose dependencies are now met become `Ready`. -/
def promoteReady (tasks : List Task) : List Task :=
  tasks.map (promote fun id => (tasks.find? fun task => task.id == id).map (·.status))

/-- The statuses that a promotion reads. -/
def statusIn (tasks : List Task) (id : TaskId) : Option TaskStatus :=
  (tasks.find? fun task => task.id == id).map (·.status)

structure RestartReconcile where
  runs : List Run
  tasks : List Task
  attempts : List Attempt

def reconcileAttempt (now : Timestamp) (attempt : Attempt) : Attempt :=
  if attempt.isLive then
    { attempt with
      phase := .lost, lostReason := some .daemonRestarted, outcome := none, settledAt := some now }
  else attempt

def reconcileTask (lostTasks : List TaskId) (limits : OrchestrationLimits) (now : Timestamp)
    (task : Task) : Task :=
  if lostTasks.contains task.id && task.status.inProgress then
    { task with
      status := taskStatusAfterLoss task.attemptsUsed limits.maxAttemptsPerTask
      updatedAt := now, revision := task.revision + 1 }
  else task

def reconcileRun (now : Timestamp) (run : Run) : Run :=
  if run.status = .active then
    { run with status := .interrupted, updatedAt := now, revision := run.revision + 1 }
  else run

/-- Live attempts become lost, active runs interrupted, and tasks in progress go back to
ready while the attempt budget remains. -/
def reconcileRestart (runs : List Run) (tasks : List Task) (attempts : List Attempt)
    (limits : OrchestrationLimits) (now : Timestamp) : RestartReconcile :=
  let lostTasks := (attempts.filter Attempt.isLive).map (·.taskId)
  ⟨runs.map (reconcileRun now), tasks.map (reconcileTask lostTasks limits now),
    attempts.map (reconcileAttempt now)⟩

inductive Address where
  | controller
  | task (id : TaskId)
  | session (id : SessionId)
  | run (id : RunId)
  deriving DecidableEq

inductive AddressError where
  | empty | badPrefix | unknown
  deriving DecidableEq

inductive DeliveryTarget where
  | session (id : SessionId)
  | humanController
  deriving DecidableEq

structure LiveAttempt where
  taskId : TaskId
  sessionId : Option SessionId
  n : Nat
  live : Bool

/-- `Iterator::max_by_key`: the last of the greatest. -/
def maxBy (atMost : α → α → Bool) : List α → Option α
  | [] => none
  | first :: rest =>
    some (rest.foldl (fun best next => if atMost best next then next else best) first)

/-- By a measure, the fold ends in a member that is at least every member. -/
theorem maxBy_le_eq_some {measure : α → Nat} {list : List α} {best : α}
    (found : maxBy (fun first second => measure first ≤ measure second) list = some best) :
    best ∈ list ∧ ∀ item ∈ list, measure item ≤ measure best := by
  cases list with
  | nil => cases found
  | cons first rest =>
    simp only [maxBy, decide_eq_true_eq, Option.some.injEq] at found
    subst found
    induction rest generalizing first with
    | nil => simp
    | cons second rest ih =>
      rw [foldl_cons]
      have both : measure first ≤ measure (if measure first ≤ measure second then second else first) ∧
          measure second ≤ measure (if measure first ≤ measure second then second else first) := by
        split <;> omega
      have one : (if measure first ≤ measure second then second else first) = first ∨
          (if measure first ≤ measure second then second else first) = second := by
        split <;> simp
      generalize (if measure first ≤ measure second then second else first) = next at both one ⊢
      obtain ⟨member, greatest⟩ := ih next
      have head := greatest next mem_cons_self
      refine ⟨?_, ?_⟩
      · rcases mem_cons.mp member with same | later
        · rw [same]
          rcases one with equal | equal <;> simp [equal]
        · exact mem_cons_of_mem _ (mem_cons_of_mem _ later)
      · intro item there
        rcases mem_cons.mp there with rfl | there
        · exact Nat.le_trans both.1 head
        · rcases mem_cons.mp there with rfl | later
          · exact Nat.le_trans both.2 head
          · exact greatest item (mem_cons_of_mem _ later)

/-- The order of `(live, n)`. -/
def LiveAttempt.atMost (first second : LiveAttempt) : Bool :=
  match first.live, second.live with
  | false, true => true
  | true, false => false
  | _, _ => first.n ≤ second.n

/-- `controller` is `none` for a human-driven run. -/
def resolveAddress (address : Address) (controller : Option SessionId)
    (attempts : List LiveAttempt) : Except AddressError (List DeliveryTarget) :=
  match address with
  | .controller => .ok [match controller with
    | some session => .session session
    | none => .humanController]
  | .session session => .ok [.session session]
  | .task task =>
    let current := maxBy LiveAttempt.atMost
      (attempts.filter fun attempt => attempt.taskId == task && attempt.sessionId.isSome)
    match current.bind (·.sessionId) with
    | some session => .ok [.session session]
    | none => .error .unknown
  | .run _ => .ok ((attempts.filter (·.live)).filterMap fun attempt =>
      attempt.sessionId.map DeliveryTarget.session)

/-- The Unicode `White_Space` characters, which `str::trim` removes. -/
def isWhitespace (c : Char) : Bool :=
  let code := c.toNat
  (0x9 ≤ code && code ≤ 0xD) || code == 0x20 || code == 0x85 || code == 0xA0 || code == 0x1680 ||
    (0x2000 ≤ code && code ≤ 0x200A) || code == 0x2028 || code == 0x2029 || code == 0x202F ||
    code == 0x205F || code == 0x3000

def trim (text : String) : List Char :=
  ((text.toList.dropWhile isWhitespace).reverse.dropWhile isWhitespace).reverse

/-- `text.trim().is_empty()`. -/
def isBlank (text : String) : Bool := (trim text).isEmpty

inductive ParsedAddress where
  | controller
  | task (prefix_ : String)
  | session (prefix_ : String)
  | run (prefix_ : String)
  deriving DecidableEq

/-- Parse `controller`, `task:<id>`, `session:<id>`, or `run:<id>`. -/
def parseAddress (raw : String) : Except AddressError ParsedAddress :=
  let raw := trim raw
  if raw.isEmpty then .error .empty
  else if raw = "controller".toList then .ok .controller
  else if !raw.contains ':' then .error .badPrefix
  else
    let kind := raw.takeWhile (· != ':')
    let id := String.ofList ((raw.dropWhile (· != ':')).drop 1)
    if id.utf8ByteSize < minIdPrefix then .error .badPrefix
    else if kind = "task".toList then .ok (.task id)
    else if kind = "session".toList then .ok (.session id)
    else if kind = "run".toList then .ok (.run id)
    else .error .badPrefix

inductive PrefixError where
  | tooShort | none | ambiguous
  deriving DecidableEq

/-- The loop of `resolve_prefix`, over the candidates' texts. -/
def matchPrefix (display : Nat → String) (raw : String) (found : Option Nat) :
    List Nat → Except PrefixError Nat
  | [] => match found with
    | some candidate => .ok candidate
    | none => .error .none
  | candidate :: rest =>
    if display candidate = raw then .ok candidate
    else if raw.toList.isPrefixOf (display candidate).toList then
      if found.isSome then .error .ambiguous else matchPrefix display raw (some candidate) rest
    else matchPrefix display raw found rest

/-- Git-style unique prefix, minimum `minIdPrefix` characters. -/
def resolvePrefix (display : Nat → String) (candidates : List Nat) (raw : String) :
    Except PrefixError Nat :=
  let raw := String.ofList (trim raw)
  if raw.utf8ByteSize < minIdPrefix then .error .tooShort
  else matchPrefix display raw none candidates

inductive CasOutcome where
  | created
  | updated (next : Nat)
  | mismatch (current : Nat)
  deriving DecidableEq

/-- Compare-and-set. Version 0 is create-only. -/
def compareAndSet (current : Option Nat) (ifVersion : Nat) : CasOutcome :=
  match current with
  | none => if ifVersion = 0 then .created else .mismatch 0
  | some version =>
    if version = ifVersion ∧ ifVersion ≠ 0 then .updated (version + 1) else .mismatch version

inductive BoardWrite where
  | addsKey | keepsKeyCount
  deriving DecidableEq

def boardIsFull (existingKeys : Nat) (write : BoardWrite) : Bool :=
  write == .addsKey && existingKeys ≥ maxBoardKeys

def validBoardKey (key : String) : Bool :=
  let chars := key.toList
  !chars.isEmpty && key.utf8ByteSize ≤ maxBoardKeyBytes && chars.all fun c =>
    ('a' ≤ c && c ≤ 'z') || ('0' ≤ c && c ≤ '9') || c == '.' || c == '_' || c == '/' || c == '-'

inductive BoardValueError where
  | oversize (len : Nat)
  | notJson
  deriving DecidableEq

/-- Refuse an oversize value before parsing it. A short value must be JSON. -/
def boardValue (isJson : String → Bool) (raw : String) : Except BoardValueError String :=
  if raw.utf8ByteSize > maxBoardValueBytes then .error (.oversize raw.utf8ByteSize)
  else if isJson raw then .ok raw else .error .notJson

/-- The longest prefix of whole characters within a byte budget. -/
def takeBytes (budget : Nat) : List Char → List Char
  | [] => []
  | c :: rest => if c.utf8Size ≤ budget then c :: takeBytes (budget - c.utf8Size) rest else []

def truncationMark : String := "\n[truncated]"

/-- Clamp to `maxBytes`, keeping the marker inside the budget. -/
def clampText (input : String) (maxBytes : Nat) : String × Bool :=
  if input.utf8ByteSize ≤ maxBytes then (input, false)
  else
    let kept := takeBytes (maxBytes - truncationMark.utf8ByteSize) input.toList
    let marked := if maxBytes ≥ truncationMark.utf8ByteSize then kept ++ truncationMark.toList
      else kept
    (String.ofList marked, true)

end ForgeNode.Orchestration
