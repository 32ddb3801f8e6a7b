/-! Runs, tasks and attempts of the orchestration ledger, with the rails' limits. -/

namespace ForgeNode.Orchestration

abbrev ProjectId := Nat
abbrev WorkspaceId := Nat
abbrev SessionId := Nat
abbrev RunId := Nat
abbrev TaskId := Nat
abbrev AttemptId := Nat
abbrev ContextId := Nat
abbrev AgentProviderId := String
abbrev AgentProfileId := Nat
abbrev Timestamp := Nat

def maxObjectiveBytes : Nat := 8 * 1024
def maxBriefBytes : Nat := 16 * 1024
def maxTitleBytes : Nat := 200
def maxSpecBytes : Nat := 32 * 1024
def maxAcceptanceBytes : Nat := 8 * 1024
def maxSummaryBytes : Nat := 16 * 1024
def maxVerificationBytes : Nat := 4 * 1024
def maxMessageBytes : Nat := 16 * 1024
def maxBoardValueBytes : Nat := 16 * 1024
def maxBoardKeys : Nat := 256
def maxBoardKeyBytes : Nat := 128
def minIdPrefix : Nat := 8

/-- What an agent controller may do. A human caller is never limited by this. -/
inductive IntegratePermission where
  | none | merge | pr | unrecognized
  deriving DecidableEq

inductive RunStatus where
  | active | completed | cancelled | interrupted | unrecognized
  deriving DecidableEq

def RunStatus.isOpen : RunStatus → Bool
  | .active | .interrupted => true
  | _ => false

inductive TaskStatus where
  | pending | ready | active | review | accepted | integrated | blocked | cancelled | failed
  | unrecognized
  deriving DecidableEq

namespace TaskStatus

/-- A dependent may start only after the predecessor was accepted or merged. -/
def satisfiesDependency : TaskStatus → Bool
  | .accepted | .integrated => true
  | _ => false

def isFinal : TaskStatus → Bool
  | .integrated | .cancelled | .failed | .unrecognized => true
  | _ => false

/-- The `Debug` name that refusals quote. -/
def debug : TaskStatus → String
  | .pending => "Pending"
  | .ready => "Ready"
  | .active => "Active"
  | .review => "Review"
  | .accepted => "Accepted"
  | .integrated => "Integrated"
  | .blocked => "Blocked"
  | .cancelled => "Cancelled"
  | .failed => "Failed"
  | .unrecognized => "Unrecognized"

/-- `matches!(status, Ready | Pending)`: a start is possible. -/
def startable : TaskStatus → Bool
  | .ready | .pending => true
  | _ => false

/-- `matches!(status, Active | Blocked)`: a lost attempt moves the task. -/
def inProgress : TaskStatus → Bool
  | .active | .blocked => true
  | _ => false

end TaskStatus

inductive WorkMode where
  | write | readOnly | unrecognized
  deriving DecidableEq

inductive ReportOutcome where
  | done | failed | blocked | unrecognized
  deriving DecidableEq

inductive AttemptPhase where
  | starting | running | reported | rejected | lost | unrecognized
  deriving DecidableEq

/-- `matches!(phase, Starting | Running)`. -/
def AttemptPhase.isLive : AttemptPhase → Bool
  | .starting | .running => true
  | _ => false

inductive LostReason where
  | exitedWithoutReport | daemonRestarted | cancelled | spawnFailed | unrecognized
  deriving DecidableEq

/-- Who drives the run. `none` is a human at a shell. -/
inductive ControllerSpec where
  | none
  | selfSession
  | agent (providerId : AgentProviderId) (profileId : Option AgentProfileId)
  deriving DecidableEq

inductive IntegrationPlacement where
  | new
  | current
  | workspace (id : WorkspaceId)
  deriving DecidableEq

/-- A controller's verdict. Retry is a new attempt, not a second write on the old one. -/
inductive TaskDecision where
  | accept (note : Option String)
  | reject (feedback : String) (retry : Bool)
  | cancel (kill : Bool)
  | unrecognized
  deriving DecidableEq

inductive AttemptPlacement where
  | worktree
  | integration
  | same
  | workspace (id : WorkspaceId)
  deriving DecidableEq

inductive IntegrateHow where
  | merge (squash : Bool)
  | continue
  | abort
  | unrecognized
  deriving DecidableEq

inductive ContextKind where
  | message | question | answer | feedback | pointer | unrecognized
  deriving DecidableEq

structure Run where
  id : RunId
  projectId : ProjectId
  objective : String
  brief : String
  briefVersion : Nat
  controllerSessionId : Option SessionId
  integrationWorkspaceId : Option WorkspaceId
  base : Option String
  parentAttemptId : Option AttemptId
  status : RunStatus
  revision : Nat
  createdAt : Timestamp
  updatedAt : Timestamp
  closedAt : Option Timestamp
  deriving DecidableEq

structure Task where
  id : TaskId
  runId : RunId
  title : String
  spec : String
  acceptance : String
  after : List TaskId
  mode : WorkMode
  allowSubruns : Bool
  status : TaskStatus
  attemptsUsed : Nat
  revision : Nat
  createdAt : Timestamp
  updatedAt : Timestamp
  /-- Feedback from the latest reject. -/
  feedback : Option String
  deriving DecidableEq

structure AttemptReport where
  outcome : ReportOutcome
  summary : String
  verification : Option String
  resultPath : Option String
  reportedHead : Option String
  dirtyAtReport : Bool
  filesChanged : List String
  deriving DecidableEq

structure Attempt where
  id : AttemptId
  taskId : TaskId
  n : Nat
  sessionId : Option SessionId
  workspaceId : Option WorkspaceId
  branch : Option String
  baseCommit : Option String
  providerId : AgentProviderId
  profileId : Option AgentProfileId
  readOnly : Bool
  phase : AttemptPhase
  outcome : Option ReportOutcome
  lostReason : Option LostReason
  report : Option AttemptReport
  integratedCommit : Option String
  createdAt : Timestamp
  settledAt : Option Timestamp
  deriving DecidableEq

def Attempt.isLive (attempt : Attempt) : Bool := attempt.phase.isLive

structure BoardEntry where
  runId : RunId
  key : String
  valueJson : String
  version : Nat
  updatedBy : Option SessionId
  updatedAt : Timestamp
  deriving DecidableEq

/-- Rails the daemon applies. -/
structure OrchestrationLimits where
  maxActiveAttemptsPerRun : Nat
  maxTasksPerRun : Nat
  maxRunDepth : Nat
  maxAttemptsPerTask : Nat
  agentMayIntegrate : IntegratePermission
  deriving DecidableEq

/-- `OrchestrationLimits::default()`. -/
def OrchestrationLimits.default : OrchestrationLimits where
  maxActiveAttemptsPerRun := 4
  maxTasksPerRun := 32
  maxRunDepth := 2
  maxAttemptsPerTask := 3
  agentMayIntegrate := .pr

/-- A guard the daemon refused. `rail` is the stable suffix of `policy:<rail>`. -/
structure RailRefusal where
  rail : String
  message : String
  deriving DecidableEq

inductive ErrorCode where
  | invalidRequest | notFound | conflict | preconditionFailed | gitError | ioError | internal
  deriving DecidableEq

structure ProtocolError where
  code : ErrorCode
  message : String
  details : Option String
  deriving DecidableEq

namespace ProtocolError

def new (code : ErrorCode) (message : String) : ProtocolError := ⟨code, message, none⟩

def invalidRequest (message : String) : ProtocolError := new .invalidRequest message

def notFound (message : String) : ProtocolError := new .notFound message

def conflict (message : String) : ProtocolError := new .conflict message

def preconditionFailed (message : String) : ProtocolError := new .preconditionFailed message

def internal (message : String) : ProtocolError := new .internal message

end ProtocolError

end ForgeNode.Orchestration
