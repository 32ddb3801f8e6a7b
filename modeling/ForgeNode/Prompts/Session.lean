import ForgeNode.Lib.Run
import ForgeNode.Lib.Store
import ForgeNode.Orchestration.Tables

/-! One agent session: its activity, its inbox pointer, its prompt slot and the calls on them,
each split at its lock acquisitions. -/

namespace ForgeNode.Prompts

open Orchestration (Timestamp SessionState ProtocolError)

abbrev TerminalId := Nat
abbrev CallId := Nat

inductive SessionKind where
  | shell | agent | editor | task
  deriving DecidableEq

inductive ActivityState where
  | unknown | starting | working | waiting | idle | unrecognized
  deriving DecidableEq

inductive ActivityEvidence where
  | hook | input | exit | unrecognized
  deriving DecidableEq

structure AgentActivity where
  state : ActivityState
  since : Timestamp
  evidence : Option ActivityEvidence
  deriving DecidableEq

def AgentActivity.unknown : AgentActivity := ⟨.unknown, 0, none⟩

def AgentActivity.starting (now : Timestamp) : AgentActivity := ⟨.starting, now, none⟩

inductive ActivityTrigger where
  | hook (state : ActivityState)
  | input
  | silence
  | processExit
  deriving DecidableEq

namespace ActivityTrigger

/-- The state that a trigger asks for, where it asks for one. -/
def next (current : ActivityState) : ActivityTrigger → Option ActivityState
  | .silence | .processExit => none
  | .input => if current = .idle ∨ current = .waiting then some .working else none
  | .hook state => match state with
    | .working | .waiting | .idle => some state
    | _ => none

def evidence : ActivityTrigger → Option ActivityEvidence
  | .input => some .input
  | .hook _ => some .hook
  | .processExit => some .exit
  | .silence => none

end ActivityTrigger

def applyActivity (current : AgentActivity) (trigger : ActivityTrigger) (now : Timestamp) :
    AgentActivity :=
  match trigger.next current.state with
  | none => current
  | some state => if state = current.state then current else ⟨state, now, trigger.evidence⟩

inductive PointerDecision where
  | type | queue | suppress
  deriving DecidableEq

/-- A watched inbox wins over Idle. -/
def pointerDecision (state : ActivityState) (inboxWatched typedThisIdle : Bool) : PointerDecision :=
  if inboxWatched then .suppress
  else match state with
    | .idle => if typedThisIdle then .suppress else .type
    | .working => .queue
    | _ => .suppress

structure PointerSlot where
  queued : Bool
  typedThisIdle : Bool
  deriving DecidableEq

/-- `ContextId::new`: the id of the call that made it. -/
structure PendingPrompt where
  text : String
  submit : Bool
  terminal : TerminalId
  context : CallId
  deriving DecidableEq

/-- `PromptDelivery`. -/
inductive DeliveryTime where
  | now | ifIdle | queue | unknown
  deriving DecidableEq

inductive Origin where
  | request
  | queue
  deriving DecidableEq

structure Session where
  kind : SessionKind
  state : SessionState
  terminalId : Option TerminalId
  activity : AgentActivity
  deriving DecidableEq

/-- The session has a process, or is about to have one. -/
def isActive : SessionState → Bool
  | .starting | .running => true
  | _ => false

/-- Idle on the evidence of a hook. -/
def Session.idle (session : Session) : Bool :=
  session.activity.state = .idle && session.activity.evidence = some .hook

structure Delivery where
  prompt : PendingPrompt
  time : DeliveryTime
  origin : Origin
  deriving DecidableEq

/-- Where `prompts::deliver` is: what follows each lock it takes, with the gate it holds, the
terminal it found and whether a carriage return is due. -/
inductive Stage where
  | checking
  | queueing (gate : Nat)
  | resolving (gate : Nat)
  | recording (gate : Nat) (terminal : TerminalId)
  | slotting (gate : Nat) (terminal : TerminalId)
  | awaiting (gate : Nat) (terminal : TerminalId)
  | submitting (gate : Nat) (terminal : TerminalId)
  | pasting (gate : Nat) (terminal : TerminalId) (submitted : Bool)
  | returning (gate : Nat) (terminal : TerminalId)
  deriving DecidableEq

/-- Where a call is: in `consider_pointer`, `deliver_pointer`, `report_activity`,
`deliver_pending`, `prompts::send` and `deliver`, `write_terminal_input`, `on_terminal_exited`. -/
inductive Phase where
  | considering
  | queueing
  | pointing
  | fetching
  | pointed (terminal : TerminalId)
  | typing (terminal : TerminalId)
  | typed (terminal : TerminalId)
  | reporting (state : ActivityState)
  | ordering (state : ActivityState) (writer : Option TerminalId)
  | applying (state : ActivityState) (writer : Option TerminalId)
  | flushing
  | sending (text : String) (submit : Bool) (time : DeliveryTime)
  | delivering (delivery : Delivery) (stage : Stage)
  | entering (terminal : TerminalId)
  | locating (terminal : TerminalId)
  | noting (terminal : TerminalId)
  | feeding (terminal : TerminalId)
  | exiting
  deriving DecidableEq

inductive Lock where
  | gate (gate : Nat)
  | writer (terminal : TerminalId)
  deriving DecidableEq

def Stage.holds : Stage → List Lock
  | .checking | .queueing _ => []
  | .resolving gate | .recording gate _ | .slotting gate _ | .awaiting gate _ => [.gate gate]
  | .submitting gate terminal | .pasting gate terminal _ | .returning gate terminal =>
    [.gate gate, .writer terminal]

/-- The locks that a call holds between two of its sections; the core lock is never one. -/
def Phase.holds : Phase → List Lock
  | .typing terminal | .typed terminal => [.writer terminal]
  | .applying _ writer => writer.toList.map .writer
  | .delivering _ stage => stage.holds
  | .locating terminal | .noting terminal | .feeding terminal => [.writer terminal]
  | _ => []

/-- The lock that a call is about to take, apart from the core lock. -/
def Phase.wants : Phase → Option Lock
  | .pointed terminal | .entering terminal => some (.writer terminal)
  | .ordering _ writer => writer.map .writer
  | .delivering _ (.queueing gate) => some (.gate gate)
  | .delivering _ (.awaiting _ terminal) => some (.writer terminal)
  | _ => none

/-- `pointer` marks a report that read a queued pointer and delivers it last. -/
structure Call where
  id : CallId
  phase : Phase
  pointer : Bool
  deriving DecidableEq

/-- `delivered` and `submitted` of a response; it is queued where it is not delivered. -/
structure Answer where
  delivered : Bool
  submitted : Bool
  deriving DecidableEq

/-- One session with what its calls share, the calls under way, and what was done so far: idle
periods, the period of each pointer line and of each submission, the prompts pasted and the
requests' results. -/
structure Host where
  session : Session
  terminals : List TerminalId
  spawned : Nat
  slot : Option PointerSlot
  pendingPrompt : Option PendingPrompt
  gate : Option Nat
  gates : Nat
  watched : Bool
  calls : Store Call.id
  arrivals : Nat
  period : Nat
  lines : List Nat
  submissions : List Nat
  pastes : List CallId
  answers : List (CallId × Except ProtocolError Answer)

namespace Host

variable (host : Host)

def typedThisIdle : Bool := host.slot.any (·.typedThisIdle)

def queued : Bool := host.slot.any (·.queued)

/-- `entry(..).or_default()`. -/
def entry : PointerSlot := host.slot.getD ⟨false, false⟩

def setQueued : Host := { host with slot := some ⟨true, host.entry.typedThisIdle⟩ }

def go (call : Call) (phase : Phase) : Host :=
  { host with calls := host.calls.modify call.id (fun row => { row with phase }) fun _ => rfl }

def finish (call : Call) : Host :=
  { host with calls := host.calls.retain fun row => row.id != call.id }

/-- After `deliver_pending`, the pointer where one was queued. -/
def flushed (call : Call) : Host :=
  if call.pointer then
    { host with
      calls := host.calls.modify call.id
        (fun row => { row with phase := .pointing, pointer := false }) fun _ => rfl }
  else host.finish call

def start (phase : Phase) : Host :=
  { host with calls := host.calls.put ⟨host.arrivals, phase, false⟩, arrivals := host.arrivals + 1 }

def trigger (trigger : ActivityTrigger) (now : Timestamp) : Host :=
  { host with session := { host.session with
      activity := applyActivity host.session.activity trigger now } }

def checkTarget (time : DeliveryTime) (pending : PendingPrompt) (new : Bool) :
    Except ProtocolError TerminalId :=
  if host.session.kind ≠ .agent || !isActive host.session.state then
    .error (.preconditionFailed "target must be a live agent")
  else match host.session.terminalId with
    | none => .error (.preconditionFailed "agent has no terminal")
    | some terminal =>
      if terminal ≠ pending.terminal then
        .error (.preconditionFailed "prompt belongs to an ended terminal")
      else if !host.session.idle && time = .ifIdle then
        .error (.preconditionFailed "target is not hook-confirmed idle")
      else match host.pendingPrompt with
        | some slot =>
          if new || slot.context ≠ pending.context then
            .error (.conflict "target already has a queued prompt")
          else .ok terminal
        | none =>
          if new then .ok terminal
          else .error (.preconditionFailed "queued prompt was already consumed")

/-- An invalid transition is a race, and keeps the current state. -/
def setSessionState (next : SessionState) (terminal : Option TerminalId) (now : Timestamp) : Host :=
  if !host.session.state.canTransitionTo next then host
  else
    let activity := if next = .starting && host.session.kind = .agent then .starting now
      else host.session.activity
    let moved :=
      { host with session := { host.session with state := next, terminalId := terminal, activity } }
    if next = .starting || next.isTerminal then { moved with pendingPrompt := none, gate := none }
      else moved

def noteUserInput (now : Timestamp) : Host :=
  let next := applyActivity host.session.activity .input now
  if next.state = host.session.activity.state then host
  else { host.trigger .input now with
    slot := host.slot.map fun slot => { slot with typedThisIdle := false } }

/-- The core section of `report_activity`, which ends where the session did not become idle. -/
def reportActivity (call : Call) (state : ActivityState) (now : Timestamp) : Host :=
  let current := host.session.activity
  let next := applyActivity current (.hook state) now
  let becameIdle := next.state = .idle && current.state ≠ .idle
  let becameWorking := next.state = .working && current.state ≠ .working
  let slot := if becameWorking || becameIdle then
    some ⟨host.entry.queued, false⟩ else host.slot
  let told := { host.trigger (.hook state) now with slot }
  if becameIdle then
    { told with
      period := host.period + 1
      calls := host.calls.modify call.id
        (fun row => { row with phase := .flushing, pointer := slot.any (·.queued) }) fun _ => rfl }
  else told.finish call

/-- The core section of `deliver_pointer`. -/
def typePointer (call : Call) (terminal : TerminalId) (now : Timestamp) : Host :=
  if host.watched then host.finish call
  else if host.session.terminalId ≠ some terminal then host.finish call
  else if host.session.activity.state ≠ .idle then host.setQueued.finish call
  else if host.typedThisIdle then host.finish call
  else { (host.go call (.typed terminal)).trigger .input now with
    slot := some ⟨false, true⟩
    lines := host.period :: host.lines }

def reply (call : Call) (delivery : Delivery) (result : Except ProtocolError Answer) : Host :=
  match delivery.origin with
  | .request => { host.flushed call with answers := (call.id, result) :: host.answers }
  | .queue => host.flushed call

/-- `checkTarget` again, and that the terminal is still the one found before. -/
def checkAgain (delivery : Delivery) (terminal : TerminalId) : Except ProtocolError Unit :=
  match host.checkTarget delivery.time delivery.prompt (delivery.origin = .request) with
  | .error error => .error error
  | .ok current =>
    if current ≠ terminal then .error (.preconditionFailed "target terminal changed") else .ok ()

def take (delivery : Delivery) (now : Timestamp) : Host :=
  let taken := { host with pendingPrompt := none }
  if host.session.idle then
    { taken.trigger .input now with
      submissions := if delivery.prompt.submit then host.period :: host.submissions
        else host.submissions }
  else taken

/-- The next section of `prompts::deliver`. -/
def deliver (call : Call) (delivery : Delivery) (now : Timestamp) (fails : Bool) : Stage → Host
  | .checking =>
    if delivery.time = .unknown then
      host.reply call delivery (.error (.invalidRequest "unknown prompt delivery policy"))
    else match host.checkTarget delivery.time delivery.prompt (delivery.origin = .request) with
      | .error error => host.reply call delivery (.error error)
      | .ok _ => match host.gate with
        | some gate => host.go call (.delivering delivery (.queueing gate))
        | none => { host.go call (.delivering delivery (.queueing host.gates)) with
            gate := some host.gates
            gates := host.gates + 1 }
  | .queueing gate => host.go call (.delivering delivery (.resolving gate))
  | .resolving gate =>
    if fails && delivery.origin = .request then
      host.reply call delivery (.error (.notFound "caller session"))
    else match host.checkTarget delivery.time delivery.prompt (delivery.origin = .request) with
      | .error error => host.reply call delivery (.error error)
      | .ok terminal =>
        if terminal ∈ host.terminals then host.go call (.delivering delivery
          (.recording gate terminal))
        else host.reply call delivery (.error (.notFound "terminal"))
  | .recording gate terminal =>
    if fails && delivery.origin = .request then
      host.reply call delivery (.error (.internal "context insert failed"))
    else if delivery.time = .queue then host.go call (.delivering delivery (.slotting gate terminal))
    else host.go call (.delivering delivery (.awaiting gate terminal))
  | .slotting gate terminal => match host.checkAgain delivery terminal with
    | .error error => host.reply call delivery (.error error)
    | .ok () =>
      if host.session.idle then host.go call (.delivering delivery (.awaiting gate terminal))
      else { host with pendingPrompt := some delivery.prompt }.reply call delivery
        (.ok ⟨false, false⟩)
  | .awaiting gate terminal => host.go call (.delivering delivery (.submitting gate terminal))
  | .submitting gate terminal => match host.checkAgain delivery terminal with
    | .error error => host.reply call delivery (.error error)
    | .ok () =>
      if !host.session.idle && delivery.time = .queue then
        { host with pendingPrompt := some delivery.prompt }.reply call delivery (.ok ⟨false, false⟩)
      else if terminal ∉ host.terminals then
        host.reply call delivery (.error (.notFound "terminal"))
      else (host.take delivery now).go call
        (.delivering delivery (.pasting gate terminal (delivery.prompt.submit && host.session.idle)))
  | .pasting gate terminal submitted =>
    let pasted := { host with pastes := delivery.prompt.context :: host.pastes }
    if fails then pasted.reply call delivery (.error (.new .ioError "write failed"))
    else if submitted then pasted.go call (.delivering delivery (.returning gate terminal))
    else pasted.reply call delivery (.ok ⟨true, false⟩)
  | .returning _ _ =>
    if fails then host.reply call delivery (.error (.new .ioError "write failed"))
    else host.reply call delivery (.ok ⟨true, true⟩)

/-- The next section of a call; `fails` where what it asks of others fails. -/
def advance (call : Call) (now : Timestamp) (fails : Bool) : Host :=
  match call.phase with
  | .considering =>
    match pointerDecision host.session.activity.state host.watched host.typedThisIdle with
    | .type => host.go call .pointing
    | .queue => host.go call .queueing
    | .suppress => host.finish call
  | .queueing => host.setQueued.finish call
  | .pointing => if host.watched then host.finish call else host.go call .fetching
  | .fetching => match host.session.terminalId.filter (· ∈ host.terminals) with
    | some terminal => host.go call (.pointed terminal)
    | none => host.finish call
  | .pointed terminal => host.go call (.typing terminal)
  | .typing terminal => host.typePointer call terminal now
  | .typed _ => host.finish call
  | .reporting state =>
    host.go call (.ordering state (host.session.terminalId.filter (· ∈ host.terminals)))
  | .ordering state writer => host.go call (.applying state writer)
  | .applying state _ => host.reportActivity call state now
  | .flushing =>
    if host.session.idle then match host.pendingPrompt with
      | some prompt => host.go call (.delivering ⟨prompt, .queue, .queue⟩ .checking)
      | none => host.flushed call
    else host.flushed call
  | .sending text submit time => match host.session.terminalId with
    | none => { host.finish call with answers :=
        (call.id, .error (.preconditionFailed "target has no live terminal")) :: host.answers }
    | some terminal =>
      host.go call (.delivering ⟨⟨text, submit, terminal, call.id⟩, time, .request⟩ .checking)
  | .delivering delivery stage => host.deliver call delivery now fails stage
  | .entering terminal => host.go call (.locating terminal)
  | .locating terminal =>
    if terminal ∈ host.terminals then host.go call (.noting terminal) else host.go call
      (.feeding terminal)
  | .noting terminal => (host.noteUserInput now).go call (.feeding terminal)
  | .feeding _ => host.finish call
  | .exiting => (host.setSessionState .exited none now).finish call

/-- A call that comes in, the process and its inbox, or the next section of a call. -/
inductive Turn where
  | consider
  | point
  | report (state : ActivityState)
  | flush
  | send (text : String) (submit : Bool) (time : DeliveryTime)
  | input (terminal : TerminalId)
  | eof (terminal : TerminalId)
  | spawn (now : Timestamp)
  | restart (now : Timestamp)
  | fail (now : Timestamp)
  | watch (watched : Bool)
  | advance (id : CallId) (now : Timestamp) (fails : Bool)

def step : Turn → Host
  | .consider => host.start .considering
  | .point => host.start .pointing
  | .report state => host.start (.reporting state)
  | .flush => host.start .flushing
  | .send text submit time => host.start (.sending text submit time)
  | .input terminal => if terminal ∈ host.terminals then host.start (.entering terminal) else host
  | .eof terminal =>
    if terminal ∈ host.terminals then
      { host with terminals := host.terminals.filter (· != terminal) }.start .exiting
    else host
  | .spawn now =>
    if host.session.state.canTransitionTo .running then
      { host with terminals := host.spawned :: host.terminals, spawned := host.spawned + 1 }.setSessionState
        .running (some host.spawned) now
    else { host with spawned := host.spawned + 1 }
  | .restart now => host.setSessionState .starting none now
  | .fail now => host.setSessionState .failed none now
  | .watch watched => { host with watched }
  | .advance id now fails => match host.calls.get? id with
    | none => host
    | some call => host.advance call now fails

/-- A lock is taken only where no call holds it. -/
def allows : Turn → Bool
  | .advance id _ _ => (host.calls.get? id).all fun call => call.phase.wants.all fun lock =>
      host.calls.rows.all fun other => lock ∉ other.phase.holds
  | _ => true

def Step (before : Host) (turn : Turn) (after : Host) : Prop :=
  before.allows turn = true ∧ after = before.step turn

/-- A session that was created, or that was read back when the daemon came up. -/
def initial (kind : SessionKind) (state : SessionState) (now : Timestamp) : Host where
  session := ⟨kind, state, none,
    if state = .starting ∧ kind = .agent then .starting now else .unknown⟩
  terminals := []
  spawned := 0
  slot := none
  pendingPrompt := none
  gate := none
  gates := 0
  watched := false
  calls := Store.empty
  arrivals := 0
  period := 0
  lines := []
  submissions := []
  pastes := []
  answers := []

end Host

end ForgeNode.Prompts
