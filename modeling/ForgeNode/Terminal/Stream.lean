import ForgeNode.Lib.Run

/-! The stream of one terminal to one client: attach, backpressure, recovery and the terminal's
end, each step under the locks it takes. -/

namespace ForgeNode.Terminal

/-- What a client's queue holds; any message that is not about the terminal is `other`. -/
inductive Message where
  | ack (seq : Nat)
  | delta (seq : Nat)
  | resync (seq : Nat)
  | other
  deriving DecidableEq

def clientQueueCapacity : Nat := 256

def deltaHighWater : Nat := 64

def deltaLowWater : Nat := 8

/-- An `AttachTerminal` under way: the sequence of its snapshot, and whether its answer is
queued. -/
structure Attach where
  id : Nat
  seq : Nat
  acked : Bool
  deriving DecidableEq

/-- The writer task: before its next message, before it looks whether the client is behind, and
in the recovery that it then waits for. -/
inductive Writer where
  | idle | checking | recovering
  deriving DecidableEq

/-- One terminal, one client's handle for it, the client's queue and writer, the attaches and the
recoveries under way, and the client's replica with what it received. -/
structure Link where
  emitSeq : Nat
  live : Bool
  connected : Bool
  subscribed : Bool
  behind : Bool
  attaching : Option Bool
  finished : Option Nat
  queue : List Message
  attaches : List Attach
  recovers : Nat
  writer : Writer
  grid : Option Nat
  asked : Bool
  received : List Message

namespace Link

variable (link : Link)

/-- `try_send`, none where the queue is full. -/
def trySend (message : Message) : Option Link :=
  if link.queue.length < clientQueueCapacity then some
    { link with queue := link.queue ++ [message] } else none

/-- The subscription, taken with the attach snapshot. -/
def beginAttach (id : Nat) : Link :=
  if !link.live then link
  else
    let started := { link with attaches := ⟨id, link.emitSeq, false⟩ :: link.attaches }
    if link.connected then { started with subscribed := true, behind := false, attaching := some false }
    else started

def unregister : Link :=
  { link with
    connected := false, subscribed := false, behind := false, attaching := none, finished := none }

/-- The answer is queued, or the connection dropped. -/
def sendAck (attach : Attach) : Link :=
  match (if link.connected then link.trySend (.ack attach.seq) else none) with
  | some sent => { sent with
      attaches := link.attaches.map fun other =>
        if other = attach then { other with acked := true } else other }
  | none => { link.unregister with attaches := link.attaches.erase attach }

/-- `finish_attach`, and the recovery that is owed where a delta was withheld. -/
def finishAttach (attach : Attach) : Link :=
  let ended := { link with attaches := link.attaches.erase attach }
  if !link.connected then ended
  else
    let missed := link.attaching.getD false
    let closed :=
      { ended with attaching := none, behind := link.behind || (missed && link.subscribed) }
    if missed then { closed with recovers := link.recovers + 1 } else closed

/-- `route_terminal_delta`, of a delta that was just counted. -/
def routeTerminalDelta : Link :=
  if !link.subscribed then link
  else match link.attaching with
    | some _ => { link with attaching := some true }
    | none =>
      if link.behind then
        if link.queue.length > deltaLowWater then link
        else match link.trySend (.resync link.emitSeq) with
          | some sent => { sent with behind := false }
          | none => link
      else if link.queue.length ≥ deltaHighWater then { link with behind := true }
      else match link.trySend (.delta link.emitSeq) with
        | some sent => sent
        | none => { link with behind := true }

def emit : Link := if link.live then { link with emitSeq := link.emitSeq + 1 }.routeTerminalDelta
    else link

def recover : Link :=
  if !link.behind then link
  else if link.queue.length > deltaLowWater then link
  else match link.finished.or (if link.live then some link.emitSeq else none) with
    | none => { link with finished := none, behind := false }
    | some seq => match link.trySend (.resync seq) with
      | some sent => { sent with finished := none, behind := false }
      | none => { link with finished := some seq }

/-- The last grid is kept for a client that has not got it, and the terminal is gone. -/
def finishTerminal : Link :=
  let kept := if link.behind || link.attaching = some true then some link.emitSeq else link.finished
  if link.live then { link with live := false, finished := kept } else link

/-- What the client's store does with a message about the terminal. -/
def receive (message : Message) : Link :=
  let taken := { link with received := link.received ++ [message] }
  match message, link.grid with
  | .ack seq, _ => { taken with grid := some seq }
  | .delta _, none => taken
  | .delta seq, some last =>
    if seq ≤ last then taken
    else if seq > last + 1 then { taken with asked := true }
    else { taken with grid := some seq }
  | .resync _, none => taken
  | .resync seq, some last => if seq < last then taken else { taken with grid := some seq }
  | .other, _ => taken

/-- The writer writes the next message to the socket. -/
def drain : Link := match link.queue with
  | message :: rest => { link with queue := rest, writer := .checking }.receive message
  | [] => link

/-- The writer looks whether the client is behind. -/
def check : Link :=
  { link with writer :=
      if link.queue.length ≤ deltaLowWater && link.behind then .recovering else .idle }

inductive Turn where
  | beginAttach (id : Nat)
  | sendAck (attach : Attach)
  | finishAttach (attach : Attach)
  | emit
  | finishTerminal
  | disconnect
  | other
  | drain
  | check
  | recoverWriter
  | recoverAttach

def step : Turn → Link
  | .beginAttach id => link.beginAttach id
  | .sendAck attach => link.sendAck attach
  | .finishAttach attach => link.finishAttach attach
  | .emit => link.emit
  | .finishTerminal => link.finishTerminal
  | .disconnect => link.unregister
  | .other => if link.connected then (link.trySend .other).getD link else link
  | .drain => link.drain
  | .check => link.check
  | .recoverWriter => { link.recover with writer := .idle }
  | .recoverAttach => { link.recover with recovers := link.recovers - 1 }

def allows : Turn → Bool
  | .beginAttach id => link.attaches.all fun attach => attach.id != id
  | .sendAck attach => attach ∈ link.attaches && !attach.acked
  | .finishAttach attach => attach ∈ link.attaches && attach.acked
  | .drain => link.writer = .idle
  | .check => link.writer = .checking
  | .recoverWriter => link.writer = .recovering
  | .recoverAttach => 0 < link.recovers
  | _ => true

def Step (before : Link) (turn : Turn) (after : Link) : Prop :=
  before.allows turn = true ∧ after = before.step turn

/-- A client that connected, and a terminal that emitted so many deltas. -/
def initial (emitSeq : Nat) : Link where
  emitSeq := emitSeq
  live := true
  connected := true
  subscribed := false
  behind := false
  attaching := none
  finished := none
  queue := []
  attaches := []
  recovers := 0
  writer := .idle
  grid := none
  asked := false
  received := []

/-- Attaches that overlap settle in order: no answer is queued behind one of a newer snapshot, or
a delta is already withheld, and none is finished before the others are answered. -/
def inOrder (link : Link) : Turn → Bool
  | .sendAck attach => !link.connected || link.attaching = some true ||
      link.attaches.all fun other => !other.acked || other.seq ≤ attach.seq
  | .finishAttach attach =>
    !link.connected || link.attaches.all fun other => other = attach || other.acked
  | _ => true

end Link

end ForgeNode.Terminal
