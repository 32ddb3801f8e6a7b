import Mathlib.Data.Finset.Card
import ForgeNode.Lib.Run

/-! The requests to one language server: calls that wait for their replies, the reader that delivers
them and whoever declares the server exited, each split at its lock acquisitions. -/

namespace ForgeNode.Language

variable {id : Nat}

/-- A message that answers the request it names: a reply, an error, or that the answer was too
long. -/
structure Response (R : Type) where
  id : Nat
  body : R

/-- The channel of one request. Its sender is used once at most, and dropped then. -/
inductive Channel (R : Type) where
  | unused
  | opened
  | answered (reply : Response R)
  | closed

/-- `try_send` on a channel for one message. -/
def Channel.trySend {R : Type} (reply : Response R) : Channel R → Channel R
  | .answered first => .answered first
  | _ => .answered reply

/-- What a request returns. A stalled one has itself declared the server exited. -/
inductive Outcome (R : Type) where
  | answered (reply : Response R)
  | cancelled
  | timeout
  | exited
  | stalled
  | busy

/-- How far `mark_exited` has come: at its start, with the reason set, or with the queue closed. -/
inductive Stage where
  | begun | marked | taken
  deriving DecidableEq

/-- Where a thread stands between two lock acquisitions. -/
inductive Thread (R : Type) where
  | idle
  -- `send_request`
  | checked
  | numbered (id : Nat)
  | registered (id : Nat)
  | queueing (id : Nat)
  | stalled (id : Nat) (stage : Stage)
  | failing (id : Nat) (outcome : Outcome R)
  -- `await_reply`
  | awaiting (id : Nat)
  | abandoning (id : Nat) (outcome : Outcome R)
  | withdrawing (id : Nat) (outcome : Outcome R)
  | returned (id : Option Nat) (outcome : Outcome R)
  -- the drop of the last handle, and `mark_exited`
  | dropping
  | exiting (stage : Stage)
  | exited
  -- `on_response`
  | responding (reply : Response R)
  | delivering (reply : Response R)
  | responded

structure Server (R : Type) where
  exited : Bool
  outgoing : Bool
  pending : Finset Nat
  nextId : Nat
  channels : Nat → Channel R
  threads : Nat → Thread R

variable {R : Type}

namespace Server

def start : Server R := ⟨false, true, ∅, 1, fun _ => .unused, fun _ => .idle⟩

/-- A thread goes on. -/
def put (server : Server R) (k : Nat) (thread : Thread R) : Server R :=
  { server with threads := fun j => if j = k then thread else server.threads j }

/-- `pending.remove(&id)`, dropping the sender. -/
def remove (server : Server R) (id : Nat) : Server R :=
  { server with
    pending := server.pending.erase id
    channels := fun other =>
      if other = id ∧ id ∈ server.pending then .closed else server.channels other }

/-- `pending.clear()`. -/
def clear (server : Server R) : Server R :=
  { server with
    pending := ∅
    channels := fun other => if other ∈ server.pending then .closed else server.channels other }

/-- The sections of `mark_exited`; `gone` is where the thread goes on after the last. -/
def markExited (server : Server R) (k : Nat) (go : Stage → Thread R) (gone : Thread R) :
    Stage → Server R
  | .begun => { server with exited := true }.put k (go .marked)
  | .marked => { server with outgoing := false }.put k (go .taken)
  | .taken => server.clear.put k gone

end Server

/-- What a thread's next section depends on besides the server: how the queue took the message, and
whether the caller has cancelled or its deadline has passed. -/
inductive Choice where
  | go | late | stall | refused | cancel | expire
  deriving DecidableEq

/-- What a new thread does. -/
inductive Task (R : Type) where
  | request
  | exit
  | drop
  | response (reply : Response R)

inductive Event (R : Type) where
  | start (k : Nat) (task : Task R)
  | advance (k : Nat) (choice : Choice)

namespace Server

/-- The next section of a thread. -/
def advance (maxPending : Nat) (server : Server R) (k : Nat) (choice : Choice) : Server R :=
  match server.threads k with
  | .checked => { server with nextId := server.nextId + 1 }.put k (.numbered server.nextId)
  | .numbered id =>
    if server.pending.card ≥ maxPending then server.put k (.returned (some id) .busy)
    else
      { server with
        pending := insert id server.pending
        channels := fun other => if other = id then .opened else server.channels other }.put k
          (.registered id)
  | .registered id =>
    if server.outgoing then server.put k (.queueing id) else server.put k (.failing id .exited)
  | .queueing id =>
    match choice with
    | .late => server.put k (.failing id .timeout)
    | .stall => server.put k (.stalled id .begun)
    | .refused => server.put k (.failing id .exited)
    | _ => server.put k (.awaiting id)
  | .stalled id stage => server.markExited k (.stalled id) (.failing id .stalled) stage
  | .failing id outcome => (server.remove id).put k (.returned (some id) outcome)
  | .awaiting id =>
    match choice with
    | .cancel => server.put k (.abandoning id .cancelled)
    | .expire => server.put k (.abandoning id .timeout)
    | _ => match server.channels id with
      | .answered reply => server.put k (.returned (some id) (.answered reply))
      | .closed => server.put k (.returned (some id) .exited)
      | _ => server
  | .abandoning id outcome =>
    if id ∈ server.pending then (server.remove id).put k (.withdrawing id outcome)
    else server.put k (.returned (some id) outcome)
  | .withdrawing id outcome => server.put k (.returned (some id) outcome)
  | .dropping => { server with outgoing := false }.put k (.exiting .begun)
  | .exiting stage => server.markExited k .exiting .exited stage
  | .responding reply =>
    if reply.id ∈ server.pending then
      { server with pending := server.pending.erase reply.id }.put k (.delivering reply)
    else server.put k .responded
  | .delivering reply =>
    { server with channels := fun other =>
        if other = reply.id then (server.channels other).trySend reply
        else server.channels other }.put k .responded
  | .idle | .returned .. | .exited | .responded => server

def apply (maxPending : Nat) (server : Server R) : Event R → Server R
  | .start k task =>
    match server.threads k with
    | .idle => match task with
      | .request => server.put k (if server.exited then .returned none .exited else .checked)
      | .exit => server.put k (.exiting .begun)
      | .drop => server.put k .dropping
      | .response reply => server.put k (.responding reply)
    | _ => server
  | .advance k choice => server.advance maxPending k choice

def step (maxPending : Nat) (before : Server R) (event : Event R) (after : Server R) : Prop :=
  after = before.apply maxPending event

end Server

namespace Thread

/-- The request a thread is about. -/
def id? : Thread R → Option Nat
  | .numbered id | .registered id | .queueing id | .stalled id _ | .failing id _ | .awaiting id
  | .abandoning id _ | .withdrawing id _ => some id
  | .returned id _ => id
  | _ => none

/-- The request whose entry a thread still has to see to. -/
def live? : Thread R → Option Nat
  | .registered id | .queueing id | .stalled id _ | .failing id _ | .awaiting id
  | .abandoning id _ => some id
  | _ => none

/-- The request of a thread that does not wait and is not going to: it has not reached the queue, or
takes its entry back. -/
def early? : Thread R → Option Nat
  | .registered id | .failing id _ => some id
  | _ => none

/-- Before its entry is made. -/
def numbered? : Thread R → Option Nat
  | .numbered id => some id
  | _ => none

/-- Between closing the queue and clearing the entries. -/
def taken : Thread R → Bool
  | .exiting .taken | .stalled _ .taken => true
  | _ => false

/-- What a request is going to return, or has returned. -/
def outcome? : Thread R → Option (Outcome R)
  | .failing _ outcome | .abandoning _ outcome | .withdrawing _ outcome | .returned _ outcome =>
    some outcome
  | _ => none

/-- Has this thread run `mark_exited` to its end? -/
def gone : Thread R → Bool
  | .exited | .failing _ .stalled | .abandoning _ .stalled | .withdrawing _ .stalled
  | .returned _ .stalled => true
  | _ => false

def reply? : Thread R → Option (Response R)
  | .delivering reply => some reply
  | _ => none

/-- A call that has returned, or none. -/
def finished : Thread R → Bool
  | .idle | .returned .. | .exited | .responded => true
  | _ => false

end Thread

/-- What holds between the entries, the channels and the threads, at every moment. -/
structure Sound (maxPending : Nat) (server : Server R) : Prop where
  below : ∀ k id, (server.threads k).id? = some id → id < server.nextId
  own : ∀ j k id, (server.threads j).id? = some id → (server.threads k).id? = some id → j = k
  entry : ∀ id ∈ server.pending, server.channels id = .opened ∧ ∃ k, (server.threads k).live? =
    some id
  opened : ∀ id, server.channels id = .opened → id ∈ server.pending ∨
    ∃ k reply, (server.threads k).reply? = some reply ∧ reply.id = id
  used : ∀ id, server.channels id ≠ .unused →
    id < server.nextId ∧ ∀ k, (server.threads k).numbered? ≠ some id
  made : ∀ k id, (server.threads k).live? = some id → server.channels id ≠ .unused
  held : ∀ k reply, (server.threads k).reply? = some reply →
    reply.id ∉ server.pending ∧ server.channels reply.id = .opened
  one : ∀ j k reply other, (server.threads j).reply? = some reply →
    (server.threads k).reply? = some other → reply.id = other.id → j = k
  answer : ∀ id reply, server.channels id = .answered reply → reply.id = id
  outcome : ∀ k reply, (server.threads k).outcome? = some (.answered reply) →
    (server.threads k).id? = some reply.id
  size : server.pending.card ≤ maxPending
  taken : ∀ k, (server.threads k).taken = true → server.outgoing = false
  gone : ∀ k, (server.threads k).gone = true → server.outgoing = false ∧
    ∀ id ∈ server.pending, ∃ j, (server.threads j).early? = some id

theorem Thread.id_of_early {thread : Thread R} {id : Nat} (early : thread.early? = some id) :
    thread.id? = some id := by
  cases thread <;> first | exact early | cases early

section Steps

variable {maxPending : Nat} {server : Server R} {k : Nat} {thread : Thread R}

@[simp] theorem Server.put_threads (j : Nat) :
    (server.put k thread).threads j = if j = k then thread else server.threads j := rfl

@[simp] theorem Server.put_pending : (server.put k thread).pending = server.pending := rfl

@[simp] theorem Server.put_channels : (server.put k thread).channels = server.channels := rfl

@[simp] theorem Server.put_nextId : (server.put k thread).nextId = server.nextId := rfl

@[simp] theorem Server.put_outgoing : (server.put k thread).outgoing = server.outgoing := rfl

/-- A step of one thread alone: it keeps its request, or lets go of one whose entry is gone. -/
theorem Sound.moved (sound : Sound maxPending server)
    (id : thread.id? = (server.threads k).id? ∨ thread.id? = none)
    (live : ∀ id, (server.threads k).live? = some id → thread.live? = some id ∨ id ∉ server.pending)
    (known : ∀ id, thread.live? = some id → (server.threads k).live? = some id)
    (early : ∀ id, (server.threads k).early? = some id → thread.early? = some id ∨
      id ∉ server.pending ∨ server.outgoing = true)
    (numbered : thread.numbered? = none) (reply : thread.reply? = none)
    (was : (server.threads k).reply? = none)
    (outcome : ∀ reply, thread.outcome? = some (.answered reply) → thread.id? = some reply.id)
    (taken : thread.taken = true → server.outgoing = false)
    (gone : thread.gone = true → (server.threads k).gone = true) :
    Sound maxPending (server.put k thread) := by
  constructor
  all_goals simp only [Server.put_threads, Server.put_pending, Server.put_channels, Server.put_nextId,
    Server.put_outgoing]
  · intro j id known
    have here := sound.below k id
    have there := sound.below j id
    grind
  · grind [sound.own]
  · grind [sound.entry]
  · grind [sound.opened]
  · intro id known
    obtain ⟨below, fresh⟩ := sound.used id known
    grind
  · grind [sound.made]
  · grind [sound.held]
  · grind [sound.one]
  · exact sound.answer
  · grind [sound.outcome]
  · exact sound.size
  · grind [sound.taken]
  · grind [sound.gone]

/-- A request gets its number. -/
theorem Sound.numbered (sound : Sound maxPending server) (here : server.threads k = .checked) :
    Sound maxPending ({ server with nextId := server.nextId + 1 }.put k
      (.numbered server.nextId)) := by
  have fresh : server.channels server.nextId = .unused := by
    by_contra known
    exact Nat.lt_irrefl _ (sound.used _ known).1
  constructor
  all_goals simp only [Server.put_threads, Server.put_pending, Server.put_channels, Server.put_nextId,
    Server.put_outgoing]
  · intro j id known
    have there := sound.below j id
    grind [Thread.id?]
  · intro i j id first second
    have one := sound.below i id
    have two := sound.below j id
    have own := sound.own i j id
    grind [Thread.id?]
  · grind [sound.entry, Thread.live?]
  · grind [sound.opened, Thread.reply?]
  · intro id known
    obtain ⟨below, unnumbered⟩ := sound.used id known
    grind [Thread.numbered?]
  · grind [sound.made, Thread.live?]
  · grind [sound.held, Thread.reply?]
  · grind [sound.one, Thread.reply?]
  · exact sound.answer
  · grind [sound.outcome, Thread.outcome?]
  · exact sound.size
  · grind [sound.taken, Thread.taken]
  · grind [sound.gone, Thread.gone, Thread.early?]

/-- A request makes its entry where there is room. -/
theorem Sound.registered (sound : Sound maxPending server)
    (here : server.threads k = .numbered id) (room : server.pending.card < maxPending) :
    Sound maxPending ({ server with
      pending := insert id server.pending
      channels := fun other => if other = id then .opened else server.channels other }.put k
        (.registered id)) := by
  have mine : (server.threads k).id? = some id := by rw [here]; rfl
  have fresh : server.channels id = .unused := by
    by_contra known
    exact (sound.used id known).2 k (by rw [here]; rfl)
  have absent : id ∉ server.pending := fun member => by
    have opened := (sound.entry id member).1
    rw [fresh] at opened
    cases opened
  constructor
  all_goals simp only [Server.put_threads, Server.put_pending, Server.put_channels, Server.put_nextId,
    Server.put_outgoing, Finset.mem_insert]
  · intro j other known
    have there := sound.below j other
    have this := sound.below k id mine
    grind [Thread.id?]
  · intro i j other first second
    have one := sound.own i j other
    have left := sound.own i k other
    have right := sound.own k j other
    grind [Thread.id?]
  · grind [sound.entry, Thread.live?]
  · grind [sound.opened, Thread.reply?]
  · intro other known
    have below := sound.below k id mine
    have used := sound.used other
    have own := fun j => sound.own j k other
    refine ⟨by grind, fun j named => ?_⟩
    by_cases same : j = k
    · rw [if_pos same] at named
      cases named
    · rw [if_neg same] at named
      have shared : (server.threads j).id? = some other := by
        cases thread : server.threads j <;> rw [thread] at named <;> cases named
        rfl
      grind
  · grind [sound.made, Thread.live?]
  · grind [sound.held, Thread.reply?]
  · grind [sound.one, Thread.reply?]
  · grind [sound.answer]
  · grind [sound.outcome, Thread.outcome?]
  · rw [Finset.card_insert_of_notMem absent]
    exact room
  · grind [sound.taken, Thread.taken]
  · grind [sound.gone, Thread.gone, Thread.early?]

/-- A request takes its entry back. -/
theorem Sound.removed (sound : Sound maxPending server) {outcome : Outcome R}
    (live : (server.threads k).live? = some id) (mine : (server.threads k).id? = some id)
    (was : (server.threads k).reply? = none) (carried : (server.threads k).outcome? = some outcome)
    (now : thread = .returned (some id) outcome ∨ thread = .withdrawing id outcome) :
    Sound maxPending ((server.remove id).put k thread) := by
  have gone : thread.gone = true → (server.threads k).gone = true := by
    cases before : server.threads k <;> rw [before] at carried <;> cases carried <;>
      rcases now with rfl | rfl <;> cases outcome <;> simp [Thread.gone]
  have shape : thread.id? = some id ∧ thread.live? = none ∧ thread.early? = none ∧
      thread.numbered? = none ∧ thread.reply? = none ∧ thread.outcome? = some outcome ∧
      thread.taken = false := by
    rcases now with rfl | rfl <;> simp [Thread.id?, Thread.live?, Thread.early?, Thread.numbered?,
      Thread.reply?, Thread.outcome?, Thread.taken]
  clear now
  constructor
  all_goals simp only [Server.remove, Server.put_threads, Server.put_pending, Server.put_channels,
    Server.put_nextId, Server.put_outgoing, Finset.mem_erase]
  · intro j other known
    have there := sound.below j other
    have this := sound.below k id mine
    grind
  · grind [sound.own]
  · intro other member
    have entry := sound.entry other member.2
    grind
  · intro other opened
    have held := sound.opened other
    grind
  · intro other known
    have used := sound.used other
    grind [sound.entry]
  · intro j other known
    have made := sound.made j other
    grind
  · intro j reply held
    have there := sound.held j reply
    grind
  · grind [sound.one]
  · grind [sound.answer]
  · grind [sound.outcome]
  · exact Nat.le_trans (Finset.card_erase_le) sound.size
  · grind [sound.taken]
  · intro j ended
    have before := sound.gone j
    have here := sound.gone k
    have early := fun other => @Thread.id_of_early _ (server.threads k) other
    grind

/-- The queue is closed. -/
theorem Sound.closed (sound : Sound maxPending server)
    (id : thread.id? = (server.threads k).id?) (live : thread.live? = (server.threads k).live?)
    (early : thread.early? = (server.threads k).early?) (numbered : thread.numbered? = none)
    (reply : thread.reply? = none) (was : (server.threads k).reply? = none)
    (outcome : thread.outcome? = none) (gone : thread.gone = false) :
    Sound maxPending ({ server with outgoing := false }.put k thread) := by
  constructor
  all_goals simp only [Server.put_threads, Server.put_pending, Server.put_channels, Server.put_nextId,
    Server.put_outgoing]
  · intro j id known
    have here := sound.below k id
    have there := sound.below j id
    grind
  · grind [sound.own]
  · grind [sound.entry]
  · grind [sound.opened]
  · intro id known
    obtain ⟨below, fresh⟩ := sound.used id known
    grind
  · grind [sound.made]
  · grind [sound.held]
  · grind [sound.one]
  · exact sound.answer
  · grind [sound.outcome]
  · exact sound.size
  · exact fun _ _ => trivial
  · grind [sound.gone]

/-- The entries are cleared, once the queue is closed. -/
theorem Sound.cleared (sound : Sound maxPending server) (closed : server.outgoing = false)
    (id : thread.id? = (server.threads k).id?) (live : thread.live? = (server.threads k).live?)
    (numbered : thread.numbered? = none)
    (reply : thread.reply? = none) (was : (server.threads k).reply? = none)
    (outcome : ∀ reply, thread.outcome? ≠ some (.answered reply)) :
    Sound maxPending (server.clear.put k thread) := by
  constructor
  all_goals simp only [Server.clear, Server.put_threads, Server.put_pending, Server.put_channels,
    Server.put_nextId, Server.put_outgoing, Finset.notMem_empty]
  · intro j id known
    have here := sound.below k id
    have there := sound.below j id
    grind
  · grind [sound.own]
  · exact fun _ member => member.elim
  · intro other opened
    have held := sound.opened other
    grind
  · intro other known
    have used := sound.used other
    grind [sound.entry]
  · intro j other known
    have made := sound.made j other
    have here := sound.made k other
    grind
  · intro j reply held
    have there := sound.held j reply
    grind
  · grind [sound.one]
  · grind [sound.answer]
  · grind [sound.outcome]
  · exact Nat.zero_le _
  · exact fun _ _ => closed
  · exact fun _ _ => ⟨closed, fun _ member => member.elim⟩

/-- The reader takes the sender out of an entry. -/
theorem Sound.handed (sound : Sound maxPending server) {reply : Response R}
    (here : server.threads k = .responding reply) (member : reply.id ∈ server.pending) :
    Sound maxPending ({ server with pending := server.pending.erase reply.id }.put k
      (.delivering reply)) := by
  have opened := (sound.entry _ member).1
  constructor
  all_goals simp only [Server.put_threads, Server.put_pending, Server.put_channels, Server.put_nextId,
    Server.put_outgoing, Finset.mem_erase]
  · intro j id known
    have there := sound.below j id
    grind [Thread.id?]
  · grind [sound.own, Thread.id?]
  · intro other present
    have entry := sound.entry other present.2
    grind [Thread.live?]
  · intro other opened
    have held := sound.opened other
    by_cases same : other = reply.id
    · exact .inr ⟨k, reply, by simp [Thread.reply?], same.symm⟩
    · grind [Thread.reply?]
  · intro id known
    obtain ⟨below, fresh⟩ := sound.used id known
    grind [Thread.numbered?]
  · grind [sound.made, Thread.live?]
  · intro j other held
    have there := sound.held j other
    grind [Thread.reply?]
  · intro i j first second left right same
    have one := sound.one i j first second
    have mine := sound.held i first
    have other := sound.held j second
    grind [Thread.reply?]
  · exact sound.answer
  · grind [sound.outcome, Thread.outcome?]
  · exact Nat.le_trans (Finset.card_erase_le) sound.size
  · grind [sound.taken, Thread.taken]
  · intro j ended
    have before := sound.gone j
    grind [Thread.gone, Thread.early?]

/-- The reader sends the reply. -/
theorem Sound.delivered (sound : Sound maxPending server) {reply : Response R}
    (here : server.threads k = .delivering reply) :
    Sound maxPending ({ server with
      channels := fun other =>
        if other = reply.id then (server.channels other).trySend reply
        else server.channels other }.put k .responded) := by
  have mine : (server.threads k).reply? = some reply := by rw [here]; rfl
  obtain ⟨absent, opened⟩ := sound.held k reply mine
  have channel : ∀ other, (if other = reply.id then (server.channels other).trySend reply
      else server.channels other) = if other = reply.id then .answered reply else server.channels
        other := by
    intro other
    by_cases same : other = reply.id
    · rw [if_pos same, if_pos same, same, opened]
      rfl
    · rw [if_neg same, if_neg same]
  simp only [channel]
  constructor
  all_goals simp only [Server.put_threads, Server.put_pending, Server.put_channels, Server.put_nextId,
    Server.put_outgoing]
  · intro j id known
    have there := sound.below j id
    grind [Thread.id?]
  · grind [sound.own, Thread.id?]
  · intro other member
    have entry := sound.entry other member
    grind [Thread.live?]
  · intro other opened
    have held := sound.opened other
    grind [Thread.reply?]
  · intro id known
    have used := sound.used id
    grind [Thread.numbered?]
  · intro j id live
    have made := sound.made j id
    grind [Thread.live?]
  · intro j other held
    have there := sound.held j other
    have one := sound.one j k other reply
    grind [Thread.reply?]
  · grind [sound.one, Thread.reply?]
  · intro id other
    have answer := sound.answer id other
    grind
  · grind [sound.outcome, Thread.outcome?]
  · exact sound.size
  · grind [sound.taken, Thread.taken]
  · intro j ended
    have before := sound.gone j
    grind [Thread.gone, Thread.early?]

theorem start_sound (maxPending : Nat) : Sound maxPending (Server.start : Server R) := by
  constructor <;> simp [Server.start, Thread.id?, Thread.live?, Thread.reply?, Thread.outcome?,
    Thread.taken, Thread.gone]

/-- A thread goes through a section of `mark_exited`. -/
theorem Sound.markExited (sound : Sound maxPending server) {go : Stage → Thread R} {gone : Thread R}
    {stage : Stage} (here : server.threads k = go stage) (ends : gone.live? = (go .taken).live?)
    (alike : ∀ first second, (go first).id? = (go second).id? ∧ (go first).live? =
      (go second).live? ∧
      gone.id? = (go first).id?)
    (plain : ∀ stage, (go stage).early? = none ∧ (go stage).numbered? = none ∧
      (go stage).reply? = none ∧ (go stage).outcome? = none ∧ (go stage).gone = false ∧
      (go stage).taken = decide (stage = .taken))
    (numbered : gone.numbered? = none) (reply : gone.reply? = none)
    (outcome : ∀ reply, gone.outcome? ≠ some (.answered reply)) :
    Sound maxPending (server.markExited k go gone stage) := by
  have was := plain stage
  cases stage with
  | begun =>
    have marked : Sound maxPending { server with exited := true } :=
      ⟨sound.below, sound.own, sound.entry, sound.opened, sound.used, sound.made, sound.held,
      sound.one,
        sound.answer, sound.outcome, sound.size, sound.taken, sound.gone⟩
    have now := plain .marked
    have same := alike .marked .begun
    have there : ({ server with exited := true } : Server R).threads k = go .begun := here
    refine marked.moved ?_ ?_ ?_ ?_ now.2.1 now.2.2.1 ?_ ?_ ?_ ?_
    · rw [there]
      exact .inl same.1
    · rw [there]
      exact fun id live => .inl (same.2.1.trans live)
    · rw [there]
      exact fun id live => same.2.1.symm.trans live
    · rw [there, was.1]
      exact fun id early => by cases early
    · rw [there]
      exact was.2.2.1
    · rw [now.2.2.2.1]
      exact fun reply answered => by cases answered
    · rw [now.2.2.2.2.2]
      exact fun taken => by simp at taken
    · rw [now.2.2.2.2.1]
      exact fun ended => by cases ended
  | marked =>
    have now := plain .taken
    have same := alike .taken .marked
    refine sound.closed ?_ ?_ ?_ now.2.1 now.2.2.1 ?_ now.2.2.2.1 now.2.2.2.2.1 <;> rw [here]
    · exact same.1
    · exact same.2.1
    · rw [was.1, now.1]
    · exact was.2.2.1
  | taken =>
    have closed := sound.taken k (by rw [here, was.2.2.2.2.2]; rfl)
    refine sound.cleared closed ?_ ?_ numbered reply ?_ outcome <;> rw [here]
    · exact (alike .taken .taken).2.2
    · exact ends
    · exact was.2.2.1

/-- A thread goes on with the request it has. -/
theorem Sound.proceeds (sound : Sound maxPending server) {before} (here : server.threads k = before)
    (id : thread.id? = before.id?) (live : thread.live? = before.live?)
    (early : ∀ id, before.early? = some id → thread.early? = some id ∨
      id ∉ server.pending ∨ server.outgoing = true)
    (fresh : thread.numbered? = none) (reply : thread.reply? = none) (was : before.reply? = none)
    (silent : ∀ reply, thread.outcome? ≠ some (.answered reply)) (taken : thread.taken = false)
    (gone : thread.gone = false) : Sound maxPending (server.put k thread) := by
  refine sound.moved (.inl (here ▸ id)) (fun id known => .inl ?_) (fun id known => ?_)
    (here ▸ early) fresh reply (here ▸ was) (fun reply outcome => absurd outcome (silent reply))
    (fun taken_ => absurd (taken.symm.trans taken_) nofun) (fun gone_ =>
    absurd (gone.symm.trans gone_) nofun)
  · rw [here] at known
    exact live.trans known
  · rw [here]
    exact live.symm.trans known

/-- Every section of a thread keeps what holds. -/
theorem Sound.advance (sound : Sound maxPending server) (k : Nat) (choice : Choice) :
    Sound maxPending (server.advance maxPending k choice) := by
  cases here : server.threads k with
  | idle | returned | exited | responded =>
    simp only [Server.advance, here]
    exact sound
  | checked =>
    simp only [Server.advance, here]
    exact sound.numbered here
  | numbered id =>
    simp only [Server.advance, here]
    split
    · exact sound.moved (.inl (by rw [here]; rfl)) (by simp [here, Thread.live?])
        (by simp [Thread.live?]) (by simp [here, Thread.early?]) rfl rfl (by rw [here]; rfl)
        (by simp [Thread.outcome?])
        (by simp [Thread.taken]) (by simp [Thread.gone])
    · exact sound.registered here (by omega)
  | registered id =>
    simp only [Server.advance, here]
    split
    · rename_i outgoing
      exact sound.proceeds here rfl rfl (fun _ _ => .inr (.inr outgoing)) rfl rfl rfl nofun rfl rfl
    · exact sound.proceeds here rfl rfl (by simp [Thread.early?]) rfl rfl rfl nofun rfl rfl
  | queueing id =>
    simp only [Server.advance, here]
    split <;>
      exact sound.proceeds here rfl rfl (by simp [Thread.early?]) rfl rfl rfl nofun rfl rfl
  | stalled id stage =>
    simp only [Server.advance, here]
    exact sound.markExited here rfl (fun _ _ => ⟨rfl, rfl, rfl⟩)
      (fun stage => ⟨rfl, rfl, rfl, rfl, rfl, by cases stage <;> rfl⟩) rfl rfl
      (by simp [Thread.outcome?])
  | failing id outcome =>
    simp only [Server.advance, here]
    exact sound.removed (by rw [here]; rfl) (by rw [here]; rfl) (by rw [here]; rfl)
      (by rw [here]; rfl) (.inl rfl)
  | awaiting id =>
    have entry := sound.entry id
    simp only [Server.advance, here]
    split
    · exact sound.proceeds here rfl rfl (by simp [Thread.early?]) rfl rfl rfl nofun rfl rfl
    · exact sound.proceeds here rfl rfl (by simp [Thread.early?]) rfl rfl rfl nofun rfl rfl
    · split
      · rename_i reply answered
        have mine := sound.answer id reply answered
        refine sound.moved (.inl (by rw [here]; rfl)) (fun other live => .inr ?_)
          (by simp [Thread.live?]) (by simp [here, Thread.early?]) rfl rfl (by rw [here]; rfl)
          (by simp [Thread.outcome?, Thread.id?, mine]) (by simp [Thread.taken])
          (by simp [Thread.gone])
        rw [here] at live
        obtain rfl := Option.some.inj live
        intro member
        simp [answered] at entry
        exact entry member
      · rename_i closed
        refine sound.moved (.inl (by rw [here]; rfl)) (fun other live => .inr ?_)
          (by simp [Thread.live?]) (by simp [here, Thread.early?]) rfl rfl (by rw [here]; rfl)
          (by simp [Thread.outcome?]) (by simp [Thread.taken]) (by simp [Thread.gone])
        rw [here] at live
        obtain rfl := Option.some.inj live
        intro member
        simp [closed] at entry
        exact entry member
      · exact sound
  | abandoning id outcome =>
    simp only [Server.advance, here]
    split
    · exact sound.removed (by rw [here]; rfl) (by rw [here]; rfl) (by rw [here]; rfl)
        (by rw [here]; rfl) (.inr rfl)
    · rename_i absent
      refine sound.moved (.inl (by rw [here]; rfl)) (fun other live => .inr ?_)
        (by simp [Thread.live?]) (by simp [here, Thread.early?]) rfl rfl (by rw [here]; rfl) ?_
        (by simp [Thread.taken]) ?_
      · rw [here] at live
        obtain rfl := Option.some.inj live
        exact absent
      · have outcome := sound.outcome k
        rw [here] at outcome
        exact outcome
      · rw [here]
        cases outcome <;> simp [Thread.gone]
  | withdrawing id outcome =>
    simp only [Server.advance, here]
    refine sound.moved (.inl (by rw [here]; rfl)) (by simp [here, Thread.live?])
      (by simp [Thread.live?]) (by simp [here, Thread.early?]) rfl rfl (by rw [here]; rfl) ?_
      (by simp [Thread.taken]) ?_
    · have outcome := sound.outcome k
      rw [here] at outcome
      exact outcome
    · rw [here]
      cases outcome <;> simp [Thread.gone]
  | dropping =>
    simp only [Server.advance, here]
    exact sound.closed (by rw [here]; rfl) (by rw [here]; rfl) (by rw [here]; rfl) rfl rfl
      (by rw [here]; rfl)
      rfl rfl
  | exiting stage =>
    simp only [Server.advance, here]
    exact sound.markExited here rfl (fun _ _ => ⟨rfl, rfl, rfl⟩)
      (fun stage => ⟨rfl, rfl, rfl, rfl, rfl, by cases stage <;> rfl⟩) rfl rfl
      (by simp [Thread.outcome?])
  | responding reply =>
    simp only [Server.advance, here]
    split
    · exact sound.handed here ‹_›
    · exact sound.moved (.inl (by rw [here]; rfl)) (by simp [here, Thread.live?])
        (by simp [Thread.live?]) (by simp [here, Thread.early?]) rfl rfl (by rw [here]; rfl)
        (by simp [Thread.outcome?])
        (by simp [Thread.taken]) (by simp [Thread.gone])
  | delivering reply =>
    simp only [Server.advance, here]
    exact sound.delivered here

/-- Every step keeps what holds. -/
theorem step_sound {before after : Server R} {event : Event R}
    (taken : Server.step maxPending before event after) (sound : Sound maxPending before) :
    Sound maxPending after := by
  rw [taken]
  cases event with
  | advance k choice => exact sound.advance k choice
  | start k task =>
    cases here : before.threads k with
    | idle =>
      have fresh (thread : Thread R) (id : thread.id? = none) (live : thread.live? = none)
          (numbered : thread.numbered? = none) (reply : thread.reply? = none)
          (outcome : ∀ reply, thread.outcome? ≠ some (.answered reply)) (taken : thread.taken = false)
          (gone : thread.gone = false) : Sound maxPending (before.put k thread) :=
        sound.moved (.inr id) (by simp [here, Thread.live?]) (by simp [live])
        (by simp [here, Thread.early?])
          numbered reply (by rw [here]; rfl) (fun reply answered => absurd answered (outcome reply))
          (by simp [taken]) (by simp [gone])
      cases task with
      | request =>
        simp only [Server.apply, here]
        split
        · exact fresh _ rfl rfl rfl rfl (by simp [Thread.outcome?]) rfl rfl
        · exact fresh _ rfl rfl rfl rfl (by simp [Thread.outcome?]) rfl rfl
      | exit | drop | response =>
        simp only [Server.apply, here]
        exact fresh _ rfl rfl rfl rfl (by simp [Thread.outcome?]) rfl rfl
    | _ =>
      simp only [Server.apply, here]
      exact sound

/-- What a step never takes back: an answer in a channel, and what a call has returned. -/
structure Keeps (before after : Server R) : Prop where
  answered : ∀ id reply, before.channels id = .answered reply → after.channels id = .answered reply
  returned : ∀ k id outcome, before.threads k = .returned id outcome →
    after.threads k = .returned id outcome

theorem Keeps.refl (server : Server R) : Keeps server server :=
  ⟨fun _ _ same => same, fun _ _ _ same => same⟩

theorem Keeps.trans {first second third : Server R} (one : Keeps first second)
    (two : Keeps second third) : Keeps first third :=
  ⟨fun id reply answered => two.answered id reply (one.answered id reply answered),
    fun k id outcome returned => two.returned k id outcome (one.returned k id outcome returned)⟩

theorem Keeps.put {before after : Server R} (kept : Keeps before after)
    (going : ∀ id outcome, before.threads k ≠ .returned id outcome) :
    Keeps before (after.put k thread) := by
  refine ⟨kept.answered, fun j id outcome returned => ?_⟩
  have other : j ≠ k := fun same => going id outcome (same ▸ returned)
  rw [Server.put_threads, if_neg other]
  exact kept.returned j id outcome returned

theorem Sound.unanswered (sound : Sound maxPending server) {reply : Response R}
    (answered : server.channels id = .answered reply) : id ∉ server.pending := fun member => by
  have opened := (sound.entry id member).1
  rw [answered] at opened
  cases opened

theorem Sound.remove_keeps (sound : Sound maxPending server) (id : Nat) :
    Keeps server (server.remove id) := by
  refine ⟨fun other reply answered => ?_, fun _ _ _ returned => returned⟩
  have absent := sound.unanswered answered
  show (if other = id ∧ id ∈ server.pending then Channel.closed else server.channels other) = _
  rw [if_neg fun both : other = id ∧ id ∈ server.pending => absent (both.1 ▸ both.2)]
  exact answered

theorem Sound.clear_keeps (sound : Sound maxPending server) : Keeps server server.clear := by
  refine ⟨fun other reply answered => ?_, fun _ _ _ returned => returned⟩
  show (if other ∈ server.pending then Channel.closed else server.channels other) = _
  rw [if_neg (sound.unanswered answered)]
  exact answered

theorem Sound.markExited_keeps (sound : Sound maxPending server) {go : Stage → Thread R}
    {gone : Thread R} {stage : Stage}
    (going : ∀ id outcome, server.threads k ≠ .returned id outcome) :
    Keeps server (server.markExited k go gone stage) := by
  cases stage with
  | begun | marked => exact Keeps.put ⟨fun _ _ same => same, fun _ _ _ same => same⟩ going
  | taken => exact sound.clear_keeps.put going

theorem Sound.advance_keeps (sound : Sound maxPending server) (k : Nat) (choice : Choice) :
    Keeps server (server.advance maxPending k choice) := by
  have going (thread : Thread R) (here : server.threads k = thread)
      (unreturned : ∀ id outcome, thread ≠ .returned id outcome) :
      ∀ id outcome, server.threads k ≠ .returned id outcome := fun id outcome =>
      here ▸ unreturned id outcome
  have same := Keeps.refl server
  cases here : server.threads k with
  | idle | returned | exited | responded =>
    simp only [Server.advance, here]
    exact same
  | checked =>
    simp only [Server.advance, here]
    exact Keeps.put ⟨same.answered, same.returned⟩ (going _ here nofun)
  | numbered id =>
    simp only [Server.advance, here]
    split
    · exact same.put (going _ here nofun)
    · refine Keeps.put ⟨fun other reply answered => ?_, same.returned⟩ (going _ here nofun)
      have used := sound.used other (by rw [answered]; nofun)
      have different : other ≠ id := fun alike => used.2 k (by rw [here, alike]; rfl)
      simpa [different] using answered
  | registered id | queueing id | withdrawing id outcome =>
    simp only [Server.advance, here]
    first
    | exact same.put (going _ here nofun)
    | split <;> exact same.put (going _ here nofun)
  | stalled id stage | exiting stage =>
    simp only [Server.advance, here]
    exact sound.markExited_keeps (going _ here nofun)
  | failing id outcome =>
    simp only [Server.advance, here]
    exact (sound.remove_keeps id).put (going _ here nofun)
  | awaiting id =>
    simp only [Server.advance, here]
    split
    · exact same.put (going _ here nofun)
    · exact same.put (going _ here nofun)
    · split
      · exact same.put (going _ here nofun)
      · exact same.put (going _ here nofun)
      · exact same
  | abandoning id outcome =>
    simp only [Server.advance, here]
    split
    · exact (sound.remove_keeps id).put (going _ here nofun)
    · exact same.put (going _ here nofun)
  | dropping =>
    simp only [Server.advance, here]
    exact Keeps.put ⟨same.answered, same.returned⟩ (going _ here nofun)
  | responding reply =>
    simp only [Server.advance, here]
    split
    · exact Keeps.put ⟨same.answered, same.returned⟩ (going _ here nofun)
    · exact same.put (going _ here nofun)
  | delivering reply =>
    simp only [Server.advance, here]
    refine Keeps.put ⟨fun other first answered => ?_, same.returned⟩ (going _ here nofun)
    by_cases alike : other = reply.id
    · simp only [alike, if_true]
      rw [alike] at answered
      rw [answered]
      rfl
    · simpa [alike] using answered

theorem step_keeps {before after : Server R} {event : Event R}
    (taken : Server.step maxPending before event after) (sound : Sound maxPending before) :
    Keeps before after := by
  rw [taken]
  cases event with
  | advance k choice => exact sound.advance_keeps k choice
  | start k task =>
    cases here : before.threads k with
    | idle =>
      have going : ∀ id outcome, before.threads k ≠ .returned id outcome := by
        rw [here]
        nofun
      cases task <;> simp only [Server.apply, here] <;> exact (Keeps.refl before).put going
    | _ =>
      simp only [Server.apply, here]
      exact Keeps.refl before

theorem Sound.settled (sound : Sound maxPending server)
    (all : ∀ k, (server.threads k).finished = true) : server.pending = ∅ := by
  refine Finset.eq_empty_of_forall_notMem fun id member => ?_
  obtain ⟨_, k, live⟩ := sound.entry id member
  have finished := all k
  cases thread : server.threads k <;> simp_all [Thread.live?, Thread.finished]

/-- A wait whose entry is gone ends at its next look, or as soon as the reader has sent what it
holds. -/
def Server.ends (maxPending : Nat) (server : Server R) (k id : Nat) : Prop :=
  (∃ outcome, (server.advance maxPending k .go).threads k = .returned (some id) outcome) ∨
    ∃ j reply, server.threads j = .delivering reply ∧ reply.id = id ∧
      ((server.advance maxPending j .go).advance maxPending k .go).threads k =
        .returned (some id) (.answered reply)

/-- Nobody is left waiting once the server has been declared exited. -/
theorem Sound.wait_ends (sound : Sound maxPending server) {j id : Nat}
    (gone : (server.threads j).gone = true) (waiting : server.threads k = .awaiting id) :
    server.ends maxPending k id := by
  have mine : (server.threads k).id? = some id := by rw [waiting]; rfl
  have absent : id ∉ server.pending := fun member => by
    obtain ⟨i, early⟩ := (sound.gone j gone).2 id member
    obtain rfl := sound.own i k id (Thread.id_of_early early) mine
    rw [waiting] at early
    cases early
  have made := sound.made k id (by rw [waiting]; rfl)
  cases channel : server.channels id with
  | unused => exact absurd channel made
  | answered reply => exact .inl ⟨.answered reply, by simp [Server.advance, waiting, channel]⟩
  | closed => exact .inl ⟨.exited, by simp [Server.advance, waiting, channel]⟩
  | opened =>
    obtain member | ⟨i, reply, held, rfl⟩ := sound.opened id channel
    · exact absurd member absent
    · have delivering : server.threads i = .delivering reply := by
        cases thread : server.threads i <;> rw [thread] at held <;> cases held
        rfl
      have other : k ≠ i := fun same => by
        rw [same, delivering] at waiting
        cases waiting
      refine .inr ⟨i, reply, delivering, rfl, ?_⟩
      simp [Server.advance, delivering, waiting, other, channel, Channel.trySend]

/-- In every run of calls, replies and exits: an answer is the one reply with the request's number
and is never taken back, no two calls share a number, there are never more entries than allowed,
none is left when all have returned, and nobody waits on once the server has been declared
exited. -/
theorem requests_answered_once {steps : List (Taken (Server R) (Event R))}
    (run : Run (Server.step maxPending) Server.start steps server) :
    (∀ k id reply, server.threads k = .returned id (.answered reply) → id = some reply.id) ∧
      (∀ j k id, (server.threads j).id? = some id → (server.threads k).id? = some id → j = k) ∧
      (Run.states Server.start steps).Pairwise Keeps ∧
      server.pending.card ≤ maxPending ∧
      ((∀ k, (server.threads k).finished = true) → server.pending = ∅) ∧
      ∀ j k id, (server.threads j).gone = true → server.threads k = .awaiting id →
        server.ends maxPending k id := by
  obtain ⟨sound, each⟩ := run.invariant (Sound maxPending) step_sound (start_sound maxPending)
  refine ⟨fun k id reply returned => ?_, sound.own, ?_, sound.size, sound.settled,
    fun j k id gone waiting => sound.wait_ends gone waiting⟩
  · have outcome := sound.outcome k reply (by rw [returned]; rfl)
    rw [returned] at outcome
    exact outcome
  · exact run.states_pairwise Keeps Keeps.trans
      fun taken member => step_keeps (run.step_of_mem member) (each taken member).1

end Steps

section Two

/-- One call waits, another one's answer has come, and the server is declared exited. -/
private def twoCalls : List (Event Nat) :=
  [.start 0 .request, .advance 0 .go, .advance 0 .go, .advance 0 .go, .advance 0 .go,
    .start 1 .request, .advance 1 .go, .advance 1 .go, .advance 1 .go, .advance 1 .go,
    .start 2 (.response ⟨2, 7⟩), .advance 2 .go, .advance 2 .go, .advance 1 .go,
    .start 3 .exit, .advance 3 .go, .advance 3 .go, .advance 3 .go]

private def afterTwo : Server Nat := Run.replay (Server.apply 2) Server.start twoCalls

private theorem afterTwo_run :
    Run (Server.step 2) Server.start (Run.trace (Server.apply 2) Server.start twoCalls) afterTwo :=
  Run.of_admits (fun _ => rfl) (show Run.admits (Server.apply 2) (fun _ _ => true) _ twoCalls =
    true from rfl)

theorem requests_answered_once_two :
    afterTwo.threads 1 = .returned (some 2) (.answered ⟨2, 7⟩) ∧ afterTwo.pending.card ≤ 2 ∧
      afterTwo.ends 2 0 1 :=
  have law := requests_answered_once afterTwo_run
  ⟨rfl, law.2.2.2.1, law.2.2.2.2.2 3 0 1 rfl rfl⟩

end Two

end ForgeNode.Language
