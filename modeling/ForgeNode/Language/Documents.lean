import Mathlib.Data.List.Infix
import ForgeNode.Lib.Run
import ForgeNode.Lib.Store

/-! The documents of one language server: calls that are folded into a map until `initialize` is
answered, their replay, and the messages queued from then on. The lock of the documents is held
through each. -/

namespace ForgeNode.Documents

open List Store

abbrev Path := String

/-- A document as it is going to be opened. -/
structure Deferred where
  path : Path
  languageId : String
  version : Int
  text : String
  deriving DecidableEq

inductive DocOp where
  | open_ (languageId : String) (version : Int) (text : String)
  | change (version : Int) (text : String)
  | save
  | close
  deriving DecidableEq

inductive Message where
  -- the request `initialize`
  | initializing
  | initialized
  | didOpen (doc : Deferred)
  | didChange (path : Path) (version : Int) (text : String)
  | didSave (path : Path)
  | didClose (path : Path)
  | definition (id : Nat)
  deriving DecidableEq

/-- The documents open in a server, by their paths. -/
abbrev Docs := Path → Option Deferred

namespace Docs

def empty : Docs := fun _ => none

def set (docs : Docs) (path : Path) (doc : Option Deferred) : Docs := fun other =>
  if other = path then doc else docs other

/-- What a call does to the documents that are open. -/
def apply (docs : Docs) (path : Path) : DocOp → Docs
  | .open_ languageId version text => docs.set path (some ⟨path, languageId, version, text⟩)
  | .change version text => docs.set path ((docs path).map fun doc => { doc with version, text })
  | .save => docs
  | .close => docs.set path none

/-- What the server does with a message of its queue. -/
def receive (docs : Docs) : Message → Docs
  | .didOpen doc => docs.set doc.path (some doc)
  | .didChange path version text =>
    docs.set path ((docs path).map fun doc => { doc with version, text })
  | .didClose path => docs.set path none
  | _ => docs

end Docs

inductive Call where
  | document (path : Path) (op : DocOp)
  | definition (id : Nat)
  deriving DecidableEq

/-- The documents open once the calls have been made, in their order. -/
def applied (calls : List Call) : Docs :=
  calls.foldl (fun docs call => match call with
    | .document path op => docs.apply path op
    | .definition _ => docs) .empty

/-- The documents open in the server once it has processed its queue. -/
def opened (queue : List Message) : Docs := queue.foldl Docs.receive .empty

/-- The notification that `document` sends. -/
def DocOp.message (path : Path) : DocOp → Message
  | .open_ languageId version text => .didOpen ⟨path, languageId, version, text⟩
  | .change version text => .didChange path version text
  | .save => .didSave path
  | .close => .didClose path

/-- What `document` does to the deferred documents. -/
def defer (path : Path) (deferred : Store Deferred.path) : DocOp → Store Deferred.path
  | .open_ languageId version text => deferred.put ⟨path, languageId, version, text⟩
  | .change version text =>
    match deferred.get? path with
    | none => deferred
    | some doc => deferred.put { doc with version, text }
  | .save => deferred
  | .close => deferred.retain fun doc => decide (doc.path ≠ path)

/-- Who holds the lock of the documents, and what they are sending. Once `enqueue` has taken the
sender it knows when the server counts as stalled. -/
inductive Holder where
  | free
  | greeting (stall : Nat) (stallAt : Option Nat)
  | replaying (rest : List Deferred) (stall : Nat) (stallAt : Option Nat)
  | sending (message : Message) (stallAt : Option Nat)
  | requesting (id : Nat) (deadline : Nat) (stallAt : Option Nat)

/-- How far the thread of `initialize` has come: waiting for its reply, for the lock, holding it,
about to report the server initialized, or at its end. -/
inductive Init where
  | asking | answered | flushing | unlocked | done
  deriving DecidableEq

structure Server where
  clock : Nat
  exited : Bool
  -- The sender has been taken out, or the writer has stopped.
  closing : Bool
  -- `state.initialized` and `docs.initialized`.
  ready : Bool
  initialized : Bool
  deferred : Store Deferred.path
  holder : Holder
  init : Init
  nextId : Nat
  queue : List Message
  -- The calls in the order in which they took the lock, of those that found the server running.
  asked : List Call

inductive Event where
  | tick
  | exit
  | close
  | reply (ok : Bool)
  -- `initialize` takes the lock; the order is the one in which the map will be read.
  | flush
  | document (path : Path) (op : DocOp)
  | definition (deadline : Nat)
  -- The holder of the lock takes the sender; its message is queued, is not in time, or is refused.
  | enqueue
  | sent (order : List Deferred)
  | timeout
  | refused
  | unlock
  | ready

namespace Server

def start : Server where
  clock := 0
  exited := false
  closing := false
  ready := false
  initialized := false
  deferred := .empty
  holder := .free
  init := .asking
  nextId := 2
  queue := [.initializing]
  asked := []

/-- `fail`: the server is marked exited. -/
def fail (server : Server) : Server := { server with exited := true, holder := .free }

/-- The deadline of a message has passed. Only past `stall_at` is the server declared stalled. -/
def timedOut (server : Server) (deadline stallAt : Nat) : Server :=
  if min deadline stallAt < stallAt then { server with holder := .free } else server.fail

def apply (writerStall : Nat) (server : Server) : Event → Server
  | .tick => { server with clock := server.clock + 1 }
  | .exit => { server with exited := true }
  | .close => { server with closing := true }
  | .reply ok =>
    if server.init = .asking then
      if ok then { server with init := .answered } else { server with exited := true, init := .done }
    else server
  | .flush =>
    match server.holder, server.init with
    | .free, .answered =>
      { server with init := .flushing, holder := .greeting (server.clock + writerStall) none }
    | _, _ => server
  | .document path op =>
    match server.holder with
    | .free =>
      if server.exited then server
      else
        let server := { server with asked := server.asked ++ [Call.document path op] }
        if server.initialized then { server with holder := .sending (op.message path) none }
        else { server with deferred := defer path server.deferred op }
    | _ => server
  | .definition deadline =>
    match server.holder with
    | .free =>
      if server.exited ∨ server.initialized = false then server
      else { server with
        asked := server.asked ++ [.definition server.nextId]
        nextId := server.nextId + 1
        holder := .requesting server.nextId deadline none }
    | _ => server
  | .enqueue =>
    let stallAt := some (server.clock + writerStall)
    if server.closing then server
    else match server.holder with
      | .greeting stall none => { server with holder := .greeting stall stallAt }
      | .replaying (doc :: rest) stall none =>
        { server with holder := .replaying (doc :: rest) stall stallAt }
      | .sending message none => { server with holder := .sending message stallAt }
      | .requesting id deadline none => { server with holder := .requesting id deadline stallAt }
      | _ => server
  | .sent order =>
    match server.holder with
    | .greeting stall (some _) =>
      { server with
        queue := server.queue ++ [.initialized]
        deferred := .empty
        holder := .replaying order stall none }
    | .replaying (doc :: rest) stall (some _) =>
      { server with queue := server.queue ++ [.didOpen doc], holder := .replaying rest stall none }
    | .sending message (some _) => { server with queue := server.queue ++ [message], holder := .free }
    | .requesting id _ (some _) =>
      { server with queue := server.queue ++ [.definition id], holder := .free }
    | _ => server
  | .timeout =>
    match server.holder with
    | .greeting stall (some stallAt) | .replaying (_ :: _) stall (some stallAt) =>
      { server.timedOut stall stallAt with init := .done }
    | .sending _ (some stallAt) => server.timedOut stallAt stallAt
    | .requesting _ deadline (some stallAt) => server.timedOut deadline stallAt
    | _ => server
  | .refused =>
    match server.holder with
    | .greeting _ _ | .replaying (_ :: _) _ _ => { server with holder := .free, init := .done }
    | .sending _ _ | .requesting _ _ _ => { server with holder := .free }
    | _ => server
  | .unlock =>
    match server.holder with
    | .replaying [] _ _ => { server with initialized := true, holder := .free, init := .unlocked }
    | _ => server
  | .ready => if server.init = .unlocked then { server with ready := true, init := .done } else server

/-- A message is refused only where the queue is closed, and times out only once its deadline is
there; the deferred documents are read in some order. -/
def step (writerStall : Nat) (before : Server) (event : Event) (after : Server) : Prop :=
  after = before.apply writerStall event ∧ match event with
    | .sent order => order.Perm before.deferred.rows
    | .refused => before.closing = true
    | .timeout => match before.holder with
      | .greeting stall (some stallAt) | .replaying _ stall (some stallAt) =>
        min stall stallAt ≤ before.clock
      | .sending _ (some stallAt) => stallAt ≤ before.clock
      | .requesting _ deadline (some stallAt) => min deadline stallAt ≤ before.clock
      | _ => True
    | _ => True

/-- The server is declared exited, or its queue is closed by one who is about to declare it. -/
def gone (server : Server) : Bool := server.exited || server.closing

end Server

/-- A message about documents, or a request. -/
def Message.synced : Message → Bool
  | .initializing | .initialized => false
  | _ => true

/-- The exception is a server that is gone. Of any other, whenever nobody holds the lock, the
documents open in it are those of the calls, or these wait to be replayed; it is ready once
`initialize` is done. A request comes after the documents it was made on. -/
structure Synced (server : Server) : Prop where
  greeted : ∀ front message, front ++ [message] <+: server.queue → message.synced = true →
    Message.initialized ∈ front
  requests : ∀ front id, front ++ [.definition id] <+: server.queue →
    ∃ before, before ++ [.definition id] <+: server.asked ∧ opened front = applied before
  documents : server.holder = .free → server.gone = false →
    if server.initialized then opened server.queue = applied server.asked
    else (∀ path, server.deferred.get? path = applied server.asked path) ∧
      (server.init = .asking ∨ server.init = .answered)
  ready : server.init = .done → server.gone = false → server.ready = true ∧ server.initialized = true

/-- The replay is not stopped by a deadline earlier than the one after which the server counts as
stalled. -/
def InTime (taken : Taken Server Event) : Prop :=
  taken.event = .timeout → match taken.before.holder with
    | .greeting stall (some stallAt) | .replaying (_ :: _) stall (some stallAt) => stallAt ≤ stall
    | _ => True

section Docs

variable {docs : Docs} {path other : Path} {op : DocOp}

theorem applied_append (calls : List Call) (path : Path) (op : DocOp) :
    applied (calls ++ [.document path op]) = (applied calls).apply path op := by
  simp [applied]

theorem applied_definition (calls : List Call) (id : Nat) :
    applied (calls ++ [.definition id]) = applied calls := by
  simp [applied]

theorem opened_append (queue : List Message) (message : Message) :
    opened (queue ++ [message]) = (opened queue).receive message := by
  simp [opened]

theorem receive_message : docs.receive (op.message path) = docs.apply path op := by
  cases op <;> rfl

/-- The deferred documents are those that the calls would open. -/
theorem get?_defer (deferred : Store Deferred.path) :
    (defer path deferred op).get? other = Docs.apply deferred.get? path op other := by
  cases op with
  | open_ languageId version text =>
    simp only [defer, Docs.apply, Docs.set, get?_put, eq_comm]
  | save => rfl
  | close =>
    simp only [defer, Docs.apply, Docs.set, get?_retain]
    cases found : deferred.get? other with
    | none => simp
    | some doc =>
      have key := key_of_get? found
      by_cases same : other = path <;> simp [key, same]
  | change version text =>
    simp only [defer, Docs.apply, Docs.set]
    cases found : deferred.get? path with
    | none =>
      by_cases same : other = path
      · simp [same, found]
      · simp [same]
    | some doc =>
      have key := key_of_get? found
      simp only [get?_put, key, Option.map_some, eq_comm]

end Docs

/-- The documents that a list still has to open, before those open already. -/
def overlay (rest : List Deferred) (docs : Docs) : Docs := fun path =>
  (rest.find? fun doc => doc.path = path).or (docs path)

/-- What holds for the one who has the lock. -/
def Server.Held (server : Server) : Prop :=
  match server.holder with
  | .free => server.init ≠ .flushing ∧
    (server.initialized = true → server.gone = false → opened server.queue = applied server.asked) ∧
    (server.init = .asking ∨ server.init = .answered → opened server.queue = .empty ∧
      ∀ path, server.deferred.get? path = applied server.asked path)
  | .greeting _ _ =>
    server.initialized = false ∧ server.init = .flushing ∧ opened server.queue = .empty ∧
      ∀ path, server.deferred.get? path = applied server.asked path
  | .replaying rest _ _ => server.initialized = false ∧ server.init = .flushing ∧
    Message.initialized ∈ server.queue ∧ (rest.map Deferred.path).Nodup ∧
      overlay rest (opened server.queue) = applied server.asked
  | .sending message stallAt => server.initialized = true ∧ ∃ before path op,
    server.asked = before ++ [.document path op] ∧ message = op.message path ∧
      (stallAt.isSome ∨ server.closing = false → opened server.queue = applied before)
  | .requesting id _ stallAt => server.initialized = true ∧ ∃ before,
    server.asked = before ++ [.definition id] ∧
      (stallAt.isSome ∨ server.closing = false → opened server.queue = applied before)

/-- What holds at every moment. -/
structure Sound (server : Server) : Prop where
  greeted : ∀ front message, front ++ [message] <+: server.queue → message.synced = true →
    Message.initialized ∈ front
  requests : ∀ front id, front ++ [.definition id] <+: server.queue →
    ∃ before, before ++ [.definition id] <+: server.asked ∧ opened front = applied before
  begun : server.initialized = true → Message.initialized ∈ server.queue
  phase : server.initialized = true → server.init = .unlocked ∨ server.init = .done
  unlocked : server.init = .unlocked → server.initialized = true
  done : server.init = .done → server.gone = false → server.ready = true ∧ server.initialized = true
  held : server.Held

section Steps

variable {writerStall : Nat} {server : Server}

theorem Sound.past (sound : Sound server) (ready : server.initialized = true) :
    server.init ≠ .asking ∧ server.init ≠ .answered ∧ server.init ≠ .flushing := by
  rcases sound.phase ready with phase | phase
  · rw [phase]
    exact ⟨nofun, nofun, nofun⟩
  · rw [phase]
    exact ⟨nofun, nofun, nofun⟩

theorem greeted_append {queue : List Message} {message : Message}
    (greeted : ∀ front message, front ++ [message] <+: queue → message.synced = true →
      Message.initialized ∈ front)
    (now : message.synced = true → Message.initialized ∈ queue) :
    ∀ front other, front ++ [other] <+: queue ++ [message] → other.synced = true →
      Message.initialized ∈ front := by
  intro front other shorter synced
  rcases prefix_concat_iff.mp shorter with same | earlier
  · obtain ⟨rfl, last⟩ := append_inj' same rfl
    cases last
    exact now synced
  · exact greeted front other earlier synced

theorem requests_append {queue : List Message} {asked : List Call} {message : Message}
    (requests : ∀ front id, front ++ [.definition id] <+: queue →
      ∃ before, before ++ [.definition id] <+: asked ∧ opened front = applied before)
    (now : ∀ id, message = .definition id → ∃ before, before ++ [.definition id] <+: asked ∧
      opened queue = applied before) :
    ∀ front id, front ++ [.definition id] <+: queue ++ [message] →
      ∃ before, before ++ [.definition id] <+: asked ∧ opened front = applied before := by
  intro front id shorter
  rcases prefix_concat_iff.mp shorter with same | earlier
  · obtain ⟨rfl, last⟩ := append_inj' same rfl
    exact now id (singleton_inj.mp last).symm
  · exact requests front id earlier

theorem Server.start_sound : Sound Server.start := by
  refine ⟨@greeted_append [] .initializing (fun front message shorter => ?_) nofun,
    @requests_append [] [] .initializing (fun front id shorter => ?_) nofun, nofun, nofun, nofun,
    nofun,
    nofun, nofun, fun _ => ⟨rfl, fun _ => rfl⟩⟩
  · exact absurd (prefix_nil.mp shorter) (by simp)
  · exact absurd (prefix_nil.mp shorter) (by simp)

/-- The server exits, or its queue is closed. -/
theorem Sound.leaves (sound : Sound server) (exited closing : Bool)
    (gone : (exited || closing) = true) (closes : server.closing = true → closing = true) :
    Sound { server with exited, closing } := by
  have held := sound.held
  refine ⟨sound.greeted, sound.requests, sound.begun, sound.phase, sound.unlocked,
    fun _ here => absurd (gone.symm.trans here) nofun, ?_⟩
  unfold Server.Held at held ⊢
  cases holder : server.holder with
  | free =>
    simp only [holder] at held ⊢
    exact ⟨held.1, fun _ here => absurd (gone.symm.trans here) nofun, held.2.2⟩
  | greeting stall stallAt | replaying rest stall stallAt =>
    simp only [holder] at held ⊢
    exact held
  | sending message stallAt =>
    simp only [holder] at held ⊢
    obtain ⟨ready, before, path, op, asked, same, known⟩ := held
    refine ⟨ready, before, path, op, asked, same, fun here => known (here.imp_right fun open_ => ?_)⟩
    cases still : server.closing with
    | false => rfl
    | true => exact absurd ((closes still).symm.trans open_) nofun
  | requesting id deadline stallAt =>
    simp only [holder] at held ⊢
    obtain ⟨ready, before, asked, known⟩ := held
    refine ⟨ready, before, asked, fun here => known (here.imp_right fun open_ => ?_)⟩
    cases still : server.closing with
    | false => rfl
    | true => exact absurd ((closes still).symm.trans open_) nofun

/-- The lock is let go where the server is gone, or `initialize` stops. -/
theorem Sound.drops (sound : Sound server) (exited : Bool) (init : Init)
    (gone : (exited || server.closing) = true)
    (next : init = .done ∨ init = server.init ∧ server.initialized = true) :
    Sound { server with exited, init, holder := .free } := by
  have absurd_ {P : Prop} (here : (exited || server.closing) = false) : P :=
    absurd (gone.symm.trans here) nofun
  refine ⟨sound.greeted, sound.requests, sound.begun, fun ready => ?_, fun here => ?_,
    fun _ here => absurd_ here, ?_, fun _ here => absurd_ here, fun here => ?_⟩
  · rcases next with rfl | ⟨rfl, _⟩
    · exact .inr rfl
    · exact sound.phase ready
  · rcases next with rfl | ⟨rfl, ready⟩
    · cases here
    · exact ready
  · rcases next with rfl | ⟨rfl, ready⟩
    · exact nofun
    · rcases sound.phase ready with here | here <;> rw [here] <;> exact nofun
  · rcases next with rfl | ⟨rfl, ready⟩
    · rcases here with here | here <;> cases here
    · rcases sound.phase ready with phase | phase <;>
        rcases here with here | here <;> exact absurd (phase.symm.trans here) nofun

theorem Sound.document (sound : Sound server) (path : Path) (op : DocOp) :
    Sound (server.apply writerStall (.document path op)) := by
  have held := sound.held
  unfold Server.apply
  cases holder : server.holder with
  | free =>
    simp only [Server.Held, holder] at held
    by_cases exited : server.exited = true
    · simp only [if_pos exited]
      exact sound
    · simp only [if_neg exited]
      rw [Bool.not_eq_true] at exited
      have requests : ∀ front id, front ++ [.definition id] <+: server.queue →
          ∃ before, before ++ [.definition id] <+: server.asked ++ [Call.document path op] ∧
            opened front = applied before := fun front id shorter => by
        obtain ⟨before, earlier, same⟩ := sound.requests front id shorter
        exact ⟨before, earlier.trans (prefix_append _ _), same⟩
      by_cases ready : server.initialized = true
      · rw [if_pos ready]
        refine ⟨sound.greeted, requests, sound.begun, sound.phase, sound.unlocked, sound.done, ready,
          server.asked, path, op, rfl, rfl, fun open_ => held.2.1 ready ?_⟩
        rcases open_ with named | open_
        · cases named
        · simp [Server.gone, exited, show server.closing = false from open_]
      · rw [if_neg ready]
        refine ⟨sound.greeted, requests, sound.begun, sound.phase, sound.unlocked, sound.done, ?_⟩
        simp only [Server.Held]
        refine ⟨held.1, fun here => absurd here ready, fun waits =>
          ⟨(held.2.2 waits).1, fun other => ?_⟩⟩
        have same : server.deferred.get? = applied server.asked := funext (held.2.2 waits).2
        rw [get?_defer, applied_append, same]
  | _ => simpa using sound

theorem Sound.definition (sound : Sound server) (deadline : Nat) :
    Sound (server.apply writerStall (.definition deadline)) := by
  have held := sound.held
  unfold Server.apply
  cases holder : server.holder with
  | free =>
    simp only [Server.Held, holder] at held
    simp only
    split
    · exact sound
    · rename_i allowed
      obtain ⟨exited, ready⟩ := not_or.mp allowed
      rw [Bool.not_eq_true] at exited
      rw [Bool.not_eq_false] at ready
      refine ⟨sound.greeted, fun front id shorter => ?_, sound.begun, sound.phase, sound.unlocked,
        sound.done, ready, server.asked, rfl, fun open_ => held.2.1 ready ?_⟩
      · obtain ⟨before, earlier, same⟩ := sound.requests front id shorter
        exact ⟨before, earlier.trans (prefix_append _ _), same⟩
      · rcases open_ with named | open_
        · cases named
        · simp [Server.gone, exited, show server.closing = false from open_]
  | _ => simpa using sound

theorem Sound.enqueue (sound : Sound server) : Sound (server.apply writerStall .enqueue) := by
  have held := sound.held
  unfold Server.apply
  by_cases closing : server.closing = true
  · simp only [if_pos closing]
    exact sound
  · simp only [if_neg closing]
    rw [Bool.not_eq_true] at closing
    split
    all_goals first
      | exact sound
      | rename_i holder
        simp only [Server.Held, holder] at held
        refine ⟨sound.greeted, sound.requests, sound.begun, sound.phase, sound.unlocked, sound.done,
          ?_⟩
        first
        | exact held
        | obtain ⟨ready, before, path, op, asked, same, known⟩ := held
          exact ⟨ready, before, path, op, asked, same, fun _ => known (.inr closing)⟩
        | obtain ⟨ready, before, asked, known⟩ := held
          exact ⟨ready, before, asked, fun _ => known (.inr closing)⟩

/-- The lock is let go, and what was sent is one message more. -/
theorem Sound.sent (sound : Sound server) {order : List Deferred}
    (perm : order.Perm server.deferred.rows) : Sound (server.apply writerStall (.sent order)) := by
  have held := sound.held
  unfold Server.apply
  cases holder : server.holder with
  | free => exact sound
  | greeting stall stallAt =>
    cases stallAt with
    | none => exact sound
    | some stallAt =>
      simp only [Server.Held, holder] at held
      obtain ⟨unready, flushing, bare, waits⟩ := held
      have distinct : (order.map Deferred.path).Nodup := (perm.map Deferred.path).nodup_iff.mpr
        server.deferred.distinct
      refine ⟨greeted_append sound.greeted nofun, requests_append sound.requests nofun,
        fun ready => absurd (unready.symm.trans ready) nofun, sound.phase, sound.unlocked, sound.done,
        unready, flushing, mem_append_right _ mem_cons_self, distinct, ?_⟩
      funext path
      have found : (⟨order, distinct⟩ : Store Deferred.path).get? path = server.deferred.get? path :=
        get?_congr (fun _ => perm.mem_iff) path
      simp only [overlay, opened_append, bare, Docs.receive]
      rw [← waits path, ← found]
      exact Option.or_none
  | replaying rest stall stallAt =>
    cases rest with
    | nil => exact sound
    | cons doc rest =>
      cases stallAt with
      | none => exact sound
      | some stallAt =>
        simp only [Server.Held, holder] at held
        obtain ⟨unready, flushing, begun, distinct, same⟩ := held
        obtain ⟨absent, distinct⟩ := nodup_cons.mp distinct
        refine ⟨greeted_append sound.greeted fun _ => begun, requests_append sound.requests nofun,
          fun ready => absurd (unready.symm.trans ready) nofun, sound.phase, sound.unlocked,
          sound.done,
          unready, flushing, mem_append_left _ begun, distinct, ?_⟩
        rw [← same]
        funext path
        simp only [overlay, opened_append, Docs.receive, Docs.set]
        by_cases here : path = doc.path
        · have missing : rest.find? (fun doc => doc.path = path) = none := find?_eq_none.mpr
            fun other member named => absent
            (List.mem_map.mpr ⟨other, member, by simpa [here] using named⟩)
          rw [missing]
          simp [here]
        · rw [find?_cons_of_neg (by simpa using fun equal => here equal.symm), if_neg here]
  | sending message stallAt =>
    cases stallAt with
    | none => exact sound
    | some stallAt =>
      simp only [Server.Held, holder] at held
      obtain ⟨ready, before, path, op, asked, rfl, known⟩ := held
      obtain ⟨asking, answered, flushing⟩ := sound.past ready
      refine ⟨greeted_append sound.greeted fun _ => sound.begun ready,
        requests_append sound.requests fun id same => (by cases op <;> cases same),
        fun _ => mem_append_left _ (sound.begun ready), sound.phase, sound.unlocked, sound.done, ?_,
        ?_, ?_⟩
      · exact fun here => absurd here flushing
      · intro _ _
        change opened (server.queue ++ [op.message path]) = applied server.asked
        rw [opened_append, known (.inl rfl), asked, applied_append, receive_message]
      · intro early
        exact absurd early (not_or.mpr ⟨asking, answered⟩)
  | requesting id deadline stallAt =>
    cases stallAt with
    | none => exact sound
    | some stallAt =>
      simp only [Server.Held, holder] at held
      obtain ⟨ready, before, asked, known⟩ := held
      obtain ⟨asking, answered, flushing⟩ := sound.past ready
      refine ⟨greeted_append sound.greeted fun _ => sound.begun ready,
        requests_append sound.requests fun other same => ⟨before, ?_, known (.inl rfl)⟩,
        fun _ => mem_append_left _ (sound.begun ready), sound.phase, sound.unlocked, sound.done, ?_,
        ?_, ?_⟩
      · cases same
        exact asked ▸ prefix_rfl
      · exact fun here => absurd here flushing
      · intro _ _
        change opened (server.queue ++ [.definition id]) = applied server.asked
        rw [opened_append, known (.inl rfl), asked, applied_definition]
        rfl
      · intro early
        exact absurd early (not_or.mpr ⟨asking, answered⟩)

/-- A request that is not in time, or that the server counts as stalled for, lets go of the lock. -/
theorem Sound.withdraws (sound : Sound server) {id deadline stallAt : Nat}
    (holder : server.holder = .requesting id deadline (some stallAt)) :
    Sound { server with holder := .free } := by
  have held := sound.held
  simp only [Server.Held, holder] at held
  obtain ⟨ready, before, asked, known⟩ := held
  obtain ⟨asking, answered, flushing⟩ := sound.past ready
  refine ⟨sound.greeted, sound.requests, sound.begun, sound.phase, sound.unlocked, sound.done, ?_,
    ?_, ?_⟩
  · exact fun here => absurd here flushing
  · intro _ _
    change opened server.queue = applied server.asked
    rw [known (.inl rfl), asked, applied_definition]
  · intro early
    exact absurd early (not_or.mpr ⟨asking, answered⟩)

/-- A message does not get into the queue in time. -/
theorem Sound.timeout (sound : Sound server) (inTime : match server.holder with
      | .greeting stall (some stallAt) | .replaying (_ :: _) stall (some stallAt) => stallAt ≤ stall
      | _ => True) : Sound (server.apply writerStall .timeout) := by
  have held := sound.held
  unfold Server.apply
  cases holder : server.holder with
  | free => exact sound
  | greeting stall stallAt =>
    cases stallAt with
    | none => exact sound
    | some stallAt =>
      simp only [holder] at inTime
      simp only [Server.timedOut, Nat.min_eq_right inTime, Nat.lt_irrefl, if_false, Server.fail]
      exact sound.drops true .done rfl (.inl rfl)
  | replaying rest stall stallAt =>
    cases rest with
    | nil => exact sound
    | cons doc rest =>
      cases stallAt with
      | none => exact sound
      | some stallAt =>
        simp only [holder] at inTime
        simp only [Server.timedOut, Nat.min_eq_right inTime, Nat.lt_irrefl, if_false, Server.fail]
        exact sound.drops true .done rfl (.inl rfl)
  | sending message stallAt =>
    cases stallAt with
    | none => exact sound
    | some stallAt =>
      simp only [Server.Held, holder] at held
      simp only [Server.timedOut, Nat.min_self, Nat.lt_irrefl, if_false, Server.fail]
      exact sound.drops true server.init rfl (.inr ⟨rfl, held.1⟩)
  | requesting id deadline stallAt =>
    cases stallAt with
    | none => exact sound
    | some stallAt =>
      simp only [Server.Held, holder] at held
      simp only [Server.timedOut]
      split
      · exact sound.withdraws holder
      · exact sound.drops true server.init rfl (.inr ⟨rfl, held.1⟩)

/-- The queue is closed to a message. -/
theorem Sound.refused (sound : Sound server) (closing : server.closing = true) :
    Sound (server.apply writerStall .refused) := by
  have held := sound.held
  have gone : (server.exited || server.closing) = true := by simp [closing]
  unfold Server.apply
  cases holder : server.holder with
  | free => exact sound
  | greeting stall stallAt => exact sound.drops server.exited .done gone (.inl rfl)
  | replaying rest stall stallAt =>
    cases rest with
    | nil => exact sound
    | cons doc rest => exact sound.drops server.exited .done gone (.inl rfl)
  | sending | requesting =>
    simp only [Server.Held, holder] at held
    exact sound.drops server.exited server.init gone (.inr ⟨rfl, held.1⟩)

/-- The lock is taken for the replay once `initialize` is answered. -/
theorem Sound.flush (sound : Sound server) : Sound (server.apply writerStall .flush) := by
  have held := sound.held
  unfold Server.apply
  simp only
  split
  · rename_i holder answered
    simp only [Server.Held, holder] at held
    obtain ⟨_, _, waits⟩ := held
    obtain ⟨bare, deferred⟩ := waits (.inr answered)
    have unready : server.initialized = false := by
      cases ready : server.initialized with
      | false => rfl
      | true => exact absurd answered (sound.past ready).2.1
    exact ⟨sound.greeted, sound.requests, sound.begun, fun ready =>
      absurd (unready.symm.trans ready) nofun, nofun, nofun, unready, rfl, bare, deferred⟩
  · exact sound

/-- `initialize` is answered, or fails. -/
theorem Sound.reply (sound : Sound server) (ok : Bool) :
    Sound (server.apply writerStall (.reply ok)) := by
  have held := sound.held
  unfold Server.apply
  simp only
  split
  · rename_i asking
    have unready : server.initialized ≠ true := fun ready => (sound.past ready).1 asking
    have free : server.holder = .free := by
      unfold Server.Held at held
      cases holder : server.holder with
      | free => rfl
      | greeting stall stallAt | replaying rest stall stallAt =>
        simp only [holder] at held
        exact absurd (asking.symm.trans held.2.1) nofun
      | sending message stallAt | requesting id deadline stallAt =>
        simp only [holder] at held
        exact absurd held.1 unready
    simp only [Server.Held, free] at held
    cases ok with
    | true =>
      refine ⟨sound.greeted, sound.requests, sound.begun, fun ready => absurd ready unready, nofun,
        nofun, ?_⟩
      simp only [Server.Held, free]
      exact ⟨nofun, fun ready => absurd ready unready, fun _ => held.2.2 (.inl asking)⟩
    | false =>
      refine ⟨sound.greeted, sound.requests, sound.begun, fun ready => absurd ready unready, nofun,
        fun _ => nofun, ?_⟩
      simp only [Server.Held, free]
      exact ⟨nofun, fun _ => nofun, fun early => by rcases early with early | early <;> cases early⟩
  · exact sound

theorem Sound.unlock (sound : Sound server) : Sound (server.apply writerStall .unlock) := by
  have held := sound.held
  unfold Server.apply
  simp only
  split
  · rename_i holder
    simp only [Server.Held, holder] at held
    obtain ⟨_, _, begun, _, same⟩ := held
    exact ⟨sound.greeted, sound.requests, fun _ => begun, fun _ => .inl rfl, fun _ =>
      rfl, nofun, nofun, fun _ _ => same,
      fun early => by rcases early with early | early <;> cases early⟩
  · exact sound

theorem Sound.settle (sound : Sound server) : Sound (server.apply writerStall .ready) := by
  have held := sound.held
  unfold Server.apply
  simp only
  split
  · rename_i unlocked
    have ready := sound.unlocked unlocked
    refine ⟨sound.greeted, sound.requests, sound.begun, fun _ => .inr rfl, nofun, fun _ _ =>
      ⟨rfl, ready⟩, ?_⟩
    unfold Server.Held at held ⊢
    cases holder : server.holder with
    | free =>
      simp only [holder] at held ⊢
      exact ⟨nofun, held.2.1, fun early => by rcases early with early | early <;> cases early⟩
    | greeting stall stallAt | replaying rest stall stallAt =>
      simp only [holder] at held
      exact absurd (unlocked.symm.trans held.2.1) nofun
    | sending message stallAt | requesting id deadline stallAt =>
      simp only [holder] at held ⊢
      exact held
  · exact sound

/-- Every step keeps what holds, if the replay is not stopped by an earlier deadline. -/
theorem step_sound {before after : Server} {event : Event}
    (taken : Server.step writerStall before event after) (sound : Sound before)
    (inTime : InTime ⟨before, event, after⟩) : Sound after := by
  obtain ⟨rfl, allowed⟩ := taken
  cases event with
  | tick =>
    exact ⟨sound.greeted, sound.requests, sound.begun, sound.phase, sound.unlocked, sound.done,
      sound.held⟩
  | exit => exact sound.leaves true before.closing rfl id
  | close => exact sound.leaves before.exited true (Bool.or_true _) fun _ => rfl
  | reply ok => exact sound.reply ok
  | flush => exact sound.flush
  | document path op => exact sound.document path op
  | definition deadline => exact sound.definition deadline
  | enqueue => exact sound.enqueue
  | sent order => exact sound.sent allowed
  | timeout => exact sound.timeout (inTime rfl)
  | refused => exact sound.refused allowed
  | unlock => exact sound.unlock
  | ready => exact sound.settle

theorem Sound.synced (sound : Sound server) : Synced server := by
  refine ⟨sound.greeted, sound.requests, fun free here => ?_, sound.done⟩
  have held := sound.held
  simp only [Server.Held, free] at held
  obtain ⟨idle, ready, early⟩ := held
  split
  · rename_i initialized
    exact ready initialized here
  · rename_i waits
    have phase : server.init = .asking ∨ server.init = .answered := by
      cases init : server.init with
      | asking => exact .inl rfl
      | answered => exact .inr rfl
      | flushing => exact absurd init idle
      | unlocked => exact absurd (sound.unlocked init) waits
      | done => exact absurd (sound.done init here).2 waits
    exact ⟨(early phase).2, phase⟩

/-- In every run whose replay is not stopped by an earlier deadline the server is kept in step. -/
theorem documents_synced {steps : List (Taken Server Event)}
    (run : Run (Server.step writerStall) Server.start steps server)
    (inTime : ∀ taken ∈ steps, InTime taken) : Synced server :=
  (run.guarded Sound InTime step_sound Server.start_sound inTime).1.synced

end Steps

section Replay

private def allows (server : Server) : Event → Bool
  | .sent order => decide (order.Perm server.deferred.rows)
  | .refused => server.closing
  | .timeout => match server.holder with
    | .greeting stall (some stallAt) | .replaying _ stall (some stallAt) =>
      decide (min stall stallAt ≤ server.clock)
    | .sending _ (some stallAt) => decide (stallAt ≤ server.clock)
    | .requesting _ deadline (some stallAt) => decide (min deadline stallAt ≤ server.clock)
    | _ => true
  | _ => true

private theorem step_of_allows {writerStall : Nat} {server : Server} {event : Event}
    (allowed : allows server event = true) :
    Server.step writerStall server event (server.apply writerStall event) := by
  refine ⟨rfl, ?_⟩
  cases event with
  | sent order => exact of_decide_eq_true allowed
  | refused => exact allowed
  | timeout =>
    simp only [allows] at allowed
    simp only
    split <;> rename_i holder <;> simp only [holder] at allowed <;>
      first | exact of_decide_eq_true allowed | trivial
  | _ => trivial

private def note : Deferred := ⟨"a", "rust", 1, "x"⟩

/-- A document is opened before `initialize` is answered, and replayed. -/
private def replays : List Event :=
  [.document "a" (.open_ "rust" 1 "x"), .reply true, .flush, .enqueue, .sent [note], .enqueue,
    .sent [], .unlock, .ready]

private def replayed : Server := Run.replay (Server.apply 1) Server.start replays

private theorem replayed_run :
    Run (Server.step 1) Server.start (Run.trace (Server.apply 1) Server.start replays)
    replayed := by
  have admitted : Run.admits (Server.apply 1) allows Server.start replays = true := by decide
  exact Run.of_admits step_of_allows admitted

theorem documents_synced_note : opened replayed.queue = applied replayed.asked := by
  have synced := documents_synced replayed_run fun taken member same => by
    have event := Run.event_mem_of_trace member
    rw [same] at event
    simp [replays] at event
  exact synced.documents rfl rfl

/-- The clock moves on, and the replay of the document does not get into the queue within the time
that was taken with the lock. -/
private def stalls : List Event :=
  [.document "a" (.open_ "rust" 1 "x"), .reply true, .flush, .enqueue, .sent [note], .tick, .enqueue,
    .timeout]

theorem documents_not_synced : ¬ ∀ steps server, Run (Server.step 1) Server.start steps server →
    Synced server := by
  intro claimed
  have admitted : Run.admits (Server.apply 1) allows Server.start stalls = true := by decide
  have synced := claimed _ _ (Run.of_admits step_of_allows admitted)
  exact absurd (synced.ready rfl rfl).1 nofun

end Replay

end ForgeNode.Documents
