import ForgeNode.Terminal.Stream

/-! Where overlapping attaches settle in order, the client takes each frame once and has the
last. -/

namespace ForgeNode.Terminal

/-- Messages that a replica takes one after another: an answer or a resync sets its sequence, and
each delta is the next. -/
inductive Feeds : Option Nat → List Message → Option Nat → Prop where
  | nil : Feeds grid [] grid
  | ack (rest : Feeds (some seq) queue reached) : Feeds grid (.ack seq :: queue) reached
  | delta (rest : Feeds (some (last + 1)) queue reached) :
      Feeds (some last) (.delta (last + 1) :: queue) reached
  | resync (newer : last ≤ seq) (rest : Feeds (some seq) queue reached) :
      Feeds (some last) (.resync seq :: queue) reached
  | other (rest : Feeds grid queue reached) : Feeds grid (.other :: queue) reached

namespace Feeds

variable {grid middle reached : Option Nat} {queue more : List Message}

theorem append (first : Feeds grid queue middle) (second : Feeds middle more reached) :
    Feeds grid (queue ++ more) reached := by
  induction first with
  | nil => exact second
  | ack _ ih => exact .ack (ih second)
  | delta _ ih => exact .delta (ih second)
  | resync newer _ ih => exact .resync newer (ih second)
  | other _ ih => exact .other (ih second)

theorem of_nil (feeds : Feeds grid [] reached) : reached = grid := by
  cases feeds with
  | nil => rfl

theorem of_ack (feeds : Feeds grid (.ack seq :: queue) reached) :
    Feeds (some seq) queue reached := by
  cases feeds with
  | ack rest => exact rest

theorem of_delta (feeds : Feeds grid (.delta seq :: queue) reached) :
    ∃ last, grid = some last ∧ seq = last + 1 ∧ Feeds (some seq) queue reached := by
  cases feeds with
  | delta rest => exact ⟨_, rfl, rfl, rest⟩

theorem of_resync (feeds : Feeds grid (.resync seq :: queue) reached) :
    ∃ last, grid = some last ∧ last ≤ seq ∧ Feeds (some seq) queue reached := by
  cases feeds with
  | resync newer rest => exact ⟨_, rfl, newer, rest⟩

theorem of_other (feeds : Feeds grid (.other :: queue) reached) : Feeds grid queue reached := by
  cases feeds with
  | other rest => exact rest

/-- What a replica feeds on, it takes without asking for a resync. -/
theorem receive {link : Link} {message : Message}
    (feeds : Feeds link.grid (message :: queue) reached) :
    Feeds link.grid [message] (link.receive message).grid ∧
      Feeds (link.receive message).grid queue reached ∧ (link.receive message).asked =
        link.asked := by
  cases message with
  | ack seq => exact ⟨.ack .nil, feeds.of_ack, rfl⟩
  | delta seq =>
    obtain ⟨last, found, rfl, rest⟩ := feeds.of_delta
    have newer : ¬ last + 1 ≤ last := by omega
    have next : ¬ last + 1 > last + 1 := by omega
    simp only [Link.receive, found, if_neg newer, if_neg next]
    exact ⟨.delta .nil, rest, trivial⟩
  | resync seq =>
    obtain ⟨last, found, newer, rest⟩ := feeds.of_resync
    simp only [Link.receive, found, if_neg (Nat.not_lt.mpr newer)]
    exact ⟨.resync newer .nil, rest, trivial⟩
  | other => exact ⟨.other .nil, feeds.of_other, rfl⟩

end Feeds

/-- What the client received, and what is queued for it, feeds its replica. -/
structure Streams (link : Link) (reached : Option Nat) : Prop where
  received : Feeds none link.received link.grid
  queue : Feeds link.grid link.queue reached
  unasked : link.asked = false

/-- What the handle knows of the sequence that the replica reaches with its queue. -/
structure Fits (link : Link) (reached : Option Nat) : Prop where
  bounded : ∀ seq, reached = some seq → seq ≤ link.emitSeq
  snapshots : ∀ attach ∈ link.attaches, attach.seq ≤ link.emitSeq
  gone : link.connected = false →
    link.subscribed = false ∧ link.behind = false ∧ link.attaching = none
  answered : link.connected = true → link.attaching = none → ∀ attach ∈ link.attaches,
    attach.acked = true
  begun : ∀ attach ∈ link.attaches, attach.acked = true → reached ≠ none
  current : link.subscribed = true → link.attaching = none → link.behind = false →
    reached = some link.emitSeq
  reachable : link.subscribed = true → link.attaching = none → reached ≠ none
  missed : link.behind = true ∨ link.attaching = some true →
    ∀ attach ∈ link.attaches, attach.seq < link.emitSeq
  latest : link.attaching = some false → ∃ attach ∈ link.attaches, attach.seq = link.emitSeq
  settled : link.attaching = some false → ∀ attach ∈ link.attaches, attach.acked = true →
    attach.seq = link.emitSeq → reached = some link.emitSeq
  single : link.attaching ≠ none → link.behind = false
  pending : link.attaches = [] → link.attaching = none
  watched : link.behind = true ∨ link.attaching ≠ none → link.subscribed = true
  under : link.connected = true → ∀ attach ∈ link.attaches, link.subscribed = true
  kept : link.live = false → link.behind = true ∨ link.attaching = some true →
    link.finished = some link.emitSeq
  fresh : link.live = true → link.finished = none
  owed : link.behind = true →
    link.queue.length > deltaLowWater ∨ link.writer ≠ .idle ∨ 0 < link.recovers

namespace Link

variable {link sent : Link} {message : Message}

theorem trySend_eq_some : link.trySend message = some sent ↔
    link.queue.length < clientQueueCapacity ∧
    sent = { link with queue := link.queue ++ [message] } := by
  unfold trySend
  split
  · simp_all [eq_comm]
  · simp_all [Nat.not_lt.mpr]

theorem trySend_eq_none : link.trySend message = none ↔
    clientQueueCapacity ≤ link.queue.length := by
  unfold trySend
  split <;> simp_all

end Link

theorem Link.recover_settles (link : Link) :
    link.recover.behind = true → link.recover.queue.length > deltaLowWater := by
  unfold Link.recover
  split
  · rename_i current
    exact fun behind => absurd behind (by simpa using current)
  · split
    · rename_i high
      exact fun _ => high
    · split
      · exact fun behind => by cases behind
      · split
        · exact fun behind => by cases behind
        · rename_i full
          have full : clientQueueCapacity ≤ link.queue.length := Link.trySend_eq_none.mp full
          exact fun _ => Nat.lt_of_lt_of_le (by decide) full

theorem Link.receive_frame (link : Link) (message : Message) :
    ∃ grid asked, link.receive message =
      { link with received := link.received ++ [message], grid := grid, asked := asked } := by
  unfold Link.receive
  dsimp only
  repeat' split
  all_goals exact ⟨_, _, rfl⟩

theorem Streams.push {link : Link} (streams : Streams link middle)
    (feeds : Feeds middle [message] reached) :
    Streams { link with queue := link.queue ++ [message] } reached :=
  { streams with queue := streams.queue.append feeds }

/-- Some sequence is reached, and the handle knows what it must of it. -/
def Streaming (link : Link) : Prop := ∃ reached, Streams link reached ∧ Fits link reached

theorem Fits.met {link : Link} (fits : Fits link reached) (connected : link.connected = true)
    (member : attach ∈ link.attaches) (acked : attach.acked = true)
    (newest : attach.seq = link.emitSeq) : reached = some link.emitSeq := by
  have missed := fun owed => fits.missed owed attach member
  cases attaching : link.attaching with
  | none =>
    refine fits.current (fits.under connected attach member) attaching ?_
    cases behind : link.behind with
    | false => rfl
    | true => exact absurd (missed (.inl behind)) (by omega)
  | some withheld =>
    cases withheld with
    | false => exact fits.settled attaching attach member acked newest
    | true => exact absurd (missed (.inr attaching)) (by omega)

namespace Streaming

variable {link : Link}

theorem initial (emitSeq : Nat) : Streaming (Link.initial emitSeq) :=
  ⟨none, ⟨.nil, .nil, rfl⟩, by constructor <;> simp [Link.initial]⟩

theorem beginAttach (start : Streaming link) (id : Nat) : Streaming (link.beginAttach id) := by
  obtain ⟨reached, streams, fits⟩ := start
  unfold Link.beginAttach
  split
  · exact ⟨reached, streams, fits⟩
  · dsimp only
    split
    · rename_i connected
      refine ⟨reached, { streams with }, ?_⟩
      have met := fun attach member acked => @Fits.met reached attach link fits connected member acked
      cases fits
      constructor
      case latest => exact fun _ => ⟨_, List.mem_cons_self, rfl⟩
      all_goals grind -ring -linarith
    · refine ⟨reached, { streams with }, ?_⟩
      cases fits
      constructor <;> grind -ring -linarith

theorem unregister (start : Streaming link) : Streaming link.unregister := by
  obtain ⟨reached, streams, fits⟩ := start
  refine ⟨reached, { streams with }, ?_⟩
  cases fits
  constructor <;> grind -ring -linarith [Link.unregister]

theorem sendAck (start : Streaming link) (attach : Attach) (member : attach ∈ link.attaches)
    (unacked : attach.acked = false) (ordered : link.inOrder (.sendAck attach) = true) :
    Streaming (link.sendAck attach) := by
  obtain ⟨reached, streams, fits⟩ := start
  unfold Link.sendAck
  split
  · rename_i sent answered
    split at answered
    · rename_i connected
      obtain ⟨room, rfl⟩ := Link.trySend_eq_some.mp answered
      refine ⟨some attach.seq, { streams.push (.ack .nil) with }, ?_⟩
      simp only [Link.inOrder, connected] at ordered
      constructor
      case latest =>
        intro attaching
        obtain ⟨last, under, newest⟩ := fits.latest attaching
        exact ⟨_, List.mem_map_of_mem under, by split <;> simp_all⟩
      case pending => exact fun empty => fits.pending (List.map_eq_nil_iff.mp empty)
      all_goals cases fits
      all_goals simp only [List.mem_map, forall_exists_index, and_imp, forall_apply_eq_imp_iff₂]
      all_goals grind -ring -linarith
    · cases answered
  · refine ⟨reached, { streams with }, ?_⟩
    cases fits
    constructor <;> simp only [Link.unregister] <;> grind -ring -linarith

theorem finishAttach (start : Streaming link) (attach : Attach) (member : attach ∈ link.attaches)
    (acked : attach.acked = true) (ordered : link.inOrder (.finishAttach attach) = true) :
    Streaming (link.finishAttach attach) := by
  obtain ⟨reached, streams, fits⟩ := start
  have others : ∀ other ∈ link.attaches.erase attach, other ∈ link.attaches :=
    fun _ => List.mem_of_mem_erase
  unfold Link.finishAttach
  dsimp only
  split
  · refine ⟨reached, { streams with }, ?_⟩
    cases fits
    constructor <;> grind -ring -linarith
  · rename_i connected
    simp only [Link.inOrder, connected] at ordered
    have all : ∀ other ∈ link.attaches, other.acked = true := by grind -ring -linarith
    cases withheld : link.attaching with
    | none =>
      refine ⟨reached, { streams with }, ?_⟩
      cases fits
      constructor <;> simp <;> grind -ring -linarith
    | some missed =>
      cases missed with
      | false =>
        obtain ⟨last, under, newest⟩ := fits.latest withheld
        have now := fits.settled withheld last under (all last under) newest
        refine ⟨reached, { streams with }, ?_⟩
        cases fits
        constructor <;> simp <;> grind -ring -linarith
      | true =>
        refine ⟨reached, { streams with }, ?_⟩
        cases fits
        constructor <;> simp <;> grind -ring -linarith

theorem withheld (streams : Streams link reached) (fits : Fits link reached)
    (live : link.live = true) (missed : Bool) (attaching : link.attaching = some missed) :
    Streaming { link with emitSeq := link.emitSeq + 1, attaching := some true } := by
  refine ⟨reached, { streams with }, ?_⟩
  cases fits
  constructor <;> grind -ring -linarith

theorem dropped (streams : Streams link reached) (fits : Fits link reached)
    (live : link.live = true) (subscribed : link.subscribed = true)
    (attaching : link.attaching = none)
    (high : link.behind = false → link.queue.length > deltaLowWater) :
    Streaming { link with emitSeq := link.emitSeq + 1, attaching := none, behind := true } := by
  refine ⟨reached, { streams with }, ?_⟩
  cases fits
  constructor <;> grind -ring -linarith

theorem unsubscribed (streams : Streams link reached) (fits : Fits link reached)
    (live : link.live = true) (gone : link.subscribed = false) :
    Streaming { link with emitSeq := link.emitSeq + 1 } := by
  refine ⟨reached, { streams with }, ?_⟩
  cases fits
  constructor <;> grind -ring -linarith

theorem sent (streams : Streams link reached) (fits : Fits link reached) (live : link.live = true)
    (attaching : link.attaching = none) {message : Message}
    (feeds : Feeds reached [message] (some (link.emitSeq + 1))) :
    Streaming { link with
      emitSeq := link.emitSeq + 1, attaching := none, queue := link.queue ++ [message],
      behind := false } := by
  refine ⟨some (link.emitSeq + 1), { streams.push feeds with }, ?_⟩
  cases fits
  constructor <;> grind -ring -linarith

theorem emit (start : Streaming link) : Streaming link.emit := by
  obtain ⟨reached, streams, fits⟩ := start
  unfold Link.emit
  split
  · rename_i live
    unfold Link.routeTerminalDelta
    dsimp only
    split
    · rename_i gone
      exact unsubscribed streams fits live (by simpa using gone)
    · rename_i subscribed
      have subscribed : link.subscribed = true := by simpa using subscribed
      cases attaching : link.attaching with
      | some missed => exact withheld streams fits live missed attaching
      | none =>
        dsimp only
        split
        · rename_i behind
          split
          · have kept := dropped streams fits live subscribed attaching (by simp [behind])
            rw [← behind] at kept
            exact kept
          · split
            · rename_i sent room
              obtain ⟨room, rfl⟩ := Link.trySend_eq_some.mp room
              cases last : reached with
              | none => exact absurd last (fits.reachable subscribed attaching)
              | some last =>
                subst reached
                have newer : last ≤ link.emitSeq + 1 := Nat.le_succ_of_le (fits.bounded last rfl)
                exact Streaming.sent streams fits live attaching (.resync newer .nil)
            · have kept := dropped streams fits live subscribed attaching (by simp [behind])
              rw [← behind] at kept
              exact kept
        · rename_i current
          have current : link.behind = false := by simpa using current
          split
          · rename_i high
            exact dropped streams fits live subscribed attaching
              fun _ => Nat.lt_of_lt_of_le (by decide) high
          · split
            · rename_i sent room
              obtain ⟨room, rfl⟩ := Link.trySend_eq_some.mp room
              have last := fits.current subscribed attaching current
              subst last
              have fed := Streaming.sent streams fits live attaching (.delta .nil)
              rw [← current] at fed
              exact fed
            · rename_i full
              have full := Link.trySend_eq_none.mp full
              exact dropped streams fits live subscribed attaching
                fun _ => Nat.lt_of_lt_of_le (by decide) full
  · exact ⟨reached, streams, fits⟩

/-- Where the queue has room, the owed resync is of the terminal's last sequence. -/
theorem recover (start : Streaming link) : Streaming link.recover := by
  obtain ⟨reached, streams, fits⟩ := start
  unfold Link.recover
  split
  · exact ⟨reached, streams, fits⟩
  · rename_i behind
    have behind : link.behind = true := by simpa using behind
    split
    · exact ⟨reached, streams, fits⟩
    · rename_i low
      have owed : link.finished.or (if link.live then some link.emitSeq else none) =
          some link.emitSeq := by
        cases live : link.live with
        | false => simp [fits.kept live (.inl behind)]
        | true => simp [fits.fresh live]
      have room : link.queue.length < clientQueueCapacity := by
        simp only [deltaLowWater, clientQueueCapacity] at low ⊢
        omega
      have single : link.attaching = none := by
        have := fits.single
        grind -ring -linarith
      simp only [owed, Link.trySend, if_pos room]
      cases last : reached with
      | none => exact absurd last (fits.reachable (fits.watched (.inl behind)) single)
      | some last =>
        subst reached
        have fed := streams.push (.resync (fits.bounded last rfl) .nil)
        refine ⟨some link.emitSeq, { fed with }, ?_⟩
        cases fits
        constructor <;> grind -ring -linarith

theorem finishTerminal (start : Streaming link) : Streaming link.finishTerminal := by
  obtain ⟨reached, streams, fits⟩ := start
  unfold Link.finishTerminal
  dsimp only
  split
  · refine ⟨reached, { streams with }, ?_⟩
    cases fits
    constructor <;> grind -ring -linarith
  · exact ⟨reached, streams, fits⟩

theorem drain (start : Streaming link) : Streaming link.drain := by
  obtain ⟨reached, streams, fits⟩ := start
  unfold Link.drain
  cases queued : link.queue with
  | nil => exact ⟨reached, streams, fits⟩
  | cons message rest =>
    dsimp only
    obtain ⟨grid, asked, framed⟩ :=
      { link with queue := rest, writer := .checking }.receive_frame message
    have feeds : Feeds link.grid (message :: rest) reached := queued ▸ streams.queue
    obtain ⟨first, later, unasked⟩ :=
      @Feeds.receive _ _ { link with queue := rest, writer := .checking } message feeds
    rw [framed] at first later unasked ⊢
    refine ⟨reached, ⟨streams.received.append first, later, unasked.trans streams.unasked⟩, ?_⟩
    cases fits
    constructor <;> grind -ring -linarith

theorem check (start : Streaming link) : Streaming link.check := by
  obtain ⟨reached, streams, fits⟩ := start
  refine ⟨reached, { streams with }, ?_⟩
  cases fits
  constructor <;> grind -ring -linarith [Link.check]

theorem other (start : Streaming link) : Streaming ((link.trySend .other).getD link) := by
  obtain ⟨reached, streams, fits⟩ := start
  cases sent : link.trySend .other with
  | none => exact ⟨reached, streams, fits⟩
  | some full =>
    obtain ⟨room, rfl⟩ := Link.trySend_eq_some.mp sent
    refine ⟨reached, streams.push (.other .nil), ?_⟩
    cases fits
    constructor <;> grind -ring -linarith

theorem recovered (start : Streaming link) {writer : Writer} {recovers : Nat} :
    Streaming { link.recover with writer := writer, recovers := recovers } := by
  have settled := link.recover_settles
  obtain ⟨reached, streams, fits⟩ := start.recover
  refine ⟨reached, { streams with }, ?_⟩
  cases fits
  constructor <;> grind -ring -linarith

theorem step (start : Streaming link) (turn : Link.Turn) (allowed : link.allows turn = true)
    (ordered : link.inOrder turn = true) : Streaming (link.step turn) := by
  cases turn with
  | beginAttach id => exact start.beginAttach id
  | sendAck attach =>
    simp only [Link.allows, Bool.and_eq_true, decide_eq_true_eq, Bool.not_eq_true'] at allowed
    exact start.sendAck attach allowed.1 allowed.2 ordered
  | finishAttach attach =>
    simp only [Link.allows, Bool.and_eq_true, decide_eq_true_eq] at allowed
    exact start.finishAttach attach allowed.1 allowed.2 ordered
  | emit => exact start.emit
  | finishTerminal => exact start.finishTerminal
  | disconnect => exact start.unregister
  | other =>
    unfold Link.step
    dsimp only
    split
    · exact start.other
    · exact start
  | drain => exact start.drain
  | check => exact start.check
  | recoverWriter | recoverAttach => exact start.recovered

end Streaming

/-- In every state of a run whose attaches settle in order, the client received a snapshot and then
deltas that follow one another up to a resync, never had to ask for one, and has the terminal's last
sequence wherever its queue is empty and it is neither attaching nor behind, which it is wherever
nothing of the stream is under way, also once the terminal is gone. -/
theorem client_follows_terminal (run : Run Link.Step (Link.initial emitSeq) steps last)
    (ordered : ∀ taken ∈ steps, taken.before.inOrder taken.event = true) :
    ∀ state ∈ Run.states (Link.initial emitSeq) steps,
      Feeds none state.received state.grid ∧ state.asked = false ∧
        (state.subscribed = true → state.queue = [] → state.attaching = none →
        state.behind = false →
          state.grid = some state.emitSeq) ∧
        (state.subscribed = true → state.queue = [] → state.attaches = [] → state.recovers = 0 →
          state.writer = .idle → state.grid = some state.emitSeq) := by
  have streaming : ∀ state ∈ Run.states (Link.initial emitSeq) steps, Streaming state := by
    have preserved : ∀ {before turn after}, Link.Step before turn after → Streaming before →
        before.inOrder turn = true → Streaming after := by
      rintro before turn _ ⟨allowed, rfl⟩ start guard
      exact start.step turn allowed guard
    exact run.guarded_states Streaming (fun taken => taken.before.inOrder taken.event = true)
      preserved (.initial emitSeq) ordered
  intro state member
  obtain ⟨reached, streams, fits⟩ := streaming state member
  have drained : state.queue = [] → reached = state.grid := by
    intro queue
    exact (queue ▸ streams.queue : Feeds state.grid [] reached).of_nil
  refine ⟨streams.received, streams.unasked, ?_, ?_⟩
  · intro subscribed queue attaching behind
    rw [← drained queue]
    exact fits.current subscribed attaching behind
  · intro subscribed queue attaches recovers writer
    rw [← drained queue]
    refine fits.current subscribed (fits.pending attaches) ?_
    cases behind : state.behind with
    | false => rfl
    | true => simpa [queue, recovers, writer] using fits.owed behind

/-- Two attaches that overlap, with deltas withheld, a recovery and the terminal's end. -/
private def orderedAttaches : List Link.Turn :=
  [.beginAttach 0, .emit, .beginAttach 1, .emit, .sendAck ⟨0, 0, false⟩, .sendAck ⟨1, 1, false⟩,
    .finishTerminal, .finishAttach ⟨0, 0, true⟩, .recoverAttach, .finishAttach ⟨1, 1, true⟩,
    .drain, .check, .drain, .check, .drain, .check]

private def orderedEnd : Link := Run.replay Link.step (Link.initial 0) orderedAttaches

theorem client_follows_terminal_overlapping :
    Feeds none orderedEnd.received orderedEnd.grid ∧ orderedEnd.asked = false ∧
      orderedEnd.live = false ∧ orderedEnd.grid = some orderedEnd.emitSeq :=
  have run := Run.of_admits (fun allowed => ⟨allowed, rfl⟩) (by decide +kernel : Run.admits Link.step
    Link.allows (Link.initial 0) orderedAttaches = true)
  have follows := client_follows_terminal run (by decide +kernel) orderedEnd run.last_mem_states
  ⟨follows.1, follows.2.1, by decide +kernel,
    follows.2.2.2 (by decide +kernel) (by decide +kernel) (by decide +kernel) (by decide +kernel)
      (by decide +kernel)⟩

/-- The first attach is finished before the second is answered, so a delta overtakes the answer. -/
theorem delta_overtakes_answer :
    ∃ steps last, Run Link.Step (Link.initial 0) steps last ∧ last.asked = true :=
  ⟨_, _, Run.of_admits (fun allowed => ⟨allowed, rfl⟩) (by decide +kernel : Run.admits Link.step
      Link.allows (Link.initial 0) [.beginAttach 0, .beginAttach 1, .sendAck ⟨0, 0, false⟩,
        .finishAttach ⟨0, 0, true⟩, .emit, .sendAck ⟨1, 0, false⟩, .emit, .drain, .check, .drain,
        .check, .drain, .check, .drain] = true),
    by decide +kernel⟩

end ForgeNode.Terminal
