import ForgeNode.Prompts.Single

/-! Prompts are pasted once, kept in their slot until then, submitted once in an idle period and
not forgotten; a carriage return follows a look at an idle session under the same writer lock. -/

namespace ForgeNode.Prompts

open List Store
open Orchestration (Timestamp SessionState)

variable {host : Host} {call : Call} {now : Timestamp}

/-- A prompt leaves its slot only to be pasted, or as the session ends or starts again. -/
def SlotKept (taken : Taken Host Host.Turn) : Prop :=
  ∀ prompt, taken.before.pendingPrompt = some prompt → taken.after.pendingPrompt = some prompt ∨
    taken.after.pendingPrompt = none ∧
      ((∃ row ∈ taken.after.calls, row.takes = some prompt.context) ∨
        taken.after.session.state ≠ taken.before.session.state)

theorem Single.keeps_delivered {after : Host} (single : Single host) (member : call ∈ host.calls)
    {delivery : Delivery} {stage : Stage} (delivering : call.phase = .delivering delivery stage)
    (outcome : Delivered host call delivery now stage after) {prompt : PendingPrompt}
    (pending : host.pendingPrompt = some prompt) : after.pendingPrompt = some prompt ∨
      after.pendingPrompt = none ∧ ∃ row ∈ after.calls, row.takes = some prompt.context := by
  cases outcome with
  | ended result _ => exact .inl ((@Host.reply_shared host call delivery result).2.2.1.trans pending)
  | moved _ _ _ _ _ _ => exact .inl pending
  | slotted terminal before checked _ =>
    refine .inl ((@Host.reply_shared { host with pendingPrompt := some delivery.prompt } call delivery
      (.ok ⟨false, false⟩)).2.2.1.trans ?_)
    rcases single.target member delivering before checked with held | ⟨empty, _⟩
    · exact held.symm.trans pending
    · exact absurd (empty.symm.trans pending) (by simp)
  | taken gate terminal checked =>
    refine .inr ⟨(@Host.take_shared host now delivery).2.2.2.2.1, ?_⟩
    have there : call ∈ (host.take delivery now).calls := by
      rw [host.take_calls]
      exact member
    refine ⟨_, (Host.mem_go there).mpr (.inl rfl), ?_⟩
    rcases single.target member delivering rfl checked with held | ⟨empty, _⟩
    · cases held.symm.trans pending
      rfl
    · exact absurd (empty.symm.trans pending) (by simp)
  | pasted _ _ _ result =>
    exact .inl ((@Host.reply_shared { host with pastes := delivery.prompt.context :: host.pastes }
      call delivery result).2.2.1.trans pending)
  | returned _ _ => exact .inl pending

theorem Host.setSessionState_keeps (next : SessionState) (terminal : Option TerminalId)
    {prompt : PendingPrompt} (pending : host.pendingPrompt = some prompt) :
    (host.setSessionState next terminal now).pendingPrompt = some prompt ∨
      (host.setSessionState next terminal now).pendingPrompt = none ∧
        (host.setSessionState next terminal now).session.state ≠ host.session.state := by
  cases permitted : host.session.state.canTransitionTo next with
  | false =>
    rw [Host.setSessionState_refused permitted]
    exact .inl pending
  | true =>
    obtain ⟨state, _, _, left⟩ := @Host.setSessionState_moved host now next terminal permitted
    rw [left, state]
    split
    · refine .inr ⟨rfl, fun same => ?_⟩
      rw [same] at permitted
      cases at_state : host.session.state <;> rw [at_state] at permitted <;> cases permitted
    · exact .inl pending

theorem Single.keeps (single : Single host) (turn : Host.Turn) :
    SlotKept ⟨host, turn, host.step turn⟩ := by
  intro prompt pending
  have pending : host.pendingPrompt = some prompt := pending
  cases turn with
  | consider | point | report | flush | send => exact .inl pending
  | input | eof =>
    simp only [Host.step]
    split
    · exact .inl pending
    · exact .inl pending
  | spawn now =>
    simp only [Host.step]
    split
    · refine (Host.setSessionState_keeps .running (some host.spawned) ?_).imp_right
        (And.imp_right .inr)
      exact pending
    · exact .inl pending
  | restart now =>
    exact (Host.setSessionState_keeps .starting none pending).imp_right (And.imp_right .inr)
  | fail now => exact (Host.setSessionState_keeps .failed none pending).imp_right (And.imp_right .inr)
  | watch watched => exact .inl pending
  | advance id now fails =>
    simp only [Host.step]
    split
    · exact .inl pending
    · rename_i call found
      have member := mem_of_get? found
      have moved := Moved.of_advance member now fails
      generalize host.advance call now fails = after at moved ⊢
      cases moved with
      | passed _ _ same _ _ _ _ _ => exact .inl (same.trans pending)
      | idled _ _ _ _ _ same _ _ _ => exact .inl (same.trans pending)
      | sent _ _ _ _ _ => exact .inl pending
      | flushed _ _ _ => exact .inl pending
      | delivered delivery stage delivering outcome =>
        exact (single.keeps_delivered member delivering outcome pending).imp_right
          (And.imp_right .inl)
      | exited _ =>
        exact (Host.setSessionState_keeps .exited none pending).imp_right (And.imp_right .inr)

section Return

/-- The call holds the writer of the terminal. -/
def Host.holdsWriter (host : Host) (id : CallId) (terminal : TerminalId) : Prop :=
  ∃ row ∈ host.calls, row.id = id ∧ .writer terminal ∈ row.phase.holds

/-- The turn writes the carriage return of a prompt to the terminal. -/
def Host.returns (host : Host) (turn : Host.Turn) (id : CallId) (terminal : TerminalId) : Prop :=
  ∃ now fails row delivery gate, turn = .advance id now fails ∧ row ∈ host.calls ∧ row.id = id ∧
    row.phase = .delivering delivery (.returning gate terminal)

/-- A carriage return is due, or is about to be. -/
def Host.due (host : Host) (id : CallId) (terminal : TerminalId) : Prop :=
  ∃ row ∈ host.calls, row.id = id ∧ ∃ delivery gate, row.phase = .delivering delivery
    (.pasting gate terminal true) ∨ row.phase = .delivering delivery (.returning gate terminal)

variable {id : CallId} {terminal : TerminalId}

theorem Host.due.holds (due : host.due id terminal) : host.holdsWriter id terminal := by
  obtain ⟨row, there, named, delivery, gate, phase | phase⟩ := due
  · exact ⟨row, there, named, by rw [phase]; simp [Phase.holds, Stage.holds]⟩
  · exact ⟨row, there, named, by rw [phase]; simp [Phase.holds, Stage.holds]⟩

theorem Host.due.of_start {phase : Phase} (due : (host.start phase).due id terminal)
    (quiet : (⟨0, phase, false⟩ : Call).prompt = none) : host.due id terminal := by
  obtain ⟨row, there, named, delivery, gate, either⟩ := due
  rcases Host.mem_start.mp there with rfl | ⟨old, _⟩
  · unfold Call.prompt at quiet
    rcases either with delivering | delivering
    · have delivering : phase = _ := delivering
      rw [delivering] at quiet
      cases quiet
    · have delivering : phase = _ := delivering
      rw [delivering] at quiet
      cases quiet
  · exact ⟨row, old, named, delivery, gate, either⟩

theorem Host.due.of_calls {after : Host} (due : after.due id terminal)
    (calls : after.calls = host.calls) :
    host.due id terminal := by
  obtain ⟨row, there, rest⟩ := due
  exact ⟨row, calls ▸ there, rest⟩

/-- A carriage return becomes due only in a look at the idle session, with the writer held. -/
theorem Host.due.began {turn : Host.Turn} (due : (host.step turn).due id terminal)
    (before : ¬ host.due id terminal) :
    host.session.idle = true ∧ host.holdsWriter id terminal := by
  have session (next : SessionState) (host' : Host) (current : Option TerminalId) (now : Timestamp)
      (calls : host'.calls = host.calls) (due : (host'.setSessionState next current now).due
      id terminal) :
      host.session.idle = true ∧ host.holdsWriter id terminal :=
    absurd (due.of_calls ((host'.setSessionState_calls next current now).1.trans calls)) before
  cases turn with
  | consider | point | report | flush | send => exact absurd (Host.due.of_start due rfl) before
  | input | eof =>
    simp only [Host.step] at due
    split at due
    · exact absurd (Host.due.of_start due rfl) before
    · exact absurd due before
  | spawn now =>
    simp only [Host.step] at due
    split at due
    · exact session .running { host with
        terminals := host.spawned :: host.terminals
        spawned := host.spawned + 1 } (some host.spawned) now rfl due
    · exact absurd due before
  | restart | fail => exact session _ host _ _ rfl due
  | watch watched => exact absurd due before
  | advance turned now fails =>
    simp only [Host.step] at due
    split at due
    · exact absurd due before
    rename_i call found
    have member := mem_of_get? found
    have moves := OnlyMoves.advance member now fails
    have moved := Moved.of_advance member now fails
    generalize host.advance call now fails = after at moved moves due
    obtain ⟨row, there, named, delivery, gate, either⟩ := due
    by_cases same : row.id = call.id
    · have delivering : ∃ stage, row.phase = .delivering delivery stage ∧ stage.untaken = false ∧
          stage ≠ .checking := by
        rcases either with phase | phase
        · exact ⟨_, phase, rfl, by simp⟩
        · exact ⟨_, phase, rfl, by simp⟩
      obtain ⟨stage, phase, taken, begun⟩ := delivering
      cases moved with
      | passed _ _ _ _ plain _ _ _ =>
        have plain := plain row there same
        rw [phase] at plain
        cases plain
      | idled _ _ _ _ _ _ _ flushing _ =>
        obtain ⟨other, there', same', flushing⟩ := flushing
        rw [eq_of_key there there' (same.trans same'.symm), flushing] at phase
        cases phase
      | sent _ _ _ _ _ =>
        rcases (Host.mem_go member).mp there with rfl | ⟨_, differ⟩
        · cases phase
          exact absurd rfl begun
        · exact absurd same differ
      | flushed _ _ _ =>
        rcases (Host.mem_go member).mp there with rfl | ⟨_, differ⟩
        · cases phase
          exact absurd rfl begun
        · exact absurd same differ
      | exited _ => exact absurd same (Host.mem_finish.mp there).2
      | delivered delivery' stage' delivering outcome =>
        cases outcome with
        | taken gate' terminal' _ =>
          have calls : call ∈ (host.take delivery' now).calls := by
            rw [host.take_calls]
            exact member
          have there : row ∈ ((host.take delivery' now).go call _).calls := there
          rcases (Host.mem_go calls).mp there with rfl | ⟨_, differ⟩
          · rcases either with either | either
            · simp only [Phase.delivering.injEq, Stage.pasting.injEq, Bool.and_eq_true] at either
              obtain ⟨rfl, rfl, rfl, _, idle⟩ := either
              exact ⟨idle, call, member, named, by rw [delivering]; simp [Phase.holds, Stage.holds]⟩
            · simp only [Phase.delivering.injEq, reduceCtorEq, and_false] at either
          · exact absurd same differ
        | returned gate' terminal' =>
          have there : row ∈ (host.go call
              (.delivering delivery' (.returning gate' terminal'))).calls := there
          rcases (Host.mem_go member).mp there with rfl | ⟨_, differ⟩
          · rcases either with either | either
            · simp only [Phase.delivering.injEq, reduceCtorEq, and_false] at either
            · simp only [Phase.delivering.injEq, Stage.returning.injEq] at either
              obtain ⟨rfl, rfl, rfl⟩ := either
              exact absurd ⟨call, member, named, delivery', gate', .inl delivering⟩ before
          · exact absurd same differ
        | ended result _ =>
          have quiet := (Host.replied_row member there same).2.1
          rw [show row.prompt = some delivery.prompt by unfold Call.prompt; rw [phase]] at quiet
          cases quiet
        | moved later _ _ _ untaken _ =>
          rcases (Host.mem_go member).mp there with rfl | ⟨_, differ⟩
          · cases phase
            rw [taken] at untaken
            cases untaken
          · exact absurd same differ
        | slotted _ _ _ _ =>
          have quiet := (@Host.replied_row { host with pendingPrompt := some delivery'.prompt } call
            member delivery' _ row there same).2.1
          rw [show row.prompt = some delivery.prompt by unfold Call.prompt; rw [phase]] at quiet
          cases quiet
        | pasted _ _ _ _ =>
          have quiet :=
            (@Host.replied_row { host with pastes := delivery'.prompt.context :: host.pastes } call
            member delivery' _ row there same).2.1
          rw [show row.prompt = some delivery.prompt by unfold Call.prompt; rw [phase]] at quiet
          cases quiet
    · exact absurd ⟨row, moves.old row there same, named, delivery, gate, either⟩ before

end Return

section Runs

variable {kind : SessionKind} {state : SessionState} {steps : List (Taken Host Host.Turn)}
  {last : Host}

/-- Each prompt was written to the terminal at most once. -/
def PastedOnce (host : Host) : Prop := ∀ context, host.pastes.count context ≤ 1

def OneSubmissionPerPeriod (host : Host) : Prop := ∀ period, host.submissions.count period ≤ 1

/-- Where no call is under way, no prompt waits for a session that is idle. -/
def NoneWaiting (host : Host) : Prop :=
  host.calls.rows = [] → host.session.activity.state = .idle → host.pendingPrompt = none

/-- A carriage return is written while the session is hook-idle, by a call that holds the writer. -/
def ReturnsWhileIdle (steps : List (Taken Host Host.Turn)) : Prop :=
  ∀ taken ∈ steps, ∀ id terminal, taken.before.returns taken.event id terminal →
    taken.before.session.idle = true ∧ taken.before.holdsWriter id terminal

/-- A carriage return is written by a call that has held the writer since it found the session
hook-idle. -/
def ReturnsSinceIdle (steps : List (Taken Host Host.Turn)) : Prop :=
  ∀ front taken back, steps = front ++ taken :: back → ∀ id terminal,
    taken.before.returns taken.event id terminal → ∃ earlier look since, front = earlier ++ look ::
      since ∧ look.before.session.idle = true ∧ look.before.holdsWriter id terminal ∧
      ∀ host ∈ ForgeNode.Run.states look.after since, host.holdsWriter id terminal

theorem returns_since_idle (run : ForgeNode.Run Host.Step (Host.initial kind state now)
      steps last) :
    ReturnsSinceIdle steps := by
  rintro front taken back rfl id terminal ⟨_, _, row, delivery, gate, _, there, named, phase⟩
  obtain ⟨middle, before, after⟩ := run.split
  have same : taken.before = middle := by
    cases after with
    | cons here rest => rfl
  have due : middle.due id terminal := same ▸ ⟨row, there, named, delivery, gate, .inr phase⟩
  rcases before.held_since (fun host => host.due id terminal) due with always | ⟨earlier, look,
    since, rfl, began, held⟩
  · obtain ⟨row, there, _⟩ := always _ mem_cons_self
    exact absurd there (not_mem_empty row)
  · obtain ⟨_, stepped⟩ := before.step_of_mem (mem_append_right earlier mem_cons_self)
    have due := held look.after mem_cons_self
    rw [stepped] at due
    obtain ⟨idle, holds⟩ := due.began began
    exact ⟨earlier, look, since, rfl, idle, holds, fun host member => (held host member).holds⟩

/-- What every state of a run keeps. -/
structure Kept (host : Host) : Prop where
  paced : Paced host
  numbered : Numbered host
  placed : Placed host
  awaited : Awaited host
  single : Single host

theorem Kept.step (kept : Kept host) (turn : Host.Turn) : Kept (host.step turn) :=
  ⟨kept.paced.step turn, kept.numbered.step turn, kept.placed.step kept.numbered turn,
    kept.awaited.step kept.placed kept.numbered turn, kept.single.step kept.numbered turn⟩

theorem Kept.initial : Kept (Host.initial kind state now) :=
  ⟨.initial kind state now, .initial, .initial,
    fun _ _ pending => absurd pending (by simp [Host.initial]), .initial⟩

theorem Kept.noneWaiting (kept : Kept host) : NoneWaiting host := by
  intro none idle
  cases pending : host.pendingPrompt with
  | none => rfl
  | some prompt =>
    have empty (row : Call) : row ∉ host.calls := by
      intro there
      have there : row ∈ host.calls.rows := there
      rw [none] at there
      cases there
    rcases kept.awaited prompt (kept.paced.idle.mpr idle) pending with ⟨row, there, _⟩ | ⟨row,
      there, _⟩
    · exact absurd there (empty row)
    · exact absurd there (empty row)

/-- In every interleaving a prompt is written once, kept until then, and not forgotten; one is
submitted in each idle period, after a look at an idle session under the writer's lock. -/
theorem prompts_delivered
    (run : ForgeNode.Run Host.Step (Host.initial kind state now) steps last) :
    (∀ host ∈ ForgeNode.Run.states (Host.initial kind state now) steps,
      PastedOnce host ∧ OneSubmissionPerPeriod host ∧ NoneWaiting host) ∧
    (∀ taken ∈ steps, SlotKept taken) ∧ ReturnsSinceIdle steps := by
  have kept := run.invariant_states Kept (fun {before turn after} step kept => by
    obtain ⟨_, rfl⟩ := step
    exact kept.step turn) .initial
  refine ⟨fun host member => ?_, fun taken there => ?_, returns_since_idle run⟩
  · have held : Kept host := kept host member
    exact ⟨nodup_iff_count_le_one.mp held.single.nodup,
      nodup_iff_count_le_one.mp held.paced.submissions, held.noneWaiting⟩
  · obtain ⟨_, stepped⟩ := run.step_of_mem there
    have slots := (kept _ (run.before_mem_states there)).single.keeps taken.event
    rwa [← stepped] at slots

/-- A prompt for an idle session, to be submitted. -/
def promptSubmitted : List Host.Turn :=
  let advance (id : CallId) : Host.Turn := .advance id 0 false
  [.spawn 0, .report .idle, advance 0, advance 0, advance 0, advance 0, .send "go on" true .ifIdle,
    advance 1, advance 1, advance 1, advance 1, advance 1, advance 1, advance 1, advance 1, advance 1]

theorem prompts_delivered_promptSubmitted :
    (∀ host ∈ ForgeNode.Run.states (Host.initial .agent .starting 0)
        (ForgeNode.Run.trace Host.step (Host.initial .agent .starting 0) promptSubmitted),
      PastedOnce host ∧ OneSubmissionPerPeriod host ∧ NoneWaiting host) ∧
    (∀ taken ∈ ForgeNode.Run.trace Host.step (Host.initial .agent .starting 0) promptSubmitted,
      SlotKept taken) ∧
    ReturnsSinceIdle (ForgeNode.Run.trace Host.step (Host.initial .agent .starting 0)
      promptSubmitted) :=
  prompts_delivered (@ForgeNode.Run.of_admits _ _ _ (Host.initial .agent .starting 0) Host.step
  Host.allows
    promptSubmitted (fun allowed => ⟨allowed, rfl⟩) (by decide +kernel))

/-- The carriage return is written after the session was moved to Working. -/
theorem prompts_returned_working :
    ¬ ∀ (kind : SessionKind) (state : SessionState) (now : Timestamp)
      (steps : List (Taken Host Host.Turn)) (last : Host),
      ForgeNode.Run Host.Step (Host.initial kind state now) steps last →
      ReturnsWhileIdle steps := by
  intro claimed
  have run : ForgeNode.Run Host.Step (Host.initial .agent .starting 0)
      (ForgeNode.Run.trace Host.step (Host.initial .agent .starting 0) promptSubmitted)
      (ForgeNode.Run.replay Host.step (Host.initial .agent .starting 0) promptSubmitted) :=
    @ForgeNode.Run.of_admits _ _ _ _ Host.step Host.allows _ (fun allowed => ⟨allowed, rfl⟩)
      (by decide +kernel)
  have idle := (claimed _ _ _ _ _ run _ (@getElem_mem _ (ForgeNode.Run.trace Host.step
    (Host.initial .agent .starting 0) promptSubmitted) 15 (by decide +kernel)) 1 0
    ⟨0, false, ⟨1, .delivering ⟨⟨"go on", true, 0, 1⟩, .ifIdle, .request⟩ (.returning 0 0), false⟩,
    _, _,
      rfl, by
        show _ ∈ Store.rows _
        decide +kernel, rfl, rfl⟩).1
  exact absurd idle (by decide +kernel)

end Runs

end ForgeNode.Prompts
