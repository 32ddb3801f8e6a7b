import ForgeNode.Prompts.Moves

/-! The prompt slot: whose terminal it is for, and who looks at it when the session is idle. -/

namespace ForgeNode.Prompts

open Store

open Orchestration (Timestamp SessionState)

variable {host : Host} {call : Call} {now : Timestamp}

variable {after : Host} {next : SessionState} {terminal : Option TerminalId}

/-- A session with a terminal runs, its process is there or is about to be seen to have ended,
and a prompt waits only for that terminal; a delivery works on its prompt's terminal. -/
structure Placed (host : Host) : Prop where
  runs : host.session.terminalId.isSome = true → host.session.state = .running
  present : ∀ terminal, host.session.terminalId = some terminal → terminal ∈ host.terminals ∨
    ∃ row ∈ host.calls, row.phase = .exiting
  slot : ∀ prompt, host.pendingPrompt = some prompt → host.session.kind = .agent ∧
    host.session.terminalId = some prompt.terminal
  located : ∀ row ∈ host.calls, ∀ delivery stage terminal, row.phase = .delivering delivery stage →
    stage.terminal = some terminal → delivery.prompt.terminal = terminal

theorem Placed.running (placed : Placed host) {prompt : PendingPrompt}
    (pending : host.pendingPrompt = some prompt) : host.session.state = .running :=
  placed.runs (by rw [(placed.slot prompt pending).2]; rfl)

theorem Placed.checks (placed : Placed host) {prompt : PendingPrompt}
    (pending : host.pendingPrompt = some prompt) :
    host.checkTarget .queue prompt false = .ok prompt.terminal := by
  obtain ⟨agent, terminal⟩ := placed.slot prompt pending
  simp [Host.checkTarget, agent, terminal, placed.running pending, pending, isActive]

theorem Host.setSessionState_refused (refused : host.session.state.canTransitionTo next = false) :
    host.setSessionState next terminal now = host := by
  unfold Host.setSessionState
  rw [if_pos (by rw [refused]; rfl)]

theorem Host.setSessionState_moved {next : SessionState} {terminal : Option TerminalId}
    (permitted : host.session.state.canTransitionTo next = true) :
    (host.setSessionState next terminal now).session.state = next ∧
      (host.setSessionState next terminal now).session.terminalId = terminal ∧
      (host.setSessionState next terminal now).terminals = host.terminals ∧
      (host.setSessionState next terminal now).pendingPrompt =
        if next = .starting || next.isTerminal then none else host.pendingPrompt := by
  unfold Host.setSessionState
  rw [if_neg (by rw [permitted]; exact Bool.false_ne_true)]
  simp only
  split <;> exact ⟨rfl, rfl, rfl, rfl⟩

theorem Placed.setSessionState_empty (placed : Placed host)
    (permitted : host.session.state.canTransitionTo next = true) :
    (host.setSessionState next terminal now).pendingPrompt = none := by
  rw [(Host.setSessionState_moved permitted).2.2.2]
  cases pending : host.pendingPrompt with
  | none => split <;> rfl
  | some prompt =>
    rw [placed.running pending] at permitted
    cases next with
    | exited => rfl
    | orphaned => rfl
    | starting => cases permitted
    | running => cases permitted
    | failed => cases permitted

theorem Placed.setSessionState (placed : Placed host)
    (spawns : next = .running → ∃ new, terminal = some new ∧
      new ∈ host.terminals) (ends : next ≠ .running → terminal = none) :
    Placed (host.setSessionState next terminal now) := by
  cases permitted : host.session.state.canTransitionTo next with
  | false =>
    rw [Host.setSessionState_refused permitted]
    exact placed
  | true =>
    obtain ⟨state, terminalId, terminals, _⟩ := @Host.setSessionState_moved host now next terminal
      permitted
    have calls := (host.setSessionState_calls next terminal now).1
    refine ⟨fun located => ?_, fun found named => ?_, fun prompt pending => ?_, ?_⟩
    · rw [state]
      rw [terminalId] at located
      by_cases runs : next = .running
      · exact runs
      · rw [ends runs] at located
        cases located
    · rw [terminalId] at named
      by_cases runs : next = .running
      · obtain ⟨new, given, there⟩ := spawns runs
        rw [given] at named
        cases named
        exact .inl (terminals ▸ there)
      · rw [ends runs] at named
        cases named
    · rw [placed.setSessionState_empty permitted] at pending
      cases pending
    · rw [calls]
      exact placed.located

/-- A queued prompt of an idle session is about to be delivered, unless its process has ended. -/
def Awaited (host : Host) : Prop := ∀ prompt, host.session.idle = true →
  host.pendingPrompt = some prompt → (∃ row ∈ host.calls, row.phase = .flushing ∨
    ∃ stage, row.phase = .delivering ⟨prompt, .queue, .queue⟩ stage ∧ stage.untaken = true) ∨
  ∃ row ∈ host.calls, row.phase = .exiting

theorem Awaited.setSessionState (awaited : Awaited host) (placed : Placed host)
    (next : SessionState) (terminal : Option TerminalId) :
    Awaited (host.setSessionState next terminal now) := by
  cases permitted : host.session.state.canTransitionTo next with
  | false =>
    rw [Host.setSessionState_refused permitted]
    exact awaited
  | true =>
    intro prompt _ pending
    rw [placed.setSessionState_empty permitted] at pending
    cases pending

theorem Host.reply_shared {delivery : Delivery}
    {result : Except Orchestration.ProtocolError Answer} :
    (host.reply call delivery result).session = host.session ∧
      (host.reply call delivery result).terminals = host.terminals ∧
      (host.reply call delivery result).pendingPrompt = host.pendingPrompt ∧
      (host.reply call delivery result).pastes = host.pastes := by
  unfold Host.reply Host.flushed Host.finish
  split <;> split <;> exact ⟨rfl, rfl, rfl, rfl⟩

theorem Host.take_shared {delivery : Delivery} :
    (host.take delivery now).session.kind = host.session.kind ∧
      (host.take delivery now).session.state = host.session.state ∧
      (host.take delivery now).session.terminalId = host.session.terminalId ∧
      (host.take delivery now).terminals = host.terminals ∧
      (host.take delivery now).pendingPrompt = none ∧ (host.take delivery now).pastes =
        host.pastes := by
  unfold Host.take Host.trigger
  simp only
  split <;> exact ⟨rfl, rfl, rfl, rfl, rfl, rfl⟩

/-- Of the calls that deliver nothing afterwards, nothing is to be shown. -/
theorem Placed.of_calls (placed : Placed host) (moves : OnlyMoves call host after)
    (state : after.session.state = host.session.state)
    (terminalId : after.session.terminalId = host.session.terminalId)
    (terminals : after.terminals = host.terminals)
    (slot : ∀ prompt, after.pendingPrompt = some prompt → after.session.kind = .agent ∧
      after.session.terminalId = some prompt.terminal)
    (stays : call.phase ≠ .exiting)
    (located : ∀ row ∈ after.calls, row.id = call.id → ∀ delivery stage terminal,
      row.phase = .delivering delivery stage → stage.terminal = some terminal →
      delivery.prompt.terminal = terminal) (member : call ∈ host.calls) : Placed after where
  runs := by
    rw [state, terminalId]
    exact placed.runs
  present := by
    intro terminal named
    rw [terminalId] at named
    rw [terminals]
    rcases placed.present terminal named with there | ⟨row, there, exiting⟩
    · exact .inl there
    · refine .inr ⟨row, moves.kept row there fun same => ?_, exiting⟩
      rw [eq_of_key there member same] at exiting
      exact stays exiting
  slot := slot
  located := by
    intro row there
    by_cases same : row.id = call.id
    · exact located row there same
    · exact placed.located row (moves.old row there same)

theorem Placed.delivered (placed : Placed host) (member : call ∈ host.calls)
    {delivery : Delivery} {stage : Stage} (delivering : call.phase = .delivering delivery stage)
    (outcome : Delivered host call delivery now stage after) : Placed after := by
  have stays : call.phase ≠ .exiting := fun exiting => by rw [delivering] at exiting; cases exiting
  have located : ∀ row ∈ after.calls, row.id = call.id → ∀ delivery' stage' terminal,
      row.phase = .delivering delivery' stage' → stage'.terminal = some terminal →
      delivery'.prompt.terminal = terminal := by
    intro row there same delivery' stage' terminal phase found
    rcases outcome.next member there same with pointing | ⟨next, phase', located, _⟩
    · rw [pointing] at phase
      cases phase
    · rw [phase'] at phase
      cases phase
      rcases located terminal found with before | prompt
      · exact placed.located call member delivery stage terminal delivering before
      · exact prompt
  have moves := OnlyMoves.of_delivered member outcome
  cases outcome with
  | ended result _ =>
    obtain ⟨session, terminals, pending, _⟩ := @Host.reply_shared host call delivery result
    refine placed.of_calls moves (by rw [session]) (by rw [session]) terminals ?_ stays located member
    rw [session, pending]
    exact placed.slot
  | moved _ _ _ _ _ _ => exact placed.of_calls moves rfl rfl rfl placed.slot stays located member
  | slotted terminal _ checked _ =>
    obtain ⟨session, terminals, pending, _⟩ :=
      @Host.reply_shared { host with pendingPrompt := some delivery.prompt } call delivery
        (.ok ⟨false, false⟩)
    refine placed.of_calls moves (by rw [session]) (by rw [session]) terminals ?_ stays located member
    obtain ⟨agent, _, held, same, _⟩ := Host.checkTarget_ok checked
    intro prompt slotted
    rw [pending] at slotted
    cases slotted
    rw [session]
    exact ⟨agent, by rw [same]; exact held⟩
  | taken _ _ _ =>
    obtain ⟨_, state, terminalId, terminals, pending, _⟩ := @Host.take_shared host now delivery
    refine placed.of_calls moves state terminalId terminals (fun prompt slotted => ?_) stays located
      member
    have slotted : (host.take delivery now).pendingPrompt = some prompt := slotted
    rw [pending] at slotted
    cases slotted
  | pasted _ _ _ result =>
    obtain ⟨session, terminals, pending, _⟩ :=
      @Host.reply_shared { host with pastes := delivery.prompt.context :: host.pastes } call
      delivery result
    refine placed.of_calls moves (by rw [session]) (by rw [session]) terminals ?_ stays located member
    rw [session, pending]
    exact placed.slot
  | returned _ _ => exact placed.of_calls moves rfl rfl rfl placed.slot stays located member

/-- A row in a plain phase, or looking at the slot, works on no terminal. -/
theorem Placed.advance (placed : Placed host) (member : call ∈ host.calls)
    (moved : Moved host call now after) : Placed after := by
  cases moved with
  | passed moves stays pending _ plain _ _ exiting =>
    refine placed.of_calls moves stays.state stays.terminalId stays.terminals ?_ exiting ?_ member
    · rw [pending, stays.kind, stays.terminalId]
      exact placed.slot
    · intro row there same _ _ _ phase
      have plain := plain row there same
      rw [phase] at plain
      cases plain
  | idled moves kind state terminalId terminals pending _ flushing applying =>
    obtain ⟨_, _, applying⟩ := applying
    refine placed.of_calls moves state terminalId terminals ?_
      (fun exiting => by rw [applying] at exiting; cases exiting) ?_ member
    · rw [pending, kind, terminalId]
      exact placed.slot
    · intro row there same _ _ _ phase
      obtain ⟨other, there', same', flushing⟩ := flushing
      rw [eq_of_key there there' (same.trans same'.symm), flushing] at phase
      cases phase
  | sent text submit time terminal sending =>
    refine placed.of_calls (.go member _) rfl rfl rfl placed.slot
      (fun exiting => by rw [sending] at exiting; cases exiting) ?_ member
    intro row there same _ _ _ phase found
    rcases (Host.mem_go member).mp there with rfl | ⟨_, differ⟩
    · cases phase
      cases found
    · exact absurd same differ
  | flushed prompt flushing pending =>
    refine placed.of_calls (.go member _) rfl rfl rfl placed.slot
      (fun exiting => by rw [flushing] at exiting; cases exiting) ?_ member
    intro row there same _ _ _ phase found
    rcases (Host.mem_go member).mp there with rfl | ⟨_, differ⟩
    · cases phase
      cases found
    · exact absurd same differ
  | delivered delivery stage delivering outcome => exact placed.delivered member delivering outcome
  | exited exiting =>
    have ended : (host.setSessionState .exited none now).session.terminalId = none := by
      cases permitted : host.session.state.canTransitionTo .exited with
      | false =>
        rw [Host.setSessionState_refused permitted]
        cases located : host.session.terminalId with
        | none => rfl
        | some terminal =>
          rw [placed.runs (by rw [located]; rfl)] at permitted
          cases permitted
      | true => exact (Host.setSessionState_moved permitted).2.1
    have moved : Placed (host.setSessionState .exited none now) :=
      placed.setSessionState (fun runs => by cases runs) (fun _ => rfl)
    refine ⟨moved.runs, fun terminal named => ?_, moved.slot, fun row there => ?_⟩
    · have named : (host.setSessionState .exited none now).session.terminalId = some terminal := named
      rw [ended] at named
      cases named
    · exact moved.located row (Host.mem_finish.mp there).1

theorem Placed.start (placed : Placed host) (numbered : Numbered host) {phase : Phase}
    (quiet : ∀ delivery stage, phase ≠ .delivering delivery stage) : Placed (host.start phase) where
  runs := placed.runs
  present := by
    intro terminal named
    rcases placed.present terminal named with there | ⟨row, there, exiting⟩
    · exact .inl there
    · exact .inr ⟨row, Host.mem_start.mpr (.inr ⟨there, Nat.ne_of_lt (numbered row there)⟩), exiting⟩
  slot := placed.slot
  located := by
    intro row there delivery stage _ phase
    rcases Host.mem_start.mp there with rfl | ⟨old, _⟩
    · exact absurd phase (quiet delivery stage)
    · exact placed.located row old delivery stage _ phase

theorem Placed.step (placed : Placed host) (numbered : Numbered host) (turn : Host.Turn) :
    Placed (host.step turn) := by
  cases turn with
  | consider | point | report | flush | send => exact placed.start numbered (by simp)
  | input terminal =>
    simp only [Host.step]
    split
    · exact placed.start numbered (by simp)
    · exact placed
  | eof terminal =>
    simp only [Host.step]
    split
    · refine ⟨placed.runs, fun other named => ?_, placed.slot, ?_⟩
      · exact .inr ⟨_, Host.mem_start.mpr (.inl rfl), rfl⟩
      · exact (placed.start numbered (by simp) : Placed (host.start .exiting)).located
    · exact placed
  | spawn now =>
    simp only [Host.step]
    split
    · have spawned : Placed
          { host with terminals := host.spawned :: host.terminals, spawned := host.spawned + 1 } := by
        refine ⟨placed.runs, fun terminal named => ?_, placed.slot, placed.located⟩
        exact (placed.present terminal named).imp_left (List.mem_cons_of_mem _)
      exact spawned.setSessionState (fun _ => ⟨_, rfl, List.mem_cons_self⟩) (fun differ =>
        absurd rfl differ)
    · exact ⟨placed.runs, placed.present, placed.slot, placed.located⟩
  | restart | fail => exact placed.setSessionState (fun runs => by cases runs) (fun _ => rfl)
  | watch watched => exact ⟨placed.runs, placed.present, placed.slot, placed.located⟩
  | advance id now fails =>
    simp only [Host.step]
    split
    · exact placed
    · rename_i call found
      exact placed.advance (mem_of_get? found) (.of_advance (mem_of_get? found) now fails)

theorem Placed.initial {kind : SessionKind} {state : SessionState} {now : Timestamp} :
    Placed (Host.initial kind state now) :=
  ⟨fun located => absurd located Bool.false_ne_true, fun _ named =>
  absurd named (by simp [Host.initial]),
    fun _ pending => absurd pending (by simp [Host.initial]),
    fun row there => absurd there (not_mem_empty row)⟩

/-- Another call that was to deliver the prompt is to do so still. -/
theorem Awaited.of_calls (awaited : Awaited host) (moves : OnlyMoves call host after)
    (member : call ∈ host.calls) (idle : after.session.idle = true → host.session.idle = true)
    (pending : after.pendingPrompt = host.pendingPrompt)
    (mine : ∀ prompt, host.session.idle = true → host.pendingPrompt = some prompt →
      (call.phase = .flushing ∨ call.phase = .exiting ∨
        ∃ stage, call.phase = .delivering ⟨prompt, .queue, .queue⟩ stage ∧ stage.untaken = true) →
      (∃ row ∈ after.calls, row.phase = .flushing ∨
        ∃ stage, row.phase = .delivering ⟨prompt, .queue, .queue⟩ stage ∧ stage.untaken = true) ∨
      ∃ row ∈ after.calls, row.phase = .exiting) : Awaited after := by
  intro prompt now_idle slotted
  have before := idle now_idle
  have held : host.pendingPrompt = some prompt := pending.symm.trans slotted
  rcases awaited prompt before held with ⟨row, there, delivers⟩ | ⟨row, there, exiting⟩
  · by_cases same : row.id = call.id
    · rw [eq_of_key there member same] at delivers
      refine mine prompt before held ?_
      rcases delivers with flushing | delivering
      · exact .inl flushing
      · exact .inr (.inr delivering)
    · exact .inl ⟨row, moves.kept row there same, delivers⟩
  · by_cases same : row.id = call.id
    · rw [eq_of_key there member same] at exiting
      exact mine prompt before held (.inr (.inl exiting))
    · exact .inr ⟨row, moves.kept row there same, exiting⟩

theorem Awaited.delivered (awaited : Awaited host) (placed : Placed host)
    (member : call ∈ host.calls) {delivery : Delivery} {stage : Stage}
    (delivering : call.phase = .delivering delivery stage)
    (outcome : Delivered host call delivery now stage after) : Awaited after := by
  have moves := OnlyMoves.of_delivered member outcome
  have mine {prompt : PendingPrompt} (phase : call.phase = .flushing ∨ call.phase = .exiting ∨
      ∃ stage, call.phase = .delivering ⟨prompt, .queue, .queue⟩ stage ∧ stage.untaken = true) :
      delivery = ⟨prompt, .queue, .queue⟩ ∧ stage.untaken = true := by
    rw [delivering] at phase
    rcases phase with flushing | exiting | ⟨stage, phase, untaken⟩
    · cases flushing
    · cases exiting
    · cases phase
      exact ⟨rfl, untaken⟩
  cases outcome with
  | ended result missed =>
    obtain ⟨session, _, pending, _⟩ := @Host.reply_shared host call delivery result
    refine awaited.of_calls moves member (by rw [session]; exact id) pending ?_
    intro prompt idle held phase
    obtain ⟨rfl, untaken⟩ := mine phase
    have gone := missed untaken rfl rfl idle
      (fun terminal found => placed.located call member _ stage terminal delivering found)
      (placed.checks held)
    rcases placed.present prompt.terminal (placed.slot prompt held).2 with there | ⟨row, there,
      exiting⟩
    · exact absurd there gone
    · refine .inr ⟨row, moves.kept row there fun same => ?_, exiting⟩
      rw [eq_of_key there member same, delivering] at exiting
      cases exiting
  | moved next gate gates _ untaken _ =>
    refine awaited.of_calls moves member id rfl ?_
    intro prompt _ _ phase
    obtain ⟨rfl, _⟩ := mine phase
    exact .inl ⟨_, (Host.mem_go member).mpr (.inl rfl), .inr ⟨next, rfl, untaken⟩⟩
  | slotted terminal _ _ busy =>
    obtain ⟨session, _⟩ :=
      @Host.reply_shared { host with pendingPrompt := some delivery.prompt } call delivery
        (.ok ⟨false, false⟩)
    intro _ idle
    rw [session] at idle
    exact absurd idle (by rw [busy]; exact Bool.false_ne_true)
  | taken _ _ _ =>
    intro _ _ slotted
    have slotted : (host.take delivery now).pendingPrompt = some _ := slotted
    rw [(@Host.take_shared host now delivery).2.2.2.2.1] at slotted
    cases slotted
  | pasted gate terminal submitted result =>
    obtain ⟨session, _, pending, _⟩ :=
      @Host.reply_shared { host with pastes := delivery.prompt.context :: host.pastes } call
      delivery result
    refine awaited.of_calls moves member (by rw [session]; exact id) pending ?_
    intro _ _ _ phase
    exact absurd (mine phase).2 Bool.false_ne_true
  | returned gate terminal =>
    refine awaited.of_calls moves member id rfl ?_
    intro _ _ _ phase
    exact absurd (mine phase).2 Bool.false_ne_true

theorem Awaited.advance (awaited : Awaited host) (placed : Placed host) (member : call ∈ host.calls)
    (moved : Moved host call now after) : Awaited after := by
  cases moved with
  | passed moves stays pending _ _ flushing delivering exiting =>
    refine awaited.of_calls moves member stays.idle pending ?_
    intro prompt idle held phase
    rcases phase with flushes | exits | ⟨stage, delivers, _⟩
    · exact absurd ((flushing flushes idle).symm.trans held) (by simp)
    · exact absurd exits exiting
    · exact absurd delivers (delivering _ stage)
  | idled _ _ _ _ _ _ _ flushing _ =>
    obtain ⟨row, there, _, flushing⟩ := flushing
    exact fun _ _ _ => .inl ⟨row, there, .inl flushing⟩
  | sent text submit time terminal sending =>
    refine awaited.of_calls (.go member _) member id rfl ?_
    intro _ _ _ phase
    rw [sending] at phase
    rcases phase with flushes | exits | ⟨stage, delivers, _⟩
    · cases flushes
    · cases exits
    · cases delivers
  | flushed prompt flushing pending =>
    refine awaited.of_calls (.go member _) member id rfl ?_
    intro other _ held _
    cases pending.symm.trans held
    exact .inl ⟨_, (Host.mem_go member).mpr (.inl rfl), .inr ⟨.checking, rfl, rfl⟩⟩
  | delivered delivery stage delivering outcome =>
    exact awaited.delivered placed member delivering outcome
  | exited exiting =>
    intro prompt _ slotted
    have slotted : (host.setSessionState .exited none now).pendingPrompt = some prompt := slotted
    cases permitted : host.session.state.canTransitionTo .exited with
    | true =>
      rw [placed.setSessionState_empty permitted] at slotted
      cases slotted
    | false =>
      rw [Host.setSessionState_refused permitted] at slotted
      rw [placed.running slotted] at permitted
      cases permitted

theorem Awaited.start (awaited : Awaited host) (numbered : Numbered host) (phase : Phase) :
    Awaited (host.start phase) := by
  have kept {row : Call} (there : row ∈ host.calls) : row ∈ (host.start phase).calls :=
    Host.mem_start.mpr (.inr ⟨there, Nat.ne_of_lt (numbered row there)⟩)
  intro prompt idle pending
  rcases awaited prompt idle pending with ⟨row, there, delivers⟩ | ⟨row, there, exiting⟩
  · exact .inl ⟨row, kept there, delivers⟩
  · exact .inr ⟨row, kept there, exiting⟩

theorem Awaited.step (awaited : Awaited host) (placed : Placed host) (numbered : Numbered host)
    (turn : Host.Turn) : Awaited (host.step turn) := by
  cases turn with
  | consider | point | report | flush | send => exact awaited.start numbered _
  | input terminal =>
    simp only [Host.step]
    split
    · exact awaited.start numbered _
    · exact awaited
  | eof terminal =>
    simp only [Host.step]
    split
    · exact (awaited.start numbered _ : Awaited (host.start .exiting))
    · exact awaited
  | spawn now =>
    simp only [Host.step]
    split
    · refine Awaited.setSessionState ?_ ?_ _ _
      · exact awaited
      · refine ⟨placed.runs, fun terminal named => ?_, placed.slot, placed.located⟩
        exact (placed.present terminal named).imp_left (List.mem_cons_of_mem _)
    · exact awaited
  | restart | fail => exact awaited.setSessionState placed _ _
  | watch watched => exact awaited
  | advance id now fails =>
    simp only [Host.step]
    split
    · exact awaited
    · rename_i call found
      exact awaited.advance placed (mem_of_get? found)
        (.of_advance (mem_of_get? found) now fails)

end ForgeNode.Prompts
