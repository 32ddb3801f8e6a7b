import ForgeNode.Prompts.Periods

/-! Pointer lines: one for each idle period, and what keeps a queued one from being typed. -/

namespace ForgeNode.Prompts

open Store

open Orchestration (Timestamp)

variable {host : Host} {call : Call}

namespace Host

/-- A queued pointer that could be typed now. -/
def stuck (host : Host) : Bool :=
  host.session.activity.state = .idle && !host.watched && !host.typedThisIdle && host.queued

end Host

/-- A delivery of the pointer that has not yet decided, or a report that will make one. -/
def Call.points (call : Call) : Bool :=
  match call.phase with
  | .pointing | .fetching | .pointed _ | .typing _ => true
  | .flushing | .delivering _ _ => call.pointer
  | _ => false

namespace Host

/-- Another call is about to deliver the pointer. -/
def awaited (host : Host) (apart : CallId) : Bool :=
  host.calls.rows.any fun call => call.id != apart && call.points

/-- The turn leaves a pointer queued in an idle session, and no one to type it: the flag is set
after the session became idle, a watch ends after it hid the pointer, or a delivery finds that
the terminal is gone. -/
def stalls (host : Host) : Turn → Bool
  | .watch watched => !watched && host.session.activity.state = .idle && !host.typedThisIdle &&
      host.queued && !host.calls.rows.any Call.points
  | .advance id _ _ => (host.calls.get? id).any fun call => !host.awaited id && match call.phase with
    | .queueing => host.session.activity.state = .idle && !host.watched && !host.typedThisIdle
    | .fetching => host.stuck && (host.session.terminalId.filter (· ∈ host.terminals)).isNone
    | .typing terminal => host.stuck && host.session.terminalId ≠ some terminal
    | _ => false
  | _ => false

end Host

/-- A queued pointer that could be typed has a delivery under way. -/
def Heard (host : Host) : Prop := host.stuck = true → ∃ call ∈ host.calls, call.points = true

theorem Heard.of_busy (busy : host.session.activity.state ≠ .idle) : Heard host := by
  intro stuck
  simp only [Host.stuck, Bool.and_eq_true, decide_eq_true_eq] at stuck
  exact absurd stuck.1.1.1 busy

theorem Heard.go (heard : Heard host) (member : call ∈ host.calls) {phase : Phase}
    (kept : call.points = true → ({ call with phase } : Call).points = true) :
    Heard (host.go call phase) := by
  intro stuck
  obtain ⟨row, there, points⟩ := heard stuck
  by_cases same : row.id = call.id
  · rw [eq_of_key there member same] at points
    exact ⟨_, (Host.mem_go member).mpr (.inl rfl), kept points⟩
  · exact ⟨row, (Host.mem_go member).mpr (.inr ⟨there, same⟩), points⟩

theorem Heard.finish (heard : Heard host) (member : call ∈ host.calls)
    (kept : host.stuck = true → call.points = true → host.awaited call.id = true) :
    Heard (host.finish call) := by
  intro stuck
  obtain ⟨row, there, points⟩ := heard stuck
  by_cases same : row.id = call.id
  · rw [eq_of_key there member same] at points
    obtain ⟨other, there, awaited⟩ := List.any_eq_true.mp (kept stuck points)
    rw [Bool.and_eq_true, bne_iff_ne] at awaited
    exact ⟨other, Host.mem_finish.mpr ⟨there, awaited.1⟩, awaited.2⟩
  · exact ⟨row, Host.mem_finish.mpr ⟨there, same⟩, points⟩

theorem Heard.silent (heard : Heard host) (member : call ∈ host.calls)
    (silent : call.points = false) : Heard (host.finish call) :=
  heard.finish member fun _ points => absurd points (by rw [silent]; exact Bool.false_ne_true)

theorem Heard.flushed (heard : Heard host) (member : call ∈ host.calls)
    (kept : call.points = true → call.pointer = true) : Heard (host.flushed call) := by
  intro stuck
  have before : host.stuck = true := by
    unfold Host.flushed at stuck
    split at stuck <;> exact stuck
  obtain ⟨row, there, points⟩ := heard before
  by_cases same : row.id = call.id
  · rw [eq_of_key there member same] at points
    exact ⟨_, (Host.mem_flushed member).mpr (.inl ⟨kept points, rfl⟩), rfl⟩
  · exact ⟨row, (Host.mem_flushed member).mpr (.inr ⟨there, same⟩), points⟩

theorem Heard.start (heard : Heard host) (fresh : ∀ row ∈ host.calls, row.id < host.arrivals)
    (phase : Phase) : Heard (host.start phase) := by
  intro stuck
  obtain ⟨row, there, points⟩ := heard stuck
  exact ⟨row, Host.mem_start.mpr (.inr ⟨there, Nat.ne_of_lt (fresh row there)⟩), points⟩

theorem Heard.setSessionState (heard : Heard host) (next : Orchestration.SessionState)
    (terminal : Option TerminalId) (now : Timestamp) :
    Heard (host.setSessionState next terminal now) := by
  unfold Host.setSessionState
  split
  · exact heard
  · by_cases started : (next = .starting && host.session.kind = .agent) = true
    · simp only [started, if_true]
      have busy : (AgentActivity.starting now).state ≠ .idle := fun idle => by cases idle
      split
      · exact .of_busy busy
      · exact .of_busy busy
    · simp only [Bool.not_eq_true] at started
      simp only [started]
      split
      · exact heard
      · exact heard

theorem Heard.reportActivity (heard : Heard host) (member : call ∈ host.calls)
    (silent : call.points = false) (state : ActivityState) (now : Timestamp) :
    Heard (host.reportActivity call state now) := by
  unfold Host.reportActivity
  obtain ⟨next, moved⟩ : ∃ next, applyActivity host.session.activity (.hook state) now = next :=
    ⟨_, rfl⟩
  simp only [moved, Bool.and_eq_true, Bool.or_eq_true, decide_eq_true_eq]
  split
  · rename_i became
    intro stuck
    simp only [Host.stuck, Bool.and_eq_true] at stuck
    exact ⟨_, Host.mem_modified member (by intro _; rfl), stuck.2⟩
  · rename_i stays
    refine Heard.silent ?_ ?_ silent
    rotate_left
    · exact member
    by_cases idle : next.state = .idle
    · have already : host.session.activity.state = .idle := by
        by_cases other : host.session.activity.state = .idle
        · exact other
        · exact absurd ⟨idle, other⟩ stays
      have same : next = host.session.activity := by
        rw [← moved] at idle ⊢
        rcases applyActivity_hook idle with kept | ⟨other, _⟩
        · exact kept.2
        · exact absurd already other
      have quiet : ¬ ((next.state = .working ∧ host.session.activity.state ≠ .working) ∨
          next.state = .idle ∧ host.session.activity.state ≠ .idle) := by
        rw [idle, already]
        rintro (⟨working, _⟩ | ⟨_, other⟩)
        · cases working
        · exact other rfl
      rw [if_neg quiet]
      have unchanged : (host.trigger (.hook state) now).session = host.session := by
        unfold Host.trigger
        rw [moved, same]
      simp only [unchanged]
      exact heard
    · exact .of_busy (moved ▸ idle)

theorem Heard.typePointer (heard : Heard host) (member : call ∈ host.calls) (terminal : TerminalId)
    (now : Timestamp) (kept : host.session.terminalId ≠ some terminal → host.stuck = true →
      host.awaited call.id = true) : Heard (host.typePointer call terminal now) := by
  unfold Host.typePointer
  split
  · rename_i watched
    refine heard.finish member fun stuck => ?_
    simp only [Host.stuck, watched, Bool.not_true, Bool.and_false, Bool.false_and] at stuck
    cases stuck
  split
  · rename_i moved
    exact heard.finish member fun stuck _ => kept moved stuck
  split
  · rename_i busy
    exact .of_busy busy
  split
  · rename_i typed
    refine heard.finish member fun stuck => ?_
    simp only [Host.stuck, typed, Bool.not_true, Bool.and_false, Bool.false_and] at stuck
    cases stuck
  · exact .of_busy (applyActivity_input host.session.activity now)

theorem Heard.noteUserInput (heard : Heard host) (now : Timestamp) :
    Heard (host.noteUserInput now) := by
  unfold Host.noteUserInput
  simp only
  split
  · exact heard
  · exact .of_busy (applyActivity_input host.session.activity now)

theorem Heard.take (heard : Heard host) (delivery : Delivery) (now : Timestamp) :
    Heard (host.take delivery now) := by
  unfold Host.take
  simp only
  split
  · exact .of_busy (applyActivity_input host.session.activity now)
  · exact heard

theorem Heard.reply (heard : Heard host) (member : call ∈ host.calls) {delivery : Delivery}
    {result : Except Orchestration.ProtocolError Answer}
    (kept : call.points = true → call.pointer = true) :
    Heard (host.reply call delivery result) := by
  have flushed := heard.flushed member kept
  rw [Host.reply_eq]
  exact flushed

theorem Heard.deliver (heard : Heard host) (member : call ∈ host.calls) {delivery : Delivery}
    {stage : Stage} (phase : call.phase = .delivering delivery stage) (now : Timestamp)
    (fails : Bool) : Heard (host.deliver call delivery now fails stage) := by
  have marked : call.points = true → call.pointer = true := by
    unfold Call.points
    rw [phase]
    exact id
  have outcome := @Host.deliver_cases host call delivery now fails stage
  generalize host.deliver call delivery now fails stage = after at outcome ⊢
  cases outcome with
  | ended _ _ => exact heard.reply member marked
  | moved _ gate gates _ _ _ => exact heard.go member marked
  | slotted _ _ _ _ =>
    refine Heard.reply ?_ ?_ marked
    · exact heard
    · exact member
  | taken _ _ _ =>
    refine (heard.take delivery now).go ?_ marked
    show call ∈ (host.take delivery now).calls
    rw [Host.take_calls]
    exact member
  | pasted _ _ _ _ =>
    refine Heard.reply ?_ ?_ marked
    · exact heard
    · exact member
  | returned _ _ =>
    refine Heard.go ?_ ?_ marked
    · exact heard
    · exact member

/-- The next section of a call leaves a queued pointer to someone, unless it stalls. -/
theorem Heard.advance (heard : Heard host) (member : call ∈ host.calls) (now : Timestamp)
    (fails : Bool) (moves : host.stalls (.advance call.id now fails) = false) :
    Heard (host.advance call now fails) := by
  simp only [Host.stalls, get?_of_mem member, Option.any_some, Bool.and_eq_false_iff,
    Bool.not_eq_false'] at moves
  have silent {phase : Phase} (named : call.phase = phase)
      (silent : ({ call with phase } : Call).points = false) : call.points = false := by
    subst named
    exact silent
  unfold Host.advance
  split
  · rename_i phase
    have quiet := silent phase rfl
    split
    · exact heard.go member fun _ => rfl
    · exact heard.go member fun points => absurd points (by rw [quiet]; exact Bool.false_ne_true)
    · exact heard.silent member quiet
  · rename_i phase
    have quiet := silent phase rfl
    rw [phase] at moves
    intro stuck
    have before : host.session.activity.state = .idle ∧ host.watched = false ∧
        host.typedThisIdle = false := by
      simp only [Host.stuck, Bool.and_eq_true, decide_eq_true_eq, Bool.not_eq_true'] at stuck
      refine ⟨stuck.1.1.1, stuck.1.1.2, ?_⟩
      have untyped : host.entry.typedThisIdle = false := stuck.1.2
      unfold Host.entry at untyped
      unfold Host.typedThisIdle
      cases held : host.slot with
      | none => rfl
      | some slot => rwa [held] at untyped
    rcases moves with awaited | moves
    · obtain ⟨other, there, awaited⟩ := List.any_eq_true.mp awaited
      rw [Bool.and_eq_true, bne_iff_ne] at awaited
      exact ⟨other, Host.mem_finish.mpr ⟨there, awaited.1⟩, awaited.2⟩
    · simp [before] at moves
  · split
    · rename_i watched
      refine heard.finish member fun stuck => ?_
      simp only [Host.stuck, watched, Bool.not_true, Bool.and_false, Bool.false_and] at stuck
      cases stuck
    · exact heard.go member fun _ => rfl
  · rename_i phase
    rw [phase] at moves
    split
    · exact heard.go member fun _ => rfl
    · rename_i gone
      refine heard.finish member fun stuck _ => ?_
      rcases moves with awaited | moves
      · exact awaited
      · rw [stuck, gone] at moves
        cases moves
  · exact heard.go member fun _ => rfl
  · rename_i terminal phase
    rw [phase] at moves
    refine heard.typePointer member terminal now fun differ stuck => ?_
    rcases moves with awaited | moves
    · exact awaited
    · rw [stuck] at moves
      simp [differ] at moves
  · rename_i phase
    exact heard.silent member (silent phase rfl)
  · rename_i phase
    have quiet := silent phase rfl
    exact heard.go member fun points => absurd points (by rw [quiet]; exact Bool.false_ne_true)
  · rename_i phase
    have quiet := silent phase rfl
    exact heard.go member fun points => absurd points (by rw [quiet]; exact Bool.false_ne_true)
  · rename_i phase
    exact heard.reportActivity member (silent phase rfl) _ now
  · rename_i phase
    have marked : call.points = true → call.pointer = true := by
      unfold Call.points
      rw [phase]
      exact id
    split
    · split
      · exact heard.go member marked
      · exact heard.flushed member marked
    · exact heard.flushed member marked
  · rename_i phase
    have quiet := silent phase rfl
    split
    · exact heard.silent member quiet
    · exact heard.go member fun points => absurd points (by rw [quiet]; exact Bool.false_ne_true)
  · rename_i phase
    exact heard.deliver member phase now fails
  · rename_i phase
    have quiet := silent phase rfl
    exact heard.go member fun points => absurd points (by rw [quiet]; exact Bool.false_ne_true)
  · rename_i phase
    have quiet := silent phase rfl
    split
    all_goals exact heard.go member fun points => absurd points (by rw [quiet]; exact Bool.false_ne_true)
  · rename_i phase
    have quiet := silent phase rfl
    refine (heard.noteUserInput now).go ?_
      fun points => absurd points (by rw [quiet]; exact Bool.false_ne_true)
    show call ∈ (host.noteUserInput now).calls
    rw [(host.noteUserInput_calls now).1]
    exact member
  · rename_i phase
    exact heard.silent member (silent phase rfl)
  · rename_i phase
    refine (heard.setSessionState _ _ now).silent ?_ (silent phase rfl)
    show call ∈ (host.setSessionState _ _ now).calls
    rw [(host.setSessionState_calls _ _ now).1]
    exact member

theorem Heard.step (heard : Heard host) (numbered : Numbered host) (turn : Host.Turn)
    (moves : host.stalls turn = false) : Heard (host.step turn) := by
  cases turn with
  | consider | point | report | flush | send => exact heard.start numbered _
  | input terminal =>
    simp only [Host.step]
    split
    · exact heard.start numbered _
    · exact heard
  | eof terminal =>
    simp only [Host.step]
    split
    · refine Heard.start ?_ ?_ _
      · exact heard
      · exact numbered
    · exact heard
  | spawn now =>
    simp only [Host.step]
    split
    · refine Heard.setSessionState ?_ _ _ now
      exact heard
    · exact heard
  | restart now | fail now => exact heard.setSessionState _ _ now
  | watch watched =>
    intro stuck
    simp only [Host.step, Host.stuck, Bool.and_eq_true, Bool.not_eq_true'] at stuck
    obtain ⟨⟨⟨idle, unwatched⟩, untyped⟩, queued⟩ := stuck
    have untyped : host.typedThisIdle = false := untyped
    have queued : host.queued = true := queued
    have idle : decide (host.session.activity.state = .idle) = true := idle
    simp only [Host.stalls, unwatched, idle, untyped, queued, Bool.not_false, Bool.and_true,
      Bool.true_and, Bool.not_eq_false'] at moves
    exact List.any_eq_true.mp moves
  | advance id now fails =>
    simp only [Host.step]
    split
    · exact heard
    · rename_i call found
      have member := mem_of_get? found
      rw [← key_of_get? found] at moves
      exact heard.advance member now fails moves

section Runs

variable {kind : SessionKind} {state : Orchestration.SessionState} {now : Timestamp}
  {steps : List (Taken Host Host.Turn)} {last : Host}

/-- One pointer line at most was typed in each idle period. -/
def OneLinePerPeriod (host : Host) : Prop := ∀ period, host.lines.count period ≤ 1

/-- Where no call is under way, no pointer stays queued that could be typed. -/
def NoneForgotten (host : Host) : Prop := host.calls.rows = [] → host.stuck = false

/-- Lines are typed once in each idle period; where no turn stalls, no queued pointer is
forgotten. -/
theorem pointer_lines
    (run : ForgeNode.Run Host.Step (Host.initial kind state now) steps last) :
    (∀ host ∈ ForgeNode.Run.states (Host.initial kind state now) steps, OneLinePerPeriod host) ∧
      ((∀ taken ∈ steps, taken.before.stalls taken.event = false) →
        ∀ host ∈ ForgeNode.Run.states (Host.initial kind state now) steps, NoneForgotten host) := by
  refine ⟨fun host member => List.nodup_iff_count_le_one.mp (Paced.of_run run host member).lines, ?_⟩
  intro moves host member none
  have start : Heard (Host.initial kind state now) ∧ Numbered (Host.initial kind state now) :=
    ⟨fun stuck => by simp [Host.stuck, Host.queued, Host.initial] at stuck, .initial⟩
  have kept := run.guarded_states (fun host => Heard host ∧ Numbered host)
    (fun taken => taken.before.stalls taken.event = false)
    (fun {before turn after} step held moves => by
      obtain ⟨_, rfl⟩ := step
      exact ⟨held.1.step held.2 turn moves, held.2.step turn⟩) start moves
  have heard : Heard host := (kept host member).1
  cases stuck : host.stuck with
  | false => rfl
  | true =>
    obtain ⟨call, there, _⟩ := heard stuck
    have there : call ∈ host.calls.rows := there
    rw [none] at there
    cases there

/-- Idle is reported between the decision to queue and the flag. -/
def idleBeforeFlag : List Host.Turn :=
  let advance (id : CallId) : Host.Turn := .advance id 0 false
  [.spawn 0, .report .working, advance 0, advance 0, advance 0, .consider, advance 1, .report .idle,
    advance 2, advance 2, advance 2, advance 2, advance 1]

theorem pointer_lines_idleBeforeFlag :
    ¬ ∀ (kind : SessionKind) (state : Orchestration.SessionState) (now : Timestamp)
      (steps : List (Taken Host Host.Turn)) (last : Host),
      ForgeNode.Run Host.Step (Host.initial kind state now) steps last →
        ∀ host ∈ ForgeNode.Run.states (Host.initial kind state now) steps,
          OneLinePerPeriod host ∧ NoneForgotten host := by
  intro claimed
  have run : ForgeNode.Run Host.Step (Host.initial .agent .starting 0)
      (ForgeNode.Run.trace Host.step (Host.initial .agent .starting 0) idleBeforeFlag)
      (ForgeNode.Run.replay Host.step (Host.initial .agent .starting 0) idleBeforeFlag) :=
    @ForgeNode.Run.of_admits _ _ _ _ Host.step Host.allows _ (fun allowed => ⟨allowed, rfl⟩)
      (by decide +kernel)
  have kept := claimed _ _ _ _ _ run _ run.last_mem_states
  exact absurd (kept.2 (by decide +kernel)) (by decide +kernel)

/-- A session that is told it is idle and gets its line. -/
def lineTyped : List Host.Turn :=
  let advance (id : CallId) : Host.Turn := .advance id 0 false
  [.spawn 0, .report .idle, advance 0, advance 0, advance 0, advance 0, .consider, advance 1,
    advance 1, advance 1, advance 1, advance 1, advance 1]

theorem pointer_lines_lineTyped :
    (∀ host ∈ ForgeNode.Run.states (Host.initial .agent .starting 0)
        (ForgeNode.Run.trace Host.step (Host.initial .agent .starting 0) lineTyped),
      OneLinePerPeriod host) ∧
    ∀ host ∈ ForgeNode.Run.states (Host.initial .agent .starting 0)
        (ForgeNode.Run.trace Host.step (Host.initial .agent .starting 0) lineTyped),
      NoneForgotten host := by
  have kept := pointer_lines (@ForgeNode.Run.of_admits _ _ _ (Host.initial .agent .starting 0)
    Host.step Host.allows lineTyped (fun allowed => ⟨allowed, rfl⟩) (by decide +kernel))
  exact ⟨kept.1, kept.2 (by decide +kernel)⟩

end Runs

end ForgeNode.Prompts
