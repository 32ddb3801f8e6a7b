import ForgeNode.Prompts.Calls

/-! Idle periods: a pointer line or a submission ends the one that it is typed in. -/

namespace ForgeNode.Prompts

open List
open Orchestration (Timestamp)

variable {host : Host} {call : Call}

/-- What is typed in an idle period is typed once, and an idle session was typed nothing. -/
structure Paced (host : Host) : Prop where
  hooked : host.session.activity.state = .idle → host.session.activity.evidence = some .hook
  untyped : host.session.activity.state = .idle → host.typedThisIdle = false
  lines : host.lines.Nodup
  submissions : host.submissions.Nodup
  linesPast : ∀ period ∈ host.lines, period ≤ host.period
  submissionsPast : ∀ period ∈ host.submissions, period ≤ host.period
  fresh : host.session.activity.state = .idle → host.period ∉ host.lines ∧
    host.period ∉ host.submissions

theorem Paced.idle (paced : Paced host) :
    host.session.idle = true ↔ host.session.activity.state = .idle := by
  simp only [Session.idle, Bool.and_eq_true, decide_eq_true_eq]
  exact ⟨And.left, fun idle => ⟨idle, paced.hooked idle⟩⟩

theorem applyActivity_input (current : AgentActivity) (now : Timestamp) :
    (applyActivity current .input now).state ≠ .idle := by
  unfold applyActivity ActivityTrigger.next
  by_cases stopped : current.state = .idle ∨ current.state = .waiting
  · simp only [if_pos stopped]
    split
    · rename_i same
      rw [← same]
      exact fun working => by cases working
    · exact fun working => by cases working
  · simp only [if_neg stopped]
    exact fun idle => stopped (.inl idle)

theorem applyActivity_hook {current : AgentActivity} {state : ActivityState} {now : Timestamp}
    (idle : (applyActivity current (.hook state) now).state = .idle) :
    current.state = .idle ∧ applyActivity current (.hook state) now = current ∨
      current.state ≠ .idle ∧ (applyActivity current (.hook state) now).evidence = some .hook := by
  unfold applyActivity at idle ⊢
  split at idle
  · exact .inl ⟨idle, rfl⟩
  · rename_i next asked
    split at idle
    · rename_i same
      exact .inl ⟨idle, if_pos same⟩
    · rename_i differ
      rw [if_neg differ]
      exact .inr ⟨fun already => differ (by rw [already]; exact idle), rfl⟩

theorem Paced.busy (busy : host.session.activity.state ≠ .idle) (lines : host.lines.Nodup)
    (submissions : host.submissions.Nodup) (past : ∀ period ∈ host.lines, period ≤ host.period)
    (past' : ∀ period ∈ host.submissions, period ≤ host.period) : Paced host :=
  ⟨fun idle => absurd idle busy, fun idle => absurd idle busy, lines, submissions, past, past',
    fun idle => absurd idle busy⟩

theorem Paced.queue (paced : Paced host) : Paced host.setQueued where
  hooked := paced.hooked
  untyped := by
    intro idle
    have before := paced.untyped idle
    show host.entry.typedThisIdle = false
    unfold Host.typedThisIdle at before
    unfold Host.entry
    cases held : host.slot with
    | none => rfl
    | some slot =>
      rw [held] at before
      exact before
  lines := paced.lines
  submissions := paced.submissions
  linesPast := paced.linesPast
  submissionsPast := paced.submissionsPast
  fresh := paced.fresh

theorem Paced.setSessionState (paced : Paced host) (next : Orchestration.SessionState)
    (terminal : Option TerminalId) (now : Timestamp) :
    Paced (host.setSessionState next terminal now) := by
  unfold Host.setSessionState
  split
  · exact paced
  · by_cases started : (next = .starting && host.session.kind = .agent) = true
    · simp only [started, if_true]
      have busy : (AgentActivity.starting now).state ≠ .idle := fun idle => by cases idle
      split
      · exact .busy busy paced.lines paced.submissions paced.linesPast paced.submissionsPast
      · exact .busy busy paced.lines paced.submissions paced.linesPast paced.submissionsPast
    · simp only [Bool.not_eq_true] at started
      simp only [started]
      split
      · exact ⟨paced.hooked, paced.untyped, paced.lines, paced.submissions, paced.linesPast,
          paced.submissionsPast, paced.fresh⟩
      · exact ⟨paced.hooked, paced.untyped, paced.lines, paced.submissions, paced.linesPast,
          paced.submissionsPast, paced.fresh⟩

theorem Paced.calls (paced : Paced host) (calls : Store Call.id) : Paced { host with calls } :=
  ⟨paced.hooked, paced.untyped, paced.lines, paced.submissions, paced.linesPast,
  paced.submissionsPast,
    paced.fresh⟩

theorem Paced.flushed (paced : Paced host) : Paced (host.flushed call) := by
  unfold Host.flushed
  split
  · exact paced.calls _
  · exact paced.calls _

theorem Paced.reply {delivery : Delivery} {result : Except Orchestration.ProtocolError Answer}
    (paced : Paced host) : Paced (host.reply call delivery result) := by
  have flushed : Paced (host.flushed call) := paced.flushed
  rw [Host.reply_eq]
  exact ⟨flushed.hooked, flushed.untyped, flushed.lines, flushed.submissions, flushed.linesPast,
    flushed.submissionsPast, flushed.fresh⟩

theorem Paced.reportActivity (paced : Paced host) (state : ActivityState) (now : Timestamp) :
    Paced (host.reportActivity call state now) := by
  unfold Host.reportActivity
  generalize moved : applyActivity host.session.activity (.hook state) now = next
  simp only [Bool.and_eq_true, Bool.or_eq_true, decide_eq_true_eq]
  split
  · rename_i became
    have passed : ∀ period ∈ host.lines ++ host.submissions, period < host.period + 1 := by
      intro period member
      rcases mem_append.mp member with line | submission
      · exact Nat.lt_succ_of_le (paced.linesPast period line)
      · exact Nat.lt_succ_of_le (paced.submissionsPast period submission)
    refine ⟨fun idle => ?_, fun _ => ?_, paced.lines, paced.submissions, ?_, ?_, fun _ => ⟨?_, ?_⟩⟩
    · have idle : (applyActivity host.session.activity (.hook state) now).state = .idle := idle
      rcases applyActivity_hook idle with ⟨already, _⟩ | ⟨_, evidence⟩
      · exact absurd already became.2
      · exact evidence
    · show Option.any _ (if _ then _ else _) = false
      rw [if_pos (.inr became)]
      rfl
    · exact fun period line => Nat.le_of_lt (passed period (mem_append_left _ line))
    · exact fun period line => Nat.le_of_lt (passed period (mem_append_right _ line))
    · exact fun line => Nat.lt_irrefl _ (passed _ (mem_append_left _ line))
    · exact fun line => Nat.lt_irrefl _ (passed _ (mem_append_right _ line))
  · rename_i stays
    have same : next.state = .idle → host.session.activity.state = .idle ∧
        next = host.session.activity := by
      intro idle
      rw [← moved] at idle ⊢
      rcases applyActivity_hook idle with already | ⟨other, _⟩
      · exact already
      · exact absurd ⟨moved ▸ idle, other⟩ stays
    refine (Paced.calls ?_ _ : Paced (Host.finish _ call))
    refine ⟨fun idle => ?_, fun idle => ?_, paced.lines, paced.submissions, paced.linesPast,
      paced.submissionsPast, fun idle => ?_⟩
    · obtain ⟨already, same⟩ := same (moved ▸ idle)
      show (applyActivity host.session.activity (.hook state) now).evidence = _
      rw [moved, same]
      exact paced.hooked already
    · obtain ⟨already, same⟩ := same (moved ▸ idle)
      show Option.any _ (if _ then _ else _) = false
      split
      · rfl
      · exact paced.untyped already
    · exact paced.fresh (same (moved ▸ idle)).1

theorem Paced.typePointer (paced : Paced host) (terminal : TerminalId) (now : Timestamp) :
    Paced (host.typePointer call terminal now) := by
  unfold Host.typePointer
  split
  · exact paced.calls _
  split
  · exact paced.calls _
  split
  · exact paced.queue.calls _
  rename_i idle
  split
  · exact paced.calls _
  · have fresh := (paced.fresh (Decidable.not_not.mp idle)).1
    refine .busy (applyActivity_input host.session.activity now)
      (nodup_cons.mpr ⟨fresh, paced.lines⟩) paced.submissions ?_ paced.submissionsPast
    intro period member
    rcases mem_cons.mp member with rfl | old
    · exact Nat.le_refl _
    · exact paced.linesPast period old

theorem Paced.noteUserInput (paced : Paced host) (now : Timestamp) :
    Paced (host.noteUserInput now) := by
  unfold Host.noteUserInput
  simp only
  split
  · exact paced
  · exact .busy (applyActivity_input host.session.activity now) paced.lines paced.submissions
      paced.linesPast paced.submissionsPast

theorem Paced.take (paced : Paced host) (delivery : Delivery) (now : Timestamp) :
    Paced (host.take delivery now) := by
  unfold Host.take
  simp only
  have busy := applyActivity_input host.session.activity now
  split
  · rename_i idle
    have fresh := (paced.fresh (paced.idle.mp idle)).2
    split
    · refine .busy busy paced.lines (nodup_cons.mpr ⟨fresh, paced.submissions⟩) paced.linesPast ?_
      intro period member
      rcases mem_cons.mp member with rfl | old
      · exact Nat.le_refl _
      · exact paced.submissionsPast period old
    · exact .busy busy paced.lines paced.submissions paced.linesPast paced.submissionsPast
  · exact ⟨paced.hooked, paced.untyped, paced.lines, paced.submissions, paced.linesPast,
      paced.submissionsPast, paced.fresh⟩

theorem Paced.deliver (paced : Paced host) (delivery : Delivery) (now : Timestamp) (fails : Bool)
    (stage : Stage) : Paced (host.deliver call delivery now fails stage) := by
  have outcome := @Host.deliver_cases host call delivery now fails stage
  generalize host.deliver call delivery now fails stage = after at outcome ⊢
  cases outcome with
  | ended _ _ => exact paced.reply
  | moved _ gate gates _ _ _ =>
    exact ⟨paced.hooked, paced.untyped, paced.lines, paced.submissions, paced.linesPast,
      paced.submissionsPast, paced.fresh⟩
  | slotted _ _ _ _ =>
    refine Paced.reply ⟨paced.hooked, paced.untyped, paced.lines, paced.submissions, paced.linesPast,
      paced.submissionsPast, paced.fresh⟩
  | taken _ _ _ => exact (paced.take delivery now).calls _
  | pasted _ _ _ _ =>
    refine Paced.reply ⟨paced.hooked, paced.untyped, paced.lines, paced.submissions, paced.linesPast,
      paced.submissionsPast, paced.fresh⟩
  | returned _ _ =>
    exact ⟨paced.hooked, paced.untyped, paced.lines, paced.submissions, paced.linesPast,
      paced.submissionsPast, paced.fresh⟩

theorem Paced.advance (paced : Paced host) (now : Timestamp) (fails : Bool) :
    Paced (host.advance call now fails) := by
  unfold Host.advance
  split
  · split
    all_goals exact paced.calls _
  · exact paced.queue.calls _
  · split
    all_goals exact paced.calls _
  · split
    all_goals exact paced.calls _
  · exact paced.calls _
  · exact paced.typePointer _ now
  · exact paced.calls _
  · exact paced.calls _
  · exact paced.calls _
  · exact paced.reportActivity _ now
  · split
    · split
      · exact paced.calls _
      · exact paced.flushed
    · exact paced.flushed
  · split
    · exact ⟨paced.hooked, paced.untyped, paced.lines, paced.submissions, paced.linesPast,
        paced.submissionsPast, paced.fresh⟩
    · exact paced.calls _
  · exact paced.deliver _ now fails _
  · exact paced.calls _
  · split
    all_goals exact paced.calls _
  · exact (paced.noteUserInput now).calls _
  · exact paced.calls _
  · exact (paced.setSessionState _ _ now).calls _

theorem Paced.start (paced : Paced host) (phase : Phase) : Paced (host.start phase) :=
  ⟨paced.hooked, paced.untyped, paced.lines, paced.submissions, paced.linesPast,
  paced.submissionsPast,
    paced.fresh⟩

theorem Paced.terminals (paced : Paced host) (terminals : List TerminalId) (spawned : Nat)
    (watched : Bool) : Paced { host with terminals, spawned, watched } :=
  ⟨paced.hooked, paced.untyped, paced.lines, paced.submissions, paced.linesPast,
  paced.submissionsPast,
    paced.fresh⟩

theorem Paced.step (paced : Paced host) (turn : Host.Turn) : Paced (host.step turn) := by
  cases turn with
  | consider | point | report | flush | send => exact paced.start _
  | input terminal =>
    simp only [Host.step]
    split
    · exact paced.start _
    · exact paced
  | eof terminal =>
    simp only [Host.step]
    split
    · exact (paced.terminals _ host.spawned host.watched).start _
    · exact paced
  | spawn now =>
    simp only [Host.step]
    split
    · exact (paced.terminals _ _ host.watched).setSessionState _ _ now
    · exact paced.terminals host.terminals _ host.watched
  | restart now | fail now => exact paced.setSessionState _ _ now
  | watch watched => exact paced.terminals host.terminals host.spawned watched
  | advance id now fails =>
    simp only [Host.step]
    split
    · exact paced
    · exact paced.advance now fails

theorem Paced.initial (kind : SessionKind) (state : Orchestration.SessionState) (now : Timestamp) :
    Paced (Host.initial kind state now) := by
  have quiet : (Host.initial kind state now).session.activity.state ≠ .idle := by
    show (if _ then AgentActivity.starting now else AgentActivity.unknown).state ≠ .idle
    split
    · exact fun idle => by cases idle
    · exact fun idle => by cases idle
  exact .busy quiet nodup_nil nodup_nil (fun _ member => absurd member not_mem_nil)
    (fun _ member => absurd member not_mem_nil)

theorem Paced.of_run {kind : SessionKind} {state : Orchestration.SessionState} {now : Timestamp}
    {steps : List (Taken Host Host.Turn)} {last : Host}
    (run : ForgeNode.Run Host.Step (Host.initial kind state now) steps last) :
    ∀ host ∈ ForgeNode.Run.states (Host.initial kind state now) steps, Paced host :=
  run.invariant_states Paced (fun {before turn after} step paced => by
    obtain ⟨_, rfl⟩ := step
    exact paced.step turn) (.initial kind state now)

end ForgeNode.Prompts
