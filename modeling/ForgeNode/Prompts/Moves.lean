import ForgeNode.Prompts.Periods

/-! What a section of a call does to the session, its prompt slot and what was pasted. -/

namespace ForgeNode.Prompts

open Orchestration (Timestamp)

variable {host : Host} {call : Call}

/-- A phase of no prompt's and of no end of the process. -/
def Phase.plain : Phase → Bool
  | .sending _ _ _ | .flushing | .delivering _ _ | .exiting => false
  | _ => true

/-- The session has its terminal and its process still, and is idle only if it was. -/
structure Stays (before after : Host) : Prop where
  kind : after.session.kind = before.session.kind
  state : after.session.state = before.session.state
  terminalId : after.session.terminalId = before.session.terminalId
  idle : after.session.idle = true → before.session.idle = true
  terminals : after.terminals = before.terminals

namespace Stays

theorem refl : Stays host host := ⟨rfl, rfl, rfl, id, rfl⟩

theorem of_eq {after : Host} (session : after.session = host.session)
    (terminals : after.terminals = host.terminals) : Stays host after := by
  exact ⟨by rw [session], by rw [session], by rw [session], fun idle => session ▸ idle, terminals⟩

theorem input (now : Timestamp) : Stays host (host.trigger .input now) := by
  refine ⟨rfl, rfl, rfl, fun idle => ?_, rfl⟩
  simp only [Session.idle, Bool.and_eq_true, decide_eq_true_eq] at idle
  exact absurd idle.1 (applyActivity_input host.session.activity now)

end Stays

/-- What a section of a call can do. -/
inductive Moved (host : Host) (call : Call) (now : Timestamp) : Host → Prop where
  /-- Nothing to any prompt. -/
  | passed {after : Host} (moves : OnlyMoves call host after) (stays : Stays host after)
      (pending : after.pendingPrompt = host.pendingPrompt) (pastes : after.pastes = host.pastes)
      (plain : ∀ row ∈ after.calls, row.id = call.id → row.phase.plain = true)
      (flushing : call.phase = .flushing → host.session.idle = true → host.pendingPrompt = none)
      (delivering : ∀ delivery stage, call.phase ≠ .delivering delivery stage)
      (exiting : call.phase ≠ .exiting) : Moved host call now after
  /-- The session became idle, and its prompt is looked at next. -/
  | idled {after : Host} (moves : OnlyMoves call host after)
      (kind : after.session.kind = host.session.kind) (state : after.session.state =
        host.session.state)
      (terminalId : after.session.terminalId = host.session.terminalId)
      (terminals : after.terminals = host.terminals)
      (pending : after.pendingPrompt = host.pendingPrompt) (pastes : after.pastes = host.pastes)
      (flushing : ∃ row ∈ after.calls, row.id = call.id ∧ row.phase = .flushing)
      (applying : ∃ state writer, call.phase = .applying state writer) : Moved host call now after
  | sent (text : String) (submit : Bool) (time : DeliveryTime) (terminal : TerminalId)
      (sending : call.phase = .sending text submit time) : Moved host call now
        (host.go call (.delivering ⟨⟨text, submit, terminal, call.id⟩, time, .request⟩ .checking))
  | flushed (prompt : PendingPrompt) (flushing : call.phase = .flushing)
      (pending : host.pendingPrompt = some prompt) : Moved host call now
        (host.go call (.delivering ⟨prompt, .queue, .queue⟩ .checking))
  | delivered {after : Host} (delivery : Delivery) (stage : Stage)
      (delivering : call.phase = .delivering delivery stage)
      (outcome : Delivered host call delivery now stage after) : Moved host call now after
  | exited (exiting : call.phase = .exiting) : Moved host call now
      ((host.setSessionState .exited none now).finish call)

namespace Moved

theorem of_stays {now : Timestamp} {middle after : Host} (plain : call.phase.plain = true)
    (stays : Stays host middle) (calls : middle.calls = host.calls)
    (arrivals : middle.arrivals = host.arrivals)
    (pending : after.pendingPrompt = host.pendingPrompt) (pastes : after.pastes = host.pastes)
    (session : after.session = middle.session) (terminals : after.terminals = middle.terminals)
    (moves : OnlyMoves call middle after) (still : ∀ row ∈ after.calls, row.id = call.id →
      row.phase.plain = true) :
    Moved host call now after := by
  refine .passed (moves.of_eq calls arrivals) ?_ pending pastes still
    (fun flushing => by rw [flushing] at plain; cases plain)
    (fun _ _ delivering => by rw [delivering] at plain; cases plain)
    (fun exiting => by rw [exiting] at plain; cases plain)
  exact ⟨by rw [session, stays.kind], by rw [session, stays.state], by rw [session, stays.terminalId],
    fun idle => stays.idle (session ▸ idle), terminals.trans stays.terminals⟩

theorem none_left : ∀ row ∈ (host.finish call).calls, row.id = call.id → row.phase.plain = true :=
  fun _ there same => absurd same (Host.mem_finish.mp there).2

theorem only_next (member : call ∈ host.calls) {phase : Phase} (next : phase.plain = true) :
    ∀ row ∈ (host.go call phase).calls, row.id = call.id → row.phase.plain = true := by
  intro row there same
  rcases (Host.mem_go member).mp there with rfl | ⟨_, differ⟩
  · exact next
  · exact absurd same differ

theorem ended {now : Timestamp} (plain : call.phase.plain = true) :
    Moved host call now (host.finish call) :=
  .of_stays plain .refl rfl rfl rfl rfl rfl rfl .finish none_left

theorem gone {now : Timestamp} (member : call ∈ host.calls) (plain : call.phase.plain = true)
    {phase : Phase} (next : phase.plain = true) : Moved host call now (host.go call phase) :=
  .of_stays plain .refl rfl rfl rfl rfl rfl rfl (.go member _)
    (only_next member next)

theorem typePointer (member : call ∈ host.calls) (plain : call.phase.plain = true)
    (terminal : TerminalId) (now : Timestamp) :
    Moved host call now (host.typePointer call terminal now) := by
  unfold Host.typePointer
  split
  · exact .ended plain
  split
  · exact .ended plain
  split
  · exact .of_stays plain (.of_eq rfl rfl) rfl rfl rfl rfl rfl rfl (OnlyMoves.finish.of_eq rfl rfl)
      none_left
  split
  · exact .ended plain
  · have moves := OnlyMoves.go member (.typed terminal)
    exact .of_stays plain (.input now) rfl rfl rfl rfl rfl rfl
      ⟨moves.arrivals, moves.kept, moves.old, moves.one⟩
      (only_next member rfl)

theorem reportActivity (member : call ∈ host.calls) {state : ActivityState}
    {writer : Option TerminalId} (applying : call.phase = .applying state writer)
    (now : Timestamp) : Moved host call now (host.reportActivity call state now) := by
  have plain : call.phase.plain = true := by rw [applying]; rfl
  unfold Host.reportActivity
  obtain ⟨next, moved⟩ : ∃ next, applyActivity host.session.activity (.hook state) now = next :=
    ⟨_, rfl⟩
  simp only [moved, Bool.and_eq_true, Bool.or_eq_true, decide_eq_true_eq]
  split
  · exact .idled (.modified member (by intro _; rfl) rfl rfl) rfl rfl rfl rfl rfl rfl
      ⟨_, Host.mem_modified member (by intro _; rfl), rfl, rfl⟩ ⟨state, writer, applying⟩
  · rename_i stays
    refine @of_stays host call now (host.trigger (.hook state) now) _ plain ?_ rfl rfl rfl rfl rfl rfl
      (OnlyMoves.finish.of_eq rfl rfl) none_left
    refine ⟨rfl, rfl, rfl, fun idle => ?_, rfl⟩
    have now_idle : next.state = .idle ∧ next.evidence = some .hook := by
      have idle : (applyActivity host.session.activity (.hook state) now).state = .idle &&
        (applyActivity host.session.activity (.hook state) now).evidence = some .hook := idle
      rw [moved] at idle
      simpa only [Bool.and_eq_true, decide_eq_true_eq] using idle
    rcases applyActivity_hook (by rw [moved]; exact now_idle.1) with ⟨_, same⟩ | ⟨other, _⟩
    · rw [moved] at same
      simp only [Session.idle, Bool.and_eq_true, decide_eq_true_eq]
      exact same ▸ now_idle
    · exact absurd ⟨now_idle.1, other⟩ stays

theorem noteUserInput (member : call ∈ host.calls) (plain : call.phase.plain = true) {phase : Phase}
    (next : phase.plain = true) (now : Timestamp) :
    Moved host call now ((host.noteUserInput now).go call phase) := by
  obtain ⟨calls, arrivals⟩ := host.noteUserInput_calls now
  have there : call ∈ (host.noteUserInput now).calls := calls ▸ member
  have stays : Stays host (host.noteUserInput now) := by
    unfold Host.noteUserInput
    simp only
    split
    · exact .refl
    · have input : Stays host (host.trigger .input now) := .input now
      exact ⟨input.kind, input.state, input.terminalId, input.idle, input.terminals⟩
  have same : (host.noteUserInput now).pendingPrompt = host.pendingPrompt ∧
      (host.noteUserInput now).pastes = host.pastes := by
    unfold Host.noteUserInput
    simp only
    split <;> exact ⟨rfl, rfl⟩
  exact .of_stays plain stays calls arrivals same.1 same.2 rfl rfl (.go there _)
    (only_next there next)

/-- A call that looked at the prompt slot in vain ends, or goes on to the pointer. -/
theorem unflushed {now : Timestamp} (member : call ∈ host.calls) (flushing : call.phase = .flushing)
    (vain : host.session.idle = true → host.pendingPrompt = none) :
    Moved host call now (host.flushed call) := by
  have same : (host.flushed call).session = host.session ∧ (host.flushed call).terminals =
      host.terminals ∧ (host.flushed call).pendingPrompt = host.pendingPrompt ∧
      (host.flushed call).pastes = host.pastes := by
    unfold Host.flushed
    split <;> exact ⟨rfl, rfl, rfl, rfl⟩
  refine .passed (.flushed member) (.of_eq same.1 same.2.1) same.2.2.1 same.2.2.2 ?_ (fun _ => vain)
    (fun _ _ delivering => by rw [flushing] at delivering; cases delivering)
    (fun exiting => by rw [flushing] at exiting; cases exiting)
  intro row there named
  rcases (Host.mem_flushed member).mp there with ⟨_, rfl⟩ | ⟨_, differ⟩
  · rfl
  · exact absurd named differ

theorem of_advance (member : call ∈ host.calls) (now : Timestamp) (fails : Bool) :
    Moved host call now (host.advance call now fails) := by
  unfold Host.advance
  split
  · rename_i phase
    have plain : call.phase.plain = true := by rw [phase]; rfl
    split
    · exact .gone member plain rfl
    · exact .gone member plain rfl
    · exact .ended plain
  · rename_i phase
    have plain : call.phase.plain = true := by rw [phase]; rfl
    exact .of_stays plain (.of_eq rfl rfl) rfl rfl rfl rfl rfl rfl (OnlyMoves.finish.of_eq rfl rfl)
      none_left
  · rename_i phase
    have plain : call.phase.plain = true := by rw [phase]; rfl
    split
    · exact .ended plain
    · exact .gone member plain rfl
  · rename_i phase
    have plain : call.phase.plain = true := by rw [phase]; rfl
    split
    · exact .gone member plain rfl
    · exact .ended plain
  · rename_i phase
    exact .gone member (by rw [phase]; rfl) rfl
  · rename_i phase
    exact .typePointer member (by rw [phase]; rfl) _ now
  · rename_i phase
    exact .ended (by rw [phase]; rfl)
  · rename_i phase
    exact .gone member (by rw [phase]; rfl) rfl
  · rename_i phase
    exact .gone member (by rw [phase]; rfl) rfl
  · rename_i phase
    exact .reportActivity member phase now
  · rename_i phase
    split
    · rename_i idle
      split
      · rename_i prompt pending
        exact .flushed prompt phase pending
      · rename_i empty
        exact .unflushed member phase fun _ => empty
    · rename_i busy
      exact .unflushed member phase fun idle => absurd idle busy
  · rename_i text submit time phase
    split
    · have finished : OnlyMoves call host (host.finish call) := .finish
      exact .passed ⟨finished.arrivals, finished.kept, finished.old, finished.one⟩ (.of_eq rfl rfl)
        rfl rfl none_left (fun flushing => by rw [phase] at flushing; cases flushing)
        (fun _ _ delivering => by rw [phase] at delivering; cases delivering)
        (fun exiting => by rw [phase] at exiting; cases exiting)
    · exact .sent text submit time _ phase
  · rename_i delivery stage phase
    exact .delivered delivery stage phase (Host.deliver_cases now fails stage)
  · rename_i phase
    exact .gone member (by rw [phase]; rfl) rfl
  · rename_i phase
    have plain : call.phase.plain = true := by rw [phase]; rfl
    split
    · exact .gone member plain rfl
    · exact .gone member plain rfl
  · rename_i phase
    exact .noteUserInput member (by rw [phase]; rfl) rfl now
  · rename_i phase
    exact .ended (by rw [phase]; rfl)
  · rename_i phase
    exact .exited phase

end Moved

end ForgeNode.Prompts
