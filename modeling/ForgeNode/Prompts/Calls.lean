import ForgeNode.Prompts.Session

/-! What the next section of a call can do: to the calls under way, and to what they share. -/

namespace ForgeNode.Prompts

open Store

variable {host : Host} {call row : Call} {phase : Phase} {delivery : Delivery}
  {result : Except Orchestration.ProtocolError Answer}

namespace Host

theorem mem_go (member : call ∈ host.calls) : row ∈ (host.go call phase).calls ↔
    row = { call with phase } ∨ row ∈ host.calls ∧ row.id ≠ call.id := by
  unfold go
  rw [mem_modify]
  constructor
  · rintro (⟨old, there, named, rfl⟩ | other)
    · exact .inl (by rw [eq_of_key there member named])
    · exact .inr other
  · rintro (rfl | other)
    · exact .inl ⟨call, member, rfl, rfl⟩
    · exact .inr other

theorem mem_modified {change : Call → Call} (member : call ∈ host.calls)
    (keeps : ∀ row, (change row).id = row.id) :
    change call ∈ host.calls.modify call.id change keeps :=
  mem_modify.mpr (.inl ⟨call, member, rfl, rfl⟩)

theorem mem_finish : row ∈ (host.finish call).calls ↔ row ∈ host.calls ∧ row.id ≠ call.id := by
  unfold finish
  rw [Store.mem_retain, bne_iff_ne]

theorem mem_flushed (member : call ∈ host.calls) : row ∈ (host.flushed call).calls ↔
    call.pointer = true ∧ row = { call with phase := .pointing, pointer := false } ∨
      row ∈ host.calls ∧ row.id ≠ call.id := by
  unfold flushed
  split
  · rename_i marked
    change row ∈ host.calls.modify call.id
      (fun row => { row with phase := .pointing, pointer := false }) (fun _ => rfl) ↔ _
    rw [mem_modify]
    constructor
    · rintro (⟨old, there, named, rfl⟩ | other)
      · exact .inl ⟨marked, by rw [eq_of_key there member named]⟩
      · exact .inr other
    · rintro (⟨_, rfl⟩ | other)
      · exact .inl ⟨call, member, rfl, rfl⟩
      · exact .inr other
  · rename_i unmarked
    rw [mem_finish]
    exact ⟨.inr, fun either => either.resolve_left fun marked => unmarked marked.1⟩

theorem mem_start : row ∈ (host.start phase).calls ↔
    row = ⟨host.arrivals, phase, false⟩ ∨ row ∈ host.calls ∧ row.id ≠ host.arrivals := by
  unfold start
  rw [mem_put]

theorem reply_eq : host.reply call delivery result =
    { host.flushed call with answers := (host.reply call delivery result).answers } := by
  unfold reply
  split <;> rfl

theorem reply_calls : (host.reply call delivery result).calls = (host.flushed call).calls := by
  unfold reply
  split <;> rfl

end Host

/-- The prompt was not taken out of its slot yet. -/
def Stage.untaken : Stage → Bool
  | .pasting _ _ _ | .returning _ _ => false
  | _ => true

/-- The terminal that a stage works on. -/
def Stage.terminal : Stage → Option TerminalId
  | .recording _ terminal | .slotting _ terminal | .awaiting _ terminal | .submitting _ terminal
  | .pasting _ terminal _ | .returning _ terminal => some terminal
  | _ => none

/-- What a section of `prompts::deliver` can do. -/
inductive Delivered (host : Host) (call : Call) (delivery : Delivery)
    (now : Orchestration.Timestamp) :
    Stage → Host → Prop where
  /-- It ends, and all that is shared stays as it was. -/
  | ended (result : Except Orchestration.ProtocolError Answer)
      (missed : stage.untaken = true → delivery.origin = .queue → delivery.time = .queue →
        host.session.idle = true → (∀ terminal, stage.terminal = some terminal →
          delivery.prompt.terminal = terminal) →
        host.checkTarget .queue delivery.prompt false = .ok delivery.prompt.terminal →
        delivery.prompt.terminal ∉ host.terminals) :
      Delivered host call delivery now stage (host.reply call delivery result)
  /-- It goes on to a later stage. -/
  | moved (next : Stage) (gate : Option Nat) (gates : Nat) (before : stage.untaken = true)
      (untaken : next.untaken = true)
      (found : ∀ terminal, next.terminal = some terminal → stage.terminal = some terminal ∨
        delivery.prompt.terminal = terminal) :
      Delivered host call delivery now stage
        { host.go call (.delivering delivery next) with gate, gates }
  /-- The session is not idle, and the prompt waits. -/
  | slotted (terminal : TerminalId) (before : stage.untaken = true)
      (checked : host.checkTarget delivery.time delivery.prompt (delivery.origin = .request) =
        .ok terminal)
      (busy : host.session.idle = false) :
      Delivered host call delivery now stage
        ({ host with pendingPrompt := some delivery.prompt }.reply call delivery (.ok ⟨false, false⟩))
  /-- The prompt is taken, and is about to be written. -/
  | taken (gate : Nat) (terminal : TerminalId)
      (checked : host.checkTarget delivery.time delivery.prompt (delivery.origin = .request) =
        .ok terminal) :
      Delivered host call delivery now (.submitting gate terminal) ((host.take delivery now).go call
        (.delivering delivery (.pasting gate terminal (delivery.prompt.submit && host.session.idle))))
  | pasted (gate : Nat) (terminal : TerminalId) (submitted : Bool)
      (result : Except Orchestration.ProtocolError Answer) :
      Delivered host call delivery now (.pasting gate terminal submitted)
        ({ host with pastes := delivery.prompt.context :: host.pastes }.reply call delivery result)
  | returned (gate : Nat) (terminal : TerminalId) :
      Delivered host call delivery now (.pasting gate terminal true)
        ({ host with pastes := delivery.prompt.context :: host.pastes }.go call
          (.delivering delivery (.returning gate terminal)))

namespace Host

theorem checkTarget_ok {time : DeliveryTime} {pending : PendingPrompt} {new : Bool}
    {terminal : TerminalId} (checked : host.checkTarget time pending new = .ok terminal) :
    host.session.kind = .agent ∧ isActive host.session.state = true ∧
      host.session.terminalId = some terminal ∧ pending.terminal = terminal ∧
      if new then host.pendingPrompt = none
      else ∃ slot, host.pendingPrompt = some slot ∧ slot.context = pending.context := by
  unfold checkTarget at checked
  split at checked
  · cases checked
  rename_i live
  simp only [Bool.or_eq_true, decide_eq_true_eq, Bool.not_eq_true', not_or, Bool.not_eq_false,
    Decidable.not_not] at live
  split at checked
  · cases checked
  rename_i current located
  split at checked
  · cases checked
  rename_i same
  split at checked
  · cases checked
  split at checked
  · rename_i slot held
    split at checked
    · cases checked
    · rename_i own
      cases checked
      simp only [Bool.or_eq_true, decide_eq_true_eq, not_or, Bool.not_eq_true,
        Decidable.not_not] at own
      refine ⟨live.1, live.2, located, (Decidable.not_not.mp same).symm, ?_⟩
      rw [if_neg (by rw [own.1]; exact Bool.false_ne_true)]
      exact ⟨slot, held, own.2⟩
  · rename_i empty
    split at checked
    · rename_i new
      cases checked
      exact ⟨live.1, live.2, located,
        (Decidable.not_not.mp same).symm, by rw [if_pos new]; exact empty⟩
    · cases checked

theorem checkAgain_ok {terminal : TerminalId}
    (checked : host.checkAgain delivery terminal = .ok ()) :
    host.checkTarget delivery.time delivery.prompt (delivery.origin = .request) = .ok terminal := by
  unfold checkAgain at checked
  split at checked
  · cases checked
  rename_i current found
  split at checked
  · cases checked
  rename_i same
  rw [found, Decidable.not_not.mp same]

theorem checkAgain_of_ok
    (checked : host.checkTarget delivery.time delivery.prompt (delivery.origin = .request) =
      .ok terminal) : host.checkAgain delivery terminal = .ok () := by
  unfold checkAgain
  rw [checked]
  exact if_neg (fun differ => differ rfl)

theorem deliver_cases (now : Orchestration.Timestamp) (fails : Bool) (stage : Stage) :
    Delivered host call delivery now stage (host.deliver call delivery now fails stage) := by
  cases stage with
  | checking =>
    simp only [deliver]
    split
    · rename_i unknown
      exact .ended _ fun _ _ queue => by rw [unknown] at queue; cases queue
    · split
      · rename_i error refused
        refine .ended _ fun _ origin time _ _ checked => ?_
        rw [origin, time] at refused
        exact absurd (refused.symm.trans checked) (by simp)
      · split
        · exact .moved _ host.gate host.gates rfl rfl (fun _ none => by cases none)
        · exact .moved _ _ _ rfl rfl (fun _ none => by cases none)
  | queueing gate =>
    exact .moved (.resolving gate) host.gate host.gates rfl rfl (fun _ none => by cases none)
  | resolving gate =>
    simp only [deliver]
    split
    · rename_i request
      refine .ended _ fun _ origin => ?_
      rw [origin] at request
      simp at request
    · split
      · rename_i error refused
        refine .ended _ fun _ origin time _ _ checked => ?_
        rw [origin, time] at refused
        exact absurd (refused.symm.trans checked) (by simp)
      · rename_i terminal checked
        have same := (checkTarget_ok checked).2.2.2.1
        split
        · exact .moved (.recording gate terminal) host.gate host.gates rfl rfl
            (fun other found => .inr (by cases found; exact same))
        · rename_i gone
          exact .ended _ fun _ _ _ _ _ _ => same ▸ gone
  | recording gate terminal =>
    simp only [deliver]
    split
    · rename_i request
      refine .ended _ fun _ origin => ?_
      rw [origin] at request
      simp at request
    · split
      · exact .moved (.slotting gate terminal) host.gate host.gates rfl rfl (fun other found =>
          .inl found)
      · exact .moved (.awaiting gate terminal) host.gate host.gates rfl rfl (fun other found =>
          .inl found)
  | slotting gate terminal =>
    simp only [deliver]
    split
    · rename_i error refused
      refine .ended _ fun _ origin time _ located checked => ?_
      have passes : host.checkAgain delivery terminal = .ok () := by
        refine checkAgain_of_ok ?_
        rw [origin, time, ← located terminal rfl]
        exact checked
      exact absurd (refused.symm.trans passes) (by simp)
    · rename_i passes
      split
      · exact .moved (.awaiting gate terminal) host.gate host.gates rfl rfl (fun other found =>
          .inl found)
      · rename_i busy
        exact .slotted terminal rfl (checkAgain_ok passes) (Bool.not_eq_true _ ▸ busy)
  | awaiting gate terminal =>
    exact .moved (.submitting gate terminal) host.gate host.gates rfl rfl (fun other found =>
      .inl found)
  | submitting gate terminal =>
    simp only [deliver]
    split
    · rename_i error refused
      refine .ended _ fun _ origin time _ located checked => ?_
      have passes : host.checkAgain delivery terminal = .ok () := by
        refine checkAgain_of_ok ?_
        rw [origin, time, ← located terminal rfl]
        exact checked
      exact absurd (refused.symm.trans passes) (by simp)
    · rename_i passes
      split
      · rename_i busy
        simp only [Bool.and_eq_true, Bool.not_eq_true'] at busy
        exact .slotted terminal rfl (checkAgain_ok passes) busy.1
      · split
        · rename_i gone
          exact .ended _ fun _ _ _ _ located _ => located terminal rfl ▸ gone
        · exact .taken gate terminal (checkAgain_ok passes)
  | pasting gate terminal submitted =>
    simp only [deliver]
    split
    · exact .pasted gate terminal submitted _
    · split
      · rename_i due
        rw [due]
        exact .returned gate terminal
      · exact .pasted gate terminal submitted _
  | returning gate terminal =>
    simp only [deliver]
    split
    · exact .ended _ fun untaken => by cases untaken
    · exact .ended _ fun untaken => by cases untaken

end Host

namespace Host

theorem take_calls (delivery : Delivery) (now : Orchestration.Timestamp) :
    (host.take delivery now).calls = host.calls := by
  unfold Host.take
  simp only
  split <;> rfl

theorem take_arrivals (delivery : Delivery) (now : Orchestration.Timestamp) :
    (host.take delivery now).arrivals = host.arrivals := by
  unfold Host.take
  simp only
  split <;> rfl

theorem noteUserInput_calls (now : Orchestration.Timestamp) :
    (host.noteUserInput now).calls = host.calls ∧ (host.noteUserInput now).arrivals =
      host.arrivals := by
  unfold Host.noteUserInput
  simp only
  split <;> exact ⟨rfl, rfl⟩

theorem setSessionState_calls (next : Orchestration.SessionState) (terminal : Option TerminalId)
    (now : Orchestration.Timestamp) : (host.setSessionState next terminal now).calls = host.calls ∧
      (host.setSessionState next terminal now).arrivals = host.arrivals := by
  unfold Host.setSessionState
  simp only
  split
  · exact ⟨rfl, rfl⟩
  · split <;> exact ⟨rfl, rfl⟩

end Host

/-- Of the calls under way, only this one may have moved or ended. -/
structure OnlyMoves (call : Call) (before after : Host) : Prop where
  arrivals : after.arrivals = before.arrivals
  kept : ∀ row ∈ before.calls, row.id ≠ call.id → row ∈ after.calls
  old : ∀ row ∈ after.calls, row.id ≠ call.id → row ∈ before.calls
  one : ∀ row ∈ after.calls, row.id = call.id → call ∈ before.calls

namespace OnlyMoves

theorem go (member : call ∈ host.calls) (phase : Phase) :
    OnlyMoves call host (host.go call phase) where
  arrivals := rfl
  kept := fun _ there differ => (Host.mem_go member).mpr (.inr ⟨there, differ⟩)
  old := by
    intro row there differ
    rcases (Host.mem_go member).mp there with rfl | ⟨old, _⟩
    · exact absurd rfl differ
    · exact old
  one := fun _ _ _ => member

theorem finish : OnlyMoves call host (host.finish call) where
  arrivals := rfl
  kept := fun _ there differ => Host.mem_finish.mpr ⟨there, differ⟩
  old := fun _ there _ => (Host.mem_finish.mp there).1
  one := fun _ there same => absurd same (Host.mem_finish.mp there).2

theorem flushed (member : call ∈ host.calls) : OnlyMoves call host (host.flushed call) where
  arrivals := by
    unfold Host.flushed
    split <;> rfl
  kept := fun _ there differ => (Host.mem_flushed member).mpr (.inr ⟨there, differ⟩)
  old := by
    intro row there differ
    rcases (Host.mem_flushed member).mp there with ⟨_, rfl⟩ | ⟨old, _⟩
    · exact absurd rfl differ
    · exact old
  one := fun _ _ _ => member

theorem reply (member : call ∈ host.calls) :
    OnlyMoves call host (host.reply call delivery result) := by
  have flushed := flushed member
  rw [Host.reply_eq]
  exact ⟨flushed.arrivals, flushed.kept, flushed.old, flushed.one⟩

theorem of_eq {middle after : Host} (moves : OnlyMoves call middle after)
    (calls : middle.calls = host.calls) (arrivals : middle.arrivals = host.arrivals) :
    OnlyMoves call host after where
  arrivals := moves.arrivals.trans arrivals
  kept := fun row there => moves.kept row (calls ▸ there)
  old := fun row there differ => calls ▸ moves.old row there differ
  one := fun row there same => calls ▸ moves.one row there same

theorem modified {after : Host} {change : Call → Call} (member : call ∈ host.calls)
    (keeps : ∀ row, (change row).id = row.id)
    (calls : after.calls = host.calls.modify call.id change keeps)
    (arrivals : after.arrivals = host.arrivals) : OnlyMoves call host after where
  arrivals := arrivals
  kept := by
    intro row there differ
    rw [calls]
    exact mem_modify.mpr (.inr ⟨there, differ⟩)
  old := by
    intro row there differ
    rw [calls] at there
    rcases mem_modify.mp there with ⟨old, _, named, rfl⟩ | ⟨old, _⟩
    · exact absurd ((keeps old).trans named) differ
    · exact old
  one := fun _ _ _ => member

theorem of_delivered {after : Host} {now : Orchestration.Timestamp} {stage : Stage}
    (member : call ∈ host.calls) (outcome : Delivered host call delivery now stage after) :
    OnlyMoves call host after := by
  cases outcome with
  | ended _ _ => exact .reply member
  | moved next gate gates _ _ _ =>
    have moves := go member (.delivering delivery next)
    exact ⟨moves.arrivals, moves.kept, moves.old, moves.one⟩
  | slotted _ _ _ _ =>
    refine (reply ?_).of_eq rfl rfl
    exact member
  | taken _ _ _ =>
    have calls := host.take_calls delivery now
    refine (go ?_ _).of_eq calls (host.take_arrivals delivery now)
    rw [calls]
    exact member
  | pasted _ _ _ _ =>
    refine (reply ?_).of_eq rfl rfl
    exact member
  | returned _ _ =>
    refine (go ?_ _).of_eq rfl rfl
    exact member

theorem advance (member : call ∈ host.calls) (now : Orchestration.Timestamp) (fails : Bool) :
    OnlyMoves call host (host.advance call now fails) := by
  unfold Host.advance
  split
  · split
    · exact .go member _
    · exact .go member _
    · exact .finish
  · exact finish.of_eq rfl rfl
  · split
    · exact .finish
    · exact .go member _
  · split
    · exact .go member _
    · exact .finish
  · exact .go member _
  · unfold Host.typePointer
    split
    · exact .finish
    split
    · exact .finish
    split
    · exact finish.of_eq rfl rfl
    split
    · exact .finish
    · have moves := go member (.typed ‹TerminalId›)
      exact ⟨moves.arrivals, moves.kept, moves.old, moves.one⟩
  · exact .finish
  · exact .go member _
  · exact .go member _
  · unfold Host.reportActivity
    simp only
    split
    · exact .modified member (by intro _; rfl) rfl rfl
    · exact finish.of_eq rfl rfl
  · split
    · split
      · exact .go member _
      · exact .flushed member
    · exact .flushed member
  · split
    · have moves : OnlyMoves call host (host.finish call) := .finish
      exact ⟨moves.arrivals, moves.kept, moves.old, moves.one⟩
    · exact .go member _
  · exact .of_delivered member (Host.deliver_cases now fails _)
  · exact .go member _
  · split
    · exact .go member _
    · exact .go member _
  · obtain ⟨calls, arrivals⟩ := host.noteUserInput_calls now
    refine (go ?_ _).of_eq calls arrivals
    show call ∈ (host.noteUserInput now).calls
    rw [calls]
    exact member
  · exact .finish
  · obtain ⟨calls, arrivals⟩ := host.setSessionState_calls .exited none now
    exact finish.of_eq calls arrivals

end OnlyMoves

/-- The phase that a delivery goes to: none of its own where it ended. -/
theorem Delivered.next {after : Host} {now : Orchestration.Timestamp} {stage : Stage}
    (member : call ∈ host.calls) (outcome : Delivered host call delivery now stage after)
    {row : Call} (there : row ∈ after.calls) (same : row.id = call.id) :
    row.phase = .pointing ∨ ∃ next, row.phase = .delivering delivery next ∧
      (∀ terminal, next.terminal = some terminal →
        stage.terminal = some terminal ∨ delivery.prompt.terminal = terminal) ∧
      (next.untaken = true → stage.untaken = true) := by
  have replied {host : Host} (member : call ∈ host.calls)
      {result : Except Orchestration.ProtocolError Answer}
      (there : row ∈ (host.reply call delivery result).calls) : row.phase = .pointing := by
    rw [Host.reply_calls] at there
    rcases (Host.mem_flushed member).mp there with ⟨_, rfl⟩ | ⟨_, differ⟩
    · rfl
    · exact absurd same differ
  cases outcome with
  | ended _ _ => exact .inl (replied member there)
  | moved next gate gates before _ found =>
    rcases (Host.mem_go member).mp there with rfl | ⟨_, differ⟩
    · exact .inr ⟨next, rfl, found, fun _ => before⟩
    · exact absurd same differ
  | slotted _ _ _ _ =>
    refine .inl (replied ?_ there)
    exact member
  | taken gate terminal _ =>
    have there : row ∈ ((host.take delivery now).go call _).calls := there
    rcases (Host.mem_go (by rw [host.take_calls]; exact member)).mp there with rfl | ⟨_, differ⟩
    · exact .inr ⟨_, rfl, fun _ found => .inl found, fun _ => rfl⟩
    · exact absurd same differ
  | pasted _ _ _ _ =>
    refine .inl (replied ?_ there)
    exact member
  | returned gate terminal =>
    have there : row ∈ (host.go call (.delivering delivery (.returning gate terminal))).calls := there
    rcases (Host.mem_go member).mp there with rfl | ⟨_, differ⟩
    · exact .inr ⟨_, rfl, fun _ found => .inl found, fun untaken => by cases untaken⟩
    · exact absurd same differ

/-- Each call came in before the next one. -/
def Numbered (host : Host) : Prop := ∀ row ∈ host.calls, row.id < host.arrivals

namespace Numbered

theorem initial {kind : SessionKind} {state : Orchestration.SessionState}
    {now : Orchestration.Timestamp} : Numbered (Host.initial kind state now) := fun row there =>
    absurd there (not_mem_empty row)

theorem start (numbered : Numbered host) (phase : Phase) : Numbered (host.start phase) := by
  intro row there
  rcases Host.mem_start.mp there with rfl | ⟨old, _⟩
  · exact Nat.lt_succ_self _
  · exact Nat.lt_succ_of_lt (numbered row old)

theorem of_moves {after : Host} (numbered : Numbered host) (moves : OnlyMoves call host after) :
    Numbered after := by
  intro row there
  rw [moves.arrivals]
  by_cases same : row.id = call.id
  · rw [same]
    exact numbered call (moves.one row there same)
  · exact numbered row (moves.old row there same)

theorem setSessionState (numbered : Numbered host) (next : Orchestration.SessionState)
    (terminal : Option TerminalId) (now : Orchestration.Timestamp) :
    Numbered (host.setSessionState next terminal now) := by
  obtain ⟨calls, arrivals⟩ := host.setSessionState_calls next terminal now
  intro row there
  rw [calls] at there
  rw [arrivals]
  exact numbered row there

theorem step (numbered : Numbered host) (turn : Host.Turn) : Numbered (host.step turn) := by
  cases turn with
  | consider | point | report | flush | send => exact numbered.start _
  | input terminal =>
    simp only [Host.step]
    split
    · exact numbered.start _
    · exact numbered
  | eof terminal =>
    simp only [Host.step]
    split
    · refine start ?_ _
      exact numbered
    · exact numbered
  | spawn now =>
    simp only [Host.step]
    split
    · refine setSessionState ?_ _ _ now
      exact numbered
    · exact numbered
  | restart now | fail now => exact numbered.setSessionState _ _ now
  | watch watched => exact numbered
  | advance id now fails =>
    simp only [Host.step]
    split
    · exact numbered
    · rename_i call found
      exact numbered.of_moves (.advance (mem_of_get? found) now fails)

end Numbered

end ForgeNode.Prompts
