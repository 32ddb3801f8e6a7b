import ForgeNode.Prompts.Slot

/-! A prompt is pasted once: what a context names. -/

namespace ForgeNode.Prompts

open List Store
open Orchestration (Timestamp SessionState)

variable {host : Host} {call : Call} {now : Timestamp}

variable {after : Host} {delivery : Delivery} {stage : Stage}

namespace Call

/-- The prompt that a call delivers. -/
def prompt (call : Call) : Option PendingPrompt :=
  match call.phase with
  | .delivering delivery _ => some delivery.prompt
  | _ => none

/-- The call is about to hand in a prompt of its own. -/
def claims (call : Call) : Bool :=
  match call.phase with
  | .sending _ _ _ => true
  | .delivering delivery stage => delivery.origin = .request && stage.untaken
  | _ => false

/-- The prompt that the call took, and pastes next. -/
def takes (call : Call) : Option CallId :=
  match call.phase with
  | .delivering delivery (.pasting _ _ _) => some delivery.prompt.context
  | _ => none

/-- The queued prompt that the call was to look after. -/
def tends (call : Call) : Option PendingPrompt :=
  match call.phase with
  | .delivering delivery stage =>
    if delivery.origin = .queue ∧ stage.untaken = true then some delivery.prompt else none
  | _ => none

end Call

/-- A context names one prompt, which is in the slot, or taken by one call, or pasted. -/
structure Single (host : Host) : Prop where
  nodup : host.pastes.Nodup
  own : ∀ call ∈ host.calls, call.claims = true → ∀ prompt, call.prompt = some prompt →
    prompt.context = call.id
  pastPastes : ∀ context ∈ host.pastes, context < host.arrivals
  pastSlot : ∀ prompt, host.pendingPrompt = some prompt → prompt.context < host.arrivals
  pastCalls : ∀ call ∈ host.calls, ∀ prompt, call.prompt = some prompt →
    prompt.context < host.arrivals
  freshPastes : ∀ call ∈ host.calls, call.claims = true → call.id ∉ host.pastes
  freshSlot : ∀ call ∈ host.calls, call.claims = true → ∀ prompt, host.pendingPrompt = some prompt →
    prompt.context ≠ call.id
  freshCalls : ∀ call ∈ host.calls, call.claims = true → ∀ other ∈ host.calls, other.id ≠ call.id →
    ∀ prompt, other.prompt = some prompt → prompt.context ≠ call.id
  slotPastes : ∀ prompt, host.pendingPrompt = some prompt → prompt.context ∉ host.pastes
  slotTakes : ∀ prompt, host.pendingPrompt = some prompt → ∀ call ∈ host.calls,
    call.takes ≠ some prompt.context
  takesPastes : ∀ call ∈ host.calls, ∀ context, call.takes = some context → context ∉ host.pastes
  takesOnce : ∀ call ∈ host.calls, ∀ other ∈ host.calls, ∀ context, call.takes = some context →
    other.takes = some context → call.id = other.id
  same : ∀ call ∈ host.calls, ∀ tended, call.tends = some tended → ∀ prompt,
    host.pendingPrompt = some prompt → prompt.context = tended.context → prompt = tended

theorem Call.quiet (plain : call.phase.plain = true ∨ call.phase = .flushing ∨
      call.phase = .exiting) :
    call.claims = false ∧ call.prompt = none ∧ call.takes = none ∧ call.tends = none := by
  unfold Call.claims Call.prompt Call.takes Call.tends
  cases phase : call.phase <;> rw [phase] at plain <;> simp_all [Phase.plain]

theorem Call.prompt_of_takes {context : CallId} (takes : call.takes = some context) :
    ∃ prompt, call.prompt = some prompt ∧ prompt.context = context := by
  unfold Call.takes at takes
  unfold Call.prompt
  split at takes
  · rename_i delivery _ _ _ phase
    exact ⟨delivery.prompt, by rw [phase], Option.some.inj takes⟩
  · cases takes

theorem Call.prompt_of_tends {prompt : PendingPrompt} (tends : call.tends = some prompt) :
    call.prompt = some prompt := by
  unfold Call.tends at tends
  unfold Call.prompt
  split at tends
  · split at tends
    · exact tends
    · cases tends
  · cases tends

/-- What a call's new row is to show for the rest to stay as it is. -/
structure Replaces (host after : Host) (call row : Call) : Prop where
  own : row.claims = true → call.claims = true ∧ ∀ prompt, row.prompt = some prompt →
    prompt.context = call.id
  prompt : ∀ prompt, row.prompt = some prompt → prompt.context < host.arrivals ∧
    ∀ other ∈ host.calls, other.id ≠ call.id → other.claims = true → prompt.context ≠ other.id
  takes : ∀ context, row.takes = some context → context ∉ host.pastes ∧
    (∀ prompt, after.pendingPrompt = some prompt → prompt.context ≠ context) ∧
    ∀ other ∈ host.calls, other.id ≠ call.id → other.takes ≠ some context
  tends : ∀ tended, row.tends = some tended → ∀ prompt, after.pendingPrompt = some prompt →
    prompt.context = tended.context → prompt = tended

theorem Replaces.of_quiet {row : Call}
    (plain : row.phase.plain = true ∨ row.phase = .flushing ∨ row.phase = .exiting) :
    Replaces host after call row := by
  obtain ⟨claims, prompt, takes, tends⟩ := Call.quiet plain
  exact ⟨by simp [claims], by simp [prompt], by simp [takes], by simp [tends]⟩

/-- One call moves, and a prompt may leave the slot. -/
theorem Single.replace (single : Single host) (moves : OnlyMoves call host after)
    (pastes : after.pastes = host.pastes)
    (pending : ∀ prompt, after.pendingPrompt = some prompt → host.pendingPrompt = some prompt)
    (mine : ∀ row ∈ after.calls, row.id = call.id → Replaces host after call row) :
    Single after where
  nodup := pastes ▸ single.nodup
  own := by
    intro row there claims prompt named
    by_cases same : row.id = call.id
    · rw [same]
      exact ((mine row there same).own claims).2 prompt named
    · exact single.own row (moves.old row there same) claims prompt named
  pastPastes := by
    rw [pastes, moves.arrivals]
    exact single.pastPastes
  pastSlot := fun prompt slotted => moves.arrivals ▸ single.pastSlot prompt (pending prompt slotted)
  pastCalls := by
    intro row there prompt named
    rw [moves.arrivals]
    by_cases same : row.id = call.id
    · exact ((mine row there same).prompt prompt named).1
    · exact single.pastCalls row (moves.old row there same) prompt named
  freshPastes := by
    intro row there claims
    rw [pastes]
    by_cases same : row.id = call.id
    · rw [same]
      exact single.freshPastes call (moves.one row there same) ((mine row there same).own claims).1
    · exact single.freshPastes row (moves.old row there same) claims
  freshSlot := by
    intro row there claims prompt slotted
    by_cases same : row.id = call.id
    · rw [same]
      exact single.freshSlot call (moves.one row there same) ((mine row there same).own claims).1
        prompt (pending prompt slotted)
    · exact single.freshSlot row (moves.old row there same) claims prompt (pending prompt slotted)
  freshCalls := by
    intro row there claims other there' differ prompt named
    by_cases same : row.id = call.id
    · rw [same] at differ ⊢
      exact single.freshCalls call (moves.one row there same) ((mine row there same).own claims).1
        other (moves.old other there' differ) differ prompt named
    · by_cases same' : other.id = call.id
      · exact ((mine other there' same').prompt prompt named).2 row (moves.old row there same) same
          claims
      · exact single.freshCalls row (moves.old row there same) claims other
          (moves.old other there' same') differ prompt named
  slotPastes := fun prompt slotted => pastes ▸ single.slotPastes prompt (pending prompt slotted)
  slotTakes := by
    intro prompt slotted row there takes
    by_cases same : row.id = call.id
    · exact ((mine row there same).takes _ takes).2.1 prompt slotted rfl
    · exact single.slotTakes prompt (pending prompt slotted) row (moves.old row there same) takes
  takesPastes := by
    intro row there context takes
    rw [pastes]
    by_cases same : row.id = call.id
    · exact ((mine row there same).takes context takes).1
    · exact single.takesPastes row (moves.old row there same) context takes
  takesOnce := by
    intro row there other there' context takes takes'
    by_cases same : row.id = call.id
    · by_cases same' : other.id = call.id
      · exact same.trans same'.symm
      · exact absurd takes' (((mine row there same).takes context takes).2.2 other
          (moves.old other there' same') same')
    · by_cases same' : other.id = call.id
      · exact absurd takes (((mine other there' same').takes context takes').2.2 row
          (moves.old row there same) same)
      · exact single.takesOnce row (moves.old row there same) other (moves.old other there' same')
          context takes takes'
  same := by
    intro row there tended tends prompt slotted
    by_cases same : row.id = call.id
    · exact (mine row there same).tends tended tends prompt slotted
    · exact single.same row (moves.old row there same) tended tends prompt (pending prompt slotted)

theorem Single.of_eq (single : Single host) (calls : after.calls = host.calls)
    (pastes : after.pastes = host.pastes) (pending : after.pendingPrompt = host.pendingPrompt)
    (arrivals : after.arrivals = host.arrivals) : Single after := by
  obtain ⟨⟩ := host
  obtain ⟨⟩ := after
  cases calls
  cases pastes
  cases pending
  cases arrivals
  exact ⟨single.nodup, single.own, single.pastPastes, single.pastSlot, single.pastCalls,
    single.freshPastes, single.freshSlot, single.freshCalls, single.slotPastes, single.slotTakes,
    single.takesPastes, single.takesOnce, single.same⟩

/-- A prompt that nothing names yet goes into the slot. -/
theorem Single.slotted (single : Single host) (prompt : PendingPrompt)
    (past : prompt.context < host.arrivals) (unpasted : prompt.context ∉ host.pastes)
    (fresh : ∀ row ∈ host.calls, row.claims = true → prompt.context ≠ row.id)
    (unnamed : ∀ row ∈ host.calls, ∀ other, row.prompt = some other → other.context ≠
      prompt.context) :
    Single { host with pendingPrompt := some prompt } where
  nodup := single.nodup
  own := single.own
  pastPastes := single.pastPastes
  pastSlot := fun _ slotted => by cases slotted; exact past
  pastCalls := single.pastCalls
  freshPastes := single.freshPastes
  freshSlot := fun row there claims _ slotted => by cases slotted; exact fresh row there claims
  freshCalls := single.freshCalls
  slotPastes := fun _ slotted => by cases slotted; exact unpasted
  slotTakes := by
    intro _ slotted row there takes
    cases slotted
    obtain ⟨other, named, same⟩ := Call.prompt_of_takes takes
    exact unnamed row there other named same
  takesPastes := single.takesPastes
  takesOnce := single.takesOnce
  same := by
    intro row there tended tends _ slotted same
    cases slotted
    exact absurd same.symm (unnamed row there tended (Call.prompt_of_tends tends))

/-- A prompt that no call names as its own, and that no slot holds, is pasted. -/
theorem Single.pasted (single : Single host) (context : CallId) (past : context < host.arrivals)
    (unpasted : context ∉ host.pastes) (fresh : ∀ row ∈ host.calls, row.claims = true →
      context ≠ row.id)
    (unslotted : ∀ prompt, host.pendingPrompt = some prompt → prompt.context ≠ context)
    (untaken : ∀ row ∈ host.calls, row.takes ≠ some context) :
    Single { host with pastes := context :: host.pastes } where
  nodup := nodup_cons.mpr ⟨unpasted, single.nodup⟩
  own := single.own
  pastPastes := by
    intro other member
    rcases mem_cons.mp member with rfl | old
    · exact past
    · exact single.pastPastes other old
  pastSlot := single.pastSlot
  pastCalls := single.pastCalls
  freshPastes := by
    intro row there claims member
    rcases mem_cons.mp member with same | old
    · exact fresh row there claims same.symm
    · exact single.freshPastes row there claims old
  freshSlot := single.freshSlot
  freshCalls := single.freshCalls
  slotPastes := by
    intro prompt slotted member
    rcases mem_cons.mp member with same | old
    · exact unslotted prompt slotted same
    · exact single.slotPastes prompt slotted old
  slotTakes := single.slotTakes
  takesPastes := by
    intro row there other takes member
    rcases mem_cons.mp member with rfl | old
    · exact untaken row there takes
    · exact single.takesPastes row there other takes old
  takesOnce := single.takesOnce
  same := single.same

/-- A call that hands its prompt back, or was never to deliver it, names nothing more. -/
theorem Single.replied (single : Single host) (member : call ∈ host.calls)
    {result : Except Orchestration.ProtocolError Answer} :
    Single (host.reply call delivery result) := by
  obtain ⟨_, _, pending, pastes⟩ := @Host.reply_shared host call delivery result
  refine single.replace (.reply member) pastes (fun prompt slotted => pending ▸ slotted) ?_
  intro row there same
  rw [Host.reply_calls] at there
  rcases (Host.mem_flushed member).mp there with ⟨_, rfl⟩ | ⟨_, differ⟩
  · exact .of_quiet (.inl rfl)
  · exact absurd same differ

/-- A reply does to the calls what it does wherever they are the same. -/
theorem Single.of_replied {other : Host} {delivery : Delivery}
    {result result' : Except Orchestration.ProtocolError Answer} (calls : other.calls = host.calls)
    (arrivals : other.arrivals = host.arrivals) (member : call ∈ host.calls)
    (single : Single { host.reply call delivery result with
      pendingPrompt := other.pendingPrompt, pastes := other.pastes }) :
    Single (other.reply call delivery result') := by
  obtain ⟨_, _, pending, pastes⟩ := @Host.reply_shared other call delivery result'
  have moves : OnlyMoves call host (host.reply call delivery result) := .reply member
  have moves' : OnlyMoves call other (other.reply call delivery result') := .reply (calls ▸ member)
  refine single.of_eq ?_ pastes pending ?_
  · show (other.reply call delivery result').calls = (host.reply call delivery result).calls
    rw [Host.reply_calls, Host.reply_calls]
    unfold Host.flushed Host.finish
    split <;> simp only [calls]
  · exact moves'.arrivals.trans (arrivals.trans moves.arrivals.symm)

theorem Host.replied_row (member : call ∈ host.calls) {delivery : Delivery}
    {result : Except Orchestration.ProtocolError Answer} {row : Call}
    (there : row ∈ (host.reply call delivery result).calls) (same : row.id = call.id) :
    row.claims = false ∧ row.prompt = none ∧ row.takes = none ∧ row.tends = none := by
  rw [Host.reply_calls] at there
  rcases (Host.mem_flushed member).mp there with ⟨_, rfl⟩ | ⟨_, differ⟩
  · exact Call.quiet (.inl rfl)
  · exact absurd same differ

theorem Call.of_delivering {delivery : Delivery} {stage : Stage}
    (delivering : call.phase = .delivering delivery stage) : call.prompt = some delivery.prompt ∧
      (call.claims = true ↔ delivery.origin = .request ∧ stage.untaken = true) ∧
      call.tends = if delivery.origin = .queue ∧ stage.untaken = true then some delivery.prompt
      else none := by
  unfold Call.prompt Call.claims Call.tends
  rw [delivering]
  exact ⟨rfl, by simp only [Bool.and_eq_true, decide_eq_true_eq], rfl⟩

theorem Call.takes_of_untaken
    (delivering : call.phase = .delivering delivery stage) (untaken : stage.untaken = true) :
    call.takes = none := by
  unfold Call.takes
  rw [delivering]
  cases stage with
  | pasting _ _ _ => cases untaken
  | _ => rfl

/-- What a delivery that has not yet taken its prompt knows of it: the slot holds it, or the prompt
is the call's own and named by nothing else. -/
theorem Single.target (single : Single host) (member : call ∈ host.calls)
    (delivering : call.phase = .delivering delivery stage) (untaken : stage.untaken = true)
    {terminal : TerminalId} (checked : host.checkTarget delivery.time delivery.prompt
      (delivery.origin = .request) = .ok terminal) :
    host.pendingPrompt = some delivery.prompt ∨ host.pendingPrompt = none ∧ call.claims = true ∧
      delivery.prompt.context = call.id := by
  obtain ⟨prompt, claims, tends⟩ := Call.of_delivering delivering
  have held := (Host.checkTarget_ok checked).2.2.2.2
  cases origin : delivery.origin with
  | request =>
    rw [origin] at held
    have claims := claims.mpr ⟨origin, untaken⟩
    exact .inr ⟨held, claims, single.own call member claims _ prompt⟩
  | queue =>
    rw [origin] at held
    obtain ⟨slot, pending, same⟩ := held
    rw [if_pos ⟨origin, untaken⟩] at tends
    have equal := single.same call member _ tends slot pending same
    exact .inl (equal ▸ pending)

theorem Single.delivered (single : Single host) (member : call ∈ host.calls)
    (delivering : call.phase = .delivering delivery stage)
    (outcome : Delivered host call delivery now stage after) : Single after := by
  obtain ⟨prompt, claims, tends⟩ := Call.of_delivering delivering
  have moves := OnlyMoves.of_delivered member outcome
  cases outcome with
  | ended result _ => exact single.replied member
  | moved next gate gates before untaken _ =>
    refine single.replace moves rfl (fun _ => id) fun row there same => ?_
    rcases (Host.mem_go member).mp there with rfl | ⟨_, differ⟩
    · have after := @Call.of_delivering ⟨call.id, .delivering delivery next, call.pointer⟩ delivery
        next rfl
      refine ⟨fun claims' => ?_, fun other named => ?_, fun _ takes => ?_, fun tended tends' => ?_⟩
      · have claims := claims.mpr ⟨(after.2.1.mp claims').1, before⟩
        exact ⟨claims, fun other named => single.own call member claims other
          (prompt.trans (after.1.symm.trans named))⟩
      · have named := prompt.trans (after.1.symm.trans named)
        exact ⟨single.pastCalls call member other named, fun row there differ claims =>
          single.freshCalls row there claims call member (Ne.symm differ) other named⟩
      · rw [Call.takes_of_untaken rfl untaken] at takes
        cases takes
      · have same := after.2.2.symm.trans tends'
        split at same
        · rename_i queued
          rw [if_pos ⟨queued.1, before⟩] at tends
          exact single.same call member tended (tends.trans same)
        · cases same
    · exact absurd same differ
  | slotted terminal before checked _ =>
    refine @Single.of_replied host call _ delivery (.ok ⟨false, false⟩) _ rfl rfl member ?_
    have replied : Single (host.reply call delivery (.ok ⟨false, false⟩)) := single.replied member
    obtain ⟨_, _, pending, pastes⟩ := @Host.reply_shared host call delivery (.ok ⟨false, false⟩)
    have moves : OnlyMoves call host (host.reply call delivery (.ok ⟨false, false⟩)) := .reply member
    rcases single.target member delivering before checked with held | ⟨_, claims, own⟩
    · exact replied.of_eq rfl pastes.symm (held.symm.trans pending.symm) rfl
    · refine Single.of_eq (replied.slotted delivery.prompt ?_ ?_ ?_ ?_) rfl pastes.symm rfl rfl
      · rw [moves.arrivals]
        exact single.pastCalls call member _ prompt
      · rw [pastes, own]
        exact single.freshPastes call member claims
      · intro row there claims'
        by_cases same : row.id = call.id
        · rw [(Host.replied_row member there same).1] at claims'
          cases claims'
        · rw [own]
          exact fun equal => same equal.symm
      · intro row there other named
        by_cases same : row.id = call.id
        · rw [(Host.replied_row member there same).2.1] at named
          cases named
        · rw [own]
          exact single.freshCalls call member claims row (moves.old row there same) same other named
  | taken gate terminal checked =>
    have calls := host.take_calls delivery now
    obtain ⟨_, _, _, _, pending, pastes⟩ := @Host.take_shared host now delivery
    have empty : ∀ prompt, ((host.take delivery now).go call
        (.delivering delivery (.pasting gate terminal
        (delivery.prompt.submit && host.session.idle)))).pendingPrompt ≠ some prompt := by
      intro other slotted
      have slotted : (host.take delivery now).pendingPrompt = some other := slotted
      rw [pending] at slotted
      cases slotted
    refine single.replace moves pastes (fun prompt slotted => absurd slotted (empty prompt)) ?_
    intro row there same
    have there : row ∈ ((host.take delivery now).go call _).calls := there
    rcases (Host.mem_go (calls ▸ member)).mp there with rfl | ⟨_, differ⟩
    · refine ⟨fun claims' => by simp [Call.claims, Stage.untaken] at claims', fun other named => ?_,
        fun context takes => ?_, fun _ tends' => by simp [Call.tends, Stage.untaken] at tends'⟩
      · have named := prompt.trans named
        exact ⟨single.pastCalls call member other named, fun row there differ claims =>
          single.freshCalls row there claims call member (Ne.symm differ) other named⟩
      · cases takes
        refine ⟨?_, fun prompt slotted => absurd slotted (empty prompt), ?_⟩
        · rcases single.target member delivering rfl checked with held | ⟨_, claims, own⟩
          · exact single.slotPastes _ held
          · exact own ▸ single.freshPastes call member claims
        · intro other there' differ takes
          rcases single.target member delivering rfl checked with held | ⟨_, claims, own⟩
          · exact single.slotTakes _ held other there' takes
          · obtain ⟨named, prompt', context⟩ := Call.prompt_of_takes takes
            exact single.freshCalls call member claims other there' differ named prompt'
              (context.trans own)
    · exact absurd same differ
  | pasted gate terminal submitted result =>
    refine @Single.of_replied host call _ delivery result _ rfl rfl member ?_
    have replied : Single (host.reply call delivery result) := single.replied member
    obtain ⟨_, _, pending, pastes⟩ := @Host.reply_shared host call delivery result
    have moves : OnlyMoves call host (host.reply call delivery result) := .reply member
    have takes : call.takes = some delivery.prompt.context := by
      unfold Call.takes
      rw [delivering]
    have unpasted := single.takesPastes call member _ takes
    refine Single.of_eq (replied.pasted delivery.prompt.context ?_ (pastes ▸ unpasted) ?_ ?_ ?_) rfl
      (congrArg (delivery.prompt.context :: ·) pastes.symm) pending.symm rfl
    · rw [moves.arrivals]
      exact single.pastCalls call member _ prompt
    · intro row there claims'
      by_cases same : row.id = call.id
      · rw [(Host.replied_row member there same).1] at claims'
        cases claims'
      · exact single.freshCalls row (moves.old row there same) claims' call member (Ne.symm same) _
          prompt
    · intro other slotted context
      rw [pending] at slotted
      exact single.slotTakes other slotted call member (context ▸ takes)
    · intro row there takes'
      by_cases same : row.id = call.id
      · rw [(Host.replied_row member there same).2.2.1] at takes'
        cases takes'
      · exact same (single.takesOnce row (moves.old row there same) call member _ takes' takes)
  | returned gate terminal =>
    have takes : call.takes = some delivery.prompt.context := by
      unfold Call.takes
      rw [delivering]
    have next := OnlyMoves.go member (.delivering delivery (.returning gate terminal))
    have moved : Single (host.go call (.delivering delivery (.returning gate terminal))) := by
      refine single.replace next rfl (fun _ => id) fun row there same => ?_
      rcases (Host.mem_go member).mp there with rfl | ⟨_, differ⟩
      · refine ⟨fun claims' => by simp [Call.claims, Stage.untaken] at claims', fun other named => ?_,
          fun _ takes' => absurd takes' (by simp [Call.takes]),
          fun _ tends' => by simp [Call.tends, Stage.untaken] at tends'⟩
        have named := prompt.trans named
        exact ⟨single.pastCalls call member other named, fun row there differ claims =>
          single.freshCalls row there claims call member (Ne.symm differ) other named⟩
      · exact absurd same differ
    refine moved.pasted delivery.prompt.context (single.pastCalls call member _ prompt)
      (single.takesPastes call member _ takes) ?_ ?_ ?_
    · intro row there claims'
      by_cases same : row.id = call.id
      · rcases (Host.mem_go member).mp there with rfl | ⟨_, differ⟩
        · simp [Call.claims, Stage.untaken] at claims'
        · exact absurd same differ
      · exact single.freshCalls row (next.old row there same) claims' call member (Ne.symm same) _
          prompt
    · exact fun other slotted context => single.slotTakes other slotted call member (context ▸ takes)
    · intro row there takes'
      by_cases same : row.id = call.id
      · rcases (Host.mem_go member).mp there with rfl | ⟨_, differ⟩
        · cases takes'
        · exact absurd same differ
      · exact same (single.takesOnce row (next.old row there same) call member _ takes' takes)

theorem Host.setSessionState_shared {next : SessionState} {terminal : Option TerminalId} :
    (host.setSessionState next terminal now).pastes = host.pastes ∧
      ∀ prompt, (host.setSessionState next terminal now).pendingPrompt = some prompt →
        host.pendingPrompt = some prompt := by
  unfold Host.setSessionState
  simp only
  split
  · exact ⟨rfl, fun _ => id⟩
  · split
    · exact ⟨rfl, fun _ none => by cases none⟩
    · exact ⟨rfl, fun _ => id⟩

theorem Single.advance (single : Single host) (numbered : Numbered host)
    (member : call ∈ host.calls) (moved : Moved host call now after) : Single after := by
  cases moved with
  | passed moves _ pending pastes plain _ _ _ =>
    exact single.replace moves pastes (fun _ slotted => pending ▸ slotted)
      fun row there same => .of_quiet (.inl (plain row there same))
  | idled moves _ _ _ _ pending pastes flushing _ =>
    refine single.replace moves pastes (fun _ slotted => pending ▸ slotted) fun row there same => ?_
    obtain ⟨other, there', same', flushing⟩ := flushing
    exact .of_quiet (.inr (.inl (eq_of_key there there' (same.trans same'.symm) ▸ flushing)))
  | sent text submit time terminal sending =>
    refine single.replace (.go member _) rfl (fun _ => id) fun row there same => ?_
    rcases (Host.mem_go member).mp there with rfl | ⟨_, differ⟩
    · have claims : call.claims = true := by
        unfold Call.claims
        rw [sending]
      refine ⟨fun _ => ⟨claims, fun _ named => Option.some.inj named ▸ rfl⟩, fun _ named => ?_,
        fun _ takes => absurd takes (by simp [Call.takes]),
        fun _ tends => by simp [Call.tends] at tends⟩
      cases named
      exact ⟨numbered call member, fun _ _ differ _ => Ne.symm differ⟩
    · exact absurd same differ
  | flushed prompt flushing pending =>
    refine single.replace (.go member _) rfl (fun _ => id) fun row there same => ?_
    rcases (Host.mem_go member).mp there with rfl | ⟨_, differ⟩
    · refine ⟨fun claims => by simp [Call.claims] at claims, fun _ named => ?_,
        fun _ takes => absurd takes (by simp [Call.takes]), fun tended tends other slotted _ => ?_⟩
      · cases named
        exact ⟨single.pastSlot prompt pending, fun other there _ claims =>
          single.freshSlot other there claims prompt pending⟩
      · have same : prompt = tended := by simpa [Call.tends, Stage.untaken] using tends
        exact same ▸ Option.some.inj (slotted.symm.trans pending)
    · exact absurd same differ
  | delivered delivery stage delivering outcome => exact single.delivered member delivering outcome
  | exited exiting =>
    obtain ⟨calls, arrivals⟩ := host.setSessionState_calls .exited none now
    obtain ⟨pastes, pending⟩ := @Host.setSessionState_shared host now .exited none
    exact single.replace (OnlyMoves.finish.of_eq calls arrivals) pastes pending
      fun row there same => absurd same (Host.mem_finish.mp there).2

theorem Single.start (single : Single host) {phase : Phase}
    (quiet : ∀ delivery stage, phase ≠ .delivering delivery stage) : Single (host.start phase) := by
  have named : (⟨host.arrivals, phase, false⟩ : Call).prompt = none := by
    unfold Call.prompt
    split
    · rename_i delivering
      exact absurd delivering (quiet _ _)
    · rfl
  have takes : (⟨host.arrivals, phase, false⟩ : Call).takes = none := by
    cases taken : (⟨host.arrivals, phase, false⟩ : Call).takes with
    | none => rfl
    | some context =>
      obtain ⟨_, prompt, _⟩ := Call.prompt_of_takes taken
      rw [named] at prompt
      cases prompt
  have tends : (⟨host.arrivals, phase, false⟩ : Call).tends = none := by
    cases tended : (⟨host.arrivals, phase, false⟩ : Call).tends with
    | none => rfl
    | some prompt =>
      have prompt := Call.prompt_of_tends tended
      rw [named] at prompt
      cases prompt
  have later {context : CallId} (past : context < host.arrivals) : context < host.arrivals + 1 :=
    Nat.lt_succ_of_lt past
  constructor
  case nodup => exact single.nodup
  case pastPastes => exact fun context there => later (single.pastPastes context there)
  case pastSlot => exact fun prompt slotted => later (single.pastSlot prompt slotted)
  case slotPastes => exact single.slotPastes
  case own =>
    intro row there claims prompt prompted
    rcases Host.mem_start.mp there with rfl | ⟨old, _⟩
    · rw [named] at prompted
      cases prompted
    · exact single.own row old claims prompt prompted
  case pastCalls =>
    intro row there prompt prompted
    rcases Host.mem_start.mp there with rfl | ⟨old, _⟩
    · rw [named] at prompted
      cases prompted
    · exact later (single.pastCalls row old prompt prompted)
  case freshPastes =>
    intro row there claims
    rcases Host.mem_start.mp there with rfl | ⟨old, _⟩
    · exact fun pasted => Nat.lt_irrefl _ (single.pastPastes _ pasted)
    · exact single.freshPastes row old claims
  case freshSlot =>
    intro row there claims prompt slotted
    rcases Host.mem_start.mp there with rfl | ⟨old, _⟩
    · exact Nat.ne_of_lt (single.pastSlot prompt slotted)
    · exact single.freshSlot row old claims prompt slotted
  case freshCalls =>
    intro row there claims other there' differ prompt prompted
    rcases Host.mem_start.mp there' with rfl | ⟨old', _⟩
    · rw [named] at prompted
      cases prompted
    · rcases Host.mem_start.mp there with rfl | ⟨old, _⟩
      · exact Nat.ne_of_lt (single.pastCalls other old' prompt prompted)
      · exact single.freshCalls row old claims other old' differ prompt prompted
  case slotTakes =>
    intro prompt slotted row there
    rcases Host.mem_start.mp there with rfl | ⟨old, _⟩
    · rw [takes]
      exact fun none => by cases none
    · exact single.slotTakes prompt slotted row old
  case takesPastes =>
    intro row there context taken
    rcases Host.mem_start.mp there with rfl | ⟨old, _⟩
    · rw [takes] at taken
      cases taken
    · exact single.takesPastes row old context taken
  case takesOnce =>
    intro row there other there' context taken taken'
    rcases Host.mem_start.mp there with rfl | ⟨old, _⟩
    · rw [takes] at taken
      cases taken
    · rcases Host.mem_start.mp there' with rfl | ⟨old', _⟩
      · rw [takes] at taken'
        cases taken'
      · exact single.takesOnce row old other old' context taken taken'
  case same =>
    intro row there tended tendsTo prompt slotted
    rcases Host.mem_start.mp there with rfl | ⟨old, _⟩
    · rw [tends] at tendsTo
      cases tendsTo
    · exact single.same row old tended tendsTo prompt slotted

theorem Single.setSessionState (single : Single host) (next : SessionState)
    (terminal : Option TerminalId) : Single (host.setSessionState next terminal now) := by
  obtain ⟨calls, arrivals⟩ := host.setSessionState_calls next terminal now
  obtain ⟨pastes, pending⟩ := @Host.setSessionState_shared host now next terminal
  cases slotted : (host.setSessionState next terminal now).pendingPrompt with
  | some prompt =>
    exact single.of_eq calls pastes (slotted.trans (pending prompt slotted).symm) arrivals
  | none =>
    have emptied : Single { host with pendingPrompt := none } :=
      ⟨single.nodup, single.own, single.pastPastes, (fun _ none => by cases none), single.pastCalls,
        single.freshPastes, (fun _ _ _ _ none => by cases none), single.freshCalls,
        (fun _ none => by cases none), (fun _ none => by cases none), single.takesPastes,
        single.takesOnce, (fun _ _ _ _ _ none => by cases none)⟩
    exact emptied.of_eq calls pastes slotted arrivals

theorem Single.step (single : Single host) (numbered : Numbered host) (turn : Host.Turn) :
    Single (host.step turn) := by
  cases turn with
  | consider | point | report | flush | send => exact single.start (by simp)
  | input terminal =>
    simp only [Host.step]
    split
    · exact single.start (by simp)
    · exact single
  | eof terminal =>
    simp only [Host.step]
    split
    · exact (single.start (by simp) : Single (host.start .exiting)).of_eq rfl rfl rfl rfl
    · exact single
  | spawn now =>
    simp only [Host.step]
    split
    · exact (single.of_eq rfl rfl rfl rfl : Single { host with
        terminals := host.spawned :: host.terminals, spawned := host.spawned + 1 }).setSessionState
          _ _
    · exact single.of_eq rfl rfl rfl rfl
  | restart | fail => exact single.setSessionState _ _
  | watch watched => exact single.of_eq rfl rfl rfl rfl
  | advance id now fails =>
    simp only [Host.step]
    split
    · exact single
    · rename_i call found
      exact single.advance numbered (mem_of_get? found)
        (.of_advance (mem_of_get? found) now fails)

theorem Single.initial {kind : SessionKind} {state : SessionState} {now : Timestamp} :
    Single (Host.initial kind state now) := by
  constructor
  case nodup => exact nodup_nil
  case pastPastes => exact fun _ there => absurd there not_mem_nil
  case pastSlot => exact fun _ none => by cases none
  case slotPastes => exact fun _ none => by cases none
  case slotTakes => exact fun _ none => by cases none
  all_goals exact fun row there => absurd there (not_mem_empty row)

end ForgeNode.Prompts
