import ForgeNode.Orchestration.RunLaw

/-! Who settles an attempt: its own session, once in each period in which it is live. -/

namespace ForgeNode.Orchestration

open Store

open Section (Meets Preserves)

section Effects

/-- What a report finds of the attempt that it settles. -/
structure Settles (reporting : Reporting) (ledger : Ledger) (attempt : Attempt) : Prop where
  named : reporting.request.attemptId = attempt.id
  live : attempt.isLive = true
  own : ∃ session, reporting.request.caller = some session ∧ attempt.sessionId = some session
  newest : ∀ other ∈ ledger.attempts, other.taskId = attempt.taskId → other.n ≤ attempt.n

/-- An attempt that is reported was reported before, or is the one that a report settles. -/
def ReportsFrom (intent : Intent) (before after : Ledger) : Prop :=
  ∀ attempt ∈ after.attempts, attempt.phase = .reported →
    (∃ old ∈ before.attempts, old.id = attempt.id ∧ old.phase = .reported) ∨
      ∃ reporting, intent.reported = some reporting ∧
        ∃ old ∈ before.attempts, old.id = attempt.id ∧ Settles reporting before old

namespace ReportsFrom

variable {intent : Intent} {before middle after : Ledger}

theorem of_subset (subset : ∀ attempt ∈ after.attempts, attempt ∈ before.attempts) :
    ReportsFrom intent before after :=
  fun attempt member phase => .inl ⟨attempt, subset attempt member, rfl, phase⟩

theorem of_rewritten {change : Attempt → Attempt → Prop}
    (rewritten : Store.Rewritten change before.attempts after.attempts)
    (keeps : ∀ old ∈ before.attempts, ∀ attempt, change old attempt → attempt.phase = .reported →
      old.phase = .reported) : ReportsFrom intent before after := by
  intro attempt member phase
  obtain ⟨old, there, named, changed⟩ := rewritten.back attempt member
  exact .inl ⟨old, there, named, keeps old there attempt changed phase⟩

theorem of_modify {id : AttemptId} {update : Attempt → Attempt}
    {keeps : ∀ attempt, (update attempt).id = attempt.id}
    (attempts : after.attempts = before.attempts.modify id update keeps)
    (unreported : ∀ attempt, (update attempt).phase ≠ .reported) :
    ReportsFrom intent before after := by
  intro attempt member phase
  rw [attempts] at member
  rcases (@mem_modify _ _ _ _ _ _ keeps _ _).mp member with ⟨old, _, _, rfl⟩ | ⟨there, _⟩
  · exact absurd phase (unreported old)
  · exact .inl ⟨attempt, there, rfl, phase⟩

end ReportsFrom

variable {limits : OrchestrationLimits} {now : Timestamp} {fresh : Nat} {intent : Intent}
  {dropped : Option ProjectId} {inner after : Inner}

theorem Removal.reported (removal : Removal dropped inner after) :
    ∀ attempt ∈ after.ledger.attempts, attempt.phase = .reported →
      ∃ old ∈ inner.ledger.attempts, old.id = attempt.id ∧ old.phase = .reported := by
  intro attempt member phase
  cases removal with
  | still left => exact ⟨attempt, left.attempts ▸ member, rfl, phase⟩
  | session session now ledger =>
    rw [ledger] at member
    obtain ⟨old, there, rfl⟩ := Ledger.attempts_forgetSession.mp member
    unfold Attempt.forgetSession at phase ⊢
    split at phase
    · rename_i names
      rw [if_pos names]
      split at phase
      · cases phase
      · rename_i dead
        rw [if_neg dead]
        exact ⟨old, there, rfl, phase⟩
    · rename_i names
      rw [if_neg names]
      exact ⟨old, there, rfl, phase⟩
  | workspace workspace ledger =>
    rw [ledger] at member
    obtain ⟨old, there, rfl⟩ := Ledger.attempts_forgetWorkspace.mp member
    unfold Attempt.forgetWorkspace at phase ⊢
    split at phase <;> rename_i names
    · rw [if_pos names]
      exact ⟨old, there, rfl, phase⟩
    · rw [if_neg names]
      exact ⟨old, there, rfl, phase⟩
  | project project intended ledger =>
    rw [ledger] at member
    exact ⟨attempt, (Store.mem_retain.mp member).1, rfl, phase⟩

theorem Removal.reported_chain (chain : Relation.ReflTransGen (Removal dropped) inner after) :
    ∀ attempt ∈ after.ledger.attempts, attempt.phase = .reported →
      ∃ old ∈ inner.ledger.attempts, old.id = attempt.id ∧ old.phase = .reported := by
  induction chain with
  | refl => exact fun attempt member phase => ⟨attempt, member, rfl, phase⟩
  | tail _ removal ih =>
    intro attempt member phase
    obtain ⟨middle, there, named, phase'⟩ := removal.reported attempt member phase
    obtain ⟨old, held, named', was⟩ := ih middle there phase'
    exact ⟨old, held, named'.trans named, was⟩

theorem hasNewer_eq_false {ledger : Ledger} {attempt : Attempt}
    (newest : hasNewer ledger attempt = false) :
    ∀ other ∈ ledger.attempts, other.taskId = attempt.taskId → other.n ≤ attempt.n := by
  intro other member same
  have out := List.any_eq_false.mp newest other member
  simpa [same] using out

theorem Effect.reports (effect : Effect limits now fresh intent inner after) :
    ReportsFrom intent inner.ledger after.ledger := by
  have still {runs tasks} (left : Leaves inner after runs tasks inner.ledger.attempts) :
      ReportsFrom intent inner.ledger after.ledger :=
    .of_subset fun attempt member => left.attempts ▸ member
  cases effect with
  | still left | opened _ _ _ left | briefed _ _ left | closed _ _ left | resumed _ _ _ left
  | created _ _ _ _ _ left | stranded _ _ _ _ _ left | accepted _ _ _ _ _ _ left
  | exhausted _ _ _ left => exact still left
  | started spawned task may same committed session passed left =>
    intro attempt member phase
    rw [left.attempts] at member
    rcases mem_put.mp member with rfl | ⟨there, _⟩
    · cases phase
    · exact .inl ⟨attempt, there, rfl, phase⟩
  | reported reporting report attempt found live newest own intended left =>
    intro row member phase
    rw [left.attempts] at member
    rcases mem_modify.mp member with ⟨old, there, named, rfl⟩ | ⟨there, _⟩
    · have same : old = attempt := eq_of_key there (mem_of_get? found) named
      subst same
      obtain ⟨session, caller⟩ := Option.isSome_iff_exists.mp own.1
      refine .inr ⟨reporting, intended, old, there, rfl, ?_⟩
      exact ⟨(key_of_get? found).symm, live, ⟨session, caller, own.2 ▸ caller⟩,
        hasNewer_eq_false newest⟩
    · exact .inl ⟨row, there, rfl, phase⟩
  | reopened feedback task found status attempt newest intended alive left =>
    exact .of_modify left.attempts fun _ => by rintro ⟨⟩
  | retried feedback task found status attempts rejected left =>
    rcases rejected with ⟨_, rfl⟩ | ⟨attempt, _, rfl⟩
    · exact still left
    · exact .of_modify left.attempts fun _ => by rintro ⟨⟩
  | cancelled task found status left =>
    intro attempt member phase
    rw [left.attempts] at member
    obtain ⟨old, there, rfl⟩ := Ledger.mem_cancelAttempts.mp member
    split at phase
    · cases phase
    · rename_i other
      rw [if_neg other]
      exact .inl ⟨old, there, rfl, phase⟩
  | integrated commit task found intended tasks promoted attempts marked left =>
    refine .of_rewritten (left.attempts ▸ marked) ?_
    rintro old _ attempt (rfl | rfl) phase <;> exact phase
  | answered done intended tasks turned attempts back left =>
    refine .of_rewritten (left.attempts ▸ back) ?_
    rintro old _ attempt ⟨handed, kept⟩ phase
    by_cases there : old ∈ done
    · rw [handed there] at phase
      cases phase
    · exact kept there ▸ phase
  | exited session attempt member names live left =>
    exact .of_modify left.attempts fun _ => by rintro ⟨⟩
  | removed chain =>
    exact fun attempt member phase => .inl (Removal.reported_chain chain attempt member phase)
  | posted request board intended fits changed ledger sessions =>
    exact .of_subset fun attempt member => by rwa [ledger] at member
  | joined _ _ _ ledger | moved _ _ _ _ _ _ ledger =>
    exact .of_subset fun attempt member => ledger ▸ member

end Effects

section Conflicts

variable {platform : Platform} {limits : OrchestrationLimits} {before : World} {event : Event}

/-- The error with which the section that an event runs ends its call. -/
def World.refuses (platform : Platform) (limits : OrchestrationLimits) (before : World)
    (event : Event) : Option ProtocolError :=
  let error (program : Handler (List Call)) :=
    match (program.run (before.meeting event).inner).1 with
    | .ok _ => none
    | .error error => some error
  match event.cause with
  | .request request => error (runRequest platform limits request event.now event.fresh)
  | .advance index answer => before.calls[index]?.bind fun call =>
    error (runCall platform limits call answer event.now event.fresh)
  | _ => none

/-- The event runs a section of `report_attempt`. -/
def World.reports (before : World) (event : Event) : Bool :=
  match event.cause with
  | .request (.reportAttempt _) => true
  | .advance index _ => match before.calls[index]? with
    | some (.reporting _) => true
    | _ => false
  | _ => false

/-- Past its check, a report is refused for other reasons than a conflict. -/
theorem reportAttempt_conflict {inner : Inner} {reporting : Reporting} {facts : ReportFacts}
    {now : Timestamp} : (reportAttempt reporting facts limits now).Meets inner fun result after =>
      ∀ error, result = .error error → error.code = .conflict → after = inner := by
  unfold reportAttempt
  refine Meets.check_bind (fun _ _ _ _ _ => rfl) fun copied _ => ?_
  refine Meets.check_bind (fun _ _ _ _ _ => rfl) fun attempt _ => ?_
  refine Handler.onLedger_bind ?_
  refine Meets.check_bind (fun error missing => ?_) fun task _ => ?_
  · rintro _ ⟨⟩ conflict
    rw [← (found_eq_error.mp missing).2] at conflict
    cases conflict
  · refine Handler.onLedger_bind ?_
    refine Handler.persist_bind_of (counted_updateAttempt _ _) (fun error db _ => ?_) fun db _ => ?_
    · rintro _ ⟨⟩ ⟨⟩
    · refine Handler.persist_meets (counted_updateTask _ _) (fun error db _ => ?_) fun db _ => ?_
      · rintro _ ⟨⟩ ⟨⟩
      · rintro _ ⟨⟩

/-- A call that ends with an error leaves what its section left. -/
theorem enter_of_conflict {world : World} {others : List Call} {program : Handler (List Call)}
    {error : ProtocolError} (meets : program.Meets world.inner fun result after =>
      ∀ error, result = .error error → error.code = .conflict → after = world.inner)
    (refused : (match (program.run world.inner).1 with
      | .ok _ => none
      | .error error => some error) = some error) (conflict : error.code = .conflict) :
    (world.enter others program).inner = world.inner := by
  unfold Meets at meets
  unfold World.enter
  split
  · rename_i calls inner outcome
    rw [outcome] at refused
    cases refused
  · rename_i other inner outcome
    rw [outcome] at refused meets
    cases refused
    exact meets error rfl conflict

/-- A report that returns Conflict leaves the ledger and the tables as they were. -/
theorem report_conflict (allowed : before.Allows event) (reports : before.reports event = true)
    {error : ProtocolError} (refused : before.refuses platform limits event = some error)
    (conflict : error.code = .conflict) :
    (before.step platform limits event).inner = (before.meeting event).inner := by
  unfold World.reports at reports
  split at reports
  · rename_i request cause
    simp only [World.refuses, cause] at refused
    simp only [World.step, cause]
    refine enter_of_conflict ?_ refused conflict
    exact Meets.check_bind (fun _ _ _ _ _ => rfl) fun _ _ => Meets.pure (by rintro _ ⟨⟩)
  · rename_i index answer cause
    split at reports
    · rename_i reporting at_
      have permitted := allowed.2
      simp only [cause, World.permits, at_, Option.any_some, Bool.and_eq_true] at permitted
      have at' : (before.meeting event).calls[index]? = some (.reporting reporting) := at_
      simp only [World.refuses, cause, at_] at refused
      simp only [World.step, cause, at']
      refine enter_of_conflict ?_ refused conflict
      cases answer with
      | facts facts =>
        exact reportAttempt_conflict.bind (fun error after known other same => known other
          (congrArg _ (Except.error.inj same))) fun _ _ _ => Meets.pure (by rintro _ ⟨⟩)
      | _ => simp [World.awaits] at permitted
    · cases reports
  · cases reports

end Conflicts

section Law

variable {platform : Platform} {limits : OrchestrationLimits} {before : World} {event : Event}

/-- The attempt is there and live. -/
def LiveAt (id : AttemptId) (world : World) : Prop :=
  ∃ attempt ∈ world.inner.ledger.attempts, attempt.id = id ∧ attempt.isLive = true

/-- A step in which an attempt moves to Reported. -/
def Turns (id : AttemptId) (taken : Taken World Event) : Prop :=
  (∃ attempt ∈ taken.after.inner.ledger.attempts, attempt.id = id ∧ attempt.phase = .reported) ∧
    ∀ old ∈ taken.before.inner.ledger.attempts, old.id = id → old.phase ≠ .reported

/-- Such a step is the settling section of a report by the attempt's own session, while the
attempt is live and the newest of its task. -/
def SettledByOwn (taken : Taken World Event) : Prop :=
  ∀ id, Turns id taken → ∃ reporting index facts,
    taken.event.cause = .advance index (.facts facts) ∧
      taken.before.calls[index]? = some (.reporting reporting) ∧
        ∃ old ∈ taken.before.inner.ledger.attempts, old.id = id ∧
          Settles reporting taken.before.inner.ledger old

theorem settled_of_turns (allowed : before.Allows event)
    (running : event.cause.isRestart = false) :
    SettledByOwn ⟨before, event, before.step platform limits event⟩ := by
  rintro id ⟨⟨attempt, member, rfl, phase⟩, unreported⟩
  dsimp only at member unreported
  have transition : Transition platform limits before event _ := step_transition allowed
  have was {old : Attempt} (there : old ∈ before.inner.ledger.attempts) (named : old.id = attempt.id)
      (phase : old.phase = .reported) : False := unreported old there named phase
  cases transition with
  | acted up effect calls under few arise =>
    rcases effect.reports attempt member phase with ⟨old, there, named, phase⟩ |
      ⟨reporting, intended, old, there, named, settles⟩
    · exact (was there named phase).elim
    · obtain ⟨index, facts, cause, at_⟩ := World.reported_at intended
      exact ⟨reporting, index, facts, cause, at_, old, there, named, settles⟩
  | reordered runs tasks attempts board sessions stored calls =>
    exact (was ((attempts attempt).mp member) rfl phase).elim
  | restarted persistHistory cause loaded calls => 
    rw [cause] at running
    cases running
  | down ledger sessions calls up => exact (was (ledger ▸ member) rfl phase).elim

/-- Between two moves of an attempt to Reported, it became live again. -/
def OncePerPeriod (steps : List (Taken World Event)) : Prop :=
  ∀ id front earlier mid later back, steps = front ++ earlier :: (mid ++ later :: back) →
    Turns id earlier → Turns id later →
      ∃ taken ∈ mid, ¬ LiveAt id taken.before ∧ LiveAt id taken.after

/-- A call that returns Conflict changes nothing. -/
def ConflictFree (platform : Platform) (limits : OrchestrationLimits) (taken : Taken World Event) :
    Prop :=
  ∀ error, taken.before.reports taken.event = true →
    taken.before.refuses platform limits taken.event = some error → error.code = .conflict →
      taken.after.inner.ledger = taken.before.inner.ledger ∧
        taken.after.inner.db.tables = taken.before.inner.db.tables

/-- Over any run without a restart: who settles an attempt, how often, and what a refused
report leaves. -/
theorem report_settling {steps : List (Taken World Event)} {first last : World}
    (run : ForgeNode.Run (World.Step platform limits) first steps last)
    (running : ∀ taken ∈ steps, taken.event.cause.isRestart = false) :
    (∀ taken ∈ steps, SettledByOwn taken ∧ ConflictFree platform limits taken) ∧
      OncePerPeriod steps := by
  have own : ∀ taken ∈ steps, SettledByOwn taken := by
    rintro ⟨before, event, after⟩ member
    obtain ⟨allowed, shape⟩ := run.step_of_mem member
    dsimp only at shape
    subst shape
    exact settled_of_turns allowed (running _ member)
  refine ⟨fun taken member => ⟨own taken member, ?_⟩, ?_⟩
  · intro error reports refused conflict
    obtain ⟨allowed, shape⟩ := run.step_of_mem member
    have kept := report_conflict allowed reports refused conflict
    rw [shape, kept]
    exact ⟨rfl, rfl⟩
  · rintro id front earlier mid later back rfl ⟨⟨attempt, there, named, phase⟩, _⟩ turns
    obtain ⟨_, _, fromEarlier⟩ := run.split
    cases fromEarlier with
    | cons taken rest =>
      obtain ⟨middle, between, fromLater⟩ := rest.split
      cases fromLater with
      | cons taken' rest' =>
        refine between.exists_turn (LiveAt id) ?_ ?_
        · rintro ⟨other, held, named', live⟩
          have same : other = attempt := eq_of_key held there (named'.trans named.symm)
          rw [same, Attempt.isLive, phase] at live
          cases live
        · obtain ⟨_, _, _, _, _, old, held, named', settles⟩ := own _ (by simp) id turns
          exact ⟨old, held, named', settles.live⟩

/-- A worker reports, is handed its task back and reports again. -/
def reportedTwice : List Cause :=
  opening ++ [newTask .write []] ++ startTask 104 ++ reportFrom 106 107 .done ++
    [decideOn 104 3 (.reject "again" false)] ++ [.advance 0 .proceed, .advance 0 .proceed] ++
    reportFrom 106 107 .failed

theorem report_settling_reportedTwice :
    (∀ taken ∈ stepsTo reportedTwice, SettledByOwn taken ∧ ConflictFree plain .default taken) ∧
      OncePerPeriod (stepsTo reportedTwice) :=
  report_settling (run_of_admitted (by decide +kernel)) (by decide +kernel)

end Law

end ForgeNode.Orchestration
