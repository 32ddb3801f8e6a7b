import ForgeNode.Orchestration.Owners

/-! Whose exit a live attempt can outlive: one that was told before the attempt took the session. -/

namespace ForgeNode.Orchestration

open List hiding after
open Store
open Section (Meets)

variable {attempt : Attempt} {session : SessionId}

/-- The session has not exited, or its exit is still to be told. -/
def World.attended (world : World) (session : SessionId) : Bool :=
  world.calls.contains (.exiting session) ||
    (world.inner.sessions.get? session).all fun row => row.state != .exited

/-- No session is taken whose exit was told: neither by a start that is committed nor by an
attempt that an answer hands back. -/
def Attends (limits : OrchestrationLimits) (taken : Taken World Event) : Prop :=
  (∀ spawned ∈ (taken.before.intent taken.event).committed,
    (commitStartCheck spawned limits taken.before.inner).isOk = true →
      taken.before.attended spawned.session = true) ∧
  ∀ attempt ∈ (taken.before.intent taken.event).reopened, ∀ session ∈ attempt.sessionId,
    taken.before.attended session = true

instance (limits : OrchestrationLimits) (taken : Taken World Event) :
    Decidable (Attends limits taken) :=
  inferInstanceAs (Decidable (_ ∧ _))

/-- While the daemon is up, every session that a live attempt names is attended. -/
def Attended (world : World) : Prop :=
  world.up = true → ∀ attempt ∈ world.inner.ledger.attempts, attempt.isLive = true →
    ∀ session, attempt.sessionId = some session → world.attended session = true

section Sessions

variable {limits : OrchestrationLimits} {now : Timestamp} {fresh : Nat} {intent : Intent}
  {inner after : Inner} {dropped : Option ProjectId}

theorem World.attended_iff {world : World} : world.attended session = true ↔
    .exiting session ∈ world.calls ∨
      ∀ row ∈ world.inner.sessions, row.id = session → row.state ≠ .exited := by
  unfold World.attended
  rw [Bool.or_eq_true, contains_iff_mem, Option.all_eq_true]
  refine or_congr_right ⟨fun none row member named => ?_, fun none row found => ?_⟩
  · simpa using none row (get?_eq_some.mpr ⟨member, named⟩)
  · simpa using none row (mem_of_get? found) (key_of_get? found)

/-- A session that has exited had exited before, or is told to exit. -/
def ExitsFrom (told : Option SessionId) (before after : Store Session.id) : Prop :=
  ∀ row ∈ after, row.state = .exited →
    (∃ old ∈ before, old.id = row.id ∧ old.state = .exited) ∨ told = some row.id

theorem Removal.exitsFrom (removal : Removal dropped inner after) :
    ExitsFrom none inner.sessions after.sessions := by
  have kept {rows : Store Session.id} (subset : ∀ row ∈ rows, row ∈ inner.sessions)
      (sessions : after.sessions = rows) : ExitsFrom none inner.sessions after.sessions := by
    rw [sessions]
    exact fun row member exited => .inl ⟨row, subset row member, rfl, exited⟩
  cases removal with
  | still left => exact kept (fun _ member => member) left.sessions
  | session session now ledger sessions =>
    exact kept (fun _ member => (Store.mem_retain.mp member).1) sessions
  | workspace _ _ sessions | project _ _ _ sessions => exact kept (fun _ member => member) sessions

theorem Removal.exitsFrom_chain (chain : Relation.ReflTransGen (Removal dropped) inner after) :
    ExitsFrom none inner.sessions after.sessions := by
  induction chain with
  | refl => exact fun row member exited => .inl ⟨row, member, rfl, exited⟩
  | tail _ removal ih =>
    intro row member exited
    obtain ⟨middle, there, named, gone⟩ := (removal.exitsFrom row member exited).resolve_right nofun
    obtain ⟨old, held, named', gone'⟩ := (ih middle there gone).resolve_right nofun
    exact .inl ⟨old, held, named'.trans named, gone'⟩

theorem Effect.exitsFrom (effect : Effect limits now fresh intent inner after) :
    ExitsFrom intent.exiting inner.sessions after.sessions := by
  have same (sessions : after.sessions = inner.sessions) :
      ExitsFrom intent.exiting inner.sessions after.sessions := by
    rw [sessions]
    exact fun row member exited => .inl ⟨row, member, rfl, exited⟩
  cases effect with
  | still left | opened _ _ _ left | briefed _ _ left | closed _ _ left | resumed _ _ _ left
  | created _ _ _ _ _ left | stranded _ _ _ _ _ left | accepted _ _ _ _ _ _ left
  | exhausted _ _ _ left | started _ _ _ _ _ _ _ left | reported _ _ _ _ _ _ _ _ left
  | reopened _ _ _ _ _ _ _ _ left | retried _ _ _ _ _ _ left | cancelled _ _ _ left
  | integrated _ _ _ _ _ _ _ _ left | answered _ _ _ _ _ _ left | exited _ _ _ _ _ left =>
    exact same left.sessions
  | posted _ _ _ _ _ _ sessions => exact same sessions
  | removed chain =>
    intro row member exited
    exact .inl ((Removal.exitsFrom_chain chain row member exited).resolve_right nofun)
  | joined session unused state ledger sessions =>
    rw [sessions]
    intro row member exited
    rcases mem_put.mp member with rfl | ⟨there, _⟩
    · exact absurd exited state
    · exact .inl ⟨row, there, rfl, exited⟩
  | moved session state found legal attached told ledger sessions =>
    rw [sessions]
    intro row member exited
    rcases mem_modify.mp member with ⟨old, there, named, rfl⟩ | ⟨there, _⟩
    · exact .inr (named ▸ told exited)
    · exact .inl ⟨row, there, rfl, exited⟩

end Sessions

section Notices

variable {platform : Platform} {limits : OrchestrationLimits} {now : Timestamp} {inner : Inner}
  {before : World} {event : Event}

theorem World.exiting_at {world : World} (told : (world.intent event).exiting = some session) :
    event.cause = .moveSession session .exited := by
  unfold World.intent at told
  split at told
  · split at told
    · split at told <;> cases told
    · split at told <;> cases told
    · cases told
  · cases told
  · split at told
    · cases told
    · cases told
    · split at told <;> cases told
    · cases told
    · cases told
    · cases told
    · cases told
  · rename_i session cause
    cases told
    exact cause
  · cases told
  · cases told

theorem moveSession_refused {state : SessionState} :
    (moveSession session state).Meets inner fun result after =>
      ∀ error, result = .error error → after.sessions = inner.sessions := by
  unfold moveSession
  refine Meets.check_bind (fun _ _ _ _ => rfl) fun row found => ?_
  refine Meets.check_bind (fun _ _ _ _ => rfl) fun _ legal => ?_
  refine Meets.change_bind ?_
  refine Meets.ignore ?_
  exact fun _ impossible => by cases impossible

/-- An exit that moved its session is told to a call. -/
theorem exit_told (cause : event.cause = .moveSession session .exited) :
    (before.step platform limits event).inner.sessions = before.inner.sessions ∨
      .exiting session ∈ (before.step platform limits event).calls := by
  have notice : (moveSession session .exited >>= fun _ => pure (exitNotice session .exited)).Meets
      (before.meeting event).inner fun result after => match result with
        | .ok calls => calls = [.exiting session]
        | .error _ => after.sessions = before.inner.sessions := by
    refine Meets.bind moveSession_refused (fun error after same => same error rfl) ?_
    exact fun _ _ _ => Meets.pure rfl
  unfold Meets at notice
  simp only [World.step, cause, World.enter]
  revert notice
  generalize Section.run _ _ = outcome
  obtain ⟨result, inner⟩ := outcome
  intro notice
  cases result with
  | error error => exact .inl notice
  | ok calls =>
    refine .inr (mem_append_right _ ?_)
    rw [show calls = [.exiting session] from notice]
    exact mem_singleton.mpr rfl

/-- Where no two live attempts name the session, its exit leaves none. -/
theorem noteSessionExit_loses
    (one : ∀ first ∈ inner.ledger.attempts, ∀ second ∈ inner.ledger.attempts,
      first.sessionId = some session → second.sessionId = some session → first.id = second.id) :
    (noteSessionExit session limits now).Meets inner fun _ after =>
      ∀ attempt ∈ after.ledger.attempts, attempt.isLive = true →
      attempt.sessionId ≠ some session := by
  unfold noteSessionExit
  refine Handler.read_bind ?_
  cases search : inner.ledger.attempts.rows.find? fun attempt =>
      attempt.sessionId == some session && attempt.isLive with
  | none =>
    intro attempt member live names
    have none := find?_eq_none.mp search attempt member
    simp [names, live] at none
  | some lost =>
    have held := find?_some search
    simp only [Bool.and_eq_true, beq_iff_eq] at held
    have there : lost ∈ inner.ledger.attempts := mem_of_find?_eq_some search
    refine Handler.onLedger_bind ?_
    refine Handler.onLedger_bind ?_
    refine Handler.read_bind ?_
    refine Handler.ignored_bind fun db => ?_
    refine Handler.ignored_each.mono ?_
    rintro result after ⟨_, db', rfl⟩ attempt member live names
    have member : attempt ∈ (inner.ledger.setAttempt lost.id
      (Attempt.lost .exitedWithoutReport now) fun _ => rfl).attempts := member
    rcases Ledger.mem_setAttempt.mp member with ⟨old, _, _, rfl⟩ | ⟨other, differs⟩
    · cases live
    · exact differs (one attempt other lost there names held.1)

/-- A session whose notice is handled has no live attempt left. -/
theorem exit_handled {index : Nat} {answer : Answer} (owned : Owned before)
    (allowed : before.Allows event) (cause : event.cause = .advance index answer)
    (at_ : before.calls[index]? = some (.exiting session))
    (member : attempt ∈ (before.step platform limits event).inner.ledger.attempts)
    (live : attempt.isLive = true) : attempt.sessionId ≠ some session := by
  have permitted := allowed.2
  simp only [cause, World.permits, at_, Bool.and_eq_true, Option.any_some] at permitted
  have proceeds : answer = .proceed := by
    cases answer <;> simp_all [World.awaits]
  subst proceeds
  have one : ∀ first ∈ before.inner.ledger.attempts, ∀ second ∈ before.inner.ledger.attempts,
      first.sessionId = some session → second.sessionId = some session → first.id = second.id :=
    fun first there second held names names' =>
      owned.one _ _ _ (.inl ⟨first, there, rfl, names⟩) (.inl ⟨second, held, rfl, names'⟩)
  have loses : (noteSessionExit session limits event.now >>= fun _ => pure []).Meets
      (before.meeting event).inner fun (_ : Except ProtocolError (List Call)) after =>
        ∀ attempt ∈ after.ledger.attempts, attempt.isLive = true →
        attempt.sessionId ≠ some session := by
    have exits : (noteSessionExit session limits event.now).Meets (before.meeting event).inner _ :=
      noteSessionExit_loses one
    exact exits.bind (fun _ _ lost => lost) fun _ _ lost => Meets.pure lost
  have at' : (before.meeting event).calls[index]? = some (.exiting session) := at_
  have called : runCall platform limits (.exiting session) .proceed event.now event.fresh =
      noteSessionExit session limits event.now >>= fun _ => pure [] := rfl
  simp only [World.step, cause, at', World.enter, called] at member
  unfold Meets at loses
  revert loses member
  generalize Section.run _ _ = outcome
  obtain ⟨result, inner⟩ := outcome
  intro loses member
  cases result with
  | error | ok => exact loses attempt member live

/-- What is told of a session stays told until it is handled. -/
theorem stays_told {calls : List Call} {after : World}
    (under : after.calls = before.waiting event ++ calls) (told : .exiting session ∈ before.calls) :
    .exiting session ∈ after.calls ∨ ∃ index answer, event.cause = .advance index answer ∧
      before.calls[index]? = some (.exiting session) := by
  rw [under]
  cases cause : event.cause with
  | advance index answer =>
    by_cases handled : before.calls[index]? = some (.exiting session)
    · exact .inr ⟨index, answer, rfl, handled⟩
    · refine .inl (mem_append_left _ ?_)
      rw [World.waiting, cause]
      obtain ⟨other, there⟩ := mem_iff_getElem?.mp told
      refine mem_eraseIdx_iff_getElem?.mpr ⟨other, ?_, there⟩
      rintro rfl
      exact handled there
  | _ =>
    refine .inl (mem_append_left _ ?_)
    rw [World.waiting, cause]
    exact told

/-- Every live attempt after a section names a session that was attended before it. -/
theorem attended_before (attended : Attended before) (guard : Attends limits ⟨before, event, after⟩)
    (up : before.up = true) {inner : Inner}
    (livens : Livens limits event.now event.fresh (before.intent event)
      (before.meeting event).inner inner) (member : attempt ∈ inner.ledger.attempts)
      (live : attempt.isLive = true) (names : attempt.sessionId = some session) :
    before.attended session = true := by
  have named {old : Attempt} (continues : old.Continues attempt) : old.sessionId = some session := by
    rcases continues.session with same | gone
    · exact same.symm.trans names
    · rw [gone] at names
      cases names
  cases livens with
  | calm from_ =>
    obtain ⟨old, there, was, continues⟩ := from_ attempt member live
    exact attended up old there (was.resolve_right not_mem_nil) session (named continues)
  | back done intended from_ =>
    obtain ⟨old, there, was | handed, continues⟩ := from_ attempt member live
    · exact attended up old there was session (named continues)
    · exact guard.2 old (intended old handed) session (named continues)
  | started spawned task may same committed passed attempts =>
    rw [attempts] at member
    rcases mem_put.mp member with rfl | ⟨there, _⟩
    · cases names
      exact guard.1 spawned committed passed
    · exact attended up attempt there live session names

/-- A daemon that came up again has no live attempt. -/
theorem restart_settles {persistHistory : Bool} (cause : event.cause = .restart persistHistory)
    (up : (before.step platform limits event).up = true)
    (member : attempt ∈ (before.step platform limits event).inner.ledger.attempts) :
    attempt.isLive = false := by
  have meets : (loadDaemon limits persistHistory event.now).Meets (before.meeting event).inner _ :=
    loadDaemon_meets
  unfold Meets at meets
  simp only [World.step, cause] at up member
  revert meets up member
  generalize Section.run (loadDaemon limits persistHistory event.now) _ = outcome
  obtain ⟨result, inner⟩ := outcome
  intro meets up member
  cases result with
  | error error => cases up
  | ok value =>
    have loaded : Loaded limits event.now (before.meeting event).inner.db.tables inner := meets
    exact loaded.settled member

theorem Attended.step (attended : Attended before) (owned : Owned before)
    (allowed : before.Allows event)
    (guard : Attends limits ⟨before, event, before.step platform limits event⟩) :
    Attended (before.step platform limits event) := by
  have transition : Transition platform limits before event _ := step_transition allowed
  intro up attempt member live session names
  cases transition with
  | acted wasUp effect calls under few arise =>
    have was := attended_before attended guard wasUp effect.livens member live names
    rw [World.attended_iff] at was ⊢
    rcases was with told | stayed
    · rcases stays_told under told with still | ⟨index, answer, cause, at_⟩
      · exact .inl still
      · exact absurd names (exit_handled owned allowed cause at_ member live)
    · by_contra neither
      rw [not_or] at neither
      obtain ⟨untold, ended⟩ := neither
      push Not at ended
      obtain ⟨row, there, rfl, exited⟩ := ended
      rcases effect.exitsFrom row there exited with ⟨old, held, named, gone⟩ | told
      · exact stayed old held named gone
      · rcases exit_told (before.exiting_at told) with same | notice
        · rw [same] at there
          exact stayed row there rfl exited
        · exact untold notice
  | reordered runs tasks attempts board sessions stored calls =>
    have wasUp : before.up = true := allowed.up fun persistHistory cause => by
      rw [restart_settles cause up member] at live
      cases live
    have was := attended wasUp attempt ((attempts attempt).mp member) live session names
    rw [World.attended_iff] at was ⊢
    rw [calls, sessions]
    exact was
  | restarted persistHistory cause loaded calls =>
    rw [loaded.settled member] at live
    cases live
  | down ledger sessions calls down =>
    rw [down] at up
    cases up

end Notices

section Outlives

variable {platform : Platform} {limits : OrchestrationLimits} {steps : List (Taken World Event)}
  {last : World}

/-- Where no step takes a session whose exit was told, every live attempt of a daemon that is up
names a session that is there and has not exited, once no exit is still to be told. -/
theorem no_attempt_outlives_of_attends
    (run : ForgeNode.Run (World.Step platform limits) (World.initial limits) steps last)
    (attends : ∀ taken ∈ steps, Attends limits taken) :
    ∀ world ∈ Run.states (World.initial limits) steps, world.up = true →
      (∀ session, .exiting session ∉ world.calls) →
      ∀ attempt ∈ world.inner.ledger.attempts, attempt.isLive = true →
        ∀ session, attempt.sessionId = some session →
          ∃ row ∈ world.inner.sessions, row.id = session ∧ row.state ≠ .exited := by
  have start : Owned (World.initial limits) ∧ Attended (World.initial limits) :=
    ⟨.initial, fun _ attempt member => absurd member (not_mem_empty attempt)⟩
  have preserved : ∀ {before event after}, World.Step platform limits before event after →
      Owned before ∧ Attended before → Attends limits ⟨before, event, after⟩ →
      Owned after ∧ Attended after := by
    rintro before event _ ⟨allowed, rfl⟩ ⟨owned, attended⟩ guard
    exact ⟨owned.step allowed, attended.step owned allowed guard⟩
  have holds := run.guarded_states (fun world => Owned world ∧ Attended world) (Attends limits)
    preserved start attends
  intro world member up told attempt there live session names
  obtain ⟨owned, attended⟩ := holds world member
  obtain ⟨_, row, held, named⟩ := owned.named.memory attempt there session names
  have stayed := (World.attended_iff.mp (attended up attempt there live session names)).resolve_left
    (told session)
  exact ⟨row, held, named, stayed row held named⟩

/-- A worker at work. -/
def atWork : List Cause := opening ++ [newTask .write []] ++ startTask 104

theorem no_attempt_outlives_of_attends_atWork :
    ∃ attempt ∈ (reached atWork).inner.ledger.attempts.rows, attempt.isLive = true ∧
      ∃ row ∈ (reached atWork).inner.sessions.rows, attempt.sessionId = some row.id ∧
        row.state ≠ .exited := by
  have run := run_of_admitted (show admitted atWork = true by decide +kernel)
  have calm : (reached atWork).calls = [] := by decide +kernel
  have live : ∃ attempt ∈ (reached atWork).inner.ledger.attempts.rows, attempt.isLive = true ∧
      attempt.sessionId = some 106 := by decide +kernel
  obtain ⟨attempt, there, alive, names⟩ := live
  obtain ⟨row, held, named, state⟩ := no_attempt_outlives_of_attends run (by decide +kernel) _
    run.last_mem_states (by decide +kernel) (by simp [calm]) attempt there alive 106 names
  exact ⟨attempt, there, alive, row, held, named ▸ names, state⟩

/-- A worker exits, and its notice is handled, before its attempt is committed. -/
def exitBeforeCommit : List Cause :=
  opening ++ [newTask .write [],
    .request (.startAttempt ⟨none, 104, "provider", none, .integration⟩),
    .advance 0 (.checkout ⟨2, none, none⟩), .moveSession 106 .exited, .advance 1 .proceed,
    .advance 0 .proceed]

theorem attempt_outlives : ¬ ∀ platform limits world, World.Reachable platform limits world →
    world.up = true → world.calls = [] → ∀ attempt ∈ world.inner.ledger.attempts.rows,
      attempt.isLive = true → ∀ session ∈ attempt.sessionId,
        ∃ row ∈ world.inner.sessions.rows, row.id = session ∧ row.state ≠ .exited := by
  intro always
  have none := always plain .default (reached exitBeforeCommit)
    ⟨stepsTo exitBeforeCommit, run_of_admitted (by decide +kernel)⟩ (by decide +kernel)
    (by decide +kernel)
  exact absurd none (by decide +kernel)

end Outlives

end ForgeNode.Orchestration
