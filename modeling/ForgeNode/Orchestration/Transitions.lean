import ForgeNode.Orchestration.Sections
import ForgeNode.Orchestration.Startup

/-! One step of the daemon: an effect of one section on the ledger, and what the calls under
way after it hold. -/

namespace ForgeNode.Orchestration

open List
open Section (Meets)

/-- A section that only reads, or whose effect asks first. -/
def Intent.none : Intent := ⟨[], .none, .none, .none, .none, .none, .none, .none, .none⟩

/-- What the next section does without asking, read off the world before it. -/
def World.intent (world : World) (event : Event) : Intent :=
  match event.cause with
  | .request (.decideTask request) =>
    match request.decision with
    | .reject _ false =>
      if (rejectCheck request world.inner).isOk then
        { Intent.none with reopened := (world.inner.ledger.newest request.taskId).toList }
      else .none
    | .accept _ =>
      if (checkDecision request world.inner).isOk then
        { Intent.none with accepted := some request.taskId }
      else .none
    | _ => .none
  | .request (.setState request) => { Intent.none with posted := some request }
  | .advance index answer =>
    match world.calls[index]?, answer with
    | some (.spawned spawned), .proceed => { Intent.none with committed := some spawned }
    | some (.delivering _ targets), .proceed => { Intent.none with
        reopened := blockedAttempts world.inner.ledger (targets.filterMap targetSession) }
    | some (.integrating integrating), .finished _ =>
      if integrating.request.how = .continue then
        { Intent.none with integrated := some integrating.request.taskId }
      else .none
    | some (.merging integrating _), .finished _ =>
      { Intent.none with integrated := some integrating.request.taskId }
    | some (.reporting reporting), .facts _ => { Intent.none with reported := some reporting }
    | some (.resuming run (some _)), .controller _ => { Intent.none with resumed := some run }
    | _, _ => .none
  | .moveSession session .exited => { Intent.none with exiting := some session }
  | .removeProject project => { Intent.none with dropped := some project }
  | _ => .none

theorem World.committed_at {world : World} {event : Event} {spawned : Spawned}
    (committed : (world.intent event).committed = some spawned) :
    ∃ index, event.cause = .advance index .proceed ∧ world.calls[index]? =
      some (.spawned spawned) := by
  unfold World.intent at committed
  split at committed
  · split at committed
    · split at committed <;> cases committed
    · split at committed <;> cases committed
    · cases committed
  · cases committed
  · rename_i index answer cause
    split at committed
    · rename_i at_
      cases committed
      exact ⟨index, cause, at_⟩
    · cases committed
    · split at committed <;> cases committed
    · cases committed
    · cases committed
    · cases committed
    · cases committed
  · cases committed
  · cases committed
  · cases committed

theorem World.reported_at {world : World} {event : Event} {reporting : Reporting}
    (reported : (world.intent event).reported = some reporting) : ∃ index facts,
      event.cause = .advance index (.facts facts) ∧
        world.calls[index]? = some (.reporting reporting) := by
  unfold World.intent at reported
  split at reported
  · split at reported
    · split at reported <;> cases reported
    · split at reported <;> cases reported
    · cases reported
  · cases reported
  · rename_i index answer cause
    split at reported
    · cases reported
    · cases reported
    · split at reported <;> cases reported
    · cases reported
    · rename_i facts at_
      cases reported
      exact ⟨index, facts, cause, at_⟩
    · cases reported
    · cases reported
  · cases reported
  · cases reported
  · cases reported

theorem World.committed_call {world : World} {event : Event} {spawned : Spawned}
    (committed : (world.intent event).committed = some spawned) :
    .spawned spawned ∈ world.calls := by
  obtain ⟨_, _, at_⟩ := world.committed_at committed
  exact mem_of_getElem? at_

/-- The calls that go on waiting while a section runs: all but the one it answers. -/
def World.waiting (world : World) (event : Event) : List Call :=
  match event.cause with
  | .advance index _ => world.calls.eraseIdx index
  | _ => world.calls

theorem World.waiting_sublist (world : World) (event : Event) :
    (world.waiting event).Sublist world.calls := by
  unfold World.waiting
  split
  · exact eraseIdx_sublist ..
  · exact .refl _

/-- What was read for a call that is under way after a section. -/
def Arises (platform : Platform) (limits : OrchestrationLimits) (before : World) (fresh : Nat) :
    Call → Prop
  | .createRun request => createRunCheck request limits before.inner = .ok ()
  | .planned plan => ∃ request, planStart request limits before.inner = .ok plan
  | .spawned spawned => .planned spawned.plan ∈ before.calls ∧
      World.fits spawned.plan spawned.materialized = true ∧ spawned.session = fresh
  | .reporting reporting => ∃ request, reportCheck request before.inner = .ok reporting
  | .delivering request targets => postCheck platform request before.inner = .ok targets
  | _ => True

/-- A section leaves an effect behind, and at most one call, which arises from what it read. -/
def Leads (platform : Platform) (limits : OrchestrationLimits) (before : World) (event : Event)
    (program : Handler (List Call)) : Prop :=
  program.Meets (before.meeting event).inner fun result after =>
    Effect limits event.now event.fresh (before.intent event) (before.meeting event).inner after ∧
      ∀ calls, result = .ok calls → calls.length ≤ 1 ∧
        ∀ call ∈ calls, Arises platform limits before event.fresh call

variable {platform : Platform} {limits : OrchestrationLimits} {before : World} {event : Event}

theorem Leads.of_does {α : Type} {program : Handler α} {next : α → List Call}
    (does : Does limits event.now event.fresh (before.intent event)
      (before.meeting event).inner program)
    (few : ∀ value, (next value).length ≤ 1)
    (arise : ∀ value, ∀ call ∈ next value, Arises platform limits before event.fresh call) :
    Leads platform limits before event (program >>= fun value => pure (next value)) := by
  refine Meets.bind does ?_ ?_
  · intro error after effect
    exact ⟨effect, fun _ impossible => by cases impossible⟩
  · intro value after effect
    refine Meets.pure ⟨effect, fun calls same => ?_⟩
    rw [← Except.ok.inj same]
    exact ⟨few value, arise value⟩

theorem Leads.of_check {α : Type} {look : Inner → Except ProtocolError α} {next : α → Call}
    (arise : ∀ value, look (before.meeting event).inner = .ok value →
      Arises platform limits before event.fresh (next value)) :
    Leads platform limits before event (Section.check look >>= fun value => pure [next value]) := by
  refine Meets.check_bind (fun error _ => ⟨.none, fun _ impossible => by cases impossible⟩) ?_
  intro value passed
  refine Meets.pure ⟨.none, fun calls same => ?_⟩
  rw [← Except.ok.inj same]
  exact ⟨le_rfl, fun call member => mem_singleton.mp member ▸ arise value passed⟩

theorem Leads.refused {error : ProtocolError} :
    Leads platform limits before event (Section.check fun _ => .error error) :=
  Meets.check ⟨.none, fun _ impossible => by cases impossible⟩

theorem Leads.give {call : Call} (arises : Arises platform limits before event.fresh call) :
    Leads platform limits before event (pure [call]) := by
  refine Meets.pure ⟨.none, fun calls same => ?_⟩
  rw [← Except.ok.inj same]
  exact ⟨le_rfl, fun other member => mem_singleton.mp member ▸ arises⟩

theorem Does.ignore {inner : Inner} {now : Timestamp} {fresh : Nat} {intent : Intent}
    {program : Handler PUnit} (does : Does limits now fresh intent inner program) :
    Does limits now fresh intent inner (Section.ignore program) :=
  Meets.ignore does

theorem World.Allows.unused (allowed : before.Allows event) :
    (∀ run ∈ before.inner.ledger.runs, run.id ≠ event.fresh) ∧
      (∀ task ∈ before.inner.ledger.tasks, task.id ≠ event.fresh ∧ task.runId ≠ event.fresh) ∧
      (∀ attempt ∈ before.inner.ledger.attempts, attempt.id ≠ event.fresh ∧
        attempt.taskId ≠ event.fresh ∧ attempt.sessionId ≠ some event.fresh) ∧
      before.inner.sessions.get? event.fresh = none := by
  obtain ⟨new, _⟩ := allowed
  simp only [World.names, mem_append, not_or, Store.mem_keys, not_exists, not_and,
    List.mem_map, mem_filterMap] at new
  obtain ⟨⟨⟨⟨⟨⟨⟨⟨⟨⟨⟨⟨⟨⟨⟨runs, _⟩, tasks⟩, attempts⟩, ofRun⟩, ofTask⟩, ofSession⟩, sessions⟩, _⟩, _⟩,
    _⟩, _⟩, _⟩, _⟩, _⟩, _⟩ := new
  exact ⟨runs, fun task member => ⟨tasks task member, ofRun task member⟩,
    fun attempt member => ⟨attempts attempt member, ofTask attempt member,
      ofSession attempt member⟩, Store.get?_eq_none.mpr sessions⟩

theorem World.Allows.up (allowed : before.Allows event)
    (running : ∀ persistHistory, event.cause ≠ .restart persistHistory) : before.up = true := by
  have permitted := allowed.2
  by_contra down
  cases cause : event.cause with
  | restart persistHistory => exact running persistHistory cause
  | _ => simp [cause, World.permits, down] at permitted

theorem World.unused_session (world : World) {session : SessionId}
    (new : world.names.contains session = false) : world.inner.sessions.get? session = none := by
  have out : session ∉ world.names := by simpa using new
  simp only [World.names, mem_append, not_or, Store.mem_keys, not_exists, not_and] at out
  exact Store.get?_eq_none.mpr out.1.1.1.1.1.1.1.1.2

theorem decideTask_leads {request : DecideTask}
    (cause : event.cause = .request (.decideTask request)) :
    Leads platform limits before event (decideTask platform limits request event.now) := by
  unfold decideTask
  split
  · rename_i note accept
    refine .of_does (acceptTask_does accept fun allowed => ?_) (by simp) (by simp)
    have intent : before.intent event =
        { Intent.none with accepted := some request.taskId } := by
      simp only [World.intent, cause, accept]
      exact if_pos allowed
    rw [intent]
  · rename_i feedback reject
    refine .of_does (rejectTask_does reject ?_) ?_ ?_
    · intro allowed attempt newest
      have intent : before.intent event = { Intent.none with
          reopened := (before.inner.ledger.newest request.taskId).toList } := by
        simp only [World.intent, cause, reject]
        exact if_pos allowed
      have same : before.inner.ledger.newest request.taskId = some attempt := newest
      rw [intent, same]
      exact mem_singleton.mpr rfl
    · rintro ⟨run, session⟩
      cases session <;> simp
    · intro value call member
      obtain ⟨session, _, rfl⟩ := List.mem_map.mp member
      trivial
  · rename_i feedback reject
    exact .of_does (retryTask_does reject) (by simp) (by simp [Arises])
  · rename_i kill cancel
    exact .of_does (cancelTask_does cancel) (by simp) (by simp)
  · exact .refused

theorem runRequest_leads (allowed : before.Allows event) {request : Request}
    (cause : event.cause = .request request) :
    Leads platform limits before event
      (runRequest platform limits request event.now event.fresh) := by
  have new := fun task member => (allowed.unused.2.1 task member).1
  cases request with
  | createRun request => exact .of_check fun _ passed => passed
  | updateBrief caller run brief expected => exact .of_does updateBrief_does (by simp) (by simp)
  | closeRun request => exact .of_check fun _ _ => trivial
  | resumeRun caller run => exact .of_does claimResume_does (by simp) (by simp [Arises])
  | createTask request => exact .of_does (createTask_does new) (by simp) (by simp)
  | runTask request start => exact .of_does (createTask_does new) (by simp) (by simp [Arises])
  | startAttempt request => exact .of_check fun plan checked => ⟨request, checked⟩
  | reportAttempt request => exact .of_check fun reporting checked => ⟨request, checked⟩
  | decideTask request => exact decideTask_leads cause
  | integrateTask request => exact .of_check fun _ _ => trivial
  | postMessage request => exact .of_check fun targets checked => checked
  | setState request =>
    exact .of_does (setState_does (by simp [World.intent, cause])) (by simp) (by simp)

theorem integrate_leads {integrating : Integrating} {answer : Answer} {index : Nat}
    (cause : event.cause = .advance index answer)
    (at_ : before.calls[index]? = some (.integrating integrating)) :
    Leads platform limits before event (integrate integrating answer event.now) := by
  unfold integrate
  split
  · rename_i head how
    refine .of_does (markIntegrated_does ?_) (by simp) (by simp [Arises])
    simp [World.intent, cause, at_, how]
  · exact .of_does setConflict_does (by simp) (by simp)
  · exact .give trivial
  · exact .of_check fun _ _ => trivial
  · exact .refused
  · exact .refused
  · exact .give trivial

theorem runCall_leads (allowed : before.Allows event) {call : Call} {answer : Answer} {index : Nat}
    (cause : event.cause = .advance index answer) (at_ : before.calls[index]? = some call)
    (awaited : World.awaits call answer = true) :
    Leads platform limits before event
      (runCall platform limits call answer event.now event.fresh) := by
  unfold runCall
  split
  · exact .of_does createRun_does (by simp) (by simp)
  · rename_i request
    exact .of_check fun plan checked => ⟨request, checked⟩
  · rename_i plan materialized
    refine .of_does (spawnWorker_does allowed.unused.2.2.2) (by simp) fun _ call member => ?_
    rw [mem_singleton.mp member]
    exact ⟨mem_of_getElem? at_, awaited, rfl⟩
  · refine .of_does (commitStart_does ?_) (by simp) (by simp)
    simp [World.intent, cause, at_]
  · refine .of_does (reportAttempt_does ?_) (by simp) (by simp)
    simp [World.intent, cause, at_]
  · exact .of_check fun targets checked => checked
  · refine .of_does (deliverMessage_does ?_) (by simp) (by simp)
    intro attempt member
    simp only [World.intent, cause, at_]
    exact member
  · exact .of_check fun _ _ => trivial
  · exact integrate_leads cause at_
  · refine .of_does (markIntegrated_does ?_) (by simp) (by simp [Arises])
    simp [World.intent, cause, at_]
  · exact .of_does setConflict_does (by simp) (by simp)
  · exact .of_does clearConflict_does (by simp) (by simp)
  · refine Meets.check_bind (fun _ _ => ⟨.none, fun _ impossible => by cases impossible⟩) fun _ _ =>
      ?_
    exact Leads.of_does closeRun_does (by simp) (by simp)
  · refine .of_check fun current _ => ?_
    cases current <;> trivial
  · exact .of_does (cancelTask_does rfl).ignore (by simp) (by simp [Arises])
  · refine .of_does (Does.ignore (resumeRun_does ?_)) (by simp) (by simp [Arises])
    simp [World.intent, cause, at_]
  · exact .give trivial
  · exact .give trivial
  · exact .of_does releaseClaim_does (by simp) (by simp)
  · exact .of_does noteSessionExit_does (by simp) (by simp)
  · exact .refused
  · -- No other answer is awaited by a call that remembers what it read.
    cases call <;> first
      | exact .give trivial
      | cases answer <;> simp_all [World.awaits] <;>
          (rename_i other; exact absurd rfl (other _ _ _ _ rfl rfl rfl))

/-- One step of the daemon, by what it did to the rows in memory. -/
inductive Transition (platform : Platform) (limits : OrchestrationLimits) (before : World)
    (event : Event) (after : World) : Prop where
  | acted (up : before.up = true) (effect : Effect limits event.now event.fresh (before.intent event)
        (before.meeting event).inner after.inner)
      (calls : List Call) (under : after.calls = before.waiting event ++ calls)
      (few : calls.length ≤ 1) (arise : ∀ call ∈ calls, Arises platform limits before event.fresh
        call)
  | reordered (runs : ∀ run, run ∈ after.inner.ledger.runs ↔ run ∈ before.inner.ledger.runs)
      (tasks : ∀ task, task ∈ after.inner.ledger.tasks ↔ task ∈ before.inner.ledger.tasks)
      (attempts : ∀ attempt, attempt ∈ after.inner.ledger.attempts ↔
        attempt ∈ before.inner.ledger.attempts)
      (board : ∀ entry, entry ∈ after.inner.ledger.board ↔ entry ∈ before.inner.ledger.board)
      (sessions : after.inner.sessions = before.inner.sessions)
      (stored : after.inner.db.tables = before.inner.db.tables) (calls : after.calls = before.calls)
  | restarted (persistHistory : Bool) (cause : event.cause = .restart persistHistory)
      (loaded : Loaded limits event.now before.inner.db.tables after.inner) (calls : after.calls = [])
  | down (ledger : after.inner.ledger = before.inner.ledger)
      (sessions : after.inner.sessions = before.inner.sessions) (calls : after.calls = [])
      (up : after.up = false)

theorem enter_acted {others : List Call} {program : Handler (List Call)}
    (up : before.up = true) (waiting : others = before.waiting event)
    (leads : Leads platform limits before event program) :
    Transition platform limits before event ((before.meeting event).enter others program) := by
  subst waiting
  unfold Leads Meets at leads
  unfold World.enter
  obtain ⟨effect, given⟩ := leads
  cases outcome : program.run (before.meeting event).inner with
  | mk result inner =>
    rw [outcome] at effect given
    cases result with
    | error error => exact .acted up effect [] (append_nil _).symm (by simp) (by simp)
    | ok calls =>
      obtain ⟨few, arise⟩ := given calls rfl
      exact .acted up effect calls rfl few arise

theorem mem_calls {after : World} {calls : List Call}
    (under : after.calls = before.waiting event ++ calls)
    (arise : ∀ call ∈ calls, Arises platform limits before event.fresh call) {call : Call}
    (member : call ∈ after.calls) :
    call ∈ before.calls ∨ Arises platform limits before event.fresh call := by
  rw [under] at member
  rcases mem_append.mp member with old | new
  · exact .inl ((before.waiting_sublist event).subset old)
  · exact .inr (arise call new)

theorem step_transition (allowed : before.Allows event) :
    Transition platform limits before event (before.step platform limits event) := by
  cases cause : event.cause with
  | request request =>
    simp only [World.step, cause]
    exact enter_acted (allowed.up (by simp [cause])) (by rw [World.waiting, cause]; rfl)
      (runRequest_leads allowed cause)
  | advance index answer =>
    have permitted := allowed.2
    simp only [cause, World.permits, Bool.and_eq_true, Option.any_eq_true] at permitted
    obtain ⟨_, call, at_, awaited⟩ := permitted
    have at' : (before.meeting event).calls[index]? = some call := at_
    simp only [World.step, cause, at']
    exact enter_acted (allowed.up (by simp [cause])) (by rw [World.waiting, cause]; rfl)
      (runCall_leads allowed cause at_ awaited)
  | addProject project =>
    simp only [World.step, cause]
    exact enter_acted (allowed.up (by simp [cause])) (by rw [World.waiting, cause]; rfl)
      (.of_does addProject_does (by simp) (by simp))
  | addWorkspace workspace =>
    simp only [World.step, cause]
    exact enter_acted (allowed.up (by simp [cause])) (by rw [World.waiting, cause]; rfl)
      (.of_does addWorkspace_does (by simp) (by simp))
  | addSession session =>
    have permitted := allowed.2
    simp only [cause, World.permits, Bool.and_eq_true, Bool.not_eq_true', bne_iff_ne,
      ne_eq] at permitted
    simp only [World.step, cause]
    exact enter_acted (allowed.up (by simp [cause])) (by rw [World.waiting, cause]; rfl) (.of_does
      (addSession_does (before.unused_session permitted.1.2) permitted.2) (by simp) (by simp))
  | moveSession session state =>
    have permitted := allowed.2
    simp only [cause, World.permits, Bool.and_eq_true, bne_iff_ne, ne_eq] at permitted
    simp only [World.step, cause]
    refine enter_acted (allowed.up (by simp [cause])) (by rw [World.waiting, cause]; rfl)
      (.of_does (moveSession_does permitted.2 ?_) ?_ ?_)
    · rintro rfl
      simp [World.intent, cause]
    · intro _
      unfold exitNotice
      split <;> simp
    · intro _ call member
      unfold exitNotice at member
      split at member
      · rw [mem_singleton.mp member]
        trivial
      · cases member
  | removeSession session =>
    simp only [World.step, cause]
    exact enter_acted (allowed.up (by simp [cause])) (by rw [World.waiting, cause]; rfl)
      (.of_does deleteSession_does (by simp) (by simp))
  | removeWorkspace workspace =>
    simp only [World.step, cause]
    exact enter_acted (allowed.up (by simp [cause])) (by rw [World.waiting, cause]; rfl)
      (.of_does dropWorkspace_does (by simp) (by simp))
  | removeProject project =>
    simp only [World.step, cause]
    exact enter_acted (allowed.up (by simp [cause])) (by rw [World.waiting, cause]; rfl)
      (.of_does (removeProject_does (by simp [World.intent, cause])) (by simp) (by simp))
  | reorder runs tasks attempts board =>
    have permitted := allowed.2
    simp only [cause, World.permits, Bool.and_eq_true, decide_eq_true_eq] at permitted
    obtain ⟨⟨⟨⟨_, sameRuns⟩, sameTasks⟩, sameAttempts⟩, sameBoard⟩ := permitted
    simp only [World.step, cause]
    exact .reordered (fun _ => sameRuns.mem) (fun _ => sameTasks.mem) (fun _ => sameAttempts.mem)
      (fun _ => sameBoard.mem) rfl
      rfl rfl
  | restart persistHistory =>
    have meets : (loadDaemon limits persistHistory event.now).Meets (before.meeting event).inner _ :=
      loadDaemon_meets
    unfold Meets at meets
    simp only [World.step, cause]
    cases outcome : (loadDaemon limits persistHistory event.now).run (before.meeting event).inner with
    | mk result inner =>
      rw [outcome] at meets
      cases result with
      | ok value => exact .restarted persistHistory cause meets rfl
      | error error => exact .down meets.1 meets.2 rfl rfl

end ForgeNode.Orchestration
