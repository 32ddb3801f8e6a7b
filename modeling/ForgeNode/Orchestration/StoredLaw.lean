import ForgeNode.Orchestration.Nesting
import ForgeNode.Orchestration.Reloading

/-! What is stored is what is in memory, from a start of the daemon on and for as long as no write
fails. -/

namespace ForgeNode.Orchestration

open List Store
open Section (Meets Preserves)

section Step

variable {platform : Platform} {limits : OrchestrationLimits} {now : Timestamp} {fresh : Nat}
  {count : Nat} {inner : Inner}
  {before : World} {event : Event}

theorem decideTask_mirrored {request : DecideTask} :
    Preserves (Mirrored count) (decideTask platform limits request now) := by
  unfold decideTask
  split
  · exact .bind acceptTask_mirrored fun _ => .pure
  · exact .bind rejectTask_mirrored fun _ => .pure
  · exact .bind retryTask_mirrored fun _ => .pure
  · exact .bind cancelTask_mirrored fun _ => .pure
  · exact .check

theorem claimResume_mirrored {caller : Option SessionId} {run : RunId} :
    Preserves (Mirrored count) (claimResume caller run) :=
  .bind .check fun _ => .bind (mirrored_onLedger fun _ => rfl) fun _ => .pure

theorem runRequest_mirrored {request : Request} :
    Preserves (Mirrored count) (runRequest platform limits request now fresh) := by
  cases request with
  | createRun request => exact .bind .check fun _ => .pure
  | updateBrief caller run brief expected => exact .bind updateBrief_mirrored fun _ => .pure
  | closeRun request => exact .bind .check fun _ => .pure
  | resumeRun caller run => exact .bind claimResume_mirrored fun _ => .pure
  | createTask | runTask => exact .bind createTask_mirrored fun _ => .pure
  | startAttempt | reportAttempt => exact .bind .check fun _ => .pure
  | decideTask request => exact decideTask_mirrored
  | integrateTask | postMessage => exact .bind .check fun _ => .pure
  | setState request => exact .bind setState_mirrored fun _ => .pure

theorem integrate_mirrored {integrating : Integrating} {answer : Answer} :
    Preserves (Mirrored count) (integrate integrating answer now) := by
  unfold integrate
  split
  · exact .bind markIntegrated_mirrored fun _ => .pure
  · exact .bind (mirrored_onLedger fun _ => rfl) fun _ => .pure
  · exact .pure
  · exact .bind .check fun _ => .pure
  · exact .check
  · exact .check
  · exact .pure

/-- A report is of an attempt whose task is there. -/
def Reporting.FindsTask (reporting : Reporting) (inner : Inner) : Prop :=
  ∀ attempt, settleCheck reporting inner = .ok attempt →
    ∃ task, inner.ledger.tasks.get? reporting.taskId = some task

theorem runCall_mirrored {call : Call} {answer : Answer}
    (finds : ∀ reporting, call = .reporting reporting → reporting.FindsTask inner)
    (kept : Mirrored count inner) : (runCall platform limits call answer now fresh).Meets inner
    fun _ after => Mirrored count after := by
  have keeps {program : Handler (List Call)} (preserves : Preserves (Mirrored count) program) :
      program.Meets inner fun _ after => Mirrored count after := preserves inner kept
  unfold runCall
  split
  · exact keeps (.bind createRun_mirrored fun _ => .pure)
  · exact keeps (.bind .check fun _ => .pure)
  · exact keeps (.bind spawnWorker_mirrored fun _ => .pure)
  · exact keeps (.bind commitStart_mirrored fun _ => .pure)
  · exact (reportAttempt_mirrored (finds _ rfl) kept).bind (fun _ _ kept => kept) fun _ _ kept =>
      Meets.pure kept
  · exact keeps (.bind .check fun _ => .pure)
  · exact keeps (.bind deliverMessage_mirrored fun _ => .pure)
  · exact keeps (.bind .check fun _ => .pure)
  · exact keeps integrate_mirrored
  · exact keeps (.bind markIntegrated_mirrored fun _ => .pure)
  · exact keeps (.bind (mirrored_onLedger fun _ => rfl) fun _ => .pure)
  · exact keeps (.bind (mirrored_onLedger fun _ => rfl) fun _ => .pure)
  · exact keeps (.bind .check fun _ => .bind closeRun_mirrored fun _ => .pure)
  · exact keeps (.bind .check fun _ => .pure)
  · exact keeps (.bind (.ignore cancelTask_mirrored) fun _ => .pure)
  · exact keeps (.bind (.ignore resumeRun_mirrored) fun _ => .pure)
  · exact keeps .pure
  · exact keeps .pure
  · exact keeps (.bind (mirrored_onLedger fun _ => rfl) fun _ => .pure)
  · exact keeps (.bind noteSessionExit_mirrored fun _ => .pure)
  · exact keeps .check
  · exact keeps .pure

theorem reordered_books {ledger after : Ledger} (runs : ∀ run, run ∈ after.runs ↔ run ∈ ledger.runs)
    (tasks : ∀ task, task ∈ after.tasks ↔ task ∈ ledger.tasks)
    (attempts : ∀ attempt, attempt ∈ after.attempts ↔ attempt ∈ ledger.attempts) :
    after.books = ledger.books := by
  have same {Row : Type} {key : Row → Nat} {first second : Store key} (rows : ∀ row, row ∈ second ↔
      row ∈ first) (id : Nat) : second.get? id = first.get? id := by
    refine Option.ext fun row => ?_
    rw [get?_eq_some, get?_eq_some, rows]
  refine Books.ext ?_ ?_ ?_ <;> funext id
  · exact congrArg (Option.map _) (same runs id)
  · exact congrArg (Option.map _) (same tasks id)
  · exact congrArg (Option.map _) (same attempts id)

/-- Every event but a restart keeps what is stored as it is in memory, for as long as no write
fails. -/
theorem step_mirrored (allowed : before.Allows event)
    (stays : ∀ persistHistory, event.cause ≠ .restart persistHistory)
    (finds : ∀ reporting, .reporting reporting ∈ before.calls → reporting.FindsTask before.inner)
    (kept : Mirrored count before.inner) : Mirrored count
    (before.step platform limits event).inner := by
  have met : Mirrored count (before.meeting event).inner := kept
  have keeps {others : List Call} {program : Handler (List Call)}
      (preserves : Preserves (Mirrored count) program) : Mirrored count
      ((before.meeting event).enter others program).inner := enter_meets (preserves _ met)
  cases cause : event.cause with
  | request request =>
    simp only [World.step, cause]
    exact keeps runRequest_mirrored
  | advance index answer =>
    simp only [World.step, cause]
    split
    · exact met
    · rename_i call at_
      refine enter_meets (runCall_mirrored ?_ met)
      rintro reporting rfl
      exact finds reporting (mem_of_getElem? at_)
  | addProject project =>
    simp only [World.step, cause]
    exact keeps (.bind addProject_mirrored fun _ => .pure)
  | addWorkspace workspace =>
    simp only [World.step, cause]
    exact keeps (.bind addWorkspace_mirrored fun _ => .pure)
  | addSession session =>
    simp only [World.step, cause]
    exact keeps (.bind addSession_mirrored fun _ => .pure)
  | moveSession session state =>
    simp only [World.step, cause]
    exact keeps (.bind moveSession_mirrored fun _ => .pure)
  | removeSession session =>
    simp only [World.step, cause]
    exact keeps (.bind deleteSession_mirrored fun _ => .pure)
  | removeWorkspace workspace =>
    simp only [World.step, cause]
    exact keeps (.bind dropWorkspace_mirrored fun _ => .pure)
  | removeProject project =>
    simp only [World.step, cause]
    exact keeps (.bind removeProject_mirrored fun _ => .pure)
  | reorder runs tasks attempts board =>
    have permitted := allowed.2
    simp only [cause, World.permits, Bool.and_eq_true, decide_eq_true_eq] at permitted
    obtain ⟨⟨⟨⟨_, runs_⟩, tasks_⟩, attempts_⟩, _⟩ := permitted
    simp only [World.step, cause]
    exact met.same_books rfl (reordered_books (fun _ => runs_.mem) (fun _ => tasks_.mem) fun _ =>
      attempts_.mem)
  | restart persistHistory => exact absurd cause (stays persistHistory)

end Step

/-- Each attempt is of the task it was of, or is new. -/
def AttemptsFrom (fresh : Nat) (before after : Store Attempt.id) : Prop := ∀ attempt ∈ after,
  (∃ old ∈ before, old.id = attempt.id ∧ old.taskId = attempt.taskId) ∨ attempt.id = fresh

namespace AttemptsFrom

variable {fresh : Nat} {before middle after : Store Attempt.id}

theorem refl (attempts : Store Attempt.id) : AttemptsFrom fresh attempts attempts :=
  fun attempt member => .inl ⟨attempt, member, rfl, rfl⟩

theorem trans (first : AttemptsFrom fresh before middle)
    (second : AttemptsFrom fresh middle after) : AttemptsFrom fresh before after := by
  intro attempt member
  rcases second attempt member with ⟨row, there, named, task⟩ | new
  · rcases first row there with ⟨old, held, named', task'⟩ | new
    · exact .inl ⟨old, held, named'.trans named, task'.trans task⟩
    · exact .inr (named.symm.trans new)
  · exact .inr new

theorem of_rewritten {change : Attempt → Attempt → Prop}
    (rewritten : Store.Rewritten change before after) (keeps : ∀ old attempt, change old attempt →
      attempt.taskId = old.taskId) : AttemptsFrom fresh before after := by
  intro attempt member
  obtain ⟨old, there, named, changed⟩ := rewritten.back attempt member
  exact .inl ⟨old, there, named, (keeps old attempt changed).symm⟩

theorem of_modify {id : AttemptId} {update : Attempt → Attempt}
    {keeps : ∀ attempt, (update attempt).id = attempt.id}
    (same : ∀ attempt, (update attempt).taskId = attempt.taskId) :
    AttemptsFrom fresh before (before.modify id update keeps) := by
  refine of_rewritten .modified ?_
  rintro old attempt (⟨_, rfl⟩ | ⟨_, rfl⟩)
  · exact same old
  · rfl

end AttemptsFrom

section Effects

variable {limits : OrchestrationLimits} {now : Timestamp} {fresh : Nat} {intent : Intent}
  {dropped : Option ProjectId} {inner after : Inner}

theorem Removal.attemptsFrom (removal : Removal dropped inner after) :
    AttemptsFrom fresh inner.ledger.attempts after.ledger.attempts := by
  cases removal with
  | still left =>
    rw [left.attempts]
    exact .refl _
  | session session now ledger =>
    rw [ledger]
    intro attempt member
    obtain ⟨old, there, rfl⟩ := Ledger.attempts_forgetSession.mp member
    refine .inl ⟨old, there, ?_, ?_⟩ <;> unfold Attempt.forgetSession <;> split
      <;> [split; skip; split; skip] <;> rfl
  | workspace workspace ledger =>
    rw [ledger]
    intro attempt member
    obtain ⟨old, there, rfl⟩ := Ledger.attempts_forgetWorkspace.mp member
    obtain ⟨continues, _⟩ := @Attempt.forgetWorkspace_continues workspace old
    exact .inl ⟨old, there, continues.id.symm, continues.taskId.symm⟩
  | project project intended ledger =>
    rw [ledger]
    exact fun attempt member => .inl ⟨attempt, (Store.mem_retain.mp member).1, rfl, rfl⟩

theorem Removal.attemptsFrom_chain (chain : Relation.ReflTransGen (Removal dropped) inner after) :
    AttemptsFrom fresh inner.ledger.attempts after.ledger.attempts := by
  induction chain with
  | refl => exact .refl _
  | tail _ removal ih => exact ih.trans removal.attemptsFrom

theorem Effect.attemptsFrom (effect : Effect limits now fresh intent inner after) :
    AttemptsFrom fresh inner.ledger.attempts after.ledger.attempts := by
  have still {runs tasks} (left : Leaves inner after runs tasks inner.ledger.attempts) :
      AttemptsFrom fresh inner.ledger.attempts after.ledger.attempts := by
    rw [left.attempts]
    exact .refl _
  cases effect with
  | still left | opened _ _ _ left | briefed _ _ left | closed _ _ left | resumed _ _ _ left
  | created _ _ _ _ _ left | stranded _ _ _ _ _ left | accepted _ _ _ _ _ _ left
  | exhausted _ _ _ left => exact still left
  | started spawned task may same committed session passed left =>
    rw [left.attempts]
    intro attempt member
    rcases mem_put.mp member with rfl | ⟨there, _⟩
    · exact .inr rfl
    · exact .inl ⟨attempt, there, rfl, rfl⟩
  | reported _ _ _ _ _ _ _ _ left | reopened _ _ _ _ _ _ _ _ left | exited _ _ _ _ _ left =>
    rw [left.attempts]
    exact .of_modify fun _ => rfl
  | retried feedback task found status attempts rejected left =>
    rw [left.attempts]
    rcases rejected with ⟨_, rfl⟩ | ⟨attempt, _, rfl⟩
    · exact .refl _
    · exact .of_modify fun _ => rfl
  | cancelled task found status left =>
    rw [left.attempts]
    intro attempt member
    obtain ⟨old, there, rfl⟩ := Ledger.mem_cancelAttempts.mp member
    refine .inl ⟨old, there, ?_, ?_⟩ <;> split <;> rfl
  | integrated commit task found intended tasks promoted attempts marked left =>
    rw [left.attempts]
    refine .of_rewritten marked ?_
    rintro old attempt (rfl | rfl) <;> rfl
  | answered done intended tasks turned attempts back left =>
    rw [left.attempts]
    refine .of_rewritten back ?_
    rintro old attempt ⟨handed, kept⟩
    by_cases there : old ∈ done
    · rw [handed there]
      rfl
    · rw [kept there]
  | removed chain => exact Removal.attemptsFrom_chain chain
  | posted _ _ _ _ _ ledger | joined _ _ _ ledger | moved _ _ _ _ _ _ ledger =>
    rw [ledger]
    exact .refl _

end Effects

/-- A report under way is of the task that its attempt is of. -/
def Filed (world : World) : Prop := ∀ reporting, .reporting reporting ∈ world.calls →
  ∀ attempt ∈ world.inner.ledger.attempts, attempt.id = reporting.request.attemptId →
    attempt.taskId = reporting.taskId

section Step

variable {platform : Platform} {limits : OrchestrationLimits} {before : World} {event : Event}

theorem World.Allows.unreported (allowed : before.Allows event) {reporting : Reporting}
    (there : .reporting reporting ∈ before.calls) : reporting.request.attemptId ≠ event.fresh := by
  intro same
  refine allowed.1 (mem_append_right _ (mem_flatMap.mpr ⟨_, there, ?_⟩))
  exact same ▸ mem_cons_self

theorem Filed.step (filed : Filed before) (allowed : before.Allows event) :
    Filed (before.step platform limits event) := by
  have transition : Transition platform limits before event _ := step_transition allowed
  intro reporting there attempt member named
  cases transition with
  | acted up effect calls under few arise =>
    rcases mem_calls under arise there with old | ⟨request, passed⟩
    · rcases effect.attemptsFrom attempt member with ⟨row, held, same, task⟩ | new
      · rw [← task]
        exact filed reporting old row held (same.trans named)
      · exact absurd (named.symm.trans new) (allowed.unreported old)
    · simp only [reportCheck, bind_eq_ok, found_eq_ok, pure_eq_ok] at passed
      obtain ⟨_, _, current, found, _, _, task, held, rfl⟩ := passed
      have known := mem_of_get? found
      rcases effect.attemptsFrom attempt member with ⟨row, earlier, same, task'⟩ | new
      · obtain rfl : row = current :=
          eq_of_key earlier known ((same.trans named).trans (key_of_get? found).symm)
        exact task'.symm.trans (key_of_get? held).symm
      · exact absurd ((key_of_get? found).trans (named.symm.trans new))
          (allowed.unused.2.2.1 current known).1
  | reordered _ _ attempts _ _ _ calls =>
    exact filed reporting (calls ▸ there) attempt ((attempts attempt).mp member) named
  | restarted _ _ _ calls | down _ _ calls =>
    rw [calls] at there
    cases there

end Step

section Bound

variable {platform : Platform} {limits : OrchestrationLimits} {before : World} {event : Event}

/-- Every write of the step succeeds. -/
def WritesSucceed (taken : Taken World Event) : Prop :=
  taken.after.inner.db.failures = taken.before.inner.db.failures

instance (taken : Taken World Event) : Decidable (WritesSucceed taken) :=
  inferInstanceAs (Decidable (_ = _))

/-- Every row in memory and every stored row belongs to one that is there, and a report under way to
its attempt's task. -/
structure Bound (world : World) : Prop where
  rooted : Rooted world.inner.links (fun _ => False) world.inner
  one : world.inner.links.One
  filed : Filed world

theorem Bound.finds (bound : Bound before) {reporting : Reporting}
    (there : .reporting reporting ∈ before.calls) :
    reporting.FindsTask before.inner := by
  intro _ settled
  simp only [settleCheck, bind_eq_ok, found_eq_ok, pure_eq_ok] at settled
  obtain ⟨attempt, found, _, _, rfl⟩ := settled
  have member := mem_of_get? found
  obtain ⟨task, held, named⟩ := (bound.rooted.memory.attempts attempt member).2
  have of_ := bound.filed reporting there attempt member (key_of_get? found)
  exact ⟨task, get?_eq_some.mpr ⟨held, named.trans of_⟩⟩

theorem Bound.step_restart (bound : Bound before) {persistHistory : Bool}
    (cause : event.cause = .restart persistHistory) :
    Bound (before.step platform limits event) := by
  have loads := @loadDaemon_stems _ _ limits event.now persistHistory (before.meeting event).inner
    bound.rooted.stored
  have filed : Filed (before.step platform limits event) := by
    simp only [World.step, cause]
    exact fun _ there => absurd there not_mem_nil
  unfold Meets at loads
  obtain ⟨stems, after⟩ := loads
  have rooted : Rooted (before.step platform limits event).inner.links (fun _ => False)
      (before.step platform limits event).inner ∧
      (before.step platform limits event).inner.links.One := by
    simp only [World.step, cause]
    cases outcome : ((loadDaemon limits persistHistory event.now).run
      (before.meeting event).inner).1 with
    | ok done =>
      rw [outcome] at after
      exact ⟨Shows.rooted after stems, one_of_below bound.one (Shows.below after stems)⟩
    | error error =>
      rw [outcome] at after
      have ledger : _ = before.inner.ledger := after
      have still : Rooted before.inner.links (fun _ => False)
          ((loadDaemon limits persistHistory event.now).run (before.meeting event).inner).2 :=
        ⟨ledger ▸ bound.rooted.memory, by rw [ledger]; exact stems⟩
      exact ⟨still.self bound.one, one_of_below bound.one still.below⟩
  exact ⟨rooted.1, rooted.2, filed⟩

theorem Bound.step (bound : Bound before) (allowed : before.Allows event) :
    Bound (before.step platform limits event) := by
  by_cases restarts : ∃ persistHistory, event.cause = .restart persistHistory
  · obtain ⟨persistHistory, cause⟩ := restarts
    exact bound.step_restart cause
  have stays : ∀ persistHistory, event.cause ≠ .restart persistHistory :=
    fun persistHistory cause => restarts ⟨persistHistory, cause⟩
  have one := one_or_draws bound.one allowed.unsaid.1
  have grown : Rooted (before.inner.links.or (before.draws event)) (fun _ => False) before.inner :=
    bound.rooted.grow.weaken fun _ never => never.elim
  have rooted : Rooted _ (fun _ => False) (before.step platform limits event).inner :=
    step_rooted allowed one (fun never => never) (fun _ _ _ => .inr) (fun _ _ _ => .inr)
    (fun _ _ _ _ => .inr) grown stays
  exact ⟨rooted.self one, one_of_below one rooted.below, bound.filed.step allowed⟩

theorem Bound.initial : Bound (World.initial limits) where
  rooted := (Nested.initial : Nested limits _).rooted.weaken fun _ never => never.elim
  one := (Nested.initial : Nested limits _).one
  filed := fun _ there => absurd there not_mem_nil

/-- While the daemon is up, the runs, tasks and attempts that are stored are those in memory. -/
def World.Stores (world : World) : Prop :=
  world.up = true → world.inner.db.tables.books = world.inner.ledger.books

theorem stores_of_restart {persistHistory : Bool} (cause : event.cause = .restart persistHistory) :
    (before.step platform limits event).Stores := by
  intro up
  have loads := @loadDaemon_books limits event.now persistHistory (before.meeting event).inner
  unfold Meets at loads
  simp only [World.step, cause] at up ⊢
  cases outcome : ((loadDaemon limits persistHistory event.now).run
    (before.meeting event).inner).1 with
  | ok done =>
    rw [outcome] at loads
    exact loads
  | error error =>
    rw [outcome] at up
    cases up

theorem World.Stores.step (stores : before.Stores) (bound : Bound before)
    (allowed : before.Allows event)
    (saved : WritesSucceed ⟨before, event, before.step platform limits event⟩) :
    (before.step platform limits event).Stores := by
  by_cases restarts : ∃ persistHistory, event.cause = .restart persistHistory
  · obtain ⟨persistHistory, cause⟩ := restarts
    exact stores_of_restart cause
  have stays : ∀ persistHistory, event.cause ≠ .restart persistHistory :=
    fun persistHistory cause => restarts ⟨persistHistory, cause⟩
  have mirrored : Mirrored before.inner.db.failures (before.step platform limits event).inner :=
    step_mirrored allowed stays (fun _ there => bound.finds there) ⟨le_rfl, fun _ =>
    stores (allowed.up stays)⟩
  exact fun _ => mirrored.2 saved

theorem bound_of_run {steps : List (Taken World Event)} {last : World}
    (run : ForgeNode.Run (World.Step platform limits) (World.initial limits) steps last) :
    Bound last := by
  refine (run.invariant Bound ?_ .initial).1
  rintro before event after ⟨allowed, rfl⟩ bound
  exact bound.step allowed

/-- Every row belongs to one that is there, and rows of one id, in memory and stored, to the
same. -/
structure Founded (ledger : Ledger) (tables : Tables) : Prop where
  tasks : ∀ task ∈ ledger.tasks, ∃ run ∈ ledger.runs, run.id = task.runId
  attempts : ∀ attempt ∈ ledger.attempts, ∃ task ∈ ledger.tasks, task.id = attempt.taskId
  storedRuns : ∀ row ∈ tables.runs, ∃ run ∈ ledger.runs, run.id = row.id ∧ run.projectId =
    row.projectId ∧ (row.parentAttemptId = none ∨ row.parentAttemptId = run.parentAttemptId)
  storedTasks : ∀ row ∈ tables.tasks, (∃ run ∈ tables.runs, run.id = row.runId) ∧
    ∀ task ∈ ledger.tasks, task.id = row.id → task.runId = row.runId
  storedAttempts : ∀ row ∈ tables.attempts, (∃ task ∈ tables.tasks, task.id = row.taskId) ∧
    ∀ attempt ∈ ledger.attempts, attempt.id = row.id → attempt.taskId = row.taskId ∧ attempt.n = row.n

theorem Bound.founded (bound : Bound before) :
    Founded before.inner.ledger before.inner.db.tables where
  tasks := fun task member => (bound.rooted.memory.tasks task member).2
  attempts := fun attempt member => (bound.rooted.memory.attempts attempt member).2
  storedRuns := by
    intro row member
    obtain ⟨⟨run, there, named⟩, ⟨parent, said⟩, kept⟩ := bound.rooted.stored.runs row member
    have said_ : before.inner.links.run row.id run.projectId run.parentAttemptId :=
      ⟨run, there, named, rfl, rfl⟩
    refine ⟨run, there, named, (bound.one.run said_ said).1, ?_⟩
    rcases kept with none_ | ⟨project, said'⟩
    · exact .inl none_
    · exact .inr (bound.one.run said' said_).2
  storedTasks := by
    intro row member
    obtain ⟨said, owner⟩ := bound.rooted.stored.tasks row member
    refine ⟨owner, fun task there named => ?_⟩
    exact (bound.one.task (.inl ⟨task, there, named, rfl, rfl⟩) said).1
  storedAttempts := by
    intro row member
    obtain ⟨said, owner, _⟩ := bound.rooted.stored.attempts row member
    refine ⟨owner, fun attempt there named => ?_⟩
    obtain ⟨task, n, _⟩ := bound.one.attempt (.inl ⟨attempt, there, named, rfl, rfl, rfl⟩) said
    exact ⟨task, n⟩

/-- Whatever is lost on the way, no row of a state of a run is left without the one it belongs
to. -/
theorem rows_founded {steps : List (Taken World Event)} {last : World}
    (run : ForgeNode.Run (World.Step platform limits) (World.initial limits) steps last) :
    Founded last.inner.ledger last.inner.db.tables :=
  (bound_of_run run).founded

/-- From a start on, what is stored is what is in memory, for as long as no write fails. -/
theorem stored_as_in_memory {front back : List (Taken World Event)} {last : World}
    (run : ForgeNode.Run (World.Step platform limits) (World.initial limits) (front ++ back) last)
    (start : ∀ taken ∈ front.getLast?, taken.event.cause.isRestart = true)
    (saved : ∀ taken ∈ back, WritesSucceed taken) : last.Stores := by
  obtain ⟨middle, first, second⟩ := run.split
  have begun : middle.Stores := by
    rcases eq_nil_or_concat' front with rfl | ⟨earlier, ⟨before, event, after⟩, rfl⟩
    · cases first
      exact fun _ => rfl
    · have restarts := start _ getLast?_concat
      obtain ⟨_, _, one⟩ := first.split
      cases one with
      | cons taken rest =>
        cases rest
        obtain ⟨_, rfl⟩ := taken
        cases cause : event.cause with
        | restart persistHistory => exact stores_of_restart cause
        | _ => simp [cause, Cause.isRestart] at restarts
  refine ((second.within WritesSucceed saved).invariant (fun world => Bound world ∧ world.Stores) ?_
    ⟨bound_of_run first, begun⟩).1.2
  rintro before event after ⟨⟨allowed, rfl⟩, saved⟩ ⟨bound, stores⟩
  exact ⟨bound.step allowed, stores.step bound allowed saved⟩

/-- A report whose write fails, a start of the daemon after it, and a task that is cancelled
then. -/
def lostReport : List Event :=
  (numbered 100 (opening ++ [newTask .write []] ++ startTask 104 ++ reportFrom 106 107 .done)).map
    (fun event => if event.fresh = 109 then { event with faults := [true] } else event) ++
    [⟨.restart true, 0, 110, []⟩, ⟨decideOn 104 2 (.cancel false), 0, 111, []⟩]

theorem rows_founded_lostReport :
    Founded ((World.initial .default).replay plain .default lostReport).inner.ledger
      ((World.initial .default).replay plain .default lostReport).inner.db.tables :=
  rows_founded (World.run_of_admits plain .default (by decide +kernel))

theorem stored_as_in_memory_lostReport :
    ((World.initial .default).replay plain .default lostReport).up = true ∧
    ((World.initial .default).replay plain .default lostReport).Stores := by
  have run := World.run_of_admits plain .default
    (show (World.initial .default).admits plain .default lostReport = true by decide +kernel)
  rw [← take_append_drop 11 ((World.initial .default).trace plain .default lostReport)] at run
  exact ⟨by decide +kernel, stored_as_in_memory run (by decide +kernel) (by decide +kernel)⟩

end Bound

end ForgeNode.Orchestration
