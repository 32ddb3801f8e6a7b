import ForgeNode.Orchestration.StoredLaw

/-! The attempts of a task, in every interleaving whose writes succeed: numbered one by one, the
newest live at most, and the task `Active` exactly while it is, unless it is integrated at work. -/

namespace ForgeNode.Orchestration

open Store

open Section (Meets Preserves)

/-- What a task and its attempts say of each other. -/
structure TaskCoherent (limits : OrchestrationLimits) (ledger : Ledger) (task : Task) : Prop where
  numbered : ((ledger.attemptsOf task.id).map (·.n)).Perm (List.range' 1 task.attemptsUsed)
  budget : task.attemptsUsed ≤ limits.maxAttemptsPerTask
  one : ∀ attempt ∈ ledger.attemptsOf task.id, attempt.isLive = true →
    ∀ other ∈ ledger.attemptsOf task.id, other.isLive = true → other = attempt
  newest : ∀ attempt ∈ ledger.attemptsOf task.id, attempt.isLive = true →
    ∀ other ∈ ledger.attemptsOf task.id, other.n ≤ attempt.n
  active : task.status = .active ↔ ∃ attempt ∈ ledger.attemptsOf task.id, attempt.isLive = true

/-- No task is integrated while it is at work. -/
def IntegratesRested (taken : Taken World Event) : Prop := ∀ task ∈ taken.before.inner.ledger.tasks,
  (taken.before.intent taken.event).integrated = some task.id → task.status ≠ .active

instance (taken : Taken World Event) : Decidable (IntegratesRested taken) :=
  inferInstanceAs (Decidable (∀ task ∈ taken.before.inner.ledger.tasks, _ → _))

/-- What is stored and what is in memory are coherent, and the same while the daemon is up. -/
structure Booked (limits : OrchestrationLimits) (world : World) : Prop where
  memory : Coherent limits.maxAttemptsPerTask world.inner.ledger.books
  stored : Coherent limits.maxAttemptsPerTask world.inner.db.tables.books
  stores : world.Stores
  bound : Bound world

section Law

variable {platform : Platform} {limits : OrchestrationLimits} {before : World} {event : Event}
  {ledger : Ledger}

theorem Coherent.newest_of (coherent : Coherent limits.maxAttemptsPerTask ledger.books)
    {id : TaskId} {attempt : Attempt} (there : attempt ∈ ledger.attemptsOf id)
    (live : attempt.isLive = true) : ∀ other ∈ ledger.attemptsOf id, other.n ≤ attempt.n := by
  intro other listed
  obtain ⟨held, of_⟩ := Ledger.mem_attemptsOf.mp there
  obtain ⟨held', of'⟩ := Ledger.mem_attemptsOf.mp listed
  exact coherent.newest held (live_open live) other held' (of'.trans of_.symm)

theorem Coherent.number_inj (coherent : Coherent limits.maxAttemptsPerTask ledger.books)
    {id : TaskId} {attempt other : Attempt} (there : attempt ∈ ledger.attemptsOf id)
    (there' : other ∈ ledger.attemptsOf id) (same : attempt.n = other.n) : attempt = other := by
  obtain ⟨held, of_⟩ := Ledger.mem_attemptsOf.mp there
  obtain ⟨held', of'⟩ := Ledger.mem_attemptsOf.mp there'
  exact coherent.same_attempt held held' (of_.trans of'.symm) same

theorem Coherent.numbers (coherent : Coherent limits.maxAttemptsPerTask ledger.books) {task : Task}
    (member : task ∈ ledger.tasks) :
    ((ledger.attemptsOf task.id).map (·.n)).Perm (List.range' 1 task.attemptsUsed) := by
  have distinct : ((ledger.attemptsOf task.id).map (·.n)).Nodup :=
    List.Nodup.map_on (fun attempt there other there' same => coherent.number_inj there there' same)
      ((List.Nodup.of_map _ ledger.attempts.distinct).filter _)
  refine (List.perm_ext_iff_of_nodup distinct List.nodup_range').mpr fun n => ?_
  have counted := coherent.counted member n
  simp only [List.mem_map, List.mem_range'_1, Ledger.mem_attemptsOf]
  constructor
  · rintro ⟨attempt, ⟨there, of_⟩, number⟩
    have within := counted.mpr ⟨attempt, there, of_, number⟩
    omega
  · intro within
    obtain ⟨attempt, there, of_, number⟩ := counted.mp (by omega)
    exact ⟨attempt, ⟨there, of_⟩, number⟩

theorem Coherent.task (coherent : Coherent limits.maxAttemptsPerTask ledger.books) {task : Task}
    (member : task ∈ ledger.tasks) : TaskCoherent limits ledger task where
  numbered := coherent.numbers member
  budget := coherent.within member
  one := by
    intro attempt there live other there' live'
    have least := coherent.newest_of there live other there'
    have most := coherent.newest_of there' live' attempt there
    exact coherent.number_inj there' there (Nat.le_antisymm least most)
  newest := fun _ there live => coherent.newest_of there live
  active := by
    rw [coherent.active_iff member]
    simp only [Ledger.mem_attemptsOf, and_assoc]

theorem Booked.step_restart (booked : Booked limits before) (allowed : before.Allows event)
    {persistHistory : Bool} (cause : event.cause = .restart persistHistory)
    (saved : WritesSucceed ⟨before, event, before.step platform limits event⟩) :
    Booked limits (before.step platform limits event) := by
  have loads := @loadDaemon_coherent limits event.now persistHistory (before.meeting event).inner
    booked.stored
  have books := @loadDaemon_books limits event.now persistHistory (before.meeting event).inner
  unfold Meets at loads books
  have both : Coherent limits.maxAttemptsPerTask
      (before.step platform limits event).inner.ledger.books ∧ Coherent limits.maxAttemptsPerTask
      (before.step platform limits event).inner.db.tables.books := by
    simp only [WritesSucceed, World.step, cause] at saved ⊢
    have stored := loads saved
    refine ⟨?_, stored⟩
    cases outcome : ((loadDaemon limits persistHistory event.now).run
      (before.meeting event).inner).1 with
    | ok done =>
      rw [outcome] at books
      exact books ▸ stored
    | error error =>
      rw [outcome] at books
      exact (congrArg Ledger.books books) ▸ booked.memory
  exact ⟨both.1, both.2, stores_of_restart cause, booked.bound.step allowed⟩

theorem Booked.step (booked : Booked limits before) (allowed : before.Allows event)
    (saved : WritesSucceed ⟨before, event, before.step platform limits event⟩)
    (rested : IntegratesRested ⟨before, event, before.step platform limits event⟩) :
    Booked limits (before.step platform limits event) := by
  by_cases restarts : ∃ persistHistory, event.cause = .restart persistHistory
  · obtain ⟨persistHistory, cause⟩ := restarts
    exact booked.step_restart allowed cause saved
  have stays : ∀ persistHistory, event.cause ≠ .restart persistHistory :=
    fun persistHistory cause => restarts ⟨persistHistory, cause⟩
  have mirrored : Mirrored before.inner.db.failures (before.step platform limits event).inner :=
    step_mirrored allowed stays (fun _ there => booked.bound.finds there)
      ⟨le_rfl, fun _ => booked.stores (allowed.up stays)⟩
  have same : (before.step platform limits event).inner.db.tables.books =
      (before.step platform limits event).inner.ledger.books := mirrored.2 saved
  have transition : Transition platform limits before event _ := step_transition allowed
  have memory : Coherent limits.maxAttemptsPerTask
      (before.step platform limits event).inner.ledger.books := by
    cases transition with
    | acted up effect calls under few arise =>
      refine effect.coherent booked.memory saved (fun attempt member => ?_)
        (fun reporting reported => ?_) rested
      · obtain ⟨id, task, _⟩ := allowed.unused.2.2.1 attempt member
        exact ⟨id, task⟩
      · obtain ⟨_, _, _, at_⟩ := World.reported_at reported
        exact booked.bound.filed reporting (List.mem_of_getElem? at_)
    | reordered runs tasks attempts =>
      rw [reordered_books runs tasks attempts]
      exact booked.memory
    | restarted persistHistory cause => exact absurd cause (stays persistHistory)
    | down ledger =>
      rw [ledger]
      exact booked.memory
  exact ⟨memory, same ▸ memory, fun _ => same, booked.bound.step allowed⟩

end Law

section Converse

variable {platform : Platform} {limits : OrchestrationLimits} {now : Timestamp} {before : World}
  {event : Event} {inner : Inner}

/-- The task is integrated with an attempt that is live. -/
def Torn (task : TaskId) (ledger : Ledger) : Prop :=
  (∃ row ∈ ledger.tasks, row.id = task ∧ row.status = .integrated) ∧
    ∃ attempt ∈ ledger.attempts, attempt.taskId = task ∧ attempt.isLive = true

theorem Torn.incoherent {task : TaskId} {ledger : Ledger} (torn : Torn task ledger) :
    ¬ ∀ row ∈ ledger.tasks, TaskCoherent limits ledger row := by
  intro coherent
  obtain ⟨⟨row, there, named, status⟩, attempt, held, of_, live⟩ := torn
  have active := (coherent row there).active.mpr ⟨attempt, Ledger.mem_attemptsOf.mpr
    ⟨held, of_.trans named.symm⟩, live⟩
  rw [status] at active
  cases active

/-- Integrating changes no attempt's phase, whatever its writes do. -/
theorem markIntegrated_torn {task : TaskId} {commit : Option String} {row : Task}
    (found_ : inner.ledger.tasks.get? task = some row) (live : ∃ attempt ∈ inner.ledger.attempts,
      attempt.taskId = task ∧ attempt.isLive = true) :
    (markIntegrated task commit now).Meets inner fun _ after => Torn task after.ledger := by
  refine Meets.check_bind (fun error refused => ?_) fun before passed => ?_
  · cases (found_eq_ok.mpr found_ : found (inner.ledger.tasks.get? task) (ProtocolError.notFound
      "task") = _).symm.trans refused
  have there := found_eq_ok.mp passed
  have named := key_of_get? there
  obtain ⟨attempts, marked, shape⟩ := recordCommit_leaves
    (inner.ledger.setTask task (Task.become .integrated now) fun _ => rfl) task commit
  refine Handler.onLedger_bind (Handler.onLedger_bind ?_)
  dsimp only
  rw [shape]
  have torn {after : Inner} {siblings : List Task} {tasks : Store Task.id}
      (promoted : Store.Rewritten (Promotion siblings) (inner.ledger.setTask task
      (Task.become .integrated now) fun _ => rfl).tasks tasks) (kept : after.ledger.tasks = tasks)
      (same : after.ledger.attempts = attempts) : Torn task after.ledger := by
    constructor
    · obtain ⟨later, held, same, promotion⟩ := promoted.forth (before.become .integrated now)
        (Ledger.mem_setTask.mpr (.inl ⟨before, mem_of_get? there, named, rfl⟩))
      refine ⟨later, kept ▸ held, same.trans named, ?_⟩
      rcases promotion with rfl | ⟨⟨_, waits, _⟩, _⟩
      · rfl
      · cases waits
    · obtain ⟨attempt, held, of_, live⟩ := live
      obtain ⟨later, held', _, marked_⟩ := marked.forth attempt held
      refine ⟨later, same ▸ held', ?_⟩
      rcases marked_ with rfl | rfl <;> exact ⟨of_, live⟩
  refine Handler.read_bind (Handler.read_bind ?_)
  refine Meets.bind (persistPromoted_meets (promoteReady_rewritten _ _)) ?_ ?_
  · rintro error after ⟨tasks, promoted, left⟩
    exact torn promoted left.tasks left.attempts
  · rintro value after ⟨tasks, promoted, left⟩
    refine persist_each.mono ?_
    rintro result final ⟨db, rfl⟩
    exact torn promoted left.tasks left.attempts

theorem World.integrated_at {world : World} {task : TaskId}
    (integrated : (world.intent event).integrated = some task) : ∃ index head integrating,
    event.cause = .advance index (.finished head) ∧ integrating.request.taskId = task ∧
      (world.calls[index]? = some (.integrating integrating) ∧ integrating.request.how = .continue ∨
        ∃ branch, world.calls[index]? = some (.merging integrating branch)) := by
  unfold World.intent at integrated
  split at integrated
  · split at integrated
    · split at integrated <;> cases integrated
    · split at integrated <;> cases integrated
    · cases integrated
  · cases integrated
  · rename_i index answer cause
    split at integrated
    · cases integrated
    · cases integrated
    · rename_i integrating head at_
      split at integrated
      · rename_i how
        exact ⟨index, head, integrating, cause, Option.some.inj integrated, .inl ⟨at_, how⟩⟩
      · cases integrated
    · rename_i integrating branch head at_
      exact ⟨index, head, integrating, cause, Option.some.inj integrated, .inr ⟨branch, at_⟩⟩
    · cases integrated
    · cases integrated
    · cases integrated
  · cases integrated
  · cases integrated
  · cases integrated

/-- A task integrated at work is left with its live attempt. -/
theorem Booked.rested_of_coherent (booked : Booked limits before)
    (coherent : ∀ task ∈ (before.step platform limits event).inner.ledger.tasks,
      TaskCoherent limits (before.step platform limits event).inner.ledger task) :
    IntegratesRested ⟨before, event, before.step platform limits event⟩ := by
  intro task member integrated active
  dsimp only at member integrated
  refine absurd coherent (@Torn.incoherent _ task.id _ ?_)
  obtain ⟨index, head, integrating, cause, named, at_⟩ := World.integrated_at integrated
  have live := (booked.memory.active_iff member).mp active
  have torn : (markIntegrated integrating.request.taskId head event.now).Meets
      (before.meeting event).inner fun _ after => Torn task.id after.ledger := by
    rw [named]
    exact markIntegrated_torn (get?_of_mem member) live
  have ends {calls : List Call} : (markIntegrated integrating.request.taskId head event.now >>=
      fun _ => (pure calls : Handler (List Call))).Meets (before.meeting event).inner fun _ after =>
      Torn task.id after.ledger :=
    torn.bind (fun _ _ torn => torn) fun _ _ torn => Meets.pure torn
  simp only [World.step, cause]
  rcases at_ with ⟨at_, how⟩ | ⟨branch, at_⟩
  · have held : (before.meeting event).calls[index]? = some (.integrating integrating) := at_
    have meets : (runCall platform limits (.integrating integrating) (.finished head) event.now
        event.fresh).Meets (before.meeting event).inner fun _ after => Torn task.id after.ledger := by
      change (integrate integrating (.finished head) event.now).Meets _ _
      unfold integrate
      rw [how]
      exact ends
    rw [held]
    exact @enter_meets _ _ _ (fun after => Torn task.id after.ledger) meets
  · have held : (before.meeting event).calls[index]? = some (.merging integrating branch) := at_
    rw [held]
    exact @enter_meets _ _ _ (fun after => Torn task.id after.ledger) ends

theorem Booked.initial : Booked limits (World.initial limits) := by
  have empty : Coherent limits.maxAttemptsPerTask (World.initial limits).inner.ledger.books :=
    .of_rows (fun _ there => absurd there (not_mem_empty _)) (fun _ there =>
    absurd there (not_mem_empty _))
      (fun _ there => absurd there (not_mem_empty _)) (fun _ there =>
      absurd there (not_mem_empty _))
      (fun _ there => absurd there (not_mem_empty _)) (fun _ there =>
      absurd there (not_mem_empty _))
      fun _ there => absurd there (not_mem_empty _)
  exact ⟨empty, empty, fun _ => rfl, .initial⟩

/-- Where every write succeeds, tasks and attempts agree in every state of a run exactly when no
task is integrated at work. -/
theorem tasks_coherent_iff {steps : List (Taken World Event)} {last : World}
    (run : ForgeNode.Run (World.Step platform limits) (World.initial limits) steps last)
    (saved : ∀ taken ∈ steps, WritesSucceed taken) :
    (∀ taken ∈ steps, ∀ task ∈ taken.after.inner.ledger.tasks,
      TaskCoherent limits taken.after.inner.ledger task) ↔
      ∀ taken ∈ steps, IntegratesRested taken := by
  refine (run.within WritesSucceed saved).law_iff_guard (Booked limits) _ _ ?_ ?_ .initial
  · rintro before event after ⟨⟨allowed, rfl⟩, saved⟩ booked rested
    exact booked.step allowed saved rested
  · rintro before event after ⟨⟨allowed, rfl⟩, saved⟩ booked
    exact ⟨booked.rested_of_coherent, fun rested task member =>
      (booked.step allowed saved rested).memory.task member⟩

/-- A task is started, reported and handed back, and the daemon starts again. -/
def worked : List Cause :=
  opening ++ [newTask .write []] ++ startTask 104 ++ reportFrom 106 107 .done ++
    [decideOn 104 3 (.reject "again" false), .restart true]

theorem tasks_coherent_iff_worked :
    (∃ task ∈ (reached worked).inner.ledger.tasks.rows, task.attemptsUsed = 1) ∧
    ∀ taken ∈ stepsTo worked, ∀ task ∈ taken.after.inner.ledger.tasks,
    TaskCoherent .default taken.after.inner.ledger task :=
  ⟨by decide +kernel, (tasks_coherent_iff (run_of_admitted (by decide +kernel)) (by decide +kernel)).mpr (by decide +kernel)⟩

end Converse

end ForgeNode.Orchestration
