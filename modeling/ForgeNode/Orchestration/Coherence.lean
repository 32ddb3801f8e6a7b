import ForgeNode.Orchestration.Books

/-! What each section, each removal and the end of a daemon leave of coherent books. -/

namespace ForgeNode.Orchestration

open Store

section Effects

variable {limits : OrchestrationLimits} {now : Timestamp} {fresh : Nat} {intent : Intent}
  {inner after : Inner}
  {maxAttempts : Nat}

theorem Coherent.of_same (coherent : Coherent maxAttempts inner.ledger.books)
    (tasks : after.ledger.tasks = inner.ledger.tasks)
    (attempts : after.ledger.attempts = inner.ledger.attempts) :
    Coherent maxAttempts after.ledger.books := by
  refine coherent.of_local (fun _ => False) ?_ ?_ (fun _ _ never => never.elim) (fun _ _ never =>
    never.elim) fun _ _ never => never.elim
  · rw [tasks]
    exact .refl fun _ _ => ⟨rfl, fun _ => .inl rfl⟩
  · rw [attempts]
    exact .refl fun _ _ => ⟨rfl, rfl, fun _ => rfl⟩

/-- A task of its own, without attempts. -/
theorem Coherent.created (coherent : Coherent maxAttempts inner.ledger.books) {task : Task}
    (unused : task.attemptsUsed = 0) (status : task.status = .pending ∨ task.status = .ready)
    (new : ∀ attempt ∈ inner.ledger.attempts, attempt.taskId ≠ task.id)
    (tasks : after.ledger.tasks = inner.ledger.tasks.put task)
    (attempts : after.ledger.attempts = inner.ledger.attempts) :
    Coherent maxAttempts after.ledger.books := by
  have held {row : Task} (there : row ∈ after.ledger.tasks) : row = task ∨
      row ∈ inner.ledger.tasks := by
    rw [tasks] at there
    exact (mem_put.mp there).imp_right And.left
  refine .of_rows ?_ ?_ ?_ ?_ ?_ ?_ ?_
  · intro attempt member
    rw [attempts] at member
    obtain ⟨owner, there, named⟩ := coherent.owner member
    refine ⟨owner, ?_, named⟩
    rw [tasks]
    exact mem_put.mpr (.inr ⟨there, fun same => new attempt member (named.symm.trans same)⟩)
  · intro row there
    rcases held there with rfl | was
    · omega
    · exact coherent.within was
  · intro row there n
    rcases held there with rfl | was
    · constructor
      · intro between
        omega
      · rintro ⟨attempt, member, of_, _⟩
        rw [attempts] at member
        exact absurd of_ (new attempt member)
    · rw [attempts]
      exact coherent.counted was n
  · rw [attempts]
    intro attempt member other there same number
    rw [coherent.same_attempt member there same number]
  · rw [attempts]
    intro attempt member other there
    exact coherent.surpassed member there
  · rw [attempts]
    intro row there startable attempt member of_
    rcases held there with rfl | was
    · exact absurd of_ (new attempt member)
    · exact coherent.idle was startable member of_
  · rw [attempts]
    intro row there
    rcases held there with rfl | was
    · constructor
      · intro active
        rcases status with other | other <;> rw [other] at active <;> cases active
      · rintro ⟨attempt, member, of_, _⟩
        exact absurd of_ (new attempt member)
    · exact coherent.active_iff was

/-- A start that is committed: one attempt more, live, with the next number. -/
theorem Coherent.started (coherent : Coherent maxAttempts inner.ledger.books) {task : Task}
    {attempt : Attempt} (found : inner.ledger.tasks.get? task.id = some task)
    (startable : task.status.startable = true) (budget : task.attemptsUsed < maxAttempts)
    (of_ : attempt.taskId = task.id) (number : attempt.n = task.attemptsUsed + 1)
    (live : attempt.isLive = true) (new : ∀ other ∈ inner.ledger.attempts, other.id ≠ attempt.id)
    (tasks : after.ledger.tasks = inner.ledger.tasks.modify task.id
      (Task.started (task.attemptsUsed + 1) now) fun _ => rfl)
    (attempts : after.ledger.attempts = inner.ledger.attempts.put attempt) :
    Coherent maxAttempts after.ledger.books := by
  have member := mem_of_get? found
  have held {row : Attempt} : row ∈ after.ledger.attempts ↔ row = attempt ∨
      row ∈ inner.ledger.attempts := by
    rw [attempts, mem_put]
    constructor
    · rintro (same | ⟨there, _⟩)
      · exact .inl same
      · exact .inr there
    · rintro (same | there)
      · exact .inl same
      · exact .inr ⟨there, new row there⟩
  have owned {row : Task} (there : row ∈ after.ledger.tasks) : (row.id = task.id ∧
      row.status = .active ∧ row.attemptsUsed = task.attemptsUsed + 1) ∨ row.id ≠ task.id ∧
      row ∈ inner.ledger.tasks := by
    rw [tasks] at there
    rcases mem_modify.mp there with ⟨old, _, named, rfl⟩ | ⟨was, other⟩
    · exact .inl ⟨named, rfl, rfl⟩
    · exact .inr ⟨other, was⟩
  have older {row : Attempt} (there : row ∈ inner.ledger.attempts) (same : row.taskId = task.id) :
      row.n ≤ task.attemptsUsed ∧ row.phase.isOver = true := by
    have counted := (coherent.counted member row.n).mpr ⟨row, there, same, rfl⟩
    exact ⟨counted.2, coherent.idle member startable there same⟩
  have stays {row : Task} (there : row ∈ inner.ledger.tasks) : ∃ later ∈ after.ledger.tasks,
      later.id = row.id := by
    obtain ⟨later, here, named, _⟩ :=
      (@Store.Rewritten.modified _ _ _ _ task.id (Task.started (task.attemptsUsed + 1) now)
      (fun _ => rfl) inner.ledger.tasks).forth row there
    exact ⟨later, tasks ▸ here, named⟩
  have alike {row : Task} (elsewhere : row.id ≠ task.id) {holds : Attempt → Prop} :
      (∃ other ∈ inner.ledger.attempts, other.taskId = row.id ∧ holds other) ↔
        ∃ other ∈ after.ledger.attempts, other.taskId = row.id ∧ holds other := by
    constructor
    · rintro ⟨other, there, same, fits⟩
      exact ⟨other, held.mpr (.inr there), same, fits⟩
    · rintro ⟨other, there, same, fits⟩
      rcases held.mp there with rfl | was
      · exact absurd (same.symm.trans of_) elsewhere
      · exact ⟨other, was, same, fits⟩
  refine .of_rows ?_ ?_ ?_ ?_ ?_ ?_ ?_
  · intro row there
    rcases held.mp there with rfl | was
    · rw [of_]
      exact stays member
    · obtain ⟨owner, here, named⟩ := coherent.owner was
      obtain ⟨later, here', named'⟩ := stays here
      exact ⟨later, here', named'.trans named⟩
  · intro row there
    rcases owned there with ⟨_, _, used⟩ | ⟨_, was⟩
    · omega
    · exact coherent.within was
  · intro row there n
    rcases owned there with ⟨named, _, used⟩ | ⟨other, was⟩
    · have counted := coherent.counted member n
      rw [used, named]
      constructor
      · rintro ⟨low, high⟩
        by_cases last : n = task.attemptsUsed + 1
        · exact ⟨attempt, held.mpr (.inl rfl), of_, number.trans last.symm⟩
        · obtain ⟨row, there, same, number⟩ := counted.mp ⟨low, by omega⟩
          exact ⟨row, held.mpr (.inr there), same, number⟩
      · rintro ⟨row, there, same, rfl⟩
        rcases held.mp there with rfl | was
        · omega
        · have old := (coherent.counted member row.n).mpr ⟨row, was, same, rfl⟩
          omega
    · exact (coherent.counted was n).trans (alike other)
  · intro row there other there' same number'
    rcases held.mp there with rfl | was <;> rcases held.mp there' with rfl | was'
    · rfl
    · have before := older was' (same.symm.trans of_)
      omega
    · have before := older was (same.trans of_)
      omega
    · rw [coherent.same_attempt was was' same number']
  · intro row there other there' same newer
    rcases held.mp there with rfl | was <;> rcases held.mp there' with rfl | was'
    · omega
    · have before := older was' (same.symm.trans of_)
      omega
    · exact (older was (same.trans of_)).2
    · exact coherent.surpassed was was' same newer
  · intro row there may other there' same
    rcases owned there with ⟨_, active, _⟩ | ⟨elsewhere, was⟩
    · rw [active] at may
      cases may
    · rcases held.mp there' with rfl | was'
      · exact absurd (same.symm.trans of_) elsewhere
      · exact coherent.idle was may was' same
  · intro row there
    rcases owned there with ⟨named, active, _⟩ | ⟨elsewhere, was⟩
    · rw [active, named]
      exact ⟨fun _ => ⟨attempt, held.mpr (.inl rfl), of_, live⟩, fun _ => rfl⟩
    · exact (coherent.active_iff was).trans (alike elsewhere)

end Effects

section Removals

variable {maxAttempts : Nat} {inner after : Inner} {dropped : Option ProjectId} {ledger : Ledger}

theorem decided_rests {status : TaskStatus} (decided : status = .review ∨ status = .blocked) :
    status ≠ .active := by
  rcases decided with rfl | rfl <;> simp

theorem Task.loseAttempt_rests (maxAttempts : Nat) (now : Timestamp) (task : Task) :
    (task.loseAttempt maxAttempts now).status ≠ .active := by
  unfold Task.loseAttempt
  split
  · rcases taskStatusAfterLoss_eq task.attemptsUsed maxAttempts with lost | lost <;>
      simp [Task.become, lost]
  · rename_i resting
    intro active
    exact resting (by rw [active]; rfl)

theorem Task.loseAttempt_used (maxAttempts : Nat) (now : Timestamp) (task : Task) :
    (task.loseAttempt maxAttempts now).attemptsUsed = task.attemptsUsed := by
  unfold Task.loseAttempt
  split <;> rfl

theorem Attempt.forgetSession_phase (session : SessionId) (now : Timestamp) (attempt : Attempt) :
    ((attempt.forgetSession session now).phase = attempt.phase ∧
      ¬(attempt.sessionId = some session ∧ attempt.isLive = true)) ∨
      (attempt.sessionId = some session ∧ attempt.isLive = true) ∧
      (attempt.forgetSession session now).phase = .lost := by
  unfold Attempt.forgetSession
  split
  · rename_i here
    split
    · rename_i live
      exact .inr ⟨⟨here, live⟩, rfl⟩
    · rename_i idle
      exact .inl ⟨rfl, fun both => idle both.2⟩
  · rename_i elsewhere
    exact .inl ⟨rfl, fun both => elsewhere both.1⟩

theorem Attempt.forgetSession_columns (session : SessionId) (now : Timestamp) (attempt : Attempt) :
    (attempt.forgetSession session now).taskId = attempt.taskId ∧
    (attempt.forgetSession session now).n = attempt.n := by
  unfold Attempt.forgetSession
  split <;> [split; skip] <;> exact ⟨rfl, rfl⟩

theorem Coherent.forgetSession (coherent : Coherent maxAttempts ledger.books) (session : SessionId)
    (now : Timestamp) : Coherent maxAttempts (ledger.forgetSession session now).books := by
  have lost {attempt : Attempt} (member : attempt ∈ ledger.attempts)
      (here : attempt.sessionId = some session) (live : attempt.isLive = true) {other : Attempt}
      (there : other ∈ ledger.attempts)
      (same : other.taskId = attempt.taskId) : (other.forgetSession session now).phase.isOver =
        true := by
    rcases other.forgetSession_phase session now with ⟨kept, still⟩ | ⟨_, gone⟩
    · rw [kept]
      refine coherent.one_live member live there same ?_
      rintro rfl
      exact still ⟨here, live⟩
    · rw [gone]
      rfl
  refine coherent.left (fun id => ∃ attempt ∈ ledger.attempts, attempt.sessionId = some session ∧
    attempt.isLive = true ∧ attempt.taskId = id) ?_ ?_ ?_
  · unfold Ledger.forgetSession
    dsimp only
    refine .of_map fun task _ => ?_
    have loses : ledger.loses session task = true ↔ ∃ attempt ∈ ledger.attempts,
        attempt.sessionId = some session ∧ attempt.isLive = true ∧ attempt.taskId = task.id := by
      simp only [Ledger.loses, List.any_eq_true, Bool.and_eq_true, beq_iff_eq, and_assoc]
      exact Iff.rfl
    split
    · rename_i gone
      refine ⟨task.loseAttempt_used _ now, fun _ => task.loseAttempt_rests _ now, ?_⟩
      intro still
      exact absurd (loses.mp gone) still
    · rename_i kept
      exact ⟨rfl, fun is_ => absurd (loses.mpr is_) kept, fun _ => .inl rfl⟩
  · unfold Ledger.forgetSession
    dsimp only
    refine .of_map fun attempt member => ?_
    obtain ⟨of_, number⟩ := attempt.forgetSession_columns session now
    refine ⟨of_, number, ?_, ?_, ?_⟩
    · rcases attempt.forgetSession_phase session now with ⟨kept, _⟩ | ⟨_, gone⟩
      · exact .inl kept
      · refine .inr (.inl ?_)
        rw [gone]
        rfl
    · rintro ⟨other, there, here, live, same⟩
      exact over_idle (lost there here live member same.symm)
    · intro still
      rcases attempt.forgetSession_phase session now with ⟨kept, _⟩ | ⟨both, _⟩
      · exact kept
      · exact absurd ⟨attempt, member, both.1, both.2, rfl⟩ still
  · rintro task _ ⟨attempt, member, here, live, named⟩ _ other there of_
    obtain ⟨old, was, rfl⟩ := Ledger.attempts_forgetSession.mp there
    exact lost member here live was ((old.forgetSession_columns session now).1.symm.trans
      (of_.trans named.symm))

theorem Coherent.forgetProject (coherent : Coherent maxAttempts ledger.books)
    (project : ProjectId) : Coherent maxAttempts (ledger.forgetProject project).books := by
  have tasks {task : Task} : task ∈ (ledger.forgetProject project).tasks → task ∈ ledger.tasks :=
    fun member =>
    (Store.mem_retain.mp member).1
  have attempts {attempt : Attempt} : attempt ∈ (ledger.forgetProject project).attempts →
      attempt ∈ ledger.attempts := fun member => (Store.mem_retain.mp member).1
  -- A task and its attempts go together.
  have together {task : Task} {attempt : Attempt}
      (member : task ∈ (ledger.forgetProject project).tasks) (there : attempt ∈ ledger.attempts)
      (of_ : attempt.taskId = task.id) :
      attempt ∈ (ledger.forgetProject project).attempts := by
    have kept := (Store.mem_retain.mp member).2
    refine Store.mem_retain.mpr ⟨there, ?_⟩
    rw [of_]
    exact kept
  have alike {task : Task} (member : task ∈ (ledger.forgetProject project).tasks) {holds : Attempt →
      Prop} : (∃ attempt ∈ ledger.attempts, attempt.taskId = task.id ∧ holds attempt) ↔
        ∃ attempt ∈ (ledger.forgetProject project).attempts, attempt.taskId = task.id ∧
        holds attempt := by
    constructor
    · rintro ⟨attempt, there, of_, fits⟩
      exact ⟨attempt, together member there of_, of_, fits⟩
    · rintro ⟨attempt, there, of_, fits⟩
      exact ⟨attempt, attempts there, of_, fits⟩
  refine .of_rows ?_ ?_ ?_ ?_ ?_ ?_ ?_
  · intro attempt member
    obtain ⟨owner, held, named⟩ := coherent.owner (attempts member)
    refine ⟨owner, Store.mem_retain.mpr ⟨held, ?_⟩, named⟩
    have kept := (Store.mem_retain.mp member).2
    rw [named]
    exact kept
  · exact fun task member => coherent.within (tasks member)
  · exact fun task member n => (coherent.counted (tasks member) n).trans (alike member)
  · intro attempt member other there same number
    rw [coherent.same_attempt (attempts member) (attempts there) same number]
  · exact fun attempt member other there => coherent.surpassed (attempts member) (attempts there)
  · exact fun task member startable attempt there => coherent.idle (tasks member) startable
      (attempts there)
  · exact fun task member => (coherent.active_iff (tasks member)).trans (alike member)

theorem Removal.coherent (removal : Removal dropped inner after)
    (coherent : Coherent maxAttempts inner.ledger.books) :
    Coherent maxAttempts after.ledger.books := by
  cases removal with
  | still left => exact coherent.of_same left.tasks left.attempts
  | session session now ledger =>
    rw [ledger]
    exact coherent.forgetSession session now
  | workspace workspace ledger =>
    rw [ledger]
    refine coherent.left (fun _ => False) (.refl fun _ _ => ⟨rfl, False.elim, fun _ => .inl rfl⟩) ?_
      fun _ _ never => never.elim
    unfold Ledger.forgetWorkspace
    dsimp only
    refine .of_map fun attempt _ => ?_
    unfold Attempt.forgetWorkspace
    split <;> exact ⟨rfl, rfl, .inl rfl, False.elim, fun _ => rfl⟩
  | project project intended ledger =>
    rw [ledger]
    exact coherent.forgetProject project

theorem Removal.coherent_chain (chain : Relation.ReflTransGen (Removal dropped) inner after)
    (coherent : Coherent maxAttempts inner.ledger.books) :
    Coherent maxAttempts after.ledger.books := by
  induction chain with
  | refl => exact coherent
  | tail _ removal ih => exact removal.coherent ih

end Removals

section Effects

variable {limits : OrchestrationLimits} {now : Timestamp} {fresh : Nat} {intent : Intent}
  {inner after : Inner}
  {maxAttempts : Nat} {ledger : Ledger}

/-- One task goes to another status than `Active`, with no attempt live before; it may start where
all are over. -/
theorem Coherent.rests (coherent : Coherent maxAttempts ledger.books) {task : Task} {after : Ledger}
    (found : ledger.tasks.get? task.id = some task) (resting : task.status ≠ .active)
    (tasks : Store.Rewritten (fun old row => row.attemptsUsed = old.attemptsUsed ∧
      (old.id = task.id → row.status ≠ .active ∧ row.status.startable = false) ∧
      (old.id ≠ task.id → row.status = old.status ∨ old.status = .pending ∧ row.status = .ready))
      ledger.tasks after.tasks)
    (attempts : Store.Rewritten (fun old attempt => attempt.taskId = old.taskId ∧
      attempt.n = old.n ∧
      attempt.phase = old.phase) ledger.attempts after.attempts) : Coherent maxAttempts
      after.books := by
  refine coherent.left (· = task.id)
    (tasks.mono fun _ _ _ _ kept => ⟨kept.1, fun is_ => (kept.2.1 is_).1, kept.2.2⟩)
    (attempts.mono fun old there attempt _ kept => ⟨kept.1, kept.2.1, .inl kept.2.2, ?_, fun _ =>
    kept.2.2⟩) ?_
  · intro is_
    have quiet := coherent.quiet (mem_of_get? found) resting there is_
    unfold Attempt.isLive at quiet ⊢
    rw [kept.2.2]
    exact quiet
  · intro row member is_ startable
    obtain ⟨old, _, named, _, becomes, _⟩ := tasks.back row member
    rw [(becomes (named.trans is_)).2] at startable
    cases startable

theorem promoted_entry {siblings : List Task} {old row : Task}
    (promotion : Promotion siblings old row) : row.attemptsUsed = old.attemptsUsed ∧
    (row.status = old.status ∨ old.status = .pending ∧ row.status = .ready) := by
  rcases promotion with rfl | ⟨⟨_, pending, _⟩, rfl⟩
  · exact ⟨rfl, .inl rfl⟩
  · exact ⟨rfl, .inr ⟨pending, rfl⟩⟩

/-- The task that is accepted or integrated, and the promotions that follow. -/
theorem promotes_rests {siblings : List Task} {before tasks : Store Task.id} {id : TaskId}
    {status : TaskStatus} (rests : status ≠ .active ∧ status.startable = false)
    (waits : status ≠ .pending) (promoted : Store.Rewritten (Promotion siblings)
      (before.modify id (Task.become status now) fun _ => rfl) tasks) :
    Store.Rewritten (fun old row => row.attemptsUsed = old.attemptsUsed ∧
      (old.id = id → row.status ≠ .active ∧ row.status.startable = false) ∧
      (old.id ≠ id → row.status = old.status ∨ old.status = .pending ∧ row.status = .ready))
      before tasks := by
  refine Store.Rewritten.modified.trans promoted fun old _ row new _ _ changed promotion => ?_
  obtain ⟨used, kept⟩ := promoted_entry promotion
  rcases changed with ⟨here, rfl⟩ | ⟨other, rfl⟩
  · refine ⟨used, fun _ => ?_, fun elsewhere => absurd here elsewhere⟩
    rcases kept with same | ⟨pending, _⟩
    · rw [same]
      exact rests
    · exact absurd pending waits
  · exact ⟨used, fun here => absurd here other, fun _ => kept⟩

theorem attemptsOf_eq_nil {task : TaskId} (none_ : ledger.newest task = none) :
    ledger.attemptsOf task = [] := by
  unfold Ledger.newest at none_
  cases shape : ledger.attemptsOf task with
  | nil => rfl
  | cons first rest =>
    rw [shape] at none_
    cases none_

theorem reportStatus_rests (reporting : Reporting) (limits : OrchestrationLimits) :
    reporting.status limits ≠ .active ∧ (reporting.status limits).startable = false := by
  unfold Reporting.status
  rcases taskStatusAfterReport_eq reporting.request.outcome reporting.attemptsUsed
    limits.maxAttemptsPerTask with
    same | same | same <;> rw [same] <;> exact ⟨by simp, rfl⟩

/-- Every section that loses no write keeps the books coherent, but for one that integrates a task
at work. -/
theorem Effect.coherent (effect : Effect limits now fresh intent inner after)
    (coherent : Coherent limits.maxAttemptsPerTask inner.ledger.books)
    (saved : after.db.failures = inner.db.failures)
    (unused : ∀ attempt ∈ inner.ledger.attempts, attempt.id ≠ fresh ∧ attempt.taskId ≠ fresh)
    (filed : ∀ reporting, intent.reported = some reporting → ∀ attempt ∈ inner.ledger.attempts,
      attempt.id = reporting.request.attemptId → attempt.taskId = reporting.taskId)
    (guard : ∀ task ∈ inner.ledger.tasks, intent.integrated = some task.id →
      task.status ≠ .active) :
    Coherent limits.maxAttemptsPerTask after.ledger.books := by
  cases effect with
  | still left | opened _ _ _ left | briefed _ _ left | closed _ _ left | resumed _ _ _ left =>
    exact coherent.of_same left.tasks left.attempts
  | posted _ _ _ _ _ ledger | joined _ _ _ ledger | moved _ _ _ _ _ _ ledger =>
    exact coherent.of_same (by rw [ledger]) (by rw [ledger])
  | created task named none_ status mode left =>
    refine coherent.created none_ status ?_ left.tasks left.attempts
    intro attempt member
    rw [named]
    exact (unused attempt member).2
  | stranded run workspace task may failed left =>
    rw [saved] at failed
    exact absurd failed (Nat.lt_irrefl _)
  | started spawned task may same committed session passed left =>
    exact coherent.started may.found may.startable may.budget same.symm rfl rfl
      (fun attempt member => (unused attempt member).1) left.tasks left.attempts
  | reported reporting report attempt found live newest own intended left =>
    have member := mem_of_get? found
    have of_ := filed reporting intended attempt member (key_of_get? found)
    obtain ⟨rests, waits⟩ := reportStatus_rests reporting limits
    refine coherent.left (· = attempt.taskId) ?_ ?_ ?_
    · rw [left.tasks]
      exact .of_modify (fun _ _ here => ⟨rfl, fun _ => rests, fun other =>
        absurd (here.trans of_.symm) other⟩) fun _ _ other =>
          ⟨rfl, fun here => absurd (here.trans of_) other, fun _ => .inl rfl⟩
    · rw [left.attempts]
      refine .of_modify (fun row there here => ?_) fun row there other => ?_
      · rw [eq_of_key there member here]
        exact ⟨rfl, rfl, .inr (.inr (hasNewer_eq_false newest)), fun _ => rfl, fun still =>
          absurd rfl still⟩
      · refine ⟨rfl, rfl, .inl rfl, fun is_ => ?_, fun _ => rfl⟩
        exact over_idle (coherent.one_live member live there is_ fun same =>
          other (congrArg Attempt.id same))
    · intro task there is_ startable
      rw [left.tasks] at there
      rcases mem_modify.mp there with ⟨old, _, _, rfl⟩ | ⟨_, other⟩
      · rw [show (old.become (reporting.status limits) now).status =
          reporting.status limits from rfl, waits] at startable
        cases startable
      · exact absurd (is_.trans of_) other
  | accepted task found status intended tasks promoted left =>
    refine coherent.rests found (decided_rests status) ?_ ?_
    · rw [left.tasks]
      exact promotes_rests ⟨by simp, rfl⟩ (by simp) promoted
    · rw [left.attempts]
      exact .refl fun _ _ => ⟨rfl, rfl, rfl⟩
  | reopened feedback task found status attempt newest intended alive left =>
    obtain ⟨member, of_, greatest⟩ := Ledger.newest_eq_some newest
    refine coherent.returned (· = task.id) ?_ ?_ ?_
    · rw [left.tasks]
      exact .of_modify (fun _ _ here => ⟨rfl, fun _ => rfl, fun other => absurd here other⟩)
        fun _ _ other => ⟨rfl, fun here => absurd here other, fun _ => rfl⟩
    · rw [left.attempts]
      refine .of_modify (fun row there here => ?_) fun row there other =>
        ⟨rfl, rfl, .inl rfl, fun _ => rfl⟩
      rw [eq_of_key there member here]
      refine ⟨rfl, rfl, .inr ?_, fun still => absurd of_ still⟩
      intro other held same
      exact greatest other held (same.trans of_)
    · rintro row _ is_
      refine ⟨attempt.reopened, ?_, of_.trans is_.symm, rfl⟩
      rw [left.attempts]
      exact mem_modify.mpr (.inl ⟨attempt, member, rfl, rfl⟩)
  | exhausted task found status left =>
    refine coherent.rests found (decided_rests status) ?_ ?_
    · rw [left.tasks]
      exact .of_modify (fun _ _ here => ⟨rfl, fun _ => ⟨by simp [Task.become], rfl⟩, fun other =>
        absurd here other⟩) fun _ _ other => ⟨rfl, fun here => absurd here other, fun _ => .inl rfl⟩
    · rw [left.attempts]
      exact .refl fun _ _ => ⟨rfl, rfl, rfl⟩
  | retried feedback task found status attempts rejected left =>
    have member := mem_of_get? found
    have quiet {row : Attempt} (there : row ∈ inner.ledger.attempts) (of_ : row.taskId = task.id) :=
      coherent.quiet member (decided_rests status) there of_
    have turned : Store.Rewritten (fun old row => row.taskId = old.taskId ∧ row.n = old.n ∧
        (row.phase = old.phase ∨ row.phase.isOver = true) ∧ (old.taskId = task.id →
        row.isLive = false ∧
          row.phase.isOver = true) ∧ (old.taskId ≠ task.id → row.phase = old.phase))
          inner.ledger.attempts attempts := by
      rcases rejected with ⟨none_, rfl⟩ | ⟨attempt, newest, rfl⟩
      · refine .refl fun row there => ⟨rfl, rfl, .inl rfl, fun is_ => ?_, fun _ => rfl⟩
        have listed := Ledger.mem_attemptsOf.mpr ⟨there, is_⟩
        rw [attemptsOf_eq_nil none_] at listed
        cases listed
      · obtain ⟨held, of_, greatest⟩ := Ledger.newest_eq_some newest
        refine .of_modify (fun row there here => ?_) fun row there other => ?_
        · rw [eq_of_key there held here]
          exact ⟨rfl, rfl, .inr rfl, fun _ => ⟨rfl, rfl⟩, fun still => absurd of_ still⟩
        · refine ⟨rfl, rfl, .inl rfl, fun is_ => ⟨quiet there is_, ?_⟩, fun _ => rfl⟩
          refine coherent.surpassed there held (is_.trans of_.symm)
            (Nat.lt_of_le_of_ne (greatest row there is_) fun same => ?_)
          exact other (congrArg Attempt.id (coherent.same_attempt there held (is_.trans of_.symm)
            same))
    refine coherent.left (· = task.id) ?_ ?_ ?_
    · rw [left.tasks]
      exact .of_modify (fun _ _ here =>
        ⟨rfl, fun _ => by simp [Task.returned, Task.become], fun other => absurd here other⟩)
        fun _ _ other => ⟨rfl, fun here => absurd here other, fun _ => .inl rfl⟩
    · rw [left.attempts]
      exact turned.mono fun _ _ _ _ kept => ⟨kept.1, kept.2.1, kept.2.2.1.imp_right .inl,
        fun is_ => (kept.2.2.2.1 is_).1, kept.2.2.2.2⟩
    · intro row _ is_ _ attempt there of_
      rw [left.attempts] at there
      obtain ⟨old, _, _, of', _, _, settled, _⟩ := turned.back attempt there
      exact (settled (of'.symm.trans (of_.trans is_))).2
  | cancelled task found status left =>
    refine coherent.left (· = task.id) ?_ ?_ ?_
    · rw [left.tasks]
      exact .of_modify (fun _ _ here =>
        ⟨rfl, fun _ => by simp [Task.become], fun other => absurd here other⟩) fun _ _ other =>
        ⟨rfl, fun here => absurd here other, fun _ => .inl rfl⟩
    · rw [left.attempts]
      unfold Ledger.cancelAttempts
      dsimp only
      refine .of_map fun attempt _ => ?_
      split
      · rename_i both
        obtain ⟨is_, _⟩ := Bool.and_eq_true_iff.mp both
        exact ⟨rfl, rfl, .inr (.inl rfl), fun _ => rfl, fun still => absurd (beq_iff_eq.mp is_) still⟩
      · rename_i neither
        refine ⟨rfl, rfl, .inl rfl, fun is_ => ?_, fun _ => rfl⟩
        by_contra live
        exact neither (Bool.and_eq_true_iff.mpr ⟨beq_iff_eq.mpr is_, by simpa using live⟩)
    · intro row there is_ startable
      rw [left.tasks] at there
      rcases mem_modify.mp there with ⟨old, _, _, rfl⟩ | ⟨_, other⟩
      · cases startable
      · exact absurd is_ other
  | integrated commit task found intended tasks promoted attempts marked left =>
    refine coherent.rests found (guard task (mem_of_get? found) intended) ?_ ?_
    · rw [left.tasks]
      exact promotes_rests ⟨by simp, rfl⟩ (by simp) promoted
    · rw [left.attempts]
      exact marked.mono fun _ _ _ _ kept => by
        rcases kept with rfl | rfl <;> exact ⟨rfl, rfl, rfl⟩
  | answered done intended tasks turned attempts back left =>
    refine coherent.returned (fun id => ∃ attempt ∈ done, attempt.taskId = id) ?_ ?_ ?_
    · rw [left.tasks]
      refine turned.mono fun old _ row _ answers => ⟨answers.2.2.1, fun is_ =>
        (answers.2.2.2.1 is_).1, fun still => ?_⟩
      rw [answers.2.2.2.2 fun attempt member same => still ⟨attempt, member, same⟩]
    · rw [left.attempts]
      refine back.mono fun old there row _ handed => ?_
      by_cases given : old ∈ done
      · rw [handed.1 given]
        refine ⟨rfl, rfl, .inr (coherent.newest there ?_), fun still =>
          absurd ⟨old, given, rfl⟩ still⟩
        rw [(intended old given).2.2.1]
        rfl
      · rw [handed.2 given]
        exact ⟨rfl, rfl, .inl rfl, fun _ => rfl⟩
    · rintro row _ ⟨attempt, given, of_⟩
      obtain ⟨later, here, _, handed⟩ := back.forth attempt (intended attempt given).2.1
      have same := handed.1 given
      refine ⟨later, left.attempts ▸ here, ?_, ?_⟩
      · rw [same]
        exact of_
      · rw [same]
        rfl
  | exited session attempt member names live left =>
    refine coherent.left (· = attempt.taskId) ?_ ?_ ?_
    · rw [left.tasks]
      exact .of_modify (fun task _ here => ⟨task.loseAttempt_used _ now, fun _ =>
        task.loseAttempt_rests _ now, fun other => absurd here other⟩) fun _ _ other =>
        ⟨rfl, fun here => absurd here other, fun _ => .inl rfl⟩
    · rw [left.attempts]
      refine .of_modify (fun row there here => ?_) fun row there other => ?_
      · rw [eq_of_key there member here]
        exact ⟨rfl, rfl, .inr (.inl rfl), fun _ => rfl, fun still => absurd rfl still⟩
      · refine ⟨rfl, rfl, .inl rfl, fun is_ => ?_, fun _ => rfl⟩
        exact over_idle (coherent.one_live member live there is_ fun same =>
          other (congrArg Attempt.id same))
    · intro task _ is_ _ row there of_
      rw [left.attempts] at there
      rcases mem_modify.mp there with ⟨old, _, _, rfl⟩ | ⟨held, other⟩
      · rfl
      · exact coherent.one_live member live held (of_.trans is_) fun same =>
          other (congrArg Attempt.id same)
  | removed chain => exact Removal.coherent_chain chain coherent

end Effects

end ForgeNode.Orchestration
