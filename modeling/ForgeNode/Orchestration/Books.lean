import ForgeNode.Orchestration.Settling

/-! What the books say of tasks and their attempts, in memory or stored: attempts numbered without a
gap, none but the newest still open, and a task `Active` exactly while one of them is live. -/

namespace ForgeNode.Orchestration

/-- `Rejected` or `Lost`: nothing hands such an attempt back once a newer one is there. -/
def AttemptPhase.isOver : AttemptPhase → Bool
  | .rejected | .lost => true
  | _ => false

structure TaskEntry where
  run : RunId
  status : Option TaskStatus
  used : Nat

structure AttemptEntry where
  task : TaskId
  n : Nat
  phase : Option AttemptPhase

/-- The columns that tasks and attempts are told apart by, of what a ledger holds or of what is
stored. -/
@[ext] structure Books where
  runs : RunId → Option ProjectId
  tasks : TaskId → Option TaskEntry
  attempts : AttemptId → Option AttemptEntry

def TaskEntry.startable (entry : TaskEntry) : Bool := entry.status.any (·.startable)

def AttemptEntry.isLive (entry : AttemptEntry) : Bool := entry.phase.any (·.isLive)

def AttemptEntry.isOver (entry : AttemptEntry) : Bool := entry.phase.any (·.isOver)

def Task.entry (task : Task) : TaskEntry := ⟨task.runId, some task.status, task.attemptsUsed⟩

def Attempt.entry (attempt : Attempt) : AttemptEntry :=
  ⟨attempt.taskId, attempt.n, some attempt.phase⟩

def TaskRow.entry (row : TaskRow) : TaskEntry :=
  ⟨row.runId, (taskStatusFromStr row.status).toOption, row.attemptsUsed⟩

def AttemptRow.entry (row : AttemptRow) : AttemptEntry :=
  ⟨row.taskId, row.n, (attemptPhaseFromStr row.phase).toOption⟩

def Ledger.books (ledger : Ledger) : Books where
  runs id := (ledger.runs.get? id).map (·.projectId)
  tasks id := (ledger.tasks.get? id).map Task.entry
  attempts id := (ledger.attempts.get? id).map Attempt.entry

def Tables.books (tables : Tables) : Books where
  runs id := (tables.runs.get? id).map (·.projectId)
  tasks id := (tables.tasks.get? id).map TaskRow.entry
  attempts id := (tables.attempts.get? id).map AttemptRow.entry

/-- Numbers from one to as many as were used, all but the newest attempt over, every attempt over
where a task may start, and a task active exactly while it has a live attempt. -/
structure Coherent (maxAttempts : Nat) (books : Books) : Prop where
  owned : ∀ {id attempt}, books.attempts id = some attempt → ∃ task, books.tasks attempt.task =
    some task
  budget : ∀ {id task}, books.tasks id = some task → task.used ≤ maxAttempts
  numbered : ∀ {id task}, books.tasks id = some task → ∀ n, (1 ≤ n ∧ n ≤ task.used) ↔
    ∃ name attempt, books.attempts name = some attempt ∧ attempt.task = id ∧ attempt.n = n
  distinct : ∀ {first second one other}, books.attempts first = some one →
    books.attempts second = some other → one.task = other.task → one.n = other.n → first = second
  older : ∀ {first second one other}, books.attempts first = some one →
    books.attempts second = some other → one.task = other.task → one.n < other.n → one.isOver = true
  free : ∀ {id task}, books.tasks id = some task → task.startable = true →
    ∀ {name attempt}, books.attempts name = some attempt → attempt.task = id → attempt.isOver = true
  active : ∀ {id task}, books.tasks id = some task → (task.status = some .active ↔
    ∃ name attempt, books.attempts name = some attempt ∧ attempt.task = id ∧ attempt.isLive = true)

section Rows

variable {ledger : Ledger}

theorem books_tasks {id : TaskId} {entry : TaskEntry} :
    ledger.books.tasks id = some entry ↔ ∃ task ∈ ledger.tasks, task.id = id ∧
    task.entry = entry := by
  simp only [Ledger.books, Option.map_eq_some_iff, Store.get?_eq_some, and_assoc]

theorem books_attempts {id : AttemptId} {entry : AttemptEntry} :
    ledger.books.attempts id = some entry ↔ ∃ attempt ∈ ledger.attempts, attempt.id = id ∧
    attempt.entry = entry := by
  simp only [Ledger.books, Option.map_eq_some_iff, Store.get?_eq_some, and_assoc]

end Rows

section Local

variable {maxAttempts : Nat} {ledger after : Ledger}

theorem entry_task {task : Task} (member : task ∈ ledger.tasks) :
    ledger.books.tasks task.id = some task.entry :=
  books_tasks.mpr ⟨task, member, rfl, rfl⟩

theorem entry_attempt {attempt : Attempt} (member : attempt ∈ ledger.attempts) :
    ledger.books.attempts attempt.id = some attempt.entry :=
  books_attempts.mpr ⟨attempt, member, rfl, rfl⟩

theorem Coherent.surpassed (coherent : Coherent maxAttempts ledger.books) {attempt other : Attempt}
    (member : attempt ∈ ledger.attempts) (there : other ∈ ledger.attempts)
    (same : attempt.taskId = other.taskId) (newer : attempt.n < other.n) :
    attempt.phase.isOver = true :=
  coherent.older (entry_attempt member) (entry_attempt there) same newer

theorem Coherent.idle (coherent : Coherent maxAttempts ledger.books) {task : Task}
    {attempt : Attempt} (member : task ∈ ledger.tasks) (startable : task.status.startable = true)
    (there : attempt ∈ ledger.attempts) (of_ : attempt.taskId = task.id) :
    attempt.phase.isOver = true :=
  coherent.free (entry_task member) startable (entry_attempt there) of_

theorem Coherent.active_iff (coherent : Coherent maxAttempts ledger.books) {task : Task}
    (member : task ∈ ledger.tasks) : task.status = .active ↔ ∃ attempt ∈ ledger.attempts,
    attempt.taskId = task.id ∧ attempt.isLive = true := by
  have known := coherent.active (entry_task member)
  have status : task.entry.status = some .active ↔ task.status = .active := by simp [Task.entry]
  rw [← status, known]
  constructor
  · rintro ⟨name, entry, held, of_, live⟩
    obtain ⟨attempt, there, _, rfl⟩ := books_attempts.mp held
    exact ⟨attempt, there, of_, live⟩
  · rintro ⟨attempt, there, of_, live⟩
    exact ⟨_, _, entry_attempt there, of_, live⟩

theorem Coherent.quiet (coherent : Coherent maxAttempts ledger.books) {task : Task}
    {attempt : Attempt} (member : task ∈ ledger.tasks) (resting : task.status ≠ .active)
    (there : attempt ∈ ledger.attempts) (of_ : attempt.taskId = task.id) :
    attempt.isLive = false := by
  by_contra live
  exact resting ((coherent.active_iff member).mpr ⟨attempt, there, of_, by simpa using live⟩)

theorem Coherent.same_attempt (coherent : Coherent maxAttempts ledger.books)
    {attempt other : Attempt} (member : attempt ∈ ledger.attempts) (there : other ∈ ledger.attempts)
    (same : attempt.taskId = other.taskId) (number : attempt.n = other.n) : attempt = other :=
  Store.eq_of_key member there (coherent.distinct (entry_attempt member) (entry_attempt there) same
  number)

theorem Coherent.owner (coherent : Coherent maxAttempts ledger.books) {attempt : Attempt}
    (member : attempt ∈ ledger.attempts) : ∃ task ∈ ledger.tasks, task.id = attempt.taskId := by
  obtain ⟨entry, held⟩ := coherent.owned (entry_attempt member)
  obtain ⟨task, there, named, _⟩ := books_tasks.mp held
  exact ⟨task, there, named⟩

theorem Coherent.within (coherent : Coherent maxAttempts ledger.books) {task : Task}
    (member : task ∈ ledger.tasks) : task.attemptsUsed ≤ maxAttempts :=
  coherent.budget (entry_task member)

theorem Coherent.counted (coherent : Coherent maxAttempts ledger.books) {task : Task}
    (member : task ∈ ledger.tasks) (n : Nat) : (1 ≤ n ∧ n ≤ task.attemptsUsed) ↔
      ∃ attempt ∈ ledger.attempts, attempt.taskId = task.id ∧ attempt.n = n := by
  rw [show task.attemptsUsed = task.entry.used from rfl, coherent.numbered (entry_task member) n]
  constructor
  · rintro ⟨name, entry, held, of_, number⟩
    obtain ⟨attempt, there, _, rfl⟩ := books_attempts.mp held
    exact ⟨attempt, there, of_, number⟩
  · rintro ⟨attempt, there, of_, number⟩
    exact ⟨_, _, entry_attempt there, of_, number⟩

/-- The same of the rows of a ledger. -/
theorem Coherent.of_rows
    (owned : ∀ attempt ∈ ledger.attempts, ∃ task ∈ ledger.tasks, task.id = attempt.taskId)
    (budget : ∀ task ∈ ledger.tasks, task.attemptsUsed ≤ maxAttempts)
    (counted : ∀ task ∈ ledger.tasks, ∀ n, (1 ≤ n ∧ n ≤ task.attemptsUsed) ↔
      ∃ attempt ∈ ledger.attempts, attempt.taskId = task.id ∧ attempt.n = n)
    (distinct : ∀ attempt ∈ ledger.attempts, ∀ other ∈ ledger.attempts, attempt.taskId =
      other.taskId →
      attempt.n = other.n → attempt.id = other.id)
    (past : ∀ attempt ∈ ledger.attempts, ∀ other ∈ ledger.attempts, attempt.taskId = other.taskId →
      attempt.n < other.n → attempt.phase.isOver = true)
    (idle : ∀ task ∈ ledger.tasks, task.status.startable = true → ∀ attempt ∈ ledger.attempts,
      attempt.taskId = task.id → attempt.phase.isOver = true)
    (active : ∀ task ∈ ledger.tasks, task.status = .active ↔
      ∃ attempt ∈ ledger.attempts, attempt.taskId = task.id ∧ attempt.isLive = true) :
    Coherent maxAttempts ledger.books := by
  refine ⟨?_, ?_, ?_, ?_, ?_, ?_, ?_⟩
  · intro id entry held
    obtain ⟨attempt, there, _, rfl⟩ := books_attempts.mp held
    obtain ⟨task, member, named⟩ := owned attempt there
    exact ⟨task.entry, books_tasks.mpr ⟨task, member, named, rfl⟩⟩
  · intro id entry held
    obtain ⟨task, member, _, rfl⟩ := books_tasks.mp held
    exact budget task member
  · intro id entry held n
    obtain ⟨task, member, rfl, rfl⟩ := books_tasks.mp held
    refine (counted task member n).trans ?_
    constructor
    · rintro ⟨attempt, there, of_, number⟩
      exact ⟨_, _, entry_attempt there, of_, number⟩
    · rintro ⟨name, entry, held, of_, number⟩
      obtain ⟨attempt, there, _, rfl⟩ := books_attempts.mp held
      exact ⟨attempt, there, of_, number⟩
  · intro first second one other held held' same number
    obtain ⟨attempt, there, rfl, rfl⟩ := books_attempts.mp held
    obtain ⟨later, there', rfl, rfl⟩ := books_attempts.mp held'
    exact distinct attempt there later there' same number
  · intro first second one other held held' same newer
    obtain ⟨attempt, there, _, rfl⟩ := books_attempts.mp held
    obtain ⟨later, there', _, rfl⟩ := books_attempts.mp held'
    exact past attempt there later there' same newer
  · intro id entry held startable name other held' of_
    obtain ⟨task, member, rfl, rfl⟩ := books_tasks.mp held
    obtain ⟨attempt, there, _, rfl⟩ := books_attempts.mp held'
    exact idle task member startable attempt there of_
  · intro id entry held
    obtain ⟨task, member, rfl, rfl⟩ := books_tasks.mp held
    have status : task.entry.status = some .active ↔ task.status = .active := by simp [Task.entry]
    rw [status, active task member]
    constructor
    · rintro ⟨attempt, there, of_, live⟩
      exact ⟨_, _, entry_attempt there, of_, live⟩
    · rintro ⟨name, entry, held, of_, live⟩
      obtain ⟨attempt, there, _, rfl⟩ := books_attempts.mp held
      exact ⟨attempt, there, of_, live⟩

theorem over_idle {phase : AttemptPhase} (past : phase.isOver = true) : phase.isLive = false := by
  cases phase <;> first | rfl | cases past

theorem live_open {phase : AttemptPhase} (live : phase.isLive = true) : phase.isOver = false := by
  cases phase <;> first | rfl | cases live

/-- What the touched tasks and their attempts come to decides; of the others a task is at most
promoted. -/
theorem Coherent.of_local (coherent : Coherent maxAttempts ledger.books) (touched : TaskId → Prop)
    (tasks : Store.Rewritten (fun old task => task.attemptsUsed = old.attemptsUsed ∧
      (¬touched old.id →
      task.status = old.status ∨ old.status = .pending ∧ task.status = .ready))
      ledger.tasks after.tasks)
    (attempts : Store.Rewritten (fun old attempt => attempt.taskId = old.taskId ∧
      attempt.n = old.n ∧
      (¬touched old.taskId → attempt.phase = old.phase)) ledger.attempts after.attempts)
    (past : ∀ attempt ∈ after.attempts, touched attempt.taskId → ∀ other ∈ after.attempts,
      other.taskId = attempt.taskId → attempt.n < other.n → attempt.phase.isOver = true)
    (idle : ∀ task ∈ after.tasks, touched task.id → task.status.startable = true →
      ∀ attempt ∈ after.attempts,
      attempt.taskId = task.id → attempt.phase.isOver = true)
    (active : ∀ task ∈ after.tasks, touched task.id → (task.status = .active ↔
      ∃ attempt ∈ after.attempts, attempt.taskId = task.id ∧ attempt.isLive = true)) :
    Coherent maxAttempts after.books := by
  have untouched {attempt : Attempt} (member : attempt ∈ after.attempts)
      (still : ¬touched attempt.taskId) : ∃ old ∈ ledger.attempts, attempt.taskId = old.taskId ∧
      attempt.n = old.n ∧ attempt.phase = old.phase := by
    obtain ⟨old, there, _, of_, number, phase⟩ := attempts.back attempt member
    exact ⟨old, there, of_, number, phase (of_ ▸ still)⟩
  refine .of_rows ?_ ?_ ?_ ?_ ?_ ?_ ?_
  · intro attempt member
    obtain ⟨old, there, _, of_, _⟩ := attempts.back attempt member
    obtain ⟨owner, held, named⟩ := coherent.owner there
    obtain ⟨task, here, named', _⟩ := tasks.forth owner held
    exact ⟨task, here, named'.trans (named.trans of_.symm)⟩
  · intro task member
    obtain ⟨old, there, _, used, _⟩ := tasks.back task member
    rw [used]
    exact coherent.within there
  · intro task member n
    obtain ⟨old, there, named, used, _⟩ := tasks.back task member
    rw [used, coherent.counted there]
    constructor
    · rintro ⟨former, held, of_, number⟩
      obtain ⟨attempt, here, _, of', number', _⟩ := attempts.forth former held
      exact ⟨attempt, here, of'.trans (of_.trans named), number'.trans number⟩
    · rintro ⟨attempt, here, of_, number⟩
      obtain ⟨former, held, _, of', number', _⟩ := attempts.back attempt here
      exact ⟨former, held, of'.symm.trans (of_.trans named.symm), number'.symm.trans number⟩
  · intro attempt member other there same number
    obtain ⟨old, was, named, of_, number', _⟩ := attempts.back attempt member
    obtain ⟨old', was', named', of', number'', _⟩ := attempts.back other there
    have equal := coherent.same_attempt was was' (of_.symm.trans (same.trans of'))
      (number'.symm.trans (number.trans number''))
    rw [← named, ← named', equal]
  · intro attempt member other there same newer
    by_cases is_ : touched attempt.taskId
    · exact past attempt member is_ other there same.symm newer
    · obtain ⟨old, was, of_, number, phase⟩ := untouched member is_
      obtain ⟨old', was', of', number', _⟩ := untouched there (same ▸ is_)
      rw [phase]
      exact coherent.surpassed was was' (of_.symm.trans (same.trans of')) (by omega)
  · intro task member startable attempt there of_
    by_cases is_ : touched task.id
    · exact idle task member is_ startable attempt there of_
    · obtain ⟨old, was, named, _, kept⟩ := tasks.back task member
      obtain ⟨former, was', of', _, phase⟩ := untouched there (of_ ▸ is_)
      have may : old.status.startable = true := by
        rcases kept (named ▸ is_) with same | ⟨pending, _⟩
        · rw [← same]
          exact startable
        · rw [pending]
          rfl
      rw [phase]
      exact coherent.idle was may was' (of'.symm.trans (of_.trans named.symm))
  · intro task member
    by_cases is_ : touched task.id
    · exact active task member is_
    · obtain ⟨old, was, named, _, kept⟩ := tasks.back task member
      have still : task.status = .active ↔ old.status = .active := by
        rcases kept (named ▸ is_) with same | ⟨pending, ready⟩
        · rw [same]
        · rw [pending, ready]
          simp
      rw [still, coherent.active_iff was]
      constructor
      · rintro ⟨former, was', of_, live⟩
        obtain ⟨attempt, there, _, of', _, phase⟩ := attempts.forth former was'
        have same : attempt.phase = former.phase := phase (by rw [of_, named]; exact is_)
        refine ⟨attempt, there, of'.trans (of_.trans named), ?_⟩
        unfold Attempt.isLive at live ⊢
        rw [same]
        exact live
      · rintro ⟨attempt, there, of_, live⟩
        obtain ⟨former, was', of', _, phase⟩ := untouched there (of_ ▸ is_)
        refine ⟨former, was', of'.symm.trans (of_.trans named.symm), ?_⟩
        unfold Attempt.isLive at live ⊢
        rw [← phase]
        exact live

end Local

section Kinds

variable {maxAttempts : Nat} {ledger after : Ledger} {attempt other : Attempt}

/-- No attempt of its task has a greater number. -/
def Ledger.Newest (ledger : Ledger) (attempt : Attempt) : Prop :=
  ∀ other ∈ ledger.attempts, other.taskId = attempt.taskId → other.n ≤ attempt.n

theorem Coherent.newest (coherent : Coherent maxAttempts ledger.books)
    (member : attempt ∈ ledger.attempts) (open_ : attempt.phase.isOver = false) :
    ledger.Newest attempt := by
  intro other there same
  by_contra newer
  rw [coherent.surpassed member there same.symm (Nat.lt_of_not_le newer)] at open_
  cases open_

theorem Coherent.one_live (coherent : Coherent maxAttempts ledger.books)
    (member : attempt ∈ ledger.attempts) (live : attempt.isLive = true)
    (there : other ∈ ledger.attempts) (same : other.taskId = attempt.taskId)
    (unlike : other ≠ attempt) : other.phase.isOver = true := by
  have least := coherent.newest member (live_open live) other there same
  rcases Nat.lt_or_eq_of_le least with earlier | equal
  · exact coherent.surpassed there member same earlier
  · exact absurd (coherent.same_attempt there member same equal) unlike

/-- The touched tasks are left, and no attempt of theirs is live any more. -/
theorem Coherent.left (coherent : Coherent maxAttempts ledger.books) (touched : TaskId → Prop)
    (tasks : Store.Rewritten (fun old task => task.attemptsUsed = old.attemptsUsed ∧
      (touched old.id → task.status ≠ .active) ∧
      (¬touched old.id → task.status = old.status ∨ old.status = .pending ∧ task.status = .ready))
      ledger.tasks after.tasks)
    (attempts : Store.Rewritten (fun old attempt => attempt.taskId = old.taskId ∧
      attempt.n = old.n ∧
      (attempt.phase = old.phase ∨ attempt.phase.isOver = true ∨ ledger.Newest old) ∧
      (touched old.taskId → attempt.isLive = false) ∧
      (¬touched old.taskId → attempt.phase = old.phase)) ledger.attempts after.attempts)
    (idle : ∀ task ∈ after.tasks, touched task.id → task.status.startable = true →
      ∀ attempt ∈ after.attempts,
      attempt.taskId = task.id → attempt.phase.isOver = true) :
      Coherent maxAttempts after.books := by
  refine coherent.of_local touched (tasks.mono fun _ _ _ _ kept => ⟨kept.1, kept.2.2⟩)
    (attempts.mono fun _ _ _ _ kept => ⟨kept.1, kept.2.1, kept.2.2.2.2⟩) ?_ idle ?_
  · intro attempt member is_ other there same newer
    obtain ⟨old, was, _, of_, number, phase, _⟩ := attempts.back attempt member
    obtain ⟨old', was', _, of', number', _⟩ := attempts.back other there
    have sameTask : old'.taskId = old.taskId := of'.symm.trans (same.trans of_)
    rcases phase with still | past | newest
    · rw [still]
      exact coherent.surpassed was was' sameTask.symm (by omega)
    · exact past
    · have least := newest old' was' sameTask
      omega
  · intro task member is_
    obtain ⟨old, _, named, _, left, _⟩ := tasks.back task member
    constructor
    · intro active
      exact absurd active (left (named ▸ is_))
    · rintro ⟨attempt, there, of_, live⟩
      obtain ⟨former, _, _, of', _, _, settled, _⟩ := attempts.back attempt there
      rw [settled (by rw [← of', of_]; exact is_)] at live
      cases live

/-- The newest attempts of the touched tasks, none of them live before, are handed back. -/
theorem Coherent.returned (coherent : Coherent maxAttempts ledger.books) (touched : TaskId → Prop)
    (tasks : Store.Rewritten (fun old task => task.attemptsUsed = old.attemptsUsed ∧
      (touched old.id → task.status = .active) ∧ (¬touched old.id → task.status = old.status))
      ledger.tasks after.tasks)
    (attempts : Store.Rewritten (fun old attempt => attempt.taskId = old.taskId ∧
      attempt.n = old.n ∧
      (attempt.phase = old.phase ∨ ledger.Newest old) ∧
      (¬touched old.taskId → attempt.phase = old.phase)) ledger.attempts after.attempts)
    (live : ∀ task ∈ after.tasks, touched task.id →
      ∃ attempt ∈ after.attempts, attempt.taskId = task.id ∧ attempt.isLive = true) :
    Coherent maxAttempts after.books := by
  have active {task : Task} (member : task ∈ after.tasks) (is_ : touched task.id) : task.status =
      .active := by
    obtain ⟨old, _, named, _, becomes, _⟩ := tasks.back task member
    exact becomes (named ▸ is_)
  refine coherent.of_local touched (tasks.mono fun _ _ _ _ kept =>
    ⟨kept.1, fun still => .inl (kept.2.2 still)⟩) (attempts.mono fun _ _ _ _ kept =>
    ⟨kept.1, kept.2.1, kept.2.2.2⟩) ?_ ?_ ?_
  · intro attempt member is_ other there same newer
    obtain ⟨old, was, _, of_, number, phase, _⟩ := attempts.back attempt member
    obtain ⟨old', was', _, of', number', _⟩ := attempts.back other there
    have sameTask : old'.taskId = old.taskId := of'.symm.trans (same.trans of_)
    rcases phase with still | newest
    · rw [still]
      exact coherent.surpassed was was' sameTask.symm (by omega)
    · have least := newest old' was' sameTask
      omega
  · intro task member is_ startable
    rw [active member is_] at startable
    cases startable
  · intro task member is_
    exact ⟨fun _ => live task member is_, fun _ => active member is_⟩

end Kinds

end ForgeNode.Orchestration
