import ForgeNode.Orchestration.Handlers

/-! What a statement leaves behind: its whole change, or nothing and one failure more.
Handlers are judged through these facts and never through the tables themselves. -/

namespace ForgeNode.Orchestration

/-- A statement that fails is counted, and one that succeeds is not. -/
def Counted (statement : Statement) : Prop := ∀ db, statement.Meets db fun result after =>
  match result with
  | .ok _ => after.failures = db.failures
  | .error _ => db.failures < after.failures

theorem execute_meets (statement : Tables → Except DbError Tables) (db : Database) :
    (execute statement).Meets db fun result after =>
      match result with
      | .ok _ => db.faults.head? ≠ some true ∧ after.failures = db.failures ∧
          after.faults = db.faults.tail ∧ statement db.tables = .ok after.tables
      | .error _ => after.tables = db.tables ∧ after.failures = db.failures + 1 ∧
          (db.faults.head? = some true ∨ ∃ error, statement db.tables = .error error) := by
  unfold Section.Meets Section.run execute
  cases faults : db.faults with
  | nil => cases outcome : statement db.tables <;> simp
  | cons first rest =>
    cases first with
    | true => simp
    | false => cases outcome : statement db.tables <;> simp

theorem counted_execute (statement : Tables → Except DbError Tables) :
    Counted (execute statement) := by
  intro db
  refine (execute_meets statement db).mono ?_
  intro result after meets
  cases result with
  | ok value => exact meets.2.1
  | error error =>
    have count := meets.2.1
    exact (by omega : db.failures < after.failures)

theorem counted_bind {first : Statement} {next : PUnit → Statement} (counted : Counted first)
    (later : ∀ value, Counted (next value)) : Counted (first >>= next) := by
  intro db
  refine (counted db).bind ?_ ?_
  · intro error after failed
    exact failed
  · intro value after same
    refine (later value after).mono ?_
    intro result final meets
    cases result with
    | ok done => exact meets.trans same
    | error error =>
      have less : after.failures < final.failures := meets
      have equal : after.failures = db.failures := same
      exact (by omega : db.failures < final.failures)

theorem counted_pure : Counted (pure ⟨⟩) := fun _ => Section.Meets.pure rfl

theorem counted_each {ι : Type} {body : ι → Statement} {items : List ι}
    (counted : ∀ item, Counted (body item)) : Counted (Section.each body items) := by
  induction items with
  | nil => exact counted_pure
  | cons item rest ih => exact counted_bind (counted item) fun _ => ih

theorem counted_updateRun (run : Run) : Counted (updateRun run) := counted_execute _

theorem counted_updateAttempt (attempt : Attempt) : Counted (updateAttempt attempt) :=
  counted_execute _

theorem counted_updateTask (task : Task) : Counted (updateTask task) :=
  counted_bind (counted_execute _) fun _ =>
    counted_bind (counted_execute _) fun _ => counted_each fun _ => counted_execute _

section Keeps

variable {α ι : Type} {part : Tables → α}

/-- The statement leaves a part of the tables alone, whether it fails or not. -/
def Keeps (part : Tables → α) (statement : Statement) : Prop := ∀ db, statement.Meets db
  fun _ after => part after.tables = part db.tables

theorem keeps_execute {statement : Tables → Except DbError Tables}
    (same : ∀ tables after, statement tables = .ok after → part after = part tables) :
    Keeps part (execute statement) := by
  intro db
  refine (execute_meets statement db).mono ?_
  intro result after meets
  cases result with
  | ok done => exact same _ _ meets.2.2.2
  | error error => exact congrArg part meets.1

theorem keeps_bind {first : Statement} {next : PUnit → Statement} (keeps : Keeps part first)
    (later : ∀ value, Keeps part (next value)) : Keeps part (first >>= next) :=
  fun db => (keeps db).bind (fun _ _ same => same) fun value after same =>
    (later value after).mono fun _ _ kept => kept.trans same

theorem keeps_each {body : ι → Statement} {items : List ι}
    (keeps : ∀ item, Keeps part (body item)) : Keeps part (Section.each body items) :=
  fun db => Section.Meets.each_keeps (fun (after : Database) => part after.tables = part db.tables)
  rfl
    fun item _ before same => (keeps item before).mono fun _ _ kept => kept.trans same

theorem keeps_insertDep (blind : ∀ tables taskDeps, part { tables with taskDeps } = part tables)
    (task after : TaskId) : Keeps part (execute (insertDep task after)) := by
  refine keeps_execute fun tables after inserted => ?_
  simp only [insertDep, bind_eq_ok, pure_eq_ok] at inserted
  obtain ⟨_, _, _, _, rfl⟩ := inserted
  exact blind tables _

theorem keeps_insertRun (blind : ∀ tables runs, part { tables with runs } = part tables)
    (run : Run) : Keeps part (insertRun run) := by
  refine keeps_execute fun tables after inserted => ?_
  simp only [insertRunRow, bind_eq_ok, pure_eq_ok] at inserted
  obtain ⟨_, _, _, _, _, _, rfl⟩ := inserted
  exact blind tables _

theorem keeps_updateRun (blind : ∀ tables runs, part { tables with runs } = part tables)
    (run : Run) : Keeps part (updateRun run) := by
  refine keeps_execute fun tables after updated => ?_
  simp only [updateRunRow, bind_eq_ok, pure_eq_ok] at updated
  obtain ⟨_, _, _, _, rfl⟩ := updated
  exact blind tables _

theorem keeps_insertTask
    (blind : ∀ tables tasks taskDeps, part { tables with tasks, taskDeps } = part tables)
    (task : Task) : Keeps part (insertTask task) := by
  refine keeps_bind (keeps_execute fun tables after inserted => ?_) fun _ =>
    keeps_each fun after => keeps_insertDep (fun tables => blind tables tables.tasks) task.id after
  simp only [insertTaskRow, bind_eq_ok, pure_eq_ok] at inserted
  obtain ⟨_, _, _, _, _, _, rfl⟩ := inserted
  exact blind tables _ tables.taskDeps

theorem keeps_updateTask
    (blind : ∀ tables tasks taskDeps, part { tables with tasks, taskDeps } = part tables)
    (task : Task) : Keeps part (updateTask task) := by
  refine keeps_bind (keeps_execute fun tables after updated => ?_) fun _ =>
    keeps_bind (keeps_execute fun tables after deleted => ?_) fun _ =>
      keeps_each fun after => keeps_insertDep (fun tables => blind tables tables.tasks) task.id after
  · simp only [updateTaskRow, bind_eq_ok, pure_eq_ok] at updated
    obtain ⟨_, _, rfl⟩ := updated
    exact blind tables _ tables.taskDeps
  · rw [← Except.ok.inj deleted]
    exact blind tables tables.tasks _

theorem keeps_updateAttempt (blind : ∀ tables attempts, part { tables with attempts } = part tables)
    (attempt : Attempt) : Keeps part (updateAttempt attempt) := by
  refine keeps_execute fun tables after updated => ?_
  simp only [updateAttemptRow, bind_eq_ok, pure_eq_ok] at updated
  obtain ⟨_, _, _, _, rfl⟩ := updated
  exact blind tables _

end Keeps

namespace Handler

variable {α β : Type} {inner : Inner} {statement : Statement}
  {goal : Except ProtocolError β → Inner → Prop}

theorem persist_meets {post : Except DbError PUnit → Database → Prop}
    {goal : Except ProtocolError PUnit → Inner → Prop}
    (statement_ : statement.Meets inner.db post)
    (failed : ∀ error db, post (.error error) db → goal (.error (dbErr error)) { inner with db })
    (passed : ∀ db, post (.ok ⟨⟩) db → goal (.ok ⟨⟩) { inner with db }) :
    (persist statement).Meets inner goal := by
  refine Section.Meets.within ?_
  refine statement_.mono ?_
  intro result after holds
  cases result with
  | ok value => exact passed after holds
  | error error => exact failed error after holds

theorem persist_bind_of {post : Except DbError PUnit → Database → Prop} {next : PUnit → Handler β}
    (statement_ : statement.Meets inner.db post)
    (failed : ∀ error db, post (.error error) db → goal (.error (dbErr error)) { inner with db })
    (passed : ∀ db, post (.ok ⟨⟩) db → (next ⟨⟩).Meets { inner with db } goal) :
    (persist statement >>= next).Meets inner goal := by
  have call : (persist statement).Meets inner fun result after => match result with
      | .ok _ => ∃ db, post (.ok ⟨⟩) db ∧ after = { inner with db }
      | .error error => ∃ dbError db, post (.error dbError) db ∧ error = dbErr dbError ∧
          after = { inner with db } := by
    refine persist_meets statement_ ?_ ?_
    · intro error db holds
      exact ⟨error, db, holds, rfl, rfl⟩
    · intro db holds
      exact ⟨db, holds, rfl⟩
  refine call.bind ?_ ?_
  · rintro error after ⟨dbError, db, holds, rfl, rfl⟩
    exact failed dbError db holds
  · rintro value after ⟨db, holds, rfl⟩
    exact passed db holds

theorem persist_bind {next : PUnit → Handler β} (counted : Counted statement)
    (failed : ∀ error db, inner.db.failures < db.failures → goal (.error error) { inner with db })
    (passed : ∀ db, db.failures = inner.db.failures → (next ⟨⟩).Meets { inner with db } goal) :
    (persist statement >>= next).Meets inner goal :=
  persist_bind_of (counted inner.db) (fun error db less => failed (dbErr error) db less) passed

theorem persist_last {goal : Except ProtocolError PUnit → Inner → Prop}
    (counted : Counted statement) (failed : ∀ error db, inner.db.failures < db.failures →
      goal (.error error) { inner with db })
    (passed : ∀ db, db.failures = inner.db.failures → goal (.ok ⟨⟩) { inner with db }) :
    (persist statement).Meets inner goal :=
  persist_meets (counted inner.db) (fun error db less => failed (dbErr error) db less) passed

theorem onLedger_bind {update : Ledger → Ledger} {next : PUnit → Handler β}
    (rest : (next ⟨⟩).Meets { inner with ledger := update inner.ledger } goal) :
    (onLedger update >>= next).Meets inner goal :=
  Section.Meets.change_bind rest

theorem onLedger_last {update : Ledger → Ledger} {goal : Except ProtocolError PUnit → Inner → Prop}
    (holds : goal (.ok ⟨⟩) { inner with ledger := update inner.ledger }) :
    (onLedger update).Meets inner goal :=
  holds

theorem read_bind {look : Inner → α} {next : α → Handler β}
    (rest : (next (look inner)).Meets inner goal) :
    ((Section.check fun inner => .ok (look inner)) >>= next : Handler β).Meets inner goal :=
  rest

theorem ignored_bind {statement : Statement} {next : PUnit → Handler β}
    (rest : ∀ db, (next ⟨⟩).Meets { inner with db } goal) :
    (Section.ignore (persist statement) >>= next).Meets inner goal :=
  rest _

theorem ignored_each {ι : Type} {statement : ι → Statement} {items : List ι} :
    (Section.each (fun item => Section.ignore (persist (statement item))) items :
      Handler PUnit).Meets inner fun result after => result = .ok ⟨⟩ ∧
      ∃ db, after = { inner with db } := by
  refine Section.Meets.each (fun _ after => ∃ db, after = { inner with db }) ⟨inner.db, rfl⟩ ?_ ?_
  · rintro item others before ⟨db, rfl⟩
    exact ⟨_, rfl⟩
  · rintro after same
    exact ⟨rfl, same⟩

theorem ignored_each_bind {ι : Type} {statement : ι → Statement} {items : List ι}
    {next : PUnit → Handler β} (rest : ∀ db, (next ⟨⟩).Meets { inner with db } goal) :
    (Section.each (fun item => Section.ignore (persist (statement item))) items >>= next).Meets
    inner
      goal := by
  refine ignored_each.bind ?_ ?_
  · rintro error after ⟨impossible, _⟩
    cases impossible
  · rintro value after ⟨_, db, rfl⟩
    exact rest db

end Handler

end ForgeNode.Orchestration
