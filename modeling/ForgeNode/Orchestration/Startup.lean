import ForgeNode.Orchestration.Statements

/-! Startup: what the ledger loads is the stored ledger, reconciled. -/

namespace ForgeNode.Orchestration

open List Store
open Section (Meets)

variable {after : List TaskId} {attempt : Attempt} {row : RunRow} {run : Run} {tag : String}
  {task : Task}

section Tags

theorem runStatus_roundTrip {status : RunStatus}
    (encoded : runStatusToStr status = .ok tag) : runStatusFromStr tag = .ok status := by
  cases status <;> simp only [runStatusToStr, Except.ok.injEq, reduceCtorEq] at encoded <;>
    subst encoded <;> rfl

theorem taskStatus_roundTrip {status : TaskStatus}
    (encoded : taskStatusToStr status = .ok tag) : taskStatusFromStr tag = .ok status := by
  cases status <;> simp only [taskStatusToStr, Except.ok.injEq, reduceCtorEq] at encoded <;>
    subst encoded <;> rfl

theorem taskMode_roundTrip {mode : WorkMode}
    (encoded : taskModeToStr mode = .ok tag) : taskModeFromStr tag = .ok mode := by
  cases mode <;> simp only [taskModeToStr, Except.ok.injEq, reduceCtorEq] at encoded <;>
    subst encoded <;> rfl

theorem taskStatus_tag {status : TaskStatus}
    (decoded : taskStatusFromStr tag = .ok status) : taskStatusToStr status = .ok tag := by
  unfold taskStatusFromStr at decoded
  split at decoded <;> simp only [Except.ok.injEq, reduceCtorEq] at decoded <;> subst decoded <;> rfl

theorem taskMode_tag {mode : WorkMode}
    (decoded : taskModeFromStr tag = .ok mode) : taskModeToStr mode = .ok tag := by
  unfold taskModeFromStr at decoded
  split at decoded <;> simp only [Except.ok.injEq, reduceCtorEq] at decoded <;> subst decoded <;> rfl

theorem attemptPhase_roundTrip {phase : AttemptPhase}
    (encoded : attemptPhaseToStr phase = .ok tag) : attemptPhaseFromStr tag = .ok phase := by
  cases phase <;> simp only [attemptPhaseToStr, Except.ok.injEq, reduceCtorEq] at encoded <;>
    subst encoded <;> rfl

theorem reportOutcome_roundTrip {outcome : ReportOutcome}
    (encoded : reportOutcomeToStr outcome = .ok tag) : reportOutcomeFromStr tag = .ok outcome := by
  cases outcome <;> simp only [reportOutcomeToStr, Except.ok.injEq, reduceCtorEq] at encoded <;>
    subst encoded <;> rfl

theorem lostReason_roundTrip {reason : LostReason}
    (encoded : lostReasonToStr reason = .ok tag) : lostReasonFromStr tag = .ok reason := by
  cases reason <;> simp only [lostReasonToStr, Except.ok.injEq, reduceCtorEq] at encoded <;>
    subst encoded <;> rfl

theorem transpose_roundTrip {α β : Type} {encode : α → Except DbError β}
    {decode : β → Except DbError α} (roundTrip : ∀ {value tag}, encode value = .ok tag →
      decode tag = .ok value)
    {value : Option α} {tag : Option β} (encoded : transpose encode value = .ok tag) :
    transpose decode tag = .ok value := by
  cases value with
  | none =>
    rw [← Except.ok.inj encoded]
    rfl
  | some value =>
    cases inner : encode value with
    | error error => simp [transpose, inner, Except.map] at encoded
    | ok text =>
      simp only [transpose, inner, Except.map, Except.ok.injEq] at encoded
      subst encoded
      simp [transpose, roundTrip inner, Except.map]

end Tags

section Rows

theorem runFromRow_values (encoded : runValues run = .ok row) :
    runFromRow row = .ok run := by
  simp only [runValues, bind_eq_ok, pure_eq_ok] at encoded
  obtain ⟨tag, status, rfl⟩ := encoded
  simp [runFromRow, runStatus_roundTrip status]

theorem taskFromRow_values {row : TaskRow} (after : List TaskId)
    (encoded : taskValues task = .ok row) : taskFromRow row after = .ok { task with after } := by
  simp only [taskValues, bind_eq_ok, pure_eq_ok] at encoded
  obtain ⟨mode, first, status, second, rfl⟩ := encoded
  simp [taskFromRow, taskMode_roundTrip first, taskStatus_roundTrip second]

theorem taskValues_fromRow {row : TaskRow}
    (decoded : taskFromRow row after = .ok task) : taskValues task = .ok row := by
  simp only [taskFromRow, bind_eq_ok, pure_eq_ok] at decoded
  obtain ⟨mode, first, status, second, rfl⟩ := decoded
  simp [taskValues, taskMode_tag first, taskStatus_tag second]

theorem attemptFromRow_values {row : AttemptRow} (encoded : attemptValues attempt = .ok row) :
    ∃ report, attemptFromRow row = .ok { attempt with report } := by
  simp only [attemptValues, bind_eq_ok, pure_eq_ok] at encoded
  obtain ⟨phase, first, outcome, second, reason, third, rfl⟩ := encoded
  simp only [attemptFromRow, transpose_roundTrip reportOutcome_roundTrip second,
    attemptPhase_roundTrip first, transpose_roundTrip lostReason_roundTrip third]
  exact ⟨_, rfl⟩

theorem mem_of_mapM_ok {α β ε : Type} {convert : α → Except ε β} {rows : List α} {list : List β}
    (converted : rows.mapM convert = .ok list) :
    (∀ row ∈ rows, ∃ value ∈ list, convert row = .ok value) ∧
      ∀ value ∈ list, ∃ row ∈ rows, convert row = .ok value := by
  induction rows generalizing list with
  | nil =>
    rw [mapM_nil, pure_eq_ok] at converted
    subst converted
    simp
  | cons row rest ih =>
    simp only [mapM_cons, bind_eq_ok, pure_eq_ok] at converted
    obtain ⟨value, first, values, later, rfl⟩ := converted
    obtain ⟨forth, back⟩ := ih later
    constructor
    · intro item member
      rcases mem_cons.mp member with rfl | there
      · exact ⟨value, mem_cons_self, first⟩
      · obtain ⟨other, held, same⟩ := forth item there
        exact ⟨other, mem_cons_of_mem _ held, same⟩
    · intro item member
      rcases mem_cons.mp member with rfl | there
      · exact ⟨row, mem_cons_self, first⟩
      · obtain ⟨other, held, same⟩ := back item there
        exact ⟨other, mem_cons_of_mem _ held, same⟩

end Rows

section Updates

variable {Row κ ι : Type} {key : Row → κ}

/-- A statement that succeeds changes the row under one key, and no other. -/
def Touches (part : Tables → Store key) (name : κ) (updated : Row → Row → Prop)
    (statement : Statement) : Prop :=
  ∀ db, statement.Meets db fun result after => ∀ done, result = .ok done →
    Store.Rewritten (fun old row => (key old = name → updated old row) ∧ (key old ≠ name → row = old))
      (part db.tables) (part after.tables)

/-- A loop of such statements that succeeds has changed each row by one of its items. -/
theorem each_touches (part : Tables → Store key) {name : ι → κ} {updated : ι → Row → Row → Prop}
    {body : ι → Statement} (items : List ι)
    (touches : ∀ item ∈ items, Touches part (name item) (updated item) (body item))
    (again : ∀ {item other old middle row}, updated other old middle → updated item middle row →
      updated item old row) (db : Database) :
    (Section.each body items).Meets db fun result after => ∀ done, result = .ok done →
      Store.Rewritten (fun old row => (∃ item ∈ items, name item = key old ∧ updated item old row) ∨
        row = old ∧ ∀ item ∈ items, name item ≠ key old) (part db.tables) (part after.tables) := by
  induction items generalizing db with
  | nil => exact Meets.pure fun _ _ => .refl fun row _ => .inr ⟨rfl, by simp⟩
  | cons item rest ih =>
    unfold Section.each
    refine (touches item mem_cons_self db).bind ?_ ?_
    · intro error after _ done impossible
      cases impossible
    · intro value middle first
      refine (ih (fun other member => touches other (mem_cons_of_mem _ member)) middle).mono ?_
      intro result after later done same
      refine (first value rfl).trans (later done same) ?_
      rintro old _ row new named _ ⟨here, elsewhere⟩ change
      by_cases hit : key old = name item
      · refine .inl ?_
        rcases change with ⟨other, member, matches_, changed⟩ | ⟨rfl, _⟩
        · exact ⟨other, mem_cons_of_mem _ member, matches_.trans named.symm,
            again (here hit) changed⟩
        · exact ⟨item, mem_cons_self, hit.symm, here hit⟩
      · have same := elsewhere hit
        subst same
        rcases change with ⟨other, member, matches_, changed⟩ | ⟨rfl, none⟩
        · exact .inl ⟨other, mem_cons_of_mem _ member, matches_, changed⟩
        · refine .inr ⟨rfl, fun other member => ?_⟩
          rcases mem_cons.mp member with rfl | there
          · exact fun equal => hit equal.symm
          · exact none other there

/-- The row that `update_run` writes over another. -/
def RunWritten (run : Run) (old row : RunRow) : Prop := ∃ values, runValues run = .ok values ∧
  row = { values with id := old.id, projectId := old.projectId, createdAt := old.createdAt }

def TaskWritten (task : Task) (old row : TaskRow) : Prop := ∃ values, taskValues task = .ok values ∧
  row = { values with id := old.id, runId := old.runId, createdAt := old.createdAt }

def AttemptWritten (attempt : Attempt) (old row : AttemptRow) : Prop :=
  ∃ values, attemptValues attempt = .ok values ∧ row = { values with
    id := old.id, taskId := old.taskId, n := old.n, createdAt := old.createdAt }

theorem touches_of_modify [DecidableEq κ] {part : Tables → Store key} {name : κ}
    {updated : Row → Row → Prop} {statement : Tables → Except DbError Tables}
    (modifies : ∀ tables after, statement tables = .ok after → ∃ change keeps,
      part after = (part tables).modify name change keeps ∧ ∀ row, updated row (change row)) :
    Touches part name updated (execute statement) := by
  intro db
  refine (execute_meets statement db).mono ?_
  rintro result after meets done rfl
  obtain ⟨change, keeps, same, changed⟩ := modifies _ _ meets.2.2.2
  rw [same]
  exact .of_modify (fun row _ named => ⟨fun _ => changed row, fun other => absurd named other⟩)
    fun row _ other => ⟨fun named => absurd named other, fun _ => rfl⟩

theorem updateRunRow_ok {tables after : Tables}
    (updated : updateRunRow run tables = .ok after) : ∃ change keeps,
      after = { tables with runs := tables.runs.modify run.id change keeps } ∧
        ∀ row, RunWritten run row (change row) := by
  simp only [updateRunRow, bind_eq_ok, require_eq_ok, pure_eq_ok] at updated
  obtain ⟨values, encoded, _, _, rfl⟩ := updated
  exact ⟨_, _, rfl, fun row => ⟨values, encoded, rfl⟩⟩

theorem updateTaskRow_ok {tables after : Tables}
    (updated : updateTaskRow task tables = .ok after) : ∃ change keeps,
      after = { tables with tasks := tables.tasks.modify task.id change keeps } ∧
        ∀ row, TaskWritten task row (change row) := by
  simp only [updateTaskRow, bind_eq_ok, pure_eq_ok] at updated
  obtain ⟨values, encoded, rfl⟩ := updated
  exact ⟨_, _, rfl, fun row => ⟨values, encoded, rfl⟩⟩

theorem updateAttemptRow_ok {tables after : Tables}
    (updated : updateAttemptRow attempt tables = .ok after) : ∃ change keeps,
      after = { tables with attempts := tables.attempts.modify attempt.id change keeps } ∧
        ∀ row, AttemptWritten attempt row (change row) := by
  simp only [updateAttemptRow, bind_eq_ok, require_eq_ok, pure_eq_ok] at updated
  obtain ⟨values, encoded, _, _, rfl⟩ := updated
  exact ⟨_, _, rfl, fun row => ⟨values, encoded, rfl⟩⟩

theorem updateRun_touches (run : Run) :
    Touches Tables.runs run.id (RunWritten run) (updateRun run) := by
  refine touches_of_modify fun tables after updated => ?_
  obtain ⟨change, keeps, rfl, changed⟩ := updateRunRow_ok updated
  exact ⟨change, keeps, rfl, changed⟩

theorem updateAttempt_touches (attempt : Attempt) :
    Touches Tables.attempts attempt.id (AttemptWritten attempt) (updateAttempt attempt) := by
  refine touches_of_modify fun tables after updated => ?_
  obtain ⟨change, keeps, rfl, changed⟩ := updateAttemptRow_ok updated
  exact ⟨change, keeps, rfl, changed⟩

/-- The dependencies are written anew; every other table but the tasks' stays. -/
theorem updateTask_touches (task : Task) :
    Touches Tables.tasks task.id (TaskWritten task) (updateTask task) := by
  intro db
  have row : Touches Tables.tasks task.id (TaskWritten task) (execute (updateTaskRow task)) := by
    refine touches_of_modify fun tables after updated => ?_
    obtain ⟨change, keeps, rfl, changed⟩ := updateTaskRow_ok updated
    exact ⟨change, keeps, rfl, changed⟩
  unfold updateTask
  refine (row db).bind ?_ ?_
  · intro error after _ done impossible
    cases impossible
  · intro value middle written
    have deps : Keeps Tables.tasks (execute (deleteDeps task.id) >>= fun _ =>
        Section.each (fun after => execute (insertDep task.id after)) task.after) := by
      refine keeps_bind (keeps_execute fun tables after deleted => ?_) fun _ =>
        keeps_each fun after => keeps_insertDep (fun _ _ => rfl) task.id after
      rw [← Except.ok.inj deleted]
    refine (deps middle).mono ?_
    intro result after same done _
    rw [same]
    exact written value rfl

end Updates

section Collect

variable {α κ : Type} [DecidableEq κ] {key : α → κ}

theorem mem_collect {rows : List α} {row : α} (member : row ∈ collect key rows) : row ∈ rows := by
  have general : ∀ (rows : List α) (store : Store key),
      row ∈ rows.foldl (fun store row => store.put row) store → row ∈ store ∨ row ∈ rows := by
    intro rows
    induction rows with
    | nil => exact fun store there => .inl there
    | cons first rest ih =>
      intro store there
      rcases ih (store.put first) there with held | later
      · rcases mem_put.mp held with rfl | ⟨held, _⟩
        · exact .inr mem_cons_self
        · exact .inl held
      · exact .inr (mem_cons_of_mem _ later)
  exact (general rows Store.empty member).resolve_left (not_mem_empty row)

theorem collect_covers {rows : List α} {row : α} (member : row ∈ rows) :
    ∃ kept ∈ collect key rows, key kept = key row := by
  have general : ∀ (rows : List α) (store : Store key),
      ((∃ kept ∈ store, key kept = key row) ∨ row ∈ rows) →
        ∃ kept ∈ rows.foldl (fun store row => store.put row) store, key kept = key row := by
    intro rows
    induction rows with
    | nil =>
      rintro store (held | none)
      · exact held
      · cases none
    | cons first rest ih =>
      intro store there
      refine ih (store.put first) ?_
      rcases there with ⟨kept, held, same⟩ | there
      · by_cases replaced : key kept = key first
        · exact .inl ⟨first, mem_put.mpr (.inl rfl), replaced.symm.trans same⟩
        · exact .inl ⟨kept, mem_put.mpr (.inr ⟨held, replaced⟩), same⟩
      · rcases mem_cons.mp there with rfl | later
        · exact .inl ⟨row, mem_put.mpr (.inl rfl), rfl⟩
        · exact .inr later
  exact general rows Store.empty (.inr member)

end Collect

section Reconcile

variable {limits : OrchestrationLimits} {now : Timestamp}

theorem attemptFromRow_keys {row : AttemptRow}
    (decoded : attemptFromRow row = .ok attempt) :
    attempt.id = row.id ∧ attempt.taskId = row.taskId ∧
      attempt.n = row.n ∧ attempt.createdAt = row.createdAt := by
  simp only [attemptFromRow, bind_eq_ok, pure_eq_ok] at decoded
  obtain ⟨_, _, _, _, _, _, rfl⟩ := decoded
  exact ⟨rfl, rfl, rfl, rfl⟩

theorem taskFromRow_keys {row : TaskRow} (decoded : taskFromRow row after = .ok task) :
    task.id = row.id ∧ task.runId = row.runId ∧ task.createdAt = row.createdAt := by
  simp only [taskFromRow, bind_eq_ok, pure_eq_ok] at decoded
  obtain ⟨_, _, _, _, rfl⟩ := decoded
  exact ⟨rfl, rfl, rfl⟩

theorem runFromRow_keys (decoded : runFromRow row = .ok run) :
    run.id = row.id ∧ run.projectId = row.projectId ∧ run.createdAt = row.createdAt := by
  simp only [runFromRow, bind_eq_ok, pure_eq_ok] at decoded
  obtain ⟨_, _, rfl⟩ := decoded
  exact ⟨rfl, rfl, rfl⟩

theorem AttemptWritten.values {attempt old : Attempt} {row new : AttemptRow}
    (decoded : attemptFromRow row = .ok old) (written : AttemptWritten attempt row new)
    (same : attempt.id = old.id ∧ attempt.taskId = old.taskId ∧ attempt.n = old.n ∧
      attempt.createdAt = old.createdAt) : attemptValues attempt = .ok new := by
  obtain ⟨values, encoded, rfl⟩ := written
  obtain ⟨id, task, n, created⟩ := attemptFromRow_keys decoded
  rw [encoded]
  simp only [attemptValues, bind_eq_ok, pure_eq_ok] at encoded
  obtain ⟨_, _, _, _, _, _, rfl⟩ := encoded
  simp [← id, ← task, ← n, ← created, same.1, same.2.1, same.2.2.1, same.2.2.2]

theorem TaskWritten.values {task old : Task} {row new : TaskRow}
    (decoded : taskFromRow row after = .ok old) (written : TaskWritten task row new)
    (same : task.id = old.id ∧ task.runId = old.runId ∧ task.createdAt = old.createdAt) :
    taskValues task = .ok new := by
  obtain ⟨values, encoded, rfl⟩ := written
  obtain ⟨id, run, created⟩ := taskFromRow_keys decoded
  rw [encoded]
  simp only [taskValues, bind_eq_ok, pure_eq_ok] at encoded
  obtain ⟨_, _, _, _, rfl⟩ := encoded
  simp [← id, ← run, ← created, same.1, same.2.1, same.2.2]

theorem RunWritten.values {run old : Run} {row new : RunRow}
    (decoded : runFromRow row = .ok old) (written : RunWritten run row new)
    (same : run.id = old.id ∧ run.projectId = old.projectId ∧ run.createdAt = old.createdAt) :
    runValues run = .ok new := by
  obtain ⟨values, encoded, rfl⟩ := written
  obtain ⟨id, project, created⟩ := runFromRow_keys decoded
  rw [encoded]
  simp only [runValues, bind_eq_ok, pure_eq_ok] at encoded
  obtain ⟨_, _, rfl⟩ := encoded
  simp [← id, ← project, ← created, same.1, same.2.1, same.2.2]

theorem reconcileAttempt_keys (attempt : Attempt) :
    (reconcileAttempt now attempt).id = attempt.id ∧
      (reconcileAttempt now attempt).taskId = attempt.taskId ∧
      (reconcileAttempt now attempt).n = attempt.n ∧
      (reconcileAttempt now attempt).createdAt = attempt.createdAt := by
  unfold reconcileAttempt
  split <;> exact ⟨rfl, rfl, rfl, rfl⟩

theorem reconcileTask_keys (lost : List TaskId) (task : Task) :
    (reconcileTask lost limits now task).id = task.id ∧
      (reconcileTask lost limits now task).runId = task.runId ∧
      (reconcileTask lost limits now task).createdAt = task.createdAt := by
  unfold reconcileTask
  split <;> exact ⟨rfl, rfl, rfl⟩

theorem reconcileRun_keys (run : Run) : (reconcileRun now run).id = run.id ∧
    (reconcileRun now run).projectId = run.projectId ∧
      (reconcileRun now run).createdAt = run.createdAt := by
  unfold reconcileRun
  split <;> exact ⟨rfl, rfl, rfl⟩

/-- The tasks that a live attempt is stored for. -/
def lostTasks (attempts : List Attempt) : List TaskId :=
  (attempts.filter Attempt.isLive).map (·.taskId)

/-- What the tables hold once startup has reconciled them. -/
structure Reconciled (limits : OrchestrationLimits) (now : Timestamp) (before after : Tables) :
    Prop where
  sessions : after.sessions = before.sessions
  runs : Store.Rewritten (fun row new => ∃ run, runFromRow row = .ok run ∧
    runValues (reconcileRun now run) = .ok new) before.runs after.runs
  attempts : Store.Rewritten (fun row new => ∃ attempt, attemptFromRow row = .ok attempt ∧
    attemptValues (reconcileAttempt now attempt) = .ok new) before.attempts after.attempts
  tasks : ∃ attempts, listAttempts before = .ok attempts ∧
    Store.Rewritten (fun row new => ∃ task, taskFromRow row (deps before row.id) = .ok task ∧
      taskValues (reconcileTask (lostTasks attempts) limits now task) = .ok new)
      before.tasks after.tasks

theorem listAll_ok {db : Database} {runs : List Run} {tasks : List Task} {attempts : List Attempt}
    (listed : listAll db = .ok (runs, tasks, attempts)) :
    listRuns db.tables = .ok runs ∧ listTasks db.tables = .ok tasks ∧
      listAttempts db.tables = .ok attempts := by
  simp only [listAll, bind_eq_ok, pure_eq_ok, Prod.mk.injEq] at listed
  obtain ⟨_, first, _, second, _, third, rfl, rfl, rfl⟩ := listed
  exact ⟨first, second, third⟩

/-- Nothing to reconcile: no run and no attempt is stored. -/
theorem Reconciled.of_empty {db : Database} {runs : List Run} {tasks : List Task}
    {attempts : List Attempt} (listed : listAll db = .ok (runs, tasks, attempts))
    (noRuns : runs = []) (noAttempts : attempts = []) :
    Reconciled limits now db.tables db.tables := by
  obtain ⟨first, second, third⟩ := listAll_ok listed
  refine ⟨rfl, .refl fun row member => ?_, .refl fun row member => ?_, attempts, third,
    .refl fun row member => ?_⟩
  · obtain ⟨run, there, _⟩ := (mem_of_mapM_ok first).1 row member
    rw [noRuns] at there
    cases there
  · obtain ⟨attempt, there, _⟩ := (mem_of_mapM_ok third).1 row member
    rw [noAttempts] at there
    cases there
  · obtain ⟨task, _, decoded⟩ := (mem_of_mapM_ok second).1 row member
    refine ⟨task, decoded, ?_⟩
    rw [noAttempts]
    exact taskValues_fromRow decoded

/-- A listed row is the one that its reconciled value is written over. -/
theorem written_of_listed {Row Value κ : Type} [DecidableEq κ] {key : Row → κ} {rows : Store key}
    {name : Value → κ} {decode : Row → Except DbError Value} {reconcile : Value → Value}
    {list : List Value} {written : Value → Row → Row → Prop}
    (listed : rows.rows.mapM decode = .ok list)
    (keys : ∀ {row value}, decode row = .ok value → name value = key row)
    (keeps : ∀ value, name (reconcile value) = name value) {row new : Row} (member : row ∈ rows)
    (change : (∃ item ∈ list.map reconcile, name item = key row ∧ written item row new) ∨
      new = row ∧ ∀ item ∈ list.map reconcile, name item ≠ key row) :
    ∃ value, decode row = .ok value ∧ written (reconcile value) row new := by
  obtain ⟨forth, back⟩ := mem_of_mapM_ok listed
  rcases change with ⟨item, there, same, changed⟩ | ⟨_, none⟩
  · obtain ⟨value, held, rfl⟩ := List.mem_map.mp there
    obtain ⟨other, stored, decoded⟩ := back value held
    have equal : other = row := eq_of_key stored member
      ((keys decoded).symm.trans ((keeps value).symm.trans same))
    exact ⟨value, equal ▸ decoded, changed⟩
  · obtain ⟨value, held, decoded⟩ := forth row member
    exact absurd ((keeps value).trans (keys decoded)) (none _ (mem_map_of_mem held))

theorem AttemptWritten.again {item other : Attempt} {old middle row : AttemptRow}
    (first : AttemptWritten other old middle) (second : AttemptWritten item middle row) :
    AttemptWritten item old row := by
  obtain ⟨_, _, rfl⟩ := first
  exact second

theorem TaskWritten.again {item other : Task} {old middle row : TaskRow}
    (first : TaskWritten other old middle) (second : TaskWritten item middle row) :
    TaskWritten item old row := by
  obtain ⟨_, _, rfl⟩ := first
  exact second

theorem RunWritten.again {item other : Run} {old middle row : RunRow}
    (first : RunWritten other old middle) (second : RunWritten item middle row) :
    RunWritten item old row := by
  obtain ⟨_, _, rfl⟩ := first
  exact second

theorem reconcileStartup_meets (db : Database) : (reconcileStartup limits now).Meets db
    fun result after => ∀ done, result = .ok done →
    Reconciled limits now db.tables after.tables := by
  unfold reconcileStartup
  refine Meets.check_bind (fun _ _ _ impossible => by cases impossible) ?_
  rintro ⟨runs, tasks, attempts⟩ listed
  obtain ⟨first, second, third⟩ := listAll_ok listed
  dsimp only
  split
  · rename_i empty
    simp only [Bool.and_eq_true, List.isEmpty_iff] at empty
    exact fun _ _ => .of_empty listed empty.1 empty.2
  · have runLoop := (each_touches Tables.runs (runs.map (reconcileRun now))
      (fun run _ => updateRun_touches run) RunWritten.again db).both
      ((keeps_each fun run => keeps_updateRun (fun _ _ => rfl) run :
        Keeps (fun tables => (tables.sessions, tables.tasks, tables.attempts)) _) db)
    refine runLoop.bind (fun _ _ _ _ impossible => by cases impossible) ?_
    rintro value middle ⟨runRows, keptRuns⟩
    have taskLoop := (each_touches Tables.tasks
      (tasks.map (reconcileTask (lostTasks attempts) limits now))
      (fun task _ => updateTask_touches task) TaskWritten.again middle).both
      ((keeps_each fun task => keeps_updateTask (fun _ _ _ => rfl) task :
        Keeps (fun tables => (tables.sessions, tables.runs, tables.attempts)) _) middle)
    refine taskLoop.bind (fun _ _ _ _ impossible => by cases impossible) ?_
    rintro value' later ⟨taskRows, keptTasks⟩
    have attemptLoop := (each_touches Tables.attempts
      (attempts.map (reconcileAttempt now))
      (fun attempt _ => updateAttempt_touches attempt) AttemptWritten.again later).both
      ((keeps_each fun attempt => keeps_updateAttempt (fun _ _ => rfl) attempt :
        Keeps (fun tables => (tables.sessions, tables.runs, tables.tasks)) _) later)
    refine attemptLoop.mono ?_
    rintro result after ⟨attemptRows, keptAttempts⟩ done finished
    simp only [Prod.mk.injEq] at keptRuns keptTasks keptAttempts
    have runsDone := runRows value rfl
    have tasksDone := taskRows value' rfl
    have attemptsDone := attemptRows done finished
    rw [← keptTasks.2.1, ← keptAttempts.2.1] at runsDone
    rw [keptRuns.2.1, ← keptAttempts.2.2] at tasksDone
    rw [keptTasks.2.2, keptRuns.2.2] at attemptsDone
    refine ⟨keptAttempts.1.trans (keptTasks.1.trans keptRuns.1), ?_, ?_, attempts, third, ?_⟩
    · refine runsDone.mono fun row member new _ change => ?_
      obtain ⟨run, decoded, written⟩ := written_of_listed first
        (fun decoded => (runFromRow_keys decoded).1) (fun run => (reconcileRun_keys run).1) member
        change
      exact ⟨run, decoded, written.values decoded (reconcileRun_keys run)⟩
    · refine attemptsDone.mono fun row member new _ change => ?_
      obtain ⟨attempt, decoded, written⟩ := written_of_listed third
        (fun decoded => (attemptFromRow_keys decoded).1)
        (fun attempt => (reconcileAttempt_keys attempt).1) member change
      exact ⟨attempt, decoded, written.values decoded (reconcileAttempt_keys attempt)⟩
    · refine tasksDone.mono fun row member new _ change => ?_
      obtain ⟨task, decoded, written⟩ := written_of_listed second
        (fun decoded => (taskFromRow_keys decoded).1) (fun task => (reconcileTask_keys _ task).1)
        member change
      exact ⟨task, decoded, written.values decoded (reconcileTask_keys _ task)⟩

end Reconcile

section Load

/-- A map loaded from a table holds what its rows decode to. -/
theorem mem_loaded {Row Value κ : Type} [DecidableEq κ] {key : Row → κ} {rows : Store key}
    {name : Value → κ} {decode : Row → Except DbError Value} {list : List Value}
    (listed : rows.rows.mapM decode = .ok list)
    (keys : ∀ {row value}, decode row = .ok value → name value = key row) {value : Value} :
    value ∈ collect name list ↔ ∃ row ∈ rows, decode row = .ok value := by
  obtain ⟨forth, back⟩ := mem_of_mapM_ok listed
  constructor
  · intro member
    exact back value (mem_collect member)
  · rintro ⟨row, member, decoded⟩
    obtain ⟨other, there, decoded'⟩ := forth row member
    obtain ⟨kept, held, same⟩ := @collect_covers _ _ _ name _ _ there
    obtain ⟨row', member', decoded''⟩ := back kept (mem_collect held)
    have equal : row' = row :=
      eq_of_key member' member ((keys decoded'').symm.trans (same.trans (keys decoded')))
    subst equal
    rw [Except.ok.inj (decoded.symm.trans decoded'')]
    exact held

/-- A ledger is what the tables decode to. -/
structure Reads (limits : OrchestrationLimits) (tables : Tables) (ledger : Ledger) : Prop where
  runs : ∀ run, run ∈ ledger.runs ↔ ∃ row ∈ tables.runs, runFromRow row = .ok run
  tasks : ∀ task, task ∈ ledger.tasks ↔
    ∃ row ∈ tables.tasks, taskFromRow row (deps tables row.id) = .ok task
  attempts : ∀ attempt, attempt ∈ ledger.attempts ↔
    ∃ row ∈ tables.attempts, attemptFromRow row = .ok attempt
  budget : ledger.maxAttemptsPerTask = limits.maxAttemptsPerTask

variable {limits : OrchestrationLimits} {now : Timestamp}

theorem loadLedger_reads {tables : Tables} {ledger : Ledger}
    (loaded : loadLedger limits tables = .ok ledger) : Reads limits tables ledger := by
  simp only [loadLedger, bind_eq_ok, pure_eq_ok] at loaded
  obtain ⟨runs, first, tasks, second, attempts, third, rfl⟩ := loaded
  exact ⟨fun _ => mem_loaded first fun decoded => (runFromRow_keys decoded).1,
    fun _ => mem_loaded second fun decoded => (taskFromRow_keys decoded).1,
    fun _ => mem_loaded third fun decoded => (attemptFromRow_keys decoded).1, rfl⟩

/-- The sessions' statement of startup takes a session from a row, and changes no more of it. -/
structure Detached (before after : Tables) : Prop where
  tasks : after.tasks = before.tasks
  runs : Store.Rewritten (fun row new => ∃ controller,
    new = { row with controllerSessionId := controller }) before.runs after.runs
  attempts : Store.Rewritten (fun row new => (new = row ∨ new = { row with sessionId := none }))
    before.attempts after.attempts
  sessions : ∀ session ∈ after.sessions, ∃ old ∈ before.sessions, old.id = session.id

/-- Either sessions' statement of startup. -/
def settleSessions (persistHistory : Bool) : Tables → Except DbError Tables :=
  if persistHistory then reconcileOrphaned else purgeSessions

theorem settleSessions_ok {persistHistory : Bool} {before after : Tables}
    (settled : settleSessions persistHistory before = .ok after) : Detached before after := by
  unfold settleSessions at settled
  split at settled
  · simp only [reconcileOrphaned, Except.ok.injEq] at settled
    subst settled
    refine ⟨rfl, .refl fun row _ => ⟨row.controllerSessionId, rfl⟩, .refl fun _ _ => .inl rfl, ?_⟩
    intro session member
    dsimp only at member
    obtain ⟨old, there, rfl⟩ := Store.mem_map.mp member
    refine ⟨old, there, ?_⟩
    unfold Session.orphan
    split <;> rfl
  · simp only [purgeSessions, Except.ok.injEq] at settled
    subst settled
    refine ⟨rfl, ?_, ?_, fun session member => absurd member (not_mem_empty session)⟩
    · dsimp only
      exact .of_map fun row _ => ⟨none, rfl⟩
    · dsimp only
      exact .of_map fun row _ => .inr rfl

theorem attemptFromRow_detached {row : AttemptRow} (decoded : attemptFromRow row = .ok attempt) :
    attemptFromRow { row with sessionId := none } = .ok { attempt with sessionId := none } := by
  simp only [attemptFromRow, bind_eq_ok, pure_eq_ok] at decoded ⊢
  obtain ⟨outcome, first, phase, second, reason, third, rfl⟩ := decoded
  exact ⟨outcome, first, phase, second, reason, third, rfl⟩

theorem runFromRow_detached (controller : Option SessionId) (decoded : runFromRow row = .ok run) :
    runFromRow { row with controllerSessionId := controller } =
      .ok { run with controllerSessionId := controller } := by
  simp only [runFromRow, bind_eq_ok, pure_eq_ok] at decoded ⊢
  obtain ⟨status, first, rfl⟩ := decoded
  exact ⟨status, first, rfl⟩

/-- What a start that came up holds, by the rows it found stored. -/
structure Loaded (limits : OrchestrationLimits) (now : Timestamp) (before : Tables)
    (after : Inner) :
    Prop where
  reads : Reads limits after.db.tables after.ledger
  sessions : after.sessions = after.db.tables.sessions
  runs : ∀ run ∈ after.ledger.runs, ∃ row ∈ before.runs, ∃ old controller,
    runFromRow row = .ok old ∧ run = { reconcileRun now old with controllerSessionId := controller }
  tasks : ∃ attempts, listAttempts before = .ok attempts ∧ ∀ task ∈ after.ledger.tasks,
    ∃ row ∈ before.tasks, ∃ old deps', taskFromRow row (deps before row.id) = .ok old ∧
      task = { reconcileTask (lostTasks attempts) limits now old with after := deps' }
  attempts : ∀ attempt ∈ after.ledger.attempts, ∃ row ∈ before.attempts,
    ∃ old session report, attemptFromRow row = .ok old ∧ (session = old.sessionId ∨ session = none) ∧
      attempt = { reconcileAttempt now old with sessionId := session, report }
  allTasks : ∀ row ∈ before.tasks, ∃ task ∈ after.ledger.tasks, task.id = row.id
  allAttempts : ∀ row ∈ before.attempts, ∃ attempt ∈ after.ledger.attempts,
    attempt.id = row.id

theorem Loaded.of_steps {before middle : Tables} {after : Inner}
    (reconciled : Reconciled limits now before middle)
    (detached : Detached middle after.db.tables) (reads : Reads limits after.db.tables after.ledger)
    (sessions : after.sessions = after.db.tables.sessions) : Loaded limits now before after := by
  obtain ⟨attempts, listed, rewritten⟩ := reconciled.tasks
  refine ⟨reads, sessions, ?_, ⟨attempts, listed, ?_⟩, ?_, ?_, ?_⟩
  · intro run member
    obtain ⟨row, there, decoded⟩ := (reads.runs run).mp member
    obtain ⟨before', held, _, controller, rfl⟩ := detached.runs.back row there
    obtain ⟨first, stored, _, old, decoded', written⟩ := reconciled.runs.back before' held
    have again := runFromRow_detached controller (runFromRow_values written)
    exact ⟨first, stored, old, controller, decoded', (Except.ok.inj (again.symm.trans decoded)).symm⟩
  · intro task member
    obtain ⟨row, there, decoded⟩ := (reads.tasks task).mp member
    rw [detached.tasks] at there
    obtain ⟨first, stored, _, old, decoded', written⟩ := rewritten.back row there
    have again := taskFromRow_values (deps after.db.tables row.id) written
    exact ⟨first, stored, old, _, decoded', (Except.ok.inj (again.symm.trans decoded)).symm⟩
  · intro attempt member
    obtain ⟨row, there, decoded⟩ := (reads.attempts attempt).mp member
    obtain ⟨before', held, _, kept⟩ := detached.attempts.back row there
    obtain ⟨first, stored, _, old, decoded', written⟩ := reconciled.attempts.back before' held
    obtain ⟨report, again⟩ := attemptFromRow_values written
    rcases kept with rfl | rfl
    · refine ⟨first, stored, old, _, report, decoded', .inl rfl, ?_⟩
      rw [← Except.ok.inj (again.symm.trans decoded)]
      unfold reconcileAttempt
      split <;> rfl
    · refine ⟨first, stored, old, none, report, decoded', .inr rfl, ?_⟩
      exact (Except.ok.inj ((attemptFromRow_detached again).symm.trans decoded)).symm
  · intro row member
    obtain ⟨new, there, named, old, decoded, written⟩ := rewritten.forth row member
    have again := taskFromRow_values (deps after.db.tables new.id) written
    exact ⟨_, (reads.tasks _).mpr ⟨new, detached.tasks ▸ there, again⟩,
      (taskFromRow_keys again).1.trans named⟩
  · intro row member
    obtain ⟨new, there, named, old, decoded, written⟩ := reconciled.attempts.forth row member
    obtain ⟨report, again⟩ := attemptFromRow_values written
    obtain ⟨last, held, named', kept⟩ := detached.attempts.forth new there
    rcases kept with rfl | rfl
    · exact ⟨_, (reads.attempts _).mpr ⟨_, held, again⟩, (attemptFromRow_keys again).1.trans named⟩
    · have again' := attemptFromRow_detached again
      exact ⟨_, (reads.attempts _).mpr ⟨_, held, again'⟩,
        (attemptFromRow_keys again').1.trans named⟩

theorem Loaded.settled {before : Tables} {after : Inner} (loaded : Loaded limits now before after)
    (member : attempt ∈ after.ledger.attempts) : attempt.isLive = false := by
  obtain ⟨_, _, old, _, _, _, _, rfl⟩ := loaded.attempts attempt member
  unfold reconcileAttempt
  split
  · rfl
  · rename_i settled
    exact Bool.eq_false_iff.mpr settled

theorem loadDaemon_meets {persistHistory : Bool} {inner : Inner} :
    (loadDaemon limits persistHistory now).Meets inner fun result after => match result with
      | .ok _ => Loaded limits now inner.db.tables after
      | .error _ => after.ledger = inner.ledger ∧ after.sessions = inner.sessions := by
  unfold loadDaemon
  refine Handler.persist_bind_of (reconcileStartup_meets inner.db) (fun _ _ _ => ⟨rfl, rfl⟩)
    fun db reconciled => ?_
  refine Handler.persist_bind_of (execute_meets _ _) (fun _ _ _ => ⟨rfl, rfl⟩) fun db' settled => ?_
  refine Section.Meets.check_bind (fun _ _ => ⟨rfl, rfl⟩) fun ledger read => ?_
  refine Section.Meets.change ?_
  exact .of_steps (reconciled ⟨⟩ rfl) (settleSessions_ok settled.2.2.2)
    (loadLedger_reads (mapError_eq_ok.mp read)) rfl

end Load

end ForgeNode.Orchestration
