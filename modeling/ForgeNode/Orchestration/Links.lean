import ForgeNode.Orchestration.Owners

/-! What rows say of the rows they belong to: a run of its project and parent, a task of its run,
an attempt of its task, in memory and stored alike, and that those rows are there. No statement
changes what a row belongs to. -/

namespace ForgeNode.Orchestration

open Store

open Section (Meets Preserves)

/-- What is said of each id by the columns that a row keeps. -/
structure Links where
  run : RunId → ProjectId → Option AttemptId → Prop
  task : TaskId → RunId → Timestamp → Prop
  attempt : AttemptId → TaskId → Nat → Timestamp → Prop

/-- Nothing is said twice of one id. -/
structure Links.One (links : Links) : Prop where
  run : ∀ {id project project' parent parent'}, links.run id project parent →
    links.run id project' parent' → project = project' ∧ parent = parent'
  task : ∀ {id run run' created created'}, links.task id run created →
    links.task id run' created' → run = run' ∧ created = created'
  attempt : ∀ {id task task' n n' created created'}, links.attempt id task n created →
    links.attempt id task' n' created' → task = task' ∧ n = n' ∧ created = created'

/-- The rows in memory: each task has its run there, and each attempt its task. -/
structure Roots (links : Links) (ledger : Ledger) : Prop where
  runs : ∀ run ∈ ledger.runs, links.run run.id run.projectId run.parentAttemptId
  tasks : ∀ task ∈ ledger.tasks, links.task task.id task.runId task.createdAt ∧
    ∃ run ∈ ledger.runs, run.id = task.runId
  attempts : ∀ attempt ∈ ledger.attempts,
    links.attempt attempt.id attempt.taskId attempt.n attempt.createdAt ∧
      ∃ task ∈ ledger.tasks, task.id = attempt.taskId

/-- The stored rows beside a ledger: its runs are all the stored ones, and of the stored attempts it
has those that a run may name. A stored run may have lost its parent. -/
structure Stems (links : Links) (named : AttemptId → Prop) (ledger : Ledger) (tables : Tables) :
    Prop where
  runs : ∀ row ∈ tables.runs, (∃ run ∈ ledger.runs, run.id = row.id) ∧
    (∃ parent, links.run row.id row.projectId parent) ∧
    (row.parentAttemptId = none ∨ ∃ project, links.run row.id project row.parentAttemptId)
  tasks : ∀ row ∈ tables.tasks, links.task row.id row.runId row.createdAt ∧
    ∃ run ∈ tables.runs, run.id = row.runId
  attempts : ∀ row ∈ tables.attempts, links.attempt row.id row.taskId row.n row.createdAt ∧
    (∃ task ∈ tables.tasks, task.id = row.taskId) ∧
    (named row.id → ∃ attempt ∈ ledger.attempts, attempt.id = row.id)

structure Rooted (links : Links) (named : AttemptId → Prop) (inner : Inner) : Prop where
  memory : Roots links inner.ledger
  stored : Stems links named inner.ledger inner.db.tables

variable {links : Links} {named : AttemptId → Prop} {ledger : Ledger} {limits : OrchestrationLimits}
  {now : Timestamp} {fresh : Nat}

section Statements

/-- What a stored run may become: it stays in its project, and names its parent as before, as is
said of it, or no more. -/
def SameRun (links : Links) (old row : RunRow) : Prop :=
  row.projectId = old.projectId ∧ (row.parentAttemptId = old.parentAttemptId ∨
    row.parentAttemptId = none ∨ ∃ project, links.run old.id project row.parentAttemptId)

def SameTask (old row : TaskRow) : Prop := row.runId = old.runId ∧ row.createdAt = old.createdAt

def SameAttempt (old row : AttemptRow) : Prop :=
  row.taskId = old.taskId ∧ row.n = old.n ∧ row.createdAt = old.createdAt

/-- Rows rewritten without a change of what they belong to. -/
theorem Stems.rewritten {tables after : Tables} (stems : Stems links named ledger tables)
    (runs : Store.Rewritten (SameRun links) tables.runs after.runs)
    (tasks : Store.Rewritten SameTask tables.tasks after.tasks)
    (attempts : Store.Rewritten SameAttempt tables.attempts after.attempts) :
    Stems links named ledger after := by
  refine ⟨fun row member => ?_, fun row member => ?_, fun row member => ?_⟩
  · obtain ⟨old, there, same, project, parent⟩ := runs.back row member
    obtain ⟨shown, known, kept⟩ := stems.runs old there
    rw [← same, project]
    refine ⟨shown, known, ?_⟩
    rcases parent with still | gone | held
    · rw [still]
      exact kept
    · exact .inl gone
    · exact .inr held
  · obtain ⟨old, there, same, run, created⟩ := tasks.back row member
    obtain ⟨known, first, held, named⟩ := stems.tasks old there
    obtain ⟨later, held', named', _⟩ := runs.forth first held
    rw [← same, run, created]
    exact ⟨known, later, held', named'.trans named⟩
  · obtain ⟨old, there, same, task, n, created⟩ := attempts.back row member
    obtain ⟨known, ⟨first, held, named⟩, shown⟩ := stems.attempts old there
    obtain ⟨later, held', named', _⟩ := tasks.forth first held
    rw [← same, task, n, created]
    exact ⟨known, ⟨later, held', named'.trans named⟩, shown⟩

theorem sameRuns (runs : Store RunRow.id) : Store.Rewritten (SameRun links) runs runs :=
  .refl fun _ _ => ⟨rfl, .inl rfl⟩

theorem sameTasks (tasks : Store TaskRow.id) : Store.Rewritten SameTask tasks tasks :=
  .refl fun _ _ => ⟨rfl, rfl⟩

theorem sameAttempts (attempts : Store AttemptRow.id) :
    Store.Rewritten SameAttempt attempts attempts :=
  .refl fun _ _ => ⟨rfl, rfl, rfl⟩

theorem execute_stems {statement : Tables → Except DbError Tables}
    (keeps : ∀ {tables after}, statement tables = .ok after → Stems links named ledger tables →
      Stems links named ledger after) :
    Preserves (fun db : Database => Stems links named ledger db.tables) (execute statement) := by
  intro db stems
  refine (execute_meets statement db).mono fun result after meets => ?_
  cases result with
  | ok done => exact keeps meets.2.2.2 stems
  | error error => exact meets.1 ▸ stems

theorem keeps_stems {statement : Statement}
    (keeps : Keeps (fun tables => (tables.runs, tables.tasks, tables.attempts)) statement) :
    Preserves (fun db : Database => Stems links named ledger db.tables) statement := by
  intro db stems
  refine (keeps db).mono fun _ after same => ?_
  simp only [Prod.mk.injEq] at same
  refine stems.rewritten ?_ ?_ ?_
  · rw [same.1]
    exact sameRuns _
  · rw [same.2.1]
    exact sameTasks _
  · rw [same.2.2]
    exact sameAttempts _

theorem updateRun_stems {run : Run} (known : run.parentAttemptId = none ∨
      ∃ project, links.run run.id project run.parentAttemptId) :
    Preserves (fun db : Database => Stems links named ledger db.tables) (updateRun run) := by
  refine execute_stems fun updated stems => ?_
  obtain ⟨change, keeps, rfl, changed⟩ := updateRunRow_ok updated
  refine stems.rewritten (@Store.Rewritten.of_modify _ _ _ _ _ _ _ keeps _ ?_ ?_) (sameTasks _)
    (sameAttempts _)
  · intro row there same
    obtain ⟨values, encoded, written⟩ := changed row
    simp only [runValues, bind_eq_ok, pure_eq_ok] at encoded
    obtain ⟨_, _, rfl⟩ := encoded
    rw [written]
    exact ⟨rfl, .inr (same ▸ known)⟩
  · exact fun row _ _ => ⟨rfl, .inl rfl⟩

theorem updateAttempt_stems {attempt : Attempt} :
    Preserves (fun db : Database => Stems links named ledger db.tables)
    (updateAttempt attempt) := by
  refine execute_stems fun updated stems => ?_
  obtain ⟨change, keeps, rfl, changed⟩ := updateAttemptRow_ok updated
  refine stems.rewritten (sameRuns _) (sameTasks _)
    (@Store.Rewritten.of_modify _ _ _ _ _ _ _ keeps _ ?_ fun row _ _ => ⟨rfl, rfl, rfl⟩)
  intro row there same
  obtain ⟨values, encoded, written⟩ := changed row
  rw [written]
  exact ⟨rfl, rfl, rfl⟩

theorem insertDep_stems {task after : TaskId} :
    Preserves (fun db : Database => Stems links named ledger db.tables)
      (execute (insertDep task after)) :=
  keeps_stems (keeps_insertDep (fun _ _ => rfl) task after)

theorem updateTask_stems {task : Task} :
    Preserves (fun db : Database => Stems links named ledger db.tables) (updateTask task) := by
  refine .bind (execute_stems fun updated stems => ?_) fun _ =>
    .bind (keeps_stems (keeps_execute ?_)) fun _ => .each fun _ _ => insertDep_stems
  · obtain ⟨change, keeps, rfl, changed⟩ := updateTaskRow_ok updated
    refine stems.rewritten (sameRuns _)
      (@Store.Rewritten.of_modify _ _ _ _ _ _ _ keeps _ ?_ fun row _ _ => ⟨rfl, rfl⟩) (sameAttempts _)
    intro row there same
    obtain ⟨values, encoded, written⟩ := changed row
    rw [written]
    exact ⟨rfl, rfl⟩
  · intro tables after deleted
    rw [← Except.ok.inj deleted]

theorem insertTask_stems {task : Task} (known : links.task task.id task.runId task.createdAt) :
    Preserves (fun db : Database => Stems links named ledger db.tables) (insertTask task) := by
  refine .bind (execute_stems fun inserted stems => ?_) fun _ => .each fun _ _ => insertDep_stems
  simp only [insertTaskRow, taskValues, bind_eq_ok, require_eq_ok, pure_eq_ok] at inserted
  obtain ⟨_, ⟨_, _, _, _, rfl⟩, _, unused, _, run, rfl⟩ := inserted
  obtain ⟨first, held⟩ := Option.isSome_iff_exists.mp run
  refine ⟨stems.runs, fun row member => ?_, fun row member => ?_⟩
  · rcases mem_put.mp member with rfl | ⟨there, _⟩
    · exact ⟨known, first, mem_of_get? held, key_of_get? held⟩
    · exact stems.tasks row there
  · obtain ⟨known, ⟨first, there, same⟩, shown⟩ := stems.attempts row member
    refine ⟨known, ⟨first, mem_put.mpr (.inr ⟨there, fun equal => ?_⟩), same⟩, shown⟩
    exact get?_eq_none.mp (Option.isNone_iff_eq_none.mp unused) first there equal

theorem insertAttempt_stems {attempt : Attempt}
    (known : links.attempt attempt.id attempt.taskId attempt.n attempt.createdAt)
    (unnamed : ¬ named attempt.id) :
    Preserves (fun db : Database => Stems links named ledger db.tables)
    (insertAttempt attempt) := by
  refine execute_stems fun inserted stems => ?_
  simp only [insertAttemptRow, attemptValues, bind_eq_ok, require_eq_ok, pure_eq_ok] at inserted
  obtain ⟨_, ⟨_, _, _, _, _, _, rfl⟩, _, _, _, ⟨task, _⟩, rfl⟩ := inserted
  obtain ⟨first, held⟩ := Option.isSome_iff_exists.mp task
  refine ⟨stems.runs, stems.tasks, fun row member => ?_⟩
  rcases mem_put.mp member with rfl | ⟨there, _⟩
  · exact ⟨known, ⟨first, mem_of_get? held, key_of_get? held⟩,
      fun impossible => absurd impossible unnamed⟩
  · exact stems.attempts row there

theorem deleteSessionRow_stems {session : SessionId} :
    Preserves (fun db : Database => Stems links named ledger db.tables)
      (execute (deleteSessionRow session)) := by
  refine execute_stems fun deleted stems => ?_
  rw [← Except.ok.inj deleted]
  refine stems.rewritten (@Store.Rewritten.of_map _ _ _ _ _ _ (fun row => by split <;> rfl) ?_)
    (sameTasks _) (@Store.Rewritten.of_map _ _ _ _ _ _ (fun row => by split <;> rfl) ?_)
  · intro row _
    split <;> exact ⟨rfl, .inl rfl⟩
  · intro row _
    split <;> exact ⟨rfl, rfl, rfl⟩

theorem deleteWorkspaceRow_stems {workspace : WorkspaceId} :
    Preserves (fun db : Database => Stems links named ledger db.tables)
      (execute (deleteWorkspaceRow workspace)) := by
  refine execute_stems fun deleted stems => ?_
  simp only [deleteWorkspaceRow, bind_eq_ok, pure_eq_ok] at deleted
  obtain ⟨_, _, rfl⟩ := deleted
  refine stems.rewritten (@Store.Rewritten.of_map _ _ _ _ _ _ (fun row => by split <;> rfl) ?_)
    (sameTasks _) (@Store.Rewritten.of_map _ _ _ _ _ _ (fun row => by split <;> rfl) ?_)
  · intro row _
    split <;> exact ⟨rfl, .inl rfl⟩
  · intro row _
    split <;> exact ⟨rfl, rfl, rfl⟩

theorem not_contains_map {α : Type} {rows : List α} {key : α → Nat} {name : Nat} :
    (!(rows.map key).contains name) = true ↔ ∀ row ∈ rows, key row ≠ name := by
  simp only [Bool.not_eq_true', List.contains_eq_mem, decide_eq_false_iff_not, List.mem_map,
    not_exists, not_and, ne_eq]

/-- With a project all that belongs to it goes. -/
theorem deleteProjectRow_stems {project : ProjectId} {tables after : Tables}
    (deleted : deleteProjectRow project tables = .ok after)
    (stems : Stems links named ledger tables) :
    Stems links named ledger after ∧ ∀ row ∈ after.runs, row.projectId ≠ project := by
  simp only [deleteProjectRow, bind_eq_ok, pure_eq_ok] at deleted
  obtain ⟨_, _, rfl⟩ := deleted
  refine ⟨⟨fun row member => ?_, fun row member => ?_, fun row member => ?_⟩, fun row member => ?_⟩
  · obtain ⟨old, there, rfl⟩ := List.mem_map.mp member
    obtain ⟨shown, known, kept⟩ := stems.runs old (Store.mem_retain.mp there).1
    split
    · exact ⟨shown, known, .inl rfl⟩
    · exact ⟨shown, known, kept⟩
  · obtain ⟨there, stays⟩ := Store.mem_retain.mp member
    obtain ⟨known, run, held, same⟩ := stems.tasks row there
    have other : run.projectId ≠ project := fun inside => not_contains_map.mp stays run
      (List.mem_filter.mpr ⟨held, beq_iff_eq.mpr inside⟩) same
    have kept : run ∈ tables.runs.retain fun row => row.projectId != project :=
      Store.mem_retain.mpr ⟨held, bne_iff_ne.mpr other⟩
    refine ⟨known, _, List.mem_map.mpr ⟨run, kept, rfl⟩, ?_⟩
    split <;> exact same
  · obtain ⟨there, stays⟩ := Store.mem_retain.mp member
    obtain ⟨known, ⟨task, held, same⟩, shown⟩ := stems.attempts row there
    refine ⟨known, ⟨task, Store.mem_retain.mpr ⟨held, ?_⟩, same⟩, shown⟩
    rw [Bool.not_eq_true', Bool.eq_false_iff]
    exact fun inside => not_contains_map.mp stays task (List.mem_filter.mpr ⟨held, inside⟩) same
  · obtain ⟨old, there, rfl⟩ := List.mem_map.mp member
    have other := bne_iff_ne.mp (Store.mem_retain.mp there).2
    split <;> exact other

end Statements

end ForgeNode.Orchestration
