import ForgeNode.Orchestration.Cycles
import ForgeNode.Orchestration.Nesting

/-! The dependencies of a run's tasks have no cycle: in every interleaving, and across failed
writes, removals and restarts. -/

namespace ForgeNode.Orchestration

open List ForgeNode.Cycles Relation Store
open Section (Meets Preserves)

variable {project : ProjectId} {statement : Statement} {tables : Tables} {task : Task}

/-- What is said of tasks: the run of each, and the tasks that each comes after. -/
structure Ties where
  run : TaskId → RunId → Prop
  edge : TaskId → TaskId → Prop

/-- A task has one run, and comes after tasks of its run. -/
structure Ties.One (ties : Ties) : Prop where
  run : ∀ {id run run'}, ties.run id run → ties.run id run' → run = run'
  kin : ∀ {id dep}, ties.edge id dep → ∃ run, ties.run id run ∧ ties.run dep run

structure Tied (ties : Ties) (task : Task) : Prop where
  run : ties.run task.id task.runId
  after : ∀ dep ∈ task.after, ties.edge task.id dep

/-- The tasks in memory are as is said, and what they come after is there. -/
def TiedTasks (ties : Ties) (ledger : Ledger) : Prop :=
  ∀ task ∈ ledger.tasks, Tied ties task ∧ ∀ dep ∈ task.after, ∃ other ∈ ledger.tasks, other.id = dep

structure TiedRows (ties : Ties) (tables : Tables) : Prop where
  tasks : ∀ row ∈ tables.tasks, ties.run row.id row.runId
  deps : ∀ dep ∈ tables.taskDeps, ties.edge dep.taskId dep.afterTaskId ∧
    (∃ row ∈ tables.tasks, row.id = dep.taskId) ∧ ∃ row ∈ tables.tasks, row.id = dep.afterTaskId

structure Tethered (ties : Ties) (inner : Inner) : Prop where
  memory : TiedTasks ties inner.ledger
  stored : TiedRows ties inner.db.tables

variable {ties : Ties} {ledger : Ledger} {limits : OrchestrationLimits} {now : Timestamp}
  {fresh : Nat}

section Statements

theorem keeps_tiedRows (keeps : Keeps (fun tables => (tables.tasks, tables.taskDeps)) statement) :
    Preserves (fun db : Database => TiedRows ties db.tables) statement := by
  intro db tied
  refine (keeps db).mono fun _ after same => ?_
  simp only [Prod.mk.injEq] at same
  constructor
  · rw [same.1]
    exact tied.tasks
  · rw [same.1, same.2]
    exact tied.deps

theorem execute_tiedRows {statement : Tables → Except DbError Tables}
    (keeps : ∀ {tables after}, statement tables = .ok after → TiedRows ties tables →
      TiedRows ties after) :
    Preserves (fun db : Database => TiedRows ties db.tables) (execute statement) := by
  intro db tied
  refine (execute_meets statement db).mono fun result after meets => ?_
  cases result with
  | ok done => exact keeps meets.2.2.2 tied
  | error error => exact meets.1 ▸ tied

theorem TiedRows.rewritten {tables after : Tables} (tied : TiedRows ties tables)
    (tasks : Store.Rewritten (fun old row : TaskRow => row.runId = old.runId)
      tables.tasks after.tasks)
    (deps : ∀ dep ∈ after.taskDeps, dep ∈ tables.taskDeps) : TiedRows ties after := by
  constructor
  · intro row member
    obtain ⟨old, there, same, run⟩ := tasks.back row member
    rw [← same, run]
    exact tied.tasks old there
  · intro dep member
    obtain ⟨edge, ⟨source, held, same⟩, target, held', same'⟩ := tied.deps dep (deps dep member)
    obtain ⟨later, there, named, _⟩ := tasks.forth source held
    obtain ⟨later', there', named', _⟩ := tasks.forth target held'
    exact ⟨edge, ⟨later, there, named.trans same⟩, later', there', named'.trans same'⟩

theorem insertDep_tied {task dep : TaskId} (edge : ties.edge task dep) :
    Preserves (fun db : Database => TiedRows ties db.tables) (execute (insertDep task dep)) := by
  refine execute_tiedRows fun {tables after} inserted tied => ?_
  simp only [insertDep, bind_eq_ok, require_eq_ok, pure_eq_ok] at inserted
  obtain ⟨_, _, _, ⟨source, target⟩, rfl⟩ := inserted
  obtain ⟨first, held⟩ := Option.isSome_iff_exists.mp source
  obtain ⟨second, held'⟩ := Option.isSome_iff_exists.mp target
  refine ⟨tied.tasks, fun other member => ?_⟩
  rcases mem_put.mp member with rfl | ⟨there, _⟩
  · exact ⟨edge, ⟨first, mem_of_get? held, key_of_get? held⟩,
      second, mem_of_get? held', key_of_get? held'⟩
  · exact tied.deps other there

theorem updateTask_tied (tied : Tied ties task) :
    Preserves (fun db : Database => TiedRows ties db.tables) (updateTask task) := by
  refine .bind (execute_tiedRows fun updated rows => ?_) fun _ =>
    .bind (execute_tiedRows fun deleted rows => ?_) fun _ => .each fun dep member =>
    insertDep_tied (tied.after dep member)
  · obtain ⟨change, keeps, rfl, changed⟩ := updateTaskRow_ok updated
    refine rows.rewritten (@Store.Rewritten.of_modify _ _ _ _ _ _ _ keeps _ ?_ fun row _ _ => rfl)
      fun _ there => there
    intro row there same
    obtain ⟨values, encoded, written⟩ := changed row
    rw [written]
  · rw [← Except.ok.inj deleted]
    exact rows.rewritten (.refl fun _ _ => rfl) fun dep there => (Store.mem_retain.mp there).1

theorem insertTask_tied (tied : Tied ties task) :
    Preserves (fun db : Database => TiedRows ties db.tables) (insertTask task) := by
  refine .bind (execute_tiedRows fun inserted rows => ?_) fun _ =>
    .each fun dep member => insertDep_tied (tied.after dep member)
  simp only [insertTaskRow, taskValues, bind_eq_ok, require_eq_ok, pure_eq_ok] at inserted
  obtain ⟨_, ⟨_, _, _, _, rfl⟩, _, _, _, _, rfl⟩ := inserted
  refine ⟨fun row member => ?_, fun dep member => ?_⟩
  · rcases mem_put.mp member with rfl | ⟨there, _⟩
    · exact tied.run
    · exact rows.tasks row there
  · obtain ⟨edge, ⟨source, held, same⟩, target, held', same'⟩ := rows.deps dep member
    obtain ⟨later, there, named⟩ := exists_mem_put held _
    obtain ⟨later', there', named'⟩ := exists_mem_put held' _
    exact ⟨edge, ⟨later, there, named.trans same⟩, later', there', named'.trans same'⟩

theorem updateRun_tied {run : Run} : Preserves (fun db : Database => TiedRows ties db.tables)
    (updateRun run) :=
  keeps_tiedRows (keeps_updateRun (fun _ _ => rfl) run)

theorem updateAttempt_tied {attempt : Attempt} :
    Preserves (fun db : Database => TiedRows ties db.tables) (updateAttempt attempt) := by
  refine keeps_tiedRows (keeps_execute fun tables after updated => ?_)
  obtain ⟨change, keeps, rfl, changed⟩ := updateAttemptRow_ok updated
  rfl

theorem deleteWorkspaceRow_tied {workspace : WorkspaceId} :
    Preserves (fun db : Database => TiedRows ties db.tables)
    (execute (deleteWorkspaceRow workspace)) := by
  refine keeps_tiedRows (keeps_execute fun _ _ deleted => ?_)
  simp only [deleteWorkspaceRow, bind_eq_ok, pure_eq_ok] at deleted
  obtain ⟨_, _, rfl⟩ := deleted
  rfl

theorem deleteProjectRow_tied {tables after : Tables}
    (deleted : deleteProjectRow project tables = .ok after) (tied : TiedRows ties tables) :
    TiedRows ties after := by
  simp only [deleteProjectRow, bind_eq_ok, pure_eq_ok] at deleted
  obtain ⟨_, _, rfl⟩ := deleted
  refine ⟨fun row member => tied.tasks row (Store.mem_retain.mp member).1, fun dep member => ?_⟩
  obtain ⟨there, kept⟩ := Store.mem_retain.mp member
  obtain ⟨first, second⟩ := Bool.and_eq_true_iff.mp kept
  obtain ⟨edge, ⟨source, held, same⟩, target, held', same'⟩ := tied.deps dep there
  have stays {row : TaskRow} (held : row ∈ tables.tasks)
      (safe : (!((tables.tasks.rows.filter fun row =>
      ((tables.runs.rows.filter fun row => row.projectId == project).map (·.id)).contains
      row.runId).map
        (·.id)).contains row.id) = true) :
      row ∈ tables.tasks.retain fun row =>
        !((tables.runs.rows.filter fun row => row.projectId == project).map (·.id)).contains
        row.runId := by
    refine Store.mem_retain.mpr ⟨held, ?_⟩
    rw [Bool.not_eq_true', Bool.eq_false_iff]
    exact fun inside => not_contains_map.mp safe row (mem_filter.mpr ⟨held, inside⟩) rfl
  exact ⟨edge, ⟨source, stays held (same ▸ first), same⟩, target, stays held' (same' ▸ second), same'⟩

end Statements

section Rules

variable {after : Ledger}

theorem TiedTasks.of_kept (tied : TiedTasks ties ledger) (kept : Kept ledger after) :
    TiedTasks ties after := by
  intro task member
  obtain ⟨old, there, named, like⟩ := kept.tasks.back task member
  obtain ⟨known, present⟩ := tied old there
  refine ⟨⟨by rw [← named, like.run]; exact known.run, by rw [← named, like.after]; exact known.after⟩, ?_⟩
  rw [like.after]
  intro dep listed
  obtain ⟨other, held, same'⟩ := present dep listed
  obtain ⟨later, there, named, _⟩ := kept.tasks.forth other held
  exact ⟨later, there, named.trans same'⟩

theorem persist_tethered
    (keeps : Preserves (fun db : Database => TiedRows ties db.tables) statement) :
    Preserves (Tethered ties) (persist statement) :=
  fun inner tied => Handler.persist_meets (keeps inner.db tied.stored)
    (fun _ _ rows => ⟨tied.memory, rows⟩) fun _ rows => ⟨tied.memory, rows⟩

theorem Tied.of_like {task other : Task} (tied : Tied ties task) (like : task.Like other) :
    Tied ties other :=
  ⟨by rw [like.id, like.run]; exact tied.run, by rw [like.id, like.after]; exact tied.after⟩

/-- The tasks are tied, in memory and stored alike. -/
def Tethered.fact (ties : Ties) : Fact where
  holds := Tethered ties
  run _ := True
  task := Tied ties
  attempt _ := True

theorem Tethered.unsaid (keeps : Keeps (fun tables => (tables.tasks, tables.taskDeps)) statement) :
    Preserves (Tethered ties) (persist statement) :=
  persist_tethered (keeps_tiedRows keeps)

theorem Tethered.apart : (Tethered.fact ties).Apart where
  runs _ _ _ := trivial
  tasks tied task there := (tied.memory task there).1
  attempts _ _ _ := trivial
  likeRun _ _ := trivial
  likeTask := Tied.of_like
  likeAttempt _ _ := trivial
  rewrites kept tied := ⟨tied.memory.of_kept kept, tied.stored⟩
  storesRun _ := persist_tethered updateRun_tied
  storesTask known := persist_tethered (updateTask_tied known)
  storesAttempt _ := persist_tethered updateAttempt_tied
  elsewhere keeps := Tethered.unsaid fun db => (keeps db).mono fun _ _ same => by
    simp only [Prod.mk.injEq] at same ⊢
    exact ⟨same.2.1, same.2.2.1⟩
  beside ledger db _ tied := ⟨ledger ▸ tied.memory, db ▸ tied.stored⟩
  unsaid keeps := Tethered.unsaid fun db => (keeps db).mono fun _ _ same => by
    simp only [Prod.mk.injEq] at same ⊢
    exact ⟨same.2.1, same.2.2.1⟩
  apart ledger db tied := ⟨ledger ▸ tied.memory, db ▸ tied.stored⟩
  dropsSession := Tethered.unsaid (keeps_execute fun _ _ deleted => by rw [← Except.ok.inj deleted])
  dropsWorkspace := persist_tethered deleteWorkspaceRow_tied

end Rules

section Handlers

theorem createRun_tethered {request : CreateRun} {worktree : String × WorkspaceId}
    {spawned : Except ProtocolError SessionId} :
    Preserves (Tethered ties) (createRun request worktree spawned fresh now) :=
  .bind .check fun _ => .bind .check fun _ => .bind
    (Tethered.unsaid (keeps_insertRun (fun _ _ => rfl) _)) fun _ => .change fun _ tied =>
    ⟨tied.memory, tied.stored⟩

/-- A task that its check lets in comes after tasks of its run that are there. -/
theorem createTask_tethered {request : CreateTask} {inner : Inner}
    (unused : ∀ other ∈ inner.ledger.tasks, other.id ≠ fresh) (run : ties.run fresh request.runId)
    (edges : ∀ dep ∈ request.after,
      (∃ other ∈ inner.ledger.tasks, other.id = dep ∧ other.runId = request.runId) →
      ties.edge fresh dep) (tied : Tethered ties inner) :
    (createTask request limits fresh now).Meets inner fun _ after => Tethered ties after := by
  refine Meets.check_bind (fun _ _ => tied) fun task passed => ?_
  obtain ⟨siblings, promoted⟩ := createTaskCheck_ok unused passed
  have stem : task.id = fresh ∧ task.runId = request.runId ∧ task.after = request.after := by
    rcases promoted with rfl | ⟨_, rfl⟩ <;> exact ⟨rfl, rfl, rfl⟩
  simp only [createTaskCheck, bind_eq_ok, found_eq_ok, checkEach_eq_ok] at passed
  obtain ⟨_, _, _, _, _, _, _, _, _, _, _, checked, _⟩ := passed
  have present : ∀ dep ∈ task.after, ∃ other ∈ inner.ledger.tasks, other.id = dep ∧
      other.runId = request.runId := by
    intro dep listed
    have there := checked dep (stem.2.2 ▸ listed)
    simp only [checkDependency, bind_eq_ok, found_eq_ok, require_eq_ok] at there
    obtain ⟨other, held, same⟩ := there
    exact ⟨other, mem_of_get? held, key_of_get? held, same⟩
  have known : Tied ties task := by
    refine ⟨by rw [stem.1, stem.2.1]; exact run, fun dep listed => ?_⟩
    rw [stem.1]
    exact edges dep (stem.2.2 ▸ listed) (present dep listed)
  refine ((persist_tethered (insertTask_tied known) inner tied).both persist_ledger).bind
    (fun _ _ kept => kept.1) ?_
  rintro _ middle ⟨kept, ledger⟩
  refine Meets.change_bind (Meets.pure ⟨fun other member => ?_, kept.stored⟩)
  rcases mem_put.mp member with rfl | ⟨there, _⟩
  · refine ⟨known, fun dep listed => ?_⟩
    obtain ⟨first, held, same, _⟩ := present dep listed
    rw [← ledger] at held
    obtain ⟨later, held', same'⟩ := exists_mem_put held other
    exact ⟨later, held', same'.trans same⟩
  · obtain ⟨old, targets⟩ := kept.memory other there
    refine ⟨old, fun dep listed => ?_⟩
    obtain ⟨first, held, same⟩ := targets dep listed
    obtain ⟨later, held', same'⟩ := exists_mem_put held task
    exact ⟨later, held', same'.trans same⟩

theorem commitStart_tethered {spawned : Spawned} :
    Preserves (Tethered ties) (commitStart spawned limits fresh now) := by
  refine .check_bind ?_
  rintro inner ⟨task, n⟩ tied passed
  obtain ⟨may, _, _⟩ := commitStartCheck_ok passed
  have known : Tied ties (task.started n now) :=
    (taskFound_lasts Tethered.apart.toLasts tied may.found).of_like ⟨rfl, rfl, rfl, rfl⟩
  refine .bind (setTask_lasts Tethered.apart.toLasts fun _ => ⟨rfl, rfl, rfl, rfl⟩) fun _ =>
    .bind (Tethered.unsaid (keeps_execute fun tables after inserted => ?_)) fun _ =>
      .bind (persist_tethered (updateTask_tied known)) fun _ => .change fun _ tied =>
      ⟨tied.memory, tied.stored⟩
  simp only [insertAttemptRow, bind_eq_ok, pure_eq_ok] at inserted
  obtain ⟨_, _, _, _, _, _, rfl⟩ := inserted
  rfl

end Handlers

section Removals

/-- Tasks of one run are forgotten together. -/
theorem TiedTasks.forgetProject (one : ties.One) (tied : TiedTasks ties ledger) :
    TiedTasks ties (ledger.forgetProject project) := by
  intro task member
  obtain ⟨there, kept⟩ := Store.mem_retain.mp member
  obtain ⟨known, present⟩ := tied task there
  refine ⟨known, fun dep listed => ?_⟩
  obtain ⟨other, held, same⟩ := present dep listed
  refine ⟨other, Store.mem_retain.mpr ⟨held, not_contains_map.mpr fun first inside named => ?_⟩, same⟩
  obtain ⟨first_, contained⟩ := mem_filter.mp inside
  obtain rfl := eq_of_key first_ held named
  obtain ⟨run, one_, another⟩ := one.kin (known.after dep listed)
  have equal : task.runId = first.runId :=
    (one.run known.run one_).trans (one.run (same ▸ (tied first held).1.run) another).symm
  refine not_contains_map.mp kept task (mem_filter.mpr ⟨there, ?_⟩) rfl
  rw [equal]
  exact contained

theorem removeProject_tethered (one : ties.One) :
    Preserves (Tethered ties) (removeProject project now) := by
  unfold removeProject
  refine .check_bind fun _ workspaces _ _ => .check_bind fun _ sessions _ _ =>
    .bind (.each fun _ _ => Tethered.apart.dropsSession) fun _ =>
      .bind (.each fun _ _ => persist_tethered deleteWorkspaceRow_tied) fun _ =>
        .bind (persist_tethered (execute_tiedRows deleteProjectRow_tied)) fun _ => .bind ?_ fun _ =>
          .bind (.each fun _ _ => removeSessionCache_lasts Tethered.apart) fun _ =>
          .change fun _ tied =>
            ⟨tied.memory, tied.stored⟩
  exact Preserves.change fun _ tied => ⟨tied.memory.forgetProject one, tied.stored⟩

end Removals

section Load

theorem mem_deps {task dep : TaskId} :
    dep ∈ deps tables task ↔ ∃ row ∈ tables.taskDeps, row.taskId = task ∧
    row.afterTaskId = dep := by
  unfold deps
  rw [mem_insertionSort, List.mem_map]
  constructor
  · rintro ⟨row, filtered, same⟩
    obtain ⟨there, named⟩ := mem_filter.mp filtered
    exact ⟨row, there, beq_iff_eq.mp named, same⟩
  · rintro ⟨row, there, named, same⟩
    exact ⟨row, mem_filter.mpr ⟨there, beq_iff_eq.mpr named⟩, same⟩

/-- A task read from its row and its dependencies is tied, and these are stored. -/
theorem tied_of_row (tied : TiedRows ties tables) {row : TaskRow} (there : row ∈ tables.tasks)
    (decoded : taskFromRow row (deps tables row.id) = .ok task) : Tied ties task ∧
      ∀ dep ∈ task.after, ∃ other ∈ tables.tasks, other.id = dep := by
  obtain ⟨id, run, _⟩ := taskFromRow_keys decoded
  have after : task.after = deps tables row.id := by
    simp only [taskFromRow, bind_eq_ok, pure_eq_ok] at decoded
    obtain ⟨_, _, _, _, rfl⟩ := decoded
    rfl
  refine ⟨⟨by rw [id, run]; exact tied.tasks row there, fun dep listed => ?_⟩, fun dep listed => ?_⟩
  · obtain ⟨link, held, source, target⟩ := mem_deps.mp (after ▸ listed)
    rw [id, ← source, ← target]
    exact (tied.deps link held).1
  · obtain ⟨link, held, _, target⟩ := mem_deps.mp (after ▸ listed)
    obtain ⟨_, _, other, there, same⟩ := tied.deps link held
    exact ⟨other, there, same.trans target⟩

theorem reconcileTask_like (lost : List TaskId) (task : Task) :
    task.Like (reconcileTask lost limits now task) := by
  unfold reconcileTask
  split <;> exact ⟨rfl, rfl, rfl, rfl⟩

theorem reconcileStartup_tied :
    Preserves (fun db : Database => TiedRows ties db.tables) (reconcileStartup limits now) := by
  unfold reconcileStartup
  refine .check_bind ?_
  rintro db ⟨runs, tasks, attempts⟩ rows listed
  obtain ⟨_, second, _⟩ := listAll_ok listed
  dsimp only
  split
  · exact .pure
  refine .bind (.each fun _ _ => updateRun_tied) fun _ => .bind (.each fun task member =>
    updateTask_tied ?_) fun _ => .each fun _ _ => updateAttempt_tied
  obtain ⟨old, there, rfl⟩ := List.mem_map.mp member
  obtain ⟨row, held, decoded⟩ := (mem_of_mapM_ok second).2 old there
  exact (tied_of_row rows held decoded).1.of_like (reconcileTask_like _ old)

theorem settleSessions_tied {persistHistory : Bool} {tables after : Tables}
    (settled : settleSessions persistHistory tables = .ok after) (tied : TiedRows ties tables) :
    TiedRows ties after := by
  unfold settleSessions at settled
  split at settled
  · simp only [reconcileOrphaned, Except.ok.injEq] at settled
    subst settled
    exact ⟨tied.tasks, tied.deps⟩
  · simp only [purgeSessions, Except.ok.injEq] at settled
    subst settled
    exact ⟨tied.tasks, tied.deps⟩

theorem loadLedger_tied (loaded : loadLedger limits tables = .ok ledger)
    (tied : TiedRows ties tables) : TiedTasks ties ledger := by
  have reads := loadLedger_reads loaded
  simp only [loadLedger, bind_eq_ok, pure_eq_ok] at loaded
  obtain ⟨_, _, tasks, second, _⟩ := loaded
  intro task member
  obtain ⟨row, there, decoded⟩ := (reads.tasks task).mp member
  obtain ⟨known, targets⟩ := tied_of_row tied there decoded
  refine ⟨known, fun dep listed => ?_⟩
  obtain ⟨other, held, same⟩ := targets dep listed
  obtain ⟨read, _, decoded'⟩ := (mem_of_mapM_ok second).1 other held
  exact ⟨read, (reads.tasks read).mpr ⟨other, held, decoded'⟩, (taskFromRow_keys decoded').1.trans
    same⟩

theorem loadDaemon_tethered {persistHistory : Bool} :
    Preserves (Tethered ties) (loadDaemon limits persistHistory now) := by
  unfold loadDaemon
  refine .bind (persist_tethered reconcileStartup_tied) fun _ =>
    .bind (persist_tethered (execute_tiedRows settleSessions_tied)) fun _ => fun inner tied => ?_
  refine Meets.check_bind (fun _ _ => tied) fun ledger read => Meets.change ?_
  exact ⟨loadLedger_tied (mapError_eq_ok.mp read) tied.stored, tied.stored⟩

end Load

section Step

variable {platform : Platform} {before : World} {event : Event}

/-- What an event may come to say of its new id, and of the tasks it comes after. -/
def World.bonds (world : World) : Ties where
  run id run := (∃ task ∈ world.inner.ledger.tasks, task.id = id ∧ task.runId = run) ∨
    ∃ row ∈ world.inner.db.tables.tasks, row.id = id ∧ row.runId = run
  edge id dep := (∃ task ∈ world.inner.ledger.tasks, task.id = id ∧ dep ∈ task.after) ∨
    ∃ row ∈ world.inner.db.tables.taskDeps, row.taskId = id ∧ row.afterTaskId = dep

/-- The task that a request asks for. -/
def Cause.creates : Cause → Option CreateTask
  | .request (.createTask create) => some create
  | .request (.runTask create _) => some create
  | _ => none

/-- With the task that an event may add. -/
def World.bondsWith (world : World) (event : Event) : Ties where
  run id run := world.bonds.run id run ∨
    id = event.fresh ∧ ∃ request, event.cause.creates = some request ∧ run = request.runId
  edge id dep := world.bonds.edge id dep ∨ id = event.fresh ∧ ∃ request, event.cause.creates =
    some request ∧ dep ∈ request.after ∧ world.bonds.run dep request.runId

/-- Every event keeps the tasks tied, where what it says of its new id is known. -/
theorem step_tethered (allowed : before.Allows event) (one : (before.bondsWith event).One)
    (tied : Tethered (before.bondsWith event) before.inner) :
    Tethered (before.bondsWith event) (before.step platform limits event).inner := by
  have met : Tethered (before.bondsWith event) (before.meeting event).inner :=
    ⟨tied.memory, tied.stored⟩
  refine step_lasts Tethered.apart allowed met ?_ ?_ (fun _ _ _ _ _ _ _ => createRun_tethered)
    (fun _ _ _ _ _ => commitStart_tethered _ met) (fun _ _ => removeProject_tethered one) ?_
  · intro create creates
    have asks : event.cause.creates = some create := by
      rcases creates with cause | ⟨_, cause⟩ <;> rw [cause] <;> rfl
    refine createTask_tethered (fun task member => (allowed.unused.2.1 task member).1)
      (.inr ⟨rfl, create, asks, rfl⟩) ?_ met
    rintro dep listed ⟨other, there, same, run⟩
    exact .inr ⟨rfl, create, asks, listed, .inl ⟨other, there, same, run⟩⟩
  · intro post _
    refine setState_lasts Tethered.apart.toLasts (fun keeps => Tethered.unsaid fun db =>
      (keeps db).mono fun _ _ same => ?_) _ met
    simp only [Prod.mk.injEq] at same ⊢
    exact ⟨same.2.1, same.2.2.1⟩
  · intro persistHistory cause
    simp only [World.step, cause]
    exact loadDaemon_tethered _ met

theorem Tethered.mono {other : Ties} {inner : Inner} (tied : Tethered ties inner)
    (run : ∀ {id run}, ties.run id run → other.run id run)
    (edge : ∀ {id dep}, ties.edge id dep → other.edge id dep) : Tethered other inner := by
  refine ⟨fun task member => ?_, fun row member => run (tied.stored.tasks row member),
    fun dep member => ?_⟩
  · obtain ⟨known, targets⟩ := tied.memory task member
    exact ⟨⟨run known.run, fun dep listed => edge (known.after dep listed)⟩, targets⟩
  · obtain ⟨known, present⟩ := tied.stored.deps dep member
    exact ⟨edge known, present⟩

/-- The tasks of the ledger and the stored ones are tied as they say, and come after each other
without a cycle. -/
structure Untangled (world : World) : Prop where
  tied : Tethered world.bonds world.inner
  one : world.bonds.One
  acyclic : Acyclic world.bonds.edge

variable {after : World}

/-- What a world says after a step was known, and is said of tasks that are there. -/
theorem Untangled.of_tethered (one : ties.One) (acyclic : Acyclic ties.edge)
    (tied : Tethered ties after.inner) : Untangled after := by
  have run {id : TaskId} {run : RunId} (said : after.bonds.run id run) : ties.run id run := by
    rcases said with ⟨task, there, rfl, rfl⟩ | ⟨row, there, rfl, rfl⟩
    · exact (tied.memory task there).1.run
    · exact tied.stored.tasks row there
  have edge {id dep : TaskId} (said : after.bonds.edge id dep) : ties.edge id dep := by
    rcases said with ⟨task, there, rfl, listed⟩ | ⟨row, there, rfl, rfl⟩
    · exact (tied.memory task there).1.after dep listed
    · exact (tied.stored.deps row there).1
  have present {id dep : TaskId} (said : after.bonds.edge id dep) :
      (∃ run, after.bonds.run id run) ∧ ∃ run, after.bonds.run dep run := by
    rcases said with ⟨task, there, rfl, listed⟩ | ⟨row, there, rfl, rfl⟩
    · obtain ⟨other, held, same⟩ := (tied.memory task there).2 dep listed
      exact ⟨⟨_, .inl ⟨task, there, rfl, rfl⟩⟩, _, .inl ⟨other, held, same, rfl⟩⟩
    · obtain ⟨_, ⟨source, held, same⟩, target, held', same'⟩ := tied.stored.deps row there
      exact ⟨⟨_, .inr ⟨source, held, same, rfl⟩⟩, _, .inr ⟨target, held', same', rfl⟩⟩
  refine ⟨⟨fun task there => ?_, fun row there => .inr ⟨row, there, rfl, rfl⟩, fun dep there => ?_⟩,
    ⟨fun first second => one.run (run first) (run second), fun said => ?_⟩,
    acyclic.mono fun _ _ said => edge said⟩
  · exact ⟨⟨.inl ⟨task, there, rfl, rfl⟩, fun dep listed => .inl ⟨task, there, rfl, listed⟩⟩,
      (tied.memory task there).2⟩
  · exact ⟨.inr ⟨dep, there, rfl, rfl⟩, (tied.stored.deps dep there).2⟩
  · obtain ⟨⟨_, source⟩, _, target⟩ := present said
    obtain ⟨shared, first, second⟩ := one.kin (edge said)
    obtain rfl := one.run (run source) first
    obtain rfl := one.run (run target) second
    exact ⟨_, source, target⟩

theorem Untangled.step (untangled : Untangled before) (allowed : before.Allows event) :
    Untangled (before.step platform limits event) := by
  have unsaid {run : RunId} : ¬ before.bonds.run event.fresh run := by
    rintro (⟨task, there, same, _⟩ | ⟨row, there, same, _⟩)
    · exact allowed.unsaid.1.task (.inl ⟨task, there, same, rfl, rfl⟩)
    · exact allowed.unsaid.1.task (.inr ⟨row, there, same, rfl, rfl⟩)
  have one : (before.bondsWith event).One := by
    constructor
    · rintro id run run' (first | ⟨same, request, creates, rfl⟩)
        (second | ⟨same', request', creates', rfl⟩)
      · exact untangled.one.run first second
      · exact absurd (same' ▸ first) unsaid
      · exact absurd (same ▸ second) unsaid
      · rw [Option.some.inj (creates.symm.trans creates')]
    · rintro id dep (old | ⟨same, request, creates, _, known⟩)
      · obtain ⟨run, source, target⟩ := untangled.one.kin old
        exact ⟨run, .inl source, .inl target⟩
      · exact ⟨request.runId, .inr ⟨same, request, creates, rfl⟩, .inl known⟩
  have acyclic : Acyclic (before.bondsWith event).edge := by
    refine untangled.acyclic.grow (fun source target said => said.imp_right And.left) ?_
    rintro source (old | ⟨_, _, _, _, known⟩)
    · obtain ⟨run, _, target⟩ := untangled.one.kin old
      exact unsaid target
    · exact unsaid known
  exact .of_tethered one acyclic (step_tethered allowed one (untangled.tied.mono .inl .inl))

theorem Untangled.initial : Untangled (World.initial limits) := by
  refine @Untangled.of_tethered ⟨fun _ _ => False, fun _ _ => False⟩ _ ⟨fun never =>
    never.elim, fun never => never.elim⟩ ?_ ⟨fun _ there => absurd there (not_mem_empty _),
    fun _ there => absurd there (not_mem_empty _),
      fun _ there => absurd there (not_mem_empty _)⟩
  intro node cycle
  obtain ⟨_, never, _⟩ := TransGen.head'_iff.mp cycle
  exact never

/-- One task of a run comes after another. -/
def Ledger.comesAfter (ledger : Ledger) (run : RunId) (source dep : TaskId) : Prop :=
  ∃ task ∈ ledger.tasks, task.runId = run ∧ task.id = source ∧ dep ∈ task.after

/-- The check finds a cycle exactly where there is one, in whatever order it walks the nodes and
with any fuel from its bound on; and in every interleaving the tasks of a run come after each other
without one. -/
theorem dependencies_acyclic {world : World} (reachable : World.Reachable platform limits world) :
    (∀ edges task after, dependencyCycle edges task after = true ↔
        ∃ node, TransGen (Depends edges task after) node node) ∧
      (∀ edges task after nodes fuel, (edges.map (·.1)).eraseDups.Perm nodes →
        2 * (edges ++ after.map fun dep => (task, dep)).length + 2 ≤ fuel →
        (walks (adjacency edges task after) fuel (nodes ++ [task] ++ after) [] []).1 =
          dependencyCycle edges task after) ∧
      ∀ run, Acyclic (world.inner.ledger.comesAfter run) := by
  refine ⟨fun edges task after => ?_, fun edges task after nodes fuel order enough => ?_, fun run =>
    ?_⟩
  · rw [dependencyCycle_eq_true, Acyclic, not_forall_not]
  · rw [Bool.eq_iff_iff, dependencyCycle_eq_true]
    apply walks_iff _ _ enough
    · intro source dep depends
      simp only [mem_append, ← order.mem_iff, mem_eraseDups, List.mem_map, mem_singleton]
      rcases depends with listed | ⟨same, _⟩
      · exact .inl (.inl ⟨_, listed, rfl⟩)
      · exact .inl (.inr same)
    · intro node within
      simp only [mem_append, ← order.mem_iff, mem_eraseDups, List.mem_map, mem_singleton] at within
      rcases within with (⟨⟨source, dep⟩, listed, rfl⟩ | same) | later
      · exact .inr (.inr ⟨dep, listed⟩)
      · exact .inl same
      · exact .inr (.inl later)
  · obtain ⟨steps, trace⟩ := reachable
    have untangled := (trace.invariant Untangled (fun {before event after} step untangled => by
      obtain ⟨allowed, rfl⟩ := step
      exact untangled.step allowed) .initial).1
    exact untangled.acyclic.mono fun source dep ⟨task, there, _, same, listed⟩ =>
      .inl ⟨task, there, same, listed⟩

/-- One task, and one that comes after it. -/
def oneAfterOther : List Cause := opening ++ [newTask .readOnly [], newTask .readOnly [104]]

theorem dependencies_acyclic_oneAfterOther :
    (reached oneAfterOther).inner.ledger.comesAfter 103 105 104 ∧
      Acyclic ((reached oneAfterOther).inner.ledger.comesAfter 103) := by
  have listed : ∃ task ∈ (reached oneAfterOther).inner.ledger.tasks.rows,
      task.runId = 103 ∧ task.id = 105 ∧ 104 ∈ task.after := by decide +kernel
  exact ⟨listed, (dependencies_acyclic ⟨stepsTo oneAfterOther, run_of_admitted
    (by decide +kernel)⟩).2.2 103⟩

end Step

end ForgeNode.Orchestration
