import ForgeNode.Orchestration.Links

/-! Every section of the daemon keeps the rows linked: what it adds belongs to rows that it found,
and what it removes takes along all that belongs to it. -/

namespace ForgeNode.Orchestration

open List Store
open Section (Meets Preserves)

variable {links : Links} {named : AttemptId → Prop} {ledger : Ledger} {limits : OrchestrationLimits}
  {now : Timestamp} {fresh : Nat}

variable {inner : Inner} {statement : Statement}

section Rules

variable {after : Ledger}

theorem Roots.of_kept (roots : Roots links ledger) (kept : Kept ledger after) :
    Roots links after := by
  refine ⟨fun run member => ?_, fun task member => ?_, fun attempt member => ?_⟩
  · obtain ⟨old, there, same, like⟩ := kept.runs.back run member
    rw [← same, like.project, like.parent]
    exact roots.runs old there
  · obtain ⟨old, there, same, like⟩ := kept.tasks.back task member
    obtain ⟨known, first, held, named⟩ := roots.tasks old there
    obtain ⟨later, held', named', _⟩ := kept.runs.forth first held
    rw [← same, like.run, like.created]
    exact ⟨known, later, held', named'.trans named⟩
  · obtain ⟨old, there, same, like⟩ := kept.attempts.back attempt member
    obtain ⟨known, first, held, named⟩ := roots.attempts old there
    obtain ⟨later, held', named', _⟩ := kept.tasks.forth first held
    rw [← same, like.task, like.n, like.created]
    exact ⟨known, later, held', named'.trans named⟩

theorem Stems.beside {tables : Tables} (stems : Stems links named ledger tables)
    (runs : ∀ run ∈ ledger.runs, ∃ later ∈ after.runs, later.id = run.id)
    (attempts : ∀ attempt ∈ ledger.attempts, ∃ later ∈ after.attempts, later.id = attempt.id) :
    Stems links named after tables := by
  refine ⟨fun row member => ?_, stems.tasks, fun row member => ?_⟩
  · obtain ⟨⟨run, there, same⟩, known, kept⟩ := stems.runs row member
    obtain ⟨later, held, same'⟩ := runs run there
    exact ⟨⟨later, held, same'.trans same⟩, known, kept⟩
  · obtain ⟨known, task, shown⟩ := stems.attempts row member
    refine ⟨known, task, fun may => ?_⟩
    obtain ⟨attempt, there, same⟩ := shown may
    obtain ⟨later, held, same'⟩ := attempts attempt there
    exact ⟨later, held, same'.trans same⟩

theorem Rooted.of_kept (rooted : Rooted links named inner)
    (kept : Kept inner.ledger after) : Rooted links named { inner with ledger := after } := by
  refine ⟨rooted.memory.of_kept kept, rooted.stored.beside (fun run there => ?_)
    fun attempt there => ?_⟩
  · obtain ⟨later, held, same, _⟩ := kept.runs.forth run there
    exact ⟨later, held, same⟩
  · obtain ⟨later, held, same, _⟩ := kept.attempts.forth attempt there
    exact ⟨later, held, same⟩

theorem persist_rooted
    (keeps : ∀ {ledger}, Preserves (fun db : Database => Stems links named ledger db.tables)
      statement) :
    Preserves (Rooted links named) (persist statement) :=
  fun inner rooted => Handler.persist_meets (keeps inner.db rooted.stored)
    (fun _ _ stems => ⟨rooted.memory, stems⟩) fun _ stems => ⟨rooted.memory, stems⟩

theorem persist_beside
    (keeps : ∀ {ledger}, Preserves (fun db : Database => Stems links named ledger db.tables)
      statement)
    (rooted : Rooted links named inner) : (persist statement).Meets inner fun _ after =>
      Rooted links named after ∧ after.ledger = inner.ledger :=
  (persist_rooted keeps inner rooted).both persist_ledger

theorem Rooted.of_parts {inner after : Inner} (rooted : Rooted links named inner)
    (same : after.ledger = inner.ledger) (db : after.db = inner.db) : Rooted links named after :=
  ⟨same ▸ rooted.memory, by rw [same, db]; exact rooted.stored⟩

/-- The rows are linked, and a run names its project and its parent as is said of it. -/
def Rooted.fact (links : Links) (named : AttemptId → Prop) : Fact where
  holds := Rooted links named
  run run := links.run run.id run.projectId run.parentAttemptId
  task _ := True
  attempt _ := True

theorem Rooted.unsaid (keeps : Keeps (fun tables => (tables.runs, tables.tasks,
    tables.attempts)) statement) : Preserves (Rooted links named) (persist statement) :=
  persist_rooted (keeps_stems keeps)

theorem Rooted.apart : (Rooted.fact links named).Apart where
  runs rooted run there := rooted.memory.runs run there
  tasks _ _ _ := trivial
  attempts _ _ _ := trivial
  likeRun {old run} known like := by
    change links.run run.id run.projectId run.parentAttemptId
    rw [like.id, like.project, like.parent]
    exact known
  likeTask _ _ := trivial
  likeAttempt _ _ := trivial
  rewrites kept rooted := rooted.of_kept kept
  storesRun known := persist_rooted (updateRun_stems (.inr ⟨_, known⟩))
  storesTask _ := persist_rooted updateTask_stems
  storesAttempt _ := persist_rooted updateAttempt_stems
  elsewhere keeps := Rooted.unsaid fun db => (keeps db).mono fun _ _ same => by
    simp only [Prod.mk.injEq] at same ⊢
    exact ⟨same.1, same.2.1, same.2.2.2.1⟩
  beside ledger db _ rooted := rooted.of_parts ledger db
  unsaid keeps := Rooted.unsaid fun db => (keeps db).mono fun _ _ same => by
    simp only [Prod.mk.injEq] at same ⊢
    exact ⟨same.1, same.2.1, same.2.2.2.1⟩
  apart ledger db rooted := rooted.of_parts ledger db
  dropsSession := persist_rooted deleteSessionRow_stems
  dropsWorkspace := persist_rooted deleteWorkspaceRow_stems

end Rules

section Handlers

theorem createRun_rooted {request : CreateRun} {worktree : String × WorkspaceId}
    {spawned : Except ProtocolError SessionId}
    (known : links.run fresh request.projectId request.parentAttemptId) :
    Preserves (Rooted links named) (createRun request worktree spawned fresh now) := by
  unfold createRun
  refine .check_bind fun _ placed _ _ => .check_bind fun _ controller _ _ => ?_
  intro inner rooted
  refine Handler.persist_bind_of (execute_meets _ inner.db) ?_ ?_
  · rintro error db ⟨same, _, _⟩
    exact ⟨rooted.memory, same ▸ rooted.stored⟩
  · rintro db ⟨_, _, _, ran⟩
    simp only [insertRunRow, runValues, bind_eq_ok, require_eq_ok, pure_eq_ok] at ran
    obtain ⟨_, ⟨_, _, rfl⟩, _, unused, _, _, shape⟩ := ran
    refine Handler.onLedger_last ⟨⟨fun run member => ?_, fun task member =>
      ?_, rooted.memory.attempts⟩, ?_⟩
    · rcases mem_put.mp member with rfl | ⟨there, _⟩
      · exact known
      · exact rooted.memory.runs run there
    · obtain ⟨stem, run, there, same⟩ := rooted.memory.tasks task member
      obtain ⟨later, held, same'⟩ := exists_mem_put there _
      exact ⟨stem, later, held, same'.trans same⟩
    · dsimp only
      rw [← shape]
      refine ⟨fun row member => ?_, fun row member => ?_, fun row member => ?_⟩
      · rcases mem_put.mp member with rfl | ⟨there, _⟩
        · exact ⟨⟨_, mem_put.mpr (.inl rfl), rfl⟩, ⟨_, known⟩, .inr ⟨_, known⟩⟩
        · obtain ⟨⟨run, held, same⟩, rest⟩ := rooted.stored.runs row there
          obtain ⟨later, held', same'⟩ := exists_mem_put held _
          exact ⟨⟨later, held', same'.trans same⟩, rest⟩
      · obtain ⟨stem, run, there, same⟩ := rooted.stored.tasks row member
        obtain ⟨later, held, same'⟩ := exists_mem_put there _
        exact ⟨stem, later, held, same'.trans same⟩
      · exact rooted.stored.attempts row member

/-- The new task is of a run that its check found. -/
theorem createTask_rooted {request : CreateTask}
    (unused : ∀ other ∈ inner.ledger.tasks, other.id ≠ fresh)
    (known : links.task fresh request.runId now) (rooted : Rooted links named inner) :
    (createTask request limits fresh now).Meets inner fun _ after => Rooted links named after := by
  refine Meets.check_bind (fun _ _ => rooted) fun task passed => ?_
  obtain ⟨siblings, promoted⟩ := createTaskCheck_ok unused passed
  have stem : task.id = fresh ∧ task.runId = request.runId ∧ task.createdAt = now := by
    rcases promoted with rfl | ⟨_, rfl⟩ <;> exact ⟨rfl, rfl, rfl⟩
  simp only [createTaskCheck, bind_eq_ok, found_eq_ok] at passed
  obtain ⟨_, _, run, found, _⟩ := passed
  have known' : links.task task.id task.runId task.createdAt := by
    rw [stem.1, stem.2.1, stem.2.2]
    exact known
  refine (persist_beside (insertTask_stems known') rooted).bind (fun _ _ kept => kept.1) ?_
  rintro _ middle ⟨kept, ledger⟩
  refine Meets.change_bind (Meets.pure ⟨⟨kept.memory.runs, fun other member =>
    ?_, fun attempt member => ?_⟩, kept.stored.beside (fun run there => ⟨run, there, rfl⟩)
    fun attempt there => ⟨attempt, there, rfl⟩⟩)
  · rcases mem_put.mp member with rfl | ⟨there, _⟩
    · refine ⟨known', run, ?_, (key_of_get? found).trans stem.2.1.symm⟩
      rw [ledger]
      exact mem_of_get? found
    · exact kept.memory.tasks other there
  · obtain ⟨stem, first, there, same⟩ := kept.memory.attempts attempt member
    obtain ⟨later, held, same'⟩ := exists_mem_put there task
    exact ⟨stem, later, held, same'.trans same⟩

/-- The new attempt is of the task that the commit found. -/
theorem commitStart_rooted {spawned : Spawned} (unnamed : ¬ named fresh)
    (known : ∀ task, inner.ledger.tasks.get? spawned.plan.task.id = some task →
      links.attempt fresh spawned.plan.task.id (task.attemptsUsed + 1) now)
    (rooted : Rooted links named inner) :
    (commitStart spawned limits fresh now).Meets inner fun _ after => Rooted links named after := by
  refine Meets.check_bind (fun _ _ => rooted) ?_
  rintro ⟨task, n⟩ passed
  obtain ⟨may, same, rfl⟩ := commitStartCheck_ok passed
  have stem := known task (same ▸ may.found)
  have begun := rooted.of_kept (@Kept.of_setTask _ spawned.plan.task.id
    (Task.started (task.attemptsUsed + 1) now) (fun _ => rfl) fun _ => ⟨rfl, rfl, rfl, rfl⟩)
  refine Handler.onLedger_bind ?_
  refine (persist_beside (insertAttempt_stems stem unnamed) begun).bind (fun _ _ kept => kept.1) ?_
  rintro _ middle ⟨inserted, ledger⟩
  refine (persist_beside updateTask_stems inserted).bind (fun _ _ kept => kept.1) ?_
  rintro _ after ⟨kept, ledger'⟩
  refine Handler.onLedger_last ⟨⟨kept.memory.runs, kept.memory.tasks, fun attempt member => ?_⟩,
    kept.stored.beside (fun run there => ⟨run, there, rfl⟩) fun attempt there =>
    exists_mem_put there _⟩
  rcases mem_put.mp member with rfl | ⟨there, _⟩
  · refine ⟨stem, task.started (task.attemptsUsed + 1) now, ?_, same⟩
    dsimp only
    rw [ledger', ledger]
    exact Ledger.mem_setTask.mpr (.inl ⟨task, mem_of_get? may.found, same, rfl⟩)
  · exact kept.memory.attempts attempt there

end Handlers

section Removals

/-- Once no run of a project is stored, no attempt of one is, and the ledger may forget them. -/
theorem Rooted.forgetProject {project : ProjectId} (one : links.One)
    (rooted : Rooted links named inner)
    (gone : ∀ row ∈ inner.db.tables.runs, row.projectId ≠ project) :
    Rooted links named { inner with ledger := inner.ledger.forgetProject project } := by
  obtain ⟨memory, stored⟩ := rooted
  have lost {run : Run} (there : run ∈ inner.ledger.runs) (here : run.projectId = project) :
      ∀ row ∈ inner.db.tables.runs, row.id ≠ run.id := by
    intro row held same
    obtain ⟨_, ⟨parent, known⟩, _⟩ := stored.runs row held
    exact gone row held ((one.run (same ▸ known) (memory.runs run there)).1.trans here)
  have stays {run : Run} (there : run ∈ inner.ledger.runs) (other : run.projectId ≠ project) :
      run ∈ (inner.ledger.forgetProject project).runs :=
    Store.mem_retain.mpr ⟨there, bne_iff_ne.mpr other⟩
  refine ⟨⟨fun run member => memory.runs run (Store.mem_retain.mp member).1, fun task member => ?_,
    fun attempt member => ?_⟩, fun row member => ?_, stored.tasks, fun row member => ?_⟩
  · obtain ⟨there, kept⟩ := Store.mem_retain.mp member
    obtain ⟨known, run, held, same⟩ := memory.tasks task there
    refine ⟨known, run, stays held fun here => ?_, same⟩
    refine not_contains_map.mp kept task (mem_filter.mpr ⟨there, ?_⟩) rfl
    rw [contains_eq_mem, decide_eq_true_eq, ← same]
    exact mem_map_of_mem (mem_filter.mpr ⟨held, beq_iff_eq.mpr here⟩)
  · obtain ⟨there, kept⟩ := Store.mem_retain.mp member
    obtain ⟨known, task, held, same⟩ := memory.attempts attempt there
    refine ⟨known, task, Store.mem_retain.mpr ⟨held, ?_⟩, same⟩
    rw [same]
    exact kept
  · obtain ⟨⟨run, held, same⟩, rest⟩ := stored.runs row member
    exact ⟨⟨run, stays held fun here => lost held here row member same.symm, same⟩, rest⟩
  · obtain ⟨known, ⟨task, held, same⟩, shown⟩ := stored.attempts row member
    refine ⟨known, ⟨task, held, same⟩, fun may => ?_⟩
    obtain ⟨attempt, there, equal⟩ := shown may
    refine ⟨attempt, Store.mem_retain.mpr ⟨there, not_contains_map.mpr fun first inside named => ?_⟩,
      equal⟩
    -- The task of the attempt is the stored one, and so is its run.
    obtain ⟨first_, contained⟩ := mem_filter.mp inside
    rw [contains_eq_mem, decide_eq_true_eq] at contained
    obtain ⟨run, filtered, runs⟩ := List.mem_map.mp contained
    obtain ⟨run_, here⟩ := mem_filter.mp filtered
    obtain ⟨known', row', held', same'⟩ := stored.tasks task held
    have ofTask := (one.attempt (equal ▸ (memory.attempts attempt there).1) known).1
    have ofRun := (one.task (named.trans (ofTask.trans same.symm) ▸ (memory.tasks first first_).1)
      known').1
    exact lost run_ (beq_iff_eq.mp here) row' held' (same'.trans (ofRun.symm.trans runs.symm))

theorem removeProject_rooted {project : ProjectId} (one : links.One) :
    Preserves (Rooted links named) (removeProject project now) := by
  unfold removeProject
  refine .check_bind fun _ workspaces _ _ => .check_bind fun _ sessions _ _ =>
    .bind (.each fun _ _ => persist_rooted deleteSessionRow_stems) fun _ =>
      .bind (.each fun _ _ => persist_rooted deleteWorkspaceRow_stems) fun _ => ?_
  intro inner rooted
  refine Handler.persist_bind_of (execute_meets _ inner.db) ?_ ?_
  · rintro error db ⟨same, _, _⟩
    exact ⟨rooted.memory, same ▸ rooted.stored⟩
  · rintro db ⟨_, _, _, ran⟩
    obtain ⟨stems, gone⟩ := deleteProjectRow_stems ran rooted.stored
    have forgotten := Rooted.forgetProject one (⟨rooted.memory, stems⟩ : Rooted links named
      { inner with db }) gone
    refine Handler.onLedger_bind ?_
    exact Meets.bind ((Preserves.each fun _ _ => removeSessionCache_lasts Rooted.apart) _ forgotten)
      (fun _ _ kept => kept) fun _ _ kept => Meets.change (kept.of_parts rfl rfl)

end Removals

section Load

theorem settleSessions_stems {persistHistory : Bool} {tables after : Tables}
    (settled : settleSessions persistHistory tables = .ok after)
    (stems : Stems links named ledger tables) : Stems links named ledger after := by
  have detached := settleSessions_ok settled
  refine stems.rewritten (detached.runs.mono ?_) ?_ (detached.attempts.mono ?_)
  · rintro row _ _ _ ⟨controller, rfl⟩
    exact ⟨rfl, .inl rfl⟩
  · rw [detached.tasks]
    exact sameTasks _
  · rintro row _ _ _ (rfl | rfl) <;> exact ⟨rfl, rfl, rfl⟩

/-- The runs that a restart writes over the rows it read name the parents of these rows. -/
theorem reconcileStartup_stems :
    Preserves (fun db : Database => Stems links named ledger db.tables)
    (reconcileStartup limits now) := by
  unfold reconcileStartup
  refine .check_bind ?_
  rintro db ⟨runs, tasks, attempts⟩ stems listed
  obtain ⟨first, _, _⟩ := listAll_ok listed
  dsimp only
  split
  · exact .pure
  refine .bind (.each fun run member => updateRun_stems ?_) fun _ =>
    .bind (.each fun _ _ => updateTask_stems) fun _ => .each fun _ _ => updateAttempt_stems
  obtain ⟨old, there, rfl⟩ := List.mem_map.mp member
  obtain ⟨row, held, decoded⟩ := (mem_of_mapM_ok first).2 old there
  obtain ⟨_, _, parent⟩ := stems.runs row held
  simp only [runFromRow, bind_eq_ok, pure_eq_ok] at decoded
  obtain ⟨_, _, rfl⟩ := decoded
  unfold reconcileRun
  split <;> exact parent

/-- The rows of a ledger just loaded are the stored ones. -/
structure Shows (tables : Tables) (ledger : Ledger) : Prop where
  runs : ∀ run ∈ ledger.runs, ∃ row ∈ tables.runs, row.id = run.id ∧ row.projectId = run.projectId ∧
    row.parentAttemptId = run.parentAttemptId
  tasks : ∀ task ∈ ledger.tasks, ∃ row ∈ tables.tasks, row.id = task.id ∧ row.runId = task.runId ∧
    row.createdAt = task.createdAt
  attempts : ∀ attempt ∈ ledger.attempts, ∃ row ∈ tables.attempts, row.id = attempt.id ∧
    row.taskId = attempt.taskId ∧ row.n = attempt.n ∧ row.createdAt = attempt.createdAt
  allRuns : ∀ row ∈ tables.runs, ∃ run ∈ ledger.runs, run.id = row.id
  allTasks : ∀ row ∈ tables.tasks, ∃ task ∈ ledger.tasks, task.id = row.id
  allAttempts : ∀ row ∈ tables.attempts, ∃ attempt ∈ ledger.attempts, attempt.id = row.id

theorem loadLedger_shows {tables : Tables} (loaded : loadLedger limits tables = .ok ledger) :
    Shows tables ledger := by
  have reads := loadLedger_reads loaded
  simp only [loadLedger, bind_eq_ok, pure_eq_ok] at loaded
  obtain ⟨runs, first, tasks, second, attempts, third, _⟩ := loaded
  refine ⟨fun run member => ?_, fun task member => ?_, fun attempt member => ?_, fun row member => ?_,
    fun row member => ?_, fun row member => ?_⟩
  · obtain ⟨row, there, decoded⟩ := (reads.runs run).mp member
    simp only [runFromRow, bind_eq_ok, pure_eq_ok] at decoded
    obtain ⟨_, _, rfl⟩ := decoded
    exact ⟨row, there, rfl, rfl, rfl⟩
  · obtain ⟨row, there, decoded⟩ := (reads.tasks task).mp member
    obtain ⟨id, run, created⟩ := taskFromRow_keys decoded
    exact ⟨row, there, id.symm, run.symm, created.symm⟩
  · obtain ⟨row, there, decoded⟩ := (reads.attempts attempt).mp member
    obtain ⟨id, task, n, created⟩ := attemptFromRow_keys decoded
    exact ⟨row, there, id.symm, task.symm, n.symm, created.symm⟩
  · obtain ⟨run, _, decoded⟩ := (mem_of_mapM_ok first).1 row member
    exact ⟨run, (reads.runs run).mpr ⟨row, member, decoded⟩, (runFromRow_keys decoded).1⟩
  · obtain ⟨task, _, decoded⟩ := (mem_of_mapM_ok second).1 row member
    exact ⟨task, (reads.tasks task).mpr ⟨row, member, decoded⟩, (taskFromRow_keys decoded).1⟩
  · obtain ⟨attempt, _, decoded⟩ := (mem_of_mapM_ok third).1 row member
    exact ⟨attempt, (reads.attempts attempt).mpr ⟨row, member, decoded⟩,
      (attemptFromRow_keys decoded).1⟩

theorem loadDaemon_stems {persistHistory : Bool} {inner : Inner}
    (stems : Stems links named inner.ledger inner.db.tables) :
    (loadDaemon limits persistHistory now).Meets inner fun result after =>
      Stems links named inner.ledger after.db.tables ∧ match result with
        | .ok _ => Shows after.db.tables after.ledger
        | .error _ => after.ledger = inner.ledger := by
  unfold loadDaemon
  refine Handler.persist_bind_of (reconcileStartup_stems inner.db stems) (fun _ _ kept => ⟨kept, rfl⟩)
    fun db kept => ?_
  refine Handler.persist_bind_of (execute_meets _ _) (fun _ db' failed => ⟨failed.1 ▸ kept, rfl⟩)
    fun db' settled => ?_
  have final : Stems links named inner.ledger db'.tables := settleSessions_stems settled.2.2.2 kept
  refine Meets.check_bind (fun _ _ => ⟨final, rfl⟩) fun ledger read => ?_
  exact Meets.change ⟨final, loadLedger_shows (mapError_eq_ok.mp read)⟩

end Load

section Step

variable {platform : Platform} {before : World} {event : Event}

/-- The call that an event answers. -/
def World.answers (world : World) (event : Event) : Option Call :=
  match event.cause with
  | .advance index _ => world.calls[index]?
  | _ => none

/-- What an event may come to say of its new id. -/
def World.draws (world : World) (event : Event) : Links where
  run id project parent := id = event.fresh ∧ ∃ request, world.answers event =
    some (.createRun request) ∧ project = request.projectId ∧ parent = request.parentAttemptId
  task id run created := id = event.fresh ∧ created = event.now ∧ ∃ request,
    (event.cause = .request (.createTask request) ∨ ∃ start, event.cause =
      .request (.runTask request start)) ∧ run = request.runId
  attempt id task n created := id = event.fresh ∧ created = event.now ∧ ∃ spawned,
    world.answers event = some (.spawned spawned) ∧ task = spawned.plan.task.id ∧
      ∃ row, world.inner.ledger.tasks.get? task = some row ∧ n = row.attemptsUsed + 1

/-- What either says. -/
def Links.or (links other : Links) : Links where
  run id project parent := links.run id project parent ∨ other.run id project parent
  task id run created := links.task id run created ∨ other.task id run created
  attempt id task n created := links.attempt id task n created ∨ other.attempt id task n created

/-- Any event but a restart keeps the rows linked, where what it says of its new id is known. -/
theorem step_rooted (allowed : before.Allows event) (one : links.One)
    (unnamed : ¬ named event.fresh)
    (runs : ∀ id project parent, (before.draws event).run id project parent →
      links.run id project parent)
    (tasks : ∀ id run created, (before.draws event).task id run created → links.task id run created)
    (attempts : ∀ id task n created, (before.draws event).attempt id task n created →
      links.attempt id task n created)
    (rooted : Rooted links named before.inner)
    (stays : ∀ persistHistory, event.cause ≠ .restart persistHistory) :
    Rooted links named (before.step platform limits event).inner := by
  have met : Rooted links named (before.meeting event).inner := ⟨rooted.memory, rooted.stored⟩
  refine step_lasts Rooted.apart allowed met ?_ ?_ ?_ ?_ ?_ ?_
  · intro create creates
    refine createTask_rooted (fun task member => (allowed.unused.2.1 task member).1) ?_ met
    exact tasks _ _ _ ⟨rfl, rfl, create, creates, rfl⟩
  · intro post _
    refine setState_lasts Rooted.apart.toLasts (fun keeps => Rooted.unsaid fun db =>
      (keeps db).mono fun _ _ same => ?_)
      _ met
    simp only [Prod.mk.injEq] at same ⊢
    exact ⟨same.1, same.2.1, same.2.2.2.1⟩
  · intro request index answer cause called worktree spawned
    refine createRun_rooted (runs _ _ _ ⟨rfl, request, ?_, rfl, rfl⟩)
    rw [World.answers, cause]
    exact called
  · intro spawned index answer cause called
    refine commitStart_rooted unnamed (fun task found =>
      attempts _ _ _ _ ⟨rfl, rfl, spawned, ?_, rfl, task, found, rfl⟩) met
    rw [World.answers, cause]
    exact called
  · exact fun _ _ => removeProject_rooted one
  · exact fun persistHistory cause => absurd cause (stays persistHistory)

end Step

end ForgeNode.Orchestration
