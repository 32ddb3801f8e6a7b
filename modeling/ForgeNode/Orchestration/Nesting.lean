import ForgeNode.Orchestration.Rooting

/-! Runs nest as deep as the rail allows, where the rail is no deeper than the walk that measures
how deep they nest: in every interleaving and across failed writes, removals and restarts. -/

namespace ForgeNode.Orchestration

open Store

open Section (Meets Preserves)

variable {id : AttemptId} {length : Nat}

/-- The parent attempt of an attempt's run, where the ledger knows it. -/
def Ledger.grandparent (ledger : Ledger) (attempt : AttemptId) : Option AttemptId :=
  ((ledger.attempts.get? attempt).bind fun attempt =>
    (ledger.tasks.get? attempt.taskId).bind fun task => ledger.runs.get? task.runId).bind
      (·.parentAttemptId)

/-- A run with this parent, and the links from it up to its root, are at most so many. -/
def Ledger.nestedWithin (ledger : Ledger) : Nat → Option AttemptId → Bool
  | 0, _ => false
  | _ + 1, none => true
  | bound + 1, some attempt => ledger.nestedWithin bound (ledger.grandparent attempt)

/-- What the ledger says, and the stored tasks and attempts. -/
def Inner.links (inner : Inner) : Links where
  run id project parent := ∃ run ∈ inner.ledger.runs, run.id = id ∧ run.projectId = project ∧
    run.parentAttemptId = parent
  task id run created := (∃ task ∈ inner.ledger.tasks, task.id = id ∧ task.runId = run ∧
      task.createdAt = created) ∨
    ∃ row ∈ inner.db.tables.tasks, row.id = id ∧ row.runId = run ∧ row.createdAt = created
  attempt id task n created := (∃ attempt ∈ inner.ledger.attempts, attempt.id = id ∧
      attempt.taskId = task ∧ attempt.n = n ∧ attempt.createdAt = created) ∨
    ∃ row ∈ inner.db.tables.attempts, row.id = id ∧ row.taskId = task ∧ row.n = n ∧
      row.createdAt = created

/-- The attempts that a run names as its parent, or a request for a run that has passed its
check. -/
def World.parents (world : World) (attempt : AttemptId) : Prop :=
  (∃ run ∈ world.inner.ledger.runs, run.parentAttemptId = some attempt) ∨
    ∃ request, .createRun request ∈ world.calls ∧ request.parentAttemptId = some attempt

/-- So many links lead up from an attempt's run, or more. -/
inductive Chain (links : Links) : AttemptId → Nat → Prop where
  | stop {id : AttemptId} : Chain links id 0
  | up {id parent : AttemptId} {task : TaskId} {run : RunId} {project : ProjectId} {n length : Nat}
      {created created' : Timestamp} (attempt : links.attempt id task n created)
      (task_ : links.task task run created') (run_ : links.run run project (some parent))
      (rest : Chain links parent length) : Chain links id (length + 1)

/-- What is said of tasks, attempts and parents is said there as well. -/
structure Below (links other : Links) : Prop where
  parent : ∀ {id project attempt}, links.run id project (some attempt) →
    ∃ project', other.run id project' (some attempt)
  task : ∀ {id run created}, links.task id run created → other.task id run created
  attempt : ∀ {id task n created}, links.attempt id task n created → other.attempt id task n created

variable {links other : Links} {named : AttemptId → Prop} {inner : Inner} {platform : Platform}
  {limits : OrchestrationLimits}

section Chains

theorem Chain.mono (below : Below links other)
    (chain : Chain links id length) : Chain other id length := by
  induction chain with
  | stop => exact .stop
  | up attempt task run _ ih =>
    obtain ⟨_, run'⟩ := below.parent run
    exact .up (below.attempt attempt) (below.task task) run' ih

theorem Rooted.below (rooted : Rooted links named inner) : Below inner.links links := by
  refine ⟨?_, ?_, ?_⟩
  · rintro _ _ _ ⟨run, there, rfl, _, parent⟩
    exact ⟨_, parent ▸ rooted.memory.runs run there⟩
  · rintro _ _ _ (⟨task, there, rfl, rfl, rfl⟩ | ⟨row, there, rfl, rfl, rfl⟩)
    · exact (rooted.memory.tasks task there).1
    · exact (rooted.stored.tasks row there).1
  · rintro _ _ _ _ (⟨attempt, there, rfl, rfl, rfl, rfl⟩ | ⟨row, there, rfl, rfl, rfl, rfl⟩)
    · exact (rooted.memory.attempts attempt there).1
    · exact (rooted.stored.attempts row there).1

theorem one_of_below (one : links.One) (below : Below inner.links links) : inner.links.One where
  run := by
    rintro _ _ _ _ _ ⟨run, there, rfl, rfl, rfl⟩ ⟨run', there', same, rfl, rfl⟩
    rw [eq_of_key there' there same]
    exact ⟨rfl, rfl⟩
  task := fun first second => one.task (below.task first) (below.task second)
  attempt := fun first second => one.attempt (below.attempt first) (below.attempt second)

theorem Rooted.self (one : links.One) (rooted : Rooted links named inner) :
    Rooted inner.links named inner := by
  obtain ⟨memory, stored⟩ := rooted
  refine ⟨⟨fun run member => ⟨run, member, rfl, rfl, rfl⟩, fun task member =>
    ?_, fun attempt member => ?_⟩, ⟨fun row member => ?_, fun row member => ?_, fun row member => ?_⟩⟩
  · exact ⟨.inl ⟨task, member, rfl, rfl, rfl⟩, (memory.tasks task member).2⟩
  · exact ⟨.inl ⟨attempt, member, rfl, rfl, rfl, rfl⟩, (memory.attempts attempt member).2⟩
  · obtain ⟨⟨run, there, same⟩, ⟨parent, known⟩, parent'⟩ := stored.runs row member
    have project := (one.run (same ▸ memory.runs run there) known).1
    refine ⟨⟨run, there, same⟩, ⟨_, run, there, same, project, rfl⟩, parent'.imp_right ?_⟩
    rintro ⟨project', known'⟩
    exact ⟨_, run, there, same, rfl, (one.run (same ▸ memory.runs run there) known').2⟩
  · exact ⟨.inr ⟨row, member, rfl, rfl, rfl⟩, (stored.tasks row member).2⟩
  · exact ⟨.inr ⟨row, member, rfl, rfl, rfl, rfl⟩, (stored.attempts row member).2⟩

theorem Rooted.weaken {fewer : AttemptId → Prop} (rooted : Rooted links named inner)
    (implies : ∀ attempt, fewer attempt → named attempt) : Rooted links fewer inner :=
  ⟨rooted.memory, rooted.stored.runs, rooted.stored.tasks, fun row member => by
    obtain ⟨known, task, shown⟩ := rooted.stored.attempts row member
    exact ⟨known, task, fun may => shown (implies _ may)⟩⟩

/-- What a restart comes up with is linked as it was before. -/
theorem Shows.below {ledger : Ledger} {inner : Inner}
    (shows : Shows inner.db.tables inner.ledger)
    (stems : Stems links named ledger inner.db.tables) : Below inner.links links := by
  refine ⟨?_, ?_, ?_⟩
  · rintro _ _ attempt ⟨run, there, rfl, _, parent⟩
    obtain ⟨row, held, same, _, parent'⟩ := shows.runs run there
    rcases (stems.runs row held).2.2 with none | ⟨project, known⟩
    · rw [parent', parent] at none
      cases none
    · exact ⟨project, by rw [← same, ← parent, ← parent']; exact known⟩
  · rintro _ _ _ (⟨task, there, rfl, rfl, rfl⟩ | ⟨row, there, rfl, rfl, rfl⟩)
    · obtain ⟨row, held, same, run, created⟩ := shows.tasks task there
      rw [← same, ← run, ← created]
      exact (stems.tasks row held).1
    · exact (stems.tasks row there).1
  · rintro _ _ _ _ (⟨attempt, there, rfl, rfl, rfl, rfl⟩ | ⟨row, there, rfl, rfl, rfl, rfl⟩)
    · obtain ⟨row, held, same, task, n, created⟩ := shows.attempts attempt there
      rw [← same, ← task, ← n, ← created]
      exact (stems.attempts row held).1
    · exact (stems.attempts row there).1

/-- What a restart comes up with is linked, and all that is stored is there. -/
theorem Shows.rooted {named' : AttemptId → Prop} {ledger : Ledger} {inner : Inner}
    (shows : Shows inner.db.tables inner.ledger)
    (stems : Stems links named ledger inner.db.tables) : Rooted inner.links named' inner := by
  refine ⟨⟨fun run member => ⟨run, member, rfl, rfl, rfl⟩, fun task member =>
    ?_, fun attempt member => ?_⟩, ⟨fun row member => ?_, fun row member => ?_, fun row member => ?_⟩⟩
  · obtain ⟨row, held, _, run, _⟩ := shows.tasks task member
    obtain ⟨_, first, there, same⟩ := stems.tasks row held
    obtain ⟨later, there', same'⟩ := shows.allRuns first there
    exact ⟨.inl ⟨task, member, rfl, rfl, rfl⟩, later, there', same'.trans (same.trans run)⟩
  · obtain ⟨row, held, _, task, _⟩ := shows.attempts attempt member
    obtain ⟨_, ⟨first, there, same⟩, _⟩ := stems.attempts row held
    obtain ⟨later, there', same'⟩ := shows.allTasks first there
    exact ⟨.inl ⟨attempt, member, rfl, rfl, rfl, rfl⟩, later, there', same'.trans (same.trans task)⟩
  · obtain ⟨run, there, same⟩ := shows.allRuns row member
    obtain ⟨row', held, same', project, parent⟩ := shows.runs run there
    have equal := eq_of_key held member (same'.trans same)
    subst equal
    exact ⟨⟨run, there, same⟩, ⟨_, run, there, same, project.symm, rfl⟩,
      .inr ⟨_, run, there, same, rfl, parent.symm⟩⟩
  · exact ⟨.inr ⟨row, member, rfl, rfl, rfl⟩, (stems.tasks row member).2⟩
  · exact ⟨.inr ⟨row, member, rfl, rfl, rfl, rfl⟩, (stems.attempts row member).2.1,
      fun _ => shows.allAttempts row member⟩

end Chains

section Walk

/-- A parent that is linked to its run is found there, with the parent that is said of it. -/
theorem Rooted.grandparent (one : inner.links.One) (rooted : Rooted inner.links named inner)
    {id parent : AttemptId} {task : TaskId} {run : RunId} {n : Nat} {created created' : Timestamp}
    {project : ProjectId} (may : named id) (attempt_ : inner.links.attempt id task n created)
    (task_ : inner.links.task task run created')
    (run_ : inner.links.run run project (some parent)) :
    inner.ledger.grandparent id = some parent := by
  have held : ∃ attempt ∈ inner.ledger.attempts, attempt.id = id := by
    rcases attempt_ with ⟨attempt, there, same, _⟩ | ⟨row, there, same, _⟩
    · exact ⟨attempt, there, same⟩
    · exact same ▸ (rooted.stored.attempts row there).2.2 (same ▸ may)
  obtain ⟨attempt, there, rfl⟩ := held
  obtain ⟨known, first, held, same⟩ := rooted.memory.attempts attempt there
  obtain ⟨rfl, _⟩ := one.attempt known attempt_
  obtain ⟨known', last, held', same'⟩ := rooted.memory.tasks first held
  obtain ⟨rfl, _⟩ := one.task (same ▸ known') task_
  obtain ⟨found, held'', same'', _, parent'⟩ := run_
  have equal := eq_of_key held'' held' (same''.trans same'.symm)
  unfold Ledger.grandparent
  rw [get?_of_mem there, Option.bind_some, ← same, get?_of_mem held,
    Option.bind_some, ← same', get?_of_mem held', Option.bind_some, ← equal, parent']

theorem grandparent_links {id parent : AttemptId}
    (found : inner.ledger.grandparent id = some parent) : ∃ task n created run created' project,
      inner.links.attempt id task n created ∧ inner.links.task task run created' ∧
        inner.links.run run project (some parent) := by
  unfold Ledger.grandparent at found
  obtain ⟨run, named, parent'⟩ := Option.bind_eq_some_iff.mp found
  obtain ⟨attempt, first, rest⟩ := Option.bind_eq_some_iff.mp named
  obtain ⟨task, second, third⟩ := Option.bind_eq_some_iff.mp rest
  exact ⟨_, _, _, _, _, _, .inl ⟨attempt, mem_of_get? first, key_of_get? first,
    rfl, rfl, rfl⟩, .inl ⟨task, mem_of_get? second, key_of_get? second, rfl, rfl⟩,
    run, mem_of_get? third, key_of_get? third, rfl, parent'⟩

theorem le_depthFrom (ledger : Ledger) (fuel depth : Nat) (parent : Option AttemptId) :
    depth ≤ ledger.depthFrom fuel depth parent := by
  induction fuel generalizing depth parent with
  | zero => exact le_rfl
  | succ fuel ih =>
    cases parent with
    | none => exact le_rfl
    | some attempt =>
      unfold Ledger.depthFrom
      dsimp only
      split
      · exact Nat.le_succ depth
      · exact (Nat.le_succ depth).trans (ih (depth + 1) _)

/-- The walk counts every link, where it ends before it is cut off. -/
theorem Rooted.chain_le (one : inner.links.One) (rooted : Rooted inner.links named inner)
    (parents : ∀ run ∈ inner.ledger.runs, ∀ attempt, run.parentAttemptId = some attempt →
      named attempt) (chain : Chain inner.links id length) :
    ∀ fuel depth, named id → depth + fuel = 10 →
      inner.ledger.depthFrom fuel depth (some id) ≤ 8 →
        depth + 1 + length ≤ inner.ledger.depthFrom fuel depth (some id) := by
  induction chain with
  | stop =>
    intro fuel depth may enough short
    cases fuel with
    | zero => simp only [Ledger.depthFrom] at short; omega
    | succ fuel =>
      simp only [Ledger.depthFrom] at short ⊢
      split at short
      · omega
      · rename_i inside
        rw [if_neg inside]
        exact le_depthFrom _ _ _ _
  | @up id parent task run project n length created created' attempt_ task_ run_ rest ih =>
    intro fuel depth may enough short
    have next : inner.ledger.grandparent id = some parent :=
      rooted.grandparent one may attempt_ task_ run_
    obtain ⟨row, there, _, _, parent'⟩ := run_
    cases fuel with
    | zero => simp only [Ledger.depthFrom] at short; omega
    | succ fuel =>
      unfold Ledger.grandparent at next
      simp only [Ledger.depthFrom, next] at short ⊢
      split at short
      · omega
      · rename_i inside
        rw [if_neg inside]
        have counted := ih fuel (depth + 1) (parents row there parent parent') (by omega) short
        omega

/-- What the rail lets nest is as deep as the rail says, where the rail is in the walk's reach. -/
theorem createRunCheck_chain (shallow : limits.maxRunDepth ≤ 9) (one : inner.links.One)
    (rooted : Rooted inner.links named inner)
    (parents : ∀ run ∈ inner.ledger.runs, ∀ attempt, run.parentAttemptId = some attempt →
      named attempt)
    {request : CreateRun} (passed : createRunCheck request limits inner = .ok ())
    (named_ : request.parentAttemptId = some id) :
    (∃ attempt ∈ inner.ledger.attempts, attempt.id = id) ∧
      ∀ length, Chain inner.links id length → length + 2 ≤ max 1 limits.maxRunDepth := by
  simp only [createRunCheck, bind_eq_ok, require_eq_ok, named_, found_eq_ok, mapError_eq_ok] at passed
  obtain ⟨_, _, _, _, attempt, first, task, second, run, third, fits⟩ := passed
  have depth : inner.ledger.runDepth run + 1 ≤ limits.maxRunDepth := by
    unfold allowNestedRun at fits
    split at fits
    · cases fits
    · dsimp only at fits
      split at fits
      · cases fits
      · omega
  have there := mem_of_get? first
  have same : attempt.id = id := key_of_get? first
  refine ⟨⟨attempt, there, same⟩, fun length chain => ?_⟩
  have least : 1 ≤ inner.ledger.runDepth run := le_depthFrom _ _ _ _
  cases chain with
  | stop => omega
  | @up _ parent task' run' project n length _ _ attempt_ task_ run_ rest =>
    obtain ⟨rfl, _⟩ := one.attempt (.inl ⟨attempt, there, same, rfl, rfl, rfl⟩) attempt_
    obtain ⟨rfl, _⟩ := one.task (.inl ⟨task, mem_of_get? second, key_of_get? second,
      rfl, rfl⟩) task_
    obtain ⟨row, held, same', _, parent'⟩ := run_
    have equal := eq_of_key held (mem_of_get? third)
      (same'.trans (key_of_get? third).symm)
    subst equal
    have counted := rooted.chain_le one parents rest 9 1 (parents row held parent parent') rfl
    rw [← parent'] at counted
    have short : inner.ledger.depthFrom 9 1 row.parentAttemptId ≤ 8 := by
      have bound : inner.ledger.depthFrom 9 1 row.parentAttemptId + 1 ≤ limits.maxRunDepth := depth
      omega
    have counted := counted short
    have bound : inner.ledger.depthFrom 9 1 row.parentAttemptId + 1 ≤ limits.maxRunDepth := depth
    omega

end Walk

section Steps

variable {before after : World} {event : Event}

/-- Every run is linked as it says, and as deep as the rail says. -/
structure Nested (limits : OrchestrationLimits) (world : World) : Prop where
  rooted : Rooted world.inner.links world.parents world.inner
  one : world.inner.links.One
  depth : ∀ attempt, world.parents attempt → ∀ length, Chain world.inner.links attempt length →
    length + 2 ≤ max 1 limits.maxRunDepth

/-- Nothing is said yet of a drawn id, and no row belongs to it. -/
structure Unsaid (links : Links) (id : Nat) : Prop where
  run : ∀ {project parent}, ¬ links.run id project parent
  task : ∀ {run created}, ¬ links.task id run created
  attempt : ∀ {task n created}, ¬ links.attempt id task n created
  ofRun : ∀ {task created}, ¬ links.task task id created
  ofTask : ∀ {attempt n created}, ¬ links.attempt attempt id n created

theorem World.Allows.unsaid (allowed : before.Allows event) :
    Unsaid before.inner.links event.fresh ∧ ¬ before.parents event.fresh := by
  obtain ⟨new, _⟩ := allowed
  simp only [World.names, List.mem_append, not_or, Store.mem_keys, not_exists, not_and,
    List.mem_map, List.mem_filterMap] at new
  obtain ⟨⟨⟨⟨⟨⟨⟨⟨⟨⟨⟨⟨⟨⟨⟨runs, parents⟩, tasks⟩, attempts⟩, ofRun⟩, ofTask⟩, _⟩, _⟩, storedRuns⟩,
    storedTasks⟩, storedAttempts⟩, storedOfRun⟩, storedOfTask⟩, _⟩, _⟩, calls⟩ := new
  refine ⟨⟨?_, ?_, ?_, ?_, ?_⟩, ?_⟩
  · rintro _ _ ⟨run, there, same, _⟩
    exact runs run there same
  · rintro _ _ (⟨task, there, same, _⟩ | ⟨row, there, same, _⟩)
    · exact tasks task there same
    · exact storedTasks row there same
  · rintro _ _ _ (⟨attempt, there, same, _⟩ | ⟨row, there, same, _⟩)
    · exact attempts attempt there same
    · exact storedAttempts row there same
  · rintro _ _ (⟨task, there, _, same, _⟩ | ⟨row, there, _, same, _⟩)
    · exact ofRun task there same
    · exact storedOfRun row there same
  · rintro _ _ _ (⟨attempt, there, _, same, _⟩ | ⟨row, there, _, same, _⟩)
    · exact ofTask attempt there same
    · exact storedOfTask row there same
  · rintro (⟨run, there, same⟩ | ⟨request, there, same⟩)
    · exact parents run there same
    · refine calls (List.mem_flatMap.mpr ⟨_, there, ?_⟩)
      simp [same]

/-- What an event says of its new id it says once. -/
theorem one_or_draws (one : before.inner.links.One)
    (unsaid : Unsaid before.inner.links event.fresh) :
    (before.inner.links.or (before.draws event)).One where
  run := by
    rintro _ _ _ _ _ (old | ⟨rfl, request, asked, rfl, rfl⟩)
      (old' | ⟨same, request', asked', rfl, rfl⟩)
    · exact one.run old old'
    · exact absurd (same ▸ old) unsaid.run
    · exact absurd old' unsaid.run
    · cases Option.some.inj (asked.symm.trans asked')
      exact ⟨rfl, rfl⟩
  task := by
    rintro _ _ _ _ _ (old | ⟨rfl, rfl, request, asked, rfl⟩)
      (old' | ⟨same, rfl, request', asked', rfl⟩)
    · exact one.task old old'
    · exact absurd (same ▸ old) unsaid.task
    · exact absurd old' unsaid.task
    · refine ⟨?_, rfl⟩
      rcases asked with asked | ⟨_, asked⟩ <;> rcases asked' with asked' | ⟨_, asked'⟩ <;>
        · rw [asked] at asked'
          cases asked' <;> rfl
  attempt := by
    rintro _ _ _ _ _ _ _ (old | ⟨rfl, rfl, worker, asked, rfl, row, found, rfl⟩)
      (old' | ⟨same, rfl, worker', asked', rfl, row', found', rfl⟩)
    · exact one.attempt old old'
    · exact absurd (same ▸ old) unsaid.attempt
    · exact absurd old' unsaid.attempt
    · cases Option.some.inj (asked.symm.trans asked')
      cases Option.some.inj (found.symm.trans found')
      exact ⟨rfl, rfl, rfl⟩

theorem Chain.of_or (unsaid : Unsaid before.inner.links event.fresh)
    (chain : Chain (before.inner.links.or (before.draws event)) id length) :
    id ≠ event.fresh → ¬ before.parents event.fresh → Chain before.inner.links id length := by
  induction chain with
  | stop => exact fun _ _ => .stop
  | @up id parent task run project n length created created' attempt task_ run_ rest ih =>
    intro other unnamed
    have attempt' := attempt.resolve_right fun drawn => other drawn.1
    have task' := task_.resolve_right fun drawn => unsaid.ofTask (drawn.1 ▸ attempt')
    have run' := run_.resolve_right fun drawn => unsaid.ofRun (drawn.1 ▸ task')
    refine .up attempt' task' run' (ih ?_ unnamed)
    rintro rfl
    obtain ⟨row, there, _, _, parent'⟩ := run'
    exact unnamed (.inl ⟨row, there, parent'⟩)

theorem Nested.restarted (nested : Nested limits before) (calls : after.calls = [])
    (stems : Stems before.inner.links before.parents before.inner.ledger after.inner.db.tables)
    (shows : Shows after.inner.db.tables after.inner.ledger) : Nested limits after := by
  have below : Below after.inner.links before.inner.links := shows.below stems
  refine ⟨shows.rooted stems, one_of_below nested.one below, ?_⟩
  rintro attempt (⟨run, there, parent⟩ | ⟨request, there, _⟩) length chain
  · obtain ⟨project, row, held, _, _, parent'⟩ := below.parent ⟨run, there, rfl, rfl, parent⟩
    exact nested.depth attempt (.inl ⟨row, held, parent'⟩) length (chain.mono below)
  · rw [calls] at there
    cases there

theorem Nested.of_rooted (nested : Nested limits before)
    (rooted : Rooted before.inner.links before.parents after.inner)
    (parents : ∀ attempt, after.parents attempt → before.parents attempt) :
    Nested limits after := by
  have below := rooted.below
  exact ⟨(rooted.self nested.one).weaken parents, one_of_below nested.one below,
    fun attempt may length chain => nested.depth attempt (parents attempt may) length
    (chain.mono below)⟩

theorem Nested.step_restart (nested : Nested limits before) {persistHistory : Bool}
    (cause : event.cause = .restart persistHistory) :
    Nested limits (before.step platform limits event) := by
  have loads := @loadDaemon_stems _ _ limits event.now persistHistory (before.meeting event).inner
    nested.rooted.stored
  simp only [World.step, cause]
  unfold Meets at loads
  obtain ⟨stems, after⟩ := loads
  cases outcome : ((loadDaemon limits persistHistory event.now).run
    (before.meeting event).inner).1 with
  | ok done =>
    rw [outcome] at after
    exact nested.restarted rfl stems after
  | error error =>
    rw [outcome] at after
    have ledger : _ = before.inner.ledger := after
    refine nested.of_rooted ⟨?_, ?_⟩ ?_
    · dsimp only
      rw [ledger]
      exact nested.rooted.memory
    · dsimp only
      rw [ledger]
      exact stems
    · rintro attempt (⟨run, there, parent⟩ | ⟨request, there, _⟩)
      · dsimp only at there
        rw [ledger] at there
        exact .inl ⟨run, there, parent⟩
      · cases there

theorem World.mem_of_answers {world : World} {call : Call}
    (answers : world.answers event = some call) : call ∈ world.calls := by
  unfold World.answers at answers
  split at answers
  · exact List.mem_of_getElem? answers
  · cases answers

theorem Rooted.grow {inner : Inner} {links other : Links} {named : AttemptId → Prop}
    (rooted : Rooted links named inner) : Rooted (links.or other)
      (fun id => named id ∨ ∃ attempt ∈ inner.ledger.attempts, attempt.id = id) inner := by
  obtain ⟨memory, stored⟩ := rooted
  refine ⟨⟨fun run member => .inl (memory.runs run member), fun task member =>
    ?_, fun attempt member => ?_⟩, ⟨fun row member => ?_, fun row member => ?_, fun row member => ?_⟩⟩
  · exact (memory.tasks task member).imp_left .inl
  · exact (memory.attempts attempt member).imp_left .inl
  · obtain ⟨shown, ⟨parent, known⟩, parent'⟩ := stored.runs row member
    exact ⟨shown, ⟨parent, .inl known⟩, parent'.imp_right fun ⟨project, known⟩ =>
      ⟨project, .inl known⟩⟩
  · exact (stored.tasks row member).imp_left .inl
  · obtain ⟨known, task, shown⟩ := stored.attempts row member
    exact ⟨.inl known, task, fun may => may.elim shown fun there => there⟩

/-- A parent that is named after a step was named before it, or has just passed the rail. -/
theorem parents_of_step (allowed : before.Allows event)
    (stays : ∀ persistHistory, event.cause ≠ .restart persistHistory)
    (rooted : Rooted (before.inner.links.or (before.draws event)) named
      (before.step platform limits event).inner)
      (may : (before.step platform limits event).parents id) :
      before.parents id ∨ ∃ request, createRunCheck request limits before.inner = .ok () ∧
        request.parentAttemptId = some id := by
  rcases may with ⟨run, there, parent⟩ | ⟨request, there, parent⟩
  · rcases rooted.memory.runs run there with ⟨old, held, _, _, same⟩ | ⟨_, request, answers, _, same⟩
    · exact .inl (.inl ⟨old, held, same.trans parent⟩)
    · exact .inl (.inr ⟨request, World.mem_of_answers answers, same.symm.trans parent⟩)
  · have transition : Transition platform limits before event _ := step_transition allowed
    cases transition with
    | acted up effect calls under few arise =>
      rw [under] at there
      rcases List.mem_append.mp there with old | new
      · exact .inl (.inr ⟨request, (before.waiting_sublist event).subset old, parent⟩)
      · exact .inr ⟨request, arise _ new, parent⟩
    | reordered _ _ _ _ _ _ calls => exact .inl (.inr ⟨request, calls ▸ there, parent⟩)
    | restarted persistHistory cause _ _ => exact absurd cause (stays persistHistory)
    | down _ _ calls _ =>
      rw [calls] at there
      cases there

theorem Nested.step (shallow : limits.maxRunDepth ≤ 9) (nested : Nested limits before)
    (allowed : before.Allows event) : Nested limits (before.step platform limits event) := by
  by_cases restarts : ∃ persistHistory, event.cause = .restart persistHistory
  · obtain ⟨persistHistory, cause⟩ := restarts
    exact nested.step_restart cause
  have stays : ∀ persistHistory, event.cause ≠ .restart persistHistory :=
    fun persistHistory cause => restarts ⟨persistHistory, cause⟩
  obtain ⟨unsaid, unnamed⟩ := allowed.unsaid
  have one := one_or_draws nested.one unsaid
  have absent : ∀ attempt ∈ before.inner.ledger.attempts, attempt.id ≠ event.fresh :=
    fun attempt there same => unsaid.attempt (.inl ⟨attempt, there, same, rfl, rfl, rfl⟩)
  have rooted : Rooted _ _ (before.step platform limits event).inner := step_rooted allowed one
    (fun may => may.elim unnamed fun ⟨attempt, there, same⟩ => absent attempt there same)
    (fun _ _ _ => .inr) (fun _ _ _ => .inr) (fun _ _ _ _ => .inr) nested.rooted.grow stays
  have passes {request : CreateRun} {id : AttemptId}
      (passed : createRunCheck request limits before.inner = .ok ())
      (parent : request.parentAttemptId = some id) := createRunCheck_chain shallow nested.one
    nested.rooted (fun run there attempt same => .inl ⟨run, there, same⟩) passed parent
  have below := rooted.below
  refine ⟨(rooted.self one).weaken fun id may => ?_, one_of_below one below,
    fun id may length chain => ?_⟩
  · rcases parents_of_step allowed stays rooted may with old | ⟨request, passed, parent⟩
    · exact .inl old
    · exact .inr (passes passed parent).1
  · have chain := chain.mono below
    rcases parents_of_step allowed stays rooted may with old | ⟨request, passed, parent⟩
    · have other : id ≠ event.fresh := fun same => unnamed (same ▸ old)
      exact nested.depth id old length (chain.of_or unsaid other unnamed)
    · obtain ⟨⟨attempt, there, same⟩, bounded⟩ := passes passed parent
      exact bounded length (chain.of_or unsaid (same ▸ absent attempt there) unnamed)

theorem Nested.initial : Nested limits (World.initial limits) where
  rooted := ⟨⟨fun _ there => absurd there (not_mem_empty _),
      fun _ there => absurd there (not_mem_empty _),
      fun _ there => absurd there (not_mem_empty _)⟩,
    ⟨fun _ there => absurd there (not_mem_empty _), fun _ there =>
    absurd there (not_mem_empty _),
      fun _ there => absurd there (not_mem_empty _)⟩⟩
  one := ⟨fun ⟨_, there, _⟩ => absurd there (not_mem_empty _), by
      rintro _ _ _ _ _ (⟨_, there, _⟩ | ⟨_, there, _⟩) <;> exact absurd there
        (not_mem_empty _), by
      rintro _ _ _ _ _ _ _ (⟨_, there, _⟩ | ⟨_, there, _⟩) <;> exact absurd there
        (not_mem_empty _)⟩
  depth := by
    rintro _ (⟨_, there, _⟩ | ⟨_, there, _⟩)
    · exact absurd there (not_mem_empty _)
    · cases there

/-- Where no chain of links is longer, none is found longer. -/
theorem nestedWithin_of_chain {inner : Inner} (bound : Nat)
    (short : ∀ length, Chain inner.links id length → length + 2 ≤ bound) :
    inner.ledger.nestedWithin bound (some id) = true := by
  induction bound generalizing id with
  | zero => exact absurd (short 0 .stop) (by omega)
  | succ bound ih =>
    have least := short 0 .stop
    unfold Ledger.nestedWithin
    cases next : inner.ledger.grandparent id with
    | none =>
      obtain ⟨rest, rfl⟩ : ∃ rest, bound = rest + 1 := ⟨bound - 1, by omega⟩
      rfl
    | some parent =>
      obtain ⟨_, _, _, _, _, _, attempt, task, run⟩ := grandparent_links next
      refine ih fun length chain => ?_
      have longer := short (length + 1) (.up attempt task run chain)
      omega

/-- In every interleaving runs nest within the rail, where the walk can tell depths of it apart. -/
theorem nested_within_of_shallow (shallow : limits.maxRunDepth ≤ 9) {world : World}
    (reachable : World.Reachable platform limits world) : ∀ run ∈ world.inner.ledger.runs,
      world.inner.ledger.nestedWithin (max 1 limits.maxRunDepth) run.parentAttemptId = true := by
  obtain ⟨steps, run⟩ := reachable
  have nested := (run.invariant (Nested limits) (fun {before event after} step nested => by
    obtain ⟨allowed, rfl⟩ := step
    exact nested.step shallow allowed) .initial).1
  intro row there
  cases parent : row.parentAttemptId with
  | none =>
    obtain ⟨rest, positive⟩ : ∃ rest, max 1 limits.maxRunDepth = rest + 1 :=
      ⟨max 1 limits.maxRunDepth - 1, by omega⟩
    rw [positive]
    rfl
  | some id => exact nestedWithin_of_chain _ (nested.depth id (.inl ⟨row, there, parent⟩))

/-- A task of the run, an attempt of the task, and a run that the attempt is the parent of. -/
def nestIn (run : RunId) : List Cause :=
  [.request (.createTask ⟨none, run, "title", "spec", "acceptance", [], .readOnly, true⟩),
    .request (.startAttempt ⟨none, run + 1, "provider", none, .integration⟩),
    .advance 0 (.checkout ⟨2, none, none⟩), .advance 0 .proceed,
    .request (.createRun ⟨none, 1, "objective", .none, .workspace 2, none, some (run + 4)⟩),
    .advance 0 (.placed "branch" 2 (.ok 0))]

/-- Runs nested one in the other, so many below the first. -/
def nestedRuns (levels : Nat) : List Cause :=
  opening ++ (List.range levels).flatMap fun level => nestIn (103 + 6 * level)

theorem nested_within_of_shallow_nestedOnce :
    ∃ run ∈ (reached (nestedRuns 1)).inner.ledger.runs.rows, run.parentAttemptId = some 107 ∧
      (reached (nestedRuns 1)).inner.ledger.nestedWithin 2 run.parentAttemptId = true := by
  have nested := nested_within_of_shallow (by decide)
    ⟨stepsTo (nestedRuns 1), run_of_admitted (by decide +kernel)⟩
  have inside : ∃ run ∈ (reached (nestedRuns 1)).inner.ledger.runs.rows,
      run.parentAttemptId = some 107 := by decide +kernel
  obtain ⟨run, there, parent⟩ := inside
  exact ⟨run, there, parent, nested run there⟩

/-- A rail that the walk cannot reach. -/
def tenDeep : OrchestrationLimits := { OrchestrationLimits.default with maxRunDepth := 10 }

/-- Ten runs below the first: the walk takes the tenth for the ninth, and lets one more nest. -/
theorem not_nested_within : ¬ ∀ platform limits world, World.Reachable platform limits world →
    ∀ run ∈ world.inner.ledger.runs,
      world.inner.ledger.nestedWithin (max 1 limits.maxRunDepth) run.parentAttemptId = true := by
  intro always
  have within := always plain tenDeep
    ((World.initial tenDeep).replay plain tenDeep (numbered 100 (nestedRuns 10)))
    ⟨_, World.run_of_admits plain tenDeep (by decide +kernel)⟩
  have deeper : ∃ run ∈ ((World.initial tenDeep).replay plain tenDeep
      (numbered 100 (nestedRuns 10))).inner.ledger.runs.rows,
      ((World.initial tenDeep).replay plain tenDeep
      (numbered 100 (nestedRuns 10))).inner.ledger.nestedWithin
        10 run.parentAttemptId = false := by decide +kernel
  obtain ⟨run, there, deep⟩ := deeper
  exact Bool.false_ne_true (deep.symm.trans (within run there))

end Steps

end ForgeNode.Orchestration
