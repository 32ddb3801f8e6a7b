import ForgeNode.Orchestration.Lasting

/-! Which attempt a session belongs to: in memory and in the tables alike, an attempt names a
session that is there, and no attempt but its owner ever names it. -/

namespace ForgeNode.Orchestration

open Store

open Section (Meets Preserves)

variable {inner : Inner} {session : SessionId} {tables after : Tables} {workspace : WorkspaceId}

/-- Each stored attempt that names a session owns it, and the session is stored. -/
def Linked (owner : AttemptId → SessionId → Prop) (tables : Tables) : Prop :=
  ∀ row ∈ tables.attempts, ∀ session, row.sessionId = some session →
    owner row.id session ∧ ∃ kept ∈ tables.sessions, kept.id = session

/-- Each attempt that names a session owns it, and every session so named or stored is there. -/
structure Named (owner : AttemptId → SessionId → Prop) (inner : Inner) : Prop where
  memory : ∀ attempt ∈ inner.ledger.attempts, ∀ session, attempt.sessionId = some session →
    owner attempt.id session ∧ ∃ row ∈ inner.sessions, row.id = session
  stored : Linked owner inner.db.tables
  shown : ∀ row ∈ inner.db.tables.sessions, ∃ session ∈ inner.sessions, session.id = row.id

variable {owner : AttemptId → SessionId → Prop} {limits : OrchestrationLimits} {now : Timestamp}
  {fresh : Nat}

section Rules

theorem Named.of_kept {ledger : Ledger} (named : Named owner inner)
    (kept : Kept inner.ledger ledger) : Named owner { inner with ledger } := by
  refine ⟨fun attempt member session names => ?_, named.stored, named.shown⟩
  obtain ⟨old, there, same, like⟩ := kept.attempts.back attempt member
  rcases like.session with still | gone
  · rw [← same]
    exact named.memory old there session (still ▸ names)
  · rw [gone] at names
    cases names

/-- A statement on other tables changes nothing that is said here. -/
theorem persist_named {statement : Statement}
    (keeps : Keeps (fun tables => (tables.attempts, tables.sessions)) statement) :
    Preserves (Named owner) (persist statement) := by
  intro inner named
  have kept (db : Database) (same : (db.tables.attempts, db.tables.sessions) =
      (inner.db.tables.attempts, inner.db.tables.sessions)) : Named owner { inner with db } := by
    simp only [Prod.mk.injEq] at same
    refine ⟨named.memory, ?_, ?_⟩
    · unfold Linked
      rw [same.1, same.2]
      exact named.stored
    · dsimp only
      rw [same.2]
      exact named.shown
  exact Handler.persist_meets (keeps inner.db) (fun _ db same => kept db same) kept

theorem persistRun_named (run : Run) : Preserves (Named owner) (persist (updateRun run)) :=
  persist_named (keeps_updateRun (fun _ _ => rfl) run)

theorem persistTask_named (task : Task) : Preserves (Named owner) (persistTask task) :=
  persist_named (keeps_updateTask (fun _ _ _ => rfl) task)

/-- A stored attempt takes the session that the attempt in memory names. -/
theorem updateAttempt_linked {attempt : Attempt}
    (owned : ∀ session, attempt.sessionId = some session → owner attempt.id session) :
    Preserves (fun db : Database => Linked owner db.tables) (updateAttempt attempt) := by
  intro db linked
  refine (execute_meets _ db).mono fun result after meets => ?_
  cases result with
  | error error => exact meets.1 ▸ linked
  | ok done =>
    have updated := meets.2.2.2
    simp only [updateAttemptRow, bind_eq_ok, require_eq_ok, pure_eq_ok] at updated
    obtain ⟨values, encoded, _, present, shape⟩ := updated
    simp only [attemptValues, bind_eq_ok, pure_eq_ok] at encoded
    obtain ⟨_, _, _, _, _, _, rfl⟩ := encoded
    rw [← shape]
    intro row member session names
    dsimp only at member
    rcases mem_modify.mp member with ⟨old, there, same, rfl⟩ | ⟨there, _⟩
    · have found := get?_eq_some.mpr ⟨there, same⟩
      obtain ⟨there', _⟩ := present (by rw [found]; rfl)
      have held : attempt.sessionId = some session := names
      rw [held] at there'
      obtain ⟨kept, held'⟩ := Option.isSome_iff_exists.mp there'
      exact ⟨same ▸ owned session held, kept, mem_of_get? held', key_of_get? held'⟩
    · exact linked row there session names

theorem persistAttempt_named {attempt : Attempt}
    (owned : ∀ session, attempt.sessionId = some session → owner attempt.id session) :
    Preserves (Named owner) (persistAttempt attempt) := by
  intro inner named
  have both := (updateAttempt_linked owned inner.db named.stored).both
    ((keeps_updateAttempt (fun _ _ => rfl) attempt : Keeps Tables.sessions _) inner.db)
  have kept (db : Database) (linked : Linked owner db.tables ∧
      db.tables.sessions = inner.db.tables.sessions) : Named owner { inner with db } := by
    refine ⟨named.memory, linked.1, ?_⟩
    dsimp only
    rw [linked.2]
    exact named.shown
  exact Handler.persist_meets both (fun _ db same => kept db same) kept

theorem Named.of_parts {inner after : Inner} (named : Named owner inner)
    (ledger : after.ledger = inner.ledger) (db : after.db = inner.db)
    (sessions : after.sessions = inner.sessions) : Named owner after := by
  refine ⟨?_, db ▸ named.stored, ?_⟩
  · rw [ledger, sessions]
    exact named.memory
  · rw [db, sessions]
    exact named.shown

/-- An attempt that names a session owns it. -/
def Named.fact (owner : AttemptId → SessionId → Prop) : Fact where
  holds := Named owner
  run _ := True
  task _ := True
  attempt attempt := ∀ session, attempt.sessionId = some session → owner attempt.id session

theorem Named.lasts : (Named.fact owner).Lasts where
  runs _ _ _ := trivial
  tasks _ _ _ := trivial
  attempts named attempt there session names := (named.memory attempt there session names).1
  likeRun _ _ := trivial
  likeTask _ _ := trivial
  likeAttempt owns like session names := by
    rcases like.session with still | gone
    · exact like.id ▸ owns session (still ▸ names)
    · cases gone.symm.trans names
  rewrites kept named := named.of_kept kept
  storesRun {run} _ := persistRun_named run
  storesTask {task} _ := persistTask_named task
  storesAttempt := persistAttempt_named
  elsewhere keeps := persist_named fun db => (keeps db).mono fun _ _ same => by
    simp only [Prod.mk.injEq] at same ⊢
    exact ⟨same.2.2.2.1, same.2.2.2.2.1⟩
  beside ledger db sessions named := named.of_parts ledger db sessions

end Rules

section Runs

theorem createRun_named {request : CreateRun} {worktree : String × WorkspaceId}
    {spawned : Except ProtocolError SessionId} :
    Preserves (Named owner) (createRun request worktree spawned fresh now) :=
  .bind .check fun _ => .bind .check fun _ =>
  .bind (persist_named (keeps_insertRun (fun _ _ => rfl) _)) fun _ =>
    .change fun _ named => ⟨named.memory, named.stored, named.shown⟩

theorem createTask_named {request : CreateTask} :
    Preserves (Named owner) (createTask request limits fresh now) :=
  .bind .check fun _ => .bind (persist_named (keeps_insertTask (fun _ _ _ => rfl) _)) fun _ =>
    .bind (.change fun _ named => ⟨named.memory, named.stored, named.shown⟩) fun _ => .pure

end Runs

section Attempts

/-- The new attempt owns its session, which its row could name only if it was stored. -/
theorem commitStart_named {spawned : Spawned} (owned : owner fresh spawned.session) :
    Preserves (Named owner) (commitStart spawned limits fresh now) := by
  unfold commitStart
  refine .check_bind ?_
  rintro _ ⟨task, n⟩ _ _
  refine .bind (setTask_lasts Named.lasts fun _ => ⟨rfl, rfl, rfl, rfl⟩) fun _ => ?_
  intro inner named
  have insert : (insertAttempt (spawned.attempt fresh n now)).Meets inner.db fun result after =>
      Linked owner after.tables ∧ after.tables.sessions = inner.db.tables.sessions ∧
        ∀ done, result = .ok done → ∃ kept ∈ inner.db.tables.sessions, kept.id = spawned.session := by
    refine (execute_meets _ inner.db).mono fun result after meets => ?_
    cases result with
    | error error =>
      refine ⟨meets.1 ▸ named.stored, by rw [meets.1], fun _ impossible => by cases impossible⟩
    | ok done =>
      have inserted := meets.2.2.2
      simp only [insertAttemptRow, bind_eq_ok, require_eq_ok, pure_eq_ok] at inserted
      obtain ⟨values, encoded, _, _, _, ⟨_, session, _⟩, shape⟩ := inserted
      simp only [attemptValues, bind_eq_ok, pure_eq_ok] at encoded
      obtain ⟨_, _, _, _, _, _, rfl⟩ := encoded
      obtain ⟨kept, found⟩ := Option.isSome_iff_exists.mp session
      have there := mem_of_get? found
      have called := key_of_get? found
      rw [← shape]
      refine ⟨fun row member session names => ?_, rfl, fun _ _ => ⟨kept, there, called⟩⟩
      rcases mem_put.mp member with rfl | ⟨held, _⟩
      · cases names
        exact ⟨owned, kept, there, called⟩
      · exact named.stored row held session names
  refine Handler.persist_bind_of insert ?_ ?_
  · rintro error db ⟨linked, same, _⟩
    exact ⟨named.memory, linked, same ▸ named.shown⟩
  · rintro db ⟨linked, same, found⟩
    obtain ⟨kept, there, called⟩ := found ⟨⟩ rfl
    obtain ⟨session, held, called'⟩ := named.shown kept there
    have still : Named owner { inner with db } := ⟨named.memory, linked, same ▸ named.shown⟩
    have task_ := persistTask_named (task.started n now) { inner with db } still
    have sessions : (persistTask (task.started n now)).Meets { inner with db }
        fun _ after => after.sessions = inner.sessions :=
      Handler.persist_last (counted_updateTask _) (fun _ _ _ => rfl) fun _ _ => rfl
    refine (task_.both sessions).bind (fun _ _ kept => kept.1) fun _ after kept => ?_
    refine Handler.onLedger_last ⟨fun attempt member session names => ?_, kept.1.stored, kept.1.shown⟩
    rcases mem_put.mp member with rfl | ⟨held', _⟩
    · cases names
      exact ⟨owned, session, kept.2 ▸ held, called'.trans called⟩
    · exact kept.1.memory attempt held' session names

end Attempts

section Removals

/-- The sessions that are gone from the tables, and those that no attempt names any more. -/
structure Removing (owner : AttemptId → SessionId → Prop) (gone clear : SessionId → Prop)
    (inner : Inner) : Prop where
  named : Named owner inner
  gone : ∀ row ∈ inner.db.tables.sessions, ¬ gone row.id
  clear : ∀ attempt ∈ inner.ledger.attempts, ∀ session, attempt.sessionId = some session →
    ¬ clear session

variable {gone clear : SessionId → Prop}

theorem persist_removing {statement : Statement}
    (named : Preserves (Named owner) (persist statement))
    (keeps : Keeps Tables.sessions statement) : Preserves (Removing owner gone clear)
    (persist statement) := by
  intro inner removing
  have rest : (persist statement).Meets inner fun _ after => after.ledger = inner.ledger ∧
      after.db.tables.sessions = inner.db.tables.sessions :=
    Handler.persist_meets (keeps inner.db) (fun _ _ same => ⟨rfl, same⟩) fun _ same => ⟨rfl, same⟩
  refine ((named inner removing.named).both rest).mono ?_
  rintro result after ⟨kept, ledger, sessions⟩
  exact ⟨kept, sessions ▸ removing.gone, ledger ▸ removing.clear⟩

theorem persistForgotten_removing {runs : List Run} {tasks : List Task} {attempts : List Attempt}
    (owned : ∀ attempt ∈ attempts, ∀ session, attempt.sessionId = some session →
      owner attempt.id session) :
    Preserves (Removing owner gone clear) (persistForgotten runs tasks attempts) := by
  unfold persistForgotten
  refine .bind (.each fun run _ => .ignore (persist_removing (persistRun_named run) ?_)) fun _ =>
    .bind (.each fun task _ => .ignore (persist_removing (persistTask_named task) ?_)) fun _ =>
      .each fun attempt member => .ignore
      (persist_removing (persistAttempt_named (owned attempt member)) ?_)
  · exact keeps_updateRun (fun _ _ => rfl) run
  · exact keeps_updateTask (fun _ _ _ => rfl) task
  · exact keeps_updateAttempt (fun _ _ => rfl) attempt

theorem Attempt.forgetSession_session (session : SessionId) (now : Timestamp) (attempt : Attempt) :
    (attempt.forgetSession session now).id = attempt.id ∧
      ((attempt.forgetSession session now).sessionId = attempt.sessionId ∧
          attempt.sessionId ≠ some session ∨
        (attempt.forgetSession session now).sessionId = none) := by
  unfold forgetSession
  split
  · split <;> exact ⟨rfl, .inr rfl⟩
  · rename_i other
    exact ⟨rfl, .inl ⟨rfl, other⟩⟩

/-- The cache forgets a session whose row is gone. -/
theorem removeSessionCache_removing (goes : gone session) :
    Preserves (Removing owner gone fun _ => False) (removeSessionCache session now) := by
  intro inner removing
  unfold removeSessionCache
  refine Handler.read_bind (Handler.onLedger_bind ?_)
  have forgotten : Removing owner gone (· = session)
      { inner with ledger := inner.ledger.forgetSession session now } := by
    refine ⟨removing.named.of_kept .of_forgetSession, removing.gone, ?_⟩
    rintro attempt member _ names rfl
    obtain ⟨old, _, rfl⟩ := Ledger.attempts_forgetSession.mp member
    rcases (old.forgetSession_session _ _).2 with ⟨same, other⟩ | none
    · exact other (same ▸ names)
    · rw [none] at names
      cases names
  have nulls : ∀ attempt ∈ (inner.ledger.attempts.rows.filter fun attempt =>
      attempt.sessionId == some session).map (Attempt.forgetSession session now),
      ∀ other, attempt.sessionId = some other → owner attempt.id other := by
    intro attempt member other names
    obtain ⟨old, there, rfl⟩ := List.mem_map.mp member
    have named := beq_iff_eq.mp (List.mem_filter.mp there).2
    rcases (old.forgetSession_session _ _).2 with ⟨_, differs⟩ | none
    · exact absurd named differs
    · rw [none] at names
      cases names
  refine (persistForgotten_removing nulls _ forgotten).bind ?_ fun _ after kept => ?_
  · rintro error after kept
    exact ⟨kept.named, kept.gone, fun _ _ _ _ impossible => impossible⟩
  · refine Meets.change ⟨⟨fun attempt member other names => ?_, kept.named.stored, fun row member =>
      ?_⟩, kept.gone, fun _ _ _ _ impossible => impossible⟩
    · obtain ⟨owns, row, there, same⟩ := kept.named.memory attempt member other names
      refine ⟨owns, row, Store.mem_retain.mpr ⟨there, ?_⟩, same⟩
      rw [bne_iff_ne, same]
      exact kept.clear attempt member other names
    · obtain ⟨found, there, same⟩ := kept.named.shown row member
      refine ⟨found, Store.mem_retain.mpr ⟨there, ?_⟩, same⟩
      rw [bne_iff_ne, same]
      exact fun equal => kept.gone row member (equal ▸ goes)

theorem deleteSessionRow_linked {session : SessionId} {tables : Tables}
    (linked : Linked owner tables) : ∃ after, deleteSessionRow session tables = .ok after ∧
    Linked owner after ∧
      after.sessions = tables.sessions.retain fun row => row.id != session := by
  refine ⟨_, rfl, fun row member other names => ?_, rfl⟩
  obtain ⟨old, there, rfl⟩ := List.mem_map.mp member
  split at names
  · cases names
  · rename_i differs
    rw [if_neg differs]
    obtain ⟨owns, kept, held, same⟩ := linked old there other names
    refine ⟨owns, kept, Store.mem_retain.mpr ⟨held, ?_⟩, same⟩
    rw [bne_iff_ne, same]
    exact fun equal => differs (equal ▸ names)

/-- The row of a session is deleted, or nothing is. -/
theorem persistDeleteSession_meets (removing : Removing owner gone (fun _ => False) inner) :
    (persist (execute (deleteSessionRow session))).Meets inner fun result after => match result with
      | .ok _ => Removing owner (fun id => gone id ∨ id = session) (fun _ => False) after
      | .error _ => Removing owner gone (fun _ => False) after := by
  obtain ⟨tables, deleted, linked, sessions⟩ := @deleteSessionRow_linked _ session _
    removing.named.stored
  refine Handler.persist_meets (execute_meets _ inner.db) ?_ ?_
  · rintro error db ⟨same, _, _⟩
    refine ⟨⟨removing.named.memory, ?_, ?_⟩, ?_, removing.clear⟩
    · exact same ▸ removing.named.stored
    · dsimp only
      rw [same]
      exact removing.named.shown
    · dsimp only
      rw [same]
      exact removing.gone
  · rintro db ⟨_, _, _, ran⟩
    have shape := Except.ok.inj (ran.symm.trans deleted)
    refine ⟨⟨removing.named.memory, shape ▸ linked, fun row member => ?_⟩, fun row member => ?_,
      removing.clear⟩
    · dsimp only at member
      rw [shape, sessions] at member
      exact removing.named.shown row (Store.mem_retain.mp member).1
    · dsimp only at member
      rw [shape, sessions] at member
      obtain ⟨there, other⟩ := Store.mem_retain.mp member
      rintro (already | same)
      · exact removing.gone row there already
      · simp [same] at other

theorem Named.removing (named : Named owner inner) :
    Removing owner (fun _ => False) (fun _ => False) inner :=
  ⟨named, fun _ _ impossible => impossible, fun _ _ _ _ impossible => impossible⟩

theorem deleteSession_named :
    Preserves (Named owner) (deleteSession session now) := by
  intro inner named
  unfold deleteSession
  refine (persistDeleteSession_meets named.removing).bind ?_ ?_
  · rintro error after removing
    exact removing.named
  · rintro value after removing
    exact (removeSessionCache_removing (.inr rfl) after removing).mono fun _ _ kept => kept.named

theorem deleteWorkspaceRow_ok (deleted : deleteWorkspaceRow workspace tables = .ok after) :
    after.sessions = tables.sessions ∧ (Linked owner tables → Linked owner after) := by
  simp only [deleteWorkspaceRow, bind_eq_ok, pure_eq_ok] at deleted
  obtain ⟨_, _, rfl⟩ := deleted
  refine ⟨rfl, fun linked row member session names => ?_⟩
  obtain ⟨old, there, rfl⟩ := List.mem_map.mp member
  split at names
  · rename_i here
    rw [if_pos here]
    exact linked old there session names
  · rename_i elsewhere
    rw [if_neg elsewhere]
    exact linked old there session names

theorem deleteProjectRow_ok {project : ProjectId}
    (deleted : deleteProjectRow project tables = .ok after) :
    after.sessions = tables.sessions ∧ (Linked owner tables → Linked owner after) := by
  simp only [deleteProjectRow, bind_eq_ok, pure_eq_ok] at deleted
  obtain ⟨_, _, rfl⟩ := deleted
  exact ⟨rfl, fun linked row member => linked row (Store.mem_retain.mp member).1⟩

/-- A row of a workspace or a project goes, and no session with it. -/
theorem persistDelete_removing {statement : Tables → Except DbError Tables}
    (keeps : ∀ {tables after}, statement tables = .ok after →
      after.sessions = tables.sessions ∧ (Linked owner tables → Linked owner after)) :
    Preserves (Removing owner gone clear) (persist (execute statement)) := by
  intro inner removing
  refine Handler.persist_meets (execute_meets _ inner.db) ?_ ?_
  · rintro error db ⟨same, _, _⟩
    refine ⟨⟨removing.named.memory, same ▸ removing.named.stored, ?_⟩, ?_, removing.clear⟩
    · dsimp only
      rw [same]
      exact removing.named.shown
    · dsimp only
      rw [same]
      exact removing.gone
  · rintro db ⟨_, _, _, ran⟩
    obtain ⟨same, linked⟩ := keeps ran
    refine ⟨⟨removing.named.memory, linked removing.named.stored, ?_⟩, ?_, removing.clear⟩
    · dsimp only
      rw [same]
      exact removing.named.shown
    · dsimp only
      rw [same]
      exact removing.gone

theorem dropWorkspace_named :
    Preserves (Named owner) (dropWorkspace workspace now) := by
  unfold dropWorkspace
  refine .check_bind fun _ _ _ _ => .bind (.each fun _ _ => deleteSession_named) fun _ => ?_
  have row : Preserves (Named owner) (persist (execute (deleteWorkspaceRow workspace))) :=
    fun inner named => (persistDelete_removing deleteWorkspaceRow_ok inner named.removing).mono
      fun _ _ kept => kept.named
  refine .bind row fun _ => .bind (.change fun _ named => named.of_parts rfl rfl rfl) fun _ => ?_
  refine .check_bind fun inner before named found => ?_
  have same : inner.ledger = before := Except.ok.inj found
  subst same
  refine .bind (onLedger_lasts Named.lasts fun _ => .of_forgetWorkspace) fun _ => ?_
  have owned : ∀ attempt ∈ (inner.ledger.attempts.rows.filter fun attempt =>
      attempt.workspaceId == some workspace).map (Attempt.forgetWorkspace workspace),
      ∀ session, attempt.sessionId = some session → owner attempt.id session := by
    intro attempt member
    obtain ⟨old, there, rfl⟩ := List.mem_map.mp member
    exact Named.lasts.likeAttempt (Named.lasts.attempts named old (List.mem_filter.mp there).1)
      (.forgetWorkspace _ old)
  exact fun inner named => (persistForgotten_removing owned inner named.removing).mono
    fun _ _ kept => kept.named

/-- Every session row of the list goes, or the first that fails ends it. -/
theorem deleteSessions_meets {sessions : List SessionId} (named : Named owner inner) :
    (Section.each (fun session => persist (execute (deleteSessionRow session))) sessions).Meets
    inner
      fun result after => Named owner after ∧
        (result = .ok ⟨⟩ → Removing owner (· ∈ sessions) (fun _ => False) after) := by
  refine Meets.each (fun coming after => ∃ done, done ++ coming = sessions ∧
    Removing owner (· ∈ done) (fun _ => False) after) ⟨[], rfl, named, by simp, by simp⟩ ?_ ?_
  · rintro session rest before ⟨done, whole, removing⟩
    refine (persistDeleteSession_meets removing).mono fun result after kept => ?_
    cases result with
    | error error => exact ⟨kept.named, fun impossible => by cases impossible⟩
    | ok value =>
      refine ⟨done ++
        [session], by rw [← whole]; simp, kept.named, fun row member out => ?_, kept.clear⟩
      exact kept.gone row member (by simpa using out)
  · rintro after ⟨done, rfl, removing⟩
    rw [List.append_nil]
    exact ⟨removing.named, fun _ => removing⟩

theorem removeProject_named {project : ProjectId} :
    Preserves (Named owner) (removeProject project now) := by
  unfold removeProject
  refine .check_bind fun _ workspaces _ _ => .check_bind fun _ sessions _ _ => ?_
  intro inner named
  refine (deleteSessions_meets named).bind (fun _ _ kept => kept.1) fun _ middle kept => ?_
  -- From here on no row of the sessions comes back.
  have rest : Preserves (Removing owner (· ∈ sessions) fun _ => False) (do
      Section.each (fun workspace => persist (execute (deleteWorkspaceRow workspace))) workspaces
      persist (execute (deleteProjectRow project))
      onLedger (Ledger.forgetProject project)
      Section.each (fun session => removeSessionCache session now) sessions
      Section.change fun inner =>
        { inner with
          workspaces := inner.workspaces.retain fun row => !workspaces.contains row.id
          projects := inner.projects.filter (· != project) }) := by
    refine .bind (.each fun _ _ => persistDelete_removing deleteWorkspaceRow_ok) fun _ =>
      .bind (persistDelete_removing deleteProjectRow_ok) fun _ => .bind (.change ?_) fun _ =>
        .bind (.each fun session member => removeSessionCache_removing member) fun _ => .change ?_
    · exact fun _ removing =>
        ⟨⟨fun attempt member => removing.named.memory attempt (Store.mem_retain.mp member).1,
        removing.named.stored, removing.named.shown⟩, removing.gone, fun _ _ _ _ impossible =>
        impossible⟩
    · exact fun _ removing => ⟨removing.named.of_parts rfl rfl rfl, removing.gone, removing.clear⟩
  exact (rest middle (kept.2 rfl)).mono fun _ _ kept => kept.named

end Removals

section Sessions

theorem insertSessionRow_ok {session : Session}
    (inserted : insertSessionRow session tables = .ok after) :
    after.sessions = tables.sessions.put session ∧ after.attempts = tables.attempts ∧
      tables.sessions.get? session.id = none := by
  simp only [insertSessionRow, bind_eq_ok, require_eq_ok, pure_eq_ok] at inserted
  obtain ⟨_, unused, _, _, rfl⟩ := inserted
  exact ⟨rfl, rfl, Option.isNone_iff_eq_none.mp unused⟩

theorem addSession_named {session : Session} : Preserves (Named owner) (addSession session) := by
  intro inner named
  unfold addSession
  refine Handler.persist_bind_of (execute_meets _ inner.db) ?_ ?_
  · rintro error db ⟨same, _, _⟩
    refine ⟨named.memory, same ▸ named.stored, ?_⟩
    dsimp only
    rw [same]
    exact named.shown
  · rintro db ⟨_, _, _, ran⟩
    obtain ⟨sessions, attempts, _⟩ := insertSessionRow_ok ran
    refine Meets.change ⟨fun attempt member other names => ?_, fun row member other names => ?_,
      fun row member => ?_⟩
    · obtain ⟨owns, row, there, same⟩ := named.memory attempt member other names
      obtain ⟨found, held, equal⟩ := exists_mem_put there session
      exact ⟨owns, found, held, equal.trans same⟩
    · dsimp only at member
      rw [attempts] at member
      obtain ⟨owns, kept, there, same⟩ := named.stored row member other names
      obtain ⟨found, held, equal⟩ := exists_mem_put there session
      dsimp only
      rw [sessions]
      exact ⟨owns, found, held, equal.trans same⟩
    · dsimp only at member
      rw [sessions] at member
      rcases mem_put.mp member with rfl | ⟨there, _⟩
      · exact ⟨row, mem_put.mpr (.inl rfl), rfl⟩
      · obtain ⟨kept, held, same⟩ := named.shown row there
        obtain ⟨found, held', equal⟩ := exists_mem_put held session
        exact ⟨found, held', equal.trans same⟩

theorem spawnWorker_named :
    Preserves (Named owner) (spawnWorker workspace fresh) :=
  .bind .check fun _ => addSession_named

theorem mem_modify_state {sessions : Store Session.id} {kept : Session} (member : kept ∈ sessions)
    (id : SessionId) (state : SessionState) :
    ∃ row ∈ sessions.modify id (fun row => { row with state }) fun _ => rfl, row.id = kept.id := by
  by_cases same : kept.id = id
  · exact ⟨{ kept with state }, List.mem_map.mpr ⟨kept, member, if_pos same⟩, rfl⟩
  · exact ⟨kept, List.mem_map.mpr ⟨kept, member, if_neg same⟩, rfl⟩

theorem moveSession_named {state : SessionState} :
    Preserves (Named owner) (moveSession session state) := by
  unfold moveSession
  refine .check_bind fun _ _ _ _ => .check_bind fun _ _ _ _ => .bind (.change fun inner named => ?_)
    fun _ => .ignore ?_
  · refine ⟨fun attempt member other names => ?_, named.stored, fun row member => ?_⟩
    · obtain ⟨owns, row, there, same⟩ := named.memory attempt member other names
      obtain ⟨found, held, equal⟩ := mem_modify_state there session state
      exact ⟨owns, found, held, equal.trans same⟩
    · obtain ⟨kept, there, same⟩ := named.shown row member
      obtain ⟨found, held, equal⟩ := mem_modify_state there session state
      exact ⟨found, held, equal.trans same⟩
  · intro inner named
    have moved (db : Database) (same : db.tables.attempts = inner.db.tables.attempts ∧
        ∀ row, row ∈ db.tables.sessions → ∃ kept ∈ inner.db.tables.sessions, kept.id = row.id)
        (forth : ∀ kept ∈ inner.db.tables.sessions, ∃ row ∈ db.tables.sessions, row.id = kept.id) :
        Named owner { inner with db } := by
      refine ⟨named.memory, fun row member other names => ?_, fun row member => ?_⟩
      · rw [same.1] at member
        obtain ⟨owns, kept, there, equal⟩ := named.stored row member other names
        obtain ⟨found, held, equal'⟩ := forth kept there
        exact ⟨owns, found, held, equal'.trans equal⟩
      · obtain ⟨kept, there, equal⟩ := same.2 row member
        obtain ⟨found, held, equal'⟩ := named.shown kept there
        exact ⟨found, held, equal'.trans equal⟩
    refine Handler.persist_meets (execute_meets _ inner.db) ?_ ?_
    · rintro error db ⟨same, _, _⟩
      refine moved db ⟨by rw [same], fun row member => ⟨row, ?_, rfl⟩⟩ fun kept there =>
        ⟨kept, ?_, rfl⟩
      · rw [← same]
        exact member
      · rw [same]
        exact there
    · rintro db ⟨_, _, _, ran⟩
      have shape := Except.ok.inj ran
      refine moved db ⟨by rw [← shape], fun row member => ?_⟩ fun kept there => ?_
      · rw [← shape] at member
        obtain ⟨old, there, rfl⟩ := List.mem_map.mp member
        refine ⟨old, there, ?_⟩
        split <;> rfl
      · rw [← shape]
        exact mem_modify_state there session state

end Sessions

section Load

/-- The values that a restart writes over the rows it read name no other session. -/
theorem reconcileStartup_linked {sessions : Store Session.id} :
    Preserves (fun db : Database => Linked owner db.tables ∧ db.tables.sessions = sessions)
      (reconcileStartup limits now) := by
  unfold reconcileStartup
  refine .check_bind ?_
  rintro db ⟨runs, tasks, attempts⟩ ⟨linked, _⟩ listed
  obtain ⟨_, _, third⟩ := listAll_ok listed
  dsimp only
  split
  · exact .pure
  have frame {statement : Statement}
      (keeps : Keeps (fun tables => (tables.attempts, tables.sessions)) statement) :
      Preserves (fun db : Database => Linked owner db.tables ∧ db.tables.sessions = sessions)
      statement := by
    rintro db ⟨linked, same⟩
    refine (keeps db).mono fun _ after kept => ?_
    simp only [Prod.mk.injEq] at kept
    refine ⟨?_, kept.2.trans same⟩
    unfold Linked
    rw [kept.1, kept.2]
    exact linked
  refine .bind (.each fun run _ => frame (keeps_updateRun (fun _ _ => rfl) run)) fun _ =>
    .bind (.each fun task _ => frame (keeps_updateTask (fun _ _ _ => rfl) task)) fun _ =>
      .each fun attempt member => ?_
  have owns : ∀ session, attempt.sessionId = some session → owner attempt.id session := by
    intro session names
    obtain ⟨old, there, rfl⟩ := List.mem_map.mp member
    obtain ⟨row, held, decoded⟩ := (mem_of_mapM_ok third).2 old there
    simp only [attemptFromRow, bind_eq_ok, pure_eq_ok] at decoded
    obtain ⟨_, _, _, _, _, _, rfl⟩ := decoded
    have same : row.sessionId = some session := by
      unfold reconcileAttempt at names
      split at names <;> exact names
    rw [(reconcileAttempt_keys _).1]
    exact (linked row held session same).1
  intro db keeps
  exact ((updateAttempt_linked owns db keeps.1).both
    ((keeps_updateAttempt (fun _ _ => rfl) attempt : Keeps Tables.sessions _) db)).mono
      fun _ after both => ⟨both.1, both.2.trans keeps.2⟩

theorem settleSessions_linked {persistHistory : Bool} {before after : Tables}
    (settled : settleSessions persistHistory before = .ok after) (linked : Linked owner before) :
    Linked owner after := by
  unfold settleSessions at settled
  split at settled
  · rw [← Except.ok.inj settled]
    intro row member session names
    obtain ⟨owns, kept, there, same⟩ := linked row member session names
    refine ⟨owns, kept.orphan, List.mem_map.mpr ⟨kept, there, rfl⟩, ?_⟩
    rw [← same]
    unfold Session.orphan
    split <;> rfl
  · rw [← Except.ok.inj settled]
    intro row member session names
    obtain ⟨old, _, rfl⟩ := List.mem_map.mp member
    cases names

theorem loadDaemon_named {persistHistory : Bool} :
    Preserves (Named owner) (loadDaemon limits persistHistory now) := by
  intro inner named
  unfold loadDaemon
  have kept (db : Database) (linked : Linked owner db.tables)
      (sessions : ∀ row ∈ db.tables.sessions, ∃ old ∈ inner.db.tables.sessions, old.id = row.id) :
      Named owner { inner with db } := by
    refine ⟨named.memory, linked, fun row member => ?_⟩
    obtain ⟨old, there, same⟩ := sessions row member
    obtain ⟨found, held, same'⟩ := named.shown old there
    exact ⟨found, held, same'.trans same⟩
  refine Handler.persist_bind_of
    (reconcileStartup_linked inner.db ⟨named.stored, rfl⟩) ?_ fun db middle => ?_
  · rintro error db ⟨linked, same⟩
    exact kept db linked fun row member => ⟨row, same ▸ member, rfl⟩
  refine Handler.persist_bind_of (execute_meets _ db) ?_ fun db' settled => ?_
  · rintro error db' ⟨same, _, _⟩
    refine kept db' (same ▸ middle.1) fun row member => ⟨row, ?_, rfl⟩
    rw [same] at member
    exact middle.2 ▸ member
  have ran : settleSessions persistHistory db.tables = .ok db'.tables := settled.2.2.2
  have linked := settleSessions_linked ran middle.1
  have final := kept db' linked fun row member => by
    obtain ⟨old, there, same⟩ := (settleSessions_ok ran).sessions row member
    exact ⟨old, middle.2 ▸ there, same⟩
  refine Meets.check_bind (fun _ _ => final) fun ledger read => ?_
  have reads := loadLedger_reads (mapError_eq_ok.mp read)
  refine Meets.change ⟨fun attempt member session names => ?_, linked, fun row member =>
    ⟨row, member, rfl⟩⟩
  obtain ⟨row, there, decoded⟩ := (reads.attempts attempt).mp member
  simp only [attemptFromRow, bind_eq_ok, pure_eq_ok] at decoded
  obtain ⟨_, _, _, _, _, _, rfl⟩ := decoded
  exact linked row there session names

end Load

end ForgeNode.Orchestration
