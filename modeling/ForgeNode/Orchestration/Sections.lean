import ForgeNode.Orchestration.Effects
import ForgeNode.Orchestration.System

/-! Each critical section does one of the effects, whichever of its writes fail. -/

namespace ForgeNode.Orchestration

open List Store
open Section (Meets)

variable {limits : OrchestrationLimits} {now : Timestamp} {fresh : Nat} {intent : Intent}
  {inner : Inner}

variable {attempt : Attempt} {request : DecideTask} {run : RunId} {session : SessionId}
  {task : Task}

section Checks

theorem allowStart_eq_ok {active used : Nat} {mode : WorkMode} {writer : Bool} {done : Unit} :
    allowStart active used mode writer limits = .ok done ↔
      active < limits.maxActiveAttemptsPerRun ∧ used < limits.maxAttemptsPerTask ∧
        (mode = .write → writer = false) := by
  unfold allowStart
  split
  · rename_i full
    simp [Nat.not_lt.mpr full]
  · split
    · rename_i spent
      simp [Nat.not_lt.mpr spent]
    · split
      · rename_i conflict
        simp [conflict]
      · rename_i room budget free
        simp only [not_and, Bool.not_eq_true] at free
        simpa [Nat.lt_of_not_ge room, Nat.lt_of_not_ge budget] using free

theorem commitStartCheck_ok {spawned : Spawned} {n : Nat}
    (passed : commitStartCheck spawned limits inner = .ok (task, n)) :
    MayStart limits spawned.plan.run.id spawned.materialized.workspace inner.ledger task ∧
      task.id = spawned.plan.task.id ∧ n = task.attemptsUsed + 1 := by
  simp only [commitStartCheck, refuseStaleStart, bind_eq_ok, require_eq_ok, found_eq_ok,
    mapError_eq_ok, allowStart_eq_ok, pure_eq_ok, Prod.mk.injEq] at passed
  obtain ⟨_, ⟨_, opened, current, there, _, startable, _, _, _, ⟨room, budget, writer⟩, rfl⟩,
    again, there', rfl, rfl⟩ := passed
  have same := Option.some.inj (there.symm.trans there')
  subst same
  have named := key_of_get? there
  obtain ⟨row, held, isOpen⟩ := (Option.any_eq_true _ _).mp opened
  exact ⟨⟨⟨row, held, isOpen⟩, named ▸ there, startable, room, budget, writer⟩, named, rfl⟩

theorem checkDecision_ok (passed : checkDecision request inner = .ok task) :
    inner.ledger.tasks.get? request.taskId = some task ∧ task.revision = request.expectedRevision ∧
      decisionFits task.status request.decision = .ok () := by
  simp only [checkDecision, bind_eq_ok, require_eq_ok, found_eq_ok, mapError_eq_ok,
    pure_eq_ok] at passed
  obtain ⟨current, there, _, _, _, _, _, revision, _, fits, rfl⟩ := passed
  exact ⟨there, revision, fits⟩

theorem decisionFits_of_not_cancel {status : TaskStatus} {decision : TaskDecision}
    (fits : decisionFits status decision = .ok ()) (other : ∀ kill, decision ≠ .cancel kill) :
    status = .review ∨ status = .blocked := by
  cases decision with
  | accept | reject => simpa [decisionFits] using fits
  | cancel kill => exact absurd rfl (other kill)
  | unrecognized => simp [decisionFits] at fits

theorem settleReport_ok {phase : AttemptPhase} {session caller : Option SessionId} {newer : Bool}
    {done : Unit} (passed : settleReport phase session caller newer = .ok done) :
    newer = false ∧ phase.isLive = true ∧ caller = session ∧ caller.isSome = true := by
  unfold settleReport at passed
  split at passed
  · cases passed
  · split at passed
    · cases passed
    · rename_i settles own
      simp only [Bool.or_eq_true, not_or, Bool.not_eq_true, Bool.not_eq_eq_eq_not, bne_iff_ne,
        ne_eq, Decidable.not_not, Option.isNone_eq_false_iff] at settles own
      exact ⟨settles.1, by simpa using settles.2, own.2, own.1⟩

theorem settleCheck_ok {reporting : Reporting}
    (passed : settleCheck reporting inner = .ok attempt) :
    inner.ledger.attempts.get? reporting.request.attemptId = some attempt ∧
      attempt.isLive = true ∧ hasNewer inner.ledger attempt = false ∧
        reporting.request.caller.isSome = true ∧ reporting.request.caller = attempt.sessionId := by
  simp only [settleCheck, bind_eq_ok, found_eq_ok, mapError_eq_ok, pure_eq_ok] at passed
  obtain ⟨current, there, _, settles, rfl⟩ := passed
  obtain ⟨newest, live, own⟩ := settleReport_ok settles
  exact ⟨there, live, newest, own.2, own.1⟩

end Checks

section Runs

theorem createRun_does {request : CreateRun} {worktree : String × WorkspaceId}
    {spawned : Except ProtocolError SessionId} :
    Does limits now fresh intent inner (createRun request worktree spawned fresh now) := by
  unfold createRun
  refine Meets.check_bind (fun _ _ => .none) fun placed _ => ?_
  refine Meets.check_bind (fun _ _ => .none) fun controller _ => ?_
  refine Handler.persist_bind (counted_execute _) (fun _ db _ => .of_db db) fun db _ => ?_
  exact Effect.opened _ rfl rfl ⟨rfl, rfl, rfl, rfl, rfl⟩

theorem updateBrief_does {caller : Option SessionId} {brief : String} {expected : Nat} :
    Does limits now fresh intent inner (updateBrief caller run brief expected now) := by
  unfold updateBrief
  refine Meets.check_bind (fun _ _ => .none) fun row _ => ?_
  refine Handler.onLedger_bind ?_
  refine Handler.persist_last (counted_updateRun _) (fun _ db _ => ?_) fun db _ => ?_
  · exact .briefed run _ ⟨rfl, rfl, rfl, rfl, rfl⟩
  · exact .briefed run _ ⟨rfl, rfl, rfl, rfl, rfl⟩

theorem closeRun_does {request : CloseRun} :
    Does limits now fresh intent inner (closeRun request now) := by
  unfold closeRun
  refine Meets.check_bind (fun _ _ => .none) fun row _ => ?_
  refine Handler.onLedger_bind ?_
  refine Handler.persist_last (counted_updateRun _) (fun _ db _ => ?_) fun db _ => ?_
  · exact .closed request.runId request.cancel ⟨rfl, rfl, rfl, rfl, rfl⟩
  · exact .closed request.runId request.cancel ⟨rfl, rfl, rfl, rfl, rfl⟩

theorem claimResume_does {caller : Option SessionId} :
    Does limits now fresh intent inner (claimResume caller run) := by
  unfold claimResume
  refine Meets.check_bind (fun _ _ => .none) fun workspace _ => ?_
  refine Handler.onLedger_bind ?_
  exact .still ⟨rfl, rfl, rfl, rfl, rfl⟩

theorem resumeRun_does (intended : intent.resumed = some run) :
    Does limits now fresh intent inner (resumeRun run session now) := by
  unfold resumeRun
  refine Meets.check_bind (fun _ _ => .none) fun row _ => ?_
  refine Handler.onLedger_bind ?_
  refine Handler.persist_last (counted_updateRun _) (fun _ db _ => ?_) fun db _ => ?_
  · exact .resumed run session intended ⟨rfl, rfl, rfl, rfl, rfl⟩
  · exact .resumed run session intended ⟨rfl, rfl, rfl, rfl, rfl⟩

theorem releaseClaim_does : Does limits now fresh intent inner (releaseClaim run) :=
  Effect.still ⟨rfl, rfl, rfl, rfl, rfl⟩

end Runs

section Tasks

theorem mem_promoteReady {tasks : List Task} (member : task ∈ promoteReady tasks) :
    ∃ old ∈ tasks, Promotion tasks old task := by
  obtain ⟨old, there, rfl⟩ := List.mem_map.mp member
  refine ⟨old, there, ?_⟩
  unfold promote
  split
  · rename_i waits
    exact .inr ⟨⟨there, waits⟩, rfl⟩
  · exact .inl rfl

theorem mem_tasksOf {ledger : Ledger} :
    task ∈ ledger.tasksOf run ↔ task ∈ ledger.tasks ∧ task.runId = run := by
  unfold Ledger.tasksOf
  rw [mem_filter, beq_iff_eq]
  exact Iff.rfl

/-- The task that `create_task` stores is the requested one, at most promoted. -/
theorem createTaskCheck_ok {request : CreateTask}
    (unused : ∀ other ∈ inner.ledger.tasks, other.id ≠ fresh)
    (passed : createTaskCheck request limits fresh now inner = .ok task) :
    ∃ tasks, Promotion tasks (request.task fresh now) task := by
  simp only [createTaskCheck, bind_eq_ok, pure_eq_ok] at passed
  obtain ⟨_, _, run, _, _, _, _, _, _, _, _, _, _, _, rfl⟩ := passed
  cases search : (promoteReady (inner.ledger.tasksOf request.runId ++ [request.task fresh now])).find?
      fun item => item.id == fresh with
  | none => exact ⟨[], .inl rfl⟩
  | some stored =>
    have named : stored.id = fresh := by simpa using find?_some search
    obtain ⟨old, member, promoted⟩ := mem_promoteReady (mem_of_find?_eq_some search)
    have sameId : old.id = stored.id := by
      rcases promoted with rfl | ⟨_, rfl⟩ <;> rfl
    rcases mem_append.mp member with present | last
    · exact absurd (sameId.trans named) (unused old (mem_tasksOf.mp present).1)
    · rw [mem_singleton.mp last] at promoted
      exact ⟨_, promoted⟩

theorem taskValues_mode {row : TaskRow} (encoded : taskValues task = .ok row) :
    task.mode ≠ .unrecognized := by
  rintro unknown
  simp [taskValues, unknown, taskModeToStr] at encoded

theorem insertTask_meets (task : Task) (db : Database) :
    (insertTask task).Meets db fun result after => match result with
      | .ok _ => after.failures = db.failures ∧ task.mode ≠ .unrecognized
      | .error _ => db.failures < after.failures := by
  refine (execute_meets _ db).bind ?_ ?_
  · rintro error after ⟨_, failed, _⟩
    exact (by omega : db.failures < after.failures)
  · rintro value after ⟨_, same, _, stored⟩
    refine (counted_each (fun _ => counted_execute _) after).mono ?_
    intro result final counted
    cases result with
    | error error => exact same ▸ counted
    | ok done =>
      refine ⟨counted.trans same, ?_⟩
      simp only [insertTaskRow, bind_eq_ok] at stored
      obtain ⟨row, encoded, _⟩ := stored
      exact taskValues_mode encoded

theorem createTask_does {request : CreateTask}
    (unused : ∀ other ∈ inner.ledger.tasks, other.id ≠ fresh) :
    Does limits now fresh intent inner (createTask request limits fresh now) := by
  unfold createTask
  refine Meets.check_bind (fun _ _ => .none) fun task passed => ?_
  obtain ⟨_, promoted⟩ := createTaskCheck_ok unused passed
  refine Handler.persist_bind_of (insertTask_meets task inner.db) (fun _ db _ => .of_db db)
    fun db stored => ?_
  refine Handler.onLedger_bind ?_
  rcases promoted with rfl | ⟨_, rfl⟩
  · exact Effect.created _ rfl rfl (.inl rfl) stored.2 ⟨rfl, rfl, rfl, rfl, rfl⟩
  · exact Effect.created _ rfl rfl (.inr rfl) stored.2 ⟨rfl, rfl, rfl, rfl, rfl⟩

end Tasks

section Attempts

theorem insertAttempt_meets (attempt : Attempt) (db : Database) :
    (insertAttempt attempt).Meets db fun result after => match result with
      | .ok _ => after.failures = db.failures ∧ db.tables.hasSession attempt.sessionId = true
      | .error _ => db.failures < after.failures := by
  refine (execute_meets _ db).mono ?_
  intro result after meets
  cases result with
  | error error =>
    have failed := meets.2.1
    exact (by omega : db.failures < after.failures)
  | ok done =>
    obtain ⟨_, same, _, stored⟩ := meets
    simp only [insertAttemptRow, bind_eq_ok, require_eq_ok] at stored
    obtain ⟨_, _, _, _, _, ⟨_, session, _⟩, _⟩ := stored
    exact ⟨same, session⟩

/-- A start that commits finds its rails met; one whose writes fail leaves the task behind. -/
theorem commitStart_does {spawned : Spawned} (committed : intent.committed = some spawned) :
    Does limits now fresh intent inner (commitStart spawned limits fresh now) := by
  unfold commitStart
  refine Meets.check_bind (fun _ _ => .none) ?_
  rintro ⟨task, n⟩ passed
  obtain ⟨may, same, rfl⟩ := commitStartCheck_ok passed
  dsimp only
  rw [← same]
  refine Handler.onLedger_bind ?_
  refine Handler.persist_bind_of (insertAttempt_meets _ _) (fun _ db failed => ?_) fun db stored => ?_
  · exact .stranded _ _ task may failed ⟨rfl, rfl, rfl, rfl, rfl⟩
  · obtain ⟨counted, session⟩ := stored
    refine Handler.persist_bind (counted_updateTask _) (fun _ db' failed => ?_) fun db' _ => ?_
    · exact .stranded _ _ task may (counted ▸ failed) ⟨rfl, rfl, rfl, rfl, rfl⟩
    · exact Effect.started spawned task may same committed session (by rw [passed]; rfl)
        ⟨rfl, rfl, rfl, rfl, rfl⟩

theorem reportAttempt_does {reporting : Reporting} {facts : ReportFacts}
    (intended : intent.reported = some reporting) :
    Does limits now fresh intent inner (reportAttempt reporting facts limits now) := by
  unfold reportAttempt
  refine Meets.check_bind (fun _ _ => .none) fun copied _ => ?_
  refine Meets.check_bind (fun _ _ => .none) fun attempt passed => ?_
  obtain ⟨there, live, newest, own⟩ := settleCheck_ok passed
  have named := key_of_get? there
  rw [← named]
  have done (after : Inner) (left : Leaves inner after inner.ledger.runs
      (inner.ledger.tasks.modify reporting.taskId (Task.become (reporting.status limits) now)
        fun _ => rfl)
      (inner.ledger.attempts.modify attempt.id
        (Attempt.reported (reporting.report facts copied) now) fun _ => rfl)) :
      Effect limits now fresh intent inner after :=
    .reported reporting _ attempt there live newest own intended left
  refine Handler.onLedger_bind ?_
  refine Meets.check_bind (fun error missing => ?_) fun task held => ?_
  · -- The task is gone: changing it changes nothing.
    exact done _ ⟨rfl, (modify_of_missing (found_eq_error.mp missing).1).symm, rfl, rfl, rfl⟩
  · refine Handler.onLedger_bind ?_
    refine Handler.persist_bind (counted_updateAttempt _) (fun _ db _ => ?_) fun db _ => ?_
    · exact done _ ⟨rfl, rfl, rfl, rfl, rfl⟩
    · refine Handler.persist_last (counted_updateTask _) (fun _ db' _ => ?_) fun db' _ => ?_
      · exact done _ ⟨rfl, rfl, rfl, rfl, rfl⟩
      · exact done _ ⟨rfl, rfl, rfl, rfl, rfl⟩

end Attempts

section Decisions

theorem promoteReady_rewritten (ledger : Ledger) (run : RunId) :
    ∀ task ∈ promoteReady (ledger.tasksOf run), ∃ old ∈ ledger.tasks,
      Promotion (ledger.tasksOf run) old task := by
  intro task member
  obtain ⟨old, there, promoted⟩ := mem_promoteReady member
  exact ⟨old, (mem_tasksOf.mp there).1, promoted⟩

theorem Promotion.id {tasks : List Task} {before after : Task}
    (promotion : Promotion tasks before after) : after.id = before.id := by
  rcases promotion with rfl | ⟨_, rfl⟩ <;> rfl

/-- The write loop of a promotion, over tasks that are promotions of the ledger's own. -/
theorem persistPromoted_meets {tasks siblings : List Task}
    (promoted : ∀ task ∈ tasks, ∃ old ∈ inner.ledger.tasks, Promotion siblings old task) :
    (persistPromoted tasks).Meets inner fun _ after => ∃ stored,
      Store.Rewritten (Promotion siblings) inner.ledger.tasks stored ∧
        Leaves inner after inner.ledger.runs stored inner.ledger.attempts := by
  unfold persistPromoted
  refine Meets.each_keeps (fun after => ∃ stored,
    Store.Rewritten (Promotion siblings) inner.ledger.tasks stored ∧
      Leaves inner after inner.ledger.runs stored inner.ledger.attempts)
    ⟨_, .refl fun _ _ => .inl rfl, ⟨rfl, rfl, rfl, rfl, rfl⟩⟩ ?_
  rintro task member before ⟨stored, rewritten, left⟩
  refine Handler.persist_bind (counted_updateTask _) (fun _ db _ => ?_) fun db _ => ?_
  · exact ⟨stored, rewritten, left.runs, left.tasks, left.attempts, left.sessions, left.board⟩
  · refine Handler.onLedger_last ?_
    obtain ⟨old, there, promotion⟩ := promoted task member
    refine ⟨stored.put task, rewritten.put there promotion.id.symm promotion, left.runs, ?_,
      left.attempts, left.sessions, left.board⟩
    exact congrArg (Store.put task) left.tasks

theorem acceptTask_does {note : Option String}
    (accept : request.decision = .accept note)
    (intended : (checkDecision request inner).isOk = true → intent.accepted = some request.taskId) :
    Does limits now fresh intent inner (acceptTask request now) := by
  unfold acceptTask
  refine Meets.check_bind (fun _ _ => .none) fun task passed => ?_
  have intended := intended (by rw [passed]; rfl)
  obtain ⟨there, _, fits⟩ := checkDecision_ok passed
  have status := decisionFits_of_not_cancel fits fun kill other => by
    rw [accept] at other
    cases other
  have named := key_of_get? there
  rw [← named] at there intended ⊢
  refine Handler.onLedger_bind ?_
  refine Handler.read_bind ?_
  refine (persistPromoted_meets (promoteReady_rewritten _ _)).mono ?_
  rintro result after ⟨tasks, promoted, left⟩
  exact .accepted task there status intended tasks promoted ⟨left.runs, left.tasks, left.attempts,
    left.sessions, left.board⟩

theorem rejectTask_does {feedback : String} (reject : request.decision = .reject feedback false)
    (intended : (rejectCheck request inner).isOk = true →
      ∀ attempt, inner.ledger.newest request.taskId = some attempt → attempt ∈ intent.reopened) :
    Does limits now fresh intent inner (rejectTask request feedback now) := by
  unfold rejectTask
  refine Meets.check_bind (fun _ _ => .none) fun task passed => ?_
  have allowed : (rejectCheck request inner).isOk = true := by
    rw [show rejectCheck request inner = .ok task from passed]
    rfl
  simp only [rejectCheck, bind_eq_ok, require_eq_ok, pure_eq_ok] at passed
  obtain ⟨current, decided, _, worker, rfl⟩ := passed
  obtain ⟨there, _, fits⟩ := checkDecision_ok decided
  have status := decisionFits_of_not_cancel fits fun kill other => by
    rw [reject] at other
    cases other
  have named := key_of_get? there
  cases newest : inner.ledger.newest request.taskId with
  | none => simp [workerAlive, newest] at worker
  | some attempt =>
    have done (after : Inner) (left : Leaves inner after inner.ledger.runs
        (inner.ledger.tasks.modify request.taskId
          (Task.returned (clampText feedback maxMessageBytes).1 .active now) fun _ => rfl)
        (inner.ledger.attempts.modify attempt.id Attempt.reopened fun _ => rfl)) :
        Effect limits now fresh intent inner after := by
      rw [← named] at left there newest
      refine .reopened _ current there status attempt newest
        (intended allowed attempt (named ▸ newest)) ?_ left
      simpa [workerAlive, named ▸ newest, Option.any_eq_true] using worker
    refine Handler.onLedger_bind ?_
    refine Handler.read_bind ?_
    have same : Ledger.newest (Ledger.setTask request.taskId
        (Task.returned (clampText feedback maxMessageBytes).1 .active now) (fun _ =>
        rfl) inner.ledger)
        request.taskId = some attempt := newest
    simp only [same]
    refine Handler.onLedger_bind ?_
    refine Handler.persist_bind (counted_updateTask _) (fun _ db _ => ?_) fun db _ => ?_
    · exact done _ ⟨rfl, rfl, rfl, rfl, rfl⟩
    · refine Handler.persist_bind (counted_updateAttempt _) (fun _ db' _ => ?_) fun db' _ => ?_
      · exact done _ ⟨rfl, rfl, rfl, rfl, rfl⟩
      · exact done _ ⟨rfl, rfl, rfl, rfl, rfl⟩

theorem retryTask_does {feedback : String} (reject : request.decision = .reject feedback true) :
    Does limits now fresh intent inner (retryTask request feedback limits now) := by
  unfold retryTask
  refine Meets.check_bind (fun _ _ => .none) fun task passed => ?_
  obtain ⟨there, _, fits⟩ := checkDecision_ok passed
  have status := decisionFits_of_not_cancel fits fun kill other => by
    rw [reject] at other
    cases other
  have named := key_of_get? there
  rw [← named] at there ⊢
  split
  · unfold exhaustTask
    rw [← named]
    refine Handler.onLedger_bind ?_
    refine Handler.persist_bind (counted_updateTask _) (fun _ db _ => ?_) fun db _ => ?_
    · exact .exhausted task there status ⟨rfl, rfl, rfl, rfl, rfl⟩
    · exact Effect.exhausted task there status ⟨rfl, rfl, rfl, rfl, rfl⟩
  · refine Handler.onLedger_bind ?_
    refine Handler.read_bind ?_
    cases newest : inner.ledger.newest task.id with
    | none =>
      have same : Ledger.newest (Ledger.setTask task.id
          (Task.returned (clampText feedback maxMessageBytes).1 .ready now) (fun _ => rfl)
          inner.ledger) task.id = none := newest
      simp only [same]
      have done (after : Inner) (left : Leaves inner after inner.ledger.runs
          (inner.ledger.tasks.modify task.id
            (Task.returned (clampText feedback maxMessageBytes).1 .ready now) fun _ => rfl)
          inner.ledger.attempts) : Effect limits now fresh intent inner after :=
        .retried _ task there status _ (.inl ⟨newest, rfl⟩) left
      refine Handler.persist_bind (counted_updateTask _) (fun _ db _ => ?_) fun db _ => ?_
      · exact done _ ⟨rfl, rfl, rfl, rfl, rfl⟩
      · exact done _ ⟨rfl, rfl, rfl, rfl, rfl⟩
    | some attempt =>
      have same : Ledger.newest (Ledger.setTask task.id
          (Task.returned (clampText feedback maxMessageBytes).1 .ready now) (fun _ => rfl)
          inner.ledger) task.id = some attempt := newest
      simp only [same]
      have done (after : Inner) (left : Leaves inner after inner.ledger.runs
          (inner.ledger.tasks.modify task.id
            (Task.returned (clampText feedback maxMessageBytes).1 .ready now) fun _ => rfl)
          (inner.ledger.attempts.modify attempt.id (Attempt.rejected now) fun _ => rfl)) :
          Effect limits now fresh intent inner after :=
        .retried _ task there status _ (.inr ⟨attempt, newest, rfl⟩) left
      refine Handler.onLedger_bind ?_
      refine Handler.persist_bind (counted_updateTask _) (fun _ db _ => ?_) fun db _ => ?_
      · exact done _ ⟨rfl, rfl, rfl, rfl, rfl⟩
      · refine Handler.persist_bind (counted_updateAttempt _) (fun _ db' _ => ?_) fun db' _ => ?_
        · exact done _ ⟨rfl, rfl, rfl, rfl, rfl⟩
        · exact done _ ⟨rfl, rfl, rfl, rfl, rfl⟩

theorem persist_each {ι : Type} {statement : ι → Statement} {items : List ι} :
    (Section.each (fun item => persist (statement item)) items).Meets inner fun _ after =>
      ∃ db, after = { inner with db } := by
  refine Meets.each_keeps (fun after => ∃ db, after = { inner with db }) ⟨inner.db, rfl⟩ ?_
  rintro item _ before ⟨db, rfl⟩
  exact ⟨_, rfl⟩

theorem cancelTask_does {kill : Bool} (cancel : request.decision = .cancel kill) :
    Does limits now fresh intent inner (cancelTask request now) := by
  unfold cancelTask
  refine Meets.check_bind (fun _ _ => .none) fun task passed => ?_
  obtain ⟨there, _, fits⟩ := checkDecision_ok passed
  have status : task.status.isFinal = false := by simpa [cancel, decisionFits] using fits
  have named := key_of_get? there
  rw [← named] at there ⊢
  refine Handler.read_bind ?_
  refine Handler.onLedger_bind ?_
  refine Handler.onLedger_bind ?_
  refine Handler.persist_bind (counted_updateTask _) (fun _ db _ => ?_) fun db _ => ?_
  · exact .cancelled task there status ⟨rfl, rfl, rfl, rfl, rfl⟩
  · refine persist_each.mono ?_
    rintro result after ⟨db', rfl⟩
    exact .cancelled task there status ⟨rfl, rfl, rfl, rfl, rfl⟩

end Decisions

section Integration

theorem recordCommit_leaves (ledger : Ledger) (task : TaskId) (commit : Option String) :
    ∃ attempts, Store.Rewritten (fun before after => after = before ∨
        after = { before with integratedCommit := commit }) ledger.attempts attempts ∧
      ledger.recordCommit task commit = { ledger with attempts } := by
  unfold Ledger.recordCommit
  split
  · exact ⟨_, .refl fun _ _ => .inl rfl, rfl⟩
  · exact ⟨_, .of_modify (fun _ _ _ => .inr rfl) (fun _ _ _ => .inl rfl), rfl⟩

theorem markIntegrated_does {task : TaskId} {commit : Option String}
    (intended : intent.integrated = some task) :
    Does limits now fresh intent inner (markIntegrated task commit now) := by
  unfold markIntegrated
  refine Meets.check_bind (fun _ _ => .none) fun before passed => ?_
  have there := found_eq_ok.mp passed
  have named := key_of_get? there
  rw [← named] at there intended ⊢
  obtain ⟨attempts, marked, shape⟩ := recordCommit_leaves
    (inner.ledger.setTask before.id (Task.become .integrated now) fun _ => rfl) before.id commit
  refine Handler.onLedger_bind ?_
  refine Handler.onLedger_bind ?_
  dsimp only
  rw [shape]
  refine Handler.read_bind ?_
  refine Handler.read_bind ?_
  refine Meets.bind (persistPromoted_meets (promoteReady_rewritten _ _)) ?_ ?_
  · rintro error after ⟨tasks, promoted, left⟩
    exact .integrated commit before there intended tasks promoted attempts marked
      ⟨left.runs, left.tasks, left.attempts, left.sessions, left.board⟩
  · rintro value after ⟨tasks, promoted, left⟩
    refine persist_each.mono ?_
    rintro result final ⟨db, rfl⟩
    exact .integrated commit before there intended tasks promoted attempts marked
      ⟨left.runs, left.tasks, left.attempts, left.sessions, left.board⟩

theorem setConflict_does : Does limits now fresh intent inner (setConflict run) :=
  Effect.still ⟨rfl, rfl, rfl, rfl, rfl⟩

theorem clearConflict_does : Does limits now fresh intent inner (clearConflict run) :=
  Effect.still ⟨rfl, rfl, rfl, rfl, rfl⟩

end Integration

section Board

theorem setStateCheck_ok {platform : Platform} {request : SetState} {current : Option Nat}
    (passed : setStateCheck platform request inner = .ok current) :
    current = (inner.ledger.board.get? (request.runId, request.key)).map (·.version) ∧
      checkBoardVersion request current = .ok () := by
  simp only [setStateCheck, bind_eq_ok, pure_eq_ok] at passed
  obtain ⟨_, _, _, _, _, _, _, _, _, fits, rfl⟩ := passed
  exact ⟨rfl, fits⟩

theorem setState_does {platform : Platform} {request : SetState}
    (intended : intent.posted = some request) :
    Does limits now fresh intent inner (setState platform request now) := by
  unfold setState
  refine Meets.check_bind (fun _ _ => .none) fun current passed => ?_
  obtain ⟨rfl, fits⟩ := setStateCheck_ok passed
  split
  · rename_i delete
    have erased (db : Database) : Effect limits now fresh intent inner { inner with
        ledger := { inner.ledger with board := inner.ledger.board.retain fun entry =>
          entry.place != (request.runId, request.key) }, db } :=
      .posted request _ intended fits (.inl ⟨delete, rfl⟩) rfl rfl
    refine Handler.onLedger_bind ?_
    exact Handler.persist_last (counted_execute _) (fun _ db _ => erased db) fun db _ => erased db
  · rename_i write
    refine Handler.persist_bind (counted_execute _) (fun _ db _ => .of_db db) fun db _ => ?_
    exact Effect.posted request _ intended fits (.inr ⟨by simpa using write, rfl⟩) rfl rfl

end Board

section Removals

theorem persistForgotten_meets {runs : List Run} {tasks : List Task} {attempts : List Attempt} :
    (persistForgotten runs tasks attempts).Meets inner fun result after =>
      result = .ok ⟨⟩ ∧ ∃ db, after = { inner with db } := by
  unfold persistForgotten
  refine Handler.ignored_each_bind fun db => ?_
  refine Handler.ignored_each_bind fun db' => ?_
  refine Handler.ignored_each.mono ?_
  rintro result after ⟨done, db'', rfl⟩
  exact ⟨done, db'', rfl⟩

theorem removeSessionCache_meets (dropped : Option ProjectId) :
    (removeSessionCache session now).Meets inner fun result after =>
      result = .ok ⟨⟩ ∧ Removal dropped inner after := by
  unfold removeSessionCache
  refine Handler.read_bind ?_
  refine Handler.onLedger_bind ?_
  refine Meets.bind persistForgotten_meets ?_ ?_
  · rintro error after ⟨impossible, _⟩
    cases impossible
  · rintro value after ⟨_, db, rfl⟩
    exact ⟨rfl, .session session now rfl rfl⟩

theorem Removal.of_db {dropped : Option ProjectId} (inner : Inner) (db : Database) :
    Removal dropped inner { inner with db } :=
  .still ⟨rfl, rfl, rfl, rfl, rfl⟩ rfl

theorem deleteSession_meets (dropped : Option ProjectId) :
    (deleteSession session now).Meets inner fun _ after =>
      Relation.ReflTransGen (Removal dropped) inner after := by
  unfold deleteSession
  refine Handler.persist_bind (counted_execute _) (fun _ db _ => .single (.of_db inner db))
    fun db _ => ?_
  refine (removeSessionCache_meets dropped).mono ?_
  rintro result after ⟨_, removal⟩
  exact .head (.of_db inner db) (.single removal)

theorem deleteSession_does :
    Does limits now fresh intent inner (deleteSession session now) :=
  (deleteSession_meets _).mono fun _ _ chain => .removed chain

theorem dropWorkspace_does {workspace : WorkspaceId} :
    Does limits now fresh intent inner (dropWorkspace workspace now) := by
  unfold dropWorkspace
  refine Handler.read_bind ?_
  have sessions : (Section.each (fun (session : Session) => deleteSession session.id now)
      (inner.sessions.rows.filter fun session => session.workspaceId == workspace)).Meets inner
      fun _ after => Relation.ReflTransGen (Removal intent.dropped) inner after := by
    refine Meets.each_keeps _ .refl fun session _ before chain => ?_
    exact (deleteSession_meets _).mono fun _ _ later => chain.trans later
  refine sessions.bind (fun _ _ chain => .removed chain) fun _ middle chain => ?_
  refine Handler.persist_bind (counted_execute _) (fun _ db _ => ?_) fun db _ => ?_
  · exact .removed (chain.tail (.of_db middle db))
  · refine Meets.change_bind ?_
    refine Handler.read_bind ?_
    refine Handler.onLedger_bind ?_
    refine persistForgotten_meets.mono ?_
    rintro result after ⟨_, db', rfl⟩
    exact .removed (chain.tail (.workspace workspace rfl rfl))

theorem removeProject_does {project : ProjectId} (intended : intent.dropped = some project) :
    Does limits now fresh intent inner (removeProject project now) := by
  unfold removeProject
  refine Handler.read_bind ?_
  refine Handler.read_bind ?_
  refine Meets.bind persist_each ?_ ?_
  · rintro error after ⟨db, rfl⟩
    exact .of_db db
  · rintro value after ⟨db, rfl⟩
    refine Meets.bind persist_each ?_ ?_
    · rintro error after ⟨db', rfl⟩
      exact .of_db db'
    · rintro value after ⟨db', rfl⟩
      refine Handler.persist_bind (counted_execute _) (fun _ db _ => .of_db db) fun db _ => ?_
      refine Handler.onLedger_bind ?_
      refine Meets.bind (Meets.each_keeps
        (fun after => Relation.ReflTransGen (Removal intent.dropped) inner after)
        (.single (.project project intended rfl rfl)) fun session _ before chain =>
          (removeSessionCache_meets _).mono fun _ _ removal => chain.tail removal.2) ?_ ?_
      · rintro error after chain
        exact .removed chain
      · rintro value after chain
        exact Effect.removed (chain.tail (.still ⟨rfl, rfl, rfl, rfl, rfl⟩ rfl))

theorem noteSessionExit_does :
    Does limits now fresh intent inner (noteSessionExit session limits now) := by
  unfold noteSessionExit
  refine Handler.read_bind ?_
  cases search : inner.ledger.attempts.rows.find? fun attempt =>
      attempt.sessionId == some session && attempt.isLive with
  | none => exact Effect.none
  | some attempt =>
    have held := find?_some search
    simp only [Bool.and_eq_true, beq_iff_eq] at held
    refine Handler.onLedger_bind ?_
    refine Handler.onLedger_bind ?_
    refine Handler.read_bind ?_
    refine Handler.ignored_bind fun db => ?_
    refine Handler.ignored_each.mono ?_
    rintro result after ⟨_, db', rfl⟩
    exact .exited session attempt (mem_of_find?_eq_some search) held.1 held.2
      ⟨rfl, rfl, rfl, rfl, rfl⟩

end Removals

section Sessions

theorem addSession_does {session : Session} (unused : inner.sessions.get? session.id = none)
    (state : session.state ≠ .exited) :
    Does limits now fresh intent inner (addSession session) := by
  unfold addSession
  refine Handler.persist_bind (counted_execute _) (fun _ db _ => .of_db db) fun db _ => ?_
  exact Effect.joined session unused state rfl rfl

theorem spawnWorker_does {workspace : WorkspaceId} (unused : inner.sessions.get? fresh = none) :
    Does limits now fresh intent inner (spawnWorker workspace fresh) := by
  unfold spawnWorker
  refine Meets.check_bind (fun _ _ => .none) fun _ _ => ?_
  refine Handler.persist_bind (counted_execute _) (fun _ db _ => .of_db db) fun db _ => ?_
  exact Effect.joined ⟨fresh, workspace, .running⟩ unused (by simp) rfl rfl

theorem moveSession_does {state : SessionState} (attached : state ≠ .orphaned)
    (told : state = .exited → intent.exiting = some session) :
    Does limits now fresh intent inner (moveSession session state) := by
  unfold moveSession
  refine Meets.check_bind (fun _ _ => .none) fun row found => ?_
  refine Meets.check_bind (fun _ _ => .none) fun _ legal => ?_
  have there := found_eq_ok.mp found
  have named := key_of_get? there
  rw [← named] at there told ⊢
  refine Meets.change_bind ?_
  exact Effect.moved row state there (require_eq_ok.mp legal) attached told rfl rfl

theorem addWorkspace_does {workspace : Workspace} :
    Does limits now fresh intent inner (addWorkspace workspace) := by
  unfold addWorkspace
  refine Handler.persist_bind (counted_execute _) (fun _ db _ => .of_db db) fun db _ => ?_
  exact Effect.still ⟨rfl, rfl, rfl, rfl, rfl⟩

theorem addProject_does {project : ProjectId} :
    Does limits now fresh intent inner (addProject project) := by
  unfold addProject
  refine Handler.persist_bind (counted_execute _) (fun _ db _ => .of_db db) fun db _ => ?_
  exact Effect.still ⟨rfl, rfl, rfl, rfl, rfl⟩

end Sessions

section Messages

theorem mem_blockedAttempts {ledger : Ledger} {sessions : List SessionId}
    (member : attempt ∈ blockedAttempts ledger sessions) : attempt ∈ ledger.attempts ∧
      attempt.phase = .reported ∧ attempt.outcome = some .blocked ∧
        ledger.taskStatus attempt.taskId = some .blocked := by
  unfold blockedAttempts at member
  obtain ⟨there, holds⟩ := mem_filter.mp member
  simp only [Bool.and_eq_true, beq_iff_eq] at holds
  exact ⟨there, holds.1.1.2, holds.1.2, holds.2⟩

/-- The rows after some of the blocked attempts were handed back. -/
structure Answered (inner : Inner) (done : List Attempt) (after : Inner) : Prop where
  tasks : Store.Rewritten (Answers done) inner.ledger.tasks after.ledger.tasks
  attempts : Store.Rewritten (HandedBack done) inner.ledger.attempts after.ledger.attempts
  runs : after.ledger.runs = inner.ledger.runs
  sessions : after.sessions = inner.sessions
  board : after.ledger.board = inner.ledger.board

theorem Answered.refl (inner : Inner) : Answered inner [] inner where
  tasks := .refl fun task _ => by simp [Answers]
  attempts := .refl fun attempt _ => by simp [HandedBack]
  runs := rfl
  sessions := rfl
  board := rfl

/-- One more attempt is handed back, with its task. -/
theorem Answered.next {done : List Attempt} {before after : Inner}
    (answered : Answered inner done before)
    (member : attempt ∈ inner.ledger.attempts) (new : attempt ∉ done)
    (left : Leaves before after before.ledger.runs
      (before.ledger.tasks.modify attempt.taskId (Task.become .active now) fun _ => rfl)
      (before.ledger.attempts.modify attempt.id Attempt.resumed fun _ => rfl)) :
    Answered inner (attempt :: done) after where
  tasks := by
    rw [left.tasks]
    refine answered.tasks.trans .modified ?_
    rintro old _ row final same _ ⟨run, mode, used, turned, kept⟩ (⟨named, rfl⟩ | ⟨other, rfl⟩)
    · have grown : old.revision ≤ row.revision := by
        by_cases touched : ∃ item ∈ done, item.taskId = old.id
        · exact (turned touched).2.le
        · rw [kept fun item there equal => touched ⟨item, there, equal⟩]
      refine ⟨run, mode, used, fun _ => ⟨rfl, Nat.lt_succ_of_le grown⟩, fun none => ?_⟩
      exact absurd (named.symm.trans same.symm) (none attempt mem_cons_self)
    · refine ⟨run, mode, used, ?_, fun none => kept fun item there =>
        none item (mem_cons_of_mem _ there)⟩
      rintro ⟨item, there, named⟩
      rcases mem_cons.mp there with rfl | there
      · exact absurd (same.symm.trans named.symm) other
      · exact turned ⟨item, there, named⟩
  attempts := by
    rw [left.attempts]
    refine answered.attempts.trans .modified ?_
    rintro old there row final same _ ⟨turned, kept⟩ (⟨named, rfl⟩ | ⟨other, rfl⟩)
    · have equal : old = attempt := eq_of_key there member (same.trans named)
      subst equal
      exact ⟨fun _ => by rw [kept new], fun out => absurd mem_cons_self out⟩
    · have differ : old ≠ attempt := fun equal => other (equal ▸ same.symm)
      refine ⟨fun handed => turned ?_, fun out => kept fun handed =>
        out (mem_cons_of_mem _ handed)⟩
      exact (mem_cons.mp handed).resolve_left differ
  runs := left.runs.trans answered.runs
  sessions := left.sessions.trans answered.sessions
  board := left.board.trans answered.board

/-- One pass of the resumption: nothing, or the attempt and its task. -/
theorem resumeOne_meets {before : Inner} :
    (resumeOne now attempt).Meets before fun result after => (result = .ok ⟨⟩ ∧ after = before) ∨
      Leaves before after before.ledger.runs
        (before.ledger.tasks.modify attempt.taskId (Task.become .active now) fun _ => rfl)
        (before.ledger.attempts.modify attempt.id Attempt.resumed fun _ => rfl) := by
  unfold resumeOne
  refine Handler.read_bind ?_
  cases before.ledger.attempts.get? attempt.id with
  | none => exact .inl ⟨rfl, rfl⟩
  | some current =>
    refine Handler.onLedger_bind ?_
    refine Handler.read_bind ?_
    cases held : before.ledger.tasks.get? attempt.taskId with
    | none =>
      have same : Store.get? (Ledger.setAttempt attempt.id Attempt.resumed (fun _ => rfl)
        before.ledger).tasks attempt.taskId = none := held
      simp only [same]
      exact .inr ⟨rfl, (modify_of_missing held).symm, rfl, rfl, rfl⟩
    | some task =>
      have same : Store.get? (Ledger.setAttempt attempt.id Attempt.resumed (fun _ => rfl)
        before.ledger).tasks attempt.taskId = some task := held
      simp only [same]
      refine Handler.onLedger_bind ?_
      refine Handler.persist_bind (counted_updateAttempt _) (fun _ db _ => ?_) fun db _ => ?_
      · exact .inr ⟨rfl, rfl, rfl, rfl, rfl⟩
      · refine Handler.persist_last (counted_updateTask _) (fun _ db' _ => ?_) fun db' _ => ?_
        · exact .inr ⟨rfl, rfl, rfl, rfl, rfl⟩
        · exact .inr ⟨rfl, rfl, rfl, rfl, rfl⟩

/-- The attempts that a message hands back, of those it found blocked. -/
theorem resumeBlocked_meets {sessions : List SessionId} :
    (resumeBlocked sessions now).Meets inner fun _ after => ∃ done,
      (∀ attempt ∈ done, attempt ∈ blockedAttempts inner.ledger sessions) ∧
        Answered inner done after := by
  unfold resumeBlocked
  refine Handler.read_bind ?_
  refine Meets.each (fun coming before => coming.Nodup ∧
      (∀ attempt ∈ coming, attempt ∈ blockedAttempts inner.ledger sessions) ∧ ∃ done,
        (∀ attempt ∈ done, attempt ∉ coming ∧ attempt ∈ blockedAttempts inner.ledger sessions) ∧
          Answered inner done before) ?_ ?_ ?_
  · have distinct : inner.ledger.attempts.rows.Nodup := inner.ledger.attempts.distinct.of_map _
    exact ⟨distinct.sublist filter_sublist, fun _ member => member, [], by simp, .refl inner⟩
  · rintro attempt rest before ⟨distinct, blocked, done, handed, answered⟩
    obtain ⟨out, distinct'⟩ := nodup_cons.mp distinct
    have rest' := fun other there => blocked other (mem_cons_of_mem attempt there)
    have kept : ∀ other ∈ done, other ∉ rest ∧ other ∈ blockedAttempts inner.ledger sessions :=
      fun other there => ⟨fun later => (handed other there).1 (mem_cons_of_mem _ later),
        (handed other there).2⟩
    refine resumeOne_meets.mono ?_
    rintro result after (⟨rfl, rfl⟩ | left)
    · exact ⟨distinct', rest', done, kept, answered⟩
    · have here := blocked attempt mem_cons_self
      have more := answered.next (mem_blockedAttempts here).1
        (fun there => (handed attempt there).1 mem_cons_self) left
      have all : ∀ other ∈ attempt :: done,
          other ∉ rest ∧ other ∈ blockedAttempts inner.ledger sessions := by
        intro other there
        rcases mem_cons.mp there with rfl | there
        · exact ⟨out, here⟩
        · exact kept other there
      cases result with
      | error error => exact ⟨_, fun other there => (all other there).2, more⟩
      | ok value => exact ⟨distinct', rest', _, all, more⟩
  · rintro after ⟨_, _, done, handed, answered⟩
    exact ⟨done, fun attempt there => (handed attempt there).2, answered⟩

theorem deliverMessage_does {request : PostMessage} {targets : List DeliveryTarget}
    (intended : ∀ attempt ∈ blockedAttempts inner.ledger (targets.filterMap targetSession),
      attempt ∈ intent.reopened) :
    Does limits now fresh intent inner (deliverMessage request targets fresh now) := by
  unfold deliverMessage
  refine Meets.check_bind (fun _ _ => .none) fun _ _ => ?_
  refine Handler.read_bind ?_
  refine Handler.read_bind ?_
  refine Meets.bind persist_each ?_ ?_
  · rintro error after ⟨db, rfl⟩
    exact .of_db db
  · rintro value after ⟨db, rfl⟩
    refine resumeBlocked_meets.mono ?_
    rintro result after ⟨done, handed, answered⟩
    exact .answered done (fun attempt there =>
        ⟨intended attempt (handed attempt there), mem_blockedAttempts (handed attempt there)⟩)
      _ answered.tasks _ answered.attempts ⟨answered.runs, rfl, rfl, answered.sessions,
        answered.board⟩

end Messages

end ForgeNode.Orchestration
