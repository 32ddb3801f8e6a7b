import ForgeNode.Orchestration.Mirror

/-! Every section stores what it changes in memory, for as long as no write fails. -/

namespace ForgeNode.Orchestration

open List Store
open Section (Meets Preserves)

variable {attempts : List Attempt} {ledger : Ledger} {request : DecideTask}

section Blind

variable {count : Nat}

theorem writes_updateRun (run : Run) : Writes (updateRun run) id := by
  refine writes_execute fun tables after updated => ?_
  simp only [updateRunRow, bind_eq_ok, pure_eq_ok] at updated
  obtain ⟨row, _, _, _, rfl⟩ := updated
  refine Books.ext ?_ rfl rfl
  refine (modify_unseen tables.runs RunRow.projectId run.id ?_ ?_ :)
  · exact fun _ => rfl
  · exact fun _ => rfl

theorem writes_insertSession (session : Session) :
    Writes (execute (insertSessionRow session)) id := by
  refine writes_execute fun tables after inserted => ?_
  simp only [insertSessionRow, bind_eq_ok, pure_eq_ok] at inserted
  obtain ⟨_, _, _, _, rfl⟩ := inserted
  rfl

theorem writes_insertWorkspace (workspace : Workspace) :
    Writes (execute (insertWorkspaceRow workspace)) id := by
  refine writes_execute fun tables after inserted => ?_
  simp only [insertWorkspaceRow, bind_eq_ok, pure_eq_ok] at inserted
  obtain ⟨_, _, _, _, rfl⟩ := inserted
  rfl

theorem writes_deleteWorkspaceRow (workspace : WorkspaceId) :
    Writes (execute (deleteWorkspaceRow workspace)) id := by
  refine writes_execute fun tables after deleted => ?_
  simp only [deleteWorkspaceRow, bind_eq_ok, pure_eq_ok] at deleted
  obtain ⟨_, _, rfl⟩ := deleted
  exact Books.ext (map_unseen _ RunRow.projectId (fun row => by split <;> rfl)
    fun row => by split <;> rfl) rfl (map_unseen _ AttemptRow.entry (fun row => by split <;> rfl)
    fun row => by split <;> rfl)

theorem writes_upsertBoard (entry : BoardEntry) : Writes (upsertBoard entry) id := by
  refine writes_execute fun tables after written => ?_
  simp only [upsertBoardRow, bind_eq_ok, pure_eq_ok] at written
  obtain ⟨_, _, rfl⟩ := written
  rfl

theorem setRun_books {id : RunId} {update : Run → Run} {keeps : ∀ run, (update run).id = run.id}
    (project : ∀ run, (update run).projectId = run.projectId) :
    (ledger.setRun id update keeps).books = ledger.books := by
  exact Books.ext (modify_unseen _ Run.projectId _ keeps project) rfl rfl

end Blind

section Handlers

variable {count : Nat} {inner : Inner} {now : Timestamp} {limits : OrchestrationLimits}
  {owed : Books → Books}

theorem Owes.persist_first {β : Type} {statement : Statement} {write : Books → Books}
    (writes : Writes statement write) (kept : Mirrored count inner) {update : Ledger → Ledger}
    (books : (update inner.ledger).books = write inner.ledger.books) {next : PUnit → Handler β}
    (rest : ∀ db, Mirrored count { inner with db, ledger := update inner.ledger } →
      (next ⟨⟩).Meets { inner with db, ledger := update inner.ledger } fun _ after =>
      Mirrored count after) :
    (Orchestration.persist statement >>= fun _ => onLedger update >>= next).Meets inner
    fun _ after => Mirrored count after :=
  Handler.persist_bind_of (writes inner.db) (fun _ _ less => kept.failed less) fun db wrote =>
    Handler.onLedger_bind (rest db ⟨kept.1.trans_eq wrote.1.symm, fun same =>
      wrote.2.trans ((congrArg write (kept.2 (wrote.1.symm.trans same))).trans books.symm)⟩)

theorem insertRunSection_mirrored {run : Run} :
    Preserves (Mirrored count) (insertRunSection run) := by
  intro inner kept
  refine Handler.persist_bind_of (writes_insertRun run inner.db) (fun _ _ less => kept.failed less)
    fun db wrote => ?_
  refine Handler.onLedger_last ⟨kept.1.trans_eq wrote.1.symm, fun same => wrote.2.trans ?_⟩
  rw [show inner.db.tables.books = inner.ledger.books from kept.2 (wrote.1.symm.trans same)]
  unfold Books.addRun Ledger.books
  congr 1
  exact (put_added Run.projectId run).symm

theorem createRun_mirrored {request : CreateRun} {worktree : String × WorkspaceId}
    {spawned : Except ProtocolError SessionId} {id : RunId} :
    Preserves (Mirrored count) (createRun request worktree spawned id now) :=
  .bind .check fun _ => .bind .check fun _ => insertRunSection_mirrored

theorem changeRun_mirrored {look : Inner → Except ProtocolError Run} {id : RunId}
    {update : Run → Run} {keeps : ∀ run, (update run).id = run.id}
    (project : ∀ run, (update run).projectId = run.projectId) : Preserves (Mirrored count) (do
      let run ← Section.check look
      onLedger (Ledger.setRun id update keeps)
      persist (updateRun (update run))) :=
  .bind .check fun _ => .bind (mirrored_onLedger fun _ => setRun_books project) fun _ =>
  mirrored_persist (writes_updateRun _)

theorem updateBrief_mirrored {caller : Option SessionId} {id : RunId} {brief : String}
    {expected : Nat} : Preserves (Mirrored count) (updateBrief caller id brief expected now) :=
  changeRun_mirrored fun _ => rfl

theorem closeRun_mirrored {request : CloseRun} :
    Preserves (Mirrored count) (closeRun request now) := changeRun_mirrored fun _ => rfl

theorem resumeRun_mirrored {id : RunId} {session : SessionId} :
    Preserves (Mirrored count) (resumeRun id session now) :=
  changeRun_mirrored fun _ => rfl

theorem createTask_mirrored {request : CreateTask} {id : TaskId} :
    Preserves (Mirrored count) (createTask request limits id now) := by
  refine .check_bind fun inner task kept _ => ?_
  intro inner kept
  refine Owes.persist_first (writes_insertTask task) kept ?_ fun _ kept => kept
  unfold Ledger.books Books.addTask
  congr 1
  exact put_added _ task

theorem commitStart_mirrored {spawned : Spawned} {id : AttemptId} :
    Preserves (Mirrored count) (commitStart spawned limits id now) := by
  intro inner kept
  refine Meets.check_bind (fun _ _ => kept) fun found passed => ?_
  obtain ⟨task, n⟩ := found
  have there : inner.ledger.tasks.get? spawned.plan.task.id = some task := by
    simp only [commitStartCheck, bind_eq_ok, found_eq_ok, pure_eq_ok, Prod.mk.injEq] at passed
    obtain ⟨_, _, _, held, rfl, _⟩ := passed
    exact held
  have held : ((inner.ledger.setTask spawned.plan.task.id (Task.started n now) fun _ => rfl)).books =
      inner.ledger.books.writeTasks [task.started n now] := setTask_books _ _ _ there rfl
  refine Handler.onLedger_bind ?_
  refine Handler.persist_bind_of (writes_insertAttempt _ _) (fun _ _ less =>
    owes_broken kept.1 less) fun db wrote => ?_
  have still : db.failures = inner.db.failures := wrote.1
  refine Handler.persist_bind_of (writes_updateTask _ _)
    (fun _ _ less => owes_broken kept.1 (still ▸ less)) fun after changed => ?_
  have quiet : after.failures = inner.db.failures := changed.1.trans still
  refine Handler.onLedger_last ⟨kept.1.trans_eq quiet.symm, fun same => ?_⟩
  calc after.tables.books
      = ((inner.db.tables.books).addAttempt (spawned.attempt id n now)).writeTasks
          [task.started n now] :=
        changed.2.trans (congrArg _ wrote.2)
    _ = (inner.ledger.books.writeTasks [task.started n now]).addAttempt
      (spawned.attempt id n now) := by
        rw [show inner.db.tables.books = inner.ledger.books from kept.2 (quiet.symm.trans same)]
        rfl
    _ = _ := by
        rw [← held]
        unfold Ledger.books Books.addAttempt
        congr 1
        exact (put_added Attempt.entry (spawned.attempt id n now)).symm

end Handlers

section Batches

variable {books : Books}

theorem foldl_writeTasks (tasks : List Task) :
    tasks.foldl (fun books task => books.writeTasks [task]) books = books.writeTasks tasks := by
  induction tasks generalizing books with
  | nil => rfl
  | cons task rest ih => exact ih

theorem foldl_writeAttempts (attempts : List Attempt) :
    attempts.foldl (fun books attempt => books.writeAttempts [attempt]) books =
      books.writeAttempts attempts := by
  induction attempts generalizing books with
  | nil => rfl
  | cons attempt rest ih => exact ih

theorem foldl_blind {ι : Type} (items : List ι) :
    items.foldl (fun books _ => id books) books = books := by
  induction items with
  | nil => rfl
  | cons item rest ih => exact ih

end Batches

section Handlers

variable {count : Nat} {inner : Inner} {now : Timestamp} {limits : OrchestrationLimits}
  {owed : Books → Books}

theorem writeAttempts_same (held : ∀ attempt ∈ attempts, attempt ∈ ledger.attempts) :
    ledger.books.writeAttempts attempts = ledger.books := by
  unfold Books.writeAttempts Ledger.books
  congr 1
  exact overwriteEach_same Attempt.stamp_again held fun _ => rfl

theorem persistAttempts_mirrored (owes : Owes count (Books.writeAttempts attempts) inner) :
    (Section.each persistAttempt attempts).Meets inner fun _ after => Mirrored count after := by
  refine (Owes.each id writes_updateAttempt attempts (owes.congr fun _ => ?_)).mono
    fun result after holds => ?_
  · exact foldl_writeAttempts attempts
  · cases result <;> exact holds

/-- The tasks of one run, written and put back one by one, over a task that is among them. -/
theorem persistPromoted_mirrored {run : RunId} {tasks : List Task}
    (ofRun : ∀ task ∈ tasks, task.runId = run)
    (there : ∀ task ∈ tasks, ∃ old, inner.ledger.tasks.get? task.id = some old ∧ old.runId = run)
    (least : count ≤ inner.db.failures)
    (level : inner.db.failures = count → inner.db.tables.books.writeTasks tasks =
      inner.ledger.books.writeTasks tasks) : (persistPromoted tasks).Meets inner fun result after =>
      Mirrored count after ∧ (result = .ok ⟨⟩ → after.ledger.attempts = inner.ledger.attempts) := by
  unfold persistPromoted
  refine Meets.each (fun rest before => (∀ task ∈ rest, task.runId = run) ∧
    (∀ task ∈ rest, ∃ old, before.ledger.tasks.get? task.id = some old ∧ old.runId = run) ∧
    count ≤ before.db.failures ∧
    (before.db.failures = count → before.db.tables.books.writeTasks rest =
      before.ledger.books.writeTasks rest) ∧
    before.ledger.attempts = inner.ledger.attempts) ⟨ofRun, there, least, level, rfl⟩ ?_ ?_
  · rintro task rest before ⟨ofRun, there, least, level, same⟩
    refine Handler.persist_bind_of (writes_updateTask task before.db) (fun _ _ less => ?_)
      fun db wrote => ?_
    · exact ⟨owes_broken least less, fun ok => by cases ok⟩
    · obtain ⟨old, found, owner⟩ := there task mem_cons_self
      refine Handler.onLedger_last ⟨fun other member => ofRun other (mem_cons_of_mem _ member), ?_,
        least.trans_eq wrote.1.symm, fun quiet => ?_, same⟩
      · intro other member
        rw [get?_put]
        split
        · exact ⟨task, rfl, ofRun task mem_cons_self⟩
        · exact there other (mem_cons_of_mem _ member)
      · have before_ := level (wrote.1.symm.trans quiet)
        rw [Books.writeTasks_cons, @Books.writeTasks_cons before.ledger.books] at before_
        have memory := putTask_books found ((ofRun task mem_cons_self).trans owner.symm)
        rw [memory]
        rw [show db.tables.books = _ from wrote.2]
        exact before_
  · rintro after ⟨_, _, least, level, same⟩
    exact ⟨⟨least, level⟩, fun _ => same⟩

theorem promote_id (status : TaskId → Option TaskStatus) (task : Task) :
    (promote status task).id = task.id := by
  unfold promote
  split <;> rfl

/-- A change of one task in memory, and the promotions of its run that are written after it. -/
theorem promoted_mirrored {id : TaskId} (update : Task → Task)
    (keeps : ∀ task, (update task).id = task.id) (after : Inner) {task : Task}
    (found : inner.ledger.tasks.get? id = some task)
    (run : ∀ task, (update task).runId = task.runId) (db : after.db = inner.db)
    (tasks : after.ledger.tasks = (inner.ledger.setTask id update keeps).tasks)
    (books : after.ledger.books = (inner.ledger.setTask id update keeps).books)
    (kept : Mirrored count inner) :
    (persistPromoted (promoteReady (after.ledger.tasksOf task.runId))).Meets after
    fun result last => Mirrored count last ∧
      (result = .ok ⟨⟩ → last.ledger.attempts = after.ledger.attempts) := by
  have siblings {row : Task} (listed : row ∈ promoteReady (after.ledger.tasksOf task.runId)) :
      ∃ old ∈ after.ledger.tasks, old.id = row.id ∧ old.runId = task.runId ∧
      row.runId = task.runId := by
    obtain ⟨old, there, promotion⟩ := mem_promoteReady listed
    obtain ⟨member, owner⟩ := mem_tasksOf.mp there
    refine ⟨old, member, promotion.id.symm, owner, ?_⟩
    rcases promotion with rfl | ⟨_, rfl⟩ <;> exact owner
  refine persistPromoted_mirrored (fun row listed => (siblings listed).choose_spec.2.2.2)
    (fun row listed => ?_) (db ▸ kept.1) fun quiet => ?_
  · obtain ⟨old, member, named, owner, _⟩ := siblings listed
    exact ⟨old, get?_eq_some.mpr ⟨member, named⟩, owner⟩
  · have level : inner.db.tables.books = inner.ledger.books := kept.2 (db ▸ quiet)
    rw [db, books, setTask_books _ _ _ found (run task), level]
    refine (Books.writeTasks_again ?_ ?_).symm
    · have changed : update task ∈ after.ledger.tasks := by
        rw [tasks]
        exact Ledger.mem_setTask.mpr (.inl ⟨task, mem_of_get? found, key_of_get? found,
          rfl⟩)
      have listed := mem_tasksOf.mpr ⟨changed, run task⟩
      exact ⟨_, List.mem_map.mpr ⟨_, listed, rfl⟩, promote_id _ _⟩
    · intro first one second other same
      obtain ⟨row, there, rfl⟩ := List.mem_map.mp one
      obtain ⟨row', there', rfl⟩ := List.mem_map.mp other
      rw [promote_id, promote_id] at same
      rw [eq_of_key (mem_tasksOf.mp there).1 (mem_tasksOf.mp there').1 same]

theorem acceptTask_mirrored : Preserves (Mirrored count) (acceptTask request now) := by
  intro inner kept
  refine Meets.check_bind (fun _ _ => kept) fun task passed =>
    Handler.onLedger_bind (Handler.read_bind ?_)
  have changed := promoted_mirrored (Task.become .accepted now) (fun _ => rfl) { inner with
    ledger := inner.ledger.setTask request.taskId (Task.become .accepted now) fun _ => rfl }
    (checkDecision_ok passed).1 (fun _ => rfl) rfl rfl rfl kept
  exact changed.mono fun _ _ both => both.1

theorem rejectTask_mirrored {feedback : String} :
    Preserves (Mirrored count) (rejectTask request feedback now) := by
  intro inner kept
  refine Meets.check_bind (fun _ _ => kept) fun task passed => ?_
  simp only [rejectCheck, bind_eq_ok, pure_eq_ok] at passed
  obtain ⟨_, decided, _, _, rfl⟩ := passed
  have found := (checkDecision_ok decided).1
  have told := kept.remember (setTask_books _ (Task.returned (clampText feedback maxMessageBytes).1
    .active now) (fun _ => rfl) found rfl)
  refine Handler.onLedger_bind (Handler.read_bind ?_)
  split
  · exact Owes.persist_bind id (writes_updateTask _) told fun _ kept => kept
  · rename_i attempt newest
    have there := (Ledger.newest_eq_some newest).1
    have both := told.remember (setAttempt_books Attempt.reopened (fun _ => rfl)
      (get?_of_mem there) ⟨rfl, rfl⟩)
    refine Handler.onLedger_bind (Owes.persist_bind (Books.writeAttempts [attempt.reopened])
      (writes_updateTask _) both fun _ owes => Owes.persist_bind id (writes_updateAttempt _) owes
      fun _ kept => kept)

end Handlers

section Handlers

variable {count : Nat} {inner : Inner} {now : Timestamp} {limits : OrchestrationLimits}
  {owed : Books → Books}

theorem retryTask_mirrored {feedback : String} :
    Preserves (Mirrored count) (retryTask request feedback limits now) := by
  intro inner kept
  refine Meets.check_bind (fun _ _ => kept) fun task passed => ?_
  have found := (checkDecision_ok passed).1
  split
  · have told := kept.remember (setTask_books _ (Task.become .failed now) (fun _ => rfl) found rfl)
    exact Handler.onLedger_bind (Owes.persist_bind id (writes_updateTask _) told fun _ kept => kept)
  · have told := kept.remember (setTask_books _
      (Task.returned (clampText feedback maxMessageBytes).1 .ready now) (fun _ => rfl) found rfl)
    refine Handler.onLedger_bind (Handler.read_bind ?_)
    split
    · exact Owes.persist_bind id (writes_updateTask _) told fun _ kept => kept
    · rename_i attempt newest
      have there := (Ledger.newest_eq_some newest).1
      have both := told.remember (setAttempt_books (Attempt.rejected now) (fun _ => rfl)
        (get?_of_mem there) ⟨rfl, rfl⟩)
      exact Handler.onLedger_bind (Owes.persist_bind (Books.writeAttempts [attempt.rejected now])
        (writes_updateTask _) both fun _ owes => Owes.persist_bind id (writes_updateAttempt _) owes
          fun _ kept => kept)

theorem cancelAttempts_books (ledger : Ledger) (task : TaskId) (now : Timestamp) :
    (ledger.cancelAttempts task now).books =
      ledger.books.writeAttempts
      (((ledger.attemptsOf task).filter Attempt.isLive).map (Attempt.lost .cancelled now)) := by
  unfold Ledger.cancelAttempts Ledger.books Books.writeAttempts Ledger.attemptsOf
  congr 1
  rw [filter_filter]
  refine map_overwrites _ _ _ (fun attempt => by split <;> rfl) Attempt.stamp_again (fun _ => rfl)
    fun attempt _ => ?_
  rw [Bool.and_comm]
  split <;> rfl

theorem cancelTask_mirrored : Preserves (Mirrored count) (cancelTask request now) := by
  intro inner kept
  refine Meets.check_bind (fun _ _ => kept) fun task passed => Handler.read_bind ?_
  have told := kept.remember (setTask_books _ (Task.become .cancelled now) (fun _ => rfl)
    (checkDecision_ok passed).1 rfl)
  have both := told.remember (cancelAttempts_books (inner.ledger.setTask _ _ _) request.taskId now)
  refine Handler.onLedger_bind (Handler.onLedger_bind ?_)
  exact Owes.persist_bind _ (writes_updateTask _) both fun _ owes => persistAttempts_mirrored owes

theorem recordCommit_books {task : TaskId} {commit : Option String} :
    (ledger.recordCommit task commit).books = ledger.books := by
  unfold Ledger.recordCommit
  split
  · rfl
  · refine Books.ext rfl rfl ?_
    refine (modify_unseen ledger.attempts Attempt.entry _ ?_ ?_ :) <;> exact fun _ => rfl

theorem markIntegrated_mirrored {task : TaskId} {commit : Option String} :
    Preserves (Mirrored count) (markIntegrated task commit now) := by
  intro inner kept
  refine Meets.check_bind (fun _ _ => kept) fun before found => ?_
  refine Handler.onLedger_bind (Handler.onLedger_bind (Handler.read_bind (Handler.read_bind ?_)))
  have changed := promoted_mirrored (Task.become .integrated now) (fun _ => rfl) { inner with
    ledger := (inner.ledger.setTask task (Task.become .integrated now) fun _ => rfl).recordCommit
      task commit }
    (found_eq_ok.mp found) (fun _ => rfl) rfl (by unfold Ledger.recordCommit; split <;> rfl)
    recordCommit_books kept
  refine changed.bind (fun _ _ both => both.1) ?_
  rintro value after ⟨kept, attempts⟩
  refine persistAttempts_mirrored (kept.congr fun same => ?_)
  rw [show after.db.tables.books = after.ledger.books from kept.2 same]
  refine writeAttempts_same fun attempt listed => ?_
  rw [attempts rfl]
  exact (Ledger.mem_attemptsOf.mp listed).1

/-- The tasks of some attempts are there. -/
def HaveTasks (attempts : List Attempt) (inner : Inner) : Prop :=
  ∀ attempt ∈ attempts, (inner.ledger.tasks.get? attempt.taskId).isSome

theorem HaveTasks.setTask {id : TaskId} {update : Task → Task}
    {keeps : ∀ task, (update task).id = task.id} (owned : HaveTasks attempts inner) {after : Inner}
    (tasks : after.ledger.tasks = inner.ledger.tasks.modify id update keeps) :
    HaveTasks attempts after := by
  intro attempt member
  rw [tasks, get?_modify]
  split
  · rw [Option.isSome_map]
    exact owned attempt member
  · exact owned attempt member

theorem resumeOne_mirrored {attempt : Attempt} (listed : attempt ∈ attempts) :
    Preserves (fun inner => Mirrored count inner ∧ HaveTasks attempts inner)
    (resumeOne now attempt) := by
  rintro inner ⟨kept, owned⟩
  refine Handler.read_bind ?_
  split
  · exact ⟨kept, owned⟩
  rename_i current found
  have told := kept.remember (setAttempt_books Attempt.resumed (fun _ => rfl) found ⟨rfl, rfl⟩)
  obtain ⟨task, held⟩ := Option.isSome_iff_exists.mp (owned attempt listed)
  refine Handler.onLedger_bind (Handler.read_bind ?_)
  split
  · rename_i missing
    cases held.symm.trans missing
  rename_i task' found'
  obtain rfl : task = task' := Option.some.inj (held.symm.trans found')
  have both := told.remember (setTask_books (inner.ledger.setAttempt attempt.id Attempt.resumed
    fun _ => rfl) (Task.become .active now) (fun _ => rfl) held rfl)
  have still (after : Inner) (tasks : after.ledger.tasks =
      inner.ledger.tasks.modify attempt.taskId (Task.become .active now) fun _ => rfl) : HaveTasks
      attempts after :=
    owned.setTask tasks
  refine Handler.onLedger_bind (Handler.persist_bind_of (writes_updateAttempt _ _) (fun _ _ less =>
    ?_) fun db wrote => ?_)
  · exact ⟨both.failed less, still _ rfl⟩
  · have rest := Owes.written (Books.writeTasks [task.become .active now]) both wrote
    exact Handler.persist_meets (writes_updateTask _ db) (fun _ _ less =>
      ⟨rest.failed less, still _ rfl⟩) fun _ wrote => ⟨Owes.written id rest wrote, still _ rfl⟩

theorem resumeBlocked_mirrored {sessions : List SessionId} :
    Preserves (Mirrored count) (resumeBlocked sessions now) := by
  intro inner kept
  refine Handler.read_bind ?_
  have owned : HaveTasks (blockedAttempts inner.ledger sessions) inner := by
    intro attempt listed
    have blocked := (mem_filter.mp listed).2
    simp only [Bool.and_eq_true, beq_iff_eq, Ledger.taskStatus, Option.map_eq_some_iff] at blocked
    obtain ⟨_, task, found, _⟩ := blocked
    rw [found]
    rfl
  exact (Preserves.each (fun attempt listed => resumeOne_mirrored listed) inner ⟨kept, owned⟩).mono
    fun _ _ both => both.1

theorem deliverMessage_mirrored {request : PostMessage} {targets : List DeliveryTarget}
    {fresh : ContextId} : Preserves (Mirrored count)
    (deliverMessage request targets fresh now) := by
  unfold deliverMessage
  refine .check_bind fun _ _ _ _ => .check_bind fun _ _ _ _ => .check_bind fun _ _ _ _ => ?_
  refine .bind (.each fun _ _ => mirrored_persist (writes_execute fun _ _ inserted => ?_)) fun _ =>
    resumeBlocked_mirrored
  rw [← Except.ok.inj inserted]
  rfl

theorem setState_mirrored {platform : Platform} {request : SetState} :
    Preserves (Mirrored count) (setState platform request now) := by
  unfold setState
  refine .check_bind fun _ current _ _ => ?_
  split
  · refine .bind (mirrored_onLedger fun _ => rfl) fun _ =>
      mirrored_persist (writes_execute fun _ _ deleted => ?_)
    rw [← Except.ok.inj deleted]
    rfl
  · exact .bind (mirrored_persist (writes_upsertBoard _)) fun _ => mirrored_onLedger fun _ => rfl

theorem reportAttempt_mirrored {reporting : Reporting} {facts : ReportFacts}
    (known : ∀ attempt, settleCheck reporting inner = .ok attempt → ∃ task,
      inner.ledger.tasks.get? reporting.taskId = some task)
    (kept : Mirrored count inner) :
    (reportAttempt reporting facts limits now).Meets inner fun _ after => Mirrored count after := by
  refine Meets.check_bind (fun _ _ => kept) fun copied _ => Meets.check_bind (fun _ _ => kept)
    fun attempt passed => ?_
  obtain ⟨task, held⟩ := known attempt passed
  have current : inner.ledger.attempts.get? reporting.request.attemptId = some attempt := by
    simp only [settleCheck, bind_eq_ok, found_eq_ok, pure_eq_ok] at passed
    obtain ⟨_, there, _, _, rfl⟩ := passed
    exact there
  have told := kept.remember (setAttempt_books
    (Attempt.reported (reporting.report facts copied) now) (fun _ => rfl) current ⟨rfl, rfl⟩)
  have both := told.remember (setTask_books (inner.ledger.setAttempt reporting.request.attemptId
    (Attempt.reported (reporting.report facts copied) now) fun _ => rfl)
    (Task.become (reporting.status limits) now)
    (fun _ => rfl) held rfl)
  refine Handler.onLedger_bind (Meets.check_bind (fun error refused => ?_) fun row there => ?_)
  · have fine : found (inner.ledger.tasks.get? reporting.taskId) (ProtocolError.notFound "task") =
        .ok task :=
      found_eq_ok.mpr held
    cases fine.symm.trans refused
  obtain rfl : task = row := Option.some.inj (held.symm.trans (found_eq_ok.mp there))
  exact Handler.onLedger_bind (Owes.persist_bind
    (Books.writeTasks [task.become (reporting.status limits) now]) (writes_updateAttempt _) both
    fun _ owes =>
      (Owes.persist id (writes_updateTask _) owes).mono
      fun result _ holds => by cases result <;> exact holds)

end Handlers

section Removals

variable {count : Nat} {inner : Inner} {now : Timestamp} {limits : OrchestrationLimits}
  {owed : Books → Books}

/-- Every row that was owed is written, or a failure is counted. -/
theorem persistForgotten_mirrored {runs : List Run} {tasks : List Task}
    (owes : Owes count (fun books => (books.writeTasks tasks).writeAttempts attempts) inner) :
    (persistForgotten runs tasks attempts).Meets inner fun _ after => Mirrored count after := by
  unfold persistForgotten
  refine (Owes.ignored_each (fun books => (books.writeTasks tasks).writeAttempts attempts)
    writes_updateRun runs (owes.congr fun _ => ?_)).bind (fun _ _ never => never.elim)
    fun _ after owes => ?_
  · rw [foldl_blind]
  refine (Owes.ignored_each (Books.writeAttempts attempts) writes_updateTask tasks
    (owes.congr fun _ => ?_)).bind (fun _ _ never => never.elim) fun _ last owes => ?_
  · rw [foldl_writeTasks]
  refine (Owes.ignored_each id writes_updateAttempt attempts
    (owes.congr fun _ => ?_)).mono fun result final holds => ?_
  · exact foldl_writeAttempts attempts
  · cases result with
    | ok done => exact holds
    | error error => exact holds.elim

theorem forgetSession_books (ledger : Ledger) (session : SessionId) (now : Timestamp) :
    (ledger.forgetSession session now).books =
      (ledger.books.writeTasks ((ledger.tasks.rows.filter fun task => ledger.loses session task &&
      task.status.inProgress).map (Task.loseAttempt ledger.maxAttemptsPerTask now))).writeAttempts
      ((ledger.attempts.rows.filter fun attempt => attempt.sessionId == some session).map
        (Attempt.forgetSession session now)) := by
  refine Books.ext ?_ ?_ ?_
  · refine (map_unseen ledger.runs Run.projectId ?_ fun run => ?_ :)
    · intro run
      unfold Run.forgetSession
      split <;> rfl
    · unfold Run.forgetSession
      split <;> rfl
  · refine map_overwrites ledger.tasks Task.entry Task.stamp
      (fun task => by unfold Task.loseAttempt; split <;> [split; skip] <;> rfl) Task.stamp_again
      (fun task => by unfold Task.loseAttempt; split <;> rfl) fun task _ => ?_
    unfold Task.loseAttempt
    cases ledger.loses session task <;> cases task.status.inProgress <;> rfl
  · refine map_overwrites ledger.attempts Attempt.entry Attempt.stamp
      (fun attempt => by unfold Attempt.forgetSession; split <;> [split; skip] <;> rfl)
      Attempt.stamp_again
      (fun attempt => by unfold Attempt.forgetSession; split <;> [split; skip] <;> rfl)
      fun attempt _ => ?_
    unfold Attempt.forgetSession
    by_cases named : attempt.sessionId = some session
    · simp only [named, beq_self_eq_true, if_true]
      split <;> rfl
    · rw [if_neg named, if_neg (by simpa using named)]

theorem removeSessionCache_mirrored {session : SessionId} :
    Preserves (Mirrored count) (removeSessionCache session now) := by
  intro inner kept
  refine Handler.read_bind (Handler.onLedger_bind ?_)
  have told := @Owes.remember _ _ (fun books => (books.writeTasks _).writeAttempts _) _ kept _
    (forgetSession_books inner.ledger session now)
  exact (persistForgotten_mirrored told).bind (fun _ _ kept => kept) fun _ after kept =>
    Meets.change (kept.same_books rfl rfl)

theorem deleteSession_mirrored {session : SessionId} :
    Preserves (Mirrored count) (deleteSession session now) :=
  .bind (mirrored_persist (writes_deleteSessionRow session)) fun _ => removeSessionCache_mirrored

theorem forgetWorkspace_books {workspace : WorkspaceId} :
    (ledger.forgetWorkspace workspace).books = ledger.books := by
  refine Books.ext ?_ rfl ?_
  · refine (map_unseen ledger.runs Run.projectId ?_ fun run => ?_ :)
    · intro run
      unfold Run.forgetWorkspace
      split <;> rfl
    · unfold Run.forgetWorkspace
      split <;> rfl
  · refine (map_unseen ledger.attempts Attempt.entry ?_ fun attempt => ?_ :)
    · intro attempt
      unfold Attempt.forgetWorkspace
      split <;> rfl
    · unfold Attempt.forgetWorkspace
      split <;> rfl

theorem dropWorkspace_mirrored {workspace : WorkspaceId} :
    Preserves (Mirrored count) (dropWorkspace workspace now) := by
  refine .check_bind fun _ sessions _ _ => .bind (.each fun _ _ => deleteSession_mirrored) fun _ =>
    .bind (mirrored_persist (writes_deleteWorkspaceRow workspace)) fun _ =>
      .bind (mirrored_change (fun _ => rfl) fun _ => rfl) fun _ => ?_
  intro inner kept
  refine Handler.read_bind (Handler.onLedger_bind (persistForgotten_mirrored ?_))
  have still : Mirrored count { inner with ledger := inner.ledger.forgetWorkspace workspace } :=
    kept.same_books rfl forgetWorkspace_books
  refine still.congr fun same => ?_
  rw [show inner.db.tables.books = (inner.ledger.forgetWorkspace workspace).books from still.2 same]
  refine writeAttempts_same fun attempt listed => ?_
  obtain ⟨old, there, rfl⟩ := List.mem_map.mp listed
  exact Ledger.attempts_forgetWorkspace.mpr ⟨old, (mem_filter.mp there).1, rfl⟩

theorem removeProject_mirrored {project : ProjectId} :
    Preserves (Mirrored count) (removeProject project now) := by
  refine .check_bind fun _ workspaces _ _ => .check_bind fun _ sessions _ _ =>
    .bind (.each fun _ _ => mirrored_persist (writes_deleteSessionRow _)) fun _ =>
      .bind (.each fun _ _ => mirrored_persist (writes_deleteWorkspaceRow _)) fun _ => ?_
  intro inner kept
  refine Handler.persist_bind_of (writes_deleteProjectRow project inner.db) (fun _ _ less =>
    kept.failed less) fun db wrote => ?_
  refine Handler.onLedger_bind ?_
  have both : Mirrored count { inner with db, ledger := inner.ledger.forgetProject project } :=
    ⟨kept.1.trans_eq wrote.1.symm, fun same => wrote.2.trans ((congrArg (Books.dropProject project)
      (kept.2 (wrote.1.symm.trans same))).trans (forgetProject_books _ _).symm)⟩
  exact (Preserves.each (fun _ _ => removeSessionCache_mirrored) _ both).bind (fun _ _ kept => kept)
    fun _ after kept =>
    Meets.change (kept.same_books rfl rfl)

/-- The task that is there after a change, or nothing. -/
theorem setTask_changed (ledger : Ledger) (id : TaskId) (update : Task → Task)
    (keeps : ∀ task, (update task).id = task.id) (run : ∀ task, (update task).runId = task.runId) :
    (ledger.setTask id update keeps).books =
      ledger.books.writeTasks ((ledger.setTask id update keeps).tasks.get? id).toList := by
  cases held : ledger.tasks.get? id with
  | none =>
    have still : ledger.setTask id update keeps = ledger := by
      unfold Ledger.setTask
      rw [modify_of_missing held]
    rw [still, held]
    rfl
  | some task =>
    have now_ : (ledger.setTask id update keeps).tasks.get? id = some (update task) := by
      unfold Ledger.setTask
      rw [get?_modify, if_pos rfl, held]
      rfl
    rw [now_]
    exact setTask_books _ _ _ held (run task)

theorem noteSessionExit_mirrored {session : SessionId} :
    Preserves (Mirrored count) (noteSessionExit session limits now) := by
  intro inner kept
  refine Handler.read_bind ?_
  split
  · exact kept
  rename_i attempt found
  have member : attempt ∈ inner.ledger.attempts := mem_of_find?_eq_some found
  have told := kept.remember (setAttempt_books (Attempt.lost .exitedWithoutReport now) (fun _ => rfl)
    (get?_of_mem member) ⟨rfl, rfl⟩)
  refine Handler.onLedger_bind (Handler.onLedger_bind (Handler.read_bind ?_))
  have both := told.remember (setTask_changed (inner.ledger.setAttempt attempt.id
    (Attempt.lost .exitedWithoutReport now) fun _ => rfl) attempt.taskId
    (Task.loseAttempt limits.maxAttemptsPerTask now)
    (fun task => by unfold Task.loseAttempt; split <;> rfl)
    fun task => by unfold Task.loseAttempt; split <;> rfl)
  refine (Owes.ignored (Books.writeTasks _) (writes_updateAttempt _) both).bind
    (fun _ _ none_ => by cases none_.1) fun _ after owes => ?_
  refine (Owes.ignored_each id writes_updateTask _ (owes.2.congr fun _ => ?_)).mono
    fun result last holds => ?_
  · exact foldl_writeTasks _
  · cases result with
    | ok done => exact holds
    | error error => exact holds.elim

end Removals

section Others

variable {count : Nat} {inner : Inner} {now : Timestamp} {limits : OrchestrationLimits}
  {owed : Books → Books}

theorem spawnWorker_mirrored {workspace : WorkspaceId} {id : SessionId} :
    Preserves (Mirrored count) (spawnWorker workspace id) :=
  .check_bind fun _ _ _ _ => .bind (mirrored_persist (writes_insertSession _)) fun _ =>
  mirrored_change (fun _ => rfl) fun _ => rfl

theorem addSession_mirrored {session : Session} : Preserves (Mirrored count) (addSession session) :=
  .bind (mirrored_persist (writes_insertSession _)) fun _ => mirrored_change (fun _ => rfl) fun _ =>
  rfl

theorem addWorkspace_mirrored {workspace : Workspace} :
    Preserves (Mirrored count) (addWorkspace workspace) :=
  .bind (mirrored_persist (writes_insertWorkspace _)) fun _ =>
  mirrored_change (fun _ => rfl) fun _ => rfl

theorem addProject_mirrored {project : ProjectId} :
    Preserves (Mirrored count) (addProject project) := by
  refine .bind (mirrored_persist (writes_execute fun _ _ inserted => ?_)) fun _ =>
    mirrored_change (fun _ => rfl) fun _ => rfl
  rw [← Except.ok.inj inserted]
  rfl

theorem moveSession_mirrored {session : SessionId} {state : SessionState} :
    Preserves (Mirrored count) (moveSession session state) := by
  refine .check_bind fun _ _ _ _ => .check_bind fun _ _ _ _ =>
    .bind (mirrored_change (fun _ => rfl) fun _ => rfl) fun _ =>
    .ignore (mirrored_persist (writes_execute fun _ _ moved => ?_))
  rw [← Except.ok.inj moved]
  rfl

end Others

end ForgeNode.Orchestration
