import ForgeNode.Orchestration.Rails

/-! What a failed write leaves behind, for each call that changes the ledger and the tables. -/

namespace ForgeNode.Orchestration

open Store

open Section (Meets)

/-- The calls whose writes can fail, each at the section that writes. -/
inductive Write where
  | createTask (request : CreateTask)
  | updateBrief (caller : Option SessionId) (run : RunId) (brief : String) (expectedVersion : Nat)
  | commitStart (spawned : Spawned)
  | reportAttempt (reporting : Reporting) (facts : ReportFacts)
  | acceptTask (request : DecideTask) (note : Option String)
  | setState (request : SetState)

variable (platform : Platform) (limits : OrchestrationLimits) (now : Timestamp) (fresh : Nat)

def Write.handler : Write → Handler PUnit
  | .createTask request => do
    let _ ← Orchestration.createTask request limits fresh now
    return ⟨⟩
  | .updateBrief caller run brief expectedVersion =>
    Orchestration.updateBrief caller run brief expectedVersion now
  | .commitStart spawned => Orchestration.commitStart spawned limits fresh now
  | .reportAttempt reporting facts => Orchestration.reportAttempt reporting facts limits now
  | .acceptTask request note =>
    Orchestration.acceptTask { request with decision := .accept note } now
  | .setState request => Orchestration.setState platform request now

/-- Nothing was written before the failure: a board write, or a new task whose own row is
refused, not one of its dependencies. -/
def Write.failsClean (inner : Inner) : Write → Bool
  | .setState request => !request.delete
  | .createTask request => match createTaskCheck request limits fresh now inner with
    | .ok task => inner.db.faults.head? == some true || !(insertTaskRow task inner.db.tables).isOk
    | .error _ => false
  | _ => false

/-- The ledger and the tables, as they were. -/
def Untouched (inner after : Inner) : Prop :=
  after.ledger = inner.ledger ∧ after.db.tables = inner.db.tables

/-- A section after which a failed write has left its mark. -/
def Marks (inner : Inner) (program : Handler PUnit) : Prop :=
  program.Meets inner fun _ after => inner.db.failures < after.db.failures → ¬ Untouched inner after

section Calls

variable {platform : Platform} {limits : OrchestrationLimits} {now : Timestamp} {fresh : Nat}
  {inner : Inner}

theorem not_failed {goal : Prop} (less : inner.db.failures < inner.db.failures) : goal :=
  absurd less (Nat.lt_irrefl _)

theorem setRun_changes {ledger : Ledger} {id : RunId} {update : Run → Run}
    {keeps : ∀ run, (update run).id = run.id} {run : Run} (found : ledger.runs.get? id = some run)
    (differs : update run ≠ run) : (ledger.setRun id update keeps).runs ≠ ledger.runs :=
  @modify_ne _ _ _ _ _ _ keeps _ _ found differs

theorem setTask_changes {ledger : Ledger} {id : TaskId} {update : Task → Task}
    {keeps : ∀ task, (update task).id = task.id} {task : Task}
    (found : ledger.tasks.get? id = some task) (differs : update task ≠ task) :
    (ledger.setTask id update keeps).tasks ≠ ledger.tasks :=
  @modify_ne _ _ _ _ _ _ keeps _ _ found differs

theorem setAttempt_changes {ledger : Ledger} {id : AttemptId} {update : Attempt → Attempt}
    {keeps : ∀ attempt, (update attempt).id = attempt.id} {attempt : Attempt}
    (found : ledger.attempts.get? id = some attempt) (differs : update attempt ≠ attempt) :
    (ledger.setAttempt id update keeps).attempts ≠ ledger.attempts :=
  @modify_ne _ _ _ _ _ _ keeps _ _ found differs

theorem updateBrief_marks {caller : Option SessionId} {run : RunId} {brief : String}
    {expected : Nat} : Marks inner (updateBrief caller run brief expected now) := by
  unfold updateBrief
  refine Meets.check_bind (fun _ _ => not_failed) fun row passed => ?_
  have there : inner.ledger.runs.get? run = some row := by
    simp only [updateBriefCheck, bind_eq_ok, found_eq_ok, pure_eq_ok] at passed
    obtain ⟨_, there, _, _, _, _, rfl⟩ := passed
    exact there
  have differs (text : String) : row.briefed text now ≠ row := fun same =>
    Nat.succ_ne_self _ (congrArg Run.revision same)
  refine Handler.onLedger_bind ?_
  refine Handler.persist_last (counted_updateRun _) (fun _ db _ _ same => ?_) fun db _ _ same => ?_
  · exact setRun_changes there (differs _) (congrArg Ledger.runs same.1)
  · exact setRun_changes there (differs _) (congrArg Ledger.runs same.1)

theorem commitStart_marks {spawned : Spawned} :
    Marks inner (commitStart spawned limits fresh now) := by
  unfold commitStart
  refine Meets.check_bind (fun _ _ => not_failed) ?_
  rintro ⟨task, n⟩ passed
  obtain ⟨may, same, rfl⟩ := commitStartCheck_ok passed
  have there := same ▸ may.found
  have differs : task.started (task.attemptsUsed + 1) now ≠ task := fun same =>
    Nat.succ_ne_self _ (congrArg Task.attemptsUsed same)
  dsimp only
  refine Handler.onLedger_bind ?_
  refine Handler.persist_bind (counted_execute _) (fun _ db _ _ same => ?_) fun db kept => ?_
  · exact setTask_changes there differs (congrArg Ledger.tasks same.1)
  · refine Handler.persist_bind (counted_updateTask _) (fun _ db' _ _ same => ?_) fun db' kept' => ?_
    · exact setTask_changes there differs (congrArg Ledger.tasks same.1)
    · exact Handler.onLedger_last fun less => absurd (kept'.trans kept) (Nat.ne_of_gt less)

theorem reportAttempt_marks {reporting : Reporting} {facts : ReportFacts} :
    Marks inner (reportAttempt reporting facts limits now) := by
  unfold reportAttempt
  refine Meets.check_bind (fun _ _ => not_failed) fun copied _ => ?_
  refine Meets.check_bind (fun _ _ => not_failed) fun attempt passed => ?_
  obtain ⟨there, live, _⟩ := settleCheck_ok passed
  have differs : attempt.reported (reporting.report facts copied) now ≠ attempt := by
    intro same
    rw [← same] at live
    cases live
  have changed : ∀ after : Inner, Untouched inner after → after.ledger.attempts ≠
      (inner.ledger.setAttempt reporting.request.attemptId
        (Attempt.reported (reporting.report facts copied) now) fun _ => rfl).attempts :=
    fun after same kept => setAttempt_changes there differs
      (kept.symm.trans (congrArg Ledger.attempts same.1))
  refine Handler.onLedger_bind ?_
  refine Meets.check_bind (fun _ _ => not_failed) fun task _ => ?_
  refine Handler.onLedger_bind ?_
  refine Handler.persist_bind (counted_updateAttempt _) (fun _ db _ _ same => ?_) fun db _ => ?_
  · exact changed _ same rfl
  · refine Handler.persist_last (counted_updateTask _) (fun _ db' _ _ same => ?_)
      fun db' _ _ same => ?_
    · exact changed _ same rfl
    · exact changed _ same rfl

/-- The accepted task stays accepted, however far the writes of the promotion get. -/
theorem acceptTask_marks {request : DecideTask} {note : Option String}
    (accept : request.decision = .accept note) : Marks inner (acceptTask request now) := by
  unfold acceptTask
  refine Meets.check_bind (fun _ _ => not_failed) fun task passed => ?_
  obtain ⟨there, _, fits⟩ := checkDecision_ok passed
  have status := decisionFits_of_not_cancel fits fun kill other => by
    rw [accept] at other
    cases other
  refine Handler.onLedger_bind ?_
  refine Handler.read_bind ?_
  refine (persistPromoted_meets (promoteReady_rewritten _ _)).mono ?_
  rintro result after ⟨tasks, promoted, left⟩ _ same
  have accepted : task.become .accepted now ∈ (inner.ledger.setTask request.taskId
      (Task.become .accepted now) fun _ => rfl).tasks :=
    List.mem_map.mpr ⟨task, mem_of_get? there, if_pos (key_of_get? there)⟩
  obtain ⟨row, member, named, promotion⟩ := promoted.forth _ accepted
  have stays : row = task.become .accepted now := by
    rcases promotion with rfl | ⟨waits, _⟩
    · rfl
    · cases waits.2.1
  have tables : tasks = inner.ledger.tasks := left.tasks.symm.trans (congrArg Ledger.tasks same.1)
  rw [tables] at member
  have equal := eq_of_key member (mem_of_get? there) named
  rw [← equal, stays] at status
  rcases status with impossible | impossible <;> cases impossible

theorem checkBoardVersion_delete {request : SetState} {current : Option Nat} {done : Unit}
    (passed : checkBoardVersion request current = .ok done) (delete : request.delete = true) :
    current.isSome = true := by
  cases current with
  | some version => rfl
  | none =>
    unfold checkBoardVersion compareAndSet at passed
    by_cases zero : request.expectedVersion = 0
    · simp [zero, delete, require] at passed
    · simp [zero] at passed

theorem setState_marks {request : SetState} (delete : request.delete = true) :
    Marks inner (setState platform request now) := by
  unfold setState
  refine Meets.check_bind (fun _ _ => not_failed) fun current passed => ?_
  simp only [setStateCheck, bind_eq_ok, pure_eq_ok] at passed
  obtain ⟨_, _, _, _, _, _, _, _, _, version, rfl⟩ := passed
  have present := checkBoardVersion_delete version delete
  obtain ⟨entry, found⟩ := Option.isSome_iff_exists.mp (by simpa using present)
  rw [if_pos delete]
  have gone : (inner.ledger.board.retain fun entry => entry.place != (request.runId, request.key)) ≠
      inner.ledger.board := by
    intro same
    have member := same ▸ mem_of_get? found
    have kept := (Store.mem_retain.mp member).2
    rw [key_of_get? found] at kept
    simp at kept
  refine Handler.onLedger_bind ?_
  refine Handler.persist_last (counted_execute _) (fun _ db _ _ same => ?_) fun db _ _ same => ?_
  · exact gone (congrArg Ledger.board same.1)
  · exact gone (congrArg Ledger.board same.1)

/-- The row is refused and nothing is written, or it is written and stays. -/
theorem insertTask_fails (task : Task) (db : Database) :
    (insertTask task).Meets db fun result after => ∀ error, result = .error error →
      (after.tables = db.tables ↔
        (db.faults.head? == some true || !(insertTaskRow task db.tables).isOk) = true) := by
  unfold insertTask
  refine (execute_meets _ db).bind ?_ ?_
  · rintro error after ⟨same, _, fault | ⟨error', refused⟩⟩ _ _
    · simp [same, fault]
    · simp [same, refused, Except.isOk, Except.toBool]
  · rintro value middle ⟨free, _, _, stored⟩
    have deps : Keeps Tables.tasks
        (Section.each (fun after => execute (insertDep task.id after)) task.after) :=
      keeps_each fun after => keeps_insertDep (fun _ _ => rfl) task.id after
    refine (deps middle).mono fun result after kept _ _ => ?_
    have clean : (db.faults.head? == some true || !(insertTaskRow task db.tables).isOk) = false := by
      simp [free, stored, Except.isOk, Except.toBool]
    rw [clean]
    simp only [insertTaskRow, bind_eq_ok, require_eq_ok, pure_eq_ok] at stored
    obtain ⟨row, encoded, _, unused, _, _, written⟩ := stored
    have named : row.id = task.id := (taskFromRow_keys (taskFromRow_values [] encoded)).1.symm
    have present : row ∈ after.tables.tasks := by
      rw [kept, ← written]
      exact mem_put.mpr (.inl rfl)
    refine ⟨fun same => ?_, fun impossible => by cases impossible⟩
    rw [same] at present
    exact absurd named (get?_eq_none.mp (Option.isNone_iff_eq_none.mp unused) row present)

theorem createTask_fails {request : CreateTask} :
    (createTask request limits fresh now).Meets inner fun result after =>
      ∀ error, result = .error error → inner.db.failures < after.db.failures →
        (Untouched inner after ↔
          (Write.createTask request).failsClean limits now fresh inner = true) := by
  unfold createTask
  refine Meets.check_bind (fun _ _ _ _ => not_failed) fun task passed => ?_
  refine Handler.persist_bind_of (insertTask_fails task inner.db) ?_ fun db _ => ?_
  · intro error db iff _ _ _
    have shape : (Write.createTask request).failsClean limits now fresh inner =
        (inner.db.faults.head? == some true || !(insertTaskRow task inner.db.tables).isOk) := by
      simp only [Write.failsClean, passed]
    rw [shape, ← iff error rfl]
    exact ⟨fun same => same.2, fun same => ⟨rfl, same⟩⟩
  · exact fun _ impossible => by cases impossible

theorem setState_fails {request : SetState} (write : request.delete = false) :
    (setState platform request now).Meets inner fun result after =>
      ∀ error, result = .error error → Untouched inner after := by
  unfold setState
  refine Meets.check_bind (fun _ _ _ _ => ⟨rfl, rfl⟩) fun current _ => ?_
  rw [if_neg (by simp [write])]
  refine Handler.persist_bind_of (execute_meets _ _) ?_ fun db _ => ?_
  · rintro error db ⟨same, _, _⟩ _ _
    exact ⟨rfl, same⟩
  · exact fun _ impossible => by cases impossible

end Calls

/-- A call that fails on a write leaves everything as it was exactly where it is one of
those that write before they change the ledger, and its first statement is the one refused. -/
theorem failed_write_untouched_iff {platform : Platform} {limits : OrchestrationLimits}
    {now : Timestamp} {fresh : Nat} {inner : Inner} {write : Write} {error : ProtocolError}
    (failed : ((write.handler platform limits now fresh).run inner).1 = .error error)
    (persistence : inner.db.failures <
      ((write.handler platform limits now fresh).run inner).2.db.failures) :
    Untouched inner ((write.handler platform limits now fresh).run inner).2 ↔
      write.failsClean limits now fresh inner = true := by
  have never {program : Handler PUnit} (marks : Marks inner program)
      (less : inner.db.failures < (program.run inner).2.db.failures) :
      Untouched inner (program.run inner).2 ↔ false = true :=
    ⟨fun same => absurd same (marks less), fun impossible => by cases impossible⟩
  cases write with
  | createTask request =>
    have meets : ((Write.createTask request).handler platform limits now fresh).Meets inner
        fun result after => ∀ error, result = .error error →
          inner.db.failures < after.db.failures → (Untouched inner after ↔
            (Write.createTask request).failsClean limits now fresh inner = true) := by
      refine Meets.bind createTask_fails (fun error after holds => ?_) fun _ _ _ => ?_
      · exact fun _ _ => holds error rfl
      · exact fun _ impossible => by cases impossible
    exact meets error failed persistence
  | updateBrief caller run brief expectedVersion => exact never updateBrief_marks persistence
  | commitStart spawned => exact never commitStart_marks persistence
  | reportAttempt reporting facts => exact never reportAttempt_marks persistence
  | acceptTask request note => exact never (acceptTask_marks rfl) persistence
  | setState request =>
    cases delete : request.delete with
    | true =>
      simp only [Write.failsClean, delete, Bool.not_true]
      exact never (setState_marks delete) persistence
    | false =>
      simp only [Write.failsClean, delete, Bool.not_false, iff_true]
      exact setState_fails delete error failed

/-- The next statement fails. -/
def World.faulty (world : World) : Inner := (world.meeting ⟨.restart true, 0, 0, [true]⟩).inner

theorem failed_write_untouched_iff_setState : Untouched (reached opening).faulty
    (((Write.setState ⟨none, 103, "key", "null", 0, false⟩).handler plain .default 0 104).run
      (reached opening).faulty).2 :=
  (failed_write_untouched_iff (show _ =
    Except.error (dbErr (.sqlite "disk I/O error")) by decide +kernel) (by decide +kernel)).mpr
    (by decide +kernel)

/-- The brief in memory is new and the stored one is old. -/
theorem not_untouched : ¬ ∀ platform limits world, World.Reachable platform limits world →
    ∀ (event : Event) (write : Write) (error : ProtocolError),
      ((write.handler platform limits event.now event.fresh).run (world.meeting event).inner).1 =
        .error error →
      (world.meeting event).inner.db.failures < ((write.handler platform limits event.now
        event.fresh).run (world.meeting event).inner).2.db.failures →
      Untouched (world.meeting event).inner
        ((write.handler platform limits event.now event.fresh).run
        (world.meeting event).inner).2 := by
  intro always
  have same := always plain .default (reached opening)
    ⟨stepsTo opening, run_of_admitted (by decide +kernel)⟩ ⟨.restart true, 0, 104, [true]⟩
    (.updateBrief none 103 "brief" 0) (dbErr (.sqlite "disk I/O error")) (by decide +kernel)
    (by decide +kernel)
  exact absurd same.1 (by decide +kernel)

end ForgeNode.Orchestration
