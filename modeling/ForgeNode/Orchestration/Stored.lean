import ForgeNode.Orchestration.Startup

/-! What the tables make of a task and of an attempt: each comes back as it was written, but for the
outcome of a report, which has no column of its own. -/

namespace ForgeNode.Orchestration

open List Store
open Section (Meets)

section Values

/-- The columns of an attempt say all of it: their tags are known, and its report has the outcome
that the attempt has, or `done` where the attempt has none. -/
structure Attempt.Encodes (attempt : Attempt) : Prop where
  phase : attempt.phase ≠ .unrecognized
  outcome : attempt.outcome ≠ some .unrecognized
  lostReason : attempt.lostReason ≠ some .unrecognized
  report : ∀ report ∈ attempt.report, report.outcome = attempt.outcome.getD .done

/-- The tags of a task are known. -/
structure Task.Encodes (task : Task) : Prop where
  mode : task.mode ≠ .unrecognized
  status : task.status ≠ .unrecognized

theorem attemptPhase_encodes {phase : AttemptPhase} :
    (∃ tag, attemptPhaseToStr phase = .ok tag) ↔ phase ≠ .unrecognized := by
  cases phase <;> simp [attemptPhaseToStr]

theorem taskStatus_encodes {status : TaskStatus} :
    (∃ tag, taskStatusToStr status = .ok tag) ↔ status ≠ .unrecognized := by
  cases status <;> simp [taskStatusToStr]

theorem taskMode_encodes {mode : WorkMode} : (∃ tag, taskModeToStr mode = .ok tag) ↔
    mode ≠ .unrecognized := by
  cases mode <;> simp [taskModeToStr]

theorem reportOutcome_encodes {outcome : Option ReportOutcome} :
    (∃ tag, transpose reportOutcomeToStr outcome = .ok tag) ↔ outcome ≠ some .unrecognized := by
  cases outcome with
  | none => simp [transpose]
  | some outcome => cases outcome <;> simp [transpose, reportOutcomeToStr, Except.map]

theorem lostReason_encodes {reason : Option LostReason} :
    (∃ tag, transpose lostReasonToStr reason = .ok tag) ↔ reason ≠ some .unrecognized := by
  cases reason with
  | none => simp [transpose]
  | some reason => cases reason <;> simp [transpose, lostReasonToStr, Except.map]

theorem attemptValues_isOk {attempt : Attempt} : (∃ row, attemptValues attempt = .ok row) ↔
    attempt.phase ≠ .unrecognized ∧ attempt.outcome ≠ some .unrecognized ∧
      attempt.lostReason ≠ some .unrecognized := by
  rw [← attemptPhase_encodes, ← reportOutcome_encodes, ← lostReason_encodes]
  constructor
  · rintro ⟨row, encoded⟩
    simp only [attemptValues, bind_eq_ok, pure_eq_ok] at encoded
    obtain ⟨phase, first, outcome, second, reason, third, _⟩ := encoded
    exact ⟨⟨phase, first⟩, ⟨outcome, second⟩, reason, third⟩
  · rintro ⟨⟨phase, first⟩, ⟨outcome, second⟩, reason, third⟩
    simp only [attemptValues, bind_eq_ok, pure_eq_ok]
    exact ⟨_, phase, first, outcome, second, reason, third, rfl⟩

theorem taskValues_isOk {task : Task} : (∃ row, taskValues task = .ok row) ↔ task.Encodes := by
  constructor
  · rintro ⟨row, encoded⟩
    simp only [taskValues, bind_eq_ok, pure_eq_ok] at encoded
    obtain ⟨mode, first, status, second, _⟩ := encoded
    exact ⟨taskMode_encodes.mp ⟨mode, first⟩, taskStatus_encodes.mp ⟨status, second⟩⟩
  · rintro ⟨mode, status⟩
    obtain ⟨mode, first⟩ := taskMode_encodes.mpr mode
    obtain ⟨status, second⟩ := taskStatus_encodes.mpr status
    simp only [taskValues, bind_eq_ok, pure_eq_ok]
    exact ⟨_, mode, first, status, second, rfl⟩

theorem attemptFromRow_eq {attempt : Attempt} {row : AttemptRow}
    (encoded : attemptValues attempt = .ok row) : attemptFromRow row = .ok { attempt with
      report := attempt.report.map fun report =>
        { report with outcome := attempt.outcome.getD .done } } := by
  simp only [attemptValues, bind_eq_ok, pure_eq_ok] at encoded
  obtain ⟨phase, first, outcome, second, reason, third, rfl⟩ := encoded
  simp only [attemptFromRow, transpose_roundTrip reportOutcome_roundTrip second,
    attemptPhase_roundTrip first, transpose_roundTrip lostReason_roundTrip third]
  cases shape : attempt.report with
  | none | some => rfl

/-- An attempt is the one its row is read as exactly when its columns say all of it. -/
theorem attempt_roundTrip_iff {attempt : Attempt} :
    (∃ row, attemptValues attempt = .ok row ∧ attemptFromRow row = .ok attempt) ↔
    attempt.Encodes := by
  constructor
  · rintro ⟨row, encoded, decoded⟩
    obtain ⟨phase, outcome, reason⟩ := attemptValues_isOk.mp ⟨row, encoded⟩
    refine ⟨phase, outcome, reason, fun report there => ?_⟩
    rw [attemptFromRow_eq encoded] at decoded
    have same := congrArg Attempt.report (Except.ok.inj decoded)
    rw [Option.mem_def.mp there] at same
    exact (congrArg AttemptReport.outcome (Option.some.inj same)).symm
  · rintro ⟨phase, outcome, reason, reported⟩
    obtain ⟨row, encoded⟩ := attemptValues_isOk.mpr ⟨phase, outcome, reason⟩
    refine ⟨row, encoded, ?_⟩
    rw [attemptFromRow_eq encoded]
    cases shape : attempt.report with
    | none => rw [Option.map_none, ← shape]
    | some report => rw [Option.map_some, ← reported report shape, ← shape]

theorem attemptPhaseFromStr_known {tag : String} : attemptPhaseFromStr tag ≠ .ok .unrecognized := by
  unfold attemptPhaseFromStr
  split <;> simp

theorem reportOutcomeFromStr_known {tag : String} :
    reportOutcomeFromStr tag ≠ .ok .unrecognized := by
  unfold reportOutcomeFromStr
  split <;> simp

theorem lostReasonFromStr_known {tag : String} : lostReasonFromStr tag ≠ .ok .unrecognized := by
  unfold lostReasonFromStr
  split <;> simp

theorem transpose_eq_some {α β ε : Type} {convert : α → Except ε β} {value : Option α} {result : β}
    (converted : transpose convert value = .ok (some result)) :
    ∃ item, convert item = .ok result := by
  cases value with
  | none => cases converted
  | some item =>
    refine ⟨item, ?_⟩
    cases outcome : convert item with
    | error error => simp [transpose, outcome, Except.map] at converted
    | ok other =>
      simp only [transpose, outcome, Except.map, Except.ok.injEq, Option.some.injEq] at converted
      rw [converted]

/-- What a row is read as is written as it was read. -/
theorem attemptFromRow_encodes {row : AttemptRow} {attempt : Attempt}
    (decoded : attemptFromRow row = .ok attempt) :
    attempt.Encodes := by
  simp only [attemptFromRow, bind_eq_ok, pure_eq_ok] at decoded
  obtain ⟨outcome, first, phase, second, reason, third, rfl⟩ := decoded
  refine ⟨?_, ?_, ?_, ?_⟩
  · rintro rfl
    exact attemptPhaseFromStr_known second
  · rintro rfl
    obtain ⟨_, read⟩ := transpose_eq_some first
    exact reportOutcomeFromStr_known read
  · rintro rfl
    obtain ⟨_, read⟩ := transpose_eq_some third
    exact lostReasonFromStr_known read
  · intro report there
    obtain ⟨summary, _, rfl⟩ := Option.map_eq_some_iff.mp there
    rfl

theorem taskFromRow_encodes {row : TaskRow} {after : List TaskId} {task : Task}
    (decoded : taskFromRow row after = .ok task) : task.Encodes :=
  taskValues_isOk.mp ⟨row, taskValues_fromRow decoded⟩

end Values

section Stored

variable {tables : Tables} {attempt : Attempt} {task : Task}

/-- The row under the attempt's id is read as the attempt, and a list of the attempts has it and no
other under that id. -/
structure StoredAttempt (tables : Tables) (attempt : Attempt) : Prop where
  row : ∃ row ∈ tables.attempts, row.id = attempt.id ∧ attemptFromRow row = .ok attempt
  listed : ∀ list, listAttempts tables = .ok list →
    attempt ∈ list ∧ ∀ other ∈ list, other.id = attempt.id → other = attempt

/-- The same of a task, whose dependencies may come in another order. -/
structure StoredTask (tables : Tables) (task : Task) : Prop where
  row : ∃ row ∈ tables.tasks, row.id = task.id ∧ ∃ after, after.Perm task.after ∧
    taskFromRow row (deps tables row.id) = .ok { task with after }
  listed : ∀ list, listTasks tables = .ok list → ∃ after, after.Perm task.after ∧
    { task with after } ∈ list ∧ ∀ other ∈ list, other.id = task.id → other = { task with after }

theorem StoredAttempt.of_row {row : AttemptRow} (member : row ∈ tables.attempts)
    (decoded : attemptFromRow row = .ok attempt) : StoredAttempt tables attempt := by
  have named := (attemptFromRow_keys decoded).1
  refine ⟨⟨row, member, named.symm, decoded⟩, fun list listed => ?_⟩
  obtain ⟨forth, back⟩ := mem_of_mapM_ok listed
  constructor
  · obtain ⟨value, there, read⟩ := forth row member
    rwa [← Except.ok.inj (decoded.symm.trans read)] at there
  · intro other there same
    obtain ⟨row', member', read⟩ := back other there
    have equal : row' = row :=
      eq_of_key member' member ((attemptFromRow_keys read).1.symm.trans (same.trans named))
    subst equal
    exact Except.ok.inj (read.symm.trans decoded)

/-- The dependencies that the tables have of a task, in whatever order. -/
def depsOf (tables : Tables) (task : TaskId) : List TaskId :=
  (tables.taskDeps.rows.filter fun dep => dep.taskId == task).map (·.afterTaskId)

theorem depsOf_eq_nil (none_ : ∀ dep ∈ tables.taskDeps, dep.taskId ≠ task.id) :
    depsOf tables task.id = [] := by
  rw [depsOf, map_eq_nil_iff, filter_eq_nil_iff]
  exact fun dep there same => none_ dep there (beq_iff_eq.mp same)

theorem StoredTask.of_values {values : TaskRow} (encoded : taskValues task = .ok values)
    (member : values ∈ tables.tasks) (same : depsOf tables task.id = task.after) :
    StoredTask tables task := by
  have decoded := taskFromRow_values (deps tables values.id) encoded
  have named : task.id = values.id := (taskFromRow_keys decoded).1
  have perm : (deps tables values.id).Perm task.after := by
    rw [← named, ← same]
    exact perm_insertionSort _ _
  refine ⟨⟨values, member, named.symm, _, perm, decoded⟩, fun list listed => ⟨_, perm, ?_⟩⟩
  obtain ⟨forth, back⟩ := mem_of_mapM_ok listed
  constructor
  · obtain ⟨value, there, read⟩ := forth values member
    rwa [← Except.ok.inj (decoded.symm.trans read)] at there
  · intro other there equal
    obtain ⟨row, member', read⟩ := back other there
    have rows : row = values :=
      eq_of_key member' member ((taskFromRow_keys read).1.symm.trans (equal.trans named))
    subst rows
    exact Except.ok.inj (read.symm.trans decoded)

/-- Whichever statement writes the attempt, what is stored is the attempt. -/
structure AttemptReturns (tables : Tables) (attempt : Attempt) : Prop where
  encodes : ∃ row, attemptValues attempt = .ok row ∧ attemptFromRow row = .ok attempt
  inserted : ∀ db, (insertAttempt attempt).Meets db fun result after =>
    ∀ done, result = .ok done → StoredAttempt after.tables attempt
  updated : ∀ db, db.tables = tables → (tables.attempts.get? attempt.id).isSome = true →
    (updateAttempt attempt).Meets db fun result after =>
      ∀ done, result = .ok done → StoredAttempt after.tables attempt

/-- Whichever statement writes the task, what is stored is the task; it is inserted where no
dependency of it is left. -/
structure TaskReturns (tables : Tables) (task : Task) : Prop where
  encodes : ∃ row, taskValues task = .ok row ∧ taskFromRow row task.after = .ok task
  inserted : ∀ db, (∀ dep ∈ db.tables.taskDeps, (db.tables.tasks.get? dep.taskId).isSome = true) →
    (insertTask task).Meets db fun result after => ∀ done, result = .ok done →
      StoredTask after.tables task
  updated : ∀ db, db.tables = tables → (tables.tasks.get? task.id).isSome = true →
    (updateTask task).Meets db fun result after => ∀ done, result = .ok done →
      StoredTask after.tables task

/-- An attempt is stored as it is exactly when its columns say all of it, where the row that it is
written over is of the same task and number. -/
theorem attemptReturns_iff (columns : ∀ row ∈ tables.attempts, row.id = attempt.id →
    row.taskId = attempt.taskId ∧ row.n = attempt.n ∧ row.createdAt = attempt.createdAt) :
    AttemptReturns tables attempt ↔ attempt.Encodes := by
  refine ⟨fun returns => attempt_roundTrip_iff.mp returns.encodes, fun encodes => ?_⟩
  obtain ⟨values, encoded, decoded⟩ := attempt_roundTrip_iff.mpr encodes
  refine ⟨⟨values, encoded, decoded⟩, fun db => ?_, ?_⟩
  · refine (execute_meets _ db).mono ?_
    rintro result after meets done rfl
    obtain ⟨_, _, _, inserted⟩ := meets
    simp only [insertAttemptRow, bind_eq_ok, require_eq_ok, pure_eq_ok] at inserted
    obtain ⟨row, written, _, _, _, _, shape⟩ := inserted
    rw [Except.ok.inj (encoded.symm.trans written)] at decoded
    rw [← shape]
    exact .of_row (mem_put.mpr (.inl rfl)) decoded
  · rintro db rfl present
    obtain ⟨old, found⟩ := Option.isSome_iff_exists.mp present
    have there := mem_of_get? found
    have named := key_of_get? found
    refine (updateAttempt_touches attempt db).mono fun result after rewritten done finished => ?_
    obtain ⟨row, member, same, changed, _⟩ := (rewritten done finished).forth old there
    obtain ⟨values', encoded', rfl⟩ := changed named
    obtain ⟨task, n, created⟩ := columns old there named
    obtain rfl := Except.ok.inj (encoded.symm.trans encoded')
    obtain ⟨id', task', n', created'⟩ := attemptFromRow_keys decoded
    refine .of_row member ?_
    rw [named, task, n, created, id', task', n', created']
    exact decoded

theorem insertDep_depsOf {task after : TaskId} {tables last : Tables}
    (inserted : insertDep task after tables = .ok last) :
    last.tasks = tables.tasks ∧ depsOf last task = depsOf tables task ++ [after] := by
  simp only [insertDep, bind_eq_ok, require_eq_ok, pure_eq_ok] at inserted
  obtain ⟨_, unused, _, _, rfl⟩ := inserted
  refine ⟨rfl, ?_⟩
  have new : (⟨task, after⟩ : TaskDep) ∉ tables.taskDeps.keys := by
    intro present
    obtain ⟨dep, there, same⟩ := Store.mem_keys.mp present
    exact get?_eq_none.mp (Option.isNone_iff_eq_none.mp unused) dep there same
  simp [depsOf, Store.put, new, filter_append]

/-- A loop that inserts the dependencies of a task adds them to those that the tables have. -/
theorem insertDeps_meets (task : TaskId) (afters : List TaskId) (db : Database) :
    (Section.each (fun after => execute (insertDep task after)) afters).Meets db fun result last =>
      ∀ done, result = .ok done → last.tables.tasks = db.tables.tasks ∧
        depsOf last.tables task = depsOf db.tables task ++ afters := by
  refine Meets.each (fun coming last => last.tables.tasks = db.tables.tasks ∧
    depsOf last.tables task ++ coming = depsOf db.tables task ++ afters) ⟨rfl, rfl⟩ ?_ ?_
  · rintro after coming before ⟨tasks, kept⟩
    refine (execute_meets _ before).mono ?_
    rintro (error | done) last meets
    · exact fun _ impossible => by cases impossible
    · obtain ⟨same, added⟩ := insertDep_depsOf meets.2.2.2
      refine ⟨same.trans tasks, ?_⟩
      rw [added, append_assoc, singleton_append]
      exact kept
  · rintro last ⟨tasks, kept⟩ _ _
    exact ⟨tasks, by simpa using kept⟩

/-- An update leaves the dependencies of the task, and none that it had before. -/
theorem updateTask_deps (task : Task) (db : Database) :
    (updateTask task).Meets db fun result last => ∀ done, result = .ok done →
    depsOf last.tables task.id = task.after := by
  unfold updateTask
  refine (execute_meets _ db).bind (fun _ _ _ _ impossible => by cases impossible) ?_
  rintro value middle _
  refine (execute_meets _ middle).bind (fun _ _ _ _ impossible => by cases impossible) ?_
  rintro value' cleared ⟨_, _, _, deleted⟩
  have none_ : depsOf cleared.tables task.id = [] := by
    rw [← Except.ok.inj deleted]
    refine depsOf_eq_nil fun dep there same => ?_
    have other := (Store.mem_retain.mp there).2
    simp [same] at other
  refine (insertDeps_meets task.id task.after cleared).mono fun result last kept done finished => ?_
  rw [(kept done finished).2, none_, nil_append]

/-- A task is stored as it is exactly when its tags are known, where the row that it is written over
is of the same run. -/
theorem taskReturns_iff (columns : ∀ row ∈ tables.tasks, row.id = task.id →
    row.runId = task.runId ∧ row.createdAt = task.createdAt) :
    TaskReturns tables task ↔ task.Encodes := by
  constructor
  · rintro ⟨⟨row, encoded, _⟩, _, _⟩
    exact taskValues_isOk.mp ⟨row, encoded⟩
  intro encodes
  obtain ⟨values, encoded⟩ := taskValues_isOk.mpr encodes
  refine ⟨⟨values, encoded, taskFromRow_values task.after encoded⟩, fun db closed => ?_, ?_⟩
  · unfold insertTask
    refine (execute_meets _ db).bind (fun _ _ _ _ impossible => by cases impossible) ?_
    rintro value middle ⟨_, _, _, inserted⟩
    simp only [insertTaskRow, bind_eq_ok, require_eq_ok, pure_eq_ok] at inserted
    obtain ⟨row, written, _, unused, _, _, shape⟩ := inserted
    obtain rfl := Except.ok.inj (encoded.symm.trans written)
    refine (insertDeps_meets task.id task.after middle).mono fun result last kept done finished => ?_
    obtain ⟨tasks, added⟩ := kept done finished
    have none_ : depsOf middle.tables task.id = [] := by
      rw [← shape]
      refine depsOf_eq_nil fun dep there same => ?_
      have present := closed dep there
      rw [same, Option.isNone_iff_eq_none.mp unused] at present
      cases present
    refine .of_values encoded ?_ (by rw [added, none_, nil_append])
    rw [tasks, ← shape]
    exact mem_put.mpr (.inl rfl)
  · rintro db rfl present
    obtain ⟨old, found⟩ := Option.isSome_iff_exists.mp present
    have there := mem_of_get? found
    have named := key_of_get? found
    obtain ⟨run, created⟩ := columns old there named
    refine ((updateTask_touches task db).both (updateTask_deps task db)).mono ?_
    rintro result after ⟨rewritten, kept⟩ done finished
    obtain ⟨row, member, _, changed, _⟩ := (rewritten done finished).forth old there
    obtain ⟨values', encoded', rfl⟩ := changed named
    obtain rfl := Except.ok.inj (encoded.symm.trans encoded')
    obtain ⟨id', run', created'⟩ := taskFromRow_keys (taskFromRow_values task.after encoded)
    rw [named, run, created, id', run', created'] at member
    exact .of_values encoded member (kept done finished)

end Stored

end ForgeNode.Orchestration
