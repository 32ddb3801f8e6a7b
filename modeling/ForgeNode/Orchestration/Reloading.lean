import ForgeNode.Orchestration.Mirroring
import ForgeNode.Orchestration.Startup

/-! What a restart makes of coherent books, and what comes up from them. -/

namespace ForgeNode.Orchestration

open Store

open Section (Meets Preserves)

section Lost

variable {maxAttempts : Nat} {before after : Books}

/-- What a restart leaves of an attempt. -/
def AttemptEntry.ended (entry : AttemptEntry) : AttemptEntry :=
  { entry with phase := if entry.isLive then some .lost else entry.phase }

/-- What a restart leaves of a task, with a live attempt or without. -/
def TaskEntry.Ended (live : Prop) (old new : TaskEntry) : Prop :=
  new.used = old.used ∧ (live → old.status = some .active → new.status = some .failed ∨
    new.status = some .ready) ∧ (¬ live → new.status = old.status)

theorem AttemptEntry.ended_live (entry : AttemptEntry) : entry.ended.isLive = false := by
  unfold ended isLive
  split
  · rfl
  · rename_i idle
    exact Bool.eq_false_iff.mpr idle

theorem AttemptEntry.ended_over {entry : AttemptEntry} (past : entry.isOver = true) :
    entry.ended.isOver = true := by
  unfold ended isOver at *
  split
  · rfl
  · exact past

/-- A restart leaves the books coherent. -/
theorem Coherent.restarted (coherent : Coherent maxAttempts before)
    (attempts : ∀ id, after.attempts id = (before.attempts id).map AttemptEntry.ended)
    (back : ∀ {id new}, after.tasks id = some new → ∃ old, before.tasks id = some old ∧
      TaskEntry.Ended
      (∃ name attempt, before.attempts name = some attempt ∧ attempt.task = id ∧ attempt.isLive =
        true) old new)
    (forth : ∀ {id old}, before.tasks id = some old → ∃ new, after.tasks id = some new) :
    Coherent maxAttempts after := by
  have was {id : AttemptId} {attempt : AttemptEntry} (held : after.attempts id = some attempt) :
      ∃ old, before.attempts id = some old ∧ attempt = old.ended := by
    rw [attempts] at held
    obtain ⟨old, there, rfl⟩ := Option.map_eq_some_iff.mp held
    exact ⟨old, there, rfl⟩
  have now_ {id : AttemptId} {old : AttemptEntry} (held : before.attempts id = some old) :
      after.attempts id = some old.ended := by
    rw [attempts, held]
    rfl
  -- All attempts of a task with a live one are over afterwards.
  have gone {id : AttemptId} {live : AttemptEntry} (held : before.attempts id = some live)
      (isLive : live.isLive = true) {other : AttemptId} {old : AttemptEntry}
      (there : before.attempts other = some old) (same : old.task = live.task) :
      old.ended.isOver = true := by
    have open_ : live.isOver = false := by
      cases phase : live.phase with
      | none => simp [AttemptEntry.isOver, phase]
      | some phase' =>
        simp only [AttemptEntry.isLive, AttemptEntry.isOver, phase, Option.any_some] at isLive ⊢
        cases phase' <;> first | rfl | cases isLive
    rcases Nat.lt_trichotomy old.n live.n with earlier | equal | newer
    · exact AttemptEntry.ended_over (coherent.older there held same earlier)
    · obtain rfl := coherent.distinct there held same equal
      obtain rfl : old = live := Option.some.inj (there.symm.trans held)
      unfold AttemptEntry.ended AttemptEntry.isOver
      rw [if_pos isLive]
      rfl
    · rw [coherent.older held there same.symm newer] at open_
      cases open_
  refine ⟨?_, ?_, ?_, ?_, ?_, ?_, ?_⟩
  · intro id attempt held
    obtain ⟨old, there, rfl⟩ := was held
    obtain ⟨task, owner⟩ := coherent.owned there
    exact forth owner
  · intro id task held
    obtain ⟨old, there, used, _⟩ := back held
    rw [used]
    exact coherent.budget there
  · intro id task held n
    obtain ⟨old, there, used, _⟩ := back held
    rw [used, coherent.numbered there n]
    constructor
    · rintro ⟨name, attempt, stored, of_, number⟩
      exact ⟨name, _, now_ stored, of_, number⟩
    · rintro ⟨name, attempt, stored, of_, number⟩
      obtain ⟨former, stood, rfl⟩ := was stored
      exact ⟨name, former, stood, of_, number⟩
  · intro first second one other held held' same number
    obtain ⟨old, there, rfl⟩ := was held
    obtain ⟨old', there', rfl⟩ := was held'
    exact coherent.distinct there there' same number
  · intro first second one other held held' same newer
    obtain ⟨old, there, rfl⟩ := was held
    obtain ⟨old', there', rfl⟩ := was held'
    exact AttemptEntry.ended_over (coherent.older there there' same newer)
  · intro id task held startable name attempt held' of_
    obtain ⟨old, there, _, _, still⟩ := back held
    obtain ⟨former, stood, rfl⟩ := was held'
    by_cases live : ∃ name attempt, before.attempts name = some attempt ∧ attempt.task = id ∧
      attempt.isLive = true
    · obtain ⟨other, running, stored, owner, isLive⟩ := live
      exact gone stored isLive stood (of_.trans owner.symm)
    · refine AttemptEntry.ended_over (coherent.free there ?_ stood of_)
      unfold TaskEntry.startable at startable ⊢
      rwa [still live] at startable
  · intro id task held
    obtain ⟨old, there, _, lost, still⟩ := back held
    constructor
    · intro active
      by_cases live : ∃ name attempt, before.attempts name = some attempt ∧ attempt.task = id ∧
        attempt.isLive = true
      · rcases lost live ((coherent.active there).mpr live) with failed | ready
        · cases failed.symm.trans active
        · cases ready.symm.trans active
      · exact absurd ((coherent.active there).mp ((still live).symm.trans active)) live
    · rintro ⟨name, attempt, stored, of_, live⟩
      obtain ⟨former, _, rfl⟩ := was stored
      rw [AttemptEntry.ended_live] at live
      cases live

end Lost

section Stored

variable {limits : OrchestrationLimits} {now : Timestamp} {before after : Tables}

theorem attemptRow_decoded {row : AttemptRow} {attempt : Attempt}
    (decoded : attemptFromRow row = .ok attempt) : row.entry = attempt.entry := by
  simp only [attemptFromRow, bind_eq_ok, pure_eq_ok] at decoded
  obtain ⟨_, _, phase, tag, _, _, rfl⟩ := decoded
  simp only [AttemptRow.entry, Attempt.entry, tag]
  rfl

theorem taskRow_decoded {row : TaskRow} {deps' : List TaskId} {task : Task}
    (decoded : taskFromRow row deps' = .ok task) : row.entry = task.entry := by
  simp only [taskFromRow, bind_eq_ok, pure_eq_ok] at decoded
  obtain ⟨_, _, status, tag, rfl⟩ := decoded
  simp only [TaskRow.entry, Task.entry, tag]
  rfl

theorem reconcileAttempt_entry (attempt : Attempt) :
    (reconcileAttempt now attempt).entry = attempt.entry.ended := by
  unfold reconcileAttempt AttemptEntry.ended
  have same : attempt.entry.isLive = attempt.isLive := rfl
  rw [same]
  split <;> rfl

theorem mem_lostTasks {attempts : List Attempt} {id : TaskId} :
    (lostTasks attempts).contains id = true ↔ ∃ attempt ∈ attempts, attempt.taskId = id ∧
    attempt.isLive = true := by
  unfold lostTasks
  rw [List.contains_iff_mem, List.mem_map]
  constructor
  · rintro ⟨attempt, kept, named⟩
    obtain ⟨member, live⟩ := List.mem_filter.mp kept
    exact ⟨attempt, member, named, live⟩
  · rintro ⟨attempt, member, named, live⟩
    exact ⟨attempt, List.mem_filter.mpr ⟨member, live⟩, named⟩

theorem reconcileTask_entry {attempts : List Attempt} (task : Task) : TaskEntry.Ended
    (∃ attempt ∈ attempts, attempt.taskId = task.id ∧ attempt.isLive = true) task.entry
    (reconcileTask (lostTasks attempts) limits now task).entry := by
  unfold reconcileTask
  split
  · rename_i lost
    obtain ⟨listed, _⟩ := Bool.and_eq_true_iff.mp lost
    refine ⟨rfl, fun _ _ => ?_, fun none_ => absurd (mem_lostTasks.mp listed) none_⟩
    exact (taskStatusAfterLoss_eq task.attemptsUsed limits.maxAttemptsPerTask).imp (congrArg some)
      (congrArg some)
  · rename_i kept
    refine ⟨rfl, fun live active => ?_, fun _ => rfl⟩
    have status : task.status = .active := Option.some.inj active
    exact absurd (Bool.and_eq_true_iff.mpr ⟨mem_lostTasks.mpr live, by rw [status]; rfl⟩) kept

/-- What startup writes keeps the stored books coherent. -/
theorem Reconciled.coherent (reconciled : Reconciled limits now before after)
    (coherent : Coherent limits.maxAttemptsPerTask before.books) :
    Coherent limits.maxAttemptsPerTask after.books := by
  obtain ⟨attempts, listed, tasks⟩ := reconciled.tasks
  obtain ⟨forth, back⟩ := mem_of_mapM_ok listed
  refine coherent.restarted (fun id => rewritten_entries _ reconciled.attempts ?_ id) ?_ ?_
  · rintro old _ row _ ⟨attempt, decoded, encoded⟩
    rw [attemptRow_entry encoded, attemptRow_decoded decoded, reconcileAttempt_entry]
  · intro id new held
    obtain ⟨row, stored, rfl⟩ := Option.map_eq_some_iff.mp held
    obtain ⟨member, rfl⟩ := get?_eq_some.mp stored
    obtain ⟨old, there, named, task, decoded, encoded⟩ := tasks.back row member
    refine ⟨old.entry, Option.map_eq_some_iff.mpr ⟨old, get?_eq_some.mpr ⟨there, named⟩, rfl⟩,
      ?_⟩
    have ended := @reconcileTask_entry limits now attempts task
    have live : (∃ attempt ∈ attempts, attempt.taskId = task.id ∧ attempt.isLive = true) ↔
        ∃ name attempt, before.books.attempts name = some attempt ∧ attempt.task = row.id ∧
        attempt.isLive = true := by
      rw [(taskFromRow_keys decoded).1, named]
      constructor
      · rintro ⟨attempt, kept, of_, live⟩
        obtain ⟨stored, held, read⟩ := back attempt kept
        refine ⟨stored.id, stored.entry, Option.map_eq_some_iff.mpr ⟨stored, get?_of_mem held,
          rfl⟩, ?_⟩
        rw [attemptRow_decoded read]
        exact ⟨of_, live⟩
      · rintro ⟨name, entry, found, of_, live⟩
        obtain ⟨stored, held, rfl⟩ := Option.map_eq_some_iff.mp found
        obtain ⟨attempt, kept, read⟩ := forth stored (mem_of_get? held)
        rw [attemptRow_decoded read] at of_ live
        exact ⟨attempt, kept, of_, live⟩
    rw [taskRow_decoded decoded, taskRow_entry encoded, ← live]
    exact ended
  · intro id old held
    obtain ⟨row, stored, rfl⟩ := Option.map_eq_some_iff.mp held
    obtain ⟨member, rfl⟩ := get?_eq_some.mp stored
    obtain ⟨new, there, named, _⟩ := tasks.forth row member
    exact ⟨new.entry, Option.map_eq_some_iff.mpr ⟨new, get?_eq_some.mpr ⟨there, named⟩, rfl⟩⟩

end Stored

section Load

variable {limits : OrchestrationLimits} {now : Timestamp} {before after : Tables}

theorem Detached.books (detached : Detached before after) : after.books = before.books := by
  refine Books.ext ?_ ?_ ?_
  · funext name
    refine (rewritten_entries (fun entry => entry) detached.runs ?_ name).trans Option.map_id'
    rintro old _ row _ ⟨controller, rfl⟩
    rfl
  · unfold Tables.books
    rw [detached.tasks]
  · funext name
    refine (rewritten_entries (fun entry => entry) detached.attempts ?_ name).trans Option.map_id'
    rintro old _ row _ (rfl | rfl) <;> rfl

/-- A map loaded from a table has the entries of its rows. -/
theorem loaded_entries {Row Value κ ε : Type} [DecidableEq κ] {key : Row → κ} {rows : Store key}
    {name : Value → κ} {decode : Row → Except DbError Value} {list : List Value} {entry : Value → ε}
    {stored : Row → ε} (listed : rows.rows.mapM decode = .ok list)
    (keys : ∀ {row value}, decode row = .ok value → name value = key row)
    (entries : ∀ {row value}, decode row = .ok value → stored row = entry value) :
    (fun id => ((collect name list).get? id).map entry) = fun id => (rows.get? id).map stored := by
  funext id
  cases held : rows.get? id with
  | none =>
    cases loaded : (collect name list).get? id with
    | none => rfl
    | some value =>
      obtain ⟨member, named⟩ := get?_eq_some.mp loaded
      obtain ⟨row, there, decoded⟩ := (mem_loaded listed keys).mp member
      exact absurd ((keys decoded).symm.trans named) (get?_eq_none.mp held row there)
  | some row =>
    obtain ⟨member, rfl⟩ := get?_eq_some.mp held
    obtain ⟨value, _, decoded⟩ := (mem_of_mapM_ok listed).1 row member
    have there : value ∈ collect name list := (mem_loaded listed keys).mpr ⟨row, member, decoded⟩
    rw [get?_eq_some.mpr ⟨there, keys decoded⟩]
    exact congrArg some (entries decoded).symm

theorem loadLedger_books {tables : Tables} {ledger : Ledger}
    (loaded : loadLedger limits tables = .ok ledger) : ledger.books = tables.books := by
  simp only [loadLedger, bind_eq_ok, pure_eq_ok] at loaded
  obtain ⟨runs, first, tasks, second, attempts, third, rfl⟩ := loaded
  refine Books.ext ?_ ?_ ?_
  · exact loaded_entries first (fun decoded => (runFromRow_keys decoded).1) fun decoded =>
      (runFromRow_keys decoded).2.1.symm
  · exact loaded_entries second (fun decoded => (taskFromRow_keys decoded).1) taskRow_decoded
  · exact loaded_entries third (fun decoded => (attemptFromRow_keys decoded).1) attemptRow_decoded

/-- Startup's statement fails on a row it cannot read and leaves everything, or is counted. -/
theorem reconcileStartup_counted (db : Database) :
    (reconcileStartup limits now).Meets db fun result after =>
    match result with
    | .ok _ => after.failures = db.failures
    | .error _ => after = db ∨ db.failures < after.failures := by
  unfold reconcileStartup
  refine Meets.check_bind (fun _ _ => .inl rfl) fun listed _ => ?_
  obtain ⟨runs, tasks, attempts⟩ := listed
  dsimp only
  split
  · exact Meets.pure rfl
  · have counted : Counted (do
        Section.each updateRun (reconcileRestart runs tasks attempts limits now).runs
        Section.each updateTask (reconcileRestart runs tasks attempts limits now).tasks
        Section.each updateAttempt (reconcileRestart runs tasks attempts limits now).attempts) :=
      counted_bind (counted_each counted_updateRun) fun _ =>
      counted_bind (counted_each counted_updateTask) fun _ =>
        counted_each counted_updateAttempt
    refine (counted db).mono fun result after meets => ?_
    cases result with
    | ok done => exact meets
    | error error => exact .inr meets

theorem loadDaemon_books {persistHistory : Bool} {inner : Inner} :
    (loadDaemon limits persistHistory now).Meets inner fun result after => match result with
      | .ok _ => after.db.tables.books = after.ledger.books
      | .error _ => after.ledger = inner.ledger := by
  unfold loadDaemon
  refine Handler.persist_bind_of (reconcileStartup_meets inner.db) (fun _ _ _ => rfl) fun db _ => ?_
  refine Handler.persist_bind_of (execute_meets _ _) (fun _ _ _ => rfl) fun db' _ => ?_
  refine Meets.check_bind (fun _ _ => rfl) fun ledger read => Meets.change ?_
  exact (loadLedger_books (mapError_eq_ok.mp read)).symm

/-- A start that loses no write leaves what is stored coherent. -/
theorem loadDaemon_coherent {persistHistory : Bool} {inner : Inner}
    (coherent : Coherent limits.maxAttemptsPerTask inner.db.tables.books) :
    (loadDaemon limits persistHistory now).Meets inner fun _ after =>
    after.db.failures = inner.db.failures →
      Coherent limits.maxAttemptsPerTask after.db.tables.books := by
  unfold loadDaemon
  refine Handler.persist_bind_of ((reconcileStartup_meets inner.db).both
    (reconcileStartup_counted inner.db)) (fun error db failed quiet => ?_) fun db passed => ?_
  · rcases failed.2 with same | less
    · exact same ▸ coherent
    · exact absurd quiet (Nat.ne_of_gt less)
  have reconciled : Coherent limits.maxAttemptsPerTask db.tables.books :=
    (passed.1 ⟨⟩ rfl).coherent coherent
  have still : db.failures = inner.db.failures := passed.2
  refine Handler.persist_bind_of (execute_meets _ _) (fun error db' failed quiet => ?_)
    fun db' settled => ?_
  · have more : db'.failures = db.failures + 1 := failed.2.1
    have quiet : db'.failures = inner.db.failures := quiet
    omega
  have stored : Coherent limits.maxAttemptsPerTask db'.tables.books := by
    rw [(settleSessions_ok settled.2.2.2).books]
    exact reconciled
  exact Meets.check_bind (fun _ _ _ => stored) fun ledger read => Meets.change fun _ => stored

end Load

end ForgeNode.Orchestration
