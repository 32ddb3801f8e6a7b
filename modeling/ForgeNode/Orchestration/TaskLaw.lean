import ForgeNode.Orchestration.RunLaw

/-! A task is integrated once it was accepted and keeps a final status, along the runs of the daemon
in which nothing is integrated or reported past its task. -/

namespace ForgeNode.Orchestration

open Store

variable {attempts : Store Attempt.id} {status : TaskStatus}

/-- Only an accepted task is integrated, and no final status changes. -/
structure TaskLaw (before after : Ledger) : Prop where
  enters : ∀ task ∈ after.tasks, task.status = .integrated →
    ∃ old ∈ before.tasks, old.id = task.id ∧ (old.status = .accepted ∨ old.status = .integrated)
  stays : ∀ task ∈ before.tasks, task.status.isFinal = true → ∀ later ∈ after.tasks,
    later.id = task.id → later.status = task.status

/-- What is integrated was accepted, no live attempt of a final task is reported, and a start of the
daemon finds the final tasks stored as they are. -/
structure KeepsFinal (taken : Taken World Event) : Prop where
  integrates : ∀ task ∈ taken.before.inner.ledger.tasks,
    (taken.before.intent taken.event).integrated = some task.id → task.status = .accepted ∨
      task.status = .integrated
  reports : ∀ reporting ∈ (taken.before.intent taken.event).reported,
    ∀ attempt ∈ taken.before.inner.ledger.attempts, attempt.id = reporting.request.attemptId →
      attempt.isLive = true → ∀ task ∈ taken.before.inner.ledger.tasks, task.id = reporting.taskId →
        task.status.isFinal = false
  stored : taken.event.cause.isRestart = true → ∀ row ∈ taken.before.inner.db.tables.tasks,
    ((taskStatusFromStr row.status).toOption = some .integrated →
      ∃ task ∈ taken.before.inner.ledger.tasks.rows, task.id = row.id ∧ (task.status = .accepted ∨
      task.status = .integrated)) ∧
    ∀ task ∈ taken.before.inner.ledger.tasks, task.id = row.id → task.status.isFinal = true →
      (taskStatusFromStr row.status).toOption = some task.status

instance (taken : Taken World Event) : Decidable (KeepsFinal taken) :=
  decidable_of_iff
    ((∀ task ∈ taken.before.inner.ledger.tasks, (taken.before.intent taken.event).integrated =
      some task.id →
        task.status = .accepted ∨ task.status = .integrated) ∧
      (∀ reporting ∈ (taken.before.intent taken.event).reported,
      ∀ attempt ∈ taken.before.inner.ledger.attempts,
        attempt.id = reporting.request.attemptId → attempt.isLive = true →
          ∀ task ∈ taken.before.inner.ledger.tasks, task.id = reporting.taskId →
          task.status.isFinal = false) ∧
      (taken.event.cause.isRestart = true → ∀ row ∈ taken.before.inner.db.tables.tasks,
        ((taskStatusFromStr row.status).toOption = some .integrated →
          ∃ task ∈ taken.before.inner.ledger.tasks.rows, task.id = row.id ∧
          (task.status = .accepted ∨ task.status = .integrated)) ∧
        ∀ task ∈ taken.before.inner.ledger.tasks, task.id = row.id → task.status.isFinal = true →
          (taskStatusFromStr row.status).toOption = some task.status))
    ⟨fun ⟨integrates, reports, stored⟩ => ⟨integrates, reports, stored⟩,
      fun guard => ⟨guard.integrates, guard.reports, guard.stored⟩⟩

section Moves

/-- The status stays, or an open one becomes another than integrated. -/
def Task.keeps (old task : Task) : Prop :=
  task.status = old.status ∨ old.status.isFinal = false ∧ task.status ≠ .integrated

theorem Task.keeps.trans {old row task : Task} (first : old.keeps row) (second : row.keeps task) :
    old.keeps task := by
  rcases first with same | ⟨open_, other⟩
  · unfold Task.keeps at second ⊢
    rwa [same] at second
  · refine .inr ⟨open_, ?_⟩
    rcases second with same' | ⟨_, other'⟩
    · rwa [same']
    · exact other'

/-- What a section makes of a task's status. -/
inductive Moves (intent : Intent) (attempts : Store Attempt.id) (old task : Task) : Prop where
  | kept (keeps : old.keeps task)
  | integrated (intended : intent.integrated = some old.id) (status : task.status = .integrated)
  | reported (reporting : Reporting) (intended : intent.reported = some reporting)
      (named : reporting.taskId = old.id) (live : ∃ attempt ∈ attempts, attempt.id =
        reporting.request.attemptId ∧ attempt.isLive = true)
      (other : task.status ≠ .integrated)

variable {limits : OrchestrationLimits} {now : Timestamp} {fresh : Nat} {intent : Intent}
  {inner after : Inner} {dropped : Option ProjectId}

theorem Moves.promoted {old row task : Task} {siblings : List Task}
    (moves : Moves intent attempts old row) (promotion : Promotion siblings row task) :
    Moves intent attempts old task := by
  rcases promotion with rfl | ⟨⟨_, pending, _⟩, rfl⟩
  · exact moves
  · cases moves with
    | kept keeps => exact .kept (keeps.trans (.inr ⟨by rw [pending]; rfl, by simp⟩))
    | integrated intended status => rw [pending] at status; cases status
    | reported reporting intended named live other =>
      exact .reported reporting intended named live (by simp)

/-- Every task afterwards: moved from one before, or new and open. -/
def MovesFrom (fresh : Nat) (intent : Intent) (attempts : Store Attempt.id)
    (before after : Store Task.id) : Prop :=
  ∀ task ∈ after, (∃ old ∈ before, old.id = task.id ∧ Moves intent attempts old task) ∨
    task.id = fresh ∧ task.status ≠ .integrated

theorem MovesFrom.refl (tasks : Store Task.id) :
    MovesFrom fresh intent attempts tasks tasks :=
  fun task member => .inl ⟨task, member, rfl, .kept (.inl rfl)⟩

theorem MovesFrom.of_rewritten {before after : Store Task.id}
    (rewritten : Store.Rewritten (Moves intent attempts) before after) :
    MovesFrom fresh intent attempts before after := by
  intro task member
  obtain ⟨old, there, named, moves⟩ := rewritten.back task member
  exact .inl ⟨old, there, named, moves⟩

theorem modify_moves {before : Store Task.id} {id : TaskId} {update : Task → Task}
    {keeps : ∀ task, (update task).id = task.id}
    (moves : ∀ task ∈ before, task.id = id → Moves intent attempts task (update task)) :
    Store.Rewritten (Moves intent attempts) before (before.modify id update keeps) :=
  .of_modify moves fun _ _ _ => .kept (.inl rfl)

theorem promotes {before middle after : Store Task.id} {siblings : List Task}
    (first : Store.Rewritten (Moves intent attempts) before middle)
    (promoted : Store.Rewritten (Promotion siblings) middle after) :
    Store.Rewritten (Moves intent attempts) before after :=
  first.trans promoted fun _ _ _ _ _ _ moves promotion => moves.promoted promotion

theorem inProgress_open (moving : status.inProgress = true) : status.isFinal = false := by
  cases status <;> first | rfl | cases moving

theorem afterLoss_ne (attemptsUsed maxAttempts : Nat) :
    taskStatusAfterLoss attemptsUsed maxAttempts ≠ .integrated := by
  rcases taskStatusAfterLoss_eq attemptsUsed maxAttempts with status | status <;> simp [status]

theorem afterReport_ne (outcome : ReportOutcome) (attemptsUsed maxAttempts : Nat) :
    taskStatusAfterReport outcome attemptsUsed maxAttempts ≠ .integrated := by
  rcases taskStatusAfterReport_eq outcome attemptsUsed maxAttempts with status | status | status
    <;> simp [status]

theorem Task.loseAttempt_moves (maxAttempts : Nat) (now : Timestamp) (task : Task) :
    task.keeps (task.loseAttempt maxAttempts now) := by
  unfold Task.loseAttempt
  split
  case isTrue moving => exact .inr ⟨inProgress_open moving, afterLoss_ne _ _⟩
  case isFalse => exact .inl rfl

/-- A removal keeps what is final. -/
theorem Removal.moves (removal : Removal dropped inner after) :
    ∀ task ∈ after.ledger.tasks, ∃ old ∈ inner.ledger.tasks, old.id = task.id ∧ old.keeps task := by
  cases removal with
  | still left =>
    rw [left.tasks]
    exact fun task member => ⟨task, member, rfl, .inl rfl⟩
  | session session now ledger =>
    rw [ledger]
    intro task member
    obtain ⟨old, there, rfl⟩ := Ledger.tasks_forgetSession.mp member
    refine ⟨old, there, ?_⟩
    split
    · refine ⟨?_, old.loseAttempt_moves _ _⟩
      unfold Task.loseAttempt
      split <;> rfl
    · exact ⟨rfl, .inl rfl⟩
  | workspace workspace ledger =>
    rw [ledger]
    exact fun task member => ⟨task, member, rfl, .inl rfl⟩
  | project project intended ledger =>
    rw [ledger]
    exact fun task member => ⟨task, (Store.mem_retain.mp member).1, rfl, .inl rfl⟩

theorem Removal.moves_chain (chain : Relation.ReflTransGen (Removal dropped) inner after) :
    ∀ task ∈ after.ledger.tasks, ∃ old ∈ inner.ledger.tasks, old.id = task.id ∧ old.keeps task := by
  induction chain with
  | refl => exact fun task member => ⟨task, member, rfl, .inl rfl⟩
  | tail _ removal ih =>
    intro task member
    obtain ⟨middle, there, named, keeps⟩ := removal.moves task member
    obtain ⟨old, held, named', keeps'⟩ := ih middle there
    exact ⟨old, held, named'.trans named, keeps'.trans keeps⟩

theorem decided_open (decided : status = .review ∨ status = .blocked) :
    status.isFinal = false := by
  rcases decided with rfl | rfl <;> rfl

theorem startable_open (may : status.startable = true) : status.isFinal = false := by
  cases status <;> first | rfl | cases may

theorem Effect.movesFrom (effect : Effect limits now fresh intent inner after) :
    MovesFrom fresh intent inner.ledger.attempts inner.ledger.tasks after.ledger.tasks := by
  have still {runs attempts} (left : Leaves inner after runs inner.ledger.tasks attempts) :
      MovesFrom fresh intent inner.ledger.attempts inner.ledger.tasks after.ledger.tasks := by
    rw [left.tasks]
    exact .refl _
  -- The task that a section looked up is the one it writes.
  have alone {task : Task} (found : inner.ledger.tasks.get? task.id = some task)
      (open_ : task.status.isFinal = false) {update : Task → Task}
      (other : ∀ row, (update row).status ≠ .integrated) :
      ∀ row ∈ inner.ledger.tasks, row.id = task.id →
      Moves intent inner.ledger.attempts row (update row) := by
    intro row member named
    rw [eq_of_key member (mem_of_get? found) named]
    exact .kept (.inr ⟨open_, other task⟩)
  cases effect with
  | still left | opened _ _ _ left | briefed _ _ left | closed _ _ left | resumed _ _ _ left =>
    exact still left
  | created task named unused status mode left =>
    rw [left.tasks]
    intro other member
    rcases mem_put.mp member with rfl | ⟨there, _⟩
    · exact .inr ⟨named, by rcases status with e | e <;> rw [e] <;> simp⟩
    · exact .inl ⟨other, there, rfl, .kept (.inl rfl)⟩
  | stranded _ _ _ may _ left | started _ _ may same _ _ _ left =>
    rw [left.tasks]
    exact .of_rewritten (modify_moves (alone may.found (startable_open may.startable) fun _ same =>
      (by cases same)))
  | reported reporting report attempt found live newest own intended left =>
    rw [left.tasks]
    refine .of_rewritten (modify_moves fun task member named => ?_)
    exact .reported reporting intended named.symm
      ⟨attempt, mem_of_get? found, key_of_get? found, live⟩ (afterReport_ne _ _ _)
  | accepted task found status intended tasks promoted left =>
    rw [left.tasks]
    refine .of_rewritten (promotes (modify_moves ?_) promoted)
    exact alone found (decided_open status) fun _ same => (by cases same)
  | reopened _ _ found status _ _ _ _ left | exhausted _ found status left
  | retried _ _ found status _ _ left =>
    rw [left.tasks]
    exact .of_rewritten (modify_moves (alone found (decided_open status) fun _ same =>
      (by cases same)))
  | cancelled task found status left =>
    rw [left.tasks]
    exact .of_rewritten (modify_moves (alone found status fun _ same => (by cases same)))
  | integrated commit task found intended tasks promoted attempts marked left =>
    rw [left.tasks]
    refine .of_rewritten (promotes (modify_moves fun row member named => ?_) promoted)
    exact .integrated (named ▸ intended) rfl
  | answered done intended tasks turned attempts back left =>
    rw [left.tasks]
    intro task member
    obtain ⟨old, there, named, answers⟩ := turned.back task member
    refine .inl ⟨old, there, named, .kept ?_⟩
    by_cases handed : ∃ attempt ∈ done, attempt.taskId = old.id
    · obtain ⟨attempt, inside, same⟩ := handed
      obtain ⟨_, _, _, _, blocked⟩ := intended attempt inside
      have status : old.status = .blocked := by
        have row : inner.ledger.tasks.get? old.id = some old := get?_eq_some.mpr ⟨there, rfl⟩
        rw [same, Ledger.taskStatus, row] at blocked
        exact Option.some.inj blocked
      have active := (answers.2.2.2.1 ⟨attempt, inside, same⟩).1
      exact .inr ⟨by rw [status]; rfl, by rw [active]; simp⟩
    · have same := answers.2.2.2.2 fun attempt inside named => handed ⟨attempt, inside, named⟩
      exact .inl (by rw [same])
  | exited session attempt member names live left =>
    rw [left.tasks]
    exact .of_rewritten (modify_moves fun task _ _ => .kept (task.loseAttempt_moves _ _))
  | removed chain =>
    intro task member
    obtain ⟨old, there, named, keeps⟩ := Removal.moves_chain chain task member
    exact .inl ⟨old, there, named, .kept keeps⟩
  | posted _ _ _ _ _ ledger | joined _ _ _ ledger | moved _ _ _ _ _ _ ledger =>
    rw [ledger]
    exact .refl _

end Moves

section Law

variable {platform : Platform} {limits : OrchestrationLimits} {before : World} {event : Event}

theorem reconcileTask_status (lost : List TaskId) (limits : OrchestrationLimits) (now : Timestamp)
    (task : Task) : task.keeps (reconcileTask lost limits now task) := by
  unfold reconcileTask
  split
  case isTrue moving =>
    exact .inr ⟨inProgress_open (Bool.and_eq_true_iff.mp moving).2, afterLoss_ne _ _⟩
  case isFalse => exact .inl rfl

theorem taskFromRow_status {row : TaskRow} {after : List TaskId} {task : Task}
    (decoded : taskFromRow row after = .ok task) :
    (taskStatusFromStr row.status).toOption = some task.status := by
  simp only [taskFromRow, bind_eq_ok, pure_eq_ok] at decoded
  obtain ⟨mode, _, status, read, rfl⟩ := decoded
  rw [read]
  rfl

theorem TaskLaw.of_moves {after : Ledger} {intent : Intent} {fresh : Nat}
    (from_ : MovesFrom fresh intent before.inner.ledger.attempts before.inner.ledger.tasks
      after.tasks)
    (new : ∀ task ∈ before.inner.ledger.tasks, task.id ≠ fresh)
    (integrates : ∀ task ∈ before.inner.ledger.tasks, intent.integrated = some task.id →
      task.status = .accepted ∨ task.status = .integrated)
    (reports : ∀ reporting ∈ intent.reported, ∀ attempt ∈ before.inner.ledger.attempts,
      attempt.id = reporting.request.attemptId → attempt.isLive = true →
      ∀ task ∈ before.inner.ledger.tasks,
        task.id = reporting.taskId → task.status.isFinal = false) :
    TaskLaw before.inner.ledger after := by
  constructor
  · intro task member status
    rcases from_ task member with ⟨old, there, named, moves⟩ | ⟨_, other⟩
    · refine ⟨old, there, named, ?_⟩
      cases moves with
      | kept keeps =>
        rcases keeps with same | ⟨_, other⟩
        · exact .inr (same.symm.trans status)
        · exact absurd status other
      | integrated intended _ => exact integrates old there intended
      | reported _ _ _ _ other => exact absurd status other
    · exact absurd status other
  · intro task member final later there same
    rcases from_ later there with ⟨old, held, named, moves⟩ | ⟨drawn, _⟩
    · have equal : old = task := eq_of_key held member (named.trans same)
      subst equal
      cases moves with
      | kept keeps =>
        rcases keeps with same | ⟨open_, _⟩
        · exact same
        · rw [final] at open_
          cases open_
      | integrated intended status =>
        rcases integrates old held intended with accepted | integrated
        · rw [accepted] at final
          cases final
        · exact status.trans integrated.symm
      | reported reporting intended task live _ =>
        obtain ⟨attempt, inside, id, live⟩ := live
        rw [reports reporting intended attempt inside id live old held task.symm] at final
        cases final
    · exact absurd (same.symm.trans drawn) (new task member)

theorem TaskLaw.of_step (allowed : before.Allows event)
    (guard : KeepsFinal ⟨before, event, before.step platform limits event⟩) :
    TaskLaw before.inner.ledger (before.step platform limits event).inner.ledger := by
  have transition : Transition platform limits before event _ := step_transition allowed
  cases transition with
  | acted up effect calls under few arise =>
    exact .of_moves effect.movesFrom (fun task member => (allowed.unused.2.1 task member).1)
      guard.integrates guard.reports
  | reordered runs tasks attempts board sessions stored calls =>
    refine ⟨fun task member status => ?_, fun task member final later there same => ?_⟩
    · exact ⟨task, (tasks task).mp member, rfl, .inr status⟩
    · rw [eq_of_key ((tasks later).mp there) member same]
  | restarted persistHistory cause loaded calls =>
    obtain ⟨attempts, _, read⟩ := loaded.tasks
    have stored := guard.stored (by rw [cause]; rfl)
    refine ⟨fun task member status => ?_, fun task member final later there same => ?_⟩
    · obtain ⟨row, held, old, deps', decoded, rfl⟩ := read task member
      have named : row.id = (reconcileTask (lostTasks attempts) limits event.now old).id :=
        (taskFromRow_keys decoded).1.symm.trans (reconcileTask_keys _ old).1.symm
      have kept : old.status = .integrated := by
        rcases reconcileTask_status (lostTasks attempts) limits event.now old with same | ⟨_, other⟩
        · exact same.symm.trans status
        · exact absurd status other
      obtain ⟨task, there, id, was⟩ := (stored row held).1 (by rw [taskFromRow_status decoded, kept])
      exact ⟨task, there, id.trans named, was⟩
    · obtain ⟨row, held, old, deps', decoded, rfl⟩ := read later there
      have named : task.id = row.id :=
        same.symm.trans ((reconcileTask_keys _ old).1.trans (taskFromRow_keys decoded).1)
      have status := (stored row held).2 task member named final
      rw [taskFromRow_status decoded] at status
      have equal : old.status = task.status := Option.some.inj status
      rcases reconcileTask_status (lostTasks attempts) limits event.now old with same | ⟨open_, _⟩
      · exact same.trans equal
      · rw [equal, final] at open_
        cases open_
  | down ledger sessions calls up =>
    rw [ledger]
    refine ⟨fun task member status => ⟨task, member, rfl, .inr status⟩,
      fun task member final later there same => ?_⟩
    rw [eq_of_key there member same]

theorem task_law_of_keepsFinal {steps : List (Taken World Event)} {last : World}
    (run : ForgeNode.Run (World.Step platform limits) (World.initial limits) steps last)
    (guards : ∀ taken ∈ steps, KeepsFinal taken) :
    ∀ taken ∈ steps, TaskLaw taken.before.inner.ledger taken.after.inner.ledger := by
  rintro ⟨before, event, after⟩ member
  obtain ⟨allowed, shape⟩ := run.step_of_mem member
  dsimp only at shape
  subst shape
  exact .of_step allowed (guards _ member)

/-- A task is accepted and integrated, and the daemon starts again. -/
def integratedThenRestarted : List Cause :=
  opening ++ [newTask .write []] ++ startTask 104 ++ reportFrom 106 107 .done ++
    [decideOn 104 3 (.accept none), .request (.integrateTask ⟨none, 104, .continue⟩),
      .advance 0 .proceed, .advance 0 (.finished none), .advance 0 .proceed, .restart true]

theorem task_law_of_keepsFinal_integrated :
    (∃ task ∈ (reached integratedThenRestarted).inner.ledger.tasks.rows, task.status =
      .integrated) ∧
      ∀ taken ∈ stepsTo integratedThenRestarted,
      TaskLaw taken.before.inner.ledger taken.after.inner.ledger :=
  ⟨by decide +kernel, task_law_of_keepsFinal (run_of_admitted (by decide +kernel)) (by decide +kernel)⟩

/-- A task in a state of its own when the sequencer of its run finishes. -/
def continuedAfter (decisions : List Cause) : List Cause :=
  opening ++ [newTask .write []] ++ decisions ++
    [.request (.integrateTask ⟨none, 104, .continue⟩), .advance 0 .proceed, .advance 0
      (.finished none)]

theorem not_task_law : (¬ ∀ platform limits steps last,
    ForgeNode.Run (World.Step platform limits) (World.initial limits) steps last →
      ∀ taken ∈ steps, ∀ task ∈ taken.after.inner.ledger.tasks, task.status = .integrated →
        ∃ old ∈ taken.before.inner.ledger.tasks, old.id = task.id ∧
          (old.status = .accepted ∨ old.status = .integrated)) ∧
    ¬ ∀ platform limits steps last,
      ForgeNode.Run (World.Step platform limits) (World.initial limits) steps last →
        ∀ taken ∈ steps, ∀ task ∈ taken.before.inner.ledger.tasks, task.status.isFinal = true →
          ∀ later ∈ taken.after.inner.ledger.tasks, later.id = task.id →
          later.status = task.status := by
  constructor
  · intro always
    have ready : ∃ taken ∈ stepsTo (continuedAfter []), ∃ task ∈ taken.after.inner.ledger.tasks.rows,
        task.status = .integrated ∧ ∀ old ∈ taken.before.inner.ledger.tasks,
          old.id = task.id → old.status = .ready := by
      decide +kernel
    obtain ⟨taken, member, task, there, integrated, was⟩ := ready
    obtain ⟨old, held, named, status⟩ :=
      always plain .default _ _ (run_of_admitted (by decide +kernel)) taken member task
      there integrated
    rw [was old held named] at status
    rcases status with e | e <;> cases e
  · intro always
    have cancelled : ∃ taken ∈ stepsTo (continuedAfter [decideOn 104 1 (.cancel false)]),
        ∃ task ∈ taken.before.inner.ledger.tasks.rows, task.status = .cancelled ∧
          ∃ later ∈ taken.after.inner.ledger.tasks.rows, later.id = task.id ∧
          later.status = .integrated := by
      decide +kernel
    obtain ⟨taken, member, task, there, status, later, held, same, integrated⟩ := cancelled
    have kept := always plain .default _ _ (run_of_admitted (by decide +kernel)) taken member task
      there (by rw [status]; rfl) later held same
    rw [integrated, status] at kept
    cases kept

end Law

end ForgeNode.Orchestration
