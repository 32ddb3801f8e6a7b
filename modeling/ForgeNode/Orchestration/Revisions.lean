import ForgeNode.Orchestration.Rails

/-! Decisions are compare-and-set: what a task's revision says of its status, as long as the
daemon stays up and no project is removed. -/

namespace ForgeNode.Orchestration

open List Store
open Section (Meets Preserves)

variable {request : DecideTask} {revision : Nat} {α : Type}

/-- Each task is still there, at a later revision or with the status it had. -/
def Ages (before after : Store Task.id) : Prop := ∀ task ∈ before, ∃ later ∈ after,
  later.id = task.id ∧ (task.revision < later.revision ∨
    task.revision = later.revision ∧ task.status = later.status)

namespace Ages

variable {before middle after : Store Task.id}

theorem refl (tasks : Store Task.id) : Ages tasks tasks :=
  fun task member => ⟨task, member, rfl, .inr ⟨rfl, rfl⟩⟩

theorem trans (first : Ages before middle) (second : Ages middle after) : Ages before after := by
  intro task member
  obtain ⟨row, there, named, older⟩ := first task member
  obtain ⟨later, held, named', older'⟩ := second row there
  refine ⟨later, held, named'.trans named, ?_⟩
  rcases older with less | ⟨same, status⟩
  · rcases older' with less' | ⟨same', _⟩
    · exact .inl (less.trans less')
    · exact .inl (same' ▸ less)
  · rw [same, status]
    exact older'

theorem of_modify {id : TaskId} {update : Task → Task} {keeps : ∀ task, (update task).id = task.id}
    (raises : ∀ task, task.revision < (update task).revision ∨ update task = task) :
    Ages before (before.modify id update keeps) := by
  intro task member
  have rewritten := @Store.Rewritten.modified _ _ _ _ id update keeps before
  obtain ⟨row, there, named, changed⟩ := rewritten.forth task member
  refine ⟨row, there, named, ?_⟩
  rcases changed with ⟨_, rfl⟩ | ⟨_, rfl⟩
  · rcases raises task with less | same
    · exact .inl less
    · exact .inr ⟨by rw [same], by rw [same]⟩
  · exact .inr ⟨rfl, rfl⟩

theorem of_promoted {tasks : List Task} (promoted : Store.Rewritten (Promotion tasks) before after)
    (none : ∀ task ∈ tasks, task.status = .pending →
      dependenciesMet task.after (statusIn tasks) = false) : Ages before after := by
  intro task member
  obtain ⟨row, there, named, rfl | ⟨⟨sibling, pending, met⟩, _⟩⟩ := promoted.forth task member
  · exact ⟨row, there, named, .inr ⟨rfl, rfl⟩⟩
  · rw [none task sibling pending] at met
    cases met

end Ages
section Effects

variable {limits : OrchestrationLimits} {now : Timestamp} {fresh : Nat} {intent : Intent}
  {inner after : Inner}

theorem Removal.ages (removal : Removal none inner after) :
    Ages inner.ledger.tasks after.ledger.tasks := by
  cases removal with
  | still left =>
    rw [left.tasks]
    exact .refl _
  | session session now ledger =>
    rw [ledger]
    intro task member
    refine ⟨_, Ledger.tasks_forgetSession.mpr ⟨task, member, rfl⟩, ?_, ?_⟩
    · unfold Task.loseAttempt
      split <;> [split; skip] <;> rfl
    · unfold Task.loseAttempt
      split
      · split
        · exact .inl (Nat.lt_succ_self _)
        · exact .inr ⟨rfl, rfl⟩
      · exact .inr ⟨rfl, rfl⟩
  | workspace workspace ledger =>
    rw [ledger]
    exact .refl _
  | project project intended => cases intended

theorem Removal.ages_chain (chain : Relation.ReflTransGen (Removal none) inner after) :
    Ages inner.ledger.tasks after.ledger.tasks := by
  induction chain with
  | refl => exact .refl _
  | tail _ removal ih => exact ih.trans removal.ages

/-- The Pending tasks that are promoted once a task is accepted or integrated. -/
def Ledger.unblocked (ledger : Ledger) (id : TaskId) (status : TaskStatus) (now : Timestamp) :
    List Task :=
  (ledger.tasks.get? id).toList.flatMap fun task =>
    (ledger.settling task status now).filter fun waiting =>
      waiting.status == .pending &&
        dependenciesMet waiting.after (statusIn (ledger.settling task status now))

theorem Ledger.waits_of_unblocked {ledger : Ledger} {task : Task} {status : TaskStatus}
    (none : ledger.unblocked task.id status now = [])
    (found : ledger.tasks.get? task.id = some task) :
    ∀ waiting ∈ ledger.settling task status now, waiting.status = .pending →
      dependenciesMet waiting.after (statusIn (ledger.settling task status now)) = false := by
  intro waiting member pending
  rw [Ledger.unblocked, found] at none
  simp only [Option.toList_some, flatMap_cons, flatMap_nil, append_nil,
    filter_eq_nil_iff] at none
  have out := none waiting member
  rw [pending] at out
  simpa using out

/-- A section that drops no project and promotes no task lets the tasks only age. -/
theorem Effect.ages (effect : Effect limits now fresh intent inner after)
    (new : ∀ task ∈ inner.ledger.tasks, task.id ≠ fresh) (stays : intent.dropped = .none)
    (accepts : ∀ id, intent.accepted = some id → inner.ledger.unblocked id .accepted now = [])
    (integrates : ∀ id, intent.integrated = some id →
      inner.ledger.unblocked id .integrated now = []) :
    Ages inner.ledger.tasks after.ledger.tasks := by
  have still {runs attempts} (left : Leaves inner after runs inner.ledger.tasks attempts) :
      Ages inner.ledger.tasks after.ledger.tasks := by
    rw [left.tasks]
    exact .refl _
  have raised {runs attempts id update} {keeps : ∀ task : Task, (update task).id = task.id}
      (left : Leaves inner after runs (inner.ledger.tasks.modify id update keeps) attempts)
      (raises : ∀ task, task.revision < (update task).revision) :
      Ages inner.ledger.tasks after.ledger.tasks := by
    rw [left.tasks]
    exact .of_modify fun task => .inl (raises task)
  cases effect with
  | still left | opened _ _ _ left | briefed _ _ left | closed _ _ left | resumed _ _ _ left =>
    exact still left
  | created task named unused status mode left =>
    rw [left.tasks]
    intro old member
    refine ⟨old, mem_put.mpr (.inr ⟨member, ?_⟩), rfl, .inr ⟨rfl, rfl⟩⟩
    exact named ▸ new old member
  | stranded _ _ _ _ _ left | started _ _ _ _ _ _ _ left | reported _ _ _ _ _ _ _ _ left
  | reopened _ _ _ _ _ _ _ _ left | exhausted _ _ _ left | retried _ _ _ _ _ _ left
  | cancelled _ _ _ left => exact raised left fun task => Nat.lt_succ_self _
  | accepted task found status intended tasks promoted left =>
    rw [left.tasks]
    refine Ages.trans (.of_modify fun task => .inl (Nat.lt_succ_self _)) (.of_promoted promoted ?_)
    exact Ledger.waits_of_unblocked (accepts task.id intended) found
  | integrated commit task found intended tasks promoted attempts marked left =>
    rw [left.tasks]
    refine Ages.trans (.of_modify fun task => .inl (Nat.lt_succ_self _)) (.of_promoted promoted ?_)
    exact Ledger.waits_of_unblocked (integrates task.id intended) found
  | answered done intended tasks turned attempts back left =>
    rw [left.tasks]
    intro task member
    obtain ⟨row, there, named, _, _, _, handed, kept⟩ := turned.forth task member
    refine ⟨row, there, named, ?_⟩
    by_cases touched : ∃ attempt ∈ done, attempt.taskId = task.id
    · exact .inl (handed touched).2
    · have same : row = task := kept fun attempt held equal => touched ⟨attempt, held, equal⟩
      exact .inr ⟨by rw [same], by rw [same]⟩
  | exited session attempt member names live left =>
    rw [left.tasks]
    refine .of_modify fun task => ?_
    unfold Task.loseAttempt
    split
    · exact .inl (Nat.lt_succ_self _)
    · exact .inr rfl
  | removed chain =>
    rw [stays] at chain
    exact Removal.ages_chain chain
  | posted _ _ _ _ _ ledger | joined _ _ _ ledger | moved _ _ _ _ _ _ ledger =>
    rw [ledger]
    exact .refl _

end Effects

section Steps

variable {platform : Platform} {limits : OrchestrationLimits} {before : World} {event : Event}

/-- The daemon stays up and keeps every project. -/
def Cause.stays : Cause → Bool
  | .restart _ | .removeProject _ => false
  | _ => true

/-- The Pending tasks that a step promotes. -/
def World.promotes (before : World) (event : Event) : List Task :=
  let accepted := (before.intent event).accepted.toList
  let integrated := (before.intent event).integrated.toList
  accepted.flatMap (fun id => before.inner.ledger.unblocked id .accepted event.now) ++
    integrated.flatMap fun id => before.inner.ledger.unblocked id .integrated event.now

theorem World.stays_dropped (stays : event.cause.stays = true) :
    (before.intent event).dropped = none := by
  unfold World.intent
  split
  · split
    · split <;> rfl
    · split <;> rfl
    · rfl
  · rfl
  · split <;> [rfl; rfl; (split <;> rfl); rfl; rfl; rfl; rfl]
  · rfl
  · rename_i cause
    rw [cause] at stays
    cases stays
  · rfl

theorem ages_of_step (allowed : before.Allows event) (stays : event.cause.stays = true)
    (calm : before.promotes event = []) :
    Ages before.inner.ledger.tasks (before.step platform limits event).inner.ledger.tasks := by
  have transition : Transition platform limits before event _ := step_transition allowed
  obtain ⟨accepts, integrates⟩ := append_eq_nil_iff.mp calm
  cases transition with
  | acted up effect calls under few arise =>
    refine effect.ages (fun task member => (allowed.unused.2.1 task member).1)
      (World.stays_dropped stays) (fun id named => ?_) fun id named => ?_
    · rw [named] at accepts
      exact append_eq_nil_iff.mp accepts |>.1
    · rw [named] at integrates
      exact append_eq_nil_iff.mp integrates |>.1
  | reordered runs tasks attempts board sessions stored calls =>
    exact fun task member => ⟨task, (tasks task).mpr member, rfl, .inr ⟨rfl, rfl⟩⟩
  | restarted persistHistory cause loaded calls =>
    rw [cause] at stays
    cases stays
  | down ledger sessions calls up =>
    rw [ledger]
    exact .refl _

end Steps

section Decisions

variable {platform : Platform} {limits : OrchestrationLimits} {now : Timestamp} {inner : Inner}

/-- The task is there at a later revision. -/
def Risen (task : TaskId) (revision : Nat) (inner : Inner) : Prop :=
  ∃ later ∈ inner.ledger.tasks, later.id = task ∧ revision < later.revision

/-- A decision that succeeds was made at the revision of the task, and raised it. -/
def Decided (request : DecideTask) (inner : Inner) {α : Type} (result : Except ProtocolError α)
    (after : Inner) : Prop :=
  result.isOk = true → (∃ task ∈ inner.ledger.tasks, task.id = request.taskId ∧
    task.revision = request.expectedRevision) ∧
      Risen request.taskId request.expectedRevision after

theorem persist_risen {task : TaskId} {statement : Statement} :
    Preserves (Risen task revision) (persist statement) :=
  fun _ risen => risen

theorem setAttempt_risen {task : TaskId} {id : AttemptId}
    {update : Attempt → Attempt} {keeps : ∀ attempt, (update attempt).id = attempt.id} :
    Preserves (Risen task revision) (onLedger (Ledger.setAttempt id update keeps)) :=
  fun _ risen => risen

theorem cancelAttempts_risen {task other : TaskId} :
    Preserves (Risen task revision) (onLedger (Ledger.cancelAttempts other now)) :=
  fun _ risen => risen

theorem Decided.refused {after : Inner} {error : ProtocolError} :
    Decided request inner (.error error : Except ProtocolError α) after := by
  rintro ⟨⟩

/-- Past its check, a decision first writes the task at its next revision. -/
theorem decided_bind {task : Task} {update : Task → Task}
    {keeps : ∀ task, (update task).id = task.id} {rest : PUnit → Handler α}
    (checked : checkDecision request inner = .ok task)
    (raises : ∀ task, task.revision < (update task).revision)
    (risen : ∀ before, Risen request.taskId request.expectedRevision before →
      (rest ⟨⟩).Meets before fun _ after => Risen request.taskId request.expectedRevision after) :
    (onLedger (Ledger.setTask request.taskId update keeps) >>= rest).Meets inner
      (Decided request inner) := by
  obtain ⟨there, revision, _⟩ := checkDecision_ok checked
  have member := mem_of_get? there
  have named := key_of_get? there
  refine Handler.onLedger_bind ?_
  refine (risen _ ⟨update task, ?_, ?_, ?_⟩).mono fun _ _ later _ =>
    ⟨⟨task, member, named, revision⟩, later⟩
  · exact Ledger.mem_setTask.mpr (.inl ⟨task, member, named, rfl⟩)
  · exact (keeps task).trans named
  · exact revision ▸ raises task

theorem acceptTask_decided :
    (acceptTask request now).Meets inner (Decided request inner) := by
  refine Meets.check_bind (fun _ _ => .refused) fun task checked => ?_
  refine decided_bind checked (fun _ => Nat.lt_succ_self _) fun before risen => ?_
  refine Handler.read_bind ?_
  refine (persistPromoted_meets (promoteReady_rewritten _ _)).mono ?_
  rintro result after ⟨tasks, promoted, left⟩
  obtain ⟨later, there, named, less⟩ := risen
  obtain ⟨row, held, named', promotion⟩ := promoted.forth later there
  refine ⟨row, left.tasks.symm ▸ held, named'.trans named, ?_⟩
  rcases promotion with rfl | ⟨_, rfl⟩ <;> exact less

theorem rejectTask_decided {feedback : String} :
    (rejectTask request feedback now).Meets inner (Decided request inner) := by
  refine Meets.check_bind (fun _ _ => .refused) fun task passed => ?_
  simp only [rejectCheck, bind_eq_ok, require_eq_ok, pure_eq_ok] at passed
  obtain ⟨current, checked, _, _, rfl⟩ := passed
  refine decided_bind checked (fun _ => Nat.lt_succ_self _) ?_
  refine Preserves.bind .check fun newest => ?_
  cases newest with
  | none => exact .bind persist_risen fun _ => .pure
  | some attempt =>
    exact .bind setAttempt_risen fun _ => .bind persist_risen fun _ => .bind persist_risen fun _ =>
      .pure

theorem retryTask_decided {limits : OrchestrationLimits} {feedback : String} :
    (retryTask request feedback limits now).Meets inner (Decided request inner) := by
  refine Meets.check_bind (fun _ _ => .refused) fun task checked => ?_
  split
  · refine decided_bind checked (fun _ => Nat.lt_succ_self _) ?_
    exact Preserves.bind persist_risen fun _ => .check
  · refine decided_bind checked (fun _ => Nat.lt_succ_self _) ?_
    refine Preserves.bind .check fun newest => ?_
    cases newest with
    | none => exact .bind persist_risen fun _ => .check
    | some attempt =>
      exact .bind setAttempt_risen fun _ => .bind persist_risen fun _ =>
        .bind persist_risen fun _ => .check

theorem cancelTask_decided :
    (cancelTask request now).Meets inner (Decided request inner) := by
  refine Meets.check_bind (fun _ _ => .refused) fun task checked => ?_
  refine Handler.read_bind ?_
  refine decided_bind checked (fun _ => Nat.lt_succ_self _) ?_
  exact Preserves.bind cancelAttempts_risen fun _ => .bind persist_risen fun _ =>
    .each fun _ _ => persist_risen

theorem Decided.then {program : Handler α} {next : α → List Call}
    (decided : program.Meets inner (Decided request inner)) :
    (program >>= fun value => pure (next value)).Meets inner (Decided request inner) :=
  decided.bind (fun _ _ _ => .refused) fun _ _ known _ => known rfl

theorem decideTask_decided {platform : Platform} {limits : OrchestrationLimits} :
    (decideTask platform limits request now).Meets inner (Decided request inner) := by
  unfold decideTask
  split
  · exact .then acceptTask_decided
  · exact .then rejectTask_decided
  · exact .then retryTask_decided
  · exact .then cancelTask_decided
  · exact .refused

end Decisions

section Runs

variable {platform : Platform} {limits : OrchestrationLimits} {before : World} {event : Event}

/-- The event runs the critical section of a decision, which succeeds: a request, or a task
that `close_run` cancels. -/
def World.Decides (platform : Platform) (limits : OrchestrationLimits) (before : World)
    (event : Event) (request : DecideTask) : Prop :=
  (event.cause = .request (.decideTask request) ∧
      ((decideTask platform limits request event.now).run (before.meeting event).inner).1.isOk =
        true) ∨
    ∃ index closing task revision rest integration, event.cause = .advance index .proceed ∧
      before.calls[index]? = some (.cancelling closing task revision rest integration) ∧
      request = closingDecision closing task revision ∧
      ((cancelTask request event.now).run (before.meeting event).inner).1.isOk = true

theorem risen_of_decides (decides : before.Decides platform limits event request) :
    (∃ task ∈ before.inner.ledger.tasks, task.id = request.taskId ∧
      task.revision = request.expectedRevision) ∧
        Risen request.taskId request.expectedRevision
        (before.step platform limits event).inner := by
  rcases decides with ⟨cause, ok⟩ | ⟨index, closing, task, revision, rest, integration, cause, at_,
    rfl, ok⟩
  · have decided : (decideTask platform limits request event.now).Meets (before.meeting event).inner
        (Decided request _) := decideTask_decided
    obtain ⟨found, risen⟩ := decided ok
    refine ⟨found, ?_⟩
    simp only [World.step, cause, World.enter, runRequest]
    split
    · rename_i outcome
      rw [outcome] at risen
      exact risen
    · rename_i outcome
      rw [outcome] at risen
      exact risen
  · have decided : (cancelTask (closingDecision closing task revision) event.now).Meets
        (before.meeting event).inner (Decided (closingDecision closing task revision) _) :=
      cancelTask_decided
    obtain ⟨found, risen⟩ := decided ok
    refine ⟨found, ?_⟩
    have at' : (before.meeting event).calls[index]? =
      some (.cancelling closing task revision rest integration) := at_
    simp only [World.step, cause, at']
    exact risen

/-- Two decisions are never made at the same revision of a task. -/
def OncePerRevision (platform : Platform) (limits : OrchestrationLimits)
    (steps : List (Taken World Event)) : Prop :=
  steps.Pairwise fun earlier later => ∀ first second,
    earlier.before.Decides platform limits earlier.event first →
      later.before.Decides platform limits later.event second →
        first.taskId = second.taskId → first.expectedRevision ≠ second.expectedRevision

/-- What two views of the ledger show of a task at one revision is one status. -/
def Agree (world other : World) : Prop :=
  ∀ task ∈ world.inner.ledger.tasks, ∀ row ∈ other.inner.ledger.tasks, task.id = row.id →
    task.revision = row.revision → task.status = row.status

/-- Two statuses of a task are never seen at the same revision. -/
def OneStatusPerRevision (worlds : List World) : Prop :=
  ∀ world ∈ worlds, ∀ other ∈ worlds, Agree world other

theorem Agree.refl (world : World) : Agree world world :=
  fun _ member _ there named _ => congrArg Task.status (eq_of_key member there named)

theorem Agree.symm {world other : World} (agree : Agree world other) : Agree other world :=
  fun row there task member named same => (agree task member row there named.symm same.symm).symm

theorem Agree.of_ages {world other : World}
    (ages : Ages world.inner.ledger.tasks other.inner.ledger.tasks) : Agree world other := by
  intro task member row there named same
  obtain ⟨later, held, named', older⟩ := ages task member
  rw [eq_of_key held there (named'.trans named)] at older
  rcases older with less | ⟨_, status⟩
  · exact absurd same less.ne
  · exact status

/-- Over any run of a daemon that stays up and keeps its projects, and whose steps promote no
task, decisions are compare-and-set. -/
theorem decisions_of_unpromoted {steps : List (Taken World Event)} {first last : World}
    (run : ForgeNode.Run (World.Step platform limits) first steps last)
    (stays : ∀ taken ∈ steps, taken.event.cause.stays = true)
    (calm : ∀ taken ∈ steps, taken.before.promotes taken.event = []) :
    OncePerRevision platform limits steps ∧
    OneStatusPerRevision (ForgeNode.Run.states first steps) := by
  have each : ∀ taken ∈ steps, Ages taken.before.inner.ledger.tasks
      taken.after.inner.ledger.tasks := by
    rintro ⟨before, event, after⟩ member
    obtain ⟨allowed, shape⟩ := run.step_of_mem member
    dsimp only at shape
    subst shape
    exact ages_of_step allowed (stays _ member) (calm _ member)
  have trans {a b c : World} (first : Ages a.inner.ledger.tasks b.inner.ledger.tasks)
      (second : Ages b.inner.ledger.tasks c.inner.ledger.tasks) := first.trans second
  let related (world other : World) : Prop := Ages world.inner.ledger.tasks other.inner.ledger.tasks
  constructor
  · have pairs := run.steps_pairwise related (fun world => .refl world.inner.ledger.tasks) trans each
    refine pairs.imp_of_mem ?_
    rintro ⟨before, event, after⟩ ⟨before', event', after'⟩ member member' ages first second decides
      decides' task revision
    obtain ⟨allowed, shape⟩ := run.step_of_mem member
    dsimp only at shape ages decides decides'
    subst shape
    obtain ⟨_, risen, there, named, less⟩ := risen_of_decides decides
    obtain ⟨⟨current, held, named', current_⟩, _⟩ := risen_of_decides decides'
    obtain ⟨later, beyond, named'', older⟩ := ages risen there
    have same : later = current :=
      eq_of_key beyond held (named''.trans (named.trans (task.trans named'.symm)))
    rw [same, current_] at older
    omega
  · have pairs := run.states_pairwise related trans each
    have agree := pairs.imp fun {world other} ages => Agree.of_ages ages
    intro world here other there
    exact agree.forall_of_forall_of_flip (fun world _ => .refl world) (agree.imp Agree.symm) here
      there

/-- A task is accepted that nothing waits for. -/
def acceptedAlone : List Cause :=
  opening ++ [newTask .readOnly []] ++ startTask 104 ++ reportFrom 106 107 .done ++
    [decideOn 104 3 (.accept none)]

theorem decisions_of_unpromoted_acceptedAlone :
    OncePerRevision plain .default (stepsTo acceptedAlone) ∧
      OneStatusPerRevision (ForgeNode.Run.states (World.initial .default)
      (stepsTo acceptedAlone)) :=
  decisions_of_unpromoted (run_of_admitted (by decide +kernel)) (by decide +kernel)
  (by decide +kernel)

/-- A second task waits for the first, which is accepted. -/
def acceptedFirst : List Cause :=
  opening ++ [newTask .readOnly [], newTask .readOnly [104]] ++ startTask 104 ++
    reportFrom 107 108 .done ++ [decideOn 104 3 (.accept none)]

/-- The waiting task is Pending and then Ready, both at its first revision. -/
theorem not_one_status_per_revision : ¬ ∀ platform limits steps last,
    ForgeNode.Run (World.Step platform limits) (World.initial limits) steps last →
      (∀ taken ∈ steps, taken.event.cause.stays = true) →
        OneStatusPerRevision (ForgeNode.Run.states (World.initial limits) steps) := by
  intro always
  have one := always plain .default (stepsTo acceptedFirst) _ (run_of_admitted (by decide +kernel))
    (by decide +kernel)
  have two : ∃ world ∈ ForgeNode.Run.states (World.initial .default) (stepsTo acceptedFirst),
      ∃ other ∈ ForgeNode.Run.states (World.initial .default) (stepsTo acceptedFirst),
        ∃ task ∈ world.inner.ledger.tasks.rows, ∃ row ∈ other.inner.ledger.tasks.rows,
          task.id = row.id ∧ task.revision = row.revision ∧ task.status ≠ row.status := by
    decide +kernel
  obtain ⟨world, here, other, there, task, member, row, held, named, same, differ⟩ := two
  exact differ (one world here other there task member row held named same)

end Runs

end ForgeNode.Orchestration
