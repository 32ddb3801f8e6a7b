import ForgeNode.Orchestration.Nesting
import ForgeNode.Orchestration.Stored

/-! What the ledger holds comes back from the tables as it was, along the runs of the daemon in
which no outcome is cleared beside a report of a failure or a block. -/

namespace ForgeNode.Orchestration

open Store

open Section (Meets)

section Columns

variable {platform : Platform} {limits : OrchestrationLimits} {before after : World} {event : Event}
  {named : AttemptId → Prop}

/-- In memory and stored alike, a row says the same of what it belongs to. -/
structure Fixed (world : World) : Prop where
  rooted : Rooted world.inner.links (fun _ => False) world.inner
  one : world.inner.links.One

theorem Fixed.of_rooted {links : Links} (one : links.One)
    (rooted : Rooted links named after.inner) : Fixed after :=
  ⟨(rooted.self one).weaken fun _ (never : False) => never.elim, one_of_below one rooted.below⟩

theorem Fixed.step_restart (fixed : Fixed before) {persistHistory : Bool}
    (cause : event.cause = .restart persistHistory) :
    Fixed (before.step platform limits event) := by
  have loads := @loadDaemon_stems _ _ limits event.now persistHistory (before.meeting event).inner
    fixed.rooted.stored
  simp only [World.step, cause]
  unfold Meets at loads
  obtain ⟨stems, after⟩ := loads
  cases outcome : ((loadDaemon limits persistHistory event.now).run
    (before.meeting event).inner).1 with
  | ok done =>
    rw [outcome] at after
    exact ⟨after.rooted stems, one_of_below fixed.one (after.below stems)⟩
  | error error =>
    rw [outcome] at after
    have ledger : _ = before.inner.ledger := after
    refine .of_rooted fixed.one ⟨?_, (?_ : Stems _ (fun _ => False) _ _)⟩
    · dsimp only
      rw [ledger]
      exact fixed.rooted.memory
    · dsimp only
      rw [ledger]
      exact stems

theorem Fixed.step (fixed : Fixed before) (allowed : before.Allows event) :
    Fixed (before.step platform limits event) := by
  by_cases restarts : ∃ persistHistory, event.cause = .restart persistHistory
  · obtain ⟨persistHistory, cause⟩ := restarts
    exact fixed.step_restart cause
  have stays : ∀ persistHistory, event.cause ≠ .restart persistHistory :=
    fun persistHistory cause => restarts ⟨persistHistory, cause⟩
  obtain ⟨unsaid, _⟩ := allowed.unsaid
  have one := one_or_draws fixed.one unsaid
  have grown : Rooted (before.inner.links.or (before.draws event)) (fun _ => False) before.inner :=
    fixed.rooted.grow.weaken fun _ (never : False) => never.elim
  have rooted : Rooted _ _ (before.step platform limits event).inner :=
    step_rooted allowed one not_false (fun _ _ _ => .inr) (fun _ _ _ => .inr) (fun _ _ _ _ =>
    .inr) grown stays
  exact .of_rooted one rooted

theorem Fixed.initial : Fixed (World.initial limits) :=
  have nested : Nested limits (World.initial limits) := .initial
  ⟨nested.rooted.weaken fun _ (never : False) => never.elim, nested.one⟩

theorem Fixed.attemptColumns (fixed : Fixed after) {attempt : Attempt}
    (held : attempt ∈ after.inner.ledger.attempts) :
    ∀ row ∈ after.inner.db.tables.attempts, row.id = attempt.id →
      row.taskId = attempt.taskId ∧ row.n = attempt.n ∧ row.createdAt = attempt.createdAt := by
  intro row there named
  have stored := (fixed.rooted.stored.attempts row there).1
  rw [named] at stored
  exact fixed.one.attempt stored (fixed.rooted.memory.attempts attempt held).1

theorem Fixed.taskColumns (fixed : Fixed after) {task : Task}
    (held : task ∈ after.inner.ledger.tasks) :
    ∀ row ∈ after.inner.db.tables.tasks, row.id = task.id →
      row.runId = task.runId ∧ row.createdAt = task.createdAt := by
  intro row there named
  have stored := (fixed.rooted.stored.tasks row there).1
  rw [named] at stored
  exact fixed.one.task stored (fixed.rooted.memory.tasks task held).1

end Columns

section Guard

/-- A report of another outcome than `done`: its row shows it only through the outcome of the
attempt. -/
def Attempt.troubled (attempt : Attempt) : Bool := attempt.report.any fun report =>
  report.outcome != .done

/-- The event clears the outcome of an attempt whose report is of another than `done`, or settles a
report of an outcome that has no tag. -/
def World.blurs (world : World) (event : Event) : Bool :=
  match event.cause with
  | .request (.decideTask request) =>
    match request.decision with
    | .reject _ false => (rejectCheck request world.inner).isOk &&
        (world.inner.ledger.newest request.taskId).any Attempt.troubled
    | _ => false
  | .advance index (.facts facts) =>
    match world.calls[index]? with
    | some (.reporting reporting) =>
      reporting.request.outcome == .unrecognized && facts.copied.isOk &&
        (settleCheck reporting world.inner).isOk
    | _ => false
  | .restart _ =>
    match listAll world.inner.db with
    | .ok (_, _, attempts) => attempts.any fun attempt => attempt.isLive && attempt.troubled
    | .error _ => false
  | _ => false

variable {limits : OrchestrationLimits} {now : Timestamp} {fresh : Nat} {intent : Intent}
  {inner after : Inner}
  {dropped : Option ProjectId} {attempt : Attempt}

theorem troubled_eq_false : attempt.troubled = false ↔ ∀ report ∈ attempt.report, report.outcome =
    .done := by
  unfold Attempt.troubled
  cases attempt.report <;> simp

theorem Attempt.Encodes.reported {report : AttemptReport} (encodes : attempt.Encodes)
    (known : report.outcome ≠ .unrecognized) : (attempt.reported report now).Encodes := by
  refine ⟨by simp [Attempt.reported], by simpa [Attempt.reported] using known, encodes.lostReason, ?_⟩
  rintro _ ⟨⟩
  rfl

theorem Attempt.Encodes.resumed (encodes : attempt.Encodes) : attempt.resumed.Encodes :=
  ⟨by simp [Attempt.resumed], encodes.outcome, encodes.lostReason, encodes.report⟩

theorem Attempt.Encodes.rejected (encodes : attempt.Encodes) : (attempt.rejected now).Encodes :=
  ⟨by simp [Attempt.rejected], encodes.outcome, encodes.lostReason, encodes.report⟩

theorem Attempt.Encodes.lost {reason : LostReason} (encodes : attempt.Encodes)
    (known : reason ≠ .unrecognized) : (attempt.lost reason now).Encodes :=
  ⟨by simp [Attempt.lost], encodes.outcome, by simpa [Attempt.lost] using known, encodes.report⟩

theorem reopened_encodes_iff (encodes : attempt.Encodes) :
    attempt.reopened.Encodes ↔ attempt.troubled = false := by
  rw [troubled_eq_false]
  exact ⟨fun reopened => reopened.report, fun done =>
    ⟨by simp [Attempt.reopened], by simp [Attempt.reopened], encodes.lostReason, done⟩⟩

theorem reconcileAttempt_encodes_iff (encodes : attempt.Encodes) :
    (reconcileAttempt now attempt).Encodes ↔ (attempt.isLive && attempt.troubled) = false := by
  unfold reconcileAttempt
  split
  case isTrue live =>
    rw [live, Bool.true_and, troubled_eq_false]
    exact ⟨fun settled => settled.report, fun done => ⟨by simp, by simp, by simp, done⟩⟩
  case isFalse idle => simp [Bool.eq_false_iff.mpr idle, encodes]

theorem Attempt.Encodes.forgetSession {session : SessionId} (encodes : attempt.Encodes) :
    (attempt.forgetSession session now).Encodes := by
  unfold Attempt.forgetSession
  split
  · split
    · have lost : (attempt.lost .exitedWithoutReport now).Encodes := encodes.lost (by simp)
      exact ⟨lost.phase, lost.outcome, lost.lostReason, lost.report⟩
    · exact ⟨encodes.phase, encodes.outcome, encodes.lostReason, encodes.report⟩
  · exact encodes

theorem Attempt.Encodes.forgetWorkspace {workspace : WorkspaceId} (encodes : attempt.Encodes) :
    (attempt.forgetWorkspace workspace).Encodes := by
  unfold Attempt.forgetWorkspace
  split
  · exact ⟨encodes.phase, encodes.outcome, encodes.lostReason, encodes.report⟩
  · exact encodes

/-- Every attempt of the ledger comes back. -/
def EncodesAll (attempts : Store Attempt.id) : Prop := ∀ attempt ∈ attempts, attempt.Encodes

theorem EncodesAll.modify {attempts : Store Attempt.id} {id : AttemptId}
    {update : Attempt → Attempt} {keeps : ∀ attempt, (update attempt).id = attempt.id}
    (all : EncodesAll attempts) (changed : ∀ attempt ∈ attempts, attempt.id = id →
      (update attempt).Encodes) :
    EncodesAll (attempts.modify id update keeps) := by
  intro attempt member
  rcases mem_modify.mp member with ⟨old, there, named, rfl⟩ | ⟨there, _⟩
  · exact changed old there named
  · exact all attempt there

theorem Removal.encodesAll (removal : Removal dropped inner after)
    (all : EncodesAll inner.ledger.attempts) : EncodesAll after.ledger.attempts := by
  cases removal with
  | still left => rwa [left.attempts]
  | session session now ledger =>
    rw [ledger]
    intro attempt member
    obtain ⟨old, there, rfl⟩ := Ledger.attempts_forgetSession.mp member
    exact (all old there).forgetSession
  | workspace workspace ledger =>
    rw [ledger]
    intro attempt member
    obtain ⟨old, there, rfl⟩ := Ledger.attempts_forgetWorkspace.mp member
    exact (all old there).forgetWorkspace
  | project project intended ledger =>
    rw [ledger]
    exact fun attempt member => all attempt (Store.mem_retain.mp member).1

theorem Removal.encodesAll_chain (chain : Relation.ReflTransGen (Removal dropped) inner after)
    (all : EncodesAll inner.ledger.attempts) : EncodesAll after.ledger.attempts := by
  induction chain with
  | refl => exact all
  | tail _ removal ih => exact removal.encodesAll ih

/-- A section that settles no report, and hands back no attempt but such as reported `done`. -/
theorem Effect.encodesAll (effect : Effect limits now fresh intent inner after)
    (quiet : intent.reported = .none) (handed : ∀ attempt ∈ intent.reopened, attempt.troubled =
      false) (all : EncodesAll inner.ledger.attempts) :
    EncodesAll after.ledger.attempts := by
  have still {runs tasks} (left : Leaves inner after runs tasks inner.ledger.attempts) :
      EncodesAll after.ledger.attempts := by
    rwa [left.attempts]
  cases effect with
  | still left | opened _ _ _ left | briefed _ _ left | closed _ _ left | resumed _ _ _ left
  | created _ _ _ _ _ left | stranded _ _ _ _ _ left | accepted _ _ _ _ _ _ left
  | exhausted _ _ _ left => exact still left
  | started spawned task may same committed session passed left =>
    rw [left.attempts]
    intro attempt member
    rcases mem_put.mp member with rfl | ⟨there, _⟩
    · exact ⟨by simp [Spawned.attempt], by simp [Spawned.attempt], by simp [Spawned.attempt],
        by simp [Spawned.attempt]⟩
    · exact all attempt there
  | reported reporting report attempt found live newest own intended left =>
    rw [quiet] at intended
    cases intended
  | reopened feedback task found status attempt newest intended alive left =>
    rw [left.attempts]
    refine all.modify fun other there same => ?_
    rw [eq_of_key there (Ledger.newest_eq_some newest).1 same]
    exact (reopened_encodes_iff (all attempt (Ledger.newest_eq_some newest).1)).mpr
      (handed attempt intended)
  | retried feedback task found status attempts rejected left =>
    rw [left.attempts]
    rcases rejected with ⟨_, rfl⟩ | ⟨attempt, _, rfl⟩
    · exact all
    · exact all.modify fun other there _ => (all other there).rejected
  | cancelled task found status left =>
    rw [left.attempts]
    intro attempt member
    obtain ⟨old, there, rfl⟩ := Ledger.mem_cancelAttempts.mp member
    split
    · exact (all old there).lost (by simp)
    · exact all old there
  | integrated commit task found intended tasks promoted attempts marked left =>
    rw [left.attempts]
    intro attempt member
    obtain ⟨old, there, _, rfl | rfl⟩ := marked.back attempt member
    · exact all _ there
    · have encodes := all old there
      exact ⟨encodes.phase, encodes.outcome, encodes.lostReason, encodes.report⟩
  | answered done intended tasks turned attempts back left =>
    rw [left.attempts]
    intro attempt member
    obtain ⟨old, there, _, resumed, kept⟩ := back.back attempt member
    by_cases inside : old ∈ done
    · rw [resumed inside]
      exact (all old there).resumed
    · rw [kept inside]
      exact all old there
  | exited session attempt member names live left =>
    rw [left.attempts]
    exact all.modify fun other there _ => (all other there).lost (by simp)
  | removed chain => exact Removal.encodesAll_chain chain all
  | posted _ _ _ _ _ ledger | joined _ _ _ ledger | moved _ _ _ _ _ _ ledger =>
    rw [ledger]
    exact all

/-- Every task of the ledger comes back. -/
def KnownAll (tasks : Store Task.id) : Prop := ∀ task ∈ tasks, task.status ≠ .unrecognized

theorem KnownAll.modify {tasks : Store Task.id} {id : TaskId} {update : Task → Task}
    {keeps : ∀ task, (update task).id = task.id} (all : KnownAll tasks)
    (changed : ∀ task ∈ tasks, (update task).status ≠ .unrecognized) :
    KnownAll (tasks.modify id update keeps) := by
  intro task member
  rcases mem_modify.mp member with ⟨old, there, _, rfl⟩ | ⟨there, _⟩
  · exact changed old there
  · exact all task there

theorem KnownAll.promoted {before after : Store Task.id} {siblings : List Task}
    (all : KnownAll before) (promoted : Store.Rewritten (Promotion siblings) before after) :
    KnownAll after := by
  intro task member
  obtain ⟨old, there, _, rfl | ⟨_, rfl⟩⟩ := promoted.back task member
  · exact all _ there
  · simp

theorem afterLoss_known (attemptsUsed maxAttempts : Nat) :
    taskStatusAfterLoss attemptsUsed maxAttempts ≠ .unrecognized := by
  rcases taskStatusAfterLoss_eq attemptsUsed maxAttempts with status | status <;> simp [status]

theorem afterReport_known (outcome : ReportOutcome) (attemptsUsed maxAttempts : Nat) :
    taskStatusAfterReport outcome attemptsUsed maxAttempts ≠ .unrecognized := by
  rcases taskStatusAfterReport_eq outcome attemptsUsed maxAttempts with status | status | status
    <;> simp [status]

theorem Task.loseAttempt_known {task : Task} (known : task.status ≠ .unrecognized)
    (maxAttempts : Nat) : (task.loseAttempt maxAttempts now).status ≠ .unrecognized := by
  unfold Task.loseAttempt
  split
  · exact afterLoss_known _ _
  · exact known

theorem Removal.knownAll (removal : Removal dropped inner after)
    (all : KnownAll inner.ledger.tasks) : KnownAll after.ledger.tasks := by
  cases removal with
  | still left => rwa [left.tasks]
  | session session now ledger =>
    rw [ledger]
    intro task member
    obtain ⟨old, there, rfl⟩ := Ledger.tasks_forgetSession.mp member
    split
    · exact Task.loseAttempt_known (all old there) _
    · exact all old there
  | workspace workspace ledger =>
    rw [ledger]
    exact all
  | project project intended ledger =>
    rw [ledger]
    exact fun task member => all task (Store.mem_retain.mp member).1

theorem Removal.knownAll_chain (chain : Relation.ReflTransGen (Removal dropped) inner after)
    (all : KnownAll inner.ledger.tasks) : KnownAll after.ledger.tasks := by
  induction chain with
  | refl => exact all
  | tail _ removal ih => exact removal.knownAll ih

theorem Effect.knownAll (effect : Effect limits now fresh intent inner after)
    (all : KnownAll inner.ledger.tasks) : KnownAll after.ledger.tasks := by
  have still {runs attempts} (left : Leaves inner after runs inner.ledger.tasks attempts) :
      KnownAll after.ledger.tasks := by
    rwa [left.tasks]
  cases effect with
  | still left | opened _ _ _ left | briefed _ _ left | closed _ _ left | resumed _ _ _ left =>
    exact still left
  | created task named unused status mode left =>
    rw [left.tasks]
    intro other member
    rcases mem_put.mp member with rfl | ⟨there, _⟩
    · rcases status with e | e <;> simp [e]
    · exact all other there
  | stranded _ _ _ _ _ left | started _ _ _ _ _ _ _ left | reopened _ _ _ _ _ _ _ _ left
  | exhausted _ _ _ left | retried _ _ _ _ _ _ left | cancelled _ _ _ left =>
    rw [left.tasks]
    exact all.modify fun _ _ same => by cases same
  | reported reporting _ _ _ _ _ _ _ left =>
    rw [left.tasks]
    exact all.modify fun _ _ => afterReport_known _ _ _
  | accepted _ _ _ _ tasks promoted left | integrated _ _ _ _ tasks promoted _ _ left =>
    rw [left.tasks]
    exact (all.modify fun _ _ same => by cases same).promoted promoted
  | answered done intended tasks turned attempts back left =>
    rw [left.tasks]
    intro task member
    obtain ⟨old, there, _, answers⟩ := turned.back task member
    by_cases handed : ∃ attempt ∈ done, attempt.taskId = old.id
    · rw [(answers.2.2.2.1 handed).1]
      simp
    · rw [answers.2.2.2.2 fun attempt inside same => handed ⟨attempt, inside, same⟩]
      exact all old there
  | exited session attempt member names live left =>
    rw [left.tasks]
    exact all.modify fun task there => Task.loseAttempt_known (all task there) _
  | removed chain => exact Removal.knownAll_chain chain all
  | posted _ _ _ _ _ ledger | joined _ _ _ ledger | moved _ _ _ _ _ _ ledger =>
    rw [ledger]
    exact all

end Guard

section Sections

variable {limits : OrchestrationLimits} {now : Timestamp} {fresh : Nat} {inner : Inner}
  {attempt : Attempt}

/-- A message hands back what it answers and keeps the outcome. -/
theorem deliverMessage_encodesAll {request : PostMessage} {targets : List DeliveryTarget}
    (all : EncodesAll inner.ledger.attempts) :
    (deliverMessage request targets fresh now).Meets inner
      fun _ after => EncodesAll after.ledger.attempts := by
  unfold deliverMessage
  refine Meets.check_bind (fun _ _ => all) fun _ _ => ?_
  refine Handler.read_bind ?_
  refine Handler.read_bind ?_
  refine Meets.bind persist_each ?_ ?_
  · rintro error after ⟨db, rfl⟩
    exact all
  · rintro value after ⟨db, rfl⟩
    refine resumeBlocked_meets.mono ?_
    rintro result after ⟨done, _, answered⟩ attempt member
    obtain ⟨old, there, _, resumed, kept⟩ := answered.attempts.back attempt member
    by_cases inside : old ∈ done
    · rw [resumed inside]
      exact (all old there).resumed
    · rw [kept inside]
      exact all old there

/-- What a report leaves of the attempts: its own settled, or all as they were. -/
inductive Settled (reporting : Reporting) (facts : ReportFacts) (now : Timestamp)
    (inner after : Inner) : Prop where
  | settled (passed : (facts.copied.isOk && (settleCheck reporting inner).isOk) = true)
      (report : AttemptReport) (outcome : report.outcome = reporting.request.outcome)
      (attempts : after.ledger.attempts = (inner.ledger.setAttempt reporting.request.attemptId
        (Attempt.reported report now) fun _ => rfl).attempts)
  | refused (failed : (facts.copied.isOk && (settleCheck reporting inner).isOk) = false)
      (attempts : after.ledger.attempts = inner.ledger.attempts)

theorem reportAttempt_settled {reporting : Reporting} {facts : ReportFacts} :
    (reportAttempt reporting facts limits now).Meets inner fun _ after =>
    Settled reporting facts now inner after := by
  unfold reportAttempt
  refine Meets.check_bind (fun error failed => .refused ?_ rfl) fun copied read => ?_
  · rw [failed]
    rfl
  refine Meets.check_bind (fun error failed => .refused ?_ rfl) fun attempt passed => ?_
  · rw [failed, Bool.and_eq_false_iff]
    exact .inr rfl
  have both : (facts.copied.isOk && (settleCheck reporting inner).isOk) = true := by
    rw [read, passed]
    rfl
  refine Handler.onLedger_bind ?_
  refine Meets.check_bind (fun _ _ => .settled both _ rfl rfl) fun task _ => ?_
  refine Handler.onLedger_bind ?_
  refine Handler.persist_bind (counted_updateAttempt _) (fun _ db _ => .settled both _ rfl rfl)
    fun db _ => ?_
  exact Handler.persist_last (counted_updateTask _) (fun _ db' _ => .settled both _ rfl rfl)
    fun db' _ => .settled both _ rfl rfl

theorem Settled.encodesAll {reporting : Reporting} {facts : ReportFacts} {after : Inner}
    (settled : Settled reporting facts now inner after) (all : EncodesAll inner.ledger.attempts)
    (known : (facts.copied.isOk && (settleCheck reporting inner).isOk) = true →
      reporting.request.outcome ≠ .unrecognized) : EncodesAll after.ledger.attempts := by
  cases settled with
  | refused failed attempts => rwa [attempts]
  | settled passed report outcome attempts =>
    rw [attempts]
    intro attempt member
    rcases Ledger.mem_setAttempt.mp member with ⟨old, there, _, rfl⟩ | ⟨there, _⟩
    · exact (all old there).reported (outcome ▸ known passed)
    · exact all attempt there

/-- A reject without a retry hands the newest attempt back. -/
theorem rejectTask_reopens {request : DecideTask} {feedback : String}
    (passed : (rejectCheck request inner).isOk = true)
    (newest : inner.ledger.newest request.taskId = some attempt) :
    (rejectTask request feedback now).Meets inner fun _ after =>
    attempt.reopened ∈ after.ledger.attempts := by
  unfold rejectTask
  refine Meets.check_bind (fun error failed => ?_) fun task _ => ?_
  · rw [failed] at passed
    cases passed
  refine Handler.onLedger_bind ?_
  refine Handler.read_bind ?_
  have same : Ledger.newest (Ledger.setTask request.taskId
      (Task.returned (clampText feedback maxMessageBytes).1 .active now) (fun _ =>
      rfl) inner.ledger) request.taskId = some attempt := newest
  simp only [same]
  have back (after : Inner) (shape : after.ledger.attempts = (inner.ledger.setAttempt attempt.id
      Attempt.reopened fun _ => rfl).attempts) : attempt.reopened ∈ after.ledger.attempts := by
    rw [shape]
    exact Ledger.mem_setAttempt.mpr (.inl ⟨attempt, (Ledger.newest_eq_some newest).1, rfl, rfl⟩)
  refine Handler.onLedger_bind ?_
  refine Handler.persist_bind (counted_updateTask _) (fun _ db _ => back _ rfl) fun db _ => ?_
  refine Handler.persist_bind (counted_updateAttempt _) (fun _ db' _ => back _ rfl) fun db' _ => ?_
  exact Meets.pure (back _ rfl)

end Sections

section Steps

variable {platform : Platform} {limits : OrchestrationLimits} {before : World} {event : Event}

/-- An attempt that a section may hand back: the newest one of a task rejected without a retry, or
one that a message answers. -/
theorem World.reopened_at {attempt : Attempt}
    (reopened : attempt ∈ (before.intent event).reopened) :
    (∃ request feedback, event.cause = .request (.decideTask request) ∧ request.decision =
      .reject feedback false ∧
      (rejectCheck request before.inner).isOk = true ∧ before.inner.ledger.newest request.taskId =
        some attempt) ∨
    ∃ index request targets, event.cause = .advance index .proceed ∧
      before.calls[index]? = some (.delivering request targets) := by
  unfold World.intent at reopened
  split at reopened
  · rename_i request cause
    split at reopened
    · rename_i feedback decision
      split at reopened
      · rename_i passed
        exact .inl ⟨request, feedback, cause, decision, passed, Option.mem_toList.mp reopened⟩
      · cases reopened
    · split at reopened <;> cases reopened
    · cases reopened
  · cases reopened
  · rename_i index answer cause
    split at reopened
    · cases reopened
    · rename_i request targets at_
      exact .inr ⟨index, request, targets, cause, at_⟩
    · split at reopened <;> cases reopened
    · cases reopened
    · cases reopened
    · cases reopened
    · cases reopened
  · cases reopened
  · cases reopened
  · cases reopened

theorem step_advance (holds : Inner → Prop) {index : Nat} {answer : Answer} {call : Call}
    (cause : event.cause = .advance index answer) (at_ : before.calls[index]? = some call)
    (meets : (runCall platform limits call answer event.now event.fresh).Meets
      (before.meeting event).inner
      fun _ after => holds after) : holds (before.step platform limits event).inner := by
  have at' : (before.meeting event).calls[index]? = some call := at_
  simp only [World.step, cause, at']
  exact enter_meets meets

/-- The ledger's rows say what they belong to, and come back as they are. -/
structure Returning (world : World) : Prop where
  fixed : Fixed world
  attempts : EncodesAll world.inner.ledger.attempts
  tasks : ∀ task ∈ world.inner.ledger.tasks, task.Encodes

theorem encodesAll_step (returning : Returning before) (allowed : before.Allows event)
    (calm : before.blurs event = false) :
    EncodesAll (before.step platform limits event).inner.ledger.attempts := by
  cases told : (before.intent event).reported with
  | some reporting =>
    obtain ⟨index, facts, cause, at_⟩ := World.reported_at told
    refine step_advance (fun after => EncodesAll after.ledger.attempts) cause at_ ?_
    have known (passed : (facts.copied.isOk && (settleCheck reporting before.inner).isOk) = true) :
        reporting.request.outcome ≠ .unrecognized := by
      intro unknown
      simp only [World.blurs, cause, at_, unknown, beq_self_eq_true, Bool.true_and] at calm
      exact Bool.false_ne_true (calm.symm.trans passed)
    refine reportAttempt_settled.bind (fun error after settled => ?_) fun _ after settled =>
      Meets.pure ?_
    · exact settled.encodesAll returning.attempts known
    · exact settled.encodesAll returning.attempts known
  | none =>
    by_cases delivers : ∃ index request targets, event.cause = .advance index .proceed ∧
        before.calls[index]? = some (.delivering request targets)
    · obtain ⟨index, request, targets, cause, at_⟩ := delivers
      refine step_advance (fun after => EncodesAll after.ledger.attempts) cause at_ ?_
      refine Meets.bind (deliverMessage_encodesAll returning.attempts) ?_ ?_
      · exact fun _ _ all => all
      · exact fun _ _ all => Meets.pure all
    · have transition : Transition platform limits before event _ := step_transition allowed
      cases transition with
      | acted up effect calls under few arise =>
        refine effect.encodesAll told (fun attempt reopened => ?_) returning.attempts
        rcases World.reopened_at reopened with ⟨request, feedback, cause, decision, passed,
          newest⟩ | message
        · simpa [World.blurs, cause, decision, passed, newest] using calm
        · exact absurd message delivers
      | reordered runs tasks attempts board sessions stored calls =>
        exact fun attempt member => returning.attempts attempt ((attempts attempt).mp member)
      | restarted persistHistory cause loaded calls =>
        intro attempt member
        obtain ⟨row, _, decoded⟩ := (loaded.reads.attempts attempt).mp member
        exact attemptFromRow_encodes decoded
      | down ledger sessions calls up =>
        rw [ledger]
        exact returning.attempts

theorem tasks_step (returning : Returning before) (allowed : before.Allows event) :
    ∀ task ∈ (before.step platform limits event).inner.ledger.tasks, task.Encodes := by
  have transition : Transition platform limits before event _ := step_transition allowed
  cases transition with
  | acted up effect calls under few arise =>
    have known := effect.knownAll fun task there => (returning.tasks task there).status
    intro task member
    refine ⟨?_, known task member⟩
    rcases effect.tasksFrom task member with ⟨old, there, _, _, mode⟩ | ⟨_, mode⟩
    · rw [← mode]
      exact (returning.tasks old there).mode
    · exact mode
  | reordered runs tasks attempts board sessions stored calls =>
    exact fun task member => returning.tasks task ((tasks task).mp member)
  | restarted persistHistory cause loaded calls =>
    intro task member
    obtain ⟨row, _, decoded⟩ := (loaded.reads.tasks task).mp member
    exact taskFromRow_encodes decoded
  | down ledger sessions calls up =>
    rw [ledger]
    exact returning.tasks

theorem Returning.step (returning : Returning before) (allowed : before.Allows event)
    (calm : before.blurs event = false) : Returning (before.step platform limits event) :=
  ⟨returning.fixed.step allowed, encodesAll_step returning allowed calm, tasks_step returning allowed⟩

theorem Returning.initial : Returning (World.initial limits) :=
  ⟨.initial, fun _ there => absurd there (not_mem_empty _), fun _ there =>
  absurd there (not_mem_empty _)⟩

/-- Everything that the ledger holds is stored as it is, whichever statement writes it. -/
def World.Returns (world : World) : Prop :=
  (∀ attempt ∈ world.inner.ledger.attempts, AttemptReturns world.inner.db.tables attempt) ∧
    ∀ task ∈ world.inner.ledger.tasks, TaskReturns world.inner.db.tables task

/-- What the ledger holds after a step comes back as it was, and so does what a restart writes over
the rows it found. -/
structure RoundTrips (limits : OrchestrationLimits) (taken : Taken World Event) : Prop where
  held : taken.after.Returns
  reconciled : ∀ persistHistory, taken.event.cause = .restart persistHistory → ∀ runs tasks attempts,
    listAll taken.before.inner.db = .ok (runs, tasks, attempts) →
      (∀ attempt ∈ (reconcileRestart runs tasks attempts limits taken.event.now).attempts,
        AttemptReturns taken.before.inner.db.tables attempt) ∧
      ∀ task ∈ (reconcileRestart runs tasks attempts limits taken.event.now).tasks,
        TaskReturns taken.before.inner.db.tables task

theorem Returning.returns {world : World} (returning : Returning world) : world.Returns :=
  ⟨fun attempt held => (attemptReturns_iff (returning.fixed.attemptColumns held)).mpr
  (returning.attempts attempt held),
    fun task held => (taskReturns_iff (returning.fixed.taskColumns held)).mpr
    (returning.tasks task held)⟩

theorem reconciled_attempt_iff {tables : Tables} {attempts : List Attempt} {now : Timestamp}
    (listed : listAttempts tables = .ok attempts) {attempt : Attempt}
    (member : attempt ∈ attempts) : AttemptReturns tables (reconcileAttempt now attempt) ↔
    (attempt.isLive && attempt.troubled) = false := by
  obtain ⟨row, there, decoded⟩ := (mem_of_mapM_ok listed).2 attempt member
  rw [attemptReturns_iff, reconcileAttempt_encodes_iff (attemptFromRow_encodes decoded)]
  intro other member' same
  obtain ⟨id, task, n, created⟩ := @reconcileAttempt_keys now attempt
  obtain ⟨id', task', n', created'⟩ := attemptFromRow_keys decoded
  rw [task, n, created, task', n', created', eq_of_key member' there
    (same.trans (id.trans id'))]
  exact ⟨rfl, rfl, rfl⟩

theorem reconciled_task {tables : Tables} {tasks : List Task} {lost : List TaskId} {now : Timestamp}
    (listed : listTasks tables = .ok tasks) {task : Task} (member : task ∈ tasks) :
    TaskReturns tables (reconcileTask lost limits now task) := by
  obtain ⟨row, there, decoded⟩ := (mem_of_mapM_ok listed).2 task member
  have encodes := taskFromRow_encodes decoded
  rw [taskReturns_iff]
  · unfold reconcileTask
    split
    · exact ⟨encodes.mode, afterLoss_known _ _⟩
    · exact encodes
  · intro other member' same
    obtain ⟨id, run, created⟩ := @reconcileTask_keys limits now lost task
    obtain ⟨id', run', created'⟩ := taskFromRow_keys decoded
    rw [run, created, run', created', eq_of_key member' there (same.trans (id.trans id'))]
    exact ⟨rfl, rfl⟩

theorem RoundTrips.of_calm (returning : Returning before) (allowed : before.Allows event)
    (calm : before.blurs event = false) :
    RoundTrips limits ⟨before, event, before.step platform limits event⟩ := by
  refine ⟨(returning.step allowed calm).returns,
    fun persistHistory cause runs tasks attempts listed => ?_⟩
  obtain ⟨_, second, third⟩ := listAll_ok listed
  constructor
  · intro attempt member
    obtain ⟨old, there, rfl⟩ := List.mem_map.mp member
    refine (reconciled_attempt_iff third there).mpr ?_
    dsimp only at cause listed
    simp only [World.blurs, cause, listed, List.any_eq_false, Bool.not_eq_true] at calm
    exact calm old there
  · intro task member
    obtain ⟨old, there, rfl⟩ := List.mem_map.mp member
    exact reconciled_task second there

/-- An event that blurs an outcome leaves an attempt behind, or writes one, that does not come
back. -/
theorem calm_of_roundTrips (returning : Returning before)
    (trips : RoundTrips limits ⟨before, event, before.step platform limits event⟩) :
    before.blurs event = false := by
  have held := fun attempt there => attempt_roundTrip_iff.mp (trips.held.1 attempt there).encodes
  rw [← Bool.not_eq_true]
  intro blurs
  unfold World.blurs at blurs
  split at blurs
  · rename_i request cause
    split at blurs
    · rename_i feedback decision
      obtain ⟨passed, troubled⟩ := Bool.and_eq_true_iff.mp blurs
      obtain ⟨attempt, newest, troubled⟩ := (Option.any_eq_true _ _).mp troubled
      have reopened : attempt.reopened ∈
          (before.step platform limits event).inner.ledger.attempts := by
        have meets : (runRequest platform limits (.decideTask request) event.now event.fresh).Meets
            (before.meeting event).inner fun _ after => attempt.reopened ∈ after.ledger.attempts := by
          unfold runRequest decideTask
          simp only [decision]
          refine Meets.bind (rejectTask_reopens passed newest) ?_ ?_
          · exact fun _ _ there => there
          · exact fun _ _ there => Meets.pure there
        simp only [World.step, cause]
        exact enter_meets meets
      have encodes := returning.attempts attempt (Ledger.newest_eq_some newest).1
      rw [(reopened_encodes_iff encodes).mp (held _ reopened)] at troubled
      cases troubled
    · cases blurs
  · rename_i index facts cause
    split at blurs
    · rename_i reporting at_
      simp only [Bool.and_eq_true, beq_iff_eq] at blurs
      obtain ⟨⟨unknown, copied⟩, passed⟩ := blurs
      have settled : ∃ attempt ∈ (before.step platform limits event).inner.ledger.attempts,
          attempt.outcome = some .unrecognized := by
        refine step_advance (fun after => ∃ attempt ∈ after.ledger.attempts, attempt.outcome =
          some .unrecognized) cause at_ ?_
        have left {after : Inner} (settled : Settled reporting facts event.now
            (before.meeting event).inner after) : ∃ attempt ∈ after.ledger.attempts,
            attempt.outcome = some .unrecognized := by
          cases settled with
          | refused failed _ =>
            rw [copied, Bool.true_and] at failed
            exact absurd (passed.symm.trans failed) (by simp)
          | settled _ report outcome attempts =>
            obtain ⟨attempt, found⟩ : ∃ attempt, settleCheck reporting before.inner =
              .ok attempt := by
              cases check : settleCheck reporting before.inner with
              | ok attempt => exact ⟨attempt, rfl⟩
              | error error => simp [check, Except.isOk, Except.toBool] at passed
            have there := (settleCheck_ok found).1
            refine ⟨attempt.reported report event.now, ?_, congrArg some (outcome.trans unknown)⟩
            rw [attempts]
            exact Ledger.mem_setAttempt.mpr
              (.inl ⟨attempt, mem_of_get? there, key_of_get? there, rfl⟩)
        refine Meets.bind reportAttempt_settled ?_ ?_
        · exact fun _ _ settled => left settled
        · exact fun _ _ settled => Meets.pure (left settled)
      obtain ⟨attempt, there, unknown⟩ := settled
      exact (held attempt there).outcome unknown
    · cases blurs
  · rename_i persistHistory cause
    split at blurs
    · rename_i runs tasks attempts listed
      obtain ⟨attempt, there, blurred⟩ := List.any_eq_true.mp blurs
      have returns := (trips.reconciled persistHistory cause _ _ _ listed).1 _
        (List.mem_map_of_mem there)
      rw [(reconciled_attempt_iff (listAll_ok listed).2.2 there).mp returns] at blurred
      cases blurred
    · cases blurs
  · cases blurs

/-- In every interleaving all that the ledger holds, and all that its restarts write, comes back as
it was exactly when no step clears the outcome of an attempt that reported a failure or a block, or
settles an outcome without a tag. -/
theorem roundTrips_iff_calm {steps : List (Taken World Event)} {last : World}
    (run : ForgeNode.Run (World.Step platform limits) (World.initial limits) steps last) :
    (∀ taken ∈ steps, RoundTrips limits taken) ↔ ∀ taken ∈ steps, taken.before.blurs taken.event =
      false :=
  run.law_iff_guard Returning (RoundTrips limits) (fun taken => taken.before.blurs taken.event =
    false) (fun step returning calm => by
      obtain ⟨allowed, shape⟩ := step
      subst shape
      exact returning.step allowed calm)
    (fun step returning => by
      obtain ⟨allowed, shape⟩ := step
      subst shape
      exact ⟨calm_of_roundTrips returning, .of_calm returning allowed⟩)
    .initial

theorem roundTrips_iff_calm_handedBack : stepsTo handedBack ≠ [] ∧
    ∀ taken ∈ stepsTo handedBack, RoundTrips .default taken :=
  ⟨by decide +kernel, (roundTrips_iff_calm (run_of_admitted (by decide +kernel))).mpr (by decide +kernel)⟩

/-- A task whose worker reported a failure is rejected, and the worker is to go on. -/
def failedAndRejected : List Cause :=
  opening ++ [newTask .write []] ++ startTask 104 ++ reportFrom 106 107 .failed ++
    [decideOn 104 3 (.reject "again" false)]

/-- The failure comes back as `done`. -/
theorem not_returns : ¬ ∀ platform limits world, World.Reachable platform limits world →
    world.Returns := by
  intro always
  have returns := always plain .default (reached failedAndRejected) ⟨stepsTo failedAndRejected,
    run_of_admitted (by decide +kernel)⟩
  have failed : ∃ attempt ∈ (reached failedAndRejected).inner.ledger.attempts.rows,
      attempt.outcome = none ∧ attempt.troubled = true := by decide +kernel
  obtain ⟨attempt, held, cleared, troubled⟩ := failed
  have encodes := attempt_roundTrip_iff.mp (returns.1 attempt held).encodes
  have done := encodes.report
  rw [cleared] at done
  exact Bool.false_ne_true ((troubled_eq_false.mpr done).symm.trans troubled)

end Steps

end ForgeNode.Orchestration
