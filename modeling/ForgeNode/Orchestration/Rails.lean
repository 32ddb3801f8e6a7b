import ForgeNode.Orchestration.Liveness

/-! The rails that only a start checks, one writer in a workspace and a bound on the live
attempts of a run, over whole runs of the daemon. -/

namespace ForgeNode.Orchestration

open Store

open Ledger (writesIn)

variable {attempt : Attempt} {fresh : Nat} {handed : List Attempt} {ledger : Ledger} {run : RunId}
  {workspace : WorkspaceId}

section Grounded

/-- What a start read, while it is under way. -/
def Call.plan? : Call → Option StartPlan
  | .planned read => some read
  | .spawned worker => some worker.plan
  | _ => none

/-- A start under way still speaks of the task it read. -/
structure Grounded (world : World) : Prop where
  modes : ∀ task ∈ world.inner.ledger.tasks, task.mode ≠ .unrecognized
  plans : ∀ call ∈ world.calls, ∀ plan, call.plan? = some plan →
    ∀ task ∈ world.inner.ledger.tasks, task.id = plan.task.id →
      task.runId = plan.run.id ∧ task.mode = plan.task.mode

variable {platform : Platform} {limits : OrchestrationLimits} {before : World} {event : Event}

theorem planStart_ok {request : StartAttempt} {inner : Inner} {plan : StartPlan}
    (planned : planStart request limits inner = .ok plan) :
    plan.task ∈ inner.ledger.tasks ∧ plan.task.runId = plan.run.id := by
  simp only [planStart, bind_eq_ok, found_eq_ok, pure_eq_ok] at planned
  obtain ⟨task, there, run, held, _, _, _, _, _, _, _, _, _, _, _, _, rfl⟩ := planned
  exact ⟨mem_of_get? there, (key_of_get? held).symm⟩

theorem World.Allows.unplanned (allowed : before.Allows event) {call : Call}
    (member : call ∈ before.calls) {plan : StartPlan} (planned : call.plan? = some plan) :
    plan.task.id ≠ event.fresh := by
  rintro same
  refine allowed.1 (List.mem_append_right _ (List.mem_flatMap.mpr ⟨call, member, ?_⟩))
  cases call with
  | planned | spawned =>
    cases Option.some.inj planned
    simp [same]
  | _ => cases planned

theorem taskFromRow_mode {row : TaskRow} {after : List TaskId} {task : Task}
    (decoded : taskFromRow row after = .ok task) : task.mode ≠ .unrecognized :=
  taskValues_mode (taskValues_fromRow decoded)

theorem Grounded.of_tasks (platform : Platform) (limits : OrchestrationLimits) {after : World}
    (grounded : Grounded before) (allowed : before.Allows event)
    (tasks : TasksFrom event.fresh before.inner.ledger.tasks after.inner.ledger.tasks)
    (calls : ∀ call ∈ after.calls, call ∈ before.calls ∨
      Arises platform limits before event.fresh call) : Grounded after := by
  constructor
  · intro task member
    rcases tasks task member with ⟨old, there, _, _, mode⟩ | ⟨_, known⟩
    · exact mode ▸ grounded.modes old there
    · exact known
  · -- The task that a plan names is as it was, and the drawn id is none of theirs.
    have old_plan (call : Call) (there : call ∈ before.calls) (plan : StartPlan)
        (planned : call.plan? = some plan) : ∀ task ∈ after.inner.ledger.tasks,
        task.id = plan.task.id → task.runId = plan.run.id ∧ task.mode = plan.task.mode := by
      intro task member named
      rcases tasks task member with ⟨old, held, same, run, mode⟩ | ⟨new, _⟩
      · obtain ⟨run', mode'⟩ := grounded.plans call there plan planned old held (same.trans named)
        exact ⟨run.symm.trans run', mode.symm.trans mode'⟩
      · exact absurd (named.symm.trans new) (allowed.unplanned there planned)
    intro call member plan planned task held named
    rcases calls call member with there | arises
    · exact old_plan call there plan planned task held named
    · cases call with
      | planned other =>
        cases Option.some.inj planned
        obtain ⟨request, read⟩ := arises
        obtain ⟨there, ofRun⟩ := planStart_ok read
        rcases tasks task held with ⟨old, held', same, run, mode⟩ | ⟨new, _⟩
        · rw [eq_of_key held' there (same.trans named)] at run mode
          exact ⟨run.symm.trans ofRun, mode.symm⟩
        · exact absurd (named.symm.trans new) (allowed.unused.2.1 plan.task there).1
      | spawned spawned =>
        cases Option.some.inj planned
        exact old_plan (.planned spawned.plan) arises.1 _ rfl task held named
      | _ => cases planned

theorem Grounded.step (grounded : Grounded before) (allowed : before.Allows event) :
    Grounded (before.step platform limits event) := by
  have transition : Transition platform limits before event _ := step_transition allowed
  cases transition with
  | acted up effect calls under few arise =>
    exact grounded.of_tasks platform limits allowed effect.tasksFrom fun call member =>
      mem_calls under arise member
  | reordered runs tasks attempts board sessions stored calls =>
    refine grounded.of_tasks platform limits allowed (fun task member => ?_)
      fun call member => .inl (calls ▸ member)
    exact .inl ⟨task, (tasks task).mp member, rfl, rfl, rfl⟩
  | restarted persistHistory cause loaded calls =>
    refine ⟨fun task member => ?_, fun call member => ?_⟩
    · obtain ⟨row, _, decoded⟩ := (loaded.reads.tasks task).mp member
      exact taskFromRow_mode decoded
    · rw [calls] at member
      cases member
  | down ledger sessions calls up =>
    refine ⟨fun task member => ?_, fun call member => ?_⟩
    · rw [ledger] at member
      exact grounded.modes task member
    · rw [calls] at member
      cases member

theorem Grounded.initial : Grounded (World.initial limits) :=
  ⟨fun task member => absurd member (not_mem_empty task), fun _ member => by cases member⟩

end Grounded

section OneWriter

variable {platform : Platform} {limits : OrchestrationLimits} {before : World} {event : Event}

/-- No workspace is held by two live attempts that write. -/
def OneWriter (ledger : Ledger) : Prop :=
  ∀ workspace, ∀ first ∈ ledger.attempts, ∀ second ∈ ledger.attempts,
    writesIn workspace first = true → writesIn workspace second = true → first = second

/-- Both write, and in one workspace. -/
def Attempt.rivals (first second : Attempt) : Prop :=
  first.readOnly = false ∧ second.readOnly = false ∧ first.workspaceId.isSome = true ∧
    first.workspaceId = second.workspaceId

instance (first second : Attempt) : Decidable (first.rivals second) :=
  inferInstanceAs (Decidable (_ ∧ _))

/-- No attempt that is handed back meets a rival, live or handed back with it. -/
def HandsBackAlone (ledger : Ledger) (handed : List Attempt) : Prop :=
  ∀ attempt ∈ handed, ∀ other ∈ ledger.attempts, attempt.rivals other →
    other.isLive = true ∨ other ∈ handed → other = attempt

instance (ledger : Ledger) (handed : List Attempt) : Decidable (HandsBackAlone ledger handed) :=
  inferInstanceAs (Decidable (∀ _ ∈ handed, ∀ other ∈ ledger.attempts, _))

theorem writesIn_iff :
    writesIn workspace attempt = true ↔ attempt.isLive = true ∧ attempt.readOnly = false ∧
      attempt.workspaceId = some workspace := by
  simp [writesIn, and_assoc]

theorem Attempt.Continues.of_writesIn {old attempt : Attempt} (continues : old.Continues attempt)
    (writes : writesIn workspace attempt = true) :
    old.readOnly = false ∧ old.workspaceId = some workspace := by
  obtain ⟨_, writer, there⟩ := writesIn_iff.mp writes
  refine ⟨continues.readOnly ▸ writer, ?_⟩
  rcases continues.workspace with same | gone
  · exact same ▸ there
  · rw [gone] at there
    cases there

theorem hasWriter_eq_false (free : ledger.hasWriter workspace = false)
    (member : attempt ∈ ledger.attempts) : writesIn workspace attempt = false := by
  have none := List.any_eq_false.mp free attempt member
  exact Bool.eq_false_iff.mpr none

/-- Attempts that stay live, and attempts handed back alone, write alone. -/
theorem OneWriter.of_liveFrom {after : Ledger} (one : OneWriter ledger)
    (alone : HandsBackAlone ledger handed) (live : LiveFrom ledger.attempts handed after.attempts) :
    OneWriter after := by
  intro workspace first left second right firstWrites secondWrites
  obtain ⟨old, there, alive, continues⟩ := live first left (writesIn_iff.mp firstWrites).1
  obtain ⟨old', there', alive', continues'⟩ := live second right (writesIn_iff.mp secondWrites).1
  obtain ⟨writer, place⟩ := continues.of_writesIn firstWrites
  obtain ⟨writer', place'⟩ := continues'.of_writesIn secondWrites
  have same : old = old' := by
    have rivals : old.rivals old' := ⟨writer, writer', by simp [place], place.trans place'.symm⟩
    have rivals' : old'.rivals old := ⟨writer', writer, by simp [place'], place'.trans place.symm⟩
    rcases alive with running | back
    · rcases alive' with running' | back'
      · exact one workspace old there old' there' (writesIn_iff.mpr ⟨running, writer, place⟩)
          (writesIn_iff.mpr ⟨running', writer', place'⟩)
      · exact alone old' back' old there rivals' (.inl running)
    · exact (alone old back old' there' rivals alive').symm
  refine eq_of_key left right ?_
  rw [continues.id, continues'.id, same]

theorem OneWriter.step (grounded : Grounded before) (allowed : before.Allows event)
    (one : OneWriter before.inner.ledger)
    (alone : HandsBackAlone before.inner.ledger (before.intent event).reopened) :
    OneWriter (before.step platform limits event).inner.ledger := by
  have transition : Transition platform limits before event _ := step_transition allowed
  have none : HandsBackAlone before.inner.ledger [] := fun _ member => by cases member
  cases transition with
  | acted up effect calls under few arise =>
    cases effect.livens with
    | calm live => exact one.of_liveFrom none live
    | back done intended live =>
      refine one.of_liveFrom (fun attempt member other held rivals alive => ?_) live
      exact alone attempt (intended attempt member) other held rivals
        (alive.imp id (intended other))
    | started spawned task may same committed passed attempts =>
      have there := (before.committed_call committed)
      intro workspace first left second right firstWrites secondWrites
      rw [attempts] at left right
      -- The new attempt writes only for a task in write mode, whose workspace is then free.
      have free (writes : writesIn workspace
          (spawned.attempt event.fresh (task.attemptsUsed + 1) event.now) = true) :
          before.inner.ledger.hasWriter workspace = false := by
        obtain ⟨_, writer, place⟩ := writesIn_iff.mp writes
        have member := mem_of_get? may.found
        have mode := (grounded.plans _ there _ rfl task member same).2
        have known := grounded.modes task member
        have reads : spawned.plan.task.mode ≠ .readOnly := by
          simpa [Spawned.attempt] using writer
        have here : spawned.materialized.workspace = workspace := by
          simpa [Spawned.attempt] using place
        rw [← here]
        refine may.writer ?_
        cases shape : task.mode with
        | write => rfl
        | readOnly => exact absurd (mode.symm.trans shape) reads
        | unrecognized => exact absurd shape known
      rcases mem_put.mp left with rfl | ⟨held, _⟩
      · rcases mem_put.mp right with rfl | ⟨held', _⟩
        · rfl
        · rw [hasWriter_eq_false (free firstWrites) held'] at secondWrites
          cases secondWrites
      · rcases mem_put.mp right with rfl | ⟨held', _⟩
        · rw [hasWriter_eq_false (free secondWrites) held] at firstWrites
          cases firstWrites
        · exact one workspace first held second held' firstWrites secondWrites
  | reordered runs tasks attempts board sessions stored calls =>
    intro workspace first left second right
    exact one workspace first ((attempts first).mp left) second ((attempts second).mp right)
  | restarted persistHistory cause loaded calls =>
    intro workspace first left second right writes
    have settled := loaded.settled left
    rw [(writesIn_iff.mp writes).1] at settled
    cases settled
  | down ledger sessions calls up =>
    rw [ledger]
    exact one

theorem one_writer_of_alone {steps : List (Taken World Event)} {last : World}
    (run : ForgeNode.Run (World.Step platform limits) (World.initial limits) steps last)
    (alone : ∀ taken ∈ steps, HandsBackAlone taken.before.inner.ledger
      (taken.before.intent taken.event).reopened) :
    OneWriter last.inner.ledger ∧ ∀ taken ∈ steps, OneWriter taken.after.inner.ledger := by
  have kept := run.guarded (fun world => Grounded world ∧ OneWriter world.inner.ledger)
    (fun taken => HandsBackAlone taken.before.inner.ledger (taken.before.intent taken.event).reopened)
    (fun {before event after} step inv guard => by
      obtain ⟨allowed, rfl⟩ := step
      exact ⟨inv.1.step allowed, inv.2.step inv.1 allowed guard⟩)
    ⟨.initial, fun _ first member => absurd member (not_mem_empty first)⟩ alone
  exact ⟨kept.1.2, fun taken member => (kept.2 taken member).2.2⟩

/-- A text for each id, long enough to be an address. -/
def plain : Platform := ⟨fun id => toString (10000000 + id), fun text =>
      text == "null" || text == "true"⟩

/-- Causes that come one after the other, each with the next id drawn. -/
def numbered (first : Nat) : List Cause → List Event
  | [] => []
  | cause :: rest => ⟨cause, 0, first, []⟩ :: numbered (first + 1) rest

/-- A world reached by causes whose ids count from 100, and the steps there. -/
def reached (causes : List Cause) : World :=
  (World.initial .default).replay plain .default (numbered 100 causes)

def stepsTo (causes : List Cause) : List (Taken World Event) :=
  (World.initial .default).trace plain .default (numbered 100 causes)

def admitted (causes : List Cause) : Bool :=
  (World.initial .default).admits plain .default (numbered 100 causes)

theorem run_of_admitted {causes : List Cause} (admits : admitted causes = true) :
    ForgeNode.Run (World.Step plain .default) (World.initial .default) (stepsTo causes)
      (reached causes) :=
  World.run_of_admits plain .default admits

/-- Project 1 with workspace 2, and run 103 that integrates there. -/
def opening : List Cause :=
  [.addProject 1, .addWorkspace ⟨2, 1, false⟩,
    .request (.createRun ⟨none, 1, "objective", .none, .workspace 2, none, none⟩),
    .advance 0 (.placed "branch" 2 (.ok 0))]

def newTask (mode : WorkMode) (after : List TaskId) : Cause :=
  .request (.createTask ⟨none, 103, "title", "spec", "acceptance", after, mode, false⟩)

/-- A start in the integration workspace, whose session and attempt draw the ids after it. -/
def startTask (task : TaskId) : List Cause :=
  [.request (.startAttempt ⟨none, task, "provider", none, .integration⟩),
    .advance 0 (.checkout ⟨2, none, none⟩), .advance 0 .proceed]

def reportFrom (session : SessionId) (attempt : AttemptId) (outcome : ReportOutcome) : List Cause :=
  [.request (.reportAttempt ⟨some session, attempt, outcome, "summary", none, none⟩),
    .advance 0 (.facts ⟨.ok none, none, false, []⟩)]

def decideOn (task : TaskId) (revision : Nat) (decision : TaskDecision) : Cause :=
  .request (.decideTask ⟨none, task, revision, decision, none, none⟩)

/-- A rejected attempt is handed back to its worker, alone in its workspace. -/
def handedBack : List Cause :=
  opening ++ [newTask .write []] ++ startTask 104 ++ reportFrom 106 107 .done ++
    [decideOn 104 3 (.reject "again" false)]

theorem one_writer_of_alone_handedBack : OneWriter (reached handedBack).inner.ledger :=
  (one_writer_of_alone (run_of_admitted (by decide +kernel)) (by decide +kernel)).1

/-- The first worker reports, a second one starts in its place, the first is handed back. -/
def twoWriters : List Cause :=
  opening ++ [newTask .write [], newTask .write []] ++ startTask 104 ++ reportFrom 107 108 .done ++
    startTask 105 ++ [decideOn 104 3 (.reject "again" false)]

theorem not_one_writer : ¬ ∀ platform limits world, World.Reachable platform limits world →
    OneWriter world.inner.ledger := by
  intro always
  have one := always plain .default (reached twoWriters)
    ⟨stepsTo twoWriters, run_of_admitted (by decide +kernel)⟩
  have two : ∃ first ∈ (reached twoWriters).inner.ledger.attempts.rows,
      ∃ second ∈ (reached twoWriters).inner.ledger.attempts.rows,
        writesIn 2 first = true ∧ writesIn 2 second = true ∧ first ≠ second := by
    decide +kernel
  obtain ⟨first, left, second, right, writes, writes', differ⟩ := two
  exact differ (one 2 first left second right writes writes')

end OneWriter

section AttemptRail

variable {platform : Platform} {limits : OrchestrationLimits} {before : World} {event : Event}

/-- No run has more live attempts than the rail allows. -/
def AttemptRail (limits : OrchestrationLimits) (ledger : Ledger) : Prop :=
  ∀ run, ledger.activeIn run ≤ limits.maxActiveAttemptsPerRun

/-- An attempt of a task in the run. -/
def Ledger.inRun (ledger : Ledger) (run : RunId) (attempt : Attempt) : Bool :=
  (ledger.tasks.get? attempt.taskId).any fun task => task.runId == run

/-- The attempts of the run that are live once some are handed back. -/
def Ledger.activeWith (ledger : Ledger) (handed : List Attempt) (run : RunId) : Nat :=
  ledger.attempts.count fun attempt =>
    ledger.inRun run attempt && (attempt.isLive || decide (attempt ∈ handed))

/-- With the attempts that are handed back, their runs still fit the rail. -/
def HandsBackWithin (limits : OrchestrationLimits) (ledger : Ledger) (handed : List Attempt) :
    Prop :=
  ∀ attempt ∈ handed, ∀ task ∈ ledger.tasks, task.id = attempt.taskId →
    ledger.activeWith handed task.runId ≤ limits.maxActiveAttemptsPerRun

instance (limits : OrchestrationLimits) (ledger : Ledger) (handed : List Attempt) :
    Decidable (HandsBackWithin limits ledger handed) :=
  inferInstanceAs (Decidable (∀ _ ∈ handed, ∀ task ∈ ledger.tasks, _))

theorem inRun_iff :
    ledger.inRun run attempt = true ↔
      ∃ task ∈ ledger.tasks, task.id = attempt.taskId ∧ task.runId = run := by
  unfold Ledger.inRun
  rw [Option.any_eq_true]
  constructor
  · rintro ⟨task, found, same⟩
    exact ⟨task, mem_of_get? found, key_of_get? found, beq_iff_eq.mp same⟩
  · rintro ⟨task, there, named, rfl⟩
    exact ⟨task, get?_eq_some.mpr ⟨there, named⟩, beq_self_eq_true _⟩

theorem liveIn_iff :
    ledger.liveIn run attempt = true ↔ attempt.isLive = true ∧ ledger.inRun run attempt = true :=
  Bool.and_eq_true_iff

theorem activeWith_nil (ledger : Ledger) (run : RunId) :
    ledger.activeWith [] run = ledger.activeIn run :=
  count_congr fun attempt _ => by
    simp [Ledger.liveIn, Ledger.inRun, Bool.and_comm]

theorem activeWith_le {handed more : List Attempt}
    (subset : ∀ attempt ∈ handed, ledger.inRun run attempt = true → attempt ∈ more) :
    ledger.activeWith handed run ≤ ledger.activeWith more run := by
  refine count_le_of_keys fun attempt member counted => ⟨attempt, member, ?_, rfl⟩
  simp only [Bool.and_eq_true, Bool.or_eq_true, decide_eq_true_eq] at counted ⊢
  exact ⟨counted.1, counted.2.imp id fun there => subset attempt there counted.1⟩

theorem inRun_of_tasksFrom {ledger after : Ledger}
    (tasks : TasksFrom fresh ledger.tasks after.tasks) {old attempt : Attempt}
    (older : old.taskId ≠ fresh) (same : attempt.taskId = old.taskId)
    (inRun : after.inRun run attempt = true) : ledger.inRun run old = true := by
  obtain ⟨task, there, named, ofRun⟩ := inRun_iff.mp inRun
  rcases tasks task there with ⟨first, held, named', run', _⟩ | ⟨new, _⟩
  · exact inRun_iff.mpr ⟨first, held, named'.trans (named.trans same), run'.trans ofRun⟩
  · exact absurd (same.symm.trans (named.symm.trans new)) older

theorem activeIn_le_of_liveFrom {ledger after : Ledger}
    (live : LiveFrom ledger.attempts handed after.attempts)
    (tasks : TasksFrom fresh ledger.tasks after.tasks)
    (older : ∀ attempt ∈ ledger.attempts, attempt.taskId ≠ fresh) (run : RunId) :
    after.activeIn run ≤ ledger.activeWith handed run := by
  refine count_le_of_keys fun attempt member counted => ?_
  obtain ⟨alive, inRun⟩ := liveIn_iff.mp counted
  obtain ⟨old, there, before, continues⟩ := live attempt member alive
  refine ⟨old, there, ?_, continues.id.symm⟩
  simp only [Bool.and_eq_true, Bool.or_eq_true, decide_eq_true_eq]
  exact ⟨inRun_of_tasksFrom tasks (older old there) continues.taskId inRun, before⟩

theorem AttemptRail.of_liveFrom {ledger after : Ledger}
    (rail : AttemptRail limits ledger) (within : HandsBackWithin limits ledger handed)
    (live : LiveFrom ledger.attempts handed after.attempts)
    (tasks : TasksFrom fresh ledger.tasks after.tasks)
    (older : ∀ attempt ∈ ledger.attempts, attempt.taskId ≠ fresh) : AttemptRail limits after := by
  intro run
  refine le_trans (activeIn_le_of_liveFrom live tasks older run) ?_
  by_cases touched : ∃ attempt ∈ handed, ledger.inRun run attempt = true
  · obtain ⟨attempt, member, inRun⟩ := touched
    obtain ⟨task, there, named, rfl⟩ := inRun_iff.mp inRun
    exact within attempt member task there named
  · refine le_trans (activeWith_le fun attempt member inRun => ?_)
      (activeWith_nil ledger run ▸ rail run)
    exact absurd ⟨attempt, member, inRun⟩ touched

theorem AttemptRail.step (grounded : Grounded before) (allowed : before.Allows event)
    (rail : AttemptRail limits before.inner.ledger)
    (within : HandsBackWithin limits before.inner.ledger (before.intent event).reopened) :
    AttemptRail limits (before.step platform limits event).inner.ledger := by
  have transition : Transition platform limits before event _ := step_transition allowed
  have none : HandsBackWithin limits before.inner.ledger [] := fun _ member => by cases member
  have older := fun attempt member => (allowed.unused.2.2.1 attempt member).2.1
  cases transition with
  | acted up effect calls under few arise =>
    have tasks := effect.tasksFrom
    cases effect.livens with
    | calm live => exact rail.of_liveFrom none live tasks older
    | back done intended live =>
      refine rail.of_liveFrom (fun attempt member task there named => ?_) live tasks older
      exact le_trans (activeWith_le fun other back _ => intended other back)
        (within attempt (intended attempt member) task there named)
    | started spawned task may same committed passed attempts =>
      have call := before.committed_call committed
      have from_ : ∀ attempt ∈ (before.step platform limits event).inner.ledger.attempts,
          attempt.id ≠ event.fresh → attempt ∈ before.inner.ledger.attempts := by
        intro attempt member other
        rw [attempts] at member
        rcases mem_put.mp member with rfl | ⟨there, _⟩
        · exact absurd rfl other
        · exact there
      have counted (run : RunId) (attempt : Attempt)
          (member : attempt ∈ (before.step platform limits event).inner.ledger.attempts)
          (live : (before.step platform limits event).inner.ledger.liveIn run attempt = true)
          (other : attempt.id ≠ event.fresh) : ∃ old ∈ before.inner.ledger.attempts,
          before.inner.ledger.liveIn run old = true ∧ old.id = attempt.id := by
        have there := from_ attempt member other
        obtain ⟨alive, inRun⟩ := liveIn_iff.mp live
        exact ⟨attempt, there, liveIn_iff.mpr
          ⟨alive, inRun_of_tasksFrom tasks (older attempt there) rfl inRun⟩, rfl⟩
      intro run
      by_cases here : run = spawned.plan.run.id
      · -- The commit found room for one more in this run.
        subst here
        refine le_trans (count_le [event.fresh] fun attempt member live => ?_) may.room
        by_cases new : attempt.id = event.fresh
        · exact .inr (List.mem_singleton.mpr new)
        · exact .inl (counted _ attempt member live new)
      · refine le_trans (count_le_of_keys fun attempt member live => ?_) (rail run)
        refine counted run attempt member live fun new => here ?_
        -- The new attempt belongs to the run of its plan.
        rw [attempts] at member
        rcases mem_put.mp member with rfl | ⟨there, _⟩
        · obtain ⟨_, inRun⟩ := liveIn_iff.mp live
          obtain ⟨old, held, named, ofRun⟩ := inRun_iff.mp
            (inRun_of_tasksFrom tasks (allowed.unplanned call rfl) rfl inRun)
          exact ofRun.symm.trans (grounded.plans _ call _ rfl old held named).1
        · exact absurd new (allowed.unused.2.2.1 attempt there).1
  | reordered runs tasks attempts board sessions stored calls =>
    intro run
    refine le_trans (count_le_of_keys fun attempt member live => ?_) (rail run)
    obtain ⟨alive, inRun⟩ := liveIn_iff.mp live
    obtain ⟨task, there, named, ofRun⟩ := inRun_iff.mp inRun
    exact ⟨attempt, (attempts attempt).mp member, liveIn_iff.mpr
      ⟨alive, inRun_iff.mpr ⟨task, (tasks task).mp there, named, ofRun⟩⟩, rfl⟩
  | restarted persistHistory cause loaded calls =>
    intro run
    refine le_trans (count_le_of_keys fun attempt member live => ?_) (rail run)
    have alive := (liveIn_iff.mp live).1
    rw [loaded.settled member] at alive
    cases alive
  | down ledger sessions calls up =>
    rw [ledger]
    exact rail

theorem attempt_rail_of_within {steps : List (Taken World Event)} {last : World}
    (run : ForgeNode.Run (World.Step platform limits) (World.initial limits) steps last)
    (within : ∀ taken ∈ steps, HandsBackWithin limits taken.before.inner.ledger
      (taken.before.intent taken.event).reopened) :
    AttemptRail limits last.inner.ledger ∧ ∀ taken ∈ steps,
    AttemptRail limits taken.after.inner.ledger := by
  have kept := run.guarded (fun world => Grounded world ∧ AttemptRail limits world.inner.ledger)
    (fun taken => HandsBackWithin limits taken.before.inner.ledger
      (taken.before.intent taken.event).reopened)
    (fun {before event after} step inv guard => by
      obtain ⟨allowed, rfl⟩ := step
      exact ⟨inv.1.step allowed, inv.2.step inv.1 allowed guard⟩)
    ⟨.initial, fun _ => Nat.zero_le _⟩ within
  exact ⟨kept.1.2, fun taken member => (kept.2 taken member).2.2⟩

theorem attempt_rail_of_within_handedBack :
    AttemptRail .default (reached handedBack).inner.ledger :=
  (attempt_rail_of_within (run_of_admitted (by decide +kernel)) (by decide +kernel)).1

/-- A worker reports, another start takes its slot, and the first is handed back. -/
def fiveLive : List Cause :=
  opening ++ List.replicate 5 (newTask .readOnly []) ++
    startTask 104 ++ startTask 105 ++ startTask 106 ++ startTask 107 ++
    reportFrom 110 111 .done ++ startTask 108 ++ [decideOn 104 3 (.reject "again" false)]

theorem not_attempt_rail : ¬ ∀ platform limits world, World.Reachable platform limits world →
    AttemptRail limits world.inner.ledger := by
  intro always
  have rail := always plain .default (reached fiveLive)
    ⟨stepsTo fiveLive, run_of_admitted (by decide +kernel)⟩ 103
  have five : (reached fiveLive).inner.ledger.activeIn 103 = 5 := by decide +kernel
  rw [five] at rail
  exact absurd rail (by decide)

end AttemptRail

end ForgeNode.Orchestration
