import ForgeNode.Orchestration.Rails

/-! Closed runs stay closed, along the runs of the daemon in which nothing that was read
before a run was closed is written after it. -/

namespace ForgeNode.Orchestration

open Store

/-- `matches!(status, Completed | Cancelled)`. -/
def RunStatus.isClosed : RunStatus → Bool
  | .completed | .cancelled => true
  | _ => false

/-- No run is reopened, and no attempt of a closed run becomes live. -/
structure RunLaw (before after : Ledger) : Prop where
  stays : ∀ run ∈ before.runs, run.status.isClosed = true → ∀ later ∈ after.runs,
    later.id = run.id → later.status ≠ .active ∧ later.status ≠ .interrupted
  quiet : ∀ run ∈ before.runs, run.status.isClosed = true → ∀ attempt ∈ after.attempts,
    after.liveIn run.id attempt = true →
      ∃ old ∈ before.attempts, old.id = attempt.id ∧ old.isLive = true

def Cause.isRestart : Cause → Bool
  | .restart _ => true
  | _ => false

/-- No step resumes a closed run or hands an attempt of one back, and no start of the daemon
finds a closed run stored as open. -/
structure LeavesClosed (taken : Taken World Event) : Prop where
  resumes : ∀ run ∈ taken.before.inner.ledger.runs, run.status.isClosed = true →
    (taken.before.intent taken.event).resumed ≠ some run.id
  handsBack : ∀ run ∈ taken.before.inner.ledger.runs, run.status.isClosed = true →
    ∀ attempt ∈ (taken.before.intent taken.event).reopened,
      taken.before.inner.ledger.inRun run.id attempt = false
  stored : taken.event.cause.isRestart = true → ∀ run ∈ taken.before.inner.ledger.runs,
    run.status.isClosed = true → ∀ row ∈ taken.before.inner.db.tables.runs, row.id = run.id →
      row.status = "completed" ∨ row.status = "cancelled"

instance (taken : Taken World Event) : Decidable (LeavesClosed taken) :=
  decidable_of_iff
    ((∀ run ∈ taken.before.inner.ledger.runs, run.status.isClosed = true →
        (taken.before.intent taken.event).resumed ≠ some run.id) ∧
      (∀ run ∈ taken.before.inner.ledger.runs, run.status.isClosed = true →
        ∀ attempt ∈ (taken.before.intent taken.event).reopened,
          taken.before.inner.ledger.inRun run.id attempt = false) ∧
      (taken.event.cause.isRestart = true → ∀ run ∈ taken.before.inner.ledger.runs,
        run.status.isClosed = true → ∀ row ∈ taken.before.inner.db.tables.runs, row.id = run.id →
          row.status = "completed" ∨ row.status = "cancelled"))
    ⟨fun ⟨resumes, handsBack, stored⟩ => ⟨resumes, handsBack, stored⟩,
      fun guard => ⟨guard.resumes, guard.handsBack, guard.stored⟩⟩

section Effects

variable {limits : OrchestrationLimits} {now : Timestamp} {fresh : Nat} {intent : Intent}
  {inner after : Inner}

/-- A run afterwards: with the status it had, closed, resumed on purpose, or new. -/
def RunsFrom (fresh : Nat) (intent : Intent) (before after : Store Run.id) : Prop := ∀ run ∈ after,
  (∃ old ∈ before, old.id = run.id ∧ (run.status = old.status ∨ run.status.isClosed = true ∨
    intent.resumed = some run.id)) ∨ run.id = fresh

theorem RunsFrom.refl (runs : Store Run.id) : RunsFrom fresh intent runs runs :=
  fun run member => .inl ⟨run, member, rfl, .inl rfl⟩

theorem RunsFrom.of_modify {id : RunId} {update : Run → Run}
    {keeps : ∀ run, (update run).id = run.id} {runs : Store Run.id}
    (moves : ∀ run, run.id = id → (update run).status = run.status ∨
      (update run).status.isClosed = true ∨ intent.resumed = some run.id) :
    RunsFrom fresh intent runs (runs.modify id update keeps) := by
  intro run member
  rcases mem_modify.mp member with ⟨old, there, named, rfl⟩ | ⟨there, _⟩
  · refine .inl ⟨old, there, (keeps old).symm, ?_⟩
    rw [keeps old]
    exact moves old named
  · exact .inl ⟨run, there, rfl, .inl rfl⟩

/-- A removal leaves each run's status as it was. -/
theorem Removal.runs (removal : Removal dropped inner after) :
    ∀ run ∈ after.ledger.runs, ∃ old ∈ inner.ledger.runs, old.id = run.id ∧
    run.status = old.status := by
  cases removal with
  | still left =>
    rw [left.runs]
    exact fun run member => ⟨run, member, rfl, rfl⟩
  | session session now ledger =>
    rw [ledger]
    intro run member
    obtain ⟨old, there, rfl⟩ := Ledger.runs_forgetSession.mp member
    refine ⟨old, there, ?_⟩
    unfold Run.forgetSession
    split <;> exact ⟨rfl, rfl⟩
  | workspace workspace ledger =>
    rw [ledger]
    intro run member
    obtain ⟨old, there, rfl⟩ := Ledger.runs_forgetWorkspace.mp member
    refine ⟨old, there, ?_⟩
    unfold Run.forgetWorkspace
    split <;> exact ⟨rfl, rfl⟩
  | project project intended ledger =>
    rw [ledger]
    exact fun run member => ⟨run, (Store.mem_retain.mp member).1, rfl, rfl⟩

theorem Removal.runs_chain (chain : Relation.ReflTransGen (Removal dropped) inner after) :
    ∀ run ∈ after.ledger.runs, ∃ old ∈ inner.ledger.runs, old.id = run.id ∧
    run.status = old.status := by
  induction chain with
  | refl => exact fun run member => ⟨run, member, rfl, rfl⟩
  | tail _ removal ih =>
    intro run member
    obtain ⟨middle, there, named, same⟩ := removal.runs run member
    obtain ⟨old, held, named', same'⟩ := ih middle there
    exact ⟨old, held, named'.trans named, same.trans same'⟩

theorem Effect.runsFrom (effect : Effect limits now fresh intent inner after) :
    RunsFrom fresh intent inner.ledger.runs after.ledger.runs := by
  have still {tasks attempts} (left : Leaves inner after inner.ledger.runs tasks attempts) :
      RunsFrom fresh intent inner.ledger.runs after.ledger.runs := by
    rw [left.runs]
    exact .refl _
  cases effect with
  | still left | created _ _ _ _ _ left | stranded _ _ _ _ _ left | started _ _ _ _ _ _ _ left
  | reported _ _ _ _ _ _ _ _ left | accepted _ _ _ _ _ _ left | reopened _ _ _ _ _ _ _ _ left
  | exhausted _ _ _ left | retried _ _ _ _ _ _ left | cancelled _ _ _ left
  | integrated _ _ _ _ _ _ _ _ left | answered _ _ _ _ _ _ left | exited _ _ _ _ _ left =>
    exact still left
  | opened run named status left =>
    rw [left.runs]
    intro other member
    rcases mem_put.mp member with rfl | ⟨there, _⟩
    · exact .inr named
    · exact .inl ⟨other, there, rfl, .inl rfl⟩
  | briefed run brief left =>
    rw [left.runs]
    exact .of_modify fun _ _ => .inl rfl
  | closed run cancel left =>
    rw [left.runs]
    refine .of_modify fun _ _ => .inr (.inl ?_)
    cases cancel <;> rfl
  | resumed run session intended left =>
    rw [left.runs]
    exact .of_modify fun _ named => .inr (.inr (named ▸ intended))
  | removed chain =>
    intro run member
    obtain ⟨old, there, named, same⟩ := Removal.runs_chain chain run member
    exact .inl ⟨old, there, named, .inl same⟩
  | posted _ _ _ _ _ ledger | joined _ _ _ ledger | moved _ _ _ _ _ _ ledger =>
    rw [ledger]
    exact .refl _

end Effects

section Law

variable {platform : Platform} {limits : OrchestrationLimits} {before : World} {event : Event}

theorem isClosed_ne {status : RunStatus} (closed : status.isClosed = true) :
    status ≠ .active ∧ status ≠ .interrupted := by
  cases status <;> simp_all [RunStatus.isClosed]

theorem reconcileRun_closed {now : Timestamp} {run : Run} (closed : run.status.isClosed = true) :
    (reconcileRun now run).status = run.status := by
  unfold reconcileRun
  rw [if_neg (isClosed_ne closed).1]

theorem runFromRow_closed {row : RunRow} {run : Run} (decoded : runFromRow row = .ok run)
    (stored : row.status = "completed" ∨ row.status = "cancelled") :
    run.status.isClosed = true := by
  simp only [runFromRow, bind_eq_ok, pure_eq_ok] at decoded
  obtain ⟨status, read, rfl⟩ := decoded
  rcases stored with same | same
  · rw [same] at read
    rw [← Except.ok.inj read]
    rfl
  · rw [same] at read
    rw [← Except.ok.inj read]
    rfl

theorem run_stays {runs : Store Run.id} {fresh : Nat} {intent : Intent} {after : Store Run.id}
    (from_ : RunsFrom fresh intent runs after) (new : ∀ run ∈ runs, run.id ≠ fresh) {run : Run}
    (member : run ∈ runs) (closed : run.status.isClosed = true)
    (unresumed : intent.resumed ≠ some run.id) {later : Run} (there : later ∈ after)
    (same : later.id = run.id) : later.status ≠ .active ∧ later.status ≠ .interrupted := by
  rcases from_ later there with ⟨old, held, named, status | closed' | resumed⟩ | drawn
  · rw [status, eq_of_key held member (named.trans same)]
    exact isClosed_ne closed
  · exact isClosed_ne closed'
  · exact absurd (same ▸ resumed) unresumed
  · exact absurd (same.symm.trans drawn) (new run member)

theorem run_quiet (grounded : Grounded before) (allowed : before.Allows event) {after : Inner}
    (tasks : TasksFrom event.fresh before.inner.ledger.tasks after.ledger.tasks)
    (livens : Livens limits event.now event.fresh (before.intent event)
      (before.meeting event).inner after)
    {run : Run} (member : run ∈ before.inner.ledger.runs) (closed : run.status.isClosed = true)
    (unmoved : ∀ attempt ∈ (before.intent event).reopened,
      before.inner.ledger.inRun run.id attempt = false)
    {attempt : Attempt} (there : attempt ∈ after.ledger.attempts)
    (live : after.ledger.liveIn run.id attempt = true) :
    ∃ old ∈ before.inner.ledger.attempts, old.id = attempt.id ∧ old.isLive = true := by
  have older := fun attempt member => (allowed.unused.2.2.1 attempt member).2.1
  obtain ⟨alive, inRun⟩ := liveIn_iff.mp live
  cases livens with
  | calm from_ =>
    obtain ⟨old, held, was, continues⟩ := from_ attempt there alive
    exact ⟨old, held, continues.id.symm, was.resolve_right List.not_mem_nil⟩
  | back done intended from_ =>
    obtain ⟨old, held, was | handed, continues⟩ := from_ attempt there alive
    · exact ⟨old, held, continues.id.symm, was⟩
    · have still := inRun_of_tasksFrom tasks (older old held) continues.taskId inRun
      rw [unmoved old (intended old handed)] at still
      cases still
  | started spawned task may same committed passed attempts =>
    rw [attempts] at there
    rcases mem_put.mp there with rfl | ⟨held, _⟩
    · -- The commit found the run of its plan open.
      have call := before.committed_call committed
      obtain ⟨old, held, named, ofRun⟩ := inRun_iff.mp
        (inRun_of_tasksFrom tasks (allowed.unplanned call rfl) rfl inRun)
      have planned := (grounded.plans _ call _ rfl old held named).1
      obtain ⟨row, found, isOpen⟩ := may.runOpen
      have equal : row = run := eq_of_key (mem_of_get? found) member
        ((key_of_get? found).trans (planned.symm.trans ofRun))
      rw [equal] at isOpen
      cases status : run.status <;> simp_all [RunStatus.isClosed, RunStatus.isOpen]
    · exact ⟨attempt, held, rfl, alive⟩

theorem RunLaw.of_step (grounded : Grounded before) (allowed : before.Allows event)
    (guard : LeavesClosed ⟨before, event, before.step platform limits event⟩) :
    RunLaw before.inner.ledger (before.step platform limits event).inner.ledger := by
  have transition : Transition platform limits before event _ := step_transition allowed
  cases transition with
  | acted up effect calls under few arise =>
    refine ⟨fun run member closed later there same =>
      ?_, fun run member closed attempt there live => ?_⟩
    · exact run_stays effect.runsFrom allowed.unused.1 member closed (guard.resumes run member closed)
        there same
    · exact run_quiet grounded allowed effect.tasksFrom effect.livens member closed
        (guard.handsBack run member closed) there live
  | reordered runs tasks attempts board sessions stored calls =>
    refine ⟨fun run member closed later there same =>
      ?_, fun run member closed attempt there live => ?_⟩
    · rw [eq_of_key ((runs later).mp there) member same]
      exact isClosed_ne closed
    · exact ⟨attempt, (attempts attempt).mp there, rfl, (liveIn_iff.mp live).1⟩
  | restarted persistHistory cause loaded calls =>
    refine ⟨fun run member closed later there same =>
      ?_, fun run member closed attempt there live => ?_⟩
    · obtain ⟨row, held, old, controller, decoded, rfl⟩ := loaded.runs later there
      have named : row.id = run.id :=
        (runFromRow_keys decoded).1.symm.trans ((reconcileRun_keys old).1.symm.trans same)
      have stored := guard.stored (by rw [cause]; rfl) run member closed row held named
      have closed' := runFromRow_closed decoded stored
      have status : (reconcileRun event.now old).status = old.status := reconcileRun_closed closed'
      dsimp only
      rw [status]
      exact isClosed_ne closed'
    · have alive := (liveIn_iff.mp live).1
      rw [loaded.settled there] at alive
      cases alive
  | down ledger sessions calls up =>
    rw [ledger]
    refine ⟨fun run member closed later there same =>
      ?_, fun run member closed attempt there live => ?_⟩
    · rw [eq_of_key there member same]
      exact isClosed_ne closed
    · exact ⟨attempt, there, rfl, (liveIn_iff.mp live).1⟩

theorem run_law_of_leavesClosed {steps : List (Taken World Event)} {last : World}
    (run : ForgeNode.Run (World.Step platform limits) (World.initial limits) steps last)
    (guards : ∀ taken ∈ steps, LeavesClosed taken) :
    ∀ taken ∈ steps, RunLaw taken.before.inner.ledger taken.after.inner.ledger := by
  have kept := run.invariant Grounded
    (fun {before event after} step grounded => by
      obtain ⟨allowed, rfl⟩ := step
      exact grounded.step allowed)
    .initial
  rintro ⟨before, event, after⟩ member
  obtain ⟨allowed, shape⟩ := run.step_of_mem member
  dsimp only at shape
  subst shape
  exact .of_step (kept.2 _ member).1 allowed (guards _ member)

/-- Resumed while it is open, then closed, then through a restart. -/
def resumedThenClosed : List Cause :=
  opening ++ [.addSession ⟨200, 2, .running⟩, .request (.resumeRun none 103),
    .advance 0 (.controller 200), .advance 0 .proceed,
    .request (.closeRun ⟨none, 103, false, false⟩), .advance 0 .proceed, .restart true]

theorem run_law_of_leavesClosed_resumedThenClosed :
    (∃ run ∈ (reached resumedThenClosed).inner.ledger.runs.rows, run.status.isClosed = true) ∧
      ∀ taken ∈ stepsTo resumedThenClosed,
        RunLaw taken.before.inner.ledger taken.after.inner.ledger :=
  ⟨by decide +kernel,
    run_law_of_leavesClosed (run_of_admitted (by decide +kernel)) (by decide +kernel)⟩

/-- A resume has checked its run, which is closed before the resume writes it. -/
def closedWhileResuming : List Cause :=
  opening ++ [.addSession ⟨200, 2, .running⟩, .request (.resumeRun none 103),
    .request (.closeRun ⟨none, 103, false, false⟩), .advance 1 .proceed, .advance 0 (.controller 200)]

/-- The run is closed, and then its reported attempt is handed back. -/
def handedBackInClosed : List Cause :=
  opening ++ [newTask .write []] ++ startTask 104 ++ reportFrom 106 107 .done ++
    [.request (.closeRun ⟨none, 103, false, false⟩), .advance 0 .proceed,
      decideOn 104 3 (.reject "again" false)]

theorem not_run_law : (¬ ∀ platform limits steps last,
    ForgeNode.Run (World.Step platform limits) (World.initial limits) steps last →
      ∀ taken ∈ steps, ∀ run ∈ taken.before.inner.ledger.runs, run.status.isClosed = true →
        ∀ later ∈ taken.after.inner.ledger.runs, later.id = run.id → later.status ≠ .active) ∧
    ¬ ∀ platform limits steps last,
      ForgeNode.Run (World.Step platform limits) (World.initial limits) steps last →
        ∀ taken ∈ steps, RunLaw taken.before.inner.ledger taken.after.inner.ledger := by
  constructor
  · intro always
    have again : ∃ taken ∈ stepsTo closedWhileResuming, ∃ run ∈ taken.before.inner.ledger.runs.rows,
        run.status.isClosed = true ∧ ∃ later ∈ taken.after.inner.ledger.runs.rows,
          later.id = run.id ∧ later.status = .active := by
      decide +kernel
    obtain ⟨taken, member, run, there, closed, later, held, same, active⟩ := again
    exact always plain .default _ _ (run_of_admitted (by decide +kernel)) taken member run there
      closed later held same active
  · intro always
    have awake : ∃ taken ∈ stepsTo handedBackInClosed, ∃ run ∈ taken.before.inner.ledger.runs.rows,
        run.status.isClosed = true ∧ ∃ attempt ∈ taken.after.inner.ledger.attempts.rows,
          taken.after.inner.ledger.liveIn run.id attempt = true ∧
            ∀ old ∈ taken.before.inner.ledger.attempts, old.id = attempt.id → old.isLive = false := by
      decide +kernel
    obtain ⟨taken, member, run, there, closed, attempt, held, live, settled⟩ := awake
    have law := always plain .default _ _ (run_of_admitted (by decide +kernel)) taken member
    obtain ⟨old, was, same, alive⟩ := law.quiet run there closed attempt held live
    rw [settled old was same] at alive
    cases alive

end Law

end ForgeNode.Orchestration
