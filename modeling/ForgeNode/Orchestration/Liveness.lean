import ForgeNode.Orchestration.Transitions

/-! Which attempts a step makes live: none, the one that a start commits, or those that a
reject or an answer hands back. -/

namespace ForgeNode.Orchestration

/-- The same attempt later: a removal may take its workspace or its session away. -/
structure Attempt.Continues (before after : Attempt) : Prop where
  id : after.id = before.id
  taskId : after.taskId = before.taskId
  n : after.n = before.n
  readOnly : after.readOnly = before.readOnly
  workspace : after.workspaceId = before.workspaceId ∨ after.workspaceId = none
  session : after.sessionId = before.sessionId ∨ after.sessionId = none

namespace Attempt.Continues

theorem refl (attempt : Attempt) : attempt.Continues attempt :=
  ⟨rfl, rfl, rfl, rfl, .inl rfl, .inl rfl⟩

theorem trans {first second third : Attempt} (before : first.Continues second)
    (after : second.Continues third) : first.Continues third where
  id := after.id.trans before.id
  taskId := after.taskId.trans before.taskId
  n := after.n.trans before.n
  readOnly := after.readOnly.trans before.readOnly
  workspace := by
    rcases after.workspace with same | gone
    · rw [same]
      exact before.workspace
    · exact .inr gone
  session := by
    rcases after.session with same | gone
    · rw [same]
      exact before.session
    · exact .inr gone

end Attempt.Continues

/-- Each live attempt comes from an attempt that was live, or from one of those given. -/
def LiveFrom (before : Store Attempt.id) (handed : List Attempt) (after : Store Attempt.id) :
    Prop :=
  ∀ attempt ∈ after, attempt.isLive = true → ∃ old ∈ before,
    (old.isLive = true ∨ old ∈ handed) ∧ old.Continues attempt

namespace LiveFrom

variable {before middle after : Store Attempt.id} {handed : List Attempt}

theorem refl (attempts : Store Attempt.id) : LiveFrom attempts [] attempts :=
  fun attempt member live => ⟨attempt, member, .inl live, .refl attempt⟩

theorem trans (first : LiveFrom before [] middle) (second : LiveFrom middle [] after) :
    LiveFrom before [] after := by
  intro attempt member live
  obtain ⟨middle, there, alive, later⟩ := second attempt member live
  obtain ⟨old, held, alive', earlier⟩ := first middle there (alive.resolve_right List.not_mem_nil)
  exact ⟨old, held, alive', earlier.trans later⟩

theorem of_rewritten {change : Attempt → Attempt → Prop}
    (rewritten : Store.Rewritten change before after) (continues : ∀ old ∈ before, ∀ attempt,
      change old attempt → attempt.isLive = true →
      (old.isLive = true ∨ old ∈ handed) ∧ old.Continues attempt) :
      LiveFrom before handed after := by
  intro attempt member live
  obtain ⟨old, there, _, changed⟩ := rewritten.back attempt member
  exact ⟨old, there, continues old there attempt changed live⟩

theorem of_settled {id : AttemptId} {update : Attempt → Attempt}
    {keeps : ∀ attempt, (update attempt).id = attempt.id}
    (settles : ∀ attempt, (update attempt).isLive = false) :
    LiveFrom before [] (before.modify id update keeps) := by
  refine of_rewritten .modified ?_
  rintro old _ attempt (⟨_, rfl⟩ | ⟨_, rfl⟩) live
  · rw [settles old] at live
    cases live
  · exact ⟨.inl live, .refl attempt⟩

theorem of_handed {attempt : Attempt} {update : Attempt → Attempt}
    {keeps : ∀ attempt, (update attempt).id = attempt.id} (there : attempt ∈ before)
    (continues : attempt.Continues (update attempt)) :
    LiveFrom before [attempt] (before.modify attempt.id update keeps) := by
  refine of_rewritten .modified ?_
  rintro old member other (⟨named, rfl⟩ | ⟨_, rfl⟩) live
  · rw [Store.eq_of_key member there named]
    exact ⟨.inr List.mem_cons_self, continues⟩
  · exact ⟨.inl live, .refl other⟩

theorem of_subset (subset : ∀ attempt ∈ after, attempt ∈ before) : LiveFrom before [] after :=
  fun attempt member live => ⟨attempt, subset attempt member, .inl live, .refl attempt⟩

end LiveFrom

/-- Each task was there with its run and its mode, or is a new one of a known mode. -/
def TasksFrom (fresh : Nat) (before after : Store Task.id) : Prop := ∀ task ∈ after,
  (∃ old ∈ before, old.id = task.id ∧ old.runId = task.runId ∧ old.mode = task.mode) ∨
    task.id = fresh ∧ task.mode ≠ .unrecognized

namespace TasksFrom

variable {fresh : Nat} {before middle after : Store Task.id}

theorem refl (tasks : Store Task.id) : TasksFrom fresh tasks tasks :=
  fun task member => .inl ⟨task, member, rfl, rfl, rfl⟩

theorem of_rewritten {change : Task → Task → Prop} (rewritten : Store.Rewritten change before after)
    (keeps : ∀ old task, change old task → task.runId = old.runId ∧ task.mode = old.mode) :
    TasksFrom fresh before after := by
  intro task member
  obtain ⟨old, there, named, changed⟩ := rewritten.back task member
  obtain ⟨run, mode⟩ := keeps old task changed
  exact .inl ⟨old, there, named, run.symm, mode.symm⟩

theorem of_modify {id : TaskId} {update : Task → Task} {keeps : ∀ task, (update task).id = task.id}
    (same : ∀ task, (update task).runId = task.runId ∧ (update task).mode = task.mode) :
    TasksFrom fresh before (before.modify id update keeps) := by
  refine of_rewritten .modified ?_
  rintro old task (⟨_, rfl⟩ | ⟨_, rfl⟩)
  · exact same old
  · exact ⟨rfl, rfl⟩

theorem of_promoted {id : TaskId} {update : Task → Task}
    {keeps : ∀ task, (update task).id = task.id} {siblings : List Task}
    (promoted : Store.Rewritten (Promotion siblings) (before.modify id update keeps) after)
    (same : ∀ task, (update task).runId = task.runId ∧ (update task).mode = task.mode) :
    TasksFrom fresh before after := by
  have both : Store.Rewritten (fun old task => task.runId = old.runId ∧ task.mode = old.mode)
      before after := by
    refine Store.Rewritten.modified.trans promoted ?_
    rintro old _ row task _ _ (⟨_, rfl⟩ | ⟨_, rfl⟩) (rfl | ⟨_, rfl⟩)
    · exact same old
    · exact same old
    · exact ⟨rfl, rfl⟩
    · exact ⟨rfl, rfl⟩
  exact of_rewritten both fun _ _ kept => kept

theorem trans (first : TasksFrom fresh before middle) (second : TasksFrom fresh middle after) :
    TasksFrom fresh before after := by
  intro task member
  rcases second task member with ⟨row, there, named, run, mode⟩ | new
  · rcases first row there with ⟨old, held, named', run', mode'⟩ | ⟨new, known⟩
    · exact .inl ⟨old, held, named'.trans named, run'.trans run, mode'.trans mode⟩
    · exact .inr ⟨named.symm.trans new, mode ▸ known⟩
  · exact .inr new

end TasksFrom

section Removals

variable {dropped : Option ProjectId} {inner after : Inner}

theorem Attempt.forgetSession_continues {session : SessionId} {now : Timestamp} {attempt : Attempt}
    (live : (attempt.forgetSession session now).isLive = true) :
    attempt.isLive = true ∧ attempt.Continues (attempt.forgetSession session now) := by
  unfold forgetSession at live ⊢
  split at live
  · split at live
    · cases live
    · rename_i settled
      exact absurd live settled
  · rename_i other
    rw [if_neg other]
    exact ⟨live, .refl attempt⟩

theorem Attempt.forgetWorkspace_continues {workspace : WorkspaceId} (attempt : Attempt) :
    attempt.Continues (attempt.forgetWorkspace workspace) ∧
      (attempt.forgetWorkspace workspace).isLive = attempt.isLive := by
  unfold forgetWorkspace
  split
  · exact ⟨⟨rfl, rfl, rfl, rfl, .inr rfl, .inl rfl⟩, rfl⟩
  · exact ⟨.refl attempt, rfl⟩

/-- A removal makes no attempt live. -/
theorem Removal.liveFrom (removal : Removal dropped inner after) :
    LiveFrom inner.ledger.attempts [] after.ledger.attempts := by
  cases removal with
  | still left =>
    rw [left.attempts]
    exact .refl _
  | session session now ledger =>
    rw [ledger]
    intro attempt member live
    obtain ⟨old, there, rfl⟩ := Ledger.attempts_forgetSession.mp member
    obtain ⟨alive, continues⟩ := Attempt.forgetSession_continues live
    exact ⟨old, there, .inl alive, continues⟩
  | workspace workspace ledger =>
    rw [ledger]
    intro attempt member live
    obtain ⟨old, there, rfl⟩ := Ledger.attempts_forgetWorkspace.mp member
    obtain ⟨continues, same⟩ := @Attempt.forgetWorkspace_continues workspace old
    exact ⟨old, there, .inl (same ▸ live), continues⟩
  | project project intended ledger =>
    rw [ledger]
    exact .of_subset fun attempt member => (Store.mem_retain.mp member).1

theorem Task.loseAttempt_keeps (maxAttempts : Nat) (now : Timestamp) (task : Task) :
    (task.loseAttempt maxAttempts now).runId = task.runId ∧
      (task.loseAttempt maxAttempts now).mode = task.mode := by
  unfold loseAttempt
  split <;> exact ⟨rfl, rfl⟩

theorem Removal.tasksFrom {fresh : Nat} (removal : Removal dropped inner after) :
    TasksFrom fresh inner.ledger.tasks after.ledger.tasks := by
  cases removal with
  | still left =>
    rw [left.tasks]
    exact .refl _
  | session session now ledger =>
    rw [ledger]
    intro task member
    obtain ⟨old, there, rfl⟩ := Ledger.tasks_forgetSession.mp member
    refine .inl ⟨old, there, ?_⟩
    split
    · obtain ⟨run, mode⟩ := Task.loseAttempt_keeps inner.ledger.maxAttemptsPerTask now old
      refine ⟨?_, run.symm, mode.symm⟩
      unfold Task.loseAttempt
      split <;> rfl
    · exact ⟨rfl, rfl, rfl⟩
  | workspace workspace ledger =>
    rw [ledger]
    exact .refl _
  | project project intended ledger =>
    rw [ledger]
    exact fun task member => .inl ⟨task, (Store.mem_retain.mp member).1, rfl, rfl, rfl⟩

theorem Removal.liveFrom_chain (chain : Relation.ReflTransGen (Removal dropped) inner after) :
    LiveFrom inner.ledger.attempts [] after.ledger.attempts := by
  induction chain with
  | refl => exact .refl _
  | tail _ removal ih => exact ih.trans removal.liveFrom

theorem Removal.tasksFrom_chain {fresh : Nat}
    (chain : Relation.ReflTransGen (Removal dropped) inner after) :
    TasksFrom fresh inner.ledger.tasks after.ledger.tasks := by
  induction chain with
  | refl => exact .refl _
  | tail _ removal ih => exact ih.trans removal.tasksFrom

end Removals

/-- What an effect makes live. -/
inductive Livens (limits : OrchestrationLimits) (now : Timestamp) (fresh : Nat) (intent : Intent)
    (before after : Inner) : Prop where
  | calm (live : LiveFrom before.ledger.attempts [] after.ledger.attempts)
  | started (spawned : Spawned) (task : Task)
      (may : MayStart limits spawned.plan.run.id spawned.materialized.workspace before.ledger task)
      (same : task.id = spawned.plan.task.id) (committed : intent.committed = some spawned)
      (passed : (commitStartCheck spawned limits before).isOk = true)
      (attempts : after.ledger.attempts =
        before.ledger.attempts.put (spawned.attempt fresh (task.attemptsUsed + 1) now))
  | back (done : List Attempt) (intended : ∀ attempt ∈ done, attempt ∈ intent.reopened)
      (live : LiveFrom before.ledger.attempts done after.ledger.attempts)

variable {limits : OrchestrationLimits} {now : Timestamp} {fresh : Nat} {intent : Intent}
  {inner after : Inner}

theorem Effect.livens (effect : Effect limits now fresh intent inner after) :
    Livens limits now fresh intent inner after := by
  have still {runs tasks} (left : Leaves inner after runs tasks inner.ledger.attempts) :
      Livens limits now fresh intent inner after := by
    refine .calm ?_
    rw [left.attempts]
    exact .refl _
  cases effect with
  | still left | opened _ _ _ left | briefed _ _ left | closed _ _ left | resumed _ _ _ left
  | created _ _ _ _ _ left | stranded _ _ _ _ _ left | accepted _ _ _ _ _ _ left
  | exhausted _ _ _ left => exact still left
  | started spawned task may same committed session passed left =>
    exact .started spawned task may same committed passed left.attempts
  | reported reporting report attempt found live newest own intended left =>
    refine .calm ?_
    rw [left.attempts]
    exact .of_settled fun _ => rfl
  | reopened feedback task found status attempt newest intended alive left =>
    refine .back [attempt] (by simpa using intended) ?_
    rw [left.attempts]
    exact .of_handed (Ledger.newest_eq_some newest).1 ⟨rfl, rfl, rfl, rfl, .inl rfl, .inl rfl⟩
  | retried feedback task found status attempts rejected left =>
    refine .calm ?_
    rw [left.attempts]
    rcases rejected with ⟨_, rfl⟩ | ⟨attempt, _, rfl⟩
    · exact .refl _
    · exact .of_settled fun _ => rfl
  | cancelled task found status left =>
    refine .calm ?_
    rw [left.attempts]
    intro attempt member live
    obtain ⟨old, there, rfl⟩ := Ledger.mem_cancelAttempts.mp member
    split at live
    · cases live
    · rename_i other
      rw [if_neg other]
      exact ⟨old, there, .inl live, .refl old⟩
  | integrated commit task found intended tasks promoted attempts marked left =>
    refine .calm ?_
    rw [left.attempts]
    refine .of_rewritten marked ?_
    rintro old _ attempt (rfl | rfl) live
    · exact ⟨.inl live, .refl attempt⟩
    · exact ⟨.inl live, ⟨rfl, rfl, rfl, rfl, .inl rfl, .inl rfl⟩⟩
  | answered done intended tasks turned attempts back left =>
    refine .back done (fun attempt member => (intended attempt member).1) ?_
    rw [left.attempts]
    refine .of_rewritten back ?_
    rintro old _ attempt ⟨handed, kept⟩ live
    by_cases there : old ∈ done
    · rw [handed there]
      exact ⟨.inr there, ⟨rfl, rfl, rfl, rfl, .inl rfl, .inl rfl⟩⟩
    · rw [kept there] at live ⊢
      exact ⟨.inl live, .refl old⟩
  | exited session attempt member names live left =>
    refine .calm ?_
    rw [left.attempts]
    exact .of_settled fun _ => rfl
  | removed chain =>
    exact .calm (Removal.liveFrom_chain chain)
  | posted _ _ _ _ _ ledger | joined _ _ _ ledger | moved _ _ _ _ _ _ ledger =>
    refine .calm ?_
    rw [ledger]
    exact .refl _

theorem Effect.tasksFrom (effect : Effect limits now fresh intent inner after) :
    TasksFrom fresh inner.ledger.tasks after.ledger.tasks := by
  have still {runs attempts} (left : Leaves inner after runs inner.ledger.tasks attempts) :
      TasksFrom fresh inner.ledger.tasks after.ledger.tasks := by
    rw [left.tasks]
    exact .refl _
  cases effect with
  | still left | opened _ _ _ left | briefed _ _ left | closed _ _ left | resumed _ _ _ left =>
    exact still left
  | created task named unused status mode left =>
    rw [left.tasks]
    intro other member
    rcases Store.mem_put.mp member with rfl | ⟨there, _⟩
    · exact .inr ⟨named, mode⟩
    · exact .inl ⟨other, there, rfl, rfl, rfl⟩
  | stranded _ _ _ _ _ left | started _ _ _ _ _ _ _ left | reported _ _ _ _ _ _ _ _ left
  | reopened _ _ _ _ _ _ _ _ left | exhausted _ _ _ left | retried _ _ _ _ _ _ left
  | cancelled _ _ _ left =>
    rw [left.tasks]
    exact .of_modify fun _ => ⟨rfl, rfl⟩
  | exited _ attempt _ _ _ left =>
    rw [left.tasks]
    exact .of_modify fun task => task.loseAttempt_keeps _ _
  | accepted _ _ _ _ tasks promoted left | integrated _ _ _ _ tasks promoted _ _ left =>
    rw [left.tasks]
    exact .of_promoted promoted fun _ => ⟨rfl, rfl⟩
  | answered done intended tasks turned attempts back left =>
    rw [left.tasks]
    exact .of_rewritten turned fun old task answers => ⟨answers.1, answers.2.1⟩
  | removed chain =>
    exact Removal.tasksFrom_chain chain
  | posted _ _ _ _ _ ledger | joined _ _ _ ledger | moved _ _ _ _ _ _ ledger =>
    rw [ledger]
    exact .refl _

end ForgeNode.Orchestration
