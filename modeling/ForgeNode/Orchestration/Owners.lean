import ForgeNode.Orchestration.Ownership

/-! A session has one owner for as long as anything names it, across every interleaving of
starts, removals and restarts. -/

namespace ForgeNode.Orchestration

open List Store
open Section (Meets Preserves)

/-- The attempt names the session, in memory or in its row. -/
def Inner.Owns (inner : Inner) (id : AttemptId) (session : SessionId) : Prop :=
  (∃ attempt ∈ inner.ledger.attempts, attempt.id = id ∧ attempt.sessionId = some session) ∨
    ∃ row ∈ inner.db.tables.attempts, row.id = id ∧ row.sessionId = some session

/-- The session of a worker whose attempt is not committed yet. -/
def Call.session? : Call → Option SessionId
  | .spawned worker => some worker.session
  | _ => none

structure Owned (world : World) : Prop where
  named : Named world.inner.Owns world.inner
  one : ∀ id other session, world.inner.Owns id session → world.inner.Owns other session → id = other
  unowned : ∀ spawned, .spawned spawned ∈ world.calls → ∀ id, ¬ world.inner.Owns id spawned.session
  apart : (world.calls.filterMap Call.session?).Nodup

section Step

variable {owner : AttemptId → SessionId → Prop} {platform : Platform} {limits : OrchestrationLimits}
  {now : Timestamp} {fresh : Nat}

theorem step_named {world : World} {event : Event} (allowed : world.Allows event)
    (named : Named owner world.inner)
    (owned : ∀ spawned, (world.intent event).committed = some spawned →
      owner event.fresh spawned.session) :
      Named owner (world.step platform limits event).inner := by
  have met : Named owner (world.meeting event).inner := ⟨named.memory, named.stored, named.shown⟩
  have keeps {others : List Call} {program : Handler (List Call)}
      (preserves : Preserves (Named owner) program) : Named owner
      ((world.meeting event).enter others program).inner := enter_meets (preserves _ met)
  cases cause : event.cause with
  | request request =>
    simp only [World.step, cause]
    exact enter_meets (runRequest_lasts Named.lasts met (fun _ _ => createTask_named _ met) fun _ _ =>
      setState_lasts Named.lasts (fun keeps => persist_named fun db =>
      (keeps db).mono fun _ _ same => by
        simp only [Prod.mk.injEq] at same ⊢
        exact same.2.2.2) _ met)
  | advance index answer =>
    simp only [World.step, cause]
    split
    · exact met
    · rename_i call at_
      refine enter_meets (runCall_lasts Named.lasts met (fun _ _ _ _ => createRun_named)
        (fun _ => spawnWorker_named) ?_)
      rintro spawned rfl rfl
      have at' : world.calls[index]? = some (.spawned spawned) := at_
      exact commitStart_named (owned spawned (by simp [World.intent, cause, at'])) _ met
  | addProject project =>
    simp only [World.step, cause]
    exact keeps (Preserves.finish (addProject_lasts Named.lasts))
  | addWorkspace workspace =>
    simp only [World.step, cause]
    exact keeps (Preserves.finish (addWorkspace_lasts Named.lasts))
  | addSession session =>
    simp only [World.step, cause]
    exact keeps (Preserves.finish addSession_named)
  | moveSession session state =>
    simp only [World.step, cause]
    exact keeps (Preserves.finish moveSession_named)
  | removeSession session =>
    simp only [World.step, cause]
    exact keeps (Preserves.finish deleteSession_named)
  | removeWorkspace workspace =>
    simp only [World.step, cause]
    exact keeps (Preserves.finish dropWorkspace_named)
  | removeProject project =>
    simp only [World.step, cause]
    exact keeps (Preserves.finish removeProject_named)
  | reorder runs tasks attempts board =>
    have permitted := allowed.2
    simp only [cause, World.permits, Bool.and_eq_true, decide_eq_true_eq] at permitted
    simp only [World.step, cause]
    exact ⟨fun attempt member => named.memory attempt (permitted.1.2.mem.mp member), named.stored,
      named.shown⟩
  | restart persistHistory =>
    simp only [World.step, cause]
    exact loadDaemon_named _ met

end Step

section Unique

/-- Where a list names each thing once, what is left without one entry names its thing no more. -/
theorem ne_of_mem_eraseIdx {α β : Type} {name : α → Option β} {list : List α}
    (distinct : (list.filterMap name).Nodup) {index : Nat} {entry other : α} {thing : β}
    (at_ : list[index]? = some entry) (named : name entry = some thing)
    (member : other ∈ list.eraseIdx index) : name other ≠ some thing := by
  induction list generalizing index with
  | nil => cases member
  | cons head rest ih =>
    intro same
    cases index with
    | zero =>
      cases Option.some.inj at_
      rw [filterMap_cons_some named, nodup_cons] at distinct
      exact distinct.1 (mem_filterMap.mpr ⟨other, member, same⟩)
    | succ index =>
      have there : entry ∈ rest := mem_of_getElem? at_
      rcases mem_cons.mp member with rfl | later
      · rw [filterMap_cons_some same, nodup_cons] at distinct
        exact distinct.1 (mem_filterMap.mpr ⟨entry, there, named⟩)
      · refine ih (distinct.sublist ?_) at_ later same
        exact (sublist_cons_self head rest).filterMap name

variable {platform : Platform} {limits : OrchestrationLimits} {before : World} {event : Event}

/-- A drawn id is no session that an attempt or a call names. -/
theorem World.Allows.unowned (allowed : before.Allows event) :
    (∀ id, ¬ before.inner.Owns id event.fresh) ∧
      ∀ call ∈ before.calls, call.session? ≠ some event.fresh := by
  obtain ⟨new, _⟩ := allowed
  constructor
  · rintro id (⟨attempt, member, _, names⟩ | ⟨row, member, _, names⟩)
    · refine new ?_
      simp only [World.names, mem_append, mem_filterMap]
      exact .inl (.inl
        (.inl (.inl (.inl (.inl (.inl (.inl (.inl (.inr ⟨attempt, member, names⟩)))))))))
    · refine new ?_
      simp only [World.names, mem_append, mem_filterMap]
      exact .inl (.inl (.inr ⟨row, member, names⟩))
  · intro call member names
    refine new (mem_append_right _ (mem_flatMap.mpr ⟨call, member, ?_⟩))
    cases call with
    | spawned worker =>
      have same : worker.session = event.fresh := Option.some.inj names
      simp [same]
    | _ => cases names

theorem Named.self {owner : AttemptId → SessionId → Prop} {inner : Inner}
    (named : Named owner inner) : Named inner.Owns inner := by
  refine ⟨fun attempt member session names => ?_, fun row member session names => ?_, named.shown⟩
  · exact ⟨.inl ⟨attempt, member, rfl, names⟩, (named.memory attempt member session names).2⟩
  · exact ⟨.inr ⟨row, member, rfl, names⟩, (named.stored row member session names).2⟩

theorem Named.owner_of_owns {owner : AttemptId → SessionId → Prop} {inner : Inner}
    (named : Named owner inner) {id : AttemptId} {session : SessionId}
    (owns : inner.Owns id session) :
    owner id session := by
  rcases owns with ⟨attempt, member, rfl, names⟩ | ⟨row, member, rfl, names⟩
  · exact (named.memory attempt member session names).1
  · exact (named.stored row member session names).1

theorem Named.weaken {owner : AttemptId → SessionId → Prop} {inner : Inner}
    (named : Named owner inner) (other : AttemptId → SessionId → Prop)
    (implies : ∀ id session, owner id session → other id session) : Named other inner := by
  refine ⟨fun attempt member session names => ?_, fun row member session names => ?_, named.shown⟩
  · exact (named.memory attempt member session names).imp (implies _ _) id
  · exact (named.stored row member session names).imp (implies _ _) id

theorem Owned.owns_of_step (owned : Owned before) (allowed : before.Allows event) {id : AttemptId}
    {session : SessionId} (owns : (before.step platform limits event).inner.Owns id session) :
    before.inner.Owns id session ∨ id = event.fresh ∧ ∃ spawned,
      (before.intent event).committed = some spawned ∧ spawned.session = session := by
  have named := @step_named _ platform limits _ _ allowed
    (owned.named.weaken (fun id session => before.inner.Owns id session ∨
      id = event.fresh ∧ ∃ spawned, (before.intent event).committed = some spawned ∧
        spawned.session = session) fun _ _ => .inl)
    fun spawned committed => .inr ⟨rfl, spawned, committed, rfl⟩
  exact named.owner_of_owns owns

theorem committed_ne (apart : (before.calls.filterMap Call.session?).Nodup) {spawned : Spawned}
    (committed : (before.intent event).committed = some spawned) {other : Call}
    (member : other ∈ before.waiting event) : other.session? ≠ some spawned.session := by
  obtain ⟨index, cause, at_⟩ := before.committed_at committed
  simp only [World.waiting, cause] at member
  exact ne_of_mem_eraseIdx apart at_ rfl member

theorem nodup_of_few {α : Type} {list : List α} (few : list.length ≤ 1) : list.Nodup :=
  match list with
  | [] => nodup_nil
  | [entry] => nodup_singleton entry

/-- Of the calls under way after a section, the sessions are apart. -/
theorem sessions_apart (apart : (before.calls.filterMap Call.session?).Nodup)
    (unspawned : ∀ call ∈ before.calls, call.session? ≠ some event.fresh) {calls : List Call}
    (few : calls.length ≤ 1) (arise : ∀ call ∈ calls,
      Arises platform limits before event.fresh call) :
    ((before.waiting event ++ calls).filterMap Call.session?).Nodup := by
  have waits := (before.waiting_sublist event).filterMap Call.session?
  rw [filterMap_append, nodup_append]
  refine ⟨apart.sublist waits, ?_, ?_⟩
  · exact nodup_of_few ((length_filterMap_le _ _).trans few)
  · rintro session old other new rfl
    obtain ⟨waiting, held, named⟩ := mem_filterMap.mp (waits.subset old)
    obtain ⟨call, member, spawns⟩ := mem_filterMap.mp new
    cases call with
    | spawned worker =>
      obtain ⟨_, _, fresh⟩ := arise _ member
      have same : worker.session = session := Option.some.inj spawns
      exact unspawned waiting held (named.trans (congrArg some (same.symm.trans fresh)))
    | _ => cases spawns

theorem Owned.step (owned : Owned before) (allowed : before.Allows event) :
    Owned (before.step platform limits event) := by
  have owns {id session} (later : (before.step platform limits event).inner.Owns id session) :=
    owned.owns_of_step allowed later
  obtain ⟨unnamed, unspawned⟩ := allowed.unowned
  have named : Named (fun _ _ => True) (before.step platform limits event).inner :=
    step_named allowed (owned.named.weaken _ fun _ _ _ => trivial) fun _ _ => trivial
  -- A worker under way before and after the step is one that the step did not commit.
  have still {spawned : Spawned} (held : .spawned spawned ∈ before.waiting event) (id : AttemptId) :
      ¬ (before.step platform limits event).inner.Owns id spawned.session := by
    intro later
    rcases owns later with old | ⟨_, committed, commits, same⟩
    · exact owned.unowned spawned ((before.waiting_sublist event).subset held) id old
    · exact committed_ne owned.apart commits held (congrArg some same.symm)
  have one : ∀ id other session, (before.step platform limits event).inner.Owns id session →
      (before.step platform limits event).inner.Owns other session → id = other := by
    intro id other session first second
    rcases owns first with old | ⟨rfl, spawned, committed, rfl⟩
    · rcases owns second with old' | ⟨_, spawned, committed, rfl⟩
      · exact owned.one id other session old old'
      · exact absurd old (owned.unowned spawned (before.committed_call committed) id)
    · rcases owns second with old' | ⟨rfl, _⟩
      · exact absurd old' (owned.unowned spawned (before.committed_call committed) other)
      · rfl
  have transition : Transition platform limits before event _ := step_transition allowed
  cases transition with
  | acted up effect calls under few arise =>
    refine ⟨named.self, one, fun spawned member id later => ?_, ?_⟩
    · rw [under] at member
      rcases mem_append.mp member with held | new
      · exact still held id later
      · obtain ⟨_, _, fresh⟩ := arise _ new
        rw [fresh] at later
        rcases owns later with old | ⟨_, committed, commits, same⟩
        · exact unnamed id old
        · exact unspawned _ (before.committed_call commits) (congrArg some same)
    · rw [under]
      exact sessions_apart owned.apart unspawned few arise
  | reordered _ _ attempts _ _ stored calls =>
    refine ⟨named.self, one, ?_, ?_⟩
    · rw [calls]
      rintro spawned member id (⟨attempt, there, names⟩ | ⟨row, there, names⟩)
      · exact owned.unowned spawned member id (.inl ⟨attempt, (attempts attempt).mp there, names⟩)
      · exact owned.unowned spawned member id (.inr ⟨row, stored ▸ there, names⟩)
    · rw [calls]
      exact owned.apart
  | restarted _ _ _ calls | down _ _ calls =>
    refine ⟨named.self, one, ?_, ?_⟩
    · rw [calls]
      simp
    · rw [calls]
      exact nodup_nil

theorem Owned.initial : Owned (World.initial limits) where
  named := ⟨fun _ member => absurd member (not_mem_empty _),
    fun _ member => absurd member (not_mem_empty _), fun _ member =>
    absurd member (not_mem_empty _)⟩
  one := by
    rintro id other session (⟨_, member, _⟩ | ⟨_, member, _⟩) <;>
      exact absurd member (not_mem_empty _)
  unowned := fun _ member => by cases member
  apart := nodup_nil

end Unique

end ForgeNode.Orchestration
