import ForgeNode.Sessions.Core

/-! The idle sweeper over the life of one session. -/

namespace ForgeNode.Idle

open List Sessions

inductive IdleReason where
  | inactive (idleFor : Nat)
  | longRunning (age : Nat)
  deriving DecidableEq

inductive IdleAction where
  | keep
  | warn (reason : IdleReason)
  | stop (reason : IdleReason)
  deriving DecidableEq

/-- Durations are nanoseconds; `none` is off. -/
structure IdlePolicy where
  warnAfter : Option Nat := none
  stopAfter : Option Nat := none
  longRunningAfter : Option Nat := none
  stopAttached : Bool := false
  includeShells : Bool := false

/-- The fields of a session that the policy reads. -/
structure Session where
  kind : SessionKind
  state : Orchestration.SessionState
  createdAt : Int
  lastActivityAt : Int

/-- A timestamp in the future counts as no time at all. -/
def Session.idleFor (session : Session) (now : Int) : Nat :=
  (now - session.lastActivityAt).toNat

def Session.age (session : Session) (now : Int) : Nat :=
  (now - session.createdAt).toNat

namespace IdlePolicy

def isEnabled (policy : IdlePolicy) : Bool :=
  policy.warnAfter.isSome || policy.stopAfter.isSome || policy.longRunningAfter.isSome

def evaluate (policy : IdlePolicy) (session : Session) (now : Int) (attached warned : Bool) :
    IdleAction :=
  if !SessionState.isActive session.state then .keep
  else if (session.kind == .shell || session.kind == .task) && !policy.includeShells then .keep
  else if session.kind == .editor then .keep
  else if policy.stopAfter.any (fun after => decide (after ≤ session.idleFor now)) &&
      (!attached || policy.stopAttached) then
    .stop (.inactive (session.idleFor now))
  else if warned then .keep
  else if policy.warnAfter.any (fun after => decide (after ≤ session.idleFor now)) then
    .warn (.inactive (session.idleFor now))
  else if policy.longRunningAfter.any (fun after => decide (after ≤ session.age now)) then
    .warn (.longRunning (session.age now))
  else .keep

def isSettled (policy : IdlePolicy) (session : Session) (now : Int) : Bool :=
  !SessionState.isActive session.state ||
    (policy.warnAfter.all (fun after => decide (session.idleFor now < after)) &&
      policy.longRunningAfter.all (fun after => decide (session.age now < after)))

end IdlePolicy

/-- A session and whether the sweeper holds it for reported. -/
structure Watch where
  session : Session
  warned : Bool
  now : Int

/-- `sweep_idle_sessions` for one session: what is settled is forgotten before anything is
evaluated. -/
def sweep (policy : IdlePolicy) (watch : Watch) (attached : Bool) : Watch × IdleAction :=
  if !policy.isEnabled then (watch, .keep)
  else
    let warned := watch.warned && !policy.isSettled watch.session watch.now
    match policy.evaluate watch.session watch.now attached warned with
    | .keep => ({ watch with warned }, .keep)
    | .warn reason => ({ watch with warned := true }, .warn reason)
    | .stop reason => ({ watch with warned }, .stop reason)

/-- `touch_activity`: the next quiet spell is a new event. -/
def touchActivity (watch : Watch) : Watch :=
  { watch with session.lastActivityAt := watch.now, warned := false }

/-- What happens next, and how long after the event before. -/
inductive Event where
  | activity (wait : Nat)
  | sweep (wait : Nat) (attached : Bool)

/-- What a sweep sees of the session. -/
structure Sight where
  idleFor : Nat
  age : Nat
  attached : Bool
  deriving DecidableEq

def Watch.wait (watch : Watch) (wait : Nat) : Watch :=
  { watch with now := watch.now + wait }

def sight (watch : Watch) (attached : Bool) : Sight :=
  { idleFor := watch.session.idleFor watch.now, age := watch.session.age watch.now, attached }

/-- The sweeps of a life with what each did; an activity is `none`. -/
def run (policy : IdlePolicy) (watch : Watch) : List Event → List (Option (Sight × IdleAction))
  | [] => []
  | .activity wait :: events => none :: run policy (touchActivity (watch.wait wait)) events
  | .sweep wait attached :: events =>
    let swept := sweep policy (watch.wait wait) attached
    some (sight (watch.wait wait) attached, swept.2) :: run policy swept.1 events

/-- What the sweeps of a life see, whatever the policy. -/
def sights (session : Session) (now : Int) : List Event → List (Option Sight)
  | [] => []
  | .activity wait :: events =>
    none :: sights { session with lastActivityAt := now + wait } (now + wait) events
  | .sweep wait attached :: events =>
    some { idleFor := session.idleFor (now + wait), age := session.age (now + wait), attached } ::
      sights session (now + wait) events

/-- The sweeps between one activity and the next. -/
def spells {α : Type} : List (Option α) → List (List α)
  | [] => [[]]
  | none :: rest => [] :: spells rest
  | some look :: rest => (spells rest).modifyHead (look :: ·)

/-- A session as it is created. -/
def born (kind : SessionKind) (state : Orchestration.SessionState) (at_ : Int) : Watch :=
  { session := { kind, state, createdAt := at_, lastActivityAt := at_ }, warned := false, now := at_ }

def IdleAction.isInactive : IdleAction → Bool
  | .warn (.inactive _) => true
  | _ => false

def IdleAction.isLongRunning : IdleAction → Bool
  | .warn (.longRunning _) => true
  | _ => false

def IdleAction.isStop : IdleAction → Bool
  | .stop _ => true
  | _ => false

namespace IdlePolicy

def pastWarn (policy : IdlePolicy) (sight : Sight) : Bool :=
  policy.warnAfter.any (fun after => decide (after ≤ sight.idleFor))

def pastAge (policy : IdlePolicy) (sight : Sight) : Bool :=
  policy.longRunningAfter.any (fun after => decide (after ≤ sight.age))

def stops (policy : IdlePolicy) (sight : Sight) : Bool :=
  policy.stopAfter.any (fun after => decide (after ≤ sight.idleFor)) &&
    (!sight.attached || policy.stopAttached)

/-- A sweep that is to report the quiet. -/
def quiet (policy : IdlePolicy) (sight : Sight) : Bool :=
  policy.pastWarn sight && !policy.stops sight

/-- A sweep that is to report the age: the session is old and not quiet. -/
def aged (policy : IdlePolicy) (sight : Sight) : Bool :=
  policy.pastAge sight && !policy.pastWarn sight && !policy.stops sight

/-- The sessions the policy looks after at all. -/
def covers (policy : IdlePolicy) (kind : SessionKind) (state : Orchestration.SessionState) : Bool :=
  SessionState.isActive state && kind != .editor &&
    (policy.includeShells || !(kind == .shell || kind == .task))

end IdlePolicy

/-- A spell that a sweep finds past `warn_after` has one notice, and the age has at most one in a
life. -/
def OneNotice (policy : IdlePolicy) (life : List (Option (Sight × IdleAction))) : Prop :=
  (∀ spell ∈ spells life,
    (∃ look ∈ spell, policy.pastWarn look.1 ∧ ¬ look.2.isStop) →
      spell.countP (·.2.isInactive) = 1) ∧
  (spells life).flatten.countP (·.2.isLongRunning) ≤ 1

/-- The condition: no spell is seen old before it is seen quiet, and at most one is seen old at
all. -/
def Separate (policy : IdlePolicy) (life : List (Option Sight)) : Prop :=
  (∀ spell ∈ spells life, ¬ (spell.any policy.aged ∧ spell.any policy.quiet)) ∧
  (spells life).countP (·.any policy.aged) ≤ 1

section Sweeps

variable {policy : IdlePolicy}

theorem evaluate_of_covers {watch : Watch} {attached warned : Bool}
    (covered : policy.covers watch.session.kind watch.session.state) :
    policy.evaluate watch.session watch.now attached warned =
      if policy.stops (sight watch attached) then .stop
        (.inactive (watch.session.idleFor watch.now))
      else if warned then .keep
      else if policy.pastWarn (sight watch attached) then
        .warn (.inactive (watch.session.idleFor watch.now))
      else if policy.pastAge (sight watch attached) then
        .warn (.longRunning (watch.session.age watch.now))
      else .keep := by
  simp only [IdlePolicy.covers, Bool.and_eq_true, Bool.or_eq_true, Bool.not_eq_true',
    bne_iff_ne] at covered
  obtain ⟨⟨active, editor⟩, shell⟩ := covered
  have exempt :
      ((watch.session.kind == .shell || watch.session.kind == .task) && !policy.includeShells) =
        false := by
    rcases shell with shell | shell <;> simp [shell]
  have kind : (watch.session.kind == .editor) = false := by
    simpa using editor
  simp only [IdlePolicy.evaluate, active, exempt, kind, Bool.not_true, Bool.false_eq_true, if_false]
  rfl

theorem evaluate_of_not_covers {session : Session} {now : Int} {attached warned : Bool}
    (uncovered : ¬ policy.covers session.kind session.state) :
    policy.evaluate session now attached warned = .keep := by
  by_contra reported
  apply uncovered
  simp only [IdlePolicy.evaluate] at reported
  split at reported
  case isTrue => exact absurd rfl reported
  case isFalse active =>
    split at reported
    case isTrue => exact absurd rfl reported
    case isFalse shell =>
      split at reported
      case isTrue => exact absurd rfl reported
      case isFalse editor =>
        cases shells : policy.includeShells <;> simp_all [IdlePolicy.covers]

/-- What is past a threshold is not settled. -/
theorem not_settled {watch : Watch} {attached : Bool}
    (covered : policy.covers watch.session.kind watch.session.state)
    (due : policy.pastWarn (sight watch attached) ∨ policy.pastAge (sight watch attached)) :
    policy.isSettled watch.session watch.now = false := by
  have active : SessionState.isActive watch.session.state := by
    simp only [IdlePolicy.covers, Bool.and_eq_true] at covered
    exact covered.1.1
  rcases due with due | due
  · obtain ⟨after, set, reached⟩ := (Option.any_eq_true _ _).mp due
    have above : ¬ watch.session.idleFor watch.now < after :=
      Nat.not_lt.mpr (of_decide_eq_true reached)
    simp [IdlePolicy.isSettled, active, set, above]
  · obtain ⟨after, set, reached⟩ := (Option.any_eq_true _ _).mp due
    have above : ¬ watch.session.age watch.now < after :=
      Nat.not_lt.mpr (of_decide_eq_true reached)
    simp [IdlePolicy.isSettled, active, set, above]

/-- What one sweep does to a session that the policy covers. -/
inductive Swept (policy : IdlePolicy) (watch : Watch) (seen : Sight) :
    Watch × IdleAction → Prop where
  | stopped (stops : policy.stops seen) : Swept policy watch seen
      (watch, .stop (.inactive seen.idleFor))
  | reported (warned : watch.warned) (runs : policy.stops seen = false) : Swept policy watch seen
      (watch, .keep)
  | inactive (unwarned : watch.warned = false) (quiet : policy.quiet seen) :
    Swept policy watch seen ({ watch with warned := true }, .warn (.inactive seen.idleFor))
  | longRunning (unwarned : watch.warned = false) (aged : policy.aged seen) :
    Swept policy watch seen ({ watch with warned := true }, .warn (.longRunning seen.age))
  | below (unwarned : watch.warned = false) (runs : policy.stops seen = false)
      (busy : policy.pastWarn seen = false) (young : policy.pastAge seen = false) :
    Swept policy watch seen (watch, .keep)

/-- The bit stands only while something is due, so no sweep takes it back. -/
theorem sweep_cases (watch : Watch) (attached : Bool)
    (covered : policy.covers watch.session.kind watch.session.state)
    (kept : watch.warned → policy.pastWarn (sight watch attached) ∨
      policy.pastAge (sight watch attached)) :
    Swept policy watch (sight watch attached) (sweep policy watch attached) := by
  have same : (watch.warned && !policy.isSettled watch.session watch.now) = watch.warned := by
    cases warned : watch.warned
    case false => simp
    case true => simp [not_settled covered (kept warned)]
  have runs : sweep policy watch attached =
      match policy.evaluate watch.session watch.now attached watch.warned with
      | .keep => (watch, .keep)
      | .warn reason => ({ watch with warned := true }, .warn reason)
      | .stop reason => (watch, .stop reason) := by
    cases enabled : policy.isEnabled
    case false =>
      simp only [IdlePolicy.isEnabled, Bool.or_eq_false_iff, Option.isSome_eq_false_iff,
        Option.isNone_iff_eq_none] at enabled
      obtain ⟨⟨warn, stop⟩, age⟩ := enabled
      have silent : policy.evaluate watch.session watch.now attached watch.warned = .keep := by
        simp [evaluate_of_covers covered, IdlePolicy.stops, IdlePolicy.pastWarn, IdlePolicy.pastAge,
          warn, stop, age]
      simp [sweep, IdlePolicy.isEnabled, warn, stop, age, silent]
    case true =>
      obtain ⟨session, warned, now⟩ := watch
      simp only [sweep, enabled, same]
      rfl
  rw [runs, evaluate_of_covers covered]
  cases stops : policy.stops (sight watch attached)
  case true => exact .stopped stops
  case false =>
    cases warned : watch.warned
    case true => exact .reported warned stops
    case false =>
      cases past : policy.pastWarn (sight watch attached)
      case true => exact .inactive warned (by simp [IdlePolicy.quiet, past, stops])
      case false =>
        cases old : policy.pastAge (sight watch attached)
        case true => exact .longRunning warned (by simp [IdlePolicy.aged, old, past, stops])
        case false => exact .below warned stops past old

theorem pastWarn_wait {watch : Watch} {before : Bool} (wait : Nat) (after : Bool)
    (past : policy.pastWarn (sight watch before)) :
    policy.pastWarn (sight (watch.wait wait) after) := by
  obtain ⟨limit, set, reached⟩ := (Option.any_eq_true _ _).mp past
  apply (Option.any_eq_true _ _).mpr
  have reached : limit ≤ watch.session.idleFor watch.now :=
    of_decide_eq_true reached
  refine ⟨limit, set, decide_eq_true ?_⟩
  simp only [sight, Session.idleFor, Watch.wait] at reached ⊢
  omega

theorem pastAge_wait {watch : Watch} {before : Bool} (wait : Nat) (after : Bool)
    (past : policy.pastAge (sight watch before)) :
    policy.pastAge (sight (watch.wait wait) after) := by
  obtain ⟨limit, set, reached⟩ := (Option.any_eq_true _ _).mp past
  apply (Option.any_eq_true _ _).mpr
  have reached : limit ≤ watch.session.age watch.now :=
    of_decide_eq_true reached
  refine ⟨limit, set, decide_eq_true ?_⟩
  simp only [sight, Session.age, Watch.wait] at reached ⊢
  omega

end Sweeps

/-- What the sweeper says of a spell that it meets unreported. -/
structure Told (policy : IdlePolicy) (spell : List (Sight × IdleAction)) : Prop where
  inactive : spell.countP (·.2.isInactive) =
    if spell.any (policy.aged ·.1) then 0 else if spell.any (policy.quiet ·.1) then 1 else 0
  longRunning : spell.countP (·.2.isLongRunning) = if spell.any (policy.aged ·.1) then 1 else 0
  stopped : ∀ look ∈ spell, look.2.isStop = policy.stops look.1

/-- What it says of the rest of a spell that it has reported. -/
structure Silent (policy : IdlePolicy) (spell : List (Sight × IdleAction)) : Prop where
  inactive : spell.countP (·.2.isInactive) = 0
  longRunning : spell.countP (·.2.isLongRunning) = 0
  stopped : ∀ look ∈ spell, look.2.isStop = policy.stops look.1

namespace Told

variable {policy : IdlePolicy} {spell : List (Sight × IdleAction)} {seen : Sight}

theorem nil : Told policy [] := by
  constructor <;> simp

theorem pass {action : IdleAction} (rest : Told policy spell) (inactive : action.isInactive = false)
    (longRunning : action.isLongRunning = false) (stop : action.isStop = policy.stops seen)
    (quiet : policy.quiet seen = false) (aged : policy.aged seen = false) :
    Told policy ((seen, action) :: spell) := by
  constructor
  · rw [countP_cons_of_neg (by simp [inactive]), any_cons, any_cons, aged, quiet]
    exact rest.inactive
  · rw [countP_cons_of_neg (by simp [longRunning]), any_cons, aged]
    exact rest.longRunning
  · exact forall_mem_cons.mpr ⟨stop, rest.stopped⟩

/-- The sweep that reports the quiet: the age is not looked at from here on. -/
theorem inactive_cons {idleFor : Nat} (rest : Silent policy spell) (quiet : policy.quiet seen)
    (later : ∀ look ∈ spell, policy.aged look.1 = false) :
    Told policy ((seen, .warn (.inactive idleFor)) :: spell) := by
  have unstopped : policy.stops seen = false := by
    simp only [IdlePolicy.quiet, Bool.and_eq_true, Bool.not_eq_true'] at quiet
    exact quiet.2
  have now : policy.aged seen = false := by
    simp only [IdlePolicy.quiet, Bool.and_eq_true] at quiet
    simp [IdlePolicy.aged, quiet.1]
  have none_ : spell.any (policy.aged ·.1) = false := by
    simpa using later
  constructor
  · rw [countP_cons_of_pos rfl, rest.inactive, any_cons, any_cons, none_, now, quiet]
    rfl
  · rw [countP_cons_of_neg (by simp [IdleAction.isLongRunning]), rest.longRunning, any_cons, none_,
      now]
    rfl
  · exact forall_mem_cons.mpr ⟨by simp [IdleAction.isStop, unstopped], rest.stopped⟩

theorem longRunning_cons {age : Nat} (rest : Silent policy spell) (aged : policy.aged seen) :
    Told policy ((seen, .warn (.longRunning age)) :: spell) := by
  have unstopped : policy.stops seen = false := by
    simp only [IdlePolicy.aged, Bool.and_eq_true, Bool.not_eq_true'] at aged
    exact aged.2
  constructor
  · rw [countP_cons_of_neg (by simp [IdleAction.isInactive]), rest.inactive, any_cons, aged]
    rfl
  · rw [countP_cons_of_pos rfl, rest.longRunning, any_cons, aged]
    rfl
  · exact forall_mem_cons.mpr ⟨by simp [IdleAction.isStop, unstopped], rest.stopped⟩

end Told

theorem Silent.pass {policy : IdlePolicy} {spell : List (Sight × IdleAction)} {seen : Sight}
    {action : IdleAction} (rest : Silent policy spell) (inactive : action.isInactive = false)
    (longRunning : action.isLongRunning = false) (stop : action.isStop = policy.stops seen) :
    Silent policy ((seen, action) :: spell) := by
  constructor
  · simpa [inactive] using rest.inactive
  · simpa [longRunning] using rest.longRunning
  · exact forall_mem_cons.mpr ⟨stop, rest.stopped⟩

section Runs

variable {policy : IdlePolicy}

/-- The run of a covered session: the spell it is in, and every spell after that. -/
structure Runs (policy : IdlePolicy) (watch : Watch) (life : List (Option (Sight × IdleAction))) :
    Prop where
  split : ∃ spell later, spells life = spell :: later ∧
    (watch.warned = false → Told policy spell) ∧ (watch.warned → Silent policy spell) ∧
    (policy.pastWarn (sight watch false) → ∀ look ∈ spell, policy.aged look.1 = false) ∧
    ∀ spell ∈ later, Told policy spell

theorem run_spells (events : List Event) :
    ∀ watch : Watch, policy.covers watch.session.kind watch.session.state →
      (watch.warned → policy.pastWarn (sight watch false) ∨ policy.pastAge (sight watch false)) →
      Runs policy watch (run policy watch events) := by
  induction events with
  | nil =>
    intro watch covered kept
    refine ⟨[], [], rfl, fun _ => .nil, ?_, by simp, by simp⟩
    intro warned
    constructor <;> simp
  | cons event events ih =>
    intro watch covered kept
    cases event with
    | activity wait =>
      obtain ⟨spell, later, split, told, -, -, rest⟩ :=
        (ih (touchActivity (watch.wait wait)) covered (by simp [touchActivity])).split
      refine ⟨[], spell :: later, by simp [run, spells, split], fun _ => .nil, ?_, by simp, ?_⟩
      · intro warned
        constructor <;> simp
      · exact forall_mem_cons.mpr ⟨told rfl, rest⟩
    | sweep wait attached =>
      have kept' : (watch.wait wait).warned →
          policy.pastWarn (sight (watch.wait wait) attached) ∨
          policy.pastAge (sight (watch.wait wait) attached) := by
        intro warned
        rcases kept warned with past | past
        · exact .inl (pastWarn_wait wait attached past)
        · exact .inr (pastAge_wait wait attached past)
      have swept := sweep_cases (watch.wait wait) attached covered kept'
      have young : policy.pastWarn (sight watch false) →
          policy.aged (sight (watch.wait wait) attached) = false := by
        intro past
        simp [IdlePolicy.aged, pastWarn_wait wait attached past]
      simp only [run]
      generalize sweep policy (watch.wait wait) attached = after at swept
      cases swept with
      | stopped stops =>
        obtain ⟨spell, later, split, told, silent, unaged, rest⟩ :=
          (ih (watch.wait wait) covered kept').split
        have quiet : policy.quiet (sight (watch.wait wait) attached) = false := by
          simp [IdlePolicy.quiet, stops]
        have aged : policy.aged (sight (watch.wait wait) attached) = false := by
          simp [IdlePolicy.aged, stops]
        refine ⟨_ :: spell, later, by simp [spells, split]; rfl, ?_, ?_, ?_, rest⟩
        · exact fun unwarned => (told unwarned).pass rfl rfl stops.symm quiet aged
        · exact fun warned => (silent warned).pass rfl rfl stops.symm
        · exact fun past => forall_mem_cons.mpr ⟨young past, unaged (pastWarn_wait wait false past)⟩
      | reported warned runs =>
        obtain ⟨spell, later, split, told, silent, unaged, rest⟩ :=
          (ih (watch.wait wait) covered kept').split
        refine ⟨_ :: spell, later, by simp [spells, split]; rfl, ?_, ?_, ?_, rest⟩
        · exact fun unwarned => absurd warned
            (by simp [show (watch.wait wait).warned = false from unwarned])
        · exact fun warned => (silent warned).pass rfl rfl runs.symm
        · exact fun past => forall_mem_cons.mpr ⟨young past, unaged (pastWarn_wait wait false past)⟩
      | inactive unwarned quiet =>
        have past : policy.pastWarn (sight (watch.wait wait) false) := by
          simp only [IdlePolicy.quiet, Bool.and_eq_true] at quiet
          exact quiet.1
        obtain ⟨spell, later, split, -, silent, unaged, rest⟩ :=
          (ih { watch.wait wait with warned := true } covered (fun _ => .inl past)).split
        refine ⟨_ :: spell, later, by simp [spells, split]; rfl, ?_, ?_, ?_, rest⟩
        · exact fun _ => .inactive_cons (silent rfl) quiet (unaged past)
        · exact fun warned => absurd unwarned (by simp [show (watch.wait wait).warned from warned])
        · exact fun before => forall_mem_cons.mpr ⟨young before, unaged past⟩
      | longRunning unwarned aged =>
        have past : policy.pastAge (sight (watch.wait wait) false) := by
          simp only [IdlePolicy.aged, Bool.and_eq_true] at aged
          exact aged.1.1
        obtain ⟨spell, later, split, -, silent, unaged, rest⟩ :=
          (ih { watch.wait wait with warned := true } covered (fun _ => .inr past)).split
        refine ⟨_ :: spell, later, by simp [spells, split]; rfl, ?_, ?_, ?_, rest⟩
        · exact fun _ => .longRunning_cons (silent rfl) aged
        · exact fun warned => absurd unwarned (by simp [show (watch.wait wait).warned from warned])
        · exact fun before => forall_mem_cons.mpr
            ⟨young before, unaged (pastWarn_wait wait false before)⟩
      | below unwarned runs busy fresh =>
        obtain ⟨spell, later, split, told, -, unaged, rest⟩ :=
          (ih (watch.wait wait) covered kept').split
        have quiet : policy.quiet (sight (watch.wait wait) attached) = false := by
          simp [IdlePolicy.quiet, busy]
        have aged : policy.aged (sight (watch.wait wait) attached) = false := by
          simp [IdlePolicy.aged, fresh]
        refine ⟨_ :: spell, later, by simp [spells, split]; rfl, ?_, ?_, ?_, rest⟩
        · exact fun unwarned => (told unwarned).pass rfl rfl runs.symm quiet aged
        · exact fun warned => absurd unwarned (by simp [show (watch.wait wait).warned from warned])
        · exact fun past => forall_mem_cons.mpr ⟨young past, unaged (pastWarn_wait wait false past)⟩

theorem run_told {kind : SessionKind} {state : Orchestration.SessionState}
    (covered : policy.covers kind state) (at_ : Int) (events : List Event) :
    ∀ spell ∈ spells (run policy (born kind state at_) events), Told policy spell := by
  obtain ⟨spell, later, split, told, -, -, rest⟩ :=
    (run_spells events (born kind state at_) covered (by simp [born])).split
  rw [split]
  exact forall_mem_cons.mpr ⟨told rfl, rest⟩

theorem sweep_watch (policy : IdlePolicy) (watch : Watch) (attached : Bool) :
    (sweep policy watch attached).1.session = watch.session ∧ (sweep policy watch attached).1.now =
      watch.now := by
  unfold sweep
  split
  · exact ⟨rfl, rfl⟩
  · dsimp only
    split <;> exact ⟨rfl, rfl⟩

theorem run_sights (events : List Event) (watch : Watch) :
    (run policy watch events).map (Option.map Prod.fst) =
      sights watch.session watch.now events := by
  induction events generalizing watch with
  | nil => rfl
  | cons event events ih =>
    cases event with
    | activity wait =>
      simp only [run, sights, map_cons, ih]
      rfl
    | sweep wait attached =>
      obtain ⟨session, now⟩ := sweep_watch policy (watch.wait wait) attached
      simp only [run, sights, map_cons, ih, session, now]
      rfl

theorem sweep_of_not_covers (watch : Watch) (attached : Bool)
    (uncovered : ¬ policy.covers watch.session.kind watch.session.state) :
    (sweep policy watch attached).2 = .keep := by
  unfold sweep
  split
  · rfl
  · simp only [evaluate_of_not_covers uncovered]

theorem run_of_not_covers (events : List Event) :
    ∀ watch : Watch, ¬ policy.covers watch.session.kind watch.session.state →
      ∀ look, some look ∈ run policy watch events → look.2 = .keep := by
  induction events with
  | nil => simp [run]
  | cons event events ih =>
    intro watch uncovered look met
    cases event with
    | activity wait =>
      apply ih (touchActivity (watch.wait wait)) uncovered
      simpa [run] using met
    | sweep wait attached =>
      rcases mem_cons.mp met with now | later
      · cases now
        exact sweep_of_not_covers (watch.wait wait) attached uncovered
      · apply ih _ _ look later
        rw [(sweep_watch policy (watch.wait wait) attached).1]
        exact uncovered

end Runs

section Spells

variable {α β : Type}

theorem spells_ne_nil (life : List (Option α)) : spells life ≠ [] := by
  induction life with
  | nil => simp [spells]
  | cons entry life ih => cases entry <;> simp [spells, ih]

theorem spells_map (f : α → β) (life : List (Option α)) :
    spells (life.map (Option.map f)) = (spells life).map (List.map f) := by
  induction life with
  | nil => rfl
  | cons entry life ih =>
    cases entry with
    | none => simp [spells, ih]
    | some look =>
      simp only [map_cons, Option.map_some, spells, ih]
      cases spells life <;> simp

theorem spells_flatten (life : List (Option α)) : (spells life).flatten = life.filterMap id := by
  induction life with
  | nil => rfl
  | cons entry life ih =>
    cases entry with
    | none => simpa [spells] using ih
    | some look =>
      have kept : (some look :: life).filterMap id = look :: life.filterMap id := rfl
      rw [kept, ← ih, spells]
      cases split : spells life
      case nil => exact absurd split (spells_ne_nil life)
      case cons => simp

end Spells

section Reports

variable {policy : IdlePolicy}

theorem Told.found_iff {spell : List (Sight × IdleAction)} (told : Told policy spell) :
    (∃ look ∈ spell, policy.pastWarn look.1 ∧ ¬ look.2.isStop) ↔ spell.any (policy.quiet ·.1) := by
  rw [any_eq_true]
  apply exists_congr
  intro look
  apply and_congr_right
  intro member
  simp [IdlePolicy.quiet, told.stopped look member]

/-- A spell has its one notice unless the age was reported in it first. -/
theorem Told.notice_iff {spell : List (Sight × IdleAction)} (told : Told policy spell) :
    ((∃ look ∈ spell, policy.pastWarn look.1 ∧ ¬ look.2.isStop) → spell.countP (·.2.isInactive) =
      1) ↔
      ¬ (spell.any (policy.aged ·.1) ∧ spell.any (policy.quiet ·.1)) := by
  rw [told.found_iff, told.inactive]
  cases spell.any (policy.aged ·.1) <;> cases spell.any (policy.quiet ·.1) <;> simp

theorem longRunning_flatten {life : List (List (Sight × IdleAction))}
    (told : ∀ spell ∈ life, Told policy spell) :
    life.flatten.countP (·.2.isLongRunning) = life.countP (·.any (policy.aged ·.1)) := by
  induction life with
  | nil => rfl
  | cons spell life ih =>
    obtain ⟨first, rest⟩ := forall_mem_cons.mp told
    rw [flatten_cons, countP_append, first.longRunning, ih rest, countP_cons, Nat.add_comm]

theorem one_notice_iff (policy : IdlePolicy) (kind : SessionKind)
    (state : Orchestration.SessionState) (at_ : Int) (events : List Event) :
    OneNotice policy (run policy (born kind state at_) events) ↔
      if policy.covers kind state then Separate policy (sights (born kind state at_).session at_
        events)
      else ∀ seen, some seen ∈ sights (born kind state at_).session at_ events →
        ¬ policy.pastWarn seen := by
  have seen : sights (born kind state at_).session at_ events =
      (run policy (born kind state at_) events).map (Option.map Prod.fst) :=
    (run_sights events (born kind state at_)).symm
  rw [seen]
  generalize life : run policy (born kind state at_) events = looks
  split
  case isTrue covered =>
    have told : ∀ spell ∈ spells looks, Told policy spell := by
      rw [← life]
      exact run_told covered at_ events
    rw [OneNotice, Separate, spells_map, longRunning_flatten told, countP_map, forall_mem_map]
    apply and_congr
    · apply forall_congr'
      intro spell
      apply forall_congr'
      intro member
      rw [(told spell member).notice_iff, any_map, any_map]
      rfl
    · simp only [Function.comp_def, any_map]
  case isFalse uncovered =>
    have kept : ∀ look, some look ∈ looks → look.2 = .keep := by
      rw [← life]
      exact run_of_not_covers events (born kind state at_) uncovered
    have mem : ∀ spell ∈ spells looks, ∀ look ∈ spell, some look ∈ looks := by
      intro spell among look member
      have flat : look ∈ (spells looks).flatten := mem_flatten.mpr ⟨spell, among, member⟩
      simpa [spells_flatten] using flat
    have silent : ∀ spell ∈ spells looks, spell.countP (·.2.isInactive) = 0 := by
      intro spell among
      apply countP_eq_zero.mpr
      intro look member
      simp [kept look (mem spell among look member), IdleAction.isInactive]
    constructor
    · rintro ⟨notices, -⟩ seen member past
      obtain ⟨look, met, same⟩ := List.mem_map.mp member
      obtain ⟨look, rfl, rfl⟩ := Option.map_eq_some_iff.mp same
      have flat : look ∈ (spells looks).flatten := by
        simpa [spells_flatten] using met
      obtain ⟨spell, among, inside⟩ := mem_flatten.mp flat
      have one := notices spell among ⟨look, inside, past, by simp [kept look met, IdleAction.isStop]⟩
      simp [silent spell among] at one
    · intro calm
      constructor
      · rintro spell among ⟨look, inside, past, -⟩
        exact absurd past (calm look.1 (List.mem_map.mpr ⟨some look, mem spell among look inside,
          rfl⟩))
      · have none_ : (spells looks).flatten.countP (·.2.isLongRunning) = 0 := by
          apply countP_eq_zero.mpr
          intro look member
          have met : some look ∈ looks := by
            simpa [spells_flatten] using member
          simp [kept look met, IdleAction.isLongRunning]
        rw [none_]
        exact Nat.zero_le 1

/-- A session busy until 80 is swept at 100, when it is old, and at 200, when it is quiet too. -/
theorem not_one_notice :
    ¬ ∀ (policy : IdlePolicy) (kind : SessionKind) (state : Orchestration.SessionState) (at_ : Int)
      (events : List Event), SessionState.isActive state →
        OneNotice policy (run policy (born kind state at_) events) := by
  intro always
  have notice := (always { warnAfter := some 60, longRunningAfter := some 100 } .agent .running 0
    [.activity 80, .sweep 20 false, .sweep 100 false] rfl).1
  revert notice
  decide

end Reports

end ForgeNode.Idle
