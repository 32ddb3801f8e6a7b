/-! Runs of a labelled transition system: what one step preserves, a run preserves. -/

namespace ForgeNode

open List

universe u v

/-- One step taken: where it was taken, its label and where it led. -/
structure Taken (State : Type u) (Event : Type v) where
  before : State
  event : Event
  after : State

variable {State : Type u} {Event : Type v} {step : State → Event → State → Prop}

/-- A run between two states, with the steps it took. -/
inductive Run (step : State → Event → State → Prop) :
    State → List (Taken State Event) → State → Prop where
  | nil : Run step state [] state
  | cons (taken : step first event second) (rest : Run step second steps last) :
      Run step first (⟨first, event, second⟩ :: steps) last

namespace Run

variable {first last : State} {steps : List (Taken State Event)}

/-- Guarded steps keep an invariant along a run whose every step meets the guard. -/
theorem guarded (Inv : State → Prop) (Guard : Taken State Event → Prop)
    (preserved : ∀ {before event after}, step before event after → Inv before →
      Guard ⟨before, event, after⟩ → Inv after)
    (run : Run step first steps last) (start : Inv first) (guards : ∀ taken ∈ steps, Guard taken) :
    Inv last ∧ ∀ taken ∈ steps, Inv taken.before ∧ Inv taken.after := by
  induction run with
  | nil => exact ⟨start, fun _ member => by cases member⟩
  | cons taken rest ih =>
    have next := preserved taken start (guards _ mem_cons_self)
    obtain ⟨final, inner⟩ := ih next (fun other member => guards other (mem_cons_of_mem _ member))
    refine ⟨final, ?_⟩
    intro other member
    rcases mem_cons.mp member with rfl | later
    · exact ⟨start, next⟩
    · exact inner other later

theorem invariant (Inv : State → Prop)
    (preserved : ∀ {before event after}, step before event after → Inv before → Inv after)
    (run : Run step first steps last) (start : Inv first) :
    Inv last ∧ ∀ taken ∈ steps, Inv taken.before ∧ Inv taken.after :=
  guarded Inv (fun _ => True) (fun taken held _ => preserved taken held) run start
    (fun _ _ => trivial)

theorem within (holds : Taken State Event → Prop) (run : Run step first steps last)
    (all : ∀ taken ∈ steps, holds taken) :
    Run (fun before event after => step before event after ∧ holds ⟨before, event, after⟩)
    first steps last := by
  induction run with
  | nil => exact .nil
  | cons taken rest ih =>
    exact .cons ⟨taken, all _ mem_cons_self⟩ (ih fun other member =>
      all other (mem_cons_of_mem _ member))

theorem step_of_mem (run : Run step first steps last) {taken : Taken State Event}
    (member : taken ∈ steps) : step taken.before taken.event taken.after := by
  induction run with
  | nil => cases member
  | cons here rest ih =>
    rcases mem_cons.mp member with rfl | later
    · exact here
    · exact ih later

/-- Where the guard decides each step's law under an invariant that the guard itself
preserves, a whole run keeps the law exactly when each of its steps meets the guard. -/
theorem law_iff_guard (Inv : State → Prop) (Law Guard : Taken State Event → Prop)
    (preserved : ∀ {before event after}, step before event after → Inv before →
      Guard ⟨before, event, after⟩ → Inv after)
    (decided : ∀ {before event after}, step before event after → Inv before →
      (Law ⟨before, event, after⟩ ↔ Guard ⟨before, event, after⟩))
    (run : Run step first steps last) (start : Inv first) :
    (∀ taken ∈ steps, Law taken) ↔ ∀ taken ∈ steps, Guard taken := by
  induction run with
  | nil => simp
  | cons taken rest ih =>
    simp only [forall_mem_cons]
    constructor
    · intro ⟨here, later⟩
      have guard := (decided taken start).mp here
      exact ⟨guard, (ih (preserved taken start guard)).mp later⟩
    · intro ⟨guard, later⟩
      exact ⟨(decided taken start).mpr guard, (ih (preserved taken start guard)).mpr later⟩

theorem split {front back : List (Taken State Event)} (run : Run step first (front ++ back) last) :
    ∃ middle, Run step first front middle ∧ Run step middle back last := by
  induction front generalizing first with
  | nil => exact ⟨first, .nil, run⟩
  | cons head rest ih =>
    cases run with
    | cons taken later =>
      obtain ⟨middle, before, after⟩ := ih later
      exact ⟨middle, .cons taken before, after⟩

theorem exists_turn (holds : State → Prop) (run : Run step first steps last) (start : ¬ holds first)
    (finish : holds last) : ∃ taken ∈ steps, ¬ holds taken.before ∧ holds taken.after := by
  induction run with
  | nil => exact absurd finish start
  | @cons first event second steps last taken rest ih =>
    by_cases now : holds second
    · exact ⟨_, mem_cons_self, start, now⟩
    · obtain ⟨later, member, turned⟩ := ih now finish
      exact ⟨later, mem_cons_of_mem _ member, turned⟩

/-- The states of a run in their order. -/
def states (first : State) (steps : List (Taken State Event)) : List State :=
  first :: steps.map Taken.after

theorem before_mem_states (run : Run step first steps last) {taken : Taken State Event}
    (member : taken ∈ steps) : taken.before ∈ states first steps := by
  induction run with
  | nil => cases member
  | cons here rest ih =>
    rcases mem_cons.mp member with rfl | later
    · exact mem_cons_self
    · exact mem_cons_of_mem _ (ih later)

theorem last_mem_states (run : Run step first steps last) : last ∈ states first steps := by
  induction run with
  | nil => exact mem_cons_self
  | cons here rest ih => exact mem_cons_of_mem _ ih

/-- Guarded steps keep an invariant in every state of a run. -/
theorem guarded_states (Inv : State → Prop) (Guard : Taken State Event → Prop)
    (preserved : ∀ {before event after}, step before event after → Inv before →
      Guard ⟨before, event, after⟩ → Inv after)
    (run : Run step first steps last) (start : Inv first) (guards : ∀ taken ∈ steps, Guard taken) :
    ∀ state ∈ states first steps, Inv state := by
  obtain ⟨_, each⟩ := run.guarded Inv Guard preserved start guards
  intro state member
  rcases mem_cons.mp member with rfl | later
  · exact start
  · obtain ⟨taken, there, rfl⟩ := List.mem_map.mp later
    exact (each taken there).2

theorem invariant_states (Inv : State → Prop)
    (preserved : ∀ {before event after}, step before event after → Inv before → Inv after)
    (run : Run step first steps last) (start : Inv first) :
    ∀ state ∈ states first steps, Inv state :=
  guarded_states Inv (fun _ => True) (fun taken held _ => preserved taken held) run start
    (fun _ _ => trivial)

/-- What holds at last has held since some step, or from the first on. -/
theorem held_since (holds : State → Prop) (run : Run step first steps last) (finish : holds last) :
    (∀ state ∈ states first steps, holds state) ∨
      ∃ front taken back, steps = front ++ taken :: back ∧ ¬ holds taken.before ∧
        ∀ state ∈ states taken.after back, holds state := by
  induction run with
  | nil => exact .inl fun state member => mem_singleton.mp member ▸ finish
  | @cons first event second steps last here rest ih =>
    rcases ih finish with always | ⟨front, taken, back, rfl, turned, since⟩
    · by_cases start : holds first
      · refine .inl fun state member => ?_
        rcases mem_cons.mp member with rfl | later
        · exact start
        · exact always state later
      · exact .inr ⟨[], _, steps, rfl, start, always⟩
    · exact .inr ⟨_ :: front, taken, back, rfl, turned, since⟩

variable (related : State → State → Prop)

/-- What relates the two ends of each step, and composes, relates each state to all later ones. -/
theorem states_pairwise (run : Run step first steps last)
    (trans : ∀ {a b c}, related a b → related b c → related a c)
    (each : ∀ taken ∈ steps, related taken.before taken.after) :
    (states first steps).Pairwise related := by
  induction run with
  | nil => exact pairwise_singleton ..
  | cons here rest ih =>
    have later := ih fun taken member => each taken (mem_cons_of_mem _ member)
    have now := each _ mem_cons_self
    refine pairwise_cons.mpr ⟨fun state member => ?_, later⟩
    rcases mem_cons.mp member with rfl | beyond
    · exact now
    · exact trans now ((pairwise_cons.mp later).1 state beyond)

theorem steps_pairwise (run : Run step first steps last)
    (refl : ∀ a, related a a) (trans : ∀ {a b c}, related a b → related b c → related a c)
    (each : ∀ taken ∈ steps, related taken.before taken.after) :
    steps.Pairwise fun earlier later => related earlier.after later.before := by
  induction run with
  | nil => exact List.Pairwise.nil
  | cons here rest ih =>
    have each' := fun taken member => each taken (mem_cons_of_mem _ member)
    refine pairwise_cons.mpr ⟨fun taken member => ?_, ih each'⟩
    rcases mem_cons.mp (rest.before_mem_states member) with same | beyond
    · exact same ▸ refl _
    · have pairs : (states _ _).Pairwise related := rest.states_pairwise related trans each'
      exact (pairwise_cons.mp pairs).1 _ beyond

section Deterministic

variable (next : State → Event → State) (allows : State → Event → Bool)

/-- Where a list of events leads, the steps on the way, and whether each may happen there. -/
def replay (state : State) : List Event → State
  | [] => state
  | event :: rest => replay (next state event) rest

def trace (state : State) : List Event → List (Taken State Event)
  | [] => []
  | event :: rest => ⟨state, event, next state event⟩ :: trace (next state event) rest

def admits (state : State) : List Event → Bool
  | [] => true
  | event :: rest => allows state event && admits (next state event) rest

theorem event_mem_of_trace {next} {events : List Event} {taken : Taken State Event}
    (member : taken ∈ trace next first events) : taken.event ∈ events := by
  induction events generalizing first with
  | nil => cases member
  | cons event rest ih =>
    rcases mem_cons.mp member with rfl | later
    · exact mem_cons_self
    · exact mem_cons_of_mem _ (ih later)

theorem of_admits {next allows} {events : List Event}
    (taken : ∀ {state event}, allows state event = true → step state event (next state event))
    (admitted : admits next allows first events = true) :
    Run step first (trace next first events) (replay next first events) := by
  induction events generalizing first with
  | nil => exact .nil
  | cons event rest ih =>
    obtain ⟨here, later⟩ := Bool.and_eq_true_iff.mp admitted
    exact .cons (taken here) (ih later)

end Deterministic

end Run

end ForgeNode
