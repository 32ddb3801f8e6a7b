/-! Critical sections: programs over a state that may fail, where what was changed before
a failure stays changed, with the rules for what they leave behind. -/

namespace ForgeNode

universe u v

section Checks

variable {ε : Type u} {α β : Type v} {ι : Type u}

/-- Refuse with an error unless a condition holds. -/
def require (condition : Prop) [Decidable condition] (error : ε) : Except ε Unit :=
  if condition then .ok () else .error error

/-- `ok_or`. -/
def found (value : Option α) (error : ε) : Except ε α :=
  match value with
  | some value => .ok value
  | none => .error error

@[simp] theorem require_eq_ok {condition : Prop} [Decidable condition] {error : ε} {done : Unit} :
    require condition error = .ok done ↔ condition := by
  unfold require
  split <;> simp_all

@[simp] theorem found_eq_ok {value : Option α} {error : ε} {result : α} :
    found value error = .ok result ↔ value = some result := by
  cases value <;> simp [found]

theorem found_eq_error {value : Option α} {error other : ε} :
    found value error = .error other ↔ value = none ∧ error = other := by
  cases value <;> simp [found]

@[simp] theorem bind_eq_ok {first : Except ε α} {next : α → Except ε β} {result : β} :
    (first >>= next) = .ok result ↔ ∃ value, first = .ok value ∧ next value = .ok result := by
  cases first <;> simp [bind, Except.bind]

@[simp] theorem pure_eq_ok {value result : α} :
    (pure value : Except ε α) = .ok result ↔ value = result := by
  simp [pure, Except.pure]

@[simp] theorem mapError_eq_ok {ε' : Type u} {wrap : ε → ε'} {first : Except ε α} {result : α} :
    first.mapError wrap = .ok result ↔ first = .ok result := by
  cases first with
  | ok value => exact ⟨fun same => congrArg Except.ok (Except.ok.inj same),
      fun same => congrArg Except.ok (Except.ok.inj same)⟩
  | error failure => exact ⟨fun same => (by cases same), fun same => (by cases same)⟩

/-- Check every item in turn. -/
def checkEach (check : ι → Except ε Unit) : List ι → Except ε Unit
  | [] => .ok ()
  | item :: rest => check item >>= fun _ => checkEach check rest

theorem checkEach_eq_ok {check : ι → Except ε Unit} {items : List ι} {done : Unit} :
    checkEach check items = .ok done ↔ ∀ item ∈ items, check item = .ok () := by
  induction items with
  | nil => simp [checkEach]
  | cons item rest ih =>
    rw [List.forall_mem_cons, checkEach, bind_eq_ok, ← ih]
    exact ⟨fun ⟨_, first, later⟩ => ⟨first, later⟩, fun ⟨first, later⟩ => ⟨_, first, later⟩⟩

end Checks

/-- A program that reads and changes a state and gives a result or an error. -/
def Section (σ ε α : Type u) : Type u := σ → Except ε α × σ

namespace Section

variable {σ τ ε ε' α β ι : Type u}

def run (program : Section σ ε α) (state : σ) : Except ε α × σ := program state

instance : Monad (Section σ ε) where
  pure value := fun state => (.ok value, state)
  bind program next := fun state =>
    match program state with
    | (.ok value, after) => next value after
    | (.error error, after) => (.error error, after)

/-- Read the state and maybe refuse, changing nothing. -/
def check (look : σ → Except ε α) : Section σ ε α := fun state => (look state, state)

def change (update : σ → σ) : Section σ ε PUnit := fun state => (.ok ⟨⟩, update state)

/-- A program over one part of the state, its errors wrapped. -/
def within (get : σ → τ) (set : τ → σ → σ) (wrap : ε → ε') (program : Section τ ε α) :
    Section σ ε' α := fun state =>
  ((program (get state)).1.mapError wrap, set (program (get state)).2 state)

/-- Drop an error: `if let Err(error) = .. { warn }`. -/
def ignore (program : Section σ ε PUnit) : Section σ ε PUnit := fun state =>
  (.ok ⟨⟩, (program state).2)

/-- Run a program for each item, up to the first error. -/
def each (body : ι → Section σ ε PUnit) : List ι → Section σ ε PUnit
  | [] => pure ⟨⟩
  | item :: rest => do
    body item
    each body rest

/-- What the program gives and leaves, started in a state, meets a condition. -/
def Meets (program : Section σ ε α) (state : σ) (post : Except ε α → σ → Prop) : Prop :=
  post (program.run state).1 (program.run state).2

variable {program : Section σ ε α} {next : α → Section σ ε β} {state : σ}
  {post : Except ε α → σ → Prop} {goal : Except ε β → σ → Prop}

namespace Meets

theorem mono {weaker : Except ε α → σ → Prop} (meets : program.Meets state post)
    (implies : ∀ result after, post result after → weaker result after) :
    program.Meets state weaker :=
  implies _ _ meets

theorem both {other : Except ε α → σ → Prop} (first : program.Meets state post)
    (second : program.Meets state other) :
    program.Meets state fun result after => post result after ∧ other result after :=
  ⟨first, second⟩

theorem pure {value : α} (holds : post (.ok value) state) :
    (Pure.pure value : Section σ ε α).Meets state post :=
  holds

theorem bind (first : program.Meets state post)
    (failed : ∀ error after, post (.error error) after → goal (.error error) after)
    (passed : ∀ value after, post (.ok value) after → (next value).Meets after goal) :
    (program >>= next).Meets state goal := by
  unfold Meets run at first ⊢
  cases result : program state with
  | mk outcome after =>
    rw [result] at first
    cases outcome with
    | error error =>
      have shape : (program >>= next) state = (.error error, after) := by
        simp only [Bind.bind, result]
      rw [shape]
      exact failed error after first
    | ok value =>
      have shape : (program >>= next) state = next value after := by
        simp only [Bind.bind, result]
      rw [shape]
      exact passed value after first

theorem check {look : σ → Except ε α} (holds : post (look state) state) :
    (Section.check look).Meets state post :=
  holds

/-- A check refuses and leaves the state alone, or passes. -/
theorem check_bind {look : σ → Except ε α}
    (failed : ∀ error, look state = .error error → goal (.error error) state)
    (passed : ∀ value, look state = .ok value → (next value).Meets state goal) :
    (Section.check look >>= next).Meets state goal := by
  have looked : (Section.check look).Meets state fun result after =>
    look state = result ∧ after = state := ⟨rfl, rfl⟩
  refine looked.bind ?_ ?_
  · rintro error after ⟨refused, rfl⟩
    exact failed error refused
  · rintro value after ⟨answer, rfl⟩
    exact passed value answer

theorem change {update : σ → σ} {post : Except ε PUnit → σ → Prop}
    (holds : post (.ok ⟨⟩) (update state)) : (Section.change update).Meets state post :=
  holds

theorem change_bind {update : σ → σ} {next : PUnit → Section σ ε β}
    (rest : (next ⟨⟩).Meets (update state) goal) :
    (Section.change update >>= next).Meets state goal :=
  rest

theorem within {get : σ → τ} {set : τ → σ → σ} {wrap : ε → ε'} {part : Section τ ε α}
    {post : Except ε' α → σ → Prop}
    (inner : part.Meets (get state) fun result after =>
      post (result.mapError wrap) (set after state)) :
    (Section.within get set wrap part).Meets state post :=
  inner

theorem ignore {program : Section σ ε PUnit} {post : Except ε PUnit → σ → Prop}
    (inner : program.Meets state fun _ after => post (.ok ⟨⟩) after) :
    (Section.ignore program).Meets state post :=
  inner

/-- A loop rule: `inv` speaks of the items still to come. -/
theorem each {body : ι → Section σ ε PUnit} {items : List ι} {post : Except ε PUnit → σ → Prop}
    (inv : List ι → σ → Prop) (start : inv items state)
    (step : ∀ item rest before, inv (item :: rest) before → (body item).Meets before
      fun result after => match result with
        | .ok _ => inv rest after
        | .error error => post (.error error) after)
    (done : ∀ after, inv [] after → post (.ok ⟨⟩) after) :
    (Section.each body items).Meets state post := by
  induction items generalizing state with
  | nil => exact pure (done state start)
  | cons item rest ih =>
    unfold Section.each
    refine Meets.bind (step item rest state start) ?_ ?_
    · intro error after holds
      exact holds
    · intro value after holds
      exact ih holds

/-- What every pass keeps, whether it fails or not, the loop keeps. -/
theorem each_keeps {body : ι → Section σ ε PUnit} {items : List ι} (inv : σ → Prop)
    (start : inv state)
    (step : ∀ item ∈ items, ∀ before, inv before →
      (body item).Meets before fun _ after => inv after) :
    (Section.each body items).Meets state fun _ after => inv after := by
  induction items generalizing state with
  | nil => exact pure start
  | cons item rest ih =>
    unfold Section.each
    refine Meets.bind (step item List.mem_cons_self state start) ?_ ?_
    · intro error after holds
      exact holds
    · intro value after holds
      exact ih holds fun other member => step other (List.mem_cons_of_mem _ member)

end Meets

/-- Whatever the program does, it keeps an invariant. -/
def Preserves (inv : σ → Prop) (program : Section σ ε α) : Prop :=
  ∀ state, inv state → program.Meets state fun _ after => inv after

namespace Preserves

variable {inv : σ → Prop}

theorem pure {value : α} : Preserves inv (Pure.pure value : Section σ ε α) :=
  fun _ holds => holds

theorem bind (first : Preserves inv program) (rest : ∀ value, Preserves inv (next value)) :
    Preserves inv (program >>= next) :=
  fun state holds => (first state holds).bind (fun _ _ kept => kept) fun value after kept =>
    rest value after kept

theorem check {look : σ → Except ε α} : Preserves inv (Section.check look) :=
  fun _ holds => holds

theorem check_bind {look : σ → Except ε α}
    (rest : ∀ state value, inv state → look state = .ok value → Preserves inv (next value)) :
    Preserves inv (Section.check look >>= next) :=
  fun state holds => Meets.check_bind (fun _ _ => holds) fun value found =>
    rest state value holds found state holds

theorem change {update : σ → σ} (keeps : ∀ state, inv state → inv (update state)) :
    Preserves inv (Section.change update : Section σ ε PUnit) :=
  keeps

theorem ignore {program : Section σ ε PUnit} (keeps : Preserves inv program) :
    Preserves inv (Section.ignore program) :=
  keeps

theorem each {body : ι → Section σ ε PUnit} {items : List ι}
    (keeps : ∀ item ∈ items, Preserves inv (body item)) : Preserves inv (Section.each body items) :=
  fun _ holds => Meets.each_keeps inv holds keeps

end Preserves

end Section

end ForgeNode
