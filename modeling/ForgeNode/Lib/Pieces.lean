import Mathlib.Data.List.TakeWhile

/-! The longest runs of elements with a property, which splitting a list at the others leaves. -/

namespace ForgeNode.Pieces

open List

universe u

variable {α : Type u} (inside : α → Bool)

/-- A run of elements with a property that goes on at neither end. -/
structure Stretch (items front run back : List α) : Prop where
  parts : items = front ++ run ++ back
  all : ∀ item ∈ run, inside item = true
  before : ∀ item, front.getLast? = some item → inside item = false
  after : ∀ item, back.head? = some item → inside item = false

variable {inside} {items front run back : List α}

theorem Stretch.of_cons {item : α} (some_ : front ≠ [])
    (runs : Stretch inside items front run back) :
    Stretch inside (item :: items) (item :: front) run back where
  parts := by rw [runs.parts]; rfl
  all := runs.all
  before other last := by
    rw [getLast?_cons_of_ne_nil some_] at last
    exact runs.before other last
  after := runs.after

theorem Stretch.start (runs : Stretch inside items [] run back) : run = items.takeWhile inside := by
  rw [runs.parts, nil_append, takeWhile_append_of_pos runs.all]
  have stops : back.takeWhile inside = [] := by
    cases back with
    | nil => rfl
    | cons item rest =>
      rw [takeWhile_cons_of_neg (by rw [runs.after item rfl]; exact Bool.false_ne_true)]
  rw [stops, append_nil]

theorem run_takeWhile (items : List α) :
    Stretch inside items [] (items.takeWhile inside) (items.dropWhile inside) where
  parts := takeWhile_append_dropWhile.symm
  all _ listed := mem_takeWhile_imp listed
  before _ never := by cases never
  after item first := by
    have stops := head?_dropWhile_not inside items
    rw [first] at stops
    exact stops

theorem Stretch.takeWhile_ahead (runs : Stretch inside items front run back) :
    back.takeWhile inside = [] :=
  (Stretch.start ⟨rfl, fun _ never => absurd never not_mem_nil, (fun _ never => by cases never),
    runs.after⟩).symm

theorem Stretch.takeWhile_behind (runs : Stretch inside items front run back) :
    (front ++ run).reverse.takeWhile inside = run.reverse := by
  rw [reverse_append]
  refine (Stretch.start ⟨rfl, ?_, (fun _ never => by cases never), ?_⟩).symm
  · exact fun item listed => runs.all item (mem_reverse.mp listed)
  · intro item first
    rw [head?_reverse] at first
    exact runs.before item first

theorem Stretch.dropWhile_behind (runs : Stretch inside items front run back) :
    (front ++ run).reverse.dropWhile inside = front.reverse := by
  have whole := @takeWhile_append_dropWhile _ inside (front ++ run).reverse
  rw [runs.takeWhile_behind, reverse_append] at whole
  rw [reverse_append]
  exact append_cancel_left whole

/-- Splitting at the other elements gives the run at the start and every run after one of them. -/
theorem splitOnP_parts (items : List α) : ∃ later, (items.splitOnP fun item => !inside item) =
    items.takeWhile inside :: later ∧
      ∀ run, run ∈ later ↔ ∃ front back, front ≠ [] ∧ Stretch inside items front run back := by
  induction items with
  | nil =>
    refine ⟨[], rfl, fun run => ⟨fun never => absurd never not_mem_nil, ?_⟩⟩
    rintro ⟨front, back, some_, runs⟩
    have empty := runs.parts
    simp only [nil_eq, append_eq_nil_iff] at empty
    exact absurd empty.1.1 some_
  | cons item rest ih =>
    obtain ⟨later, shape, mem⟩ := ih
    rw [splitOnP_cons_eq_if_modifyHead, shape]
    cases within : inside item with
    | true =>
      refine ⟨later, ?_, fun run => ?_⟩
      · rw [takeWhile_cons_of_pos within]
        rfl
      · rw [mem]
        constructor
        · rintro ⟨front, back, some_, runs⟩
          exact ⟨item :: front, back, cons_ne_nil _ _, runs.of_cons some_⟩
        · rintro ⟨front, back, some_, runs⟩
          cases front with
          | nil => exact absurd rfl some_
          | cons head front =>
            obtain ⟨rfl, tail⟩ := List.cons.inj runs.parts
            cases front with
            | nil =>
              rw [runs.before item rfl] at within
              cases within
            | cons second front =>
              exact ⟨second :: front, back, cons_ne_nil _ _, tail, runs.all,
                fun other last => runs.before other (by rw [getLast?_cons_cons]; exact last),
                runs.after⟩
    | false =>
      refine ⟨rest.takeWhile inside :: later, ?_, fun run => ?_⟩
      · rw [takeWhile_cons_of_neg (by rw [within]; exact Bool.false_ne_true)]
        rfl
      · rw [mem_cons, mem]
        constructor
        · rintro (rfl | ⟨front, back, some_, runs⟩)
          · refine ⟨[item], rest.dropWhile inside, cons_ne_nil _ _, ?_, (run_takeWhile rest).all, ?_,
              (run_takeWhile rest).after⟩
            · exact congrArg (item :: ·) (run_takeWhile rest).parts
            · intro other last
              obtain rfl := Option.some.inj last
              exact within
          · exact ⟨item :: front, back, cons_ne_nil _ _, runs.of_cons some_⟩
        · rintro ⟨front, back, some_, runs⟩
          cases front with
          | nil => exact absurd rfl some_
          | cons head front =>
            obtain ⟨rfl, tail⟩ := List.cons.inj runs.parts
            cases front with
            | nil => exact .inl (Stretch.start ⟨tail, runs.all, (fun _ never => by cases never), runs.after⟩)
            | cons second front =>
              exact .inr ⟨second :: front, back, cons_ne_nil _ _, tail, runs.all,
                fun other last => runs.before other (by rw [getLast?_cons_cons]; exact last),
                runs.after⟩

/-- The pieces of a list split at the other elements are its longest runs. -/
theorem mem_splitOnP : (run ∈ items.splitOnP fun item => !inside item) ↔
    ∃ front back, Stretch inside items front run back := by
  obtain ⟨later, shape, mem⟩ := splitOnP_parts items
  rw [shape, mem_cons, mem]
  constructor
  · rintro (rfl | ⟨front, back, _, runs⟩)
    · exact ⟨[], _, run_takeWhile items⟩
    · exact ⟨front, back, runs⟩
  · rintro ⟨front, back, runs⟩
    cases front with
    | nil => exact .inl runs.start
    | cons head front => exact .inr ⟨head :: front, back, cons_ne_nil _ _, runs⟩

/-- A run of a list inside a middle part of it is a run of the part. -/
theorem Stretch.narrow {lead middle trail : List α}
    (runs : Stretch inside (lead ++ middle ++ trail) (lead ++ front) run (back ++ trail)) :
    Stretch inside middle front run back where
  parts := by
    have whole := runs.parts
    simp only [append_assoc] at whole
    have tail := append_cancel_left whole
    rw [← append_assoc run, ← append_assoc front] at tail
    rw [append_cancel_right tail, append_assoc]
  all := runs.all
  before item last := by
    apply runs.before item
    rw [getLast?_append, last]
    rfl
  after item first := by
    apply runs.after item
    rw [head?_append, first]
    rfl

end ForgeNode.Pieces
