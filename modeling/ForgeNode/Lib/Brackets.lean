import Mathlib.Algebra.BigOperators.Group.List.Basic
import Mathlib.Algebra.Ring.Int.Defs

/-! Words of weights that open, close or do neither: where a count of the depth comes back to zero,
from either end. -/

namespace ForgeNode.Brackets

open List

universe u
variable {ι : Type u} (weight : ι → Int)

/-- The first item that brings the depth to zero; an item without weight is passed. -/
def firstClose : Int → List ι → Option ι
  | _, [] => none
  | depth, item :: rest =>
    if weight item = 0 then firstClose depth rest
    else if depth + weight item = 0 then some item
    else firstClose (depth + weight item) rest

/-- The depth behind a word. -/
def net (items : List ι) : Int := (items.map weight).sum

/-- Opens at its first item and comes back to the ground at its last one, not before. -/
structure Balanced (word : List ι) : Prop where
  opens : ∃ item rest, word = item :: rest ∧ weight item = 1
  closed : net weight word = 0
  above : ∀ front back, word = front ++ back → front ≠ [] → back ≠ [] → 0 < net weight front

variable {weight}

@[simp] theorem net_nil : net weight [] = 0 := rfl

@[simp] theorem net_cons (item : ι) (rest : List ι) :
    net weight (item :: rest) = weight item + net weight rest := by
  simp [net]

@[simp] theorem net_append (front back : List ι) :
    net weight (front ++ back) = net weight front + net weight back := by
  simp [net]

theorem net_singleton (item : ι) : net weight [item] = weight item := by simp

theorem net_neg (items : List ι) : net (fun item => -weight item) items = -net weight items := by
  induction items with
  | nil => rfl
  | cons item rest ih =>
    rw [net_cons, net_cons, ih]
    omega

theorem net_reverse (items : List ι) : net weight items.reverse = net weight items := by
  induction items with
  | nil => rfl
  | cons item rest ih =>
    rw [reverse_cons, net_append, net_singleton, ih, net_cons]
    omega

/-- Weights of brackets. -/
def Unit (weight : ι → Int) : Prop := ∀ item, weight item = -1 ∨ weight item = 0 ∨ weight item = 1

/-- From a positive depth, the scan stops where the depth is zero for the first time. -/
theorem firstClose_iff (unit : Unit weight) {depth : Int} (positive : 0 < depth) (items : List ι)
    (last : ι) : firstClose weight depth items = some last ↔
    ∃ front back, items = front ++ last :: back ∧
      depth + net weight front + weight last = 0 ∧
      ∀ first rest, front = first ++ rest → 0 < depth + net weight first := by
  induction items generalizing depth with
  | nil =>
    constructor
    · intro never
      cases never
    · rintro ⟨front, back, split, _⟩
      exact absurd split (by simp)
  | cons item rest ih =>
    unfold firstClose
    have next (same : 0 < depth + weight item) : (∃ front back, rest = front ++ last :: back ∧
        depth + weight item + net weight front + weight last = 0 ∧
        ∀ first more, front = first ++ more → 0 < depth + weight item + net weight first) ↔
        ∃ front back, item :: rest = (item :: front) ++ last :: back ∧
          depth + net weight (item :: front) + weight last = 0 ∧
          ∀ first more, item :: front = first ++ more → 0 < depth + net weight first := by
      constructor
      · rintro ⟨front, back, split, zero, above⟩
        refine ⟨front, back, by rw [split]; rfl, by rw [net_cons]; omega, ?_⟩
        intro first more parts
        cases first with
        | nil => simpa using positive
        | cons other first =>
          obtain ⟨rfl, tail⟩ := List.cons.inj parts
          have higher := above first more tail
          rw [net_cons]
          omega
      · rintro ⟨front, back, split, zero, above⟩
        refine ⟨front, back, (List.cons.inj split).2, by rw [net_cons] at zero; omega, ?_⟩
        intro first more parts
        have higher := above (item :: first) more (by rw [parts]; rfl)
        rw [net_cons] at higher
        omega
    have longer (stays : 0 < depth + weight item) : (∃ front back, item :: rest = front ++ last ::
        back ∧ depth + net weight front + weight last = 0 ∧
        ∀ first more, front = first ++ more → 0 < depth + net weight first) ↔
        ∃ front back, item :: rest = (item :: front) ++ last :: back ∧
          depth + net weight (item :: front) + weight last = 0 ∧
          ∀ first more, item :: front = first ++ more → 0 < depth + net weight first := by
      constructor
      · rintro ⟨front, back, split, zero, above⟩
        cases front with
        | nil =>
          obtain ⟨rfl, _⟩ := List.cons.inj split
          rw [net_nil] at zero
          omega
        | cons other front =>
          obtain ⟨rfl, _⟩ := List.cons.inj split
          exact ⟨front, back, split, zero, above⟩
      · rintro ⟨front, back, split, zero, above⟩
        exact ⟨item :: front, back, split, zero, above⟩
    by_cases passed : weight item = 0
    · have same : depth = depth + weight item := by omega
      rw [if_pos passed, longer (by omega), ← next (by omega), ← same]
      exact ih positive
    rw [if_neg passed]
    by_cases ground : depth + weight item = 0
    · rw [if_pos ground]
      constructor
      · intro found
        obtain rfl := Option.some.inj found
        refine ⟨[], rest, rfl, by rw [net_nil]; omega, ?_⟩
        intro first more parts
        rw [(append_eq_nil_iff.mp parts.symm).1, net_nil]
        omega
      · rintro ⟨front, back, split, zero, above⟩
        cases front with
        | nil => rw [(List.cons.inj split).1]
        | cons other front =>
          obtain ⟨rfl, _⟩ := List.cons.inj split
          have higher := above [item] front rfl
          rw [net_singleton] at higher
          omega
    · have higher : 0 < depth + weight item := by
        rcases unit item with down | zero | up
        · omega
        · exact absurd zero passed
        · omega
      rw [if_neg ground, longer higher, ← next higher]
      exact ih higher

/-- From an opening item, the scan answers the end of the balanced word that starts there. -/
theorem firstClose_balanced (unit : Unit weight) {first : ι} (opens : weight first = 1)
    (items : List ι) (last : ι) : firstClose weight 0 (first :: items) = some last ↔
      ∃ front back, items = front ++ last :: back ∧ Balanced weight (first :: front ++ [last]) := by
  have start : firstClose weight 0 (first :: items) = firstClose weight 1 items := by
    rw [firstClose, if_neg (by omega), if_neg (by omega), opens, Int.zero_add]
  rw [start, firstClose_iff unit Int.one_pos]
  constructor
  · rintro ⟨front, back, split, zero, above⟩
    refine ⟨front, back, split, ⟨⟨first, front ++ [last], rfl, opens⟩, ?_, ?_⟩⟩
    · simp only [cons_append, net_cons, net_append, net_nil, opens]
      omega
    · intro begin_ rest parts some_ more
      cases begin_ with
      | nil => exact absurd rfl some_
      | cons item begin_ =>
        obtain ⟨rfl, tail⟩ := List.cons.inj parts
        rcases eq_nil_or_concat rest with none_ | ⟨middle, final, shape⟩
        · exact absurd none_ more
        · have whole : front ++ [last] = begin_ ++ middle ++ [final] := by
            rw [concat_eq_append] at shape
            rw [append_assoc, ← shape]
            exact tail
          have inside := (append_inj' whole rfl).1
          have higher := above begin_ middle inside
          rw [net_cons, opens]
          exact higher
  · rintro ⟨front, back, split, balanced⟩
    refine ⟨front, back, split, ?_, ?_⟩
    · have closed := balanced.closed
      simp only [cons_append, net_cons, net_append, net_nil, opens] at closed
      omega
    · intro begin_ rest parts
      have higher := balanced.above (first :: begin_) (rest ++ [last]) (by rw [parts]; simp)
        (by simp) (by simp)
      rwa [net_cons, opens] at higher

/-- A balanced word is two brackets around the rest of it. -/
theorem Balanced.ends {word : List ι} (unit : Unit weight) (balanced : Balanced weight word) :
    ∃ first middle last, word = first :: middle ++ [last] ∧ weight first = 1 ∧
    weight last = -1 := by
  obtain ⟨first, rest, shape, opens⟩ := balanced.opens
  have closed := balanced.closed
  rcases eq_nil_or_concat rest with none_ | ⟨middle, last, parts⟩
  · rw [shape, none_, net_singleton] at closed
    omega
  · rw [concat_eq_append] at parts
    have whole : word = (first :: middle) ++ [last] := by rw [shape, parts]; rfl
    have higher := balanced.above (first :: middle) [last] whole (cons_ne_nil _ _) (cons_ne_nil _ _)
    rw [whole, net_append, net_singleton] at closed
    refine ⟨first, middle, last, whole, opens, ?_⟩
    rcases unit last with down | zero | up <;> omega

/-- Read backwards with its weights turned, a balanced word is one. -/
theorem Balanced.reverse {word : List ι} (unit : Unit weight) (balanced : Balanced weight word) :
    Balanced (fun item => -weight item) word.reverse := by
  obtain ⟨first, middle, last, shape, opens, closes⟩ := balanced.ends unit
  refine ⟨⟨last, (first :: middle).reverse, by rw [shape]; simp, by omega⟩, ?_, ?_⟩
  · rw [net_neg, net_reverse, balanced.closed]
    rfl
  · intro begin_ rest parts some_ more
    have whole : word = rest.reverse ++ begin_.reverse := by
      rw [← reverse_reverse word, parts, reverse_append]
    have higher := balanced.above rest.reverse begin_.reverse whole (by simpa using more)
      (by simpa using some_)
    have closed := balanced.closed
    rw [whole, net_append, net_reverse, net_reverse] at closed
    rw [net_reverse] at higher
    rw [net_neg]
    omega

theorem Unit.neg (unit : Unit weight) : Unit fun item => -weight item := by
  intro item
  change -weight item = -1 ∨ -weight item = 0 ∨ -weight item = 1
  rcases unit item with down | zero | up <;> omega

theorem balanced_reverse_iff {word : List ι} (unit : Unit weight) :
    Balanced (fun item => -weight item) word.reverse ↔ Balanced weight word := by
  constructor
  · intro balanced
    have again := balanced.reverse unit.neg
    simpa only [reverse_reverse, Int.neg_neg] using again
  · intro balanced
    exact balanced.reverse unit

theorem net_eq_zero {items : List ι} (flat : ∀ item ∈ items, weight item = 0) :
    net weight items = 0 := by
  induction items with
  | nil => rfl
  | cons item rest ih =>
    rw [net_cons, flat item mem_cons_self, ih fun other within =>
      flat other (mem_cons_of_mem _ within)]
    rfl

/-- Two brackets with nothing of weight between them. -/
theorem balanced_of_flat {first last : ι} {middle : List ι} (opens : weight first = 1)
    (closes : weight last = -1) (flat : ∀ item ∈ middle, weight item = 0) :
    Balanced weight (first :: middle ++ [last]) := by
  refine ⟨⟨first, middle ++ [last], rfl, opens⟩, ?_, ?_⟩
  · rw [net_append, net_cons, net_singleton, net_eq_zero flat, opens, closes]
    rfl
  · intro front back parts some_ more
    cases front with
    | nil => exact absurd rfl some_
    | cons item front =>
      obtain ⟨rfl, tail⟩ := List.cons.inj parts
      have inside : front <+: middle := by
        apply prefix_of_prefix_length_le ⟨back, tail.symm⟩ (prefix_append middle [last])
        have lengths := congrArg List.length tail
        have rest := length_pos_iff.mpr more
        simp only [length_append, append_eq, length_singleton] at lengths
        omega
      rw [net_cons, net_eq_zero fun other within => flat other (inside.subset within), opens]
      exact Int.one_pos

end ForgeNode.Brackets
