import Mathlib.Data.List.Sort
import Mathlib.Data.Set.Insert
import Mathlib.Data.List.Basic

/-! The first elements of a set, kept in order by a bounded list while the set is met one element at
a time. -/

namespace ForgeNode.Ranking

open List

universe u

variable {α : Type u} [LinearOrder α]

/-- `BTreeSet::insert`, on the elements in order. -/
def add (found : List α) (item : α) : List α :=
  if item ∈ found then found else found.orderedInsert (· ≤ ·) item

/-- Add one element to the first `count` met so far. -/
def keep (count : Nat) (found : List α) (item : α) : List α :=
  if found.length = count then
    if found.getLast?.any (· ≤ item) then found
    else if item ∈ found then found else (add found item).dropLast
  else add found item

/-- The first `count` elements of a set, in order and each once. -/
structure Firsts (count : Nat) (among : Set α) (found : List α) : Prop where
  sorted : found.Pairwise (· < ·)
  short : found.length ≤ count
  mem : ∀ item ∈ found, item ∈ among
  rest : ∀ item ∈ among, item ∉ found → found.length = count ∧ ∀ other ∈ found, other < item

/-- At least `count` elements of a set stand before an element. -/
def Preceded (count : Nat) (among : Set α) (item : α) : Prop :=
  ∃ ahead : List α, ahead.Nodup ∧ ahead.length = count ∧ ∀ other ∈ ahead, other ∈ among ∧ other < item

variable {count : Nat} {among : Set α} {found : List α} {item : α}

theorem add_of_mem (there : item ∈ found) : add found item = found := if_pos there

theorem add_of_not (absent : item ∉ found) : add found item = found.orderedInsert (· ≤ ·) item :=
  if_neg absent

theorem mem_add {other : α} : other ∈ add found item ↔ other = item ∨ other ∈ found := by
  by_cases there : item ∈ found
  · rw [add_of_mem there]
    constructor
    · exact .inr
    · rintro (rfl | old)
      · exact there
      · exact old
  · rw [add_of_not there, mem_orderedInsert]

theorem add_sorted (sorted : found.Pairwise (· < ·)) : (add found item).Pairwise (· < ·) := by
  by_cases there : item ∈ found
  · rw [add_of_mem there]
    exact sorted
  · rw [add_of_not there]
    have weak : (found.orderedInsert (· ≤ ·) item).Pairwise (· ≤ ·) :=
      List.Pairwise.orderedInsert item found (sorted.imp le_of_lt)
    have once : (found.orderedInsert (· ≤ ·) item).Nodup :=
      (perm_orderedInsert _ item found).nodup_iff.mpr (nodup_cons.mpr ⟨there, sorted.imp ne_of_lt⟩)
    exact (weak.and once).imp fun both => lt_of_le_of_ne both.1 both.2

theorem length_add (absent : item ∉ found) : (add found item).length = found.length + 1 := by
  rw [add_of_not absent, orderedInsert_length]

omit [LinearOrder α] in
/-- A list without repetition within another that has one more element is shorter. -/
theorem length_lt_of_subset {other : List α} (once : other.Nodup) (absent : item ∉ other)
    (there : item ∈ found) (within : ∀ one ∈ other, one ∈ found) : other.length < found.length := by
  have both : (item :: other).Subperm found := by
    apply subperm_of_subset (nodup_cons.mpr ⟨absent, once⟩)
    intro one listed
    rcases mem_cons.mp listed with rfl | later
    · exact there
    · exact within one later
  exact both.length_le

namespace Firsts

theorem nil : Firsts count (∅ : Set α) [] where
  sorted := .nil
  short := Nat.zero_le _
  mem _ never := absurd never not_mem_nil
  rest _ never := absurd never (Set.notMem_empty _)

theorem again (firsts : Firsts count among found) (there : item ∈ found) :
    Firsts count (insert item among) found where
  sorted := firsts.sorted
  short := firsts.short
  mem other listed := Set.mem_insert_of_mem _ (firsts.mem other listed)
  rest other within absent := by
    rcases Set.mem_insert_iff.mp within with rfl | old
    · exact absurd there absent
    · exact firsts.rest other old absent

theorem past (firsts : Firsts count among found) (full : found.length = count)
    (late : ∀ other ∈ found, other < item) : Firsts count (insert item among) found where
  sorted := firsts.sorted
  short := firsts.short
  mem other listed := Set.mem_insert_of_mem _ (firsts.mem other listed)
  rest other within absent := by
    rcases Set.mem_insert_iff.mp within with rfl | old
    · exact ⟨full, late⟩
    · exact firsts.rest other old absent

/-- A list with room takes a new element. -/
theorem grown (firsts : Firsts count among found) (room : found.length < count)
    (absent : item ∉ found) : Firsts count (insert item among) (add found item) where
  sorted := add_sorted firsts.sorted
  short := by
    rw [length_add absent]
    exact room
  mem other listed := by
    rcases mem_add.mp listed with rfl | old
    · exact Set.mem_insert _ _
    · exact Set.mem_insert_of_mem _ (firsts.mem other old)
  rest other within outside := by
    rw [mem_add, not_or] at outside
    have old := Set.mem_of_mem_insert_of_ne within outside.1
    exact absurd (firsts.rest other old outside.2).1 (Nat.ne_of_lt room)

/-- A full list takes an element and gives up its last one. -/
theorem replaced (firsts : Firsts count among found) (full : found.length = count)
    (absent : item ∉ found) : Firsts count (insert item among) (add found item).dropLast := by
  have size := length_add absent
  have some_ : add found item ≠ [] := ne_nil_of_length_eq_add_one size
  have sorted : (add found item).Pairwise (· < ·) := add_sorted firsts.sorted
  have parts := dropLast_append_getLast some_
  generalize (add found item).getLast some_ = last at parts
  have below : ∀ other ∈ (add found item).dropLast, other < last := by
    rw [← parts, pairwise_append] at sorted
    exact fun other listed => sorted.2.2 other listed last mem_cons_self
  have last_mem : last ∈ add found item := by
    rw [← parts]
    exact mem_append_right _ mem_cons_self
  have count_eq : (add found item).dropLast.length = count := by
    rw [length_dropLast, size, full, Nat.add_sub_cancel]
  refine ⟨sorted.sublist (dropLast_sublist _), Nat.le_of_eq count_eq, ?_, ?_⟩
  · intro other listed
    rcases mem_add.mp (dropLast_subset _ listed) with rfl | old
    · exact Set.mem_insert _ _
    · exact Set.mem_insert_of_mem _ (firsts.mem other old)
  · intro other within outside
    refine ⟨count_eq, fun kept listed => ?_⟩
    by_cases there : other ∈ add found item
    · rw [← parts, mem_append, mem_singleton] at there
      rcases there with old | rfl
      · exact absurd old outside
      · exact below kept listed
    · rw [mem_add, not_or] at there
      have late := (firsts.rest other (Set.mem_of_mem_insert_of_ne within there.1) there.2).2
      -- What is kept is an old element, or comes before the one given up, which is.
      rcases mem_add.mp last_mem with rfl | old
      · rcases mem_add.mp (dropLast_subset _ listed) with rfl | earlier
        · exact absurd (below kept listed) (lt_irrefl kept)
        · exact late kept earlier
      · exact lt_trans (below kept listed) (late last old)

theorem keep (firsts : Firsts count among found) (item : α) :
    Firsts count (insert item among) (keep count found item) := by
  unfold Ranking.keep
  split_ifs with full late there
  · obtain ⟨last, same, less⟩ : ∃ last, found.getLast? = some last ∧ last ≤ item := by
      cases same : found.getLast? with
      | none =>
        rw [same] at late
        cases late
      | some last =>
        rw [same] at late
        exact ⟨last, rfl, of_decide_eq_true late⟩
    by_cases there : item ∈ found
    · exact firsts.again there
    · apply firsts.past full
      intro other listed
      have shape := dropLast_append_getLast? last same
      have sorted := firsts.sorted
      rw [← shape, pairwise_append] at sorted
      have before : last < item := by
        apply lt_of_le_of_ne less
        rintro rfl
        exact there (mem_of_getLast? same)
      rw [← shape, mem_append, mem_singleton] at listed
      rcases listed with earlier | rfl
      · exact lt_trans (sorted.2.2 other earlier last mem_cons_self) before
      · exact before
  · exact firsts.again there
  · exact firsts.replaced full there
  · by_cases there : item ∈ found
    · rw [add_of_mem there]
      exact firsts.again there
    · exact firsts.grown (lt_of_le_of_ne firsts.short full) there

theorem foldl_keep (firsts : Firsts count among found) (items : List α) :
    Firsts count (among ∪ {item | item ∈ items}) (items.foldl (Ranking.keep count) found) := by
  induction items generalizing among found with
  | nil =>
    have same : among ∪ {item | item ∈ ([] : List α)} = among := by
      ext other
      simp
    rw [same]
    exact firsts
  | cons item items ih =>
    have same : among ∪ {other | other ∈ item :: items} =
        insert item among ∪ {other | other ∈ items} := by
      ext other
      simp only [Set.mem_union, Set.mem_ofPred_eq, mem_cons, Set.mem_insert_iff]
      tauto
    rw [same]
    exact ih (firsts.keep item)

/-- The first elements of a larger set are those of a smaller one when each element it adds comes
late. -/
theorem narrow_iff {larger : Set α} (within : among ⊆ larger) (firsts : Firsts count larger found) :
    Firsts count among found ↔ ∀ item ∈ larger, item ∉ among → Preceded count among item := by
  constructor
  · intro fewer item there outside
    obtain ⟨full, late⟩ := firsts.rest item there fun listed => outside (fewer.mem item listed)
    exact ⟨found, fewer.sorted.imp ne_of_lt, full, fun other listed =>
      ⟨fewer.mem other listed, late other listed⟩⟩
  · intro preceded
    refine ⟨firsts.sorted, firsts.short, ?_, fun item there => firsts.rest item (within there)⟩
    intro item listed
    by_contra outside
    obtain ⟨ahead, once, size, before⟩ := preceded item (firsts.mem item listed) outside
    have fits : ahead.length < found.length := by
      apply length_lt_of_subset once (fun there => lt_irrefl item (before item there).2) listed
      intro other there
      by_contra absent
      exact lt_asymm (before other there).2
        ((firsts.rest other (within (before other there).1) absent).2 item listed)
    have short := firsts.short
    omega

end Firsts

end ForgeNode.Ranking
