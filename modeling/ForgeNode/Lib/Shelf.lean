import Mathlib.Data.List.Basic
import Mathlib.Data.List.Pairwise

/-! A bounded map under integer keys that gives up the end further from the key it takes, and what
of a page stored in order is still in it. -/

namespace ForgeNode.Shelf

open List

universe u

variable {α : Type u}

/-- A map's entries, in the order of their keys. -/
abbrev Ordered (map : List (Int × α)) : Prop := map.Pairwise fun first second => first.1 < second.1

def put (key : Int) (value : α) : List (Int × α) → List (Int × α)
  | [] => [(key, value)]
  | entry :: rest =>
    if key < entry.1 then (key, value) :: entry :: rest
    else if key = entry.1 then (key, value) :: rest
    else entry :: put key value rest

def lookup (map : List (Int × α)) (key : Int) : Option α :=
  (map.find? fun entry => entry.1 = key).map (·.2)

/-- Give up one end of the map. -/
def drop (key : Int) (map : List (Int × α)) : List (Int × α) :=
  match map.head?, map.getLast? with
  | some first, some last =>
    if (key - first.1).natAbs > (key - last.1).natAbs then map.tail else map.dropLast
  | _, _ => map

/-- Give up ends until the map is in its bound, in at most `fuel` steps. -/
def evict (limit : Nat) (key : Int) : Nat → List (Int × α) → List (Int × α)
  | 0, map => map
  | fuel + 1, map => if map.length > limit then evict limit key fuel (drop key map) else map

/-- Take an entry. -/
def store (limit : Nat) (key : Int) (value : α) (map : List (Int × α)) : List (Int × α) :=
  evict limit key (put key value map).length (put key value map)

/-- Take entries one after another. -/
def storeAll (limit : Nat) (entries map : List (Int × α)) : List (Int × α) :=
  entries.foldl (fun map entry => store limit entry.1 entry.2 map) map

/-- The map is over its bound and the further end is its first entry, which the page holds. -/
def Crowded (limit : Nat) (base key : Int) (value : α) (map : List (Int × α)) : Prop :=
  (put key value map).length > limit ∧ ∃ first last, (put key value map).head? = some first ∧
    (put key value map).getLast? = some last ∧ base ≤ first.1 ∧
      (key - first.1).natAbs > (key - last.1).natAbs

/-- No entry of a page is taken while the map is crowded. -/
def Roomy (limit : Nat) (base : Int) : List (Int × α) → List (Int × α) → Prop
  | [], _ => True
  | entry :: rest, map =>
    ¬Crowded limit base entry.1 entry.2 map ∧ Roomy limit base rest (store limit entry.1 entry.2 map)

variable {limit : Nat} {base key : Int} {value : α} {map : List (Int × α)} {entry : Int × α}

theorem lookup_put (other : Int) :
    lookup (put key value map) other = if other = key then some value else lookup map other := by
  unfold lookup
  induction map with
  | nil =>
    unfold put
    by_cases same : key = other
    · rw [if_pos same.symm, find?_cons_of_pos (by simpa using same)]
      rfl
    · rw [if_neg (Ne.symm same), find?_cons_of_neg (by simpa using same)]
  | cons head rest ih =>
    unfold put
    by_cases same : key = other
    · rw [if_pos same.symm]
      split_ifs with before here
      · rw [find?_cons_of_pos (by simpa using same)]
        rfl
      · rw [find?_cons_of_pos (by simpa using same)]
        rfl
      · rw [find?_cons_of_neg (by simpa [← same] using Ne.symm here), ih, if_pos same.symm]
    · rw [if_neg (Ne.symm same)] at ih ⊢
      split_ifs with before here
      · rw [find?_cons_of_neg (by simpa using same)]
      · rw [find?_cons_of_neg (by simpa using same), find?_cons_of_neg (by simpa [← here] using same)]
      · by_cases found : head.1 = other
        · rw [find?_cons_of_pos (by simpa using found), find?_cons_of_pos (by simpa using found)]
        · rw [find?_cons_of_neg (by simpa using found), find?_cons_of_neg (by simpa using found), ih]

theorem put_mem (there : entry ∈ put key value map) : entry = (key, value) ∨ entry ∈ map := by
  induction map with
  | nil => exact .inl (mem_singleton.mp there)
  | cons head rest ih =>
    unfold put at there
    split_ifs at there with before here
    · exact mem_cons.mp there
    · exact (mem_cons.mp there).imp_right (mem_cons_of_mem _)
    · rcases mem_cons.mp there with rfl | later
      · exact .inr mem_cons_self
      · exact (ih later).imp_right (mem_cons_of_mem _)

theorem mem_put_self : (key, value) ∈ put key value map := by
  induction map with
  | nil => exact mem_cons_self
  | cons head rest ih =>
    unfold put
    split_ifs
    · exact mem_cons_self
    · exact mem_cons_self
    · exact mem_cons_of_mem _ ih

theorem mem_put_of_ne (there : entry ∈ map) (other : entry.1 ≠ key) :
    entry ∈ put key value map := by
  induction map with
  | nil => exact absurd there not_mem_nil
  | cons head rest ih =>
    unfold put
    split_ifs with before here
    · exact mem_cons_of_mem _ there
    · rcases mem_cons.mp there with rfl | later
      · exact absurd here.symm other
      · exact mem_cons_of_mem _ later
    · rcases mem_cons.mp there with rfl | later
      · exact mem_cons_self
      · exact mem_cons_of_mem _ (ih later)

theorem length_put_le : (put key value map).length ≤ map.length + 1 := by
  induction map with
  | nil => exact Nat.le_refl _
  | cons head rest ih =>
    unfold put
    split_ifs
    · exact Nat.le_refl _
    · exact Nat.le_succ _
    · exact Nat.succ_le_succ ih

theorem Ordered.put (ordered : Ordered map) : Ordered (put key value map) := by
  induction map with
  | nil => exact pairwise_singleton _ _
  | cons head rest ih =>
    obtain ⟨above, tail⟩ := pairwise_cons.mp ordered
    unfold Shelf.put
    split_ifs with before here
    · refine pairwise_cons.mpr ⟨?_, ordered⟩
      intro entry there
      rcases mem_cons.mp there with rfl | later
      · exact before
      · exact Int.lt_trans before (above entry later)
    · refine pairwise_cons.mpr ⟨?_, tail⟩
      intro entry there
      exact here ▸ above entry there
    · refine pairwise_cons.mpr ⟨?_, ih tail⟩
      intro entry there
      rcases put_mem there with rfl | later
      · have low := Int.not_lt.mp before
        simp only
        omega
      · exact above entry later

theorem drop_sublist : (drop key map).Sublist map := by
  unfold drop
  split
  · split_ifs
    · exact tail_sublist _
    · exact dropLast_sublist _
  · exact .refl _

theorem length_drop (some_ : map ≠ []) : (drop key map).length + 1 = map.length := by
  have positive := length_pos_of_ne_nil some_
  unfold drop
  rw [head?_eq_some_head some_, getLast?_eq_some_getLast some_]
  simp only
  split_ifs
  · rw [length_tail]
    omega
  · rw [length_dropLast]
    omega

/-- One entry too many costs one end. -/
theorem store_cases (fits : map.length ≤ limit) :
    ((put key value map).length ≤ limit ∧ store limit key value map = put key value map) ∨
      ((put key value map).length = limit + 1 ∧ store limit key value map =
        drop key (put key value map)) := by
  have size := @length_put_le _ key value map
  unfold store
  rcases Nat.lt_or_ge limit (put key value map).length with past | under
  · right
    have exact_ : (put key value map).length = limit + 1 := by omega
    have some_ : put key value map ≠ [] := ne_nil_of_length_eq_add_one exact_
    have less := @length_drop _ key (put key value map) some_
    refine ⟨exact_, ?_⟩
    rw [exact_, evict, if_pos past]
    cases limit with
    | zero => rfl
    | succ limit =>
      rw [evict, if_neg]
      omega
  · left
    refine ⟨under, ?_⟩
    cases (put key value map).length with
    | zero => rfl
    | succ fuel =>
      rw [evict, if_neg (Nat.not_lt.mpr under)]

theorem store_sublist (fits : map.length ≤ limit) :
    (store limit key value map).Sublist (put key value map) := by
  rcases store_cases fits with ⟨_, same⟩ | ⟨_, same⟩
  · rw [same]
  · rw [same]
    exact drop_sublist

theorem length_store_le (fits : map.length ≤ limit) :
    (store limit key value map).length ≤ limit := by
  rcases store_cases fits with ⟨under, same⟩ | ⟨past, same⟩
  · rw [same]
    exact under
  · have less := @length_drop _ key (put key value map) (ne_nil_of_length_eq_add_one past)
    rw [same]
    omega

/-- What a map keeps while it takes entries. -/
structure Sound (limit : Nat) (map : List (Int × α)) : Prop where
  ordered : Ordered map
  fits : map.length ≤ limit

theorem Sound.store (sound : Sound limit map) : Sound limit (store limit key value map) :=
  ⟨List.Pairwise.sublist (store_sublist sound.fits) sound.ordered.put, length_store_le sound.fits⟩

theorem store_mem (fits : map.length ≤ limit) (there : entry ∈ store limit key value map) :
    entry = (key, value) ∨ entry ∈ map := put_mem ((store_sublist fits).subset there)

theorem Sound.storeAll (sound : Sound limit map) (entries : List (Int × α)) :
    Sound limit (storeAll limit entries map) := by
  induction entries generalizing map with
  | nil => exact sound
  | cons entry rest ih => exact ih sound.store

theorem storeAll_mem (sound : Sound limit map) (entries : List (Int × α))
    (there : entry ∈ storeAll limit entries map) : entry ∈ entries ∨ entry ∈ map := by
  induction entries generalizing map with
  | nil => exact .inr there
  | cons head rest ih =>
    rcases ih sound.store there with later | here
    · exact .inl (mem_cons_of_mem _ later)
    · rcases store_mem sound.fits here with rfl | old
      · exact .inl mem_cons_self
      · exact .inr old

theorem Ordered.unique (ordered : Ordered map) {first second : Int × α} (one : first ∈ map)
    (other : second ∈ map) (same : first.1 = second.1) : first = second := by
  induction map with
  | nil => exact absurd one not_mem_nil
  | cons head rest ih =>
    obtain ⟨above, tail⟩ := pairwise_cons.mp ordered
    rcases mem_cons.mp one with rfl | early
    · rcases mem_cons.mp other with rfl | later
      · rfl
      · have less := above second later
        omega
    · rcases mem_cons.mp other with rfl | later
      · have less := above first early
        omega
      · exact ih tail early later

theorem lookup_iff (ordered : Ordered map) : lookup map key = some value ↔ (key, value) ∈ map := by
  unfold lookup
  rw [Option.map_eq_some_iff]
  constructor
  · rintro ⟨entry, found, rfl⟩
    have same : entry.1 = key := by simpa using find?_some found
    rw [← same]
    exact mem_of_find?_eq_some found
  · intro there
    cases found : map.find? fun entry => entry.1 = key with
    | none =>
      have other := find?_eq_none.mp found _ there
      simp at other
    | some entry =>
      have same : entry.1 = key := by simpa using find?_some found
      have alone := ordered.unique (mem_of_find?_eq_some found) there same
      exact ⟨entry, rfl, by rw [alone]⟩

theorem Ordered.head_le (ordered : Ordered map) {first : Int × α} (head : map.head? = some first)
    (there : entry ∈ map) : first.1 ≤ entry.1 := by
  cases map with
  | nil => cases head
  | cons start rest =>
    obtain rfl := Option.some.inj head
    rcases mem_cons.mp there with rfl | later
    · exact Int.le_refl _
    · exact Int.le_of_lt ((pairwise_cons.mp ordered).1 entry later)

/-- Entries under the keys from one on. -/
def Numbered : Int → List (Int × α) → Prop
  | _, [] => True
  | key, entry :: rest => entry.1 = key ∧ Numbered (key + 1) rest

theorem Numbered.le {entries : List (Int × α)} (numbered : Numbered key entries)
    (there : entry ∈ entries) : key ≤ entry.1 := by
  induction entries generalizing key with
  | nil => exact absurd there not_mem_nil
  | cons head rest ih =>
    rcases mem_cons.mp there with rfl | later
    · exact Int.le_of_eq numbered.1.symm
    · have next := ih numbered.2 later
      omega

theorem Numbered.drop {entries : List (Int × α)} (numbered : Numbered key entries) (count : Nat) :
    Numbered (key + count) (entries.drop count) := by
  induction count generalizing key entries with
  | zero =>
    rw [drop_zero, Int.natCast_zero, Int.add_zero]
    exact numbered
  | succ count ih =>
    cases entries with
    | nil => exact trivial
    | cons head rest =>
      have next := ih numbered.2
      rw [Int.natCast_succ, ← Int.add_assoc, Int.add_right_comm]
      exact next

theorem Numbered.takeWhile {entries : List (Int × α)} (numbered : Numbered key entries)
    (holds : Int × α → Bool) : Numbered key (entries.takeWhile holds) := by
  induction entries generalizing key with
  | nil => exact trivial
  | cons head rest ih =>
    rw [takeWhile_cons]
    split
    · exact ⟨numbered.1, ih numbered.2⟩
    · exact trivial

theorem numbered_zipIdx (rows : List α) (start : Nat) :
    Numbered (key + start) ((rows.zipIdx start).map fun entry => (key + entry.2, entry.1)) := by
  induction rows generalizing start with
  | nil => exact trivial
  | cons row rest ih =>
    have next := ih (start + 1)
    rw [Int.natCast_succ, ← Int.add_assoc] at next
    exact ⟨rfl, next⟩

/-- A page holds an entry under every key of a range, and no others. -/
structure Paged (base key : Int) (page : List (Int × α)) : Prop where
  within : ∀ entry ∈ page, base ≤ entry.1 ∧ entry.1 < key
  full : ∀ number, base ≤ number → number < key → ∃ value, (number, value) ∈ page

variable {page entries : List (Int × α)}

theorem Paged.nil : Paged base base ([] : List (Int × α)) where
  within _ never := absurd never not_mem_nil
  full number low high := by omega

theorem Paged.next (paged : Paged base key page) (start : base ≤ key) (value : α) :
    Paged base (key + 1) (page ++ [(key, value)]) where
  within entry there := by
    rcases mem_append.mp there with old | new
    · have bounds := paged.within entry old
      omega
    · obtain rfl := mem_singleton.mp new
      simp only
      omega
  full number low high := by
    rcases Int.lt_or_eq_of_le (Int.lt_add_one_iff.mp high) with less | rfl
    · obtain ⟨old, there⟩ := paged.full number low less
      exact ⟨old, mem_append_left _ there⟩
    · exact ⟨value, mem_append_right _ mem_cons_self⟩

section Step

variable (sound : Sound limit map) (paged : Paged base key page)
  (kept : ∀ entry ∈ page, entry ∈ map)
include sound paged kept

omit sound in
theorem put_keeps : ∀ entry ∈ page ++ [(key, value)], entry ∈ put key value map := by
  intro entry there
  rcases mem_append.mp there with old | new
  · exact mem_put_of_ne (kept entry old) (Int.ne_of_lt (paged.within entry old).2)
  · obtain rfl := mem_singleton.mp new
    exact mem_put_self

/-- A map that is not crowded keeps the page and takes the next entry. -/
theorem store_keeps (positive : 0 < limit) (start : base ≤ key)
    (roomy : ¬Crowded limit base key value map) :
    ∀ entry ∈ page ++ [(key, value)], entry ∈ store limit key value map := by
  have held : ∀ entry ∈ page ++ [(key, value)], entry ∈ put key value map := put_keeps paged kept
  have bounds := (paged.next start value).within
  rcases store_cases sound.fits with ⟨_, same⟩ | ⟨size, same⟩
  · rw [same]
    exact held
  rw [same]
  have ordered : Ordered (put key value map) := sound.ordered.put
  have some_ : put key value map ≠ [] := ne_nil_of_length_eq_add_one size
  have first := head?_eq_some_head some_
  have last := getLast?_eq_some_getLast some_
  unfold Crowded at roomy
  unfold drop
  rw [first, last] at roomy ⊢
  simp only
  intro entry there
  split_ifs with far
  · -- The first entry goes, and stands before the page.
    have before : ((put key value map).head some_).1 < base := by
      by_contra after
      exact roomy ⟨by omega, _, _, rfl, rfl, Int.not_lt.mp after, far⟩
    have whole := cons_head_tail some_
    have within := held entry there
    rw [← whole] at within
    rcases mem_cons.mp within with same | later
    · have low := (bounds entry there).1
      rw [same] at low
      omega
    · exact later
  · -- The last entry goes, and stands behind the page.
    have whole := dropLast_append_getLast some_
    have within := held entry there
    rw [← whole] at within ordered
    rcases mem_append.mp within with old | new
    · exact old
    exfalso
    have high := (bounds entry there).2
    rw [mem_singleton.mp new] at high
    have self : (key, value) ∈ (put key value map).dropLast ++
        [(put key value map).getLast some_] := by
      rw [whole]
      exact mem_put_self
    have last_eq : ((put key value map).getLast some_).1 = key := by
      rcases mem_append.mp self with old | new
      · have less := (pairwise_append.mp ordered).2.2 _ old _ mem_cons_self
        simp only at less
        omega
      · rw [← mem_singleton.mp new]
    have first_eq : ((put key value map).head some_).1 = key := by omega
    have alone := sound.ordered.put.unique (List.head_mem some_) (getLast_mem some_)
      (first_eq.trans last_eq.symm)
    have long : 2 ≤ (put key value map).length := by omega
    rw [← whole] at long
    have more : (put key value map).dropLast ≠ [] := by
      intro none_
      rw [none_] at long
      simp at long
    have head : ((put key value map).dropLast).head more = (put key value map).head some_ :=
      head_dropLast _
    have less := (pairwise_append.mp ordered).2.2 _ (List.head_mem more) _ mem_cons_self
    rw [head] at less
    omega

omit kept in
/-- A crowded map gives up one of the page's entries. -/
theorem store_loses (crowded : Crowded limit base key value map) :
    ∃ entry ∈ page, ∀ value', (entry.1, value') ∉ store limit key value map := by
  obtain ⟨past, first, last, head, tail, low, far⟩ := crowded
  have ordered : Ordered (put key value map) := sound.ordered.put
  have high : first.1 ≤ key := ordered.head_le head mem_put_self
  have apart : first.1 ≠ key := by
    rintro same
    rw [same, Int.sub_self] at far
    exact absurd far (Nat.not_lt_zero _)
  obtain ⟨value', there⟩ := paged.full first.1 low (by omega)
  refine ⟨_, there, fun other within => ?_⟩
  rcases @store_cases _ _ key value _ sound.fits with ⟨under, _⟩ | ⟨_, same⟩
  · omega
  · rw [same, drop, head, tail] at within
    simp only [far, if_true] at within
    cases shape : put key value map with
    | nil =>
      rw [shape] at head
      cases head
    | cons start rest =>
      rw [shape] at head within ordered
      obtain rfl := Option.some.inj head
      have above := (pairwise_cons.mp ordered).1 _ within
      exact absurd above (Int.lt_irrefl _)

end Step

/-- A page stored in order is in the map at the end exactly when no entry was taken while the map
was crowded. -/
theorem kept_iff (positive : 0 < limit) (sound : Sound limit map) (paged : Paged base key page)
    (start : base ≤ key) (kept : ∀ entry ∈ page, entry ∈ map) (numbered : Numbered key entries) :
    (∀ entry ∈ page ++ entries, entry ∈ storeAll limit entries map) ↔
    Roomy limit base entries map := by
  induction entries generalizing map page key with
  | nil =>
    rw [append_nil]
    exact ⟨fun _ => trivial, fun _ => kept⟩
  | cons head rest ih =>
    obtain ⟨number, value⟩ := head
    obtain ⟨rfl, later⟩ := numbered
    by_cases crowded : Crowded limit base number value map
    · obtain ⟨entry, there, lost⟩ := store_loses sound paged crowded
      constructor
      · intro all
        exfalso
        rcases storeAll_mem sound.store rest (all entry (mem_append_left _ there)) with new | old
        · have after := later.le new
          have before := (paged.within entry there).2
          omega
        · exact lost entry.2 old
      · exact fun roomy => absurd crowded roomy.1
    · have next := ih sound.store (paged.next start value) (by omega)
        (store_keeps sound paged kept positive start crowded) later
      rw [append_assoc] at next
      exact next.trans ⟨fun roomy => ⟨crowded, roomy⟩, fun roomy => roomy.2⟩

theorem Ordered.length_le {low high : Int} (ordered : Ordered map)
    (within : ∀ entry ∈ map, low ≤ entry.1 ∧ entry.1 ≤ high) :
    map.length ≤ (high + 1 - low).toNat := by
  induction map generalizing low with
  | nil => exact Nat.zero_le _
  | cons head rest ih =>
    obtain ⟨above, later⟩ := pairwise_cons.mp ordered
    have here := within head mem_cons_self
    have short := @ih (head.1 + 1) later fun entry there =>
      ⟨above entry there, (within entry (mem_cons_of_mem _ there)).2⟩
    rw [length_cons]
    omega

theorem Ordered.le_last (ordered : Ordered map) {last : Int × α} (last_ : map.getLast? = some last)
    (there : entry ∈ map) : entry.1 ≤ last.1 := by
  obtain ⟨front, rfl⟩ := getLast?_eq_some_iff.mp last_
  rcases mem_append.mp there with before | here
  · exact Int.le_of_lt ((pairwise_append.mp ordered).2.2 entry before last mem_cons_self)
  · exact Int.le_of_eq (congrArg Prod.fst (mem_singleton.mp here))

/-- An entry that is not counted makes no difference to the count. -/
theorem length_filter_put_le {counts : Int × α → Bool} (not_ : counts (key, value) = false) :
    ((put key value map).filter counts).length ≤ (map.filter counts).length := by
  induction map with
  | nil => simp [put, not_]
  | cons head rest ih =>
    unfold put
    split_ifs
    · exact Nat.le_of_eq (congrArg length (filter_cons_of_neg (by simp [not_])))
    · rw [filter_cons_of_neg (by simp [not_])]
      exact (Sublist.filter counts (sublist_cons_self head rest)).length_le
    · simp only [filter_cons]
      split
      · exact Nat.succ_le_succ ih
      · exact ih

/-- The entries above a key that are nearer to it than the key is to the base. -/
def justAbove (base key : Int) (map : List (Int × α)) : List (Int × α) :=
  map.filter fun entry => decide (key < entry.1 ∧ entry.1 - key < key - base)

/-- Crowded is only a map with so many entries just above the key that they fill it together with
the page up to the key. -/
theorem Crowded.full (sound : Sound limit map) (start : base ≤ key)
    (crowded : Crowded limit base key value map) :
    limit ≤ (justAbove base key map).length + (key - base).toNat := by
  obtain ⟨past, first, last, head_, last_, low, far⟩ := crowded
  have ordered : Ordered (put key value map) := sound.ordered.put
  have before : ((put key value map).filter fun entry => decide (entry.1 ≤ key)).length ≤
      (key + 1 - base).toNat := by
    refine Ordered.length_le (List.Pairwise.sublist filter_sublist ordered) fun entry there => ?_
    obtain ⟨held, under⟩ := mem_filter.mp there
    exact ⟨Int.le_trans low (ordered.head_le head_ held), of_decide_eq_true under⟩
  have behind : ((put key value map).filter fun entry => !decide (entry.1 ≤ key)).length ≤
      (justAbove base key map).length := by
    have same : ((put key value map).filter fun entry => !decide (entry.1 ≤ key)) =
        justAbove base key (put key value map) := by
      refine filter_congr fun entry there => ?_
      have high := ordered.le_last last_ there
      have above := ordered.head_le head_ there
      rw [← decide_not, decide_eq_decide]
      omega
    rw [same]
    exact length_filter_put_le (by simp)
  have whole := length_eq_length_filter_add (l := put key value map) fun entry =>
    decide (entry.1 ≤ key)
  omega

/-- A map with room for what is just above each entry beside the page up to it is never crowded. -/
theorem roomy_of_near (sound : Sound limit map) (numbered : Numbered key entries)
    (start : base ≤ key) (room : ∀ entry ∈ entries,
      (justAbove base entry.1 map).length + (entry.1 - base).toNat < limit) :
    Roomy limit base entries map := by
  induction entries generalizing map key with
  | nil => exact trivial
  | cons head rest ih =>
    obtain ⟨rfl, later⟩ := numbered
    refine ⟨fun crowded => ?_, ih sound.store later (by omega) fun entry there => ?_⟩
    · have full := crowded.full sound start
      have here := room head mem_cons_self
      omega
    · have above := later.le there
      have fewer : (justAbove base entry.1 (store limit head.1 head.2 map)).length ≤
          (justAbove base entry.1 map).length :=
        Nat.le_trans (Sublist.filter _ (store_sublist sound.fits)).length_le
          (length_filter_put_le (by simp; omega))
      have here := room entry (mem_cons_of_mem _ there)
      omega

/-- So a page that reaches no further than half the bound is kept whole, whatever the map holds. -/
theorem roomy_of_short (sound : Sound limit map) (numbered : Numbered key entries)
    (start : base ≤ key) (positive : 0 < limit)
    (short : ∀ entry ∈ entries, 2 * (entry.1 - base) ≤ limit) : Roomy limit base entries map := by
  refine roomy_of_near sound numbered start fun entry there => ?_
  have low := numbered.le there
  have reach := short entry there
  have few : (justAbove base entry.1 map).length ≤
      (2 * entry.1 - base - 1 + 1 - (entry.1 + 1)).toNat := by
    refine Ordered.length_le (List.Pairwise.sublist filter_sublist sound.ordered) fun other held => ?_
    have bounds := of_decide_eq_true (mem_filter.mp held).2
    omega
  omega

section Beneath

theorem Numbered.ordered {entries : List (Int × α)} (numbered : Numbered key entries) :
    Ordered entries := by
  induction entries generalizing key with
  | nil => exact .nil
  | cons head rest ih =>
    refine pairwise_cons.mpr ⟨?_, ih numbered.2⟩
    intro entry there
    have after := numbered.2.le there
    have here := numbered.1
    omega

theorem Numbered.lt {entries : List (Int × α)} (numbered : Numbered key entries)
    (there : entry ∈ entries) : entry.1 < key + entries.length := by
  induction entries generalizing key with
  | nil => exact absurd there not_mem_nil
  | cons head rest ih =>
    rw [length_cons, Int.natCast_succ]
    rcases mem_cons.mp there with rfl | later
    · have here := numbered.1
      omega
    · have next := ih numbered.2 later
      omega

theorem put_between {front : List (Int × α)} (below : ∀ entry ∈ front, entry.1 < key)
    (above : ∀ entry ∈ map, key < entry.1) :
    put key value (front ++ map) = front ++ (key, value) :: map := by
  induction front with
  | nil =>
    cases map with
    | nil => rfl
    | cons head rest => exact if_pos (above head mem_cons_self)
  | cons head rest ih =>
    have low := below head mem_cons_self
    rw [cons_append, put, if_neg (by omega), if_neg (by omega),
      ih fun entry there => below entry (mem_cons_of_mem _ there)]
    rfl

theorem foldl_put_ordered {front : List (Int × α)} (ordered : Ordered (front ++ entries)) :
    entries.foldl (fun map entry => put entry.1 entry.2 map) front = front ++ entries := by
  induction entries generalizing front with
  | nil => exact (append_nil _).symm
  | cons head rest ih =>
    have below : ∀ entry ∈ front, entry.1 < head.1 := fun entry there =>
      (pairwise_append.mp ordered).2.2 entry there head mem_cons_self
    have step : put head.1 head.2 front = front ++ [head] := by
      have next := @put_between _ head.1 head.2 [] front below (fun _ never =>
        absurd never not_mem_nil)
      rw [append_nil] at next
      exact next
    rw [foldl_cons, step, ih]
    · exact append_assoc _ _ _
    · rw [append_assoc]
      exact ordered

theorem foldl_put_nil (ordered : Ordered entries) :
    entries.foldl (fun map entry => put entry.1 entry.2 map) [] = entries := by
  have whole := @foldl_put_ordered _ entries [] (by rw [nil_append]; exact ordered)
  rw [nil_append] at whole
  exact whole

/-- Entries in order that stand before all of a map with room go to its front. -/
theorem storeAll_beneath {front : List (Int × α)} (ordered : Ordered (front ++ entries ++ map))
    (room : (front ++ entries ++ map).length ≤ limit) :
    storeAll limit entries (front ++ map) = front ++ entries ++ map := by
  induction entries generalizing front with
  | nil =>
    rw [append_nil]
    rfl
  | cons head rest ih =>
    have parts := pairwise_append.mp ordered
    have inner := pairwise_append.mp parts.1
    have step : put head.1 head.2 (front ++ map) = front ++ [head] ++ map := by
      rw [put_between (fun entry there => inner.2.2 entry there head mem_cons_self)
        (fun entry there => parts.2.2 head (mem_append_right _ mem_cons_self) entry there),
        append_assoc]
      rfl
    simp only [length_append, length_cons] at room
    have taken : store limit head.1 head.2 (front ++ map) = front ++ [head] ++ map := by
      have fits : (front ++ map).length ≤ limit := by
        rw [length_append]
        omega
      rw [← step]
      rcases @store_cases _ limit head.1 head.2 _ fits with ⟨_, same⟩ | ⟨size, _⟩
      · exact same
      · rw [step] at size
        simp only [length_append, length_singleton] at size
        omega
    have shape : front ++ head :: rest = front ++ [head] ++ rest := by
      rw [append_assoc]
      rfl
    rw [storeAll, foldl_cons, taken]
    rw [shape] at ordered ⊢
    apply ih ordered
    simp only [length_append, length_singleton]
    omega

theorem Roomy.later {front : List (Int × α)} (roomy : Roomy limit base (front ++ entries) map) :
    Roomy limit base entries (storeAll limit front map) := by
  induction front generalizing map with
  | nil => exact roomy
  | cons head rest ih => exact ih roomy.2

/-- A page that stands beneath a map and fills it with all but its last entry loses its first one,
where the map has fewer entries than the page. -/
theorem not_roomy_beneath {front : List (Int × α)} (numbered : Numbered base front)
    (behind : Numbered (base + front.length + 1) map) (some_ : map ≠ [])
    (fills : front.length + map.length = limit) (longer : map.length < front.length) (value : α) :
    ¬Roomy limit base (front ++ [(base + front.length, value)]) map := by
  intro roomy
  have before : ∀ entry ∈ front, entry.1 < base + front.length := fun entry there => numbered.lt there
  have after : ∀ entry ∈ map, base + front.length < entry.1 := by
    intro entry there
    have low := behind.le there
    omega
  have filled : storeAll limit front map = front ++ map := by
    have start := @storeAll_beneath _ limit map front [] (by
      rw [nil_append]
      refine pairwise_append.mpr ⟨numbered.ordered, behind.ordered, ?_⟩
      intro entry there other later
      exact Int.lt_trans (before entry there) (after other later)) (by
      rw [nil_append, length_append]
      omega)
    simpa using start
  have last := roomy.later
  rw [filled] at last
  apply last.1
  have step : put (base + front.length) value (front ++ map) = front ++
      (base + (front.length : Int), value) :: map :=
    put_between before after
  have first_ : front ≠ [] := by
    rintro rfl
    exact absurd longer (Nat.not_lt_zero _)
  unfold Crowded
  rw [step]
  refine ⟨?_, front.head first_, map.getLast some_, ?_, ?_, ?_, ?_⟩
  · rw [length_append, length_cons]
    omega
  · rw [head?_append_of_ne_nil _ first_, head?_eq_some_head first_]
  · rw [getLast?_append_of_ne_nil _ (cons_ne_nil _ _), getLast?_cons_of_ne_nil some_,
      getLast?_eq_some_getLast some_]
  · exact numbered.le (List.head_mem first_)
  · have high := behind.lt (getLast_mem some_)
    have low := after _ (getLast_mem some_)
    have start : (front.head first_).1 = base := by
      cases front with
      | nil => exact absurd rfl first_
      | cons head rest => exact numbered.1
    rw [start]
    omega

end Beneath

end ForgeNode.Shelf
