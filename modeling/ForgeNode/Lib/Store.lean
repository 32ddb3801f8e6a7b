import Mathlib.Data.List.Perm.Subperm
import Mathlib.Data.List.Nodup

/-! Stores: finite collections of rows in which a key names at most one row. They stand
for a hash map read by its values and for a table under its primary key. -/

namespace ForgeNode

open List

universe u v

/-- Rows with pairwise different keys. -/
structure Store {α : Type u} {κ : Type v} (key : α → κ) where
  rows : List α
  distinct : (rows.map key).Nodup

namespace Store

variable {α : Type u} {κ : Type v} {key : α → κ}

instance : Membership α (Store key) := ⟨fun store row => row ∈ store.rows⟩

instance [DecidableEq α] : DecidableEq (Store key) := fun first second =>
  decidable_of_iff (first.rows = second.rows) (by cases first; cases second; simp)

instance {holds : α → Prop} [DecidablePred holds] (store : Store key) :
    Decidable (∀ row ∈ store, holds row) :=
  inferInstanceAs (Decidable (∀ row ∈ store.rows, holds row))

theorem mem_rows {store : Store key} {row : α} : row ∈ store.rows ↔ row ∈ store := Iff.rfl

theorem eq_of_key {store : Store key} {first second : α} (left : first ∈ store)
    (right : second ∈ store) (same : key first = key second) : first = second :=
  inj_on_of_nodup_map store.distinct left right same

def empty : Store key := ⟨[], nodup_nil⟩

@[simp] theorem not_mem_empty (row : α) : row ∉ (empty : Store key) := not_mem_nil

instance : Inhabited (Store key) := ⟨empty⟩

/-- A change of the rows that leaves their keys alone. -/
def map (change : α → α) (keeps : ∀ row, key (change row) = key row) (store : Store key) :
    Store key where
  rows := store.rows.map change
  distinct := by
    rw [map_map, show key ∘ change = key from funext keeps]
    exact store.distinct

@[simp] theorem mem_map {change : α → α} {keeps : ∀ row, key (change row) = key row}
    {store : Store key} {row : α} : row ∈ store.map change keeps ↔
    ∃ old ∈ store, change old = row :=
  List.mem_map

/-- `HashMap::retain`. -/
def retain (keep : α → Bool) (store : Store key) : Store key where
  rows := store.rows.filter keep
  distinct := store.distinct.sublist (filter_sublist.map key)

@[simp] theorem mem_retain {keep : α → Bool} {store : Store key} {row : α} :
    row ∈ store.retain keep ↔ row ∈ store ∧ keep row = true :=
  mem_filter

/-- Two stores that list the same rows in some order. -/
def Reordered (first second : Store key) : Prop := first.rows.Perm second.rows

instance [DecidableEq α] (first second : Store key) : Decidable (first.Reordered second) :=
  inferInstanceAs (Decidable (first.rows.Perm second.rows))

theorem Reordered.mem {first second : Store key} (reordered : Reordered first second) {row : α} :
    row ∈ first ↔ row ∈ second :=
  reordered.mem_iff

/-- The keys in a store, in its order. -/
def keys (store : Store key) : List κ := store.rows.map key

@[simp] theorem mem_keys {store : Store key} {name : κ} :
    name ∈ store.keys ↔ ∃ row ∈ store, key row = name :=
  List.mem_map

/-- Two stores with the same keys, each row of the one changed into a row of the other. -/
structure Rewritten (change : α → α → Prop) (before after : Store key) : Prop where
  back : ∀ row ∈ after, ∃ old ∈ before, key old = key row ∧ change old row
  forth : ∀ old ∈ before, ∃ row ∈ after, key row = key old ∧ change old row

namespace Rewritten

variable {change : α → α → Prop} {before middle after : Store key}

theorem refl (same : ∀ row ∈ before, change row row) : Rewritten change before before :=
  ⟨fun row member => ⟨row, member, rfl, same row member⟩,
    fun row member => ⟨row, member, rfl, same row member⟩⟩

theorem trans {change' change'' : α → α → Prop} (first : Rewritten change before middle)
    (second : Rewritten change' middle after)
    (compose : ∀ old ∈ before, ∀ row new, key old = key row → key row = key new →
      change old row → change' row new → change'' old new) :
    Rewritten change'' before after := by
  constructor
  · intro new member
    obtain ⟨row, there, named, changed⟩ := second.back new member
    obtain ⟨old, held, named', changed'⟩ := first.back row there
    exact ⟨old, held, named'.trans named, compose old held row new named' named changed' changed⟩
  · intro old member
    obtain ⟨row, there, named, changed⟩ := first.forth old member
    obtain ⟨new, held, named', changed'⟩ := second.forth row there
    exact ⟨new, held, named'.trans named,
      compose old member row new named.symm named'.symm changed changed'⟩

theorem mono {change' : α → α → Prop} (rewritten : Rewritten change before after)
    (weaker : ∀ old ∈ before, ∀ row ∈ after, change old row → change' old row) :
    Rewritten change' before after := by
  constructor
  · intro row member
    obtain ⟨old, there, named, changed⟩ := rewritten.back row member
    exact ⟨old, there, named, weaker old there row member changed⟩
  · intro old member
    obtain ⟨row, there, named, changed⟩ := rewritten.forth old member
    exact ⟨row, there, named, weaker old member row there changed⟩

theorem of_map {update : α → α} {keeps : ∀ row, key (update row) = key row}
    (changes : ∀ row ∈ before, change row (update row)) :
    Rewritten change before (before.map update keeps) := by
  constructor
  · intro row member
    obtain ⟨old, there, rfl⟩ := mem_map.mp member
    exact ⟨old, there, (keeps old).symm, changes old there⟩
  · intro old member
    exact ⟨update old, mem_map.mpr ⟨old, member, rfl⟩, keeps old, changes old member⟩

end Rewritten

section Lookup

variable [DecidableEq κ]

/-- `HashMap::get`. -/
def get? (store : Store key) (name : κ) : Option α := store.rows.find? fun row => key row = name

theorem get?_eq_some {store : Store key} {name : κ} {row : α} :
    store.get? name = some row ↔ row ∈ store ∧ key row = name := by
  constructor
  · intro found
    exact ⟨mem_of_find?_eq_some found, by simpa using find?_some found⟩
  · rintro ⟨member, rfl⟩
    cases search : store.get? (key row) with
    | none => exact absurd (decide_eq_true rfl) (find?_eq_none.mp search row member)
    | some other =>
      have named : key other = key row := by simpa using find?_some search
      rw [eq_of_key (mem_of_find?_eq_some search) member named]

theorem get?_eq_none {store : Store key} {name : κ} :
    store.get? name = none ↔ ∀ row ∈ store, key row ≠ name := by
  simp [get?, find?_eq_none, mem_rows]

theorem get?_of_mem {store : Store key} {row : α} (member : row ∈ store) :
    store.get? (key row) = some row :=
  get?_eq_some.mpr ⟨member, rfl⟩

theorem mem_of_get? {store : Store key} {name : κ} {row : α} (found : store.get? name = some row) :
    row ∈ store :=
  (get?_eq_some.mp found).1

theorem key_of_get? {store : Store key} {name : κ} {row : α} (found : store.get? name = some row) :
    key row = name :=
  (get?_eq_some.mp found).2

theorem get?_congr {first second : Store key} (same : ∀ row, row ∈ first ↔ row ∈ second)
    (name : κ) : first.get? name = second.get? name := by
  cases search : second.get? name with
  | none =>
    exact get?_eq_none.mpr fun row member => get?_eq_none.mp search row ((same row).mp member)
  | some row =>
    obtain ⟨member, named⟩ := get?_eq_some.mp search
    exact get?_eq_some.mpr ⟨(same row).mpr member, named⟩

theorem get?_map {change : α → α} {keeps : ∀ row, key (change row) = key row} {store : Store key}
    {name : κ} : (store.map change keeps).get? name = (store.get? name).map change := by
  cases search : store.get? name with
  | none =>
    refine get?_eq_none.mpr fun row member => ?_
    obtain ⟨old, held, rfl⟩ := mem_map.mp member
    rw [keeps]
    exact get?_eq_none.mp search old held
  | some row =>
    obtain ⟨member, named⟩ := get?_eq_some.mp search
    exact get?_eq_some.mpr ⟨mem_map.mpr ⟨row, member, rfl⟩, by rw [keeps, named]⟩

instance (store : Store key) (name : κ) : Decidable (∃ row ∈ store, key row = name) :=
  decidable_of_iff (name ∈ store.keys) mem_keys

/-- `HashMap::insert`: the row replaces the one under its key, or comes last. -/
def put (row : α) (store : Store key) : Store key :=
  if present : key row ∈ store.keys then
    store.map (fun old => if key old = key row then row else old)
      (by intro old; split <;> simp_all)
  else
    ⟨store.rows ++ [row], by
      rw [map_append, nodup_append]
      refine ⟨store.distinct, nodup_singleton _, ?_⟩
      intro name member other single
      rw [map_singleton, mem_singleton] at single
      rintro rfl
      exact present (single ▸ member)⟩

@[simp] theorem mem_put {store : Store key} {row other : α} :
    other ∈ store.put row ↔ other = row ∨ other ∈ store ∧ key other ≠ key row := by
  unfold put
  split
  · rename_i present
    obtain ⟨held, member, named⟩ := mem_keys.mp present
    rw [mem_map]
    constructor
    · rintro ⟨old, there, rfl⟩
      by_cases same : key old = key row
      · exact .inl (if_pos same)
      · rw [if_neg same]
        exact .inr ⟨there, same⟩
    · rintro (rfl | ⟨there, differ⟩)
      · exact ⟨held, member, if_pos named⟩
      · exact ⟨other, there, if_neg differ⟩
  · rename_i absent
    change other ∈ store.rows ++ [row] ↔ _
    rw [mem_append, mem_singleton]
    constructor
    · rintro (there | rfl)
      · exact .inr ⟨there, fun same => absent (same ▸ mem_map_of_mem there)⟩
      · exact .inl rfl
    · rintro (rfl | ⟨there, _⟩)
      · exact .inr rfl
      · exact .inl there

theorem exists_mem_put {store : Store key} {kept : α} (member : kept ∈ store) (row : α) :
    ∃ new ∈ store.put row, key new = key kept := by
  by_cases same : key kept = key row
  · exact ⟨row, mem_put.mpr (.inl rfl), same.symm⟩
  · exact ⟨kept, mem_put.mpr (.inr ⟨member, same⟩), rfl⟩

theorem get?_put {store : Store key} {row : α} {name : κ} :
    (store.put row).get? name = if key row = name then some row else store.get? name := by
  by_cases same : key row = name
  · rw [if_pos same]
    exact get?_eq_some.mpr ⟨mem_put.mpr (.inl rfl), same⟩
  · rw [if_neg same]
    cases search : store.get? name with
    | none =>
      refine get?_eq_none.mpr fun other member => ?_
      rcases mem_put.mp member with rfl | ⟨there, _⟩
      · exact same
      · exact get?_eq_none.mp search other there
    | some other =>
      obtain ⟨there, named⟩ := get?_eq_some.mp search
      exact get?_eq_some.mpr ⟨mem_put.mpr (.inr ⟨there, fun equal => same (equal ▸ named)⟩), named⟩

theorem get?_retain {keep : α → Bool} {store : Store key} {name : κ} :
    (store.retain keep).get? name = (store.get? name).filter keep := by
  cases search : store.get? name with
  | none =>
    exact get?_eq_none.mpr fun row member => get?_eq_none.mp search row (mem_retain.mp member).1
  | some row =>
    obtain ⟨member, named⟩ := get?_eq_some.mp search
    by_cases kept : keep row = true
    · rw [Option.filter_some_pos kept]
      exact get?_eq_some.mpr ⟨mem_retain.mpr ⟨member, kept⟩, named⟩
    · rw [Option.filter_some_neg (by simpa using kept)]
      refine get?_eq_none.mpr fun other there same => ?_
      obtain ⟨there, good⟩ := mem_retain.mp there
      rw [eq_of_key there member (same.trans named.symm)] at good
      exact kept good

/-- Change the row under one key, if it is there. -/
def modify (name : κ) (change : α → α) (keeps : ∀ row, key (change row) = key row)
    (store : Store key) : Store key :=
  store.map (fun row => if key row = name then change row else row)
    (by intro row; split <;> simp [keeps])

theorem mem_modify {name : κ} {change : α → α} {keeps : ∀ row, key (change row) = key row}
    {store : Store key} {row : α} : row ∈ store.modify name change keeps ↔
      (∃ old ∈ store, key old = name ∧ change old = row) ∨ row ∈ store ∧ key row ≠ name := by
  unfold modify
  rw [mem_map]
  constructor
  · rintro ⟨old, member, rfl⟩
    by_cases named : key old = name
    · exact .inl ⟨old, member, named, (if_pos named).symm⟩
    · rw [if_neg named]
      exact .inr ⟨member, named⟩
  · rintro (⟨old, member, named, rfl⟩ | ⟨member, differ⟩)
    · exact ⟨old, member, if_pos named⟩
    · exact ⟨row, member, if_neg differ⟩

/-- A change under one key leaves the other rows as they are. -/
theorem Rewritten.of_modify {change : α → α → Prop} {name : κ} {update : α → α}
    {keeps : ∀ row, key (update row) = key row} {store : Store key}
    (here : ∀ row ∈ store, key row = name → change row (update row))
    (elsewhere : ∀ row ∈ store, key row ≠ name → change row row) :
    Rewritten change store (store.modify name update keeps) := by
  refine Rewritten.of_map fun row member => ?_
  by_cases named : key row = name
  · rw [if_pos named]
    exact here row member named
  · rw [if_neg named]
    exact elsewhere row member named

theorem Rewritten.modified {name : κ} {update : α → α} {keeps : ∀ row, key (update row) = key row}
    {store : Store key} : Rewritten (fun old row => key old = name ∧ row = update old ∨
      key old ≠ name ∧ row = old) store (store.modify name update keeps) :=
  .of_modify (fun _ _ named => .inl ⟨named, rfl⟩) fun _ _ other => .inr ⟨other, rfl⟩

/-- A row may be replaced once more, by another change of the row it came from. -/
theorem Rewritten.put {change : α → α → Prop} {before after : Store key} {old row : α}
    (rewritten : Rewritten change before after) (there : old ∈ before) (named : key old = key row)
    (changed : change old row) : Rewritten change before (after.put row) := by
  constructor
  · intro other member
    rcases mem_put.mp member with rfl | ⟨held, differ⟩
    · exact ⟨old, there, named, changed⟩
    · exact rewritten.back other held
  · intro other member
    by_cases same : key other = key row
    · rw [eq_of_key member there (same.trans named.symm)]
      exact ⟨row, mem_put.mpr (.inl rfl), named.symm, changed⟩
    · obtain ⟨new, held, named', changed'⟩ := rewritten.forth other member
      exact ⟨new, mem_put.mpr (.inr ⟨held, fun equal => same (named'.symm.trans equal)⟩), named',
        changed'⟩

theorem get?_modify {name other : κ} {change : α → α} {keeps : ∀ row, key (change row) = key row}
    {store : Store key} : (store.modify name change keeps).get? other =
      if other = name then (store.get? other).map change else store.get? other := by
  unfold modify
  rw [get?_map]
  cases search : store.get? other with
  | none => simp
  | some row =>
    rw [Option.map_some, Option.map_some, key_of_get? search]
    by_cases same : other = name
    · rw [if_pos same, if_pos same]
    · rw [if_neg same, if_neg same]

end Lookup

section Missing

variable [DecidableEq κ]

theorem modify_of_missing {name : κ} {change : α → α} {keeps : ∀ row, key (change row) = key row}
    {store : Store key} (missing : store.get? name = none) :
    store.modify name change keeps = store := by
  cases store with
  | mk rows distinct =>
    simp only [modify, map, mk.injEq]
    refine (map_congr_left fun row member => ?_).trans (map_id rows)
    exact if_neg (get?_eq_none.mp missing row member)

theorem modify_ne {name : κ} {change : α → α} {keeps : ∀ row, key (change row) = key row}
    {store : Store key} {row : α} (found : store.get? name = some row)
    (differs : change row ≠ row) : store.modify name change keeps ≠ store := by
  intro same
  have changed : (store.modify name change keeps).get? name = some (change row) := by
    rw [get?_modify, if_pos rfl, found]
    rfl
  rw [same, found] at changed
  exact differs (Option.some.inj changed).symm

end Missing

/-- `values().filter(..).count()`. -/
def count (holds : α → Bool) (store : Store key) : Nat := (store.rows.filter holds).length

/-- Where each row counted here stands, by its key, for one counted there or for one of
the extra keys, no more are counted here than there and extra. -/
theorem count_le {first second : Store key} {holds holds' : α → Bool} (extra : List κ)
    (from_ : ∀ row ∈ first, holds row = true →
      (∃ old ∈ second, holds' old = true ∧ key old = key row) ∨ key row ∈ extra) :
    first.count holds ≤ second.count holds' + extra.length := by
  have distinct : ((first.rows.filter holds).map key).Nodup :=
    first.distinct.sublist (filter_sublist.map key)
  have subset : (first.rows.filter holds).map key ⊆ (second.rows.filter holds').map key ++ extra := by
    intro name member
    obtain ⟨row, counted, rfl⟩ := List.mem_map.mp member
    obtain ⟨there, held⟩ := mem_filter.mp counted
    rw [mem_append]
    rcases from_ row there held with ⟨old, present, held', same⟩ | listed
    · exact .inl (same ▸ mem_map_of_mem (mem_filter.mpr ⟨present, held'⟩))
    · exact .inr listed
  have bound := (subperm_of_subset distinct subset).length_le
  rw [length_map, length_append, length_map] at bound
  exact bound

theorem count_congr {store : Store key} {holds holds' : α → Bool}
    (same : ∀ row ∈ store, holds row = holds' row) : store.count holds = store.count holds' :=
  congrArg List.length (filter_congr same)

theorem count_le_of_keys {first second : Store key} {holds holds' : α → Bool}
    (from_ : ∀ row ∈ first, holds row = true →
      ∃ old ∈ second, holds' old = true ∧ key old = key row) :
    first.count holds ≤ second.count holds' :=
  count_le [] fun row member held => .inl (from_ row member held)

end Store

end ForgeNode
