import ForgeNode.Lib.Store

/-! Entries by name, and what writes under some of the names leave of them. -/

namespace ForgeNode

open List Store

section Overwrite

variable {κ ε ι : Type} [DecidableEq κ]

/-- Change the entry under one name, if it is there. -/
def overwrite (name : κ) (set : ε → ε) (entries : κ → Option ε) : κ → Option ε := fun other =>
  if other = name then (entries other).map set else entries other

/-- One change after another. -/
def overwriteEach (name : ι → κ) (set : ι → ε → ε) (items : List ι) (entries : κ → Option ε) :
    κ → Option ε :=
  items.foldl (fun entries item => overwrite (name item) (set item) entries) entries

variable {name : ι → κ} {set : ι → ε → ε} {items : List ι} {entries : κ → Option ε} {other : κ}

theorem overwriteEach_missed (missed : ∀ item ∈ items, name item ≠ other) :
    overwriteEach name set items entries other = entries other := by
  unfold overwriteEach
  induction items generalizing entries with
  | nil => rfl
  | cons item rest ih =>
    rw [foldl_cons, ih fun later member => missed later (mem_cons_of_mem _ member), overwrite,
      if_neg fun same => missed item mem_cons_self same.symm]

/-- Where a change says all there is to say, the last one counts. -/
theorem overwriteEach_hit (whole : ∀ item earlier entry, set item (set earlier entry) =
      set item entry) {value : ε → ε}
    (one : ∀ item ∈ items, name item = other → set item = value)
    (hit : ∃ item ∈ items, name item = other) :
    overwriteEach name set items entries other = (entries other).map value := by
  unfold overwriteEach
  induction items generalizing entries with
  | nil =>
    obtain ⟨item, member, _⟩ := hit
    cases member
  | cons item rest ih =>
    rw [foldl_cons]
    by_cases later : ∃ item ∈ rest, name item = other
    · rw [ih (fun item member => one item (mem_cons_of_mem _ member)) later, overwrite]
      split
      · rename_i here
        obtain ⟨last, member, named⟩ := later
        rw [Option.map_map, ← one last (mem_cons_of_mem _ member) named]
        congr 1
        exact funext fun entry => whole last item entry
      · rfl
    · have rest_ := @overwriteEach_missed κ ε ι _ name set rest (overwrite (name item) (set item)
        entries) other fun item member same => later ⟨item, member, same⟩
      have here : name item = other := by
        obtain ⟨found, member, named⟩ := hit
        rcases mem_cons.mp member with rfl | inRest
        · exact named
        · exact absurd ⟨found, inRest, named⟩ later
      unfold overwriteEach at rest_
      rw [rest_, overwrite, if_pos here.symm, one item mem_cons_self here]

section Rows

variable {α : Type} {key : α → κ} {entry : α → ε} {stamp : α → ε → ε} {store : Store key}
  {update change : α → α}

/-- The entries of a store in which some rows are changed. -/
theorem map_overwrites (store : Store key) (entry : α → ε) (stamp : α → ε → ε) {select : α → Bool}
    (keeps : ∀ row, key (change row) = key row)
    (whole : ∀ row earlier entry, stamp row (stamp earlier entry) = stamp row entry)
    (named : ∀ row, key (update row) = key row)
    (changes : ∀ row ∈ store, entry (change row) = if select row then stamp (update row) (entry row)
      else entry row) :
    (fun name => ((store.map change keeps).get? name).map entry) =
      overwriteEach key stamp ((store.rows.filter select).map update) fun name =>
      (store.get? name).map entry := by
  funext name
  rw [get?_map]
  cases held : store.get? name with
  | none =>
    rw [overwriteEach_missed]
    · simp [held]
    · intro item member same
      obtain ⟨row, there, rfl⟩ := List.mem_map.mp member
      exact get?_eq_none.mp held row (mem_filter.mp there).1 ((named row).symm.trans same)
  | some row =>
    obtain ⟨member, here⟩ := get?_eq_some.mp held
    have changed := changes row member
    have only {item : α} (there : item ∈ (store.rows.filter select).map update)
        (same : key item = name) : item = update row ∧ select row = true := by
      obtain ⟨other, held', rfl⟩ := List.mem_map.mp there
      obtain ⟨listed, chosen⟩ := mem_filter.mp held'
      have is_ := eq_of_key listed member ((named other).symm.trans (same.trans here.symm))
      exact ⟨congrArg update is_, is_ ▸ chosen⟩
    by_cases chosen : select row = true
    · rw [overwriteEach_hit whole (fun item there same => congrArg stamp (only there same).1)
        ⟨_, List.mem_map.mpr ⟨row, mem_filter.mpr ⟨member, chosen⟩, rfl⟩, (named row).trans here⟩,
        held]
      simp only [Option.map_some, changed, chosen, if_true]
    · rw [overwriteEach_missed fun item there same => chosen (only there same).2]
      simp [held, changed, chosen]

theorem modify_overwrite {name : κ} {set : ε → ε} (keeps : ∀ row, key (change row) = key row)
    (changes : ∀ row ∈ store, key row = name → entry (change row) = set (entry row)) :
    (fun other => ((store.modify name change keeps).get? other).map entry) =
      overwrite name set fun other => (store.get? other).map entry := by
  funext other
  unfold overwrite
  rw [get?_modify]
  split
  · rename_i here
    cases held : store.get? other with
    | none => simp [held]
    | some row =>
      obtain ⟨member, named⟩ := get?_eq_some.mp held
      simp only [held, Option.map_some, changes row member (named.trans here)]
  · rfl

theorem put_overwrites {row old : α} (found : store.get? (key row) = some old)
    (changes : entry row = stamp row (entry old)) :
    (fun other => ((store.put row).get? other).map entry) =
      overwriteEach key stamp [row] fun other => (store.get? other).map entry := by
  funext other
  change _ = overwrite (key row) (stamp row) (fun other => (store.get? other).map entry) other
  unfold overwrite
  rw [get?_put]
  by_cases here : key row = other
  · rw [if_pos here, if_pos here.symm, ← here]
    simp only [found, Option.map_some, changes]
  · rw [if_neg here, if_neg fun same => here same.symm]

theorem retain_filters {keep : α → Bool} {holds : ε → Bool}
    (same : ∀ row ∈ store, keep row = holds (entry row)) :
    (fun name => ((store.retain keep).get? name).map entry) = fun name =>
    ((store.get? name).map entry).filter holds := by
  funext name
  rw [get?_retain]
  cases held : store.get? name with
  | none => rfl
  | some row =>
    have known := same row (mem_of_get? held)
    simp only [Option.filter, Option.map_some, ← known]
    split <;> rfl

theorem map_unseen (store : Store key) (entry : α → ε) (keeps : ∀ row, key (change row) = key row)
    (unseen : ∀ row, entry (change row) = entry row) :
    (fun name => ((store.map change keeps).get? name).map entry) = fun name =>
    (store.get? name).map entry := by
  funext name
  rw [get?_map, Option.map_map]
  exact congrArg (fun look => (store.get? name).map look) (funext unseen)

theorem modify_unseen (store : Store key) (entry : α → ε) (name : κ)
    (keeps : ∀ row, key (change row) = key row) (unseen : ∀ row, entry (change row) = entry row) :
    (fun other => ((store.modify name change keeps).get? other).map entry) = fun other =>
    (store.get? other).map entry := by
  unfold Store.modify
  exact map_unseen _ _ _ fun row => by split <;> [exact unseen row; rfl]

/-- The entries of a store whose rows were rewritten. -/
theorem rewritten_entries (map : ε → ε) {after : Store key} {changed : α → α → Prop}
    (rewritten : Store.Rewritten changed store after)
    (changes : ∀ old ∈ store, ∀ row ∈ after, changed old row → entry row = map (entry old))
    (name : κ) : (after.get? name).map entry = ((store.get? name).map entry).map map := by
  cases held : store.get? name with
  | none =>
    cases later : after.get? name with
    | none => rfl
    | some row =>
      obtain ⟨member, named⟩ := get?_eq_some.mp later
      obtain ⟨old, there, same, _⟩ := rewritten.back row member
      exact absurd (same.trans named) (get?_eq_none.mp held old there)
  | some old =>
    obtain ⟨member, named⟩ := get?_eq_some.mp held
    obtain ⟨row, there, same, change⟩ := rewritten.forth old member
    rw [get?_eq_some.mpr ⟨there, same.trans named⟩]
    exact congrArg some (changes old member row there change)

/-- A row written as it is there changes nothing. -/
theorem overwriteEach_same {rows : List α}
    (whole : ∀ row earlier entry, stamp row (stamp earlier entry) = stamp row entry)
    (held : ∀ row ∈ rows, row ∈ store) (same : ∀ row, stamp row (entry row) = entry row) :
    overwriteEach key stamp rows (fun name => (store.get? name).map entry) = fun name =>
    (store.get? name).map entry := by
  funext name
  by_cases hit : ∃ row ∈ rows, key row = name
  · obtain ⟨row, member, named⟩ := hit
    have only : ∀ item ∈ rows, key item = name → stamp item = stamp row := fun item there same =>
      congrArg stamp (eq_of_key (held item there) (held row member) (same.trans named.symm))
    rw [overwriteEach_hit whole only ⟨row, member, named⟩, get?_eq_some.mpr
      ⟨held row member, named⟩]
    simp only [Option.map_some, same]
  · exact overwriteEach_missed fun item member named => hit ⟨item, member, named⟩

end Rows

end Overwrite

end ForgeNode
