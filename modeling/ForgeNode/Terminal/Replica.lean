import ForgeNode.Lib.Run
import ForgeNode.Terminal.Grid

/-! A replica that follows an engine's deltas shows what the engine shows. -/

namespace ForgeNode.Terminal

open List

variable {Cell Cursor TermModes : Type}

section Rows

variable {visible target : List (Row Cell)}

/-- Rows that are set one after another from what is to be shown, and show the rest already. -/
theorem set_all {entries : List (Nat × Row Cell)} (size : visible.length = target.length)
    (given : ∀ entry ∈ entries, target[entry.1]? = some entry.2)
    (kept : ∀ i, (∀ entry ∈ entries, entry.1 ≠ i) → visible[i]? = target[i]?) :
    entries.foldl (fun visible entry => visible.set entry.1 entry.2) visible = target := by
  induction entries generalizing visible with
  | nil => exact ext_getElem? fun i => kept i (by simp)
  | cons head rest ih =>
    refine ih (by rw [length_set, size]) (fun entry member =>
      given entry (mem_cons_of_mem _ member)) ?_
    intro i apart
    rw [getElem?_set]
    split
    · rename_i same
      have shown := given head mem_cons_self
      have inside : head.1 < visible.length := by
        rw [size]
        exact (List.getElem?_eq_some_iff.mp shown).1
      rw [if_pos inside, ← same, shown]
    · rename_i differ
      refine kept i fun entry member => ?_
      rcases mem_cons.mp member with rfl | later
      · exact differ
      · exact apart entry later

def Bounds.covers (bound : Bounds) (line col : Nat) : Prop :=
  bound.line = line ∧ bound.first ≤ col ∧ col ≤ bound.last

/-- Inclusive columns of a row, as `row_slice` takes them. -/
def Row.slice (row : Row Cell) (bound : Bounds) : Row Cell :=
  let start := min bound.first row.cells.length
  let stop := max (min (bound.last + 1) row.cells.length) start
  { row with cells := (row.cells.take stop).drop start }

/-- Outside of the bounds that are still to be patched, a row shows what is to be shown. -/
structure Shown (bounds : List Bounds) (line : Nat) (row target : Row Cell) : Prop where
  length : row.cells.length = target.cells.length
  wrapped : (∀ bound ∈ bounds, bound.line ≠ line) → row.wrapped = target.wrapped
  cells : ∀ col, (∀ bound ∈ bounds, ¬ bound.covers line col) → row.cells[col]? = target.cells[col]?

theorem Row.slice_length {row : Row Cell} {bound : Bounds}
    (inside : bound.first ≤ row.cells.length) : bound.first + (row.slice bound).cells.length =
      max (min (bound.last + 1) row.cells.length) bound.first := by
  simp only [Row.slice, Nat.min_eq_left inside, List.length_drop, length_take]
  omega

/-- The cells of a patched row: in the bounds they are the target's. -/
theorem Row.patched_cells {row target : Row Cell} {bound : Bounds}
    (length : row.cells.length = target.cells.length) (inside : bound.first ≤ target.cells.length)
    (col : Nat) : (row.cells.take bound.first ++ (target.slice bound).cells ++
        row.cells.drop (bound.first + (target.slice bound).cells.length))[col]? =
      if bound.first ≤ col ∧ col ≤ bound.last then target.cells[col]? else row.cells[col]? := by
  have total := Row.slice_length inside
  have sliced : (target.slice bound).cells.length =
      max (min (bound.last + 1) target.cells.length) bound.first - bound.first := by omega
  have taken : (row.cells.take bound.first).length = bound.first := by
    rw [length_take, length]
    exact Nat.min_eq_left inside
  rw [append_assoc, getElem?_append, taken]
  by_cases before : col < bound.first
  · rw [if_pos before, getElem?_take_of_lt before, if_neg (by omega)]
  · rw [if_neg before, getElem?_append]
    by_cases within : col - bound.first < (target.slice bound).cells.length
    · rw [if_pos within, if_pos (by omega)]
      simp only [Row.slice, Nat.min_eq_left inside, getElem?_drop]
      rw [getElem?_take_of_lt (by omega), Nat.add_sub_cancel' (Nat.not_lt.mp before)]
    · rw [if_neg within, getElem?_drop]
      have position : bound.first + (target.slice bound).cells.length +
          (col - bound.first - (target.slice bound).cells.length) = col := by omega
      rw [position]
      split
      · rw [getElem?_eq_none (by omega), getElem?_eq_none (by omega)]
      · rfl

/-- One patch, cut out of what is to be shown, leaves one bound less to be patched. -/
theorem Shown.patch {bounds : List Bounds} {bound : Bounds} {row target : Row Cell}
    (shown : Shown (bound :: bounds) bound.line row target)
    (inside : bound.first ≤ target.cells.length) :
    Shown bounds bound.line ⟨row.cells.take bound.first ++ (target.slice bound).cells ++
      row.cells.drop (bound.first + (target.slice bound).cells.length),
      (target.slice bound).wrapped⟩ target where
  length := by
    have total := Row.slice_length inside
    have size := shown.length
    simp only [length_append, length_take, List.length_drop]
    omega
  wrapped := fun _ => rfl
  cells := by
    intro col apart
    rw [Row.patched_cells shown.length inside]
    split
    · rfl
    · rename_i outside
      refine shown.cells col fun other member covers => ?_
      rcases mem_cons.mp member with rfl | later
      · exact outside covers.2
      · exact apart other later covers

/-- All patches, cut out of what is to be shown. -/
theorem patch_all {bounds : List Bounds} (size : visible.length = target.length)
    (inside : ∀ bound ∈ bounds, ∃ row, target[bound.line]? = some row ∧ bound.first ≤
      row.cells.length)
    (shown : ∀ i row aim, visible[i]? = some row → target[i]? = some aim → Shown bounds i row aim) :
    (bounds.map fun bound => (⟨bound.line, bound.first,
      ((target[bound.line]?).getD ⟨[], false⟩).slice bound⟩ :
      CellPatch Cell)).foldlM CellGrid.patched visible = some target := by
  induction bounds generalizing visible with
  | nil =>
    refine congrArg some (ext_getElem? fun i => ?_)
    cases here : visible[i]? with
    | none => exact (getElem?_eq_none (size ▸ List.getElem?_eq_none_iff.mp here)).symm
    | some row =>
      have bound : i < target.length := size ▸ (List.getElem?_eq_some_iff.mp here).1
      obtain ⟨length, wrapped, cells⟩ := shown i row _ here (getElem?_eq_getElem bound)
      rw [getElem?_eq_getElem bound]
      have same : row.cells = target[i].cells := ext_getElem? fun col => cells col (by simp)
      have flags := wrapped (by simp)
      rw [show row = target[i] from by
        cases row
        cases aim : target[i]
        simp only [aim] at same flags
        rw [same, flags]]
  | cons bound rest ih =>
    obtain ⟨aim, found, fits⟩ := inside bound mem_cons_self
    have there : bound.line < visible.length := size ▸ (List.getElem?_eq_some_iff.mp found).1
    have held := getElem?_eq_getElem there
    have now := shown bound.line _ aim held found
    have fitting : CellGrid.fits visible ⟨bound.line, bound.first, aim.slice bound⟩ = true := by
      simp only [CellGrid.fits, held, Option.any_some, decide_eq_true_eq, Row.slice_length fits,
        now.length]
      omega
    simp only [map_cons, foldlM_cons, found, Option.getD_some, CellGrid.patched, fitting, if_true]
    refine ih (by rw [length_modify, size]) (fun other member =>
      inside other (mem_cons_of_mem _ member)) ?_
    intro i row other here target_here
    rw [getElem?_modify] at here
    by_cases same : bound.line = i
    · subst same
      rw [held] at here
      cases found.symm.trans target_here
      cases here
      simpa only [if_true] using now.patch fits
    · cases before : visible[i]? with
      | none =>
        rw [before] at here
        cases here
      | some old =>
        rw [before] at here
        simp only [if_neg same, Option.map_eq_map, Option.map_some, Option.some.injEq] at here
        subst here
        obtain ⟨length, wrapped, cells⟩ := shown i old other before target_here
        refine ⟨length, fun apart => wrapped fun bound' member => ?_,
          fun col apart => cells col fun bound' member covers => ?_⟩
        · rcases mem_cons.mp member with rfl | later
          · exact same
          · exact apart bound' later
        · rcases mem_cons.mp member with rfl | later
          · exact same covers.1
          · exact apart bound' later covers

end Rows

section Replicas

variable {engine : Engine Cell Cursor TermModes} {grid : CellGrid Cell Cursor TermModes}

theorem insertAll_some {cache : Int → Option (Row Cell)} {entries : List (Int × Row Cell)}
    {key : Int} {row : Row Cell} (found : CellGrid.insertAll cache entries key = some row) :
    cache key = some row ∨ (key, row) ∈ entries := by
  induction entries generalizing cache with
  | nil => exact .inl found
  | cons head rest ih =>
    rcases ih found with here | later
    · have here : (if key = head.1 then some head.2 else cache key) = some row := here
      split at here
      · rename_i same
        refine .inr (mem_cons.mpr (.inl ?_))
        rw [same, ← Option.some.inj here]
      · exact .inl here
    · exact .inr (mem_cons_of_mem _ later)

theorem seeds_history (tail : Nat) (bounded : engine.history.length ≤ i64Max) {key : Int}
    {row : Row Cell} (seeded : (key, row) ∈ CellGrid.seeds (engine.snapshot tail)) :
    ∃ k : Nat, key = k ∧ engine.history[k]? = some row := by
  obtain ⟨⟨row', i⟩, numbered, named⟩ := List.mem_map.mp seeded
  have held := mem_zipIdx_iff_getElem?.mp (mem_of_mem_drop numbered)
  simp only [Engine.snapshot, getElem?_drop] at held
  cases named
  refine ⟨_, ?_, held⟩
  have inside := (List.getElem?_eq_some_iff.mp held).1
  simp only [Engine.snapshot, Engine.scrollbackLen, CellGrid.asI64, List.length_drop]
  omega

/-- The sequence of a delta skips ahead, or one of its rows or patches is not in the grid. -/
def Misfits (grid : CellGrid Cell Cursor TermModes) (delta : TerminalDelta Cell Cursor TermModes) :
    Prop :=
  grid.lastSeq + 1 < delta.seq ∨ (∃ entry ∈ delta.rows, grid.visible.length ≤ entry.1) ∨
    ∃ patch ∈ delta.patches, CellGrid.fits grid.visible patch = false

theorem misfit_refused {delta : TerminalDelta Cell Cursor TermModes}
    (fresh : grid.lastSeq < delta.seq) (misfits : Misfits grid delta) :
    grid.applyDelta delta = some (grid, .needsResync) := by
  unfold CellGrid.applyDelta
  rw [if_neg (Nat.not_le.mpr fresh)]
  split
  · rfl
  rename_i next
  split
  · rfl
  rename_i rows
  rw [if_pos]
  rcases misfits with skips | ⟨entry, there, outside⟩ | ⟨patch, there, outside⟩
  · exact absurd skips next
  · exact absurd (any_eq_true.mpr ⟨entry, there, decide_eq_true outside⟩) rows
  · exact any_eq_true.mpr ⟨patch, there, by rw [outside]; rfl⟩

end Replicas

section Engines

variable [Inhabited Cell] {engine next : Engine Cell Cursor TermModes}
  {grid : CellGrid Cell Cursor TermModes} {damage : Damage} {builder : DeltaBuilder}

theorem Engine.row_visible {i : Nat} (inside : i < engine.visible.length) :
    engine.row i = engine.visible[i] := by
  unfold Engine.row
  rw [if_neg (by omega), show ((i : Int) + engine.history.length).toNat =
    i + engine.history.length by omega, getElem?_append_right (Nat.le_add_left _ _), Nat.add_sub_cancel, getElem?_eq_getElem inside]
  rfl

theorem Engine.row_history {k : Nat} (inside : k < engine.history.length) :
    engine.row ((k : Int) - engine.history.length) = engine.history[k] := by
  unfold Engine.row
  rw [if_neg (by omega), Int.sub_add_cancel, Int.toNat_natCast, getElem?_append_left inside,
    getElem?_eq_getElem inside]
  rfl

theorem Engine.rows_visible : engine.rows 0 engine.screenLines = engine.visible := by
  refine ext_getElem? fun i => ?_
  unfold Engine.rows Engine.screenLines
  rw [Int.sub_zero, Int.toNat_natCast, getElem?_map]
  by_cases inside : i < engine.visible.length
  · rw [getElem?_range inside, Option.map_some, Int.zero_add, Engine.row_visible inside,
      getElem?_eq_getElem inside]
  · rw [getElem?_eq_none (by rw [length_range]; omega), getElem?_eq_none (by omega)]
    rfl

/-- All visible rows have the width of the grid. -/
def Engine.Shaped (engine : Engine Cell Cursor TermModes) : Prop :=
  ∀ row ∈ engine.visible, row.cells.length = engine.size.cols

/-- What the engine marks is of its grid, and what it does not mark shows as before. -/
def Damage.Covers (damage : Damage) (before after : Engine Cell Cursor TermModes) : Prop :=
  match damage with
  | .full => True
  | .partial_ indices => (∀ i ∈ indices, i < after.visible.length) ∧
      ∀ i, i ∉ indices → after.visible[i]? = before.visible[i]?
  | .columns bounds => (∀ bound ∈ bounds, bound.line < after.visible.length ∧
        bound.first ≤ after.size.cols) ∧
      ∀ i row old, after.visible[i]? = some row → before.visible[i]? = some old →
        ((∀ bound ∈ bounds, bound.line ≠ i) → row.wrapped = old.wrapped) ∧
        ∀ col, (∀ bound ∈ bounds, ¬ bound.covers i col) → row.cells[col]? = old.cells[col]?

/-- The engine goes on in one geometry, counts one delta, marks all that changed, and numbers its
history anew where a stored row moved or changed. -/
structure Follows (before : Engine Cell Cursor TermModes) (damage : Damage)
    (after : Engine Cell Cursor TermModes) : Prop where
  size : after.size = before.size
  lines : after.visible.length = before.visible.length
  shaped : after.Shaped
  seq : after.seq = before.seq + 1
  covers : damage.Covers before after
  history : after.scrollbackGeneration = before.scrollbackGeneration →
    before.history <+: after.history

/-- The replica shows what the engine does, and answers for no history row but the engine's. -/
structure Equals (engine : Engine Cell Cursor TermModes) (grid : CellGrid Cell Cursor TermModes) :
    Prop where
  visible : grid.visible = engine.visible
  cursor : grid.cursor = engine.cursor
  modes : grid.modes = engine.modes
  scrollbackLen : grid.scrollbackLen = engine.scrollbackLen
  scrollbackGeneration : grid.scrollbackGeneration = engine.scrollbackGeneration
  history : ∀ offset row, grid.scrollbackRow offset = some row → row = engine.row offset

/-- What is cached under an absolute index is the history row there. -/
def Cached (engine : Engine Cell Cursor TermModes) (grid : CellGrid Cell Cursor TermModes) : Prop :=
  engine.history.length ≤ i64Max → ∀ key row, grid.scrollbackCache key = some row →
    ∃ k : Nat, key = k ∧ engine.history[k]? = some row

structure Mirrors (engine : Engine Cell Cursor TermModes) (grid : CellGrid Cell Cursor TermModes) :
    Prop where
  visible : grid.visible = engine.visible
  cursor : grid.cursor = engine.cursor
  modes : grid.modes = engine.modes
  scrollbackLen : grid.scrollbackLen = engine.scrollbackLen
  scrollbackGeneration : grid.scrollbackGeneration = engine.scrollbackGeneration
  lastSeq : grid.lastSeq = engine.seq
  cached : Cached engine grid
  shaped : engine.Shaped

theorem Mirrors.equals (mirrors : Mirrors engine grid) : Equals engine grid where
  visible := mirrors.visible
  cursor := mirrors.cursor
  modes := mirrors.modes
  scrollbackLen := mirrors.scrollbackLen
  scrollbackGeneration := mirrors.scrollbackGeneration
  history := by
    intro offset row answered
    unfold CellGrid.scrollbackRow at answered
    split at answered
    · cases answered
    split at answered
    · cases answered
    rename_i below bounded
    rw [mirrors.scrollbackLen] at answered bounded
    obtain ⟨k, key, held⟩ := mirrors.cached (Nat.not_lt.mp bounded) _ row answered
    obtain ⟨inside, rfl⟩ := List.getElem?_eq_some_iff.mp held
    rw [← Engine.row_history inside, ← key]
    simp only [Engine.scrollbackLen]
    congr 1
    omega

/-- The rows of a delta are set to what the engine shows. -/
theorem delta_rows (shaped : engine.Shaped) (follows : Follows engine damage next) :
    (builder.delta next damage).1.patches.foldlM CellGrid.patched
        ((builder.delta next damage).1.rows.foldl (fun visible entry => visible.set entry.1 entry.2)
          engine.visible) = some next.visible := by
  have lines := follows.lines
  cases damage with
  | full =>
    have entries : (builder.delta next .full).1.rows =
        next.visible.zipIdx.map fun entry => (entry.2, entry.1) := by
      rw [← next.rows_visible]
      rfl
    rw [entries]
    refine congrArg some (set_all lines.symm ?_ ?_)
    · intro entry member
      obtain ⟨⟨row, i⟩, numbered, rfl⟩ := List.mem_map.mp member
      exact mem_zipIdx_iff_getElem?.mp numbered
    · intro i apart
      by_cases inside : i < next.visible.length
      · refine absurd rfl (apart (i, next.visible[i])
          (List.mem_map.mpr ⟨(next.visible[i], i), ?_, rfl⟩))
        exact mem_zipIdx_iff_getElem?.mpr (getElem?_eq_getElem inside)
      · rw [getElem?_eq_none (by omega), getElem?_eq_none (by omega)]
  | partial_ indices =>
    obtain ⟨inside, kept⟩ := follows.covers
    have entries : (builder.delta next (.partial_ indices)).1.rows =
        indices.map fun (i : Nat) => (i, next.row i) := by
      simp only [DeltaBuilder.delta, Engine.rows]
      rw [← filterMap_eq_map]
      refine filterMap_congr fun i _ => ?_
      rw [show ((i : Int) + 1 - i).toNat = 1 by omega]
      simp [range_succ]
    rw [entries]
    refine congrArg some (set_all lines.symm ?_ ?_)
    · intro entry member
      obtain ⟨i, there, rfl⟩ := List.mem_map.mp member
      rw [Engine.row_visible (inside i there), getElem?_eq_getElem (inside i there)]
    · intro i apart
      refine (kept i fun there => ?_).symm
      exact apart (i, next.row i) (List.mem_map.mpr ⟨i, there, rfl⟩) rfl
  | columns bounds =>
    obtain ⟨inside, kept⟩ := follows.covers
    have cut : (builder.delta next (.columns bounds)).1.patches = bounds.map fun bound =>
        ⟨bound.line, bound.first, ((next.visible[bound.line]?).getD ⟨[], false⟩).slice bound⟩ := by
      simp only [DeltaBuilder.delta]
      refine map_congr_left fun bound there => ?_
      have line := (inside bound there).1
      rw [getElem?_eq_getElem line, Option.getD_some, ← Engine.row_visible line]
      rfl
    rw [cut]
    refine patch_all lines.symm (fun bound there => ?_) fun i old row here shown => ?_
    · have line := (inside bound there).1
      refine ⟨_, getElem?_eq_getElem line, ?_⟩
      rw [follows.shaped _ (getElem_mem line)]
      exact (inside bound there).2
    · obtain ⟨wrapped, cells⟩ := kept i row old shown here
      refine ⟨?_, fun apart => (wrapped apart).symm, fun col apart => (cells col apart).symm⟩
      rw [follows.shaped row (mem_of_getElem? shown), shaped old (mem_of_getElem? here),
        follows.size]

/-- The rows and patches of a delta lie in the grid. -/
theorem delta_fits (shaped : engine.Shaped) (follows : Follows engine damage next) :
    (∀ entry ∈ (builder.delta next damage).1.rows, entry.1 < engine.visible.length) ∧
      ∀ patch ∈ (builder.delta next damage).1.patches, CellGrid.fits engine.visible patch =
        true := by
  have lines := follows.lines
  cases damage with
  | full =>
    refine ⟨fun entry member => ?_, fun patch member => absurd member not_mem_nil⟩
    simp only [DeltaBuilder.delta, Engine.rows_visible, List.mem_map] at member
    obtain ⟨⟨row, i⟩, numbered, rfl⟩ := member
    exact lines ▸ (List.getElem?_eq_some_iff.mp (mem_zipIdx_iff_getElem?.mp numbered)).1
  | partial_ indices =>
    refine ⟨fun entry member => ?_, fun patch member => absurd member not_mem_nil⟩
    obtain ⟨i, there, found⟩ := mem_filterMap.mp member
    obtain ⟨_, _, rfl⟩ := Option.map_eq_some_iff.mp found
    exact lines ▸ follows.covers.1 i there
  | columns bounds =>
    refine ⟨fun entry member => absurd member not_mem_nil, fun patch member => ?_⟩
    obtain ⟨bound, there, rfl⟩ := List.mem_map.mp member
    obtain ⟨line, first⟩ := follows.covers.1 bound there
    have held : bound.line < engine.visible.length := lines ▸ line
    have width := shaped _ (getElem_mem held)
    have shown : next.rowSlice bound = (next.visible[bound.line]).slice bound := by
      rw [← Engine.row_visible line]
      rfl
    have total := follows.shaped _ (getElem_mem line)
    have sliced := @Row.slice_length _ (next.visible[bound.line]) bound (total ▸ first)
    have size := follows.size
    simp only [CellGrid.fits, shown, getElem?_eq_getElem held, Option.any_some, decide_eq_true_eq,
      sliced, total, width, size]
    rw [size] at first
    omega

/-- A delta built from what follows is applied, and the replica mirrors the engine again. -/
theorem Mirrors.apply (mirrors : Mirrors engine grid) (follows : Follows engine damage next) :
    ∃ after, grid.applyDelta (builder.delta next damage).1 = some (after, .applied) ∧
      Mirrors next after := by
  obtain ⟨rows, patches⟩ := @delta_fits _ _ _ _ engine next damage builder mirrors.shaped follows
  have shown := @delta_rows _ _ _ _ engine next damage builder mirrors.shaped follows
  have seq : (builder.delta next damage).1.seq = grid.lastSeq + 1 := by
    rw [mirrors.lastSeq]
    exact follows.seq
  have rowsFit : ((builder.delta next damage).1.rows.any fun entry =>
      grid.visible.length ≤ entry.1) = false := by
    rw [any_eq_false, mirrors.visible]
    intro entry member
    rw [decide_eq_true_eq]
    exact Nat.not_le.mpr (rows entry member)
  have patchesFit : ((builder.delta next damage).1.patches.any fun patch =>
      !CellGrid.fits grid.visible patch) = false := by
    rw [any_eq_false, mirrors.visible]
    intro patch member
    rw [patches patch member]
    exact Bool.false_ne_true
  unfold CellGrid.applyDelta
  rw [if_neg (by omega), if_neg (by omega), if_neg (by rw [rowsFit]; exact Bool.false_ne_true),
    if_neg (by rw [patchesFit]; exact Bool.false_ne_true), mirrors.visible]
  simp only [shown]
  refine ⟨_, rfl, rfl, rfl, rfl, rfl, rfl, rfl, ?_, follows.shaped⟩
  intro bounded key row cached
  by_cases renumbered : next.scrollbackGeneration = grid.scrollbackGeneration
  · have kept := follows.history (renumbered.trans mirrors.scrollbackGeneration)
    have cached : grid.scrollbackCache key = some row := by
      have cached : (if next.scrollbackGeneration ≠ grid.scrollbackGeneration then fun _ => none
        else grid.scrollbackCache) key = some row := cached
      rwa [if_neg (fun differ => differ renumbered)] at cached
    obtain ⟨k, named, held⟩ := mirrors.cached (Nat.le_trans kept.length_le bounded) key row cached
    refine ⟨k, named, ?_⟩
    obtain ⟨tail, extended⟩ := kept
    rw [← extended]
    exact (getElem?_append_left (List.getElem?_eq_some_iff.mp held).1).trans held
  · have cached : (if next.scrollbackGeneration ≠ grid.scrollbackGeneration then fun _ => none
      else grid.scrollbackCache) key = some row := cached
    rw [if_pos renumbered] at cached
    cases cached

section Runs

/-- An engine, the builder of its deltas and one replica. -/
structure Watch (Cell Cursor TermModes : Type) where
  engine : Engine Cell Cursor TermModes
  builder : DeltaBuilder
  grid : CellGrid Cell Cursor TermModes

/-- What the engine became, and the damage that it then reported. -/
structure Taking (Cell Cursor TermModes : Type) where
  engine : Engine Cell Cursor TermModes
  damage : Damage

variable {watch : Watch Cell Cursor TermModes}

def Watch.delta (watch : Watch Cell Cursor TermModes) (taking : Taking Cell Cursor TermModes) :
    TerminalDelta Cell Cursor TermModes := (watch.builder.delta taking.engine taking.damage).1

def Watch.step (watch : Watch Cell Cursor TermModes) (taking : Taking Cell Cursor TermModes) :
    Watch Cell Cursor TermModes where
  engine := taking.engine
  builder := (watch.builder.delta taking.engine taking.damage).2
  grid := ((watch.grid.applyDelta (watch.delta taking)).map Prod.fst).getD watch.grid

def Watch.Step (before : Watch Cell Cursor TermModes) (taking : Taking Cell Cursor TermModes)
    (after : Watch Cell Cursor TermModes) : Prop :=
  Follows before.engine taking.damage taking.engine ∧ after = before.step taking

/-- A replica made of a snapshot, or one that a snapshot replaced. -/
def Watch.attach (engine : Engine Cell Cursor TermModes) (tail : Nat)
    (replica : Option (CellGrid Cell Cursor TermModes)) : Watch Cell Cursor TermModes where
  engine := engine
  builder := ⟨engine.scrollbackLen⟩
  grid := match replica with
    | none => .fromSnapshot (engine.snapshot tail)
    | some grid => grid.applyResync (engine.snapshot tail)

omit [Inhabited Cell] in
theorem Mirrors.attach (shaped : engine.Shaped) (tail : Nat)
    (replica : Option (CellGrid Cell Cursor TermModes)) :
    Mirrors engine (Watch.attach engine tail replica).grid := by
  have cached (bounded : engine.history.length ≤ i64Max) (key : Int) (row : Row Cell)
      (found : CellGrid.insertAll (fun _ => none) (CellGrid.seeds (engine.snapshot tail)) key =
        some row) :
      ∃ k : Nat, key = k ∧ engine.history[k]? = some row := by
    rcases insertAll_some found with none | seeded
    · cases none
    · exact seeds_history tail bounded seeded
  cases replica with
  | none =>
    refine ⟨rfl, rfl, rfl, rfl, rfl, rfl, fun bounded key row found => ?_, shaped⟩
    simp only [Watch.attach, CellGrid.fromSnapshot] at found
    exact cached bounded key row found
  | some grid =>
    refine ⟨rfl, rfl, rfl, rfl, rfl, rfl, fun bounded key row found => ?_, shaped⟩
    simp only [Watch.attach, CellGrid.applyResync] at found
    exact cached bounded key row found

/-- Along every run the replica equals the engine, and a delta that is not stale and does not fit
is refused. -/
theorem replica_equals_engine {steps :
      List (Taken (Watch Cell Cursor TermModes) (Taking Cell Cursor TermModes))}
    {last : Watch Cell Cursor TermModes} (shaped : engine.Shaped) (tail : Nat)
    (replica : Option (CellGrid Cell Cursor TermModes))
    (run : ForgeNode.Run Watch.Step (Watch.attach engine tail replica) steps last) :
    (∀ watch ∈ ForgeNode.Run.states (Watch.attach engine tail replica) steps,
      Equals watch.engine watch.grid) ∧
    (∀ taken ∈ steps, taken.before.grid.applyDelta (taken.before.delta taken.event) =
      some (taken.after.grid, .applied)) ∧
    ∀ (grid : CellGrid Cell Cursor TermModes) (delta : TerminalDelta Cell Cursor TermModes),
      (delta.seq ≤ grid.lastSeq → grid.applyDelta delta = some (grid, .stale)) ∧
      (grid.lastSeq < delta.seq → Misfits grid delta → grid.applyDelta delta =
        some (grid, .needsResync)) := by
  have kept := run.invariant_states (fun watch => Mirrors watch.engine watch.grid)
    (fun {before taking after} step mirrors => by
      obtain ⟨follows, rfl⟩ := step
      obtain ⟨grid, applied, mirrors⟩ := @Mirrors.apply _ _ _ _ _ _ _ _ before.builder mirrors follows
      show Mirrors taking.engine (Option.getD (Option.map Prod.fst
        (before.grid.applyDelta (before.builder.delta taking.engine taking.damage).1)) before.grid)
      rw [applied]
      exact mirrors) (.attach shaped tail replica)
  refine ⟨fun watch member => ?_, fun taken there => ?_, fun grid delta =>
    ⟨fun old => if_pos old, misfit_refused⟩⟩
  · exact (kept watch member).equals
  · obtain ⟨follows, stepped⟩ := run.step_of_mem there
    obtain ⟨grid, applied, _⟩ :=
      @Mirrors.apply _ _ _ _ _ _ _ _ taken.before.builder (kept _ (run.before_mem_states there))
      follows
    have applied : taken.before.grid.applyDelta (taken.before.delta taken.event) =
        some (grid, .applied) := applied
    rw [stepped]
    show _ = some (Option.getD (Option.map Prod.fst
      (taken.before.grid.applyDelta (taken.before.delta taken.event))) taken.before.grid, _)
    rw [applied]
    rfl

/-- One line of history after a scroll, then a change of the visible line. -/
def oneLine (seq : Nat) (history : List Char) (shown : Char) : Engine Char Unit Unit where
  seq := seq
  size := ⟨1, 1⟩
  visible := [⟨[shown], false⟩]
  history := history.map fun cell => ⟨[cell], false⟩
  scrollbackGeneration := 0
  cursor := ()
  modes := ()
  title := none

def scrolled : List (Taken (Watch Char Unit Unit) (Taking Char Unit Unit)) :=
  ForgeNode.Run.trace Watch.step (Watch.attach (oneLine 0 [] 'a') 100 none)
    [⟨oneLine 1 ['a'] 'b', .full⟩, ⟨oneLine 2 ['a'] 'c', .columns [⟨0, 0, 0⟩]⟩]

theorem oneLine_shaped (seq : Nat) (history : List Char) (shown : Char) :
    (oneLine seq history shown).Shaped := by
  intro row member
  cases mem_singleton.mp member
  rfl

theorem replica_equals_engine_scrolled :
    (∀ watch ∈ ForgeNode.Run.states (Watch.attach (oneLine 0 [] 'a') 100 none) scrolled,
      Equals watch.engine watch.grid) ∧
    (∀ taken ∈ scrolled, taken.before.grid.applyDelta (taken.before.delta taken.event) =
      some (taken.after.grid, .applied)) ∧
    ∀ (grid : CellGrid Char Unit Unit) (delta : TerminalDelta Char Unit Unit),
      (delta.seq ≤ grid.lastSeq → grid.applyDelta delta = some (grid, .stale)) ∧
      (grid.lastSeq < delta.seq → Misfits grid delta → grid.applyDelta delta =
        some (grid, .needsResync)) := by
  refine replica_equals_engine (oneLine_shaped 0 [] 'a') 100 none
    (.cons ⟨?_, rfl⟩ (.cons ⟨?_, rfl⟩ .nil))
  · exact ⟨rfl, rfl, oneLine_shaped _ _ _, rfl, trivial, fun _ => nil_prefix⟩
  · refine ⟨rfl, rfl, oneLine_shaped _ _ _, rfl, ⟨by simp [oneLine], ?_⟩, fun _ => prefix_rfl⟩
    intro i row old here _
    have first : i = 0 := by
      have inside := (List.getElem?_eq_some_iff.mp here).1
      simpa [oneLine] using inside
    subst first
    refine ⟨fun apart => absurd rfl (apart ⟨0, 0, 0⟩ mem_cons_self), fun col apart => ?_⟩
    cases col with
    | zero => exact absurd ⟨rfl, Nat.le_refl _, Nat.le_refl _⟩ (apart ⟨0, 0, 0⟩ mem_cons_self)
    | succ col =>
      rw [getElem?_eq_none, getElem?_eq_none]
      · rename_i before
        rw [oneLine_shaped _ _ _ old (mem_of_getElem? before)]
        exact Nat.le_add_left 1 col
      · rw [oneLine_shaped _ _ _ row (mem_of_getElem? here)]
        exact Nat.le_add_left 1 col

/-- A stale delta is discarded before its rows are looked at. -/
theorem misfit_discarded :
    ¬ ∀ (grid : CellGrid Char Unit Unit) (delta : TerminalDelta Char Unit Unit),
      Misfits grid delta → grid.applyDelta delta = some (grid, .needsResync) := by
  intro claimed
  have refused := congrArg (Option.map Prod.snd)
    (claimed (.fromSnapshot ((oneLine 0 [] 'a').snapshot 100))
      ⟨0, [(1, ⟨['b'], false⟩)], [], 0, 0, 0, (), ()⟩
      (.inr (.inl ⟨(1, ⟨['b'], false⟩), mem_cons_self, by decide⟩)))
  exact absurd refused (by decide)

end Runs

end Engines

end ForgeNode.Terminal
