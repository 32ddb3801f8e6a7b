import ForgeNode.Terminal.Replica
import ForgeNode.Lib.Shelf
import Mathlib.Data.List.TakeWhile

/-! The history that a replica caches: pages fetched by absolute index, in a bounded map. -/

namespace ForgeNode.Terminal

open List ForgeNode.Shelf

attribute [local irreducible] maxScrollbackCacheRows i64Max

structure ScrollbackRows (Cell Cursor TermModes : Type) where
  generation : Nat
  snapshot : Option (TerminalSnapshot Cell Cursor TermModes)
  fromLine : Int
  rows : List (Row Cell)

/-- A replica with its cache as the map that it is. -/
structure CachedGrid (Cell Cursor TermModes : Type) where
  grid : CellGrid Cell Cursor TermModes
  cache : List (Int × Row Cell)

variable {Cell Cursor TermModes : Type}

/-- The rows of a block that are newest, as far as their indices fit. -/
def ScrollbackRows.page (block : ScrollbackRows Cell Cursor TermModes) : List (Int × Row Cell) :=
  let skip := block.rows.length - maxScrollbackCacheRows
  ((block.rows.zipIdx.map fun entry => (block.fromLine + entry.2, entry.1)).drop skip).takeWhile
    fun entry =>
    decide (entry.1 ≤ i64Max)

namespace CachedGrid

/-- `seed_scrollback_tail` on an empty cache. -/
def seeded (snapshot : TerminalSnapshot Cell Cursor TermModes) : List (Int × Row Cell) :=
  (CellGrid.seeds snapshot).foldl (fun cache entry => put entry.1 entry.2 cache) []

def fromSnapshot (snapshot : TerminalSnapshot Cell Cursor TermModes) :
    CachedGrid Cell Cursor TermModes :=
  ⟨.fromSnapshot snapshot, seeded snapshot⟩

variable (held : CachedGrid Cell Cursor TermModes)

/-- `apply_delta`; none where it panics. -/
def applyDelta (delta : TerminalDelta Cell Cursor TermModes) :
    Option (CachedGrid Cell Cursor TermModes × DeltaOutcome) :=
  (held.grid.applyDelta delta).map fun next =>
    (⟨next.1, if next.2 = .applied ∧ delta.scrollbackGeneration ≠
      held.grid.scrollbackGeneration then []
      else held.cache⟩, next.2)

def applyResync (snapshot : TerminalSnapshot Cell Cursor TermModes) :
    CachedGrid Cell Cursor TermModes :=
  ⟨held.grid.applyResync snapshot, seeded snapshot⟩

/-- The replica with another cache. -/
def withCache (cache : List (Int × Row Cell)) : CachedGrid Cell Cursor TermModes :=
  ⟨{ held.grid with scrollbackCache := lookup cache }, cache⟩

section Merge

variable (block : ScrollbackRows Cell Cursor TermModes)

/-- The snapshot of a block is behind the replica, or of another history. -/
def refuses : Bool := block.snapshot.any fun snapshot =>
  decide (snapshot.seq < held.grid.lastSeq) || decide (snapshot.scrollbackGeneration ≠
    block.generation)

/-- Take the snapshot of a block of another generation. -/
def align : CachedGrid Cell Cursor TermModes :=
  match block.snapshot with
  | some snapshot =>
    if held.grid.scrollbackGeneration ≠ block.generation then held.applyResync snapshot else held
  | none => held

/-- Insert the rows one after another, evicting those furthest from each. -/
def mergeRows : CachedGrid Cell Cursor TermModes :=
  held.withCache (storeAll maxScrollbackCacheRows block.page held.cache)

/-- Merge fetched history by absolute index. -/
def mergeScrollback : CachedGrid Cell Cursor TermModes :=
  if held.refuses block then held
  else if block.generation ≠ (held.align block).grid.scrollbackGeneration then held.align block
  else (held.align block).mergeRows block

end Merge

end CachedGrid

/-- The rows of a snapshot's tail, each with the generation and the index that it was received
under. -/
def TerminalSnapshot.received (snapshot : TerminalSnapshot Cell Cursor TermModes) : Set
  (Nat × Int × Row Cell) :=
  fun entry => entry.1 = snapshot.scrollbackGeneration ∧ ∃ i : Nat, snapshot.scrollbackTail[i]? =
    some entry.2.2 ∧ entry.2.1 = CellGrid.asI64
      snapshot.scrollbackLen - snapshot.scrollbackTail.length + i

/-- The rows of a block, each with the generation and the index that it was received under. -/
def ScrollbackRows.received (block : ScrollbackRows Cell Cursor TermModes) :
    Set (Nat × Int × Row Cell) :=
  fun entry => (entry.1 = block.generation ∧ ∃ i : Nat, block.rows[i]? = some entry.2.2 ∧
    entry.2.1 = block.fromLine + i) ∨ ∃ snapshot, block.snapshot = some snapshot ∧
    entry ∈ snapshot.received

namespace CachedGrid

/-- A replica that a run reaches, with every row that it received on the way. -/
inductive Reached : CachedGrid Cell Cursor TermModes → Set (Nat × Int × Row Cell) → Prop
  | fromSnapshot {snapshot : TerminalSnapshot Cell Cursor TermModes}
      (bounded : snapshot.scrollbackLen < 2 ^ 64) : Reached (.fromSnapshot snapshot) snapshot.received
  | applyDelta {held next : CachedGrid Cell Cursor TermModes} {seen : Set (Nat × Int × Row Cell)}
      {delta : TerminalDelta Cell Cursor TermModes} {outcome : DeltaOutcome} :
      Reached held seen → held.applyDelta delta = some (next, outcome) → Reached next seen
  | applyResync {held : CachedGrid Cell Cursor TermModes} {seen : Set (Nat × Int × Row Cell)}
      {snapshot : TerminalSnapshot Cell Cursor TermModes} (bounded : snapshot.scrollbackLen <
        2 ^ 64) :
      Reached held seen → Reached (held.applyResync snapshot) (fun entry => entry ∈ seen ∨
        entry ∈ snapshot.received)
  | mergeScrollback {held : CachedGrid Cell Cursor TermModes} {seen : Set (Nat × Int × Row Cell)}
      {block : ScrollbackRows Cell Cursor TermModes}
      (bounded : ∀ snapshot, block.snapshot = some snapshot → snapshot.scrollbackLen < 2 ^ 64) :
      Reached held seen → Reached (held.mergeScrollback block) (fun entry => entry ∈ seen ∨
        entry ∈ block.received)

/-- A block is taken in, for the generation that is then the replica's. -/
structure Accepts (held : CachedGrid Cell Cursor TermModes)
    (block : ScrollbackRows Cell Cursor TermModes) : Prop where
  fresh : held.refuses block = false
  current : block.generation = (held.align block).grid.scrollbackGeneration

/-- The newest rows of a block are cached, each under its index. -/
def Retains (held : CachedGrid Cell Cursor TermModes)
    (block : ScrollbackRows Cell Cursor TermModes) : Prop :=
  ∀ (i : Nat) (row : Row Cell), block.rows.length - min block.rows.length maxScrollbackCacheRows ≤ i →
    block.rows[i]? = some row → held.grid.scrollbackCache (block.fromLine + i) = some row

/-- Every index of a block fits, and no row of it is taken while a full cache has its further end in
the block. -/
def Takes (held : CachedGrid Cell Cursor TermModes) (block : ScrollbackRows Cell Cursor TermModes) :
  Prop :=
  (∀ i < block.rows.length, block.fromLine + i ≤ i64Max) ∧
    Roomy maxScrollbackCacheRows
      (block.fromLine + (block.rows.length - maxScrollbackCacheRows : Nat)) block.page
        (held.align block).cache

/-- What every reachable replica keeps. -/
structure Sound (held : CachedGrid Cell Cursor TermModes) (seen : Set (Nat × Int × Row Cell)) :
    Prop where
  shelf : Shelf.Sound maxScrollbackCacheRows held.cache
  same : ∀ key, held.grid.scrollbackCache key = lookup held.cache key
  inside : ∀ entry ∈ held.cache, entry.1 ≤ i64Max
  received : ∀ entry ∈ held.cache, (held.grid.scrollbackGeneration, entry) ∈ seen

variable {held next : CachedGrid Cell Cursor TermModes} {seen more : Set (Nat × Int × Row Cell)}
  {snapshot : TerminalSnapshot Cell Cursor TermModes} {block : ScrollbackRows Cell Cursor TermModes}

theorem Sound.mono (sound : Sound held seen) (grows : ∀ entry ∈ seen, entry ∈ more) :
    Sound held more where
  shelf := sound.shelf
  same := sound.same
  inside := sound.inside
  received entry there := grows _ (sound.received entry there)

theorem foldl_put_lookup (entries map : List (Int × Row Cell)) :
    lookup (entries.foldl (fun cache entry => put entry.1 entry.2 cache) map) =
      CellGrid.insertAll (lookup map) entries := by
  induction entries generalizing map with
  | nil => rfl
  | cons entry rest ih =>
    have step : lookup (put entry.1 entry.2 map) = fun key =>
        if key = entry.1 then some entry.2 else lookup map key :=
      funext fun key => lookup_put key
    rw [foldl_cons, ih, step]
    rfl

theorem foldl_put_sound (entries map : List (Int × Row Cell)) (ordered : Ordered map) :
    Ordered (entries.foldl (fun cache entry => put entry.1 entry.2 cache) map) ∧
      (entries.foldl (fun cache entry => put entry.1 entry.2 cache) map).length ≤ map.length +
      entries.length ∧ ∀ entry ∈ entries.foldl (fun cache entry => put entry.1 entry.2 cache) map,
        entry ∈ entries ∨ entry ∈ map := by
  induction entries generalizing map with
  | nil => exact ⟨ordered, Nat.le_refl _, fun _ there => .inr there⟩
  | cons head rest ih =>
    obtain ⟨sorted, short, from_⟩ := ih (put head.1 head.2 map) ordered.put
    have size := @length_put_le _ head.1 head.2 map
    refine ⟨sorted, ?_, ?_⟩
    · rw [foldl_cons, length_cons]
      omega
    · intro entry there
      rcases from_ entry there with later | here
      · exact .inl (mem_cons_of_mem _ later)
      · rcases put_mem here with rfl | old
        · exact .inl mem_cons_self
        · exact .inr old

theorem asI64_le {length : Nat} (bounded : length < 2 ^ 64) : CellGrid.asI64 length ≤ i64Max := by
  unfold CellGrid.asI64
  split_ifs with fits
  · exact Int.ofNat_le.mpr fits
  · have positive : (0 : Int) ≤ i64Max := Int.natCast_nonneg _
    have low : (length : Int) < 2 ^ 64 := by exact_mod_cast bounded
    exact Int.le_trans (Int.le_of_lt (Int.sub_neg_of_lt low)) positive

/-- What a snapshot seeds. -/
theorem seeded_sound (bounded : snapshot.scrollbackLen < 2 ^ 64)
    (grid : CellGrid Cell Cursor TermModes)
    (cache : grid.scrollbackCache = CellGrid.insertAll (fun _ => none) (CellGrid.seeds snapshot))
    (generation : grid.scrollbackGeneration = snapshot.scrollbackGeneration) :
    Sound ⟨grid, seeded snapshot⟩ snapshot.received := by
  obtain ⟨ordered, short, from_⟩ := foldl_put_sound (CellGrid.seeds snapshot) [] .nil
  have listed : ∀ entry ∈ seeded snapshot, ∃ i : Nat, snapshot.scrollbackTail[i]? = some entry.2 ∧
      entry.1 = CellGrid.asI64 snapshot.scrollbackLen - snapshot.scrollbackTail.length + i := by
    intro entry there
    rcases from_ entry there with seed | never
    · obtain ⟨⟨row, i⟩, numbered, rfl⟩ := List.mem_map.mp seed
      exact ⟨i, mem_zipIdx_iff_getElem?.mp (mem_of_mem_drop numbered), rfl⟩
    · exact absurd never not_mem_nil
  refine ⟨⟨ordered, ?_⟩, ?_, ?_, ?_⟩
  · have size : (CellGrid.seeds snapshot).length ≤ maxScrollbackCacheRows := by
      simp only [CellGrid.seeds, length_map, List.length_drop, length_zipIdx]
      omega
    rw [length_nil, Nat.zero_add] at short
    exact Nat.le_trans short size
  · intro key
    simp only [cache]
    exact congrFun (foldl_put_lookup (CellGrid.seeds snapshot) []).symm key
  · intro entry there
    obtain ⟨i, held, index⟩ := listed entry there
    have within := (List.getElem?_eq_some_iff.mp held).1
    have high := asI64_le bounded
    omega
  · intro entry there
    obtain ⟨i, held, index⟩ := listed entry there
    exact ⟨generation, i, held, index⟩

theorem applyDelta_cache {grid after : CellGrid Cell Cursor TermModes}
    {delta : TerminalDelta Cell Cursor TermModes} {outcome : DeltaOutcome}
    (taken : grid.applyDelta delta = some (after, outcome)) :
    (outcome = .applied ∧ after.scrollbackGeneration = delta.scrollbackGeneration ∧
      after.scrollbackCache =
        (if delta.scrollbackGeneration ≠ grid.scrollbackGeneration then fun _ =>
        none else grid.scrollbackCache)) ∨
      (outcome ≠ .applied ∧ after = grid) := by
  unfold CellGrid.applyDelta at taken
  split_ifs at taken
  · obtain ⟨rfl, rfl⟩ := Prod.mk.inj (Option.some.inj taken)
    exact .inr ⟨by decide, rfl⟩
  · obtain ⟨rfl, rfl⟩ := Prod.mk.inj (Option.some.inj taken)
    exact .inr ⟨by decide, rfl⟩
  · obtain ⟨rfl, rfl⟩ := Prod.mk.inj (Option.some.inj taken)
    exact .inr ⟨by decide, rfl⟩
  · obtain ⟨rfl, rfl⟩ := Prod.mk.inj (Option.some.inj taken)
    exact .inr ⟨by decide, rfl⟩
  all_goals
    obtain ⟨visible, _, shape⟩ := Option.map_eq_some_iff.mp taken
    obtain ⟨rfl, rfl⟩ := Prod.mk.inj shape
    refine .inl ⟨rfl, rfl, ?_⟩
  · exact (if_pos ‹_›).symm
  · exact (if_neg ‹_›).symm

theorem Sound.applyDelta {delta : TerminalDelta Cell Cursor TermModes} {outcome : DeltaOutcome}
    (sound : Sound held seen) (taken : held.applyDelta delta = some (next, outcome)) :
    Sound next seen := by
  obtain ⟨⟨after, outcome'⟩, step, shape⟩ := Option.map_eq_some_iff.mp taken
  obtain ⟨rfl, rfl⟩ := Prod.mk.inj shape
  rcases applyDelta_cache step with ⟨rfl, generation, cache⟩ | ⟨refused, rfl⟩
  · by_cases changed : delta.scrollbackGeneration ≠ held.grid.scrollbackGeneration
    · rw [if_pos changed] at cache
      simp only [changed, ne_eq, not_false_eq_true, and_self, if_true]
      exact ⟨⟨.nil, Nat.zero_le _⟩, fun key => congrFun cache key, fun _ never =>
        absurd never not_mem_nil, fun _ never => absurd never not_mem_nil⟩
    · rw [if_neg changed] at cache
      have kept : after.scrollbackGeneration = held.grid.scrollbackGeneration :=
        generation.trans (not_not.mp changed)
      simp only [changed, and_false, if_false]
      refine ⟨sound.shelf, fun key => (congrFun cache key).trans (sound.same key), sound.inside, ?_⟩
      intro entry there
      rw [kept]
      exact sound.received entry there
  · simp only [refused, false_and, if_false]
    exact sound

theorem Sound.applyResync (bounded : snapshot.scrollbackLen < 2 ^ 64) :
    Sound (held.applyResync snapshot) snapshot.received := seeded_sound bounded _ rfl rfl

theorem Sound.align (sound : Sound held seen)
    (bounded : ∀ snapshot, block.snapshot = some snapshot → snapshot.scrollbackLen < 2 ^ 64) :
    Sound (held.align block) (fun entry => entry ∈ seen ∨ entry ∈ block.received) := by
  unfold CachedGrid.align
  split
  · rename_i snapshot given
    split_ifs with other
    · exact (Sound.applyResync (bounded snapshot given)).mono fun entry there =>
        .inr (.inr ⟨snapshot, given, there⟩)
    · exact sound.mono fun _ => .inl
  · exact sound.mono fun _ => .inl

theorem mem_newest {skip : Nat} {entry : Int × Row Cell} :
    entry ∈ (block.rows.zipIdx.map fun entry => (block.fromLine + entry.2, entry.1)).drop skip ↔
      ∃ i : Nat, skip ≤ i ∧ block.rows[i]? = some entry.2 ∧ entry.1 = block.fromLine + i := by
  simp only [mem_iff_getElem?, getElem?_drop, getElem?_map, getElem?_zipIdx, Option.map_map,
    Option.map_eq_some_iff, Nat.zero_add]
  constructor
  · rintro ⟨n, row, there, rfl⟩
    exact ⟨skip + n, Nat.le_add_right _ _, there, rfl⟩
  · rintro ⟨i, later, there, index⟩
    refine ⟨i - skip, entry.2, ?_, ?_⟩
    · rw [Nat.add_sub_cancel' later]
      exact there
    · simp only [Function.comp_apply, Nat.add_sub_cancel' later, ← index]

theorem mem_page {entry : Int × Row Cell} (there : entry ∈ block.page) :
    entry.1 ≤ i64Max ∧ ∃ i : Nat, block.rows.length - maxScrollbackCacheRows ≤ i ∧ block.rows[i]? =
      some entry.2 ∧ entry.1 = block.fromLine + i := by
  unfold ScrollbackRows.page at there
  have high := mem_takeWhile_imp there
  exact ⟨of_decide_eq_true high, mem_newest.mp ((takeWhile_sublist _).subset there)⟩

theorem page_of_fits (fits : ∀ i < block.rows.length, block.fromLine + i ≤ i64Max) {i : Nat}
    {row : Row Cell} (later : block.rows.length - maxScrollbackCacheRows ≤ i)
    (there : block.rows[i]? = some row) : (block.fromLine + i, row) ∈ block.page := by
  unfold ScrollbackRows.page
  rw [takeWhile_eq_self_iff.mpr]
  · exact mem_newest.mpr ⟨i, later, there, rfl⟩
  · intro entry listed
    obtain ⟨j, _, held, index⟩ := mem_newest.mp listed
    have bound := fits j (List.getElem?_eq_some_iff.mp held).1
    rw [index]
    exact decide_eq_true bound

theorem page_numbered :
    Numbered (block.fromLine + (block.rows.length - maxScrollbackCacheRows : Nat)) block.page := by
  have whole : Numbered (block.fromLine + (0 : Nat))
      (block.rows.zipIdx.map fun entry => (block.fromLine + entry.2, entry.1)) :=
      numbered_zipIdx block.rows 0
  have part := whole.drop (block.rows.length - maxScrollbackCacheRows)
  rw [Int.natCast_zero, Int.add_zero] at part
  exact part.takeWhile _

theorem Sound.withCache {cache : List (Int × Row Cell)}
    (shelf : Shelf.Sound maxScrollbackCacheRows cache) (inside : ∀ entry ∈ cache, entry.1 ≤ i64Max)
    (received : ∀ entry ∈ cache, (held.grid.scrollbackGeneration, entry) ∈ seen) :
    Sound (held.withCache cache) seen :=
  ⟨shelf, fun _ => rfl, inside, received⟩

theorem Sound.mergeRows (sound : Sound held seen)
    (received : ∀ entry ∈ block.received, entry ∈ seen)
    (current : block.generation = held.grid.scrollbackGeneration) :
    Sound (held.mergeRows block) seen := by
  unfold CachedGrid.mergeRows
  apply Sound.withCache (sound.shelf.storeAll _)
  · intro entry there
    rcases storeAll_mem sound.shelf _ there with new | old
    · exact (mem_page new).1
    · exact sound.inside entry old
  · intro entry there
    rcases storeAll_mem sound.shelf _ there with new | old
    · obtain ⟨i, _, given, index⟩ := (mem_page new).2
      exact received _ (.inl ⟨current.symm, i, given, index⟩)
    · exact sound.received entry old

theorem Sound.mergeScrollback (sound : Sound held seen)
    (bounded : ∀ snapshot, block.snapshot = some snapshot → snapshot.scrollbackLen < 2 ^ 64) :
    Sound (held.mergeScrollback block) (fun entry => entry ∈ seen ∨ entry ∈ block.received) := by
  unfold CachedGrid.mergeScrollback
  split_ifs with refused stale
  · exact sound.mono fun _ => .inl
  · exact sound.align bounded
  · exact (sound.align bounded).mergeRows (fun _ => .inr) (not_not.mp stale)

theorem Reached.sound (reached : Reached held seen) : Sound held seen := by
  induction reached with
  | fromSnapshot bounded => exact seeded_sound bounded _ rfl rfl
  | applyDelta _ taken sound => exact sound.applyDelta taken
  | applyResync bounded _ sound => exact (Sound.applyResync bounded).mono fun _ => .inr
  | mergeScrollback bounded _ sound => exact sound.mergeScrollback bounded

theorem mergeScrollback_of_accepts (accepts : Accepts held block) :
    held.mergeScrollback block = (held.align block).mergeRows block := by
  unfold CachedGrid.mergeScrollback
  rw [if_neg (Bool.eq_false_iff.mp accepts.fresh), if_neg (not_not.mpr accepts.current)]

/-- Rows are merged whole exactly when the block's indices fit and the cache is never crowded. -/
theorem mergeRows_retains_iff (sound : Sound held seen) :
    Retains (held.mergeRows block) block ↔ (∀ i < block.rows.length, block.fromLine + i ≤ i64Max) ∧
      Roomy maxScrollbackCacheRows (block.fromLine + (block.rows.length - maxScrollbackCacheRows :
      Nat)) block.page
        held.cache := by
  have positive : 0 < maxScrollbackCacheRows := by
    unfold maxScrollbackCacheRows
    decide
  have kept := kept_iff positive sound.shelf Paged.nil (Int.le_refl _) (fun _ never =>
    absurd never not_mem_nil) (@page_numbered _ _ _ block)
  rw [nil_append] at kept
  have merged : Shelf.Sound maxScrollbackCacheRows (storeAll maxScrollbackCacheRows block.page
      held.cache) :=
    sound.shelf.storeAll _
  have cached (key : Int) (row : Row Cell) : (held.mergeRows block).grid.scrollbackCache key =
      some row ↔ (key, row) ∈ storeAll maxScrollbackCacheRows block.page held.cache :=
      lookup_iff merged.ordered
  rw [← kept]
  unfold Retains
  simp only [cached]
  constructor
  · intro retains
    constructor
    · intro i within
      have last : block.rows[block.rows.length - 1]? = some block.rows[block.rows.length - 1] :=
        getElem?_eq_getElem (by omega)
      rcases storeAll_mem sound.shelf _ (retains (block.rows.length - 1) _ (by omega)
        last) with new | old
      · have bound := (mem_page new).1
        simp only at bound
        omega
      · have bound := sound.inside _ old
        simp only at bound
        omega
    · intro entry there
      obtain ⟨i, later, given, index⟩ := (mem_page there).2
      have stays := retains i entry.2 (by omega) given
      rw [← index] at stays
      exact stays
  · rintro ⟨fits, all⟩ i row later given
    exact all _ (page_of_fits fits (by omega) given)

theorem retains_iff (sound : Sound held seen)
    (bounded : ∀ snapshot, block.snapshot = some snapshot → snapshot.scrollbackLen < 2 ^ 64)
    (accepts : Accepts held block) : Retains (held.mergeScrollback block) block ↔
    Takes held block := by
  rw [mergeScrollback_of_accepts accepts]
  exact mergeRows_retains_iff (sound.align bounded)

/-- A block whose rows reach no further than half the bound is taken in whole, whatever is cached;
so is a longer one where each of its rows has fewer cached rows just above it than are left to it. -/
theorem takes_of_near (sound : Sound held seen)
    (bounded : ∀ snapshot, block.snapshot = some snapshot → snapshot.scrollbackLen < 2 ^ 64)
    (inside : ∀ i < block.rows.length, block.fromLine + i ≤ i64Max)
    (near : (∀ entry ∈ block.page, 2 * (entry.1 - (block.fromLine + (block.rows.length -
        maxScrollbackCacheRows : Nat))) ≤ maxScrollbackCacheRows) ∨
      ∀ entry ∈ block.page, (justAbove (block.fromLine + (block.rows.length -
        maxScrollbackCacheRows : Nat)) entry.1 (held.align block).cache).length +
          (entry.1 - (block.fromLine + (block.rows.length - maxScrollbackCacheRows : Nat))).toNat <
            maxScrollbackCacheRows) : Takes held block := by
  have shelf := (sound.align bounded).shelf
  rcases near with short | room
  · exact ⟨inside, roomy_of_short shelf page_numbered (Int.le_refl _)
      (by unfold maxScrollbackCacheRows; decide) short⟩
  · exact ⟨inside, roomy_of_near shelf page_numbered (Int.le_refl _) room⟩

/-- Rows of nothing. -/
def blanks (count : Nat) : List (Row Char) := List.replicate count ⟨[], false⟩

/-- The newest rows of a history. -/
def newest (count rest : Nat) : TerminalSnapshot Char Unit Unit :=
  ⟨0, ⟨0, 0⟩, [], blanks count, rest + count, 0, (), (), none⟩

/-- The oldest rows of a history. -/
def oldest (count : Nat) : ScrollbackRows Char Unit Unit := ⟨0, none, 0, blanks count⟩

theorem newest_cache {count rest : Nat} (short : count ≤ maxScrollbackCacheRows)
    (fits : rest + count ≤ i64Max) : Numbered (rest : Int) (seeded (newest count rest)) ∧
    (seeded (newest count rest)).length = count := by
  have size : (blanks count).length = count := length_replicate
  have seeds : CellGrid.seeds (newest count rest) =
      (blanks count).zipIdx.map fun entry => ((rest : Int) + entry.2, entry.1) := by
    unfold CellGrid.seeds CellGrid.asI64 newest
    simp only [size, fits, if_true, Nat.sub_eq_zero_of_le short, drop_zero, Int.natCast_add,
      Int.add_sub_cancel]
  have numbered : Numbered (rest : Int) (CellGrid.seeds (newest count rest)) := by
    have all : Numbered ((rest : Int) + (0 : Nat)) ((blanks count).zipIdx.map fun entry =>
      ((rest : Int) + entry.2, entry.1)) := numbered_zipIdx _ 0
    rw [seeds]
    simpa using all
  have same : seeded (newest count rest) = CellGrid.seeds (newest count rest) :=
    foldl_put_nil numbered.ordered
  have length : (CellGrid.seeds (newest count rest)).length = count := by
    rw [seeds, length_map, length_zipIdx, size]
  rw [same]
  exact ⟨numbered, length⟩

theorem newest_accepts (above below : Nat) : Accepts (.fromSnapshot (newest above below))
    (oldest below) :=
  ⟨rfl, rfl⟩

/-- The cache stays in its bound and holds what was received for each index under the current
generation; a block that is taken in is then cached as far as it is new exactly when none of its
rows meets a full cache with its further end in the block. -/
theorem scrollback_cache (reached : Reached held seen) :
    held.cache.length ≤ maxScrollbackCacheRows ∧
      (∀ index, held.grid.scrollbackCache index = lookup held.cache index) ∧
      (∀ index row, held.grid.scrollbackCache index = some row →
        (held.grid.scrollbackGeneration, index, row) ∈ seen) ∧
      ∀ block : ScrollbackRows Cell Cursor TermModes,
        (∀ snapshot, block.snapshot = some snapshot → snapshot.scrollbackLen < 2 ^ 64) →
        Accepts held block → (Retains (held.mergeScrollback block) block ↔ Takes held block) := by
  have sound := reached.sound
  refine ⟨sound.shelf.fits, sound.same, ?_, fun block bounded accepts =>
    retains_iff sound bounded accepts⟩
  intro index row found
  rw [sound.same] at found
  exact sound.received _ ((lookup_iff sound.shelf.ordered).mp found)

/-- The rest of a short history is cached beside its end. -/
theorem scrollback_cache_newest :
    (CachedGrid.fromSnapshot (newest 2 3)).cache.length ≤ maxScrollbackCacheRows ∧
    Retains ((CachedGrid.fromSnapshot (newest 2 3)).mergeScrollback (oldest 3)) (oldest 3) := by
  have reached : Reached (.fromSnapshot (newest 2 3)) (newest 2 3).received :=
    .fromSnapshot (by decide)
  obtain ⟨fits, _, _, merges⟩ := scrollback_cache reached
  refine ⟨fits, (merges (oldest 3) (fun _ never => by cases never) (newest_accepts 2 3)).mpr
    (takes_of_near reached.sound (fun _ never => by cases never) ?_ (.inl ?_))⟩
  · intro i within
    have short : i < 3 := within
    have bound : (3 : Nat) ≤ i64Max := by
      unfold i64Max
      decide
    simp only [oldest]
    omega
  · decide +kernel

section Beneath

theorem oldest_page {count : Nat} (short : count + 1 ≤ maxScrollbackCacheRows)
    (fits : maxScrollbackCacheRows ≤ i64Max) :
    (oldest (count + 1)).page = ((blanks count).zipIdx.map fun entry => ((entry.2 : Int),
      entry.1)) ++
      [((count : Int), ⟨[], false⟩)] := by
  have size : (blanks (count + 1)).length = count + 1 := length_replicate
  have shape : blanks (count + 1) = blanks count ++ [⟨[], false⟩] := replicate_succ'
  unfold ScrollbackRows.page
  rw [takeWhile_eq_self_iff.mpr]
  · simp only [oldest, size, Nat.sub_eq_zero_of_le short, drop_zero, Int.zero_add]
    rw [shape, zipIdx_append, map_append]
    simp [blanks]
  · intro entry listed
    obtain ⟨i, _, held, index⟩ := mem_newest.mp listed
    have within : i < count + 1 := by
      rw [← size]
      exact (List.getElem?_eq_some_iff.mp held).1
    apply decide_eq_true
    rw [index]
    simp only [oldest]
    omega

/-- A page right beneath a cache that it fills with all but its last row is not cached whole where
it is the longer of the two. -/
theorem not_takes_beneath {above below : Nat} (size : below + above = maxScrollbackCacheRows)
    (some_ : 0 < above) (longer : above < below) (fits : maxScrollbackCacheRows < i64Max) :
    ¬Takes (.fromSnapshot (newest above (below + 1))) (oldest (below + 1)) := by
  rintro ⟨_, roomy⟩
  obtain ⟨numbered, count⟩ := @newest_cache above (below + 1) (by omega) (by omega)
  have whole : Numbered (0 : Int) ((blanks below).zipIdx.map fun entry =>
      ((entry.2 : Int), entry.1)) := by
    have all : Numbered ((0 : Int) + (0 : Nat)) ((blanks below).zipIdx.map fun entry =>
      ((0 : Int) + entry.2, entry.1)) := numbered_zipIdx _ 0
    simpa using all
  have length : ((blanks below).zipIdx.map fun entry => ((entry.2 : Int), entry.1)).length =
      below := by
    rw [length_map, length_zipIdx]
    exact length_replicate
  have tight := @not_roomy_beneath _ maxScrollbackCacheRows 0 (seeded (newest above (below + 1))) _
    whole (by rw [length, Int.zero_add]; exact numbered) (ne_nil_of_length_pos (by omega))
    (by omega) (by omega)
    ⟨[], false⟩
  apply tight
  rw [length, Int.zero_add, ← oldest_page (by omega) (Nat.le_of_lt fits)]
  have start : (oldest (below + 1)).fromLine +
      ((oldest (below + 1)).rows.length - maxScrollbackCacheRows : Nat) = 0 := by
    have rows : (oldest (below + 1)).rows.length = below + 1 := length_replicate
    have from_ : (oldest (below + 1)).fromLine = 0 := rfl
    omega
  rw [start] at roomy
  exact roomy

theorem not_retains_beneath {above below : Nat} (size : below + above = maxScrollbackCacheRows)
    (some_ : 0 < above) (longer : above < below) (fits : maxScrollbackCacheRows < i64Max) :
    Reached (.fromSnapshot (newest above (below + 1))) (newest above (below + 1)).received ∧
      ¬Retains ((CachedGrid.fromSnapshot (newest above (below + 1))).mergeScrollback
      (oldest (below + 1)))
        (oldest (below + 1)) := by
  have bounded : (newest above (below + 1)).scrollbackLen < 2 ^ 64 := by
    have small : maxScrollbackCacheRows + 1 < 2 ^ 64 := by
      unfold maxScrollbackCacheRows
      decide
    have same : (newest above (below + 1)).scrollbackLen = below + 1 + above := rfl
    omega
  refine ⟨.fromSnapshot bounded, ?_⟩
  rw [retains_iff (Reached.fromSnapshot bounded).sound (fun _ never => by cases never)
    (newest_accepts _ _)]
  exact not_takes_beneath size some_ longer fits

/-- The first row of a page of 2502 rows, fetched beneath 2499 cached ones, is evicted for the
last. -/
theorem not_retains : ∃ (held : CachedGrid Char Unit Unit) (seen : Set (Nat × Int × Row Char))
    (block : ScrollbackRows Char Unit Unit), Reached held seen ∧ Accepts held block ∧
      ¬Retains (held.mergeScrollback block) block := by
  have size : 2501 + 2499 = maxScrollbackCacheRows := by
    unfold maxScrollbackCacheRows
    rfl
  have fits : maxScrollbackCacheRows < i64Max := by
    unfold maxScrollbackCacheRows i64Max
    decide
  obtain ⟨reached, lost⟩ := not_retains_beneath size (by decide) (by decide) fits
  exact ⟨_, _, _, reached, newest_accepts 2499 (2501 + 1), lost⟩

end Beneath

end CachedGrid

end ForgeNode.Terminal
