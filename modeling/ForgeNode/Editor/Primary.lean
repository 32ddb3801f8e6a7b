import ForgeNode.Editor.Carets
import Mathlib.Data.List.Dedup

/-! When the primary caret stays the one it was while carets are merged and capped. -/

namespace ForgeNode.Editor.Selection

open List

/-- No caret selects the byte at the offset. -/
def Bare (cursors : List Cursor) (offset : Nat) : Prop :=
  ∀ cursor ∈ cursors, cursor.range.contains offset = false

instance (cursors : List Cursor) (offset : Nat) : Decidable (Bare cursors offset) :=
  inferInstanceAs (Decidable (∀ cursor ∈ cursors, _))

/-- Where the runs of touching carets end. -/
def runEnds (cursors : List Cursor) : List Nat :=
  ((cursors.map (·.range.stop)).filter (Bare cursors ·)).dedup

/-- The last caret, in the order of the sort, that starts no later than the offset. -/
def lastUpTo (cursors : List Cursor) (offset : Nat) : Option Cursor :=
  ((cursors.insertionSort Cursor.before).filter (·.range.start ≤ offset)).getLast?

/-- The head is where a run ends that a backward caret turned round, and another run lies before
it. -/
structure Turned (cursors : List Cursor) (keep : Cursor) : Prop where
  ends : Bare cursors keep.head
  backward : ∃ cursor, lastUpTo cursors keep.head = some cursor ∧ cursor.head < cursor.anchor
  behind : ∃ stop ∈ runEnds cursors, stop < keep.range.start

/-- Over the cap, with the caret inside the last run: none starts where it does or later. -/
structure Dropped (cursors : List Cursor) (keep : Cursor) : Prop where
  many : maxCursors < (runEnds cursors).length
  swallowed : ∀ cursor ∈ cursors, keep.range.start ≤ cursor.range.start →
    ∃ other ∈ cursors, other.range.start < cursor.range.start ∧ cursor.range.start ≤ other.range.stop

theorem bare_iff {cursors : List Cursor} {offset : Nat} : Bare cursors offset ↔
    ¬∃ cursor ∈ cursors, cursor.range.start ≤ offset ∧ offset < cursor.range.stop := by
  simp only [Bare, Range.contains, Bool.and_eq_false_iff, decide_eq_false_iff_not, not_exists,
    not_and]
  exact forall₂_congr fun cursor _ => ⟨fun out above => out.resolve_left (not_not_intro above),
    fun out =>
    (Decidable.em (cursor.range.start ≤ offset)).elim (.inr ∘ out) .inl⟩

section Runs

variable {cursors : List Cursor} {wide : Cursor}

theorem merged_unique {other : Cursor} (member : wide ∈ merged cursors)
    (there : other ∈ merged cursors) (meets : wide.range.start ≤ other.range.stop)
    (meets' : other.range.start ≤ wide.range.stop) : wide = other := by
  obtain ⟨left, rfl⟩ := get_of_mem member
  obtain ⟨right, rfl⟩ := get_of_mem there
  have apart := pairwise_iff_get.mp (merged_apart cursors)
  rcases lt_trichotomy left right with before | same | after
  · exact absurd meets' (Nat.not_le.mpr (apart left right before))
  · rw [same]
  · exact absurd meets (Nat.not_le.mpr (apart right left after))

theorem bare_stop (member : wide ∈ merged cursors) : Bare cursors wide.range.stop := by
  rw [bare_iff]
  rintro ⟨cursor, there, start, stop⟩
  obtain ⟨other, run, start', stop'⟩ := merged_covers there
  have same := merged_unique member run (by have := wide.range.ordered; omega) (by omega)
  rw [← same] at stop'
  omega

theorem mem_runEnds {stop : Nat} :
    stop ∈ runEnds cursors ↔ ∃ wide ∈ merged cursors, wide.range.stop = stop := by
  simp only [runEnds, mem_dedup, mem_filter, List.mem_map, decide_eq_true_eq]
  constructor
  · rintro ⟨⟨cursor, there, rfl⟩, bare⟩
    obtain ⟨wide, member, start, stop⟩ := merged_covers there
    refine ⟨wide, member, Nat.le_antisymm ?_ stop⟩
    apply Nat.le_of_not_lt
    intro inside
    have order := cursor.range.ordered
    exact bare_iff.mp bare (merged_covered member (by omega) inside)
  · rintro ⟨wide, member, rfl⟩
    exact ⟨(merged_ends member).2, bare_stop member⟩

theorem runEnds_length (cursors : List Cursor) :
    (runEnds cursors).length = (merged cursors).length := by
  have once : ((merged cursors).map (·.range.stop)).Nodup := by
    apply (pairwise_map.mpr ?_).imp (Nat.ne_of_lt)
    exact (merged_apart cursors).imp fun {_ second} apart =>
      Nat.lt_of_lt_of_le apart second.range.ordered
  have same := (perm_ext_iff_of_nodup (nodup_dedup _) once).mpr fun stop =>
    mem_runEnds.trans List.mem_map.symm
  exact same.length_eq.trans (length_map _)

theorem swallowed_iff {keep : Cursor} : (∀ cursor ∈ cursors, keep.range.start ≤ cursor.range.start →
      ∃ other ∈ cursors, other.range.start < cursor.range.start ∧ cursor.range.start ≤
        other.range.stop) ↔
    ∀ run ∈ merged cursors, run.range.start < keep.range.start := by
  constructor
  · intro swallowed run there
    apply Nat.lt_of_not_le
    intro late
    obtain ⟨⟨cursor, caret, same⟩, _⟩ := merged_ends there
    obtain ⟨other, first, before, touches⟩ := swallowed cursor caret (same ▸ late)
    obtain ⟨run', there', start', stop'⟩ := merged_covers first
    have order := run.range.ordered
    have one := merged_unique there there' (by omega) (by omega)
    rw [← one] at start'
    omega
  · intro early cursor caret late
    obtain ⟨run, there, start', stop'⟩ := merged_covers caret
    have before := early run there
    have order := cursor.range.ordered
    have above : run.range.start ≤ cursor.range.start - 1 := by omega
    have below : cursor.range.start - 1 < run.range.stop := by omega
    obtain ⟨other, first, above, below⟩ := merged_covered there above below
    exact ⟨other, first, by omega, by omega⟩

variable {keep : Cursor} (member : wide ∈ merged cursors)
  (start : wide.range.start ≤ keep.range.start)
  (stop : keep.range.stop ≤ wide.range.stop)

include member start stop

theorem bare_head_iff : Bare cursors keep.head ↔ keep.head = wide.range.stop := by
  have head := keep.head_mem
  constructor
  · intro bare
    apply Nat.le_antisymm (Nat.le_trans head.2 stop)
    apply Nat.le_of_not_lt
    intro inside
    exact bare_iff.mp bare (merged_covered member (Nat.le_trans start head.1) inside)
  · intro ends
    exact ends ▸ bare_stop member

theorem behind_iff : (∃ final ∈ runEnds cursors, final < keep.range.start) ↔
    ∃ other ∈ merged cursors, other.apart wide := by
  have order := keep.range.ordered
  constructor
  · rintro ⟨_, run, before⟩
    obtain ⟨other, there, rfl⟩ := mem_runEnds.mp run
    refine ⟨other, there, ?_⟩
    apply Nat.lt_of_not_le
    intro meets
    have wideOrder := other.range.ordered
    rw [merged_unique member there meets (by omega)] at stop
    omega
  · rintro ⟨other, there, apart⟩
    exact ⟨_, mem_runEnds.mpr ⟨other, there, rfl⟩, Nat.lt_of_lt_of_le apart start⟩

omit start stop in
theorem turned_iff (ends : keep.head = wide.range.stop) :
    (∃ cursor, lastUpTo cursors keep.head = some cursor ∧ cursor.head < cursor.anchor) ↔
      wide.head ≠ wide.range.stop := by
  obtain ⟨front, cursor, back, sorted, lower, upper, first, final, head⟩ := merged_direction member
  have found : lastUpTo cursors keep.head = some cursor := by
    have kept : (front ++ [cursor]).filter (·.range.start ≤ keep.head) = front ++ [cursor] :=
      filter_eq_self.mpr fun other there => decide_eq_true (ends ▸ lower other there)
    have gone : back.filter (·.range.start ≤ keep.head) = [] :=
      filter_eq_nil_iff.mpr fun other there => by
        rw [decide_eq_true_eq, ends]
        exact Nat.not_le.mpr (upper other there)
    have split : front ++ cursor :: back = (front ++ [cursor]) ++ back := by simp
    rw [lastUpTo, sorted, split, filter_append, kept, gone, append_nil]
    exact getLast?_concat
  rw [head]
  constructor
  · rintro ⟨_, same, backward⟩
    obtain rfl := Option.some.inj (found.symm.trans same)
    rw [if_neg (Nat.not_le.mpr backward)]
    have start := cursor.range_start
    have stop := cursor.range_stop
    omega
  · intro turned
    refine ⟨cursor, found, ?_⟩
    apply Nat.lt_of_not_le
    intro forward
    exact turned (if_pos forward)

end Runs

section Window

variable {wides : List Cursor} {wide keep : Cursor} {place : Nat}

private theorem in_order (apart : wides.Pairwise Cursor.apart) {left right : Nat}
    {first second : Cursor} (here : wides[left]? = some first) (there : wides[right]? = some second)
    (before : left < right) : first.range.stop < second.range.start := by
  obtain ⟨inside, rfl⟩ := List.getElem?_eq_some_iff.mp here
  obtain ⟨inside', rfl⟩ := List.getElem?_eq_some_iff.mp there
  exact pairwise_iff_getElem.mp apart left right inside inside' before

/-- The window drops the run only where no run starts at the caret or later. -/
theorem capCursors_window (apart : wides.Pairwise Cursor.apart) (here : wides[place]? = some wide)
    (start : wide.range.start ≤ keep.range.start) (stop : keep.range.stop ≤ wide.range.stop) :
    if maxCursors < wides.length ∧ ∀ run ∈ wides, run.range.start < keep.range.start then
      wide ∉ capCursors keep wides
    else ∃ shown, (capCursors keep wides)[shown]? = some wide ∧ (shown = 0 ↔ place = 0) := by
  have bound := (List.getElem?_eq_some_iff.mp here).1
  have order := keep.range.ordered
  have after (later : Nat) (run : Cursor) (there : wides[later]? = some run) (past : place < later) :
      keep.range.start ≤ run.range.start := by
    have := in_order apart here there past
    omega
  unfold capCursors
  by_cases long : wides.length > maxCursors
  · rw [if_pos long]
    cases found : wides.findIdx? fun cursor => cursor.range.start ≥ keep.range.start with
    | none =>
      have early (run : Cursor) (member : run ∈ wides) : run.range.start < keep.range.start :=
        Nat.lt_of_not_le (of_decide_eq_false (findIdx?_eq_none_iff.mp found run member))
      rw [if_pos ⟨long, early⟩]
      intro member
      obtain ⟨shown, inside⟩ := getElem?_of_mem member
      simp only [Option.getD_none, Nat.zero_sub, Nat.zero_min, drop_zero, getElem?_take] at inside
      split at inside
      · rename_i small
        -- the run is the last one, and the window ends before it
        have last : wides.length ≤ place + 1 := by
          apply Nat.le_of_not_lt
          intro more
          have there := getElem?_eq_getElem more
          have late := after _ _ there (Nat.lt_succ_self _)
          exact absurd (early _ (mem_of_getElem? there)) (Nat.not_lt.mpr late)
        have self := in_order apart inside here (by omega)
        have whole := wide.range.ordered
        omega
      · cases inside
    | some position =>
      obtain ⟨inside, late, first⟩ := findIdx?_eq_some_iff_getElem.mp found
      have there := getElem?_eq_getElem inside
      rw [decide_eq_true_eq] at late
      have some : ¬(maxCursors < wides.length ∧ ∀ run ∈ wides, run.range.start <
          keep.range.start) := fun all =>
        absurd (all.2 _ (mem_of_getElem? there)) (Nat.not_lt.mpr late)
      have low : place ≤ position := by
        apply Nat.le_of_not_lt
        intro before
        have gap := in_order apart there here before
        have whole := wides[position].range.ordered
        omega
      have high : position ≤ place + 1 := by
        apply Nat.le_of_not_lt
        intro past
        have next : place + 1 < wides.length := Nat.lt_trans past inside
        refine first (place + 1) past (decide_eq_true ?_)
        exact after _ _ (getElem?_eq_getElem next) (Nat.lt_succ_self _)
      rw [if_neg some]
      simp only [Option.getD_some, maxCursors] at long ⊢
      refine ⟨place - min (position - 64 / 2) (wides.length - 64), ?_, by omega⟩
      rw [getElem?_take, if_pos (by omega), getElem?_drop, ← here]
      congr 1
      omega
  · rw [if_neg long, if_neg (fun all => long all.1)]
    exact ⟨place, here, Iff.rfl⟩

theorem place_unique (apart : wides.Pairwise Cursor.apart) (here : wides[place]? = some wide)
    {other : Nat} (there : wides[other]? = some wide) : other = place := by
  have whole := wide.range.ordered
  rcases Nat.lt_trichotomy other place with before | same | past
  · have := in_order apart there here before
    omega
  · exact same
  · have := in_order apart here there past
    omega

theorem place_first_iff (apart : wides.Pairwise Cursor.apart) (here : wides[place]? = some wide) :
    place = 0 ↔ ¬∃ other ∈ wides, other.apart wide := by
  constructor
  · rintro rfl ⟨other, member, before⟩
    obtain ⟨spot, there⟩ := getElem?_of_mem member
    have whole := wide.range.ordered
    have order := other.range.ordered
    unfold Cursor.apart at before
    rcases Nat.eq_zero_or_pos spot with rfl | past
    · obtain rfl := Option.some.inj (here.symm.trans there)
      omega
    · have := in_order apart here there past
      omega
  · intro first
    apply Nat.eq_zero_of_not_pos
    intro past
    have bound := (List.getElem?_eq_some_iff.mp here).1
    have lowest := getElem?_eq_getElem (Nat.lt_trans past bound)
    exact first ⟨_, mem_of_getElem? lowest, in_order apart lowest here past⟩

end Window

section Follow

variable {cursors : List Cursor} {wide keep : Cursor}

theorem answers_iff (member : wide ∈ merged cursors) (start : wide.range.start ≤ keep.range.start)
    (stop : keep.range.stop ≤ wide.range.stop) {run : Cursor} (there : run ∈ merged cursors) :
    (run.range.contains keep.head || run.head == keep.head) = true ↔
      run = wide ∧ ¬(keep.head = wide.range.stop ∧ wide.head ≠ wide.range.stop) := by
  have head := keep.head_mem
  have own := run.head_mem
  simp only [Range.contains, Bool.or_eq_true, Bool.and_eq_true, decide_eq_true_eq, beq_iff_eq]
  constructor
  · intro answers
    have same : run = wide := merged_unique there member (by omega) (by omega)
    subst same
    exact ⟨rfl, by omega⟩
  · rintro ⟨rfl, still⟩
    omega

end Follow

/-- The primary caret covers the one it was exactly where neither mishap occurs. -/
theorem many_primary_iff (cursors : List Cursor) (index : Fin cursors.length) :
    ((many cursors index).primary.range.start ≤ (cursors.get index).range.start ∧
      (cursors.get index).range.stop ≤ (many cursors index).primary.range.stop) ↔
    ¬Turned cursors (cursors.get index) ∧ ¬Dropped cursors (cursors.get index) := by
  have given := get_mem cursors index
  obtain ⟨keep, same, shape, place⟩ := many_cursors (ne_nil_of_mem given) index
  have same : cursors.get index = keep := by
    rw [← same, getElem?_eq_getElem index.isLt]
    rfl
  rw [same] at given ⊢
  obtain ⟨wide, member, start, stop⟩ := merged_covers given
  have sub := (capCursors_sublist keep (merged cursors)).subset
  have there : (many cursors index).primary ∈ merged cursors := sub (shape ▸ primary_mem _)
  -- only one run covers the caret
  have covers : ((many cursors index).primary.range.start ≤ keep.range.start ∧
      keep.range.stop ≤ (many cursors index).primary.range.stop) ↔
      (many cursors index).primary = wide := by
    have order := keep.range.ordered
    exact ⟨fun covers => merged_unique there member (by omega) (by omega), fun one =>
      one ▸ ⟨start, stop⟩⟩
  have turned : Turned cursors keep ↔ (keep.head = wide.range.stop ∧ wide.head ≠ wide.range.stop) ∧
      ∃ other ∈ merged cursors, other.apart wide := by
    rw [← behind_iff member start stop]
    constructor
    · intro turned
      have ends := (bare_head_iff member start stop).mp turned.ends
      exact ⟨⟨ends, (turned_iff member ends).mp turned.backward⟩, turned.behind⟩
    · rintro ⟨⟨ends, turns⟩, behind⟩
      exact ⟨(bare_head_iff member start stop).mpr ends, (turned_iff member ends).mpr turns, behind⟩
  have dropped : Dropped cursors keep ↔
      maxCursors < (merged cursors).length ∧ ∀ run ∈ merged cursors, run.range.start <
        keep.range.start := by
    rw [← runEnds_length, ← swallowed_iff]
    exact ⟨fun dropped => ⟨dropped.many, dropped.swallowed⟩, fun both => ⟨both.1, both.2⟩⟩
  obtain ⟨spot, here⟩ := getElem?_of_mem member
  have window := capCursors_window (merged_apart cursors) here start stop
  rw [covers]
  by_cases out : Dropped cursors keep
  · rw [if_pos (dropped.mp out)] at window
    have gone : (many cursors index).primary ≠ wide := fun one => window (shape ▸ one ▸ primary_mem _)
    exact ⟨fun one => absurd one gone, fun neither => absurd out neither.2⟩
  · rw [if_neg (mt dropped.mpr out)] at window
    obtain ⟨shown, inside, front⟩ := window
    have found := primary_getElem? (many cursors index)
    rw [shape, place] at found
    have sparse := (merged_apart cursors).sublist (capCursors_sublist keep (merged cursors))
    by_cases turns : keep.head = wide.range.stop ∧ wide.head ≠ wide.range.stop
    · -- no run answers, and the first one is taken
      have none_ : (capCursors keep (merged cursors)).findIdx? (fun cursor =>
          cursor.range.contains keep.head || cursor.head == keep.head) = none :=
        findIdx?_eq_none_iff.mpr fun run run_ =>
          Bool.eq_false_iff.mpr fun answers =>
          ((answers_iff member start stop (sub run_)).mp answers).2 turns
      rw [none_, Option.getD_none] at found
      have first : (many cursors index).primary = wide ↔ shown = 0 := by
        constructor
        · intro one
          exact (place_unique sparse inside (one ▸ found)).symm
        · rintro rfl
          exact Option.some.inj (found.symm.trans inside)
      rw [first, front, place_first_iff (merged_apart cursors) here, turned]
      exact ⟨fun lone => ⟨fun both => lone both.2, out⟩, fun neither behind =>
        neither.1 ⟨turns, behind⟩⟩
    · have some_ : (capCursors keep (merged cursors)).findIdx? (fun cursor =>
          cursor.range.contains keep.head || cursor.head == keep.head) = some shown := by
        obtain ⟨bound, is⟩ := List.getElem?_eq_some_iff.mp inside
        refine findIdx?_eq_some_iff_getElem.mpr ⟨bound, ?_, fun earlier before answers => ?_⟩
        · rw [is]
          exact (answers_iff member start stop member).mpr ⟨rfl, turns⟩
        · have there := getElem?_eq_getElem (Nat.lt_trans before bound)
          have one := ((answers_iff member start stop (sub (mem_of_getElem? there))).mp answers).1
          rw [one] at there
          exact absurd (place_unique sparse inside there) (Nat.ne_of_lt before)
      rw [some_, Option.getD_some] at found
      have kept := Option.some.inj (found.symm.trans inside)
      exact ⟨fun _ => ⟨fun both => turns (turned.mp both).1, out⟩, fun _ => kept⟩

/-- A caret to the left, and a backward caret that swallows the tip of the primary one. -/
theorem many_loses_primary : ¬∀ (cursors : List Cursor) (index : Fin cursors.length),
    (many cursors index).primary.range.start ≤ (cursors.get index).range.start ∧
      (cursors.get index).range.stop ≤ (many cursors index).primary.range.stop := fun follows =>
  absurd (follows [.caret 0, .new 3 8, .new 5 4] ⟨1, by decide⟩) (by decide)

end ForgeNode.Editor.Selection
