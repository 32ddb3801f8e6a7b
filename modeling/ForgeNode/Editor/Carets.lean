import ForgeNode.Editor.Document

/-! What merging carets keeps: the places they cover, apart from one another. -/

namespace ForgeNode.Editor

open List

variable {cursor : Cursor} {wide : Cursor}

/-- A gap of at least one byte between two carets. -/
def Cursor.apart (first second : Cursor) : Prop := first.range.stop < second.range.start

instance : DecidableRel Cursor.apart := fun _ _ => inferInstanceAs (Decidable (_ < _))

instance : IsTrans Cursor Cursor.before := ⟨fun first second third left right => by
  unfold Cursor.before at *
  omega⟩

instance : Std.Total Cursor.before := ⟨fun first second => by
  unfold Cursor.before
  omega⟩

theorem Range.new_start (first last : Nat) : (Range.new first last).start = min first last := by
  unfold Range.new
  split
  · exact (Nat.min_eq_left ‹_›).symm
  · exact (Nat.min_eq_right (Nat.le_of_not_le ‹_›)).symm

theorem Range.new_stop (first last : Nat) : (Range.new first last).stop = max first last := by
  unfold Range.new
  split
  · exact (Nat.max_eq_right ‹_›).symm
  · exact (Nat.max_eq_left (Nat.le_of_not_le ‹_›)).symm

theorem Range.new_comm (first last : Nat) : Range.new first last = Range.new last first := by
  ext
  · rw [new_start, new_start, Nat.min_comm]
  · rw [new_stop, new_stop, Nat.max_comm]

namespace Cursor

theorem range_start (cursor : Cursor) : cursor.range.start = min cursor.anchor cursor.head :=
  Range.new_start _ _

theorem range_stop (cursor : Cursor) : cursor.range.stop = max cursor.anchor cursor.head :=
  Range.new_stop _ _

theorem head_mem (cursor : Cursor) :
    cursor.range.start ≤ cursor.head ∧ cursor.head ≤ cursor.range.stop := by
  rw [range_start, range_stop]
  omega

theorem joined_range (last cursor : Cursor) : (last.joined cursor).range =
    .new (min last.range.start cursor.range.start) (max last.range.stop cursor.range.stop) := by
  unfold joined
  simp only
  split
  · exact Range.new_of_le (Range.new _ _).ordered
  · refine Eq.trans ?_ (Range.new_of_le (Range.new _ _).ordered)
    exact Range.new_comm _ _

theorem joined_start (last cursor : Cursor) :
    (last.joined cursor).range.start = min last.range.start cursor.range.start := by
  have order := last.range.ordered
  rw [joined_range, Range.new_start]
  exact Nat.min_eq_left (Nat.le_trans (Nat.min_le_left _ _)
    (Nat.le_trans order (Nat.le_max_left _ _)))

theorem joined_stop (last cursor : Cursor) :
    (last.joined cursor).range.stop = max last.range.stop cursor.range.stop := by
  have order := last.range.ordered
  rw [joined_range, Range.new_stop]
  exact Nat.max_eq_right (Nat.le_trans (Nat.min_le_left _ _)
    (Nat.le_trans order (Nat.le_max_left _ _)))

theorem joined_head (last cursor : Cursor) : (last.joined cursor).head =
    if cursor.anchor ≤ cursor.head then (last.joined cursor).range.stop else (last.joined
      cursor).range.start := by
  rw [joined_range]
  unfold joined
  simp only
  split
  · rfl
  · rfl

theorem head_eq (cursor : Cursor) : cursor.head =
    if cursor.anchor ≤ cursor.head then cursor.range.stop else cursor.range.start := by
  rw [range_start, range_stop]
  split <;> omega

theorem joined_forward (last cursor : Cursor) :
    (last.joined cursor).anchor ≤ (last.joined cursor).head ↔ cursor.anchor ≤ cursor.head := by
  have wide : cursor.range.stop ≤ (last.joined cursor).range.stop := by
    rw [joined_stop]
    exact Nat.le_max_right _ _
  have early : (last.joined cursor).range.start ≤ cursor.range.start := by
    rw [joined_start]
    exact Nat.min_le_right _ _
  have head := joined_head last cursor
  have low := range_start (last.joined cursor)
  have high := range_stop (last.joined cursor)
  have low' := range_start cursor
  have high' := range_stop cursor
  by_cases forward : cursor.anchor ≤ cursor.head
  · rw [if_pos forward] at head
    omega
  · rw [if_neg forward] at head
    omega

end Cursor

section Merge

variable {last : Cursor} {rest : List Cursor}

/-- Carets in the order that the merge loop takes them. -/
def Ascending (cursors : List Cursor) : Prop :=
  cursors.Pairwise fun first second => first.range.start ≤ second.range.start

theorem ascending_insertionSort (cursors : List Cursor) :
    Ascending (cursors.insertionSort Cursor.before) :=
  (pairwise_insertionSort Cursor.before cursors).imp fun before => by
    unfold Cursor.before at before
    omega

theorem Ascending.joined (ascending : Ascending (last :: cursor :: rest)) :
    Ascending (last.joined cursor :: rest) ∧ (last.joined cursor).range.start =
      last.range.start := by
  obtain ⟨first, others⟩ := pairwise_cons.mp ascending
  have order := first cursor mem_cons_self
  have start : (last.joined cursor).range.start = last.range.start := by
    rw [Cursor.joined_start, Nat.min_eq_left order]
  refine ⟨pairwise_cons.mpr ⟨fun other member => ?_, others.of_cons⟩, start⟩
  rw [start]
  exact first other (mem_cons_of_mem _ member)

theorem mergeTouching_start (ascending : Ascending (last :: rest)) {merged : Cursor}
    (member : merged ∈ mergeTouching last rest) : last.range.start ≤ merged.range.start := by
  induction rest generalizing last with
  | nil =>
    rw [mem_singleton.mp member]
  | cons cursor rest ih =>
    unfold mergeTouching at member
    split at member
    · obtain ⟨later, start⟩ := ascending.joined
      exact start ▸ ih later member
    · obtain ⟨first, others⟩ := pairwise_cons.mp ascending
      rcases mem_cons.mp member with rfl | inner
      · exact Nat.le_refl _
      · exact Nat.le_trans (first cursor mem_cons_self) (ih others inner)

theorem mergeTouching_apart (ascending : Ascending (last :: rest)) :
    (mergeTouching last rest).Pairwise Cursor.apart := by
  induction rest generalizing last with
  | nil => exact pairwise_singleton _ _
  | cons cursor rest ih =>
    unfold mergeTouching
    split
    · exact ih ascending.joined.1
    · rename_i apart
      have others := (pairwise_cons.mp ascending).2
      refine pairwise_cons.mpr ⟨fun merged member => ?_, ih others⟩
      exact Nat.lt_of_lt_of_le (Nat.lt_of_not_le apart) (mergeTouching_start others member)

theorem length_mergeTouching_le (last : Cursor) (rest : List Cursor) :
    (mergeTouching last rest).length ≤ (last :: rest).length := by
  induction rest generalizing last with
  | nil => exact Nat.le_refl _
  | cons cursor rest ih =>
    unfold mergeTouching
    split
    · exact Nat.le_succ_of_le (ih _)
    · exact Nat.succ_le_succ (ih _)

theorem mergeTouching_of_apart (apart : (last :: rest).Pairwise Cursor.apart) :
    mergeTouching last rest = last :: rest := by
  induction rest generalizing last with
  | nil => rfl
  | cons cursor rest ih =>
    obtain ⟨first, others⟩ := pairwise_cons.mp apart
    unfold mergeTouching
    rw [if_neg (Nat.not_le.mpr (first cursor mem_cons_self)), ih others]

/-- Every caret is covered. -/
theorem mergeTouching_covers (ascending : Ascending (last :: rest))
    (member : cursor ∈ last :: rest) : ∃ merged ∈ mergeTouching last rest,
      merged.range.start ≤ cursor.range.start ∧ cursor.range.stop ≤ merged.range.stop := by
  induction rest generalizing last cursor with
  | nil => exact ⟨last, mem_singleton_self _, by rw [mem_singleton.mp member]; simp⟩
  | cons next rest ih =>
    unfold mergeTouching
    split
    · obtain ⟨later, _⟩ := ascending.joined
      obtain ⟨merged, there, start, stop⟩ := ih later mem_cons_self
      rw [Cursor.joined_start] at start
      rw [Cursor.joined_stop] at stop
      rcases mem_cons.mp member with rfl | member
      · exact ⟨merged, there, by omega, by omega⟩
      rcases mem_cons.mp member with rfl | member
      · exact ⟨merged, there, by omega, by omega⟩
      · exact ih later (mem_cons_of_mem _ member)
    · rcases mem_cons.mp member with rfl | member
      · exact ⟨cursor, mem_cons_self, Nat.le_refl _, Nat.le_refl _⟩
      · obtain ⟨merged, there, covers⟩ := ih (pairwise_cons.mp ascending).2 member
        exact ⟨merged, mem_cons_of_mem _ there, covers⟩

/-- Nothing is covered that was not. -/
theorem mergeTouching_covered (ascending : Ascending (last :: rest)) {merged : Cursor}
    (member : merged ∈ mergeTouching last rest) {offset : Nat} (above : merged.range.start ≤ offset)
    (below : offset < merged.range.stop) :
    ∃ cursor ∈ last :: rest, cursor.range.start ≤ offset ∧ offset < cursor.range.stop := by
  induction rest generalizing last with
  | nil =>
    obtain rfl := mem_singleton.mp member
    exact ⟨merged, mem_cons_self, above, below⟩
  | cons next rest ih =>
    unfold mergeTouching at member
    split at member
    · rename_i touches
      obtain ⟨cursor, there, start, stop⟩ := ih ascending.joined.1 member
      rcases mem_cons.mp there with rfl | behind
      · rw [Cursor.joined_start] at start
        rw [Cursor.joined_stop] at stop
        by_cases inside : last.range.start ≤ offset ∧ offset < last.range.stop
        · exact ⟨last, mem_cons_self, inside⟩
        · have order := (pairwise_cons.mp ascending).1 next mem_cons_self
          exact ⟨next, by simp, by omega, by omega⟩
      · exact ⟨cursor, mem_cons_of_mem _ (mem_cons_of_mem _ behind), start, stop⟩
    · rcases mem_cons.mp member with rfl | inner
      · exact ⟨merged, mem_cons_self, above, below⟩
      · obtain ⟨cursor, there, inside⟩ := ih (pairwise_cons.mp ascending).2 inner
        exact ⟨cursor, mem_cons_of_mem _ there, inside⟩

/-- The ends of what is left are ends of carets. -/
theorem mergeTouching_ends (ascending : Ascending (last :: rest)) {merged : Cursor}
    (member : merged ∈ mergeTouching last rest) :
    (∃ cursor ∈ last :: rest, cursor.range.start = merged.range.start) ∧
      ∃ cursor ∈ last :: rest, cursor.range.stop = merged.range.stop := by
  induction rest generalizing last with
  | nil =>
    obtain rfl := mem_singleton.mp member
    exact ⟨⟨merged, mem_cons_self, rfl⟩, merged, mem_cons_self, rfl⟩
  | cons next rest ih =>
    unfold mergeTouching at member
    split at member
    · obtain ⟨later, begin_⟩ := ascending.joined
      obtain ⟨⟨first, there, start⟩, final, there', stop⟩ := ih later member
      constructor
      · rcases mem_cons.mp there with rfl | behind
        · exact ⟨last, mem_cons_self, begin_.symm.trans start⟩
        · exact ⟨first, mem_cons_of_mem _ (mem_cons_of_mem _ behind), start⟩
      · rcases mem_cons.mp there' with rfl | behind
        · rw [Cursor.joined_stop] at stop
          rcases Nat.le_total last.range.stop next.range.stop with order | order
          · exact ⟨next, by simp, by omega⟩
          · exact ⟨last, by simp, by omega⟩
        · exact ⟨final, mem_cons_of_mem _ (mem_cons_of_mem _ behind), stop⟩
    · rcases mem_cons.mp member with rfl | inner
      · exact ⟨⟨merged, mem_cons_self, rfl⟩, merged, mem_cons_self, rfl⟩
      · obtain ⟨⟨first, there, start⟩, final, there', stop⟩ := ih (pairwise_cons.mp ascending).2 inner
        exact ⟨⟨first, mem_cons_of_mem _ there, start⟩, final, mem_cons_of_mem _ there', stop⟩

theorem mergeTouching_stop (ascending : Ascending (last :: rest))
    {merged : Cursor} (member : merged ∈ mergeTouching last rest) :
    last.range.stop ≤ merged.range.stop := by
  induction rest generalizing last with
  | nil => rw [mem_singleton.mp member]
  | cons next rest ih =>
    unfold mergeTouching at member
    split at member
    · refine Nat.le_trans ?_ (ih ascending.joined.1 member)
      rw [Cursor.joined_stop]
      exact Nat.le_max_left _ _
    · rename_i apart
      rcases mem_cons.mp member with rfl | inner
      · exact Nat.le_refl _
      · have start := mergeTouching_start (pairwise_cons.mp ascending).2 inner
        have order := merged.range.ordered
        omega

/-- A caret of what is left looks the way the last caret looks that it was merged from. -/
theorem mergeTouching_direction (ascending : Ascending (last :: rest))
    {merged : Cursor} (member : merged ∈ mergeTouching last rest) :
    ∃ front cursor back, last :: rest = front ++ cursor :: back ∧
      (∀ other ∈ front ++ [cursor], other.range.start ≤ merged.range.stop) ∧
      (∀ other ∈ back, merged.range.stop < other.range.start) ∧
      merged.range.start ≤ cursor.range.start ∧ cursor.range.stop ≤ merged.range.stop ∧
      merged.head = if cursor.anchor ≤ cursor.head then merged.range.stop
      else merged.range.start := by
  induction rest generalizing last with
  | nil =>
    obtain rfl := mem_singleton.mp member
    refine ⟨[], merged, [], rfl, ?_, nofun, Nat.le_refl _, Nat.le_refl _, merged.head_eq⟩
    intro other only
    rw [mem_singleton.mp only]
    exact merged.range.ordered
  | cons next rest ih =>
    unfold mergeTouching at member
    split at member
    · rename_i touches
      obtain ⟨later, start⟩ := ascending.joined
      have stop := mergeTouching_stop later member
      rw [Cursor.joined_stop] at stop
      obtain ⟨front, cursor, back, split, lower, upper, first, final, head⟩ := ih later member
      cases front with
      | nil =>
        obtain ⟨rfl, rfl⟩ := List.cons.inj split
        rw [Cursor.joined_start] at first
        rw [Cursor.joined_stop] at final
        refine ⟨[last], next, rest, rfl, ?_, upper, by omega, by omega, ?_⟩
        · intro other two
          rcases mem_cons.mp two with rfl | one
          · exact start ▸ lower _ (mem_singleton_self _)
          · rw [mem_singleton.mp one]
            omega
        · simp only [Cursor.joined_forward] at head
          exact head
      | cons joined front =>
        obtain ⟨rfl, rfl⟩ := List.cons.inj split
        refine ⟨last :: next :: front, cursor, back, rfl, ?_, upper, first, final, head⟩
        intro other there
        rcases mem_cons.mp there with rfl | there
        · exact start ▸ lower _ mem_cons_self
        rcases mem_cons.mp there with rfl | there
        · omega
        · exact lower other (mem_cons_of_mem _ there)
    · rename_i apart
      obtain ⟨first, others⟩ := pairwise_cons.mp ascending
      rcases mem_cons.mp member with rfl | inner
      · refine ⟨[], merged, next :: rest, rfl, ?_, ?_, Nat.le_refl _, Nat.le_refl _, merged.head_eq⟩
        · intro other only
          rw [mem_singleton.mp only]
          exact merged.range.ordered
        · intro other there
          rcases mem_cons.mp there with rfl | there
          · exact Nat.lt_of_not_le apart
          · exact Nat.lt_of_lt_of_le (Nat.lt_of_not_le apart)
              ((pairwise_cons.mp others).1 other there)
      · obtain ⟨front, cursor, back, split, lower, upper, covered⟩ := ih others inner
        refine ⟨last :: front, cursor, back, by rw [split]; rfl, ?_, upper, covered⟩
        intro other there
        rcases mem_cons.mp there with rfl | there
        · have begin_ := mergeTouching_start others inner
          have order := first next mem_cons_self
          have wide := merged.range.ordered
          omega
        · exact lower other there

end Merge

namespace Selection

theorem primary_mem (selection : Selection) : selection.primary ∈ selection.cursors := get_mem _ _

theorem primary_getElem? (selection : Selection) :
    selection.cursors[selection.primaryIndex]? = some selection.primary :=
  getElem?_eq_getElem selection.inRange

/-- The carets before the cap. -/
def merged (cursors : List Cursor) : List Cursor :=
  match cursors.insertionSort Cursor.before with
  | [] => []
  | lowest :: rest => mergeTouching lowest rest

theorem many_cursors {cursors : List Cursor} (some : cursors ≠ []) (primary : Nat) :
    ∃ keep, cursors[primary]?.getD (cursors.head some) = keep ∧
      (many cursors primary).cursors = capCursors keep (merged cursors) ∧
      (many cursors primary).primaryIndex =
        ((capCursors keep (merged cursors)).findIdx? fun cursor =>
        cursor.range.contains keep.head || cursor.head == keep.head).getD 0 := by
  cases cursors with
  | nil => exact absurd rfl some
  | cons first others =>
    refine ⟨_, rfl, ?_⟩
    have sorted := length_insertionSort Cursor.before (first :: others)
    unfold many merged
    simp only
    split
    · rename_i empty
      rw [empty] at sorted
      cases sorted
    · rename_i lowest rest shape
      simp only [shape]
      exact ⟨rfl, rfl⟩

section Merged

variable {cursors : List Cursor}

private theorem exists_sorted (some : cursors ≠ []) : ∃ lowest rest,
    cursors.insertionSort Cursor.before = lowest :: rest ∧ merged cursors =
      mergeTouching lowest rest ∧ Ascending (lowest :: rest) ∧ ∀ cursor, cursor ∈ lowest :: rest ↔
      cursor ∈ cursors := by
  cases shape : cursors.insertionSort Cursor.before with
  | nil =>
    have size := length_insertionSort Cursor.before cursors
    rw [shape] at size
    exact absurd (length_eq_zero_iff.mp size.symm) some
  | cons lowest rest =>
    refine ⟨lowest, rest, rfl, ?_, ?_, fun cursor => ?_⟩
    · simp only [merged, shape]
    · exact shape ▸ ascending_insertionSort cursors
    · rw [← shape]
      exact mem_insertionSort Cursor.before

theorem length_merged_le (cursors : List Cursor) : (merged cursors).length ≤ cursors.length := by
  by_cases some : cursors = []
  · rw [some]
    exact Nat.le_refl _
  · obtain ⟨lowest, rest, sorted, same, _, _⟩ := exists_sorted some
    rw [same, ← length_insertionSort Cursor.before cursors, sorted]
    exact length_mergeTouching_le lowest rest

theorem merged_apart (cursors : List Cursor) : (merged cursors).Pairwise Cursor.apart := by
  by_cases some : cursors = []
  · rw [some]
    exact .nil
  · obtain ⟨_, _, _, same, ascending, _⟩ := exists_sorted some
    exact same ▸ mergeTouching_apart ascending

theorem merged_covers (member : cursor ∈ cursors) : ∃ wide ∈ merged cursors,
    wide.range.start ≤ cursor.range.start ∧ cursor.range.stop ≤ wide.range.stop := by
  obtain ⟨_, _, _, same, ascending, mem⟩ := exists_sorted (ne_nil_of_mem member)
  exact same ▸ mergeTouching_covers ascending ((mem cursor).mpr member)

theorem ne_nil_of_mem_merged (member : wide ∈ merged cursors) : cursors ≠ [] := by
  intro none_
  rw [none_] at member
  cases member

theorem merged_covered (member : wide ∈ merged cursors) {offset : Nat}
    (above : wide.range.start ≤ offset) (below : offset < wide.range.stop) :
    ∃ cursor ∈ cursors, cursor.range.start ≤ offset ∧ offset < cursor.range.stop := by
  obtain ⟨_, _, _, same, ascending, mem⟩ := exists_sorted (ne_nil_of_mem_merged member)
  obtain ⟨cursor, there, inside⟩ := mergeTouching_covered ascending (same ▸ member) above below
  exact ⟨cursor, (mem cursor).mp there, inside⟩

theorem merged_ends (member : wide ∈ merged cursors) :
    (∃ cursor ∈ cursors, cursor.range.start = wide.range.start) ∧
      ∃ cursor ∈ cursors, cursor.range.stop = wide.range.stop := by
  obtain ⟨_, _, _, same, ascending, mem⟩ := exists_sorted (ne_nil_of_mem_merged member)
  obtain ⟨⟨first, there, start⟩, final, there', stop⟩ := mergeTouching_ends ascending (same ▸ member)
  exact ⟨⟨first, (mem first).mp there, start⟩, final, (mem final).mp there', stop⟩

theorem merged_direction (member : wide ∈ merged cursors) :
    ∃ front cursor back, cursors.insertionSort Cursor.before = front ++ cursor :: back ∧
      (∀ other ∈ front ++ [cursor], other.range.start ≤ wide.range.stop) ∧
      (∀ other ∈ back, wide.range.stop < other.range.start) ∧
      wide.range.start ≤ cursor.range.start ∧ cursor.range.stop ≤ wide.range.stop ∧
      wide.head = if cursor.anchor ≤ cursor.head then wide.range.stop else wide.range.start := by
  obtain ⟨_, _, sorted, same, ascending, _⟩ := exists_sorted (ne_nil_of_mem_merged member)
  exact sorted ▸ mergeTouching_direction ascending (same ▸ member)

end Merged

theorem capCursors_sublist (keep : Cursor) (wides : List Cursor) :
    (capCursors keep wides).Sublist wides := by
  unfold capCursors
  split
  · exact (take_sublist _ _).trans (List.drop_sublist _ _)
  · exact .refl _

theorem capCursors_length (keep : Cursor) (wides : List Cursor) :
    (capCursors keep wides).length ≤ maxCursors := by
  unfold capCursors
  split
  · exact length_take_le _ _
  · exact Nat.le_of_not_lt ‹_›

theorem capCursors_of_le {keep : Cursor} {wides : List Cursor} (few : wides.length ≤ maxCursors) :
    capCursors keep wides = wides := if_neg (Nat.not_lt.mpr few)

/-- The carets of a buffer: at most `maxCursors`, in order, with a gap between each two. -/
structure Sound (selection : Selection) : Prop where
  few : selection.cursors.length ≤ maxCursors
  apart : selection.cursors.Pairwise Cursor.apart

theorem sound_one (cursor : Cursor) : (one cursor).Sound :=
  ⟨by simp [one, maxCursors], pairwise_singleton _ _⟩

theorem sound_many (cursors : List Cursor) (primary : Nat) : (many cursors primary).Sound := by
  by_cases some : cursors = []
  · rw [some]
    exact sound_one _
  · obtain ⟨keep, _, shape, _⟩ := many_cursors some primary
    refine ⟨?_, ?_⟩
    · rw [shape]
      exact capCursors_length _ _
    · rw [shape]
      exact (merged_apart cursors).sublist (capCursors_sublist _ _)

/-- Selections that the interface builds. -/
inductive Built : Selection → Prop where
  | one (cursor : Cursor) : Built (one cursor)
  | many (cursors : List Cursor) (primary : Nat) : Built (many cursors primary)
  | mapped {selection : Selection} (f : Cursor → Cursor) (built : Built selection) : Built
      (selection.mapped f)
  | withAdded {selection : Selection} (cursor : Cursor) (built : Built selection) :
      Built (selection.withAdded cursor)
  | shifted {selection : Selection} (delta : Int) (built : Built selection) : Built
      (selection.shifted delta)
  | collapsed {selection : Selection} (built : Built selection) : Built selection.collapsed
  | single {selection : Selection} (built : Built selection) : Built selection.single
  | withHead {selection : Selection} (head : Nat) (extend : Bool) (built : Built selection) :
      Built (selection.withHead head extend)
  | setSelection {selection : Selection} (document : Document) (built : Built selection) :
      Built (document.setSelection selection).selection

theorem Built.sound {selection : Selection} (built : Built selection) : selection.Sound := by
  cases built with
  | one cursor => exact sound_one cursor
  | single | withHead => exact sound_one _
  | many | mapped | withAdded | shifted | collapsed | setSelection => exact sound_many _ _

/-- The carets of `many` are apart and cover what they were built from; so are those of all
selections. -/
theorem many_covers :
    (∀ cursors primary,
      (many cursors primary).cursors ≠ [] ∧
      (many cursors primary).cursors.length ≤ maxCursors ∧
      (many cursors primary).cursors.Pairwise
      (fun first second => first.range.stop < second.range.start) ∧
      (many cursors primary).primaryIndex < (many cursors primary).cursors.length ∧
      ((merged cursors).length ≤ maxCursors →
        (∀ offset, (∃ cursor ∈ (many cursors primary).cursors, cursor.range.contains offset) ↔
          ∃ cursor ∈ cursors, cursor.range.contains offset) ∧
        ∀ cursor ∈ cursors, ∃ wide ∈ (many cursors primary).cursors,
          wide.range.start ≤ cursor.head ∧ cursor.head ≤ wide.range.stop)) ∧
    ∀ selection, Built selection →
      selection.cursors ≠ [] ∧ selection.cursors.length ≤ maxCursors ∧
      selection.cursors.Pairwise (fun first second => first.range.stop < second.range.start) ∧
      selection.primaryIndex < selection.cursors.length := by
  have some (selection : Selection) : selection.cursors ≠ [] :=
    length_pos_iff.mp (Nat.lt_of_le_of_lt (Nat.zero_le _) selection.inRange)
  refine ⟨fun cursors primary => ?_, fun selection built => ?_⟩
  · obtain ⟨few, apart⟩ := sound_many cursors primary
    refine ⟨some _, few, apart, (many cursors primary).inRange, fun under => ?_⟩
    by_cases none_ : cursors = []
    · rw [none_]
      refine ⟨fun offset => ⟨?_, ?_⟩, nofun⟩
      · rintro ⟨cursor, member, inside⟩
        rw [mem_singleton.mp member] at inside
        simp [Cursor.caret, Cursor.range, Range.new, Range.contains] at inside
      · rintro ⟨_, member, _⟩
        cases member
    · obtain ⟨keep, _, shape, _⟩ := many_cursors none_ primary
      rw [shape, capCursors_of_le under]
      refine ⟨fun offset => ⟨?_, ?_⟩, fun cursor member => ?_⟩
      · rintro ⟨wide, member, inside⟩
        simp only [Range.contains, Bool.and_eq_true, decide_eq_true_eq] at inside ⊢
        exact merged_covered member inside.1 inside.2
      · rintro ⟨cursor, member, inside⟩
        obtain ⟨wide, there, start, stop⟩ := merged_covers member
        refine ⟨wide, there, ?_⟩
        simp only [Range.contains, Bool.and_eq_true, decide_eq_true_eq] at inside ⊢
        omega
      · obtain ⟨wide, there, start, stop⟩ := merged_covers member
        have head := cursor.head_mem
        exact ⟨wide, there, by omega, by omega⟩
  · obtain ⟨few, apart⟩ := built.sound
    exact ⟨some _, few, apart, selection.inRange⟩

end Selection

end ForgeNode.Editor
