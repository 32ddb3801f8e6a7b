import Mathlib.Tactic.Common

/-! Outlines by depth: a line opens a block of the deeper lines that follow it. -/

namespace ForgeNode.Outline

open List

/-- A line that has content, with how deep it stands. -/
structure Item where
  line : Nat
  depth : Nat

/-- The last line of the run deeper than `depth`; `start` where the run is empty. -/
def reach (depth : Nat) : Nat → List Item → Nat
  | start, [] => start
  | start, entry :: rest => if depth < entry.depth then reach depth entry.line rest else start

/-- A block: `header` stays, the lines up to `last` stand under it. -/
@[ext] structure Region where
  header : Nat
  last : Nat
  deriving DecidableEq

/-- The block of an entry whose run ends at `start` or reaches into `rest`; none where no line is
under it. -/
def block (start : Nat) (rest : List Item) (entry : Item) : Option Region :=
  if entry.line < reach entry.depth start rest then some ⟨entry.line, reach entry.depth start rest⟩
    else none

/-- Every line that opens a block, with the block's last line. -/
def blocks : List Item → List Region
  | [] => []
  | entry :: rest => (block entry.line rest entry).toList ++ blocks rest

/-- Lines in document order. -/
def Ordered (entries : List Item) : Prop := entries.Pairwise fun first second =>
    first.line < second.line

/-- `last` ends the run deeper than `depth` behind `start`. -/
structure Ends (depth start : Nat) (rest : List Item) (last : Nat) : Prop where
  place : last = start ∨ ∃ entry ∈ rest, entry.line = last
  deeper : ∀ entry ∈ rest, entry.line ≤ last → depth < entry.depth
  closed : ∀ entry ∈ rest, last < entry.line → ∃ stop ∈ rest, last < stop.line ∧
    stop.line ≤ entry.line ∧ stop.depth ≤ depth

/-- `last` ends the block that opens at an entry. -/
structure Opens (entries : List Item) (entry : Item) (last : Nat) : Prop where
  mem : entry ∈ entries
  long : entry.line < last
  place : ∃ final ∈ entries, final.line = last
  deeper : ∀ inner ∈ entries, entry.line < inner.line → inner.line ≤ last → entry.depth < inner.depth
  closed : ∀ outer ∈ entries, last < outer.line → ∃ stop ∈ entries, last < stop.line ∧
    stop.line ≤ outer.line ∧ stop.depth ≤ entry.depth

variable {depth start : Nat} {entry : Item} {rest entries : List Item}

theorem Ordered.tail (ordered : Ordered (entry :: rest)) : Ordered rest :=
  (pairwise_cons.mp ordered).2

theorem Ordered.after (ordered : Ordered (entry :: rest)) {other : Item} (within : other ∈ rest) :
    entry.line < other.line := (pairwise_cons.mp ordered).1 other within

theorem le_reach (ordered : Ordered rest) (after : ∀ entry ∈ rest, start < entry.line) :
    start ≤ reach depth start rest := by
  induction rest generalizing start with
  | nil => exact Nat.le_refl _
  | cons entry rest ih =>
    unfold reach
    split_ifs
    · have below := after entry mem_cons_self
      have next : entry.line ≤ reach depth entry.line rest := ih ordered.tail fun _ within =>
        ordered.after within
      omega
    · exact Nat.le_refl _

theorem reach_ends (ordered : Ordered rest) (after : ∀ entry ∈ rest, start < entry.line) :
    Ends depth start rest (reach depth start rest) := by
  induction rest generalizing start with
  | nil => exact ⟨.inl rfl, by simp, by simp⟩
  | cons entry rest ih =>
    have here := after entry mem_cons_self
    have next : Ends depth entry.line rest (reach depth entry.line rest) :=
      ih ordered.tail fun _ within => ordered.after within
    have low : entry.line ≤ reach depth entry.line rest := le_reach ordered.tail fun _ within =>
      ordered.after within
    unfold reach
    split_ifs with deeper
    · refine ⟨.inr ?_, ?_, ?_⟩
      · rcases next.place with same | ⟨final, within, same⟩
        · exact ⟨entry, mem_cons_self, same.symm⟩
        · exact ⟨final, mem_cons_of_mem _ within, same⟩
      · intro inner within below
        rcases mem_cons.mp within with rfl | later
        · exact deeper
        · exact next.deeper inner later below
      · intro outer within beyond
        rcases mem_cons.mp within with rfl | later
        · omega
        · obtain ⟨stop, among, facts⟩ := next.closed outer later beyond
          exact ⟨stop, mem_cons_of_mem _ among, facts⟩
    · refine ⟨.inl rfl, ?_, ?_⟩
      · intro inner within below
        have past := after inner within
        omega
      · intro outer within beyond
        refine ⟨entry, mem_cons_self, here, ?_, by omega⟩
        rcases mem_cons.mp within with rfl | later
        · exact Nat.le_refl _
        · exact Nat.le_of_lt (ordered.after later)

/-- A run has one end. -/
theorem Ends.unique {first second : Nat} (one : Ends depth start rest first)
    (other : Ends depth start rest second) (low : start ≤ first) (below : start ≤ second) :
    first = second := by
  have apart {early late : Nat} (near : Ends depth start rest early)
      (far : Ends depth start rest late) (above : start ≤ early) (less : early < late) : False := by
    rcases far.place with same | ⟨final, within, same⟩
    · omega
    · obtain ⟨stop, among, beyond, inside, shallow⟩ := near.closed final within (by omega)
      have deeper := far.deeper stop among (by omega)
      omega
  rcases Nat.lt_trichotomy first second with less | same | more
  · exact (apart one other low less).elim
  · exact same
  · exact (apart other one below more).elim

/-- A block at the first line is a run of the lines behind it. -/
theorem opens_head_iff (ordered : Ordered (entry :: rest)) {last : Nat} :
    Opens (entry :: rest) entry last ↔ entry.line < last ∧
    Ends entry.depth entry.line rest last := by
  constructor
  · intro opens
    refine ⟨opens.long, .inr ?_, ?_, ?_⟩
    · obtain ⟨final, within, same⟩ := opens.place
      rcases mem_cons.mp within with rfl | later
      · exact absurd opens.long (by omega)
      · exact ⟨final, later, same⟩
    · intro inner within below
      exact opens.deeper inner (mem_cons_of_mem _ within) (ordered.after within) below
    · intro outer within beyond
      obtain ⟨stop, among, past, inside, shallow⟩ := opens.closed outer (mem_cons_of_mem _ within)
        beyond
      have long := opens.long
      rcases mem_cons.mp among with rfl | later
      · omega
      · exact ⟨stop, later, past, inside, shallow⟩
  · rintro ⟨long, ends⟩
    refine ⟨mem_cons_self, long, ?_, ?_, ?_⟩
    · rcases ends.place with same | ⟨final, within, same⟩
      · omega
      · exact ⟨final, mem_cons_of_mem _ within, same⟩
    · intro inner within above below
      rcases mem_cons.mp within with rfl | later
      · omega
      · exact ends.deeper inner later below
    · intro outer within beyond
      rcases mem_cons.mp within with rfl | later
      · omega
      · obtain ⟨stop, among, facts⟩ := ends.closed outer later beyond
        exact ⟨stop, mem_cons_of_mem _ among, facts⟩

/-- The first line plays no part in the blocks of the others. -/
theorem opens_tail_iff (ordered : Ordered (entry :: rest)) {other : Item} {last : Nat}
    (within : other ∈ rest) : Opens (entry :: rest) other last ↔ Opens rest other last := by
  have first := ordered.after within
  constructor
  · intro opens
    have long := opens.long
    refine ⟨within, long, ?_, ?_, ?_⟩
    · obtain ⟨final, among, same⟩ := opens.place
      rcases mem_cons.mp among with rfl | later
      · omega
      · exact ⟨final, later, same⟩
    · intro inner among
      exact opens.deeper inner (mem_cons_of_mem _ among)
    · intro outer among beyond
      obtain ⟨stop, inside, past, facts⟩ := opens.closed outer (mem_cons_of_mem _ among) beyond
      rcases mem_cons.mp inside with rfl | later
      · omega
      · exact ⟨stop, later, past, facts⟩
  · intro opens
    have long := opens.long
    refine ⟨mem_cons_of_mem _ within, long, ?_, ?_, ?_⟩
    · obtain ⟨final, among, same⟩ := opens.place
      exact ⟨final, mem_cons_of_mem _ among, same⟩
    · intro inner among above below
      rcases mem_cons.mp among with rfl | later
      · omega
      · exact opens.deeper inner later above below
    · intro outer among beyond
      rcases mem_cons.mp among with rfl | later
      · omega
      · obtain ⟨stop, inside, facts⟩ := opens.closed outer later beyond
        exact ⟨stop, mem_cons_of_mem _ inside, facts⟩

theorem mem_block {region : Region} :
    region ∈ (block entry.line rest entry).toList ↔ region.header = entry.line ∧
    entry.line < region.last ∧
      reach entry.depth entry.line rest = region.last := by
  unfold block
  split_ifs with long
  · rw [Option.toList_some, mem_singleton, Region.ext_iff]
    constructor
    · rintro ⟨same, last⟩
      exact ⟨same, by rw [last]; exact long, last.symm⟩
    · rintro ⟨same, _, last⟩
      exact ⟨same, last.symm⟩
  · rw [Option.toList_none]
    constructor
    · intro within
      cases within
    · rintro ⟨_, less, last⟩
      rw [last] at long
      exact absurd less long

/-- The pass from the front finds the blocks and nothing else. -/
theorem mem_blocks (ordered : Ordered entries) {region : Region} :
    region ∈ blocks entries ↔ ∃ entry, entry.line = region.header ∧
    Opens entries entry region.last := by
  induction entries with
  | nil =>
    constructor
    · intro within
      cases within
    · rintro ⟨entry, _, opens⟩
      cases opens.mem
  | cons entry rest ih =>
    have after : ∀ other ∈ rest, entry.line < other.line := fun _ within => ordered.after within
    rw [blocks, mem_append, ih ordered.tail, mem_block]
    constructor
    · rintro (⟨same, long, last⟩ | ⟨other, same, opens⟩)
      · refine ⟨entry, same.symm, (opens_head_iff ordered).mpr ⟨long, ?_⟩⟩
        rw [← last]
        exact reach_ends ordered.tail after
      · exact ⟨other, same, (opens_tail_iff ordered opens.mem).mpr opens⟩
    · rintro ⟨other, same, opens⟩
      rcases mem_cons.mp opens.mem with rfl | later
      · obtain ⟨long, ends⟩ := (opens_head_iff ordered).mp opens
        have low : other.line ≤ reach other.depth other.line rest := le_reach ordered.tail after
        exact .inl ⟨same.symm, long, (reach_ends ordered.tail after).unique ends low
          (Nat.le_of_lt long)⟩
      · exact .inr ⟨other, same, (opens_tail_iff ordered later).mp opens⟩

/-- Blocks come by header, one a header. -/
theorem blocks_sorted (ordered : Ordered entries) :
    (blocks entries).Pairwise fun first second => first.header < second.header := by
  induction entries with
  | nil => exact .nil
  | cons entry rest ih =>
    rw [blocks, pairwise_append]
    refine ⟨?_, ih ordered.tail, ?_⟩
    · cases block entry.line rest entry with
      | none => exact .nil
      | some region => exact pairwise_singleton _ _
    · intro first here second later
      obtain ⟨same, _⟩ := mem_block.mp here
      obtain ⟨other, again, opens⟩ := (mem_blocks ordered.tail).mp later
      rw [same, ← again]
      exact ordered.after opens.mem

/-- Blocks do not cross. -/
theorem Opens.nested {outer inner : Item} {first second : Nat} (one : Opens entries outer first)
    (other : Opens entries inner second) (before : outer.line < inner.line) :
    first < inner.line ∨ second ≤ first := by
  by_cases apart : first < inner.line
  · exact .inl apart
  · right
    by_contra longer
    obtain ⟨final, within, same⟩ := other.place
    obtain ⟨stop, among, past, inside, shallow⟩ := one.closed final within (by omega)
    have under := one.deeper inner other.mem before (by omega)
    have below := other.deeper stop among (by omega) (by omega)
    omega

end ForgeNode.Outline
