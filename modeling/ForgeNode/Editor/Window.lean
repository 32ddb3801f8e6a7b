import Mathlib.Data.List.Find
import ForgeNode.Editor.Occurrences

/-! Searching only what a window shows: when the search that is restarted above a window yields what
the search of the whole text has there. -/

namespace ForgeNode.Editor

open List Utf8 Greedy

/-- What the iterator of a compiled expression promises: ranges on boundaries that do not overlap,
from left to right. -/
structure Engine.Enumerates (engine : Engine) : Prop where
  ordered : ∀ query str, ∀ found ∈ engine.findIter query str, found.1 ≤ found.2
  boundaries : ∀ query (str : Str), ∀ found ∈ engine.findIter query str,
    str.IsBoundary found.1 ∧ str.IsBoundary found.2
  disjoint : ∀ query str, (engine.findIter query str).Pairwise fun first second => first.2 ≤ second.1

/-- Does a match reach into the window? -/
def overlaps (window range : Range) : Bool :=
  decide (range.start < window.stop) && decide (range.stop > window.start)

section Lists

variable {items others : List Range}

end Lists

section Search

variable {engine : Engine} {text : Text} {query : Query}

theorem regexMatches_eq {start : Nat} (boundary : text.bytes.IsBoundary start)
    (valid : ¬ (query.pattern.len = 0 ∨ query.pattern.len > maxPatternBytes)) :
    regexMatches engine text query start =
      ((engine.findIter query (text.bytes.since start boundary)).filter fun found =>
        decide (found.2 > found.1)).map fun found => Range.new (start + found.1)
        (start + found.2) := by
  have inside : min start text.len = start := Nat.min_eq_left boundary.1
  unfold regexMatches
  simp only [inside]
  rw [if_neg valid, dif_pos boundary]

theorem since_zero (str : Str) (boundary : str.IsBoundary 0) :
    str.since 0 boundary = str := Str.ext rfl

/-- A search comes to its matches from left to right. -/
theorem matchesFrom_disjoint (sound : engine.Enumerates) {start : Nat}
    (boundary : text.bytes.IsBoundary start) :
    (matchesFrom engine text query start).Pairwise fun first second =>
    first.stop ≤ second.start := by
  unfold matchesFrom
  split
  · by_cases valid : query.pattern.len = 0 ∨ query.pattern.len > maxPatternBytes
    · unfold regexMatches
      rw [if_pos valid]
      exact .nil
    · rw [regexMatches_eq boundary valid]
      refine pairwise_map.mpr (((sound.disjoint query _).sublist filter_sublist).imp_of_mem
        fun {first second} left right clear => ?_)
      have one := sound.ordered query _ first (mem_filter.mp left).1
      have two := sound.ordered query _ second (mem_filter.mp right).1
      rw [Range.new_of_le (Nat.add_le_add_left one _), Range.new_of_le (Nat.add_le_add_left two _)]
      exact Nat.add_le_add_left clear start
  · rw [scanLiteral_eq engine text query boundary.1]
    exact (select_leftmost start (occurrences_spans text query)).disjoint.filter _

/-- The first match that the expression has in the text cut at an offset is the first that it has
from there on in the whole text: what stands above the offset makes no difference to it. -/
def Engine.Cuts (engine : Engine) (query : Query) (str : Str) (cut : Nat) : Prop :=
  ∀ boundary : str.IsBoundary cut,
    (((engine.findIter query (str.since cut boundary)).filter fun found =>
      decide (found.2 > found.1)).map fun found => (cut + found.1, cut + found.2)).head? =
      ((engine.findIter query str).filter fun found => decide (found.2 > found.1)).find? fun found =>
        decide (cut ≤ found.1)

/-- No match of the whole text that begins above a cut reaches into the window, and cutting the text
there leaves the expression its first match. -/
structure Uncut (engine : Engine) (text : Text) (query : Query) (window : Range) (cut : Nat) :
    Prop where
  ended : ∀ range ∈ matchesFrom engine text query 0, range.start < cut → range.stop ≤ window.start
  cuts : ¬ (query.pattern.len = 0 ∨ query.pattern.len > maxPatternBytes) →
    engine.Cuts query text.bytes cut

/-- Behind a cut that lies inside an occurrence the whole search takes, the pattern does not stand
before that occurrence ends, or it stands at the cut and not again before the one at the cut
ends. -/
def InPhase (text : Text) (query : Query) (cut : Nat) : Prop :=
  ∀ taken ∈ select Range.start Range.stop 0 (occurrences text query), taken.start < cut →
    cut < taken.stop → (∀ range ∈ occurrences text query, cut ≤ range.start →
      taken.stop ≤ range.start) ∨ occursAt text query cut = true ∧ ∀ range ∈ occurrences text query,
      taken.stop ≤ range.start →
        cut + query.pattern.len ≤ range.start

/-- Does the search that begins above a window leave out nothing that the whole search knows
there? -/
def Clear (engine : Engine) (text : Text) (query : Query) (window : Range) : Prop :=
  if query.regex then Uncut engine text query window (windowStart text query window)
  else InPhase text query (windowStart text query window)

variable {window : Range}

theorem windowStart_le (text : Text) (query : Query) (window : Range) :
    windowStart text query window ≤ window.start :=
  Nat.le_trans (floorBoundary_le _ _) (Nat.sub_le _ _)

theorem windowStart_add_le (below : 0 < windowStart text query window) :
    windowStart text query window + query.pattern.len ≤ window.start := by
  have least : windowStart text query window ≤ window.start - query.pattern.len :=
    floorBoundary_le _ _
  omega

theorem reaches_of_windowStart_lt {range : Range} (member : range ∈ occurrences text query)
    (behind : windowStart text query window < range.start) : window.start < range.stop := by
  have stop := (mem_occurrences.mp member).2
  have boundary := (occurrences_boundaries member).1
  by_contra above
  have early : range.start ≤ window.start - query.pattern.len := by omega
  have least := floorBoundary_mono text.bytes.bytes early
  rw [floorBoundary_of_isCharBoundary boundary.2] at least
  exact absurd least (Nat.not_le.mpr behind)

theorem exists_occurrence {offset : Nat} (stands : occursAt text query offset = true) :
    ∃ range ∈ occurrences text query, range.start = offset :=
  ⟨⟨offset, offset + query.pattern.len, Nat.le_add_right _ _⟩, mem_occurrences.mpr ⟨stands, rfl⟩, rfl⟩

/-- In phase, the restarted selection and the whole one end alike, after candidates above the
window. -/
theorem InPhase.suffix (phase : InPhase text query (windowStart text query window)) :
    ∃ above before rest,
      select Range.start Range.stop (windowStart text query window) (occurrences text query) =
        above ++ rest ∧
      select Range.start Range.stop 0 (occurrences text query) = before ++ rest ∧
      (∀ range ∈ above, range.stop ≤ window.start) ∧ ∀ range ∈ before, range.stop ≤ window.start := by
  have spans := occurrences_spans text query
  have restart := windowStart_le text query window
  by_cases clear : ∀ range ∈ select Range.start Range.stop 0 (occurrences text query),
      ¬ (range.start < windowStart text query window ∧ windowStart text query window < range.stop)
  · obtain ⟨before, split, ended⟩ := select_cut spans (Nat.zero_le _) clear
    exact ⟨[], before, _, rfl, split, fun _ member => (nomatch member),
      fun range member => (ended range member).trans restart⟩
  · simp only [not_forall, not_not] at clear
    obtain ⟨taken, member, starts, stops⟩ := clear
    have room := windowStart_add_le (Nat.zero_lt_of_lt starts)
    obtain ⟨before, after, split⟩ := append_of_mem member
    have whole := split ▸ select_leftmost 0 spans
    have length := (mem_occurrences.mp (whole.sub.subset (split ▸ member))).2
    have goes := select_after spans split
    -- what the whole selection takes up to the candidate across the cut ends above the window
    have higher : ∀ range ∈ before ++ [taken], range.stop ≤ window.start := by
      intro range there
      rcases mem_append.mp there with there | there
      · have ends := (pairwise_append.mp whole.disjoint).2.2 range there taken mem_cons_self
        exact ends.trans (starts.le.trans restart)
      · rw [mem_singleton.mp there, length]
        omega
    rcases phase taken member starts stops with none_ | ⟨stands, none_⟩
    · refine ⟨[], before ++ [taken], after, ?_, by rw [split, append_assoc]; rfl,
        fun _ member => (nomatch member), higher⟩
      rw [goes, nil_append, select_congr stops.le none_]
    · obtain ⟨first, there, begins⟩ := exists_occurrence stands
      have ends := (mem_occurrences.mp there).2
      refine ⟨[first], before ++ [taken], after, ?_, by rw [split, append_assoc]; rfl,
        fun range only => ?_, higher⟩
      · rw [goes, select_first spans there begins.ge fun _ _ reaches => begins.trans_le reaches, ends,
          begins, select_congr (by omega) none_]
        rfl
      · rw [mem_singleton.mp only, ends, begins]
        exact room

/-- Out of phase, one of the two selections takes an occurrence that overlaps the window and the
other does not. -/
theorem InPhase.of_same (plain : query.wholeWord = false)
    (same : ((select Range.start Range.stop (windowStart text query window)
      (occurrences text query)).filter
        (passes engine text query)).filter (overlaps window) =
      ((select Range.start Range.stop 0 (occurrences text query)).filter
        (passes engine text query)).filter (overlaps window)) :
    InPhase text query (windowStart text query window) := by
  intro taken member starts stops
  have spans := occurrences_spans text query
  have room := windowStart_add_le (Nat.zero_lt_of_lt starts)
  have whole : Leftmost Range.start Range.stop 0 _ _ := select_leftmost 0 spans
  have length := (mem_occurrences.mp (whole.sub.subset member)).2
  have passed : ∀ range, passes engine text query range = true := fun range => by
    rw [passes, plain, Bool.false_and, Bool.not_false]
  -- an occurrence behind the restart and in front of where one at the restart would end overlaps the window
  have shown : ∀ range ∈ occurrences text query, windowStart text query window < range.start →
      range.start < windowStart text query window + query.pattern.len →
      (range ∈ select Range.start Range.stop (windowStart text query window)
      (occurrences text query) ↔
        range ∈ select Range.start Range.stop 0 (occurrences text query)) := by
    intro range there behind inside
    have reaches : overlaps window range = true := by
      have ordered := window.ordered
      simp only [overlaps, Bool.and_eq_true, decide_eq_true_eq]
      exact ⟨by omega, reaches_of_windowStart_lt there behind⟩
    have mem := congrArg (range ∈ ·) same
    simpa only [mem_filter, passed, reaches, and_true, eq_iff_iff] using mem
  have cut : Leftmost Range.start Range.stop _ _ _ :=
    select_leftmost (windowStart text query window) spans
  by_cases stands : occursAt text query (windowStart text query window) = true
  · refine .inr ⟨stands, fun range there behind => ?_⟩
    by_contra inside
    obtain ⟨other, kept, before, covers⟩ := whole.covered range there (Nat.zero_le _)
    have apart : taken.stop ≤ other.start := by
      by_contra higher
      rcases Nat.le_total taken.start other.start with order | order
      · obtain rfl := whole.apart spans member kept order (Nat.not_le.mp higher)
        omega
      · obtain rfl := whole.apart spans kept member order (by omega)
        omega
    have taken_ := (shown other (whole.sub.subset kept) (by omega) (by omega)).mpr kept
    obtain ⟨_, at_, begins⟩ := exists_occurrence stands
    obtain ⟨first, there, least, _⟩ := cut.covered _ at_ begins.ge
    have ends := (mem_occurrences.mp (cut.sub.subset there)).2
    have later := cut.later first there
    obtain rfl := cut.apart spans there taken_ (by omega) (by omega)
    omega
  · refine .inl fun range there behind => ?_
    by_contra inside
    obtain ⟨other, kept, before, covers⟩ := cut.covered range there behind
    have later := cut.later other kept
    have differs : other.start ≠ windowStart text query window := fun same =>
      stands (same ▸ (mem_occurrences.mp (cut.sub.subset kept)).1)
    have also := (shown other (cut.sub.subset kept) (by omega) (by omega)).mp kept
    obtain rfl := whole.apart spans member also (by omega) (by omega)
    omega

/-- Where the cut makes no difference to the expression, the search of the cut text comes first to
what the whole one comes to first from there on. -/
theorem Engine.Cuts.head? {start : Nat} (sound : engine.Enumerates) (regex : query.regex = true)
    (valid : ¬ (query.pattern.len = 0 ∨ query.pattern.len > maxPatternBytes))
    (boundary : text.bytes.IsBoundary start) (cuts : engine.Cuts query text.bytes start) :
    (matchesFrom engine text query start).head? =
      (matchesFrom engine text query 0).find? fun range => decide (start ≤ range.start) := by
  have placed := congrArg (Option.map fun found : Nat × Nat => Range.new found.1 found.2)
    (cuts boundary)
  unfold matchesFrom
  rw [if_pos regex, if_pos regex, regexMatches_eq boundary valid,
    regexMatches_eq text.bytes.isBoundary_zero valid, since_zero, find?_map]
  rw [head?_map, Option.map_map] at placed
  rw [head?_map]
  simp only [Nat.zero_add]
  refine placed.trans (congrArg _ (find?_congr fun found member => ?_))
  have order := sound.ordered query _ found (mem_filter.mp member).1
  rw [Function.comp_apply, Range.new_of_le order]

private def plain (pattern : List Char) : Query := ⟨.ofChars pattern, true, false, false⟩

end Search

end ForgeNode.Editor
