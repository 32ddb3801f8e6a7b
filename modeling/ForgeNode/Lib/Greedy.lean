import Mathlib.Data.List.Pairwise
import Mathlib.Data.List.Sort
import Mathlib.Order.Basic

/-! Leftmost selection of disjoint spans: going left to right, a span is kept when it starts at or
after the end of the last one kept. -/

namespace ForgeNode.Greedy

open List

universe u v
variable {α : Type u} {ι : Type v} [LinearOrder ι] (start stop : α → ι)

/-- The spans kept, the first of them at or after `position`. -/
def select (position : ι) : List α → List α
  | [] => []
  | item :: rest =>
    if position ≤ start item then item :: select (stop item) rest else select position rest

/-- Spans that are not empty, each starting after the one before. -/
structure Spans (items : List α) : Prop where
  proper : ∀ item ∈ items, start item < stop item
  ascending : items.Pairwise fun first second => start first < start second

/-- What makes a list the leftmost selection: it is disjoint, and every span that was passed over
starts inside one that is kept. -/
structure Leftmost (position : ι) (items kept : List α) : Prop where
  sub : kept.Sublist items
  later : ∀ item ∈ kept, position ≤ start item
  disjoint : kept.Pairwise fun first second => stop first ≤ start second
  covered : ∀ item ∈ items, position ≤ start item →
    ∃ other ∈ kept, start other ≤ start item ∧ start item < stop other

variable {start stop}

theorem Spans.tail {item : α} {rest : List α} (spans : Spans start stop (item :: rest)) :
    Spans start stop rest :=
  ⟨fun other member => spans.proper other (mem_cons_of_mem _ member), spans.ascending.of_cons⟩

theorem Spans.sublist {items fewer : List α} (spans : Spans start stop items)
    (sub : fewer.Sublist items) : Spans start stop fewer :=
  ⟨fun item member => spans.proper item (sub.subset member), spans.ascending.sublist sub⟩

theorem Spans.eq_of_start {items : List α} (spans : Spans start stop items) {first second : α}
    (left : first ∈ items) (right : second ∈ items) (same : start first = start second) :
    first = second := by
  by_contra differ
  have symmetric : Std.Symm fun first second : α => start first ≠ start second := ⟨fun _ _ => Ne.symm⟩
  have apart := spans.ascending.imp fun {first second} (less : start first < start second) => less.ne
  exact apart.forall left right differ same

theorem select_sublist (position : ι) (items : List α) :
    (select start stop position items).Sublist items := by
  induction items generalizing position with
  | nil => exact .slnil
  | cons item rest ih =>
    unfold select
    split
    · exact (ih _).cons_cons _
    · exact (ih _).cons _

theorem select_later {position : ι} {items : List α} (spans : Spans start stop items) {item : α}
    (member : item ∈ select start stop position items) : position ≤ start item := by
  induction items generalizing position with
  | nil => cases member
  | cons head rest ih =>
    unfold select at member
    split at member
    · rename_i reaches
      rcases mem_cons.mp member with rfl | member
      · exact reaches
      · exact reaches.trans ((spans.proper head mem_cons_self).le.trans (ih spans.tail member))
    · exact ih spans.tail member

theorem select_leftmost (position : ι) {items : List α} (spans : Spans start stop items) :
    Leftmost start stop position items (select start stop position items) := by
  refine ⟨select_sublist _ _, fun item => select_later spans, ?_, ?_⟩
  · induction items generalizing position with
    | nil => exact .nil
    | cons item rest ih =>
      unfold select
      split
      · exact pairwise_cons.mpr ⟨fun other => select_later spans.tail, ih _ spans.tail⟩
      · exact ih _ spans.tail
  · induction items generalizing position with
    | nil =>
      intro item member
      cases member
    | cons head rest ih =>
      intro item member reaches
      unfold select
      split
      · rename_i kept
        by_cases inside : start item < stop head
        · refine ⟨head, mem_cons_self, ?_, inside⟩
          rcases mem_cons.mp member with rfl | member
          · exact le_refl _
          · exact ((pairwise_cons.mp spans.ascending).1 item member).le
        · rcases mem_cons.mp member with rfl | member
          · exact absurd (spans.proper item mem_cons_self) inside
          · obtain ⟨other, there, covers⟩ := ih (stop head) spans.tail item member (not_lt.mp inside)
            exact ⟨other, mem_cons_of_mem _ there, covers⟩
      · rename_i skipped
        rcases mem_cons.mp member with rfl | member
        · exact absurd reaches skipped
        · exact ih position spans.tail item member reaches

/-- There is only one leftmost selection. -/
theorem Leftmost.eq_select {position : ι} {items kept : List α} (spans : Spans start stop items)
    (leftmost : Leftmost start stop position items kept) :
    kept = select start stop position items := by
  induction items generalizing position kept with
  | nil => exact sublist_nil.mp leftmost.sub
  | cons head rest ih =>
    have below := (pairwise_cons.mp spans.ascending).1
    unfold select
    split
    · rename_i reaches
      obtain ⟨other, there, before, _⟩ := leftmost.covered head mem_cons_self reaches
      have first : other = head := by
        rcases mem_cons.mp (leftmost.sub.subset there) with same | member
        · exact same
        · exact absurd (below other member) (not_lt.mpr before)
      subst first
      cases leftmost.sub with
      | cons _ sub => exact absurd (below other (sub.subset there)) (lt_irrefl _)
      | @cons_cons kept _ _ sub =>
        obtain ⟨after, disjoint⟩ := pairwise_cons.mp leftmost.disjoint
        refine congrArg (other :: ·) (ih spans.tail ⟨sub, after, disjoint,
          fun item member reaches => ?_⟩)
        obtain ⟨covering, kept, starts, covers⟩ := leftmost.covered item (mem_cons_of_mem _ member)
          (‹position ≤ start other›.trans ((spans.proper other mem_cons_self).le.trans reaches))
        rcases mem_cons.mp kept with rfl | kept
        · exact absurd covers (not_lt.mpr reaches)
        · exact ⟨covering, kept, starts, covers⟩
    · rename_i skipped
      refine ih spans.tail ⟨?_, leftmost.later, leftmost.disjoint, fun item member =>
        leftmost.covered item (mem_cons_of_mem _ member)⟩
      cases leftmost.sub with
      | cons _ sub => exact sub
      | cons_cons _ sub => exact absurd (leftmost.later head mem_cons_self) skipped

/-- Two kept spans are one, or one ends before the other starts. -/
theorem Leftmost.apart {position : ι} {items kept : List α} (spans : Spans start stop items)
    (leftmost : Leftmost start stop position items kept) {first second : α} (left : first ∈ kept)
    (right : second ∈ kept) (order : start first ≤ start second)
    (inside : start second < stop first) :
    first = second := by
  by_contra differ
  have symmetric : Std.Symm fun first second : α =>
    stop first ≤ start second ∨ stop second ≤ start first := ⟨fun _ _ => Or.symm⟩
  have apart : kept.Pairwise fun first second => stop first ≤ start second ∨
      stop second ≤ start first :=
    leftmost.disjoint.imp Or.inl
  rcases apart.forall left right differ with clear | clear
  · exact absurd inside (not_lt.mpr clear)
  · exact absurd (spans.proper second (leftmost.sub.subset right)) (not_lt.mpr (clear.trans order))

/-- Keeping only some of a selection is selecting among only those, exactly where none of them
starts inside a span that was selected and then dropped. -/
theorem filter_select_iff (keep : α → Bool) (position : ι) {items : List α}
    (spans : Spans start stop items) :
    (select start stop position items).filter keep =
      select start stop position (items.filter keep) ↔ ∀ dropped ∈ select start stop position items,
      keep dropped = false →
        ∀ item ∈ items, keep item = true →
          ¬ (start dropped < start item ∧ start item < stop dropped) := by
  have all := select_leftmost position spans
  have fewer : Spans start stop (items.filter keep) := spans.sublist filter_sublist
  constructor
  · rintro same dropped there unwanted item member wanted ⟨after, inside⟩
    have some_ := select_leftmost position fewer
    obtain ⟨other, kept, before, covers⟩ := some_.covered item
      (mem_filter.mpr ⟨member, wanted⟩) ((all.later dropped there).trans after.le)
    rw [← same] at kept
    obtain ⟨kept, good⟩ := mem_filter.mp kept
    have one : other = dropped := by
      rcases le_total (start other) (start dropped) with order | order
      · exact all.apart spans kept there order (after.trans covers)
      · exact (all.apart spans there kept order (lt_of_le_of_lt before inside)).symm
    rw [one, unwanted] at good
    cases good
  · intro clear
    refine Leftmost.eq_select fewer ⟨all.sub.filter keep, fun item member =>
      all.later item (mem_filter.mp member).1, all.disjoint.filter keep, fun item member reaches =>
      ?_⟩
    obtain ⟨member, wanted⟩ := mem_filter.mp member
    obtain ⟨other, kept, before, covers⟩ := all.covered item member reaches
    refine ⟨other, mem_filter.mpr ⟨kept, ?_⟩, before, covers⟩
    by_contra unwanted
    have dropped : keep other = false := by simpa using unwanted
    rcases before.lt_or_eq with after | same
    · exact clear other kept dropped item member wanted ⟨after, covers⟩
    · have one := spans.eq_of_start (all.sub.subset kept) member same
      rw [one, wanted] at dropped
      cases dropped

/-- Positions with no start between them select the same. -/
theorem select_congr {position other : ι} {items : List α} (order : position ≤ other)
    (none_ : ∀ item ∈ items, position ≤ start item → other ≤ start item) :
    select start stop position items = select start stop other items := by
  induction items with
  | nil => rfl
  | cons item rest ih =>
    unfold select
    by_cases reaches : position ≤ start item
    · rw [if_pos reaches, if_pos (none_ item mem_cons_self reaches)]
    · rw [if_neg reaches, if_neg fun later => reaches (order.trans later)]
      exact ih fun other member => none_ other (mem_cons_of_mem _ member)

theorem select_eq_nil {position : ι} {items : List α}
    (none_ : ∀ item ∈ items, ¬ position ≤ start item) : select start stop position items = [] := by
  induction items with
  | nil => rfl
  | cons item rest ih =>
    unfold select
    rw [if_neg (none_ item mem_cons_self)]
    exact ih fun other member => none_ other (mem_cons_of_mem _ member)

/-- The first span at or after a position is kept, and the selection goes on from its end. -/
theorem select_first {position : ι} {items : List α} (spans : Spans start stop items) {item : α}
    (member : item ∈ items) (reaches : position ≤ start item)
    (first : ∀ other ∈ items, position ≤ start other → start item ≤ start other) :
    select start stop position items = item :: select start stop (stop item) items := by
  have rest := select_leftmost (stop item) spans
  have proper := spans.proper item member
  refine (Leftmost.eq_select spans ⟨?_, ?_, ?_, ?_⟩).symm
  · have ordered : (item :: select start stop (stop item) items).Pairwise
        fun first second => start first < start second :=
      pairwise_cons.mpr ⟨fun other there => lt_of_lt_of_le proper (rest.later other there),
        spans.ascending.sublist rest.sub⟩
    have known : item :: select start stop (stop item) items ⊆ items := by
      intro other there
      rcases mem_cons.mp there with rfl | there
      · exact member
      · exact rest.sub.subset there
    have : Std.Irrefl fun first second : α => start first < start second := ⟨fun _ => lt_irrefl _⟩
    have : Std.Antisymm fun first second : α => start first < start second :=
      ⟨fun _ _ less more => absurd less more.asymm⟩
    exact sublist_of_subperm_of_pairwise (subperm_of_subset ordered.nodup known) ordered
      spans.ascending
  · intro other there
    rcases mem_cons.mp there with rfl | there
    · exact reaches
    · exact reaches.trans (proper.le.trans (rest.later other there))
  · exact pairwise_cons.mpr ⟨rest.later, rest.disjoint⟩
  · intro other there reached
    by_cases inside : start other < stop item
    · exact ⟨item, mem_cons_self, first other there reached, inside⟩
    · obtain ⟨covering, kept, covers⟩ := rest.covered other there (not_lt.mp inside)
      exact ⟨covering, mem_cons_of_mem _ kept, covers⟩

/-- What follows a kept span is the selection from its end. -/
theorem select_after {position : ι} {items before after : List α} {item : α}
    (spans : Spans start stop items)
    (split : select start stop position items = before ++ item :: after) :
    after = select start stop (stop item) items := by
  have whole := split ▸ select_leftmost position spans
  obtain ⟨_, rest, across⟩ := pairwise_append.mp whole.disjoint
  obtain ⟨later, disjoint⟩ := pairwise_cons.mp rest
  have sub : (item :: after).Sublist items := (sublist_append_right before _).trans whole.sub
  refine Leftmost.eq_select spans ⟨(sublist_cons_self item after).trans sub, later, disjoint,
    fun other member reaches => ?_⟩
  have there : item ∈ before ++ item :: after := mem_append_right _ mem_cons_self
  have proper := spans.proper item (whole.sub.subset there)
  obtain ⟨covering, kept, starts, covers⟩ := whole.covered other member
    ((whole.later item there).trans (proper.le.trans reaches))
  rcases mem_append.mp kept with kept | kept
  · have ends := across covering kept item mem_cons_self
    exact absurd (covers.trans_le (ends.trans proper.le)) (not_lt.mpr reaches)
  · rcases mem_cons.mp kept with rfl | kept
    · exact absurd covers (not_lt.mpr reaches)
    · exact ⟨covering, kept, starts, covers⟩

/-- A selection goes on as if it began anew at a place that no kept span lies across. -/
theorem select_cut {position cut : ι} {items : List α} (spans : Spans start stop items)
    (order : position ≤ cut)
    (clear : ∀ item ∈ select start stop position items, ¬ (start item < cut ∧ cut < stop item)) :
    ∃ before, select start stop position items = before ++ select start stop cut items ∧
      ∀ item ∈ before, stop item ≤ cut := by
  induction items generalizing position with
  | nil => exact ⟨[], rfl, fun _ member => nomatch member⟩
  | cons item rest ih =>
    unfold select at clear ⊢
    by_cases reaches : position ≤ start item
    · rw [if_pos reaches] at clear ⊢
      by_cases beyond : cut ≤ start item
      · rw [if_pos beyond]
        exact ⟨[], rfl, fun _ member => nomatch member⟩
      · have ends : stop item ≤ cut := not_lt.mp fun across =>
          clear item mem_cons_self ⟨not_le.mp beyond, across⟩
        obtain ⟨before, same, ended⟩ := ih spans.tail ends
          fun other member => clear other (mem_cons_of_mem _ member)
        rw [if_neg beyond, same]
        refine ⟨item :: before, rfl, fun other member => ?_⟩
        rcases mem_cons.mp member with rfl | member
        · exact ends
        · exact ended other member
    · rw [if_neg reaches] at clear ⊢
      rw [if_neg fun beyond => reaches (order.trans beyond)]
      exact ih spans.tail order clear

end ForgeNode.Greedy
