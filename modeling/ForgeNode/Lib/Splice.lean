import Mathlib.Algebra.Ring.Int.Defs
import Mathlib.Algebra.Ring.Nat
import Mathlib.Data.List.Basic

/-! Simultaneous replacements in a sequence. A list of ordered disjoint cuts is read
as a list of pieces; exchanging what a piece removes with what it inserts
exchanges the two texts, which is why the inverse of a splice is a splice. -/

namespace ForgeNode.Splice

open List

universe u
variable {α : Type u}

/-- Unchanged items, then items that one replacement removes and inserts. -/
structure Piece (α : Type u) where
  gap : List α
  removed : List α
  inserted : List α

namespace Piece

/-- The piece seen from the other side. -/
def flip (piece : Piece α) : Piece α := ⟨piece.gap, piece.inserted, piece.removed⟩

end Piece

/-- The sequence before the replacements. -/
def before (pieces : List (Piece α)) (tail : List α) : List α :=
  pieces.flatMap (fun piece => piece.gap ++ piece.removed) ++ tail

/-- The sequence after the replacements. -/
def after (pieces : List (Piece α)) (tail : List α) : List α :=
  pieces.flatMap (fun piece => piece.gap ++ piece.inserted) ++ tail

@[simp] theorem before_nil (tail : List α) : before [] tail = tail := rfl

@[simp] theorem after_nil (tail : List α) : after [] tail = tail := rfl

theorem before_cons (piece : Piece α) (rest : List (Piece α)) (tail : List α) :
    before (piece :: rest) tail = piece.gap ++ (piece.removed ++ before rest tail) := by
  simp [before]

theorem after_cons (piece : Piece α) (rest : List (Piece α)) (tail : List α) :
    after (piece :: rest) tail = piece.gap ++ (piece.inserted ++ after rest tail) := by
  simp [after]

theorem before_flip (pieces : List (Piece α)) (tail : List α) :
    before (pieces.map Piece.flip) tail = after pieces tail := by
  induction pieces with
  | nil => rfl
  | cons piece rest ih => rw [map_cons, before_cons, after_cons, ih]; rfl

theorem after_flip (pieces : List (Piece α)) (tail : List α) :
    after (pieces.map Piece.flip) tail = before pieces tail := by
  induction pieces with
  | nil => rfl
  | cons piece rest ih => rw [map_cons, after_cons, before_cons, ih]; rfl

/-- A replacement of the items in `[start, stop)`. -/
structure Cut (α : Type u) where
  start : Nat
  stop : Nat
  insert : List α

/-- The cuts that pieces stand for, in the coordinates of the sequence before. -/
def cuts (at_ : Nat) : List (Piece α) → List (Cut α)
  | [] => []
  | piece :: rest =>
    let start := at_ + piece.gap.length
    ⟨start, start + piece.removed.length, piece.inserted⟩ ::
      cuts (start + piece.removed.length) rest

theorem cuts_eq_singleton {at_ : Nat} {pieces : List (Piece α)} {cut : Cut α}
    (single : cuts at_ pieces = [cut]) : ∃ piece, pieces = [piece] ∧
      cut.start = at_ + piece.gap.length ∧ cut.stop = cut.start + piece.removed.length ∧
      cut.insert = piece.inserted := by
  cases pieces with
  | nil => cases single
  | cons piece rest =>
    obtain ⟨rfl, later⟩ := List.cons.inj single
    cases rest with
    | nil => exact ⟨piece, rfl, rfl, rfl, rfl⟩
    | cons second others => cases later

theorem le_of_mem_cuts {at_ : Nat} {pieces : List (Piece α)} {cut : Cut α}
    (member : cut ∈ cuts at_ pieces) : at_ ≤ cut.start ∧ cut.start ≤ cut.stop := by
  induction pieces generalizing at_ with
  | nil => cases member
  | cons piece rest ih =>
    rcases mem_cons.mp member with rfl | later
    · exact ⟨Nat.le_add_right _ _, Nat.le_add_right _ _⟩
    · obtain ⟨lower, order⟩ := ih later
      exact ⟨by omega, order⟩

/-- Cuts that are in order, disjoint and inside a sequence of the given length. -/
def Ordered (at_ : Nat) (length : Nat) : List (Cut α) → Prop
  | [] => at_ ≤ length
  | cut :: rest => at_ ≤ cut.start ∧ cut.start ≤ cut.stop ∧ Ordered cut.stop length rest

theorem Ordered.le {at_ length : Nat} {list : List (Cut α)} (ordered : Ordered at_ length list) :
    at_ ≤ length := by
  induction list generalizing at_ with
  | nil => exact ordered
  | cons cut rest ih =>
    obtain ⟨first, second, rest⟩ := ordered
    exact Nat.le_trans first (Nat.le_trans second (ih rest))

/-- Every ordered list of cuts comes from pieces of the sequence. -/
theorem exists_pieces {at_ : Nat} {list : List (Cut α)} (text : List α)
    (ordered : Ordered at_ (at_ + text.length) list) :
    ∃ pieces tail, cuts at_ pieces = list ∧ before pieces tail = text := by
  induction list generalizing at_ text with
  | nil => exact ⟨[], text, rfl, rfl⟩
  | cons cut rest ih =>
    obtain ⟨first, second, rest⟩ := ordered
    have bound := rest.le
    have stop : cut.stop + (text.drop (cut.stop - at_)).length = at_ + text.length := by
      rw [List.length_drop]
      omega
    obtain ⟨pieces, tail, same, whole⟩ := ih (text.drop (cut.stop - at_)) (by rw [stop]; exact rest)
    refine ⟨⟨text.take (cut.start - at_), (text.drop (cut.start - at_)).take (cut.stop - cut.start),
      cut.insert⟩ :: pieces, tail, ?_, ?_⟩
    · have gap : at_ + (text.take (cut.start - at_)).length = cut.start := by
        rw [length_take]
        omega
      have removed : ((text.drop (cut.start - at_)).take (cut.stop - cut.start)).length =
          cut.stop - cut.start := by
        rw [length_take, List.length_drop]
        omega
      have finish : cut.start + (cut.stop - cut.start) = cut.stop := by omega
      simp only [cuts, gap, removed, finish, same]
    · rw [before_cons, whole]
      have shift : cut.stop - at_ = (cut.start - at_) + (cut.stop - cut.start) := by omega
      rw [shift, ← drop_drop, take_append_drop, take_append_drop]

/-- The sequence that starts at `at_`, with what each cut covers exchanged for what it inserts. -/
def splice (at_ : Nat) (text : List α) : List (Cut α) → List α
  | [] => text
  | cut :: rest =>
    text.take (cut.start - at_) ++ (cut.insert ++ splice cut.stop (text.drop (cut.stop - at_)) rest)

/-- The sequence after the replacements is the one before, spliced. -/
theorem after_eq_splice (at_ : Nat) (pieces : List (Piece α)) (tail : List α) :
    after pieces tail = splice at_ (before pieces tail) (cuts at_ pieces) := by
  induction pieces generalizing at_ with
  | nil => rfl
  | cons piece rest ih =>
    have gap : at_ + piece.gap.length - at_ = piece.gap.length := Nat.add_sub_cancel_left ..
    have covered : at_ + piece.gap.length + piece.removed.length - at_ =
        (piece.gap ++ piece.removed).length := by
      rw [length_append]
      omega
    rw [after_cons, before_cons, cuts, splice]
    dsimp only
    rw [gap, take_left, covered, ← append_assoc piece.gap piece.removed, drop_left, ← ih]

/-- What a splice adds and what it takes away. -/
theorem length_splice {at_ : Nat} {text : List α} {list : List (Cut α)}
    (ordered : Ordered at_ (at_ + text.length) list) :
    (splice at_ text list).length + (list.map fun cut => cut.stop - cut.start).sum =
      text.length + (list.map fun cut => cut.insert.length).sum := by
  induction list generalizing at_ text with
  | nil => rfl
  | cons cut rest ih =>
    obtain ⟨first, second, later⟩ := ordered
    have bound := later.le
    have size : cut.stop + (text.drop (cut.stop - at_)).length = at_ + text.length := by
      rw [List.length_drop]
      omega
    have shorter := ih (by rw [size]; exact later)
    simp only [splice, length_append, length_take, map_cons, sum_cons]
    rw [Nat.min_eq_left (by omega : cut.start - at_ ≤ text.length)]
    omega

theorem Ordered.mem {at_ length : Nat} {list : List (Cut α)} (ordered : Ordered at_ length list)
    {cut : Cut α} (member : cut ∈ list) :
    at_ ≤ cut.start ∧ cut.start ≤ cut.stop ∧ cut.stop ≤ length := by
  induction list generalizing at_ with
  | nil => cases member
  | cons first rest ih =>
    obtain ⟨low, order, later⟩ := ordered
    rcases mem_cons.mp member with rfl | member
    · exact ⟨low, order, later.le⟩
    · obtain ⟨start, stop⟩ := ih later member
      exact ⟨by omega, stop⟩

theorem Ordered.behind {at_ length : Nat} {front back : List (Cut α)} {cut : Cut α}
    (ordered : Ordered at_ length (front ++ cut :: back)) : Ordered cut.stop length back := by
  induction front generalizing at_ with
  | nil => exact ordered.2.2
  | cons first rest ih => exact ih ordered.2.2

/-- A splice at one of its cuts: what comes before it, what it inserts and what comes after. -/
theorem splice_split {at_ : Nat} {text : List α} {front back : List (Cut α)} {cut : Cut α}
    (ordered : Ordered at_ (at_ + text.length) (front ++ cut :: back)) :
    splice at_ text (front ++ cut :: back) = splice at_ (text.take (cut.start - at_)) front ++
      (cut.insert ++ splice cut.stop (text.drop (cut.stop - at_)) back) := by
  induction front generalizing at_ text with
  | nil => rfl
  | cons first rest ih =>
    obtain ⟨low, order, later⟩ := ordered
    obtain ⟨start, stop, inside⟩ := later.mem (mem_append_right rest mem_cons_self)
    have size : first.stop + (text.drop (first.stop - at_)).length = at_ + text.length := by
      rw [List.length_drop]
      omega
    have inner := ih (by rw [size]; exact later)
    have gap : cut.start - at_ - (first.stop - at_) = cut.start - first.stop := by omega
    have rest_ : first.stop - at_ + (cut.stop - first.stop) = cut.stop - at_ := by omega
    rw [cons_append, splice, inner, splice, take_take, Nat.min_eq_left (by omega), drop_take, gap,
      drop_drop, rest_]
    simp only [append_assoc]

/-- What lies behind the first cut, as a sequence of its own. -/
theorem Ordered.rest {at_ : Nat} {text : List α} {cut : Cut α} {rest : List (Cut α)}
    (ordered : Ordered at_ (at_ + text.length) (cut :: rest)) :
    Ordered cut.stop (cut.stop + (text.drop (cut.stop - at_)).length) rest ∧
      text.take (cut.start - at_) ++ (text.take (cut.stop - at_)).drop (cut.start - at_) =
        text.take (cut.stop - at_) ∧ ∀ other ∈ rest, cut.stop ≤ other.start ∧
          (text.take (other.stop - at_)).drop (other.start - at_) =
            ((text.drop (cut.stop - at_)).take (other.stop - cut.stop)).drop
              (other.start - cut.stop) := by
  obtain ⟨low, order, later⟩ := ordered
  have bound := later.le
  refine ⟨?_, ?_, fun other there => ?_⟩
  · have size : cut.stop + (text.drop (cut.stop - at_)).length = at_ + text.length := by
      rw [List.length_drop]
      omega
    rw [size]
    exact later
  · have front : text.take (cut.start - at_) =
        (text.take (cut.stop - at_)).take (cut.start - at_) := by
      rw [take_take, Nat.min_eq_left (by omega)]
    rw [front, take_append_drop]
  · obtain ⟨first, second, _⟩ := later.mem there
    refine ⟨first, ?_⟩
    rw [take_drop, drop_drop]
    congr 2 <;> omega

/-- Cuts that put back what they cover leave the sequence as it was. -/
theorem splice_same {at_ : Nat} {text : List α} {list : List (Cut α)}
    (ordered : Ordered at_ (at_ + text.length) list)
    (same : ∀ cut ∈ list, cut.insert = (text.take (cut.stop - at_)).drop (cut.start - at_)) :
    splice at_ text list = text := by
  induction list generalizing at_ text with
  | nil => rfl
  | cons cut rest ih =>
    obtain ⟨later, covered, place⟩ := ordered.rest
    have behind := ih later fun other there =>
      (same other (mem_cons_of_mem _ there)).trans (place other there).2
    rw [splice, behind, same cut mem_cons_self, ← append_assoc, covered, take_append_drop]

/-- Beside cuts that put back what they cover, one cut is all that changes the sequence. -/
theorem splice_only {at_ : Nat} {text : List α} {front back : List (Cut α)} {cut : Cut α}
    (ordered : Ordered at_ (at_ + text.length) (front ++ cut :: back))
    (same : ∀ other ∈ front ++ back,
      other.insert = (text.take (other.stop - at_)).drop (other.start - at_)) :
    splice at_ text (front ++ cut :: back) = splice at_ text [cut] := by
  induction front generalizing at_ text with
  | nil =>
    obtain ⟨later, _, place⟩ := ordered.rest
    have behind := splice_same later fun other there =>
      (same other there).trans (place other there).2
    rw [nil_append, splice, behind]
    rfl
  | cons first rest ih =>
    obtain ⟨later, covered, place⟩ := ordered.rest
    have low := (place cut (mem_append_right _ mem_cons_self)).1
    obtain ⟨_, order, _⟩ := id ordered
    have inside := (id later).mem (mem_append_right _ mem_cons_self)
    have behind := ih later fun other there =>
      (same other (mem_cons_of_mem _ there)).trans (place other
        (mem_append.mpr ((mem_append.mp there).imp_right (mem_cons_of_mem _)))).2
    have reach : cut.start - at_ = first.stop - at_ + (cut.start - first.stop) := by omega
    have past : first.stop - at_ + (cut.stop - first.stop) = cut.stop - at_ := by omega
    rw [cons_append, splice, behind, same first mem_cons_self, ← append_assoc, covered, splice,
      splice, splice, splice, drop_drop, past, reach, take_add, append_assoc]

/-- What lies between the first cut and the last one is all that changes. -/
theorem exists_core {at_ : Nat} {piece : Piece α} {rest : List (Piece α)} (tail : List α) :
    ∃ old new last, before (piece :: rest) tail = piece.gap ++ (old ++ tail) ∧
      after (piece :: rest) tail = piece.gap ++ (new ++ tail) ∧
      (cuts at_ (piece :: rest)).getLast? = some last ∧
      last.stop = at_ + (piece.gap ++ old).length := by
  induction rest generalizing at_ piece with
  | nil =>
    refine ⟨piece.removed, piece.inserted, ⟨at_ + piece.gap.length, at_ + piece.gap.length +
      piece.removed.length, piece.inserted⟩, before_cons .., after_cons .., rfl, ?_⟩
    rw [length_append, Nat.add_assoc]
  | cons second others ih =>
    obtain ⟨old, new, last, whole, changed, final, stop⟩ :=
      @ih (at_ + piece.gap.length + piece.removed.length) second
    refine ⟨piece.removed ++ (second.gap ++ old), piece.inserted ++ (second.gap ++ new), last,
      ?_, ?_, ?_, ?_⟩
    · rw [before_cons, whole]
      simp only [append_assoc]
    · rw [after_cons, changed]
      simp only [append_assoc]
    · rw [← final]
      rfl
    · rw [stop]
      simp only [length_append]
      omega

/-- An item that no cut covers stays, and cuts the splice in two. -/
theorem split_kept {at_ place : Nat} {pieces : List (Piece α)} {tail : List α}
    (keeps : ∀ cut ∈ cuts at_ pieces, place < cut.start ∨ cut.stop ≤ place) (low : at_ ≤ place)
    (high : place < at_ + (before pieces tail).length) :
    ∃ early gap item rest tail', before pieces tail = before early gap ++ item ::
      before rest tail' ∧ after pieces tail = after early gap ++ item :: after rest tail' ∧
      cuts at_ pieces = cuts at_ early ++ cuts (place + 1) rest ∧
      at_ + (before early gap).length = place ∧ ∀ cut ∈ cuts at_ early, cut.stop ≤ place := by
  induction pieces generalizing at_ with
  | nil =>
    have inside : place - at_ < tail.length := by
      rw [before_nil] at high
      omega
    have whole : tail = tail.take (place - at_) ++ tail[place - at_] ::
        tail.drop (place - at_ + 1) := by
      rw [← drop_eq_getElem_cons inside, take_append_drop]
    refine ⟨[], tail.take (place - at_), tail[place - at_], [], tail.drop (place - at_ + 1), whole,
      whole, rfl, ?_, ?_⟩
    · rw [before_nil, length_take]
      omega
    · exact fun cut member => absurd member not_mem_nil
  | cons piece rest ih =>
    rcases keeps _ mem_cons_self with early | late
    · -- the item is in the gap of this piece
      have inside : place - at_ < piece.gap.length := by
        simp only at early
        omega
      have whole : piece.gap = piece.gap.take (place - at_) ++ piece.gap[place - at_] ::
          piece.gap.drop (place - at_ + 1) := by
        rw [← drop_eq_getElem_cons inside, take_append_drop]
      refine ⟨[], piece.gap.take (place - at_), piece.gap[place - at_],
        ⟨piece.gap.drop (place - at_ + 1), piece.removed, piece.inserted⟩ :: rest, tail, ?_, ?_, ?_,
        ?_, ?_⟩
      · rw [before_cons, before_cons, before_nil]
        conv_lhs => rw [whole]
        simp only [append_assoc, cons_append]
      · rw [after_cons, after_cons, after_nil]
        conv_lhs => rw [whole]
        simp only [append_assoc, cons_append]
      · have start : place + 1 + (piece.gap.drop (place - at_ + 1)).length = at_ +
            piece.gap.length := by
          rw [List.length_drop]
          omega
        simp only [cuts, nil_append, start]
      · rw [before_nil, length_take]
        omega
      · exact fun cut member => absurd member not_mem_nil
    · have size : (before (piece :: rest) tail).length =
          piece.gap.length + (piece.removed.length + (before rest tail).length) := by
        rw [before_cons, length_append, length_append]
      simp only at late
      obtain ⟨others, gap, item, behind, tail', old, new, split, at_place, stops⟩ :=
        @ih (at_ + piece.gap.length + piece.removed.length)
          (fun cut member => keeps cut (mem_cons_of_mem _ member)) late (by omega)
      refine ⟨piece :: others, gap, item, behind, tail', ?_, ?_, ?_, ?_, ?_⟩
      · rw [before_cons, before_cons, old]
        simp only [append_assoc]
      · rw [after_cons, after_cons, new]
        simp only [append_assoc]
      · rw [cuts, cuts, split, cons_append]
      · rw [before_cons, length_append, length_append]
        omega
      · intro cut member
        rcases mem_cons.mp member with rfl | later
        · exact late
        · exact stops cut later

/-- What a cut covers of a sequence. -/
def covered (text : List α) (cut : Cut α) : List α := (text.take cut.stop).drop cut.start

theorem covered_append {text : List α} {cut : Cut α} (inside : cut.stop ≤ text.length)
    (back : List α) : covered (text ++ back) cut = covered text cut := by
  rw [covered, covered, take_append_of_le_length inside]

/-- What cuts add of one kind of item, less what they take away. -/
def difference (p : α → Bool) (text : List α) (list : List (Cut α)) : Int :=
  (list.map fun cut => (cut.insert.countP p - (covered text cut).countP p : Int)).sum

theorem difference_append (p : α → Bool) (text : List α) (first second : List (Cut α)) :
    difference p text (first ++ second) = difference p text first + difference p text second := by
  rw [difference, map_append, sum_append]
  rfl

theorem difference_prefix {p : α → Bool} {text : List α} {list : List (Cut α)}
    (inside : ∀ cut ∈ list, cut.stop ≤ text.length) (back : List α) :
    difference p (text ++ back) list = difference p text list := by
  unfold difference
  congr 1
  apply map_congr_left
  intro cut member
  rw [covered_append (inside cut member)]

/-- Over all cuts that is the difference of the two sequences. -/
theorem difference_cuts (p : α → Bool) (front : List α) (pieces : List (Piece α)) (tail : List α) :
    difference p (front ++ before pieces tail) (cuts front.length pieces) =
      (after pieces tail).countP p - (before pieces tail).countP p := by
  induction pieces generalizing front with
  | nil =>
    rw [after_nil, before_nil, Int.sub_self]
    rfl
  | cons piece rest ih =>
    have whole : front ++ before (piece :: rest) tail =
        (front ++ piece.gap ++ piece.removed) ++ before rest tail := by
      rw [before_cons]
      simp only [append_assoc]
    have size : (front ++ piece.gap ++ piece.removed).length = front.length + piece.gap.length +
        piece.removed.length := by
      rw [length_append, length_append]
    have removed : covered (front ++ before (piece :: rest) tail)
        ⟨front.length + piece.gap.length, front.length + piece.gap.length + piece.removed.length,
        piece.inserted⟩ =
          piece.removed := by
      have start : front.length + piece.gap.length = (front ++ piece.gap).length :=
        (length_append ..).symm
      rw [covered]
      simp only
      rw [← size, whole, take_left, start, drop_left]
    have later := ih (front ++ piece.gap ++ piece.removed)
    rw [size, ← whole] at later
    unfold difference at later ⊢
    rw [cuts, map_cons, sum_cons, removed, later, after_cons, before_cons]
    simp only [countP_append]
    omega

/-- Up to a kept item the cuts make up the difference of what stands before it on either side. -/
theorem difference_kept {p : α → Bool} {place : Nat} {early rest : List (Piece α)}
    {gap front back : List α} {list : List (Cut α)}
    (split : list = cuts front.length early ++ cuts (place + 1) rest)
    (at_place : front.length + (before early gap).length = place)
    (stops : ∀ cut ∈ cuts front.length early, cut.stop ≤ place) :
    difference p (front ++ before early gap ++ back) (list.filter (·.stop ≤ place)) =
      (after early gap).countP p - (before early gap).countP p := by
  have kept : (cuts front.length early).filter (·.stop ≤ place) = cuts front.length early :=
    filter_eq_self.mpr fun cut member => decide_eq_true (stops cut member)
  have gone : (cuts (place + 1) rest).filter (·.stop ≤ place) = [] := by
    apply filter_eq_nil_iff.mpr
    intro cut member
    obtain ⟨low, order⟩ := le_of_mem_cuts member
    rw [decide_eq_true_eq]
    omega
  rw [split, filter_append, kept, gone, append_nil, difference_prefix, difference_cuts]
  intro cut member
  rw [length_append, at_place]
  exact stops cut member

end ForgeNode.Splice
