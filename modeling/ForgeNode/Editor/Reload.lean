import ForgeNode.Editor.Replay

/-! The span a clean reload replaces: between a common prefix and a common suffix,
on boundaries of both texts. -/

namespace ForgeNode.Editor.ReloadSpan

open List Utf8

private theorem common_take (left right : List UInt8) :
    left.take (common left right) = right.take (common left right) := by
  induction left generalizing right with
  | nil => cases right <;> rfl
  | cons first left ih =>
    cases right with
    | nil => rfl
    | cons second right =>
      unfold common
      split
      · rename_i same
        rw [take_succ_cons, take_succ_cons, ih right, eq_of_beq same]
      · rfl

private theorem common_le (left right : List UInt8) :
    common left right ≤ left.length ∧ common left right ≤ right.length := by
  induction left generalizing right with
  | nil => exact ⟨Nat.zero_le _, Nat.zero_le _⟩
  | cons first left ih =>
    cases right with
    | nil => exact ⟨Nat.zero_le _, Nat.zero_le _⟩
    | cons second right =>
      unfold common
      have bound := ih right
      split
      · exact ⟨Nat.succ_le_succ bound.1, Nat.succ_le_succ bound.2⟩
      · exact ⟨Nat.zero_le _, Nat.zero_le _⟩

private theorem take_eq_of_le {left right : List UInt8} {count fewer : Nat}
    (same : left.take count = right.take count) (order : fewer ≤ count) :
    left.take fewer = right.take fewer := by
  have shorter := congrArg (List.take fewer) same
  rwa [take_take, take_take, Nat.min_eq_left order] at shorter

private theorem common_drop (left right : List UInt8) :
    left.drop (left.length - common left.reverse right.reverse) =
      right.drop (right.length - common left.reverse right.reverse) := by
  have same := congrArg List.reverse (common_take left.reverse right.reverse)
  rwa [reverse_take, reverse_take, reverse_reverse, reverse_reverse,
    length_reverse, length_reverse] at same

private theorem retreat_le (old text : Str) (start : Nat) : retreat old text start ≤ start := by
  induction start with
  | zero => exact Nat.le_refl 0
  | succ start ih =>
    unfold retreat
    split
    · exact Nat.le_refl _
    · exact Nat.le_succ_of_le ih

private theorem retreat_onBoundaries (old text : Str) (start : Nat) :
    onBoundaries old text (retreat old text start) (retreat old text start) = true := by
  induction start with
  | zero => rfl
  | succ start ih =>
    unfold retreat
    split
    · assumption
    · exact ih

/-- The ends move together and stop on boundaries, at the ends of the texts at the latest. -/
private theorem advance_spec (old text : Str) (suffix oldEnd newEnd : Nat)
    (oldLast : oldEnd + suffix = old.len) (newLast : newEnd + suffix = text.len) :
    ∃ moved ≤ suffix, advance old text suffix oldEnd newEnd = (oldEnd + moved, newEnd + moved) ∧
      onBoundaries old text (oldEnd + moved) (newEnd + moved) = true := by
  induction suffix generalizing oldEnd newEnd with
  | zero =>
    refine ⟨0, Nat.le_refl 0, rfl, ?_⟩
    rw [Nat.add_zero] at oldLast newLast
    rw [Nat.add_zero, Nat.add_zero, oldLast, newLast]
    exact Bool.and_eq_true_iff.mpr ⟨isCharBoundary_length _, isCharBoundary_length _⟩
  | succ suffix ih =>
    unfold advance
    split
    · rename_i reached
      exact ⟨0, Nat.zero_le _, rfl, reached⟩
    · obtain ⟨moved, bound, result, reached⟩ :=
        ih (oldEnd + 1) (newEnd + 1) (by omega) (by omega)
      refine ⟨moved + 1, Nat.succ_le_succ bound, ?_, ?_⟩
      · rw [result, Nat.add_right_comm oldEnd, Nat.add_right_comm newEnd]
        rfl
      · rw [Nat.add_right_comm oldEnd, Nat.add_right_comm newEnd] at reached
        exact reached

private theorem boundaries_of (reached : onBoundaries old text oldAt newAt = true)
    (oldInside : oldAt ≤ old.len) (newInside : newAt ≤ text.len) :
    old.IsBoundary oldAt ∧ text.IsBoundary newAt := by
  obtain ⟨first, second⟩ := Bool.and_eq_true_iff.mp reached
  exact ⟨⟨oldInside, first⟩, ⟨newInside, second⟩⟩

/-- The span never splits a character, and replacing it gives the other text. -/
theorem between_spec (old text : Str) :
    ∃ insert, text.get? (between old text).start (between old text).newEnd = some insert ∧
      (between old text).start ≤ (between old text).oldEnd ∧
      old.IsBoundary (between old text).start ∧ old.IsBoundary (between old text).oldEnd ∧
      old.bytes.take (between old text).start ++
        (insert.bytes ++ old.bytes.drop (between old text).oldEnd) = text.bytes := by
  have start_le := retreat_le old text (common old.bytes text.bytes)
  have common_bound := common_le old.bytes text.bytes
  have prefixes := take_eq_of_le (common_take old.bytes text.bytes) start_le
  have startReached := retreat_onBoundaries old text (common old.bytes text.bytes)
  unfold between
  simp only
  generalize retreat old text (common old.bytes text.bytes) = start at *
  have suffixes := common_drop (old.bytes.drop start) (text.bytes.drop start)
  have suffix_bound := common_le (old.bytes.drop start).reverse (text.bytes.drop start).reverse
  generalize common (old.bytes.drop start).reverse (text.bytes.drop start).reverse = suffix at *
  simp only [length_reverse, List.length_drop, Str.length_bytes] at suffix_bound common_bound
  obtain ⟨moved, bound, result, endReached⟩ := advance_spec old text suffix
    (old.len - suffix) (text.len - suffix) (by omega) (by omega)
  obtain ⟨oldStart, newStart⟩ := boundaries_of startReached (by omega) (by omega)
  obtain ⟨oldEnd, newEnd⟩ := boundaries_of endReached (by omega) (by omega)
  have order : start ≤ text.len - suffix + moved := by omega
  have tails : old.bytes.drop (old.len - suffix + moved) =
      text.bytes.drop (text.len - suffix + moved) := by
    simp only [List.length_drop, Str.length_bytes, drop_drop] at suffixes
    have oldAt : start + (old.len - start - suffix) = old.len - suffix := by omega
    have newAt : start + (text.len - start - suffix) = text.len - suffix := by omega
    rw [oldAt, newAt] at suffixes
    rw [← drop_drop, ← drop_drop, suffixes]
  rw [result]
  refine ⟨text.slice start (text.len - suffix + moved) newStart newEnd,
    dif_pos ⟨newStart, newEnd, order⟩, by simp only; omega, oldStart, oldEnd, ?_⟩
  simp only [tails, prefixes, Str.slice]
  have rejoined : text.bytes.take start = (text.bytes.take (text.len - suffix + moved)).take
      start := by
    rw [take_take, Nat.min_eq_left order]
  rw [← append_assoc, rejoined, take_append_drop, take_append_drop]

end ForgeNode.Editor.ReloadSpan
