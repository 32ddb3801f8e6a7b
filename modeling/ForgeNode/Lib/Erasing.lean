import Mathlib.Data.List.Infix
import Mathlib.Logic.Relation

/-! Erasing a mark that does not overlap itself: a machine that appends one item at a time and takes
back a mark that it just completed leaves what is left after erasing marks in any order. -/

namespace ForgeNode.Erasing

open List

universe u
variable {α : Type u} [DecidableEq α] (mark : List α)

/-- Append an item and take back the mark it completes. -/
def push (out : List α) (item : α) : List α :=
  if mark.isSuffixOf (out ++ [item]) then (out ++ [item]).take ((out ++ [item]).length - mark.length)
  else out ++ [item]

/-- One mark erased, wherever it stands. -/
def Erases (first second : List α) : Prop :=
  ∃ front back, first = front ++ mark ++ back ∧ second = front ++ back

/-- No proper part of the mark both starts it and ends it. -/
structure Unbordered : Prop where
  some : mark ≠ []
  border : ∀ part, part <+: mark → part <:+ mark → part = [] ∨ part = mark

/-- What the machine starts from shares nothing with the mark. -/
def Clear (start : List α) : Prop := ∀ part, part <:+ start → part <+: mark → part = []

variable {mark} {out start : List α} {item : α}

theorem push_of_suffix (ends : out ++ [item] = start ++ mark) : push mark out item = start := by
  unfold push
  rw [if_pos (isSuffixOf_iff_suffix.mpr ⟨start, ends.symm⟩), ends, length_append, Nat.add_sub_cancel,
    take_left]

theorem push_of_not (other : ¬mark <:+ out ++ [item]) : push mark out item = out ++ [item] := by
  unfold push
  rw [if_neg]
  rwa [isSuffixOf_iff_suffix]

/-- A mark never stays in what the machine has put out. -/
theorem push_clean (unbordered : Unbordered mark) (clean : ¬mark <:+: out) :
    ¬mark <:+: push mark out item := by
  by_cases ends : mark <:+ out ++ [item]
  · obtain ⟨front, whole⟩ := ends
    rw [push_of_suffix whole.symm]
    intro inside
    apply clean
    have within : front <+: out := by
      apply prefix_of_prefix_length_le (prefix_append front mark)
        (whole ▸ prefix_append out [item])
      have size := congrArg List.length whole
      have some_ := length_pos_iff.mpr unbordered.some
      rw [length_append, length_append, length_singleton] at size
      omega
    exact inside.trans within.isInfix
  · rw [push_of_not ends, infix_concat_iff]
    rintro (suffix | inside)
    · exact ends suffix
    · exact clean inside

theorem foldl_clean (unbordered : Unbordered mark) (clean : ¬mark <:+: out) (items : List α) :
    ¬mark <:+: items.foldl (push mark) out := by
  induction items generalizing out with
  | nil => exact clean
  | cons item rest ih => exact ih (push_clean unbordered clean)

omit [DecidableEq α] in
/-- A part of the mark behind clean output completes no mark. -/
theorem no_suffix (unbordered : Unbordered mark) (clean : ¬mark <:+: out) {part : List α}
    (starts : part <+: mark) (proper : part ≠ mark) : ¬mark <:+ out ++ part := by
  intro ends
  have shorter := starts.length_le
  have border : part <:+ mark :=
    suffix_of_suffix_length_le (suffix_append out part) ends shorter
  rcases unbordered.border part starts border with nothing | whole
  · rw [nothing, append_nil] at ends
    exact clean ends.isInfix
  · exact proper whole

theorem foldl_part (unbordered : Unbordered mark) (clean : ¬mark <:+: out) {part rest : List α}
    (split : part ++ rest = mark) (some_ : rest ≠ []) :
    part.foldl (push mark) out = out ++ part := by
  induction part using List.reverseRecOn generalizing rest with
  | nil => exact (append_nil out).symm
  | append_singleton part item ih =>
    have split' : part ++ item :: rest = mark := by
      rw [← split, append_assoc]
      rfl
    rw [foldl_append, ih split' (cons_ne_nil _ _), foldl_cons, foldl_nil, push_of_not]
    · exact append_assoc _ _ _
    · rw [append_assoc]
      apply no_suffix unbordered clean ⟨rest, split⟩
      intro whole
      rw [whole] at split
      exact some_ (append_right_eq_self.mp split)

/-- The machine reads a mark for nothing. -/
theorem foldl_mark (unbordered : Unbordered mark) (clean : ¬mark <:+: out) :
    mark.foldl (push mark) out = out := by
  obtain ⟨front, last, whole⟩ := eq_nil_or_concat mark |>.resolve_left unbordered.some
  rw [concat_eq_append] at whole
  have before := foldl_part unbordered clean whole.symm (cons_ne_nil last [])
  have step : (front ++ [last]).foldl (push mark) out = push mark (front.foldl (push mark) out)
      last := by
    rw [foldl_append]
    rfl
  have same : mark.foldl (push mark) out = (front ++ [last]).foldl (push mark) out := congrArg _ whole
  rw [same, step, before]
  apply push_of_suffix
  rw [append_assoc, ← whole]

theorem foldl_erases (unbordered : Unbordered mark) (clean : ¬mark <:+: out) {first second : List α}
    (erases : Erases mark first second) :
    first.foldl (push mark) out = second.foldl (push mark) out := by
  obtain ⟨front, back, rfl, rfl⟩ := erases
  rw [append_assoc, foldl_append, foldl_append, foldl_append,
    foldl_mark unbordered (foldl_clean unbordered clean front)]

/-- Without a mark the machine copies. -/
theorem foldl_free {items : List α} (free : ¬mark <:+: out ++ items) :
    items.foldl (push mark) out = out ++ items := by
  induction items generalizing out with
  | nil => exact (append_nil out).symm
  | cons item rest ih =>
    have whole : out ++ item :: rest = out ++ [item] ++ rest := by
      rw [append_assoc]
      rfl
    rw [whole] at free
    have other : ¬mark <:+ out ++ [item] := fun ends =>
      free (ends.isInfix.trans (prefix_append _ rest).isInfix)
    rw [foldl_cons, push_of_not other, ih free, whole]

theorem foldl_erased (unbordered : Unbordered mark) {items left : List α}
    (erased : Relation.ReflTransGen (Erases mark) items left) :
    items.foldl (push mark) [] = left.foldl (push mark) [] := by
  have clean : ¬mark <:+: [] := fun inside => unbordered.some (infix_nil.mp inside)
  induction erased with
  | refl => rfl
  | tail _ step ih => exact ih.trans (foldl_erases unbordered clean step)

theorem erased_eq (unbordered : Unbordered mark) {items left : List α}
    (erased : Relation.ReflTransGen (Erases mark) items left) (free : ¬mark <:+: left) :
    items.foldl (push mark) [] = left := by
  rw [foldl_erased unbordered erased]
  exact foldl_free free

/-- The machine itself erases marks one by one. -/
theorem erases_foldl (items : List α) :
    Relation.ReflTransGen (Erases mark) (out ++ items) (items.foldl (push mark) out) := by
  induction items generalizing out with
  | nil => rw [append_nil]; exact .refl
  | cons item rest ih =>
    have whole : out ++ item :: rest = out ++ [item] ++ rest := by
      rw [append_assoc]
      rfl
    by_cases ends : mark <:+ out ++ [item]
    · obtain ⟨front, same⟩ := ends
      rw [whole, foldl_cons, push_of_suffix same.symm, ← same]
      exact .head ⟨front, rest, rfl, rfl⟩ ih
    · rw [whole, foldl_cons, push_of_not ends]
      exact ih

/-- What the machine starts from stays where it is. -/
theorem foldl_clear (clear : Clear mark start) (items : List α) :
    items.foldl (push mark) (start ++ out) = start ++ items.foldl (push mark) out := by
  induction items generalizing out with
  | nil => rfl
  | cons item rest ih =>
    have step : push mark (start ++ out) item = start ++ push mark out item := by
      by_cases ends : mark <:+ out ++ [item]
      · obtain ⟨front, same⟩ := ends
        rw [push_of_suffix same.symm]
        apply push_of_suffix
        rw [append_assoc, append_assoc, ← same]
      · rw [push_of_not ends, push_of_not, append_assoc]
        intro longer
        rw [append_assoc] at longer
        rcases suffix_or_suffix_of_suffix longer
          (suffix_append start (out ++ [item])) with short | long
        · exact ends short
        · obtain ⟨part, split⟩ := long
          have tail : part <:+ start := by
            rw [← split] at longer
            obtain ⟨front, whole⟩ := longer
            rw [← append_assoc] at whole
            exact ⟨front, append_cancel_right whole⟩
          have nothing := clear part tail ⟨_, split⟩
          rw [nothing, nil_append] at split
          exact ends ⟨[], split.symm⟩
    rw [foldl_cons, foldl_cons, step, ih]

omit [DecidableEq α] in
/-- Behind clean text a mark stands at the end and nowhere else. -/
theorem last_only (unbordered : Unbordered mark) (clean : ¬mark <:+: out) {front back : List α}
    (whole : out ++ mark = front ++ mark ++ back) : back = [] := by
  rcases append_eq_append_iff.mp whole with ⟨rest, more, split⟩ | ⟨rest, more, split⟩
  · have ends : rest <:+ mark := by
      apply suffix_of_suffix_length_le (suffix_append out rest)
        (more ▸ suffix_append front mark)
      rw [split, length_append]
      exact Nat.le_add_right _ _
    rcases unbordered.border rest ⟨back, split.symm⟩ ends with nothing | same
    · rw [nothing, append_nil] at more
      exact absurd ⟨front, [], by rw [append_nil, more]⟩ clean
    · rw [same] at split
      exact append_right_eq_self.mp split.symm
  · exact absurd ⟨front, rest, more.symm⟩ clean

end ForgeNode.Erasing
