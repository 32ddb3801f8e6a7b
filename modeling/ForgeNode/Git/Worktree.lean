import ForgeNode.Lib.Chars
import Mathlib.Data.Finset.Card
import Mathlib.Data.List.DropRight
import Mathlib.Order.Interval.Finset.Nat

/-! Names of managed worktrees: a slug of the branch, and a numbered one where that is taken. -/

namespace ForgeNode.Worktree

open List
open Utf8 (encode)

abbrev Name := List Char

def maxSlugLen : Nat := 64

/-- `"worktree"`. -/
def fallbackSlug : Name := ['w', 'o', 'r', 'k', 't', 'r', 'e', 'e']

/-- `[A-Za-z0-9._-]`. -/
def isSlugChar (c : Char) : Bool := c.isAlphanum || c == '.' || c == '_' || c == '-'

def mapped (c : Char) : Char := if c == '/' then '-' else if isSlugChar c then c else '-'

/-- The loop of `slugify` over the branch's characters. -/
def collect : Bool → Name → List Char → Name
  | _, out, [] => out
  | prevDash, out, c :: rest =>
    let c := mapped c
    if c == '-' && prevDash then collect true out rest
    else
      let out := out ++ [c]
      if out.length ≥ maxSlugLen then out else collect (c == '-') out rest

def slugify (branch : List Char) : Name :=
  let out := collect false [] branch
  if out = [] ∨ out = ['.'] ∨ out = ['.', '.'] then fallbackSlug else out

/-- `-2`, `-3`, and so on. -/
def suffix (n : Nat) : Name := '-' :: Nat.toDigits 10 n

/-- The base cut to make room for the suffix, without dashes at its end. -/
def candidate (base : Name) (n : Nat) : Name :=
  let keep := maxSlugLen - (suffix n).length
  let stem := (base.take keep).rdropWhile (· == '-')
  (if stem.isEmpty then fallbackSlug else stem) ++ suffix n

/-- The first free numbered name; none where the `u32` runs over. -/
def numbered (existing : Finset Name) (base : Name) (n : Nat) : Option Name :=
  if candidate base n ∉ existing then some (candidate base n)
  else if n + 1 < 2 ^ 32 then numbered existing base (n + 1)
  else none
termination_by 2 ^ 32 - n

def uniqueSlug (existing : Finset Name) (branch : List Char) : Option Name :=
  if slugify branch ∉ existing then some (slugify branch) else numbered existing (slugify branch) 2

/-- What a worktree's directory may be called. -/
structure Legal (name : Name) : Prop where
  some_ : name ≠ []
  short : (encode name).length ≤ maxSlugLen
  chars : ∀ c ∈ name, isSlugChar c = true
  dot : name ≠ ['.']
  dots : name ≠ ['.', '.']

section Slugs

theorem mapped_isSlugChar (c : Char) : isSlugChar (mapped c) = true := by
  unfold mapped
  split
  · rfl
  split
  · rename_i slug
    exact slug
  · rfl

theorem collect_chars {prevDash : Bool} {out : Name} {rest : List Char}
    (clean : ∀ c ∈ out, isSlugChar c = true) :
    ∀ c ∈ collect prevDash out rest, isSlugChar c = true := by
  induction rest generalizing prevDash out with
  | nil => exact clean
  | cons first rest ih =>
    have longer : ∀ c ∈ out ++ [mapped first], isSlugChar c = true := by
      intro c member
      rcases mem_append.mp member with own | last
      · exact clean c own
      · rw [mem_singleton.mp last]
        exact mapped_isSlugChar first
    unfold collect
    simp only
    split
    · exact ih clean
    split
    · exact longer
    · exact ih longer

theorem collect_length {prevDash : Bool} {out : Name} {rest : List Char}
    (short : out.length < maxSlugLen) : (collect prevDash out rest).length ≤ maxSlugLen := by
  induction rest generalizing prevDash out with
  | nil => exact Nat.le_of_lt short
  | cons first rest ih =>
    have size : (out ++ [mapped first]).length = out.length + 1 := by
      rw [length_append, length_singleton]
    unfold collect
    simp only
    split
    · exact ih short
    split
    · rw [size]
      exact short
    · rename_i more
      exact ih (Nat.lt_of_not_le more)

/-- A character of a slug takes one byte. -/
theorem encode_length {name : Name} (chars : ∀ c ∈ name, isSlugChar c = true) :
    (encode name).length = name.length := by
  induction name with
  | nil => rfl
  | cons c rest ih =>
    have low : c.val ≤ 127 := by
      have slug : (decide (c.val ≥ 65 ∧ c.val ≤ 90) || (c.val ≥ 97 && c.val ≤ 122) ||
          (c.val ≥ 48 && c.val ≤ 57) || c == '.' || c == '_' || c == '-') = true :=
        chars c mem_cons_self
      simp only [Bool.or_eq_true, Bool.and_eq_true, decide_eq_true_eq, beq_iff_eq,
        UInt32.le_iff_toNat_le] at slug
      rcases slug with ((((upper | lower) | digit) | rfl) | rfl) | rfl
      · exact UInt32.le_iff_toNat_le.mpr (Nat.le_trans upper.2 (by decide))
      · exact UInt32.le_iff_toNat_le.mpr (Nat.le_trans lower.2 (by decide))
      · exact UInt32.le_iff_toNat_le.mpr (Nat.le_trans digit.2 (by decide))
      · decide
      · decide
      · decide
    have one : (String.utf8EncodeChar c).length = 1 := by
      rw [String.length_utf8EncodeChar]
      exact Char.utf8Size_eq_one_iff.mpr low
    rw [Utf8.encode_cons, length_append, one, ih fun other member =>
      chars other (mem_cons_of_mem _ member), length_cons, Nat.add_comm]

theorem legal_slugify (branch : List Char) : Legal (slugify branch) := by
  unfold slugify
  simp only
  split
  · exact ⟨cons_ne_nil _ _, by decide, all_eq_true.mp (by decide), by decide, by decide⟩
  · rename_i other
    have chars : ∀ c ∈ collect false [] branch, isSlugChar c = true :=
      collect_chars fun c member => (not_mem_nil member).elim
    refine ⟨fun nothing => other (.inl nothing), ?_, chars, fun dot => other (.inr (.inl dot)),
      fun dots => other (.inr (.inr dots))⟩
    rw [encode_length chars]
    exact collect_length (by decide)

end Slugs

section Candidates

theorem suffix_isSlugChar (n : Nat) : ∀ c ∈ suffix n, isSlugChar c = true := by
  intro c member
  rcases mem_cons.mp member with rfl | digit
  · rfl
  · have isDigit := Nat.isDigit_of_mem_toDigits (by decide) (by decide) digit
    simp [isSlugChar, Char.isAlphanum, isDigit]

theorem suffix_length {n : Nat} (bound : n < 2 ^ 32) : (suffix n).length ≤ 11 := by
  have digits : (Nat.toDigits 10 n).length ≤ 10 :=
    (Nat.length_toDigits_le_iff (by decide) (by decide)).mpr (Nat.lt_of_lt_of_le bound (by decide))
  exact Nat.succ_le_succ digits

/-- The number of a candidate is what stands behind its last dash. -/
theorem candidate_injective (base : Name) {first second : Nat}
    (same : candidate base first = candidate base second) :
    first = second := by
  have number (stem : Name) (n : Nat) :
      ((stem ++ suffix n).reverse.takeWhile (· != '-')).reverse = Nat.toDigits 10 n := by
    have digits : ∀ c ∈ (Nat.toDigits 10 n).reverse, (c != '-') = true := by
      intro c member
      have isDigit := Nat.isDigit_of_mem_toDigits (by decide) (by decide) (mem_reverse.mp member)
      apply bne_iff_ne.mpr
      rintro rfl
      cases isDigit
    rw [suffix, reverse_append, reverse_cons, append_assoc, takeWhile_append_of_pos digits,
      singleton_append, takeWhile_cons_of_neg (by decide), append_nil, reverse_reverse]
  have digits := (number _ first).symm.trans ((congrArg (fun name =>
    (name.reverse.takeWhile (· != '-')).reverse) same).trans (number _ second))
  rw [← Nat.ofDigitChars_ten_toDigits (n := first), digits, Nat.ofDigitChars_ten_toDigits]

theorem legal_candidate {base : Name} (legal : Legal base) {n : Nat} (bound : n < 2 ^ 32) :
    Legal (candidate base n) := by
  have tail := suffix_length bound
  have cap : maxSlugLen = 64 := rfl
  have dash : '-' ∈ candidate base n := mem_append_right _ mem_cons_self
  have chars : ∀ c ∈ candidate base n, isSlugChar c = true := by
    intro c member
    rcases mem_append.mp member with stem | number
    · split at stem
      · exact all_eq_true.mp (by decide : fallbackSlug.all isSlugChar = true) c stem
      · exact legal.chars c (mem_of_mem_take ((List.rdropWhile_prefix _ _).subset stem))
    · exact suffix_isSlugChar n c number
  refine ⟨ne_nil_of_mem dash, ?_, chars, ?_, ?_⟩
  · rw [encode_length chars, candidate, length_append]
    have stem := (List.rdropWhile_prefix (· == '-') (base.take (maxSlugLen - (suffix n).length))).length_le
    rw [length_take] at stem
    split
    · have size : fallbackSlug.length = 8 := rfl
      omega
    · omega
  · intro dot
    rw [dot] at dash
    exact absurd dash (by decide)
  · intro dots
    rw [dots] at dash
    exact absurd dash (by decide)

end Candidates

section Numbered

variable {existing : Finset Name} {base : Name}

theorem numbered_some {n : Nat} (bound : n < 2 ^ 32) {name : Name}
    (found : numbered existing base n = some name) :
    name ∉ existing ∧ ∃ m, m < 2 ^ 32 ∧ name = candidate base m := by
  induction n using numbered.induct existing base with
  | case1 n free =>
    rw [numbered, if_pos free] at found
    obtain rfl := Option.some.inj found
    exact ⟨free, n, bound, rfl⟩
  | case2 n taken more ih =>
    rw [numbered, if_neg taken, if_pos more] at found
    exact ih more found
  | case3 n taken last =>
    rw [numbered, if_neg taken, if_neg last] at found
    cases found

/-- The loop runs over only where every candidate from its start on is taken. -/
theorem numbered_none {n : Nat} (over_ : numbered existing base n = none) :
    ∀ m, n ≤ m → m < 2 ^ 32 → candidate base m ∈ existing := by
  induction n using numbered.induct existing base with
  | case1 n free =>
    rw [numbered, if_pos free] at over_
    cases over_
  | case2 n taken more ih =>
    rw [numbered, if_neg taken, if_pos more] at over_
    intro m from_ bound
    rcases Nat.eq_or_lt_of_le from_ with rfl | later
    · exact not_not.mp taken
    · exact ih over_ m later bound
  | case3 n taken last =>
    intro m from_ bound
    obtain rfl : m = n := by omega
    exact not_not.mp taken

theorem exists_numbered (few : existing.card < 2 ^ 32 - 2) :
    ∃ name, numbered existing base 2 = some name := by
  cases found : numbered existing base 2 with
  | some name => exact ⟨name, rfl⟩
  | none =>
    have all := numbered_none found
    have inside : (Finset.Ico 2 (2 ^ 32)).image (candidate base) ⊆ existing := by
      intro name member
      obtain ⟨m, between, rfl⟩ := Finset.mem_image.mp member
      obtain ⟨low, high⟩ := Finset.mem_Ico.mp between
      exact all m low high
    have count := Finset.card_le_card inside
    rw [Finset.card_image_of_injective _ fun _ _ => candidate_injective base, Nat.card_Ico] at count
    exact absurd few (Nat.not_lt.mpr count)

end Numbered

/-- A branch gets a legal name that is free, its own slug where that is free. -/
theorem uniqueSlug_legal (branch : List Char) {existing : Finset Name}
    (few : existing.card < 2 ^ 32 - 2) : ∃ name, uniqueSlug existing branch = some name ∧
    name ∉ existing ∧ Legal name ∧
      (slugify branch ∉ existing → name = slugify branch) := by
  have legal := legal_slugify branch
  unfold uniqueSlug
  split
  · rename_i free
    exact ⟨_, rfl, free, legal, fun _ => rfl⟩
  · rename_i taken
    obtain ⟨name, found⟩ := @exists_numbered existing (slugify branch) few
    obtain ⟨free, m, bound, same⟩ := numbered_some (by decide) found
    refine ⟨name, found, free, ?_, fun own => absurd own taken⟩
    rw [same]
    exact legal_candidate legal bound

theorem uniqueSlug_legal_taken :
    ∃ name, uniqueSlug {['a', '-', 'b']} ['a', '/', '/', 'b'] = some name ∧
    name ∉ ({['a', '-', 'b']} : Finset Name) ∧ Legal name ∧
      (slugify ['a', '/', '/', 'b'] ∉ ({['a', '-', 'b']} : Finset Name) →
      name = slugify ['a', '/', '/', 'b']) :=
  uniqueSlug_legal ['a', '/', '/', 'b'] (by rw [Finset.card_singleton]; decide)

end ForgeNode.Worktree
