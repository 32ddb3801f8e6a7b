import Mathlib.Data.List.Basic

/-! UTF-8 byte strings and their character boundaries. Offsets are byte offsets;
a boundary is the only place where a string may be cut. -/

namespace ForgeNode.Utf8

open List

/-- A byte that continues a multi-byte character, `10xxxxxx`. -/
def isContinuation (byte : UInt8) : Bool := 0x80 ≤ byte && byte < 0xC0

/-- Bytes that are the encoding of some character sequence. -/
inductive Valid : List UInt8 → Prop where
  | nil : Valid []
  | char (c : Char) (valid : Valid rest) : Valid (String.utf8EncodeChar c ++ rest)

/-- `str::is_char_boundary`. -/
def isCharBoundary (bytes : List UInt8) (index : Nat) : Bool :=
  if index = 0 then true
  else match bytes[index]? with
    | none => index == bytes.length
    | some byte => !isContinuation byte

private theorem isContinuation_ofNat_low {n : Nat} (low : n < 0x40) :
    isContinuation (UInt8.ofNat (n + 0x80)) = true := by
  have small : (n + 0x80) % 256 = n + 0x80 := Nat.mod_eq_of_lt (by omega)
  simp only [isContinuation, Bool.and_eq_true, decide_eq_true_eq, UInt8.le_iff_toNat_le,
    UInt8.lt_iff_toNat_lt, UInt8.toNat_ofNat', Nat.reducePow, small]
  constructor
  · change 128 ≤ n + 0x80
    omega
  · change n + 0x80 < 192
    omega

private theorem isContinuation_ofNat_ascii {n : Nat} (ascii : n ≤ 0x7f) :
    isContinuation (UInt8.ofNat n) = false := by
  have small : n % 256 = n := Nat.mod_eq_of_lt (by omega)
  simp only [isContinuation, Bool.and_eq_false_iff, decide_eq_false_iff_not,
    UInt8.le_iff_toNat_le, UInt8.toNat_ofNat', Nat.reducePow, small]
  left
  change ¬ 128 ≤ n
  omega

private theorem isContinuation_ofNat_lead {n : Nat} (lead : 0xC0 ≤ n) (byte : n < 256) :
    isContinuation (UInt8.ofNat n) = false := by
  have small : n % 256 = n := Nat.mod_eq_of_lt byte
  simp only [isContinuation, Bool.and_eq_false_iff, decide_eq_false_iff_not,
    UInt8.lt_iff_toNat_lt, UInt8.toNat_ofNat', Nat.reducePow, small]
  right
  change ¬ n < 192
  omega

/-- A character is one lead byte followed by continuation bytes. -/
theorem encodeChar_shape (c : Char) :
    ∃ lead tail, String.utf8EncodeChar c = lead :: tail ∧ isContinuation lead = false ∧
      ∀ byte ∈ tail, isContinuation byte = true := by
  unfold String.utf8EncodeChar
  simp only
  split
  · rename_i ascii
    exact ⟨_, _, rfl, isContinuation_ofNat_ascii ascii, by simp⟩
  split
  · refine ⟨_, _, rfl, isContinuation_ofNat_lead (by omega) (by omega), ?_⟩
    intro byte member
    rw [mem_singleton.mp member]
    exact isContinuation_ofNat_low (Nat.mod_lt _ (by decide))
  split
  · refine ⟨_, _, rfl, isContinuation_ofNat_lead (by omega) (by omega), ?_⟩
    intro byte member
    simp only [mem_cons, not_mem_nil, or_false] at member
    rcases member with rfl | rfl <;> exact isContinuation_ofNat_low (Nat.mod_lt _ (by decide))
  · refine ⟨_, _, rfl, isContinuation_ofNat_lead (by omega) (by omega), ?_⟩
    intro byte member
    simp only [mem_cons, not_mem_nil, or_false] at member
    rcases member with rfl | rfl | rfl <;>
      exact isContinuation_ofNat_low (Nat.mod_lt _ (by decide))

/-- A character that starts with an ASCII byte is that byte. -/
theorem encodeChar_ascii {c : Char} {lead : UInt8} {tail : List UInt8}
    (shape : String.utf8EncodeChar c = lead :: tail) (ascii : lead < 0x80) : tail = [] := by
  have high {n : Nat} (low : 0xC0 ≤ n) (byte : n < 256) : ¬UInt8.ofNat n < 0x80 := by
    rw [UInt8.lt_iff_toNat_lt, UInt8.toNat_ofNat', Nat.mod_eq_of_lt byte]
    change ¬n < 128
    omega
  unfold String.utf8EncodeChar at shape
  simp only at shape
  split at shape
  · exact (List.cons.inj shape).2.symm
  split at shape
  · obtain ⟨rfl, _⟩ := List.cons.inj shape
    exact absurd ascii (high (by omega) (by omega))
  split at shape
  · obtain ⟨rfl, _⟩ := List.cons.inj shape
    exact absurd ascii (high (by omega) (by omega))
  · obtain ⟨rfl, _⟩ := List.cons.inj shape
    exact absurd ascii (high (by omega) (by omega))

/-- The bytes do not start inside a character. -/
def StartsClean (bytes : List UInt8) : Prop :=
  ∀ byte ∈ bytes.head?, isContinuation byte = false

theorem Valid.startsClean (valid : Valid bytes) : StartsClean bytes := by
  cases valid with
  | nil => simp [StartsClean]
  | char c rest =>
    obtain ⟨lead, tail, shape, clean, _⟩ := encodeChar_shape c
    simp [StartsClean, shape, clean]

theorem Valid.append (left : Valid first) (right : Valid second) : Valid (first ++ second) := by
  induction left with
  | nil => exact right
  | char c _ ih =>
    rw [append_assoc]
    exact .char c ih

/-- What follows an ASCII byte is a string of its own. -/
theorem Valid.after_ascii {byte : UInt8} {rest : List UInt8} (valid : Valid (byte :: rest))
    (ascii : byte < 0x80) : Valid rest := by
  generalize whole : byte :: rest = bytes at valid
  cases valid with
  | nil => cases whole
  | @char others c valid =>
    obtain ⟨lead, tail, shape, _⟩ := encodeChar_shape c
    rw [shape] at whole
    obtain ⟨rfl, rfl⟩ := List.cons.inj whole
    rw [encodeChar_ascii shape ascii]
    exact valid

theorem startsClean_append {first second : List UInt8} (left : StartsClean first)
    (right : StartsClean second) : StartsClean (first ++ second) := by
  cases first with
  | nil => exact right
  | cons head tail => simpa [StartsClean] using left

/-- In a valid string the boundaries are the offsets where what follows starts clean. -/
theorem isCharBoundary_iff (valid : Valid bytes) (index : Nat) :
    isCharBoundary bytes index = true ↔
      index ≤ bytes.length ∧ StartsClean (bytes.drop index) := by
  unfold isCharBoundary
  split
  · rename_i zero
    subst zero
    simpa using valid.startsClean
  · rw [StartsClean, head?_drop]
    cases found : bytes[index]? with
    | none =>
      have beyond := List.getElem?_eq_none_iff.mp found
      simp only [beq_iff_eq, Option.mem_def, reduceCtorEq, false_implies, implies_true, and_true]
      omega
    | some byte =>
      obtain ⟨inside, _⟩ := List.getElem?_eq_some_iff.mp found
      simp only [Bool.not_eq_true', Option.mem_def, Option.some.injEq, forall_eq']
      constructor
      · intro clean
        exact ⟨by omega, clean⟩
      · intro clean
        exact clean.2

/-- An offset strictly inside a character is followed by a continuation byte. -/
private theorem not_startsClean_inside (c : Char) (rest : List UInt8) {index : Nat}
    (positive : index ≠ 0) (within : index < (String.utf8EncodeChar c).length) :
    ¬ StartsClean (List.drop index (String.utf8EncodeChar c) ++ rest) := by
  obtain ⟨lead, tail, shape, _, continued⟩ := encodeChar_shape c
  obtain ⟨before, rfl⟩ := Nat.exists_eq_succ_of_ne_zero positive
  have inside : before < tail.length := by
    rw [shape, length_cons] at within
    omega
  intro clean
  have first : (List.drop (before + 1) (String.utf8EncodeChar c) ++ rest).head? =
      some tail[before] := by
    rw [shape, drop_succ_cons, head?_append, head?_drop,
      getElem?_eq_getElem inside]
    rfl
  have start := clean tail[before] first
  rw [continued _ (getElem_mem inside)] at start
  exact Bool.noConfusion start

/-- Cutting a valid string at a clean offset leaves two valid strings. -/
theorem Valid.split (valid : Valid bytes) (index : Nat) (inside : index ≤ bytes.length)
    (clean : StartsClean (bytes.drop index)) :
    Valid (bytes.take index) ∧ Valid (bytes.drop index) := by
  induction valid generalizing index with
  | nil => simpa using Valid.nil
  | @char rest c restValid ih =>
    by_cases zero : index = 0
    · subst zero
      exact ⟨by simpa using Valid.nil, by simpa using Valid.char c restValid⟩
    by_cases within : index < (String.utf8EncodeChar c).length
    · rw [drop_append_of_le_length (by omega)] at clean
      exact False.elim (not_startsClean_inside c rest zero within clean)
    · have beyond : (String.utf8EncodeChar c).length ≤ index := Nat.le_of_not_lt within
      have same : List.drop index (String.utf8EncodeChar c ++ rest) =
          rest.drop (index - (String.utf8EncodeChar c).length) := by
        rw [drop_append, drop_eq_nil_of_le beyond, nil_append]
      rw [same] at clean
      have bound : index - (String.utf8EncodeChar c).length ≤ rest.length := by
        rw [length_append] at inside
        omega
      obtain ⟨left, right⟩ := ih _ bound clean
      refine ⟨?_, by rw [same]; exact right⟩
      rw [take_append, take_of_length_le beyond]
      exact .char c left

/-- Round an offset down to a boundary. -/
def floorBoundary (bytes : List UInt8) : Nat → Nat
  | 0 => 0
  | index + 1 =>
    if isCharBoundary bytes (index + 1) then index + 1 else floorBoundary bytes index

theorem floorBoundary_isCharBoundary (bytes : List UInt8) (index : Nat) :
    isCharBoundary bytes (floorBoundary bytes index) = true := by
  induction index with
  | zero => rfl
  | succ index ih =>
    unfold floorBoundary
    split
    · assumption
    · exact ih

theorem floorBoundary_le (bytes : List UInt8) (index : Nat) :
    floorBoundary bytes index ≤ index := by
  induction index with
  | zero => exact Nat.le_refl 0
  | succ index ih =>
    unfold floorBoundary
    split
    · exact Nat.le_refl _
    · exact Nat.le_succ_of_le ih

theorem floorBoundary_mono (bytes : List UInt8) (order : first ≤ last) :
    floorBoundary bytes first ≤ floorBoundary bytes last := by
  induction last with
  | zero =>
    obtain rfl := Nat.le_zero.mp order
    exact Nat.le_refl _
  | succ last ih =>
    rcases Nat.le_succ_iff.mp order with below | same
    · have inner := ih below
      have bound := floorBoundary_le bytes first
      have step : floorBoundary bytes (last + 1) =
          if isCharBoundary bytes (last + 1) then last + 1 else floorBoundary bytes last := rfl
      rw [step]
      split
      · omega
      · exact inner
    · exact same ▸ Nat.le_refl _

theorem floorBoundary_of_isCharBoundary (boundary : isCharBoundary bytes index = true) :
    floorBoundary bytes index = index := by
  cases index with
  | zero => rfl
  | succ index => simp [floorBoundary, boundary]

theorem isCharBoundary_length (bytes : List UInt8) : isCharBoundary bytes bytes.length = true := by
  unfold isCharBoundary
  split
  · rfl
  · simp

/-- Round an offset up to a boundary, in at most `fuel` steps. -/
def ceilBoundary (bytes : List UInt8) : Nat → Nat → Nat
  | 0, index => index
  | fuel + 1, index =>
    if isCharBoundary bytes index then index else ceilBoundary bytes fuel (index + 1)

/-- The character that the bytes start with. -/
def firstChar : List UInt8 → Option Char
  | [] => none
  | lead :: rest =>
    let continued (count : Nat) (high : Nat) : Char :=
      .ofNat ((rest.take count).foldl (fun code byte => code * 64 + byte.toNat % 64) high)
    if lead < 0x80 then some (.ofNat lead.toNat)
    else if lead < 0xE0 then some (continued 1 (lead.toNat % 32))
    else if lead < 0xF0 then some (continued 2 (lead.toNat % 16))
    else some (continued 3 (lead.toNat % 8))

/-- Rust's `str`: bytes that are valid UTF-8. -/
@[ext] structure Str where
  bytes : List UInt8
  valid : Valid bytes
  deriving DecidableEq

namespace Str

def empty : Str := ⟨[], .nil⟩

theorem valid_ofChars (chars : List Char) : Valid (chars.flatMap String.utf8EncodeChar) := by
  induction chars with
  | nil => exact .nil
  | cons c rest ih => simpa only [flatMap_cons] using Valid.char c ih

def ofChars (chars : List Char) : Str := ⟨chars.flatMap String.utf8EncodeChar, valid_ofChars chars⟩

def len (s : Str) : Nat := s.bytes.length

def append (first second : Str) : Str :=
  ⟨first.bytes ++ second.bytes, first.valid.append second.valid⟩

instance : Append Str := ⟨append⟩

@[simp] theorem bytes_append (first second : Str) :
    (first ++ second).bytes = first.bytes ++ second.bytes := rfl

@[simp] theorem len_append (first second : Str) : (first ++ second).len = first.len + second.len :=
  length_append

@[simp] theorem length_bytes (s : Str) : s.bytes.length = s.len := rfl

/-- An offset at which the string may be cut. -/
def IsBoundary (s : Str) (index : Nat) : Prop :=
  index ≤ s.len ∧ isCharBoundary s.bytes index = true

instance (s : Str) (index : Nat) : Decidable (s.IsBoundary index) :=
  inferInstanceAs (Decidable (_ ∧ _))

theorem IsBoundary.clean {s : Str} (boundary : s.IsBoundary index) :
    StartsClean (s.bytes.drop index) :=
  ((isCharBoundary_iff s.valid index).mp boundary.2).2

/-- `&s[..index]`. -/
def upTo (s : Str) (index : Nat) (boundary : s.IsBoundary index) : Str :=
  ⟨s.bytes.take index, (s.valid.split index boundary.1 boundary.clean).1⟩

/-- `&s[index..]`. -/
def since (s : Str) (index : Nat) (boundary : s.IsBoundary index) : Str :=
  ⟨s.bytes.drop index, (s.valid.split index boundary.1 boundary.clean).2⟩

/-- `&s[start..stop]`. -/
def slice (s : Str) (start stop : Nat) (first : s.IsBoundary start) (last : s.IsBoundary stop) :
    Str :=
  ⟨(s.bytes.take stop).drop start, by
    by_cases order : start ≤ (s.bytes.take stop).length
    · refine ((s.upTo stop last).valid.split start order ?_).2
      intro byte head
      apply first.clean
      simp only [upTo, head?_drop, getElem?_take, Option.mem_def] at head ⊢
      split at head
      · exact head
      · cases head
    · rw [drop_eq_nil_of_le (Nat.le_of_not_le order)]
      exact .nil⟩

/-- `str::get`. -/
def get? (s : Str) (start stop : Nat) : Option Str :=
  if inside : s.IsBoundary start ∧ s.IsBoundary stop ∧ start ≤ stop then
    some (s.slice start stop inside.1 inside.2.1)
  else none

/-- `String::replace_range`. -/
def replaceRange (s : Str) (start stop : Nat) (first : s.IsBoundary start)
    (last : s.IsBoundary stop) (insert : Str) :
    Str := s.upTo start first ++ insert ++ s.since stop last

theorem isBoundary_seam {s : Str} (whole : s.bytes = first ++ second) (valid : Valid second) :
    s.IsBoundary first.length := by
  have inside : first.length ≤ s.bytes.length := by
    rw [whole, length_append]
    exact Nat.le_add_right _ _
  refine ⟨inside, (isCharBoundary_iff s.valid _).mpr ⟨inside, ?_⟩⟩
  rw [whole, drop_left]
  exact valid.startsClean

theorem isBoundary_zero (s : Str) : s.IsBoundary 0 := ⟨Nat.zero_le _, rfl⟩

/-- An ASCII byte is a character of its own: there is a boundary before it and one after it. -/
theorem isBoundary_at {s : Str} (here : s.bytes[index]? = some byte) (ascii : byte < 0x80) :
    s.IsBoundary index := by
  have inside := (List.getElem?_eq_some_iff.mp here).1
  refine ⟨Nat.le_of_lt inside, ?_⟩
  unfold isCharBoundary
  split
  · rfl
  · rw [here]
    have low : ¬(0x80 : UInt8) ≤ byte := UInt8.not_le.mpr ascii
    simp [isContinuation, low]

theorem isBoundary_after {s : Str} (here : s.bytes[index]? = some byte) (ascii : byte < 0x80) :
    s.IsBoundary (index + 1) := by
  obtain ⟨inside, same⟩ := List.getElem?_eq_some_iff.mp here
  have boundary := isBoundary_at here ascii
  have split : s.bytes.drop index = byte :: s.bytes.drop (index + 1) := by
    rw [drop_eq_getElem_cons inside, same]
  have valid := (s.valid.split index boundary.1 boundary.clean).2
  rw [split] at valid
  have whole : s.bytes = s.bytes.take (index + 1) ++ s.bytes.drop (index + 1) :=
    (take_append_drop _ _).symm
  have seam := isBoundary_seam whole (valid.after_ascii ascii)
  rwa [length_take, Nat.min_eq_left inside] at seam

theorem isBoundary_len (s : Str) : s.IsBoundary s.len := ⟨Nat.le_refl _, isCharBoundary_length _⟩

end Str

end ForgeNode.Utf8
