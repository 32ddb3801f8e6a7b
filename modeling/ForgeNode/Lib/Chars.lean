import ForgeNode.Lib.Utf8

/-! Walking over the characters of a UTF-8 string by byte offset, forwards and backwards. -/

namespace ForgeNode.Utf8

open List

/-- The bytes of a sequence of characters. -/
def encode (chars : List Char) : List UInt8 := chars.flatMap String.utf8EncodeChar

theorem encode_append (front back : List Char) :
    encode (front ++ back) = encode front ++ encode back :=
  flatMap_append

theorem encode_cons (c : Char) (rest : List Char) :
    encode (c :: rest) = String.utf8EncodeChar c ++ encode rest :=
  flatMap_cons

theorem encode_singleton (c : Char) : encode [c] = String.utf8EncodeChar c := by
  rw [encode_cons]
  exact append_nil _

theorem Valid.chars (valid : Valid bytes) : ∃ chars, bytes = encode chars := by
  induction valid with
  | nil => exact ⟨[], rfl⟩
  | char c _ ih =>
    obtain ⟨chars, rfl⟩ := ih
    exact ⟨c :: chars, (encode_cons c chars).symm⟩

theorem valid_encode (chars : List Char) : Valid (encode chars) := Str.valid_ofChars chars

/-- Reading a character back. -/
theorem firstChar_encodeChar (c : Char) (rest : List UInt8) :
    firstChar (String.utf8EncodeChar c ++ rest) = some c := by
  have whole : Char.ofNat c.val.toNat = c := Char.ofNat_toNat c
  have scalar : c.val.toNat < 0x110000 := by
    rcases c.valid with low | high
    · exact Nat.lt_trans low (by decide)
    · exact high.2
  have toNat (n : Nat) (small : n < 256) : (UInt8.ofNat n).toNat = n := by
    rw [UInt8.toNat_ofNat', Nat.mod_eq_of_lt small]
  have below (n : Nat) (bound : UInt8) (small : n < 256) (order : n < bound.toNat) : UInt8.ofNat n <
      bound := by
    rwa [UInt8.lt_iff_toNat_lt, toNat n small]
  have above (n : Nat) (bound : UInt8) (small : n < 256) (order : bound.toNat ≤ n) : ¬UInt8.ofNat
      n < bound := by
    rw [UInt8.lt_iff_toNat_lt, toNat n small]
    exact Nat.not_lt.mpr order
  have ascii : (0x80 : UInt8).toNat = 128 := rfl
  have two : (0xE0 : UInt8).toNat = 224 := rfl
  have three : (0xF0 : UInt8).toNat = 240 := rfl
  unfold String.utf8EncodeChar
  simp only
  generalize c.val.toNat = code at *
  split
  · have low := below code 0x80 (by omega) (by omega)
    simp only [firstChar, cons_append, nil_append, low, if_true]
    rw [toNat code (by omega), whole]
  split
  · have high := above (code / 64 % 32 + 0xc0) 0x80 (by omega) (by omega)
    have low := below (code / 64 % 32 + 0xc0) 0xe0 (by omega) (by omega)
    simp only [firstChar, cons_append, nil_append, high, low, if_true, if_false, take_succ_cons,
      take_zero, foldl_cons, foldl_nil]
    rw [toNat _ (by omega), toNat _ (by omega), ← whole]
    congr 2
    omega
  split
  · have high := above (code / 4096 % 16 + 0xe0) 0x80 (by omega) (by omega)
    have high' := above (code / 4096 % 16 + 0xe0) 0xe0 (by omega) (by omega)
    have low := below (code / 4096 % 16 + 0xe0) 0xf0 (by omega) (by omega)
    simp only [firstChar, cons_append, nil_append, high, high', low, if_true, if_false,
      take_succ_cons, take_zero, foldl_cons, foldl_nil]
    rw [toNat _ (by omega), toNat _ (by omega), toNat _ (by omega), ← whole]
    congr 2
    omega
  · have high := above (code / 262144 % 8 + 0xf0) 0x80 (by omega) (by omega)
    have high' := above (code / 262144 % 8 + 0xf0) 0xe0 (by omega) (by omega)
    have low := above (code / 262144 % 8 + 0xf0) 0xf0 (by omega) (by omega)
    simp only [firstChar, cons_append, nil_append, high, high', low, if_false, take_succ_cons,
      take_zero, foldl_cons, foldl_nil]
    rw [toNat _ (by omega), toNat _ (by omega), toNat _ (by omega), toNat _ (by omega), ← whole]
    congr 2
    omega

theorem encode_injective {first second : List Char} (same : encode first = encode second) :
    first = second := by
  induction first generalizing second with
  | nil =>
    cases second with
    | nil => rfl
    | cons d more =>
      obtain ⟨lead, tail, shape, _⟩ := encodeChar_shape d
      rw [encode_cons, shape] at same
      cases same
  | cons c rest ih =>
    cases second with
    | nil =>
      obtain ⟨lead, tail, shape, _⟩ := encodeChar_shape c
      rw [encode_cons, shape] at same
      cases same
    | cons d more =>
      rw [encode_cons, encode_cons] at same
      have read := congrArg firstChar same
      rw [firstChar_encodeChar, firstChar_encodeChar] at read
      obtain rfl : c = d := Option.some.inj read
      rw [ih (append_cancel_left same)]

theorem length_le_encode (chars : List Char) : chars.length ≤ (encode chars).length := by
  induction chars with
  | nil => exact Nat.le_refl _
  | cons c rest ih =>
    obtain ⟨lead, tail, shape, _⟩ := encodeChar_shape c
    rw [encode_cons, shape, length_append, length_cons, length_cons]
    omega

/-- The characters that the bytes hold, in at most `fuel` steps. -/
def decodeFrom : Nat → List UInt8 → List Char
  | 0, _ => []
  | fuel + 1, bytes =>
    match firstChar bytes with
    | none => []
    | some c => c :: decodeFrom fuel (bytes.drop (String.utf8EncodeChar c).length)

/-- The characters that the bytes hold. -/
def decode (bytes : List UInt8) : List Char := decodeFrom bytes.length bytes

theorem decodeFrom_encode {fuel : Nat} {chars : List Char} (enough : chars.length ≤ fuel) :
    decodeFrom fuel (encode chars) = chars := by
  induction chars generalizing fuel with
  | nil =>
    cases fuel with
    | zero => rfl
    | succ fuel => rfl
  | cons c rest ih =>
    cases fuel with
    | zero => exact absurd enough (Nat.not_succ_le_zero _)
    | succ fuel =>
      rw [encode_cons, decodeFrom, firstChar_encodeChar]
      simp only [drop_left]
      rw [ih (Nat.le_of_succ_le_succ enough)]

@[simp] theorem decode_encode (chars : List Char) : decode (encode chars) = chars :=
  decodeFrom_encode (length_le_encode chars)

theorem encode_decode {bytes : List UInt8} (valid : Valid bytes) :
    encode (decode bytes) = bytes := by
  obtain ⟨chars, rfl⟩ := valid.chars
  rw [decode_encode]

section Ascii

variable {byte : UInt8} {c : Char} (ascii : byte < 0x80) (single : String.utf8EncodeChar c = [byte])

include ascii single

theorem encodeChar_lead {d : Char} {tail : List UInt8}
    (shape : String.utf8EncodeChar d = byte :: tail) : d = c := by
  have alone := encodeChar_ascii shape ascii
  rw [alone, ← single] at shape
  have read := firstChar_encodeChar d []
  rw [shape, firstChar_encodeChar c []] at read
  exact (Option.some.inj read).symm

theorem head?_encode_iff (chars : List Char) : (encode chars).head? = some byte ↔
    chars.head? = some c := by
  cases chars with
  | nil => simp only [encode, flatMap_nil, head?_nil, reduceCtorEq]
  | cons d rest =>
    obtain ⟨lead, tail, shape, _⟩ := encodeChar_shape d
    rw [encode_cons, shape]
    constructor
    · intro same
      obtain rfl : lead = byte := Option.some.inj same
      rw [encodeChar_lead ascii single shape]
      rfl
    · intro same
      obtain rfl : d = c := Option.some.inj same
      rw [single] at shape
      obtain ⟨rfl, _⟩ := List.cons.inj shape
      rfl

theorem getLast?_encode_iff (behind : List Char) :
    (encode behind.reverse).getLast? = some byte ↔ behind.head? = some c := by
  cases behind with
  | nil => simp only [encode, reverse_nil, flatMap_nil, head?_nil, getLast?_nil, reduceCtorEq]
  | cons d rest =>
    obtain ⟨lead, tail, shape, _, continued⟩ := encodeChar_shape d
    have last : (encode (d :: rest).reverse).getLast? = (lead :: tail).getLast? := by
      rw [reverse_cons, encode_append, encode_singleton, shape, getLast?_append_cons]
    rw [last]
    constructor
    · intro same
      cases tail with
      | nil =>
        obtain rfl : lead = byte := Option.some.inj same
        rw [encodeChar_lead ascii single shape]
        rfl
      | cons next more =>
        -- The last byte would continue the character.
        rw [getLast?_cons_cons] at same
        have continues := continued byte (mem_of_getLast? same)
        have order := UInt8.lt_iff_toNat_lt.mp ascii
        simp only [isContinuation, Bool.and_eq_true, decide_eq_true_eq,
          UInt8.le_iff_toNat_le] at continues
        omega
    · intro same
      obtain rfl : d = c := Option.some.inj same
      rw [single] at shape
      obtain ⟨rfl, rfl⟩ := List.cons.inj shape
      rfl

end Ascii

/-- `body[at..].chars().next()`. -/
def charAt (bytes : List UInt8) (at_ : Nat) : Option Char := firstChar (bytes.drop at_)

/-- `body[..at].chars().next_back()`. -/
def charBefore (bytes : List UInt8) (at_ : Nat) : Option Char :=
  if at_ = 0 then none else firstChar (bytes.drop (floorBoundary bytes (at_ - 1)))

def nextChar (bytes : List UInt8) (at_ : Nat) : Nat :=
  match charAt bytes at_ with
  | some c => at_ + c.utf8Size
  | none => at_

def previousChar (bytes : List UInt8) (at_ : Nat) : Nat :=
  match charBefore bytes at_ with
  | some c => at_ - c.utf8Size
  | none => 0

theorem charAt_split (front : List UInt8) (back : List Char) :
    charAt (front ++ encode back) front.length = back.head? := by
  rw [charAt, drop_left]
  cases back with
  | nil => rfl
  | cons c rest =>
    rw [encode_cons]
    exact firstChar_encodeChar c _

theorem nextChar_split (front : List UInt8) (c : Char) (rest : List Char) :
    nextChar (front ++ encode (c :: rest)) front.length = (front ++ encode [c]).length := by
  rw [nextChar, charAt_split, encode_singleton, length_append, String.length_utf8EncodeChar]
  rfl

/-- Rounding down stops at the first byte of the character. -/
theorem floorBoundary_char (front : List Char) (c : Char) (back : List UInt8) :
    floorBoundary (encode front ++ (String.utf8EncodeChar c ++ back))
      ((encode front).length + (String.utf8EncodeChar c).length - 1) = (encode front).length := by
  obtain ⟨lead, tail, shape, clean, continued⟩ := encodeChar_shape c
  rw [shape]
  have start : isCharBoundary (encode front ++ (lead :: tail ++ back)) (encode front).length =
      true := by
    unfold isCharBoundary
    split
    · rfl
    · rw [getElem?_append_right (Nat.le_refl _), Nat.sub_self]
      simp [clean]
  have inner (count : Nat) (within : count ≤ tail.length) :
      floorBoundary (encode front ++ (lead :: tail ++ back)) ((encode front).length + count) =
        (encode front).length := by
    induction count with
    | zero => exact floorBoundary_of_isCharBoundary start
    | succ count ih =>
      have step : floorBoundary (encode front ++ (lead :: tail ++ back))
          ((encode front).length + count + 1) =
          if isCharBoundary (encode front ++ (lead :: tail ++ back))
            ((encode front).length + count + 1) then
            (encode front).length + count + 1
          else floorBoundary (encode front ++ (lead :: tail ++ back))
            ((encode front).length + count) := rfl
      have inside : isCharBoundary (encode front ++ (lead :: tail ++ back))
          ((encode front).length + count + 1) =
          false := by
        have place : (encode front).length + count + 1 - (encode front).length = count + 1 := by omega
        have byte : (encode front ++ (lead :: tail ++ back))[(encode front).length + count + 1]? =
            some tail[count] := by
          rw [getElem?_append_right (by omega), place, cons_append, getElem?_cons_succ,
            getElem?_append_left within, getElem?_eq_getElem within]
        unfold isCharBoundary
        rw [if_neg (Nat.succ_ne_zero _), byte]
        simp [continued _ (getElem_mem within)]
      rw [← Nat.add_assoc, step, inside, if_neg Bool.false_ne_true, ih (Nat.le_of_succ_le within)]
  have last : (encode front).length + (lead :: tail).length - 1 = (encode front).length +
      tail.length := by
    rw [length_cons]
    omega
  rw [last]
  exact inner _ (Nat.le_refl _)

section Before

variable (behind : List Char) (back : List UInt8)

/-- Characters before an offset, the nearest one first. -/
theorem charBefore_split : charBefore (encode behind.reverse ++ back)
    (encode behind.reverse).length = behind.head? := by
  cases behind with
  | nil => rfl
  | cons c rest =>
    have shape : encode (c :: rest).reverse = encode rest.reverse ++ String.utf8EncodeChar c := by
      rw [reverse_cons, encode_append, encode_singleton]
    have some_ : (encode (c :: rest).reverse).length ≠ 0 := by
      obtain ⟨lead, tail, whole, _⟩ := encodeChar_shape c
      rw [shape, whole, length_append, length_cons]
      exact Nat.succ_ne_zero _
    rw [charBefore, if_neg some_, shape, append_assoc, length_append, floorBoundary_char, drop_left]
    exact firstChar_encodeChar c back

theorem previousChar_split : previousChar (encode behind.reverse ++ back)
    (encode behind.reverse).length = (encode behind.tail.reverse).length := by
  rw [previousChar, charBefore_split]
  cases behind with
  | nil => rfl
  | cons c rest =>
    simp only [head?_cons, tail_cons, reverse_cons, encode_append, encode_singleton, length_append,
      String.length_utf8EncodeChar]
    omega

end Before

end ForgeNode.Utf8
