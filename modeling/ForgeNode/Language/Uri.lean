import ForgeNode.Lib.Utf8
import Mathlib.Data.List.TakeWhile

/-! `file:` URIs of absolute paths: every byte outside the unreserved set is escaped, and reading
one undoes it. -/

namespace ForgeNode.Uri

open List
open Utf8 (Str)

/-- `u8::is_ascii_alphanumeric`. -/
def isAsciiAlphanumeric (byte : UInt8) : Bool :=
  (48 ≤ byte && byte ≤ 57) || (65 ≤ byte && byte ≤ 90) || (97 ≤ byte && byte ≤ 122)

/-- What stands for itself: RFC 3986's unreserved set and `/`. -/
def isPlain (byte : UInt8) : Bool :=
  isAsciiAlphanumeric byte || byte == 47 || byte == 45 || byte == 46 || byte == 95 || byte == 126

/-- `HEX`. -/
def hex (value : UInt8) : UInt8 := if value < 10 then 48 + value else 55 + value

/-- What is put out for one byte of a path. -/
def escape (byte : UInt8) : List UInt8 :=
  if isPlain byte then [byte] else [37, hex (byte >>> 4), hex (byte &&& 0x0f)]

/-- `file://`. -/
def scheme : List UInt8 := [102, 105, 108, 101, 58, 47, 47]

def pathToUri (path : List UInt8) : Str :=
  .ofChars ((scheme ++ path.flatMap escape).map fun byte => Char.ofNat byte.toNat)

def hexValue (byte : UInt8) : Option UInt8 :=
  if 48 ≤ byte && byte ≤ 57 then some (byte - 48)
  else if 97 ≤ byte && byte ≤ 102 then some (byte - 97 + 10)
  else if 65 ≤ byte && byte ≤ 70 then some (byte - 65 + 10)
  else none

def percentDecode : List UInt8 → Option (List UInt8)
  | [] => some []
  | byte :: rest =>
    if byte == 37 then
      match rest with
      | first :: second :: more =>
        (hexValue first).bind fun high => (hexValue second).bind fun low =>
          (percentDecode more).map ((high <<< 4 ||| low) :: ·)
      | _ => none
    else (percentDecode rest).map (byte :: ·)

def toAsciiLowercase (byte : UInt8) : UInt8 := if 65 ≤ byte && byte ≤ 90 then byte + 32 else byte

def eqIgnoreAsciiCase (first second : List UInt8) : Bool :=
  first.map toAsciiLowercase == second.map toAsciiLowercase

/-- `localhost`. -/
def localhost : List UInt8 := [108, 111, 99, 97, 108, 104, 111, 115, 116]

/-- The escaped path of a URI without its scheme, query and fragment; none with a remote
authority. -/
def localPath (rest : List UInt8) : Option (List UInt8) :=
  match rest with
  | 47 :: 47 :: after =>
    (after.findIdx? (· == 47)).bind fun slash =>
      let authority := after.take slash
      if !authority.isEmpty && !eqIgnoreAsciiCase authority localhost then none
      else some (after.drop slash)
  | 47 :: _ => some rest
  | _ => none

def uriToPath (uri : Str) : Option (List UInt8) :=
  (uri.get? 0 5).bind fun start =>
    if eqIgnoreAsciiCase start.bytes [102, 105, 108, 101, 58] then
      let rest := (uri.bytes.drop 5).takeWhile fun byte => byte != 63 && byte != 35
      (localPath rest).bind percentDecode
    else none

section Bytes

theorem forall_byte {P : UInt8 → Prop} (each : ∀ value : Fin 256, P (UInt8.ofNat value))
    (byte : UInt8) : P byte := by
  have bound := byte.toNat_lt
  have same := each ⟨byte.toNat, bound⟩
  rwa [UInt8.ofNat_toNat] at same

theorem escape_clean (byte : UInt8) :
    ∀ part ∈ escape byte, part < 0x80 ∧ (part != 63 && part != 35) = true := by
  have clean : ((escape byte).all fun part => decide (part < 0x80) && (part != 63 && part != 35)) =
      true :=
    forall_byte (P := fun byte => ((escape byte).all fun part => decide (part < 0x80) &&
      (part != 63 && part != 35)) = true) (by decide +kernel) byte
  intro part member
  obtain ⟨ascii, other⟩ := Bool.and_eq_true_iff.mp (all_eq_true.mp clean part member)
  exact ⟨of_decide_eq_true ascii, other⟩

theorem escape_decodes (byte : UInt8) : (escape byte = [byte] ∧ byte ≠ 37) ∨
    ∃ first second high low, escape byte = [37, first, second] ∧ hexValue first = some high ∧
      hexValue second = some low ∧ high <<< 4 ||| low = byte := by
  unfold escape
  split
  · rename_i plain
    left
    refine ⟨rfl, ?_⟩
    rintro rfl
    exact absurd plain (by decide)
  · right
    have digits : hexValue (hex (byte >>> 4)) = some (byte >>> 4) ∧
        hexValue (hex (byte &&& 0x0f)) = some (byte &&& 0x0f) ∧ byte >>> 4 <<< 4 ||| byte &&& 0x0f =
          byte :=
      forall_byte (P := fun byte => hexValue (hex (byte >>> 4)) = some (byte >>> 4) ∧
        hexValue (hex (byte &&& 0x0f)) = some (byte &&& 0x0f) ∧ byte >>> 4 <<< 4 ||| byte &&& 0x0f =
          byte)
        (by decide +kernel) byte
    exact ⟨_, _, _, _, rfl, digits⟩

end Bytes

theorem percentDecode_plain {byte : UInt8} (other : byte ≠ 37) (rest : List UInt8) :
    percentDecode (byte :: rest) = (percentDecode rest).map (byte :: ·) := by
  conv_lhs => unfold percentDecode
  rw [if_neg (by rwa [beq_iff_eq])]

theorem percentDecode_escape (byte : UInt8) (rest : List UInt8) :
    percentDecode (escape byte ++ rest) = (percentDecode rest).map (byte :: ·) := by
  rcases escape_decodes byte with ⟨plain, other⟩ | ⟨first, second, high, low, shape, up, down, whole⟩
  · rw [plain, singleton_append, percentDecode_plain other]
  · rw [shape, cons_append, cons_append, singleton_append, percentDecode, if_pos (beq_self_eq_true _)]
    simp only [up, down, whole, Option.bind_some]

theorem percentDecode_escaped (path : List UInt8) :
    percentDecode (path.flatMap escape) = some path := by
  induction path with
  | nil => rfl
  | cons byte rest ih => rw [flatMap_cons, percentDecode_escape, ih, Option.map_some]

theorem bytes_ascii {bytes : List UInt8} (ascii : ∀ byte ∈ bytes, byte < 0x80) :
    (Str.ofChars (bytes.map fun byte => Char.ofNat byte.toNat)).bytes = bytes := by
  have single (byte : UInt8) : byte < 0x80 → String.utf8EncodeChar (Char.ofNat byte.toNat) = [byte] :=
    forall_byte (P := fun byte => byte < 0x80 → String.utf8EncodeChar (Char.ofNat byte.toNat) =
      [byte]) (by decide +kernel) byte
  change (bytes.map fun byte => Char.ofNat byte.toNat).flatMap String.utf8EncodeChar = bytes
  induction bytes with
  | nil => rfl
  | cons byte rest ih =>
    rw [map_cons, flatMap_cons, single byte (ascii byte mem_cons_self),
      ih fun other member => ascii other (mem_cons_of_mem _ member)]
    rfl

theorem pathToUri_bytes (path : List UInt8) :
    (pathToUri path).bytes = scheme ++ path.flatMap escape := by
  apply bytes_ascii
  intro byte member
  rcases mem_append.mp member with fixed | escaped
  · exact of_decide_eq_true (all_eq_true.mp (by decide : scheme.all (· < 0x80) = true) byte fixed)
  · obtain ⟨own, _, part⟩ := mem_flatMap.mp escaped
    exact (escape_clean own byte part).1

theorem localPath_escaped (rest : List UInt8) :
    localPath (47 :: 47 :: (47 :: rest).flatMap escape) = some ((47 :: rest).flatMap escape) := by
  rfl

/-- Reading the URI of an absolute path gives the path. -/
theorem uriToPath_pathToUri {path : List UInt8} (absolute : path.head? = some 47) :
    uriToPath (pathToUri path) = some path := by
  obtain ⟨rest, rfl⟩ := head?_eq_some_iff.mp absolute
  have bytes := pathToUri_bytes (47 :: rest)
  have clean : ∀ byte ∈ 47 :: 47 :: (47 :: rest).flatMap escape, (byte != 63 && byte != 35) =
      true := by
    intro byte member
    rcases mem_cons.mp member with rfl | member
    · rfl
    rcases mem_cons.mp member with rfl | member
    · rfl
    obtain ⟨own, _, part⟩ := mem_flatMap.mp member
    exact (escape_clean own byte part).2
  have start : (pathToUri (47 :: rest)).get? 0 5 =
      some ⟨[102, 105, 108, 101, 58], Str.valid_ofChars ['f', 'i', 'l', 'e', ':']⟩ := by
    have colon : (pathToUri (47 :: rest)).bytes[4]? = some 58 := by
      rw [bytes]
      rfl
    have boundary : (pathToUri (47 :: rest)).IsBoundary 5 := Str.isBoundary_after colon (by decide)
    unfold Str.get?
    rw [dif_pos ⟨Str.isBoundary_zero _, boundary, Nat.zero_le 5⟩]
    rfl
  have kept : ((pathToUri (47 :: rest)).bytes.drop 5).takeWhile (fun byte =>
      byte != 63 && byte != 35) = 47 :: 47 :: (47 :: rest).flatMap escape := by
    rw [bytes]
    exact takeWhile_eq_self_iff.mpr clean
  unfold uriToPath
  rw [start, Option.bind_some, if_pos (by decide)]
  simp only [kept]
  rw [localPath_escaped, Option.bind_some, percentDecode_escaped]

/-- Every absolute path reads back byte for byte from its URI, so no two of them share one. -/
theorem uris_round_trip :
    (∀ path : List UInt8, path.head? = some 47 → 0 ∉ path → uriToPath (pathToUri path) =
      some path) ∧
    ∀ first second : List UInt8, first.head? = some 47 → second.head? = some 47 →
      pathToUri first = pathToUri second → first = second := by
  refine ⟨fun path absolute _ => uriToPath_pathToUri absolute, ?_⟩
  intro first second absolute absolute' same
  have left := uriToPath_pathToUri absolute
  rw [same, uriToPath_pathToUri absolute'] at left
  exact (Option.some.inj left).symm

/-- A raw byte that is no UTF-8, and one of each reserved kind. -/
theorem uris_round_trip_odd : uriToPath (pathToUri [47, 0xff, 37, 63, 35, 32]) =
    some [47, 0xff, 37, 63, 35, 32] :=
  uris_round_trip.1 [47, 0xff, 37, 63, 35, 32] rfl (by decide)

end ForgeNode.Uri
