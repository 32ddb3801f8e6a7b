import ForgeNode.Lib.Chars
import Mathlib.Algebra.Ring.Nat
import Mathlib.Data.List.DropRight

/-! Frames of the language-server protocol: a header that ends with an empty line, then a body of
the length that the header gives. A body over the limit is skipped. -/

namespace ForgeNode.Framing

open List

/-- Longest header line accepted, terminator included. -/
def maxHeaderLine : Nat := 8 * 1024

def maxHeaders : Nat := 32

/-- Bytes of a discarded body kept to find the response id it carried. -/
def hintPrefix : Nat := 256

inductive Frame where
  | message (body : List UInt8)
  | oversized (len : Nat) (prefix_ : List UInt8)
  deriving DecidableEq

inductive ReadError where
  | unexpectedEof
  | invalid (message : String)
  deriving DecidableEq

/-- `read_until(b'\n')` of at most `limit` bytes. -/
def readLine (limit : Nat) (input : List UInt8) : List UInt8 :=
  let window := input.take limit
  match window.findIdx? (· == 10) with
  | some at_ => window.take (at_ + 1)
  | none => window

/-- `str::from_utf8`. -/
def fromUtf8 (bytes : List UInt8) : Option (List Char) :=
  if Utf8.encode (Utf8.decode bytes) = bytes then some (Utf8.decode bytes) else none

/-- Unicode's `White_Space`. -/
def isWhitespace (c : Char) : Bool :=
  let code := c.toNat
  (9 ≤ code && code ≤ 13) || code == 0x20 || code == 0x85 || code == 0xA0 || code == 0x1680 ||
    (0x2000 ≤ code && code ≤ 0x200A) || code == 0x2028 || code == 0x2029 || code == 0x202F ||
      code == 0x205F ||
    code == 0x3000

/-- `str::trim`. -/
def trim (text : List Char) : List Char := (text.dropWhile isWhitespace).rdropWhile isWhitespace

/-- `split_once(':')`. -/
def splitOnce (text : List Char) : Option (List Char × List Char) :=
  if text.contains ':' then some (text.takeWhile (· != ':'), (text.dropWhile (· != ':')).tail)
    else none

def isLineEnd (c : Char) : Bool := c == '\r' || c == '\n'

/-- `parse::<usize>()`. -/
def parseUsize (text : List Char) : Option Nat :=
  let digits := match text with
    | '+' :: rest => rest
    | _ => text
  if digits = [] ∨ digits.all Char.isDigit = false then none
  else if Nat.ofDigitChars 10 digits 0 < 2 ^ 64 then some (Nat.ofDigitChars 10 digits 0)
  else none

def eqIgnoreAsciiCase (first second : List Char) : Bool :=
  first.map Char.toLower == second.map Char.toLower

/-- `content-length`. -/
def contentLength : List Char :=
  ['c', 'o', 'n', 't', 'e', 'n', 't', '-', 'l', 'e', 'n', 'g', 't', 'h']

/-- A body, or the head of one over the limit, and what follows it. -/
def readBody (maxBody len : Nat) (input : List UInt8) : Except ReadError Frame × List UInt8 :=
  if len > maxBody then
    let keep := min len hintPrefix
    let prefix_ := input.take keep
    let rest := len - keep
    let skipped := (input.drop keep).take rest
    if prefix_.length < keep || skipped.length < rest then (.error .unexpectedEof,
      (input.drop keep).drop rest)
    else (.ok (.oversized len prefix_), (input.drop keep).drop rest)
  else if input.length < len then (.error .unexpectedEof, [])
  else (.ok (.message (input.take len)), input.drop len)

/-- The header loop, with the lines it may still read. -/
def readHeaders (maxBody : Nat) : Nat → Bool → Option Nat → List UInt8 →
    Except ReadError (Option Frame) × List UInt8
  | 0, _, _, input => (.error (.invalid "too many headers"), input)
  | fuel + 1, start, length, input =>
    let line := readLine (maxHeaderLine + 1) input
    let rest := input.drop line.length
    if line.isEmpty then (if start then .ok none else .error .unexpectedEof, rest)
    else if line.getLast? ≠ some 10 then
      (.error (if line.length > maxHeaderLine then .invalid "header line too long"
        else .unexpectedEof), rest)
    else match fromUtf8 line with
      | none => (.error (.invalid "header is not UTF-8"), rest)
      | some chars =>
        let text := chars.rdropWhile isLineEnd
        if text.isEmpty then
          match length with
          | none => (.error (.invalid "missing Content-Length"), rest)
          | some len => ((readBody maxBody len rest).1.map some, (readBody maxBody len rest).2)
        else match splitOnce text with
          | none => (.error (.invalid "malformed header"), rest)
          | some (name, value) =>
            if eqIgnoreAsciiCase (trim name) contentLength then
              match parseUsize (trim value) with
              | none => (.error (.invalid "malformed Content-Length"), rest)
              | some len => readHeaders maxBody fuel false (some len) rest
            else readHeaders maxBody fuel false length rest

/-- One frame, or none at the end of the input between frames; and what is left to read. -/
def readFrame (maxBody : Nat) (input : List UInt8) : Except ReadError (Option Frame) × List UInt8 :=
  readHeaders maxBody (maxHeaders + 1) true none input

/-- `Content-Length`, a colon and a blank. -/
def lead : List Char :=
  ['C', 'o', 'n', 't', 'e', 'n', 't', '-', 'L', 'e', 'n', 'g', 't', 'h', ':', ' ']

def header (len : Nat) : List Char := lead ++ Nat.toDigits 10 len ++ ['\r', '\n', '\r', '\n']

def encode (body : List UInt8) : List UInt8 := Utf8.encode (header body.length) ++ body

section Consuming

theorem readBody_le (maxBody len : Nat) (input : List UInt8) :
    (readBody maxBody len input).2.length ≤ input.length := by
  unfold readBody
  simp only
  split
  · split
    · rw [List.length_drop, List.length_drop]
      omega
    · rw [List.length_drop, List.length_drop]
      omega
  split
  · exact Nat.zero_le _
  · rw [List.length_drop]
    exact Nat.sub_le _ _

theorem readHeaders_consumes {maxBody fuel : Nat} {start : Bool} {length : Option Nat}
    {input rest : List UInt8} {frame : Frame} (read : readHeaders maxBody fuel start length input =
      (.ok (some frame), rest)) :
    rest.length < input.length := by
  induction fuel generalizing start length input with
  | zero => cases read
  | succ fuel ih =>
    have later : readLine (maxHeaderLine + 1) input ≠ [] →
        (input.drop (readLine (maxHeaderLine + 1) input).length).length < input.length := by
      intro some_
      have positive := length_pos_iff.mpr some_
      rw [List.length_drop]
      cases input with
      | nil => exact absurd rfl some_
      | cons byte more =>
        rw [length_cons]
        omega
    unfold readHeaders at read
    simp only at read
    split at read
    · split at read
      · cases read
      · cases read
    rename_i some_
    have shorter := later fun nothing => some_ (by rw [nothing]; rfl)
    split at read
    · cases read
    split at read
    · cases read
    split at read
    · split at read
      · cases read
      · rename_i len
        have size := readBody_le maxBody len (input.drop (readLine (maxHeaderLine + 1) input).length)
        obtain ⟨_, rfl⟩ := Prod.mk.inj read
        exact Nat.lt_of_le_of_lt size shorter
    split at read
    · cases read
    split at read
    · split at read
      · cases read
      · exact Nat.lt_trans (ih read) shorter
    · exact Nat.lt_trans (ih read) shorter

theorem readFrame_consumes {maxBody : Nat} {input rest : List UInt8} {frame : Frame}
    (read : readFrame maxBody input = (.ok (some frame), rest)) : rest.length < input.length :=
  readHeaders_consumes read

end Consuming

/-- The read loop: the frames in order, and what ended it, `none` being the end of the input between
frames. -/
def readFrames (maxBody : Nat) (input : List UInt8) : List Frame × Option ReadError :=
  match _read : readFrame maxBody input with
  | (.ok (some frame), rest) =>
    let later := readFrames maxBody rest
    (frame :: later.1, later.2)
  | (.ok none, _) => ([], none)
  | (.error error, _) => ([], some error)
termination_by input.length
decreasing_by exact readFrame_consumes _read

/-- What a body is read as. -/
def frameOf (maxBody : Nat) (body : List UInt8) : Frame :=
  if body.length ≤ maxBody then .message body else .oversized body.length
    (body.take (min body.length hintPrefix))

section Lines

theorem length_encode_le (chars : List Char) : (Utf8.encode chars).length ≤ 4 * chars.length := by
  induction chars with
  | nil => exact Nat.le_refl _
  | cons c rest ih =>
    have four := c.utf8Size_le_four
    rw [Utf8.encode_cons, length_append, String.length_utf8EncodeChar, length_cons]
    omega

theorem newline_of_mem {chars : List Char} (member : 10 ∈ Utf8.encode chars) : '\n' ∈ chars := by
  obtain ⟨c, own, part⟩ := mem_flatMap.mp member
  obtain ⟨lead, tail, shape, _, continued⟩ := Utf8.encodeChar_shape c
  rw [shape] at part
  rcases mem_cons.mp part with same | later
  · rw [← same] at shape
    rw [← Utf8.encodeChar_lead (by decide) (by decide : String.utf8EncodeChar '\n' = [10]) shape]
    exact own
  · exact absurd (continued 10 later) (by decide)

theorem encode_line (line : List Char) :
    Utf8.encode (line ++ ['\n']) = Utf8.encode line ++ [10] := by
  rw [Utf8.encode_append, Utf8.encode_singleton]
  rfl

theorem fromUtf8_encode (chars : List Char) : fromUtf8 (Utf8.encode chars) = some chars := by
  unfold fromUtf8
  rw [Utf8.decode_encode, if_pos rfl]

/-- Reading stops behind the first newline. -/
theorem readLine_append {limit : Nat} {line rest : List UInt8} (clean : 10 ∉ line)
    (short : line.length < limit) : readLine limit (line ++ [10] ++ rest) = line ++ [10] := by
  obtain ⟨room, rfl⟩ : ∃ room, limit = (line ++ [10]).length + room := by
    rw [length_append, length_singleton]
    exact ⟨limit - (line.length + 1), by omega⟩
  have window : (line ++ [10] ++ rest).take ((line ++ [10]).length + room) = line ++ [10] ++
      rest.take room :=
    take_length_add_append _
  have none_ : line.findIdx? (· == 10) = none := by
    apply findIdx?_eq_none_iff.mpr
    intro byte member
    exact beq_eq_false_iff_ne.mpr fun same => clean (same ▸ member)
  have place : (line ++ [10] ++ rest.take room).findIdx? (· == 10) = some line.length := by
    rw [append_assoc, findIdx?_append, none_, Option.none_or, singleton_append, findIdx?_cons,
      if_pos (beq_self_eq_true _), Option.map_some, Nat.zero_add]
  have size : line.length + 1 = (line ++ [10]).length := by rw [length_append, length_singleton]
  unfold readLine
  simp only [window, place]
  rw [size, take_left]

/-- One round of the header loop on a line of its own. -/
theorem readHeaders_line (maxBody fuel : Nat) (start : Bool) (length : Option Nat)
    {line : List Char} (clean : '\n' ∉ line) (short : (Utf8.encode line).length ≤ maxHeaderLine)
    (rest : List UInt8) :
    readHeaders maxBody (fuel + 1) start length (Utf8.encode (line ++ ['\n']) ++ rest) =
      let text := (line ++ ['\n']).rdropWhile isLineEnd
      if text.isEmpty then
        match length with
        | none => (.error (.invalid "missing Content-Length"), rest)
        | some len => ((readBody maxBody len rest).1.map some, (readBody maxBody len rest).2)
      else match splitOnce text with
        | none => (.error (.invalid "malformed header"), rest)
        | some (name, value) =>
          if eqIgnoreAsciiCase (trim name) contentLength then
            match parseUsize (trim value) with
            | none => (.error (.invalid "malformed Content-Length"), rest)
            | some len => readHeaders maxBody fuel false (some len) rest
          else readHeaders maxBody fuel false length rest := by
  have read : readLine (maxHeaderLine + 1) (Utf8.encode (line ++ ['\n']) ++ rest) =
      Utf8.encode (line ++ ['\n']) := by
    rw [encode_line]
    exact readLine_append (fun member => clean (newline_of_mem member)) (Nat.lt_succ_of_le short)
  have some_ : (Utf8.encode (line ++ ['\n'])).isEmpty = false := by
    rw [encode_line]
    exact isEmpty_eq_false_iff.mpr (by simp)
  have ends : (Utf8.encode (line ++ ['\n'])).getLast? = some 10 := by
    rw [encode_line, getLast?_concat]
  conv_lhs => unfold readHeaders
  simp only [read, some_, ends, fromUtf8_encode, drop_left, Bool.false_eq_true, if_false, ne_eq,
    not_true_eq_false]

end Lines

section Encoded

theorem isDigit_plain {c : Char} (digit : c.isDigit = true) :
    isWhitespace c = false ∧ isLineEnd c = false ∧ c ≠ '\n' := by
  have line : c ≠ '\n' := by
    rintro rfl
    cases digit
  have return_ : c ≠ '\r' := by
    rintro rfl
    cases digit
  refine ⟨?_, ?_, line⟩
  · simp only [Char.isDigit, Bool.and_eq_true, decide_eq_true_eq, UInt32.le_iff_toNat_le] at digit
    have low : 48 ≤ c.toNat := digit.1
    have high : c.toNat ≤ 57 := digit.2
    unfold isWhitespace
    simp only [Bool.or_eq_false_iff, Bool.and_eq_false_iff, decide_eq_false_iff_not,
      beq_eq_false_iff_ne]
    omega
  · simp only [isLineEnd, Bool.or_eq_false_iff, beq_eq_false_iff_ne]
    exact ⟨return_, line⟩

theorem parseUsize_toDigits {len : Nat} (bound : len < 2 ^ 64) :
    parseUsize (Nat.toDigits 10 len) = some len := by
  have digits : ∀ c ∈ Nat.toDigits 10 len, c.isDigit = true := fun c member =>
    Nat.isDigit_of_mem_toDigits (by decide) (by decide) member
  have value := @Nat.ofDigitChars_ten_toDigits len
  unfold parseUsize
  have own : (match Nat.toDigits 10 len with
      | '+' :: rest => rest
      | _ => Nat.toDigits 10 len) = Nat.toDigits 10 len := by
    split
    · rename_i rest shape
      have plus := digits '+' (by rw [shape]; exact mem_cons_self)
      cases plus
    · rfl
  simp only [own, value]
  rw [if_neg, if_pos bound]
  rintro (nothing | other)
  · exact Nat.toDigits_ne_nil nothing
  · rw [all_eq_true.mpr digits] at other
    cases other

theorem rdropWhile_digits {p : Char → Bool} (digits : ∀ c, c.isDigit = true → p c = false)
    (front : List Char) (len : Nat) :
    (front ++ Nat.toDigits 10 len).rdropWhile p = front ++ Nat.toDigits 10 len := by
  apply rdropWhile_eq_self_iff.mpr
  intro some_
  have last : (front ++ Nat.toDigits 10 len).getLast some_ ∈ Nat.toDigits 10 len := by
    rw [getLast_append_of_ne_nil _ Nat.toDigits_ne_nil]
    exact getLast_mem _
  rw [digits _ (Nat.isDigit_of_mem_toDigits (by decide) (by decide) last)]
  exact Bool.false_ne_true

theorem trim_toDigits (len : Nat) : trim (' ' :: Nat.toDigits 10 len) = Nat.toDigits 10 len := by
  have back := rdropWhile_digits (fun c digit => (isDigit_plain digit).1) [] len
  rw [nil_append] at back
  have front : (' ' :: Nat.toDigits 10 len).dropWhile isWhitespace = Nat.toDigits 10 len := by
    rw [dropWhile_cons_of_pos rfl]
    cases shape : Nat.toDigits 10 len with
    | nil => rfl
    | cons c more =>
      have digit : c.isDigit = true := by
        apply Nat.isDigit_of_mem_toDigits (b := 10) (by decide) (by decide)
        rw [shape]
        exact mem_cons_self
      apply dropWhile_cons_of_neg
      rw [(isDigit_plain digit).1]
      exact Bool.false_ne_true
  rw [trim, front, back]

/-- The header of a frame is read as the length it gives. -/
theorem readFrame_header (maxBody : Nat) {len : Nat} (bound : len < 2 ^ 64) (rest : List UInt8) :
    readFrame maxBody (Utf8.encode (header len) ++ rest) =
      ((readBody maxBody len rest).1.map some, (readBody maxBody len rest).2) := by
  have digits : ∀ c ∈ Nat.toDigits 10 len, c.isDigit = true := fun c member =>
    Nat.isDigit_of_mem_toDigits (by decide) (by decide) member
  have few : (Nat.toDigits 10 len).length ≤ 20 :=
    (Nat.length_toDigits_le_iff (by decide) (by decide)).mpr (Nat.lt_of_lt_of_le bound (by decide))
  have first : readFrame maxBody (Utf8.encode (header len) ++ rest) =
      readHeaders maxBody maxHeaders false (some len) (Utf8.encode (['\r'] ++ ['\n']) ++ rest) := by
    have parts : header len = (lead ++ Nat.toDigits 10 len ++ ['\r'] ++ ['\n']) ++
        (['\r'] ++ ['\n']) := by
      simp only [header, lead, append_assoc]
      rfl
    have clean : '\n' ∉ lead ++ Nat.toDigits 10 len ++ ['\r'] := by
      intro member
      rcases mem_append.mp member with front | return_
      · rcases mem_append.mp front with fixed | digit
        · exact absurd fixed (by decide)
        · exact (isDigit_plain (digits _ digit)).2.2 rfl
      · exact absurd return_ (by decide)
    have short : (Utf8.encode (lead ++ Nat.toDigits 10 len ++ ['\r'])).length ≤ maxHeaderLine := by
      have bytes := length_encode_le (lead ++ Nat.toDigits 10 len ++ ['\r'])
      have fixed : lead.length = 16 := rfl
      have cap : maxHeaderLine = 8192 := rfl
      rw [length_append, length_append, fixed, length_singleton] at bytes
      omega
    have text : (lead ++ Nat.toDigits 10 len ++ ['\r'] ++ ['\n']).rdropWhile isLineEnd =
        lead ++ Nat.toDigits 10 len := by
      rw [rdropWhile_concat_pos _ _ _ rfl, rdropWhile_concat_pos _ _ _ rfl]
      exact rdropWhile_digits (fun c digit => (isDigit_plain digit).2.1) lead len
    have split : splitOnce (lead ++ Nat.toDigits 10 len) =
        some (lead.take 14, ' ' :: Nat.toDigits 10 len) := rfl
    have full : (lead ++ Nat.toDigits 10 len).isEmpty = false := rfl
    have named : eqIgnoreAsciiCase (trim (lead.take 14)) contentLength = true := by decide
    rw [parts, Utf8.encode_append, append_assoc, readFrame,
      readHeaders_line maxBody maxHeaders true none clean short]
    simp only [text, full, split, named, trim_toDigits, parseUsize_toDigits bound,
      Bool.false_eq_true, if_false, if_true]
  rw [first]
  exact readHeaders_line maxBody 31 false (some len) (by decide) (by decide) rest

/-- The body of a frame is read, or skipped, to its end. -/
theorem readBody_append (maxBody : Nat) (body rest : List UInt8) :
    readBody maxBody body.length (body ++ rest) = (.ok (frameOf maxBody body), rest) := by
  unfold readBody frameOf
  simp only
  by_cases fits : body.length ≤ maxBody
  · have room : ¬(body ++ rest).length < body.length := by
      rw [length_append]
      omega
    rw [if_neg (Nat.not_lt.mpr fits), if_neg room, if_pos fits, take_left, drop_left]
  · have keep : min body.length hintPrefix ≤ body.length := Nat.min_le_left _ _
    have start : (body ++ rest).take (min body.length hintPrefix) =
        body.take (min body.length hintPrefix) :=
      take_append_of_le_length keep
    have behind : (body ++ rest).drop (min body.length hintPrefix) =
        body.drop (min body.length hintPrefix) ++ rest := drop_append_of_le_length keep
    have size : body.length - min body.length hintPrefix =
        (body.drop (min body.length hintPrefix)).length :=
      List.length_drop.symm
    have whole : ¬((decide ((body.take (min body.length hintPrefix)).length < min body.length
        hintPrefix) ||
        decide ((body.drop (min body.length hintPrefix)).length <
          (body.drop (min body.length hintPrefix)).length)) = true) := by
      rw [length_take, Nat.min_eq_left keep]
      simp
    rw [if_pos (Nat.lt_of_not_le fits), start, behind, size, take_left, drop_left, if_neg whole,
      if_neg fits]

theorem readFrame_encode (maxBody : Nat) {body : List UInt8} (bound : body.length < 2 ^ 64)
    (rest : List UInt8) : readFrame maxBody (encode body ++ rest) =
      (.ok (some (frameOf maxBody body)), rest) := by
  rw [encode, append_assoc, readFrame_header maxBody bound, readBody_append]
  rfl

end Encoded

theorem readFrames_some {maxBody : Nat} {input rest : List UInt8} {frame : Frame}
    (read : readFrame maxBody input = (.ok (some frame), rest)) :
    readFrames maxBody input = (frame :: (readFrames maxBody rest).1,
      (readFrames maxBody rest).2) := by
  rw [readFrames]
  split
  · rename_i frame' rest' read'
    rw [read] at read'
    obtain ⟨same, rfl⟩ := Prod.mk.inj read'
    obtain rfl := Option.some.inj (Except.ok.inj same)
    rfl
  · rename_i read'
    rw [read] at read'
    cases read'
  · rename_i read'
    rw [read] at read'
    cases read'

theorem readFrames_nil (maxBody : Nat) : readFrames maxBody [] = ([], none) := by
  rw [readFrames]
  rfl

/-- Frames are read as they were written, those over the limit by their lengths and heads; and no
input keeps the loop busy without an end. -/
theorem frames_round_trip (maxBody : Nat) :
    (∀ bodies : List (List UInt8), (∀ body ∈ bodies, body.length < 2 ^ 64) →
      readFrames maxBody (bodies.flatMap encode) = (bodies.map (frameOf maxBody), none)) ∧
    ∀ input frame rest, readFrame maxBody input = (.ok (some frame), rest) →
    rest.length < input.length := by
  refine ⟨?_, fun input frame rest => readFrame_consumes⟩
  intro bodies
  induction bodies with
  | nil => exact fun _ => readFrames_nil maxBody
  | cons body rest ih =>
    intro bound
    have own := readFrame_encode maxBody (bound body mem_cons_self) (rest.flatMap encode)
    rw [flatMap_cons, readFrames_some own, ih fun other member =>
      bound other (mem_cons_of_mem _ member), map_cons]

/-- A body over the limit of three bytes, and one within it. -/
theorem frames_round_trip_skipped :
    readFrames 3 ([[1, 2, 3, 4, 5], [6]].flatMap encode) =
      ([.oversized 5 [1, 2, 3, 4, 5], .message [6]], none) ∧
    ([] : List UInt8).length < (encode [6]).length := by
  have read := readFrame_encode 3 (by decide : ([6] : List UInt8).length < 2 ^ 64) []
  rw [append_nil] at read
  exact ⟨(frames_round_trip 3).1 [[1, 2, 3, 4, 5], [6]] (by decide), (frames_round_trip 3).2 _ _ _
    read⟩

end ForgeNode.Framing
