import Mathlib.Data.List.Forall2
import ForgeNode.Lib.Chars

/-! Comments and string contents are blanked in place: the masked text has the lines and the offsets
of the text. -/

namespace ForgeNode.Masking

open List
open Utf8 (firstChar isCharBoundary Valid)

/-- What a language of the registry says about comments and strings. -/
structure Language where
  id : String
  lineComments : List String
  blockComments : List (String × String)
  quotes : List String := ["\"", "'", "`"]

/-- The languages of the registry. -/
def builtin : List Language := [
  { id := "rust", lineComments := ["//"], blockComments := [("/*", "*/")], quotes := ["\""] },
  { id := "typescript", lineComments := ["//"], blockComments := [("/*", "*/")] },
  { id := "tsx", lineComments := ["//"], blockComments := [("/*", "*/")] },
  { id := "javascript", lineComments := ["//"], blockComments := [("/*", "*/")] },
  { id := "jsx", lineComments := ["//"], blockComments := [("/*", "*/")] },
  { id := "python", lineComments := ["#"], blockComments := [], quotes := ["\"", "'"] },
  { id := "go", lineComments := ["//"], blockComments := [("/*", "*/")] },
  { id := "kotlin", lineComments := ["//"], blockComments := [("/*", "*/")] },
  { id := "java", lineComments := ["//"], blockComments := [("/*", "*/")] },
  { id := "c", lineComments := ["//"], blockComments := [("/*", "*/")], quotes := ["\"", "'"] },
  { id := "cpp", lineComments := ["//"], blockComments := [("/*", "*/")], quotes := ["\"", "'"] },
  { id := "objective-c", lineComments := ["//"], blockComments := [("/*", "*/")], quotes := ["\"", "'"] },
  { id := "csharp", lineComments := ["//"], blockComments := [("/*", "*/")] },
  { id := "swift", lineComments := ["//"], blockComments := [("/*", "*/")], quotes := ["\""] },
  { id := "scala", lineComments := ["//"], blockComments := [("/*", "*/")] },
  { id := "dart", lineComments := ["//"], blockComments := [("/*", "*/")] },
  { id := "ruby", lineComments := ["#"], blockComments := [("=begin", "=end")], quotes := ["\"", "'"] },
  { id := "php", lineComments := ["//", "#"], blockComments := [("/*", "*/")], quotes := ["\"", "'"] },
  { id := "lua", lineComments := ["--"], blockComments := [("--[[", "]]")], quotes := ["\"", "'"] },
  { id := "elixir", lineComments := ["#"], blockComments := [], quotes := ["\"", "'"] },
  { id := "haskell", lineComments := ["--"], blockComments := [("\x7b-", "-\x7d")], quotes := ["\""] },
  { id := "elisp", lineComments := [";"], blockComments := [], quotes := ["\""] },
  { id := "clojure", lineComments := [";"], blockComments := [], quotes := ["\""] },
  { id := "shell", lineComments := ["#"], blockComments := [], quotes := ["\"", "'"] },
  { id := "sql", lineComments := ["--"], blockComments := [("/*", "*/")], quotes := ["'", "\""] },
  { id := "prisma", lineComments := ["//"], blockComments := [] },
  { id := "hcl", lineComments := ["#", "//"], blockComments := [("/*", "*/")], quotes := ["\""] },
  { id := "css", lineComments := [], blockComments := [("/*", "*/")], quotes := ["\"", "'"] },
  { id := "html", lineComments := [], blockComments := [("<!--", "-->")], quotes := ["\"", "'"] },
  { id := "markdown", lineComments := [], blockComments := [], quotes := [] },
  { id := "json", lineComments := [], blockComments := [], quotes := ["\""] },
  { id := "yaml", lineComments := ["#"], blockComments := [], quotes := ["\"", "'"] },
  { id := "toml", lineComments := ["#"], blockComments := [], quotes := ["\"", "'"] },
  { id := "text", lineComments := [], blockComments := [], quotes := [] }]

/-- How one language spells comments and strings. -/
structure Syntax where
  lineComments : List (List UInt8)
  blockComments : List (List UInt8 × List UInt8)
  quotes : List UInt8
  rust : Bool
  go : Bool
  php : Bool
  spacedHash : Bool

/-- `str::as_bytes`. -/
def asBytes (text : String) : List UInt8 := Utf8.encode text.toList

def Syntax.of : Option Language → Syntax
  | none =>
    { lineComments := [asBytes "//"], blockComments := [(asBytes "/*", asBytes "*/")], quotes := [34, 39]
      rust := false, go := false, php := false, spacedHash := true }
  | some language =>
    { lineComments := language.lineComments.map asBytes
      blockComments := language.blockComments.map fun (first, last) => (asBytes first, asBytes last)
      quotes := language.quotes.filterMap fun quote =>
        match asBytes quote with
        | [byte] => some byte
        | _ => none
      rust := language.id = "rust", go := language.id = "go", php := language.id = "php",
        spacedHash := false }

/-- The bytes that can begin a comment, a string or a character literal. -/
def Syntax.indexed (spelling : Syntax) : List UInt8 :=
  (spelling.lineComments ++ spelling.blockComments.map (·.1)).filterMap (·.head?) ++
    spelling.quotes ++ [39] ++ (if spelling.spacedHash then [35] else []) ++
      (if spelling.rust then asBytes "rbc" else [])

def Syntax.starts (spelling : Syntax) (byte : UInt8) : Bool := spelling.indexed.contains byte

inductive State where
  | code
  | block (index depth : Nat)
  | str (quote : UInt8) (triple : Bool) (raw : Option Nat)
  deriving DecidableEq

/-- Bytes before the first one `stop` accepts, or all of them. -/
def next (bytes : List UInt8) (stop : UInt8 → Bool) : Nat :=
  (bytes.takeWhile fun byte => !stop byte).length

def blank (bytes : List UInt8) : List UInt8 := bytes.map fun byte =>
    if byte ≠ 10 ∧ byte ≠ 13 then 32 else byte

/-- `&text[from_..]`; `none` is the panic. -/
def sliceFrom (text : List UInt8) (from_ : Nat) : Option (List UInt8) :=
  if isCharBoundary text from_ = true ∧ from_ ≤ text.length then some (text.drop from_) else none

def lenUtf8 (c : Char) : Nat := (String.utf8EncodeChar c).length

/-- Where the first of so many characters is a quote. -/
def closeIn : Nat → List UInt8 → Option Nat
  | 0, _ => none
  | count + 1, text =>
    match firstChar text with
    | none => none
    | some c => if c = '\'' then some 0 else (closeIn count (text.drop (lenUtf8 c))).map (· + lenUtf8 c)

/-- The length of a character literal that `text` starts with; the outer `none` is a panic. -/
def charLiteral (text : List UInt8) : Option (Option Nat) :=
  match sliceFrom text 1 with
  | none => none
  | some chars =>
    match firstChar chars with
    | none => some none
    | some first =>
      if first = '\\' then
        match sliceFrom text 2 with
        | none => none
        | some more =>
          match firstChar more with
          | none => some none
          | some c =>
            match sliceFrom text (2 + lenUtf8 c) with
            | none => none
            | some rest => some ((closeIn 10 rest).map fun at_ => 2 + lenUtf8 c + at_ + 1)
      else if first = '\'' ∨ first = '\n' then some none
      else if firstChar (chars.drop (lenUtf8 first)) = some '\'' then some (some (lenUtf8 first + 2))
      else some none

/-- `u8::is_ascii_whitespace`. -/
def isAsciiWhitespace (byte : UInt8) : Bool :=
  byte == 32 || byte == 9 || byte == 10 || byte == 12 || byte == 13

/-- A byte of a word. -/
def isWord (byte : UInt8) : Bool :=
  (48 ≤ byte && byte ≤ 57) || (65 ≤ byte && byte ≤ 90) || (97 ≤ byte && byte ≤ 122) || byte == 95

namespace Syntax

variable (spelling : Syntax)

/-- The block comment that opens here; `previous` is the byte before. -/
def blockOpener (previous : Option UInt8) (rest : List UInt8) : Option Nat :=
  spelling.blockComments.findIdx? fun (first, _) =>
    first.isPrefixOf rest && (first.head? != some 61 || previous == none || previous == some 10)

def lineComment (previous : Option UInt8) (rest : List UInt8) : Bool :=
  if spelling.spacedHash && rest.head? == some 35 then
    match rest[1]? with
    | none => true
    | some following => isAsciiWhitespace following
  else
    spelling.lineComments.any fun marker =>
      marker.isPrefixOf rest &&
        (marker != [35] ||
          !(previous == some 36 || previous == some 123 || spelling.php && rest[1]? == some 91))

end Syntax

/-- The bytes before the opening quote of a raw string, that quote included, and the number of
hashes behind its end. -/
def rustRawString (previous : Option UInt8) (rest : List UInt8) : Option (Nat × Nat) :=
  let skip := if rest.head? = some 98 ∨ rest.head? = some 99 then 1 else 0
  if rest[skip]? ≠ some 114 ∨ previous.any isWord then none
  else
    let hashes := ((rest.drop (skip + 1)).takeWhile (· == 35)).length
    if rest[skip + 1 + hashes]? = some 34 then some (skip + 1 + hashes + 1, hashes) else none

/-- What one turn of the loop does behind its run: the bytes it takes, what they become and the
state behind them. -/
structure Move where
  size : Nat
  out : List UInt8
  state : State

namespace Syntax

variable (spelling : Syntax)

/-- Code, at a byte that may start something. -/
def codeMove (previous : Option UInt8) (rest : List UInt8) : Option Move :=
  let keep (size : Nat) (state : State) : Option Move := some { size, out := rest.take size, state }
  match spelling.blockOpener previous rest with
  | some index =>
    let first := ((spelling.blockComments[index]?).getD ([], [])).1
    some { size := first.length, out := blank (rest.take first.length), state := .block index 1 }
  | none =>
    if spelling.lineComment previous rest then
      let end_ := next rest (· == 10)
      some { size := end_, out := blank (rest.take end_), state := .code }
    else
      match if spelling.rust then rustRawString previous rest else none with
      | some (start, hashes) => keep start (.str 34 false (some hashes))
      | none =>
        let byte := rest.headD 0
        if spelling.quotes.contains byte then
          let triple := !spelling.rust && [byte, byte, byte].isPrefixOf rest
          keep (if triple then 3 else 1)
            (.str byte triple (if spelling.go && byte == 96 then some 0 else none))
        else if byte = 39 then
          match charLiteral rest with
          | none => none
          | some (some len) =>
            some
              { size := len
                out := rest.take 1 ++ blank ((rest.take (len - 1)).drop 1) ++ (rest.take len).drop
                  (len - 1)
                state := .code }
          | some none => keep 1 .code
        else keep 1 .code

def blockMove (index depth : Nat) (rest : List UInt8) : Move :=
  let (first, last) := (spelling.blockComments[index]?).getD ([], [])
  if last.isPrefixOf rest then
    { size := last.length, out := blank (rest.take last.length)
      state := if depth > 1 then .block index (depth - 1) else .code }
  else if spelling.rust && first.isPrefixOf rest then
    { size := first.length, out := blank (rest.take first.length), state := .block index (depth + 1) }
  else { size := 1, out := blank (rest.take 1), state := .block index depth }

/-- The length of the end of a string that is there. -/
def closing (quote : UInt8) (triple : Bool) (raw : Option Nat) (rest : List UInt8) : Option Nat :=
  match raw with
  | some hashes =>
    if (List.replicate hashes 35).isPrefixOf (rest.drop 1) then some (1 + hashes) else none
  | none => if triple then if [quote, quote, quote].isPrefixOf rest then some 3 else none else some 1

def strMove (quote : UInt8) (triple : Bool) (raw : Option Nat) (rest : List UInt8) : Option Move :=
  let byte := rest.headD 0
  if byte = 92 then
    match sliceFrom rest 1 with
    | none => none
    | some behind =>
      let escaped := ((firstChar behind).map lenUtf8).getD 0
      some { size := 1 + escaped, out := blank (rest.take (1 + escaped)), state := .str quote triple raw }
  else if byte = quote then
    match closing quote triple raw rest with
    | some close => some { size := close, out := rest.take close, state := .code }
    | none => some { size := 1, out := blank (rest.take 1), state := .str quote triple raw }
  else
    some
      { size := 1, out := rest.take 1
        state := if triple || raw.isSome || quote == 96 || spelling.rust then .str quote triple
          raw else .code }

/-- The bytes that a state looks at; in code those of `starts`. -/
def stops (starts : UInt8 → Bool) : State → UInt8 → Bool
  | .code, byte => starts byte
  | .block index _, byte =>
    let (first, last) := (spelling.blockComments[index]?).getD ([], [])
    last.head? == some byte || spelling.rust && first.head? == some byte
  | .str quote _ raw, byte => byte == quote || byte == 10 || raw.isNone && byte == 92

def move (state : State) (previous : Option UInt8) (rest : List UInt8) : Option Move :=
  match state with
  | .code => spelling.codeMove previous rest
  | .block index depth => some (spelling.blockMove index depth rest)
  | .str quote triple raw => spelling.strMove quote triple raw rest

/-- What becomes of the bytes that a state runs past. -/
def passed (state : State) (run : List UInt8) : List UInt8 :=
  if state = .code then run else blank run

/-- The loop from a state on; `none` is a panic, or a turn that does not move on. -/
def maskFrom (starts : UInt8 → Bool) (state : State) (previous : Option UInt8) (rest : List UInt8) :
    Option (List UInt8) :=
  let run := next rest (spelling.stops starts state)
  let front := passed state (rest.take run)
  match _there : rest.drop run with
  | [] => some front
  | byte :: tail =>
    match spelling.move state ((rest.take run).getLast?.or previous) (byte :: tail) with
    | none => none
    | some move =>
      if _moves : move.size = 0 then none
      else
        (maskFrom starts move.state ((byte :: tail).take move.size).getLast?
          ((byte :: tail).drop move.size)).map (front ++ move.out ++ ·)
termination_by rest.length
decreasing_by
  have shorter := congrArg List.length _there
  rw [List.length_drop, length_cons] at shorter
  rw [List.length_drop, length_cons]
  omega

/-- The masked bytes that `String::from_utf8` is given. -/
def mask (text : List UInt8) : Option (List UInt8) :=
  spelling.maskFrom spelling.starts .code none text

end Syntax

section Bytes

variable {bytes rest : List UInt8} {stop : UInt8 → Bool}

/-- A masked byte is the text's, or a blank for one that ends no line. -/
def Kept (byte masked : UInt8) : Prop := masked = byte ∨ masked = 32 ∧ byte ≠ 10 ∧ byte ≠ 13

theorem kept_self (bytes : List UInt8) : List.Forall₂ Kept bytes bytes := by
  induction bytes with
  | nil => exact .nil
  | cons byte bytes ih => exact .cons (.inl rfl) ih

theorem kept_blank (bytes : List UInt8) : List.Forall₂ Kept bytes (blank bytes) := by
  induction bytes with
  | nil => exact .nil
  | cons byte bytes ih =>
    refine .cons ?_ ih
    dsimp only
    split
    case isTrue other => exact .inr ⟨rfl, other⟩
    case isFalse => exact .inl rfl

theorem kept_append {first second first' second' : List UInt8}
    (front : List.Forall₂ Kept first first') (back : List.Forall₂ Kept second second') :
    List.Forall₂ Kept (first ++ second) (first' ++ second') := by
  induction front with
  | nil => exact back
  | cons here _ ih => exact .cons here ih

theorem encode_ascii : ∀ code : Fin 128, String.utf8EncodeChar (Char.ofNat code) =
    [UInt8.ofNat code] := by decide

theorem valid_ascii (ascii : ∀ byte ∈ bytes, byte < 0x80) : Valid bytes := by
  induction bytes with
  | nil => exact .nil
  | cons byte bytes ih =>
    have small : byte.toNat < 128 := ascii byte mem_cons_self
    have one := encode_ascii ⟨byte.toNat, small⟩
    rw [UInt8.ofNat_toNat] at one
    have joined := Valid.char (Char.ofNat byte.toNat) (ih fun other member =>
      ascii other (mem_cons_of_mem _ member))
    rwa [one] at joined

theorem valid_blank (bytes : List UInt8) : Valid (blank bytes) := by
  refine valid_ascii fun byte member => ?_
  obtain ⟨old, -, rfl⟩ := List.mem_map.mp member
  split
  case isTrue => decide
  case isFalse line =>
    rcases Decidable.not_and_iff_not_or_not.mp line with ends | ends
    · rw [Decidable.not_not.mp ends]
      decide
    · rw [Decidable.not_not.mp ends]
      decide

theorem drop_next (rest : List UInt8) (stop : UInt8 → Bool) :
    rest.drop (next rest stop) = rest.dropWhile fun byte => !stop byte := by
  have cut : ((rest.takeWhile fun byte => !stop byte) ++ rest.dropWhile fun byte => !stop byte).drop
      (rest.takeWhile fun byte => !stop byte).length = rest.dropWhile fun byte => !stop byte :=
      drop_left
  rwa [takeWhile_append_dropWhile] at cut

theorem stop_of_drop_next {byte : UInt8} {tail : List UInt8}
    (there : rest.drop (next rest stop) = byte :: tail) : stop byte = true := by
  rw [drop_next] at there
  have first := head?_dropWhile_not (fun byte => !stop byte) rest
  rw [there] at first
  simpa using first

theorem startsClean_ascii {byte : UInt8} {tail : List UInt8} (ascii : byte < 0x80) :
    Utf8.StartsClean (byte :: tail) := by
  intro other here
  cases here
  have off : ¬ (0x80 : UInt8) ≤ byte := UInt8.not_le.mpr ascii
  simp [Utf8.isContinuation, off]

theorem valid_next (valid : Valid rest) (ascii : ∀ byte, stop byte = true → byte < 0x80) :
    Valid (rest.take (next rest stop)) ∧ Valid (rest.drop (next rest stop)) := by
  refine valid.split _ ?_ ?_
  · rw [next]
    exact (List.takeWhile_prefix _).length_le
  · cases there : rest.drop (next rest stop) with
    | nil => exact nofun
    | cons byte tail => exact startsClean_ascii (ascii byte (stop_of_drop_next there))

theorem valid_after_ascii {front back : List UInt8} (valid : Valid (front ++ back))
    (ascii : ∀ byte ∈ front, byte < 0x80) : Valid back := by
  induction front with
  | nil => exact valid
  | cons byte front ih =>
    exact ih (valid.after_ascii (ascii byte mem_cons_self))
      fun other member => ascii other (mem_cons_of_mem _ member)

theorem firstChar_of_valid (valid : Valid bytes) {c : Char} (first : firstChar bytes = some c) :
    ∃ more, bytes = String.utf8EncodeChar c ++ more ∧ Valid more := by
  cases valid with
  | nil => cases first
  | @char more other valid =>
    rw [Utf8.firstChar_encodeChar] at first
    cases first
    exact ⟨more, rfl, valid⟩

end Bytes

section Moves

variable {spelling : Syntax} {rest tail : List UInt8} {previous : Option UInt8}

/-- A comment marker as the registry spells them. -/
def Marker (marker : List UInt8) : Prop :=
  marker ≠ [] ∧ marker.head? ≠ some 10 ∧ ∀ byte ∈ marker, byte < 0x80

structure Spelled (spelling : Syntax) : Prop where
  lines : ∀ marker ∈ spelling.lineComments, Marker marker
  blocks : ∀ block ∈ spelling.blockComments, Marker block.1 ∧ Marker block.2
  quotes : ∀ quote ∈ spelling.quotes, quote < 0x80

/-- A state that the loop can be in. -/
def Reached (spelling : Syntax) : State → Prop
  | .code => True
  | .block index _ => ∃ block, spelling.blockComments[index]? = some block
  | .str quote _ _ => quote < 0x80

/-- A move takes some of the bytes, masks them and cuts no character. -/
structure Sound (spelling : Syntax) (rest : List UInt8) (move : Move) : Prop where
  positive : move.size ≠ 0
  inside : move.size ≤ rest.length
  kept : List.Forall₂ Kept (rest.take move.size) move.out
  valid : Valid move.out
  behind : Valid (rest.drop move.size)
  reached : Reached spelling move.state

theorem sound_blank {size : Nat} {state : State} (positive : size ≠ 0) (inside : size ≤ rest.length)
    (behind : Valid (rest.drop size)) (reached : Reached spelling state) :
    Sound spelling rest { size, out := blank (rest.take size), state } :=
  ⟨positive, inside, kept_blank _, valid_blank _, behind, reached⟩

theorem sound_keep {front back : List UInt8} {size : Nat} {state : State} (valid : Valid rest)
    (split : rest = front ++ back) (length : front.length = size) (positive : size ≠ 0)
    (ascii : ∀ byte ∈ front, byte < 0x80) (reached : Reached spelling state) :
    Sound spelling rest { size, out := rest.take size, state } := by
  have kept : rest.take size = front := by rw [split, ← length, take_left]
  have behind : rest.drop size = back := by rw [split, ← length, drop_left]
  refine ⟨positive, ?_, kept_self _, kept ▸ valid_ascii ascii, behind ▸ valid_after_ascii
    (split ▸ valid) ascii, reached⟩
  rw [split, length_append, length]
  exact Nat.le_add_right _ _

theorem sound_marker {marker : List UInt8} {state : State} (valid : Valid rest)
    (here : marker.isPrefixOf rest = true) (some_ : marker ≠ [])
    (ascii : ∀ byte ∈ marker, byte < 0x80) (reached : Reached spelling state) :
    Sound spelling rest
    { size := marker.length, out := blank (rest.take marker.length), state } := by
  obtain ⟨back, rfl⟩ := isPrefixOf_iff_prefix.mp here
  refine sound_blank (fun none_ => some_ (length_eq_zero_iff.mp none_)) ?_ ?_ reached
  · rw [length_append]
    exact Nat.le_add_right _ _
  · rw [drop_left]
    exact valid_after_ascii valid ascii

theorem sound_one {byte : UInt8} {state : State} (valid : Valid (byte :: tail))
    (ascii : byte < 0x80) (reached : Reached spelling state) :
    Sound spelling (byte :: tail) { size := 1, out := (byte :: tail).take 1, state } :=
  sound_keep valid (show byte :: tail = [byte] ++ tail from rfl) rfl Nat.one_ne_zero
    (forall_mem_singleton.mpr ascii) reached

theorem sound_blank_one {byte : UInt8} {state : State} (valid : Valid (byte :: tail))
    (ascii : byte < 0x80) (reached : Reached spelling state) :
    Sound spelling (byte :: tail) { size := 1, out := blank ((byte :: tail).take 1), state } :=
  sound_blank Nat.one_ne_zero (Nat.le_add_left _ _) (valid.after_ascii ascii) reached

theorem block_of_getElem? (spelled : Spelled spelling) {index : Nat}
    {block : List UInt8 × List UInt8} (there : spelling.blockComments[index]? = some block) :
    Marker block.1 ∧ Marker block.2 :=
  spelled.blocks block (mem_of_getElem? there)

theorem blockMove_sound (spelled : Spelled spelling) {byte : UInt8} (valid : Valid (byte :: tail))
    (ascii : byte < 0x80) {index : Nat} (depth : Nat)
    (reached : Reached spelling (.block index depth)) :
    Sound spelling (byte :: tail) (spelling.blockMove index depth (byte :: tail)) := by
  obtain ⟨block, there⟩ := reached
  obtain ⟨first, last⟩ := block_of_getElem? spelled there
  rw [Syntax.blockMove, there, Option.getD_some]
  dsimp only
  split
  case isTrue closes =>
    refine sound_marker valid closes last.1 last.2.2 ?_
    split
    · exact ⟨block, there⟩
    · trivial
  case isFalse =>
    split
    case isTrue opens =>
      exact sound_marker valid (Bool.and_eq_true_iff.mp opens).2 first.1 first.2.2 ⟨block, there⟩
    case isFalse => exact sound_blank_one valid ascii ⟨block, there⟩

theorem sliceFrom_of_valid (front : List UInt8) {back : List UInt8} (whole : Valid (front ++ back))
    (valid : Valid back) : sliceFrom (front ++ back) front.length = some back := by
  have inside : front.length ≤ (front ++ back).length := by
    rw [length_append]
    exact Nat.le_add_right _ _
  have boundary := (Utf8.isCharBoundary_iff whole front.length).mpr
    ⟨inside, by rw [drop_left]; exact valid.startsClean⟩
  rw [sliceFrom, if_pos ⟨boundary, inside⟩, drop_left]

theorem sliceFrom_one {byte : UInt8} (valid : Valid (byte :: tail)) (ascii : byte < 0x80) :
    sliceFrom (byte :: tail) 1 = some tail :=
  sliceFrom_of_valid [byte] valid (valid.after_ascii ascii)

theorem closing_ascii {quote : UInt8} (ascii : quote < 0x80) {triple : Bool} {raw : Option Nat}
    {close : Nat} (closes : Syntax.closing quote triple raw (quote :: tail) = some close) :
    ∃ front back, quote :: tail = front ++ back ∧ front.length = close ∧ close ≠ 0 ∧ ∀ byte ∈ front,
    byte < 0x80 := by
  cases raw with
  | some hashes =>
    rw [Syntax.closing] at closes
    split at closes
    case isFalse => cases closes
    case isTrue here =>
      cases closes
      obtain ⟨back, shape⟩ := isPrefixOf_iff_prefix.mp here
      refine ⟨quote :: List.replicate hashes 35, back, ?_, ?_, by omega, ?_⟩
      · rw [cons_append, shape]
        rfl
      · rw [length_cons, length_replicate, Nat.add_comm]
      · refine forall_mem_cons.mpr ⟨ascii, fun byte member => ?_⟩
        rw [eq_of_mem_replicate member]
        decide
  | none =>
    rw [Syntax.closing] at closes
    split at closes
    case isTrue =>
      split at closes
      case isFalse => cases closes
      case isTrue here =>
        cases closes
        obtain ⟨back, shape⟩ := isPrefixOf_iff_prefix.mp here
        exact ⟨[quote, quote, quote], back, shape.symm, rfl, by decide, by simpa using ascii⟩
    case isFalse =>
      cases closes
      exact ⟨[quote], tail, rfl, rfl, by decide, by simpa using ascii⟩

theorem strMove_sound {byte : UInt8} (valid : Valid (byte :: tail)) (ascii : byte < 0x80)
    {quote : UInt8} (triple : Bool) (raw : Option Nat) (plain : quote < 0x80) :
    ∃ move, spelling.strMove quote triple raw (byte :: tail) = some move ∧
    Sound spelling (byte :: tail) move := by
  rw [Syntax.strMove, headD_cons]
  dsimp only
  split
  case isTrue escapes =>
    rw [sliceFrom_one valid ascii]
    refine ⟨_, rfl, ?_⟩
    have behind := valid.after_ascii ascii
    cases first : firstChar tail with
    | none => exact sound_blank_one valid ascii plain
    | some c =>
      obtain ⟨more, shape, later⟩ := firstChar_of_valid behind first
      refine sound_blank (by omega) ?_ ?_ plain
      · rw [length_cons, shape, length_append, Option.map_some, Option.getD_some, lenUtf8]
        omega
      · rw [Option.map_some, Option.getD_some, Nat.add_comm, drop_succ_cons, shape, lenUtf8,
          drop_left]
        exact later
  case isFalse =>
    split
    case isTrue ends =>
      subst ends
      split
      case h_1 close closes =>
        obtain ⟨front, back, shape, length, positive, all⟩ := closing_ascii ascii closes
        exact ⟨_, rfl, sound_keep valid shape length positive all trivial⟩
      case h_2 => exact ⟨_, rfl, sound_blank_one valid ascii plain⟩
    case isFalse =>
      refine ⟨_, rfl, sound_one valid ascii ?_⟩
      split
      · exact plain
      · trivial

theorem encode_quote : String.utf8EncodeChar '\'' = [39] := by decide

theorem encode_backslash : String.utf8EncodeChar '\\' = [92] := by decide

theorem closeIn_split {count at_ : Nat} {text : List UInt8} (valid : Valid text)
    (found : closeIn count text = some at_) : ∃ front back, text = front ++ 39 :: back ∧
    front.length = at_ ∧ Valid back := by
  induction count generalizing text at_ with
  | zero => cases found
  | succ count ih =>
    rw [closeIn] at found
    split at found
    case h_1 => cases found
    case h_2 c first =>
      obtain ⟨more, rfl, later⟩ := firstChar_of_valid valid first
      split at found
      case isTrue quote =>
        cases found
        rw [quote, encode_quote]
        exact ⟨[], more, rfl, rfl, later⟩
      case isFalse =>
        rw [lenUtf8, drop_left] at found
        obtain ⟨inner, there, rfl⟩ := Option.map_eq_some_iff.mp found
        obtain ⟨front, back, rfl, rfl, last⟩ := ih later there
        refine ⟨String.utf8EncodeChar c ++ front, back, by rw [append_assoc], ?_, last⟩
        rw [length_append, Nat.add_comm]

/-- A character literal ends behind its second quote, and looking for it never panics. -/
theorem charLiteral_split (valid : Valid (39 :: tail)) :
    ∃ answer, charLiteral (39 :: tail) = some answer ∧ ∀ len, answer = some len →
      ∃ middle back, tail = middle ++ 39 :: back ∧ len = middle.length + 2 ∧ Valid back := by
  have behind := valid.after_ascii (by decide)
  rw [charLiteral, sliceFrom_one valid (by decide)]
  dsimp only
  cases firstly : firstChar tail with
  | none => exact ⟨none, rfl, nofun⟩
  | some first =>
    obtain ⟨more, rfl, later⟩ := firstChar_of_valid behind firstly
    dsimp only
    split
    case isTrue escape =>
      subst escape
      rw [encode_backslash] at valid ⊢
      have two : sliceFrom (39 :: ([92] ++ more)) 2 = some more :=
        sliceFrom_of_valid [39, 92] valid later
      rw [two]
      dsimp only
      cases secondly : firstChar more with
      | none => exact ⟨none, rfl, nofun⟩
      | some c =>
        obtain ⟨rest, rfl, last⟩ := firstChar_of_valid later secondly
        have three : sliceFrom (39 :: ([92] ++ (String.utf8EncodeChar c ++ rest))) (2 + lenUtf8 c) =
            some rest := by
          have sliced := sliceFrom_of_valid (39 :: 92 :: String.utf8EncodeChar c) valid last
          rwa [length_cons, length_cons, Nat.add_assoc, Nat.add_comm] at sliced
        dsimp only
        rw [three]
        refine ⟨_, rfl, fun len found => ?_⟩
        obtain ⟨at_, there, rfl⟩ := Option.map_eq_some_iff.mp found
        obtain ⟨front, back, rfl, rfl, ends⟩ := closeIn_split last there
        refine ⟨92 :: String.utf8EncodeChar c ++ front, back, by simp, ?_, ends⟩
        rw [length_append, length_cons, lenUtf8]
        omega
    case isFalse =>
      split
      case isTrue => exact ⟨none, rfl, nofun⟩
      case isFalse =>
        split
        case isFalse => exact ⟨none, rfl, nofun⟩
        case isTrue closes =>
          rw [lenUtf8, drop_left] at closes
          obtain ⟨back, rfl, last⟩ := firstChar_of_valid later closes
          refine ⟨_, rfl, fun len same => ?_⟩
          cases same
          rw [encode_quote]
          exact ⟨String.utf8EncodeChar first, back, rfl, rfl, last⟩

theorem sound_literal {middle back : List UInt8} (last : Valid back) :
    Sound spelling (39 :: (middle ++ 39 :: back))
      { size := middle.length + 2
        out := (39 :: (middle ++ 39 :: back)).take 1 ++
          blank (((39 :: (middle ++ 39 :: back)).take (middle.length + 2 - 1)).drop 1) ++
          ((39 :: (middle ++ 39 :: back)).take (middle.length + 2)).drop (middle.length + 2 - 1)
        state := .code } := by
  have whole : (39 :: (middle ++ 39 :: back)).take (middle.length + 2) = [39] ++ middle ++ [39] := by
    have long : middle.take (middle.length + 1) = middle := take_of_length_le (Nat.le_succ _)
    simp [take_append, long]
  have inner : ((39 :: (middle ++ 39 :: back)).take (middle.length + 2 - 1)).drop 1 = middle := by
    simp
  have quote : ([39] ++ middle ++ [39]).drop (middle.length + 2 - 1) = [39] := by
    simp
  have behind : (39 :: (middle ++ 39 :: back)).drop (middle.length + 2) = back := by
    simp [drop_append]
  refine ⟨Nat.succ_ne_zero _, by simp, ?_, ?_, ?_, trivial⟩
  · rw [whole, inner, quote]
    exact kept_append (kept_append (kept_self [39]) (kept_blank middle)) (kept_self [39])
  · rw [whole, inner, quote]
    have one : Valid [39] := valid_ascii (forall_mem_singleton.mpr (by decide))
    exact (one.append (valid_blank middle)).append one
  · rwa [behind]

theorem head_of_isPrefixOf {marker : List UInt8} {byte : UInt8} (some_ : marker ≠ [])
    (here : marker.isPrefixOf (byte :: tail) = true) : marker.head? = some byte := by
  cases marker with
  | nil => exact absurd rfl some_
  | cons first marker =>
    rw [isPrefixOf_cons_cons, Bool.and_eq_true, beq_iff_eq] at here
    rw [here.1]
    rfl

theorem lineComment_cases {byte : UInt8}
    (comment : spelling.lineComment previous (byte :: tail) = true) :
    spelling.spacedHash = true ∧ byte = 35 ∨
      ∃ marker ∈ spelling.lineComments, marker.isPrefixOf (byte :: tail) = true := by
  rw [Syntax.lineComment] at comment
  split at comment
  case isTrue hash =>
    rw [Bool.and_eq_true, beq_iff_eq] at hash
    exact .inl ⟨hash.1, Option.some.inj hash.2⟩
  case isFalse =>
    obtain ⟨marker, member, here⟩ := any_eq_true.mp comment
    exact .inr ⟨marker, member, (Bool.and_eq_true_iff.mp here).1⟩

theorem mem_take_one {bytes : List UInt8} {at_ : Nat} {byte : UInt8}
    (member : byte ∈ (bytes.drop at_).take 1) : bytes[at_]? = some byte := by
  rw [← head?_drop]
  cases there : bytes.drop at_ with
  | nil =>
    rw [there] at member
    cases member
  | cons first rest =>
    rw [there] at member
    rw [mem_singleton.mp member]
    rfl

theorem rustRawString_ascii {byte : UInt8} {start hashes : Nat}
    (raw : rustRawString previous (byte :: tail) = some (start, hashes)) :
    ∃ front back, byte :: tail = front ++ back ∧ front.length = start ∧ start ≠ 0 ∧ ∀ byte ∈ front,
    byte < 0x80 := by
  rw [rustRawString, head?_cons] at raw
  obtain ⟨skip, skipped⟩ : ∃ skip, skip = if some byte = some 98 ∨ some byte = some 99 then 1
    else 0 := ⟨_, rfl⟩
  simp only [← skipped] at raw
  split at raw
  case isTrue => cases raw
  case isFalse letter =>
    rw [not_or, Decidable.not_not] at letter
    split at raw
    case isFalse => cases raw
    case isTrue quote =>
      cases raw
      obtain ⟨count, counted⟩ :
          ∃ count, count = (((byte :: tail).drop (skip + 1)).takeWhile (· == 35)).length := ⟨_, rfl⟩
      rw [← counted] at quote ⊢
      have inside := (List.getElem?_eq_some_iff.mp quote).1
      refine ⟨_, _, (take_append_drop (skip + 1 + count + 1) (byte :: tail)).symm,
        length_take_of_le inside, Nat.succ_ne_zero _, fun other member => ?_⟩
      rw [take_add, take_add, take_add] at member
      rcases mem_append.mp member with early | last
      · rcases mem_append.mp early with early | hash
        · rcases mem_append.mp early with first | middle
          · split at skipped
            case isTrue kind =>
              rw [skipped] at first
              rw [mem_singleton.mp first]
              rcases kind with same | same
              · rw [Option.some.inj same]
                decide
              · rw [Option.some.inj same]
                decide
            case isFalse =>
              rw [skipped] at first
              cases first
          · have same := letter.1.symm.trans (mem_take_one middle)
            rw [← Option.some.inj same]
            decide
        · have kept : ((byte :: tail).drop (skip + 1)).take count =
              ((byte :: tail).drop (skip + 1)).takeWhile (· == 35) := by
            rw [counted]
            exact (prefix_iff_eq_take.mp (List.takeWhile_prefix _)).symm
          rw [kept] at hash
          have same := all_eq_true.mp all_takeWhile other hash
          rw [beq_iff_eq.mp same]
          decide
      · have same := quote.symm.trans (mem_take_one last)
        rw [← Option.some.inj same]
        decide

theorem codeMove_sound (spelled : Spelled spelling) (previous : Option UInt8) {byte : UInt8}
    (valid : Valid (byte :: tail)) (ascii : byte < 0x80) :
    ∃ move, spelling.codeMove previous (byte :: tail) = some move ∧ Sound spelling (byte :: tail)
    move := by
  rw [Syntax.codeMove]
  dsimp only
  split
  case h_1 index opens =>
    obtain ⟨inside, here, -⟩ := findIdx?_eq_some_iff_getElem.mp opens
    have there : spelling.blockComments[index]? = some spelling.blockComments[index] :=
      getElem?_eq_getElem inside
    have first := (block_of_getElem? spelled there).1
    rw [there, Option.getD_some]
    exact ⟨_, rfl, sound_marker valid (Bool.and_eq_true_iff.mp here).1 first.1 first.2.2 ⟨_, there⟩⟩
  case h_2 =>
    split
    case isTrue comment =>
      have inline : byte ≠ 10 := by
        rcases lineComment_cases comment with ⟨-, hash⟩ | ⟨marker, member, here⟩
        · rw [hash]
          decide
        · obtain ⟨some_, line, -⟩ := spelled.lines marker member
          rw [head_of_isPrefixOf some_ here] at line
          exact fun same => line (congrArg some same)
      refine ⟨_, rfl, sound_blank ?_ ?_ ?_ trivial⟩
      · rw [next, takeWhile_cons_of_pos (by simpa using inline)]
        exact Nat.succ_ne_zero _
      · rw [next]
        exact (List.takeWhile_prefix _).length_le
      · refine (valid_next valid fun byte stop => ?_).2
        rw [beq_iff_eq.mp stop]
        decide
    case isFalse =>
      split
      case h_1 start hashes raw =>
        have raw : rustRawString previous (byte :: tail) = some (start, hashes) := by
          split at raw
          · exact raw
          · cases raw
        obtain ⟨front, back, shape, length, positive, all⟩ := rustRawString_ascii raw
        exact ⟨_, rfl, sound_keep valid shape length positive all
          (show (34 : UInt8) < 0x80 by decide)⟩
      case h_2 =>
        split
        case isTrue =>
          refine ⟨_, rfl, ?_⟩
          split
          case isTrue triple =>
            obtain ⟨back, shape⟩ := isPrefixOf_iff_prefix.mp (Bool.and_eq_true_iff.mp triple).2
            exact sound_keep valid shape.symm rfl (by decide) (by simpa using ascii) ascii
          case isFalse => exact sound_one valid ascii ascii
        case isFalse =>
          split
          case isTrue quote =>
            rw [headD_cons] at quote
            subst quote
            obtain ⟨answer, looked, literal⟩ := charLiteral_split valid
            rw [looked]
            cases answer with
            | none => exact ⟨_, rfl, sound_one valid ascii trivial⟩
            | some len =>
              obtain ⟨middle, back, rfl, rfl, last⟩ := literal len rfl
              exact ⟨_, rfl, sound_literal last⟩
          case isFalse => exact ⟨_, rfl, sound_one valid ascii trivial⟩

theorem mem_indexed {byte : UInt8} :
    spelling.starts byte = true ↔
      (∃ marker ∈ spelling.lineComments, marker.head? = some byte) ∨
        (∃ block ∈ spelling.blockComments, block.1.head? = some byte) ∨ byte ∈ spelling.quotes ∨
        byte = 39 ∨ (spelling.spacedHash = true ∧ byte = 35) ∨
        (spelling.rust = true ∧ byte ∈ asBytes "rbc") := by
  have hash : byte ∈ (if spelling.spacedHash = true then [35] else []) ↔
      spelling.spacedHash = true ∧ byte = 35 := by
    split <;> simp_all
  have raw : byte ∈ (if spelling.rust = true then asBytes "rbc" else []) ↔
      spelling.rust = true ∧ byte ∈ asBytes "rbc" := by
    split <;> simp_all
  rw [Syntax.starts, contains_iff_mem, Syntax.indexed, mem_append, mem_append, mem_append,
    mem_append, mem_singleton, hash, raw, mem_filterMap]
  simp only [mem_append, List.mem_map]
  constructor
  · rintro ((((⟨marker, line | ⟨block, member, rfl⟩, here⟩ | quote) | same) | hash) | raw)
    · exact .inl ⟨marker, line, here⟩
    · exact .inr (.inl ⟨block, member, here⟩)
    · exact .inr (.inr (.inl quote))
    · exact .inr (.inr (.inr (.inl same)))
    · exact .inr (.inr (.inr (.inr (.inl hash))))
    · exact .inr (.inr (.inr (.inr (.inr raw))))
  · rintro (⟨marker, line, here⟩ | ⟨block, member, here⟩ | quote | same | hash | raw)
    · exact .inl (.inl (.inl (.inl ⟨marker, .inl line, here⟩)))
    · exact .inl (.inl (.inl (.inl ⟨block.1, .inr ⟨block, member, rfl⟩, here⟩)))
    · exact .inl (.inl (.inl (.inr quote)))
    · exact .inl (.inl (.inr same))
    · exact .inl (.inr hash)
    · exact .inr raw

theorem Marker.head {marker : List UInt8} (plain : Marker marker) {byte : UInt8}
    (here : marker.head? = some byte) : byte < 0x80 := plain.2.2 byte (mem_of_head? here)

/-- Every byte that a state looks at is ASCII. -/
theorem stops_ascii (spelled : Spelled spelling) {state : State} (reached : Reached spelling state)
    {byte : UInt8} (stop : spelling.stops spelling.starts state byte = true) : byte < 0x80 := by
  cases state with
  | code =>
    rcases mem_indexed.mp stop with ⟨marker, line, here⟩ | ⟨block, member,
      here⟩ | quote | same | hash | raw
    · exact (spelled.lines marker line).head here
    · exact (spelled.blocks block member).1.head here
    · exact spelled.quotes byte quote
    · rw [same]
      decide
    · rw [hash.2]
      decide
    · exact (show ∀ byte ∈ asBytes "rbc", byte < 0x80 by decide +kernel) byte raw.2
  | block index depth =>
    obtain ⟨block, there⟩ := reached
    obtain ⟨first, last⟩ := block_of_getElem? spelled there
    rw [Syntax.stops, there, Option.getD_some] at stop
    rcases Bool.or_eq_true_iff.mp stop with closes | opens
    · exact last.head (beq_iff_eq.mp closes)
    · exact first.head (beq_iff_eq.mp (Bool.and_eq_true_iff.mp opens).2)
  | str quote triple raw =>
    have plain : quote < 0x80 := reached
    rw [Syntax.stops, Bool.or_eq_true, Bool.or_eq_true, beq_iff_eq, beq_iff_eq, Bool.and_eq_true,
      beq_iff_eq] at stop
    rcases stop with (same | same) | ⟨-, same⟩
    · rwa [same]
    · rw [same]
      decide
    · rw [same]
      decide

theorem move_sound (spelled : Spelled spelling) {state : State} (reached : Reached spelling state)
    (previous : Option UInt8) {byte : UInt8} (valid : Valid (byte :: tail)) (ascii : byte < 0x80) :
    ∃ move, spelling.move state previous (byte :: tail) = some move ∧ Sound spelling (byte :: tail)
    move := by
  cases state with
  | code => exact codeMove_sound spelled previous valid ascii
  | block index depth => exact ⟨_, rfl, blockMove_sound spelled valid ascii depth reached⟩
  | str quote triple raw => exact strMove_sound valid ascii triple raw reached

end Moves

section Loop

open Syntax (passed)

variable {spelling : Syntax} {starts : UInt8 → Bool} {state : State} {previous : Option UInt8}
  {rest tail : List UInt8}
  {byte : UInt8}

theorem maskFrom_eq (starts : UInt8 → Bool) (state : State) (previous : Option UInt8)
    (rest : List UInt8) : spelling.maskFrom starts state previous rest =
      match rest.drop (next rest (spelling.stops starts state)) with
      | [] => some (passed state (rest.take (next rest (spelling.stops starts state))))
      | byte :: tail =>
        match spelling.move state ((rest.take (next rest (spelling.stops starts state))).getLast?.or previous)
            (byte :: tail) with
        | none => none
        | some move =>
          if move.size = 0 then none
          else
            (spelling.maskFrom starts move.state ((byte :: tail).take move.size).getLast?
              ((byte :: tail).drop move.size)).map
                (passed state (rest.take (next rest (spelling.stops starts state))) ++ move.out ++
                  ·) := by
  rw [Syntax.maskFrom]
  split
  case h_1 done => rw [done]
  case h_2 byte tail there => simp only [there, dite_eq_ite]

theorem maskFrom_done (done : rest.drop (next rest (spelling.stops starts state)) = []) :
    spelling.maskFrom starts state previous rest =
      some (passed state (rest.take (next rest (spelling.stops starts state)))) := by
  rw [maskFrom_eq, done]

theorem maskFrom_move {move : Move} (there : rest.drop (next rest (spelling.stops starts state)) =
      byte :: tail)
    (moved : spelling.move state
      ((rest.take (next rest (spelling.stops starts state))).getLast?.or previous)
      (byte :: tail) = some move) (positive : move.size ≠ 0) :
    spelling.maskFrom starts state previous rest =
      (spelling.maskFrom starts move.state ((byte :: tail).take move.size).getLast?
        ((byte :: tail).drop move.size)).map
          (passed state (rest.take (next rest (spelling.stops starts state))) ++ move.out ++
            ·) := by
  rw [maskFrom_eq, there]
  dsimp only
  rw [moved]
  exact if_neg positive

theorem kept_passed (state : State) (run : List UInt8) :
    List.Forall₂ Kept run (passed state run) := by
  rw [passed]
  split
  · exact kept_self run
  · exact kept_blank run

/-- The loop comes to the end of any text from any state, and keeps its positions. -/
theorem maskFrom_sound (spelled : Spelled spelling) (reached : Reached spelling state)
    (previous : Option UInt8) (valid : Valid rest) :
    ∃ masked, spelling.maskFrom spelling.starts state previous rest = some masked ∧ Valid masked ∧
      List.Forall₂ Kept rest masked := by
  induction size : rest.length using Nat.strongRecOn generalizing rest state previous with
  | _ size ih =>
    subst size
    have ascii : ∀ byte, spelling.stops spelling.starts state byte = true → byte < 0x80 := fun byte =>
      stops_ascii spelled reached
    obtain ⟨front, back⟩ := valid_next valid ascii
    have passedValid : Valid (passed state
        (rest.take (next rest (spelling.stops spelling.starts state)))) := by
      rw [passed]
      split
      · exact front
      · exact valid_blank _
    have cut := take_append_drop (next rest (spelling.stops spelling.starts state)) rest
    cases there : rest.drop (next rest (spelling.stops spelling.starts state)) with
    | nil =>
      refine ⟨_, maskFrom_done there, passedValid, ?_⟩
      rw [there, append_nil] at cut
      have kept := kept_passed state (rest.take (next rest (spelling.stops spelling.starts state)))
      rwa [cut] at kept ⊢
    | cons byte tail =>
      rw [there] at back
      obtain ⟨move, moved, sound⟩ := move_sound spelled reached
        ((rest.take (next rest (spelling.stops spelling.starts state))).getLast?.or previous) back
        (ascii byte (stop_of_drop_next there))
      have shorter : ((byte :: tail).drop move.size).length < rest.length := by
        have length := congrArg List.length there
        rw [List.length_drop] at length ⊢
        have positive := sound.positive
        have inside := sound.inside
        omega
      obtain ⟨masked, run, validMasked, kept⟩ := ih _ shorter sound.reached
        ((byte :: tail).take move.size).getLast? sound.behind rfl
      refine ⟨_, by rw [maskFrom_move there moved sound.positive, run, Option.map_some], ?_, ?_⟩
      · exact (passedValid.append sound.valid).append validMasked
      · rw [there, ← take_append_drop move.size (byte :: tail)] at cut
        rw [← append_assoc] at cut
        have whole := kept_append (kept_append (kept_passed state
          (rest.take (next rest (spelling.stops spelling.starts state)))) sound.kept) kept
        rwa [cut] at whole

/-- A byte that starts nothing is code like any other. -/
theorem codeMove_idle (spelled : Spelled spelling) (idle : spelling.starts byte = false) :
    spelling.codeMove previous (byte :: tail) =
      some { size := 1, out := [byte], state := .code } := by
  have not_ : ¬ spelling.starts byte = true := by simp [idle]
  rw [mem_indexed] at not_
  simp only [not_or] at not_
  obtain ⟨lines, blocks, quotes, quote, hash, raw⟩ := not_
  have closed : spelling.blockOpener previous (byte :: tail) = none := by
    refine findIdx?_eq_none_iff.mpr fun block member => ?_
    rw [Bool.and_eq_false_iff]
    refine .inl (Bool.eq_false_iff.mpr fun here => blocks ⟨block, member, ?_⟩)
    exact head_of_isPrefixOf (spelled.blocks block member).1.1 here
  have plain : ¬ spelling.lineComment previous (byte :: tail) = true := by
    intro comment
    rcases lineComment_cases comment with here | ⟨marker, member, here⟩
    · exact hash here
    · exact lines ⟨marker, member, head_of_isPrefixOf (spelled.lines marker member).1 here⟩
  have letters : asBytes "rbc" = [114, 98, 99] := by decide +kernel
  have cooked : (if spelling.rust = true then rustRawString previous (byte :: tail) else none) =
      none := by
    split
    case isFalse => rfl
    case isTrue rust =>
      have other : byte ∉ asBytes "rbc" := fun member => raw ⟨rust, member⟩
      rw [letters] at other
      simp only [mem_cons, not_mem_nil, or_false, not_or] at other
      have alone : (if some byte = some 98 ∨ some byte = some 99 then 1 else 0) = 0 :=
        if_neg (by simp [other])
      rw [rustRawString, head?_cons]
      simp only [alone]
      exact if_pos (.inl (by simp [other]))
  rw [Syntax.codeMove, closed]
  dsimp only
  rw [if_neg plain, cooked]
  dsimp only
  rw [headD_cons, if_neg (by simpa using quotes), if_neg quote]
  rfl

/-- A run in code goes past a byte that starts nothing. -/
theorem maskFrom_skip (idle : starts byte = false) :
    spelling.maskFrom starts .code previous (byte :: tail) =
      (spelling.maskFrom starts .code (some byte) tail).map (byte :: ·) := by
  have step : next (byte :: tail) (spelling.stops starts .code) =
      next tail (spelling.stops starts .code) + 1 := by
    rw [next, takeWhile_cons_of_pos (by simp [Syntax.stops, idle]), length_cons]
    rfl
  rw [maskFrom_eq starts .code previous, maskFrom_eq starts .code (some byte), step, drop_succ_cons,
    take_succ_cons]
  have last : ((byte :: tail.take (next tail (spelling.stops starts .code))).getLast?.or previous) =
      (tail.take (next tail (spelling.stops starts .code))).getLast?.or (some byte) := by
    rw [getLast?_cons]
    cases (tail.take (next tail (spelling.stops starts .code))).getLast? <;> rfl
  rw [last]
  split
  case h_1 => rfl
  case h_2 =>
    split
    case h_1 => rfl
    case h_2 =>
      split
      case isTrue => rfl
      case isFalse =>
        rw [Option.map_map]
        rfl

/-- Looking at every byte gives what skipping to the next start does. -/
theorem maskFrom_every (spelled : Spelled spelling) (state : State) (previous : Option UInt8)
    (rest : List UInt8) : spelling.maskFrom spelling.starts state previous rest =
      spelling.maskFrom (fun _ => true) state previous rest := by
  induction size : rest.length using Nat.strongRecOn generalizing rest state previous with
  | _ size ih =>
    subst size
    by_cases skips : state = .code ∧ ∃ byte tail, rest = byte :: tail ∧ spelling.starts byte = false
    · obtain ⟨rfl, byte, tail, rfl, idle⟩ := skips
      have run : next (byte :: tail) (spelling.stops (fun _ => true) .code) = 0 := rfl
      have moved : spelling.move .code
          (((byte :: tail).take (next (byte :: tail)
          (spelling.stops (fun _ => true) .code))).getLast?.or previous)
          (byte :: tail) = some { size := 1, out := [byte], state := .code } :=
          codeMove_idle spelled idle
      rw [maskFrom_skip idle, maskFrom_move (by rw [run]; rfl) moved Nat.one_ne_zero,
        ih _ (Nat.lt_succ_self _) .code (some byte) tail rfl]
      rfl
    · have same : next rest (spelling.stops spelling.starts state) =
          next rest (spelling.stops (fun _ => true) state) := by
        cases state with
        | code =>
          cases rest with
          | nil => rfl
          | cons byte tail =>
            have looked : spelling.starts byte = true := by
              by_contra idle
              exact skips ⟨rfl, byte, tail, rfl, Bool.eq_false_iff.mpr idle⟩
            rw [next, next, takeWhile_cons_of_neg (by simp [Syntax.stops, looked]),
              takeWhile_cons_of_neg (by simp [Syntax.stops])]
        | block index depth => rfl
        | str quote triple raw => rfl
      rw [maskFrom_eq spelling.starts, maskFrom_eq (fun _ => true), same]
      cases there : rest.drop (next rest (spelling.stops (fun _ => true) state)) with
      | nil => rfl
      | cons byte tail =>
        dsimp only
        split
        case h_1 => rfl
        case h_2 move moved =>
          split
          case isTrue => rfl
          case isFalse positive =>
            rw [ih _ ?_ move.state _ ((byte :: tail).drop move.size) rfl]
            have length := congrArg List.length there
            rw [List.length_drop, length_cons] at length
            rw [List.length_drop, length_cons]
            omega

end Loop

section Registry

instance : DecidablePred Marker := fun marker =>
  inferInstanceAs (Decidable (marker ≠ [] ∧ marker.head? ≠ some 10 ∧ ∀ byte ∈ marker, byte < 0x80))

theorem spelled_builtin : ∀ language ∈ builtin, Spelled (Syntax.of (some language)) := by
  have all : ∀ language ∈ builtin,
      (∀ marker ∈ (Syntax.of (some language)).lineComments, Marker marker) ∧
        (∀ block ∈ (Syntax.of (some language)).blockComments, Marker block.1 ∧ Marker block.2) ∧
        ∀ quote ∈ (Syntax.of (some language)).quotes, quote < 0x80 := by
    decide +kernel
  intro language member
  obtain ⟨lines, blocks, quotes⟩ := all language member
  exact ⟨lines, blocks, quotes⟩

theorem spelled_unknown : Spelled (Syntax.of none) :=
  ⟨by decide +kernel, by decide +kernel, by decide +kernel⟩

theorem Kept.lines {byte masked : UInt8} (kept : Kept byte masked) :
    (masked == 10, masked == 13) = (byte == 10, byte == 13) := by
  rcases kept with rfl | ⟨rfl, line, feed⟩
  · rfl
  · simp [line, feed]

theorem lines_of_kept {text masked : List UInt8} (kept : List.Forall₂ Kept text masked) :
    masked.map (fun byte => (byte == 10, byte == 13)) = text.map fun byte =>
    (byte == 10, byte == 13) := by
  induction kept with
  | nil => rfl
  | cons here _ ih => rw [map_cons, map_cons, here.lines, ih]

/-- A language of the registry, or none that is known, masks any text: positions and line ends stay,
the masked text is a string, and nothing is missed by going from start to start. -/
theorem mask_keeps {text : List UInt8} (valid : Valid text) {language : Option Language}
    (known : ∀ inside ∈ language, inside ∈ builtin) :
    ∃ masked, (Syntax.of language).mask text = some masked ∧ Valid masked ∧
    masked.length = text.length ∧
      List.Forall₂ Kept text masked ∧ masked.map (fun byte => (byte == 10, byte == 13)) =
        text.map (fun byte => (byte == 10, byte == 13)) ∧
      (Syntax.of language).maskFrom (fun _ => true) .code none text = some masked := by
  have spelled : Spelled (Syntax.of language) := by
    cases language with
    | none => exact spelled_unknown
    | some language => exact spelled_builtin language (known language rfl)
  obtain ⟨masked, run, validMasked, kept⟩ :=
    maskFrom_sound spelled (show Reached (Syntax.of language) .code from trivial) none valid
  refine ⟨masked, run, validMasked, kept.length_eq.symm, kept, ?_, ?_⟩
  · exact lines_of_kept kept
  · rw [← maskFrom_every spelled, run]

/-- A line of Rust with a character and a comment. -/
theorem mask_keeps_rust :
    ∃ masked, (Syntax.of builtin[0]?).mask (asBytes "x 'é' //!") = some masked ∧ Valid masked ∧
      masked.length = (asBytes "x 'é' //!").length ∧ List.Forall₂ Kept (asBytes "x 'é' //!")
      masked ∧ masked.map (fun byte => (byte == 10, byte == 13)) =
        (asBytes "x 'é' //!").map (fun byte => (byte == 10, byte == 13)) ∧
      (Syntax.of builtin[0]?).maskFrom (fun _ => true) .code none (asBytes "x 'é' //!") =
        some masked :=
  mask_keeps (Utf8.Str.valid_ofChars _) fun _ here => mem_of_getElem? here

end Registry

end ForgeNode.Masking
