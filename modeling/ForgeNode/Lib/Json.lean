import Mathlib.Algebra.Ring.Int.Defs
import Mathlib.Data.List.Basic

/-! JSON as it is written: the tokens of a value with the white space between them, and how a text
of tokens can be read. -/

namespace ForgeNode.JsonText

open List

/-- `is_ascii_whitespace`. -/
def isAsciiWhitespace (byte : UInt8) : Bool :=
  byte == 32 || byte == 9 || byte == 10 || byte == 12 || byte == 13

def isDigit (byte : UInt8) : Bool := decide (48 ≤ byte.toNat) && decide (byte.toNat ≤ 57)

def minus : UInt8 := 45
def colon : UInt8 := 58
def quote : UInt8 := 34
def backslash : UInt8 := 92

def inI64 (n : Int) : Option Int := if -2 ^ 63 ≤ n ∧ n < 2 ^ 63 then some n else none

def decimal (digits : List UInt8) : Nat :=
  digits.foldl (fun n digit => 10 * n + (digit.toNat - 48)) 0

section Syntax

/-- White space between the tokens. -/
structure Spaces where
  bytes : List UInt8
  blank : ∀ byte ∈ bytes, byte = 32 ∨ byte = 9 ∨ byte = 10 ∨ byte = 13

/-- A character of a string as it is written. -/
inductive Piece where
  | plain (byte : UInt8) (allowed : byte ≠ quote ∧ byte ≠ backslash ∧ 32 ≤ byte.toNat)
  | escape (letter : UInt8) (allowed : letter ∈ [quote, backslash, 47, 98, 102, 110, 114, 116])
  | unicode (digits : Fin 4 → Fin 16) (upper : Fin 4 → Bool)

def hexDigit (digit : Fin 16) (upper : Bool) : UInt8 :=
  if digit.val < 10 then UInt8.ofNat (48 + digit.val)
  else if upper then UInt8.ofNat (55 + digit.val)
  else UInt8.ofNat (87 + digit.val)

def Piece.text : Piece → List UInt8
  | .plain byte _ => [byte]
  | .escape letter _ => [backslash, letter]
  | .unicode digits upper =>
    backslash :: 117 :: (List.finRange 4).map fun at_ => hexDigit (digits at_) (upper at_)

/-- What it stands for: a byte of the string, or a code unit. -/
def Piece.code : Piece → Nat
  | .plain byte _ => byte.toNat
  | .escape letter _ =>
    if letter = 98 then 8 else if letter = 102 then 12 else if letter = 110 then 10
    else if letter = 114 then 13 else if letter = 116 then 9 else letter.toNat
  | .unicode digits _ => (List.finRange 4).foldl (fun n at_ => 16 * n + (digits at_).val) 0

abbrev Literal := List Piece

def Literal.text (literal : Literal) : List UInt8 := literal.flatMap Piece.text

/-- The string is this ASCII name. -/
def Literal.named (literal : Literal) (name : List UInt8) : Bool :=
  literal.map Piece.code == name.map UInt8.toNat

structure Exponent where
  letter : UInt8
  sign : Option UInt8
  digits : List UInt8
  lettered : letter = 101 ∨ letter = 69
  signed : ∀ byte ∈ sign, byte = 43 ∨ byte = 45
  decimal : digits ≠ [] ∧ ∀ byte ∈ digits, isDigit byte = true

structure Number where
  negative : Bool
  digits : List UInt8
  fraction : List UInt8
  exponent : Option Exponent
  some_ : digits ≠ []
  leading : digits.head? = some 48 → digits = [48]
  decimal : ∀ byte ∈ digits ++ fraction, isDigit byte = true

def Exponent.text (exponent : Exponent) : List UInt8 :=
  exponent.letter :: (exponent.sign.toList ++ exponent.digits)

/-- The number up to its point or exponent. -/
def Number.whole (number : Number) : List UInt8 :=
  (if number.negative then [minus] else []) ++ number.digits

def Number.text (number : Number) : List UInt8 :=
  number.whole ++ ((if number.fraction = [] then [] else 46 :: number.fraction) ++
    (number.exponent.map Exponent.text).getD [])

/-- `as_i64`: a point, an exponent or `-0` makes it a float. -/
def Number.asI64 (number : Number) : Option Int :=
  if number.fraction = [] ∧ number.exponent.isNone ∧ ¬(number.negative = true ∧
    JsonText.decimal number.digits = 0) then
    inI64 (if number.negative then -(JsonText.decimal number.digits : Int) else JsonText.decimal
      number.digits)
  else none

inductive Word where
  | null | true_ | false_

def Word.text : Word → List UInt8
  | .null => [110, 117, 108, 108]
  | .true_ => [116, 114, 117, 101]
  | .false_ => [102, 97, 108, 115, 101]

inductive Mark where
  | openObject | closeObject | openArray | closeArray | comma | colon

def Mark.byte : Mark → UInt8
  | .openObject => 123
  | .closeObject => 125
  | .openArray => 91
  | .closeArray => 93
  | .comma => 44
  | .colon => JsonText.colon

inductive Token where
  | mark (mark : Mark)
  | space (spaces : Spaces)
  | word (word : Word)
  | number (number : Number)
  | literal (literal : Literal)

def Token.text : Token → List UInt8
  | .mark one => [one.byte]
  | .space one => one.bytes
  | .word one => one.text
  | .number one => one.text
  | .literal one => quote :: (one.text ++ [quote])

def textOf (tokens : List Token) : List UInt8 := tokens.flatMap Token.text

mutual

/-- A JSON value as it is written. -/
inductive Json where
  | word (word : Word)
  | number (number : Number)
  | string (literal : Literal)
  | array (gap : Spaces) (items : Items)
  | object (gap : Spaces) (members : Members)

inductive Items where
  | nil
  | cons (before : Spaces) (item : Json) (behind : Spaces) (rest : Items)

inductive Members where
  | nil
  | cons (before : Spaces) (key : Literal) (gap gap' : Spaces) (value : Json) (behind : Spaces)
      (rest : Members)

end

mutual

def Json.tokens : Json → List Token
  | .word one => [.word one]
  | .number one => [.number one]
  | .string one => [.literal one]
  | .array gap items => .mark .openArray :: .space gap :: (items.tokens [] ++ [.mark .closeArray])
  | .object gap members =>
    .mark .openObject :: .space gap :: (members.tokens [] ++ [.mark .closeObject])

/-- The items, with what stands in front of the next one. -/
def Items.tokens : Items → List Token → List Token
  | .nil, _ => []
  | .cons before item behind rest, comma =>
    comma ++ .space before :: (item.tokens ++ .space behind :: rest.tokens [.mark .comma])

def Members.tokens : Members → List Token → List Token
  | .nil, _ => []
  | .cons before key gap gap' value behind rest, comma =>
    comma ++ .space before :: .literal key :: .space gap :: .mark .colon :: .space gap' ::
      (value.tokens ++ .space behind :: rest.tokens [.mark .comma])

end

/-- The value of a key; of two the later one. -/
def Members.get (name : List UInt8) : Members → Option Json
  | .nil => none
  | .cons _ key _ _ value _ rest => match rest.get name with
    | some later => some later
    | none => if key.named name then some value else none

end Syntax

section Strings

def Piece.isQuote : Piece → Bool
  | .escape letter _ => letter == quote
  | _ => false

/-- An escaped quote and the name are the end of the string. -/
def Literal.endsAs (name : List UInt8) : Literal → Bool
  | [] => false
  | piece :: rest => (piece.isQuote && Literal.text rest == name) || Literal.endsAs name rest

/-- The name in quotes stands in the string as it is written. -/
def Literal.reads (name : List UInt8) (literal : Literal) : Bool :=
  literal.text == name || literal.endsAs name

theorem hexDigit_ne (digit : Fin 16) (upper : Bool) : hexDigit digit upper ≠ quote := by
  revert digit upper
  decide

/-- A character is written as itself, or with a backslash in front. -/
theorem Piece.text_cases (piece : Piece) :
    (∃ byte, piece.text = [byte] ∧ byte ≠ quote ∧ byte ≠ backslash ∧ piece.isQuote = false) ∨
    (piece.text = [backslash, quote] ∧ piece.isQuote = true) ∨
    (∃ more, piece.text = backslash :: more ∧ quote ∉ more ∧ piece.isQuote = false) := by
  cases piece with
  | plain byte allowed => exact .inl ⟨byte, rfl, allowed.1, allowed.2.1, rfl⟩
  | escape letter allowed =>
    by_cases same : letter = quote
    · subst same
      exact .inr (.inl ⟨rfl, rfl⟩)
    · refine .inr (.inr ⟨[letter], rfl, fun member => same (mem_singleton.mp member).symm, ?_⟩)
      exact beq_eq_false_iff_ne.mpr same
  | unicode digits upper =>
    refine .inr (.inr ⟨_, rfl, ?_, rfl⟩)
    intro member
    rcases mem_cons.mp member with same | inside
    · cases same
    · obtain ⟨at_, -, same⟩ := List.mem_map.mp inside
      exact hexDigit_ne _ _ same

variable {name : List UInt8}

theorem text_cons (piece : Piece) (rest : Literal) :
    Literal.text (piece :: rest) = piece.text ++ Literal.text rest :=
  rfl

/-- From its first character on, a string closes behind the name just when it is the name. -/
theorem prefix_literal (free : quote ∉ name) (plain : backslash ∉ name) (literal : Literal)
    (rest : List UInt8) : name ++ [quote] <+: literal.text ++ quote :: rest ↔
    literal.text = name := by
  induction literal generalizing name with
  | nil =>
    cases name with
    | nil => exact iff_of_true ⟨rest, rfl⟩ rfl
    | cons first name =>
      refine iff_of_false (fun lead => free ?_) (fun same => ?_)
      · rw [← (cons_prefix_cons.mp lead).1]
        exact mem_cons_self
      · cases same
  | cons piece literal ih =>
    have started : ∀ {first : UInt8} {more : List UInt8}, piece.text = first :: more → first ≠ quote →
        name = [] → ¬ name ++ [quote] <+: Literal.text (piece :: literal) ++ quote :: rest := by
      intro first more shape other none_ lead
      rw [none_, text_cons, shape] at lead
      exact other (cons_prefix_cons.mp lead).1.symm
    have escaped : ∀ {more : List UInt8}, piece.text = backslash :: more →
        (name ++ [quote] <+: Literal.text (piece :: literal) ++ quote :: rest ↔
          Literal.text (piece :: literal) = name) := by
      intro more shape
      cases name with
      | nil =>
        refine iff_of_false (started shape (by decide) rfl) ?_
        rw [text_cons, shape]
        exact cons_ne_nil _ _
      | cons first name =>
        have other : first ≠ backslash := fun same => plain (by rw [same]; exact mem_cons_self)
        rw [text_cons, shape]
        refine iff_of_false (fun lead => other (cons_prefix_cons.mp lead).1) (fun same => other ?_)
        exact (List.cons.inj same).1.symm
    rcases piece.text_cases with ⟨byte, shape, other, -⟩ | ⟨shape, -⟩ | ⟨more, shape, -⟩
    · cases name with
      | nil =>
        refine iff_of_false (started shape other rfl) ?_
        rw [text_cons, shape]
        exact cons_ne_nil _ _
      | cons first name =>
        have rest_ := ih (fun member => free (mem_cons_of_mem _ member))
          fun member => plain (mem_cons_of_mem _ member)
        rw [text_cons, shape]
        change first :: (name ++ [quote]) <+: byte :: (Literal.text literal ++ quote :: rest) ↔
          byte :: Literal.text literal = first :: name
        rw [cons_prefix_cons, rest_, List.cons.injEq, eq_comm]
    · exact escaped shape
    · exact escaped shape

end Strings

section Tokens

theorem digit_ne {byte : UInt8} (digit : isDigit byte = true) {other : UInt8}
    (none_ : isDigit other = false) : byte ≠ other := by
  rintro rfl
  rw [none_] at digit
  cases digit

def Token.isSpace : Token → Bool
  | .space _ => true
  | _ => false

def Token.isLiteral : Token → Bool
  | .literal _ => true
  | _ => false

def Token.isNumber : Token → Bool
  | .number _ => true
  | _ => false

theorem Number.whole_cons (number : Number) : ∃ byte more, number.whole = byte :: more ∧
    (isDigit byte = true ∨ byte = minus) ∧ (∀ b ∈ more, isDigit b = true) := by
  have digits : ∀ b ∈ number.digits, isDigit b = true := fun b member =>
    number.decimal b (mem_append_left _ member)
  unfold Number.whole
  cases number.negative with
  | true => exact ⟨minus, number.digits, rfl, .inr rfl, digits⟩
  | false =>
    obtain ⟨first, more, shape⟩ := exists_cons_of_ne_nil number.some_
    rw [shape] at digits ⊢
    exact ⟨first, more, rfl, .inl (digits first mem_cons_self),
      fun b member => digits b (mem_cons_of_mem _ member)⟩

/-- What follows the integer part: nothing, a point or an exponent. -/
theorem Number.text_whole (number : Number) : ∃ more, number.text = number.whole ++ more ∧
    quote ∉ more ∧ ∀ byte, more.head? = some byte → isDigit byte = false := by
  refine ⟨_, rfl, ?_, ?_⟩
  · intro member
    rcases mem_append.mp member with inside | inside
    · split at inside
      · cases inside
      · rcases mem_cons.mp inside with same | inside
        · cases same
        · exact digit_ne (number.decimal _ (mem_append_right _ inside)) (by decide) rfl
    · cases shape : number.exponent with
      | none =>
        rw [shape] at inside
        cases inside
      | some exponent =>
        rw [shape] at inside
        rcases mem_cons.mp inside with same | inside
        · rcases exponent.lettered with e | e <;> rw [e] at same <;> cases same
        · rcases mem_append.mp inside with sign | digit
          · rcases exponent.signed quote (Option.mem_toList.mp sign) with e | e <;> cases e
          · exact digit_ne (exponent.decimal.2 quote digit) (by decide) rfl
  · intro byte head
    split at head
    · rw [nil_append] at head
      cases shape : number.exponent with
      | none =>
        rw [shape] at head
        cases head
      | some exponent =>
        rw [shape] at head
        cases head
        rcases exponent.lettered with e | e <;> rw [e] <;> decide
    · cases head
      decide

theorem Number.text_quote (number : Number) : quote ∉ number.text := by
  obtain ⟨more, shape, free, -⟩ := number.text_whole
  obtain ⟨byte, rest, whole, first, digits⟩ := number.whole_cons
  rw [shape, whole]
  intro member
  rcases mem_append.mp member with inside | inside
  · rcases mem_cons.mp inside with same | inside
    · rcases first with digit | sign
      · exact digit_ne digit (by decide) same.symm
      · rw [sign] at same
        cases same
    · exact digit_ne (digits quote inside) (by decide) rfl
  · exact free inside

/-- Only a string has a quote in it. -/
theorem Token.text_quote (token : Token) (other : token.isLiteral = false) :
    quote ∉ token.text := by
  cases token with
  | mark one => cases one <;> decide
  | space one =>
    intro member
    rcases one.blank quote member with e | e | e | e <;> cases e
  | word one => cases one <;> decide
  | number one => exact one.text_quote
  | literal one => cases other

/-- How a token that is not white space begins. -/
theorem Token.text_cons (token : Token) (other : token.isSpace = false) :
    ∃ byte more, token.text = byte :: more ∧ isAsciiWhitespace byte = false ∧ byte ≠ 105 ∧
    byte ≠ 109 ∧ (byte = colon → token = .mark .colon) ∧
    ((∃ number, token = .number number) ∨ isDigit byte = false ∧ byte ≠ minus) := by
  cases token with
  | mark one =>
    refine ⟨one.byte, [], rfl, ?_⟩
    cases one <;> simp [Mark.byte, isAsciiWhitespace, colon, minus, isDigit]
  | space one => cases other
  | word one =>
    cases one <;> exact ⟨_, _,
      rfl, by decide, by decide, by decide, fun e => (by cases e), .inr (by decide)⟩
  | number one =>
    obtain ⟨more, shape, -⟩ := one.text_whole
    obtain ⟨byte, rest, whole, first, digits⟩ := one.whole_cons
    refine ⟨byte, rest ++ more, by rw [Token.text, shape, whole]; rfl, ?_⟩
    have apart : ∀ other, isDigit other = false → other ≠ minus → byte ≠ other := by
      intro other none_ noSign
      rcases first with digit | sign
      · exact digit_ne digit none_
      · rw [sign]
        exact noSign.symm
    refine ⟨?_, apart 105 (by decide) (by decide), apart 109 (by decide) (by decide),
      fun same => absurd same (apart colon (by decide) (by decide)), .inl ⟨one, rfl⟩⟩
    simp only [isAsciiWhitespace, Bool.or_eq_false_iff, beq_eq_false_iff_ne]
    exact ⟨⟨⟨⟨apart 32 (by decide) (by decide), apart 9 (by decide) (by decide)⟩, apart 10
      (by decide) (by decide)⟩, apart 12 (by decide) (by decide)⟩, apart 13 (by decide) (by decide)⟩
  | literal one =>
    exact ⟨quote, _, rfl, by decide, by decide, by decide, fun e => (by cases e), .inr (by decide)⟩

theorem textOf_cons (token : Token) (tokens : List Token) :
    textOf (token :: tokens) = token.text ++ textOf tokens :=
  rfl

theorem textOf_append (front back : List Token) :
    textOf (front ++ back) = textOf front ++ textOf back :=
  flatMap_append

/-- Tokens of white space only. -/
def Blank (tokens : List Token) : Prop := ∀ token ∈ tokens, token.isSpace = true

theorem gap_cases (tokens : List Token) :
    Blank tokens ∨ ∃ gap token rest, tokens = gap ++ token :: rest ∧ Blank gap ∧
    token.isSpace = false := by
  induction tokens with
  | nil => exact .inl fun token member => (by cases member)
  | cons token tokens ih =>
    cases kind : token.isSpace with
    | false => exact .inr ⟨[], token, tokens, rfl, fun token member => (by cases member), kind⟩
    | true =>
      rcases ih with blank | ⟨gap, other, rest, rfl, blank, solid⟩
      · exact .inl (forall_mem_cons.mpr ⟨kind, blank⟩)
      · exact .inr ⟨token :: gap, other, rest, rfl, forall_mem_cons.mpr ⟨kind, blank⟩, solid⟩

theorem Token.blank_bytes {token : Token} (kind : token.isSpace = true) :
    ∀ byte ∈ token.text, isAsciiWhitespace byte = true := by
  cases token with
  | space one =>
    intro byte member
    rcases one.blank byte member with e | e | e | e <;> rw [e] <;> rfl
  | mark | word | number | literal => cases kind

theorem Blank.bytes {gap : List Token} (blank : Blank gap) :
    ∀ byte ∈ textOf gap, isAsciiWhitespace byte = true := by
  intro byte member
  obtain ⟨token, inside, here⟩ := mem_flatMap.mp member
  exact Token.blank_bytes (blank token inside) byte here

/-- A number does not run on into what stands behind it. -/
def Ends (tokens : List Token) : Prop := ∀ byte, (textOf tokens).head? = some byte →
    isDigit byte = false

/-- No number runs on. -/
def Spaced : List Token → Prop
  | [] => True
  | token :: rest => ((∃ number, token = .number number) → Ends rest) ∧ Spaced rest

theorem Spaced.back {front back : List Token} (spaced : Spaced (front ++ back)) : Spaced back := by
  induction front with
  | nil => exact spaced
  | cons token front ih => exact ih spaced.2

end Tokens

section Layout

theorem ends_mark (mark : Mark) (rest : List Token) : Ends (.mark mark :: rest) := by
  intro byte head
  cases head
  cases mark <;> decide

theorem ends_space (spaces : Spaces) {rest : List Token} (ends : Ends rest) :
    Ends (.space spaces :: rest) := by
  intro byte head
  rw [textOf_cons, Token.text] at head
  cases bytes : spaces.bytes with
  | nil =>
    rw [bytes] at head
    exact ends byte head
  | cons first more =>
    rw [bytes] at head
    cases head
    rcases spaces.blank byte (by rw [bytes]; exact mem_cons_self) with e | e | e | e <;> rw [e]
      <;> decide

theorem spaced_cons {token : Token} {rest : List Token} (other : token.isNumber = false)
    (spaced : Spaced rest) : Spaced (token :: rest) := by
  refine ⟨?_, spaced⟩
  rintro ⟨number, rfl⟩
  cases other

theorem spaced_comma {comma rest : List Token} (marks : comma = [] ∨ comma = [.mark .comma])
    (spaced : Spaced rest) : Spaced (comma ++ rest) := by
  rcases marks with rfl | rfl
  · exact spaced
  · exact spaced_cons rfl spaced

theorem Items.ends (items : Items) {rest : List Token} (ends : Ends rest) :
    Ends (items.tokens [.mark .comma] ++ rest) := by
  cases items with
  | nil => exact ends
  | cons => exact ends_mark _ _

theorem Members.ends (members : Members) {rest : List Token} (ends : Ends rest) :
    Ends (members.tokens [.mark .comma] ++ rest) := by
  cases members with
  | nil => exact ends
  | cons => exact ends_mark _ _

mutual

theorem Json.spaced (value : Json) {rest : List Token} (ends : Ends rest) (spaced : Spaced rest) :
    Spaced (value.tokens ++ rest) := by
  cases value with
  | word one => exact spaced_cons rfl spaced
  | number one => exact ⟨fun _ => ends, spaced⟩
  | string one => exact spaced_cons rfl spaced
  | array gap items =>
    rw [Json.tokens, cons_append, cons_append, append_assoc]
    refine spaced_cons rfl (spaced_cons rfl ?_)
    exact items.spaced (.inl rfl) (ends_mark _ _) (spaced_cons rfl spaced)
  | object gap members =>
    rw [Json.tokens, cons_append, cons_append, append_assoc]
    refine spaced_cons rfl (spaced_cons rfl ?_)
    exact members.spaced (.inl rfl) (ends_mark _ _) (spaced_cons rfl spaced)

theorem Items.spaced (items : Items) {comma rest : List Token}
    (marks : comma = [] ∨ comma = [.mark .comma]) (ends : Ends rest) (spaced : Spaced rest) :
    Spaced (items.tokens comma ++ rest) := by
  cases items with
  | nil => exact spaced
  | cons before item behind more =>
    rw [Items.tokens, append_assoc, cons_append, append_assoc, cons_append]
    refine spaced_comma marks (spaced_cons rfl ?_)
    refine item.spaced (ends_space _ (more.ends ends)) (spaced_cons rfl ?_)
    exact more.spaced (.inr rfl) ends spaced

theorem Members.spaced (members : Members) {comma rest : List Token}
    (marks : comma = [] ∨ comma = [.mark .comma]) (ends : Ends rest) (spaced : Spaced rest) :
    Spaced (members.tokens comma ++ rest) := by
  cases members with
  | nil => exact spaced
  | cons before key gap gap' value behind more =>
    rw [Members.tokens, append_assoc]
    refine spaced_comma marks
      (spaced_cons rfl (spaced_cons rfl (spaced_cons rfl (spaced_cons rfl (spaced_cons rfl ?_)))))
    change Spaced ((value.tokens ++ .space behind :: more.tokens [.mark .comma]) ++ rest)
    rw [append_assoc, cons_append]
    refine value.spaced (ends_space _ (more.ends ends)) (spaced_cons rfl ?_)
    exact more.spaced (.inr rfl) ends spaced

end

end Layout

end ForgeNode.JsonText
