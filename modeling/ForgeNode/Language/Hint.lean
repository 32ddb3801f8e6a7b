import ForgeNode.Lib.Json
import ForgeNode.Language.Framing

/-! The hint at which request a discarded message answered, against what the message says as
JSON. -/

namespace ForgeNode.Hint

open List JsonText

/-- Where `needle` first stands. -/
def find (needle : List UInt8) : List UInt8 → Option Nat
  | [] => none
  | byte :: rest =>
    if needle.isPrefixOf (byte :: rest) then some 0 else (find needle rest).map (· + 1)

def skipSpace (bytes : List UInt8) : List UInt8 := bytes.dropWhile isAsciiWhitespace

def idName : List UInt8 := [105, 100]
def methodName : List UInt8 := [109, 101, 116, 104, 111, 100]

def quoted (name : List UInt8) : List UInt8 := quote :: (name ++ [quote])

/-- The sign and the digits in front. -/
def numberHead : List UInt8 → List UInt8
  | [] => []
  | byte :: rest => if isDigit byte || byte == minus then byte :: rest.takeWhile isDigit else []

/-- `parse::<i64>` of digits that a sign may lead. -/
def parseI64 : List UInt8 → Option Int
  | [] => none
  | byte :: rest =>
    if byte = minus then if rest = [] then none else inI64 (-(decimal rest : Int))
    else inI64 (decimal (byte :: rest))

/-- The numeric `id` at the head of a discarded body, when that body is a response: a request or
notification names its `method`, which a response never does. -/
def responseIdHint (prefix_ : List UInt8) : Option Int :=
  if (find (quoted methodName) prefix_).isSome then none
  else match find (quoted idName) prefix_ with
    | none => none
    | some at_ => match skipSpace (prefix_.drop (at_ + 4)) with
      | [] => none
      | byte :: rest => if byte = colon then parseI64 (numberHead (skipSpace rest)) else none

/-- The request that is failed for a discarded body. -/
def onOversized (pending : List Int) (prefix_ : List UInt8) : Option Int :=
  (responseIdHint prefix_).filter (· ∈ pending)

section Messages

/-- An object, with the white space around it. -/
structure Message where
  before : Spaces
  gap : Spaces
  members : Members
  behind : Spaces

def Message.tokens (message : Message) : List Token :=
  .space message.before :: ((Json.object message.gap message.members).tokens ++
    [.space message.behind])

def Message.text (message : Message) : List UInt8 := textOf message.tokens

/-- The numeric id at the top level. -/
def Message.id (message : Message) : Option Int :=
  match message.members.get idName with
  | some (.number number) => number.asI64
  | _ => none

/-- `dispatch` takes it for a reply. -/
def Message.isResponse (message : Message) : Prop :=
  ∀ literal, message.members.get methodName ≠ some (.string literal)

theorem Message.spaced (message : Message) : Spaced message.tokens := by
  refine spaced_cons rfl (Json.spaced _ ?_ ?_)
  · exact ends_space _ fun byte head => (by cases head)
  · exact spaced_cons rfl trivial

end Messages

section Finding

variable {needle : List UInt8}

theorem find_take (some_ : needle ≠ []) (text : List UInt8) (limit : Nat) :
    find needle (text.take limit) = (find needle text).filter fun at_ =>
    decide (at_ + needle.length ≤ limit) := by
  have positive := length_pos_iff.mpr some_
  induction text generalizing limit with
  | nil => rw [take_nil]; rfl
  | cons byte rest ih =>
    cases limit with
    | zero =>
      refine (Option.filter_eq_none_iff.mpr fun at_ _ => ?_).symm
      rw [decide_eq_true_iff]
      omega
    | succ limit =>
      have lead : needle.isPrefixOf ((byte :: rest).take (limit + 1)) = true ↔
          needle.isPrefixOf (byte :: rest) = true ∧ needle.length ≤ limit + 1 := by
        rw [List.isPrefixOf_iff_prefix, isPrefixOf_iff_prefix, prefix_take_iff]
      rw [take_succ_cons] at lead ⊢
      rw [find, find, ih]
      by_cases here : needle.isPrefixOf (byte :: rest) = true
      · rw [if_pos here]
        rw [Option.filter_some, Nat.zero_add]
        by_cases short : needle.length ≤ limit + 1
        · rw [if_pos (lead.mpr ⟨here, short⟩), if_pos (decide_eq_true short)]
        · rw [if_neg fun now => short (lead.mp now).2, if_neg (by rwa [decide_eq_true_iff]),
            Option.map_eq_none_iff, Option.filter_eq_none_iff]
          intro at_ _
          rw [decide_eq_true_iff]
          omega
      · rw [if_neg here, if_neg fun now => here (lead.mp now).1]
        cases find needle rest with
        | none => rfl
        | some at_ =>
          rw [Option.map_some, Option.filter_some, Option.filter_some]
          have same : at_ + 1 + needle.length ≤ limit + 1 ↔ at_ + needle.length ≤ limit := by omega
          simp only [same]
          split <;> rfl

variable {name : List UInt8}

theorem quoted_ne (name : List UInt8) : quoted name ≠ [] := cons_ne_nil _ _

theorem find_skip {byte : UInt8} (other : byte ≠ quote) (rest : List UInt8) :
    find (quoted name) (byte :: rest) = (find (quoted name) rest).map (· + 1) := by
  have none_ : ¬ (quoted name).isPrefixOf (byte :: rest) = true := by
    rw [List.isPrefixOf_iff_prefix]
    exact fun lead => other (cons_prefix_cons.mp lead).1.symm
  rw [find, if_neg none_]

theorem find_free {front : List UInt8} (free : quote ∉ front) (rest : List UInt8) :
    find (quoted name) (front ++ rest) = (find (quoted name) rest).map (· + front.length) := by
  induction front with
  | nil => simp
  | cons byte front ih =>
    have other : byte ≠ quote := fun same => free (by rw [same]; exact mem_cons_self)
    rw [cons_append, find_skip other, ih fun member => free (mem_cons_of_mem _ member),
      Option.map_map]
    rfl

theorem find_quote (rest : List UInt8) :
    find (quoted name) (quote :: rest) =
      if (name ++ [quote]).isPrefixOf rest then some 0 else (find (quoted name) rest).map
        (· + 1) := by
  rw [find, quoted, isPrefixOf_cons_cons, beq_self_eq_true, Bool.true_and]

end Finding

section Strings

/-- A name that no token but a string holds. -/
structure Name (name : List UInt8) : Prop where
  quote : JsonText.quote ∉ name
  backslash : JsonText.backslash ∉ name
  starts : ∃ first rest, name = first :: rest ∧ (first = 105 ∨ first = 109)

theorem idName_name : Name idName := ⟨by decide, by decide, 105, [100], rfl, .inl rfl⟩

theorem methodName_name : Name methodName :=
  ⟨by decide, by decide, 109, [101, 116, 104, 111, 100], rfl, .inr rfl⟩

variable {name : List UInt8}

/-- Behind its opening quote, a string holds the name in quotes at its very end or not at all. -/
theorem find_literal (named : Name name) (literal : Literal) {rest : List UInt8}
    (apart : ¬ name ++ [quote] <+: rest) :
    (literal.endsAs name = true → ∃ at_, find (quoted name) (literal.text ++ quote :: rest) =
      some at_ ∧
      at_ + name.length + 1 = literal.text.length) ∧
    (literal.endsAs name = false → find (quoted name) (literal.text ++ quote :: rest) =
      (find (quoted name) rest).map (· + (literal.text.length + 1))) := by
  induction literal with
  | nil =>
    refine ⟨fun never => (by cases never), fun _ => ?_⟩
    change find (quoted name) (quote :: rest) = _
    rw [find_quote, if_neg (by rwa [List.isPrefixOf_iff_prefix])]
    rfl
  | cons piece literal ih =>
    obtain ⟨ends, passes⟩ := ih
    have skipped : ∀ {front : List UInt8}, quote ∉ front → piece.text = front →
        piece.isQuote = false → (Literal.endsAs name (piece :: literal) = true →
          ∃ at_, find (quoted name) (Literal.text (piece :: literal) ++ quote :: rest) = some at_ ∧
            at_ + name.length + 1 = (Literal.text (piece :: literal)).length) ∧
        (Literal.endsAs name (piece :: literal) = false →
          find (quoted name) (Literal.text (piece :: literal) ++ quote :: rest) =
            (find (quoted name) rest).map (· + ((Literal.text (piece :: literal)).length + 1))) := by
      intro front free shape closed
      rw [Literal.endsAs, closed, Bool.false_and, Bool.false_or, text_cons, shape, append_assoc,
        find_free free, length_append]
      constructor
      · intro inside
        obtain ⟨at_, found, where_⟩ := ends inside
        exact ⟨at_ + front.length, by rw [found]; rfl, by omega⟩
      · intro outside
        rw [passes outside, Option.map_map]
        congr 1
        funext at_
        simp only [Function.comp_apply]
        omega
    rcases piece.text_cases with ⟨byte, shape, other, -, closed⟩ | ⟨shape, closed⟩ | ⟨more, shape,
      free, closed⟩
    · exact skipped (fun member => other (mem_singleton.mp member).symm) shape closed
    · have close : (name ++ [quote]).isPrefixOf (Literal.text literal ++ quote :: rest) =
          (Literal.text literal == name) := by
        rw [Bool.eq_iff_iff, isPrefixOf_iff_prefix, beq_iff_eq]
        exact prefix_literal named.quote named.backslash literal rest
      rw [Literal.endsAs, closed, Bool.true_and, text_cons, shape]
      change (_ → ∃ at_, find _ (backslash :: quote :: (Literal.text literal ++ quote :: rest)) =
        _ ∧ _) ∧ (_ → find _ (backslash :: quote :: (Literal.text literal ++ quote :: rest)) = _)
      rw [find_skip (by decide), find_quote, close]
      cases whole : Literal.text literal == name with
      | true =>
        rw [Bool.true_or, if_pos rfl]
        have same := beq_iff_eq.mp whole
        refine ⟨fun _ => ⟨1, rfl, ?_⟩, fun never => (by cases never)⟩
        rw [← same]
        simp [Nat.add_comm]
      | false =>
        rw [Bool.false_or, if_neg Bool.false_ne_true]
        constructor
        · intro inside
          obtain ⟨at_, found, where_⟩ := ends inside
          refine ⟨at_ + 1 + 1, by rw [found]; rfl, ?_⟩
          simp
          omega
        · intro outside
          rw [passes outside, Option.map_map, Option.map_map]
          congr 1
    · refine @skipped (backslash :: more) ?_ shape closed
      intro member
      rcases mem_cons.mp member with same | inside
      · cases same
      · exact free inside

end Strings

section Tokens

variable {name : List UInt8}

/-- The text behind a string never goes on as a name would. -/
theorem apart_tokens (named : Name name) (tokens : List Token) :
    ¬ name ++ [quote] <+: textOf tokens := by
  obtain ⟨first, rest, shape, letter⟩ := named.starts
  intro lead
  induction tokens with
  | nil =>
    rw [shape] at lead
    exact cons_ne_nil _ _ (prefix_nil.mp lead)
  | cons token tokens ih =>
    cases blank : token.isSpace with
    | true =>
      cases token with
      | space one =>
        cases bytes : one.bytes with
        | nil =>
          rw [textOf_cons, Token.text, bytes] at lead
          exact ih lead
        | cons byte more =>
          rw [textOf_cons, Token.text, bytes, shape] at lead
          have same := (cons_prefix_cons.mp lead).1
          have white := one.blank byte (by rw [bytes]; exact mem_cons_self)
          rw [← same] at white
          rcases letter with e | e <;> rw [e] at white <;> revert white <;> decide
      | mark | word | number | literal => cases blank
    | false =>
      obtain ⟨byte, more, text, -, noI, noM, -⟩ := token.text_cons blank
      rw [textOf_cons, text, shape] at lead
      have same := (cons_prefix_cons.mp lead).1
      rcases letter with e | e
      · exact noI (same.symm.trans e)
      · exact noM (same.symm.trans e)

/-- No string among the tokens reads as the name. -/
def Silent (name : List UInt8) (tokens : List Token) : Prop :=
  ∀ literal, .literal literal ∈ tokens → literal.reads name = false

theorem find_silent (named : Name name) {front : List Token} (silent : Silent name front)
    (back : List Token) : find (quoted name) (textOf (front ++ back)) =
      (find (quoted name) (textOf back)).map (· + (textOf front).length) := by
  induction front with
  | nil => simp [textOf]
  | cons token front ih =>
    have rest := ih fun literal member => silent literal (mem_cons_of_mem _ member)
    have passed : find (quoted name) (token.text ++ textOf (front ++ back)) =
        (find (quoted name) (textOf (front ++ back))).map (· + token.text.length) := by
      cases kind : token.isLiteral with
      | false => exact find_free (token.text_quote kind) _
      | true =>
        cases token with
        | literal one =>
          have quiet := silent one mem_cons_self
          rw [Literal.reads, Bool.or_eq_false_iff] at quiet
          have close := prefix_literal named.quote named.backslash one (textOf (front ++ back))
          have pass := (find_literal named one (apart_tokens named (front ++ back))).2 quiet.2
          have shape : Token.text (.literal one) ++ textOf (front ++ back) =
              quote :: (one.text ++ quote :: textOf (front ++ back)) := by
            simp [Token.text]
          rw [shape, find_quote, if_neg, pass, Option.map_map]
          · congr 1
            funext at_
            simp [Token.text, Nat.add_assoc]
          · rw [List.isPrefixOf_iff_prefix, close]
            exact beq_eq_false_iff_ne.mp quiet.1
        | mark | space | word | number => cases kind
    rw [cons_append, textOf_cons, passed, rest, Option.map_map, textOf_cons, length_append]
    congr 1
    funext at_
    simp only [Function.comp_apply]
    omega

/-- The first string that reads as a name is where the name is found. -/
theorem find_first (named : Name name) {front : List Token} (silent : Silent name front)
    {literal : Literal} (reads : literal.reads name = true) (back : List Token) :
    ∃ at_, find (quoted name) (textOf (front ++ .literal literal :: back)) = some at_ ∧
      at_ + (quoted name).length = (textOf (front ++ [.literal literal])).length := by
  have shape : textOf (.literal literal :: back) = quote ::
      (literal.text ++ quote :: textOf back) := by
    simp [textOf_cons, Token.text]
  have close := prefix_literal named.quote named.backslash literal (textOf back)
  have inside := (find_literal named literal (apart_tokens named back)).1
  rw [find_silent named silent, textOf_append, length_append, shape, find_quote]
  have size : (textOf [.literal literal]).length = literal.text.length + 2 := by
    simp [textOf, Token.text]
  by_cases whole : literal.text = name
  · rw [if_pos (by rw [List.isPrefixOf_iff_prefix, close]; exact whole)]
    refine ⟨_, rfl, ?_⟩
    rw [size, whole]
    simp [quoted]
  · rw [if_neg (by rw [List.isPrefixOf_iff_prefix, close]; exact whole)]
    rw [Literal.reads, Bool.or_eq_true, beq_iff_eq] at reads
    obtain ⟨at_, found, where_⟩ := inside (reads.resolve_left whole)
    refine ⟨_, by rw [found]; rfl, ?_⟩
    rw [size, ← where_]
    simp [quoted]
    omega

/-- The tokens up to the first string that reads as a name. -/
theorem first_reads (name : List UInt8) (tokens : List Token) :
    Silent name tokens ∨ ∃ front literal back, tokens = front ++ .literal literal :: back ∧
    Silent name front ∧
      literal.reads name = true := by
  induction tokens with
  | nil => exact .inl fun literal member => (by cases member)
  | cons token tokens ih =>
    by_cases here : ∃ literal, token = .literal literal ∧ literal.reads name = true
    · obtain ⟨literal, rfl, reads⟩ := here
      exact .inr ⟨[], literal, tokens, rfl, fun literal member => (by cases member), reads⟩
    · have quiet : ∀ literal, token = .literal literal → literal.reads name = false :=
        fun literal same =>
        Bool.eq_false_iff.mpr fun reads => here ⟨literal, same, reads⟩
      have longer : ∀ front, Silent name front → Silent name (token :: front) :=
        fun front silent literal member =>
        (mem_cons.mp member).elim (fun same => quiet literal same.symm) (silent literal)
      rcases ih with silent | ⟨front, literal, back, rfl, silent, reads⟩
      · exact .inl (longer tokens silent)
      · exact .inr ⟨token :: front, literal, back, rfl, longer front silent, reads⟩

end Tokens

section Reading

theorem skip_blank {gap : List Token} (blank : Blank gap) (limit : Nat) :
    skipSpace ((textOf gap).take limit) = [] :=
  dropWhile_eq_nil_iff.mpr fun byte member => blank.bytes byte (mem_of_mem_take member)

theorem skip_gap {gap : List Token} (blank : Blank gap) {token : Token}
    (solid : token.isSpace = false) (rest : List Token) (limit : Nat) :
    skipSpace ((textOf (gap ++ token :: rest)).take limit) =
      (textOf (token :: rest)).take (limit - (textOf gap).length) := by
  obtain ⟨byte, more, text, white, -⟩ := token.text_cons solid
  rw [textOf_append, take_append, skipSpace,
    dropWhile_append_of_pos fun byte member => blank.bytes byte (mem_of_mem_take member),
    textOf_cons, text]
  cases limit - (textOf gap).length with
  | zero => rfl
  | succ limit => exact dropWhile_cons_of_neg (by rw [white]; exact Bool.false_ne_true)

theorem numberHead_take (number : Number) {rest : List Token} (ends : Ends rest) (limit : Nat) :
    numberHead ((textOf (.number number :: rest)).take limit) = number.whole.take limit := by
  obtain ⟨more, text, -, stops⟩ := number.text_whole
  obtain ⟨byte, digits, whole, first, decimal⟩ := number.whole_cons
  have stop : ∀ byte, (more ++ textOf rest).head? = some byte → isDigit byte = false := by
    intro byte head
    cases more with
    | nil => exact ends byte head
    | cons point more => exact stops byte head
  have shape : textOf (.number number :: rest) = byte :: (digits ++ (more ++ textOf rest)) := by
    rw [textOf_cons, Token.text, text, whole, append_assoc]
    rfl
  rw [shape, whole]
  cases limit with
  | zero => rfl
  | succ limit =>
    have sign : (isDigit byte || byte == minus) = true := by
      rcases first with digit | sign
      · rw [digit]
        rfl
      · rw [sign]
        rfl
    rw [take_succ_cons, take_succ_cons, numberHead, if_pos sign, take_append,
      takeWhile_append_of_pos fun byte member => decimal byte (mem_of_mem_take member)]
    have none_ : ((more ++ textOf rest).take (limit - digits.length)).takeWhile isDigit = [] := by
      cases back : more ++ textOf rest with
      | nil => rw [take_nil]; rfl
      | cons point back =>
        rw [back] at stop
        cases limit - digits.length with
        | zero => rfl
        | succ limit =>
          exact takeWhile_cons_of_neg (by rw [stop point rfl]; exact Bool.false_ne_true)
    rw [none_, append_nil]

/-- Behind the colon. -/
theorem value_iff {tokens : List Token} (spaced : Spaced tokens) (limit : Nat) (n : Int) :
    parseI64 (numberHead (skipSpace ((textOf tokens).take limit))) = some n ↔
      ∃ gap number back, tokens = gap ++ .number number :: back ∧ Blank gap ∧
        parseI64 (number.whole.take (limit - (textOf gap).length)) = some n := by
  constructor
  · intro read
    rcases gap_cases tokens with blank | ⟨gap, token, rest, rfl, blank, solid⟩
    · rw [skip_blank blank] at read
      cases read
    · rw [skip_gap blank solid] at read
      obtain ⟨byte, more, text, -, -, -, -, kind⟩ := token.text_cons solid
      rcases kind with ⟨number, rfl⟩ | ⟨noDigit, noSign⟩
      · rw [numberHead_take number (spaced.back.1 ⟨number, rfl⟩)] at read
        exact ⟨gap, number, rest, rfl, blank, read⟩
      · rw [textOf_cons, text] at read
        cases size : limit - (textOf gap).length with
        | zero =>
          rw [size] at read
          cases read
        | succ limit =>
          have none_ : (isDigit byte || byte == minus) = false := by
            rw [noDigit, Bool.false_or]
            exact beq_eq_false_iff_ne.mpr noSign
          rw [size, cons_append, take_succ_cons, numberHead, none_] at read
          cases read
  · rintro ⟨gap, number, back, rfl, blank, read⟩
    rw [skip_gap blank rfl, numberHead_take number (spaced.back.1 ⟨number, rfl⟩)]
    exact read

/-- What follows the key. -/
def afterKey (bytes : List UInt8) : Option Int :=
  match skipSpace bytes with
  | [] => none
  | byte :: rest => if byte = colon then parseI64 (numberHead (skipSpace rest)) else none

theorem afterKey_iff {tokens : List Token} (spaced : Spaced tokens) (limit : Nat) (n : Int) :
    afterKey ((textOf tokens).take limit) = some n ↔
      ∃ gap gap' number back, tokens = gap ++ .mark .colon :: (gap' ++ .number number :: back) ∧
        Blank gap ∧ Blank gap' ∧
        parseI64 (number.whole.take (limit - (textOf (gap ++ .mark .colon :: gap')).length)) =
          some n := by
  have length : ∀ gap gap' : List Token, (textOf (gap ++ .mark .colon :: gap')).length =
      (textOf gap).length + 1 + (textOf gap').length := by
    intro gap gap'
    rw [textOf_append, length_append, textOf_cons, length_append, Nat.add_assoc]
    rfl
  unfold afterKey
  constructor
  · intro read
    rcases gap_cases tokens with blank | ⟨gap, token, rest, rfl, blank, solid⟩
    · rw [skip_blank blank] at read
      cases read
    · rw [skip_gap blank solid] at read
      obtain ⟨byte, more, text, -, -, -, mark, -⟩ := token.text_cons solid
      cases size : limit - (textOf gap).length with
      | zero =>
        rw [size] at read
        cases read
      | succ left =>
        rw [size, textOf_cons, text, cons_append, take_succ_cons] at read
        simp only at read
        split at read
        case isFalse => cases read
        case isTrue same =>
          cases mark same
          cases text
          obtain ⟨gap', number, back, rfl, blank', value⟩ := (value_iff spaced.back.2 left n).mp read
          refine ⟨gap, gap', number, back, rfl, blank, blank', ?_⟩
          have left_ : limit - (textOf (gap ++ .mark .colon :: gap')).length =
              left - (textOf gap').length := by
            rw [length]
            omega
          rw [left_]
          exact value
  · rintro ⟨gap, gap', number, back, rfl, blank, blank', read⟩
    rw [skip_gap blank rfl]
    cases size : limit - (textOf gap).length with
    | zero =>
      have none_ : limit - (textOf (gap ++ .mark .colon :: gap')).length = 0 := by
        rw [length]
        omega
      rw [none_] at read
      cases read
    | succ left =>
      have left_ : limit - (textOf (gap ++ .mark .colon :: gap')).length =
          left - (textOf gap').length := by
        rw [length]
        omega
      rw [left_] at read
      exact (if_pos rfl).trans ((value_iff spaced.back.2 left n).mpr ⟨gap', number, back, rfl,
        blank', read⟩)

end Reading

section Claim

variable {tokens : List Token}

/-- The first string that reads as `method` ends in what is kept of the body. -/
def MethodShown (tokens : List Token) : Prop :=
  ∃ front literal back, tokens = front ++ .literal literal :: back ∧ Silent methodName front ∧
    literal.reads methodName = true ∧ (textOf (front ++ [.literal literal])).length ≤
      Framing.hintPrefix

/-- The first string that reads as `id` is the key of a number, and `n` is what is kept of that
number's integer. -/
def IdShown (tokens : List Token) (n : Int) : Prop :=
  ∃ front key gap gap' number back,
    tokens = front ++ .literal key :: (gap ++ .mark .colon :: (gap' ++ .number number :: back)) ∧
    Silent idName front ∧ key.reads idName = true ∧ Blank gap ∧ Blank gap' ∧
    parseI64 (number.whole.take (Framing.hintPrefix -
      (textOf (front ++ .literal key :: (gap ++ .mark .colon :: gap'))).length)) = some n

theorem find_method (tokens : List Token) :
    (find (quoted methodName) ((textOf tokens).take Framing.hintPrefix)).isSome = true ↔
    MethodShown tokens := by
  rw [find_take (quoted_ne methodName)]
  constructor
  · intro found
    rcases first_reads methodName tokens with silent | ⟨front, literal, back, rfl, silent, reads⟩
    · have none_ := find_silent methodName_name silent []
      rw [append_nil] at none_
      rw [none_] at found
      cases found
    · obtain ⟨at_, first, where_⟩ := find_first methodName_name silent reads back
      rw [first, Option.filter_some] at found
      split at found
      case isTrue short =>
        rw [decide_eq_true_iff, where_] at short
        exact ⟨front, literal, back, rfl, silent, reads, short⟩
      case isFalse => cases found
  · rintro ⟨front, literal, back, rfl, silent, reads, short⟩
    obtain ⟨at_, first, where_⟩ := find_first methodName_name silent reads back
    rw [first, Option.filter_some, if_pos (by rw [decide_eq_true_iff, where_]; exact short)]
    rfl

/-- The hint, read off the tokens of the message. -/
theorem responseIdHint_iff (spaced : Spaced tokens) (n : Int) :
    responseIdHint ((textOf tokens).take Framing.hintPrefix) = some n ↔ ¬ MethodShown tokens ∧
    IdShown tokens n := by
  rw [← find_method]
  have behind : ∀ front key back, tokens = front ++ .literal key :: back → ∀ at_,
      at_ + (quoted idName).length = (textOf (front ++ [.literal key])).length →
      ((textOf tokens).take Framing.hintPrefix).drop (at_ + 4) =
        (textOf back).take (Framing.hintPrefix - (textOf (front ++ [.literal key])).length) := by
    intro front key back same at_ where_
    have size : at_ + 4 = (textOf (front ++ [.literal key])).length := where_
    have split : textOf tokens = textOf (front ++ [.literal key]) ++ textOf back := by
      rw [same, ← textOf_append, append_assoc]
      rfl
    rw [drop_take, size, split, drop_left]
  have total : ∀ (front : List Token) (key : Literal) (gap gap' : List Token),
      (textOf (front ++ .literal key :: (gap ++ .mark .colon :: gap'))).length =
        (textOf (front ++ [.literal key])).length +
        (textOf (gap ++ .mark .colon :: gap')).length := by
    intro front key gap gap'
    rw [← length_append, ← textOf_append, append_assoc]
    rfl
  unfold responseIdHint
  constructor
  · intro hint
    split at hint
    case isTrue => cases hint
    case isFalse quiet =>
      refine ⟨quiet, ?_⟩
      rw [find_take (quoted_ne idName)] at hint
      rcases first_reads idName tokens with silent | ⟨front, key, back, same, silent, reads⟩
      · have none_ := find_silent idName_name silent []
        rw [append_nil] at none_
        rw [none_] at hint
        cases hint
      · obtain ⟨at_, first, where_⟩ := find_first idName_name silent reads back
        rw [← same] at first
        rw [first, Option.filter_some] at hint
        by_cases short : at_ + (quoted idName).length ≤ Framing.hintPrefix
        · rw [if_pos (decide_eq_true short)] at hint
          simp only [behind front key back same at_ where_] at hint
          have tail : Spaced back := by
            rw [same] at spaced
            exact spaced.back.2
          obtain ⟨gap, gap', number, rest, shape, blank, blank', read⟩ :=
            (afterKey_iff tail _ n).mp hint
          refine ⟨front, key, gap, gap', number,
            rest, by rw [same, shape], silent, reads, blank, blank', ?_⟩
          rw [total, ← Nat.sub_sub]
          exact read
        · rw [if_neg (by rwa [decide_eq_true_iff])] at hint
          cases hint
  · rintro ⟨quiet, front, key, gap, gap', number, rest, same, silent, reads, blank, blank', read⟩
    obtain ⟨at_, first, where_⟩ := find_first idName_name silent reads
      (gap ++ .mark .colon :: (gap' ++ .number number :: rest))
    rw [← same] at first
    rw [total] at read
    have short : at_ + (quoted idName).length ≤ Framing.hintPrefix := by
      by_contra long
      rw [Nat.sub_eq_zero_of_le (by omega)] at read
      cases read
    have tail : Spaced (gap ++ .mark .colon :: (gap' ++ .number number :: rest)) := by
      rw [same] at spaced
      exact spaced.back.2
    rw [if_neg quiet, find_take (quoted_ne idName), first, Option.filter_some,
      if_pos (decide_eq_true short)]
    simp only [behind front key _ same at_ where_]
    refine (afterKey_iff tail _ n).mpr ⟨gap, gap', number, rest, rfl, blank, blank', ?_⟩
    rw [Nat.sub_sub]
    exact read

/-- A discarded message fails no other request than the one it answers. -/
def Right (message : Message) : Prop :=
  (∀ n, responseIdHint (message.text.take Framing.hintPrefix) = some n → message.id = some n ∧
    message.isResponse) ∧ ∀ pending n, onOversized pending (message.text.take Framing.hintPrefix) =
      some n → message.id = some n ∧ message.isResponse

/-- The request failed is the one answered exactly when the integer that the kept bytes show for the
first string that reads as `id` is the id of the message, which is a reply, or when those bytes show
`method`. -/
theorem oversized_right_iff (message : Message) :
    Right message ↔ MethodShown message.tokens ∨
      ∀ n, IdShown message.tokens n → message.id = some n ∧ message.isResponse := by
  have hint := fun n => responseIdHint_iff message.spaced n
  constructor
  · intro right
    refine or_iff_not_imp_left.mpr fun quiet n shown => right.1 n ((hint n).mpr ⟨quiet, shown⟩)
  · intro condition
    have sound : ∀ n, responseIdHint (message.text.take Framing.hintPrefix) = some n →
        message.id = some n ∧ message.isResponse := by
      intro n told
      obtain ⟨quiet, shown⟩ := (hint n).mp told
      exact condition.resolve_left quiet n shown
    exact ⟨sound, fun pending n failed => sound n (Option.mem_filter_iff.mp failed).1⟩

end Claim

section Nested

def noSpaces : Spaces := { bytes := [], blank := fun byte member => (by cases member) }

def digit (byte : UInt8) (decimal : isDigit byte = true) : Number where
  negative := false
  digits := [byte]
  fraction := []
  exponent := none
  some_ := cons_ne_nil _ _
  leading := fun head => by rw [Option.some.inj head]
  decimal := fun b member => by rw [mem_singleton.mp member]; exact decimal

def letter : Piece := .plain 97 (by decide)
def idKey : Literal := [.plain 105 (by decide), .plain 100 (by decide)]
def resultKey : Literal := [.plain 114 (by decide)]

/-- `{"r":{"id":5,"r":"aaa.."},"id":7}`. -/
def nestedReply (size : Nat) : Message where
  before := noSpaces
  gap := noSpaces
  members := .cons noSpaces resultKey noSpaces noSpaces
    (.object noSpaces (.cons noSpaces idKey noSpaces noSpaces (.number (digit 53 rfl)) noSpaces
      (.cons noSpaces resultKey noSpaces noSpaces (.string (List.replicate size letter)) noSpaces
      .nil)))
    noSpaces (.cons noSpaces idKey noSpaces noSpaces (.number (digit 55 rfl)) noSpaces .nil)
  behind := noSpaces

theorem text_letters (size : Nat) :
    Literal.text (List.replicate size letter) = List.replicate size 97 := by
  induction size with
  | zero => rfl
  | succ size ih => rw [replicate_succ, text_cons, ih]; rfl

theorem letters_quiet {name : List UInt8} {byte : UInt8} (member : byte ∈ name) (other : byte ≠ 97)
    (size : Nat) : Literal.reads name (List.replicate size letter) = false := by
  have apart : ∀ size, Literal.text (List.replicate size letter) ≠ name := by
    intro size same
    rw [← same, text_letters] at member
    exact other (eq_of_mem_replicate member)
  have ends : Literal.endsAs name (List.replicate size letter) = false := by
    induction size with
    | zero => rfl
    | succ size ih =>
      rw [replicate_succ, Literal.endsAs, ih]
      rfl
  rw [Literal.reads, ends, Bool.or_false]
  exact beq_eq_false_iff_ne.mpr (apart size)

theorem nestedReply_silent (size : Nat) : Silent methodName (nestedReply size).tokens := by
  intro literal member
  have which : literal = resultKey ∨ literal = idKey ∨ literal = List.replicate size letter := by
    simp only [nestedReply, Message.tokens, Json.tokens, Members.tokens, mem_append, mem_cons,
      not_mem_nil, or_false, Token.literal.injEq, reduceCtorEq, false_or] at member
    tauto
  rcases which with rfl | rfl | rfl
  · decide
  · decide
  · exact @letters_quiet methodName 109 (by decide) (by decide) size

theorem nestedReply_shown (size : Nat) : IdShown (nestedReply size).tokens 5 := by
  refine ⟨[.space noSpaces, .mark .openObject, .space noSpaces, .space noSpaces, .literal resultKey,
    .space noSpaces, .mark .colon, .space noSpaces, .mark .openObject, .space noSpaces,
    .space noSpaces], idKey, [.space noSpaces],
    [.space noSpaces], digit 53 rfl, _, rfl, ?_, rfl, ?_, ?_, ?_⟩
  · intro literal member
    have which : literal = resultKey := by
      simpa using member
    rw [which]
    decide
  · exact forall_mem_singleton.mpr rfl
  · exact forall_mem_singleton.mpr rfl
  · decide

theorem nestedReply_long (size : Nat) : size < (nestedReply size).text.length := by
  have inside : Token.literal (List.replicate size letter) ∈ (nestedReply size).tokens := by
    simp [nestedReply, Message.tokens, Json.tokens, Members.tokens]
  have length : (Token.literal (List.replicate size letter)).text.length ≤
      (nestedReply size).text.length := by
    obtain ⟨front, back, shape⟩ := append_of_mem inside
    rw [Message.text, shape, textOf_append, textOf_cons, length_append, length_append]
    omega
  rw [Token.text, text_letters, length_cons, length_append, length_replicate] at length
  omega

theorem nestedReply_wrong (size : Nat) : ¬ Right (nestedReply size) := by
  intro right
  have quiet : ¬ MethodShown (nestedReply size).tokens := by
    rintro ⟨front, literal, back, shape, -, reads, -⟩
    rw [nestedReply_silent size literal
      (by rw [shape]; exact mem_append_right _ mem_cons_self)] at reads
    cases reads
  have told := right.1 5 ((responseIdHint_iff (nestedReply size).spaced 5).mpr
    ⟨quiet, nestedReply_shown size⟩)
  have seven : (nestedReply size).id = some 7 := rfl
  rw [seven] at told
  exact absurd (Option.some.inj told.1) (by decide)

/-- `max_message_bytes` by default. -/
def maxMessageBytes : Nat := 32 * 1024 * 1024

/-- A reply to request 7 over the limit whose result holds an `id` of its own fails request 5. -/
theorem nested_id : maxMessageBytes < (nestedReply maxMessageBytes).text.length ∧
    ¬ Right (nestedReply maxMessageBytes) :=
  ⟨nestedReply_long maxMessageBytes, nestedReply_wrong maxMessageBytes⟩

end Nested

end ForgeNode.Hint