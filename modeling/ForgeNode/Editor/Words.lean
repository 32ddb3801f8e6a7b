import ForgeNode.Editor.Landing

/-! Word movement, read over the characters on either side of the caret. -/

namespace ForgeNode.Editor

open List Utf8

variable {body : Str} {c : Char} {rest : List Char}

/-- Bytes that are the characters before an offset, the nearest one first, and those after it. -/
structure Split (bytes : List UInt8) (offset : Nat) (behind ahead : List Char) : Prop where
  bytes_eq : bytes = encode behind.reverse ++ encode ahead
  offset_eq : offset = (encode behind.reverse).length

namespace Split

variable {bytes : List UInt8} {offset : Nat} {behind ahead : List Char}

theorem of_boundary (boundary : body.IsBoundary offset) :
    ∃ behind ahead, Split body.bytes offset behind ahead := by
  have parts := body.valid.split offset boundary.1 boundary.clean
  obtain ⟨front, before⟩ := parts.1.chars
  obtain ⟨back, after⟩ := parts.2.chars
  have size : (body.bytes.take offset).length = offset := by
    rw [length_take]
    exact Nat.min_eq_left boundary.1
  refine ⟨front.reverse, back, ?_, ?_⟩
  · rw [reverse_reverse, ← before, ← after, take_append_drop]
  · rw [reverse_reverse, ← before, size]

theorem isBoundary (here : Split body.bytes offset behind ahead) : body.IsBoundary offset := by
  rw [here.offset_eq]
  exact Str.isBoundary_seam here.bytes_eq (valid_encode ahead)

theorem take (here : Split bytes offset behind ahead) :
    bytes.take offset = encode behind.reverse := by
  rw [here.bytes_eq, here.offset_eq, take_left]

theorem charAt (here : Split bytes offset behind ahead) : charAt bytes offset = ahead.head? := by
  rw [here.bytes_eq, here.offset_eq]
  exact charAt_split _ _

theorem charBefore (here : Split bytes offset behind ahead) :
    charBefore bytes offset = behind.head? := by
  rw [here.bytes_eq, here.offset_eq]
  exact charBefore_split _ _

theorem behind_le (here : Split bytes offset behind ahead) : behind.length ≤ bytes.length := by
  have size := length_le_encode behind.reverse
  rw [here.bytes_eq, length_append]
  rw [length_reverse] at size
  omega

theorem ahead_le (here : Split bytes offset behind ahead) : ahead.length ≤ bytes.length := by
  have size := length_le_encode ahead
  rw [here.bytes_eq, length_append]
  omega

theorem next (here : Split bytes offset behind (c :: rest)) :
    Split bytes (nextChar bytes offset) (c :: behind) rest := by
  have shape : encode (c :: behind).reverse = encode behind.reverse ++ encode [c] := by
    rw [reverse_cons, encode_append]
  refine ⟨?_, ?_⟩
  · rw [here.bytes_eq, shape, append_assoc]
    exact congrArg _ (encode_append [c] rest)
  · rw [shape, here.bytes_eq, here.offset_eq]
    exact nextChar_split _ c rest

theorem previous (here : Split bytes offset (c :: rest) ahead) :
    Split bytes (previousChar bytes offset) rest (c :: ahead) := by
  refine ⟨?_, ?_⟩
  · rw [here.bytes_eq, reverse_cons, encode_append, append_assoc]
    exact congrArg _ (encode_append [c] ahead).symm
  · rw [here.bytes_eq, here.offset_eq]
    exact previousChar_split (c :: rest) _

theorem positive (here : Split bytes offset (c :: rest) ahead) : offset > 0 := by
  have size := length_le_encode (c :: rest).reverse
  rw [length_reverse, length_cons, ← here.offset_eq] at size
  omega

theorem before_end (here : Split bytes offset behind (c :: rest)) :
    offset < bytes.length := by
  have size := length_le_encode (c :: rest)
  rw [length_cons] at size
  rw [here.bytes_eq, here.offset_eq, length_append]
  omega

theorem zero (here : Split bytes offset [] ahead) : offset = 0 := here.offset_eq

theorem at_end (here : Split bytes offset behind []) : offset = bytes.length := by
  rw [here.bytes_eq, here.offset_eq]
  exact (congrArg List.length (append_nil _)).symm

/-- The bytes around an offset split a CRLF when its characters do. -/
theorem splits_iff (here : Split body.bytes offset behind ahead) :
    Splits body offset ↔ behind.head? = some '\r' ∧ ahead.head? = some '\n' := by
  have last : (encode behind.reverse).getLast? = some 13 ↔ behind.head? = some '\r' :=
    getLast?_encode_iff (by decide) (by decide) behind
  have first : (encode ahead).head? = some newlineByte ↔ ahead.head? = some '\n' :=
    head?_encode_iff (by decide) (by decide) ahead
  rw [← last, ← first, getLast?_eq_getElem?, head?_eq_getElem?, ← here.offset_eq]
  constructor
  · rintro ⟨before, rfl, return_, newline⟩
    have within : before < (encode behind.reverse).length := by
      rw [← here.offset_eq]
      exact Nat.lt_succ_self _
    rw [here.bytes_eq, getElem?_append_left within] at return_
    rw [here.bytes_eq, getElem?_append_right (Nat.le_of_eq here.offset_eq.symm), ← here.offset_eq,
      Nat.sub_self] at newline
    exact ⟨return_, newline⟩
  · rintro ⟨return_, newline⟩
    have within := (List.getElem?_eq_some_iff.mp return_).1
    have size : offset - 1 + 1 = offset := by
      rw [← here.offset_eq] at within
      omega
    refine ⟨offset - 1, size.symm, ?_, ?_⟩
    · rw [here.bytes_eq, getElem?_append_left within]
      exact return_
    · rw [size, here.bytes_eq, getElem?_append_right (Nat.le_of_eq here.offset_eq.symm), ←
        here.offset_eq, Nat.sub_self]
      exact newline

end Split

namespace Movement

/-- Skipping whitespace stops behind the whitespace that is ahead. -/
theorem leadingBlank_spec (script : Script) {bytes : List UInt8} {fuel offset : Nat}
    {behind ahead : List Char} (here : Split bytes offset behind ahead)
    (enough : ahead.length ≤ fuel) : leadingBlank script bytes fuel offset =
      (encode (behind.reverse ++ ahead.takeWhile script.isWhitespace)).length := by
  induction ahead generalizing fuel offset behind with
  | nil =>
    have stays : leadingBlank script bytes fuel offset = offset := by
      cases fuel with
      | zero => rfl
      | succ fuel =>
        rw [leadingBlank, here.charAt]
        rfl
    rw [stays, takeWhile_nil, append_nil, here.offset_eq]
  | cons c rest ih =>
    cases fuel with
    | zero => exact absurd enough (Nat.not_succ_le_zero _)
    | succ fuel =>
      rw [leadingBlank, here.charAt, head?_cons, Option.any_some]
      by_cases white : script.isWhitespace c = true
      · rw [if_pos white, ih here.next (Nat.le_of_succ_le_succ enough), takeWhile_cons_of_pos white,
          reverse_cons, append_assoc, singleton_append]
      · rw [if_neg white, takeWhile_cons_of_neg white, append_nil, here.offset_eq]

variable (script : Script)

/-- What is left of the characters behind once a gap is passed. -/
def pastGap : List Char → List Char
  | [] => []
  | c :: rest => if isWordChar script c then c :: rest else if c = '\n' then rest else pastGap rest

theorem pastGap_suffix (chars : List Char) : pastGap script chars <:+ chars := by
  induction chars with
  | nil => exact nil_suffix
  | cons c rest ih =>
    unfold pastGap
    split
    · exact suffix_rfl
    split
    · exact suffix_cons c rest
    · exact ih.trans (suffix_cons c rest)

variable {script} {bytes : List UInt8}

theorem skipGapBack_split (script : Script) {fuel offset : Nat} {behind ahead : List Char}
    (here : Split bytes offset behind ahead) (enough : behind.length ≤ fuel) : ∃ skipped,
    behind = skipped ++ pastGap script behind ∧
      Split bytes (skipGapBack script bytes fuel offset) (pastGap script behind)
      (skipped.reverse ++ ahead) := by
  induction behind generalizing fuel offset ahead with
  | nil =>
    refine ⟨[], rfl, ?_⟩
    have stay : skipGapBack script bytes fuel offset = offset := by
      cases fuel with
      | zero => rfl
      | succ fuel => rw [skipGapBack, here.zero]; rfl
    rw [stay]
    exact here
  | cons c rest ih =>
    cases fuel with
    | zero => exact absurd enough (Nat.not_succ_le_zero _)
    | succ fuel =>
      have before : charBefore bytes offset = some c := here.charBefore
      simp only [skipGapBack, pastGap, before, here.positive, isWord, Option.any_some, decide_true,
        Bool.true_and, Option.some.injEq]
      by_cases word : isWordChar script c = true
      · refine ⟨[], ?_, ?_⟩
        · rw [if_pos word]
          rfl
        · simp only [word, Bool.not_true, Bool.false_eq_true, if_false, if_true]
          exact here
      · simp only [word, Bool.not_false, if_true, Bool.false_eq_true, if_false]
        by_cases newline : c = '\n'
        · simp only [newline, if_true]
          rw [newline] at here
          exact ⟨['\n'], rfl, here.previous⟩
        · simp only [newline, if_false]
          obtain ⟨skipped, parts, there⟩ := ih here.previous (Nat.le_of_succ_le_succ enough)
          refine ⟨c :: skipped, ?_, ?_⟩
          · rw [cons_append, ← parts]
          · rw [reverse_cons, append_assoc]
            exact there

theorem skipWordBack_split (script : Script) {fuel offset : Nat} {behind ahead : List Char}
    (here : Split bytes offset behind ahead) (enough : behind.length ≤ fuel) :
    Split bytes (skipWordBack script bytes fuel offset) (behind.dropWhile (isWordChar script))
      ((behind.takeWhile (isWordChar script)).reverse ++ ahead) := by
  induction behind generalizing fuel offset ahead with
  | nil =>
    have stay : skipWordBack script bytes fuel offset = offset := by
      cases fuel with
      | zero => rfl
      | succ fuel => rw [skipWordBack, here.zero]; rfl
    rw [stay]
    exact here
  | cons c rest ih =>
    cases fuel with
    | zero => exact absurd enough (Nat.not_succ_le_zero _)
    | succ fuel =>
      have before : charBefore bytes offset = some c := here.charBefore
      simp only [skipWordBack, before, here.positive, isWord, Option.any_some, decide_true,
        Bool.true_and]
      by_cases word : isWordChar script c = true
      · rw [if_pos word, dropWhile_cons_of_pos word, takeWhile_cons_of_pos word, reverse_cons,
          append_assoc]
        exact ih here.previous (Nat.le_of_succ_le_succ enough)
      · rw [if_neg word, dropWhile_cons_of_neg word, takeWhile_cons_of_neg word]
        exact here

theorem skipWord_split (script : Script) {fuel offset : Nat} {behind ahead : List Char}
    (here : Split bytes offset behind ahead) (enough : ahead.length ≤ fuel) :
    Split bytes (skipWord script bytes fuel offset)
    ((ahead.takeWhile (isWordChar script)).reverse ++ behind)
      (ahead.dropWhile (isWordChar script)) := by
  induction ahead generalizing fuel offset behind with
  | nil =>
    have stay : skipWord script bytes fuel offset = offset := by
      cases fuel with
      | zero => rfl
      | succ fuel => simp only [skipWord, here.at_end, Nat.lt_irrefl, decide_false, Bool.false_and,
          Bool.false_eq_true, if_false]
    rw [stay]
    exact here
  | cons c rest ih =>
    cases fuel with
    | zero => exact absurd enough (Nat.not_succ_le_zero _)
    | succ fuel =>
      have at_ : charAt bytes offset = some c := here.charAt
      simp only [skipWord, at_, here.before_end, isWord, Option.any_some, decide_true, Bool.true_and]
      by_cases word : isWordChar script c = true
      · rw [if_pos word, dropWhile_cons_of_pos word, takeWhile_cons_of_pos word, reverse_cons,
          append_assoc]
        exact ih here.next (Nat.le_of_succ_le_succ enough)
      · rw [if_neg word, dropWhile_cons_of_neg word, takeWhile_cons_of_neg word]
        exact here

/-- Past a gap the text ends, a word starts, or a line just ended. -/
theorem skipGap_split (script : Script) {fuel offset : Nat} {behind ahead : List Char}
    (here : Split bytes offset behind ahead) (enough : ahead.length ≤ fuel) : ∃ behind' ahead',
    Split bytes (skipGap script bytes fuel offset) behind' ahead' ∧
      (behind'.head? = some '\n' ∨ ∀ c, ahead'.head? = some c → isWordChar script c = true) := by
  induction ahead generalizing fuel offset behind with
  | nil =>
    have stay : skipGap script bytes fuel offset = offset := by
      cases fuel with
      | zero => rfl
      | succ fuel => simp only [skipGap, here.at_end, Nat.lt_irrefl, decide_false, Bool.false_and,
          Bool.false_eq_true, if_false]
    rw [stay]
    exact ⟨behind, [], here, Or.inr fun c none_ => by cases none_⟩
  | cons c rest ih =>
    cases fuel with
    | zero => exact absurd enough (Nat.not_succ_le_zero _)
    | succ fuel =>
      have at_ : charAt bytes offset = some c := here.charAt
      simp only [skipGap, at_, here.before_end, isWord, Option.any_some, decide_true, Bool.true_and,
        Option.some.injEq]
      by_cases word : isWordChar script c = true
      · simp only [word, Bool.not_true, Bool.false_eq_true, if_false]
        refine ⟨behind, c :: rest, here, Or.inr ?_⟩
        intro d first
        obtain rfl : c = d := Option.some.inj first
        exact word
      · simp only [word, Bool.not_false, if_true]
        by_cases newline : c = '\n'
        · simp only [newline, if_true]
          rw [newline] at here
          exact ⟨'\n' :: behind, rest, here.next, Or.inl rfl⟩
        · simp only [newline, if_false]
          exact ih here.next (Nat.le_of_succ_le_succ enough)

variable (script)

/-- Between the caret and the CRLF before it stands nothing a word movement stops at. -/
def Torn (body : Str) (offset : Nat) : Prop :=
  ∃ front gap : List Char, body.bytes.take offset = encode (front ++ ['\r', '\n'] ++ gap) ∧
    ∀ c ∈ gap, isWordChar script c = false ∧ c ≠ '\n'

/-- The same, of the characters behind the caret. -/
def TornBehind (behind : List Char) : Prop :=
  ∃ gap rest : List Char, behind = gap ++ '\n' :: '\r' :: rest ∧
    ∀ c ∈ gap, isWordChar script c = false ∧ c ≠ '\n'

variable {script}

theorem newline_not_word (lawful : script.Lawful) : isWordChar script '\n' = false := by
  rw [isWordChar, lawful.newline]
  rfl

theorem return_not_word (lawful : script.Lawful) : isWordChar script '\r' = false := by
  rw [isWordChar, lawful.carriageReturn]
  rfl

theorem tornBehind_cons (blank : isWordChar script c = false) (same : c ≠ '\n') :
    TornBehind script (c :: rest) ↔ TornBehind script rest := by
  constructor
  · rintro ⟨gap, front, shape, clean⟩
    cases gap with
    | nil => exact absurd (List.cons.inj shape).1 same
    | cons d gap =>
      exact ⟨gap, front, (List.cons.inj shape).2, fun d member => clean d (mem_cons_of_mem _ member)⟩
  · rintro ⟨gap, front, rfl, clean⟩
    refine ⟨c :: gap, front, rfl, ?_⟩
    intro d member
    cases member with
    | head => exact ⟨blank, same⟩
    | tail _ member => exact clean d member

theorem tornBehind_newline (rest : List Char) :
    TornBehind script ('\n' :: rest) ↔ rest.head? = some '\r' := by
  constructor
  · rintro ⟨gap, front, shape, clean⟩
    cases gap with
    | nil =>
      rw [(List.cons.inj shape).2]
      rfl
    | cons d gap => exact absurd (List.cons.inj shape).1.symm (clean d (mem_cons_self ..)).2
  · intro first
    cases rest with
    | nil => cases first
    | cons d rest =>
      obtain rfl : d = '\r' := Option.some.inj first
      exact ⟨[], rest, rfl, fun d member => absurd member (not_mem_nil)⟩

theorem not_tornBehind_word (rest : List Char) (lawful : script.Lawful)
    (word : isWordChar script c = true) : ¬TornBehind script (c :: rest) := by
  rintro ⟨gap, front, shape, clean⟩
  cases gap with
  | nil =>
    obtain ⟨rfl, _⟩ := List.cons.inj shape
    rw [newline_not_word lawful] at word
    cases word
  | cons d gap =>
    obtain ⟨rfl, _⟩ := List.cons.inj shape
    rw [(clean c (mem_cons_self ..)).1] at word
    cases word

/-- A run of word characters does not end in a newline. -/
theorem word_run_head (lawful : script.Lawful) {chars ahead : List Char}
    (outside : ¬(chars.head? = some '\r' ∧ ahead.head? = some '\n')) :
    ¬((chars.dropWhile (isWordChar script)).head? = some '\r' ∧
      ((chars.takeWhile (isWordChar script)).reverse ++ ahead).head? = some '\n') := by
  rintro ⟨return_, newline⟩
  rcases eq_nil_or_concat (chars.takeWhile (isWordChar script)) with none_ | ⟨front, last, run⟩
  · have whole := takeWhile_append_dropWhile (p := isWordChar script) (l := chars)
    rw [none_, nil_append] at whole
    rw [none_] at newline
    rw [whole] at return_
    exact outside ⟨return_, newline⟩
  · rw [run, concat_eq_append, reverse_append] at newline
    obtain rfl : last = '\n' := Option.some.inj newline
    have member : '\n' ∈ chars.takeWhile (isWordChar script) := by
      rw [run, concat_eq_append]
      exact mem_append_right _ (mem_singleton_self _)
    have word := all_eq_true.mp all_takeWhile _ member
    rw [newline_not_word lawful] at word
    cases word

/-- The way back stops inside a CRLF just when nothing in the gap stops it before. -/
theorem way_back_torn (lawful : script.Lawful) {behind skipped ahead : List Char}
    (outside : ¬(behind.head? = some '\r' ∧ ahead.head? = some '\n'))
    (parts : behind = skipped ++ pastGap script behind) :
    (((pastGap script behind).dropWhile (isWordChar script)).head? = some '\r' ∧
      (((pastGap script behind).takeWhile (isWordChar script)).reverse ++
        (skipped.reverse ++ ahead)).head? =
        some '\n') ↔ TornBehind script behind := by
  induction behind generalizing skipped ahead with
  | nil =>
    constructor
    · rintro ⟨return_, _⟩
      cases return_
    · rintro ⟨gap, rest, shape, _⟩
      exact absurd shape (by simp)
  | cons c rest ih =>
    unfold pastGap at parts ⊢
    by_cases word : isWordChar script c = true
    · simp only [word, if_true] at parts ⊢
      have nothing : skipped = [] := self_eq_append_left.mp parts
      rw [nothing, reverse_nil, nil_append]
      constructor
      · intro split
        exact absurd split (word_run_head lawful outside)
      · intro torn
        exact absurd torn (not_tornBehind_word rest lawful word)
    · simp only [word, Bool.false_eq_true, if_false] at parts ⊢
      by_cases newline : c = '\n'
      · subst newline
        simp only [if_true] at parts ⊢
        have one : skipped = ['\n'] := by
          have cancelled : skipped ++ rest = ['\n'] ++ rest := parts.symm
          exact append_cancel_right cancelled
        rw [one, tornBehind_newline]
        constructor
        · intro split
          by_contra other
          apply word_run_head lawful _ split
          intro ⟨return_, _⟩
          exact other return_
        · intro return_
          cases rest with
          | nil => cases return_
          | cons d rest =>
            obtain rfl : d = '\r' := Option.some.inj return_
            have stop : ¬isWordChar script '\r' = true := by
              rw [return_not_word lawful]
              exact Bool.false_ne_true
            rw [dropWhile_cons_of_neg stop, takeWhile_cons_of_neg stop]
            exact ⟨rfl, rfl⟩
      · simp only [newline, if_false] at parts ⊢
        cases skipped with
        | nil =>
          have longer := congrArg List.length parts
          have shorter := (pastGap_suffix script rest).length_le
          rw [nil_append, length_cons] at longer
          omega
        | cons d skipped =>
          obtain ⟨rfl, tail⟩ := List.cons.inj parts
          rw [tornBehind_cons (Bool.eq_false_iff.mpr word) newline, reverse_cons, append_assoc]
          apply ih _ tail
          rintro ⟨_, first⟩
          exact newline (Option.some.inj first)

theorem torn_iff {offset : Nat} {behind ahead : List Char}
    (here : Split body.bytes offset behind ahead) :
    Torn script body offset ↔ TornBehind script behind := by
  unfold Torn
  rw [here.take]
  constructor
  · rintro ⟨front, gap, same, clean⟩
    refine ⟨gap.reverse, front.reverse, ?_, fun c member => clean c (mem_reverse.mp member)⟩
    have chars := encode_injective same
    rw [← reverse_reverse behind, chars]
    simp
  · rintro ⟨gap, rest, rfl, clean⟩
    refine ⟨rest.reverse, gap.reverse, ?_, fun c member => clean c (mem_reverse.mp member)⟩
    simp

section Landing

variable {text : Text} {offset : Nat} (lawful : script.Lawful) (caret : Whole text.bytes offset)

include lawful caret

theorem wordLeft_whole_iff : Whole text.bytes (wordLeft script text offset) ↔
    ¬Torn script text.bytes offset := by
  obtain ⟨behind, ahead, here⟩ := Split.of_boundary caret.boundary
  have inside : min offset text.len = offset := Nat.min_eq_left caret.boundary.1
  obtain ⟨skipped, parts, gap⟩ := skipGapBack_split script here here.behind_le
  have word := skipWordBack_split script gap gap.behind_le
  have lands : wordLeft script text offset =
      skipWordBack script text.bytes.bytes text.bytes.bytes.length
        (skipGapBack script text.bytes.bytes text.bytes.bytes.length offset) := by
    rw [wordLeft, inside]
    rfl
  rw [← lands] at word
  have outside := mt here.splits_iff.mpr caret.outside
  rw [torn_iff here, ← way_back_torn lawful outside parts, ← word.splits_iff]
  exact ⟨Whole.outside, fun unsplit => ⟨word.isBoundary, unsplit⟩⟩

theorem wordRight_whole : Whole text.bytes (wordRight script text offset) := by
  obtain ⟨behind, ahead, here⟩ := Split.of_boundary caret.boundary
  have inside : min offset text.len = offset := Nat.min_eq_left caret.boundary.1
  have word := skipWord_split script here here.ahead_le
  obtain ⟨behind', ahead', there, stops⟩ := skipGap_split script word word.ahead_le
  have lands : wordRight script text offset =
      skipGap script text.bytes.bytes text.bytes.bytes.length
        (skipWord script text.bytes.bytes text.bytes.bytes.length offset) := by
    rw [wordRight, inside]
    rfl
  rw [← lands] at there
  refine ⟨there.isBoundary, ?_⟩
  rw [there.splits_iff]
  rintro ⟨return_, newline⟩
  rcases stops with ended | word
  · rw [return_] at ended
    exact absurd (Option.some.inj ended) (by decide)
  · have is := word _ newline
    rw [newline_not_word lawful] at is
    cases is

end Landing

/-- Every movement keeps a caret off the inside of a character and of a CRLF, except the way back
over a gap that a CRLF ends. -/
theorem moves_whole_iff {text : Text} {offset : Nat} (lawful : script.Lawful)
    (indexed : text.Indexed) (caret : Whole text.bytes offset) :
    (Whole text.bytes (left script text offset) ∧
      Whole text.bytes (right script text offset) ∧
      (∀ delta goal, Whole text.bytes (vertical script text offset delta goal).1) ∧
      Whole text.bytes (lineStart text offset) ∧
      Whole text.bytes (lineEnd text offset) ∧
      Whole text.bytes (lineFirstNonBlank script text offset) ∧
      Whole text.bytes (wordLeft script text offset) ∧
      Whole text.bytes (wordRight script text offset)) ↔ ¬Torn script text.bytes offset := by
  rw [← wordLeft_whole_iff lawful caret]
  constructor
  · rintro ⟨_, _, _, _, _, _, back, _⟩
    exact back
  · intro back
    exact ⟨left_whole lawful indexed offset, right_whole lawful indexed offset,
      vertical_whole lawful indexed offset, lineStart_offset_whole indexed offset,
      lineEnd_offset_whole indexed offset,
      lineFirstNonBlank_whole indexed offset, back, wordRight_whole lawful caret⟩

/-- One character to a grapheme, as it is for a line of ASCII letters. -/
def asciiScript : Script where
  graphemeIndices line := ((List.range line.len).filter (isCharBoundary line.bytes)).map fun offset =>
    (offset, .ofChars (charAt line.bytes offset).toList)
  width line := line.len
  isAlphanumeric := Char.isAlphanum
  isWhitespace := Char.isWhitespace

theorem asciiScript_lawful : asciiScript.Lawful where
  boundary := by
    intro line indexed member
    obtain ⟨offset, filtered, rfl⟩ := List.mem_map.mp member
    obtain ⟨range, clean⟩ := mem_filter.mp filtered
    exact ⟨Nat.le_of_lt (mem_range.mp range), clean⟩
  newline := by decide
  carriageReturn := by decide

/-- `"ab"`, a CRLF and `"c"`. -/
def letters : Text := .new (.ofChars ['a', 'b', '\r', '\n', 'c'])

theorem letters_after_newline :
    Split letters.bytes.bytes 4 ['\n', '\r', 'b', 'a'] ['c'] := ⟨by decide, by decide⟩

theorem letters_at_end :
    Split letters.bytes.bytes 5 ['c', '\n', '\r', 'b', 'a'] [] := ⟨by decide, by decide⟩

/-- The caret behind `c` has that letter to stop at. -/
theorem moves_whole_letters : Whole letters.bytes (right asciiScript letters 5) ∧
    wordLeft asciiScript letters 5 = 4 ∧ Whole letters.bytes (wordLeft asciiScript letters 5) := by
  have caret : Whole letters.bytes 5 := by
    refine ⟨letters_at_end.isBoundary, ?_⟩
    rw [letters_at_end.splits_iff]
    decide
  have whole : ¬Torn asciiScript letters.bytes 5 := by
    rw [torn_iff letters_at_end]
    exact not_tornBehind_word _ asciiScript_lawful (by decide)
  obtain ⟨_, right, _, _, _, _, back, _⟩ :=
    (moves_whole_iff asciiScript_lawful (Text.new_indexed _) caret).mpr whole
  exact ⟨right, by decide, back⟩

/-- From the start of the second line the way back stops between the bytes of its CRLF. -/
theorem wordLeft_splits_crlf : asciiScript.Lawful ∧ letters.Indexed ∧ Whole letters.bytes 4 ∧
    wordLeft asciiScript letters 4 = 3 ∧ Splits letters.bytes 3 ∧
    ¬Whole letters.bytes (wordLeft asciiScript letters 4) := by
  have caret : Whole letters.bytes 4 := by
    refine ⟨letters_after_newline.isBoundary, ?_⟩
    rw [letters_after_newline.splits_iff]
    decide
  have lands : wordLeft asciiScript letters 4 = 3 := by decide
  have split : Splits letters.bytes 3 := ⟨2, by decide, by decide, by decide⟩
  refine ⟨asciiScript_lawful, Text.new_indexed _, caret, lands, split, ?_⟩
  rw [lands]
  exact fun whole => whole.outside split

end Movement

end ForgeNode.Editor
