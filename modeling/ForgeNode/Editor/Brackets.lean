import ForgeNode.Lib.Brackets
import ForgeNode.Editor.Text

/-! The bracket a caret is next to, and the one that closes it. -/

namespace ForgeNode.Editor

open List Utf8 ForgeNode.Brackets

/-- What a run of text is coloured as. -/
inductive Scope where
  | comment
  | keyword
  | controlKeyword
  | string
  | number
  | type
  | function
  | property
  | constant
  | plain
  deriving DecidableEq

/-- A coloured run inside one line, as byte offsets into that line. -/
structure Span where
  start : Nat
  stop : Nat
  scope : Scope

/-- The spans of every line. -/
structure Syntax where
  lines : List (List Span)

namespace Syntax

def line (spans : Syntax) (index : Nat) : List Span := spans.lines.getD index []

/-- The scope covering a byte offset within a line. -/
def scopeAt (spans : Syntax) (line offset : Nat) : Scope :=
  match (spans.line line).find? fun span => decide (offset ≥ span.start) && decide (offset < span.stop) with
  | some span => span.scope
  | none => .plain

end Syntax

namespace Brackets

/-- How far a match is looked for, in bytes either side of the caret. -/
def maxScanBytes : Nat := 64 * 1024

def pairs : List (UInt8 × UInt8) := [(0x28, 0x29), (0x5b, 0x5d), (0x7b, 0x7d)]

def openerAt (bytes : List UInt8) (position : Nat) : Option UInt8 :=
  bytes[position]?.bind fun byte => (pairs.find? (·.1 == byte)).map Prod.snd

def closerAt (bytes : List UInt8) (position : Nat) : Option UInt8 :=
  bytes[position]?.bind fun byte => (pairs.find? (·.2 == byte)).map Prod.fst

/-- Whether the byte at `position` is inside a string or a comment. -/
def isLiteral (text : Text) (spans : Syntax) (position : Nat) : Bool :=
  let line := text.lineOfOffset position
  let column := position - text.lineStart line
  match spans.scopeAt line column with
  | .string | .comment => true
  | _ => false

def byteAt (text : Text) (position : Nat) : UInt8 := text.asStr.bytes.getD position 0

/-- The loop of both scans: `deeper` adds to the depth and the bracket `higher` takes from it. -/
def countDepth (text : Text) (spans : Syntax) (deeper higher : UInt8) : Int → List Nat → Option Nat
  | _, [] => none
  | depth, position :: rest =>
    let byte := byteAt text position
    if byte ≠ deeper ∧ byte ≠ higher then countDepth text spans deeper higher depth rest
    else if isLiteral text spans position then countDepth text spans deeper higher depth rest
    else if depth + (if byte = deeper then 1 else -1) = 0 then some position
    else countDepth text spans deeper higher (depth + if byte = deeper then 1 else -1) rest

def scanForward (text : Text) (spans : Syntax) (start : Nat) (close : UInt8) : Option Nat :=
  let opening := byteAt text start
  let stop := min (start + maxScanBytes) text.asStr.bytes.length
  countDepth text spans opening close 0 (List.range' start (stop - start))

def scanBack (text : Text) (spans : Syntax) (start : Nat) (opening : UInt8) : Option Nat :=
  let close := byteAt text start
  let stop := start - maxScanBytes
  countDepth text spans close opening 0 (List.range' stop (start + 1 - stop)).reverse

/-- The two byte offsets of the pair around the caret, ordered. -/
def matching (text : Text) (spans : Syntax) (caret : Nat) : Option (Nat × Nat) :=
  let bytes := text.asStr.bytes
  let forward :=
    match openerAt bytes caret with
    | none => none
    | some close =>
      if isLiteral text spans caret then none
      else (scanForward text spans caret close).map fun found => (caret, found)
  if caret = 0 then forward
  else
    let position := caret - 1
    match closerAt bytes position with
    | none => forward
    | some opening =>
      if isLiteral text spans position then forward
      else (scanBack text spans position opening).map fun found => (found, position)

/-- The forward scan from an opener answers a closer. -/
def Forward (text : Text) (spans : Syntax) (first last : Nat) : Prop :=
  ∃ close, openerAt text.asStr.bytes first = some close ∧ isLiteral text spans first = false ∧
    scanForward text spans first close = some last

/-- The backward scan from a closer answers an opener. -/
def Backward (text : Text) (spans : Syntax) (first last : Nat) : Prop :=
  ∃ opening, closerAt text.asStr.bytes last = some opening ∧ isLiteral text spans last = false ∧
    scanBack text spans last opening = some first

/-- A closer stands just before the caret. -/
def Closed (text : Text) (spans : Syntax) (caret : Nat) : Prop :=
  0 < caret ∧ closerAt text.asStr.bytes (caret - 1) ≠ none ∧ isLiteral text spans (caret - 1) = false

/-- The pair of a caret is the one its closer finds, and without a closer the one its opener
finds. -/
theorem matching_iff {text : Text} {spans : Syntax} {caret first last : Nat} :
    matching text spans caret = some (first, last) ↔
      (Closed text spans caret ∧ caret = last + 1 ∧ Backward text spans first last) ∨
        (¬ Closed text spans caret ∧ caret = first ∧ Forward text spans first last) := by
  have onward : ((match openerAt text.asStr.bytes caret with
      | none => none
      | some close =>
        if isLiteral text spans caret then none
        else (scanForward text spans caret close).map fun found => (caret, found)) =
          some (first, last)) ↔
      caret = first ∧ Forward text spans first last := by
    unfold Forward
    cases opener : openerAt text.asStr.bytes caret with
    | none =>
      constructor
      · intro found
        cases found
      · rintro ⟨rfl, close, found, _⟩
        rw [opener] at found
        cases found
    | some close =>
      cases literal : isLiteral text spans caret with
      | true =>
        constructor
        · intro found
          cases found
        · rintro ⟨rfl, _, _, plain, _⟩
          rw [literal] at plain
          cases plain
      | false =>
        simp only [Bool.false_eq_true, if_false, Option.map_eq_some_iff, Prod.mk.injEq]
        constructor
        · rintro ⟨found, scanned, rfl, rfl⟩
          exact ⟨rfl, close, opener, literal, scanned⟩
        · rintro ⟨rfl, other, again, _, scanned⟩
          obtain rfl := Option.some.inj (opener.symm.trans again)
          exact ⟨last, scanned, rfl, rfl⟩
  have open_ (none_ : ¬ Closed text spans caret) (found : matching text spans caret =
      some (first, last) ↔ caret = first ∧ Forward text spans first last) :
      matching text spans caret = some (first, last) ↔
      (Closed text spans caret ∧ caret = last + 1 ∧ Backward text spans first last) ∨
        (¬ Closed text spans caret ∧ caret = first ∧ Forward text spans first last) := by
    rw [found]
    constructor
    · intro forward
      exact .inr ⟨none_, forward⟩
    · rintro (⟨closed, _⟩ | ⟨_, forward⟩)
      · exact absurd closed none_
      · exact forward
  by_cases ground : caret = 0
  · apply open_ (fun closed => absurd closed.1 (by omega))
    rw [matching, if_pos ground]
    exact onward
  cases closer : closerAt text.asStr.bytes (caret - 1) with
  | none =>
    apply open_ (fun closed => closed.2.1 closer)
    rw [matching, if_neg ground]
    simp only [closer]
    exact onward
  | some opening =>
    cases literal : isLiteral text spans (caret - 1) with
    | true =>
      apply open_ (fun closed => Bool.noConfusion (literal.symm.trans closed.2.2))
      rw [matching, if_neg ground]
      simp only [closer, literal, if_true]
      exact onward
    | false =>
      have closed : Closed text spans caret :=
        ⟨by omega, by rw [closer]; exact Option.some_ne_none _, literal⟩
      rw [matching, if_neg ground]
      simp only [closer, literal, Bool.false_eq_true, if_false, Option.map_eq_some_iff, Prod.mk.injEq]
      constructor
      · rintro ⟨found, scanned, rfl, rfl⟩
        exact .inl ⟨closed, by omega, opening, closer, literal, scanned⟩
      · rintro (⟨_, rfl, other, again, _, scanned⟩ | ⟨none_, _⟩)
        · obtain rfl := Option.some.inj (closer.symm.trans again)
          exact ⟨first, scanned, rfl, rfl⟩
        · exact absurd closed none_

/-- What a bracket adds to the depth. -/
def weight (text : Text) (spans : Syntax) (deeper higher : UInt8) (position : Nat) : Int :=
  if isLiteral text spans position then 0
  else if byteAt text position = deeper then 1
  else if byteAt text position = higher then -1
  else 0

/-- The text from an opener to a closer of its kind is a balanced word of that kind. -/
def Pair (text : Text) (spans : Syntax) (first last : Nat) : Prop :=
  ∃ brackets ∈ pairs, Balanced (weight text spans brackets.1 brackets.2)
    (List.range' first (last + 1 - first))

variable {text : Text} {spans : Syntax} {deeper higher : UInt8} {first last : Nat}

theorem weight_unit : Unit (weight text spans deeper higher) := by
  intro position
  unfold weight
  split_ifs <;> simp

theorem weight_turned (apart : deeper ≠ higher) :
    weight text spans higher deeper = fun position =>
    -weight text spans deeper higher position := by
  funext position
  unfold weight
  split_ifs with literal up down
  · rfl
  · exact absurd (down.symm.trans up) apart
  · rfl
  · rfl
  · rfl

theorem countDepth_eq (depth : Int) (positions : List Nat) :
    countDepth text spans deeper higher depth positions =
      firstClose (weight text spans deeper higher) depth positions := by
  induction positions generalizing depth with
  | nil => rfl
  | cons position rest ih =>
    rw [countDepth, firstClose]
    by_cases literal : isLiteral text spans position = true
    · have passed : weight text spans deeper higher position = 0 := by
        simp only [weight, if_pos literal]
      rw [if_pos passed, ih]
      simp only [if_pos literal, ite_self]
    by_cases down : byteAt text position = deeper
    · have up : weight text spans deeper higher position = 1 := by
        simp only [weight, if_neg literal, if_pos down]
      have one : ¬ (1 : Int) = 0 := Int.one_ne_zero
      rw [if_neg fun other => other.1 down, if_neg literal, if_pos down, up, if_neg one, ih]
    · by_cases closes : byteAt text position = higher
      · have up : weight text spans deeper higher position = -1 := by
          simp only [weight, if_neg literal, if_neg down, if_pos closes]
        have one : ¬ (-1 : Int) = 0 := by omega
        rw [if_neg fun other => other.2 closes, if_neg literal, if_neg down, up, if_neg one, ih]
      · have passed : weight text spans deeper higher position = 0 := by
          simp only [weight, if_neg literal, if_neg down, if_neg closes]
        rw [if_pos ⟨down, closes⟩, if_pos passed, ih]

theorem weight_eq_one : weight text spans deeper higher first = 1 ↔
    isLiteral text spans first = false ∧ byteAt text first = deeper := by
  unfold weight
  split_ifs with literal up down
  · simp [literal]
  · simp [literal, up]
  · simp [up]
  · simp [up]

theorem weight_eq_neg (apart : deeper ≠ higher) : weight text spans deeper higher first = -1 ↔
    isLiteral text spans first = false ∧ byteAt text first = higher := by
  unfold weight
  split_ifs with literal up down
  · simp [literal]
  · simp [literal, up, apart]
  · simp [literal, down]
  · simp [down]

theorem pairs_apart {brackets : UInt8 × UInt8} (within : brackets ∈ pairs) :
    brackets.1 ≠ brackets.2 := by
  revert within
  revert brackets
  simp [pairs]

theorem find_pair {side : UInt8 × UInt8 → UInt8} {byte : UInt8} {brackets : UInt8 × UInt8}
    (match_ : pairs.find? (fun pair => side pair == byte) = some brackets) :
    brackets ∈ pairs ∧ side brackets = byte :=
  ⟨mem_of_find?_eq_some match_, by simpa using find?_some match_⟩

theorem openerAt_iff {bytes : List UInt8} {close : UInt8} :
    openerAt bytes first = some close ↔ ∃ opening, bytes[first]? = some opening ∧
    (opening, close) ∈ pairs := by
  unfold openerAt
  constructor
  · intro found
    obtain ⟨byte, here, picked⟩ := Option.bind_eq_some_iff.mp found
    obtain ⟨brackets, match_, other⟩ := Option.map_eq_some_iff.mp picked
    obtain ⟨within, same⟩ := find_pair match_
    refine ⟨byte, here, ?_⟩
    rw [← same, ← other]
    exact within
  · rintro ⟨opening, here, within⟩
    rw [here]
    simp only [pairs, mem_cons, Prod.mk.injEq, not_mem_nil, or_false] at within
    rcases within with ⟨rfl, rfl⟩ | ⟨rfl, rfl⟩ | ⟨rfl, rfl⟩ <;> rfl

theorem closerAt_iff {bytes : List UInt8} {opening : UInt8} :
    closerAt bytes last = some opening ↔ ∃ close, bytes[last]? = some close ∧
    (opening, close) ∈ pairs := by
  unfold closerAt
  constructor
  · intro found
    obtain ⟨byte, here, picked⟩ := Option.bind_eq_some_iff.mp found
    obtain ⟨brackets, match_, other⟩ := Option.map_eq_some_iff.mp picked
    obtain ⟨within, same⟩ := find_pair match_
    refine ⟨byte, here, ?_⟩
    rw [← same, ← other]
    exact within
  · rintro ⟨close, here, within⟩
    rw [here]
    simp only [pairs, mem_cons, Prod.mk.injEq, not_mem_nil, or_false] at within
    rcases within with ⟨rfl, rfl⟩ | ⟨rfl, rfl⟩ | ⟨rfl, rfl⟩ <;> rfl

theorem offsets_eq (order : first < last) :
    List.range' first (last + 1 - first) = first :: List.range' (first + 1)
    (last - (first + 1)) ++ [last] := by
  have count : last + 1 - first = 1 + (last - (first + 1)) + 1 := by omega
  rw [count, range'_concat, Nat.add_comm 1, range'_succ]
  congr 2
  omega

theorem offsets_split {start count : Nat} {front back : List Nat} :
    List.range' start count = front ++ last :: back ↔ start ≤ last ∧ last < start + count ∧
      front = List.range' start (last - start) ∧ back = List.range' (last + 1)
      (start + count - (last + 1)) := by
  constructor
  · intro split
    obtain ⟨size, inside, same, tail⟩ := range'_eq_append_iff.mp split
    obtain ⟨place, some_, rest⟩ := range'_eq_cons_iff.mp tail.symm
    have here : last - start = size := by omega
    have more : start + count - (last + 1) = count - size - 1 := by omega
    rw [here, more]
    exact ⟨by omega, by omega, same, rest⟩
  · rintro ⟨order, inside, rfl, rfl⟩
    apply range'_eq_append_iff.mpr
    refine ⟨last - start, by omega, rfl, ?_⟩
    symm
    apply range'_eq_cons_iff.mpr
    refine ⟨by omega, by omega, ?_⟩
    congr 1
    omega

/-- A pair stands on two brackets of one kind. -/
theorem Pair.ends (pair : Pair text spans first last) : ∃ opening close, (opening, close) ∈ pairs ∧
    first < last ∧ weight text spans opening close first = 1 ∧
    weight text spans opening close last = -1 ∧ Balanced (weight text spans opening close)
    (first :: List.range' (first + 1) (last - (first + 1)) ++ [last]) := by
  obtain ⟨⟨opening, close⟩, within, balanced⟩ := pair
  obtain ⟨start, middle, stop, shape, opens, closes⟩ := balanced.ends weight_unit
  have order : first < last := by
    have long := congrArg List.length shape
    simp only [length_range', length_append, length_cons, length_nil] at long
    omega
  rw [offsets_eq order] at shape balanced
  obtain ⟨inside, same⟩ := append_inj' shape rfl
  obtain ⟨rfl, _⟩ := List.cons.inj inside
  obtain ⟨rfl, _⟩ := List.cons.inj same
  exact ⟨opening, close, within, order, opens, closes, balanced⟩

theorem byteAt_of {byte : UInt8} (here : text.asStr.bytes[first]? = some byte) :
    byteAt text first = byte ∧ first < text.asStr.bytes.length := by
  obtain ⟨inside, _⟩ := List.getElem?_eq_some_iff.mp here
  refine ⟨?_, inside⟩
  rw [byteAt, getD_eq_getElem?_getD, here]
  rfl

theorem of_byteAt {byte : UInt8} (inside : first < text.asStr.bytes.length)
    (here : byteAt text first = byte) : text.asStr.bytes[first]? = some byte := by
  rw [byteAt, getD_eq_getElem?_getD, getElem?_eq_getElem inside] at here
  rw [getElem?_eq_getElem inside]
  exact congrArg some here

theorem forward_count {stop : Nat} (inside : first < stop) :
    List.range' first (stop - first) = first :: List.range' (first + 1) (stop - (first + 1)) := by
  have count : stop - first = stop - (first + 1) + 1 := by omega
  rw [count, range'_succ]

theorem window_pos (inside : first < text.asStr.bytes.length) :
    first < min (first + maxScanBytes) text.asStr.bytes.length := by
  have positive : 0 < maxScanBytes := by decide
  omega

/-- The forward scan answers the pair's closer where it lies inside the window. -/
theorem forward_iff : Forward text spans first last ↔
    Pair text spans first last ∧ last < min (first + maxScanBytes) text.asStr.bytes.length := by
  constructor
  · rintro ⟨close, opener, literal, found⟩
    obtain ⟨opening, here, within⟩ := openerAt_iff.mp opener
    obtain ⟨same, inside⟩ := byteAt_of here
    have opens : weight text spans opening close first = 1 := weight_eq_one.mpr ⟨literal, same⟩
    rw [scanForward, same, forward_count (window_pos inside), countDepth_eq,
      firstClose_balanced weight_unit opens] at found
    obtain ⟨front, back, split, balanced⟩ := found
    obtain ⟨order, window, rfl, _⟩ := offsets_split.mp split
    refine ⟨⟨(opening, close), within, ?_⟩, by omega⟩
    rw [offsets_eq order]
    exact balanced
  · rintro ⟨pair, window⟩
    obtain ⟨opening, close, within, order, opens, closes, balanced⟩ := pair.ends
    obtain ⟨literal, same⟩ := weight_eq_one.mp opens
    have inside : first < text.asStr.bytes.length := by omega
    refine ⟨close, openerAt_iff.mpr ⟨opening, of_byteAt inside same, within⟩, literal, ?_⟩
    rw [scanForward, same, forward_count (window_pos inside), countDepth_eq,
      firstClose_balanced weight_unit opens]
    exact ⟨_, _, offsets_split.mpr ⟨order, by omega, rfl, rfl⟩, balanced⟩

theorem back_count {start : Nat} (low : start ≤ last) :
    (List.range' start (last + 1 - start)).reverse = last ::
      (List.range' start (last - start)).reverse := by
  have count : last + 1 - start = last - start + 1 := by omega
  have end_ : start + (last - start) = last := by omega
  rw [count, range'_concat, Nat.one_mul, end_, reverse_append]
  rfl

/-- The backward scan answers the pair's opener where it is no further back than the window. -/
theorem backward_iff : Backward text spans first last ↔
    Pair text spans first last ∧ last - maxScanBytes ≤ first ∧ last < text.asStr.bytes.length := by
  have low : last - maxScanBytes ≤ last := Nat.sub_le _ _
  have turned {opening close : UInt8} (within : (opening, close) ∈ pairs) :
      weight text spans close opening = fun position => -weight text spans opening close position :=
    weight_turned (pairs_apart within)
  constructor
  · rintro ⟨opening, closer, literal, found⟩
    obtain ⟨close, here, within⟩ := closerAt_iff.mp closer
    obtain ⟨same, inside⟩ := byteAt_of here
    have opens : weight text spans close opening last = 1 := weight_eq_one.mpr ⟨literal, same⟩
    rw [scanBack, same, back_count low, countDepth_eq,
      firstClose_balanced weight_unit opens] at found
    obtain ⟨front, back, split, balanced⟩ := found
    have forth := congrArg List.reverse split
    rw [reverse_reverse, reverse_append, reverse_cons, append_assoc] at forth
    obtain ⟨window, order, _, middle⟩ := offsets_split.mp forth
    have ends : last - maxScanBytes + (last - (last - maxScanBytes)) = last := by omega
    rw [ends] at order middle
    refine ⟨⟨(opening, close), within, ?_⟩, window, inside⟩
    rw [offsets_eq order, ← middle, ← balanced_reverse_iff weight_unit, ← turned within]
    simpa using balanced
  · rintro ⟨pair, window, inside⟩
    obtain ⟨opening, close, within, order, opens, closes, balanced⟩ := pair.ends
    obtain ⟨literal, same⟩ := (weight_eq_neg (pairs_apart within)).mp closes
    have turns : weight text spans close opening last = 1 := weight_eq_one.mpr ⟨literal, same⟩
    refine ⟨opening, closerAt_iff.mpr ⟨close, of_byteAt inside same, within⟩, literal, ?_⟩
    rw [scanBack, same, back_count low, countDepth_eq, firstClose_balanced weight_unit turns]
    generalize last - maxScanBytes = start at window low ⊢
    have forth : List.range' start (last - start) =
        List.range' start (first - start) ++ first :: List.range' (first + 1)
        (last - (first + 1)) := by
      apply offsets_split.mpr
      refine ⟨window, by omega, rfl, ?_⟩
      congr 1
      omega
    refine ⟨(List.range' (first + 1) (last - (first + 1))).reverse,
      (List.range' start (first - start)).reverse, ?_, ?_⟩
    · rw [forth, reverse_append, reverse_cons, append_assoc]
      rfl
    · rw [turned within]
      have back := (balanced_reverse_iff weight_unit).mpr balanced
      simpa using back

theorem Pair.lt (pair : Pair text spans first last) : first < last := by
  obtain ⟨_, _, _, before, _⟩ := pair.ends
  exact before

theorem matching_behind :
    matching text spans (last + 1) = some (first, last) ↔ Backward text spans first last := by
  rw [matching_iff]
  constructor
  · rintro (⟨_, _, back⟩ | ⟨_, same, forth⟩)
    · exact back
    · have before := (forward_iff.mp forth).1.lt
      omega
  · intro back
    obtain ⟨opening, closer, literal, _⟩ := id back
    exact .inl ⟨⟨Nat.succ_pos last, by simp [closer], literal⟩, rfl, back⟩

/-- The caret before an opener shows the pair that the scan onward finds, unless it is behind a
closer. -/
theorem matching_before : matching text spans first = some (first, last) ↔
    ¬ Closed text spans first ∧ Forward text spans first last := by
  rw [matching_iff]
  constructor
  · rintro (⟨_, same, back⟩ | ⟨open_, _, forth⟩)
    · have before := (backward_iff.mp back).1.lt
      omega
    · exact ⟨open_, forth⟩
  · exact fun shown => .inr ⟨shown.1, rfl, shown.2⟩

/-- The two scans agree on a pair unless its brackets are exactly the window apart, where only the
one from the closer, whose window is a byte longer, finds the other. They are what the carets at the
two ends of the pair show. -/
theorem scans_agree_iff (text : Text) (spans : Syntax) (first last : Nat) :
    ((Forward text spans first last ↔ Backward text spans first last) ↔
      ¬ (Pair text spans first last ∧ last = first + maxScanBytes ∧ last <
        text.asStr.bytes.length)) ∧
    (matching text spans (last + 1) = some (first, last) ↔ Backward text spans first last) ∧
    (matching text spans first = some (first, last) ↔
      ¬ Closed text spans first ∧ Forward text spans first last) := by
  refine ⟨?_, matching_behind, matching_before⟩
  rw [forward_iff, backward_iff]
  generalize maxScanBytes = window
  constructor
  · rintro agree ⟨pair, apart, inside⟩
    have forth := agree.mpr ⟨pair, by omega, inside⟩
    omega
  · intro near
    constructor
    · rintro ⟨pair, before⟩
      exact ⟨pair, by omega, by omega⟩
    · rintro ⟨pair, after, inside⟩
      have other : last ≠ first + window := fun apart => near ⟨pair, apart, inside⟩
      exact ⟨pair, by omega⟩

/-- A pair of parentheses with `count` letters between them. -/
private def letters (count : Nat) : Text :=
  .new (.ofChars ('(' :: List.replicate count 'x' ++ [')']))

private theorem letters_bytes (count : Nat) :
    (letters count).asStr.bytes = 0x28 :: List.replicate count 0x78 ++ [0x29] := by
  have flat : (List.replicate count 'x').flatMap String.utf8EncodeChar =
      List.replicate count 0x78 := by
    rw [flatMap_replicate]
    exact flatten_replicate_singleton
  change ('(' :: List.replicate count 'x' ++ [')']).flatMap String.utf8EncodeChar = _
  rw [cons_append, flatMap_cons, flatMap_append, flat]
  rfl

private theorem letters_pair (count : Nat) : Pair (letters count) ⟨[]⟩ 0 (count + 1) := by
  have plain (position : Nat) : isLiteral (letters count) ⟨[]⟩ position = false := rfl
  have byte (position : Nat) :
      byteAt (letters count) position = (0x28 :: List.replicate count 0x78 ++ [0x29] : List
      UInt8).getD position 0 := by
    rw [byteAt, letters_bytes]
  refine ⟨(0x28, 0x29), by simp [pairs], ?_⟩
  rw [offsets_eq (Nat.succ_pos count)]
  apply balanced_of_flat
  · exact weight_eq_one.mpr ⟨plain 0, byte 0⟩
  · refine (weight_eq_neg (by decide)).mpr ⟨plain _, ?_⟩
    rw [byte]
    simp
  · intro position within
    obtain ⟨low, high⟩ := mem_range'_1.mp within
    obtain ⟨index, rfl⟩ : ∃ index, position = index + 1 := ⟨position - 1, by omega⟩
    have inside : index < count := by omega
    have letter : byteAt (letters count) (index + 1) = 0x78 := by
      rw [byte, getD_eq_getElem?_getD, cons_append, getElem?_cons_succ,
        getElem?_append_left (by simpa using inside)]
      simp [inside]
    simp [weight, plain, letter]

private theorem letters_differ {count : Nat} (wide : count + 1 = maxScanBytes) :
    ¬ (Forward (letters count) ⟨[]⟩ 0 (count + 1) ↔
      Backward (letters count) ⟨[]⟩ 0 (count + 1)) := by
  have bytes := congrArg List.length (letters_bytes count)
  simp only [length_append, length_cons, length_replicate, length_nil] at bytes
  have back : Backward (letters count) ⟨[]⟩ 0 (count + 1) :=
    backward_iff.mpr ⟨letters_pair count, by omega, by omega⟩
  intro agree
  obtain ⟨_, window⟩ := forward_iff.mp (agree.mpr back)
  omega

/-- Parentheses exactly the window apart are found from the closing one alone. -/
theorem scans_differ :
    ¬ (Forward (letters 65535) ⟨[]⟩ 0 65536 ↔ Backward (letters 65535) ⟨[]⟩ 0 65536) :=
  letters_differ (by decide)

end Brackets

end ForgeNode.Editor
