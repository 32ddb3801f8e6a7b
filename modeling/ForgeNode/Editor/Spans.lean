import Mathlib.Data.List.Chain
import Mathlib.Data.List.Induction
import ForgeNode.Lib.Utf8

/-! A row's text cut where its colouring changes. -/

namespace ForgeNode.Spans

open List
open Utf8 (isCharBoundary)

inductive Scope where
  | comment | keyword | controlKeyword | string | number | type | function | property | constant | plain
  deriving DecidableEq

inductive WireScope where
  | comment | keyword | controlKeyword | string | number | type | function | property | constant | plain
  deriving DecidableEq

/-- A byte range of a line and its scope, as a scan of some text found it. -/
structure Span where
  start : Nat
  end_ : Nat
  scope : Scope

structure WireSpan where
  text : List UInt8
  scope : WireScope
  deriving DecidableEq

def WireSpan.plain (text : List UInt8) : WireSpan := { text, scope := .plain }

/-- Most spans one row carries. -/
def maxRowSpans : Nat := 256

/-- Longest row that is sent whole. -/
def maxRowBytes : Nat := 8 * 1024

def scopeOf : Scope → WireScope
  | .comment => .comment
  | .keyword => .keyword
  | .controlKeyword => .controlKeyword
  | .string => .string
  | .number => .number
  | .type => .type
  | .function => .function
  | .property => .property
  | .constant => .constant
  | .plain => .plain

/-- `&line[from..to]`; `none` is the panic. -/
def slice (line : List UInt8) (from_ to_ : Nat) : Option (List UInt8) :=
  if from_ ≤ to_ ∧ to_ ≤ line.length ∧ isCharBoundary line from_ = true ∧ isCharBoundary line to_ =
    true then
    some ((line.take to_).drop from_)
  else none

/-- Append a run, merging it into the last one when the scope did not change. -/
def pushRun (spans : List WireSpan) (text : List UInt8) (scope : WireScope) : List WireSpan :=
  if text = [] then spans
  else match spans.getLast? with
    | some last =>
      if last.scope = scope then spans.dropLast ++ [{ last with text := last.text ++ text }]
      else spans ++ [{ text, scope }]
    | none => spans ++ [{ text, scope }]

/-- The loop over the scopes, from `at_` on; `none` is a panic. -/
def spansFrom (line : List UInt8) : List Span → List WireSpan → Nat → Option (List WireSpan)
  | [], spans, at_ =>
    if at_ < line.length then (slice line at_ line.length).map fun rest => pushRun spans rest .plain
    else some spans
  | span :: rest, spans, at_ =>
    let start := min span.start line.length
    let end_ := min span.end_ line.length
    if end_ ≤ at_ ∨ start ≥ line.length then spansFrom line rest spans at_
    else if isCharBoundary line (max start at_) = false ∨ isCharBoundary line end_ = false then
      some [.plain line]
    else
      let before := if start > at_ then (slice line at_ start).map fun gap =>
        pushRun spans gap .plain else some spans
      match before, slice line (max start at_) end_ with
      | some spans, some text =>
        if (pushRun spans text (scopeOf span.scope)).length > maxRowSpans then some [.plain line]
        else spansFrom line rest (pushRun spans text (scopeOf span.scope)) end_
      | _, _ => none

def spansOf (line : List UInt8) (scopes : List Span) : Option (List WireSpan) :=
  if line = [] then some []
  else if scopes = [] then some [.plain line]
  else spansFrom line scopes [] 0

section Painting

/-- The runs of a text whose bytes have these colours. -/
def painted (cells : List (UInt8 × WireScope)) : List WireSpan :=
  cells.foldl (fun spans cell => pushRun spans [cell.1] cell.2) []

theorem pushRun_snoc (spans : List WireSpan) (last : WireSpan) {text : List UInt8}
    (some_ : text ≠ []) (scope : WireScope) :
    pushRun (spans ++ [last]) text scope =
      if last.scope = scope then spans ++ [{ last with text := last.text ++ text }]
      else spans ++ [last] ++ [⟨text, scope⟩] := by
  rw [pushRun, if_neg some_, getLast?_concat, dropLast_concat]

theorem pushRun_eq (spans : List WireSpan) {text : List UInt8} (some_ : text ≠ [])
    (scope : WireScope) : ∃ front last, pushRun spans text scope = front ++ [last] ∧
    last.scope = scope := by
  rcases eq_nil_or_concat' spans with rfl | ⟨front, last, rfl⟩
  · exact ⟨[], ⟨text, scope⟩, by rw [pushRun, if_neg some_]; rfl, rfl⟩
  · rw [pushRun_snoc front last some_]
    split
    case isTrue same => exact ⟨front, _, rfl, same⟩
    case isFalse => exact ⟨front ++ [last], _, rfl, rfl⟩

/-- A run may be pushed in two parts. -/
theorem pushRun_append (spans : List WireSpan) (first second : List UInt8) (scope : WireScope) :
    pushRun (pushRun spans first scope) second scope = pushRun spans (first ++ second) scope := by
  by_cases none_ : first = []
  · have still : pushRun spans [] scope = spans := if_pos rfl
    rw [none_, still, nil_append]
  by_cases none' : second = []
  · rw [none', append_nil, pushRun, if_pos rfl]
  have some_ : first ++ second ≠ [] := fun empty => none_ (append_eq_nil_iff.mp empty).1
  rcases eq_nil_or_concat' spans with rfl | ⟨front, last, rfl⟩
  · have one : pushRun [] first scope = [] ++ [⟨first, scope⟩] := by
      rw [pushRun, if_neg none_]
      rfl
    rw [one, pushRun_snoc _ _ none', if_pos rfl, pushRun, if_neg some_]
    rfl
  · rw [pushRun_snoc front last none_, pushRun_snoc front last some_]
    split
    case isTrue same =>
      rw [pushRun_snoc _ _ none', if_pos same, append_assoc]
    case isFalse => rw [pushRun_snoc _ _ none', if_pos rfl]

theorem foldl_pushRun (text : List UInt8) (spans : List WireSpan) (scope : WireScope) :
    (text.map fun byte => (byte, scope)).foldl (fun spans cell => pushRun spans [cell.1] cell.2)
    spans =
      pushRun spans text scope := by
  induction text generalizing spans with
  | nil => rw [pushRun, if_pos rfl]; rfl
  | cons byte text ih =>
    rw [map_cons, foldl_cons, ih, pushRun_append]
    rfl

theorem painted_append (cells : List (UInt8 × WireScope)) (text : List UInt8) (scope : WireScope) :
    painted (cells ++ text.map fun byte => (byte, scope)) = pushRun (painted cells) text scope := by
  rw [painted, foldl_append, foldl_pushRun]
  rfl

theorem painted_snoc (cells : List (UInt8 × WireScope)) (cell : UInt8 × WireScope) :
    painted (cells ++ [cell]) = pushRun (painted cells) [cell.1] cell.2 :=
  painted_append cells [cell.1] cell.2

/-- Neighbouring spans differ in scope. -/
def Alternates (spans : List WireSpan) : Prop := spans.IsChain fun first second =>
    first.scope ≠ second.scope

theorem Alternates.pushRun {spans : List WireSpan} (alternates : Alternates spans)
    (text : List UInt8) (scope : WireScope) : Alternates (pushRun spans text scope) := by
  by_cases none_ : text = []
  · rw [Spans.pushRun, if_pos none_]
    exact alternates
  rcases eq_nil_or_concat' spans with rfl | ⟨front, last, rfl⟩
  · rw [Spans.pushRun, if_neg none_]
    exact isChain_singleton _
  · rw [pushRun_snoc front last none_]
    obtain ⟨before, -, joint⟩ := isChain_append.mp alternates
    split
    case isTrue same =>
      refine isChain_append.mpr ⟨before, isChain_singleton _, fun first ends second starts => ?_⟩
      cases starts
      exact joint first ends last rfl
    case isFalse other =>
      refine isChain_append.mpr ⟨alternates, isChain_singleton _, ?_⟩
      intro first ends second starts
      rw [getLast?_concat] at ends
      cases ends
      cases starts
      exact other

theorem text_pushRun (spans : List WireSpan) (text : List UInt8) (scope : WireScope) :
    (pushRun spans text scope).flatMap (·.text) = spans.flatMap (·.text) ++ text := by
  by_cases none_ : text = []
  · rw [pushRun, if_pos none_, none_, append_nil]
  rcases eq_nil_or_concat' spans with rfl | ⟨front, last, rfl⟩
  · rw [pushRun, if_neg none_]
    simp
  · rw [pushRun_snoc front last none_]
    split <;> simp

theorem painted_alternates (cells : List (UInt8 × WireScope)) : Alternates (painted cells) := by
  induction cells using List.reverseRecOn with
  | nil => exact isChain_nil
  | append_singleton cells cell ih =>
    rw [painted_snoc]
    exact ih.pushRun _ _

theorem painted_text (cells : List (UInt8 × WireScope)) :
    (painted cells).flatMap (·.text) = cells.map (·.1) := by
  induction cells using List.reverseRecOn with
  | nil => rfl
  | append_singleton cells cell ih =>
    rw [painted_snoc, text_pushRun, ih, map_append]
    rfl

end Painting

section Colours

variable (line : List UInt8) (scopes : List Span)

/-- Where a span ends in the row. -/
def stop (span : Span) : Nat := min span.end_ line.length

/-- The first byte behind everything that the spans colour. -/
def reach (before : List Span) : Nat :=
  before.foldl (fun at_ span => if span.start < line.length then max at_ (stop line span) else at_) 0

/-- The colour of a byte: the first span of the row that ends behind it has it, from its start
on. -/
def colourAt (at_ : Nat) : WireScope :=
  match scopes.find? fun span => decide (span.start < line.length) && decide (at_ < stop line span) with
  | some span => if span.start ≤ at_ then scopeOf span.scope else .plain
  | none => .plain

def cells (end_ : Nat) : List (UInt8 × WireScope) :=
  (line.take end_).zipIdx.map fun (byte, at_) => (byte, colourAt line scopes at_)

/-- How many runs of one colour there are. -/
def runs : List WireScope → Nat
  | [] => 0
  | [_] => 1
  | first :: second :: rest => (if first = second then 0 else 1) + runs (second :: rest)

/-- The runs of the row up to a byte. -/
def runsTo (end_ : Nat) : Nat := runs ((cells line scopes end_).map (·.2))

theorem runs_snoc (front : List WireScope) (last next : WireScope) :
    runs (front ++ [last] ++ [next]) = runs (front ++ [last]) + if last = next then 0 else 1 := by
  induction front with
  | nil =>
    simp only [nil_append, cons_append, runs]
    omega
  | cons first front ih =>
    cases front with
    | nil =>
      simp only [nil_append, cons_append, runs]
      omega
    | cons second front =>
      simp only [cons_append, runs] at ih ⊢
      omega

theorem length_painted (cells : List (UInt8 × WireScope)) :
    (painted cells).length = runs (cells.map (·.2)) := by
  induction cells using List.reverseRecOn with
  | nil => rfl
  | append_singleton cells cell ih =>
    rcases eq_nil_or_concat' cells with rfl | ⟨front, last, rfl⟩
    · rfl
    · obtain ⟨spans, end_, shape, same⟩ := pushRun_eq (painted front) (cons_ne_nil last.1 []) last.2
      have grown : painted (front ++ [last]) = spans ++ [end_] := by
        rw [painted_snoc, shape]
      have counted : runs (front.map (·.2) ++ [last.2]) = (spans ++ [end_]).length := by
        rw [← grown, ih, map_append]
        rfl
      have colours : (front ++ [last] ++ [cell]).map (·.2) = front.map (·.2) ++ [last.2] ++
          [cell.2] := by
        rw [map_append, map_append]
        rfl
      rw [painted_snoc, grown, pushRun_snoc _ _ (cons_ne_nil _ _), same, colours, runs_snoc, counted]
      split <;> simp

variable {line scopes}
variable {front back : List Span} {span : Span}

theorem reach_snoc (front : List Span) (span : Span) :
    reach line (front ++ [span]) =
      if span.start < line.length then max (reach line front) (stop line span) else reach
        line front := by
  rw [reach, foldl_append]
  rfl

theorem stop_le_reach {before : List Span} (member : span ∈ before)
    (shown : span.start < line.length) : stop line span ≤ reach line before := by
  induction before using List.reverseRecOn with
  | nil => cases member
  | append_singleton before last ih =>
    rw [reach_snoc]
    rcases mem_append.mp member with inside | here
    · have bound := ih inside
      split
      · exact bound.trans (Nat.le_max_left _ _)
      · exact bound
    · cases mem_singleton.mp here
      rw [if_pos shown]
      exact Nat.le_max_right _ _

theorem stop_le (line : List UInt8) (span : Span) :
    stop line span ≤ line.length := Nat.min_le_right _ _

theorem reach_le (before : List Span) : reach line before ≤ line.length := by
  induction before using List.reverseRecOn with
  | nil => exact Nat.zero_le _
  | append_singleton before last ih =>
    rw [reach_snoc]
    split
    · exact Nat.max_le.mpr ⟨ih, stop_le line last⟩
    · exact ih

theorem colourAt_of_span (split : scopes = front ++ span :: back) (shown : span.start < line.length)
    {at_ : Nat} (behind : reach line front ≤ at_) (inside : at_ < stop line span) :
    colourAt line scopes at_ = if span.start ≤ at_ then scopeOf span.scope else .plain := by
  have none_ :
      front.find? (fun span => decide (span.start < line.length) && decide (at_ < stop line span)) =
        none := by
    refine find?_eq_none.mpr fun other member found => ?_
    rw [Bool.and_eq_true, decide_eq_true_iff, decide_eq_true_iff] at found
    have bound := stop_le_reach member found.1
    omega
  rw [colourAt, split, find?_append, none_, Option.none_or, find?_cons_of_pos
    (by simp [shown, inside])]

theorem colourAt_behind {at_ : Nat} (behind : reach line scopes ≤ at_) :
    colourAt line scopes at_ = .plain := by
  have none_ :
      scopes.find? (fun span => decide (span.start < line.length) && decide
      (at_ < stop line span)) = none := by
    refine find?_eq_none.mpr fun other member found => ?_
    rw [Bool.and_eq_true, decide_eq_true_iff, decide_eq_true_iff] at found
    have bound := stop_le_reach member found.1
    omega
  rw [colourAt, none_]

/-- Cells of one colour behind the painted ones. -/
theorem cells_extend {from_ to_ : Nat} (order : from_ ≤ to_) (bound : to_ ≤ line.length)
    {colour : WireScope} (same : ∀ at_, from_ ≤ at_ → at_ < to_ → colourAt line scopes at_ =
      colour) :
    cells line scopes to_ =
      cells line scopes from_ ++ ((line.take to_).drop from_).map fun byte => (byte, colour) := by
  have split : line.take to_ = line.take from_ ++ (line.take to_).drop from_ := by
    conv_lhs => rw [← take_append_drop from_ (line.take to_)]
    rw [take_take, Nat.min_eq_left order]
  have size : (line.take from_).length = from_ := length_take_of_le (order.trans bound)
  rw [cells, split, zipIdx_append, map_append, cells]
  congr 1
  rw [size, ← split, map_eq_iff]
  intro index
  rw [getElem?_map, getElem?_zipIdx]
  cases there : ((line.take to_).drop from_)[index]? with
  | none => simp
  | some byte =>
    have inside := (List.getElem?_eq_some_iff.mp there).1
    rw [List.length_drop, length_take_of_le bound] at inside
    simp only [Option.map_some, Nat.zero_add]
    rw [same (from_ + index) (by omega) (by omega)]

end Colours

section Loop

variable (line : List UInt8) (scopes : List Span)

/-- The span colours something behind everything that came before it. -/
def Shows (front : List Span) (span : Span) : Prop :=
  span.start < line.length ∧ reach line front < stop line span

/-- The two ends between which the span colours the row are whole characters. -/
def Bounded (front : List Span) (span : Span) : Prop :=
  isCharBoundary line (max span.start (reach line front)) = true ∧
    isCharBoundary line (stop line span) = true

/-- The span can be coloured, and the row stays within the cap. -/
structure Fine (front : List Span) (span : Span) : Prop where
  bounded : Bounded line front span
  forwards : span.start ≤ stop line span
  few : runsTo line scopes (stop line span) ≤ maxRowSpans

/-- Every span of these that shows can be coloured. -/
def Clean (part : List Span) : Prop :=
  ∀ front span back, part = front ++ span :: back → Shows line front span →
    Fine line scopes front span

/-- Behind these spans comes one that ends before it starts, and nothing before it gives up the
colours. -/
def ReversedBehind (front part : List Span) : Prop :=
  ∃ before span back, part = before ++ span :: back ∧ Clean line scopes (front ++ before) ∧
    Shows line (front ++ before) span ∧ Bounded line (front ++ before) span ∧
      stop line span < span.start

variable {line scopes}
variable {front rest : List Span} {span : Span}

theorem clean_nil : Clean line scopes [] := fun front _ _ split => by
  cases front <;> cases split

theorem clean_snoc (clean : Clean line scopes front)
    (fine : Shows line front span → Fine line scopes front span) :
    Clean line scopes (front ++ [span]) := by
  intro before other back split shows_
  rcases eq_nil_or_concat' back with rfl | ⟨back, last, rfl⟩
  · obtain ⟨same, last⟩ := append_inj' split rfl
    cases last
    cases same
    exact fine shows_
  · rw [← cons_append, ← append_assoc] at split
    obtain ⟨same, -⟩ := append_inj' split rfl
    exact clean before other back same shows_

theorem not_clean (shows_ : Shows line front span) (bad : ¬ Fine line scopes front span)
    (rest : List Span) : ¬ Clean line scopes (front ++ span :: rest) :=
  fun clean => bad (clean front span rest rfl shows_)

/-- A span that is no reversed one only matters when it is fine. -/
theorem reversedBehind_cons
    (straight : ¬ (Shows line front span ∧ Bounded line front span ∧ stop line span < span.start)) :
    ReversedBehind line scopes front (span :: rest) ↔ ReversedBehind line scopes (front ++ [span])
    rest := by
  constructor
  · rintro ⟨before, other, back, split, clean, shows_, bounded, reversed⟩
    cases before with
    | nil =>
      cases split
      rw [append_nil] at shows_ bounded
      exact absurd ⟨shows_, bounded, reversed⟩ straight
    | cons first before =>
      cases split
      rw [← singleton_append, ← append_assoc] at clean shows_ bounded
      exact ⟨before, other, back, rfl, clean, shows_, bounded, reversed⟩
  · rintro ⟨before, other, back, rfl, clean, shows_, bounded, reversed⟩
    rw [append_assoc, singleton_append] at clean shows_ bounded
    exact ⟨span :: before, other, back, rfl, clean, shows_, bounded, reversed⟩

theorem not_reversedBehind (shows_ : Shows line front span) (bad : ¬ Fine line scopes front span)
    (straight : ¬ (Bounded line front span ∧ stop line span < span.start)) :
    ¬ ReversedBehind line scopes front (span :: rest) := by
  rw [reversedBehind_cons fun reversed => straight reversed.2]
  rintro ⟨before, other, back, rfl, clean, -⟩
  rw [append_assoc, singleton_append] at clean
  exact not_clean shows_ bad before clean

/-- What the loop leaves of the spans from a point on. -/
inductive Outcome (line : List UInt8) (scopes front part : List Span) :
    Option (List WireSpan) → Prop
  | coloured (clean : Clean line scopes (front ++ part)) (straight : ¬ ReversedBehind line scopes
      front part) :
    Outcome line scopes front part (some (painted (cells line scopes line.length)))
  | plain (unclean : ¬ Clean line scopes (front ++ part)) (straight : ¬ ReversedBehind line scopes
      front part) :
    Outcome line scopes front part (some [.plain line])
  | panics (reversed : ReversedBehind line scopes front part) : Outcome line scopes front part none

theorem Outcome.cons (straight :
      ¬ (Shows line front span ∧ Bounded line front span ∧ stop line span < span.start))
    {result : Option (List WireSpan)} (outcome : Outcome line scopes (front ++ [span])
      rest result) :
    Outcome line scopes front (span :: rest) result := by
  have same : front ++ [span] ++ rest = front ++ span :: rest := by simp
  cases outcome with
  | coloured clean none_ =>
    exact .coloured (same ▸ clean) (mt (reversedBehind_cons straight).mp none_)
  | plain unclean none_ => exact .plain (same ▸ unclean) (mt (reversedBehind_cons straight).mp none_)
  | panics reversed => exact .panics ((reversedBehind_cons straight).mpr reversed)

theorem slice_eq {from_ to_ : Nat} (order : from_ ≤ to_) (bound : to_ ≤ line.length)
    (first : isCharBoundary line from_ = true) (last : isCharBoundary line to_ = true) :
    slice line from_ to_ = some ((line.take to_).drop from_) :=
  if_pos ⟨order, bound, first, last⟩

theorem before_eq {spans : List WireSpan} (shows_ : Shows line front span)
    (whole : isCharBoundary line (reach line front) = true) (bounded : Bounded line front span) :
    (if span.start > reach line front then
      (slice line (reach line front) span.start).map fun gap => pushRun spans gap .plain
    else some spans) =
      some (if span.start > reach line front then
        pushRun spans ((line.take span.start).drop (reach line front)) .plain
      else spans) := by
  split
  case isTrue behind =>
    have first := bounded.1
    rw [Nat.max_eq_left (Nat.le_of_lt behind)] at first
    rw [slice_eq (Nat.le_of_lt behind) shows_.1.le whole first, Option.map_some]
  case isFalse => rfl

/-- What one span adds to the painted row. -/
theorem painted_span (split : scopes = front ++ span :: rest) (shows_ : Shows line front span)
    (forwards : span.start ≤ stop line span) :
    painted (cells line scopes (stop line span)) =
      pushRun
        (if span.start > reach line front then
          pushRun (painted (cells line scopes (reach line front)))
            ((line.take span.start).drop (reach line front)) .plain
        else painted (cells line scopes (reach line front)))
        ((line.take (stop line span)).drop (max span.start (reach line front)))
        (scopeOf span.scope) := by
  have colour : ∀ at_, max span.start (reach line front) ≤ at_ → at_ < stop line span →
      colourAt line scopes at_ = scopeOf span.scope := by
    intro at_ behind inside
    rw [colourAt_of_span split shows_.1 ((Nat.le_max_right _ _).trans behind) inside,
      if_pos ((Nat.le_max_left _ _).trans behind)]
  rw [cells_extend (Nat.max_le.mpr ⟨forwards, shows_.2.le⟩) (stop_le line span) colour,
    painted_append]
  congr 1
  split
  case isTrue behind =>
    have gap : ∀ at_, reach line front ≤ at_ → at_ < span.start →
        colourAt line scopes at_ = .plain := by
      intro at_ after before
      rw [colourAt_of_span split shows_.1 after (before.trans_le forwards),
        if_neg (Nat.not_le.mpr before)]
    rw [Nat.max_eq_left (Nat.le_of_lt behind), cells_extend (Nat.le_of_lt behind) shows_.1.le gap,
      painted_append]
  case isFalse inside => rw [Nat.max_eq_right (Nat.le_of_not_lt inside)]

theorem painted_rest :
    painted (cells line scopes line.length) =
      pushRun (painted (cells line scopes (reach line scopes)))
      ((line.take line.length).drop (reach line scopes))
        .plain := by
  rw [cells_extend (reach_le scopes) (Nat.le_refl _) fun at_ behind _ => colourAt_behind behind,
    painted_append]

theorem spansFrom_outcome (split : scopes = front ++ rest) (clean : Clean line scopes front)
    (whole : isCharBoundary line (reach line front) = true) :
    Outcome line scopes front rest
      (spansFrom line rest (painted (cells line scopes (reach line front)))
      (reach line front)) := by
  induction rest generalizing front with
  | nil =>
    rw [append_nil] at split
    subst split
    have none_ : ¬ ReversedBehind line scopes scopes [] := by
      rintro ⟨before, other, back, none_, -⟩
      cases before <;> cases none_
    have all : spansFrom line [] (painted (cells line scopes (reach line scopes)))
        (reach line scopes) = some (painted (cells line scopes line.length)) := by
      rw [spansFrom]
      split
      case isTrue more =>
        rw [slice_eq more.le (Nat.le_refl _) whole (Utf8.isCharBoundary_length line),
          Option.map_some, painted_rest]
      case isFalse done =>
        rw [Nat.le_antisymm (reach_le scopes) (Nat.le_of_not_lt done)]
    rw [all]
    exact .coloured (by rwa [append_nil]) none_
  | cons span rest ih =>
    have next : scopes = front ++ [span] ++ rest := by simpa using split
    rw [spansFrom]
    by_cases shows_ : Shows line front span
    · have here : ¬ (stop line span ≤ reach line front ∨
          min span.start line.length ≥ line.length) := by
        have inside := shows_.1
        have behind := shows_.2
        omega
      have start : min span.start line.length = span.start := Nat.min_eq_left shows_.1.le
      rw [stop] at here
      rw [if_neg here, start]
      by_cases bounded : Bounded line front span
      · have on : ¬ (isCharBoundary line (max span.start (reach line front)) = false ∨
            isCharBoundary line (min span.end_ line.length) = false) := by
          obtain ⟨first, last⟩ := bounded
          rw [stop] at last
          rw [first, last]
          simp
        rw [if_neg on, before_eq shows_ whole bounded]
        by_cases forwards : span.start ≤ stop line span
        · have text : slice line (max span.start (reach line front)) (min span.end_ line.length) =
              some ((line.take (stop line span)).drop (max span.start (reach line front))) :=
            slice_eq (Nat.max_le.mpr ⟨forwards, shows_.2.le⟩) (stop_le line span) bounded.1 bounded.2
          have reached : reach line (front ++ [span]) = stop line span := by
            rw [reach_snoc, if_pos shows_.1, Nat.max_eq_right shows_.2.le]
          rw [text]
          simp only [← painted_span split shows_ forwards, length_painted]
          split
          case isTrue many =>
            have bad : ¬ Fine line scopes front span := fun fine => Nat.not_le.mpr many fine.few
            exact .plain (not_clean shows_ bad rest)
              (not_reversedBehind shows_ bad fun both => Nat.not_le.mpr both.2 forwards)
          case isFalse few =>
            have fine : Fine line scopes front span := ⟨bounded, forwards, Nat.le_of_not_lt few⟩
            have later := ih next (clean_snoc clean fun _ => fine) (by rw [reached]; exact bounded.2)
            rw [reached] at later
            exact later.cons fun reversed => Nat.not_le.mpr reversed.2.2 forwards
        · have none_ : slice line (max span.start (reach line front)) (min span.end_ line.length) =
              none := by
            refine if_neg fun inside => forwards ?_
            exact (Nat.le_max_left _ _).trans inside.1
          rw [none_]
          exact .panics ⟨[], span, rest, rfl, by rwa [append_nil], by rwa [append_nil],
            by rwa [append_nil], Nat.lt_of_not_le forwards⟩
      · have off : isCharBoundary line (max span.start (reach line front)) = false ∨
            isCharBoundary line (min span.end_ line.length) = false := by
          rw [Bounded, stop] at bounded
          grind
        have bad : ¬ Fine line scopes front span := fun fine => bounded fine.bounded
        rw [if_pos off]
        exact .plain (not_clean shows_ bad rest) (not_reversedBehind shows_ bad fun both =>
          bounded both.1)
    · have hidden : stop line span ≤ reach line front ∨ min span.start line.length ≥ line.length := by
        rw [Shows] at shows_
        omega
      have still : reach line (front ++ [span]) = reach line front := by
        rw [reach_snoc]
        rw [Shows] at shows_
        split <;> omega
      rw [stop] at hidden
      rw [if_pos hidden, ← still]
      exact (ih next (clean_snoc clean fun showing => absurd showing shows_) (still ▸ whole)).cons
        fun showing =>
        shows_ showing.1

end Loop

theorem isCharBoundary_ascii (ascii : ∀ byte ∈ line, byte < 0x80) {index : Nat}
    (inside : index ≤ line.length) : isCharBoundary line index = true := by
  rw [isCharBoundary]
  split
  case isTrue => rfl
  case isFalse =>
    split
    case h_1 none_ =>
      exact beq_iff_eq.mpr (Nat.le_antisymm inside (List.getElem?_eq_none_iff.mp none_))
    case h_2 byte there =>
      have low : byte < 0x80 := ascii byte (mem_of_getElem? there)
      have off : ¬ (0x80 : UInt8) ≤ byte := UInt8.not_le.mpr low
      simp [Utf8.isContinuation, off]

theorem runs_prefix (front back : List WireScope) : runs front ≤ runs (front ++ back) := by
  induction back using List.reverseRecOn with
  | nil => rw [append_nil]
  | append_singleton back next ih =>
    rw [← append_assoc]
    rcases eq_nil_or_concat' (front ++ back) with none_ | ⟨all, last, same⟩
    · rw [(append_eq_nil_iff.mp none_).1]
      exact Nat.zero_le _
    · rw [same] at ih ⊢
      rw [runs_snoc]
      exact ih.trans (Nat.le_add_right _ _)

theorem runsTo_mono {from_ to_ : Nat} (order : from_ ≤ to_) (scopes : List Span) :
    runsTo line scopes from_ ≤ runsTo line scopes to_ := by
  have split : line.take to_ = line.take from_ ++ (line.take to_).drop from_ := by
    conv_lhs => rw [← take_append_drop from_ (line.take to_)]
    rw [take_take, Nat.min_eq_left order]
  rw [runsTo, runsTo, cells, cells, split, zipIdx_append, map_append, map_append]
  exact runs_prefix _ _

section Claim

/-- The spans spell the row, change scope from one to the next, and are no more than a row
carries. -/
structure Rendered (line : List UInt8) (spans : List WireSpan) : Prop where
  text : spans.flatMap (·.text) = line
  alternates : Alternates spans
  few : spans.length ≤ maxRowSpans

theorem rendered_plain (line : List UInt8) : Rendered line [.plain line] :=
  ⟨append_nil line, isChain_singleton _, Nat.le_add_left 1 255⟩

theorem rendered_painted (line : List UInt8) (scopes : List Span) :
    Rendered line (painted (cells line scopes line.length)) ↔ runsTo line scopes line.length ≤
      maxRowSpans := by
  have counted : (painted (cells line scopes line.length)).length =
      runsTo line scopes line.length := length_painted _
  constructor
  · exact fun rendered => counted ▸ rendered.few
  · intro few
    refine ⟨?_, painted_alternates _, counted ▸ few⟩
    rw [painted_text, cells, map_map, take_length]
    exact zipIdx_map_fst 0 line

/-- The row is rendered without a panic. -/
def Renders (line : List UInt8) (scopes : List Span) : Prop :=
  ∃ spans, spansOf line scopes = some spans ∧ Rendered line spans

theorem spansOf_outcome (line : List UInt8) (scopes : List Span) (some_ : line ≠ []) :
    Outcome line scopes [] scopes (spansOf line scopes) := by
  have loop : Outcome line scopes [] scopes (spansFrom line scopes [] 0) :=
    spansFrom_outcome (nil_append scopes).symm clean_nil rfl
  have same : spansOf line scopes = spansFrom line scopes [] 0 := by
    rw [spansOf, if_neg some_]
    split
    case isTrue none_ =>
      have long : 0 < line.length := length_pos_iff.mpr some_
      rw [none_, spansFrom, if_pos long, slice_eq (Nat.zero_le _) (Nat.le_refl _) rfl
        (Utf8.isCharBoundary_length line), take_length, drop_zero, Option.map_some, pushRun,
        if_neg some_]
      rfl
    case isFalse => rfl
  rwa [same]

theorem few_of_renders (some_ : line ≠ []) (clean : Clean line scopes scopes)
    (renders : Renders line scopes) : runsTo line scopes line.length ≤ maxRowSpans := by
  obtain ⟨spans, same, rendered⟩ := renders
  have outcome := spansOf_outcome line scopes some_
  rw [same] at outcome
  cases outcome with
  | coloured => exact (rendered_painted line scopes).mp rendered
  | plain unclean => exact absurd clean unclean

/-- A row is cut right exactly when no reversed span is reached and a row that keeps its colours has
few runs. -/
theorem spansOf_renders_iff (line : List UInt8) (scopes : List Span) :
    Renders line scopes ↔
      ¬ ReversedBehind line scopes [] scopes ∧
        (Clean line scopes scopes → runsTo line scopes line.length ≤ maxRowSpans) := by
  by_cases empty : line = []
  · subst empty
    have none_ : ¬ ReversedBehind [] scopes [] scopes := by
      rintro ⟨before, span, back, -, -, shows_, -⟩
      exact Nat.not_lt_zero _ shows_.1
    exact iff_of_true ⟨[], if_pos rfl, rfl, isChain_nil, Nat.zero_le _⟩ ⟨none_, fun _ =>
      Nat.zero_le _⟩
  have outcome := spansOf_outcome line scopes empty
  rw [Renders]
  generalize spansOf line scopes = result at outcome
  cases outcome with
  | coloured clean straight =>
    rw [and_iff_right straight, ← rendered_painted]
    constructor
    · rintro ⟨spans, same, rendered⟩ -
      cases same
      exact rendered
    · exact fun right => ⟨_, rfl, right clean⟩
  | plain unclean straight =>
    exact iff_of_true ⟨_, rfl, rendered_plain line⟩ ⟨straight, fun clean => absurd clean unclean⟩
  | panics reversed =>
    refine iff_of_false ?_ fun right => right.1 reversed
    rintro ⟨spans, none_, -⟩
    cases none_

/-- A blank and a digit, over and over, and a semicolon. -/
def digits : List UInt8 := (List.replicate 128 [32, 49]).flatten ++ [59]

def digitScopes : List Span :=
  (List.range 128).map fun index =>
    { start := 2 * index + 1, end_ := 2 * index + 2, scope := .number }

theorem ascii_digits : ∀ byte ∈ digits, byte < 0x80 := fun byte member =>
  of_decide_eq_true (all_eq_true.mp
  (by decide +kernel : (digits.all fun byte => decide (byte < 0x80)) = true)
    byte member)

theorem clean_digits : Clean digits digitScopes digitScopes := by
  intro front span back split shows_
  have member : span ∈ digitScopes := by
    rw [split]
    exact mem_append_right _ mem_cons_self
  obtain ⟨index, small, rfl⟩ := List.mem_map.mp member
  have size : digits.length = 257 := by decide +kernel
  have below : index < 128 := mem_range.mp small
  have ends : stop digits ⟨2 * index + 1, 2 * index + 2, .number⟩ = 2 * index + 2 := by
    rw [stop, size]
    show min (2 * index + 2) 257 = _
    omega
  have all : runsTo digits digitScopes 256 ≤ maxRowSpans := by decide +kernel
  have reached : reach digits front ≤ digits.length := reach_le front
  refine ⟨⟨isCharBoundary_ascii ascii_digits ?_, isCharBoundary_ascii ascii_digits (stop_le _ _)⟩,
    ?_, ?_⟩
  · rw [size] at reached ⊢
    show max (2 * index + 1) _ ≤ 257
    omega
  · rw [ends]
    exact Nat.le_succ (2 * index + 1)
  · rw [ends]
    exact (runsTo_mono (by omega) _).trans all

/-- The row is valid text and short enough, and comes back as 257 spans: the run behind the last
number is not counted. -/
theorem not_spansOf_renders :
    Utf8.Valid digits ∧ digits.length ≤ maxRowBytes ∧ ¬ Renders digits digitScopes := by
  refine ⟨?_, by decide +kernel, ?_⟩
  · have letters := Utf8.Str.valid_ofChars ((List.replicate 128 [' ', '1']).flatten ++ [';'])
    have same : ((List.replicate 128 [' ', '1']).flatten ++ [';']).flatMap String.utf8EncodeChar =
        digits := by
      decide +kernel
    exact same ▸ letters
  · intro renders
    have few : runsTo digits digitScopes digits.length ≤ maxRowSpans :=
      few_of_renders (by decide +kernel) clean_digits renders
    exact absurd few (by decide +kernel)

end Claim

end ForgeNode.Spans
