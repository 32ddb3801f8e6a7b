import ForgeNode.Editor.Viewport

/-! The walks over the rows of the screen against each other, in every state that commands lead
to. -/

namespace ForgeNode.Viewport

open List Utf8 Editor Fold Outline

namespace Screen

section Walks

variable {script : Script} {screen : Screen} {anchor : Anchor}

/-- How many rows the lines of a list take, the first of them from a segment on. -/
def rowsOf (script : Script) (screen : Screen) : List Nat → Nat → Nat
  | [], _ => 0
  | line :: rest, skip => (screen.lineRows script line - skip) + rowsOf script screen rest 0

/-- Within the room the one walk finds on each row what the other finds for it. -/
theorem fillRows_getElem? (lines : List Nat) (sub : Nat) {room row : Nat} (inside : row < room) :
    (screen.fillRows script lines sub room)[row]? = screen.walkRows script lines sub row := by
  induction lines generalizing sub room row with
  | nil => rfl
  | cons line rest ih =>
    unfold fillRows walkRows
    rw [if_neg (by omega)]
    simp only
    by_cases here : row < screen.lineRows script line - sub
    · rw [if_pos ⟨by omega, here⟩, getElem?_append_left (by simp; omega), getElem?_map,
        getElem?_range' (by omega)]
      simp
    · rw [if_neg fun both => here both.2, getElem?_append_right (by simp; omega)]
      have taken : min (screen.lineRows script line - sub) room =
          screen.lineRows script line - sub := by omega
      rw [length_map, length_range', taken]
      exact ih 0 (by omega)

/-- What `walkRows` finds at a row, by the rows of the lines in front. -/
theorem walkRows_eq_some {lines : List Nat} {skip row line sub : Nat} :
    screen.walkRows script lines skip row = some (line, sub) ↔
    ∃ front rest, lines = front ++ line :: rest ∧
      (if front = [] then skip else 0) ≤ sub ∧ sub < screen.lineRows script line ∧
      row = rowsOf script screen front skip + (sub - if front = [] then skip else 0) := by
  induction lines generalizing skip row with
  | nil => simp [walkRows]
  | cons first rest ih =>
    unfold walkRows
    simp only
    split
    · rename_i here
      constructor
      · intro found
        obtain ⟨rfl, rfl⟩ := Prod.mk.inj (Option.some.inj found)
        refine ⟨[], rest, rfl, ?_, ?_, ?_⟩
        · exact Nat.le_add_right _ _
        · omega
        · simp [rowsOf]
      · rintro ⟨front, behind, shape, low, high, place⟩
        cases front with
        | nil =>
          obtain ⟨rfl, rfl⟩ := List.cons.inj shape
          simp only [if_true, rowsOf] at low place
          congr 2
          omega
        | cons other front =>
          obtain ⟨rfl, rfl⟩ := List.cons.inj shape
          rw [rowsOf] at place
          omega
    · rename_i there
      rw [ih]
      constructor
      · rintro ⟨front, behind, rfl, low, high, place⟩
        refine ⟨first :: front, behind, rfl, Nat.zero_le _, high, ?_⟩
        simp only [ite_self, reduceCtorEq, if_false, rowsOf] at place ⊢
        omega
      · rintro ⟨front, behind, shape, low, high, place⟩
        cases front with
        | nil =>
          obtain ⟨rfl, rfl⟩ := List.cons.inj shape
          simp only [if_true, rowsOf] at low place
          omega
        | cons other front =>
          obtain ⟨rfl, rfl⟩ := List.cons.inj shape
          simp only [reduceCtorEq, if_false, rowsOf] at place
          refine ⟨front, behind, rfl, ?_, high, ?_⟩
          · rw [ite_self]
            exact Nat.zero_le _
          · rw [ite_self]
            omega

/-- The segment that the first row of a line shows. -/
def skipAt (anchor : Anchor) (line : Nat) : Nat := if line = anchor.top then anchor.topSub else 0

theorem skipAt_eq {line : Nat} (low : anchor.top ≤ line) :
    (if List.range' anchor.top (line - anchor.top) = [] then anchor.topSub else 0) =
      skipAt anchor line := by
  unfold skipAt
  congr 1
  rw [range'_eq_nil_iff]
  exact propext (by omega)

/-- How many rows are between the anchor and a line. -/
def rowsAbove (script : Script) (screen : Screen) (anchor : Anchor) (line : Nat) : Nat :=
  rowsOf script screen (List.range' anchor.top (line - anchor.top)) anchor.topSub

theorem range'_around {top count line : Nat} (low : top ≤ line) (high : line < count) :
    List.range' top (count - top) =
      List.range' top (line - top) ++ line :: List.range' (line + 1) (count - (line + 1)) := by
  have size : count - top = (line - top) + (count - (line + 1) + 1) := by omega
  have start : top + (line - top) = line := by omega
  rw [size, ← range'_append_1, start, range'_succ]

theorem range'_split {top count line : Nat} {front rest : List Nat}
    (shape : List.range' top (count - top) = front ++ line :: rest) :
    top ≤ line ∧ line < count ∧ front = List.range' top (line - top) := by
  have place : (List.range' top (count - top))[front.length]? = some line := by
    rw [shape, getElem?_append_right (Nat.le_refl _), Nat.sub_self]
    rfl
  have size := congrArg List.length shape
  rw [length_range', length_append, length_cons] at size
  rw [getElem?_range' (by omega)] at place
  have at_ := Option.some.inj place
  have low : top ≤ line := by omega
  have high : line < count := by omega
  rw [range'_around low high] at shape
  exact ⟨low, high, (append_inj_left shape (by rw [length_range']; omega)).symm⟩

/-- Which row of a wrapped screen shows a segment. -/
theorem walkRows_below {row line sub : Nat} :
    screen.walkRows script (screen.below anchor.top) anchor.topSub row = some (line, sub) ↔
      anchor.top ≤ line ∧ line < screen.lineCount ∧ skipAt anchor line ≤ sub ∧
      sub < screen.lineRows script line ∧
        row = rowsAbove script screen anchor line + (sub - skipAt anchor line) := by
  rw [walkRows_eq_some, below]
  constructor
  · rintro ⟨front, rest, shape, facts⟩
    obtain ⟨low, high, rfl⟩ := range'_split shape
    rw [skipAt_eq low] at facts
    exact ⟨low, high, facts⟩
  · rintro ⟨low, high, facts⟩
    refine ⟨_, _, range'_around low high, ?_⟩
    rw [skipAt_eq low]
    exact facts

end Walks

section Law

variable {script : Script} {screen : Screen} {anchor : Anchor} {row line sub height left : Nat}

theorem lineRows_unwrapped (off : screen.wrap = false) (line : Nat) :
    screen.lineRows script line = if screen.isHidden line then 0 else 1 := by
  unfold lineRows
  rw [off]
  rfl

theorem walkVisible_eq (off : screen.wrap = false) (lines : List Nat) (row : Nat) :
    screen.walkVisible lines row = screen.walkRows script lines 0 row := by
  induction lines generalizing row with
  | nil => rfl
  | cons line rest ih =>
    unfold walkVisible walkRows
    rw [lineRows_unwrapped off]
    cases screen.isHidden line with
    | true => simp [ih]
    | false =>
      cases row with
      | zero => simp
      | succ row => simp [ih]

/-- With nothing hidden the lines are counted. -/
theorem walkVisible_bare (bare : screen.folds.hidden = []) (top count row : Nat) :
    screen.walkVisible (List.range' top count) row = if row < count then some (top + row, 0)
    else none := by
  have shown (line : Nat) : screen.isHidden line = false := by
    rw [isHidden, bare]
    rfl
  induction count generalizing top row with
  | zero => rfl
  | succ count ih =>
    rw [range'_succ]
    unfold walkVisible
    rw [shown]
    cases row with
    | zero => simp
    | succ row =>
      simp only [Bool.false_eq_true, if_false]
      rw [ih]
      split <;> split
      · rw [Nat.add_assoc, Nat.add_comm 1]
      · omega
      · omega
      · rfl

/-- Wrapped or not, folded or not, a row is looked up by the walk over what the lines take. -/
theorem rowLineSub_eq (flat : screen.wrap = false → anchor.topSub = 0)
    (bare : screen.folds.folded.lines = [] → screen.folds.hidden = []) (row : Nat) :
    screen.rowLineSub script anchor row = screen.walkRows script (screen.below anchor.top)
    anchor.topSub row := by
  unfold rowLineSub
  cases mode : screen.wrap with
  | true => rfl
  | false =>
    rw [flat mode, ← walkVisible_eq mode]
    simp only [Bool.not_false, if_true]
    split
    · rename_i empty
      rw [below, walkVisible_bare (bare (List.isEmpty_iff.mp empty))]
      congr 1
      exact propext (by omega)
    · rfl

/-- `row_lines` finds for each of its rows what `row_line_sub` finds for it alone. -/
theorem rowLines_getElem? (flat : screen.wrap = false → anchor.topSub = 0)
    (bare : screen.folds.folded.lines = [] → screen.folds.hidden = []) (inside : row < height) :
    (screen.rowLines script anchor height)[row]? = some (screen.rowLineSub script anchor row) := by
  have found := @fillRows_getElem? script screen (screen.below anchor.top) anchor.topSub height row
    inside
  rw [rowLineSub_eq flat bare, ← found]
  unfold rowLines
  simp only
  generalize screen.fillRows script (screen.below anchor.top) anchor.topSub height = shown
  by_cases here : row < shown.length
  · rw [getElem?_append_left (by rw [length_map]; exact here), getElem?_map,
      getElem?_eq_getElem here]
    rfl
  · rw [getElem?_append_right (by rw [length_map]; omega), length_map,
      getElem?_replicate_of_lt (by omega), getElem?_eq_none (by omega)]

/-- A row of the viewport shows a segment of a line. -/
def Shows (script : Script) (screen : Screen) (anchor : Anchor) (row line sub : Nat) : Prop :=
  row < screen.contentHeight ∧ screen.rowLineSub script anchor row = some (line, sub)

/-- The line is there, not hidden, and has the segment. -/
def HasSegment (script : Script) (screen : Screen) (line sub : Nat) : Prop :=
  line < screen.lineCount ∧ sub < screen.lineRows script line

/-- How many rows are between the anchor and a segment at or below it. -/
def rowFor (script : Script) (screen : Screen) (anchor : Anchor) (line sub : Nat) : Nat :=
  rowsAbove script screen anchor line + if screen.wrap then sub - skipAt anchor line else 0

/-- The segment is in front of the anchor, hidden, or below the last row. -/
def Offscreen (script : Script) (screen : Screen) (anchor : Anchor) (line sub : Nat) : Prop :=
  line < anchor.top ∨ (screen.wrap = true ∧ line = anchor.top ∧ sub < anchor.topSub) ∨
    (screen.wrap = false ∧ screen.isHidden line = true) ∨ screen.contentHeight ≤
      rowFor script screen anchor line sub

/-- The walk stops early only where it would end below the last row anyway. -/
theorem rowBefore_eq (lines : List Nat) {skip : Nat} (ahead : lines = [] → skip ≤ sub) (row : Nat) :
    ((screen.rowBefore script height lines skip row).bind fun (row, skip) =>
        if row + sub - skip < height then some (row + sub - skip) else none) =
      (let place := row + rowsOf script screen lines skip + (sub - if lines = [] then skip else 0)
      if place < height then some place else none) := by
  induction lines generalizing skip row with
  | nil =>
    have whole : row + sub - skip = row + (sub - skip) := Nat.add_sub_assoc (ahead rfl) row
    simp [rowBefore, rowsOf, whole]
  | cons line rest ih =>
    unfold rowBefore rowsOf
    simp only
    split
    · rw [if_neg (by omega)]
      rfl
    · rw [ih fun _ => Nat.zero_le _]
      simp only [ite_self, reduceCtorEq, if_false, Nat.add_assoc]

theorem rowsOf_unwrapped (off : screen.wrap = false) (lines : List Nat) :
    rowsOf script screen lines 0 = lines.countP (!screen.isHidden ·) := by
  induction lines with
  | nil => rfl
  | cons line rest ih =>
    rw [rowsOf, ih, lineRows_unwrapped off, countP_cons]
    cases screen.isHidden line <;> simp [Nat.add_comm]

theorem rowsAbove_unwrapped (off : screen.wrap = false) (flat : anchor.topSub = 0) (line : Nat) :
    rowsAbove script screen anchor line =
      (List.range' anchor.top (line - anchor.top)).countP (!screen.isHidden ·) := by
  rw [rowsAbove, flat, rowsOf_unwrapped off]

theorem rowsAbove_bare (off : screen.wrap = false) (flat : anchor.topSub = 0)
    (bare : screen.folds.hidden = []) (line : Nat) :
    rowsAbove script screen anchor line = line - anchor.top := by
  have shown : ∀ other ∈ List.range' anchor.top (line - anchor.top), (!screen.isHidden other) =
      true := by
    intro other _
    rw [isHidden, bare]
    rfl
  rw [rowsAbove_unwrapped off flat, countP_eq_length.mpr shown, length_range']

theorem onScreen_eq_some {place height row : Nat} :
    (if place < height then some place else none) = some row ↔ place < height ∧ row = place := by
  split
  · rename_i inside
    simp [inside, eq_comm]
  · rename_i outside
    simp [outside]

/-- Where `line_sub_to_row` puts a segment, in all its branches. -/
theorem lineSubToRow_eq_some (flat : screen.wrap = false → anchor.topSub = 0)
    (bare : screen.folds.folded.lines = [] → screen.folds.hidden = []) :
    screen.lineSubToRow script anchor line sub = some row ↔
      ¬Offscreen script screen anchor line sub ∧ row = rowFor script screen anchor line sub := by
  unfold lineSubToRow Offscreen rowFor
  simp only
  by_cases above : line < anchor.top
  · simp [above]
  cases mode : screen.wrap with
  | false =>
    cases hidden : screen.isHidden line with
    | true => simp [above]
    | false =>
      have place (empty : screen.folds.folded.lines.isEmpty = true) :=
        @rowsAbove_bare script screen anchor mode (flat mode) (bare (List.isEmpty_iff.mp empty)) line
      have counted := @rowsAbove_unwrapped script screen anchor mode (flat mode) line
      simp only [above, Bool.not_false, if_true, Bool.false_eq_true, if_false, Nat.add_zero,
        false_or, false_and, and_false, Nat.not_le]
      split
      · rename_i empty
        rw [place empty]
        exact onScreen_eq_some
      · rw [counted]
        exact onScreen_eq_some
  | true =>
    by_cases before : line = anchor.top ∧ sub < anchor.topSub
    · simp [before]
    have walked := @rowBefore_eq script screen sub screen.contentHeight
      (List.range' anchor.top (line - anchor.top)) anchor.topSub (by rw [range'_eq_nil_iff]; omega) 0
    rw [skipAt_eq (Nat.not_lt.mp above), Nat.zero_add] at walked
    simp only [above, before, Bool.not_true, if_true, Bool.true_eq_false, Bool.false_eq_true,
      if_false, false_or, false_and, and_false, Nat.not_le, walked]
    exact onScreen_eq_some

/-- A segment is shown where it is one and `line_sub_to_row` says so. -/
theorem shows_iff (flat : screen.wrap = false → anchor.topSub = 0)
    (bare : screen.folds.folded.lines = [] → screen.folds.hidden = []) :
    Shows script screen anchor row line sub ↔ HasSegment script screen line sub ∧
      ¬Offscreen script screen anchor line sub ∧ row = rowFor script screen anchor line sub := by
  unfold Shows HasSegment Offscreen rowFor
  rw [rowLineSub_eq flat bare, walkRows_below]
  have start : skipAt anchor line = if line = anchor.top then anchor.topSub else 0 := rfl
  cases mode : screen.wrap with
  | true =>
    simp only [true_and, if_true, Bool.true_eq_false, false_and, false_or, start]
    split <;> omega
  | false =>
    have zero := flat mode
    have rows := @lineRows_unwrapped script screen mode line
    simp only [Bool.false_eq_true, false_and, false_or, if_false, true_and, start, zero, ite_self,
      Nat.sub_zero]
    cases hidden : screen.isHidden line with
    | true =>
      rw [hidden] at rows
      simp only [if_true] at rows
      omega
    | false =>
      rw [hidden] at rows
      simp only [Bool.false_eq_true, if_false, false_or] at rows ⊢
      omega

/-- `line_sub_to_row` finds the row of what is a segment, and takes what is none for one where that
would be on the screen. -/
theorem lineSubToRow_shows_iff (flat : screen.wrap = false → anchor.topSub = 0)
    (bare : screen.folds.folded.lines = [] → screen.folds.hidden = []) (line sub : Nat) :
    (∀ row, screen.lineSubToRow script anchor line sub = some row ↔
      Shows script screen anchor row line sub) ↔
      HasSegment script screen line sub ∨ Offscreen script screen anchor line sub := by
  constructor
  · intro agree
    by_contra neither
    obtain ⟨none_, on⟩ := not_or.mp neither
    have found := (agree _).mp ((lineSubToRow_eq_some flat bare).mpr ⟨on, rfl⟩)
    exact none_ ((shows_iff flat bare).mp found).1
  · intro either row
    rw [lineSubToRow_eq_some flat bare, shows_iff flat bare]
    constructor
    · rintro ⟨on, place⟩
      exact ⟨either.resolve_right on, on, place⟩
    · rintro ⟨_, on, place⟩
      exact ⟨on, place⟩

/-- The segment of its line that the caret is in. -/
def caretSegment (script : Script) (screen : Screen) : Nat :=
  if screen.wrap then screen.caretColumn script / max screen.contentWidth 1 else 0

/-- The display column at the start of the caret's row. -/
def firstColumn (script : Script) (screen : Screen) (left : Nat) : Nat :=
  if screen.wrap then screen.caretSegment script * max screen.contentWidth 1 else left

/-- The cell of the caret's row in which its column is drawn. -/
def CaretCell (script : Script) (screen : Screen) (left cell : Nat) : Prop :=
  screen.gutterWidth ≤ cell ∧ screen.firstColumn script left + (cell - screen.gutterWidth) =
    screen.caretColumn script

/-- Without wrapping `caret_screen` counts lines, and nothing may be hidden between the anchor and
the caret. -/
def CaretFollows (script : Script) (screen : Screen) (anchor : Anchor) (left : Nat) : Prop :=
  let line := screen.caretLineCol.line
  if screen.wrap then
    HasSegment script screen line (screen.caretSegment script) ∨
      Offscreen script screen anchor line (screen.caretSegment script)
  else
    line < anchor.top ∨
      ((∀ between, anchor.top ≤ between → between ≤ line → screen.isHidden between = false) ∧
        left ≤ screen.caretColumn script) ∨
      (screen.contentHeight ≤ line - anchor.top ∧
        (screen.caretColumn script < left ∨ Offscreen script screen anchor line 0))

theorem caretCell_wrapped (wrapped : screen.wrap = true) (cell : Nat) :
    CaretCell script screen left cell ↔
    cell = screen.gutterWidth + screen.caretColumn script % max screen.contentWidth 1 := by
  have whole := Nat.div_add_mod' (screen.caretColumn script) (max screen.contentWidth 1)
  unfold CaretCell firstColumn caretSegment
  simp only [wrapped, if_true]
  omega

theorem caretCell_unwrapped (off : screen.wrap = false) (cell : Nat) :
    CaretCell script screen left cell ↔
    left ≤ screen.caretColumn script ∧ cell = screen.gutterWidth +
    (screen.caretColumn script - left) := by
  unfold CaretCell firstColumn
  simp only [off, Bool.false_eq_true, if_false]
  omega

theorem rowsAbove_eq_iff (off : screen.wrap = false) (flat : anchor.topSub = 0) (line : Nat) :
    rowsAbove script screen anchor line = line - anchor.top ↔
      ∀ between, anchor.top ≤ between → between < line → screen.isHidden between = false := by
  have counted := @countP_eq_length Nat (List.range' anchor.top (line - anchor.top))
    (!screen.isHidden ·)
  rw [length_range'] at counted
  rw [rowsAbove_unwrapped off flat, counted]
  constructor
  · intro shown between low high
    have seen := shown between (mem_range'_1.mpr ⟨low, by omega⟩)
    simpa using seen
  · intro shown between member
    have bounds := mem_range'_1.mp member
    simp [shown between bounds.1 (by omega)]

theorem rowsAbove_le (off : screen.wrap = false) (flat : anchor.topSub = 0) (line : Nat) :
    rowsAbove script screen anchor line ≤ line - anchor.top := by
  have bound := @countP_le_length Nat (!screen.isHidden ·)
    (List.range' anchor.top (line - anchor.top))
  rwa [← rowsAbove_unwrapped off flat, length_range'] at bound

theorem caretScreen_wrapped (wrapped : screen.wrap = true) (row cell : Nat) :
    screen.caretScreen script anchor left = some (row, cell) ↔
      screen.lineSubToRow script anchor screen.caretLineCol.line (screen.caretSegment script) =
        some row ∧ CaretCell script screen left cell := by
  rw [caretCell_wrapped wrapped]
  unfold caretScreen caretSegment
  simp only [wrapped, if_true, Option.map_eq_some_iff, Prod.mk.injEq]
  constructor
  · rintro ⟨_, found, rfl, rfl⟩
    exact ⟨found, rfl⟩
  · rintro ⟨found, rfl⟩
    exact ⟨row, found, rfl, rfl⟩

theorem caretScreen_unwrapped (off : screen.wrap = false) (row cell : Nat) :
    screen.caretScreen script anchor left = some (row, cell) ↔
      (anchor.top ≤ screen.caretLineCol.line ∧ row = screen.caretLineCol.line - anchor.top ∧
        row < screen.contentHeight) ∧ cell = screen.gutterWidth +
        (screen.caretColumn script - left) := by
  unfold caretScreen
  simp only [off, Bool.false_eq_true, if_false]
  split
  · rename_i inside
    rw [Option.some.injEq, Prod.mk.injEq]
    omega
  · rename_i outside
    simp only [reduceCtorEq, false_iff]
    omega

/-- The rows that `caret_screen` counts without wrapping are the rows of the screen where nothing
between is hidden. -/
theorem caretScreen_shows_iff (off : screen.wrap = false)
    (inside : screen.caretLineCol.line < screen.lineCount)
    (flat : screen.wrap = false → anchor.topSub = 0)
    (bare : screen.folds.folded.lines = [] → screen.folds.hidden = []) (left : Nat) :
    (∀ row cell, screen.caretScreen script anchor left = some (row, cell) ↔
      Shows script screen anchor row screen.caretLineCol.line 0 ∧
      CaretCell script screen left cell) ↔
      CaretFollows script screen anchor left := by
  have straight := @rowsAbove_eq_iff script screen anchor off (flat off) screen.caretLineCol.line
  have below := @rowsAbove_le script screen anchor off (flat off) screen.caretLineCol.line
  have rows := @lineRows_unwrapped script screen off screen.caretLineCol.line
  simp only [caretScreen_unwrapped off, shows_iff flat bare, caretCell_unwrapped off]
  unfold CaretFollows HasSegment Offscreen rowFor
  simp only [off, Bool.false_eq_true, if_false, false_and, false_or, true_and, Nat.add_zero]
  generalize screen.caretLineCol.line = line at *
  generalize rowsAbove script screen anchor line = above at *
  generalize screen.lineRows script line = taken at *
  by_cases before : line < anchor.top
  · have never : ¬anchor.top ≤ line := Nat.not_le.mpr before
    simp [before, never]
  have whole : (∀ between, anchor.top ≤ between → between ≤ line → screen.isHidden between = false) ↔
      above = line - anchor.top ∧ screen.isHidden line = false := by
    rw [straight]
    constructor
    · intro shown
      refine ⟨?_, shown line (Nat.not_lt.mp before) (Nat.le_refl _)⟩
      intro between low high
      exact shown between low (Nat.le_of_lt high)
    · rintro ⟨shown, last⟩ between low high
      rcases Nat.lt_or_eq_of_le high with earlier | rfl
      · exact shown between low earlier
      · exact last
  rw [whole]
  clear straight whole
  cases hidden : screen.isHidden line with
  | true =>
    simp only [hidden, if_true] at rows
    simp only [before, rows, Nat.lt_irrefl, and_false, false_and, iff_false, Bool.true_eq_false,
      true_or, or_true, and_true, false_or]
    constructor
    · intro agree
      have counted := agree (line - anchor.top)
        (screen.gutterWidth + (screen.caretColumn script - left))
      simp only [and_true, true_and] at counted
      omega
    · intro far row cell shown
      omega
  | false =>
    simp only [hidden, Bool.false_eq_true, if_false] at rows
    simp only [before, rows, inside, Bool.false_eq_true, Nat.one_pos, true_and, and_true, false_or]
    constructor
    · intro agree
      have counted := agree (line - anchor.top)
        (screen.gutterWidth + (screen.caretColumn script - left))
      have shown := agree above (screen.gutterWidth + (screen.caretColumn script - left))
      simp only [and_true, true_and] at counted shown
      omega
    · intro follows row cell
      constructor
      · rintro ⟨⟨low, rfl, high⟩, rfl⟩
        omega
      · rintro ⟨⟨high, rfl⟩, seen, rfl⟩
        omega

/-- `caret_screen` finds the caret exactly where it follows the rows of the screen. -/
theorem caretScreen_iff (indexed : screen.text.Indexed)
    (flat : screen.wrap = false → anchor.topSub = 0)
    (bare : screen.folds.folded.lines = [] → screen.folds.hidden = []) (left : Nat) :
    (∀ row cell, screen.caretScreen script anchor left = some (row, cell) ↔
      Shows script screen anchor row screen.caretLineCol.line (screen.caretSegment script) ∧
        CaretCell script screen left cell) ↔ CaretFollows script screen anchor left := by
  cases mode : screen.wrap with
  | false =>
    have first : screen.caretSegment script = 0 := by
      rw [caretSegment, mode]
      rfl
    rw [first]
    exact caretScreen_shows_iff mode (indexed.lineOfOffset_lt _) flat bare left
  | true =>
    have agree := @lineSubToRow_shows_iff script screen anchor flat bare screen.caretLineCol.line
      (screen.caretSegment script)
    unfold CaretFollows
    simp only [mode, if_true, caretScreen_wrapped mode, caretCell_wrapped mode]
    rw [← agree]
    constructor
    · intro both row
      simpa using both row (screen.gutterWidth + screen.caretColumn script % max screen.contentWidth
        1)
    · intro rows row cell
      rw [rows row]

end Law

end Screen

end ForgeNode.Viewport
