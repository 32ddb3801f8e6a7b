import ForgeNode.Editor.Columns
import ForgeNode.Editor.ViewportLaw

/-! A press on the DOM surface: from a line and a UTF-16 column to a screen cell, and from the cell
to the caret. -/

namespace ForgeNode.Pointer

open List Utf8 Editor Editor.Movement Viewport.Screen

variable {bytes : List UInt8} {graphemes : List (Nat × Str)}

/-- `MULTI_CLICK`, in milliseconds. -/
def multiClick : Nat := 500

/-- Longest row that is sent whole. -/
def maxRowBytes : Nat := 8 * 1024

structure ClickRun where
  column : Nat
  row : Nat
  at_ : Nat
  count : Nat

/-- What the pointer needs of the editor. -/
structure App where
  view : Viewport.App
  clickRun : Option ClickRun

/-- The editor as the DOM surface has it, after any commands. -/
structure Headless (script : Script) extends App where
  reached : view.Reached script
  headless : view.screen.headless = true
  narrow : view.screen.width < 2 ^ 16
  low : view.screen.height < 2 ^ 16
  addressed : view.screen.text.len < 2 ^ 64

/-- What a press comes to. -/
inductive Act where
  | caret (offset : Nat)
  | span (start stop : Nat)
  | goto_ (line : Nat)
  | fold (row : Nat)
  | nothing
  deriving DecidableEq

namespace App

variable (script : Script) (app : App)

def screen : Viewport.Screen := app.view.screen

def anchor : Viewport.Anchor := app.view.anchor

def text : Text := app.screen.text

def isFoldColumn (col : Nat) : Bool := decide (col = app.screen.numberWidth + 1)

def rulerColumn : Nat := app.screen.width - 1

/-- The 1-based line a click on the ruler's row means. -/
def rulerLine (row : Nat) : Nat :=
  let total := max app.screen.lineCount 1
  min (row * total / max app.screen.contentHeight 1) (total - 1) + 1

/-- The lines and segments on the screen's rows. -/
def rows : List (Option (Nat × Nat)) :=
  app.screen.rowLines script app.anchor app.screen.contentHeight

def screenRow (line : Nat) : Option Nat :=
  ((app.rows script).findIdx? (·.any (·.1 == line))).filter (· < 2 ^ 16)

end App

/-- The loop of `display_column` of the pointer: from UTF-16 units to bytes. -/
def bytesFrom (line : Str) (utf16 : Nat) : Nat → Nat → List Char → Nat
  | _, _, [] => line.len
  | units, offset, ch :: rest =>
    if units ≥ utf16 then offset
    else bytesFrom line utf16 (units + if ch.toNat < 0x10000 then 1 else 2) (offset + ch.utf8Size)
      rest

def bytesAt (line : Str) (utf16 : Nat) : Nat := bytesFrom line utf16 0 0 (decode line.bytes)

/-- A UTF-16 column as the display cell it sits at. -/
def displayAt (script : Script) (line : Str) (utf16 : Nat) : Nat :=
  displayColumn script line (bytesAt line utf16)

section Press

variable (script : Script) (app : App)

/-- `u16::try_from(cell).unwrap_or(u16::MAX)`. -/
def cell16 (cell : Nat) : Nat := if cell < 2 ^ 16 then cell else 2 ^ 16 - 1

/-- The cell of a line and column, as `handle_mouse` expects it. -/
def mouseEvent (line column : Nat) : Option (Nat × Nat) :=
  (app.screenRow script line).map fun row =>
    (cell16 (app.screen.gutterWidth + (displayAt script (app.text.line line)
      column - app.view.left)), row)

def nextClickCount (previous : Option ClickRun) (column row now : Nat) : Nat :=
  match previous with
  | some prev =>
    if prev.column = column ∧ prev.row = row ∧ now - prev.at_ ≤ multiClick then
      if prev.count ≥ 3 then 1 else prev.count + 1
    else 1
  | none => 1

/-- The offset a screen cell names; a wrapped row names a segment of its line. -/
def offsetAt (col row : Nat) : Nat :=
  let (line, base) :=
    match app.screen.rowLineSub script app.anchor row with
    | some (line, sub) => (line, sub * max app.screen.contentWidth 1)
    | none => (app.text.lineCount - 1, 0)
  let display := col - app.screen.gutterWidth + base + app.view.left
  let lineText := app.text.line line
  let column := min display (displayColumn script lineText lineText.len)
  app.text.lineStart line + byteColumnForDisplay script lineText column

def click (col row : Nat) : Act :=
  if row ≥ app.screen.contentHeight then .nothing else .caret (offsetAt script app col row)

/-- A span, or a caret where it is empty. -/
def spanAct (offset : Nat) (span : Nat × Nat) : Act :=
  if span.1 = span.2 then .caret offset else .span span.1 span.2

def selectUnit (col row : Nat) (span : Nat → Nat × Nat) : Act :=
  if row ≥ app.screen.contentHeight then .nothing
  else spanAct (offsetAt script app col row) (span (offsetAt script app col row))

def wordAt (offset : Nat) : Nat × Nat := wordSpan script app.text offset

def lineAt (offset : Nat) : Nat × Nat := lineSpan app.text (.caret offset)

/-- A plain press in the text, by its count in the gesture. -/
def textClick (col row now : Nat) : Act :=
  match nextClickCount app.clickRun col row now with
  | 2 => selectUnit script app col row (wordAt script app)
  | 3 => selectUnit script app col row (lineAt app)
  | _ => click script app col row

/-- `handle_mouse` for a plain press of the left button. -/
def handleMouse (col row now : Nat) : Act :=
  if app.screen.rulerVisible ∧ col ≥ app.rulerColumn then .goto_ (app.rulerLine row)
  else if app.isFoldColumn col then .fold row
  else textClick script app col row now

/-- A press at a line and column. -/
def press (line column now : Nat) : Option Act :=
  (mouseEvent script app line column).map fun (col, row) => handleMouse script app col row now

end Press

section Meaning

variable (script : Script)

/-- The UTF-16 units of a text. -/
def units (text : Str) : Nat :=
  ((decode text.bytes).map fun ch => if ch.toNat < 0x10000 then 1 else 2).sum

/-- The start of the grapheme that a UTF-16 column is in, or the line's end. -/
def floorFrom (line : Str) (column : Nat) : Nat → List (Nat × Str) → Nat
  | _, [] => line.len
  | before, (offset, grapheme) :: rest =>
    if column < before + units grapheme then offset else floorFrom line column
      (before + units grapheme) rest

def floorColumn (line : Str) (column : Nat) : Nat :=
  floorFrom line column 0 (script.graphemeIndices line)

/-- The grapheme that has the cell so many behind the one of a UTF-16 column. -/
def landingFrom (line : Str) (column shift : Nat) : Nat → Nat → List (Nat × Str) → Nat
  | _, _, [] => line.len
  | before, cell, (offset, grapheme) :: rest =>
    if column ≤ before then columnFrom script line (cell + shift) cell ((offset, grapheme) :: rest)
    else landingFrom line column shift (before + units grapheme)
      (cell + graphemeWidth script grapheme cell) rest

def landing (line : Str) (column shift : Nat) : Nat :=
  landingFrom script line column shift 0 0 (script.graphemeIndices line)

/-- The column is behind the line, or at the start of a grapheme of more cells than that. -/
def PlainFrom (column shift : Nat) : Nat → Nat → List (Nat × Str) → Prop
  | _, _, [] => True
  | before, cell, (_, grapheme) :: rest =>
    if column < before + units grapheme then column = before ∧
      shift < graphemeWidth script grapheme cell
    else PlainFrom column shift (before + units grapheme)
      (cell + graphemeWidth script grapheme cell) rest

def Plain (line : Str) (column shift : Nat) : Prop :=
  PlainFrom script column shift 0 0 (script.graphemeIndices line)

/-- What a press is to do: the caret, the word or the line at the grapheme. -/
def meant (app : App) (line column count : Nat) : Act :=
  let offset := app.text.lineStart line + floorColumn script (app.text.line line) column
  match count with
  | 2 => spanAct offset (wordAt script app offset)
  | 3 => spanAct offset (lineAt app offset)
  | _ => .caret offset

/-- What is taken from the segmentation and the widths: also that no text has more than two cells
for a byte. -/
structure Pointing : Prop extends Segmenting script where
  narrow : ∀ text, script.width text ≤ 2 * text.len

end Meaning

section Rows

variable {script : Script} {line row : Nat}

/-- The cells of a line in front of the segment that its first row on the screen shows. -/
def hiddenCells (app : App) (line : Nat) : Nat :=
  skipAt app.anchor line * max app.screen.contentWidth 1

theorem rows_getElem? (app : Headless script) {row : Nat}
    (inside : row < app.screen.contentHeight) :
    (app.rows script)[row]? = some (app.screen.rowLineSub script app.anchor row) := by
  have sound := app.reached.sound
  exact rowLines_getElem? sound.flat sound.bare inside

theorem rows_length (app : App) : (app.rows script).length = app.screen.contentHeight := by
  have least : ∀ (lines : List Nat) (sub room : Nat),
      (app.screen.fillRows script lines sub room).length ≤ room := by
    intro lines
    induction lines with
    | nil => exact fun _ _ => Nat.zero_le _
    | cons line rest ih =>
      intro sub room
      unfold fillRows
      split
      · exact Nat.zero_le _
      · have := ih 0 (room - min (app.screen.lineRows script line - sub) room)
        simp only [length_append, length_map, length_range']
        omega
  have := least (app.screen.below app.anchor.top) app.anchor.topSub app.screen.contentHeight
  simp only [App.rows, rowLines, length_append, length_map, length_replicate]
  omega

/-- The row a line is found on is its first one, and names the segment that the anchor leaves of
it. -/
theorem rowLineSub_of_screenRow (app : Headless script)
    (shown : app.screenRow script line = some row) :
    row < app.screen.contentHeight ∧ line < app.text.lineCount ∧
      app.screen.rowLineSub script app.anchor row = some (line, skipAt app.anchor line) := by
  obtain ⟨found, _⟩ := Option.filter_eq_some_iff.mp shown
  obtain ⟨inside, same, first⟩ := findIdx?_eq_some_iff_getElem.mp found
  rw [rows_length] at inside
  have sound := app.reached.sound
  have listed {row : Nat} (inside : row < app.screen.contentHeight)
      (there : row < (app.rows script).length) : (app.rows script)[row] =
        app.screen.rowLineSub script app.anchor row :=
    Option.some.inj ((getElem?_eq_getElem there).symm.trans (rows_getElem? app inside))
  rw [listed inside] at same
  obtain ⟨⟨line', sub⟩, named, at_⟩ := (Option.any_eq_true _ _).mp same
  obtain rfl : line' = line := beq_iff_eq.mp at_
  have walk (row line sub : Nat) : app.screen.rowLineSub script app.anchor row = some (line, sub) ↔
      app.anchor.top ≤ line ∧ line < app.screen.lineCount ∧ skipAt app.anchor line ≤ sub ∧
        sub < app.screen.lineRows script line ∧
          row = rowsAbove script app.screen app.anchor line + (sub - skipAt app.anchor line) := by
    rw [App.screen, App.anchor, @rowLineSub_eq script app.view.screen app.view.anchor sound.flat
      sound.bare]
    exact walkRows_below
  obtain ⟨low, high, from_, within, place⟩ := (walk row line' sub).mp named
  refine ⟨inside, high, ?_⟩
  -- an earlier segment would be on an earlier row
  have least : sub = skipAt app.anchor line' := by
    by_contra later
    have before := (walk (rowsAbove script app.screen app.anchor line') line'
      (skipAt app.anchor line')).mpr ⟨low, high, Nat.le_refl _, Nat.lt_of_le_of_lt from_
      within, by omega⟩
    have above : rowsAbove script app.screen app.anchor line' < row := by omega
    have none_ := first _ above
    rw [listed (Nat.lt_trans above inside), before] at none_
    simp at none_
  rw [named, least]

end Rows

section Columns

variable {script : Script} {line : Str}

theorem columnFrom_min (target cell : Nat) (graphemes : List (Nat × Str)) :
    columnFrom script line (min target (cellsFrom script cell graphemes)) cell graphemes =
      columnFrom script line target cell graphemes := by
  induction graphemes generalizing cell with
  | nil => rfl
  | cons indexed rest ih =>
    obtain ⟨offset, grapheme⟩ := indexed
    have most := @le_cellsFrom script (cell + graphemeWidth script grapheme cell) rest
    have step : cellsFrom script cell ((offset, grapheme) :: rest) =
        cellsFrom script (cell + graphemeWidth script grapheme cell) rest := rfl
    rw [step, columnFrom, columnFrom, ih]
    congr 1
    exact propext (by omega)

/-- The graphemes in front of a column are passed on the way to a cell behind it. -/
theorem columnFrom_pass {shift cell byteColumn : Nat} (graphemes : List (Nat × Str)) :
    columnFrom script line (cellsFrom script cell (graphemes.takeWhile (·.1 < byteColumn)) + shift)
    cell graphemes =
      columnFrom script line (cellsFrom script cell (graphemes.takeWhile (·.1 < byteColumn)) +
      shift)
        (cellsFrom script cell (graphemes.takeWhile (·.1 < byteColumn)))
        (graphemes.dropWhile (·.1 < byteColumn)) := by
  induction graphemes generalizing cell with
  | nil => rfl
  | cons indexed rest ih =>
    obtain ⟨offset, grapheme⟩ := indexed
    by_cases before : offset < byteColumn
    case pos =>
      have most := @le_cellsFrom script (cell + graphemeWidth script grapheme cell)
        (rest.takeWhile (·.1 < byteColumn))
      rw [takeWhile_cons_of_pos (by simpa using before), dropWhile_cons_of_pos
        (by simpa using before)]
      have step : cellsFrom script cell ((offset, grapheme) :: rest.takeWhile (·.1 < byteColumn)) =
          cellsFrom script (cell + graphemeWidth script grapheme cell)
          (rest.takeWhile (·.1 < byteColumn)) := rfl
      rw [step, columnFrom, if_neg (by omega)]
      exact ih
    case neg =>
      rw [takeWhile_cons_of_neg (by simpa using before), dropWhile_cons_of_neg
        (by simpa using before)]
      rfl

theorem decode_append {front back : List UInt8} (valid : Valid front) (valid' : Valid back) :
    decode (front ++ back) = decode front ++ decode back := by
  rw [← encode_decode valid, ← encode_decode valid', ← encode_append, decode_encode, decode_encode,
    decode_encode]

/-- The units of a run of characters. -/
def unitsOf (chars : List Char) : Nat :=
  (chars.map fun ch => if ch.toNat < 0x10000 then 1 else 2).sum

theorem unitsOf_cons (ch : Char) (chars : List Char) :
    unitsOf (ch :: chars) = (if ch.toNat < 0x10000 then 1 else 2) + unitsOf chars := by
  rw [unitsOf, map_cons, sum_cons]
  rfl

theorem one_le_unit (ch : Char) : 1 ≤ if ch.toNat < 0x10000 then 1 else 2 := by
  split <;> omega

theorem bytesFrom_pass {column before offset : Nat} {chars rest : List Char}
    (upTo : before + unitsOf chars ≤ column) :
    bytesFrom line column before offset (chars ++ rest) =
      bytesFrom line column (before + unitsOf chars) (offset + (encode chars).length) rest := by
  induction chars generalizing before offset with
  | nil => rfl
  | cons ch chars ih =>
    have unit := one_le_unit ch
    rw [unitsOf_cons] at upTo ⊢
    rw [cons_append, bytesFrom, if_neg (by omega), ih (by omega), encode_cons, length_append,
      String.length_utf8EncodeChar, Nat.add_assoc, Nat.add_assoc]

theorem bytesFrom_reached {column before offset : Nat} {chars : List Char}
    (end_ : offset + (encode chars).length = line.len) (reached : column ≤ before) :
    bytesFrom line column before offset chars = offset := by
  cases chars with
  | nil => exact end_.symm
  | cons ch chars => exact if_pos reached

/-- A column inside some characters is moved up to the end of one of them. -/
theorem bytesFrom_inside {column before offset : Nat} {chars rest : List Char}
    (end_ : offset + (encode (chars ++ rest)).length = line.len) (above : before < column)
    (within : column < before + unitsOf chars) :
    offset < bytesFrom line column before offset (chars ++ rest) ∧
      bytesFrom line column before offset (chars ++ rest) ≤ offset + (encode chars).length := by
  induction chars generalizing before offset with
  | nil => exact absurd within (by rw [unitsOf, map_nil, sum_nil]; omega)
  | cons ch chars ih =>
    have unit := one_le_unit ch
    have size := Char.utf8Size_pos ch
    rw [unitsOf_cons] at within
    rw [cons_append, encode_cons, length_append, String.length_utf8EncodeChar] at end_
    rw [cons_append, bytesFrom, if_neg (by omega), encode_cons, length_append,
      String.length_utf8EncodeChar]
    rcases Nat.lt_or_ge (before + if ch.toNat < 0x10000 then 1 else 2) column with more | reached
    · have := @ih (before + if ch.toNat < 0x10000 then 1 else 2) (offset + ch.utf8Size) (by omega)
        more (by omega)
      omega
    · rw [@bytesFrom_reached line column _ (offset + ch.utf8Size) (chars ++ rest) (by omega) reached]
      omega

theorem le_bytesFrom {column before offset : Nat} {chars : List Char}
    (end_ : offset + (encode chars).length = line.len) :
    offset ≤ bytesFrom line column before offset chars := by
  induction chars generalizing before offset with
  | nil =>
    rw [bytesFrom, ← end_]
    exact Nat.le_add_right _ _
  | cons ch chars ih =>
    rw [encode_cons, length_append, String.length_utf8EncodeChar] at end_
    rw [bytesFrom]
    split
    · exact Nat.le_refl _
    · exact Nat.le_trans (Nat.le_add_right _ _) (ih (by omega))

theorem units_eq (grapheme : Str) : units grapheme = unitsOf (decode grapheme.bytes) := rfl

theorem units_pos {grapheme : Str} (some_ : grapheme.bytes ≠ []) : 0 < units grapheme := by
  rw [units_eq]
  cases chars : decode grapheme.bytes with
  | nil =>
    rw [← encode_decode grapheme.valid, chars] at some_
    exact absurd rfl some_
  | cons ch rest =>
    have := one_le_unit ch
    rw [unitsOf_cons]
    omega

theorem Tiled.columnFrom_ge {start target cell : Nat} {graphemes : List (Nat × Str)}
    {bytes : List UInt8} (tiled : Tiled start graphemes bytes)
    (end_ : start + bytes.length = line.len) :
    start ≤ columnFrom script line target cell graphemes ∧
    columnFrom script line target cell graphemes ≤ line.len := by
  induction graphemes generalizing start cell bytes with
  | nil =>
    rw [columnFrom]
    omega
  | cons indexed rest ih =>
    obtain ⟨offset, grapheme⟩ := indexed
    obtain ⟨rfl, _, more, _, rfl, behind⟩ := tiled
    rw [length_append, Str.length_bytes] at end_
    rw [columnFrom]
    split
    · omega
    · have := @ih (offset + grapheme.len) (cell + graphemeWidth script grapheme cell) more behind
        (by omega)
      omega

theorem Tiled.landingFrom_ge {start column shift before cell : Nat} {graphemes : List (Nat × Str)}
    {bytes : List UInt8} (tiled : Tiled start graphemes bytes)
    (end_ : start + bytes.length = line.len) :
    start ≤ landingFrom script line column shift before cell graphemes ∧
      landingFrom script line column shift before cell graphemes ≤ line.len := by
  induction graphemes generalizing start before cell bytes with
  | nil =>
    rw [landingFrom]
    omega
  | cons indexed rest ih =>
    have whole := tiled
    obtain ⟨offset, grapheme⟩ := indexed
    obtain ⟨rfl, _, more, _, rfl, behind⟩ := tiled
    rw [landingFrom]
    split
    · exact whole.columnFrom_ge end_
    · rw [length_append, Str.length_bytes] at end_
      have := @ih (offset + grapheme.len) (before + units grapheme)
        (cell + graphemeWidth script grapheme cell) more behind (by omega)
      omega

theorem Tiled.floorFrom_le {start column before : Nat}
    (tiled : Tiled start graphemes bytes) (end_ : start + bytes.length = line.len) :
    floorFrom line column before graphemes ≤ line.len := by
  induction graphemes generalizing start before bytes with
  | nil => exact Nat.le_refl _
  | cons indexed rest ih =>
    obtain ⟨offset, grapheme⟩ := indexed
    obtain ⟨rfl, _, more, _, rfl, behind⟩ := tiled
    rw [length_append, Str.length_bytes] at end_
    rw [floorFrom]
    split
    · omega
    · exact ih behind (by omega)

/-- The cell of a column, read back so many cells on, is the grapheme at which the column lands. -/
theorem Tiled.pointed {start column shift before cell : Nat}
    (tiled : Tiled start graphemes bytes) (valid : Valid bytes)
    (end_ : start + bytes.length = line.len) (upTo : before ≤ column) :
    columnFrom script line
        (cellsFrom script cell
          (graphemes.takeWhile (·.1 < bytesFrom line column before start (decode bytes))) + shift)
        (cellsFrom script cell (graphemes.takeWhile (·.1 < bytesFrom line column before start
        (decode bytes))))
        (graphemes.dropWhile (·.1 < bytesFrom line column before start (decode bytes))) =
      landingFrom script line column shift before cell graphemes := by
  induction graphemes generalizing start before cell bytes with
  | nil => rfl
  | cons indexed rest ih =>
    obtain ⟨offset, grapheme⟩ := indexed
    obtain ⟨rfl, some_, more, valid', rfl, behind⟩ := tiled
    have chars := decode_append grapheme.valid valid'
    have size : (encode (decode grapheme.bytes)).length = grapheme.len := by
      rw [encode_decode grapheme.valid]
      rfl
    rw [length_append, Str.length_bytes] at end_
    have whole : offset + (encode (decode grapheme.bytes ++ decode more)).length = line.len := by
      rw [encode_append, encode_decode grapheme.valid, encode_decode valid', length_append,
        Str.length_bytes]
      exact end_
    rw [landingFrom, chars]
    rcases Nat.lt_or_ge before column with below | reached
    case inr =>
      -- the grapheme starts at the column
      have here := @bytesFrom_reached line column before offset
        (decode grapheme.bytes ++ decode more) whole reached
      rw [here, takeWhile_cons_of_neg (by simp), dropWhile_cons_of_neg (by simp), if_pos reached]
      rfl
    case inl =>
      rw [if_neg (Nat.not_le.mpr below)]
      rcases Nat.lt_or_ge column (before + units grapheme) with within | passed
      case inl =>
        -- the column is inside the grapheme
        obtain ⟨above, most⟩ := @bytesFrom_inside line column before offset _ (decode more)
          whole below within
        rw [size] at most
        rw [takeWhile_cons_of_pos (by simpa using above), dropWhile_cons_of_pos
          (by simpa using above)]
        cases rest with
        | nil => rfl
        | cons next rest =>
          obtain ⟨offset', grapheme'⟩ := next
          obtain ⟨rfl, _⟩ := behind
          rw [takeWhile_cons_of_neg (by simpa using most), dropWhile_cons_of_neg
            (by simpa using most), landingFrom, if_pos (Nat.le_of_lt within)]
          rfl
      case inr =>
        have through := @bytesFrom_pass line column before offset (decode grapheme.bytes)
          (decode more) passed
        rw [size] at through
        have after : offset < bytesFrom line column before offset
            (decode grapheme.bytes ++ decode more) := by
          have length : (encode (decode more)).length = more.length := by rw [encode_decode valid']
          have least := @le_bytesFrom line column (before + units grapheme) (offset + grapheme.len)
            (decode more) (by rw [length]; omega)
          have some' := length_pos_iff.mpr some_
          rw [Str.length_bytes] at some'
          rw [through]
          exact Nat.lt_of_lt_of_le (by omega) least
        rw [takeWhile_cons_of_pos (by simpa using after), dropWhile_cons_of_pos
          (by simpa using after), through]
        exact ih behind valid' (by omega) passed

/-- A column lands on its own grapheme exactly if it is plain. -/
theorem Tiled.landing_iff {start column shift before cell : Nat}
    (tiled : Tiled start graphemes bytes) (end_ : start + bytes.length = line.len)
    (upTo : before ≤ column) : landingFrom script line column shift before cell graphemes =
      floorFrom line column before graphemes ↔
      PlainFrom script column shift before cell graphemes := by
  induction graphemes generalizing start before cell bytes with
  | nil => exact iff_of_true rfl trivial
  | cons indexed rest ih =>
    obtain ⟨offset, grapheme⟩ := indexed
    obtain ⟨rfl, some_, more, valid', rfl, behind⟩ := tiled
    have unit := units_pos some_
    have some' := length_pos_iff.mpr some_
    rw [Str.length_bytes] at some'
    rw [length_append, Str.length_bytes] at end_
    rw [landingFrom, floorFrom, PlainFrom]
    rcases Nat.lt_or_ge column (before + units grapheme) with within | passed
    case inr =>
      rw [if_neg (by omega), if_neg (by omega), if_neg (by omega)]
      exact ih behind (by omega) passed
    case inl =>
      rw [if_pos within, if_pos within]
      by_cases at_ : column ≤ before
      case pos =>
        have least := @Tiled.columnFrom_ge script line (offset + grapheme.len) (cell + shift)
          (cell + graphemeWidth script grapheme cell) rest more behind (by omega)
        rw [if_pos at_, columnFrom]
        split
        case isTrue wide => exact iff_of_true rfl ⟨by omega, by omega⟩
        case isFalse none_ => exact iff_of_false (by omega) fun both => none_ (by omega)
      case neg =>
        have least := @Tiled.landingFrom_ge script line (offset + grapheme.len) column shift
          (before + units grapheme) (cell + graphemeWidth script grapheme cell) rest more behind
          (by omega)
        rw [if_neg at_]
        exact iff_of_false (by omega) fun both => at_ (by omega)

theorem graphemeWidth_le (laws : Pointing script) {grapheme : Str} (some_ : 0 < grapheme.len)
    (cell : Nat) : graphemeWidth script grapheme cell ≤ 4 * grapheme.len := by
  have narrow := laws.narrow grapheme
  rw [graphemeWidth]
  split
  · have : tabWidth = 4 := rfl
    omega
  · split <;> omega

theorem cellsFrom_le (laws : Pointing script) {start cell : Nat} {graphemes : List (Nat × Str)}
    {bytes : List UInt8} (tiled : Tiled start graphemes bytes) :
    cellsFrom script cell graphemes ≤ cell + 4 * bytes.length := by
  induction graphemes generalizing start cell bytes with
  | nil => exact Nat.le_add_right _ _
  | cons indexed rest ih =>
    obtain ⟨offset, grapheme⟩ := indexed
    obtain ⟨rfl, some_, more, _, rfl, behind⟩ := tiled
    have width := graphemeWidth_le laws (length_pos_iff.mpr some_) cell
    have := @ih (offset + grapheme.len) (cell + graphemeWidth script grapheme cell) more behind
    rw [length_append, Str.length_bytes]
    exact Nat.le_trans this (by omega)

/-- Every grapheme starts in front of the line's end. -/
theorem takeWhile_len (laws : Pointing script) (line : Str) :
    (script.graphemeIndices line).takeWhile (·.1 < line.len) = script.graphemeIndices line := by
  have tiled := laws.tiled line
  have offsets : ∀ (start : Nat) (graphemes : List (Nat × Str)) (bytes : List UInt8),
      Tiled start graphemes bytes → ∀ indexed ∈ graphemes, indexed.1 < start + bytes.length := by
    intro start graphemes
    induction graphemes generalizing start with
    | nil => exact fun bytes _ indexed member => absurd member not_mem_nil
    | cons indexed rest ih =>
      obtain ⟨offset, grapheme⟩ := indexed
      rintro bytes ⟨rfl, some_, more, _, rfl, behind⟩ other member
      have some' := length_pos_iff.mpr some_
      rw [Str.length_bytes] at some'
      rw [length_append, Str.length_bytes]
      rcases mem_cons.mp member with rfl | later
      · simp only
        omega
      · have := ih _ _ behind other later
        omega
  apply takeWhile_eq_self_iff.mpr
  intro indexed member
  have before := offsets 0 _ _ tiled indexed member
  rw [Nat.zero_add, Str.length_bytes] at before
  exact decide_eq_true before

theorem displayAt_le (laws : Pointing script) (line : Str) (column : Nat) :
    displayAt script line column ≤ 4 * line.len := by
  have tiled := laws.tiled line
  have whole := @cellsFrom_le script laws 0 0 _ _ tiled
  have part := @cellsFrom_takeWhile_le script (fun indexed =>
    decide (indexed.1 < bytesAt line column)) 0 (script.graphemeIndices line)
  rw [Nat.zero_add, Str.length_bytes] at whole
  rw [displayAt, displayColumn_eq laws.toSegmenting]
  exact Nat.le_trans part whole

theorem byteColumnForDisplay_displayAt (laws : Pointing script) (line : Str) (column shift : Nat) :
    byteColumnForDisplay script line
        (min (displayAt script line column + shift) (displayColumn script line line.len)) =
      landing script line column shift := by
  have whole : displayColumn script line line.len = cellsFrom script 0
      (script.graphemeIndices line) := by
    rw [displayColumn_eq laws.toSegmenting, takeWhile_len laws]
  rw [whole, byteColumnForDisplay, columnFrom_min, displayAt, displayColumn_eq laws.toSegmenting,
    columnFrom_pass, landing]
  exact (laws.tiled line).pointed line.valid (by rw [Nat.zero_add]; rfl) (Nat.zero_le _)

end Columns

section Claim

variable {script : Script} {app : Headless script} {line column now : Nat}

variable (app line column now) in
/-- The count of the gesture that a press belongs to. -/
def gesture : Nat :=
  match mouseEvent script app.toApp line column with
  | some (col, row) => nextClickCount app.clickRun col row now
  | none => 1

variable (app line column) in
/-- The press is on the overview ruler, which the DOM surface does not paint. -/
def OnRuler : Prop :=
  Viewport.minRulerWidth ≤ app.screen.width ∧ 1 < app.text.lineCount ∧
    app.screen.width - 1 ≤ app.screen.gutterWidth + displayAt script (app.text.line line) column

variable (app line column) in
/-- The word where the press lands is the word that is meant. -/
def SameWord : Prop :=
  let body := app.text.line line
  let landed := wordAt script app.toApp
    (app.text.lineStart line + landing script body column (hiddenCells app.toApp line))
  landed.1 ≠ landed.2 ∧ landed =
    wordAt script app.toApp (app.text.lineStart line + floorColumn script body column)

theorem Headless.indexed (app : Headless script) :
    app.text.Indexed := app.reached.sound.reached.indexed

theorem screenRow_of_shown {sub : Nat} (shown : some (line, sub) ∈ app.rows script) :
    ∃ row, app.screenRow script line = some row := by
  have some_ : ((app.rows script).findIdx? (·.any (·.1 == line))).isSome = true := by
    rw [findIdx?_isSome, any_eq_true]
    exact ⟨_, shown, by simp⟩
  obtain ⟨row, found⟩ := Option.isSome_iff_exists.mp some_
  have inside := (findIdx?_eq_some_iff_getElem.mp found).1
  rw [rows_length] at inside
  have most : app.screen.contentHeight ≤ app.view.screen.height := by
    unfold contentHeight
    split
    · exact Nat.le_refl _
    · exact Nat.sub_le _ _
  have low := app.low
  exact ⟨row, Option.filter_eq_some_iff.mpr ⟨found, decide_eq_true (by omega)⟩⟩

theorem gutterWidth_le (app : Headless script) : app.screen.gutterWidth ≤ 23 := by
  have count := app.indexed.lineCount
  have most := countP_le_length (p := (· == newlineByte)) (l := app.text.bytes.bytes)
  have addressed := app.addressed
  have len : app.view.screen.text.len = app.text.bytes.bytes.length := rfl
  have small : max app.text.lineCount 1 < 10 ^ 20 := by
    change app.text.lineCount = _ at count
    rw [newlines] at count
    change app.text.lineCount = app.text.bytes.bytes.countP (· == newlineByte) + 1 at count
    omega
  have digits := (Nat.length_toDigits_le_iff (b := 10) (k := 20) (by decide) (by decide)).mpr small
  change (Nat.toDigits 10 (max app.text.lineCount 1)).length + 3 ≤ 23
  omega

theorem offsetAt_eq (laws : Pointing script) {row : Nat}
    (found : app.screen.rowLineSub script app.anchor row = some (line, skipAt app.anchor line))
    (fits : app.screen.gutterWidth + displayAt script (app.text.line line) column < 2 ^ 16) :
    offsetAt script app.toApp
        (cell16 (app.screen.gutterWidth + (displayAt script (app.text.line line)
        column - app.view.left))) row =
      app.text.lineStart line + landing script (app.text.line line)
      column (hiddenCells app.toApp line) := by
  have left : app.view.left = 0 := app.reached.unscrolled app.headless
  rw [left, Nat.sub_zero, cell16, if_pos fits, offsetAt, found, left]
  simp only [Nat.add_sub_cancel_left, Nat.add_zero]
  rw [← hiddenCells, byteColumnForDisplay_displayAt laws]

theorem landing_eq_iff (laws : Pointing script) (text : Str) (column shift : Nat) :
    landing script text column shift = floorColumn script text column ↔
    Plain script text column shift :=
  (laws.tiled text).landing_iff (by rw [Nat.zero_add]; rfl) (Nat.zero_le _)

/-- Two columns of one line have the line around them. -/
theorem lineAct_eq (there : line < app.text.lineCount) {first second : Nat}
    (first_ : first ≤ (app.text.line line).len) (second_ : second ≤ (app.text.line line).len) :
    spanAct (app.text.lineStart line + first) (lineAt app.toApp (app.text.lineStart line + first)) =
      spanAct (app.text.lineStart line + second)
      (lineAt app.toApp (app.text.lineStart line + second)) := by
  have around : ∀ column, column ≤ (app.text.line line).len →
      lineAt app.toApp (app.text.lineStart line + column) = (app.text.lineStart line,
        if line + 1 < app.text.lineCount then app.text.lineStart (line + 1) else app.text.len) := by
    intro column inside
    have here := lineOfOffset_column app.indexed there inside
    have range : (Selection.caret (app.text.lineStart line + column)).range =
        .emptyAt (app.text.lineStart line + column) := Cursor.caret_range _
    have start : (Selection.caret (app.text.lineStart line + column)).range.start =
        app.text.lineStart line + column :=
      congrArg Range.start range
    have stop : (Selection.caret (app.text.lineStart line + column)).range.stop =
        app.text.lineStart line + column :=
      congrArg Range.stop range
    rw [lineAt, lineSpan, start, stop, here]
  rw [around _ first_, around _ second_]
  by_cases equal : first = second
  case pos => rw [equal]
  case neg =>
    -- a line with two columns is not empty
    have long : app.text.lineStart line <
        if line + 1 < app.text.lineCount then app.text.lineStart (line + 1) else app.text.len := by
      have size := line_len app.indexed there
      obtain ⟨most, before⟩ := lineEnd_lt_next app.indexed there
      split
      case isTrue more =>
        have := before _ (lineStart_getElem? more)
        omega
      case isFalse => omega
    rw [spanAct, spanAct, if_neg (Nat.ne_of_lt long), if_neg (Nat.ne_of_lt long)]

theorem wordAct_iff
    (plain : landing script (app.text.line line) column (hiddenCells app.toApp line) =
      floorColumn script (app.text.line line) column ↔
      Plain script (app.text.line line) column (hiddenCells app.toApp line)) :
    spanAct (app.text.lineStart line + landing script (app.text.line line)
      column (hiddenCells app.toApp line))
        (wordAt script app.toApp (app.text.lineStart line + landing script (app.text.line line)
        column (hiddenCells app.toApp line))) =
      spanAct (app.text.lineStart line + floorColumn script (app.text.line line) column)
        (wordAt script app.toApp (app.text.lineStart line + floorColumn script (app.text.line line)
        column)) ↔
      Plain script (app.text.line line) column (hiddenCells app.toApp line) ∨
      SameWord app line column := by
  constructor
  · intro same
    by_cases equal : landing script (app.text.line line) column (hiddenCells app.toApp line) =
      floorColumn script (app.text.line line) column
    case pos => exact .inl (plain.mp equal)
    case neg =>
      rw [spanAct, spanAct] at same
      split at same
      case isTrue =>
        split at same
        case isTrue =>
          have offsets := Act.caret.inj same
          exact absurd (Nat.add_left_cancel offsets) equal
        case isFalse => cases same
      case isFalse some_ =>
        split at same
        case isTrue => cases same
        case isFalse =>
          obtain ⟨start, stop⟩ := Act.span.inj same
          exact .inr ⟨some_, Prod.ext start stop⟩
  · rintro (equal | ⟨some_, same⟩)
    · rw [plain.mpr equal]
    · rw [spanAct, spanAct, if_neg some_, if_neg (same ▸ some_), same]

/-- A press does what is meant exactly where it is off the ruler, and the column is behind the line
or at a grapheme with a cell, or the gesture asks for the line, or for a word that is the same. -/
theorem press_iff (laws : Pointing script) {sub : Nat} (shown : some (line, sub) ∈ app.rows script)
    (row_ : (app.text.line line).len ≤ maxRowBytes) :
    press script app.toApp line column now =
        some (meant script app.toApp line column (gesture app line column now)) ↔
      ¬ OnRuler app line column ∧
        (Plain script (app.text.line line) column (hiddenCells app.toApp line) ∨
        gesture app line column now = 3 ∨
          gesture app line column now = 2 ∧ SameWord app line column) := by
  obtain ⟨row, at_⟩ := screenRow_of_shown shown
  obtain ⟨low, there, found⟩ := rowLineSub_of_screenRow app at_
  have fits : app.screen.gutterWidth + displayAt script (app.text.line line) column < 2 ^ 16 := by
    have gutter := gutterWidth_le app
    have display := displayAt_le laws (app.text.line line) column
    rw [maxRowBytes] at row_
    omega
  have offset := offsetAt_eq laws found fits
  have event : mouseEvent script app.toApp line column = some (cell16 (app.screen.gutterWidth +
      (displayAt script (app.text.line line) column - app.view.left)), row) := by
    rw [mouseEvent, at_]
    rfl
  have cell : cell16 (app.screen.gutterWidth + (displayAt script (app.text.line line)
      column - app.view.left)) = app.screen.gutterWidth + displayAt script (app.text.line line)
      column := by
    rw [app.reached.unscrolled app.headless, Nat.sub_zero, cell16, if_pos fits]
  rw [cell] at event offset
  have count : gesture app line column now = nextClickCount app.clickRun
      (app.screen.gutterWidth + displayAt script (app.text.line line) column) row now := by
    rw [gesture, event]
  have pressed : press script app.toApp line column now = some (handleMouse script app.toApp
      (app.screen.gutterWidth + displayAt script (app.text.line line) column) row now) := by
    rw [press, event]
    rfl
  have plain := landing_eq_iff laws (app.text.line line) column (hiddenCells app.toApp line)
  have tiled := laws.tiled (app.text.line line)
  have end_ : 0 + (app.text.line line).bytes.length = (app.text.line line).len := Nat.zero_add _
  have landed : landing script (app.text.line line) column (hiddenCells app.toApp line) ≤
      (app.text.line line).len :=
    (tiled.landingFrom_ge end_).2
  have floored : floorColumn script (app.text.line line) column ≤ (app.text.line line).len :=
    tiled.floorFrom_le end_
  rw [pressed, Option.some.injEq, handleMouse]
  by_cases ruler : OnRuler app line column
  case pos =>
    have onRuler : app.screen.rulerVisible = true ∧
        app.screen.gutterWidth + displayAt script (app.text.line line) column ≥ app.rulerColumn :=
      ⟨decide_eq_true ⟨ruler.1, ruler.2.1⟩, ruler.2.2⟩
    rw [if_pos onRuler]
    refine iff_of_false ?_ fun both => both.1 ruler
    unfold meant
    split
    · rw [spanAct]
      split <;> exact Act.noConfusion
    · rw [spanAct]
      split <;> exact Act.noConfusion
    · exact Act.noConfusion
  case neg =>
    have offRuler : ¬ (app.screen.rulerVisible = true ∧
        app.screen.gutterWidth + displayAt script (app.text.line line) column ≥ app.rulerColumn) := by
      rintro ⟨visible, past⟩
      obtain ⟨wide, many⟩ := of_decide_eq_true visible
      exact ruler ⟨wide, many, past⟩
    have offFold : ¬ app.isFoldColumn (app.screen.gutterWidth + displayAt script
        (app.text.line line) column) = true := by
      rw [App.isFoldColumn, decide_eq_true_eq, Viewport.Screen.gutterWidth]
      omega
    have room : ¬ row ≥ app.screen.contentHeight := Nat.not_le.mpr low
    rw [if_neg offRuler, if_neg offFold]
    unfold textClick meant
    rw [← count]
    refine Iff.trans ?_ (and_iff_right ruler).symm
    by_cases second : gesture app line column now = 2
    case pos =>
      rw [second]
      simp only [selectUnit, if_neg room, offset]
      refine (wordAct_iff plain).trans
        ⟨Or.imp_right fun same => .inr ⟨trivial, same⟩, Or.imp_right fun either => ?_⟩
      exact either.elim (fun wrong => absurd wrong (by decide)) And.right
    case neg =>
      by_cases third : gesture app line column now = 3
      case pos =>
        rw [third]
        simp only [selectUnit, if_neg room, offset]
        exact iff_of_true (lineAct_eq there landed floored) (.inr (.inl trivial))
      case neg =>
        split
        · exact absurd (by assumption) second
        · exact absurd (by assumption) third
        · rw [click, if_neg room, offset, Act.caret.injEq, Nat.add_left_cancel_iff, plain]
          exact ⟨.inl, fun either => either.elim id fun others =>
            others.elim (fun same => absurd same third) fun both => absurd both.1 second⟩

theorem charScript_pointing : Pointing charScript where
  toSegmenting := charScript_segmenting
  narrow text := by
    have : charScript.width text = min text.len 1 := rfl
    omega

/-- A headless App that opened a text without blocks. -/
def opened (body : Str) : Viewport.App where
  screen := ⟨.fromString body false, ⟨[], .empty, []⟩, false, 80, 24, true, true, false⟩
  anchor := ⟨0, 0⟩
  left := 0

theorem opened_reached {body : Str}
    (plain : Fold.regions charScript (Document.fromString body false).text = []) :
    (opened body).Reached charScript := by
  have new_ : Viewport.App.new charScript (.fromString body false) .headless = opened body := by
    unfold Viewport.App.new Fold.Folds.refold
    rw [plain]
    rfl
  exact new_ ▸ .start body false .headless

/-- Two lines, the first of thirty-two letters. -/
def longAndShort : Str := .ofChars (List.replicate 32 'a' ++ ['\n', 'b'])

/-- The caret on the second line, three rows of six cells, and wrapped: the first row shows the
fifth segment. -/
def wrapped : Viewport.App :=
  (((opened longAndShort).perform charScript (.resize 10 3)).perform charScript
    (.call (.setSelection (.caret 33)))).perform charScript .toggleWrap

theorem wrapped_anchor : wrapped.anchor = ⟨0, 4⟩ := by
  change Viewport.Screen.ensureWrapped charScript _ _ = _
  unfold ensureWrapped
  rw [settle, if_pos (by decide +kernel)]
  decide +kernel

def wrappedHeadless : Headless charScript where
  view := wrapped
  clickRun := none
  reached := by
    have plain : Fold.regions charScript (Document.fromString longAndShort false).text = [] := by
      rw [Fold.regions_eq]
      decide +kernel
    exact .step _ (.step _ (.step _ (opened_reached plain)))
  headless := rfl
  narrow := by decide
  low := by decide
  addressed := by decide +kernel

theorem wrappedHeadless_rows :
    wrappedHeadless.rows charScript = [some (0, 4), some (0, 5), some (1, 0)] := by
  change Viewport.Screen.rowLines charScript wrapped.screen wrapped.anchor _ = _
  rw [wrapped_anchor]
  decide +kernel

/-- A press on the second line, which is shown from its first segment on. -/
theorem press_iff_wrapped :
    wrappedHeadless.rows charScript = [some (0, 4), some (0, 5), some (1, 0)] ∧
    press charScript wrappedHeadless.toApp 1 0 0 =
      some (meant charScript wrappedHeadless.toApp 1 0 (gesture wrappedHeadless 1 0 0)) := by
  have shown : some (1, 0) ∈ wrappedHeadless.rows charScript := by
    rw [wrappedHeadless_rows]
    decide
  refine ⟨wrappedHeadless_rows, (press_iff charScript_pointing shown (by decide +kernel)).mpr
    ⟨?_, .inl ?_⟩⟩
  · exact fun ruler => absurd ruler.1 (by decide)
  · have line : charScript.graphemeIndices (wrappedHeadless.text.line 1) =
        [(0, .ofChars ['b'])] := by decide +kernel
    have cells : hiddenCells wrappedHeadless.toApp 1 = 0 := by
      change skipAt wrapped.anchor 1 * _ = 0
      rw [wrapped_anchor]
      decide +kernel
    rw [Plain, line, cells, PlainFrom, if_pos (by decide)]
    exact ⟨rfl, by decide⟩

/-- On the first line the caret goes to the segment shown, and not to the column. -/
example : offsetAt charScript wrappedHeadless.toApp (wrappedHeadless.screen.gutterWidth + 2) 0 =
    26 := by
  unfold offsetAt
  rw [show wrappedHeadless.anchor = ⟨0, 4⟩ from wrapped_anchor]
  decide +kernel

/-- Two lines, the first of eighty letters. -/
def twoLines : Str := .ofChars (List.replicate 80 'a' ++ ['\n', 'b'])

def twoLinesHeadless : Headless charScript where
  view := opened twoLines
  clickRun := none
  reached := opened_reached (by rw [Fold.regions_eq]; decide +kernel)
  headless := rfl
  narrow := by decide
  low := by decide
  addressed := by decide +kernel

/-- A press at column 78 of the first line moves the caret to another line. -/
theorem not_press_ruler :
    ¬ ∀ (script : Script) (app : Headless script) (line sub column now : Nat), Pointing script →
      some (line, sub) ∈ app.rows script → (app.text.line line).len ≤ maxRowBytes →
        press script app.toApp line column now =
          some (meant script app.toApp line column (gesture app line column now)) := by
  intro all
  have meant_ := all charScript twoLinesHeadless 0 0 78 0 charScript_pointing (by decide +kernel)
    (by decide +kernel)
  exact absurd meant_ (by decide +kernel)

end Claim

end ForgeNode.Pointer
