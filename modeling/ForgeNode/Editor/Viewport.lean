import ForgeNode.Editor.Folding
import ForgeNode.Editor.Damage
import ForgeNode.Editor.Execute

/-! Which line and wrapped segment each row of the screen shows, and how the commands move the
viewport. -/

namespace ForgeNode.Viewport

open Utf8 Editor Fold Outline

def minRulerWidth : Nat := 40

/-- The first line on the screen, and the segment of it that the first row shows. -/
structure Anchor where
  top : Nat
  topSub : Nat
  deriving DecidableEq

/-- What is on the screen, but for where it is scrolled to. -/
structure Screen where
  document : Document
  folds : Folds
  wrap : Bool
  width : Nat
  height : Nat
  integrated : Bool
  headless : Bool
  /-- A prompt is open, or a message. -/
  message : Bool

structure App where
  screen : Screen
  anchor : Anchor
  left : Nat

namespace Screen

variable (script : Script) (screen : Screen) (anchor : Anchor)

def text : Text := screen.document.text

def lineCount : Nat := screen.text.lineCount

def needsStatusRow : Bool := !screen.headless && (!screen.integrated || screen.message)

def contentHeight : Nat :=
  if screen.headless || (screen.integrated && !screen.needsStatusRow) then screen.height
    else screen.height - 1

def numberWidth : Nat := (Nat.toDigits 10 (max screen.lineCount 1)).length

def gutterWidth : Nat := screen.numberWidth + 3

def rulerVisible : Bool := decide (screen.width ≥ minRulerWidth ∧ screen.lineCount > 1)

def contentWidth : Nat := screen.width - screen.gutterWidth - screen.rulerVisible.toNat

def isHidden (line : Nat) : Bool := Fold.isHidden screen.folds.hidden line

/-- `usize::div_ceil`. -/
def divCeil (cells width : Nat) : Nat :=
  if cells % width > 0 then cells / width + 1 else cells / width

/-- How many screen rows a line occupies. -/
def lineRows (line : Nat) : Nat :=
  if screen.isHidden line then 0
  else if !screen.wrap then 1
  else if line ≥ screen.lineCount then 1
  else
    let width := max screen.contentWidth 1
    let body := screen.text.line line
    max (divCeil (displayColumn script body body.len) width) 1

/-- The lines from `top` on. -/
def below (top : Nat) : List Nat := List.range' top (screen.lineCount - top)

/-- The walk of `row_line_sub` over the lines that are not hidden. -/
def walkVisible : List Nat → Nat → Option (Nat × Nat)
  | [], _ => none
  | line :: rest, remaining =>
    if screen.isHidden line then walkVisible rest remaining
    else
      match remaining with
      | 0 => some (line, 0)
      | remaining + 1 => walkVisible rest remaining

/-- The walk of `row_line_sub` over wrapped lines. -/
def walkRows : List Nat → Nat → Nat → Option (Nat × Nat)
  | [], _, _ => none
  | line :: rest, skip, remaining =>
    let rows := screen.lineRows script line - skip
    if rows > 0 ∧ remaining < rows then some (line, skip + remaining)
    else walkRows rest 0 (remaining - rows)

/-- The line and segment shown at a screen row. -/
def rowLineSub (row : Nat) : Option (Nat × Nat) :=
  if !screen.wrap then
    if screen.folds.folded.lines.isEmpty then
      if anchor.top + row < screen.lineCount then some (anchor.top + row, 0) else none
    else screen.walkVisible (screen.below anchor.top) row
  else screen.walkRows script (screen.below anchor.top) anchor.topSub row

/-- The walk of `row_lines`: the segments of each line, as long as there is room. -/
def fillRows : List Nat → Nat → Nat → List (Nat × Nat)
  | [], _, _ => []
  | line :: rest, sub, room =>
    if room = 0 then []
    else
      let taken := min (screen.lineRows script line - sub) room
      (List.range' sub taken).map (line, ·) ++ fillRows rest 0 (room - taken)

/-- `row_line_sub` for each of `height` rows, in one walk. -/
def rowLines (height : Nat) : List (Option (Nat × Nat)) :=
  let shown := screen.fillRows script (screen.below anchor.top) anchor.topSub height
  shown.map some ++ List.replicate (height - shown.length) none

/-- The loop of `line_sub_to_row` over the lines in front of the target. -/
def rowBefore (height : Nat) : List Nat → Nat → Nat → Option (Nat × Nat)
  | [], skip, row => some (row, skip)
  | line :: rest, skip, row =>
    let row := row + (screen.lineRows script line - skip)
    if row ≥ height then none else rowBefore height rest 0 row

/-- The screen row a line's segment lands on. -/
def lineSubToRow (target sub : Nat) : Option Nat :=
  let height := screen.contentHeight
  let onScreen := fun row => if row < height then some row else none
  if target < anchor.top then none
  else if !screen.wrap then
    if screen.isHidden target then none
    else if screen.folds.folded.lines.isEmpty then onScreen (target - anchor.top)
    else onScreen ((List.range' anchor.top (target - anchor.top)).countP (!screen.isHidden ·))
  else if target = anchor.top ∧ sub < anchor.topSub then none
  else (screen.rowBefore script height (List.range' anchor.top (target - anchor.top)) anchor.topSub
    0).bind fun (row, skip) => onScreen (row + sub - skip)

/-- The caret's line and byte column. -/
def caretLineCol : LineCol := screen.text.lineCol screen.document.selection.head

/-- The caret's display column. -/
def caretColumn : Nat :=
  displayColumn script (screen.text.line screen.caretLineCol.line) screen.caretLineCol.column

/-- The caret's cell on screen, with the gutter. -/
def caretScreen (left : Nat) : Option (Nat × Nat) :=
  let line := screen.caretLineCol.line
  let column := screen.caretColumn script
  if screen.wrap then
    let width := max screen.contentWidth 1
    (screen.lineSubToRow script anchor line (column / width)).map fun row =>
      (row, screen.gutterWidth + column % width)
  else if anchor.top ≤ line ∧ line - anchor.top < screen.contentHeight then
    some (line - anchor.top, screen.gutterWidth + (column - left))
  else none

/-- The loop of `last_visible_line` over the lines in front of the last one. -/
def lastFrom (last height : Nat) : List Nat → Nat → Nat → Nat
  | [], _, _ => last
  | line :: rest, skip, rows =>
    let rows := rows + (screen.lineRows script line - skip)
    if rows ≥ height then line else lastFrom last height rest 0 rows

/-- The last line with any row on screen. -/
def lastVisibleLine : Nat :=
  let last := screen.lineCount - 1
  if !screen.wrap then min (anchor.top + (screen.contentHeight - 1)) last
  else min (screen.lastFrom script last (max screen.contentHeight 1)
    (List.range' anchor.top (last - anchor.top)) anchor.topSub 0) last

/-- The loops of `clamp_anchor`; the first one stops at the end of the text, the second at its
start. -/
def clampDown : Nat → Anchor → Anchor
  | 0, anchor => anchor
  | fuel + 1, anchor =>
    if anchor.top < screen.lineCount ∧ screen.isHidden anchor.top then clampDown fuel ⟨anchor.top +
      1, 0⟩ else anchor

def clampUp : Nat → Anchor → Anchor
  | 0, anchor => anchor
  | fuel + 1, anchor =>
    if screen.isHidden anchor.top then clampUp fuel ⟨anchor.top - 1, 0⟩ else anchor

/-- Pull the anchor onto a visible line. -/
def clampAnchor : Anchor :=
  let down := screen.clampDown (screen.lineCount - anchor.top) anchor
  screen.clampUp down.top down

/-- The loop of `advance_anchor` over the lines below. -/
def descend : List Nat → Anchor → Anchor
  | [], anchor => anchor
  | line :: rest, _ => if screen.isHidden line then descend rest ⟨line, 0⟩ else ⟨line, 0⟩

/-- Move the anchor down one screen row. -/
def advanceAnchor : Anchor :=
  if screen.wrap ∧ anchor.topSub + 1 < screen.lineRows script anchor.top then ⟨anchor.top,
    anchor.topSub + 1⟩
  else screen.descend (List.range' (anchor.top + 1) (screen.lineCount - 1 - anchor.top)) anchor

/-- The loop of `retreat_anchor` over the lines above. -/
def ascend : List Nat → Nat → Nat
  | [], top => top
  | line :: rest, _ => if screen.isHidden line then ascend rest line else line

/-- Move the anchor up one screen row. -/
def retreatAnchor : Anchor :=
  if anchor.topSub > 0 then ⟨anchor.top, anchor.topSub - 1⟩
  else
    let top := screen.ascend (List.range anchor.top).reverse anchor.top
    ⟨top, if screen.wrap then screen.lineRows script top - 1 else 0⟩

/-- The loop of `anchor_above` over the lines above. -/
def anchorFrom : Nat → Nat → Anchor
  | 0, _ => ⟨0, 0⟩
  | at_ + 1, needed =>
    let rows := screen.lineRows script at_
    if rows = 0 then anchorFrom at_ needed
    else if rows ≥ needed then ⟨at_, rows - needed⟩
    else anchorFrom at_ (needed - rows)

/-- The anchor that puts a segment on the last of `height` rows. -/
def anchorAbove (line sub height : Nat) : Anchor :=
  let needed := height - 1
  if sub ≥ needed then ⟨line, min (sub - needed) (screen.lineRows script line - 1)⟩
  else screen.anchorFrom script line (needed - sub)

/-- `(top, top_sub) < (top', top_sub')`. -/
def Anchor.before (first second : Anchor) : Bool :=
  decide (first.top < second.top ∨ first.top = second.top ∧ first.topSub < second.topSub)

theorem descend_eq (lines : List Nat) (anchor : Anchor) :
    screen.descend lines anchor = anchor ∧ lines = [] ∨ ∃ line ∈ lines,
    screen.descend lines anchor = ⟨line, 0⟩ := by
  induction lines generalizing anchor with
  | nil => exact .inl ⟨rfl, rfl⟩
  | cons line rest ih =>
    right
    unfold descend
    split
    · rcases ih ⟨line, 0⟩ with ⟨same, _⟩ | ⟨other, member, is_⟩
      · exact ⟨line, List.mem_cons_self, same⟩
      · exact ⟨other, List.mem_cons_of_mem _ member, is_⟩
    · exact ⟨line, List.mem_cons_self, rfl⟩

/-- The anchor goes down within its line or to a later line of the text, where it moves at all. -/
theorem advanceAnchor_eq : screen.advanceAnchor script anchor = anchor ∨
    (screen.wrap = true ∧ anchor.topSub + 1 < screen.lineRows script anchor.top ∧
      screen.advanceAnchor script anchor = ⟨anchor.top, anchor.topSub + 1⟩) ∨
    ∃ line, anchor.top < line ∧ line < screen.lineCount ∧ screen.advanceAnchor script anchor =
      ⟨line, 0⟩ := by
  unfold advanceAnchor
  split
  · rename_i inside
    exact .inr (.inl ⟨inside.1, inside.2, rfl⟩)
  · rcases screen.descend_eq (List.range' (anchor.top + 1) (screen.lineCount - 1 - anchor.top))
      anchor with
      ⟨same, _⟩ | ⟨line, member, is_⟩
    · exact .inl same
    · have bounds := List.mem_range'_1.mp member
      exact .inr (.inr ⟨line, by omega, by omega, is_⟩)

/-- The last loop of `ensure_visible`: down one row at a time, until the caret has a row or the
anchor stays. -/
def settle (line sub : Nat) (anchor : Anchor) : Anchor :=
  if (screen.lineSubToRow script anchor line sub).isSome then anchor
  else if _stays : screen.advanceAnchor script anchor = anchor then anchor
  else settle line sub (screen.advanceAnchor script anchor)
termination_by (screen.lineCount - anchor.top, screen.lineRows script anchor.top - anchor.topSub)
decreasing_by
  rcases screen.advanceAnchor_eq script anchor with same | ⟨_, inside, is_⟩ | ⟨line, later, within,
    is_⟩
  · exact absurd same _stays
  · rw [is_]
    exact Prod.Lex.right _ (by simp only; omega)
  · rw [is_]
    exact Prod.Lex.left _ _ (by simp only; omega)

/-- Where `ensure_visible` leaves the anchor of a wrapped text. -/
def ensureWrapped : Anchor :=
  let position := screen.caretLineCol
  let anchor := screen.clampAnchor anchor
  let anchor := if position.line < anchor.top then ⟨position.line, 0⟩ else anchor
  let sub := screen.caretColumn script / max screen.contentWidth 1
  let anchor := if position.line = anchor.top ∧ sub < anchor.topSub then ⟨anchor.top, sub⟩ else anchor
  let below := screen.anchorAbove script position.line sub (max screen.contentHeight 1)
  let anchor :=
    if (screen.lineSubToRow script anchor position.line sub).isNone ∧
      Anchor.before anchor below then below else anchor
  screen.settle script position.line sub anchor

/-- Where it leaves that of a text that is not wrapped. -/
def ensureUnwrapped : Anchor :=
  let line := screen.caretLineCol.line
  let height := max screen.contentHeight 1
  let anchor := screen.clampAnchor anchor
  let anchor := if line < anchor.top then { anchor with top := line } else anchor
  if line > anchor.top + height - 1 then { anchor with top := line + 1 - height } else anchor

/-- How far `ensure_visible` scrolls sideways. -/
def ensureLeft (left : Nat) : Nat :=
  if screen.wrap ∨ screen.headless then 0
  else
    let width := max screen.contentWidth 1
    let column := screen.caretColumn script
    let left := if column < left then column else left
    if column > left + width - 1 then column + 1 - width else left

end Screen

/-- `fold::enclosing`: of the blocks that cover a line, the one with the last header. -/
def enclosing (regions : List Region) (line : Nat) : Option Region :=
  (regions.filter fun region => region.header == line || (region.header < line && region.last ≥
    line)).foldl (fun best region =>
      match best with
      | none => some region
      | some other => if other.header ≤ region.header then some region else some other)
    none

/-- Fold or unfold the block of a header. -/
def toggled (folds : Folds) (header : Nat) : Folds :=
  Folds.sync { folds with folded :=
    if header ∈ folds.folded then folds.folded.remove header else folds.folded.insert header }

/-- How an editor starts. -/
inductive Mode where
  | standalone
  | integrated
  | headless

namespace App

variable (script : Script) (app : App)

/-- `App::new`, and `set_integrated` or `set_headless` right after it. -/
def new (document : Document) (mode : Mode) : App where
  screen := {
    document
    folds := Folds.refold script document.text ⟨[], .empty, []⟩
    wrap := match mode with | .integrated => true | _ => false
    width := 80
    height := 24
    integrated := match mode with | .standalone => false | _ => true
    headless := match mode with | .headless => true | _ => false
    message := false }
  anchor := ⟨0, 0⟩
  left := 0

/-- Scroll just enough to keep the caret visible. -/
def ensureVisible : App where
  screen := app.screen
  anchor :=
    if app.screen.wrap then app.screen.ensureWrapped script app.anchor
    else app.screen.ensureUnwrapped app.anchor
  left := app.screen.ensureLeft script app.left

/-- A call on the document, with the folds of what it reports. -/
def call (op : Op) : App :=
  let document := app.screen.document.perform op
  let folds :=
    match app.screen.document.reported op with
    | some applied => app.screen.folds.rescanEdited script document.text applied
    | none => app.screen.folds
  { app with screen := { app.screen with document, folds } }

/-- `run`: the call, and the caret brought into view. -/
def run (op : Op) : App := ensureVisible script (app.call script op)

def toggleFold : App :=
  let line := app.screen.caretLineCol.line
  match enclosing app.screen.folds.regions line with
  | none => { app with screen := { app.screen with message := true } }
  | some region =>
    let folding := decide (region.header ∉ app.screen.folds.folded)
    let folded :=
      { app with screen := { app.screen with folds := toggled app.screen.folds region.header } }
    let moved :=
      if folding ∧ region.header < line ∧ line ≤ region.last then folded.run script
        (.gotoLine (region.header + 1))
      else folded
    ensureVisible script { moved with anchor := moved.screen.clampAnchor moved.anchor }

/-- Toggle the fold whose marker sits on a row. -/
def clickFold (row : Nat) : App :=
  match app.screen.rowLineSub script app.anchor row with
  | none => app
  | some (line, sub) =>
    if sub ≠ 0 ∨ (regionAt app.screen.folds.regions line).isNone then app
    else
      let folded := { app with screen := { app.screen with folds := toggled app.screen.folds line } }
      ensureVisible script { folded with anchor := folded.screen.clampAnchor folded.anchor }

def unfoldAll : App :=
  if app.screen.folds.folded.lines.isEmpty then app
  else ensureVisible script
    { app with screen := { app.screen with folds := { app.screen.folds with folded := .empty, hidden := [] } } }

def toggleWrap : App :=
  let shown := ensureVisible script
    { screen := { app.screen with wrap := !app.screen.wrap }
      anchor := ⟨app.anchor.top, 0⟩
      left := if !app.screen.wrap then app.left else 0 }
  { shown with screen := { shown.screen with message := true } }

/-- Mount the window the surface asked for. -/
def setView (firstLine lineCount : Nat) : App :=
  let screen :=
    { app.screen with height := if max lineCount 1 < 2 ^ 16 then max lineCount 1 else 2 ^ 16 - 1 }
  { app with screen, anchor := screen.clampAnchor ⟨min firstLine (screen.lineCount - 1), 0⟩ }

def resize (width height : Nat) : App :=
  let screen := { app.screen with width := max width 1, height := max height 1 }
  ensureVisible script { app with
    screen, anchor := ⟨app.anchor.top, min app.anchor.topSub
    (screen.lineRows script app.anchor.top - 1)⟩ }

/-- Move the anchor by rows, and the caret to the nearest visible line where that scrolled it off
the screen. -/
def scroll (delta : Int) : App :=
  let move := if delta > 0 then app.screen.advanceAnchor script else app.screen.retreatAnchor script
  let anchor := move^[delta.natAbs] app.anchor
  if anchor = app.anchor then app
  else
    let text := app.screen.text
    let line := app.screen.caretLineCol.line
    let target := max anchor.top (min line (app.screen.lastVisibleLine script anchor))
    if target = line then { app with anchor }
    else
      let body := text.line target
      let column := min (app.screen.caretColumn script) (displayColumn script body body.len)
      let offset := text.lineStart target + byteColumnForDisplay script body column
      { app with anchor, screen := { app.screen with document := app.screen.document.setSelection (.caret offset) } }

/-- Replace the buffer with what was read from disk. -/
def reload (body : Str) (revision : Option String) : App :=
  let before := app.screen.document
  let line := app.screen.caretLineCol.line + 1
  let loaded := (Document.fromString body before.readOnly).continueFrom before.version
  let document := match revision with
    | some revision => loaded.setDiskRevision revision
    | none => loaded
  let folds := app.screen.folds.refold script document.text
  let reloaded := run script { app with screen := { app.screen with document, folds } }
    (.gotoLine line)
  { reloaded with screen := { reloaded.screen with message := true } }

end App

/-- What moves the viewport, the folds or the text under them. -/
inductive Event where
  /-- A call on the document; a command is some of them, and mostly brings the caret into view at
  its end. -/
  | call (op : Op)
  | ensureVisible
  | reload (body : Str) (revision : Option String)
  | retarget
  | toggleFold
  | clickFold (row : Nat)
  | unfoldAll
  | toggleWrap
  | setView (firstLine lineCount : Nat)
  | resize (width height : Nat)
  | scroll (delta : Int)
  /-- A prompt opens or closes, or a message comes or goes. -/
  | message (shown : Bool)

def App.perform (script : Script) (app : App) : Event → App
  | .call op => app.call script op
  | .ensureVisible => app.ensureVisible script
  | .reload body revision => app.reload script body revision
  | .retarget =>
    { app with screen := { app.screen with folds := app.screen.folds.refold script app.screen.text } }
  | .toggleFold => app.toggleFold script
  | .clickFold row => app.clickFold script row
  | .unfoldAll => app.unfoldAll script
  | .toggleWrap => app.toggleWrap script
  | .setView firstLine lineCount => app.setView firstLine lineCount
  | .resize width height => app.resize script width height
  | .scroll delta => app.scroll script delta
  | .message shown => { app with screen := { app.screen with message := shown } }

/-- What commands lead to. -/
inductive App.Reached (script : Script) : App → Prop where
  | start (body : Str) (readOnly : Bool) (mode : Mode) :
    Reached script (App.new script (.fromString body readOnly) mode)
  | step {app : App} (event : Event) (reached : Reached script app) : Reached script
      (app.perform script event)

end ForgeNode.Viewport
