import ForgeNode.Editor.Shown

/-! In every state that commands lead to: which rows the walks find, and where they part. -/

namespace ForgeNode.Viewport

open Utf8 Editor Fold Outline Document Movement Screen

/-- What holds of an App whatever it is asked to do. -/
structure App.Sound (app : App) : Prop where
  reached : app.screen.document.Reached
  /-- A line that is not wrapped is shown from its first segment on. -/
  flat : app.screen.wrap = false → app.anchor.topSub = 0
  /-- Nothing is hidden while nothing is folded. -/
  bare : app.screen.folds.folded.lines = [] → app.screen.folds.hidden = []

namespace Screen

variable {script : Script} {screen : Screen} {anchor : Anchor}

theorem clampDown_flat (flat : anchor.topSub = 0) (fuel : Nat) :
    (screen.clampDown fuel anchor).topSub = 0 := by
  induction fuel generalizing anchor with
  | zero => exact flat
  | succ fuel ih =>
    unfold clampDown
    split
    · exact ih rfl
    · exact flat

theorem clampUp_flat (flat : anchor.topSub = 0) (fuel : Nat) :
    (screen.clampUp fuel anchor).topSub = 0 := by
  induction fuel generalizing anchor with
  | zero => exact flat
  | succ fuel ih =>
    unfold clampUp
    split
    · exact ih rfl
    · exact flat

theorem clampAnchor_flat (flat : anchor.topSub = 0) : (screen.clampAnchor anchor).topSub = 0 :=
  clampUp_flat (clampDown_flat flat _) _

theorem ensureUnwrapped_flat (flat : anchor.topSub = 0) :
    (screen.ensureUnwrapped anchor).topSub = 0 := by
  have clamped := @clampAnchor_flat screen anchor flat
  unfold ensureUnwrapped
  simp only
  split <;> split <;> exact clamped

theorem advanceAnchor_flat (unwrapped : screen.wrap = false) (flat : anchor.topSub = 0) :
    (screen.advanceAnchor script anchor).topSub = 0 := by
  rcases screen.advanceAnchor_eq script anchor with same | ⟨wrapped, _⟩ | ⟨line, _, _, is_⟩
  · rw [same]
    exact flat
  · rw [unwrapped] at wrapped
    cases wrapped
  · rw [is_]

theorem retreatAnchor_flat (unwrapped : screen.wrap = false) (flat : anchor.topSub = 0) :
    (screen.retreatAnchor script anchor).topSub = 0 := by
  unfold retreatAnchor
  rw [flat, if_neg (Nat.lt_irrefl 0), unwrapped]
  rfl

end Screen

theorem sync_bare (folds : Folds) (empty : folds.sync.folded.lines = []) :
    folds.sync.hidden = [] := by
  have none_ : folds.folded.lines = [] := empty
  rw [Folds.sync, none_]
  rfl

namespace App

variable {script : Script} {app : App}

theorem ensureVisible_sound (sound : app.Sound) : (app.ensureVisible script).Sound where
  reached := sound.reached
  bare := sound.bare
  flat unwrapped := by
    have off : app.screen.wrap = false := unwrapped
    unfold ensureVisible
    simp only [off, Bool.false_eq_true, if_false]
    exact Screen.ensureUnwrapped_flat (sound.flat off)

theorem call_sound (sound : app.Sound) (op : Op) : (app.call script op).Sound where
  reached := .call op sound.reached
  flat := sound.flat
  bare := by
    unfold call
    simp only
    split
    · exact sync_bare _
    · exact sound.bare

theorem run_sound (sound : app.Sound) (op : Op) :
    (app.run script op).Sound := ensureVisible_sound (call_sound sound op)

theorem new_sound (body : Str) (readOnly : Bool) (mode : Mode) :
    (App.new script (.fromString body readOnly) mode).Sound where
  reached := .load body readOnly
  flat _ := rfl
  bare := sync_bare _

theorem clamped_sound (sound : app.Sound) :
    Sound { app with anchor := app.screen.clampAnchor app.anchor } where
  reached := sound.reached
  flat unwrapped := Screen.clampAnchor_flat (sound.flat unwrapped)
  bare := sound.bare

theorem toggled_sound (sound : app.Sound) (header : Nat) :
    Sound { app with screen := { app.screen with folds := toggled app.screen.folds header } } where
  reached := sound.reached
  flat := sound.flat
  bare := sync_bare _

theorem message_sound (sound : app.Sound) (shown : Bool) :
    Sound { app with screen := { app.screen with message := shown } } :=
  ⟨sound.reached, sound.flat, sound.bare⟩

theorem toggleFold_sound (sound : app.Sound) : (app.toggleFold script).Sound := by
  unfold toggleFold
  simp only
  split
  · exact message_sound sound true
  · rename_i region _
    have folded := toggled_sound sound region.header
    apply ensureVisible_sound
    split
    · exact clamped_sound (run_sound folded _)
    · exact clamped_sound folded

theorem clickFold_sound (sound : app.Sound) (row : Nat) : (app.clickFold script row).Sound := by
  unfold clickFold
  split
  · exact sound
  · split
    · exact sound
    · exact ensureVisible_sound (clamped_sound (toggled_sound sound _))

theorem unfoldAll_sound (sound : app.Sound) : (app.unfoldAll script).Sound := by
  unfold unfoldAll
  split
  · exact sound
  · exact ensureVisible_sound ⟨sound.reached, sound.flat, fun _ => rfl⟩

theorem toggleWrap_sound (sound : app.Sound) : (app.toggleWrap script).Sound := by
  unfold toggleWrap
  refine message_sound (ensureVisible_sound ?_) true
  exact ⟨sound.reached, fun _ => rfl, sound.bare⟩

theorem setView_sound (sound : app.Sound) (firstLine lineCount : Nat) :
    (app.setView firstLine lineCount).Sound where
  reached := sound.reached
  flat _ := Screen.clampAnchor_flat rfl
  bare := sound.bare

theorem resize_sound (sound : app.Sound) (width height : Nat) :
    (app.resize script width height).Sound := by
  apply ensureVisible_sound
  refine ⟨sound.reached, ?_, sound.bare⟩
  intro unwrapped
  exact Nat.le_zero.mp (Nat.le_trans (Nat.min_le_left _ _) (Nat.le_of_eq (sound.flat unwrapped)))

theorem moved_flat (unwrapped : app.screen.wrap = false) (flat : app.anchor.topSub = 0)
    (delta : Int) (count : Nat) :
    ((if delta > 0 then app.screen.advanceAnchor script else app.screen.retreatAnchor
      script)^[count]
      app.anchor).topSub = 0 := by
  induction count with
  | zero => exact flat
  | succ count ih =>
    rw [Function.iterate_succ_apply']
    split
    · rename_i down
      rw [if_pos down] at ih
      exact Screen.advanceAnchor_flat unwrapped ih
    · rename_i up
      rw [if_neg up] at ih
      exact Screen.retreatAnchor_flat unwrapped ih

theorem scroll_sound (sound : app.Sound) (delta : Int) : (app.scroll script delta).Sound := by
  have flat (unwrapped : app.screen.wrap = false) :=
    @moved_flat script app unwrapped (sound.flat unwrapped) delta delta.natAbs
  unfold scroll
  simp only
  generalize (if delta > 0 then app.screen.advanceAnchor script else app.screen.retreatAnchor
    script)^[delta.natAbs] app.anchor = anchor at flat
  split
  · exact sound
  · split
    · exact ⟨sound.reached, flat, sound.bare⟩
    · exact ⟨.call (.setSelection _) sound.reached, flat, sound.bare⟩

theorem reload_sound (sound : app.Sound) (body : Str) (revision : Option String) :
    (app.reload script body revision).Sound := by
  have loaded : ((Document.fromString body app.screen.document.readOnly).continueFrom
      app.screen.document.version).Reached := .call (.continueFrom _) (.load body _)
  unfold reload
  refine message_sound (run_sound ?_ _) true
  refine ⟨?_, sound.flat, sync_bare _⟩
  cases revision with
  | none => exact loaded
  | some revision => exact .call (.setDiskRevision revision) loaded

theorem perform_sound (sound : app.Sound) (event : Event) : (app.perform script event).Sound := by
  cases event with
  | call op => exact call_sound sound op
  | ensureVisible => exact ensureVisible_sound sound
  | reload body revision => exact reload_sound sound body revision
  | retarget => exact ⟨sound.reached, sound.flat, sync_bare _⟩
  | toggleFold => exact toggleFold_sound sound
  | clickFold row => exact clickFold_sound sound row
  | unfoldAll => exact unfoldAll_sound sound
  | toggleWrap => exact toggleWrap_sound sound
  | setView firstLine lineCount => exact setView_sound sound firstLine lineCount
  | resize width height => exact resize_sound sound width height
  | scroll delta => exact scroll_sound sound delta
  | message shown => exact message_sound sound shown

theorem Reached.sound (reached : App.Reached script app) : app.Sound := by
  induction reached with
  | start body readOnly mode => exact new_sound body readOnly mode
  | step event _ ih => exact perform_sound ih event

/-- Without a screen of its own an App is not scrolled sideways. -/
def Unscrolled (app : App) : Prop := app.screen.headless = true → app.left = 0

theorem ensureVisible_unscrolled (app : App) : (app.ensureVisible script).Unscrolled := by
  intro headless
  have screen : app.screen.headless = true := headless
  simp [ensureVisible, Screen.ensureLeft, screen]

theorem perform_unscrolled (unscrolled : app.Unscrolled) (event : Event) :
    (app.perform script event).Unscrolled := by
  cases event with
  | call op | retarget | setView firstLine lineCount | message shown => exact unscrolled
  | ensureVisible | resize width height => exact ensureVisible_unscrolled _
  | reload body revision => exact ensureVisible_unscrolled _
  | toggleFold =>
    simp only [perform, toggleFold]
    split
    · exact unscrolled
    · exact ensureVisible_unscrolled _
  | clickFold row =>
    simp only [perform, clickFold]
    split
    · exact unscrolled
    · split
      · exact unscrolled
      · exact ensureVisible_unscrolled _
  | unfoldAll =>
    simp only [perform, unfoldAll]
    split
    · exact unscrolled
    · exact ensureVisible_unscrolled _
  | toggleWrap => exact ensureVisible_unscrolled _
  | scroll delta =>
    unfold perform scroll
    simp only
    generalize (if delta > 0 then app.screen.advanceAnchor script else app.screen.retreatAnchor
      script)^[delta.natAbs] app.anchor = anchor
    split
    · exact unscrolled
    · split <;> exact unscrolled

theorem Reached.unscrolled (reached : App.Reached script app) : app.Unscrolled := by
  induction reached with
  | start body readOnly mode => exact fun _ => rfl
  | step event _ ih => exact perform_unscrolled ih event

end App

/-- The walks over the rows agree with each other and with where the caret is. -/
structure App.Agrees (script : Script) (app : App) : Prop where
  rows : ∀ height row, row < height →
    (app.screen.rowLines script app.anchor height)[row]? =
      some (app.screen.rowLineSub script app.anchor row)
  segments : ∀ line sub row, app.screen.lineSubToRow script app.anchor line sub = some row ↔
    Shows script app.screen app.anchor row line sub
  caret : ∀ row cell, app.screen.caretScreen script app.anchor app.left = some (row, cell) ↔
    Shows script app.screen app.anchor row app.screen.caretLineCol.line
      (app.screen.caretSegment script) ∧ CaretCell script app.screen app.left cell

/-- Whatever the commands did: one walk over the rows finds what the other does, a segment is placed
on its row where it is one, and the caret is placed on its cell where it follows the rows. -/
theorem row_walks_iff {script : Script} {app : App} (reached : App.Reached script app) :
    (∀ height row, row < height →
      (app.screen.rowLines script app.anchor height)[row]? =
        some (app.screen.rowLineSub script app.anchor row)) ∧
    (∀ line sub, (∀ row, app.screen.lineSubToRow script app.anchor line sub = some row ↔
        Shows script app.screen app.anchor row line sub) ↔
      HasSegment script app.screen line sub ∨ Offscreen script app.screen app.anchor line sub) ∧
    ((∀ row cell, app.screen.caretScreen script app.anchor app.left = some (row, cell) ↔
        Shows script app.screen app.anchor row app.screen.caretLineCol.line
        (app.screen.caretSegment script) ∧
          CaretCell script app.screen app.left cell) ↔
      CaretFollows script app.screen app.anchor app.left) := by
  have sound := reached.sound
  refine ⟨?_, ?_, ?_⟩
  · intro height row inside
    exact rowLines_getElem? sound.flat sound.bare inside
  · intro line sub
    exact lineSubToRow_shows_iff sound.flat sound.bare line sub
  · exact caretScreen_iff sound.reached.indexed sound.flat sound.bare app.left

/-- A block and a line below it. -/
def blockAbove : Str := .ofChars "x:\n  y\nz".toList

theorem blockAbove_regions : regions asciiScript (Document.fromString blockAbove false).text =
    [⟨0, 1⟩] := by
  rw [regions_eq]
  decide +kernel

/-- An App that opened it, with the block folded. -/
def foldedAbove : App :=
  (App.new asciiScript (.fromString blockAbove false) .standalone).perform asciiScript .toggleFold

theorem foldedAbove_reached : App.Reached asciiScript foldedAbove :=
  .step .toggleFold (.start blockAbove false .standalone)

theorem foldedAbove_eq : foldedAbove = App.perform asciiScript
    { screen := ⟨.fromString blockAbove false, ⟨[⟨0, 1⟩], .empty, []⟩, false, 80, 24, false, false, false⟩
      anchor := ⟨0, 0⟩
      left := 0 } .toggleFold := by
  unfold foldedAbove App.new Folds.refold
  rw [blockAbove_regions]
  rfl

/-- With a block folded, its header and the line below it are on the first two rows, and the caret
is on the header. -/
theorem row_walks_iff_folded :
    (foldedAbove.screen.rowLines asciiScript foldedAbove.anchor 5)[1]? = some (some (2, 0)) ∧
      foldedAbove.screen.caretScreen asciiScript foldedAbove.anchor foldedAbove.left =
        some (0, 4) := by
  obtain ⟨rows, _, caret⟩ := row_walks_iff foldedAbove_reached
  constructor
  · rw [rows 5 1 (by decide), foldedAbove_eq]
    decide +kernel
  · rw [foldedAbove_eq] at caret ⊢
    refine (caret.mpr ?_ 0 4).mpr
      ⟨⟨by decide +kernel, by decide +kernel⟩, by decide +kernel, by decide +kernel⟩
    rw [CaretFollows, if_neg (by decide +kernel)]
    refine .inr (.inl ⟨?_, Nat.zero_le _⟩)
    intro between _ high
    rw [Nat.le_zero.mp (Nat.le_trans high (by decide +kernel))]
    decide +kernel

/-- The block folded, and the caret sent to the line below it. -/
theorem caret_passes_folds : ¬∀ app : App, App.Reached asciiScript app →
    app.Agrees asciiScript := by
  intro always
  have agrees := always
    (App.perform asciiScript (App.perform asciiScript foldedAbove (.call (.gotoLine 3)))
    .ensureVisible)
    (.step _ (.step _ foldedAbove_reached))
  rw [foldedAbove_eq] at agrees
  have placed := (agrees.caret 2 4).mp (by decide +kernel)
  exact absurd placed.1.2 (by decide +kernel)

end ForgeNode.Viewport
