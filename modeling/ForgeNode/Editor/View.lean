import Mathlib.Data.List.Forall2
import ForgeNode.Editor.Movement
import ForgeNode.Editor.Spans

/-! The cells of a row that a window shows: what each part of it draws, against the columns of the
line. -/

namespace ForgeNode.View

open List Utf8 Editor

variable {cell : Nat} {graphemes : List (Nat × Str)} {rest : List (Nat × Str)}

inductive Decoration where
  | none | hit | bracket | caret
  deriving DecidableEq

/-- A run of cells that share one highlight state. -/
structure Part where
  text : Str
  selected : Bool
  scope : Spans.Scope
  decoration : Decoration

/-- Everything a row needs besides its text and its window. -/
structure RowDecor where
  selected : Option (Nat × Nat)
  alsoSelected : List (Nat × Nat)
  carets : List Nat
  scopes : List Spans.Span
  marks : List (Nat × Nat × Decoration)
  specialChars : Bool

/-- The stand-in for a whitespace character that is easy to mistake. -/
def specialGlyph (grapheme : Str) : Option Char :=
  if grapheme = .ofChars ['\t'] then some '\u2192'
  else if grapheme = .ofChars ['\u00a0'] then some '\u00b7'
  else if grapheme = .ofChars ['\u200b'] ∨ grapheme = .ofChars ['\ufeff'] then some '\u2423'
  else none

/-- The printable stand-in for a control character. -/
def controlGlyph (ch : Char) : Char :=
  if ch = '\x7f' then '\u2421'
  else if ch.toNat < 0x20 then Char.ofNat (0x2400 + ch.toNat)
  else '\ufffd'

def singleControl (grapheme : Str) : Option Char :=
  if isSingleControl grapheme then firstChar grapheme.bytes else none

/-- The decoration covering a byte offset. -/
def markOf (marks : List (Nat × Nat × Decoration)) (offset : Nat) : Decoration :=
  ((marks.find? fun (from_, upTo, _) => decide (offset ≥ from_ ∧ offset < upTo)).map (·.2.2)).getD
    .none

/-- The scope covering a byte offset. -/
def scopeAt (scopes : List Spans.Span) (offset : Nat) : Spans.Scope :=
  ((scopes.find? fun span => decide (offset ≥ span.start ∧ offset < span.end_)).map (·.scope)).getD
    .plain

/-- A run is merged into the last part where nothing changes. -/
def push (parts : List Part) (text : Str) (selected : Bool) (scope : Spans.Scope)
    (decoration : Decoration) : List Part :=
  match parts.getLast? with
  | some last =>
    if last.selected = selected ∧ last.scope = scope ∧ last.decoration = decoration then
      parts.dropLast ++ [{ last with text := last.text ++ text }]
    else parts ++ [{ text, selected, scope, decoration }]
  | none => parts ++ [{ text, selected, scope, decoration }]

/-- A piece of what is drawn: a space, or a text for the grapheme at an offset. -/
inductive Tile where
  | blank
  | drawn (offset : Nat) (text : Str) (width : Nat)

def Tile.text : Tile → Str
  | blank => .ofChars [' ']
  | drawn _ text _ => text

def joined (tiles : List Tile) : Str := tiles.foldl (fun text tile => text ++ tile.text) .empty

/-- `" ".repeat(count)`. -/
def blanks (count : Nat) : List Tile := List.replicate count .blank

/-- What one grapheme draws in the window, and the cells produced behind it. -/
def draw (special : Bool) (left width start w produced offset : Nat) (grapheme : Str) :
    List Tile × Nat :=
  if start < left then
    let pad := min (start + w - left) (width - produced)
    (blanks pad, produced + pad)
  else if produced + w > width then (blanks (width - produced), width)
  else
    match if special then specialGlyph grapheme else none with
    | some glyph => (.drawn offset (.ofChars [glyph]) 1 :: blanks (w - 1), produced + max w 1)
    | none =>
      if grapheme = .ofChars ['\t'] then (blanks w, produced + w)
      else
        match singleControl grapheme with
        | some ch => ([.drawn offset (.ofChars [controlGlyph ch]) 1], produced + 1)
        | none => ([.drawn offset grapheme w], produced + w)

section Window

variable (script : Script) (left width : Nat) (decor : RowDecor)

def inside (offset : Nat) : Bool :=
  (decor.selected.any fun (from_, upTo) => decide (offset ≥ from_ ∧ offset < upTo)) ||
    decor.alsoSelected.any fun (from_, upTo) => decide (offset ≥ from_ ∧ offset < upTo)

def decorationOf (offset : Nat) : Decoration :=
  if decor.carets.contains offset then .caret else markOf decor.marks offset

/-- The loop over the graphemes. -/
def partsFrom : Nat → Nat → List Part → List (Nat × Str) → List Part × Nat
  | _, produced, parts, [] => (parts, produced)
  | cell, produced, parts, (offset, grapheme) :: rest =>
    if produced ≥ width then (parts, produced)
    else
      let w := graphemeWidth script grapheme cell
      if cell + w ≤ left then partsFrom (cell + w) produced parts rest
      else
        let (tiles, produced) := draw decor.specialChars left width cell w produced offset grapheme
        partsFrom (cell + w) produced
          (push parts (joined tiles) (inside decor offset) (scopeAt decor.scopes offset)
            (decorationOf decor offset))
          rest

/-- An empty selection at the end of a line still reads as selected. -/
def trails (line : Str) (produced : Nat) : Bool :=
  decor.selected.any fun (from_, upTo) => decide (upTo > line.len ∧ from_ ≤ line.len ∧
    produced < width)

def windowParts (line : Str) : List Part :=
  let (parts, produced) := partsFrom script left width decor 0 0 [] (script.graphemeIndices line)
  if trails width decor line produced then push parts (.ofChars [' ']) true .plain .none else parts

/-- The tiles of the parts, in order. -/
def tilesFrom : Nat → Nat → List (Nat × Str) → List Tile × Nat
  | _, produced, [] => ([], produced)
  | cell, produced, (offset, grapheme) :: rest =>
    if produced ≥ width then ([], produced)
    else
      let w := graphemeWidth script grapheme cell
      if cell + w ≤ left then tilesFrom (cell + w) produced rest
      else
        let (tiles, produced) := draw decor.specialChars left width cell w produced offset grapheme
        let (behind, produced) := tilesFrom (cell + w) produced rest
        (tiles ++ behind, produced)

def windowTiles (line : Str) : List Tile :=
  let (tiles, produced) := tilesFrom script left width decor 0 0 (script.graphemeIndices line)
  if trails width decor line produced then tiles ++ [.blank] else tiles

end Window

/-- One cell of the grid: blank, the first of a grapheme with what is drawn there, or a further
one. -/
inductive Cell where
  | blank
  | first (offset : Nat) (text : Str)
  | rest (offset : Nat)
  deriving DecidableEq

def Tile.cells : Tile → List Cell
  | blank => [.blank]
  | drawn _ _ 0 => []
  | drawn offset text (width + 1) => .first offset text :: List.replicate width (.rest offset)

section Columns

/-- A grapheme at the column it starts at. -/
structure Placed where
  offset : Nat
  grapheme : Str
  start : Nat
  width : Nat

/-- The graphemes of a line at their display columns. -/
def layout (script : Script) : Nat → List (Nat × Str) → List Placed
  | _, [] => []
  | cell, (offset, grapheme) :: rest =>
    let width := graphemeWidth script grapheme cell
    { offset, grapheme, start := cell, width } :: layout script (cell + width) rest

/-- What is shown in the columns of a grapheme, by its kind. -/
def Placed.shown (special : Bool) (placed : Placed) : List Cell :=
  match placed.width with
  | 0 => []
  | width + 1 =>
    match if special then specialGlyph placed.grapheme else none with
    | some glyph => .first placed.offset (.ofChars [glyph]) :: List.replicate width .blank
    | none =>
      if placed.grapheme = .ofChars ['\t'] then List.replicate (width + 1) .blank
      else
        match singleControl placed.grapheme with
        | some ch =>
          .first placed.offset (.ofChars [controlGlyph ch]) :: List.replicate width
            (.rest placed.offset)
        | none => .first placed.offset placed.grapheme :: List.replicate width (.rest placed.offset)

/-- A grapheme that an edge of the window cuts is blank. -/
def Placed.cells (special : Bool) (left width : Nat) (placed : Placed) : List Cell :=
  if placed.start < left ∨ left + width < placed.start + placed.width then List.replicate
    placed.width .blank
  else placed.shown special

variable (script : Script) (left width : Nat) (decor : RowDecor) (line : Str)

/-- The columns of the line. -/
def columns : List Cell :=
  (layout script 0 (script.graphemeIndices line)).flatMap (Placed.cells decor.specialChars left width)

/-- What the window is to show: its columns of the line, and a blank for a selection that goes
on. -/
def expected : List Cell :=
  let shown := ((columns script left width decor line).drop left).take width
  shown ++ if trails width decor line shown.length then [.blank] else []

/-- What the window shows. -/
def rendered : List Cell := (windowTiles script left width decor line).flatMap Tile.cells

end Columns

/-- A special character that takes no column is drawn in one, inside the window. -/
def Shifted (special : Bool) (left width : Nat) (placed : Placed) : Prop :=
  special = true ∧ specialGlyph placed.grapheme ≠ none ∧ placed.width = 0 ∧ left < placed.start ∧
    placed.start < left + width

section Cells

@[simp] theorem cells_blanks (count : Nat) :
    (blanks count).flatMap Tile.cells = List.replicate count .blank := by
  induction count with
  | zero => rfl
  | succ count ih =>
    rw [blanks, replicate_succ, flatMap_cons, ← blanks, ih]
    rfl

theorem shown_length (special : Bool) (placed : Placed) :
    (placed.shown special).length = placed.width := by
  rw [Placed.shown]
  split
  case h_1 none_ => rw [none_]; rfl
  case h_2 width some_ =>
    rw [some_]
    split
    · rw [length_cons, length_replicate]
    · split
      · rw [length_replicate]
      · split <;> rw [length_cons, length_replicate]

theorem cells_length (special : Bool) (left width : Nat) (placed : Placed) :
    (placed.cells special left width).length = placed.width := by
  rw [Placed.cells]
  split
  · rw [length_replicate]
  · exact shown_length special placed

/-- The width of a grapheme as `grapheme_width` has it. -/
structure Placed.Sized (placed : Placed) : Prop where
  tab : placed.grapheme = .ofChars ['\t'] → 0 < placed.width
  control : placed.grapheme ≠ .ofChars ['\t'] → ∀ ch, singleControl placed.grapheme = some ch →
    placed.width = 1

theorem sized_layout {script : Script} :
    ∀ placed ∈ layout script cell rest, placed.Sized := by
  induction rest generalizing cell with
  | nil => exact fun placed member => absurd member not_mem_nil
  | cons indexed rest ih =>
    obtain ⟨offset, grapheme⟩ := indexed
    intro placed member
    rcases mem_cons.mp member with rfl | later
    · constructor
      · intro tab
        have stop := Nat.mod_lt cell (show 0 < tabWidth from Nat.succ_pos 3)
        simp only [graphemeWidth, if_pos tab]
        omega
      · intro other ch control
        rw [singleControl] at control
        split at control
        case isFalse => cases control
        case isTrue single => simp only [graphemeWidth, if_neg other, if_pos single]
    · exact ih placed later

/-- What a grapheme draws is what its columns show, unless it is shifted. -/
theorem draw_cells {special : Bool} {left width produced : Nat} {placed : Placed}
    (sized : placed.Sized) (visible : left < placed.start + placed.width) (room : produced < width)
    (at_ : produced = placed.start - left) (good : ¬ Shifted special left width placed) :
    (draw special left width placed.start placed.width produced placed.offset
      placed.grapheme).1.flatMap Tile.cells =
        ((placed.cells special left width).drop (left - placed.start)).take (width - produced) ∧
      (draw special left width placed.start placed.width produced placed.offset placed.grapheme).2 =
        min (placed.start + placed.width - left) width := by
  rw [draw, Placed.cells]
  by_cases cutLeft : placed.start < left
  case pos =>
    rw [if_pos cutLeft, if_pos (.inl cutLeft)]
    simp only [cells_blanks, drop_replicate, take_replicate]
    constructor
    · congr 1
      omega
    · omega
  case neg =>
    have none_ : left - placed.start = 0 := by omega
    rw [if_neg cutLeft, none_, drop_zero]
    by_cases cutRight : produced + placed.width > width
    case pos =>
      rw [if_pos cutRight, if_pos (.inr (by omega))]
      simp only [cells_blanks, take_replicate]
      constructor
      · congr 1
        omega
      · omega
    case neg =>
      have fits : (placed.shown special).length ≤ width - produced := by
        rw [shown_length]
        omega
      have uncut : ¬ (placed.start < left ∨ left + width < placed.start + placed.width) := by omega
      rw [if_neg cutRight, if_neg uncut, take_of_length_le fits, Placed.shown]
      cases glyph : if special then specialGlyph placed.grapheme else none with
      | some glyph =>
        have wide : placed.width ≠ 0 := by
          intro zero
          apply good
          cases special with
          | false => cases glyph
          | true =>
            have some_ : specialGlyph placed.grapheme ≠ none := by
              intro none_
              rw [if_pos rfl, none_] at glyph
              cases glyph
            exact ⟨rfl, some_, zero, by omega, by omega⟩
        obtain ⟨more, size⟩ := Nat.exists_eq_succ_of_ne_zero wide
        simp only [size, flatMap_cons, cells_blanks, Tile.cells, Nat.succ_eq_add_one,
          Nat.add_sub_cancel, replicate_zero, singleton_append, true_and]
        omega
      | none =>
        by_cases tab : placed.grapheme = .ofChars ['\t']
        case pos =>
          obtain ⟨more, size⟩ := Nat.exists_eq_succ_of_ne_zero (Nat.ne_of_gt (sized.tab tab))
          simp only [if_pos tab, size, cells_blanks, Nat.succ_eq_add_one, true_and]
          omega
        case neg =>
          simp only [if_neg tab]
          cases control : singleControl placed.grapheme with
          | some ch =>
            have size := sized.control tab ch control
            simp only [size, flatMap_cons, flatMap_nil, Tile.cells, append_nil, true_and]
            omega
          | none =>
            simp only [flatMap_cons, flatMap_nil, append_nil]
            constructor
            · cases size : placed.width with
              | zero => rfl
              | succ more => rfl
            · omega

end Cells

section Loop

variable {script : Script} {left width : Nat} {decor : RowDecor}

theorem layout_start :
    ∀ placed ∈ layout script cell rest, cell ≤ placed.start := by
  induction rest generalizing cell with
  | nil => exact fun placed member => absurd member not_mem_nil
  | cons indexed rest ih =>
    intro placed member
    rcases mem_cons.mp member with rfl | later
    · exact Nat.le_refl _
    · exact Nat.le_trans (Nat.le_add_right _ _) (ih placed later)

/-- The loop draws the columns of the window, as long as nothing is shifted. -/
theorem tilesFrom_cells {cell produced : Nat} {rest : List (Nat × Str)}
    (at_ : produced = min (cell - left) width) (good : ∀ placed ∈ layout script cell rest,
      ¬ Shifted decor.specialChars left width placed) :
    (tilesFrom script left width decor cell produced rest).1.flatMap Tile.cells =
      (((layout script cell rest).flatMap (Placed.cells decor.specialChars left width)).drop
      (left - cell)).take
        (width - produced) := by
  induction rest generalizing cell produced with
  | nil => simp [tilesFrom, layout]
  | cons indexed rest ih =>
    obtain ⟨offset, grapheme⟩ := indexed
    have others := fun placed member => good placed (mem_cons_of_mem _ member)
    rw [tilesFrom]
    by_cases full : produced ≥ width
    case pos => rw [if_pos full, Nat.sub_eq_zero_of_le full, take_zero]; rfl
    case neg =>
      rw [if_neg full, layout, flatMap_cons]
      have first : (Placed.cells decor.specialChars left width
          ⟨offset, grapheme, cell, graphemeWidth script grapheme cell⟩).length =
          graphemeWidth script grapheme cell := cells_length _ _ _ _
      by_cases above : cell + graphemeWidth script grapheme cell ≤ left
      case pos =>
        simp only [if_pos above]
        have gone : (Placed.cells decor.specialChars left width
            ⟨offset, grapheme, cell, graphemeWidth script grapheme cell⟩).drop (left - cell) = [] :=
          drop_eq_nil_of_le (by rw [first]; omega)
        rw [ih (by omega) others, drop_append, gone, first, nil_append, Nat.sub_sub]
      case neg =>
        simp only [if_neg above]
        have here : Placed.mk offset grapheme cell (graphemeWidth script grapheme cell) ∈
            layout script cell ((offset, grapheme) :: rest) := mem_cons_self
        have start : produced = cell - left := by omega
        obtain ⟨cells, next⟩ := draw_cells (sized_layout _ here) (Nat.lt_of_not_le above)
          (Nat.lt_of_not_le full) start (good _ here)
        change _ = min (cell + graphemeWidth script grapheme cell - left) width at next
        rw [flatMap_append, cells, ih next others, drop_append_of_le_length (by rw [first]; omega),
          take_append, List.length_drop, first]
        have reached : left - (cell + graphemeWidth script grapheme cell) = 0 := by omega
        rw [reached, drop_zero]
        congr 2
        rw [next]
        omega

theorem draw_length (special : Bool) (left start w offset : Nat) (grapheme : Str) {produced : Nat}
    (room : produced < width) :
    produced + ((draw special left width start w produced offset grapheme).1.flatMap
      Tile.cells).length =
        (draw special left width start w produced offset grapheme).2 ∧
      (draw special left width start w produced offset grapheme).2 ≤ width := by
  rw [draw]
  split
  · simp only [cells_blanks, length_replicate]
    refine ⟨trivial, ?_⟩
    omega
  · split
    · simp only [cells_blanks, length_replicate]
      omega
    · split
      · simp only [flatMap_cons, length_append, cells_blanks, length_replicate, Tile.cells,
          length_cons]
        omega
      · split
        · simp only [cells_blanks, length_replicate]
          refine ⟨trivial, ?_⟩
          omega
        · split
          · simp only [flatMap_cons, flatMap_nil, Tile.cells, append_nil, length_cons,
              length_replicate, Nat.zero_add]
            refine ⟨trivial, ?_⟩
            omega
          · have count : (Tile.drawn offset grapheme w).cells.length = w := by
              cases w with
              | zero => rfl
              | succ w => exact congrArg (· + 1) length_replicate
            simp only [flatMap_cons, flatMap_nil, append_nil, count]
            refine ⟨trivial, ?_⟩
            omega

/-- The cells of the tiles are those that are counted, and never more than the window has. -/
theorem tilesFrom_length {cell produced : Nat} {rest : List (Nat × Str)} (room : produced ≤ width) :
    produced + ((tilesFrom script left width decor cell produced rest).1.flatMap
      Tile.cells).length =
        (tilesFrom script left width decor cell produced rest).2 ∧
      (tilesFrom script left width decor cell produced rest).2 ≤ width := by
  induction rest generalizing cell produced with
  | nil => exact ⟨rfl, room⟩
  | cons indexed rest ih =>
    obtain ⟨offset, grapheme⟩ := indexed
    rw [tilesFrom]
    by_cases full : produced ≥ width
    case pos => rw [if_pos full]; exact ⟨rfl, room⟩
    case neg =>
      rw [if_neg full]
      by_cases above : cell + graphemeWidth script grapheme cell ≤ left
      case pos =>
        simp only [if_pos above]
        exact ih room
      case neg =>
        simp only [if_neg above]
        obtain ⟨count, fits⟩ := draw_length decor.specialChars left cell
          (graphemeWidth script grapheme cell) offset grapheme (Nat.lt_of_not_le full)
        obtain ⟨behind, bound⟩ := @ih (cell + graphemeWidth script grapheme cell) _ fits
        rw [flatMap_append, length_append, ← Nat.add_assoc, count]
        exact ⟨behind, bound⟩

/-- The first of the shifted graphemes is drawn. -/
theorem tilesFrom_shifted {cell produced : Nat} {rest : List (Nat × Str)}
    (at_ : produced = min (cell - left) width) (bad : ∃ placed ∈ layout script cell rest,
      Shifted decor.specialChars left width placed) :
    ∃ placed ∈ layout script cell rest, placed.width = 0 ∧ ∃ text,
      Cell.first placed.offset text ∈
        (tilesFrom script left width decor cell produced rest).1.flatMap Tile.cells := by
  induction rest generalizing cell produced with
  | nil =>
    obtain ⟨placed, member, _⟩ := bad
    exact absurd member not_mem_nil
  | cons indexed rest ih =>
    obtain ⟨offset, grapheme⟩ := indexed
    obtain ⟨placed, member, shifted⟩ := bad
    have room : produced < width := by
      have := layout_start placed member
      obtain ⟨_, _, _, after, before⟩ := shifted
      omega
    have here : Placed.mk offset grapheme cell (graphemeWidth script grapheme cell) ∈
        layout script cell ((offset, grapheme) :: rest) := mem_cons_self
    rw [tilesFrom, if_neg (Nat.not_le.mpr room)]
    by_cases first : Shifted decor.specialChars left width
      ⟨offset, grapheme, cell, graphemeWidth script grapheme cell⟩
    case pos =>
      obtain ⟨special, some_, none_, after, before⟩ := first
      simp only at some_ none_ after before
      obtain ⟨glyph, isGlyph⟩ := Option.ne_none_iff_exists'.mp some_
      refine ⟨_, here, none_, .ofChars [glyph], ?_⟩
      have visible : ¬ cell + graphemeWidth script grapheme cell ≤ left := by omega
      have uncut : ¬ produced + graphemeWidth script grapheme cell > width := by omega
      simp only [if_neg visible, draw, if_neg (Nat.not_lt.mpr (Nat.le_of_lt after)), if_neg uncut,
        special, if_true, isGlyph, flatMap_append, flatMap_cons]
      exact mem_append_left _ (mem_append_left _ mem_cons_self)
    case neg =>
      have later : placed ∈ layout script (cell + graphemeWidth script grapheme cell) rest := by
        rcases mem_cons.mp member with rfl | later
        · exact absurd shifted first
        · exact later
      by_cases above : cell + graphemeWidth script grapheme cell ≤ left
      case pos =>
        simp only [if_pos above]
        obtain ⟨found, inside, found_⟩ :=
          @ih (cell + graphemeWidth script grapheme cell) produced (by omega) ⟨placed, later, shifted⟩
        exact ⟨found, mem_cons_of_mem _ inside, found_⟩
      case neg =>
        have start : produced = cell - left := by omega
        have next := (draw_cells (sized_layout _ here) (Nat.lt_of_not_le above) room start first).2
        simp only [if_neg above]
        obtain ⟨found, inside, none_, text, drawn⟩ := ih next ⟨placed, later, shifted⟩
        refine ⟨found, mem_cons_of_mem _ inside, none_, text, ?_⟩
        rw [flatMap_append]
        exact mem_append_right _ drawn

/-- The columns of a line name the graphemes that have columns. -/
theorem first_mem_columns {placedAt : List Placed} {special : Bool} {offset : Nat} {text : Str}
    (member : Cell.first offset text ∈ placedAt.flatMap (Placed.cells special left width)) :
    ∃ placed ∈ placedAt, placed.offset = offset ∧ placed.width ≠ 0 := by
  obtain ⟨placed, there, inside⟩ := mem_flatMap.mp member
  refine ⟨placed, there, ?_, ?_⟩
  · rw [Placed.cells] at inside
    split at inside
    case isTrue => cases eq_of_mem_replicate inside
    case isFalse =>
      rw [Placed.shown] at inside
      have headed : ∀ {first : Nat} {text' : Str} {more : Nat} {cell : Cell},
          (∀ offset text, cell ≠ .first offset text) →
          Cell.first offset text ∈ Cell.first first text' :: List.replicate more cell →
          first = offset := by
        intro first text' more cell other inside
        rcases mem_cons.mp inside with same | later
        · cases same
          rfl
        · exact absurd (eq_of_mem_replicate later).symm (other _ _)
      split at inside
      · cases inside
      · split at inside
        · exact headed (fun _ _ => Cell.noConfusion) inside
        · split at inside
          · cases eq_of_mem_replicate inside
          · split at inside
            · exact headed (fun _ _ => Cell.noConfusion) inside
            · exact headed (fun _ _ => Cell.noConfusion) inside
  · intro none_
    have empty := cells_length special left width placed
    rw [none_] at empty
    rw [eq_nil_of_length_eq_zero empty] at inside
    cases inside

theorem layout_offsets (cell : Nat) (rest : List (Nat × Str)) :
    (layout script cell rest).map (·.offset) = rest.map (·.1) := by
  induction rest generalizing cell with
  | nil => rfl
  | cons indexed rest ih =>
    rw [layout, map_cons, map_cons, ih]

end Loop

section Text

variable {script : Script} {left width : Nat} {decor : RowDecor}

theorem push_bytes (parts : List Part) (text : Str) (selected : Bool) (scope : Spans.Scope)
    (decoration : Decoration) : (push parts text selected scope decoration).flatMap (·.text.bytes) =
      parts.flatMap (·.text.bytes) ++ text.bytes := by
  rw [push]
  split
  case h_2 => simp
  case h_1 last ends =>
    split
    case isFalse => simp
    case isTrue =>
      obtain ⟨front, rfl⟩ := getLast?_eq_some_iff.mp ends
      simp

theorem joined_bytes (tiles : List Tile) : (joined tiles).bytes = tiles.flatMap (·.text.bytes) := by
  have from_ : ∀ text : Str, (tiles.foldl (fun text tile => text ++ tile.text) text).bytes =
      text.bytes ++ tiles.flatMap (·.text.bytes) := by
    induction tiles with
    | nil => exact fun text => (append_nil _).symm
    | cons tile tiles ih =>
      intro text
      rw [foldl_cons, ih, flatMap_cons, Str.bytes_append, append_assoc]
  exact from_ .empty

/-- The parts are the tiles, put together. -/
theorem partsFrom_bytes (cell produced : Nat) (parts : List Part) (rest : List (Nat × Str)) :
    (partsFrom script left width decor cell produced parts rest).1.flatMap (·.text.bytes) =
        parts.flatMap (·.text.bytes) ++
          (tilesFrom script left width decor cell produced rest).1.flatMap (·.text.bytes) ∧
      (partsFrom script left width decor cell produced parts rest).2 =
        (tilesFrom script left width decor cell produced rest).2 := by
  induction rest generalizing cell produced parts with
  | nil => exact ⟨(append_nil _).symm, rfl⟩
  | cons indexed rest ih =>
    obtain ⟨offset, grapheme⟩ := indexed
    rw [partsFrom, tilesFrom]
    split
    · exact ⟨(append_nil _).symm, rfl⟩
    · by_cases above : cell + graphemeWidth script grapheme cell ≤ left
      · simp only [if_pos above]
        exact ih _ _ _
      · simp only [if_neg above]
        obtain ⟨bytes, same⟩ := ih (cell + graphemeWidth script grapheme cell) _ _
        refine ⟨?_, same⟩
        rw [bytes, push_bytes, joined_bytes, flatMap_append, append_assoc]

theorem windowParts_bytes (line : Str) :
    (windowParts script left width decor line).flatMap (·.text.bytes) =
      (windowTiles script left width decor line).flatMap (·.text.bytes) := by
  obtain ⟨bytes, same⟩ := @partsFrom_bytes script left width decor 0 0 []
    (script.graphemeIndices line)
  rw [windowParts, windowTiles]
  simp only [same]
  split
  · rw [push_bytes, bytes, flatMap_append]
    rfl
  · exact bytes

/-- `char::is_control`. -/
def isControl (c : Char) : Bool := decide (c.val < 0x20 ∨ 0x7F ≤ c.val ∧ c.val < 0xA0)

/-- No control character in a text. -/
def Printable (text : Str) : Prop := ∀ c ∈ decode text.bytes, isControl c = false

theorem Printable.append {first second : Str} (front : Printable first) (back : Printable second) :
    Printable (first ++ second) := by
  have joined : decode (first ++ second).bytes = decode first.bytes ++ decode second.bytes := by
    rw [Str.bytes_append, ← encode_decode first.valid, ← encode_decode second.valid, ← encode_append,
      decode_encode, decode_encode, decode_encode]
  intro c member
  rw [joined] at member
  exact (mem_append.mp member).elim (front c) (back c)

theorem printable_char {c : Char} (plain : isControl c = false) : Printable (.ofChars [c]) := by
  intro d member
  rw [show (Str.ofChars [c]).bytes = encode [c] from rfl, decode_encode] at member
  rw [mem_singleton.mp member]
  exact plain

/-- What is taken from the segmentation: in a line without a newline a control character is a
grapheme of its own, and no two graphemes start at one offset. -/
structure Segments (script : Script) : Prop where
  alone : ∀ line : Str, '\n' ∉ decode line.bytes → ∀ indexed ∈ script.graphemeIndices line,
    ∀ c ∈ decode indexed.2.bytes, isControl c = true → indexed.2 = .ofChars [c]
  apart : ∀ line : Str, ((script.graphemeIndices line).map (·.1)).Nodup

theorem controlGlyph_printable (ch : Char) : isControl (controlGlyph ch) = false := by
  have pictures : ∀ code < 0x20, isControl (Char.ofNat (0x2400 + code)) = false := by decide
  rw [controlGlyph]
  split
  · decide
  · split
    case isTrue low => exact pictures _ low
    case isFalse => decide

theorem singleControl_ofChars {c : Char} (control : isControl c = true) :
    singleControl (.ofChars [c]) = some c := by
  have bytes : (Str.ofChars [c]).bytes = String.utf8EncodeChar c := encode_singleton c
  have first : firstChar (Str.ofChars [c]).bytes = some c := by
    rw [bytes, ← append_nil (String.utf8EncodeChar c)]
    exact firstChar_encodeChar c []
  have len : (Str.ofChars [c]).len = c.utf8Size := by
    rw [Str.len, bytes, String.length_utf8EncodeChar]
  have single : isSingleControl (.ofChars [c]) = true := by
    rw [isSingleControl, first]
    simpa [len, isControl] using control
  rw [singleControl, if_pos single, first]

theorem specialGlyph_printable {grapheme : Str} {glyph : Char}
    (special : specialGlyph grapheme = some glyph) : isControl glyph = false := by
  rw [specialGlyph] at special
  split at special
  · cases special; decide
  · split at special
    · cases special; decide
    · split at special
      · cases special; decide
      · cases special

theorem joined_printable {tiles : List Tile} (each : ∀ tile ∈ tiles, Printable tile.text) :
    Printable (joined tiles) := by
  have from_ : ∀ text : Str, Printable text →
      Printable (tiles.foldl (fun text tile => text ++ tile.text) text) := by
    induction tiles with
    | nil => exact fun text clean => clean
    | cons tile tiles ih =>
      intro text clean
      exact ih (fun tile member => each tile (mem_cons_of_mem _ member)) _
        (clean.append (each tile mem_cons_self))
  exact from_ .empty (fun c member => absurd member not_mem_nil)

theorem push_printable {parts : List Part} {text : Str}
    (clean : ∀ part ∈ parts, Printable part.text) (text_ : Printable text) (selected : Bool)
    (scope : Spans.Scope) (decoration : Decoration) :
    ∀ part ∈ push parts text selected scope decoration, Printable part.text := by
  have added : ∀ part ∈ parts ++ [⟨text, selected, scope, decoration⟩], Printable part.text := by
    intro part member
    rcases mem_append.mp member with old | new
    · exact clean part old
    · rw [mem_singleton.mp new]
      exact text_
  rw [push]
  split
  case h_2 => exact added
  case h_1 last ends =>
    split
    case isFalse => exact added
    case isTrue =>
      intro part member
      rcases mem_append.mp member with old | new
      · exact clean part ((dropLast_sublist _).subset old)
      · rw [mem_singleton.mp new]
        exact (clean last (mem_of_getLast? ends)).append text_

theorem draw_printable {special : Bool} {start w produced offset : Nat} {grapheme : Str}
    (alone : ∀ c ∈ decode grapheme.bytes, isControl c = true → grapheme = .ofChars [c]) :
    ∀ tile ∈ (draw special left width start w produced offset grapheme).1, Printable tile.text := by
  have space : ∀ count, ∀ tile ∈ blanks count, Printable tile.text := by
    intro count tile member
    rw [eq_of_mem_replicate member]
    exact printable_char (by decide)
  rw [draw]
  split
  · exact space _
  · split
    · exact space _
    · split
      case h_1 glyph found =>
        intro tile member
        rcases mem_cons.mp member with rfl | blank
        · cases special with
          | false => cases found
          | true => exact printable_char (specialGlyph_printable found)
        · exact space _ tile blank
      case h_2 =>
        split
        · exact space _
        · split
          case h_1 ch single =>
            intro tile member
            rw [mem_singleton.mp member]
            exact printable_char (controlGlyph_printable ch)
          case h_2 none_ =>
            intro tile member
            rw [mem_singleton.mp member]
            intro c inside
            rw [Bool.eq_false_iff]
            intro control
            rw [alone c inside control, singleControl_ofChars control] at none_
            cases none_

theorem partsFrom_printable {cell produced : Nat} {parts : List Part} {rest : List (Nat × Str)}
    (alone : ∀ indexed ∈ rest, ∀ c ∈ decode indexed.2.bytes, isControl c = true →
      indexed.2 = .ofChars [c])
    (clean : ∀ part ∈ parts, Printable part.text) :
    ∀ part ∈ (partsFrom script left width decor cell produced parts rest).1,
    Printable part.text := by
  induction rest generalizing cell produced parts with
  | nil => exact clean
  | cons indexed rest ih =>
    have others := fun indexed member => alone indexed (mem_cons_of_mem _ member)
    have here := alone indexed mem_cons_self
    obtain ⟨offset, grapheme⟩ := indexed
    rw [partsFrom]
    split
    · exact clean
    · by_cases above : cell + graphemeWidth script grapheme cell ≤ left
      · simp only [if_pos above]
        exact ih others clean
      · simp only [if_neg above]
        exact ih others (push_printable clean (joined_printable (draw_printable here)) _ _ _)

theorem windowParts_printable (segments : Segments script) {line : Str}
    (whole : '\n' ∉ decode line.bytes) :
    ∀ part ∈ windowParts script left width decor line, Printable part.text := by
  have clean := @partsFrom_printable script left width decor 0 0 [] _ (segments.alone line whole)
    (fun part member => absurd member not_mem_nil)
  rw [windowParts]
  simp only
  split
  · exact push_printable clean (printable_char (by decide)) _ _ _
  · exact clean

end Text

section Special

variable {script : Script} {left width : Nat} {decor : RowDecor} {line : Str}

/-- A grapheme that is drawn alike with and without special characters. -/
def Ordinary (graphemes : List (Nat × Str)) (offset : Nat) : Prop :=
  ∀ grapheme, (offset, grapheme) ∈ graphemes → specialGlyph grapheme = none

/-- Two cells that agree on what ordinary graphemes show. -/
def Alike (graphemes : List (Nat × Str)) (one other : Cell) : Prop :=
  one = other ∨ ∀ offset text, Ordinary graphemes offset →
    one ≠ .first offset text ∧ other ≠ .first offset text

theorem alike_cells (special : Bool) {placed : Placed}
    (member : (placed.offset, placed.grapheme) ∈ graphemes) :
    List.Forall₂ (Alike graphemes) (placed.cells special left width)
    (placed.cells false left width) := by
  have same : ∀ cells : List Cell, List.Forall₂ (Alike graphemes) cells cells :=
    fun cells => forall₂_same.mpr fun cell _ => .inl rfl
  by_cases ordinary : specialGlyph placed.grapheme = none
  case pos =>
    have equal : placed.cells special left width = placed.cells false left width := by
      cases special with
      | false => rfl
      | true => simp only [Placed.cells, Placed.shown, ordinary, ite_self]
    rw [equal]
    exact same _
  case neg =>
    -- every cell here is of a grapheme that is not ordinary
    have lengths : (placed.cells special left width).length =
        (placed.cells false left width).length := by
      rw [cells_length, cells_length]
    have apart : ∀ flag, ∀ cell ∈ placed.cells flag left width, ∀ offset text,
        Ordinary graphemes offset → cell ≠ .first offset text := by
      rintro flag cell inside offset text plain rfl
      have own := @first_mem_columns left width [placed] flag offset text (by simpa using inside)
      obtain ⟨found, there, rfl, _⟩ := own
      rw [mem_singleton.mp there] at plain
      exact ordinary (plain _ member)
    refine forall₂_iff_get.mpr ⟨lengths, fun i low high => .inr fun offset text plain => ⟨?_, ?_⟩⟩
    · exact apart special _ (get_mem _ _) offset text plain
    · exact apart false _ (get_mem _ _) offset text plain

theorem layout_member :
    ∀ placed ∈ layout script cell rest, (placed.offset, placed.grapheme) ∈ rest := by
  induction rest generalizing cell with
  | nil => exact fun placed member => absurd member not_mem_nil
  | cons indexed rest ih =>
    intro placed member
    rcases mem_cons.mp member with rfl | later
    · exact mem_cons_self
    · exact mem_cons_of_mem _ (ih placed later)

theorem alike_flatMap (special : Bool) {row : List Placed}
    (members : ∀ placed ∈ row, (placed.offset, placed.grapheme) ∈ graphemes) :
    List.Forall₂ (Alike graphemes) (row.flatMap (Placed.cells special left width))
      (row.flatMap (Placed.cells false left width)) := by
  induction row with
  | nil => exact .nil
  | cons placed row ih =>
    rw [flatMap_cons, flatMap_cons]
    exact rel_append (alike_cells special (members placed mem_cons_self))
      (ih fun other member => members other (mem_cons_of_mem _ member))

theorem alike_getElem? {one other : List Cell}
    (alike : List.Forall₂ (Alike graphemes) one other) {k offset : Nat} {text : Str}
    (plain : Ordinary graphemes offset) :
    one[k]? = some (.first offset text) ↔ other[k]? = some (.first offset text) := by
  induction alike generalizing k with
  | nil => exact Iff.rfl
  | @cons first second _ _ same _ ih =>
    cases k with
    | succ k => exact ih
    | zero =>
      rcases same with rfl | apart
      · exact Iff.rfl
      · have both := apart offset text plain
        simp only [getElem?_cons_zero, Option.some.injEq]
        exact iff_of_false both.1 both.2

/-- The decorations with special characters left as they are. -/
def RowDecor.unmarked (decor : RowDecor) : RowDecor := { decor with specialChars := false }

theorem alike_expected :
    List.Forall₂ (Alike (script.graphemeIndices line)) (expected script left width decor line)
      (expected script left width decor.unmarked line) := by
  have shown : List.Forall₂ (Alike (script.graphemeIndices line))
      (((columns script left width decor line).drop left).take width)
      (((columns script left width decor.unmarked line).drop left).take width) :=
    forall₂_take _ (forall₂_drop _ (alike_flatMap _ layout_member))
  have lengths := shown.length_eq
  simp only [expected, ← lengths]
  exact rel_append shown (forall₂_same.mpr fun cell _ => .inl rfl)

end Special

section Claim

variable (script : Script) (left width : Nat) (decor : RowDecor) (line : Str)

/-- A window that keeps the columns of its line. -/
structure Keeps : Prop where
  cells : rendered script left width decor line = expected script left width decor line
  text : (windowParts script left width decor line).flatMap (·.text.bytes) =
    (windowTiles script left width decor line).flatMap (·.text.bytes)
  printable : ∀ part ∈ windowParts script left width decor line, Printable part.text
  special : ∀ (k offset : Nat) (text : Str), Ordinary (script.graphemeIndices line) offset →
    ((rendered script left width decor line)[k]? = some (Cell.first offset text) ↔
      (rendered script left width decor.unmarked line)[k]? = some (Cell.first offset text))
  fits : (rendered script left width decor line).length ≤ width

/-- A special character without a column starts inside the window and is shown. -/
def Shifts : Prop :=
  ∃ placed ∈ layout script 0 (script.graphemeIndices line), Shifted decor.specialChars left width
    placed

variable {script left width decor line}

theorem rendered_length : (rendered script left width decor line).length ≤ width := by
  obtain ⟨count, bound⟩ :=
    @tilesFrom_length script left width decor 0 0 (script.graphemeIndices line) (Nat.zero_le _)
  rw [rendered, windowTiles]
  simp only
  split
  case isFalse => omega
  case isTrue trails_ =>
    rw [flatMap_append, length_append]
    simp only [trails, Option.any_eq_true, decide_eq_true_eq] at trails_
    obtain ⟨_, _, _, _, room⟩ := trails_
    simp only [flatMap_cons, flatMap_nil, Tile.cells, append_nil, length_singleton]
    omega

theorem rendered_eq (safe : ¬ Shifts script left width decor line) :
    rendered script left width decor line = expected script left width decor line := by
  have good : ∀ placed ∈ layout script 0 (script.graphemeIndices line),
      ¬ Shifted decor.specialChars left width placed := fun placed member shifted =>
      safe ⟨placed, member, shifted⟩
  have cells := @tilesFrom_cells script left width decor 0 0 _ (by omega) good
  obtain ⟨count, _⟩ := @tilesFrom_length script left width decor 0 0 (script.graphemeIndices line)
    (Nat.zero_le _)
  rw [Nat.sub_zero, Nat.sub_zero] at cells
  rw [Nat.zero_add, cells] at count
  rw [rendered, windowTiles, expected, columns]
  simp only [← count]
  split
  · rw [flatMap_append, cells]
    rfl
  · rw [cells, append_nil]

/-- A window keeps the columns exactly where no special character without a column is shown inside
it. -/
theorem keeps_iff (segments : Segments script) (whole : '\n' ∉ decode line.bytes) :
    Keeps script left width decor line ↔ ¬ Shifts script left width decor line := by
  constructor
  · rintro keeps ⟨placed, member, shifted⟩
    obtain ⟨found, there, none_, text, drawn⟩ := @tilesFrom_shifted script left width decor 0 0 _
      (by omega) ⟨placed, member, shifted⟩
    have inside : Cell.first found.offset text ∈ rendered script left width decor line := by
      rw [rendered, windowTiles]
      simp only
      split
      · rw [flatMap_append]
        exact mem_append_left _ drawn
      · exact drawn
    rw [keeps.cells, expected] at inside
    have column : Cell.first found.offset text ∈ columns script left width decor line := by
      rcases mem_append.mp inside with shown | blank
      · exact mem_of_mem_drop (mem_of_mem_take shown)
      · split at blank
        · cases mem_singleton.mp blank
        · cases blank
    obtain ⟨other, there', same, wide⟩ := first_mem_columns column
    have distinct : ((layout script 0 (script.graphemeIndices line)).map (·.offset)).Nodup := by
      rw [layout_offsets]
      exact segments.apart line
    have equal := inj_on_of_nodup_map distinct there' there same
    exact wide (equal ▸ none_)
  · intro safe
    have plain : ¬ Shifts script left width decor.unmarked line := by
      rintro ⟨_, _, on, _⟩
      cases on
    refine ⟨rendered_eq safe, windowParts_bytes line, windowParts_printable segments whole, ?_,
      rendered_length⟩
    intro k offset text ordinary
    rw [rendered_eq safe, rendered_eq plain]
    exact alike_getElem? alike_expected ordinary

/-- Every character a grapheme of one cell, but the zero-width space, which takes none. -/
def plainScript : Script where
  graphemeIndices line := ((List.range line.len).filter (isCharBoundary line.bytes)).map fun offset =>
    (offset, .ofChars (charAt line.bytes offset).toList)
  width grapheme := if grapheme = .ofChars ['\u200b'] then 0 else 1
  isAlphanumeric := Char.isAlphanum
  isWhitespace := Char.isWhitespace

theorem plainScript_segments : Segments plainScript where
  alone line _ indexed member c inside _ := by
    obtain ⟨offset, _, rfl⟩ := List.mem_map.mp member
    simp only [show ∀ chars, (Str.ofChars chars).bytes = encode chars from fun _ =>
      rfl, decode_encode, Option.mem_toList] at inside
    rw [inside]
    rfl
  apart line := by
    have offsets : (plainScript.graphemeIndices line).map (·.1) =
        (List.range line.len).filter (isCharBoundary line.bytes) := by
      rw [plainScript, map_map]
      exact map_id _
    rw [offsets]
    exact nodup_range.filter _

/-- Special characters shown, and nothing else on the row. -/
def showing : RowDecor :=
  { selected := none, alsoSelected := [], carets := [], scopes := [], marks := [], specialChars := true }

theorem keeps_iff_tab :
    Keeps plainScript 0 5 showing (.ofChars ['a', '\t', 'b']) ↔
      ¬ Shifts plainScript 0 5 showing (.ofChars ['a', '\t', 'b']) :=
  keeps_iff plainScript_segments (by decide)

/-- A zero-width space is drawn in a cell, and moves the character behind it. -/
theorem not_keeps_zero_width :
    ¬ ∀ (script : Script) (left width : Nat) (decor : RowDecor) (line : Str), Segments script →
      '\n' ∉ decode line.bytes → Keeps script left width decor line := by
  intro all
  have keeps := all plainScript 0 3 showing (.ofChars ['a', '\u200b', 'b']) plainScript_segments
    (by decide)
  exact absurd keeps.cells (by decide +kernel)

end Claim

end ForgeNode.View
