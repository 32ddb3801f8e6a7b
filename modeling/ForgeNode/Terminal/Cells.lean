import ForgeNode.Terminal.Grid
import Mathlib.Tactic.Common

/-! Compact wire encoding for the terminal viewport: a row as runs of cells that share a style. -/

namespace ForgeNode.Terminal.Cells

open List

inductive Color where
  | default
  | indexed (index : UInt8)
  | rgb (red green blue : UInt8)
  deriving DecidableEq

/-- Per-cell rendering flags packed into a bitset. -/
abbrev CellFlags := UInt16

namespace CellFlags

def inverse : CellFlags := (1 : UInt16) <<< (3 : UInt16)
def hidden : CellFlags := (1 : UInt16) <<< (6 : UInt16)
/-- Leading cell of a wide grapheme. -/
def wideChar : CellFlags := (1 : UInt16) <<< (7 : UInt16)
/-- Continuation cell of a wide grapheme; carries no text. -/
def wideSpacer : CellFlags := (1 : UInt16) <<< (8 : UInt16)

end CellFlags

def contains (flags other : CellFlags) : Bool := flags &&& other == other

/-- One terminal cell with the grapheme it shows. -/
structure Cell where
  text : List Char
  fg : Color
  bg : Color
  flags : CellFlags
  deriving DecidableEq

/-- Wire sentinels of the terminal's default colours. -/
def colorFg : Int := -1
def colorBg : Int := -2

def colorRgb : Nat := 1 <<< 24

def wireColor (color : Color) (default : Int) : Int :=
  match color with
  | .default => default
  | .indexed index => index.toNat
  | .rgb red green blue =>
    (colorRgb ||| (red.toNat <<< 16) ||| (green.toNat <<< 8) ||| blue.toNat : Nat)

/-- Foreground, background and flags as the canvas paints them. -/
structure Style where
  fg : Int
  bg : Int
  flags : CellFlags
  deriving DecidableEq

/-- The wire style of one cell, with an inversion resolved by swapping the slots. -/
def cellStyle (cell : Cell) : Style :=
  if contains cell.flags CellFlags.inverse then
    ⟨wireColor cell.bg colorBg, wireColor cell.fg colorFg, cell.flags⟩
  else ⟨wireColor cell.fg colorFg, wireColor cell.bg colorBg, cell.flags⟩

/-- One run of adjacent cells that share a style. -/
structure WireRun where
  text : List Char
  cols : Nat
  style : Style
  deriving DecidableEq

structure WireRow where
  wrapped : Bool
  runs : List WireRun
  deriving DecidableEq

structure RunBuilder where
  runs : List WireRun
  text : List Char
  style : Option Style
  cols : Nat

namespace RunBuilder

def flush (builder : RunBuilder) : RunBuilder :=
  match builder.style with
  | none => builder
  | some style =>
    { runs := if builder.cols > 0 then builder.runs ++ [⟨builder.text, builder.cols, style⟩] else builder.runs
      text := []
      style := none
      cols := 0 }

/-- Hidden text still occupies its columns; it is blanked, not dropped. -/
def paintedText (cell : Cell) : List Char :=
  if contains cell.flags CellFlags.hidden || cell.text.isEmpty then [' '] else cell.text

def isWide (cell : Cell) : Bool := contains cell.flags CellFlags.wideChar

def isSpacer (cell : Cell) : Bool := contains cell.flags CellFlags.wideSpacer

def push (builder : RunBuilder) (cell : Cell) : RunBuilder :=
  let style := cellStyle cell
  let wide := isWide cell
  let builder := if wide || builder.style != some style then builder.flush else builder
  let builder := { builder with
    text := builder.text ++ paintedText cell
    style := some style
    cols := builder.cols + if wide then 2 else 1 }
  if wide then builder.flush else builder

/-- A row of untouched default cells travels as no runs at all. -/
def finish (builder : RunBuilder) : List WireRun :=
  match builder.flush.runs with
  | [run] => if run.style = ⟨colorFg, colorBg, 0⟩ ∧ run.text.all (· == ' ') then [] else [run]
  | runs => runs

end RunBuilder

open RunBuilder

def pushCell (builder : RunBuilder) (cell : Cell) : RunBuilder :=
  if isSpacer cell then builder else builder.push cell

/-- Encode one row into style runs. -/
def encodeRow (row : Row Cell) : WireRow :=
  ⟨row.wrapped, (row.cells.foldl pushCell ⟨[], [], none, 0⟩).finish⟩

/-- The cells that the conversion of an engine's row leaves, `wrapped` where it folds into the next
row: each wide cell stands before its spacer, and a leading spacer in the last column before a
fold. -/
inductive Laid (wrapped : Bool) : List Cell → Prop where
  | nil : Laid wrapped []
  | narrow {cell : Cell} {rest : List Cell} (single : isWide cell = false)
      (own : isSpacer cell = false) (laid : Laid wrapped rest) : Laid wrapped (cell :: rest)
  | wide {cell spacer : Cell} {rest : List Cell} (double : isWide cell = true)
      (own : isSpacer cell = false) (taken : isSpacer spacer = true) (laid : Laid wrapped rest) :
        Laid wrapped (cell :: spacer :: rest)
  | leading {spacer : Cell} (folds : wrapped = true) (spaced : isSpacer spacer = true) : Laid
      wrapped [spacer]

/-- The last cell is a spacer of a wide grapheme that has gone to the next row. -/
def LeadingSpacer : List Cell → Prop
  | [] => False
  | [cell] => isSpacer cell = true
  | cell :: next :: rest => if isWide cell then LeadingSpacer rest else LeadingSpacer (next :: rest)

/-- The style of every column: a wide cell gives its own to both of its columns. -/
def columns : List Cell → List Style
  | [] => []
  | [cell] => [cellStyle cell]
  | cell :: next :: rest =>
    if isWide cell then cellStyle cell :: cellStyle cell :: columns rest else cellStyle cell ::
      columns (next :: rest)

/-- What the cells show, hidden or empty ones blanked; a wide cell shows for its spacer. -/
def shown : List Cell → List Char
  | [] => []
  | [cell] => paintedText cell
  | cell :: next :: rest =>
    if isWide cell then paintedText cell ++ shown rest else paintedText cell ++ shown (next :: rest)

/-- The columns of runs with their styles. -/
def expand (runs : List WireRun) : List Style := runs.flatMap fun run =>
    List.replicate run.cols run.style

/-- An unstyled cell that shows nothing. -/
def Blank (cell : Cell) : Prop :=
  cell.fg = .default ∧ cell.bg = .default ∧ cell.flags = 0 ∧ ∀ c ∈ cell.text, c = ' '

/-- The runs of a row show all of its columns as its cells have them; no run stands for a blank row
alone. -/
def Covers (row : Row Cell) (encoded : WireRow) : Prop :=
  (encoded.runs = [] → ∀ cell ∈ row.cells, Blank cell) ∧
    (encoded.runs ≠ [] → expand encoded.runs = columns row.cells ∧ (columns row.cells).length =
      row.cells.length ∧ encoded.runs.flatMap (·.text) = shown row.cells)

namespace RunBuilder

variable {builder : RunBuilder} {cell : Cell}

/-- A run is open only with columns in it. -/
def Sound (builder : RunBuilder) : Prop :=
  (builder.style = none → builder.cols = 0 ∧ builder.text = []) ∧ ∀ style, builder.style =
    some style → 0 < builder.cols

/-- The columns of the finished runs and of the open one. -/
def total (builder : RunBuilder) : List Style :=
  expand builder.runs ++ builder.style.toList.flatMap (List.replicate builder.cols)

def spelled (builder : RunBuilder) : List Char := builder.runs.flatMap (·.text) ++ builder.text

theorem flush_spec (sound : builder.Sound) : builder.flush.style = none ∧ builder.flush.Sound ∧
    builder.flush.total = builder.total ∧ builder.flush.spelled = builder.spelled := by
  unfold flush
  cases open_ : builder.style with
  | none => exact ⟨open_, sound, rfl, rfl⟩
  | some style =>
    have more := sound.2 style open_
    refine ⟨rfl, ⟨fun _ => ⟨rfl, rfl⟩, by simp⟩, ?_, ?_⟩
    · simp [total, expand, open_, more]
    · simp [spelled, more]

/-- A cell adds its columns and its text. -/
theorem push_spec (sound : builder.Sound) (cell : Cell) : (builder.push cell).Sound ∧
    (builder.push cell).total = builder.total ++ List.replicate (if isWide cell then 2 else 1)
    (cellStyle cell) ∧ (builder.push cell).spelled = builder.spelled ++ paintedText cell := by
  obtain ⟨closed, flushed, columns, text⟩ := flush_spec sound
  -- Before a cell joins, the open run is of its style, or there is none.
  obtain ⟨base, same, steady, first, second, fits⟩ : ∃ base : RunBuilder,
      base = (if isWide cell || builder.style != some (cellStyle cell) then builder.flush
      else builder) ∧ base.Sound ∧
        base.total = builder.total ∧ base.spelled = builder.spelled ∧
        (base.style = none ∨ base.style = some (cellStyle cell)) := by
    refine ⟨_, rfl, ?_⟩
    split_ifs with breaks
    · exact ⟨flushed, columns, text, .inl closed⟩
    · simp only [Bool.or_eq_true, bne_iff_ne, ne_eq, not_or, not_not] at breaks
      exact ⟨sound, rfl, rfl, .inr breaks.2⟩
  let joined : RunBuilder := { base with
    text := base.text ++ paintedText cell
    style := some (cellStyle cell)
    cols := base.cols + if isWide cell then 2 else 1 }
  have pushed : builder.push cell = if isWide cell then joined.flush else joined := by
    simp only [push, ← same, joined]
  have whole : joined.Sound := by
    refine ⟨by simp [joined], fun style _ => ?_⟩
    simp only [joined]
    split_ifs <;> omega
  have total_ : joined.total = builder.total ++ List.replicate (if isWide cell then 2 else 1)
      (cellStyle cell) := by
    have shape : joined.total =
        expand base.runs ++ List.replicate (base.cols + if isWide cell then 2 else 1)
        (cellStyle cell) := by
      simp only [total, joined, Option.toList_some, flatMap_cons, flatMap_nil, append_nil]
    rw [← first, shape, replicate_add, ← append_assoc, total]
    rcases fits with none_ | some_
    · rw [none_, (steady.1 none_).1]
      rfl
    · rw [some_, Option.toList_some, flatMap_singleton]
  have spelled_ : joined.spelled = builder.spelled ++ paintedText cell := by
    rw [← second]
    simp [spelled, joined]
  rw [pushed]
  split_ifs
  · obtain ⟨_, ended, last, tail⟩ := flush_spec whole
    exact ⟨ended, last.trans (by rw [total_, if_pos ‹_›]), tail.trans spelled_⟩
  · exact ⟨whole, by rw [total_, if_neg ‹_›], spelled_⟩

end RunBuilder

variable {wrapped : Bool} {cells : List Cell} {builder : RunBuilder}

/-- The row's cells add their columns, all but a leading spacer its own. -/
theorem fold_spec (laid : Laid wrapped cells) (sound : builder.Sound) :
    (cells.foldl pushCell builder).Sound ∧
    (¬ LeadingSpacer cells → (cells.foldl pushCell builder).total = builder.total ++ columns cells ∧
      (cells.foldl pushCell builder).spelled = builder.spelled ++ shown cells) ∧
    (LeadingSpacer cells → (cells.foldl pushCell builder).total.length + 1 = builder.total.length +
      cells.length) := by
  induction laid generalizing builder with
  | nil => exact ⟨sound, fun _ => by simp [columns, shown], fun never => never.elim⟩
  | @narrow cell rest single own _ ih =>
    obtain ⟨pushed, total_, spelled_⟩ := push_spec sound cell
    have step : pushCell builder cell = builder.push cell := by
      simp only [pushCell, own, Bool.false_eq_true, if_false]
    have lead : LeadingSpacer (cell :: rest) ↔ LeadingSpacer rest := by
      cases rest with
      | nil => simp [LeadingSpacer, own]
      | cons next rest => simp [LeadingSpacer, single]
    have columns_ : columns (cell :: rest) = cellStyle cell :: columns rest := by
      cases rest with
      | nil => rfl
      | cons next rest => simp [columns, single]
    have shown_ : shown (cell :: rest) = paintedText cell ++ shown rest := by
      cases rest with
      | nil => simp [shown]
      | cons next rest => simp [shown, single]
    simp only [single, Bool.false_eq_true, if_false] at total_
    rw [foldl_cons, step, lead, columns_, shown_]
    obtain ⟨steady, full, short⟩ := ih pushed
    refine ⟨steady, fun plain => ?_, fun leading => ?_⟩
    · rw [(full plain).1, (full plain).2, total_, spelled_]
      simp
    · rw [short leading, total_]
      simp
      omega
  | @wide cell spacer rest double own taken _ ih =>
    obtain ⟨pushed, total_, spelled_⟩ := push_spec sound cell
    have step : pushCell (pushCell builder cell) spacer = builder.push cell := by
      simp only [pushCell, own, taken, Bool.false_eq_true, if_false, if_true]
    simp only [double, if_true] at total_
    obtain ⟨steady, full, short⟩ := ih pushed
    rw [foldl_cons, foldl_cons, step]
    simp only [LeadingSpacer, columns, shown, double, if_true]
    refine ⟨steady, fun plain => ?_, fun leading => ?_⟩
    · rw [(full plain).1, (full plain).2, total_, spelled_]
      simp [List.replicate]
    · rw [short leading, total_]
      simp
      omega
  | @leading spacer _ spaced =>
    have step : pushCell builder spacer = builder := by simp only [pushCell, spaced, if_true]
    rw [foldl_cons, step]
    exact ⟨sound, fun plain => absurd spaced plain, fun _ => by simp⟩

theorem columns_length (laid : Laid wrapped cells) : (columns cells).length = cells.length := by
  induction laid with
  | nil => rfl
  | @narrow cell rest single _ _ ih =>
    cases rest with
    | nil => rfl
    | cons next rest => simpa [columns, single] using ih
  | wide double _ _ _ ih => simpa [columns, double] using ih
  | leading _ _ => rfl

theorem LeadingSpacer.spacer (laid : Laid wrapped cells) (leading : LeadingSpacer cells) :
    ∃ cell ∈ cells, isSpacer cell = true := by
  induction laid with
  | nil => exact leading.elim
  | @narrow cell rest single own _ ih =>
    cases rest with
    | nil => exact ⟨cell, mem_cons_self, leading⟩
    | cons next rest =>
      simp only [LeadingSpacer, single, Bool.false_eq_true, if_false] at leading
      obtain ⟨found, within, spaced⟩ := ih leading
      exact ⟨found, mem_cons_of_mem _ within, spaced⟩
  | @wide cell spacer rest _ _ taken _ _ =>
    exact ⟨spacer, mem_cons_of_mem _ mem_cons_self, taken⟩
  | @leading spacer _ spaced => exact ⟨spacer, mem_cons_self, spaced⟩

theorem wireColor_neg {color : Color} {slot : Int} (negative : wireColor color slot < 0) :
    color = .default := by
  cases color with
  | default => rfl
  | indexed | rgb =>
    simp only [wireColor] at negative
    omega

/-- A cell painted as the terminal's backdrop is a blank one. -/
theorem blank_of_painted {cell : Cell} (style : cellStyle cell = ⟨colorFg, colorBg, 0⟩)
    (text : ∀ c ∈ paintedText cell, c = ' ') : Blank cell := by
  have flags : cell.flags = 0 := by
    have same := congrArg Style.flags style
    unfold cellStyle at same
    split_ifs at same <;> exact same
  have upright : contains cell.flags CellFlags.inverse = false := by
    rw [flags]
    decide
  have seen : contains cell.flags CellFlags.hidden = false := by
    rw [flags]
    decide
  simp only [cellStyle, upright, Bool.false_eq_true, if_false, Style.mk.injEq] at style
  refine ⟨@wireColor_neg _ colorFg ?_, @wireColor_neg _ colorBg ?_, flags, ?_⟩
  · rw [style.1]
    decide
  · rw [style.2.1]
    decide
  · intro c within
    apply text
    have some_ : cell.text.isEmpty = false := by
      cases empty : cell.text with
      | nil =>
        rw [empty] at within
        cases within
      | cons _ _ => rfl
    simpa only [paintedText, seen, some_, Bool.or_self, Bool.false_eq_true, if_false] using within

theorem blank_of_columns (laid : Laid wrapped cells) (plain : ¬ LeadingSpacer cells)
    (styles : ∀ style ∈ columns cells, style = ⟨colorFg, colorBg, 0⟩)
    (text : ∀ c ∈ shown cells, c = ' ') : ∀ cell ∈ cells, Blank cell := by
  induction laid with
  | nil => simp
  | @narrow cell rest single own _ ih =>
    cases rest with
    | nil =>
      intro other within
      obtain rfl := mem_singleton.mp within
      exact blank_of_painted (styles _ mem_cons_self) text
    | cons next rest =>
      simp only [LeadingSpacer, columns, shown, single, Bool.false_eq_true, if_false, mem_cons,
        mem_append] at plain styles text
      intro other within
      rcases mem_cons.mp within with rfl | later
      · exact blank_of_painted (styles _ (.inl rfl)) fun c there => text c (.inl there)
      · exact ih plain (fun style there => styles style (.inr there)) (fun c there =>
          text c (.inr there)) other later
  | @wide cell spacer rest double _ _ _ _ =>
    have style := styles (cellStyle cell) (by simp [columns, double])
    have flags : cell.flags = 0 := by
      have same := congrArg Style.flags style
      unfold cellStyle at same
      split_ifs at same <;> exact same
    rw [isWide, flags] at double
    exact absurd double (by decide)
  | leading _ spaced => exact absurd spaced plain

theorem finish_cases (builder : RunBuilder) : builder.finish = builder.flush.runs ∨
    builder.finish = [] ∧ ∃ run, builder.flush.runs = [run] ∧ run.style = ⟨colorFg, colorBg, 0⟩ ∧
    ∀ c ∈ run.text, c = ' ' := by
  unfold finish
  split
  · rename_i run only
    split_ifs with blank
    · exact .inr ⟨rfl, run, only, blank.1, by simpa using blank.2⟩
    · exact .inl only.symm
  · exact .inl rfl

/-- The runs that a row comes to, before a blank row's are dropped. -/
theorem encodeRow_runs {row : Row Cell} (laid : Laid row.wrapped row.cells) : ∃ runs,
    ((encodeRow row).runs = runs ∨ (encodeRow row).runs = [] ∧
      ∃ run, runs = [run] ∧ run.style = ⟨colorFg, colorBg, 0⟩ ∧ ∀ c ∈ run.text, c = ' ') ∧
    (¬ LeadingSpacer row.cells → expand runs = columns row.cells ∧ runs.flatMap (·.text) =
      shown row.cells) ∧
    (LeadingSpacer row.cells → (expand runs).length + 1 = row.cells.length) := by
  have fresh : (⟨[], [], none, 0⟩ : RunBuilder).Sound := ⟨fun _ => ⟨rfl, rfl⟩, by simp⟩
  obtain ⟨sound, full, short⟩ := fold_spec laid fresh
  obtain ⟨closed, flushed, total_, spelled_⟩ := flush_spec sound
  have all : expand (row.cells.foldl pushCell ⟨[], [], none, 0⟩).flush.runs =
      (row.cells.foldl pushCell ⟨[], [], none, 0⟩).total := by
    rw [← total_, total, closed, Option.toList_none, flatMap_nil, append_nil]
  have text : (row.cells.foldl pushCell ⟨[], [], none, 0⟩).flush.runs.flatMap (·.text) =
      (row.cells.foldl pushCell ⟨[], [], none, 0⟩).spelled := by
    rw [← spelled_, spelled, (flushed.1 closed).2, append_nil]
  refine ⟨_, finish_cases _, fun plain => ?_, fun leading => ?_⟩
  · rw [all, text]
    exact full plain
  · rw [all, short leading]
    exact Nat.zero_add _

/-- The runs of a row cover the grid unless the row ends in the spacer of a grapheme that went to
the next one. -/
theorem covers_iff (row : Row Cell) (laid : Laid row.wrapped row.cells) :
    Covers row (encodeRow row) ↔ ¬ LeadingSpacer row.cells := by
  obtain ⟨runs, ends, full, short⟩ := encodeRow_runs laid
  have length := columns_length laid
  constructor
  · rintro ⟨blank, covered⟩ leading
    by_cases none_ : (encodeRow row).runs = []
    · obtain ⟨cell, within, spaced⟩ := leading.spacer laid
      obtain ⟨_, _, flags, _⟩ := blank none_ cell within
      rw [isSpacer, flags] at spaced
      exact absurd spaced (by decide)
    · obtain ⟨same, _⟩ := covered none_
      rcases ends with whole | ⟨dropped, _⟩
      · have missing := short leading
        rw [← whole, same] at missing
        omega
      · exact none_ dropped
  · intro plain
    obtain ⟨styles, text⟩ := full plain
    constructor
    · intro none_
      apply blank_of_columns laid plain
      · rw [← styles]
        rcases ends with whole | ⟨_, run, only, style, _⟩
        · rw [← whole, none_]
          simp [expand]
        · intro painted within
          rw [only, expand, flatMap_singleton] at within
          exact (eq_of_mem_replicate within).trans style
      · rw [← text]
        rcases ends with whole | ⟨_, run, only, _, spaces⟩
        · rw [← whole, none_]
          simp
        · rw [only, flatMap_singleton]
          exact spaces
    · intro some_
      rcases ends with whole | ⟨dropped, _⟩
      · rw [whole]
        exact ⟨styles, length, text⟩
      · exact absurd dropped some_

/-- A letter. -/
private def letter : Cell := ⟨['a'], .default, .default, 0⟩

/-- A letter, a coloured wide grapheme before its spacer, a hidden letter and a blank. -/
private def mixed : List Cell :=
  [letter, ⟨['漢'], .indexed 2, .default, CellFlags.wideChar⟩, ⟨[], .indexed 2, .default,
    CellFlags.wideSpacer⟩, ⟨['x'], .rgb 1 2 3, .default, CellFlags.hidden⟩,
    ⟨[], .default, .default, 0⟩]

private theorem laid_mixed : Laid false mixed :=
  .narrow rfl rfl (.wide rfl rfl rfl (.narrow rfl rfl (.narrow rfl rfl .nil)))

theorem covers_mixed : Covers ⟨mixed, false⟩ (encodeRow ⟨mixed, false⟩) ∧
    (encodeRow ⟨mixed, false⟩).runs.map (·.cols) = [1, 2, 1, 1] :=
  ⟨(covers_iff _ laid_mixed).mpr (fun spaced => by cases show false = true from spaced), by decide⟩

/-- Of a letter and a leading spacer in the last column before a fold, one column is shown. -/
theorem not_covers_leading :
    Laid true [letter, ⟨[], .default, .default, CellFlags.wideSpacer⟩] ∧
      ¬ Covers ⟨[letter, ⟨[], .default, .default, CellFlags.wideSpacer⟩], true⟩
        (encodeRow ⟨[letter, ⟨[], .default, .default, CellFlags.wideSpacer⟩], true⟩) := by
  refine ⟨.narrow rfl rfl (.leading rfl rfl), fun covers => ?_⟩
  have some_ : (encodeRow ⟨[letter, ⟨[], .default, .default, CellFlags.wideSpacer⟩], true⟩).runs ≠
      [] := by decide
  have expanded := congrArg List.length (covers.2 some_).1
  exact absurd expanded (by decide)

end ForgeNode.Terminal.Cells
