import Mathlib.Algebra.Ring.Int.Defs
import Mathlib.Algebra.Ring.Nat
import Mathlib.Data.List.Basic

/-! Terminal grids: what an engine shows, the snapshots and deltas built from it, and the
replica that a client keeps of it. -/

namespace ForgeNode.Terminal

structure Row (Cell : Type) where
  cells : List Cell
  wrapped : Bool
  deriving DecidableEq

def Row.blank {Cell : Type} [Inhabited Cell] (cols : Nat) : Row Cell :=
  ⟨List.replicate cols default, false⟩

structure PtySize where
  rows : Nat
  cols : Nat
  deriving DecidableEq

/-- Inclusive column bounds of a visible row. -/
structure Bounds where
  line : Nat
  first : Nat
  last : Nat
  deriving DecidableEq

inductive Damage where
  | full
  | partial_ (indices : List Nat)
  | columns (bounds : List Bounds)

/-- A row fragment; `wrapped` is the row's. -/
structure CellPatch (Cell : Type) where
  line : Nat
  first : Nat
  row : Row Cell
  deriving DecidableEq

/-- What a `TerminalEngine` shows between two reads of its damage. -/
structure Engine (Cell Cursor TermModes : Type) where
  seq : Nat
  size : PtySize
  visible : List (Row Cell)
  history : List (Row Cell)
  scrollbackGeneration : Nat
  cursor : Cursor
  modes : TermModes
  title : Option String

structure TerminalSnapshot (Cell Cursor TermModes : Type) where
  seq : Nat
  size : PtySize
  visible : List (Row Cell)
  scrollbackTail : List (Row Cell)
  scrollbackLen : Nat
  scrollbackGeneration : Nat
  cursor : Cursor
  modes : TermModes
  title : Option String

structure TerminalDelta (Cell Cursor TermModes : Type) where
  seq : Nat
  rows : List (Nat × Row Cell)
  patches : List (CellPatch Cell)
  scrollbackLen : Nat
  scrollbackGeneration : Nat
  scrolledLines : Nat
  cursor : Cursor
  modes : TermModes

variable {Cell Cursor TermModes : Type}

namespace Engine

variable (engine : Engine Cell Cursor TermModes)

def scrollbackLen : Nat := engine.history.length

def screenLines : Nat := engine.visible.length

def snapshot (scrollbackTail : Nat) : TerminalSnapshot Cell Cursor TermModes where
  seq := engine.seq
  size := engine.size
  visible := engine.visible
  scrollbackTail := engine.history.drop (engine.history.length - scrollbackTail)
  scrollbackLen := engine.scrollbackLen
  scrollbackGeneration := engine.scrollbackGeneration
  cursor := engine.cursor
  modes := engine.modes
  title := engine.title

variable [Inhabited Cell]

/-- A row by its index: visible ones from 0 on, history below; any other is blank. -/
def row (index : Int) : Row Cell :=
  if index < -engine.history.length then .blank engine.size.cols
  else ((engine.history ++ engine.visible)[(index + engine.history.length).toNat]?).getD
    (.blank engine.size.cols)

def rows (first last : Int) : List (Row Cell) :=
  (List.range (last - first).toNat).map fun (i : Nat) => engine.row (first + i)

/-- Inclusive columns of one row, as far as it has them. -/
def rowSlice (bounds : Bounds) : Row Cell :=
  let row := engine.row bounds.line
  let start := min bounds.first row.cells.length
  let stop := max (min (bounds.last + 1) row.cells.length) start
  { row with cells := (row.cells.take stop).drop start }

end Engine

/-- The scrollback length at the previous snapshot or delta. -/
structure DeltaBuilder where
  lastScrollbackLen : Nat

def u32Max : Nat := 2 ^ 32 - 1

/-- `DeltaBuilder::delta`, where `damage` is what `take_damage` returns. -/
def DeltaBuilder.delta [Inhabited Cell] (builder : DeltaBuilder)
    (engine : Engine Cell Cursor TermModes) (damage : Damage) :
    TerminalDelta Cell Cursor TermModes × DeltaBuilder :=
  let patches := match damage with
    | .columns bounds => bounds.map fun bound => ⟨bound.line, bound.first, engine.rowSlice bound⟩
    | _ => []
  let rows := match damage with
    | .columns _ => []
    | .partial_ indices => indices.filterMap fun (i : Nat) =>
        ((engine.rows i (i + 1)).head?).map fun row => (i, row)
    | .full => (engine.rows 0 engine.screenLines).zipIdx.map fun entry => (entry.2, entry.1)
  (⟨engine.seq, rows, patches, engine.scrollbackLen, engine.scrollbackGeneration,
    min (engine.scrollbackLen - builder.lastScrollbackLen) u32Max, engine.cursor, engine.modes⟩,
    ⟨engine.scrollbackLen⟩)

def maxScrollbackCacheRows : Nat := 5000

def i64Max : Nat := 2 ^ 63 - 1

/-- A passive replica; history is cached by its absolute index. -/
structure CellGrid (Cell Cursor TermModes : Type) where
  visible : List (Row Cell)
  scrollbackCache : Int → Option (Row Cell)
  scrollbackLen : Nat
  scrollbackGeneration : Nat
  cursor : Cursor
  modes : TermModes
  lastSeq : Nat
  size : PtySize
  title : Option String
  bell : Bool
  activity : Bool

inductive DeltaOutcome where
  | applied | stale | needsResync
  deriving DecidableEq

namespace CellGrid

/-- `as i64`. -/
def asI64 (length : Nat) : Int := if length ≤ i64Max then length else (length : Int) - 2 ^ 64

/-- The entries that `seed_scrollback_tail` inserts, with their keys. -/
def seeds (snapshot : TerminalSnapshot Cell Cursor TermModes) : List (Int × Row Cell) :=
  let base := asI64 snapshot.scrollbackLen - snapshot.scrollbackTail.length
  let skip := snapshot.scrollbackTail.length - maxScrollbackCacheRows
  (snapshot.scrollbackTail.zipIdx.drop skip).map fun entry => (base + entry.2, entry.1)

def insertAll (cache : Int → Option (Row Cell)) (entries : List (Int × Row Cell)) :
    Int → Option (Row Cell) :=
  entries.foldl (fun cache entry key => if key = entry.1 then some entry.2 else cache key) cache

def fromSnapshot (snapshot : TerminalSnapshot Cell Cursor TermModes) :
    CellGrid Cell Cursor TermModes where
  visible := snapshot.visible
  scrollbackCache := insertAll (fun _ => none) (seeds snapshot)
  scrollbackLen := snapshot.scrollbackLen
  scrollbackGeneration := snapshot.scrollbackGeneration
  cursor := snapshot.cursor
  modes := snapshot.modes
  lastSeq := snapshot.seq
  size := snapshot.size
  title := snapshot.title
  bell := false
  activity := false

/-- All that the grid held is replaced. -/
def applyResync (grid : CellGrid Cell Cursor TermModes)
    (snapshot : TerminalSnapshot Cell Cursor TermModes) : CellGrid Cell Cursor TermModes :=
  { grid with
    visible := snapshot.visible
    scrollbackCache := insertAll (fun _ => none) (seeds snapshot)
    scrollbackLen := snapshot.scrollbackLen
    scrollbackGeneration := snapshot.scrollbackGeneration
    cursor := snapshot.cursor
    modes := snapshot.modes
    lastSeq := snapshot.seq
    size := snapshot.size
    title := snapshot.title
    bell := false
    activity := false }

/-- The patch lies in a row of the grid. -/
def fits (visible : List (Row Cell)) (patch : CellPatch Cell) : Bool :=
  (visible[patch.line]?).any fun row => patch.first + patch.row.cells.length ≤ row.cells.length

/-- The assignment of one patch; the slice of a row that is too short panics. -/
def patched (visible : List (Row Cell)) (patch : CellPatch Cell) : Option (List (Row Cell)) :=
  if fits visible patch then
    some (visible.modify patch.line fun row =>
      ⟨row.cells.take patch.first ++ patch.row.cells ++
        row.cells.drop (patch.first + patch.row.cells.length), patch.row.wrapped⟩)
  else none

variable (grid : CellGrid Cell Cursor TermModes)

/-- `apply_delta`; none where it panics. -/
def applyDelta (delta : TerminalDelta Cell Cursor TermModes) :
    Option (CellGrid Cell Cursor TermModes × DeltaOutcome) :=
  if delta.seq ≤ grid.lastSeq then some (grid, .stale)
  else if delta.seq > grid.lastSeq + 1 then some (grid, .needsResync)
  else if delta.rows.any fun entry => grid.visible.length ≤ entry.1 then some (grid, .needsResync)
  else if delta.patches.any fun patch => !fits grid.visible patch then some (grid, .needsResync)
  else
    let cache := if delta.scrollbackGeneration ≠ grid.scrollbackGeneration then fun _ => none
      else grid.scrollbackCache
    let replaced := delta.rows.foldl (fun visible entry => visible.set entry.1 entry.2) grid.visible
    (delta.patches.foldlM patched replaced).map fun visible =>
      ({ grid with
        visible
        scrollbackCache := cache
        scrollbackLen := delta.scrollbackLen
        scrollbackGeneration := delta.scrollbackGeneration
        cursor := delta.cursor
        modes := delta.modes
        lastSeq := delta.seq }, .applied)

/-- Cached history at a negative viewport offset. -/
def scrollbackRow (offset : Int) : Option (Row Cell) :=
  if offset ≥ 0 then none
  else if grid.scrollbackLen > i64Max then none
  else grid.scrollbackCache (grid.scrollbackLen + offset)

end CellGrid

end ForgeNode.Terminal
