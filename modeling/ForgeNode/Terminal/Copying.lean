import ForgeNode.Lib.Chars
import ForgeNode.Terminal.Cells
import Mathlib.Data.List.DropRight

/-! Copying a selection: rows joined into their logical lines, and the blanks at the end of each. -/

namespace ForgeNode.Terminal.Copying

open List
open Cells (Cell)
open Cells.RunBuilder (isSpacer)

def maxSelectionRows : Int := 5000

def maxSelectionBytes : Nat := 8 * 1024 * 1024

def tooManyRows : String := "Selection is too large to copy. Select at most 5000 lines."

def uncached : String := "Some selected history is no longer cached. Select a smaller range."

def tooManyBytes : String := "Selection is too large to copy (8 MiB limit)."

/-- A row and a column. -/
abbrev Point := Int × Nat

def Point.before (first second : Point) : Bool :=
  first.1 < second.1 || (first.1 == second.1 && first.2 ≤ second.2)

def bytes (text : List Char) : Nat := (Utf8.encode text).length

/-- `str::trim_end`. -/
def trimEnd (blank : Char → Bool) (text : List Char) : List Char := text.rdropWhile blank

/-- What the loop has copied. -/
structure Copied where
  text : List Char
  hasLine : Bool
  /-- Whether the row last appended continues into the next one. -/
  wrapped : Bool

variable {Cursor TermModes : Type}

/-- The row at an offset from the top of the viewport. -/
def rowAt (grid : CellGrid Cell Cursor TermModes) (line : Int) : Option (Row Cell) :=
  if line < 0 then grid.scrollbackRow line else grid.visible[line.toNat]?

/-- The columns of a row that are selected, or none. -/
def span (start stop : Point) (line : Int) (row : Row Cell) : Option (Nat × Nat) :=
  let lastCell := row.cells.length - 1
  let first := if line = start.1 then start.2 else 0
  let last := if line = stop.1 then min stop.2 lastCell else lastCell
  if first > last ∨ first ≥ row.cells.length then none else some (first, last)

def pushCell (text : List Char) (cell : Cell) : Except String (List Char) :=
  if isSpacer cell then .ok text
  else if bytes cell.text > maxSelectionBytes - bytes text then .error tooManyBytes
  else .ok (text ++ cell.text)

/-- Start a line, unless the row continues one. -/
def openLine (copied : Copied) : Except String (List Char) :=
  if copied.hasLine && !copied.wrapped then
    if bytes copied.text = maxSelectionBytes then .error tooManyBytes else .ok (copied.text ++ ['\n'])
  else .ok copied.text

/-- Append one row of the selection. -/
def copyRow (blank : Char → Bool) (grid : CellGrid Cell Cursor TermModes) (start stop : Point)
    (lastLine : Int) (copied : Copied) (line : Int) : Except String Copied :=
  match rowAt grid line with
  | none => .error uncached
  | some row =>
    match span start stop line row with
    | none => .ok copied
    | some (first, last) => do
      let text ← openLine copied
      let rowStart := text.length
      let text ← ((row.cells.take (last + 1)).drop first).foldlM pushCell text
      let text := if line = lastLine ∨ !row.wrapped then text.take rowStart ++ trimEnd blank
        (text.drop rowStart)
        else text
      .ok ⟨text, true, row.wrapped⟩

/-- The rows of a selection, clamped to the history and to the screen. -/
def firstLine (grid : CellGrid Cell Cursor TermModes) (start : Point) : Int :=
  max start.1 (-(min grid.scrollbackLen i64Max : Nat))

def lastLine (grid : CellGrid Cell Cursor TermModes) (stop : Point) : Int :=
  min stop.1 (grid.visible.length - 1)

/-- `first..=last`, by how many lines it has. -/
def linesFrom (first : Int) : Nat → List Int
  | 0 => []
  | count + 1 => first :: linesFrom (first + 1) count

/-- The endpoints of a selection in order. -/
def ordered (anchor head : Point) :
    Point × Point := if anchor.before head then (anchor, head) else (head, anchor)

def selectedLines (grid : CellGrid Cell Cursor TermModes) (ends : Point × Point) : List Int :=
  linesFrom (firstLine grid ends.1) (lastLine grid ends.2 - firstLine grid ends.1 + 1).toNat

/-- The text a dragged range copies. -/
def selectionText (blank : Char → Bool) (grid : CellGrid Cell Cursor TermModes)
    (anchor head : Point) : Except String (List Char) :=
  let ends := ordered anchor head
  let first := firstLine grid ends.1
  let last := lastLine grid ends.2
  if last < first then .ok []
  else if last - first ≥ maxSelectionRows then .error tooManyRows
  else
    ((selectedLines grid ends).foldlM (copyRow blank grid ends.1 ends.2 last)
      ⟨[], false, false⟩).map (·.text)

section Lines

variable (blank : Char → Bool)

/-- What is selected of one row. -/
structure Piece where
  text : List Char
  selected : Bool
  wrapped : Bool

def cellsText (cells : List Cell) : List Char :=
  (cells.filter fun cell => !isSpacer cell).flatMap Cell.text

def pieceOf (start stop : Point) (line : Int) (row : Row Cell) : Piece :=
  match span start stop line row with
  | none => ⟨[], false, row.wrapped⟩
  | some (first, last) => ⟨cellsText ((row.cells.take (last + 1)).drop first), true, row.wrapped⟩

/-- Rows in their maximal chains: each but the last one of a chain goes on in the row under it. -/
def chains : List Piece → List (List Piece)
  | [] => []
  | piece :: rest =>
    if piece.wrapped then
      match chains rest with
      | [] => [[piece]]
      | chain :: more => (piece :: chain) :: more
    else [piece] :: chains rest

def chainText (chain : List Piece) : List Char := chain.flatMap Piece.text

/-- The logical lines with a selected cell, each without the blanks at its end. -/
def logicalLines (pieces : List Piece) : List (List Char) :=
  ((chains pieces).filter fun chain => chain.any Piece.selected).map fun chain =>
    trimEnd blank (chainText chain)

/-- Lines with a newline between each two. -/
def joined : List (List Char) → List Char
  | [] => []
  | [line] => line
  | line :: rest => line ++ '\n' :: joined rest

/-- A chain whose last row shows something, or whose rows before that end in no blank. -/
def Tidy (chain : List Piece) : Prop :=
  ∀ front last, chain = front ++ [last] → trimEnd blank last.text = [] →
    trimEnd blank (chainText front) = chainText front

/-- A row without a selected cell goes on, and to a row with one, where the row before it with one
goes on. -/
def Flows : Bool → List Piece → Prop
  | _, [] => True
  | inside, piece :: rest =>
    if piece.selected then Flows piece.wrapped rest
    else (inside = false ∨ piece.wrapped = true ∧ ∃ later ∈ rest, later.selected = true) ∧
      Flows inside rest

/-- What the rows come to, each trimmed where it stops its chain. -/
def output : Bool → List Piece → List Char
  | _, [] => []
  | fresh, piece :: rest =>
    if piece.selected then
      (if fresh then ['\n'] else []) ++
        (if rest.isEmpty || !piece.wrapped then trimEnd blank piece.text else piece.text) ++
        output (!piece.wrapped) rest
    else output fresh rest

/-- What the rows come to untrimmed. -/
def raw : Bool → List Piece → List Char
  | _, [] => []
  | fresh, piece :: rest =>
    if piece.selected then (if fresh then ['\n'] else []) ++ piece.text ++ raw (!piece.wrapped) rest
    else raw fresh rest

end Lines

section Loop

variable {blank : Char → Bool} {grid : CellGrid Cell Cursor TermModes} {start stop : Point}

theorem bytes_append (front back : List Char) :
    bytes (front ++ back) = bytes front + bytes back := by
  unfold bytes
  rw [Utf8.encode_append, length_append]

theorem bytes_trimEnd_le (text : List Char) : bytes (trimEnd blank text) ≤ bytes text := by
  obtain ⟨rest, whole⟩ := rdropWhile_prefix blank text
  have size := congrArg bytes whole
  rw [bytes_append] at size
  unfold trimEnd
  omega

theorem cellsText_cons (cell : Cell) (cells : List Cell) :
    cellsText (cell :: cells) = (if isSpacer cell then [] else cell.text) ++ cellsText cells := by
  unfold cellsText
  cases spacer : isSpacer cell with
  | true => rw [filter_cons_of_neg (by simp [spacer])]; rfl
  | false => rw [filter_cons_of_pos (by simp [spacer])]; rfl

theorem pushCells_ok {cells : List Cell} {text after : List Char}
    (pushed : cells.foldlM pushCell text = .ok after) : after = text ++ cellsText cells ∧
    (bytes text ≤ maxSelectionBytes → bytes after ≤ maxSelectionBytes) := by
  induction cells generalizing text with
  | nil =>
    obtain rfl := Except.ok.inj pushed
    exact ⟨(append_nil _).symm, id⟩
  | cons cell cells ih =>
    rw [foldlM_cons] at pushed
    rw [cellsText_cons]
    cases spacer : isSpacer cell with
    | true =>
      simp only [pushCell, spacer, if_true] at pushed
      exact ih pushed
    | false =>
      simp only [pushCell, spacer, Bool.false_eq_true, if_false] at pushed
      split_ifs at pushed with long
      · cases pushed
      · obtain ⟨same, fits⟩ := ih pushed
        refine ⟨by rw [same, append_assoc]; rfl, fun short => fits ?_⟩
        rw [bytes_append]
        omega

theorem pushCells_fits {cells : List Cell} {text : List Char}
    (fits : bytes text + bytes (cellsText cells) ≤ maxSelectionBytes) :
    cells.foldlM pushCell text = .ok (text ++ cellsText cells) := by
  induction cells generalizing text with
  | nil => exact congrArg Except.ok (append_nil _).symm
  | cons cell cells ih =>
    rw [cellsText_cons, bytes_append] at fits
    rw [foldlM_cons, cellsText_cons]
    cases spacer : isSpacer cell with
    | true =>
      simp only [pushCell, spacer, if_true] at fits ⊢
      refine ih ?_
      omega
    | false =>
      simp only [spacer, Bool.false_eq_true, if_false] at fits
      simp only [pushCell, spacer, Bool.false_eq_true, if_false]
      rw [if_neg (by omega)]
      refine (ih ?_).trans ?_
      · rw [bytes_append]
        omega
      · rw [append_assoc]

variable {copied next : Copied} {line last : Int} {row : Row Cell}

/-- What one row adds. -/
def added (blank : Char → Bool) (copied : Copied) (ends : Bool) (piece : Piece) : Copied :=
  if piece.selected then
    ⟨copied.text ++ ((if copied.hasLine && !copied.wrapped then ['\n'] else []) ++
      (if ends || !piece.wrapped then trimEnd blank piece.text else piece.text)), true, piece.wrapped⟩
  else copied

theorem copyRow_ok (step : copyRow blank grid start stop last copied line = .ok next) : ∃ row,
    rowAt grid line = some row ∧ next = added blank copied (line = last)
    (pieceOf start stop line row) ∧
      (bytes copied.text ≤ maxSelectionBytes → bytes next.text ≤ maxSelectionBytes) := by
  unfold copyRow at step
  cases found : rowAt grid line with
  | none =>
    rw [found] at step
    cases step
  | some row =>
    refine ⟨row, rfl, ?_⟩
    simp only [found] at step
    unfold pieceOf
    cases columns : span start stop line row with
    | none =>
      simp only [columns] at step
      obtain rfl := Except.ok.inj step
      exact ⟨rfl, id⟩
    | some ends =>
      obtain ⟨first, final⟩ := ends
      simp only [columns] at step
      cases opened : openLine copied with
      | error message =>
        rw [opened] at step
        cases step
      | ok text =>
        rw [opened] at step
        have open_ : text = copied.text ++ (if copied.hasLine && !copied.wrapped then ['\n']
            else []) ∧ (bytes copied.text ≤ maxSelectionBytes → bytes text ≤ maxSelectionBytes) := by
          unfold openLine at opened
          split_ifs at opened with fresh full
          · obtain rfl := Except.ok.inj opened
            rw [if_pos fresh]
            refine ⟨rfl, fun short => ?_⟩
            have one : bytes ['\n'] = 1 := by decide
            rw [bytes_append, one]
            omega
          · obtain rfl := Except.ok.inj opened
            rw [if_neg fresh, append_nil]
            exact ⟨rfl, id⟩
        cases pushed : ((row.cells.take (final + 1)).drop first).foldlM pushCell text with
        | error message =>
          simp only [bind, Except.bind, pushed] at step
          cases step
        | ok after =>
          simp only [bind, Except.bind, pushed] at step
          obtain rfl := Except.ok.inj step
          obtain ⟨same, fits⟩ := pushCells_ok pushed
          have trimmed : bytes (if line = last ∨ !row.wrapped then
              after.take text.length ++ trimEnd blank (after.drop text.length) else after) ≤
                bytes after := by
            split_ifs
            · rw [same, take_left, drop_left, bytes_append, bytes_append]
              have less := @bytes_trimEnd_le blank
                (cellsText ((row.cells.take (final + 1)).drop first))
              omega
            · exact Nat.le_refl _
          refine ⟨?_, fun short => Nat.le_trans trimmed (fits (open_.2 short))⟩
          unfold added
          rw [if_pos rfl, same, take_left, drop_left, open_.1]
          simp only [append_assoc, Bool.or_eq_true, decide_eq_true_eq]
          split_ifs <;> rfl

theorem copyRow_fits (found : rowAt grid line = some row)
    (fits : (pieceOf start stop line row).selected = true →
      bytes copied.text + bytes (if copied.hasLine && !copied.wrapped then ['\n'] else []) +
        bytes (pieceOf start stop line row).text ≤ maxSelectionBytes) :
    ∃ next, copyRow blank grid start stop last copied line = .ok next := by
  unfold copyRow
  simp only [found]
  unfold pieceOf at fits
  cases columns : span start stop line row with
  | none => exact ⟨copied, rfl⟩
  | some ends =>
    obtain ⟨first, final⟩ := ends
    simp only [columns, forall_const] at fits ⊢
    have one : bytes ['\n'] = 1 := by decide
    have opened : openLine copied =
        .ok (copied.text ++ if copied.hasLine && !copied.wrapped then ['\n'] else []) := by
      unfold openLine
      split_ifs at fits ⊢ with fresh full
      · omega
      · rfl
      · rw [append_nil]
    rw [opened]
    rw [← bytes_append] at fits
    simp only [bind, Except.bind, pushCells_fits fits]
    exact ⟨_, rfl⟩

/-- What is selected of the rows that are cached. -/
def pieces (grid : CellGrid Cell Cursor TermModes) (start stop : Point) (lines : List Int) :
    List Piece :=
  lines.filterMap fun line => (rowAt grid line).map (pieceOf start stop line)

theorem pieces_cons {lines : List Int} (found : rowAt grid line = some row) :
    pieces grid start stop (line :: lines) = pieceOf start stop line row ::
      pieces grid start stop lines :=
  filterMap_cons_some (by rw [found]; rfl)

theorem pieces_isEmpty {lines : List Int}
    (cached : ∀ line ∈ lines, ∃ row, rowAt grid line = some row) :
    (pieces grid start stop lines).isEmpty = lines.isEmpty := by
  cases lines with
  | nil => rfl
  | cons line rest =>
    obtain ⟨row, found⟩ := cached line mem_cons_self
    rw [pieces_cons found]
    rfl

theorem linesFrom_isEmpty (first : Int) (count : Nat) :
    (linesFrom first count).isEmpty = decide (count = 0) := by
  cases count <;> rfl

theorem added_output {fresh : Bool} {piece : Piece} {rest : List Piece}
    (same : fresh = (copied.hasLine && !copied.wrapped)) :
    (added blank copied rest.isEmpty piece).text ++
      output blank ((added blank copied rest.isEmpty piece).hasLine &&
      !(added blank copied rest.isEmpty piece).wrapped) rest = copied.text ++
        output blank fresh (piece :: rest) := by
  subst same
  cases selected : piece.selected with
  | true => simp only [added, output, selected, if_true, Bool.true_and, append_assoc]
  | false => simp only [added, output, selected, Bool.false_eq_true, if_false]

/-- What the loop copies, where it ends well. -/
theorem run_ok {first : Int} {count : Nat} (ends : last = first + count - 1)
    (run : (linesFrom first count).foldlM (copyRow blank grid start stop last) copied = .ok next) :
    (∀ line ∈ linesFrom first count, ∃ row, rowAt grid line = some row) ∧
      next.text = copied.text ++ output blank (copied.hasLine && !copied.wrapped)
        (pieces grid start stop (linesFrom first count)) ∧
      (bytes copied.text ≤ maxSelectionBytes → bytes next.text ≤ maxSelectionBytes) := by
  induction count generalizing first copied with
  | zero =>
    obtain rfl := Except.ok.inj run
    exact ⟨fun _ never => absurd never not_mem_nil, (append_nil _).symm, id⟩
  | succ count ih =>
    rw [linesFrom, foldlM_cons] at run
    cases step : copyRow blank grid start stop last copied first with
    | error message =>
      rw [step] at run
      cases run
    | ok between =>
      rw [step] at run
      obtain ⟨row, found, rfl, fits⟩ := copyRow_ok step
      obtain ⟨cached, text, later⟩ := ih (by omega) run
      refine ⟨?_, ?_, later ∘ fits⟩
      · intro line there
        rcases mem_cons.mp there with rfl | rest
        · exact ⟨row, found⟩
        · exact cached line rest
      · have stops : decide (first = last) =
            (pieces grid start stop (linesFrom (first + 1) count)).isEmpty := by
          rw [pieces_isEmpty cached, linesFrom_isEmpty]
          exact decide_eq_decide.mpr (by omega)
        rw [text, linesFrom, pieces_cons found, stops]
        exact added_output rfl

theorem added_raw_le {ends : Bool} {piece : Piece} {rest : List Piece} :
    bytes (added blank copied ends piece).text +
    bytes (raw ((added blank copied ends piece).hasLine &&
      !(added blank copied ends piece).wrapped) rest) ≤
      bytes copied.text + bytes (raw (copied.hasLine && !copied.wrapped) (piece :: rest)) := by
  have less := @bytes_trimEnd_le blank piece.text
  have shorter : bytes (if ends || !piece.wrapped then trimEnd blank piece.text else piece.text) ≤
      bytes piece.text := by
    split_ifs
    · exact less
    · exact Nat.le_refl _
  cases selected : piece.selected with
  | true =>
    simp only [added, raw, selected, if_true, Bool.true_and, bytes_append]
    omega
  | false => simp only [added, raw, selected, Bool.false_eq_true, if_false, Nat.le_refl]

/-- The loop ends well where every row is cached and the text fits untrimmed. -/
theorem run_fits {first : Int} {count : Nat}
    (cached : ∀ line ∈ linesFrom first count, ∃ row, rowAt grid line = some row)
    (fits : bytes copied.text + bytes (raw (copied.hasLine && !copied.wrapped)
      (pieces grid start stop (linesFrom first count))) ≤ maxSelectionBytes) :
    ∃ next, (linesFrom first count).foldlM (copyRow blank grid start stop last) copied =
      .ok next := by
  induction count generalizing first copied with
  | zero => exact ⟨copied, rfl⟩
  | succ count ih =>
    obtain ⟨row, found⟩ := cached first mem_cons_self
    rw [linesFrom, pieces_cons found] at fits
    have here : (pieceOf start stop first row).selected = true →
        bytes copied.text + bytes (if copied.hasLine && !copied.wrapped then ['\n'] else []) +
          bytes (pieceOf start stop first row).text ≤ maxSelectionBytes := by
      intro selected
      simp only [raw, selected, if_true, bytes_append] at fits
      omega
    obtain ⟨next, step⟩ := @copyRow_fits _ _ blank _ _ _ _ _ last _ found here
    obtain ⟨row', found', same, _⟩ := copyRow_ok step
    obtain rfl := Option.some.inj (found.symm.trans found')
    subst same
    rw [linesFrom, foldlM_cons, step]
    exact ih (fun line there => cached line (mem_cons_of_mem _ there))
      (Nat.le_trans added_raw_le fits)

end Loop

section Chains

variable {blank : Char → Bool} {list rest : List Piece} {piece : Piece}

theorem trimEnd_append (front back : List Char) : trimEnd blank (front ++ back) =
    if trimEnd blank back = [] then trimEnd blank front else front ++ trimEnd blank back := by
  unfold trimEnd List.rdropWhile
  rw [reverse_append, dropWhile_append]
  simp only [List.isEmpty_iff, reverse_eq_nil_iff]
  split_ifs
  · rfl
  · rw [reverse_append, reverse_reverse]

theorem joined_cons (line : List Char) {lines : List (List Char)} (some_ : lines ≠ []) :
    joined (line :: lines) = line ++ '\n' :: joined lines := by
  cases lines with
  | nil => exact absurd rfl some_
  | cons other rest => rfl

theorem joined_prepend (front line : List Char) (lines : List (List Char)) :
    joined ((front ++ line) :: lines) = front ++ joined (line :: lines) := by
  cases lines with
  | nil => rfl
  | cons other rest =>
    rw [joined_cons _ (cons_ne_nil _ _), joined_cons _ (cons_ne_nil _ _), append_assoc]

theorem chains_eq_nil : chains list = [] ↔ list = [] := by
  cases list with
  | nil => exact ⟨fun _ => rfl, fun _ => rfl⟩
  | cons piece rest =>
    unfold chains
    split_ifs
    · split <;> simp
    · simp

theorem mem_chains {chain : List Piece} (there : chain ∈ chains list) :
    chain ≠ [] ∧ ∀ piece ∈ chain, piece ∈ list := by
  induction list generalizing chain with
  | nil => exact absurd there not_mem_nil
  | cons piece rest ih =>
    unfold chains at there
    split_ifs at there
    · split at there
      · obtain rfl := mem_singleton.mp there
        exact ⟨cons_ne_nil _ _, fun other listed => mem_singleton.mp listed ▸ mem_cons_self⟩
      · rename_i first more shape
        rcases mem_cons.mp there with rfl | later
        · have inner := ih (shape ▸ mem_cons_self)
          refine ⟨cons_ne_nil _ _, fun other listed => ?_⟩
          rcases mem_cons.mp listed with rfl | below
          · exact mem_cons_self
          · exact mem_cons_of_mem _ (inner.2 other below)
        · have inner := ih (shape ▸ mem_cons_of_mem _ later)
          exact ⟨inner.1, fun other listed => mem_cons_of_mem _ (inner.2 other listed)⟩
    · rcases mem_cons.mp there with rfl | later
      · exact ⟨cons_ne_nil _ _, fun other listed => mem_singleton.mp listed ▸ mem_cons_self⟩
      · have inner := ih later
        exact ⟨inner.1, fun other listed => mem_cons_of_mem _ (inner.2 other listed)⟩

/-- A line as it is copied: its last row alone is trimmed. -/
def copiedLine (blank : Char → Bool) : List Piece → List Char
  | [] => []
  | [piece] => trimEnd blank piece.text
  | piece :: rest => piece.text ++ copiedLine blank rest

theorem copiedLine_cons (some_ : rest ≠ []) :
    copiedLine blank (piece :: rest) = piece.text ++ copiedLine blank rest := by
  cases rest with
  | nil => exact absurd rfl some_
  | cons other rest => rfl

theorem chains_wrapped {chain : List Piece} {more : List (List Piece)}
    (wraps : piece.wrapped = true) (shape : chains rest = chain :: more) :
    chains (piece :: rest) = (piece :: chain) :: more := by
  rw [chains, if_pos wraps, shape]

theorem chains_stop (stops : piece.wrapped = false) :
    chains (piece :: rest) = [piece] :: chains rest := by
  rw [chains, if_neg (by rw [stops]; exact Bool.false_ne_true)]

/-- Rows with selected cells come to their lines. -/
theorem output_chains (selected : ∀ piece ∈ list, piece.selected = true) (some_ : list ≠ [])
    (fresh : Bool) : output blank fresh list = (if fresh then ['\n'] else []) ++
      joined ((chains list).map (copiedLine blank)) := by
  induction list generalizing fresh with
  | nil => exact absurd rfl some_
  | cons piece rest ih =>
    have here := selected piece mem_cons_self
    rw [output, if_pos here, append_assoc]
    congr 1
    cases rest with
    | nil =>
      have alone : chains [piece] = [[piece]] := by
        unfold chains
        split_ifs <;> rfl
      rw [alone]
      simp [output, joined, copiedLine]
    | cons other rest =>
      have later := ih (fun one there => selected one (mem_cons_of_mem _ there)) (cons_ne_nil _ _)
      have nonempty : chains (other :: rest) ≠ [] := fun none_ =>
        cons_ne_nil _ _ (chains_eq_nil.mp none_)
      rw [later]
      cases wraps : piece.wrapped with
      | true =>
        cases shape : chains (other :: rest) with
        | nil => exact absurd shape nonempty
        | cons first more =>
          have kept := (mem_chains (shape ▸ mem_cons_self)).1
          rw [chains_wrapped wraps shape]
          simp only [isEmpty_cons, Bool.not_true, Bool.or_self, Bool.false_eq_true, if_false,
            map_cons, copiedLine_cons kept, joined_prepend, nil_append]
      | false =>
        have lines : (chains (other :: rest)).map (copiedLine blank) ≠ [] := fun none_ =>
          nonempty (map_eq_nil_iff.mp none_)
        rw [chains_stop wraps, map_cons, joined_cons _ lines]
        rfl

theorem copiedLine_concat (front : List Piece) (last : Piece) :
    copiedLine blank (front ++ [last]) = chainText front ++ trimEnd blank last.text := by
  induction front with
  | nil => rfl
  | cons piece rest ih =>
    rw [cons_append, copiedLine_cons (by simp), ih]
    exact (append_assoc _ _ _).symm

theorem chainText_concat (front : List Piece) (last : Piece) :
    chainText (front ++ [last]) = chainText front ++ last.text := by
  unfold chainText
  rw [flatMap_append, flatMap_singleton]

/-- A line is copied trimmed exactly when it is tidy, and with blanks left at its end otherwise. -/
theorem copiedLine_iff (some_ : list ≠ []) :
    (copiedLine blank list = trimEnd blank (chainText list) ↔ Tidy blank list) ∧
      trimEnd blank (chainText list) <+: copiedLine blank list := by
  obtain ⟨front, last, rfl⟩ : ∃ front last, list = front ++ [last] :=
    ⟨_, _, (dropLast_append_getLast some_).symm⟩
  rw [copiedLine_concat, chainText_concat, trimEnd_append]
  split_ifs with empty
  · rw [empty, append_nil]
    refine ⟨⟨fun same front' last' shape _ => ?_, fun tidy => (tidy front last rfl empty).symm⟩,
      rdropWhile_prefix _ _⟩
    obtain ⟨rfl, _⟩ := append_inj' shape rfl
    exact same.symm
  · refine ⟨⟨fun _ front' last' shape none_ => ?_, fun _ => rfl⟩, prefix_rfl⟩
    obtain ⟨_, same⟩ := append_inj' shape rfl
    rw [singleton_inj.mp same] at empty
    exact absurd none_ empty

theorem joined_length {ι : Type} {items : List ι} {long short : ι → List Char}
    (shorter : ∀ item ∈ items, (short item).length ≤ (long item).length) :
    (joined (items.map short)).length ≤ (joined (items.map long)).length ∧
      ((joined (items.map short)).length = (joined (items.map long)).length →
        ∀ item ∈ items, (short item).length = (long item).length) := by
  induction items with
  | nil => exact ⟨Nat.le_refl _, fun _ _ never => absurd never not_mem_nil⟩
  | cons item rest ih =>
    have here := shorter item mem_cons_self
    obtain ⟨less, same⟩ := ih fun other there => shorter other (mem_cons_of_mem _ there)
    cases rest with
    | nil =>
      refine ⟨here, fun equal other there => ?_⟩
      rw [mem_singleton.mp there]
      exact equal
    | cons next rest =>
      have first : (joined ((item :: next :: rest).map short)).length =
          (short item).length + ((joined ((next :: rest).map short)).length + 1) := by
        rw [map_cons, joined_cons _ (by simp), length_append, length_cons]
      have second : (joined ((item :: next :: rest).map long)).length =
          (long item).length + ((joined ((next :: rest).map long)).length + 1) := by
        rw [map_cons, joined_cons _ (by simp), length_append, length_cons]
      rw [first, second]
      refine ⟨by omega, fun equal other there => ?_⟩
      rcases mem_cons.mp there with rfl | later
      · omega
      · exact same (by omega) other later

theorem joined_iff {ι : Type} {items : List ι} {long short : ι → List Char}
    (within : ∀ item ∈ items, short item <+: long item) :
    joined (items.map long) = joined (items.map short) ↔
    ∀ item ∈ items, long item = short item := by
  constructor
  · intro same item there
    have sizes := (joined_length fun item there => (within item there).length_le).2
      (congrArg List.length same.symm)
    exact ((within item there).eq_of_length (sizes item there)).symm
  · exact fun all => congrArg joined (map_congr_left all)

end Chains

section Copies

variable (blank : Char → Bool) (grid : CellGrid Cell Cursor TermModes) (anchor head : Point)

/-- What is selected of each row, from the first one to the last. -/
def selection : List Piece :=
  pieces grid (ordered anchor head).1 (ordered anchor head).2
    (selectedLines grid (ordered anchor head))

/-- Every row of the selection is cached. -/
def Cached : Prop := ∀ line ∈ selectedLines grid (ordered anchor head), ∃ row, rowAt grid line =
    some row

/-- The selection is in the limit of rows. -/
def Few : Prop := ((selectedLines grid (ordered anchor head)).length : Int) ≤ maxSelectionRows

/-- A copy is the same from either end; it is the selection's logical lines, each trimmed at its
end, or an error; and it is no error where every row is cached and the limits are kept. -/
structure Copies : Prop where
  symmetric : selectionText blank grid anchor head = selectionText blank grid head anchor
  whole : ∀ text, selectionText blank grid anchor head = .ok text → Cached grid anchor head ∧
    Few grid anchor head ∧ bytes text ≤ maxSelectionBytes ∧
      text = joined (logicalLines blank (selection grid anchor head))
  answered : Cached grid anchor head → Few grid anchor head →
    bytes (raw false (selection grid anchor head)) ≤ maxSelectionBytes →
    ∃ text, selectionText blank grid anchor head = .ok text

/-- No row without a selected cell stops a line that a soft-wrapped row began. -/
def Flowing : Prop := Flows false (selection grid anchor head)

/-- The rows with selected cells, in their chains, each tidy. -/
def TidyChains : Prop := ∀ chain ∈ chains ((selection grid anchor head).filter Piece.selected),
    Tidy blank chain

variable {blank grid anchor head}

theorem ordered_comm (anchor head : Point) : ordered anchor head = ordered head anchor := by
  obtain ⟨row, column⟩ := anchor
  obtain ⟨row', column'⟩ := head
  unfold ordered Point.before
  simp only [Bool.or_eq_true, Bool.and_eq_true, decide_eq_true_eq, beq_iff_eq]
  split_ifs with one other
  · have same : row = row' := by omega
    have same' : column = column' := by omega
    rw [same, same']
  · rfl
  · rfl
  · omega

theorem length_linesFrom (first : Int) (count : Nat) : (linesFrom first count).length = count := by
  induction count generalizing first with
  | zero => rfl
  | succ count ih => exact congrArg Nat.succ (ih (first + 1))

/-- What is copied is what the rows come to. -/
theorem selectionText_ok {text : List Char}
    (copied : selectionText blank grid anchor head = .ok text) :
    Cached grid anchor head ∧ Few grid anchor head ∧ bytes text ≤ maxSelectionBytes ∧
      text = output blank false (selection grid anchor head) := by
  unfold selectionText at copied
  simp only at copied
  have positive : (0 : Int) ≤ maxSelectionRows := by decide
  unfold Cached Few selection selectedLines
  rw [length_linesFrom]
  split_ifs at copied with none_ many
  · obtain rfl := Except.ok.inj copied
    have empty : (lastLine grid (ordered anchor head).2 - firstLine grid (ordered anchor head).1 +
        1).toNat = 0 := by
      omega
    rw [empty]
    exact ⟨fun _ never => absurd never not_mem_nil, positive, Nat.zero_le _, rfl⟩
  · cases run : (selectedLines grid (ordered anchor head)).foldlM
        (copyRow blank grid (ordered anchor head).1 (ordered anchor head).2
        (lastLine grid (ordered anchor head).2))
        ⟨[], false, false⟩ with
    | error message =>
      rw [run] at copied
      cases copied
    | ok next =>
      rw [run] at copied
      obtain rfl := Except.ok.inj copied
      obtain ⟨cached, same, fits⟩ := run_ok (by omega) run
      exact ⟨cached, by omega, fits (Nat.zero_le _), same⟩

theorem selectionText_fits (cached : Cached grid anchor head) (few : Few grid anchor head)
    (fits : bytes (raw false (selection grid anchor head)) ≤ maxSelectionBytes) :
    ∃ text, selectionText blank grid anchor head = .ok text := by
  unfold selectionText
  simp only
  unfold Few selectedLines at few
  rw [length_linesFrom] at few
  by_cases none_ : lastLine grid (ordered anchor head).2 < firstLine grid (ordered anchor head).1
  · exact ⟨[], if_pos none_⟩
  rw [if_neg none_, if_neg (by omega)]
  obtain ⟨next, run⟩ := @run_fits _ _ blank grid (ordered anchor head).1 (ordered anchor head).2
    ⟨[], false, false⟩ (lastLine grid (ordered anchor head).2) _ _ cached (by
      simp only [Bool.false_and]
      have none_ : bytes [] = 0 := rfl
      rw [none_, Nat.zero_add]
      exact fits)
  refine ⟨next.text, ?_⟩
  unfold selectedLines
  rw [run]
  rfl

theorem text_of_unselected {piece : Piece} (there : piece ∈ selection grid anchor head)
    (outside : piece.selected = false) : piece.text = [] := by
  obtain ⟨line, _, found⟩ := mem_filterMap.mp there
  obtain ⟨row, _, rfl⟩ := Option.map_eq_some_iff.mp found
  unfold pieceOf at outside ⊢
  split at outside
  · rfl
  · cases outside

/-- Chains by whether a cell of theirs is selected and by their texts. -/
def marked (list : List Piece) : List (Bool × List Char) :=
  (chains list).map fun chain => (chain.any Piece.selected, chainText chain)

theorem marked_stop {piece : Piece} {rest : List Piece} (stops : piece.wrapped = false) :
    marked (piece :: rest) = (piece.selected, piece.text) :: marked rest := by
  unfold marked
  rw [chains_stop stops]
  simp [chainText]

theorem marked_last {piece : Piece} : marked [piece] = [(piece.selected, piece.text)] := by
  unfold marked chains
  split_ifs <;> simp [chainText, chains]

theorem marked_wrapped {piece : Piece} {rest : List Piece} {some_ : Bool} {text : List Char}
    {more : List (Bool × List Char)} (wraps : piece.wrapped = true)
    (shape : marked rest = (some_, text) :: more) :
    marked (piece :: rest) = (piece.selected || some_, piece.text ++ text) :: more := by
  unfold marked at shape ⊢
  cases inner : chains rest with
  | nil =>
    rw [inner] at shape
    cases shape
  | cons chain later =>
    rw [inner] at shape
    obtain ⟨first, rfl⟩ := List.cons.inj shape
    obtain ⟨rfl, rfl⟩ := Prod.mk.inj first
    rw [chains_wrapped wraps inner]
    simp [chainText]

theorem marked_eq_nil {list : List Piece} : marked list = [] ↔ list = [] := by
  unfold marked
  rw [map_eq_nil_iff, chains_eq_nil]

/-- Where the rows flow, those without a selected cell count for nothing. -/
theorem marked_filter {list : List Piece} (blanks : ∀ piece ∈ list, piece.selected = false →
      piece.text = [])
    {inside : Bool} (flows : Flows inside list) :
    (marked list).filter Prod.fst = marked (list.filter Piece.selected) ∧
      (inside = true → list ≠ [] → ∃ text more, marked list = (true, text) :: more) := by
  induction list generalizing inside with
  | nil => exact ⟨rfl, fun _ never => absurd rfl never⟩
  | cons piece rest ih =>
    have later : ∀ other ∈ rest, other.selected = false → other.text = [] := fun other there =>
      blanks other (mem_cons_of_mem _ there)
    unfold Flows at flows
    cases here : piece.selected with
    | true =>
      rw [if_pos here] at flows
      obtain ⟨same, head⟩ := ih later flows
      rw [filter_cons_of_pos here]
      cases wraps : piece.wrapped with
      | false =>
        rw [marked_stop wraps, marked_stop wraps, here, filter_cons_of_pos rfl, same]
        exact ⟨rfl, fun _ _ => ⟨_, _, rfl⟩⟩
      | true =>
        by_cases none_ : rest = []
        · rw [none_, filter_nil, marked_last, here]
          exact ⟨rfl, fun _ _ => ⟨_, _, rfl⟩⟩
        · obtain ⟨text, more, shape⟩ := head wraps none_
          rw [shape, filter_cons_of_pos rfl] at same
          rw [marked_wrapped wraps shape, marked_wrapped wraps same.symm, here,
            filter_cons_of_pos rfl]
          exact ⟨rfl, fun _ _ => ⟨_, _, rfl⟩⟩
    | false =>
      have unselected : ¬piece.selected = true := Bool.eq_false_iff.mp here
      rw [if_neg unselected] at flows
      obtain ⟨goes, flows⟩ := flows
      obtain ⟨same, head⟩ := ih later flows
      rw [filter_cons_of_neg unselected, ← same]
      have text := blanks piece mem_cons_self here
      cases wraps : piece.wrapped with
      | false =>
        rw [marked_stop wraps, here, filter_cons_of_neg Bool.false_ne_true]
        refine ⟨rfl, fun within _ => ?_⟩
        rcases goes with outside | on
        · rw [within] at outside
          cases outside
        · rw [wraps] at on
          cases on.1
      | true =>
        cases shape : marked rest with
        | nil =>
          rw [marked_eq_nil.mp shape, marked_last, here, filter_cons_of_neg Bool.false_ne_true]
          refine ⟨rfl, fun within _ => ?_⟩
          rcases goes with outside | on
          · rw [within] at outside
            cases outside
          · rw [marked_eq_nil.mp shape] at on
            obtain ⟨_, never, _⟩ := on.2
            cases never
        | cons first more =>
          obtain ⟨some_, line⟩ := first
          rw [marked_wrapped wraps shape, here, text, Bool.false_or, nil_append]
          refine ⟨rfl, fun within _ => ?_⟩
          have nonempty : rest ≠ [] := fun none_ => by
            rw [marked_eq_nil.mpr none_] at shape
            cases shape
          obtain ⟨text', more', shape'⟩ := head within nonempty
          exact ⟨text', more', shape.symm.trans shape'⟩

theorem output_filter {list : List Piece} {inside : Bool} (flows : Flows inside list)
    (fresh : Bool) : output blank fresh list = output blank fresh (list.filter Piece.selected) := by
  induction list generalizing inside fresh with
  | nil => rfl
  | cons piece rest ih =>
    unfold Flows at flows
    cases here : piece.selected with
    | true =>
      rw [if_pos here] at flows
      rw [filter_cons_of_pos here, output, output, if_pos here, if_pos here, ih flows]
      have ends : (rest.isEmpty || !piece.wrapped) = ((rest.filter Piece.selected).isEmpty ||
          !piece.wrapped) := by
        cases wraps : piece.wrapped with
        | false => rw [Bool.not_false, Bool.or_true, Bool.or_true]
        | true =>
          cases rest with
          | nil => rfl
          | cons next more =>
            rw [wraps] at flows
            unfold Flows at flows
            obtain ⟨later, there, selected⟩ : ∃ later ∈ next :: more, later.selected = true := by
              split_ifs at flows with selected
              · exact ⟨next, mem_cons_self, selected⟩
              · rcases flows.1 with never | ⟨_, later, there, selected⟩
                · cases never
                · exact ⟨later, mem_cons_of_mem _ there, selected⟩
            have kept : (next :: more).filter Piece.selected ≠ [] :=
              ne_nil_of_mem (mem_filter.mpr ⟨there, selected⟩)
            rw [isEmpty_eq_false_iff.mpr kept]
            rfl
      rw [ends]
    | false =>
      have unselected : ¬piece.selected = true := Bool.eq_false_iff.mp here
      rw [if_neg unselected] at flows
      rw [filter_cons_of_neg unselected, output, if_neg unselected]
      exact ih flows.2 fresh

theorem logicalLines_marked (list : List Piece) :
    logicalLines blank list = ((marked list).filter Prod.fst).map fun chain =>
    trimEnd blank chain.2 := by
  unfold logicalLines marked
  rw [filter_map, map_map]
  rfl

/-- Where the rows flow, what is copied and what is selected are those of the rows with selected
cells. -/
theorem selected_part (flowing : Flowing grid anchor head) :
    output blank false (selection grid anchor head) =
        joined ((chains ((selection grid anchor head).filter Piece.selected)).map
        (copiedLine blank)) ∧
      logicalLines blank (selection grid anchor head) =
        (chains ((selection grid anchor head).filter Piece.selected)).map fun chain =>
          trimEnd blank (chainText chain) := by
  constructor
  · rw [output_filter flowing false]
    by_cases none_ : (selection grid anchor head).filter Piece.selected = []
    · rw [none_]
      rfl
    · exact output_chains (fun piece there => (mem_filter.mp there).2) none_ false
  · rw [logicalLines_marked, (marked_filter (fun piece there => text_of_unselected there) flowing).1]
    unfold marked
    rw [map_map]
    rfl

theorem output_iff (flowing : Flowing grid anchor head) :
    output blank false (selection grid anchor head) =
      joined (logicalLines blank (selection grid anchor head)) ↔
      TidyChains blank grid anchor head := by
  obtain ⟨copied, lines⟩ := @selected_part _ _ blank grid anchor head flowing
  rw [copied, lines, joined_iff fun chain there => (copiedLine_iff (mem_chains there).1).2]
  exact forall₂_congr fun chain there => (copiedLine_iff (mem_chains there).1).1

/-- A selection is copied as its trimmed logical lines where no row without a cell stops a
soft-wrapped line and no chain of soft-wrapped rows ends in a blank row below blanks; and, where the
rows flow, only there. -/
theorem copies_iff (blank : Char → Bool) (grid : CellGrid Cell Cursor TermModes)
    (anchor head : Point) :
    (Flowing grid anchor head → TidyChains blank grid anchor head → Copies blank grid anchor head) ∧
      (Flowing grid anchor head → Cached grid anchor head → Few grid anchor head →
        bytes (raw false (selection grid anchor head)) ≤ maxSelectionBytes →
        (Copies blank grid anchor head ↔ TidyChains blank grid anchor head)) := by
  have enough (flowing : Flowing grid anchor head) (tidy : TidyChains blank grid anchor head) :
      Copies blank grid anchor head := by
    refine ⟨?_, ?_, selectionText_fits⟩
    · unfold selectionText
      rw [ordered_comm]
    · intro text copied
      obtain ⟨cached, few, short, same⟩ := selectionText_ok copied
      exact ⟨cached, few, short, same.trans ((output_iff flowing).mpr tidy)⟩
  refine ⟨enough, fun flowing cached few fits => ⟨fun copies => ?_, enough flowing⟩⟩
  obtain ⟨text, copied⟩ := copies.answered cached few fits
  have same := (selectionText_ok copied).2.2.2
  have whole := (copies.whole text copied).2.2.2
  exact (output_iff flowing).mp (same.symm.trans whole)

end Copies

section Folded

/-- A row of letters. -/
def plain (text : List Char) (wrapped : Bool) : Row Cell :=
  ⟨text.map fun c => ⟨[c], .default, .default, 0⟩, wrapped⟩

/-- Two rows on a screen, the first one going on in the second. -/
def folded (first second : List Char) : CellGrid Cell Unit Unit where
  visible := [plain first true, plain second false]
  scrollbackCache _ := none
  scrollbackLen := 0
  scrollbackGeneration := 0
  cursor := ()
  modes := ()
  lastSeq := 0
  size := ⟨2, first.length⟩
  title := none
  bell := false
  activity := false

theorem copies_iff_folded :
    Copies Char.isWhitespace (folded ['f', 'o', 'o', ' '] ['b', 'a', 'r', ' ']) (0, 0) (1, 3) := by
  have shape : selection (folded ['f', 'o', 'o', ' '] ['b', 'a', 'r', ' ']) (0, 0) (1, 3) =
      [⟨['f', 'o', 'o', ' '], true, true⟩, ⟨['b', 'a', 'r', ' '], true, false⟩] := rfl
  apply (copies_iff Char.isWhitespace (folded ['f', 'o', 'o', ' '] ['b', 'a', 'r', ' ']) (0, 0)
    (1, 3)).1
  · unfold Flowing
    rw [shape]
    exact trivial
  · intro chain there
    rw [shape] at there
    rw [mem_singleton.mp there]
    intro front last split none_
    have same := congrArg List.getLast? split
    rw [getLast?_concat] at same
    obtain rfl := Option.some.inj same
    exact absurd none_ (by decide)

/-- A blank row leaves the blanks of the row that goes on in it. -/
theorem not_copies : selectionText Char.isWhitespace (folded ['a', ' '] [' ', ' ']) (0, 0)
    (1, 1) = .ok ['a', ' '] ∧ ¬Copies Char.isWhitespace (folded ['a', ' '] [' ', ' ']) (0, 0)
    (1, 1) := by
  have copied : selectionText Char.isWhitespace (folded ['a', ' '] [' ', ' ']) (0, 0) (1, 1) =
      .ok ['a', ' '] := rfl
  refine ⟨copied, fun copies => ?_⟩
  have whole := (copies.whole _ copied).2.2.2
  exact absurd whole (by decide)

end Folded

end ForgeNode.Terminal.Copying
