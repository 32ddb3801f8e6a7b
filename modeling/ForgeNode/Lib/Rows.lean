import ForgeNode.Lib.Splice

/-! Sequences as rows, each but the last ended by its only separator, and edits within rows. -/

namespace ForgeNode.Rows

open List hiding after
open Splice

universe u
variable {α : Type u}

theorem exists_front {list : List α} {index : Nat} {item : α} (here : list[index]? = some item) :
    ∃ front back, list = front ++ item :: back ∧ front.length = index := by
  obtain ⟨inside, same⟩ := List.getElem?_eq_some_iff.mp here
  refine ⟨list.take index, list.drop (index + 1), ?_, ?_⟩
  · rw [← same, getElem_cons_drop, take_append_drop]
  · rw [length_take]
    exact Nat.min_eq_left (Nat.le_of_lt inside)

/-- Each row but the last ends with a separator, and separators stand nowhere else. -/
inductive Rowed (ends : α → Bool) : List (List α) → Prop where
  | last {row : List α} (inside : ∀ item ∈ row, ends item = false) : Rowed ends [row]
  | cons {body : List α} {item : α} {rows : List (List α)} (inside : ∀ other ∈ body,
      ends other = false) (closes : ends item = true) (rest : Rowed ends rows) : Rowed ends
      ((body ++ [item]) :: rows)

theorem Rowed.ne_nil {ends : α → Bool} {rows : List (List α)} (rowed : Rowed ends rows) :
    rows ≠ [] := by
  cases rowed <;> exact cons_ne_nil _ _

theorem Rowed.ended {ends : α → Bool} {row : List α} {rows : List (List α)}
    (rowed : Rowed ends (row :: rows)) (more : rows ≠ []) :
    ∃ body item, row = body ++ [item] ∧ (∀ other ∈ body, ends other = false) ∧
      ends item = true ∧ Rowed ends rows := by
  cases rowed with
  | last inside => exact absurd rfl more
  | cons inside closes rest => exact ⟨_, _, rfl, inside, closes, rest⟩

theorem Rowed.behind {ends : α → Bool} {front back : List (List α)} {row : List α}
    (rowed : Rowed ends (front ++ row :: back)) : Rowed ends (row :: back) := by
  induction front with
  | nil => exact rowed
  | cons first rest ih =>
    obtain ⟨body, item, _, _, _, later⟩ := rowed.ended (by simp)
    exact ih later

/-- Every sequence is made of rows. -/
theorem exists_rowed (ends : α → Bool) (list : List α) :
    ∃ rows, Rowed ends rows ∧ rows.flatten = list := by
  induction list with
  | nil =>
    have none_ : ∀ item ∈ ([] : List α), ends item = false := fun item member => by cases member
    exact ⟨[[]], .last none_, rfl⟩
  | cons item rest ih =>
    obtain ⟨rows, rowed, whole⟩ := ih
    cases closes : ends item with
    | true =>
      have none_ : ∀ other ∈ ([] : List α), ends other = false := fun other member => by cases member
      exact ⟨[item] :: rows, .cons none_ closes rowed, congrArg (item :: ·) whole⟩
    | false =>
      cases rowed with
      | last inside =>
        rename_i row
        exact ⟨[item :: row], .last (forall_mem_cons.mpr ⟨closes, inside⟩), congrArg
          (item :: ·) whole⟩
      | cons inside ended rowed =>
        rename_i body last rows
        exact ⟨(item :: body ++ [last]) :: rows, .cons (forall_mem_cons.mpr ⟨closes, inside⟩) ended
          rowed, congrArg (item :: ·) whole⟩

/-- A row as it is, or with one piece of it exchanged. -/
inductive Row (α : Type u) where
  | kept (items : List α)
  | edited (piece : Piece α) (rest : List α)

namespace Row

def before : Row α → List α
  | kept items => items
  | edited piece rest => piece.gap ++ (piece.removed ++ rest)

def after : Row α → List α
  | kept items => items
  | edited piece rest => piece.gap ++ (piece.inserted ++ rest)

def flip : Row α → Row α
  | kept items => kept items
  | edited piece rest => edited piece.flip rest

/-- An edit leaves something behind it in its row. -/
def Full : Row α → Prop
  | kept _ => True
  | edited _ rest => rest ≠ []

theorem Full.flip {row : Row α} (full : row.Full) : row.flip.Full := by
  cases row <;> exact full

/-- Where a column of the row goes; the ends of the piece go behind what is put in. -/
def column : Row α → Nat → Nat
  | kept _, column => column
  | edited piece _, column =>
    if column < piece.gap.length then column
    else if column ≤ piece.gap.length + piece.removed.length then piece.gap.length +
      piece.inserted.length
    else column + piece.inserted.length - piece.removed.length

@[simp] theorem before_flip (row : Row α) : row.flip.before = row.after := by
  cases row <;> rfl

@[simp] theorem after_flip (row : Row α) : row.flip.after = row.before := by
  cases row <;> rfl

/-- Nothing is taken out. -/
def Inserts : Row α → Prop
  | kept _ => True
  | edited piece _ => piece.removed = []

theorem Inserts.column_flip {row : Row α} (inserts : row.Inserts) (place : Nat) :
    row.flip.column (row.column place) = place := by
  cases row with
  | kept items => rfl
  | edited piece rest =>
    have none_ : piece.removed.length = 0 := length_eq_zero_iff.mpr inserts
    simp only [flip, column, Piece.flip, none_]
    split_ifs <;> omega

theorem Inserts.le_column {row : Row α} (inserts : row.Inserts) (place : Nat) :
    place ≤ row.column place := by
  cases row with
  | kept items => exact Nat.le_refl _
  | edited piece rest =>
    have none_ : piece.removed.length = 0 := length_eq_zero_iff.mpr inserts
    simp only [column, none_]
    split_ifs <;> omega

theorem Inserts.column_le {row : Row α} (inserts : row.Inserts) {place : Nat}
    (inside : place ≤ row.before.length) : row.column place ≤ row.after.length := by
  cases row with
  | kept items => exact inside
  | edited piece rest =>
    have none_ : piece.removed.length = 0 := length_eq_zero_iff.mpr inserts
    simp only [before, length_append, none_] at inside
    simp only [column, after, none_, length_append]
    split_ifs <;> omega

theorem Inserts.column_lt {row : Row α} (inserts : row.Inserts) (full : row.Full) {place : Nat}
    (inside : place < row.before.length) : row.column place < row.after.length := by
  cases row with
  | kept items => exact inside
  | edited piece rest =>
    have none_ : piece.removed.length = 0 := length_eq_zero_iff.mpr inserts
    have some_ : 0 < rest.length := length_pos_iff.mpr full
    simp only [before, length_append, none_] at inside
    simp only [column, after, none_, length_append]
    split_ifs <;> omega

end Row

/-- The edits of the rows, the first of which starts at `at_`. -/
def cuts (at_ : Nat) : List (Row α) → List (Cut α)
  | [] => []
  | .kept items :: rest => cuts (at_ + items.length) rest
  | .edited piece tail :: rest =>
    ⟨at_ + piece.gap.length, at_ + piece.gap.length + piece.removed.length, piece.inserted⟩ ::
      cuts (at_ + piece.gap.length + piece.removed.length + tail.length) rest

theorem le_of_mem_cuts {at_ : Nat} {rows : List (Row α)} {cut : Cut α}
    (member : cut ∈ cuts at_ rows) : at_ ≤ cut.start := by
  induction rows generalizing at_ with
  | nil => cases member
  | cons row rest ih =>
    cases row with
    | kept items => exact Nat.le_trans (Nat.le_add_right _ _) (ih member)
    | edited piece tail =>
      rcases mem_cons.mp member with rfl | later
      · exact Nat.le_add_right _ _
      · have low := ih later
        omega

theorem length_cuts_flip (at_ at' : Nat) (rows : List (Row α)) :
    (cuts at_ (rows.map Row.flip)).length = (cuts at' rows).length := by
  induction rows generalizing at_ at' with
  | nil => rfl
  | cons row rest ih =>
    cases row with
    | kept items => exact ih _ _
    | edited piece tail => exact congrArg (· + 1) (ih _ _)

/-- Splicing the edits of the rows edits each row. -/
theorem splice_cuts (at_ : Nat) (pending : List α) (rows : List (Row α)) :
    splice at_ (pending ++ rows.flatMap Row.before) (cuts (at_ + pending.length) rows) =
      pending ++ rows.flatMap Row.after := by
  induction rows generalizing at_ pending with
  | nil => rfl
  | cons row rest ih =>
    cases row with
    | kept items =>
      have place : at_ + pending.length + items.length = at_ + (pending ++ items).length := by
        rw [length_append]
        omega
      simp only [flatMap_cons, Row.before, Row.after, cuts]
      rw [place, ← append_assoc, ih, append_assoc]
    | edited piece tail =>
      have gap : at_ + pending.length + piece.gap.length - at_ = (pending ++ piece.gap).length := by
        rw [length_append]
        omega
      have covered : at_ + pending.length + piece.gap.length + piece.removed.length - at_ =
          (pending ++ piece.gap ++ piece.removed).length := by
        simp only [length_append]
        omega
      have taken : (pending ++ (piece.gap ++ (piece.removed ++ tail) ++ rest.flatMap Row.before)).take
          (pending ++ piece.gap).length = pending ++ piece.gap := by
        simp only [append_assoc]
        rw [← append_assoc pending, take_left]
      have left : (pending ++ (piece.gap ++ (piece.removed ++ tail) ++ rest.flatMap Row.before)).drop
          (pending ++ piece.gap ++ piece.removed).length = tail ++ rest.flatMap Row.before := by
        have whole : pending ++ (piece.gap ++ (piece.removed ++ tail) ++ rest.flatMap Row.before) =
            (pending ++ piece.gap ++ piece.removed) ++ (tail ++ rest.flatMap Row.before) := by
          simp only [append_assoc]
        rw [whole, drop_left]
      simp only [flatMap_cons, Row.before, Row.after, cuts, splice]
      rw [gap, covered, taken, left, ih]
      simp only [append_assoc]

/-- A column of a row that is not a column of the next one. -/
def Inside (row : Row α) (back : List (Row α)) (column : Nat) : Prop :=
  column < row.before.length ∨ (back = [] ∧ column ≤ row.before.length)

/-- Every place of the sequence stands in one of the rows. -/
theorem exists_inside {rows : List (Row α)} (some_ : rows ≠ []) {place : Nat}
    (inside : place ≤ (rows.flatMap Row.before).length) :
    ∃ front row back column, rows = front ++ row :: back ∧
      place = (front.flatMap Row.before).length + column ∧ Inside row back column := by
  induction rows generalizing place with
  | nil => exact absurd rfl some_
  | cons row rest ih =>
    rw [flatMap_cons, length_append] at inside
    by_cases here : place < row.before.length
    · exact ⟨[], row, rest, place, rfl, (Nat.zero_add _).symm, .inl here⟩
    · by_cases more : rest = []
      · rw [more] at inside
        exact ⟨[], row, rest, place, rfl, (Nat.zero_add _).symm, .inr ⟨more, inside⟩⟩
      · obtain ⟨front, other, back, column, shape, same, within⟩ :=
          @ih more (place - row.before.length) (by omega)
        refine ⟨row :: front, other, back, column, congrArg (row :: ·) shape, ?_, within⟩
        rw [flatMap_cons, length_append]
        omega

section Choose

variable (touched : Nat → Bool) (edit : List α → Row α)

/-- Edit the touched rows, counted from `line`, and keep the others. -/
def choose : Nat → List (List α) → List (Row α)
  | _, [] => []
  | line, row :: rest => (if touched line then edit row else .kept row) :: choose (line + 1) rest

variable {touched edit}

theorem choose_before (whole : ∀ row, (edit row).before = row) (line : Nat) (rows : List (List α)) :
    (choose touched edit line rows).map Row.before = rows := by
  induction rows generalizing line with
  | nil => rfl
  | cons row rest ih =>
    have same : (if touched line then edit row else .kept row).before = row := by
      split
      · exact whole row
      · rfl
    rw [choose, map_cons, same, ih]

theorem choose_forall {P : Row α → Prop} (kept : ∀ items, P (.kept items))
    (edited : ∀ row, P (edit row)) {line : Nat} {rows : List (List α)} {row : Row α}
    (member : row ∈ choose touched edit line rows) : P row := by
  induction rows generalizing line with
  | nil => cases member
  | cons first rest ih =>
    rcases mem_cons.mp member with rfl | later
    · split
      · exact edited first
      · exact kept first
    · exact ih later

theorem choose_getElem? (line index : Nat) (rows : List (List α)) :
    (choose touched edit line rows)[index]? = rows[index]?.map fun row =>
    if touched (line + index) then edit row else .kept row := by
  induction rows generalizing line index with
  | nil => rfl
  | cons row rest ih =>
    cases index with
    | zero => rfl
    | succ index =>
      rw [choose, getElem?_cons_succ, getElem?_cons_succ, ih, Nat.add_assoc, Nat.add_comm 1]

/-- Choosing the same rows of the result, with edits that undo the first ones, turns every row
around. -/
theorem choose_after {undo : List α → Row α} (line : Nat) {rows : List (List α)}
    (turns : ∀ row ∈ rows, undo (edit row).after = (edit row).flip) :
    choose touched undo line ((choose touched edit line rows).map Row.after) =
      (choose touched edit line rows).map Row.flip := by
  induction rows generalizing line with
  | nil => rfl
  | cons row rest ih =>
    have later := ih (line + 1) fun other member => turns other (mem_cons_of_mem _ member)
    simp only [choose, map_cons, later]
    split
    · rw [turns row mem_cons_self]
    · rfl

/-- An edit that keeps to the inside of its row. -/
structure Keeps (ends : α → Bool) (edit : List α → Row α) : Prop where
  last : ∀ row, (∀ item ∈ row, ends item = false) → ∀ item ∈ (edit row).after, ends item = false
  ended : ∀ body item, (∀ other ∈ body, ends other = false) → ends item = true → ∃ body',
    (edit (body ++ [item])).after = body' ++ [item] ∧ ∀ other ∈ body', ends other = false

theorem Rowed.choose {ends : α → Bool} (keeps : Keeps ends edit) {rows : List (List α)}
    (rowed : Rowed ends rows) (line : Nat) :
    Rowed ends ((choose touched edit line rows).map Row.after) := by
  induction rowed generalizing line with
  | last inside =>
    rename_i row
    simp only [Rows.choose, map_cons, map_nil]
    split
    · exact .last (keeps.last row inside)
    · exact .last inside
  | cons inside closes rest ih =>
    rename_i body item rows
    simp only [Rows.choose, map_cons]
    split
    · obtain ⟨changed, shape, clean⟩ := keeps.ended body item inside closes
      rw [shape]
      exact .cons clean closes (ih _)
    · exact .cons inside closes (ih _)

end Choose

end ForgeNode.Rows
