import Mathlib.Data.List.Sort
import ForgeNode.Language.Framing

/-! Gutter marks of one file and the details of one change, both read off a `--unified=0` patch. -/

namespace ForgeNode.Marks

open List

variable {c : Char} {patch : Patch} {rows : List Text}

abbrev Text := List Char

/-- A carriage return right before the line's end belongs to it. -/
def lineText (row : Text) : Text :=
  if row.getLast? = some '\r' then row.dropLast else row

/-- The rest of `str::lines`, `row` being read already. -/
def linesFrom (row : Text) : Text → List Text
  | [] => if row = [] then [] else [row]
  | c :: rest => if c = '\n' then lineText row :: linesFrom [] rest else linesFrom (row ++ [c]) rest

def lines (text : Text) : List Text := linesFrom [] text

def stripPrefix (lead text : Text) : Option Text :=
  if lead.isPrefixOf text then some (text.drop lead.length) else none

def splitOnce (at_ : Char) (text : Text) : Option (Text × Text) :=
  if text.contains at_ then some (text.takeWhile (· != at_), (text.dropWhile (· != at_)).tail)
    else none

/-- `parse::<u32>()`. -/
def parseU32 (text : Text) : Option Nat :=
  (Framing.parseUsize text).filter (· < 2 ^ 32)

/-- A sum of two `u32`, which wraps. -/
def add32 (a b : Nat) : Nat := (a + b) % 2 ^ 32

/-- `12` is one line at 12; `12,3` is three from 12; `12,0` is none. -/
def parseRange (spec : Option Text) : Option (Nat × Nat) :=
  match spec with
  | none => none
  | some spec => match splitOnce ',' spec with
    | some (start, count) => match parseU32 start, parseU32 count with
      | some start, some count => some (start, count)
      | _, _ => none
    | none => (parseU32 spec).map fun start => (start, 1)

inductive MarkKind where
  | added | modified | deleted
  deriving DecidableEq

structure Mark where
  line : Nat
  kind : MarkKind
  deriving DecidableEq

def pushRun (start count : Nat) (kind : MarkKind) (lineCount : Nat) : List Mark :=
  (List.range count).filterMap fun offset =>
    if add32 start offset = 0 ∨ (lineCount > 0 ∧ add32 start offset > lineCount) then none
    else some { line := add32 start offset, kind }

/-- What one hunk header marks. -/
def headerMarks (lineCount : Nat) (removed added : Nat × Nat) : List Mark :=
  if added.2 = 0 then [{ line := min (max added.1 1) (max lineCount 1), kind := .deleted }]
  else if removed.2 = 0 then pushRun added.1 added.2 .added lineCount
  else
    pushRun added.1 (min removed.2 added.2) .modified lineCount ++
      pushRun (add32 added.1 (min removed.2 added.2)) (added.2 - min removed.2 added.2) .added
        lineCount

def rowMarks (lineCount : Nat) (row : Text) : List Mark :=
  match stripPrefix ['@', '@', ' '] row with
  | none => []
  | some header => match splitOnce ' ' header with
    | none => []
    | some (removed, rest) =>
      match parseRange (stripPrefix ['-'] removed), parseRange (stripPrefix ['+'] (rest.takeWhile (· != ' '))) with
      | some removed, some added => headerMarks lineCount removed added
      | _, _ => []

/-- Of neighbours with one line the first stays. -/
def dedupByLine : List Mark → List Mark
  | [] => []
  | mark :: rest => match dedupByLine rest with
    | [] => [mark]
    | next :: more => if mark.line = next.line then mark :: more else mark :: next :: more

def marksFromHunks (patch : Text) (lineCount : Nat) : List Mark :=
  dedupByLine (((lines patch).flatMap (rowMarks lineCount)).mergeSort fun a b => a.line ≤ b.line)

def maxDetailLines : Nat := 200

structure Hunk where
  line : Nat
  before : List Text := []
  after : List Text := []
  truncated : Bool := false
  deriving DecidableEq

def Hunk.push (hunk : Hunk) (row : Text) : Hunk :=
  match row with
  | '-' :: text =>
    if hunk.before.length < maxDetailLines then { hunk with before := hunk.before ++ [text] }
    else { hunk with truncated := true }
  | '+' :: text =>
    if hunk.after.length < maxDetailLines then { hunk with after := hunk.after ++ [text] }
    else { hunk with truncated := true }
  | _ => hunk

/-- A pure deletion is anchored at the line standing where the removal was. -/
def covers (span : Nat × Nat) (line : Nat) : Bool :=
  if span.2 = 0 then line = max span.1 1 else span.1 ≤ line ∧ line < add32 span.1 span.2

def close (line : Nat) (current : Option Hunk) (span : Nat × Nat) : Option Hunk :=
  if covers span line then current else none

def diffGit : Text := ['d', 'i', 'f', 'f', ' ', '-', '-', 'g', 'i', 't', ' ']

/-- The loop of `hunk_at`: it ends with the first hunk that is closed on the line. -/
def hunkRows (line : Nat) (current : Option Hunk) (span : Nat × Nat) : List Text → Option Hunk
  | [] => close line current span
  | row :: rows =>
    if diffGit.isPrefixOf row then
      match close line current span with
      | some found => some found
      | none => hunkRows line none span rows
    else match stripPrefix ['@', '@', ' '] row with
      | some header => match close line current span with
        | some found => some found
        | none => match splitOnce ' ' header with
          | none => hunkRows line none span rows
          | some (_, rest) => match parseRange (stripPrefix ['+'] (rest.takeWhile (· != ' '))) with
            | none => hunkRows line none span rows
            | some added => hunkRows line (some { line := max added.1 1 }) added rows
      | none => match current with
        | none => hunkRows line none span rows
        | some hunk => hunkRows line (some (hunk.push row)) span rows

def hunkAt (patch : Text) (line : Nat) : Option Hunk :=
  hunkRows line none (0, 0) (lines patch)

/-- One hunk as git has it: where it stands in both files, what it removes and adds. A file that
ends without a newline has that said after its last line. -/
structure Block where
  oldLead : Nat
  removed : List Text
  removedOpen : Bool := false
  /-- The lines of the new file in front of it. -/
  lead : Nat
  added : List Text
  addedOpen : Bool := false
  heading : Text := []

/-- A range without lines is named by the line before it. -/
def showRange (lead count : Nat) : Text :=
  if count = 0 then Nat.toDigits 10 lead ++ [',', '0']
  else if count = 1 then Nat.toDigits 10 (lead + 1)
  else Nat.toDigits 10 (lead + 1) ++ ',' :: Nat.toDigits 10 count

def headerRow (block : Block) : Text :=
  ['@', '@', ' '] ++ ('-' :: showRange block.oldLead block.removed.length ++ ' ' ::
    ('+' :: showRange block.lead block.added.length ++ ' ' :: '@' :: '@' :: block.heading))

def openRow : Text := "\\ No newline at end of file".toList

def bodyRows (block : Block) : List Text :=
  block.removed.map ('-' :: ·) ++ (if block.removedOpen then [openRow] else []) ++
    (block.added.map ('+' :: ·) ++ (if block.addedOpen then [openRow] else []))

/-- A patch of one file: the rows in front of the hunks, the hunks, and the length of the new
file. -/
structure Patch where
  head : List Text
  blocks : List Block
  total : Nat

def patchRows (patch : Patch) : List Text :=
  patch.head ++ patch.blocks.flatMap fun block => headerRow block :: bodyRows block

def render (patch : Patch) : Text :=
  (patchRows patch).flatMap (· ++ ['\n'])

structure Block.WellFormed (block : Block) : Prop where
  changes : block.removed ≠ [] ∨ block.added ≠ []
  removed : ∀ row ∈ block.removed, '\n' ∉ row
  added : ∀ row ∈ block.added, '\n' ∉ row
  heading : '\n' ∉ block.heading
  /-- The numbers of the header are `u32`, and so is the one past its last line. -/
  old : block.oldLead + block.removed.length + 1 < 2 ^ 32
  new : block.lead + block.added.length + 1 < 2 ^ 32

/-- Hunks in increasing order with at least one unchanged line between them. -/
structure Patch.WellFormed (patch : Patch) : Prop where
  head : ∀ row ∈ patch.head, '\n' ∉ row ∧ ¬ ['@', '@', ' '] <+: row
  blocks : ∀ block ∈ patch.blocks, block.WellFormed
  apart : patch.blocks.Pairwise fun a b => a.lead + a.added.length < b.lead
  inside : ∀ block ∈ patch.blocks, block.lead + block.added.length ≤ patch.total

/-- A line the hunk changed, or the one standing where it removed. -/
def Block.touches (block : Block) (line : Nat) : Bool :=
  if block.added = [] then line = max block.lead 1
  else block.lead < line ∧ line ≤ block.lead + block.added.length

def Block.details (block : Block) : Hunk where
  line := if block.added = [] then max block.lead 1 else block.lead + 1
  before := (block.removed.map lineText).take maxDetailLines
  after := (block.added.map lineText).take maxDetailLines
  truncated := maxDetailLines < block.removed.length || maxDetailLines < block.added.length

section Rows

theorem lineText_cons (other : c ≠ '\r') (row : Text) :
    lineText (c :: row) = c :: lineText row := by
  cases row with
  | nil => simp [lineText, other]
  | cons d row =>
    unfold lineText
    rw [getLast?_cons_cons, dropLast_cons_cons]
    split <;> rfl

theorem lineText_append {front : Text} (free : '\r' ∉ front) (back : Text) :
    lineText (front ++ back) = front ++ lineText back := by
  induction front with
  | nil => rfl
  | cons c front ih =>
    have other : c ≠ '\r' := fun same => free (by rw [same]; exact mem_cons_self)
    have rest : '\r' ∉ front := fun member => free (mem_cons_of_mem _ member)
    rw [cons_append, lineText_cons other, ih rest, cons_append]

theorem linesFrom_row {row : Text} (whole : '\n' ∉ row) (read rest : Text) :
    linesFrom read (row ++ '\n' :: rest) = lineText (read ++ row) :: linesFrom [] rest := by
  induction row generalizing read with
  | nil => simp [linesFrom]
  | cons c row ih =>
    have other : c ≠ '\n' := fun same => whole (by rw [same]; exact mem_cons_self)
    have later : '\n' ∉ row := fun member => whole (mem_cons_of_mem _ member)
    rw [cons_append, linesFrom, if_neg other, ih later, append_assoc]
    rfl

theorem lines_rows (whole : ∀ row ∈ rows, '\n' ∉ row) :
    lines (rows.flatMap (· ++ ['\n'])) = rows.map lineText := by
  unfold lines
  induction rows with
  | nil => rfl
  | cons row rows ih =>
    obtain ⟨first, others⟩ := forall_mem_cons.mp whole
    have split : (row :: rows).flatMap (· ++ ['\n']) = row ++ '\n' :: rows.flatMap (· ++ ['\n']) := by
      rw [flatMap_cons, append_assoc]
      rfl
    rw [split, linesFrom_row first, ih others]
    rfl

theorem splitOnce_append {at_ : Char} {front : Text} (free : at_ ∉ front) (back : Text) :
    splitOnce at_ (front ++ at_ :: back) = some (front, back) := by
  have pass : ∀ c ∈ front, (c != at_) = true := by
    intro c member
    apply bne_iff_ne.mpr
    intro same
    exact free (same ▸ member)
  have stop : (at_ :: back).takeWhile (· != at_) = [] := by simp
  have rest : (at_ :: back).dropWhile (· != at_) = at_ :: back := by simp
  rw [splitOnce, if_pos (by simp), takeWhile_append_of_pos pass, dropWhile_append_of_pos pass, stop,
    rest, append_nil]
  rfl

theorem splitOnce_of_free {at_ : Char} {text : Text} (free : at_ ∉ text) :
    splitOnce at_ text = none := by
  rw [splitOnce, if_neg (by simpa using free)]

theorem stripPrefix_append (lead text : Text) : stripPrefix lead (lead ++ text) = some text := by
  rw [stripPrefix, if_pos (by simp), drop_left]

theorem stripPrefix_of_not {lead text : Text} (other : ¬ lead <+: text) :
    stripPrefix lead text = none := by
  rw [stripPrefix, if_neg (by simpa using other)]

theorem digits_free (other : c.isDigit = false) (n : Nat) : c ∉ Nat.toDigits 10 n := by
  intro member
  have digit := Nat.isDigit_of_mem_toDigits (by decide) (by decide) member
  rw [other] at digit
  cases digit

theorem parseU32_toDigits {n : Nat} (bound : n < 2 ^ 32) :
    parseU32 (Nat.toDigits 10 n) = some n := by
  have wide : n < 2 ^ 64 := Nat.lt_trans bound (by decide)
  rw [parseU32, Framing.parseUsize_toDigits wide, Option.filter_some, if_pos (decide_eq_true bound)]

theorem showRange_free (digit : c.isDigit = false) (comma : c ≠ ',') (lead count : Nat) :
    c ∉ showRange lead count := by
  have zero : c ≠ '0' := by
    rintro rfl
    cases digit
  unfold showRange
  split
  · simp [digits_free digit, comma, zero]
  · split
    · exact digits_free digit _
    · simp [digits_free digit, comma]

/-- The line a range is named by. -/
def firstLine (lead count : Nat) : Nat := if count = 0 then lead else lead + 1

theorem parseRange_showRange {lead count : Nat} (bound : lead + count + 1 < 2 ^ 32) :
    parseRange (some (showRange lead count)) = some (firstLine lead count, count) := by
  have comma : ∀ n, ',' ∉ Nat.toDigits 10 n := digits_free (by decide)
  have zero : parseU32 ['0'] = some 0 := @parseU32_toDigits 0 (by decide)
  unfold parseRange showRange firstLine
  by_cases none_ : count = 0
  · simp only [none_, if_true]
    rw [splitOnce_append (comma lead)]
    simp only [parseU32_toDigits (show lead < 2 ^ 32 by omega), zero]
  · by_cases one : count = 1
    · simp only [one, Nat.one_ne_zero, if_false, if_true]
      rw [splitOnce_of_free (comma _)]
      simp only [parseU32_toDigits (show lead + 1 < 2 ^ 32 by omega), Option.map_some]
    · simp only [none_, one, if_false]
      rw [splitOnce_append (comma _)]
      simp only [parseU32_toDigits (show lead + 1 < 2 ^ 32 by omega), parseU32_toDigits
        (show count < 2 ^ 32 by omega)]

end Rows

section Headers

variable {block : Block}

/-- A header row behind its `@@ `. -/
def headerRest (block : Block) : Text :=
  '-' :: showRange block.oldLead block.removed.length ++ ' ' ::
    ('+' :: showRange block.lead block.added.length ++ ' ' :: '@' :: '@' :: lineText block.heading)

theorem lineText_headerRow (block : Block) :
    lineText (headerRow block) = ['@', '@', ' '] ++ headerRest block := by
  have free : ∀ lead count, '\r' ∉ showRange lead count := showRange_free (by decide) (by decide)
  have split : headerRow block =
      (['@', '@', ' '] ++ ('-' :: showRange block.oldLead block.removed.length ++ ' ' ::
        ('+' :: showRange block.lead block.added.length ++ [' ', '@', '@']))) ++ block.heading := by
    simp [headerRow]
  rw [split, lineText_append (by simp [free])]
  simp [headerRest]

theorem split_headerRest (block : Block) :
    splitOnce ' ' (headerRest block) = some ('-' :: showRange block.oldLead block.removed.length,
      '+' :: showRange block.lead block.added.length ++ ' ' :: '@' :: '@' ::
        lineText block.heading) := by
  have free : ' ' ∉ '-' :: showRange block.oldLead block.removed.length := by
    simp [showRange_free (show ' '.isDigit = false by decide) (by decide)]
  exact splitOnce_append free _

theorem takeWhile_added (block : Block) (rest : Text) :
    ('+' :: showRange block.lead block.added.length ++ ' ' :: rest).takeWhile (· != ' ') =
      '+' :: showRange block.lead block.added.length := by
  have pass : ∀ c ∈ '+' :: showRange block.lead block.added.length, (c != ' ') = true := by
    intro c member
    apply bne_iff_ne.mpr
    rintro rfl
    rcases mem_cons.mp member with plus | inside
    · cases plus
    · exact showRange_free (by decide) (by decide) _ _ inside
  rw [takeWhile_append_of_pos pass]
  simp

theorem parse_added (formed : block.WellFormed) (rest : Text) :
    parseRange (stripPrefix ['+']
        (('+' :: showRange block.lead block.added.length ++ ' ' :: rest).takeWhile (· != ' '))) =
      some (firstLine block.lead block.added.length, block.added.length) := by
  rw [takeWhile_added]
  have strip := stripPrefix_append ['+'] (showRange block.lead block.added.length)
  rw [singleton_append] at strip
  rw [strip, parseRange_showRange formed.new]

theorem parse_removed (formed : block.WellFormed) :
    parseRange (stripPrefix ['-'] ('-' :: showRange block.oldLead block.removed.length)) =
      some (firstLine block.oldLead block.removed.length, block.removed.length) := by
  have strip := stripPrefix_append ['-'] (showRange block.oldLead block.removed.length)
  rw [singleton_append] at strip
  rw [strip, parseRange_showRange formed.old]

theorem rowMarks_header (formed : block.WellFormed) (lineCount : Nat) :
    rowMarks lineCount (lineText (headerRow block)) =
      headerMarks lineCount (firstLine block.oldLead block.removed.length, block.removed.length)
        (firstLine block.lead block.added.length, block.added.length) := by
  rw [lineText_headerRow, rowMarks, stripPrefix_append]
  simp only [split_headerRest, parse_removed formed, parse_added formed]

end Headers

section Bodies

theorem lineText_leads (row : Text) : lineText row <+: row := by
  unfold lineText
  split
  · exact dropLast_prefix row
  · exact prefix_rfl

/-- A row that opens neither a hunk nor a file. -/
def Plain (row : Text) : Prop := ¬ ['@', '@', ' '] <+: row ∧ ¬ diffGit <+: row

theorem plain_cons (at_ : c ≠ '@') (d : c ≠ 'd') (row : Text) : Plain (c :: row) := by
  constructor
  · intro lead
    exact at_ (cons_prefix_cons.mp lead).1.symm
  · intro lead
    exact d (cons_prefix_cons.mp lead).1.symm

theorem rowMarks_of_not {row : Text} (other : ¬ ['@', '@', ' '] <+: row) (lineCount : Nat) :
    rowMarks lineCount row = [] := by
  rw [rowMarks, stripPrefix_of_not other]

theorem lineText_openRow : lineText openRow = openRow := by
  decide

theorem bodyRows_text (block : Block) :
    (bodyRows block).map lineText =
      (block.removed.map lineText).map ('-' :: ·) ++
        (if block.removedOpen then [openRow] else []) ++
          ((block.added.map lineText).map ('+' :: ·) ++
            (if block.addedOpen then [openRow] else [])) := by
  have removed : ∀ rows : List Text, (rows.map ('-' :: ·)).map lineText = (rows.map lineText).map
      ('-' :: ·) := by
    intro rows
    simp only [map_map, Function.comp_def, lineText_cons (show '-' ≠ '\r' by decide)]
  have added : ∀ rows : List Text, (rows.map ('+' :: ·)).map lineText = (rows.map lineText).map
      ('+' :: ·) := by
    intro rows
    simp only [map_map, Function.comp_def, lineText_cons (show '+' ≠ '\r' by decide)]
  have open_ : ∀ flag : Bool, (if flag then [openRow] else []).map lineText =
      if flag then [openRow] else [] := by
    intro flag
    cases flag
    · rfl
    · simp [lineText_openRow]
  rw [bodyRows, map_append, map_append, map_append, removed, added, open_, open_]

theorem bodyRows_plain (block : Block) : ∀ row ∈ (bodyRows block).map lineText, Plain row := by
  have open_ : ∀ flag : Bool, ∀ row ∈ (if flag then [openRow] else []), Plain row := by
    intro flag row member
    cases flag
    · cases member
    · rw [mem_singleton.mp member]
      exact plain_cons (by decide) (by decide) _
  rw [bodyRows_text]
  intro row member
  rcases mem_append.mp member with member | member
  · rcases mem_append.mp member with member | member
    · obtain ⟨text, -, rfl⟩ := List.mem_map.mp member
      exact plain_cons (by decide) (by decide) text
    · exact open_ _ row member
  · rcases mem_append.mp member with member | member
    · obtain ⟨text, -, rfl⟩ := List.mem_map.mp member
      exact plain_cons (by decide) (by decide) text
    · exact open_ _ row member

theorem patchRows_whole (formed : patch.WellFormed) : ∀ row ∈ patchRows patch, '\n' ∉ row := by
  intro row member
  rcases mem_append.mp member with head | rest
  · exact (formed.head row head).1
  · obtain ⟨block, among, inside⟩ := mem_flatMap.mp rest
    have whole := formed.blocks block among
    have range : ∀ lead count, '\n' ∉ showRange lead count := showRange_free (by decide) (by decide)
    have open_ : '\n' ∉ openRow := by decide
    rcases mem_cons.mp inside with rfl | body
    · simp [headerRow, range, whole.heading]
    · rcases mem_append.mp body with body | body
      · rcases mem_append.mp body with body | body
        · obtain ⟨text, line, rfl⟩ := List.mem_map.mp body
          simp [whole.removed text line]
        · cases flag : block.removedOpen <;> simp_all
      · rcases mem_append.mp body with body | body
        · obtain ⟨text, line, rfl⟩ := List.mem_map.mp body
          simp [whole.added text line]
        · cases flag : block.addedOpen <;> simp_all

theorem lines_render (formed : patch.WellFormed) :
    lines (render patch) = patch.head.map lineText ++ patch.blocks.flatMap fun block =>
      lineText (headerRow block) :: (bodyRows block).map lineText := by
  rw [render, lines_rows (patchRows_whole formed), patchRows, map_append, map_flatMap]
  rfl

theorem head_plain (formed : patch.WellFormed) :
    ∀ row ∈ patch.head.map lineText, ¬ ['@', '@', ' '] <+: row := by
  intro row member lead
  obtain ⟨text, among, rfl⟩ := List.mem_map.mp member
  exact (formed.head text among).2 (lead.trans (lineText_leads text))

end Bodies

section Marking

variable {block : Block} {lineCount : Nat}

/-- The lines one hunk marks. -/
def Block.lines (block : Block) : List Nat :=
  if block.added = [] then [max block.lead 1]
  else (List.range block.added.length).map (block.lead + 1 + ·)

theorem pushRun_lines {start count : Nat} (kind : MarkKind) (first : 0 < start)
    (last : start + count ≤ lineCount + 1) (bound : start + count < 2 ^ 32) :
    (pushRun start count kind lineCount).map (·.line) = (List.range count).map (start + ·) := by
  have run : ∀ offset ∈ List.range count,
      (if add32 start offset = 0 ∨ (lineCount > 0 ∧ add32 start offset > lineCount) then none
        else some { line := add32 start offset, kind : Mark }) =
          some { line := start + offset, kind : Mark } := by
    intro offset member
    have below := mem_range.mp member
    have sum : add32 start offset = start + offset := Nat.mod_eq_of_lt (by omega)
    rw [sum, if_neg (by omega)]
  rw [pushRun, filterMap_congr run, filterMap_eq_map', map_map]
  rfl

theorem headerMarks_lines (formed : block.WellFormed)
    (inside : block.lead + block.added.length ≤ lineCount) :
    (headerMarks lineCount (firstLine block.oldLead block.removed.length, block.removed.length)
      (firstLine block.lead block.added.length, block.added.length)).map (·.line) =
        block.lines := by
  have bound := formed.new
  unfold headerMarks Block.lines
  by_cases none_ : block.added = []
  · simp only [none_, length_nil, if_true, firstLine, map_cons, map_nil]
    rw [none_, length_nil] at inside
    congr 1
    omega
  · have some_ : block.added.length ≠ 0 := by simpa using none_
    simp only [if_neg some_, if_neg none_, firstLine]
    split
    · exact pushRun_lines _ (by omega) (by omega) (by omega)
    · have shared : min block.removed.length block.added.length ≤ block.added.length :=
        Nat.min_le_right _ _
      obtain ⟨part, partIs⟩ : ∃ part, part = min block.removed.length block.added.length := ⟨_, rfl⟩
      rw [← partIs] at shared ⊢
      have sum : add32 (block.lead + 1) part = block.lead + 1 + part := Nat.mod_eq_of_lt (by omega)
      have whole : block.added.length = part + (block.added.length - part) := by omega
      rw [map_append, sum, pushRun_lines _ (by omega) (by omega) (by omega),
        pushRun_lines _ (by omega) (by omega) (by omega)]
      conv => rhs; rw [whole, range_add]
      simp [map_map, Function.comp_def, Nat.add_assoc]

theorem mem_lines {line : Nat} : line ∈ block.lines ↔ block.touches line := by
  unfold Block.lines Block.touches
  split
  · simp
  · simp only [List.mem_map, mem_range, Bool.decide_and, Bool.and_eq_true, decide_eq_true_eq]
    constructor
    · rintro ⟨offset, below, rfl⟩
      omega
    · rintro ⟨low, high⟩
      exact ⟨line - (block.lead + 1), by omega, by omega⟩

theorem rowMarks_block (formed : block.WellFormed) :
    (lineText (headerRow block) :: (bodyRows block).map lineText).flatMap (rowMarks lineCount) =
      headerMarks lineCount (firstLine block.oldLead block.removed.length, block.removed.length)
        (firstLine block.lead block.added.length, block.added.length) := by
  have body : ((bodyRows block).map lineText).flatMap (rowMarks lineCount) = [] := by
    apply flatMap_eq_nil_iff.mpr
    intro row member
    exact rowMarks_of_not (bodyRows_plain block row member).1 lineCount
  rw [flatMap_cons, rowMarks_header formed, body, append_nil]

theorem marked_lines (formed : patch.WellFormed) (long : patch.total ≤ lineCount) :
    ((lines (render patch)).flatMap (rowMarks lineCount)).map (·.line) =
      patch.blocks.flatMap Block.lines := by
  have head : (patch.head.map lineText).flatMap (rowMarks lineCount) = [] := by
    apply flatMap_eq_nil_iff.mpr
    intro row member
    exact rowMarks_of_not (head_plain formed row member) lineCount
  rw [lines_render formed, flatMap_append, head, nil_append, flatMap_assoc, map_flatMap]
  apply flatMap_congr
  intro block among
  rw [rowMarks_block (formed.blocks block among)]
  exact headerMarks_lines (formed.blocks block among) (Nat.le_trans (formed.inside block among) long)

theorem lines_sorted (block : Block) : block.lines.Pairwise (· ≤ ·) := by
  unfold Block.lines
  split
  · exact pairwise_singleton _ _
  · rw [pairwise_map]
    exact pairwise_lt_range.imp fun below => Nat.add_le_add_left (Nat.le_of_lt below) _

theorem lines_apart {a b : Block} (apart : a.lead + a.added.length < b.lead) :
    ∀ x ∈ a.lines, ∀ y ∈ b.lines, x ≤ y := by
  intro x first y second
  rw [mem_lines] at first second
  unfold Block.touches at first second
  have changed : a.added ≠ [] → 0 < a.added.length := length_pos_of_ne_nil
  split at first <;> split at second <;>
    simp only [decide_eq_true_eq, Bool.decide_and, Bool.and_eq_true] at first second <;> omega

theorem marked_sorted (formed : patch.WellFormed) (long : patch.total ≤ lineCount) :
    ((lines (render patch)).flatMap (rowMarks lineCount)).Pairwise fun a b => a.line ≤ b.line := by
  have sorted : (((lines (render patch)).flatMap (rowMarks lineCount)).map (·.line)).Pairwise
      (· ≤ ·) := by
    rw [marked_lines formed long, pairwise_flatMap]
    exact ⟨fun block _ => lines_sorted block, formed.apart.imp lines_apart⟩
  exact pairwise_map.mp sorted

/-- Sorted marks keep their lines, each once. -/
theorem dedup_spec {marks : List Mark} (sorted : marks.Pairwise fun a b => a.line ≤ b.line) :
    (dedupByLine marks).Pairwise (fun a b => a.line < b.line) ∧
      ∀ line, line ∈ (dedupByLine marks).map (·.line) ↔ line ∈ marks.map (·.line) := by
  induction marks with
  | nil => exact ⟨List.Pairwise.nil, fun _ => Iff.rfl⟩
  | cons mark rest ih =>
    obtain ⟨below, ordered⟩ := pairwise_cons.mp sorted
    obtain ⟨strict, same⟩ := ih ordered
    have bound : ∀ line ∈ (dedupByLine rest).map (·.line), mark.line ≤ line := by
      intro line member
      obtain ⟨other, among, rfl⟩ := List.mem_map.mp ((same line).mp member)
      exact below other among
    rw [dedupByLine]
    split
    case h_1 nothing =>
      rw [nothing] at same
      refine ⟨pairwise_singleton _ _, fun line => ?_⟩
      rw [map_cons, map_cons, mem_cons, mem_cons, same line]
    case h_2 next more shape =>
      rw [shape] at strict same bound
      obtain ⟨first, later⟩ := pairwise_cons.mp strict
      split
      case isTrue equal =>
        refine ⟨pairwise_cons.mpr ⟨fun other among => equal ▸ first other among, later⟩, fun line =>
          ?_⟩
        rw [map_cons, map_cons, mem_cons, mem_cons, ← same line, map_cons, mem_cons,
          equal]
        simp
      case isFalse differ =>
        have front : mark.line < next.line := by
          have least := bound next.line mem_cons_self
          omega
        refine ⟨pairwise_cons.mpr ⟨?_, strict⟩, fun line => ?_⟩
        · intro other among
          rcases mem_cons.mp among with rfl | among
          · exact front
          · exact Nat.lt_trans front (first other among)
        · rw [map_cons, mem_cons, same line, map_cons, mem_cons]

theorem marks_spec (formed : patch.WellFormed) (long : patch.total ≤ lineCount) :
    (marksFromHunks (render patch) lineCount).Pairwise (fun a b => a.line < b.line) ∧
      ∀ line, line ∈ (marksFromHunks (render patch) lineCount).map (·.line) ↔
        ∃ block ∈ patch.blocks, block.touches line := by
  have sorted := marked_sorted formed long
  have still : ((lines (render patch)).flatMap (rowMarks lineCount)).mergeSort (fun a b =>
      a.line ≤ b.line) = (lines (render patch)).flatMap (rowMarks lineCount) := by
    apply mergeSort_of_pairwise
    exact sorted.imp fun below => decide_eq_true below
  obtain ⟨strict, same⟩ := dedup_spec sorted
  rw [marksFromHunks, still]
  refine ⟨strict, fun line => ?_⟩
  rw [same line, marked_lines formed long, mem_flatMap]
  simp only [mem_lines]

end Marking

section Details

variable {line : Nat} {block : Block}

theorem hunkRows_head (plain : ∀ row ∈ rows, ¬ ['@', '@', ' '] <+: row) (span : Nat × Nat)
    (rest : List Text) : hunkRows line none span (rows ++ rest) = hunkRows line none span rest := by
  induction rows with
  | nil => rfl
  | cons row rows ih =>
    obtain ⟨first, others⟩ := forall_mem_cons.mp plain
    have closed : close line none span = none := by
      unfold close
      split <;> rfl
    rw [cons_append, hunkRows]
    split
    · rw [closed]
      exact ih others
    · rw [stripPrefix_of_not first]
      exact ih others

theorem hunkRows_body (plain : ∀ row ∈ rows, Plain row) (hunk : Hunk) (span : Nat × Nat)
    (rest : List Text) :
    hunkRows line (some hunk) span (rows ++ rest) = hunkRows line (some (rows.foldl Hunk.push hunk))
    span rest := by
  induction rows generalizing hunk with
  | nil => rfl
  | cons row rows ih =>
    obtain ⟨⟨header, file⟩, others⟩ := forall_mem_cons.mp plain
    rw [cons_append, hunkRows, if_neg (by simpa using file), stripPrefix_of_not header]
    exact ih others _

/-- A list that takes rows up to the bound, and the flag that one was left out. -/
theorem push_bounded {put : List Text → Bool → Hunk} {row : Text → Text}
    (push : ∀ kept cut text, (put kept cut).push (row text) =
      if kept.length < maxDetailLines then put (kept ++ [text]) cut else put kept true)
    (texts : List Text) {kept : List Text} (cut : Bool) (short : kept.length ≤ maxDetailLines) :
    (texts.map row).foldl Hunk.push (put kept cut) =
      put ((kept ++ texts).take maxDetailLines)
      (cut || maxDetailLines < kept.length + texts.length) := by
  induction texts generalizing kept cut with
  | nil =>
    have whole : kept.take maxDetailLines = kept := take_of_length_le short
    simp [whole, Nat.not_lt.mpr short]
  | cons text texts ih =>
    rw [map_cons, foldl_cons, push]
    by_cases room : kept.length < maxDetailLines
    · have longer : (kept ++ [text]).length ≤ maxDetailLines := by
        rw [length_append]
        exact room
      rw [if_pos room, ih cut longer]
      simp [Nat.add_assoc, Nat.add_comm 1]
    · have full : kept.length = maxDetailLines := Nat.le_antisymm short (Nat.le_of_not_lt room)
      rw [if_neg room, ih true short]
      simp [← full]

theorem push_removed (texts : List Text) {hunk : Hunk}
    (short : hunk.before.length ≤ maxDetailLines) : (texts.map ('-' :: ·)).foldl Hunk.push hunk =
      { hunk with
        before := (hunk.before ++ texts).take maxDetailLines
        truncated := hunk.truncated || maxDetailLines < hunk.before.length + texts.length } :=
  @push_bounded (fun kept cut => { hunk with before := kept, truncated := cut }) ('-' :: ·)
    (fun _ _ _ => rfl) texts hunk.before hunk.truncated short

theorem push_added (texts : List Text) {hunk : Hunk} (short : hunk.after.length ≤ maxDetailLines) :
    (texts.map ('+' :: ·)).foldl Hunk.push hunk =
      { hunk with
        after := (hunk.after ++ texts).take maxDetailLines
        truncated := hunk.truncated || maxDetailLines < hunk.after.length + texts.length } :=
  @push_bounded (fun kept cut => { hunk with after := kept, truncated := cut }) ('+' :: ·)
    (fun _ _ _ => rfl) texts hunk.after hunk.truncated short

theorem push_open (flag : Bool) (hunk : Hunk) :
    (if flag then [openRow] else []).foldl Hunk.push hunk = hunk := by
  cases flag <;> rfl

theorem push_body (block : Block) :
    ((bodyRows block).map lineText).foldl Hunk.push
      { line := max (firstLine block.lead block.added.length) 1 } = block.details := by
  have line : max (firstLine block.lead block.added.length) 1 =
      if block.added = [] then max block.lead 1 else block.lead + 1 := by
    unfold firstLine
    by_cases none_ : block.added = []
    · simp [none_]
    · simp [none_]
  rw [bodyRows_text, foldl_append, foldl_append, foldl_append, push_removed, push_open, push_added,
    push_open]
  · simp [Block.details, line]
  · rw [push_open]
    exact Nat.zero_le _
  · exact Nat.zero_le _

theorem covers_block (formed : block.WellFormed) :
    covers (firstLine block.lead block.added.length, block.added.length) line =
      block.touches line := by
  have bound := formed.new
  unfold covers Block.touches firstLine
  by_cases none_ : block.added = []
  · simp [none_]
  · have some_ : block.added.length ≠ 0 := by simpa using none_
    have sum : add32 (block.lead + 1) block.added.length = block.lead + 1 + block.added.length :=
      Nat.mod_eq_of_lt (by omega)
    simp only [if_neg some_, if_neg none_, sum]
    apply decide_eq_decide.mpr
    omega

/-- The hunk that is open is closed first; then the first hunk that has the line. -/
theorem hunkRows_blocks {blocks : List Block} (formed : ∀ block ∈ blocks, block.WellFormed)
    (current : Option Hunk) (span : Nat × Nat) :
    hunkRows line current span (blocks.flatMap fun block =>
        lineText (headerRow block) :: (bodyRows block).map lineText) =
      (close line current span).or ((blocks.find? (·.touches line)).map Block.details) := by
  induction blocks generalizing current span with
  | nil =>
    rw [flatMap_nil, hunkRows, find?_nil]
    simp
  | cons block blocks ih =>
    obtain ⟨first, others⟩ := forall_mem_cons.mp formed
    have opens : diffGit.isPrefixOf (lineText (headerRow block)) = false := by
      rw [lineText_headerRow]
      rfl
    simp only [flatMap_cons, cons_append]
    rw [hunkRows.eq_def]
    simp only [opens]
    rw [lineText_headerRow, stripPrefix_append]
    simp only [Bool.false_eq_true, if_false, split_headerRest, parse_added first]
    cases closed : close line current span with
    | some found => rfl
    | none =>
      simp only
      rw [hunkRows_body (bodyRows_plain block), push_body, ih others, close, covers_block first,
        find?_cons]
      cases block.touches line <;> simp

/-- Marks and details agree on every line. -/
theorem marks_agree {patch : Patch} (formed : patch.WellFormed) {lineCount : Nat}
    (long : patch.total ≤ lineCount) :
    (∀ line, (∃ mark ∈ marksFromHunks (render patch) lineCount, mark.line = line) ↔
      (hunkAt (render patch) line).isSome) ∧
    (marksFromHunks (render patch) lineCount).Pairwise (fun a b => a.line < b.line) ∧
    ∀ line, hunkAt (render patch) line = (patch.blocks.find? (·.touches line)).map
    Block.details := by
  have found : ∀ line, hunkAt (render patch) line = (patch.blocks.find? (·.touches line)).map
      Block.details := by
    intro line
    have closed : close line none (0, 0) = none := by
      unfold close
      split <;> rfl
    rw [hunkAt, lines_render formed, hunkRows_head (head_plain formed), hunkRows_blocks
      formed.blocks, closed]
    rfl
  obtain ⟨strict, marked⟩ := marks_spec formed long
  refine ⟨fun line => ?_, strict, found⟩
  rw [found line, Option.isSome_map, find?_isSome, ← marked line, List.mem_map]

/-- The first line and the second of a file are removed, and line 1 of what is left anchors both. -/
theorem marks_agree_anchor :
    let patch : Patch :=
      { head := [], total := 2, blocks := [
        { oldLead := 0, removed := [['a']], lead := 0, added := [] },
        { oldLead := 2, removed := [['b']], lead := 1, added := [] }] }
    (∃ mark ∈ marksFromHunks (render patch) 2, mark.line = 1) ∧
      hunkAt (render patch) 1 = some { line := 1, before := [['a']] } := by
  intro patch
  have formed : patch.WellFormed := by
    constructor
    · exact fun row member => absurd member not_mem_nil
    · intro block member
      simp only [patch, mem_cons, not_mem_nil, or_false] at member
      rcases member with rfl | rfl <;> constructor <;> simp
    · simp [patch]
    · intro block member
      simp only [patch, mem_cons, not_mem_nil, or_false] at member
      rcases member with rfl | rfl <;> decide
  obtain ⟨marked, -, found⟩ := @marks_agree patch formed 2 (by decide)
  have first : hunkAt (render patch) 1 = some { line := 1, before := [['a']] } := by
    rw [found]
    decide
  exact ⟨(marked 1).mpr (by rw [first]; rfl), first⟩

end Details

end ForgeNode.Marks
