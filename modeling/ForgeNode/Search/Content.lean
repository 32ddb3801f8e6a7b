import ForgeNode.Git.Marks
import ForgeNode.Lib.Chars
import Mathlib.Data.List.Infix

/-! The two searches of file contents: the output of `git grep` read back, and the plain walk over
the same files. -/

namespace ForgeNode.Content

open List
open Marks (Text lines splitOnce stripPrefix parseU32)

def searchContextLines : Nat := 3

def maxContextLineBytes : Nat := 512

def maxFileBytes : Nat := 2 * 1024 * 1024

structure SearchMatch where
  path : Text
  line : Nat
  column : Nat
  text : Text
  before : List Text
  after : List Text
  deriving DecidableEq

/-- Everything of a hit but its column, which the output of `git grep` does not have. -/
def SearchMatch.shown (found : SearchMatch) : Text × Nat × Text × List Text × List Text :=
  (found.path, found.line, found.text, found.before, found.after)

/-- `to_ascii_lowercase`. -/
def toAsciiLowercase (text : Text) : Text := text.map Char.toLower

/-- `str::find`, in bytes. -/
def find (needle : Text) : Text → Option Nat
  | [] => if needle = [] then some 0 else none
  | c :: rest =>
    if needle.isPrefixOf (c :: rest) then some 0
    else (find needle rest).map (· + (String.utf8EncodeChar c).length)

def findFolded (haystack foldedNeedle : Text) : Option Nat :=
  find foldedNeedle (toAsciiLowercase haystack)

/-- The first characters of a text, in so many bytes at most. -/
def cut : Nat → Text → Text
  | _, [] => []
  | bytes, c :: rest =>
    let size := (String.utf8EncodeChar c).length
    if size ≤ bytes then c :: cut (bytes - size) rest else []

def contextLine (line : Text) : Text :=
  if (Utf8.encode line).length ≤ maxContextLineBytes then line else cut maxContextLineBytes line

/-- A text file that is read, as rows that end with a newline and what is behind the last one. -/
structure TextFile where
  path : Text
  rows : List Text
  rest : Text
  named : '\x00' ∉ path
  whole : ∀ row ∈ rows, '\n' ∉ row
  plain : ∀ row ∈ rows, row.getLast? ≠ some '\r'
  open_ : '\n' ∉ rest
  fits : (Utf8.encode (rows.flatMap (· ++ ['\n']) ++ rest)).length ≤ maxFileBytes

namespace TextFile

def text (file : TextFile) : Text := file.rows.flatMap (· ++ ['\n']) ++ file.rest

/-- The lines as git counts them. -/
def gitLines (file : TextFile) : List Text :=
  file.rows ++ if file.rest = [] then [] else [file.rest]

end TextFile

section Walk

/-- The lines of one file from an index on, up to the limit. -/
def walkLines (path : Text) (lines : List Text) (foldedQuery : Text) (limit : Nat) :
    Nat → List Text → List SearchMatch → List SearchMatch × Bool
  | _, [], found => (found, false)
  | index, line :: rest, found =>
    match findFolded line foldedQuery with
    | none => walkLines path lines foldedQuery limit (index + 1) rest found
    | some column =>
      if found.length ≥ limit then (found, true)
      else
        let above := index - searchContextLines
        let below := min (index + 1 + searchContextLines) lines.length
        walkLines path lines foldedQuery limit (index + 1) rest
          (found ++ [{ path, line := index + 1, column := column + 1, text := line
                       before := ((lines.take index).drop above).map contextLine
                       after := ((lines.take below).drop (index + 1)).map contextLine }])

def walkFiles (foldedQuery : Text) (limit : Nat) :
    List TextFile → List SearchMatch → Bool → List SearchMatch × Bool
  | [], found, truncated => (found, truncated)
  | file :: rest, found, truncated =>
    if found.length ≥ limit then (found, true)
    else
      let (found, cut) := walkLines file.path (lines file.text) foldedQuery limit 0
        (lines file.text) found
      walkFiles foldedQuery limit rest found (truncated || cut)

/-- `search_content_walk` once the files are listed. -/
def searchContentWalk (files : List TextFile) (query : Text) (limit : Nat) :
    List SearchMatch × Bool :=
  walkFiles (toAsciiLowercase query) limit files [] false

end Walk

section Parse

structure Parse where
  found : List SearchMatch
  truncated : Bool
  recent : List (Nat × Text)
  recentPath : Text

def Parse.start : Parse := { found := [], truncated := false, recent := [], recentPath := [] }

/-- The limit is reached and the record is no context of the last hit. -/
def past (limit : Nat) (path : Text) (line : Nat) (hit : Bool) (found : List SearchMatch) : Bool :=
  match found.getLast? with
  | some last =>
    decide (limit ≤ found.length) &&
      !(!hit && decide (last.path = path) && decide (line ≤ last.line + searchContextLines))
  | none => false

/-- Add a line to the hits it follows, the last one first. -/
def extend (path : Text) (line : Nat) (text : Text) : List SearchMatch → List SearchMatch
  | [] => []
  | earlier :: rest =>
    if earlier.path ≠ path ∨ earlier.line ≥ line then earlier :: rest
    else
      let next := earlier.line + earlier.after.length + 1
      if next > earlier.line + searchContextLines then earlier :: rest
      else
        (if next = line then { earlier with after := earlier.after ++ [contextLine text] }
          else earlier) :: extend path line text rest

/-- One record; says whether to stop. -/
def Parse.record (foldedQuery : Text) (limit : Nat) (state : Parse) (path : Text) (line : Nat)
    (text : Text) : Parse × Bool :=
  let recent := if path ≠ state.recentPath then [] else state.recent
  let state := { state with recent, recentPath := path }
  let hit := (findFolded text foldedQuery).isSome
  if past limit path line hit state.found then ({ state with truncated := true }, true)
  else
    let found := (extend path line text state.found.reverse).reverse
    let before := (recent.filter fun (at_, _) =>
      decide (at_ < line ∧ at_ + searchContextLines ≥ line)).map fun (_, text) => contextLine text
    let found := if hit ∧ found.length < limit then
        found ++ [{ path, line, column := 0, text, before, after := [] }]
      else found
    let recent := recent ++ [(line, text)]
    let recent := if recent.length > searchContextLines then recent.tail else recent
    ({ state with found, recent }, false)

theorem splitOnce_shorter {at_ : Char} {text front back : Text}
    (split : splitOnce at_ text = some (front, back)) : back.length < text.length := by
  rw [splitOnce] at split
  split at split
  case isTrue found =>
    have parts := takeWhile_append_dropWhile (p := (· != at_)) (l := text)
    have total := congrArg List.length parts
    rw [length_append] at total
    have left : text.dropWhile (· != at_) ≠ [] := by
      intro none_
      have all := dropWhile_eq_nil_iff.mp none_ at_ (by simpa using found)
      simp at all
    have some_ := length_pos_iff.mpr left
    cases split
    rw [length_tail]
    omega
  case isFalse => cases split

theorem stripPrefix_shorter {lead text rest : Text} (some_ : lead ≠ [])
    (strip : stripPrefix lead text = some rest) : rest.length < text.length := by
  rw [stripPrefix] at strip
  split at strip
  case isTrue start =>
    have fits := (List.isPrefixOf_iff_prefix.mp start).length_le
    have long := length_pos_iff.mpr some_
    cases strip
    rw [List.length_drop]
    omega
  case isFalse => cases strip

theorem splitOnce_getD_length (at_ : Char) (text : Text) :
    ((splitOnce at_ text).getD (text, [])).2.length ≤ text.length := by
  cases split : splitOnce at_ text with
  | none => exact Nat.zero_le _
  | some parts => exact Nat.le_of_lt (splitOnce_shorter split)

/-- Read the output from a point on. -/
def parseFrom (foldedQuery : Text) (limit : Nat) (state : Parse) (remaining : Text) : Parse :=
  if _some : remaining = [] then state
  else
    match _lead : stripPrefix ['-', '-', '\n'] remaining with
    | some rest => parseFrom foldedQuery limit state rest
    | none =>
      match _path : splitOnce '\x00' remaining with
      | none => state
      | some (path, rest) =>
        match _line : splitOnce '\x00' rest with
        | none => state
        | some (number, rest') =>
          let row := (splitOnce '\n' rest').getD (rest', [])
          match parseU32 number with
          | none => parseFrom foldedQuery limit state row.2
          | some line =>
            match state.record foldedQuery limit path line row.1 with
            | (state, true) => state
            | (state, false) => parseFrom foldedQuery limit state row.2
termination_by remaining.length
decreasing_by
  · exact stripPrefix_shorter (cons_ne_nil _ _) _lead
  all_goals
    have behind := splitOnce_getD_length '\n' rest'
    have number := splitOnce_shorter _line
    have name := splitOnce_shorter _path
    omega

def parseGrepZ (stdout query : Text) (limit : Nat) : List SearchMatch × Bool :=
  let state := parseFrom (toAsciiLowercase query) limit .start stdout
  (state.found, state.truncated)

end Parse

section Output

/-- `-i -F`: a line with one of the query's lines in it, up to ASCII case. -/
def selects (query line : Text) : Bool :=
  (query.splitOn '\n').any fun piece => decide (toAsciiLowercase piece <:+: toAsciiLowercase line)

/-- `-C 3`: a line is shown when a selected one is near. -/
def shownAt (query : Text) (lines : List Text) (index : Nat) : Bool :=
  lines.zipIdx.any fun (line, at_) =>
    selects query line && decide (index ≤ at_ + searchContextLines ∧ at_ ≤ index + searchContextLines)

abbrev Record := Text × Nat × Text

/-- The records of a file's lines from an index on. -/
def recordsFrom (shown : Nat → Bool) (path : Text) : Nat → List Text → List Record
  | _, [] => []
  | index, text :: rest =>
    if shown index then (path, index + 1, text) :: recordsFrom shown path (index + 1) rest
    else recordsFrom shown path (index + 1) rest

def TextFile.records (query : Text) (file : TextFile) : List Record :=
  recordsFrom (shownAt query file.gitLines) file.path 0 file.gitLines

/-- The records as they are printed, `--` between two that are not neighbours. -/
def printed : Option (Text × Nat) → List Record → Text
  | _, [] => []
  | last, (path, line, text) :: rest =>
    (if last = none ∨ last = some (path, line - 1) then [] else ['-', '-', '\n']) ++
      (path ++ '\x00' :: (Nat.toDigits 10 line ++ '\x00' :: (text ++ '\n' :: printed
        (some (path, line)) rest)))

/-- `git grep -z -n -i -F -C 3` over the files. -/
def gitGrep (files : List TextFile) (query : Text) : Text :=
  printed none (files.flatMap (TextFile.records query))

end Output

section Matching

def isHit (foldedQuery line : Text) : Bool := (findFolded line foldedQuery).isSome

theorem find_isSome (needle text : Text) : (find needle text).isSome = true ↔ needle <:+: text := by
  induction text with
  | nil =>
    rw [find, infix_nil]
    split <;> simp_all
  | cons c rest ih =>
    rw [find, infix_cons_iff]
    split
    case isTrue start => exact iff_of_true rfl (Or.inl (List.isPrefixOf_iff_prefix.mp start))
    case isFalse other =>
      rw [Option.isSome_map, ih]
      exact (or_iff_right fun start => other (List.isPrefixOf_iff_prefix.mpr start)).symm

theorem selects_eq {query : Text} (one : '\n' ∉ query) (line : Text) :
    selects query line = isHit (toAsciiLowercase query) line := by
  have whole : query.splitOn '\n' = [query] := by
    apply splitOnP_eq_singleton
    intro c member
    exact beq_eq_false_iff_ne.mpr fun same => one (same ▸ member)
  rw [Bool.eq_iff_iff, selects, whole, isHit, findFolded, find_isSome]
  simp

theorem newline_toLower (c : Char) : c.toLower = '\n' ↔ c = '\n' := by
  constructor
  · intro same
    change dite (_ ∧ _) _ _ = _ at same
    split at same
    case isTrue upper =>
      have code : (c.val + 32).toNat = 10 := congrArg (fun d : Char => d.val.toNat) same
      have least : 65 ≤ c.val.toNat := upper.1
      have most : c.val.toNat ≤ 90 := upper.2
      have wide : (32 : UInt32).toNat = 32 := rfl
      rw [UInt32.toNat_add, wide] at code
      omega
    case isFalse => exact same
  · rintro rfl
    rfl

theorem isHit_newline {query line : Text} (many : '\n' ∈ query) (whole : '\n' ∉ line) :
    isHit (toAsciiLowercase query) line = false := by
  rw [Bool.eq_false_iff]
  intro found
  have inside := (find_isSome _ _).mp found
  have member := inside.subset (mem_map_of_mem (f := Char.toLower) many)
  obtain ⟨c, held, same⟩ := List.mem_map.mp member
  exact whole ((newline_toLower c).mp same ▸ held)

end Matching

section Walked

variable (path : Text) (lines : List Text) (foldedQuery : Text)

/-- A hit when so many lines of its file are read, its column left out. -/
def gathered (read index : Nat) (line : Text) : SearchMatch :=
  { path, line := index + 1, column := 0, text := line
    before := ((lines.take index).drop (index - searchContextLines)).map contextLine
    after := ((lines.drop (index + 1)).take (min searchContextLines (read - (index + 1)))).map
      contextLine }

/-- The hits among a file's lines from an index on. -/
def gatheredFrom (read : Nat) : Nat → List Text → List SearchMatch
  | _, [] => []
  | index, line :: rest =>
    if isHit foldedQuery line then gathered path lines read index line :: gatheredFrom read
      (index + 1) rest
    else gatheredFrom read (index + 1) rest

end Walked

def SearchMatch.withoutColumn (found : SearchMatch) : SearchMatch := { found with column := 0 }

/-- Every hit in a file with all its context. -/
def TextFile.hits (foldedQuery : Text) (file : TextFile) : List SearchMatch :=
  gatheredFrom file.path file.gitLines foldedQuery file.gitLines.length 0 file.gitLines

section Walked

variable {path : Text} {lines : List Text} {foldedQuery : Text}

theorem walkLines_eq (limit index : Nat) (rest : List Text) {found : List SearchMatch}
    (room : found.length ≤ limit) :
    (walkLines path lines foldedQuery limit index rest found).1.map SearchMatch.withoutColumn =
      (found.map SearchMatch.withoutColumn ++
        gatheredFrom path lines foldedQuery lines.length index rest).take limit := by
  induction rest generalizing index found with
  | nil =>
    rw [walkLines, gatheredFrom, append_nil, take_of_length_le (by rwa [length_map])]
  | cons line rest ih =>
    rw [walkLines, gatheredFrom]
    cases place : findFolded line foldedQuery with
    | none =>
      simp only [isHit, place, Option.isSome_none, Bool.false_eq_true, if_false]
      exact ih _ room
    | some column =>
      simp only [isHit, place, Option.isSome_some, if_true]
      split
      case isTrue full =>
        have exact_ : (found.map SearchMatch.withoutColumn).length = limit := by
          rw [length_map]
          exact Nat.le_antisymm room full
        rw [← exact_, take_left]
      case isFalse short =>
        rw [ih _ (by rw [length_append, length_singleton]; omega), map_append, append_assoc]
        have same : min (index + 1 + searchContextLines) lines.length - (index + 1) =
            min searchContextLines (lines.length - (index + 1)) := by omega
        simp [SearchMatch.withoutColumn, gathered, drop_take, same]

theorem walkLines_room (limit : Nat) {index : Nat} {rest : List Text} {found : List SearchMatch}
    (room : found.length ≤ limit) :
    (walkLines path lines foldedQuery limit index rest found).1.length ≤ limit := by
  have eq_ : ((walkLines path lines foldedQuery limit index rest found).1.map
      SearchMatch.withoutColumn).length = _ :=
    congrArg List.length (walkLines_eq limit index rest room)
  rw [length_map, length_take] at eq_
  omega

theorem lines_text (file : TextFile) : Marks.lines file.text = file.gitLines := by
  have read : ∀ (rows : List Text) (rest : Text), (∀ row ∈ rows, '\n' ∉ row) →
      Marks.linesFrom [] (rows.flatMap (· ++ ['\n']) ++ rest) =
        rows.map Marks.lineText ++ Marks.linesFrom [] rest := by
    intro rows rest whole
    induction rows with
    | nil => rfl
    | cons row rows ih =>
      have first := whole row mem_cons_self
      have others := ih fun row member => whole row (mem_cons_of_mem _ member)
      have split : (row :: rows).flatMap (· ++ ['\n']) ++ rest =
          row ++ '\n' :: (rows.flatMap (· ++ ['\n']) ++ rest) := by simp
      rw [split, Marks.linesFrom_row first, others]
      rfl
  have open_ : ∀ (read rest : Text), '\n' ∉ rest →
      Marks.linesFrom read rest = if read ++ rest = [] then [] else [read ++ rest] := by
    intro read rest whole
    induction rest generalizing read with
    | nil => rw [Marks.linesFrom, append_nil]
    | cons c rest ih =>
      have other : c ≠ '\n' := fun same => whole (same ▸ mem_cons_self)
      rw [Marks.linesFrom, if_neg other, ih _ fun member => whole (mem_cons_of_mem _ member)]
      simp
  have plain : file.rows.map Marks.lineText = file.rows := by
    refine (map_congr_left fun row member => ?_).trans (map_id _)
    exact if_neg (file.plain row member)
  rw [Marks.lines, TextFile.text, read _ _ file.whole, open_ _ _ file.open_, TextFile.gitLines]
  simp [plain]

theorem take_take_append (limit : Nat) (front back : List SearchMatch) :
    (front.take limit ++ back).take limit = (front ++ back).take limit := by
  rcases Nat.le_total front.length limit with short | long
  · rw [take_of_length_le short]
  · have full : (front.take limit).length = limit := length_take_of_le long
    rw [take_append_of_le_length (Nat.le_of_eq full.symm), take_append_of_le_length long, take_take,
      Nat.min_self]

theorem walkFiles_eq (limit : Nat) {files : List TextFile} {found : List SearchMatch}
    {truncated : Bool} (room : found.length ≤ limit) :
    (walkFiles foldedQuery limit files found truncated).1.map SearchMatch.withoutColumn =
      (found.map SearchMatch.withoutColumn ++ files.flatMap (TextFile.hits foldedQuery)).take
      limit := by
  induction files generalizing found truncated with
  | nil =>
    rw [walkFiles, flatMap_nil, append_nil, take_of_length_le (by rwa [length_map])]
  | cons file files ih =>
    rw [walkFiles]
    split
    case isTrue full =>
      have exact_ : (found.map SearchMatch.withoutColumn).length = limit := by
        rw [length_map]
        exact Nat.le_antisymm room full
      rw [← exact_, take_left]
    case isFalse short =>
      rw [ih (walkLines_room limit room), walkLines_eq limit _ _ room, lines_text, take_take_append,
        flatMap_cons, ← append_assoc]
      rfl

end Walked

section Reading

/-- A path without the group marks it may start with. -/
def stripMarks : Text → Text
  | '-' :: '-' :: '\n' :: rest => stripMarks rest
  | path => path

/-- The records one by one; says whether the reading stopped. -/
def runRecords (foldedQuery : Text) (limit : Nat) : Parse → List Record → Parse × Bool
  | state, [] => (state, false)
  | state, (path, line, text) :: rest =>
    match state.record foldedQuery limit path line text with
    | (state, true) => (state, true)
    | (state, false) => runRecords foldedQuery limit state rest

/-- A record as it is read. -/
def unmarked (record : Record) : Record := (stripMarks record.1, record.2)

variable {foldedQuery : Text} {limit : Nat}

theorem runRecords_append (state : Parse) (front back : List Record) :
    runRecords foldedQuery limit state (front ++ back) =
      match runRecords foldedQuery limit state front with
      | (state, true) => (state, true)
      | (state, false) => runRecords foldedQuery limit state back := by
  induction front generalizing state with
  | nil => rfl
  | cons record front ih =>
    obtain ⟨path, line, text⟩ := record
    rw [cons_append, runRecords, runRecords]
    rcases state.record foldedQuery limit path line text with ⟨next, stop | stop⟩
    · exact ih next
    · rfl

theorem parseFrom_marks (state : Parse) (rest : Text) :
    parseFrom foldedQuery limit state ('-' :: '-' :: '\n' :: rest) =
      parseFrom foldedQuery limit state rest := by
  rw [parseFrom, dif_neg (cons_ne_nil _ _)]
  have strip := Marks.stripPrefix_append ['-', '-', '\n'] rest
  split
  case h_1 other eq_ =>
    rw [show '-' :: '-' :: '\n' :: rest = ['-', '-', '\n'] ++ rest from rfl, strip] at eq_
    cases eq_
    rfl
  case h_2 eq_ =>
    rw [show '-' :: '-' :: '\n' :: rest = ['-', '-', '\n'] ++ rest from rfl, strip] at eq_
    cases eq_

/-- One record behind a path that starts with no mark. -/
theorem parseFrom_plain (state : Parse) {path text : Text} {line : Nat} (rest : Text)
    (clean : ¬ ['-', '-', '\n'] <+: path) (named : '\x00' ∉ path) (small : line < 2 ^ 32)
    (row : '\n' ∉ text) : parseFrom foldedQuery limit state
        (path ++ '\x00' :: (Nat.toDigits 10 line ++ '\x00' :: (text ++ '\n' :: rest))) =
      match state.record foldedQuery limit path line text with
      | (state, true) => state
      | (state, false) => parseFrom foldedQuery limit state rest := by
  have strip : stripPrefix ['-', '-', '\n']
      (path ++ '\x00' :: (Nat.toDigits 10 line ++ '\x00' :: (text ++ '\n' :: rest))) = none := by
    apply Marks.stripPrefix_of_not
    intro start
    apply clean
    rcases path with _ | ⟨a, _ | ⟨b, _ | ⟨c, path⟩⟩⟩
    case cons.cons.cons =>
      simp only [cons_append, cons_prefix_cons, nil_prefix, and_true] at start ⊢
      exact start
    all_goals simp [cons_prefix_cons] at start
  have first := Marks.splitOnce_append named (Nat.toDigits 10 line ++ '\x00' ::
    (text ++ '\n' :: rest))
  have second := Marks.splitOnce_append (Marks.digits_free (c := '\x00') rfl line)
    (text ++ '\n' :: rest)
  have third := Marks.splitOnce_append row rest
  rw [parseFrom, dif_neg (by simp)]
  split
  case h_1 eq_ => rw [strip] at eq_; cases eq_
  split
  case h_1 eq_ => rw [first] at eq_; cases eq_
  case h_2 eq_ =>
  rw [first] at eq_
  cases eq_
  split
  case h_1 eq_ => rw [second] at eq_; cases eq_
  case h_2 eq_ =>
  rw [second] at eq_
  cases eq_
  simp only [third, Option.getD_some, Marks.parseU32_toDigits small]

theorem parseFrom_record (foldedQuery : Text) (limit : Nat) (state : Parse) {path text : Text}
    {line : Nat} (rest : Text) (named : '\x00' ∉ path) (small : line < 2 ^ 32) (row : '\n' ∉ text) :
    parseFrom foldedQuery limit state
        (path ++ '\x00' :: (Nat.toDigits 10 line ++ '\x00' :: (text ++ '\n' :: rest))) =
      match state.record foldedQuery limit (stripMarks path) line text with
      | (state, true) => state
      | (state, false) => parseFrom foldedQuery limit state rest := by
  fun_induction stripMarks path with
  | case1 path ih =>
    rw [← ih fun member => named (by simp [member])]
    exact parseFrom_marks state _
  | case2 path other =>
    apply parseFrom_plain state rest _ named small row
    rintro ⟨back, rfl⟩
    exact other back rfl

/-- The output read back is its records in order. -/
theorem parseFrom_printed (state : Parse) (last : Option (Text × Nat)) {records : List Record}
    (named : ∀ record ∈ records, '\x00' ∉ record.1)
    (small : ∀ record ∈ records, record.2.1 < 2 ^ 32)
    (row : ∀ record ∈ records, '\n' ∉ record.2.2) :
    parseFrom foldedQuery limit state (printed last records) =
      (runRecords foldedQuery limit state (records.map unmarked)).1 := by
  induction records generalizing state last with
  | nil => rw [printed, parseFrom]; rfl
  | cons record records ih =>
    obtain ⟨path, line, text⟩ := record
    have here := parseFrom_record foldedQuery limit state
      (printed (some (path, line)) records) (named _ mem_cons_self) (small _ mem_cons_self)
      (row _ mem_cons_self)
    have step : parseFrom foldedQuery limit state (printed last ((path, line, text) :: records)) =
        match state.record foldedQuery limit (stripMarks path) line text with
        | (state, true) => state
        | (state, false) =>
          parseFrom foldedQuery limit state (printed (some (path, line)) records) := by
      rw [printed]
      split
      · exact here
      · exact (parseFrom_marks state _).trans here
    rw [step, map_cons, unmarked, runRecords]
    rcases state.record foldedQuery limit (stripMarks path) line text with ⟨next, stop | stop⟩
    · exact ih next _ (fun r member => named r (mem_cons_of_mem _ member))
        (fun r member => small r (mem_cons_of_mem _ member))
        (fun r member => row r (mem_cons_of_mem _ member))
    · rfl

end Reading

end ForgeNode.Content
