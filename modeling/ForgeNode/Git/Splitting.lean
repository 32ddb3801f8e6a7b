import ForgeNode.Git.Marks
import ForgeNode.Orchestration.Prompt

/-! Splitting the patch of many files into the patches of each path. -/

namespace ForgeNode.Splitting

open List
open Marks (Text stripPrefix diffGit)
open Orchestration (takeBytes)
open Orchestration.Prompt (size)

variable {patches : List FilePatch}

/-- `split_inclusive('\n')`, `row` being read already. -/
def rowsFrom (row : Text) : Text → List Text
  | [] => if row = [] then [] else [row]
  | c :: rest => if c = '\n' then (row ++ [c]) :: rowsFrom [] rest else rowsFrom (row ++ [c]) rest

/-- `trim_end_matches('\n')`. -/
def trimNewlines (row : Text) : Text := row.rdropWhile (· == '\n')

def offsetsFrom (offset : Nat) : List Text → List (Nat × Text)
  | [] => []
  | row :: rows => (offset, trimNewlines row) :: offsetsFrom (offset + size row) rows

/-- The byte offset and the text of every line. -/
def lineOffsets (text : Text) : List (Nat × Text) := offsetsFrom 0 (rowsFrom [] text)

def dropBytes : Nat → Text → Text
  | 0, text => text
  | _, [] => []
  | offset + 1, c :: rest => dropBytes (offset + 1 - c.utf8Size) rest

/-- `&text[start..end]`. -/
def slice (text : Text) (start stop : Nat) : Text := takeBytes (stop - start) (dropBytes start text)

def devNull : Text := ['/', 'd', 'e', 'v', '/', 'n', 'u', 'l', 'l']

/-- Git's prefix is dropped. -/
def bare (path : Text) : Text :=
  match stripPrefix ['a', '/'] path with
  | some rest => rest
  | none => match stripPrefix ['b', '/'] path with
    | some rest => rest
    | none => path

/-- The loop of `path_from_chunk`: the path of the new side, else the one of the old. -/
def sidePath (fallback : Option Text) : List Text → Option Text
  | [] => fallback
  | line :: lines => match stripPrefix ['+', '+', '+', ' '] line with
    | some rest => if rest = devNull then sidePath fallback lines else some (bare rest)
    | none => match stripPrefix ['-', '-', '-', ' '] line with
      | some rest => sidePath (if rest = devNull then fallback else some (bare rest)) lines
      | none => if ['@', '@'].isPrefixOf line then fallback else sidePath fallback lines

/-- `&header[separator + 1..]` for the first ` b/`. -/
def behindSeparator : Text → Option Text
  | [] => none
  | c :: rest => if [' ', 'b', '/'].isPrefixOf (c :: rest) then some rest else behindSeparator rest

def pathFromChunk (chunk : Text) : Option Text :=
  match sidePath none ((lineOffsets chunk).map (·.2)) with
  | some path => some path
  | none => match Marks.lines chunk with
    | [] => none
    | first :: _ => match stripPrefix diffGit first with
      | none => none
      | some header => (behindSeparator header).map bare

/-- The ranges of every key, in the order of the text. -/
def rangesOf (chunks : List (Text × Nat × Nat)) (path : Text) : Option (List (Nat × Nat)) :=
  let own := (chunks.filter (·.1 = path)).map (·.2)
  if own = [] then none else some own

/-- The chunks of a patch: one from each marker to the next, or to the end, where it names a
path. -/
def chunksFrom (text : Text) : List Nat → List (Text × Nat × Nat)
  | [] => []
  | start :: rest =>
    let stop := rest.head?.getD (size text)
    match pathFromChunk (slice text start stop) with
    | none => chunksFrom text rest
    | some path => (path, start, stop) :: chunksFrom text rest

def splitPatch (text : Text) : List (Text × Nat × Nat) :=
  chunksFrom text (((lineOffsets text).filter fun line => diffGit.isPrefixOf line.2).map (·.1))

/-- What a patch says of its file: text that was added, deleted or changed, or nothing but its
header. -/
inductive Kind where
  | added | deleted | modified | headerOnly
  deriving DecidableEq

/-- One file's patch. `quoted` is how git shows a path that it has to quote, with the side in front
of it. -/
structure FilePatch where
  path : Text
  kind : Kind
  /-- The path as git quotes it behind `a/` and `b/`, where it has to. -/
  quoted : Option (Text × Text)
  /-- Modes, index and whatever else stands between the first line and the two sides. -/
  extended : List Text
  /-- The hunks. -/
  body : List Text

/-- A name with a blank in it is closed with a tab. -/
def sideText (name : Text) : Text :=
  name ++ if name.contains ' ' then ['\t'] else []

def FilePatch.oldName (patch : FilePatch) : Text :=
  match patch.quoted with
  | some (old, _) => old
  | none => ['a', '/'] ++ patch.path

def FilePatch.newName (patch : FilePatch) : Text :=
  match patch.quoted with
  | some (_, new) => new
  | none => ['b', '/'] ++ patch.path

def FilePatch.oldSide (patch : FilePatch) : Text := sideText patch.oldName

def FilePatch.newSide (patch : FilePatch) : Text := sideText patch.newName

/-- The first line, behind its marker. -/
def FilePatch.header (patch : FilePatch) : Text := patch.oldName ++ [' '] ++ patch.newName

def FilePatch.sides (patch : FilePatch) : List Text :=
  match patch.kind with
  | .added => [['-', '-', '-', ' '] ++ devNull, ['+', '+', '+', ' '] ++ patch.newSide]
  | .deleted => [['-', '-', '-', ' '] ++ patch.oldSide, ['+', '+', '+', ' '] ++ devNull]
  | .modified => [['-', '-', '-', ' '] ++ patch.oldSide, ['+', '+', '+', ' '] ++ patch.newSide]
  | .headerOnly => []

def FilePatch.rows (patch : FilePatch) : List Text :=
  (diffGit ++ patch.header) :: (patch.extended ++ patch.sides ++ patch.body)

def render (rows : List Text) : Text := rows.flatMap (· ++ ['\n'])

/-- Git's format: a path with a control character, a quote or a backslash in it is quoted, and what
stands before the hunks looks like neither side, hunk nor file. -/
structure FilePatch.WellFormed (patch : FilePatch) : Prop where
  plain : patch.quoted = none → '\n' ∉ patch.path ∧ '\r' ∉ patch.path
  quoted : ∀ old new, patch.quoted = some (old, new) →
    ['"'] <+: old ∧ ['"'] <+: new ∧ ('\n' ∉ old ∧ '\r' ∉ old) ∧ '\n' ∉ new ∧ '\r' ∉ new
  extended : ∀ row ∈ patch.extended, '\n' ∉ row ∧ ¬ ['+', '+', '+', ' '] <+: row ∧
    ¬ ['-', '-', '-', ' '] <+: row ∧ ¬ ['@', '@'] <+: row ∧ ¬ diffGit <+: row
  body : ∀ row ∈ patch.body, '\n' ∉ row ∧ ¬ diffGit <+: row
  hunks : patch.kind ≠ .headerOnly → ∃ first rest, patch.body = first :: rest ∧ ['@', '@'] <+: first
  empty : patch.kind = .headerOnly → patch.body = []

/-- The key that a patch is filed under. -/
def FilePatch.key (patch : FilePatch) : Option Text :=
  match patch.kind with
  | .added | .modified => some (bare patch.newSide)
  | .deleted => some (bare patch.oldSide)
  | .headerOnly => (behindSeparator patch.header).map bare

section Rows

theorem rowsFrom_row {row : Text} (whole : '\n' ∉ row) (read rest : Text) :
    rowsFrom read (row ++ '\n' :: rest) = (read ++ row ++ ['\n']) :: rowsFrom [] rest := by
  induction row generalizing read with
  | nil => simp [rowsFrom]
  | cons c row ih =>
    have other : c ≠ '\n' := fun same => whole (by rw [same]; exact mem_cons_self)
    have later : '\n' ∉ row := fun member => whole (mem_cons_of_mem _ member)
    rw [cons_append, rowsFrom, if_neg other, ih later]
    simp

theorem render_cons (row : Text) (rows : List Text) :
    render (row :: rows) = row ++ '\n' :: render rows := by
  rw [render, flatMap_cons, append_assoc]
  rfl

theorem rowsFrom_render {rows : List Text} (whole : ∀ row ∈ rows, '\n' ∉ row) :
    rowsFrom [] (render rows) = rows.map (· ++ ['\n']) := by
  induction rows with
  | nil => rfl
  | cons row rows ih =>
    obtain ⟨first, others⟩ := forall_mem_cons.mp whole
    rw [render_cons, rowsFrom_row first, ih others]
    rfl

theorem trimNewlines_row {row : Text} (whole : '\n' ∉ row) :
    trimNewlines (row ++ ['\n']) = row := by
  rw [trimNewlines, rdropWhile_concat_pos _ _ _ (by simp)]
  rcases eq_nil_or_concat' row with rfl | ⟨front, last, rfl⟩
  · rfl
  · have other : ¬ (last == '\n') = true := fun same => whole (by simp [beq_iff_eq.mp same])
    rw [rdropWhile_concat_neg (fun c => c == '\n') front last other]

/-- The lines with their offsets, as the rows were written. -/
def placed (offset : Nat) : List Text → List (Nat × Text)
  | [] => []
  | row :: rows => (offset, row) :: placed (offset + (size row + 1)) rows

theorem size_newline (row : Text) : size (row ++ ['\n']) = size row + 1 := by
  rw [Orchestration.Prompt.size_append]
  rfl

theorem offsetsFrom_rows {rows : List Text} (whole : ∀ row ∈ rows, '\n' ∉ row) (offset : Nat) :
    offsetsFrom offset (rows.map (· ++ ['\n'])) = placed offset rows := by
  induction rows generalizing offset with
  | nil => rfl
  | cons row rows ih =>
    obtain ⟨first, others⟩ := forall_mem_cons.mp whole
    rw [map_cons, offsetsFrom, trimNewlines_row first, size_newline, ih others]
    rfl

theorem lineOffsets_render {rows : List Text} (whole : ∀ row ∈ rows, '\n' ∉ row) :
    lineOffsets (render rows) = placed 0 rows := by
  rw [lineOffsets, rowsFrom_render whole, offsetsFrom_rows whole]

theorem placed_texts (offset : Nat) (rows : List Text) : (placed offset rows).map (·.2) = rows := by
  induction rows generalizing offset with
  | nil => rfl
  | cons row rows ih => rw [placed, map_cons, ih]

theorem placed_append (offset : Nat) (front back : List Text) :
    placed offset (front ++ back) = placed offset front ++ placed (offset + size (render front))
    back := by
  induction front generalizing offset with
  | nil => rfl
  | cons row front ih =>
    have rows : size (render (row :: front)) = size row + 1 + size (render front) := by
      rw [render_cons, Orchestration.Prompt.size_append, Orchestration.Prompt.size_cons]
      have one : '\n'.utf8Size = 1 := by decide
      omega
    rw [cons_append, placed, ih, placed, rows, cons_append, Nat.add_assoc]

theorem takeBytes_exact (front back : Text) : takeBytes (size front) (front ++ back) = front := by
  induction front with
  | nil =>
    cases back with
    | nil => rfl
    | cons c back =>
      have wide : ¬ c.utf8Size ≤ 0 := Nat.not_le_of_lt c.utf8Size_pos
      rw [nil_append, Orchestration.Prompt.size_nil, takeBytes, if_neg wide]
  | cons c front ih =>
    rw [cons_append, Orchestration.Prompt.size_cons, takeBytes, if_pos (Nat.le_add_right _ _),
      Nat.add_sub_cancel_left, ih]

theorem dropBytes_exact (front back : Text) : dropBytes (size front) (front ++ back) = back := by
  induction front with
  | nil => cases back <;> rfl
  | cons c front ih =>
    have some_ := c.utf8Size_pos
    obtain ⟨less, lessIs⟩ : ∃ less, size (c :: front) = less + 1 :=
      ⟨size (c :: front) - 1, by rw [Orchestration.Prompt.size_cons]; omega⟩
    have left : less + 1 - c.utf8Size = size front := by
      rw [Orchestration.Prompt.size_cons] at lessIs
      omega
    rw [lessIs, cons_append, dropBytes, left, ih]

theorem slice_exact (front part back : Text) :
    slice (front ++ part ++ back) (size front) (size front + size part) = part := by
  rw [slice, append_assoc, dropBytes_exact, Nat.add_sub_cancel_left, takeBytes_exact]

end Rows

section Keys

variable {patch : FilePatch}

theorem names_free (formed : patch.WellFormed) :
    ('\n' ∉ patch.oldName ∧ '\r' ∉ patch.oldName) ∧ '\n' ∉ patch.newName ∧
    '\r' ∉ patch.newName := by
  cases quoted : patch.quoted with
  | none =>
    obtain ⟨line, return_⟩ := formed.plain quoted
    simp [FilePatch.oldName, FilePatch.newName, quoted, line, return_]
  | some names =>
    simp only [FilePatch.oldName, FilePatch.newName, quoted]
    exact (formed.quoted names.1 names.2 quoted).2.2

theorem side_free {name : Text} (free : '\n' ∉ name) : '\n' ∉ sideText name := by
  unfold sideText
  split <;> simp [free]

theorem header_free (formed : patch.WellFormed) : '\n' ∉ patch.header ∧ '\r' ∉ patch.header := by
  obtain ⟨⟨oldLine, oldReturn⟩, newLine, newReturn⟩ := names_free formed
  simp [FilePatch.header, oldLine, oldReturn, newLine, newReturn]

theorem side_named {name : Text} {c : Char} (lead : [c] <+: name) (other : c ≠ '/') :
    sideText name ≠ devNull := by
  intro same
  obtain ⟨rest, rfl⟩ := lead
  exact other (List.cons.inj same).1

theorem newSide_named (formed : patch.WellFormed) : patch.newSide ≠ devNull := by
  cases quoted : patch.quoted with
  | none =>
    rw [FilePatch.newSide, FilePatch.newName, quoted]
    exact @side_named _ 'b' ⟨'/' :: patch.path, rfl⟩ (by decide)
  | some names =>
    rw [FilePatch.newSide, FilePatch.newName, quoted]
    exact side_named (formed.quoted names.1 names.2 quoted).2.1 (by decide)

theorem oldSide_named (formed : patch.WellFormed) : patch.oldSide ≠ devNull := by
  cases quoted : patch.quoted with
  | none =>
    rw [FilePatch.oldSide, FilePatch.oldName, quoted]
    exact @side_named _ 'a' ⟨'/' :: patch.path, rfl⟩ (by decide)
  | some names =>
    rw [FilePatch.oldSide, FilePatch.oldName, quoted]
    exact side_named (formed.quoted names.1 names.2 quoted).1 (by decide)

theorem sides_free (formed : patch.WellFormed) : ∀ row ∈ patch.sides, '\n' ∉ row := by
  have null : '\n' ∉ devNull := by decide
  have old : '\n' ∉ patch.oldSide := side_free (names_free formed).1.1
  have new : '\n' ∉ patch.newSide := side_free (names_free formed).2.1
  cases kind : patch.kind <;> simp [FilePatch.sides, kind, null, old, new]

theorem rows_free (formed : patch.WellFormed) : ∀ row ∈ patch.rows, '\n' ∉ row := by
  intro row member
  rcases mem_cons.mp member with rfl | member
  · simp [diffGit, (header_free formed).1]
  · rcases mem_append.mp member with member | body
    · rcases mem_append.mp member with extended | side
      · exact (formed.extended row extended).1
      · exact sides_free formed row side
    · exact (formed.body row body).1

theorem sidePath_pass {rows : List Text} (fallback : Option Text) (rest : List Text)
    (pass : ∀ row ∈ rows, ¬ ['+', '+', '+', ' '] <+: row ∧ ¬ ['-', '-', '-', ' '] <+: row ∧
      ¬ ['@', '@'] <+: row) :
    sidePath fallback (rows ++ rest) = sidePath fallback rest := by
  induction rows with
  | nil => rfl
  | cons row rows ih =>
    obtain ⟨⟨new, old, hunk⟩, others⟩ := forall_mem_cons.mp pass
    rw [cons_append, sidePath, Marks.stripPrefix_of_not new, Marks.stripPrefix_of_not old]
    dsimp only
    rw [if_neg (by simpa using hunk)]
    exact ih others

theorem sidePath_old (fallback : Option Text) (side : Text) (rest : List Text) :
    sidePath fallback ((['-', '-', '-', ' '] ++ side) :: rest) =
      sidePath (if side = devNull then fallback else some (bare side)) rest := by
  have other : ¬ ['+', '+', '+', ' '] <+: ['-', '-', '-', ' '] ++ side := by
    intro lead
    exact absurd (cons_prefix_cons.mp lead).1 (by decide)
  rw [sidePath, Marks.stripPrefix_of_not other, Marks.stripPrefix_append]

theorem sidePath_new (fallback : Option Text) (side : Text) (rest : List Text) :
    sidePath fallback ((['+', '+', '+', ' '] ++ side) :: rest) =
      if side = devNull then sidePath fallback rest else some (bare side) := by
  rw [sidePath, Marks.stripPrefix_append]

theorem sidePath_hunk (fallback : Option Text) {first : Text} (hunk : ['@', '@'] <+: first)
    (rest : List Text) : sidePath fallback (first :: rest) = fallback := by
  obtain ⟨more, rfl⟩ := hunk
  have new : ¬ ['+', '+', '+', ' '] <+: ['@', '@'] ++ more := fun lead =>
    absurd (cons_prefix_cons.mp lead).1 (by decide)
  have old : ¬ ['-', '-', '-', ' '] <+: ['@', '@'] ++ more := fun lead =>
    absurd (cons_prefix_cons.mp lead).1 (by decide)
  rw [sidePath, Marks.stripPrefix_of_not new, Marks.stripPrefix_of_not old]
  dsimp only
  rw [if_pos (by simp)]

/-- What the two sides say, whatever stands in front of them. -/
theorem sidePath_rows (formed : patch.WellFormed) :
    sidePath none patch.rows = if patch.kind = .headerOnly then none else patch.key := by
  have front : ∀ row ∈ (diffGit ++ patch.header) :: patch.extended,
      ¬ ['+', '+', '+', ' '] <+: row ∧ ¬ ['-', '-', '-', ' '] <+: row ∧ ¬ ['@', '@'] <+: row := by
    intro row member
    rcases mem_cons.mp member with rfl | member
    · refine ⟨?_, ?_, ?_⟩
      · exact fun lead => absurd (cons_prefix_cons.mp lead).1 (by decide)
      · exact fun lead => absurd (cons_prefix_cons.mp lead).1 (by decide)
      · exact fun lead => absurd (cons_prefix_cons.mp lead).1 (by decide)
    · obtain ⟨-, new, old, hunk, -⟩ := formed.extended row member
      exact ⟨new, old, hunk⟩
  have rows : patch.rows = ((diffGit ++ patch.header) :: patch.extended) ++
      (patch.sides ++ patch.body) := by
    simp [FilePatch.rows]
  rw [rows, sidePath_pass none _ front]
  have named := newSide_named formed
  have oldNamed := oldSide_named formed
  cases kind : patch.kind with
  | added =>
    have sides : patch.sides = [['-', '-', '-', ' '] ++ devNull, ['+', '+', '+', ' '] ++
        patch.newSide] := by
      rw [FilePatch.sides, kind]
    rw [sides]
    change sidePath none ((['-', '-', '-', ' '] ++ devNull) ::
      (['+', '+', '+', ' '] ++ patch.newSide) :: patch.body) = _
    rw [sidePath_old, sidePath_new, if_neg named]
    simp [FilePatch.key, kind]
  | modified =>
    have sides : patch.sides = [['-', '-', '-', ' '] ++ patch.oldSide, ['+', '+', '+', ' '] ++
        patch.newSide] := by
      rw [FilePatch.sides, kind]
    rw [sides]
    change sidePath none ((['-', '-', '-', ' '] ++ patch.oldSide) ::
      (['+', '+', '+', ' '] ++ patch.newSide) :: patch.body) = _
    rw [sidePath_old, sidePath_new, if_neg named]
    simp [FilePatch.key, kind]
  | deleted =>
    obtain ⟨first, rest, body, hunk⟩ := formed.hunks (by simp [kind])
    have sides : patch.sides = [['-', '-', '-', ' '] ++ patch.oldSide, ['+', '+', '+', ' '] ++
        devNull] := by
      rw [FilePatch.sides, kind]
    rw [sides, body]
    change sidePath none ((['-', '-', '-', ' '] ++ patch.oldSide) ::
      (['+', '+', '+', ' '] ++ devNull) ::
      first :: rest) = _
    rw [sidePath_old, sidePath_new, if_pos rfl, if_neg oldNamed, sidePath_hunk _ hunk]
    simp [FilePatch.key, kind]
  | headerOnly => simp [FilePatch.sides, kind, formed.empty kind, sidePath]

theorem pathFromChunk_render (formed : patch.WellFormed) :
    pathFromChunk (render patch.rows) = patch.key := by
  have whole := rows_free formed
  rw [pathFromChunk, lineOffsets_render whole, placed_texts, sidePath_rows formed]
  have lines : Marks.lines (render patch.rows) = patch.rows.map Marks.lineText :=
    Marks.lines_rows whole
  have free : '\r' ∉ diffGit ++ patch.header := by
    simp [diffGit, (header_free formed).2]
  have header : Marks.lineText (diffGit ++ patch.header) = diffGit ++ patch.header := by
    have append := Marks.lineText_append free []
    rw [append_nil] at append
    rw [append]
    exact append_nil _
  by_cases only : patch.kind = .headerOnly
  · rw [if_pos only, lines, FilePatch.rows, map_cons, header]
    simp only [Marks.stripPrefix_append, FilePatch.key, only]
  · rw [if_neg only]
    cases kind : patch.kind <;> simp_all [FilePatch.key]

end Keys

section Chunks

/-- Where the patches begin. -/
def begins (offset : Nat) : List FilePatch → List Nat
  | [] => []
  | patch :: patches => offset :: begins (offset + size (render patch.rows)) patches

/-- Every patch with its range. -/
def spans (offset : Nat) : List FilePatch → List (FilePatch × Nat × Nat)
  | [] => []
  | patch :: patches =>
    (patch, offset, offset + size (render patch.rows)) :: spans (offset + size (render patch.rows))
      patches

/-- The batch: all patches behind one another. -/
def batch (patches : List FilePatch) : Text := render (patches.flatMap FilePatch.rows)

theorem render_append (front back : List Text) :
    render (front ++ back) = render front ++ render back :=
  flatMap_append

theorem batch_cons (patch : FilePatch) (patches : List FilePatch) :
    batch (patch :: patches) = render patch.rows ++ batch patches := by
  rw [batch, flatMap_cons, render_append]
  rfl

theorem placed_filter {rows : List Text} (plain : ∀ row ∈ rows, ¬ diffGit <+: row) (offset : Nat) :
    (placed offset rows).filter (fun line => diffGit.isPrefixOf line.2) = [] := by
  apply filter_eq_nil_iff.mpr
  intro line member
  have row : line.2 ∈ rows := by
    rw [← placed_texts offset rows]
    exact mem_map_of_mem member
  simpa using plain line.2 row

theorem sides_plain (patch : FilePatch) : ∀ row ∈ patch.sides, ¬ diffGit <+: row := by
  have minus : ∀ side : Text, ¬ diffGit <+: ['-', '-', '-', ' '] ++ side := fun side lead =>
    absurd (cons_prefix_cons.mp lead).1 (by decide)
  have plus : ∀ side : Text, ¬ diffGit <+: ['+', '+', '+', ' '] ++ side := fun side lead =>
    absurd (cons_prefix_cons.mp lead).1 (by decide)
  intro row member
  cases kind : patch.kind <;> simp only [FilePatch.sides, kind, mem_cons, not_mem_nil,
    or_false] at member
  · rcases member with rfl | rfl
    · exact minus _
    · exact plus _
  · rcases member with rfl | rfl
    · exact minus _
    · exact plus _
  · rcases member with rfl | rfl
    · exact minus _
    · exact plus _

theorem starts_batch (formed : ∀ patch ∈ patches, patch.WellFormed) (offset : Nat) :
    ((placed offset (patches.flatMap FilePatch.rows)).filter fun line =>
      diffGit.isPrefixOf line.2).map (·.1) =
      begins offset patches := by
  induction patches generalizing offset with
  | nil => rfl
  | cons patch patches ih =>
    obtain ⟨first, others⟩ := forall_mem_cons.mp formed
    have plain : ∀ row ∈ patch.extended ++ patch.sides ++ patch.body, ¬ diffGit <+: row := by
      intro row member
      rcases mem_append.mp member with member | body
      · rcases mem_append.mp member with extended | side
        · exact (first.extended row extended).2.2.2.2
        · exact sides_plain patch row side
      · exact (first.body row body).2
    have own : (placed offset patch.rows).filter (fun line => diffGit.isPrefixOf line.2) =
        [(offset, diffGit ++ patch.header)] := by
      rw [FilePatch.rows, placed, filter_cons_of_pos (by simp), placed_filter plain]
    rw [flatMap_cons, placed_append, filter_append, own, map_append, ih others]
    rfl

theorem chunksFrom_batch (formed : ∀ patch ∈ patches, patch.WellFormed) (front : Text) :
    chunksFrom (front ++ batch patches) (begins (size front) patches) =
      (spans (size front) patches).filterMap fun span => span.1.key.map fun key =>
      (key, span.2) := by
  induction patches generalizing front with
  | nil => rfl
  | cons patch patches ih =>
    obtain ⟨first, others⟩ := forall_mem_cons.mp formed
    have stop : (begins (size front + size (render patch.rows)) patches).head?.getD
        (size (front ++ batch (patch :: patches))) = size front + size (render patch.rows) := by
      cases patches with
      | nil =>
        rw [batch_cons]
        simp [begins, batch, render]
      | cons next more => rfl
    have cut : slice (front ++ batch (patch :: patches)) (size front)
        (size front + size (render patch.rows)) =
        render patch.rows := by
      rw [batch_cons, ← append_assoc]
      exact slice_exact _ _ _
    have later := ih others (front ++ render patch.rows)
    rw [Orchestration.Prompt.size_append, append_assoc, ← batch_cons] at later
    rw [begins, chunksFrom]
    simp only [stop, cut, pathFromChunk_render first, later, spans]
    cases key : patch.key <;> simp [key]

theorem splitPatch_batch (formed : ∀ patch ∈ patches, patch.WellFormed) :
    splitPatch (batch patches) =
      (spans 0 patches).filterMap fun span => span.1.key.map fun key => (key, span.2) := by
  have whole : ∀ row ∈ patches.flatMap FilePatch.rows, '\n' ∉ row := by
    intro row member
    obtain ⟨patch, among, inside⟩ := mem_flatMap.mp member
    exact rows_free (formed patch among) row inside
  have starts := starts_batch formed 0
  have chunks := chunksFrom_batch formed []
  rw [splitPatch]
  rw [← lineOffsets_render whole] at starts
  rw [show lineOffsets (batch patches) = lineOffsets (render (patches.flatMap FilePatch.rows))
    from rfl, starts]
  exact chunks

theorem spans_patches (offset : Nat) (patches : List FilePatch) :
    (spans offset patches).map (·.1) = patches := by
  induction patches generalizing offset with
  | nil => rfl
  | cons patch patches ih => rw [spans, map_cons, ih]

theorem spans_start {offset : Nat} :
    ∀ span ∈ spans offset patches, offset ≤ span.2.1 := by
  induction patches generalizing offset with
  | nil => exact fun _ member => absurd member not_mem_nil
  | cons patch patches ih =>
    intro span member
    rcases mem_cons.mp member with rfl | later
    · exact Nat.le_refl _
    · exact Nat.le_trans (Nat.le_add_right _ _) (ih span later)

/-- No two patches have one range. -/
theorem spans_nodup (offset : Nat) (patches : List FilePatch) :
    ((spans offset patches).map (·.2)).Nodup := by
  induction patches generalizing offset with
  | nil => exact nodup_nil
  | cons patch patches ih =>
    have some_ : 0 < size (render patch.rows) := by
      rw [FilePatch.rows, render_cons, Orchestration.Prompt.size_append,
        Orchestration.Prompt.size_cons]
      have one := '\n'.utf8Size_pos
      omega
    rw [spans, map_cons]
    apply nodup_cons.mpr
    refine ⟨fun member => ?_, ih _⟩
    obtain ⟨span, later, same⟩ := List.mem_map.mp member
    have start := spans_start span later
    rw [same] at start
    dsimp only at start
    omega

theorem keyed_ranges (path : Text) (listed : List (FilePatch × Nat × Nat)) :
    ((listed.filterMap fun span => span.1.key.map fun key => (key, span.2)).filter (·.1 = path)).map
    (·.2) =
      (listed.filter (·.1.key = some path)).map (·.2) := by
  induction listed with
  | nil => rfl
  | cons span listed ih =>
    cases key : span.1.key with
    | none => simpa [key] using ih
    | some other =>
      by_cases same : other = path
      · simpa [key, same] using ih
      · simpa [key, same] using ih

/-- The ranges of a path's own patches, in order. -/
def ownRanges (patches : List FilePatch) (path : Text) : List (Nat × Nat) :=
  ((spans 0 patches).filter (·.1.path = path)).map (·.2)

/-- Every path, of the batch or not, has no entry, or its own patches and nothing else. -/
def Told (patches : List FilePatch) : Prop :=
  ∀ path, rangesOf (splitPatch (batch patches)) path = none ∨
    rangesOf (splitPatch (batch patches)) path = some (ownRanges patches path)

theorem told_at_iff {patches : List FilePatch} (formed : ∀ patch ∈ patches, patch.WellFormed)
    (path : Text) : (rangesOf (splitPatch (batch patches)) path = none ∨
      rangesOf (splitPatch (batch patches)) path = some (ownRanges patches path)) ↔
      (∀ patch ∈ patches, patch.key ≠ some path) ∨
        ∀ patch ∈ patches, patch.key = some path ↔ patch.path = path := by
  have among : ∀ span ∈ spans 0 patches, span.1 ∈ patches := by
    intro span member
    rw [← spans_patches 0 patches]
    exact mem_map_of_mem member
  have listed : ∀ patch ∈ patches, ∃ range, (patch, range) ∈ spans 0 patches := by
    intro patch member
    rw [← spans_patches 0 patches] at member
    obtain ⟨span, spanned, rfl⟩ := List.mem_map.mp member
    exact ⟨span.2, spanned⟩
  have one := inj_on_of_nodup_map (spans_nodup 0 patches)
  simp only [rangesOf, splitPatch_batch formed, keyed_ranges, map_eq_nil_iff]
  constructor
  · rintro (none_ | some_)
    · left
      intro patch member key
      obtain ⟨range, spanned⟩ := listed patch member
      split at none_
      case isTrue empty => exact absurd key (by simpa using filter_eq_nil_iff.mp empty _ spanned)
      case isFalse => cases none_
    · right
      intro patch member
      obtain ⟨range, spanned⟩ := listed patch member
      split at some_
      case isTrue => cases some_
      case isFalse =>
        have same := Option.some.inj some_
        constructor
        · intro key
          have inside : range ∈ ownRanges patches path := by
            rw [← same]
            exact List.mem_map.mpr ⟨(patch, range), mem_filter.mpr ⟨spanned, decide_eq_true key⟩, rfl⟩
          obtain ⟨span, filtered, rfl⟩ := List.mem_map.mp inside
          obtain ⟨member, own⟩ := mem_filter.mp filtered
          have equal := one member spanned rfl
          rw [equal] at own
          exact of_decide_eq_true own
        · intro own
          have inside : range ∈ ((spans 0 patches).filter (·.1.key = some path)).map (·.2) := by
            rw [same]
            exact List.mem_map.mpr ⟨(patch, range), mem_filter.mpr ⟨spanned, decide_eq_true own⟩, rfl⟩
          obtain ⟨span, filtered, rfl⟩ := List.mem_map.mp inside
          obtain ⟨member, key⟩ := mem_filter.mp filtered
          have equal := one member spanned rfl
          rw [equal] at key
          exact of_decide_eq_true key
  · rintro (none_ | same)
    · left
      have empty : (spans 0 patches).filter (·.1.key = some path) = [] := by
        apply filter_eq_nil_iff.mpr
        intro span member
        simpa using none_ span.1 (among span member)
      rw [if_pos empty]
    · have equal : (spans 0 patches).filter (·.1.key = some path) = (spans 0 patches).filter
          (·.1.path = path) := by
        apply filter_congr
        intro span member
        exact decide_eq_decide.mpr (same span.1 (among span member))
      rw [equal]
      split
      · exact .inl rfl
      · exact .inr rfl

/-- A batch is told apart just where every key is the path of the patches that have it, and of no
others. -/
theorem split_patch_iff {patches : List FilePatch} (formed : ∀ patch ∈ patches, patch.WellFormed) :
    Told patches ↔ ∀ key ∈ patches.filterMap FilePatch.key,
      ∀ patch ∈ patches, patch.key = some key ↔ patch.path = key := by
  unfold Told
  simp only [told_at_iff formed]
  constructor
  · intro told key filed
    obtain ⟨patch, member, named⟩ := mem_filterMap.mp filed
    exact (told key).resolve_left fun none_ => none_ patch member named
  · intro own path
    by_cases filed : path ∈ patches.filterMap FilePatch.key
    · exact .inr (own path filed)
    · exact .inl fun patch member named => filed (mem_filterMap.mpr ⟨patch, member, named⟩)

/-- A file with text that git need not quote. -/
def changed (path : Text) : FilePatch where
  path := path
  kind := .modified
  quoted := none
  extended := []
  body := [['@', '@']]

theorem changed_formed {path : Text} (line : '\n' ∉ path) (return_ : '\r' ∉ path) :
    (changed path).WellFormed := by
  constructor
  · exact fun _ => ⟨line, return_⟩
  · exact fun _ _ quoted => nomatch quoted
  · exact fun _ member => absurd member not_mem_nil
  · intro row member
    rw [mem_singleton.mp member]
    decide
  · exact fun _ => ⟨['@', '@'], [], rfl, prefix_rfl⟩
  · exact fun only => nomatch only

theorem split_patch_iff_plain : Told [changed ['a'], changed ['b']] := by
  have formed : ∀ patch ∈ [changed ['a'], changed ['b']], patch.WellFormed := by
    intro patch member
    simp only [mem_cons, not_mem_nil, or_false] at member
    rcases member with rfl | rfl
    · exact changed_formed (by decide) (by decide)
    · exact changed_formed (by decide) (by decide)
  apply (split_patch_iff formed).mpr
  decide

/-- The file of which git shows the name, blank and tab, between quotes. -/
def tabbed : FilePatch where
  path := ['a', ' ', 'b', '\t']
  kind := .modified
  quoted := some ("\"a/a b\\t\"".toList, "\"b/a b\\t\"".toList)
  extended := []
  body := [['@', '@']]

/-- The tab that closes a name with a blank makes it the name of another file. -/
theorem not_told : ¬ ∀ patches : List FilePatch, (∀ patch ∈ patches, patch.WellFormed) →
    Told patches := by
  intro always
  have tabbed_formed : tabbed.WellFormed := by
    constructor
    · exact fun plain => nomatch plain
    · intro old new quoted
      obtain ⟨rfl, rfl⟩ := Prod.mk.inj (Option.some.inj quoted)
      decide
    · exact fun _ member => absurd member not_mem_nil
    · intro row member
      rw [mem_singleton.mp member]
      decide
    · exact fun _ => ⟨['@', '@'], [], rfl, prefix_rfl⟩
    · exact fun only => nomatch only
  have formed : ∀ patch ∈ [changed ['a', ' ', 'b'], tabbed], patch.WellFormed := by
    intro patch member
    simp only [mem_cons, not_mem_nil, or_false] at member
    rcases member with rfl | rfl
    · exact changed_formed (by decide) (by decide)
    · exact tabbed_formed
  have told := always _ formed
  rw [split_patch_iff formed] at told
  revert told
  decide

end Chunks

end ForgeNode.Splitting
