import ForgeNode.Editor.Verdict
import ForgeNode.Editor.Surround
import ForgeNode.Editor.Layout

/-! What toggling line comments makes of the rows of a text. -/

namespace ForgeNode.Editor

open List hiding after choose
open Utf8 Splice Rows

variable {grammar : Grammar}

namespace Comment

variable {script : Script} {text : Text} {mark : Str} {rows : List (List UInt8)}

/-- The blanks a line starts with. -/
def blanksOf (row : List UInt8) : List UInt8 := (lineOf row).takeWhile Indent.isBlankByte

/-- What a line holds behind its blanks. -/
def contentOf (row : List UInt8) : List UInt8 := (lineOf row).dropWhile Indent.isBlankByte

/-- There is nothing but whitespace. -/
def Blank (script : Script) (content : List UInt8) : Prop :=
  Movement.leadingBlank script content content.length 0 = content.length

instance (script : Script) (content : List UInt8) : Decidable (Blank script content) :=
  inferInstanceAs (Decidable (_ = _))

theorem row_eq (row : List UInt8) : blanksOf row ++ (contentOf row ++ terminatorOf row) = row := by
  rw [← append_assoc, blanksOf, contentOf, takeWhile_append_dropWhile, lineOf_append]

theorem Blank.nil (script : Script) : Blank script [] := rfl

theorem content_ne_nil {row : List UInt8} (full : ¬Blank script (contentOf row)) :
    contentOf row ≠ [] := by
  intro nothing
  rw [nothing] at full
  exact full (Blank.nil script)

/-- The marker at the start of a content, with the space behind it. -/
def markedLen (mark : Str) (content : List UInt8) : Nat :=
  mark.len + if content[mark.len]? == some 32 then 1 else 0

/-- A row with the edit that the toggle makes in it. -/
def editRow (script : Script) (mark : Str) (uncomment : Bool) (row : List UInt8) : Row UInt8 :=
  if Blank script (contentOf row) then .kept row
  else if uncomment then
    .edited ⟨blanksOf row, (contentOf row).take (markedLen mark (contentOf row)), []⟩
      ((contentOf row).drop (markedLen mark (contentOf row)) ++ terminatorOf row)
  else .edited ⟨blanksOf row, [], (mark ++ .ofChars [' ']).bytes⟩ (contentOf row ++ terminatorOf row)

theorem editRow_before (script : Script) (mark : Str) (uncomment : Bool) (row : List UInt8) :
    (editRow script mark uncomment row).before = row := by
  unfold editRow
  split
  · rfl
  split
  · simp only [Row.before]
    rw [← append_assoc (List.take _ _), take_append_drop, row_eq]
  · simp only [Row.before, nil_append]
    exact row_eq row

theorem editRow_full (script : Script) (mark : Str) (row : List UInt8) :
    (editRow script mark false row).Full := by
  unfold editRow
  split
  · trivial
  · rename_i full
    intro nothing
    exact content_ne_nil full (append_eq_nil_iff.mp nothing).1

theorem editRow_inserts (script : Script) (mark : Str) (row : List UInt8) :
    (editRow script mark false row).Inserts := by
  unfold editRow
  split
  · trivial
  · rfl

section Target

variable (indexed : text.Indexed) (laid : text.Laid rows) {front back : List (List UInt8)}
  {row : List UInt8}
  (shape : rows = front ++ row :: back)

include indexed laid shape

theorem target_row (script : Script) : target script text front.length =
    if Blank script (contentOf row) then none
    else some (front.flatten.length + (blanksOf row).length, contentOf row) := by
  have here : front.length < rows.length := by
    rw [shape, length_append, length_cons]
    omega
  have parts := congrArg List.length (takeWhile_append_dropWhile (p := Indent.isBlankByte)
    (l := lineOf row))
  rw [length_append] at parts
  unfold target
  simp only [laid.line indexed shape, laid.lineStart indexed here, shape, take_left]
  have place : front.flatten.length + (lineOf row).length - ((lineOf row).dropWhile
      Indent.isBlankByte).length = front.flatten.length + (blanksOf row).length := by
    unfold blanksOf
    omega
  rw [place]
  rfl

theorem valid_content (full : ¬Blank script (contentOf row)) : Valid (contentOf row) := by
  have found := target_row indexed laid shape script
  rw [if_neg full] at found
  obtain ⟨column, _, boundary, content⟩ := target_column found
  have parts := (text.line front.length).valid.split column boundary.1 boundary.clean
  have same : contentOf row = (text.line front.length).bytes.drop column := by
    apply ext_getElem?
    intro index
    rw [getElem?_drop]
    exact content index
  rw [same]
  exact parts.2

end Target

/-- A line that starts with the marker holds it whole. -/
theorem markedLen_le {content : List UInt8}
    (starts : startsWith (· == ·) mark.bytes content = true) :
    markedLen mark content ≤ content.length := by
  have prefix_ : mark.len ≤ content.length := by
    by_contra short
    have inside : content.length < mark.bytes.length := Nat.lt_of_not_le short
    have byte := startsWith_getElem? starts inside
    rw [getElem?_eq_none (Nat.le_refl _), getElem?_eq_getElem inside] at byte
    cases byte
  unfold markedLen
  split
  · rename_i space
    have inside := (List.getElem?_eq_some_iff.mp (beq_iff_eq.mp space)).1
    omega
  · exact prefix_

/-- Whether a line is touched by any caret. -/
def touched (text : Text) (selection : Selection) (line : Nat) : Bool :=
  selection.cursors.any (touches text line)

/-- The edits of lines from one on are those of the rows. -/
theorem edits_from (script : Script) (mark : Str) (indexed : text.Indexed) (laid : text.Laid rows)
    (selection : Selection) (uncomment : Bool) (front : List (List UInt8))
    {back : List (List UInt8)} (shape : rows = front ++ back)
    (marked : uncomment = true → ∀ line row, rows[line]? = some row → touched text selection line =
      true →
      ¬Blank script (contentOf row) → startsWith (· == ·) mark.bytes (contentOf row) = true) :
    (((((List.range' front.length back.length).filter (touched text selection)).filterMap
      (target script text)).map (lineEdit mark uncomment)).map Edit.cut) =
        Rows.cuts front.flatten.length
        (choose (touched text selection) (editRow script mark uncomment)
          front.length back) := by
  induction back generalizing front with
  | nil => rfl
  | cons row rest ih =>
    have found := target_row indexed laid shape script
    have place : rows[front.length]? = some row := by
      rw [shape, getElem?_append_right (Nat.le_refl _), Nat.sub_self]
      rfl
    have later := ih (front ++ [row]) (by rw [shape, append_assoc]; rfl)
    rw [length_append, length_singleton, flatten_append, flatten_singleton,
      length_append] at later
    rw [length_cons, range'_succ, choose]
    cases on : touched text selection front.length with
    | false =>
      rw [filter_cons_of_neg (by rw [on]; exact Bool.false_ne_true), later]
      rfl
    | true =>
      rw [filter_cons_of_pos on]
      simp only [if_true]
      by_cases blank : Blank script (contentOf row)
      · rw [if_pos blank] at found
        rw [filterMap_cons_none found, later]
        have same : editRow script mark uncomment row = .kept row := if_pos blank
        rw [same]
        rfl
      · rw [if_neg blank] at found
        rw [filterMap_cons_some found, map_cons, map_cons, later]
        have size := congrArg List.length (row_eq row)
        simp only [length_append] at size
        cases uncomment with
        | false =>
          have same : editRow script mark false row = .edited ⟨blanksOf row, [],
              (mark ++ .ofChars [' ']).bytes⟩ (contentOf row ++ terminatorOf row) := if_neg blank
          rw [same]
          simp only [Rows.cuts, length_nil, Nat.add_zero, length_append, List.cons.injEq]
          refine ⟨rfl, ?_⟩
          congr 1
          omega
        | true =>
          have same : editRow script mark true row = .edited ⟨blanksOf row,
              (contentOf row).take (markedLen mark (contentOf row)), []⟩
                ((contentOf row).drop (markedLen mark (contentOf row)) ++ terminatorOf row) :=
                if_neg blank
          have fits := markedLen_le (marked rfl _ _ place on blank)
          have order : front.flatten.length + (blanksOf row).length ≤
              front.flatten.length + (blanksOf row).length + markedLen mark (contentOf row) :=
              Nat.le_add_right _ _
          rw [same]
          simp only [Rows.cuts, length_take, Nat.min_eq_left fits, length_append, List.length_drop,
            List.cons.injEq]
          constructor
          · unfold lineEdit
            simp only [if_true]
            change (Edit.delete (.new _ (_ + markedLen mark (contentOf row)))).cut = _
            rw [Range.new_of_le order]
            rfl
          · congr 1
            omega

/-- The direction of a toggle: every line that is not blank is commented already. -/
def uncomments (script : Script) (text : Text) (selection : Selection) (mark : Str) : Bool :=
  ((touchedLines text selection).filterMap (target script text)).all fun found =>
    startsWith (· == ·) mark.bytes found.2

/-- The rows with the edits of a toggle. -/
def toggled (script : Script) (text : Text) (selection : Selection) (mark : Str)
    (rows : List (List UInt8)) : List (Row UInt8) :=
  choose (touched text selection) (editRow script mark (uncomments script text selection mark)) 0 rows

section Toggled

variable (indexed : text.Indexed) (laid : text.Laid rows) (selection : Selection)

include indexed laid

theorem touchedLines_eq : touchedLines text selection =
    (List.range' 0 rows.length).filter (touched text selection) := by
  unfold touchedLines
  rw [laid.lineCount indexed, range_eq_range']
  rfl

theorem mem_targets {line : Nat} {row : List UInt8} (here : rows[line]? = some row)
    (on : touched text selection line = true) (full : ¬Blank script (contentOf row)) :
    ∃ place, (place, contentOf row) ∈ (touchedLines text selection).filterMap
    (target script text) := by
  obtain ⟨front, back, shape, size⟩ := exists_front here
  have found := target_row indexed laid shape script
  rw [if_neg full, size] at found
  refine ⟨_, mem_filterMap.mpr ⟨line, ?_, found⟩⟩
  rw [touchedLines_eq indexed laid]
  have inside := (List.getElem?_eq_some_iff.mp here).1
  exact mem_filter.mpr ⟨mem_range'_1.mpr ⟨Nat.zero_le _, by omega⟩, on⟩

theorem edits_eq (script : Script) (mark : Str) : (edits script text selection mark).map Edit.cut =
    Rows.cuts 0 (toggled script text selection mark rows) := by
  have all := edits_from script mark indexed laid selection (uncomments script text selection mark)
    [] rfl fun commented line row here on full => by
      obtain ⟨place, member⟩ := mem_targets indexed laid selection here on full
      exact all_eq_true.mp commented _ member
  have whole : (((touchedLines text selection).filterMap (target script text)).map
      (lineEdit mark (uncomments script text selection mark))).map Edit.cut =
        Rows.cuts 0 (toggled script text selection mark rows) := by
    rw [touchedLines_eq indexed laid]
    exact all
  exact whole

end Toggled

section Mark

variable (ascii : Ascii mark)

/-- What the mark brings along ends no line. -/
theorem mark_clean (found : lineComment grammar = some mark) :
    ∀ byte ∈ (mark ++ .ofChars [' ']).bytes, (byte == newlineByte) = false := by
  have clean : ∀ bytes : List UInt8, mark.bytes = bytes →
      (bytes.all fun byte => byte != newlineByte) = true → ∀ byte ∈ (mark ++ .ofChars [' ']).bytes,
      (byte == newlineByte) = false := by
    intro bytes same all byte member
    rw [Str.bytes_append, same] at member
    rcases mem_append.mp member with inside | space
    · exact beq_eq_false_iff_ne.mpr (bne_iff_ne.mp (all_eq_true.mp all byte inside))
    · rw [mem_singleton.mp space]
      rfl
  cases grammar with
  | rust | cLike | prisma =>
    obtain rfl := Option.some.inj found
    exact clean _ rfl rfl
  | sql =>
    obtain rfl := Option.some.inj found
    exact clean _ rfl rfl
  | python | shell | keyed | hcl | nix | dockerfile | http =>
    obtain rfl := Option.some.inj found
    exact clean _ rfl rfl
  | json | markdown | html | css | none => cases found

theorem mark_head (found : lineComment grammar = some mark) :
    ∃ lead rest, mark.bytes = lead :: rest ∧ Indent.isBlankByte lead = false := by
  cases grammar with
  | rust | cLike | prisma =>
    obtain rfl := Option.some.inj found
    exact ⟨47, [47], rfl, rfl⟩
  | sql =>
    obtain rfl := Option.some.inj found
    exact ⟨45, [45], rfl, rfl⟩
  | python | shell | keyed | hcl | nix | dockerfile | http =>
    obtain rfl := Option.some.inj found
    exact ⟨35, [], rfl, rfl⟩
  | json | markdown | html | css | none => cases found

end Mark

theorem terminatorOf_ended (body : List UInt8) {end_ : UInt8}
    (closes : (end_ == newlineByte) = true) : ∃ rest, terminatorOf (body ++ [end_]) = rest ++
      [end_] ∧ body = lineOf (body ++ [end_]) ++ rest := by
  have line := lineOf_ended body closes
  have parts := lineOf_append (body ++ [end_])
  have front : lineOf (body ++ [end_]) <+: body := by
    rw [line]
    split
    · exact dropLast_prefix body
    · exact prefix_refl body
  obtain ⟨rest, whole⟩ := front
  refine ⟨rest, ?_, whole.symm⟩
  refine append_cancel_left (?_ : lineOf (body ++ [end_]) ++ _ = lineOf (body ++ [end_]) ++ _)
  rw [parts, ← append_assoc, whole]

/-- The edit of a row leaves its newline where it is and brings no other. -/
theorem editRow_keeps (script : Script) {uncomment : Bool}
    (clean : ∀ byte ∈ (mark ++ .ofChars [' ']).bytes, (byte == newlineByte) = false) :
    Keeps (· == newlineByte) (editRow script mark uncomment) := by
  have bytes {row : List UInt8} {byte : UInt8}
      (member : byte ∈ (editRow script mark uncomment row).after) : byte ∈ row ∨
      byte ∈ (mark ++ .ofChars [' ']).bytes := by
    have whole := row_eq row
    unfold editRow at member
    split at member
    · exact .inl member
    split at member
    · rcases mem_append.mp member with gap | later
      · exact .inl (whole ▸ mem_append_left _ gap)
      · rw [nil_append] at later
        rcases mem_append.mp later with content | end_
        · exact .inl (whole ▸ mem_append_right _ (mem_append_left _ (mem_of_mem_drop content)))
        · exact .inl (whole ▸ mem_append_right _ (mem_append_right _ end_))
    · rcases mem_append.mp member with gap | later
      · exact .inl (whole ▸ mem_append_left _ gap)
      · rcases mem_append.mp later with marked | rest
        · exact .inr marked
        · exact .inl (whole ▸ mem_append_right _ rest)
  constructor
  · intro row inside byte member
    rcases bytes member with own | marked
    · exact inside byte own
    · exact clean byte marked
  · intro body end_ inside closes
    obtain ⟨rest, ends, split⟩ := terminatorOf_ended body closes
    have parts : body = (blanksOf (body ++ [end_]) ++ contentOf (body ++ [end_])) ++ rest := by
      rw [blanksOf, contentOf, takeWhile_append_dropWhile]
      exact split
    have gap : ∀ byte ∈ blanksOf (body ++ [end_]), (byte == newlineByte) = false := fun byte member =>
      inside byte (parts ▸ mem_append_left _ (mem_append_left _ member))
    have content : ∀ byte ∈ contentOf (body ++ [end_]), (byte == newlineByte) = false :=
      fun byte member =>
      inside byte (parts ▸ mem_append_left _ (mem_append_right _ member))
    have behind : ∀ byte ∈ rest, (byte == newlineByte) = false := fun byte member =>
      inside byte (parts ▸ mem_append_right _ member)
    unfold editRow
    split
    · exact ⟨body, rfl, inside⟩
    split
    · refine ⟨blanksOf (body ++ [end_]) ++ ((contentOf (body ++ [end_])).drop
        (markedLen mark (contentOf (body ++ [end_]))) ++ rest), ?_, ?_⟩
      · simp only [Row.after, ends, nil_append, append_assoc]
      · intro byte member
        rcases mem_append.mp member with front | later
        · exact gap byte front
        rcases mem_append.mp later with middle | back
        · exact content byte (mem_of_mem_drop middle)
        · exact behind byte back
    · refine ⟨blanksOf (body ++ [end_]) ++ ((mark ++ .ofChars [' ']).bytes ++
        (contentOf (body ++ [end_]) ++ rest)), ?_, ?_⟩
      · simp only [Row.after, ends, append_assoc]
      · intro byte member
        rcases mem_append.mp member with front | later
        · exact gap byte front
        rcases mem_append.mp later with marked | later
        · exact clean byte marked
        rcases mem_append.mp later with middle | back
        · exact content byte middle
        · exact behind byte back

/-- Skipping whitespace comes to the end just where there is nothing else. -/
theorem leadingBlank_end_iff (script : Script) {bytes : List UInt8} {fuel offset : Nat}
    {behind ahead : List Char} (here : Split bytes offset behind ahead)
    (enough : ahead.length ≤ fuel) : Movement.leadingBlank script bytes fuel offset = bytes.length ↔
      ∀ c ∈ ahead, script.isWhitespace c = true := by
  induction ahead generalizing fuel offset behind with
  | nil =>
    have none_ : charAt bytes offset = none := here.charAt
    have stays : Movement.leadingBlank script bytes fuel offset = offset := by
      cases fuel with
      | zero => rfl
      | succ fuel =>
        rw [Movement.leadingBlank, none_]
        rfl
    rw [stays]
    exact ⟨fun _ c member => (not_mem_nil member).elim, fun _ => here.at_end⟩
  | cons c rest ih =>
    cases fuel with
    | zero => exact absurd enough (Nat.not_succ_le_zero _)
    | succ fuel =>
      have at_ : charAt bytes offset = some c := here.charAt
      rw [Movement.leadingBlank, at_, Option.any_some, forall_mem_cons]
      by_cases white : script.isWhitespace c = true
      · rw [if_pos white, ih here.next (Nat.le_of_succ_le_succ enough)]
        exact ⟨fun later => ⟨white, later⟩, fun all => all.2⟩
      · rw [if_neg white]
        have before := here.before_end
        exact ⟨fun same => absurd same (Nat.ne_of_lt before), fun all => absurd all.1 white⟩

theorem blank_iff (script : Script) (chars : List Char) :
    Blank script (encode chars) ↔ ∀ c ∈ chars, script.isWhitespace c = true := by
  have here : Split (encode chars) 0 [] chars := ⟨rfl, rfl⟩
  exact leadingBlank_end_iff script here (length_le_encode chars)

theorem Blank.behind {first : Str} {content : List UInt8} (valid : Valid content)
    (blank : Blank script (first.bytes ++ content)) : Blank script content := by
  obtain ⟨front, same⟩ := first.valid.chars
  obtain ⟨chars, rfl⟩ := valid.chars
  rw [same, ← encode_append, blank_iff] at blank
  exact (blank_iff script chars).mpr fun c member => blank c (mem_append_right front member)

section Undo

variable {row : List UInt8} {lead : UInt8} {rest : List UInt8} (head : mark.bytes = lead :: rest)
  (printed : Indent.isBlankByte lead = false) (full : ¬Blank script (contentOf row))

include head printed full

/-- The parts of a row with the marker put in. -/
theorem commented_parts :
    let row' := (editRow script mark false row).after
    blanksOf row' = blanksOf row ∧ contentOf row' = (mark ++ .ofChars [' ']).bytes ++ contentOf row ∧
      terminatorOf row' = terminatorOf row := by
  have after : (editRow script mark false row).after =
      (blanksOf row ++ (mark ++ .ofChars [' ']).bytes ++ contentOf row) ++ terminatorOf row := by
    unfold editRow
    rw [if_neg full]
    simp only [Bool.false_eq_true, if_false, Row.after, append_assoc]
  have whole : blanksOf row ++ contentOf row = lineOf row := takeWhile_append_dropWhile
  have ends : Terminates (blanksOf row ++ contentOf row) (terminatorOf row) := by
    rw [whole]
    exact terminates row
  have line := (ends.behind (blanksOf row ++ (mark ++ .ofChars [' ']).bytes)
    (content_ne_nil full)).lineOf
  rw [← after] at line
  have blank : ∀ byte ∈ blanksOf row, Indent.isBlankByte byte = true := all_eq_true.mp all_takeWhile
  have marked : (mark ++ .ofChars [' ']).bytes ++ contentOf row = lead ::
      (rest ++ [32] ++ contentOf row) := by
    rw [Str.bytes_append, head]
    rfl
  simp only
  refine ⟨?_, ?_, line.2⟩
  · rw [blanksOf, line.1, append_assoc, marked, takeWhile_append_of_pos blank,
      takeWhile_cons_of_neg (by rw [printed]; exact Bool.false_ne_true), append_nil]
  · rw [contentOf, line.1, append_assoc, marked, dropWhile_append_of_pos blank,
      dropWhile_cons_of_neg (by rw [printed]; exact Bool.false_ne_true)]

end Undo

/-- Uncommenting a row that was just commented takes out what was put in. -/
theorem editRow_undo (found : lineComment grammar = some mark) {row : List UInt8}
    (valid : ¬Blank script (contentOf row) → Valid (contentOf row)) :
    editRow script mark true (editRow script mark false row).after =
      (editRow script mark false row).flip := by
  obtain ⟨lead, rest, head, printed⟩ := mark_head found
  by_cases blank : Blank script (contentOf row)
  · have kept (uncomment : Bool) : editRow script mark uncomment row = .kept row := if_pos blank
    rw [kept false]
    exact kept true
  · obtain ⟨gap, content, ends⟩ := commented_parts head printed blank
    have full : ¬Blank script (contentOf (editRow script mark false row).after) := by
      rw [content]
      exact fun white => blank (white.behind (valid blank))
    have space : markedLen mark (contentOf (editRow script mark false row).after) =
        (mark ++ .ofChars [' ']).bytes.length := by
      have byte : (contentOf (editRow script mark false row).after)[mark.len]? = some 32 := by
        have size : mark.len = mark.bytes.length := rfl
        rw [content, Str.bytes_append, append_assoc, size, getElem?_append_right (Nat.le_refl _),
          Nat.sub_self]
        rfl
      rw [markedLen, byte, Str.bytes_append, length_append]
      rfl
    have inner : editRow script mark false row =
        .edited ⟨blanksOf row, [], (mark ++ .ofChars [' ']).bytes⟩
        (contentOf row ++ terminatorOf row) := if_neg blank
    have outer : editRow script mark true (editRow script mark false row).after =
        .edited ⟨blanksOf (editRow script mark false row).after,
          (contentOf (editRow script mark false row).after).take
            (markedLen mark (contentOf (editRow script mark false row).after)), []⟩
          ((contentOf (editRow script mark false row).after).drop
            (markedLen mark (contentOf (editRow script mark false row).after)) ++
              terminatorOf (editRow script mark false row).after) := if_neg full
    rw [outer, space, gap, content, ends, take_left, drop_left, inner]
    rfl

section Offsets

theorem mapOffset_before {offset : Nat} {edits : List Edit} (shift : Int)
    (before : ∀ edit ∈ edits.head?, offset < edit.range.start) :
    mapOffset offset shift edits = (offset + shift).toNat := by
  cases edits with
  | nil => rfl
  | cons edit rest =>
    rw [mapOffset, if_pos (before edit rfl)]

private theorem first_cut {edits : List Edit} {start stop : Nat} {insert : List UInt8}
    {later : List (Cut UInt8)} (cuts : edits.map Edit.cut = ⟨start, stop, insert⟩ :: later) :
    ∃ edit rest, edits = edit :: rest ∧
      edit.range.start = start ∧ edit.range.stop = stop ∧ edit.insert.len = insert.length ∧
      rest.map Edit.cut = later := by
  obtain ⟨edit, rest, rfl, same, rfl⟩ := map_eq_cons_iff.mp cuts
  obtain ⟨rfl, rfl, rfl⟩ := Cut.mk.inj same
  exact ⟨edit, rest, rfl, rfl, rfl, rfl, rfl⟩

private theorem head_cuts {edits : List Edit} {rows : List (Row UInt8)} {at_ offset : Nat}
    (cuts : edits.map Edit.cut = Rows.cuts at_ rows) (before : offset < at_ ∨ rows = []) :
    ∀ edit ∈ edits.head?, offset < edit.range.start := by
  intro edit first
  have member : edit.cut ∈ Rows.cuts at_ rows := by
    rw [← cuts]
    exact mem_map_of_mem (mem_of_mem_head? first)
  rcases before with less | nothing
  · exact Nat.lt_of_lt_of_le less (Rows.le_of_mem_cuts member)
  · rw [nothing] at member
    cases member

/-- An offset of a row goes to the column that the row's edit takes it to. -/
theorem mapOffset_row {front back : List (Row UInt8)} {row : Row UInt8} {edits : List Edit}
    {column : Nat} (at_ to_ : Nat) (shift : Int)
    (cuts : edits.map Edit.cut = Rows.cuts at_ (front ++ row :: back))
    (full : ∀ other ∈ front, other.Full) (inside : Inside row back column)
    (start : (at_ : Int) + shift = to_) :
    mapOffset (at_ + (front.flatMap Row.before).length + column) shift edits =
      to_ + (front.flatMap Row.after).length + row.column column := by
  induction front generalizing edits at_ to_ shift with
  | nil =>
    simp only [flatMap_nil, length_nil, Nat.add_zero]
    cases row with
    | kept items =>
      have place : at_ + column < at_ + items.length ∨ back = [] := by
        rcases inside with within | ⟨nothing, _⟩
        · exact .inl (Nat.add_lt_add_left within at_)
        · exact .inr nothing
      have later : edits.map Edit.cut = Rows.cuts (at_ + items.length) back := cuts
      rw [mapOffset_before shift (head_cuts later place)]
      simp only [Row.column]
      omega
    | edited piece tail =>
      obtain ⟨edit, rest, rfl, first, last, insert, later⟩ := first_cut cuts
      have before : ∀ next ∈ rest.head?, at_ + column < next.range.start := by
        apply head_cuts later
        rcases inside with within | ⟨nothing, _⟩
        · left
          simp only [Row.before, length_append] at within
          omega
        · exact .inr nothing
      have size : edit.range.len = piece.removed.length := by
        rw [Range.len, first, last]
        omega
      rw [mapOffset, mapOffset_before _ before, first, last, insert, size]
      simp only [Row.column]
      split_ifs <;> omega
  | cons other front ih =>
    simp only [flatMap_cons, length_append]
    have later_full : ∀ row ∈ front, row.Full := fun row member => full row (mem_cons_of_mem _ member)
    cases other with
    | kept items =>
      have later := ih (at_ + items.length) (to_ + items.length) shift cuts later_full (by omega)
      simp only [Row.before, Row.after]
      rw [Nat.add_assoc at_ items.length, Nat.add_assoc to_ items.length] at later
      exact later
    | edited piece tail =>
      obtain ⟨edit, rest, rfl, first, last, insert, later⟩ := first_cut cuts
      have some_ : 0 < tail.length := length_pos_iff.mpr (full _ mem_cons_self)
      have size : edit.range.len = piece.removed.length := by
        rw [Range.len, first, last]
        omega
      have done := ih _ (to_ + piece.gap.length + piece.inserted.length + tail.length)
        (shift + (edit.insert.len - edit.range.len : Int)) later later_full (by
          rw [size, insert]
          omega)
      simp only [Row.before, Row.after, length_append]
      have place : at_ + (piece.gap.length + (piece.removed.length + tail.length) +
          (front.flatMap Row.before).length) + column = at_ + piece.gap.length +
          piece.removed.length + tail.length +
            (front.flatMap Row.before).length + column := by omega
      have past : ¬at_ + piece.gap.length + piece.removed.length + tail.length +
          (front.flatMap Row.before).length + column < edit.range.start := by
        rw [first]
        omega
      have beyond : ¬at_ + piece.gap.length + piece.removed.length + tail.length +
          (front.flatMap Row.before).length + column ≤ edit.range.stop := by
        rw [last]
        omega
      rw [place, mapOffset, if_neg past, if_neg beyond, done]
      omega

/-- Nothing is taken out of any row, so every byte is where its offset went. -/
theorem getElem?_column {row : Row UInt8} {back : List (Row UInt8)} {column : Nat}
    (inserts : row.Inserts) (inside : Inside row back column) :
    (row.after ++ back.flatMap Row.after)[row.column column]? =
      (row.before ++ back.flatMap Row.before)[column]? := by
  cases row with
  | kept items =>
    rcases inside with within | ⟨rfl, _⟩
    · exact (getElem?_append_left within).trans (getElem?_append_left within).symm
    · rfl
  | edited piece tail =>
    have none_ : piece.removed = [] := inserts
    have tails : column < piece.gap.length + tail.length ∨ back = [] := by
      rcases inside with within | ⟨nothing, _⟩
      · simp only [Row.before, none_, nil_append, length_append] at within
        exact .inl within
      · exact .inr nothing
    simp only [Row.column, Row.after, Row.before, none_, nil_append, length_nil, Nat.add_zero,
      Nat.sub_zero, append_assoc]
    by_cases early : column < piece.gap.length
    · rw [if_pos early, getElem?_append_left early, getElem?_append_left early]
    · have shifted : (if column < piece.gap.length then column
          else if column ≤ piece.gap.length then piece.gap.length + piece.inserted.length
          else column + piece.inserted.length) =
            piece.gap.length + (piece.inserted.length + (column - piece.gap.length)) := by
        split_ifs <;> omega
      rw [shifted, getElem?_append_right (Nat.le_add_right _ _), Nat.add_sub_cancel_left,
        getElem?_append_right (Nat.le_add_right _ _), Nat.add_sub_cancel_left,
        getElem?_append_right (Nat.le_of_not_lt early)]
      rcases tails with within | rfl
      · rw [getElem?_append_left (by omega), getElem?_append_left (by omega)]
      · rfl

end Offsets

end Comment

end ForgeNode.Editor
