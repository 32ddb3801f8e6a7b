import ForgeNode.Editor.Toggling

/-! What a toggle of line comments changes, and what toggling twice restores. -/

namespace ForgeNode.Editor

open List hiding after choose
open Utf8 Splice Rows

/-- The carets with their directions and the primary one, without goal columns. -/
def Selection.withoutGoals (selection : Selection) : Selection where
  cursors := selection.cursors.map fun cursor => .new cursor.anchor cursor.head
  primaryIndex := selection.primaryIndex
  inRange := by
    rw [length_map]
    exact selection.inRange

namespace Comment

variable {script : Script} {mark : Str} {document : Document}

/-- The line is changed at its first column that is not blank: a marker is put in or taken out. -/
def ChangedAt (script : Script) (mark : Str) (text new : Text) (line : Nat) : Prop :=
  ∃ blanks content, target script text line = some (text.lineStart line + blanks.length, content) ∧
    (text.line line).bytes = blanks ++ content ∧ (∀ byte ∈ blanks, Indent.isBlankByte byte = true) ∧
    (∀ byte ∈ content.head?, Indent.isBlankByte byte = false) ∧
    ((new.line line).bytes = blanks ++ ((mark ++ .ofChars [' ']).bytes ++ content) ∨
      ∃ space rest, (space = [] ∨ space = [32]) ∧ content = mark.bytes ++ (space ++ rest) ∧
        (new.line line).bytes = blanks ++ rest)

/-- Lines are those of the old text but for targets, which are changed at their first column that is
not blank. -/
def ChangesTargets (script : Script) (style : InputStyle) (old : Document) (new : Text) : Prop :=
  new.lineCount = old.text.lineCount ∧ ∀ line < old.text.lineCount,
    (new.lineTerminator line).bytes = (old.text.lineTerminator line).bytes ∧
    (new.line line = old.text.line line ∨ line ∈ touchedLines old.text old.selection ∧
      ∃ mark, lineComment style.grammar = some mark ∧ ChangedAt script mark old.text new line)

theorem changesTargets_refl (script : Script) (style : InputStyle) (document : Document) :
    ChangesTargets script style document document.text := ⟨rfl, fun _ _ => ⟨rfl, .inl rfl⟩⟩

theorem startsWith_split {needle haystack : List UInt8}
    (starts : startsWith (· == ·) needle haystack = true) : ∃ rest, haystack = needle ++ rest := by
  induction needle generalizing haystack with
  | nil => exact ⟨haystack, rfl⟩
  | cons first needle ih =>
    cases haystack with
    | nil => cases starts
    | cons byte haystack =>
      simp only [startsWith, Bool.and_eq_true, beq_iff_eq] at starts
      obtain ⟨rest, whole⟩ := ih starts.2
      exact ⟨rest, by rw [whole, starts.1]; rfl⟩

/-- The marker of a commented content, with the space behind it. -/
theorem marked_split {content : List UInt8}
    (starts : startsWith (· == ·) mark.bytes content = true) :
    ∃ space rest, (space = [] ∨ space = [32]) ∧ content = mark.bytes ++ (space ++ rest) ∧
      content.drop (markedLen mark content) = rest := by
  obtain ⟨tail, whole⟩ := startsWith_split starts
  have size : mark.len = mark.bytes.length := rfl
  have next : content[mark.len]? = tail.head? := by
    rw [whole, size, getElem?_append_right (Nat.le_refl _), Nat.sub_self, head?_eq_getElem?]
  unfold markedLen
  rw [next]
  by_cases space : tail.head? = some 32
  · obtain ⟨rest, rfl⟩ := head?_eq_some_iff.mp space
    refine ⟨[32], rest, .inr rfl, whole, ?_⟩
    have behind : mark.bytes ++ (32 :: rest) = (mark.bytes ++ [32]) ++ rest := by
      rw [append_assoc]
      rfl
    have length : mark.len + 1 = (mark.bytes ++ [32]).length := by
      rw [length_append]
      rfl
    rw [if_pos (beq_iff_eq.mpr space), whole, behind, length, drop_left]
  · refine ⟨[], tail, .inl rfl, whole, ?_⟩
    rw [if_neg (by rw [beq_iff_eq]; exact space), Nat.add_zero, whole, size, drop_left]

section Lines

variable {text new : Text} {rows : List (List UInt8)} {selection : Selection}

/-- What the edit of a row makes of its line, which ends as it did. -/
theorem editRow_line (mark : Str) (uncomment : Bool) {row : List UInt8}
    (full : ¬Blank script (contentOf row)) (marked : uncomment = true → startsWith (· == ·)
      mark.bytes (contentOf row) = true) :
    terminatorOf (editRow script mark uncomment row).after = terminatorOf row ∧
    (lineOf (editRow script mark uncomment row).after =
        blanksOf row ++ ((mark ++ .ofChars [' ']).bytes ++ contentOf row) ∨
      ∃ space rest, (space = [] ∨ space = [32]) ∧ contentOf row = mark.bytes ++ (space ++ rest) ∧
        lineOf (editRow script mark uncomment row).after = blanksOf row ++ rest) := by
  have whole : blanksOf row ++ contentOf row = lineOf row := takeWhile_append_dropWhile
  have ends : Terminates (blanksOf row ++ contentOf row) (terminatorOf row) := by
    rw [whole]
    exact terminates row
  have blank : ∀ byte ∈ blanksOf row, Indent.isBlankByte byte = true := all_eq_true.mp all_takeWhile
  unfold editRow
  rw [if_neg full]
  cases uncomment with
  | false =>
    have after : (Row.edited ⟨blanksOf row, [], (mark ++ .ofChars [' ']).bytes⟩
        (contentOf row ++ terminatorOf row)).after =
          (blanksOf row ++ (mark ++ .ofChars [' ']).bytes ++ contentOf row) ++ terminatorOf row := by
      simp only [Row.after, append_assoc]
    have line := (ends.behind (blanksOf row ++ (mark ++ .ofChars [' ']).bytes)
      (content_ne_nil full)).lineOf
    rw [← after] at line
    refine ⟨line.2, .inl ?_⟩
    rw [← append_assoc]
    exact line.1
  | true =>
    obtain ⟨space, rest, spaced, content, left⟩ := marked_split (marked rfl)
    have after : (Row.edited ⟨blanksOf row, (contentOf row).take (markedLen mark (contentOf row)), []⟩
        ((contentOf row).drop (markedLen mark (contentOf row)) ++ terminatorOf row)).after =
          (blanksOf row ++ rest) ++ terminatorOf row := by
      simp only [Row.after, left, nil_append, append_assoc]
    have ends' : Terminates (blanksOf row ++ rest) (terminatorOf row) := by
      by_cases nothing : rest = []
      · rw [nothing, append_nil]
        exact ends.blank blank
      · have split : blanksOf row ++ contentOf row = (blanksOf row ++ mark.bytes ++ space) ++
            rest := by
          rw [content]
          simp only [append_assoc]
        rw [split] at ends
        exact ends.behind _ nothing
    have line := ends'.lineOf
    rw [← after] at line
    exact ⟨line.2, .inr ⟨space, rest, spaced, content, line.1⟩⟩

end Lines

/-- The lines after the edits of a toggle. -/
theorem changesTargets_toggled {style : InputStyle} {rows : List (List UInt8)} {new : Text}
    (found : lineComment style.grammar = some mark) (indexed : document.text.Indexed)
    (laid : document.text.Laid rows) (newIndexed : new.Indexed)
    (changed : new.bytes.bytes = (toggled script document.text document.selection mark rows).flatMap
      Row.after) :
    ChangesTargets script style document new := by
  have laid' := toggled_laid found laid document.selection changed
  have before := toggled_before script document.text document.selection mark rows
  refine ⟨?_, fun line inside => ?_⟩
  · rw [laid.lineCount indexed, laid'.lineCount newIndexed, length_map, ← before, length_map]
    unfold toggled
    rw [choose_before (editRow_before script mark _)]
  · rw [laid.lineCount indexed] at inside
    have here : rows[line]? = some rows[line] := getElem?_eq_getElem inside
    have chosen : (toggled script document.text document.selection mark rows)[line]? = some
        (if touched document.text document.selection line then
          editRow script mark (uncomments script document.text document.selection mark) rows[line]
        else .kept rows[line]) := by
      rw [toggled, choose_getElem?, here, Nat.zero_add]
      rfl
    have here' : ((toggled script document.text document.selection mark rows).map
        Row.after)[line]? = some (if touched document.text document.selection line then
          editRow script mark (uncomments script document.text document.selection mark) rows[line]
        else .kept rows[line]).after := by
      rw [getElem?_map, chosen]
      rfl
    generalize rows[line] = row at here here'
    obtain ⟨front, back, shape, size⟩ := exists_front here
    obtain ⟨front', back', shape', size'⟩ := exists_front here'
    have oldLine := laid.line indexed shape
    have oldEnd := laid.lineTerminator indexed shape
    have newLine := laid'.line newIndexed shape'
    have newEnd := laid'.lineTerminator newIndexed shape'
    have targeted := target_row indexed laid shape script
    have start := laid.lineStart indexed (List.getElem?_eq_some_iff.mp here).1
    rw [shape, ← size, take_left] at start
    rw [size] at oldLine oldEnd targeted start
    rw [size'] at newLine newEnd
    by_cases on : touched document.text document.selection line = true
    · rw [if_pos on] at newLine newEnd
      by_cases blank : Blank script (contentOf row)
      · have kept (uncomment : Bool) : editRow script mark uncomment row = .kept row := if_pos blank
        rw [kept] at newLine newEnd
        exact ⟨newEnd.trans oldEnd.symm, .inl (Str.ext (newLine.trans oldLine.symm))⟩
      · obtain ⟨ends, made⟩ := editRow_line mark
          (uncomments script document.text document.selection mark) blank fun commented => by
            obtain ⟨place, member⟩ := mem_targets indexed laid document.selection here on blank
            exact all_eq_true.mp commented _ member
        rw [if_neg blank] at targeted
        have split : blanksOf row ++ contentOf row = lineOf row := takeWhile_append_dropWhile
        have listed : line ∈ touchedLines document.text document.selection := by
          rw [touchedLines_eq indexed laid]
          exact mem_filter.mpr ⟨mem_range'_1.mpr ⟨Nat.zero_le _, by omega⟩, on⟩
        refine ⟨newEnd.trans (ends.trans oldEnd.symm), .inr ⟨listed, mark, found, ?_⟩⟩
        refine ⟨blanksOf row, contentOf row, ?_, oldLine.trans split.symm,
          all_eq_true.mp all_takeWhile, ?_, ?_⟩
        · rw [targeted, start]
        · intro byte first
          have printed := head?_dropWhile_not Indent.isBlankByte (lineOf row)
          unfold contentOf at first
          rw [first] at printed
          exact printed
        · rw [newLine]
          exact made
    · rw [if_neg on] at newLine newEnd
      exact ⟨newEnd.trans oldEnd.symm, .inl (Str.ext (newLine.trans oldLine.symm))⟩

theorem applied_text (indexed : document.text.Indexed) {transaction : Transaction}
    (edited : transaction.edits = edits script document.text document.selection mark)
    (valid : document.breakUndoGroup.validate transaction = .ok ()) :
    (document.breakUndoGroup.applyValidated transaction true).2.text.bytes.bytes =
        splice 0 document.text.bytes.bytes
        ((edits script document.text document.selection mark).map Edit.cut) ∧
      (document.breakUndoGroup.applyValidated transaction true).2.text.Indexed := by
  constructor
  · have bytes := Document.applyValidated_splice valid true
    rw [Transaction.cuts, edited] at bytes
    exact bytes
  · exact @Replay.run_indexed ⟨document.text, 0, 0, _⟩ indexed transaction.edits

/-- A toggle changes target lines only. -/
theorem toggle_changesTargets (script : Script) (style : InputStyle)
    (indexed : document.text.Indexed) :
    ChangesTargets script style document (toggle script style document).2.text := by
  cases writable : document.readOnly with
  | true =>
    have same : toggle script style document = (.error .readOnly, document) := by
      unfold toggle
      rw [writable]
      rfl
    rw [same]
    exact changesTargets_refl script style document
  | false =>
    cases found : lineComment style.grammar with
    | none =>
      have same : toggle script style document = (.ok none, document) := by
        unfold toggle
        rw [writable, found]
        rfl
      rw [same]
      exact changesTargets_refl script style document
    | some mark =>
      rcases toggle_cases script indexed writable found with
        ⟨_, same⟩ | ⟨size, limit, same⟩ | ⟨transaction, edited, _, valid, same⟩
      · rw [same]
        exact changesTargets_refl script style document
      · rw [same]
        exact changesTargets_refl script style document
      · rw [same]
        obtain ⟨rows, rowed, whole⟩ := exists_rowed (· == newlineByte) document.text.bytes.bytes
        have laid : document.text.Laid rows := ⟨rowed, whole⟩
        obtain ⟨bytes, newIndexed⟩ := applied_text indexed edited valid
        rw [toggled_splice indexed laid] at bytes
        generalize (document.breakUndoGroup.applyValidated transaction true).2.text =
          new at bytes newIndexed ⊢
        exact changesTargets_toggled found indexed laid newIndexed bytes

/-- The toggle is not refused for the size of what it makes. -/
def Fits (script : Script) (style : InputStyle) (document : Document) : Prop :=
  ∀ size limit, (toggle script style document).1 ≠ .error (.tooLarge size limit)

/-- A target line is not commented yet. -/
def Uncommented (script : Script) (mark : Str) (document : Document) : Prop :=
  ∃ line ∈ touchedLines document.text document.selection, ∃ place,
    target script document.text line = some place ∧ startsWith (· == ·) mark.bytes place.2 = false

theorem uncomments_eq_false (uncommented : Uncommented script mark document) :
    uncomments script document.text document.selection mark = false := by
  obtain ⟨line, there, place, found, bare⟩ := uncommented
  apply all_eq_false.mpr
  refine ⟨place, mem_filterMap.mpr ⟨line, there, found⟩, ?_⟩
  rw [bare]
  exact Bool.false_ne_true

theorem edits_ne_nil (uncommented : Uncommented script mark document) :
    edits script document.text document.selection mark ≠ [] := by
  obtain ⟨line, there, place, found, _⟩ := uncommented
  apply ne_nil_of_length_pos
  unfold edits
  simp only [length_map]
  exact length_pos_of_mem (mem_filterMap.mpr ⟨line, there, found⟩)

section Twice

variable {style : InputStyle} (found : lineComment style.grammar = some mark)
  (reached : document.Reached)

include found reached

/-- Putting the markers in moves every caret, and keeps their order, directions and the primary
one. -/
theorem once_selection {rows : List (List UInt8)} (laid : document.text.Laid rows)
    (puts : uncomments script document.text document.selection mark = false)
    {transaction : Transaction}
    (edited : transaction.edits = edits script document.text document.selection mark)
    (after : transaction.selectionAfter = some (.many (document.selection.cursors.map
      (moved (edits script document.text document.selection mark)))
      document.selection.primaryIndex))
    (valid : document.breakUndoGroup.validate transaction = .ok ()) :
    (document.breakUndoGroup.applyValidated transaction true).2.selection.cursors =
        document.selection.cursors.map
        (moved (edits script document.text document.selection mark)) ∧
      (document.breakUndoGroup.applyValidated transaction true).2.selection.primaryIndex =
        document.selection.primaryIndex := by
  have indexed := reached.indexed
  have placed := reached.placed
  have inserts := edits_insert document.selection puts
  obtain ⟨bytes, newIndexed⟩ := applied_text indexed edited valid
  rw [toggled_splice indexed laid] at bytes
  have inside : document.selection.primaryIndex < (document.selection.cursors.map
      (moved (edits script document.text document.selection mark))).length := by
    rw [length_map]
    exact document.selection.inRange
  have settled : (document.breakUndoGroup.applyValidated transaction true).2.selection =
      ⟨_, _, inside⟩ :=
    Document.applyValidated_cursors inside after
    (moved_apart inserts placed.sound.apart) (by rw [length_map]; exact placed.sound.few) (by
      intro cursor member
      obtain ⟨own, there, rfl⟩ := List.mem_map.mp member
      obtain ⟨anchor, head⟩ := placed.inside own there
      obtain ⟨_, _, _, _, _, _, _, _, _, first, _⟩ :=
        offset_placed found indexed laid document.selection puts newIndexed bytes anchor
      obtain ⟨_, _, _, _, _, _, _, _, _, last, _⟩ :=
        offset_placed found indexed laid document.selection puts newIndexed bytes head
      exact ⟨rfl, first, last⟩)
  rw [settled]
  exact ⟨rfl, rfl⟩

/-- Commenting and uncommenting again. -/
theorem toggle_back (writable : document.readOnly = false)
    (uncommented : Uncommented script mark document) (fits : Fits script style document)
    (fitsAgain : Fits script style (toggle script style document).2) :
    (∃ applied, (toggle script style document).1 = .ok (some applied)) ∧
    (∃ applied, (toggle script style (toggle script style document).2).1 = .ok (some applied)) ∧
    (toggle script style (toggle script style document).2).2.text = document.text ∧
    (toggle script style (toggle script style document).2).2.selection =
      document.selection.withoutGoals := by
  have indexed := reached.indexed
  have placed := reached.placed
  have puts := uncomments_eq_false uncommented
  obtain ⟨rows, rowed, whole⟩ := exists_rowed (· == newlineByte) document.text.bytes.bytes
  have laid : document.text.Laid rows := ⟨rowed, whole⟩
  have inside : ∀ cursor ∈ document.selection.cursors,
      document.text.bytes.IsBoundary cursor.range.start ∧
      document.text.bytes.IsBoundary cursor.range.stop := fun cursor member => placed.range member
  rcases toggle_cases script indexed writable found with
    ⟨nothing, _⟩ | ⟨size, limit, same⟩ | ⟨transaction, edited, after, valid, same⟩
  · exact absurd nothing (edits_ne_nil uncommented)
  · rw [Fits, same] at fits
    exact absurd rfl (fits size limit)
  rw [same] at fitsAgain ⊢
  obtain ⟨bytes, newIndexed⟩ := applied_text indexed edited valid
  obtain ⟨carets, primary⟩ := once_selection found reached laid puts edited after valid
  rw [toggled_splice indexed laid] at bytes
  have writable' : (document.breakUndoGroup.applyValidated transaction true).2.readOnly = false :=
    writable
  generalize (document.breakUndoGroup.applyValidated transaction true).2 = once
    at fitsAgain bytes newIndexed carets primary writable' ⊢
  rcases toggle_cases script newIndexed writable' found with
    ⟨nothing, _⟩ | ⟨size, limit, again⟩ | ⟨transaction', edited', after', valid', again⟩
  · exact absurd nothing (edits_after_ne_nil found indexed laid document.selection puts newIndexed
      bytes carets inside (edits_ne_nil uncommented))
  · rw [Fits, again] at fitsAgain
    exact absurd rfl (fitsAgain size limit)
  rw [again]
  obtain ⟨bytes', indexed'⟩ := applied_text newIndexed edited' valid'
  rw [splice_after found indexed laid document.selection puts newIndexed bytes carets
    inside] at bytes'
  have text := indexed'.ext indexed (Str.ext bytes')
  refine ⟨⟨_, rfl⟩, ⟨_, rfl⟩, text, ?_⟩
  have back : once.selection.cursors.map (moved (edits script once.text once.selection mark)) =
      document.selection.withoutGoals.cursors := by
    rw [carets, map_map]
    apply map_congr_left
    intro cursor member
    obtain ⟨anchor, head⟩ := placed.inside cursor member
    have first := mapOffset_after found indexed laid document.selection puts newIndexed bytes carets
      inside anchor
    have last := mapOffset_after found indexed laid document.selection puts newIndexed bytes carets
      inside head
    simp only [Function.comp_apply, moved, Cursor.new, first, last]
  rw [back, primary] at after'
  apply Document.applyValidated_cursors document.selection.withoutGoals.inRange after'
  · apply pairwise_map.mpr
    apply placed.sound.apart.imp
    intro first second gap
    exact gap
  · unfold Selection.withoutGoals
    rw [length_map]
    exact placed.sound.few
  · intro cursor member
    obtain ⟨own, there, rfl⟩ := List.mem_map.mp member
    rw [text]
    exact ⟨rfl, placed.inside own there⟩

end Twice

/-- Toggling twice where a target is not commented yet brings the text and the carets back, without
their goal columns; and every toggle changes target lines only, at their first column that is not
blank. -/
theorem toggle_twice (script : Script) (style : InputStyle) {document : Document}
    (reached : document.Reached) :
    (∀ mark, document.readOnly = false → lineComment style.grammar = some mark →
      Uncommented script mark document → Fits script style document →
      Fits script style (toggle script style document).2 →
        (∃ applied, (toggle script style document).1 = .ok (some applied)) ∧
        (∃ applied, (toggle script style (toggle script style document).2).1 = .ok (some applied)) ∧
        (toggle script style (toggle script style document).2).2.text = document.text ∧
        (toggle script style (toggle script style document).2).2.selection =
          document.selection.withoutGoals) ∧
    ChangesTargets script style document (toggle script style document).2.text :=
  ⟨fun _ writable found uncommented fits fitsAgain =>
      toggle_back found reached writable uncommented fits fitsAgain,
    toggle_changesTargets script style reached.indexed⟩

def slashes : InputStyle := ⟨.spaces 4, false, .cLike⟩

/-- The caret on the second line of `"a\nb"`, where it came by moving down. -/
def movedDown : Document :=
  (Document.fromString (.ofChars ['a', '\n', 'b']) false).executeAll Movement.asciiScript asciiWords
    slashes [.moveDown false]

theorem movedDown_reached : movedDown.Reached :=
  Document.executeAll_reached (.load (.ofChars ['a', '\n', 'b']) false) Movement.asciiScript
  asciiWords slashes
    [.moveDown false]

theorem movedDown_uncommented : Uncommented Movement.asciiScript (.ofChars ['/', '/']) movedDown :=
  ⟨1, by decide, (2, [98]), by decide, by decide⟩

theorem fits_of_ok {script : Script} {style : InputStyle} {document : Document}
    (done : (toggle script style document).1.toOption.isSome = true) :
    Fits script style document := by
  intro size limit refused
  rw [refused] at done
  cases done

theorem movedDown_fits : Fits Movement.asciiScript slashes movedDown ∧
    Fits Movement.asciiScript slashes (toggle Movement.asciiScript slashes movedDown).2 :=
  ⟨fits_of_ok (by decide), fits_of_ok (by decide)⟩

theorem toggle_twice_movedDown :
    (toggle Movement.asciiScript slashes (toggle Movement.asciiScript slashes movedDown).2).2.text =
      movedDown.text :=
  ((toggle_twice Movement.asciiScript slashes movedDown_reached).1 (.ofChars ['/', '/'])
  (by decide) rfl
    movedDown_uncommented movedDown_fits.1 movedDown_fits.2).2.2.1

/-- The caret that moved down forgets the column it came from. -/
theorem toggle_twice_forgets : movedDown.Reached ∧ movedDown.readOnly = false ∧
    lineComment slashes.grammar = some (.ofChars ['/', '/']) ∧
    Uncommented Movement.asciiScript (.ofChars ['/', '/']) movedDown ∧
    Fits Movement.asciiScript slashes movedDown ∧
    Fits Movement.asciiScript slashes (toggle Movement.asciiScript slashes movedDown).2 ∧
    (toggle Movement.asciiScript slashes (toggle Movement.asciiScript slashes
      movedDown).2).2.selection ≠
      movedDown.selection := by
  refine ⟨movedDown_reached, by decide, rfl, movedDown_uncommented, movedDown_fits.1, movedDown_fits.2, ?_⟩
  decide

end Comment

end ForgeNode.Editor
