import ForgeNode.Editor.Marking

/-! Toggling line comments: where the carets and the lines go, and that toggling again brings them
back. -/

namespace ForgeNode.Editor

open List hiding after choose
open Utf8 Splice Rows

namespace Comment

variable {script : Script} {text : Text} {mark : Str} {rows : List (List UInt8)}

section Inserted

variable {edits : List Edit} (inserts : ∀ edit ∈ edits, edit.range.start = edit.range.stop)

include inserts

/-- Insertions push offsets further on. -/
theorem le_mapOffset (offset shift : Nat) : offset + shift ≤ mapOffset offset shift edits := by
  induction edits generalizing shift with
  | nil =>
    rw [mapOffset]
    omega
  | cons edit rest ih =>
    have same := inserts edit mem_cons_self
    have none_ : edit.range.len = 0 := by
      unfold Range.len
      omega
    have later := ih (fun other member => inserts other (mem_cons_of_mem _ member))
      (shift + edit.insert.len)
    have more : (shift : Int) + (edit.insert.len - edit.range.len : Int) =
        (shift + edit.insert.len : Nat) := by omega
    rw [mapOffset, more]
    split_ifs <;> omega

theorem mapOffset_lt {first last : Nat} (order : first < last) (shift : Nat) :
    mapOffset first shift edits < mapOffset last shift edits := by
  induction edits generalizing shift with
  | nil =>
    simp only [mapOffset]
    omega
  | cons edit rest ih =>
    have same := inserts edit mem_cons_self
    have none_ : edit.range.len = 0 := by
      unfold Range.len
      omega
    have others : ∀ other ∈ rest, other.range.start = other.range.stop := fun other member =>
      inserts other (mem_cons_of_mem _ member)
    have later := ih others (shift + edit.insert.len)
    have far := le_mapOffset others last (shift + edit.insert.len)
    have more : (shift : Int) + (edit.insert.len - edit.range.len : Int) =
        (shift + edit.insert.len : Nat) := by omega
    rw [mapOffset, mapOffset, more]
    split_ifs <;> omega

theorem mapOffset_mono {first last : Nat} (order : first ≤ last) (shift : Nat) :
    mapOffset first shift edits ≤ mapOffset last shift edits := by
  rcases Nat.lt_or_eq_of_le order with less | same
  · exact Nat.le_of_lt (mapOffset_lt inserts less shift)
  · rw [same]

end Inserted

/-- The caret with both ends mapped. -/
def moved (edits : List Edit) (cursor : Cursor) : Cursor :=
  .new (mapOffset cursor.anchor 0 edits) (mapOffset cursor.head 0 edits)

section Moved

variable {edits : List Edit} (inserts : ∀ edit ∈ edits, edit.range.start = edit.range.stop)
  (cursor : Cursor)

include inserts

theorem moved_start : (moved edits cursor).range.start = mapOffset cursor.range.start 0 edits := by
  rw [Cursor.range_start, Cursor.range_start]
  have mono : Monotone fun offset => mapOffset offset 0 edits := fun first last order =>
    mapOffset_mono inserts order 0
  exact mono.map_min.symm

theorem moved_stop : (moved edits cursor).range.stop = mapOffset cursor.range.stop 0 edits := by
  rw [Cursor.range_stop, Cursor.range_stop]
  have mono : Monotone fun offset => mapOffset offset 0 edits := fun first last order =>
    mapOffset_mono inserts order 0
  exact mono.map_max.symm

theorem moved_apart {cursors : List Cursor} (apart : cursors.Pairwise Cursor.apart) :
    (cursors.map (moved edits)).Pairwise Cursor.apart := by
  apply pairwise_map.mpr
  apply apart.imp
  intro first second gap
  unfold Cursor.apart at gap ⊢
  rw [moved_stop inserts, moved_start inserts]
  exact mapOffset_lt inserts gap 0

end Moved

/-- What a toggle does where the grammar has line comments. -/
theorem toggle_cases (script : Script) {document : Document} (indexed : document.text.Indexed)
    (writable : document.readOnly = false) {style : InputStyle}
    (found : lineComment style.grammar = some mark) :
    (edits script document.text document.selection mark = [] ∧ toggle script style document =
      (.ok none, document)) ∨ (∃ size limit, toggle script style document =
        (.error (.tooLarge size limit), document.breakUndoGroup)) ∨
    ∃ transaction : Transaction, transaction.edits = edits script document.text document.selection
    mark ∧
      transaction.selectionAfter = some (.many (document.selection.cursors.map
        (moved (edits script document.text document.selection mark)))
        document.selection.primaryIndex) ∧
      document.breakUndoGroup.validate transaction = .ok () ∧
      toggle script style document =
        (.ok (some (document.breakUndoGroup.applyValidated transaction true).1),
          (document.breakUndoGroup.applyValidated transaction true).2) := by
  obtain ⟨disjoint, inside⟩ := edits_placed script indexed (lineComment_ascii found)
    document.selection
  have built := Transaction.new_of_disjoint disjoint.isChain .replace document.selection
  unfold toggle
  rw [writable, found]
  simp only [Bool.false_eq_true, if_false, built]
  by_cases empty : edits script document.text document.selection mark = []
  · left
    exact ⟨empty, if_pos (List.isEmpty_iff.mpr empty)⟩
  · rw [if_neg (by rw [List.isEmpty_iff]; exact empty)]
    right
    have open_ : document.breakUndoGroup.readOnly = false := writable
    unfold Document.apply
    rw [open_]
    simp only [Bool.false_eq_true, if_false]
    generalize shape : Transaction.withSelectionAfter _ _ = transaction
    have edited : transaction.edits = edits script document.text document.selection mark := by
      rw [← shape]
      rfl
    have after : transaction.selectionAfter = some (.many (document.selection.cursors.map
        (moved (edits script document.text document.selection mark)))
        document.selection.primaryIndex) := by
      rw [← shape]
      rfl
    have within : ∀ edit ∈ transaction.edits, edit.range.Placed document.breakUndoGroup.text :=
      edited ▸ inside
    rcases Document.validate_placed within with valid | refused
    · right
      refine ⟨transaction, edited, after, valid, ?_⟩
      rw [valid]
      rfl
    · left
      obtain ⟨size, limit, refused⟩ := refused
      refine ⟨size, limit, ?_⟩
      rw [refused]
      rfl

theorem toggled_before (script : Script) (text : Text) (selection : Selection) (mark : Str)
    (rows : List (List UInt8)) : (toggled script text selection mark rows).map Row.before =
      rows :=
  choose_before (editRow_before script mark _) 0 rows

theorem toggled_splice (indexed : text.Indexed) (laid : text.Laid rows) (selection : Selection) :
    splice 0 text.bytes.bytes ((edits script text selection mark).map Edit.cut) =
      (toggled script text selection mark rows).flatMap Row.after := by
  have whole : text.bytes.bytes = [] ++ (toggled script text selection mark rows).flatMap
      Row.before := by
    rw [flatMap_def, toggled_before, laid.whole, nil_append]
  rw [edits_eq indexed laid, whole]
  exact splice_cuts 0 [] _

theorem toggled_laid {grammar : Grammar} (found : lineComment grammar = some mark)
    (laid : text.Laid rows) (selection : Selection) {new : Text}
    (changed : new.bytes.bytes = (toggled script text selection mark rows).flatMap Row.after) :
    new.Laid ((toggled script text selection mark rows).map Row.after) where
  rowed := laid.rowed.choose (editRow_keeps script (mark_clean found)) 0
  whole := by rw [changed, flatMap_def]

theorem touches_iff (text : Text) (line : Nat) (cursor : Cursor) : touches text line cursor = true ↔
    (text.lineCol cursor.range.start).line ≤ line ∧
      line ≤ if cursor.range.start < cursor.range.stop ∧ (text.lineCol cursor.range.stop).column =
        0 then (text.lineCol cursor.range.stop).line - 1
        else (text.lineCol cursor.range.stop).line := by
  have order := cursor.range.ordered
  have some_ : (!cursor.range.isEmpty && (text.lineCol cursor.range.stop).column == 0) = true ↔
      cursor.range.start < cursor.range.stop ∧ (text.lineCol cursor.range.stop).column = 0 := by
    rw [Bool.and_eq_true, Bool.not_eq_true', Range.isEmpty, beq_eq_false_iff_ne, beq_iff_eq]
    exact and_congr_left fun _ => ⟨fun apart => Nat.lt_of_le_of_ne order apart, Nat.ne_of_lt⟩
  unfold touches
  simp only [some_, Bool.and_eq_true, decide_eq_true_eq]

theorem startsWith_append (needle rest : List UInt8) :
    startsWith (· == ·) needle (needle ++ rest) = true := by
  induction needle with
  | nil => rfl
  | cons first needle ih =>
    rw [cons_append, startsWith, ih, beq_self_eq_true]
    rfl

section Commented

variable {grammar : Grammar} (found : lineComment grammar = some mark) (indexed : text.Indexed)
  (laid : text.Laid rows) (selection : Selection)
  (puts : uncomments script text selection mark = false)
  {new : Text} (newIndexed : new.Indexed)
  (changed : new.bytes.bytes = (toggled script text selection mark rows).flatMap Row.after)

include puts

theorem toggled_full (rows : List (List UInt8)) :
    ∀ row ∈ toggled script text selection mark rows, row.Full := by
  intro row member
  unfold toggled at member
  rw [puts] at member
  exact choose_forall (fun _ => trivial) (editRow_full script mark) member

theorem toggled_inserts (rows : List (List UInt8)) :
    ∀ row ∈ toggled script text selection mark rows, row.Inserts := by
  intro row member
  unfold toggled at member
  rw [puts] at member
  exact choose_forall (fun _ => trivial) (editRow_inserts script mark) member

theorem edits_insert : ∀ edit ∈ edits script text selection mark, edit.range.start =
    edit.range.stop := by
  intro edit member
  obtain ⟨place, _, rfl⟩ := List.mem_map.mp member
  change (lineEdit mark (uncomments script text selection mark) place).range.start =
    (lineEdit mark (uncomments script text selection mark) place).range.stop
  rw [puts]
  rfl

include found indexed laid newIndexed changed

/-- An offset keeps its line, and its column is mapped by the edit of its row. -/
theorem offset_placed {offset : Nat} (boundary : text.bytes.IsBoundary offset) :
    ∃ front row back column, toggled script text selection mark rows = front ++ row :: back ∧
    Inside row back column ∧ offset = (front.flatMap Row.before).length + column ∧
    text.lineCol offset = ⟨front.length, column⟩ ∧
    mapOffset offset 0 (edits script text selection mark) =
      (front.flatMap Row.after).length + row.column column ∧
    new.bytes.IsBoundary (mapOffset offset 0 (edits script text selection mark)) ∧
    new.lineCol (mapOffset offset 0 (edits script text selection mark)) =
      ⟨front.length, row.column column⟩ := by
  have before := toggled_before script text selection mark rows
  have laid' := toggled_laid found laid selection changed
  have some_ : toggled script text selection mark rows ≠ [] := by
    intro nothing
    rw [nothing] at before
    exact laid.rowed.ne_nil before.symm
  have whole : text.bytes.bytes = (toggled script text selection mark rows).flatMap Row.before := by
    rw [flatMap_def, before, laid.whole]
  have within : offset ≤ ((toggled script text selection mark rows).flatMap Row.before).length := by
    rw [← whole]
    exact boundary.1
  obtain ⟨front, row, back, column, shape, place, inside⟩ := exists_inside some_ within
  have full := toggled_full selection puts rows
  have inserts := toggled_inserts selection puts rows
  rw [shape] at full inserts
  have member : row ∈ front ++ row :: back := mem_append_right front mem_cons_self
  have cuts := edits_eq indexed laid selection script mark
  rw [shape] at cuts
  have goes := mapOffset_row 0 0 0 cuts
    (fun other there => full other (mem_append_left _ there)) inside rfl
  rw [Nat.zero_add, Nat.zero_add, ← place] at goes
  have parts : rows = front.map Row.before ++ row.before :: back.map Row.before := by
    rw [← before, shape, map_append, map_cons]
  have parts' : (toggled script text selection mark rows).map Row.after =
      front.map Row.after ++ row.after :: back.map Row.after := by
    rw [shape, map_append, map_cons]
  have stays : row.column column < row.after.length ∨ (back.map Row.after = [] ∧
      row.column column ≤ row.after.length) := by
    rcases inside with less | ⟨nothing, most⟩
    · exact .inl ((inserts row member).column_lt (full row member) less)
    · exact .inr ⟨by rw [nothing]; rfl, (inserts row member).column_le most⟩
  have boundary' : new.bytes.IsBoundary (mapOffset offset 0 (edits script text selection mark)) := by
    have size : new.bytes.bytes = front.flatMap Row.after ++
        (row.after ++ back.flatMap Row.after) := by
      rw [changed, shape, flatMap_append, flatMap_cons]
    have fits : mapOffset offset 0 (edits script text selection mark) ≤ new.bytes.bytes.length := by
      rw [goes, size, length_append, length_append]
      rcases stays with less | ⟨_, most⟩ <;> omega
    refine ⟨fits, (isCharBoundary_iff new.bytes.valid _).mpr ⟨fits, ?_⟩⟩
    have clean := boundary.clean
    unfold StartsClean at clean ⊢
    rw [head?_drop] at clean ⊢
    rw [goes, size, getElem?_append_right (Nat.le_add_right _ _), Nat.add_sub_cancel_left,
      getElem?_column (inserts row member) inside]
    rw [whole, shape, flatMap_append, flatMap_cons, place,
      getElem?_append_right (Nat.le_add_right _ _), Nat.add_sub_cancel_left] at clean
    exact clean
  refine ⟨front, row, back, column, shape, inside, place, ?_, goes, boundary', ?_⟩
  · have stood : column < row.before.length ∨
        (back.map Row.before = [] ∧ column ≤ row.before.length) := by
      rcases inside with less | ⟨nothing, most⟩
      · exact .inl less
      · exact .inr ⟨by rw [nothing]; rfl, most⟩
    have col := laid.lineCol indexed parts stood
    rw [← flatMap_def, ← place, length_map] at col
    exact col boundary
  · have col := laid'.lineCol newIndexed parts' stays
    rw [← flatMap_def, ← goes, length_map] at col
    exact col boundary'

/-- A caret touches the lines it touched before, and another one only where it was touched by
another caret. -/
theorem touches_moved {cursor : Cursor} (start : text.bytes.IsBoundary cursor.range.start)
    (stop : text.bytes.IsBoundary cursor.range.stop) (line : Nat) :
    (touches text line cursor = true → touches new line (moved (edits script text selection mark)
      cursor) = true) ∧
    (touches new line (moved (edits script text selection mark) cursor) = true →
      touches text line cursor = true ∨ touched text selection line = true) := by
  have inserts := edits_insert selection puts
  obtain ⟨_, _, _, _, _, _, _, here, _, _, here'⟩ :=
    offset_placed found indexed laid selection puts newIndexed changed start
  obtain ⟨front, row, back, column, shape, _, _, there, _, _, there'⟩ :=
    offset_placed found indexed laid selection puts newIndexed changed stop
  have member : row ∈ toggled script text selection mark rows := by
    rw [shape]
    exact mem_append_right front mem_cons_self
  have later := (toggled_inserts selection puts rows row member).le_column column
  have apart : mapOffset cursor.range.start 0 (edits script text selection mark) <
      mapOffset cursor.range.stop 0 (edits script text selection mark) ↔
      cursor.range.start < cursor.range.stop := by
    constructor
    · intro less
      by_contra more
      have back := mapOffset_mono inserts (Nat.le_of_not_lt more) 0
      exact absurd less (Nat.not_lt.mpr back)
    · exact fun less => mapOffset_lt inserts less 0
  rw [touches_iff, touches_iff, moved_start inserts, moved_stop inserts]
  simp only [apart, here, here', there, there']
  constructor
  · rintro ⟨first, last⟩
    refine ⟨first, ?_⟩
    split_ifs at last ⊢ with none_ none' <;> omega
  · rintro ⟨first, last⟩
    by_cases on : touched text selection front.length = true
    · by_cases same : line = front.length
      · rw [same]
        exact .inr on
      · left
        refine ⟨first, ?_⟩
        split_ifs at last ⊢ with none_ none' <;> omega
    · left
      have placed : (choose (touched text selection)
          (editRow script mark (uncomments script text selection mark)) 0 rows)[front.length]? =
            _ := choose_getElem? 0 front.length rows
      have which : (toggled script text selection mark rows)[front.length]? = some row := by
        rw [shape, getElem?_append_right (Nat.le_refl _), Nat.sub_self]
        rfl
      change (toggled script text selection mark rows)[front.length]? = _ at placed
      rw [which, Nat.zero_add] at placed
      obtain ⟨raw, _, kept⟩ := Option.map_eq_some_iff.mp placed.symm
      rw [if_neg on] at kept
      rw [← kept] at last
      exact ⟨first, last⟩

/-- The carets touch the lines they touched before. -/
theorem touched_moved {other : Selection} (all : other.cursors =
      selection.cursors.map (moved (edits script text selection mark)))
    (inside : ∀ cursor ∈ selection.cursors, text.bytes.IsBoundary cursor.range.start ∧
      text.bytes.IsBoundary cursor.range.stop) : touched new other = touched text selection := by
  funext line
  apply Bool.eq_iff_iff.mpr
  unfold touched
  rw [all, any_map]
  simp only [any_eq_true, Function.comp_apply]
  constructor
  · rintro ⟨cursor, member, touches_⟩
    obtain ⟨start, stop⟩ := inside cursor member
    rcases (touches_moved found indexed laid selection puts newIndexed changed start stop line).2
      touches_ with
      own | another
    · exact ⟨cursor, member, own⟩
    · exact any_eq_true.mp another
  · rintro ⟨cursor, member, touches_⟩
    obtain ⟨start, stop⟩ := inside cursor member
    exact ⟨cursor, member,
      (touches_moved found indexed laid selection puts newIndexed changed start stop line).1 touches_⟩

section Back

variable {other : Selection}
  (all : other.cursors = selection.cursors.map (moved (edits script text selection mark)))
  (inside : ∀ cursor ∈ selection.cursors, text.bytes.IsBoundary cursor.range.start ∧
    text.bytes.IsBoundary cursor.range.stop)

include all inside

/-- All targets are commented now. -/
theorem uncomments_after : uncomments script new other mark = true := by
  have laid' := toggled_laid found laid selection changed
  have same := touched_moved found indexed laid selection puts newIndexed changed all inside
  obtain ⟨lead, rest, head, printed⟩ := mark_head found
  apply all_eq_true.mpr
  intro place member
  obtain ⟨line, there, targeted⟩ := mem_filterMap.mp member
  rw [touchedLines_eq newIndexed laid', same] at there
  obtain ⟨within, on⟩ := mem_filter.mp there
  have bound := (mem_range'_1.mp within).2
  rw [Nat.zero_add] at bound
  obtain ⟨row', here⟩ : ∃ row', ((toggled script text selection mark rows).map Row.after)[line]? =
    some row' :=
    ⟨_, getElem?_eq_getElem bound⟩
  obtain ⟨front, back, shape, size⟩ := exists_front here
  have target := target_row newIndexed laid' shape script
  rw [size, targeted] at target
  rw [getElem?_map, toggled, choose_getElem?, Nat.zero_add, puts] at here
  obtain ⟨edited, chosen, rfl⟩ := Option.map_eq_some_iff.mp here
  obtain ⟨row, _, rfl⟩ := Option.map_eq_some_iff.mp chosen
  rw [if_pos on] at target
  by_cases blank : Blank script (contentOf row)
  · have kept : editRow script mark false row = .kept row := if_pos blank
    have still : Blank script (contentOf (Row.kept row).after) := blank
    rw [kept, if_pos still] at target
    cases target
  · obtain ⟨_, content, _⟩ := commented_parts head printed blank
    split at target
    · cases target
    · rw [Option.some.inj target]
      simp only
      rw [content, Str.bytes_append, append_assoc]
      exact startsWith_append _ _

/-- The second toggle turns every row around. -/
theorem toggled_after :
    toggled script new other mark ((toggled script text selection mark rows).map Row.after) =
      (toggled script text selection mark rows).map Row.flip := by
  have same := touched_moved found indexed laid selection puts newIndexed changed all inside
  have takes := uncomments_after found indexed laid selection puts newIndexed changed all inside
  have turns : ∀ row ∈ rows, editRow script mark true (editRow script mark false row).after =
      (editRow script mark false row).flip := by
    intro row member
    obtain ⟨front, back, shape⟩ := append_of_mem member
    exact editRow_undo found fun full => valid_content indexed laid shape full
  have back : choose (touched text selection) (editRow script mark true) 0
      ((choose (touched text selection) (editRow script mark false) 0 rows).map Row.after) = _ :=
      choose_after 0 turns
  rw [toggled, same, takes]
  unfold toggled
  rw [puts]
  exact back

theorem edits_after_ne_nil (some_ : edits script text selection mark ≠ []) :
    edits script new other mark ≠ [] := by
  have laid' := toggled_laid found laid selection changed
  have first := congrArg List.length (edits_eq indexed laid selection script mark)
  have second := congrArg List.length (edits_eq newIndexed laid' other script mark)
  rw [toggled_after found indexed laid selection puts newIndexed changed all inside,
    length_cuts_flip 0 0, ← first, length_map, length_map] at second
  intro nothing
  rw [nothing] at second
  exact some_ (length_eq_zero_iff.mp second.symm)

theorem splice_after : splice 0 new.bytes.bytes ((edits script new other mark).map Edit.cut) =
    text.bytes.bytes := by
  have laid' := toggled_laid found laid selection changed
  rw [toggled_splice newIndexed laid', toggled_after found indexed laid selection puts newIndexed
    changed all inside, ← laid.whole, flatMap_def, map_map]
  have back : Row.after ∘ Row.flip = (Row.before : Row UInt8 → List UInt8) := funext Row.after_flip
  rw [back, toggled_before]

/-- Every offset is back. -/
theorem mapOffset_after {offset : Nat} (boundary : text.bytes.IsBoundary offset) :
    mapOffset (mapOffset offset 0 (edits script text selection mark))
    0 (edits script new other mark) = offset := by
  have laid' := toggled_laid found laid selection changed
  obtain ⟨front, row, back, column, shape, within, place, _, goes, _⟩ :=
    offset_placed found indexed laid selection puts newIndexed changed boundary
  have full := toggled_full selection puts rows
  have inserts := toggled_inserts selection puts rows
  have cuts := edits_eq newIndexed laid' other script mark
  rw [toggled_after found indexed laid selection puts newIndexed changed all inside, shape,
    map_append, map_cons] at cuts
  rw [shape] at full inserts
  have member : row ∈ front ++ row :: back := mem_append_right front mem_cons_self
  have within' : Inside row.flip (back.map Row.flip) (row.column column) := by
    unfold Inside
    rw [Row.before_flip]
    rcases within with less | ⟨nothing, most⟩
    · exact .inl ((inserts row member).column_lt (full row member) less)
    · exact .inr ⟨by rw [nothing]; rfl, (inserts row member).column_le most⟩
  have done := mapOffset_row 0 0 0 cuts (fun edited there => by
    obtain ⟨first, own, rfl⟩ := List.mem_map.mp there
    exact (full first (mem_append_left _ own)).flip) within' rfl
  have before : (front.map Row.flip).flatMap Row.before = front.flatMap Row.after := by
    rw [flatMap_map]
    exact congrArg front.flatMap (funext Row.before_flip)
  have after : (front.map Row.flip).flatMap Row.after = front.flatMap Row.before := by
    rw [flatMap_map]
    exact congrArg front.flatMap (funext Row.after_flip)
  rw [before, after, Nat.zero_add, Nat.zero_add, (inserts row member).column_flip, ← goes, ←
    place] at done
  exact done

end Back

end Commented

end Comment

end ForgeNode.Editor
