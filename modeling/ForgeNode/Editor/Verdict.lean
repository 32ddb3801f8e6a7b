import Mathlib.Data.List.TakeWhile
import ForgeNode.Editor.Execute
import ForgeNode.Editor.Positions

/-! Which commands build an edit that no document takes: deletions at carets too close to each
other. -/

namespace ForgeNode.Editor

open List Utf8

variable {into : Text → Nat → Nat} {offset : Nat}

/-- The two errors of an edit that was built wrong. -/
def EditError.misbuilt : EditError → Bool
  | .overlapping | .outOfBounds _ _ => true
  | .unsavedChanges | .readOnly | .tooLarge _ _ => false

/-- Ranges that one transaction can delete. -/
def Range.apart (first second : Range) : Prop :=
  first.stop ≤ second.start ∨ second.stop ≤ first.start

instance : DecidableRel Range.apart := fun _ _ => inferInstanceAs (Decidable (_ ∨ _))

/-- A range with both ends on boundaries. -/
def Range.Placed (text : Text) (range : Range) : Prop :=
  text.bytes.IsBoundary range.start ∧ text.bytes.IsBoundary range.stop

theorem Range.new_placed {text : Text} {start stop : Nat} (first : text.bytes.IsBoundary start)
    (last : text.bytes.IsBoundary stop) : (Range.new start stop).Placed text := by
  unfold Range.new
  split
  · exact ⟨first, last⟩
  · exact ⟨last, first⟩

instance : IsTrans Edit Edit.before := ⟨fun first second third left right => by
  unfold Edit.before at *
  omega⟩

instance : Std.Total Edit.before := ⟨fun first second => by
  unfold Edit.before
  omega⟩

/-- Edits that are not empty can be sorted apart just when any two of them are apart. -/
theorem sorted_clear_iff {edits : List Edit} (some_ : ∀ edit ∈ edits, edit.range.isEmpty = false) :
    (edits.insertionSort Edit.before).IsChain Edit.clear ↔
      edits.Pairwise fun first second => first.range.apart second.range := by
  have permuted := perm_insertionSort Edit.before edits
  constructor
  · intro chain
    apply (permuted.pairwise_iff fun {_ _} either => Or.symm either).mp
    exact chain.pairwise.imp fun clear => .inl clear
  · intro apart
    have both := (pairwise_insertionSort Edit.before edits).and
      ((permuted.pairwise_iff fun {_ _} either => Or.symm either).mpr apart)
    apply List.Pairwise.isChain
    apply List.Pairwise.imp_of_mem _ both
    rintro first second here there ⟨order, clear | turned⟩
    · exact clear
    · have full := some_ first (permuted.subset here)
      have other := first.range.ordered
      have later := second.range.ordered
      unfold Edit.before at order
      simp only [Range.isEmpty, beq_eq_false_iff_ne] at full
      unfold Edit.clear
      omega

namespace Document

variable {document : Document}

theorem refusedWith_map {α β : Type} (f : α → β) (result : Except EditError α) :
    refusedWith (result.map f) = refusedWith result := by
  cases result <;> rfl

theorem validate_placed {document : Document} {transaction : Transaction}
    (inside : ∀ edit ∈ transaction.edits, edit.range.Placed document.text) :
    document.validate transaction = .ok () ∨
      ∃ size limit, document.validate transaction = .error (.tooLarge size limit) := by
  have none_ : transaction.edits.find? (goneOutside document.text) = none := by
    refine find?_eq_none.mpr fun edit member => ?_
    obtain ⟨first, last⟩ := inside edit member
    have bound : ¬ edit.range.stop > document.text.len := Nat.not_lt.mpr last.1
    simp [goneOutside, Text.isBoundary, first, last, bound]
  unfold validate
  simp only [none_]
  split
  · exact .inr ⟨_, _, rfl⟩
  · exact .inl rfl

theorem apply_built {transaction : Transaction}
    (inside : ∀ edit ∈ transaction.edits, edit.range.Placed document.text) :
    (refusedWith (document.apply transaction).1).any EditError.misbuilt = false := by
  unfold apply
  split
  · rfl
  · rcases validate_placed inside with valid | ⟨size, limit, refused⟩
    · rw [valid]
      rfl
    · rw [refused]
      rfl

theorem built_in_order (document : Document) {edits : List Edit}
    (disjoint : edits.Pairwise Edit.clear)
    (inside : ∀ edit ∈ edits, edit.range.Placed document.text) (origin : Origin) :
    ∃ transaction, Transaction.new edits origin document.selection = .ok transaction ∧
      ∀ other : Transaction, other.edits = transaction.edits →
        (refusedWith (document.apply other).1).any EditError.misbuilt = false :=
  ⟨_, Transaction.new_of_disjoint disjoint.isChain origin document.selection, fun other same => by
    apply apply_built
    rw [same]
    exact inside⟩

theorem insertAround_built (placed : document.Placed) (before after : Str) (origin : Origin) :
    (refusedWith (document.insertAround before after origin).1).any EditError.misbuilt = false := by
  have disjoint : (document.selection.cursors.map fun cursor =>
      Edit.replace cursor.range (before ++ after)).Pairwise Edit.clear :=
    pairwise_map.mpr (placed.sound.apart.imp fun gap => Nat.le_of_lt gap)
  have inside : ∀ edit ∈ document.selection.cursors.map fun cursor =>
      Edit.replace cursor.range (before ++ after),
      edit.range.Placed document.text := by
    intro edit member
    obtain ⟨cursor, there, rfl⟩ := List.mem_map.mp member
    exact placed.range there
  obtain ⟨transaction, built, sound⟩ := built_in_order document disjoint inside origin
  unfold insertAround
  simp only [built]
  exact sound _ rfl

/-- The ranges of a deletion, where not empty, are apart from each other. -/
def DeletesApart (document : Document) (into : Text → Nat → Nat) : Prop :=
  (document.selection.cursors.map (deletedRange into document.text)).Pairwise fun first second =>
    first.isEmpty = false → second.isEmpty = false → first.apart second

/-- A deletion is built wrong just where two of its ranges overlap. -/
theorem delete_built_iff (placed : document.Placed)
    (lands : ∀ offset, document.text.bytes.IsBoundary offset →
      document.text.bytes.IsBoundary (into document.text offset))
    (origin : Origin) : (refusedWith (document.delete into origin).1).any EditError.misbuilt =
      true ↔ document.readOnly = false ∧ ¬document.DeletesApart into := by
  unfold delete
  by_cases readOnly : document.readOnly = true
  · rw [if_pos readOnly, readOnly]
    simp [refusedWith, EditError.misbuilt]
  have writable : document.readOnly = false := Bool.eq_false_iff.mpr readOnly
  rw [if_neg readOnly, writable]
  simp only [true_and]
  have apart_iff : document.DeletesApart into ↔ (((document.selection.cursors.map
      (deletedRange into document.text)).filter fun range => !range.isEmpty).map Edit.delete).Pairwise
        fun first second => first.range.apart second.range := by
    rw [pairwise_map, pairwise_filter]
    simp only [Bool.not_eq_true', Edit.delete]
    rfl
  have full : ∀ edit ∈ ((document.selection.cursors.map
      (deletedRange into document.text)).filter fun range => !range.isEmpty).map Edit.delete,
        edit.range.isEmpty = false := by
    intro edit member
    obtain ⟨range, there, rfl⟩ := List.mem_map.mp member
    have kept : range.isEmpty = false := by
      simpa only [Bool.not_eq_true'] using (mem_filter.mp there).2
    exact kept
  have inside : ∀ edit ∈ ((document.selection.cursors.map
      (deletedRange into document.text)).filter fun range => !range.isEmpty).map Edit.delete,
        edit.range.Placed document.text := by
    intro edit member
    obtain ⟨range, there, rfl⟩ := List.mem_map.mp member
    obtain ⟨cursor, here, rfl⟩ := List.mem_map.mp (mem_filter.mp there).1
    unfold deletedRange
    simp only [Edit.delete]
    split
    · have head := (placed.inside cursor here).2
      exact Range.new_placed head (lands _ head)
    · exact placed.range here
  rw [apart_iff, ← sorted_clear_iff full]
  split
  · rename_i empty
    have nothing := List.isEmpty_iff.mp empty
    rw [nothing]
    simp [refusedWith]
  · by_cases chain : ((((document.selection.cursors.map (deletedRange into document.text)).filter
        fun range => !range.isEmpty).map Edit.delete).insertionSort Edit.before).IsChain Edit.clear
    · have built : Transaction.new
          (((document.selection.cursors.map (deletedRange into document.text)).filter fun range =>
          !range.isEmpty).map Edit.delete) origin document.selection =
            .ok ⟨_, chain, origin, document.selection, none⟩ := dif_pos chain
      have sound (other : Transaction) (same : other.edits = (((document.selection.cursors.map
          (deletedRange into document.text)).filter fun range => !range.isEmpty).map
          Edit.delete).insertionSort
            Edit.before) : (refusedWith (document.apply other).1).any EditError.misbuilt = false := by
        apply apply_built
        rw [same]
        exact fun edit member => inside edit ((mem_insertionSort Edit.before).mp member)
      rw [built]
      simp only [refusedWith_map, chain, not_true_eq_false, iff_false]
      rw [sound _ rfl]
      exact Bool.false_ne_true
    · have built : Transaction.new
          (((document.selection.cursors.map (deletedRange into document.text)).filter fun range =>
          !range.isEmpty).map Edit.delete) origin document.selection = .error .overlapping :=
        dif_neg chain
      rw [built]
      simp only [chain, not_false_eq_true, iff_true]
      rfl

theorem lineSpan_placed (indexed : document.text.Indexed) (selection : Selection) :
    document.text.bytes.IsBoundary (lineSpan document.text selection).1 ∧
      document.text.bytes.IsBoundary (lineSpan document.text selection).2 := by
  constructor
  · exact (lineStart_whole indexed (indexed.lineOfOffset_lt _)).boundary
  · unfold lineSpan
    simp only
    split
    · rename_i more
      exact (lineStart_whole indexed more).boundary
    · exact Str.isBoundary_len _

section Commands

variable (reached : document.Reached)

include reached

theorem deleteLine_built : (refusedWith document.deleteLine.1).any EditError.misbuilt = false := by
  have ends := lineSpan_placed reached.indexed document.selection
  obtain ⟨transaction, built, sound⟩ := built_in_order document.breakUndoGroup
    (pairwise_singleton Edit.clear (.delete (.new (lineSpan document.text document.selection).1
      (lineSpan document.text document.selection).2)))
    (fun edit member => by
      rw [mem_singleton.mp member]
      exact Range.new_placed ends.1 ends.2) .input
  have same : Transaction.new [.delete (.new (lineSpan document.text document.selection).1
      (lineSpan document.text document.selection).2)] .input document.selection = .ok transaction :=
      built
  unfold deleteLine
  simp only [same]
  split
  · rfl
  · rw [refusedWith_map]
    exact sound _ rfl

/-- What a copy takes at the carets is apart and on boundaries. -/
theorem copied_placed : (document.selection.cursors.map
      (copiedSpan document.text (document.selection.count == 1))).Pairwise (fun first second =>
        first.stop ≤ second.start) ∧
    ∀ range ∈ document.selection.cursors.map
    (copiedSpan document.text (document.selection.count == 1)),
      range.Placed document.text := by
  have placed := reached.placed
  constructor
  · by_cases lone : document.selection.cursors.length = 1
    · obtain ⟨cursor, only⟩ := length_eq_one_iff.mp lone
      rw [only]
      exact pairwise_singleton _ _
    · have several : (document.selection.count == 1) = false := beq_eq_false_iff_ne.mpr lone
      rw [several]
      exact pairwise_map.mpr (placed.sound.apart.imp fun gap => Nat.le_of_lt gap)
  · intro range member
    obtain ⟨cursor, here, rfl⟩ := List.mem_map.mp member
    unfold copiedSpan
    split
    · have ends := lineSpan_placed reached.indexed (.one cursor)
      exact Range.new_placed ends.1 ends.2
    · exact placed.range here

theorem cut_built : document.cutVerdict.any EditError.misbuilt = false := by
  obtain ⟨apart, inside⟩ := copied_placed reached
  obtain ⟨transaction, built, sound⟩ := built_in_order document.breakUndoGroup
    (pairwise_map.mpr (apart.sublist filter_sublist) :
      (((document.selection.cursors.map
      (copiedSpan document.text (document.selection.count == 1))).filter
        fun range => !range.isEmpty).map Edit.delete).Pairwise Edit.clear)
    (fun edit member => by
      obtain ⟨range, there, rfl⟩ := List.mem_map.mp member
      exact inside range (mem_filter.mp there).1) .input
  have same : Transaction.new (((document.selection.cursors.map
      (copiedSpan document.text (document.selection.count == 1))).filter fun range =>
      !range.isEmpty).map
        Edit.delete) .input document.selection = .ok transaction := built
  unfold cutVerdict
  simp only [same]
  split
  · rfl
  · exact sound _ rfl

theorem insertText_built (script : Script) (style : InputStyle) (typed : Str) :
    (refusedWith (document.insertText script style typed).1).any EditError.misbuilt = false := by
  have plain (text after : Str) := insertAround_built reached.placed text after .input
  unfold insertText
  simp only
  split
  · rw [refusedWith_map]
    exact plain _ _
  split
  · rw [refusedWith_map]
    exact plain _ _
  split
  · rw [refusedWith_map]
    exact plain _ _
  split
  · rfl
  split
  · split
    · rw [refusedWith_map]
      exact plain _ _
    · rw [refusedWith_map]
      exact plain _ _
  · rw [refusedWith_map]
    exact plain _ _

theorem insertNewline_built (script : Script) (style : InputStyle) :
    (refusedWith (document.insertNewline script style).1).any EditError.misbuilt = false := by
  unfold insertNewline
  simp only [refusedWith_map]
  split
  · exact insertAround_built reached.placed _ _ .input
  · exact insertAround_built reached.placed _ _ .input

omit reached in
theorem replaceAll_built {engine : Engine} (sound : engine.Enumerates) (query : Query)
    (replacement : Str) : (refusedWith (document.replaceAll engine query replacement).1).any
    EditError.misbuilt = false := by
  have go {ranges : List Range} (replaceable : Replaceable document.text ranges)
      (found : replaceAllRanges engine document.text query = .ok ranges) :
      (refusedWith (document.replaceAll engine query replacement).1).any EditError.misbuilt =
        false := by
    obtain ⟨transaction, built, sound⟩ := built_in_order document.breakUndoGroup
      (pairwise_map.mpr replaceable.disjoint :
        (ranges.map fun range => Edit.replace range replacement).Pairwise Edit.clear)
      (fun edit member => by
        obtain ⟨range, there, rfl⟩ := List.mem_map.mp member
        exact replaceable.boundaries range there) .replaceAll
    have same : Transaction.new (ranges.map fun range => .replace range replacement) .replaceAll
        document.selection = .ok transaction := built
    have told := sound transaction rfl
    unfold replaceAll
    simp only [found, same]
    split
    · rfl
    split
    · rfl
    split
    · rfl
    cases result : (document.breakUndoGroup.apply transaction).1 with
    | ok applied => rfl
    | error error =>
      rw [result] at told
      exact told
  have whole := matchesFrom_replaceable sound document.text query
  have answer := replaceAllRanges_eq engine document.text query
  split at answer
  · exact go (whole.take _) answer
  split at answer
  · unfold replaceAll
    rw [answer]
    split <;> rfl
  · exact go whole answer

end Commands

end Document

namespace Comment

variable {script : Script} {text : Text} {mark : Str}

/-- Not empty, and ASCII as comment marks are. -/
def Ascii (mark : Str) : Prop := 0 < mark.bytes.length ∧ ∀ byte ∈ mark.bytes, byte < 0x80

theorem lineComment_ascii {grammar : Grammar} (found : lineComment grammar = some mark) :
    Ascii mark := by
  have bytes : mark.bytes = [47, 47] ∨ mark.bytes = [45, 45] ∨ mark.bytes = [35] := by
    cases grammar with
    | rust | cLike | prisma =>
      obtain rfl := Option.some.inj found
      exact .inl rfl
    | sql =>
      obtain rfl := Option.some.inj found
      exact .inr (.inl rfl)
    | python | shell | keyed | hcl | nix | dockerfile | http =>
      obtain rfl := Option.some.inj found
      exact .inr (.inr rfl)
    | json | markdown | html | css | none => cases found
  unfold Ascii
  rcases bytes with slashes | dashes | hash
  · rw [slashes]
    exact ⟨by decide, forall_mem_cons.mpr ⟨by decide, forall_mem_singleton.mpr (by decide)⟩⟩
  · rw [dashes]
    exact ⟨by decide, forall_mem_cons.mpr ⟨by decide, forall_mem_singleton.mpr (by decide)⟩⟩
  · rw [hash]
    exact ⟨by decide, forall_mem_singleton.mpr (by decide)⟩

theorem startsWith_getElem? {needle haystack : List UInt8}
    (starts : startsWith (· == ·) needle haystack = true) {index : Nat}
    (inside : index < needle.length) : haystack[index]? = needle[index]? := by
  induction needle generalizing haystack index with
  | nil => exact absurd inside (Nat.not_lt_zero _)
  | cons first needle ih =>
    cases haystack with
    | nil => cases starts
    | cons byte haystack =>
      simp only [startsWith, Bool.and_eq_true, beq_iff_eq] at starts
      cases index with
      | zero => rw [getElem?_cons_zero, getElem?_cons_zero, starts.1]
      | succ index =>
        rw [getElem?_cons_succ, getElem?_cons_succ]
        exact ih starts.2 (Nat.lt_of_succ_lt_succ inside)

section Line

variable {line : Nat} {place : Nat × List UInt8} (indexed : text.Indexed)
  (inside : line < text.lineCount)

include indexed inside

theorem column_placed {column : Nat} (boundary : (text.line line).IsBoundary column) :
    text.bytes.IsBoundary (text.lineStart line + column) ∧ text.lineStart line + column ≤
      text.lineEnd line := by
  have size := line_len indexed inside
  have order := lineStart_le_lineEnd indexed inside
  have bound := boundary.1
  exact ⟨(inLine_whole indexed inside boundary).boundary, by omega⟩

omit indexed inside in
/-- Where a line's content starts. -/
theorem target_column (found : target script text line = some place) : ∃ column,
    place.1 = text.lineStart line + column ∧ (text.line line).IsBoundary column ∧
      ∀ index, place.2[index]? = (text.line line).bytes[column + index]? := by
  unfold target at found
  simp only at found
  split at found
  · cases found
  · obtain rfl := Option.some.inj found
    have parts := takeWhile_append_dropWhile (p := Indent.isBlankByte) (l := (text.line line).bytes)
    have sizes := congrArg List.length parts
    rw [length_append] at sizes
    refine ⟨((text.line line).bytes.takeWhile Indent.isBlankByte).length, by simp only; omega, ?_, ?_⟩
    · cases size : ((text.line line).bytes.takeWhile Indent.isBlankByte).length with
      | zero => exact Str.isBoundary_zero _
      | succ count =>
        have within : count < ((text.line line).bytes.takeWhile Indent.isBlankByte).length := by omega
        have here : (text.line line).bytes[count]? =
            some ((text.line line).bytes.takeWhile Indent.isBlankByte)[count] := by
          rw [← getElem?_eq_getElem within]
          nth_rewrite 1 [← parts]
          exact getElem?_append_left within
        apply Str.isBoundary_after here
        have blank := all_eq_true.mp all_takeWhile _ (getElem_mem within)
        simp only [Indent.isBlankByte, Bool.or_eq_true, beq_iff_eq] at blank
        rcases blank with space | tab
        · rw [space]
          decide
        · rw [tab]
          decide
    · intro index
      have behind (front back : List UInt8) : (front ++ back)[front.length + index]? =
          back[index]? := by
        rw [getElem?_append_right (Nat.le_add_right _ _), Nat.add_sub_cancel_left]
      have read := behind ((text.line line).bytes.takeWhile Indent.isBlankByte)
        ((text.line line).bytes.dropWhile Indent.isBlankByte)
      rw [parts] at read
      exact read.symm

/-- The edit of a line stays within the line. -/
theorem lineEdit_placed (ascii : Ascii mark) {uncomment : Bool}
    (found : target script text line = some place) (marked : uncomment = true → startsWith (· == ·)
      mark.bytes place.2 = true) :
    (lineEdit mark uncomment place).range.Placed text ∧
      text.lineStart line ≤ (lineEdit mark uncomment place).range.start ∧
      (lineEdit mark uncomment place).range.stop ≤ text.lineEnd line := by
  obtain ⟨column, start, boundary, content⟩ := target_column found
  have first := column_placed indexed inside boundary
  cases uncomment with
  | false =>
    simp only [lineEdit, Bool.false_eq_true, if_false, Edit.replace, Range.emptyAt, Range.Placed,
      start]
    exact ⟨⟨first.1, first.1⟩, Nat.le_add_right _ _, first.2⟩
  | true =>
    have starts := marked rfl
    have some_ : 0 < mark.len := ascii.1
    have last : (text.line line).IsBoundary (column + (mark.len +
        if place.2[mark.len]? == some 32 then 1 else 0)) := by
      by_cases space : place.2[mark.len]? = some 32
      · rw [space]
        rw [content] at space
        exact Str.isBoundary_after space (by decide)
      · have within : mark.len - 1 < mark.bytes.length := Nat.sub_lt some_ Nat.zero_lt_one
        have byte := startsWith_getElem? starts within
        rw [content, getElem?_eq_getElem within] at byte
        have after := Str.isBoundary_after byte (ascii.2 _ (getElem_mem within))
        have place_ : column + (mark.len - 1) + 1 = column + (mark.len + 0) := by omega
        rw [place_] at after
        rw [if_neg (by simpa using space)]
        exact after
    have final := column_placed indexed inside last
    have order : place.1 ≤ place.1 + (mark.len + if place.2[mark.len]? == some 32 then 1 else 0) :=
      Nat.le_add_right _ _
    simp only [lineEdit, if_true, Edit.delete, Range.new_of_le order, Range.Placed]
    rw [start, Nat.add_assoc]
    exact ⟨⟨first.1, final.1⟩, Nat.le_add_right _ _, final.2⟩

end Line

/-- The edits of all lines are in order and on boundaries. -/
theorem edits_placed (script : Script) (indexed : text.Indexed) (ascii : Ascii mark)
    (selection : Selection) : (edits script text selection mark).Pairwise Edit.clear ∧
      ∀ edit ∈ edits script text selection mark, edit.range.Placed text := by
  have lines : ∀ line ∈ touchedLines text selection, line < text.lineCount := fun line member =>
    mem_range.mp (mem_filter.mp member).1
  have ascending : (touchedLines text selection).Pairwise (· < ·) :=
    pairwise_lt_range.sublist filter_sublist
  have marked (line : Nat) (place : Nat × List UInt8) (member : line ∈ touchedLines text selection)
      (found : target script text line = some place)
      (all : ((touchedLines text selection).filterMap (target script text)).all
        (fun found => startsWith (· == ·) mark.bytes found.2) = true) :
      startsWith (· == ·) mark.bytes place.2 = true :=
    all_eq_true.mp all place (mem_filterMap.mpr ⟨line, member, found⟩)
  unfold edits
  constructor
  · rw [pairwise_map, pairwise_filterMap]
    apply List.Pairwise.imp_of_mem _ ascending
    intro line later here there order place found place' found'
    have first := lineEdit_placed indexed (lines line here) ascii found (marked line place here found)
    have second := lineEdit_placed indexed (lines later there) ascii found'
      (marked later place' there found')
    have between := lineEnd_le_start indexed (lines later there) order
    exact Nat.le_trans first.2.2 (Nat.le_trans between second.2.1)
  · intro edit member
    obtain ⟨place, there, rfl⟩ := List.mem_map.mp member
    obtain ⟨line, here, found⟩ := mem_filterMap.mp there
    exact (lineEdit_placed indexed (lines line here) ascii found (marked line place here found)).1

theorem toggle_built {document : Document} (indexed : document.text.Indexed) (script : Script)
    (style : InputStyle) :
    (Document.refusedWith (toggle script style document).1).any EditError.misbuilt = false := by
  unfold toggle
  split
  · rfl
  split
  · rfl
  · rename_i mark found
    obtain ⟨disjoint, inside⟩ := edits_placed script indexed (lineComment_ascii found)
      document.selection
    obtain ⟨transaction, built, sound⟩ := Document.built_in_order document.breakUndoGroup disjoint
      inside .replace
    have same : Transaction.new (edits script document.text document.selection mark) .replace
        document.selection = .ok transaction := built
    simp only [same]
    split
    · rfl
    · rw [Document.refusedWith_map]
      exact sound _ rfl

end Comment

namespace Movement

theorem wordLeft_isBoundary (script : Script) (text : Text)
    (boundary : text.bytes.IsBoundary offset) :
    text.bytes.IsBoundary (wordLeft script text offset) := by
  obtain ⟨behind, ahead, here⟩ := Split.of_boundary boundary
  have inside : min offset text.len = offset := Nat.min_eq_left boundary.1
  obtain ⟨skipped, _, gap⟩ := skipGapBack_split script here here.behind_le
  have word := skipWordBack_split script gap gap.behind_le
  unfold wordLeft
  rw [inside]
  exact word.isBoundary

/-- Going left goes back, but from the start. -/
theorem left_back {script : Script} {text : Text} (indexed : text.Indexed)
    (inside : offset ≤ text.len) :
    left script text offset ≤ offset ∧ (left script text offset = offset → offset = 0) := by
  have there := indexed.lineOfOffset_lt offset
  have start := (lineOfOffset_spec indexed inside).1
  unfold left
  simp only
  split
  · have before : previousBoundary script (text.line (text.lineOfOffset offset))
        (offset - text.lineStart (text.lineOfOffset offset)) < offset - text.lineStart
        (text.lineOfOffset offset) := by
      unfold previousBoundary
      cases found : (((script.graphemeIndices _).map (·.1)).takeWhile
          (· < offset - text.lineStart (text.lineOfOffset offset))).getLast? with
      | none =>
        rw [Option.getD_none]
        omega
      | some last => simpa using mem_takeWhile_imp (mem_of_getLast? found)
    omega
  split
  · rename_i more
    obtain ⟨line, same⟩ := Nat.exists_eq_add_one_of_ne_zero (Nat.ne_of_gt more)
    rw [same] at there start ⊢
    have ends := (lineEnd_lt_next indexed (Nat.lt_of_succ_lt there)).2 _
      (lineStart_getElem? there)
    rw [Nat.add_sub_cancel]
    omega
  · omega

/-- Going right goes ahead, but from the end. -/
theorem right_ahead {script : Script} {text : Text} (indexed : text.Indexed) {offset : Nat}
    (inside : offset ≤ text.len) : offset ≤ right script text offset ∧
    (right script text offset = offset → offset = text.len) := by
  have there := indexed.lineOfOffset_lt offset
  obtain ⟨start, next⟩ := lineOfOffset_spec indexed inside
  have size := line_len indexed there
  unfold right
  simp only
  split
  · rename_i before
    have beyond : offset - text.lineStart (text.lineOfOffset offset) < nextBoundary script
        (text.line (text.lineOfOffset offset))
        (offset - text.lineStart (text.lineOfOffset offset)) := by
      unfold nextBoundary
      cases found : ((script.graphemeIndices _).map (·.1)).find?
          (· > offset - text.lineStart (text.lineOfOffset offset)) with
      | none =>
        rw [Option.getD_none]
        omega
      | some after => simpa using find?_some found
    omega
  split
  · rename_i more
    have after := next _ (lineStart_getElem? more)
    omega
  · rename_i last
    have end_ : text.lineEnd (text.lineOfOffset offset) = text.len := by
      unfold Text.lineEnd
      simp only [min_line there, getElem?_eq_none (Nat.le_of_not_lt last)]
    omega

/-- Going back by words goes back, but from the start. -/
theorem wordLeft_back (script : Script) (text : Text) (boundary : text.bytes.IsBoundary offset) :
    wordLeft script text offset ≤ offset ∧ (wordLeft script text offset = offset → offset = 0) := by
  obtain ⟨behind, ahead, here⟩ := Split.of_boundary boundary
  have inside : min offset text.len = offset := Nat.min_eq_left boundary.1
  obtain ⟨skipped, parts, gap⟩ := skipGapBack_split script here here.behind_le
  have word := skipWordBack_split script gap gap.behind_le
  have whole : behind.reverse = ((pastGap script behind).dropWhile (isWordChar script)).reverse ++
      (skipped ++ (pastGap script behind).takeWhile (isWordChar script)).reverse := by
    rw [← reverse_append, append_assoc, takeWhile_append_dropWhile, ← parts]
  have size : offset = wordLeft script text offset +
      (encode (skipped ++ (pastGap script behind).takeWhile (isWordChar script)).reverse).length := by
    have lands : wordLeft script text offset = _ :=
      (congrArg (fun at_ => skipWordBack script text.bytes.bytes text.len
      (skipGapBack script text.bytes.bytes text.len at_)) inside).trans word.offset_eq
    rw [lands, ← length_append, ← encode_append, ← whole]
    exact here.offset_eq
  refine ⟨by omega, fun stays => ?_⟩
  have nothing : (skipped ++ (pastGap script behind).takeWhile (isWordChar script)).reverse = [] := by
    refine length_eq_zero_iff.mp (Nat.le_zero.mp ((length_le_encode _).trans ?_))
    omega
  obtain ⟨none_, still⟩ := append_eq_nil_iff.mp (reverse_eq_nil_iff.mp nothing)
  cases behind with
  | nil => exact here.zero
  | cons c rest =>
    by_cases letter : isWordChar script c = true
    · rw [pastGap, if_pos letter, takeWhile_cons_of_pos letter] at still
      cases still
    · have shorter : (pastGap script (c :: rest)).length ≤ rest.length := by
        rw [pastGap, if_neg letter]
        split
        · exact le_rfl
        · exact (pastGap_suffix script rest).length_le
      rw [none_, nil_append] at parts
      rw [← parts, length_cons] at shorter
      exact absurd shorter (Nat.not_succ_le_self _)

end Movement

/-- Where one deletion from two cursors, the first in front of the second, meets: a lone caret goes
back past the end of what is in front of it, or ahead past the start of what is behind it. -/
def Command.Crosses (script : Script) (text : Text) : Command → Cursor → Cursor → Prop
  | .deleteBackward, first, second =>
    second.isEmpty = true ∧ Movement.left script text second.head < first.range.stop
  | .deleteWordBackward, first, second =>
    second.isEmpty = true ∧ Movement.wordLeft script text second.head < first.range.stop
  | .deleteForward, first, second =>
    first.isEmpty = true ∧ second.range.start < Movement.right script text first.head
  | _, _, _ => False

namespace Document

theorem deletedRange_lone {into : Text → Nat → Nat} {text : Text} {cursor : Cursor}
    (lone : cursor.isEmpty = true) :
    (deletedRange into text cursor).start = min cursor.head (into text cursor.head) ∧
      (deletedRange into text cursor).stop = max cursor.head (into text cursor.head) ∧
        cursor.range.start = cursor.head ∧ cursor.range.stop = cursor.head := by
  have same : cursor.anchor = cursor.head := beq_iff_eq.mp lone
  rw [deletedRange, if_pos lone, Range.new_start, Range.new_stop, cursor.range_start,
    cursor.range_stop, same]
  exact ⟨rfl, rfl, Nat.min_self _, Nat.max_self _⟩

theorem deletedRange_selected {into : Text → Nat → Nat} {text : Text} {cursor : Cursor}
    (selects : ¬cursor.isEmpty = true) : deletedRange into text cursor = cursor.range ∧
    cursor.range.start < cursor.range.stop := by
  have other : cursor.anchor ≠ cursor.head := fun same => selects (beq_iff_eq.mpr same)
  rw [deletedRange, if_neg selects, cursor.range_start, cursor.range_stop]
  exact ⟨rfl, by omega⟩

/-- Two deletions back are apart unless the second crosses the first cursor. -/
theorem apart_back {text : Text} {first second : Cursor} (gap : first.apart second)
    (back : ∀ cursor, cursor = first ∨ cursor = second →
      into text cursor.head ≤ cursor.head ∧
      (into text cursor.head = cursor.head → cursor.head = 0)) :
    ((deletedRange into text first).isEmpty = false → (deletedRange into text second).isEmpty =
      false →
      (deletedRange into text first).apart (deletedRange into text second)) ↔
      ¬(second.isEmpty = true ∧ into text second.head < first.range.stop) := by
  have one := back first (.inl rfl)
  have other := back second (.inr rfl)
  unfold Cursor.apart at gap
  simp only [Range.isEmpty, beq_eq_false_iff_ne, Range.apart]
  by_cases lone : second.isEmpty = true
  · obtain ⟨start, stop, start', stop'⟩ := @deletedRange_lone into text _ lone
    by_cases lone' : first.isEmpty = true
    · obtain ⟨start₁, stop₁, start₁', stop₁'⟩ := @deletedRange_lone into text _ lone'
      simp only [lone, true_and]
      omega
    · obtain ⟨same, full⟩ := @deletedRange_selected into text _ lone'
      simp only [lone, true_and, same]
      omega
  · obtain ⟨same, full⟩ := @deletedRange_selected into text _ lone
    have ends : (deletedRange into text first).stop = first.range.stop := by
      by_cases lone' : first.isEmpty = true
      · obtain ⟨_, stop₁, _, stop₁'⟩ := @deletedRange_lone into text _ lone'
        omega
      · rw [(deletedRange_selected lone').1]
    simp only [lone, Bool.false_eq_true, false_and, not_false_eq_true, iff_true, same, ends]
    omega

/-- Two deletions ahead are apart unless the first crosses the second cursor. -/
theorem apart_ahead {text : Text} {first second : Cursor} (gap : first.apart second)
    (ahead : ∀ cursor, cursor = first ∨ cursor = second → cursor.head ≤ into text cursor.head ∧
      into text cursor.head ≤ text.len ∧
      (into text cursor.head = cursor.head → cursor.head = text.len)) :
    ((deletedRange into text first).isEmpty = false → (deletedRange into text second).isEmpty =
      false →
      (deletedRange into text first).apart (deletedRange into text second)) ↔
      ¬(first.isEmpty = true ∧ second.range.start < into text first.head) := by
  have one := ahead first (.inl rfl)
  have other := ahead second (.inr rfl)
  unfold Cursor.apart at gap
  simp only [Range.isEmpty, beq_eq_false_iff_ne, Range.apart]
  by_cases lone : first.isEmpty = true
  · obtain ⟨start, stop, start', stop'⟩ := @deletedRange_lone into text _ lone
    by_cases lone' : second.isEmpty = true
    · obtain ⟨start₁, stop₁, start₁', stop₁'⟩ := @deletedRange_lone into text _ lone'
      simp only [lone, true_and]
      omega
    · obtain ⟨same, full⟩ := @deletedRange_selected into text _ lone'
      simp only [lone, true_and, same]
      omega
  · obtain ⟨same, full⟩ := @deletedRange_selected into text _ lone
    have starts : (deletedRange into text second).start = second.range.start := by
      by_cases lone' : second.isEmpty = true
      · obtain ⟨start₁, _, start₁', _⟩ := @deletedRange_lone into text _ lone'
        omega
      · rw [(deletedRange_selected lone').1]
    simp only [lone, Bool.false_eq_true, false_and, not_false_eq_true, iff_true, same, starts]
    omega

/-- What holds of each two of the cursors in order holds of their deletions. -/
theorem deletesApart_iff {document : Document} (placed : document.Placed)
    {crosses : Cursor → Cursor → Prop} (pairs : ∀ first ∈ document.selection.cursors,
      ∀ second ∈ document.selection.cursors,
      first.apart second → (((deletedRange into document.text first).isEmpty = false →
        (deletedRange into document.text second).isEmpty = false →
        (deletedRange into document.text first).apart (deletedRange into document.text second)) ↔
          ¬crosses first second)) :
    document.DeletesApart into ↔ document.selection.cursors.Pairwise fun first second =>
    ¬crosses first second := by
  unfold DeletesApart
  rw [pairwise_map]
  constructor
  · intro apart
    refine (placed.sound.apart.and apart).imp_of_mem fun {first second} one other both => ?_
    exact (pairs first one second other both.1).mp both.2
  · intro clear
    refine (placed.sound.apart.and clear).imp_of_mem fun {first second} one other both => ?_
    exact (pairs first one second other both.1).mpr both.2

theorem deletesApart_back {document : Document} (placed : document.Placed)
    (back : ∀ offset, document.text.bytes.IsBoundary offset → into document.text offset ≤ offset ∧
      (into document.text offset = offset → offset = 0)) :
    document.DeletesApart into ↔ document.selection.cursors.Pairwise fun first second =>
      ¬(second.isEmpty = true ∧ into document.text second.head < first.range.stop) := by
  refine deletesApart_iff placed fun first one second other gap => apart_back gap ?_
  rintro cursor (rfl | rfl)
  · exact back _ (placed.inside _ one).2
  · exact back _ (placed.inside _ other).2

theorem deletesApart_right {script : Script} (lawful : script.Lawful) {document : Document}
    (placed : document.Placed) (indexed : document.text.Indexed) :
    document.DeletesApart (Movement.right script) ↔
      document.selection.cursors.Pairwise fun first second => ¬(first.isEmpty = true ∧
        second.range.start < Movement.right script document.text first.head) := by
  have ahead (offset : Nat) (boundary : document.text.bytes.IsBoundary offset) :
      offset ≤ Movement.right script document.text offset ∧
        Movement.right script document.text offset ≤ document.text.len ∧
          (Movement.right script document.text offset = offset → offset = document.text.len) := by
    obtain ⟨least, last⟩ := @Movement.right_ahead script _ indexed _ boundary.1
    exact ⟨least, (Movement.right_whole lawful indexed offset).boundary.1, last⟩
  refine deletesApart_iff placed fun first one second other gap => apart_ahead gap ?_
  rintro cursor (rfl | rfl)
  · exact ahead _ (placed.inside _ one).2
  · exact ahead _ (placed.inside _ other).2

/-- An edit is turned down as misbuilt just where a deletion from one cursor crosses another. -/
theorem misbuilt_iff {script : Script} (lawful : script.Lawful) {engine : Engine}
    (sound : engine.Enumerates) (style : InputStyle) {document : Document}
    (reached : document.Reached) (command : Command) :
    (document.verdict script engine style command).any EditError.misbuilt = true ↔
      document.readOnly = false ∧ ¬document.selection.cursors.Pairwise fun first second =>
        ¬command.Crosses script document.text first second := by
  have placed := reached.placed
  have indexed := reached.indexed
  have other {verdict : Option EditError} (built : verdict.any EditError.misbuilt = false)
      (none_ : ∀ first second, ¬command.Crosses script document.text first second) :
      verdict.any EditError.misbuilt = true ↔ document.readOnly = false ∧
        ¬document.selection.cursors.Pairwise fun first second =>
        ¬command.Crosses script document.text first second := by
    rw [built]
    refine iff_of_false Bool.false_ne_true fun both => both.2 ?_
    exact pairwise_of_forall none_
  cases command with
  | insertText typed => exact other (insertText_built reached script style typed) fun _ _ => id
  | insertNewline => exact other (insertNewline_built reached script style) fun _ _ => id
  | insertTab => exact other (insertAround_built placed _ _ .input) fun _ _ => id
  | toggleLineComment => exact other (Comment.toggle_built indexed script style) fun _ _ => id
  | deleteBackward =>
    refine (delete_built_iff placed (fun offset _ =>
      (Movement.left_whole lawful indexed offset).boundary) .input).trans ?_
    rw [deletesApart_back placed fun offset boundary => Movement.left_back indexed boundary.1]
    exact Iff.rfl
  | deleteForward =>
    refine (delete_built_iff placed (fun offset _ =>
      (Movement.right_whole lawful indexed offset).boundary) .input).trans ?_
    rw [deletesApart_right lawful placed indexed]
    exact Iff.rfl
  | deleteWordBackward =>
    have sealed : document.breakUndoGroup.Placed := ⟨placed.sound, placed.inside⟩
    refine (delete_built_iff sealed (fun _ => Movement.wordLeft_isBoundary script document.text)
      .input).trans ?_
    rw [deletesApart_back sealed fun _ => Movement.wordLeft_back script document.text]
    exact Iff.rfl
  | deleteLine => exact other (deleteLine_built reached) fun _ _ => id
  | cut => exact other (cut_built reached) fun _ _ => id
  | paste text =>
    have sealed : document.breakUndoGroup.Placed := ⟨placed.sound, placed.inside⟩
    exact other (insertAround_built sealed text .empty .paste) fun _ _ => id
  | replaceMatch query replacement =>
    have sealed : document.breakUndoGroup.Placed := ⟨placed.sound, placed.inside⟩
    refine other ?_ fun _ _ => id
    simp only [verdict]
    split
    · rfl
    · exact insertAround_built sealed replacement .empty .replace
  | replaceAll query replacement =>
    exact other (replaceAll_built sound query replacement) fun _ _ => id
  | _ => exact other rfl fun _ _ => id

/-- What a command's edit is refused with is what the command reports, and it is a misbuilt edit
just where a deletion goes from a lone caret into what another cursor has. -/
theorem verdict_misbuilt_iff {script : Script} (lawful : script.Lawful) {engine : Engine}
    (sound : engine.Enumerates) (style : InputStyle) {document : Document}
    (reached : document.Reached) (command : Command) :
    (∀ error, document.verdict script engine style command = some error →
      (document.execute script engine style command).1.refusal = some (refusalFor error)) ∧
    ((document.verdict script engine style command).any EditError.misbuilt = true ↔
      document.readOnly = false ∧ ¬document.selection.cursors.Pairwise fun first second =>
        ¬command.Crosses script document.text first second) :=
  ⟨fun _ => execute_refusal script engine style document command, misbuilt_iff lawful sound style
  reached command⟩

def plainStyle : InputStyle := ⟨.spaces 4, false, .none⟩

/-- Both letters `a` of `"aba"` selected and typed over: `"xbx"` with a caret behind each `x`. -/
def twoTyped : Document :=
  (fromString (.ofChars ['a', 'b', 'a']) false).executeAll Movement.asciiScript asciiWords plainStyle
    [.moveRight true, .addNextOccurrence, .insertText (.ofChars ['x'])]

theorem asciiWords_enumerates : asciiWords.Enumerates where
  ordered _ _ _ never := absurd never not_mem_nil
  boundaries _ _ _ never := absurd never not_mem_nil
  disjoint _ _ := List.Pairwise.nil

theorem twoTyped_reached : twoTyped.Reached :=
  executeAll_reached (.load (.ofChars ['a', 'b', 'a']) false) Movement.asciiScript asciiWords
  plainStyle _

/-- Deleting a character back at both carets is fine. -/
theorem verdict_misbuilt_letters : twoTyped.selection.cursors = [.caret 1, .caret 3] ∧
    (twoTyped.verdict Movement.asciiScript asciiWords plainStyle .deleteBackward).any
    EditError.misbuilt ≠ true := by
  have carets : twoTyped.selection.cursors = [.caret 1, .caret 3] := by decide
  have law := (verdict_misbuilt_iff Movement.asciiScript_lawful asciiWords_enumerates plainStyle
    twoTyped_reached .deleteBackward).2
  refine ⟨carets, fun misbuilt => (law.mp misbuilt).2 ?_⟩
  rw [carets]
  refine pairwise_pair.mpr ?_
  show ¬(_ ∧ _)
  decide

/-- Deleting back by a word is refused as no match: both carets would take the start of the word. -/
theorem twoTyped_misbuilt :
    twoTyped.text.bytes = .ofChars ['x', 'b', 'x'] ∧ twoTyped.selection.cursors =
      [.caret 1, .caret 3] ∧
    twoTyped.verdict Movement.asciiScript asciiWords plainStyle .deleteWordBackward =
      some .overlapping ∧
    (twoTyped.execute Movement.asciiScript asciiWords plainStyle .deleteWordBackward).1 =
      .refused .noMatch :=
  ⟨by decide, by decide, by decide, by decide⟩

end Document

end ForgeNode.Editor
