import ForgeNode.Editor.Lines

/-! The report of every edit: which lines a view may keep. -/

namespace ForgeNode.Editor

open List hiding after
open Utf8 Splice

/-- What a view may keep: the lines above the first one, and the lines below the last,
renumbered. -/
structure Damage (old new : Text) (applied : Applied) : Prop where
  counted : (new.lineCount : Int) = old.lineCount + applied.lineDelta
  above : ∀ line < applied.firstLine, line < old.lineCount ∧ line < new.lineCount ∧
    new.line line = old.line line ∧ new.lineTerminator line = old.lineTerminator line
  below : ∀ line, applied.lastLine < line → line < old.lineCount →
    ∃ moved : Nat, (moved : Int) = line + applied.lineDelta ∧ moved < new.lineCount ∧
      new.line moved = old.line line ∧ new.lineTerminator moved = old.lineTerminator line

section Damage

variable {old new : Text} {applied : Applied}

theorem Damage.of_same (same : new = old) (delta : applied.lineDelta = 0)
    (inside : applied.firstLine < old.lineCount) : Damage old new applied := by
  rw [same]
  refine ⟨by rw [delta, Int.add_zero], fun line above => ?_, fun line _ here => ?_⟩
  · have here := Nat.lt_trans above inside
    exact ⟨here, here, rfl, rfl⟩
  · exact ⟨line, by rw [delta, Int.add_zero], here, rfl, rfl⟩

/-- A report that counts the lines of the untouched ends is sound. -/
theorem Damage.of_core (oldIndexed : old.Indexed) (newIndexed : new.Indexed)
    {front removed inserted back : List UInt8}
    (oldBytes : old.bytes.bytes = front ++ (removed ++ back))
    (newBytes : new.bytes.bytes = front ++ (inserted ++ back))
    (first : applied.firstLine = front.countP (· == newlineByte))
    (last : applied.lastLine = (front ++ removed).countP (· == newlineByte))
    (delta : applied.lineDelta = (newlines new.bytes - newlines old.bytes : Int)) :
    Damage old new applied := by
  have oldStarts : old.lineStarts = starts (front ++ (removed ++ back)) := oldBytes ▸ oldIndexed
  have newStarts : new.lineStarts = starts (front ++ (inserted ++ back)) := newBytes ▸ newIndexed
  have oldCount := oldIndexed.lineCount
  have newCount := newIndexed.lineCount
  have size := length_starts front
  have oldSize : newlines old.bytes = _ := congrArg (List.countP (· == newlineByte)) oldBytes
  have newSize : newlines new.bytes = _ := congrArg (List.countP (· == newlineByte)) newBytes
  simp only [countP_append] at oldSize newSize last
  refine ⟨by omega, fun line above => ?_, fun line below inside => ?_⟩
  · have place (index : Nat) (early : index < (starts front).length) :
        ∃ start, start ≤ front.length ∧ (starts front)[index]? = some start ∧
          old.lineStarts[index]? = some start ∧ new.lineStarts[index]? = some start := by
      refine ⟨(starts front)[index], starts_le (getElem_mem early), getElem?_eq_getElem early, ?_, ?_⟩
      · rw [oldStarts, starts_append, getElem?_append_left early, getElem?_eq_getElem early]
      · rw [newStarts, starts_append, getElem?_append_left early, getElem?_eq_getElem early]
    obtain ⟨start, _, _, oldStart, newStart⟩ := place line (by omega)
    obtain ⟨stop, within, _, oldStop, newStop⟩ := place (line + 1) (by omega)
    have past : start < stop := by
      obtain ⟨low, rfl⟩ := List.getElem?_eq_some_iff.mp oldStart
      obtain ⟨high, rfl⟩ := List.getElem?_eq_some_iff.mp oldStop
      exact pairwise_iff_getElem.mp oldIndexed.ascending _ _ low high (Nat.lt_succ_self _)
    refine ⟨by omega, by omega, ?_⟩
    have whole (bytes : List UInt8) : bytes = [] ++ bytes := rfl
    have zero (offset : Nat) : offset = ([] : List UInt8).length + offset := (Nat.zero_add _).symm
    rw [zero start] at oldStart newStart
    rw [zero stop] at oldStop newStop
    exact Text.line_window oldIndexed newIndexed (oldBytes.trans (whole _))
      (newBytes.trans (whole _)) oldStart newStart (.inl ⟨stop, past, within, oldStop, newStop⟩)
  · -- both lines are the one after the same newline of the untouched back
    obtain ⟨order, rfl⟩ : ∃ order, line = (starts (front ++ removed)).length + order := by
      refine ⟨line - (starts (front ++ removed)).length, ?_⟩
      rw [length_starts, countP_append]
      omega
    refine ⟨(starts (front ++ inserted)).length + order, ?_, ?_, ?_⟩
    · simp only [length_starts, countP_append]
      omega
    · simp only [length_starts, countP_append] at inside ⊢
      omega
    have oldPlace (index : Nat) : old.lineStarts[(starts (front ++ removed)).length + index]? =
        ((newlineOffsets back)[index]?).map fun offset => (front ++ removed).length + offset + 1 := by
      rw [oldStarts, ← append_assoc, starts_append, getElem?_append_right (Nat.le_add_right _ _),
        Nat.add_sub_cancel_left, getElem?_map]
    have newPlace (index : Nat) : new.lineStarts[(starts (front ++ inserted)).length + index]? =
        ((newlineOffsets back)[index]?).map fun offset => (front ++ inserted).length + offset +
        1 := by
      rw [newStarts, ← append_assoc, starts_append, getElem?_append_right (Nat.le_add_right _ _),
        Nat.add_sub_cancel_left, getElem?_map]
    have here : order < (newlineOffsets back).length := by
      simp only [length_starts, countP_append] at inside
      simp only [newlineOffsets, length_findIdxs]
      omega
    have found := getElem?_eq_getElem here
    have bound (offset : Nat) (member : offset ∈ newlineOffsets back) : offset + 1 ≤ back.length := by
      have := lt_add_of_mem_findIdxs offset member
      omega
    have low := bound _ (getElem_mem here)
    have oldWhole : old.bytes.bytes = (front ++ removed) ++ (back ++ []) := by
      rw [oldBytes, append_assoc, append_nil]
    have newWhole : new.bytes.bytes = (front ++ inserted) ++ (back ++ []) := by
      rw [newBytes, append_assoc, append_nil]
    have oldStart : old.lineStarts[(starts (front ++ removed)).length + order]? =
        some ((front ++ removed).length + ((newlineOffsets back)[order] + 1)) := by
      rw [oldPlace, found]
      rfl
    have newStart : new.lineStarts[(starts (front ++ inserted)).length + order]? =
        some ((front ++ inserted).length + ((newlineOffsets back)[order] + 1)) := by
      rw [newPlace, found]
      rfl
    apply Text.line_window oldIndexed newIndexed oldWhole newWhole oldStart newStart
    rw [Nat.add_assoc, Nat.add_assoc, oldPlace, newPlace]
    cases next : (newlineOffsets back)[order + 1]? with
    | none => exact .inr ⟨rfl, rfl, low, rfl, rfl⟩
    | some offset =>
      have past : (newlineOffsets back)[order] < offset := by
        obtain ⟨high, rfl⟩ := List.getElem?_eq_some_iff.mp next
        exact pairwise_iff_getElem.mp pairwise_findIdxs _ _ here high (Nat.lt_succ_self _)
      exact .inl ⟨offset + 1, Nat.succ_lt_succ past, bound offset (mem_of_getElem? next), rfl, rfl⟩

end Damage

namespace Document

/-- The line index is right in every document that calls reach. -/
theorem Reached.indexed {document : Document} (reached : document.Reached) :
    document.text.Indexed := by
  induction reached with
  | load body readOnly => exact Text.new_indexed body
  | @call document op _ ih =>
    have replayed (transaction : Transaction) (record : Bool) :
        (document.applyValidated transaction record).2.text.Indexed := Replay.run_indexed ih _
    cases perform_effect document op with
    | quiet same => exact same.text ▸ ih
    | @recorded here _ transaction same valid done =>
      rw [done.text]
      have indexed : here.text.Indexed := same.text ▸ ih
      exact Replay.run_indexed indexed _
    | undone _ top done =>
      rw [(undo_eq top done).1]
      exact replayed _ _
    | redone _ top done =>
      rw [(redo_eq top done).1]
      exact replayed _ _

/-- The report of a transaction that carries out a change. -/
theorem applyValidated_damage {document : Document} (indexed : document.text.Indexed)
    (change : Change document.text.bytes new) (performs : Performs transaction change)
    (record : Bool) : Damage document.text (document.applyValidated transaction record).2.text
      (document.applyValidated transaction record).1 := by
  have after : (document.applyValidated transaction record).2.text.Indexed :=
    Replay.run_indexed indexed _
  have text := applyValidated_text change performs record
  have delta : (document.applyValidated transaction record).1.lineDelta =
      (newlines (document.applyValidated transaction record).2.text.bytes - newlines
      document.text.bytes : Int) := by
    have counted := Replay.run_lineDelta ⟨document.text, 0, 0, document.selection.head⟩
      transaction.edits
    change Replay.lineDelta _ - _ = (0 : Int) - newlines document.text.bytes at counted
    simp only [applyValidated]
    omega
  obtain ⟨pieces, tail, sound, whole, changed⟩ := change
  unfold Performs Change.cuts Transaction.cuts at performs
  cases pieces with
  | nil =>
    have none_ : transaction.edits = [] := map_eq_nil_iff.mp performs
    apply Damage.of_same
    · simp only [applyValidated, none_]
      rfl
    · simp only [applyValidated, none_]
      rfl
    · simp only [applyValidated, none_]
      exact indexed.lineOfOffset_lt _
  | cons piece rest =>
    obtain ⟨removed, inserted, last, old_, new_, final, stop⟩ :=
      @Splice.exists_core _ 0 piece rest tail
    have oldBytes : document.text.bytes.bytes = piece.gap ++ (removed ++ tail) :=
      whole.symm.trans old_
    have newBytes := (congrArg Str.bytes text).trans (changed.symm.trans new_)
    have first : transaction.edits.head?.map (·.range.start) = some piece.gap.length := by
      have head := congrArg (fun cuts => cuts.head?.map Cut.start) performs
      simpa [head?_map, Splice.cuts, Edit.cut, Function.comp_def] using head
    have last : transaction.edits.getLast?.map (·.range.stop) =
        some (piece.gap ++ removed).length := by
      have tail := congrArg (fun cuts => cuts.getLast?.map Cut.stop) performs
      simp only [final, Option.map_some, stop, Nat.zero_add, getLast?_map, Option.map_map] at tail
      exact tail
    refine Damage.of_core indexed after oldBytes newBytes ?_ ?_ delta
    · simp only [applyValidated, first, Option.getD_some]
      exact indexed.lineOfOffset oldBytes
    · simp only [applyValidated, last, Option.getD_some]
      exact indexed.lineOfOffset (oldBytes.trans (append_assoc _ _ _).symm)

/-- The report that a call hands out, where it edits at all. -/
def reported (document : Document) : Op → Option Applied
  | .apply transaction => (document.apply transaction).1.toOption
  | .insert text origin => (document.insert text origin).1.toOption
  | .insertAround before after origin => (document.insertAround before after origin).1.toOption
  | .delete into origin => (document.delete into origin).1.toOption.join
  | .replaceAll engine query replacement =>
    match (document.replaceAll engine query replacement).1 with
    | .ok (.replaced _ applied) => applied
    | _ => none
  | .reload body revision => (document.reload body revision).1.toOption
  | .reloadClean text revision => (document.reloadClean text revision).1.toOption.join
  | .undo => document.undo.map (·.1)
  | .redo => document.redo.map (·.1)
  | _ => none

/-- Where a call that reports got its report from. -/
inductive Reports (document : Document) (applied : Applied) (after : Document) : Prop where
  | recorded {here : Document} {transaction : Transaction} (same : here.text = document.text)
      (valid : here.validate transaction = .ok ())
      (report : applied = (here.applyValidated transaction true).1)
      (text : after.text = (here.applyValidated transaction true).2.text)
  | undone (done : document.undo = some (applied, after))
  | redone (done : document.redo = some (applied, after))

section Reports

variable {document : Document}

private theorem ok_of_toOption {result : Except EditError α}
    (some_ : result.toOption = some value) : result = .ok value := by
  cases result with
  | error error => cases some_
  | ok other => rw [Option.some.inj some_]

/-- `apply` reports what it applied, whatever is adjusted around it. -/
theorem apply_reports {here : Document} (same : here.text = document.text)
    (transaction : Transaction) {applied : Applied}
    (report : (here.apply transaction).1 = .ok applied) {after : Document}
    (text : after.text = (here.apply transaction).2.text) : Reports document applied after := by
  revert report text
  unfold apply
  split
  · intro report
    cases report
  split
  · intro report
    cases report
  · rename_i valid
    intro report text
    exact .recorded same valid (Except.ok.inj report).symm text

theorem insertAround_reports (before after : Str) (origin : Origin) {applied : Applied}
    (report : (document.insertAround before after origin).1 = .ok applied) :
    Reports document applied (document.insertAround before after origin).2 := by
  revert report
  unfold insertAround
  simp only
  split
  · intro report
    cases report
  · exact fun report => apply_reports rfl _ report rfl

theorem delete_reports (into : Text → Nat → Nat) (origin : Origin) {applied : Applied}
    (report : (document.delete into origin).1 = .ok (some applied)) :
    Reports document applied (document.delete into origin).2 := by
  revert report
  unfold delete
  split
  · intro report
    cases report
  simp only
  split
  · intro report
    cases report
  split
  · intro report
    cases report
  · rename_i transaction _
    intro report
    simp only at report ⊢
    cases ran : (document.apply (transaction.withSelectionAfter (.many (deletionLandings 0
        (document.selection.cursors.map (deletedRange into document.text)))
        document.selection.primaryIndex))).1 with
    | error error =>
      rw [ran] at report
      cases report
    | ok other =>
      rw [ran] at report
      obtain rfl := Option.some.inj (Except.ok.inj report)
      exact apply_reports rfl _ ran rfl

theorem reload_reports (body : Str) (revision : String) {applied : Applied}
    (report : (document.reload body revision).1 = .ok applied) :
    Reports document applied (document.reload body revision).2 := by
  revert report
  unfold reload
  simp only
  split
  · intro report
    cases report
  split
  · intro report
    cases report
  · rename_i ran
    intro report
    rw [Except.ok.inj report] at ran
    refine apply_reports ?_ _ ran ?_
    · rfl
    · rfl

theorem reloadClean_reports (text : Str) (revision : String) {applied : Applied}
    (report : (document.reloadClean text revision).1 = .ok (some applied)) :
    Reports document applied (document.reloadClean text revision).2 := by
  revert report
  unfold reloadClean
  split
  · intro report
    cases report
  split
  · intro report
    cases report
  split
  · intro report
    cases report
  simp only
  split
  · intro report
    cases report
  split
  · intro report
    cases report
  · rename_i valid
    intro report
    refine .recorded ?_ valid (Option.some.inj (Except.ok.inj report)).symm ?_
    · rfl
    · rfl

theorem replaceAll_reports (engine : Engine) (query : Query) (replacement : Str) {count : Nat}
    {applied : Applied} (report : (document.replaceAll engine query replacement).1 =
      .ok (.replaced count (some applied))) :
    Reports document applied (document.replaceAll engine query replacement).2 := by
  revert report
  unfold replaceAll
  split
  · intro report
    cases report
  split
  · intro report
    cases report
  split
  · intro report
    cases report
  simp only
  split
  · intro report
    cases report
  split
  · intro report
    cases report
  split
  · intro report
    cases report
  · rename_i ran
    intro report
    obtain ⟨_, same⟩ := ReplaceOutcome.replaced.inj (Except.ok.inj report)
    rw [Option.some.inj same] at ran
    refine apply_reports ?_ _ ran ?_
    · rfl
    · rfl

theorem reported_from (op : Op) {applied : Applied} (report : document.reported op = some applied) :
    Reports document applied (document.perform op) := by
  cases op with
  | apply transaction => exact apply_reports rfl transaction (ok_of_toOption report) rfl
  | insert | insertAround => exact insertAround_reports _ _ _ (ok_of_toOption report)
  | delete into origin =>
    exact delete_reports _ _ (ok_of_toOption (Option.join_eq_some_iff.mp report))
  | replaceAll engine query replacement =>
    simp only [reported] at report
    split at report
    · rename_i ran
      rw [report] at ran
      exact replaceAll_reports _ _ _ ran
    · cases report
  | reload body revision => exact reload_reports _ _ (ok_of_toOption report)
  | reloadClean text revision =>
    exact reloadClean_reports _ _ (ok_of_toOption (Option.join_eq_some_iff.mp report))
  | undo =>
    obtain ⟨⟨_, after⟩, done, rfl⟩ := Option.map_eq_some_iff.mp report
    simp only [perform, done]
    exact .undone done
  | redo =>
    obtain ⟨⟨_, after⟩, done, rfl⟩ := Option.map_eq_some_iff.mp report
    simp only [perform, done]
    exact .redone done
  | _ => cases report

/-- Whatever is applied, undone or redone, its report is sound. -/
theorem reported_damage (reached : document.Reached) (op : Op) {applied : Applied}
    (report : document.reported op = some applied) :
    Damage document.text (document.perform op).text applied := by
  have indexed := reached.indexed
  obtain ⟨seen, coherent⟩ := reached.coherent
  cases reported_from op report with
  | @recorded here transaction same valid report text =>
    obtain ⟨new, change, performs⟩ := validate_ok valid
    have indexed' : here.text.Indexed := same ▸ indexed
    have damage := applyValidated_damage indexed' change performs true
    rw [text, report, ← same]
    exact damage
  | undone done =>
    obtain ⟨writable, entry, rest, top⟩ := undo_eq_some done
    have line := coherent.undo
    rw [top] at line
    obtain ⟨change, _, undoes⟩ := line.1.change
    have damage := applyValidated_damage indexed change.flip undoes false
    rw [(undo_eq top done).1]
    simp only [undo, writable, History.popUndo, top, Bool.false_eq_true, if_false, Option.some.injEq,
      Prod.mk.injEq] at done
    exact done.1 ▸ damage
  | redone done =>
    obtain ⟨writable, entry, rest, top⟩ := redo_eq_some done
    have line := coherent.redo
    rw [top] at line
    obtain ⟨same, next, links, _⟩ := line
    obtain ⟨change, redoes, _⟩ := links.change
    have damage : Damage document.text (document.applyValidated entry.redo false).2.text
        (document.applyValidated entry.redo false).1 := by
      have forward : ∃ change : Change document.text.bytes next, Performs entry.redo change :=
        same ▸ ⟨change, redoes⟩
      obtain ⟨change, redoes⟩ := forward
      exact applyValidated_damage indexed change redoes false
    rw [(redo_eq top done).1]
    simp only [redo, writable, History.popRedo, top, Bool.false_eq_true, if_false, Option.some.injEq,
      Prod.mk.injEq] at done
    exact done.1 ▸ damage

/-- A newline typed at the top of two lines. -/
theorem insert_damage :
    let document := fromString (.ofChars ['a', '\n', 'b']) false
    Damage document.text (document.perform (.insert (.ofChars ['\n']) .input)).text ⟨1, 0, 0, 1⟩ :=
  reported_damage (.load _ _) (.insert (.ofChars ['\n']) .input) (by decide)

end Reports

end Document

end ForgeNode.Editor
