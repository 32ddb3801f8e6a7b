import ForgeNode.Editor.Placing
import ForgeNode.Editor.SavedLaw

/-! A clean document follows the disk: its text, its carets and one way back. -/

namespace ForgeNode.Editor

open List hiding after
open Utf8 Splice

namespace History

private theorem trimOldest_last (entries : List Entry) (newest : Entry) (retained dropped : Nat) :
    ∃ kept, (trimOldest (entries ++ [newest]) retained dropped).1 = kept ++ [newest] := by
  induction entries generalizing retained dropped with
  | nil => exact ⟨[], by simp [trimOldest, maxHistoryEntries]⟩
  | cons oldest rest ih =>
    rw [cons_append, trimOldest]
    split
    · exact ih _ _
    · exact ⟨oldest :: rest, rfl⟩

/-- Trimming never drops the newest entry. -/
theorem trim_newest (history : History) (top : history.undo = entry :: rest) :
    ∃ kept, history.trim.undo = entry :: kept := by
  obtain ⟨kept, same⟩ := trimOldest_last rest.reverse entry history.retained history.dropped
  refine ⟨kept.reverse, ?_⟩
  simp only [trim, top, reverse_cons, same, reverse_append, reverse_nil, nil_append,
    singleton_append]

/-- What is recorded after a seal is an entry of its own. -/
theorem record_sealed (history : History) (undo redo : Transaction)
    (stateBefore stateAfter resumeAt : Nat) (base : Str) : ∃ entry rest, entry.base = base ∧
      (history.sealRun.record undo redo stateBefore stateAfter resumeAt base).undo =
        entry :: rest := by
  have alone : history.sealRun.joined undo redo = none := rfl
  unfold record
  simp only [alone]
  obtain ⟨kept, top⟩ := trim_newest { history.sealRun with
    undo := { undo, redo, stateBefore, stateAfter, retained := undo.retainedBytes + redo.retainedBytes, resumeAt,
              base } :: history.sealRun.undo
    redo := []
    retained := history.sealRun.retained - (history.sealRun.redo.map Entry.retained).sum +
      (undo.retainedBytes + redo.retainedBytes)
    sealed := false } rfl
  exact ⟨_, kept, rfl, top⟩

end History

namespace ReloadSpan

/-- Where an offset of the old text is found again in the new one. -/
def place (span : ReloadSpan) (text : Text) (offset : Nat) : Nat :=
  text.clampOffset (span.map offset)

variable {old text : Str}

/-- Before the span nothing moves. -/
theorem place_before {new : Text} (same : new.bytes = text) {offset : Nat}
    (boundary : old.IsBoundary offset) (before : offset < (between old text).start) :
    (between old text).place new offset = offset := by
  obtain ⟨insert, _, order, first, last, whole⟩ := between_spec old text
  have moved : (between old text).map offset = offset := if_pos before
  have inside := first.1
  have byte : text.bytes[offset]? = old.bytes[offset]? := by
    rw [← whole, getElem?_append_left (by rw [length_take, Str.length_bytes]; omega),
      getElem?_take_of_lt before]
  rw [place, moved]
  apply Text.clampOffset_of_isBoundary
  rw [same]
  have here : offset < old.bytes.length := Nat.lt_of_lt_of_le before inside
  obtain ⟨there, _⟩ := List.getElem?_eq_some_iff.mp (byte.trans (getElem?_eq_getElem here))
  refine ⟨Nat.le_of_lt there, ?_⟩
  have clean := boundary.2
  unfold isCharBoundary at clean ⊢
  rw [byte]
  rw [getElem?_eq_getElem here] at clean ⊢
  exact clean

/-- Behind the span the distance from the end stays. -/
theorem place_behind {new : Text} (same : new.bytes = text) {offset : Nat}
    (boundary : old.IsBoundary offset) (behind : (between old text).oldEnd ≤ offset) :
    (between old text).place new offset + old.len = text.len + offset := by
  obtain ⟨insert, found, order, first, last, whole⟩ := between_spec old text
  unfold Str.get? at found
  split at found
  · rename_i inside
    obtain ⟨start, stop, ascending⟩ := inside
    have size : insert.bytes.length = (between old text).newEnd - (between old text).start := by
      have within : (between old text).newEnd ≤ text.bytes.length := stop.1
      rw [← Option.some.inj found]
      simp only [Str.slice, List.length_drop, length_take]
      omega
    have front : (old.bytes.take (between old text).start ++ insert.bytes).length =
        (between old text).newEnd := by
      have within : (between old text).start ≤ old.bytes.length := first.1
      rw [length_append, length_take, size]
      omega
    have tails : text.bytes.drop (between old text).newEnd =
        old.bytes.drop (between old text).oldEnd := by
      rw [← whole, ← append_assoc, ← front, drop_left]
    have lengths := congrArg List.length tails
    have bound := boundary.1
    have final := last.1
    have within := stop.1
    simp only [List.length_drop, Str.length_bytes] at lengths
    have moved : (between old text).map offset = (between old text).newEnd +
        (offset - (between old text).oldEnd) := by
      unfold map
      rw [if_neg (by omega), if_pos behind]
      omega
    have settled : new.bytes.IsBoundary ((between old text).map offset) := by
      rw [same, moved]
      have inside : (between old text).newEnd + (offset - (between old text).oldEnd) ≤
          text.bytes.length := by
        rw [Str.length_bytes]
        omega
      refine ⟨inside, (isCharBoundary_iff text.valid _).mpr ⟨inside, ?_⟩⟩
      have same : (between old text).oldEnd + (offset - (between old text).oldEnd) = offset := by
        omega
      rw [← drop_drop, tails, drop_drop, same]
      exact boundary.clean
    rw [place, Text.clampOffset_of_isBoundary settled, moved]
    omega
  · cases found

private theorem common_self (bytes : List UInt8) : common bytes bytes = bytes.length := by
  induction bytes with
  | nil => rfl
  | cons byte rest ih => simp [common, ih]

/-- Between a text and itself everything lies before the span. -/
theorem place_same {text : Text} {offset : Nat} (boundary : text.bytes.IsBoundary offset) :
    (between text.bytes text.bytes).place text offset = offset := by
  rcases Nat.lt_or_ge offset (between text.bytes text.bytes).start with before | behind
  · exact place_before rfl boundary before
  · have start : (between text.bytes text.bytes).start = text.bytes.len := by
      unfold between
      simp only
      rw [common_self, Str.length_bytes]
      cases size : text.bytes.len with
      | zero => rfl
      | succ length =>
        have last : isCharBoundary text.bytes.bytes (length + 1) = true :=
          size ▸ text.bytes.isBoundary_len.2
        simp [retreat, onBoundaries, last]
    obtain ⟨_, _, order, _, last, _⟩ := between_spec text.bytes text.bytes
    have bound := boundary.1
    have final := last.1
    have stay := place_behind rfl boundary
      (by omega : (between text.bytes text.bytes).oldEnd ≤ offset)
    omega

end ReloadSpan

namespace Document

/-- A clean document takes any text that fits. -/
theorem reloadClean_eq {document : Document} (clean : document.isDirty = false) {text : Str}
    (fits : text.len ≤ maxDocumentBytes) (differs : document.asStr ≠ text) (revision : String) :
    let span := ReloadSpan.between document.asStr text
    ∃ transaction, document.breakUndoGroup.validate transaction = .ok () ∧
      transaction.selectionAfter = some (document.selection.mapped fun cursor =>
        .new (span.map cursor.anchor) (span.map cursor.head)) ∧
      document.reloadClean text revision =
        (.ok (some (document.breakUndoGroup.applyValidated transaction true).1),
          { (document.breakUndoGroup.applyValidated transaction true).2 with
            savedState := some (document.breakUndoGroup.applyValidated transaction true).2.state
            diskRevision := some revision }) := by
  intro span
  obtain ⟨insert, found, order, first, last, joined⟩ := ReloadSpan.between_spec document.asStr text
  have built := Transaction.new_of_disjoint
    (.singleton (Edit.replace (.new span.start span.oldEnd) insert)) .reload document.selection
  have range : Range.new span.start span.oldEnd = ⟨span.start, span.oldEnd, order⟩ :=
    Range.new_of_le order
  have small : ¬text.len > maxDocumentBytes := Nat.not_lt.mpr fits
  have valid : document.validate (Transaction.withSelectionAfter
      ⟨[.replace (.new span.start span.oldEnd) insert], .singleton _, .reload, document.selection,
      none⟩
      (document.selection.mapped fun cursor => .new (span.map cursor.anchor)
      (span.map cursor.head))) = .ok () := by
    have stands : goneOutside document.text (.replace (.new span.start span.oldEnd) insert) =
        false := by
      have inside : ¬span.oldEnd > document.text.len := Nat.not_lt.mpr last.1
      have start : document.text.bytes.IsBoundary span.start := first
      have stop : document.text.bytes.IsBoundary span.oldEnd := last
      simp [goneOutside, Edit.replace, range, Text.isBoundary, start, stop, inside]
    have size : ((document.text.len : Int) +
        ((insert.len : Int) - (Range.new span.start span.oldEnd).len)).toNat =
        text.len := by
      have lengths := congrArg List.length joined
      have within := last.1
      have early := first.1
      have same : document.asStr.len = document.text.len := rfl
      simp only [length_append, length_take, List.length_drop, Str.length_bytes] at lengths
      rw [range, Range.len]
      simp only [span]
      omega
    simp only [validate, Transaction.withSelectionAfter, find?_cons, stands, find?_nil,
      Transaction.sizeDelta, map_cons, map_nil, sum_cons, sum_nil]
    simp only [Edit.replace, Int.add_zero, size, if_neg small]
  refine ⟨_, valid, rfl, ?_⟩
  simp only [reloadClean, clean, small, differs, Bool.false_eq_true, if_false, found,
    Option.getD_some]
  simp only [span] at built valid
  simp only [built, valid]
  rfl

/-- The offset is where an end of a caret is found again. -/
def Found (document : Document) (place : Nat → Nat) (offset : Nat) : Prop :=
  ∃ cursor ∈ document.selection.cursors, offset = place cursor.anchor ∨ offset = place cursor.head

/-- What becomes of the carets: each is found again at the places of its ends, merged as ever. -/
structure Follows (document after : Document) (place : Nat → Nat) : Prop where
  covered : ∀ cursor ∈ document.selection.cursors, ∃ wide ∈ after.selection.cursors,
    wide.range.start ≤ min (place cursor.anchor) (place cursor.head) ∧
      max (place cursor.anchor) (place cursor.head) ≤ wide.range.stop
  ends : ∀ wide ∈ after.selection.cursors,
    document.Found place wide.anchor ∧ document.Found place wide.head

/-- One rebuilding of a selection keeps every caret within its own. -/
theorem mapped_follows {selection : Selection} (few : selection.cursors.length ≤ maxCursors)
    (place : Nat → Nat) : (∀ cursor ∈ selection.cursors,
      ∃ wide ∈ (selection.mapped fun cursor => .new (place cursor.anchor)
      (place cursor.head)).cursors,
        wide.range.start ≤ min (place cursor.anchor) (place cursor.head) ∧
          max (place cursor.anchor) (place cursor.head) ≤ wide.range.stop) ∧
      (selection.mapped fun cursor => .new (place cursor.anchor)
      (place cursor.head)).cursors.length ≤ maxCursors := by
  have some_ : (selection.cursors.map fun cursor => Cursor.new (place cursor.anchor)
      (place cursor.head)) ≠ [] :=
    mt map_eq_nil_iff.mp selection.cursors_ne_nil
  obtain ⟨keep, _, shape, _⟩ := Selection.many_cursors some_ selection.primaryIndex
  have under := Selection.length_merged_le
    (selection.cursors.map fun cursor => Cursor.new (place cursor.anchor) (place cursor.head))
  rw [length_map] at under
  rw [Selection.capCursors_of_le (Nat.le_trans under few)] at shape
  refine ⟨fun cursor member => ?_, (Selection.sound_many _ _).few⟩
  have given : Cursor.new (place cursor.anchor) (place cursor.head) ∈
      selection.cursors.map fun cursor => Cursor.new (place cursor.anchor) (place cursor.head) :=
    mem_map_of_mem member
  obtain ⟨wide, there, start, stop⟩ := Selection.merged_covers given
  rw [(Cursor.new (place cursor.anchor) (place cursor.head)).range_start] at start
  rw [(Cursor.new (place cursor.anchor) (place cursor.head)).range_stop] at stop
  exact ⟨wide, shape.symm ▸ there, start, stop⟩

private theorem mono_min {f : Nat → Nat} (mono : ∀ {low high}, low ≤ high → f low ≤ f high)
    (left right : Nat) : f (min left right) = min (f left) (f right) := by
  rcases Nat.le_total left right with order | order
  · rw [Nat.min_eq_left order, Nat.min_eq_left (mono order)]
  · rw [Nat.min_eq_right order, Nat.min_eq_right (mono order)]

private theorem mono_max {f : Nat → Nat} (mono : ∀ {low high}, low ≤ high → f low ≤ f high)
    (left right : Nat) : f (max left right) = max (f left) (f right) := by
  rcases Nat.le_total left right with order | order
  · rw [Nat.max_eq_right order, Nat.max_eq_right (mono order)]
  · rw [Nat.max_eq_left order, Nat.max_eq_left (mono order)]

/-- So do two in a row, the second one in order. -/
theorem mapped_mapped_follows {document after : Document} (sound : document.selection.Sound)
    {first last : Nat → Nat} (mono : ∀ {low high}, low ≤ high → last low ≤ last high)
    (built : after.selection = (document.selection.mapped fun cursor =>
      .new (first cursor.anchor) (first cursor.head)).mapped fun cursor =>
        .new (last cursor.anchor) (last cursor.head)) : Follows document after fun offset =>
        last (first offset) := by
  obtain ⟨covered, few⟩ := mapped_follows sound.few first
  obtain ⟨again, _⟩ := mapped_follows few last
  refine ⟨fun cursor member => ?_, ?_⟩
  · obtain ⟨middle, there, start, stop⟩ := covered cursor member
    obtain ⟨wide, within, low, high⟩ := again middle there
    rw [← mono_min mono, ← middle.range_start] at low
    rw [← mono_max mono, ← middle.range_stop] at high
    refine ⟨wide, built ▸ within, ?_, ?_⟩
    · exact Nat.le_trans low (Nat.le_trans (mono start) (Nat.le_of_eq (mono_min mono _ _)))
    · exact Nat.le_trans (Nat.le_trans (Nat.le_of_eq (mono_max mono _ _).symm) (mono stop)) high
  · rw [built]
    have outer : ∀ middle ∈ (document.selection.mapped fun cursor =>
        .new (first cursor.anchor) (first cursor.head)).cursors,
        document.Found first middle.anchor ∧ document.Found first middle.head :=
      Selection.mapped_inside fun cursor there => ⟨⟨cursor, there, .inl rfl⟩, cursor, there, .inr rfl⟩
    refine Selection.mapped_inside fun middle there => ?_
    obtain ⟨⟨anchor, known, anchorAt⟩, head, known', headAt⟩ := outer middle there
    exact ⟨⟨anchor, known, anchorAt.imp (congrArg last) (congrArg last)⟩,
      head, known', headAt.imp (congrArg last) (congrArg last)⟩

theorem follows_same {document after : Document} (placed : document.Placed) {place : Nat → Nat}
    (stays : ∀ offset, document.text.bytes.IsBoundary offset → place offset = offset)
    (same : after.selection = document.selection) : Follows document after place := by
  refine ⟨fun cursor member => ?_, fun wide member => ?_⟩
  · obtain ⟨anchor, head⟩ := placed.inside cursor member
    rw [stays _ anchor, stays _ head, ← cursor.range_start, ← cursor.range_stop]
    exact ⟨cursor, same ▸ member, Nat.le_refl _, Nat.le_refl _⟩
  · rw [same] at member
    obtain ⟨anchor, head⟩ := placed.inside wide member
    exact ⟨⟨wide, member, .inl (stays _ anchor).symm⟩, wide, member, .inr (stays _ head).symm⟩

theorem undo_of_top {document : Document} (writable : document.readOnly = false)
    (top : document.history.undo = entry :: rest) :
    ∃ applied after, document.undo = some (applied, after) := by
  simp only [undo, writable, History.popUndo, top]
  exact ⟨_, _, rfl⟩

/-- A clean document follows the disk, and where it is writable and changed, one undo leads back. -/
theorem reloadClean_follows {document : Document} (reached : document.Reached) (text : Str)
    (revision : String) : (document.isDirty = false → text.len ≤ maxDocumentBytes →
      let span := ReloadSpan.between document.asStr text
      ∃ applied after, document.reloadClean text revision = (.ok applied, after) ∧
        (text.get? span.start span.newEnd).isSome ∧
        after.asStr = text ∧ after.isDirty = false ∧
        Follows document after (span.place after.text) ∧
        (∀ offset, document.asStr.IsBoundary offset →
          (offset < span.start → span.place after.text offset = offset) ∧
          (span.oldEnd ≤ offset → span.place after.text offset + document.asStr.len = text.len +
          offset)) ∧
        after.Placed ∧
        (document.readOnly = false → document.asStr ≠ text →
          ∃ undone restored, after.undo = some (undone, restored) ∧ restored.asStr =
            document.asStr)) ∧
      ∀ error, (document.reloadClean text revision).1 = .error error →
        (document.reloadClean text revision).2 = document := by
  refine ⟨fun clean fits => ?_, fun error failed => reloadClean_error failed⟩
  intro span
  have placed := reached.placed
  have whole : (text.get? span.start span.newEnd).isSome := by
    obtain ⟨insert, found, _⟩ := ReloadSpan.between_spec document.asStr text
    exact Option.isSome_iff_exists.mpr ⟨insert, found⟩
  have after_placed := reloadClean_placed placed text revision
  have moves {after : Document} (same : after.text.bytes = text) (offset : Nat)
      (boundary : document.asStr.IsBoundary offset) :
      (offset < span.start → span.place after.text offset = offset) ∧
        (span.oldEnd ≤ offset → span.place after.text offset + document.asStr.len =
          text.len + offset) :=
    ⟨ReloadSpan.place_before same boundary, ReloadSpan.place_behind same boundary⟩
  by_cases same : document.asStr = text
  · have done : document.reloadClean text revision = (.ok none, document.setDiskRevision
        revision) := by
      simp only [reloadClean, clean, Nat.not_lt.mpr fits, same, Bool.false_eq_true, if_false, if_true]
    rw [done] at after_placed ⊢
    have follows : Follows document (document.setDiskRevision revision)
        (span.place document.text) := by
      refine follows_same placed (fun offset boundary => ?_) rfl
      simp only [span]
      rw [← same]
      exact ReloadSpan.place_same boundary
    exact ⟨_, _, rfl, whole, same, clean, follows, moves same, after_placed, fun _ differs =>
      absurd same differs⟩
  · obtain ⟨transaction, valid, selection, done⟩ := reloadClean_eq clean fits same revision
    have ok : (document.reloadClean text revision).1 = .ok _ := congrArg Prod.fst done
    obtain ⟨now, saved⟩ := reloadClean_ok ok
    have further : (document.reloadClean text revision).2.Reached :=
      .call (.reloadClean text revision) reached
    rw [done] at after_placed now saved ⊢
    refine ⟨_, _, rfl, whole, now, ?_, ?_, moves now, after_placed, fun writable _ => ?_⟩
    · simp [isDirty]
    · apply mapped_mapped_follows placed.sound (fun order => Text.clampOffset_mono _ order)
      have built : ∀ chosen, transaction.selectionAfter = some chosen →
          (document.breakUndoGroup.applyValidated transaction true).2.selection =
            chosen.mapped fun cursor =>
            .new ((document.breakUndoGroup.applyValidated transaction true).2.text.clampOffset
            cursor.anchor)
              ((document.breakUndoGroup.applyValidated transaction true).2.text.clampOffset
              cursor.head) := by
        intro chosen is
        simp only [applyValidated, is, Option.getD_some]
      exact built _ selection
    · obtain ⟨entry, rest, base, top⟩ := History.record_sealed document.history
        (document.breakUndoGroup.inverseOf transaction) transaction document.state document.nextState
        (Replay.run ⟨document.text, 0, 0, document.selection.head⟩ transaction.edits).resumeAt
        document.text.bytes
      have writable : (document.reloadClean text revision).2.readOnly = false := by
        rw [done]
        exact writable
      have top : (document.reloadClean text revision).2.history.undo = entry :: rest := by
        rw [done]
        exact top
      obtain ⟨seen, coherent⟩ := further.coherent
      obtain ⟨undone, restored, back⟩ := undo_of_top writable top
      have text := (undo_eq top back).1
      rw [done] at back
      exact ⟨undone, restored, back, (congrArg Text.bytes text).trans
        ((coherent.undo_text top).trans base)⟩

/-- A read-only buffer follows the disk too, but undo refuses it. -/
theorem reloadClean_keeps_no_way_back : ¬∀ (document : Document) (text : Str) (revision : String),
    document.Reached → document.isDirty = false → text.len ≤ maxDocumentBytes →
      ∃ undone restored, (document.reloadClean text revision).2.undo = some (undone, restored) ∧
        restored.asStr = document.asStr := by
  intro always
  obtain ⟨undone, restored, back, _⟩ :=
    always (fromString (.ofChars ['a']) true) (.ofChars ['b']) "" (.load _ _) rfl (by decide)
  have refused : ((fromString (.ofChars ['a']) true).reloadClean (.ofChars ['b'])
      "").2.undo.isNone := by decide
  rw [back] at refused
  cases refused

/-- Two letters that became three on the disk, between a caret before them and one behind. -/
theorem reloadClean_letters :
    let document := (fromString (.ofChars ['a', 'b', 'c', 'd']) false).setSelection
      (.many [.caret 0, .caret 4] 0)
    let after := (document.reloadClean (.ofChars ['a', 'x', 'y', 'z', 'd']) "").2
    after.asStr = .ofChars ['a', 'x', 'y', 'z', 'd'] ∧
      after.selection.cursors = [.caret 0, .caret 5] ∧
        ∃ undone restored, after.undo = some (undone, restored) ∧
          restored.asStr = .ofChars ['a', 'b', 'c', 'd'] := by
  intro document after
  have reached : document.Reached :=
    .call (.setSelection _) (.load (.ofChars ['a', 'b', 'c', 'd']) false)
  obtain ⟨applied, followed, done, _, now, _, _, _, _, back⟩ :=
    (reloadClean_follows reached (.ofChars ['a', 'x', 'y', 'z', 'd']) "").1 (by decide) (by decide)
  have same : after = followed := congrArg Prod.snd done
  exact ⟨same ▸ now, by decide +kernel, same ▸ back rfl (by decide)⟩

end Document

end ForgeNode.Editor
