import ForgeNode.Editor.Lineage

/-! The line index through every edit, and what the report of an edit promises of the lines. -/

namespace ForgeNode.Editor

open List hiding after
open Utf8 Splice

namespace Text

/-- `if end > start && bytes[end - 1] == b'\r'`: the carriage return belongs to the terminator. -/
def beforeReturn (text : Text) (start stop : Nat) : Nat :=
  if stop > start && text.bytes.bytes[stop - 1]? == some 13 then stop - 1 else stop

/-- Last byte of `line` before its terminator. -/
def lineEnd (text : Text) (line : Nat) : Nat :=
  let line := min line (text.lineStarts.length - 1)
  match text.lineStarts[line + 1]? with
  | some next => text.beforeReturn (text.lineStarts.getD line 0) (next - 1)
  | none => text.len

/-- The terminator that `line` ends with; slicing panics where `get?` finds nothing. -/
def lineTerminator (text : Text) (line : Nat) : Str :=
  let line := min line (text.lineStarts.length - 1)
  match text.lineStarts[line + 1]? with
  | some next => (text.bytes.get? (text.lineEnd line) next).getD .empty
  | none => .empty

/-- The line's characters without its terminator. -/
def line (text : Text) (line : Nat) : Str :=
  (text.bytes.get? (text.lineStart line) (text.lineEnd line)).getD .empty

/-- The line index is the one that a scan of the bytes finds. -/
def Indexed (text : Text) : Prop := text.lineStarts = scanLineStarts text.bytes

end Text

section Starts

/-- Where the lines of a byte sequence start. -/
def starts (bytes : List UInt8) : List Nat := 0 :: (newlineOffsets bytes).map (· + 1)

theorem length_starts (bytes : List UInt8) :
    (starts bytes).length = bytes.countP (· == newlineByte) + 1 := by
  simp [starts, newlineOffsets]

theorem starts_append (front back : List UInt8) : starts (front ++ back) =
    starts front ++ (newlineOffsets back).map fun offset => front.length + offset + 1 := by
  have later : back.findIdxs (· == newlineByte) front.length =
      (newlineOffsets back).map (· + front.length) := findIdxs_start
  unfold starts newlineOffsets
  rw [findIdxs_append, Nat.zero_add, later, map_append, map_map, cons_append]
  congr 2
  apply map_congr_left
  intro offset _
  simp only [Function.comp_apply]
  omega

theorem starts_le {bytes : List UInt8} {start : Nat} (member : start ∈ starts bytes) :
    start ≤ bytes.length := by
  rcases mem_cons.mp member with rfl | member
  · exact Nat.zero_le _
  · obtain ⟨offset, there, rfl⟩ := List.mem_map.mp member
    have below := lt_add_of_mem_findIdxs offset there
    omega

theorem partitionPoint_append {p : Nat → Bool} {front back : List Nat}
    (holds : ∀ start ∈ front, p start = true) (fails : ∀ start ∈ back, p start = false) :
    partitionPoint p (front ++ back) = front.length := by
  have none_ : back.takeWhile p = [] := by
    cases back with
    | nil => rfl
    | cons start rest => exact takeWhile_cons_of_neg (by simp [fails start mem_cons_self])
  rw [partitionPoint, takeWhile_append_of_pos holds, none_, append_nil]

theorem partitionPoint_starts (front back : List UInt8) :
    partitionPoint (fun start => decide (start ≤ front.length)) (starts (front ++ back)) =
      (starts front).length := by
  rw [starts_append]
  apply partitionPoint_append
  · intro start member
    exact decide_eq_true (starts_le member)
  · intro start member
    obtain ⟨offset, _, rfl⟩ := List.mem_map.mp member
    exact decide_eq_false (by omega)

end Starts

namespace Text

theorem new_indexed (bytes : Str) : (new bytes).Indexed := rfl

/-- An edit takes the index along. -/
theorem replace_indexed {text : Text} (indexed : text.Indexed) (range : Range) (insert : Str) :
    (text.replace range insert).Indexed := by
  have first := text.clampRange_start range
  have last := text.clampRange_stop range
  obtain ⟨front, removed, back, whole, start, stop⟩ : ∃ front removed back,
      text.bytes.bytes = front ++ removed ++ back ∧ (text.clampRange range).start = front.length ∧
        (text.clampRange range).stop = (front ++ removed).length := by
    have order := (text.clampRange range).ordered
    have bound : (text.clampRange range).stop ≤ text.bytes.bytes.length := last.1
    refine ⟨text.bytes.bytes.take (text.clampRange range).start,
      (text.bytes.bytes.take (text.clampRange range).stop).drop (text.clampRange range).start,
      text.bytes.bytes.drop (text.clampRange range).stop, ?_, ?_, ?_⟩
    · have early : text.bytes.bytes.take (text.clampRange range).start =
          (text.bytes.bytes.take (text.clampRange range).stop).take
          (text.clampRange range).start := by
        rw [take_take, Nat.min_eq_left order]
      rw [early, take_append_drop, take_append_drop]
    · rw [length_take]
      omega
    · rw [length_append, List.length_drop, length_take, length_take]
      omega
  have bytes : (text.replace range insert).bytes.bytes = front ++ insert.bytes ++ back := by
    simp only [replace, Str.replaceRange, Str.upTo, Str.since, Str.bytes_append]
    rw [stop, start, whole, drop_left, append_assoc front removed, take_left]
  have known : text.lineStarts = starts (front ++ removed ++ back) := by
    rw [← whole]
    exact indexed
  have kept : text.lineStarts.take (partitionPoint (fun start => decide (start ≤ front.length))
      text.lineStarts) =
      starts front := by
    rw [known, append_assoc, partitionPoint_starts, starts_append, take_left]
  have shifted : text.lineStarts.drop
      (partitionPoint (fun start => decide (start ≤ (front ++ removed).length)) text.lineStarts) =
      (newlineOffsets back).map fun offset => (front ++ removed).length + offset + 1 := by
    rw [known, partitionPoint_starts, starts_append (front ++ removed), drop_left]
  change (text.replace range insert).lineStarts = starts (text.replace range insert).bytes.bytes
  rw [bytes]
  simp only [replace]
  rw [start, stop, kept, shifted, starts_append (front ++ insert.bytes),
    starts_append front insert.bytes, map_map]
  congr 1
  apply map_congr_left
  intro offset _
  have size : insert.len = insert.bytes.length := rfl
  simp only [Function.comp_apply, shiftStart, length_append, size]
  split <;> omega

theorem Indexed.ext {text other : Text} (indexed : text.Indexed) (indexed' : other.Indexed)
    (same : text.bytes = other.bytes) : text = other := by
  obtain ⟨bytes, starts⟩ := text
  obtain ⟨bytes', starts'⟩ := other
  obtain rfl : bytes = bytes' := same
  obtain rfl : starts = starts' := Eq.trans indexed (Eq.symm indexed')
  rfl

theorem foldr_indexed {text : Text} (indexed : text.Indexed) (edits : List Edit) :
    (edits.foldr (fun edit text => text.replace edit.range edit.insert) text).Indexed := by
  induction edits with
  | nil => exact indexed
  | cons edit rest ih => exact replace_indexed ih edit.range edit.insert

theorem Indexed.lineCount {text : Text} (indexed : text.Indexed) :
    text.lineCount = newlines text.bytes + 1 := by
  unfold Text.lineCount newlines
  rw [indexed]
  exact length_starts _

theorem Indexed.lineOfOffset_lt {text : Text} (indexed : text.Indexed) (offset : Nat) :
    text.lineOfOffset offset < text.lineCount := by
  have some : 0 < text.lineCount := by
    rw [indexed.lineCount]
    exact Nat.succ_pos _
  have bound : partitionPoint (fun start => decide (start ≤ min offset text.len)) text.lineStarts ≤
      text.lineCount := (List.takeWhile_prefix _).length_le
  unfold Text.lineOfOffset
  omega

theorem Indexed.lineOfOffset {text : Text} (indexed : text.Indexed) {front back : List UInt8}
    (whole : text.bytes.bytes = front ++ back) :
    text.lineOfOffset front.length = front.countP (· == newlineByte) := by
  have inside : min front.length text.len = front.length := by
    have size : text.len = (front ++ back).length := congrArg List.length whole
    rw [size, length_append]
    exact Nat.min_eq_left (Nat.le_add_right _ _)
  have known : text.lineStarts = starts (front ++ back) := whole ▸ indexed
  unfold Text.lineOfOffset
  rw [inside, known, partitionPoint_starts, length_starts, Nat.add_sub_cancel]

end Text

namespace Replay

theorem step_indexed {replay : Replay} (indexed : replay.text.Indexed) (edit : Edit) :
    (replay.step edit).text.Indexed := Text.replace_indexed indexed _ _

theorem run_indexed {replay : Replay} (indexed : replay.text.Indexed) (edits : List Edit) :
    (replay.run edits).text.Indexed := by
  induction edits generalizing replay with
  | nil => exact indexed
  | cons edit rest ih => exact ih (step_indexed indexed edit)

/-- One edit counts the newlines it adds and takes away. -/
theorem step_lineDelta (replay : Replay) (edit : Edit) :
    (replay.step edit).lineDelta - newlines (replay.step edit).text.bytes =
      replay.lineDelta - newlines replay.text.bytes := by
  simp only [step]
  generalize Range.new _ _ = range
  have order := (replay.text.clampRange range).ordered
  have split : replay.text.bytes.bytes = replay.text.bytes.bytes.take (replay.text.clampRange
      range).start ++ ((replay.text.slice range).bytes ++ replay.text.bytes.bytes.drop
      (replay.text.clampRange range).stop) := by
    have early : replay.text.bytes.bytes.take (replay.text.clampRange range).start =
        (replay.text.bytes.bytes.take (replay.text.clampRange range).stop).take
          (replay.text.clampRange range).start := by
      rw [take_take, Nat.min_eq_left order]
    simp only [Text.slice, Str.slice]
    rw [early, ← append_assoc, take_append_drop, take_append_drop]
  have old : newlines replay.text.bytes = _ := congrArg (List.countP (· == newlineByte)) split
  have new : newlines (replay.text.replace range edit.insert).bytes =
      (replay.text.bytes.bytes.take (replay.text.clampRange range).start).countP (· == newlineByte) +
        (newlines edit.insert +
          (replay.text.bytes.bytes.drop (replay.text.clampRange range).stop).countP
          (· == newlineByte)) := by
    simp only [newlines, Text.replace, Str.replaceRange, Str.upTo, Str.since, Str.bytes_append,
      countP_append]
    omega
  rw [countP_append, countP_append] at old
  change newlines replay.text.bytes = _ + (newlines (replay.text.slice range) + _) at old
  omega

theorem run_lineDelta (replay : Replay) (edits : List Edit) :
    (replay.run edits).lineDelta - newlines (replay.run edits).text.bytes =
      replay.lineDelta - newlines replay.text.bytes := by
  induction edits generalizing replay with
  | nil => rfl
  | cons edit rest ih => exact (ih _).trans (step_lineDelta replay edit)

end Replay

namespace Text

section Boundaries

variable {text : Text}

theorem Indexed.start_isBoundary (indexed : text.Indexed) {start : Nat}
    (member : start ∈ text.lineStarts) :
    text.bytes.IsBoundary start := by
  rw [indexed] at member
  rcases mem_cons.mp member with rfl | member
  · exact text.bytes.isBoundary_zero
  · obtain ⟨offset, there, rfl⟩ := List.mem_map.mp member
    obtain ⟨inside, newline⟩ := mem_findIdxs_iff_exists_getElem_pos.mp there
    rw [beq_iff_eq] at newline
    exact Str.isBoundary_after (List.getElem?_eq_some_iff.mpr ⟨inside, newline⟩) (by decide)

theorem Indexed.newline_before (indexed : text.Indexed) {line next : Nat}
    (there : text.lineStarts[line + 1]? = some next) :
    ∃ offset, next = offset + 1 ∧ text.bytes.bytes[offset]? = some newlineByte := by
  rw [indexed] at there
  have member : next ∈ (newlineOffsets text.bytes.bytes).map (· + 1) := mem_of_getElem? there
  obtain ⟨offset, found, rfl⟩ := List.mem_map.mp member
  obtain ⟨inside, newline⟩ := mem_findIdxs_iff_exists_getElem_pos.mp found
  rw [beq_iff_eq] at newline
  exact ⟨offset, rfl, List.getElem?_eq_some_iff.mpr ⟨inside, newline⟩⟩

theorem Indexed.ascending (indexed : text.Indexed) : text.lineStarts.Pairwise (· < ·) := by
  rw [indexed]
  refine pairwise_cons.mpr ⟨fun start member => ?_, ?_⟩
  · obtain ⟨offset, _, rfl⟩ := List.mem_map.mp member
    exact Nat.succ_pos offset
  · exact pairwise_map.mpr (pairwise_findIdxs.imp Nat.succ_lt_succ)

theorem beforeReturn_isBoundary {start stop : Nat} (boundary : text.bytes.IsBoundary stop) :
    text.bytes.IsBoundary (text.beforeReturn start stop) := by
  unfold beforeReturn
  split
  · rename_i ends
    rw [Bool.and_eq_true, beq_iff_eq] at ends
    exact Str.isBoundary_at ends.2 (by decide)
  · exact boundary

theorem Indexed.lineEnd_isBoundary (indexed : text.Indexed) (line : Nat) :
    text.bytes.IsBoundary (text.lineEnd line) := by
  unfold Text.lineEnd
  simp only
  split
  · rename_i next there
    obtain ⟨offset, rfl, newline⟩ := indexed.newline_before there
    exact beforeReturn_isBoundary (Str.isBoundary_at newline (by decide))
  · exact text.bytes.isBoundary_len

end Boundaries

private theorem get?_bytes {s : Str} {first last : Nat} (start : s.IsBoundary first)
    (stop : s.IsBoundary last) (order : first ≤ last) :
    ((s.get? first last).getD .empty).bytes = (s.bytes.take last).drop first := by
  unfold Str.get?
  rw [dif_pos ⟨start, stop, order⟩]
  rfl

private theorem window_part (front window back : List UInt8) {first last : Nat}
    (inside : last ≤ window.length) :
    ((front ++ (window ++ back)).take (front.length + last)).drop (front.length + first) =
      (window.take last).drop first := by
  rw [take_length_add_append, drop_length_add_append, take_append_of_le_length inside]

private theorem window_return {text : Text} {front window back : List UInt8}
    (bytes : text.bytes.bytes = front ++ (window ++ back)) {start stop : Nat}
    (inside : stop ≤ window.length) : text.beforeReturn (front.length + start)
    (front.length + stop) =
      front.length + if stop > start && window[stop - 1]? == some 13 then stop - 1 else stop := by
  unfold beforeReturn
  by_cases past : stop > start
  · have place : front.length + stop - 1 - front.length = stop - 1 := by omega
    have same : text.bytes.bytes[front.length + stop - 1]? = window[stop - 1]? := by
      rw [bytes, getElem?_append_right (by omega), place, getElem?_append_left (by omega)]
    have past' : front.length + stop > front.length + start := by omega
    simp only [past, past', same, decide_true, Bool.true_and]
    split <;> omega
  · have past' : ¬front.length + stop > front.length + start := by omega
    simp [past, past']

/-- Two texts that hold the same bytes around a line hold the same line. -/
theorem line_window {old new : Text} (oldIndexed : old.Indexed) (newIndexed : new.Indexed)
    {front window back front' back' : List UInt8}
    (oldBytes : old.bytes.bytes = front ++ (window ++ back))
    (newBytes : new.bytes.bytes = front' ++ (window ++ back')) {line other start : Nat}
    (oldStart : old.lineStarts[line]? = some (front.length + start))
    (newStart : new.lineStarts[other]? = some (front'.length + start))
    (next : (∃ stop, start < stop ∧ stop ≤ window.length ∧
        old.lineStarts[line + 1]? = some (front.length + stop) ∧
        new.lineStarts[other + 1]? = some (front'.length + stop)) ∨
      (back = [] ∧ back' = [] ∧ start ≤ window.length ∧ old.lineStarts[line + 1]? = none ∧
        new.lineStarts[other + 1]? = none)) :
    new.line other = old.line line ∧ new.lineTerminator other = old.lineTerminator line := by
  have small {text : Text} {line start : Nat} (there : text.lineStarts[line]? = some start) :
      min line (text.lineStarts.length - 1) = line := by
    have inside := (List.getElem?_eq_some_iff.mp there).1
    omega
  have begins {text : Text} {line start : Nat} (there : text.lineStarts[line]? = some start) :
      text.lineStart line = start := by
    rw [lineStart, small there, getD_eq_getElem?_getD, there, Option.getD_some]
  -- both lines end at one place of the window
  obtain ⟨stop, order, inside, oldStop, newStop⟩ : ∃ stop, start ≤ stop ∧ stop ≤ window.length ∧
      old.lineEnd line = front.length + stop ∧ new.lineEnd other = front'.length + stop := by
    unfold lineEnd
    simp only [small oldStart, small newStart, getD_eq_getElem?_getD, oldStart, newStart,
      Option.getD_some]
    rcases next with ⟨stop, past, inside, oldNext, newNext⟩ | ⟨rfl, rfl, inside, oldNext, newNext⟩
    · have place (front : List UInt8) : front.length + stop - 1 = front.length + (stop - 1) := by
        omega
      simp only [oldNext, newNext, place]
      rw [window_return oldBytes (by omega), window_return newBytes (by omega)]
      refine ⟨_, ?_, ?_, rfl, rfl⟩
      · split
        · rename_i ends
          simp only [Bool.and_eq_true, decide_eq_true_eq] at ends
          omega
        · omega
      · split <;> omega
    · simp only [oldNext, newNext]
      refine ⟨window.length, inside, Nat.le_refl _, ?_, ?_⟩
      · rw [len, Str.len, oldBytes, append_nil, length_append]
      · rw [len, Str.len, newBytes, append_nil, length_append]
  have oldFirst := oldIndexed.start_isBoundary (mem_of_getElem? oldStart)
  have newFirst := newIndexed.start_isBoundary (mem_of_getElem? newStart)
  have oldLast := oldIndexed.lineEnd_isBoundary line
  have newLast := newIndexed.lineEnd_isBoundary other
  rw [oldStop] at oldLast
  rw [newStop] at newLast
  constructor
  · apply Str.ext
    rw [Text.line, Text.line, begins oldStart, begins newStart, oldStop, newStop,
      get?_bytes newFirst newLast (by omega), get?_bytes oldFirst oldLast (by omega), oldBytes,
      newBytes,
      window_part _ _ _ inside, window_part _ _ _ inside]
  · unfold lineTerminator
    simp only [small oldStart, small newStart]
    rcases next with ⟨final, past, within, oldNext, newNext⟩ | ⟨_, _, _, oldNext, newNext⟩
    · have ends : stop ≤ final := by
        have least : old.lineEnd line ≤ front.length + final := by
          unfold lineEnd
          simp only [small oldStart, oldNext, beforeReturn]
          split <;> omega
        omega
      have oldFinal := oldIndexed.start_isBoundary (mem_of_getElem? oldNext)
      have newFinal := newIndexed.start_isBoundary (mem_of_getElem? newNext)
      simp only [oldNext, newNext]
      apply Str.ext
      rw [oldStop, newStop, get?_bytes newLast newFinal (by omega), get?_bytes oldLast oldFinal
        (by omega), oldBytes, newBytes, window_part _ _ _ within, window_part _ _ _ within]
    · simp only [oldNext, newNext]

end Text

end ForgeNode.Editor
