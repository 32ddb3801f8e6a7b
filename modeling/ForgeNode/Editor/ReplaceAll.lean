import ForgeNode.Editor.Replay
import ForgeNode.Editor.Window

/-! A replace-all rewrites every match or none, except where a regular expression has more matches
than one transaction may carry. -/

namespace ForgeNode.Editor

open List hiding after
open Utf8 Splice Greedy

/-- The bytes of a text with each range exchanged for the replacement. -/
def rewritten (text : Text) (ranges : List Range) (replacement : Str) : List UInt8 :=
  splice 0 text.bytes.bytes (ranges.map fun range => (Edit.replace range replacement).cut)

/-- Ranges that one transaction can replace. -/
structure Replaceable (text : Text) (ranges : List Range) : Prop where
  disjoint : ranges.Pairwise fun first second => first.stop ≤ second.start
  boundaries : ∀ range ∈ ranges, text.bytes.IsBoundary range.start ∧ text.bytes.IsBoundary range.stop

section Ranges

variable {text : Text} {ranges : List Range}

theorem Replaceable.take (replaceable : Replaceable text ranges) (count : Nat) :
    Replaceable text (ranges.take count) :=
  ⟨replaceable.disjoint.sublist (take_sublist _ _),
    fun range member => replaceable.boundaries range (mem_of_mem_take member)⟩

/-- The matches of a search of the whole text can be replaced. -/
theorem matchesFrom_replaceable {engine : Engine} (sound : engine.Enumerates) (text : Text)
    (query : Query) : Replaceable text (matchesFrom engine text query 0) := by
  refine ⟨matchesFrom_disjoint sound text.bytes.isBoundary_zero, fun range member => ?_⟩
  unfold matchesFrom at member
  split at member
  · by_cases valid : query.pattern.len = 0 ∨ query.pattern.len > maxPatternBytes
    · unfold regexMatches at member
      rw [if_pos valid] at member
      cases member
    · rw [regexMatches_eq text.bytes.isBoundary_zero valid, since_zero] at member
      obtain ⟨found, kept, rfl⟩ := List.mem_map.mp member
      have there := (mem_filter.mp kept).1
      rw [Nat.zero_add, Nat.zero_add, Range.new_of_le (sound.ordered query _ found there)]
      exact sound.boundaries query _ found there
  · rw [scanLiteral_eq engine text query (Nat.zero_le _)] at member
    exact occurrences_boundaries ((select_sublist _ _).subset (mem_filter.mp member).1)

private theorem ordered_of_pairwise {at_ length : Nat} {replacement : Str} (first : at_ ≤ length)
    (below : ∀ range ∈ ranges, at_ ≤ range.start)
    (disjoint : ranges.Pairwise fun first second => first.stop ≤ second.start)
    (inside : ∀ range ∈ ranges, range.stop ≤ length) :
    Splice.Ordered at_ length (ranges.map fun range => (Edit.replace range replacement).cut) := by
  induction ranges generalizing at_ with
  | nil => exact first
  | cons range rest ih =>
    obtain ⟨later, disjoint⟩ := pairwise_cons.mp disjoint
    exact ⟨below range mem_cons_self, range.ordered, ih (inside range mem_cons_self) later
      disjoint fun other member => inside other (mem_cons_of_mem _ member)⟩

theorem Replaceable.ordered (replaceable : Replaceable text ranges) (replacement : Str) :
    Splice.Ordered 0 (0 + text.bytes.bytes.length)
      (ranges.map fun range => (Edit.replace range replacement).cut) := by
  refine ordered_of_pairwise (Nat.zero_le _) (fun _ _ => Nat.zero_le _) replaceable.disjoint
    fun range member => ?_
  have inside := (replaceable.boundaries range member).2.1
  rwa [Nat.zero_add]

/-- Beside ranges that hold the replacement already, one range is all that is rewritten. -/
theorem rewritten_only {front back : List Range} {range : Range} {replacement : Str}
    (replaceable : Replaceable text (front ++ range :: back))
    (same : ∀ other ∈ front ++ back, text.slice other = replacement) :
    rewritten text (front ++ range :: back) replacement = rewritten text [range] replacement := by
  have ordered := replaceable.ordered replacement
  unfold rewritten
  rw [map_append, map_cons] at ordered ⊢
  refine splice_only ordered fun cut member => ?_
  rw [← map_append] at member
  obtain ⟨other, there, rfl⟩ := List.mem_map.mp member
  have whole : other ∈ front ++ range :: back :=
    mem_append.mpr ((mem_append.mp there).imp_right (mem_cons_of_mem _))
  obtain ⟨start, stop⟩ := replaceable.boundaries other whole
  exact (congrArg Str.bytes (same other there)).symm.trans (Text.slice_bytes start stop)

/-- The size of a text after a replacement. -/
theorem length_rewritten (replaceable : Replaceable text ranges) (replacement : Str) :
    (rewritten text ranges replacement).length + (ranges.map Range.len).sum =
      text.len + replacement.len * ranges.length := by
  have sizes := length_splice (replaceable.ordered replacement)
  simp only [map_map] at sizes
  have inserted : ((ranges.map ((fun cut : Cut UInt8 => cut.insert.length) ∘ fun range =>
      (Edit.replace range replacement).cut))).sum = replacement.len * ranges.length := by
    rw [Nat.mul_comm]
    simp [Function.comp_def, Edit.replace, Edit.cut]
  rw [inserted] at sizes
  exact sizes

end Ranges

namespace Document

variable {document : Document} {ranges : List Range}

/-- The edits of a replace-all. -/
private def replacing (ranges : List Range) (replacement : Str) : List Edit :=
  ranges.map fun range => .replace range replacement

private theorem sum_delta (ranges : List Range) (replacement : Str) :
    ((replacing ranges replacement).map fun edit => (edit.insert.len : Int) - edit.range.len).sum =
      (replacement.len * ranges.length : Nat) - ((ranges.map Range.len).sum : Nat) := by
  induction ranges with
  | nil => simp [replacing]
  | cons range rest ih =>
    have grown : replacement.len * (rest.length + 1) = replacement.len * rest.length +
        replacement.len :=
      Nat.mul_succ _ _
    simp only [replacing, map_cons, sum_cons, length_cons, Edit.replace] at ih ⊢
    rw [ih, grown]
    push_cast
    omega

/-- The check of a transaction that replaces such ranges is whether there is room for it. -/
theorem validate_rewriting (replaceable : Replaceable document.text ranges) {replacement : Str}
    {transaction : Transaction} (edits : transaction.edits = ranges.map fun range =>
      .replace range replacement) :
    document.validate transaction =
      if (rewritten document.text ranges replacement).length > maxDocumentBytes then
        .error (.tooLarge (rewritten document.text ranges replacement).length maxDocumentBytes)
      else .ok () := by
  have inside : transaction.edits.find? (goneOutside document.text) = none := by
    refine find?_eq_none.mpr fun edit member => ?_
    rw [edits] at member
    obtain ⟨range, there, rfl⟩ := List.mem_map.mp member
    obtain ⟨first, last⟩ := replaceable.boundaries range there
    have bound : ¬ range.stop > document.text.len := Nat.not_lt.mpr last.1
    simp [goneOutside, Edit.replace, Text.isBoundary, first, last, bound]
  have grown : transaction.sizeDelta =
      (replacement.len * ranges.length : Nat) - ((ranges.map Range.len).sum : Nat) := by
    rw [Transaction.sizeDelta, edits]
    exact sum_delta ranges replacement
  have size := length_rewritten replaceable replacement
  have whole : (document.text.len + transaction.sizeDelta).toNat =
      (rewritten document.text ranges replacement).length := by
    rw [grown]
    omega
  unfold validate
  simp only [inside, whole]

end Document

section Whole

variable {engine : Engine} {document : Document} {query : Query} {replacement : Str}

theorem scanRegex_eq (engine : Engine) (text : Text) {query : Query} (regex : query.regex = true) :
    scanRegex engine text query = (matchesFrom engine text query 0).take maxReplaceMatches := by
  unfold matchesFrom scanRegex
  rw [if_pos regex]
  by_cases valid : query.pattern.len = 0 ∨ query.pattern.len > maxPatternBytes
  · unfold regexMatches
    rw [if_pos valid, if_pos valid, take_nil]
  · rw [if_neg valid, regexMatches_eq text.bytes.isBoundary_zero valid, since_zero]
    simp only [Nat.zero_add]

/-- Which matches a replace-all takes on: the first of a regular expression's, and all of a
literal's or none. -/
theorem replaceAllRanges_eq (engine : Engine) (text : Text) (query : Query) :
    replaceAllRanges engine text query =
      if query.regex then .ok ((matchesFrom engine text query 0).take maxReplaceMatches)
      else if (matchesFrom engine text query 0).length > maxReplaceMatches then .error
        maxReplaceMatches
      else .ok (matchesFrom engine text query 0) := by
  unfold replaceAllRanges
  split
  · rename_i empty
    have none_ : matchesFrom engine text query 0 = [] := by
      unfold matchesFrom regexMatches scanLiteral
      simp only [empty, true_or, if_true, ite_self]
    rw [none_]
    split <;> rfl
  · unfold scan
    by_cases regex : query.regex = true
    · rw [if_pos regex, if_pos regex, scanRegex_eq engine text regex, if_neg]
      exact Nat.not_lt.mpr (length_take_le _ _)
    · have literal : matchesFrom engine text query 0 = scanLiteral engine text query 0 := by
        rw [matchesFrom, if_neg regex]
      rw [if_neg regex, if_neg regex, literal]

end Whole

section Letters

private def letters (count : Nat) : Str := .ofChars (List.replicate count 'x')

private theorem letters_bytes (count : Nat) :
    (letters count).bytes = List.replicate count 0x78 := by
  unfold letters Str.ofChars
  induction count with
  | zero => rfl
  | succ count ih =>
    have one : String.utf8EncodeChar 'x' = [0x78] := by decide
    dsimp only at ih ⊢
    rw [replicate_succ, flatMap_cons, ih, one, replicate_succ]
    rfl

end Letters

end ForgeNode.Editor
