import ForgeNode.Editor.Command
import ForgeNode.Editor.ReplaceAll

/-! Replacing the selected match: which selections a replacement takes for a match, and what it
rewrites. -/

namespace ForgeNode.Editor

open Utf8 Splice

/-- The first match at or after `start`, wrapping to the start of the buffer. -/
def findNext (engine : Engine) (text : Text) (query : Query) (start : Nat) : Option Range :=
  ((scan engine text query).find? fun range => decide (range.start ≥ start)).or
    (scan engine text query).head?

/-- The last match before `start`, wrapping to the end of the buffer. -/
def findPrevious (engine : Engine) (text : Text) (query : Query) (start : Nat) : Option Range :=
  ((scan engine text query).takeWhile fun range => decide (range.stop ≤ start)).getLast?.or
    (scan engine text query).getLast?

/-- The test of `replace_match`: the selected text against the pattern, byte by byte. -/
def Query.equals (query : Query) (selected : Str) : Bool :=
  if query.caseSensitive then selected == query.pattern
  else selected.len == query.pattern.len &&
    (selected.bytes.zip query.pattern.bytes).all fun pair => eqIgnoreAsciiCase pair.1 pair.2

namespace Document

def find (engine : Engine) (document : Document) (query : Query) (forward : Bool) :
    Outcome × Document :=
  if query.pattern.len = 0 then (.refused .noMatch, document)
  else
    let selection := document.selection
    let found := if forward then findNext engine document.text query
      (max selection.range.stop selection.head)
      else findPrevious engine document.text query selection.range.start
    match found with
    | some range => (.default, document.setSelection (.one (.new range.start range.stop)))
    | none => (.refused .noMatch, document)

/-- Replace the selection when it already is a match, then move to the next one. -/
def replaceMatch (engine : Engine) (document : Document) (query : Query) (replacement : Str) :
    Outcome × Document :=
  let selected := document.text.slice document.selection.range
  if !query.equals selected || query.pattern.len = 0 then document.find engine query true
  else
    let (result, document) := document.breakUndoGroup.insert replacement .replace
    let outcome := Outcome.fromEdit result
    let document := document.breakUndoGroup
    if outcome.refusal.isSome then (outcome, document)
    else ({ outcome with replaced := some 1 }, (document.find engine query true).2)

theorem find_text (engine : Engine) (document : Document) (query : Query) (forward : Bool) :
    (document.find engine query forward).2.text = document.text := by
  unfold find
  split
  · rfl
  · simp only
    split <;> rfl

/-- The text with the range at every caret exchanged for `replacement`. -/
def everywhere (document : Document) (replacement : Str) : List UInt8 :=
  rewritten document.text (document.selection.cursors.map Cursor.range) replacement

/-- The text with the primary selection exchanged for `replacement`. -/
def atPrimary (document : Document) (replacement : Str) : List UInt8 :=
  rewritten document.text [document.selection.range] replacement

variable {document : Document}

theorem Placed.replaceable (placed : document.Placed) :
    Replaceable document.text (document.selection.cursors.map Cursor.range) where
  disjoint := List.pairwise_map.mpr (placed.sound.apart.imp fun gap => Nat.le_of_lt gap)
  boundaries := by
    intro range member
    obtain ⟨cursor, there, rfl⟩ := List.mem_map.mp member
    exact placed.range there

/-- Carets that select the replacement already add nothing to the one that does not. -/
theorem everywhere_eq_atPrimary (placed : document.Placed) {replacement : Str}
    (others : ∀ cursor ∈ document.selection.cursors, cursor.range ≠ document.selection.range →
      document.text.slice cursor.range = replacement) :
    document.everywhere replacement = document.atPrimary replacement := by
  have replaceable := placed.replaceable
  have apart := placed.sound.apart
  obtain ⟨front, back, split⟩ := List.append_of_mem (List.get_mem document.selection.cursors
    ⟨document.selection.primaryIndex, document.selection.inRange⟩)
  rw [split, List.pairwise_append, List.pairwise_cons] at apart
  obtain ⟨_, ⟨behind, _⟩, before⟩ := apart
  have distinct {first second : Cursor} (gap : first.apart second) :
      first.range ≠ second.range := by
    intro same
    have ordered := first.range.ordered
    rw [Cursor.apart, same] at gap
    rw [same] at ordered
    exact absurd gap (Nat.not_lt.mpr ordered)
  unfold everywhere
  rw [split, List.map_append, List.map_cons] at replaceable ⊢
  refine rewritten_only replaceable fun range member => ?_
  rw [← List.map_append] at member
  obtain ⟨cursor, there, rfl⟩ := List.mem_map.mp member
  rcases List.mem_append.mp there with first | last
  · exact others cursor (split ▸ List.mem_append_left _ first)
      (distinct (before cursor first _ List.mem_cons_self))
  · exact others cursor (split ▸ List.mem_append_right _ (List.mem_cons_of_mem _ last))
      (distinct (behind cursor last)).symm

/-- Inserting rewrites the range at every caret, or is refused for its size. -/
theorem insert_rewrites (placed : document.Placed) (writable : document.readOnly = false)
    (replacement : Str) (origin : Origin) :
    ((document.everywhere replacement).length > maxDocumentBytes ∧
        ∃ error, document.insert replacement origin = (.error error, document)) ∨
      ((document.everywhere replacement).length ≤ maxDocumentBytes ∧ ∃ applied after,
        document.insert replacement origin = (.ok applied, after) ∧
          after.text.bytes.bytes = document.everywhere replacement) := by
  have same : replacement ++ Str.empty = replacement := Str.ext (List.append_nil _)
  have disjoint : (document.selection.cursors.map fun cursor =>
      Edit.replace cursor.range replacement).IsChain Edit.clear :=
    (List.pairwise_map.mpr (placed.sound.apart.imp fun gap => Nat.le_of_lt gap)).isChain
  have built := Transaction.new_of_disjoint disjoint origin document.selection
  have edits : document.selection.cursors.map (fun cursor => Edit.replace cursor.range replacement) =
      (document.selection.cursors.map Cursor.range).map fun range => .replace range replacement := by
    rw [List.map_map]
    rfl
  have checked (selection : Selection) :
      document.validate ((⟨_, disjoint, origin, document.selection, none⟩ :
      Transaction).withSelectionAfter
        selection) = if (document.everywhere replacement).length > maxDocumentBytes then
          .error (.tooLarge (document.everywhere replacement).length maxDocumentBytes) else .ok () :=
    validate_rewriting placed.replaceable edits
  simp only [insert, insertAround, same, built, apply, writable, Bool.false_eq_true, if_false]
  by_cases room : (document.everywhere replacement).length > maxDocumentBytes
  · left
    rw [checked, if_pos room]
    exact ⟨room, _, rfl⟩
  · right
    have valid :=
      (checked (.many (landings replacement.len replacement.len 0 document.selection.cursors)
      document.selection.primaryIndex)).trans (if_neg room)
    rw [valid]
    refine ⟨Nat.not_lt.mp room, _, _, rfl, ?_⟩
    rw [applyValidated_splice valid true]
    unfold Transaction.cuts
    have each : ((⟨_, disjoint, origin, document.selection, none⟩ : Transaction).withSelectionAfter
        (.many (landings replacement.len replacement.len 0 document.selection.cursors)
          document.selection.primaryIndex)).edits = _ := edits
    rw [each, List.map_map]
    rfl

/-- The text after a replacement. -/
theorem replaceMatch_text (placed : document.Placed) (writable : document.readOnly = false)
    (engine : Engine) (query : Query) (replacement : Str) :
    (document.replaceMatch engine query replacement).2.text.bytes.bytes =
      if query.equals (document.text.slice document.selection.range) = true ∧
        0 < query.pattern.len ∧
          (document.everywhere replacement).length ≤
            maxDocumentBytes then document.everywhere replacement
      else document.text.bytes.bytes := by
  unfold replaceMatch
  by_cases equal : query.equals (document.text.slice document.selection.range) = true
  · by_cases some_ : query.pattern.len = 0
    · simp only [equal, some_, Bool.not_true, decide_true, Bool.or_true, if_true, Nat.lt_irrefl,
        false_and, and_false, if_false, find_text]
    · have positive : 0 < query.pattern.len := Nat.pos_of_ne_zero some_
      simp only [equal, some_, Bool.not_true, decide_false, Bool.or_false, Bool.false_eq_true,
        if_false, positive, true_and]
      have sealed : document.breakUndoGroup.Placed := ⟨placed.sound, placed.inside⟩
      rcases insert_rewrites sealed writable replacement .replace with
        ⟨large, error, refused⟩ | ⟨room, applied, after, done, text⟩
      · have still : ¬(document.everywhere replacement).length ≤ maxDocumentBytes :=
          Nat.not_le.mpr large
        rw [refused, if_neg still]
        rfl
      · have fits : (document.everywhere replacement).length ≤ maxDocumentBytes := room
        rw [done, if_pos fits]
        simp only [Outcome.fromEdit, Except.map, Outcome.fromOptionalEdit, Outcome.default,
          Option.isSome_none, Bool.false_eq_true, if_false, find_text]
        exact text
  · have other : ¬(query.equals (document.text.slice document.selection.range) = true ∧
        0 < query.pattern.len ∧ (document.everywhere replacement).length ≤ maxDocumentBytes) :=
        fun both => equal both.1
    rw [if_neg other]
    simp only [Bool.eq_false_iff.mpr equal, Bool.not_false, Bool.true_or, if_true, find_text]

/-- Replacing rewrites the primary selection when it is a match of the query, and nothing else
ever. -/
def ReplacesMatch (engine : Engine) (document : Document) (query : Query) (replacement : Str) :
  Prop :=
  let after := (document.replaceMatch engine query replacement).2.text.bytes.bytes
  (after ≠ document.text.bytes.bytes →
    document.selection.range ∈ scan engine document.text query ∧
    after = document.atPrimary replacement) ∧
  (document.selection.range ∈ scan engine document.text query →
    (document.atPrimary replacement).length ≤ maxDocumentBytes →
      after = document.atPrimary replacement)

/-- The comparison agrees with the scan about the primary selection, and the other carets add
nothing, as far as either would change the text. -/
structure Agrees (engine : Engine) (document : Document) (query : Query) (replacement : Str) :
    Prop where
  /-- What compares equal is a match, and replacing at the other carets as well makes no
  difference. -/
  sound : query.equals (document.text.slice document.selection.range) = true → 0 < query.pattern.len →
    (document.everywhere replacement).length ≤ maxDocumentBytes →
      document.everywhere replacement = document.text.bytes.bytes ∨
        document.selection.range ∈ scan engine document.text query ∧
          document.everywhere replacement = document.atPrimary replacement
  /-- A match compares equal, and there is room at every caret. -/
  complete : document.selection.range ∈ scan engine document.text query →
    (document.atPrimary replacement).length ≤ maxDocumentBytes →
      document.atPrimary replacement = document.text.bytes.bytes ∨
        query.equals (document.text.slice document.selection.range) = true ∧ 0 < query.pattern.len ∧
          (document.everywhere replacement).length ≤ maxDocumentBytes ∧
          document.everywhere replacement = document.atPrimary replacement

/-- So it is where the other carets select the replacement, and what compares equal is what the scan
finds. Where they select something else, what they add can still cancel out in a repetitive text. -/
theorem agrees_of_selected (placed : document.Placed) {engine : Engine} {query : Query}
    {replacement : Str}
    (others : ∀ cursor ∈ document.selection.cursors, cursor.range ≠ document.selection.range →
      document.text.slice cursor.range = replacement)
    (compares : query.equals (document.text.slice document.selection.range) = true ∧
      0 < query.pattern.len ↔ document.selection.range ∈ scan engine document.text query) :
    Agrees engine document query replacement := by
  have same := everywhere_eq_atPrimary placed others
  constructor
  · exact fun equal some_ _ => .inr ⟨compares.mp ⟨equal, some_⟩, same⟩
  · intro found fits
    obtain ⟨equal, some_⟩ := compares.mpr found
    exact .inr ⟨equal, some_, same.symm ▸ fits, same⟩

/-- A replacement keeps to matches just where the comparison and the carets agree with the scan. -/
theorem replaceMatch_iff (reached : document.Reached) (writable : document.readOnly = false)
    (engine : Engine) (query : Query) (replacement : Str) :
    ReplacesMatch engine document query replacement ↔ Agrees engine document query replacement := by
  have text := replaceMatch_text reached.placed writable engine query replacement
  unfold ReplacesMatch
  simp only
  rw [text]
  constructor
  · rintro ⟨only, all⟩
    constructor
    · intro equal some_ room
      rw [if_pos ⟨equal, some_, room⟩] at only
      by_cases same : document.everywhere replacement = document.text.bytes.bytes
      · exact .inl same
      · exact .inr (only same)
    · intro found fits
      have is := all found fits
      by_cases goes : query.equals (document.text.slice document.selection.range) = true ∧
        0 < query.pattern.len ∧
          (document.everywhere replacement).length ≤ maxDocumentBytes
      · rw [if_pos goes] at is
        exact .inr ⟨goes.1, goes.2.1, goes.2.2, is⟩
      · rw [if_neg goes] at is
        exact .inl is.symm
  · rintro ⟨sound, complete⟩
    by_cases goes : query.equals (document.text.slice document.selection.range) = true ∧
      0 < query.pattern.len ∧
        (document.everywhere replacement).length ≤ maxDocumentBytes
    · rw [if_pos goes]
      rcases sound goes.1 goes.2.1 goes.2.2 with same | ⟨found, is⟩
      · refine ⟨fun changed => absurd same changed, fun found fits => ?_⟩
        rcases complete found fits with there | ⟨_, _, _, is⟩
        · exact same.trans there.symm
        · exact is
      · exact ⟨fun _ => ⟨found, is⟩, fun _ _ => is⟩
    · rw [if_neg goes]
      refine ⟨fun changed => absurd rfl changed, fun found fits => ?_⟩
      rcases complete found fits with there | ⟨equal, some_, room, _⟩
      · exact there.symm
      · exact absurd ⟨equal, some_, room⟩ goes

/-- `"foobar"` with `foo` selected. -/
def fooSelected : Document :=
  (fromString (.ofChars ['f', 'o', 'o', 'b', 'a', 'r']) false).setSelection (.one (.new 0 3))

theorem fooSelected_reached : fooSelected.Reached := .call (.setSelection _) (.load _ _)

/-- A literal query for what is selected. -/
theorem replaceMatch_foo :
    ReplacesMatch asciiWords fooSelected ⟨.ofChars ['f', 'o', 'o'], true, false,
      false⟩ (.ofChars ['x']) :=
  (replaceMatch_iff fooSelected_reached rfl _ _ _).mpr
    (agrees_of_selected fooSelected_reached.placed (by decide) (by decide))

/-- A whole-word query replaces the start of a longer word. -/
theorem replaceMatch_splits_word :
    fooSelected.Reached ∧ fooSelected.readOnly = false ∧
    scan asciiWords fooSelected.text ⟨.ofChars ['f', 'o', 'o'], true, true, false⟩ = [] ∧
    (fooSelected.replaceMatch asciiWords ⟨.ofChars ['f', 'o', 'o'], true, true, false⟩
      (.ofChars ['x'])).2.text.bytes = .ofChars ['x', 'b', 'a', 'r'] ∧
    ¬ReplacesMatch asciiWords fooSelected ⟨.ofChars ['f', 'o', 'o'], true, true,
      false⟩ (.ofChars ['x']) := by
  have none_ : scan asciiWords fooSelected.text ⟨.ofChars ['f', 'o', 'o'], true, true, false⟩ =
      [] := by decide
  refine ⟨fooSelected_reached, rfl, none_, by decide, ?_⟩
  rintro ⟨only, _⟩
  have found := (only (by decide)).1
  rw [none_] at found
  cases found

end Document

end ForgeNode.Editor
