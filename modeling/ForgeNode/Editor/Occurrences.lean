import ForgeNode.Lib.Greedy
import ForgeNode.Editor.Search

/-! Where the pattern of a literal query stands in a text, and which of these places the scan
yields. -/

namespace ForgeNode.Editor

open List Utf8 Greedy

/-- How a query compares two bytes. -/
def Query.same (query : Query) : UInt8 → UInt8 → Bool :=
  if query.caseSensitive then (· == ·) else eqIgnoreAsciiCase

/-- A pattern that is not empty stands at `offset`, on boundaries of the text. -/
def occursAt (text : Text) (query : Query) (offset : Nat) : Bool :=
  decide (0 < query.pattern.len) && text.isBoundary offset &&
    text.isBoundary (offset + query.pattern.len) &&
    startsWith query.same query.pattern.bytes (text.bytes.bytes.drop offset)

/-- Every place of the pattern, overlapping ones too. -/
def occurrences (text : Text) (query : Query) : List Range :=
  ((List.range (text.len + 1)).filter (occursAt text query)).map fun offset =>
    ⟨offset, offset + query.pattern.len, Nat.le_add_right _ _⟩

/-- The test that a whole-word query makes of a candidate. -/
def passes (engine : Engine) (text : Text) (query : Query) (range : Range) : Bool :=
  !(query.wholeWord && !isWordBounded engine text.bytes range.start range.stop)

section Bytes

theorem findBytes_some {same : UInt8 → UInt8 → Bool} {needle haystack : List UInt8} {offset : Nat}
    (found : findBytes same needle haystack = some offset) :
    startsWith same needle (haystack.drop offset) = true ∧ offset ≤ haystack.length ∧
      ∀ earlier < offset, startsWith same needle (haystack.drop earlier) = false := by
  induction haystack generalizing offset with
  | nil =>
    unfold findBytes at found
    split at found
    · rename_i empty
      rw [← Option.some.inj found, List.isEmpty_iff.mp empty]
      exact ⟨rfl, Nat.le_refl _, fun _ below => absurd below (Nat.not_lt_zero _)⟩
    · cases found
  | cons byte rest ih =>
    unfold findBytes at found
    split at found
    · rename_i here
      rw [← Option.some.inj found]
      exact ⟨here, Nat.zero_le _, fun _ below => absurd below (Nat.not_lt_zero _)⟩
    · rename_i elsewhere
      obtain ⟨later, behind, rfl⟩ := Option.map_eq_some_iff.mp found
      obtain ⟨there, inside, first⟩ := ih behind
      refine ⟨there, Nat.succ_le_succ inside, fun earlier below => ?_⟩
      cases earlier with
      | zero => simpa using elsewhere
      | succ earlier => exact first earlier (Nat.lt_of_succ_lt_succ below)

theorem findBytes_none {same : UInt8 → UInt8 → Bool} {needle haystack : List UInt8}
    (missing : findBytes same needle haystack = none) (offset : Nat)
    (inside : offset ≤ haystack.length) :
    startsWith same needle (haystack.drop offset) = false := by
  induction haystack generalizing offset with
  | nil =>
    unfold findBytes at missing
    split at missing
    · cases missing
    · rename_i some_
      rw [drop_nil]
      cases needle with
      | nil => exact absurd rfl some_
      | cons => rfl
  | cons byte rest ih =>
    unfold findBytes at missing
    split at missing
    · cases missing
    · rename_i elsewhere
      cases offset with
      | zero => simpa using elsewhere
      | succ offset =>
        exact ih (Option.map_eq_none_iff.mp missing) offset (Nat.le_of_succ_le_succ inside)

/-- Rounding up stops at the first boundary. -/
theorem ceilBoundary_spec {bytes : List UInt8} {fuel index : Nat} (inside : index ≤ bytes.length)
    (enough : bytes.length ≤ index + fuel) :
    index ≤ ceilBoundary bytes fuel index ∧ ceilBoundary bytes fuel index ≤ bytes.length ∧
      ∀ other, index ≤ other → isCharBoundary bytes other = true → ceilBoundary bytes fuel index ≤
        other := by
  induction fuel generalizing index with
  | zero =>
    exact ⟨Nat.le_refl _, inside, fun _ later _ => later⟩
  | succ fuel ih =>
    unfold ceilBoundary
    split
    · exact ⟨Nat.le_refl _, inside, fun _ later _ => later⟩
    · rename_i within
      have last : index ≠ bytes.length := by
        rintro rfl
        exact within (isCharBoundary_length bytes)
      obtain ⟨later, bound, first⟩ := @ih (index + 1) (by omega) (by omega)
      refine ⟨by omega, bound, fun other reaches boundary => first other ?_ boundary⟩
      have differ : other ≠ index := by
        rintro rfl
        exact within boundary
      omega

end Bytes

section Occurrences

variable {text : Text} {query : Query} {range : Range}

theorem mem_occurrences : range ∈ occurrences text query ↔
    occursAt text query range.start = true ∧ range.stop = range.start + query.pattern.len := by
  unfold occurrences
  rw [List.mem_map]
  constructor
  · rintro ⟨offset, member, rfl⟩
    exact ⟨(mem_filter.mp member).2, rfl⟩
  · rintro ⟨occurs, stop⟩
    have inside : range.start ≤ text.len := by
      simp only [occursAt, Text.isBoundary, Bool.and_eq_true, decide_eq_true_eq] at occurs
      exact occurs.1.1.2.1
    refine ⟨range.start, mem_filter.mpr ⟨mem_range.mpr (Nat.lt_succ_of_le inside), occurs⟩, ?_⟩
    ext
    · rfl
    · exact stop.symm

theorem occursAt_iff {offset : Nat} : occursAt text query offset = true ↔
    0 < query.pattern.len ∧ text.bytes.IsBoundary offset ∧
      text.bytes.IsBoundary (offset + query.pattern.len) ∧
      startsWith query.same query.pattern.bytes (text.bytes.bytes.drop offset) = true := by
  simp only [occursAt, Text.isBoundary, Bool.and_eq_true, decide_eq_true_eq, and_assoc]

theorem occurrences_boundaries (member : range ∈ occurrences text query) :
    text.bytes.IsBoundary range.start ∧ text.bytes.IsBoundary range.stop := by
  obtain ⟨occurs, stop⟩ := mem_occurrences.mp member
  obtain ⟨_, first, last, _⟩ := occursAt_iff.mp occurs
  rw [stop]
  exact ⟨first, last⟩

theorem occurrences_spans (text : Text) (query : Query) :
    Spans Range.start Range.stop (occurrences text query) := by
  refine ⟨fun range member => ?_, ?_⟩
  · obtain ⟨occurs, stop⟩ := mem_occurrences.mp member
    rw [stop]
    exact Nat.lt_add_of_pos_right (occursAt_iff.mp occurs).1
  · exact pairwise_map.mpr (pairwise_lt_range.sublist filter_sublist)

private theorem occurrences_none {position : Nat}
    (missing : findBytes query.same query.pattern.bytes (text.bytes.bytes.drop position) = none) :
    ∀ range ∈ occurrences text query, ¬ position ≤ range.start := by
  intro range member reaches
  obtain ⟨_, first, _, stands⟩ := occursAt_iff.mp (mem_occurrences.mp member).1
  have absent := findBytes_none missing (range.start - position) (by
    have inside := first.1
    rw [List.length_drop, Str.length_bytes]
    omega)
  rw [drop_drop, Nat.add_sub_cancel' reaches, stands] at absent
  cases absent

private theorem occurrences_after {position offset : Nat}
    (found : findBytes query.same query.pattern.bytes (text.bytes.bytes.drop position) =
      some offset)
    (member : range ∈ occurrences text query) (reaches : position ≤ range.start) :
    position + offset ≤ range.start := by
  by_contra before
  obtain ⟨_, _, _, stands⟩ := occursAt_iff.mp (mem_occurrences.mp member).1
  have absent := (findBytes_some found).2.2 (range.start - position) (by omega)
  rw [drop_drop, Nat.add_sub_cancel' reaches, stands] at absent
  cases absent

/-- The scan visits the leftmost selection of all occurrences and yields those that pass. -/
theorem scanLiteralFrom_eq (engine : Engine) (some_ : 0 < query.pattern.len) {fuel position : Nat}
    (enough : text.len < fuel + position) (inside : position ≤ text.len) :
    scanLiteralFrom engine text query fuel position =
      (select Range.start Range.stop position (occurrences text query)).filter
        (passes engine text query) := by
  induction fuel generalizing position with
  | zero => omega
  | succ fuel ih =>
    rw [scanLiteralFrom, ← Query.same]
    dsimp only
    split
    · rename_i missing
      rw [select_eq_nil (occurrences_none missing), filter_nil]
    · rename_i offset found
      obtain ⟨stands, bound, _⟩ := findBytes_some found
      rw [drop_drop] at stands
      rw [List.length_drop, Str.length_bytes] at bound
      have within : position + offset < text.len := by
        by_contra beyond
        have empty : text.bytes.bytes.drop (position + offset) = [] :=
          drop_eq_nil_of_le (Nat.le_of_not_lt beyond)
        rw [empty] at stands
        cases bytes : query.pattern.bytes with
        | nil =>
          rw [Str.len, bytes] at some_
          exact absurd some_ (Nat.lt_irrefl 0)
        | cons => simp [bytes, startsWith] at stands
      split
      · rename_i split_
        obtain ⟨later, last, first⟩ := @ceilBoundary_spec text.bytes.bytes text.len
          (position + offset + 1) within (Nat.le_add_left _ _)
        rw [ih (by omega) last]
        refine congrArg _ (select_congr (by omega) fun range member reaches => ?_).symm
        have reached := occurrences_after found member reaches
        obtain ⟨occurs, _⟩ := mem_occurrences.mp member
        obtain ⟨_, start, stop, _⟩ := occursAt_iff.mp occurs
        have differ : range.start ≠ position + offset := by
          intro same
          rw [same] at start stop
          simp [Text.isBoundary, start, stop] at split_
        exact first range.start (by omega) start.2
      · rename_i whole
        simp only [Text.isBoundary, Bool.or_eq_true, Bool.not_eq_true', decide_eq_false_iff_not,
          not_or, not_not] at whole
        have order : position + offset ≤ position + offset + query.pattern.len := Nat.le_add_right _ _
        have member : (⟨_, _, order⟩ : Range) ∈ occurrences text query :=
          mem_occurrences.mpr ⟨occursAt_iff.mpr ⟨some_, whole.1, whole.2, stands⟩, rfl⟩
        have next : max (position + offset + query.pattern.len) (position + offset + 1) =
            position + offset + query.pattern.len := Nat.max_eq_left (by omega)
        rw [select_first (occurrences_spans text query) member (Nat.le_add_right _ _)
          fun other there reaches => occurrences_after found there reaches]
        simp only [next, Range.new_of_le order, filter_cons, passes]
        rw [ih (by omega) whole.2.1]
        by_cases rejected : (query.wholeWord && !isWordBounded engine text.bytes (position + offset)
            (position + offset + query.pattern.len)) = true
        · simp only [rejected, if_true, Bool.not_true, Bool.false_eq_true, if_false]
        · simp only [rejected, if_false, Bool.false_eq_true, Bool.not_false, if_true]

/-- The ranges of a literal scan. -/
theorem scanLiteral_eq (engine : Engine) (text : Text) (query : Query) {start : Nat}
    (inside : start ≤ text.len) :
    scanLiteral engine text query start =
      (select Range.start Range.stop start (occurrences text query)).filter
      (passes engine text query) := by
  unfold scanLiteral
  split
  · rename_i empty
    have none_ : occurrences text query = [] := eq_nil_iff_forall_not_mem.mpr fun range member => by
      have some_ := (occursAt_iff.mp (mem_occurrences.mp member).1).1
      omega
    rw [none_]
    rfl
  · rename_i some_
    rw [Nat.min_eq_left inside]
    exact scanLiteralFrom_eq engine (Nat.pos_of_ne_zero some_) (by omega) inside

end Occurrences

section WholeWord

/-- A whole-word scan as it is meant: the leftmost selection of the word-bounded occurrences. -/
structure WholeWords (engine : Engine) (text : Text) (query : Query) (start : Nat)
    (ranges : List Range) : Prop where
  disjoint : ranges.Pairwise fun first second => first.stop ≤ second.start
  boundaries : ∀ range ∈ ranges, text.bytes.IsBoundary range.start ∧ text.bytes.IsBoundary range.stop
  bounded : ∀ range ∈ ranges, range ∈ occurrences text query ∧
    isWordBounded engine text.bytes range.start range.stop = true
  complete : ∀ range ∈ occurrences text query, start ≤ range.start →
    isWordBounded engine text.bytes range.start range.stop = true →
    ∃ other ∈ ranges, range.start < other.stop ∧ other.start < range.stop
  leftmost : ranges = select Range.start Range.stop start
    ((occurrences text query).filter fun range =>
      isWordBounded engine text.bytes range.start range.stop)

/-- The leftmost selection of the word-bounded occurrences is all that a whole-word scan is to
be. -/
theorem wholeWords_select (engine : Engine) (text : Text) (query : Query) (start : Nat) :
    WholeWords engine text query start (select Range.start Range.stop start
      ((occurrences text query).filter fun range =>
        isWordBounded engine text.bytes range.start range.stop)) := by
  have spans := (occurrences_spans text query).sublist
    (filter_sublist (p := fun range => isWordBounded engine text.bytes range.start range.stop))
  have kept := select_leftmost start spans
  refine ⟨kept.disjoint, fun range member => ?_, fun range member =>
    ?_, fun range member reaches bounded => ?_, rfl⟩
  · exact occurrences_boundaries (mem_filter.mp (kept.sub.subset member)).1
  · exact mem_filter.mp (kept.sub.subset member)
  · have there : range ∈ (occurrences text query).filter fun range =>
        isWordBounded engine text.bytes range.start range.stop := mem_filter.mpr ⟨member, bounded⟩
    obtain ⟨other, chosen, before, covers⟩ := kept.covered range there reaches
    exact ⟨other, chosen, covers, Nat.lt_of_le_of_lt before (spans.proper range there)⟩

/-- A whole-word scan is the leftmost selection of the word-bounded occurrences exactly where none
of them starts inside an occurrence that the selection of all occurrences takes and that is not
word-bounded. -/
theorem scanLiteral_wholeWords_iff (engine : Engine) (text : Text) (query : Query) (start : Nat)
    (whole : query.wholeWord = true) (inside : start ≤ text.len) :
    WholeWords engine text query start (scanLiteral engine text query start) ↔
      ∀ rejected ∈ select Range.start Range.stop start (occurrences text query),
        isWordBounded engine text.bytes rejected.start rejected.stop = false →
        ∀ range ∈ occurrences text query,
          isWordBounded engine text.bytes range.start range.stop = true →
          ¬ (rejected.start < range.start ∧ range.start < rejected.stop) := by
  have test : passes engine text query = fun range =>
      isWordBounded engine text.bytes range.start range.stop := by
    funext range
    simp only [passes, whole, Bool.true_and, Bool.not_not]
  rw [scanLiteral_eq engine text query inside, test,
    ← filter_select_iff _ start (occurrences_spans text query)]
  constructor
  · exact fun words => words.leftmost
  · intro same
    rw [same]
    exact wholeWords_select engine text query start

/-- Words of ASCII letters and digits, and no expression that compiles. -/
def asciiWords : Engine := ⟨Char.isAlphanum, fun _ _ => []⟩

private def wholeWord (pattern : List Char) : Query := ⟨.ofChars pattern, true, true, false⟩

/-- A word beside a longer one that begins with it. -/
theorem scanLiteral_wholeWords_iff_cat : WholeWords asciiWords
    (.new (.ofChars ['c', 'a', 't', 's', ' ', 'c', 'a', 't'])) (wholeWord ['c', 'a', 't']) 0
    (scanLiteral asciiWords (.new (.ofChars ['c', 'a', 't', 's', ' ', 'c', 'a', 't']))
      (wholeWord ['c', 'a', 't']) 0) :=
  (scanLiteral_wholeWords_iff _ _ _ 0 rfl (Nat.zero_le _)).mpr (by decide +kernel)

/-- The scan of `xa a a` for the whole words `a a` drops the candidate after the `x` and goes on
behind it, past the one that stands alone. -/
theorem scanLiteral_not_wholeWords : ¬ WholeWords asciiWords
    (.new (.ofChars ['x', 'a', ' ', 'a', ' ', 'a'])) (wholeWord ['a', ' ', 'a']) 0
    (scanLiteral asciiWords (.new (.ofChars ['x', 'a', ' ', 'a', ' ', 'a']))
      (wholeWord ['a', ' ', 'a']) 0) := by
  intro words
  obtain ⟨other, member, _⟩ := words.complete ⟨3, 6, by decide⟩ (by decide +kernel) (by decide)
    (by decide +kernel)
  have none_ : scanLiteral asciiWords (.new (.ofChars ['x', 'a', ' ', 'a', ' ', 'a']))
      (wholeWord ['a', ' ', 'a']) 0 = [] := by decide +kernel
  rw [none_] at member
  cases member

end WholeWord

end ForgeNode.Editor
