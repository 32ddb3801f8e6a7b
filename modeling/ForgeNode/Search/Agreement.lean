import ForgeNode.Search.Reading

/-! Both searches over all files: where they agree, and what the limit does to the last hit. -/

namespace ForgeNode.Content

open List
open Marks (Text)

variable {index : Nat} {line : Text} {state : Parse}

section Cut

/-- What the next hit takes from the last one that is kept: it is near in the same file, or its path
is read as the last hit's, whose file has ended, and brings the line it waits for. -/
def CutShort (last next : SearchMatch) : Prop :=
  next.path = last.path ∧ next.line ≤ last.line + searchContextLines ∨
    next.path ≠ last.path ∧ stripMarks next.path = last.path ∧ last.after.length <
      searchContextLines ∧ last.line + last.after.length + 1 < next.line ∧
      next.line ≤ last.line + last.after.length + 1 + searchContextLines

/-- The last hit that is kept is cut short by the first that is not. -/
def Owed (limit : Nat) (hits : List SearchMatch) : Prop :=
  ∃ kept last next, limit = kept + 1 ∧ hits[kept]? = some last ∧ hits[kept + 1]? = some next ∧
    CutShort last next

theorem owed_iff {front rest : List SearchMatch} {last next : SearchMatch} {limit : Nat}
    (size : limit = front.length + 1) :
    Owed limit (front ++ last :: next :: rest) ↔ CutShort last next := by
  constructor
  · rintro ⟨kept, last', next', same, lastAt, nextAt, cut⟩
    obtain rfl : kept = front.length := by omega
    simp at lastAt nextAt
    exact lastAt ▸ nextAt ▸ cut
  · intro cut
    exact ⟨front.length, last, next, size, by simp, by simp, cut⟩

end Cut

section File

variable {path : Text} {lines : List Text} {foldedQuery : Text} {limit : Nat} {shown : Nat → Bool}
  {earlier : List SearchMatch}

/-- A line that is shown has a hit near. -/
def Nearby (lines : List Text) (foldedQuery : Text) (shown : Nat → Bool) : Prop :=
  ∀ other, shown other = true → ∃ index line, lines[index]? = some line ∧ isHit foldedQuery line =
    true ∧ other ≤ index + searchContextLines ∧ index ≤ other + searchContextLines

/-- Where a file stops the reading, the last hit has its context unless the next one comes too
soon. -/
theorem stopped_iff (nearby : Nearby lines foldedQuery shown) {upTo : Nat}
    {more found : List SearchMatch} (there : lines[upTo]? = some line) (visible : shown upTo = true)
    (short : earlier.length < limit)
    (found_ : found = earlier ++ gatheredFrom path lines foldedQuery upTo 0 (lines.take upTo))
    (room : found.length ≤ limit) (stops : past limit path (upTo + 1) (isHit foldedQuery line)
      found = true) : found = (earlier ++
        (gatheredFrom path lines foldedQuery lines.length 0 lines ++ more)).take limit ↔
      ¬ Owed limit (earlier ++ (gatheredFrom path lines foldedQuery lines.length 0 lines ++
        more)) := by
  have inside := (List.getElem?_eq_some_iff.mp there).1
  have some_ : gatheredFrom path lines foldedQuery upTo 0 (lines.take upTo) ≠ [] := by
    intro none_
    rw [none_, append_nil] at found_
    rw [past] at stops
    cases last : found.getLast? with
    | none => rw [last] at stops; cases stops
    | some last' =>
      rw [last] at stops
      simp only [Bool.and_eq_true, decide_eq_true_eq] at stops
      rw [← found_] at short
      omega
  obtain ⟨above, text, before, textAt, textHit, last, parts⟩ := gathered_last (Nat.le_of_lt inside)
    some_
  have foundParts : found = earlier ++ gatheredFrom path lines foldedQuery upTo 0
      (lines.take above) ++ [gathered path lines upTo above text] := by
        rw [found_, parts, append_assoc]
  rw [past, foundParts, getLast?_concat, ← foundParts] at stops
  simp only [Bool.and_eq_true, decide_eq_true_eq, Bool.not_eq_true', Bool.and_eq_false_iff,
    decide_eq_false_iff_not] at stops
  obtain ⟨full, why⟩ := stops
  -- the line that stops the reading is a hit, or too far below the last one
  have reason : isHit foldedQuery line = true ∨ above + searchContextLines < upTo := by
    rcases why with (hit | other) | far
    · exact .inl (by simpa using hit)
    · exact absurd rfl other
    · simp only [gathered] at far
      exact .inr (by omega)
  have below : ∃ index text, lines[index]? = some text ∧ isHit foldedQuery text = true ∧
      upTo ≤ index := by
    rcases reason with hit | far
    · exact ⟨upTo, line, there, hit, Nat.le_refl _⟩
    · obtain ⟨index, text', at_, hit, near, _⟩ := nearby upTo visible
      refine ⟨index, text', at_, hit, ?_⟩
      apply Nat.le_of_not_lt
      intro over_
      have := last index text' at_ hit over_
      omega
  obtain ⟨index, text', at_, hit, from_⟩ := below
  obtain ⟨first, firstText, after, _, firstAt, firstHit, least, rest⟩ :=
    gathered_first path lines.length at_ hit from_
  have whole : gatheredFrom path lines foldedQuery lines.length 0 lines =
      gatheredFrom path lines foldedQuery lines.length 0 (lines.take above) ++
        gathered path lines lines.length above text :: gathered path lines lines.length
        first firstText ::
          gatheredFrom path lines foldedQuery lines.length (first + 1) (lines.drop (first + 1)) := by
    have split := gatheredFrom_append path lines foldedQuery lines.length 0
      (lines.take upTo) (lines.drop upTo)
    rw [take_append_drop, length_take_of_le (Nat.le_of_lt inside), Nat.zero_add, rest, parts] at split
    rw [split, append_assoc]
    rfl
  have size : limit =
      (earlier ++ gatheredFrom path lines foldedQuery lines.length 0 (lines.take above)).length +
      1 := by
    have length := congrArg List.length foundParts
    rw [length_append, length_append, length_singleton,
      gatheredFrom_length upTo lines.length] at length
    rw [length_append]
    omega
  have all : earlier ++ (gatheredFrom path lines foldedQuery lines.length 0 lines ++ more) =
      (earlier ++ gatheredFrom path lines foldedQuery lines.length 0 (lines.take above)) ++
        gathered path lines lines.length above text :: gathered path lines lines.length
        first firstText ::
          (gatheredFrom path lines foldedQuery lines.length (first + 1) (lines.drop (first + 1)) ++
            more) := by
    rw [whole]
    simp
  have kept : (earlier ++ (gatheredFrom path lines foldedQuery lines.length 0 lines ++ more)).take
      limit = (earlier ++ gatheredFrom path lines foldedQuery lines.length 0 (lines.take above)) ++
        [gathered path lines lines.length above text] := by
    rw [all, size, take_append, take_of_length_le (Nat.le_succ _), Nat.add_sub_cancel_left]
    rfl
  rw [kept, all, owed_iff size, foundParts]
  rcases Nat.lt_or_ge (above + searchContextLines) upTo with far | near
  · -- the last hit has its context
    have settled : gatheredFrom path lines foldedQuery upTo 0 (lines.take above) =
        gatheredFrom path lines foldedQuery lines.length 0 (lines.take above) := by
      apply gatheredFrom_settled (Nat.le_of_lt inside)
      intro k _ at_ _
      have := (List.getElem?_eq_some_iff.mp at_).1
      rw [length_take] at this
      omega
    rw [settled, gathered_settled far (Nat.le_of_lt inside)]
    refine iff_of_true rfl ?_
    rintro (⟨_, close⟩ | ⟨other, _⟩)
    · simp only [gathered] at close
      omega
    · exact other rfl
  · -- it waits for this line, which is a hit
    have hit_ : isHit foldedQuery line = true := by
      rcases reason with hit | far
      · exact hit
      · omega
    have here : first ≤ upTo := least upTo line there hit_ (Nat.le_refl _)
    refine iff_of_false ?_ (not_not_intro (.inl ⟨rfl, ?_⟩))
    · intro same
      have ends := (append_inj' same rfl).2
      simp only [List.cons.injEq, and_true] at ends
      have lengths := congrArg (List.length ∘ SearchMatch.after) ends
      simp only [gathered, Function.comp, length_map, length_take, List.length_drop] at lengths
      have three : searchContextLines = 3 := rfl
      omega
    · simp only [gathered]
      omega

/-- Records that add to no hit leave a full list as it is. -/
theorem run_idle (foldedQuery : Text) (records : List Record) (full : limit ≤ state.found.length)
    (idle : ∀ record ∈ records,
      extend record.1 record.2.1 record.2.2 state.found.reverse = state.found.reverse) :
    ∃ next stop, runRecords foldedQuery limit state records = (next, stop) ∧
    next.found = state.found ∧
      ((∀ record ∈ records,
        past limit record.1 record.2.1 (isHit foldedQuery record.2.2) state.found = false) →
        stop = false) := by
  induction records generalizing state with
  | nil => exact ⟨state, false, rfl, rfl, fun _ => rfl⟩
  | cons record records ih =>
    obtain ⟨path, line, text⟩ := record
    rw [runRecords]
    cases stops : past limit path line (isHit foldedQuery text) state.found with
    | true =>
      obtain ⟨next, step, same⟩ := record_past stops
      rw [step]
      refine ⟨next, true, rfl, same, fun on => ?_⟩
      have := on _ mem_cons_self
      rw [stops] at this
      cases this
    | false =>
      obtain ⟨next, step, _, _, found⟩ := record_on stops
      rw [if_neg fun both => absurd full (Nat.not_le.mpr both.2), idle _ mem_cons_self,
        reverse_reverse] at found
      obtain ⟨last, stop, run, same, on⟩ := @ih next (found.symm ▸ full) fun record member =>
        found.symm ▸ idle record (mem_cons_of_mem _ member)
      rw [step]
      refine ⟨last, stop, run, same.trans found, fun all => on fun record member => ?_⟩
      rw [found]
      exact all record (mem_cons_of_mem _ member)

/-- What the last hit has of its context is not taken from it again. -/
theorem run_full (foldedQuery : Text) (records : List Record) {size : Nat}
    (full : limit ≤ state.found.length) (last : ∃ hit, state.found.getLast? = some hit ∧ size ≤
      hit.after.length) :
    ∃ hit, (runRecords foldedQuery limit state records).1.found.getLast? = some hit ∧
      size ≤ hit.after.length := by
  induction records generalizing state with
  | nil => exact last
  | cons record records ih =>
    obtain ⟨path, line, text⟩ := record
    rw [runRecords]
    cases stops : past limit path line (isHit foldedQuery text) state.found with
    | true =>
      obtain ⟨next, step, same⟩ := record_past stops
      rw [step]
      exact same ▸ last
    | false =>
      obtain ⟨next, step, _, _, found⟩ := record_on stops
      rw [if_neg fun both => absurd full (Nat.not_le.mpr both.2)] at found
      rw [step]
      apply ih
      · rw [found, length_reverse, extend_length, length_reverse]
        exact full
      · obtain ⟨hit, ends, long⟩ := last
        obtain ⟨front, eq_⟩ := getLast?_eq_some_iff.mp ends
        rw [found, getLast?_reverse, eq_, reverse_append, reverse_singleton, singleton_append,
          extend_cons]
        split
        · exact ⟨hit, rfl, long⟩
        · split
          · exact ⟨hit, rfl, long⟩
          · refine ⟨_, rfl, ?_⟩
            split
            · rw [length_append]
              omega
            · exact long

/-- Hits whose context ends early end with their file. -/
def Sealed (hits : List SearchMatch) : Prop :=
  ∀ hit ∈ hits, ∀ other ∈ hits, hit.path = other.path → hit.after.length < searchContextLines →
    other.after.length < searchContextLines → hit.line + hit.after.length = other.line +
      other.after.length

theorem mem_recordsFrom {rest : List Text} {record : Record}
    (member : record ∈ recordsFrom shown path index rest) :
    ∃ k text, rest[k]? = some text ∧ shown (index + k) = true ∧
    record = (path, index + k + 1, text) := by
  induction rest generalizing index with
  | nil => exact absurd member not_mem_nil
  | cons text rest ih =>
    have later : record ∈ recordsFrom shown path (index + 1) rest →
        ∃ k text', (text :: rest)[k]? = some text' ∧ shown (index + k) = true ∧
          record = (path, index + k + 1, text') := by
      intro behind
      obtain ⟨k, text', there, visible, eq_⟩ := ih behind
      refine ⟨k + 1, text', there, ?_, ?_⟩
      · rw [← visible]
        congr 1
        omega
      · rw [eq_]
        congr 2
        omega
    rw [recordsFrom] at member
    split at member
    case isFalse => exact later member
    case isTrue visible =>
      rcases mem_cons.mp member with rfl | behind
      · exact ⟨0, text, rfl, visible, rfl⟩
      · exact later behind

theorem recordsFrom_split (there : lines[index]? = some line) (visible : shown index = true) :
    recordsFrom shown path 0 lines = recordsFrom shown path 0 (lines.take index) ++
      (path, index + 1, line) :: recordsFrom shown path (index + 1) (lines.drop (index + 1)) := by
  obtain ⟨inside, rfl⟩ := List.getElem?_eq_some_iff.mp there
  have split := recordsFrom_append shown path 0 (lines.take index) (lines.drop index)
  rw [take_append_drop, length_take_of_le (Nat.le_of_lt inside), Nat.zero_add,
    drop_eq_getElem_cons inside, recordsFrom, if_pos visible] at split
  exact split

theorem mem_take_records {count : Nat} {record : Record}
    (member : record ∈ recordsFrom shown path 0 (lines.take count)) :
    ∃ k text, k < count ∧ lines[k]? = some text ∧ shown k = true ∧
    record = (path, k + 1, text) := by
  obtain ⟨k, text, there, visible, eq_⟩ := mem_recordsFrom member
  rw [getElem?_take] at there
  split at there
  case isFalse => cases there
  case isTrue before =>
    rw [Nat.zero_add] at visible eq_
    exact ⟨k, text, before, there, visible, eq_⟩

/-- Behind the last hit that is kept, records of the next file with hits add nothing to it unless
their path is read as its own. -/
theorem spilled_iff (around : Around lines foldedQuery shown)
    (nearby : Nearby lines foldedQuery shown) {front : List SearchMatch} {last : SearchMatch}
    {more : List Record} {rest : List SearchMatch} (there : lines[index]? = some line)
    (hit : isHit foldedQuery line = true) (found : state.found = front ++ [last])
    (size : limit = front.length + 1) (sealed_ : Sealed state.found) (other : path ≠ last.path) :
    (runRecords foldedQuery limit state (recordsFrom shown (stripMarks path) 0 lines ++
      more)).1.found = state.found ↔
      ¬ Owed limit (state.found ++ (gatheredFrom path lines foldedQuery lines.length 0 lines ++
        rest)) := by
  obtain ⟨first, text, _, _, at_, firstHit, least, head⟩ :=
    gathered_first path lines.length there hit (Nat.zero_le _)
  have full : limit ≤ state.found.length := by
    rw [found, length_append, size]
    exact Nat.le_refl _
  have reversed : state.found.reverse = last :: front.reverse := by
    rw [found, reverse_append]
    rfl
  have last_ : last ∈ state.found := by rw [found]; exact mem_append_right _ mem_cons_self
  -- records above the line the last hit waits for, and those below it, are idle
  have idle : ∀ k text, k + 1 ≠ last.line + last.after.length + 1 ∨ searchContextLines ≤
      last.after.length ∨ stripMarks path ≠ last.path →
      extend (stripMarks path) (k + 1) text state.found.reverse = state.found.reverse := by
    intro k text why
    by_cases same : last.path = stripMarks path
    case neg => rw [reversed, extend_cons, if_pos (.inl same)]
    case pos =>
      rcases Nat.lt_or_ge last.after.length searchContextLines with waits | done
      case inr =>
        rw [reversed, extend_cons]
        split
        · rfl
        · rfl
      case inl =>
        apply extend_idle
        intro earlier member path_ short due
        have ends := sealed_ earlier (mem_reverse.mp member) last last_ (path_.trans same.symm)
          short waits
        rcases why with apart | done | other
        · omega
        · omega
        · exact other same.symm
  have cut : CutShort last (gathered path lines lines.length first text) ↔
      stripMarks path = last.path ∧ last.after.length < searchContextLines ∧
        last.line + last.after.length + 1 < first + 1 ∧
        first + 1 ≤ last.line + last.after.length + 1 + searchContextLines :=
    ⟨fun either => either.elim (fun same => absurd same.1 other) And.right, fun both =>
    .inr ⟨other, both⟩⟩
  rw [drop_zero] at head
  have whole : state.found ++ (gatheredFrom path lines foldedQuery lines.length 0 lines ++ rest) =
      front ++ last :: gathered path lines lines.length first text ::
        (gatheredFrom path lines foldedQuery lines.length (first + 1) (lines.drop (first + 1)) ++
          rest) := by
    rw [head, found]
    simp
  rw [whole, owed_iff size, cut]
  constructor
  · -- the line it waits for is read
    rintro same ⟨asOwn, waits, below, near⟩
    have inside := (List.getElem?_eq_some_iff.mp at_).1
    have short : last.line + last.after.length < lines.length := by omega
    obtain ⟨text', due⟩ : ∃ text', lines[last.line + last.after.length]? = some text' :=
      ⟨_, getElem?_eq_getElem short⟩
    have visible : shown (last.line + last.after.length) = true :=
      around first text at_ firstHit _ (by omega) (by omega)
    have plain : ∀ k text, lines[k]? = some text → k < first → isHit foldedQuery text = false := by
      intro k text there above
      rw [Bool.eq_false_iff]
      intro hit
      exact absurd (least k text there hit (Nat.zero_le _)) (Nat.not_le.mpr above)
    have on : ∀ k text, lines[k]? = some text → k ≤ last.line + last.after.length →
        past limit (stripMarks path) (k + 1) (isHit foldedQuery text) state.found = false := by
      intro k text there above
      rw [past, found, getLast?_concat, plain k text there (by omega)]
      simp only [Bool.not_false, Bool.true_and, Bool.and_eq_false_iff, Bool.not_eq_false',
        Bool.and_eq_true, decide_eq_true_eq]
      exact .inr ⟨asOwn.symm, by omega⟩
    obtain ⟨next, stop, run, kept, onward⟩ := run_idle foldedQuery
      (recordsFrom shown (stripMarks path) 0 (lines.take (last.line + last.after.length))) full (by
        intro record member
        obtain ⟨k, text, above, _, _, rfl⟩ := mem_take_records member
        exact idle k text (.inl (by omega)))
    have through := onward (by
      intro record member
      obtain ⟨k, text, above, there, _, rfl⟩ := mem_take_records member
      exact on k text there (Nat.le_of_lt above))
    obtain ⟨after, step, _, _, found'⟩ := record_on (kept.symm ▸ on _ _ due (Nat.le_refl _))
    rw [if_neg fun both => absurd full (Nat.not_le.mpr (kept ▸ both.2)), kept, reversed, extend_cons,
      if_neg (by
        rintro (other | late)
        · exact other asOwn.symm
        · omega), if_neg (Nat.not_le.mpr waits), if_pos rfl] at found'
    have still : limit ≤ after.found.length := by
      have length := congrArg List.length found'
      rw [length_reverse, length_cons, extend_length, length_reverse] at length
      omega
    have longer : ∃ hit, after.found.getLast? = some hit ∧ last.after.length + 1 ≤
        hit.after.length := by
      refine ⟨_, by rw [found', getLast?_reverse]; rfl, ?_⟩
      simp
    subst through
    rw [recordsFrom_split due visible, append_assoc, runRecords_append, run] at same
    simp only [cons_append, runRecords, step] at same
    obtain ⟨grown, ends, more_⟩ := run_full foldedQuery
      (recordsFrom shown (stripMarks path) (last.line + last.after.length + 1)
        (lines.drop (last.line + last.after.length + 1)) ++ more) still longer
    rw [same, found, getLast?_concat] at ends
    cases ends
    omega
  · intro safe
    have visible : shown first = true := around first text at_ firstHit first (by omega) (by omega)
    obtain ⟨next, stop, run, kept, _⟩ := run_idle foldedQuery
      (recordsFrom shown (stripMarks path) 0 (lines.take first)) full (by
        intro record member
        obtain ⟨k, text', above, _, seen, rfl⟩ := mem_take_records member
        apply idle
        obtain ⟨index', line', there', hit', near, _⟩ := nearby k seen
        have bound := least index' line' there' hit' (Nat.zero_le _)
        by_cases due : k + 1 = last.line + last.after.length + 1
        case neg => exact .inl due
        case pos =>
          rcases Nat.lt_or_ge last.after.length searchContextLines with waits | done
          · refine .inr (.inr fun asOwn => safe ⟨asOwn, waits, by omega, by omega⟩)
          · exact .inr (.inl done))
    rw [recordsFrom_split at_ visible, append_assoc, runRecords_append, run]
    cases stop with
    | true => exact kept
    | false =>
      have stops : past limit (stripMarks path) (first + 1) (isHit foldedQuery text) next.found =
          true := by
        rw [firstHit]
        exact past_hit (by omega) (kept.symm ▸ full)
      obtain ⟨after, step, same⟩ := record_past stops
      simp only [cons_append, runRecords, step]
      exact same.trans kept

theorem mem_gatheredFrom {read index : Nat} {rest : List Text} {hit : SearchMatch}
    (member : hit ∈ gatheredFrom path lines foldedQuery read index rest) :
    ∃ k text, rest[k]? = some text ∧ isHit foldedQuery text = true ∧
      hit = gathered path lines read (index + k) text := by
  induction rest generalizing index with
  | nil => exact absurd member not_mem_nil
  | cons text rest ih =>
    have later : hit ∈ gatheredFrom path lines foldedQuery read (index + 1) rest →
        ∃ k text', (text :: rest)[k]? = some text' ∧ isHit foldedQuery text' = true ∧
          hit = gathered path lines read (index + k) text' := by
      intro behind
      obtain ⟨k, text', there, found, eq_⟩ := ih behind
      exact ⟨k + 1, text', there, found, by rw [eq_, Nat.add_right_comm, Nat.add_assoc]⟩
    rw [gatheredFrom] at member
    split at member
    case isFalse => exact later member
    case isTrue found =>
      rcases mem_cons.mp member with rfl | behind
      · exact ⟨0, text, rfl, found, rfl⟩
      · exact later behind

theorem Sealed.append (sealed_ : Sealed earlier) (others : ∀ hit ∈ earlier, hit.path ≠ path) :
    Sealed (earlier ++ gatheredFrom path lines foldedQuery lines.length 0 lines) := by
  have ends : ∀ hit ∈ gatheredFrom path lines foldedQuery lines.length 0 lines,
      hit.path = path ∧ (hit.after.length < searchContextLines → hit.line + hit.after.length =
        lines.length) := by
    intro hit member
    obtain ⟨k, text, there, _, rfl⟩ := mem_gatheredFrom member
    have inside := (List.getElem?_eq_some_iff.mp there).1
    refine ⟨rfl, ?_⟩
    simp only [gathered, length_map, length_take, List.length_drop]
    omega
  intro hit member other member' same short short'
  rcases mem_append.mp member with old | new <;> rcases mem_append.mp member' with old' | new'
  · exact sealed_ hit old other old' same short short'
  · exact absurd (same.trans (ends other new').1) (others hit old)
  · exact absurd (same.symm.trans (ends hit new).1) (others other old')
  · rw [(ends hit new).2 short, (ends other new').2 short']

end File

section Files

variable {query : Text} {limit : Nat}

/-- No group mark at the start. -/
def Clean (path : Text) : Prop := ¬ ['-', '-', '\n'] <+: path

theorem stripMarks_of_clean {path : Text} (clean : Clean path) : stripMarks path = path := by
  fun_cases stripMarks path with
  | case1 rest => exact absurd ⟨rest, rfl⟩ clean
  | case2 => rfl

theorem clean_stripMarks (path : Text) : Clean (stripMarks path) := by
  fun_induction stripMarks path with
  | case1 rest ih => exact ih
  | case2 path other =>
    rintro ⟨back, rfl⟩
    exact other back rfl

theorem unmarked_recordsFrom (shown : Nat → Bool) (path : Text) (index : Nat) (rest : List Text) :
    (recordsFrom shown path index rest).map unmarked = recordsFrom shown (stripMarks path)
    index rest := by
  induction rest generalizing index with
  | nil => rfl
  | cons text rest ih =>
    rw [recordsFrom, recordsFrom]
    split
    · rw [map_cons, ih]
      rfl
    · exact ih _

theorem shownAt_iff (one : '\n' ∉ query) (lines : List Text) (other : Nat) :
    shownAt query lines other = true ↔ ∃ index line, lines[index]? = some line ∧
      isHit (toAsciiLowercase query) line = true ∧ other ≤ index + searchContextLines ∧
        index ≤ other + searchContextLines := by
  rw [shownAt, any_eq_true]
  constructor
  · rintro ⟨⟨line, index⟩, member, near⟩
    simp only [Bool.and_eq_true, decide_eq_true_eq, selects_eq one] at near
    exact ⟨index, line, mk_mem_zipIdx_iff_getElem?.mp member, near.1, near.2⟩
  · rintro ⟨index, line, there, hit, near⟩
    refine ⟨(line, index), mk_mem_zipIdx_iff_getElem?.mpr there, ?_⟩
    simp only [Bool.and_eq_true, decide_eq_true_eq, selects_eq one]
    exact ⟨hit, near⟩

theorem run_files (one : '\n' ∉ query) (some_ : 0 < limit) {files : List TextFile} (state : Parse)
    (distinct : (files.map TextFile.path).Nodup) (room : state.found.length ≤ limit)
    (others : ∀ hit ∈ state.found, ∀ file ∈ files, hit.path ≠ file.path)
    (fresh : ∀ file ∈ files, state.recentPath = file.path → state.recent = [])
    (sealed_ : Sealed state.found)
    (clean : ∀ hit ∈ (state.found ++ files.flatMap (TextFile.hits (toAsciiLowercase query))).take
      limit,
      Clean hit.path) :
    (runRecords (toAsciiLowercase query)
      limit state ((files.flatMap (TextFile.records query)).map unmarked)).1.found =
        (state.found ++ files.flatMap (TextFile.hits (toAsciiLowercase query))).take limit ↔
      ¬ Owed limit (state.found ++ files.flatMap (TextFile.hits (toAsciiLowercase query))) := by
  induction files generalizing state with
  | nil =>
    rw [flatMap_nil, flatMap_nil, append_nil, take_of_length_le room]
    refine iff_of_true rfl ?_
    rintro ⟨kept, last, next, size, _, there, _⟩
    have := (List.getElem?_eq_some_iff.mp there).1
    omega
  | cons file files ih =>
    obtain ⟨apart, distinct⟩ := nodup_cons.mp distinct
    have around : Around file.gitLines (toAsciiLowercase query) (shownAt query file.gitLines) :=
      fun index line there hit other near near' =>
        (shownAt_iff one _ other).mpr ⟨index, line, there, hit, near, near'⟩
    have nearby : Nearby file.gitLines (toAsciiLowercase query) (shownAt query file.gitLines) :=
      fun other visible => (shownAt_iff one _ other).mp visible
    have free : ∀ hit ∈ state.found, hit.path ≠ file.path :=
      fun hit member => others hit member file mem_cons_self
    rw [flatMap_cons, flatMap_cons, map_append, TextFile.records, unmarked_recordsFrom]
    rw [flatMap_cons] at clean
    by_cases found : ∃ (index : Nat) (line : Text), file.gitLines[index]? = some line ∧
      isHit (toAsciiLowercase query) line = true
    case neg =>
      have hits : file.hits (toAsciiLowercase query) = [] := by
        apply eq_nil_iff_forall_not_mem.mpr
        intro hit member
        obtain ⟨k, text, there, hit_, _⟩ := mem_gatheredFrom member
        exact found ⟨k, text, there, hit_⟩
      have records : recordsFrom (shownAt query file.gitLines) (stripMarks file.path) 0
          file.gitLines = [] := by
        apply eq_nil_iff_forall_not_mem.mpr
        intro record member
        obtain ⟨k, _, _, visible, _⟩ := mem_recordsFrom member
        obtain ⟨index, line, there, hit, _⟩ := nearby _ visible
        exact found ⟨index, line, there, hit⟩
      rw [hits, nil_append] at clean ⊢
      rw [records, nil_append]
      exact ih state distinct room
        (fun hit member file' behind => others hit member file' (mem_cons_of_mem _ behind))
        (fun file' behind => fresh file' (mem_cons_of_mem _ behind)) sealed_ clean
    case pos =>
    obtain ⟨index, line, there, hit⟩ := found
    rcases Nat.lt_or_ge state.found.length limit with short | full
    case inr =>
      -- nothing more is kept
      have some' : state.found ≠ [] := length_pos_iff.mp (Nat.lt_of_lt_of_le some_ full)
      have parts := dropLast_append_getLast some'
      have size : limit = state.found.dropLast.length + 1 := by
        rw [length_dropLast]
        omega
      have whole : (state.found ++ (file.hits (toAsciiLowercase query) ++
          files.flatMap (TextFile.hits (toAsciiLowercase query)))).take limit = state.found :=
        take_left' (Nat.le_antisymm room full)
      rw [whole]
      exact spilled_iff around nearby there hit parts.symm size sealed_
        (fun same => free _ (getLast_mem some') same.symm)
    case inl =>
    have named : stripMarks file.path = file.path := by
      obtain ⟨first, text, _, _, _, _, _, head⟩ :=
        gathered_first file.path file.gitLines.length there hit (Nat.zero_le _)
      rw [drop_zero] at head
      apply stripMarks_of_clean
      apply clean (gathered file.path file.gitLines file.gitLines.length first text)
      rw [TextFile.hits, head]
      apply mem_of_getElem? (i := state.found.length)
      rw [getElem?_take_of_lt short]
      simp
    have start : ReadTo file.path file.gitLines (toAsciiLowercase query)
        (shownAt query file.gitLines) state.found 0
        state := by
      refine ⟨by rw [take_zero, gatheredFrom, append_nil], ?_⟩
      rw [Parse.recentIn, take_zero, recordsFrom, map_nil, lastThree, drop_nil]
      split
      case isTrue => rfl
      case isFalse same => exact fresh file mem_cons_self (Decidable.not_not.mp same).symm
    obtain ⟨next, stop, upTo, run, found, small, ends⟩ := run_file around some_ free room
      (Nat.zero_le _) start
    rw [drop_zero] at run
    rw [named, runRecords_append, run]
    rcases ends with ⟨rfl, rfl, recent⟩ | ⟨rfl, line', at_, visible, stops⟩
    case inr => exact stopped_iff nearby at_ visible short found small stops
    case inl =>
      rw [take_length] at found
      have found' : next.found = state.found ++ file.hits (toAsciiLowercase query) := found
      rw [← append_assoc, ← found'] at clean ⊢
      apply ih next distinct small
      · intro hit' member file' behind
        rw [found'] at member
        rcases mem_append.mp member with old | new
        · exact others hit' old file' (mem_cons_of_mem _ behind)
        · obtain ⟨_, _, _, _, rfl⟩ := mem_gatheredFrom new
          exact fun same => apart (List.mem_map.mpr ⟨file', behind, same.symm⟩)
      · intro file' behind same
        rcases recent with here | ⟨before, kept⟩
        · exact absurd (List.mem_map.mpr ⟨file', behind, same.symm.trans here⟩) apart
        · exact kept.trans (fresh file' (mem_cons_of_mem _ behind) (before.symm.trans same))
      · rw [found]
        exact sealed_.append free
      · exact clean

theorem run_nothing {foldedQuery : Text} {records : List Record} (none_ : state.found = [])
    (nothing : limit = 0 ∨ ∀ record ∈ records, isHit foldedQuery record.2.2 = false) :
    (runRecords foldedQuery limit state records).1.found = [] := by
  induction records generalizing state with
  | nil => exact none_
  | cons record records ih =>
    obtain ⟨path, line, text⟩ := record
    have on : past limit path line (isHit foldedQuery text) state.found = false := by rw [none_]; rfl
    obtain ⟨next, step, _, _, found⟩ := record_on on
    rw [runRecords, step]
    apply ih
    · rw [found, if_neg, none_]
      · rfl
      · rintro ⟨hit, short⟩
        rcases nothing with zero | plain
        · omega
        · have := plain _ mem_cons_self
          rw [hit] at this
          cases this
    · exact nothing.imp id fun plain record member => plain record (mem_cons_of_mem _ member)

theorem mem_extend {path : Text} {line : Nat} {text : Text} {found : List SearchMatch}
    {hit : SearchMatch} (member : hit ∈ extend path line text found) :
    ∃ earlier ∈ found, hit.path = earlier.path := by
  induction found with
  | nil => exact absurd member not_mem_nil
  | cons earlier rest ih =>
    rw [extend_cons] at member
    split at member
    case isTrue => exact ⟨hit, member, rfl⟩
    case isFalse =>
      split at member
      case isTrue => exact ⟨hit, member, rfl⟩
      case isFalse =>
        rcases mem_cons.mp member with rfl | later
        · exact ⟨earlier, mem_cons_self, by split <;> rfl⟩
        · obtain ⟨other, there, same⟩ := ih later
          exact ⟨other, mem_cons_of_mem _ there, same⟩

/-- No hit that is read has a path with a mark at its start. -/
theorem run_clean {foldedQuery : Text} {records : List Record}
    (clean : ∀ hit ∈ state.found, Clean hit.path) (each : ∀ record ∈ records, Clean record.1) :
    ∀ hit ∈ (runRecords foldedQuery limit state records).1.found, Clean hit.path := by
  induction records generalizing state with
  | nil => exact clean
  | cons record records ih =>
    obtain ⟨path, line, text⟩ := record
    rw [runRecords]
    cases stops : past limit path line (isHit foldedQuery text) state.found with
    | true =>
      obtain ⟨next, step, same⟩ := record_past stops
      rw [step]
      exact same.symm ▸ clean
    | false =>
      obtain ⟨next, step, _, _, found⟩ := record_on stops
      rw [step]
      apply ih _ fun record member => each record (mem_cons_of_mem _ member)
      have old : ∀ hit ∈ (extend path line text state.found.reverse).reverse, Clean hit.path := by
        intro hit member
        obtain ⟨earlier, there, same⟩ := mem_extend (mem_reverse.mp member)
        rw [same]
        exact clean earlier (mem_reverse.mp there)
      intro hit member
      rw [found] at member
      split at member
      case isFalse => exact old hit member
      case isTrue =>
        rcases mem_append.mp member with before | new
        · exact old hit before
        · rw [mem_singleton.mp new]
          exact each _ mem_cons_self

end Files

section Claim

variable (files : List TextFile) (query : Text) (limit : Nat)

/-- The two searches give the same hits. -/
def Agree : Prop :=
  (parseGrepZ (gitGrep files query) query limit).1 =
    (searchContentWalk files query limit).1.map SearchMatch.withoutColumn

theorem gitLines_length_lt (file : TextFile) : file.gitLines.length < 2 ^ 32 := by
  have long := Nat.le_trans (Utf8.length_le_encode _) file.fits
  have rows : file.rows.length ≤ (file.rows.flatMap (· ++ ['\n'])).length := by
    generalize file.rows = rows
    induction rows with
    | nil => exact Nat.le_refl _
    | cons row rows ih =>
      rw [flatMap_cons, length_append, length_append, length_cons, length_singleton]
      omega
  rw [length_append] at long
  rw [TextFile.gitLines, length_append, maxFileBytes] at *
  split
  · rw [length_nil]
    omega
  · rw [length_singleton]
    omega

theorem gitLines_whole (file : TextFile) : ∀ line ∈ file.gitLines, '\n' ∉ line := by
  intro line member
  rcases mem_append.mp member with row | rest
  · exact file.whole line row
  · split at rest
    · cases rest
    · rw [mem_singleton.mp rest]
      exact file.open_

theorem parse_found :
    (parseGrepZ (gitGrep files query) query limit).1 =
      (runRecords (toAsciiLowercase query)
      limit .start ((files.flatMap (TextFile.records query)).map unmarked)).1.found := by
  have each : ∀ record ∈ files.flatMap (TextFile.records query), ∃ file : TextFile, ∃ k text,
      file.gitLines[k]? = some text ∧ record = (file.path, k + 1, text) := by
    intro record member
    obtain ⟨file, _, inside⟩ := mem_flatMap.mp member
    obtain ⟨k, text, there, _, eq_⟩ := mem_recordsFrom inside
    rw [Nat.zero_add] at eq_
    exact ⟨file, k, text, there, eq_⟩
  rw [parseGrepZ, gitGrep, parseFrom_printed]
  · intro record member
    obtain ⟨file, _, _, _, rfl⟩ := each record member
    exact file.named
  · intro record member
    obtain ⟨file, k, text, there, rfl⟩ := each record member
    exact Nat.lt_of_le_of_lt (List.getElem?_eq_some_iff.mp there).1 (gitLines_length_lt file)
  · intro record member
    obtain ⟨file, k, text, there, rfl⟩ := each record member
    exact gitLines_whole file text (mem_of_getElem? there)

theorem walk_found :
    (searchContentWalk files query limit).1.map SearchMatch.withoutColumn =
      (files.flatMap (TextFile.hits (toAsciiLowercase query))).take limit :=
  walkFiles_eq limit (Nat.zero_le _)

/-- The two searches agree exactly where no kept hit's path starts with a group mark and the last
kept hit is not cut short by the first that is left out. -/
theorem agree_iff (distinct : (files.map TextFile.path).Nodup) :
    Agree files query limit ↔
      (∀ hit ∈ (searchContentWalk files query limit).1, Clean hit.path) ∧
        ¬ Owed limit (files.flatMap (TextFile.hits (toAsciiLowercase query))) := by
  have walk := walk_found files query limit
  rw [Agree, parse_found]
  by_cases one : limit = 0 ∨ '\n' ∈ query
  case pos =>
    -- neither search has a hit
    have nothing : limit = 0 ∨ ∀ record ∈ (files.flatMap (TextFile.records query)).map unmarked,
        isHit (toAsciiLowercase query) record.2.2 = false := by
      refine one.imp id fun many record member => ?_
      obtain ⟨before, there, rfl⟩ := List.mem_map.mp member
      obtain ⟨file, _, inside⟩ := mem_flatMap.mp there
      obtain ⟨k, text, at_, _, rfl⟩ := mem_recordsFrom inside
      exact isHit_newline many (gitLines_whole file text (mem_of_getElem? at_))
    have none_ : (files.flatMap (TextFile.hits (toAsciiLowercase query))).take limit = [] := by
      rcases one with rfl | many
      · rfl
      · have hits : files.flatMap (TextFile.hits (toAsciiLowercase query)) = [] := by
          apply eq_nil_iff_forall_not_mem.mpr
          intro hit member
          obtain ⟨file, _, inside⟩ := mem_flatMap.mp member
          obtain ⟨k, text, at_, found, _⟩ := mem_gatheredFrom inside
          rw [isHit_newline many (gitLines_whole file text (mem_of_getElem? at_))] at found
          cases found
        rw [hits, take_nil]
    rw [none_] at walk
    rw [walk, run_nothing rfl nothing]
    refine iff_of_true rfl ⟨?_, ?_⟩
    · rw [map_eq_nil_iff.mp walk]
      exact fun hit member => absurd member not_mem_nil
    · rintro ⟨kept, last, _, size, there, _⟩
      rw [← getElem?_take_of_lt (by omega : kept < limit), none_] at there
      cases there
  case neg =>
    obtain ⟨some_, one⟩ := not_or.mp one
    have start := run_files one (Nat.pos_of_ne_zero some_) .start distinct (Nat.zero_le _)
      (fun hit member => absurd member not_mem_nil) (fun _ _ _ => rfl)
      (fun hit member => absurd member not_mem_nil)
    rw [show Parse.start.found = [] from rfl, nil_append, ← walk] at start
    have sameClean : (∀ hit ∈ (searchContentWalk files query limit).1, Clean hit.path) ↔
        ∀ hit ∈ (searchContentWalk files query limit).1.map SearchMatch.withoutColumn,
        Clean hit.path := by
      rw [forall_mem_map]
      rfl
    rw [sameClean]
    constructor
    · intro agree
      have clean : ∀ hit ∈ (searchContentWalk files query limit).1.map SearchMatch.withoutColumn,
          Clean hit.path := by
        rw [← agree]
        apply run_clean fun hit member => absurd member not_mem_nil
        intro record member
        obtain ⟨before, _, rfl⟩ := List.mem_map.mp member
        exact clean_stripMarks _
      exact ⟨clean, (start clean).mp agree⟩
    · rintro ⟨clean, kept⟩
      exact (start clean).mpr kept

/-- A file with two lines that are hits. -/
def twice : TextFile where
  path := ['a']
  rows := [['x'], ['x']]
  rest := []
  named := by decide
  whole := by decide
  plain := by decide
  open_ := by decide
  fits := by decide

theorem agree_iff_twice :
    Agree [twice] ['x'] 2 ↔
      (∀ hit ∈ (searchContentWalk [twice] ['x'] 2).1, Clean hit.path) ∧
        ¬ Owed 2 ([twice].flatMap (TextFile.hits (toAsciiLowercase ['x']))) :=
  agree_iff [twice] ['x'] 2 (by decide)

/-- With a limit of one the hit that is kept is without the line below it. -/
theorem not_agree_twice :
    ¬ ∀ (files : List TextFile) (query : Text) (limit : Nat), (files.map TextFile.path).Nodup →
      Agree files query limit := by
  intro all
  have agree := all [twice] ['x'] 1 (by decide)
  rw [Agree, parse_found, walk_found] at agree
  exact absurd agree (by decide +kernel)

end Claim

end ForgeNode.Content
