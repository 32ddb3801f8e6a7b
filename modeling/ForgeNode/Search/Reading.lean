import ForgeNode.Search.Content

/-! The output of `git grep` is read record by record: what is known of the hits of a file at each
of its lines. -/

namespace ForgeNode.Content

open List
open Marks (Text)

section Records

variable {foldedQuery : Text} {limit : Nat}

/-- The lines that may be context of a hit in this file. -/
def Parse.recentIn (state : Parse) (path : Text) : List (Nat × Text) :=
  if path ≠ state.recentPath then [] else state.recent

/-- The hit of a record. -/
def drawn (path : Text) (line : Nat) (text : Text) (recent : List (Nat × Text)) : SearchMatch :=
  { path, line, column := 0, text
    before := (recent.filter fun (at_, _) =>
      decide (at_ < line ∧ at_ + searchContextLines ≥ line)).map fun (_, text) => contextLine text
    after := [] }

theorem extend_cons (path : Text) (line : Nat) (text : Text) (earlier : SearchMatch)
    (rest : List SearchMatch) : extend path line text (earlier :: rest) =
      if earlier.path ≠ path ∨ earlier.line ≥ line then earlier :: rest
      else if searchContextLines ≤ earlier.after.length then earlier :: rest
      else
        (if earlier.line + earlier.after.length + 1 = line then
          { earlier with after := earlier.after ++ [contextLine text] } else earlier) ::
          extend path line text rest := by
  rw [extend]
  split
  · rfl
  · have full : earlier.line + earlier.after.length + 1 > earlier.line + searchContextLines ↔
        searchContextLines ≤ earlier.after.length := by omega
    simp only [full]

theorem extend_length (path : Text) (line : Nat) (text : Text) (found : List SearchMatch) :
    (extend path line text found).length = found.length := by
  induction found with
  | nil => rfl
  | cons earlier rest ih =>
    rw [extend_cons]
    split
    · rfl
    · split
      · rfl
      · exact congrArg (· + 1) ih

theorem record_past {state : Parse} {path text : Text} {line : Nat}
    (stop : past limit path line (isHit foldedQuery text) state.found = true) :
    ∃ next : Parse, state.record foldedQuery limit path line text = (next, true) ∧
    next.found = state.found :=
  ⟨_, if_pos stop, rfl⟩

theorem record_on {state : Parse} {path text : Text} {line : Nat}
    (on : past limit path line (isHit foldedQuery text) state.found = false) :
    ∃ next : Parse, state.record foldedQuery limit path line text = (next, false) ∧
    next.recentPath = path ∧
      next.recent = (if (state.recentIn path ++ [(line, text)]).length > searchContextLines then
        (state.recentIn path ++ [(line, text)]).tail else state.recentIn path ++ [(line, text)]) ∧
      next.found = (if isHit foldedQuery text = true ∧ state.found.length < limit then
        (extend path line text state.found.reverse).reverse ++
          [drawn path line text (state.recentIn path)]
        else (extend path line text state.found.reverse).reverse) := by
  refine ⟨_, if_neg (by rw [Bool.not_eq_true]; exact on), rfl, rfl, ?_⟩
  simp only [length_reverse, extend_length]
  rfl

/-- Lines of another file, and lines that no hit waits for, change nothing. -/
theorem extend_idle {path text : Text} {line : Nat} {found : List SearchMatch}
    (idle : ∀ earlier ∈ found, earlier.path = path → earlier.after.length < searchContextLines →
      earlier.line + earlier.after.length + 1 ≠ line) :
    extend path line text found = found := by
  induction found with
  | nil => rfl
  | cons earlier rest ih =>
    rw [extend_cons]
    split
    case isTrue => rfl
    case isFalse near =>
      split
      case isTrue => rfl
      case isFalse short =>
        rw [ih fun other member => idle other (mem_cons_of_mem _ member)]
        have same : earlier.path = path := by
          apply Decidable.byContradiction
          exact fun other => near (Or.inl other)
        rw [if_neg (idle earlier mem_cons_self same (by omega))]

end Records

section File

variable {path : Text} {lines : List Text} {foldedQuery : Text} {limit : Nat} {shown : Nat → Bool}

theorem gatheredFrom_append (path : Text) (lines : List Text) (foldedQuery : Text)
    (read index : Nat) (front back : List Text) :
    gatheredFrom path lines foldedQuery read index (front ++ back) =
      gatheredFrom path lines foldedQuery read index front ++
        gatheredFrom path lines foldedQuery read (index + front.length) back := by
  induction front generalizing index with
  | nil => rfl
  | cons line front ih =>
    rw [cons_append, gatheredFrom, gatheredFrom, ih, length_cons, Nat.add_right_comm index 1,
      Nat.add_assoc index]
    split <;> rfl

theorem recordsFrom_append (shown : Nat → Bool) (path : Text) (index : Nat)
    (front back : List Text) : recordsFrom shown path index (front ++ back) =
      recordsFrom shown path index front ++ recordsFrom shown path (index + front.length) back := by
  induction front generalizing index with
  | nil => rfl
  | cons line front ih =>
    rw [cons_append, recordsFrom, recordsFrom, ih, length_cons, Nat.add_right_comm index 1,
      Nat.add_assoc index]
    split <;> rfl

theorem gathered_take_succ (read : Nat) {index : Nat} {line : Text}
    (there : lines[index]? = some line) :
    gatheredFrom path lines foldedQuery read 0 (lines.take (index + 1)) =
      gatheredFrom path lines foldedQuery read 0 (lines.take index) ++
        if isHit foldedQuery line then [gathered path lines read index line] else [] := by
  obtain ⟨here, rfl⟩ := List.getElem?_eq_some_iff.mp there
  rw [take_succ_eq_append_getElem here, gatheredFrom_append, length_take_of_le (Nat.le_of_lt here),
    Nat.zero_add]
  rfl

theorem records_take_succ (shown : Nat → Bool) (path : Text) {index : Nat} {line : Text}
    (there : lines[index]? = some line) :
    recordsFrom shown path 0 (lines.take (index + 1)) =
      recordsFrom shown path 0 (lines.take index) ++ if shown index then [(path, index + 1, line)]
      else [] := by
  obtain ⟨here, rfl⟩ := List.getElem?_eq_some_iff.mp there
  rw [take_succ_eq_append_getElem here, recordsFrom_append, length_take_of_le (Nat.le_of_lt here),
    Nat.zero_add]
  rfl

theorem gathered_settled {read later index : Nat} (far : index + searchContextLines < read)
    (more : read ≤ later) (line : Text) :
    gathered path lines read index line = gathered path lines later index line := by
  have least : min searchContextLines (read - (index + 1)) = min searchContextLines
      (later - (index + 1)) := by
    omega
  rw [gathered, gathered, least]

theorem gatheredFrom_length (read later index : Nat) (rest : List Text) :
    (gatheredFrom path lines foldedQuery read index rest).length =
      (gatheredFrom path lines foldedQuery later index rest).length := by
  induction rest generalizing index with
  | nil => rfl
  | cons line rest ih =>
    rw [gatheredFrom, gatheredFrom]
    split
    · rw [length_cons, length_cons, ih]
    · exact ih _

theorem gatheredFrom_settled {read later index : Nat} {rest : List Text} (more : read ≤ later)
    (far : ∀ k line, rest[k]? = some line → isHit foldedQuery line = true →
      index + k + searchContextLines < read) :
    gatheredFrom path lines foldedQuery read index rest =
      gatheredFrom path lines foldedQuery later index rest := by
  induction rest generalizing index with
  | nil => rfl
  | cons line rest ih =>
    have others := @ih (index + 1) fun k line there hit => by
      have := far (k + 1) line there hit
      omega
    rw [gatheredFrom, gatheredFrom, others]
    split
    case isTrue hit =>
      have first := far 0 line rfl hit
      rw [gathered_settled (by omega) more]
    case isFalse => rfl

/-- The line that follows is context of every hit that still waits. -/
theorem extend_gathered (foldedQuery : Text) {found : List SearchMatch}
    (others : ∀ earlier ∈ found, earlier.path ≠ path) {read count : Nat} {text : Text}
    (next : lines[read]? = some text) (upTo : count ≤ read) :
    extend path (read + 1)
    text (found ++ gatheredFrom path lines foldedQuery read 0 (lines.take count)).reverse =
      (found ++ gatheredFrom path lines foldedQuery (read + 1) 0 (lines.take count)).reverse := by
  have bound : read < lines.length := (List.getElem?_eq_some_iff.mp next).1
  induction count with
  | zero =>
    rw [take_zero, gatheredFrom, gatheredFrom, append_nil]
    exact extend_idle fun earlier member same =>
      absurd same (others earlier (mem_reverse.mp member))
  | succ count ih =>
    have here : count < lines.length := by omega
    obtain ⟨line, there⟩ : ∃ line, lines[count]? = some line := ⟨_, getElem?_eq_getElem here⟩
    have snoc : ∀ (front : List SearchMatch) (last : SearchMatch),
        (found ++ (front ++ [last])).reverse = last :: (found ++ front).reverse := by simp
    rw [gathered_take_succ _ there, gathered_take_succ _ there]
    split
    case isFalse =>
      rw [append_nil, append_nil]
      exact ih (by omega)
    case isTrue =>
      rw [snoc, snoc]
      have size : (gathered path lines read count line).after.length =
          min searchContextLines (read - (count + 1)) := by
        simp only [gathered, length_map, length_take, List.length_drop]
        omega
      rw [extend_cons, if_neg (by
        rintro (other | late)
        · exact other rfl
        · simp only [gathered] at late
          omega), size]
      split
      case isTrue settled =>
        rw [gathered_settled (by omega) (Nat.le_succ read), gatheredFrom_settled (Nat.le_succ read)
          fun k line there hit => ?_]
        have short := (List.getElem?_eq_some_iff.mp there).1
        rw [length_take] at short
        omega
      case isFalse waits =>
        have due : (gathered path lines read count line).line + min searchContextLines
            (read - (count + 1)) + 1 = read + 1 := by
          simp only [gathered]
          omega
        rw [if_pos due, ih (by omega)]
        have more : min searchContextLines (read + 1 - (count + 1)) =
            min searchContextLines (read - (count + 1)) + 1 := by omega
        have taken : (lines.drop (count + 1)).take (min searchContextLines (read - (count + 1)) + 1) =
            (lines.drop (count + 1)).take (min searchContextLines (read - (count + 1))) ++
              [text] := by
          have at_ : count + 1 + min searchContextLines (read - (count + 1)) = read := by omega
          rw [take_add_one, getElem?_drop, at_, next]
          rfl
        simp only [gathered, more, taken, map_append, map_singleton]

/-- The last three rows. -/
def lastThree (rows : List (Nat × Text)) :
    List (Nat × Text) := rows.drop (rows.length - searchContextLines)

theorem lastThree_push (rows : List (Nat × Text)) (row : Nat × Text) :
    (if (lastThree rows ++ [row]).length > searchContextLines then (lastThree rows ++ [row]).tail
      else lastThree rows ++ [row]) = lastThree (rows ++ [row]) := by
  have size : (lastThree rows ++ [row]).length = min rows.length searchContextLines + 1 := by
    rw [length_append, lastThree, List.length_drop, length_singleton]
    omega
  rw [size]
  split
  case isTrue long =>
    have more : (rows ++ [row]).length - searchContextLines = rows.length - searchContextLines +
        1 := by
      rw [length_append, length_singleton]
      omega
    rw [lastThree, lastThree, more, ← drop_append_of_le_length (by omega), tail_drop]
  case isFalse short =>
    have none_ : rows.length - searchContextLines = 0 := by omega
    have none' : (rows ++ [row]).length - searchContextLines = 0 := by
      rw [length_append, length_singleton]
      omega
    rw [lastThree, lastThree, none_, none', drop_zero, drop_zero]

/-- Where every line is shown, the records are the lines. -/
theorem recordsFrom_all (path : Text) (index : Nat) (rest : List Text)
    (all : ∀ k < rest.length, shown (index + k) = true) :
    (recordsFrom shown path index rest).map (·.2.2) = rest ∧
      (recordsFrom shown path index rest).length = rest.length ∧
      ∀ record ∈ recordsFrom shown path index rest, index < record.2.1 ∧ record.2.1 ≤ index +
      rest.length := by
  induction rest generalizing index with
  | nil => exact ⟨rfl, rfl, fun record member => absurd member not_mem_nil⟩
  | cons line rest ih =>
    obtain ⟨texts, length, bounds⟩ := ih (index + 1) fun k inside => by
      rw [Nat.add_assoc, Nat.add_comm 1]
      exact all (k + 1) (Nat.succ_lt_succ inside)
    have first : shown index = true := all 0 (Nat.succ_pos _)
    rw [recordsFrom, if_pos first]
    refine ⟨by rw [map_cons, texts], by rw [length_cons, length_cons, length], ?_⟩
    intro record member
    rw [length_cons]
    rcases mem_cons.mp member with rfl | later
    · constructor <;> simp only <;> omega
    · have := bounds record later
      omega

/-- The lines above a hit are the last records, and the context before it. -/
theorem drawn_eq (path : Text) {read : Nat} (line : Text) (inside : read ≤ lines.length)
    (near : ∀ index < read, read ≤ index + searchContextLines → shown index = true) :
    drawn path (read + 1)
    line (lastThree ((recordsFrom shown path 0 (lines.take read)).map (·.2))) =
      gathered path lines (read + 1) read line := by
  have parts : lines.take read = lines.take (read - searchContextLines) ++
      (lines.take read).drop (read - searchContextLines) := by
    conv_lhs => rw [← take_append_drop (read - searchContextLines) (lines.take read), take_take]
    congr 2
    omega
  have above : (lines.take (read - searchContextLines)).length = read - searchContextLines :=
    length_take_of_le (by omega)
  have size : ((lines.take read).drop (read - searchContextLines)).length =
      min searchContextLines read := by
    rw [List.length_drop, length_take_of_le inside]
    omega
  obtain ⟨texts, length, bounds⟩ := recordsFrom_all path
    (read - searchContextLines) ((lines.take read).drop (read - searchContextLines)) (by
      intro k short
      exact near _ (by omega) (by omega))
  have last : lastThree ((recordsFrom shown path 0 (lines.take read)).map (·.2)) =
      (recordsFrom shown path (read - searchContextLines)
        ((lines.take read).drop (read - searchContextLines))).map (·.2) := by
    have split := recordsFrom_append shown path 0 (lines.take (read - searchContextLines))
      ((lines.take read).drop (read - searchContextLines))
    rw [← parts, above, Nat.zero_add] at split
    rw [split, lastThree, map_append, length_append, length_map, length_map, length, size]
    rcases Nat.le_total searchContextLines read with deep | shallow
    · rw [Nat.min_eq_left deep, Nat.add_sub_cancel]
      exact drop_left' (length_map _)
    · have none_ : read - searchContextLines = 0 := Nat.sub_eq_zero_of_le shallow
      have start : (recordsFrom shown path 0 (lines.take 0)).length + min searchContextLines read -
          searchContextLines = 0 := by
        rw [take_zero, recordsFrom, length_nil]
        omega
      rw [none_, start, take_zero, recordsFrom, drop_zero]
      rfl
  have kept : ∀ row ∈ (recordsFrom shown path (read - searchContextLines)
      ((lines.take read).drop (read - searchContextLines))).map (·.2),
      decide (row.1 < read + 1 ∧ row.1 + searchContextLines ≥ read + 1) = true := by
    intro row member
    obtain ⟨record, there, rfl⟩ := List.mem_map.mp member
    have := bounds record there
    apply decide_eq_true
    omega
  have none_ : min searchContextLines (read + 1 - (read + 1)) = 0 := by omega
  rw [drawn, gathered, last, filter_eq_self.mpr kept, none_, take_zero, map_map, map_nil]
  have joined := congrArg (List.map contextLine) texts
  rw [map_map] at joined
  rw [← joined]
  rfl

/-- What is known when so many lines of a file are read. -/
structure ReadTo (path : Text) (lines : List Text) (foldedQuery : Text) (shown : Nat → Bool)
    (earlier : List SearchMatch) (read : Nat) (state : Parse) : Prop where
  found : state.found = earlier ++ gatheredFrom path lines foldedQuery read 0 (lines.take read)
  recent : state.recentIn path = lastThree ((recordsFrom shown path 0 (lines.take read)).map (·.2))

/-- A hit is shown with three lines on each side of it. -/
def Around (lines : List Text) (foldedQuery : Text) (shown : Nat → Bool) : Prop :=
  ∀ index line, lines[index]? = some line → isHit foldedQuery line = true → ∀ other,
    other ≤ index + searchContextLines → index ≤ other + searchContextLines → shown other = true

variable {earlier : List SearchMatch} {read : Nat} {state : Parse} {line : Text}

theorem past_hit {number : Nat} {found : List SearchMatch} (some_ : 0 < limit)
    (full : limit ≤ found.length) : past limit path number true found = true := by
  have there : found ≠ [] := by
    rintro rfl
    exact absurd full (Nat.not_le.mpr some_)
  rw [past, getLast?_eq_getLast_of_ne_nil there]
  simp [full]

theorem ReadTo.record (at_ : ReadTo path lines foldedQuery shown earlier read state)
    (around : Around lines foldedQuery shown) (some_ : 0 < limit)
    (others : ∀ hit ∈ earlier, hit.path ≠ path) (room : state.found.length ≤ limit)
    (there : lines[read]? = some line) (visible : shown read = true)
    (on : past limit path (read + 1) (isHit foldedQuery line) state.found = false) :
    ∃ next : Parse, state.record foldedQuery limit path (read + 1) line = (next, false) ∧
    next.recentPath = path ∧
      next.found.length ≤ limit ∧ ReadTo path lines foldedQuery shown earlier (read + 1) next := by
  obtain ⟨next, step, recentPath, recent, found⟩ := record_on on
  have inside := (List.getElem?_eq_some_iff.mp there).1
  have extended := extend_gathered foldedQuery others there (Nat.le_refl read)
  rw [← at_.found] at extended
  rw [at_.recent] at recent found
  rw [extended, reverse_reverse] at found
  have length : (earlier ++ gatheredFrom path lines foldedQuery (read + 1) 0
      (lines.take read)).length =
      state.found.length := by
    rw [at_.found, length_append, length_append, gatheredFrom_length (read + 1) read]
  have rows := records_take_succ shown path there
  rw [if_pos visible] at rows
  have kept : next.recentIn path = lastThree ((recordsFrom shown path 0 (lines.take (read + 1))).map
      (·.2)) := by
    rw [Parse.recentIn, recentPath, if_neg (not_not_intro rfl), recent, lastThree_push,
      rows, map_append]
    rfl
  refine ⟨next, step, recentPath, ?_, ?_, kept⟩
  · rw [found]
    split
    case isTrue hit =>
      rw [length_append, length, length_singleton]
      omega
    case isFalse => rwa [length]
  · rw [found, gathered_take_succ _ there]
    by_cases hit : isHit foldedQuery line = true
    case neg => rw [if_neg fun both => hit both.1, if_neg hit, append_nil]
    case pos =>
      have short : state.found.length < limit := by
        apply Nat.lt_of_not_le
        intro full
        rw [hit, past_hit some_ full] at on
        cases on
      have close := drawn_eq path line (Nat.le_of_lt inside) fun index before near =>
        around read line there hit index (by omega) near
      rw [if_pos ⟨hit, short⟩, if_pos hit, close, append_assoc]

/-- A line that is not shown is no context of a hit. -/
theorem ReadTo.skip (at_ : ReadTo path lines foldedQuery shown earlier read state)
    (around : Around lines foldedQuery shown) (there : lines[read]? = some line)
    (hidden : shown read = false) :
    ReadTo path lines foldedQuery shown earlier (read + 1) state := by
  have inside := (List.getElem?_eq_some_iff.mp there).1
  have rows := records_take_succ shown path there
  rw [if_neg (by rw [hidden]; exact Bool.false_ne_true), append_nil] at rows
  have plain : ¬ isHit foldedQuery line = true := by
    intro hit
    rw [around read line there hit read (by omega) (by omega)] at hidden
    cases hidden
  refine ⟨?_, rows ▸ at_.recent⟩
  rw [at_.found, gathered_take_succ _ there, if_neg plain, append_nil]
  congr 1
  apply gatheredFrom_settled (Nat.le_succ read)
  intro k line above hit
  rw [getElem?_take] at above
  split at above
  case isFalse => cases above
  case isTrue before =>
    apply Nat.lt_of_not_le
    intro near
    rw [around k line above hit read (by omega) (by omega)] at hidden
    cases hidden

/-- The records of a file, up to its end or to the record that stops the reading. -/
theorem run_file (around : Around lines foldedQuery shown) (some_ : 0 < limit)
    (others : ∀ hit ∈ earlier, hit.path ≠ path) (room : state.found.length ≤ limit)
    (inside : read ≤ lines.length) (at_ : ReadTo path lines foldedQuery shown earlier read state) :
    ∃ next stop upTo,
      runRecords foldedQuery limit state (recordsFrom shown path read (lines.drop read)) =
        (next, stop) ∧
      next.found = earlier ++ gatheredFrom path lines foldedQuery upTo 0 (lines.take upTo) ∧
      next.found.length ≤ limit ∧
      (stop = false ∧ upTo = lines.length ∧
        (next.recentPath = path ∨ next.recentPath = state.recentPath ∧ next.recent = state.recent) ∨
      stop = true ∧ ∃ line, lines[upTo]? = some line ∧ shown upTo = true ∧
        past limit path (upTo + 1) (isHit foldedQuery line) next.found = true) := by
  induction gap : lines.length - read generalizing read state with
  | zero =>
    have end_ : read = lines.length := by omega
    rw [end_, drop_length]
    rw [end_] at at_
    exact ⟨state, false, lines.length, rfl, at_.found, room, .inl ⟨rfl, rfl, .inr ⟨rfl, rfl⟩⟩⟩
  | succ gap ih =>
    have short : read < lines.length := by omega
    obtain ⟨line, there⟩ : ∃ line, lines[read]? = some line := ⟨_, getElem?_eq_getElem short⟩
    have head : lines.drop read = line :: lines.drop (read + 1) := by
      rw [drop_eq_getElem_cons short]
      exact congrArg (· :: _) (List.getElem?_eq_some_iff.mp there).2
    rw [head, recordsFrom]
    by_cases visible : shown read = true
    case neg =>
      rw [if_neg visible]
      exact ih room short (at_.skip around there (by simpa using visible)) (by omega)
    case pos =>
      rw [if_pos visible, runRecords]
      cases stops : past limit path (read + 1) (isHit foldedQuery line) state.found with
      | true =>
        obtain ⟨next, step, same⟩ := record_past stops
        rw [step]
        exact ⟨next, true, read, rfl, same ▸ at_.found, same ▸ room,
          .inr ⟨rfl, line, there, visible, same ▸ stops⟩⟩
      | false =>
        obtain ⟨next, step, recentPath, fits, there_⟩ := at_.record around some_ others room
          there visible stops
        rw [step]
        obtain ⟨last, stop, upTo, run, found, small, ends⟩ := ih fits short there_ (by omega)
        refine ⟨last, stop, upTo, run, found, small, ?_⟩
        rcases ends with ⟨on, all, here | ⟨same, _⟩⟩ | stopped
        · exact .inl ⟨on, all, .inl here⟩
        · exact .inl ⟨on, all, .inl (same.trans recentPath)⟩
        · exact .inr stopped

/-- The last hit above a line. -/
theorem gathered_last {count : Nat} (inside : count ≤ lines.length)
    (some_ : gatheredFrom path lines foldedQuery read 0 (lines.take count) ≠ []) :
    ∃ index line, index < count ∧ lines[index]? = some line ∧ isHit foldedQuery line = true ∧
      (∀ other text, lines[other]? = some text → isHit foldedQuery text = true → other < count →
        other ≤ index) ∧
      ∀ read, gatheredFrom path lines foldedQuery read 0 (lines.take count) =
        gatheredFrom path lines foldedQuery read 0 (lines.take index) ++
          [gathered path lines read index line] := by
  induction count with
  | zero => exact absurd rfl some_
  | succ count ih =>
    obtain ⟨line, there⟩ : ∃ line, lines[count]? = some line := ⟨_, getElem?_eq_getElem inside⟩
    by_cases hit : isHit foldedQuery line = true
    case pos =>
      refine ⟨count, line, Nat.lt_succ_self _, there, hit, fun _ _ _ _ before =>
        Nat.le_of_lt_succ before, ?_⟩
      intro read
      rw [gathered_take_succ _ there, if_pos hit]
    case neg =>
      have same : ∀ read, gatheredFrom path lines foldedQuery read 0 (lines.take (count + 1)) =
          gatheredFrom path lines foldedQuery read 0 (lines.take count) := by
        intro read
        rw [gathered_take_succ _ there, if_neg hit, append_nil]
      rw [same] at some_
      obtain ⟨index, text, before, at_, found, last, eq_⟩ := ih (Nat.le_of_lt inside) some_
      refine ⟨index, text, Nat.lt_succ_of_lt before, at_, found, ?_, fun read =>
        (same read).trans (eq_ read)⟩
      intro other text' there' hit' upTo
      apply last other text' there' hit'
      apply Nat.lt_of_le_of_ne (Nat.le_of_lt_succ upTo)
      rintro rfl
      rw [there] at there'
      cases there'
      exact hit hit'

/-- The first hit from a line on. -/
theorem gathered_first (path : Text) (read : Nat) {index : Nat} {line : Text}
    (there : lines[index]? = some line) (hit : isHit foldedQuery line = true) {start : Nat}
    (from_ : start ≤ index) : ∃ first text, start ≤ first ∧ first ≤ index ∧
    lines[first]? = some text ∧
      isHit foldedQuery text = true ∧
      (∀ other text, lines[other]? = some text → isHit foldedQuery text = true → start ≤ other →
        first ≤ other) ∧
      gatheredFrom path lines foldedQuery read start (lines.drop start) =
        gathered path lines read first text ::
          gatheredFrom path lines foldedQuery read (first + 1) (lines.drop (first + 1)) := by
  have inside := (List.getElem?_eq_some_iff.mp there).1
  induction gap : index - start generalizing start with
  | zero =>
    obtain rfl : start = index := by omega
    refine ⟨start, line, Nat.le_refl _, Nat.le_refl _, there, hit, fun _ _ _ _ after => after, ?_⟩
    rw [drop_eq_getElem_cons inside, (List.getElem?_eq_some_iff.mp there).2, gatheredFrom, if_pos hit]
  | succ gap ih =>
    have short : start < lines.length := by omega
    obtain ⟨text, at_⟩ : ∃ text, lines[start]? = some text := ⟨_, getElem?_eq_getElem short⟩
    rw [drop_eq_getElem_cons short, (List.getElem?_eq_some_iff.mp at_).2, gatheredFrom]
    by_cases found : isHit foldedQuery text = true
    case pos =>
      exact ⟨start, text, Nat.le_refl _, from_, at_, found, fun _ _ _ _ after => after, if_pos found⟩
    case neg =>
      obtain ⟨first, text', after, upTo, at', hit', least, eq_⟩ :=
        @ih (start + 1) (by omega) (by omega)
      refine ⟨first, text', by omega, upTo, at', hit', ?_, (if_neg found).trans eq_⟩
      intro other other' there' hitOther from'
      apply least other other' there' hitOther
      apply Nat.lt_of_le_of_ne from'
      rintro rfl
      rw [at_] at there'
      cases there'
      exact found hitOther

end File

end ForgeNode.Content
