import ForgeNode.Editor.Words
import ForgeNode.Editor.Execute
import ForgeNode.Lib.Pieces
import ForgeNode.Lib.Ranking
import Mathlib.Data.Prod.Lex
import Mathlib.Data.List.Lex

/-! Completions from the words the buffer already contains. -/

namespace ForgeNode.Editor

open List Utf8 Pieces Ranking

namespace Complete

def maxCandidates : Nat := 12

def minPrefix : Nat := 2

def maxScanBytes : Nat := 512 * 1024

/-- What a completion would replace, and with what. -/
structure Completions where
  start : Nat
  stop : Nat
  words : List Str

/-- `str`'s own order, which is that of its bytes. -/
instance : LinearOrder Str := LinearOrder.lift' (fun word => word.bytes.map UInt8.toNat)
    fun _ _ same =>
  Str.ext (map_injective_iff.mpr (fun _ _ => UInt8.toNat_inj.mp) same)

/-- Shorter words first, then alphabetically. -/
def candidate (word : Str) : Nat ×ₗ Str := toLex (word.len, word)

def startsWithDigit (word : Str) : Bool := (firstChar word.bytes).any Char.isDigit

/-- A word goes on where the prefix stops. -/
def goesOn (typed word : Str) : Bool :=
  decide (word.len > typed.len) && typed.bytes.isPrefixOf word.bytes

/-- The slice of the buffer words are taken from, on character boundaries. -/
@[irreducible] def window (text : Text) (caret : Nat) : Nat × Nat :=
  let half := maxScanBytes / 2
  let body := text.bytes.bytes
  (floorBoundary body (caret - half), ceilBoundary body text.len (min (caret + half) text.len))

section Scan

variable (script : Script)

/-- Identifier-shaped runs, in order. -/
def words (body : Str) : List Str :=
  (((decode body.bytes).splitOnP fun c => !Movement.isWordChar script c).map Str.ofChars).filter
    fun word =>
    decide (word.len ≥ minPrefix) && !startsWithDigit word

/-- What the scan has found, a word at a time. -/
def found (typed : Str) (body : Str) : List (Nat ×ₗ Str) :=
  (((words script body).filter (goesOn typed)).map candidate).foldl (keep maxCandidates) []

/-- Words in the buffer that continue the identifier at `caret`. -/
def completeAt (text : Text) (caret : Nat) : Option Completions :=
  let span := Movement.wordSpan script text caret
  if span.2 ≠ caret ∨ caret - span.1 < minPrefix then none
  else
    let typed := text.slice (.new span.1 caret)
    if startsWithDigit typed then none
    else
      let scanned := window text caret
      let found := found script typed (text.slice (.new scanned.1 scanned.2))
      if found.isEmpty then none else some ⟨span.1, caret, found.map fun candidate =>
        (ofLex candidate).2⟩

end Scan

section Window

theorem ceilBoundary_of_isCharBoundary {bytes : List UInt8} {fuel index : Nat}
    (here : isCharBoundary bytes index = true) : ceilBoundary bytes fuel index = index := by
  cases fuel with
  | zero => rfl
  | succ fuel => exact if_pos here

variable {text : Text} {caret : Nat}

theorem ceilBoundary_isCharBoundary {bytes : List UInt8} {fuel index : Nat}
    (enough : bytes.length ≤ index + fuel) (inside : index ≤ bytes.length) :
    isCharBoundary bytes (ceilBoundary bytes fuel index) = true := by
  induction fuel generalizing index with
  | zero =>
    have last : index = bytes.length := by omega
    rw [ceilBoundary, last]
    exact isCharBoundary_length bytes
  | succ fuel ih =>
    unfold ceilBoundary
    split_ifs with here
    · exact here
    · apply ih (by omega)
      rcases Nat.lt_or_eq_of_le inside with less | last
      · exact less
      · rw [last, isCharBoundary_length] at here
        exact absurd rfl here

theorem window_eq : ∃ half, window text caret =
    (floorBoundary text.bytes.bytes (caret - half),
      ceilBoundary text.bytes.bytes text.len (min (caret + half) text.len)) := by
  unfold window
  exact ⟨_, rfl⟩

theorem window_spec (inside : caret ≤ text.len) : text.bytes.IsBoundary (window text caret).1 ∧
    text.bytes.IsBoundary (window text caret).2 ∧ (window text caret).1 ≤
      (window text caret).2 := by
  obtain ⟨half, same⟩ := @window_eq text caret
  rw [same]
  have low : floorBoundary text.bytes.bytes (caret - half) ≤ caret - half := floorBoundary_le _ _
  have fits : min (caret + half) text.len ≤ text.bytes.bytes.length := Nat.min_le_right _ _
  have high := ceilBoundary_spec fits (Nat.le_add_left text.len _)
  have above : caret ≤ min (caret + half) text.len := Nat.le_min.mpr ⟨Nat.le_add_right _ _, inside⟩
  refine ⟨⟨?_, floorBoundary_isCharBoundary _ _⟩, ⟨high.2.1, ?_⟩, ?_⟩
  · exact Nat.le_trans low (Nat.le_trans (Nat.sub_le _ _) inside)
  · exact ceilBoundary_isCharBoundary (Nat.le_add_left text.len _) fits
  · exact Nat.le_trans low (Nat.le_trans (Nat.sub_le _ _) (Nat.le_trans above high.1))

/-- The characters before the window, in it and after it. -/
theorem window_cut (inside : caret ≤ text.len) : ∃ lead middle trail,
    decode text.bytes.bytes = lead ++ middle ++ trail ∧
      (encode lead).length = (window text caret).1 ∧ (encode (lead ++ middle)).length =
        (window text caret).2 ∧
      decode (text.slice (.new (window text caret).1 (window text caret).2)).bytes = middle := by
  obtain ⟨first, last, order⟩ := window_spec inside
  have slice : (text.slice (.new (window text caret).1 (window text caret).2)).bytes =
      (text.bytes.bytes.take (window text caret).2).drop (window text caret).1 := by
    rw [Range.new_of_le order]
    exact Text.slice_bytes first last
  obtain ⟨lead, lead_eq⟩ := (text.bytes.upTo _ first).valid.chars
  obtain ⟨middle, middle_eq⟩ :=
    (text.slice (.new (window text caret).1 (window text caret).2)).valid.chars
  obtain ⟨trail, trail_eq⟩ := (text.bytes.since _ last).valid.chars
  have front : encode (lead ++ middle) = text.bytes.bytes.take (window text caret).2 := by
    rw [encode_append, ← lead_eq, ← middle_eq, slice]
    calc text.bytes.bytes.take (window text caret).1 ++
      (text.bytes.bytes.take (window text caret).2).drop _
        = (text.bytes.bytes.take (window text caret).2).take (window text caret).1 ++
            (text.bytes.bytes.take (window text caret).2).drop _ := by
          rw [take_take, Nat.min_eq_left order]
      _ = _ := take_append_drop _ _
  refine ⟨lead, middle, trail, ?_, ?_, ?_, ?_⟩
  · have whole : text.bytes.bytes = encode (lead ++ middle ++ trail) := by
      rw [encode_append, front, ← trail_eq]
      exact (take_append_drop _ _).symm
    rw [whole, decode_encode]
  · rw [← lead_eq]
    exact length_take_of_le first.1
  · rw [front]
    exact length_take_of_le last.1
  · rw [middle_eq, decode_encode]

end Window

section Spec

variable (script : Script)

/-- A word stands whole in a body. -/
def IsWhole (body : List UInt8) (word : Str) : Prop :=
  ∃ front run back, word = .ofChars run ∧ Stretch (Movement.isWordChar script) (decode body)
    front run back

/-- The caret is at the end of a word that is long enough and no number. -/
structure Typed (text : Text) (caret : Nat) (front typed back : List Char) : Prop where
  run : Stretch (Movement.isWordChar script) (decode text.bytes.bytes) front typed back
  ends : (encode (front ++ typed)).length = caret
  long : minPrefix ≤ (encode typed).length
  name : startsWithDigit (.ofChars typed) = false

/-- The buffer's words inside the window that go on where the prefix stops. -/
def offered (text : Text) (caret : Nat) (typed : Str) : Set Str := fun word =>
  (∃ front run back, word = .ofChars run ∧
    Stretch (Movement.isWordChar script) (decode text.bytes.bytes) front run back ∧
    (window text caret).1 ≤ (encode front).length ∧ (encode (front ++ run)).length ≤
      (window text caret).2) ∧
  goesOn typed word = true ∧ startsWithDigit word = false

/-- The words of the window alone that go on where the prefix stops. -/
def scanned (text : Text) (caret : Nat) (typed : Str) : Set Str := fun word =>
  IsWhole script (text.slice (.new (window text caret).1 (window text caret).2)).bytes word ∧
  goesOn typed word = true ∧ startsWithDigit word = false

/-- The answer to a prefix: the first of the buffer's words that go on from it, or none where there
are none. -/
def Answers (text : Text) (caret : Nat) (front typed : List Char) : Option Completions → Prop
  | none => ∀ word, word ∉ offered script text caret (.ofChars typed)
  | some found => found.start = (encode front).length ∧ found.stop = caret ∧ found.words ≠ [] ∧
    Firsts maxCandidates (candidate '' offered script text caret (.ofChars typed))
      (found.words.map candidate)

/-- What a completion promises at a caret. -/
structure Completes (text : Text) (caret : Nat) (answer : Option Completions) : Prop where
  asked : ∀ front typed back, Typed script text caret front typed back →
    Answers script text caret front typed answer
  silent : (∀ front typed back, ¬Typed script text caret front typed back) → answer = none

variable {script} {text : Text} {caret : Nat} {front typed back : List Char} {word : Str}

theorem encode_ofChars (chars : List Char) : (Str.ofChars chars).bytes = encode chars := rfl

theorem candidate_injective : Function.Injective candidate := fun _ _ same =>
    (Prod.mk.inj (toLex.injective same)).2

theorem mem_words {body : Str} : word ∈ words script body ↔
    IsWhole script body.bytes word ∧ minPrefix ≤ word.len ∧ startsWithDigit word = false := by
  unfold words IsWhole
  rw [mem_filter, List.mem_map]
  simp only [mem_splitOnP, Bool.and_eq_true, decide_eq_true_eq, Bool.not_eq_true', ge_iff_le]
  constructor
  · rintro ⟨⟨run, ⟨front, back, runs⟩, rfl⟩, rest⟩
    exact ⟨⟨front, run, back, rfl, runs⟩, rest⟩
  · rintro ⟨⟨front, run, back, rfl, runs⟩, rest⟩
    exact ⟨⟨run, ⟨front, back, runs⟩, rfl⟩, rest⟩

theorem goesOn_len {typed : Str} (more : goesOn typed word = true) : typed.len < word.len := by
  unfold goesOn at more
  rw [Bool.and_eq_true, decide_eq_true_eq] at more
  exact more.1

/-- The bounded set keeps the first of what the window holds. -/
theorem found_firsts {typed : Str} (long : minPrefix ≤ typed.len) : Firsts maxCandidates
    (candidate '' scanned script text caret typed)
    (found script typed (text.slice (.new (window text caret).1 (window text caret).2))) := by
  have firsts : Firsts maxCandidates _ (found script typed (text.slice (.new _ _))) :=
    Firsts.nil.foldl_keep
    (((words script (text.slice (.new (window text caret).1 (window text caret).2))).filter
    (goesOn typed)).map
      candidate)
  have same : candidate '' scanned script text caret typed = ∅ ∪ {item | item ∈ ((words script
      (text.slice (.new (window text caret).1 (window text caret).2))).filter (goesOn typed)).map
      candidate} := by
    ext item
    simp only [Set.empty_union, Set.mem_ofPred_eq, List.mem_map, mem_filter, mem_words, Set.mem_image]
    constructor
    · rintro ⟨word, ⟨whole, more, name⟩, rfl⟩
      exact ⟨word, ⟨⟨whole, Nat.le_trans long (Nat.le_of_lt (goesOn_len more)), name⟩, more⟩, rfl⟩
    · rintro ⟨word, ⟨⟨whole, _, name⟩, more⟩, rfl⟩
      exact ⟨word, ⟨whole, more, name⟩, rfl⟩
  rw [same]
  exact firsts

theorem prefix_of_encode_le {first second whole : List Char} (one : first <+: whole)
    (other : second <+: whole) (order : (encode first).length ≤ (encode second).length) :
    first <+: second := by
  rcases prefix_or_prefix_of_prefix one other with here | ⟨more, rfl⟩
  · exact here
  · rw [encode_append, length_append] at order
    have none_ : more.length = 0 := by
      have size := length_le_encode more
      omega
    exact ⟨[], by rw [append_nil, eq_nil_of_length_eq_zero none_, append_nil]⟩

/-- A word of the buffer inside the window is one of the window's words. -/
theorem offered_subset (inside : caret ≤ text.len) (typed : Str) :
    offered script text caret typed ⊆ scanned script text caret typed := by
  rintro word ⟨⟨front, run, back, rfl, runs, after, before⟩, more⟩
  refine ⟨?_, more⟩
  obtain ⟨lead, middle, trail, whole, first, last, slice⟩ := window_cut inside
  have parts := runs.parts
  rw [whole] at runs parts
  rw [← first] at after
  rw [← last] at before
  obtain ⟨front', rfl⟩ : lead <+: front := prefix_of_encode_le (append_assoc lead middle trail ▸
    prefix_append lead (middle ++ trail)) (parts ▸ append_assoc front run back ▸
      prefix_append front (run ++ back)) after
  obtain ⟨back', shape⟩ : lead ++ front' ++ run <+: lead ++ middle :=
    prefix_of_encode_le (parts ▸ prefix_append _ back) (prefix_append _ trail) before
  have rest : back = back' ++ trail := by
    rw [← shape, append_assoc (lead ++ front' ++ run)] at parts
    exact (append_cancel_left parts).symm
  rw [rest] at runs
  refine ⟨front', run, back', rfl, ?_⟩
  rw [slice]
  exact runs.narrow

/-- Where the span of a word ends and starts, read over the characters around the caret. -/
theorem wordSpan_split {behind ahead : List Char} (here : Split text.bytes.bytes caret behind ahead)
    (touches : Movement.isWord script ahead.head? = true ∨ Movement.isWord script behind.head? =
      true) :
    Split text.bytes.bytes (Movement.wordSpan script text caret).1
        (behind.dropWhile (Movement.isWordChar script))
        ((behind.takeWhile (Movement.isWordChar script)).reverse ++ ahead) ∧
      Split text.bytes.bytes (Movement.wordSpan script text caret).2
        ((ahead.takeWhile (Movement.isWordChar script)).reverse ++ behind)
        (ahead.dropWhile (Movement.isWordChar script)) := by
  have inside : min caret text.len = caret := Nat.min_eq_left here.isBoundary.1
  have open_ : Movement.wordSpan script text caret =
      (Movement.skipWordBack script text.bytes.bytes text.len caret,
        Movement.skipWord script text.bytes.bytes text.len caret) := by
    unfold Movement.wordSpan
    simp only [inside, here.charAt, here.charBefore]
    rcases touches with within | touching
    · rw [within]
      rfl
    · rw [touching]
      cases Movement.isWord script ahead.head? <;> rfl
  rw [open_]
  exact ⟨Movement.skipWordBack_split script here here.behind_le, Movement.skipWord_split script here
    here.ahead_le⟩

theorem wordSpan_gap {behind ahead : List Char} (here : Split text.bytes.bytes caret behind ahead)
    (gap : Movement.isWord script ahead.head? = false)
    (apart : Movement.isWord script behind.head? = false) :
    Movement.wordSpan script text caret = (caret, caret) := by
  have inside : min caret text.len = caret := Nat.min_eq_left here.isBoundary.1
  unfold Movement.wordSpan
  simp only [inside, here.charAt, here.charBefore, gap, apart, Bool.not_false, Bool.and_false,
    Bool.and_self, if_true]

theorem slice_typed (parts : text.bytes.bytes = encode (front ++ typed ++ back)) :
    text.slice (.new (encode front).length (encode (front ++ typed)).length) = .ofChars typed := by
  have first : text.bytes.IsBoundary (encode front).length := by
    apply Str.isBoundary_seam _ (valid_encode (typed ++ back))
    rw [parts, append_assoc, encode_append]
  have last : text.bytes.IsBoundary (encode (front ++ typed)).length := by
    apply Str.isBoundary_seam _ (valid_encode back)
    rw [parts, encode_append]
  have order : (encode front).length ≤ (encode (front ++ typed)).length := by
    rw [encode_append, length_append]
    exact Nat.le_add_right _ _
  rw [Range.new_of_le order]
  ext1
  rw [Text.slice_bytes first last]
  simp only [parts]
  rw [encode_append (front ++ typed), take_left, encode_append, drop_left, encode_ofChars]

section Asked

variable (asked : Typed script text caret front typed back)
include asked

theorem Typed.parts : text.bytes.bytes = encode (front ++ typed ++ back) := by
  rw [← asked.run.parts, encode_decode text.bytes.valid]

theorem Typed.split : Split text.bytes.bytes caret (front ++ typed).reverse back where
  bytes_eq := by rw [asked.parts, reverse_reverse, encode_append]
  offset_eq := by rw [reverse_reverse, asked.ends]

theorem Typed.inside : caret ≤ text.len := asked.split.isBoundary.1

theorem Typed.span : Movement.wordSpan script text caret = ((encode front).length, caret) := by
  have touches : Movement.isWord script (front ++ typed).reverse.head? = true := by
    have some_ : typed ≠ [] := by
      rintro rfl
      exact absurd asked.long (by decide)
    rw [head?_reverse, getLast?_append_of_ne_nil _ some_, getLast?_eq_some_getLast some_]
    exact asked.run.all _ (getLast_mem some_)
  obtain ⟨first, last⟩ := wordSpan_split asked.split (.inr touches)
  have start := first.offset_eq
  have stop := last.offset_eq
  rw [asked.run.dropWhile_behind, reverse_reverse] at start
  rw [asked.run.takeWhile_ahead, reverse_nil, nil_append, reverse_reverse, asked.ends] at stop
  exact Prod.ext start stop

/-- A question asked is answered from what the window holds. -/
theorem completeAt_typed : completeAt script text caret =
    let found := found script (.ofChars typed)
      (text.slice (.new (window text caret).1 (window text caret).2))
    if found.isEmpty then none
    else some ⟨(encode front).length, caret, found.map fun candidate => (ofLex candidate).2⟩ := by
  have long : ¬caret - (encode front).length < minPrefix := by
    have size := asked.long
    rw [← asked.ends, encode_append, length_append]
    omega
  have slice : text.slice (.new (encode front).length caret) = .ofChars typed := by
    rw [← asked.ends]
    exact slice_typed asked.parts
  unfold completeAt
  simp only [asked.span, slice, asked.name, long, ne_eq, not_true_eq_false, or_self, if_false,
    Bool.false_eq_true]

end Asked

/-- A span that ends at the caret and is long enough asks a question. -/
theorem typed_of_span {start stop : Nat} {behind ahead : List Char}
    (here : Split text.bytes.bytes caret behind ahead)
    (first : Split text.bytes.bytes start (behind.dropWhile (Movement.isWordChar script))
      ((behind.takeWhile (Movement.isWordChar script)).reverse ++ ahead))
    (last : Split text.bytes.bytes stop
      ((ahead.takeWhile (Movement.isWordChar script)).reverse ++ behind)
      (ahead.dropWhile (Movement.isWordChar script)))
    (ends : stop = caret) (long : minPrefix ≤ caret - start)
    (name : startsWithDigit (text.slice (.new start caret)) = false) :
    Typed script text caret (behind.dropWhile (Movement.isWordChar script)).reverse
      (behind.takeWhile (Movement.isWordChar script)).reverse ahead := by
  have whole : (behind.dropWhile (Movement.isWordChar script)).reverse ++
      (behind.takeWhile (Movement.isWordChar script)).reverse = behind.reverse := by
    rw [← reverse_append, takeWhile_append_dropWhile]
  have parts : text.bytes.bytes = encode ((behind.dropWhile (Movement.isWordChar script)).reverse ++
      (behind.takeWhile (Movement.isWordChar script)).reverse ++ ahead) := by
    rw [whole, encode_append, ← here.bytes_eq]
  have caret_eq : (encode ((behind.dropWhile (Movement.isWordChar script)).reverse ++
      (behind.takeWhile (Movement.isWordChar script)).reverse)).length = caret := by
    rw [whole, ← here.offset_eq]
  have slice := slice_typed parts
  rw [caret_eq, ← first.offset_eq] at slice
  have stops : (ahead.takeWhile (Movement.isWordChar script)).length = 0 := by
    have reach := last.offset_eq
    rw [reverse_append, reverse_reverse, encode_append, length_append,
      ends, ← here.offset_eq] at reach
    have size := length_le_encode (ahead.takeWhile (Movement.isWordChar script))
    omega
  refine ⟨⟨?_, ?_, ?_, ?_⟩, caret_eq, ?_, ?_⟩
  · rw [parts, decode_encode]
  · exact fun item listed => mem_takeWhile_imp (mem_reverse.mp listed)
  · intro item final
    rw [getLast?_reverse] at final
    exact (run_takeWhile behind).after item final
  · intro item next
    cases ahead with
    | nil => cases next
    | cons other rest =>
      obtain rfl := Option.some.inj next
      rw [← Bool.not_eq_true]
      intro word
      rw [takeWhile_cons_of_pos word] at stops
      cases stops
  · have reach := first.offset_eq
    rw [← caret_eq, encode_append, length_append, ← reach, Nat.add_sub_cancel_left] at long
    exact long
  · rw [← slice]
    exact name

/-- A question not asked has no answer. -/
theorem completeAt_silent (boundary : text.bytes.IsBoundary caret)
    (silent : ∀ front typed back, ¬Typed script text caret front typed back) :
    completeAt script text caret = none := by
  obtain ⟨behind, ahead, here⟩ := Split.of_boundary boundary
  unfold completeAt
  by_cases touches : Movement.isWord script ahead.head? = true ∨
    Movement.isWord script behind.head? = true
  · obtain ⟨first, last⟩ := wordSpan_split here touches
    simp only
    by_cases short : (Movement.wordSpan script text caret).2 ≠ caret ∨
        caret - (Movement.wordSpan script text caret).1 < minPrefix
    · exact if_pos short
    rw [if_neg short]
    by_cases number : startsWithDigit (text.slice (.new (Movement.wordSpan script text caret).1
      caret)) = true
    · exact if_pos number
    rw [not_or, not_not, Nat.not_lt] at short
    exact absurd (typed_of_span here first last short.1 short.2 (Bool.eq_false_iff.mpr number))
      (silent _ _ _)
  · rw [not_or, Bool.not_eq_true, Bool.not_eq_true] at touches
    rw [wordSpan_gap here touches.1 touches.2]
    simp only [Nat.sub_self]
    exact if_pos (.inr (by decide))

/-- The answer is the first of the buffer's words when each word cut by the window comes after
enough of them. -/
theorem answers_iff (asked : Typed script text caret front typed back) :
    Answers script text caret front typed (completeAt script text caret) ↔
      ∀ piece ∈ scanned script text caret (.ofChars typed),
      piece ∉ offered script text caret (.ofChars typed) →
        Preceded maxCandidates (candidate '' offered script text caret (.ofChars typed))
        (candidate piece) := by
  have within : offered script text caret (.ofChars typed) ⊆ scanned script text caret
      (.ofChars typed) :=
    offered_subset asked.inside _
  have firsts : Firsts maxCandidates (candidate '' scanned script text caret (.ofChars typed))
      (found script (.ofChars typed)
      (text.slice (.new (window text caret).1 (window text caret).2))) :=
    found_firsts asked.long
  rw [completeAt_typed asked]
  generalize found script (.ofChars typed) (text.slice (.new (window text caret).1
    (window text caret).2)) = found
    at firsts
  have narrow := firsts.narrow_iff (Set.image_mono within)
  have words : (found.map fun candidate => (ofLex candidate).2).map candidate = found := by
    rw [map_map]
    conv_rhs => rw [← map_id found]
    apply map_congr_left
    intro item listed
    obtain ⟨word, _, rfl⟩ := firsts.mem item listed
    rfl
  cases found with
  | nil =>
    -- An empty answer means that the window holds nothing that goes on.
    have none_ : ∀ piece, piece ∉ scanned script text caret (.ofChars typed) := by
      intro piece there
      have full := (firsts.rest (candidate piece) ⟨piece, there, rfl⟩ not_mem_nil).1
      cases full
    exact ⟨fun _ piece there => absurd there (none_ piece), fun _ word there =>
      none_ word (within there)⟩
  | cons first rest =>
    have answer : Answers script text caret front typed
        (some ⟨(encode front).length, caret, (first :: rest).map fun candidate =>
        (ofLex candidate).2⟩) ↔
          Firsts maxCandidates (candidate '' offered script text caret (.ofChars typed))
          (first :: rest) := by
      simp only [Answers, words, true_and]
      exact and_iff_right (cons_ne_nil _ _)
    refine answer.trans (narrow.trans ?_)
    constructor
    · intro all piece there outside
      apply all (candidate piece) ⟨piece, there, rfl⟩
      rintro ⟨word, listed, same⟩
      exact outside (candidate_injective same ▸ listed)
    · rintro all item ⟨piece, there, rfl⟩ outside
      exact all piece there fun listed => outside ⟨piece, listed, rfl⟩

theorem completes_of_typed (boundary : text.bytes.IsBoundary caret) :
    Completes script text caret (completeAt script text caret) ↔ ∀ front typed back,
      Typed script text caret front typed back →
      Answers script text caret front typed (completeAt script text caret) :=
  ⟨Completes.asked, fun asked => ⟨asked, completeAt_silent boundary⟩⟩

/-- A window over the whole buffer cuts no word. -/
theorem scanned_subset (whole : window text caret = (0, text.len)) (inside : caret ≤ text.len)
    (typed : Str) : scanned script text caret typed ⊆ offered script text caret typed := by
  rintro word ⟨⟨front, run, back, rfl, runs⟩, more⟩
  obtain ⟨lead, middle, trail, parts, first, last, slice⟩ := window_cut inside
  rw [slice] at runs
  simp only [whole] at first last
  have none_ : lead = [] := by
    have size := length_le_encode lead
    exact eq_nil_of_length_eq_zero (by omega)
  have len : text.len = text.bytes.len := rfl
  have all : middle = decode text.bytes.bytes := by
    have size := congrArg (fun chars => (encode chars).length) parts
    have rest := length_le_encode trail
    simp only [encode_decode text.bytes.valid, encode_append (lead ++ middle), length_append, last,
      Str.length_bytes] at size
    rw [parts, none_, eq_nil_of_length_eq_zero (show trail.length = 0 by omega), append_nil,
      nil_append]
  rw [all] at runs
  refine ⟨⟨front, run, back, rfl, runs, ?_, ?_⟩, more⟩
  · rw [whole]
    exact Nat.zero_le _
  · have size := congrArg (fun chars => (encode chars).length) runs.parts
    simp only [encode_decode text.bytes.valid, encode_append (front ++ run), length_append,
      Str.length_bytes] at size
    rw [whole]
    have fits : (encode (front ++ run)).length ≤ text.bytes.len := by omega
    exact fits

/-- A completion offers the first of the buffer's words that go on from the prefix, unless a word
that an edge of the window cuts off comes before twelve of them. -/
theorem completes_iff (script : Script) {text : Text} {caret : Nat}
    (boundary : text.bytes.IsBoundary caret) :
    Completes script text caret (completeAt script text caret) ↔
      ∀ front typed back, Typed script text caret front typed back →
        ∀ piece ∈ scanned script text caret (.ofChars typed),
        piece ∉ offered script text caret (.ofChars typed) →
          Preceded maxCandidates (candidate '' offered script text caret (.ofChars typed))
          (candidate piece) := by
  rw [completes_of_typed boundary]
  constructor
  · exact fun answers front typed back asked =>
      (answers_iff asked).mp (answers front typed back asked)
  · exact fun late front typed back asked => (answers_iff asked).mpr (late front typed back asked)

/-- A short text with a word to finish. -/
def totals : Text :=
  .new (.ofChars ['t', 'o', 't', 'a', 'l', ' ', 't', 'o', 't', 'a', 'l', 's', ' ', 't', 'o'])

theorem completes_iff_totals : totals.bytes.IsBoundary 15 ∧
    Completes Movement.asciiScript totals 15 (completeAt Movement.asciiScript totals 15) := by
  have boundary : totals.bytes.IsBoundary 15 := by decide
  refine ⟨boundary, (completes_iff Movement.asciiScript boundary).mpr ?_⟩
  intro front typed back _ piece there outside
  exact absurd (scanned_subset (by decide +kernel) boundary.1 _ there) outside

end Spec

section Far

open Movement (asciiScript)

/-- The window around the first word ends inside the last one. -/
def farChars (gap : Nat) : List Char :=
  'a' :: 'b' :: (List.replicate (gap + 1) ' ' ++ ['a', 'b', 'c', 'd', 'e', 'f'])

@[irreducible] def farWord : Text := .new (.ofChars (farChars 262140))

theorem splitOnP_gap (gap : Nat) (rest : List Char) :
    ((List.replicate gap ' ' ++ rest).splitOnP fun c => !Movement.isWordChar asciiScript c) =
      List.replicate gap [] ++ rest.splitOnP fun c => !Movement.isWordChar asciiScript c := by
  induction gap with
  | zero => rfl
  | succ gap ih =>
    rw [replicate_succ, cons_append, splitOnP_cons_eq_if_modifyHead, if_pos (by decide), ih]
    rfl

theorem splitOnP_farChars (gap : Nat) :
    ((farChars gap).splitOnP fun c => !Movement.isWordChar asciiScript c) = ['a', 'b'] ::
      (List.replicate gap [] ++ [['a', 'b', 'c', 'd', 'e', 'f']]) := by
  have last : (['a', 'b', 'c', 'd', 'e', 'f'].splitOnP fun c => !Movement.isWordChar asciiScript c) =
      [['a', 'b', 'c', 'd', 'e', 'f']] := by decide
  rw [farChars, splitOnP_cons_eq_if_modifyHead, if_neg (by decide), splitOnP_cons_eq_if_modifyHead,
    if_neg (by decide), splitOnP_gap, last, replicate_succ]
  rfl

theorem length_gap (gap : Nat) : (encode (List.replicate gap ' ')).length = gap := by
  induction gap with
  | zero => rfl
  | succ gap ih =>
    rw [replicate_succ, encode_cons, length_append, ih]
    exact Nat.add_comm _ _

theorem farWord_bytes : farWord.bytes.bytes = encode (farChars 262140) := by
  unfold farWord
  rfl

theorem farWord_prefix : Typed asciiScript farWord 2 [] ['a', 'b']
    (List.replicate 262141 ' ' ++ ['a', 'b', 'c', 'd', 'e', 'f']) where
  run := by
    refine ⟨?_, all_eq_true.mp (by decide), (fun _ never => by cases never), ?_⟩
    · rw [farWord_bytes, decode_encode]
      rfl
    · intro item next
      rw [replicate_succ] at next
      obtain rfl := Option.some.inj next
      decide
  ends := by decide
  long := by decide
  name := by decide

/-- The characters of the window around the first word. -/
theorem farWord_slice :
    decode (farWord.slice (.new (window farWord 2).1 (window farWord 2).2)).bytes = 'a' :: 'b' ::
      (List.replicate 262141 ' ' ++ ['a', 'b', 'c']) := by
  have parts : farWord.bytes.bytes =
      encode ('a' :: 'b' :: (List.replicate 262141 ' ' ++ ['a', 'b', 'c'])) ++ encode
      ['d', 'e', 'f'] := by
    rw [farWord_bytes, ← encode_append, farChars, cons_append, cons_append, append_assoc]
    rfl
  have size : (encode ('a' :: 'b' :: (List.replicate 262141 ' ' ++ ['a', 'b', 'c']))).length =
      262146 := by
    rw [encode_cons, encode_cons, encode_append, length_append, length_append, length_append,
      length_gap]
    rfl
  have whole : farWord.len = 262149 := by
    rw [Text.len, Str.len, parts, length_append, size]
    rfl
  have boundary : isCharBoundary farWord.bytes.bytes 262146 = true := by
    rw [← size]
    exact (Str.isBoundary_seam parts (valid_encode _)).2
  have ends : window farWord 2 = (0, 262146) := by
    unfold window
    rw [whole]
    exact Prod.ext rfl (ceilBoundary_of_isCharBoundary boundary)
  have slice := @slice_typed farWord [] _ ['d', 'e', 'f'] (parts.trans (encode_append _ _).symm)
  rw [nil_append, size] at slice
  rw [ends]
  exact (congrArg (fun body : Str => decode body.bytes) slice).trans (decode_encode _)

/-- A word that the window cuts short is offered, and the buffer has no such word. -/
theorem not_completes : farWord.bytes.IsBoundary 2 ∧
    ¬Completes asciiScript farWord 2 (completeAt asciiScript farWord 2) := by
  have asked := farWord_prefix
  refine ⟨asked.split.isBoundary, fun completes => ?_⟩
  have late := (answers_iff asked).mp (completes.asked _ _ _ asked)
  have among {word : Str} (there : word ∈ offered asciiScript farWord 2 (.ofChars ['a', 'b'])) :
      word = .ofChars ['a', 'b', 'c', 'd', 'e', 'f'] := by
    obtain ⟨⟨front, run, back, rfl, runs, _⟩, more, _⟩ := there
    rw [farWord_bytes, decode_encode] at runs
    have listed := mem_splitOnP.mpr ⟨front, back, runs⟩
    rw [splitOnP_farChars, mem_cons, mem_append, mem_singleton] at listed
    rcases listed with rfl | gap | rfl
    · exact absurd more (by decide)
    · rw [eq_of_mem_replicate gap] at more
      exact absurd more (by decide)
    · rfl
  have piece : Str.ofChars ['a', 'b', 'c'] ∈ scanned asciiScript farWord 2 (.ofChars ['a', 'b']) := by
    refine ⟨⟨'a' :: 'b' :: List.replicate 262141 ' ', ['a', 'b', 'c'], [], rfl, ?_, all_eq_true.mp
      (by decide), ?_, ?_⟩, by decide, by decide⟩
    · rw [farWord_slice, append_nil]
      rfl
    · intro item last
      rw [getLast?_cons_cons, getLast?_cons, getLast?_replicate, if_neg (by decide)] at last
      obtain rfl := Option.some.inj last
      decide
    · intro item never
      cases never
  obtain ⟨ahead, _, size, before⟩ := late _ piece (fun there => absurd (among there) (by decide))
  cases ahead with
  | nil => cases size
  | cons other rest =>
    obtain ⟨⟨word, there, rfl⟩, earlier⟩ := before other mem_cons_self
    rw [among there] at earlier
    exact absurd earlier (by decide)

end Far

end Complete

end ForgeNode.Editor
