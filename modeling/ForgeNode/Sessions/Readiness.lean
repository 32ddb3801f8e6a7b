import Mathlib.Data.List.Basic

/-! An action is ready once its output shows a text, however the output is cut into batches. -/

namespace ForgeNode.Readiness

open List

def tailBytes : Nat := 4096

inductive Escape where
  | text | esc | intermediate | csi | osc | str | strEsc
  deriving DecidableEq

inductive Scan where
  | pending | ready (url : Option String) | timedOut
  deriving DecidableEq

/-- What `String::from_utf8_lossy` and the classes of Unicode say. -/
structure Unicode where
  fromUtf8Lossy : List UInt8 → List Char
  isWhitespace : Char → Bool
  isControl : Char → Bool

structure OutputWatch where
  needle : List UInt8
  port : Option Nat
  deadline : Nat
  tail : List UInt8
  escape : Escape

namespace OutputWatch

def new (pattern : List UInt8) (timeoutSecs : Nat) (port : Option Nat) (now : Nat) : OutputWatch :=
  { needle := pattern, port, deadline := now + timeoutSecs, tail := [], escape := .text }

end OutputWatch

/-- `u8::to_ascii_lowercase`. -/
def toAsciiLowercase (byte : UInt8) : UInt8 := if 65 ≤ byte ∧ byte ≤ 90 then byte + 32 else byte

def eqIgnoreAsciiCase (first second : List UInt8) : Bool :=
  first.map toAsciiLowercase == second.map toAsciiLowercase

/-- The state behind a byte. -/
def next : Escape → UInt8 → Escape
  | .text, byte => if byte = 0x1b then .esc else .text
  | .esc, byte =>
    if byte = 91 then .csi
    else if byte = 93 then .osc
    else if byte = 80 ∨ byte = 88 ∨ byte = 94 ∨ byte = 95 then .str
    else if 0x20 ≤ byte ∧ byte ≤ 0x2f then .intermediate
    else .text
  | .intermediate, byte => if 0x20 ≤ byte ∧ byte ≤ 0x2f then .intermediate else .text
  | .csi, byte => if 0x40 ≤ byte ∧ byte ≤ 0x7e then .text else .csi
  | .osc, byte => if byte = 0x07 then .text else if byte = 0x1b then .strEsc else .osc
  | .str, byte => if byte = 0x1b then .strEsc else .str
  | .strEsc, _ => .text

/-- Whether a byte is output text. -/
def shown : Escape → UInt8 → Bool
  | .text, byte => byte != 0x1b && byte != 13
  | _, _ => false

/-- Feed bytes into the kept tail. -/
def feed (tail : List UInt8) (escape : Escape) : List UInt8 → List UInt8 × Escape
  | [] => (tail, escape)
  | byte :: bytes =>
    feed (if shown escape byte then tail ++ [byte] else tail) (next escape byte) bytes

/-- `windows(size)`, for a size that is not zero. -/
def windows (bytes : List UInt8) (size : Nat) : List (List UInt8) :=
  (List.range (bytes.length + 1 - size)).map fun at_ => (bytes.drop at_).take size

def localhost (port : Nat) : String := "http://localhost:" ++ toString port

/-- Where a text first stands in another. -/
def find (text : List Char) : List Char → Option Nat
  | [] => if text = [] then some 0 else none
  | first :: rest => if text.isPrefixOf (first :: rest) then some 0 else (find text rest).map (· + 1)

namespace OutputWatch

variable (unicode : Unicode) (watch : OutputWatch)

/-- The first `http(s)://` URL on the line holding the match. -/
def urlNear (tail : List UInt8) (at_ : Nat) : Option String :=
  let start := at_ - ((tail.take at_).reverse.takeWhile (· != 10)).length
  let end_ := at_ + ((tail.drop at_).takeWhile (· != 10)).length
  let line := unicode.fromUtf8Lossy ((tail.take end_).drop start)
  match (find "http://".toList line).or (find "https://".toList line) with
  | none => none
  | some begin_ =>
    let url := (line.drop begin_).takeWhile fun c => !unicode.isWhitespace c && !unicode.isControl c
    let url := (url.reverse.dropWhile fun c => ['.', ',', ')', ']', '\'', '"'].contains c).reverse
    if (String.ofList url).utf8ByteSize > 7 then some (String.ofList url) else none

/-- Feed one batch; `none` is the panic of `windows(0)`. -/
def scan (bytes : List UInt8) (now : Nat) : Option (Scan × OutputWatch) :=
  let from_ := watch.tail.length - (watch.needle.length - 1)
  let (tail, escape) := feed watch.tail watch.escape bytes
  if watch.needle = [] then none
  else
    match ((windows (tail.drop (min from_ tail.length)) watch.needle.length).findIdx?
        fun window => eqIgnoreAsciiCase window watch.needle).map (· + from_) with
    | some at_ =>
      some (.ready ((urlNear unicode tail at_).or (watch.port.map localhost)),
        { watch with tail, escape })
    | none =>
      let tail := if tail.length > tailBytes then tail.drop (tail.length - tailBytes) else tail
      some (if now ≥ watch.deadline then .timedOut else .pending, { watch with tail, escape })

/-- The answers to batches, up to the first that settles the action. -/
def scanAll (watch : OutputWatch) : List (List UInt8 × Nat) → Option (List Scan)
  | [] => some []
  | (bytes, now) :: rest =>
    match watch.scan unicode bytes now with
    | none => none
    | some (.pending, watch) => (scanAll watch rest).map (.pending :: ·)
    | some (answer, _) => some [answer]

end OutputWatch

/-- A byte that stands between the escape character and the end of a short sequence. -/
def Intermediate (byte : UInt8) : Prop := 0x20 ≤ byte ∧ byte ≤ 0x2f

/-- A byte that ends a control sequence. -/
def Final (byte : UInt8) : Prop := 0x40 ≤ byte ∧ byte ≤ 0x7e

instance (byte : UInt8) : Decidable (Intermediate byte) := inferInstanceAs (Decidable (_ ∧ _))

instance (byte : UInt8) : Decidable (Final byte) := inferInstanceAs (Decidable (_ ∧ _))

/-- A whole escape sequence: short, with intermediates, control, or a string up to its
terminator. -/
inductive Sequence : List UInt8 → Prop where
  | short {last : UInt8} : last ∉ [91, 93, 80, 88, 94, 95] → ¬ Intermediate last →
      Sequence [0x1b, last]
  | spaced {first last : UInt8} {between : List UInt8} : Intermediate first →
      (∀ byte ∈ between, Intermediate byte) → ¬ Intermediate last →
        Sequence (0x1b :: first :: between ++ [last])
  | control {last : UInt8} {parameters : List UInt8} : (∀ byte ∈ parameters, ¬ Final byte) →
      Final last → Sequence (0x1b :: 91 :: parameters ++ [last])
  | command {body : List UInt8} : (∀ byte ∈ body, byte ≠ 0x07 ∧ byte ≠ 0x1b) →
      Sequence (0x1b :: 93 :: body ++ [0x07])
  | commandEsc {last : UInt8} {body : List UInt8} : (∀ byte ∈ body, byte ≠ 0x07 ∧ byte ≠ 0x1b) →
      Sequence (0x1b :: 93 :: body ++ [0x1b, last])
  | string {introducer last : UInt8} {body : List UInt8} : introducer ∈ [80, 88, 94, 95] →
      (∀ byte ∈ body, byte ≠ 0x1b) → Sequence (0x1b :: introducer :: body ++ [0x1b, last])

/-- The text of a stream: what is left without sequences, carriage returns and a sequence the stream
ends within. -/
inductive Strips : List UInt8 → List UInt8 → Prop where
  | done : Strips [] []
  | text {byte : UInt8} {rest text : List UInt8} : byte ≠ 0x1b → byte ≠ 13 → Strips rest text →
      Strips (byte :: rest) (byte :: text)
  | carriageReturn {rest text : List UInt8} : Strips rest text → Strips (13 :: rest) text
  | sequence {sequence rest text : List UInt8} : Sequence sequence → Strips rest text →
      Strips (sequence ++ rest) text
  | cut {stream more : List UInt8} : stream ≠ [] → more ≠ [] → Sequence (stream ++ more) →
      Strips stream []

/-- What the loop keeps of a stream, and the state behind it. -/
def stripped (escape : Escape) (stream : List UInt8) : List UInt8 := (feed [] escape stream).1

def behind (escape : Escape) (stream : List UInt8) : Escape := (feed [] escape stream).2

/-- The text shows the needle, up to ASCII case. -/
def Contains (needle text : List UInt8) : Prop :=
  ∃ before window after, text = before ++ window ++ after ∧ eqIgnoreAsciiCase window needle = true

/-- The text of a stream shows the needle. -/
def Shows (needle stream : List UInt8) : Prop := ∃ text, Strips stream text ∧ Contains needle text

section Stripping

theorem feed_eq (tail : List UInt8) (escape : Escape) (bytes : List UInt8) :
    feed tail escape bytes = (tail ++ stripped escape bytes, behind escape bytes) := by
  induction bytes generalizing tail escape with
  | nil => simp [feed, stripped, behind]
  | cons byte bytes ih =>
    simp only [feed, stripped, behind]
    rw [ih, ih (if shown escape byte = true then [] ++ [byte] else [])]
    split <;> simp

theorem feed_append (tail : List UInt8) (escape : Escape) (first second : List UInt8) :
    feed tail escape (first ++ second) = feed (feed tail escape first).1 (feed tail escape first).2
    second := by
  induction first generalizing tail escape with
  | nil => rfl
  | cons byte first ih => exact ih _ _

theorem stripped_append (escape : Escape) (first second : List UInt8) :
    stripped escape (first ++ second) = stripped escape first ++ stripped (behind escape first)
    second := by
  rw [stripped, feed_append, feed_eq]
  rfl

theorem behind_append (escape : Escape) (first second : List UInt8) :
    behind escape (first ++ second) = behind (behind escape first) second := by
  rw [behind, feed_append, feed_eq]
  rfl

end Stripping

section Grammar

/-- Bytes that show nothing, and the state behind them. -/
def Passes (escape : Escape) (bytes : List UInt8) (after : Escape) : Prop :=
  feed [] escape bytes = ([], after)

theorem Passes.append {escape middle after : Escape} {first second : List UInt8}
    (front : Passes escape first middle) (back : Passes middle second after) :
    Passes escape (first ++ second) after := by
  rw [Passes, feed_append, show feed [] escape first = _ from front]
  exact back

theorem Passes.one {escape : Escape} {byte : UInt8} (hidden : shown escape byte = false) :
    Passes escape [byte] (next escape byte) := by
  simp [Passes, feed, hidden]

theorem Passes.cons {escape after : Escape} {byte : UInt8} {bytes : List UInt8}
    (hidden : shown escape byte = false) (rest : Passes (next escape byte) bytes after) :
    Passes escape (byte :: bytes) after := (one hidden).append rest

theorem Passes.run {escape : Escape} {bytes : List UInt8}
    (hidden : ∀ byte ∈ bytes, shown escape byte = false)
    (stays : ∀ byte ∈ bytes, next escape byte = escape) : Passes escape bytes escape := by
  induction bytes with
  | nil => rfl
  | cons byte bytes ih =>
    have rest := ih (fun other there => hidden other (mem_cons_of_mem _ there)) fun other there =>
      stays other (mem_cons_of_mem _ there)
    refine .cons (hidden byte mem_cons_self) ?_
    rw [stays byte mem_cons_self]
    exact rest

theorem run_command {body : List UInt8} (inside : ∀ byte ∈ body, byte ≠ 0x07 ∧ byte ≠ 0x1b) :
    Passes .osc body .osc :=
  .run (fun _ _ => rfl) fun byte there => by simp [next, inside byte there]

theorem Sequence.passes {sequence : List UInt8} (whole : Sequence sequence) :
    Passes .text sequence .text := by
  cases whole with
  | short introduces between =>
    simp only [mem_cons, not_mem_nil, or_false, not_or] at introduces
    refine .cons rfl (.cons rfl ?_)
    simp_all [next, Passes, feed, Intermediate]
  | @spaced first last between opens inside ends =>
    have run : Passes .intermediate between .intermediate := .run (fun _ _ => rfl) fun byte there =>
      if_pos (inside byte there)
    refine .cons rfl (.append (.cons rfl ?_) (?_ : Passes .intermediate [last] .text))
    · rw [show next (next .text 0x1b) first = .intermediate from ?_]
      · exact run
      · have other : first ≠ 91 ∧ first ≠ 93 ∧ ¬ (first = 80 ∨ first = 88 ∨ first = 94 ∨
            first = 95) := by
          unfold Intermediate at opens
          refine ⟨?_, ?_, ?_⟩
          · rintro rfl; revert opens; decide
          · rintro rfl; revert opens; decide
          · rintro (rfl | rfl | rfl | rfl) <;> revert opens <;> decide
        show next .esc first = _
        simp [next, other]
        exact opens
    · refine .cons rfl ?_
      rw [show next .intermediate last = .text from if_neg ends]
      rfl
  | @control last parameters inside ends =>
    have run : Passes .csi parameters .csi := .run (fun _ _ => rfl) fun byte there =>
      if_neg (inside byte there)
    refine .cons rfl (.append (.cons rfl run) (.cons rfl ?_))
    rw [show next .csi last = .text from if_pos ends]
    rfl
  | command inside =>
    exact .cons rfl (.append (.cons rfl (run_command inside)) rfl)
  | @commandEsc last body inside =>
    have ends : Passes .osc [0x1b, last] .text := rfl
    exact .cons rfl (.append (.cons rfl (run_command inside)) ends)
  | @string introducer last body introduces inside =>
    have run : Passes .str body .str := .run (fun _ _ => rfl) fun byte there =>
      if_neg (inside byte there)
    simp only [mem_cons, not_mem_nil, or_false] at introduces
    have ends : Passes .str [0x1b, last] .text := rfl
    refine .cons rfl (.append (.cons rfl ?_) ends)
    rw [show next (next .text 0x1b) introducer =
      .str by rcases introduces with rfl | rfl | rfl | rfl <;> rfl]
    exact run

theorem Passes.strips {escape after : Escape} {bytes : List UInt8}
    (passes : Passes escape bytes after) :
    stripped escape bytes = [] ∧ behind escape bytes = after :=
  Prod.ext_iff.mp passes

/-- Each stream has at most one text: the loop's. -/
theorem Strips.eq {stream text : List UInt8} (strips : Strips stream text) :
    text = stripped .text stream := by
  induction strips with
  | done => rfl
  | @text byte rest text escape return_ _ ih =>
    rw [← singleton_append, ← singleton_append (l := rest), stripped_append, ih]
    simp [stripped, behind, feed, shown, next, escape, return_]
  | @carriageReturn rest text _ ih =>
    rw [ih]
    exact (stripped_append .text [13] rest).symm
  | @sequence sequence rest text whole _ ih =>
    obtain ⟨shows, ends⟩ := whole.passes.strips
    rw [stripped_append, shows, ends, ← ih]
    rfl
  | @cut stream more _ _ whole =>
    have shows := whole.passes.strips.1
    rw [stripped_append] at shows
    exact (append_eq_nil_iff.mp shows).1.symm

theorem first_or_none {kind : UInt8 → Prop} [DecidablePred kind] (bytes : List UInt8) :
    (∀ byte ∈ bytes, ¬ kind byte) ∨
      ∃ front byte back, bytes = front ++ byte :: back ∧ kind byte ∧ ∀ other ∈ front,
      ¬ kind other := by
  cases found : bytes.find? fun byte => decide (kind byte) with
  | none => exact .inl (by simpa using found)
  | some byte =>
    obtain ⟨holds, front, back, rfl, earlier⟩ := find?_eq_some_iff_append.mp found
    exact .inr ⟨front, byte, back, rfl, by simpa using holds, by simpa using earlier⟩

/-- What begins with the escape character is cut within a sequence, or begins with one. -/
theorem sequence_or_cut (bytes : List UInt8) :
    (∃ sequence rest, 0x1b :: bytes = sequence ++ rest ∧ Sequence sequence) ∨
      ∃ more, more ≠ [] ∧ Sequence (0x1b :: bytes ++ more) := by
  cases bytes with
  | nil => exact .inr ⟨[0x30], by simp, .short (by decide) (by decide)⟩
  | cons introducer bytes =>
    by_cases control : introducer = 91
    · subst control
      rcases @first_or_none Final _ bytes with inside | ⟨front, byte, back, rfl, ends, inside⟩
      · exact .inr ⟨[0x40], by simp, .control inside (by decide)⟩
      · exact .inl ⟨_, back, by simp, .control inside ends⟩
    by_cases command : introducer = 93
    · subst command
      rcases @first_or_none (fun byte => byte = 0x07 ∨ byte = 0x1b) _ bytes with
        inside | ⟨front, byte, back, rfl, rfl | rfl, inside⟩
      · exact .inr ⟨[0x07], by simp, .command fun byte there => not_or.mp (inside byte there)⟩
      · exact .inl ⟨_, back, by simp, .command fun byte there => not_or.mp (inside byte there)⟩
      · have plain := fun byte there => not_or.mp (inside byte there)
        cases back with
        | nil => exact .inr ⟨[0], by simp, by simpa using @Sequence.commandEsc 0 _ plain⟩
        | cons last back => exact .inl ⟨_, back, by simp, @Sequence.commandEsc last _ plain⟩
    by_cases string : introducer ∈ [80, 88, 94, 95]
    · rcases @first_or_none (fun byte => byte = 0x1b) _ bytes with inside | ⟨front, byte, back,
        rfl, rfl, inside⟩
      · exact .inr ⟨[0x1b, 0], by simp, .string string inside⟩
      · cases back with
        | nil => exact .inr ⟨[0], by simp, by simpa using @Sequence.string _ 0 _ string inside⟩
        | cons last back => exact .inl ⟨_, back, by simp, @Sequence.string _ last _ string inside⟩
    by_cases between : Intermediate introducer
    · rcases @first_or_none (fun byte => ¬ Intermediate byte) _ bytes with inside | ⟨front, byte,
        back, rfl, ends, inside⟩
      · exact .inr
          ⟨[0x30], by simp, .spaced between (fun byte there => not_not.mp (inside byte there)) (by decide)⟩
      · exact .inl
          ⟨_, back, by simp, .spaced between (fun byte there => not_not.mp (inside byte there)) ends⟩
    · refine .inl ⟨[0x1b, introducer], bytes, rfl, .short ?_ between⟩
      simp_all

/-- Each stream has a text. -/
theorem strips_stripped (stream : List UInt8) : Strips stream (stripped .text stream) := by
  induction size : stream.length using Nat.strongRecOn generalizing stream with
  | ind _ ih =>
    subst size
    suffices some_ : ∃ text, Strips stream text by
      obtain ⟨text, strips⟩ := some_
      exact strips.eq ▸ strips
    cases stream with
    | nil => exact ⟨_, .done⟩
    | cons byte rest =>
      have shorter := ih rest.length (Nat.lt_succ_self _) rest rfl
      by_cases escape : byte = 0x1b
      · subst escape
        rcases sequence_or_cut rest with ⟨sequence, rest', same, whole⟩ | ⟨more, some_, whole⟩
        · rw [same]
          refine ⟨_, .sequence whole (ih rest'.length ?_ rest' rfl)⟩
          have nonempty : sequence ≠ [] := by rintro rfl; cases whole
          have lengths := congrArg List.length same
          rw [length_append] at lengths
          have positive := length_pos_iff.mpr nonempty
          omega
        · exact ⟨_, .cut (cons_ne_nil _ _) some_ whole⟩
      · by_cases return_ : byte = 13
        · subst return_
          exact ⟨_, .carriageReturn shorter⟩
        · exact ⟨_, .text escape return_ shorter⟩

theorem strips_existsUnique (stream : List UInt8) : ∃! text, Strips stream text :=
  ⟨_, strips_stripped stream, fun _ strips => strips.eq⟩

theorem shows_iff {needle stream : List UInt8} :
    Shows needle stream ↔ Contains needle (stripped .text stream) := by
  constructor
  · rintro ⟨text, strips, contains⟩
    exact strips.eq ▸ contains
  · intro contains
    exact ⟨_, strips_stripped stream, contains⟩

end Grammar

section Search

variable {needle text : List UInt8}

theorem length_of_eqIgnoreAsciiCase {window : List UInt8}
    (same : eqIgnoreAsciiCase window needle = true) : window.length = needle.length := by
  have lengths := congrArg List.length (beq_iff_eq.mp same)
  rwa [length_map, length_map] at lengths

theorem mem_windows {size : Nat} {window : List UInt8} :
    window ∈ windows text size ↔ ∃ at_, at_ < text.length + 1 - size ∧ (text.drop at_).take size =
      window := by
  rw [windows, List.mem_map]
  simp only [mem_range]

theorem windows_any :
    (∃ window ∈ windows text needle.length, eqIgnoreAsciiCase window needle = true) ↔
    Contains needle text := by
  constructor
  · rintro ⟨window, member, same⟩
    obtain ⟨at_, -, rfl⟩ := mem_windows.mp member
    refine ⟨text.take at_, _, (text.drop at_).drop needle.length, ?_, same⟩
    rw [append_assoc, take_append_drop, take_append_drop]
  · rintro ⟨before, window, after, rfl, same⟩
    have size := length_of_eqIgnoreAsciiCase same
    refine ⟨window, mem_windows.mpr ⟨before.length, ?_, ?_⟩, same⟩
    · rw [length_append, length_append]
      omega
    · rw [append_assoc, drop_left, ← size, take_left]

theorem Contains.append_left (contains : Contains needle text) (before : List UInt8) :
    Contains needle (before ++ text) := by
  obtain ⟨first, window, after, rfl, same⟩ := contains
  exact ⟨before ++ first, window, after, by simp only [append_assoc], same⟩

/-- A needle that a text does not show stands, in what the text grows to, behind all but one less
than its length. -/
theorem contains_grown {old new : List UInt8} (absent : ¬ Contains needle old) {skip : Nat}
    (late : skip + needle.length ≤ old.length + 1) :
    Contains needle (old ++ new) ↔ Contains needle ((old ++ new).drop skip) := by
  constructor
  · rintro ⟨before, window, after, whole, same⟩
    have size := length_of_eqIgnoreAsciiCase same
    have behind_ : skip ≤ before.length := by
      by_contra early
      refine absurd ?_ absent
      have inside : (before ++ window).length ≤ old.length := by
        rw [length_append]
        omega
      have front : before ++ window <+: old := by
        refine prefix_of_prefix_length_le ?_ (prefix_append old new) inside
        rw [whole]
        exact prefix_append _ _
      obtain ⟨rest, shape⟩ := front
      exact ⟨before, window, rest, shape.symm, same⟩
    refine ⟨before.drop skip, window, after, ?_, same⟩
    rw [whole, drop_append_of_le_length, drop_append_of_le_length behind_]
    rw [length_append]
    omega
  · intro contains
    have grown := contains.append_left ((old ++ new).take skip)
    rwa [take_append_drop] at grown

end Search

section Watching

variable {unicode : Unicode} {watch : OutputWatch} {stream : List UInt8}

/-- What a watch that is still pending has kept of its stream. -/
structure Watching (watch : OutputWatch) (stream : List UInt8) : Prop where
  escape : watch.escape = behind .text stream
  kept : ∃ dropped, stripped .text stream = dropped ++ watch.tail ∧
    (dropped = [] ∨ tailBytes ≤ watch.tail.length)
  absent : ¬ Contains watch.needle (stripped .text stream)

theorem findIdx?_windows (tail : List UInt8) (needle : List UInt8) (from_ : Nat) :
    (((windows tail needle.length).findIdx? fun window => eqIgnoreAsciiCase window needle).map (· +
      from_)).isSome =
      true ↔ Contains needle tail := by
  rw [Option.isSome_map, findIdx?_isSome, any_eq_true, windows_any]

theorem Watching.searched (watching : Watching watch stream)
    (short : watch.needle.length ≤ tailBytes) (new : List UInt8) :
    Contains watch.needle (stripped .text stream ++ new) ↔
      Contains watch.needle
      ((watch.tail ++ new).drop (watch.tail.length - (watch.needle.length - 1))) := by
  obtain ⟨dropped, kept, enough⟩ := watching.kept
  by_cases little : watch.tail.length < watch.needle.length - 1
  · have all : dropped = [] := enough.resolve_right (by omega)
    rw [kept, all, nil_append, Nat.sub_eq_zero_of_le (Nat.le_of_lt little), drop_zero]
  · have late : dropped.length + (watch.tail.length - (watch.needle.length - 1)) +
        watch.needle.length ≤ (stripped .text stream).length + 1 := by
      rw [kept, length_append]
      omega
    rw [contains_grown watching.absent late, kept, append_assoc, ← drop_drop, drop_left]

/-- The tail after a batch, cut to its bound. -/
def trimmed (tail : List UInt8) : List UInt8 :=
  if tail.length > tailBytes then tail.drop (tail.length - tailBytes) else tail

theorem kept_trimmed {text dropped tail : List UInt8} (new : List UInt8)
    (kept : text = dropped ++ tail) (enough : dropped = [] ∨ tailBytes ≤ tail.length) :
    ∃ dropped', text ++ new = dropped' ++ trimmed (tail ++ new) ∧
      (dropped' = [] ∨ tailBytes ≤ (trimmed (tail ++ new)).length) := by
  rw [trimmed]
  split
  case isTrue long =>
    refine ⟨dropped ++ (tail ++ new).take ((tail ++ new).length - tailBytes), ?_, .inr ?_⟩
    · rw [append_assoc, take_append_drop, kept, append_assoc]
    · rw [List.length_drop]
      omega
  case isFalse =>
    refine ⟨dropped, by rw [kept, append_assoc], enough.imp id fun long => ?_⟩
    rw [length_append]
    exact Nat.le_trans long (Nat.le_add_right _ _)

/-- One batch is ready exactly when its stream shows the needle; until then the watch goes on. -/
theorem scan_spec (unicode : Unicode) (watching : Watching watch stream) (some_ : watch.needle ≠ [])
    (short : watch.needle.length ≤ tailBytes) (bytes : List UInt8) {now : Nat}
    (early : now < watch.deadline) :
    ∃ answer watch', watch.scan unicode bytes now = some (answer, watch') ∧
      (Shows watch.needle (stream ++ bytes) → ∃ url, answer = .ready url) ∧
      (¬ Shows watch.needle (stream ++ bytes) →
        answer = .pending ∧ Watching watch' (stream ++ bytes) ∧ watch'.needle = watch.needle ∧
          watch'.deadline = watch.deadline) := by
  have fed : feed watch.tail watch.escape bytes =
      (watch.tail ++ stripped watch.escape bytes, behind watch.escape bytes) := feed_eq _ _ _
  have whole : stripped .text (stream ++ bytes) = stripped .text stream ++
      stripped watch.escape bytes := by
    rw [stripped_append, watching.escape]
  have inside : min (watch.tail.length - (watch.needle.length - 1))
      (watch.tail ++ stripped watch.escape bytes).length =
        watch.tail.length - (watch.needle.length - 1) := by
    rw [length_append]
    omega
  have searched := (findIdx?_windows _ _ (watch.tail.length - (watch.needle.length - 1))).trans
    (watching.searched short (stripped watch.escape bytes)).symm
  rw [← whole] at searched
  rw [OutputWatch.scan, fed, shows_iff]
  simp only [if_neg some_, inside]
  split
  case h_1 at_ found =>
    rw [found] at searched
    exact ⟨_, _, rfl, fun _ => ⟨_, rfl⟩, fun absent => absurd (searched.mp rfl) absent⟩
  case h_2 missing =>
    rw [missing] at searched
    have absent : ¬ Contains watch.needle (stripped .text (stream ++ bytes)) := fun contains =>
      nomatch searched.mpr contains
    refine ⟨_, _, rfl, fun contains => absurd contains absent, fun _ =>
      ⟨if_neg (Nat.not_le.mpr early), ?_, rfl, rfl⟩⟩
    obtain ⟨dropped, kept, enough⟩ := watching.kept
    refine ⟨?_, ?_, absent⟩
    · rw [behind_append, ← watching.escape]
    · rw [whole]
      exact kept_trimmed _ kept enough

/-- The batch after which the stream first shows the needle. -/
def FirstAt (needle stream : List UInt8) (batches : List (List UInt8)) (at_ : Nat) : Prop :=
  at_ < batches.length ∧ Shows needle (stream ++ (batches.take (at_ + 1)).flatten) ∧
    ∀ before < at_, ¬ Shows needle (stream ++ (batches.take (before + 1)).flatten)

theorem firstAt_zero {needle bytes : List UInt8} {rest : List (List UInt8)} :
    FirstAt needle stream (bytes :: rest) 0 ↔ Shows needle (stream ++ bytes) := by
  have one : ((bytes :: rest).take (0 + 1)).flatten = bytes := by simp
  rw [FirstAt, one]
  exact ⟨fun first => first.2.1, fun contains => ⟨Nat.zero_lt_succ _, contains, nofun⟩⟩

/-- Behind a batch that shows nothing, the first batch is sought in the longer stream. -/
theorem firstAt_succ {needle bytes : List UInt8} {rest : List (List UInt8)} {at_ : Nat} :
    FirstAt needle stream (bytes :: rest) (at_ + 1) ↔
      ¬ Shows needle (stream ++ bytes) ∧ FirstAt needle (stream ++ bytes) rest at_ := by
  have shift : ∀ count, stream ++ ((bytes :: rest).take (count + 1)).flatten =
      stream ++ bytes ++ (rest.take count).flatten := fun count => by
    rw [take_succ_cons, flatten_cons, append_assoc]
  have none_ : stream ++ ((bytes :: rest).take (0 + 1)).flatten = stream ++ bytes := by simp
  rw [FirstAt, FirstAt, shift (at_ + 1), length_cons, Nat.add_lt_add_iff_right]
  constructor
  · rintro ⟨inside, contains, absent⟩
    refine ⟨none_ ▸ absent 0 (Nat.zero_lt_succ _), inside, contains, fun before lt => ?_⟩
    have later := absent (before + 1) (Nat.succ_lt_succ lt)
    rwa [shift (before + 1)] at later
  · rintro ⟨first, inside, contains, absent⟩
    refine ⟨inside, contains, fun before lt => ?_⟩
    cases before with
    | zero => rwa [none_]
    | succ before =>
      rw [shift (before + 1)]
      exact absent before (Nat.lt_of_succ_lt_succ lt)

/-- The batches of a stream settle the action in the first that shows the needle. -/
theorem scanAll_spec (watching : Watching watch stream) (some_ : watch.needle ≠ [])
    (short : watch.needle.length ≤ tailBytes) {batches : List (List UInt8 × Nat)}
    (early : ∀ batch ∈ batches, batch.2 < watch.deadline) :
    ∃ answers, watch.scanAll unicode batches = some answers ∧ .timedOut ∉ answers ∧
      ∀ at_, (∃ url, answers[at_]? = some (.ready url)) ↔
      FirstAt watch.needle stream (batches.map (·.1)) at_ := by
  induction batches generalizing watch stream with
  | nil => exact ⟨[], rfl, not_mem_nil, fun at_ => ⟨nofun, fun first => absurd first.1 (Nat.not_lt_zero _)⟩⟩
  | cons batch rest ih =>
    obtain ⟨bytes, now⟩ := batch
    obtain ⟨answer, watch', scanned, ready, goes⟩ :=
      scan_spec unicode watching some_ short bytes (early _ mem_cons_self)
    rw [OutputWatch.scanAll, scanned]
    by_cases contains : Shows watch.needle (stream ++ bytes)
    · obtain ⟨url, rfl⟩ := ready contains
      refine ⟨[.ready url], rfl, by simp, fun at_ => ?_⟩
      rw [map_cons]
      cases at_ with
      | zero => exact iff_of_true ⟨url, rfl⟩ (firstAt_zero.mpr contains)
      | succ at_ => exact iff_of_false nofun fun first => (firstAt_succ.mp first).1 contains
    · obtain ⟨rfl, later, same, still⟩ := goes contains
      obtain ⟨answers, all, never, first⟩ := ih later (same ▸ some_) (same ▸ short)
        fun batch member => still ▸ early batch (mem_cons_of_mem _ member)
      refine ⟨.pending :: answers, ?_, by simpa using never, fun at_ => ?_⟩
      · dsimp only
        rw [all, Option.map_some]
      rw [map_cons]
      cases at_ with
      | zero => exact iff_of_false nofun fun first => contains (firstAt_zero.mp first)
      | succ at_ =>
        rw [getElem?_cons_succ, first, same, firstAt_succ, and_iff_right contains]

theorem watching_new (pattern : List UInt8) (some_ : pattern ≠ []) (timeoutSecs : Nat)
    (port : Option Nat) (now : Nat) : Watching (.new pattern timeoutSecs port now) [] := by
  refine ⟨rfl, ⟨[], rfl, .inl rfl⟩, ?_⟩
  rintro ⟨before, window, after, whole, same⟩
  have nothing := append_eq_nil_iff.mp whole.symm
  have size := length_of_eqIgnoreAsciiCase same
  rw [(append_eq_nil_iff.mp nothing.1).2] at size
  exact some_ (length_eq_zero_iff.mp size.symm)

/-- Readiness does not depend on how the output was cut into batches. -/
theorem ready_at_first (unicode : Unicode) {pattern : List UInt8} (some_ : pattern ≠ [])
    (short : pattern.length ≤ tailBytes) (timeoutSecs : Nat) (port : Option Nat) (start : Nat)
    {batches : List (List UInt8 × Nat)} (early : ∀ batch ∈ batches, batch.2 < start + timeoutSecs) :
    (∀ stream, ∃! text, Strips stream text) ∧
      ∃ answers, (OutputWatch.new pattern timeoutSecs port start).scanAll unicode batches =
        some answers ∧ .timedOut ∉ answers ∧
        ∀ at_, (∃ url, answers[at_]? = some (.ready url)) ↔ FirstAt pattern []
        (batches.map (·.1)) at_ :=
  ⟨strips_existsUnique, scanAll_spec (watching_new pattern some_ timeoutSecs port start) some_ short
  early⟩

/-- A text cut by a colour and by a batch. -/
theorem ready_at_first_cut : (∀ stream, ∃! text, Strips stream text) ∧
    ∃ answers, (OutputWatch.new [79, 75] 60 none 0).scanAll ⟨fun _ => [], fun _ => false, fun _ =>
      false⟩
        [([27, 91, 109, 111], 1), ([27], 2), ([91, 109, 107], 3)] = some answers ∧
      .timedOut ∉ answers ∧
      ∀ at_, (∃ url, answers[at_]? = some (.ready url)) ↔
        FirstAt [79, 75] [] [[27, 91, 109, 111], [27], [91, 109, 107]] at_ :=
  ready_at_first _ (by decide) (by decide) 60 none 0 (by decide)

example : (OutputWatch.new [79, 75] 60 none 0).scanAll ⟨fun _ => [], fun _ => false, fun _ => false⟩
    [([27, 91, 109, 111], 1), ([27], 2), ([91, 109, 107], 3)] =
      some [.pending, .pending, .ready none] := by
  decide +kernel

end Watching

end ForgeNode.Readiness
