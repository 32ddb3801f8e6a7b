import Mathlib.Data.List.Basic
import Mathlib.Order.Basic
import ForgeNode.Protocol.Framing

/-! The frames of the control channel, read by a reader that keeps what it has when a deadline
expires. -/

namespace ForgeNode.Control

open List
open Protocol (toBeBytes fromBeBytes)

def maxControlFrame : Nat := 4 * 1024 * 1024

inductive IoError where
  | timedOut | unexpectedEof
  deriving DecidableEq

inductive ControlError (E D : Type) where
  | io (error : IoError)
  | frameTooLarge (len : Nat)
  | encode (error : E)
  | decode (error : D)
  deriving DecidableEq

/-- What one `read` of the other end meets; `ready` hands out that many bytes and one more, or what
there is. -/
inductive Event where
  | ready (count : Nat) | interrupted | timedOut
  deriving DecidableEq

def Event.isReady : Event → Bool
  | .ready _ => true
  | .interrupted | .timedOut => false

/-- The other end: the bytes it will still hand out, and how. -/
structure Source where
  bytes : List UInt8
  events : List Event

/-- A buffer that is filled from the front, and the source it is filled from. -/
structure Filling where
  bytes : List UInt8
  read : Nat
  source : Source

section Reading

/-- Fill the buffer, up to an error; `none` when the source has not answered yet. -/
def readRemaining (bytes : List UInt8) (read : Nat) (stream : List UInt8) :
    List Event → Option (Option IoError × Filling)
  | [] => if read < bytes.length then none else some (none, ⟨bytes, read, stream, []⟩)
  | event :: events =>
    if read < bytes.length then
      match event with
      | .interrupted => readRemaining bytes read stream events
      | .timedOut => some (some .timedOut, ⟨bytes, read, stream, events⟩)
      | .ready count =>
        let chunk := stream.take (min (count + 1) (bytes.length - read))
        if chunk = [] then some (some .unexpectedEof, ⟨bytes, read, stream, events⟩)
        else
          readRemaining (bytes.take read ++ chunk ++ bytes.drop (read + chunk.length))
            (read + chunk.length) (stream.drop chunk.length) events
    else some (none, ⟨bytes, read, stream, event :: events⟩)

structure FrameReader where
  header : List UInt8
  headerRead : Nat
  payload : List UInt8
  payloadRead : Nat

def FrameReader.default : FrameReader :=
  { header := [0, 0, 0, 0], headerRead := 0, payload := [], payloadRead := 0 }

/-- `Vec::resize` with zeros. -/
def resize (bytes : List UInt8) (len : Nat) : List UInt8 :=
  bytes.take len ++ List.replicate (len - bytes.length) 0

variable {Message E D : Type}

/-- Read one message; `none` when the source has not answered yet. -/
def FrameReader.read (fromSlice : List UInt8 → Except D Message) (reader : FrameReader)
    (source : Source) : Option (Except (ControlError E D) Message × FrameReader × Source) :=
  match readRemaining reader.header reader.headerRead source.bytes source.events with
  | none => none
  | some (some error, ⟨header, headerRead, source⟩) =>
    some (.error (.io error), { reader with header, headerRead }, source)
  | some (none, ⟨header, headerRead, source⟩) =>
    let len := fromBeBytes header
    if len > maxControlFrame then some (.error (.frameTooLarge len),
      { reader with header, headerRead }, source)
    else
      match readRemaining (resize reader.payload len) reader.payloadRead source.bytes source.events with
      | none => none
      | some (some error, ⟨payload, payloadRead, source⟩) =>
        some (.error (.io error), { header, headerRead, payload, payloadRead }, source)
      | some (none, ⟨payload, payloadRead, source⟩) =>
        match fromSlice payload with
        | .error error =>
          some (.error (.decode error), { header, headerRead, payload, payloadRead }, source)
        | .ok message =>
          some (.ok message, { header, headerRead := 0, payload := [], payloadRead := 0 }, source)

/-- The answers of so many calls, as far as the source lets them return. -/
def FrameReader.run (fromSlice : List UInt8 → Except D Message) (reader : FrameReader)
    (source : Source) : Nat → List (Except (ControlError E D) Message)
  | 0 => []
  | calls + 1 =>
    match reader.read fromSlice source with
    | none => []
    | some (answer, reader, source) => answer :: FrameReader.run fromSlice reader source calls

/-- One message as a framed payload. -/
def encode (toVec : Message → Except E (List UInt8)) (message : Message) :
    Except (ControlError E D) (List UInt8) :=
  match toVec message with
  | .error error => .error (.encode error)
  | .ok payload =>
    if payload.length > maxControlFrame then .error (.frameTooLarge payload.length)
    else .ok (toBeBytes payload.length ++ payload)

end Reading

section Filling

variable {bytes : List UInt8} {read : Nat} {stream : List UInt8} {events : List Event}
  {result : Option IoError} {filled : Filling}

def readies (events : List Event) : Nat := events.countP Event.isReady

def timeouts (events : List Event) : Nat := events.count .timedOut

@[simp] theorem readies_ready (count : Nat) (events : List Event) :
    readies (.ready count :: events) = readies events + 1 := countP_cons_of_pos rfl

@[simp] theorem readies_interrupted (events : List Event) :
    readies (.interrupted :: events) = readies events :=
  countP_cons_of_neg nofun

@[simp] theorem readies_timedOut (events : List Event) :
    readies (.timedOut :: events) = readies events :=
  countP_cons_of_neg nofun

@[simp] theorem timeouts_ready (count : Nat) (events : List Event) :
    timeouts (.ready count :: events) = timeouts events := by
  simp [timeouts]

@[simp] theorem timeouts_interrupted (events : List Event) :
    timeouts (.interrupted :: events) = timeouts events := by
  simp [timeouts]

@[simp] theorem timeouts_timedOut (events : List Event) :
    timeouts (.timedOut :: events) = timeouts events + 1 :=
  count_cons_self

/-- What a fill did: it kept every byte in order, and says why it stopped. -/
structure Filled (bytes : List UInt8) (read : Nat) (stream : List UInt8) (events : List Event)
    (result : Option IoError) (filled : Filling) : Prop where
  size : filled.bytes.length = bytes.length
  inside : filled.read ≤ bytes.length
  kept : filled.bytes.take filled.read ++ filled.source.bytes = bytes.take read ++ stream
  grew : read ≤ filled.read
  whole : result = none → filled.read = bytes.length
  stopped : result ≠ none → filled.read < bytes.length
  eof : result = some .unexpectedEof → filled.source.bytes = []
  ready : readies events + filled.source.bytes.length ≤ readies filled.source.events + stream.length +
    if result = some .unexpectedEof then 1 else 0
  timed : timeouts events = timeouts filled.source.events + if result = some .timedOut then 1 else 0

/-- What a source hands out next. -/
theorem chunk_facts {chunk : List UInt8} {count : Nat} (more : read < bytes.length)
    (taken : chunk = stream.take (min (count + 1) (bytes.length - read))) :
    chunk.length ≤ bytes.length - read ∧ chunk ++ stream.drop chunk.length = stream ∧
      (chunk = [] ↔ stream = []) := by
  have size : chunk.length = min (min (count + 1) (bytes.length - read)) stream.length := by
    rw [taken, length_take]
  have front : chunk <+: stream := taken ▸ take_prefix _ _
  refine ⟨by omega, (prefix_iff_eq_append.mp front), ?_⟩
  rw [← length_eq_zero_iff, ← length_eq_zero_iff, size]
  omega

theorem readRemaining_full (full : ¬ read < bytes.length) :
    readRemaining bytes read stream events = some (none, ⟨bytes, read, stream, events⟩) := by
  cases events with
  | nil => exact if_neg full
  | cons event events => cases event <;> exact if_neg full

theorem filled_full (inside : read ≤ bytes.length) (full : ¬ read < bytes.length) :
    Filled bytes read stream events none ⟨bytes, read, stream, events⟩ :=
  ⟨rfl, inside, rfl, Nat.le_refl _, fun _ => Nat.le_antisymm inside (Nat.le_of_not_lt full),
    fun some_ => absurd rfl some_, nofun, by simp, by simp⟩

/-- A fill that goes on with a chunk more. -/
theorem Filled.grown {chunk : List UInt8} {count : Nat} (more : read < bytes.length)
    (some_ : chunk ≠ []) (fits : chunk.length ≤ bytes.length - read)
    (joined : chunk ++ stream.drop chunk.length = stream)
    (filled_ : Filled (bytes.take read ++ chunk ++ bytes.drop (read + chunk.length))
      (read + chunk.length)
      (stream.drop chunk.length) events result filled) :
    Filled bytes read stream (.ready count :: events) result filled := by
  have front : (bytes.take read ++ chunk).length = read + chunk.length := by
    rw [length_append, length_take_of_le (Nat.le_of_lt more)]
  have size : (bytes.take read ++ chunk ++ bytes.drop (read + chunk.length)).length =
      bytes.length := by
    rw [length_append, front, List.length_drop]
    omega
  have long : 0 < chunk.length := length_pos_iff.mpr some_
  have left : stream.length = chunk.length + (stream.drop chunk.length).length := by
    conv_lhs => rw [← joined]
    rw [length_append]
  obtain ⟨sized, inside, kept, grew, whole, stopped, eof, ready, timed⟩ := filled_
  rw [size] at sized inside whole stopped
  refine ⟨sized, inside, ?_, Nat.le_trans (Nat.le_add_right _ _) grew, whole, stopped, eof, ?_, ?_⟩
  · rw [kept, take_left' front, append_assoc, joined]
  · rw [readies_ready]
    omega
  · rw [timeouts_ready, timed]

theorem readRemaining_filled (inside : read ≤ bytes.length)
    (done : readRemaining bytes read stream events = some (result, filled)) :
    Filled bytes read stream events result filled := by
  induction events generalizing bytes read stream with
  | nil =>
    by_cases more : read < bytes.length
    · rw [readRemaining, if_pos more] at done
      cases done
    · rw [readRemaining_full more] at done
      cases done
      exact filled_full inside more
  | cons event events ih =>
    by_cases more : read < bytes.length
    · cases event with
      | interrupted =>
        rw [readRemaining, if_pos more] at done
        have later := ih inside done
        exact { later with ready := by simpa using later.ready, timed := by simpa using later.timed }
      | timedOut =>
        rw [readRemaining, if_pos more] at done
        cases done
        exact ⟨rfl, inside, rfl, Nat.le_refl _, nofun, fun _ => more, nofun, by simp, by simp⟩
      | ready count =>
        rw [readRemaining, if_pos more] at done
        obtain ⟨chunk, taken⟩ :
            ∃ chunk, chunk = stream.take (min (count + 1) (bytes.length - read)) := ⟨_, rfl⟩
        obtain ⟨fits, joined, empty⟩ := chunk_facts more taken
        simp only [← taken] at done
        split at done
        case isTrue none_ =>
          cases done
          refine ⟨rfl, inside, rfl, Nat.le_refl _, nofun, fun _ => more, fun _ =>
            empty.mp none_, ?_, ?_⟩
          · have one : readies (.ready count :: events) + stream.length ≤ readies events +
                stream.length + 1 := by
              rw [readies_ready]
              omega
            exact one
          · simp
        case isFalse some_ =>
          refine (ih ?_ done).grown more some_ fits joined
          rw [length_append, length_append, length_take_of_le (Nat.le_of_lt more), List.length_drop]
          omega
    · rw [readRemaining_full more] at done
      cases done
      exact filled_full inside more

/-- A source that is ready often enough lets the fill return. -/
theorem readRemaining_answers (bytes : List UInt8) (read : Nat)
    (enough : stream.length < readies events) :
    ∃ answer, readRemaining bytes read stream events = some answer := by
  induction events generalizing bytes read stream with
  | nil => exact absurd enough (Nat.not_lt_zero _)
  | cons event events ih =>
    by_cases more : read < bytes.length
    · cases event with
      | interrupted =>
        rw [readRemaining, if_pos more]
        exact ih _ _ (by simpa using enough)
      | timedOut => exact ⟨_, if_pos more⟩
      | ready count =>
        rw [readies_ready] at enough
        rw [readRemaining, if_pos more]
        dsimp only
        split
        case isTrue => exact ⟨_, rfl⟩
        case isFalse some_ =>
          refine ih _ _ ?_
          have long := length_pos_iff.mpr some_
          rw [length_take] at long
          rw [List.length_drop, length_take]
          omega
    · exact ⟨_, readRemaining_full more⟩

end Filling

section Sent

variable {Message E D : Type}

/-- What the other end sends: a message of this build, or a payload of another. -/
inductive Sent (Message : Type) where
  | message (value : Message) | foreign (payload : List UInt8)

/-- The frame that carries it. -/
def Sent.frame (toVec : Message → Except E (List UInt8)) :
    Sent Message → Except (ControlError E D) (List UInt8)
  | .message value => encode toVec value
  | .foreign payload =>
    if payload.length > maxControlFrame then .error (.frameTooLarge payload.length)
    else .ok (toBeBytes payload.length ++ payload)

/-- The frames of everything sent, one behind the other. -/
def wire (toVec : Message → Except E (List UInt8)) :
    List (Sent Message) → Except (ControlError E D) (List UInt8)
  | [] => .ok []
  | sent :: rest => do
    let frame ← sent.frame toVec
    let frames ← wire toVec rest
    .ok (frame ++ frames)

/-- What a decoded payload is answered with. -/
def decoded (fromSlice : List UInt8 → Except D Message) (payload : List UInt8) :
    Except (ControlError E D) Message :=
  match fromSlice payload with
  | .error error => .error (.decode error)
  | .ok message => .ok message

/-- What the reader owes for it. -/
def Sent.answer (fromSlice : List UInt8 → Except D Message) :
    Sent Message → Except (ControlError E D) Message
  | .message value => .ok value
  | .foreign payload => decoded fromSlice payload

/-- The payload of a frame. -/
def frameOf (payload : List UInt8) : List UInt8 := toBeBytes payload.length ++ payload

def framesOf (payloads : List (List UInt8)) : List UInt8 := payloads.flatMap frameOf

end Sent

section Invariant

variable {Message E D : Type} {fromSlice : List UInt8 → Except D Message}
  {reader next : FrameReader} {source left : Source} {answer : Except (ControlError E D) Message}

/-- The reader and what it has not read yet are the frames of these payloads. -/
structure Holds (reader : FrameReader) (stream : List UInt8) (payloads : List (List UInt8)) :
    Prop where
  width : reader.header.length = 4
  headerInside : reader.headerRead ≤ 4
  fresh : reader.headerRead < 4 → reader.payloadRead = 0
  payloadInside : reader.payloadRead ≤ reader.payload.length
  sized : reader.payloadRead ≠ 0 → reader.payload.length = fromBeBytes reader.header
  kept : reader.header.take reader.headerRead ++ (reader.payload.take reader.payloadRead ++ stream) =
    framesOf payloads

/-- The reader holds a whole frame whose payload does not decode. -/
structure Stuck (fromSlice : List UInt8 → Except D Message) (reader : FrameReader) (error : D) :
    Prop where
  width : reader.header.length = 4
  headerRead : reader.headerRead = 4
  size : fromBeBytes reader.header = reader.payload.length
  fits : reader.payload.length ≤ maxControlFrame
  payloadRead : reader.payloadRead = reader.payload.length
  undecodable : fromSlice reader.payload = .error error

theorem resize_length (bytes : List UInt8) (len : Nat) : (resize bytes len).length = len := by
  rw [resize, length_append, length_take, length_replicate]
  omega

theorem resize_self (bytes : List UInt8) : resize bytes bytes.length = bytes := by
  rw [resize, take_length, Nat.sub_self, replicate_zero, append_nil]

theorem Stuck.read {error : D} (stuck : Stuck fromSlice reader error) (source : Source) :
    reader.read fromSlice source = some (.error (ControlError.decode (E := E) error), reader,
      source) := by
  obtain ⟨width, headerRead, size, fits, payloadRead, undecodable⟩ := stuck
  have header : ¬ reader.headerRead < reader.header.length := by omega
  have payload : ¬ reader.payloadRead < reader.payload.length := by omega
  rw [FrameReader.read, readRemaining_full header]
  simp only [size, if_neg (Nat.not_lt.mpr fits), resize_self, readRemaining_full payload, undecodable]

/-- What one call can do when the reader and its source hold these payloads. -/
inductive Call (fromSlice : List UInt8 → Except D Message) (source : Source) :
    List (List UInt8) → Except (ControlError E D) Message → FrameReader → Source → Prop
  | timedOut {payloads : List (List UInt8)} {next : FrameReader} {left : Source}
    (holds : Holds next left.bytes payloads)
    (timed : timeouts source.events = timeouts left.events + 1)
    (ready : readies source.events + left.bytes.length ≤ readies left.events + source.bytes.length) :
    Call fromSlice source payloads (.error (.io .timedOut)) next left
  | eof {next : FrameReader} {left : Source} (holds : Holds next left.bytes [])
    (timed : timeouts source.events = timeouts left.events)
    (ready : readies source.events + left.bytes.length ≤ readies left.events + source.bytes.length +
      1) :
    Call fromSlice source [] (.error (.io .unexpectedEof)) next left
  | message {payload : List UInt8} {message : Message} {rest : List (List UInt8)}
      {next : FrameReader} {left : Source}
    (there : fromSlice payload = .ok message) (holds : Holds next left.bytes rest)
    (timed : timeouts source.events = timeouts left.events)
    (ready : readies source.events + left.bytes.length ≤ readies left.events + source.bytes.length) :
    Call fromSlice source (payload :: rest) (.ok message) next left
  | undecodable {payload : List UInt8} {error : D} {rest : List (List UInt8)} {next : FrameReader}
      {left : Source}
    (there : fromSlice payload = .error error) (stuck : Stuck fromSlice next error)
    (timed : timeouts source.events = timeouts left.events)
    (ready : readies source.events + left.bytes.length ≤ readies left.events + source.bytes.length) :
    Call fromSlice source (payload :: rest) (.error (.decode error)) next left

theorem framesOf_cons (payload : List UInt8) (rest : List (List UInt8)) :
    framesOf (payload :: rest) = toBeBytes payload.length ++ (payload ++ framesOf rest) := by
  rw [framesOf, flatMap_cons, frameOf, append_assoc]
  rfl

theorem fromBe_frame {payload : List UInt8} (fits : payload.length ≤ maxControlFrame) :
    fromBeBytes (toBeBytes payload.length) = payload.length := by
  have small : payload.length < 2 ^ 32 := Nat.lt_of_le_of_lt fits (by decide)
  have read := Protocol.fromBeBytes_toBeBytes small []
  rwa [append_nil] at read

theorem whole_header {header tail : List UInt8} {payloads : List (List UInt8)}
    (width : header.length = 4) (kept : header ++ tail = framesOf payloads)
    (fits : ∀ payload ∈ payloads, payload.length ≤ maxControlFrame) :
    ∃ payload rest, payloads = payload :: rest ∧ fromBeBytes header = payload.length ∧
      tail = payload ++ framesOf rest := by
  cases payloads with
  | nil =>
    have none_ := (append_eq_nil_iff.mp kept).1
    rw [none_] at width
    cases width
  | cons payload rest =>
    rw [framesOf_cons] at kept
    obtain ⟨same, behind⟩ := append_inj kept width
    exact ⟨payload, rest, rfl, by rw [same, fromBe_frame (fits payload mem_cons_self)], behind⟩

/-- A frame whose header is not whole is not there at the end of the source. -/
theorem no_header {header : List UInt8} {payloads : List (List UInt8)} (short : header.length < 4)
    (kept : header = framesOf payloads) : payloads = [] := by
  cases payloads with
  | nil => rfl
  | cons payload rest =>
    rw [framesOf_cons] at kept
    rw [kept, length_append] at short
    exact absurd short (Nat.not_lt.mpr (Nat.le_add_right 4 _))

/-- Behind a whole header come the payload read so far and what is left. -/
structure Headed (reader : FrameReader) (header : List UInt8) (stream : List UInt8)
    (payloads : List (List UInt8)) :
    Prop where
  width : header.length = 4
  kept : header ++ (reader.payload.take reader.payloadRead ++ stream) = framesOf payloads
  inside : reader.payloadRead ≤ reader.payload.length
  sized : reader.payloadRead ≠ 0 → reader.payload.length = fromBeBytes header

theorem Holds.headed {payloads : List (List UInt8)} (holds : Holds reader source.bytes payloads)
    {filled : Filling} (done : Filled reader.header reader.headerRead source.bytes source.events
      none filled) :
    Headed reader filled.bytes filled.source.bytes payloads := by
  have width : filled.bytes.length = 4 := done.size.trans holds.width
  have kept := done.kept
  rw [done.whole rfl, ← done.size, take_length] at kept
  by_cases more : reader.headerRead < 4
  · have none_ := holds.fresh more
    have before := holds.kept
    rw [none_, take_zero, nil_append, ← kept] at before
    refine ⟨width, ?_, holds.payloadInside, fun some_ => absurd none_ some_⟩
    rw [none_, take_zero, nil_append, before]
  · have full : reader.headerRead = reader.header.length := by
      have bound := holds.headerInside
      have width := holds.width
      omega
    have before := holds.kept
    rw [full, take_length] at kept before
    obtain ⟨same, behind⟩ := append_inj kept (width.trans holds.width.symm)
    rw [same, behind]
    exact ⟨holds.width, before, holds.payloadInside, holds.sized⟩

theorem Headed.resized {header stream : List UInt8} {payloads : List (List UInt8)}
    (headed : Headed reader header stream payloads) :
    (resize reader.payload (fromBeBytes header)).take reader.payloadRead =
      reader.payload.take reader.payloadRead := by
  by_cases none_ : reader.payloadRead = 0
  · rw [none_, take_zero, take_zero]
  · rw [← headed.sized none_, resize_self]

theorem read_call {payloads : List (List UInt8)} (holds : Holds reader source.bytes payloads)
    (fits : ∀ payload ∈ payloads, payload.length ≤ maxControlFrame)
    (done : reader.read fromSlice source = some (answer, next, left)) :
    Call fromSlice source payloads answer next left := by
  have inside : reader.headerRead ≤ reader.header.length := holds.width ▸ holds.headerInside
  rw [FrameReader.read] at done
  split at done
  case h_1 => cases done
  case h_2 error header headerRead between first =>
    obtain ⟨width, -, kept, grew, -, stopped, eof, ready, timed⟩ := readRemaining_filled inside first
    cases done
    dsimp only at *
    have more : headerRead < 4 := holds.width ▸ stopped nofun
    have none_ := holds.fresh (Nat.lt_of_le_of_lt grew more)
    have before := holds.kept
    rw [none_, take_zero, nil_append, ← kept] at before
    have held : Holds { reader with header := header, headerRead := headerRead } left.bytes
      payloads :=
      ⟨width.trans holds.width, Nat.le_of_lt more, fun _ => none_, holds.payloadInside,
        fun some_ => absurd none_ some_, by rw [none_, take_zero, nil_append, before]⟩
    cases error with
    | timedOut => exact .timedOut held timed ready
    | unexpectedEof =>
      rw [eof rfl, append_nil] at before
      have short : (header.take headerRead).length < 4 :=
        Nat.lt_of_le_of_lt (length_take_le _ _) more
      have nothing := no_header short before
      rw [nothing] at held ⊢
      exact .eof held timed ready
  case h_3 header headerRead between first =>
    have filled := readRemaining_filled inside first
    have headed := holds.headed filled
    have firstTimed : timeouts source.events = timeouts between.events := filled.timed
    have firstReady :
        readies source.events + between.bytes.length ≤ readies between.events +
        source.bytes.length := filled.ready
    have whole : headerRead = 4 := (filled.whole rfl).trans holds.width
    obtain ⟨payload, rest, rfl, size, tail⟩ := whole_header headed.width headed.kept fits
    have resized := headed.resized
    dsimp only at *
    rw [size] at resized
    have small := fits payload mem_cons_self
    have room : reader.payloadRead ≤ (resize reader.payload payload.length).length := by
      rw [resize_length]
      by_cases none_ : reader.payloadRead = 0
      · rw [none_]
        exact Nat.zero_le _
      · rw [← size, ← headed.sized none_]
        exact headed.inside
    rw [size, if_neg (Nat.not_lt.mpr small)] at done
    split at done
    case h_1 => cases done
    case h_2 error buffer payloadRead behind second =>
      have refilled := readRemaining_filled room second
      obtain ⟨sized, within, kept, -, -, stopped, eof, ready, timed⟩ := refilled
      dsimp only at *
      rw [resize_length] at sized within stopped
      rw [resized] at kept
      cases done
      have held : Holds { header, headerRead, payload := buffer, payloadRead } left.bytes
        (payload :: rest) := by
        refine ⟨headed.width, Nat.le_of_eq whole, fun more => absurd whole (Nat.ne_of_lt more), ?_,
          ?_, ?_⟩
        · exact sized ▸ within
        · exact fun _ => sized.trans size.symm
        · rw [whole, take_of_length_le (Nat.le_of_eq headed.width), kept, headed.kept]
      cases error with
      | timedOut =>
        have lastTimed : timeouts between.events = timeouts left.events + 1 := timed
        have lastReady : readies between.events + left.bytes.length ≤ readies left.events +
            between.bytes.length :=
          ready
        exact .timedOut held (firstTimed.trans lastTimed) (by omega)
      | unexpectedEof =>
        rw [eof rfl, append_nil, tail] at kept
        have long := congrArg List.length kept
        rw [length_take, length_append] at long
        have short := stopped nofun
        omega
    case h_3 buffer payloadRead behind second =>
      have refilled := readRemaining_filled room second
      obtain ⟨sized, -, kept, -, full, -, -, ready, timed⟩ := refilled
      dsimp only at *
      rw [resize_length] at sized full
      rw [resized, tail, full rfl, ← sized, take_length] at kept
      obtain ⟨same, left_⟩ := append_inj kept sized
      subst same
      have lastTimed : timeouts between.events = timeouts behind.events := timed
      have lastReady : readies between.events + behind.bytes.length ≤ readies behind.events +
          between.bytes.length :=
        ready
      split at done
      case h_1 error undecodable =>
        cases done
        refine .undecodable undecodable ⟨headed.width, whole, size, small, full rfl, undecodable⟩
          (firstTimed.trans lastTimed) (by omega)
      case h_2 message there =>
        cases done
        refine .message there
          ⟨headed.width, Nat.zero_le _, fun _ => rfl, Nat.le_refl _, fun some_ =>
          absurd rfl some_, ?_⟩
          (firstTimed.trans lastTimed) (by omega)
        exact left_

/-- A source that is ready often enough lets a call return. -/
theorem read_answers (fromSlice : List UInt8 → Except D Message)
    (inside : reader.headerRead ≤ reader.header.length)
    (enough : source.bytes.length < readies source.events) :
    ∃ answer : Except (ControlError E D) Message × FrameReader × Source,
      reader.read fromSlice source = some answer := by
  obtain ⟨⟨result, header, headerRead, between⟩, first⟩ :=
    readRemaining_answers reader.header reader.headerRead enough
  rw [FrameReader.read, first]
  cases result with
  | some error => exact ⟨_, rfl⟩
  | none =>
    dsimp only
    split
    case isTrue => exact ⟨_, rfl⟩
    case isFalse =>
      have ready : readies source.events + between.bytes.length ≤ readies between.events +
          source.bytes.length :=
        (readRemaining_filled inside first).ready
      have later : between.bytes.length < readies between.events := by omega
      obtain ⟨⟨result, payload, payloadRead, behind⟩, second⟩ :=
        readRemaining_answers (resize reader.payload (fromBeBytes header)) reader.payloadRead later
      rw [second]
      cases result with
      | some error => exact ⟨_, rfl⟩
      | none =>
        dsimp only
        split
        · exact ⟨_, rfl⟩
        · exact ⟨_, rfl⟩

end Invariant

section Runs

variable {Message E D : Type} {fromSlice : List UInt8 → Except D Message}
  {reader next : FrameReader} {source left : Source} {answer : Except (ControlError E D) Message}
  {payloads : List (List UInt8)} {error : D}

def isTimeout : Except (ControlError E D) Message → Bool
  | .error (.io .timedOut) => true
  | _ => false

/-- Where a reader can stand between two calls. -/
inductive Standing (fromSlice : List UInt8 → Except D Message) (reader : FrameReader)
    (source : Source) : Prop
  | held (payloads : List (List UInt8)) (fits : ∀ payload ∈ payloads, payload.length ≤
      maxControlFrame)
    (holds : Holds reader source.bytes payloads)
  | stuck (error : D) (stuck : Stuck fromSlice reader error)

theorem Standing.inside (standing : Standing fromSlice reader source) :
    reader.headerRead ≤ reader.header.length := by
  cases standing with
  | held payloads fits holds => exact holds.width ▸ holds.headerInside
  | stuck error stuck => exact Nat.le_of_eq (stuck.headerRead.trans stuck.width.symm)

theorem Standing.read (standing : Standing fromSlice reader source)
    (done : reader.read fromSlice source = some (answer, next, left)) :
    Standing fromSlice next left ∧
      timeouts source.events = timeouts left.events + (if isTimeout answer = true then 1 else 0) ∧
      readies source.events + left.bytes.length ≤ readies left.events + source.bytes.length +
      1 := by
  cases standing with
  | stuck error stuck =>
    rw [stuck.read source] at done
    cases done
    exact ⟨.stuck error stuck, rfl, by omega⟩
  | held payloads fits holds =>
    cases read_call holds fits done with
    | timedOut holds timed ready => exact ⟨.held payloads fits holds, timed, by omega⟩
    | eof holds timed ready => exact ⟨.held [] fits holds, timed, ready⟩
    | message there holds timed ready =>
      exact ⟨.held _ (fun payload member => fits payload (mem_cons_of_mem _ member)) holds,
        timed, by omega⟩
    | undecodable there stuck timed ready => exact ⟨.stuck _ stuck, timed, by omega⟩

/-- Each timeout a run answers is one of the source's. -/
theorem run_timeouts (standing : Standing fromSlice reader source) (calls : Nat) :
    (reader.run (E := E) fromSlice source calls).countP isTimeout ≤ timeouts source.events := by
  induction calls generalizing reader source with
  | zero => exact Nat.zero_le _
  | succ calls ih =>
    rw [FrameReader.run]
    split
    case h_1 => exact Nat.zero_le _
    case h_2 answer next left done =>
      obtain ⟨later, timed, -⟩ := standing.read done
      rw [countP_cons, timed]
      exact Nat.add_le_add_right (ih later) _

/-- A source that is ready often enough lets every call of a run return. -/
theorem run_answers (standing : Standing fromSlice reader source) {calls : Nat}
    (enough : source.bytes.length + calls ≤ readies source.events) :
    (reader.run (E := E) fromSlice source calls).length = calls := by
  induction calls generalizing reader source with
  | zero => rfl
  | succ calls ih =>
    obtain ⟨⟨answer, next, left⟩, done⟩ :=
      read_answers (E := E) fromSlice standing.inside (show source.bytes.length <
        readies source.events by omega)
    obtain ⟨later, -, ready⟩ := standing.read done
    rw [FrameReader.run, done, length_cons, ih later (by omega)]

theorem prefix_more {Answer : Type} (front : List Answer) (last : Answer) (count : Nat) :
    front ++ List.replicate count last <+: front ++ List.replicate (count + 1) last := by
  rw [replicate_succ', ← append_assoc]
  exact prefix_append _ _

/-- Payloads that all decode are answered in order, and the end of the source after them. -/
theorem run_inOrder (holds : Holds reader source.bytes payloads)
    (fits : ∀ payload ∈ payloads, payload.length ≤ maxControlFrame)
    (decodes : ∀ payload ∈ payloads, ∃ value, fromSlice payload = .ok value) (calls : Nat) :
    (reader.run (E := E) fromSlice source calls).filter (fun answer => !isTimeout answer) <+:
      payloads.map (decoded fromSlice) ++ List.replicate calls (.error (.io .unexpectedEof)) := by
  induction calls generalizing reader source payloads with
  | zero => exact nil_prefix
  | succ calls ih =>
    rw [FrameReader.run]
    split
    case h_1 => exact nil_prefix
    case h_2 answer next left done =>
      cases read_call holds fits done with
      | timedOut holds =>
        rw [filter_cons_of_neg (by simp [isTimeout])]
        exact (ih holds fits decodes).trans (prefix_more _ _ _)
      | eof holds =>
        rw [filter_cons_of_pos rfl, map_nil, nil_append, replicate_succ]
        exact cons_prefix_cons.mpr ⟨rfl, ih holds fits decodes⟩
      | @message payload value rest next left there holds timed ready =>
        have first : decoded (E := E) fromSlice payload = .ok value := by
          rw [decoded, there]
        rw [filter_cons_of_pos rfl, map_cons, cons_append, first]
        have later := ih holds (fun payload member => fits payload (mem_cons_of_mem _ member))
          (fun payload member => decodes payload (mem_cons_of_mem _ member))
        exact cons_prefix_cons.mpr ⟨rfl, later.trans (prefix_more _ _ _)⟩
      | undecodable there =>
        obtain ⟨value, other⟩ := decodes _ mem_cons_self
        rw [there] at other
        cases other

theorem Stuck.run (stuck : Stuck fromSlice reader error) (source : Source) (calls : Nat) :
    reader.run fromSlice source calls =
      List.replicate calls (.error (ControlError.decode (E := E) error)) := by
  induction calls with
  | zero => rfl
  | succ calls ih => rw [FrameReader.run, stuck.read source, replicate_succ, ← ih]

/-- Behind a payload that does not decode, the end of the source is never seen. -/
theorem run_not_eof (holds : Holds reader source.bytes payloads)
    (fits : ∀ payload ∈ payloads, payload.length ≤ maxControlFrame) {bad : List UInt8}
    (member : bad ∈ payloads) (undecodable : fromSlice bad = .error error) (calls : Nat) :
    .error (.io .unexpectedEof) ∉ reader.run (E := E) fromSlice source calls := by
  induction calls generalizing reader source payloads with
  | zero => exact not_mem_nil
  | succ calls ih =>
    rw [FrameReader.run]
    split
    case h_1 => exact not_mem_nil
    case h_2 answer next left done =>
      rw [mem_cons, not_or]
      cases read_call holds fits done with
      | timedOut holds => exact ⟨nofun, ih holds fits member⟩
      | eof => cases member
      | message there holds =>
        refine ⟨nofun, ih holds (fun payload inside => fits payload (mem_cons_of_mem _ inside)) ?_⟩
        rcases mem_cons.mp member with same | inside
        · rw [same, there] at undecodable
          cases undecodable
        · exact inside
      | undecodable there stuck =>
        refine ⟨nofun, fun eof => ?_⟩
        rw [stuck.run left calls] at eof
        exact nomatch eq_of_mem_replicate eof

end Runs

section Survival

variable {Message E D : Type} {toVec : Message → Except E (List UInt8)}
  {fromSlice : List UInt8 → Except D Message} {sent : List (Sent Message)} {stream : List UInt8}

/-- However the stream is handed out, the reader answers what was sent, in order, and then the end
of the stream; it answers a timeout only for one of the source's, and a source that is ready gets an
answer. -/
structure Survives (E : Type) (fromSlice : List UInt8 → Except D Message) (sent : List (Sent Message))
    (stream : List UInt8) : Prop where
  inOrder : ∀ events calls,
    (FrameReader.default.run (E := E) fromSlice ⟨stream, events⟩ calls).filter
        (fun answer => !isTimeout answer) <+:
      sent.map (Sent.answer fromSlice) ++ List.replicate calls (.error (.io .unexpectedEof))
  ownTimeouts : ∀ events calls,
    (FrameReader.default.run (E := E) fromSlice ⟨stream, events⟩ calls).countP isTimeout ≤
      timeouts events
  answered : ∀ events calls, stream.length + calls ≤ readies events →
    (FrameReader.default.run (E := E) fromSlice ⟨stream, events⟩ calls).length = calls

theorem encode_ok {value : Message} {frame : List UInt8}
    (done : encode (D := D) toVec value = .ok frame) :
    ∃ payload, toVec value = .ok payload ∧ payload.length ≤ maxControlFrame ∧
    frame = frameOf payload := by
  rw [encode] at done
  split at done
  case h_1 => cases done
  case h_2 payload there =>
    split at done
    case isTrue => cases done
    case isFalse fits =>
      cases done
      exact ⟨payload, there, Nat.le_of_not_lt fits, rfl⟩

/-- What is sent are the frames of payloads that decode to what is owed. -/
theorem wire_payloads (roundTrip : ∀ value payload, toVec value = .ok payload → fromSlice payload =
      .ok value)
    (encodable : wire (D := D) toVec sent = .ok stream) :
    ∃ payloads, stream = framesOf payloads ∧
    (∀ payload ∈ payloads, payload.length ≤ maxControlFrame) ∧
      sent.map (Sent.answer (E := E) fromSlice) = payloads.map (decoded fromSlice) ∧
      (∀ payload ∈ payloads, .foreign payload ∈ sent ∨ ∃ value, fromSlice payload = .ok value) ∧
      ∀ payload, .foreign payload ∈ sent → payload ∈ payloads := by
  induction sent generalizing stream with
  | nil =>
    cases encodable
    exact ⟨[], rfl, nofun, rfl, nofun, nofun⟩
  | cons first rest ih =>
    rw [wire] at encodable
    cases framed : first.frame (D := D) toVec with
    | error error =>
      rw [framed] at encodable
      cases encodable
    | ok frame =>
      cases behind : wire (D := D) toVec rest with
      | error error =>
        rw [framed, behind] at encodable
        cases encodable
      | ok frames =>
        rw [framed, behind] at encodable
        cases encodable
        obtain ⟨payloads, same, fits, answers, decodes, foreign⟩ := ih behind
        have joined : ∀ payload, frame = frameOf payload →
            frame ++ frames = framesOf (payload :: payloads) := by
          intro payload shape
          rw [framesOf, flatMap_cons, shape, same]
          rfl
        cases first with
        | message value =>
          obtain ⟨payload, there, small, shape⟩ := encode_ok framed
          have owed : decoded (E := E) fromSlice payload = .ok value := by
            rw [decoded, roundTrip value payload there]
          refine ⟨payload :: payloads, joined payload shape, forall_mem_cons.mpr ⟨small, fits⟩, ?_,
            ?_, ?_⟩
          · rw [map_cons, map_cons, answers, owed]
            rfl
          · exact forall_mem_cons.mpr ⟨.inr ⟨value, roundTrip value payload there⟩,
              fun other member => (decodes other member).imp (mem_cons_of_mem _) id⟩
          · intro other member
            rcases mem_cons.mp member with here | inside
            · cases here
            · exact mem_cons_of_mem _ (foreign other inside)
        | foreign payload =>
          rw [Sent.frame] at framed
          split at framed
          case isTrue => cases framed
          case isFalse small =>
            cases framed
            refine ⟨payload :: payloads, joined payload rfl,
              forall_mem_cons.mpr ⟨Nat.le_of_not_lt small, fits⟩, ?_, ?_, ?_⟩
            · rw [map_cons, map_cons, answers]
              rfl
            · exact forall_mem_cons.mpr ⟨.inl mem_cons_self,
                fun other member => (decodes other member).imp (mem_cons_of_mem _) id⟩
            · intro other member
              rcases mem_cons.mp member with here | inside
              · cases here
                exact mem_cons_self
              · exact mem_cons_of_mem _ (foreign other inside)

theorem holds_default (payloads : List (List UInt8)) :
    Holds .default (framesOf payloads) payloads :=
  ⟨rfl, Nat.zero_le _, fun _ => rfl, Nat.le_refl _, fun some_ => absurd rfl some_, rfl⟩

/-- A timeout is only answered when the source had one. -/
theorem filter_of_no_timeouts {answers : List (Except (ControlError E D) Message)}
    (none_ : answers.countP isTimeout ≤ 0) :
    answers.filter (fun answer => !isTimeout answer) = answers := by
  refine filter_eq_self.mpr fun answer member => ?_
  have each := countP_eq_zero.mp (Nat.le_zero.mp none_) answer member
  simpa using each

/-- Everything sent survives exactly when every foreign payload among it decodes. -/
theorem survives_iff (roundTrip : ∀ value payload, toVec value = .ok payload → fromSlice payload =
      .ok value)
    (encodable : wire (D := D) toVec sent = .ok stream) :
    Survives E fromSlice sent stream ↔
      ∀ payload, .foreign payload ∈ sent → ∃ value, fromSlice payload = .ok value := by
  obtain ⟨payloads, rfl, fits, answers, decodes, foreign⟩ := wire_payloads roundTrip encodable
  have standing : ∀ events, Standing fromSlice .default ⟨framesOf payloads, events⟩ := fun events =>
    .held payloads fits (holds_default payloads)
  constructor
  · intro survives payload member
    cases there : fromSlice payload with
    | ok value => exact ⟨value, rfl⟩
    | error error =>
      obtain ⟨calls, enough⟩ : ∃ calls, calls = payloads.length + 1 := ⟨_, rfl⟩
      obtain ⟨events, plain⟩ :
        ∃ events, events = List.replicate ((framesOf payloads).length + calls) (Event.ready 0) :=
        ⟨_, rfl⟩
      have ready : readies events = (framesOf payloads).length + calls := by
        rw [plain, readies, countP_replicate]
        exact if_pos rfl
      have timed : timeouts events = 0 := by
        rw [plain, timeouts, count_replicate]
        rfl
      have inOrder := survives.inOrder events calls
      have none_ := survives.ownTimeouts events calls
      have many := survives.answered events calls (Nat.le_of_eq ready.symm)
      rw [timed] at none_
      rw [filter_of_no_timeouts none_, answers] at inOrder
      have last : (FrameReader.default.run (E := E) fromSlice ⟨framesOf payloads, events⟩ calls)[
          payloads.length]? = some (.error (.io .unexpectedEof)) := by
        have inside : payloads.length < (FrameReader.default.run (E := E) fromSlice
            ⟨framesOf payloads, events⟩ calls).length := by omega
        rw [getElem?_eq_getElem inside, inOrder.getElem inside, getElem_append_right (by simp)]
        simp
      exact absurd (mem_of_getElem? last)
        (run_not_eof (holds_default payloads) fits (foreign payload member) there calls)
  · intro decodable
    refine ⟨fun events calls => ?_, fun events calls => run_timeouts (standing events) calls,
      fun events calls enough => run_answers (standing events) enough⟩
    rw [answers]
    refine run_inOrder (holds_default payloads) fits (fun payload member => ?_) calls
    rcases decodes payload member with here | there
    · exact decodable payload here
    · exact there

/-- A build whose messages are single bytes. -/
def byteToVec (value : UInt8) : Except Unit (List UInt8) := .ok [value]

def byteFromSlice : List UInt8 → Except Unit UInt8
  | [value] => .ok value
  | _ => .error ()

theorem survives_bytes :
    Survives Unit byteFromSlice [.message 7, .foreign [3]] [0, 0, 0, 1, 7, 0, 0, 0, 1, 3] ↔
      ∀ payload, .foreign payload ∈ [Sent.message (7 : UInt8), .foreign [3]] →
        ∃ value, byteFromSlice payload = .ok value := by
  have roundTrip : ∀ value payload, byteToVec value = .ok payload →
      byteFromSlice payload = .ok value := by
    intro value payload done
    cases done
    rfl
  have encodable : wire (D := Unit) byteToVec [.message 7, .foreign [3]] = .ok [0, 0, 0, 1, 7, 0, 0,
    0, 1, 3] := rfl
  exact survives_iff roundTrip encodable

/-- A payload that does not decode is answered over and over, and the message behind it never. -/
theorem not_survives :
    wire (D := Unit) byteToVec [.foreign [], .message 7] = .ok [0, 0, 0, 0, 0, 0, 0, 1, 7] ∧
      ¬ Survives Unit byteFromSlice [.foreign [], .message 7] [0, 0, 0, 0, 0, 0, 0, 1, 7] := by
  refine ⟨rfl, fun survives => ?_⟩
  have two := survives.inOrder (List.replicate 9 (.ready 3)) 2
  exact absurd two (by decide +kernel)

end Survival

end ForgeNode.Control
