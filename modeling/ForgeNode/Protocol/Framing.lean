import ForgeNode.Lib.Cutter
import ForgeNode.Lib.Section
import Mathlib.Algebra.Ring.Nat

/-! Length-prefixed framing: a frame is the length of its payload in four bytes, the greatest first,
and the payload. A decoder fed in pieces yields what cutting the whole stream does. -/

namespace ForgeNode.Protocol

open List

variable {decoder : FrameDecoder}

def maxFrameSize : Nat := 16 * 1024 * 1024

def lenPrefix : Nat := 4

inductive CodecError where
  | encode (message : String)
  | decode (message : String)
  | frameTooLarge (size max : Nat)
  | incomplete (needed : Nat)
  deriving DecidableEq

/-- `u32::to_be_bytes`. -/
def toBeBytes (size : Nat) : List UInt8 :=
  [UInt8.ofNat (size / 2 ^ 24), UInt8.ofNat (size / 2 ^ 16), UInt8.ofNat (size / 2 ^ 8),
    UInt8.ofNat size]

/-- `u32::from_be_bytes` of the first four bytes. -/
def fromBeBytes (bytes : List UInt8) : Nat :=
  (bytes.getD 0 0).toNat * 2 ^ 24 + (bytes.getD 1 0).toNat * 2 ^ 16 +
    (bytes.getD 2 0).toNat * 2 ^ 8 + (bytes.getD 3 0).toNat

section Encode

structure FrameWriter where
  bytes : List UInt8
  capacity : Nat
  overflow : Option Nat
  deriving DecidableEq

namespace FrameWriter

/-- The write that does not fit inline; says whether it was made. -/
def growAndWrite (writer : FrameWriter) (bytes : List UInt8) : Bool × FrameWriter :=
  let size := writer.bytes.length - lenPrefix + bytes.length
  if size > maxFrameSize then (false, { writer with overflow := some size })
  else
    let needed := size + lenPrefix
    let capacity := if needed > writer.capacity then
      min (max needed (writer.capacity * 2)) (maxFrameSize + lenPrefix) else writer.capacity
    (true, { writer with bytes := writer.bytes ++ bytes, capacity })

def writeAll (writer : FrameWriter) (bytes : List UInt8) : Bool × FrameWriter :=
  let len := writer.bytes.length
  if bytes.length ≤ writer.capacity - len ∧ len + bytes.length ≤ maxFrameSize + lenPrefix then
    (true, { writer with bytes := writer.bytes ++ bytes })
  else writer.growAndWrite bytes

/-- The writes of a serializer, up to the first that is not made. -/
def serialize (writer : FrameWriter) : List (List UInt8) → FrameWriter
  | [] => writer
  | bytes :: rest =>
    match writer.writeAll bytes with
    | (true, writer) => writer.serialize rest
    | (false, writer) => writer

end FrameWriter

/-- A message as its serializer writes it, with what the serializer says at the end. -/
structure Message where
  writes : List (List UInt8)
  result : Except CodecError Unit

def Message.payload (message : Message) : List UInt8 := message.writes.flatten

def encodeFrame (message : Message) : Except CodecError (List UInt8) :=
  let writer := (⟨List.replicate lenPrefix 0, lenPrefix, none⟩ : FrameWriter).serialize message.writes
  match writer.overflow with
  | some size => .error (.frameTooLarge size maxFrameSize)
  | none => do
    message.result
    let size := writer.bytes.length - lenPrefix
    return toBeBytes size ++ writer.bytes.drop lenPrefix

end Encode

section Decode

/-- One frame from the front of the bytes: the message and what it took. -/
def decodeFrame (decodePayload : List UInt8 → Except CodecError T) (bytes : List UInt8) :
    Except CodecError (T × Nat) :=
  if bytes.length < lenPrefix then .error (.incomplete (lenPrefix - bytes.length))
  else
    let len := fromBeBytes bytes
    if len > maxFrameSize then .error (.frameTooLarge len maxFrameSize)
    else
      let total := lenPrefix + len
      if bytes.length < total then .error (.incomplete (total - bytes.length))
      else do
        let message ← decodePayload ((bytes.take total).drop lenPrefix)
        return (message, total)

def compactThreshold : Nat := 64 * 1024

/-- The bytes that have arrived, and how many of them were consumed. -/
structure FrameDecoder where
  buf : List UInt8
  start : Nat
  within : start ≤ buf.length

namespace FrameDecoder

def new : FrameDecoder := ⟨[], 0, Nat.le_refl 0⟩

def buffered (decoder : FrameDecoder) : Nat := decoder.buf.length - decoder.start

/-- Drop what was consumed, where it is all or has grown too long. -/
def compact (decoder : FrameDecoder) : FrameDecoder :=
  if decoder.start = 0 then decoder
  else if decoder.start = decoder.buf.length then ⟨[], 0, Nat.le_refl 0⟩
  else if decoder.start ≥ compactThreshold then ⟨decoder.buf.drop decoder.start, 0, Nat.zero_le _⟩
  else decoder

def push (decoder : FrameDecoder) (bytes : List UInt8) : FrameDecoder where
  buf := decoder.compact.buf ++ bytes
  start := decoder.compact.start
  within := by
    rw [length_append]
    exact Nat.le_trans decoder.compact.within (Nat.le_add_right _ _)

/-- The bytes that are not consumed. -/
def pending (decoder : FrameDecoder) : List UInt8 := decoder.buf.drop decoder.start

theorem length_pending (decoder : FrameDecoder) : decoder.pending.length = decoder.buffered :=
  List.length_drop

def nextFrame (decoder : FrameDecoder) : Except CodecError (Option (List UInt8)) × FrameDecoder :=
  let pending := decoder.pending
  if pending.length < lenPrefix then (.ok none, decoder)
  else
    let len := fromBeBytes pending
    if len > maxFrameSize then (.error (.frameTooLarge len maxFrameSize), decoder)
    else
      let total := lenPrefix + len
      if fits : total ≤ pending.length then
        let payload := (pending.take total).drop lenPrefix
        let decoder : FrameDecoder := ⟨decoder.buf, decoder.start + total, by
          have within := decoder.within
          rw [length_pending, buffered] at fits
          omega⟩
        (.ok (some payload), decoder.compact)
      else (.ok none, decoder)

/-- What a transport does with a decoder. -/
inductive Call where
  | push (bytes : List UInt8)
  | nextFrame
  deriving DecidableEq

/-- The answers to calls, and the decoder after them. -/
def run (decoder : FrameDecoder) :
    List Call → List (Except CodecError (Option (List UInt8))) × FrameDecoder
  | [] => ([], decoder)
  | .push bytes :: rest => (decoder.push bytes).run rest
  | .nextFrame :: rest =>
    let later := decoder.nextFrame.2.run rest
    (decoder.nextFrame.1 :: later.1, later.2)

end FrameDecoder

/-- All bytes pushed. -/
def pushed : List FrameDecoder.Call → List UInt8
  | [] => []
  | .push bytes :: rest => bytes ++ pushed rest
  | .nextFrame :: rest => pushed rest

/-- The payloads among a decoder's answers. -/
def payloads (answers : List (Except CodecError (Option (List UInt8)))) : List (List UInt8) :=
  answers.filterMap fun
    | .ok payload => payload
    | .error _ => none

end Decode

section Cut

theorem fromBeBytes_append {bytes : List UInt8} (long : lenPrefix ≤ bytes.length)
    (more : List UInt8) : fromBeBytes (bytes ++ more) = fromBeBytes bytes := by
  have at_ {index : Nat} (inside : index < lenPrefix) :
      (bytes ++ more).getD index 0 = bytes.getD index 0 := by
    simp only [getD_eq_getElem?_getD]
    rw [getElem?_append_left (by omega)]
  unfold fromBeBytes
  rw [at_ (by decide), at_ (by decide), at_ (by decide), at_ (by decide)]

/-- What `decode_frame` says of the front of a stream, its payload taken as it is. -/
def frontFrame (bytes : List UInt8) : Front (List UInt8) CodecError :=
  match decodeFrame .ok bytes with
  | .ok (payload, total) => .piece payload total
  | .error (.frameTooLarge size max) => .refused (.frameTooLarge size max)
  | .error _ => .short

/-- The front of a stream, by its length prefix. -/
theorem frontFrame_eq (bytes : List UInt8) : frontFrame bytes =
    if bytes.length < lenPrefix then .short
    else if fromBeBytes bytes > maxFrameSize then .refused
      (.frameTooLarge (fromBeBytes bytes) maxFrameSize)
    else if bytes.length < lenPrefix + fromBeBytes bytes then .short
    else .piece ((bytes.take (lenPrefix + fromBeBytes bytes)).drop lenPrefix)
      (lenPrefix + fromBeBytes bytes) := by
  unfold frontFrame decodeFrame
  dsimp only
  by_cases short : bytes.length < lenPrefix
  · rw [if_pos short, if_pos short]
  rw [if_neg short, if_neg short]
  by_cases large : fromBeBytes bytes > maxFrameSize
  · rw [if_pos large, if_pos large]
  rw [if_neg large, if_neg large]
  by_cases part : bytes.length < lenPrefix + fromBeBytes bytes
  · rw [if_pos part, if_pos part]
  · rw [if_neg part, if_neg part]
    rfl

/-- Frames are cut from a stream of bytes. -/
def frames : Cutter UInt8 (List UInt8) CodecError where
  front := frontFrame
  sized := by
    intro stream value size said
    rw [frontFrame_eq] at said
    split at said
    · cases said
    split at said
    · cases said
    split at said
    · cases said
    · cases said
      constructor
      · exact Nat.lt_of_lt_of_le (by decide) (Nat.le_add_right lenPrefix _)
      · omega
  stays := by
    intro stream said more
    rw [frontFrame_eq] at said
    rw [frontFrame_eq, frontFrame_eq]
    split at said
    · exact absurd rfl said
    rename_i long
    rw [if_neg long, if_neg (by rw [length_append]; omega),
      fromBeBytes_append (Nat.le_of_not_lt long)]
    split at said
    · rename_i large
      rw [if_pos large, if_pos large]
    rename_i small
    rw [if_neg small, if_neg small]
    split at said
    · exact absurd rfl said
    rename_i whole
    rw [if_neg whole, if_neg (by rw [length_append]; omega),
      take_append_of_le_length (by omega)]

theorem frames_front (bytes : List UInt8) : frames.front bytes = frontFrame bytes := rfl

/-- A stream cut by its length prefixes from the front: its payloads, then the error, or the number
of bytes that make no frame yet. -/
def cutFrames (bytes : List UInt8) : List (List UInt8) × Except CodecError Nat :=
  ((frames.cut bytes).1, match frontFrame (frames.cut bytes).2 with
    | .refused error => .error error
    | .short | .piece _ _ => .ok (frames.cut bytes).2.length)

end Cut

section Decoder

namespace FrameDecoder

theorem pending_compact (decoder : FrameDecoder) : decoder.compact.pending = decoder.pending := by
  unfold compact
  split
  · rfl
  split
  · rename_i all
    unfold pending
    rw [all, drop_length]
    rfl
  split
  · rfl
  · rfl

theorem pending_push (decoder : FrameDecoder) (bytes : List UInt8) :
    (decoder.push bytes).pending = decoder.pending ++ bytes := by
  rw [← decoder.pending_compact]
  exact drop_append_of_le_length decoder.compact.within

/-- A front as a decoder answers it. -/
def answer : Front (List UInt8) CodecError → Except CodecError (Option (List UInt8))
  | .piece payload _ => .ok (some payload)
  | .short => .ok none
  | .refused error => .error error

/-- A decoder answers what its pending bytes say, and keeps what that leaves of them. -/
theorem nextFrame_eq (decoder : FrameDecoder) :
    decoder.nextFrame.1 = answer (frontFrame decoder.pending) ∧
      decoder.nextFrame.2.pending = frames.after decoder.pending := by
  unfold Cutter.after
  rw [frames_front, frontFrame_eq]
  unfold nextFrame
  dsimp only
  by_cases short : decoder.pending.length < lenPrefix
  · rw [if_pos short, if_pos short]
    exact ⟨rfl, rfl⟩
  rw [if_neg short, if_neg short]
  by_cases large : fromBeBytes decoder.pending > maxFrameSize
  · rw [if_pos large, if_pos large]
    exact ⟨rfl, rfl⟩
  rw [if_neg large, if_neg large]
  by_cases part : decoder.pending.length < lenPrefix + fromBeBytes decoder.pending
  · rw [if_pos part, dif_neg (Nat.not_le_of_lt part)]
    exact ⟨rfl, rfl⟩
  · rw [if_neg part, dif_pos (Nat.le_of_not_lt part)]
    refine ⟨rfl, ?_⟩
    rw [pending_compact]
    exact drop_drop.symm

/-- A call as a reader sees it. -/
def Call.reading : Call → Cutter.Reading UInt8
  | .push bytes => .more bytes
  | .nextFrame => .next

theorem arrived_readings (calls : List Call) :
    Cutter.arrived (calls.map Call.reading) = pushed calls := by
  induction calls with
  | nil => rfl
  | cons call rest ih =>
    cases call with
    | push bytes => exact congrArg (bytes ++ ·) ih
    | nextFrame => exact ih

/-- A decoder with its offset is a reader of its pending bytes. -/
theorem run_eq (decoder : FrameDecoder) (calls : List Call) :
    (decoder.run calls).1 = (frames.read decoder.pending (calls.map Call.reading)).1.map answer ∧
      (decoder.run calls).2.pending = (frames.read decoder.pending (calls.map Call.reading)).2 := by
  induction calls generalizing decoder with
  | nil => exact ⟨rfl, rfl⟩
  | cons call rest ih =>
    cases call with
    | push bytes =>
      have later := ih (decoder.push bytes)
      rw [pending_push] at later
      exact later
    | nextFrame =>
      obtain ⟨said, kept⟩ := decoder.nextFrame_eq
      have later := ih decoder.nextFrame.2
      rw [kept] at later
      refine ⟨?_, later.2⟩
      rw [run, said, later.1]
      rfl

theorem payloads_answers (answers : List (Front (List UInt8) CodecError)) :
    payloads (answers.map answer) = Cutter.pieces answers := by
  unfold payloads Cutter.pieces
  rw [filterMap_map]
  congr 1
  funext said
  cases said <;> rfl

theorem nextFrame_shrinks {payload : List UInt8}
    (yields : decoder.nextFrame.1 = .ok (some payload)) :
    decoder.nextFrame.2.buffered < decoder.buffered := by
  obtain ⟨said, kept⟩ := decoder.nextFrame_eq
  rw [yields] at said
  rw [← length_pending, ← length_pending, kept]
  cases front : frontFrame decoder.pending with
  | piece value size =>
    have shorter := frames.shrinks front
    simpa only [Cutter.after, frames_front, front] using shorter
  | short | refused =>
    rw [front] at said
    cases said

/-- The loop after a push: every frame, until none is complete or one is refused. -/
def drain (decoder : FrameDecoder) : List (List UInt8) × Except CodecError Nat :=
  match _answered : decoder.nextFrame.1 with
  | .ok (some payload) => (payload :: decoder.nextFrame.2.drain.1, decoder.nextFrame.2.drain.2)
  | .ok none => ([], .ok decoder.nextFrame.2.buffered)
  | .error error => ([], .error error)
termination_by decoder.buffered
decreasing_by all_goals exact nextFrame_shrinks _answered

theorem drain_some {payload : List UInt8} (answered : decoder.nextFrame.1 = .ok (some payload)) :
    decoder.drain = (payload :: decoder.nextFrame.2.drain.1, decoder.nextFrame.2.drain.2) := by
  rw [drain]
  split <;> simp_all

theorem drain_none (answered : decoder.nextFrame.1 = .ok none) :
    decoder.drain = ([], .ok decoder.nextFrame.2.buffered) := by
  rw [drain]
  split <;> simp_all

theorem drain_error {error : CodecError}
    (answered : decoder.nextFrame.1 = .error error) : decoder.drain = ([], .error error) := by
  rw [drain]
  split <;> simp_all

/-- What a decoder still yields is what is still to be cut. -/
theorem drain_eq (decoder : FrameDecoder) : decoder.drain = cutFrames decoder.pending := by
  induction count : decoder.buffered using Nat.strongRecOn generalizing decoder with
  | _ count ih =>
    obtain ⟨said, kept⟩ := decoder.nextFrame_eq
    unfold cutFrames
    cases front : frontFrame decoder.pending with
    | piece payload size =>
      rw [front] at said
      have rest : decoder.nextFrame.2.pending = decoder.pending.drop size := by
        simpa only [Cutter.after, frames_front, front] using kept
      have later := ih _ (count ▸ nextFrame_shrinks said) decoder.nextFrame.2 rfl
      rw [drain_some said, later, rest, Cutter.cut_piece ((frames_front _).trans front)]
      rfl
    | short =>
      rw [front] at said
      have same : decoder.nextFrame.2.pending = decoder.pending := by
        simpa only [Cutter.after, frames_front, front] using kept
      have ends : frames.cut decoder.pending = ([], decoder.pending) :=
        Cutter.cut_end (by simp [frames_front, front])
      rw [drain_none said, ends, ← length_pending, same]
      dsimp only
      rw [front]
    | refused error =>
      rw [front] at said
      have ends : frames.cut decoder.pending = ([], decoder.pending) :=
        Cutter.cut_end (by simp [frames_front, front])
      rw [drain_error said, ends]
      dsimp only
      rw [front]

end FrameDecoder

end Decoder

section Encoder

theorem fromBeBytes_toBeBytes {size : Nat} (fits : size < 2 ^ 32) (more : List UInt8) :
    fromBeBytes (toBeBytes size ++ more) = size := by
  simp only [fromBeBytes, toBeBytes, cons_append, getD_cons_zero, getD_cons_succ,
    UInt8.toNat_ofNat']
  omega

theorem frontFrame_frame {payload : List UInt8} (fits : payload.length ≤ maxFrameSize)
    (more : List UInt8) : frontFrame (toBeBytes payload.length ++ payload ++ more) =
      .piece payload (lenPrefix + payload.length) := by
  have prefixed : (toBeBytes payload.length).length = lenPrefix := rfl
  have length : (toBeBytes payload.length ++ payload ++ more).length =
      lenPrefix + payload.length + more.length := by
    rw [length_append, length_append, prefixed]
  have size : fromBeBytes (toBeBytes payload.length ++ payload ++ more) = payload.length := by
    rw [append_assoc]
    exact fromBeBytes_toBeBytes (Nat.lt_of_le_of_lt fits (by decide)) _
  rw [frontFrame_eq, size, length, if_neg (by omega), if_neg (Nat.not_lt_of_le fits),
    if_neg (by omega), take_left' (by rw [length_append, prefixed]), drop_left' prefixed]

/-- Frames one after the other are cut into their payloads, with nothing left. -/
theorem cutFrames_frames {payloads : List (List UInt8)}
    (fits : ∀ payload ∈ payloads, payload.length ≤ maxFrameSize) :
    cutFrames (payloads.flatMap fun payload => toBeBytes payload.length ++ payload) =
      (payloads, .ok 0) := by
  have cuts : frames.cut (payloads.flatMap fun payload => toBeBytes payload.length ++ payload) =
      (payloads, []) := by
    induction payloads with
    | nil => exact Cutter.cut_end (by simp [frames_front, frontFrame_eq, lenPrefix])
    | cons payload rest ih =>
      have said := frontFrame_frame (fits payload mem_cons_self)
        (rest.flatMap fun payload => toBeBytes payload.length ++ payload)
      have prefixed : (toBeBytes payload.length).length = lenPrefix := rfl
      rw [flatMap_cons, Cutter.cut_piece ((frames_front _).trans said),
        drop_left' (by rw [length_append, prefixed]),
        ih fun other member => fits other (mem_cons_of_mem _ member)]
  unfold cutFrames
  rw [cuts]
  rfl

theorem FrameWriter.writeAll_eq {writer : FrameWriter} {bytes : List UInt8}
    (begun : lenPrefix ≤ writer.bytes.length)
    (room : writer.bytes.length + bytes.length ≤ maxFrameSize + lenPrefix) : ∃ capacity,
      writer.writeAll bytes = (true, { writer with bytes := writer.bytes ++ bytes, capacity }) := by
  unfold writeAll
  dsimp only
  split
  · exact ⟨_, rfl⟩
  · unfold growAndWrite
    dsimp only
    rw [if_neg (by omega)]
    exact ⟨_, rfl⟩

theorem FrameWriter.serialize_eq {writer : FrameWriter} {writes : List (List UInt8)}
    (begun : lenPrefix ≤ writer.bytes.length)
    (room : writer.bytes.length + writes.flatten.length ≤ maxFrameSize + lenPrefix) :
    (writer.serialize writes).bytes = writer.bytes ++ writes.flatten ∧
      (writer.serialize writes).overflow = writer.overflow := by
  induction writes generalizing writer with
  | nil => exact ⟨(append_nil _).symm, rfl⟩
  | cons bytes rest ih =>
    rw [flatten_cons, length_append] at room
    obtain ⟨capacity, written⟩ := writer.writeAll_eq begun (by omega : _ + bytes.length ≤ _)
    have later := @ih { writer with bytes := writer.bytes ++ bytes, capacity }
      (by rw [length_append]; omega) (by rw [length_append]; omega)
    rw [serialize, written, flatten_cons, ← append_assoc]
    exact later

theorem encodeFrame_ok {message : Message} (serializes : message.result = .ok ())
    (fits : message.payload.length ≤ maxFrameSize) :
    encodeFrame message = .ok (toBeBytes message.payload.length ++ message.payload) := by
  obtain ⟨bytes, overflow⟩ := @FrameWriter.serialize_eq ⟨List.replicate lenPrefix 0, lenPrefix, none⟩
    message.writes (Nat.le_refl lenPrefix) (by
      rw [Nat.add_comm maxFrameSize]
      exact Nat.add_le_add_left fits lenPrefix)
  unfold encodeFrame
  dsimp only
  rw [overflow, bytes, serializes]
  rfl

end Encoder

section Chunks

theorem mapM_encodeFrame {messages : List Message}
    (fits : ∀ message ∈ messages, message.result = .ok () ∧ message.payload.length ≤ maxFrameSize) :
    messages.mapM encodeFrame =
      .ok (messages.map fun message => toBeBytes message.payload.length ++ message.payload) := by
  induction messages with
  | nil => rfl
  | cons message rest ih =>
    obtain ⟨serializes, within⟩ := fits message mem_cons_self
    rw [mapM_cons, encodeFrame_ok serializes within,
      ih fun other member => fits other (mem_cons_of_mem _ member)]
    rfl

/-- However a stream is cut into pushes, a decoder yields the payloads that its length prefixes cut,
then the same error or the same number of bytes; frames of messages come out as their payloads. -/
theorem decoder_cuts_stream (calls : List FrameDecoder.Call) :
    (payloads (FrameDecoder.new.run calls).1 ++ (FrameDecoder.new.run calls).2.drain.1,
        (FrameDecoder.new.run calls).2.drain.2) = cutFrames (pushed calls) ∧
      (∀ error, .error error ∈ (FrameDecoder.new.run calls).1 →
        cutFrames (pushed calls) = (payloads (FrameDecoder.new.run calls).1, .error error)) ∧
      ∀ messages : List Message,
        (∀ message ∈ messages, message.result = .ok () ∧ message.payload.length ≤ maxFrameSize) →
        ∃ encoded, messages.mapM encodeFrame = .ok encoded ∧ (pushed calls = encoded.flatten →
          payloads (FrameDecoder.new.run calls).1 ++ (FrameDecoder.new.run calls).2.drain.1 =
              messages.map Message.payload ∧
            (FrameDecoder.new.run calls).2.drain.2 = .ok 0) := by
  obtain ⟨answers, kept⟩ := FrameDecoder.new.run_eq calls
  have whole := @Cutter.cut_arrived _ _ _ frames FrameDecoder.new.pending
    (calls.map FrameDecoder.Call.reading)
  rw [FrameDecoder.arrived_readings, ← kept, ← FrameDecoder.payloads_answers, ← answers] at whole
  have same : (payloads (FrameDecoder.new.run calls).1 ++ (FrameDecoder.new.run calls).2.drain.1,
      (FrameDecoder.new.run calls).2.drain.2) = cutFrames (pushed calls) := by
    rw [FrameDecoder.drain_eq]
    have stream : frames.cut (pushed calls) = _ := whole
    unfold cutFrames
    rw [stream]
  refine ⟨same, fun error member => ?_, fun messages fits =>
    ⟨_, mapM_encodeFrame fits, fun arrives => ?_⟩⟩
  · rw [answers] at member
    obtain ⟨said, there, refused⟩ := List.mem_map.mp member
    have said_ : said = .refused error := by
      cases said with
      | refused other => rw [Except.error.inj refused]
      | short | piece => cases refused
    rw [said_] at there
    have last := Cutter.refused_of_mem _ _ there
    rw [← kept, frames_front] at last
    have ends : frames.cut (FrameDecoder.new.run calls).2.pending =
        ([], (FrameDecoder.new.run calls).2.pending) := Cutter.cut_end (by simp [frames_front, last])
    have drained : (FrameDecoder.new.run calls).2.drain = ([], .error error) := by
      rw [FrameDecoder.drain_eq, cutFrames, ends]
      dsimp only
      rw [last]
    rw [← same, drained, append_nil]
  · have cuts := @cutFrames_frames (messages.map Message.payload) fun payload member => by
      obtain ⟨message, there, rfl⟩ := List.mem_map.mp member
      exact (fits message there).2
    rw [arrives] at same
    rw [flatMap_map, flatMap_def] at cuts
    rw [cuts] at same
    exact ⟨congrArg Prod.fst same, congrArg Prod.snd same⟩

/-- Two frames, the second cut within its length prefix. -/
private def twoFrames : List FrameDecoder.Call :=
  [.push [0, 0, 0, 1, 7, 0, 0], .nextFrame, .nextFrame, .push [0, 0], .nextFrame]

theorem decoder_cuts_stream_twice :
    payloads (FrameDecoder.new.run twoFrames).1 ++ (FrameDecoder.new.run twoFrames).2.drain.1 =
        [[7], []] ∧
      (FrameDecoder.new.run twoFrames).2.drain.2 = .ok 0 := by
  obtain ⟨encoded, encodes, yields⟩ := (decoder_cuts_stream twoFrames).2.2
    [⟨[[7]], .ok ()⟩, ⟨[], .ok ()⟩] (by
      intro message member
      rcases mem_cons.mp member with rfl | member
      · exact ⟨rfl, by decide⟩
      · rw [mem_singleton.mp member]
        exact ⟨rfl, by decide⟩)
  exact yields (by
    have frames : [[0, 0, 0, 1, 7], [0, 0, 0, 0]] = encoded := Except.ok.inj encodes
    rw [← frames]
    decide)

end Chunks

end ForgeNode.Protocol
