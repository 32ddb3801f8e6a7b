import ForgeNode.Lib.Run
import ForgeNode.Lib.Section
import ForgeNode.Lib.Store
import ForgeNode.Orchestration.Ledger

/-! Requests that carry an id are dispatched once: `handle` split at its lock acquisitions,
and any number of calls of it at once. -/

namespace ForgeNode.Orchestration

open List Store

variable {fails : Bool} {key : RequestKey} {now : Timestamp}

universe u

section Model

variable {Response Bytes : Type}

/-- The request id with `caller_key`. -/
abbrev RequestKey := String × String

def callerKey (display : SessionId → String) : Option SessionId → String
  | some id => display id
  | none => "human"

/-- `rmp_serde`, which writes a response and reads it back. -/
structure Codec (Response Bytes : Type) where
  encode : Response → Except String Bytes
  decode : Bytes → Except String Response

/-- A row of `orchestration_receipts`. -/
structure Receipt (Bytes : Type) where
  key : RequestKey
  response : Bytes
  createdAt : Timestamp
  deriving DecidableEq

/-- `RECEIPT_TTL`, in seconds. -/
def receiptTtl : Nat := 24 * 60 * 60

/-- Where a call of `handle` is: before its first read, its claim, its second read, its
dispatch, its write, and the release that its claim's destructor makes. -/
inductive Phase (Response : Type) where
  | arrived
  | missed
  | claimed
  | dispatching
  | storing (response : Response)
  | releasing (result : Except ProtocolError Response)

structure Handling (Response : Type) where
  id : Nat
  key : RequestKey
  phase : Phase Response

/-- What the calls share, the calls under way, and what was answered so far: the dispatches
that returned Ok and the results of the calls that ended. -/
structure Desk (Response Bytes : Type) where
  receipts : Store (@Receipt.key Bytes)
  inFlight : List RequestKey
  calls : Store (@Handling.id Response)
  dispatched : List (RequestKey × Response)
  returned : List (RequestKey × Except ProtocolError Response)

namespace Desk

/-- `load_receipt`: a receipt past its time is as none. -/
def loadReceipt (codec : Codec Response Bytes) (desk : Desk Response Bytes) (key : RequestKey)
    (now : Timestamp) (fails : Bool) : Except ProtocolError (Option Response) :=
  if fails then .error (dbErr (.sqlite "disk I/O error"))
  else match desk.receipts.get? key with
    | none => .ok none
    | some receipt =>
      if now - receipt.createdAt > receiptTtl then .ok none
      else match codec.decode receipt.response with
        | .ok response => .ok (some response)
        | .error message => .error (.internal message)

/-- `store_receipt`, whose failure is only logged. -/
def storeReceipt (codec : Codec Response Bytes) (desk : Desk Response Bytes) (key : RequestKey)
    (response : Response) (now : Timestamp) (fails : Bool) :
    Store (@Receipt.key Bytes) :=
  match codec.encode response, fails with
  | .ok bytes, false => desk.receipts.put ⟨key, bytes, now⟩
  | _, _ => desk.receipts

def go (desk : Desk Response Bytes) (call : Handling Response) (phase : Phase Response) :
    Desk Response Bytes :=
  { desk with calls := desk.calls.modify call.id (fun row => { row with phase }) fun _ => rfl }

def finish (desk : Desk Response Bytes) (call : Handling Response)
    (result : Except ProtocolError Response) : Desk Response Bytes :=
  { desk with
    calls := desk.calls.retain fun row => row.id != call.id
    returned := (call.key, result) :: desk.returned }

/-- The next lock acquisition of a call; `outcome` is what `dispatch` gives where it runs. -/
def advance (codec : Codec Response Bytes) (desk : Desk Response Bytes) (call : Handling Response)
    (now : Timestamp) (fails : Bool) (outcome : Except ProtocolError Response) :
    Desk Response Bytes :=
  match call.phase with
  | .arrived => match desk.loadReceipt codec call.key now fails with
    | .error error => desk.finish call (.error error)
    | .ok (some response) => desk.finish call (.ok response)
    | .ok none => desk.go call .missed
  | .missed =>
    if call.key ∈ desk.inFlight then desk.finish call (.error (.conflict
      "a request with this id is still in progress; retry once it finishes"))
    else { desk.go call .claimed with inFlight := call.key :: desk.inFlight }
  | .claimed => match desk.loadReceipt codec call.key now fails with
    | .error error => desk.go call (.releasing (.error error))
    | .ok (some response) => desk.go call (.releasing (.ok response))
    | .ok none => desk.go call .dispatching
  | .dispatching => match outcome with
    | .error error => desk.go call (.releasing (.error error))
    | .ok response => { desk.go call (.storing response) with
        dispatched := (call.key, response) :: desk.dispatched }
  | .storing response => { desk.go call (.releasing (.ok response)) with
      receipts := desk.storeReceipt codec call.key response now fails }
  | .releasing result => { desk.finish call result with
      inFlight := desk.inFlight.filter (· != call.key) }

/-- A call that comes in, or the next section of one, with the clock, whether its statement
fails and what the dispatch gives. -/
inductive Turn (Response : Type) where
  | handle (id : Nat) (requestId : String) (caller : Option SessionId)
  | advance (id : Nat) (now : Timestamp) (fails : Bool) (outcome : Except ProtocolError Response)

def step (codec : Codec Response Bytes) (display : SessionId → String)
    (desk : Desk Response Bytes) : Turn Response → Desk Response Bytes
  | .handle id requestId caller =>
    { desk with calls := desk.calls.put ⟨id, (requestId, callerKey display caller), .arrived⟩ }
  | .advance id now fails outcome => match desk.calls.get? id with
    | none => desk
    | some call => desk.advance codec call now fails outcome

/-- A new call is one of its own. -/
def allows (desk : Desk Response Bytes) : Turn Response → Bool
  | .handle id _ _ => (desk.calls.get? id).isNone
  | .advance _ _ _ _ => true

def Step (codec : Codec Response Bytes) (display : SessionId → String)
    (before : Desk Response Bytes) (turn : Turn Response) (after : Desk Response Bytes) : Prop :=
  before.allows turn = true ∧ after = before.step codec display turn

def empty : Desk Response Bytes := ⟨Store.empty, [], Store.empty, [], []⟩

/-- A receipt is stored where it is to be, and read before its time is over. -/
def assumes (codec : Codec Response Bytes) (desk : Desk Response Bytes) : Turn Response → Bool
  | .handle _ _ _ => true
  | .advance id now fails _ => (desk.calls.get? id).all fun call => match call.phase with
    | .arrived | .claimed => (desk.receipts.get? call.key).all fun receipt =>
        now ≤ receipt.createdAt + receiptTtl
    | .storing response => !fails && (codec.encode response).isOk
    | _ => true

end Desk

end Model

section Invariant

variable {Response Bytes : Type} {codec : Codec Response Bytes} {display : SessionId → String}
  {desk : Desk Response Bytes}

/-- The call has claimed its key. -/
def Handling.holds (call : Handling Response) : Prop :=
  match call.phase with
  | .arrived | .missed => False
  | _ => True

/-- A claim is held by one call, a dispatch that returned Ok left its receipt or is about to,
and what is known of a key comes from its one dispatch. -/
structure Once (codec : Codec Response Bytes) (desk : Desk Response Bytes) : Prop where
  claims : ∀ call ∈ desk.calls, call.holds → call.key ∈ desk.inFlight
  alone : ∀ call ∈ desk.calls, ∀ other ∈ desk.calls, call.holds → other.holds →
    call.key = other.key → call = other
  once : (desk.dispatched.map (·.1)).Nodup
  stored : ∀ entry ∈ desk.dispatched,
    (∃ receipt, desk.receipts.get? entry.1 = some receipt ∧
        codec.decode receipt.response = .ok entry.2) ∨
      ∃ call ∈ desk.calls, call.key = entry.1 ∧ call.phase = .storing entry.2
  faithful : ∀ receipt ∈ desk.receipts, ∃ response,
    codec.decode receipt.response = .ok response ∧ (receipt.key, response) ∈ desk.dispatched
  storing : ∀ call ∈ desk.calls, ∀ response, call.phase = .storing response →
    (call.key, response) ∈ desk.dispatched
  releasing : ∀ call ∈ desk.calls, ∀ response, call.phase = .releasing (.ok response) →
    (call.key, response) ∈ desk.dispatched
  idle : ∀ call ∈ desk.calls, call.phase = .dispatching →
    ∀ response, (call.key, response) ∉ desk.dispatched
  answered : ∀ key response, (key, .ok response) ∈ desk.returned →
    (key, response) ∈ desk.dispatched

theorem Once.response_eq (once : Once codec desk) {first second : Response}
    (left : (key, first) ∈ desk.dispatched) (right : (key, second) ∈ desk.dispatched) :
    first = second :=
  congrArg Prod.snd (inj_on_of_nodup_map once.once left right rfl)

/-- What a read gives back is the response of the key's dispatch. -/
theorem Once.loaded (once : Once codec desk)
    {response : Response} (read : desk.loadReceipt codec key now fails = .ok (some response)) :
    (key, response) ∈ desk.dispatched := by
  unfold Desk.loadReceipt at read
  split at read
  · cases read
  · split at read
    · cases read
    · rename_i receipt found
      obtain ⟨known, decoded, member⟩ := once.faithful receipt (mem_of_get? found)
      rw [key_of_get? found] at member
      split at read
      · cases read
      · rw [decoded] at read
        cases read
        exact member

theorem Desk.no_receipt (read : desk.loadReceipt codec key now fails = .ok none)
    (fresh : ∀ receipt, desk.receipts.get? key = some receipt → now ≤ receipt.createdAt +
      receiptTtl) :
    desk.receipts.get? key = none := by
  unfold Desk.loadReceipt at read
  split at read
  · cases read
  · split at read
    · assumption
    · rename_i receipt found
      split at read
      · rename_i late
        exact absurd (Nat.sub_le_iff_le_add'.mpr (fresh receipt found)) (Nat.not_le.mpr late)
      · split at read <;> cases read

theorem Desk.mem_go {call row : Handling Response} {phase : Phase Response}
    (member : call ∈ desk.calls) : row ∈ (desk.go call phase).calls ↔
      row = { call with phase } ∨ row ∈ desk.calls ∧ row.id ≠ call.id := by
  unfold Desk.go
  rw [mem_modify]
  constructor
  · rintro (⟨old, there, named, rfl⟩ | other)
    · exact .inl (by rw [eq_of_key there member named])
    · exact .inr other
  · rintro (rfl | other)
    · exact .inl ⟨call, member, rfl, rfl⟩
    · exact .inr other

theorem Desk.mem_finish {call row : Handling Response} {result : Except ProtocolError Response} :
    row ∈ (desk.finish call result).calls ↔ row ∈ desk.calls ∧ row.id ≠ call.id := by
  unfold Desk.finish
  rw [Store.mem_retain, bne_iff_ne]

theorem Once.alone_go (once : Once codec desk) {call : Handling Response}
    (member : call ∈ desk.calls) {phase : Phase Response}
    (held : ({ call with phase } : Handling Response).holds → call.holds) :
    ∀ row ∈ (desk.go call phase).calls, ∀ other ∈ (desk.go call phase).calls,
      row.holds → other.holds → row.key = other.key → row = other := by
  intro row there other there' holds holds' same
  rcases (Desk.mem_go member).mp there with rfl | ⟨old, differ⟩ <;>
    rcases (Desk.mem_go member).mp there' with rfl | ⟨old', differ'⟩
  · rfl
  · exact absurd (congrArg Handling.id (once.alone call member other old' (held holds) holds'
      same).symm) differ'
  · exact absurd (congrArg Handling.id (once.alone row old call member holds (held holds') same))
      differ
  · exact once.alone row old other old' holds holds' same

/-- A call goes to a phase that it may be in, and takes no claim with it. -/
theorem Once.go (once : Once codec desk) {call : Handling Response} (member : call ∈ desk.calls)
    {phase : Phase Response} (held : ({ call with phase } : Handling Response).holds → call.holds)
    (kept : ∀ response, call.phase ≠ .storing response)
    (storing : ∀ response, phase = .storing response → (call.key, response) ∈ desk.dispatched)
    (releasing : ∀ response, phase = .releasing (.ok response) → (call.key, response) ∈
      desk.dispatched)
    (idle : phase = .dispatching → ∀ response, (call.key, response) ∉ desk.dispatched) :
    Once codec (desk.go call phase) where
  claims := by
    intro row there holds
    rcases (Desk.mem_go member).mp there with rfl | ⟨there, _⟩
    · exact once.claims call member (held holds)
    · exact once.claims row there holds
  alone := once.alone_go member held
  once := once.once
  stored := by
    intro entry known
    rcases once.stored entry known with receipt | ⟨row, there, named, phase'⟩
    · exact .inl receipt
    · refine .inr ⟨row, (Desk.mem_go member).mpr (.inr ⟨there, fun same => ?_⟩), named, phase'⟩
      rw [eq_of_key there member same] at phase'
      exact kept _ phase'
  faithful := once.faithful
  storing := by
    intro row there response phase'
    rcases (Desk.mem_go member).mp there with rfl | ⟨old, _⟩
    · exact storing response phase'
    · exact once.storing row old response phase'
  releasing := by
    intro row there response phase'
    rcases (Desk.mem_go member).mp there with rfl | ⟨old, _⟩
    · exact releasing response phase'
    · exact once.releasing row old response phase'
  idle := by
    intro row there phase'
    rcases (Desk.mem_go member).mp there with rfl | ⟨old, _⟩
    · exact idle phase'
    · exact once.idle row old phase'
  answered := once.answered

/-- A call ends with what it was given, or with an error. -/
theorem Once.finish (once : Once codec desk) {call : Handling Response} (member : call ∈ desk.calls)
    {result : Except ProtocolError Response} (kept : ∀ response, call.phase ≠ .storing response)
    (given : ∀ response, result = .ok response → (call.key, response) ∈ desk.dispatched) :
    Once codec (desk.finish call result) where
  claims := fun row there => once.claims row (Desk.mem_finish.mp there).1
  alone := fun row there other there' => once.alone row (Desk.mem_finish.mp there).1 other
    (Desk.mem_finish.mp there').1
  once := once.once
  stored := by
    intro entry known
    rcases once.stored entry known with receipt | ⟨row, there, named, phase'⟩
    · exact .inl receipt
    · refine .inr ⟨row, Desk.mem_finish.mpr ⟨there, fun same => ?_⟩, named, phase'⟩
      rw [eq_of_key there member same] at phase'
      exact kept _ phase'
  faithful := once.faithful
  storing := fun row there => once.storing row (Desk.mem_finish.mp there).1
  releasing := fun row there => once.releasing row (Desk.mem_finish.mp there).1
  idle := fun row there => once.idle row (Desk.mem_finish.mp there).1
  answered := by
    intro key response known
    rcases mem_cons.mp known with same | old
    · cases same
      exact given response rfl
    · exact once.answered key response old

/-- A key that nobody holds is claimed by one call. -/
theorem Once.claim (once : Once codec desk) {call : Handling Response} (member : call ∈ desk.calls)
    (missed : call.phase = .missed) (free : call.key ∉ desk.inFlight) :
    Once codec { desk.go call .claimed with inFlight := call.key :: desk.inFlight } where
  claims := by
    intro row there holds
    rcases (Desk.mem_go member).mp there with rfl | ⟨old, _⟩
    · exact mem_cons_self
    · exact mem_cons_of_mem _ (once.claims row old holds)
  alone := by
    intro row there other there' holds holds' same
    rcases (Desk.mem_go member).mp there with rfl | ⟨old, _⟩ <;>
      rcases (Desk.mem_go member).mp there' with rfl | ⟨old', _⟩
    · rfl
    · exact absurd (same ▸ once.claims other old' holds') free
    · exact absurd (same ▸ once.claims row old holds) free
    · exact once.alone row old other old' holds holds' same
  once := once.once
  stored := by
    intro entry known
    rcases once.stored entry known with receipt | ⟨row, there, named, phase'⟩
    · exact .inl receipt
    · refine .inr ⟨row, (Desk.mem_go member).mpr (.inr ⟨there, fun same => ?_⟩), named, phase'⟩
      rw [eq_of_key there member same, missed] at phase'
      cases phase'
  faithful := once.faithful
  storing := by
    intro row there response phase'
    rcases (Desk.mem_go member).mp there with rfl | ⟨old, _⟩
    · cases phase'
    · exact once.storing row old response phase'
  releasing := by
    intro row there response phase'
    rcases (Desk.mem_go member).mp there with rfl | ⟨old, _⟩
    · cases phase'
    · exact once.releasing row old response phase'
  idle := by
    intro row there phase'
    rcases (Desk.mem_go member).mp there with rfl | ⟨old, _⟩
    · cases phase'
    · exact once.idle row old phase'
  answered := once.answered

/-- The one dispatch of a key returns Ok. -/
theorem Once.dispatch (once : Once codec desk) {call : Handling Response}
    (member : call ∈ desk.calls) (dispatching : call.phase = .dispatching) (response : Response) :
    Once codec { desk.go call (.storing response) with
      dispatched := (call.key, response) :: desk.dispatched } where
  claims := by
    intro row there holds
    rcases (Desk.mem_go member).mp there with rfl | ⟨old, _⟩
    · exact once.claims call member (by simp [Handling.holds, dispatching])
    · exact once.claims row old holds
  alone := once.alone_go member fun _ => by simp [Handling.holds, dispatching]
  once := by
    refine nodup_cons.mpr ⟨fun known => ?_, once.once⟩
    obtain ⟨entry, there, named⟩ := List.mem_map.mp known
    have same : entry.1 = call.key := named
    exact once.idle call member dispatching entry.2 (same ▸ there)
  stored := by
    intro entry known
    rcases mem_cons.mp known with rfl | old
    · exact .inr ⟨_, (Desk.mem_go member).mpr (.inl rfl), rfl, rfl⟩
    · rcases once.stored entry old with receipt | ⟨row, there, named, phase'⟩
      · exact .inl receipt
      · refine .inr ⟨row, (Desk.mem_go member).mpr (.inr ⟨there, fun same => ?_⟩), named, phase'⟩
        rw [eq_of_key there member same, dispatching] at phase'
        cases phase'
  faithful := by
    intro receipt there
    obtain ⟨known, decoded, member⟩ := once.faithful receipt there
    exact ⟨known, decoded, mem_cons_of_mem _ member⟩
  storing := by
    intro row there other phase'
    rcases (Desk.mem_go member).mp there with rfl | ⟨old, _⟩
    · cases phase'
      exact mem_cons_self
    · exact mem_cons_of_mem _ (once.storing row old other phase')
  releasing := by
    intro row there other phase'
    rcases (Desk.mem_go member).mp there with rfl | ⟨old, _⟩
    · cases phase'
    · exact mem_cons_of_mem _ (once.releasing row old other phase')
  idle := by
    intro row there phase' other known
    rcases (Desk.mem_go member).mp there with rfl | ⟨old, differ⟩
    · cases phase'
    · rcases mem_cons.mp known with same | known
      · -- Two calls that dispatch one key would both hold it.
        refine differ (congrArg Handling.id (once.alone row old call member ?_ ?_
          (Prod.mk.inj same).1))
        · simp [Handling.holds, phase']
        · simp [Handling.holds, dispatching]
      · exact once.idle row old phase' other known
  answered := fun key other known => mem_cons_of_mem _ (once.answered key other known)

/-- The receipt of a dispatch is stored. -/
theorem Once.store (once : Once codec desk)
    (faithful : ∀ response bytes, codec.encode response = .ok bytes → codec.decode bytes =
      .ok response)
    {call : Handling Response} (member : call ∈ desk.calls) {response : Response}
    (storing : call.phase = .storing response) {bytes : Bytes}
    (encoded : codec.encode response = .ok bytes) :
    Once codec { desk.go call (.releasing (.ok response)) with
      receipts := desk.receipts.put ⟨call.key, bytes, now⟩ } := by
  have decoded := faithful response bytes encoded
  have known := once.storing call member response storing
  have holding : call.holds := by simp [Handling.holds, storing]
  refine ⟨?_, ?_, once.once, ?_, ?_, ?_, ?_, ?_, once.answered⟩
  · intro row there holds
    rcases (Desk.mem_go member).mp there with rfl | ⟨old, _⟩
    · exact once.claims call member holding
    · exact once.claims row old holds
  · exact once.alone_go member fun _ => holding
  · intro entry there
    dsimp only
    rw [get?_put]
    by_cases here : call.key = entry.1
    · refine .inl ⟨_, if_pos here, ?_⟩
      have same : entry.2 = response := once.response_eq (here ▸ there) known
      rw [same]
      exact decoded
    · rw [if_neg here]
      rcases once.stored entry there with receipt | ⟨row, held, named, phase'⟩
      · exact .inl receipt
      · refine .inr ⟨row, (Desk.mem_go member).mpr (.inr ⟨held, fun same => here ?_⟩), named, phase'⟩
        rw [← named, eq_of_key held member same]
  · intro receipt there
    rcases mem_put.mp there with rfl | ⟨old, _⟩
    · exact ⟨response, decoded, known⟩
    · exact once.faithful receipt old
  · intro row there other phase'
    rcases (Desk.mem_go member).mp there with rfl | ⟨old, _⟩
    · cases phase'
    · exact once.storing row old other phase'
  · intro row there other phase'
    rcases (Desk.mem_go member).mp there with rfl | ⟨old, _⟩
    · cases phase'
      exact known
    · exact once.releasing row old other phase'
  · intro row there phase'
    rcases (Desk.mem_go member).mp there with rfl | ⟨old, _⟩
    · cases phase'
    · exact once.idle row old phase'

theorem Once.release (once : Once codec desk)
    (free : ∀ call ∈ desk.calls, call.holds → call.key ≠ key) :
    Once codec { desk with inFlight := desk.inFlight.filter (· != key) } :=
  { once with claims := fun call there holds =>
      mem_filter.mpr ⟨once.claims call there holds, bne_iff_ne.mpr (free call there holds)⟩ }

theorem Once.advance (once : Once codec desk)
    (roundTrip : ∀ response bytes, codec.encode response = .ok bytes → codec.decode bytes =
      .ok response)
    {call : Handling Response} (member : call ∈ desk.calls)
    {outcome : Except ProtocolError Response}
    (assumed : desk.assumes codec (.advance call.id now fails outcome) = true) :
    Once codec (desk.advance codec call now fails outcome) := by
  have found := get?_of_mem member
  simp only [Desk.assumes, found, Option.all_some] at assumed
  unfold Desk.advance
  split
  · rename_i arrived
    have kept : ∀ response, call.phase ≠ .storing response := by simp [arrived]
    split
    · exact once.finish member kept (by simp)
    · rename_i response read
      refine once.finish member kept fun other same => ?_
      cases same
      exact once.loaded read
    · exact once.go member (by simp [Handling.holds]) kept (by simp) (by simp) (by simp)
  · rename_i missed
    split
    · exact once.finish member (by simp [missed]) (by simp)
    · rename_i free
      exact once.claim member missed free
  · rename_i claimed
    have kept : ∀ response, call.phase ≠ .storing response := by simp [claimed]
    have holding : call.holds := by simp [Handling.holds, claimed]
    split
    · exact once.go member (fun _ => holding) kept (by simp) (by simp) (by simp)
    · rename_i response read
      refine once.go member (fun _ => holding) kept (by simp) (fun other same => ?_) (by simp)
      cases same
      exact once.loaded read
    · rename_i read
      rw [claimed] at assumed
      refine once.go member (fun _ => holding) kept (by simp) (by simp) fun _ response known => ?_
      have absent := Desk.no_receipt read fun receipt there => by simpa [there] using assumed
      rcases once.stored _ known with ⟨receipt, there, _⟩ | ⟨row, there, named, phase⟩
      · rw [absent] at there
        cases there
      · -- The call that is about to store holds the claim, so it is this one.
        have same := once.alone row there call member (by simp [Handling.holds, phase]) holding named
        rw [same, claimed] at phase
        cases phase
  · rename_i dispatching
    split
    · exact once.go member (fun _ => by simp [Handling.holds, dispatching]) (by simp [dispatching])
        (by simp) (by simp) (by simp)
    · exact once.dispatch member dispatching _
  · rename_i response storing
    rw [storing] at assumed
    obtain ⟨works, encodes⟩ := Bool.and_eq_true_iff.mp assumed
    unfold Desk.storeReceipt
    cases encoded : codec.encode response with
    | error message =>
      rw [encoded] at encodes
      cases encodes
    | ok bytes =>
      cases fails with
      | true => cases works
      | false => exact once.store roundTrip member storing encoded
  · rename_i result releasing
    have finished : Once codec (desk.finish call result) :=
      once.finish member (by simp [releasing]) fun response same =>
        once.releasing call member response (same ▸ releasing)
    refine finished.release fun row there holds same => ?_
    obtain ⟨old, differ⟩ := Desk.mem_finish.mp there
    exact differ (congrArg Handling.id (once.alone row old call member holds
      (by simp [Handling.holds, releasing]) same))

theorem Once.step (once : Once codec desk)
    (roundTrip : ∀ response bytes, codec.encode response = .ok bytes → codec.decode bytes =
      .ok response)
    {turn : Desk.Turn Response} (allowed : desk.allows turn = true)
    (assumed : desk.assumes codec turn = true) : Once codec (desk.step codec display turn) := by
  cases turn with
  | handle id requestId caller =>
    have new : desk.calls.get? id = none := Option.isNone_iff_eq_none.mp allowed
    have mem {row : Handling Response} (there : row ∈ (desk.step codec display
        (.handle id requestId caller)).calls) : row.phase = .arrived ∨ row ∈ desk.calls := by
      rcases mem_put.mp there with rfl | ⟨old, _⟩
      · exact .inl rfl
      · exact .inr old
    have old {row : Handling Response} (there : row ∈ (desk.step codec display
        (.handle id requestId caller)).calls) (other : row.phase ≠ .arrived) : row ∈ desk.calls :=
      (mem there).resolve_left other
    have held {row : Handling Response} (holds : row.holds) : row.phase ≠ .arrived := by
      intro arrived
      simp [Handling.holds, arrived] at holds
    exact {
      claims := fun row there holds => once.claims row (old there (held holds)) holds
      alone := fun row there other there' holds holds' =>
        once.alone row (old there (held holds)) other (old there' (held holds')) holds holds'
      once := once.once
      stored := by
        intro entry known
        rcases once.stored entry known with receipt | ⟨row, there, rest⟩
        · exact .inl receipt
        · exact .inr ⟨row, mem_put.mpr (.inr ⟨there, get?_eq_none.mp new row there⟩),
            rest⟩
      faithful := once.faithful
      storing := fun row there response phase => once.storing row (old there (by simp [phase]))
        response phase
      releasing := fun row there response phase =>
        once.releasing row (old there (by simp [phase])) response phase
      idle := fun row there phase => once.idle row (old there (by simp [phase])) phase
      answered := once.answered }
  | advance id now fails outcome =>
    simp only [Desk.step]
    split
    · exact once
    · rename_i call found
      rw [← key_of_get? found] at assumed
      exact once.advance roundTrip (mem_of_get? found) assumed

theorem Once.empty : Once codec (Desk.empty : Desk Response Bytes) where
  claims := fun row there => absurd there (not_mem_empty row)
  alone := fun row there => absurd there (not_mem_empty row)
  once := nodup_nil
  stored := fun _ known => by cases known
  faithful := fun receipt there => absurd there (not_mem_empty receipt)
  storing := fun row there => absurd there (not_mem_empty row)
  releasing := fun row there => absurd there (not_mem_empty row)
  idle := fun row there => absurd there (not_mem_empty row)
  answered := fun _ _ known => by cases known

end Invariant

section Runs

variable {Response Bytes : Type} {codec : Codec Response Bytes} {display : SessionId → String}

/-- One dispatch of the key at most returned Ok, and what was returned with Ok is its response. -/
def AnsweredOnce (desk : Desk Response Bytes) (key : RequestKey) : Prop :=
  (desk.dispatched.filter fun entry => entry.1 == key).length ≤ 1 ∧
    ∀ response, (key, .ok response) ∈ desk.returned → (key, response) ∈ desk.dispatched

theorem Once.answeredOnce {desk : Desk Response Bytes} (once : Once codec desk) (key : RequestKey) :
    AnsweredOnce desk key := by
  refine ⟨?_, fun response => once.answered key response⟩
  have counted : (desk.dispatched.map (·.1)).count key ≤ 1 :=
    nodup_iff_count_le_one.mp once.once key
  rwa [List.count, countP_map, countP_eq_length_filter] at counted

/-- In every interleaving of calls, each request id of each caller is answered once. -/
theorem requests_idempotent
    (roundTrip : ∀ response bytes, codec.encode response = .ok bytes → codec.decode bytes =
      .ok response)
    {steps : List (Taken (Desk Response Bytes) (Desk.Turn Response))} {last : Desk Response Bytes}
    (run : ForgeNode.Run (Desk.Step codec display) Desk.empty steps last)
    (assumed : ∀ taken ∈ steps, taken.before.assumes codec taken.event = true)
    (requestId : String) (caller : Option SessionId) :
    ∀ desk ∈ ForgeNode.Run.states Desk.empty steps,
      AnsweredOnce desk (requestId, callerKey display caller) := by
  have kept := run.guarded_states (Once codec)
    (fun taken => taken.before.assumes codec taken.event = true)
    (fun {before turn after} step once assumed => by
      obtain ⟨allowed, rfl⟩ := step
      exact once.step roundTrip allowed assumed) .empty assumed
  intro desk member
  exact (kept desk member).answeredOnce _

/-- A retry during the first call is refused, and one after it is given its response. -/
def retried : List (Desk.Turn String) :=
  let advance (id : Nat) : Desk.Turn String := .advance id 0 false (.ok "done")
  [.handle 0 "request" none, .handle 1 "request" none, advance 0, advance 1, advance 0, advance 1,
    advance 0, advance 0, .handle 2 "request" none, advance 2, advance 0, advance 0, advance 2,
    .handle 3 "request" none, advance 3]

theorem requests_idempotent_retried :
    (retried.foldl (Desk.step ⟨.ok, .ok⟩ toString) Desk.empty).dispatched.length = 1 ∧
      ∀ desk ∈ ForgeNode.Run.states Desk.empty
        (ForgeNode.Run.trace (Desk.step ⟨.ok, .ok⟩ toString) Desk.empty retried),
        AnsweredOnce desk ("request", callerKey toString none) :=
  ⟨by decide +kernel, @requests_idempotent String String ⟨.ok, .ok⟩ toString
    (fun response bytes encoded => by rw [← Except.ok.inj encoded]) _ _
    (@ForgeNode.Run.of_admits _ _ _ _ (Desk.step ⟨.ok, .ok⟩ toString) Desk.allows _
      (fun allowed => ⟨allowed, rfl⟩) (by decide +kernel))
    (by decide +kernel) "request" none⟩

end Runs

end ForgeNode.Orchestration
