import ForgeNode.Orchestration.Revisions
import ForgeNode.Orchestration.BoardRows

/-! The run board: what a version number names, as long as no key that was deleted is made
again. -/

namespace ForgeNode.Orchestration

open List Store
open Section (Meets Preserves)

section Effects

variable {limits : OrchestrationLimits} {now : Timestamp} {fresh : Nat} {intent : Intent}
  {inner after : Inner}

end Effects

section Steps

variable {platform : Platform} {limits : OrchestrationLimits} {before : World} {event : Event}

def World.board (world : World) : Store BoardEntry.place := world.inner.ledger.board

/-- The board that is stored, which a restart loads. -/
def World.storedBoard (world : World) : Store BoardEntry.place := world.inner.db.tables.runState

/-- The entry that a write makes of the board it meets. -/
def World.posts (world : World) (request : SetState) (now : Timestamp) : BoardEntry :=
  request.entry ((world.board.get? (request.runId, request.key)).map (·.version)) now

/-- What a step does to the boards: entries go, one is written in memory and in the tables, or those
in memory come from the tables. -/
inductive BoardStep (before : World) (event : Event) (after : World) : Prop where
  | fewer (memory : ∀ entry ∈ after.board, entry ∈ before.board)
      (stored : ∀ entry ∈ after.storedBoard, entry ∈ before.storedBoard)
  | written (request : SetState) (cause : event.cause = .request (.setState request))
      (write : request.delete = false)
      (memory : after.board = before.board.put (before.posts request event.now))
      (stored : after.storedBoard = before.storedBoard.put (before.posts request event.now))
  | reloaded (memory : ∀ entry ∈ after.board, entry ∈ before.storedBoard)
      (stored : ∀ entry ∈ after.storedBoard, entry ∈ before.storedBoard)

end Steps

section Law

variable {platform : Platform} {limits : OrchestrationLimits} {before after : World} {event : Event}

/-- A key of a view is held with the same entry, or at a later version. -/
def Ahead (view board : Store BoardEntry.place) : Prop :=
  ∀ seen ∈ view, ∀ entry ∈ board, entry.place = seen.place → seen.version < entry.version ∨
    entry = seen

theorem Ahead.sub {view board fewer : Store BoardEntry.place} (ahead : Ahead view board)
    (sub : ∀ entry ∈ fewer, entry ∈ board) : Ahead view fewer :=
  fun seen member entry there => ahead seen member entry (sub entry there)

/-- A key that a view holds has the same entry, or a later version, in memory and in the tables. -/
structure Grows (world other : World) : Prop where
  memory : Ahead world.board other.board
  stored : Ahead world.board other.storedBoard

/-- What is known of the boards of a state alone: memory and tables agree on the keys they share,
and versions count from one. -/
structure Paired (world : World) : Prop where
  same : ∀ seen ∈ world.board, ∀ entry ∈ world.storedBoard, entry.place = seen.place → entry = seen
  memory : ∀ entry ∈ world.board, 0 < entry.version
  stored : ∀ entry ∈ world.storedBoard, 0 < entry.version

theorem Paired.step (paired : Paired before) (boards : BoardStep before event after) :
    Paired after := by
  cases boards with
  | fewer memory stored =>
    exact ⟨fun seen there entry held => paired.same seen (memory seen there) entry
      (stored entry held), fun entry there => paired.memory entry (memory entry there),
      fun entry there => paired.stored entry (stored entry there)⟩
  | reloaded memory stored =>
    exact ⟨fun seen there entry held named => eq_of_key (stored entry held)
      (memory seen there) named, fun entry there => paired.stored entry (memory entry there),
      fun entry there => paired.stored entry (stored entry there)⟩
  | written request cause write memory stored =>
    have positive : 0 < (before.posts request event.now).version := Nat.succ_pos _
    refine ⟨fun seen there entry held named => ?_, fun entry there => ?_, fun entry held => ?_⟩
    · rw [memory] at there
      rw [stored] at held
      rcases mem_put.mp there with rfl | ⟨there, apart⟩ <;>
        rcases mem_put.mp held with rfl | ⟨held, apart'⟩
      · rfl
      · exact absurd named apart'
      · exact absurd named.symm apart
      · exact paired.same seen there entry held named
    · rw [memory] at there
      rcases mem_put.mp there with rfl | ⟨there, _⟩
      · exact positive
      · exact paired.memory entry there
    · rw [stored] at held
      rcases mem_put.mp held with rfl | ⟨held, _⟩
      · exact positive
      · exact paired.stored entry held

theorem Paired.initial : Paired (World.initial limits) :=
  ⟨fun seen there => absurd there (not_mem_empty seen), fun entry there =>
  absurd there (not_mem_empty entry),
    fun entry there => absurd there (not_mem_empty entry)⟩

theorem Grows.refl {world : World} (paired : Paired world) : Grows world world :=
  ⟨fun _ member _ there named => .inr (eq_of_key there member named),
    fun seen member entry there named => .inr (paired.same seen member entry there named)⟩

/-- The step makes a key again that the board held in an earlier view. -/
def recreates (world : World) (taken : Taken World Event) : Bool :=
  match taken.event.cause with
  | .request (.setState request) => !request.delete &&
      (taken.before.board.get? (request.runId, request.key)).isNone &&
      (world.board.get? (request.runId, request.key)).isSome
  | _ => false

theorem Grows.step {world : World} (grows : Grows world before)
    (boards : BoardStep before event after)
    (fresh : recreates world ⟨before, event, after⟩ = false) : Grows world after := by
  cases boards with
  | fewer memory stored => exact ⟨grows.memory.sub memory, grows.stored.sub stored⟩
  | reloaded memory stored => exact ⟨grows.stored.sub memory, grows.stored.sub stored⟩
  | written request cause write memory stored =>
    have new : ∀ seen ∈ world.board, (before.posts request event.now).place = seen.place →
        seen.version < (before.posts request event.now).version := by
      intro seen member named
      cases current : before.board.get? (request.runId, request.key) with
      | none =>
        have place : seen.place = (request.runId, request.key) := named.symm
        have present := place ▸ get?_of_mem member
        simp [recreates, cause, write, current, present] at fresh
      | some old =>
        have place := key_of_get? current
        have below : seen.version ≤ old.version := by
          rcases grows.memory seen member old (mem_of_get? current)
            (place.trans named) with less | same
          · exact less.le
          · rw [same]
        rw [World.posts, current]
        exact Nat.lt_succ_of_le below
    have put {board : Store BoardEntry.place} (ahead : Ahead world.board board) :
        Ahead world.board (board.put (before.posts request event.now)) := by
      intro seen member entry there named
      rcases mem_put.mp there with rfl | ⟨held, _⟩
      · exact .inl (new seen member named)
      · exact ahead seen member entry held named
    exact ⟨memory ▸ put grows.memory, stored ▸ put grows.stored⟩

/-- A write or delete that succeeds. -/
def World.Writes (platform : Platform) (before : World) (event : Event) (request : SetState) :
    Prop :=
  event.cause = .request (.setState request) ∧
    ((setState platform request event.now).run (before.meeting event).inner).1.isOk = true

end Law

end ForgeNode.Orchestration
