/-! Streams that are cut into pieces from the front, by what their front says: what is cut from a
stream does not depend on how the stream arrives. -/

namespace ForgeNode

universe u v w

/-- What the front of a stream says: too little has arrived, a piece of some size, or a refusal. -/
inductive Front (β : Type v) (ε : Type w) where
  | short
  | piece (value : β) (size : Nat)
  | refused (error : ε)
  deriving DecidableEq

/-- A way to read fronts. Once a front says something, it says so however much more arrives. -/
structure Cutter (α : Type u) (β : Type v) (ε : Type w) where
  front : List α → Front β ε
  sized : ∀ {stream value size}, front stream = .piece value size → 0 < size ∧ size ≤ stream.length
  stays : ∀ {stream}, front stream ≠ .short → ∀ more, front (stream ++ more) = front stream

namespace Cutter

variable {α : Type u} {β : Type v} {ε : Type w} (cutter : Cutter α β ε)

theorem shrinks {stream : List α} {value : β} {size : Nat}
    (said : cutter.front stream = .piece value size) :
    (stream.drop size).length < stream.length := by
  have sized := cutter.sized said
  rw [List.length_drop]
  omega

/-- Every piece of a stream, and what is left once its front says short or refused. -/
def cut (stream : List α) : List β × List α :=
  match _said : cutter.front stream with
  | .piece value size => (value :: (cut (stream.drop size)).1, (cut (stream.drop size)).2)
  | .short | .refused _ => ([], stream)
termination_by stream.length
decreasing_by all_goals exact cutter.shrinks _said

variable {cutter} {stream more : List α}

theorem cut_piece {value : β} {size : Nat} (said : cutter.front stream = .piece value size) :
    cutter.cut stream =
      (value :: (cutter.cut (stream.drop size)).1, (cutter.cut (stream.drop size)).2) := by
  rw [cut]
  split <;> simp_all

theorem cut_end (said : ∀ value size, cutter.front stream ≠ .piece value size) :
    cutter.cut stream = ([], stream) := by
  rw [cut]
  split <;> simp_all

theorem front_append {value : β} {size : Nat} (said : cutter.front stream = .piece value size) :
    cutter.front (stream ++ more) = .piece value size ∧
      (stream ++ more).drop size = stream.drop size ++ more := by
  have sized := cutter.sized said
  exact ⟨(cutter.stays (by simp [said]) more).trans said, List.drop_append_of_le_length sized.2⟩

/-- A reader is given more of the stream, or asked for the next piece. -/
inductive Reading (α : Type u) where
  | more (items : List α)
  | next
  deriving DecidableEq

/-- All that a reader is given. -/
def arrived : List (Reading α) → List α
  | [] => []
  | .more items :: rest => items ++ arrived rest
  | .next :: rest => arrived rest

/-- What is left of a stream once its front was answered. -/
def after (cutter : Cutter α β ε) (pending : List α) : List α :=
  match cutter.front pending with
  | .piece _ size => pending.drop size
  | .short | .refused _ => pending

/-- The answers of a reader that keeps what it has not cut yet, and what it keeps at last. -/
def read (cutter : Cutter α β ε) (pending : List α) : List (Reading α) → List (Front β ε) × List α
  | [] => ([], pending)
  | .more items :: rest => cutter.read (pending ++ items) rest
  | .next :: rest =>
    let later := cutter.read (cutter.after pending) rest
    (cutter.front pending :: later.1, later.2)

/-- The pieces among a reader's answers. -/
def pieces (answers : List (Front β ε)) : List β :=
  answers.filterMap fun
    | .piece value _ => some value
    | .short | .refused _ => none

/-- However a stream arrives and whenever pieces are asked for, those that were given and those
still to be cut are the pieces of the whole. -/
theorem cut_arrived (pending : List α) (readings : List (Reading α)) :
    cutter.cut (pending ++ arrived readings) =
      (pieces (cutter.read pending readings).1 ++ (cutter.cut (cutter.read pending readings).2).1,
        (cutter.cut (cutter.read pending readings).2).2) := by
  induction readings generalizing pending with
  | nil =>
    simp only [arrived, List.append_nil]
    rfl
  | cons reading rest ih =>
    cases reading with
    | more items =>
      have later := ih (pending ++ items)
      rw [List.append_assoc] at later
      exact later
    | next =>
      have later := ih (cutter.after pending)
      simp only [read, arrived]
      cases said : cutter.front pending with
      | piece value size =>
        obtain ⟨whole, rest_⟩ := @front_append _ _ _ cutter _ (arrived rest) _ _ said
        simp only [after, said] at later ⊢
        rw [cut_piece whole, rest_, later]
        rfl
      | short =>
        simp only [after, said] at later ⊢
        exact later
      | refused error =>
        simp only [after, said] at later ⊢
        exact later

/-- Once the front refuses, nothing is given any more. -/
theorem read_refused {error : ε} (readings : List (Reading α)) {pending : List α}
    (said : cutter.front pending = .refused error) :
    cutter.front (cutter.read pending readings).2 = .refused error ∧
      ∀ answer ∈ (cutter.read pending readings).1, answer = .refused error := by
  induction readings generalizing pending with
  | nil => exact ⟨said, fun _ member => by cases member⟩
  | cons reading rest ih =>
    cases reading with
    | more items => exact ih ((cutter.stays (by simp [said]) items).trans said)
    | next =>
      have still : cutter.after pending = pending := by simp only [after, said]
      obtain ⟨last, same⟩ := ih said
      simp only [read, still]
      refine ⟨last, fun answer member => ?_⟩
      rcases List.mem_cons.mp member with rfl | later
      · exact said
      · exact same answer later

/-- A refusal that was answered is what the reader ends with. -/
theorem refused_of_mem {error : ε} (pending : List α) (readings : List (Reading α))
    (member : .refused error ∈ (cutter.read pending readings).1) :
    cutter.front (cutter.read pending readings).2 = .refused error := by
  induction readings generalizing pending with
  | nil => cases member
  | cons reading rest ih =>
    cases reading with
    | more items => exact ih _ member
    | next =>
      rcases List.mem_cons.mp member with here | later
      · have still : cutter.after pending = pending := by simp only [after, ← here]
        simp only [read, still]
        exact (read_refused rest here.symm).1
      · exact ih _ later

end Cutter

end ForgeNode
