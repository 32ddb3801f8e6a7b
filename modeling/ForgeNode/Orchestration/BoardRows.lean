import ForgeNode.Orchestration.Rooting

/-! The rows of the run boards: what a step leaves of them, in memory and in the tables. -/

namespace ForgeNode.Orchestration

open Section (Meets Preserves)

section Statements

/-- The statement adds no row of a board. -/
def Shrinks (statement : Statement) : Prop := ∀ db, statement.Meets db
  fun _ after => ∀ entry ∈ after.tables.runState, entry ∈ db.tables.runState

theorem Keeps.shrinks {statement : Statement} (keeps : Keeps Tables.runState statement) :
    Shrinks statement :=
  fun db => (keeps db).mono fun _ _ same _ member => same ▸ member

end Statements

/-- Every row of a board in the tables is one of these. -/
def Boarded (held : BoardEntry → Prop) (inner : Inner) : Prop :=
  ∀ entry ∈ inner.db.tables.runState, held entry

section Rules

variable {held : BoardEntry → Prop}

theorem persist_boarded {statement : Statement} (shrinks : Shrinks statement) :
    Preserves (Boarded held) (persist statement) :=
  fun inner kept => Handler.persist_meets (shrinks inner.db)
    (fun _ _ fewer entry member => kept entry (fewer entry member))
    fun _ fewer entry member => kept entry (fewer entry member)

def Boarded.fact (held : BoardEntry → Prop) : Fact where
  holds := Boarded held
  run _ := True
  task _ := True
  attempt _ := True

/-- No section but a write of the board stores a row of it. -/
theorem Boarded.apart : (Boarded.fact held).Apart where
  runs _ _ _ := trivial
  tasks _ _ _ := trivial
  attempts _ _ _ := trivial
  likeRun _ _ := trivial
  likeTask _ _ := trivial
  likeAttempt _ _ := trivial
  rewrites _ kept := kept
  storesRun {run} _ := persist_boarded (Keeps.shrinks (keeps_updateRun (fun _ _ => rfl) run))
  storesTask {task} _ := persist_boarded (Keeps.shrinks (keeps_updateTask (fun _ _ _ => rfl) task))
  storesAttempt {attempt} _ := persist_boarded
    (Keeps.shrinks (keeps_updateAttempt (fun _ _ => rfl) attempt))
  elsewhere keeps := persist_boarded (Keeps.shrinks fun db => (keeps db).mono fun _ _ same => by
    simp only [Prod.mk.injEq] at same
    exact same.2.2.2.2.2)
  beside _ db _ kept entry member := kept entry (db ▸ member)
  unsaid keeps := persist_boarded (Keeps.shrinks fun db => (keeps db).mono fun _ _ same => by
    simp only [Prod.mk.injEq] at same
    exact same.2.2.2.2)
  apart _ db kept entry member := kept entry (db ▸ member)
  dropsSession := persist_boarded
    (Keeps.shrinks (keeps_execute fun _ _ deleted => by rw [← Except.ok.inj deleted]))
  dropsWorkspace := persist_boarded (Keeps.shrinks (keeps_execute fun tables after deleted => by
    simp only [deleteWorkspaceRow, bind_eq_ok, pure_eq_ok] at deleted
    obtain ⟨_, _, rfl⟩ := deleted
    rfl))

end Rules

section Handlers

variable {held : BoardEntry → Prop} {platform : Platform} {limits : OrchestrationLimits}
  {now : Timestamp} {fresh : Nat}

end Handlers

end ForgeNode.Orchestration
