import ForgeNode.Editor.Session

/-! How the two stacks tie a document's present text to the texts it had, and to the
content-state numbers it had them under. -/

namespace ForgeNode.Editor

open List hiding after
open Utf8 Splice
open Document (Performs)

variable {document after : Document} {entries : List Entry}

/-- The entry leads from its base to `new`, under numbers already given to both. -/
structure Entry.Links (seen : List (Nat × Str)) (entry : Entry) (new : Str) : Prop where
  change : ∃ change : Change entry.base new,
    Performs entry.redo change ∧ Performs entry.undo change.flip
  resumes : ∀ edit, entry.redo.edits = [edit] →
    entry.resumeAt = edit.range.start + edit.insert.len
  before : (entry.stateBefore, entry.base) ∈ seen
  after : (entry.stateAfter, new) ∈ seen

theorem Entry.Links.mono {entry : Entry} (links : entry.Links seen new) (grows : seen ⊆ more) :
    entry.Links more new :=
  ⟨links.change, links.resumes, grows links.before, grows links.after⟩

/-- The undo stack leads back from `text`, one base after the other. -/
def UndoLine (seen : List (Nat × Str)) : List Entry → Str → Prop
  | [], _ => True
  | entry :: rest, text => entry.Links seen text ∧ UndoLine seen rest entry.base

/-- The redo stack leads forward from `text`. -/
def RedoLine (seen : List (Nat × Str)) : List Entry → Str → Prop
  | [], _ => True
  | entry :: rest, text => entry.base = text ∧ ∃ next, entry.Links seen next ∧ RedoLine seen rest next

theorem UndoLine.mono (line : UndoLine seen entries text)
    (grows : seen ⊆ more) : UndoLine more entries text := by
  induction entries generalizing text with
  | nil => trivial
  | cons entry rest ih => exact ⟨line.1.mono grows, ih line.2⟩

theorem RedoLine.mono (line : RedoLine seen entries text)
    (grows : seen ⊆ more) : RedoLine more entries text := by
  induction entries generalizing text with
  | nil => trivial
  | cons entry rest ih =>
    obtain ⟨same, next, links, later⟩ := line
    exact ⟨same, next, links.mono grows, ih later⟩

theorem UndoLine.take (line : UndoLine seen entries text) (count : Nat) :
    UndoLine seen (entries.take count) text := by
  induction count generalizing entries text with
  | zero => trivial
  | succ count ih =>
    cases entries with
    | nil => trivial
    | cons entry rest => exact ⟨line.1, ih line.2⟩

/-- A merged keystroke: the run's piece grows by what was typed at its end. -/
theorem coalesce_links {last merged : Entry} {text new : Str} {inverse transaction : Transaction}
    (found : coalesce last inverse transaction = some merged) (links : last.Links seen text)
    (change : Change text new) (performs : Performs transaction change) :
    (∃ whole : Change last.base new, Performs merged.redo whole ∧ Performs merged.undo whole.flip) ∧
      ∃ addition previous, transaction.edits = [addition] ∧ merged.redo.edits = [previous] ∧
        addition.range.start + addition.insert.len = previous.range.start +
        previous.insert.len := by
  obtain ⟨addition, previousUndo, previousRedo, additions, start, stop, undos, redos,
    ⟨range, rangeStart, rangeStop, mergedUndo⟩, mergedRedo, _⟩ := coalesce_eq_some found
  have resumes := links.resumes previousRedo redos
  obtain ⟨run, redone, undone⟩ := links.change
  -- Both changes have a single piece, and the new one starts where the old one ended.
  have typed : Splice.cuts 0 change.pieces = [addition.cut] := by
    rw [← Change.cuts, ← performs, Transaction.cuts, additions]
    rfl
  have ran : Splice.cuts 0 run.pieces = [previousRedo.cut] := by
    rw [← Change.cuts, ← redone, Transaction.cuts, redos]
    rfl
  obtain ⟨key, typedPieces, keyStart, keyStop, keyInsert⟩ := cuts_eq_singleton typed
  obtain ⟨piece, runPieces, pieceStart, pieceStop, pieceInsert⟩ := cuts_eq_singleton ran
  have reversed : Splice.cuts 0 [piece.flip] = [previousUndo.cut] := by
    have both := undone
    rw [Performs, Transaction.cuts, undos, Change.flip_cuts, runPieces] at both
    exact both.symm
  obtain ⟨_, samePiece, _, _, displaced⟩ := cuts_eq_singleton reversed
  obtain rfl := singleton_inj.mp samePiece
  simp only [Edit.cut,
    Nat.zero_add] at keyStart keyStop keyInsert pieceStart pieceStop pieceInsert displaced
  have nothing : key.removed = [] := length_eq_zero_iff.mp (by omega)
  have insertedLen : previousRedo.insert.len = piece.inserted.length :=
    congrArg List.length pieceInsert
  have seam : key.gap = piece.gap ++ piece.inserted ∧ change.tail = run.tail := by
    have old := change.old_eq
    have new := run.new_eq
    rw [typedPieces, before_cons, nothing, before_nil, nil_append] at old
    rw [runPieces, after_cons, after_nil, ← append_assoc] at new
    refine append_inj (old.trans new.symm) ?_
    rw [length_append]
    omega
  have sound : Sound [⟨piece.gap, piece.removed, piece.inserted ++ key.inserted⟩] run.tail := by
    have runSound := run.sound
    have keySound := change.sound
    rw [runPieces] at runSound
    rw [typedPieces] at keySound
    obtain ⟨gap, removed, inserted⟩ := runSound.head
    refine ⟨?_, runSound.2⟩
    intro other member
    rw [mem_singleton.mp member]
    exact ⟨gap, removed, inserted.append keySound.head.2.2⟩
  refine ⟨⟨⟨[⟨piece.gap, piece.removed, piece.inserted ++ key.inserted⟩], run.tail, sound, ?_, ?_⟩,
    ?_, ?_⟩, addition, _, additions, mergedRedo, ?_⟩
  · rw [← run.old_eq, runPieces]
    rfl
  · rw [← change.new_eq, typedPieces, after_cons, after_cons, seam.1, seam.2]
    simp only [after_nil, append_assoc]
  · simp only [Performs, Transaction.cuts, mergedRedo, Change.cuts, Splice.cuts, map_cons,
      map_nil, Edit.cut, Str.bytes_append, Nat.zero_add, pieceInsert, keyInsert, ← pieceStart,
      ← pieceStop]
  · simp only [Performs, Transaction.cuts, mergedUndo, Change.cuts, Change.flip, Splice.cuts,
      map_cons, map_nil, Edit.cut, Piece.flip, Nat.zero_add, displaced, rangeStart,
      rangeStop, length_append, ← pieceStart, ← pieceInsert, ← keyInsert, Str.length_bytes]
  · simp only [Str.len_append]
    omega

/-- Recording a change keeps the line: the entry on top is new, or the top one grown. -/
theorem record_line {history : History} {text new : Str} {inverse transaction : Transaction}
    (line : UndoLine seen history.undo text) (change : Change text new)
    (performs : Performs transaction change) (inverts : Performs inverse change.flip)
    (resumes : ∀ edit, transaction.edits = [edit] →
      resumeAt = edit.range.start + edit.insert.len)
    (before : (stateBefore, text) ∈ seen) (after : (stateAfter, new) ∈ seen) :
    UndoLine seen
      (history.record inverse transaction stateBefore stateAfter resumeAt text).undo new := by
  unfold History.record
  simp only
  split
  · rename_i merged found
    obtain ⟨count, kept⟩ := History.trim_undo _
    rw [kept]
    refine UndoLine.take ?_ count
    unfold History.joined at found
    split at found
    · cases found
    split at found
    · cases found
    · rename_i last rest top
      rw [top] at line ⊢
      obtain ⟨whole, addition, previous, additions, grown, ends⟩ :=
        coalesce_links found line.1 change performs
      obtain ⟨_, _, _, _, _, _, _, _, _, _, sameState, sameBase⟩ := coalesce_eq_some found
      rw [← sameBase] at whole
      refine ⟨⟨whole, ?_, ?_, after⟩, ?_⟩
      · intro edit single
        obtain rfl := singleton_inj.mp (grown.symm.trans single)
        rw [resumes addition additions]
        exact ends
      · simp only [sameState, sameBase]
        exact line.1.before
      · simp only [sameBase]
        exact line.2
  · obtain ⟨count, kept⟩ := History.trim_undo _
    rw [kept]
    refine UndoLine.take ?_ count
    exact ⟨⟨⟨change, performs, inverts⟩, resumes, before, after⟩, line⟩

/-- A document whose stacks and numbers agree with the texts it had. -/
structure Document.Coherent (document : Document) (seen : List (Nat × Str)) : Prop where
  undo : UndoLine seen document.history.undo document.text.bytes
  redo : RedoLine seen document.history.redo document.text.bytes
  current : (document.state, document.text.bytes) ∈ seen
  fresh : ∀ pair ∈ seen, pair.1 < document.nextState
  single : ∀ state text other, (state, text) ∈ seen → (state, other) ∈ seen → text = other

namespace Document

theorem Coherent.same {document after : Document} (coherent : document.Coherent seen)
    (same : SameContent document after) : after.Coherent seen := by
  obtain ⟨text, undo, redo, state, nextState⟩ := same
  constructor
  · rw [undo, text]
    exact coherent.undo
  · rw [redo, text]
    exact coherent.redo
  · rw [state, text]
    exact coherent.current
  · rw [nextState]
    exact coherent.fresh
  · exact coherent.single

theorem Coherent.revisit {document : Document} (coherent : document.Coherent seen) :
    document.Coherent ((document.state, document.text.bytes) :: seen) := by
  have known (pair) (member : pair ∈ (document.state, document.text.bytes) :: seen) : pair ∈
      seen := by
    rcases mem_cons.mp member with rfl | older
    · exact coherent.current
    · exact older
  exact {
    undo := coherent.undo.mono (subset_cons_self _ _)
    redo := coherent.redo.mono (subset_cons_self _ _)
    current := mem_cons_self
    fresh := fun pair member => coherent.fresh pair (known pair member)
    single := fun state text other first second =>
      coherent.single state text other (known _ first) (known _ second) }

/-- A number handed out for the first time belongs to the text it is handed out for. -/
private theorem single_cons {seen : List (Nat × Str)} {state : Nat} {text : Str}
    (fresh : ∀ pair ∈ seen, pair.1 < state)
    (single : ∀ state text other, (state, text) ∈ seen → (state, other) ∈ seen → text = other) :
    ∀ other first second, (other, first) ∈ (state, text) :: seen →
      (other, second) ∈ (state, text) :: seen → first = second := by
  intro other first second left right
  rcases mem_cons.mp left with same | older <;> rcases mem_cons.mp right with same' | older'
  · rw [Prod.mk.injEq] at same same'
    rw [same.2, same'.2]
  · have below := fresh _ older'
    rw [Prod.mk.injEq] at same
    simp only at below
    omega
  · have below := fresh _ older
    rw [Prod.mk.injEq] at same'
    simp only at below
    omega
  · exact single other first second older older'

theorem Coherent.recorded {document : Document} {transaction : Transaction}
    (coherent : document.Coherent seen) (valid : document.validate transaction = .ok ()) :
    let after := (document.applyValidated transaction true).2
    after.Coherent ((after.state, after.text.bytes) :: seen) := by
  intro after
  obtain ⟨new, change, performs⟩ := validate_ok valid
  have text : after.text.bytes = new := applyValidated_text change performs true
  have state : after.state = document.nextState := rfl
  rw [state, text]
  have grows := subset_cons_self (document.nextState, new) seen
  constructor
  · rw [text]
    refine record_line (coherent.undo.mono grows) change performs (inverseOf_performs change performs)
      ?_ (grows coherent.current) mem_cons_self
    intro edit single
    simp [single, Replay.run, Replay.step]
  · change RedoLine _ (History.record _ _ _ _ _ _ _).redo _
    rw [History.record_redo]
    trivial
  · rw [state, text]
    exact mem_cons_self
  · intro pair member
    change pair.1 < document.nextState + 1
    rcases mem_cons.mp member with rfl | older
    · exact Nat.lt_succ_self _
    · exact Nat.lt_succ_of_lt (coherent.fresh pair older)
  · exact single_cons coherent.fresh coherent.single

theorem undo_eq (top : document.history.undo = entry :: rest)
    (done : document.undo = some (applied, after)) :
    after.text = (document.applyValidated entry.undo false).2.text ∧
      after.history.undo = rest ∧ after.history.redo = entry :: document.history.redo ∧
      after.state = entry.stateBefore ∧ after.nextState = document.nextState + 1 ∧
      after.readOnly = false := by
  obtain ⟨writable, _⟩ := undo_eq_some done
  simp only [undo, writable, History.popUndo, top, Bool.false_eq_true, if_false, Option.some.injEq,
    Prod.mk.injEq] at done
  obtain ⟨_, rfl⟩ := done
  exact ⟨rfl, rfl, rfl, rfl, rfl, rfl⟩

theorem redo_eq (top : document.history.redo = entry :: rest)
    (done : document.redo = some (applied, after)) :
    after.text = (document.applyValidated entry.redo false).2.text ∧
      after.history.undo = entry :: document.history.undo ∧ after.history.redo = rest ∧
      after.state = entry.stateAfter ∧ after.nextState = document.nextState + 1 ∧
      after.readOnly = false := by
  obtain ⟨writable, _⟩ := redo_eq_some done
  simp only [redo, writable, History.popRedo, top, Bool.false_eq_true, if_false, Option.some.injEq,
    Prod.mk.injEq] at done
  obtain ⟨_, rfl⟩ := done
  exact ⟨rfl, rfl, rfl, rfl, rfl, rfl⟩

theorem Coherent.undo_text {document : Document} (coherent : document.Coherent seen)
    (top : document.history.undo = entry :: rest) :
    (document.applyValidated entry.undo false).2.text.bytes = entry.base := by
  have line := coherent.undo
  rw [top] at line
  obtain ⟨change, _, undoes⟩ := line.1.change
  exact applyValidated_text change.flip undoes false

theorem Coherent.redo_text {document : Document} (coherent : document.Coherent seen)
    (top : document.history.redo = entry :: rest) :
    ∃ next, entry.Links seen next ∧ RedoLine seen rest next ∧
      (document.applyValidated entry.redo false).2.text.bytes = next := by
  have line := coherent.redo
  rw [top] at line
  obtain ⟨same, next, links, later⟩ := line
  have forward : ∃ change : Change document.text.bytes next, Performs entry.redo change := by
    obtain ⟨change, redoes, _⟩ := links.change
    exact same ▸ ⟨change, redoes⟩
  obtain ⟨change, redoes⟩ := forward
  exact ⟨next, links, later, applyValidated_text change redoes false⟩

theorem Coherent.undone (coherent : document.Coherent seen)
    (top : document.history.undo = entry :: rest) (done : document.undo = some (applied, after)) :
    after.Coherent seen := by
  obtain ⟨text, undo, redo, state, nextState, _⟩ := undo_eq top done
  have base := coherent.undo_text top
  rw [← text] at base
  have line := coherent.undo
  rw [top] at line
  constructor
  · rw [undo, base]
    exact line.2
  · rw [redo, base]
    exact ⟨rfl, document.text.bytes, line.1, coherent.redo⟩
  · rw [state, base]
    exact line.1.before
  · intro pair member
    rw [nextState]
    exact Nat.lt_succ_of_lt (coherent.fresh pair member)
  · exact coherent.single

theorem Coherent.redone (coherent : document.Coherent seen)
    (top : document.history.redo = entry :: rest) (done : document.redo = some (applied, after)) :
    after.Coherent seen := by
  obtain ⟨text, undo, redo, state, nextState, _⟩ := redo_eq top done
  obtain ⟨next, links, later, forward⟩ := coherent.redo_text top
  rw [← text] at forward
  have line := coherent.redo
  rw [top] at line
  constructor
  · rw [undo, forward]
    refine ⟨links, ?_⟩
    rw [line.1]
    exact coherent.undo
  · rw [redo, forward]
    exact later
  · rw [state, forward]
    exact links.after
  · intro pair member
    rw [nextState]
    exact Nat.lt_succ_of_lt (coherent.fresh pair member)
  · exact coherent.single

theorem Coherent.effect (coherent : document.Coherent seen)
    (effect : Effect document after) :
    after.Coherent ((after.state, after.text.bytes) :: seen) := by
  cases effect with
  | quiet same => exact (coherent.same same).revisit
  | recorded same valid done =>
    have recorded := (coherent.same same).recorded valid
    rw [done.state, done.text]
    exact recorded.same done
  | undone _ top done => exact (coherent.undone top done).revisit
  | redone _ top done => exact (coherent.redone top done).revisit

theorem fromString_coherent (body : Str) (readOnly : Bool) :
    (fromString body readOnly).Coherent [(0, body)] where
  undo := trivial
  redo := trivial
  current := mem_cons_self
  fresh pair member := by
    rw [mem_singleton.mp member]
    exact Nat.zero_lt_one
  single state text other first second := by
    rw [(Prod.mk.inj (mem_singleton.mp first)).2, (Prod.mk.inj (mem_singleton.mp second)).2]

theorem Reached.coherent {document : Document} (reached : document.Reached) :
    ∃ seen, document.Coherent seen := by
  induction reached with
  | load body readOnly => exact ⟨_, fromString_coherent body readOnly⟩
  | call op _ ih =>
    obtain ⟨_, coherent⟩ := ih
    exact ⟨_, coherent.effect (perform_effect _ op)⟩

end Document

theorem Session.Reachable.coherent {session : Session} (reachable : session.Reachable) :
    session.document.Coherent session.seen := by
  obtain ⟨body, readOnly, steps, run⟩ := reachable
  have kept {before op after} (step : Step before op after)
      (coherent : before.document.Coherent before.seen) : after.document.Coherent after.seen := by
    cases step
    exact coherent.effect (Document.perform_effect before.document op)
  exact (Run.invariant (fun session => session.document.Coherent session.seen) kept run
    (Document.fromString_coherent body readOnly)).1

theorem Change.performs_boundaries {transaction : Transaction} (change : Change old new)
    (performs : Performs transaction change) : ∀ edit ∈ transaction.edits,
      old.IsBoundary edit.range.start ∧ old.IsBoundary edit.range.stop := by
  intro edit member
  have cut : edit.cut ∈ change.cuts := performs ▸ mem_map_of_mem member
  exact change.boundaries _ cut

end ForgeNode.Editor
