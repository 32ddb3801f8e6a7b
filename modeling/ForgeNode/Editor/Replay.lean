import ForgeNode.Editor.Document

/-! A validated transaction is a splice of the text, and its inverse is the same
splice read from the other side. -/

namespace ForgeNode.Editor

open List hiding after
open Utf8 Splice

variable {edits : List Edit} {pieces : List (Piece UInt8)} {replay : Replay} {tail : List UInt8}
  {text : Text}

/-- Every part of the pieces is a string of its own. -/
def Sound (pieces : List (Piece UInt8)) (tail : List UInt8) : Prop :=
  (∀ piece ∈ pieces, Valid piece.gap ∧ Valid piece.removed ∧ Valid piece.inserted) ∧ Valid tail

theorem Sound.others (sound : Sound (piece :: rest) tail) : Sound rest tail :=
  ⟨fun piece member => sound.1 piece (mem_cons_of_mem _ member), sound.2⟩

theorem Sound.head (sound : Sound (piece :: rest) tail) :
    Valid piece.gap ∧ Valid piece.removed ∧ Valid piece.inserted := sound.1 _ mem_cons_self

theorem Sound.flip (sound : Sound pieces tail) : Sound (pieces.map Piece.flip) tail := by
  refine ⟨?_, sound.2⟩
  intro piece member
  obtain ⟨source, present, rfl⟩ := List.mem_map.mp member
  obtain ⟨gap, removed, inserted⟩ := sound.1 source present
  exact ⟨gap, inserted, removed⟩

theorem Sound.before (sound : Sound pieces tail) : Valid (before pieces tail) := by
  induction pieces with
  | nil => exact sound.2
  | cons piece rest ih =>
    obtain ⟨gap, removed, _⟩ := sound.head
    rw [before_cons]
    exact gap.append (removed.append (ih sound.others))

/-- Cuts at boundaries leave whole strings between them. -/
private theorem sound_of_seams (at_ : Nat)
    (whole : Valid (before pieces tail))
    (seams : ∀ cut ∈ Splice.cuts at_ pieces, Valid cut.insert ∧
      StartsClean ((before pieces tail).drop (cut.start - at_)) ∧
      StartsClean ((before pieces tail).drop (cut.stop - at_))) : Sound pieces tail := by
  induction pieces generalizing at_ with
  | nil => exact ⟨by simp, whole⟩
  | cons piece rest ih =>
    rw [before_cons] at whole seams
    obtain ⟨inserted, start, stop⟩ := seams _ mem_cons_self
    have first : at_ + piece.gap.length - at_ = piece.gap.length := Nat.add_sub_cancel_left ..
    have last : at_ + piece.gap.length + piece.removed.length - at_ =
        (piece.gap ++ piece.removed).length := by
      rw [length_append]
      omega
    have gapped := whole.split piece.gap.length (by simp) (by rwa [first] at start)
    rw [take_left, drop_left] at gapped
    rw [last, ← append_assoc, drop_left] at stop
    have removed := gapped.2.split piece.removed.length (by simp) (by rwa [drop_left])
    rw [take_left, drop_left] at removed
    have sound : Sound rest tail := by
      refine ih (at_ + piece.gap.length + piece.removed.length) removed.2 ?_
      intro cut member
      obtain ⟨insert, start, stop⟩ := seams cut (mem_cons_of_mem _ member)
      obtain ⟨lower, order⟩ := Splice.le_of_mem_cuts member
      have skip (offset : Nat) (later : at_ + piece.gap.length + piece.removed.length ≤ offset) :
          (piece.gap ++ (piece.removed ++ before rest tail)).drop (offset - at_) =
            (before rest tail).drop (offset - (at_ + piece.gap.length + piece.removed.length)) := by
        have split : offset - at_ = (piece.gap ++ piece.removed).length +
            (offset - (at_ + piece.gap.length + piece.removed.length)) := by
          rw [length_append]
          omega
        rw [split, ← append_assoc, ← drop_drop, drop_left]
      rw [skip _ lower] at start
      rw [skip _ (Nat.le_trans lower order)] at stop
      exact ⟨insert, start, stop⟩
    refine ⟨?_, sound.2⟩
    intro other member
    rcases mem_cons.mp member with rfl | later
    · exact ⟨gapped.1, removed.1, inserted⟩
    · exact sound.1 other later

/-- What turns one text into another: the pieces they share and exchange. -/
structure Change (old new : Str) where
  pieces : List (Piece UInt8)
  tail : List UInt8
  sound : Sound pieces tail
  old_eq : before pieces tail = old.bytes
  new_eq : after pieces tail = new.bytes

namespace Change

def flip (change : Change old new) : Change new old where
  pieces := change.pieces.map Piece.flip
  tail := change.tail
  sound := change.sound.flip
  old_eq := (before_flip _ _).trans change.new_eq
  new_eq := (after_flip _ _).trans change.old_eq

/-- The change as cuts of the old text. -/
def cuts (change : Change old new) : List (Cut UInt8) := Splice.cuts 0 change.pieces

theorem flip_cuts (change : Change old new) :
    change.flip.cuts = Splice.cuts 0 (change.pieces.map Piece.flip) := rfl

end Change

/-- Cuts of pieces stand on boundaries of the text they are cut from. -/
private theorem seams_of_sound {text : Str}
    (front : List UInt8) (sound : Sound pieces tail)
    (whole : text.bytes = front ++ before pieces tail) : ∀ cut ∈ Splice.cuts front.length pieces,
      text.IsBoundary cut.start ∧ text.IsBoundary cut.stop := by
  induction pieces generalizing front with
  | nil =>
    intro cut member
    cases member
  | cons piece rest ih =>
    obtain ⟨gap, removed, _⟩ := sound.head
    have gapped : text.bytes = (front ++ piece.gap) ++ (piece.removed ++ before rest tail) := by
      rw [whole, before_cons, append_assoc]
    have cleared : text.bytes = (front ++ piece.gap ++ piece.removed) ++ before rest tail := by
      rw [gapped, ← append_assoc]
    have start := Str.isBoundary_seam gapped (removed.append sound.others.before)
    have stop := Str.isBoundary_seam cleared sound.others.before
    have later := ih _ sound.others cleared
    simp only [length_append] at start stop later
    intro cut member
    rcases mem_cons.mp member with rfl | member
    · exact ⟨start, stop⟩
    · exact later cut member

theorem Change.boundaries (change : Change old new) :
    ∀ cut ∈ change.cuts, old.IsBoundary cut.start ∧ old.IsBoundary cut.stop :=
  seams_of_sound [] change.sound change.old_eq.symm

private theorem split_cuts {piece : Piece UInt8}
    (cuts : edits.map Edit.cut = Splice.cuts at_ (piece :: rest)) :
    ∃ edit others, edits = edit :: others ∧ edit.range.start = at_ + piece.gap.length ∧
      edit.range.stop = at_ + piece.gap.length + piece.removed.length ∧
      edit.insert.bytes = piece.inserted ∧
      others.map Edit.cut = Splice.cuts (at_ + piece.gap.length + piece.removed.length) rest := by
  cases edits with
  | nil => cases cuts
  | cons edit others =>
    obtain ⟨first, later⟩ := List.cons.inj cuts
    simp only [Edit.cut, Cut.mk.injEq] at first
    exact ⟨edit, others, rfl, first.1, first.2.1, first.2.2, later⟩

/-- One round of the loop replaces the next removed part, found at the shifted range. -/
private theorem Replay.step_splice {front removed back : List UInt8} (edit : Edit)
    (whole : replay.text.bytes.bytes = front ++ (removed ++ back)) (middle : Valid removed)
    (rest : Valid back) (start : (edit.range.start : Int) + replay.shift = front.length)
    (stop : (edit.range.stop : Int) + replay.shift = front.length + removed.length) :
    (replay.step edit).text.bytes.bytes = front ++ (edit.insert.bytes ++ back) ∧
      (replay.step edit).shift = replay.shift + (edit.insert.len - removed.length : Int) := by
  have cleared : replay.text.bytes.bytes = (front ++ removed) ++ back := by
    rw [whole, append_assoc]
  have first : replay.text.bytes.IsBoundary front.length :=
    Str.isBoundary_seam whole (middle.append rest)
  have last : replay.text.bytes.IsBoundary (front ++ removed).length :=
    Str.isBoundary_seam cleared rest
  have startAt : ((edit.range.start : Int) + replay.shift).toNat = front.length := by omega
  have stopAt : ((edit.range.stop : Int) + replay.shift).toNat = (front ++ removed).length := by
    rw [length_append]
    omega
  have range : Range.new front.length (front ++ removed).length =
      ⟨front.length, (front ++ removed).length, by simp⟩ := Range.new_of_le _
  constructor
  · simp only [Replay.step, startAt, stopAt, range]
    rw [Text.replace_bytes first last]
    simp only
    rw [cleared, drop_left, append_assoc, take_left]
  · simp only [Replay.step, startAt, stopAt, length_append]
    omega

private theorem Replay.run_splice
    {tail front : List UInt8} {at_ : Nat}
    (cuts : edits.map Edit.cut = Splice.cuts at_ pieces) (sound : Sound pieces tail)
    (whole : replay.text.bytes.bytes = front ++ before pieces tail)
    (shift : (at_ : Int) + replay.shift = front.length) :
    (replay.run edits).text.bytes.bytes = front ++ after pieces tail := by
  induction pieces generalizing replay front edits at_ with
  | nil =>
    have empty : edits = [] := map_eq_nil_iff.mp cuts
    rw [empty]
    exact whole
  | cons piece rest ih =>
    obtain ⟨edit, others, rfl, start, stop, insert, later⟩ := split_cuts cuts
    obtain ⟨_, removed, _⟩ := sound.head
    have gapped : replay.text.bytes.bytes =
        (front ++ piece.gap) ++ (piece.removed ++ before rest tail) := by
      rw [whole, before_cons, append_assoc]
    obtain ⟨bytes, moved⟩ := Replay.step_splice edit gapped removed sound.others.before
      (by rw [length_append]; omega) (by rw [length_append]; omega)
    rw [insert, ← append_assoc] at bytes
    have size : edit.insert.len = piece.inserted.length := congrArg List.length insert
    have done := ih later sound.others bytes (by
      rw [moved, size]
      simp only [length_append]
      omega)
    rw [after_cons, ← append_assoc, ← append_assoc]
    exact done

theorem Replay.run_change (change : Change old new)
    (cuts : edits.map Edit.cut = change.cuts) (same : replay.text.bytes = old)
    (fresh : replay.shift = 0) : (replay.run edits).text.bytes = new := by
  apply Str.ext
  rw [← change.new_eq]
  have whole : replay.text.bytes.bytes = [] ++ before change.pieces change.tail := by
    rw [same, change.old_eq, nil_append]
  have ran := Replay.run_splice cuts change.sound whole (by simp [fresh])
  rwa [nil_append] at ran

private theorem foldr_splice (front : List UInt8)
    (cuts : edits.map Edit.cut = Splice.cuts front.length pieces) (sound : Sound pieces tail)
    (whole : text.bytes.bytes = front ++ before pieces tail) :
    (edits.foldr (fun edit text => text.replace edit.range edit.insert) text).bytes.bytes =
      front ++ after pieces tail := by
  induction pieces generalizing front edits with
  | nil =>
    have empty : edits = [] := map_eq_nil_iff.mp cuts
    rw [empty]
    exact whole
  | cons piece rest ih =>
    obtain ⟨edit, others, rfl, start, stop, insert, later⟩ := split_cuts cuts
    obtain ⟨_, removed, _⟩ := sound.head
    have valid : Valid (after rest tail) := before_flip rest tail ▸ sound.others.flip.before
    have done := ih (front ++ piece.gap ++ piece.removed)
      (by simpa only [length_append] using later) sound.others
      (by rw [whole, before_cons]; simp only [append_assoc])
    have gapped : _ = (front ++ piece.gap) ++ (piece.removed ++ after rest tail) :=
      done.trans (append_assoc _ _ _)
    have first := Str.isBoundary_seam gapped (removed.append valid)
    have last := Str.isBoundary_seam done valid
    have startAt : edit.range.start = (front ++ piece.gap).length := by rw [length_append, start]
    have stopAt : edit.range.stop = (front ++ piece.gap ++ piece.removed).length := by
      rw [length_append, length_append, stop]
    rw [← startAt] at first
    rw [← stopAt] at last
    rw [foldr_cons, Text.replace_bytes first last, stopAt, done, drop_left, startAt,
      append_assoc (front ++ piece.gap), take_left, insert, after_cons]
    simp only [append_assoc]

theorem foldr_change (change : Change old new)
    (cuts : edits.map Edit.cut = change.cuts) (same : text.bytes = old) :
    (edits.foldr (fun edit text => text.replace edit.range edit.insert) text).bytes = new := by
  apply Str.ext
  rw [← change.new_eq]
  exact foldr_splice [] cuts change.sound (by rw [same, change.old_eq, nil_append])

private theorem inverse_splice (front : List UInt8) (shift : Int) (at_ : Nat)
    (cuts : edits.map Edit.cut = Splice.cuts front.length pieces) (sound : Sound pieces tail)
    (whole : text.bytes.bytes = front ++ before pieces tail)
    (moved : (front.length : Int) + shift = at_) :
    (inverseEdits text shift edits).map Edit.cut = Splice.cuts at_ (pieces.map Piece.flip) := by
  induction pieces generalizing front edits at_ shift with
  | nil =>
    have empty : edits = [] := map_eq_nil_iff.mp cuts
    rw [empty]
    rfl
  | cons piece rest ih =>
    have seams := seams_of_sound front sound whole
    obtain ⟨edit, others, rfl, start, stop, insert, later⟩ := split_cuts cuts
    have size : edit.insert.len = piece.inserted.length := congrArg List.length insert
    have startAt : ((edit.range.start : Int) + shift).toNat = at_ + piece.gap.length := by omega
    obtain ⟨first, last⟩ := seams _ mem_cons_self
    rw [← start] at first
    rw [← stop] at last
    have cleared : text.bytes.bytes = (front ++ piece.gap ++ piece.removed) ++ before rest tail := by
      rw [whole, before_cons]
      simp only [append_assoc]
    have displaced : (text.slice edit.range).bytes = piece.removed := by
      have gap : edit.range.start = (front ++ piece.gap).length := by rw [length_append, start]
      have removed : edit.range.stop = (front ++ piece.gap ++ piece.removed).length := by
        rw [length_append, length_append, stop]
      rw [Text.slice_bytes first last, cleared, removed, take_left, gap, drop_left]
    have rest := ih (front ++ piece.gap ++ piece.removed)
      (shift + (edit.insert.len - edit.range.len : Int))
      (at_ + piece.gap.length + piece.inserted.length)
      (by simpa only [length_append] using later) sound.others cleared (by
        simp only [length_append, Range.len, size]
        omega)
    simp only [inverseEdits, map_cons, Splice.cuts, Piece.flip, List.cons.injEq]
    refine ⟨?_, rest⟩
    simp only [Edit.replace, Edit.cut, Range.new_of_le (Nat.le_add_right _ _), startAt, size,
      displaced]

/-- Edits that are the cuts of pieces are disjoint and in order. -/
private theorem disjoint_of_cuts {at_ : Nat}
    (cuts : edits.map Edit.cut = Splice.cuts at_ pieces) : edits.IsChain Edit.clear := by
  induction pieces generalizing edits at_ with
  | nil =>
    rw [map_eq_nil_iff.mp cuts]
    exact .nil
  | cons piece rest ih =>
    obtain ⟨edit, others, rfl, _, stop, _, later⟩ := split_cuts cuts
    refine (ih later).cons ?_
    intro next head
    have member : next.cut ∈ others.map Edit.cut :=
      mem_map_of_mem (mem_of_mem_head? head)
    rw [later] at member
    rw [Edit.clear, stop]
    exact (Splice.le_of_mem_cuts member).1

namespace Document

/-- The transaction carries out exactly this change. -/
def Performs (transaction : Transaction) (change : Change old new) : Prop :=
  transaction.cuts = change.cuts

theorem inverseOf_performs {document : Document} (change : Change document.text.bytes new)
    (performs : Performs transaction change) :
    Performs (document.inverseOf transaction) change.flip := by
  have whole : document.text.bytes.bytes = [] ++ before change.pieces change.tail :=
    change.old_eq.symm
  have cuts := inverse_splice [] 0 0 performs change.sound whole rfl
  have built := Transaction.new_of_disjoint (disjoint_of_cuts cuts) .history document.selection
  simp only [Performs, Transaction.cuts, inverseOf, built, Transaction.withSelectionAfter]
  exact cuts

theorem inside_of_validate {document : Document} (valid : document.validate transaction = .ok ())
    (member : edit ∈ transaction.edits) :
    document.text.bytes.IsBoundary edit.range.start ∧
    document.text.bytes.IsBoundary edit.range.stop := by
  unfold validate at valid
  split at valid
  · cases valid
  · rename_i clean
    have inside := find?_eq_none.mp clean edit member
    simp only [goneOutside, Text.isBoundary, gt_iff_lt, Bool.or_eq_true, decide_eq_true_eq,
      Bool.not_eq_true', decide_eq_false_iff_not, not_or, not_not] at inside
    exact ⟨inside.1.2, inside.2⟩

private theorem ordered_of_disjoint {at_ length : Nat} (first : at_ ≤ length)
    (below : ∀ edit ∈ edits.head?, at_ ≤ edit.range.start) (disjoint : edits.IsChain Edit.clear)
    (inside : ∀ edit ∈ edits, edit.range.stop ≤ length) :
    Splice.Ordered at_ length (edits.map Edit.cut) := by
  induction edits generalizing at_ with
  | nil => exact first
  | cons edit others ih =>
    refine ⟨below edit rfl, edit.range.ordered, ?_⟩
    refine ih (inside edit mem_cons_self) ?_ disjoint.tail
      (fun next member => inside next (mem_cons_of_mem _ member))
    intro next head
    exact disjoint.rel_head? head

/-- A transaction that passed `validate` is a change of the text. -/
theorem validate_ok {document : Document} (valid : document.validate transaction = .ok ()) :
    ∃ new, ∃ change : Change document.text.bytes new, Performs transaction change := by
  have ordered : Splice.Ordered 0 (0 + document.text.bytes.bytes.length) transaction.cuts :=
    ordered_of_disjoint (Nat.zero_le _) (fun _ _ => Nat.zero_le _) transaction.disjoint
      (fun edit member => by
        have inside := (inside_of_validate valid member).2.1
        simpa using inside)
  obtain ⟨pieces, tail, cuts, whole⟩ := Splice.exists_pieces _ ordered
  have sound : Sound pieces tail := by
    refine sound_of_seams 0 (by rw [whole]; exact document.text.bytes.valid) ?_
    intro cut member
    rw [cuts] at member
    obtain ⟨edit, present, rfl⟩ := List.mem_map.mp member
    obtain ⟨start, stop⟩ := inside_of_validate valid present
    rw [whole]
    exact ⟨edit.insert.valid, start.clean, stop.clean⟩
  have valid : Valid (after pieces tail) := before_flip pieces tail ▸ sound.flip.before
  exact ⟨⟨after pieces tail, valid⟩, ⟨pieces, tail, sound, whole, rfl⟩, cuts.symm⟩

theorem applyValidated_text {document : Document} (change : Change document.text.bytes new)
    (performs : Performs transaction change) (record : Bool) :
    (document.applyValidated transaction record).2.text.bytes = new :=
  Replay.run_change change performs rfl rfl

end Document

end ForgeNode.Editor
