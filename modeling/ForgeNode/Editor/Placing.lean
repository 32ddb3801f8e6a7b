import ForgeNode.Editor.Carets
import ForgeNode.Editor.Damage

/-! The carets of every document that calls reach: apart, few, and on boundaries of its text. -/

namespace ForgeNode.Editor

open List hiding after
open Utf8 Splice

namespace Selection

/-- Carets that are apart already stay as they are. -/
theorem many_of_apart {cursors : List Cursor} (apart : cursors.Pairwise Cursor.apart)
    (few : cursors.length ≤ maxCursors) {primary : Nat} (inside : primary < cursors.length) :
    many cursors primary = ⟨cursors, primary, inside⟩ := by
  have some_ : cursors ≠ [] := length_pos_iff.mp (Nat.lt_of_le_of_lt (Nat.zero_le _) inside)
  obtain ⟨keep, same, shape, place⟩ := many_cursors some_ primary
  have ordered : cursors.Pairwise Cursor.before := apart.imp fun {first second} gap => by
    have order := first.range.ordered
    unfold Cursor.apart at gap
    unfold Cursor.before
    omega
  have whole : merged cursors = cursors := by
    unfold merged
    rw [List.Pairwise.insertionSort_eq ordered]
    cases cursors with
    | nil => rfl
    | cons lowest rest => exact mergeTouching_of_apart apart
  rw [whole, capCursors_of_le few] at shape place
  have here : cursors[primary]? = some keep := by
    rw [getElem?_eq_getElem inside] at same ⊢
    exact congrArg some same
  have found : (cursors.findIdx? fun cursor =>
      cursor.range.contains keep.head || cursor.head == keep.head) = some primary := by
    refine findIdx?_eq_some_iff_getElem.mpr ⟨inside, ?_, fun earlier before answers => ?_⟩
    · rw [getElem?_eq_getElem inside] at here
      simp [Option.some.inj here]
    · have gap := pairwise_iff_getElem.mp apart earlier primary (Nat.lt_trans before inside) inside
        before
      rw [getElem?_eq_getElem inside] at here
      rw [Option.some.inj here] at gap
      have head := keep.head_mem
      have own := cursors[earlier].head_mem
      unfold Cursor.apart at gap
      simp only [Range.contains, Bool.or_eq_true, Bool.and_eq_true, decide_eq_true_eq,
        beq_iff_eq] at answers
      omega
  rw [found, Option.getD_some] at place
  cases built : many cursors primary with
  | mk others index bound =>
    simp only [built] at shape place
    simp only [shape, place]

/-- Carets are built from ends of the carets given. -/
theorem many_inside {cursors : List Cursor} (some_ : cursors ≠ []) {P : Nat → Prop}
    (inside : ∀ cursor ∈ cursors, P cursor.anchor ∧ P cursor.head) (primary : Nat) :
    ∀ cursor ∈ (many cursors primary).cursors, P cursor.anchor ∧ P cursor.head := by
  obtain ⟨keep, _, shape, _⟩ := many_cursors some_ primary
  have ends {cursor : Cursor} (member : cursor ∈ cursors) : P cursor.range.start ∧
      P cursor.range.stop := by
    obtain ⟨anchor, head⟩ := inside cursor member
    rw [cursor.range_start, cursor.range_stop]
    rcases Nat.le_total cursor.anchor cursor.head with order | order
    · rw [Nat.min_eq_left order, Nat.max_eq_right order]
      exact ⟨anchor, head⟩
    · rw [Nat.min_eq_right order, Nat.max_eq_left order]
      exact ⟨head, anchor⟩
  intro wide member
  rw [shape] at member
  obtain ⟨⟨first, there, start⟩, final, there', stop⟩ :=
    merged_ends ((capCursors_sublist _ _).subset member)
  have low := (ends there).1
  have high := (ends there').2
  rw [start, wide.range_start] at low
  rw [stop, wide.range_stop] at high
  rcases Nat.le_total wide.anchor wide.head with order | order
  · rw [Nat.min_eq_left order] at low
    rw [Nat.max_eq_right order] at high
    exact ⟨low, high⟩
  · rw [Nat.min_eq_right order] at low
    rw [Nat.max_eq_left order] at high
    exact ⟨high, low⟩

theorem cursors_ne_nil (selection : Selection) : selection.cursors ≠ [] :=
  length_pos_iff.mp (Nat.lt_of_le_of_lt (Nat.zero_le _) selection.inRange)

theorem mapped_inside {selection : Selection} {f : Cursor → Cursor} {P : Nat → Prop}
    (inside : ∀ cursor ∈ selection.cursors, P (f cursor).anchor ∧ P (f cursor).head) :
    ∀ cursor ∈ (selection.mapped f).cursors, P cursor.anchor ∧ P cursor.head := by
  apply many_inside
  · exact mt map_eq_nil_iff.mp selection.cursors_ne_nil
  · intro cursor member
    obtain ⟨source, there, rfl⟩ := List.mem_map.mp member
    exact inside source there

end Selection

namespace Document

/-- The carets are what an edit at all of them relies on. -/
structure Placed (document : Document) : Prop where
  sound : document.selection.Sound
  inside : ∀ cursor ∈ document.selection.cursors,
    document.text.bytes.IsBoundary cursor.anchor ∧ document.text.bytes.IsBoundary cursor.head

theorem Placed.range {document : Document} (placed : document.Placed) {cursor : Cursor}
    (member : cursor ∈ document.selection.cursors) :
    document.text.bytes.IsBoundary cursor.range.start ∧
    document.text.bytes.IsBoundary cursor.range.stop := by
  obtain ⟨anchor, head⟩ := placed.inside cursor member
  rw [cursor.range_start, cursor.range_stop]
  rcases Nat.le_total cursor.anchor cursor.head with order | order
  · rw [Nat.min_eq_left order, Nat.max_eq_right order]
    exact ⟨anchor, head⟩
  · rw [Nat.min_eq_right order, Nat.max_eq_left order]
    exact ⟨head, anchor⟩

/-- Text and carets as they were. -/
structure SameCarets (document after : Document) : Prop where
  text : after.text = document.text
  selection : after.selection = document.selection

theorem SameCarets.refl (document : Document) : SameCarets document document := ⟨rfl, rfl⟩

theorem Placed.same {document after : Document} (placed : document.Placed)
    (same : SameCarets document after) : after.Placed := by
  obtain ⟨sound, inside⟩ := placed
  exact ⟨same.selection ▸ sound, same.text ▸ same.selection ▸ inside⟩

/-- Rebuilding a selection clamped to the text places it. -/
theorem placed_mapped {document : Document} {selection : Selection} {f : Cursor → Cursor}
    (built : document.selection = selection.mapped f)
    (clamped : ∀ cursor, document.text.bytes.IsBoundary (f cursor).anchor ∧
      document.text.bytes.IsBoundary (f cursor).head) : document.Placed := by
  refine ⟨?_, ?_⟩
  · rw [built]
    exact Selection.sound_many _ _
  · rw [built]
    exact Selection.mapped_inside fun cursor _ => clamped cursor

theorem applyValidated_placed (document : Document) (transaction : Transaction) (record : Bool) :
    (document.applyValidated transaction record).2.Placed :=
  placed_mapped rfl fun _ => ⟨Text.clampOffset_isBoundary _ _, Text.clampOffset_isBoundary _ _⟩

theorem setSelection_placed (document : Document) (selection : Selection) :
    (document.setSelection selection).Placed :=
  placed_mapped rfl fun _ => ⟨Text.clampOffset_isBoundary _ _, Text.clampOffset_isBoundary _ _⟩

section Calls

variable {document : Document}

theorem apply_placed {here after : Document} {transaction : Transaction} (placed : here.Placed)
    (same : SameCarets (here.apply transaction).2 after) : after.Placed := by
  refine Placed.same ?_ same
  unfold apply
  split
  · exact placed
  split
  · exact placed
  · exact applyValidated_placed _ _ _

theorem insertAround_placed (placed : document.Placed) (before after : Str) (origin : Origin) :
    (document.insertAround before after origin).2.Placed := by
  unfold insertAround
  simp only
  split
  · exact placed
  · exact apply_placed placed (.refl _)

theorem delete_placed (placed : document.Placed) (into : Text → Nat → Nat) (origin : Origin) :
    (document.delete into origin).2.Placed := by
  unfold delete
  split
  · exact placed
  simp only
  split
  · exact placed
  split
  · exact placed
  · exact apply_placed placed (.refl _)

theorem replaceAll_placed (placed : document.Placed) (engine : Engine) (query : Query)
    (replacement : Str) : (document.replaceAll engine query replacement).2.Placed := by
  have broken : document.breakUndoGroup.Placed := placed.same ⟨rfl, rfl⟩
  unfold replaceAll
  split
  · exact placed
  split
  · exact placed
  split
  · exact placed
  simp only
  split
  · exact placed
  split
  · exact placed
  split
  · exact apply_placed broken (.refl _)
  · exact apply_placed broken ⟨rfl, rfl⟩

theorem reload_placed (placed : document.Placed) (body : Str) (revision : String) :
    (document.reload body revision).2.Placed := by
  have opened : (document.setReadOnly false).breakUndoGroup.Placed := placed.same ⟨rfl, rfl⟩
  unfold reload
  simp only
  split
  · exact placed.same ⟨rfl, rfl⟩
  split
  · exact apply_placed opened ⟨rfl, rfl⟩
  · exact apply_placed opened ⟨rfl, rfl⟩

theorem reloadClean_placed (placed : document.Placed) (text : Str) (revision : String) :
    (document.reloadClean text revision).2.Placed := by
  unfold reloadClean
  split
  · exact placed
  split
  · exact placed
  split
  · exact placed.same ⟨rfl, rfl⟩
  simp only
  split
  · exact placed
  split
  · exact placed
  · exact (applyValidated_placed document.breakUndoGroup _ true).same ⟨rfl, rfl⟩

theorem perform_placed (placed : document.Placed) (op : Op) : (document.perform op).Placed := by
  cases op with
  | apply transaction => exact apply_placed placed (.refl _)
  | insert | insertAround => exact insertAround_placed placed _ _ _
  | delete into origin => exact delete_placed placed _ _
  | replaceAll engine query replacement => exact replaceAll_placed placed _ _ _
  | reload body revision => exact reload_placed placed _ _
  | reloadClean text revision => exact reloadClean_placed placed _ _
  | undo =>
    simp only [perform, undo]
    split
    · exact placed
    split
    · exact placed
    · exact (applyValidated_placed { document with history := _ } _ false).same ⟨rfl, rfl⟩
  | redo =>
    simp only [perform, redo]
    split
    · exact placed
    split
    · exact placed
    · exact (applyValidated_placed { document with history := _ } _ false).same ⟨rfl, rfl⟩
  | setSelection | gotoLine => exact setSelection_placed _ _
  | snapshot => exact placed
  | _ => exact placed.same ⟨rfl, rfl⟩

end Calls

theorem Reached.placed {document : Document} (reached : document.Reached) : document.Placed := by
  induction reached with
  | load body readOnly =>
    refine ⟨Selection.sound_one _, fun cursor member => ?_⟩
    rw [mem_singleton.mp member]
    exact ⟨body.isBoundary_zero, body.isBoundary_zero⟩
  | call op _ ih => exact perform_placed ih op

end Document

end ForgeNode.Editor
