import ForgeNode.Editor.Fold
import ForgeNode.Editor.Positions

/-! The folds of an App: which blocks are folded, which lines that hides, and how an edit renumbers
them. -/

namespace ForgeNode.Editor.Fold

open List Outline

/-- `BTreeSet::insert`, on the ascending lines of the set. -/
def insertLine (line : Nat) : List Nat → List Nat
  | [] => [line]
  | first :: rest =>
    if line < first then line :: first :: rest
    else if line = first then first :: rest
    else first :: insertLine line rest

/-- Headers of folded blocks, ascending. -/
structure Headers where
  lines : List Nat
  ordered : lines.Pairwise (· < ·)

/-- What an App keeps of its folds. -/
structure Folds where
  regions : List Region
  folded : Headers
  /-- First and last line of each hidden stretch. -/
  hidden : List (Nat × Nat)

/-- `region_at`: headers are unique, so a search by header is a lookup. -/
def regionAt (regions : List Region) (line : Nat) : Option Region :=
  regions.find? (·.header == line)

/-- The loop of `sync_hidden`, with the last stretch first. -/
def hide (hidden : List (Nat × Nat)) (region : Region) : List (Nat × Nat) :=
  match hidden with
  | (start, stop) :: rest =>
    if region.header + 1 ≤ stop + 1 then (start, max stop region.last) :: rest
    else (region.header + 1, region.last) :: (start, stop) :: rest
  | [] => [(region.header + 1, region.last)]

/-- `sync_hidden`. -/
def hiddenBy (regions : List Region) (folded : List Nat) : List (Nat × Nat) :=
  ((folded.filterMap (regionAt regions)).foldl hide []).reverse

/-- Whether a line is inside a folded block. -/
def isHidden (hidden : List (Nat × Nat)) (line : Nat) : Bool :=
  let after := partitionPoint (· ≤ line) (hidden.map (·.1))
  after > 0 && (hidden[after - 1]?).any (·.2 ≥ line)

section Sets

variable {line other : Nat} {lines : List Nat}

theorem mem_insertLine : other ∈ insertLine line lines ↔ other = line ∨ other ∈ lines := by
  induction lines with
  | nil => simp [insertLine]
  | cons first rest ih =>
    unfold insertLine
    split
    · simp
    split
    · rename_i same
      rw [same, mem_cons]
      tauto
    · rw [mem_cons, mem_cons, ih]
      tauto

theorem insertLine_ordered (ordered : lines.Pairwise (· < ·)) :
    (insertLine line lines).Pairwise (· < ·) := by
  induction lines with
  | nil => exact pairwise_singleton _ _
  | cons first rest ih =>
    obtain ⟨above, later⟩ := pairwise_cons.mp ordered
    unfold insertLine
    split
    · rename_i less
      refine pairwise_cons.mpr ⟨?_, ordered⟩
      intro other member
      rcases mem_cons.mp member with rfl | member
      · exact less
      · exact Nat.lt_trans less (above other member)
    split
    · exact ordered
    · refine pairwise_cons.mpr ⟨?_, ih later⟩
      intro other member
      rcases mem_insertLine.mp member with rfl | member
      · omega
      · exact above other member

end Sets

namespace Headers

def empty : Headers := ⟨[], .nil⟩

def insert (headers : Headers) (line : Nat) : Headers :=
  ⟨insertLine line headers.lines, insertLine_ordered headers.ordered⟩

/-- `BTreeSet::retain`. -/
def retain (headers : Headers) (keep : Nat → Bool) : Headers :=
  ⟨headers.lines.filter keep, headers.ordered.filter keep⟩

def remove (headers : Headers) (line : Nat) : Headers := headers.retain (· != line)

/-- `BTreeSet::extend`. -/
def extend (headers : Headers) (lines : List Nat) : Headers := lines.foldl insert headers

instance : Membership Nat Headers := ⟨fun headers line => line ∈ headers.lines⟩

instance (line : Nat) (headers : Headers) : Decidable (line ∈ headers) :=
  inferInstanceAs (Decidable (line ∈ headers.lines))

@[simp] theorem mem_insert {headers : Headers} {line other : Nat} :
    other ∈ headers.insert line ↔ other = line ∨ other ∈ headers := mem_insertLine

@[simp] theorem mem_retain {headers : Headers} {keep : Nat → Bool} {line : Nat} :
    line ∈ headers.retain keep ↔ line ∈ headers ∧ keep line = true := mem_filter

@[simp] theorem mem_extend {headers : Headers} {lines : List Nat} {line : Nat} :
    line ∈ headers.extend lines ↔ line ∈ lines ∨ line ∈ headers := by
  unfold extend
  induction lines generalizing headers with
  | nil => simp
  | cons first rest ih =>
    rw [foldl_cons, ih, mem_insert, mem_cons]
    tauto

end Headers

/-- `checked_add_signed`. -/
def checkedAddSigned (line : Nat) (delta : Int) : Option Nat :=
  if 0 ≤ line + delta then some (line + delta).toNat else none

/-- Renumber the folds below an edit that added or removed lines. -/
def shiftFolds (applied : Applied) (folded : Headers) : Headers :=
  if applied.lineDelta = 0 then folded
  else
    let kept := folded.retain (· < applied.lastLine + 1)
    let below := folded.retain (· ≥ applied.lastLine + 1)
    kept.extend (below.lines.filterMap (checkedAddSigned · applied.lineDelta))

namespace Folds

/-- `sync_hidden`, as an App does it. -/
def sync (folds : Folds) : Folds :=
  { folds with hidden := hiddenBy folds.regions folds.folded.lines }

/-- Re-read which blocks can be folded, and drop folds that no longer name one. -/
def refold (script : Script) (text : Text) (folds : Folds) : Folds :=
  let regions := Fold.regions script text
  let folded := folds.folded.retain fun line => (regionAt regions line).isSome
  sync { folds with regions, folded }

/-- What `rescan_edited` does to the folds. -/
def rescanEdited (script : Script) (text : Text) (applied : Applied) (folds : Folds) : Folds :=
  refold script text { folds with folded := shiftFolds applied folds.folded }

end Folds

/-- The number that a folded header has after `shift_folds`. -/
def renumber (applied : Applied) (line : Nat) : Option Nat :=
  if applied.lineDelta = 0 ∨ line ≤ applied.lastLine then some line else checkedAddSigned line
    applied.lineDelta

theorem mem_shiftFolds {applied : Applied} {folded : Headers} {line : Nat} :
    line ∈ shiftFolds applied folded ↔ ∃ header ∈ folded, renumber applied header = some line := by
  unfold shiftFolds renumber
  by_cases same : applied.lineDelta = 0
  · rw [if_pos same]
    constructor
    · exact fun member => ⟨line, member, if_pos (.inl same)⟩
    · rintro ⟨header, member, is_⟩
      rw [if_pos (.inl same)] at is_
      exact Option.some.inj is_ ▸ member
  · rw [if_neg same, Headers.mem_extend, Headers.mem_retain, mem_filterMap, decide_eq_true_eq,
      Nat.lt_succ_iff]
    constructor
    · rintro (⟨header, member, moved⟩ | ⟨member, above⟩)
      · obtain ⟨member, below⟩ := Headers.mem_retain.mp member
        have later : ¬ (applied.lineDelta = 0 ∨ header ≤ applied.lastLine) := by
          rw [decide_eq_true_eq] at below
          omega
        exact ⟨header, member, (if_neg later).trans moved⟩
      · exact ⟨line, member, if_pos (.inr above)⟩
    · rintro ⟨header, member, is_⟩
      split at is_
      · rename_i kept
        obtain rfl := Option.some.inj is_
        exact .inr ⟨member, kept.resolve_left same⟩
      · rename_i later
        refine .inl ⟨header, Headers.mem_retain.mpr ⟨member, ?_⟩, is_⟩
        rw [decide_eq_true_eq]
        omega

theorem mem_rescanEdited {script : Script} {text : Text} {applied : Applied} {folds : Folds}
    {line : Nat} : line ∈ (folds.rescanEdited script text applied).folded ↔
    (regionAt (regions script text) line).isSome ∧
      ∃ header ∈ folds.folded, renumber applied header = some line := by
  rw [← mem_shiftFolds, and_comm]
  exact Headers.mem_retain

section Hidden

/-- Some stretch covers a line. -/
def Covers (hidden : List (Nat × Nat)) (line : Nat) : Prop := ∃ stretch ∈ hidden, stretch.1 ≤ line ∧
    line ≤ stretch.2

/-- Stretches in ascending order, none empty, with a line between each two. -/
structure Apart (hidden : List (Nat × Nat)) : Prop where
  ordered : hidden.Pairwise fun first second => first.2 + 1 < second.1
  filled : ∀ stretch ∈ hidden, stretch.1 ≤ stretch.2

variable {hidden : List (Nat × Nat)} {line : Nat}

theorem apart_reverse : Apart hidden.reverse ↔
    hidden.Pairwise (fun newer older => older.2 + 1 < newer.1) ∧ ∀ stretch ∈ hidden, stretch.1 ≤
      stretch.2 := by
  constructor
  · rintro ⟨ordered, filled⟩
    exact ⟨pairwise_reverse.mp ordered, fun stretch member => filled stretch (mem_reverse.mpr member)⟩
  · rintro ⟨ordered, filled⟩
    exact ⟨pairwise_reverse.mpr ordered, fun stretch member => filled stretch (mem_reverse.mp member)⟩

theorem covers_cons {stretch : Nat × Nat} : Covers (stretch :: hidden) line ↔
    (stretch.1 ≤ line ∧ line ≤ stretch.2) ∨ Covers hidden line := exists_mem_cons_iff ..

/-- One region adds its body to what is hidden. -/
theorem hide_step {region : Region} (apart : Apart hidden.reverse)
    (long : region.header < region.last) (behind : ∀ stretch ∈ hidden, stretch.1 ≤ region.header +
      1) :
    Apart (hide hidden region).reverse ∧
    (∀ stretch ∈ hide hidden region, stretch.1 ≤ region.header + 1) ∧
      ∀ line, Covers (hide hidden region) line ↔
        Covers hidden line ∨ (region.header < line ∧ line ≤ region.last) := by
  rw [apart_reverse] at apart ⊢
  obtain ⟨ordered, filled⟩ := apart
  cases hidden with
  | nil =>
    refine ⟨⟨pairwise_singleton _ _, ?_⟩, ?_, ?_⟩
    · intro stretch member
      rw [mem_singleton.mp member]
      exact long
    · intro stretch member
      rw [mem_singleton.mp member]
    · intro line
      rw [hide, covers_cons, or_comm]
      rfl
  | cons newest older =>
    obtain ⟨start, stop⟩ := newest
    obtain ⟨above, others⟩ := pairwise_cons.mp ordered
    have here := filled _ mem_cons_self
    have near := behind _ mem_cons_self
    simp only at above here near
    simp only [hide]
    split
    · rename_i touches
      refine ⟨⟨pairwise_cons.mpr ⟨above, others⟩, ?_⟩, ?_, ?_⟩
      · intro stretch member
        rcases mem_cons.mp member with rfl | member
        · exact Nat.le_trans here (Nat.le_max_left _ _)
        · exact filled stretch (mem_cons_of_mem _ member)
      · intro stretch member
        rcases mem_cons.mp member with rfl | member
        · exact near
        · exact behind stretch (mem_cons_of_mem _ member)
      · intro line
        rw [covers_cons, covers_cons, or_right_comm]
        refine or_congr_left ?_
        simp only
        omega
    · rename_i parts
      refine ⟨⟨pairwise_cons.mpr ⟨?_, ordered⟩, ?_⟩, ?_, ?_⟩
      · intro stretch member
        rcases mem_cons.mp member with rfl | member
        · simp only
          omega
        · have := above stretch member
          simp only
          omega
      · intro stretch member
        rcases mem_cons.mp member with rfl | member
        · exact long
        · exact filled stretch member
      · intro stretch member
        rcases mem_cons.mp member with rfl | member
        · exact Nat.le_refl _
        · exact behind stretch member
      · intro line
        rw [covers_cons, or_comm]
        rfl

/-- Each region adds its body to what is hidden. -/
theorem hide_spec {rest : List Region} (apart : Apart hidden.reverse)
    (valid : ∀ region ∈ rest, region.header < region.last)
    (ascending : rest.Pairwise fun first second => first.header < second.header)
    (behind : ∀ stretch ∈ hidden, ∀ region ∈ rest, stretch.1 ≤ region.header + 1) :
    Apart (rest.foldl hide hidden).reverse ∧
      ∀ line, Covers (rest.foldl hide hidden) line ↔
        Covers hidden line ∨ ∃ region ∈ rest, region.header < line ∧ line ≤ region.last := by
  induction rest generalizing hidden with
  | nil => simp [apart]
  | cons region rest ih =>
    obtain ⟨above, later⟩ := pairwise_cons.mp ascending
    have long := valid region mem_cons_self
    have valid' : ∀ region ∈ rest, region.header < region.last :=
      fun other member => valid other (mem_cons_of_mem _ member)
    obtain ⟨apart', near, covers⟩ := hide_step apart long fun stretch member =>
      behind stretch member region mem_cons_self
    have behind' : ∀ stretch ∈ hide hidden region, ∀ other ∈ rest, stretch.1 ≤ other.header + 1 := by
      intro stretch member other within
      have := near stretch member
      have := above other within
      omega
    obtain ⟨done, all⟩ := ih apart' valid' later behind'
    refine ⟨done, fun line => ?_⟩
    rw [foldl_cons, all, covers, exists_mem_cons_iff, or_assoc]

end Hidden

section Bodies

variable {script : Script} {text : Text} {region : Region} {line : Nat}

theorem regions_ascending (script : Script) (text : Text) :
    (regions script text).Pairwise fun first second => first.header < second.header := by
  rw [regions_eq]
  exact blocks_sorted (outline_ordered _)

theorem header_lt_last (member : region ∈ regions script text) : region.header < region.last := by
  rw [regions_eq] at member
  obtain ⟨item, same, opens⟩ := (mem_blocks (outline_ordered _)).mp member
  exact same ▸ opens.long

theorem regionAt_eq_some {regions : List Region} (found : regionAt regions line = some region) :
    region ∈ regions ∧ region.header = line := by
  unfold regionAt at found
  have here := find?_some found
  exact ⟨mem_of_find?_eq_some found, beq_iff_eq.mp here⟩

theorem regionAt_eq_some_iff :
    regionAt (regions script text) line = some region ↔ region ∈ regions script text ∧
    region.header = line := by
  constructor
  · exact regionAt_eq_some
  · rintro ⟨member, rfl⟩
    obtain ⟨other, found⟩ : ∃ other, regionAt (regions script text) region.header = some other :=
      Option.isSome_iff_exists.mp (find?_isSome.mpr ⟨region, member, beq_iff_eq.mpr rfl⟩)
    obtain ⟨there, same⟩ := regionAt_eq_some found
    have unique : ((regions script text).map Region.header).Nodup :=
      pairwise_map.mpr ((regions_ascending script text).imp Nat.ne_of_lt)
    rw [found, inj_on_of_nodup_map unique there member same]

/-- What is hidden is the union of the bodies of the folded blocks. -/
theorem hiddenBy_spec (folded : Headers) : Apart (hiddenBy (regions script text) folded.lines) ∧
    ∀ line, Covers (hiddenBy (regions script text) folded.lines) line ↔
      ∃ region ∈ regions script text, region.header ∈ folded ∧ region.header < line ∧
      line ≤ region.last := by
  have members {region : Region} : region ∈ folded.lines.filterMap (regionAt (regions script text)) ↔
      region ∈ regions script text ∧ region.header ∈ folded := by
    rw [mem_filterMap]
    constructor
    · rintro ⟨line, within, found⟩
      obtain ⟨member, rfl⟩ := regionAt_eq_some_iff.mp found
      exact ⟨member, within⟩
    · rintro ⟨member, within⟩
      exact ⟨region.header, within, regionAt_eq_some_iff.mpr ⟨member, rfl⟩⟩
  have ascending : (folded.lines.filterMap (regionAt (regions script text))).Pairwise
      fun first second => first.header < second.header := by
    apply List.Pairwise.filterMap _ _ folded.ordered
    intro first second less one here other there
    obtain ⟨_, rfl⟩ := regionAt_eq_some_iff.mp here
    obtain ⟨_, rfl⟩ := regionAt_eq_some_iff.mp there
    exact less
  obtain ⟨apart, covers⟩ := @hide_spec [] (folded.lines.filterMap (regionAt (regions script text)))
    ⟨.nil, fun _ member => absurd member not_mem_nil⟩
    (fun region member => header_lt_last (members.mp member).1) ascending
    (fun _ member => absurd member not_mem_nil)
  refine ⟨apart, fun line => ?_⟩
  have reversed : Covers (hiddenBy (regions script text) folded.lines) line ↔
      Covers ((folded.lines.filterMap (regionAt (regions script text))).foldl hide []) line :=
    exists_congr fun stretch => and_congr_left' mem_reverse
  rw [reversed, covers]
  constructor
  · rintro (⟨_, member, _⟩ | ⟨region, member, inside⟩)
    · cases member
    · exact ⟨region, (members.mp member).1, (members.mp member).2, inside⟩
  · rintro ⟨region, member, within, inside⟩
    exact .inr ⟨region, members.mpr ⟨member, within⟩, inside⟩

end Bodies

end ForgeNode.Editor.Fold
