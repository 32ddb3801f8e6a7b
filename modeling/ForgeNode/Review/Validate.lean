import Mathlib.Algebra.Ring.Int.Defs
import Mathlib.Data.List.Sort
import ForgeNode.Git.Marks
import ForgeNode.Orchestration.Prompt

/-! What a review keeps of the findings a model reports: anchored in the diff, without doubles,
numbered. -/

namespace ForgeNode.Review

open List
open Marks (Text lines stripPrefix add32 parseU32)

variable {finding : Finding}

def maxFindings : Nat := 200
def maxTextBytes : Nat := 4 * 1024
def maxSuggestionBytes : Nat := 8 * 1024

/-- How far the model's line may sit from where its evidence actually is. -/
def anchorSlack : Nat := 3

inductive Severity where
  | p0 | p1 | p2
  deriving DecidableEq

/-- `P0` is the most severe. -/
def Severity.rank : Severity → Nat
  | .p0 => 0
  | .p1 => 1
  | .p2 => 2

/-- `max` of the derived order: the less severe of the two. -/
def Severity.max (a b : Severity) : Severity := if a.rank ≤ b.rank then b else a

structure RawFinding where
  path : Text
  line : Option Nat
  endLine : Option Nat
  severity : Severity
  category : Text
  ruleId : Option Text
  confidence : Rat
  title : Text
  body : Text
  evidence : Text
  suggestion : Option Text

structure ReviewOutput where
  summary : Text
  findings : List RawFinding
  diagram : Option Text

structure ChangedFile where
  path : Text
  patch : Text
  text : Option Text

/-- The fields of a rule that the validation reads. -/
structure Rule where
  id : Text
  severity : Severity

/-- The fields of the resolved settings that the validation reads. -/
structure Resolved where
  categories : List (Text × Bool)
  maxFindings : Nat
  minConfidence : Rat

structure Finding where
  id : Nat
  fingerprint : Text
  path : Text
  line : Option Nat
  endLine : Option Nat
  severity : Severity
  category : Text
  ruleId : Option Text
  confidence : Rat
  title : Text
  body : Text
  evidence : Text
  suggestion : Option Text
  deriving DecidableEq

structure Validated where
  summary : Text
  findings : List Finding
  invalidAnchors : Nat
  total : Nat
  lowConfidence : Nat
  trimmed : Nat

/-- `split_whitespace`. -/
def fields (text : Text) : List Text :=
  (text.splitOnP Framing.isWhitespace).filter (!·.isEmpty)

/-- The lines of the new side that one row of a patch announces; a pure deletion has none. -/
def hunk (row : Text) : Option (Nat × Nat) :=
  match stripPrefix ['@', '@', ' ', '-'] row with
  | none => none
  | some rest => match (fields rest).find? (['+'].isPrefixOf ·) with
    | none => none
    | some new => match Marks.splitOnce ',' (new.drop 1) with
      | some (start, count) => match parseU32 start, parseU32 count with
        | some start, some count => if 0 < count then some (start, add32 start (count - 1)) else none
        | _, _ => none
      | none => match parseU32 (new.drop 1) with
        | some start => some (start, start)
        | none => none

def hunks (patch : Text) : List (Nat × Nat) := (lines patch).filterMap hunk

def clip (text : Text) (max : Nat) : Text := Orchestration.takeBytes max text

def capped (raw : RawFinding) : RawFinding :=
  { raw with
    title := clip raw.title maxTextBytes
    body := clip raw.body maxTextBytes
    evidence := clip raw.evidence maxTextBytes
    suggestion := raw.suggestion.map (clip · maxSuggestionBytes) }

/-- 1-based lines where `evidence` starts, line by line and without surrounding whitespace. -/
def evidenceLines (text evidence : Text) : List Nat :=
  let wanted := ((lines evidence).map Framing.trim).filter (!·.isEmpty)
  if wanted.isEmpty then []
  else
    let rows := lines text
    ((List.range rows.length).filter fun start =>
      wanted.zipIdx.all fun (want, offset) =>
        rows[start + offset]?.any fun row => Orchestration.Prompt.occurs want row).map (· + 1)

def lastLine (text : Text) : Nat := (lines text).length

def absDiff (a b : Nat) : Nat := max a b - min a b

/-- `min_by_key`: of the nearest the first. -/
def nearest (asked : Nat) : List Nat → Option Nat
  | [] => none
  | found :: rest => match nearest asked rest with
    | none => some found
    | some other => if absDiff other asked < absDiff found asked then some other else some found

def overlaps (a b : Finding) : Bool :=
  if a.path ≠ b.path ∨ a.category ≠ b.category then false
  else match a.line, b.line with
    | some aStart, some bStart =>
      decide (aStart ≤ b.endLine.getD bStart) && decide (bStart ≤ a.endLine.getD aStart)
    | _, _ => false

/-- A finding under a rule in scope is no more severe than the rule; one without drops the name. -/
def ruled (rules : List Rule) (raw : RawFinding) : RawFinding :=
  match raw.ruleId.bind fun id => rules.find? (·.id = id) with
  | some rule => { raw with severity := raw.severity.max rule.severity }
  | none => { raw with ruleId := none }

/-- What is left of the findings after the caps, the category and the confidence filters. -/
def considered (output : ReviewOutput) (rules : List Rule) (resolved : Resolved) :
    List RawFinding :=
  (((output.findings.take maxFindings).map (ruled rules)).filter fun raw =>
    raw.ruleId.isSome || resolved.categories.lookup raw.category != some false).filter fun raw =>
      !raw.confidence.blt resolved.minConfidence

/-- Where a finding that asks for a line is anchored: the line, its end, or nothing in the hunks. -/
def anchor (file : ChangedFile) (text : Text) (occurrences : List Nat) (asked : Nat)
    (endLine : Option Nat) : Option (Nat × Option Nat) :=
  let anchored := (nearest asked (occurrences.filter fun found =>
    absDiff found asked ≤ anchorSlack)).getD asked
  if (hunks file.patch).any fun (first, last) => first ≤ anchored && anchored ≤ last then
    some (anchored, (endLine.map fun end_ => (end_ : Int) + anchored - asked).bind fun shifted =>
      if 0 ≤ shifted ∧ shifted < 2 ^ 32 ∧ (anchored : Int) ≤ shifted ∧ shifted ≤ lastLine text then
        some shifted.toNat
      else none)
  else none

/-- The finding that a considered one becomes, and whether its anchor is outside the diff. -/
def examine (fingerprint : Text → Text → Option Text → Text → Text) (files : List ChangedFile)
    (raw : RawFinding) : Option (Finding × Bool) :=
  let raw := capped raw
  if Orchestration.Prompt.occurs ['.', '.'] raw.path || ['/'].isPrefixOf raw.path then none
  else match files.find? (·.path = raw.path) with
    | none => none
    | some file => match file.text with
      | none => none
      | some text =>
        let occurrences := evidenceLines text raw.evidence
        if occurrences.isEmpty then none
        else
          let place := raw.line.bind fun asked => anchor file text occurrences asked raw.endLine
          some ({
            id := 0
            fingerprint := fingerprint raw.path raw.category raw.ruleId raw.evidence
            path := raw.path
            line := place.map (·.1)
            endLine := place.bind (·.2)
            severity := raw.severity
            category := raw.category
            ruleId := raw.ruleId
            confidence := raw.confidence
            title := raw.title
            body := raw.body
            evidence := raw.evidence
            suggestion := raw.suggestion }, raw.line.isSome && place.isNone)

/-- The first overlapping finding decides: a more severe one takes its place. -/
def place : List Finding → Finding → List Finding
  | [], finding => [finding]
  | other :: rest, finding =>
    if overlaps other finding then
      (if finding.severity.rank < other.severity.rank then finding else other) :: rest
    else other :: place rest finding

def summaryOf (output : ReviewOutput) : Text :=
  match output.diagram with
  | some diagram =>
    if "```".toList.isPrefixOf (diagram.dropWhile Framing.isWhitespace) then
      output.summary ++ ['\n', '\n'] ++ diagram
    else output.summary ++ "\n\n```mermaid\n".toList ++ diagram ++ "\n```".toList
  | none => output.summary

def number (findings : List Finding) : List Finding :=
  findings.mapIdx fun at_ finding => { finding with id := at_ + 1 }

def validate (fingerprint : Text → Text → Option Text → Text → Text) (output : ReviewOutput)
    (files : List ChangedFile) (rules : List Rule) (resolved : Resolved) :
    Except (Nat × Nat) Validated :=
  let findings := considered output rules resolved
  let filtered := ((output.findings.take maxFindings).map (ruled rules)).filter fun raw =>
    raw.ruleId.isSome || resolved.categories.lookup raw.category != some false
  let examined := findings.filterMap (examine fingerprint files)
  let invalidAnchors := examined.countP (·.2)
  let kept := (examined.map (·.1)).foldl place []
  if invalidAnchors * 2 > findings.length then .error (invalidAnchors, findings.length)
  else
    let sorted := kept.mergeSort fun a b => a.severity.rank ≤ b.severity.rank
    .ok {
      summary := summaryOf output
      findings := number (sorted.take resolved.maxFindings)
      invalidAnchors
      total := findings.length
      lowConfidence := filtered.length - findings.length
      trimmed := kept.length - resolved.maxFindings }

/-- A finding that stands for another: it overlaps it and is at least as severe. -/
def Covers (kept finding : Finding) : Prop :=
  overlaps kept finding = true ∧ kept.severity.rank ≤ finding.severity.rank

/-- What the loop owes for the findings it has seen. -/
structure Good (kept seen : List Finding) : Prop where
  apart : kept.Pairwise fun a b => overlaps a b = false
  covered : ∀ finding ∈ seen, finding.line.isSome → ∃ other ∈ kept, Covers other finding

/-- How findings may stand to each other for the loop to do no harm: what is more severe than an
earlier one it overlaps joins no two that are apart, and overlaps what the earlier one stood for. -/
structure Compatible (findings : List Finding) : Prop where
  wide : ∀ first second last, [first, second, last].Sublist findings → overlaps first second = false →
    overlaps first last = true → overlaps second last = true →
      first.severity.rank ≤ last.severity.rank
  /-- The second has taken a place in front of the first one's. -/
  raised : ∀ taken first second last, [taken, first, second, last].Sublist findings →
    overlaps taken first = false → overlaps first second = false → overlaps taken second = true →
      second.severity.rank < taken.severity.rank →
    overlaps first last = true → overlaps second last = true →
      second.severity.rank ≤ last.severity.rank
  dropped : ∀ other finding last, [other, finding, last].Sublist findings → Covers other finding →
    overlaps other last = true → last.severity.rank < other.severity.rank →
      overlaps finding last = true
  replaced : ∀ finding other last, [finding, other, last].Sublist findings →
    overlaps finding other = true → other.severity.rank < finding.severity.rank →
      overlaps other last = true →
    last.severity.rank < other.severity.rank → overlaps finding last = true

/-- A range that does not end before it starts. -/
def Upright (finding : Finding) : Prop :=
  ∀ line, finding.line = some line → line ≤ finding.endLine.getD line

section Places

theorem overlaps_comm (a b : Finding) : overlaps a b = overlaps b a := by
  unfold overlaps
  by_cases same : a.path ≠ b.path ∨ a.category ≠ b.category
  · rw [if_pos same, if_pos (same.imp Ne.symm Ne.symm)]
  · rw [if_neg same, if_neg fun other => same (other.imp Ne.symm Ne.symm)]
    cases a.line <;> cases b.line <;> simp [Bool.and_comm]

theorem Upright.covers (upright : Upright finding) (anchored : finding.line.isSome) :
    Covers finding finding := by
  obtain ⟨line, at_⟩ := Option.isSome_iff_exists.mp anchored
  have ends := upright line at_
  refine ⟨?_, Nat.le_refl _⟩
  simp [overlaps, at_, ends]

/-- What becomes of a finding. -/
inductive Placed (kept : List Finding) (finding : Finding) : List Finding → Prop where
  | apart (clear : ∀ other ∈ kept, overlaps other finding = false) : Placed kept finding
      (kept ++ [finding])
  | stays (other : Finding) (among : other ∈ kept) (covers : Covers other finding) : Placed
      kept finding kept
  | displaces (front : List Finding) (other : Finding) (back : List Finding)
      (parts : kept = front ++ other :: back) (clear : ∀ earlier ∈ front, overlaps earlier finding =
        false) (meets : overlaps other finding = true)
      (severe : finding.severity.rank < other.severity.rank) : Placed kept finding
        (front ++ finding :: back)

theorem place_cases (kept : List Finding) (finding : Finding) :
    Placed kept finding (place kept finding) := by
  induction kept with
  | nil => exact .apart fun _ member => absurd member not_mem_nil
  | cons other kept ih =>
    unfold place
    by_cases over_ : overlaps other finding = true
    · rw [if_pos over_]
      by_cases severe : finding.severity.rank < other.severity.rank
      · rw [if_pos severe]
        exact .displaces [] other kept rfl (fun _ member => absurd member not_mem_nil) over_ severe
      · rw [if_neg severe]
        exact .stays other mem_cons_self ⟨over_, Nat.le_of_not_lt severe⟩
    · rw [if_neg over_]
      generalize place kept finding = after at ih
      cases ih with
      | apart clear => exact .apart (forall_mem_cons.mpr ⟨Bool.eq_false_iff.mpr over_, clear⟩)
      | stays keeper among covers => exact .stays keeper (mem_cons_of_mem _ among) covers
      | displaces front displaced back parts clear meets severe =>
        subst parts
        exact .displaces (other :: front) displaced back rfl
          (forall_mem_cons.mpr ⟨Bool.eq_false_iff.mpr over_, clear⟩) meets severe

/-- Two kept findings in their places: the first was seen first, or has taken the place of one that
was. -/
def InTurn (seen : List Finding) (first second : Finding) : Prop :=
  [first, second].Sublist seen ∨ ∃ taken, [taken, second, first].Sublist seen ∧
    overlaps taken second = false ∧ overlaps taken first = true ∧ first.severity.rank <
      taken.severity.rank

/-- A kept finding that stands for one seen: it itself, one seen before it, or one that took such a
one's place. -/
def StandsFor (seen : List Finding) (other finding : Finding) : Prop :=
  Covers other finding ∧ (other = finding ∨ [other, finding].Sublist seen ∨
    [finding, other].Sublist seen ∧ other.severity.rank < finding.severity.rank)

/-- What the loop keeps of the findings it has seen. -/
structure Kept (kept seen : List Finding) : Prop where
  among : kept ⊆ seen
  apart : kept.Pairwise fun a b => overlaps a b = false
  turns : kept.Pairwise (InTurn seen)
  covered : ∀ finding ∈ seen, finding.line.isSome → ∃ other ∈ kept, StandsFor seen other finding

theorem InTurn.grow {seen more : List Finding} {first second : Finding}
    (turn : InTurn seen first second) : InTurn (seen ++ more) first second := by
  have longer := sublist_append_left seen more
  rcases turn with before | ⟨taken, before, rest⟩
  · exact .inl (before.trans longer)
  · exact .inr ⟨taken, before.trans longer, rest⟩

theorem StandsFor.grow {seen more : List Finding} {other finding : Finding}
    (stands : StandsFor seen other finding) : StandsFor (seen ++ more) other finding := by
  have longer := sublist_append_left seen more
  exact ⟨stands.1, stands.2.imp_right (.imp (·.trans longer) (.imp_left (·.trans longer)))⟩

theorem sublist_snoc {seen part : List Finding} (before : part.Sublist seen) (finding : Finding) :
    (part ++ [finding]).Sublist (seen ++ [finding]) := before.append (List.Sublist.refl _)

theorem Kept.place {kept seen : List Finding} (compatible : Compatible (seen ++ [finding]))
    (upright : Upright finding) (keeps : Kept kept seen) :
    Kept (place kept finding) (seen ++ [finding]) := by
  have ahead {other : Finding} (there : other ∈ seen) : [other, finding].Sublist
      (seen ++ [finding]) :=
    sublist_snoc (singleton_sublist.mpr there) finding
  have itself (anchored : finding.line.isSome) : StandsFor (seen ++ [finding]) finding finding :=
    ⟨upright.covers anchored, .inl rfl⟩
  have cases_ := place_cases kept finding
  generalize Review.place kept finding = after at cases_
  cases cases_ with
  | apart clear =>
    refine ⟨?_, ?_, ?_, fun earlier member anchored => ?_⟩
    · exact append_subset.mpr ⟨fun _ there => mem_append_left _ (keeps.among there),
        subset_append_right _ _⟩
    · refine pairwise_append.mpr ⟨keeps.apart, pairwise_singleton _ _,
        fun other there last member => ?_⟩
      rw [mem_singleton.mp member]
      exact clear other there
    · refine pairwise_append.mpr ⟨keeps.turns.imp InTurn.grow, pairwise_singleton _ _,
        fun other there last member => ?_⟩
      rw [mem_singleton.mp member]
      exact .inl (ahead (keeps.among there))
    · rcases mem_append.mp member with before | last
      · obtain ⟨other, there, stands⟩ := keeps.covered earlier before anchored
        exact ⟨other, mem_append_left _ there, stands.grow⟩
      · obtain rfl := mem_singleton.mp last
        exact ⟨earlier, mem_append_right _ mem_cons_self, itself anchored⟩
  | stays other there covers =>
    refine ⟨fun _ there => mem_append_left _ (keeps.among there), keeps.apart,
      keeps.turns.imp InTurn.grow, fun earlier member anchored => ?_⟩
    rcases mem_append.mp member with before | last
    · obtain ⟨other, there, stands⟩ := keeps.covered earlier before anchored
      exact ⟨other, there, stands.grow⟩
    · obtain rfl := mem_singleton.mp last
      exact ⟨other, there, covers, .inr (.inl (ahead (keeps.among there)))⟩
  | displaces front other back parts clear meets severe =>
    subst parts
    obtain ⟨fronts, backs, across⟩ := pairwise_append.mp keeps.apart
    obtain ⟨beside, behind⟩ := pairwise_cons.mp backs
    obtain ⟨turnsFront, turnsBack, turns⟩ := pairwise_append.mp keeps.turns
    obtain ⟨turn, turnsBehind⟩ := pairwise_cons.mp turnsBack
    -- What the place's former finding took the place of, the new one overlaps as well.
    have inTurn {later : Finding} (there : later ∈ back) : InTurn (seen ++ [finding]) finding
        later := by
      rcases turn later there with before | ⟨taken, before, gap, joined, less⟩
      · exact .inr ⟨other, sublist_snoc before finding, beside later there, meets, severe⟩
      · have pair : [taken, later].Sublist seen :=
          (sublist_append_left [taken, later] [other]).trans before
        have skip : [taken, other].Sublist seen :=
          (cons_sublist_cons.mpr (sublist_cons_self _ _)).trans before
        exact .inr ⟨taken, sublist_snoc pair finding, gap,
          compatible.replaced taken other finding (sublist_snoc skip finding) joined less meets
          severe,
          Nat.lt_trans severe less⟩
    have free {later : Finding} (there : later ∈ back) : overlaps later finding = false := by
      by_contra joined
      replace joined : overlaps later finding = true := by simpa using joined
      refine absurd severe (Nat.not_lt.mpr ?_)
      rcases turn later there with before | ⟨taken, before, gap, took, less⟩
      · exact compatible.wide other later finding (sublist_snoc before finding) (beside later there)
          meets joined
      · refine compatible.raised taken later other finding (sublist_snoc before finding) gap ?_ took
          less joined meets
        rw [overlaps_comm]
        exact beside later there
    have known : front ++ other :: back ⊆ seen := keeps.among
    refine ⟨fun later there => ?_, ?_, ?_, fun earlier member anchored => ?_⟩
    · rcases mem_append.mp there with early | late
      · exact mem_append_left _ (known (mem_append_left _ early))
      rcases mem_cons.mp late with rfl | late
      · exact mem_append_right _ mem_cons_self
      · exact mem_append_left _ (known (mem_append_right _ (mem_cons_of_mem _ late)))
    · refine pairwise_append.mpr ⟨fronts, pairwise_cons.mpr ⟨fun later there => ?_, behind⟩,
        fun earlier there later late => ?_⟩
      · rw [overlaps_comm]
        exact free there
      · rcases mem_cons.mp late with rfl | late
        · exact clear earlier there
        · exact across earlier there later (mem_cons_of_mem _ late)
    · refine pairwise_append.mpr ⟨turnsFront.imp InTurn.grow,
        pairwise_cons.mpr ⟨fun later there => inTurn there, turnsBehind.imp InTurn.grow⟩,
        fun earlier there later late => ?_⟩
      rcases mem_cons.mp late with rfl | late
      · exact .inl (ahead (known (mem_append_left _ there)))
      · exact (turns earlier there later (mem_cons_of_mem _ late)).grow
    · rcases mem_append.mp member with before | last
      · obtain ⟨stander, there, stands⟩ := keeps.covered earlier before anchored
        have stays (there : stander ∈ front ++ finding :: back) :
            ∃ other ∈ front ++ finding :: back, StandsFor (seen ++ [finding]) other earlier :=
            ⟨stander, there, stands.grow⟩
        rcases mem_append.mp there with early | late
        · exact stays (mem_append_left _ early)
        rcases mem_cons.mp late with rfl | late
        · -- What stood for it is gone, and what took its place overlaps it too.
          obtain ⟨⟨joined, least⟩, how⟩ := stands
          have overlap : overlaps earlier finding = true := by
            rcases how with rfl | later | ⟨before', less⟩
            · exact meets
            · exact compatible.dropped stander earlier finding (sublist_snoc later finding)
                ⟨joined, least⟩ meets severe
            · refine compatible.replaced earlier stander finding (sublist_snoc before' finding) ?_
                less meets severe
              rw [overlaps_comm]
              exact joined
          have less : finding.severity.rank < earlier.severity.rank := Nat.lt_of_lt_of_le severe least
          rw [overlaps_comm] at overlap
          exact ⟨finding, mem_append_right _ mem_cons_self, ⟨overlap, Nat.le_of_lt less⟩,
            .inr (.inr ⟨ahead before, less⟩)⟩
        · exact stays (mem_append_right _ (mem_cons_of_mem _ late))
      · obtain rfl := mem_singleton.mp last
        exact ⟨earlier, mem_append_right _ mem_cons_self, itself anchored⟩

theorem Compatible.part {part findings : List Finding} (compatible : Compatible findings)
    (sub : part.Sublist findings) : Compatible part where
  wide first second last there := compatible.wide first second last (there.trans sub)
  raised taken first second last there := compatible.raised taken first second last (there.trans sub)
  dropped other finding last there := compatible.dropped other finding last (there.trans sub)
  replaced finding other last there := compatible.replaced finding other last (there.trans sub)

theorem Compatible.kept {findings : List Finding} (compatible : Compatible findings)
    (upright : ∀ finding ∈ findings, Upright finding) :
    Kept (findings.foldl place []) findings := by
  induction findings using List.reverseRecOn with
  | nil => exact ⟨List.Subset.refl _, .nil, .nil, fun _ member => absurd member not_mem_nil⟩
  | append_singleton findings finding ih =>
    rw [foldl_concat]
    refine Kept.place compatible (upright finding (mem_append_right _ mem_cons_self)) (ih ?_ ?_)
    · exact compatible.part (sublist_append_left _ _)
    · exact fun other there => upright other (mem_append_left _ there)

theorem Good.perm {kept after seen : List Finding} (good : Good kept seen)
    (same : after.Perm kept) : Good after seen := by
  refine ⟨(same.pairwise_iff fun {a b} clear => ?_).mpr good.apart, fun finding member anchored => ?_⟩
  · rw [overlaps_comm]
    exact clear
  · obtain ⟨other, among, covers⟩ := good.covered finding member anchored
    exact ⟨other, same.mem_iff.mpr among, covers⟩

end Places

/-- An anchored finding lies in a hunk of its file, and ends inside the file. -/
def Anchored (files : List ChangedFile) (finding : Finding) : Prop :=
  ∀ line, finding.line = some line → ∃ file ∈ files, file.path = finding.path ∧
    ∃ text, file.text = some text ∧ (∃ range ∈ hunks file.patch, range.1 ≤ line ∧ line ≤ range.2) ∧
    ∀ end_, finding.endLine = some end_ → line ≤ end_ ∧ end_ ≤ lastLine text

section Anchors

variable {fingerprint : Text → Text → Option Text → Text → Text} {files : List ChangedFile}

theorem Anchored.upright (anchored : Anchored files finding) : Upright finding := by
  intro line at_
  obtain ⟨file, _, _, text, _, _, ends⟩ := anchored line at_
  cases given : finding.endLine with
  | none => exact Nat.le_refl _
  | some end_ => exact (ends end_ given).1

end Anchors

section Numbers

variable {findings : List Finding}

end Numbers

section Validation

variable (fingerprint : Text → Text → Option Text → Text → Text) (output : ReviewOutput)
  (files : List ChangedFile)
  (rules : List Rule) (resolved : Resolved)

/-- The findings that pass the caps, the filters and the check of their evidence, as they come. -/
def examined : List Finding :=
  ((considered output rules resolved).filterMap (examine fingerprint files)).map (·.1)

/-- A finding about some lines of a file of five. -/
def reported (line end_ : Nat) (severity : Severity) : RawFinding where
  path := ['a']
  line := some line
  endLine := some end_
  severity := severity
  category := ['c']
  ruleId := none
  confidence := 1
  title := []
  body := []
  evidence := ['x']
  suggestion := none

/-- The last finding is more severe than the first, and of the same lines. -/
def raised : ReviewOutput where
  summary := []
  findings := [reported 1 2 .p2, reported 4 5 .p2, reported 1 2 .p0]
  diagram := none

end Validation

end ForgeNode.Review
