import Mathlib.Algebra.Ring.Nat
import Mathlib.Data.Fintype.Basic
import Mathlib.Data.List.Nodup
import Mathlib.Data.List.Sort
import Mathlib.Data.Prod.Lex
import Mathlib.Tactic.FinCases

/-! The definition search: candidate files are scanned the closest first, and it stops where no
later file can add to the answer. -/

namespace ForgeNode.Definitions

open List

inductive Kind where
  | keyword | head | binding | member
  deriving DecidableEq

/-- The place of a kind in their order, the best first. -/
def Kind.ord : Kind → Nat
  | .keyword => 0
  | .head => 1
  | .binding => 2
  | .member => 3

structure Found where
  line : Nat
  column : Nat
  kind : Kind
  topLevel : Bool
  text : String

def Found.tier (found : Found) : Nat :=
  match found.kind with
  | .keyword | .head => 0
  | .binding => if found.topLevel then 0 else 1
  | .member => 1

/-- The declarations of a file, at most one a line. -/
structure Scanned where
  hits : List Found
  once : (hits.map (·.line)).Nodup

def maxFileBytes : Nat := 2 * 1024 * 1024

/-- A file that can be opened: its length as listed, what it hands out, and its scan, none for a
binary file. -/
structure File where
  len : Nat
  bytes : Nat
  scanned : Option Scanned

/-- A candidate and how far it is from the caret's file; `file` is none for one that cannot be
opened. -/
structure Candidate where
  proximity : Fin 4
  path : String
  file : Option File

structure Budget where
  files : Nat
  bytes : Nat

/-- What reading a candidate gives, with the budget behind it and whether the search is partial from
then on. -/
def readCandidate (candidate : Candidate) (budget : Budget) (truncated : Bool) : Option Scanned ×
  Budget × Bool :=
  if budget.files = 0 then (none, budget, truncated)
  else
    match candidate.file with
    | none => (none, budget, truncated)
    | some file =>
      let cap := min maxFileBytes budget.bytes
      if file.len > cap then (none, budget, true)
      else
        let spent := { files := budget.files - 1, bytes := budget.bytes - min file.bytes (cap + 1) }
        if file.bytes > cap then (none, spent, true) else (file.scanned, spent, truncated)

/-- Tier, proximity, kind, file order, line: smaller is better. -/
abbrev Rank : Type := Nat ×ₗ Fin 4 ×ₗ Nat ×ₗ Nat ×ₗ Nat

def rank (tier : Nat) (proximity : Fin 4) (kind : Kind) (order line : Nat) : Rank :=
  toLex (tier, toLex (proximity, toLex (kind.ord, toLex (order, line))))

def tierOf (rank : Rank) : Nat := (ofLex rank).1

structure SearchMatch where
  path : String
  line : Nat
  column : Nat
  text : String
  deriving DecidableEq

abbrev Scored : Type := Rank × SearchMatch

/-- The hits of one file with their ranks. -/
def scoredOf (order : Nat) (candidate : Candidate) (scanned : Scanned) : List Scored :=
  scanned.hits.map fun hit =>
    (rank hit.tier candidate.proximity hit.kind order hit.line,
      { path := candidate.path, line := hit.line, column := hit.column, text := hit.text })

/-- `select_nth_unstable_by` on ranks: what it leaves, with the place it was asked for in the
middle. -/
structure Selection where
  select : List Scored → Nat → List Scored
  split : ∀ scored at_, at_ < scored.length → ∃ front pivot back, select scored at_ = front ++
    pivot :: back ∧ front.length = at_ ∧ (front ++ pivot :: back).Perm scored ∧
    (∀ hit ∈ front, hit.1 ≤ pivot.1) ∧ ∀ hit ∈ back, pivot.1 ≤ hit.1

/-- Tier-0 hits at strictly smaller proximity. -/
def below (strong : Fin 4 → Nat) (proximity : Fin 4) : Nat :=
  (((List.finRange 4).filter (· < proximity)).map strong).sum

def strengthen (strong : Fin 4 → Nat) (proximity : Fin 4) (scanned : Scanned) :
    Fin 4 → Nat := fun at_ =>
  if at_ = proximity then strong at_ + scanned.hits.countP (·.tier = 0) else strong at_

structure State where
  strong : Fin 4 → Nat
  scored : List Scored
  budget : Budget
  truncated : Bool

/-- The loop over the files, the closest first. -/
def scanFiles (limit : Nat) : Nat → List Candidate → State → State
  | _, [], state => state
  | order, candidate :: rest, state =>
    if below state.strong candidate.proximity ≥ limit then { state with truncated := true }
    else
      match readCandidate candidate state.budget state.truncated with
      | (none, budget, truncated) =>
        if budget.files = 0 ∨ budget.bytes = 0 then { state with budget, truncated := true }
        else scanFiles limit (order + 1) rest { state with budget, truncated }
      | (some scanned, budget, truncated) =>
        scanFiles limit (order + 1) rest
          { strong := strengthen state.strong candidate.proximity scanned
            scored := state.scored ++ scoredOf order candidate scanned
            budget, truncated }

def sortByRank (scored : List Scored) : List Scored := scored.mergeSort fun first second =>
    decide (first.1 ≤ second.1)

structure SearchResults where
  matches_ : List SearchMatch
  truncated : Bool

/-- The candidates by proximity, stably. -/
def byProximity (candidates : List Candidate) : List Candidate :=
  candidates.mergeSort fun first second => decide (first.proximity ≤ second.proximity)

/-- The search once the candidate files are listed, `truncated` when their list was cut. -/
def searchWithin (selection : Selection) (candidates : List Candidate) (truncated : Bool)
    (limit : Nat) (budget : Budget) : SearchResults × Nat :=
  let state := scanFiles limit 0 (byProximity candidates)
    { strong := fun _ => 0, scored := [], budget, truncated }
  let scored := if state.scored.length > limit then (selection.select state.scored limit).take limit
    else state.scored
  let scored := sortByRank scored
  let declarations := (scored.takeWhile fun hit => decide (tierOf hit.1 = 0)).length
  ({ matches_ := scored.map (·.2), truncated := state.truncated || decide (state.scored.length > limit) },
    declarations)

section Specification

/-- The declarations a candidate has: none where it cannot be opened, is too large or is binary. -/
def Candidate.declared (candidate : Candidate) : Option Scanned :=
  candidate.file.bind fun file =>
    if file.len > maxFileBytes ∨ file.bytes > maxFileBytes then none else file.scanned

/-- A declaration in a file, with the place of the file among the candidates. -/
structure Hit where
  candidate : Candidate
  order : Nat
  found : Found

/-- Tier, proximity, kind, file order, line: each decides where those in front of it agree. -/
def Hit.Before (first second : Hit) : Prop :=
  first.found.tier < second.found.tier ∨ first.found.tier = second.found.tier ∧
    (first.candidate.proximity < second.candidate.proximity ∨
      first.candidate.proximity = second.candidate.proximity ∧
        (first.found.kind.ord < second.found.kind.ord ∨ first.found.kind.ord = second.found.kind.ord ∧
          (first.order < second.order ∨ first.order = second.order ∧ first.found.line <
            second.found.line)))

def Hit.shown (hit : Hit) : SearchMatch :=
  { path := hit.candidate.path, line := hit.found.line, column := hit.found.column, text := hit.found.text }

def hitsAt (file : Candidate × Nat) : List Hit :=
  match file.1.declared with
  | none => []
  | some scanned => scanned.hits.map fun found => ⟨file.1, file.2, found⟩

/-- All hits of all files, in whatever order the files are listed. -/
def hitsOf (candidates : List Candidate) : List Hit := candidates.zipIdx.flatMap hitsAt

/-- The ranked hits, in the order of the files. -/
def hitsFrom : Nat → List Candidate → List Scored
  | _, [] => []
  | order, candidate :: rest =>
    (match candidate.declared with
      | none => []
      | some scanned => scoredOf order candidate scanned) ++ hitsFrom (order + 1) rest

/-- The budget refuses no file that the search comes to, and never runs out before one. -/
def Enough (limit : Nat) : (Fin 4 → Nat) → Budget → List Candidate → Prop
  | _, _, [] => True
  | strong, budget, candidate :: rest =>
    below strong candidate.proximity ≥ limit ∨
      budget.files ≠ 0 ∧ budget.bytes ≠ 0 ∧
        (∀ file, candidate.file = some file → file.len ≤ maxFileBytes →
          file.len ≤ budget.bytes ∧ (file.bytes ≤ maxFileBytes → file.bytes ≤ budget.bytes)) ∧
        Enough limit
          (match candidate.declared with
            | none => strong
            | some scanned => strengthen strong candidate.proximity scanned)
          (readCandidate candidate budget false).2.1 rest

end Specification

section Selecting

theorem sortByRank_perm (scored : List Scored) :
    (sortByRank scored).Perm scored := mergeSort_perm _ _

theorem sortByRank_sorted (scored : List Scored) :
    (sortByRank scored).Pairwise fun first second => first.1 ≤ second.1 := by
  have transitive : ∀ a b c : Scored, decide (a.1 ≤ b.1) = true → decide (b.1 ≤ c.1) = true →
      decide (a.1 ≤ c.1) = true := fun a b c ab bc =>
    decide_eq_true ((of_decide_eq_true ab).trans (of_decide_eq_true bc))
  have total : ∀ a b : Scored, (decide (a.1 ≤ b.1) || decide (b.1 ≤ a.1)) = true := fun a b => by
    simpa using le_total a.1 b.1
  exact (pairwise_mergeSort transitive total scored).imp of_decide_eq_true

theorem eq_of_sorted {first second : List Scored} (same : first.Perm second)
    (once : (second.map (·.1)).Nodup) (sorted : first.Pairwise fun a b => a.1 ≤ b.1)
    (sorted' : second.Pairwise fun a b => a.1 ≤ b.1) :
    first = second := by
  refine same.eq_of_pairwise (fun a b inFirst inSecond ab ba => ?_) sorted sorted'
  exact inj_on_of_nodup_map once (same.mem_iff.mp inFirst) inSecond (le_antisymm ab ba)

/-- Where the hits fall into better and worse ones, the first ones are those of the better part. -/
theorem take_sortByRank {all front back : List Scored} (once : (all.map (·.1)).Nodup)
    (parts : (front ++ back).Perm all) (order : ∀ better ∈ front, ∀ worse ∈ back,
      better.1 ≤ worse.1) :
    (sortByRank all).take front.length = sortByRank front := by
  have joined : sortByRank front ++ sortByRank back = sortByRank all := by
    refine eq_of_sorted ?_ ?_ ?_ (sortByRank_sorted all)
    · exact (((sortByRank_perm front).append (sortByRank_perm back)).trans parts).trans
        (sortByRank_perm all).symm
    · exact ((sortByRank_perm all).map _).nodup_iff.mpr once
    · refine pairwise_append.mpr ⟨sortByRank_sorted front, sortByRank_sorted back, ?_⟩
      intro better inFront worse inBack
      exact order better ((sortByRank_perm front).mem_iff.mp inFront) worse
        ((sortByRank_perm back).mem_iff.mp inBack)
  have size : (sortByRank front).length = front.length := (sortByRank_perm front).length_eq
  rw [← joined, ← size, take_left]

/-- In rank order, enough better hits make the first ones better. -/
theorem take_lt {sorted : List Scored} (order : sorted.Pairwise fun a b => a.1 ≤ b.1) {worse : Rank}
    {limit : Nat} (enough : limit ≤ sorted.countP (·.1 < worse)) :
    ∀ hit ∈ sorted.take limit, hit.1 < worse := by
  induction sorted generalizing limit with
  | nil =>
    intro hit member
    rw [take_nil] at member
    cases member
  | cons first rest ih =>
    obtain ⟨least, order⟩ := pairwise_cons.mp order
    cases limit with
    | zero => exact nofun
    | succ limit =>
      by_cases better : first.1 < worse
      · rw [countP_cons_of_pos (by simpa using better)] at enough
        rw [take_succ_cons]
        exact forall_mem_cons.mpr ⟨better, ih order (Nat.le_of_succ_le_succ enough)⟩
      · have none_ : (first :: rest).countP (·.1 < worse) = 0 := by
          refine countP_eq_zero.mpr fun hit member => ?_
          rcases mem_cons.mp member with rfl | later
          · simpa using better
          · have above := least hit later
            simpa using (not_lt.mp better).trans above
        omega

/-- Hits that are worse than enough others do not show among the first ones. -/
theorem take_sortByRank_append {read unread : List Scored}
    (once : ((read ++ unread).map (·.1)).Nodup) {limit : Nat}
    (enough : ∀ worse ∈ unread, limit ≤ read.countP (·.1 < worse.1)) (long : limit ≤ read.length) :
    (sortByRank (read ++ unread)).take limit = (sortByRank read).take limit := by
  have size : ((sortByRank read).take limit).length = limit := by
    rw [length_take, (sortByRank_perm read).length_eq]
    omega
  have order := sortByRank_sorted read
  have cut := take_append_drop limit (sortByRank read)
  have parts : ((sortByRank read).take limit ++ ((sortByRank read).drop limit ++ unread)).Perm
      (read ++ unread) := by
    rw [← append_assoc, cut]
    exact (sortByRank_perm read).append_right unread
  have first := take_sortByRank once parts ?_
  · rw [size] at first
    rw [first]
    refine eq_of_sorted (sortByRank_perm _) ?_ (sortByRank_sorted _)
      (order.sublist (take_sublist _ _))
    have onceRead : (read.map (·.1)).Nodup := by
      rw [map_append] at once
      exact once.of_append_left
    exact (((sortByRank_perm read).map _).nodup_iff.mpr onceRead).sublist ((take_sublist _ _).map _)
  · intro better inFront worse inBack
    rcases mem_append.mp inBack with later | new
    · rw [← cut] at order
      exact (pairwise_append.mp order).2.2 better inFront worse later
    · refine (take_lt order ?_ better inFront).le
      rw [(sortByRank_perm read).countP_eq]
      exact enough worse new

end Selecting

section Ranks

def proximityOf (rank : Rank) : Fin 4 := (ofLex (ofLex rank).2).1

def orderOf (rank : Rank) : Nat := (ofLex (ofLex (ofLex (ofLex rank).2).2).2).1

@[simp] theorem tierOf_rank (tier : Nat) (proximity : Fin 4) (kind : Kind) (order line : Nat) :
    tierOf (rank tier proximity kind order line) = tier := rfl

@[simp] theorem proximityOf_rank (tier : Nat) (proximity : Fin 4) (kind : Kind) (order line : Nat) :
    proximityOf (rank tier proximity kind order line) = proximity := rfl

@[simp] theorem orderOf_rank (tier : Nat) (proximity : Fin 4) (kind : Kind) (order line : Nat) :
    orderOf (rank tier proximity kind order line) = order := rfl

theorem tierOf_le {first second : Rank} (order : first ≤ second) :
    tierOf first ≤ tierOf second := by
  rcases Prod.Lex.le_iff.mp order with better | ⟨same, -⟩
  · exact better.le
  · exact same.le

theorem lt_of_closer {first second : Rank} (strong : tierOf first = 0)
    (closer : proximityOf first < proximityOf second) :
    first < second := by
  rcases Nat.eq_zero_or_pos (tierOf second) with same | worse
  · exact Prod.Lex.lt_iff.mpr (.inr ⟨strong.trans same.symm, Prod.Lex.lt_iff.mpr (.inl closer)⟩)
  · exact Prod.Lex.lt_iff.mpr (.inl (Nat.lt_of_le_of_lt (Nat.le_of_eq strong) worse))

theorem line_of_rank {tier tier' : Nat} {proximity proximity' : Fin 4} {kind kind' : Kind}
    {order order' line line' : Nat}
    (same : rank tier proximity kind order line = rank tier' proximity' kind' order' line') :
    line = line' := by
  have last := congrArg (fun rank : Rank => (ofLex (ofLex (ofLex (ofLex rank).2).2).2).2) same
  exact last

/-- How many declarations there are at each proximity. -/
def countStrong (scored : List Scored) (proximity : Fin 4) : Nat :=
  scored.countP fun hit => decide (tierOf hit.1 = 0 ∧ proximityOf hit.1 = proximity)

theorem below_eq (strong : Fin 4 → Nat) (proximity : Fin 4) :
    below strong proximity =
      (if 0 < proximity then strong 0 else 0) + (if 1 < proximity then strong 1 else 0) +
        (if 2 < proximity then strong 2 else 0) := by
  fin_cases proximity <;> simp [below, List.finRange, List.ofFn, Fin.foldr, Fin.foldr.loop,
  Nat.add_assoc]

theorem below_countStrong (scored : List Scored) (proximity : Fin 4) :
    below (countStrong scored) proximity =
      scored.countP fun hit => decide (tierOf hit.1 = 0 ∧ proximityOf hit.1 < proximity) := by
  induction scored with
  | nil => simp [below_eq, countStrong]
  | cons hit scored ih =>
    rw [countP_cons, ← ih, below_eq, below_eq]
    simp only [countStrong, countP_cons, decide_eq_true_eq]
    generalize proximityOf hit.1 = here
    by_cases strong : tierOf hit.1 = 0
    · fin_cases here <;> fin_cases proximity <;> simp [strong] <;> omega
    · simp [strong]

theorem countStrong_append (scored : List Scored) (order : Nat) (candidate : Candidate)
    (scanned : Scanned) : countStrong (scored ++ scoredOf order candidate scanned) =
      strengthen (countStrong scored) candidate.proximity scanned := by
  funext proximity
  rw [countStrong, countP_append, scoredOf, countP_map, strengthen, ← countStrong]
  split
  case isTrue same =>
    subst same
    congr 1
    refine countP_congr fun hit _ => ?_
    simp only [Function.comp_apply, tierOf_rank, proximityOf_rank, and_true]
  case isFalse other =>
    have none_ : ∀ hit ∈ scanned.hits, ¬ candidate.proximity = proximity := fun _ _ same =>
      other same.symm
    rw [Nat.add_eq_left, countP_eq_zero]
    intro hit member
    simp [none_ hit member]

end Ranks

section Loop

variable {limit order : Nat} {candidate : Candidate} {rest : List Candidate}

theorem mem_scoredOf {hit : Scored} {scanned : Scanned}
    (member : hit ∈ scoredOf order candidate scanned) :
    orderOf hit.1 = order ∧ proximityOf hit.1 = candidate.proximity := by
  obtain ⟨found, -, rfl⟩ := List.mem_map.mp member
  exact ⟨rfl, rfl⟩

theorem mem_hitsFrom {hit : Scored} (member : hit ∈ hitsFrom order rest) :
    order ≤ orderOf hit.1 ∧ ∃ candidate ∈ rest, proximityOf hit.1 = candidate.proximity := by
  induction rest generalizing order with
  | nil => cases member
  | cons candidate rest ih =>
    rcases mem_append.mp member with here | later
    · split at here
      case h_1 => cases here
      case h_2 scanned _ =>
        obtain ⟨at_, close⟩ := mem_scoredOf here
        exact ⟨Nat.le_of_eq at_.symm, candidate, mem_cons_self, close⟩
    · obtain ⟨behind, other, inside, close⟩ := ih later
      exact ⟨Nat.le_of_succ_le behind, other, mem_cons_of_mem _ inside, close⟩

theorem scoredOf_once (order : Nat) (candidate : Candidate) (scanned : Scanned) :
    ((scoredOf order candidate scanned).map (·.1)).Nodup := by
  rw [scoredOf, map_map]
  have lines := pairwise_map.mp scanned.once
  exact pairwise_map.mpr (lines.imp fun other same => other (line_of_rank same))

/-- All hits have ranks of their own. -/
theorem hitsFrom_once (order : Nat) (rest : List Candidate) :
    ((hitsFrom order rest).map (·.1)).Nodup := by
  induction rest generalizing order with
  | nil => exact nodup_nil
  | cons candidate rest ih =>
    rw [hitsFrom, map_append]
    split
    case h_1 => exact ih (order + 1)
    case h_2 scanned _ =>
      refine List.Nodup.append (scoredOf_once order candidate scanned) (ih (order + 1)) ?_
      intro rank here later
      obtain ⟨first, inFirst, rfl⟩ := List.mem_map.mp here
      obtain ⟨second, inSecond, same⟩ := List.mem_map.mp later
      have behind := (mem_hitsFrom inSecond).1
      rw [same, (mem_scoredOf inFirst).1] at behind
      exact Nat.not_succ_le_self _ behind

/-- A budget that refuses no file leaves the reading to the file. -/
theorem readCandidate_declared {budget : Budget} (files : budget.files ≠ 0)
    (fits : ∀ file, candidate.file = some file → file.len ≤ maxFileBytes →
      file.len ≤ budget.bytes ∧ (file.bytes ≤ maxFileBytes → file.bytes ≤ budget.bytes))
      (truncated : Bool) :
    ∃ truncated', readCandidate candidate budget truncated =
      (candidate.declared, (readCandidate candidate budget false).2.1, truncated') := by
  rw [readCandidate, readCandidate, if_neg files, if_neg files, Candidate.declared]
  cases there : candidate.file with
  | none => exact ⟨_, rfl⟩
  | some file =>
    dsimp only [Option.bind_some]
    have fit := fits file there
    generalize maxFileBytes = most at fit ⊢
    by_cases listed : file.len > most
    · have over_ : file.len > min most budget.bytes := by omega
      rw [if_pos over_, if_pos over_, if_pos (.inl listed)]
      exact ⟨_, rfl⟩
    · have under : ¬ file.len > min most budget.bytes := by
        have room := (fit (Nat.le_of_not_lt listed)).1
        omega
      rw [if_neg under, if_neg under]
      by_cases read : file.bytes > most
      · have more : file.bytes > min most budget.bytes := by omega
        rw [if_pos more, if_pos more, if_pos (.inr read)]
        exact ⟨_, rfl⟩
      · have less : ¬ file.bytes > min most budget.bytes := by
          have room := (fit (Nat.le_of_not_lt listed)).2 (Nat.le_of_not_lt read)
          omega
        rw [if_neg less, if_neg less, if_neg (not_or.mpr ⟨listed, read⟩)]
        exact ⟨_, rfl⟩

/-- Behind enough declarations that are closer, no hit is among the first. -/
theorem pruned_enough {scored : List Scored}
    (far : below (countStrong scored) candidate.proximity ≥ limit)
    (closest : ∀ other ∈ rest, candidate.proximity ≤ other.proximity) :
    ∀ worse ∈ hitsFrom order (candidate :: rest), limit ≤ scored.countP (·.1 < worse.1) := by
  intro worse member
  obtain ⟨-, other, inside, close⟩ := mem_hitsFrom member
  have farther : candidate.proximity ≤ proximityOf worse.1 := by
    rw [close]
    rcases mem_cons.mp inside with rfl | later
    · exact le_rfl
    · exact closest other later
  rw [below_countStrong] at far
  refine far.le.trans (countP_mono_left fun hit _ better => ?_)
  obtain ⟨strong, closer⟩ := of_decide_eq_true better
  exact decide_eq_true (lt_of_closer strong (closer.trans_le farther))

/-- What the loop has left out is behind enough that it has found. -/
theorem scanFiles_spec (order : Nat) (state : State)
    (strong : state.strong = countStrong state.scored) (sorted : rest.Pairwise fun first second =>
      first.proximity ≤ second.proximity)
    (enough : Enough limit state.strong state.budget rest) :
    ∃ read unread, hitsFrom order rest = read ++ unread ∧
      (scanFiles limit order rest state).scored = state.scored ++ read ∧
      (unread ≠ [] → (scanFiles limit order rest state).truncated = true ∧
        ∀ worse ∈ unread, limit ≤ (state.scored ++ read).countP (·.1 < worse.1)) := by
  induction rest generalizing order state with
  | nil => exact ⟨[], [], rfl, (append_nil _).symm, fun some_ => absurd rfl some_⟩
  | cons candidate rest ih =>
    obtain ⟨closest, sorted⟩ := pairwise_cons.mp sorted
    rw [scanFiles]
    split
    case isTrue far =>
      rw [strong] at far
      refine ⟨[], _, rfl, (append_nil _).symm, fun _ => ⟨rfl, ?_⟩⟩
      rw [append_nil]
      exact pruned_enough far closest
    case isFalse near =>
      obtain ⟨files, bytes, fits, later⟩ := enough.resolve_left near
      obtain ⟨truncated', reading⟩ := readCandidate_declared files fits state.truncated
      rw [reading, hitsFrom]
      generalize (readCandidate candidate state.budget false).2.1 = left at later
      cases there : candidate.declared with
      | some scanned =>
        rw [there] at later
        dsimp only at later ⊢
        have grown : strengthen state.strong candidate.proximity scanned =
            countStrong (state.scored ++ scoredOf order candidate scanned) := by
          rw [countStrong_append, strong]
        have going := ih (order + 1) ⟨strengthen state.strong candidate.proximity scanned,
          state.scored ++ scoredOf order candidate scanned, left, truncated'⟩ grown sorted later
        obtain ⟨read, unread, split, scored, behind⟩ := going
        refine ⟨scoredOf order candidate scanned ++ read, unread, ?_, ?_, fun some_ => ?_⟩
        · rw [split, append_assoc]
        · rw [scored, append_assoc]
        · rw [← append_assoc]
          exact behind some_
      | none =>
        rw [there] at later
        dsimp only at later ⊢
        split
        case isTrue spent =>
          cases rest with
          | nil => exact ⟨[], [], rfl, (append_nil _).symm, fun some_ => absurd rfl some_⟩
          | cons next rest =>
            have far : below state.strong next.proximity ≥ limit := by
              rcases later with far | ⟨files, bytes, -⟩
              · exact far
              · exact absurd spent (not_or.mpr ⟨files, bytes⟩)
            rw [strong] at far
            refine ⟨[], _, rfl, (append_nil _).symm, fun _ => ⟨rfl, ?_⟩⟩
            rw [append_nil]
            exact pruned_enough far (pairwise_cons.mp sorted).1
        case isFalse =>
          exact ih (order + 1) ⟨state.strong, state.scored, left, truncated'⟩ strong sorted later

end Loop

section Result

theorem sortByRank_select (selection : Selection) {scored : List Scored}
    (once : (scored.map (·.1)).Nodup) {limit : Nat} (more : scored.length > limit) :
    sortByRank ((selection.select scored limit).take limit) = (sortByRank scored).take limit := by
  obtain ⟨front, pivot, back, same, size, parts, least, most⟩ := selection.split scored limit more
  have kept : (selection.select scored limit).take limit = front := by
    rw [same, ← size, take_left]
  rw [kept, ← size]
  refine (take_sortByRank once parts fun better inFront worse inBack => ?_).symm
  rcases mem_cons.mp inBack with rfl | later
  · exact least better inFront
  · exact (least better inFront).trans (most worse later)

theorem takeWhile_declarations {sorted : List Scored} (order : sorted.Pairwise fun a b =>
      a.1 ≤ b.1) :
    (sorted.takeWhile fun hit => decide (tierOf hit.1 = 0)).length = sorted.countP fun hit =>
    tierOf hit.1 = 0 := by
  induction sorted with
  | nil => rfl
  | cons first rest ih =>
    obtain ⟨least, order⟩ := pairwise_cons.mp order
    by_cases strong : tierOf first.1 = 0
    · rw [takeWhile_cons_of_pos (by simpa using strong), countP_cons_of_pos (by simpa using strong),
        length_cons, ih order]
    · rw [takeWhile_cons_of_neg (by simpa using strong), eq_comm, length_nil, countP_eq_zero]
      intro hit member
      rcases mem_cons.mp member with rfl | later
      · simpa using strong
      · have above := tierOf_le (least hit later)
        rw [decide_eq_true_iff]
        omega

theorem closer_trans (a b c : Candidate) (ab : decide (a.proximity ≤ b.proximity) = true)
    (bc : decide (b.proximity ≤ c.proximity) = true) : decide (a.proximity ≤ c.proximity) = true :=
  decide_eq_true ((of_decide_eq_true ab).trans (of_decide_eq_true bc))

theorem closer_total (a b : Candidate) :
    (decide (a.proximity ≤ b.proximity) || decide (b.proximity ≤ a.proximity)) = true := by
  simpa using le_total a.proximity b.proximity

theorem byProximity_sorted (candidates : List Candidate) :
    (byProximity candidates).Pairwise fun first second => first.proximity ≤ second.proximity :=
  (pairwise_mergeSort closer_trans closer_total candidates).imp of_decide_eq_true

/-- The search gives the hits of the best ranks, and says so when it leaves one out. -/
theorem searchWithin_ranked (selection : Selection) (candidates : List Candidate) (truncated : Bool)
    {limit : Nat} {budget : Budget}
    (enough : Enough limit (fun _ => 0) budget (byProximity candidates)) :
    (searchWithin selection candidates truncated limit budget).1.matches_ =
        ((sortByRank (hitsFrom 0 (byProximity candidates))).take limit).map (·.2) ∧
      (searchWithin selection candidates truncated limit budget).2 =
        ((sortByRank (hitsFrom 0 (byProximity candidates))).take limit).countP
        (fun hit => tierOf hit.1 = 0) ∧
      (limit < (hitsFrom 0 (byProximity candidates)).length →
        (searchWithin selection candidates truncated limit budget).1.truncated = true) := by
  have once := hitsFrom_once 0 (byProximity candidates)
  have loop := scanFiles_spec 0 ⟨fun _ => 0, [], budget, truncated⟩ rfl
    (byProximity_sorted candidates) enough
  generalize hitsFrom 0 (byProximity candidates) = all at once loop ⊢
  obtain ⟨read, unread, rfl, scored, behind⟩ := loop
  rw [nil_append] at scored behind
  have onceRead : (read.map (·.1)).Nodup := by
    rw [map_append] at once
    exact once.of_append_left
  have kept : sortByRank (if read.length > limit then (selection.select read limit).take
      limit else read) = (sortByRank (read ++ unread)).take limit := by
    have firsts : (sortByRank (read ++ unread)).take limit = (sortByRank read).take limit := by
      cases unread with
      | nil => rw [append_nil]
      | cons worse unread =>
        have better := (behind (cons_ne_nil _ _)).2
        exact take_sortByRank_append once better ((better worse mem_cons_self).trans countP_le_length)
    rw [firsts]
    split
    case isTrue more => exact sortByRank_select selection onceRead more
    case isFalse few =>
      rw [take_of_length_le]
      rw [(sortByRank_perm read).length_eq]
      exact Nat.le_of_not_lt few
  simp only [searchWithin, scored, kept]
  refine ⟨trivial, takeWhile_declarations ((sortByRank_sorted _).sublist (take_sublist _ _)),
    fun left => ?_⟩
  rw [Bool.or_eq_true, decide_eq_true_iff]
  cases unread with
  | nil =>
    rw [append_nil] at left
    exact .inr left
  | cons worse unread => exact .inl (behind (cons_ne_nil _ _)).1

/-- Each ranked hit with the declaration that it shows. -/
def paired : Nat → List (Candidate × Nat) → List (Scored × Hit)
  | _, [] => []
  | at_, file :: rest =>
    ((hitsAt file).map fun hit =>
      ((rank hit.found.tier file.1.proximity hit.found.kind at_ hit.found.line, hit.shown), hit)) ++
        paired (at_ + 1) rest

theorem paired_fst (at_ : Nat) (files : List (Candidate × Nat)) :
    (paired at_ files).map (·.1) = hitsFrom at_ (files.map (·.1)) := by
  induction files generalizing at_ with
  | nil => rfl
  | cons file rest ih =>
    rw [paired, map_append, ih, map_cons, hitsFrom, map_map, hitsAt]
    congr 1
    split
    · rfl
    · rw [map_map]
      rfl

theorem paired_snd (at_ : Nat) (files : List (Candidate × Nat)) :
    (paired at_ files).map (·.2) = files.flatMap hitsAt := by
  induction files generalizing at_ with
  | nil => rfl
  | cons file rest ih =>
    rw [paired, map_append, ih, map_map, flatMap_cons]
    congr 1
    exact map_id _

theorem mem_hitsAt {file : Candidate × Nat} {hit : Hit} (member : hit ∈ hitsAt file) :
    hit.candidate = file.1 ∧ hit.order = file.2 := by
  unfold hitsAt at member
  split at member
  · cases member
  · obtain ⟨found, _, rfl⟩ := List.mem_map.mp member
    exact ⟨rfl, rfl⟩

theorem mem_paired {at_ : Nat} {files : List (Candidate × Nat)} {pair : Scored × Hit}
    (member : pair ∈ paired at_ files) :
    ∃ index file, files[index]? = some file ∧ pair.2 ∈ hitsAt file ∧ pair.1 =
      (rank pair.2.found.tier pair.2.candidate.proximity pair.2.found.kind (at_ + index)
      pair.2.found.line, pair.2.shown) := by
  induction files generalizing at_ with
  | nil => cases member
  | cons file rest ih =>
    rcases mem_append.mp member with here | later
    · obtain ⟨hit, inside, rfl⟩ := List.mem_map.mp here
      exact ⟨0, file, rfl, inside, by rw [(mem_hitsAt inside).1]; rfl⟩
    · obtain ⟨index, file', there, inside, same⟩ := ih later
      exact ⟨index + 1, file', there, inside, by rw [same, Nat.add_assoc, Nat.add_comm 1]⟩

/-- The files, each with its place among the candidates, as the search comes to them. -/
def ordered (candidates : List Candidate) : List (Candidate × Nat) :=
  candidates.zipIdx.mergeSort (List.zipIdxLE fun first second =>
    decide (first.proximity ≤ second.proximity))

theorem ordered_fst (candidates : List Candidate) :
    (ordered candidates).map (·.1) = byProximity candidates :=
  mergeSort_zipIdx

theorem ordered_perm (candidates : List Candidate) : (ordered candidates).Perm candidates.zipIdx :=
  mergeSort_perm _ _

/-- The closer file is first, and of two as close the one listed first. -/
theorem ordered_sorted (candidates : List Candidate) :
    (ordered candidates).Pairwise fun first second => first.1.proximity < second.1.proximity ∨
    first.1.proximity = second.1.proximity ∧ first.2 < second.2 := by
  have sorted := pairwise_mergeSort (zipIdxLE_trans closer_trans) (zipIdxLE_total closer_total)
    candidates.zipIdx
  have apart : (ordered candidates).Pairwise fun first second => first.2 ≠ second.2 := by
    refine pairwise_map.mp (((ordered_perm candidates).map Prod.snd).nodup_iff.mpr ?_)
    rw [zipIdx_map_snd]
    exact nodup_range'
  refine (sorted.and apart).imp fun {first second} both => ?_
  obtain ⟨order, other⟩ := both
  simp only [List.zipIdxLE, decide_eq_true_eq] at order
  split at order
  · rename_i close
    split at order
    · rename_i same
      exact .inr ⟨le_antisymm close same, lt_of_le_of_ne (of_decide_eq_true order) other⟩
    · rename_i farther
      exact .inl (lt_of_not_ge farther)
  · cases order

theorem before_of_rank {candidates : List Candidate} {first second : Scored × Hit}
    (one : first ∈ paired 0 (ordered candidates)) (other : second ∈ paired 0 (ordered candidates))
    (better : first.1.1 < second.1.1) : first.2.Before second.2 := by
  obtain ⟨index, file, there, inside, same⟩ := mem_paired one
  obtain ⟨index', file', there', inside', same'⟩ := mem_paired other
  obtain ⟨candidate, order⟩ := mem_hitsAt inside
  obtain ⟨candidate', order'⟩ := mem_hitsAt inside'
  rw [same, same'] at better
  refine (Prod.Lex.lt_iff.mp better).imp id fun ⟨tier, better⟩ => ⟨tier, ?_⟩
  refine (Prod.Lex.lt_iff.mp better).imp id fun ⟨close, better⟩ => ⟨close, ?_⟩
  refine (Prod.Lex.lt_iff.mp better).imp id fun ⟨kind, better⟩ => ⟨kind, ?_⟩
  rcases Prod.Lex.lt_iff.mp better with earlier | ⟨place, line⟩
  · replace earlier : index < index' := Nat.lt_of_add_lt_add_left
      (show 0 + index < 0 + index' from earlier)
    obtain ⟨inside_, rfl⟩ := List.getElem?_eq_some_iff.mp there
    obtain ⟨inside'_, rfl⟩ := List.getElem?_eq_some_iff.mp there'
    have sorted := pairwise_iff_getElem.mp (ordered_sorted candidates) _ _ inside_ inside'_ earlier
    rw [← candidate, ← candidate', ← order, ← order'] at sorted
    refine .inl (sorted.resolve_left ?_).2
    exact fun closer => absurd closer (show ¬ first.2.candidate.proximity <
      second.2.candidate.proximity from close.not_lt)
  · replace place : index = index' := Nat.add_left_cancel (show 0 + index = 0 + index' from place)
    subst place
    rw [there] at there'
    cases there'
    exact .inr ⟨order.trans order'.symm, line⟩

/-- The search gives the first of all hits of all files in their order, and says so when it leaves
one out. -/
theorem searchWithin_firsts (selection : Selection) (candidates : List Candidate) (truncated : Bool)
    {limit : Nat} {budget : Budget}
    (enough : Enough limit (fun _ => 0) budget (byProximity candidates)) :
    ∃ sorted : List Hit, sorted.Perm (hitsOf candidates) ∧ sorted.Pairwise Hit.Before ∧
      (searchWithin selection candidates truncated limit budget).1.matches_ =
        (sorted.take limit).map Hit.shown ∧
      (searchWithin selection candidates truncated limit budget).2 =
        (sorted.take limit).countP (·.found.tier = 0) ∧
      (limit < (hitsOf candidates).length →
        (searchWithin selection candidates truncated limit budget).1.truncated = true) := by
  obtain ⟨matches_, declarations, left⟩ := searchWithin_ranked selection candidates truncated enough
  have once := hitsFrom_once 0 (byProximity candidates)
  rw [← ordered_fst, ← paired_fst] at matches_ declarations left once
  have ranked : ((paired 0 (ordered candidates)).mergeSort fun one other =>
      decide (one.1.1 ≤ other.1.1)).map (·.1) = sortByRank ((paired 0 (ordered candidates)).map
        (·.1)) := map_mergeSort fun _ _ _ _ => rfl
  have perm := mergeSort_perm (paired 0 (ordered candidates)) fun one other =>
    decide (one.1.1 ≤ other.1.1)
  generalize (paired 0 (ordered candidates)).mergeSort (fun one other =>
    decide (one.1.1 ≤ other.1.1)) = pairs
    at ranked perm
  have all : ((paired 0 (ordered candidates)).map (·.2)).Perm (hitsOf candidates) := by
    rw [paired_snd]
    exact (ordered_perm candidates).flatMap_right hitsAt
  have shows : ∀ pair ∈ pairs, tierOf pair.1.1 = pair.2.found.tier ∧ pair.1.2 = pair.2.shown := by
    intro pair member
    obtain ⟨_, _, _, _, same⟩ := mem_paired (perm.mem_iff.mp member)
    rw [same]
    exact ⟨rfl, rfl⟩
  rw [← ranked, ← map_take] at matches_ declarations
  refine ⟨pairs.map (·.2), (perm.map _).trans all, ?_, ?_, ?_, fun more => left ?_⟩
  · have sorted := sortByRank_sorted ((paired 0 (ordered candidates)).map (·.1))
    rw [← ranked] at sorted
    have ranks := ((perm.map (·.1)).map (·.1)).nodup_iff.mpr once
    rw [map_map] at ranks
    have strict := (pairwise_map.mp sorted).and (pairwise_map.mp ranks)
    refine pairwise_map.mpr (strict.imp_of_mem fun {one other} inOne inOther both => ?_)
    exact before_of_rank (perm.mem_iff.mp inOne) (perm.mem_iff.mp inOther)
      (lt_of_le_of_ne both.1 both.2)
  · rw [matches_, ← map_take, map_map, map_map]
    exact map_congr_left fun pair member => (shows pair (mem_of_mem_take member)).2
  · rw [declarations, ← map_take, countP_map, countP_map]
    refine countP_congr fun pair member => ?_
    simp only [Function.comp_apply, (shows pair (mem_of_mem_take member)).1]
  · have size := all.length_eq
    rw [length_map] at size ⊢
    exact size ▸ more

/-- The selection that sorts everything. -/
def Selection.sorting : Selection where
  select scored _ := sortByRank scored
  split scored at_ inside := by
    have size := (sortByRank_perm scored).length_eq
    have here : at_ < (sortByRank scored).length := size ▸ inside
    have whole : (sortByRank scored).take at_ ++ (sortByRank scored)[at_] ::
        (sortByRank scored).drop (at_ + 1) =
        sortByRank scored := by
      rw [← drop_eq_getElem_cons here, take_append_drop]
    have sorted := sortByRank_sorted scored
    rw [← whole, pairwise_append, pairwise_cons] at sorted
    refine ⟨_, _, _, whole.symm, length_take_of_le (Nat.le_of_lt here), ?_, ?_, sorted.2.1.1⟩
    · rw [whole]
      exact sortByRank_perm scored
    · exact fun hit member => sorted.2.2 hit member _ mem_cons_self

/-- A file of one declaration on the first line. -/
def oneLine (kind : Kind) : File :=
  { len := 9, bytes := 9
    scanned := some
      { hits := [{ line := 1, column := 4, kind, topLevel := false, text := "fn f() {}" }], once := by simp } }

def twoFiles : List Candidate :=
  [⟨0, "a.rs", some (oneLine .head)⟩, ⟨2, "b.rs", some (oneLine .keyword)⟩]

/-- Two files, the farther one not read. -/
theorem searchWithin_firsts_two : ∃ sorted : List Hit, sorted.Perm (hitsOf twoFiles) ∧
    sorted.Pairwise Hit.Before ∧ (searchWithin .sorting twoFiles false 1 ⟨512, 100⟩).1.matches_ =
      (sorted.take 1).map Hit.shown ∧
    (searchWithin .sorting twoFiles false 1 ⟨512, 100⟩).2 =
      (sorted.take 1).countP (·.found.tier = 0) ∧
    (1 < (hitsOf twoFiles).length → (searchWithin .sorting twoFiles false 1 ⟨512,
      100⟩).1.truncated = true) := by
  refine searchWithin_firsts _ _ _ ?_
  have sorted : byProximity twoFiles = twoFiles := mergeSort_of_pairwise (by simp [twoFiles])
  rw [sorted]
  refine .inr ⟨by decide, by decide, ?_, .inl (by decide)⟩
  rintro file same -
  cases same
  exact ⟨by decide, fun _ => by decide⟩

end Result

end ForgeNode.Definitions
