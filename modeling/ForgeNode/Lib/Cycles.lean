import Mathlib.Logic.Relation
import Mathlib.Data.List.Basic
import Mathlib.Data.List.Nodup
import Mathlib.Data.List.Perm.Subperm

/-! Directed cycles, and what is known of them while a graph is explored depth first. -/

namespace ForgeNode.Cycles

open List Relation

universe u
variable {ι : Type u} {edge other : ι → ι → Prop}

def Acyclic (edge : ι → ι → Prop) : Prop := ∀ node, ¬ TransGen edge node node

theorem Acyclic.mono (acyclic : Acyclic edge) (fewer : ∀ source target, other source target →
      edge source target) : Acyclic other :=
  fun node cycle => acyclic node (TransGen.mono fewer node node cycle)

/-- What only goes out of a node that nothing leads to closes no cycle. -/
theorem Acyclic.grow {fresh : ι} (acyclic : Acyclic edge)
    (grown : ∀ source target, other source target → edge source target ∨ source = fresh)
    (unreached : ∀ source, ¬ other source fresh) : Acyclic other := by
  have stays {source target : ι} (path : TransGen other source target) (old : source ≠ fresh) :
      TransGen edge source target := by
    induction path with
    | single step => exact .single ((grown _ _ step).resolve_right old)
    | @tail middle _ path step ih =>
      have later : middle ≠ fresh := by
        rintro rfl
        obtain ⟨last, _, into⟩ := TransGen.tail'_iff.mp path
        exact unreached last into
      exact ih.tail ((grown _ _ step).resolve_right later)
  intro node cycle
  refine acyclic node (stays cycle ?_)
  rintro rfl
  obtain ⟨last, _, into⟩ := TransGen.tail'_iff.mp cycle
  exact unreached last into

/-- A half-explored graph: the nodes seen, and of them those on the way down to where the search
stands. -/
structure Explored (edge : ι → ι → Prop) (seen stack : List ι) : Prop where
  path : stack.IsChain fun below above => edge above below
  nodup : stack.Nodup
  within : ∀ node ∈ stack, node ∈ seen
  closed : ∀ source ∈ seen, source ∉ stack → ∀ target, edge source target → target ∈ seen ∧
    target ∉ stack
  acyclic : ∀ node ∈ seen, node ∉ stack → ¬ TransGen edge node node

variable {seen stack : List ι} {node : ι}

/-- The search may go to a node from the top of its stack. -/
def Below (edge : ι → ι → Prop) (stack : List ι) (node : ι) : Prop :=
  ∀ top, stack.head? = some top → edge top node

theorem Explored.nil : Explored edge [] [] :=
  ⟨.nil, nodup_nil, fun _ never => absurd never not_mem_nil,
    fun _ never => absurd never not_mem_nil, fun _ never => absurd never not_mem_nil⟩

theorem Explored.finished (explored : Explored edge seen stack) {source target : ι}
    (reached : TransGen edge source target) (before : source ∈ seen ∧ source ∉ stack) :
    target ∈ seen ∧ target ∉ stack := by
  induction reached with
  | single step => exact explored.closed _ before.1 before.2 _ step
  | tail _ step ih => exact explored.closed _ ih.1 ih.2 _ step

/-- A node on the stack leads to its top. -/
theorem reaches_top {top : ι} (path : (top :: stack).IsChain fun below above => edge above below)
    (within : node ∈ top :: stack) : ReflTransGen edge node top := by
  induction stack generalizing top with
  | nil =>
    obtain rfl := mem_singleton.mp within
    exact .refl
  | cons next rest ih =>
    obtain ⟨step, path⟩ := isChain_cons_cons.mp path
    rcases mem_cons.mp within with rfl | later
    · exact .refl
    · exact (ih path later).tail step

theorem Explored.cycle (explored : Explored edge seen stack) (below : Below edge stack node)
    (again : node ∈ stack) : TransGen edge node node := by
  cases stack with
  | nil => cases again
  | cons top rest => exact TransGen.tail' (reaches_top explored.path again) (below top rfl)

/-- A new node joins the stack. -/
theorem Explored.enter (explored : Explored edge seen stack) (below : Below edge stack node)
    (fresh : node ∉ seen) : Explored edge (node :: seen) (node :: stack) := by
  have off : node ∉ stack := fun there => fresh (explored.within node there)
  refine ⟨?_, nodup_cons.mpr ⟨off, explored.nodup⟩, ?_, ?_, ?_⟩
  · cases stack with
    | nil => exact .singleton _
    | cons top rest => exact isChain_cons_cons.mpr ⟨below top rfl, explored.path⟩
  · intro other there
    rcases mem_cons.mp there with rfl | later
    · exact mem_cons_self
    · exact mem_cons_of_mem _ (explored.within other later)
  · intro source there outside target step
    rcases mem_cons.mp there with rfl | later
    · exact absurd mem_cons_self outside
    · obtain ⟨seen_, apart⟩ := explored.closed source later (fun on =>
        outside (mem_cons_of_mem _ on)) target step
      refine ⟨mem_cons_of_mem _ seen_, fun on => ?_⟩
      rcases mem_cons.mp on with rfl | lower
      · exact fresh seen_
      · exact apart lower
  · intro other there outside
    rcases mem_cons.mp there with rfl | later
    · exact absurd mem_cons_self outside
    · exact explored.acyclic other later fun on => outside (mem_cons_of_mem _ on)

/-- A node whose every successor is finished is finished. -/
theorem Explored.leave (explored : Explored edge seen (node :: stack))
    (done : ∀ target, edge node target → target ∈ seen ∧ target ∉ node :: stack) :
    Explored edge seen stack := by
  obtain ⟨off, nodup⟩ := nodup_cons.mp explored.nodup
  refine ⟨explored.path.of_cons, nodup, fun other there =>
    explored.within other (mem_cons_of_mem _ there), ?_, ?_⟩
  · intro source there outside target step
    by_cases same : source = node
    · subst same
      obtain ⟨seen_, apart⟩ := done target step
      exact ⟨seen_, fun on => apart (mem_cons_of_mem _ on)⟩
    · have off : source ∉ node :: stack := fun on => (mem_cons.mp on).elim same outside
      obtain ⟨seen_, apart⟩ := explored.closed source there off target step
      exact ⟨seen_, fun on => apart (mem_cons_of_mem _ on)⟩
  · intro other there outside cycle
    by_cases same : other = node
    · subst same
      obtain ⟨next, step, back⟩ := TransGen.head'_iff.mp cycle
      rcases reflTransGen_iff_eq_or_transGen.mp back with rfl | longer
      · exact (done _ step).2 mem_cons_self
      · exact (explored.finished longer (done next step)).2 mem_cons_self
    · exact explored.acyclic other there (fun on => (mem_cons.mp on).elim same outside) cycle

theorem Explored.done (explored : Explored edge seen [])
    (all : ∀ source target, edge source target → source ∈ seen) : Acyclic edge := by
  intro node cycle
  obtain ⟨next, step, _⟩ := TransGen.head'_iff.mp cycle
  exact explored.acyclic node (all node next step) not_mem_nil cycle

theorem Explored.length_le (explored : Explored edge seen stack) {nodes : List ι}
    (all : ∀ node ∈ stack, node ∈ nodes) : stack.length ≤ nodes.length :=
  (explored.nodup.subperm fun node within => all node within).length_le

end ForgeNode.Cycles
