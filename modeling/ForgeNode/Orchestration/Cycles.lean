import ForgeNode.Lib.Cycles
import ForgeNode.Orchestration.Policy

/-! The walk over the dependencies finds the cycles there are. -/

namespace ForgeNode.Orchestration

open List ForgeNode.Cycles Relation

variable {graph : TaskId → List TaskId}

/-- One task is listed under another. -/
def Lists (graph : TaskId → List TaskId) (task dep : TaskId) : Prop := dep ∈ graph task

/-- What a walk that started at `node` leaves: a cycle is there, or the node is finished and the
stack as it was. -/
structure Walked (graph : TaskId → List TaskId) (seen stack : List TaskId) (node : TaskId)
    (result : Bool × List TaskId × List TaskId) : Prop where
  found : result.1 = true → ∃ task, TransGen (Lists graph) task task
  explored : result.1 = false → Explored (Lists graph) result.2.1 stack ∧ result.2.2 = stack ∧
    (∀ other ∈ seen, other ∈ result.2.1) ∧ node ∈ result.2.1 ∧ node ∉ stack

/-- The loop over nodes that stand below the stack's top. -/
def walks (graph : TaskId → List TaskId) (fuel : Nat) (nodes : List TaskId)
    (seen stack : List TaskId) : Bool × List TaskId × List TaskId :=
  nodes.foldl (fun (found, state) node => if found then (true, state) else walk graph fuel node state)
    (false, seen, stack)

theorem walks_found (fuel : Nat) (nodes : List TaskId) (state : List TaskId × List TaskId) :
    (nodes.foldl (fun (found, state) node => if found then (true, state)
      else walk graph fuel node state)
      (true, state)) = (true, state) := by
  induction nodes with
  | nil => rfl
  | cons node rest ih => exact ih

theorem walks_cons (fuel : Nat) (node : TaskId) (rest seen stack : List TaskId) :
    walks graph fuel (node :: rest) seen stack =
      if (walk graph fuel node (seen, stack)).1 then (true, (walk graph fuel node (seen, stack)).2)
      else walks graph fuel rest (walk graph fuel node (seen, stack)).2.1
        (walk graph fuel node (seen, stack)).2.2 := by
  unfold walks
  rw [foldl_cons]
  simp only [Bool.false_eq_true, if_false]
  generalize walk graph fuel node (seen, stack) = result
  obtain ⟨found, seen', stack'⟩ := result
  cases found with
  | true => exact walks_found fuel rest (seen', stack')
  | false => rfl

/-- A loop of walks leaves all of its nodes finished, or there is a cycle. -/
theorem walks_spec {fuel : Nat} {nodes seen stack : List TaskId}
    (explored : Explored (Lists graph) seen stack)
    (each : ∀ node ∈ nodes, ∀ seen, Explored (Lists graph) seen stack →
      Walked graph seen stack node (walk graph fuel node (seen, stack))) :
    ((walks graph fuel nodes seen stack).1 = true → ∃ task, TransGen (Lists graph) task task) ∧
      ((walks graph fuel nodes seen stack).1 = false →
        Explored (Lists graph) (walks graph fuel nodes seen stack).2.1 stack ∧
        (walks graph fuel nodes seen stack).2.2 = stack ∧
        (∀ other ∈ seen, other ∈ (walks graph fuel nodes seen stack).2.1) ∧
        ∀ node ∈ nodes, node ∈ (walks graph fuel nodes seen stack).2.1 ∧ node ∉ stack) := by
  induction nodes generalizing seen with
  | nil =>
    refine ⟨fun never => ?_, fun _ => ⟨explored, rfl, fun _ there => there, fun _ never =>
      absurd never not_mem_nil⟩⟩
    cases never
  | cons node rest ih =>
    have walked := each node mem_cons_self seen explored
    rw [walks_cons]
    cases found : (walk graph fuel node (seen, stack)).1 with
    | true =>
      rw [if_pos rfl]
      refine ⟨fun _ => walked.found found, fun never => ?_⟩
      cases never
    | false =>
      obtain ⟨later, same, kept, here, off⟩ := walked.explored found
      rw [if_neg Bool.false_ne_true, same]
      obtain ⟨cycle, done⟩ := ih later fun other within => each other (mem_cons_of_mem _ within)
      refine ⟨cycle, fun none_ => ?_⟩
      obtain ⟨last, again, more, all⟩ := done none_
      refine ⟨last, again, fun other there => more other (kept other there), fun other within => ?_⟩
      rcases mem_cons.mp within with rfl | inside
      · exact ⟨more other here, off⟩
      · exact all other inside

theorem walk_eq (fuel : Nat) (node : TaskId) (seen stack : List TaskId) :
    walk graph (fuel + 1) node (seen, stack) =
      if stack.contains node then (true, seen, stack)
      else if seen.contains node then (false, seen, stack)
      else if (walks graph fuel (graph node) (node :: seen) (node :: stack)).1 then
        (true, (walks graph fuel (graph node) (node :: seen) (node :: stack)).2)
      else (false, (walks graph fuel (graph node) (node :: seen) (node :: stack)).2.1,
        (walks graph fuel (graph node) (node :: seen) (node :: stack)).2.2.erase node) := by
  rw [walk]
  rfl

/-- With fuel for every node that is not on the stack, a walk finishes its node or finds a cycle. -/
theorem walk_spec {universe_ : List TaskId} (all : ∀ task ∈ universe_, ∀ dep ∈ graph task,
      dep ∈ universe_)
    {fuel : Nat} {node : TaskId} {seen stack : List TaskId}
    (explored : Explored (Lists graph) seen stack) (below : Below (Lists graph) stack node)
    (within : ∀ task ∈ stack, task ∈ universe_) (known : node ∈ universe_)
    (enough : universe_.length < stack.length + fuel) :
    Walked graph seen stack node (walk graph fuel node (seen, stack)) := by
  induction fuel generalizing node seen stack with
  | zero =>
    have short := explored.length_le within
    omega
  | succ fuel ih =>
    rw [walk_eq]
    by_cases again : stack.contains node = true
    · rw [if_pos again]
      refine ⟨fun _ => ⟨node, explored.cycle below (contains_iff_mem.mp again)⟩, fun never => ?_⟩
      cases never
    have off : node ∉ stack := fun there => again (contains_iff_mem.mpr there)
    rw [if_neg again]
    by_cases finished : seen.contains node = true
    · rw [if_pos finished]
      refine ⟨fun never => ?_, fun _ => ⟨explored, rfl, fun _ there =>
        there, contains_iff_mem.mp finished, off⟩⟩
      cases never
    rw [if_neg finished]
    have entered := explored.enter below fun there => finished (contains_iff_mem.mpr there)
    obtain ⟨cycle, done⟩ := @walks_spec _ fuel (graph node) _ _ entered (by
      intro dep listed seen' explored'
      apply ih explored'
      · intro top same
        obtain rfl := Option.some.inj same
        exact listed
      · intro task there
        rcases mem_cons.mp there with rfl | later
        · exact known
        · exact within task later
      · exact all node known dep listed
      · rw [length_cons]
        omega)
    cases found : (walks graph fuel (graph node) (node :: seen) (node :: stack)).1 with
    | true =>
      rw [if_pos rfl]
      refine ⟨fun _ => cycle found, fun never => ?_⟩
      cases never
    | false =>
      rw [if_neg Bool.false_ne_true]
      obtain ⟨last, same, kept, deps⟩ := done found
      refine ⟨fun never => ?_, fun _ => ⟨last.leave deps, ?_, ?_, kept node mem_cons_self, off⟩⟩
      · cases never
      · rw [same, erase_cons_head]
      · exact fun other there => kept other (mem_cons_of_mem _ there)

section Check

variable {edges : List (TaskId × TaskId)} {task : TaskId} {after : List TaskId}

/-- The dependencies with those that are about to be added. -/
def Depends (edges : List (TaskId × TaskId)) (task : TaskId) (after : List TaskId)
    (from_ dep : TaskId) : Prop :=
  (from_, dep) ∈ edges ∨ from_ = task ∧ dep ∈ after

/-- The adjacency of `dependency_cycle`. -/
def adjacency (edges : List (TaskId × TaskId)) (task : TaskId) (after : List TaskId)
    (node : TaskId) : List TaskId :=
  ((edges ++ after.map fun dep => (task, dep)).filter fun edge => edge.1 == node).map (·.2)

theorem lists_adjacency : Lists (adjacency edges task after) = Depends edges task after := by
  funext source dep
  apply propext
  simp only [Lists, adjacency, Depends, List.mem_map, mem_filter, mem_append, beq_iff_eq, Prod.exists,
    exists_eq_right, Prod.mk.injEq]
  constructor
  · rintro (listed | ⟨other, inside, rfl, rfl⟩)
    · exact .inl listed
    · exact .inr ⟨rfl, inside⟩
  · rintro (listed | ⟨rfl, inside⟩)
    · exact .inl listed
    · exact .inr ⟨dep, inside, rfl, rfl⟩

/-- From every node in any order and with any fuel from the bound on, the walks find whether there
is a cycle. -/
theorem walks_iff {nodes : List TaskId} {fuel : Nat}
    (sources : ∀ source dep, Depends edges task after source dep → source ∈ nodes)
    (known : ∀ node ∈ nodes, node = task ∨ node ∈ after ∨ ∃ dep, (node, dep) ∈ edges)
    (enough : 2 * (edges ++ after.map fun dep => (task, dep)).length + 2 ≤ fuel) :
    (walks (adjacency edges task after) fuel nodes [] []).1 = true ↔
    ¬ Acyclic (Depends edges task after) := by
  let all := edges.map (·.1) ++ edges.map (·.2) ++ task :: after
  have inside : ∀ node ∈ all, ∀ dep ∈ adjacency edges task after node, dep ∈ all := by
    intro node _ dep listed
    have depends : Lists (adjacency edges task after) node dep := listed
    rw [lists_adjacency] at depends
    simp only [all, mem_append, List.mem_map, mem_cons]
    rcases depends with listed | ⟨_, inside⟩
    · exact .inl (.inr ⟨_, listed, rfl⟩)
    · exact .inr (.inr inside)
  have size : all.length ≤ 2 * (edges ++ after.map fun dep => (task, dep)).length + 1 := by
    simp only [all, length_append, length_map, length_cons]
    omega
  have each : ∀ node ∈ nodes, ∀ seen, Explored (Lists (adjacency edges task after)) seen [] →
      Walked (adjacency edges task after) seen [] node (walk (adjacency edges task after) fuel node
      (seen, [])) := by
    intro node within seen explored
    refine walk_spec inside explored (fun _ never => by cases never) (fun _ never =>
      absurd never not_mem_nil) ?_ ?_
    · simp only [all, mem_append, List.mem_map, mem_cons]
      rcases known node within with same | later | ⟨dep, listed⟩
      · exact .inr (.inl same)
      · exact .inr (.inr later)
      · exact .inl (.inl ⟨_, listed, rfl⟩)
    · rw [length_nil]
      omega
  obtain ⟨cycle, done⟩ := walks_spec Explored.nil each
  rw [lists_adjacency] at cycle done
  constructor
  · intro found acyclic
    obtain ⟨node, back⟩ := cycle found
    exact acyclic node back
  · intro cyclic
    by_contra none_
    obtain ⟨explored, _, _, all⟩ := done (Bool.eq_false_iff.mpr none_)
    exact cyclic (explored.done fun source dep depends => (all source (sources source dep depends)).1)

/-- The check tells a cycle wherever there is one. -/
theorem dependencyCycle_eq_true (edges : List (TaskId × TaskId)) (task : TaskId)
    (after : List TaskId) : dependencyCycle edges task after = true ↔
    ¬ Acyclic (Depends edges task after) := by
  have check : dependencyCycle edges task after = (walks (adjacency edges task after)
      (2 * (edges ++ after.map fun dep => (task, dep)).length + 2)
      ((edges.map (·.1)).eraseDups ++ [task] ++ after) [] []).1 := rfl
  rw [check]
  apply walks_iff _ _ (Nat.le_refl _)
  · intro source dep depends
    simp only [mem_append, mem_eraseDups, List.mem_map, mem_singleton]
    rcases depends with listed | ⟨same, _⟩
    · exact .inl (.inl ⟨_, listed, rfl⟩)
    · exact .inl (.inr same)
  · intro node within
    simp only [mem_append, mem_eraseDups, List.mem_map, mem_singleton] at within
    rcases within with (⟨⟨source, dep⟩, listed, rfl⟩ | same) | later
    · exact .inr (.inr ⟨dep, listed⟩)
    · exact .inl same
    · exact .inr (.inl later)

end Check

end ForgeNode.Orchestration
