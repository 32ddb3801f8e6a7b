import Mathlib.Data.List.Basic

/-! Forests given by a link from each node to the one above it: the chain of a node, and what is
left of it when a node is moved up past its parent. -/

namespace ForgeNode.Forest

universe u
variable {ι : Type u}

/-- Going up so many links leads from one node to another. -/
inductive Path (parent : ι → Option ι) : ι → Nat → ι → Prop where
  | here : Path parent node 0 node
  | up (link : parent node = some above) (rest : Path parent above count top) :
      Path parent node (count + 1) top

/-- The chain of a node ends at a root, so many links above it. -/
structure Rooted (parent : ι → Option ι) (node : ι) (count : Nat) (root : ι) : Prop where
  path : Path parent node count root
  top : parent root = none

variable {parent moved : ι → Option ι} {node other root : ι} {count more : Nat}

theorem Path.trans (first : Path parent node count other) (second : Path parent other more root) :
    Path parent node (count + more) root := by
  induction first with
  | here => rwa [Nat.zero_add]
  | up link rest ih =>
    rw [Nat.add_right_comm]
    exact .up link (ih second)

theorem Path.rooted (path : Path parent node count other) (rooted : Rooted parent other more root) :
    Rooted parent node (count + more) root :=
  ⟨path.trans rooted.path, rooted.top⟩

theorem Rooted.up (link : parent node = some other) (rooted : Rooted parent other count root) :
    Rooted parent node (count + 1) root :=
  ⟨.up link rooted.path, rooted.top⟩

/-- A chain passes through what lies above its node. -/
theorem Rooted.rest (rooted : Rooted parent node count root) (path : Path parent node more other) :
    more ≤ count ∧ Rooted parent other (count - more) root := by
  induction path generalizing count with
  | here => exact ⟨Nat.zero_le _, rooted⟩
  | up link _ ih =>
    obtain ⟨chain, top⟩ := rooted
    cases chain with
    | here =>
      rw [top] at link
      cases link
    | up link' chain =>
      rw [link] at link'
      cases link'
      obtain ⟨below, rest⟩ := ih ⟨chain, top⟩
      exact ⟨Nat.succ_le_succ below, by rwa [Nat.add_sub_add_right]⟩

theorem Rooted.unique {count' : Nat} {root' : ι} (first : Rooted parent node count root)
    (second : Rooted parent node count' root') : count = count' ∧ root = root' := by
  obtain ⟨le, rest⟩ := first.rest second.path
  obtain ⟨ge, _⟩ := second.rest first.path
  obtain ⟨path, _⟩ := rest
  have same : count = count' := Nat.le_antisymm ge le
  rw [same, Nat.sub_self] at path
  cases path
  exact ⟨same, rfl⟩

theorem Rooted.acyclic (rooted : Rooted parent node count root) :
    ¬ ∃ more, Path parent node (more + 1) node := by
  rintro ⟨more, path⟩
  obtain ⟨le, rest⟩ := rooted.rest path
  have same := (rooted.unique rest).1
  omega

/-- What leads to a node from one other than it leads there through a child of it. -/
theorem Path.last (path : Path parent node (count + 1) other) :
    ∃ child, Path parent node count child ∧ parent child = some other := by
  induction count generalizing node with
  | zero =>
    obtain _ | ⟨link, rest⟩ := path
    cases rest
    exact ⟨node, .here, link⟩
  | succ count ih =>
    obtain _ | ⟨link, rest⟩ := path
    obtain ⟨child, below, above⟩ := ih rest
    exact ⟨child, .up link below, above⟩

/-- Links that differ only at a node with nothing below it leave the chains of the others alone. -/
theorem Rooted.of_leaf {leaf : ι} (leafless : ∀ node, parent node ≠ some leaf)
    (same : ∀ node, node ≠ leaf → moved node = parent node) (differs : node ≠ leaf)
    (rooted : Rooted parent node count root) : Rooted moved node count root := by
  obtain ⟨path, top⟩ := rooted
  induction path with
  | here => exact ⟨.here, (same _ differs).trans top⟩
  | up link rest ih =>
    refine (ih ?_ top).up ((same _ differs).trans link)
    rintro rfl
    exact leafless _ link

/-- A node is moved up past its parent: the links that differ are its own. -/
structure Moved (parent moved : ι → Option ι) (child above : ι) : Prop where
  was : parent child = some above
  now : moved child = parent above
  same : ∀ node, node ≠ child → moved node = parent node

section Moved

variable {child above : ι}

/-- At or below the child, as the links are after the move. -/
def Under (moved : ι → Option ι) (child node : ι) : Prop := ∃ count, Path moved node count child

theorem Under.up (link : moved node = some other) (under : Under moved child other) :
    Under moved child node := by
  obtain ⟨count, path⟩ := under
  exact ⟨count + 1, .up link path⟩

theorem Under.of_link (differs : node ≠ child) (under : Under moved child node) :
    ∃ other, moved node = some other ∧ Under moved child other := by
  obtain ⟨count, path⟩ := under
  cases path with
  | here => exact absurd rfl differs
  | up link rest => exact ⟨_, link, _, rest⟩

/-- After the move the chains under the child are no longer than before and end at the same root, or
at the child where its parent was one; the other chains are the same. -/
theorem Moved.rooted (move : Moved parent moved child above)
    (rooted : Rooted parent node count root) : (Under moved child node ∧ ∃ fewer ≤ count,
      Rooted moved node fewer (if parent above = none then child else root)) ∨
    (¬ Under moved child node ∧ Rooted moved node count root) := by
  induction count using Nat.strongRecOn generalizing node with
  | ind count ih =>
    by_cases same : node = child
    · subst same
      refine .inl ⟨⟨0, .here⟩, ?_⟩
      obtain ⟨_, rest⟩ := rooted.rest (.up move.was .here)
      cases top : parent above with
      | none =>
        rw [if_pos rfl]
        exact ⟨0, Nat.zero_le _, .here, move.now.trans top⟩
      | some grand =>
        rw [if_neg (by simp)]
        have now := move.now.trans top
        obtain ⟨one, rest⟩ := rest.rest (.up top .here)
        rcases ih (count - (0 + 1) - (0 + 1)) (by omega) rest with ⟨under, fewer, _, chain⟩ | ⟨_,
          chain⟩
        · obtain ⟨more, path⟩ := under
          exact absurd ⟨more, .up now path⟩ (chain.up now).acyclic
        · exact ⟨count - (0 + 1) - (0 + 1) + 1, by omega, chain.up now⟩
    · have link := move.same node same
      cases above_ : parent node with
      | none =>
        have nothing : ¬ Under moved child node := fun under => by
          obtain ⟨other, up, _⟩ := under.of_link same
          rw [link, above_] at up
          cases up
        obtain ⟨path, top⟩ := rooted
        refine .inr ⟨nothing, ?_⟩
        cases path with
        | here => exact ⟨.here, link.trans top⟩
        | up up =>
          rw [above_] at up
          cases up
      | some other =>
        rw [above_] at link
        obtain ⟨one, rest⟩ := rooted.rest (.up above_ .here)
        rcases ih (count - (0 + 1)) (by omega) rest with ⟨under, fewer, bound, chain⟩ | ⟨clear, chain⟩
        · exact .inl ⟨under.up link, fewer + 1, by omega, chain.up link⟩
        · refine .inr ⟨fun under => clear ?_, ?_⟩
          · obtain ⟨_, up, under⟩ := under.of_link same
            rw [link] at up
            cases up
            exact under
          · have whole := chain.up link
            rwa [show count - (0 + 1) + 1 = count by omega] at whole

/-- Neither the old parent nor the new one lies under the child. -/
theorem Moved.clear (move : Moved parent moved child above)
    (rooted : Rooted parent child count root) : ¬ Under moved child above ∧ ∀ grand, parent above =
      some grand → ¬ Under moved child grand := by
  obtain ⟨more, chain⟩ : ∃ more, Rooted moved child more
    (if parent above = none then child else root) := by
    rcases move.rooted rooted with ⟨_, fewer, _, chain⟩ | ⟨clear, _⟩
    · exact ⟨fewer, chain⟩
    · exact absurd ⟨0, .here⟩ clear
  have grand : ∀ grand, parent above = some grand → ¬ Under moved child grand := by
    rintro grand link ⟨steps, path⟩
    exact chain.acyclic ⟨steps, .up (move.now.trans link) path⟩
  refine ⟨fun under => ?_, grand⟩
  have differs : above ≠ child := by
    rintro rfl
    exact rooted.acyclic ⟨0, .up move.was .here⟩
  obtain ⟨other, link, under⟩ := under.of_link differs
  exact grand other (move.same above differs ▸ link) under

end Moved

end ForgeNode.Forest
