import ForgeNode.Lib.Forest
import ForgeNode.Sessions.Core
import Mathlib.Algebra.Ring.Nat

/-! The session graph is a forest of bounded depth whose roots are what the sessions say they are,
and what leaves it reports every session it changed. -/

namespace ForgeNode.Sessions

open List Store
open Orchestration (ProjectId WorkspaceId SessionId SessionState ProtocolError)
open Forest

variable {children : SessionId → List SessionId} {cid deleted : SessionId}
  {from_ root : SessionId} {inner : Inner} {workspaceId : WorkspaceId}

section Reports

/-- The last value reported of a session. -/
def lastOf (updated : List Session) (id : SessionId) : Option Session :=
  (updated.filter fun row => decide (row.id = id)).getLast?

/-- Every row that is there at the end was reported last as it is, or not at all and is as it
was. -/
def Reports (before after : Store Session.id) (updated : List Session) : Prop :=
  ∀ row ∈ after, lastOf updated row.id = some row ∨ lastOf updated row.id = none ∧ row ∈ before

variable {before middle after : Store Session.id} {updated more : List Session}

theorem lastOf_append (updated more : List Session) (id : SessionId) :
    lastOf (updated ++ more) id = (lastOf more id).or (lastOf updated id) := by
  unfold lastOf
  rw [filter_append, getLast?_append]

theorem lastOf_singleton (row : Session) (id : SessionId) :
    lastOf [row] id = if row.id = id then some row else none := by
  unfold lastOf
  by_cases same : row.id = id <;> simp [same]

theorem Reports.refl (sessions : Store Session.id) : Reports sessions sessions [] :=
  fun _ member => .inr ⟨rfl, member⟩

theorem Reports.trans (first : Reports before middle updated) (second : Reports middle after more) :
    Reports before after (updated ++ more) := by
  intro row member
  rw [lastOf_append]
  rcases second row member with last | ⟨silent, there⟩
  · rw [last]
    exact .inl rfl
  · rw [silent, Option.none_or]
    exact first row there

theorem Reports.put (reports : Reports before after updated) (row : Session) :
    Reports before (after.put row) (updated ++ [row]) := by
  intro other member
  rw [lastOf_append, lastOf_singleton]
  rcases mem_put.mp member with rfl | ⟨there, differ⟩
  · rw [if_pos rfl]
    exact .inl rfl
  · rw [if_neg (Ne.symm differ), Option.none_or]
    exact reports other there

theorem Reports.retain (reports : Reports before after updated) (keep : Session → Bool) :
    Reports before (after.retain keep) updated :=
  fun row member => reports row (Store.mem_retain.mp member).1

theorem Reports.filter (reports : Reports before after updated) {gone : List SessionId}
    (absent : ∀ row ∈ after, row.id ∉ gone) :
    Reports before after (updated.filter fun row => decide (row.id ∉ gone)) := by
  intro row member
  have same : lastOf (updated.filter fun row => decide (row.id ∉ gone)) row.id =
      lastOf updated row.id := by
    unfold lastOf
    rw [filter_filter]
    refine congrArg List.getLast? (filter_congr fun other _ => ?_)
    by_cases named : other.id = row.id
    · simp [named, absent row member]
    · simp [named]
  rw [same]
  exact reports row member

end Reports

section Walk

variable {order : Order} {sessions : Store Session.id} {id parent : SessionId}

theorem mem_childrenByParent :
    id ∈ childrenByParent order sessions parent ↔ parentOf sessions id = some parent := by
  unfold childrenByParent parentOf
  rw [List.mem_map]
  constructor
  · rintro ⟨session, member, rfl⟩
    obtain ⟨member, link⟩ := mem_filter.mp member
    rw [get?_of_mem ((order.perm sessions.rows).mem_iff.mp member)]
    simpa using link
  · intro link
    obtain ⟨session, found, linked⟩ := Option.bind_eq_some_iff.mp link
    obtain ⟨member, named⟩ := get?_eq_some.mp found
    refine ⟨session, mem_filter.mpr ⟨(order.perm sessions.rows).mem_iff.mpr member, ?_⟩, named⟩
    simpa using linked

theorem childrenByParent_nodup (order : Order) (sessions : Store Session.id) (parent : SessionId) :
    (childrenByParent order sessions parent).Nodup := by
  have all := ((order.perm sessions.rows).map Session.id).nodup_iff.mpr sessions.distinct
  exact all.sublist (filter_sublist.map _)

theorem childrenByParent_length (order : Order) (sessions : Store Session.id) (parent : SessionId) :
    (childrenByParent order sessions parent).length ≤ sessions.rows.length := by
  rw [childrenByParent, length_map, ← (order.perm sessions.rows).length_eq]
  exact length_filter_le _ _

/-- How many children the sessions not yet seen have together. -/
private def unseenWeight (children : SessionId → List SessionId) (ids seen : List SessionId) :
    Nat :=
  ((ids.filter fun id => decide (id ∉ seen)).map fun id => (children id).length).sum

private theorem unseenWeight_cons {ids seen : List SessionId}
    (distinct : ids.Nodup) (member : id ∈ ids) (fresh : id ∉ seen) :
    unseenWeight children ids (id :: seen) + (children id).length =
      unseenWeight children ids seen := by
  have lighter : ∀ others : List SessionId, id ∉ others →
      unseenWeight children others (id :: seen) = unseenWeight children others seen :=
      fun others absent => by
    refine congrArg (fun list : List SessionId => (list.map fun id => (children id).length).sum)
      (filter_congr fun other there => ?_)
    have differ : other ≠ id := fun same => absent (same ▸ there)
    simp [differ]
  induction ids with
  | nil => cases member
  | cons other rest ih =>
    obtain ⟨absent, distinct⟩ := nodup_cons.mp distinct
    rcases mem_cons.mp member with rfl | there
    · have rest_ := lighter rest absent
      simp only [unseenWeight] at rest_ ⊢
      rw [filter_cons_of_neg (by simp), filter_cons_of_pos (by simpa using fresh), rest_,
        map_cons, sum_cons, Nat.add_comm]
    · have differ : other ≠ id := fun same => absent (same ▸ there)
      have rest_ := ih distinct there
      simp only [unseenWeight] at rest_ ⊢
      by_cases seen_ : other ∈ seen
      · rw [filter_cons_of_neg (by simp [seen_]), filter_cons_of_neg (by simp [seen_])]
        exact rest_
      · rw [filter_cons_of_pos (by simp [seen_, differ]), filter_cons_of_pos (by simp [seen_]),
          map_cons, map_cons, sum_cons, sum_cons, Nat.add_assoc, rest_]

private theorem unseenWeight_le {children : SessionId → List SessionId} {ids seen : List SessionId}
    {bound : Nat} (few : ∀ id, (children id).length ≤ bound) :
    unseenWeight children ids seen ≤ ids.length * bound := by
  induction ids with
  | nil => exact Nat.zero_le _
  | cons id rest ih =>
    have here := few id
    rw [length_cons, Nat.succ_mul]
    by_cases seen_ : id ∈ seen
    · rw [unseenWeight, filter_cons_of_neg (by simp [seen_])]
      exact Nat.le_trans ih (Nat.le_add_right _ _)
    · rw [unseenWeight, filter_cons_of_pos (by simp [seen_]), map_cons, sum_cons,
        Nat.add_comm]
      exact Nat.add_le_add ih here

/-- What has been walked so far: the sessions seen have the root, none else has changed, and
whatever lies directly below one that was seen was seen or is still to come. -/
private structure Walked (before : Store Session.id) (from_ root : SessionId)
    (stack seen : List SessionId) (sessions : Store Session.id) (updated : List Session) : Prop where
  rows : ∀ id, sessions.get? id = (before.get? id).map fun row =>
    if id ∈ seen ∧ id ≠ from_ then { row with rootSessionId := root } else row
  start : from_ ∈ seen
  under : ∀ id, id ∈ seen ∨ id ∈ stack → Under (parentOf before) from_ id
  closed : ∀ id ∈ seen, ∀ child, parentOf before child = some id → child ∈ seen ∨ child ∈ stack
  known : ∀ id ∈ stack, id ∈ before.keys ∧ id ≠ from_
  reports : Reports before sessions updated

/-- The rows after a rewrite: the root of what lies below, and nothing else. -/
structure Rerooted (before : Store Session.id) (from_ root : SessionId) (after : Store Session.id) :
    Prop where
  below : ∀ id, Under (parentOf before) from_ id → id ≠ from_ →
    after.get? id = (before.get? id).map fun row => { row with rootSessionId := root }
  others : ∀ id, ¬ (Under (parentOf before) from_ id ∧ id ≠ from_) → after.get? id = before.get? id

private theorem Walked.rerooted {before : Store Session.id}
    {seen : List SessionId} {updated : List Session}
    (walked : Walked before from_ root [] seen sessions updated) :
    Rerooted before from_ root sessions := by
  have all : ∀ id, Under (parentOf before) from_ id → id ∈ seen := by
    rintro id ⟨count, path⟩
    induction path with
    | here => exact walked.start
    | up link _ ih =>
      rcases walked.closed _ (ih walked) _ link with done | later
      · exact done
      · cases later
  refine ⟨fun id under differs => ?_, fun id neither => ?_⟩
  · rw [walked.rows]
    refine congrArg (Option.map · _) (funext fun row => ?_)
    rw [if_pos ⟨all id under, differs⟩]
  · rw [walked.rows]
    cases before.get? id with
    | none => rfl
    | some row =>
      rw [Option.map_some, if_neg]
      rintro ⟨seen_, differs⟩
      exact neither ⟨walked.under id (.inl seen_), differs⟩

/-- One session is taken off the stack, and its children are put there. -/
private theorem Walked.visit {before : Store Session.id}
    {stack seen : List SessionId} {updated updated' : List Session} {sessions' : Store Session.id}
    (walked : Walked before from_ root (id :: stack) seen sessions updated)
    (apart : ∀ id, Under (parentOf before) from_ id → parentOf before from_ ≠ some id)
    (links : ∀ child, child ∈ children id ↔ parentOf before child = some id)
    (rows : ∀ other, sessions'.get? other = if other = id then
      (before.get? id).map fun row => { row with rootSessionId := root } else sessions.get? other)
    (reports : Reports before sessions' updated') :
    Walked before from_ root ((children id).reverse ++ stack) (id :: seen) sessions' updated' := by
  have under := walked.under id (.inr mem_cons_self)
  refine ⟨fun other => ?_, mem_cons_of_mem _ walked.start, fun other member => ?_,
    fun other member child link => ?_, fun other member => ?_, reports⟩
  · rw [rows]
    by_cases same : other = id
    · subst same
      rw [if_pos rfl]
      refine congrArg (Option.map · _) (funext fun row => ?_)
      rw [if_pos ⟨mem_cons_self, (walked.known other mem_cons_self).2⟩]
    · rw [if_neg same, walked.rows]
      simp only [mem_cons, same, false_or]
  · rcases member with member | member
    · rcases mem_cons.mp member with rfl | member
      · exact under
      · exact walked.under other (.inl member)
    · rcases mem_append.mp member with member | member
      · exact under.up ((links other).mp (mem_reverse.mp member))
      · exact walked.under other (.inr (mem_cons_of_mem _ member))
  · rcases mem_cons.mp member with rfl | member
    · exact .inr (mem_append_left _ (mem_reverse.mpr ((links child).mpr link)))
    · rcases walked.closed other member child link with done | later
      · exact .inl (mem_cons_of_mem _ done)
      · rcases mem_cons.mp later with rfl | later
        · exact .inl mem_cons_self
        · exact .inr (mem_append_right _ later)
  · rcases mem_append.mp member with member | member
    · have link := (links other).mp (mem_reverse.mp member)
      refine ⟨?_, fun same => apart id under (same ▸ link)⟩
      obtain ⟨row, found, _⟩ := Option.bind_eq_some_iff.mp link
      obtain ⟨there, named⟩ := get?_eq_some.mp found
      exact Store.mem_keys.mpr ⟨row, there, named⟩
    · exact walked.known other (mem_cons_of_mem _ member)

/-- With fuel for every child of a session not yet seen the walk ends with an empty stack. -/
private theorem walk_spec {before : Store Session.id}
    (links : ∀ parent child, child ∈ children parent ↔ parentOf before child = some parent)
    (apart : ∀ id, Under (parentOf before) from_ id → parentOf before from_ ≠ some id) {fuel : Nat}
    {stack seen : List SessionId} {updated : List Session}
    (walked : Walked before from_ root stack seen sessions updated)
    (enough : stack.length + unseenWeight children before.keys seen ≤ fuel) :
    Rerooted before from_ root (walk children root fuel stack seen sessions updated).1 ∧
      Reports before (walk children root fuel stack seen sessions updated).1
        (walk children root fuel stack seen sessions updated).2 := by
  induction fuel generalizing stack seen sessions updated with
  | zero =>
    have done : stack = [] := length_eq_zero_iff.mp (by omega)
    subst done
    exact ⟨walked.rerooted, walked.reports⟩
  | succ fuel ih =>
    cases stack with
    | nil => exact ⟨walked.rerooted, walked.reports⟩
    | cons id stack =>
      unfold walk
      by_cases seen_ : id ∈ seen
      · rw [if_pos seen_]
        refine ih ⟨walked.rows, walked.start, fun other member => ?_, fun other member child link =>
          ?_, fun other member => walked.known other (mem_cons_of_mem _ member), walked.reports⟩ (by
            rw [length_cons] at enough
            omega)
        · exact walked.under other (member.imp_right (mem_cons_of_mem _))
        · rcases walked.closed other member child link with done | later
          · exact .inl done
          · rcases mem_cons.mp later with rfl | later
            · exact .inl seen_
            · exact .inr later
      · rw [if_neg seen_]
        obtain ⟨known, differs⟩ := walked.known id mem_cons_self
        have lighter : unseenWeight children before.keys (id :: seen) + (children id).length =
            unseenWeight children before.keys seen := unseenWeight_cons before.distinct known seen_
        have room : ((children id).reverse ++ stack).length +
            unseenWeight children before.keys (id :: seen) ≤ fuel := by
          rw [length_cons] at enough
          rw [length_append, length_reverse]
          change unseenWeight children before.keys (id :: seen) + _ =
            unseenWeight children before.keys seen
            at lighter
          omega
        have here := walked.rows id
        rw [funext fun row => if_neg fun both => seen_ both.1, Option.map_id'] at here
        cases found : sessions.get? id with
        | none =>
          refine ih (walked.visit apart (links id) (fun other => ?_) walked.reports) room
          by_cases same : other = id
          · rw [same, if_pos rfl, found, ← here, found]
            rfl
          · rw [if_neg same]
        | some session =>
          dsimp only
          by_cases rooted : session.rootSessionId = root
          · rw [if_pos rooted]
            refine ih (walked.visit apart (links id) (fun other => ?_) walked.reports) room
            by_cases same : other = id
            · rw [same, if_pos rfl, ← here, found, ← rooted]
              rfl
            · rw [if_neg same]
          · rw [if_neg rooted]
            refine ih (walked.visit apart (links id) (fun other => ?_) (walked.reports.put _)) room
            have named := key_of_get? found
            rw [get?_put, ← here, found]
            by_cases same : other = id
            · rw [same, if_pos named, if_pos rfl]
              rfl
            · rw [if_neg fun equal => same (equal.symm.trans named), if_neg same]

/-- The rewrite reaches every session below and no other. -/
theorem rewriteSubtreeRoot_spec (order : Order) (sessions : Store Session.id)
    (from_ root : SessionId) (apart : ∀ id, Under (parentOf sessions) from_ id →
      parentOf sessions from_ ≠ some id) :
    Rerooted sessions from_ root (rewriteSubtreeRoot order sessions from_ root).1 ∧
      Reports sessions (rewriteSubtreeRoot order sessions from_ root).1
        (rewriteSubtreeRoot order sessions from_ root).2 := by
  have few := fun id => childrenByParent_length order sessions id
  refine walk_spec (fun _ _ => mem_childrenByParent) apart ⟨fun id => ?_, mem_singleton_self _,
    fun id member => ?_, fun id member child link => ?_, fun id member => ?_, .refl _⟩ ?_
  · rw [funext fun row => if_neg fun both => both.2 (mem_singleton.mp both.1), Option.map_id']
  · rcases member with member | member
    · rw [mem_singleton.mp member]
      exact ⟨0, .here⟩
    · exact ⟨1, .up (mem_childrenByParent.mp (mem_reverse.mp member)) .here⟩
  · rw [mem_singleton.mp member] at link
    exact .inr (mem_reverse.mpr (mem_childrenByParent.mpr link))
  · have link := mem_childrenByParent.mp (mem_reverse.mp member)
    obtain ⟨row, found, _⟩ := Option.bind_eq_some_iff.mp link
    obtain ⟨there, named⟩ := get?_eq_some.mp found
    exact ⟨Store.mem_keys.mpr ⟨row, there, named⟩, fun same => apart from_ ⟨0, .here⟩ (same ▸ link)⟩
  · have weight := @unseenWeight_le (childrenByParent order sessions) sessions.keys [from_] _ few
    have size : sessions.keys.length = sessions.rows.length := length_map _
    rw [size] at weight
    have first := few from_
    rw [length_reverse, Nat.mul_succ, Nat.add_comm]
    exact Nat.add_le_add weight first

end Walk

section Placed

/-- The graph as it is to be: every session has a workspace and shares its project with its parent,
and its chain is short and ends at its root. -/
structure Placed (workspaces : Store Workspace.id) (sessions : Store Session.id) : Prop where
  housed : ∀ row ∈ sessions, ∃ project, projectOf workspaces row.workspaceId = some project
  parents : ∀ row ∈ sessions, ∀ parent, row.parentSessionId = some parent → ∃ other ∈ sessions,
    other.id = parent ∧ projectOf workspaces other.workspaceId = projectOf workspaces row.workspaceId
  rooted : ∀ row ∈ sessions, ∃ count < maxGraphDepth,
    Rooted (parentOf sessions) row.id count row.rootSessionId

variable {workspaces : Store Workspace.id} {sessions after : Store Session.id} {id : SessionId}
  {order : Order}

theorem parentOf_of_mem {row : Session} (member : row ∈ sessions) :
    parentOf sessions row.id = row.parentSessionId := by
  rw [parentOf, get?_of_mem member]
  rfl

theorem parentOf_eq_some {parent : SessionId} (link : parentOf sessions id = some parent) :
    ∃ row ∈ sessions, row.id = id ∧ row.parentSessionId = some parent := by
  obtain ⟨row, found, linked⟩ := Option.bind_eq_some_iff.mp link
  obtain ⟨member, named⟩ := get?_eq_some.mp found
  exact ⟨row, member, named, linked⟩

theorem parentOf_rerooted {before : Store Session.id}
    (rerooted : Rerooted before from_ root after) (id : SessionId) :
    parentOf after id = parentOf before id := by
  unfold parentOf
  by_cases both : Under (parentOf before) from_ id ∧ id ≠ from_
  · rw [rerooted.below id both.1 both.2]
    cases before.get? id <;> rfl
  · rw [rerooted.others id both]

/-- The rows after one child has been moved up past the session that is deleted. -/
structure Reparented (before after : Store Session.id) (cid deleted : SessionId)
    (grandparent : Option SessionId) (root : SessionId) : Prop where
  moved : Moved (parentOf before) (parentOf after) cid deleted
  rows : ∀ row ∈ after, ∃ old ∈ before, old.id = row.id ∧ old.workspaceId = row.workspaceId ∧
    (row.parentSessionId = if row.id = cid then grandparent else old.parentSessionId) ∧
    (Under (parentOf after) cid row.id → row.rootSessionId = root) ∧
    (¬ Under (parentOf after) cid row.id → row = old)
  kept : ∀ old ∈ before, ∃ row ∈ after, row.id = old.id ∧ row.workspaceId = old.workspaceId

private theorem moved_put {child : Session} {grandparent : Option SessionId}
    {root : SessionId} (found : sessions.get? cid = some child)
    (link : child.parentSessionId = some deleted)
    (above : parentOf sessions deleted = grandparent) : Moved (parentOf sessions)
      (parentOf (sessions.put { child with parentSessionId := grandparent, rootSessionId := root }))
      cid deleted := by
  have named := key_of_get? found
  refine ⟨by rw [parentOf, found]; exact link, ?_, fun id differs => ?_⟩
  · rw [above, parentOf, get?_put, if_pos named]
    rfl
  · rw [parentOf, get?_put, if_neg fun same => differs (same.symm.trans named)]
    rfl

/-- One round of the loop moves the child and gives all below it the new root. -/
theorem reparent_spec (order : Order) (newRoot : Option SessionId)
    (placed : Placed workspaces sessions) {grandparent : Option SessionId} {updated : List Session}
    {before : Store Session.id} (link : parentOf sessions cid = some deleted)
    (above : parentOf sessions deleted = grandparent) (reports : Reports before sessions updated) :
    Reparented sessions (reparent order grandparent newRoot (sessions, updated) cid).1 cid deleted
        grandparent (newRoot.getD cid) ∧
      Reports before (reparent order grandparent newRoot (sessions, updated) cid).1
        (reparent order grandparent newRoot (sessions, updated) cid).2 := by
  obtain ⟨child, member, rfl, linked⟩ := parentOf_eq_some link
  have found := get?_of_mem member
  unfold reparent
  simp only [found]
  generalize childIs :
    { child with parentSessionId := grandparent, rootSessionId := newRoot.getD child.id } = child'
  have named : child'.id = child.id := by rw [← childIs]
  have linkNow : child'.parentSessionId = grandparent := by rw [← childIs]
  have rootNow : child'.rootSessionId = newRoot.getD child.id := by rw [← childIs]
  have housed : child'.workspaceId = child.workspaceId := by rw [← childIs]
  have moved : Moved (parentOf sessions) (parentOf (sessions.put child')) child.id deleted := by
    rw [← childIs]
    exact moved_put found linked above
  obtain ⟨_, _, chain⟩ := placed.rooted child member
  have apart : ∀ id, Under (parentOf (sessions.put child')) child.id id →
      parentOf (sessions.put child') child.id ≠ some id := by
    intro id under up
    rw [moved.now] at up
    exact (moved.clear chain).2 id up under
  obtain ⟨rerooted, more⟩ := rewriteSubtreeRoot_spec order (sessions.put child') child.id
    (newRoot.getD child.id) apart
  have links := parentOf_rerooted rerooted
  rw [← funext links] at moved
  refine ⟨⟨moved, fun row there => ?_, fun old there => ?_⟩, ?_⟩
  · have placed_ := get?_of_mem there
    rw [funext links]
    by_cases same : row.id = child.id
    · have here := rerooted.others row.id fun both => both.2 same
      rw [placed_, get?_put, if_pos (named.trans same.symm)] at here
      obtain rfl := Option.some.inj here
      exact ⟨child, member, same.symm, housed.symm, by rw [if_pos same, linkNow], fun _ => rootNow,
        fun clear => absurd ⟨0, same ▸ .here⟩ clear⟩
    · have put : (sessions.put child').get? row.id = sessions.get? row.id := by
        rw [get?_put, if_neg fun equal => same (equal.symm.trans named)]
      by_cases under : Under (parentOf (sessions.put child')) child.id row.id
      · have here := rerooted.below row.id under same
        rw [placed_, put] at here
        obtain ⟨old, found, changed⟩ := Option.map_eq_some_iff.mp here.symm
        obtain ⟨held, ids⟩ := get?_eq_some.mp found
        refine ⟨old, held, ids, ?_, ?_, fun _ => ?_, fun clear => absurd under clear⟩
          <;> rw [← changed]
        rw [if_neg (by rw [ids]; exact same)]
      · have here := rerooted.others row.id fun both => under both.1
        rw [placed_, put] at here
        obtain ⟨held, _⟩ := get?_eq_some.mp here.symm
        exact ⟨row, held, rfl,
          rfl, by rw [if_neg same], fun below => absurd below under, fun _ => rfl⟩
  · by_cases both : Under (parentOf (sessions.put child')) child.id old.id ∧ old.id ≠ child.id
    · have here := rerooted.below old.id both.1 both.2
      rw [get?_put, if_neg fun equal => both.2 (equal.symm.trans named),
        get?_of_mem there] at here
      obtain ⟨held, ids⟩ := get?_eq_some.mp here
      exact ⟨_, held, ids, rfl⟩
    · have here := rerooted.others old.id both
      by_cases same : old.id = child.id
      · rw [get?_put, if_pos (named.trans same.symm)] at here
        obtain ⟨held, ids⟩ := get?_eq_some.mp here
        rw [eq_of_key there member same]
        exact ⟨_, held, named, housed⟩
      · rw [get?_put, if_neg fun equal => same (equal.symm.trans named), get?_of_mem
          there] at here
        obtain ⟨held, ids⟩ := get?_eq_some.mp here
        exact ⟨_, held, ids, rfl⟩
  · have whole := (reports.put child').trans more
    rwa [append_assoc] at whole

/-- The graph is as it is to be after each round. -/
theorem Reparented.placed (placed : Placed workspaces sessions)
    {grandparent newRoot : Option SessionId} (above : parentOf sessions deleted = grandparent)
    (rootOf : newRoot = grandparent.bind fun gp => (sessions.get? gp).map Session.rootSessionId)
    (done : Reparented sessions after cid deleted grandparent (newRoot.getD cid)) :
    Placed workspaces after := by
  refine ⟨fun row member => ?_, fun row member parent link => ?_, fun row member => ?_⟩
  · obtain ⟨old, there, _, housed, _⟩ := done.rows row member
    rw [← housed]
    exact placed.housed old there
  · obtain ⟨old, there, ids, housed, parent_, _⟩ := done.rows row member
    obtain ⟨other, held, named, project⟩ : ∃ other ∈ sessions, other.id = parent ∧
        projectOf workspaces other.workspaceId = projectOf workspaces old.workspaceId := by
      by_cases same : row.id = cid
      · rw [if_pos same, link] at parent_
        obtain ⟨child, childThere, childIs, childLink⟩ := parentOf_eq_some done.moved.was
        have one : old = child := eq_of_key there childThere
          (ids.trans (same.trans childIs.symm))
        subst one
        obtain ⟨middle, middleThere, middleIs, sameProject⟩ :=
          placed.parents old there deleted childLink
        rw [← middleIs, parentOf_of_mem middleThere, ← parent_] at above
        obtain ⟨other, held, named, project⟩ := placed.parents middle middleThere parent above
        exact ⟨other, held, named, project.trans sameProject⟩
      · rw [if_neg same, link] at parent_
        exact placed.parents old there parent parent_.symm
    obtain ⟨new, newThere, newIs, newHoused⟩ := done.kept other held
    exact ⟨new, newThere, newIs.trans named, by rw [newHoused, project, housed]⟩
  · obtain ⟨old, there, ids, _, _, below, others⟩ := done.rows row member
    obtain ⟨count, short, chain⟩ := placed.rooted old there
    rw [ids] at chain
    rcases done.moved.rooted chain with ⟨under, fewer, bound, rooted⟩ | ⟨clear, rooted⟩
    · refine ⟨fewer, by omega, ?_⟩
      rw [below under, rootOf]
      cases link : parentOf sessions deleted with
      | none =>
        rw [link] at above rooted
        rw [if_pos rfl] at rooted
        rw [← above]
        exact rooted
      | some grand =>
        have was := rooted
        rw [link, if_neg (by simp)] at was
        obtain ⟨steps, path⟩ := under
        obtain ⟨_, middleThere, rfl, middleLink⟩ := parentOf_eq_some link
        obtain ⟨other, held, rfl, _⟩ := placed.parents _ middleThere grand middleLink
        obtain ⟨more, _, grandChain⟩ := placed.rooted other held
        obtain ⟨_, childThere, rfl, _⟩ := parentOf_eq_some done.moved.was
        obtain ⟨_, _, childChain⟩ := placed.rooted _ childThere
        have notUnder := (done.moved.clear childChain).2 _ link
        rcases done.moved.rooted grandChain with ⟨under, _⟩ | ⟨_, grandNow⟩
        · exact absurd under notUnder
        · have whole := path.rooted (grandNow.up (done.moved.now.trans link))
          rw [← above, link, Option.bind_some, get?_of_mem held, Option.map_some,
            Option.getD_some, ← (was.unique whole).2]
          exact was
    · rw [others clear]
      rw [others clear] at rooted
      exact ⟨count, short, rooted⟩

/-- A session that nothing is linked to can be taken out. -/
theorem Placed.retain (placed : Placed workspaces sessions)
    (leafless : ∀ other, parentOf sessions other ≠ some id) :
    Placed workspaces (sessions.retain fun row => decide (row.id ≠ id)) := by
  have links : ∀ other, other ≠ id →
      parentOf (sessions.retain fun row => decide (row.id ≠ id)) other = parentOf sessions other := by
    intro other differs
    unfold parentOf
    rw [get?_retain]
    cases found : sessions.get? other with
    | none => rfl
    | some row =>
      rw [Option.filter_some_pos]
      simpa [key_of_get? found] using differs
  refine ⟨fun row member => ?_, fun row member parent link => ?_, fun row member => ?_⟩
  · exact placed.housed row (Store.mem_retain.mp member).1
  · obtain ⟨there, _⟩ := Store.mem_retain.mp member
    obtain ⟨other, held, named, project⟩ := placed.parents row there parent link
    refine ⟨other, Store.mem_retain.mpr ⟨held, ?_⟩, named, project⟩
    rw [decide_eq_true_eq, named]
    rintro rfl
    exact leafless row.id ((parentOf_of_mem there).trans link)
  · obtain ⟨there, differs⟩ := Store.mem_retain.mp member
    obtain ⟨count, short, chain⟩ := placed.rooted row there
    exact ⟨count, short, chain.of_leaf leafless links (by simpa using differs)⟩

/-- Every session that is there was there before, in the same workspace. -/
def Kept (before after : Store Session.id) : Prop :=
  ∀ row ∈ after, ∃ old ∈ before, old.id = row.id ∧ old.workspaceId = row.workspaceId

theorem Kept.refl (sessions : Store Session.id) : Kept sessions sessions :=
  fun row member => ⟨row, member, rfl, rfl⟩

theorem Kept.trans {before middle after : Store Session.id} (first : Kept before middle)
    (second : Kept middle after) : Kept before after := by
  intro row member
  obtain ⟨between, there, ids, housed⟩ := second row member
  obtain ⟨old, held, ids', housed'⟩ := first between there
  exact ⟨old, held, ids'.trans ids, housed'.trans housed⟩

/-- What a deletion leaves: the graph as it is to be, with every change reported, and without the
sessions deleted. -/
structure Removed (workspaces : Store Workspace.id) (before after : Store Session.id)
    (updated : List Session) (gone : List SessionId) : Prop where
  placed : Placed workspaces after
  reports : Reports before after updated
  kept : Kept before after
  absent : ∀ row ∈ after, row.id ∉ gone

/-- The loop of `delete_session_locked`: when it ends nothing is linked to the session. -/
private theorem reparent_fold (order : Order) {before : Store Session.id}
    {grandparent newRoot : Option SessionId}
    {deleted : SessionId} {children : List SessionId} {updated : List Session}
    (placed : Placed workspaces sessions) (above : parentOf sessions deleted = grandparent)
    (rootOf : newRoot = grandparent.bind fun gp => (sessions.get? gp).map Session.rootSessionId)
    (distinct : children.Nodup) (links : ∀ id, id ∈ children ↔ parentOf sessions id = some deleted)
    (reports : Reports before sessions updated) (kept : Kept before sessions) :
    let state := children.foldl (reparent order grandparent newRoot) (sessions, updated)
    Placed workspaces state.1 ∧ (∀ id, parentOf state.1 id ≠ some deleted) ∧
      Reports before state.1 state.2 ∧ Kept before state.1 := by
  induction children generalizing sessions updated with
  | nil => exact ⟨placed, fun id link => absurd ((links id).mpr link) not_mem_nil, reports, kept⟩
  | cons cid rest ih =>
    obtain ⟨absent, distinct⟩ := nodup_cons.mp distinct
    have link := (links cid).mp mem_cons_self
    obtain ⟨done, reported⟩ := reparent_spec order newRoot placed link above reports
    rw [foldl_cons]
    generalize reparent order grandparent newRoot (sessions, updated) cid = next at done reported
    obtain ⟨after, updated'⟩ := next
    obtain ⟨child, childThere, childIs, childLink⟩ := parentOf_eq_some link
    obtain ⟨_, _, chain⟩ := placed.rooted child childThere
    rw [childIs] at chain
    obtain ⟨notAbove, notGrand⟩ := done.moved.clear chain
    have apart : deleted ≠ cid := by
      rintro rfl
      exact chain.acyclic ⟨0, .up link .here⟩
    have still : parentOf after deleted = grandparent := (done.moved.same deleted apart).trans above
    refine ih (Reparented.placed placed above rootOf done) still ?_ distinct (fun id => ?_) reported
      (kept.trans fun row member => ?_)
    · rw [rootOf]
      cases grandparent with
      | none => rfl
      | some grand =>
        obtain ⟨middle, middleThere, rfl, middleLink⟩ := parentOf_eq_some above
        obtain ⟨other, held, rfl, _⟩ := placed.parents middle middleThere grand middleLink
        obtain ⟨row, rowThere, ids, _⟩ := done.kept other held
        obtain ⟨old, oldThere, oldIs, _, _, _, same⟩ := done.rows row rowThere
        have clear := notGrand _ above
        rw [← ids] at clear
        have one : other = old := eq_of_key held oldThere (ids.symm.trans oldIs.symm)
        rw [same clear] at rowThere
        rw [Option.bind_some, Option.bind_some, one, get?_of_mem oldThere,
          get?_of_mem rowThere]
    · by_cases same : id = cid
      · subst same
        refine ⟨fun member => absurd member absent, fun linked => ?_⟩
        rw [done.moved.now, above, ← still] at linked
        obtain ⟨_, middleThere, middleIs, _⟩ := parentOf_eq_some linked
        obtain ⟨_, _, middleChain⟩ := (Reparented.placed placed above rootOf done).rooted _
          middleThere
        rw [middleIs] at middleChain
        exact absurd ⟨0, .up linked .here⟩ middleChain.acyclic
      · rw [done.moved.same id same, ← links id, mem_cons]
        exact ⟨.inr, fun either => either.resolve_left same⟩
    · obtain ⟨old, there, ids, housed, _⟩ := done.rows row member
      exact ⟨old, there, ids, housed⟩

theorem deleteSessionLocked_spec (order : Order) (inner : Inner) (id : SessionId)
    (placed : Placed inner.workspaces inner.sessions) :
    (deleteSessionLocked order inner id).1.workspaces = inner.workspaces ∧
      Removed inner.workspaces inner.sessions (deleteSessionLocked order inner id).1.sessions
        (deleteSessionLocked order inner id).2 [id] := by
  unfold deleteSessionLocked
  cases found : inner.sessions.get? id with
  | none =>
    refine ⟨rfl, placed, .refl _, .refl _, fun row member named => ?_⟩
    exact get?_eq_none.mp found row member (mem_singleton.mp named)
  | some session =>
    have above : parentOf inner.sessions id = session.parentSessionId := by
      rw [parentOf, found]
      rfl
    obtain ⟨placed, leafless, reports, kept⟩ := reparent_fold order placed above rfl
      (childrenByParent_nodup order inner.sessions id) (fun _ => mem_childrenByParent)
      (.refl inner.sessions) (.refl inner.sessions)
    refine ⟨rfl, placed.retain leafless, reports.retain _, fun row member => ?_, fun row member => ?_⟩
    · exact kept row (Store.mem_retain.mp member).1
    · rw [mem_singleton]
      simpa using (Store.mem_retain.mp member).2

theorem deleteSessions_spec (order : Order) (inner : Inner) (ids : List SessionId)
    (placed : Placed inner.workspaces inner.sessions) :
    (deleteSessions order inner ids).1.workspaces = inner.workspaces ∧
      Removed inner.workspaces inner.sessions (deleteSessions order inner ids).1.sessions
        (deleteSessions order inner ids).2 ids := by
  induction ids generalizing inner with
  | nil => exact ⟨rfl, placed, .refl _, .refl _, fun _ _ => not_mem_nil⟩
  | cons id rest ih =>
    obtain ⟨same, first⟩ := deleteSessionLocked_spec order inner id placed
    obtain ⟨same', later⟩ := ih (deleteSessionLocked order inner id).1
      (by rw [same]; exact first.placed)
    rw [same] at later same'
    refine ⟨same', later.placed, first.reports.trans later.reports, first.kept.trans later.kept,
      fun row member named => ?_⟩
    rcases mem_cons.mp named with named | named
    · obtain ⟨old, there, ids, _⟩ := later.kept row member
      exact first.absent old there (mem_singleton.mpr (ids.trans named))
    · exact later.absent row member named

theorem dropWorkspaceRows_spec (order : Order) (inner : Inner) (workspaceId : WorkspaceId)
    (placed : Placed inner.workspaces inner.sessions) :
    Placed (dropWorkspaceRows order inner workspaceId).1.workspaces
        (dropWorkspaceRows order inner workspaceId).1.sessions ∧
      Reports inner.sessions (dropWorkspaceRows order inner workspaceId).1.sessions
        (dropWorkspaceRows order inner workspaceId).2.2 := by
  unfold dropWorkspaceRows
  generalize idsAre : ((order.list inner.sessions.rows).filter fun session =>
    session.workspaceId = workspaceId).map Session.id = ids
  obtain ⟨same, removed⟩ := deleteSessions_spec order inner ids placed
  refine ⟨?_, removed.reports.filter removed.absent⟩
  have elsewhere : ∀ row ∈ (deleteSessions order inner ids).1.sessions,
      row.workspaceId ≠ workspaceId := by
    intro row member here
    obtain ⟨old, there, named, housed⟩ := removed.kept row member
    refine removed.absent row member ?_
    rw [← idsAre, List.mem_map]
    refine ⟨old, mem_filter.mpr ⟨(order.perm _).mem_iff.mpr there, ?_⟩, named⟩
    simpa using housed.trans here
  have projects : ∀ other, other ≠ workspaceId →
      projectOf (inner.workspaces.retain fun row => decide (row.id ≠ workspaceId)) other =
        projectOf inner.workspaces other := by
    intro other differs
    unfold projectOf
    rw [get?_retain]
    cases found : inner.workspaces.get? other with
    | none => rfl
    | some row =>
      rw [Option.filter_some_pos]
      simpa [key_of_get? found] using differs
  dsimp only
  rw [same]
  refine ⟨fun row member => ?_, fun row member parent link => ?_, removed.placed.rooted⟩
  · rw [projects _ (elsewhere row member)]
    exact removed.placed.housed row member
  · obtain ⟨other, held, named, project⟩ := removed.placed.parents row member parent link
    exact ⟨other, held, named, by
      rw [projects _ (elsewhere other held), projects _ (elsewhere row member), project]⟩

/-- Where the walk of a placement ends, the chain is within the room there was. -/
private theorem climb_ok {room : Nat} {seen : List SessionId} {count : Nat} {root : SessionId}
    (ok : climb sessions room seen (some id) = .ok ())
    (chain : Rooted (parentOf sessions) id count root) : count < room := by
  induction room generalizing id seen count with
  | zero =>
    unfold climb at ok
    split at ok <;> cases ok
  | succ room ih =>
    unfold climb at ok
    split at ok
    · cases ok
    · obtain ⟨path, top⟩ := chain
      cases path with
      | here => exact Nat.succ_pos _
      | up link rest =>
        dsimp only at ok
        rw [link] at ok
        exact Nat.succ_lt_succ (ih ok ⟨rest, top⟩)

/-- What a placement promises: none, or a session of the same project with room for one more below
it. -/
theorem graphPlacement_ok {parent parentId rootId : Option SessionId}
    (placed : Placed inner.workspaces inner.sessions)
    (ok : graphPlacement inner parent workspaceId = .ok (parentId, rootId)) :
    parentId = none ∧ rootId = none ∨ ∃ other ∈ inner.sessions, parentId = some other.id ∧
      rootId = some other.rootSessionId ∧
      projectOf inner.workspaces other.workspaceId = projectOf inner.workspaces workspaceId ∧
      ∃ count, count + 1 < maxGraphDepth ∧
        Rooted (parentOf inner.sessions) other.id count other.rootSessionId := by
  unfold graphPlacement at ok
  cases parent with
  | none =>
    obtain ⟨rfl, rfl⟩ := Prod.mk.inj (Except.ok.inj ok)
    exact .inl ⟨rfl, rfl⟩
  | some parent =>
    right
    dsimp only at ok
    cases found : inner.sessions.get? parent with
    | none =>
      rw [found] at ok
      cases ok
    | some other =>
      obtain ⟨member, rfl⟩ := get?_eq_some.mp found
      rw [found] at ok
      dsimp only at ok
      split at ok
      · cases ok
      · rename_i shared
        rw [not_or, not_not] at shared
        cases climbed : climb inner.sessions (maxGraphDepth - 1) [] (some other.id) with
        | error error =>
          rw [climbed] at ok
          cases ok
        | ok =>
          rw [climbed] at ok
          obtain ⟨rfl, rfl⟩ := Prod.mk.inj (Except.ok.inj ok)
          obtain ⟨count, _, chain⟩ := placed.rooted other member
          have room := climb_ok climbed chain
          exact ⟨other, member, rfl, rfl, shared.2.symm, count, Nat.add_lt_of_lt_sub room, chain⟩

theorem createSession_placed {kind : SessionKind} {next : Inner}
    {parent : Option SessionId} (placed : Placed inner.workspaces inner.sessions)
    (fresh : inner.sessions.get? id = none)
    (created : createSession id workspaceId kind parent inner = .ok next) :
    Placed next.workspaces next.sessions := by
  unfold createSession at created
  cases found : inner.workspaces.get? workspaceId with
  | none =>
    rw [found] at created
    cases created
  | some workspace =>
    rw [found] at created
    cases placement : graphPlacement inner parent workspaceId with
    | error error =>
      rw [placement] at created
      cases created
    | ok place =>
      obtain ⟨parentId, rootId⟩ := place
      rw [placement] at created
      rw [← Except.ok.inj created]
      have named := key_of_get? found
      dsimp only
      generalize rowIs : (⟨id, workspace.id, kind, parentId, rootId.getD id, none, .starting⟩ :
        Session) = row
      have rowId : row.id = id := by rw [← rowIs]
      have rowParent : row.parentSessionId = parentId := by rw [← rowIs]
      have rowRoot : row.rootSessionId = rootId.getD id := by rw [← rowIs]
      have rowHome : row.workspaceId = workspaceId := by rw [← rowIs, ← named]
      have absent := get?_eq_none.mp fresh
      have links : ∀ other, other ≠ id →
          parentOf (inner.sessions.put row) other = parentOf inner.sessions other :=
          fun other differs => by
        rw [parentOf, get?_put, if_neg fun same => differs (same.symm.trans rowId)]
        rfl
      have here : parentOf (inner.sessions.put row) id = parentId := by
        rw [parentOf, get?_put, if_pos rowId, ← rowParent]
        rfl
      have leafless : ∀ other, parentOf inner.sessions other ≠ some id := fun other link => by
        obtain ⟨session, there, _, linked⟩ := parentOf_eq_some link
        obtain ⟨_, held, named, _⟩ := placed.parents session there id linked
        exact absent _ held named
      have kept : ∀ other ∈ inner.sessions, other ∈ inner.sessions.put row := fun other held =>
        mem_put.mpr (.inr ⟨held, by rw [rowId]; exact absent other held⟩)
      refine ⟨fun other member => ?_, fun other member above link => ?_, fun other member => ?_⟩ <;>
        rcases mem_put.mp member with rfl | ⟨there, _⟩
      · rw [rowHome, projectOf, found]
        exact ⟨_, rfl⟩
      · exact placed.housed other there
      · rw [rowParent] at link
        rcases graphPlacement_ok placed placement with ⟨none_, _⟩ | ⟨session, held, some_,
          _, project, _⟩
        · rw [link] at none_
          cases none_
        · rw [link] at some_
          exact ⟨session, kept session held, (Option.some.inj some_).symm, project.trans
            (by rw [rowHome])⟩
      · obtain ⟨session, held, named, project⟩ := placed.parents other there above link
        exact ⟨session, kept session held, named, project⟩
      · rw [rowId, rowRoot]
        rcases graphPlacement_ok placed placement with ⟨none_, noRoot⟩ | ⟨session, held, some_,
          root, _, count, room, chain⟩
        · rw [none_] at here
          rw [noRoot]
          exact ⟨0, by decide, .here, here⟩
        · rw [some_] at here
          rw [root, Option.getD_some]
          exact ⟨count + 1, room, (chain.of_leaf leafless links (absent session held)).up here⟩
      · obtain ⟨count, short, chain⟩ := placed.rooted other there
        exact ⟨count, short, chain.of_leaf leafless links (absent other there)⟩

/-- A change of a session that leaves its place alone. -/
theorem Placed.put (placed : Placed workspaces sessions) {old row : Session}
    (there : old ∈ sessions) (same : row.id = old.id ∧ row.workspaceId = old.workspaceId ∧
      row.parentSessionId = old.parentSessionId ∧ row.rootSessionId = old.rootSessionId) :
    Placed workspaces (sessions.put row) := by
  obtain ⟨ids, home, parent, root⟩ := same
  have links : parentOf (sessions.put row) = parentOf sessions := by
    funext other
    rw [parentOf, get?_put]
    split
    · rename_i named
      rw [parentOf, ← named, ids, get?_of_mem there]
      exact parent
    · rfl
  have back : ∀ other ∈ sessions.put row, ∃ was ∈ sessions, other.id = was.id ∧
      other.workspaceId = was.workspaceId ∧ other.parentSessionId = was.parentSessionId ∧
      other.rootSessionId = was.rootSessionId := fun other member => by
    rcases mem_put.mp member with rfl | ⟨held, _⟩
    · exact ⟨old, there, ids, home, parent, root⟩
    · exact ⟨other, held, rfl, rfl, rfl, rfl⟩
  refine ⟨fun other member => ?_, fun other member above link => ?_, fun other member => ?_⟩ <;>
    obtain ⟨was, held, ids', home', parent', root'⟩ := back other member
  · rw [home']
    exact placed.housed was held
  · rw [parent'] at link
    obtain ⟨session, present, named, project⟩ := placed.parents was held above link
    by_cases same : session.id = row.id
    · have one : session = old := eq_of_key present there (same.trans ids)
      exact ⟨row, mem_put.mpr (.inl rfl), same.symm.trans
        named, by rw [home, ← one, project, home']⟩
    · exact ⟨session, mem_put.mpr (.inr ⟨present, same⟩), named, by rw [project, home']⟩
  · obtain ⟨count, short, chain⟩ := placed.rooted was held
    rw [links, ids', root']
    exact ⟨count, short, chain⟩

theorem setSessionState_placed {next : SessionState} {terminalId : Option TerminalId}
    (placed : Placed inner.workspaces inner.sessions) :
    Placed (setSessionState id next terminalId inner).workspaces
      (setSessionState id next terminalId inner).sessions := by
  unfold setSessionState
  split
  · exact placed
  · rename_i session found
    split
    · exact placed.put (mem_of_get? found) ⟨rfl, rfl, rfl, rfl⟩
    · exact placed

theorem closeSession_ok {closed : Inner × List Session}
    (ok : closeSession order id inner = .ok closed) :
    closed = deleteSessionLocked order inner id := by
  unfold closeSession at ok
  split at ok
  · cases ok
  · split at ok
    · cases ok
    · exact (Except.ok.inj ok).symm

theorem killAndCloseSession_ok {closed : Inner × List Session}
    (ok : killAndCloseSession order id inner = .ok closed) :
    closed = deleteSessionLocked order inner id := by
  unfold killAndCloseSession at ok
  split at ok
  · cases ok
  · exact (Except.ok.inj ok).symm

/-- Every call keeps the graph as it is to be. -/
theorem step_placed {before after : Inner} {event : Event} (taken : step before event after)
    (placed : Placed before.workspaces before.sessions) :
    Placed after.workspaces after.sessions := by
  obtain ⟨rfl, fresh⟩ := taken
  have closed (order : Order) (id : SessionId) :
      Placed (deleteSessionLocked order before id).1.workspaces
        (deleteSessionLocked order before id).1.sessions := by
    obtain ⟨same, removed⟩ := deleteSessionLocked_spec order before id placed
    exact same ▸ removed.placed
  cases event with
  | createSession id workspaceId kind parent =>
    cases created : createSession id workspaceId kind parent before with
    | error => simpa [apply, created, Except.toOption] using placed
    | ok next =>
      simpa [apply, created, Except.toOption] using
        createSession_placed placed (fresh id workspaceId kind parent rfl) created
  | setSessionState id next terminalId => exact setSessionState_placed placed
  | closeSession order id =>
    cases ended : closeSession order id before with
    | error => simpa [apply, ended, Except.toOption] using placed
    | ok ending => simpa [apply, ended, closeSession_ok ended, Except.toOption] using closed order id
  | killAndCloseSession order id =>
    cases ended : killAndCloseSession order id before with
    | error => simpa [apply, ended, Except.toOption] using placed
    | ok ending =>
      simpa [apply, ended, killAndCloseSession_ok ended, Except.toOption] using closed order id
  | dropWorkspace order workspaceId =>
    exact (dropWorkspaceRows_spec order before workspaceId placed).1

end Placed

section Law

/-- A daemon with workspaces and no session yet. -/
def Inner.start (workspaces : Store Workspace.id) : Inner := ⟨.empty, workspaces⟩

/-- In every state that creations, closes and workspace drops lead to: a parent is a session of the
same project, no chain is cyclic or longer than the limit, and a root is the session at the end of
its chain; and a close or a drop there reports every surviving session it changed, as it is at the
end. -/
theorem session_graph {workspaces : Store Workspace.id} {inner : Inner}
    {steps : List (Taken Inner Event)} (run : Run step (Inner.start workspaces) steps inner) :
    (∀ row ∈ inner.sessions, ∀ parent, row.parentSessionId = some parent →
      ∃ other ∈ inner.sessions, other.id = parent ∧ ∃ project,
        projectOf inner.workspaces other.workspaceId = some project ∧
        projectOf inner.workspaces row.workspaceId = some project) ∧
    (∀ row ∈ inner.sessions, ¬ ∃ count, Path (parentOf inner.sessions) row.id (count + 1) row.id) ∧
    (∀ row ∈ inner.sessions, ∀ count top, Path (parentOf inner.sessions) row.id count top →
      count + 1 ≤ maxGraphDepth) ∧
    (∀ row ∈ inner.sessions, ∃ other ∈ inner.sessions, other.id = row.rootSessionId ∧
      other.parentSessionId = none ∧ ∃ count, Path (parentOf inner.sessions)
      row.id count other.id) ∧
    (∀ order id, Reports inner.sessions (deleteSessionLocked order inner id).1.sessions
      (deleteSessionLocked order inner id).2) ∧
    ∀ order workspaceId, Reports inner.sessions
    (dropWorkspaceRows order inner workspaceId).1.sessions
      (dropWorkspaceRows order inner workspaceId).2.2 := by
  have none_ : Placed workspaces (Inner.start workspaces).sessions :=
    ⟨fun _ member => absurd member (not_mem_empty _), fun _ member =>
    absurd member (not_mem_empty _),
      fun _ member => absurd member (not_mem_empty _)⟩
  have placed := (run.invariant (fun inner => Placed inner.workspaces inner.sessions) step_placed
    none_).1
  refine ⟨fun row member parent link => ?_, fun row member => ?_, fun row member count top path => ?_,
    fun row member => ?_, fun order id => (deleteSessionLocked_spec order inner id placed).2.reports,
    fun order workspaceId => (dropWorkspaceRows_spec order inner workspaceId placed).2⟩
  · obtain ⟨other, held, named, project⟩ := placed.parents row member parent link
    obtain ⟨shared, known⟩ := placed.housed row member
    exact ⟨other, held, named, shared, project.trans known, known⟩
  · obtain ⟨_, _, chain⟩ := placed.rooted row member
    exact chain.acyclic
  · obtain ⟨_, short, chain⟩ := placed.rooted row member
    exact Nat.lt_of_le_of_lt (chain.rest path).1 short
  · obtain ⟨count, _, path, top⟩ := placed.rooted row member
    obtain ⟨other, held, named⟩ : ∃ other ∈ inner.sessions, other.id = row.rootSessionId := by
      cases count with
      | zero =>
        generalize rootIs : row.rootSessionId = root at path
        cases path
        exact ⟨row, member, rfl⟩
      | succ count =>
        obtain ⟨child, _, link⟩ := path.last
        obtain ⟨session, there, _, linked⟩ := parentOf_eq_some link
        obtain ⟨other, held, named, _⟩ := placed.parents session there _ linked
        exact ⟨other, held, named⟩
    rw [← named] at path top
    exact ⟨other, held, named, (parentOf_of_mem held).symm.trans top, count, path⟩

/-- One workspace, a session in it and another below. -/
private def workshop : Inner :=
  apply (apply (.start ⟨[⟨7, 1⟩], nodup_singleton _⟩) (.createSession 1 7 .shell none))
    (.createSession 2 7 .agent (some 1))

private theorem created_step {id : SessionId}
    {kind : SessionKind} {parent : Option SessionId} (fresh : inner.sessions.get? id = none) :
    step inner (.createSession id workspaceId kind parent)
      (apply inner (.createSession id workspaceId kind parent)) := by
  refine ⟨rfl, fun _ _ _ _ same => ?_⟩
  cases same
  exact fresh

/-- The lower one has the upper one as its root. -/
theorem session_graph_pair : workshop.sessions.rows.map Session.rootSessionId = [1, 1] ∧
    ∀ row ∈ workshop.sessions, ∃ other ∈ workshop.sessions, other.id = row.rootSessionId ∧
      other.parentSessionId = none ∧ ∃ count, Path (parentOf workshop.sessions)
      row.id count other.id :=
  ⟨by decide +kernel, (session_graph (.cons (created_step (by decide +kernel))
    (.cons (created_step (by decide +kernel)) .nil))).2.2.2.1⟩

end Law

end ForgeNode.Sessions
