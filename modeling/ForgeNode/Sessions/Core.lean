import ForgeNode.Lib.Run
import ForgeNode.Lib.Store
import ForgeNode.Orchestration.Tables

/-! The daemon's sessions: where a new one is placed in the graph, how a closed one leaves it, and
the calls that do so, each in one critical section. -/

namespace ForgeNode.Sessions

open Orchestration (ProjectId WorkspaceId SessionId SessionState ProtocolError)

abbrev TerminalId := Nat

/-- `root` is depth 1. -/
def maxGraphDepth : Nat := 8

inductive SessionKind where
  | shell | agent | editor | task
  deriving DecidableEq

structure Session where
  id : SessionId
  workspaceId : WorkspaceId
  kind : SessionKind
  parentSessionId : Option SessionId
  rootSessionId : SessionId
  terminalId : Option TerminalId
  state : SessionState
  deriving DecidableEq

structure Workspace where
  id : WorkspaceId
  projectId : ProjectId
  deriving DecidableEq

structure Inner where
  sessions : Store Session.id
  workspaces : Store Workspace.id
  deriving DecidableEq

def SessionState.isActive : SessionState → Bool
  | .starting | .running => true
  | _ => false

/-- The order in which a hash map yields its values. -/
structure Order where
  list : List Session → List Session
  perm : ∀ rows, (list rows).Perm rows

section Graph

/-- The parent link of a session that is there. -/
def parentOf (sessions : Store Session.id) (id : SessionId) : Option SessionId :=
  (sessions.get? id).bind Session.parentSessionId

def projectOf (workspaces : Store Workspace.id) (id : WorkspaceId) : Option ProjectId :=
  (workspaces.get? id).map Workspace.projectId

/-- The upward walk of `graph_placement`, with how many sessions more the limit leaves room for. -/
def climb (sessions : Store Session.id) (room : Nat) (seen : List SessionId) :
    Option SessionId → Except ProtocolError PUnit
  | none => .ok ()
  | some id =>
    if id ∈ seen then .error (.invalidRequest "cycle in session graph")
    else match room with
      | 0 => .error (.invalidRequest "session graph too deep")
      | room + 1 => climb sessions room (id :: seen) (parentOf sessions id)

/-- ADR-010: no cycle, depth ≤ 8, same project. -/
def graphPlacement (inner : Inner) (parent : Option SessionId) (workspaceId : WorkspaceId) :
    Except ProtocolError (Option SessionId × Option SessionId) :=
  match parent with
  | none => .ok (none, none)
  | some parentId =>
    match inner.sessions.get? parentId with
    | none => .error (.notFound "parent session")
    | some parent =>
      let childProject := projectOf inner.workspaces workspaceId
      if childProject = none ∨ childProject ≠ projectOf inner.workspaces parent.workspaceId then
        .error (.invalidRequest "child must be in the same project as its parent")
      else do
        climb inner.sessions (maxGraphDepth - 1) [] (some parentId)
        return (some parentId, some parent.rootSessionId)

/-- `children_by_parent`: the sessions linked to one, in the order of the map. -/
def childrenByParent (order : Order) (sessions : Store Session.id) (parent : SessionId) :
    List SessionId :=
  ((order.list sessions.rows).filter fun session => session.parentSessionId = some parent).map
    Session.id

/-- The loop of `rewrite_subtree_root`, with the top of the stack first. -/
def walk (children : SessionId → List SessionId) (root : SessionId) :
    Nat → List SessionId → List SessionId → Store Session.id → List Session →
      Store Session.id × List Session
  | 0, _, _, sessions, updated => (sessions, updated)
  | _ + 1, [], _, sessions, updated => (sessions, updated)
  | fuel + 1, id :: stack, seen, sessions, updated =>
    if id ∈ seen then walk children root fuel stack seen sessions updated
    else
      let stack := (children id).reverse ++ stack
      match sessions.get? id with
      | none => walk children root fuel stack (id :: seen) sessions updated
      | some session =>
        if session.rootSessionId = root then
          walk children root fuel stack (id :: seen) sessions updated
        else
          let session := { session with rootSessionId := root }
          walk children root fuel stack (id :: seen) (sessions.put session) (updated ++ [session])

def rewriteSubtreeRoot (order : Order) (sessions : Store Session.id) (from_ root : SessionId) :
    Store Session.id × List Session :=
  let children := childrenByParent order sessions
  walk children root (sessions.rows.length * (sessions.rows.length + 1)) (children from_).reverse
    [from_] sessions []

/-- One round of the loop of `delete_session_locked`, for the child `cid`. -/
def reparent (order : Order) (grandparent newRoot : Option SessionId)
    (state : Store Session.id × List Session) (cid : SessionId) : Store Session.id × List Session :=
  match state.1.get? cid with
  | none => state
  | some child =>
    let root := newRoot.getD cid
    let child := { child with parentSessionId := grandparent, rootSessionId := root }
    let (sessions, rewritten) := rewriteSubtreeRoot order (state.1.put child) cid root
    (sessions, state.2 ++ child :: rewritten)

/-- Re-parent children (ADR-010) before deleting. -/
def deleteSessionLocked (order : Order) (inner : Inner) (sessionId : SessionId) :
    Inner × List Session :=
  match inner.sessions.get? sessionId with
  | none => (inner, [])
  | some session =>
    let grandparent := session.parentSessionId
    let newRoot := grandparent.bind fun gp => (inner.sessions.get? gp).map Session.rootSessionId
    let (sessions, updated) := (childrenByParent order inner.sessions sessionId).foldl
      (reparent order grandparent newRoot) (inner.sessions, [])
    ({ inner with sessions := sessions.retain fun row => decide (row.id ≠ sessionId) }, updated)

/-- The loop of `drop_workspace_rows`. -/
def deleteSessions (order : Order) (inner : Inner) : List SessionId → Inner × List Session
  | [] => (inner, [])
  | id :: rest =>
    let (inner, updated) := deleteSessionLocked order inner id
    let (inner, more) := deleteSessions order inner rest
    (inner, updated ++ more)

/-- The sessions removed and the sessions re-parented. -/
def dropWorkspaceRows (order : Order) (inner : Inner) (workspaceId : WorkspaceId) :
    Inner × List SessionId × List Session :=
  let sessionIds := ((order.list inner.sessions.rows).filter fun session =>
    session.workspaceId = workspaceId).map Session.id
  let (inner, updated) := deleteSessions order inner sessionIds
  ({ inner with workspaces := inner.workspaces.retain fun row => decide (row.id ≠ workspaceId) },
    sessionIds, updated.filter fun session => decide (session.id ∉ sessionIds))

end Graph

section Calls

/-- The row that a session is created with, under an identifier nobody had. -/
def createSession (id : SessionId) (workspaceId : WorkspaceId) (kind : SessionKind)
    (parent : Option SessionId) (inner : Inner) : Except ProtocolError Inner :=
  match inner.workspaces.get? workspaceId with
  | none => .error (.notFound "workspace")
  | some workspace => do
    let (parentId, rootId) ← graphPlacement inner parent workspaceId
    return { inner with
      sessions := inner.sessions.put
        { id, workspaceId := workspace.id, kind, parentSessionId := parentId
          rootSessionId := rootId.getD id, terminalId := none, state := .starting } }

/-- Invalid transitions are races (EOF after `Failed`); keep the current state. -/
def setSessionState (id : SessionId) (next : SessionState) (terminalId : Option TerminalId)
    (inner : Inner) : Inner :=
  match inner.sessions.get? id with
  | none => inner
  | some session =>
    if session.state.canTransitionTo next then
      { inner with sessions := inner.sessions.put { session with state := next, terminalId } }
    else inner

def closeSession (order : Order) (id : SessionId) (inner : Inner) :
    Except ProtocolError (Inner × List Session) :=
  match inner.sessions.get? id with
  | none => .error (.notFound "session")
  | some session =>
    if SessionState.isActive session.state then
      .error (.new .preconditionFailed "session is active; kill it before closing")
    else .ok (deleteSessionLocked order inner id)

/-- The process group is stopped before; the row goes directly. -/
def killAndCloseSession (order : Order) (id : SessionId) (inner : Inner) :
    Except ProtocolError (Inner × List Session) :=
  match inner.sessions.get? id with
  | none => .error (.notFound "session")
  | some _ => .ok (deleteSessionLocked order inner id)

inductive Event where
  | createSession (id : SessionId) (workspaceId : WorkspaceId) (kind : SessionKind)
      (parent : Option SessionId)
  | setSessionState (id : SessionId) (next : SessionState) (terminalId : Option TerminalId)
  | closeSession (order : Order) (id : SessionId)
  | killAndCloseSession (order : Order) (id : SessionId)
  | dropWorkspace (order : Order) (workspaceId : WorkspaceId)

/-- A refused call leaves the daemon as it is. -/
def apply (inner : Inner) : Event → Inner
  | .createSession id workspaceId kind parent =>
    (createSession id workspaceId kind parent inner).toOption.getD inner
  | .setSessionState id next terminalId => setSessionState id next terminalId inner
  | .closeSession order id => ((closeSession order id inner).toOption.map Prod.fst).getD inner
  | .killAndCloseSession order id =>
    ((killAndCloseSession order id inner).toOption.map Prod.fst).getD inner
  | .dropWorkspace order workspaceId => (dropWorkspaceRows order inner workspaceId).1

/-- A call returns; the identifiers of new sessions are new. -/
def step (before : Inner) (event : Event) (after : Inner) : Prop :=
  after = apply before event ∧ ∀ id workspaceId kind parent,
    event = .createSession id workspaceId kind parent → before.sessions.get? id = none

end Calls

end ForgeNode.Sessions
