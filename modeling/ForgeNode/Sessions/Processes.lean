import ForgeNode.Sessions.Core

/-! The sessions and their processes: spawns, the editor's handshake, kills and the end of a PTY,
each split at its critical sections. -/

namespace ForgeNode.Sessions

open Store

open Orchestration (WorkspaceId SessionId SessionState)

/-- What `terminals` holds of a process: its own name and the session it belongs to. -/
structure Terminal where
  id : TerminalId
  sessionId : SessionId
  deriving DecidableEq

/-- Where a call stands between two critical sections. -/
inductive Call where
  | idle
  -- `await_dependencies` and `launch_queued`
  | waiting (id : SessionId)
  | launching (id : SessionId)
  -- `spawn_terminal`, while the process is started
  | spawning (id : SessionId) (runToRunning : Bool)
  -- `serve`, up to the editor's handshake and after it
  | supervising (id : SessionId)
  | opened (id : SessionId)
  -- `mark_session_failed`
  | failing (id : SessionId)
  | killing (id : SessionId)
  -- `on_terminal_exited`, before each of its sections
  | ended (terminal : TerminalId)
  | reaping (id : SessionId) (terminal : TerminalId)
  | finished
  deriving DecidableEq

structure Daemon where
  inner : Inner
  terminals : Store Terminal.id
  -- Is the session's action waiting for its dependencies?
  queued : SessionId → Bool
  -- How many identifiers `TerminalId::new` has given out.
  minted : Nat
  calls : Nat → Call

/-- What decides a call's next section besides the daemon: that the process, the handshake or the
dependencies fail, or that the dependencies are still awaited. -/
inductive Choice where
  | go | fail | wait
  deriving DecidableEq

/-- What a call is for. `queued` says whether the action has dependencies, `stored` whether the row
can be written once the session is starting again. -/
inductive Task where
  | create (id : SessionId) (workspaceId : WorkspaceId) (kind : SessionKind)
      (parent : Option SessionId) (queued : Bool)
  | restart (id : SessionId) (queued stored : Bool)
  | failRestart (id : SessionId)
  | fail (id : SessionId)
  | kill (id : SessionId)
  | exit (terminal : TerminalId)

namespace Daemon

def row (daemon : Daemon) (id : SessionId) : Option Session := daemon.inner.sessions.get? id

/-- A call goes on. -/
def put (daemon : Daemon) (k : Nat) (call : Call) : Daemon :=
  { daemon with calls := fun j => if j = k then call else daemon.calls j }

def setSessionState (daemon : Daemon) (id : SessionId) (next : SessionState)
    (terminalId : Option TerminalId) : Daemon :=
  { daemon with inner := Sessions.setSessionState id next terminalId daemon.inner }

def setQueued (daemon : Daemon) (id : SessionId) (queued : Bool) : Daemon :=
  { daemon with queued := fun other => if other = id then queued else daemon.queued other }

/-- The commit of `spawn_terminal`: an editor's session only gets the terminal's name. `none` is a
session that was stopped meanwhile; its process is killed and reaped there. -/
def commit (daemon : Daemon) (id : SessionId) (runToRunning : Bool) : Option Daemon :=
  let terminalId := daemon.minted
  (daemon.row id).bind fun session =>
    let spawned := { daemon with
      terminals := daemon.terminals.put ⟨terminalId, id⟩
      minted := daemon.minted + 1 }
    if runToRunning then
      if session.state.canTransitionTo .running then
        some (spawned.setSessionState id .running (some terminalId))
      else none
    else some { spawned with
      inner := { daemon.inner with
        sessions := daemon.inner.sessions.put { session with terminalId := some terminalId } } }

/-- The next section of a call. -/
def advance (daemon : Daemon) (k : Nat) (choice : Choice) : Daemon :=
  match daemon.calls k with
  | .idle | .finished => daemon
  | .waiting id =>
    if (daemon.row id).any fun session => session.state = .starting ∧ daemon.queued id then
      match choice with
      | .go => daemon.put k (.launching id)
      | .fail => daemon.put k (.failing id)
      | .wait => daemon
    else daemon.put k .finished
  | .launching id =>
    match choice with
    | .fail => daemon.put k (.failing id)
    | _ =>
      if (daemon.row id).any fun session => session.state = .starting then
        (daemon.setQueued id false).put k (.spawning id true)
      else daemon.put k .finished
  | .spawning id runToRunning =>
    match choice with
    | .fail => daemon.put k (.failing id)
    | _ =>
      match daemon.commit id runToRunning with
      | none => daemon.put k (.failing id)
      | some after => after.put k (if runToRunning then .finished else .supervising id)
  | .supervising id =>
    match choice with
    | .fail => daemon.put k (.failing id)
    | _ => daemon.put k (.opened id)
  | .opened id =>
    -- `set_editor_running` keeps the name of the terminal, whatever became of it.
    (daemon.setSessionState id .running ((daemon.row id).bind Session.terminalId)).put k .finished
  | .failing id => (daemon.setSessionState id .failed none).put k .finished
  | .killing id =>
    if (daemon.row id).any fun session =>
        session.terminalId = none ∧ session.kind = .task ∧ session.state = .starting then
      daemon.put k (.failing id)
    else daemon.put k .finished
  | .ended terminal =>
    match daemon.terminals.get? terminal with
    | none => daemon.put k .finished
    | some runtime =>
      { daemon with terminals := daemon.terminals.retain fun row => decide (row.id ≠ terminal) }.put k
        (.reaping runtime.sessionId terminal)
  | .reaping id _ => (daemon.setSessionState id .exited none).put k .finished

/-- The first section of a call. -/
def enter (daemon : Daemon) (k : Nat) : Task → Daemon
  | .create id workspaceId kind parent queued =>
    match createSession id workspaceId kind parent daemon.inner with
    | .error _ => daemon.put k .finished
    | .ok inner =>
      let queued := queued && decide (kind = .task)
      ({ daemon with inner }.setQueued id queued).put k
        (if queued then .waiting id else .spawning id (decide (kind ≠ SessionKind.editor)))
  | .restart id queued stored =>
    match daemon.row id with
    | none => daemon.put k .finished
    | some session =>
      -- A live task is killed first, and restarted by a thread of its own once it has exited.
      if session.kind = .editor ∨ session.state.isTerminal = false then daemon.put k .finished
      else
        let queued := queued && decide (session.kind = .task)
        ((daemon.setSessionState id .starting none).setQueued id queued).put k
          (if queued then .waiting id else if stored then .spawning id true else .finished)
  | .failRestart id =>
    if (daemon.row id).any fun session => session.state = .exited then
      ((daemon.setSessionState id .starting none).setSessionState id .failed none).put k .finished
    else daemon.put k .finished
  | .fail id => daemon.put k (.failing id)
  | .kill id => daemon.put k (.killing id)
  | .exit terminal => daemon.put k (.ended terminal)

end Daemon

inductive Move where
  | start (k : Nat) (task : Task)
  | advance (k : Nat) (choice : Choice)

def Daemon.apply (daemon : Daemon) : Move → Daemon
  | .start k task => if daemon.calls k = .idle then daemon.enter k task else daemon
  | .advance k choice => daemon.advance k choice

/-- A section of a call; the identifiers of new sessions are new. -/
def Daemon.step (before : Daemon) (move : Move) (after : Daemon) : Prop :=
  after = before.apply move ∧ ∀ k id workspaceId kind parent queued,
    move = .start k (.create id workspaceId kind parent queued) → before.row id = none

/-- Sessions of an earlier daemon, none of which has a process. -/
def Daemon.Fresh (daemon : Daemon) : Prop :=
  (∀ row ∈ daemon.inner.sessions, row.state.isTerminal = true) ∧ daemon.terminals = .empty ∧
    ∀ k, daemon.calls k = .idle

/-- A process of a session that is in `terminals`, or whose exit is being reported. -/
def Daemon.holds (daemon : Daemon) (id : SessionId) (terminal : TerminalId) : Prop :=
  daemon.terminals.get? terminal = some ⟨terminal, id⟩ ∨ ∃ k, daemon.calls k = .reaping id terminal

def Call.isFinished : Call → Bool
  | .idle | .finished => true
  | _ => false

/-- Once all calls have finished no session is starting, and each running one names a terminal that
belongs to it. -/
def Daemon.Agreed (daemon : Daemon) : Prop :=
  ∀ row ∈ daemon.inner.sessions, row.state ≠ .starting ∧
    (row.state = .running → ∃ terminal ∈ daemon.terminals,
      row.terminalId = some terminal.id ∧ terminal.sessionId = row.id)

/-- At most one process belongs to a running session. -/
def Daemon.Single (daemon : Daemon) : Prop :=
  ∀ row ∈ daemon.inner.sessions, row.state = .running → ∀ first ∈ daemon.terminals,
    ∀ second ∈ daemon.terminals, first.sessionId = row.id → second.sessionId = row.id → first = second

/-- The handshake of an editor completes while its terminal is there or its exit is still to be
reported, and a restart can write its row. -/
def Daemon.InTime (taken : Taken Daemon Move) : Prop :=
  match taken.event with
  | .start _ (.restart id queued stored) => ∀ session ∈ taken.before.row id, session.kind ≠ .editor →
      session.state.isTerminal = true → queued = true ∧ session.kind = .task ∨ stored = true
  | .start _ _ => True
  | .advance k _ => ∀ id terminal, taken.before.calls k = .opened id →
      (∃ row ∈ taken.before.row id, row.state = .starting ∧ row.terminalId = some terminal) →
      taken.before.holds id terminal

namespace Call

/-- The session, never an editor's, that a call is going to start a process for. -/
def launches : Call → Option SessionId
  | .waiting id | .launching id | .spawning id true => some id
  | _ => none

/-- The editor's session that a call serves. -/
def edits : Call → Option SessionId
  | .spawning id false | .supervising id | .opened id => some id
  | _ => none

/-- Is this call going to move the session on, if it is starting? -/
def moves (queued : SessionId → Bool) (id : SessionId) : Call → Bool
  | .waiting other => decide (other = id) && queued id
  | .launching other | .spawning other _ | .supervising other | .opened other | .failing other =>
    decide (other = id)
  | _ => false

end Call

/-- What holds between the sessions, the processes and the calls, at every moment. -/
structure Sound (daemon : Daemon) : Prop where
  minted : ∀ id terminal, daemon.holds id terminal → terminal < daemon.minted
  one : ∀ id first second, daemon.holds id first → daemon.holds id second → first = second
  known : ∀ id terminal, daemon.holds id terminal → ∃ session, daemon.row id = some session ∧
    (session.kind = .editor ∨ session.state = .running ∧ session.terminalId = some terminal)
  named : ∀ id session, daemon.row id = some session → session.state = .running →
    ∃ terminal, session.terminalId = some terminal ∧ daemon.holds id terminal
  reaped : ∀ j k id other terminal, daemon.calls j = .reaping id terminal →
    daemon.calls k = .reaping other terminal → j = k
  removed : ∀ k id terminal, daemon.calls k = .reaping id terminal →
    daemon.terminals.get? terminal = none
  plain : ∀ k id, (daemon.calls k).launches = some id →
    ∃ session, daemon.row id = some session ∧ session.kind ≠ .editor
  editor : ∀ k id, (daemon.calls k).edits = some id → ∃ session, daemon.row id = some session ∧
    session.kind = .editor ∧ (session.state = .starting ∨ session.state = .failed)
  alone : ∀ j k id, (daemon.calls j).edits = some id → (daemon.calls k).edits = some id → j = k
  unspawned : ∀ k id, daemon.calls k = .spawning id false → ∀ terminal, ¬ daemon.holds id terminal
  spawned : ∀ k id session, daemon.calls k = .supervising id ∨ daemon.calls k = .opened id →
    daemon.row id = some session → session.state = .starting → session.terminalId ≠ none
  moved : ∀ id session, daemon.row id = some session → session.state = .starting →
    ∃ k, (daemon.calls k).moves daemon.queued id = true

section Rows

variable {daemon : Daemon} {id other : SessionId} {next : SessionState} {name : Option TerminalId}

theorem Daemon.key_of_row {session : Session} (found : daemon.row id = some session) :
    session.id = id :=
  key_of_get? found

theorem Daemon.row_setSessionState : (daemon.setSessionState id next name).row other =
    (daemon.row other).map fun session =>
    if other = id ∧ session.state.canTransitionTo next = true then
      { session with state := next, terminalId := name } else session := by
  unfold Daemon.setSessionState Sessions.setSessionState Daemon.row
  cases found : daemon.inner.sessions.get? id with
  | none =>
    by_cases same : other = id
    · simp [same, found]
    · simp [same]
  | some session =>
    have key := key_of_get? found
    simp only
    split
    · rename_i allowed
      rw [get?_put]
      by_cases same : other = id
      · simp [same, found, key, allowed]
      · have differs : session.id ≠ other := fun equal => same (equal.symm.trans key)
        simp [same, differs]
    · rename_i refused
      by_cases same : other = id
      · simp [same, found, refused]
      · simp [same]

@[simp] theorem Daemon.row_put (k : Nat) (call : Call) :
    (daemon.put k call).row other = daemon.row other := rfl

@[simp] theorem Daemon.row_setQueued (queued : Bool) :
    (daemon.setQueued id queued).row other = daemon.row other := rfl

end Rows

section Sets

variable {daemon : Daemon} {id other : SessionId} {next : SessionState} {name : Option TerminalId}
  {session : Session}

theorem Daemon.of_row_set (found : (daemon.setSessionState id next name).row other = some session) :
    daemon.row other = some session ∧ (other = id → session.state.canTransitionTo next = false) ∨
      other = id ∧ session.state = next ∧ session.terminalId = name ∧ ∃ old, daemon.row id =
        some old ∧ old.state.canTransitionTo next = true ∧ session.kind = old.kind := by
  rw [Daemon.row_setSessionState] at found
  obtain ⟨old, there, rfl⟩ := Option.map_eq_some_iff.mp found
  by_cases allowed : other = id ∧ old.state.canTransitionTo next = true
  · rw [if_pos allowed]
    exact .inr ⟨allowed.1, rfl, rfl, old, allowed.1 ▸ there, allowed.2, rfl⟩
  · rw [if_neg allowed]
    exact .inl ⟨there, fun same => Bool.eq_false_iff.mpr fun can => allowed ⟨same, can⟩⟩

variable (id next name) in
theorem Daemon.row_set (found : daemon.row other = some session) :
    ∃ after, (daemon.setSessionState id next name).row other = some after ∧
    after.kind = session.kind ∧
      (other = id ∧ session.state.canTransitionTo next = true ∧ after.state = next ∧
        after.terminalId = name ∨ after = session) := by
  rw [Daemon.row_setSessionState, found, Option.map_some]
  by_cases allowed : other = id ∧ session.state.canTransitionTo next = true
  · rw [if_pos allowed]
    exact ⟨_, rfl, rfl, .inl ⟨allowed.1, allowed.2, rfl, rfl⟩⟩
  · rw [if_neg allowed]
    exact ⟨_, rfl, rfl, .inr rfl⟩

end Sets

section Steps

variable {daemon : Daemon} {k : Nat} {call : Call} {id : SessionId}

@[simp] theorem Daemon.put_calls (j : Nat) :
    (daemon.put k call).calls j = if j = k then call else daemon.calls j := rfl

@[simp] theorem Daemon.put_terminals : (daemon.put k call).terminals = daemon.terminals := rfl

@[simp] theorem Daemon.put_minted : (daemon.put k call).minted = daemon.minted := rfl

@[simp] theorem Daemon.put_queued : (daemon.put k call).queued = daemon.queued := rfl

/-- Which processes there are does not depend on a call that reports no exit, before and after. -/
theorem Daemon.holds_put {other : SessionId} {terminal : TerminalId}
    (quiet : ∀ id terminal, daemon.calls k ≠ .reaping id terminal)
    (still : ∀ id terminal, call ≠ .reaping id terminal) :
    (daemon.put k call).holds other terminal ↔ daemon.holds other terminal := by
  unfold Daemon.holds
  simp only [Daemon.put_terminals, Daemon.put_calls]
  apply or_congr Iff.rfl
  constructor
  · rintro ⟨j, reaping⟩
    by_cases same : j = k
    · rw [if_pos same] at reaping
      exact absurd reaping (still _ _)
    · rw [if_neg same] at reaping
      exact ⟨j, reaping⟩
  · rintro ⟨j, reaping⟩
    have differs : j ≠ k := fun same => quiet _ _ (same ▸ reaping)
    exact ⟨j, (if_neg differs).trans reaping⟩

/-- A call goes on alone. -/
theorem Sound.went (sound : Sound daemon)
    (quiet : ∀ id terminal, daemon.calls k ≠ .reaping id terminal)
    (still : ∀ id terminal, call ≠ .reaping id terminal) (launches : ∀ id, call.launches = some id →
      (daemon.calls k).launches = some id)
    (edits : ∀ id, call.edits = some id → (daemon.calls k).edits = some id)
    (unspawned : ∀ id, call ≠ .spawning id false)
    (spawned : ∀ id, call = .supervising id ∨ call = .opened id → daemon.calls k = .supervising id)
    (moves : ∀ id session, daemon.row id = some session → session.state = .starting →
      (daemon.calls k).moves daemon.queued id = true → call.moves daemon.queued id = true) :
    Sound (daemon.put k call) := by
  have holds (other : SessionId) (terminal : TerminalId) :
      (daemon.put k call).holds other terminal ↔ daemon.holds other terminal :=
    Daemon.holds_put quiet still
  constructor
  all_goals simp only [holds, Daemon.row_put, Daemon.put_calls, Daemon.put_terminals, Daemon.put_minted,
    Daemon.put_queued]
  · exact sound.minted
  · exact sound.one
  · exact sound.known
  · exact sound.named
  · grind [sound.reaped]
  · grind [sound.removed]
  · grind [sound.plain]
  · grind [sound.editor]
  · grind [sound.alone]
  · grind [sound.unspawned]
  · grind [sound.spawned]
  · grind [sound.moved]

/-- A session changes its state, and the call that did it has finished. -/
theorem Sound.set (sound : Sound daemon) {next : SessionState} {name : Option TerminalId}
    (quiet : ∀ id terminal, daemon.calls k ≠ .reaping id terminal) (settled : next ≠ .starting)
    (mine : ∀ other, other ≠ id → (daemon.calls k).moves daemon.queued other = false)
    (refused : ∀ session, daemon.row id = some session →
      session.state.canTransitionTo next = false → session.state ≠ .starting)
    (dead : ∀ session, daemon.row id = some session → session.state.canTransitionTo next = true →
      (session.kind = .editor ∨ ∀ terminal, ¬ daemon.holds id terminal))
    (runs : next = .running → ∀ session, daemon.row id = some session →
      session.state.canTransitionTo next = true → ∃ terminal, name = some terminal ∧
        daemon.holds id terminal)
    (served : next ≠ .failed → (daemon.calls k).edits = some id) :
    Sound ((daemon.setSessionState id next name).put k .finished) := by
  have holds (other : SessionId) (terminal : TerminalId) :
      ((daemon.setSessionState id next name).put k .finished).holds other terminal ↔
        daemon.holds other terminal :=
    @Daemon.holds_put (daemon.setSessionState id next name) k .finished other terminal quiet nofun
  have calls : (daemon.setSessionState id next name).calls = daemon.calls := rfl
  have terminals : (daemon.setSessionState id next name).terminals = daemon.terminals := rfl
  have minted : (daemon.setSessionState id next name).minted = daemon.minted := rfl
  have queued : (daemon.setSessionState id next name).queued = daemon.queued := rfl
  constructor
  all_goals simp only [holds, Daemon.row_put, Daemon.put_calls, Daemon.put_terminals, Daemon.put_minted,
    Daemon.put_queued, calls, terminals, minted, queued]
  · exact sound.minted
  · exact sound.one
  · intro other terminal held
    obtain ⟨old, found, known⟩ := sound.known other terminal held
    obtain ⟨session, there, change⟩ := Daemon.row_set id next name found
    grind
  · intro other session found running
    have change := Daemon.of_row_set found
    have named := sound.named other
    grind
  · grind [sound.reaped]
  · grind [sound.removed]
  · intro j other launches
    obtain ⟨old, found, kind⟩ := sound.plain j other (by grind [Call.launches])
    obtain ⟨session, there, same, _⟩ := Daemon.row_set id next name found
    exact ⟨session, there, same ▸ kind⟩
  · intro j other edits
    obtain ⟨old, found, kind, state⟩ := sound.editor j other (by grind [Call.edits])
    obtain ⟨session, there, same, change⟩ := Daemon.row_set id next name found
    have alone := sound.alone j k other
    exact ⟨session, there, same.trans kind, by grind [Call.edits]⟩
  · grind [sound.alone, Call.edits]
  · intro j other spawning
    have unspawned := sound.unspawned j other
    grind
  · intro j other session which found starting
    have change := Daemon.of_row_set found
    have spawned := sound.spawned j other
    grind
  · intro other session found starting
    have change := Daemon.of_row_set found
    have moved := sound.moved other
    grind

theorem Sound.owner (sound : Sound daemon) {other : SessionId} {terminal : TerminalId}
    (left : daemon.holds other terminal) (right : daemon.holds id terminal) : other = id := by
  obtain there | ⟨j, reaping⟩ := left <;> obtain there' | ⟨i, reaping'⟩ := right
  · exact congrArg Terminal.sessionId (Option.some.inj (there.symm.trans there'))
  · exact absurd ((sound.removed i id terminal reaping').symm.trans there) nofun
  · exact absurd ((sound.removed j other terminal reaping).symm.trans there') nofun
  · obtain rfl := sound.reaped j i other id terminal reaping reaping'
    cases reaping.symm.trans reaping'
    rfl

/-- The exit is reported: the session has no process any more. -/
theorem Sound.exited (sound : Sound daemon) {terminal : TerminalId}
    (here : daemon.calls k = .reaping id terminal) :
    Sound ((daemon.setSessionState id .exited none).put k .finished) := by
  have mine : daemon.holds id terminal := .inr ⟨k, here⟩
  have holds (other : SessionId) (name : TerminalId) :
      ((daemon.setSessionState id .exited none).put k .finished).holds other name →
        daemon.holds other name ∧ name ≠ terminal := by
    rintro (there | ⟨j, reaping⟩)
    · have removed := sound.removed k id terminal here
      refine ⟨.inl there, ?_⟩
      rintro rfl
      exact absurd (removed.symm.trans there) nofun
    · change (if j = k then Call.finished else daemon.calls j) = _ at reaping
      have reaped := sound.reaped j k other id terminal
      have held : daemon.calls j = .reaping other name := by grind
      exact ⟨.inr ⟨j, held⟩, by grind⟩
  have back (other : SessionId) (name : TerminalId) (held : daemon.holds other name)
      (differs : name ≠ terminal) :
      ((daemon.setSessionState id .exited none).put k .finished).holds other name := by
    obtain there | ⟨j, reaping⟩ := held
    · exact .inl there
    · refine .inr ⟨j, ?_⟩
      change (if j = k then Call.finished else daemon.calls j) = _
      grind
  have calls : (daemon.setSessionState id .exited none).calls = daemon.calls := rfl
  have queued : (daemon.setSessionState id .exited none).queued = daemon.queued := rfl
  constructor
  any_goals simp only [Daemon.row_put, Daemon.put_calls, Daemon.put_terminals, Daemon.put_minted,
    Daemon.put_queued, calls, queued]
  · exact fun other name held => sound.minted other name (holds other name held).1
  · exact fun other first second held held' =>
      sound.one other first second (holds _ _ held).1 (holds _ _ held').1
  · intro other name held
    have before := holds other name held
    obtain ⟨old, found, known⟩ := sound.known other name before.1
    obtain ⟨session, there, change⟩ := Daemon.row_set id .exited none found
    have one := sound.one id terminal name mine
    grind
  · intro other session found running
    obtain ⟨before, refused⟩ | ⟨_, ended, _⟩ := Daemon.of_row_set found
    · obtain ⟨name, names, held⟩ := sound.named other session before running
      refine ⟨name, names, back other name held ?_⟩
      rintro rfl
      have still := refused (sound.owner held mine)
      rw [running] at still
      cases still
    · rw [running] at ended
      cases ended
  · exact fun i j one two name left right => sound.reaped i j one two name (by grind) (by grind)
  · exact fun j other name reaping => sound.removed j other name (by grind)
  · intro j other launches
    obtain ⟨old, found, kind⟩ := sound.plain j other (by grind [Call.launches])
    obtain ⟨session, there, same, _⟩ := Daemon.row_set id .exited none found
    exact ⟨session, there, same ▸ kind⟩
  · intro j other edits
    obtain ⟨old, found, kind, state⟩ := sound.editor j other (by grind [Call.edits])
    obtain ⟨session, there, same, change⟩ := Daemon.row_set id .exited none found
    exact ⟨session, there, same.trans kind, by grind [Orchestration.SessionState.canTransitionTo]⟩
  · exact fun i j other left right => sound.alone i j other (by grind [Call.edits])
      (by grind [Call.edits])
  · exact fun j other spawning name held =>
      sound.unspawned j other (by grind) name (holds other name held).1
  · intro j other session which found starting
    have change := Daemon.of_row_set found
    have spawned := sound.spawned j other
    grind
  · intro other session found starting
    have change := Daemon.of_row_set found
    obtain ⟨j, moves⟩ := sound.moved other session (by grind) starting
    exact ⟨j, by grind [Call.moves]⟩

/-- The runtime leaves the map, and its exit is to be reported. -/
theorem Sound.unplugged (sound : Sound daemon) {terminal : TerminalId} {runtime : Terminal}
    (here : daemon.calls k = .ended terminal)
    (found : daemon.terminals.get? terminal = some runtime) :
    Sound ({ daemon with terminals := daemon.terminals.retain fun row => decide (row.id ≠ terminal) }.put k
      (.reaping runtime.sessionId terminal)) := by
  have named : runtime.id = terminal := key_of_get? found
  obtain ⟨name, id⟩ := runtime
  obtain rfl : terminal = name := named.symm
  have get (other : TerminalId) :
      (daemon.terminals.retain fun row => decide (row.id ≠ terminal)).get? other =
        if other = terminal then none else daemon.terminals.get? other := by
    rw [get?_retain]
    cases there : daemon.terminals.get? other with
    | none => simp
    | some row =>
      have key := key_of_get? there
      grind
  have holds (other : SessionId) (name : TerminalId) :
      Daemon.holds ({ daemon with
        terminals := daemon.terminals.retain fun row => decide (row.id ≠ terminal) }.put k
          (.reaping id terminal)) other name ↔ daemon.holds other name := by
    unfold Daemon.holds
    simp only [Daemon.put_terminals, Daemon.put_calls, get]
    constructor
    · rintro (there | ⟨j, reaping⟩)
      · grind
      · by_cases same : j = k
        · grind
        · exact .inr ⟨j, by grind⟩
    · rintro (there | ⟨j, reaping⟩)
      · by_cases same : name = terminal
        · exact .inr ⟨k, by grind⟩
        · exact .inl (by grind)
      · exact .inr ⟨j, by grind⟩
  have reaped := fun j other => sound.removed j other terminal
  constructor
  all_goals simp only [holds, Daemon.row_put, Daemon.put_calls, Daemon.put_terminals, Daemon.put_minted,
    Daemon.put_queued, get]
  · exact sound.minted
  · exact sound.one
  · exact sound.known
  · exact sound.named
  · grind [sound.reaped]
  · grind [sound.removed]
  · exact fun j other launches => sound.plain j other (by grind [Call.launches])
  · exact fun j other edits => sound.editor j other (by grind [Call.edits])
  · exact fun i j other left right => sound.alone i j other (by grind [Call.edits])
      (by grind [Call.edits])
  · exact fun j other spawning => sound.unspawned j other (by grind)
  · exact fun j other session which => sound.spawned j other session (by grind)
  · intro other session there starting
    obtain ⟨j, moves⟩ := sound.moved other session there starting
    exact ⟨j, by grind [Call.moves]⟩

/-- A terminal is committed under the next identifier. -/
theorem Daemon.holds_spawned {inner : Inner} {terminal : TerminalId} {other : SessionId}
    (fresh : ∀ other, ¬ daemon.holds other daemon.minted)
    (quiet : ∀ id terminal, daemon.calls k ≠ .reaping id terminal)
    (still : ∀ id terminal, call ≠ .reaping id terminal) :
    Daemon.holds ({ daemon with
      inner
      terminals := daemon.terminals.put ⟨daemon.minted, id⟩
      minted := daemon.minted + 1 }.put k call) other terminal ↔
        daemon.holds other terminal ∨ other = id ∧ terminal = daemon.minted := by
  apply (@Daemon.holds_put { daemon with
    inner
    terminals := daemon.terminals.put ⟨daemon.minted, id⟩
    minted := daemon.minted + 1 } k call other terminal quiet still).trans
  unfold Daemon.holds
  simp only [get?_put]
  by_cases same : daemon.minted = terminal
  · have none_ := fresh other
    unfold Daemon.holds at none_
    grind
  · grind

theorem Sound.fresh (sound : Sound daemon) (other : SessionId) :
    ¬ daemon.holds other daemon.minted :=
  fun held => Nat.lt_irrefl _ (sound.minted _ _ held)

/-- A process is there, and its session runs or, for an editor's, waits for the handshake. -/
theorem Sound.committed (sound : Sound daemon) {session : Session} {state : SessionState}
    (found : daemon.row id = some session)
    (free : ∀ terminal, ¬ daemon.holds id terminal)
    (here : daemon.calls k = .spawning id true ∧ state = .running ∧ call = .finished ∧
      session.kind ≠ .editor ∨
      daemon.calls k = .spawning id false ∧ state = session.state ∧ session.kind = .editor ∧
        call = .supervising id) :
    Sound ({ daemon with
      inner := { daemon.inner with
        sessions := daemon.inner.sessions.put
          { session with state, terminalId := some daemon.minted } }
      terminals := daemon.terminals.put ⟨daemon.minted, id⟩
      minted := daemon.minted + 1 }.put k call) := by
  have key : session.id = id := Daemon.key_of_row found
  have row (other : SessionId) : Daemon.row ({ daemon with
      inner := { daemon.inner with
        sessions := daemon.inner.sessions.put
          { session with state, terminalId := some daemon.minted } }
      terminals := daemon.terminals.put ⟨daemon.minted, id⟩
      minted := daemon.minted + 1 }.put k call) other =
        if other = id then some { session with state, terminalId := some daemon.minted }
        else daemon.row other := by
    change Store.get? (Store.put _ _) _ = _
    rw [get?_put]
    simp only [key, eq_comm]
    rfl
  have quiet : ∀ id terminal, daemon.calls k ≠ .reaping id terminal := by grind
  have still : ∀ id terminal, call ≠ .reaping id terminal := by grind
  have holds := fun other terminal => @Daemon.holds_spawned daemon k call id { daemon.inner with
    sessions := daemon.inner.sessions.put { session with state, terminalId := some daemon.minted } }
      terminal other sound.fresh quiet still
  have fresh := sound.fresh
  constructor
  all_goals simp only [holds, row, Daemon.put_calls, Daemon.put_terminals, Daemon.put_minted,
    Daemon.put_queued]
  · intro other terminal held
    have minted := sound.minted other terminal
    grind
  · intro other first second left right
    have one := sound.one other first second
    grind
  · intro other terminal held
    have known := sound.known other terminal
    grind
  · intro other session' there running
    have named := sound.named other session'
    have editor := sound.editor k id
    grind [Call.edits]
  · grind [sound.reaped]
  · intro j other terminal reaping
    have removed := sound.removed j other terminal
    have minted := sound.minted other terminal
    have reaping' : daemon.calls j = .reaping other terminal := by grind
    have held : daemon.holds other terminal := .inr ⟨j, reaping'⟩
    rw [get?_put]
    grind
  · intro j other launches
    have plain := sound.plain j other
    grind [Call.launches]
  · intro j other edits
    have editor := sound.editor j other
    have mine := sound.editor k id
    grind [Call.edits]
  · intro i j other left right
    have alone := sound.alone i j other
    have first := sound.alone k j other
    have second := sound.alone i k other
    grind [Call.edits]
  · intro j other spawning
    have unspawned := sound.unspawned j other
    have alone := sound.alone j k other
    have editor := sound.editor j other
    grind [Call.edits]
  · intro j other session' which there starting
    have spawned := sound.spawned j other session'
    grind
  · intro other session' there starting
    have moved := sound.moved other
    grind [Call.moves]

theorem Call.moves_congr {queued queued' : SessionId → Bool} (same : queued id = queued' id) :
    call.moves queued id = call.moves queued' id := by
  cases call <;> simp [Call.moves, same]

/-- A call moves a session to `starting`, one that is new or one that had ended. -/
theorem Sound.begun (sound : Sound daemon) {inner : Inner} {session : Session} {queued : Bool}
    (row : ∀ other, inner.sessions.get? other = if other = id then some session else daemon.row
      other)
    (starting : session.state = .starting)
    (ended : ∀ old, daemon.row id = some old → old.kind = session.kind ∧ old.state.isTerminal =
      true)
    (free : session.kind = .editor ∨ ∀ terminal, ¬ daemon.holds id terminal)
    (unserved : ∀ j, (daemon.calls j).edits ≠ some id) (idle : daemon.calls k = .idle)
    (now : call = .waiting id ∧ queued = true ∧ session.kind ≠ .editor ∨
      call = .spawning id true ∧ session.kind ≠ .editor ∨
        call = .spawning id false ∧ session.kind = .editor ∧ daemon.row id = none ∨
        call = .failing id) :
    Sound (({ daemon with inner }.setQueued id queued).put k call) := by
  have quiet : ∀ id terminal, daemon.calls k ≠ .reaping id terminal := by grind
  have still : ∀ id terminal, call ≠ .reaping id terminal := by grind
  have holds (other : SessionId) (terminal : TerminalId) :
      (({ daemon with inner }.setQueued id queued).put k call).holds other terminal ↔
        daemon.holds other terminal :=
    @Daemon.holds_put ({ daemon with inner }.setQueued id queued) k call other terminal quiet still
  have rows (other : SessionId) : (({ daemon with inner }.setQueued id queued).put k call).row other =
      if other = id then some session else daemon.row other := row other
  have calls : ({ daemon with inner }.setQueued id queued).calls = daemon.calls := rfl
  have terminals : ({ daemon with inner }.setQueued id queued).terminals = daemon.terminals := rfl
  have minted : ({ daemon with inner }.setQueued id queued).minted = daemon.minted := rfl
  have waits : ({ daemon with inner }.setQueued id queued).queued =
      fun other => if other = id then queued else daemon.queued other := rfl
  have idle_of_ended (old : Session) (there : daemon.row id = some old) : old.state ≠ .running := by
    intro running
    have past := (ended old there).2
    rw [running] at past
    cases past
  have known (terminal : TerminalId) (held : daemon.holds id terminal) : session.kind = .editor := by
    obtain ⟨old, there, as⟩ := sound.known id terminal held
    have same := (ended old there).1
    have past := idle_of_ended old there
    grind
  constructor
  all_goals simp only [holds, rows, Daemon.put_calls, Daemon.put_terminals, Daemon.put_minted,
    Daemon.put_queued, calls, terminals, minted, waits]
  · exact sound.minted
  · exact sound.one
  · intro other terminal held
    have before := sound.known other terminal held
    have editor := known terminal
    grind
  · intro other after there running
    have named := sound.named other
    grind
  · grind [sound.reaped]
  · grind [sound.removed]
  · intro j other launches
    have plain := sound.plain j other
    grind [Call.launches]
  · intro j other edits
    have editor := sound.editor j other
    have unserved := unserved j
    grind [Call.edits]
  · intro i j other left right
    have alone := sound.alone i j other
    have first := unserved i
    have second := unserved j
    grind [Call.edits]
  · intro j other spawning terminal held
    have unspawned := sound.unspawned j other
    have known := sound.known other terminal held
    grind
  · intro j other after which there starting
    have spawned := sound.spawned j other
    have unserved := unserved j
    grind [Call.edits]
  · intro other after there starting
    by_cases same : other = id
    · refine ⟨k, ?_⟩
      rw [if_pos rfl]
      grind [Call.moves]
    · obtain ⟨j, moves⟩ := sound.moved other after (by grind) starting
      refine ⟨j, ?_⟩
      have differs : j ≠ k := by
        rintro rfl
        rw [idle] at moves
        cases moves
      rw [if_neg differs, ← moves]
      exact Call.moves_congr (if_neg same)

/-- A session starts again, and the call that restarts it sees to it. -/
theorem Sound.restarted (sound : Sound daemon) {session : Session} {queued : Bool}
    (found : daemon.row id = some session) (ended : session.state.isTerminal = true)
    (free : session.kind = .editor ∨ ∀ terminal, ¬ daemon.holds id terminal)
    (unserved : ∀ j, (daemon.calls j).edits ≠ some id)
    (idle : daemon.calls k = .idle)
    (now : call = .waiting id ∧ queued = true ∧ session.kind ≠ .editor ∨
      call = .spawning id true ∧ session.kind ≠ .editor ∨ call = .failing id) :
    Sound (((daemon.setSessionState id .starting none).setQueued id queued).put k call) := by
  have can : session.state.canTransitionTo .starting = true := by
    cases state : session.state <;> rw [state] at ended <;> first | rfl | cases ended
  have row (other : SessionId) : (daemon.setSessionState id .starting none).row other =
      if other = id then some { session with state := .starting, terminalId := none } else
        daemon.row other := by
    rw [Daemon.row_setSessionState]
    by_cases same : other = id
    · rw [same, found, Option.map_some, if_pos ⟨rfl, can⟩, if_pos rfl]
    · simp [same]
  refine sound.begun row rfl ?_ free unserved idle ?_
  · intro old there
    cases found.symm.trans there
    exact ⟨rfl, ended⟩
  · exact now.imp_right (.imp_right .inr)

/-- A session is created, and its call sees to it. -/
theorem Sound.created (sound : Sound daemon) {inner : Inner} {session : Session} {queued : Bool}
    (absent : daemon.row id = none) (idle : daemon.calls k = .idle)
    (row : ∀ other, inner.sessions.get? other = if other = id then some session else daemon.row
      other)
    (starting : session.state = .starting)
    (now : call = .waiting id ∧ queued = true ∧ session.kind ≠ .editor ∨
      call = .spawning id true ∧ session.kind ≠ .editor ∨
        call = .spawning id false ∧ session.kind = .editor) :
    Sound (({ daemon with inner }.setQueued id queued).put k call) := by
  refine sound.begun row starting (fun old there => absurd (absent.symm.trans there) nofun) ?_ ?_
    idle ?_
  · refine .inr fun terminal held => ?_
    obtain ⟨_, found, _⟩ := sound.known id terminal held
    exact absurd (absent.symm.trans found) nofun
  · intro j edits
    obtain ⟨_, found, _⟩ := sound.editor j id edits
    exact absurd (absent.symm.trans found) nofun
  · exact now.imp_right (.imp_right fun opened => .inl ⟨opened.1, opened.2, absent⟩)

theorem Sound.dequeued (sound : Sound daemon) (here : daemon.calls k = .launching id) :
    Sound ((daemon.setQueued id false).put k (.spawning id true)) := by
  have next : Sound (daemon.put k (.spawning id true)) :=
    sound.went (by grind) nofun (by grind [Call.launches]) nofun nofun nofun (by grind [Call.moves])
  refine ⟨next.minted, next.one, next.known, next.named, next.reaped, next.removed, next.plain,
    next.editor, next.alone, next.unspawned, next.spawned, fun other session found starting => ?_⟩
  by_cases same : other = id
  · refine ⟨k, ?_⟩
    rw [Daemon.put_calls, if_pos rfl]
    simp [Call.moves, same]
  · obtain ⟨j, moves⟩ := next.moved other session found starting
    refine ⟨j, ?_⟩
    have kept : (daemon.setQueued id false).queued other = daemon.queued other := if_neg same
    exact (Call.moves_congr kept).trans moves

theorem Sound.free (sound : Sound daemon) {session : Session} (found : daemon.row id = some session)
    (still : session.state ≠ .running) (kind : session.kind ≠ .editor) (terminal : TerminalId) :
    ¬ daemon.holds id terminal := fun held => by
  obtain ⟨other, there, known⟩ := sound.known id terminal held
  cases found.symm.trans there
  rcases known with editor | ⟨running, _⟩
  · exact kind editor
  · exact still running

theorem row_createSession {inner after : Inner} {workspaceId : WorkspaceId} {kind : SessionKind}
    {parent : Option SessionId} (created : createSession id workspaceId kind parent inner =
      .ok after) :
    ∃ session : Session, session.state = .starting ∧ session.kind = kind ∧ ∀ other,
      after.sessions.get? other = if other = id then some session else inner.sessions.get?
      other := by
  unfold createSession at created
  split at created
  · cases created
  · rename_i workspace _
    cases placed : graphPlacement inner parent workspaceId with
    | error reason =>
      rw [placed] at created
      cases created
    | ok place =>
      rw [placed] at created
      cases created
      refine ⟨{
        id, workspaceId := workspace.id, kind, parentSessionId := place.1
        rootSessionId := place.2.getD id, terminalId := none, state := .starting }, rfl, rfl,
          fun other => ?_⟩
      simp only [get?_put, eq_comm]

theorem Daemon.setQueued_self : daemon.setQueued id (daemon.queued id) = daemon := by
  unfold Daemon.setQueued
  have same : (fun other => if other = id then daemon.queued id else daemon.queued other) =
      daemon.queued := by
    funext other
    split
    · rename_i here
      rw [here]
    · rfl
  rw [same]

theorem starting_of_fails {state : SessionState} (can : state.canTransitionTo .failed = true) :
    state = .starting := by
  cases state with
  | starting => rfl
  | _ => cases can

theorem starting_of_runs {state : SessionState} (can : state.canTransitionTo .running = true) :
    state = .starting := by
  cases state with
  | starting => rfl
  | _ => cases can

theorem Sound.failed (sound : Sound daemon) (here : daemon.calls k = .failing id) :
    Sound ((daemon.setSessionState id .failed none).put k .finished) := by
  refine sound.set (by grind) nofun (fun other differs => ?_) (fun session found refused starting =>
    ?_) (fun session found can => ?_) nofun (fun differs => absurd rfl differs)
  · rw [here]
    simp [Call.moves, differs.symm]
  · rw [starting] at refused
    cases refused
  · by_cases kind : session.kind = .editor
    · exact .inl kind
    · exact .inr (sound.free found (by rw [starting_of_fails can]; nofun) kind)

/-- A call begins. -/
theorem Sound.entered (sound : Sound daemon) {task : Task} (idle : daemon.calls k = .idle)
    (fresh : ∀ id workspaceId kind parent queued, task = .create id workspaceId kind parent queued →
      daemon.row id = none)
    (stored : ∀ id queued stored, task = .restart id queued stored → ∀ session ∈ daemon.row id,
      session.kind ≠ .editor → session.state.isTerminal = true →
        queued = true ∧ session.kind = .task ∨ stored = true) : Sound (daemon.enter k task) := by
  have went (call : Call) (still : ∀ id terminal, call ≠ .reaping id terminal)
      (launches : call.launches = none) (edits : call.edits = none) : Sound (daemon.put k call) :=
    sound.went (by grind) still (by grind) (by grind) (by grind [Call.edits]) (by grind [Call.edits])
      (by grind [Call.moves])
  cases task with
  | fail id => exact went (.failing id) nofun rfl rfl
  | kill id => exact went (.killing id) nofun rfl rfl
  | exit terminal => exact went (.ended terminal) nofun rfl rfl
  | create id workspaceId kind parent queued =>
    have absent := fresh id workspaceId kind parent queued rfl
    cases created : createSession id workspaceId kind parent daemon.inner with
    | error reason =>
      simp only [Daemon.enter, created]
      exact went .finished nofun rfl rfl
    | ok inner =>
      obtain ⟨session, starting, named, row⟩ := row_createSession created
      simp only [Daemon.enter, created]
      refine sound.created absent idle row starting ?_
      cases kind <;> cases queued <;> simp [named]
  | restart id queued stored_ =>
    cases found : daemon.row id with
    | none =>
      simp only [Daemon.enter, found]
      exact went .finished nofun rfl rfl
    | some session =>
      have stored := stored id queued stored_ rfl session found
      simp only [Daemon.enter, found]
      split
      · exact went .finished nofun rfl rfl
      · rename_i allowed
        obtain ⟨kind, ended⟩ := not_or.mp allowed
        rw [Bool.not_eq_false] at ended
        have still : session.state ≠ .running := fun running => by
          rw [running] at ended
          cases ended
        have unserved (j : Nat) : (daemon.calls j).edits ≠ some id := fun edits => by
          obtain ⟨other, there, editor, _⟩ := sound.editor j id edits
          cases found.symm.trans there
          exact kind editor
        refine sound.restarted found ended (.inr (sound.free found still kind)) unserved idle ?_
        have stored := stored kind ended
        by_cases task : session.kind = .task <;> cases queued <;> cases stored_ <;> simp_all
  | failRestart id =>
    simp only [Daemon.enter]
    split
    · rename_i exited
      obtain ⟨session, found, state⟩ := (Option.any_eq_true _ _).mp exited
      rw [decide_eq_true_iff] at state
      have unserved (j : Nat) : (daemon.calls j).edits ≠ some id := fun edits => by
        obtain ⟨other, there, _, waits⟩ := sound.editor j id edits
        cases found.symm.trans there
        rw [state] at waits
        rcases waits with waits | waits <;> cases waits
      have free : session.kind = .editor ∨ ∀ terminal, ¬ daemon.holds id terminal :=
        Decidable.or_iff_not_imp_left.mpr (sound.free found (by rw [state]; nofun))
      have starting : Sound (((daemon.setSessionState id .starting none).setQueued id
          (daemon.queued id)).put k (.failing id)) :=
        sound.restarted found (by rw [state]; rfl) free unserved idle (.inr (.inr rfl))
      rw [show (daemon.setSessionState id .starting none).setQueued id (daemon.queued id) =
        daemon.setSessionState id .starting none from Daemon.setQueued_self] at starting
      have failed := starting.failed (by rw [Daemon.put_calls, if_pos rfl])
      have twice : (((daemon.setSessionState id .starting none).put k (.failing id)).setSessionState
          id .failed none).put k .finished =
            ((daemon.setSessionState id .starting none).setSessionState id .failed none).put k
            .finished := by
        unfold Daemon.put Daemon.setSessionState
        congr 1
        funext j
        by_cases same : j = k <;> simp [same]
      rwa [twice] at failed
    · exact went .finished nofun rfl rfl

/-- Every section of a call keeps what holds, if an editor's handshake completes in time. -/
theorem Sound.advance (sound : Sound daemon) (k : Nat) (choice : Choice)
    (inTime : ∀ id terminal, daemon.calls k = .opened id → (∃ row ∈ daemon.row id,
      row.state = .starting ∧ row.terminalId = some terminal) → daemon.holds id terminal) :
    Sound (daemon.advance k choice) := by
  have went (call : Call) (quiet : ∀ id terminal, daemon.calls k ≠ .reaping id terminal)
      (still : ∀ id terminal, call ≠ .reaping id terminal) (launches : call.launches = none)
      (edits : call.edits = none) (moves : ∀ id session, daemon.row id = some session →
        session.state = .starting → (daemon.calls k).moves daemon.queued id = true →
          call.moves daemon.queued id = true) : Sound (daemon.put k call) :=
    sound.went quiet still (by grind) (by grind) (by grind [Call.edits]) (by grind [Call.edits]) moves
  cases here : daemon.calls k with
  | idle | finished =>
    simp only [Daemon.advance, here]
    exact sound
  | waiting id =>
    simp only [Daemon.advance, here]
    split
    · cases choice with
      | wait => exact sound
      | fail => exact went (.failing id) (by grind) nofun rfl rfl (by grind [Call.moves])
      | go => exact sound.went (by grind) nofun (by grind [Call.launches]) nofun nofun nofun (by grind [Call.moves])
    · rename_i gone
      rw [Option.any_eq_true] at gone
      exact went .finished (by grind) nofun rfl rfl (by grind [Call.moves])
  | launching id =>
    simp only [Daemon.advance, here]
    split
    · exact went (.failing id) (by grind) nofun rfl rfl (by grind [Call.moves])
    · split
      · exact sound.dequeued here
      · rename_i gone
        rw [Option.any_eq_true] at gone
        exact went .finished (by grind) nofun rfl rfl (by grind [Call.moves])
  | spawning id runToRunning =>
    simp only [Daemon.advance, here]
    split
    · exact went (.failing id) (by grind) nofun rfl rfl (by grind [Call.moves])
    · cases found : daemon.row id with
      | none =>
        simp only [Daemon.commit, found, Option.bind_none]
        exact went (.failing id) (by grind) nofun rfl rfl (by grind [Call.moves])
      | some session =>
        have there : daemon.inner.sessions.get? id = some session := found
        cases runToRunning with
        | false =>
          simp only [Daemon.commit, found, Option.bind_some, Bool.false_eq_true, if_false]
          obtain ⟨_, there, kind, _⟩ := sound.editor k id (by rw [here]; rfl)
          cases found.symm.trans there
          exact sound.committed found (sound.unspawned k id here) (.inr ⟨here, rfl, kind, rfl⟩)
        | true =>
          simp only [Daemon.commit, found, Option.bind_some, if_true]
          obtain ⟨_, there', kind⟩ := sound.plain k id (by rw [here]; rfl)
          cases found.symm.trans there'
          by_cases can : session.state.canTransitionTo .running = true
          · simp only [can, if_true, Daemon.setSessionState, Sessions.setSessionState, there]
            have still : session.state ≠ .running := fun running => by
              rw [running] at can
              cases can
            exact sound.committed found (sound.free found still kind) (.inl ⟨here, rfl, rfl, kind⟩)
          · simp only [can]
            exact went (.failing id) (by grind) nofun rfl rfl (by grind [Call.moves])
  | supervising id =>
    simp only [Daemon.advance, here]
    split
    · exact went (.failing id) (by grind) nofun rfl rfl (by grind [Call.moves])
    · exact sound.went (by grind) nofun nofun (by grind [Call.edits]) nofun (by grind)
        (by grind [Call.moves])
  | opened id =>
    simp only [Daemon.advance, here]
    have edits : (daemon.calls k).edits = some id := by rw [here]; rfl
    refine sound.set (by grind) nofun (fun other differs => ?_) (fun session _ refused starting => ?_)
      (fun session found _ => ?_) (fun _ session found can => ?_) (fun _ => edits)
    · rw [here]
      simp [Call.moves, differs.symm]
    · rw [starting] at refused
      cases refused
    · obtain ⟨_, there, kind, _⟩ := sound.editor k id edits
      cases found.symm.trans there
      exact .inl kind
    · have starting := starting_of_runs can
      have named := sound.spawned k id session (.inr here) found starting
      obtain ⟨terminal, name⟩ := Option.ne_none_iff_exists'.mp named
      refine ⟨terminal, ?_, inTime id terminal here ⟨session, found, starting, name⟩⟩
      rw [found]
      exact name
  | failing id =>
    simp only [Daemon.advance, here]
    exact sound.failed here
  | killing id =>
    simp only [Daemon.advance, here]
    split
    · exact went (.failing id) (by grind) nofun rfl rfl (by grind [Call.moves])
    · exact went .finished (by grind) nofun rfl rfl (by grind [Call.moves])
  | ended terminal =>
    simp only [Daemon.advance, here]
    split
    · exact went .finished (by grind) nofun rfl rfl (by grind [Call.moves])
    · exact sound.unplugged here ‹_›
  | reaping id terminal =>
    simp only [Daemon.advance, here]
    exact sound.exited here

theorem Daemon.Fresh.sound (fresh : daemon.Fresh) : Sound daemon := by
  obtain ⟨ended, bare, idle⟩ := fresh
  have free (id : SessionId) (terminal : TerminalId) : ¬ daemon.holds id terminal := by
    rintro (there | ⟨k, reaping⟩)
    · rw [bare] at there
      exact absurd (mem_of_get? there) (not_mem_empty _)
    · rw [idle k] at reaping
      cases reaping
  have settled {id : SessionId} {session : Session} (found : daemon.row id = some session) :
      session.state.isTerminal = true := ended session (mem_of_get? found)
  constructor
  all_goals simp only [idle, free]
  · exact fun _ _ held => held.elim
  · exact fun _ _ _ held => held.elim
  · exact fun _ _ held => held.elim
  · intro id session found running
    have settled := settled found
    rw [running] at settled
    cases settled
  · exact nofun
  · exact nofun
  · exact nofun
  · exact nofun
  · exact nofun
  · exact nofun
  · exact fun _ _ _ which => by rcases which with which | which <;> cases which
  · intro id session found starting
    have settled := settled found
    rw [starting] at settled
    cases settled

theorem step_sound {before after : Daemon} {move : Move} (taken : Daemon.step before move after)
    (sound : Sound before) (inTime : Daemon.InTime ⟨before, move, after⟩) : Sound after := by
  obtain ⟨rfl, fresh⟩ := taken
  cases move with
  | advance k choice => exact sound.advance k choice inTime
  | start k task =>
    unfold Daemon.apply
    by_cases idle : before.calls k = .idle
    · simp only [idle, if_true]
      refine sound.entered idle (fun id workspaceId kind parent queued same => ?_)
        (fun id queued stored same => ?_)
      · exact fresh k id workspaceId kind parent queued (same ▸ rfl)
      · cases same
        exact inTime
    · simp only [idle, if_false]
      exact sound

theorem Sound.agreed (sound : Sound daemon) (gone : ∀ k, (daemon.calls k).isFinished = true) :
    daemon.Agreed := by
  intro row member
  have found : daemon.row row.id = some row := get?_of_mem member
  refine ⟨fun starting => ?_, fun running => ?_⟩
  · obtain ⟨k, moves⟩ := sound.moved row.id row found starting
    have finished := gone k
    cases call : daemon.calls k
      <;> rw [call] at moves finished <;> first | cases moves | cases finished
  · obtain ⟨terminal, name, there | ⟨k, reaping⟩⟩ := sound.named row.id row found running
    · exact ⟨_, mem_of_get? there, name, rfl⟩
    · have finished := gone k
      rw [reaping] at finished
      cases finished

theorem Sound.single (sound : Sound daemon) : daemon.Single := by
  intro row _ _ first left second right mine yours
  have one := sound.one row.id first.id second.id (.inl (mine ▸ get?_of_mem left))
    (.inl (yours ▸ get?_of_mem right))
  exact eq_of_key left right one

/-- In every run of calls whose editors' handshakes complete in time, at most one process belongs to
a running session, and once the calls have finished the sessions agree with their processes. -/
theorem sessions_agree {first : Daemon} {steps : List (Taken Daemon Move)}
    (run : Run Daemon.step first steps daemon) (fresh : first.Fresh)
    (inTime : ∀ taken ∈ steps, Daemon.InTime taken) :
    daemon.Single ∧ ((∀ k, (daemon.calls k).isFinished = true) → daemon.Agreed) := by
  have sound := (run.guarded Sound Daemon.InTime step_sound fresh.sound inTime).1
  exact ⟨sound.single, sound.agreed⟩

end Steps

section Editor

private def noSessions : Daemon where
  inner := ⟨.empty, Store.empty.put ⟨0, 0⟩⟩
  terminals := .empty
  queued := fun _ => false
  minted := 0
  calls := fun _ => .idle

private theorem noSessions_fresh : noSessions.Fresh :=
  ⟨fun _ member => absurd member (not_mem_empty _), rfl, fun _ => rfl⟩

private def allows (daemon : Daemon) : Move → Bool
  | .start _ (.create id ..) => decide (daemon.row id = none)
  | _ => true

private theorem step_of_allows {daemon : Daemon} {move : Move}
    (allowed : allows daemon move = true) : Daemon.step daemon move (daemon.apply move) := by
  refine ⟨rfl, ?_⟩
  rintro k id workspaceId kind parent queued rfl
  exact of_decide_eq_true allowed

/-- An editor is opened, and its handshake completes. -/
private def opens : List Move :=
  [.start 0 (.create 1 0 .editor none false), .advance 0 .go, .advance 0 .go, .advance 0 .go]

theorem sessions_agree_editor :
    (Run.replay Daemon.apply noSessions opens).Single ∧
    (Run.replay Daemon.apply noSessions opens).Agreed := by
  have law := sessions_agree (Run.of_admits step_of_allows
    (show Run.admits Daemon.apply allows noSessions opens = true from rfl)) noSessions_fresh ?_
  · refine ⟨law.1, law.2 fun k => ?_⟩
    cases k <;> rfl
  · simp only [opens, Run.trace, List.forall_mem_cons]
    refine ⟨trivial, nofun, nofun, ?_, nofun⟩
    rintro id terminal opened ⟨row, found, _, name⟩
    cases opened
    cases found
    cases name
    exact .inl rfl

/-- The editor leaves once it has answered: the end of its PTY is reported to a session that is
starting, and the handshake then runs it. -/
private def leaves : List Move :=
  [.start 0 (.create 1 0 .editor none false), .advance 0 .go, .advance 0 .go, .start 1 (.exit 0),
    .advance 1 .go, .advance 1 .go, .advance 0 .go]

theorem sessions_not_agreed : ¬ ∀ first steps daemon, Run Daemon.step first steps daemon →
    first.Fresh → (∀ k, (daemon.calls k).isFinished = true) → daemon.Agreed := by
  intro claimed
  have agreed := claimed noSessions _ _ (Run.of_admits step_of_allows
    (show Run.admits Daemon.apply allows noSessions leaves = true from rfl)) noSessions_fresh
    fun k => by
      match k with
      | 0 | 1 | _ + 2 => rfl
  obtain ⟨terminal, there, _⟩ := (agreed _ List.mem_cons_self).2 rfl
  exact absurd there (List.not_mem_nil)

end Editor

end ForgeNode.Sessions
