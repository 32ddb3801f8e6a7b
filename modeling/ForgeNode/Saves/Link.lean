import ForgeNode.Lib.Run

/-! The saves of an integrated editor: its process, the loop and the command thread of the daemon
that serve it, the messages between them, and the file that others write too. -/

namespace ForgeNode.Saves

/-- What the daemon knows of a file's contents. A content is `none` where there is no file. -/
structure Files (Text Rev : Type) where
  revisionOf : Text → Rev
  -- The empty revision, of a file that is not there.
  absent : Rev
  binary : Text → Bool
  tooLarge : Text → Bool
  readOnly : Bool

namespace Files

variable {Text Rev : Type} (files : Files Text Rev)

def bounded (text : Text) : Bool := !files.binary text && !files.tooLarge text

/-- The revision that `read_file` gives: a file that is too large is not read, and gets the empty
one. -/
def fileRevision (text : Text) : Rev := if files.tooLarge text then files.absent
  else files.revisionOf text

/-- The text that `read_file` gives; of a binary, or of a file that is too large, it gives none. -/
def fileText (text : Text) : Option Text := if files.bounded text then some text else none

def revision : Option Text → Rev
  | some text => files.fileRevision text
  | none => files.absent

/-- Different contents have different hashes, and no hash is empty. -/
structure Hashes : Prop where
  injective : Function.Injective files.revisionOf
  some_ : ∀ text, files.revisionOf text ≠ files.absent

theorem fileRevision_of_small {text : Text} (small : files.tooLarge text = false) :
    files.fileRevision text = files.revisionOf text := by simp [fileRevision, small]

theorem small_of_bounded {text : Text} (bounded : files.bounded text = true) :
    files.tooLarge text = false := by
  simp only [Files.bounded, Bool.and_eq_true, Bool.not_eq_true'] at bounded
  exact bounded.2

end Files

variable {Text Rev : Type}

/-- A number out of the daemon's counter of requests, and what it was drawn for: a disk update of
the loop, or a reload or a discarded deletion of the command port. -/
inductive RequestId where
  | disk (n : Nat)
  | port (n : Nat)
  deriving DecidableEq

/-- A save of the editor, with the contents its process had been given when it asked for it. -/
structure SaveRequest (Text : Type) where
  id : Nat
  text : Text
  seen : List (Option Text)
  deriving DecidableEq

inductive DaemonMessage (Text Rev : Type) where
  | getState (disk : Bool)
  | reload (id : Nat) (text : Text) (revision : Rev)
  | discardDeleted (id : Nat)
  | save
  | diskChanged (id : Nat) (text : Option Text)
  | saved (id : Nat)
  -- The content that a stale save was refused for, if any.
  | saveRefused (id : Nat) (disk : Option Text)
  deriving DecidableEq

inductive EditorMessage (Text : Type) where
  | state (disk : Bool)
  | saveRequest (request : SaveRequest Text)
  | applied (id : RequestId)
  | diskConflict (id : Nat) (text : Text)
  | refused (id : RequestId)
  deriving DecidableEq

/-- The editor process. `seen` is every content it has been given. -/
structure App (Text : Type) where
  text : Text
  dirty : Bool
  inFlight : Option (Nat × Text)
  outbox : Option (SaveRequest Text)
  nextRequestId : Nat
  autosaveSuspended : Bool
  closeAfterSave : Bool
  quit : Bool
  seen : List (Option Text)
  deriving DecidableEq

/-- A write of the daemon: what it replaced, and for which request. -/
structure Write (Text : Type) where
  replaced : Option Text
  request : SaveRequest Text
  deriving DecidableEq

structure World (Text Rev : Type) where
  disk : Option Text
  app : App Text
  -- The loop of `serve`: its revision, whether the last save was refused, and `disk::Sync`.
  revision : Rev
  conflict : Bool
  pending : Option (Nat × Option Text)
  owed : Bool
  -- What the loop is about to send.
  answer : Option (DaemonMessage Text Rev)
  -- The command port: its reload slot, its refresh flag and its queue.
  slot : Option (Nat × Option Rev)
  diskRefresh : Bool
  commands : List (DaemonMessage Text Rev)
  -- The command the thread has taken, and whether it found the refresh flag set.
  forwarding : Option (DaemonMessage Text Rev × Bool)
  -- What a take-disk has read while it holds the lock of file operations.
  operation : Option (Option Text)
  nextId : Nat
  down : List (DaemonMessage Text Rev)
  up : List (EditorMessage Text)
  writes : List (Write Text)
  deriving DecidableEq

namespace App

/-- `save`: one at a time. -/
def save (readOnly : Bool) (app : App Text) : App Text :=
  if readOnly ∨ app.inFlight.isSome then app
  else { app with
    inFlight := some (app.nextRequestId, app.text)
    outbox := some ⟨app.nextRequestId, app.text, app.seen⟩
    nextRequestId := app.nextRequestId + 1 }

def autosave (readOnly : Bool) (app : App Text) : App Text :=
  if app.autosaveSuspended = false ∧ app.dirty then app.save readOnly else app

/-- `s` where the editor asks whether to close. -/
def closeAndSave (readOnly : Bool) (app : App Text) : App Text :=
  let app := app.save readOnly
  { app with closeAfterSave := app.inFlight.isSome, quit := app.quit || !app.dirty }

/-- The snapshot in flight is saved; the document says whether it is dirty then. -/
def saveConfirmed (id : Nat) (dirty : Bool) (app : App Text) : App Text :=
  match app.inFlight with
  | none => app
  | some (pending, text) =>
    if pending ≠ id then app
    else { app with
      inFlight := none
      dirty := dirty
      autosaveSuspended := false
      closeAfterSave := false
      quit := app.quit || (app.closeAfterSave && !dirty)
      seen := some text :: app.seen }

def saveRefused (id : Nat) (disk : Option Text) (app : App Text) : App Text :=
  let app := match disk with
    | some text => { app with seen := some text :: app.seen }
    | none => app
  match app.inFlight with
  | none => app
  | some (pending, _) =>
    if pending ≠ id then app
    else { app with inFlight := none, autosaveSuspended := true, closeAfterSave := false }

/-- `reload`; the text may not be a document. -/
def reload (id : Nat) (text : Text) (ok : Bool) (app : App Text) :
    App Text × List (EditorMessage Text) :=
  let app := { app with seen := some text :: app.seen }
  if ok then
    ({ app with
      text := text
      dirty := false
      inFlight := none
      outbox := none
      closeAfterSave := false
      autosaveSuspended := false }, [.applied (.port id)])
  else (app, [.refused (.port id)])

def diskChanged (id : Nat) (text : Option Text) (ok : Bool) (app : App Text) :
    App Text × List (EditorMessage Text) :=
  let app := { app with seen := text :: app.seen }
  if app.inFlight.isSome then (app, [.refused (.disk id)])
  else if app.dirty then ({ app with autosaveSuspended := true }, [.diskConflict id app.text])
  else match text with
    | none => ({ app with quit := true }, [.applied (.disk id)])
    | some text =>
      if ok then ({ app with text := text, autosaveSuspended := false }, [.applied (.disk id)])
      else (app, [.refused (.disk id)])

/-- A message of the daemon: what the editor becomes and answers. -/
def receive (readOnly ok dirty : Bool) (app : App Text) :
    DaemonMessage Text Rev → App Text × List (EditorMessage Text)
  | .getState disk => (app, [.state disk])
  | .reload id text _ => app.reload id text ok
  | .discardDeleted id => ({ app with quit := true }, [.applied (.port id)])
  | .save => (app.save readOnly, [])
  | .diskChanged id text => app.diskChanged id text ok
  | .saved id => (app.saveConfirmed id dirty, [])
  | .saveRefused id disk => (app.saveRefused id disk, [])

end App

namespace World

/-- `refresh_disk`; a full queue wakes the thread as well. -/
def refreshDisk (room : Bool) (world : World Text Rev) : World Text Rev :=
  if world.diskRefresh then world
  else { world with
    diskRefresh := true
    commands := if room then world.commands ++ [.getState false] else world.commands }

/-- `Sync::refresh`. -/
def refresh [DecidableEq Rev] (files : Files Text Rev) (world : World Text Rev) : World Text Rev :=
  if world.pending.isSome then { world with owed := true }
  else if world.disk.any (fun text => !files.bounded text) ∨ files.revision world.disk =
    world.revision then
    world
  else { world with
    pending := some (world.nextId, world.disk)
    nextId := world.nextId + 1
    answer := some (.diskChanged world.nextId world.disk) }

/-- `Sync::finish`. -/
def finish (room : Bool) (id : Nat) (world : World Text Rev) :
    World Text Rev × Option (Option Text) :=
  match world.pending with
  | none => (world, none)
  | some (pending, text) =>
    if pending ≠ id then (world, none)
    else
      let world := { world with pending := none }
      (if world.owed then { world with owed := false }.refreshDisk room else world, some text)

/-- `finish_reload`. -/
def finishReload (id : Nat) (world : World Text Rev) : World Text Rev × Option (Option Rev) :=
  match world.slot with
  | none => (world, none)
  | some (pending, revision) =>
    if pending ≠ id then (world, none) else ({ world with slot := none }, some revision)

/-- A save: `save_editor_buffer` and `write_file`, which compares and renames in one step. -/
def saveRequest [DecidableEq Rev] (files : Files Text Rev) (ok : Bool) (world : World Text Rev)
    (request : SaveRequest Text) : World Text Rev :=
  let failed := { world with answer := some (.saveRefused request.id none) }
  let written := { world with
    disk := some request.text
    revision := files.revisionOf request.text
    conflict := false
    answer := some (.saved request.id)
    writes := world.writes ++ [⟨world.disk, request⟩] }
  if files.readOnly ∨ files.tooLarge request.text ∨ ok = false then failed
  else match world.disk with
    | some text =>
      if files.bounded text = false ∨ files.fileRevision text ≠ world.revision then
        { world with
          revision := files.fileRevision text
          conflict := true
          answer := some (.saveRefused request.id (files.fileText text)) }
      else written
    | none => if world.revision ≠ files.absent then failed else written

/-- A message of the editor; the disk may fail what it asks for. -/
def handle [DecidableEq Rev] (files : Files Text Rev) (ok room : Bool) (world : World Text Rev) :
    EditorMessage Text → World Text Rev
  | .state disk => if disk ∧ ok then world.refresh files else world
  | .saveRequest request => world.saveRequest files ok request
  | .applied (.disk id) =>
    match world.finish room id with
    | (world, some text) => { world with revision := files.revision text, conflict := false }
    | (world, none) => world
  | .applied (.port id) =>
    match world.finishReload id with
    | (world, some revision) =>
      { world with revision := revision.getD world.revision, conflict := false }
    | (world, none) => world
  | .diskConflict id _ =>
    match world.finish room id with
    | (world, some text) => { world with revision := files.revision text, conflict := true }
    | (world, none) => world
  | .refused (.disk id) =>
    match world.finish room id with
    | (world, some _) => world.refreshDisk room
    | (world, none) => world
  | .refused (.port id) => (world.finishReload id).1

/-- Does the loop need the lock of file operations for this message? -/
def locks : EditorMessage Text → Bool
  | .state true | .saveRequest _ | .diskConflict .. => true
  | _ => false

/-- What `reload_editor_buffer` enqueues. -/
def takeDisk (files : Files Text Rev) (room : Bool) (world : World Text Rev) : World Text Rev :=
  match world.operation with
  | none => world
  | some read =>
    let world := { world with operation := none }
    if read.any (fun text => !files.bounded text) then world
    else if world.slot.isSome ∨ room = false then { world with nextId := world.nextId + 1 }
    else { world with
      nextId := world.nextId + 1
      slot := some (world.nextId, read.map files.fileRevision)
      commands := world.commands ++ [match read with
        | some text => .reload world.nextId text (files.fileRevision text)
        | none => .discardDeleted world.nextId] }

/-- The command thread sends what it has taken, with the disk's state first where that is due. -/
def forward [DecidableEq Text] [DecidableEq Rev] (world : World Text Rev) : World Text Rev :=
  match world.forwarding with
  | none => world
  | some (command, true) =>
    { world with
      down := world.down ++ [.getState true]
      forwarding := if command = .getState false then none else some (command, false) }
  | some (command, false) => { world with down := world.down ++ [command], forwarding := none }

end World

inductive Event (Text : Type) where
  -- Others write the file, or the checkout's watcher reports it.
  | external (content : Option Text)
  | refresh (room : Bool)
  | edit (text : Text) (dirty : Bool)
  | save
  | autosave
  | closeAndSave
  | flush
  | receive (ok dirty : Bool)
  | serve (ok room : Bool)
  | answer
  | readDisk
  | takeDisk (room : Bool)
  | keepMine (room : Bool)
  | take
  | forward

def World.apply [DecidableEq Text] [DecidableEq Rev] (files : Files Text Rev)
    (world : World Text Rev) : Event Text → World Text Rev
  | .external content => { world with disk := content }
  | .refresh room => world.refreshDisk room
  | .edit text dirty => { world with app := { world.app with text, dirty } }
  | .save => { world with app := world.app.save files.readOnly }
  | .autosave => { world with app := world.app.autosave files.readOnly }
  | .closeAndSave => { world with app := world.app.closeAndSave files.readOnly }
  | .flush =>
    match world.app.outbox with
    | none => world
    | some request =>
      { world with
        app := { world.app with outbox := none }
        up := world.up ++ [.saveRequest request] }
  | .receive ok dirty =>
    match world.down with
    | [] => world
    | message :: rest =>
      let (app, answers) := world.app.receive files.readOnly ok dirty message
      { world with app, down := rest, up := world.up ++ answers }
  | .serve ok room =>
    match world.up with
    | [] => world
    | message :: rest =>
      if world.answer.isSome ∨ (World.locks message ∧ world.operation.isSome) then world
      else { world with up := rest }.handle files ok room message
  | .answer => { world with down := world.down ++ world.answer.toList, answer := none }
  | .readDisk => if world.operation.isSome then world else { world with operation := some world.disk }
  | .takeDisk room => world.takeDisk files room
  | .keepMine room => if room then { world with commands := world.commands ++ [.save] } else world
  | .take =>
    match world.forwarding, world.commands with
    | none, command :: rest =>
      { world with
        forwarding := some (command, world.diskRefresh)
        diskRefresh := false
        commands := rest }
    | _, _ => world
  | .forward => world.forward

def World.step [DecidableEq Text] [DecidableEq Rev] (files : Files Text Rev)
    (before : World Text Rev) (event : Event Text) (after : World Text Rev) : Prop :=
  after = before.apply files event

/-- An editor has been opened on a text, which is on the disk or was. -/
def World.opened (files : Files Text Rev) (disk : Option Text) (text : Text) : World Text Rev where
  disk
  app := {
    text, dirty := false, inFlight := none, outbox := none, nextRequestId := 1000
    autosaveSuspended := false, closeAfterSave := false, quit := false, seen := [some text] }
  revision := files.fileRevision text
  conflict := false
  pending := none
  owed := false
  answer := none
  slot := none
  diskRefresh := false
  commands := []
  forwarding := none
  operation := none
  nextId := 2
  down := []
  up := []
  writes := []

/-- The loop begins with a look at the disk. -/
def World.start [DecidableEq Rev] (files : Files Text Rev) (disk : Option Text) (text : Text) :
    World Text Rev :=
  (World.opened files disk text).refresh files

end ForgeNode.Saves
