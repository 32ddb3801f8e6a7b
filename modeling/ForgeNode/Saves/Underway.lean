import ForgeNode.Editor.SavedLaw
import ForgeNode.Saves.Unseen

/-! What is under way between an editor and its daemon: one update of the disk and one reload at a
time, each counted once, from where it is noted to its answer. -/

namespace ForgeNode.Saves

open List

variable {Text Rev : Type}

variable {app : App Text} {message : EditorMessage Text} {n : Nat}
  {rest : List (EditorMessage Text)}

/-- An editor, the text that its document was last loaded or saved with, and whether the last write
to the file has been followed by a refresh. -/
structure Watch (Text Rev : Type) where
  world : World Text Rev
  clean : Text
  noticed : Bool

/-- What becomes of that text when a message comes. -/
def App.cleaned (app : App Text) (ok : Bool) (clean : Text) : DaemonMessage Text Rev → Text
  | .reload _ text _ => if ok then text else clean
  | .diskChanged _ (some text) => if app.inFlight = none ∧ app.dirty = false ∧ ok then text else clean
  | .saved id =>
    match app.inFlight with
    | some (pending, text) => if pending = id then text else clean
    | none => clean
  | _ => clean

namespace Watch

def apply [DecidableEq Text] [DecidableEq Rev] (files : Files Text Rev) (watch : Watch Text Rev)
    (event : Event Text) : Watch Text Rev where
  world := watch.world.apply files event
  clean :=
    match event, watch.world.down with
    | .receive ok _, message :: _ => watch.world.app.cleaned ok watch.clean message
    | _, _ => watch.clean
  noticed :=
    match event with
    | .external _ => false
    | .refresh _ => true
    | _ => watch.noticed && decide ((watch.world.apply files event).writes.length = watch.world.writes.length)

/-- The file stays bounded text that can be read and written, as that of a save is, and a document
that is not dirty has the text it was last loaded or saved with. -/
def Allows [DecidableEq Text] [DecidableEq Rev] (files : Files Text Rev) (watch : Watch Text Rev)
    (event : Event Text) : Prop :=
  (∃ text, (watch.world.apply files event).disk = some text ∧ files.bounded text = true) ∧
  match event with
  | .edit text dirty => dirty = false → text = watch.clean
  | .receive ok dirty => ok = true ∧ ∀ id rest text, watch.world.down = .saved id :: rest →
    watch.world.app.inFlight = some (id, text) → dirty = false → watch.world.app.text = text
  | .serve ok _ => ok = true ∧ ∀ request rest, watch.world.up = .saveRequest request :: rest →
    files.tooLarge request.text = false
  | _ => True

def Step [DecidableEq Text] [DecidableEq Rev] (files : Files Text Rev) (before : Watch Text Rev)
    (event : Event Text) (after : Watch Text Rev) : Prop :=
  before.Allows files event ∧ after = before.apply files event

def start [DecidableEq Rev] (files : Files Text Rev) (disk text : Text) : Watch Text Rev where
  world := World.start files (some disk) text
  clean := text
  noticed := true

end Watch

section Documents

open Utf8 (Str)
open Editor

/-- The editor's document is that of a session, and its clean text the one that counts as saved
there. -/
structure Watch.Holds (watch : Watch Str Rev) (session : Session) : Prop where
  reachable : session.Reachable
  text : watch.world.app.text = session.document.asStr
  clean : watch.clean = session.saved

variable [DecidableEq Rev] {files : Files Str Rev} {watch : Watch Str Rev} {session after : Session}
  {op : Op} {text : Str}

theorem Watch.Holds.allows_edit (holds : watch.Holds session) (step : Session.Step session op after)
    (kept : after.saved = session.saved) (there : watch.world.disk = some text)
    (bounded : files.bounded text = true) :
    watch.Allows files (.edit after.document.asStr after.document.isDirty) := by
  refine ⟨⟨text, there, bounded⟩, fun clean => ?_⟩
  rw [holds.clean, ← kept]
  exact (holds.reachable.saved.step step).clean clean

theorem Watch.Holds.allows_saved (holds : watch.Holds session) {snapshot : Snapshot}
    {revision : String} {id : Nat} {rest : List (DaemonMessage Str Rev)}
    (step : Session.Step session (.confirmSave snapshot revision) after)
    (down : watch.world.down = .saved id :: rest)
    (flight : watch.world.app.inFlight = some (id, snapshot.text))
    (there : watch.world.disk = some text) (bounded : files.bounded text = true) :
    watch.Allows files (.receive true after.document.isDirty) := by
  refine ⟨⟨text, ?_, bounded⟩, rfl, fun other others held same flying clean => ?_⟩
  · simpa only [World.apply, down] using there
  · cases flight.symm.trans (by cases down.symm.trans same; exact flying)
    have saved := (holds.reachable.saved.step step).clean clean
    obtain ⟨_⟩ := step
    exact holds.text.trans saved

end Documents

/-- The update of the disk that a message of the editor ends. -/
def EditorMessage.updateId : EditorMessage Text → Option Nat
  | .applied (.disk n) | .refused (.disk n) | .diskConflict n _ => some n
  | _ => none

def EditorMessage.reloadId : EditorMessage Text → Option Nat
  | .applied (.port n) | .refused (.port n) => some n
  | _ => none

def DaemonMessage.updateId : DaemonMessage Text Rev → Option Nat
  | .diskChanged n _ => some n
  | _ => none

def DaemonMessage.reloadId : DaemonMessage Text Rev → Option Nat
  | .reload n _ _ | .discardDeleted n => some n
  | _ => none

namespace World

/-- The updates of the disk on their way to the editor. -/
def announced (world : World Text Rev) : List (DaemonMessage Text Rev) :=
  world.sent.filter (·.updateId.isSome)

/-- The reloads on their way to the editor. -/
def carried (world : World Text Rev) : List (DaemonMessage Text Rev) :=
  (world.down ++ world.queued).filter (·.reloadId.isSome)

end World

/-- The file is there and bounded text, and what is under way is what the loop and the port have
noted. -/
structure Tallied (files : Files Text Rev) (world : World Text Rev) : Prop where
  disk : ∃ text, world.disk = some text ∧ files.bounded text = true
  updates : world.up.filterMap EditorMessage.updateId ++ world.announced.filterMap
    DaemonMessage.updateId = (world.pending.map Prod.fst).toList
  reloads : world.up.filterMap EditorMessage.reloadId ++ world.carried.filterMap
    DaemonMessage.reloadId = (world.slot.map Prod.fst).toList
  update : ∀ message ∈ world.announced, ∃ n text, message = .diskChanged n text ∧ world.pending =
    some (n, text)
  found : ∀ n text, world.pending = some (n, text) → text.isSome = true
  noted : ∀ n revision, world.slot = some (n, revision) → revision.isSome = true
  reading : ∀ content, world.operation = some content → content.isSome = true
  reload : ∀ message ∈ world.carried, ∃ n text, message = .reload n text (files.fileRevision text) ∧
    world.slot = some (n, some (files.fileRevision text))
  readOnly : files.readOnly = true → world.app.outbox = none ∧
    world.up.filterMap EditorMessage.saveId = []

section Parts

variable {files : Files Text Rev} {world after : World Text Rev}

theorem Tallied.one_update (tallied : Tallied files world) (up : world.up = message :: rest)
    (about : message.updateId = some n) : (∃ text, world.pending = some (n, text)) ∧
    rest.filterMap EditorMessage.updateId = [] ∧
      world.announced.filterMap DaemonMessage.updateId = [] := by
  have updates := tallied.updates
  simp only [up, filterMap_cons, about, cons_append] at updates
  cases pending : world.pending with
  | none => simp [pending] at updates
  | some pair =>
    obtain ⟨other, text⟩ := pair
    simp only [pending, Option.map_some, Option.toList_some, List.cons.injEq,
      append_eq_nil_iff] at updates
    obtain ⟨rfl, one, two⟩ := updates
    exact ⟨⟨text, rfl⟩, one, two⟩

theorem Tallied.one_reload (tallied : Tallied files world) (up : world.up = message :: rest)
    (about : message.reloadId = some n) : (∃ revision, world.slot = some (n, revision)) ∧
    rest.filterMap EditorMessage.reloadId = [] ∧
      world.carried.filterMap DaemonMessage.reloadId = [] := by
  have reloads := tallied.reloads
  simp only [up, filterMap_cons, about, cons_append] at reloads
  cases slot : world.slot with
  | none => simp [slot] at reloads
  | some pair =>
    obtain ⟨other, revision⟩ := pair
    simp only [slot, Option.map_some, Option.toList_some, List.cons.injEq,
      append_eq_nil_iff] at reloads
    obtain ⟨rfl, one, two⟩ := reloads
    exact ⟨⟨revision, rfl⟩, one, two⟩

theorem Tallied.none_announced (tallied : Tallied files world)
    (nothing : world.announced.filterMap DaemonMessage.updateId = []) : world.announced = [] := by
  refine eq_nil_iff_forall_not_mem.mpr fun message there => ?_
  obtain ⟨n, text, rfl, _⟩ := tallied.update message there
  have none_ := filterMap_eq_nil_iff.mp nothing _ there
  cases none_

theorem Tallied.none_carried (tallied : Tallied files world)
    (nothing : world.carried.filterMap DaemonMessage.reloadId = []) : world.carried = [] := by
  refine eq_nil_iff_forall_not_mem.mpr fun message there => ?_
  obtain ⟨n, text, rfl, _⟩ := tallied.reload message there
  have none_ := filterMap_eq_nil_iff.mp nothing _ there
  cases none_

/-- A step that leaves what is under way, and its notes. -/
theorem Tallied.frame (tallied : Tallied files world)
    (disk : ∃ text, after.disk = some text ∧ files.bounded text = true) (up : after.up = world.up)
    (announced : after.announced = world.announced) (carried : after.carried = world.carried)
    (pending : after.pending = world.pending) (slot : after.slot = world.slot)
    (reading : ∀ content, after.operation = some content → content.isSome = true)
    (outbox : files.readOnly = true → after.app.outbox = none) : Tallied files after where
  disk := disk
  updates := by rw [up, announced, pending, tallied.updates]
  reloads := by rw [up, carried, slot, tallied.reloads]
  update := by rw [announced, pending]; exact tallied.update
  found := by rw [pending]; exact tallied.found
  noted := by rw [slot]; exact tallied.noted
  reading := reading
  reload := by rw [carried, slot]; exact tallied.reload
  readOnly := fun readOnly => ⟨outbox readOnly, up ▸ (tallied.readOnly readOnly).2⟩

theorem World.refreshDisk_parts (room : Bool) : (world.refreshDisk room).disk = world.disk ∧
    (world.refreshDisk room).app = world.app ∧ (world.refreshDisk room).up = world.up ∧
    (world.refreshDisk room).pending = world.pending ∧ (world.refreshDisk room).slot = world.slot ∧
    (world.refreshDisk room).operation = world.operation ∧ (world.refreshDisk room).down =
      world.down ∧
    (world.refreshDisk room).answer = world.answer ∧ (world.refreshDisk room).revision =
      world.revision ∧
    (world.refreshDisk room).conflict = world.conflict ∧ (world.refreshDisk room).owed =
      world.owed ∧
    (world.refreshDisk room).writes = world.writes ∧ (world.refreshDisk room).forwarding =
      world.forwarding ∧
    (world.refreshDisk room).diskRefresh = true ∧ (world.refreshDisk room).carried =
      world.carried := by
  unfold World.refreshDisk
  split
  · simp_all
  · cases room <;> simp [World.carried, World.queued, DaemonMessage.reloadId]

theorem World.refreshDisk_asks (room : Bool) : (world.refreshDisk room).diskRefresh = true := by
  obtain ⟨_, _, _, _, _, _, _, _, _, _, _, _, _, asks, _⟩ := @World.refreshDisk_parts _ _ world room
  exact asks

theorem Tallied.refreshDisk (tallied : Tallied files world) (room : Bool) :
    Tallied files (world.refreshDisk room) := by
  obtain ⟨disk, app, up, pending, slot, operation, down, answer, _, _, _, _, _, _, carried⟩ :=
    @World.refreshDisk_parts _ _ world room
  refine tallied.frame (disk ▸ tallied.disk) up ?_ carried pending slot ?_ ?_
  · simp only [World.announced, World.sent, down, answer]
  · rw [operation]
    exact tallied.reading
  · rw [app]
    exact fun readOnly => (tallied.readOnly readOnly).1

theorem App.save_blocked {readOnly : Bool} (blocked : readOnly = true) :
    app.save readOnly = app := by
  simp [App.save, blocked]

/-- The editor takes a message off the link and answers it; what it was about, the answer is
about. -/
theorem Tallied.replies (tallied : Tallied files world) {message : DaemonMessage Text Rev}
    {rest : List (DaemonMessage Text Rev)} {answers : List (EditorMessage Text)}
    (down : world.down = message :: rest)
    (update : answers.filterMap EditorMessage.updateId = message.updateId.toList)
    (reload : answers.filterMap EditorMessage.reloadId = message.reloadId.toList)
    (saves : answers.filterMap EditorMessage.saveId = [])
    (outbox : files.readOnly = true → app.outbox = none) :
    Tallied files { world with app, down := rest, up := world.up ++ answers } := by
  have announced : world.announced = [message].filter (·.updateId.isSome) ++
      ({ world with app, down := rest, up := world.up ++ answers } : World Text Rev).announced := by
    simp only [World.announced, World.sent, down, cons_append, ← filter_append]
    rfl
  have carried : world.carried = [message].filter (·.reloadId.isSome) ++
      ({ world with app, down := rest, up := world.up ++ answers } : World Text Rev).carried := by
    simp only [World.carried, World.queued, down, cons_append, ← filter_append]
    rfl
  refine ⟨tallied.disk, ?_, ?_, fun other there => ?_, tallied.found, tallied.noted,
    tallied.reading, fun other there => ?_, fun readOnly => ?_⟩
  · have updates := tallied.updates
    rw [announced, filterMap_append] at updates
    rw [filterMap_append, update, append_assoc, ← updates]
    cases about : message.updateId <;> simp [about]
  · have reloads := tallied.reloads
    rw [carried, filterMap_append] at reloads
    rw [filterMap_append, reload, append_assoc, ← reloads]
    cases about : message.reloadId <;> simp [about]
  · refine tallied.update other ?_
    rw [announced]
    exact mem_append_right _ there
  · refine tallied.reload other ?_
    rw [carried]
    exact mem_append_right _ there
  · refine ⟨outbox readOnly, ?_⟩
    rw [filterMap_append, (tallied.readOnly readOnly).2, saves]
    rfl

/-- A message that is about neither is handled. -/
theorem Tallied.skips (tallied : Tallied files world)
    (up : world.up = message :: rest) (update : message.updateId = none)
    (reload : message.reloadId = none) : Tallied files { world with up := rest } := by
  refine ⟨tallied.disk, ?_, ?_, tallied.update, tallied.found, tallied.noted, tallied.reading,
    tallied.reload, fun readOnly => ?_⟩
  · have updates := tallied.updates
    rw [up, filterMap_cons_none update] at updates
    exact updates
  · have reloads := tallied.reloads
    rw [up, filterMap_cons_none reload] at reloads
    exact reloads
  · obtain ⟨outbox, saves⟩ := tallied.readOnly readOnly
    refine ⟨outbox, ?_⟩
    rw [up, filterMap_cons] at saves
    split at saves
    · exact saves
    · cases saves

/-- The update that was noted has come to its end. -/
theorem Tallied.settles (tallied : Tallied files world) (up : world.up = message :: rest)
    (about : message.updateId = some n) :
    Tallied files { world with up := rest, pending := none } := by
  obtain ⟨_, one, two⟩ := tallied.one_update up about
  have nothing := tallied.none_announced two
  have saves : message.saveId = none := by cases message <;> first | rfl | cases about
  have port : message.reloadId = none := by
    cases message with
    | applied id | refused id => cases id <;> first | rfl | cases about
    | _ => rfl
  refine ⟨tallied.disk, ?_, ?_, fun other there => ?_, nofun, tallied.noted, tallied.reading,
    tallied.reload, fun readOnly => ?_⟩
  · change rest.filterMap EditorMessage.updateId ++ world.announced.filterMap
      DaemonMessage.updateId = []
    rw [one, two]
    rfl
  · have reloads := tallied.reloads
    rw [up, filterMap_cons_none port] at reloads
    exact reloads
  · exact absurd (nothing ▸ there) not_mem_nil
  · obtain ⟨outbox, none_⟩ := tallied.readOnly readOnly
    rw [up, filterMap_cons_none saves] at none_
    exact ⟨outbox, none_⟩

theorem Tallied.settlesReload (tallied : Tallied files world) (up : world.up = message :: rest)
    (about : message.reloadId = some n) :
    Tallied files { world with up := rest, slot := none } := by
  obtain ⟨_, one, two⟩ := tallied.one_reload up about
  have nothing := tallied.none_carried two
  have saves : message.saveId = none := by cases message <;> first | rfl | cases about
  have disk : message.updateId = none := by
    cases message with
    | applied id | refused id => cases id <;> first | rfl | cases about
    | _ => first | rfl | cases about
  refine ⟨tallied.disk, ?_, ?_, tallied.update, tallied.found, nofun, tallied.reading,
    fun other there => ?_, fun readOnly => ?_⟩
  · have updates := tallied.updates
    rw [up, filterMap_cons_none disk] at updates
    exact updates
  · change rest.filterMap EditorMessage.reloadId ++ world.carried.filterMap DaemonMessage.reloadId =
      []
    rw [one, two]
    rfl
  · exact absurd (nothing ▸ there) not_mem_nil
  · obtain ⟨outbox, none_⟩ := tallied.readOnly readOnly
    rw [up, filterMap_cons_none saves] at none_
    exact ⟨outbox, none_⟩

/-- The loop notes an update of the disk, and is about to send it. -/
theorem Tallied.refresh [DecidableEq Rev] (tallied : Tallied files world)
    (idle : world.answer = none) : Tallied files (world.refresh files) := by
  unfold World.refresh
  split
  · exact tallied.frame tallied.disk rfl rfl rfl rfl rfl tallied.reading fun readOnly =>
      (tallied.readOnly readOnly).1
  rename_i free
  split
  · exact tallied
  have none_ : world.pending = none := by simpa using free
  have updates := tallied.updates
  rw [none_] at updates
  obtain ⟨one, two⟩ := append_eq_nil_iff.mp updates
  have announced : ({ world with
      pending := some (world.nextId, world.disk)
      nextId := world.nextId + 1
      answer := some (.diskChanged world.nextId world.disk) } : World Text Rev).announced =
      [.diskChanged world.nextId world.disk] := by
    have nothing := tallied.none_announced two
    simp only [World.announced, World.sent, idle, Option.toList_none, append_nil] at nothing
    simp only [World.announced, World.sent, filter_append, nothing]
    rfl
  refine ⟨tallied.disk, ?_, tallied.reloads, fun other there => ?_, ?_, tallied.noted,
    tallied.reading, tallied.reload, tallied.readOnly⟩
  · rw [announced]
    change world.up.filterMap EditorMessage.updateId ++ [world.nextId] = [world.nextId]
    rw [one]
    rfl
  · rw [announced] at there
    exact ⟨_, _, mem_singleton.mp there, rfl⟩
  · rintro n text same
    cases same
    obtain ⟨text, there, _⟩ := tallied.disk
    rw [there]
    rfl

theorem Tallied.answers (tallied : Tallied files world) (idle : world.answer = none)
    {answer : DaemonMessage Text Rev} (about : answer.updateId = none) {disk : Option Text}
    {revision : Rev} {conflict : Bool} {writes : List (Write Text)}
    (there : ∃ text, disk = some text ∧ files.bounded text = true) :
    Tallied files { world with answer := some answer, disk, revision, conflict, writes } := by
  refine tallied.frame there rfl ?_ rfl rfl rfl tallied.reading fun readOnly =>
    (tallied.readOnly readOnly).1
  simp only [World.announced, World.sent, idle, filter_append]
  simp [about]

theorem World.saveRequest_stale [DecidableEq Rev] {request : SaveRequest Text} {held : Text}
    (writable : files.readOnly = false) (small : files.tooLarge request.text = false)
    (disk : world.disk = some held) (stale : files.bounded held = false ∨ files.fileRevision held ≠
      world.revision) : world.saveRequest files true request = { world with
      revision := files.fileRevision held
      conflict := true
      answer := some (.saveRefused request.id (files.fileText held)) } := by
  simp only [World.saveRequest, writable, small, disk, if_pos stale]
  rw [if_neg (by simp)]

theorem World.saveRequest_written [DecidableEq Rev] {request : SaveRequest Text} {held : Text}
    (writable : files.readOnly = false) (small : files.tooLarge request.text = false)
    (disk : world.disk = some held)
    (fresh : ¬(files.bounded held = false ∨ files.fileRevision held ≠ world.revision)) :
    world.saveRequest files true request = { world with
      disk := some request.text
      revision := files.fileRevision request.text
      conflict := false
      answer := some (.saved request.id)
      writes := world.writes ++ [⟨some held, request⟩] } := by
  simp only [World.saveRequest, writable, small, disk, if_neg fresh, files.fileRevision_of_small
    small]
  rw [if_neg (by simp)]

theorem Tallied.writable (tallied : Tallied files world) {request : SaveRequest Text}
    (up : world.up = .saveRequest request :: rest) : files.readOnly = false := by
  refine Bool.eq_false_iff.mpr fun blocked => ?_
  have none_ := (tallied.readOnly blocked).2
  rw [up] at none_
  cases none_

theorem Tallied.finish (tallied : Tallied files world) (room : Bool)
    (up : world.up = message :: rest) (about : message.updateId = some n) {text : Option Text}
    (pending : world.pending = some (n, text)) :
    Tallied files (World.finish room n { world with up := rest }).1 := by
  have settled := tallied.settles up about
  rw [@World.finish_some _ _ { world with up := rest } room n text pending]
  dsimp only
  split
  · refine Tallied.refreshDisk ?_ room
    exact settled.frame settled.disk rfl rfl rfl rfl rfl settled.reading fun readOnly =>
      (settled.readOnly readOnly).1
  · exact settled

theorem World.handle_applied [DecidableEq Rev] {ok room : Bool} {n : Nat} {text : Option Text}
    (pending : world.pending = some (n, text)) : world.handle files ok room (.applied (.disk n)) =
      { (world.finish room n).1 with revision := files.revision text, conflict := false } := by
  have ended := @World.finish_some _ _ world room n text pending
  simp only [World.handle, ended]

theorem World.handle_diskConflict [DecidableEq Rev] {ok room : Bool} {n : Nat} {text : Option Text}
    {mine : Text} (pending : world.pending = some (n, text)) :
    world.handle files ok room (.diskConflict n mine) =
      { (world.finish room n).1 with revision := files.revision text, conflict := true } := by
  have ended := @World.finish_some _ _ world room n text pending
  simp only [World.handle, ended]

theorem World.handle_refused [DecidableEq Rev] {ok room : Bool} {n : Nat} {text : Option Text}
    (pending : world.pending = some (n, text)) : world.handle files ok room (.refused (.disk n)) =
      (world.finish room n).1.refreshDisk room := by
  have ended := @World.finish_some _ _ world room n text pending
  simp only [World.handle, ended]

theorem World.handle_reloaded [DecidableEq Rev] {ok room : Bool} {n : Nat} {revision : Rev}
    (slot : world.slot = some (n, some revision)) :
    world.handle files ok room (.applied (.port n)) =
      { world with slot := none, revision, conflict := false } := by
  simp only [World.handle, World.finishReload_some slot]
  rfl

theorem World.handle_unloaded [DecidableEq Rev] {ok room : Bool} {n : Nat} {revision : Option Rev}
    (slot : world.slot = some (n, revision)) : world.handle files ok room (.refused (.port n)) =
      { world with slot := none } := by
  simp only [World.handle, World.finishReload_some slot]

/-- The loop handles a message. -/
theorem Tallied.handles [DecidableEq Rev] (tallied : Tallied files world) (room : Bool)
    (idle : world.answer = none) {message : EditorMessage Text} {rest : List (EditorMessage Text)}
    (up : world.up = message :: rest)
    (there : ∃ text, ({ world with up := rest }.handle files true room message).disk = some text ∧
      files.bounded text = true)
    (small : ∀ request, message = .saveRequest request → files.tooLarge request.text = false) :
    Tallied files ({ world with up := rest }.handle files true room message) := by
  have revised {world : World Text Rev} (tallied : Tallied files world) (revision : Rev)
      (conflict : Bool) : Tallied files { world with revision, conflict } :=
    tallied.frame tallied.disk rfl rfl rfl rfl rfl tallied.reading fun readOnly =>
    (tallied.readOnly readOnly).1
  cases message with
  | state look =>
    have skipped := tallied.skips up rfl rfl
    simp only [World.handle]
    split
    · exact skipped.refresh idle
    · exact skipped
  | saveRequest request =>
    have skipped := tallied.skips up rfl rfl
    have writable := tallied.writable up
    obtain ⟨held, here, bounded⟩ := tallied.disk
    by_cases stale : files.bounded held = false ∨ files.fileRevision held ≠ world.revision
    · have same := @World.saveRequest_stale _ _ _ { world with up := rest } _ request held writable
        (small request rfl) here stale
      simp only [World.handle, same]
      exact skipped.answers idle rfl ⟨held, here, bounded⟩
    · have same := @World.saveRequest_written _ _ _ { world with up := rest } _ request held
        writable (small request rfl) here stale
      simp only [World.handle, same] at there ⊢
      exact skipped.answers idle rfl there
  | diskConflict n text =>
    obtain ⟨⟨snapshot, pending⟩, _⟩ := tallied.one_update up rfl
    rw [@World.handle_diskConflict _ _ _ { world with up := rest } _ _ _ _ _ _ pending]
    exact revised (tallied.finish room up rfl pending) _ _
  | applied id =>
    cases id with
    | disk n =>
      obtain ⟨⟨snapshot, pending⟩, _⟩ := tallied.one_update up rfl
      rw [@World.handle_applied _ _ _ { world with up := rest } _ _ _ _ _ pending]
      exact revised (tallied.finish room up rfl pending) _ _
    | port n =>
      obtain ⟨⟨noted, slot⟩, _⟩ := tallied.one_reload up rfl
      obtain ⟨revision, rfl⟩ := Option.isSome_iff_exists.mp (tallied.noted n noted slot)
      rw [@World.handle_reloaded _ _ _ { world with up := rest } _ _ _ _ _ slot]
      exact revised (tallied.settlesReload up rfl) _ _
  | refused id =>
    cases id with
    | disk n =>
      obtain ⟨⟨snapshot, pending⟩, _⟩ := tallied.one_update up rfl
      rw [@World.handle_refused _ _ _ { world with up := rest } _ _ _ _ _ pending]
      exact (tallied.finish room up rfl pending).refreshDisk room
    | port n =>
      obtain ⟨⟨noted, slot⟩, _⟩ := tallied.one_reload up rfl
      rw [@World.handle_unloaded _ _ _ { world with up := rest } _ _ _ _ _ slot]
      exact tallied.settlesReload up rfl

theorem App.receive_outbox (readOnly : Bool) (ok dirty : Bool) (message : DaemonMessage Text Rev)
    (blocked : readOnly = true) (none_ : app.outbox = none) :
    (app.receive readOnly ok dirty message).1.outbox = none := by
  cases message with
  | getState disk | discardDeleted id => exact none_
  | save => simpa [App.receive, App.save, blocked] using none_
  | reload id text revision =>
    simp only [App.receive, App.reload]
    split
    · rfl
    · exact none_
  | diskChanged id text =>
    simp only [App.receive, App.diskChanged]
    split
    · exact none_
    split
    · exact none_
    split
    · exact none_
    split <;> exact none_
  | saved id =>
    simp only [App.receive, App.saveConfirmed]
    split
    · exact none_
    split <;> exact none_
  | saveRefused id disk => exact (App.saveRefused_spec app id disk).1.trans none_

/-- The editor handles a message. -/
theorem Tallied.receives (tallied : Tallied files world) (dirty : Bool)
    {message : DaemonMessage Text Rev} {rest : List (DaemonMessage Text Rev)}
    (down : world.down = message :: rest) : Tallied files { world with
      app := (world.app.receive files.readOnly true dirty message).1
      down := rest
      up := world.up ++ (world.app.receive files.readOnly true dirty message).2 } := by
  have outbox (readOnly : files.readOnly = true) :
      (world.app.receive files.readOnly true dirty message).1.outbox = none :=
    App.receive_outbox _ true dirty message readOnly (tallied.readOnly readOnly).1
  refine tallied.replies down ?_ ?_ ?_ outbox
  all_goals
    cases message with
    | diskChanged id text =>
      simp only [App.receive, App.diskChanged]
      split
      · rfl
      split
      · rfl
      split
      · rfl
      rfl
    | _ => rfl

/-- The port takes a reload in, and its queue too. -/
theorem Tallied.takesDisk (tallied : Tallied files world) (room : Bool) :
    Tallied files (world.takeDisk files room) := by
  have outbox (readOnly : files.readOnly = true) : world.app.outbox = none :=
    (tallied.readOnly readOnly).1
  unfold World.takeDisk
  split
  · exact tallied
  rename_i content operation
  obtain ⟨text, rfl⟩ := Option.isSome_iff_exists.mp (tallied.reading content operation)
  dsimp only
  split
  · exact tallied.frame tallied.disk rfl rfl rfl rfl rfl (by simp) outbox
  split
  · exact tallied.frame tallied.disk rfl rfl rfl rfl rfl (by simp) outbox
  rename_i free
  have none_ : world.slot = none := by simpa using (not_or.mp free).1
  have reloads := tallied.reloads
  rw [none_] at reloads
  obtain ⟨one, two⟩ := append_eq_nil_iff.mp reloads
  have nothing := tallied.none_carried two
  have carried (commands : List (DaemonMessage Text Rev)) (slot : Option (Nat × Option Rev))
      (added : DaemonMessage Text Rev) (same : commands = world.commands ++ [added])
      (about : added.reloadId.isSome = true) :
      ({ world with operation := none, nextId := world.nextId + 1, slot, commands } : World Text
      Rev).carried = [added] := by
    subst same
    simp only [World.carried, World.queued, filter_append, append_eq_nil_iff] at nothing
    simp [World.carried, World.queued, filter_append, nothing, about]
  refine ⟨tallied.disk, tallied.updates, ?_, tallied.update, tallied.found, ?_, by
    simp, fun message there => ?_, tallied.readOnly⟩
  · rw [carried _ _ _ rfl rfl]
    change world.up.filterMap EditorMessage.reloadId ++ [world.nextId] = [world.nextId]
    rw [one]
    rfl
  · rintro n revision same
    cases same
    rfl
  · rw [carried _ _ _ rfl rfl] at there
    exact ⟨_, _, mem_singleton.mp there, rfl⟩

theorem Tallied.forwards [DecidableEq Text] [DecidableEq Rev] (tallied : Tallied files world)
    (noUpdate : ∀ command asks, world.forwarding = some (command, asks) → command.updateId = none) :
    Tallied files world.forward := by
  have outbox (readOnly : files.readOnly = true) : world.app.outbox = none :=
    (tallied.readOnly readOnly).1
  unfold World.forward
  split
  · exact tallied
  · rename_i command forwarding
    refine tallied.frame tallied.disk rfl ?_ ?_ rfl rfl tallied.reading outbox
    · simp [World.announced, World.sent, DaemonMessage.updateId]
    · by_cases plain : command = .getState false
      · simp [World.carried, World.queued, forwarding, plain, DaemonMessage.reloadId]
      · simp [World.carried, World.queued, forwarding, plain, DaemonMessage.reloadId]
  · rename_i command forwarding
    refine tallied.frame tallied.disk rfl ?_ ?_ rfl rfl tallied.reading outbox
    · simp [World.announced, World.sent, noUpdate _ _ forwarding]
    · simp [World.carried, World.queued, forwarding]

end Parts

/-- Every step leaves under way what is noted. -/
theorem Tallied.step [DecidableEq Text] [DecidableEq Rev] {files : Files Text Rev} {large : Prop}
    {before after : Watch Text Rev}
    {event : Event Text} (step : Watch.Step files before event after)
    (sound : Sound files large before.world) (tallied : Tallied files before.world) :
    Tallied files after.world := by
  obtain ⟨⟨there, rest⟩, rfl⟩ := step
  have outbox (readOnly : files.readOnly = true) : before.world.app.outbox = none :=
    (tallied.readOnly readOnly).1
  cases event with
  | external content => exact tallied.frame there rfl rfl rfl rfl rfl tallied.reading outbox
  | refresh room => exact tallied.refreshDisk room
  | edit text dirty => exact tallied.frame there rfl rfl rfl rfl rfl tallied.reading outbox
  | save =>
    refine tallied.frame there rfl rfl rfl rfl rfl tallied.reading fun readOnly => ?_
    change (before.world.app.save files.readOnly).outbox = none
    rw [App.save_blocked readOnly]
    exact outbox readOnly
  | autosave =>
    refine tallied.frame there rfl rfl rfl rfl rfl tallied.reading fun readOnly => ?_
    change (before.world.app.autosave files.readOnly).outbox = none
    simp only [App.autosave, App.save_blocked readOnly, ite_self]
    exact outbox readOnly
  | closeAndSave =>
    refine tallied.frame there rfl rfl rfl rfl rfl tallied.reading fun readOnly => ?_
    change (before.world.app.save files.readOnly).outbox = none
    rw [App.save_blocked readOnly]
    exact outbox readOnly
  | flush =>
    simp only [Watch.apply, World.apply]
    split
    · exact tallied
    · rename_i request held
      have writable : files.readOnly = true → False := fun readOnly => by
        rw [outbox readOnly] at held
        cases held
      refine ⟨tallied.disk, ?_, ?_, tallied.update, tallied.found, tallied.noted, tallied.reading,
        tallied.reload, fun readOnly => ⟨rfl, (writable readOnly).elim⟩⟩
      · refine Eq.trans ?_ tallied.updates
        rw [filterMap_append, append_assoc]
        rfl
      · refine Eq.trans ?_ tallied.reloads
        rw [filterMap_append, append_assoc]
        rfl
  | receive ok dirty =>
    obtain ⟨rfl, _⟩ := rest
    simp only [Watch.apply, World.apply]
    split
    · exact tallied
    · rename_i message others down
      exact tallied.receives dirty down
  | serve ok room =>
    obtain ⟨rfl, small⟩ := rest
    simp only [Watch.apply, World.apply] at there ⊢
    split
    · exact tallied
    · rename_i message others up
      simp only [up] at there
      split
      · exact tallied
      · rename_i allowed
        simp only [if_neg allowed] at there
        have idle : before.world.answer = none := by simpa using (not_or.mp allowed).1
        exact tallied.handles room idle up there fun request same => small request others (same ▸ up)
  | answer =>
    refine tallied.frame there rfl ?_ ?_ rfl rfl tallied.reading outbox
    · simp [World.announced, World.sent, Watch.apply, World.apply]
    · have loop := sound.answer
      simp only [World.carried, World.queued, Watch.apply, World.apply]
      cases answer : before.world.answer with
      | none => simp
      | some message =>
        have about := loop message (by rw [answer]; exact Option.mem_some_self _)
        have none_ : message.reloadId = none := by cases message <;> first | rfl | cases about
        simp [none_]
  | readDisk =>
    simp only [Watch.apply, World.apply]
    split
    · exact tallied
    · refine tallied.frame tallied.disk rfl rfl rfl rfl rfl ?_ outbox
      intro content same
      cases same
      obtain ⟨text, held, _⟩ := tallied.disk
      rw [held]
      rfl
  | takeDisk room => exact tallied.takesDisk room
  | keepMine room =>
    simp only [Watch.apply, World.apply]
    split
    · refine tallied.frame tallied.disk rfl rfl ?_ rfl rfl tallied.reading outbox
      simp [World.carried, World.queued, DaemonMessage.reloadId]
    · exact tallied
  | take =>
    simp only [Watch.apply, World.apply]
    split
    · rename_i command others none_ commands
      refine tallied.frame tallied.disk rfl rfl ?_ rfl rfl tallied.reading outbox
      simp [World.carried, World.queued, none_, commands]
    · exact tallied
  | forward =>
    refine tallied.forwards fun command asks forwarding => ?_
    have quiet := sound.queued command (by simp [World.queued, forwarding])
    cases command <;> first | rfl | cases quiet

end ForgeNode.Saves
