import ForgeNode.Saves.Serving

/-! The command port, and what follows for every write of a run. -/

namespace ForgeNode.Saves

open List

variable {Text Rev : Type} {files : Files Text Rev} {large : Prop} {world : World Text Rev}

variable {command : DaemonMessage Text Rev} {text : Text}

theorem DaemonMessage.quiet {message : DaemonMessage Text Rev} (ofLoop : message.ofLoop = false) :
    message.answers = none ∧ ∀ n text, message ≠ .diskChanged n text := by
  cases message with
  | saved | saveRefused | diskChanged => cases ofLoop
  | _ => exact ⟨rfl, fun _ _ => nofun⟩

theorem DaemonMessage.noPort {message : DaemonMessage Text Rev} (ofLoop : message.ofLoop = true) :
    message.port = none := by
  cases message <;> first | rfl | cases ofLoop

/-- The loop sends its answer. -/
theorem Sound.delivers (sound : Sound files large world) :
    Sound files large { world with down := world.down ++ world.answer.toList, answer := none } := by
  have sent : World.sent { world with down := world.down ++ world.answer.toList, answer := none } =
    world.sent :=
    append_nil _
  have ports : World.ports { world with down := world.down ++ world.answer.toList, answer := none } =
      world.ports := by
    have none_ : world.answer.toList.filterMap DaemonMessage.port = [] :=
      filterMap_eq_nil_iff.mpr fun message member =>
        DaemonMessage.noPort (sound.answer message (Option.mem_toList.mp member))
    change (world.down ++ world.answer.toList ++ world.queued).filterMap DaemonMessage.port = _
    unfold World.ports
    rw [filterMap_append, filterMap_append, filterMap_append, none_, append_nil]
  have told : World.told { world with down := world.down ++ world.answer.toList, answer := none } =
    world.told := by
    unfold World.told
    rw [sent]
  refine ⟨sound.numbers, sent ▸ sound.numbered, ports ▸ sound.ports, sent ▸ sound.snapshots, nofun,
    sound.queued, sent ▸ sound.saves, sent ▸ sound.below, sound.flight, sent ▸ sound.outbox,
    sound.given, sound.text, ?_,
    sound.asked, sound.each⟩
  rw [told]
  exact sound.known

/-- The thread sends a command, its first or one without a number. -/
theorem Sound.sends (sound : Sound files large world)
    {commands : List (DaemonMessage Text Rev)} {forwarding : Option (DaemonMessage Text Rev × Bool)}
    (ofLoop : command.ofLoop = false)
    (number : ∀ n, command.number = some n → command ∈ world.queued)
    (queued : ∀ other ∈ World.queued { world with commands, forwarding }, other ∈ world.queued)
    (ports : (command :: World.queued { world with commands, forwarding }).filterMap
      DaemonMessage.port =
      world.queued.filterMap DaemonMessage.port) :
    Sound files large { world with down := world.down ++ [command], commands, forwarding } := by
  obtain ⟨plain, noUpdate⟩ := DaemonMessage.quiet ofLoop
  have mem : ∀ other ∈ World.sent
      { world with down := world.down ++ [command], commands, forwarding }, other = command ∨
      other ∈ world.sent := by
    intro other member
    rcases mem_append.mp member with there | answer
    · rcases mem_append.mp there with before | last
      · exact .inr (mem_append_left _ before)
      · exact .inl (mem_singleton.mp last)
    · exact .inr (mem_append_right _ answer)
  have silent : world.app.promised command = none := by
    cases promised : world.app.promised command with
    | none => rfl
    | some content =>
      have some_ := (App.promised_answers promised).1
      rw [plain] at some_
      cases some_
  have answered :
      (World.sent { world with down := world.down ++ [command], commands, forwarding }).filterMap
      DaemonMessage.answers = world.sent.filterMap DaemonMessage.answers := by
    simp [World.sent, plain]
  have told : World.told { world with down := world.down ++ [command], commands, forwarding } =
    world.told := by
    simp [World.told, World.sent, silent]
  have same : World.ports { world with down := world.down ++ [command], commands, forwarding } =
    world.ports := by
    change (world.down ++ [command] ++ World.queued { world with commands, forwarding }).filterMap
      DaemonMessage.port = _
    unfold World.ports
    rw [append_assoc, filterMap_append, singleton_append, ports, ← filterMap_append]
  refine ⟨sound.numbers, ?_, same ▸ sound.ports, ?_, sound.answer, ?_, answered ▸ sound.saves,
    answered ▸ sound.below, sound.flight, answered ▸ sound.outbox, sound.given, sound.text,
    told ▸ sound.known,
    sound.asked, sound.each⟩
  · intro message member n named
    rcases mem_append.mp member with there | there
    · rcases mem message there with rfl | before
      · exact sound.numbered message (mem_append_right _ (number n named)) n named
      · exact sound.numbered message (mem_append_left _ before) n named
    · exact sound.numbered message (mem_append_right _ (queued message there)) n named
  · intro n text member
    rcases mem _ member with rfl | before
    · exact absurd rfl (noUpdate n text)
    · exact sound.snapshots n text before
  · exact fun message member => sound.queued message (queued message member)

theorem Sound.forwards [DecidableEq Text] [DecidableEq Rev] (sound : Sound files large world) :
    Sound files large world.forward := by
  unfold World.forward
  split
  · exact sound
  · rename_i command here
    have queued : world.queued = command :: world.commands := by simp [World.queued, here]
    by_cases same : command = .getState false
    · rw [if_pos same]
      refine sound.sends rfl nofun (fun other member => ?_) ?_
      · rw [queued]
        exact mem_cons_of_mem _ member
      · rw [queued, same]
        rfl
    · rw [if_neg same]
      refine sound.sends rfl nofun (fun other member => queued ▸ member) ?_
      rw [queued]
      rfl
  · rename_i command here
    have queued : world.queued = command :: world.commands := by simp [World.queued, here]
    refine sound.sends (sound.queued command (queued ▸ mem_cons_self)) (fun _ _ =>
      queued ▸ mem_cons_self) (fun other member => ?_) ?_
    · rw [queued]
      exact mem_cons_of_mem _ member
    · rw [queued]
      rfl

/-- The thread takes its next command. -/
theorem Sound.takes (sound : Sound files large world)
    {rest : List (DaemonMessage Text Rev)} (free : world.forwarding = none)
    (commands : world.commands = command :: rest) (flag : Bool) :
    Sound files large
    { world with forwarding := some (command, flag), diskRefresh := false, commands := rest } := by
  have queued : World.queued { world with
      forwarding := some (command, flag), diskRefresh := false, commands := rest } =
        world.queued := by
    simp [World.queued, free, commands]
  have ports : World.ports { world with
      forwarding := some (command, flag), diskRefresh := false, commands := rest } = world.ports := by
    unfold World.ports
    rw [queued]
  exact ⟨sound.numbers, queued ▸ sound.numbered, ports ▸ sound.ports, sound.snapshots, sound.answer,
    queued ▸ sound.queued, sound.saves, sound.below, sound.flight, sound.outbox, sound.given,
    sound.text,
    sound.known, sound.asked, sound.each⟩

theorem Sound.draws (sound : Sound files large world) :
    Sound files large { world with nextId := world.nextId + 1 } :=
  ⟨fun message member n named => Nat.lt_succ_of_lt (sound.numbers message member n named),
    fun message member n named => Nat.lt_succ_of_lt (sound.numbered message member n named),
    sound.ports,
    sound.snapshots, sound.answer, sound.queued, sound.saves, sound.below, sound.flight,
    sound.outbox, sound.given,
    sound.text, sound.known, sound.asked, sound.each⟩

/-- A take-disk gets the one reload slot. -/
theorem Sound.slots (sound : Sound files large world) (idle : world.slot = none)
    {content : Option Text} (small : files.Small content)
    (port : command.port = some (world.nextId, content)) : Sound files large { world with
      nextId := world.nextId + 1
      slot := some (world.nextId, content.map files.fileRevision)
      commands := world.commands ++ [command] } := by
  have ofLoop : command.ofLoop = false := by cases command <;> first | rfl | cases port
  have number : command.number = some world.nextId := by cases command <;> cases port <;> rfl
  have fresh : ∀ message ∈ world.up, message.number ≠ some world.nextId := fun message member same =>
    Nat.lt_irrefl _ (sound.numbers message member _ same)
  have before (seen : List (Option Text)) : world.track files large seen =
      ⟨files.Known large seen world.revision, none, world.pending⟩ := by
    unfold World.track
    rw [idle]
  have shape (seen : List (Option Text)) (mine : Option Nat) :=
    @Track.after_slot Text Rev files seen mine world.nextId (content.map files.fileRevision) world.up
      (files.Known large seen world.revision) world.pending fresh
  have queued : World.queued { world with
      nextId := world.nextId + 1
      slot := some (world.nextId, content.map files.fileRevision)
      commands := world.commands ++ [command] } = world.queued ++ [command] :=
    (append_assoc _ _ _).symm
  have none_ : world.ports = [] := by
    rcases sound.ports with none_ | ⟨n, text, _, _, slot⟩
    · exact none_
    · unfold World.ahead at slot
      rw [before] at slot
      exact absurd ((shape [] none).2.1.symm.trans slot) nofun
  refine ⟨fun message member n named => Nat.lt_succ_of_lt (sound.numbers message member n named),
    ?_, .inr ?_, ?_, sound.answer, ?_, sound.saves, sound.below, sound.flight, sound.outbox,
    sound.given, sound.text, ?_, ?_, ?_⟩
  · rw [queued, ← append_assoc]
    intro message member n named
    rcases mem_append.mp member with there | last
    · exact Nat.lt_succ_of_lt (sound.numbered message there n named)
    · obtain rfl := mem_singleton.mp last
      cases number.symm.trans named
      exact Nat.lt_succ_self _
  · refine ⟨world.nextId, content, ?_, small, (shape [] none).1⟩
    unfold World.ports at none_ ⊢
    rw [queued, ← append_assoc, filterMap_append, none_]
    simp [port]
  · intro n text member
    obtain ⟨small, snapshot⟩ := sound.snapshots n text member
    refine ⟨small, fun other named => snapshot other ?_⟩
    unfold World.ahead
    rw [before]
    exact (shape [] none).2.2.1.symm.trans named
  · rw [queued]
    intro message member
    rcases mem_append.mp member with there | last
    · exact sound.queued message there
    · exact mem_singleton.mp last ▸ ofLoop
  · have known := sound.known
    unfold World.ahead at known ⊢
    rw [before] at known
    exact (shape _ _).2.2.2 ▸ known
  · intro request named
    have known := sound.asked request named
    unfold World.ahead at known ⊢
    rw [before] at known
    exact (shape _ _).2.2.2 ▸ known
  · intro front request shorter
    have known := sound.each front request shorter
    rw [before] at known
    have early : ∀ message ∈ front, message.number ≠ some world.nextId := fun message member =>
      fresh message (shorter.subset (mem_append_left _ member))
    exact (@Track.after_slot Text Rev files request.seen none world.nextId
      (content.map files.fileRevision) front (files.Known large request.seen world.revision)
      world.pending early).2.2.2 ▸ known

theorem Sound.takesDisk (sound : Sound files large world) (room : Bool) :
    Sound files large (world.takeDisk files room) := by
  unfold World.takeDisk
  split
  · exact sound
  · rename_i read here
    have done := sound.frame world.disk world.conflict world.owed world.diskRefresh none
      world.app.text world.app.dirty world.app.autosaveSuspended world.app.closeAfterSave
      world.app.quit
    simp only
    split
    · exact done
    · rename_i held
      split
      · exact done.draws
      · rename_i free
        have idle : world.slot = none := by
          have none_ := (not_or.mp free).1
          rwa [Bool.not_eq_true, Option.isSome_eq_false_iff, Option.isNone_iff_eq_none] at none_
        cases read with
        | none => exact done.slots idle files.small_none rfl
        | some text =>
          have small : files.tooLarge text = false := files.small_of_bounded (by simpa using held)
          exact done.slots idle (files.small_some small) rfl

theorem Sound.autosaves (sound : Sound files large world) (readOnly : Bool) :
    Sound files large { world with app := world.app.autosave readOnly } := by
  unfold App.autosave
  split
  · exact sound.asks readOnly
  · exact sound

namespace World

/-- The save that a step lets the daemon compare with the disk. -/
def compares (files : Files Text Rev) (world : World Text Rev) :
    Event Text → Option (SaveRequest Text)
  | .serve true _ =>
    match world.up with
    | .saveRequest request :: _ =>
      if world.answer.isSome ∨ world.operation.isSome ∨ files.readOnly ∨
        files.tooLarge request.text then none
      else some request
    | _ => none
  | _ => none

/-- The daemon meets a file that is too large. -/
def oversaves (files : Files Text Rev) (world : World Text Rev) (event : Event Text) : Bool :=
  (world.compares files event).isSome && world.disk.any files.tooLarge

/-- The daemon makes the file anew. -/
def creates [DecidableEq Rev] (files : Files Text Rev) (world : World Text Rev)
    (event : Event Text) : Bool :=
  (world.compares files event).isSome && world.disk.isNone && decide (world.revision = files.absent)

end World

/-- What holds at every moment still holds after the next step. -/
theorem World.step_sound [DecidableEq Text] [DecidableEq Rev] {before after : World Text Rev}
    {event : Event Text} (step : World.step files before event after)
    (sound : Sound files large before) (spared : before.oversaves files event = true → large) :
    Sound files large after := by
  obtain rfl := step
  cases event with
  | external content => exact sound.frame content _ _ _ _ _ _ _ _ _
  | refresh room => exact sound.refreshDisk room
  | edit text dirty => exact sound.frame _ _ _ _ _ text dirty _ _ _
  | save => exact sound.asks files.readOnly
  | autosave => exact sound.autosaves files.readOnly
  | closeAndSave => exact (sound.asks files.readOnly).frame _ _ _ _ _ _ _ _ _ _
  | flush =>
    simp only [World.apply]
    split
    · exact sound
    · rename_i request outbox
      exact sound.flushes outbox
  | receive ok dirty =>
    simp only [World.apply]
    split
    · exact sound
    · rename_i message rest down
      exact sound.receives ok dirty down
  | serve ok room =>
    simp only [World.apply]
    split
    · exact sound
    · rename_i message rest up
      split
      · exact sound
      · rename_i allowed
        have idle : before.answer = none := by
          have none_ := (not_or.mp allowed).1
          rwa [Bool.not_eq_true, Option.isSome_eq_false_iff, Option.isNone_iff_eq_none] at none_
        refine sound.serves ok room up idle ?_
        rintro request rfl rfl writable small text disk tooLarge
        refine spared ?_
        simp only [World.locks, true_and, not_or] at allowed
        simp [World.oversaves, World.compares, up, disk, tooLarge, allowed, writable, small]
  | answer => exact sound.delivers
  | readDisk =>
    simp only [World.apply]
    split
    · exact sound
    · exact sound.frame _ _ _ _ (some before.disk) _ _ _ _ _
  | takeDisk room => exact sound.takesDisk room
  | keepMine room =>
    cases room with
    | false => exact sound
    | true => exact @Sound.enqueues _ _ _ _ _ sound .save rfl rfl
  | take =>
    simp only [World.apply]
    split
    · rename_i command rest none_ commands
      exact sound.takes none_ commands _
    · exact sound
  | forward => exact sound.forwards

theorem World.opened_sound (disk : Option Text) (small : files.tooLarge text = true → large) :
    Sound files large (World.opened files disk text) := by
  have known : files.Known large [some text] (files.fileRevision text) := by
    cases size : files.tooLarge text with
    | true => exact .inr (.inl ⟨small size, if_pos size⟩)
    | false => exact .inl ⟨some text, mem_singleton_self _, files.small_some size, rfl⟩
  refine ⟨nofun, nofun, .inl rfl, nofun, nofun, nofun, nodup_nil, nofun, nofun, nofun, ?_, nofun,
    known, nofun, ?_⟩
  · rintro request (there | there) <;> cases there
  · intro front request shorter
    exact absurd (prefix_nil.mp shorter) (by simp)

theorem World.start_sound [DecidableEq Rev] (disk : Option Text)
    (small : files.tooLarge text = true → large) :
    Sound files large (World.start files disk text) :=
  (World.opened_sound disk small).refresh rfl

/-- Whether the revision may be that of a file too large matters only where it is the empty one. -/
theorem Sound.change {large' : Prop} (sound : Sound files large world)
    (more : large → world.revision = files.absent → large') : Sound files large' world := by
  have known {seen : List (Option Text)} (held : files.Known large seen world.revision) :
      files.Known large' seen world.revision :=
    held.imp_right (Or.imp_left fun ⟨stale, absent⟩ => ⟨more stale absent, absent⟩)
  have ahead (seen : List (Option Text)) (mine : Option Nat) (up : List (EditorMessage Text)) :=
    @Track.after_mono Text Rev files seen seen mine mine (world.track files large seen)
      (world.track files large' seen) up (fun _ given => given) (fun _ _ _ _ same => same) rfl rfl
      known
  have shape := ahead [] none world.up
  refine ⟨sound.numbers, sound.numbered, ?_, ?_, sound.answer, sound.queued, sound.saves,
    sound.below, sound.flight, sound.outbox, sound.given, sound.text, (ahead _ _ _).2.2 sound.known,
    ?_, ?_⟩
  · have ports := sound.ports
    unfold World.ahead at ports
    rw [shape.1] at ports
    exact ports
  · have snapshots := sound.snapshots
    unfold World.ahead at snapshots
    rw [shape.2.1] at snapshots
    exact snapshots
  · exact fun request asked => (ahead _ _ _).2.2 (sound.asked request asked)
  · exact fun front request shorter => (ahead _ _ _).2.2 (sound.each front request shorter)

theorem Files.Hashes.content (hashes : files.Hashes) {content : Option Text}
    (small : files.tooLarge text = false)
    (same : files.revision content = files.fileRevision text) : content = some text := by
  have hash := files.fileRevision_of_small small
  cases content with
  | none => exact absurd (same.trans hash).symm (hashes.some_ text)
  | some other =>
    cases large : files.tooLarge other with
    | true => exact absurd (hash.symm.trans (same.symm.trans (if_pos large))) (hashes.some_ text)
    | false => exact congrArg some (hashes.injective ((files.fileRevision_of_small large).symm.trans (same.trans hash)))

theorem Files.Hashes.same (hashes : files.Hashes) {content other : Option Text}
    (small : files.Small content) (small' : files.Small other)
    (same : files.revision content = files.revision other) : content = other := by
  cases other with
  | some text => exact hashes.content (small' text rfl) same
  | none =>
    cases content with
    | none => rfl
    | some text => exact (hashes.content (small text rfl) same.symm).symm

section Writes

variable {before after : World Text Rev} {event : Event Text}

theorem World.refresh_writes [DecidableEq Rev] : (world.refresh files).writes = world.writes := by
  unfold World.refresh
  split
  · rfl
  · split <;> rfl

theorem World.refreshDisk_writes (room : Bool) :
    (world.refreshDisk room).writes = world.writes := by
  unfold World.refreshDisk
  split <;> rfl

theorem World.finish_writes (room : Bool) (id : Nat) :
    (world.finish room id).1.writes = world.writes := by
  unfold World.finish
  split
  · rfl
  · split
    · rfl
    · dsimp only
      split
      · exact World.refreshDisk_writes room
      · rfl

theorem World.finishReload_writes (id : Nat) : (world.finishReload id).1.writes = world.writes := by
  unfold World.finishReload
  split
  · rfl
  · split <;> rfl

/-- A message that is no save writes nothing. -/
theorem World.handle_writes [DecidableEq Rev] (ok room : Bool) {message : EditorMessage Text}
    (save : message.saveId = none) :
    (world.handle files ok room message).writes = world.writes := by
  cases message with
  | saveRequest request => cases save
  | state disk =>
    unfold World.handle
    dsimp only
    split
    · exact @World.refresh_writes _ _ _ world _
    · rfl
  | diskConflict id text =>
    have finish := @World.finish_writes _ _ world room id
    unfold World.handle
    dsimp only
    split <;> rename_i eq <;> rw [eq] at finish <;> exact finish
  | applied id =>
    cases id with
    | disk id =>
      have finish := @World.finish_writes _ _ world room id
      unfold World.handle
      dsimp only
      split <;> rename_i eq <;> rw [eq] at finish <;> exact finish
    | port id =>
      have finish := @World.finishReload_writes _ _ world id
      unfold World.handle
      dsimp only
      split <;> rename_i eq <;> rw [eq] at finish <;> exact finish
  | refused id =>
    cases id with
    | disk id =>
      have finish := @World.finish_writes _ _ world room id
      unfold World.handle
      dsimp only
      split <;> rename_i eq <;> rw [eq] at finish
      · exact (World.refreshDisk_writes room).trans finish
      · exact finish
    | port id => exact World.finishReload_writes id

/-- A save writes over what the daemon's revision is that of. -/
theorem World.saveRequest_writes [DecidableEq Rev] (ok : Bool) (request : SaveRequest Text) :
    (world.saveRequest files ok request).writes = world.writes ∨
      (world.saveRequest files ok request).writes = world.writes ++ [⟨world.disk, request⟩] ∧
      ok = true ∧
        files.readOnly = false ∧ files.tooLarge request.text = false ∧
        (∀ text, world.disk = some text → files.bounded text = true) ∧ files.revision world.disk =
          world.revision := by
  unfold World.saveRequest
  dsimp only
  split
  · exact .inl rfl
  · rename_i passed
    simp only [not_or, Bool.not_eq_true, Bool.not_eq_false] at passed
    obtain ⟨writable, small, ok⟩ := passed
    cases disk : world.disk with
    | none =>
      dsimp only
      split
      · exact .inl rfl
      · rename_i absent
        exact .inr ⟨rfl, ok, writable, small, nofun, (Decidable.not_not.mp absent).symm⟩
    | some text =>
      dsimp only
      split
      · exact .inl rfl
      · rename_i current
        obtain ⟨bounded, same⟩ := not_or.mp current
        refine .inr ⟨rfl, ok, writable, small, ?_, Decidable.not_not.mp same⟩
        rintro _ ⟨⟩
        simpa using bounded

/-- What a step writes, a save that was compared with the disk writes over a content of the daemon's
revision. -/
theorem World.step_writes [DecidableEq Text] [DecidableEq Rev]
    (step : World.step files before event after) {write : Write Text}
    (member : write ∈ after.writes) : write ∈ before.writes ∨
      ∃ request rest, before.up = .saveRequest request :: rest ∧ write = ⟨before.disk, request⟩ ∧
        before.compares files event = some request ∧
        (∀ text, before.disk = some text → files.bounded text = true) ∧
        files.revision before.disk = before.revision := by
  obtain rfl := step
  cases event with
  | external _ | edit _ _ | save | autosave | closeAndSave | answer => exact .inl member
  | refresh room => exact .inl (World.refreshDisk_writes room ▸ member)
  | flush | receive _ _ | readDisk | keepMine _ | take =>
    simp only [World.apply] at member
    split at member <;> exact .inl member
  | takeDisk room =>
    simp only [World.apply, World.takeDisk] at member
    repeat' split at member
    all_goals exact .inl member
  | forward =>
    simp only [World.apply, World.forward] at member
    split at member <;> exact .inl member
  | serve ok room =>
    simp only [World.apply] at member
    split at member
    · exact .inl member
    · rename_i message rest up
      split at member
      · exact .inl member
      · rename_i allowed
        cases save : message.saveId with
        | none =>
          have same := @World.handle_writes _ _ files { before with up := rest } _ ok room message
            save
          exact .inl (same ▸ member)
        | some id =>
          cases message with
          | saveRequest request =>
            rcases @World.saveRequest_writes _ _ files { before with up := rest } _ ok request with
              same | ⟨more, rfl, writable, small, clean, current⟩
            · exact .inl (same ▸ member)
            · replace member := more ▸ member
              rcases mem_append.mp member with old | last
              · exact .inl old
              · refine .inr ⟨request, rest, up, mem_singleton.mp last, ?_, clean, current⟩
                simp only [World.locks, true_and, not_or] at allowed
                simp [World.compares, up, allowed, writable, small]
          | _ => cases save

/-- What a step writes over has been given, unless it makes the file anew over the revision of one
too large. -/
theorem Sound.writes [DecidableEq Text] [DecidableEq Rev] (sound : Sound files large before)
    (hashes : files.Hashes) (step : World.step files before event after)
    (spared : before.creates files event = true → ¬ large)
    (given : ∀ write ∈ before.writes, write.replaced ∈ write.request.seen) :
    ∀ write ∈ after.writes, write.replaced ∈ write.request.seen := by
  intro write member
  rcases World.step_writes step member with old | ⟨request, rest, up, rfl, compares, bounded, current⟩
  · exact given write old
  · have small : files.Small before.disk := fun text disk =>
      files.small_of_bounded (bounded text disk)
    rcases sound.known_first up with ⟨content, seen, smaller, same⟩ | ⟨stale, absent⟩ | ⟨text,
      binary, same⟩
    · exact hashes.same smaller small (same.trans current.symm) ▸ seen
    · refine absurd stale (spared ?_)
      have none_ : before.disk = none := hashes.same small files.small_none (current.trans absent)
      simp [World.creates, compares, none_, absent]
    · -- The daemon's revision is that of a binary, which is not what is written over.
      cases disk : before.disk with
      | none => exact absurd (same.symm.trans (current.symm.trans (congrArg files.revision disk))) (hashes.some_ text)
      | some other =>
        have hash : files.revisionOf other = files.revisionOf text := by
          rw [← files.fileRevision_of_small (small other disk), ← same, ← current, disk]
          rfl
        have bounded := bounded other disk
        rw [hashes.injective hash, Files.bounded, binary] at bounded
        cases bounded

end Writes

section Runs

variable [DecidableEq Text] [DecidableEq Rev] {steps : List (Taken (World Text Rev) (Event Text))}
  {first : World Text Rev}

/-- After a save that met a file too large, none makes the file anew before the daemon's revision is
another. -/
def Apart (files : Files Text Rev) (steps : List (Taken (World Text Rev) (Event Text))) : Prop :=
  ∀ i j : Fin steps.length, i < j → steps[i].before.oversaves files steps[i].event = true →
    steps[j].before.creates files steps[j].event = true → ∃ k, i < k ∧ k < j ∧
      steps[k].before.revision ≠ files.absent

instance (files : Files Text Rev) : Decidable (Apart files steps) := by
  unfold Apart
  infer_instance

/-- The induction is on the run; `large` tells whether the revision is still that of a file too
large. -/
theorem Sound.run (hashes : files.Hashes) (run : Run (World.step files) first steps world)
    (sound : Sound files large first) (apart : Apart files steps)
    (fresh : large → ∀ j : Fin steps.length, steps[j].before.creates files steps[j].event = true →
      ∃ k < j, steps[k].before.revision ≠ files.absent)
    (given : ∀ write ∈ first.writes, write.replaced ∈ write.request.seen) :
    ∀ write ∈ world.writes, write.replaced ∈ write.request.seen := by
  induction run generalizing large with
  | nil => exact given
  | @cons first event second steps last taken rest ih =>
    have spared : first.creates files event = true → ¬ large := fun makes stale => by
      obtain ⟨k, below, _⟩ := fresh stale 0 makes
      exact absurd below (Fin.not_lt_zero k)
    have kept : Sound files (large ∧ first.revision = files.absent ∨ first.oversaves files event =
        true) second :=
      World.step_sound taken (sound.change fun stale absent => .inl ⟨stale, absent⟩) .inr
    refine ih kept (fun i j before meets makes => ?_) ?_ (sound.writes hashes taken spared given)
    · obtain ⟨k, above, below, other⟩ := apart i.succ j.succ (Fin.succ_lt_succ_iff.mpr before) meets
        makes
      obtain rfl | ⟨k, rfl⟩ := Fin.eq_zero_or_eq_succ k
      · exact absurd above (Fin.not_lt_zero _)
      · exact ⟨k, Fin.succ_lt_succ_iff.mp above, Fin.succ_lt_succ_iff.mp below, other⟩
    · rintro (⟨stale, absent⟩ | meets) j makes
      · obtain ⟨k, below, other⟩ := fresh stale j.succ makes
        obtain rfl | ⟨k, rfl⟩ := Fin.eq_zero_or_eq_succ k
        · exact absurd absent other
        · exact ⟨k, Fin.succ_lt_succ_iff.mp below, other⟩
      · obtain ⟨k, above, below, other⟩ := apart 0 j.succ (Fin.succ_pos j) meets makes
        obtain rfl | ⟨k, rfl⟩ := Fin.eq_zero_or_eq_succ k
        · exact absurd above (Fin.not_lt_zero _)
        · exact ⟨k, Fin.succ_lt_succ_iff.mp below, other⟩

/-- Over every run the daemon writes only over contents that the editor had been given when it
asked, where no save makes the file anew over the revision of one that was too large. -/
theorem no_unseen_overwrite (files : Files Text Rev) (hashes : files.Hashes) {disk : Option Text}
    {text : Text} (bounded : files.bounded text = true)
    {steps : List (Taken (World Text Rev) (Event Text))} {world : World Text Rev}
    (run : Run (World.step files) (World.start files disk text) steps world)
    (apart : Apart files steps) : ∀ write ∈ world.writes, write.replaced ∈ write.request.seen :=
  Sound.run hashes run (World.start_sound disk (by simp [files.small_of_bounded bounded]))
  apart False.elim
    (by rw [World.start, World.refresh_writes]; exact nofun)

end Runs

/-- Contents are numbers; nine is too large. -/
private def numbers : Files Nat (Option Nat) where
  revisionOf := some
  absent := none
  binary _ := false
  tooLarge text := text == 9
  readOnly := false

private theorem numbers_hashes :
    numbers.Hashes := ⟨fun _ _ => Option.some.inj, fun _ => Option.some_ne_none _⟩

/-- A save is refused over a file too large, and another over what others have written then; the
file is deleted, the editor hears of it, and the user saves once more. -/
private def overwrites : List (Event Nat) :=
  [.edit 1 true, .external (some 9), .save, .flush, .serve true true, .answer, .receive true true,
    .external (some 7), .keepMine true, .take, .forward, .receive true true, .flush,
    .serve true true, .answer, .receive true true,
    .external none, .refresh true, .take, .forward, .receive true true, .serve true true, .answer,
    .receive true true,
    .serve true true, .save, .flush, .serve true true]

theorem no_unseen_overwrite_kept :
    let world := Run.replay (World.apply numbers) (World.start numbers (some 0) 0) overwrites
    world.writes = [⟨none, ⟨1002, 1, [none, some 7, some 0]⟩⟩] ∧
      ∀ write ∈ world.writes, write.replaced ∈ write.request.seen := by
  have admitted : Run.admits (World.apply numbers) (fun _ _ => true)
      (World.start numbers (some 0) 0) overwrites =
      true := rfl
  exact ⟨by decide, no_unseen_overwrite numbers numbers_hashes (by decide) (Run.of_admits (fun _ => rfl) admitted)
    (by decide +kernel)⟩

/-- A save is refused over a file too large; the file is deleted, of which the editor does not hear,
and the next save makes it anew. -/
private def recreates : List (Event Nat) :=
  [.edit 1 true, .external (some 9), .save, .flush, .serve true true, .answer, .receive true true,
    .external none, .refresh true, .take, .forward, .receive true true, .serve true true, .save,
    .flush, .serve true true]

theorem overwrites_unseen : ∃ (steps : List (Taken (World Nat (Option Nat)) (Event Nat)))
    (world : World Nat (Option Nat)), numbers.Hashes ∧ numbers.bounded 0 = true ∧
      Run (World.step numbers) (World.start numbers (some 0) 0) steps world ∧
      ∃ write ∈ world.writes, write.replaced ∉ write.request.seen := by
  have admitted : Run.admits (World.apply numbers) (fun _ _ => true)
      (World.start numbers (some 0) 0) recreates =
      true := rfl
  exact ⟨_, _, numbers_hashes, rfl, Run.of_admits (fun _ => rfl) admitted,
    ⟨none, ⟨1001, 1, [some 0]⟩⟩, by decide, by decide⟩

end ForgeNode.Saves
