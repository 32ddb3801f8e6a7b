import ForgeNode.Saves.Asking

/-! What the daemon does keeps it so, and lets it write over nothing that the editor has not been
given. -/

namespace ForgeNode.Saves

open List

variable {Text Rev : Type} {files : Files Text Rev} {large : Prop} {world : World Text Rev}

variable {id : Nat} {message : EditorMessage Text} {rest : List (EditorMessage Text)}

theorem Sound.frame (sound : Sound files large world) (disk : Option Text)
    (conflict owed diskRefresh : Bool) (operation : Option (Option Text)) (text : Text)
    (dirty autosaveSuspended closeAfterSave quit : Bool) : Sound files large { world with
      disk, conflict, owed, diskRefresh, operation
      app := { world.app with text, dirty, autosaveSuspended, closeAfterSave, quit } } :=
  ⟨sound.numbers, sound.numbered, sound.ports, sound.snapshots, sound.answer, sound.queued,
  sound.saves, sound.below,
    sound.flight, sound.outbox, sound.given, sound.text, sound.known, sound.asked, sound.each⟩

/-- The thread gets a command without a number. -/
theorem Sound.enqueues (sound : Sound files large world) {command : DaemonMessage Text Rev}
    (number : command.number = none) (ofLoop : command.ofLoop = false) :
    Sound files large { world with commands := world.commands ++ [command] } := by
  have queued : World.queued { world with commands := world.commands ++ [command] } =
    world.queued ++ [command] :=
    (append_assoc _ _ _).symm
  have plain : command.port = none := by cases command <;> first | rfl | cases number
  have ports : World.ports { world with commands := world.commands ++ [command] } = world.ports := by
    unfold World.ports
    rw [queued, ← append_assoc, filterMap_append]
    simp [plain]
  refine ⟨sound.numbers, ?_, ports ▸ sound.ports, sound.snapshots, sound.answer, ?_, sound.saves,
    sound.below, sound.flight, sound.outbox, sound.given, sound.text, sound.known, sound.asked,
    sound.each⟩
  · rw [queued, ← append_assoc]
    intro message member n named
    rcases mem_append.mp member with before | last
    · exact sound.numbered message before n named
    · obtain rfl := mem_singleton.mp last
      exact absurd (number.symm.trans named) nofun
  · rw [queued]
    intro message member
    rcases mem_append.mp member with before | last
    · exact sound.queued message before
    · exact mem_singleton.mp last ▸ ofLoop

theorem Sound.refreshDisk (sound : Sound files large world) (room : Bool) :
    Sound files large (world.refreshDisk room) := by
  unfold World.refreshDisk
  split
  · exact sound
  · split
    · exact (@Sound.enqueues _ _ _ _ _ sound (.getState false) rfl rfl).frame world.disk
        world.conflict world.owed true world.operation _ _ _ _ _
    · exact sound.frame world.disk world.conflict world.owed true world.operation _ _ _ _ _

/-- The loop has handled a message that is no save. -/
theorem Sound.handles (sound : Sound files large world) {message : EditorMessage Text}
    {rest : List (EditorMessage Text)} (up : world.up = message :: rest)
    (save : message.saveId = none) {revision : Rev} {slot : Option (Nat × Option Rev)}
    {pending : Option (Nat × Option Text)} (track : ∀ seen mine,
      let after := (world.track files large seen).next files seen mine message
      after.slot = slot ∧ after.pending = pending ∧
      (after.known → files.Known large seen revision)) :
    Sound files large { world with up := rest, revision, slot, pending } := by
  have behind : ∀ other ∈ rest, other ∈ world.up := fun other member => up ▸ mem_cons_of_mem _ member
  have ahead (seen : List (Option Text)) (mine : Option Nat) :
      (world.ahead files large seen mine).slot =
          (World.ahead files large seen mine
          { world with up := rest, revision, slot, pending }).slot ∧
        (world.ahead files large seen mine).pending =
          (World.ahead files large seen mine
          { world with up := rest, revision, slot, pending }).pending ∧
        ((world.ahead files large seen mine).known →
          (World.ahead files large seen mine
          { world with up := rest, revision, slot, pending }).known) := by
    obtain ⟨slots, pendings, known⟩ := track seen mine
    unfold World.ahead
    rw [up, Track.after_cons]
    exact Track.after_mono (fun _ given => given) (fun _ _ _ _ same => same) slots pendings known
  have ids : rest.filterMap EditorMessage.saveId = world.up.filterMap EditorMessage.saveId := by
    rw [up, filterMap_cons, save]
  refine ⟨fun other member => sound.numbers other (behind other member), sound.numbered, ?_,
    ?_, sound.answer, sound.queued, ?_, ?_, sound.flight, ?_, ?_, ?_, ?_, ?_, ?_⟩
  · rw [← (ahead [] none).1]
    exact sound.ports
  · rw [← (ahead [] none).2.1]
    exact sound.snapshots
  · exact ids.symm ▸ sound.saves
  · exact ids.symm ▸ sound.below
  · exact ids.symm ▸ sound.outbox
  · exact fun request there => sound.given request (there.imp_left (behind _))
  · exact fun request text there => sound.text request text (behind _ there)
  · exact (ahead _ _).2.2 sound.known
  · exact fun request named => (ahead _ _).2.2 (sound.asked request named)
  · intro front request shorter
    have whole : message :: front ++ [EditorMessage.saveRequest request] <+: world.up := by
      rw [up]
      exact (prefix_cons_inj message).mpr shorter
    obtain ⟨slots, pendings, known⟩ := track request.seen none
    have known_ := sound.each (message :: front) request whole
    rw [Track.after_cons] at known_
    exact (@Track.after_mono Text Rev files request.seen request.seen none none _
      (World.track files large request.seen { world with up := rest, revision, slot, pending }) front
      (fun _ given => given) (fun _ _ _ _ same => same) slots pendings known).2.2 known_

/-- The loop looks at the disk. -/
theorem Sound.refresh [DecidableEq Rev] (sound : Sound files large world)
    (idle : world.answer = none) : Sound files large (world.refresh files) := by
  unfold World.refresh
  split
  · exact sound.frame world.disk world.conflict true world.diskRefresh world.operation _ _ _ _ _
  · rename_i settled
    split
    · exact sound
    · rename_i changed
      have none_ : world.pending = none := by
        rwa [Bool.not_eq_true, Option.isSome_eq_false_iff, Option.isNone_iff_eq_none] at settled
      have fresh : ∀ message ∈ world.up, message.number ≠ some world.nextId :=
        fun message member same =>
        Nat.lt_irrefl _ (sound.numbers message member _ same)
      have shape (seen : List (Option Text)) (mine : Option Nat) :=
        @Track.after_pending Text Rev files seen mine world.nextId world.disk world.up
          (files.Known large seen world.revision) world.slot fresh
      have before (seen : List (Option Text)) : world.track files large seen =
          ⟨files.Known large seen world.revision, world.slot, none⟩ := by
        unfold World.track
        rw [none_]
      have sent : World.sent { world with
          pending := some (world.nextId, world.disk)
          nextId := world.nextId + 1
          answer := some (.diskChanged world.nextId world.disk) } =
            world.sent ++ [.diskChanged world.nextId world.disk] := by
        simp [World.sent, idle]
      have silent : (world.sent ++ [DaemonMessage.diskChanged world.nextId world.disk]).filterMap
          world.app.promised =
          world.sent.filterMap world.app.promised := by
        simp [App.promised]
      have unanswered : (world.sent ++ [DaemonMessage.diskChanged world.nextId world.disk]).filterMap
          DaemonMessage.answers = world.sent.filterMap DaemonMessage.answers := by
        simp [DaemonMessage.answers]
      refine ⟨fun message member n named =>
        Nat.lt_succ_of_lt (sound.numbers message member n named), ?_, ?_, ?_, ?_, sound.queued, ?_,
        ?_, sound.flight, ?_, sound.given, sound.text, ?_, ?_, ?_⟩
      · rw [sent]
        intro message member n named
        rcases mem_append.mp member with there | there
        · rcases mem_append.mp there with before | last
          · exact Nat.lt_succ_of_lt (sound.numbered message (mem_append_left _ before) n named)
          · obtain rfl := mem_singleton.mp last
            cases named
            exact Nat.lt_succ_self _
        · exact Nat.lt_succ_of_lt (sound.numbered message (mem_append_right _ there) n named)
      · have slots := (shape [] none).1
        have ports := sound.ports
        unfold World.ahead at ports ⊢
        rw [before] at ports
        rw [← slots] at ports
        exact ports
      · rw [sent]
        intro n text member
        rcases mem_append.mp member with earlier | last
        · refine ⟨(sound.snapshots n text earlier).1, fun other named => ?_⟩
          cases named.symm.trans (shape [] none).2.1
          exact absurd (sound.numbered _ (mem_append_left _ earlier) _ rfl) (Nat.lt_irrefl _)
        · cases mem_singleton.mp last
          refine ⟨fun text here => ?_, fun other named => ?_⟩
          · refine files.small_of_bounded ?_
            simpa [here] using (not_or.mp changed).1
          · cases named.symm.trans (shape [] none).2.1
            rfl
      · rintro message ⟨⟩
        rfl
      · rw [sent, unanswered]
        exact sound.saves
      · rw [sent, unanswered]
        exact sound.below
      · rw [sent, unanswered]
        exact sound.outbox
      · have known := sound.known
        unfold World.told
        rw [sent, silent]
        unfold World.ahead at known ⊢
        rw [before] at known
        exact (shape _ _).2.2.2 ▸ known
      · intro request named
        have known := sound.asked request named
        unfold World.ahead at known ⊢
        rw [before] at known
        exact (shape _ _).2.2.2 ▸ known
      · intro front request shorter
        have known := sound.each front request shorter
        rw [before] at known
        have early : ∀ message ∈ front, message.number ≠ some world.nextId := fun message member =>
          fresh message (shorter.subset (mem_append_left _ member))
        exact (@Track.after_pending Text Rev files request.seen none world.nextId world.disk front
          (files.Known large request.seen world.revision) world.slot early).2.2.2 ▸ known

theorem Sound.known_first (sound : Sound files large world) {request : SaveRequest Text}
    (up : world.up = .saveRequest request :: rest) :
    files.Known large request.seen world.revision :=
  sound.each [] request (by rw [up]; exact (prefix_cons_inj _).mpr nil_prefix)

/-- The loop has settled a save: it writes or refuses, and is about to say so. -/
theorem Sound.answers (sound : Sound files large world) {request : SaveRequest Text}
    {rest : List (EditorMessage Text)} (up : world.up = .saveRequest request :: rest)
    (idle : world.answer = none) {revision : Rev} {answer : DaemonMessage Text Rev}
    (about : answer.answers = some request.id)
    (learnt : world.app.inFlight = some (request.id, request.text) →
      files.Known large ((world.app.promised answer).toList ++ world.app.seen) revision)
    (writes : List (Write Text)) :
    Sound files large { world with up := rest, revision, answer := some answer, writes } := by
  have behind : ∀ other ∈ rest, other ∈ world.up := fun other member => up ▸ mem_cons_of_mem _ member
  have sent : World.sent { world with up := rest, revision, answer := some answer, writes } =
      world.sent ++ [answer] := by
    simp [World.sent, idle]
  have mute : answer.number = none ∧ answer.ofLoop = true := by
    cases answer <;> first | exact ⟨rfl, rfl⟩ | cases about
  have perm : (world.up.filterMap EditorMessage.saveId ++ world.sent.filterMap
      DaemonMessage.answers).Perm (rest.filterMap EditorMessage.saveId ++
        (world.sent ++ [answer]).filterMap DaemonMessage.answers) := by
    have before : world.up.filterMap EditorMessage.saveId = request.id ::
        rest.filterMap EditorMessage.saveId := by
      rw [up]
      rfl
    have after : (world.sent ++ [answer]).filterMap DaemonMessage.answers =
        world.sent.filterMap DaemonMessage.answers ++ [request.id] := by
      simp [about]
    rw [before, after, ← append_assoc, cons_append]
    exact (perm_append_singleton _ _).symm
  have told : ∀ content ∈ (world.app.promised answer).toList ++ world.told,
      content ∈ World.told { world with
      up := rest, revision, answer := some answer, writes } := by
    intro content member
    unfold World.told
    rw [sent, filterMap_append]
    rcases mem_append.mp member with new | old
    · refine mem_append_left _ (mem_append_right _ ?_)
      exact mem_filterMap.mpr ⟨answer, mem_singleton_self _, Option.mem_toList.mp new⟩
    · rcases mem_append.mp old with promise | given
      · exact mem_append_left _ (mem_append_left _ promise)
      · exact mem_append_right _ given
  -- The revision is known afterwards where the save is the one in flight, and only there.
  have ahead {seen seen' : List (Option Text)} {mine : Option Nat} (more : ∀ content ∈ seen,
      content ∈ seen') (knows : mine = some request.id → files.Known large seen' revision) :
      (world.ahead files large seen mine).slot =
          (World.ahead files large seen' mine { world with
            up := rest, revision, answer := some answer, writes }).slot ∧
        (world.ahead files large seen mine).pending =
          (World.ahead files large seen' mine { world with
            up := rest, revision, answer := some answer, writes }).pending ∧
        ((world.ahead files large seen mine).known →
          (World.ahead files large seen' mine { world with
            up := rest, revision, answer := some answer, writes }).known) := by
    unfold World.ahead
    rw [up, Track.after_cons]
    exact Track.after_mono more (fun _ _ _ _ same => same) rfl rfl knows
  have shape := @ahead [] [] none (fun _ given => given) nofun
  refine ⟨fun other member => sound.numbers other (behind other member), ?_, ?_, ?_, ?_,
    sound.queued, ?_, ?_, sound.flight, ?_, ?_, fun request text there =>
    sound.text request text (behind _ there), ?_, ?_, ?_⟩
  · rw [sent]
    intro message member n named
    rcases mem_append.mp member with there | there
    · rcases mem_append.mp there with before | last
      · exact sound.numbered message (mem_append_left _ before) n named
      · obtain rfl := mem_singleton.mp last
        exact absurd (mute.1.symm.trans named) nofun
    · exact sound.numbered message (mem_append_right _ there) n named
  · rw [← shape.1]
    exact sound.ports
  · rw [← shape.2.1, sent]
    intro n text member
    rcases mem_append.mp member with before | last
    · exact sound.snapshots n text before
    · cases mem_singleton.mp last
      cases about
  · rintro message ⟨⟩
    exact mute.2
  · rw [sent]
    exact perm.nodup_iff.mp sound.saves
  · rw [sent]
    exact fun id member => sound.below id (perm.mem_iff.mpr member)
  · rw [sent]
    intro other named
    obtain ⟨mine, fresh⟩ := sound.outbox other named
    exact ⟨mine, fun member => fresh (perm.mem_iff.mpr member)⟩
  · exact fun other there => sound.given other (there.imp_left (behind _))
  · refine (ahead (fun content member => told content (mem_append_right _ member)) ?_).2.2 sound.known
    intro mine
    obtain ⟨pair, flight, named⟩ := Option.map_eq_some_iff.mp mine
    obtain ⟨id, text⟩ := pair
    obtain rfl : id = request.id := named
    have first : .saveRequest request ∈ world.up := up ▸ mem_cons_self
    obtain rfl := sound.text request text first flight
    refine Files.Known.mono (fun content member => told content ?_) (learnt flight)
    exact (mem_append.mp member).elim (mem_append_left _)
      fun given => mem_append_right _ (mem_append_right _ given)
  · exact fun other named => (@ahead _ _ none (fun _ given => given) nofun).2.2
      (sound.asked other named)
  · intro front other shorter
    have whole : .saveRequest request :: front ++ [EditorMessage.saveRequest other] <+: world.up := by
      rw [up]
      exact (prefix_cons_inj _).mpr shorter
    have known := sound.each (.saveRequest request :: front) other whole
    rw [Track.after_cons] at known
    exact (@Track.after_mono Text Rev files other.seen other.seen none none
      ((world.track files large other.seen).next files other.seen none (.saveRequest request))
      (World.track files large other.seen
      { world with up := rest, revision, answer := some answer, writes }) front
      (fun _ given => given) (fun _ _ _ _ same => same) rfl rfl (fun same => by cases same)).2.2 known

/-- A save: the loop refuses it, or writes it. -/
theorem Sound.replaces [DecidableEq Rev] (sound : Sound files large world) (ok : Bool)
    {request : SaveRequest Text} (up : world.up = .saveRequest request :: rest)
    (idle : world.answer = none) (spared : ok = true → files.readOnly = false →
      files.tooLarge request.text = false →
      ∀ text, world.disk = some text → files.tooLarge text = true → large) :
    Sound files large (World.saveRequest files ok { world with up := rest } request) := by
  have kept : files.Known large world.app.seen world.revision :=
    Files.Known.mono (sound.given request (.inl (up ▸ mem_cons_self))) (sound.known_first up)
  have failed : Sound files large { world with
      up := rest, answer := some (.saveRefused request.id none) } :=
    @Sound.answers _ _ _ _ _ sound _ _ up idle world.revision (.saveRefused request.id none) rfl
      (fun _ => Files.Known.mono (fun _ given => mem_append_right _ given) kept) _
  unfold World.saveRequest
  simp only
  split
  · exact failed
  · rename_i passed
    simp only [not_or, Bool.not_eq_true, Bool.not_eq_false] at passed
    obtain ⟨writable, small, ok⟩ := passed
    have written : Sound files large { world with
        up := rest
        disk := some request.text
        revision := files.revisionOf request.text
        conflict := false
        answer := some (.saved request.id)
        writes := world.writes ++ [⟨world.disk, request⟩] } := by
      refine (@Sound.answers _ _ _ _ _ sound _ _ up idle (files.revisionOf request.text)
        (.saved request.id) rfl ?_ (world.writes ++ [⟨world.disk, request⟩])).frame _ _ _ _ _ _ _ _
        _ _
      intro flight
      refine .inl ⟨some request.text, mem_append_left _ ?_, files.small_some small,
        files.fileRevision_of_small small⟩
      simp [App.promised, flight]
    split
    · rename_i text disk
      split
      · refine (@Sound.answers _ _ _ _ _ sound _ _ up idle (files.fileRevision text)
          (.saveRefused request.id (files.fileText text)) rfl ?_ _).frame _ _ _ _ _ _ _ _ _ _
        intro flight
        cases size : files.tooLarge text with
        | true => exact .inr (.inl ⟨spared ok writable small text disk size, if_pos size⟩)
        | false =>
          cases binary : files.binary text with
          | true => exact .inr (.inr ⟨text, binary, files.fileRevision_of_small size⟩)
          | false =>
            refine .inl ⟨some text, mem_append_left _ ?_, files.small_some size, rfl⟩
            simp [App.promised, flight, Files.fileText, Files.bounded, binary, size]
      · exact written
    · split
      · exact failed
      · exact written

theorem Sound.skips (sound : Sound files large world)
    (up : world.up = message :: rest) (save : message.saveId = none)
    (same : ∀ seen mine, (world.track files large seen).next files seen mine message =
      world.track files large seen) :
    Sound files large { world with up := rest } :=
  @Sound.handles _ _ _ _ _ sound _ _ up save world.revision world.slot world.pending
  fun seen mine => by
    simp only [same seen mine]
    exact ⟨rfl, rfl, id⟩

theorem World.refreshDisk_revision (room : Bool) (revision : Rev) (conflict : Bool) :
    { world.refreshDisk room with revision, conflict } =
      World.refreshDisk room { world with revision, conflict } := by
  by_cases flag : world.diskRefresh
  · simp [World.refreshDisk, flag]
  · simp [World.refreshDisk, flag]

theorem Sound.finished {revision : Rev}
    (sound : Sound files large { world with revision, pending := none })
    (room conflict : Bool) :
    Sound files large
    { (if world.owed then World.refreshDisk room { world with pending := none, owed := false }
      else { world with pending := none }) with revision, conflict } := by
  split
  · rw [World.refreshDisk_revision]
    exact (sound.frame world.disk conflict false world.diskRefresh world.operation _ _ _ _
      _).refreshDisk room
  · exact sound.frame world.disk conflict world.owed world.diskRefresh world.operation _ _ _ _ _

theorem World.finish_some {room : Bool} {id : Nat} {text : Option Text}
    (pending : world.pending = some (id, text)) : world.finish room id =
      (if world.owed then World.refreshDisk room { world with pending := none, owed := false }
      else { world with pending := none }, some text) := by
  simp only [World.finish, pending]
  rw [if_neg (by simp)]

theorem World.finish_other {room : Bool} {id : Nat}
    (other : ∀ text, world.pending ≠ some (id, text)) : world.finish room id = (world, none) := by
  unfold World.finish
  split
  · rfl
  · rename_i pending text here
    split
    · rfl
    · rename_i same
      exact absurd (Decidable.not_not.mp same ▸ here) (other text)

theorem World.finishReload_some {id : Nat} {revision : Option Rev}
    (slot : world.slot = some (id, revision)) :
    world.finishReload id = ({ world with slot := none }, some revision) := by
  simp only [World.finishReload, slot]
  rw [if_neg (by simp)]

theorem World.finishReload_other {id : Nat} (other : ∀ revision, world.slot ≠ some (id, revision)) :
    world.finishReload id = (world, none) := by
  unfold World.finishReload
  split
  · rfl
  · rename_i pending revision here
    split
    · rfl
    · rename_i same
      exact absurd (Decidable.not_not.mp same ▸ here) (other revision)

/-- The loop handles how a disk update ended in the editor. -/
theorem Sound.ends (sound : Sound files large world) (room conflict : Bool) {text : Option Text}
    (up : world.up = message :: rest) (pending : world.pending = some (id, text)) {revision : Rev}
    (about : revision = files.revision text ∧
        (message = .applied (.disk id) ∨ ∃ mine, message = .diskConflict id mine) ∨
      revision = world.revision ∧ message = .refused (.disk id)) :
    Sound files large
    { (World.finish room id { world with up := rest }).1 with revision, conflict } := by
  have finish := @World.finish_some _ _ { world with up := rest } room id text pending
  rw [finish]
  refine Sound.finished ?_ room conflict
  rcases about with ⟨rfl, rfl | ⟨_, rfl⟩⟩ | ⟨rfl, rfl⟩
  all_goals
    refine @Sound.handles _ _ _ _ _ sound _ _ up rfl _ world.slot none fun seen mine => ?_
    simp only [Track.next, World.track, pending]
    rw [if_neg (by simp)]
  · exact ⟨rfl, rfl, .inl⟩
  · exact ⟨rfl, rfl, .inl⟩
  · exact ⟨rfl, rfl, fun known => known⟩

/-- It is of no update that the loop waits for. -/
theorem Sound.passes (sound : Sound files large world) (up : world.up = message :: rest)
    (other : ∀ text, world.pending ≠ some (id, text))
    (about : message = .applied (.disk id) ∨ (∃ mine, message = .diskConflict id mine) ∨
      message = .refused (.disk id)) : Sound files large { world with up := rest } := by
  rcases about with rfl | ⟨_, rfl⟩ | rfl
  all_goals
    refine sound.skips up rfl fun seen mine => ?_
    simp only [Track.next, World.track]
    split
    · rfl
    · rename_i pending text here
      split
      · rfl
      · rename_i same
        exact absurd (Decidable.not_not.mp same ▸ here) (other text)

/-- It is of no reload that the loop waits for. -/
theorem Sound.passesReload (sound : Sound files large world) (up : world.up = message :: rest)
    (other : ∀ revision, world.slot ≠ some (id, revision))
    (about : message = .applied (.port id) ∨ message = .refused (.port id)) :
    Sound files large { world with up := rest } := by
  rcases about with rfl | rfl
  all_goals
    refine sound.skips up rfl fun seen mine => ?_
    simp only [Track.next, World.track]
    split
    · rfl
    · rename_i pending revision here
      split
      · rfl
      · rename_i same
        exact absurd (Decidable.not_not.mp same ▸ here) (other revision)

/-- The loop handles the message at the head. -/
theorem Sound.serves [DecidableEq Rev] (sound : Sound files large world) (ok room : Bool)
    (up : world.up = message :: rest) (idle : world.answer = none)
    (spared : ∀ request, message = .saveRequest request → ok = true → files.readOnly = false →
      files.tooLarge request.text = false → ∀ text, world.disk = some text → files.tooLarge text =
        true → large) :
    Sound files large (World.handle files ok room { world with up := rest } message) := by
  cases message with
  | state disk =>
    have popped := sound.skips up rfl fun _ _ => rfl
    unfold World.handle
    simp only
    split
    · exact popped.refresh idle
    · exact popped
  | saveRequest request => exact sound.replaces ok up idle (spared request rfl)
  | diskConflict id text =>
    by_cases mine : ∃ text, world.pending = some (id, text)
    · obtain ⟨snapshot, pending⟩ := mine
      have ended := sound.ends room true up pending (.inl ⟨rfl, .inr ⟨text, rfl⟩⟩)
      simp only [World.handle, @World.finish_some _ _ { world with up := rest } room id snapshot
        pending] at ended ⊢
      exact ended
    · have other := not_exists.mp mine
      simp only [World.handle, @World.finish_other _ _ { world with up := rest } room id other]
      exact sound.passes up other (.inr (.inl ⟨text, rfl⟩))
  | applied id =>
    cases id with
    | disk id =>
      by_cases mine : ∃ text, world.pending = some (id, text)
      · obtain ⟨snapshot, pending⟩ := mine
        have ended := sound.ends room false up pending (.inl ⟨rfl, .inl rfl⟩)
        simp only [World.handle, @World.finish_some _ _ { world with up := rest } room id snapshot
          pending] at ended ⊢
        exact ended
      · have other := not_exists.mp mine
        simp only [World.handle, @World.finish_other _ _ { world with up := rest } room id other]
        exact sound.passes up other (.inl rfl)
    | port id =>
      by_cases mine : ∃ revision, world.slot = some (id, revision)
      · obtain ⟨revision, slot⟩ := mine
        simp only [World.handle, @World.finishReload_some _ _ { world with up := rest } id revision
          slot]
        refine (@Sound.handles _ _ _ _ _ sound _ _ up rfl (revision.getD world.revision)
          none world.pending fun seen mine => ?_).frame _ _ _ _ _ _ _ _ _ _
        simp only [Track.next, World.track, slot]
        rw [if_neg (by simp)]
        refine ⟨rfl, rfl, fun known => ?_⟩
        cases revision with
        | none => exact known
        | some revision => exact .inl known
      · have other := not_exists.mp mine
        simp only [World.handle, @World.finishReload_other _ _ { world with up := rest } id other]
        exact sound.passesReload up other (.inl rfl)
  | refused id =>
    cases id with
    | disk id =>
      by_cases mine : ∃ text, world.pending = some (id, text)
      · obtain ⟨snapshot, pending⟩ := mine
        have ended := sound.ends room world.conflict up pending (.inr ⟨rfl, rfl⟩)
        have finish := @World.finish_some _ _ { world with up := rest } room id snapshot pending
        simp only [World.handle, finish] at ended ⊢
        refine Sound.refreshDisk ?_ room
        split
        · rename_i owed
          rw [if_pos owed, World.refreshDisk_revision] at ended
          exact ended
        · rename_i owed
          rw [if_neg owed] at ended
          exact ended
      · have other := not_exists.mp mine
        simp only [World.handle, @World.finish_other _ _ { world with up := rest } room id other]
        exact sound.passes up other (.inr (.inr rfl))
    | port id =>
      unfold World.handle
      by_cases mine : ∃ revision, world.slot = some (id, revision)
      · obtain ⟨revision, slot⟩ := mine
        simp only [@World.finishReload_some _ _ { world with up := rest } id revision slot]
        refine @Sound.handles _ _ _ _ _ sound _ _ up rfl world.revision none world.pending
          fun seen mine => ?_
        simp only [Track.next, World.track, slot]
        rw [if_neg (by simp)]
        exact ⟨rfl, rfl, fun known => known⟩
      · have other := not_exists.mp mine
        simp only [@World.finishReload_other _ _ { world with up := rest } id other]
        exact sound.passesReload up other (.inr rfl)

end ForgeNode.Saves
