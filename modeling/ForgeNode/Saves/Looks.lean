import ForgeNode.Saves.Underway

/-! When the daemon looks at the disk again: its revision is the file's, or something under way
makes it so, or a look follows whatever is under way. -/

namespace ForgeNode.Saves

open List

variable {Text Rev : Type}

variable {app : App Text} {message : DaemonMessage Text Rev} {rest : List (EditorMessage Text)}

namespace Watch

/-- A look at the disk is due that comes after everything on the link. -/
def later (watch : Watch Text Rev) : Prop :=
  watch.world.owed = true ∨ watch.world.diskRefresh = true ∨ watch.noticed = false ∨
    watch.world.forwarding.any Prod.snd = true

instance (watch : Watch Text Rev) : Decidable watch.later := inferInstanceAs (Decidable (_ ∨ _))

def looks (watch : Watch Text Rev) : Prop :=
  watch.later ∨ .getState true ∈ watch.world.down ∨ .state true ∈ watch.world.up

/-- A reload is sent while the file still holds what it has read, or where a look comes after it. -/
def timely [DecidableEq Text] (watch : Watch Text Rev) : Event Text → Bool
  | .forward =>
    match watch.world.forwarding with
    | some (.reload _ text _, false) => decide (watch.world.disk = some text) || decide watch.later
    | _ => true
  | _ => true

/-- Is a revision under way that the loop takes over? -/
def revises (watch : Watch Text Rev) : Prop :=
  watch.world.pending.isSome = true ∨ watch.world.app.outbox.isSome = true ∨
    (∃ request, .saveRequest request ∈ watch.world.up) ∨
      (∃ message ∈ watch.world.down, message.reloadId.isSome = true) ∨ ∃ n, .applied (.port n) ∈
        watch.world.up

end Watch

/-- What the loop takes over is the file's revision, or a look comes after it. -/
structure Looked (files : Files Text Rev) (watch : Watch Text Rev) : Prop where
  known : watch.world.revision = files.revision watch.world.disk ∨ watch.looks ∨ watch.revises
  snapshot : ∀ n text, watch.world.pending = some (n, text) → text = watch.world.disk ∨ watch.looks
  sent : ∀ n text revision back, .reload n text revision :: back <:+ watch.world.down →
    watch.world.disk = some text ∨ watch.later ∨ .getState true ∈ back
  applied : ∀ n back revision, .applied (.port n) :: back <:+ watch.world.up →
    watch.world.slot = some (n, some revision) → revision = files.revision watch.world.disk ∨
      watch.later ∨ .getState true ∈ watch.world.down ∨ .state true ∈ back

section Parts

variable {files : Files Text Rev} {before after : Watch Text Rev} {world : World Text Rev}

theorem Looked.of_later (later : after.later) : Looked files after where
  known := .inr (.inl (.inl later))
  snapshot := fun _ _ _ => .inr (.inl later)
  sent := fun _ _ _ _ _ => .inr (.inl later)
  applied := fun _ _ _ _ _ => .inr (.inl later)

theorem suffix_append_cases {Item : Type} {item : Item} {list front back : List Item}
    (suffix : item :: list <:+ front ++ back) :
    item :: list <:+ back ∨ ∃ part, list = part ++ back ∧ item :: part <:+ front := by
  obtain ⟨before, same⟩ := suffix
  rcases append_eq_append_iff.mp same with ⟨part, rfl, rest⟩ | ⟨part, rfl, rfl⟩
  · cases part with
    | nil => exact .inl ⟨[], rest⟩
    | cons head part =>
      obtain ⟨rfl, rfl⟩ := List.cons.inj rest
      exact .inr ⟨part, rfl, before, rfl⟩
  · exact .inl ⟨part, rfl⟩

/-- Both queues grow, and no look is lost. -/
theorem Looked.grows (looked : Looked files before) {more : List (DaemonMessage Text Rev)}
    {said : List (EditorMessage Text)} (same : after.world = world)
    (disk : world.disk = before.world.disk) (revision : world.revision = before.world.revision)
    (pending : world.pending = before.world.pending)
    (slot : ∀ n revision, world.slot = some (n, some revision) → .applied (.port n) ∈
      before.world.up →
      before.world.slot = some (n, some revision))
    (down : world.down = before.world.down ++ more) (up : world.up = before.world.up ++ said)
    (later : before.later → after.later ∨ .getState true ∈ more)
    (reloads : ∀ n text revision, .reload n text revision ∈ more → world.disk = some text ∨
      after.later)
    (plain : ∀ n, .applied (.port n) ∉ said)
    (outbox : before.world.app.outbox.isSome = true →
      world.app.outbox.isSome = true ∨ ∃ request, .saveRequest request ∈ said) :
      Looked files after := by
  subst same
  have looks (looks : before.looks) : after.looks := by
    rcases looks with due | asked | look
    · rcases later due with due | asked
      · exact .inl due
      · exact .inr (.inl (down ▸ mem_append_right _ asked))
    · exact .inr (.inl (down ▸ mem_append_left _ asked))
    · exact .inr (.inr (up ▸ mem_append_left _ look))
  refine ⟨?_, fun n text held => ?_, fun n text revision back suffix =>
    ?_, fun n back revision suffix held => ?_⟩
  · rw [revision, disk]
    rcases looked.known with known | due | open_ | asked | ⟨request, there⟩ | ⟨message, there,
      about⟩ | ⟨n, there⟩
    · exact .inl known
    · exact .inr (.inl (looks due))
    · exact .inr (.inr (.inl (pending ▸ open_)))
    · rcases outbox asked with still | ⟨request, there⟩
      · exact .inr (.inr (.inr (.inl still)))
      · exact .inr (.inr (.inr (.inr (.inl ⟨request, up ▸ mem_append_right _ there⟩))))
    · exact .inr (.inr (.inr (.inr (.inl ⟨request, up ▸ mem_append_left _ there⟩))))
    · exact .inr (.inr (.inr (.inr (.inr (.inl ⟨message, down ▸ mem_append_left _ there, about⟩)))))
    · exact .inr (.inr (.inr (.inr (.inr (.inr ⟨n, up ▸ mem_append_left _ there⟩)))))
  · rw [disk]
    exact (looked.snapshot n text (pending ▸ held)).imp_right looks
  · rw [down] at suffix
    rcases suffix_append_cases suffix with inside | ⟨part, same, earlier⟩
    · exact (reloads n text revision (inside.subset mem_cons_self)).imp_right .inl
    · subst same
      rw [disk]
      rcases looked.sent n text revision part earlier with same | due | asked
      · exact .inl same
      · rcases later due with due | asked
        · exact .inr (.inl due)
        · exact .inr (.inr (mem_append_right _ asked))
      · exact .inr (.inr (mem_append_left _ asked))
  · rw [up] at suffix
    rcases suffix_append_cases suffix with inside | ⟨part, same, earlier⟩
    · exact absurd (inside.subset mem_cons_self) (plain n)
    · subst same
      rw [disk, down]
      rcases looked.applied n part revision earlier
        (slot n revision held (earlier.subset mem_cons_self)) with
        same | due | asked | look
      · exact .inl same
      · rcases later due with due | asked
        · exact .inr (.inl due)
        · exact .inr (.inr (.inl (mem_append_right _ asked)))
      · exact .inr (.inr (.inl (mem_append_left _ asked)))
      · exact .inr (.inr (.inr (mem_append_left _ look)))

/-- The editor takes a message and answers it: a look with the look, a reload with its end. -/
theorem Looked.receives (looked : Looked files before) (tallied : Tallied files before.world)
    {rest : List (DaemonMessage Text Rev)} {said : List (EditorMessage Text)}
    (head : before.world.down = message :: rest) (same : after.world = world)
    (down : world.down = rest) (up : world.up = before.world.up ++ said)
    (disk : world.disk = before.world.disk) (revision : world.revision = before.world.revision)
    (pending : world.pending = before.world.pending) (slot : world.slot = before.world.slot)
    (later : before.later → after.later) (asks : message = .getState true → .state true ∈ said)
    (ends : ∀ n, message.reloadId = some n → said = [.applied (.port n)])
    (plain : message.reloadId = none → (∀ n, .applied (.port n) ∉ said) ∧
      (before.world.app.outbox.isSome = true → world.app.outbox.isSome = true)) :
      Looked files after := by
  subst same
  have asked (asked : .getState true ∈ before.world.down) :
      .state true ∈ said ∨ .getState true ∈ after.world.down := by
    rw [head] at asked
    rcases mem_cons.mp asked with same | behind
    · exact .inl (asks same.symm)
    · exact .inr (down ▸ behind)
  have looks (looks : before.looks) : after.looks := by
    rcases looks with due | there | look
    · exact .inl (later due)
    · rcases asked there with here | behind
      · exact .inr (.inr (up ▸ mem_append_right _ here))
      · exact .inr (.inl behind)
    · exact .inr (.inr (up ▸ mem_append_left _ look))
  have ended {n : Nat} (about : message.reloadId = some n) : after.revises :=
    .inr (.inr (.inr
    (.inr ⟨n, by rw [up, ends n about]; exact mem_append_right _ (mem_singleton_self _)⟩)))
  refine ⟨?_, fun n text held => ?_, fun n text revision back suffix =>
    ?_, fun n back revision suffix held => ?_⟩
  · rw [revision, disk]
    rcases looked.known with known | due | open_ | outbox | ⟨request, there⟩ | ⟨other, there,
      about⟩ | ⟨n, there⟩
    · exact .inl known
    · exact .inr (.inl (looks due))
    · exact .inr (.inr (.inl (pending ▸ open_)))
    · cases about : message.reloadId with
      | none => exact .inr (.inr (.inr (.inl ((plain about).2 outbox))))
      | some n => exact .inr (.inr (ended about))
    · exact .inr (.inr (.inr (.inr (.inl ⟨request, up ▸ mem_append_left _ there⟩))))
    · rw [head] at there
      rcases mem_cons.mp there with rfl | behind
      · obtain ⟨n, about⟩ := Option.isSome_iff_exists.mp about
        exact .inr (.inr (ended about))
      · exact .inr (.inr (.inr (.inr (.inr (.inl ⟨other, down ▸ behind, about⟩)))))
    · exact .inr (.inr (.inr (.inr (.inr (.inr ⟨n, up ▸ mem_append_left _ there⟩)))))
  · rw [disk]
    exact (looked.snapshot n text (pending ▸ held)).imp_right looks
  · rw [down] at suffix
    rw [disk]
    exact (looked.sent n text revision back (head ▸ suffix.trans (suffix_cons _ _))).imp_right
      (.imp_left later)
  · rw [up] at suffix
    rw [disk]
    rcases suffix_append_cases suffix with inside | ⟨part, rfl, earlier⟩
    · cases about : message.reloadId with
      | none => exact absurd (inside.subset mem_cons_self) ((plain about).1 n)
      | some m =>
        rw [ends m about] at inside
        obtain ⟨same, rfl⟩ : n = m ∧ back = [] := by
          rcases suffix_cons_iff.mp inside with same | nothing
          · injection same with same nothing
            injection same with same
            injection same with same
            exact ⟨same, nothing⟩
          · cases eq_nil_of_suffix_nil nothing
        obtain ⟨m', text, rfl, noted⟩ := tallied.reload message (mem_filter.mpr
          ⟨head ▸ mem_append_left _ mem_cons_self, by rw [about]; rfl⟩)
        rw [slot, noted] at held
        cases held
        rcases looked.sent _ _ _ rest ⟨[], head.symm⟩ with file | due | asked
        · rw [file]
          exact .inl rfl
        · exact .inr (.inl (later due))
        · exact .inr (.inr (.inl (down ▸ asked)))
    · rcases looked.applied n part revision earlier (slot ▸ held) with same | due | there | look
      · exact .inl same
      · exact .inr (.inl (later due))
      · rcases asked there with here | behind
        · exact .inr (.inr (.inr (mem_append_right _ here)))
        · exact .inr (.inr (.inl behind))
      · exact .inr (.inr (.inr (mem_append_left _ look)))

/-- The loop has handled a message. -/
theorem Looked.pops (looked : Looked files before) {message : EditorMessage Text}
    (head : before.world.up = message :: rest) (same : after.world = world) (up : world.up = rest)
    (down : world.down = before.world.down) (disk : world.disk = before.world.disk)
    (outbox : world.app.outbox = before.world.app.outbox) (later : before.later → after.later)
    (known : world.revision = files.revision world.disk ∨ after.looks ∨ after.revises ∨
      world.revision = before.world.revision ∧ world.pending = before.world.pending ∧
        message.saveId = none ∧ (∀ n, message ≠ .applied (.port n)) ∧ message ≠ .state true)
    (pending : (∀ n text, world.pending = some (n, text) → text = world.disk) ∨
      world.pending = before.world.pending ∧ message ≠ .state true)
    (slot : world.slot = none ∨ world.slot = before.world.slot) : Looked files after := by
  subst same
  have remains {said : EditorMessage Text} (there : said ∈ before.world.up)
      (unlike : said ≠ message) : said ∈ after.world.up := by
    rw [head] at there
    exact up ▸ (mem_cons.mp there).resolve_left unlike
  have looks (other : message ≠ .state true) (looks : before.looks) : after.looks := by
    rcases looks with due | asked | look
    · exact .inl (later due)
    · exact .inr (.inl (down ▸ asked))
    · exact .inr (.inr (remains look other.symm))
  refine ⟨?_, fun n text held => ?_, fun n text revision back suffix =>
    ?_, fun n back revision suffix held => ?_⟩
  · rcases known with known | due | revises | ⟨revision, pending, save, port, other⟩
    · exact .inl known
    · exact .inr (.inl due)
    · exact .inr (.inr revises)
    rw [revision, disk]
    rcases looked.known with known | due | open_ | asked | ⟨request, there⟩ | ⟨message', there,
      about⟩ | ⟨n, there⟩
    · exact .inl known
    · exact .inr (.inl (looks other due))
    · exact .inr (.inr (.inl (pending ▸ open_)))
    · exact .inr (.inr (.inr (.inl (outbox ▸ asked))))
    · exact .inr (.inr (.inr (.inr (.inl ⟨request, remains there (by rintro rfl; cases save)⟩))))
    · exact .inr (.inr (.inr (.inr (.inr (.inl ⟨message', down ▸ there, about⟩)))))
    · exact .inr (.inr (.inr (.inr (.inr (.inr ⟨n, remains there (port n).symm⟩)))))
  · rcases pending with fresh | ⟨same, other⟩
    · exact .inl (fresh n text held)
    · rw [disk]
      exact (looked.snapshot n text (same ▸ held)).imp_right (looks other)
  · rw [down] at suffix
    rw [disk]
    exact (looked.sent n text revision back suffix).imp_right (.imp_left later)
  · rcases slot with none_ | same
    · rw [none_] at held
      cases held
    · rw [up] at suffix
      rw [disk, down]
      exact (looked.applied n back revision (head ▸ suffix.trans (suffix_cons _ _))
        (same ▸ held)).imp_right (.imp_left later)

theorem Watch.later_of (same : after.world = world) (owed : world.owed = before.world.owed)
    (diskRefresh : world.diskRefresh = before.world.diskRefresh)
    (forwarding : world.forwarding = before.world.forwarding)
    (noticed : before.noticed = false → after.noticed = false) (due : before.later) :
    after.later := by
  subst same
  unfold Watch.later at due ⊢
  rw [owed, diskRefresh, forwarding]
  exact due.imp_right (.imp_right (.imp_left noticed))

/-- The loop looks at the disk. -/
theorem Looked.refreshes [DecidableEq Rev] (looked : Looked files before)
    (tallied : Tallied files before.world) (head : before.world.up = .state true :: rest)
    (world : after.world = World.refresh files { before.world with up := rest })
    (noticed : before.noticed = false → after.noticed = false) : Looked files after := by
  obtain ⟨held, there, bounded⟩ := tallied.disk
  unfold World.refresh at world
  split at world
  · exact .of_later (.inl (by rw [world]))
  rename_i free
  have none_ : before.world.pending = none := by simpa using free
  split at world
  · rename_i same
    have known : files.revision before.world.disk = before.world.revision := by
      rcases same with binary | same
      · simp [there, bounded] at binary
      · exact same
    have later := Watch.later_of world rfl rfl rfl noticed
    refine looked.pops head world rfl rfl rfl rfl later
      (.inl known.symm) (.inl fun n text noted => absurd (none_.symm.trans noted) nofun) (.inr rfl)
  · have later := Watch.later_of world rfl rfl rfl noticed
    refine looked.pops head world rfl rfl rfl rfl later
      (.inr (.inr (.inl (.inl (by rw [world]; rfl))))) (.inl fun n text noted => ?_) (.inr rfl)
    cases noted
    rfl

/-- An update of the disk has ended in the editor. -/
theorem Looked.finishes (looked : Looked files before) (room : Bool) {message : EditorMessage Text}
    {n : Nat} (head : before.world.up = message :: rest) (about : message.updateId = some n)
    {revision : Rev} {conflict : Bool} {text : Option Text}
    (pending : before.world.pending = some (n, text)) (takes : revision = files.revision text)
    (world : after.world =
      { (World.finish room n { before.world with up := rest }).1 with revision, conflict })
    (noticed : before.noticed = false → after.noticed = false) : Looked files after := by
  rw [@World.finish_some _ _ { before.world with up := rest } room n text pending] at world
  split at world
  · refine .of_later (.inr (.inl ?_))
    rw [world]
    exact World.refreshDisk_asks room
  have later := Watch.later_of world rfl rfl rfl noticed
  have unlike : message ≠ .state true := by
    rintro rfl
    cases about
  refine looked.pops head world rfl rfl rfl rfl later ?_
    (.inl fun m text' noted => ?_) (.inr rfl)
  · rcases looked.snapshot n text pending with same | due | asked | look
    · exact .inl (takes.trans (congrArg files.revision same))
    · exact .inr (.inl (.inl (later due)))
    · exact .inr (.inl (.inr (.inl (by rw [world]; exact asked))))
    · rw [head] at look
      exact .inr (.inl
        (.inr (.inr (by rw [world]; exact (mem_cons.mp look).resolve_left unlike.symm))))
  · cases noted

/-- The loop handles a message of the editor. -/
theorem Looked.handles [DecidableEq Rev] (looked : Looked files before)
    (tallied : Tallied files before.world) (room : Bool) {message : EditorMessage Text}
    {rest : List (EditorMessage Text)} (head : before.world.up = message :: rest)
    (world : after.world = World.handle files true room { before.world with up := rest } message)
    (noticed : before.noticed = false → after.noticed = false)
    (writes : after.world.writes.length ≠ before.world.writes.length → after.noticed = false)
    (small : ∀ request, message = .saveRequest request → files.tooLarge request.text = false) :
    Looked files after := by
  cases message with
  | state look =>
    cases look with
    | true => exact looked.refreshes tallied head world noticed
    | false =>
      have later := Watch.later_of world rfl rfl rfl noticed
      exact looked.pops head world rfl rfl rfl rfl later
        (.inr (.inr (.inr ⟨rfl, rfl, rfl, by simp, by simp⟩)))
        (.inr ⟨rfl, by simp⟩)
        (.inr rfl)
  | saveRequest request =>
    obtain ⟨held, there, bounded⟩ := tallied.disk
    have writable := tallied.writable head
    by_cases stale : files.bounded held = false ∨ files.fileRevision held ≠ before.world.revision
    · replace world := world.trans
        (@World.saveRequest_stale _ _ _ { before.world with up := rest } _ request held writable
        (small request rfl) there stale)
      have later := Watch.later_of world rfl rfl rfl noticed
      refine looked.pops head world rfl rfl rfl rfl later (.inl ?_)
        (.inr ⟨rfl, by simp⟩) (.inr rfl)
      exact congrArg files.revision there.symm
    · replace world := world.trans
        (@World.saveRequest_written _ _ _ { before.world with up := rest } _ request held writable
        (small request rfl) there stale)
      refine .of_later (.inr (.inr (.inl (writes ?_))))
      rw [world]
      simp
  | diskConflict n text =>
    obtain ⟨⟨snapshot, pending⟩, _⟩ := tallied.one_update head rfl
    replace world := world.trans (@World.handle_diskConflict _ _ _ { before.world with up := rest }
      _ _ _ _ _ _ pending)
    exact looked.finishes room head rfl pending rfl world noticed
  | applied id =>
    cases id with
    | disk n =>
      obtain ⟨⟨snapshot, pending⟩, _⟩ := tallied.one_update head rfl
      replace world := world.trans (@World.handle_applied _ _ _ { before.world with up := rest } _ _
        _ _ _ pending)
      exact looked.finishes room head rfl pending rfl world noticed
    | port n =>
      obtain ⟨⟨noted, slot⟩, _⟩ := tallied.one_reload head rfl
      obtain ⟨revision, rfl⟩ := Option.isSome_iff_exists.mp (tallied.noted n noted slot)
      replace world := world.trans (@World.handle_reloaded _ _ _ { before.world with up := rest }
        _ _ _ _ _ slot)
      have later := Watch.later_of world rfl rfl rfl noticed
      refine looked.pops head world rfl rfl rfl rfl later ?_
        (.inr ⟨rfl, by simp⟩) (.inl rfl)
      rcases looked.applied n rest revision ⟨[], head.symm⟩ slot with same | due | asked | look
      · exact .inl same
      · exact .inr (.inl (.inl (later due)))
      · exact .inr (.inl (.inr (.inl (by rw [world]; exact asked))))
      · exact .inr (.inl (.inr (.inr (by rw [world]; exact look))))
  | refused id =>
    cases id with
    | disk n =>
      obtain ⟨⟨snapshot, pending⟩, _⟩ := tallied.one_update head rfl
      replace world := world.trans (@World.handle_refused _ _ _ { before.world with up := rest } _ _
        _ _ _ pending)
      refine .of_later (.inr (.inl ?_))
      rw [world]
      exact World.refreshDisk_asks room
    | port n =>
      obtain ⟨⟨noted, slot⟩, _⟩ := tallied.one_reload head rfl
      replace world := world.trans (@World.handle_unloaded _ _ _ { before.world with up := rest }
        _ _ _ _ _ slot)
      have later := Watch.later_of world rfl rfl rfl noticed
      exact looked.pops head world rfl rfl rfl rfl later
        (.inr (.inr (.inr ⟨rfl, rfl, rfl, by simp, by simp⟩))) (.inr ⟨rfl, by simp⟩)
        (.inl rfl)

theorem App.save_asks (readOnly : Bool) (asks : app.outbox.isSome = true) :
    (app.save readOnly).outbox.isSome = true := by
  unfold App.save
  split
  · exact asks
  · rfl

theorem App.receive_plain (readOnly : Bool) (dirty : Bool)
    (about : message.reloadId = none) (n : Nat) :
    .applied (.port n) ∉ (app.receive readOnly true dirty message).2 := by
  cases message with
  | diskChanged id text =>
    simp only [App.receive, App.diskChanged]
    split
    · simp
    split
    · simp
    split
    · simp
    simp
  | reload | discardDeleted => cases about
  | _ => simp [App.receive]

theorem App.receive_asks (readOnly : Bool) (dirty : Bool)
    (about : message.reloadId = none) (asks : app.outbox.isSome = true) :
    (app.receive readOnly true dirty message).1.outbox.isSome = true := by
  cases message with
  | diskChanged id text =>
    simp only [App.receive, App.diskChanged]
    split
    · exact asks
    split
    · exact asks
    split
    · exact asks
    exact asks
  | reload | discardDeleted => cases about
  | getState disk => exact asks
  | save => exact App.save_asks readOnly asks
  | saved id =>
    simp only [App.receive, App.saveConfirmed]
    split
    · exact asks
    split <;> exact asks
  | saveRefused id disk =>
    simp only [App.receive]
    rw [(App.saveRefused_spec app id disk).1]
    exact asks

theorem World.takeDisk_parts {world : World Text Rev} (room : Bool) :
    (world.takeDisk files room).disk = world.disk ∧ (world.takeDisk files room).revision =
      world.revision ∧ (world.takeDisk files room).pending = world.pending ∧
    (world.takeDisk files room).down = world.down ∧ (world.takeDisk files room).up = world.up ∧
    (world.takeDisk files room).owed = world.owed ∧ (world.takeDisk files room).diskRefresh =
      world.diskRefresh ∧
    (world.takeDisk files room).forwarding = world.forwarding ∧ (world.takeDisk files room).app =
      world.app ∧
    ((world.takeDisk files room).slot = world.slot ∨ world.slot = none) := by
  unfold World.takeDisk
  split
  · simp
  dsimp only
  split
  · simp
  split
  · simp
  rename_i free
  exact ⟨rfl, rfl, rfl, rfl, rfl, rfl, rfl, rfl, rfl, .inr (by simpa using (not_or.mp free).1)⟩

theorem Looked.still (looked : Looked files before) (same : after.world = world)
    (disk : world.disk = before.world.disk) (revision : world.revision = before.world.revision)
    (pending : world.pending = before.world.pending)
    (slot : ∀ n revision, world.slot = some (n, some revision) → .applied (.port n) ∈
      before.world.up →
      before.world.slot = some (n, some revision))
    (down : world.down = before.world.down) (up : world.up = before.world.up)
    (later : before.later → after.later) (outbox : before.world.app.outbox.isSome = true →
      world.app.outbox.isSome = true) : Looked files after :=
  looked.grows same disk revision pending slot (down.trans (append_nil _).symm)
  (up.trans (append_nil _).symm)
    (.inl ∘ later) (fun _ _ _ there => absurd there not_mem_nil) (fun _ => not_mem_nil)
    (.inl ∘ outbox)

theorem Watch.unnoticed [DecidableEq Text] [DecidableEq Rev] {event : Event Text}
    (other : ∀ room, event ≠ .refresh room) (unseen : before.noticed = false) :
    (before.apply files event).noticed = false := by
  cases event with
  | external content => rfl
  | refresh room => exact absurd rfl (other room)
  | _ => simp [Watch.apply, unseen]

/-- Every step in which no reload is sent late keeps it so. -/
theorem Looked.step [DecidableEq Text] [DecidableEq Rev] {large : Prop} {event : Event Text}
    (step : Watch.Step files before event after) (timely : before.timely event = true)
    (sound : Sound files large before.world) (tallied : Tallied files before.world)
    (looked : Looked files before) : Looked files after := by
  obtain ⟨⟨there, rest⟩, rfl⟩ := step
  have noticed (other : ∀ room, event ≠ .refresh room) :
      before.noticed = false → (before.apply files event).noticed = false :=
    Watch.unnoticed other
  have idle (other : ∀ room, event ≠ .refresh room) (same : before.world.apply files event =
      before.world) : Looked files (before.apply files event) := by
    have world : (before.apply files event).world = before.world := same
    exact looked.still world rfl rfl rfl (fun _ _ slot _ => slot) rfl
      rfl (Watch.later_of world rfl rfl rfl (noticed other)) id
  cases event with
  | external content => exact .of_later (.inr (.inr (.inl rfl)))
  | refresh room => exact .of_later (.inr (.inl (World.refreshDisk_asks room)))
  | edit text dirty =>
    exact looked.still rfl rfl rfl rfl (fun _ _ slot _ => slot) rfl rfl
      (Watch.later_of rfl rfl rfl rfl (noticed (by simp))) id
  | save | closeAndSave =>
    exact looked.still rfl rfl rfl rfl (fun _ _ slot _ => slot) rfl rfl
      (Watch.later_of rfl rfl rfl rfl (noticed (by simp))) (App.save_asks _)
  | autosave =>
    refine looked.still rfl rfl rfl rfl (fun _ _ slot _ => slot) rfl rfl
      (Watch.later_of rfl rfl rfl rfl (noticed (by simp))) fun asks => ?_
    simp only [Watch.apply, World.apply, App.autosave]
    split
    · exact App.save_asks _ asks
    · exact asks
  | flush =>
    cases asked : before.world.app.outbox with
    | none => exact idle (by simp) (by simp [World.apply, asked])
    | some request =>
      have world : (before.apply files .flush).world = { before.world with
          app := { before.world.app with outbox := none }
          up := before.world.up ++ [.saveRequest request] } := by
        simp [Watch.apply, World.apply, asked]
      exact looked.grows world rfl rfl rfl (fun _ _ slot _ => slot)
        (append_nil _).symm rfl
        (.inl ∘ Watch.later_of world rfl rfl rfl (noticed (by simp)))
        (fun _ _ _ there => absurd there not_mem_nil) (fun _ there => by cases mem_singleton.mp there)
        fun _ => .inr ⟨request, mem_singleton_self _⟩
  | receive ok dirty =>
    obtain ⟨rfl, _⟩ := rest
    cases down : before.world.down with
    | nil => exact idle (by simp) (by simp [World.apply, down])
    | cons message others =>
      have world : (before.apply files (.receive true dirty)).world = { before.world with
          app := (before.world.app.receive files.readOnly true dirty message).1
          down := others
          up := before.world.up ++ (before.world.app.receive files.readOnly true dirty
            message).2 } := by
        simp [Watch.apply, World.apply, down]
      refine looked.receives tallied down world rfl rfl rfl rfl rfl
        rfl (Watch.later_of world rfl rfl rfl (noticed (by simp))) ?_ (fun n about => ?_)
        fun about => ⟨?_, ?_⟩
      · rintro rfl
        exact mem_singleton_self _
      · obtain ⟨m, text, rfl, _⟩ := tallied.reload message (mem_filter.mpr
          ⟨down ▸ mem_append_left _ mem_cons_self, by rw [about]; rfl⟩)
        cases about
        rfl
      · exact App.receive_plain files.readOnly dirty about
      · exact App.receive_asks files.readOnly dirty about
  | serve ok room =>
    obtain ⟨rfl, small⟩ := rest
    cases up : before.world.up with
    | nil => exact idle (by simp) (by simp [World.apply, up])
    | cons message others =>
      by_cases blocked : before.world.answer.isSome = true ∨
        World.locks message = true ∧ before.world.operation.isSome = true
      · exact idle (by simp) (by simp [World.apply, up, if_pos blocked])
      · have world : (before.apply files (.serve true room)).world =
            World.handle files true room { before.world with up := others } message := by
          simp [Watch.apply, World.apply, up, if_neg blocked]
        refine looked.handles tallied room up world (noticed (by simp)) (fun grown => ?_)
          fun request same => small request others (same ▸ up)
        simp only [Watch.apply, Bool.and_eq_false_iff, decide_eq_false_iff_not]
        exact .inr grown
  | answer =>
    refine looked.grows rfl rfl rfl rfl (fun _ _ slot _ => slot) rfl (append_nil _).symm
      (.inl ∘ Watch.later_of rfl rfl rfl rfl (noticed (by simp))) (fun n text revision there => ?_)
      (fun _ => not_mem_nil) .inl
    have loop := sound.answer _ (Option.mem_toList.mp there)
    cases loop
  | readDisk =>
    by_cases busy : before.world.operation.isSome = true
    · exact idle (by simp) (by simp [World.apply, busy])
    · have world : (before.apply files .readDisk).world =
          { before.world with operation := some before.world.disk } := by
        simp [Watch.apply, World.apply, busy]
      exact looked.still world rfl rfl rfl (fun _ _ slot _ => slot)
        rfl rfl (Watch.later_of world rfl rfl rfl (noticed (by simp)))
        id
  | takeDisk room =>
    obtain ⟨disk, revision, pending, down, up, owed, diskRefresh, forwarding, app, slot⟩ :=
      @World.takeDisk_parts _ _ files before.world room
    have kept : (before.apply files (.takeDisk room)).world.app = before.world.app := app
    refine looked.still rfl disk revision pending (fun n revision noted there => ?_) down up
      (Watch.later_of rfl owed diskRefresh forwarding (noticed (by simp))) (by rw [kept]; exact id)
    rcases slot with same | none_
    · exact same ▸ noted
    · have reloads := tallied.reloads
      rw [none_] at reloads
      have about := filterMap_eq_nil_iff.mp (append_eq_nil_iff.mp reloads).1 _ there
      cases about
  | keepMine room =>
    cases room with
    | false => exact idle (by simp) rfl
    | true => exact looked.still rfl rfl rfl rfl (fun _ _ slot _ => slot) rfl rfl (Watch.later_of rfl rfl rfl rfl (noticed (by simp))) id
  | take =>
    cases forwarding : before.world.forwarding with
    | some taken => exact idle (by simp) (by simp [World.apply, forwarding])
    | none =>
      cases commands : before.world.commands with
      | nil => exact idle (by simp) (by simp [World.apply, forwarding, commands])
      | cons command others =>
        have world : (before.apply files .take).world = { before.world with
            forwarding := some (command, before.world.diskRefresh)
            diskRefresh := false
            commands := others } := by
          simp [Watch.apply, World.apply, forwarding, commands]
        refine looked.still world rfl rfl rfl (fun _ _ slot _ => slot)
          rfl rfl (fun due => ?_) id
        unfold Watch.later at due ⊢
        rw [world]
        rcases due with owed | refresh | unseen | asks
        · exact .inl owed
        · exact .inr (.inr (.inr refresh))
        · exact .inr (.inr (.inl (noticed (by simp) unseen)))
        · rw [forwarding] at asks
          cases asks
  | forward =>
    cases forwarding : before.world.forwarding with
    | none => exact idle (by simp) (by simp [World.apply, World.forward, forwarding])
    | some taken =>
      obtain ⟨command, asks⟩ := taken
      cases asks with
      | true =>
        have world : (before.apply files .forward).world = { before.world with
            down := before.world.down ++ [.getState true]
            forwarding := if command = .getState false then none else some (command, false) } := by
          simp [Watch.apply, World.apply, World.forward, forwarding]
        exact looked.grows world rfl rfl rfl (fun _ _ slot _ => slot)
          rfl (append_nil _).symm (fun _ => .inr (mem_singleton_self _))
          (fun _ _ _ there => by cases mem_singleton.mp there) (fun _ => not_mem_nil) .inl
      | false =>
        have world : (before.apply files .forward).world = { before.world with
            down := before.world.down ++ [command]
            forwarding := none } := by
          simp [Watch.apply, World.apply, World.forward, forwarding]
        have later (due : before.later) : (before.apply files .forward).later := by
          unfold Watch.later at due ⊢
          rw [world]
          rcases due with owed | refresh | unseen | asks
          · exact .inl owed
          · exact .inr (.inl refresh)
          · exact .inr (.inr (.inl (noticed (by simp) unseen)))
          · rw [forwarding] at asks
            cases asks
        refine looked.grows world rfl rfl rfl (fun _ _ slot _ => slot)
          rfl (append_nil _).symm (.inl ∘ later) (fun n text revision there => ?_)
          (fun _ => not_mem_nil) .inl
        cases mem_singleton.mp there
        simp only [Watch.timely, forwarding, Bool.or_eq_true, decide_eq_true_eq] at timely
        exact timely.imp_right later

end Parts

end ForgeNode.Saves
