import ForgeNode.Saves.Looks

/-! A clean buffer shows the disk: what the loop takes the editor to hold, the editor holds once
nothing is under way. -/

namespace ForgeNode.Saves

open List

variable {Text Rev : Type}

/-- Does the loop take a revision over with this message? -/
def EditorMessage.moves : EditorMessage Text → Bool
  | .applied _ | .saveRequest _ | .diskConflict .. => true
  | _ => false

/-- The last such message that is on its way. -/
def lastMove (up : List (EditorMessage Text)) : Option (EditorMessage Text) :=
  (up.filter (·.moves)).getLast?

section Moves

variable {up rest : List (EditorMessage Text)} {message : EditorMessage Text}

theorem lastMove_skip (quiet : message.moves = false) :
    lastMove (message :: rest) = lastMove rest := by
  simp [lastMove, quiet]

theorem lastMove_cons (moves : message.moves = true) :
    lastMove (message :: rest) = some ((lastMove rest).getD message) := by
  simp [lastMove, moves, getLast?_cons]

theorem lastMove_concat (moves : message.moves = true) :
    lastMove (up ++ [message]) = some message := by
  simp [lastMove, moves]

theorem lastMove_quiet (quiet : message.moves = false) :
    lastMove (up ++ [message]) = lastMove up := by
  simp [lastMove, quiet]

theorem mem_of_lastMove (last : lastMove up = some message) : message ∈ up :=
  (mem_filter.mp (mem_of_getLast? last)).1

end Moves

/-- What the last such message tells the loop of the text that the document was last loaded or saved
with. -/
def Watch.Agrees (files : Files Text Rev) (watch : Watch Text Rev) : Option (EditorMessage Text) →
  Prop
  | none => watch.world.conflict = true ∨ watch.world.revision = files.fileRevision watch.clean
  | some (.applied (.disk n)) => watch.world.pending = some (n, some watch.clean)
  | some (.applied (.port n)) => watch.world.slot = some (n, some (files.fileRevision watch.clean))
  | some (.diskConflict ..) => True
  | some _ => False

/-- The save in flight is still to be sent, or still to be handled, or is answered. -/
def Watch.Asks (files : Files Text Rev) (watch : Watch Text Rev) (id : Nat) (text : Text) : Prop :=
  watch.world.app.outbox.isSome = true ∨
  (∃ request, lastMove watch.world.up = some (.saveRequest request) ∧ request.id = id ∧
    request.text = text) ∨
  lastMove watch.world.up = none ∧ (.saved id ∈ watch.world.sent ∧ watch.world.revision =
    files.fileRevision text ∨ (∃ disk, .saveRefused id disk ∈ watch.world.sent) ∧
    watch.world.conflict = true)

structure Settled (files : Files Text Rev) (watch : Watch Text Rev) : Prop where
  text : watch.world.app.dirty = false → watch.world.app.text = watch.clean
  free : watch.world.app.inFlight = none → watch.Agrees files (lastMove watch.world.up)
  asked : ∀ id text, watch.world.app.inFlight = some (id, text) → watch.Asks files id text

section Parts

variable {files : Files Text Rev} {large : Prop} {before after : Watch Text Rev}

/-- What a message on its way tells the loop rests on the update or the reload that it answers. -/
theorem Watch.Agrees.carried {message : EditorMessage Text} {up : List (EditorMessage Text)}
    (agrees : before.Agrees files (some message)) (member : message ∈ up)
    (clean : after.clean = before.clean)
    (pending : ∀ n, .applied (.disk n) ∈ up → after.world.pending = before.world.pending)
    (slot : ∀ n, .applied (.port n) ∈ up → after.world.slot = before.world.slot) :
    after.Agrees files (some message) := by
  cases message with
  | applied id =>
    cases id with
    | disk n =>
      simp only [Watch.Agrees, pending n member, clean]
      exact agrees
    | port n =>
      simp only [Watch.Agrees, slot n member, clean]
      exact agrees
  | _ => exact agrees

/-- What is on its way stays so, or grows by what the loop takes nothing over with. -/
theorem Settled.frame (settled : Settled files before) (clean : after.clean = before.clean)
    (text : after.world.app.dirty = false → after.world.app.text = after.clean)
    (flight : after.world.app.inFlight = before.world.app.inFlight)
    (outbox : after.world.app.outbox = before.world.app.outbox)
    (last : lastMove after.world.up = lastMove before.world.up)
    (revision : after.world.revision = before.world.revision)
    (conflict : after.world.conflict = before.world.conflict)
    (pending : ∀ n, .applied (.disk n) ∈ before.world.up → after.world.pending =
      before.world.pending) (slot : ∀ n, .applied (.port n) ∈ before.world.up → after.world.slot =
        before.world.slot) (saved : ∀ id text, before.world.app.inFlight = some (id, text) →
        .saved id ∈ before.world.sent →
      .saved id ∈ after.world.sent)
    (refused : ∀ id text disk, before.world.app.inFlight = some (id, text) → .saveRefused id disk ∈
      before.world.sent →
      .saveRefused id disk ∈ after.world.sent) : Settled files after := by
  refine ⟨text, fun none_ => ?_, fun id text there => ?_⟩
  · have agrees := settled.free (flight ▸ none_)
    rw [last]
    cases which : lastMove before.world.up with
    | none =>
      rw [which] at agrees
      simp only [Watch.Agrees, conflict, revision, clean]
      exact agrees
    | some message =>
      rw [which] at agrees
      exact agrees.carried (mem_of_lastMove which) clean pending slot
  · rcases settled.asked id text (flight ▸ there) with
      asks | ⟨request, which, same⟩ | ⟨which, ⟨member, known⟩ | ⟨⟨disk, member⟩, flagged⟩⟩
    · exact .inl (outbox ▸ asks)
    · exact .inr (.inl ⟨request, last.trans which, same⟩)
    · exact .inr (.inr ⟨last.trans which, .inl ⟨saved id text (flight ▸ there) member,
        revision.trans known⟩⟩)
    · have there' := refused id text disk (flight ▸ there) member
      exact .inr (.inr ⟨last.trans which, .inr ⟨⟨disk, there'⟩, conflict.trans flagged⟩⟩)

/-- Each save is answered once, and not while it is on its way. -/
theorem Sound.answered_once {world : World Text Rev} (sound : Sound files large world)
    {message : DaemonMessage Text Rev} {rest : List (DaemonMessage Text Rev)} {id : Nat}
    (down : world.down = message :: rest) (answers : message.answers = some id) :
    (∀ request, .saveRequest request ∈ world.up → request.id ≠ id) ∧
      (∀ request, world.app.outbox = some request → request.id ≠ id) ∧
        ∀ other ∈ rest ++ world.answer.toList, other.answers ≠ some id := by
  have sent : world.sent = message :: (rest ++ world.answer.toList) := World.sent_cons down
  have saves := sound.saves
  rw [sent, filterMap_cons_some answers] at saves
  have apart := nodup_append.mp saves
  refine ⟨fun request there same => ?_, fun request held same => ?_, fun other there about => ?_⟩
  · exact apart.2.2 _ (mem_filterMap.mpr ⟨_, there, rfl⟩) _ mem_cons_self same
  · refine (sound.outbox request held).2 (mem_append_right _ ?_)
    rw [sent, filterMap_cons_some answers, same]
    exact mem_cons_self
  · exact (nodup_cons.mp apart.2.1).1 (mem_filterMap.mpr ⟨other, there, about⟩)

theorem App.save_text (readOnly : Bool) {app : App Text} : (app.save readOnly).text = app.text := by
  unfold App.save
  split <;> rfl

theorem App.save_dirty (readOnly : Bool) {app : App Text} :
    (app.save readOnly).dirty = app.dirty := by
  unfold App.save
  split <;> rfl

/-- The editor asks for a save, or has one in flight already. -/
theorem Settled.saves (settled : Settled files before) (readOnly : Bool)
    (clean : after.clean = before.clean)
    (flight : after.world.app.inFlight = (before.world.app.save readOnly).inFlight)
    (outbox : after.world.app.outbox = (before.world.app.save readOnly).outbox)
    (text : after.world.app.text = before.world.app.text)
    (dirty : after.world.app.dirty = before.world.app.dirty) (up : after.world.up = before.world.up)
    (revision : after.world.revision = before.world.revision)
    (conflict : after.world.conflict = before.world.conflict)
    (pending : after.world.pending = before.world.pending)
    (slot : after.world.slot = before.world.slot) (passed : ∀ message, message ∈ before.world.sent →
      message.answers.isSome = true → message ∈ after.world.sent) : Settled files after := by
  have same : after.world.app.dirty = false → after.world.app.text = after.clean := by
    rw [dirty, text, clean]
    exact settled.text
  by_cases blocked : readOnly = true ∨ before.world.app.inFlight.isSome = true
  · rw [App.save, if_pos blocked] at flight outbox
    exact settled.frame clean same flight outbox (congrArg lastMove up) revision conflict
      (fun _ _ => pending) (fun _ _ => slot) (fun _ _ _ there => passed _ there rfl)
      (fun _ _ _ _ there => passed _ there rfl)
  · rw [App.save, if_neg blocked] at flight outbox
    refine ⟨same, fun none_ => ?_, fun _ _ _ => .inl ?_⟩
    · rw [flight] at none_
      cases none_
    · rw [outbox]
      rfl

/-- The answer to the save in flight has come. -/
theorem Watch.Asks.answered {id : Nat} {text : Text} {message : DaemonMessage Text Rev}
    {rest : List (DaemonMessage Text Rev)} (asks : before.Asks files id text)
    (sound : Sound files large before.world) (flight : before.world.app.inFlight = some (id, text))
    (down : before.world.down = message :: rest) (answers : message.answers = some id) :
    lastMove before.world.up = none ∧
    (message = .saved id ∧ before.world.revision = files.fileRevision text ∨
      before.world.conflict = true) := by
  obtain ⟨unsent, unasked, once⟩ := sound.answered_once down answers
  have here {other : DaemonMessage Text Rev} (there : other ∈ before.world.sent)
      (about : other.answers = some id) : other = message := by
    rw [World.sent_cons down] at there
    exact (mem_cons.mp there).resolve_right fun behind => once other behind about
  rcases asks with asks | ⟨request, which, same, _⟩ | ⟨which, ⟨member, known⟩ | ⟨_, flagged⟩⟩
  · obtain ⟨request, held⟩ := Option.isSome_iff_exists.mp asks
    have same := (sound.outbox request held).1
    rw [flight] at same
    cases same
    exact absurd rfl (unasked request held)
  · exact absurd same (unsent request (mem_of_lastMove which))
  · exact ⟨which, .inl ⟨(here member rfl).symm, known⟩⟩
  · exact ⟨which, .inr flagged⟩

/-- The editor has taken a message, and what the loop has noted is as it was. -/
structure Watch.Takes (before after : Watch Text Rev) (message : DaemonMessage Text Rev)
    (app : App Text)
    (answers : List (EditorMessage Text)) : Prop where
  head : before.world.sent.head? = some message
  app : after.world.app = app
  up : after.world.up = before.world.up ++ answers
  revision : after.world.revision = before.world.revision
  conflict : after.world.conflict = before.world.conflict
  pending : after.world.pending = before.world.pending
  slot : after.world.slot = before.world.slot
  passed : ∀ other ∈ before.world.sent, other ≠ message → other ∈ after.world.sent

/-- The editor takes a message that is no answer to its save, and says nothing the loop takes a
revision over with. -/
theorem Watch.Takes.frame {message : DaemonMessage Text Rev} {app : App Text}
    {answers : List (EditorMessage Text)} (takes : before.Takes after message app answers)
    (settled : Settled files before) (clean : after.clean = before.clean)
    (text : after.world.app.dirty = false → after.world.app.text = after.clean)
    (flight : app.inFlight = before.world.app.inFlight)
    (outbox : app.outbox = before.world.app.outbox)
    (quiet : lastMove (before.world.up ++ answers) = lastMove before.world.up)
    (saved : ∀ id text, before.world.app.inFlight = some (id, text) → .saved id ≠ message)
    (refused : ∀ id text disk, before.world.app.inFlight = some (id, text) → .saveRefused id disk ≠
      message) :
    Settled files after := by
  refine settled.frame clean text (takes.app ▸ flight) (takes.app ▸ outbox) (takes.up ▸ quiet)
    takes.revision takes.conflict (fun _ _ => takes.pending) (fun _ _ => takes.slot)
    (fun id text there member => ?_) fun id text disk there member => ?_
  · exact takes.passed _ member (saved id text there)
  · exact takes.passed _ member (refused id text disk there)

/-- An update of the disk comes to the editor. -/
theorem Settled.updates (settled : Settled files before) {n : Nat} {text : Text} {app : App Text}
    {answers : List (EditorMessage Text)} (takes : before.Takes after (.diskChanged n (some text))
      app answers)
    (received : before.world.app.diskChanged n (some text) true = (app, answers))
    (noted : before.world.pending = some (n, some text))
    (clean : after.clean = before.world.app.cleaned true before.clean (.diskChanged n (some text) :
      DaemonMessage Text Rev)) :
    Settled files after := by
  cases flight : before.world.app.inFlight with
  | some pair =>
    simp only [App.diskChanged, flight, Option.isSome_some, if_true, Prod.mk.injEq] at received
    obtain ⟨rfl, rfl⟩ := received
    replace clean : after.clean = before.clean := clean.trans (by simp [App.cleaned, flight])
    refine takes.frame settled clean ?_ flight.symm rfl (lastMove_quiet rfl) (by simp) (by simp)
    rw [takes.app, clean]
    exact settled.text
  | none =>
    have unsaved : after.world.app.inFlight = none → ∀ id text, after.world.app.inFlight =
        some (id, text) →
        after.Asks files id text := by
      intro none_ id text there
      rw [none_] at there
      cases there
    cases isDirty : before.world.app.dirty with
    | true =>
      simp [App.diskChanged, flight, isDirty] at received
      obtain ⟨rfl, rfl⟩ := received
      have last : lastMove after.world.up = some (.diskConflict n before.world.app.text) := by
        rw [takes.up]
        exact lastMove_concat rfl
      refine ⟨fun none_ => ?_, fun _ => by rw [last]; trivial, unsaved (by rw [takes.app])⟩
      rw [takes.app] at none_
      cases none_
    | false =>
      simp [App.diskChanged, flight, isDirty] at received
      obtain ⟨rfl, rfl⟩ := received
      have last : lastMove after.world.up = some (.applied (.disk n)) := by
        rw [takes.up]
        exact lastMove_concat rfl
      replace clean : after.clean = text := clean.trans (by simp [App.cleaned, flight, isDirty])
      refine ⟨fun _ => ?_, fun _ => ?_, unsaved (by rw [takes.app])⟩
      · rw [takes.app, clean]
      · rw [last]
        simp only [Watch.Agrees, takes.pending, clean]
        exact noted

/-- The editor hears that a save has been written. -/
theorem Settled.confirms (settled : Settled files before) (sound : Sound files large before.world)
    {id : Nat} {dirty : Bool} {rest : List (DaemonMessage Text Rev)}
    (down : before.world.down = .saved id :: rest)
    (takes : before.Takes after (.saved id) (before.world.app.saveConfirmed id dirty) [])
    (clean : after.clean = before.world.app.cleaned true before.clean (.saved id :
      DaemonMessage Text Rev)) (confirms : ∀ text, before.world.app.inFlight = some (id, text) →
      dirty = false → before.world.app.text = text) :
    Settled files after := by
  have last : lastMove after.world.up = lastMove before.world.up := by rw [takes.up, append_nil]
  by_cases mine : ∃ text, before.world.app.inFlight = some (id, text)
  · obtain ⟨text, flight⟩ := mine
    have app := takes.app
    simp only [App.saveConfirmed, flight, ne_eq, not_true_eq_false, if_false] at app
    replace clean : after.clean = text := clean.trans (by simp [App.cleaned, flight])
    obtain ⟨none_, known⟩ := (settled.asked id text flight).answered sound flight down rfl
    refine ⟨fun still => ?_, fun _ => ?_, fun _ _ there => ?_⟩
    · rw [app] at still
      rw [app, clean]
      exact confirms text flight still
    · rw [last, none_]
      simp only [Watch.Agrees, takes.conflict, takes.revision, clean]
      exact known.elim (fun same => .inr same.2) .inl
    · rw [app] at there
      cases there
  · have unmoved : before.world.app.saveConfirmed id dirty = before.world.app := by
      unfold App.saveConfirmed
      split
      · rfl
      · rename_i pending text there
        split
        · rfl
        · rename_i same
          exact absurd ⟨text, Decidable.not_not.mp same ▸ there⟩ mine
    have app := takes.app.trans unmoved
    replace clean : after.clean = before.clean := by
      refine clean.trans ?_
      simp only [App.cleaned]
      split
      · rename_i pending text there
        split
        · rename_i same
          exact absurd ⟨text, same ▸ there⟩ mine
        · rfl
      · rfl
    refine takes.frame settled clean ?_ (by rw [unmoved]) (by rw [unmoved]) (by rw [append_nil]) ?_
      (by simp)
    · rw [app, clean]
      exact settled.text
    · rintro _ text there same
      cases same
      exact mine ⟨text, there⟩

/-- The editor hears that a save has been refused. -/
theorem Settled.refuses (settled : Settled files before) (sound : Sound files large before.world)
    {id : Nat} {disk : Option Text} {rest : List (DaemonMessage Text Rev)}
    (down : before.world.down = .saveRefused id disk :: rest)
    (takes : before.Takes after (.saveRefused id disk) (before.world.app.saveRefused id disk) [])
    (clean : after.clean = before.clean) : Settled files after := by
  have last : lastMove after.world.up = lastMove before.world.up := by rw [takes.up, append_nil]
  obtain ⟨outbox, _, _, _, flight⟩ := App.saveRefused_spec before.world.app id disk
  have kept : (before.world.app.saveRefused id disk).text = before.world.app.text ∧
      (before.world.app.saveRefused id disk).dirty = before.world.app.dirty := by
    unfold App.saveRefused
    cases disk with
    | none | some text =>
      dsimp only
      split
      · exact ⟨rfl, rfl⟩
      · split <;> exact ⟨rfl, rfl⟩
  have text : after.world.app.dirty = false → after.world.app.text = after.clean := by
    rw [takes.app, clean, kept.1, kept.2]
    exact settled.text
  rcases flight with ⟨still, other⟩ | ⟨gone, mine⟩
  · refine takes.frame settled clean text still outbox (by rw [append_nil]) (by simp) ?_
    rintro _ text _ there same
    cases same
    exact other (by rw [there]; rfl)
  · obtain ⟨⟨_, text'⟩, there, rfl⟩ := Option.map_eq_some_iff.mp mine
    obtain ⟨none_, known⟩ := (settled.asked _ text' there).answered sound there down rfl
    refine ⟨text, fun _ => ?_, fun _ _ there => ?_⟩
    · rw [last, none_]
      simp only [Watch.Agrees, takes.conflict]
      rcases known with ⟨same, _⟩ | flagged
      · cases same
      · exact .inl flagged
    · rw [takes.app, gone] at there
      cases there

/-- The editor takes a message. -/
theorem Settled.receives (settled : Settled files before) (sound : Sound files large before.world)
    (tallied : Tallied files before.world) (dirty : Bool) {message : DaemonMessage Text Rev}
    {rest : List (DaemonMessage Text Rev)} (down : before.world.down = message :: rest)
    (world : after.world = { before.world with
      app := (before.world.app.receive files.readOnly true dirty message).1
      down := rest
      up := before.world.up ++ (before.world.app.receive files.readOnly true dirty message).2 })
    (clean : after.clean = before.world.app.cleaned true before.clean message)
    (confirms : ∀ id text, message = .saved id → before.world.app.inFlight = some (id, text) →
    dirty = false →
      before.world.app.text = text) : Settled files after := by
  have takes : before.Takes after message (before.world.app.receive files.readOnly true
      dirty message).1 (before.world.app.receive files.readOnly true dirty message).2 := by
    refine ⟨?_, ?_, ?_, ?_, ?_, ?_, ?_, fun other there unlike => ?_⟩
    · rw [World.sent_cons down]
      rfl
    all_goals rw [world]
    rw [World.sent_cons down] at there
    exact (mem_cons.mp there).resolve_left unlike
  cases message with
  | getState disk =>
    refine takes.frame settled clean ?_ rfl rfl (lastMove_quiet rfl) (by simp) (by simp)
    rw [takes.app, clean]
    exact settled.text
  | discardDeleted n =>
    obtain ⟨m, text, same, _⟩ := tallied.reload (.discardDeleted n) (mem_filter.mpr
      ⟨down ▸ mem_append_left _ mem_cons_self, rfl⟩)
    cases same
  | reload n text revised =>
    obtain ⟨m, _, same, noted⟩ := tallied.reload (.reload n text revised) (mem_filter.mpr
      ⟨down ▸ mem_append_left _ mem_cons_self, rfl⟩)
    cases same
    have last : lastMove after.world.up = some (.applied (.port n)) := by
      rw [takes.up]
      exact lastMove_concat rfl
    refine ⟨fun _ => ?_, fun _ => ?_, fun id text there => ?_⟩
    · rw [takes.app, clean]
      rfl
    · rw [last]
      simp only [Watch.Agrees, takes.slot, clean]
      exact noted
    · rw [takes.app] at there
      cases there
  | save =>
    refine settled.saves files.readOnly clean (by rw [takes.app]; rfl) (by rw [takes.app]; rfl) ?_ ?_
      (takes.up.trans (append_nil _)) takes.revision takes.conflict takes.pending takes.slot
      fun other there about => takes.passed _ there (by rintro rfl; cases about)
    · rw [takes.app]
      exact App.save_text files.readOnly
    · rw [takes.app]
      exact App.save_dirty files.readOnly
  | diskChanged n content =>
    obtain ⟨_, _, same, noted⟩ := tallied.update (.diskChanged n content)
      (mem_filter.mpr ⟨by rw [World.sent_cons down]; exact mem_cons_self, rfl⟩)
    cases same
    obtain ⟨text, rfl⟩ := Option.isSome_iff_exists.mp (tallied.found n content noted)
    exact settled.updates takes rfl noted clean
  | saved id => exact settled.confirms sound down takes clean fun text => confirms id text rfl
  | saveRefused id disk => exact settled.refuses sound down takes clean

/-- The loop has handled a message, and the revision and flag it is left with are those that the
message stands for. -/
theorem Settled.pops (settled : Settled files before) {message : EditorMessage Text}
    {rest : List (EditorMessage Text)} (head : before.world.up = message :: rest)
    (up : after.world.up = rest) (app : after.world.app = before.world.app)
    (clean : after.clean = before.clean) (sent : ∀ other ∈ before.world.sent, other.answers.isSome =
      true → other ∈ after.world.sent)
    (still : message.moves = false → after.world.revision = before.world.revision ∧
      after.world.conflict = before.world.conflict)
    (free : message.moves = true → lastMove rest = none → before.Agrees files (some message) →
      after.Agrees files none)
    (asked : ∀ request, message = .saveRequest request → .saved request.id ∈ after.world.sent ∧
      after.world.revision = files.fileRevision request.text ∨
      (∃ disk, .saveRefused request.id disk ∈ after.world.sent) ∧ after.world.conflict = true)
    (pending : ∀ n, .applied (.disk n) ∈ rest → after.world.pending = before.world.pending)
    (slot : ∀ n, .applied (.port n) ∈ rest → after.world.slot = before.world.slot) : Settled
    files after := by
  have text : after.world.app.dirty = false → after.world.app.text = after.clean := by
    rw [app, clean]
    exact settled.text
  cases moves : message.moves with
  | false =>
    have last : lastMove after.world.up = lastMove before.world.up := by
      rw [up, head, lastMove_skip moves]
    have within {said : EditorMessage Text} (there : said ∈ before.world.up)
        (moves' : said.moves = true) : said ∈ rest := by
      rw [head] at there
      refine (mem_cons.mp there).resolve_left ?_
      rintro rfl
      rw [moves] at moves'
      cases moves'
    exact settled.frame clean text (by rw [app]) (by rw [app]) last (still moves).1 (still moves).2
      (fun n there => pending n (within there rfl)) (fun n there => slot n (within there rfl))
      (fun _ _ _ there => sent _ there rfl) (fun _ _ _ _ there => sent _ there rfl)
  | true =>
    have before_ : lastMove before.world.up = some ((lastMove rest).getD message) := by
      rw [head, lastMove_cons moves]
    refine ⟨text, fun none_ => ?_, fun id text there => ?_⟩
    · have agrees := settled.free (app ▸ none_)
      rw [up]
      rw [before_] at agrees
      cases behind : lastMove rest with
      | none =>
        rw [behind] at agrees
        exact free moves behind agrees
      | some other =>
        rw [behind, Option.getD_some] at agrees
        exact agrees.carried (mem_of_lastMove behind) clean pending slot
    · rcases settled.asked id text (app ▸ there) with asks | ⟨request, which, rfl, rfl⟩ | ⟨which, _⟩
      · exact .inl (app ▸ asks)
      · rw [before_] at which
        cases behind : lastMove rest with
        | none =>
          rw [behind] at which
          exact .inr (.inr ⟨up ▸ behind, asked request (Option.some.inj which)⟩)
        | some other =>
          rw [behind] at which
          exact .inr (.inl ⟨request, by rw [up, behind]; exact which, rfl, rfl⟩)
      · rw [before_] at which
        cases which

theorem World.refresh_parts [DecidableEq Rev] {world : World Text Rev} :
    (world.refresh files).up = world.up ∧ (world.refresh files).app = world.app ∧
    (world.refresh files).revision = world.revision ∧ (world.refresh files).conflict =
      world.conflict ∧ (world.refresh files).slot = world.slot ∧
    (world.refresh files).down = world.down ∧
    ((world.refresh files).pending = world.pending ∨ world.pending = none) := by
  unfold World.refresh
  split
  · exact ⟨rfl, rfl, rfl, rfl, rfl, rfl, .inl rfl⟩
  rename_i free
  split
  · exact ⟨rfl, rfl, rfl, rfl, rfl, rfl, .inl rfl⟩
  · exact ⟨rfl, rfl, rfl, rfl, rfl, rfl, .inr (by simpa using free)⟩

theorem World.takeDisk_loop {world : World Text Rev} (room : Bool) :
    (world.takeDisk files room).conflict = world.conflict ∧ (world.takeDisk files room).answer =
      world.answer := by
  unfold World.takeDisk
  split
  · exact ⟨rfl, rfl⟩
  dsimp only
  split
  · exact ⟨rfl, rfl⟩
  split <;> exact ⟨rfl, rfl⟩

theorem World.finish_parts {world : World Text Rev} {room : Bool} {n : Nat} {text : Option Text}
    (pending : world.pending = some (n, text)) : (world.finish room n).1.up = world.up ∧
    (world.finish room n).1.app = world.app ∧ (world.finish room n).1.revision = world.revision ∧
    (world.finish room n).1.conflict = world.conflict ∧ (world.finish room n).1.slot = world.slot ∧
    (world.finish room n).1.down = world.down ∧ (world.finish room n).1.answer = world.answer := by
  rw [World.finish_some pending]
  dsimp only
  split
  · obtain ⟨_, app, up, _, slot, _, down, answer, revision, conflict, _⟩ :=
      @World.refreshDisk_parts _ _ { world with pending := none, owed := false } room
    exact ⟨up, app, revision, conflict, slot, down, answer⟩
  · exact ⟨rfl, rfl, rfl, rfl, rfl, rfl, rfl⟩

/-- The loop handles a message of the editor. -/
theorem Settled.handles [DecidableEq Rev] (settled : Settled files before)
    (tallied : Tallied files before.world) (room : Bool) (idle : before.world.answer = none)
    {message : EditorMessage Text} {rest : List (EditorMessage Text)}
    (head : before.world.up = message :: rest)
    (world : after.world = World.handle files true room { before.world with up := rest } message)
    (clean : after.clean = before.clean)
    (small : ∀ request, message = .saveRequest request → files.tooLarge request.text = false) :
    Settled files after := by
  have sent_ : before.world.sent = before.world.down := by simp [World.sent, idle]
  have noUpdate {n m : Nat} (about : message.updateId = some n) : .applied (.disk m) ∉ rest := by
    intro there
    have none_ := filterMap_eq_nil_iff.mp (tallied.one_update head about).2.1 _ there
    cases none_
  have noReload {n m : Nat} (about : message.reloadId = some n) : .applied (.port m) ∉ rest := by
    intro there
    have none_ := filterMap_eq_nil_iff.mp (tallied.one_reload head about).2.1 _ there
    cases none_
  cases message with
  | state look =>
    cases look with
    | false =>
      exact settled.pops head (by rw [world]; rfl) (by rw [world]; rfl) clean
        (by rw [world]; exact fun _ there _ => there) (fun _ => by rw [world]; exact ⟨rfl, rfl⟩)
        (by simp [EditorMessage.moves]) (by simp) (fun _ _ => by rw [world]; rfl)
        (fun _ _ => by rw [world]; rfl)
    | true =>
      obtain ⟨up, app, revision, conflict, slot, down, pending⟩ :=
        @World.refresh_parts _ _ files _ { before.world with up := rest }
      replace world : after.world = World.refresh files { before.world with up := rest } := world
      refine settled.pops head (world ▸ up) (world ▸ app) clean (fun other there _ => ?_)
        (fun _ => ⟨world ▸ revision, world ▸ conflict⟩)
        (by simp [EditorMessage.moves]) (by simp) (fun n there => ?_) (fun _ _ => world ▸ slot)
      · rw [sent_] at there
        rw [world]
        exact mem_append_left _ (down ▸ there)
      · rcases pending with same | none_
        · exact world ▸ same
        · have updates := tallied.updates
          rw [none_, head] at updates
          have about := filterMap_eq_nil_iff.mp (append_eq_nil_iff.mp updates).1 _
            (mem_cons_of_mem _ there)
          cases about
  | saveRequest request =>
    obtain ⟨held, there, _⟩ := tallied.disk
    have writable := tallied.writable head
    by_cases stale : files.bounded held = false ∨ files.fileRevision held ≠ before.world.revision
    · replace world := world.trans
        (@World.saveRequest_stale _ _ _ { before.world with up := rest } _ request held writable
        (small request rfl) there stale)
      refine settled.pops head (by rw [world]) (by rw [world]) clean (fun other there _ => ?_)
        (by simp [EditorMessage.moves]) (fun _ _ never => never.elim) (fun other same =>
        .inr ⟨⟨files.fileText held, ?_⟩, by rw [world]⟩) (fun _ _ => by rw [world])
        (fun _ _ => by rw [world])
      · rw [sent_] at there
        rw [world]
        exact mem_append_left _ there
      · cases same
        rw [world]
        exact mem_append_right _ (mem_singleton_self _)
    · replace world := world.trans
        (@World.saveRequest_written _ _ _ { before.world with up := rest } _ request held writable
        (small request rfl) there stale)
      refine settled.pops head (by rw [world]) (by rw [world]) clean (fun other there _ => ?_)
        (by simp [EditorMessage.moves]) (fun _ _ never => never.elim) (fun other same =>
        .inl ⟨?_, ?_⟩) (fun _ _ => by rw [world]) (fun _ _ => by rw [world])
      · rw [sent_] at there
        rw [world]
        exact mem_append_left _ there
      · cases same
        rw [world]
        exact mem_append_right _ (mem_singleton_self _)
      · cases same
        rw [world]
  | diskConflict n text =>
    obtain ⟨⟨snapshot, pending⟩, _⟩ := tallied.one_update head rfl
    replace world := world.trans (@World.handle_diskConflict _ _ _ { before.world with up := rest }
      _ _ _ _ _ _ pending)
    obtain ⟨up, app, _, _, slot, down, answer⟩ :=
      @World.finish_parts _ _ { before.world with up := rest } room n snapshot pending
    refine settled.pops head (by rw [world]; exact up) (by rw [world]; exact app) clean
      (fun other there _ => ?_) (by simp [EditorMessage.moves])
      (fun _ _ _ => .inl (by rw [world])) (by simp) (fun _ there => absurd there (noUpdate rfl))
      (fun _ _ => by rw [world]; exact slot)
    rw [world]
    exact mem_append_left _ (down ▸ sent_ ▸ there)
  | applied id =>
    cases id with
    | disk n =>
      obtain ⟨⟨snapshot, pending⟩, _⟩ := tallied.one_update head rfl
      replace world := world.trans (@World.handle_applied _ _ _ { before.world with up := rest } _ _
        _ _ _ pending)
      obtain ⟨up, app, _, _, slot, down, answer⟩ :=
        @World.finish_parts _ _ { before.world with up := rest } room n snapshot pending
      refine settled.pops head (by rw [world]; exact up) (by rw [world]; exact app) clean
        (fun other there _ => ?_) (by simp [EditorMessage.moves])
        (fun _ _ agrees => .inr ?_)
        (by simp) (fun _ there => absurd there (noUpdate rfl)) (fun _ _ => by rw [world]; exact slot)
      · rw [world]
        exact mem_append_left _ (down ▸ sent_ ▸ there)
      · simp only [Watch.Agrees, pending, Option.some.injEq, Prod.mk.injEq, true_and] at agrees
        rw [world, clean, agrees]
        rfl
    | port n =>
      obtain ⟨⟨noted, slot⟩, _⟩ := tallied.one_reload head rfl
      obtain ⟨revision, rfl⟩ := Option.isSome_iff_exists.mp (tallied.noted n noted slot)
      replace world := world.trans (@World.handle_reloaded _ _ _ { before.world with up := rest }
        _ _ _ _ _ slot)
      refine settled.pops head (by rw [world]) (by rw [world]) clean
        (fun other there _ => by rw [world]; exact there) (by simp [EditorMessage.moves])
        (fun _ _ agrees => .inr ?_)
        (by simp) (fun _ _ => by rw [world]) (fun _ there => absurd there (noReload rfl))
      simp only [Watch.Agrees, slot, Option.some.injEq, Prod.mk.injEq, true_and] at agrees
      rw [world, clean]
      exact agrees
  | refused id =>
    cases id with
    | disk n =>
      obtain ⟨⟨snapshot, pending⟩, _⟩ := tallied.one_update head rfl
      replace world := world.trans (@World.handle_refused _ _ _ { before.world with up := rest } _ _
        _ _ _ pending)
      obtain ⟨up, app, revision, conflict, slot, down, answer⟩ :=
        @World.finish_parts _ _ { before.world with up := rest } room n snapshot pending
      obtain ⟨_, app', up', _, slot', _, down', _, revision', conflict', _⟩ :=
        @World.refreshDisk_parts _ _ (World.finish room n { before.world with up := rest }).1 room
      refine settled.pops head (by rw [world, up', up]) (by rw [world, app', app]) clean
        (fun other there _ => ?_)
        (fun _ => by rw [world, revision', conflict', revision, conflict]; exact ⟨rfl, rfl⟩)
        (by simp [EditorMessage.moves]) (by simp)
        (fun _ there => absurd there (noUpdate rfl)) (fun _ _ => by rw [world, slot', slot])
      rw [world]
      exact mem_append_left _ (by rw [down', down]; exact sent_ ▸ there)
    | port n =>
      obtain ⟨⟨noted, slot⟩, _⟩ := tallied.one_reload head rfl
      replace world := world.trans (@World.handle_unloaded _ _ _ { before.world with up := rest }
        _ _ _ _ _ slot)
      exact settled.pops head (by rw [world]) (by rw [world]) clean
        (fun other there _ => by rw [world]; exact there) (fun _ => by rw [world]; exact ⟨rfl, rfl⟩)
        (by simp [EditorMessage.moves]) (by simp) (fun _ _ => by rw [world])
        (fun _ there => absurd there (noReload rfl))

/-- Every step keeps what the loop takes the editor to hold as the editor does. -/
theorem Settled.step [DecidableEq Text] [DecidableEq Rev] {event : Event Text}
    (step : Watch.Step files before event after) (sound : Sound files large before.world)
    (tallied : Tallied files before.world) (settled : Settled files before) :
    Settled files after := by
  obtain ⟨⟨there, rest⟩, rfl⟩ := step
  have still {world : World Text Rev} (same : before.world.apply files event = world)
      (clean : (before.apply files event).clean = before.clean) (app : world.app = before.world.app)
      (up : world.up = before.world.up) (revision : world.revision = before.world.revision)
      (conflict : world.conflict = before.world.conflict) (pending : world.pending =
        before.world.pending)
      (slot : ∀ n, .applied (.port n) ∈ before.world.up → world.slot = before.world.slot)
      (sent : ∀ message ∈ before.world.sent, message ∈ world.sent) : Settled files
      (before.apply files event) := by
    have held : (before.apply files event).world = world := same
    refine settled.frame clean ?_ (by rw [held, app]) (by rw [held, app]) (by rw [held, up])
      (by rw [held, revision]) (by rw [held, conflict]) (fun _ _ => by rw [held, pending])
      (fun n there => by rw [held, slot n there])
      (fun _ _ _ there => held ▸ sent _ there) (fun _ _ _ _ there => held ▸ sent _ there)
    rw [held, clean, app]
    exact settled.text
  have idle (same : before.world.apply files event = before.world)
      (clean : (before.apply files event).clean = before.clean) : Settled files
      (before.apply files event) :=
    still same clean rfl rfl rfl rfl rfl (fun _ _ => rfl) fun _ there => there
  cases event with
  | external content => exact still rfl rfl rfl rfl rfl rfl rfl (fun _ _ => rfl) fun _ there => there
  | refresh room =>
    obtain ⟨_, app, up, pending, slot, _, down, answer, revision, conflict, _⟩ :=
      @World.refreshDisk_parts _ _ before.world room
    refine still rfl rfl app up revision conflict pending (fun _ _ => slot) fun message there => ?_
    simp only [World.sent, World.apply, down, answer]
    exact there
  | edit text dirty =>
    exact settled.frame rfl rest rfl rfl rfl rfl rfl (fun _ _ => rfl) (fun _ _ => rfl)
      (fun _ _ _ there => there) fun _ _ _ _ there => there
  | save | closeAndSave =>
    exact settled.saves files.readOnly rfl rfl rfl (App.save_text _) (App.save_dirty _) rfl rfl rfl
      rfl rfl fun _ there _ => there
  | autosave =>
    by_cases due : before.world.app.autosaveSuspended = false ∧ before.world.app.dirty = true
    · have app : (before.apply files .autosave).world.app = before.world.app.save files.readOnly :=
        if_pos due
      exact settled.saves files.readOnly rfl (by rw [app]) (by rw [app])
        (by rw [app]; exact App.save_text _) (by rw [app]; exact App.save_dirty _) rfl rfl rfl rfl
        rfl fun _ there _ => there
    · exact still rfl rfl (if_neg due) rfl rfl rfl rfl (fun _ _ => rfl) fun _ there => there
  | flush =>
    cases asked : before.world.app.outbox with
    | none =>
      exact idle (by simp [World.apply, asked]) rfl
    | some request =>
      have world : (before.apply files .flush).world = { before.world with
          app := { before.world.app with outbox := none }
          up := before.world.up ++ [.saveRequest request] } := by
        simp [Watch.apply, World.apply, asked]
      have flight := (sound.outbox request asked).1
      have last : lastMove (before.apply files .flush).world.up = some (.saveRequest request) := by
        rw [world]
        exact lastMove_concat rfl
      refine ⟨?_, fun none_ => ?_, fun id text there => .inr (.inl ⟨request, last, ?_⟩)⟩
      · rw [world]
        exact settled.text
      · rw [world] at none_
        exact absurd (flight.symm.trans none_) (by simp)
      · rw [world] at there
        have same := flight.symm.trans there
        simp only [Option.some.injEq, Prod.mk.injEq] at same
        exact same
  | receive ok dirty =>
    obtain ⟨rfl, confirms⟩ := rest
    cases down : before.world.down with
    | nil =>
      exact idle (by simp [World.apply, down]) (by simp [Watch.apply, down])
    | cons message others =>
      refine settled.receives sound tallied dirty down ?_ ?_ fun id text same =>
        confirms id others text (same ▸ down)
      · simp [Watch.apply, World.apply, down]
      · simp [Watch.apply, down]
  | serve ok room =>
    obtain ⟨rfl, small⟩ := rest
    cases up : before.world.up with
    | nil =>
      exact idle (by simp [World.apply, up]) rfl
    | cons message others =>
      by_cases blocked : before.world.answer.isSome = true ∨
        World.locks message = true ∧ before.world.operation.isSome = true
      · exact idle (by simp [World.apply, up, if_pos blocked]) rfl
      · refine settled.handles tallied room (by simpa using (not_or.mp blocked).1) up ?_ rfl
          fun request same => small request others (same ▸ up)
        simp [Watch.apply, World.apply, up, if_neg blocked]
  | answer =>
    refine still rfl rfl rfl rfl rfl rfl rfl (fun _ _ => rfl) fun message there => ?_
    simp only [World.sent, World.apply, Option.toList_none, append_nil]
    exact there
  | readDisk =>
    by_cases busy : before.world.operation.isSome = true
    · exact idle (by simp [World.apply, busy]) rfl
    · exact still
        (show _ = { before.world with operation := some before.world.disk } by simp [World.apply, busy])
        rfl rfl rfl rfl rfl rfl (fun _ _ => rfl) fun _ there => there
  | takeDisk room =>
    obtain ⟨_, revision, pending, down, up, _, _, _, app, slot⟩ := @World.takeDisk_parts _ _ files
      before.world room
    obtain ⟨conflict, answer⟩ := @World.takeDisk_loop _ _ files before.world room
    refine still rfl rfl app up revision conflict pending (fun n there => ?_) fun message there => ?_
    · refine slot.resolve_right fun none_ => ?_
      have reloads := tallied.reloads
      rw [none_] at reloads
      have about := filterMap_eq_nil_iff.mp (append_eq_nil_iff.mp reloads).1 _ there
      cases about
    · simp only [World.sent, World.apply, down, answer]
      exact there
  | keepMine room =>
    cases room with
    | false => exact idle rfl rfl
    | true => exact still rfl rfl rfl rfl rfl rfl rfl (fun _ _ => rfl) fun _ there => there
  | take =>
    cases forwarding : before.world.forwarding with
    | some taken =>
      exact idle (by simp [World.apply, forwarding]) rfl
    | none =>
      cases commands : before.world.commands with
      | nil =>
        exact idle (by simp [World.apply, forwarding, commands]) rfl
      | cons command others =>
        exact still (show _ = { before.world with
            forwarding := some (command, before.world.diskRefresh)
            diskRefresh := false
            commands := others } by simp [World.apply, forwarding, commands]) rfl rfl rfl rfl rfl
              rfl (fun _ _ => rfl)
          fun _ there => there
  | forward =>
    have grown {more : List (DaemonMessage Text Rev)} {message : DaemonMessage Text Rev}
        (there : message ∈ before.world.sent) : message ∈ before.world.down ++ more ++
          before.world.answer.toList := by
      rcases mem_append.mp there with on | held
      · exact mem_append_left _ (mem_append_left _ on)
      · exact mem_append_right _ held
    cases forwarding : before.world.forwarding with
    | none =>
      exact idle (by simp [World.apply, World.forward, forwarding]) rfl
    | some taken =>
      obtain ⟨command, asks⟩ := taken
      cases asks with
      | true =>
        exact still (show _ = { before.world with
            down := before.world.down ++ [.getState true]
            forwarding := if command = .getState false then none else some (command, false) } by
              simp [World.apply, World.forward, forwarding]) rfl rfl rfl rfl rfl rfl (fun _ _ =>
                rfl) fun _ => grown
      | false =>
        exact still (show _ = { before.world with
            down := before.world.down ++ [command]
            forwarding := none } by simp [World.apply, World.forward, forwarding])
          rfl rfl rfl rfl rfl rfl (fun _ _ => rfl) fun _ => grown

end Parts

/-- Nothing is on its way between editor and daemon, and no look at the disk is owed. -/
structure Watch.Quiet (watch : Watch Text Rev) : Prop where
  outbox : watch.world.app.outbox = none
  up : watch.world.up = []
  answer : watch.world.answer = none
  down : watch.world.down = []
  forwarding : watch.world.forwarding = none
  owed : watch.world.owed = false
  diskRefresh : watch.world.diskRefresh = false
  noticed : watch.noticed = true

/-- What holds at every moment of a run whose reloads are timely. -/
structure Watch.Keeps (files : Files Text Rev) (watch : Watch Text Rev) : Prop where
  sound : Sound files True watch.world
  tallied : Tallied files watch.world
  looked : Looked files watch
  settled : Settled files watch

section Law

variable {files : Files Text Rev} {watch : Watch Text Rev} {disk text : Text}

theorem Tallied.opened (bounded : files.bounded disk = true) :
    Tallied files (World.opened files (some disk) text) where
  disk := ⟨disk, rfl, bounded⟩
  updates := rfl
  reloads := rfl
  update := fun _ there => absurd there not_mem_nil
  found := nofun
  noted := nofun
  reading := nofun
  reload := fun _ there => absurd there not_mem_nil
  readOnly := fun _ => ⟨rfl, rfl⟩

theorem Watch.start_keeps [DecidableEq Rev] (bounded : files.bounded disk = true) :
    (Watch.start files disk text).Keeps files := by
  have tallied : Tallied files (World.opened files (some disk) text) := .opened bounded
  refine ⟨World.start_sound (some disk) fun _ => trivial, tallied.refresh rfl, ?_, ?_⟩
  · -- The loop begins as if it had been asked to look.
    have asked : Looked files ⟨{ World.opened files (some disk) text with up := [.state true] },
      text, true⟩ :=
      ⟨.inr (.inl (.inr (.inr (mem_singleton_self _)))), nofun,
        fun _ _ _ _ suffix => absurd (eq_nil_of_suffix_nil suffix) (by simp), fun _ _ _ _ => nofun⟩
    have held : Tallied files { World.opened files (some disk) text with up := [.state true] } :=
      ⟨tallied.disk, rfl, rfl, tallied.update, nofun, nofun, nofun, tallied.reload, fun _ =>
      ⟨rfl, rfl⟩⟩
    exact asked.refreshes held rfl rfl nofun
  · obtain ⟨up, app, revision, conflict, _⟩ := @World.refresh_parts _ _ files _
      (World.opened files (some disk) text)
    have last : lastMove (Watch.start files disk text).world.up = none := congrArg lastMove up
    refine ⟨fun _ => congrArg App.text app, fun _ => ?_, fun _ _ there => ?_⟩
    · rw [last]
      exact .inr revision
    · rw [show (Watch.start files disk text).world.app = _ from app] at there
      cases there

theorem Watch.Keeps.step [DecidableEq Text] [DecidableEq Rev] {before after : Watch Text Rev}
    {event : Event Text} (step : Watch.Step files before event after)
    (timely : before.timely event = true) (keeps : before.Keeps files) : after.Keeps files where
  sound := World.step_sound (congrArg Watch.world step.2) keeps.sound fun _ => trivial
  tallied := keeps.tallied.step step keeps.sound
  looked := keeps.looked.step step timely keeps.sound keeps.tallied
  settled := keeps.settled.step step keeps.sound keeps.tallied

theorem Watch.Keeps.known (keeps : watch.Keeps files) (quiet : watch.Quiet) :
    watch.world.revision = files.revision watch.world.disk := by
  have sent : watch.world.sent = [] := by simp [World.sent, quiet.down, quiet.answer]
  have unasked : watch.world.pending = none := by
    have updates := keeps.tallied.updates
    simp only [quiet.up, World.announced, sent, filter_nil, filterMap_nil, append_nil] at updates
    cases pending : watch.world.pending with
    | none => rfl
    | some pair => simp [pending] at updates
  rcases keeps.looked.known with known | due | revises
  · exact known
  · simp [Watch.looks, Watch.later, quiet.owed, quiet.diskRefresh, quiet.noticed, quiet.forwarding,
      quiet.down, quiet.up] at due
  · simp [Watch.revises, unasked, quiet.outbox, quiet.up, quiet.down] at revises

/-- Once nothing is under way, a document that is not dirty shows the file unless a conflict is
flagged. -/
theorem clean_shows_disk [DecidableEq Text] [DecidableEq Rev] (files : Files Text Rev)
    (hashes : files.Hashes) (bounded : files.bounded disk = true)
    {steps : List (Taken (Watch Text Rev) (Event Text))} {last : Watch Text Rev}
    (run : Run (Watch.Step files) (Watch.start files disk text) steps last)
    (timely : ∀ taken ∈ steps, taken.before.timely taken.event = true) (quiet : last.Quiet)
    (clean : last.world.app.dirty = false) (calm : last.world.conflict = false) :
    last.world.disk = some last.world.app.text ∧ last.world.revision =
      files.revision last.world.disk := by
  have keeps : last.Keeps files :=
    (run.guarded (Watch.Keeps files) (fun taken => taken.before.timely taken.event = true)
    (fun step keeps timely => keeps.step step timely) (Watch.start_keeps bounded) timely).1
  have known := keeps.known quiet
  have last_ : lastMove last.world.up = none := by rw [quiet.up]; rfl
  have free : last.world.app.inFlight = none := by
    cases flight : last.world.app.inFlight with
    | none => rfl
    | some pair =>
      have sent : last.world.sent = [] := by simp [World.sent, quiet.down, quiet.answer]
      rcases keeps.settled.asked pair.1 pair.2 flight with
        asks | ⟨_, which, _⟩ | ⟨_, ⟨member, _⟩ | ⟨⟨_, member⟩, _⟩⟩
      · rw [quiet.outbox] at asks
        cases asks
      · rw [last_] at which
        cases which
      · rw [sent] at member
        cases member
      · rw [sent] at member
        cases member
  have agrees := keeps.settled.free free
  rw [last_] at agrees
  rcases agrees with flagged | same
  · rw [calm] at flagged
    cases flagged
  · obtain ⟨held, there, bounded⟩ := keeps.tallied.disk
    refine ⟨?_, known⟩
    rw [keeps.settled.text clean, there]
    refine (hashes.content (files.small_of_bounded bounded) ?_).symm
    rw [there] at known
    exact same.symm.trans known

/-- Contents are numbers; nine is too large. -/
private def naturals : Files Nat (Option Nat) where
  revisionOf := some
  absent := none
  binary _ := false
  tooLarge text := text == 9
  readOnly := false

/-- Others write the file, and the daemon looks. -/
private def noticing : List (Event Nat) :=
  [.external (some 7), .refresh true, .take, .forward, .receive true true, .serve true true,
    .answer, .receive true true, .serve true true]

private def permits (watch : Watch Nat (Option Nat)) (event : Event Nat) : Bool :=
  (watch.world.apply naturals event).disk.any naturals.bounded && match event with
    | .edit text dirty => dirty || text == watch.clean
    | .receive ok dirty =>
      ok && (dirty || (watch.world.app.inFlight.all fun pending => watch.world.app.text == pending.2))
    | .serve ok _ => ok && match watch.world.up with
      | .saveRequest request :: _ => !naturals.tooLarge request.text
      | _ => true
    | _ => true

private theorem step_of_permits {watch : Watch Nat (Option Nat)} {event : Event Nat}
    (permitted : permits watch event = true) :
    Watch.Step naturals watch event (watch.apply naturals event) := by
  obtain ⟨there, rest⟩ := Bool.and_eq_true_iff.mp permitted
  obtain ⟨text, there, bounded⟩ := (Option.any_eq_true _ _).mp there
  refine ⟨⟨⟨text, there, bounded⟩, ?_⟩, rfl⟩
  cases event with
  | edit text dirty => exact fun clean => by simpa [clean] using rest
  | receive ok dirty =>
    obtain ⟨fine, same⟩ := Bool.and_eq_true_iff.mp rest
    exact ⟨fine, fun _ _ _ _ flight clean => by simpa [clean, flight] using same⟩
  | serve ok room =>
    obtain ⟨fine, small⟩ := Bool.and_eq_true_iff.mp rest
    exact ⟨fine, fun _ _ up => by simpa [up] using small⟩
  | _ => trivial

theorem clean_shows_disk_written : ((Watch.start naturals 0 0).world.disk = some 0) ∧
    (Run.replay (Watch.apply naturals) (Watch.start naturals 0 0) noticing).world.disk =
      some (Run.replay (Watch.apply naturals) (Watch.start naturals 0 0)
      noticing).world.app.text := by
  have hashes : naturals.Hashes := ⟨fun _ _ => Option.some.inj, fun _ => Option.some_ne_none _⟩
  have run : Run (Watch.Step naturals) _ _ _ := Run.of_admits step_of_permits
    (show Run.admits (Watch.apply naturals) permits (Watch.start naturals 0 0) noticing =
      true by decide)
  exact ⟨rfl, (clean_shows_disk naturals hashes rfl run (by decide) ⟨rfl, rfl, rfl, rfl, rfl, rfl,
    rfl, rfl⟩ rfl rfl).1⟩

/-- A reload is read before a save, and sent after the look at what it has written. -/
private def late : List (Event Nat) :=
  [.readDisk, .takeDisk true, .edit 5 true, .save, .flush, .serve true true, .answer, .refresh true,
    .receive true false, .take, .forward, .forward, .receive true true, .receive true true,
    .serve true true, .serve true true]

theorem late_reload_shows_old : ∃ (steps : List (Taken (Watch Nat (Option Nat)) (Event Nat)))
    (last : Watch Nat (Option Nat)), Run (Watch.Step naturals) (Watch.start naturals 0 0)
    steps last ∧ last.Quiet ∧
      last.world.app.dirty = false ∧ last.world.conflict = false ∧ last.world.disk = some 5 ∧
      last.world.app.text = 0 := by
  have run : Run (Watch.Step naturals) _ _ _ := Run.of_admits step_of_permits
    (show Run.admits (Watch.apply naturals) permits (Watch.start naturals 0 0) late = true by decide)
  exact ⟨_, _, run, ⟨rfl, rfl, rfl, rfl, rfl, rfl, rfl, rfl⟩, rfl, rfl, rfl, rfl⟩

end Law

end ForgeNode.Saves
