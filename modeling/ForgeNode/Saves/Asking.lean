import ForgeNode.Saves.Seen

/-! What the editor asks, answers and forgets keeps the loop's revision one it has been given. -/

namespace ForgeNode.Saves

open List

variable {Text Rev : Type} {files : Files Text Rev} {large : Prop} {world : World Text Rev}

variable {app : App Text} {id : Nat} {message : DaemonMessage Text Rev}
  {rest : List (DaemonMessage Text Rev)}

theorem prefix_of_append {up : List (EditorMessage Text)} {message : EditorMessage Text}
    (save : message.saveId = none) {front : List (EditorMessage Text)} {request : SaveRequest Text}
    (shorter : front ++ [.saveRequest request] <+: up ++ [message]) :
    front ++ [.saveRequest request] <+: up := by
  rcases prefix_concat_iff.mp shorter with same | earlier
  · obtain ⟨_, last⟩ := append_inj' same rfl
    cases last
    cases save
  · exact earlier

theorem filterMap_saveId_append {up : List (EditorMessage Text)} {message : EditorMessage Text}
    (save : message.saveId = none) :
    (up ++ [message]).filterMap EditorMessage.saveId = up.filterMap EditorMessage.saveId := by
  simp [save]

theorem World.ahead_shape (seen : List (Option Text)) (mine : Option Nat) :
    (world.ahead files large seen mine).slot = (world.ahead files large [] none).slot ∧
      (world.ahead files large seen mine).pending = (world.ahead files large [] none).pending :=
  @Track.after_shape Text Rev files seen [] mine none (world.track files large seen)
  (world.track files large []) rfl rfl
    world.up

theorem World.ahead_mono {seen seen' : List (Option Text)} {mine mine' : Option Nat}
    (more : ∀ content ∈ seen, content ∈ seen')
    (same : ∀ message ∈ world.up, ∀ id, message.saveId = some id → mine = some id → mine' = some id)
    (known : (world.ahead files large seen mine).known) :
    (world.ahead files large seen' mine').known :=
  (@Track.after_mono Text Rev files seen seen' mine mine' (world.track files large seen)
  (world.track files large seen')
    world.up more same rfl rfl (Files.Known.mono more)).2.2 known

theorem World.ports_cons (down : world.down = message :: rest) :
    world.ports = message.port.toList ++ (rest ++ world.queued).filterMap DaemonMessage.port := by
  unfold World.ports
  rw [down, cons_append, filterMap_cons]
  cases message.port <;> rfl

theorem World.sent_cons
    (down : world.down = message :: rest) :
    world.sent = message :: (rest ++ world.answer.toList) := by
  unfold World.sent
  rw [down]
  rfl

/-- The editor answers a message that is about no save, and keeps its own save as it is. -/
theorem Sound.replies (sound : Sound files large world) {reply : EditorMessage Text}
    (down : world.down = message :: rest) (plain : message.answers = none)
    (flight : app.inFlight = world.app.inFlight) (outbox : app.outbox = world.app.outbox)
    (next : app.nextRequestId = world.app.nextRequestId)
    (more : ∀ content ∈ world.app.seen, content ∈ app.seen)
    (save : reply.saveId = none) (number : ∀ n, reply.number = some n → message.number = some n)
    (ports : world.ports = [] ∨ message.port.isSome ∨
      ∀ track : Track Text Rev, (track.next files [] none reply).slot = track.slot)
    (pending : ∀ track : Track Text Rev, (track.next files [] none reply).pending = track.pending ∨
      (track.next files [] none reply).pending = none)
    (port : ∀ n revision, reply = .applied (.port n) →
      (world.ahead files large [] none).slot ≠ some (n, some revision))
    (disk : ∀ n text, reply = .applied (.disk n) ∨ (∃ mine, reply = .diskConflict n mine) →
      (world.ahead files large [] none).pending = some (n, text) →
        text ∈ app.seen ∧ files.Small text ∧ app.outbox = none) :
    Sound files large { world with app, down := rest, up := world.up ++ [reply] } := by
  have sent := World.sent_cons down
  have ahead (seen : List (Option Text)) (mine : Option Nat) :
      World.ahead files large seen mine { world with app, down := rest, up := world.up ++ [reply] } =
        (world.ahead files large seen mine).next files seen mine reply :=
    Track.after_append world.up [reply]
  have promised : @App.promised Text Rev app = world.app.promised := by
    funext other
    cases other <;> simp only [App.promised, flight]
  have silent : world.app.promised message = none := by
    cases message <;> first | rfl | cases plain
  have told : ∀ content ∈ world.told, content ∈ World.told { world with
      app, down := rest, up := world.up ++ [reply] } := by
    intro content member
    rcases mem_append.mp member with promise | given
    · refine mem_append_left _ ?_
      obtain ⟨other, there, same⟩ := mem_filterMap.mp promise
      rw [sent] at there
      rcases mem_cons.mp there with rfl | later
      · rw [silent] at same
        cases same
      · exact mem_filterMap.mpr ⟨other, later, promised ▸ same⟩
    · exact mem_append_right _ (more content given)
  have answered : world.sent.filterMap DaemonMessage.answers =
      (rest ++ world.answer.toList).filterMap DaemonMessage.answers := by
    rw [sent, filterMap_cons, plain]
  have mine : World.mine { world with app, down := rest, up := world.up ++ [reply] } = world.mine :=
    congrArg (Option.map Prod.fst) flight
  have saveIds := @filterMap_saveId_append Text world.up reply save
  have lasts : ∀ other ∈ rest ++ world.answer.toList, other ∈ world.sent := fun other member =>
    sent ▸ mem_cons_of_mem _ member
  have first : message ∈ world.sent := sent ▸ mem_cons_self
  constructor
  · intro other member n named
    rcases mem_append.mp member with before | last
    · exact sound.numbers other before n named
    · obtain rfl := mem_singleton.mp last
      exact sound.numbered message (mem_append_left _ first) n (number n named)
  · intro other member n named
    rcases mem_append.mp member with before | last
    · exact sound.numbered other (mem_append_left _ (lasts other before)) n named
    · exact sound.numbered other (mem_append_right _ last) n named
  · rw [ahead]
    have split := World.ports_cons down
    change (rest ++ world.queued).filterMap DaemonMessage.port = [] ∨ ∃ n text,
      (rest ++ world.queued).filterMap DaemonMessage.port = [(n, text)] ∧ _
    rcases sound.ports with none_ | ⟨n, text, only, small, slot⟩
    · rw [split] at none_
      exact .inl (append_eq_nil_iff.mp none_).2
    · rw [split] at only
      cases here : message.port with
      | some pair =>
        rw [here] at only
        exact .inl (List.cons.inj only).2
      | none =>
        rw [here] at only
        refine .inr ⟨n, text, only, small, ?_⟩
        rcases ports with none_ | some_ | same
        · rw [split, here] at none_
          rw [Option.toList_none, nil_append] at only none_
          exact absurd (none_.symm.trans only) nofun
        · rw [here] at some_
          cases some_
        · rw [same]
          exact slot
  · rw [ahead]
    intro n text member
    obtain ⟨small, snapshot⟩ := sound.snapshots n text (lasts _ member)
    refine ⟨small, fun other named => ?_⟩
    rcases pending (world.ahead files large [] none) with same | none_
    · rw [same] at named
      exact snapshot other named
    · rw [none_] at named
      cases named
  · exact sound.answer
  · exact sound.queued
  · change ((world.up ++ [reply]).filterMap EditorMessage.saveId ++
      (rest ++ world.answer.toList).filterMap DaemonMessage.answers).Nodup
    rw [saveIds, ← answered]
    exact sound.saves
  · change ∀ id ∈ (world.up ++ [reply]).filterMap EditorMessage.saveId ++
      (rest ++ world.answer.toList).filterMap DaemonMessage.answers, id < app.nextRequestId
    rw [saveIds, ← answered, next]
    exact sound.below
  · change ∀ id text, app.inFlight = some (id, text) → id < app.nextRequestId
    rw [flight, next]
    exact sound.flight
  · change ∀ request, app.outbox = some request → app.inFlight = some (request.id, request.text) ∧
      request.id ∉ (world.up ++ [reply]).filterMap EditorMessage.saveId ++
        (rest ++ world.answer.toList).filterMap DaemonMessage.answers
    rw [saveIds, ← answered, flight, outbox]
    exact sound.outbox
  · intro request where_ content member
    refine more content (sound.given request ?_ content member)
    rcases where_ with there | there
    · rcases mem_append.mp there with before | last
      · exact .inl before
      · obtain rfl := mem_singleton.mp last
        cases save
    · exact .inr (outbox.symm.trans there)
  · intro request text there named
    rcases mem_append.mp there with before | last
    · exact sound.text request text before (flight.symm.trans named)
    · obtain rfl := mem_singleton.mp last
      cases save
  · rw [ahead, mine]
    have known := World.ahead_mono told (fun _ _ _ _ same => same) sound.known
    have shape := @World.ahead_shape Text Rev files large world
    refine Track.next_known known save (fun n revision same slot => ?_)
      (fun n text which snapshot => ?_)
    · exact absurd ((shape _ _).1.symm.trans slot) (port n revision same)
    · obtain ⟨given, small, _⟩ := disk n text which ((shape _ _).2.symm.trans snapshot)
      exact ⟨text, mem_append_right _ given, small, rfl⟩
  · intro request named
    rw [ahead]
    have shape := @World.ahead_shape Text Rev files large world
    refine Track.next_known (sound.asked request (outbox.symm.trans named)) save
      (fun n revision same slot => ?_) (fun n text which snapshot => ?_)
    · exact absurd ((shape _ _).1.symm.trans slot) (port n revision same)
    · have none_ := (disk n text which ((shape _ _).2.symm.trans snapshot)).2.2
      exact absurd (none_.symm.trans named) nofun
  · intro front request shorter
    exact sound.each front request (prefix_of_append save shorter)

/-- The editor asks for a save, if none is in flight. -/
theorem Sound.asks (sound : Sound files large world) (readOnly : Bool) :
    Sound files large { world with app := world.app.save readOnly } := by
  unfold App.save
  split
  · exact sound
  · rename_i allowed
    have idle : world.app.inFlight = none := by
      have none_ := (not_or.mp allowed).2
      rwa [Bool.not_eq_true, Option.isSome_eq_false_iff, Option.isNone_iff_eq_none] at none_
    have bare : world.app.outbox = none := by
      cases outbox : world.app.outbox with
      | none => rfl
      | some request => exact absurd (idle.symm.trans (sound.outbox request outbox).1) nofun
    have silent (message : DaemonMessage Text Rev) : world.app.promised message = none := by
      cases message <;> simp [App.promised, idle]
    have told : world.told = world.app.seen := by
      have none_ : world.sent.filterMap world.app.promised = [] :=
        filterMap_eq_nil_iff.mpr fun message _ => silent message
      unfold World.told
      rw [none_, nil_append]
    have known : (world.ahead files large world.app.seen none).known := by
      have known := sound.known
      rw [told] at known
      exact World.ahead_mono (fun _ given => given) (fun _ _ _ _ mine => by
        rw [World.mine, idle] at mine
        cases mine) known
    have fresh : world.app.nextRequestId ∉ world.up.filterMap EditorMessage.saveId ++
        world.sent.filterMap DaemonMessage.answers := fun member =>
      Nat.lt_irrefl _ (sound.below _ member)
    refine ⟨sound.numbers, sound.numbered, sound.ports, sound.snapshots, sound.answer, sound.queued,
      sound.saves, fun id member => Nat.lt_succ_of_lt (sound.below id member), ?_, ?_, ?_, ?_, ?_,
      ?_, sound.each⟩
    · rintro id text ⟨⟩
      exact Nat.lt_succ_self _
    · intro request same
      obtain rfl := Option.some.inj same
      exact ⟨rfl, fresh⟩
    · rintro request (there | same)
      · exact sound.given request (.inl there)
      · obtain rfl := Option.some.inj same
        exact fun _ given => given
    · intro request text there same
      have named : world.app.nextRequestId = request.id := congrArg Prod.fst (Option.some.inj same)
      rw [named] at fresh
      have member : request.id ∈ world.up.filterMap EditorMessage.saveId :=
        mem_filterMap.mpr ⟨_, there, rfl⟩
      exact absurd (mem_append_left _ member) fresh
    · exact World.ahead_mono (fun _ given => mem_append_right _ given)
        (fun _ _ _ _ none_ => by cases none_) known
    · intro request same
      obtain rfl := Option.some.inj same
      exact known

/-- The editor sends the save it has asked for. -/
theorem Sound.flushes (sound : Sound files large world) {request : SaveRequest Text}
    (outbox : world.app.outbox = some request) :
    Sound files large { world with
      app := { world.app with outbox := none }
      up := world.up ++ [EditorMessage.saveRequest request] } := by
  obtain ⟨flight, fresh⟩ := sound.outbox request outbox
  have ahead (seen : List (Option Text)) (mine : Option Nat) :
      World.ahead files large seen mine { world with
        app := { world.app with outbox := none }
        up := world.up ++ [EditorMessage.saveRequest request] } =
          (world.ahead files large seen mine).next files seen mine (.saveRequest request) :=
    Track.after_append world.up [EditorMessage.saveRequest request]
  have ids : (world.up ++ [EditorMessage.saveRequest request]).filterMap EditorMessage.saveId =
      world.up.filterMap EditorMessage.saveId ++ [request.id] := by
    simp [EditorMessage.saveId]
  have perm : (world.up.filterMap EditorMessage.saveId ++ [request.id] ++
      world.sent.filterMap DaemonMessage.answers).Perm (request.id ::
        (world.up.filterMap EditorMessage.saveId ++ world.sent.filterMap DaemonMessage.answers)) := by
    rw [append_assoc]
    exact perm_middle
  refine ⟨?_, sound.numbered, ?_, ?_, sound.answer, sound.queued, ?_, ?_, sound.flight, nofun, ?_,
    ?_, ?_, nofun, ?_⟩
  · intro message member n named
    rcases mem_append.mp member with before | last
    · exact sound.numbers message before n named
    · obtain rfl := mem_singleton.mp last
      cases named
  · rw [ahead]
    exact sound.ports
  · rw [ahead]
    exact sound.snapshots
  · change ((world.up ++ [EditorMessage.saveRequest request]).filterMap EditorMessage.saveId ++
      world.sent.filterMap DaemonMessage.answers).Nodup
    rw [ids]
    exact perm.nodup_iff.mpr (nodup_cons.mpr ⟨fresh, sound.saves⟩)
  · change ∀ id ∈ (world.up ++ [EditorMessage.saveRequest request]).filterMap EditorMessage.saveId ++
      world.sent.filterMap DaemonMessage.answers, id < world.app.nextRequestId
    rw [ids]
    intro id member
    rcases mem_cons.mp (perm.mem_iff.mp member) with rfl | before
    · exact sound.flight _ _ flight
    · exact sound.below id before
  · rintro other (there | same)
    · rcases mem_append.mp there with before | last
      · exact sound.given other (.inl before)
      · cases mem_singleton.mp last
        exact sound.given request (.inr outbox)
    · cases same
  · intro other text there named
    rcases mem_append.mp there with before | last
    · exact sound.text other text before named
    · cases mem_singleton.mp last
      cases flight.symm.trans named
      rfl
  · rw [ahead]
    exact congrArg (Option.map Prod.fst) flight
  · intro front other shorter
    rcases prefix_concat_iff.mp shorter with same | earlier
    · obtain ⟨rfl, last⟩ := append_inj' same rfl
      cases last
      exact sound.asked request outbox
    · exact sound.each front other earlier

/-- The editor hears of one of its saves. -/
theorem Sound.hears (sound : Sound files large world) (down : world.down = message :: rest)
    (answers : message.answers = some id) (outbox : app.outbox = world.app.outbox)
    (next : app.nextRequestId = world.app.nextRequestId)
    (more : ∀ content ∈ world.app.seen, content ∈ app.seen)
    (told : ∀ content ∈ world.told, content ∈ World.told { world with app, down := rest })
    (flight : app.inFlight = world.app.inFlight ∨ app.inFlight = none ∧ world.mine = some id) :
    Sound files large { world with app, down := rest } := by
  have sent := World.sent_cons down
  have later : ∀ other ∈ rest ++ world.answer.toList, other ∈ world.sent := fun other member =>
    sent ▸ mem_cons_of_mem _ member
  have plain : message.port = none := by cases message <;> first | rfl | cases answers
  have answered : id ∈ world.sent.filterMap DaemonMessage.answers :=
    mem_filterMap.mpr ⟨message, sent ▸ mem_cons_self, answers⟩
  have sub : ((rest ++ world.answer.toList).filterMap DaemonMessage.answers).Sublist
      (world.sent.filterMap DaemonMessage.answers) := by
    rw [sent, filterMap_cons, answers]
    exact sublist_cons_self _ _
  have subs := (List.Sublist.refl (world.up.filterMap EditorMessage.saveId)).append sub
  have unsent : id ∉ world.up.filterMap EditorMessage.saveId := fun member =>
    (nodup_append.mp sound.saves).2.2 id member id answered rfl
  refine ⟨sound.numbers, ?_, ?_, ?_, sound.answer, sound.queued, ?_, ?_, ?_, ?_, ?_, ?_, ?_,
    ?_, sound.each⟩
  · intro other member n named
    rcases mem_append.mp member with before | last
    · exact sound.numbered other (mem_append_left _ (later other before)) n named
    · exact sound.numbered other (mem_append_right _ last) n named
  · have ports := sound.ports
    rw [World.ports_cons down, plain] at ports
    exact ports
  · exact fun n text member => sound.snapshots n text (later _ member)
  · exact subs.nodup sound.saves
  · intro other member
    exact next ▸ sound.below other (subs.subset member)
  · intro other text named
    rcases flight with same | ⟨none_, _⟩
    · exact next ▸ sound.flight other text (same.symm.trans named)
    · exact absurd (none_.symm.trans named) nofun
  · intro request named
    obtain ⟨mine, fresh⟩ := sound.outbox request (outbox.symm.trans named)
    refine ⟨?_, fun member => fresh (subs.subset member)⟩
    rcases flight with same | ⟨_, here⟩
    · exact same.trans mine
    · have equal : request.id = id :=
        Option.some.inj ((congrArg (Option.map Prod.fst) mine).symm.trans here)
      exact absurd (mem_append_right _ (equal ▸ answered)) fresh
  · intro request there content member
    exact more content (sound.given request (there.imp_right outbox.symm.trans) content member)
  · intro request text there named
    rcases flight with same | ⟨none_, _⟩
    · exact sound.text request text there (same.symm.trans named)
    · exact absurd (none_.symm.trans named) nofun
  · refine World.ahead_mono told (fun other member save named mine => ?_) sound.known
    rcases flight with same | ⟨_, here⟩
    · exact (congrArg (Option.map Prod.fst) same).trans mine
    · obtain rfl : save = id := Option.some.inj (mine.symm.trans here)
      exact absurd (mem_filterMap.mpr ⟨other, member, named⟩) unsent
  · exact fun request named => sound.asked request (outbox.symm.trans named)

/-- The editor takes the text of a reload, and forgets its save. -/
theorem Sound.reloads (sound : Sound files large world) {n : Nat} {text : Text} {revision : Rev}
    (down : world.down = .reload n text revision :: rest) (flight : app.inFlight = none)
    (outbox : app.outbox = none) (next : app.nextRequestId = world.app.nextRequestId)
    (seen : app.seen = some text :: world.app.seen) :
    Sound files large { world with app, down := rest, up := world.up ++ [.applied (.port n)] } := by
  have sent := World.sent_cons down
  have later : ∀ other ∈ rest ++ world.answer.toList, other ∈ world.sent := fun other member =>
    sent ▸ mem_cons_of_mem _ member
  have ahead (seen : List (Option Text)) (mine : Option Nat) :
      World.ahead files large seen mine
      { world with app, down := rest, up := world.up ++ [.applied (.port n)] } =
        (world.ahead files large seen mine).next files seen mine (.applied (.port n)) :=
    Track.after_append world.up [EditorMessage.applied (.port n)]
  have answered : world.sent.filterMap DaemonMessage.answers =
      (rest ++ world.answer.toList).filterMap DaemonMessage.answers := by
    rw [sent]
    rfl
  have saveIds := @filterMap_saveId_append Text world.up (.applied (.port n)) rfl
  obtain ⟨small, slot, last⟩ : files.Small (some text) ∧
      (world.ahead files large [] none).slot = some (n, some (files.fileRevision text)) ∧
      (rest ++ world.queued).filterMap DaemonMessage.port = [] := by
    have split := World.ports_cons down
    rcases sound.ports with none_ | ⟨m, content, only, small, slot⟩
    · exact absurd (split.symm.trans none_) (cons_ne_nil _ _)
    · obtain ⟨same, empty⟩ := List.cons.inj (split.symm.trans only)
      cases same
      exact ⟨small, slot, empty⟩
  have more : ∀ content ∈ world.app.seen, content ∈ app.seen := fun content member =>
    seen ▸ mem_cons_of_mem _ member
  refine ⟨?_, ?_, .inl last, ?_, sound.answer, sound.queued, ?_, ?_, ?_, ?_, ?_, ?_, ?_, ?_, ?_⟩
  · intro other member m named
    rcases mem_append.mp member with before | last
    · exact sound.numbers other before m named
    · obtain rfl := mem_singleton.mp last
      cases named
      exact sound.numbered _ (mem_append_left _ (sent ▸ mem_cons_self)) n rfl
  · intro other member m named
    rcases mem_append.mp member with before | last
    · exact sound.numbered other (mem_append_left _ (later other before)) m named
    · exact sound.numbered other (mem_append_right _ last) m named
  · rw [ahead]
    intro m content member
    obtain ⟨small, snapshot⟩ := sound.snapshots m content (later _ member)
    refine ⟨small, fun other named => snapshot other ?_⟩
    rw [← named]
    simp only [Track.next, slot]
    rw [if_neg (by simp)]
  · change ((world.up ++ [EditorMessage.applied (.port n)]).filterMap EditorMessage.saveId ++
      (rest ++ world.answer.toList).filterMap DaemonMessage.answers).Nodup
    rw [saveIds, ← answered]
    exact sound.saves
  · change ∀ id ∈ (world.up ++ [EditorMessage.applied (.port n)]).filterMap EditorMessage.saveId ++
      (rest ++ world.answer.toList).filterMap DaemonMessage.answers, id < app.nextRequestId
    rw [saveIds, ← answered, next]
    exact sound.below
  · exact fun _ _ named => absurd (flight.symm.trans named) (Option.some_ne_none _).symm
  · exact fun _ named => absurd (outbox.symm.trans named) (Option.some_ne_none _).symm
  · rintro request (there | named)
    · rcases mem_append.mp there with before | last
      · exact fun content member => more content (sound.given request (.inl before) content member)
      · cases mem_singleton.mp last
    · exact absurd (outbox.symm.trans named) (Option.some_ne_none _).symm
  · exact fun _ _ _ named => absurd (flight.symm.trans named) (Option.some_ne_none _).symm
  · rw [ahead]
    have here (seen : List (Option Text)) (mine : Option Nat) :=
      (@World.ahead_shape Text Rev files large world seen mine).1.trans slot
    simp only [Track.next, here]
    rw [if_neg (by simp)]
    exact ⟨some text, mem_append_right _ (seen ▸ mem_cons_self), small, rfl⟩
  · exact fun _ named => absurd (outbox.symm.trans named) (Option.some_ne_none _).symm
  · intro front request shorter
    exact sound.each front request (prefix_of_append rfl shorter)

theorem App.promised_answers {content : Option Text}
    (promised : app.promised message = some content) :
    message.answers.isSome ∧ message.answers = app.inFlight.map Prod.fst := by
  cases flight : app.inFlight with
  | none => cases message <;> simp [App.promised, flight] at promised
  | some pending =>
    cases message with
    | saved id =>
      simp only [App.promised, flight, Option.bind_some, Option.ite_none_right_eq_some] at promised
      exact ⟨rfl, congrArg some promised.1.symm⟩
    | saveRefused id disk =>
      simp only [App.promised, flight, Option.bind_some, Option.ite_none_right_eq_some] at promised
      exact ⟨rfl, congrArg some promised.1.symm⟩
    | _ => cases promised

/-- A message that only asks the editor for something has come. -/
theorem Sound.pops (sound : Sound files large world) (down : world.down = message :: rest)
    (plain : message.answers = none) (noPort : message.port = none) :
    Sound files large { world with down := rest } := by
  have sent := World.sent_cons down
  have later : ∀ other ∈ rest ++ world.answer.toList, other ∈ world.sent := fun other member =>
    sent ▸ mem_cons_of_mem _ member
  have answered : world.sent.filterMap DaemonMessage.answers =
      (World.sent { world with down := rest }).filterMap DaemonMessage.answers := by
    rw [sent, filterMap_cons, plain]
    rfl
  have told : ∀ content ∈ world.told, content ∈ World.told { world with down := rest } := by
    intro content member
    rcases mem_append.mp member with promise | given
    · obtain ⟨other, there, same⟩ := mem_filterMap.mp promise
      rw [sent] at there
      rcases mem_cons.mp there with rfl | behind
      · have some_ := (App.promised_answers same).1
        rw [plain] at some_
        cases some_
      · exact mem_append_left _ (mem_filterMap.mpr ⟨other, behind, same⟩)
    · exact mem_append_right _ given
  refine ⟨sound.numbers, ?_, ?_, ?_, sound.answer, sound.queued, answered ▸ sound.saves,
    answered ▸ sound.below, sound.flight, answered ▸ sound.outbox, sound.given, sound.text, ?_,
    sound.asked, sound.each⟩
  · intro other member n named
    rcases mem_append.mp member with before | last
    · exact sound.numbered other (mem_append_left _ (later other before)) n named
    · exact sound.numbered other (mem_append_right _ last) n named
  · have ports := sound.ports
    rw [World.ports_cons down, noPort] at ports
    exact ports
  · exact fun n text member => sound.snapshots n text (later _ member)
  · exact World.ahead_mono told (fun _ _ _ _ same => same) sound.known

theorem Sound.slot (sound : Sound files large world) (down : world.down = message :: rest) {n : Nat}
    {text : Option Text} (port : message.port = some (n, text)) :
    (world.ahead files large [] none).slot = some (n, text.map files.fileRevision) := by
  have split := World.ports_cons down
  rw [port] at split
  rcases sound.ports with none_ | ⟨m, content, only, _, slot⟩
  · exact absurd (split.symm.trans none_) nofun
  · obtain ⟨same, _⟩ := List.cons.inj (split.symm.trans only)
    cases same
    exact slot

/-- The editor hears that its save is done, or was refused, and has nothing more in flight. -/
theorem Sound.settles (sound : Sound files large world) (down : world.down = message :: rest)
    (answers : message.answers = some id) (outbox : app.outbox = world.app.outbox)
    (next : app.nextRequestId = world.app.nextRequestId)
    (more : ∀ content ∈ world.app.seen, content ∈ app.seen)
    (given : ∀ content, world.app.promised message = some content → content ∈ app.seen)
    (flight : app.inFlight = none) (mine : world.mine = some id) :
    Sound files large { world with app, down := rest } := by
  refine sound.hears down answers outbox next more ?_ (.inr ⟨flight, mine⟩)
  intro content member
  refine mem_append_right _ ?_
  rcases mem_append.mp member with promise | before
  · obtain ⟨other, there, same⟩ := mem_filterMap.mp promise
    rw [World.sent_cons down] at there
    rcases mem_cons.mp there with rfl | behind
    · exact given content same
    · -- A second answer to the save in flight: saves are answered once.
      have once := (nodup_append.mp sound.saves).2.1
      rw [World.sent_cons down, filterMap_cons, answers] at once
      have again := (App.promised_answers same).2.trans mine
      exact absurd (mem_filterMap.mpr ⟨other, behind, again⟩) (nodup_cons.mp once).1
  · exact more content before

/-- An answer to no save in flight changes nothing that matters. -/
theorem Sound.ignores (sound : Sound files large world) (down : world.down = message :: rest)
    (answers : message.answers = some id) (outbox : app.outbox = world.app.outbox)
    (next : app.nextRequestId = world.app.nextRequestId)
    (more : ∀ content ∈ world.app.seen, content ∈ app.seen)
    (flight : app.inFlight = world.app.inFlight) (mine : world.mine ≠ some id) :
    Sound files large { world with app, down := rest } := by
  refine sound.hears down answers outbox next more ?_ (.inl flight)
  have promised : @App.promised Text Rev app = world.app.promised := by
    funext other
    cases other <;> simp only [App.promised, flight]
  intro content member
  rcases mem_append.mp member with promise | before
  · obtain ⟨other, there, same⟩ := mem_filterMap.mp promise
    rw [World.sent_cons down] at there
    rcases mem_cons.mp there with rfl | behind
    · exact absurd ((App.promised_answers same).2.symm.trans answers) mine
    · exact mem_append_left _ (mem_filterMap.mpr ⟨other, behind, promised ▸ same⟩)
  · exact mem_append_right _ (more content before)

/-- A refusal gives its text, whatever becomes of the save it is about. -/
theorem App.saveRefused_spec (app : App Text) (id : Nat) (disk : Option Text) :
    (app.saveRefused id disk).outbox = app.outbox ∧
      (app.saveRefused id disk).nextRequestId = app.nextRequestId ∧
      (∀ content ∈ app.seen, content ∈ (app.saveRefused id disk).seen) ∧
      (∀ text ∈ disk, some text ∈ (app.saveRefused id disk).seen) ∧
      ((app.saveRefused id disk).inFlight = app.inFlight ∧ app.inFlight.map Prod.fst ≠ some id ∨
        (app.saveRefused id disk).inFlight = none ∧ app.inFlight.map Prod.fst = some id) := by
  cases disk with
  | none =>
    cases flight : app.inFlight with
    | none => simp [App.saveRefused, flight]
    | some pending =>
      by_cases same : pending.1 = id
      · simp [App.saveRefused, flight, same]
      · simp [App.saveRefused, flight, same]
  | some text =>
    have more : ∀ content ∈ app.seen, content = some text ∨ content ∈ app.seen := fun _ => .inr
    cases flight : app.inFlight with
    | none => simpa [App.saveRefused, flight] using more
    | some pending =>
      by_cases same : pending.1 = id
      · simpa [App.saveRefused, flight, same] using more
      · simpa [App.saveRefused, flight, same] using more

/-- A message of the daemon reaches the editor. -/
theorem Sound.receives (sound : Sound files large world) (ok dirty : Bool)
    (down : world.down = message :: rest) : Sound files large { world with
      app := (world.app.receive files.readOnly ok dirty message).1
      down := rest
      up := world.up ++ (world.app.receive files.readOnly ok dirty message).2 } := by
  have sent := World.sent_cons down
  have first : message ∈ world.sent := sent ▸ mem_cons_self
  have idle : world.app.inFlight = none → world.app.outbox = none := by
    intro idle
    cases outbox : world.app.outbox with
    | none => rfl
    | some request => exact absurd (idle.symm.trans (sound.outbox request outbox).1) nofun
  cases message with
  | getState disk =>
    exact sound.replies down rfl rfl rfl rfl (fun _ given => given) rfl nofun
      (.inr (.inr fun _ => rfl)) (fun _ => .inl rfl) (fun _ _ same => by cases same)
      fun _ _ same => by rcases same with same | ⟨_, same⟩ <;> cases same
  | save =>
    have asked := (sound.pops down rfl rfl).asks files.readOnly
    simp only [App.receive, append_nil]
    exact asked
  | discardDeleted id =>
    refine sound.replies down rfl rfl rfl rfl (fun _ given => given) rfl (fun n same => same)
      (.inr (.inl rfl)) ?_ ?_ fun _ _ same => by rcases same with same | ⟨_, same⟩ <;> cases same
    · intro track
      simp only [Track.next]
      split
      · exact .inl rfl
      · split <;> exact .inl rfl
    · intro n revision same slot
      have numbered : DaemonMessage.port (.discardDeleted id : DaemonMessage Text Rev) =
          some (id, none) := rfl
      have port := sound.slot down numbered
      rw [slot] at port
      cases port
  | reload id text revision =>
    simp only [App.receive, App.reload]
    split
    · exact sound.reloads down rfl rfl rfl rfl
    · refine sound.replies down rfl rfl rfl rfl (fun _ given => mem_cons_of_mem _ given) rfl
        (fun n same => same) (.inr (.inl rfl)) ?_ (fun _ _ same => by cases same)
        fun _ _ same => by rcases same with same | ⟨_, same⟩ <;> cases same
      intro track
      simp only [Track.next]
      split
      · exact .inl rfl
      · split <;> exact .inl rfl
  | saved id =>
    have answer : DaemonMessage.answers (.saved id : DaemonMessage Text Rev) = some id := rfl
    simp only [App.receive, append_nil, App.saveConfirmed]
    split
    · rename_i none_
      exact sound.ignores down answer rfl rfl (fun _ given => given) rfl fun mine => by
        simp [World.mine, none_] at mine
    · rename_i pending text flight
      split
      · rename_i other
        exact sound.ignores down answer rfl rfl (fun _ given => given) rfl fun mine => by
          simp only [World.mine, flight, Option.map_some, Option.some.injEq] at mine
          exact other mine
      · rename_i same
        obtain rfl := Decidable.not_not.mp same
        refine sound.settles down answer rfl rfl (fun _ given => mem_cons_of_mem _ given) ?_ rfl
          (congrArg (Option.map Prod.fst) flight)
        intro content promise
        simp only [App.promised, flight, Option.bind_some, if_true, Option.some.injEq] at promise
        exact promise ▸ mem_cons_self
  | saveRefused id disk =>
    have answer : DaemonMessage.answers (.saveRefused id disk : DaemonMessage Text Rev) = some id :=
      rfl
    simp only [App.receive, append_nil]
    obtain ⟨outboxes, nexts, more, given, flight⟩ := App.saveRefused_spec world.app id disk
    rcases flight with ⟨same, other⟩ | ⟨none_, mine⟩
    · exact sound.ignores down answer outboxes nexts more same other
    · refine sound.settles down answer outboxes nexts more ?_ none_ mine
      intro content promise
      cases flying : world.app.inFlight with
      | none => simp [flying] at mine
      | some pending =>
        simp only [App.promised, flying, Option.bind_some, Option.ite_none_right_eq_some,
          Option.map_eq_some_iff] at promise
        obtain ⟨_, text, member, rfl⟩ := promise
        exact given text member
  | diskChanged id text =>
    have pends (track : Track Text Rev) (reply : EditorMessage Text)
        (which : reply = .applied (.disk id) ∨ (∃ mine, reply = .diskConflict id mine) ∨
          reply = .refused (.disk id)) :
        (track.next files [] none reply).slot = track.slot ∧
          ((track.next files [] none reply).pending = track.pending ∨
            (track.next files [] none reply).pending = none) := by
      rcases which with rfl | ⟨_, rfl⟩ | rfl
      all_goals
        simp only [Track.next]
        split
        · exact ⟨rfl, .inl rfl⟩
        · split
          · exact ⟨rfl, .inl rfl⟩
          · exact ⟨rfl, .inr rfl⟩
    obtain ⟨small, snapshot⟩ := sound.snapshots id text first
    have given : ∀ content ∈ world.app.seen, content ∈ text :: world.app.seen := fun _ given =>
      mem_cons_of_mem _ given
    simp only [App.receive, App.diskChanged]
    split
    · have which := fun track => pends track (.refused (.disk id)) (.inr (.inr rfl))
      exact sound.replies down rfl rfl rfl rfl given rfl (fun _ same => same)
        (.inr (.inr fun track => (which track).1)) (fun track => (which track).2)
        (fun _ _ same => by cases same)
        fun _ _ same => by rcases same with same | ⟨_, same⟩ <;> cases same
    · rename_i none_
      have bare : world.app.outbox = none :=
        idle (by rwa [Bool.not_eq_true, Option.isSome_eq_false_iff, Option.isNone_iff_eq_none] at none_)
      split
      · have which := fun track => pends track (.diskConflict id world.app.text)
          (.inr (.inl ⟨_, rfl⟩))
        refine sound.replies down rfl rfl rfl rfl given rfl (fun _ same => same)
          (.inr (.inr fun track => (which track).1)) (fun track => (which track).2)
          (fun _ _ same => by cases same) ?_
        rintro n other (same | ⟨_, same⟩) named
        · cases same
        · cases same
          obtain rfl := snapshot other named
          exact ⟨mem_cons_self, small, bare⟩
      · have which := fun track => pends track (.applied (.disk id)) (.inl rfl)
        have taken : ∀ n other, (.applied (.disk id) : EditorMessage Text) = .applied (.disk n) ∨
            (∃ mine : Text, (.applied (.disk id) : EditorMessage Text) = .diskConflict n mine) →
            (world.ahead files large [] none).pending = some (n, other) →
            other ∈ text :: world.app.seen ∧ files.Small other ∧ world.app.outbox = none := by
          rintro n other (same | ⟨_, same⟩) named
          · cases same
            obtain rfl := snapshot other named
            exact ⟨mem_cons_self, small, bare⟩
          · cases same
        cases text with
        | none =>
          exact sound.replies down rfl rfl rfl rfl given rfl (fun _ same => same)
            (.inr (.inr fun track => (which track).1)) (fun track => (which track).2)
            (fun _ _ same => by cases same)
            taken
        | some text =>
          dsimp only
          split
          · exact sound.replies down rfl rfl rfl rfl given rfl (fun _ same => same)
              (.inr (.inr fun track => (which track).1)) (fun track => (which track).2)
              (fun _ _ same => by cases same) taken
          · have which := fun track => pends track (.refused (.disk id)) (.inr (.inr rfl))
            exact sound.replies down rfl rfl rfl rfl given rfl (fun _ same => same)
              (.inr (.inr fun track => (which track).1)) (fun track => (which track).2)
              (fun _ _ same => by cases same) fun _ _ same => by
                rcases same with same | ⟨_, same⟩ <;> cases same

end ForgeNode.Saves
