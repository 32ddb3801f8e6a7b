import ForgeNode.Saves.Link

/-! No unseen overwrite: what a write of the daemon replaces has been given to the editor before it
asked for that write. -/

namespace ForgeNode.Saves

open List

variable {Text Rev : Type}

/-- A content that is not too large, if there is one. -/
def Files.Small (files : Files Text Rev) (content : Option Text) : Prop :=
  ∀ text, content = some text → files.tooLarge text = false

theorem Files.small_none (files : Files Text Rev) : files.Small none := nofun

theorem Files.small_some (files : Files Text Rev) {text : Text}
    (small : files.tooLarge text = false) : files.Small (some text) := by
  rintro _ ⟨⟩
  exact small

/-- Is a revision that of one of these contents? -/
def Files.Covers (files : Files Text Rev) (seen : List (Option Text)) (revision : Rev) : Prop :=
  ∃ content ∈ seen, files.Small content ∧ files.revision content = revision

/-- It may also be that of a binary, or the empty one because a file was too large. -/
def Files.Known (files : Files Text Rev) (large : Prop) (seen : List (Option Text))
    (revision : Rev) : Prop :=
  files.Covers seen revision ∨ large ∧ revision = files.absent ∨
    ∃ text, files.binary text = true ∧ revision = files.revisionOf text

/-- What can be said of the daemon's loop once it has handled some of the messages on their way:
whether its revision is one the editor knows, its reload slot and its snapshot. -/
structure Track (Text Rev : Type) where
  known : Prop
  slot : Option (Nat × Option Rev)
  pending : Option (Nat × Option Text)

/-- How a message changes that. The save in flight counts as known: its answer comes before the
next. -/
def Track.next (files : Files Text Rev) (seen : List (Option Text)) (mine : Option Nat)
    (track : Track Text Rev) : EditorMessage Text → Track Text Rev
  | .state _ => track
  | .saveRequest request => { track with known := mine = some request.id }
  | .applied (.port id) =>
    match track.slot with
    | none => track
    | some (pending, revision) =>
      if pending ≠ id then track
      else ⟨match revision with | some revision => files.Covers seen revision | none => track.known, none,
        track.pending⟩
  | .refused (.port id) =>
    match track.slot with
    | none => track
    | some (pending, _) => if pending ≠ id then track else { track with slot := none }
  | .applied (.disk id) | .diskConflict id _ =>
    match track.pending with
    | none => track
    | some (pending, text) =>
      if pending ≠ id then track else ⟨files.Covers seen (files.revision text), track.slot, none⟩
  | .refused (.disk id) =>
    match track.pending with
    | none => track
    | some (pending, _) => if pending ≠ id then track else { track with pending := none }

def Track.after (files : Files Text Rev) (seen : List (Option Text)) (mine : Option Nat)
    (track : Track Text Rev) (up : List (EditorMessage Text)) : Track Text Rev :=
  up.foldl (Track.next files seen mine) track

def EditorMessage.saveId : EditorMessage Text → Option Nat
  | .saveRequest request => some request.id
  | _ => none

/-- The number that a message has out of the daemon's counter. -/
def EditorMessage.number : EditorMessage Text → Option Nat
  | .applied (.disk n) | .applied (.port n) | .refused (.disk n) | .refused
      (.port n) | .diskConflict n _ =>
    some n
  | _ => none

section Track

variable {files : Files Text Rev} {seen seen' : List (Option Text)} {mine mine' : Option Nat}
  {track : Track Text Rev}

theorem Track.after_cons (message : EditorMessage Text) (rest : List (EditorMessage Text)) :
    track.after files seen mine (message :: rest) = (track.next files seen mine message).after files
    seen mine rest :=
  rfl

theorem Track.after_append (front back : List (EditorMessage Text)) :
    track.after files seen mine (front ++ back) = (track.after files seen mine front).after files
    seen mine back :=
  foldl_append

theorem Files.Covers.mono {revision : Rev} (more : ∀ content ∈ seen, content ∈ seen')
    (covers : files.Covers seen revision) : files.Covers seen' revision := by
  obtain ⟨content, member, same⟩ := covers
  exact ⟨content, more content member, same⟩

theorem Files.Known.mono {large : Prop} {revision : Rev} (more : ∀ content ∈ seen, content ∈ seen')
    (known : files.Known large seen revision) : files.Known large seen' revision :=
  known.imp_left (Files.Covers.mono more)

/-- More is known where more has been given. -/
theorem Track.next_mono {other : Track Text Rev} {message : EditorMessage Text}
    (more : ∀ content ∈ seen, content ∈ seen')
    (same : ∀ id, message.saveId = some id → mine = some id → mine' = some id)
    (slot : track.slot = other.slot) (pending : track.pending = other.pending)
    (known : track.known → other.known) :
    let one := track.next files seen mine message
    let two := other.next files seen' mine' message
    one.slot = two.slot ∧ one.pending = two.pending ∧ (one.known → two.known) := by
  obtain ⟨p, s, d⟩ := track
  obtain ⟨p', s', d'⟩ := other
  cases slot
  cases pending
  cases message with
  | state disk => exact ⟨rfl, rfl, known⟩
  | saveRequest request => exact ⟨rfl, rfl, same request.id rfl⟩
  | diskConflict id text =>
    cases d with
    | none => exact ⟨rfl, rfl, known⟩
    | some snapshot =>
      simp only [Track.next]
      split
      · exact ⟨rfl, rfl, known⟩
      · exact ⟨rfl, rfl, Files.Covers.mono more⟩
  | applied id =>
    cases id with
    | disk id =>
      cases d with
      | none => exact ⟨rfl, rfl, known⟩
      | some snapshot =>
        simp only [Track.next]
        split
        · exact ⟨rfl, rfl, known⟩
        · exact ⟨rfl, rfl, Files.Covers.mono more⟩
    | port id =>
      cases s with
      | none => exact ⟨rfl, rfl, known⟩
      | some pair =>
        obtain ⟨n, revision⟩ := pair
        simp only [Track.next]
        split
        · exact ⟨rfl, rfl, known⟩
        · cases revision with
          | none => exact ⟨rfl, rfl, known⟩
          | some revision => exact ⟨rfl, rfl, Files.Covers.mono more⟩
  | refused id =>
    cases id with
    | disk id =>
      cases d with
      | none => exact ⟨rfl, rfl, known⟩
      | some snapshot =>
        simp only [Track.next]
        split <;> exact ⟨rfl, rfl, known⟩
    | port id =>
      cases s with
      | none => exact ⟨rfl, rfl, known⟩
      | some pair =>
        simp only [Track.next]
        split <;> exact ⟨rfl, rfl, known⟩

theorem Track.after_mono {other : Track Text Rev} {up : List (EditorMessage Text)}
    (more : ∀ content ∈ seen, content ∈ seen')
    (same : ∀ message ∈ up, ∀ id, message.saveId = some id → mine = some id → mine' = some id)
    (slot : track.slot = other.slot) (pending : track.pending = other.pending)
    (known : track.known → other.known) :
    (track.after files seen mine up).slot = (other.after files seen' mine' up).slot ∧
      (track.after files seen mine up).pending = (other.after files seen' mine' up).pending ∧
      ((track.after files seen mine up).known → (other.after files seen' mine' up).known) := by
  induction up generalizing track other with
  | nil => exact ⟨slot, pending, known⟩
  | cons message rest ih =>
    obtain ⟨slot, pending, known⟩ := Track.next_mono more (same message mem_cons_self) slot pending
      known
    exact ih (fun other member => same other (mem_cons_of_mem _ member)) slot pending known

/-- A snapshot under a number that no message has is not noticed by them. -/
theorem Track.after_pending {n : Nat} {text : Option Text} {up : List (EditorMessage Text)}
    {known : Prop} {slot : Option (Nat × Option Rev)}
    (fresh : ∀ message ∈ up, message.number ≠ some n) :
    let one := (Track.mk known slot (some (n, text))).after files seen mine up
    let two := (Track.mk known slot none : Track Text Rev).after files seen mine up
    one.slot = two.slot ∧ one.pending = some (n, text) ∧ two.pending = none ∧
    one.known = two.known := by
  induction up generalizing known slot with
  | nil => exact ⟨rfl, rfl, rfl, rfl⟩
  | cons message rest ih =>
    have later := fun other member => fresh other (mem_cons_of_mem _ member)
    have here := fresh message mem_cons_self
    simp only [Track.after_cons]
    cases message with
    | state disk => exact ih later
    | saveRequest request => exact ih later
    | diskConflict id text =>
      have differs : n ≠ id := fun same => here (by rw [same]; rfl)
      simp only [Track.next, if_pos differs]
      exact ih later
    | applied id =>
      cases id with
      | disk id =>
        have differs : n ≠ id := fun same => here (by rw [same]; rfl)
        simp only [Track.next, if_pos differs]
        exact ih later
      | port id =>
        cases slot with
        | none => exact ih later
        | some pair =>
          simp only [Track.next]
          split <;> exact ih later
    | refused id =>
      cases id with
      | disk id =>
        have differs : n ≠ id := fun same => here (by rw [same]; rfl)
        simp only [Track.next, if_pos differs]
        exact ih later
      | port id =>
        cases slot with
        | none => exact ih later
        | some pair =>
          simp only [Track.next]
          split <;> exact ih later

/-- So is a reload under such a number. -/
theorem Track.after_slot {n : Nat} {revision : Option Rev} {up : List (EditorMessage Text)}
    {known : Prop} {pending : Option (Nat × Option Text)}
    (fresh : ∀ message ∈ up, message.number ≠ some n) :
    let one := (Track.mk known (some (n, revision)) pending).after files seen mine up
    let two := (Track.mk known none pending : Track Text Rev).after files seen mine up
    one.slot = some (n, revision) ∧ two.slot = none ∧ one.pending = two.pending ∧
    one.known = two.known := by
  induction up generalizing known pending with
  | nil => exact ⟨rfl, rfl, rfl, rfl⟩
  | cons message rest ih =>
    have later := fun other member => fresh other (mem_cons_of_mem _ member)
    have here := fresh message mem_cons_self
    simp only [Track.after_cons]
    cases message with
    | state disk => exact ih later
    | saveRequest request => exact ih later
    | diskConflict id text =>
      cases pending with
      | none => exact ih later
      | some snapshot =>
        simp only [Track.next]
        split <;> exact ih later
    | applied id =>
      cases id with
      | port id =>
        have differs : n ≠ id := fun same => here (by rw [same]; rfl)
        simp only [Track.next, if_pos differs]
        exact ih later
      | disk id =>
        cases pending with
        | none => exact ih later
        | some snapshot =>
          simp only [Track.next]
          split <;> exact ih later
    | refused id =>
      cases id with
      | port id =>
        have differs : n ≠ id := fun same => here (by rw [same]; rfl)
        simp only [Track.next, if_pos differs]
        exact ih later
      | disk id =>
        cases pending with
        | none => exact ih later
        | some snapshot =>
          simp only [Track.next]
          split <;> exact ih later

end Track

/-- The number of a message out of the daemon's counter. -/
def DaemonMessage.number : DaemonMessage Text Rev → Option Nat
  | .reload n _ _ | .discardDeleted n | .diskChanged n _ => some n
  | _ => none

/-- A reload, or the discard of a deleted file. -/
def DaemonMessage.port : DaemonMessage Text Rev → Option (Nat × Option Text)
  | .reload n text _ => some (n, some text)
  | .discardDeleted n => some (n, none)
  | _ => none

/-- The save that a message answers. -/
def DaemonMessage.answers : DaemonMessage Text Rev → Option Nat
  | .saved id | .saveRefused id _ => some id
  | _ => none

/-- Does only the loop send it? -/
def DaemonMessage.ofLoop : DaemonMessage Text Rev → Bool
  | .saved _ | .saveRefused .. | .diskChanged .. => true
  | _ => false

/-- The content that an answer to the save in flight is going to give. -/
def App.promised (app : App Text) : DaemonMessage Text Rev → Option (Option Text)
  | .saved id =>
    app.inFlight.bind fun pending => if pending.1 = id then some (some pending.2) else none
  | .saveRefused id disk =>
    app.inFlight.bind fun pending => if pending.1 = id then disk.map some else none
  | _ => none

namespace World

def track (files : Files Text Rev) (large : Prop) (seen : List (Option Text))
    (world : World Text Rev) : Track Text Rev :=
  ⟨files.Known large seen world.revision, world.slot, world.pending⟩

/-- The loop once it has handled all messages on their way. -/
def ahead (files : Files Text Rev) (large : Prop) (seen : List (Option Text)) (mine : Option Nat)
    (world : World Text Rev) : Track Text Rev :=
  (world.track files large seen).after files seen mine world.up

/-- What the loop has sent, or is about to. -/
def sent (world : World Text Rev) : List (DaemonMessage Text Rev) :=
  world.down ++ world.answer.toList

/-- What the command thread has still to send. -/
def queued (world : World Text Rev) : List (DaemonMessage Text Rev) :=
  (world.forwarding.map Prod.fst).toList ++ world.commands

def mine (world : World Text Rev) : Option Nat := world.app.inFlight.map Prod.fst

/-- The contents that the editor has been given, or is given by the answer to its save in flight. -/
def told (world : World Text Rev) : List (Option Text) :=
  world.sent.filterMap world.app.promised ++ world.app.seen

/-- The reloads and discards on their way to the editor. -/
def ports (world : World Text Rev) : List (Nat × Option Text) :=
  (world.down ++ world.queued).filterMap DaemonMessage.port

end World

/-- What holds at every moment, where `large` tells whether the revision may be that of a file too
large. -/
structure Sound (files : Files Text Rev) (large : Prop) (world : World Text Rev) : Prop where
  numbers : ∀ message ∈ world.up, ∀ n, message.number = some n → n < world.nextId
  numbered : ∀ message ∈ world.sent ++ world.queued, ∀ n, message.number = some n → n < world.nextId
  ports : world.ports = [] ∨ ∃ n text, world.ports = [(n, text)] ∧ files.Small text ∧
    (world.ahead files large [] none).slot = some (n, text.map files.fileRevision)
  snapshots : ∀ n text, .diskChanged n text ∈ world.sent → files.Small text ∧
    ∀ other, (world.ahead files large [] none).pending = some (n, other) → other = text
  answer : ∀ message ∈ world.answer, message.ofLoop = true
  queued : ∀ message ∈ world.queued, message.ofLoop = false
  saves : (world.up.filterMap EditorMessage.saveId ++ world.sent.filterMap
    DaemonMessage.answers).Nodup
  below : ∀ id ∈ world.up.filterMap EditorMessage.saveId ++ world.sent.filterMap
    DaemonMessage.answers, id < world.app.nextRequestId
  flight : ∀ id text, world.app.inFlight = some (id, text) → id < world.app.nextRequestId
  outbox : ∀ request, world.app.outbox = some request →
    world.app.inFlight = some (request.id, request.text) ∧
      request.id ∉ world.up.filterMap EditorMessage.saveId ++ world.sent.filterMap
        DaemonMessage.answers
  given : ∀ request, .saveRequest request ∈ world.up ∨ world.app.outbox = some request →
    ∀ content ∈ request.seen, content ∈ world.app.seen
  text : ∀ request text, .saveRequest request ∈ world.up →
    world.app.inFlight = some (request.id, text) → text = request.text
  known : (world.ahead files large world.told world.mine).known
  asked : ∀ request, world.app.outbox = some request →
    (world.ahead files large request.seen none).known
  each : ∀ front request, front ++ [.saveRequest request] <+: world.up →
    ((world.track files large request.seen).after files request.seen none front).known

section Track

variable {files : Files Text Rev} {seen seen' : List (Option Text)} {mine mine' : Option Nat}

theorem Track.after_shape {track other : Track Text Rev} (slot : track.slot = other.slot)
    (pending : track.pending = other.pending) (up : List (EditorMessage Text)) :
    (track.after files seen mine up).slot = (other.after files seen' mine' up).slot ∧
      (track.after files seen mine up).pending = (other.after files seen' mine' up).pending := by
  have bottom (one : Track Text Rev) (seen : List (Option Text)) (mine : Option Nat) :=
    @Track.after_mono Text Rev files [] seen none mine ⟨False, one.slot, one.pending⟩ one up nofun
      (fun _ _ _ _ => nofun) rfl rfl nofun
  have left := bottom track seen mine
  have right := bottom other seen' mine'
  rw [slot, pending] at left
  exact ⟨left.1.symm.trans right.1, left.2.1.symm.trans right.2.1⟩

/-- A message that is no save leaves known what was, or makes known what the editor has been
given. -/
theorem Track.next_known {track : Track Text Rev} {message : EditorMessage Text}
    (known : track.known) (save : message.saveId = none)
    (port : ∀ n revision, message = .applied (.port n) → track.slot = some (n, some revision) →
      files.Covers seen revision)
    (disk : ∀ n text, message = .applied (.disk n) ∨ (∃ mine, message = .diskConflict n mine) →
      track.pending = some (n, text) → files.Covers seen (files.revision text)) :
    (track.next files seen mine message).known := by
  obtain ⟨p, slot, pending⟩ := track
  cases message with
  | state disk => exact known
  | saveRequest request => cases save
  | diskConflict id text =>
    cases pending with
    | none => exact known
    | some snapshot =>
      simp only [Track.next]
      split
      · exact known
      · rename_i same
        obtain rfl := Decidable.not_not.mp same
        exact disk _ _ (.inr ⟨text, rfl⟩) rfl
  | applied id =>
    cases id with
    | disk id =>
      cases pending with
      | none => exact known
      | some snapshot =>
        simp only [Track.next]
        split
        · exact known
        · rename_i same
          obtain rfl := Decidable.not_not.mp same
          exact disk _ _ (.inl rfl) rfl
    | port id =>
      cases slot with
      | none => exact known
      | some pair =>
        obtain ⟨n, revision⟩ := pair
        simp only [Track.next]
        split
        · exact known
        · rename_i same
          obtain rfl := Decidable.not_not.mp same
          cases revision with
          | none => exact known
          | some revision => exact port _ _ rfl rfl
  | refused id =>
    cases id with
    | disk id =>
      cases pending with
      | none => exact known
      | some snapshot =>
        simp only [Track.next]
        split <;> exact known
    | port id =>
      cases slot with
      | none => exact known
      | some pair =>
        simp only [Track.next]
        split <;> exact known

end Track

end ForgeNode.Saves
