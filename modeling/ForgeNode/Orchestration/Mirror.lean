import ForgeNode.Lib.Overwrite
import ForgeNode.Orchestration.Coherence

/-! What a statement writes of the books that are stored, and what a section still owes them of what
it changed in memory. -/

namespace ForgeNode.Orchestration

open Store

open Section (Meets Preserves)

/-- What a write of a task leaves in its entry. -/
def Task.stamp (task : Task) (entry : TaskEntry) : TaskEntry :=
  ⟨entry.run, some task.status, task.attemptsUsed⟩

def Attempt.stamp (attempt : Attempt) (entry : AttemptEntry) : AttemptEntry :=
  ⟨entry.task, entry.n, some attempt.phase⟩

theorem Task.stamp_again (task earlier : Task) (entry : TaskEntry) :
    task.stamp (earlier.stamp entry) = task.stamp entry :=
  rfl

theorem Attempt.stamp_again (attempt earlier : Attempt) (entry : AttemptEntry) :
    attempt.stamp (earlier.stamp entry) = attempt.stamp entry :=
  rfl

namespace Books

def writeTasks (tasks : List Task) (books : Books) : Books :=
  { books with tasks := overwriteEach Task.id Task.stamp tasks books.tasks }

def writeAttempts (attempts : List Attempt) (books : Books) : Books :=
  { books with attempts := overwriteEach Attempt.id Attempt.stamp attempts books.attempts }

variable {books : Books}

theorem writeTasks_cons (task : Task) (rest : List Task) :
    books.writeTasks (task :: rest) = (books.writeTasks [task]).writeTasks rest := rfl

/-- A task written before it is among those written has left nothing. -/
theorem writeTasks_again {task : Task} {tasks : List Task}
    (again : ∃ other ∈ tasks, other.id = task.id) (one : ∀ first ∈ tasks, ∀ second ∈ tasks,
      first.id = second.id → first = second) :
    (books.writeTasks [task]).writeTasks tasks = books.writeTasks tasks := by
  unfold writeTasks
  congr 1
  funext id
  by_cases hit : ∃ other ∈ tasks, other.id = id
  · obtain ⟨last, member, named⟩ := hit
    have only : ∀ item ∈ tasks, item.id = id → item.stamp = last.stamp := fun item there same =>
      congrArg Task.stamp (one item there last member (same.trans named.symm))
    rw [overwriteEach_hit Task.stamp_again only ⟨last, member, named⟩,
      overwriteEach_hit Task.stamp_again only ⟨last, member, named⟩]
    change ((overwrite task.id task.stamp books.tasks) id).map last.stamp = _
    unfold overwrite
    split
    · rw [Option.map_map]
      rfl
    · rfl
  · have missed : ∀ item ∈ tasks, item.id ≠ id := fun item member same => hit ⟨item, member, same⟩
    rw [overwriteEach_missed missed, overwriteEach_missed missed]
    change overwrite task.id task.stamp books.tasks id = _
    unfold overwrite
    obtain ⟨other, member, named⟩ := again
    rw [if_neg fun same => missed other member (named.trans same.symm)]

end Books

section Memory

variable {ledger : Ledger}

theorem setTask_books (ledger : Ledger) {id : TaskId} (update : Task → Task)
    (keeps : ∀ task, (update task).id = task.id) {task : Task}
    (found : ledger.tasks.get? id = some task) (run : (update task).runId = task.runId) :
    (ledger.setTask id update keeps).books = ledger.books.writeTasks [update task] := by
  unfold Ledger.setTask Ledger.books Books.writeTasks
  congr 1
  rw [← key_of_get? found, ← keeps task]
  refine modify_overwrite keeps fun row member named => ?_
  rw [eq_of_key member (mem_of_get? found) (named.trans (keeps task))]
  simp only [Task.entry, Task.stamp, run]

theorem setAttempt_books {id : AttemptId} (update : Attempt → Attempt)
    (keeps : ∀ attempt, (update attempt).id = attempt.id) {attempt : Attempt}
    (found : ledger.attempts.get? id = some attempt)
    (columns : (update attempt).taskId = attempt.taskId ∧ (update attempt).n = attempt.n) :
    (ledger.setAttempt id update keeps).books = ledger.books.writeAttempts [update attempt] := by
  unfold Ledger.setAttempt Ledger.books Books.writeAttempts
  congr 1
  rw [← key_of_get? found, ← keeps attempt]
  refine modify_overwrite keeps fun row member named => ?_
  rw [eq_of_key member (mem_of_get? found) (named.trans (keeps attempt))]
  simp only [Attempt.entry, Attempt.stamp, columns]

theorem putTask_books {task old : Task} (found : ledger.tasks.get? task.id = some old)
    (run : task.runId = old.runId) : Ledger.books { ledger with tasks := ledger.tasks.put task } =
      ledger.books.writeTasks [task] := by
  unfold Ledger.books Books.writeTasks
  congr 1
  exact put_overwrites found (by simp only [Task.entry, Task.stamp, run])

end Memory

section Statements

/-- A statement that succeeds does this to the books of the tables; one that fails is counted. -/
def Writes (statement : Statement) (write : Books → Books) : Prop :=
  ∀ db, statement.Meets db fun result after =>
    match result with
    | .ok _ => after.failures = db.failures ∧ after.tables.books = write db.tables.books
    | .error _ => db.failures < after.failures

theorem writes_execute {statement : Tables → Except DbError Tables} {write : Books → Books}
    (does : ∀ tables after, statement tables = .ok after → after.books = write tables.books) :
    Writes (execute statement) write := by
  intro db
  refine (execute_meets statement db).mono fun result after meets => ?_
  cases result with
  | ok done => exact ⟨meets.2.1, does _ _ meets.2.2.2⟩
  | error error =>
    have count := meets.2.1
    exact (by omega : db.failures < after.failures)

theorem writes_of_keeps {statement : Statement} (keeps : Keeps Tables.books statement)
    (counted : Counted statement) : Writes statement id := by
  intro db
  refine ((keeps db).both (counted db)).mono fun result after both => ?_
  cases result with
  | ok done => exact ⟨both.2, both.1⟩
  | error error => exact both.2

theorem Writes.then {first : Statement} {next : PUnit → Statement} {write : Books → Books}
    (writes : Writes first write) (rest : ∀ done, Writes (next done) id) :
    Writes (first >>= next) write := by
  intro db
  refine (writes db).bind (fun _ _ less => less) fun done middle written => ?_
  refine (rest done middle).mono fun result after later => ?_
  cases result with
  | ok done => exact ⟨later.1.trans written.1, later.2.trans written.2⟩
  | error error =>
    have same : middle.failures = db.failures := written.1
    exact same ▸ later

theorem writes_insertDeps (task : TaskId) (afters : List TaskId) :
    Writes (Section.each (fun after => execute (insertDep task after)) afters) id :=
  writes_of_keeps (keeps_each fun after => keeps_insertDep (fun _ _ => rfl) task after)
    (counted_each fun _ => counted_execute _)

theorem taskRow_entry {task : Task} {row : TaskRow} (encoded : taskValues task = .ok row) :
    row.entry = task.entry := by
  simp only [taskValues, bind_eq_ok, pure_eq_ok] at encoded
  obtain ⟨mode, _, status, tag, rfl⟩ := encoded
  simp only [TaskRow.entry, Task.entry, taskStatus_roundTrip tag]
  rfl

theorem attemptRow_entry {attempt : Attempt} {row : AttemptRow}
    (encoded : attemptValues attempt = .ok row) : row.entry = attempt.entry := by
  simp only [attemptValues, bind_eq_ok, pure_eq_ok] at encoded
  obtain ⟨phase, tag, _, _, _, _, rfl⟩ := encoded
  simp only [AttemptRow.entry, Attempt.entry, attemptPhase_roundTrip tag]
  rfl

theorem writes_updateTask (task : Task) : Writes (updateTask task) (Books.writeTasks [task]) := by
  refine .then (writes_execute fun tables after updated => ?_) fun _ =>
    .then (writes_execute fun tables after deleted => ?_) fun _ =>
    writes_insertDeps task.id task.after
  · obtain ⟨change, keeps, rfl, changed⟩ := updateTaskRow_ok updated
    unfold Tables.books Books.writeTasks
    congr 1
    refine modify_overwrite keeps fun row _ _ => ?_
    obtain ⟨values, encoded, written⟩ := changed row
    have entry := taskRow_entry encoded
    simp only [TaskRow.entry, Task.entry, TaskEntry.mk.injEq] at entry
    rw [written]
    simp only [TaskRow.entry, Task.stamp, entry]
  · rw [← Except.ok.inj deleted]
    rfl

theorem writes_updateAttempt (attempt : Attempt) :
    Writes (updateAttempt attempt) (Books.writeAttempts [attempt]) := by
  refine writes_execute fun tables after updated => ?_
  obtain ⟨change, keeps, rfl, changed⟩ := updateAttemptRow_ok updated
  unfold Tables.books Books.writeAttempts
  congr 1
  refine modify_overwrite keeps fun row _ _ => ?_
  obtain ⟨values, encoded, written⟩ := changed row
  have entry := attemptRow_entry encoded
  simp only [AttemptRow.entry, Attempt.entry, AttemptEntry.mk.injEq] at entry
  rw [written]
  simp only [AttemptRow.entry, Attempt.stamp, entry]

/-- A row that is new. -/
def added {ε : Type} (id : Nat) (entry : ε) (entries : Nat → Option ε) (other : Nat) : Option ε :=
  if id = other then some entry else entries other

def Books.addRun (id : RunId) (project : ProjectId) (books : Books) : Books :=
  { books with runs := added id project books.runs }

def Books.addTask (task : Task) (books : Books) : Books :=
  { books with tasks := added task.id task.entry books.tasks }

def Books.addAttempt (attempt : Attempt) (books : Books) : Books :=
  { books with attempts := added attempt.id attempt.entry books.attempts }

theorem put_added {α ε : Type} {key : α → Nat} (entry : α → ε) {store : Store key} (row : α) :
    (fun other => ((store.put row).get? other).map entry) =
      added (key row) (entry row) fun other => (store.get? other).map entry := by
  funext other
  unfold added
  rw [get?_put]
  split <;> rfl

theorem writes_insertRun (run : Run) :
    Writes (insertRun run) (Books.addRun run.id run.projectId) := by
  refine writes_execute fun tables after inserted => ?_
  simp only [insertRunRow, runValues, bind_eq_ok, pure_eq_ok] at inserted
  obtain ⟨row, ⟨status, _, rfl⟩, _, _, _, _, rfl⟩ := inserted
  unfold Tables.books Books.addRun
  congr 1
  exact put_added _ _

theorem writes_insertTask (task : Task) : Writes (insertTask task) (Books.addTask task) := by
  refine .then (writes_execute fun tables after inserted => ?_) fun _ =>
    writes_insertDeps task.id task.after
  simp only [insertTaskRow, bind_eq_ok, pure_eq_ok] at inserted
  obtain ⟨row, encoded, _, _, _, _, rfl⟩ := inserted
  have entry := taskRow_entry encoded
  have named : row.id = task.id := by
    simp only [taskValues, bind_eq_ok, pure_eq_ok] at encoded
    obtain ⟨_, _, _, _, rfl⟩ := encoded
    rfl
  unfold Tables.books Books.addTask
  congr 1
  rw [← named, ← entry]
  exact put_added _ _

theorem writes_insertAttempt (attempt : Attempt) :
    Writes (insertAttempt attempt) (Books.addAttempt attempt) := by
  refine writes_execute fun tables after inserted => ?_
  simp only [insertAttemptRow, bind_eq_ok, pure_eq_ok] at inserted
  obtain ⟨row, encoded, _, _, _, _, rfl⟩ := inserted
  have entry := attemptRow_entry encoded
  have named : row.id = attempt.id := by
    simp only [attemptValues, bind_eq_ok, pure_eq_ok] at encoded
    obtain ⟨_, _, _, _, _, _, rfl⟩ := encoded
    rfl
  unfold Tables.books Books.addAttempt
  congr 1
  rw [← named, ← entry]
  exact put_added _ _

/-- Without a project its runs, their tasks and their attempts. -/
def Books.dropProject (project : ProjectId) (books : Books) : Books where
  runs id := (books.runs id).filter (· != project)
  tasks id := (books.tasks id).filter fun task => books.runs task.run != some project
  attempts id := (books.attempts id).filter fun attempt =>
    !(books.tasks attempt.task).any fun task => books.runs task.run == some project

theorem listed_iff {α : Type} {key : α → Nat} {store : Store key} {select : α → Bool}
    {entry : α → Bool} (id : Nat) (same : ∀ row ∈ store, select row = entry row) :
    ((store.rows.filter select).map key).contains id = (store.get? id).any entry := by
  rw [Bool.eq_iff_iff, List.contains_iff_mem, List.mem_map, Option.any_eq_true]
  constructor
  · rintro ⟨row, listed, named⟩
    obtain ⟨member, chosen⟩ := List.mem_filter.mp listed
    exact ⟨row, get?_eq_some.mpr ⟨member, named⟩, same row member ▸ chosen⟩
  · rintro ⟨row, found, chosen⟩
    obtain ⟨member, named⟩ := get?_eq_some.mp found
    exact ⟨row, List.mem_filter.mpr ⟨member, (same row member).trans chosen⟩, named⟩

theorem forgetProject_books (ledger : Ledger) (project : ProjectId) :
    (ledger.forgetProject project).books = ledger.books.dropProject project := by
  have ofRun (id : RunId) : ((ledger.runs.rows.filter fun run => run.projectId == project).map
      (·.id)).contains id = (((ledger.runs.get? id).map (·.projectId)) == some project) := by
    rw [listed_iff id fun _ _ => rfl]
    cases ledger.runs.get? id <;> rfl
  have ofTask (id : TaskId) : ((ledger.tasks.rows.filter fun task => ((ledger.runs.rows.filter
      fun run => run.projectId == project).map (·.id)).contains task.runId).map (·.id)).contains id =
      ((ledger.tasks.get? id).map Task.entry).any fun task => (ledger.runs.get? task.run).map
      (·.projectId) == some project := by
    rw [listed_iff id fun task _ => ofRun task.runId]
    cases ledger.tasks.get? id <;> rfl
  unfold Ledger.forgetProject Ledger.books Books.dropProject
  congr 1
  · exact retain_filters fun _ _ => rfl
  · refine retain_filters fun task member => ?_
    have known := ofTask task.id
    rw [get?_of_mem member] at known
    exact congrArg not known
  · refine retain_filters fun attempt _ => ?_
    exact congrArg not (ofTask attempt.taskId)

theorem writes_deleteProjectRow (project : ProjectId) :
    Writes (execute (deleteProjectRow project)) (Books.dropProject project) := by
  refine writes_execute fun tables after deleted => ?_
  simp only [deleteProjectRow, bind_eq_ok, pure_eq_ok] at deleted
  obtain ⟨_, _, rfl⟩ := deleted
  have ofRun (id : RunId) : ((tables.runs.rows.filter fun row => row.projectId == project).map
      (·.id)).contains id = (((tables.runs.get? id).map (·.projectId)) == some project) := by
    rw [listed_iff id fun _ _ => rfl]
    cases tables.runs.get? id <;> rfl
  have ofTask (id : TaskId) : ((tables.tasks.rows.filter fun row => ((tables.runs.rows.filter
      fun row => row.projectId == project).map (·.id)).contains row.runId).map (·.id)).contains id =
      ((tables.tasks.get? id).map TaskRow.entry).any fun task => (tables.runs.get? task.run).map
      (·.projectId) == some project := by
    rw [listed_iff id fun row _ => ofRun row.runId]
    cases tables.tasks.get? id <;> rfl
  unfold Tables.books Books.dropProject
  congr 1
  · rw [map_unseen _ _ _ fun row => by split <;> rfl]
    exact retain_filters fun _ _ => rfl
  · refine retain_filters fun row _ => ?_
    exact congrArg not (ofRun row.runId)
  · refine retain_filters fun row _ => ?_
    exact congrArg not (ofTask row.taskId)

theorem writes_deleteSessionRow (session : SessionId) :
    Writes (execute (deleteSessionRow session)) id := by
  refine writes_execute fun tables after deleted => ?_
  rw [← Except.ok.inj deleted]
  unfold Tables.books
  rw [id, map_unseen _ AttemptRow.entry _ fun row => by split <;> rfl]
  rw [map_unseen _ RunRow.projectId _ fun row => by split <;> rfl]

end Statements

/-- While no write has failed since `count` had, what is stored is, after what is owed to it, what
is in memory. -/
def Owes (count : Nat) (owed : Books → Books) (inner : Inner) : Prop :=
  count ≤ inner.db.failures ∧ (inner.db.failures = count → owed inner.db.tables.books =
    inner.ledger.books)

abbrev Mirrored (count : Nat) : Inner → Prop := Owes count id

section Rules

variable {α β : Type} {count : Nat} {owed write : Books → Books} {inner : Inner}
  {statement : Statement}

theorem owes_broken {failures : Nat} (least : count ≤ failures)
    (less : failures < inner.db.failures) : Owes count owed inner :=
  have more := Nat.lt_of_le_of_lt least less
  ⟨Nat.le_of_lt more, fun same => absurd same (Nat.ne_of_gt more)⟩

theorem Owes.failed (owes : Owes count owed inner) {other : Books → Books} {db : Database}
    (less : inner.db.failures < db.failures) : Owes count other { inner with db } :=
  owes_broken owes.1 less

theorem Owes.written (owed : Books → Books) (owes : Owes count (fun books => owed (write books))
      inner) {db : Database}
    (wrote : db.failures = inner.db.failures ∧ db.tables.books = write inner.db.tables.books) :
    Owes count owed { inner with db } :=
  ⟨owes.1.trans_eq wrote.1.symm, fun same =>
    (congrArg owed wrote.2).trans (owes.2 (wrote.1.symm.trans same))⟩

theorem Owes.then_persist (writes : Writes statement write)
    (owes : Owes count (fun books => owed (write books)) inner) {next : PUnit → Handler β}
    {goal : Except ProtocolError β → Inner → Prop}
    (failed : ∀ error db, Mirrored count { inner with db } → goal (.error error) { inner with db })
    (rest : ∀ db, Owes count owed { inner with db } → (next ⟨⟩).Meets { inner with db } goal) :
    (persist statement >>= next).Meets inner goal :=
  Handler.persist_bind_of (writes inner.db) (fun _ _ less => failed _ _ (owes.failed less))
  fun _ wrote =>
    rest _ (.written owed owes wrote)

theorem Owes.persist_bind (owed : Books → Books) (writes : Writes statement write)
    (owes : Owes count (fun books => owed (write books)) inner) {next : PUnit → Handler β}
    (rest : ∀ db, Owes count owed { inner with db } → (next ⟨⟩).Meets { inner with db }
      fun _ after => Mirrored count after) :
    (persist statement >>= next).Meets inner fun _ after => Mirrored count after :=
  owes.then_persist writes (fun _ _ kept => kept) rest

theorem Owes.persist (owed : Books → Books) (writes : Writes statement write)
    (owes : Owes count (fun books => owed (write books)) inner) :
    (persist statement).Meets inner fun result after => match result with
      | .ok _ => Owes count owed after
      | .error _ => Mirrored count after :=
  Handler.persist_meets (writes inner.db) (fun _ _ less => owes.failed less) fun _ wrote =>
  .written owed owes wrote

theorem Owes.ignored (owed : Books → Books) (writes : Writes statement write)
    (owes : Owes count (fun books => owed (write books)) inner) :
    (Section.ignore (Orchestration.persist statement)).Meets inner fun result after =>
      result = .ok ⟨⟩ ∧ Owes count owed after :=
  Meets.ignore (Handler.persist_meets (writes inner.db) (fun _ _ less => ⟨rfl, owes.failed less⟩)
  fun _ wrote =>
    ⟨rfl, .written owed owes wrote⟩)

theorem Owes.remember (owes : Owes count owed inner) {ledger : Ledger}
    (books : ledger.books = write inner.ledger.books) : Owes count (fun books => write (owed books))
    { inner with ledger } :=
  ⟨owes.1, fun same => (congrArg write (owes.2 same)).trans books.symm⟩

theorem Owes.same_books (owes : Owes count owed inner) {after : Inner} (db : after.db = inner.db)
    (books : after.ledger.books = inner.ledger.books) : Owes count owed after := by
  unfold Owes
  rw [db, books]
  exact owes

theorem Owes.congr (owes : Owes count owed inner) {other : Books → Books}
    (same : inner.db.failures = count → other inner.db.tables.books = owed inner.db.tables.books) :
    Owes count other inner :=
  ⟨owes.1, fun known => (same known).trans (owes.2 known)⟩

theorem mirrored_persist (writes : Writes statement id) :
    Preserves (Mirrored count) (persist statement) := by
  intro inner kept
  refine (Owes.persist id writes kept).mono fun result after holds => ?_
  cases result <;> exact holds

theorem mirrored_onLedger {update : Ledger → Ledger}
    (same : ∀ ledger, (update ledger).books = ledger.books) :
    Preserves (Mirrored count) (onLedger update) :=
  .change fun _ kept => kept.same_books rfl (same _)

theorem mirrored_change {update : Inner → Inner}
    (same : ∀ inner, (update inner).ledger.books = inner.ledger.books)
    (db : ∀ inner, (update inner).db = inner.db) :
    Preserves (Mirrored count) (Section.change update : Handler PUnit) :=
  .change fun _ kept => kept.same_books (db _) (same _)

/-- One write after another, failures only logged. -/
theorem Owes.ignored_each {ι : Type} (owed : Books → Books) {name : ι → Books → Books}
    {statement : ι → Statement} (writes : ∀ item, Writes (statement item) (name item))
    (items : List ι)
    (owes : Owes count (fun books => owed (items.foldl (fun books item => name item books) books))
      inner) : (Section.each (fun item => Section.ignore (Orchestration.persist (statement item)))
      items : Handler PUnit).Meets inner fun result after => match result with
        | .ok _ => Owes count owed after
        | .error _ => False := by
  refine Meets.each (fun rest before => Owes count
    (fun books => owed (rest.foldl (fun books item => name item books) books)) before) owes ?_
    fun _ done => done
  intro item rest before holds
  refine (Owes.ignored (fun books => owed (rest.foldl (fun books item => name item books) books))
    (writes item) holds).mono fun result after later => ?_
  rw [later.1]
  exact later.2

theorem Owes.each {ι : Type} (owed : Books → Books) {name : ι → Books → Books}
    {statement : ι → Statement} (writes : ∀ item, Writes (statement item) (name item))
    (items : List ι)
    (owes : Owes count (fun books => owed (items.foldl (fun books item => name item books) books))
      inner) : (Section.each (fun item => Orchestration.persist (statement item)) items :
      Handler PUnit).Meets inner fun result after => match result with
        | .ok _ => Owes count owed after
        | .error _ => Mirrored count after := by
  refine Meets.each (fun rest before => Owes count
    (fun books => owed (rest.foldl (fun books item => name item books) books)) before) owes ?_
    fun _ done => done
  intro item rest before holds
  refine (Owes.persist (fun books => owed (rest.foldl (fun books item => name item books) books))
    (writes item) holds).mono fun result after later => ?_
  cases result <;> exact later

end Rules

end ForgeNode.Orchestration
