import ForgeNode.Orchestration.Policy

/-! Launch prompts: the sections, the closing contract, and what fitting the whole to its budget
leaves. -/

namespace ForgeNode.Orchestration.Prompt

open List

def maxPromptBytes : Nat := 48 * 1024

def contract : String :=
  "## Contract — Forge reads these commands, not your terminal\n" ++
  "- Commit your work on this branch. Do not push, open pull requests, or create worktrees.\n" ++
  "- Decisions on scope, ownership or architecture go to the controller:\n" ++
  "  forgectl ask --wait \"<question>\"\n" ++
  "- Record a decision or claim others must see:\n" ++
  "  forgectl state set <key> '<json>' --if-version <n>\n" ++
  "- If you see \"Forge: N new message(s)\", run: forgectl inbox\n" ++
  "- When finished or unable to finish, run exactly once, then stop and wait:\n" ++
  "  forgectl report --done|--failed|--blocked --summary \"<what changed; how verified; what is left>\"\n" ++
  "- Full contract: forgectl guide worker\n"

/-- Identifiers stand as they are displayed. -/
structure DependencySummary where
  taskId : String
  title : String
  summary : String

structure WorkerPromptInput where
  runId : String
  taskId : String
  attemptN : Nat
  title : String
  objective : String
  spec : String
  acceptance : String
  brief : String
  briefVersion : Nat
  workspacePath : String
  branch : String
  baseShort : String
  dependencies : List DependencySummary
  feedback : Option String
  previousReport : Option String

structure TaskLine where
  taskId : String
  title : String
  status : String
  spec : String
  acceptance : String

structure ReportLine where
  taskId : String
  title : String
  outcome : String
  summary : String

structure ControllerPromptInput where
  runId : String
  objective : String
  brief : String
  briefVersion : Nat
  base : String
  tasks : List TaskLine
  reports : List ReportLine
  questions : List (String × String)
  boardKeys : List String
  resume : Bool

def trimEnd (text : String) : String :=
  String.ofList (text.toList.reverse.dropWhile isWhitespace).reverse

def endsWithNewline (text : String) : Bool :=
  text.toList.getLast? == some '\n'

def pushSection (out title body : String) : String :=
  let out := out ++ "## " ++ title ++ "\n" ++ body
  (if endsWithNewline body then out else out ++ "\n") ++ "\n"

def occurs (part : List Char) : List Char → Bool
  | [] => part.isEmpty
  | c :: rest => part.isPrefixOf (c :: rest) || occurs part rest

def contains (text part : String) : Bool :=
  occurs part.toList text.toList

def truncationNote : String := "\n[truncated] Full text: forgectl context\n"

def fit (body : String) (maxBytes : Nat) : String :=
  let (text, truncated) := clampText body maxBytes
  if truncated && !contains text "forgectl context" && maxBytes > 80 then
    (clampText (text ++ truncationNote) maxBytes).1
  else text

def briefSection (out : String) (version : Nat) (brief : String) : String :=
  pushSection out ("Run brief (v" ++ toString version ++ ")")
    (if brief.isEmpty then "(none)" else brief)

/-- The sections of the worker's prompt, in front of the contract. -/
def workerSections (input : WorkerPromptInput) : String :=
  let body := "Forge task from your controller. Carry it out in this checkout.\n\n"
  let body := pushSection body "Identity" <|
    "Task: " ++ input.title ++ " (run " ++ input.runId ++ ", task " ++ input.taskId ++ ", attempt " ++
    toString input.attemptN ++ ")\nObjective of the run: " ++ input.objective ++ "\nWorkspace: " ++
    input.workspacePath ++ " on branch " ++ input.branch ++ ", branched from " ++ input.baseShort ++
      "."
  let body := pushSection body "Task" input.spec
  let body := pushSection body "Acceptance" input.acceptance
  let deps :=
    if input.dependencies.isEmpty then "(none)"
    else String.join <| input.dependencies.map fun dep =>
      "- " ++ dep.title ++ ": " ++ dep.summary ++ " (full: forgectl report show " ++ dep.taskId ++
        ")\n"
  let body := pushSection body "Inputs from finished tasks" (trimEnd deps)
  let body := briefSection body input.briefVersion input.brief
  let body := match input.previousReport with
    | some previous => pushSection body "Previous report" previous
    | none => body
  match input.feedback with
  | some feedback => pushSection body "Feedback on the previous attempt" feedback
  | none => body

def workerText (input : WorkerPromptInput) : String :=
  workerSections input ++ contract

def composeWorkerPrompt (input : WorkerPromptInput) : String :=
  fit (workerText input) maxPromptBytes

def loopLine : String :=
  "Loop: task add → task start → run wait --for attention,reported,question → act. Never poll with sleep.\n"

/-- The sections of the controller's prompt, in front of its closing lines. -/
def controllerSections (input : ControllerPromptInput) : String :=
  let body :=
    if input.resume then
      "You are resuming an interrupted Forge run. The ledger is the memory. Workers were not revived.\n\n"
    else
      "You are the controller of a Forge run. You decide; the daemon only keeps the ledger and the rails.\n\n"
  let body := pushSection body "Objective" <|
    "Run " ++ input.runId ++ "\nBase: " ++ input.base ++ "\n\n" ++ input.objective
  let none_ := if input.tasks.isEmpty then "(none yet — add the first task)" else ""
  let tasks := none_ ++ String.join (input.tasks.map fun task =>
    "- " ++ task.taskId ++ " [" ++ task.status ++ "] " ++ task.title ++ "\n  spec: " ++ task.spec ++
    "\n  acceptance: " ++ task.acceptance ++ "\n")
  let body := pushSection body "Tasks" (trimEnd tasks)
  let none_ := if input.reports.isEmpty then "(none)" else ""
  let reports := none_ ++ String.join (input.reports.map fun report =>
    "- " ++ report.title ++ " (" ++ report.outcome ++ ") " ++ report.taskId ++ ": " ++
      report.summary ++ "\n")
  let body := pushSection body "Accepted dependency summaries" (trimEnd reports)
  let body := briefSection body input.briefVersion input.brief
  let none_ := if input.questions.isEmpty then "(none)" else ""
  let questions := none_ ++ String.join (input.questions.map fun (task, text) =>
    "- " ++ task ++ ": " ++ text ++ "\n")
  let body := pushSection body "Unanswered questions" (trimEnd questions)
  let keys := if input.boardKeys.isEmpty then "(none)" else "\n".intercalate input.boardKeys
  pushSection body "Board keys" keys

def controllerText (input : ControllerPromptInput) : String :=
  controllerSections input ++ "\n" ++ loopLine ++ "Full contract: forgectl guide controller\n"

def composeControllerPrompt (input : ControllerPromptInput) : String :=
  fit (controllerText input) maxPromptBytes

/-- What the ledger stores of a task is clamped when it comes in. -/
structure Stored (input : WorkerPromptInput) : Prop where
  title : input.title.utf8ByteSize ≤ maxTitleBytes
  objective : input.objective.utf8ByteSize ≤ maxObjectiveBytes
  spec : input.spec.utf8ByteSize ≤ maxSpecBytes
  acceptance : input.acceptance.utf8ByteSize ≤ maxAcceptanceBytes
  brief : input.brief.utf8ByteSize ≤ maxBriefBytes
  summaries : ∀ dep ∈ input.dependencies, dep.summary.utf8ByteSize ≤ maxSummaryBytes
  feedback : ∀ feedback ∈ input.feedback, feedback.utf8ByteSize ≤ maxMessageBytes
  previous : ∀ previous ∈ input.previousReport, previous.utf8ByteSize ≤ maxSummaryBytes

/-- What a prompt is to do with its composed text: stay in the budget, keep the closing part, and
own up to what it cuts. -/
structure Delivers (composed closing prompt : String) : Prop where
  short : prompt.utf8ByteSize ≤ maxPromptBytes
  closing : closing.toList <:+: prompt.toList
  marked : prompt ≠ composed → "[truncated]".toList <:+: prompt.toList
  names : prompt ≠ composed → "forgectl context".toList <:+: prompt.toList

/-- The part of the composed text that the first cut keeps. -/
def kept (composed : String) : List Char :=
  takeBytes (maxPromptBytes - truncationMark.utf8ByteSize) composed.toList

section Clamp

def size (chars : List Char) : Nat := (String.ofList chars).utf8ByteSize

@[simp] theorem size_nil : size [] = 0 := rfl

@[simp] theorem size_append (front back : List Char) :
    size (front ++ back) = size front + size back := by
  rw [size, String.ofList_append, String.utf8ByteSize_append]
  rfl

@[simp] theorem size_cons (c : Char) (rest : List Char) :
    size (c :: rest) = c.utf8Size + size rest := by
  have one : size [c] = c.utf8Size := String.utf8ByteSize_singleton
  rw [← singleton_append, size_append, one]

theorem size_toList (text : String) : size text.toList = text.utf8ByteSize := by
  rw [size, String.ofList_toList]

theorem takeBytes_prefix (budget : Nat) (chars : List Char) : takeBytes budget chars <+: chars := by
  induction chars generalizing budget with
  | nil => exact prefix_rfl
  | cons c rest ih =>
    unfold takeBytes
    split
    · exact cons_prefix_cons.mpr ⟨rfl, ih _⟩
    · exact nil_prefix

theorem size_takeBytes_le (budget : Nat) (chars : List Char) :
    size (takeBytes budget chars) ≤ budget := by
  induction chars generalizing budget with
  | nil => simp [takeBytes]
  | cons c rest ih =>
    unfold takeBytes
    split
    case isTrue fits =>
      have more := ih (budget - c.utf8Size)
      rw [size_cons]
      omega
    case isFalse => exact Nat.zero_le _

/-- A cut loses three bytes to the character it falls in, at most. -/
theorem size_takeBytes_ge {budget : Nat} {chars : List Char} (long : budget < size chars) :
    budget ≤ size (takeBytes budget chars) + 3 := by
  induction chars generalizing budget with
  | nil => exact absurd long (Nat.not_lt_zero _)
  | cons c rest ih =>
    rw [size_cons] at long
    unfold takeBytes
    split
    case isTrue fits =>
      have more := @ih (budget - c.utf8Size) (by omega)
      rw [size_cons]
      omega
    case isFalse wide =>
      have four := c.utf8Size_le_four
      omega

theorem takeBytes_append {budget : Nat} {front back : List Char} (long : budget < size front) :
    takeBytes budget (front ++ back) = takeBytes budget front := by
  induction front generalizing budget with
  | nil => exact absurd long (Nat.not_lt_zero _)
  | cons c rest ih =>
    rw [size_cons] at long
    rw [cons_append, takeBytes, takeBytes]
    split
    case isTrue fits => rw [ih (by omega)]
    case isFalse => rfl

theorem infix_of_border {border : Char} {part front back : List Char} (absent : border ∉ part)
    (within : part <:+: front ++ border :: back) : part <:+: front ∨ part <:+: border :: back := by
  rcases infix_append_iff.mp within with inside | inside | ⟨left, right, rfl, suffix, lead⟩
  · exact .inl inside
  · exact .inr inside
  · cases right with
    | nil => exact .inl (by simpa only [append_nil] using suffix.isInfix)
    | cons c right =>
      obtain ⟨rfl, -⟩ := cons_prefix_cons.mp lead
      exact absurd (mem_append_right left mem_cons_self) absent

end Clamp

section Fit

variable {body : String}

theorem occurs_iff {part text : List Char} : occurs part text = true ↔ part <:+: text := by
  induction text with
  | nil => simp [occurs]
  | cons c rest ih => rw [occurs, Bool.or_eq_true, isPrefixOf_iff_prefix, ih, infix_cons_iff]

theorem contains_iff {text part : String} :
    contains text part = true ↔ part.toList <:+: text.toList :=
  occurs_iff

theorem fit_of_le (fits : body.utf8ByteSize ≤ maxPromptBytes) : fit body maxPromptBytes = body := by
  simp [fit, clampText, fits]

theorem clampText_of_lt (long : maxPromptBytes < body.utf8ByteSize) :
    clampText body maxPromptBytes = (String.ofList (kept body ++ truncationMark.toList), true) := by
  have cut : ¬ body.utf8ByteSize ≤ maxPromptBytes := Nat.not_le_of_lt long
  rw [clampText, if_neg cut]
  rfl

theorem clampText_size (body : String) :
    (clampText body maxPromptBytes).1.utf8ByteSize ≤ maxPromptBytes := by
  by_cases fits : body.utf8ByteSize ≤ maxPromptBytes
  · simp [clampText, fits]
  · rw [clampText_of_lt (Nat.lt_of_not_le fits), ← size_toList, String.toList_ofList, size_append]
    have taken : size (kept body) ≤ maxPromptBytes - truncationMark.utf8ByteSize :=
      size_takeBytes_le _ _
    have mark : size truncationMark.toList = truncationMark.utf8ByteSize := size_toList _
    have room : truncationMark.utf8ByteSize ≤ maxPromptBytes := by decide
    omega

theorem fit_size (body : String) : (fit body maxPromptBytes).utf8ByteSize ≤ maxPromptBytes := by
  unfold fit
  simp only
  split
  · exact clampText_size _
  · exact clampText_size _

theorem marked_toList (body : String) :
    (String.ofList (kept body ++ truncationMark.toList)).toList = kept body ++
      truncationMark.toList :=
  String.toList_ofList

/-- The mark holds no command, so a command in the clamped text stands in what was kept. -/
theorem names_iff {front : List Char} :
    "forgectl context".toList <:+: front ++ truncationMark.toList ↔
    "forgectl context".toList <:+: front := by
  constructor
  · intro within
    rcases @infix_of_border '\n' _ _ _ (by decide) within with inside | inside
    · exact inside
    · exact absurd inside.length_le (by decide)
  · intro inside
    exact inside.trans (prefix_append _ _).isInfix

theorem closing_iff {closing front : List Char} (line : '\n' ∈ closing) (plain : '[' ∉ closing) :
    closing <:+: front ++ truncationMark.toList ↔ closing <:+: front ++ ['\n'] := by
  have mark : front ++ truncationMark.toList = (front ++ ['\n']) ++ '[' :: "truncated]".toList := by
    rw [append_assoc]
    rfl
  rw [mark]
  constructor
  · intro within
    rcases infix_of_border plain within with inside | inside
    · exact inside
    · exact absurd (inside.subset line) (by decide)
  · intro inside
    exact inside.trans (prefix_append _ _).isInfix

/-- The note is appended to a text that is full already, and the second cut takes it away again. -/
theorem fit_of_unnamed (long : maxPromptBytes < body.utf8ByteSize)
    (unnamed : ¬ "forgectl context".toList <:+: kept body) :
    ¬ "forgectl context".toList <:+: (fit body maxPromptBytes).toList := by
  have absent : contains (String.ofList (kept body ++ truncationMark.toList)) "forgectl context" =
      false := by
    rw [Bool.eq_false_iff]
    intro present
    rw [contains_iff, marked_toList body] at present
    exact unnamed (names_iff.mp present)
  have full : maxPromptBytes ≤ size (kept body) + truncationMark.utf8ByteSize + 3 := by
    have most := @size_takeBytes_ge (maxPromptBytes - truncationMark.utf8ByteSize) body.toList
      (by rw [size_toList]; omega)
    rw [← kept] at most
    omega
  have note : truncationNote.utf8ByteSize = 41 := by decide
  have twelve : truncationMark.utf8ByteSize = 12 := by decide
  have mark : size truncationMark.toList = truncationMark.utf8ByteSize := size_toList _
  obtain ⟨text, texted⟩ : ∃ text, text = String.ofList (kept body ++ truncationMark.toList) :=
    ⟨_, rfl⟩
  have chars : text.toList = kept body ++ truncationMark.toList := by
    rw [texted, marked_toList body]
  have again : maxPromptBytes < (text ++ truncationNote).utf8ByteSize := by
    rw [String.utf8ByteSize_append, ← size_toList text, chars, size_append, note]
    omega
  have cutAgain : fit body maxPromptBytes =
      String.ofList (kept (text ++ truncationNote) ++ truncationMark.toList) := by
    rw [← texted] at absent
    have wide : decide (maxPromptBytes > 80) = true := by decide
    simp only [fit, clampText_of_lt long, ← texted, absent, wide, Bool.not_false, Bool.and_true,
      if_true]
    rw [clampText_of_lt again]
  have lost : kept (text ++ truncationNote) <+: kept body ++ truncationMark.toList := by
    rw [kept, String.toList_append, chars, takeBytes_append]
    · exact takeBytes_prefix _ _
    · rw [size_append, mark]
      omega
  intro within
  rw [cutAgain, marked_toList (text ++ truncationNote)] at within
  exact unnamed (names_iff.mp ((names_iff.mp within).trans lost.isInfix))

theorem fit_of_named (long : maxPromptBytes < body.utf8ByteSize)
    (named : "forgectl context".toList <:+: kept body) :
    fit body maxPromptBytes = String.ofList (kept body ++ truncationMark.toList) := by
  have present : contains (String.ofList (kept body ++ truncationMark.toList)) "forgectl context" =
      true := by
    rw [contains_iff, marked_toList body]
    exact names_iff.mpr named
  simp only [fit, clampText_of_lt long, present, Bool.not_true, Bool.and_false, Bool.false_and,
    Bool.false_eq_true, if_false]

/-- A prompt delivers just where its text fits, or quotes the closing part and the command by
itself. -/
theorem fit_delivers_iff {closing : String} (part : closing.toList <:+: body.toList)
    (line : '\n' ∈ closing.toList) (plain : '[' ∉ closing.toList) :
    Delivers body closing (fit body maxPromptBytes) ↔
      body.utf8ByteSize ≤ maxPromptBytes ∨
        closing.toList <:+: kept body ++ ['\n'] ∧ "forgectl context".toList <:+: kept body := by
  by_cases fits : body.utf8ByteSize ≤ maxPromptBytes
  · rw [fit_of_le fits]
    constructor
    · exact fun _ => .inl fits
    · intro _
      exact ⟨fits, part, fun cut => absurd rfl cut, fun cut => absurd rfl cut⟩
  · have long : maxPromptBytes < body.utf8ByteSize := Nat.lt_of_not_le fits
    have cut : fit body maxPromptBytes ≠ body := by
      intro same
      have short := fit_size body
      rw [same] at short
      exact fits short
    constructor
    · intro delivers
      right
      have named : "forgectl context".toList <:+: kept body := by
        apply Decidable.byContradiction
        intro unnamed
        exact fit_of_unnamed long unnamed (delivers.names cut)
      have closed := delivers.closing
      rw [fit_of_named long named, marked_toList body] at closed
      exact ⟨(closing_iff line plain).mp closed, named⟩
    · rintro (short | ⟨closed, named⟩)
      · exact absurd short fits
      · have short := fit_size body
        have chars : (fit body maxPromptBytes).toList = kept body ++ truncationMark.toList := by
          rw [fit_of_named long named, marked_toList body]
        generalize fit body maxPromptBytes = prompt at short chars
        constructor
        · exact short
        · rw [chars]
          exact (closing_iff line plain).mpr closed
        · intro _
          rw [chars]
          have mark : "[truncated]".toList <:+: truncationMark.toList := ⟨['\n'], [], rfl⟩
          exact mark.trans (suffix_append _ _).isInfix
        · intro _
          rw [chars]
          exact names_iff.mpr named

end Fit

section Prompts

theorem workerText_closes (input : WorkerPromptInput) :
    contract.toList <:+: (workerText input).toList := by
  rw [workerText, String.toList_append]
  exact (suffix_append _ _).isInfix

theorem controllerText_closes (input : ControllerPromptInput) :
    loopLine.toList <:+: (controllerText input).toList := by
  rw [controllerText, String.toList_append, String.toList_append]
  exact infix_append _ _ _

theorem mem_append_string {c : Char} {front back : String} (last : c ∈ back.toList) :
    c ∈ (front ++ back).toList := by
  rw [String.toList_append]
  exact mem_append_right _ last

theorem free_append_string {c : Char} {front back : String} (first : c ∉ front.toList)
    (last : c ∉ back.toList) : c ∉ (front ++ back).toList := by
  rw [String.toList_append]
  exact not_mem_append first last

theorem contract_line : '\n' ∈ contract.toList := by
  unfold contract
  apply mem_append_string
  rw [String.toList_ofList]
  decide

theorem contract_plain : '[' ∉ contract.toList := by
  unfold contract
  refine free_append_string (free_append_string
    (free_append_string (free_append_string (free_append_string ?_ ?_) ?_) ?_) ?_) ?_
  refine free_append_string (free_append_string (free_append_string (free_append_string ?_ ?_) ?_)
    ?_) ?_
  all_goals
    rw [String.toList_ofList]
    decide

theorem loopLine_line : '\n' ∈ loopLine.toList := by
  rw [loopLine, String.toList_ofList]
  decide

theorem loopLine_plain : '[' ∉ loopLine.toList := by
  rw [loopLine, String.toList_ofList]
  decide

/-- Both prompts deliver just where their text fits, or quotes the closing part and the command by
itself. -/
theorem prompts_deliver_iff (worker : WorkerPromptInput) (controller : ControllerPromptInput) :
    (Delivers (workerText worker) contract (composeWorkerPrompt worker) ↔
      (workerText worker).utf8ByteSize ≤ maxPromptBytes ∨
        contract.toList <:+: kept (workerText worker) ++ ['\n'] ∧
          "forgectl context".toList <:+: kept (workerText worker)) ∧
    (Delivers (controllerText controller) loopLine (composeControllerPrompt controller) ↔
      (controllerText controller).utf8ByteSize ≤ maxPromptBytes ∨
        loopLine.toList <:+: kept (controllerText controller) ++ ['\n'] ∧
          "forgectl context".toList <:+: kept (controllerText controller)) := by
  constructor
  · rw [composeWorkerPrompt]
    exact fit_delivers_iff (workerText_closes worker) contract_line contract_plain
  · rw [composeControllerPrompt]
    exact fit_delivers_iff (controllerText_closes controller) loopLine_line loopLine_plain

theorem pushSection_free {letter : Char} {out title body : String}
    (frame : letter ∉ ['#', ' ', '\n']) (before : letter ∉ out.toList)
    (head : letter ∉ title.toList) (inside : letter ∉ body.toList) :
    letter ∉ (pushSection out title body).toList := by
  simp only [mem_cons, not_mem_nil, or_false, not_or] at frame
  obtain ⟨hash, space, line⟩ := frame
  unfold pushSection
  simp only
  split <;> simp [before, head, inside, hash, space, line]

theorem pushSection_size (out title body : String) :
    out.utf8ByteSize + body.utf8ByteSize ≤ (pushSection out title body).utf8ByteSize := by
  unfold pushSection
  simp only
  split <;> simp only [String.utf8ByteSize_append] <;> omega

theorem size_replicate (n : Nat) : (String.ofList (List.replicate n 'z')).utf8ByteSize = n := by
  change size (List.replicate n 'z') = n
  induction n with
  | zero => rfl
  | succ n ih =>
    have one : 'z'.utf8Size = 1 := by decide
    rw [replicate_succ, size_cons, ih, one, Nat.add_comm]

/-- A task of which only the specification and the run's brief are long. -/
def bulky (spec brief : String) : WorkerPromptInput where
  runId := "r"
  taskId := "t"
  attemptN := 1
  title := "t"
  objective := "o"
  spec := spec
  acceptance := "a"
  brief := brief
  briefVersion := 1
  workspacePath := "/"
  branch := "b"
  baseShort := "b"
  dependencies := []
  feedback := none
  previousReport := none

theorem bulky_free {spec brief : String} (noSpec : 'x' ∉ spec.toList)
    (noBrief : 'x' ∉ brief.toList) : 'x' ∉ (workerSections (bulky spec brief)).toList := by
  have frame : 'x' ∉ ['#', ' ', '\n'] := by decide
  have brief_ : 'x' ∉ (if brief.isEmpty then "(none)" else brief).toList := by
    split
    · decide
    · exact noBrief
  unfold workerSections
  simp only [bulky, isEmpty_nil, if_true]
  apply pushSection_free frame _ (by decide) brief_
  apply pushSection_free frame _ (by decide) (by decide)
  apply pushSection_free frame _ (by decide) (by decide)
  apply pushSection_free frame _ (by decide) noSpec
  apply pushSection_free frame _ (by decide)
  · simp only [String.toList_append, mem_append, not_or]
    and_intros <;> decide
  · rw [String.toList_ofList]
    decide

theorem bulky_size (spec brief : String) :
    spec.utf8ByteSize + brief.utf8ByteSize ≤ (workerSections (bulky spec brief)).utf8ByteSize := by
  have brief_ : brief.utf8ByteSize ≤ (if brief.isEmpty then "(none)" else brief).utf8ByteSize := by
    split
    case isTrue empty => simp [String.isEmpty_iff.mp empty]
    case isFalse => exact Nat.le_refl _
  unfold workerSections
  simp only [bulky]
  refine Nat.le_trans ?_ (pushSection_size _ _ _)
  apply Nat.add_le_add _ brief_
  refine Nat.le_trans ?_ (pushSection_size _ _ _)
  refine Nat.le_trans ?_ (Nat.le_add_right _ _)
  refine Nat.le_trans ?_ (pushSection_size _ _ _)
  refine Nat.le_trans ?_ (Nat.le_add_right _ _)
  refine Nat.le_trans ?_ (pushSection_size _ _ _)
  exact Nat.le_add_left _ _

/-- The specification and the brief alone take the whole budget, so the contract is cut off
whole. -/
theorem not_delivers : ¬ ∀ input : WorkerPromptInput, Stored input →
    Delivers (workerText input) contract (composeWorkerPrompt input) := by
  intro always
  obtain ⟨spec, specIs⟩ : ∃ spec, spec = String.ofList (List.replicate maxSpecBytes 'z') := ⟨_, rfl⟩
  obtain ⟨brief, briefIs⟩ : ∃ brief, brief = String.ofList (List.replicate maxBriefBytes 'z') :=
    ⟨_, rfl⟩
  have specSize : spec.utf8ByteSize = maxSpecBytes := by
    rw [specIs]
    exact size_replicate _
  have briefSize : brief.utf8ByteSize = maxBriefBytes := by
    rw [briefIs]
    exact size_replicate _
  have full : maxPromptBytes = maxSpecBytes + maxBriefBytes := by decide
  have least := bulky_size spec brief
  rw [specSize, briefSize, ← full] at least
  have stored : Stored (bulky spec brief) := by
    constructor
    case spec => exact Nat.le_of_eq specSize
    case brief => exact Nat.le_of_eq briefSize
    case title => exact (by decide : "t".utf8ByteSize ≤ maxTitleBytes)
    case objective => exact (by decide : "o".utf8ByteSize ≤ maxObjectiveBytes)
    case acceptance => exact (by decide : "a".utf8ByteSize ≤ maxAcceptanceBytes)
    case summaries => exact fun dep member => absurd member not_mem_nil
    case feedback => exact fun text member => nomatch member
    case previous => exact fun text member => nomatch member
  have free : 'x' ∉ (workerSections (bulky spec brief)).toList := by
    apply bulky_free
    · rw [specIs, String.toList_ofList]
      exact fun member => absurd (eq_of_mem_replicate member) (by decide)
    · rw [briefIs, String.toList_ofList]
      exact fun member => absurd (eq_of_mem_replicate member) (by decide)
  have delivers := always (bulky spec brief) stored
  rw [composeWorkerPrompt, fit_delivers_iff (workerText_closes _) contract_line
    contract_plain] at delivers
  have closes : 0 < contract.utf8ByteSize := by decide +kernel
  rw [workerText, String.utf8ByteSize_append] at delivers
  rcases delivers with fits | ⟨-, named⟩
  · omega
  · have front : kept (workerSections (bulky spec brief) ++ contract) <+:
        (workerSections (bulky spec brief)).toList := by
      have mark : truncationMark.utf8ByteSize = 12 := by decide
      have some_ : 12 ≤ maxPromptBytes := by decide
      rw [kept, String.toList_append, takeBytes_append (by rw [size_toList]; omega)]
      exact takeBytes_prefix _ _
    have letter : 'x' ∈ "forgectl context".toList := by decide
    exact free (front.subset (named.subset letter))

end Prompts

end ForgeNode.Orchestration.Prompt
