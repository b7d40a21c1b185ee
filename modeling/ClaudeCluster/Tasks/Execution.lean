import ClaudeCluster.Tasks.StateMachine

/-!
# A task on its way to a node and back

`dispatchToNode` writes the stored spec into the `TaskSpec` message of
`ExecuteTask`, the handler on the node reads it for `TaskExecutor.execute`, and
what the execution came to goes back over the stream to be appended. A message
is the object the sender builds; `delivered` is what the receiver's loader
(`enums: String`, `defaults`, `oneofs`) makes of it.
-/

namespace ClaudeCluster.Tasks

open Raft (NodeId)

def TaskType.name : TaskType → String
  | .shell => "shell"
  | .container => "container"
  | .subagent => "subagent"
  | .k8sJob => "k8s_job"
  | .claudeRelay => "claude_relay"

/-- The type-specific arguments of `submit_task`, and the `spec` built of them. -/
structure SpecFields where
  command : Option String := none
  image : Option String := none
  prompt : Option String := none
  workingDirectory : Option String := none
  contextSummary : Option String := none
  deriving DecidableEq, Repr

/-- The `spec` of `handleSubmitTask`. It is stored as JSON, which gives an
object of strings back. -/
def SpecFields.built (args : SpecFields) : SpecFields where
  command := truthy args.command
  image := truthy args.image
  prompt := truthy args.prompt
  workingDirectory := truthy args.workingDirectory
  contextSummary := truthy args.contextSummary

-- ---------------------------------------------------------------------------
-- Messages
-- ---------------------------------------------------------------------------

abbrev EnumNames := String × List String

def taskTypeNames : EnumNames :=
  ("TASK_TYPE_UNKNOWN",
    ["TASK_TYPE_SHELL", "TASK_TYPE_CONTAINER", "TASK_TYPE_SUBAGENT", "TASK_TYPE_K8S_JOB",
      "TASK_TYPE_CLAUDE_RELAY"])

def taskStateNames : EnumNames :=
  ("TASK_STATE_UNKNOWN",
    ["TASK_STATE_QUEUED", "TASK_STATE_ASSIGNED", "TASK_STATE_RUNNING", "TASK_STATE_COMPLETED",
      "TASK_STATE_FAILED", "TASK_STATE_CANCELLED"])

def outputTypeNames : EnumNames :=
  ("OUTPUT_TYPE_UNKNOWN", ["OUTPUT_TYPE_STDOUT", "OUTPUT_TYPE_STDERR", "OUTPUT_TYPE_STATUS"])

/-- A name that is not in the enum is encoded as its zero value. -/
def EnumNames.delivered (names : EnumNames) (name : String) : String :=
  if name ∈ names.2 then name else names.1

/-- An `int32` field. -/
def toInt32 (n : Int) : Int := n.bmod (2 ^ 32)

/-- The `oneof` of a `TaskSpec`; `γ` is what stands in the container's `command`. -/
inductive TaskPayload (γ : Type)
  | shell (command workingDirectory : String) (sandboxed : Bool)
  | container (image : String) (command : γ)
  | subagent (prompt contextSummary : String)
  deriving DecidableEq, Repr

structure TaskSpecMessage (γ : Type) where
  taskId : TaskId
  type : String
  submitterNode : NodeId
  payload : Option (TaskPayload γ)
  deriving DecidableEq, Repr

/-- A string in a `repeated string` field: the empty one counts as absent, any
other is no array and the request is not serialised. -/
def repeatedField (value : String) : Option (List String) :=
  if value = "" then some [] else none

def TaskPayload.delivered : TaskPayload String → Option (TaskPayload (List String))
  | .shell command workingDirectory sandboxed => some (.shell command workingDirectory sandboxed)
  | .container image command => (repeatedField command).map (.container image)
  | .subagent prompt contextSummary => some (.subagent prompt contextSummary)

def TaskSpecMessage.delivered (m : TaskSpecMessage String) :
    Option (TaskSpecMessage (List String)) :=
  match m.payload with
  | none => some ⟨m.taskId, taskTypeNames.delivered m.type, m.submitterNode, none⟩
  | some payload =>
    payload.delivered.map fun p =>
      ⟨m.taskId, taskTypeNames.delivered m.type, m.submitterNode, some p⟩

-- ---------------------------------------------------------------------------
-- dispatchToNode: the request
-- ---------------------------------------------------------------------------

def taskSpec (task : TaskRecord) (spec : SpecFields) (nodeId : NodeId) :
    TaskSpecMessage String where
  taskId := task.id
  type := task.type.name
  submitterNode := nodeId
  payload :=
    match task.type with
    | .shell => (truthy spec.command).map
        fun command => .shell command (spec.workingDirectory.getD "") false
    | .subagent => (truthy spec.prompt).map
        fun prompt => .subagent prompt (spec.contextSummary.getD "")
    | .container => (truthy spec.image).map
        fun image => .container image (spec.command.getD "")
    | .k8sJob | .claudeRelay => none

-- ---------------------------------------------------------------------------
-- ExecuteTask: the request
-- ---------------------------------------------------------------------------

structure ShellTaskSpec where
  command : String
  workingDirectory : Option String := none
  sandboxed : Option Bool := none
  deriving DecidableEq, Repr

structure ContainerTaskSpec where
  image : String
  command : Option (List String) := none
  deriving DecidableEq, Repr

structure SubagentTaskSpec where
  prompt : String
  contextSummary : Option String := none
  deriving DecidableEq, Repr

structure TaskSpec where
  taskId : TaskId
  type : String
  shell : Option ShellTaskSpec := none
  container : Option ContainerTaskSpec := none
  subagent : Option SubagentTaskSpec := none
  deriving DecidableEq, Repr

def removeFirst (pattern : List Char) : List Char → List Char
  | [] => []
  | c :: rest =>
    if pattern.isPrefixOf (c :: rest) then (c :: rest).drop pattern.length
    else c :: removeFirst pattern rest

/-- `type.replace('TASK_TYPE_', '').toLowerCase()`. -/
def decodeType (type : String) : String :=
  String.ofList ((removeFirst "TASK_TYPE_".toList type.toList).map Char.toLower)

def executorSpec (m : TaskSpecMessage (List String)) : TaskSpec where
  taskId := m.taskId
  type := decodeType m.type
  shell :=
    match m.payload with
    | some (.shell command workingDirectory sandboxed) =>
      some ⟨command, some workingDirectory, some sandboxed⟩
    | _ => none

/-- What `execute` is called with on the target, where the request arrives. -/
def receivedSpec (task : TaskRecord) (spec : SpecFields) (nodeId : NodeId) : Option TaskSpec :=
  (taskSpec task spec nodeId).delivered.map executorSpec

-- ---------------------------------------------------------------------------
-- What survives
-- ---------------------------------------------------------------------------

/-- The fields of a type are those stored; an absent one may arrive as an empty one. -/
def SameFields (spec : SpecFields) (received : TaskSpec) : TaskType → Prop
  | .shell =>
    truthy (received.shell.map (·.command)) = spec.command ∧
      truthy (received.shell.bind (·.workingDirectory)) = spec.workingDirectory
  | .container =>
    truthy (received.container.map (·.image)) = spec.image ∧
      (received.container.bind (·.command)).getD [] = spec.command.toList
  | .subagent =>
    truthy (received.subagent.map (·.prompt)) = spec.prompt ∧
      truthy (received.subagent.bind (·.contextSummary)) = spec.contextSummary
  | .k8sJob | .claudeRelay => True

instance (spec : SpecFields) (received : TaskSpec) (type : TaskType) :
    Decidable (SameFields spec received type) := by
  cases type <;> unfold SameFields <;> infer_instance

structure SameSpec (task : TaskRecord) (spec : SpecFields) (received : TaskSpec) : Prop where
  taskId : received.taskId = task.id
  type : received.type = task.type.name
  fields : SameFields spec received task.type

def SpecSurvives (task : TaskRecord) (spec : SpecFields) (nodeId : NodeId) : Prop :=
  ∃ received ∈ receivedSpec task spec nodeId, SameSpec task spec received

section
variable {task : TaskRecord} {spec : SpecFields} {nodeId : NodeId} {received : TaskSpec}

/-- The engine's type names are not names of the enum. -/
theorem TaskType.delivered_name (type : TaskType) :
    taskTypeNames.delivered type.name = "TASK_TYPE_UNKNOWN" := by
  cases type <;> decide

theorem decodeType_unknown : decodeType "TASK_TYPE_UNKNOWN" = "unknown" := by decide

theorem receivedSpec_cases (h : received ∈ receivedSpec task spec nodeId) :
    received.taskId = task.id ∧ received.type = "unknown" ∧ received.container = none ∧
      received.subagent = none := by
  obtain ⟨m, hm, rfl⟩ := Option.map_eq_some_iff.mp h
  have ht : m.taskId = task.id ∧ m.type = "TASK_TYPE_UNKNOWN" := by
    unfold TaskSpecMessage.delivered at hm
    split at hm
    · cases hm
      exact ⟨rfl, task.type.delivered_name⟩
    · obtain ⟨p, -, rfl⟩ := Option.map_eq_some_iff.mp hm
      exact ⟨rfl, task.type.delivered_name⟩
  refine ⟨ht.1, ?_, rfl, rfl⟩
  rw [show (executorSpec m).type = decodeType m.type from rfl, ht.2, decodeType_unknown]

theorem receivedSpec_shell (ht : task.type = .shell) (hc : truthy spec.command = some command) :
    receivedSpec task spec nodeId = some
      { taskId := task.id, type := "unknown",
        shell := some ⟨command, some (spec.workingDirectory.getD ""), some false⟩ } := by
  simp only [receivedSpec, taskSpec, ht, hc, Option.map_some, TaskSpecMessage.delivered,
    TaskPayload.delivered, TaskType.delivered_name, executorSpec, decodeType_unknown]

theorem not_sameFields (h : received ∈ receivedSpec task spec nodeId)
    (hs : (task.type = .container ∧ (spec.image.isSome ∨ spec.command.isSome)) ∨
      (task.type = .subagent ∧ (spec.prompt.isSome ∨ spec.contextSummary.isSome))) :
    ¬ SameFields spec received task.type := by
  obtain ⟨-, -, hc, ha⟩ := receivedSpec_cases h
  intro hf
  obtain ⟨ht, hs⟩ | ⟨ht, hs⟩ := hs
  · simp only [ht, SameFields, hc, Option.map_none, Option.bind_none, Option.getD_none] at hf
    obtain ⟨h1, h2⟩ := hf
    have hn : spec.command = none := by
      cases hcmd : spec.command with
      | none => rfl
      | some c => simp [hcmd] at h2
    simp [← h1, hn, truthy] at hs
  · simp only [ht, SameFields, ha, Option.map_none, Option.bind_none] at hf
    obtain ⟨h1, h2⟩ := hf
    simp [← h1, ← h2, truthy] at hs

/-- No task's spec survives its dispatch: the type never does. -/
theorem spec_never_survives (task : TaskRecord) (args : SpecFields) (nodeId : NodeId) :
    ¬ SpecSurvives task args.built nodeId := by
  rintro ⟨received, hr, hs⟩
  have hu := (receivedSpec_cases hr).2.1.symm.trans hs.type
  cases ht : task.type <;> rw [ht] at hu <;> exact absurd hu (by decide)

end

def listingTask : TaskRecord where
  id := "t"
  workflowId := none
  taskKey := none
  type := .shell
  state := .assigned
  priority := 0
  spec := "\x7b\"command\":\"ls\"\x7d"
  constraints := none
  retryPolicy := none
  attempt := 0
  createdAt := 0

theorem listing_spec_lost : ¬ SpecSurvives listingTask ({ command := some "ls" } : SpecFields).built "a" := by
  rintro ⟨received, hr, hs⟩
  have hu := (receivedSpec_cases hr).2.1.symm.trans hs.type
  exact absurd hu (by decide)

-- ---------------------------------------------------------------------------
-- The execution
-- ---------------------------------------------------------------------------

abbrev Buffer := List UInt8

structure ExecutionResult where
  success : Bool
  exitCode : Int
  stdout : Buffer
  stderr : Buffer
  error : Option String := none
  deriving DecidableEq, Repr

/-- How a call of `execute` ends; a rejection with the text the handler puts. -/
inductive Settled
  | resolved (result : ExecutionResult)
  | rejected (message : String)
  deriving DecidableEq, Repr

/-- `execute`, with `running` tasks under way; the three ways to run one are the host's. -/
def execute (maxConcurrent running : Nat)
    (executeShell executeContainer executeSubagent : TaskSpec → Settled) (spec : TaskSpec) :
    Settled :=
  if maxConcurrent ≤ running then
    .rejected s!"Max concurrent tasks ({maxConcurrent}) reached"
  else if spec.type = "shell" then executeShell spec
  else if spec.type = "container" then executeContainer spec
  else if spec.type = "subagent" then executeSubagent spec
  else .rejected s!"Unsupported task type: {spec.type}"

-- ---------------------------------------------------------------------------
-- ExecuteTask: the responses
-- ---------------------------------------------------------------------------

structure TaskStatus where
  taskId : TaskId
  state : String
  exitCode : Option Int := none
  error : String
  deriving DecidableEq, Repr

inductive ExecuteTaskResponse
  | output (type : String) (data : Buffer)
  | status (status : TaskStatus)
  deriving DecidableEq, Repr

def ExecuteTaskResponse.delivered : ExecuteTaskResponse → ExecuteTaskResponse
  | .output type data => .output (outputTypeNames.delivered type) data
  | .status s =>
    .status
      { s with
        state := taskStateNames.delivered s.state
        exitCode := some (toInt32 (s.exitCode.getD 0)) }

/-- What the handler writes before it ends the stream. -/
def executeTaskResponses (taskId : TaskId) : Settled → List ExecuteTaskResponse
  | .resolved result =>
    [.status
      { taskId
        state := if result.success then "TASK_STATE_COMPLETED" else "TASK_STATE_FAILED"
        exitCode := some result.exitCode
        error := (truthy result.error).getD "" }]
  | .rejected message => [.status { taskId, state := "TASK_STATE_FAILED", error := message }]

-- ---------------------------------------------------------------------------
-- dispatchToNode: the responses
-- ---------------------------------------------------------------------------

structure Collected where
  stdout : String := ""
  stderr : String := ""
  exitCode : Int := 0
  deriving DecidableEq, Repr

section
variable (toText : Buffer → String)

def Collected.next (c : Collected) : ExecuteTaskResponse → Collected
  | .output type data =>
    if type = "stderr" then { c with stderr := c.stderr ++ toText data }
    else { c with stdout := c.stdout ++ toText data }
  | .status s => { c with exitCode := s.exitCode.getD 0 }

/-- The entry `dispatchToNode` appends once the stream is over, `broken` by an
error or not. -/
def dispatchEntry (taskId : TaskId) (nodeId : NodeId) (responses : List ExecuteTaskResponse) :
    (broken : Option String) → Entry
  | some error => .taskFailed ⟨taskId, error, nodeId⟩
  | none =>
    let c := responses.foldl (Collected.next toText) {}
    .taskComplete
      ⟨taskId, { exitCode := some c.exitCode, stdout := some c.stdout, stderr := some c.stderr }⟩

def outcomeEntry (taskId : TaskId) (nodeId : NodeId) (outcome : Settled)
    (broken : Option String) : Entry :=
  dispatchEntry toText taskId nodeId
    ((executeTaskResponses taskId outcome).map ExecuteTaskResponse.delivered) broken

/-- A failure is not completed with exit code 0, and a completion says what the
execution resolved to. -/
structure Reflects (outcome : Settled) (entry : Entry) : Prop where
  failure : (∀ result, outcome = .resolved result → result.success = false) →
    ∀ p, entry = .taskComplete p → p.result.exitCode ≠ some 0
  content : ∀ result, outcome = .resolved result → ∀ p, entry = .taskComplete p →
    p.result.exitCode = some result.exitCode ∧ p.result.stdout = some (toText result.stdout) ∧
      p.result.stderr = some (toText result.stderr)

/-- When the execution's end can be told from what is appended: it resolved, in
silence, and its exit code alone says how. -/
def Settled.Legible : Settled → Prop
  | .resolved result =>
    toText result.stdout = "" ∧ toText result.stderr = "" ∧
      toInt32 result.exitCode = result.exitCode ∧ (result.success = true ∨ result.exitCode ≠ 0)
  | .rejected _ => False

variable {toText} {taskId : TaskId} {nodeId : NodeId} {outcome : Settled}

theorem outcomeEntry_broken (error : String) :
    outcomeEntry toText taskId nodeId outcome (some error) = .taskFailed ⟨taskId, error, nodeId⟩ :=
  rfl

theorem outcomeEntry_resolved (result : ExecutionResult) :
    outcomeEntry toText taskId nodeId (.resolved result) none =
      .taskComplete
        ⟨taskId,
          { exitCode := some (toInt32 result.exitCode), stdout := some "", stderr := some "" }⟩ :=
  rfl

theorem outcomeEntry_rejected (message : String) :
    outcomeEntry toText taskId nodeId (.rejected message) none =
      .taskComplete
        ⟨taskId, { exitCode := some 0, stdout := some "", stderr := some "" }⟩ :=
  rfl

theorem Reflects.of_taskFailed (p : TaskFailedPayload) :
    Reflects toText outcome (.taskFailed p) :=
  ⟨fun _ _ h => (nomatch h), fun _ _ _ h => (nomatch h)⟩

theorem not_reflects_rejected (message : String) (taskId : TaskId) (nodeId : NodeId) :
    ¬ Reflects toText (.rejected message)
      (outcomeEntry toText taskId nodeId (.rejected message) none) := by
  intro h
  rw [outcomeEntry_rejected] at h
  exact h.failure (fun _ h => nomatch h) _ rfl rfl

theorem reflects_resolved (result : ExecutionResult) :
    Reflects toText (.resolved result)
        (outcomeEntry toText taskId nodeId (.resolved result) none) ↔
      (Settled.resolved result).Legible toText := by
  rw [outcomeEntry_resolved]
  constructor
  · rintro ⟨hf, hc⟩
    obtain ⟨hx, ho, he⟩ := hc result rfl _ rfl
    have hx' : toInt32 result.exitCode = result.exitCode := Option.some.inj hx
    refine ⟨(Option.some.inj ho).symm, (Option.some.inj he).symm, hx', ?_⟩
    cases hs : result.success with
    | true => exact .inl rfl
    | false =>
      refine .inr fun h0 => hf ?_ _ rfl ?_
      · rintro _ ⟨⟩
        exact hs
      · change some (toInt32 result.exitCode) = some 0
        rw [hx', h0]
  · rintro ⟨ho, he, hx, hs⟩
    constructor
    · rintro hf _ ⟨⟩ h0
      have hx0 : toInt32 result.exitCode = 0 := Option.some.inj h0
      cases hs with
      | inl h => exact absurd ((hf result rfl).symm.trans h) (by decide)
      | inr h => exact h (hx.symm.trans hx0)
    · rintro _ ⟨⟩ _ ⟨⟩
      exact ⟨congrArg some hx, congrArg some ho.symm, congrArg some he.symm⟩

/-- What is appended reflects the execution exactly when the stream broke, so
that the task counts as failed, or the execution was legible. -/
theorem reflects_iff (toText : Buffer → String) (taskId : TaskId) (nodeId : NodeId)
    (outcome : Settled) (broken : Option String) :
    Reflects toText outcome (outcomeEntry toText taskId nodeId outcome broken) ↔
      broken.isSome ∨ outcome.Legible toText := by
  cases broken with
  | some error =>
    rw [outcomeEntry_broken]
    exact iff_of_true (.of_taskFailed _) (.inl rfl)
  | none =>
    cases outcome with
    | resolved result => simp [reflects_resolved]
    | rejected message => simp [not_reflects_rejected, Settled.Legible]

end

def latin1 (data : Buffer) : String := String.ofList (data.map fun b => Char.ofNat b.toNat)

theorem rejected_completes :
    ¬ Reflects latin1 (.rejected "Unsupported task type: unknown")
      (outcomeEntry latin1 "t" "b" (.rejected "Unsupported task type: unknown") none) :=
  not_reflects_rejected _ _ _

-- ---------------------------------------------------------------------------
-- The whole way
-- ---------------------------------------------------------------------------

theorem execute_received (h : received ∈ receivedSpec task spec nodeId)
    (maxConcurrent running : Nat)
    (executeShell executeContainer executeSubagent : TaskSpec → Settled) :
    ∃ message,
      execute maxConcurrent running executeShell executeContainer executeSubagent received =
        .rejected message := by
  have ht := (receivedSpec_cases h).2.1
  unfold execute
  split
  · exact ⟨_, rfl⟩
  · simp only [ht, String.reduceEq, ↓reduceIte]
    exact ⟨_, rfl⟩

theorem dispatch_completes (h : received ∈ receivedSpec task spec nodeId)
    (maxConcurrent running : Nat)
    (executeShell executeContainer executeSubagent : TaskSpec → Settled)
    (toText : Buffer → String) (target : NodeId) :
    outcomeEntry toText task.id target
        (execute maxConcurrent running executeShell executeContainer executeSubagent received)
        none =
      .taskComplete
        ⟨task.id, { exitCode := some 0, stdout := some "", stderr := some "" }⟩ := by
  obtain ⟨message, hm⟩ :=
    execute_received h maxConcurrent running executeShell executeContainer executeSubagent
  rw [hm, outcomeEntry_rejected]

end ClaudeCluster.Tasks
