import Mathlib.Algebra.Ring.Rat
import Mathlib.Data.List.Sort
import ClaudeCluster.Tasks.WorkflowEngine

/-!
# The task state machine

`TaskStateMachine` of `plugins/task-engine/state-machine.ts`: one handler for
each entry type, and the queries the plugin makes. A handler is not a
transaction. When a statement throws, what it wrote before stays, so a handler
returns the database in either case, and beside it the error or the action the
leader should take.
-/

namespace ClaudeCluster.Tasks

open Lib (Table)
open Lib.Binary64 (Number)
open Raft (NodeId)

inductive StateMachineAction
  | retry (taskId : TaskId) (attempt : Int) (scheduledAfter : Time)
  | deadLetter (taskId : TaskId) (reason : String)
  | cancelRunning (taskId : TaskId) (nodeId : NodeId)
  | schedule (taskId : Option TaskId) (scheduledAfter : Option Time)
  | workflowAdvance (taskId : TaskId) (workflowId : WorkflowId)
  deriving DecidableEq, Repr

inductive ApplyError
  /-- `UNIQUE constraint failed`, with the table. -/
  | uniqueConstraint (table : String)
  /-- `NOT NULL constraint failed`, with the column. -/
  | notNullConstraint (column : String)
  /-- `RangeError: Invalid time value`, from `toISOString`. -/
  | invalidTimeValue
  deriving DecidableEq, Repr

structure Applied where
  db : Db
  outcome : Except ApplyError (Option StateMachineAction)

-- ---------------------------------------------------------------------------
-- Statements
-- ---------------------------------------------------------------------------

namespace Db

variable (db : Db)

def getTask (taskId : TaskId) : Option TaskRecord := db.tasks.find? taskId

def updateTask (taskId : TaskId) (set : TaskRecord → TaskRecord)
    (h : ∀ t, (set t).id = t.id := by intro _; rfl) : Db :=
  { db with tasks := db.tasks.modify taskId set h }

def updateTaskState (taskId : TaskId) (state : TaskEngineState) : Db :=
  db.updateTask taskId fun t => { t with state }

def setWorkflowState (workflowId : WorkflowId) (state : WorkflowState) (now : Time) : Db :=
  { db with workflows :=
      (db.workflows.modify workflowId fun w => { w with state, completedAt := some now }) }

def insertEvent (taskId : TaskId) (eventType : TaskEventType) (nodeId : NodeId)
    (detail : Option String) (createdAt : Time) : Db :=
  { db with events := db.events ++ [⟨taskId, eventType, nodeId, detail, createdAt⟩] }

def insertTask (row : TaskRecord) : Except ApplyError Db :=
  match db.tasks.insert row with
  | none => .error (.uniqueConstraint "te_tasks")
  | some tasks => .ok { db with tasks }

def insertWorkflow (row : WorkflowRecord) : Except ApplyError Db :=
  match db.workflows.insert row with
  | none => .error (.uniqueConstraint "te_workflows")
  | some workflows => .ok { db with workflows }

def insertDependency (row : TaskDependencyRecord) : Except ApplyError Db :=
  match db.dependencies.insert row with
  | none => .error (.uniqueConstraint "te_task_dependencies")
  | some dependencies => .ok { db with dependencies }

end Db

-- ---------------------------------------------------------------------------
-- Retry policy
-- ---------------------------------------------------------------------------

/-- `Math.pow(base, n)`. A missing field is `undefined`, and what that is to the
power of zero is 1. -/
def mathPow (host : Host) (base : Option ℚ) (n : Int) : Number :=
  if n = 0 then Lib.Binary64.ofRat false 1
  else base.elim .nan fun q => Lib.Binary64.power host.approximatePow q n

/-- `backoffMs * Math.pow(backoffMultiplier, attempt)` -/
def RetryPolicy.backoff (host : Host) (p : RetryPolicy) (attempt : Int) : Number :=
  p.backoffMs.elim .nan fun ms =>
    Lib.Binary64.scale ms (mathPow host p.backoffMultiplier attempt)

/-- `new Date(ms).toISOString()`, `none` where it throws. -/
def toISOString (ms : Number) : Option Time :=
  ms.value?.bind fun q =>
    if |q| ≤ 8640000000000000 then some (q.num.tdiv q.den) else none

/-- `new Date(Date.now() + backoffMs).toISOString()` -/
def RetryPolicy.scheduledAfter (host : Host) (p : RetryPolicy) (attempt : Int) : Option Time :=
  toISOString (Lib.Binary64.shift host.now (p.backoff host attempt))

def numberText : Option ℚ → String
  | none => "undefined"
  | some q =>
    if q.den = 1 ∧ |q| < 10 ^ 21 then toString q.num
    else String.ofList (Lib.numberChars (Lib.Binary64.ofRat false q))

def RetryPolicy.allows (p : RetryPolicy) (attempt : Int) : Bool :=
  p.retryable.getD false && p.maxRetries.any fun m => (attempt : ℚ) < m

def TaskRecord.policy (t : TaskRecord) : RetryPolicy := t.retryPolicy.getD DEFAULT_RETRY_POLICY

-- ---------------------------------------------------------------------------
-- Task handlers
-- ---------------------------------------------------------------------------

section Handlers

variable (host : Host) (db : Db)

def TaskSubmitPayload.row (payload : TaskSubmitPayload) (now : Time) : TaskRecord where
  id := payload.taskId
  workflowId := payload.workflowId
  taskKey := payload.taskKey
  type := payload.type
  state := if (truthy payload.workflowId).isSome then .pending else .queued
  priority := payload.priority.getD 0
  spec := payload.spec
  constraints := payload.constraints
  retryPolicy := payload.retryPolicy
  attempt := 0
  createdAt := now

def handleTaskSubmit (payload : TaskSubmitPayload) : Applied :=
  match db.insertTask (payload.row host.now) with
  | .error e => ⟨db, .error e⟩
  | .ok db =>
    ⟨db.insertEvent payload.taskId .submitted payload.submitterNode none host.now, .ok none⟩

def handleTaskAssign (payload : TaskAssignPayload) : Applied :=
  let db := db.updateTask payload.taskId fun t =>
    { t with state := .assigned, assignedNode := some payload.nodeId, assignedAt := some host.now }
  ⟨db.insertEvent payload.taskId .assigned payload.nodeId none host.now, .ok none⟩

def handleTaskStarted (payload : TaskStartedPayload) : Applied :=
  let db := db.updateTask payload.taskId fun t =>
    { t with state := .running, startedAt := some host.now }
  ⟨db.insertEvent payload.taskId .started payload.nodeId none host.now, .ok none⟩

def handleTaskComplete (payload : TaskCompletePayload) : Applied :=
  match db.getTask payload.taskId with
  | none => ⟨db, .ok none⟩
  | some task =>
    let db := db.updateTask payload.taskId fun t =>
      { t with state := .completed, result := some payload.result, completedAt := some host.now }
    ⟨db.insertEvent payload.taskId .completed (task.assignedNode.getD host.nodeId) none host.now,
      .ok ((truthy task.workflowId).map (.workflowAdvance payload.taskId))⟩

def failureOutcome (taskId : TaskId) (task : TaskRecord) :
    Except ApplyError (Option StateMachineAction) :=
  if task.policy.allows task.attempt then
    match task.policy.scheduledAfter host task.attempt with
    | none => .error .invalidTimeValue
    | some scheduledAfter => .ok (some (.retry taskId (task.attempt + 1) scheduledAfter))
  else
    .ok (some (.deadLetter taskId
      ("Max retries exhausted (" ++ numberText task.policy.maxRetries ++ ") or not retryable")))

def handleTaskFailed (payload : TaskFailedPayload) : Applied :=
  match db.getTask payload.taskId with
  | none => ⟨db, .ok none⟩
  | some task =>
    let db := db.updateTask payload.taskId fun t => { t with error := some payload.error }
    ⟨db.insertEvent payload.taskId .failed payload.nodeId (some payload.error) host.now,
      failureOutcome host payload.taskId task⟩

def handleTaskCancel (payload : TaskCancelPayload) : Applied :=
  match db.getTask payload.taskId with
  | none => ⟨db, .ok none⟩
  | some task =>
    let wasRunning := task.state = .running ∨ task.state = .assigned
    let db := db.updateTask payload.taskId fun t =>
      { t with state := .cancelled, completedAt := some host.now }
    ⟨db.insertEvent payload.taskId .cancelled host.nodeId none host.now,
      .ok (if wasRunning then (truthy task.assignedNode).map (.cancelRunning payload.taskId)
        else none)⟩

def handleTaskRetry (payload : TaskRetryPayload) : Applied :=
  let db := db.updateTask payload.taskId fun t =>
    { t with
      state := .queued, attempt := payload.attempt, assignedNode := none, assignedAt := none,
      startedAt := none, completedAt := none, error := none, result := none,
      scheduledAfter := some payload.scheduledAfter }
  ⟨db.insertEvent payload.taskId .retried host.nodeId
      (some ("attempt=" ++ toString payload.attempt ++
        " scheduledAfter=" ++ toString payload.scheduledAfter)) host.now,
    .ok (some (.schedule (some payload.taskId) (some payload.scheduledAfter)))⟩

def handleTaskDeadLetter (payload : TaskDeadLetterPayload) : Applied :=
  let db := db.updateTask payload.taskId fun t =>
    { t with state := .deadLetter, deadLetteredAt := some host.now }
  ⟨db.insertEvent payload.taskId .deadLettered host.nodeId (some payload.reason) host.now,
    .ok none⟩

-- ---------------------------------------------------------------------------
-- Workflow handlers
-- ---------------------------------------------------------------------------

/-- The dependencies of one task, up to the first that is rejected. -/
def insertClientDependencies (workflowId : WorkflowId) (taskKey : TaskKey)
    (condition : Option String) : Db → List (Option TaskKey) → Db × Option ApplyError
  | db, [] => (db, none)
  | db, none :: _ => (db, some (.notNullConstraint "te_task_dependencies.depends_on_key"))
  | db, some depKey :: rest =>
    match db.insertDependency ⟨workflowId, taskKey, depKey, condition⟩ with
    | .error e => (db, some e)
    | .ok db => insertClientDependencies workflowId taskKey condition db rest

def ClientTaskDef.deps (d : ClientTaskDef) : List (Option TaskKey) := d.dependsOn.getD []

def ClientTaskDef.row (d : ClientTaskDef) (taskId : TaskId) (workflowId : WorkflowId)
    (taskKey : TaskKey) (now : Time) : Except ApplyError TaskRecord :=
  match d.type, d.spec with
  | none, _ => .error (.notNullConstraint "te_tasks.type")
  | some _, none => .error (.notNullConstraint "te_tasks.spec")
  | some type, some spec => .ok {
      id := taskId
      workflowId := some workflowId
      taskKey := some taskKey
      type
      state := if d.deps.isEmpty then .queued else .pending
      priority := d.priority.getD 0
      spec
      constraints := d.constraints
      retryPolicy := d.retryPolicy
      attempt := 0
      createdAt := now }

/-- The rows of the tasks and of their dependencies, up to the first statement
that is rejected. -/
def insertClientTasks (workflowId : WorkflowId) :
    Db → List (TaskId × TaskKey × ClientTaskDef) → Db × Option ApplyError
  | db, [] => (db, none)
  | db, (taskId, taskKey, taskDef) :: rest =>
    match (taskDef.row taskId workflowId taskKey host.now).bind db.insertTask with
    | .error e => (db, some e)
    | .ok db =>
      let db := db.insertEvent taskId .submitted host.nodeId none host.now
      match insertClientDependencies workflowId taskKey taskDef.condition db taskDef.deps with
      | (db, some e) => (db, some e)
      | (db, none) => insertClientTasks workflowId db rest

/-- `taskIdMap`: one fresh id a key, in the order of the keys. -/
def ClientDefinition.withIds (d : ClientDefinition) : List (TaskId × TaskKey × ClientTaskDef) :=
  d.tasks.zipIdx.map fun (t, i) => (host.randomUUID i, t)

def ClientSubmitPayload.row (p : ClientSubmitPayload) (now : Time) : Except ApplyError WorkflowRecord :=
  match p.definition.name with
  | none => .error (.notNullConstraint "te_workflows.name")
  | some name => .ok ⟨p.workflowId, name, .running, p.definition, "\x7b\x7d", now, none⟩

def handleWorkflowSubmit (payload : ClientSubmitPayload) : Applied :=
  match (payload.row host.now).bind db.insertWorkflow with
  | .error e => ⟨db, .error e⟩
  | .ok db =>
    match insertClientTasks host payload.workflowId db (payload.definition.withIds host) with
    | (db, some e) => ⟨db, .error e⟩
    | (db, none) => ⟨db, .ok (some (.schedule none none))⟩

def queueReady (detail : String) (db : Db) (taskId : TaskId) : Db :=
  (db.updateTaskState taskId .queued).insertEvent taskId .submitted host.nodeId (some detail)
    host.now

def skipTask (detail : String) (db : Db) (taskId : TaskId) : Db :=
  (db.updateTask taskId fun t =>
    { t with state := .skipped, completedAt := some host.now }).insertEvent taskId .skipped
      host.nodeId (some detail) host.now

/-- The writes that follow an evaluation; the two passes differ in the texts of
their events. -/
def writeEvaluation (workflowId : WorkflowId) (readyDetail skippedDetail : String)
    (result : WorkflowEvalResult) (db : Db) : Db :=
  let db := result.readyTasks.foldl (queueReady host readyDetail) db
  let db := result.skippedTasks.foldl (skipTask host skippedDetail) db
  if result.workflowComplete then db.setWorkflowState workflowId result.workflowState host.now
  else db

def firstPass (workflowId : WorkflowId) : Db :=
  writeEvaluation host workflowId "workflow_advance: ready" "condition not met"
    (evaluateWorkflow host db workflowId) db

def cascadePass (workflowId : WorkflowId) : Db :=
  writeEvaluation host workflowId "workflow_advance: cascade ready" "cascade: condition not met"
    (evaluateWorkflow host db workflowId) db

def handleWorkflowAdvance (payload : WorkflowAdvancePayload) : Applied :=
  let workflowId := payload.workflowId
  let result := evaluateWorkflow host db workflowId
  let first := firstPass host db workflowId
  let schedule : Option StateMachineAction := some (.schedule none none)
  if !result.skippedTasks.isEmpty && !result.workflowComplete then
    let cascadeResult := evaluateWorkflow host first workflowId
    ⟨cascadePass host first workflowId,
      .ok (if !cascadeResult.readyTasks.isEmpty || !result.readyTasks.isEmpty then schedule
        else none)⟩
  else ⟨first, .ok (if !result.readyTasks.isEmpty then schedule else none)⟩

def applyEntry : Entry → Applied
  | .taskSubmit payload => handleTaskSubmit host db payload
  | .taskAssign payload => handleTaskAssign host db payload
  | .taskStarted payload => handleTaskStarted host db payload
  | .taskComplete payload => handleTaskComplete host db payload
  | .taskFailed payload => handleTaskFailed host db payload
  | .taskCancel payload => handleTaskCancel host db payload
  | .taskRetry payload => handleTaskRetry host db payload
  | .taskDeadLetter payload => handleTaskDeadLetter host db payload
  | .workflowSubmit payload => handleWorkflowSubmit host db payload.sent
  | .workflowAdvance payload => handleWorkflowAdvance host db payload

end Handlers

-- ---------------------------------------------------------------------------
-- Queries
-- ---------------------------------------------------------------------------

/-- The year of a time, counted from March in eras of 400 years. -/
def Time.year (t : Time) : Int :=
  let days := t / 86400000 + 719468
  let day := days % 146097
  let year := (day - day / 1460 + day / 36524 - day / 146096) / 365
  let dayOfYear := day - (365 * year + year / 4 - year / 100)
  days / 146097 * 400 + year + (if 306 ≤ dayOfYear then 1 else 0)

/-- Times are compared by their texts in this order: a year of more than four
digits or before 0 is written behind a sign, and `+` and `-` come before the digits. -/
def Time.isoOrder (t : Time) : List Int :=
  if 9999 < t.year then [0, 0, t] else if t.year < 0 then [1, -t.year, t] else [2, 0, t]

/-- `ORDER BY priority DESC, created_at ASC`. -/
def TaskRecord.Before (a b : TaskRecord) : Prop :=
  b.priority < a.priority ∨
    (a.priority = b.priority ∧ a.createdAt.isoOrder ≤ b.createdAt.isoOrder)

instance : DecidableRel TaskRecord.Before := fun _ _ => inferInstanceAs (Decidable (_ ∨ _))

def Db.getQueuedTasks (db : Db) (now : Time) : List TaskRecord :=
  (db.tasks.rows.filter fun t =>
    t.state = .queued ∧ ∀ after ∈ t.scheduledAfter, after.isoOrder ≤ now.isoOrder).insertionSort
      TaskRecord.Before

def Db.getTasksOnNode (db : Db) (nodeId : NodeId) : List TaskRecord :=
  (db.tasks.rows.filter fun t =>
    t.assignedNode = some nodeId ∧ (t.state = .assigned ∨ t.state = .running)).insertionSort
      TaskRecord.Before

end ClaudeCluster.Tasks
