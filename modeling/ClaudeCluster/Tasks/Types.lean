import Mathlib.Data.Rat.Defs
import Mathlib.Algebra.Order.Ring.Unbundled.Rat
import ClaudeCluster.Raft.Node

/-!
# Records of the task engine

The interfaces of `plugins/task-engine/types.ts` and the four tables of its
`migrations.ts`. A JSON column keeps the value it is the text of; JSON the
engine only stores and hands on (`spec`, `context`) is kept as that text. A
timestamp is its milliseconds. Rows stand in insertion order, which is the
order of their rowids: nothing deletes one.
-/

namespace ClaudeCluster.Tasks

open Raft (NodeId)

abbrev TaskId := String
abbrev WorkflowId := String
abbrev TaskKey := String
abbrev Json := String
abbrev Time := Int

-- ---------------------------------------------------------------------------
-- Values
-- ---------------------------------------------------------------------------

inductive TaskEngineState
  | queued
  | pending
  | assigned
  | running
  | completed
  | failed
  | cancelled
  | skipped
  | deadLetter
  deriving DecidableEq, Repr

inductive TaskType
  | shell
  | container
  | subagent
  | k8sJob
  | claudeRelay
  deriving DecidableEq, Repr

inductive WorkflowState
  | pending
  | running
  | completed
  | failed
  | cancelled
  deriving DecidableEq, Repr

inductive TaskEventType
  | submitted
  | assigned
  | started
  | completed
  | failed
  | retried
  | cancelled
  | deadLettered
  | skipped
  deriving DecidableEq, Repr

structure TaskConstraints where
  requiresGpu : Option Bool := none
  avoidGaming : Option Bool := none
  minMemoryMb : Option ℚ := none
  minDiskGb : Option ℚ := none
  nodeLabels : Option (List String) := none
  targetNode : Option NodeId := none
  deriving DecidableEq, Repr

/-- A workflow definition is stored as the client sent it, so any field may be
missing. The numbers are doubles, by their values. -/
structure RetryPolicy where
  maxRetries : Option ℚ := none
  backoffMs : Option ℚ := none
  backoffMultiplier : Option ℚ := none
  retryable : Option Bool := none
  deriving DecidableEq, Repr

def DEFAULT_RETRY_POLICY : RetryPolicy :=
  { maxRetries := some 3, backoffMs := some 1000, backoffMultiplier := some 2,
    retryable := some true }

/-- The `result` of a `task_complete`. Readers put a default for a missing field. -/
structure TaskResult where
  exitCode : Option Int := none
  stdout : Option String := none
  stderr : Option String := none
  contextUpdate : Option Json := none
  deriving DecidableEq, Repr

structure WorkflowTaskDef where
  type : TaskType := .shell
  spec : Json := "\x7b\x7d"
  constraints : Option TaskConstraints := none
  retryPolicy : Option RetryPolicy := none
  priority : Option Int := none
  dependsOn : Option (List TaskKey) := none
  condition : Option String := none
  deriving DecidableEq, Repr

/-- `tasks` is an object: its entries in the order of `Object.entries`, one a key. -/
structure WorkflowDefinition where
  name : String
  tasks : List (TaskKey × WorkflowTaskDef)
  keys_nodup : (tasks.map Prod.fst).Nodup := by decide
  deriving DecidableEq

/-- A task definition as a client may send it. Nothing checks that what the
declared type asks for is there; `none` in a list is `null`. -/
structure ClientTaskDef where
  type : Option TaskType := some .shell
  spec : Option Json := some "\x7b\x7d"
  constraints : Option TaskConstraints := none
  retryPolicy : Option RetryPolicy := none
  priority : Option Int := none
  dependsOn : Option (List (Option TaskKey)) := none
  condition : Option String := none
  deriving DecidableEq, Repr

structure ClientDefinition where
  name : Option String
  tasks : List (TaskKey × ClientTaskDef)
  keys_nodup : (tasks.map Prod.fst).Nodup := by decide
  deriving DecidableEq

def WorkflowTaskDef.sent (d : WorkflowTaskDef) : ClientTaskDef where
  type := d.type
  spec := d.spec
  constraints := d.constraints
  retryPolicy := d.retryPolicy
  priority := d.priority
  dependsOn := d.dependsOn.map (·.map some)
  condition := d.condition

def WorkflowDefinition.sent (d : WorkflowDefinition) : ClientDefinition where
  name := d.name
  tasks := d.tasks.map (Prod.map id WorkflowTaskDef.sent)
  keys_nodup := by
    have hkeys : (d.tasks.map (Prod.map id WorkflowTaskDef.sent)).map Prod.fst =
        d.tasks.map Prod.fst := by simp
    exact hkeys ▸ d.keys_nodup

-- ---------------------------------------------------------------------------
-- Tables
-- ---------------------------------------------------------------------------

structure TaskRecord where
  id : TaskId
  workflowId : Option WorkflowId
  taskKey : Option TaskKey
  type : TaskType
  state : TaskEngineState
  priority : Int
  spec : Json
  constraints : Option TaskConstraints
  retryPolicy : Option RetryPolicy
  attempt : Int
  createdAt : Time
  assignedNode : Option NodeId := none
  result : Option TaskResult := none
  error : Option String := none
  scheduledAfter : Option Time := none
  assignedAt : Option Time := none
  startedAt : Option Time := none
  completedAt : Option Time := none
  deadLetteredAt : Option Time := none
  deriving DecidableEq, Repr

structure WorkflowRecord where
  id : WorkflowId
  name : String
  state : WorkflowState
  definition : ClientDefinition
  context : Json
  createdAt : Time
  completedAt : Option Time := none
  deriving DecidableEq

structure TaskDependencyRecord where
  workflowId : WorkflowId
  taskKey : TaskKey
  dependsOnKey : TaskKey
  condition : Option String
  deriving DecidableEq, Repr

/-- A row of `te_task_events`; its `id` counts the rows before it. -/
structure TaskEventRecord where
  taskId : TaskId
  eventType : TaskEventType
  nodeId : NodeId
  detail : Option String
  createdAt : Time
  deriving DecidableEq, Repr

-- ---------------------------------------------------------------------------
-- Payloads
-- ---------------------------------------------------------------------------

structure TaskSubmitPayload where
  taskId : TaskId
  type : TaskType := .shell
  spec : Json := "\x7b\x7d"
  priority : Option Int := none
  constraints : Option TaskConstraints := none
  retryPolicy : Option RetryPolicy := none
  workflowId : Option WorkflowId := none
  taskKey : Option TaskKey := none
  submitterNode : NodeId
  deriving DecidableEq, Repr

structure TaskAssignPayload where
  taskId : TaskId
  nodeId : NodeId
  deriving DecidableEq, Repr

structure TaskStartedPayload where
  taskId : TaskId
  nodeId : NodeId
  deriving DecidableEq, Repr

structure TaskCompletePayload where
  taskId : TaskId
  result : TaskResult
  deriving DecidableEq, Repr

structure TaskFailedPayload where
  taskId : TaskId
  error : String
  nodeId : NodeId
  deriving DecidableEq, Repr

structure TaskCancelPayload where
  taskId : TaskId
  deriving DecidableEq, Repr

structure TaskRetryPayload where
  taskId : TaskId
  attempt : Int
  scheduledAfter : Time
  deriving DecidableEq, Repr

structure TaskDeadLetterPayload where
  taskId : TaskId
  reason : String
  deriving DecidableEq, Repr

structure WorkflowSubmitPayload where
  workflowId : WorkflowId
  definition : WorkflowDefinition
  deriving DecidableEq

structure ClientSubmitPayload where
  workflowId : WorkflowId
  definition : ClientDefinition
  deriving DecidableEq

def WorkflowSubmitPayload.sent (p : WorkflowSubmitPayload) : ClientSubmitPayload :=
  ⟨p.workflowId, p.definition.sent⟩

structure WorkflowAdvancePayload where
  workflowId : WorkflowId
  completedTaskKey : TaskKey := ""
  deriving DecidableEq, Repr

/-- A log entry of the task engine, its payload parsed and of the declared type. -/
inductive Entry
  | taskSubmit (payload : TaskSubmitPayload)
  | taskAssign (payload : TaskAssignPayload)
  | taskStarted (payload : TaskStartedPayload)
  | taskComplete (payload : TaskCompletePayload)
  | taskFailed (payload : TaskFailedPayload)
  | taskCancel (payload : TaskCancelPayload)
  | taskRetry (payload : TaskRetryPayload)
  | taskDeadLetter (payload : TaskDeadLetterPayload)
  | workflowSubmit (payload : WorkflowSubmitPayload)
  | workflowAdvance (payload : WorkflowAdvancePayload)
  deriving DecidableEq

end ClaudeCluster.Tasks
