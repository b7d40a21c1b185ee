import ClaudeCluster.Lib.Arithmetic
import ClaudeCluster.Lib.Table
import ClaudeCluster.Tasks.Types

/-!
# The workflow engine

The database of the task engine and `WorkflowEngine.evaluateWorkflow`
(`workflow-engine.ts`, `condition-eval.ts`): which pending tasks of a workflow
are ready, which are skipped, and whether the workflow is over. The expression
of a condition runs in `node:vm`, which is not part of the model: a host
brings its own `runInContext`.
-/

namespace ClaudeCluster.Tasks

open Lib (Table)
open Raft (NodeId)

def TaskDependencyRecord.key (d : TaskDependencyRecord) : WorkflowId × TaskKey × TaskKey :=
  (d.workflowId, d.taskKey, d.dependsOnKey)

structure Db where
  tasks : Table TaskRecord.id := .empty
  workflows : Table WorkflowRecord.id := .empty
  dependencies : Table TaskDependencyRecord.key := .empty
  events : List TaskEventRecord := []
  deriving DecidableEq

structure ParentResult where
  exitCode : Int
  stdout : String
  stderr : String
  state : TaskEngineState
  deriving DecidableEq, Repr

/-- The properties of an object in the order they were first set. -/
abbrev ParentResults := List (TaskKey × ParentResult)

/-- What a node looks at while it applies an entry, besides the entry and its
database: its id, its clock, the ids `randomUUID` hands out one after another,
`vm.runInContext` (a throw and a timeout count as false), and its `Math.pow`
where the standard does not fix the result. -/
structure Host where
  nodeId : NodeId
  now : Time
  randomUUID : Nat → TaskId
  runInContext : String → ParentResults → Json → Bool
  approximatePow : ℚ → ℤ → Lib.Binary64.Number

/-- A nullable string that JavaScript counts as true. -/
def truthy (s : Option String) : Option String := s.filter (· ≠ "")

-- ---------------------------------------------------------------------------
-- condition-eval.ts
-- ---------------------------------------------------------------------------

def isTrimmed (c : Char) : Bool :=
  c.toNat ∈ [0x09, 0x0A, 0x0B, 0x0C, 0x0D, 0x20, 0xA0, 0x1680, 0x2028, 0x2029, 0x202F, 0x205F,
    0x3000, 0xFEFF] || (0x2000 ≤ c.toNat && c.toNat ≤ 0x200A)

def evaluateCondition (host : Host) (condition : String) (parentResults : ParentResults)
    (workflowContext : Json) : Bool :=
  condition.toList.all isTrimmed || host.runInContext condition parentResults workflowContext

-- ---------------------------------------------------------------------------
-- workflow-engine.ts
-- ---------------------------------------------------------------------------

def TaskEngineState.isTerminal : TaskEngineState → Bool
  | .completed | .failed | .cancelled | .skipped | .deadLetter => true
  | .queued | .pending | .assigned | .running => false

/-- `taskByKey`: a later row of a key replaces an earlier one. -/
def taskByKey (tasks : List TaskRecord) (key : TaskKey) : Option TaskRecord :=
  (tasks.filter fun t => truthy t.taskKey = some key).getLast?

def parentResult (t : TaskRecord) : ParentResult :=
  match t.result with
  | some r => ⟨r.exitCode.getD (-1), r.stdout.getD "", r.stderr.getD "", t.state⟩
  | none => ⟨-1, "", "", t.state⟩

def setProperty (obj : ParentResults) (key : TaskKey) (value : ParentResult) : ParentResults :=
  if key ∈ obj.map Prod.fst then obj.map fun p => if p.1 = key then (key, value) else p
  else obj ++ [(key, value)]

def parentResults (tasks : List TaskRecord) : ParentResults :=
  tasks.foldl (fun obj t =>
    match truthy t.taskKey with
    | some key => setProperty obj key (parentResult t)
    | none => obj) []

structure WorkflowView where
  tasks : List TaskRecord
  deps : List TaskDependencyRecord
  context : Json

def Db.workflowView (db : Db) (workflowId : WorkflowId) : WorkflowView where
  tasks := db.tasks.rows.filter (·.workflowId = some workflowId)
  deps := db.dependencies.rows.filter (·.workflowId = workflowId)
  context := ((db.workflows.find? workflowId).map (·.context)).getD "\x7b\x7d"

namespace WorkflowView

variable (host : Host) (v : WorkflowView)

def taskDeps (key : TaskKey) : List TaskDependencyRecord := v.deps.filter (·.taskKey = key)

def depIn (p : TaskEngineState → Bool) (dep : TaskDependencyRecord) : Bool :=
  (taskByKey v.tasks dep.dependsOnKey).any (p ·.state)

def allDepsTerminal (key : TaskKey) : Bool := (v.taskDeps key).all (v.depIn TaskEngineState.isTerminal)

def edgePasses (dep : TaskDependencyRecord) : Bool :=
  match truthy dep.condition with
  | none => v.depIn (· = .completed) dep
  | some condition => evaluateCondition host condition (parentResults v.tasks) v.context

def shouldRun (key : TaskKey) : Bool :=
  if (v.taskDeps key).any fun d => (truthy d.condition).isSome then
    (v.taskDeps key).all (v.edgePasses host)
  else (v.taskDeps key).all (v.depIn (· = .completed))

def evaluatedKey (t : TaskRecord) : Option TaskKey :=
  if t.state = .pending then truthy t.taskKey else none

/-- What the loop does with a task: `none` when it passes it by, else whether
it runs. -/
def verdict (t : TaskRecord) : Option Bool :=
  (evaluatedKey t).bind fun key =>
    if v.allDepsTerminal key then some (v.shouldRun host key) else none

end WorkflowView

structure WorkflowEvalResult where
  readyTasks : List TaskId
  skippedTasks : List TaskId
  workflowComplete : Bool
  workflowState : WorkflowState
  deriving DecidableEq, Repr

def evaluateWorkflow (host : Host) (db : Db) (workflowId : WorkflowId) : WorkflowEvalResult :=
  let v := db.workflowView workflowId
  let allTerminal := v.tasks.all (·.state.isTerminal)
  let anyFailed := v.tasks.any fun t => t.state = .failed || t.state = .deadLetter
  { readyTasks := (v.tasks.filter (v.verdict host · = some true)).map (·.id)
    skippedTasks := (v.tasks.filter (v.verdict host · = some false)).map (·.id)
    workflowComplete := allTerminal
    workflowState :=
      if allTerminal then if anyFailed then .failed else .completed else .running }

end ClaudeCluster.Tasks
