import ClaudeCluster.Lib.Run
import ClaudeCluster.Tasks.Signalling

/-!
# The task-engine plugin on a cluster

The plugin of `plugins/task-engine/index.ts` on every node, over a replicated
log. A handler runs without interruption from one `await` to the next; what it
still has to do after an `await` is a job. `appendEntry` puts an entry on the
log at once if the node leads and does nothing otherwise, and each node applies
what is committed in its own time. The log is one that Raft keeps: a new leader
has every committed entry, and of the others what some earlier leader had
appended.
-/

namespace ClaudeCluster.Tasks

open Lib (System)
open Raft (NodeId)

-- ---------------------------------------------------------------------------
-- State
-- ---------------------------------------------------------------------------

inductive Proposer
  | submitTask
  | submitWorkflow
  | cancelTask
  | retryDeadLetterTask
  | drainNodeTasks
  | runSchedulingCycle
  | dispatchToNode
  | handleNodeOffline
  | handleStateMachineAction
  /-- Membership, the shared memory and Raft itself. -/
  | elsewhere
  deriving DecidableEq, Repr

structure Item where
  data : Committed
  proposer : Proposer
  deriving DecidableEq

structure Replica where
  db : Db := {}
  /-- How much of the log has gone through `handleEntryCommitted`. -/
  applied : Nat := 0

inductive Stage
  /-- `import('../../grpc/client.js')` -/
  | loading
  /-- The append of `task_started`. -/
  | starting
  /-- The responses of `executeTask`. -/
  | executing
  /-- The append of `task_complete`. -/
  | completing
  deriving DecidableEq, Repr

/-- The rest of a handler that is suspended in an `await`. -/
inductive Job
  /-- `runSchedulingCycle` after the append of a `task_assign`, with what
  `result.success` will be and the tasks of its snapshot still to come. -/
  | cycle (node : NodeId) (taskId : TaskId) (target : NodeId) (success : Bool)
    (rest : List TaskRecord)
  | dispatch (node : NodeId) (taskId : TaskId) (target : NodeId) (stage : Stage)
  /-- `handleDrainNodeTasks`, with the tasks of its snapshot still to come. -/
  | drain (node : NodeId) (rest : List TaskRecord)
  deriving DecidableEq, Repr

def Job.scheduler? : Job → Option NodeId
  | .cycle node .. | .dispatch node .. => some node
  | .drain .. => none

inductive Event
  /-- A scheduling cycle assigns the task, whose row is then in `state`. -/
  | reached (taskId : TaskId) (state : Option TaskEngineState)
  /-- `executeTask` is called for the task. -/
  | executed (taskId : TaskId)
  /-- The leader applies an entry that puts the task into the queue. -/
  | requeued (taskId : TaskId)
  deriving DecidableEq, Repr

structure World where
  members : List NodeId
  replicas : NodeId → Replica
  leader : Option NodeId
  log : List Item
  committed : Nat
  jobs : List Job
  /-- The logs there were at earlier elections. -/
  history : List (List Item)
  trace : List Event

-- ---------------------------------------------------------------------------
-- Actions
-- ---------------------------------------------------------------------------

/-- The arguments of `submit_task`; `spec` is what its type-specific fields come to. -/
structure SubmitTaskArgs where
  type : TaskType := .shell
  spec : Json := "\x7b\x7d"
  priority : Option Int := none
  requiresGpu : Option Bool := none
  avoidGamingNodes : Option Bool := none
  targetNode : Option NodeId := none
  retryable : Option Bool := none
  maxRetries : Option ℚ := none

def SubmitTaskArgs.payload (args : SubmitTaskArgs) (taskId : TaskId) (nodeId : NodeId) :
    TaskSubmitPayload where
  taskId
  type := args.type
  spec := args.spec
  priority := some (args.priority.getD 0)
  constraints :=
    if args.requiresGpu = some true ∨ args.avoidGamingNodes = some true ∨
        (truthy args.targetNode).isSome then
      some
        { requiresGpu := args.requiresGpu, avoidGaming := args.avoidGamingNodes,
          targetNode := args.targetNode }
    else none
  retryPolicy :=
    if args.retryable.isSome ∨ args.maxRetries.isSome then
      some
        { retryable := some (args.retryable.getD true), maxRetries := some (args.maxRetries.getD 3),
          backoffMs := some 1000, backoffMultiplier := some 2 }
    else none
  submitterNode := nodeId

/-- Tool calls, timers, events and the ends of awaits. What the code asks the
outside for stands in the action: ids, clocks, the answers of `pickNode` and of
`executeTask`. -/
inductive Action
  | submitTask (node : NodeId) (taskId : TaskId) (args : SubmitTaskArgs)
  | submitWorkflow (node : NodeId) (workflowId : WorkflowId) (definition : WorkflowDefinition)
  | cancelTask (node : NodeId) (taskId : TaskId)
  | retryDeadLetterTask (node : NodeId) (taskId : TaskId) (now : Time)
  | drainNodeTasks (node : NodeId) (target : NodeId) (now : Time)
  | drainResume (node : NodeId) (rest : List TaskRecord) (now : Time)
  | nodeOffline (node : NodeId) (target : NodeId) (now : Time)
  | runSchedulingCycle (node : NodeId) (now : Time) (pickNode : TaskRecord → Option NodeId)
  | cycleResume (node : NodeId) (taskId : TaskId) (target : NodeId) (success : Bool)
    (rest : List TaskRecord) (pickNode : TaskRecord → Option NodeId)
  | dispatchStart (node : NodeId) (taskId : TaskId) (target : NodeId)
  | dispatchExecute (node : NodeId) (taskId : TaskId) (target : NodeId)
  | dispatchComplete (node : NodeId) (taskId : TaskId) (target : NodeId) (result : TaskResult)
  | dispatchEnd (node : NodeId) (taskId : TaskId) (target : NodeId)
  /-- The `catch` of `dispatchToNode`, from wherever in the `try` it was. -/
  | dispatchError (node : NodeId) (taskId : TaskId) (target : NodeId) (stage : Stage)
    (error : String)
  /-- An entry of another part of the program. -/
  | appendElsewhere (node : NodeId)
  | commit (index : Nat)
  | apply (node : NodeId) (host : Host)
  | stepDown
  | elect (node : NodeId) (log : List Item)

def Action.node? : Action → Option NodeId
  | .submitTask node .. | .submitWorkflow node .. | .cancelTask node .. |
    .retryDeadLetterTask node .. | .drainNodeTasks node .. | .drainResume node .. |
    .nodeOffline node .. | .runSchedulingCycle node .. | .cycleResume node .. |
    .dispatchStart node .. | .dispatchExecute node .. | .dispatchComplete node .. |
    .dispatchEnd node .. | .dispatchError node .. | .appendElsewhere node | .apply node .. =>
    some node
  | .commit _ | .stepDown | .elect .. => none

/-- The loop of `runSchedulingCycle` up to its next append: the tasks without a
suitable node are passed by. -/
def nextAssignment (pickNode : TaskRecord → Option NodeId) :
    List TaskRecord → Option (TaskId × NodeId × List TaskRecord)
  | [] => none
  | task :: rest =>
    match pickNode task with
    | none => nextAssignment pickNode rest
    | some node => some (task.id, node, rest)

def Committed.retries? : Committed → Option TaskId
  | .parsed (.taskRetry p) => some p.taskId
  | _ => none

def requeue (now : Time) (task : TaskRecord) : Entry := .taskRetry ⟨task.id, task.attempt, now⟩

namespace World

variable (w : World)

def db (node : NodeId) : Db := (w.replicas node).db

def leads (node : NodeId) : Bool := w.leader = some node

def next (node : NodeId) : Option Item := w.log[(w.replicas node).applied]?

def applyNext (node : NodeId) (host : Host) : Db × Option Entry :=
  match w.next node with
  | some item => handleEntryCommitted host (w.leads node) (w.db node) item.data
  | none => (w.db node, none)

-- ---------------------------------------------------------------------------
-- Steps
-- ---------------------------------------------------------------------------

def Enabled : Action → Prop
  | .drainResume node rest _ => .drain node rest ∈ w.jobs
  | .cycleResume node taskId target success rest _ =>
    .cycle node taskId target success rest ∈ w.jobs
  | .dispatchStart node taskId target => .dispatch node taskId target .loading ∈ w.jobs
  | .dispatchExecute node taskId target => .dispatch node taskId target .starting ∈ w.jobs
  | .dispatchComplete node taskId target _ => .dispatch node taskId target .executing ∈ w.jobs
  | .dispatchEnd node taskId target => .dispatch node taskId target .completing ∈ w.jobs
  | .dispatchError node taskId target stage _ => .dispatch node taskId target stage ∈ w.jobs
  | .commit index => w.committed ≤ index ∧ index ≤ w.log.length
  | .apply node host => (w.replicas node).applied < w.committed ∧ host.nodeId = node
  | .elect _ log => (∃ l ∈ w.log :: w.history, log <+: l) ∧ w.log.take w.committed <+: log
  | _ => True

instance : DecidablePred w.Enabled
  | .drainResume .. | .cycleResume .. | .dispatchStart .. | .dispatchExecute .. |
    .dispatchComplete .. | .dispatchEnd .. | .dispatchError .. =>
    inferInstanceAs (Decidable (_ ∈ w.jobs))
  | .commit _ | .apply .. => inferInstanceAs (Decidable (_ ∧ _))
  | .elect .. => inferInstanceAs (Decidable ((∃ l ∈ w.log :: w.history, _) ∧ _))
  | .submitTask .. | .submitWorkflow .. | .cancelTask .. | .retryDeadLetterTask .. |
    .drainNodeTasks .. | .nodeOffline .. | .runSchedulingCycle .. | .appendElsewhere _ |
    .stepDown => .isTrue trivial

def proposes : Action → List Item
  | .submitTask node taskId args =>
    [⟨.parsed (.taskSubmit (args.payload taskId node)), .submitTask⟩]
  | .submitWorkflow _ workflowId definition =>
    [⟨.parsed (.workflowSubmit ⟨workflowId, definition⟩), .submitWorkflow⟩]
  | .cancelTask node taskId =>
    match (w.db node).getTask taskId with
    | none => []
    | some task =>
      if task.state = .completed ∨ task.state = .cancelled ∨ task.state = .deadLetter then []
      else [⟨.parsed (.taskCancel ⟨taskId⟩), .cancelTask⟩]
  | .retryDeadLetterTask node taskId now =>
    match (w.db node).getTask taskId with
    | none => []
    | some task =>
      if task.state ≠ .deadLetter then []
      else [⟨.parsed (.taskRetry ⟨taskId, 0, now⟩), .retryDeadLetterTask⟩]
  | .drainNodeTasks node target now =>
    (((w.db node).getTasksOnNode target).take 1).map
      fun task => ⟨.parsed (requeue now task), .drainNodeTasks⟩
  | .drainResume _ rest now =>
    (rest.take 1).map fun task => ⟨.parsed (requeue now task), .drainNodeTasks⟩
  | .nodeOffline node target now =>
    if w.leads node then
      ((w.db node).getTasksOnNode target).map
        fun task => ⟨.parsed (requeue now task), .handleNodeOffline⟩
    else []
  | .runSchedulingCycle node now pickNode =>
    if w.leads node then
      (nextAssignment pickNode ((w.db node).getQueuedTasks now)).toList.map
        fun (taskId, target, _) => ⟨.parsed (.taskAssign ⟨taskId, target⟩), .runSchedulingCycle⟩
    else []
  | .cycleResume _ _ _ _ rest pickNode =>
    (nextAssignment pickNode rest).toList.map
      fun (taskId, target, _) => ⟨.parsed (.taskAssign ⟨taskId, target⟩), .runSchedulingCycle⟩
  | .dispatchStart _ taskId target => [⟨.parsed (.taskStarted ⟨taskId, target⟩), .dispatchToNode⟩]
  | .dispatchComplete _ taskId _ result =>
    [⟨.parsed (.taskComplete ⟨taskId, result⟩), .dispatchToNode⟩]
  | .dispatchError _ taskId target _ error =>
    [⟨.parsed (.taskFailed ⟨taskId, error, target⟩), .dispatchToNode⟩]
  | .appendElsewhere _ => [⟨.foreign, .elsewhere⟩]
  | .apply node host =>
    (w.applyNext node host).2.toList.map fun e => ⟨.parsed e, .handleStateMachineAction⟩
  | .dispatchExecute .. | .dispatchEnd .. | .commit _ | .stepDown | .elect .. => []

def logAfter (a : Action) : List Item :=
  match a with
  | .elect _ log => log
  | _ => if a.node?.any w.leads then w.log ++ w.proposes a else w.log

def cycleJobs (node : NodeId) (pickNode : TaskRecord → Option NodeId) (tasks : List TaskRecord) :
    List Job :=
  (nextAssignment pickNode tasks).toList.map
    fun (taskId, target, rest) => .cycle node taskId target (w.leads node) rest

def drainJobs (node : NodeId) : List TaskRecord → List Job
  | [] => []
  | _ :: rest => [.drain node rest]

/-- `dispatchToNode` up to its first `await`. -/
def dispatchJobs (node : NodeId) (taskId : TaskId) (target : NodeId) : List Job :=
  match (w.db node).getTask taskId with
  | none => []
  | some _ => [.dispatch node taskId target .loading]

def jobsAfter : Action → List Job
  | .drainNodeTasks node target _ =>
    w.jobs ++ drainJobs node ((w.db node).getTasksOnNode target)
  | .drainResume node rest _ => w.jobs.erase (.drain node rest) ++ drainJobs node rest
  | .runSchedulingCycle node now pickNode =>
    if w.leads node then w.jobs ++ w.cycleJobs node pickNode ((w.db node).getQueuedTasks now)
    else w.jobs
  | .cycleResume node taskId target success rest pickNode =>
    w.jobs.erase (.cycle node taskId target success rest) ++
      (if success then w.dispatchJobs node taskId target else []) ++
        w.cycleJobs node pickNode rest
  | .dispatchStart node taskId target =>
    w.jobs.erase (.dispatch node taskId target .loading) ++
      [.dispatch node taskId target .starting]
  | .dispatchExecute node taskId target =>
    w.jobs.erase (.dispatch node taskId target .starting) ++
      [.dispatch node taskId target .executing]
  | .dispatchComplete node taskId target _ =>
    w.jobs.erase (.dispatch node taskId target .executing) ++
      [.dispatch node taskId target .completing]
  | .dispatchEnd node taskId target => w.jobs.erase (.dispatch node taskId target .completing)
  | .dispatchError node taskId target stage _ => w.jobs.erase (.dispatch node taskId target stage)
  | _ => w.jobs

def replicasAfter : Action → NodeId → Replica
  | .apply node host => fun n =>
    if n = node then ⟨(w.applyNext node host).1, (w.replicas node).applied + 1⟩ else w.replicas n
  | _ => w.replicas

/-- The tasks an entry puts into the queue: a `task_retry` does, even one that
is there, and so does whatever else brings a row to it. -/
def requeuedBy (c : Committed) (db db' : Db) : List TaskId :=
  (db'.tasks.rows.filter fun t =>
    t.state = .queued ∧
      (c.retries? = some t.id ∨ (db.getTask t.id).all (·.state ≠ .queued))).map (·.id)

def reached (node : NodeId) (pickNode : TaskRecord → Option NodeId) (tasks : List TaskRecord) :
    List Event :=
  if w.leads node then
    (nextAssignment pickNode tasks).toList.map
      fun (taskId, _) => .reached taskId (((w.db node).getTask taskId).map (·.state))
  else []

def events : Action → List Event
  | .runSchedulingCycle node now pickNode => w.reached node pickNode ((w.db node).getQueuedTasks now)
  | .cycleResume node _ _ _ rest pickNode => w.reached node pickNode rest
  | .dispatchExecute _ taskId _ => [.executed taskId]
  | .apply node host =>
    match w.next node with
    | some item =>
      if w.leads node then
        (requeuedBy item.data (w.db node) (w.applyNext node host).1).map .requeued
      else []
    | none => []
  | _ => []

def committedAfter : Action → Nat
  | .commit index => index
  | _ => w.committed

def leaderAfter : Action → Option NodeId
  | .stepDown => none
  | .elect node _ => some node
  | _ => w.leader

def historyAfter : Action → List (List Item)
  | .elect .. => w.log :: w.history
  | _ => w.history

def step (a : Action) : Option World :=
  if w.Enabled a then
    some
      { members := w.members, replicas := w.replicasAfter a, leader := w.leaderAfter a,
        log := w.logAfter a, committed := w.committedAfter a, jobs := w.jobsAfter a,
        history := w.historyAfter a, trace := w.trace ++ w.events a }
  else none

/-- Nothing has happened yet; anyone may lead. -/
structure Starts : Prop where
  replicas : ∀ node, w.replicas node = {}
  log : w.log = []
  committed : w.committed = 0
  jobs : w.jobs = []
  history : w.history = []
  trace : w.trace = []

def start (members : List NodeId) (leader : Option NodeId) : World where
  members
  replicas _ := {}
  leader
  log := []
  committed := 0
  jobs := []
  history := []
  trace := []

theorem starts_start (members : List NodeId) (leader : Option NodeId) :
    (start members leader).Starts :=
  ⟨fun _ => rfl, rfl, rfl, rfl, rfl, rfl⟩

end World

/-- What a node sees at time zero that draws no ids and evaluates no conditions. -/
def hostOf (node : NodeId) : Host := ⟨node, 0, fun _ => "", fun _ _ _ => false, Lib.Binary64.nearestPower⟩

def cluster : System World Action where
  init := World.Starts
  step := World.step

end ClaudeCluster.Tasks
