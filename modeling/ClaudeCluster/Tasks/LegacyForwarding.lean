import ClaudeCluster.Lib.Binary64
import ClaudeCluster.Tasks.Execution
import ClaudeCluster.Tasks.LegacyScheduler

/-!
# A submission forwarded to the leader

A node that does not lead sends what is submitted to it on to the leader:
`forwardToLeader` writes the message, the `SubmitTask` handler makes a
`TaskSpec` of it again, and the leader's own `submit` goes on from there.

Neither mapping has all the fields of `TaskSpec` (`specToProto`, which writes
the message for the node that executes the task, has them). What is queued is
what was submitted just where everything else is missing and nothing that is
sent is changed by being sent (`forwarded_as_local_iff`).
-/

namespace ClaudeCluster.Tasks.Legacy.Forwarding

open Lib (Literal)
open Lib.Binary64 (Number)

-- ---------------------------------------------------------------------------
-- Specs
-- ---------------------------------------------------------------------------

abbrev StringMap := List (String × String)

@[ext] structure ShellTaskSpec where
  command : String
  workingDirectory : Option String := none
  sandboxed : Option Bool := none

structure Mount where
  hostPath : String
  containerPath : String
  readOnly : Option Bool := none

@[ext] structure ContainerTaskSpec where
  image : String
  command : Option (List String) := none
  args : Option (List String) := none
  labels : Option StringMap := none
  mounts : Option (List Mount) := none

structure SubagentTaskSpec where
  prompt : String
  model : Option String := none
  tools : Option (List String) := none
  contextSummary : Option String := none
  maxTurns : Option Number := none

structure ResourceRequirements where
  cpuCores : Option Number := none
  memoryBytes : Option Number := none
  requiresGpu : Option Bool := none
  gpuMemoryBytes : Option Number := none

structure K8sJobTaskSpec where
  clusterContext : String
  «namespace» : Option String := none
  image : String
  command : Option (List String) := none
  labels : Option StringMap := none
  resources : Option ResourceRequirements := none

structure ClaudeRelayTaskSpec where
  targetSessionId : String
  prompt : String
  fullContext : Option String := none
  awaitResponse : Option Bool := none

@[ext] structure TaskConstraints where
  allowedNodes : Option (List String) := none
  excludedNodes : Option (List String) := none
  preferLocal : Option Bool := none
  avoidGamingNodes : Option Bool := none

@[ext] structure FullSpec where
  taskId : String
  type : String
  submitterNode : String
  submitterSession : Option String := none
  shell : Option ShellTaskSpec := none
  container : Option ContainerTaskSpec := none
  subagent : Option SubagentTaskSpec := none
  k8sJob : Option K8sJobTaskSpec := none
  claudeRelay : Option ClaudeRelayTaskSpec := none
  requirements : Option ResourceRequirements := none
  constraints : Option TaskConstraints := none
  priority : Option Number := none
  timeoutMs : Option Number := none
  environment : Option StringMap := none
  targetNodes : Option (List String) := none

/-- What `validateTask` looks at. -/
def FullSpec.looked (spec : FullSpec) : TaskSpec where
  taskId := spec.taskId
  type := spec.type
  shellCommand := spec.shell.map ShellTaskSpec.command
  containerImage := spec.container.map ContainerTaskSpec.image
  subagentPrompt := spec.subagent.map SubagentTaskSpec.prompt
  k8sImage := spec.k8sJob.map K8sJobTaskSpec.image
  k8sContext := spec.k8sJob.map K8sJobTaskSpec.clusterContext
  relaySession := spec.claudeRelay.map ClaudeRelayTaskSpec.targetSessionId
  relayPrompt := spec.claudeRelay.map ClaudeRelayTaskSpec.prompt

def validateTask (spec : FullSpec) : Except String Unit := Legacy.validateTask spec.looked

-- ---------------------------------------------------------------------------
-- Numbers as text
-- ---------------------------------------------------------------------------

def numberText (n : Number) : String :=
  match Lib.Binary64.print n with
  | some l => String.ofList l.text
  | none =>
    match n with
    | .infinite true => "-Infinity"
    | .infinite false => "Infinity"
    | _ => "NaN"

/-- `parseInt(text)` of the text of a number: a sign and the digits in front. -/
def parseInt (text : String) : Number :=
  let (negative, rest) := Literal.scanSign text.toList
  match Literal.digits rest with
  | none => .nan
  | some (ds, _) => Lib.Binary64.read { negative := negative, whole := ds }

-- ---------------------------------------------------------------------------
-- The message
-- ---------------------------------------------------------------------------

structure ShellTask where
  command : String
  workingDirectory : Option String
  sandboxed : Option Bool

structure ContainerTask where
  image : String
  command : Option (List String)
  args : Option (List String)

structure ConstraintsMessage where
  allowedNodes : Option (List String)
  excludedNodes : Option (List String)
  preferLocal : Option Bool
  avoidGamingNodes : Option Bool

/-- The fields of the `TaskSpec` message that one of the two mappings has. -/
structure SpecMessage where
  taskId : String
  type : String
  submitterNode : String
  submitterSession : Option String
  shell : Option ShellTask
  container : Option ContainerTask
  constraints : Option ConstraintsMessage
  priority : Option Number
  timeoutMs : Option String

/-- What the receiver finds in the place of a field that was not set. -/
structure Unset where
  string : Option String := none
  strings : Option (List String) := none
  bool : Option Bool := none
  int32 : Option Number := none
  int64 : Option String := none

/-- With `defaults: true` and `longs: String`, as both loaders have it. -/
def Unset.defaults : Unset where
  string := some ""
  strings := some []
  bool := some false
  int32 := some (Lib.Binary64.read Literal.zero)
  int64 := some "0"

def SpecMessage.delivered (unset : Unset) (m : SpecMessage) : SpecMessage :=
  { m with
    submitterSession := m.submitterSession.or unset.string
    shell := m.shell.map fun shell =>
      { shell with
        workingDirectory := shell.workingDirectory.or unset.string
        sandboxed := shell.sandboxed.or unset.bool }
    container := m.container.map fun container =>
      { container with
        command := container.command.or unset.strings
        args := container.args.or unset.strings }
    constraints := m.constraints.map fun constraints =>
      { allowedNodes := constraints.allowedNodes.or unset.strings
        excludedNodes := constraints.excludedNodes.or unset.strings
        preferLocal := constraints.preferLocal.or unset.bool
        avoidGamingNodes := constraints.avoidGamingNodes.or unset.bool }
    priority := m.priority.or unset.int32
    timeoutMs := m.timeoutMs.or unset.int64 }

/-- The `spec` of the request in `forwardToLeader`. -/
def forwardedSpec (spec : FullSpec) : SpecMessage where
  taskId := spec.taskId
  type := "TASK_TYPE_" ++ String.ofList (spec.type.toList.map Char.toUpper)
  submitterNode := spec.submitterNode
  submitterSession := spec.submitterSession
  shell := spec.shell.map fun shell =>
    { command := shell.command
      workingDirectory := shell.workingDirectory
      sandboxed := shell.sandboxed }
  container := spec.container.map fun container =>
    { image := container.image
      command := container.command
      args := container.args }
  constraints := spec.constraints.map fun constraints =>
    { allowedNodes := constraints.allowedNodes
      excludedNodes := constraints.excludedNodes
      preferLocal := constraints.preferLocal
      avoidGamingNodes := constraints.avoidGamingNodes }
  priority := spec.priority
  timeoutMs := spec.timeoutMs.map numberText

/-- `spec.timeout_ms ? parseInt(spec.timeout_ms) : undefined` -/
def readTimeout (timeoutMs : Option String) : Option Number :=
  match timeoutMs with
  | none => none
  | some text => if text = "" then none else some (parseInt text)

/-- The argument of `scheduler.submit` in `SubmitTask`. -/
def submittedSpec (m : SpecMessage) : FullSpec where
  taskId := m.taskId
  type := decodeType m.type
  submitterNode := m.submitterNode
  submitterSession := m.submitterSession
  shell := m.shell.map fun shell =>
    { command := shell.command
      workingDirectory := shell.workingDirectory
      sandboxed := shell.sandboxed }
  container := m.container.map fun container =>
    { image := container.image
      command := container.command
      args := container.args }
  constraints := m.constraints.map fun constraints =>
    { allowedNodes := constraints.allowedNodes
      excludedNodes := constraints.excludedNodes
      preferLocal := constraints.preferLocal
      avoidGamingNodes := constraints.avoidGamingNodes }
  priority := m.priority
  timeoutMs := readTimeout m.timeoutMs

-- ---------------------------------------------------------------------------
-- submit
-- ---------------------------------------------------------------------------

structure Situation where
  isLeader : Bool
  leaderAddress : Option String
  selfAddress : String
  queueFull : Bool
  appendSucceeds : Bool

inductive Submitted
  | rejected (reason : String)
  | queued (spec : FullSpec)
  | forwarded (leaderAddress : String) (message : SpecMessage)

def forwardToLeader (s : Situation) (spec : FullSpec) : Submitted :=
  match s.leaderAddress with
  | none => .rejected "No leader available"
  | some leaderAddress =>
    if leaderAddress = "" then .rejected "No leader available"
    else if leaderAddress = s.selfAddress then
      .rejected "Cluster leader not available (self-reference)"
    else .forwarded leaderAddress (forwardedSpec spec)

def submit (s : Situation) (spec : FullSpec) : Submitted :=
  match validateTask spec with
  | .error reason => .rejected reason
  | .ok () =>
    if !s.isLeader then forwardToLeader s spec
    else if s.queueFull then .rejected "Queue full"
    else if s.appendSucceeds then .queued spec
    else .rejected "Failed to replicate task"

def received (unset : Unset) (spec : FullSpec) : FullSpec :=
  submittedSpec ((forwardedSpec spec).delivered unset)

/-- Whatever the leader would do with the spec, it does when a follower that knows the
leader's address is given it. -/
def ForwardedAsLocal (unset : Unset) (spec : FullSpec) : Prop :=
  ∀ follower leader : Situation, ∀ leaderAddress, follower.isLeader = false →
    follower.leaderAddress = some leaderAddress → leaderAddress ≠ "" →
    leaderAddress ≠ follower.selfAddress → leader.isLeader = true →
    ∃ message, submit follower spec = .forwarded leaderAddress message ∧
      submit leader (submittedSpec (message.delivered unset)) = submit leader spec

/-- Nothing is set that one of the mappings lacks, what is not set and sent all the same
arrives as not set, and the timeout is read from its text as it was. -/
structure CarriedWhole (unset : Unset) (spec : FullSpec) : Prop where
  session : spec.submitterSession = none → unset.string = none
  shell : ∀ shell, spec.shell = some shell →
    (shell.workingDirectory = none → unset.string = none) ∧
    (shell.sandboxed = none → unset.bool = none)
  container : ∀ container, spec.container = some container →
    (container.command = none → unset.strings = none) ∧
    (container.args = none → unset.strings = none) ∧
    container.labels = none ∧ container.mounts = none
  subagent : spec.subagent = none
  k8sJob : spec.k8sJob = none
  claudeRelay : spec.claudeRelay = none
  requirements : spec.requirements = none
  constraints : ∀ constraints, spec.constraints = some constraints →
    (constraints.allowedNodes = none → unset.strings = none) ∧
    (constraints.excludedNodes = none → unset.strings = none) ∧
    (constraints.preferLocal = none → unset.bool = none) ∧
    (constraints.avoidGamingNodes = none → unset.bool = none)
  priority : spec.priority = none → unset.int32 = none
  timeoutUnset : spec.timeoutMs = none → unset.int64.getD "" = ""
  timeoutText : ∀ n, spec.timeoutMs = some n → parseInt (numberText n) = n
  environment : spec.environment = none
  targetNodes : spec.targetNodes = none

-- ---------------------------------------------------------------------------
-- Field by field
-- ---------------------------------------------------------------------------

section
variable {unset : Unset} {spec : FullSpec}

theorem or_eq_self_iff {α : Type} {a b : Option α} : a.or b = a ↔ (a = none → b = none) := by
  cases a <;> simp

theorem map_eq_self_iff {α : Type} {o : Option α} {f : α → α} :
    o.map f = o ↔ ∀ a, o = some a → f a = a := by
  cases o <;> simp

theorem numberText_ne_empty (n : Number) : numberText n ≠ "" := by
  unfold numberText
  split
  case h_1 l hprint =>
    have hwhole := (Lib.Binary64.print_wellFormed hprint).whole_ne_nil
    rw [Ne, ← String.toList_inj, String.toList_ofList]
    simp [Literal.text, hwhole]
  case h_2 => split <;> decide

theorem readTimeout_iff (timeoutMs : Option Number) :
    readTimeout ((timeoutMs.map numberText).or unset.int64) = timeoutMs ↔
      (timeoutMs = none → unset.int64.getD "" = "") ∧
        ∀ n, timeoutMs = some n → parseInt (numberText n) = n := by
  cases timeoutMs with
  | none => cases hunset : unset.int64 <;> simp [readTimeout]
  | some n => simp [readTimeout, numberText_ne_empty]

theorem decodeType_of_valid (h : validateTask spec = .ok ()) :
    decodeType ("TASK_TYPE_" ++ String.ofList (spec.type.toList.map Char.toUpper)) =
      spec.type := by
  have htype : spec.type = "shell" ∨ spec.type = "container" ∨ spec.type = "subagent" ∨
      spec.type = "k8s_job" ∨ spec.type = "claude_relay" := by
    by_contra hnone
    simp only [not_or] at hnone
    obtain ⟨h1, h2, h3, h4, h5⟩ := hnone
    simp only [validateTask, Legacy.validateTask, FullSpec.looked, h1, h2, h3, h4, h5,
      if_false] at h
    split at h
    · cases h
    · split at h <;> cases h
  obtain h | h | h | h | h := htype <;> rw [h] <;> decide

theorem received_names :
    (received unset spec).taskId = spec.taskId ∧
      (received unset spec).submitterNode = spec.submitterNode := by
  unfold received submittedSpec SpecMessage.delivered forwardedSpec
  exact ⟨rfl, rfl⟩

theorem received_type :
    (received unset spec).type =
      decodeType ("TASK_TYPE_" ++ String.ofList (spec.type.toList.map Char.toUpper)) := by
  unfold received submittedSpec SpecMessage.delivered forwardedSpec
  rfl

theorem received_timeoutMs :
    (received unset spec).timeoutMs =
      readTimeout ((spec.timeoutMs.map numberText).or unset.int64) := by
  unfold received submittedSpec SpecMessage.delivered forwardedSpec
  rfl

theorem received_shell_iff :
    (received unset spec).shell = spec.shell ↔ ∀ shell, spec.shell = some shell →
      (shell.workingDirectory = none → unset.string = none) ∧
      (shell.sandboxed = none → unset.bool = none) := by
  have hshell : (received unset spec).shell = spec.shell.map fun shell =>
      { shell with
        workingDirectory := shell.workingDirectory.or unset.string
        sandboxed := shell.sandboxed.or unset.bool } := by
    simp [received, submittedSpec, SpecMessage.delivered, forwardedSpec, Function.comp_def]
  simp only [hshell, map_eq_self_iff, ShellTaskSpec.ext_iff, or_eq_self_iff, true_and]

theorem received_container_iff :
    (received unset spec).container = spec.container ↔ ∀ container,
      spec.container = some container →
        (container.command = none → unset.strings = none) ∧
        (container.args = none → unset.strings = none) ∧
        container.labels = none ∧ container.mounts = none := by
  have hcontainer : (received unset spec).container = spec.container.map fun container =>
      { image := container.image
        command := container.command.or unset.strings
        args := container.args.or unset.strings } := by
    simp [received, submittedSpec, SpecMessage.delivered, forwardedSpec, Function.comp_def]
  simp only [hcontainer, map_eq_self_iff, ContainerTaskSpec.ext_iff, or_eq_self_iff, true_and,
    eq_comm (a := none)]

theorem received_constraints_iff :
    (received unset spec).constraints = spec.constraints ↔ ∀ constraints,
      spec.constraints = some constraints →
        (constraints.allowedNodes = none → unset.strings = none) ∧
        (constraints.excludedNodes = none → unset.strings = none) ∧
        (constraints.preferLocal = none → unset.bool = none) ∧
        (constraints.avoidGamingNodes = none → unset.bool = none) := by
  have hconstraints : (received unset spec).constraints = spec.constraints.map fun constraints =>
      { allowedNodes := constraints.allowedNodes.or unset.strings
        excludedNodes := constraints.excludedNodes.or unset.strings
        preferLocal := constraints.preferLocal.or unset.bool
        avoidGamingNodes := constraints.avoidGamingNodes.or unset.bool } := by
    simp [received, submittedSpec, SpecMessage.delivered, forwardedSpec, Function.comp_def]
  simp only [hconstraints, map_eq_self_iff, TaskConstraints.ext_iff, or_eq_self_iff]

theorem received_eq_iff (h : validateTask spec = .ok ()) :
    received unset spec = spec ↔ CarriedWhole unset spec := by
  have htype := (@received_type unset spec).trans (decodeType_of_valid h)
  have htimeout := @readTimeout_iff unset spec.timeoutMs
  rw [← received_timeoutMs] at htimeout
  constructor
  · intro heq
    refine ⟨?_, received_shell_iff.mp (congrArg FullSpec.shell heq),
      received_container_iff.mp (congrArg FullSpec.container heq),
      (congrArg FullSpec.subagent heq).symm, (congrArg FullSpec.k8sJob heq).symm,
      (congrArg FullSpec.claudeRelay heq).symm, (congrArg FullSpec.requirements heq).symm,
      received_constraints_iff.mp (congrArg FullSpec.constraints heq), ?_,
      (htimeout.mp (congrArg FullSpec.timeoutMs heq)).1,
      (htimeout.mp (congrArg FullSpec.timeoutMs heq)).2,
      (congrArg FullSpec.environment heq).symm, (congrArg FullSpec.targetNodes heq).symm⟩
    · exact or_eq_self_iff.mp (congrArg FullSpec.submitterSession heq)
    · exact or_eq_self_iff.mp (congrArg FullSpec.priority heq)
  · intro hwhole
    ext1
    case taskId => exact received_names.1
    case type => exact htype
    case submitterNode => exact received_names.2
    case submitterSession => exact or_eq_self_iff.mpr hwhole.session
    case shell => exact received_shell_iff.mpr hwhole.shell
    case container => exact received_container_iff.mpr hwhole.container
    case subagent => exact hwhole.subagent.symm
    case k8sJob => exact hwhole.k8sJob.symm
    case claudeRelay => exact hwhole.claudeRelay.symm
    case requirements => exact hwhole.requirements.symm
    case constraints => exact received_constraints_iff.mpr hwhole.constraints
    case priority => exact or_eq_self_iff.mpr hwhole.priority
    case timeoutMs => exact htimeout.mpr ⟨hwhole.timeoutUnset, hwhole.timeoutText⟩
    case environment => exact hwhole.environment.symm
    case targetNodes => exact hwhole.targetNodes.symm

/-- A follower that knows the leader sends every valid spec on to it. -/
theorem submit_follower (h : validateTask spec = .ok ()) {follower : Situation}
    {leaderAddress : String} (hfollower : follower.isLeader = false)
    (haddress : follower.leaderAddress = some leaderAddress) (hne : leaderAddress ≠ "")
    (hother : leaderAddress ≠ follower.selfAddress) :
    submit follower spec = .forwarded leaderAddress (forwardedSpec spec) := by
  simp [submit, h, hfollower, forwardToLeader, haddress, hne, hother]

end

-- ---------------------------------------------------------------------------
-- The forwarded submission
-- ---------------------------------------------------------------------------

def ready : Situation where
  isLeader := true
  leaderAddress := some "10.0.0.1:50051"
  selfAddress := "10.0.0.1:50051"
  queueFull := false
  appendSucceeds := true

theorem eq_of_submit_ready {spec spec' : FullSpec} (h : submit ready spec' = .queued spec) :
    spec' = spec := by
  unfold submit at h
  split at h
  · cases h
  · exact Submitted.queued.inj h

theorem received_of_forwardedAsLocal {unset : Unset} {spec : FullSpec}
    (h : validateTask spec = .ok ()) (hlocal : ForwardedAsLocal unset spec) :
    received unset spec = spec := by
  obtain ⟨message, hmessage, hsame⟩ := hlocal
    { ready with isLeader := false, selfAddress := "10.0.0.2:50051" } ready "10.0.0.1:50051"
    rfl rfl (by decide) (by decide) rfl
  rw [submit_follower h rfl rfl (by decide) (by decide)] at hmessage
  cases hmessage
  have hqueued : submit ready spec = .queued spec := by simp [submit, h, ready]
  exact eq_of_submit_ready (hsame.trans hqueued)

/-- What is queued is what was submitted just where the spec is carried whole. -/
theorem forwarded_as_local_iff (unset : Unset) (spec : FullSpec)
    (h : validateTask spec = .ok ()) :
    ForwardedAsLocal unset spec ↔ CarriedWhole unset spec := by
  rw [← received_eq_iff h]
  constructor
  · exact received_of_forwardedAsLocal h
  · intro heq follower leader leaderAddress hfollower haddress hne hother _
    refine ⟨_, submit_follower h hfollower haddress hne hother, ?_⟩
    exact congrArg (submit leader) heq

def shellSpec : FullSpec where
  taskId := "t"
  type := "shell"
  submitterNode := "b"
  shell := some { command := "ls" }

theorem forwarded_as_local_iff_shell :
    ForwardedAsLocal .defaults shellSpec ↔ CarriedWhole .defaults shellSpec :=
  forwarded_as_local_iff _ _ (by rfl)

def subagentSpec : FullSpec where
  taskId := "t"
  type := "subagent"
  submitterNode := "b"
  subagent := some { prompt := "look around" }

def targetedSpec : FullSpec where
  taskId := "t"
  type := "shell"
  submitterNode := "b"
  shell := some { command := "nvidia-smi", workingDirectory := some "/", sandboxed := some false }
  targetNodes := some ["forge"]

theorem forwarding_loses_fields :
    (validateTask subagentSpec = .ok () ∧ ¬ForwardedAsLocal {} subagentSpec) ∧
      validateTask targetedSpec = .ok () ∧ ¬ForwardedAsLocal {} targetedSpec := by
  refine ⟨⟨rfl, fun hlocal => ?_⟩, rfl, fun hlocal => ?_⟩
  · cases congrArg FullSpec.subagent (received_of_forwardedAsLocal rfl hlocal)
  · cases congrArg FullSpec.targetNodes (received_of_forwardedAsLocal rfl hlocal)

end ClaudeCluster.Tasks.Legacy.Forwarding
