import Mathlib.Data.List.Sort
import Mathlib.Tactic.Linarith
import Mathlib.Tactic.Positivity
import Mathlib.Algebra.Order.Field.Rat
import Mathlib.Data.Rat.Cast.Order
import ClaudeCluster.Membership.Manager
import ClaudeCluster.Tasks.Plugin

/-!
# The scheduler of the task engine

`ResourceAwareScheduler` of `plugins/task-engine/scheduler.ts`: which of the
active nodes a task is placed on. Scores are exact. A node is pinned, filtered
or scored here by what `Satisfies` says its constraints mean.
-/

namespace ClaudeCluster.Tasks

open Raft (NodeId)

-- ---------------------------------------------------------------------------
-- Nodes and weights
-- ---------------------------------------------------------------------------

structure GpuInfo where
  utilizationPercent : ℚ
  inUseForGaming : Bool
  deriving DecidableEq, Repr

structure NodeResources where
  memoryBytes : Nat
  memoryAvailableBytes : Nat
  gpus : List GpuInfo
  diskBytes : Nat
  diskAvailableBytes : Nat
  cpuUsagePercent : ℚ
  gamingDetected : Bool
  deriving DecidableEq, Repr

structure NodeInfo extends Membership.NodeInfo where
  resources : Option NodeResources
  deriving DecidableEq, Repr

structure SchedulerWeights where
  cpuHeadroom : ℚ
  memoryHeadroom : ℚ
  diskIoHeadroom : ℚ
  gpuHeadroom : ℚ
  taskCountPenalty : ℚ
  deriving DecidableEq, Repr

def DEFAULT_SCHEDULER_WEIGHTS : SchedulerWeights where
  cpuHeadroom := 3 / 10
  memoryHeadroom := 3 / 10
  diskIoHeadroom := 15 / 100
  gpuHeadroom := 15 / 100
  taskCountPenalty := 5

def getActiveNodes (nodes : List NodeInfo) : List NodeInfo := nodes.filter (·.status = .active)

namespace NodeInfo

def memoryAvailable (n : NodeInfo) : ℚ := ((n.resources.map (·.memoryAvailableBytes)).getD 0 : Nat)

def diskAvailable (n : NodeInfo) : ℚ := ((n.resources.map (·.diskAvailableBytes)).getD 0 : Nat)

/-- `resources?.gpus.some((g) => !g.inUseForGaming)` -/
def hasFreeGpu (n : NodeInfo) : Bool := n.resources.any fun r => r.gpus.any fun g => !g.inUseForGaming

/-- `resources?.gamingDetected` -/
def gaming (n : NodeInfo) : Bool := n.resources.any (·.gamingDetected)

def isNamed (target : NodeId) (n : NodeInfo) : Bool := n.nodeId = target || n.hostname = target

end NodeInfo

-- ---------------------------------------------------------------------------
-- pickNode
-- ---------------------------------------------------------------------------

/-- A number that counts as given: 0 does not. -/
def truthyNumber (q : Option ℚ) : Option ℚ := q.filter (· ≠ 0)

theorem truthyNumber_zero : truthyNumber (some 0) = none := rfl

theorem truthyNumber_ne {q : ℚ} (h : q ≠ 0) : truthyNumber (some q) = some q := by
  rw [truthyNumber, Option.filter_some, if_pos (decide_eq_true h)]

/-- The `targetNode` of a task, unless it is the empty string. -/
def TaskRecord.target (task : TaskRecord) : Option NodeId :=
  task.constraints.bind fun c => truthy c.targetNode

structure ResourceAwareScheduler where
  weights : SchedulerWeights := DEFAULT_SCHEDULER_WEIGHTS
  runningTaskCounts : NodeId → Option Nat := fun _ => none

def filterNodes (nodes : List NodeInfo) : Option TaskConstraints → List NodeInfo
  | none => nodes
  | some c =>
    let nodes := if c.requiresGpu = some true then nodes.filter (·.hasFreeGpu) else nodes
    let nodes := if c.avoidGaming = some true then nodes.filter (!·.gaming) else nodes
    let nodes :=
      match truthyNumber c.minMemoryMb with
      | some mb => nodes.filter fun n => mb * 10 ^ 6 ≤ n.memoryAvailable
      | none => nodes
    let nodes :=
      match truthyNumber c.minDiskGb with
      | some gb => nodes.filter fun n => gb * 10 ^ 9 ≤ n.diskAvailable
      | none => nodes
    match c.nodeLabels with
    | some (label :: labels) => nodes.filter fun n => (label :: labels).any (· ∈ n.tags)
    | _ => nodes

namespace ResourceAwareScheduler

variable (s : ResourceAwareScheduler)

def taskCount (nodeId : NodeId) : Nat := (s.runningTaskCounts nodeId).getD 0

def resourceScore (r : NodeResources) (constraints : Option TaskConstraints) : ℚ :=
  let w := s.weights
  (100 - r.cpuUsagePercent) * w.cpuHeadroom +
    (if 0 < r.memoryBytes then (r.memoryAvailableBytes : ℚ) / r.memoryBytes * 100 else 0) *
      w.memoryHeadroom +
    (if 0 < r.diskBytes then (r.diskAvailableBytes : ℚ) / r.diskBytes * 100 else 0) *
      w.diskIoHeadroom +
    (if (constraints.bind (·.requiresGpu)) = some true then
      match r.gpus.find? (!·.inUseForGaming) with
      | some gpu => (100 - gpu.utilizationPercent) * w.gpuHeadroom
      | none => 0
    else 0) -
    (if r.gamingDetected then 40 else 0)

def scoreNode (constraints : Option TaskConstraints) (node : NodeInfo) : ℚ :=
  match node.resources with
  | none => 0
  | some r => s.resourceScore r constraints - s.taskCount node.nodeId * s.weights.taskCountPenalty

/-- The candidates, best first; those of one score stay in order. -/
def ranked (constraints : Option TaskConstraints) (candidates : List NodeInfo) : List NodeInfo :=
  candidates.insertionSort fun a b => s.scoreNode constraints b ≤ s.scoreNode constraints a

def pickNode (nodes : List NodeInfo) (task : TaskRecord) : Option NodeInfo :=
  match task.target with
  | some target => (getActiveNodes nodes).find? (·.isNamed target)
  | none => (s.ranked task.constraints (filterNodes (getActiveNodes nodes) task.constraints)).head?

end ResourceAwareScheduler

-- ---------------------------------------------------------------------------
-- What the constraints mean
-- ---------------------------------------------------------------------------

/-- The constraints other than the pin. A resource that is not known counts as
nothing available, and as no gaming. -/
structure Meets (c : TaskConstraints) (n : NodeInfo) : Prop where
  gpu : c.requiresGpu = some true →
    ∃ r, n.resources = some r ∧ ∃ g ∈ r.gpus, g.inUseForGaming = false
  gaming : c.avoidGaming = some true → ∀ r, n.resources = some r → r.gamingDetected = false
  memory : ∀ mb, c.minMemoryMb = some mb → mb * 10 ^ 6 ≤ n.memoryAvailable
  disk : ∀ gb, c.minDiskGb = some gb → gb * 10 ^ 9 ≤ n.diskAvailable
  labels : ∀ labels, c.nodeLabels = some labels → labels ≠ [] → ∃ label ∈ labels, label ∈ n.tags

structure Satisfies (task : TaskRecord) (n : NodeInfo) : Prop where
  meets : ∀ c, task.constraints = some c → Meets c n
  pinned : ∀ target, task.target = some target → n.isNamed target

theorem NodeInfo.hasFreeGpu_iff {n : NodeInfo} :
    n.hasFreeGpu ↔ ∃ r, n.resources = some r ∧ ∃ g ∈ r.gpus, g.inUseForGaming = false := by
  cases h : n.resources <;> simp [NodeInfo.hasFreeGpu, h]

theorem NodeInfo.not_gaming_iff {n : NodeInfo} :
    (!n.gaming) ↔ ∀ r, n.resources = some r → r.gamingDetected = false := by
  cases h : n.resources <;> simp [NodeInfo.gaming, h]

theorem NodeInfo.memoryAvailable_nonneg (n : NodeInfo) : 0 ≤ n.memoryAvailable := Nat.cast_nonneg _

theorem NodeInfo.diskAvailable_nonneg (n : NodeInfo) : 0 ≤ n.diskAvailable := Nat.cast_nonneg _

/-- A minimum of 0 is no constraint, and none would be violated. -/
theorem mem_filter_minimum {nodes : List NodeInfo} {amount : NodeInfo → ℚ} {unit : ℚ}
    (hnonneg : ∀ n, 0 ≤ amount n) (minimum : Option ℚ) (n : NodeInfo) :
    n ∈ (match truthyNumber minimum with
        | some q => nodes.filter fun n => q * unit ≤ amount n
        | none => nodes) ↔
      n ∈ nodes ∧ ∀ q, minimum = some q → q * unit ≤ amount n := by
  cases minimum with
  | none => simp [truthyNumber]
  | some q =>
    by_cases hq : q = 0
    · rw [hq, truthyNumber_zero]
      simp [hnonneg n]
    · rw [truthyNumber_ne hq]
      simp

theorem mem_filterNodes {nodes : List NodeInfo} {constraints : Option TaskConstraints}
    {n : NodeInfo} :
    n ∈ filterNodes nodes constraints ↔ n ∈ nodes ∧ ∀ c, constraints = some c → Meets c n := by
  cases constraints with
  | none => simp [filterNodes]
  | some c =>
    have hgpu : ∀ nodes : List NodeInfo,
        n ∈ (if c.requiresGpu = some true then nodes.filter (·.hasFreeGpu) else nodes) ↔
          n ∈ nodes ∧ (c.requiresGpu = some true →
            ∃ r, n.resources = some r ∧ ∃ g ∈ r.gpus, g.inUseForGaming = false) := by
      intro nodes
      rw [← NodeInfo.hasFreeGpu_iff]
      split <;> rename_i h <;> simp [h]
    have hgaming : ∀ nodes : List NodeInfo,
        n ∈ (if c.avoidGaming = some true then nodes.filter (!·.gaming) else nodes) ↔
          n ∈ nodes ∧ (c.avoidGaming = some true →
            ∀ r, n.resources = some r → r.gamingDetected = false) := by
      intro nodes
      rw [← NodeInfo.not_gaming_iff]
      split <;> rename_i h <;> simp [h]
    have hlabels : ∀ nodes : List NodeInfo,
        n ∈ (match c.nodeLabels with
            | some (label :: labels) =>
              nodes.filter fun n : NodeInfo => (label :: labels).any (· ∈ n.tags)
            | _ => nodes) ↔
          n ∈ nodes ∧ ∀ labels, c.nodeLabels = some labels → labels ≠ [] →
            ∃ label ∈ labels, label ∈ n.tags := by
      intro nodes
      split
      · rename_i label labels h
        simp [h]
      · rename_i h
        refine ⟨fun hn => ⟨hn, fun labels hl hne => ?_⟩, And.left⟩
        cases labels with
        | nil => exact absurd rfl hne
        | cons label labels => exact absurd hl (h label labels)
    simp only [filterNodes, hlabels, mem_filter_minimum NodeInfo.diskAvailable_nonneg,
      mem_filter_minimum NodeInfo.memoryAvailable_nonneg, hgaming, hgpu]
    constructor
    · rintro ⟨⟨⟨⟨⟨hn, h1⟩, h2⟩, h3⟩, h4⟩, h5⟩
      refine ⟨hn, ?_⟩
      rintro _ ⟨⟩
      exact ⟨h1, h2, h3, h4, h5⟩
    · rintro ⟨hn, h⟩
      obtain ⟨h1, h2, h3, h4, h5⟩ := h c rfl
      exact ⟨⟨⟨⟨⟨hn, h1⟩, h2⟩, h3⟩, h4⟩, h5⟩

/-- Where every node meets the constraints nothing is filtered, order included. -/
theorem filterNodes_eq_self {nodes : List NodeInfo} {constraints : Option TaskConstraints}
    (h : ∀ n ∈ nodes, ∀ c, constraints = some c → Meets c n) :
    filterNodes nodes constraints = nodes := by
  cases constraints with
  | none => rfl
  | some c =>
    have hgpu : (if c.requiresGpu = some true then nodes.filter (·.hasFreeGpu) else nodes) =
        nodes := by
      split
      · rename_i hc
        exact List.filter_eq_self.mpr fun n hn =>
          NodeInfo.hasFreeGpu_iff.mpr ((h n hn c rfl).gpu hc)
      · rfl
    have hgaming : (if c.avoidGaming = some true then nodes.filter (!·.gaming) else nodes) =
        nodes := by
      split
      · rename_i hc
        exact List.filter_eq_self.mpr fun n hn =>
          NodeInfo.not_gaming_iff.mpr ((h n hn c rfl).gaming hc)
      · rfl
    have hmemory : (match truthyNumber c.minMemoryMb with
        | some mb => nodes.filter fun n => mb * 10 ^ 6 ≤ n.memoryAvailable
        | none => nodes) = nodes := by
      split
      · rename_i mb hc
        exact List.filter_eq_self.mpr fun n hn =>
          decide_eq_true ((h n hn c rfl).memory mb (Option.filter_eq_some_iff.mp hc).1)
      · rfl
    have hdisk : (match truthyNumber c.minDiskGb with
        | some gb => nodes.filter fun n => gb * 10 ^ 9 ≤ n.diskAvailable
        | none => nodes) = nodes := by
      split
      · rename_i gb hc
        exact List.filter_eq_self.mpr fun n hn =>
          decide_eq_true ((h n hn c rfl).disk gb (Option.filter_eq_some_iff.mp hc).1)
      · rfl
    simp only [filterNodes, hgpu, hgaming, hmemory, hdisk]
    split
    · rename_i label labels hc
      exact List.filter_eq_self.mpr fun n hn => by
        simpa using (h n hn c rfl).labels _ hc (List.cons_ne_nil _ _)
    · rfl

theorem mem_filterNodes_iff_satisfies {nodes : List NodeInfo} {task : TaskRecord} {n : NodeInfo}
    (hpin : task.target = none) :
    n ∈ filterNodes nodes task.constraints ↔ n ∈ nodes ∧ Satisfies task n := by
  rw [mem_filterNodes]
  refine and_congr_right fun _ => ⟨fun h => ⟨h, ?_⟩, Satisfies.meets⟩
  intro target ht
  rw [hpin] at ht
  cases ht

-- ---------------------------------------------------------------------------
-- Where a task is placed
-- ---------------------------------------------------------------------------

section
variable {s : ResourceAwareScheduler} {nodes : List NodeInfo} {task : TaskRecord} {n m : NodeInfo}

theorem mem_getActiveNodes : n ∈ getActiveNodes nodes ↔ n ∈ nodes ∧ n.status = .active := by
  simp [getActiveNodes]

theorem ranked_head {constraints : Option TaskConstraints} {candidates : List NodeInfo}
    (h : (s.ranked constraints candidates).head? = some n) :
    n ∈ candidates ∧ ∀ m ∈ candidates, s.scoreNode constraints m ≤ s.scoreNode constraints n := by
  have hmem : ∀ x, x ∈ s.ranked constraints candidates ↔ x ∈ candidates :=
    fun _ => List.mem_insertionSort _
  have hsorted := List.pairwise_insertionSort
    (fun a b => s.scoreNode constraints b ≤ s.scoreNode constraints a) candidates
  change (s.ranked constraints candidates).Pairwise _ at hsorted
  cases hr : s.ranked constraints candidates with
  | nil => simp [hr] at h
  | cons first rest =>
    rw [hr, List.head?_cons, Option.some.injEq] at h
    subst h
    refine ⟨(hmem first).mp (by simp [hr]), fun m hm => ?_⟩
    have hm' := (hmem m).mpr hm
    rw [hr] at hm' hsorted
    cases List.mem_cons.mp hm' with
    | inl h => rw [h]
    | inr h => exact (List.pairwise_cons.mp hsorted).1 m h

theorem ranked_head_none {constraints : Option TaskConstraints} {candidates : List NodeInfo} :
    (s.ranked constraints candidates).head? = none ↔ candidates = [] := by
  rw [List.head?_eq_none_iff, ← List.length_eq_zero_iff, ← List.length_eq_zero_iff,
    ResourceAwareScheduler.ranked, List.length_insertionSort]

theorem pickNode_unpinned (hpin : task.target = none) :
    s.pickNode nodes task =
      (s.ranked task.constraints (filterNodes (getActiveNodes nodes) task.constraints)).head? := by
  rw [ResourceAwareScheduler.pickNode, hpin]

theorem pickNode_pinned {target : NodeId} (hpin : task.target = some target) :
    s.pickNode nodes task = (getActiveNodes nodes).find? (·.isNamed target) := by
  rw [ResourceAwareScheduler.pickNode, hpin]

structure PlacedRight (s : ResourceAwareScheduler) (nodes : List NodeInfo) (task : TaskRecord)
    (picked : Option NodeInfo) : Prop where
  active : ∀ n, picked = some n → n ∈ nodes ∧ n.status = .active
  satisfies : ∀ n, picked = some n → Satisfies task n
  best : task.target = none → ∀ n, picked = some n → ∀ m ∈ nodes, m.status = .active →
    Satisfies task m → s.scoreNode task.constraints m ≤ s.scoreNode task.constraints n
  none_left : picked = none → ∀ m ∈ nodes, m.status = .active → ¬ Satisfies task m

theorem placedRight_unpinned (hpin : task.target = none) :
    PlacedRight s nodes task (s.pickNode nodes task) := by
  have hmem : ∀ x, x ∈ filterNodes (getActiveNodes nodes) task.constraints ↔
      (x ∈ nodes ∧ x.status = .active) ∧ Satisfies task x := by
    intro x
    rw [mem_filterNodes_iff_satisfies hpin, mem_getActiveNodes]
  rw [pickNode_unpinned hpin]
  constructor
  · intro n hn
    exact ((hmem n).mp (ranked_head hn).1).1
  · intro n hn
    exact ((hmem n).mp (ranked_head hn).1).2
  · intro _ n hn m hm hactive hsat
    exact (ranked_head hn).2 m ((hmem m).mpr ⟨⟨hm, hactive⟩, hsat⟩)
  · intro hnone m hm hactive hsat
    have h := (hmem m).mpr ⟨⟨hm, hactive⟩, hsat⟩
    rw [ranked_head_none.mp hnone] at h
    cases h

/-- The first active node a pin names meets the other constraints as well. -/
def PinMeets (nodes : List NodeInfo) (task : TaskRecord) : Prop :=
  ∀ c target, task.constraints = some c → task.target = some target →
    ∀ before n after, getActiveNodes nodes = before ++ n :: after → n.isNamed target →
      (∀ m ∈ before, ¬ m.isNamed target) → Meets c n

theorem placedRight_pinned {target : NodeId} (hpin : task.target = some target) :
    PlacedRight s nodes task (s.pickNode nodes task) ↔ PinMeets nodes task := by
  have hnamed : ∀ n, Satisfies task n → n.isNamed target := fun n h => h.pinned target hpin
  rw [pickNode_pinned hpin]
  constructor
  · intro h c t hc ht before n after hsplit hn hbefore
    cases hpin.symm.trans ht
    have hfind : (getActiveNodes nodes).find? (·.isNamed target) = some n := by
      rw [List.find?_eq_some_iff_append]
      exact ⟨hn, before, after, hsplit, fun m hm => by simpa using hbefore m hm⟩
    exact (h.satisfies n hfind).meets c hc
  · intro h
    constructor
    · intro n hn
      exact mem_getActiveNodes.mp (List.mem_of_find?_eq_some hn)
    · intro n hn
      obtain ⟨hnn, before, after, hsplit, hbefore⟩ := List.find?_eq_some_iff_append.mp hn
      refine ⟨fun c hc => h c target hc hpin before n after hsplit hnn
        fun m hm => by simpa using hbefore m hm, ?_⟩
      intro t ht
      cases hpin.symm.trans ht
      exact hnn
    · intro hnone
      rw [hpin] at hnone
      cases hnone
    · intro hnone m hm hactive hsat
      exact List.find?_eq_none.mp hnone m (mem_getActiveNodes.mpr ⟨hm, hactive⟩) (hnamed m hsat)

/-- A placement is right exactly when the node a pin names, if there is one,
meets the constraints the pin jumps over. -/
theorem placedRight_iff (s : ResourceAwareScheduler) (nodes : List NodeInfo) (task : TaskRecord) :
    PlacedRight s nodes task (s.pickNode nodes task) ↔ PinMeets nodes task := by
  cases hpin : task.target with
  | none =>
    refine iff_of_true (placedRight_unpinned hpin) ?_
    intro c target _ ht
    rw [hpin] at ht
    cases ht
  | some target => exact placedRight_pinned hpin

end

def plainNode (id : NodeId) : NodeInfo where
  nodeId := id
  hostname := id
  tailscaleIp := "100.0.0.1"
  grpcPort := 50051
  role := .follower
  status := .active
  tags := []
  joinedAt := 0
  lastSeen := 0
  resources := some
    { memoryBytes := 16, memoryAvailableBytes := 8, gpus := [], diskBytes := 500,
      diskAvailableBytes := 250, cpuUsagePercent := 30, gamingDetected := false }

def pinnedGpuTask : TaskRecord where
  id := "t"
  workflowId := none
  taskKey := none
  type := .shell
  state := .queued
  priority := 0
  spec := "\x7b\"command\":\"train\"\x7d"
  constraints := some { requiresGpu := some true, targetNode := some "a" }
  retryPolicy := none
  attempt := 0
  createdAt := 0

/-- A task that needs a GPU is placed on a node without one. -/
theorem pinned_without_gpu :
    ¬ PlacedRight {} [plainNode "a"] pinnedGpuTask
      (ResourceAwareScheduler.pickNode {} [plainNode "a"] pinnedGpuTask) := by
  intro h
  have hpick : ResourceAwareScheduler.pickNode {} [plainNode "a"] pinnedGpuTask =
      some (plainNode "a") := by decide +kernel
  obtain ⟨r, hr, g, hg, -⟩ := ((h.satisfies _ hpick).meets _ rfl).gpu rfl
  cases hr
  cases hg

end ClaudeCluster.Tasks
