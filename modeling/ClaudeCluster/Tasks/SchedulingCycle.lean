import Mathlib.Logic.Function.Basic
import ClaudeCluster.Tasks.Scheduler
import ClaudeCluster.Tasks.TaskLog

/-!
# Runs of the scheduling loop

`runSchedulingCycle` counts the tasks of every active node once and then places
the queued tasks one after the other. It waits for each append, and meanwhile
entries are applied, nodes come and go and other cycles start, which count for
all. The plugin of a cluster runs here with the scheduler and the membership map
of every node, and a cycle keeps a record of what it has assigned. `LoadAware`
asks of the record what counting again before each task would give.
-/

namespace ClaudeCluster.Tasks

open Lib (System)
open Raft (NodeId)

-- ---------------------------------------------------------------------------
-- Assignments
-- ---------------------------------------------------------------------------

/-- An assignment with what there was at its moment: the active nodes, and the
tasks on each node. -/
structure Assignment where
  task : TaskRecord
  node : NodeInfo
  active : List NodeInfo
  load : NodeId → Nat

namespace Assignment

variable (a : Assignment)

def candidates : List NodeInfo := filterNodes a.active a.task.constraints

def score (n : NodeInfo) : ℚ :=
  ResourceAwareScheduler.scoreNode { runningTaskCounts := fun id => some (a.load id) }
    a.task.constraints n

end Assignment

def countTo (made : List Assignment) (id : NodeId) : Nat := made.countP fun a => a.node.nodeId = id

/-- All active nodes are alike, and tasks have come to them by these
assignments only. -/
def Identical (made : List Assignment) : Prop :=
  ∃ resources tags base, ∀ earlier a later, made = earlier ++ a :: later → ∀ n ∈ a.active,
    n.resources = resources ∧ n.tags = tags ∧ a.load n.nodeId = base + countTo earlier n.nodeId

/-- Each assignment of a cycle is to a node of maximal score by the tasks on the
nodes at its moment, and identical nodes share the tasks out evenly. -/
structure LoadAware (made : List Assignment) : Prop where
  maximal : ∀ a ∈ made, a.task.target = none → ∀ m ∈ a.candidates, a.score m ≤ a.score a.node
  balanced : Identical made → (∀ a ∈ made, a.task.target = none) →
    ∀ n m, (∀ a ∈ made, n ∈ a.active ∧ m ∈ a.active) →
      countTo made n.nodeId ≤ countTo made m.nodeId + 1

-- ---------------------------------------------------------------------------
-- The system
-- ---------------------------------------------------------------------------

structure Cycle where
  node : NodeId
  taskId : TaskId
  target : NodeId
  success : Bool
  rest : List TaskRecord
  made : List Assignment

structure Scheduling where
  world : World
  /-- The membership map of each node. -/
  nodes : NodeId → List NodeInfo
  /-- `runningTaskCounts` of the scheduler of each node. -/
  counts : NodeId → NodeId → Option Nat
  cycles : List Cycle
  /-- What the cycles that are over have assigned. -/
  ended : List (List Assignment)

inductive SchedulingAction
  | runSchedulingCycle (node : NodeId) (now : Time)
  /-- A cycle goes on after its append. -/
  | cycleResume (i : Nat)
  | membership (node : NodeId) (nodes : List NodeInfo)
  /-- Whatever else the plugin does. -/
  | plugin (action : Action)

def nextPick (pick : TaskRecord → Option NodeInfo) :
    List TaskRecord → Option (TaskRecord × NodeInfo × List TaskRecord)
  | [] => none
  | task :: rest =>
    match pick task with
    | none => nextPick pick rest
    | some n => some (task, n, rest)

def Cycle.job (c : Cycle) : Job := .cycle c.node c.taskId c.target c.success c.rest

def Action.ofCycle : Action → Bool
  | .runSchedulingCycle .. | .cycleResume .. => true
  | _ => false

namespace Scheduling

variable (s : Scheduling)

def scheduler (node : NodeId) : ResourceAwareScheduler where
  runningTaskCounts := s.counts node

def pickNode (node : NodeId) (task : TaskRecord) : Option NodeInfo :=
  (s.scheduler node).pickNode (s.nodes node) task

/-- `setRunningTaskCount` for every active node, if the cycle comes to it. -/
def recount (node : NodeId) (now : Time) : Scheduling :=
  if s.world.leads node ∧ (s.world.db node).getQueuedTasks now ≠ [] then
    { s with
      counts := Function.update s.counts node fun id =>
        if id ∈ (getActiveNodes (s.nodes node)).map (·.nodeId) then
          some ((s.world.db node).getTasksOnNode id).length
        else s.counts node id }
  else s

def inFlight (node : NodeId) (taskId : TaskId) (target : NodeId) : Bool :=
  (s.world.log.drop (s.world.replicas node).applied).any fun item =>
    item.data = .parsed (.taskAssign ⟨taskId, target⟩)

/-- The tasks on a node: those of the tables, and those the cycle has assigned
to it by entries that have yet to be applied. -/
def load (node : NodeId) (earlier : List Assignment) (id : NodeId) : Nat :=
  let here := (s.world.db node).getTasksOnNode id
  here.length + earlier.countP fun a =>
    a.node.nodeId = id && s.inFlight node a.task.id id && !here.any (·.id = a.task.id)

def assignment (node : NodeId) (earlier : List Assignment) (task : TaskRecord) (n : NodeInfo) :
    Assignment where
  task
  node := n
  active := getActiveNodes (s.nodes node)
  load := s.load node earlier

/-- The cycle goes on to its next append, or ends. A node that does not lead
assigns nothing. -/
def proceed (node : NodeId) (tasks : List TaskRecord) (earlier : List Assignment) : Scheduling :=
  match nextPick (s.pickNode node) tasks with
  | none => { s with ended := s.ended ++ [earlier] }
  | some (task, n, rest) =>
    let made := if s.world.leads node then [s.assignment node earlier task n] else []
    { s with
      cycles := s.cycles ++
        [⟨node, task.id, n.nodeId, s.world.leads node, rest, earlier ++ made⟩] }

def picks (node : NodeId) (task : TaskRecord) : Option NodeId :=
  (s.pickNode node task).map (·.nodeId)

def step : SchedulingAction → Option Scheduling
  | .runSchedulingCycle node now =>
    let s := s.recount node now
    (s.world.step (.runSchedulingCycle node now (s.picks node))).map fun world =>
      if s.world.leads node then
        { s.proceed node ((s.world.db node).getQueuedTasks now) [] with world }
      else { s with world }
  | .cycleResume i =>
    s.cycles[i]?.bind fun c =>
      (s.world.step (.cycleResume c.node c.taskId c.target c.success c.rest
        (s.picks c.node))).map fun world =>
          { ({ s with cycles := s.cycles.eraseIdx i }).proceed c.node c.rest c.made with world }
  | .membership node nodes => some { s with nodes := Function.update s.nodes node nodes }
  | .plugin a =>
    if a.ofCycle then none else (s.world.step a).map fun world => { s with world }

structure Starts : Prop where
  world : s.world.Starts
  counts : ∀ node id, s.counts node id = none
  cycles : s.cycles = []
  ended : s.ended = []

def runs : List (List Assignment) := s.cycles.map (·.made) ++ s.ended

end Scheduling

def scheduling : System Scheduling SchedulingAction where
  init := Scheduling.Starts
  step := Scheduling.step

-- ---------------------------------------------------------------------------
-- The condition
-- ---------------------------------------------------------------------------

def hasNode (nodes : List NodeInfo) (task : TaskRecord) : Bool :=
  match task.target with
  | some target => (getActiveNodes nodes).any (·.isNamed target)
  | none => !(filterNodes (getActiveNodes nodes) task.constraints).isEmpty

namespace Scheduling

/-- The counts of the scheduler are off by the same for all candidates whose
resources are known, and right if there are others; where no resources are
known, the cycle has given each candidate as much as the other. -/
structure Level (s : Scheduling) (node : NodeId) (earlier : List Assignment)
    (candidates : List NodeInfo) : Prop where
  even : ∀ n ∈ candidates, ∀ m ∈ candidates, n.resources.isSome → m.resources.isSome →
    s.load node earlier n.nodeId + (s.scheduler node).taskCount m.nodeId =
      s.load node earlier m.nodeId + (s.scheduler node).taskCount n.nodeId
  known : ∀ n ∈ candidates, ∀ m ∈ candidates, n.resources = none → m.resources.isSome →
    s.load node earlier m.nodeId = (s.scheduler node).taskCount m.nodeId
  blind : (∀ n ∈ candidates, n.resources = none) → ∀ n ∈ candidates, ∀ m ∈ candidates,
    countTo earlier n.nodeId = countTo earlier m.nodeId

/-- A cycle that goes on comes to a task for which the counts are level. -/
def Counted (s : Scheduling) : SchedulingAction → Prop
  | .cycleResume i => ∀ c ∈ s.cycles[i]?, s.world.leads c.node →
      ∀ task ∈ c.rest.find? (hasNode (s.nodes c.node)), task.target = none →
        s.Level c.node c.made (filterNodes (getActiveNodes (s.nodes c.node)) task.constraints)
  | _ => True

-- ---------------------------------------------------------------------------
-- One assignment
-- ---------------------------------------------------------------------------

section
variable {s : Scheduling} {node : NodeId} {earlier : List Assignment} {task : TaskRecord}
  {tasks rest : List TaskRecord} {n m : NodeInfo}

theorem nextPick_eq_some {pick : TaskRecord → Option NodeInfo}
    (h : nextPick pick tasks = some (task, n, rest)) :
    pick task = some n ∧ tasks.find? (fun t => (pick t).isSome) = some task := by
  induction tasks with
  | nil => cases h
  | cons t tasks ih =>
    rw [nextPick] at h
    cases hp : pick t with
    | none =>
      rw [hp] at h
      exact ⟨(ih h).1, by simpa [hp] using (ih h).2⟩
    | some k =>
      simp only [hp, Option.some.injEq, Prod.mk.injEq] at h
      obtain ⟨rfl, rfl, -⟩ := h
      exact ⟨hp, by simp [hp]⟩

theorem nextAssignment_picks (s : Scheduling) (node : NodeId) (tasks : List TaskRecord) :
    nextAssignment (s.picks node) tasks =
      (nextPick (s.pickNode node) tasks).map fun p => (p.1.id, p.2.1.nodeId, p.2.2) := by
  induction tasks with
  | nil => rfl
  | cons t tasks ih =>
    rw [nextAssignment, nextPick, picks]
    cases s.pickNode node t with
    | none => exact ih
    | some n => rfl

theorem pickNode_isSome (s : Scheduling) (node : NodeId) (task : TaskRecord) :
    (s.pickNode node task).isSome = hasNode (s.nodes node) task := by
  unfold pickNode hasNode
  cases hpin : task.target with
  | none =>
    rw [pickNode_unpinned hpin, Bool.eq_iff_iff, ← not_iff_not, Bool.not_eq_true,
      Option.isSome_eq_false_iff, Option.isNone_iff_eq_none, ranked_head_none]
    simp
  | some target =>
    rw [pickNode_pinned hpin, Bool.eq_iff_iff]
    simp

theorem scoreNode_unknown {counts : NodeId → Option Nat} {constraints : Option TaskConstraints}
    (h : n.resources = none) :
    ResourceAwareScheduler.scoreNode { runningTaskCounts := counts } constraints n = 0 := by
  rw [ResourceAwareScheduler.scoreNode, h]

theorem scoreNode_known {counts : NodeId → Option Nat} {constraints : Option TaskConstraints}
    {r : NodeResources} (h : n.resources = some r) :
    ResourceAwareScheduler.scoreNode { runningTaskCounts := counts } constraints n =
      ResourceAwareScheduler.resourceScore {} r constraints -
        ((counts n.nodeId).getD 0 : Nat) * 5 := by
  rw [ResourceAwareScheduler.scoreNode, h]
  rfl

theorem Level.maximal
    (h : s.Level node earlier (filterNodes (getActiveNodes (s.nodes node)) task.constraints))
    (hpin : task.target = none) (hn : s.pickNode node task = some n) :
    ∀ m ∈ (s.assignment node earlier task n).candidates,
      (s.assignment node earlier task n).score m ≤ (s.assignment node earlier task n).score n := by
  rw [pickNode, pickNode_unpinned hpin] at hn
  obtain ⟨hmem, hbest⟩ := ranked_head hn
  intro m hm
  have hle := hbest m hm
  rw [scheduler] at hle
  have hscore : ∀ x, (s.assignment node earlier task n).score x =
      ResourceAwareScheduler.scoreNode
        { runningTaskCounts := fun id => some (s.load node earlier id) } task.constraints x :=
    fun _ => rfl
  rw [hscore, hscore]
  have hcount : ∀ id, (s.scheduler node).taskCount id = (s.counts node id).getD 0 := fun _ => rfl
  cases hrn : n.resources with
  | none =>
    cases hrm : m.resources with
    | none => rw [scoreNode_unknown hrn, scoreNode_unknown hrm]
    | some r =>
      have hknown := h.known n hmem m hm hrn (by simp [hrm])
      rw [scoreNode_unknown hrn, scoreNode_known hrm] at hle ⊢
      rw [Option.getD_some, hknown, hcount]
      exact hle
  | some rn =>
    cases hrm : m.resources with
    | none =>
      have hknown := h.known m hm n hmem hrm (by simp [hrn])
      rw [scoreNode_known hrn, scoreNode_unknown hrm] at hle ⊢
      rw [Option.getD_some, hknown, hcount]
      exact hle
    | some rm =>
      have heven := h.even n hmem m hm (by simp [hrn]) (by simp [hrm])
      rw [hcount, hcount] at heven
      rw [scoreNode_known hrn, scoreNode_known hrm] at hle ⊢
      rw [Option.getD_some, Option.getD_some]
      have hcast : (s.load node earlier n.nodeId : ℚ) + ((s.counts node m.nodeId).getD 0 : Nat) =
          s.load node earlier m.nodeId + ((s.counts node n.nodeId).getD 0 : Nat) := by
        exact_mod_cast heven
      linarith

theorem assignment_candidates (hpin : task.target = none) (hn : s.pickNode node task = some n) :
    n ∈ (s.assignment node earlier task n).candidates := by
  rw [pickNode, pickNode_unpinned hpin] at hn
  exact (ranked_head hn).1

theorem level_recount {now : Time} (hlead : s.world.leads node)
    (htasks : (s.world.db node).getQueuedTasks now ≠ []) {constraints : Option TaskConstraints} :
    (s.recount node now).Level node []
      (filterNodes (getActiveNodes ((s.recount node now).nodes node)) constraints) := by
  have hs : s.recount node now = { s with
      counts := Function.update s.counts node fun id =>
        if id ∈ (getActiveNodes (s.nodes node)).map (·.nodeId) then
          some ((s.world.db node).getTasksOnNode id).length
        else s.counts node id } := if_pos ⟨hlead, htasks⟩
  have hcount : ∀ n ∈ filterNodes (getActiveNodes (s.nodes node)) constraints,
      (s.recount node now).load node [] n.nodeId =
        ((s.recount node now).scheduler node).taskCount n.nodeId := by
    intro n hn
    have hactive : n.nodeId ∈ (getActiveNodes (s.nodes node)).map (·.nodeId) :=
      List.mem_map_of_mem (mem_filterNodes.mp hn).1
    simp only [hs, load, scheduler, ResourceAwareScheduler.taskCount, Function.update_self,
      if_pos hactive, List.countP_nil, Nat.add_zero, Option.getD_some]
  have hnodes : (s.recount node now).nodes = s.nodes := by rw [hs]
  rw [hnodes]
  refine ⟨fun n hn m hm _ _ => ?_, fun _ _ m hm _ _ => hcount m hm, fun _ _ _ _ _ => rfl⟩
  rw [hcount n hn, hcount m hm, Nat.add_comm]

end

end Scheduling

-- ---------------------------------------------------------------------------
-- One cycle
-- ---------------------------------------------------------------------------

structure Placed (made : List Assignment) : Prop where
  candidate : ∀ a ∈ made, a.task.target = none → a.node ∈ a.candidates
  maximal : ∀ a ∈ made, a.task.target = none → ∀ m ∈ a.candidates, a.score m ≤ a.score a.node
  blind : ∀ earlier a later, made = earlier ++ a :: later → a.task.target = none →
    (∀ n ∈ a.candidates, n.resources = none) → ∀ n ∈ a.candidates, ∀ m ∈ a.candidates,
      countTo earlier n.nodeId = countTo earlier m.nodeId

section
variable {made : List Assignment} {a : Assignment} {n m : NodeInfo}

theorem Placed.nil : Placed [] := ⟨by simp, by simp, by simp⟩

theorem Placed.concat (h : Placed made)
    (ha : a.task.target = none → a.node ∈ a.candidates ∧
      (∀ m ∈ a.candidates, a.score m ≤ a.score a.node) ∧
      ((∀ n ∈ a.candidates, n.resources = none) → ∀ n ∈ a.candidates, ∀ m ∈ a.candidates,
        countTo made n.nodeId = countTo made m.nodeId)) : Placed (made ++ [a]) := by
  refine ⟨?_, ?_, ?_⟩
  · intro b hb hpin
    cases List.mem_append.mp hb with
    | inl hb => exact h.candidate b hb hpin
    | inr hb =>
      obtain rfl := List.mem_singleton.mp hb
      exact (ha hpin).1
  · intro b hb hpin
    cases List.mem_append.mp hb with
    | inl hb => exact h.maximal b hb hpin
    | inr hb =>
      obtain rfl := List.mem_singleton.mp hb
      exact (ha hpin).2.1
  · intro earlier b later hsplit hpin
    rcases List.eq_nil_or_concat later with rfl | ⟨later, last, rfl⟩
    · obtain ⟨rfl, hlast⟩ := List.append_inj' hsplit rfl
      obtain rfl : a = b := by simpa using hlast
      exact (ha hpin).2.2
    · rw [List.concat_eq_append, ← List.cons_append, ← List.append_assoc] at hsplit
      obtain ⟨rfl, -⟩ := List.append_inj' hsplit rfl
      exact h.blind earlier b later rfl hpin

theorem Placed.of_concat (h : Placed (made ++ [a])) : Placed made := by
  refine ⟨fun b hb => h.candidate b (List.mem_append_left _ hb),
    fun b hb => h.maximal b (List.mem_append_left _ hb), ?_⟩
  rintro earlier b later rfl
  exact h.blind earlier b (later ++ [a]) (by simp)

theorem Identical.of_concat (h : Identical (made ++ [a])) : Identical made := by
  obtain ⟨resources, tags, base, h⟩ := h
  refine ⟨resources, tags, base, ?_⟩
  rintro earlier b later rfl
  exact h earlier b (later ++ [a]) (by simp)

theorem countTo_concat (id : NodeId) :
    countTo (made ++ [a]) id = countTo made id + if a.node.nodeId = id then 1 else 0 := by
  simp [countTo, List.countP_append, List.countP_singleton]

theorem meets_congr {k : TaskConstraints} (hr : n.resources = m.resources)
    (ht : n.tags = m.tags) (h : Meets k n) : Meets k m := by
  have hmem : n.memoryAvailable = m.memoryAvailable := by
    rw [NodeInfo.memoryAvailable, hr, NodeInfo.memoryAvailable]
  have hdisk : n.diskAvailable = m.diskAvailable := by
    rw [NodeInfo.diskAvailable, hr, NodeInfo.diskAvailable]
  exact ⟨hr ▸ h.gpu, hr ▸ h.gaming, hmem ▸ h.memory, hdisk ▸ h.disk, ht ▸ h.labels⟩

/-- The next task of identical nodes goes to one that has had the fewest. -/
theorem Placed.fewest (h : Placed (made ++ [a])) (hid : Identical (made ++ [a]))
    (hpin : a.task.target = none) (hm : m ∈ a.active) :
    countTo made a.node.nodeId ≤ countTo made m.nodeId := by
  obtain ⟨resources, tags, base, hid⟩ := hid
  have hlike := hid made a [] rfl
  have hcand := h.candidate a (by simp) hpin
  obtain ⟨hactive, hmeets⟩ := mem_filterNodes.mp hcand
  obtain ⟨hrn, htn, hln⟩ := hlike a.node hactive
  have hall : ∀ x ∈ a.active, x ∈ a.candidates := by
    intro x hx
    obtain ⟨hrx, htx, -⟩ := hlike x hx
    exact mem_filterNodes.mpr
      ⟨hx, fun k hk => meets_congr (hrn.trans hrx.symm) (htn.trans htx.symm) (hmeets k hk)⟩
  obtain ⟨hrm, -, hlm⟩ := hlike m hm
  cases hr : resources with
  | none =>
    refine (h.blind made a [] rfl hpin (fun x hx => ?_) a.node hcand m (hall m hm)).le
    rw [(hlike x (mem_filterNodes.mp hx).1).1, hr]
  | some r =>
    have hle := h.maximal a (by simp) hpin m (hall m hm)
    unfold Assignment.score at hle
    rw [Scheduling.scoreNode_known (hrm.trans hr), Scheduling.scoreNode_known (hrn.trans hr),
      Option.getD_some, Option.getD_some, hln, hlm] at hle
    have hcast : ((base + countTo made a.node.nodeId : Nat) : ℚ) ≤
        (base + countTo made m.nodeId : Nat) := by linarith
    have hnat : base + countTo made a.node.nodeId ≤ base + countTo made m.nodeId := by
      exact_mod_cast hcast
    exact Nat.le_of_add_le_add_left hnat

/-- Who always goes to the one with the fewest shares out evenly. -/
theorem Placed.balanced (h : Placed made) (hid : Identical made)
    (hpin : ∀ a ∈ made, a.task.target = none) (hboth : ∀ a ∈ made, n ∈ a.active ∧ m ∈ a.active) :
    countTo made n.nodeId ≤ countTo made m.nodeId + 1 := by
  induction made using List.reverseRecOn with
  | nil => simp [countTo]
  | append_singleton made a ih =>
    have hbefore := ih h.of_concat hid.of_concat (fun b hb => hpin b (List.mem_append_left _ hb))
      fun b hb => hboth b (List.mem_append_left _ hb)
    have hfew := h.fewest hid (hpin a (by simp)) (hboth a (by simp)).2
    rw [countTo_concat, countTo_concat]
    by_cases hn : a.node.nodeId = n.nodeId
    · rw [if_pos hn, ← hn]
      omega
    · rw [if_neg hn]
      omega

theorem Placed.loadAware (h : Placed made) : LoadAware made :=
  ⟨h.maximal, fun hid hpin _ _ => h.balanced hid hpin⟩

end

-- ---------------------------------------------------------------------------
-- Runs
-- ---------------------------------------------------------------------------

namespace Scheduling

section
variable {s s' : Scheduling} {node : NodeId} {earlier made : List Assignment}
  {tasks : List TaskRecord} {a : SchedulingAction}

theorem world_recount (node : NodeId) (now : Time) : (s.recount node now).world = s.world := by
  unfold recount
  split <;> rfl

theorem runs_recount (node : NodeId) (now : Time) : (s.recount node now).runs = s.runs := by
  unfold recount
  split <;> rfl

theorem placed_proceed (h : ∀ made ∈ s.runs, Placed made) (hearlier : Placed earlier)
    (hlevel : s.world.leads node → ∀ task ∈ tasks.find? (hasNode (s.nodes node)),
      task.target = none →
        s.Level node earlier (filterNodes (getActiveNodes (s.nodes node)) task.constraints))
    (hmade : made ∈ (s.proceed node tasks earlier).runs) : Placed made := by
  unfold proceed at hmade
  split at hmade
  case h_1 =>
    simp only [runs, ← List.append_assoc, List.mem_append, List.mem_singleton] at hmade
    obtain hmade | rfl := hmade
    · exact h made (List.mem_append.mpr hmade)
    · exact hearlier
  case h_2 task n rest hpick =>
    obtain ⟨hn, hfind⟩ := nextPick_eq_some hpick
    simp only [runs, List.map_append, List.map_cons, List.map_nil, List.mem_append,
      List.mem_singleton] at hmade
    obtain (hmade | rfl) | hmade := hmade
    · exact h made (List.mem_append_left _ hmade)
    · cases hlead : s.world.leads node with
      | false => simpa using hearlier
      | true =>
        rw [if_pos rfl]
        refine hearlier.concat fun hpin => ?_
        have hl := hlevel hlead task (by
          rw [← funext (pickNode_isSome s node)]
          exact hfind) hpin
        exact ⟨assignment_candidates hpin hn, hl.maximal hpin hn, hl.blind⟩
    · exact h made (List.mem_append_right _ hmade)

theorem placed_step (h : ∀ made ∈ s.runs, Placed made) (hc : s.Counted a)
    (hs : s.step a = some s') : ∀ made ∈ s'.runs, Placed made := by
  cases a with
  | runSchedulingCycle node now =>
    simp only [step, Option.map_eq_some_iff] at hs
    obtain ⟨w, -, rfl⟩ := hs
    have hbefore : ∀ made ∈ (s.recount node now).runs, Placed made := by
      rw [runs_recount]
      exact h
    split
    case isTrue hlead =>
      intro made hmade
      refine placed_proceed hbefore .nil ?_ hmade
      rw [world_recount] at hlead ⊢
      intro _ task htask _
      refine level_recount hlead ?_
      rintro hempty
      simp [hempty] at htask
    case isFalse => exact hbefore
  | cycleResume i =>
    obtain ⟨c, hi, hs⟩ := Option.bind_eq_some_iff.mp hs
    obtain ⟨w, -, rfl⟩ := Option.map_eq_some_iff.mp hs
    have hmem : c ∈ s.cycles := List.mem_of_getElem? hi
    intro made hmade
    refine placed_proceed (s := { s with cycles := s.cycles.eraseIdx i }) ?_
      (h _ (List.mem_append_left _ (List.mem_map_of_mem hmem))) ?_ hmade
    · intro made hmade
      obtain hmade | hmade := List.mem_append.mp hmade
      · obtain ⟨d, hd, rfl⟩ := List.mem_map.mp hmade
        exact h _ (List.mem_append_left _ (List.mem_map_of_mem (List.mem_of_mem_eraseIdx hd)))
      · exact h _ (List.mem_append_right _ hmade)
    · intro hlead task htask hpin
      have hl := hc c hi hlead task htask hpin
      exact ⟨hl.even, hl.known, hl.blind⟩
  | membership node nodes =>
    cases hs
    exact h
  | plugin a =>
    simp only [step] at hs
    split at hs
    · cases hs
    · obtain ⟨w, -, rfl⟩ := Option.map_eq_some_iff.mp hs
      exact h

theorem world_step (hs : s.step a = some s') :
    s'.world = s.world ∨ ∃ action, cluster.step s.world action = some s'.world := by
  cases a with
  | runSchedulingCycle node now =>
    simp only [step, Option.map_eq_some_iff] at hs
    obtain ⟨w, hw, rfl⟩ := hs
    rw [world_recount] at hw
    refine .inr ⟨.runSchedulingCycle node now ((s.recount node now).picks node), ?_⟩
    split <;> exact hw
  | cycleResume i =>
    obtain ⟨c, -, hs⟩ := Option.bind_eq_some_iff.mp hs
    obtain ⟨w, hw, rfl⟩ := Option.map_eq_some_iff.mp hs
    exact .inr ⟨_, hw⟩
  | membership node nodes =>
    cases hs
    exact .inl rfl
  | plugin a =>
    simp only [step] at hs
    split at hs
    · cases hs
    · obtain ⟨w, hw, rfl⟩ := Option.map_eq_some_iff.mp hs
      exact .inr ⟨a, hw⟩

/-- What the plugin does in a run is a run of the cluster. -/
theorem reach_world {G : Scheduling → SchedulingAction → Prop} (h : scheduling.Reach G s) :
    cluster.Reach (fun _ _ => True) s.world := by
  induction h with
  | init hi => exact .init hi.world
  | step _ _ hs ih =>
    obtain hsame | ⟨action, hstep⟩ := world_step hs
    · exact hsame ▸ ih
    · exact ih.step trivial hstep

theorem jobs_proceed (s : Scheduling) (node : NodeId) (tasks : List TaskRecord)
    (earlier : List Assignment) :
    (s.proceed node tasks earlier).cycles.map Cycle.job =
      s.cycles.map Cycle.job ++ s.world.cycleJobs node (s.picks node) tasks := by
  rw [World.cycleJobs, nextAssignment_picks]
  unfold proceed
  cases nextPick (s.pickNode node) tasks with
  | none => simp
  | some p => simp [Cycle.job]

theorem count_jobsAfter {w : World} {action : Action} (h : action.ofCycle = false) {job : Job}
    {node target : NodeId} {taskId : TaskId} {success : Bool} {rest : List TaskRecord}
    (hjob : job = .cycle node taskId target success rest) :
    (w.jobsAfter action).count job = w.jobs.count job := by
  subst hjob
  cases action with
  | runSchedulingCycle | cycleResume => cases h
  | drainNodeTasks n t now =>
    cases ht : (w.db n).getTasksOnNode t <;> simp [World.jobsAfter, World.drainJobs, ht]
  | drainResume n tasks now =>
    cases tasks <;> simp [World.jobsAfter, World.drainJobs]
  | dispatchStart | dispatchExecute | dispatchComplete | dispatchEnd | dispatchError =>
    simp [World.jobsAfter]
  | _ => rfl

def Recorded (s : Scheduling) : Prop :=
  ∀ node taskId target success rest,
    s.world.jobs.count (.cycle node taskId target success rest) =
      (s.cycles.map Cycle.job).count (.cycle node taskId target success rest)

theorem Recorded.step (h : s.Recorded) (hs : s.step a = some s') : s'.Recorded := by
  intro node taskId target success rest
  have hcount := h node taskId target success rest
  cases a with
  | runSchedulingCycle n now =>
    simp only [Scheduling.step, Option.map_eq_some_iff] at hs
    obtain ⟨w, hw, rfl⟩ := hs
    have hjobs := (World.stepped hw).jobs
    rw [World.jobsAfter] at hjobs
    have hcycles : (s.recount n now).cycles = s.cycles := by
      unfold recount
      split <;> rfl
    split
    case isTrue hlead =>
      rw [if_pos hlead] at hjobs
      simp only [hjobs, jobs_proceed, List.count_append, hcycles]
      rw [world_recount, hcount]
    case isFalse hlead =>
      rw [if_neg hlead] at hjobs
      simp only [hjobs, hcycles]
      rw [world_recount, hcount]
  | cycleResume i =>
    obtain ⟨c, hi, hs⟩ := Option.bind_eq_some_iff.mp hs
    obtain ⟨w, hw, rfl⟩ := Option.map_eq_some_iff.mp hs
    have hjobs := (World.stepped hw).jobs
    rw [World.jobsAfter] at hjobs
    have hdispatch : (if c.success then s.world.dispatchJobs c.node c.taskId c.target else []).count
        (.cycle node taskId target success rest) = 0 := by
      split
      · unfold World.dispatchJobs
        split <;> simp
      · rfl
    have herase : (s.cycles.map Cycle.job).count (.cycle node taskId target success rest) =
        (c.job :: (s.cycles.eraseIdx i).map Cycle.job).count
          (.cycle node taskId target success rest) := by
      obtain ⟨hlt, rfl⟩ := List.getElem?_eq_some_iff.mp hi
      exact ((List.getElem_cons_eraseIdx_perm hlt).map Cycle.job).symm.count_eq _
    rw [List.count_cons] at herase
    simp only [hjobs, jobs_proceed, List.count_append, List.count_erase, hdispatch]
    rw [hcount, herase]
    exact congrArg (· + _) (Nat.add_sub_cancel_right _ _)
  | membership n nodes =>
    cases hs
    exact hcount
  | plugin a =>
    simp only [Scheduling.step] at hs
    split at hs
    · cases hs
    case isFalse hother =>
      obtain ⟨w, hw, rfl⟩ := Option.map_eq_some_iff.mp hs
      simp only [(World.stepped hw).jobs]
      rw [count_jobsAfter (Bool.eq_false_iff.mpr hother) rfl, hcount]

theorem reach_recorded {G : Scheduling → SchedulingAction → Prop} (h : scheduling.Reach G s) :
    s.Recorded := by
  refine h.invariant (fun s hi => ?_) fun s a s' _ hI _ hs => hI.step hs
  intro node taskId target success rest
  simp [hi.world.jobs, hi.cycles]

/-- In a run whose cycles go on with level counts only, every cycle is aware of
its own assignments. -/
theorem loadAware_of_counted (h : scheduling.Reach Counted s) : ∀ made ∈ s.runs, LoadAware made := by
  refine fun made hmade => Placed.loadAware ?_
  refine h.invariant (I := fun s => ∀ made ∈ s.runs, Placed made) ?_ ?_ made hmade
  · intro s hi
    simp [runs, hi.cycles, hi.ended]
  · intro s a s' _ hI hg hs
    exact placed_step hI hg hs

end

instance (s : Scheduling) (node : NodeId) (earlier : List Assignment) (candidates : List NodeInfo) :
    Decidable (s.Level node earlier candidates) :=
  decidable_of_iff
    ((∀ n ∈ candidates, ∀ m ∈ candidates, n.resources.isSome → m.resources.isSome →
      s.load node earlier n.nodeId + (s.scheduler node).taskCount m.nodeId =
        s.load node earlier m.nodeId + (s.scheduler node).taskCount n.nodeId) ∧
      (∀ n ∈ candidates, ∀ m ∈ candidates, n.resources = none → m.resources.isSome →
        s.load node earlier m.nodeId = (s.scheduler node).taskCount m.nodeId) ∧
      ((∀ n ∈ candidates, n.resources = none) → ∀ n ∈ candidates, ∀ m ∈ candidates,
        countTo earlier n.nodeId = countTo earlier m.nodeId))
    ⟨fun h => ⟨h.1, h.2.1, h.2.2⟩, fun h => ⟨h.even, h.known, h.blind⟩⟩

instance (s : Scheduling) : DecidablePred s.Counted
  | .cycleResume _ => inferInstanceAs (Decidable (∀ c ∈ _, _ → ∀ task ∈ _, _ → _))
  | .runSchedulingCycle .. | .membership .. | .plugin _ => .isTrue trivial

-- ---------------------------------------------------------------------------
-- Two tasks
-- ---------------------------------------------------------------------------

def twoNodes : Scheduling where
  world := World.start ["n"] (some "n")
  nodes _ := [plainNode "a", plainNode "b"]
  counts _ _ := none
  cycles := []
  ended := []

theorem twoNodes_starts : twoNodes.Starts := ⟨World.starts_start _ _, fun _ _ => rfl, rfl, rfl⟩

def twoTasks : List SchedulingAction :=
  [.plugin (.submitTask "n" "t" {}), .plugin (.submitTask "n" "u" {}), .plugin (.commit 2),
    .plugin (.apply "n" (hostOf "n")), .plugin (.apply "n" (hostOf "n")),
    .runSchedulingCycle "n" 0]

def placements (made : List Assignment) : List (TaskId × NodeId) :=
  made.map fun a => (a.task.id, a.node.nodeId)

/-- The first assignment is applied and a second cycle counts again before the
first goes on. -/
theorem counted_between :
    ∃ s, scheduling.Reach Counted s ∧ ∃ made ∈ s.runs,
      placements made = [("t", "a"), ("u", "b")] ∧ LoadAware made := by
  obtain ⟨s, hr, made, hmade, hplaced⟩ := System.Reach.replay (M := scheduling) (G := Counted)
    (P := fun s => ∃ made ∈ s.runs, placements made = [("t", "a"), ("u", "b")]) twoNodes_starts
    (twoTasks ++ [.plugin (.commit 3), .plugin (.apply "n" (hostOf "n")),
      .runSchedulingCycle "n" 0, .cycleResume 0]) (by decide +kernel)
  exact ⟨s, hr, made, hmade, hplaced, loadAware_of_counted hr made hmade⟩

/-- Both tasks go to the same of the two nodes. -/
theorem two_tasks_on_one_node :
    ∃ s, scheduling.Reach (fun _ _ => True) s ∧ ∃ made ∈ s.runs,
      placements made = [("t", "a"), ("u", "a")] ∧ ¬ LoadAware made := by
  obtain ⟨s, hr, made, hmade, hplaced, a, ha, hpin, m, hm, hlt⟩ :=
    System.Reach.replay (M := scheduling) (G := fun _ _ => True)
    (P := fun s => ∃ made ∈ s.runs, placements made = [("t", "a"), ("u", "a")] ∧
      ∃ a ∈ made, a.task.target = none ∧ ∃ m ∈ a.candidates, a.score a.node < a.score m)
    twoNodes_starts (twoTasks ++ [.cycleResume 0]) (by decide +kernel)
  exact ⟨s, hr, made, hmade, hplaced,
    fun h => absurd (h.maximal a ha hpin m hm) (not_le.mpr hlt)⟩

end Scheduling

end ClaudeCluster.Tasks
