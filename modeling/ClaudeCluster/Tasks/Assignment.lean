import ClaudeCluster.Tasks.Terminal

/-!
# Tasks and the nodes they occupy

`getTasksOnNode` finds a task by the node in its row, so a task that runs with
no node in its row is lost to both the drain of a node and its failure. Of the
entries only `task_assign` sets the node and only `task_retry` clears it, while
`task_started` sets no more than the state: it has to come behind the one and
not behind the other.
-/

namespace ClaudeCluster.Tasks

open Lib (System)
open Raft (NodeId)

def TaskEngineState.isBusy : TaskEngineState → Bool
  | .assigned | .running => true
  | .queued | .pending | .completed | .failed | .cancelled | .skipped | .deadLetter => false

def TaskEngineState.isWaiting : TaskEngineState → Bool
  | .queued | .pending => true
  | .assigned | .running | .completed | .failed | .cancelled | .skipped | .deadLetter => false

structure TaskRecord.Coherent (t : TaskRecord) : Prop where
  busy : t.state.isBusy = true → t.assignedNode ≠ none
  waiting : t.state.isWaiting = true → t.assignedNode = none ∧ t.startedAt = none

-- ---------------------------------------------------------------------------
-- The node in the log
-- ---------------------------------------------------------------------------

def Entry.places? : Entry → Option (Option NodeId)
  | .taskAssign p => some (some p.nodeId)
  | .taskRetry _ => some none
  | .taskStarted _ | .taskComplete _ | .taskFailed _ | .taskCancel _ | .taskDeadLetter _ |
    .taskSubmit _ | .workflowSubmit _ | .workflowAdvance _ => none

def Item.places? (id : TaskId) (item : Item) : Option (Option NodeId) :=
  item.about Entry.places? id

def Item.starts? (item : Item) : Option TaskId :=
  match item.data with
  | .parsed (.taskStarted p) => some p.taskId
  | _ => none

def placement (id : TaskId) (log : List Item) : Option NodeId :=
  (Lib.latest (Item.places? id) log).join

section

variable {host : Host} {db : Db} {log : List Item} {item : Item} {id : TaskId} {t : TaskRecord}

theorem placement_concat (id : TaskId) (log : List Item) (item : Item) :
    placement id (log ++ [item]) = (item.places? id).getD (placement id log) := by
  unfold placement
  rw [Lib.latest_concat]
  cases item.places? id <;> rfl

theorem placement_eq_none (h : ∀ item ∈ log, item.places? id = none) : placement id log = none := by
  rw [placement, Lib.latest_eq_none h]
  rfl

theorem Entry.set_assignedNode (host : Host) (t : TaskRecord) (e : Entry) :
    (e.set host t).assignedNode = e.places?.getD t.assignedNode := by
  cases e <;> rfl

theorem TaskRecord.Inserted.coherent (h : t.Inserted) : t.Coherent where
  busy hb := by
    obtain hst | hst := h.state <;> simp [hst, TaskEngineState.isBusy] at hb
  waiting _ := ⟨h.assignedNode, h.startedAt⟩

theorem Entry.set_coherent {e : Entry} (h : t.Coherent)
    (hs : ∀ p, e = .taskStarted p → t.assignedNode ≠ none) : (e.set host t).Coherent := by
  cases e with
  | taskAssign p => exact ⟨fun _ => Option.some_ne_none _, fun hw => (nomatch hw)⟩
  | taskStarted p => exact ⟨fun _ => hs p rfl, fun hw => (nomatch hw)⟩
  | taskComplete | taskCancel | taskDeadLetter =>
    exact ⟨fun hb => (nomatch hb), fun hw => (nomatch hw)⟩
  | taskRetry p => exact ⟨fun hb => (nomatch hb), fun _ => ⟨rfl, rfl⟩⟩
  | taskFailed | taskSubmit | workflowSubmit | workflowAdvance => exact ⟨h.busy, h.waiting⟩

def Seated (db : Db) (log : List Item) : Prop :=
  ∀ id t, db.getTask id = some t → t.Coherent ∧ t.assignedNode = placement id log

theorem Seated.applied {isLeader : Bool} (h : Seated db log) (hp : item.Plain)
    (hs : ∀ id ∈ item.starts?, (placement id log).isSome)
    (hnew : ∀ id ∈ item.brings host, db.getTask id = none → ∀ i ∈ log, i.places? id = none) :
    Seated (handleEntryCommitted host isLeader db item.data).1 (log ++ [item]) := by
  intro id t' ht'
  rw [placement_concat, Item.places?]
  obtain ⟨t, e, hold, hn, rfl⟩ | ⟨hn, hold⟩ := getTask_committed hp ht'
  · obtain ⟨hcoh, hnode⟩ := h id t hold
    rw [hn.about, Entry.set_assignedNode, hnode]
    refine ⟨Entry.set_coherent hcoh ?_, rfl⟩
    rintro p rfl
    obtain rfl : p.taskId = id := by simpa [Entry.taskId?] using hn.2
    rw [hnode]
    exact Option.isSome_iff_ne_none.mp (hs p.taskId (by simp [Item.starts?, hn.1]))
  · rw [Item.about_eq_none hn, Option.getD_none]
    obtain hold | ⟨hnone, hid, hins⟩ := hold
    · exact h id t' hold
    · rw [placement_eq_none (hnew id hid hnone)]
      exact ⟨hins.coherent, hins.assignedNode⟩

end

-- ---------------------------------------------------------------------------
-- Runs
-- ---------------------------------------------------------------------------

namespace World

variable {w w' : World} {a : Action} {node : NodeId}

/-- No `task_started` is appended for a task that the log has taken from its node. -/
def StartsPlaced (w : World) (a : Action) : Prop :=
  a.node?.any w.leads = true →
    ∀ item ∈ w.proposes a, ∀ id ∈ item.starts?, (placement id w.log).isSome = true

instance (w : World) (a : Action) : Decidable (w.StartsPlaced a) :=
  inferInstanceAs (Decidable (_ → ∀ item ∈ w.proposes a, ∀ id ∈ item.starts?, _))

/-- `randomUUID` hands out new ids: no entry that the node has applied is about
a task that the next one brings to it. -/
def BringsNew (w : World) : Action → Prop
  | .apply node host =>
    ∀ item ∈ w.next node, ∀ id ∈ item.brings host, (w.db node).getTask id = none →
      ∀ i ∈ w.log.take (w.replicas node).applied, i.places? id = none
  | _ => True

instance (w : World) : DecidablePred w.BringsNew
  | .apply .. => inferInstanceAs (Decidable (∀ item ∈ w.next _, ∀ id ∈ item.brings _, _))
  | .submitTask .. | .submitWorkflow .. | .cancelTask .. | .retryDeadLetterTask .. |
    .drainNodeTasks .. | .drainResume .. | .nodeOffline .. | .runSchedulingCycle .. |
    .cycleResume .. | .dispatchStart .. | .dispatchExecute .. | .dispatchComplete .. |
    .dispatchEnd .. | .dispatchError .. | .appendElsewhere _ | .commit _ | .stepDown | .elect .. =>
    .isTrue trivial

/-- Every `task_started` of the log came behind the assignment of its task. -/
theorem reach_placed {G : World → Action → Prop} (hG : ∀ w a, G w a → w.StartsPlaced a)
    (h : cluster.Reach G w) :
    ∀ l ∈ w.logs, Lib.Grown
      (fun before item => ∀ id ∈ item.starts?, (placement id before).isSome = true) l := by
  refine reach_grown ?_ h
  intro w a hg hlead before item after he id hid
  obtain rfl | ⟨node, target, now, -, hretries⟩ := proposes_before he
  · rw [List.append_nil]
    exact hG w a hg hlead item (by simp [he]) id hid
  · obtain ⟨t, -, rfl⟩ := hretries item (by simp)
    cases hid

theorem reach_seated (h : cluster.Reach (fun w a => w.StartsPlaced a ∧ w.BringsNew a) w)
    (node : NodeId) : Seated (w.db node) (w.log.take (w.replicas node).applied) := by
  refine h.invariant
    (I := fun w => ∀ node, Seated (w.db node) (w.log.take (w.replicas node).applied)) ?_ ?_ node
  · intro w hi node id t ht
    simp [World.db, hi.replicas, Db.getTask, Lib.Table.empty, Lib.Table.find?] at ht
  · intro w a w' hr hI hg hs
    have hc := reach_consistent hr
    refine (stepped hs).stores (R := fun _ => Seated) hc hI ?_
    rintro node host item rfl hnext hmem htake
    have hplaced := reach_placed (fun _ _ h => h.1) hr w.log w.log_mem_logs
    refine (hI node).applied (hc.plain_of_mem hmem) ?_ ?_
    · exact hplaced.of_isPrefix (List.take_prefix _ _) _ item [] htake
    · exact hg.2 item hnext

theorem drain_reaches {tasks : List TaskRecord} {t : TaskRecord} (ht : t ∈ tasks) (node : NodeId)
    (now : Time) :
    (⟨.parsed (requeue now t), .drainNodeTasks⟩ : Item) ∈
        (tasks.take 1).map (fun task => ⟨.parsed (requeue now task), .drainNodeTasks⟩) ∨
      ∃ rest, t ∈ rest ∧ .drain node rest ∈ drainJobs node tasks := by
  cases tasks with
  | nil => cases ht
  | cons first rest =>
    obtain rfl | ht := List.mem_cons.mp ht
    · exact .inl (by simp)
    · exact .inr ⟨rest, ht, List.mem_singleton_self _⟩

/-- In every run in which no task is started behind its retry, every node has
coherent rows: a busy task is found on its node, and the failure of that node or
a drain re-queues it. -/
theorem reach_coherent (h : cluster.Reach (fun w a => w.StartsPlaced a ∧ w.BringsNew a) w)
    (node : NodeId) {t : TaskRecord} (ht : t ∈ (w.db node).tasks.rows) :
    t.Coherent ∧
      (t.state.isBusy = true →
        ∃ target, t ∈ (w.db node).getTasksOnNode target ∧
          ∀ now,
            (w.leads node = true →
              ⟨.parsed (requeue now t), .handleNodeOffline⟩ ∈
                w.proposes (.nodeOffline node target now)) ∧
            (⟨.parsed (requeue now t), .drainNodeTasks⟩ ∈
                w.proposes (.drainNodeTasks node target now) ∨
              ∃ rest, t ∈ rest ∧
                .drain node rest ∈ w.jobsAfter (.drainNodeTasks node target now))) := by
  have hcoh := (reach_seated h node t.id t (Db.getTask_of_mem ht)).1
  refine ⟨hcoh, ?_⟩
  intro hb
  obtain ⟨target, htarget⟩ := Option.ne_none_iff_exists'.mp (hcoh.busy hb)
  have hon : t ∈ (w.db node).getTasksOnNode target := by
    simp only [Db.getTasksOnNode, List.mem_insertionSort, List.mem_filter, decide_eq_true_eq]
    refine ⟨ht, htarget, ?_⟩
    cases hst : t.state with
    | assigned => exact .inl rfl
    | running => exact .inr rfl
    | _ => simp [hst, TaskEngineState.isBusy] at hb
  refine ⟨target, hon, ?_⟩
  intro now
  constructor
  · intro hlead
    simp only [proposes, hlead, if_true]
    exact List.mem_map_of_mem hon
  · obtain hnow | ⟨rest, hrest, hjob⟩ := drain_reaches hon node now
    · exact .inl hnow
    · exact .inr ⟨rest, hrest, List.mem_append_right _ hjob⟩

end World

theorem started_task_found :
    ∃ w, cluster.Reach (fun w a => w.StartsPlaced a ∧ w.BringsNew a) w ∧
      ∃ t target, (w.db "n").getTask "u" = some t ∧ t.state = .running ∧
        t ∈ (w.db "n").getTasksOnNode target := by
  obtain ⟨w, hr, hst⟩ := @System.Reach.replay _ _ cluster
    (fun w a => w.StartsPlaced a ∧ w.BringsNew a) _ _
    (fun w => ((w.db "n").getTask "u").map (·.state) = some .running) _
    (World.starts_start ["n"] (some "n")) startedTask (by decide +kernel)
  obtain ⟨t, ht, hst⟩ := Option.map_eq_some_iff.mp hst
  obtain ⟨target, hon, -⟩ :=
    (World.reach_coherent hr "n" (Db.getTask_mem ht)).2 (by rw [hst]; rfl)
  exact ⟨w, hr, t, target, ht, hst, hon⟩

/-- The node of a task that is assigned goes offline, and the dispatch that is on its way
starts the task all the same. -/
def startsRequeuedTask : List Action :=
  [.submitTask "n" "u" {}, .commit 1, .apply "n" (hostOf "n"),
    .runSchedulingCycle "n" 0 fun _ => some "m", .commit 2, .apply "n" (hostOf "n"),
    .cycleResume "n" "u" "m" true [] fun _ => none, .nodeOffline "n" "m" 0,
    .dispatchStart "n" "u" "m", .commit 4, .apply "n" (hostOf "n"), .apply "n" (hostOf "n")]

/-- The task runs, and no node has it. -/
theorem requeued_task_lost :
    ∃ w, cluster.Reach World.BringsNew w ∧
      ∃ t, (w.db "n").getTask "u" = some t ∧ t.state = .running ∧ t.assignedNode = none ∧
        ∀ target, t ∉ (w.db "n").getTasksOnNode target := by
  obtain ⟨w, hr, hst⟩ := @System.Reach.replay _ _ cluster World.BringsNew _ _
    (fun w => ((w.db "n").getTask "u").map (fun t => (t.state, t.assignedNode)) =
      some (.running, none)) _
    (World.starts_start ["n", "m"] (some "n")) startsRequeuedTask (by decide +kernel)
  obtain ⟨t, ht, he⟩ := Option.map_eq_some_iff.mp hst
  obtain ⟨hst, hnode⟩ := Prod.mk.inj he
  refine ⟨w, hr, t, ht, hst, hnode, ?_⟩
  intro target hon
  simp [Db.getTasksOnNode, List.mem_insertionSort, hnode] at hon

end ClaudeCluster.Tasks
