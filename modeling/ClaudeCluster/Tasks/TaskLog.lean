import ClaudeCluster.Lib.Journal
import ClaudeCluster.Tasks.Plugin

/-!
# Rows follow the log

What a replica has in the row of a task is what the last entry about the task
wrote that the replica has applied. No entry about workflows interferes: the
plugin appends no `workflow_advance`.
-/

namespace ClaudeCluster.Tasks

open Lib (System)
open Raft (NodeId)

-- ---------------------------------------------------------------------------
-- The log of one task
-- ---------------------------------------------------------------------------

def Entry.writes? : Entry → Option TaskEngineState
  | .taskAssign _ => some .assigned
  | .taskStarted _ => some .running
  | .taskComplete _ => some .completed
  | .taskCancel _ => some .cancelled
  | .taskRetry _ => some .queued
  | .taskDeadLetter _ => some .deadLetter
  | .taskFailed _ | .taskSubmit _ | .workflowSubmit _ | .workflowAdvance _ => none

def Item.writes? (id : TaskId) (item : Item) : Option TaskEngineState :=
  match item.data with
  | .parsed e => if e.taskId? = some id then e.writes? else none
  | .foreign | .unparsable => none

/-- What an item of the log says about a task, where `f` reads its entry. -/
def Item.about {α : Type} (f : Entry → Option α) (id : TaskId) (item : Item) : Option α :=
  match item.data with
  | .parsed e => if e.taskId? = some id then f e else none
  | .foreign | .unparsable => none

def Item.target? (item : Item) : Option TaskId :=
  match item.data with
  | .parsed e => if e.writes?.isSome then e.taskId? else none
  | .foreign | .unparsable => none

def lastWritten (id : TaskId) (log : List Item) : Option TaskEngineState :=
  (log.filterMap (Item.writes? id)).getLast?

theorem lastWritten_concat (id : TaskId) (log : List Item) (item : Item) :
    lastWritten id (log ++ [item]) = (item.writes? id).or (lastWritten id log) :=
  Lib.latest_concat

theorem Item.writes?_parsed {id : TaskId} {e : Entry} {proposer : Proposer} :
    (Item.mk (.parsed e) proposer).writes? id = if e.taskId? = some id then e.writes? else none :=
  rfl

theorem Item.target?_of_writes {item : Item} {id : TaskId} {st : TaskEngineState}
    (h : item.writes? id = some st) :
    item.target? = some id := by
  unfold writes? at h
  unfold target?
  split at h
  · split at h
    · simp_all
    · cases h
  · cases h
  · cases h

/-- What the log leaves a task in is what its last entry to write a state wrote. -/
theorem exists_of_lastWritten {id : TaskId} {log : List Item} {st : TaskEngineState}
    (h : lastWritten id log = some st) : ∃ item ∈ log, item.writes? id = some st :=
  Lib.exists_of_latest h

theorem Entry.set_state (host : Host) (t : TaskRecord) (e : Entry) :
    (e.set host t).state = e.writes?.getD t.state := by
  cases e <;> rfl

def Follows (db : Db) (log : List Item) : Prop :=
  ∀ id t, db.getTask id = some t →
    t.state = .queued ∨ t.state = .pending ∨ lastWritten id log = some t.state

structure Item.Plain (item : Item) : Prop where
  noAdvance : ∀ p, item.data ≠ .parsed (.workflowAdvance p)
  ofTool : item.proposer = .retryDeadLetterTask → ∃ p, item.data = .parsed (.taskRetry p)

theorem rowAfter_of_plain {host : Host} {db : Db} {e : Entry} (hp : ∀ p, e ≠ .workflowAdvance p)
    (t : TaskRecord) : db.rowAfter host e t = if e.taskId? = some t.id then e.set host t else t := by
  cases e with
  | workflowAdvance p => exact absurd rfl (hp p)
  | _ => rfl

/-- The ids of the tasks an item brings. A node draws those of a workflow when
it applies the submission. -/
def Item.brings (host : Host) (item : Item) : List TaskId :=
  match item.data with
  | .parsed (.taskSubmit p) => [p.taskId]
  | .parsed (.workflowSubmit p) => (p.definition.withIds host).map Prod.fst
  | _ => []

structure TaskRecord.Inserted (t : TaskRecord) : Prop where
  state : t.state = .queued ∨ t.state = .pending
  attempt : t.attempt = 0
  assignedNode : t.assignedNode = none
  startedAt : t.startedAt = none

section

variable {host : Host} {isLeader : Bool} {db : Db} {item : Item} {id : TaskId} {t' : TaskRecord}

def Item.Names (id : TaskId) (item : Item) (e : Entry) : Prop :=
  item.data = .parsed e ∧ e.taskId? = some id

theorem Item.Names.about {α : Type} {e : Entry} (h : item.Names id e) (f : Entry → Option α) :
    item.about f id = f e := by
  obtain ⟨hd, hn⟩ := h
  simp [Item.about, hd, hn]

theorem Item.about_eq_none {α : Type} (h : ∀ e, ¬ item.Names id e) (f : Entry → Option α) :
    item.about f id = none := by
  obtain ⟨data, proposer⟩ := item
  cases data with
  | foreign | unparsable => rfl
  | parsed e => exact if_neg fun hn => h e ⟨rfl, hn⟩

theorem Item.not_names {e : Entry} {proposer : Proposer} (h : e.taskId? ≠ some id) (e' : Entry) :
    ¬ (Item.mk (.parsed e) proposer).Names id e' := by
  rintro ⟨he, hn⟩
  cases he
  exact h hn

theorem getTask_after {t : TaskRecord} (hp : item.Plain) (h : db.getTask id = some t) :
    (∃ e, item.Names id e ∧
        (handleEntryCommitted host isLeader db item.data).1.getTask id = some (e.set host t)) ∨
      (∀ e, ¬ item.Names id e) ∧
        (handleEntryCommitted host isLeader db item.data).1.getTask id = some t := by
  obtain ⟨data, proposer⟩ := item
  cases data with
  | foreign | unparsable => exact .inr ⟨fun e he => (nomatch he.1), h⟩
  | parsed e =>
    have hplain : ∀ p, e ≠ .workflowAdvance p := fun p he => hp.noAdvance p (congrArg _ he)
    rw [handleEntryCommitted_parsed, getTask_applyEntry h, rowAfter_of_plain hplain,
      Db.getTask_id h]
    split
    case isTrue hn => exact .inl ⟨e, ⟨rfl, hn⟩, rfl⟩
    case isFalse hn => exact .inr ⟨Item.not_names hn, rfl⟩

theorem getTask_fixed {t : TaskRecord} (hp : item.Plain) (h : db.getTask id = some t) :
    ∃ t', (handleEntryCommitted host isLeader db item.data).1.getTask id = some t' ∧
      t'.fixed = t.fixed := by
  obtain ⟨e, -, ht'⟩ | ⟨-, ht'⟩ := @getTask_after host isLeader db item id t hp h
  · exact ⟨_, ht', e.set_fixed host t⟩
  · exact ⟨t, ht', rfl⟩

/-- Where a row comes from that a node has after an entry: the entry set it, or
left it alone, or brought it. -/
theorem getTask_committed (hp : item.Plain)
    (h : (handleEntryCommitted host isLeader db item.data).1.getTask id = some t') :
    (∃ t e, db.getTask id = some t ∧ item.Names id e ∧ t' = e.set host t) ∨
      (∀ e, ¬ item.Names id e) ∧
        (db.getTask id = some t' ∨
          db.getTask id = none ∧ id ∈ item.brings host ∧ t'.Inserted) := by
  cases hold : db.getTask id with
  | some t =>
    obtain ⟨e, hn, ht'⟩ | ⟨hn, ht'⟩ := @getTask_after host isLeader db item id t hp hold
    · exact .inl ⟨t, e, rfl, hn, Option.some.inj (h.symm.trans ht')⟩
    · exact .inr ⟨hn, .inl (ht'.symm.trans h)⟩
  | none =>
    right
    obtain ⟨data, proposer⟩ := item
    cases data with
    | foreign | unparsable => exact absurd (hold.symm.trans h) (by simp)
    | parsed e =>
      rw [handleEntryCommitted_parsed] at h
      obtain ⟨p, rfl, rfl, rfl⟩ | ⟨p, key, d, rfl, hd, rfl⟩ := getTask_new hold h
      · refine ⟨Item.not_names (by simp [Entry.taskId?]), .inr ⟨rfl, List.mem_singleton_self _, ?_⟩⟩
        refine ⟨?_, rfl, rfl, rfl⟩
        simp only [TaskSubmitPayload.row]
        split <;> simp
      · refine ⟨Item.not_names (by simp [Entry.taskId?]), .inr ⟨rfl, List.mem_map_of_mem hd, ?_⟩⟩
        refine ⟨?_, rfl, rfl, rfl⟩
        simp only [WorkflowTaskDef.row]
        split <;> simp

theorem getTask_isSome_applied {c : Committed} (h : (db.getTask id).isSome) :
    ((handleEntryCommitted host isLeader db c).1.getTask id).isSome := by
  obtain ⟨t, ht⟩ := Option.isSome_iff_exists.mp h
  cases c with
  | foreign | unparsable => exact h
  | parsed e => rw [handleEntryCommitted_parsed, getTask_applyEntry ht]; rfl

theorem Follows.applied {log : List Item} (h : Follows db log) (hp : item.Plain) :
    Follows (handleEntryCommitted host isLeader db item.data).1 (log ++ [item]) := by
  intro id t' ht'
  rw [lastWritten_concat]
  change _ ∨ _ ∨ (item.about Entry.writes? id).or _ = _
  obtain ⟨t, e, hold, hn, rfl⟩ | ⟨hn, hold⟩ := getTask_committed hp ht'
  · rw [hn.about, Entry.set_state]
    cases e.writes? with
    | some st => exact .inr (.inr rfl)
    | none => exact h id t hold
  · rw [Item.about_eq_none hn]
    obtain hold | ⟨-, -, hnew⟩ := hold
    · exact h id t' hold
    · exact hnew.state.imp_right .inl

end

-- ---------------------------------------------------------------------------
-- Steps
-- ---------------------------------------------------------------------------

namespace World

variable {w w' : World} {a : Action} {node : NodeId}

structure Stepped (w : World) (a : Action) (w' : World) : Prop where
  enabled : w.Enabled a
  replicas : w'.replicas = w.replicasAfter a
  leader : w'.leader = w.leaderAfter a
  log : w'.log = w.logAfter a
  committed : w'.committed = w.committedAfter a
  jobs : w'.jobs = w.jobsAfter a
  history : w'.history = w.historyAfter a
  trace : w'.trace = w.trace ++ w.events a

theorem stepped (h : w.step a = some w') : w.Stepped a w' := by
  simp only [step, Option.ite_none_right_eq_some, Option.some.injEq] at h
  obtain ⟨he, rfl⟩ := h
  exact ⟨he, rfl, rfl, rfl, rfl, rfl, rfl, rfl⟩

def logs (w : World) : List (List Item) := w.log :: w.history

theorem log_mem_logs (w : World) : w.log ∈ w.logs := List.mem_cons_self

/-- A property of logs that prefixes inherit goes over to the next state, when
what is appended has it. -/
theorem Stepped.logs {P : List Item → Prop} (h : w.Stepped a w')
    (hpre : ∀ l l', P l → l' <+: l → P l') (hl : ∀ l ∈ w.logs, P l)
    (hnew : a.node?.any w.leads = true → P (w.log ++ w.proposes a)) : ∀ l ∈ w'.logs, P l := by
  have hlog : P w.log := hl _ w.log_mem_logs
  have hhist : ∀ l ∈ w.history, P l := fun l hm => hl l (List.mem_cons_of_mem _ hm)
  intro l hm
  rw [World.logs, h.log, h.history, List.mem_cons] at hm
  cases a with
  | elect node log =>
    simp only [logAfter, historyAfter] at hm
    obtain rfl | hm := hm
    · obtain ⟨⟨l', hl', hp⟩, -⟩ := h.enabled
      exact hpre l' l (hl l' hl') hp
    · exact hl l hm
  | _ =>
    simp only [logAfter, historyAfter] at hm
    obtain rfl | hm := hm
    · split
      · exact hnew ‹_›
      · exact hlog
    · exact hhist l hm

theorem Stepped.log_of_node (h : w.Stepped a w') (hn : a.node? = some node) :
    w'.log = if w.leads node then w.log ++ w.proposes a else w.log := by
  rw [h.log]
  cases a with
  | elect => cases hn
  | _ =>
    simp only [logAfter]
    rw [hn, Option.any_some]

section
variable {leader : NodeId} (hlead : w.leader = some leader)
include hlead

theorem leads_leader : w.leads leader = true := by simp [leads, hlead]

theorem eq_of_leads (hn : w.leads node = true) : node = leader := by
  simpa [leads, hlead, eq_comm] using hn

theorem not_leads (hn : node ≠ leader) : w.leads node = false := by
  simpa [leads, hlead, eq_comm] using hn

theorem Stepped.log_of_leader (h : w.Stepped a w') (hn : a.node? = some leader) :
    w'.log = w.log ++ w.proposes a := by
  rw [h.log_of_node hn, leads_leader hlead]
  rfl

theorem Stepped.log_of_other (h : w.Stepped a w') (hn : a.node? = some node)
    (hne : node ≠ leader) : w'.log = w.log := by
  rw [h.log_of_node hn, not_leads hlead hne]
  rfl

end

theorem Stepped.log_prefix (h : w.Stepped a w') (ha : ∀ node log, a ≠ .elect node log) :
    w.log <+: w'.log := by
  rw [h.log]
  cases a with
  | elect node log => exact absurd rfl (ha node log)
  | _ =>
    simp only [logAfter]
    split
    · exact List.prefix_append _ _
    · exact List.prefix_rfl

theorem proposes_plain {item : Item} (h : item ∈ w.proposes a) : item.Plain := by
  cases a with
  | apply node host =>
    simp only [proposes, List.mem_map, Option.mem_toList, applyNext] at h
    obtain ⟨e, he, rfl⟩ := h
    refine ⟨?_, by simp⟩
    rintro p ⟨rfl⟩
    split at he
    · exact handleEntryCommitted_ne_advance _ _ _ _ p he
    · cases he
  | cancelTask | retryDeadLetterTask =>
    simp only [proposes] at h
    split at h
    · cases h
    · split at h
      · cases h
      · obtain rfl := List.mem_singleton.mp h
        constructor <;> simp
  | drainNodeTasks | drainResume =>
    simp only [proposes, List.mem_map] at h
    obtain ⟨t, -, rfl⟩ := h
    constructor <;> simp [requeue]
  | nodeOffline | runSchedulingCycle =>
    simp only [proposes] at h
    split at h
    · obtain ⟨t, -, rfl⟩ := List.mem_map.mp h
      constructor <;> simp [requeue]
    · cases h
  | cycleResume =>
    simp only [proposes, List.mem_map] at h
    obtain ⟨t, -, rfl⟩ := h
    constructor <;> simp
  | dispatchExecute | dispatchEnd | commit | stepDown | elect => cases h
  | _ =>
    obtain rfl := List.mem_singleton.mp h
    constructor <;> simp

theorem proposes_length (ha : ∀ node target now, a ≠ .nodeOffline node target now) :
    (w.proposes a).length ≤ 1 := by
  cases a with
  | nodeOffline node target now => exact absurd rfl (ha node target now)
  | cancelTask | retryDeadLetterTask =>
    simp only [proposes]
    split
    · simp
    · split <;> simp
  | runSchedulingCycle =>
    simp only [proposes]
    split
    · simp [Option.length_toList_le]
    · simp
  | cycleResume | apply => simp [proposes, Option.length_toList_le]
  | _ => simp [proposes]

theorem proposes_before {before after : List Item} {item : Item}
    (h : w.proposes a = before ++ item :: after) :
    before = [] ∨
      ∃ node target now, a = .nodeOffline node target now ∧
        ∀ i ∈ before ++ [item], ∃ t ∈ (w.db node).getTasksOnNode target,
          i = ⟨.parsed (requeue now t), .handleNodeOffline⟩ := by
  by_cases ha : ∀ node target now, a ≠ .nodeOffline node target now
  · have hlen := proposes_length (w := w) ha
    simp only [h, List.length_append, List.length_cons] at hlen
    exact .inl (List.length_eq_zero_iff.mp (by omega))
  · push Not at ha
    obtain ⟨node, target, now, rfl⟩ := ha
    refine .inr ⟨node, target, now, rfl, ?_⟩
    intro i hi
    have hmem : i ∈ w.proposes (.nodeOffline node target now) := by
      rw [h]
      simp only [List.mem_append, List.mem_cons] at hi ⊢
      tauto
    simp only [proposes] at hmem
    split at hmem
    · obtain ⟨t, ht, rfl⟩ := List.mem_map.mp hmem
      exact ⟨t, ht, rfl⟩
    · cases hmem

structure Consistent (w : World) : Prop where
  plain : ∀ l ∈ w.logs, ∀ item ∈ l, item.Plain
  committed_le : w.committed ≤ w.log.length
  applied_le : ∀ node, (w.replicas node).applied ≤ w.committed
  follows : ∀ node, Follows (w.db node) (w.log.take (w.replicas node).applied)

theorem Consistent.plain_of_mem {item : Item} (h : w.Consistent) (hi : item ∈ w.log) : item.Plain :=
  h.plain w.log w.log_mem_logs item hi

theorem Starts.logs (h : w.Starts) : w.logs = [[]] := by rw [World.logs, h.log, h.history]

theorem Starts.consistent (h : w.Starts) : w.Consistent where
  plain l hl item hi := by
    rw [h.logs, List.mem_singleton] at hl
    subst hl
    cases hi
  committed_le := by simp [h.committed]
  applied_le node := by simp [h.replicas]
  follows node id t ht := by simp [World.db, h.replicas, Db.getTask, Lib.Table.empty, Lib.Table.find?] at ht

theorem Stepped.committed_prefix (h : w.Stepped a w') :
    w.log.take w.committed <+: w'.log := by
  rw [h.log]
  cases a with
  | elect node log => exact h.enabled.2
  | _ =>
    simp only [logAfter]
    split
    · exact (List.take_prefix _ _).trans (List.prefix_append _ _)
    · exact List.take_prefix _ _

theorem Stepped.take_log (h : w.Stepped a w') (hc : w.Consistent) {m : Nat} (hm : m ≤ w.committed) :
    w'.log.take m = w.log.take m := by
  have hlen : (w.log.take w.committed).length = w.committed := by
    rw [List.length_take, Nat.min_eq_left hc.committed_le]
  have htake := List.prefix_iff_eq_take.mp h.committed_prefix
  rw [hlen] at htake
  calc
    w'.log.take m = (w'.log.take w.committed).take m := by
      rw [List.take_take, Nat.min_eq_left hm]
    _ = (w.log.take w.committed).take m := by rw [← htake]
    _ = w.log.take m := by rw [List.take_take, Nat.min_eq_left hm]

theorem Consistent.next_eq (hc : w.Consistent)
    (h : (w.replicas node).applied < w.committed) :
    ∃ item, w.next node = some item ∧ item ∈ w.log ∧
      w.log.take ((w.replicas node).applied + 1) =
        w.log.take (w.replicas node).applied ++ [item] := by
  have hlt : (w.replicas node).applied < w.log.length := h.trans_le hc.committed_le
  refine ⟨w.log[(w.replicas node).applied], List.getElem?_eq_getElem hlt, List.getElem_mem hlt, ?_⟩
  rw [List.take_add_one, List.getElem?_eq_getElem hlt, Option.toList_some]

theorem Stepped.replicas_eq (h : w.Stepped a w') (ha : ∀ host, a ≠ .apply node host) :
    w'.replicas node = w.replicas node := by
  rw [h.replicas]
  cases a with
  | apply n host =>
    have hn : node ≠ n := by
      rintro rfl
      exact ha host rfl
    simp [replicasAfter, hn]
  | _ => rfl

theorem Stepped.replica_applied (h : w.Stepped (.apply node host) w') :
    w'.replicas node = ⟨(w.applyNext node host).1, (w.replicas node).applied + 1⟩ := by
  simp [h.replicas, replicasAfter]

theorem Stepped.db_applied {item : Item} (h : w.Stepped (.apply node host) w')
    (hnext : w.next node = some item) :
    w'.db node = (handleEntryCommitted host (w.leads node) (w.db node) item.data).1 := by
  simp [World.db, h.replica_applied, applyNext, hnext]

/-- A relation between what a node stores and what it has applied goes over to
the next state, when applying an entry keeps it. -/
theorem Stepped.stores {R : NodeId → Db → List Item → Prop} (h : w.Stepped a w')
    (hc : w.Consistent)
    (hR : ∀ node, R node (w.db node) (w.log.take (w.replicas node).applied))
    (happ : ∀ node host item, a = .apply node host → w.next node = some item → item ∈ w.log →
      w.log.take ((w.replicas node).applied + 1) =
        w.log.take (w.replicas node).applied ++ [item] →
      R node (handleEntryCommitted host (w.leads node) (w.db node) item.data).1
        (w.log.take (w.replicas node).applied ++ [item])) (node : NodeId) :
    R node (w'.db node) (w'.log.take (w'.replicas node).applied) := by
  by_cases ha : ∃ host, a = .apply node host
  · obtain ⟨host, rfl⟩ := ha
    obtain ⟨item, hnext, hmem, htake⟩ := hc.next_eq h.enabled.1
    rw [h.db_applied hnext, h.replica_applied, h.take_log hc h.enabled.1, htake]
    exact happ node host item rfl hnext hmem htake
  · have hr := h.replicas_eq fun host he => ha ⟨host, he⟩
    rw [World.db, hr, h.take_log hc (hc.applied_le node)]
    exact hR node

theorem Stepped.consistent (h : w.Stepped a w') (hc : w.Consistent) : w'.Consistent := by
  have hcommitted : w.committed ≤ w'.committed := by
    rw [h.committed]
    cases a with
    | commit index => exact h.enabled.1
    | _ => exact le_rfl
  have hlen : w'.committed ≤ w'.log.length := by
    have hpre := h.committed_prefix.length_le
    rw [List.length_take, Nat.min_eq_left hc.committed_le] at hpre
    rw [h.committed]
    cases a with
    | commit index =>
      have hlog : w'.log = w.log := by rw [h.log]; simp [logAfter, Action.node?]
      rw [hlog]
      exact h.enabled.2
    | _ => exact hpre
  refine ⟨?_, hlen, ?_, ?_⟩
  · refine h.logs (P := fun l => ∀ item ∈ l, item.Plain) ?_ hc.plain ?_
    · exact fun l l' hl hp item hi => hl item (hp.subset hi)
    · intro _ item hi
      obtain hi | hi := List.mem_append.mp hi
      · exact hc.plain_of_mem hi
      · exact proposes_plain hi
  · intro node
    rw [h.replicas]
    cases a with
    | apply n host =>
      simp only [replicasAfter]
      split
      · exact h.enabled.1.trans_le hcommitted
      · exact (hc.applied_le node).trans hcommitted
    | _ => exact (hc.applied_le node).trans hcommitted
  · refine h.stores (R := fun _ => Follows) hc hc.follows ?_
    intro node host item _ _ hmem _
    exact (hc.follows node).applied (hc.plain_of_mem hmem)

theorem Stepped.applied_le (h : w.Stepped a w') (node : NodeId) :
    (w.replicas node).applied ≤ (w'.replicas node).applied := by
  rw [h.replicas]
  cases a with
  | apply n host =>
    simp only [replicasAfter]
    split
    case isTrue hn => simp [hn]
    case isFalse => exact le_rfl
  | _ => exact le_rfl

theorem Stepped.getElem?_log (h : w.Stepped a w') (hc : w.Consistent) {i : Nat}
    (hi : i < w.committed) : w'.log[i]? = w.log[i]? := by
  have htake := h.take_log hc le_rfl
  rw [← List.getElem?_take_of_lt hi, htake, List.getElem?_take_of_lt hi]

theorem reach_consistent {G : World → Action → Prop} (h : cluster.Reach G w) : w.Consistent :=
  h.invariant (fun _ => Starts.consistent) fun _ _ _ _ hc _ hs => (stepped hs).consistent hc

/-- What every entry suits that a guarded step appends, all logs have grown by. -/
theorem reach_grown {G : World → Action → Prop} {P : List Item → Item → Prop}
    (hG : ∀ w a, G w a → a.node?.any w.leads = true → ∀ before item after,
      w.proposes a = before ++ item :: after → P (w.log ++ before) item)
    (h : cluster.Reach G w) : ∀ l ∈ w.logs, Lib.Grown P l := by
  refine h.invariant (I := fun w => ∀ l ∈ w.logs, Lib.Grown P l) ?_ ?_
  · intro w hi l hl
    rw [hi.logs, List.mem_singleton] at hl
    subst hl
    exact Lib.grown_nil
  · intro w a w' _ hI hg hs
    refine (stepped hs).logs (fun l l' => Lib.Grown.of_isPrefix) hI ?_
    intro hlead
    exact (hI w.log w.log_mem_logs).append (hG w a hg hlead)

end World

end ClaudeCluster.Tasks
