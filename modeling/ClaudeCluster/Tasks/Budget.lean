import ClaudeCluster.Tasks.Terminal

/-!
# The retry budget

A `task_retry` carries the attempt the task is to have. The leader takes it
from a row: the failure of the task adds one to it, a drain or the loss of the
node leaves it as it is. But the row is of the moment it was read, and what is
appended counts when it is applied. As long as no retry is made of a row that
the log has already left behind, the attempts of a task climb, one for each
failure that is answered by a retry.
-/

namespace ClaudeCluster.Tasks

open Lib (System)
open Raft (NodeId)

-- ---------------------------------------------------------------------------
-- Attempts in the log
-- ---------------------------------------------------------------------------

def Entry.attempt? : Entry → Option Int
  | .taskRetry p => some p.attempt
  | .taskAssign _ | .taskStarted _ | .taskComplete _ | .taskFailed _ | .taskCancel _ |
    .taskDeadLetter _ | .taskSubmit _ | .workflowSubmit _ | .workflowAdvance _ => none

def Item.attempt? (id : TaskId) (item : Item) : Option Int := item.about Entry.attempt? id

def attemptIn (id : TaskId) (log : List Item) : Int := (Lib.latest (Item.attempt? id) log).getD 0

/-- `retry_dead_letter_task` gives the task its budget back. -/
def Item.resets (id : TaskId) (item : Item) : Bool :=
  item.proposer = .retryDeadLetterTask && (item.attempt? id).isSome

def Item.answersFailure (id : TaskId) (item : Item) : Bool :=
  item.proposer = .handleStateMachineAction && (item.attempt? id).isSome

/-- The item takes the task to no lower attempt, and to a higher one if it
answers a failure. The tool starts anew. -/
def Item.Climbs (id : TaskId) (log : List Item) (item : Item) : Prop :=
  ∀ r, item.attempt? id = some r →
    if item.resets id then r = 0
    else attemptIn id log + (if item.answersFailure id then 1 else 0) ≤ r

section

variable {id : TaskId} {log : List Item} {item : Item}

theorem Item.attempt?_eq_some {r : Int} :
    item.attempt? id = some r ↔
      ∃ p : TaskRetryPayload, item.data = .parsed (.taskRetry p) ∧ p.taskId = id ∧ p.attempt = r := by
  obtain ⟨data, proposer⟩ := item
  cases data with
  | foreign | unparsable => simp [Item.attempt?, Item.about]
  | parsed e => cases e <;> simp [Item.attempt?, Item.about, Entry.attempt?, Entry.taskId?]

theorem attemptIn_concat (id : TaskId) (log : List Item) (item : Item) :
    attemptIn id (log ++ [item]) = (item.attempt? id).getD (attemptIn id log) := by
  unfold attemptIn
  rw [Lib.latest_concat]
  cases item.attempt? id <;> rfl

theorem Entry.set_attempt (host : Host) (t : TaskRecord) (e : Entry) :
    (e.set host t).attempt = e.attempt?.getD t.attempt := by
  cases e <;> rfl

theorem Item.Climbs.le {r : Int} (h : item.Climbs id log) (hr : item.attempt? id = some r)
    (hn : item.resets id = false) : attemptIn id log ≤ r := by
  have hclimb := h r hr
  rw [if_neg (by simp [hn])] at hclimb
  split at hclimb <;> omega

theorem attemptIn_nonneg (h : Lib.Grown (Item.Climbs id) log) : 0 ≤ attemptIn id log := by
  induction log using List.reverseRecOn with
  | nil => exact le_rfl
  | append_singleton log item ih =>
    have hlog := ih (h.of_isPrefix (List.prefix_append _ _))
    have hitem := h log item [] rfl
    rw [attemptIn_concat]
    cases hr : item.attempt? id with
    | none => exact hlog
    | some r =>
      rw [Option.getD_some]
      cases hn : item.resets id with
      | true =>
        have hclimb := hitem r hr
        rw [if_pos hn] at hclimb
        exact hclimb.ge
      | false => exact hlog.trans (hitem.le hr hn)

theorem attemptIn_append {before segment : List Item}
    (h : Lib.Grown (Item.Climbs id) (before ++ segment))
    (hs : ∀ item ∈ segment, item.resets id = false) :
    attemptIn id before + segment.countP (Item.answersFailure id) ≤
      attemptIn id (before ++ segment) := by
  induction segment using List.reverseRecOn with
  | nil => simp
  | append_singleton segment item ih =>
    rw [← List.append_assoc] at h ⊢
    have hseg := ih (h.of_isPrefix (List.prefix_append _ _)) fun i hi => hs i (by simp [hi])
    have hitem := h (before ++ segment) item [] rfl
    have hreset := hs item (by simp)
    rw [attemptIn_concat, List.countP_append, List.countP_singleton]
    cases hr : item.attempt? id with
    | none => simpa [Item.answersFailure, hr] using hseg
    | some r =>
      have hclimb := hitem r hr
      rw [if_neg (by simp [hreset])] at hclimb
      rw [Option.getD_some]
      cases hans : item.answersFailure id with
      | true =>
        rw [hans, if_pos rfl] at hclimb
        simp only [if_true]
        omega
      | false =>
        rw [hans, if_neg Bool.false_ne_true] at hclimb
        simp only [Bool.false_eq_true, if_false]
        omega

end

-- ---------------------------------------------------------------------------
-- Rows
-- ---------------------------------------------------------------------------

def Db.Affords (db : Db) (id : TaskId) (attempt : Int) : Prop :=
  ∃ t, db.getTask id = some t ∧ ∀ m : Int, t.policy.maxRetries = some (m : ℚ) → attempt ≤ max m 0

def Counts (db : Db) (log : List Item) : Prop :=
  ∀ id t, db.getTask id = some t →
    t.attempt = 0 ∨ Lib.latest (Item.attempt? id) log = some t.attempt

section

variable {host : Host} {isLeader : Bool} {db : Db} {log : List Item} {item : Item} {id : TaskId}
  {t : TaskRecord}

theorem Db.getTask_of_mem_getTasksOnNode {target : NodeId}
    (h : t ∈ db.getTasksOnNode target) : db.getTask t.id = some t := by
  simp only [Db.getTasksOnNode, List.mem_insertionSort, List.mem_filter] at h
  exact Db.getTask_of_mem h.1

theorem Db.affords_zero (h : db.getTask id = some t) : db.Affords id 0 :=
  ⟨t, h, fun m _ => le_max_right m 0⟩

theorem Db.affords_succ (h : db.getTask id = some t) (ha : t.policy.allows t.attempt = true) :
    db.Affords id (t.attempt + 1) := by
  refine ⟨t, h, ?_⟩
  intro m hm
  simp only [RetryPolicy.allows, hm, Option.any_some, Bool.and_eq_true, decide_eq_true_eq] at ha
  have hlt : t.attempt < m := by exact_mod_cast ha.2
  exact le_max_of_le_left hlt

theorem Db.Affords.applied {r : Int} (h : db.Affords id r) (hp : item.Plain) :
    (handleEntryCommitted host isLeader db item.data).1.Affords id r := by
  obtain ⟨t, ht, hm⟩ := h
  obtain ⟨t', ht', hfixed⟩ := @getTask_fixed host isLeader _ _ _ _ hp ht
  have hpolicy : t'.policy = t.policy := by
    change t'.fixed.policy = t.fixed.policy
    rw [hfixed]
  exact ⟨t', ht', hpolicy ▸ hm⟩

theorem Counts.applied (h : Counts db log) (hp : item.Plain) :
    Counts (handleEntryCommitted host isLeader db item.data).1 (log ++ [item]) := by
  intro id t' ht'
  rw [Lib.latest_concat, Item.attempt?]
  obtain ⟨t, e, hold, hn, rfl⟩ | ⟨hn, hold⟩ := getTask_committed hp ht'
  · rw [hn.about, Entry.set_attempt]
    cases e.attempt? with
    | some r => exact .inr rfl
    | none => exact h id t hold
  · rw [Item.about_eq_none hn]
    obtain hold | ⟨-, -, hins⟩ := hold
    · exact h id t' hold
    · exact .inl hins.attempt

theorem Counts.le (h : Counts db log) (hg : Lib.Grown (Item.Climbs id) log)
    (ht : db.getTask id = some t) : t.attempt ≤ attemptIn id log := by
  obtain hz | hl := h id t ht
  · exact hz ▸ attemptIn_nonneg hg
  · rw [attemptIn, hl]
    exact le_rfl

theorem applyEntry_retry {e : Entry} {taskId : TaskId} {attempt : Int} {after : Time}
    (h : (applyEntry host db e).outcome = .ok (some (.retry taskId attempt after))) :
    ∃ q, e = .taskFailed q := by
  cases e with
  | taskFailed q => exact ⟨q, rfl⟩
  | taskSubmit p =>
    simp only [applyEntry, handleTaskSubmit] at h
    split at h <;> cases h
  | taskComplete p =>
    simp only [applyEntry, handleTaskComplete] at h
    split at h
    · cases h
    · obtain ⟨_, -, hc⟩ := Option.map_eq_some_iff.mp (Except.ok.inj h)
      cases hc
  | taskCancel p =>
    simp only [applyEntry, handleTaskCancel] at h
    split at h
    · cases h
    · split at h
      · obtain ⟨_, -, hc⟩ := Option.map_eq_some_iff.mp (Except.ok.inj h)
        cases hc
      · cases h
  | workflowSubmit p =>
    simp only [applyEntry, handleWorkflowSubmit] at h
    split at h
    · cases h
    · split at h <;> cases h
  | workflowAdvance p =>
    simp only [applyEntry, handleWorkflowAdvance] at h
    split at h
    · split at h <;> cases h
    · split at h <;> cases h
  | _ => cases h

theorem followUp_exhausted {p : TaskFailedPayload} (host : Host)
    (ht : db.getTask p.taskId = some t) (hno : t.policy.allows t.attempt = false) :
    ∃ reason, (handleEntryCommitted host true db (.parsed (.taskFailed p))).2 =
      some (.taskDeadLetter ⟨p.taskId, reason⟩) := by
  simp only [handleEntryCommitted, Applied.settled, applyEntry_taskFailed ht, failureOutcome, hno]
  exact ⟨_, rfl⟩

theorem followUp_retry {c : Committed} {p : TaskRetryPayload}
    (h : (handleEntryCommitted host isLeader db c).2 = some (.taskRetry p)) :
    ∃ q t, c = .parsed (.taskFailed q) ∧ q.taskId = p.taskId ∧ db.getTask p.taskId = some t ∧
      t.policy.allows t.attempt = true ∧ p.attempt = t.attempt + 1 := by
  cases c with
  | foreign | unparsable => cases h
  | parsed e =>
    simp only [handleEntryCommitted, Applied.settled] at h
    split at h
    case h_2 | h_3 => cases h
    case h_1 action hout =>
      cases isLeader with
      | false => cases h
      | true =>
        obtain ⟨taskId, attempt, after, rfl⟩ : ∃ taskId attempt after,
            action = .retry taskId attempt after := by
          cases action with
          | retry taskId attempt after => exact ⟨taskId, attempt, after, rfl⟩
          | _ => cases h
        cases h
        obtain ⟨q, rfl⟩ := applyEntry_retry hout
        cases ht : db.getTask q.taskId with
        | none =>
          simp only [applyEntry, handleTaskFailed, ht] at hout
          cases hout
        | some t =>
          rw [applyEntry_taskFailed ht, failureOutcome] at hout
          split at hout
          case isFalse => cases hout
          case isTrue ha =>
            split at hout
            · cases hout
            · cases hout
              exact ⟨q, t, rfl, rfl, ht, ha, rfl⟩

end

-- ---------------------------------------------------------------------------
-- Steps
-- ---------------------------------------------------------------------------

def Action.keepsLeader : Action → Bool
  | .stepDown | .elect .. => false
  | _ => true

namespace World

variable {w w' : World} {a : Action} {node leader : NodeId} {id : TaskId}

def reads (w : World) : Action → List TaskRecord
  | .drainNodeTasks node target _ => ((w.db node).getTasksOnNode target).take 1
  | .drainResume _ rest _ => rest.take 1
  | .nodeOffline node target _ => (w.db node).getTasksOnNode target
  | .apply node _ =>
    match w.next node with
    | some ⟨.parsed (.taskFailed p), _⟩ =>
      ((w.db node).getTask p.taskId).toList.filter fun t => t.policy.allows t.attempt
    | _ => []
  | _ => []

/-- The leader makes no retry of a record whose attempt its log has left behind. -/
def RetriesCurrent (w : World) (a : Action) : Prop :=
  a.node?.any w.leads = true → ∀ s ∈ w.reads a, attemptIn s.id w.log ≤ s.attempt

instance (w : World) (a : Action) : Decidable (w.RetriesCurrent a) :=
  inferInstanceAs (Decidable (_ → ∀ s ∈ w.reads a, _))

theorem reads_cases {s : TaskRecord} (h : s ∈ w.reads a) (hn : a.node? = some node) :
    (w.db node).getTask s.id = some s ∨ ∃ rest now, a = .drainResume node rest now ∧ s ∈ rest := by
  cases a with
  | drainNodeTasks n target now =>
    cases hn
    exact .inl (Db.getTask_of_mem_getTasksOnNode (List.mem_of_mem_take h))
  | drainResume n rest now =>
    cases hn
    exact .inr ⟨rest, now, rfl, List.mem_of_mem_take h⟩
  | nodeOffline n target now =>
    cases hn
    exact .inl (Db.getTask_of_mem_getTasksOnNode h)
  | apply n host =>
    cases hn
    simp only [reads] at h
    split at h
    · simp only [List.mem_filter, Option.mem_toList] at h
      exact .inl (Db.getTask_id h.1 ▸ h.1)
    · cases h
  | _ => cases h

/-- What a retry is made of, and the attempt it carries: the tool starts anew, a
drain or the loss of a node copies a record, the answer to a failure counts on. -/
inductive MadeOf (db : Db) (records : List TaskRecord) (id : TaskId) (item : Item) : Int → Prop
  | reset {t : TaskRecord} : item.resets id = true → db.getTask id = some t →
      MadeOf db records id item 0
  | copied {s : TaskRecord} : item.resets id = false → item.answersFailure id = false →
      s ∈ records → s.id = id → MadeOf db records id item s.attempt
  | counted {s : TaskRecord} : item.resets id = false → s ∈ records → db.getTask id = some s →
      s.policy.allows s.attempt = true → MadeOf db records id item (s.attempt + 1)

theorem proposes_retry {item : Item} {r : Int} (h : item ∈ w.proposes a)
    (hr : item.attempt? id = some r) (hn : a.node? = some node) :
    MadeOf (w.db node) (w.reads a) id item r := by
  obtain ⟨data, proposer⟩ := item
  obtain ⟨p, rfl, rfl, rfl⟩ := Item.attempt?_eq_some.mp hr
  cases a with
  | retryDeadLetterTask n taskId now =>
    cases hn
    simp only [proposes] at h
    split at h
    · cases h
    · rename_i t ht
      split at h
      · cases h
      · cases List.mem_singleton.mp h
        exact .reset (by simp [Item.resets, hr]) ht
  | drainNodeTasks n target now =>
    obtain ⟨s, hs, he⟩ := List.mem_map.mp h
    cases he
    exact .copied rfl rfl hs rfl
  | drainResume n rest now =>
    obtain ⟨s, hs, he⟩ := List.mem_map.mp h
    cases he
    exact .copied rfl rfl hs rfl
  | nodeOffline n target now =>
    simp only [proposes] at h
    split at h
    · obtain ⟨s, hs, he⟩ := List.mem_map.mp h
      cases he
      exact .copied rfl rfl hs rfl
    · cases h
  | apply n host =>
    cases hn
    simp only [proposes, List.mem_map, Option.mem_toList, applyNext] at h
    obtain ⟨e, he, hitem⟩ := h
    cases hitem
    split at he
    · rename_i item hnext
      obtain ⟨q, t, hdata, hid, ht, ha, hp⟩ := followUp_retry he
      rw [hp]
      refine .counted rfl ?_ ht ha
      obtain ⟨data, proposer⟩ := item
      obtain rfl : data = _ := hdata
      simp [reads, hnext, hid, ht, ha]
    · cases he
  | cancelTask =>
    simp only [proposes] at h
    split at h
    · cases h
    · split at h
      · cases h
      · cases List.mem_singleton.mp h
  | runSchedulingCycle =>
    simp only [proposes] at h
    split at h
    · obtain ⟨t, -, ht⟩ := List.mem_map.mp h
      cases ht
    · cases h
  | cycleResume =>
    obtain ⟨t, -, ht⟩ := List.mem_map.mp h
    cases ht
  | dispatchExecute | dispatchEnd | commit | stepDown | elect => cases h
  | _ => cases List.mem_singleton.mp h

/-- The retries a step appends together are of different rows. -/
theorem attemptIn_before {before after : List Item} {item : Item} {s : TaskRecord}
    (h : w.proposes a = before ++ item :: after) (hs : s ∈ w.reads a) :
    attemptIn s.id (w.log ++ before) = attemptIn s.id w.log ∨
      item.answersFailure s.id = false ∧ attemptIn s.id (w.log ++ before) = s.attempt := by
  obtain rfl | ⟨node, target, now, rfl, hretries⟩ := proposes_before h
  · rw [List.append_nil]
    exact .inl rfl
  · have hrow := Db.getTask_of_mem_getTasksOnNode hs
    simp only [attemptIn, Lib.latest_append]
    cases hl : Lib.latest (Item.attempt? s.id) before with
    | none => exact .inl rfl
    | some r₀ =>
      obtain ⟨t, -, rfl⟩ := hretries item (by simp)
      obtain ⟨first, hfirst, hr₀⟩ := Lib.exists_of_latest hl
      obtain ⟨t₀, ht₀, rfl⟩ := hretries first (List.mem_append_left _ hfirst)
      obtain ⟨p, hp, hid, rfl⟩ := Item.attempt?_eq_some.mp hr₀
      cases hp
      have hrow₀ := Db.getTask_of_mem_getTasksOnNode ht₀
      rw [show t₀.id = s.id from hid, hrow, Option.some.injEq] at hrow₀
      exact .inr ⟨rfl, by rw [hrow₀]; rfl⟩

theorem drain_cases {rest : List TaskRecord} (h : .drain node rest ∈ w.jobsAfter a) :
    .drain node rest ∈ w.jobs ∨
      (∃ target, rest ⊆ (w.db node).getTasksOnNode target) ∨
      ∃ rest₀ now, a = .drainResume node rest₀ now ∧ rest ⊆ rest₀ := by
  have tail {n : NodeId} {tasks : List TaskRecord} (hj : .drain node rest ∈ drainJobs n tasks) :
      node = n ∧ rest ⊆ tasks := by
    cases tasks with
    | nil => cases hj
    | cons t ts =>
      cases List.mem_singleton.mp hj
      exact ⟨rfl, List.subset_cons_self _ _⟩
  cases a with
  | drainNodeTasks n target now =>
    obtain hj | hj := List.mem_append.mp h
    · exact .inl hj
    · obtain ⟨rfl, hsub⟩ := tail hj
      exact .inr (.inl ⟨target, hsub⟩)
  | drainResume n rest₀ now =>
    obtain hj | hj := List.mem_append.mp h
    · exact .inl (List.mem_of_mem_erase hj)
    · obtain ⟨rfl, hsub⟩ := tail hj
      exact .inr (.inr ⟨rest₀, now, rfl, hsub⟩)
  | runSchedulingCycle n now pickNode =>
    simp only [jobsAfter, cycleJobs] at h
    split at h
    · obtain hj | hj := List.mem_append.mp h
      · exact .inl hj
      · obtain ⟨_, -, hc⟩ := List.mem_map.mp hj
        cases hc
    · exact .inl h
  | cycleResume n taskId target success rest₀ pickNode =>
    simp only [jobsAfter, cycleJobs, List.mem_append] at h
    obtain (hj | hj) | hj := h
    · exact .inl (List.mem_of_mem_erase hj)
    · split at hj
      · simp only [dispatchJobs] at hj
        split at hj
        · cases hj
        · cases List.mem_singleton.mp hj
      · cases hj
    · obtain ⟨_, -, hc⟩ := List.mem_map.mp hj
      cases hc
  | dispatchStart | dispatchExecute | dispatchComplete =>
    obtain hj | hj := List.mem_append.mp h
    · exact .inl (List.mem_of_mem_erase hj)
    · cases List.mem_singleton.mp hj
  | dispatchEnd | dispatchError => exact .inl (List.mem_of_mem_erase h)
  | _ => exact .inl h

structure Budgeted (w : World) (leader : NodeId) : Prop where
  climbs : ∀ id, Lib.Grown (Item.Climbs id) w.log
  counts : ∀ node, Counts (w.db node) (w.log.take (w.replicas node).applied)
  affords : ∀ id, ∀ item ∈ w.log, ∀ r, item.attempt? id = some r → (w.db leader).Affords id r
  drains : ∀ rest, .drain leader rest ∈ w.jobs → ∀ s ∈ rest, (w.db leader).Affords s.id s.attempt

theorem Starts.budgeted (h : w.Starts) (leader : NodeId) : w.Budgeted leader where
  climbs id := h.log ▸ Lib.grown_nil
  counts node id t ht := by
    simp [World.db, h.replicas, Db.getTask, Lib.Table.empty, Lib.Table.find?] at ht
  affords id item hi := by simp [h.log] at hi
  drains rest hr := by simp [h.jobs] at hr

section

variable (hB : w.Budgeted leader)
include hB

theorem Budgeted.row {t : TaskRecord} (ht : (w.db leader).getTask id = some t) :
    (w.db leader).Affords id t.attempt := by
  obtain hz | hl := hB.counts leader id t ht
  · rw [hz]
    exact Db.affords_zero ht
  · obtain ⟨item, hi, hr⟩ := Lib.exists_of_latest hl
    exact hB.affords id item (List.mem_of_mem_take hi) _ hr

theorem Budgeted.reads {s : TaskRecord} (henabled : w.Enabled a) (hn : a.node? = some leader)
    (hs : s ∈ w.reads a) : (w.db leader).Affords s.id s.attempt := by
  obtain hrow | ⟨rest, now, rfl, hrest⟩ := reads_cases hs hn
  · exact hB.row hrow
  · exact hB.drains rest henabled s hrest

theorem Budgeted.climbs_append (hcur : ∀ s ∈ w.reads a, attemptIn s.id w.log ≤ s.attempt)
    (hn : a.node? = some leader) : Lib.Grown (Item.Climbs id) (w.log ++ w.proposes a) := by
  refine (hB.climbs id).append ?_
  intro before item after he r hr
  have hmem : item ∈ w.proposes a := by simp [he]
  cases proposes_retry hmem hr hn with
  | reset hreset _ => rw [if_pos hreset]
  | @copied s hreset hans hs hid =>
    subst hid
    rw [if_neg (by simp [hreset]), if_neg (by simp [hans])]
    have hle := hcur s hs
    obtain hb | ⟨-, hb⟩ := attemptIn_before he hs <;> omega
  | @counted s hreset hs ht _ =>
    obtain rfl : s.id = id := Db.getTask_id ht
    rw [if_neg (by simp [hreset])]
    have hle := hcur s hs
    obtain hb | ⟨hans, hb⟩ := attemptIn_before he hs
    · split <;> omega
    · rw [if_neg (by simp [hans])]
      omega

end

theorem Stepped.leader_eq (h : w.Stepped a w') (hk : a.keepsLeader = true) :
    w'.leader = w.leader := by
  rw [h.leader]
  cases a with
  | stepDown | elect => cases hk
  | _ => rfl

theorem Stepped.log_by_leader (h : w.Stepped a w') (hk : a.keepsLeader = true)
    (hlead : w.leader = some leader) :
    w'.log = w.log ∨ a.node? = some leader ∧ w'.log = w.log ++ w.proposes a := by
  cases hn : a.node? with
  | none =>
    rw [h.log]
    cases a with
    | elect => cases hk
    | _ => simp [logAfter, hn]
  | some node =>
    by_cases he : node = leader
    · subst he
      exact .inr ⟨rfl, h.log_of_leader hlead hn⟩
    · exact .inl (h.log_of_other hlead hn he)

theorem Stepped.affords {r : Int} (h : w.Stepped a w') (hc : w.Consistent)
    (hf : (w.db leader).Affords id r) : (w'.db leader).Affords id r := by
  refine h.stores (R := fun node db _ => node = leader → db.Affords id r) hc ?_ ?_ leader rfl
  · rintro node rfl
    exact hf
  · rintro node host item - - hmem - rfl
    exact hf.applied (hc.plain_of_mem hmem)

theorem Stepped.budgeted (h : w.Stepped a w') (hc : w.Consistent) (hlead : w.leader = some leader)
    (hk : a.keepsLeader = true) (hcur : w.RetriesCurrent a) (hB : w.Budgeted leader) :
    w'.Budgeted leader where
  climbs id := by
    obtain hlog | ⟨hn, hlog⟩ := h.log_by_leader hk hlead
    · exact hlog ▸ hB.climbs id
    · rw [hlog]
      exact hB.climbs_append (hcur (by simp [hn, leads, hlead])) hn
  counts := by
    refine h.stores (R := fun _ => Counts) hc hB.counts ?_
    intro node host item _ _ hmem _
    exact (hB.counts node).applied (hc.plain_of_mem hmem)
  affords id item hi r hr := by
    refine h.affords hc ?_
    obtain hlog | ⟨hn, hlog⟩ := h.log_by_leader hk hlead
    · exact hB.affords id item (hlog ▸ hi) r hr
    · rw [hlog, List.mem_append] at hi
      obtain hi | hi := hi
      · exact hB.affords id item hi r hr
      · cases proposes_retry hi hr hn with
        | reset _ ht => exact Db.affords_zero ht
        | copied _ _ hs hid => exact hid ▸ hB.reads h.enabled hn hs
        | counted _ _ ht ha => exact Db.affords_succ ht ha
  drains rest hr s hs := by
    refine h.affords hc ?_
    rw [h.jobs] at hr
    obtain hr | ⟨target, hsub⟩ | ⟨rest₀, now, rfl, hsub⟩ := drain_cases hr
    · exact hB.drains rest hr s hs
    · exact hB.row (Db.getTask_of_mem_getTasksOnNode (hsub hs))
    · exact hB.drains rest₀ h.enabled s (hsub hs)

def Stable (w : World) (a : Action) : Prop := a.keepsLeader = true ∧ w.RetriesCurrent a

instance (w : World) (a : Action) : Decidable (w.Stable a) := inferInstanceAs (Decidable (_ ∧ _))

theorem reach_budgeted (h : cluster.Reach Stable w) (hlead : w.leader = some leader) :
    w.Budgeted leader := by
  refine h.invariant (I := fun w => w.leader = some leader → w.Budgeted leader) ?_ ?_ hlead
  · intro w hi _
    exact hi.budgeted leader
  · intro w a w' hr hI hg hs hlead'
    have hst := stepped hs
    have hlead : w.leader = some leader := (hst.leader_eq hg.1).symm.trans hlead'
    exact hst.budgeted (reach_consistent hr) hlead hg.1 hg.2 (hI hlead)

-- ---------------------------------------------------------------------------
-- The budget
-- ---------------------------------------------------------------------------

/-- A task keeps to `m` retries: on every node its attempt is within bounds and
goes back only by the tool, between two calls of the tool at most `m` failures
are answered by a retry, and the failure after these ends the task. `G` is
what the run goes on under. -/
structure KeepsBudget (G : World → Action → Prop) (w : World) (leader : NodeId) (id : TaskId)
    (m : Int) : Prop where
  bounded : ∀ node t, (w.db node).getTask id = some t → 0 ≤ t.attempt ∧ t.attempt ≤ max m 0
  ascends : ∀ w', (cluster.after w).Reach G w' → ∀ node t, (w.db node).getTask id = some t →
    (∃ t', (w'.db node).getTask id = some t' ∧ t.attempt ≤ t'.attempt) ∨
      RetriedByTool w'.log id (w.replicas node).applied (w'.replicas node).applied
  answered : ∀ before segment after, w.log = before ++ segment ++ after →
    (∀ item ∈ segment, item.resets id = false) →
      segment.countP (Item.answersFailure id) ≤ m.toNat
  exhausted : ∀ host w' p proposer, G w (.apply leader host) →
    w.step (.apply leader host) = some w' →
    w.next leader = some ⟨.parsed (.taskFailed p), proposer⟩ → p.taskId = id →
    ∀ before segment, w.log = before ++ segment → (∀ item ∈ segment, item.resets id = false) →
      m.toNat ≤ segment.countP (Item.answersFailure id) →
        ∃ item, w'.log = w.log ++ [item] ∧
          ∀ host isLeader db t,
            (handleEntryCommitted host isLeader db item.data).1.getTask id = some t →
              t.state = .deadLetter

theorem after_leader (h : (cluster.after w).Reach Stable w') : w'.leader = w.leader := by
  induction h with
  | init hi => rw [hi]
  | step _ hg hs ih => exact ((stepped hs).leader_eq hg.1).trans ih

section

variable {t : TaskRecord} {m : Int} (hB : w.Budgeted leader)
  (ht : (w.db leader).getTask id = some t) (hm : t.policy.maxRetries = some (m : ℚ))
include hB ht hm

theorem Budgeted.attempt_le {item : Item} {r : Int} (hi : item ∈ w.log)
    (hr : item.attempt? id = some r) : r ≤ max m 0 := by
  obtain ⟨t', ht', hle⟩ := hB.affords id item hi r hr
  obtain rfl : t = t' := Option.some.inj (ht.symm.trans ht')
  exact hle m hm

theorem Budgeted.attemptIn_le {log : List Item} (hl : log <+: w.log) :
    attemptIn id log ≤ max m 0 := by
  unfold attemptIn
  cases hr : Lib.latest (Item.attempt? id) log with
  | none => exact le_max_right m 0
  | some r =>
    obtain ⟨item, hi, hr⟩ := Lib.exists_of_latest hr
    exact hB.attempt_le ht hm (hl.subset hi) hr

theorem Budgeted.bounded {s : TaskRecord} (hs : (w.db node).getTask id = some s) :
    0 ≤ s.attempt ∧ s.attempt ≤ max m 0 := by
  have hpre : w.log.take (w.replicas node).applied <+: w.log := List.take_prefix _ _
  obtain hz | hl := hB.counts node id s hs
  · rw [hz]
    exact ⟨le_rfl, le_max_right m 0⟩
  · have hin : attemptIn id (w.log.take (w.replicas node).applied) = s.attempt := by
      rw [attemptIn, hl]
      rfl
    rw [← hin]
    exact ⟨attemptIn_nonneg ((hB.climbs id).of_isPrefix hpre), hB.attemptIn_le ht hm hpre⟩

theorem Budgeted.answered {before segment : List Item} (hl : before ++ segment <+: w.log)
    (hs : ∀ item ∈ segment, item.resets id = false) :
    segment.countP (Item.answersFailure id) ≤ m.toNat := by
  have hgrown := (hB.climbs id).of_isPrefix hl
  have hbefore := attemptIn_nonneg (hgrown.of_isPrefix (List.prefix_append before segment))
  have hcount := attemptIn_append hgrown hs
  have hle := hB.attemptIn_le ht hm hl
  omega

end

/-- Once the budget is spent, a failure finds the policy exhausted. -/
theorem Budgeted.not_allows {t : TaskRecord} {m : Int} {before segment : List Item}
    (hB : w.Budgeted leader) (hm : t.policy.maxRetries = some (m : ℚ))
    (hcur : t.policy.allows t.attempt = true → attemptIn id w.log ≤ t.attempt)
    (hl : w.log = before ++ segment) (hs : ∀ item ∈ segment, item.resets id = false)
    (hcount : m.toNat ≤ segment.countP (Item.answersFailure id)) :
    t.policy.allows t.attempt = false := by
  rw [← Bool.not_eq_true]
  intro ha
  have hgrown := hl ▸ hB.climbs id
  have hbefore := attemptIn_nonneg (hgrown.of_isPrefix (List.prefix_append before segment))
  have hin := attemptIn_append hgrown hs
  have hle := hcur ha
  rw [hl] at hle
  simp only [RetryPolicy.allows, hm, Option.any_some, Bool.and_eq_true, decide_eq_true_eq] at ha
  have hlt : t.attempt < m := by exact_mod_cast ha.2
  omega

/-- An entry takes a row to no lower attempt, unless it is a retry by the tool. -/
theorem Budgeted.ascends (hB : w.Budgeted leader) (hc : w.Consistent)
    (h : w.Stepped (.apply node host) w') {t : TaskRecord}
    (ht : (w.db node).getTask id = some t) :
    (∃ t', (w'.db node).getTask id = some t' ∧ t.attempt ≤ t'.attempt) ∨
      RetriedByTool w.log id (w.replicas node).applied ((w.replicas node).applied + 1) := by
  obtain ⟨item, hnext, hmem, htake⟩ := hc.next_eq h.enabled.1
  have hpre : w.log.take (w.replicas node).applied <+: w.log := List.take_prefix _ _
  have hplain := hc.plain_of_mem hmem
  have hle := (hB.counts node).le ((hB.climbs id).of_isPrefix hpre) ht
  have hclimb : item.Climbs id (w.log.take (w.replicas node).applied) :=
    (hB.climbs id).of_isPrefix (List.take_prefix _ _) _ item [] htake
  rw [h.db_applied hnext]
  obtain ⟨e, hn, hrow⟩ | ⟨-, hrow⟩ := @getTask_after host (w.leads node) _ _ _ _ hplain ht
  · cases hr : e.attempt? with
    | none => exact .inl ⟨_, hrow, by rw [Entry.set_attempt, hr]; rfl⟩
    | some r =>
      have hitem : item.attempt? id = some r := (hn.about _).trans hr
      cases hreset : item.resets id with
      | false =>
        refine .inl ⟨_, hrow, ?_⟩
        rw [Entry.set_attempt, hr]
        exact hle.trans (hclimb.le hitem hreset)
      | true =>
        obtain ⟨p, hp, hid, -⟩ := Item.attempt?_eq_some.mp hitem
        obtain ⟨data, proposer⟩ := item
        obtain rfl : data = _ := hp
        simp only [Item.resets, Bool.and_eq_true, decide_eq_true_eq] at hreset
        obtain rfl : proposer = _ := hreset.1
        exact .inr ⟨_, le_rfl, Nat.lt_succ_self _, p, hid, hnext⟩
  · exact .inl ⟨t, hrow, le_rfl⟩

/-- Under a stable leader that makes retries of current records only, every task
whose policy has an integer `maxRetries` keeps its budget. -/
theorem retry_budget (h : cluster.Reach Stable w) (hlead : w.leader = some leader)
    {t : TaskRecord} (ht : (w.db leader).getTask id = some t) {m : Int}
    (hm : t.policy.maxRetries = some (m : ℚ)) : w.KeepsBudget Stable leader id m where
  bounded node s hs := (reach_budgeted h hlead).bounded ht hm hs
  ascends w' h' node s hs := by
    have := @kept_until_retried w w' node Stable (fun s' => s.attempt ≤ s'.attempt) True id s ?_
      h h' hs le_rfl
    · simpa using this
    · intro u host v s₁ hr hst hs₁ hle
      have hu := h.trans hr
      have hBu := reach_budgeted hu ((after_leader hr).trans hlead)
      obtain ⟨s₂, hs₂, hle₂⟩ | hretried := hBu.ascends (reach_consistent hu) hst hs₁
      · exact .inl ⟨s₂, hs₂, hle.trans hle₂⟩
      · exact .inr ⟨trivial, hretried⟩
  answered before segment after hl hs :=
    (reach_budgeted h hlead).answered ht hm ⟨after, hl.symm⟩ hs
  exhausted host w' p proposer hg hs hnext hid before segment hl hreset hcount := by
    subst hid
    have hB := reach_budgeted h hlead
    have hleads := leads_leader hlead
    have hno : t.policy.allows t.attempt = false := by
      refine hB.not_allows hm ?_ hl hreset hcount
      intro ha
      rw [← Db.getTask_id ht]
      exact hg.2 (by simp [Action.node?, hleads]) t (by simp [World.reads, hnext, ht, ha])
    obtain ⟨reason, hanswer⟩ := followUp_exhausted host ht hno
    have hproposes : w.proposes (.apply leader host) =
        [⟨.parsed (.taskDeadLetter ⟨p.taskId, reason⟩), .handleStateMachineAction⟩] := by
      simp [proposes, applyNext, hnext, hleads, hanswer]
    rw [(stepped hs).log_of_leader hlead rfl, hproposes]
    refine ⟨_, rfl, ?_⟩
    intro host isLeader db t' ht'
    rw [handleEntryCommitted_parsed, getTask_applyEntry_task rfl, if_pos rfl] at ht'
    obtain ⟨_, -, rfl⟩ := Option.map_eq_some_iff.mp ht'
    rfl

end World

-- ---------------------------------------------------------------------------
-- One node leads, and the other works
-- ---------------------------------------------------------------------------

def failsTask (args : SubmitTaskArgs) : List Action :=
  [.submitTask "n" "u" args, .commit 1, .apply "n" (hostOf "n"),
    .runSchedulingCycle "n" 0 fun _ => some "m", .commit 2, .apply "n" (hostOf "n"),
    .cycleResume "n" "u" "m" true [] fun _ => none,
    .dispatchError "n" "u" "m" .loading "unavailable", .commit 3, .apply "n" (hostOf "n")]

def failsAgain : List Action :=
  [.commit 4, .apply "n" (hostOf "n"), .runSchedulingCycle "n" 1000 fun _ => some "m", .commit 5,
    .apply "n" (hostOf "n"), .cycleResume "n" "u" "m" true [] fun _ => none,
    .dispatchError "n" "u" "m" .loading "unavailable", .commit 6]

theorem one_retry_spent :
    ∃ w, cluster.Reach World.Stable w ∧ w.KeepsBudget World.Stable "n" "u" 1 ∧
      w.log.countP (Item.answersFailure "u") = 1 ∧
      ((w.db "n").getTask "u").map (·.attempt) = some 1 := by
  obtain ⟨w, hr, hlead, hpolicy, hcount, hattempt⟩ := @System.Reach.replay _ _ cluster
    World.Stable _ _
    (fun w => w.leader = some "n" ∧
      ((w.db "n").getTask "u").map (·.policy.maxRetries) = some (some 1) ∧
      w.log.countP (Item.answersFailure "u") = 1 ∧
      ((w.db "n").getTask "u").map (·.attempt) = some 1) _
    (World.starts_start ["n", "m"] (some "n"))
    (failsTask { maxRetries := some 1 } ++ failsAgain) (by decide +kernel)
  obtain ⟨t, ht, hm⟩ := Option.map_eq_some_iff.mp hpolicy
  exact ⟨w, hr, World.retry_budget hr hlead ht hm, hcount, hattempt⟩

/-- The node of a task goes offline while the retry of the task is on its way. The
second retry takes back what the first has counted. -/
theorem offline_lowers_attempt :
    ∃ w, cluster.Reach (fun _ a => a.keepsLeader = true) w ∧ w.leader = some "n" ∧
      ((w.db "n").getTask "u").map (·.policy.maxRetries) = some (some 3) ∧
      ¬ w.KeepsBudget (fun _ a => a.keepsLeader = true) "n" "u" 3 := by
  obtain ⟨w, w', hr, hr', hlead, hpolicy, hone, hzero, htool⟩ := @System.Reach.replay_on _ _ cluster
    (fun _ a => a.keepsLeader = true) _ _
    (fun w w' => w.leader = some "n" ∧
      ((w.db "n").getTask "u").map (·.policy.maxRetries) = some (some 3) ∧
      ((w.db "n").getTask "u").map (·.attempt) = some 1 ∧
      ((w'.db "n").getTask "u").map (·.attempt) = some 0 ∧
      ∀ item ∈ w'.log, item.proposer ≠ .retryDeadLetterTask) _
    (World.starts_start ["n", "m"] (some "n"))
    (failsTask {} ++ [.nodeOffline "n" "m" 0, .commit 5, .apply "n" (hostOf "n")])
    [.apply "n" (hostOf "n")] (by decide +kernel)
  refine ⟨w, hr, hlead, hpolicy, ?_⟩
  intro hk
  obtain ⟨t, ht, hone⟩ := Option.map_eq_some_iff.mp hone
  obtain ⟨t', ht', hle⟩ | ⟨i, -, -, p, -, hi⟩ := hk.ascends w' hr' "n" t ht
  · rw [ht', Option.map_some, Option.some.injEq] at hzero
    omega
  · exact htool _ (List.mem_of_getElem? hi) rfl

end ClaudeCluster.Tasks
