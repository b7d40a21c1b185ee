import ClaudeCluster.Tasks.TaskLog

/-!
# Leader changes and stuck tasks

What is to be done about a task is remembered by the leader alone: a dispatch
it runs will report on the task, and a failure it applies will be answered by a
retry or a dead letter. A change of leaders leaves no task behind only if the
new leader takes over every such duty that the log still asks for.
-/

namespace ClaudeCluster.Tasks

open Lib (System)
open Raft (NodeId)

-- ---------------------------------------------------------------------------
-- Duties
-- ---------------------------------------------------------------------------

def Item.fails? (item : Item) : Option TaskId :=
  match item.data with
  | .parsed (.taskFailed p) => some p.taskId
  | _ => none

def Item.answers? (item : Item) : Option TaskId :=
  match item.data with
  | .parsed (.taskRetry p) => some p.taskId
  | .parsed (.taskDeadLetter p) => some p.taskId
  | _ => none

def Item.submits? (item : Item) : Option TaskId :=
  match item.data with
  | .parsed (.taskSubmit p) => some p.taskId
  | _ => none

/-- Entry `i` is a failure of the task, and no retry or dead letter follows. -/
def Unanswered (log : List Item) (id : TaskId) (i : Nat) : Prop :=
  (log[i]?).bind Item.fails? = some id ∧ ∀ item ∈ log.drop (i + 1), item.answers? ≠ some id

def Busy (log : List Item) (id : TaskId) : Prop :=
  lastWritten id log = some .assigned ∨ lastWritten id log = some .running

/-- The handler will append a `task_complete` or `task_failed` for the task. -/
def Job.reports (node : NodeId) (id : TaskId) : Job → Bool
  | .cycle n taskId _ success _ => success && n = node && taskId = id
  | .dispatch _ _ _ .completing => false
  | .dispatch n taskId _ _ => n = node && taskId = id
  | .drain .. => false

/-- The states in which nobody owes a task anything. -/
def TaskEngineState.AtRest (st : TaskEngineState) : Prop :=
  st = .queued ∨ st = .pending ∨ st = .completed ∨ st = .cancelled ∨ st = .skipped ∨ st = .deadLetter

section

variable (log : List Item) (replica : Replica) (id : TaskId)

def KnownBy (i : Nat) : Prop :=
  (replica.db.getTask id).isSome ∨
    ∃ j < i, replica.applied ≤ j ∧ (log[j]?).bind Item.submits? = some id

/-- The node has yet to apply a failure of the task, and to answer it. -/
def WillAnswer : Prop :=
  ∃ i < log.length, replica.applied ≤ i ∧ (log[i]?).bind Item.fails? = some id ∧
    KnownBy log replica id i

end

structure Cared (node : NodeId) (log : List Item) (replica : Replica) (jobs : List Job) : Prop where
  busy : ∀ item ∈ log, ∀ id ∈ item.target?, Busy log id →
    (∃ job ∈ jobs, job.reports node id = true) ∨ WillAnswer log replica id
  failures : ∀ i < log.length, ∀ id ∈ (log[i]?).bind Item.fails?, Unanswered log id i →
    replica.applied ≤ i ∧ KnownBy log replica id i

/-- A retry of the task would have a date `toISOString` can write. -/
def TaskRecord.Retriable (host : Host) (t : TaskRecord) : Prop :=
  t.policy.allows t.attempt = true →
    (t.policy.scheduledAfter host t.attempt).isSome = true

/-- A new leader takes over what its log asks for, and the failures a leader
applies can be answered. -/
def World.HandsOver (w : World) : Action → Prop
  | .elect node log => Cared node log (w.replicas node) w.jobs
  | .apply node host =>
    w.leads node = true → ∀ id ∈ (w.next node).bind Item.fails?, ∀ t ∈ (w.db node).getTask id,
      t.Retriable host
  | _ => True

section Decidable

variable (log : List Item) (replica : Replica) (id : TaskId)

instance (i : Nat) : Decidable (Unanswered log id i) :=
  inferInstanceAs (Decidable (_ ∧ ∀ item ∈ log.drop (i + 1), _))

instance : Decidable (Busy log id) := inferInstanceAs (Decidable (_ ∨ _))

instance (i : Nat) : Decidable (KnownBy log replica id i) :=
  inferInstanceAs (Decidable (_ ∨ ∃ j < i, _))

instance : Decidable (WillAnswer log replica id) :=
  inferInstanceAs (Decidable (∃ i < log.length, _))

instance (node : NodeId) (jobs : List Job) : Decidable (Cared node log replica jobs) :=
  decidable_of_iff
    ((∀ item ∈ log, ∀ id ∈ item.target?, Busy log id →
        (∃ job ∈ jobs, job.reports node id = true) ∨ WillAnswer log replica id) ∧
      ∀ i < log.length, ∀ id ∈ (log[i]?).bind Item.fails?, Unanswered log id i →
        replica.applied ≤ i ∧ KnownBy log replica id i)
    ⟨fun h => ⟨h.1, h.2⟩, fun h => ⟨h.busy, h.failures⟩⟩

instance (host : Host) (t : TaskRecord) : Decidable (t.Retriable host) :=
  inferInstanceAs (Decidable (_ → _))

instance (w : World) : DecidablePred w.HandsOver
  | .elect .. => inferInstanceAs (Decidable (Cared ..))
  | .apply .. => inferInstanceAs (Decidable (_ → ∀ id ∈ (w.next _).bind Item.fails?, _))
  | .submitTask .. | .submitWorkflow .. | .cancelTask .. | .retryDeadLetterTask .. |
    .drainNodeTasks .. | .drainResume .. | .nodeOffline .. | .runSchedulingCycle .. |
    .cycleResume .. | .dispatchStart .. | .dispatchExecute .. | .dispatchComplete .. |
    .dispatchEnd .. | .dispatchError .. | .appendElsewhere _ | .commit _ | .stepDown =>
    .isTrue trivial

end Decidable

-- ---------------------------------------------------------------------------
-- Appending
-- ---------------------------------------------------------------------------

section

variable {node : NodeId} {log : List Item} {replica : Replica} {jobs jobs' : List Job}
  {id : TaskId} {i : Nat} {item : Item}

theorem Cared.of_busy (h : Cared node log replica jobs) (hb : Busy log id) :
    (∃ job ∈ jobs, job.reports node id = true) ∨ WillAnswer log replica id := by
  obtain ⟨st, hst⟩ : ∃ st, lastWritten id log = some st := by
    obtain hb | hb := hb <;> exact ⟨_, hb⟩
  obtain ⟨item, hm, hw⟩ := exists_of_lastWritten hst
  exact h.busy item hm id (Item.target?_of_writes hw) hb

theorem Item.writes?_cases {st : TaskEngineState} (h : item.writes? id = some st) :
    st = .assigned ∨ st = .running ∨ st.AtRest := by
  obtain ⟨data, proposer⟩ := item
  cases data with
  | foreign | unparsable => cases h
  | parsed e =>
    rw [Item.writes?_parsed] at h
    split at h
    · cases e <;> simp_all [Entry.writes?, TaskEngineState.AtRest, eq_comm]
    · cases h

theorem Unanswered.lt (h : Unanswered log id i) : i < log.length := by
  obtain ⟨item, hi, -⟩ := Option.bind_eq_some_iff.mp h.1
  exact (List.getElem?_eq_some_iff.mp hi).1

theorem Cared.of_unanswered (h : Cared node log replica jobs) (hu : Unanswered log id i) :
    replica.applied ≤ i ∧ KnownBy log replica id i :=
  h.failures i hu.lt id hu.1 hu

theorem cared_of (hb : ∀ id, Busy log id →
      (∃ job ∈ jobs, job.reports node id = true) ∨ WillAnswer log replica id)
    (hf : ∀ id i, Unanswered log id i → replica.applied ≤ i ∧ KnownBy log replica id i) :
    Cared node log replica jobs :=
  ⟨fun _ _ id _ => hb id, fun i _ id _ => hf id i⟩

/-- What the jobs are matters only for whom they report on. -/
theorem Cared.handlers (h : Cared node log replica jobs)
    (hj : ∀ id, ∀ job ∈ jobs, job.reports node id = true → ∃ job ∈ jobs', job.reports node id = true) :
    Cared node log replica jobs' := by
  refine cared_of (fun id hb => ?_) fun id i => h.of_unanswered
  obtain ⟨job, hm, hr⟩ | hw := h.of_busy hb
  · exact .inl (hj id job hm hr)
  · exact .inr hw

theorem KnownBy.append {items : List Item} (h : KnownBy log replica id i) (hi : i ≤ log.length) :
    KnownBy (log ++ items) replica id i := by
  refine h.imp_right ?_
  rintro ⟨j, hj, ha, hs⟩
  exact ⟨j, hj, ha, by rwa [List.getElem?_append_left (hj.trans_le hi)]⟩

theorem WillAnswer.append {items : List Item} (h : WillAnswer log replica id) :
    WillAnswer (log ++ items) replica id := by
  obtain ⟨i, hi, ha, hf, hk⟩ := h
  refine ⟨i, ?_, ha, ?_, hk.append hi.le⟩
  · rw [List.length_append]
    omega
  · rwa [List.getElem?_append_left hi]

theorem Unanswered.of_append {items : List Item} (h : Unanswered (log ++ items) id i)
    (hi : i < log.length) : Unanswered log id i := by
  refine ⟨by rw [← h.1, List.getElem?_append_left hi], ?_⟩
  intro item hm
  apply h.2
  rw [List.drop_append]
  exact List.mem_append_left _ hm

theorem Cared.concat (h : Cared node log replica jobs) (happ : replica.applied ≤ log.length)
    (hwrite : ∀ id, item.writes? id = some .assigned ∨ item.writes? id = some .running →
      ∃ job ∈ jobs', job.reports node id = true)
    (hjobs : ∀ id, ∀ job ∈ jobs, job.reports node id = true →
      (∃ job ∈ jobs', job.reports node id = true) ∨ (item.writes? id).isSome ∨
        item.fails? = some id)
    (hknown : ∀ id, item.fails? = some id → (replica.db.getTask id).isSome) :
    Cared node (log ++ [item]) replica jobs' := by
  refine cared_of (fun id hb => ?_) fun id i hu => ?_
  · unfold Busy at hb
    rw [lastWritten_concat] at hb
    cases hw : item.writes? id with
    | some st =>
      rw [hw] at hb
      exact .inl (hwrite id (by rw [hw]; exact hb))
    | none =>
      rw [hw, Option.none_or] at hb
      obtain ⟨job, hm, hr⟩ | hwill := h.of_busy hb
      · obtain hj | hj | hf := hjobs id job hm hr
        · exact .inl hj
        · simp [hw] at hj
        · exact .inr ⟨log.length, by simp, happ, by simpa using hf, .inl (hknown id hf)⟩
      · exact .inr hwill.append
  · have hlt := hu.lt
    rw [List.length_append, List.length_singleton] at hlt
    obtain hi | rfl : i < log.length ∨ i = log.length := by omega
    · obtain ⟨ha, hk⟩ := h.of_unanswered (hu.of_append hi)
      exact ⟨ha, hk.append hi.le⟩
    · have hf : item.fails? = some id := by simpa using hu.1
      exact ⟨happ, .inl (hknown id hf)⟩

def Item.Harmless (item : Item) : Prop :=
  (∀ id, item.writes? id ≠ some .assigned ∧ item.writes? id ≠ some .running) ∧ item.fails? = none

theorem Cared.append {items : List Item} (h : Cared node log replica jobs)
    (happ : replica.applied ≤ log.length) (hi : ∀ item ∈ items, item.Harmless) :
    Cared node (log ++ items) replica jobs := by
  induction items generalizing log with
  | nil => simpa using h
  | cons item items ih =>
    obtain ⟨hw, hf⟩ := hi item List.mem_cons_self
    have hone : Cared node (log ++ [item]) replica jobs := by
      refine h.concat happ ?_ (fun id job hm hr => .inl ⟨job, hm, hr⟩) ?_
      · intro id hb
        obtain hb | hb := hb
        · exact absurd hb (hw id).1
        · exact absurd hb (hw id).2
      · intro id hid
        rw [hf] at hid
        cases hid
    have := ih hone (by rw [List.length_append]; omega) fun item hm => hi item (List.mem_cons_of_mem _ hm)
    simpa using this

-- ---------------------------------------------------------------------------
-- Applying
-- ---------------------------------------------------------------------------

theorem handleStateMachineAction_cases {action : StateMachineAction} {e : Entry}
    (h : handleStateMachineAction action = some e) :
    (∃ p, e = .taskRetry p) ∨ ∃ p, e = .taskDeadLetter p := by
  cases action <;> cases h
  · exact .inl ⟨_, rfl⟩
  · exact .inr ⟨_, rfl⟩

theorem followUp_cases {host : Host} {isLeader : Bool} {db : Db} {c : Committed} {e : Entry}
    (h : (handleEntryCommitted host isLeader db c).2 = some e) :
    (∃ p, e = .taskRetry p) ∨ ∃ p, e = .taskDeadLetter p := by
  cases c with
  | foreign | unparsable => cases h
  | parsed entry =>
    simp only [handleEntryCommitted, Applied.settled] at h
    split at h
    case h_1 action _ =>
      cases isLeader with
      | true => exact handleStateMachineAction_cases h
      | false => cases h
    case h_2 | h_3 => cases h

theorem followUp_of_failure {host : Host} {db : Db} {p : TaskFailedPayload} {t : TaskRecord}
    (ht : db.getTask p.taskId = some t) (hr : t.Retriable host) :
    ∃ e, (handleEntryCommitted host true db (.parsed (.taskFailed p))).2 = some e ∧
      ∀ proposer, (Item.mk (.parsed e) proposer).answers? = some p.taskId := by
  simp only [handleEntryCommitted, Applied.settled, applyEntry_taskFailed ht, failureOutcome,
    if_true]
  by_cases ha : t.policy.allows t.attempt = true
  · obtain ⟨after, hafter⟩ := Option.isSome_iff_exists.mp (hr ha)
    rw [if_pos ha, hafter]
    exact ⟨_, rfl, fun _ => rfl⟩
  · rw [if_neg ha]
    exact ⟨_, rfl, fun _ => rfl⟩

theorem getTask_isSome_submitted {host : Host} {isLeader : Bool} {db : Db}
    (h : item.submits? = some id) :
    ((handleEntryCommitted host isLeader db item.data).1.getTask id).isSome := by
  obtain ⟨data, proposer⟩ := item
  simp only [Item.submits?] at h
  split at h
  case h_1 p =>
    obtain rfl : p.taskId = id := by simpa using h
    rw [handleEntryCommitted_parsed, getTask_taskSubmit, if_pos rfl]
    cases db.getTask p.taskId <;> rfl
  case h_2 => cases h

theorem KnownBy.applied {host : Host} {isLeader : Bool} (h : KnownBy log replica id i)
    (hi : log[replica.applied]? = some item) :
    KnownBy log ⟨(handleEntryCommitted host isLeader replica.db item.data).1, replica.applied + 1⟩
      id i := by
  obtain hrow | ⟨j, hj, ha, hs⟩ := h
  · exact .inl (getTask_isSome_applied hrow)
  · obtain rfl | hlt := ha.eq_or_lt
    · rw [hi, Option.bind_some] at hs
      exact .inl (getTask_isSome_submitted hs)
    · exact .inr ⟨j, hj, hlt, hs⟩

theorem Item.harmless_of_followUp {e : Entry} {proposer : Proposer}
    (h : (∃ p, e = .taskRetry p) ∨ ∃ p, e = .taskDeadLetter p) :
    (Item.mk (.parsed e) proposer).Harmless := by
  refine ⟨fun id => ?_, ?_⟩
  · rw [Item.writes?_parsed]
    obtain ⟨p, rfl⟩ | ⟨p, rfl⟩ := h <;> split <;> simp [Entry.writes?]
  · obtain ⟨p, rfl⟩ | ⟨p, rfl⟩ := h <;> rfl

theorem Item.answers_writes (h : item.answers? = some id) :
    item.writes? id = some .queued ∨ item.writes? id = some .deadLetter := by
  obtain ⟨data, proposer⟩ := item
  simp only [Item.answers?] at h
  split at h
  case h_1 p | h_2 p =>
    obtain rfl : p.taskId = id := by simpa using h
    simp [Item.writes?_parsed, Entry.taskId?, Entry.writes?]
  case h_3 => cases h

def followUps (host : Host) (db : Db) (item : Item) : List Item :=
  (handleEntryCommitted host true db item.data).2.toList.map
    fun e => ⟨.parsed e, .handleStateMachineAction⟩

theorem followUps_harmless {host : Host} {db : Db} :
    ∀ x ∈ followUps host db item, x.Harmless := by
  intro x hx
  obtain ⟨e, he, rfl⟩ := List.mem_map.mp hx
  exact Item.harmless_of_followUp (followUp_cases (by simpa using he))

theorem followUps_cases (host : Host) (db : Db) (item : Item) :
    followUps host db item = [] ∨ ∃ x, followUps host db item = [x] := by
  unfold followUps
  cases (handleEntryCommitted host true db item.data).2 <;> simp

theorem followUps_of_failure {host : Host} {id : TaskId} (hf : item.fails? = some id)
    (hk : KnownBy log replica id replica.applied)
    (hr : ∀ t ∈ replica.db.getTask id, t.Retriable host) :
    ∃ x, followUps host replica.db item = [x] ∧ x.answers? = some id := by
  have hrow : (replica.db.getTask id).isSome := by
    obtain hrow | ⟨j, hj, ha, -⟩ := hk
    · exact hrow
    · omega
  obtain ⟨t, ht⟩ := Option.isSome_iff_exists.mp hrow
  have hret := hr t ht
  obtain ⟨data, proposer⟩ := item
  simp only [Item.fails?] at hf
  split at hf
  case h_1 p =>
    obtain rfl : p.taskId = id := by simpa using hf
    obtain ⟨e, he, hans⟩ := followUp_of_failure ht hret
    refine ⟨⟨.parsed e, .handleStateMachineAction⟩, ?_, hans _⟩
    rw [followUps, he]
    rfl
  case h_2 => cases hf

theorem busy_of_followUps {host : Host} {db : Db} {id : TaskId}
    (hb : Busy (log ++ followUps host db item) id) :
    Busy log id ∧ ∀ x, followUps host db item = [x] → x.answers? ≠ some id := by
  have hharmless : ∀ x ∈ followUps host db item, x.Harmless := followUps_harmless
  obtain hnil | ⟨x, hx⟩ := followUps_cases host db item
  · rw [hnil, List.append_nil] at hb
    exact ⟨hb, fun x hx => by simp [hnil] at hx⟩
  · rw [hx] at hb hharmless
    unfold Busy at hb ⊢
    rw [lastWritten_concat] at hb
    cases hw : x.writes? id with
    | some st =>
      rw [hw] at hb
      have := (hharmless x List.mem_cons_self).1 id
      simp_all
    | none =>
      rw [hw, Option.none_or] at hb
      refine ⟨hb, fun y hy hans => ?_⟩
      obtain rfl : x = y := by simpa [hx] using hy
      obtain hx | hx := Item.answers_writes hans <;> simp [hw] at hx

theorem Cared.applied {host : Host} (h : Cared node log replica jobs)
    (hi : log[replica.applied]? = some item)
    (hr : ∀ id ∈ item.fails?, ∀ t ∈ replica.db.getTask id, t.Retriable host) :
    Cared node (log ++ followUps host replica.db item)
      ⟨(handleEntryCommitted host true replica.db item.data).1, replica.applied + 1⟩ jobs := by
  have hlen : replica.applied < log.length := (List.getElem?_eq_some_iff.mp hi).1
  refine cared_of (fun id hb => ?_) fun id i hu => ?_
  · obtain ⟨hbusy, hnot⟩ := busy_of_followUps hb
    obtain hj | ⟨i, hi', ha, hf, hk⟩ := h.of_busy hbusy
    · exact .inl hj
    · obtain rfl | hlt := ha.eq_or_lt
      · rw [hi, Option.bind_some] at hf
        obtain ⟨x, hx, hans⟩ := followUps_of_failure hf hk (hr id hf)
        exact absurd hans (hnot x hx)
      · right
        apply WillAnswer.append
        exact ⟨i, hi', hlt, hf, hk.applied hi⟩
  · have hlt : i < log.length := by
      by_contra hge
      obtain ⟨x, hx, hf⟩ := Option.bind_eq_some_iff.mp hu.1
      rw [List.getElem?_append_right (by omega)] at hx
      have := (followUps_harmless x (List.mem_of_getElem? hx)).2
      rw [hf] at this
      cases this
    obtain ⟨ha, hk⟩ := h.of_unanswered (hu.of_append hlt)
    refine ⟨?_, (hk.applied hi).append hlt.le⟩
    obtain rfl | hlt' := ha.eq_or_lt
    · have hf : item.fails? = some id := by
        have := (hu.of_append hlt).1
        rwa [hi, Option.bind_some] at this
      obtain ⟨x, hx, hans⟩ := followUps_of_failure hf hk (hr id hf)
      refine absurd hans (hu.2 x ?_)
      rw [List.drop_append_of_le_length (by omega), hx]
      simp
    · exact hlt'

end

-- ---------------------------------------------------------------------------
-- Handlers know their tasks
-- ---------------------------------------------------------------------------

/-- The tasks a handler will append entries about, but for retries. -/
def Job.taskIds : Job → List TaskId
  | .cycle _ taskId _ _ rest => taskId :: rest.map (·.id)
  | .dispatch _ taskId _ _ => [taskId]
  | .drain .. => []

theorem nextAssignment_ids {pickNode : TaskRecord → Option NodeId} {tasks rest : List TaskRecord}
    {id : TaskId} {target : NodeId} (h : nextAssignment pickNode tasks = some (id, target, rest)) :
    id :: rest.map (·.id) ⊆ tasks.map (·.id) := by
  induction tasks with
  | nil => cases h
  | cons task tasks ih =>
    simp only [nextAssignment] at h
    split at h
    · exact List.Subset.trans (ih h) (List.subset_cons_self _ _)
    · cases h
      exact fun _ hm => hm

namespace World

variable {w w' : World} {a : Action} {leader : NodeId}

def JobsKnown (w : World) : Prop :=
  ∀ job ∈ w.jobs, ∀ node ∈ job.scheduler?, ∀ id ∈ job.taskIds, ((w.db node).getTask id).isSome

theorem Stepped.getTask_isSome (h : w.Stepped a w') {node : NodeId} {id : TaskId}
    (hs : ((w.db node).getTask id).isSome) : ((w'.db node).getTask id).isSome := by
  by_cases ha : ∃ host, a = .apply node host
  · obtain ⟨host, rfl⟩ := ha
    rw [World.db, h.replica_applied, applyNext]
    split
    · exact getTask_isSome_applied hs
    · exact hs
  · rw [World.db, h.replicas_eq fun host he => ha ⟨host, he⟩]
    exact hs

theorem mem_cycleJobs {node : NodeId} {pickNode : TaskRecord → Option NodeId}
    {tasks : List TaskRecord} {job : Job} (h : job ∈ w.cycleJobs node pickNode tasks) :
    ∃ id target rest, nextAssignment pickNode tasks = some (id, target, rest) ∧
      job = .cycle node id target (w.leads node) rest := by
  simp only [cycleJobs, List.mem_map, Option.mem_toList] at h
  obtain ⟨⟨id, target, rest⟩, hx, rfl⟩ := h
  exact ⟨id, target, rest, hx, rfl⟩

def Knows (w : World) (job : Job) : Prop :=
  ∀ node ∈ job.scheduler?, ∀ id ∈ job.taskIds, ((w.db node).getTask id).isSome

theorem knows_cycleJobs {node : NodeId} {pickNode : TaskRecord → Option NodeId}
    {tasks : List TaskRecord} (hk : ∀ id ∈ tasks.map (·.id), ((w.db node).getTask id).isSome) :
    ∀ job ∈ w.cycleJobs node pickNode tasks, w.Knows job := by
  intro job hm n hn id hid
  obtain ⟨k, target, rest, hx, rfl⟩ := mem_cycleJobs hm
  cases hn
  exact hk id (nextAssignment_ids hx hid)

theorem getQueuedTasks_isSome {node : NodeId} {now : Time} :
    ∀ id ∈ ((w.db node).getQueuedTasks now).map (·.id), ((w.db node).getTask id).isSome := by
  intro id hid
  obtain ⟨t, ht, rfl⟩ := List.mem_map.mp hid
  have hm : t ∈ (w.db node).tasks.rows := by
    simp only [Db.getQueuedTasks, List.mem_insertionSort, List.mem_filter] at ht
    exact ht.1
  rw [Db.getTask_of_mem hm]
  rfl

theorem knows_drainJobs {node : NodeId} {tasks : List TaskRecord} :
    ∀ job ∈ drainJobs node tasks, w.Knows job := by
  intro job hm n hn
  cases tasks with
  | nil => cases hm
  | cons t tasks =>
    obtain rfl := List.mem_singleton.mp hm
    cases hn

theorem knows_dispatchJobs {node target : NodeId} {id : TaskId} :
    ∀ job ∈ w.dispatchJobs node id target, w.Knows job := by
  intro job hm
  simp only [dispatchJobs] at hm
  split at hm
  · cases hm
  case h_2 t ht =>
    obtain rfl := List.mem_singleton.mp hm
    rintro n ⟨⟩ k hk
    obtain rfl := List.mem_singleton.mp hk
    rw [ht]
    rfl

theorem JobsKnown.append {new : List Job} (h : w.JobsKnown) (hn : ∀ job ∈ new, w.Knows job) :
    ∀ job ∈ w.jobs ++ new, w.Knows job := by
  intro job hm
  obtain hm | hm := List.mem_append.mp hm
  · exact h job hm
  · exact hn job hm

theorem JobsKnown.replace {old : Job} {new : List Job} (h : w.JobsKnown)
    (hn : ∀ job ∈ new, w.Knows job) : ∀ job ∈ w.jobs.erase old ++ new, w.Knows job := by
  intro job hm
  obtain hm | hm := List.mem_append.mp hm
  · exact h job (List.mem_of_mem_erase hm)
  · exact hn job hm

theorem JobsKnown.dispatch {node target : NodeId} {id : TaskId} {old next : Stage}
    (h : w.JobsKnown) (ho : .dispatch node id target old ∈ w.jobs) :
    ∀ job ∈ w.jobs.erase (.dispatch node id target old) ++ [.dispatch node id target next],
      w.Knows job := by
  refine h.replace fun job hm => ?_
  obtain rfl := List.mem_singleton.mp hm
  exact fun n hn k hk => h _ ho n hn k hk

theorem JobsKnown.after (h : w.JobsKnown) (hs : w.Stepped a w') :
    ∀ job ∈ w'.jobs, w.Knows job := by
  rw [hs.jobs]
  cases a with
  | runSchedulingCycle node now pickNode =>
    simp only [jobsAfter]
    split
    · exact h.append (knows_cycleJobs getQueuedTasks_isSome)
    · exact h
  | cycleResume node taskId target success rest pickNode =>
    simp only [jobsAfter, List.append_assoc]
    refine h.replace fun job hm => ?_
    obtain hm | hm := List.mem_append.mp hm
    · split at hm
      · exact knows_dispatchJobs job hm
      · cases hm
    · refine knows_cycleJobs ?_ job hm
      intro id hid
      exact h _ hs.enabled node rfl id (List.mem_cons_of_mem _ hid)
  | drainNodeTasks => exact h.append knows_drainJobs
  | drainResume => exact h.replace knows_drainJobs
  | dispatchStart => exact h.dispatch hs.enabled
  | dispatchExecute => exact h.dispatch hs.enabled
  | dispatchComplete => exact h.dispatch hs.enabled
  | dispatchEnd | dispatchError => exact fun job hm => h job (List.mem_of_mem_erase hm)
  | _ => exact h

theorem reach_jobsKnown {G : World → Action → Prop} (h : cluster.Reach G w) : w.JobsKnown := by
  refine h.invariant (I := JobsKnown) (fun w (hi : w.Starts) => by simp [JobsKnown, hi.jobs]) ?_
  intro w a w' _ hk _ hs job hm node hn id hid
  exact (stepped hs).getTask_isSome (hk.after (stepped hs) job hm node hn id hid)

-- ---------------------------------------------------------------------------
-- Duties over a run
-- ---------------------------------------------------------------------------

def CaredFor (w : World) (leader : NodeId) : Prop :=
  Cared leader w.log (w.replicas leader) w.jobs

theorem Job.reports_scheduler {job : Job} {id : TaskId} (h : job.reports leader id = true) :
    job.scheduler? = some leader ∧ id ∈ job.taskIds := by
  cases job with
  | cycle | drain => simp_all [Job.reports, Job.scheduler?, Job.taskIds]
  | dispatch node taskId target stage =>
    cases stage <;> simp_all [Job.reports, Job.scheduler?, Job.taskIds]

theorem reports_replace {jobs new : List Job} {old : Job} {id : TaskId}
    (hn : old.reports leader id = true → ∃ job ∈ new, job.reports leader id = true) :
    ∀ job ∈ jobs, job.reports leader id = true →
      ∃ job ∈ jobs.erase old ++ new, job.reports leader id = true := by
  intro job hm hr
  by_cases he : job = old
  · subst he
    obtain ⟨job', hm', hr'⟩ := hn hr
    exact ⟨job', List.mem_append_right _ hm', hr'⟩
  · exact ⟨job, List.mem_append_left _ ((List.mem_erase_of_ne he).mpr hm), hr⟩

theorem CaredFor.unappended (h : w.CaredFor leader) (hr : w'.replicas leader = w.replicas leader)
    (hlog : w'.log = w.log)
    (hj : ∀ id, ∀ job ∈ w.jobs, job.reports leader id = true →
      ∃ job ∈ w'.jobs, job.reports leader id = true) : w'.CaredFor leader := by
  unfold CaredFor
  rw [hr, hlog]
  exact Cared.handlers h hj

theorem CaredFor.elsewhere (h : w.CaredFor leader) (hs : w.Stepped a w')
    (hlead : w.leader = some leader) {node : NodeId} {old : Job} {new : List Job}
    (hn : a.node? = some node) (hne : node ≠ leader) (hold : old.scheduler? = some node)
    (hj : w'.jobs = w.jobs.erase old ++ new) : w'.CaredFor leader := by
  refine h.unappended (hs.replicas_eq ?_) ?_ ?_
  · rintro host rfl
    cases hn
    exact hne rfl
  · exact hs.log_of_other hlead hn hne
  · intro id
    rw [hj]
    apply reports_replace
    intro hr
    have := (Job.reports_scheduler hr).1
    rw [hold, Option.some.injEq] at this
    exact absurd this hne

theorem CaredFor.goesOn (h : w.CaredFor leader) (hc : w.Consistent) {old : Job} {new : List Job} {item : Item}
    (hr : w'.replicas leader = w.replicas leader) (hlog : w'.log = w.log ++ [item])
    (hj : w'.jobs = w.jobs.erase old ++ new)
    (hwrite : ∀ id, item.writes? id = some .assigned ∨ item.writes? id = some .running →
      ∃ job ∈ new, job.reports leader id = true)
    (hold : ∀ id, old.reports leader id = true →
      (∃ job ∈ new, job.reports leader id = true) ∨ (item.writes? id).isSome ∨
        item.fails? = some id)
    (hknown : ∀ id, item.fails? = some id → ((w.db leader).getTask id).isSome) :
    w'.CaredFor leader := by
  unfold CaredFor
  rw [hr, hlog]
  refine Cared.concat h ((hc.applied_le leader).trans hc.committed_le) ?_ ?_ hknown
  · intro id hb
    obtain ⟨job, hm, hr⟩ := hwrite id hb
    exact ⟨job, hj ▸ List.mem_append_right _ hm, hr⟩
  · intro id job hm hr
    by_cases he : job = old
    · subst he
      refine (hold id hr).imp_left ?_
      rintro ⟨job', hm', hr'⟩
      exact ⟨job', hj ▸ List.mem_append_right _ hm', hr'⟩
    · exact .inl ⟨job, hj ▸ List.mem_append_left _ ((List.mem_erase_of_ne he).mpr hm), hr⟩

theorem CaredFor.harmless (h : w.CaredFor leader) (hc : w.Consistent)
    (hr : w'.replicas leader = w.replicas leader)
    (hlog : w'.log = w.log ∨ w'.log = w.log ++ w.proposes a)
    (hi : ∀ item ∈ w.proposes a, item.Harmless)
    (hj : ∀ id, ∀ job ∈ w.jobs, job.reports leader id = true →
      ∃ job ∈ w'.jobs, job.reports leader id = true) : w'.CaredFor leader := by
  obtain hlog | hlog := hlog
  · exact h.unappended hr hlog hj
  · unfold CaredFor
    rw [hr, hlog]
    exact Cared.handlers (Cared.append h ((hc.applied_le leader).trans hc.committed_le) hi) hj

theorem Stepped.log_cases (hs : w.Stepped a w') (ha : ∀ node log, a ≠ .elect node log) :
    w'.log = w.log ∨ w'.log = w.log ++ w.proposes a := by
  rw [hs.log]
  cases a with
  | elect node log => exact absurd rfl (ha node log)
  | _ =>
    simp only [logAfter]
    split
    · exact .inr rfl
    · exact .inl rfl

theorem Item.harmless_requeue {now : Time} {task : TaskRecord} {proposer : Proposer} :
    (Item.mk (.parsed (requeue now task)) proposer).Harmless :=
  Item.harmless_of_followUp (.inl ⟨_, rfl⟩)

theorem Item.taskId?_of_writes {id : TaskId} {e : Entry} {proposer : Proposer}
    {st st' : TaskEngineState} (h : (Item.mk (.parsed e) proposer).writes? id = some st ∨
      (Item.mk (.parsed e) proposer).writes? id = some st') : e.taskId? = some id := by
  rw [Item.writes?_parsed] at h
  by_contra hne
  simp [hne] at h

theorem CaredFor.cycle (h : w.CaredFor leader) (hc : w.Consistent) (hleads : w.leads leader = true)
    (pickNode : TaskRecord → Option NodeId) (tasks : List TaskRecord)
    (hr : w'.replicas leader = w.replicas leader)
    (hlog : w'.log = w.log ++ (nextAssignment pickNode tasks).toList.map
      fun (taskId, target, _) => ⟨.parsed (.taskAssign ⟨taskId, target⟩), .runSchedulingCycle⟩)
    (hj : w'.jobs = w.jobs ++ w.cycleJobs leader pickNode tasks) : w'.CaredFor leader := by
  have stays (id : TaskId) (job : Job) (hm : job ∈ w.jobs) (hrep : job.reports leader id = true) :
      ∃ job ∈ w'.jobs, job.reports leader id = true :=
    ⟨job, hj ▸ List.mem_append_left _ hm, hrep⟩
  cases hn : nextAssignment pickNode tasks with
  | none => exact h.unappended hr (by simp [hlog, hn]) stays
  | some x =>
    obtain ⟨id, target, rest⟩ := x
    have hitem : w'.log = w.log ++ [⟨.parsed (.taskAssign ⟨id, target⟩), .runSchedulingCycle⟩] := by
      simp [hlog, hn]
    unfold CaredFor
    rw [hr, hitem]
    refine Cared.concat h ((hc.applied_le leader).trans hc.committed_le) ?_
      (fun k job hm hrep => .inl (stays k job hm hrep)) (fun k hk => by cases hk)
    intro k hk
    obtain rfl : id = k := Option.some.inj (Item.taskId?_of_writes hk)
    refine ⟨.cycle leader id target true rest, ?_, by simp [Job.reports]⟩
    rw [hj]
    simp [cycleJobs, hn, hleads]

section
variable (h : w.CaredFor leader) (hlead : w.leader = some leader)
include h hlead

theorem CaredFor.cycleResume {node target : NodeId} {taskId : TaskId} {success : Bool}
    {rest : List TaskRecord} {pickNode : TaskRecord → Option NodeId} (hc : w.Consistent)
    (hk : w.JobsKnown) (hs : w.Stepped (.cycleResume node taskId target success rest pickNode) w') :
    w'.CaredFor leader := by
  by_cases hn : node = leader
  · subst hn
    let new : List Job := if success then w.dispatchJobs node taskId target else []
    let mid : World :=
      { w with jobs := w.jobs.erase (.cycle node taskId target success rest) ++ new }
    have hmid : mid.CaredFor node := by
      refine Cared.handlers h fun id => reports_replace fun hr => ?_
      simp only [Job.reports, Bool.and_eq_true, decide_eq_true_eq] at hr
      obtain ⟨⟨rfl, -⟩, rfl⟩ := hr
      have hrow := hk _ hs.enabled node rfl taskId List.mem_cons_self
      obtain ⟨t, ht⟩ := Option.isSome_iff_exists.mp hrow
      refine ⟨.dispatch node taskId target .loading, ?_, by simp [Job.reports]⟩
      simp [new, dispatchJobs, ht]
    have hcmid : mid.Consistent := ⟨hc.plain, hc.committed_le, hc.applied_le, hc.follows⟩
    refine hmid.cycle hcmid (leads_leader hlead) pickNode rest
      (hs.replicas_eq (by simp)) ?_ ?_
    · rw [hs.log_of_leader hlead rfl]
      rfl
    · rw [hs.jobs]
      rfl
  · exact h.elsewhere hs hlead rfl hn rfl (by rw [hs.jobs, jobsAfter, List.append_assoc])

theorem CaredFor.runSchedulingCycle {node : NodeId} {now : Time}
    {pickNode : TaskRecord → Option NodeId} (hc : w.Consistent)
    (hs : w.Stepped (.runSchedulingCycle node now pickNode) w') : w'.CaredFor leader := by
  by_cases hn : w.leads node = true
  · obtain rfl := eq_of_leads hlead hn
    refine h.cycle hc hn pickNode ((w.db node).getQueuedTasks now)
      (hs.replicas_eq (by simp)) ?_ ?_
    · simp [hs.log_of_leader hlead rfl, proposes, hn]
    · simp [hs.jobs, jobsAfter, hn]
  · refine h.unappended (hs.replicas_eq (by simp)) ?_ ?_
    · simp [hs.log_of_node rfl, hn]
    · intro id job hm hr
      exact ⟨job, by simpa [hs.jobs, jobsAfter, hn] using hm, hr⟩

theorem CaredFor.dispatchStart {node target : NodeId} {taskId : TaskId} (hc : w.Consistent)
    (hs : w.Stepped (.dispatchStart node taskId target) w') : w'.CaredFor leader := by
  by_cases hn : node = leader
  · subst hn
    refine h.goesOn hc (hs.replicas_eq (by simp)) (hs.log_of_leader hlead rfl) hs.jobs ?_ ?_
      fun id hf => by cases hf
    · intro id hb
      obtain rfl : taskId = id := Option.some.inj (Item.taskId?_of_writes hb)
      exact ⟨_, List.mem_singleton_self _, by simp [Job.reports]⟩
    · intro id hr
      exact .inl ⟨_, List.mem_singleton_self _, hr⟩
  · exact h.elsewhere hs hlead rfl hn rfl hs.jobs

theorem CaredFor.dispatchComplete {node target : NodeId} {taskId : TaskId}
    {result : TaskResult} (hc : w.Consistent)
    (hs : w.Stepped (.dispatchComplete node taskId target result) w') : w'.CaredFor leader := by
  by_cases hn : node = leader
  · subst hn
    refine h.goesOn hc (hs.replicas_eq (by simp)) (hs.log_of_leader hlead rfl) hs.jobs ?_ ?_
      fun id hf => by cases hf
    · intro id hb
      simp only [Item.writes?_parsed] at hb
      split at hb <;> simp [Entry.writes?] at hb
    · intro id hr
      obtain rfl : taskId = id := by simpa [Job.reports] using hr
      exact .inr (.inl (by simp [Item.writes?_parsed, Entry.taskId?, Entry.writes?]))
  · exact h.elsewhere hs hlead rfl hn rfl hs.jobs

theorem CaredFor.dispatchError {node target : NodeId} {taskId : TaskId} {stage : Stage}
    {error : String} (hc : w.Consistent) (hk : w.JobsKnown)
    (hs : w.Stepped (.dispatchError node taskId target stage error) w') : w'.CaredFor leader := by
  have hj : w'.jobs = w.jobs.erase (.dispatch node taskId target stage) ++ [] := by
    rw [hs.jobs, List.append_nil]
    rfl
  by_cases hn : node = leader
  · subst hn
    refine h.goesOn hc (hs.replicas_eq (by simp)) (hs.log_of_leader hlead rfl) hj ?_ ?_ ?_
    · intro id hb
      simp only [Item.writes?_parsed] at hb
      split at hb <;> simp [Entry.writes?] at hb
    · intro id hr
      obtain ⟨-, hid⟩ := Job.reports_scheduler hr
      obtain rfl := List.mem_singleton.mp hid
      exact .inr (.inr rfl)
    · rintro id ⟨⟩
      exact hk _ hs.enabled node rfl taskId (List.mem_singleton_self _)
  · exact h.elsewhere hs hlead rfl hn rfl hj

theorem CaredFor.apply {node : NodeId} {host : Host} (hc : w.Consistent)
    (hg : w.HandsOver (.apply node host)) (hs : w.Stepped (.apply node host) w') :
    w'.CaredFor leader := by
  by_cases hn : node = leader
  · subst hn
    have hleads := leads_leader hlead
    obtain ⟨item, hnext, -, -⟩ := hc.next_eq hs.enabled.1
    have hap : w.applyNext node host =
        handleEntryCommitted host true (w.replicas node).db item.data := by
      simp [applyNext, hnext, hleads, World.db]
    unfold CaredFor
    rw [hs.replica_applied, hs.log_of_leader hlead rfl, hs.jobs, proposes, hap]
    refine Cared.applied h hnext fun id hid t ht => hg hleads id ?_ t ht
    rw [hnext]
    exact hid
  · refine h.unappended (hs.replicas_eq ?_) (hs.log_of_other hlead rfl hn) ?_
    · rintro host' ⟨⟩
      exact hn rfl
    · intro id job hm hr
      exact ⟨job, hs.jobs ▸ hm, hr⟩

end

theorem CaredFor.step (h : w.CaredFor leader) (hc : w.Consistent) (hk : w.JobsKnown)
    (hlead : w.leader = some leader) (hg : w.HandsOver a) (hs : w.Stepped a w')
    (hne : ∀ node log, a ≠ .elect node log) : w'.CaredFor leader := by
  have unchanged (hj : w'.jobs = w.jobs) (id : TaskId) : ∀ job ∈ w.jobs,
      job.reports leader id = true → ∃ job ∈ w'.jobs, job.reports leader id = true :=
    fun job hm hr => ⟨job, hj ▸ hm, hr⟩
  cases a with
  | elect node log => exact absurd rfl (hne node log)
  | stepDown | commit =>
    exact h.unappended (hs.replicas_eq (by simp)) hs.log (unchanged hs.jobs)
  | submitTask | submitWorkflow | appendElsewhere =>
    refine h.harmless hc (hs.replicas_eq (by simp)) (hs.log_cases hne) ?_ (unchanged hs.jobs)
    intro item hm
    obtain rfl := List.mem_singleton.mp hm
    exact ⟨fun id => by simp [Item.writes?, Entry.taskId?], rfl⟩
  | cancelTask | retryDeadLetterTask =>
    refine h.harmless hc (hs.replicas_eq (by simp)) (hs.log_cases hne) ?_ (unchanged hs.jobs)
    intro item hm
    simp only [proposes] at hm
    split at hm
    · cases hm
    · split at hm
      · cases hm
      · obtain rfl := List.mem_singleton.mp hm
        refine ⟨fun id => ?_, rfl⟩
        rw [Item.writes?_parsed]
        split <;> simp [Entry.writes?]
  | nodeOffline node target now =>
    refine h.harmless hc (hs.replicas_eq (by simp)) (hs.log_cases hne) ?_ (unchanged hs.jobs)
    intro item hm
    simp only [proposes] at hm
    split at hm
    · obtain ⟨t, -, rfl⟩ := List.mem_map.mp hm
      exact Item.harmless_requeue
    · cases hm
  | drainNodeTasks node target now =>
    refine h.harmless hc (hs.replicas_eq (by simp)) (hs.log_cases hne) ?_ ?_
    · intro item hm
      obtain ⟨t, -, rfl⟩ := List.mem_map.mp hm
      exact Item.harmless_requeue
    · intro id job hm hr
      exact ⟨job, hs.jobs ▸ List.mem_append_left _ hm, hr⟩
  | drainResume node rest now =>
    refine h.harmless hc (hs.replicas_eq (by simp)) (hs.log_cases hne) ?_ ?_
    · intro item hm
      obtain ⟨t, -, rfl⟩ := List.mem_map.mp hm
      exact Item.harmless_requeue
    · intro id
      rw [hs.jobs]
      exact reports_replace fun hr => by cases hr
  | dispatchExecute node taskId target =>
    refine h.unappended (hs.replicas_eq (by simp)) ?_ ?_
    · simp [hs.log_of_node rfl, proposes]
    · intro id
      rw [hs.jobs]
      exact reports_replace fun hr => ⟨_, List.mem_singleton_self _, hr⟩
  | dispatchEnd node taskId target =>
    refine h.unappended (hs.replicas_eq (by simp)) ?_ ?_
    · simp [hs.log_of_node rfl, proposes]
    · intro id
      rw [hs.jobs, jobsAfter, ← List.append_nil (w.jobs.erase _)]
      exact reports_replace fun hr => by cases hr
  | runSchedulingCycle => exact h.runSchedulingCycle hlead hc hs
  | cycleResume => exact h.cycleResume hlead hc hk hs
  | dispatchStart => exact h.dispatchStart hlead hc hs
  | dispatchComplete => exact h.dispatchComplete hlead hc hs
  | dispatchError => exact h.dispatchError hlead hc hk hs
  | apply => exact h.apply hlead hc hg hs

theorem reach_caredFor (h : cluster.Reach HandsOver w) (hlead : w.leader = some leader) :
    w.CaredFor leader := by
  refine h.invariant (I := fun w => ∀ leader, w.leader = some leader → w.CaredFor leader) ?_ ?_
    leader hlead
  · intro w hi leader _
    refine cared_of (fun id hb => ?_) fun id i hu => ?_
    · simp [Busy, hi.log, lastWritten] at hb
    · have := hu.lt
      simp [hi.log] at this
  · intro w a w' hr hI hg hs leader hl
    have hst := stepped hs
    cases a with
    | elect node log =>
      obtain rfl : node = leader := by simpa [hst.leader, leaderAfter] using hl
      unfold CaredFor
      rw [hst.log, hst.jobs, hst.replicas]
      exact hg
    | stepDown => simp [hst.leader, leaderAfter] at hl
    | _ =>
      have hold : w.leader = some leader := by rw [← hl, hst.leader]; rfl
      exact (hI leader hold).step (reach_consistent hr) (reach_jobsKnown hr) hold hg hst
        (by simp)

-- ---------------------------------------------------------------------------
-- Quiescent states
-- ---------------------------------------------------------------------------

/-- Someone leads, every node has applied the whole log, and no handler is suspended. -/
structure Quiescent (w : World) : Prop where
  leader : ∃ leader ∈ w.members, w.leader = some leader
  applied : ∀ node ∈ w.members, (w.replicas node).applied = w.log.length
  idle : w.jobs = []

instance (w : World) : Decidable w.Quiescent :=
  decidable_of_iff ((∃ leader ∈ w.members, w.leader = some leader) ∧
      (∀ node ∈ w.members, (w.replicas node).applied = w.log.length) ∧ w.jobs = [])
    ⟨fun h => ⟨h.1, h.2.1, h.2.2⟩, fun h => ⟨h.leader, h.applied, h.idle⟩⟩

/-- When the cluster has come to rest after any number of leader changes, so has
every task on every node, and every failure has been answered. -/
theorem no_stuck_task (h : cluster.Reach HandsOver w) (hq : w.Quiescent) :
    (∀ node ∈ w.members, ∀ t ∈ (w.db node).tasks.rows, t.state.AtRest) ∧
      ∀ id i, ¬ Unanswered w.log id i := by
  obtain ⟨leader, hmem, hlead⟩ := hq.leader
  have hcared := reach_caredFor h hlead
  have happ := hq.applied leader hmem
  have hbusy (id : TaskId) : ¬ Busy w.log id := by
    intro hb
    obtain ⟨job, hm, -⟩ | ⟨i, hi, ha, -, -⟩ := Cared.of_busy hcared hb
    · rw [hq.idle] at hm
      cases hm
    · omega
  constructor
  · intro node hn t ht
    have hfollows := (reach_consistent h).follows node t.id t (Db.getTask_of_mem ht)
    rw [hq.applied node hn, List.take_length] at hfollows
    obtain hst | hst | hlast := hfollows
    · exact .inl hst
    · exact .inr (.inl hst)
    · obtain ⟨item, -, hw⟩ := exists_of_lastWritten hlast
      obtain hst | hst | hrest := Item.writes?_cases hw
      · exact absurd (.inl (hst ▸ hlast)) (hbusy t.id)
      · exact absurd (.inr (hst ▸ hlast)) (hbusy t.id)
      · exact hrest
  · intro id i hu
    have := (Cared.of_unanswered hcared hu).1
    have := hu.lt
    omega

end World

-- ---------------------------------------------------------------------------
-- Two nodes
-- ---------------------------------------------------------------------------

def startedLog : List Item :=
  [⟨.parsed (.taskSubmit (SubmitTaskArgs.payload {} "u" "a")), .submitTask⟩,
    ⟨.parsed (.taskAssign ⟨"u", "a"⟩), .runSchedulingCycle⟩,
    ⟨.parsed (.taskStarted ⟨"u", "a"⟩), .dispatchToNode⟩]

/-- The next entry is committed and applied on both nodes, first on `node`. -/
def appliedFirstOn (node other : NodeId) (index : Nat) : List Action :=
  [.commit index, .apply node (hostOf node), .apply other (hostOf other)]

def executesTask : List Action :=
  .submitTask "a" "u" {} :: appliedFirstOn "a" "b" 1 ++
    .runSchedulingCycle "a" 0 (fun _ => some "a") :: appliedFirstOn "a" "b" 2 ++
    [.cycleResume "a" "u" "a" true [] fun _ => none, .dispatchStart "a" "u" "a"] ++
    appliedFirstOn "a" "b" 3 ++ [.dispatchExecute "a" "u" "a"]

/-- While `a` executes the task, `b` is elected. What `a` has to report comes to
nothing, and the task is running for good. -/
theorem deposed_dispatch_leaves_running :
    ∃ w, cluster.Reach (fun _ _ => True) w ∧ w.Quiescent ∧ w.members = ["a", "b"] ∧
      ∀ node ∈ w.members, ((w.db node).getTask "u").map (·.state) = some .running := by
  exact System.Reach.replay (World.starts_start ["a", "b"] (some "a"))
    (executesTask ++ [.elect "b" startedLog, .dispatchComplete "a" "u" "a" { exitCode := some 0 },
      .dispatchEnd "a" "u" "a"]) (by decide +kernel)

theorem failure_answered_by_successor :
    ∃ w, cluster.Reach World.HandsOver w ∧ w.Quiescent ∧ w.leader = some "b" ∧
      (∃ i : Nat, (w.log[i]?).bind Item.fails? = some "u") ∧ ∀ id i, ¬ Unanswered w.log id i := by
  obtain ⟨w, hr, hq, hl, hf⟩ := @System.Reach.replay _ _ cluster World.HandsOver _ _
    (fun w => w.Quiescent ∧ w.leader = some "b" ∧ (w.log[3]?).bind Item.fails? = some "u") _
    (World.starts_start ["a", "b"] (some "a"))
    (executesTask ++ [.dispatchError "a" "u" "a" .executing "refused",
      .elect "b" (startedLog ++ [⟨.parsed (.taskFailed ⟨"u", "refused", "a"⟩), .dispatchToNode⟩])] ++
      appliedFirstOn "b" "a" 4 ++ appliedFirstOn "b" "a" 5) (by decide +kernel)
  exact ⟨w, hr, hq, hl, ⟨3, hf⟩, (World.no_stuck_task hr hq).2⟩

end ClaudeCluster.Tasks
