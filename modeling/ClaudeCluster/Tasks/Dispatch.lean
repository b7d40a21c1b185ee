import ClaudeCluster.Tasks.TaskLog

/-!
# At most one dispatch

A scheduling cycle works on a snapshot and nothing keeps two cycles apart, so
a task is executed once for each time it is queued only if a cycle that reaches
it finds it queued, with no assignment of it on the way: neither in the part of
the log the leader has yet to apply nor in a handler that has yet to call
`executeTask`.
-/

namespace ClaudeCluster.Tasks

open Lib (System)
open Raft (NodeId)

-- ---------------------------------------------------------------------------
-- Executions in a trace
-- ---------------------------------------------------------------------------

/-- Between two executions of a task it is put into the queue. -/
def AtMostOnce (trace : List Event) : Prop :=
  ∀ id before between after,
    trace = before ++ .executed id :: (between ++ .executed id :: after) → .requeued id ∈ between

def ExecutedSince (id : TaskId) (trace : List Event) : Prop :=
  ∃ before after, trace = before ++ .executed id :: after ∧ .requeued id ∉ after

section

variable {id : TaskId} {trace : List Event} {event : Event}

theorem executedSince_concat :
    ExecutedSince id (trace ++ [event]) ↔
      event = .executed id ∨ ExecutedSince id trace ∧ event ≠ .requeued id := by
  constructor
  · rintro ⟨before, after, he, hn⟩
    rcases List.eq_nil_or_concat after with rfl | ⟨after, last, rfl⟩
    · obtain ⟨-, he⟩ := List.append_inj' he rfl
      exact .inl (by simpa using he)
    · rw [List.concat_eq_append, ← List.cons_append, ← List.append_assoc] at he
      obtain ⟨rfl, he⟩ := List.append_inj' he rfl
      obtain rfl : event = last := by simpa using he
      simp only [List.concat_eq_append, List.mem_append, List.mem_singleton, not_or] at hn
      exact .inr ⟨⟨before, after, rfl, hn.1⟩, Ne.symm hn.2⟩
  · rintro (rfl | ⟨⟨before, after, rfl, hn⟩, hne⟩)
    · exact ⟨trace, [], rfl, by simp⟩
    · refine ⟨before, after ++ [event], by simp, ?_⟩
      simp only [List.mem_append, List.mem_singleton, not_or]
      exact ⟨hn, Ne.symm hne⟩

theorem AtMostOnce.concat (h : AtMostOnce trace) (he : ∀ id, event = .executed id → ¬ ExecutedSince id trace) :
    AtMostOnce (trace ++ [event]) := by
  intro id before between after htrace
  rcases List.eq_nil_or_concat after with rfl | ⟨after, last, rfl⟩
  · rw [← List.cons_append, ← List.append_assoc] at htrace
    obtain ⟨rfl, hlast⟩ := List.append_inj' htrace rfl
    by_contra hn
    exact he id (by simpa using hlast) ⟨before, between, rfl, hn⟩
  · have : trace ++ [event] =
        (before ++ .executed id :: (between ++ .executed id :: after)) ++ [last] := by
      rw [htrace]
      simp
    obtain ⟨rfl, -⟩ := List.append_inj' this rfl
    exact h id before between after rfl

theorem executedSince_append_requeued {ids : List TaskId} :
    ExecutedSince id (trace ++ ids.map .requeued) ↔ ExecutedSince id trace ∧ id ∉ ids := by
  induction ids generalizing trace with
  | nil => simp
  | cons k ids ih =>
    rw [List.map_cons, ← List.singleton_append, ← List.append_assoc, ih, executedSince_concat]
    simp only [reduceCtorEq, false_or, ne_eq, Event.requeued.injEq, List.mem_cons, not_or]
    rw [and_assoc, eq_comm]

theorem AtMostOnce.append {events : List Event} (h : AtMostOnce trace)
    (he : ∀ event ∈ events, ∀ id, event ≠ .executed id) : AtMostOnce (trace ++ events) := by
  induction events generalizing trace with
  | nil => simpa using h
  | cons event events ih =>
    rw [← List.singleton_append, ← List.append_assoc]
    apply ih
    · apply h.concat
      intro id hid
      exact absurd hid (he event List.mem_cons_self id)
    · exact fun e hm => he e (List.mem_cons_of_mem _ hm)

end

-- ---------------------------------------------------------------------------
-- The condition
-- ---------------------------------------------------------------------------

def Job.awaits (id : TaskId) : Job → Bool
  | .cycle _ taskId _ success _ => success && taskId = id
  | .dispatch _ taskId _ .loading | .dispatch _ taskId _ .starting => taskId = id
  | .dispatch .. | .drain .. => false

def Item.assigns (id : TaskId) (item : Item) : Bool :=
  match item.data with
  | .parsed (.taskAssign p) => p.taskId = id
  | _ => false

namespace World

variable (w : World)

def stateOf (node : NodeId) (id : TaskId) : Option TaskEngineState :=
  ((w.db node).getTask id).map (·.state)

/-- An assignment of the task is in the part of the log the node has yet to apply. -/
def AssignInFlight (node : NodeId) (id : TaskId) : Prop :=
  (w.log.drop (w.replicas node).applied).any (Item.assigns id) = true

structure Assignable (node : NodeId) (id : TaskId) : Prop where
  queued : w.stateOf node id = some .queued
  unassigned : ¬ w.AssignInFlight node id
  unawaited : ∀ job ∈ w.jobs, job.awaits id = false

/-- There is one leader throughout, its cycles assign assignable tasks only,
and `executeTask` is not called for a task that is back in the queue. -/
def SchedulesOnce : Action → Prop
  | .stepDown | .elect .. => False
  | .runSchedulingCycle node now pickNode =>
    w.leads node = true →
      ∀ x ∈ nextAssignment pickNode ((w.db node).getQueuedTasks now), w.Assignable node x.1
  | .cycleResume node _ _ _ rest pickNode =>
    w.leads node = true → ∀ x ∈ nextAssignment pickNode rest, w.Assignable node x.1
  | .dispatchExecute node id _ => w.stateOf node id ≠ some .queued ∨ w.AssignInFlight node id
  | _ => True

instance (node : NodeId) (id : TaskId) : Decidable (w.AssignInFlight node id) :=
  inferInstanceAs (Decidable (_ = true))

instance (node : NodeId) (id : TaskId) : Decidable (w.Assignable node id) :=
  decidable_of_iff (w.stateOf node id = some .queued ∧ ¬ w.AssignInFlight node id ∧
      ∀ job ∈ w.jobs, job.awaits id = false)
    ⟨fun h => ⟨h.1, h.2.1, h.2.2⟩, fun h => ⟨h.queued, h.unassigned, h.unawaited⟩⟩

instance : DecidablePred w.SchedulesOnce
  | .stepDown | .elect .. => .isFalse not_false
  | .runSchedulingCycle .. | .cycleResume .. =>
    inferInstanceAs (Decidable (_ → ∀ x ∈ nextAssignment _ _, _))
  | .dispatchExecute .. => inferInstanceAs (Decidable (_ ∨ _))
  | .submitTask .. | .submitWorkflow .. | .cancelTask .. | .retryDeadLetterTask .. |
    .drainNodeTasks .. | .drainResume .. | .nodeOffline .. | .dispatchStart .. |
    .dispatchComplete .. | .dispatchEnd .. | .dispatchError .. | .appendElsewhere _ | .commit _ |
    .apply .. => .isTrue trivial

-- ---------------------------------------------------------------------------
-- The invariant
-- ---------------------------------------------------------------------------

structure Scheduled (leader : NodeId) (w : World) : Prop where
  owner : ∀ job ∈ w.jobs, ∀ node ∈ job.scheduler?, node = leader
  once : ∀ id, w.jobs.countP (Job.awaits id) ≤ 1
  fresh : ∀ id, 0 < w.jobs.countP (Job.awaits id) → ¬ ExecutedSince id w.trace
  taken : ∀ id, ExecutedSince id w.trace →
    w.stateOf leader id ≠ some .queued ∨ w.AssignInFlight leader id
  atMostOnce : AtMostOnce w.trace
  reached : ∀ id st, .reached id st ∈ w.trace → st = some .queued

section

variable {w w' : World} {leader : NodeId} {a : Action}

theorem AssignInFlight.mono {id : TaskId} (h : w.AssignInFlight leader id)
    (hr : w'.replicas leader = w.replicas leader) (hl : w.log <+: w'.log) :
    w'.AssignInFlight leader id := by
  unfold AssignInFlight at *
  rw [hr]
  obtain ⟨rest, hl⟩ := hl
  rw [← hl, List.drop_append, List.any_append, h]
  rfl

theorem taken_mono {id : TaskId}
    (h : w.stateOf leader id ≠ some .queued ∨ w.AssignInFlight leader id)
    (hr : w'.replicas leader = w.replicas leader) (hl : w.log <+: w'.log) :
    w'.stateOf leader id ≠ some .queued ∨ w'.AssignInFlight leader id := by
  refine h.imp (fun hne => ?_) fun hf => hf.mono hr hl
  rwa [stateOf, db, hr]

theorem countP_awaits_eq_zero {id : TaskId} (h : ∀ job ∈ w.jobs, job.awaits id = false) :
    w.jobs.countP (Job.awaits id) = 0 := by
  rw [List.countP_eq_zero]
  intro job hm
  simp [h job hm]

theorem Scheduled.mono (h : Scheduled leader w) (hr : w'.replicas leader = w.replicas leader)
    (hl : w.log <+: w'.log) (ht : w'.trace = w.trace)
    (ho : ∀ job ∈ w'.jobs, ∀ node ∈ job.scheduler?, node = leader)
    (hj : ∀ id, w'.jobs.countP (Job.awaits id) ≤ w.jobs.countP (Job.awaits id)) :
    Scheduled leader w' where
  owner := ho
  once id := (hj id).trans (h.once id)
  fresh id hpos := by
    rw [ht]
    exact h.fresh id (hpos.trans_le (hj id))
  taken id hx := by
    rw [ht] at hx
    exact taken_mono (h.taken id hx) hr hl
  atMostOnce := ht ▸ h.atMostOnce
  reached := ht ▸ h.reached

theorem Scheduled.assign (h : Scheduled leader w) {id : TaskId} {target : NodeId}
    {rest : List TaskRecord} {item : Item} (ha : w.Assignable leader id)
    (hr : w'.replicas leader = w.replicas leader) (hl : w'.log = w.log ++ [item])
    (ht : w'.trace = w.trace ++ [.reached id (w.stateOf leader id)])
    (hj : w'.jobs = w.jobs ++ [.cycle leader id target true rest]) : Scheduled leader w' := by
  have hsince (k : TaskId) : ExecutedSince k w'.trace ↔ ExecutedSince k w.trace := by
    rw [ht, executedSince_concat]
    simp
  have hzero : w.jobs.countP (Job.awaits id) = 0 := countP_awaits_eq_zero ha.unawaited
  have hcount (k : TaskId) : w'.jobs.countP (Job.awaits k) =
      w.jobs.countP (Job.awaits k) + if id = k then 1 else 0 := by
    rw [hj, List.countP_append, List.countP_singleton]
    simp [Job.awaits]
  refine ⟨?_, ?_, ?_, ?_, ?_, ?_⟩
  · intro job hm
    rw [hj, List.mem_append, List.mem_singleton] at hm
    obtain hm | rfl := hm
    · exact h.owner job hm
    · rintro node ⟨⟩
      rfl
  · intro k
    rw [hcount]
    split
    case isTrue hk =>
      rw [← hk, hzero]
    case isFalse => exact h.once k
  · intro k hpos
    rw [hsince]
    rw [hcount] at hpos
    split at hpos
    case isTrue hk =>
      subst hk
      intro hx
      obtain hne | hf := h.taken id hx
      · exact hne ha.queued
      · exact ha.unassigned hf
    case isFalse => exact h.fresh k hpos
  · intro k hx
    rw [hsince] at hx
    exact taken_mono (h.taken k hx) hr (hl ▸ List.prefix_append _ _)
  · rw [ht]
    exact h.atMostOnce.concat (by simp)
  · intro k st hm
    rw [ht, List.mem_append, List.mem_singleton] at hm
    obtain hm | he := hm
    · exact h.reached k st hm
    · cases he
      exact ha.queued

theorem Scheduled.execute (h : Scheduled leader w) {id : TaskId} {target : NodeId}
    (hm : .dispatch leader id target .starting ∈ w.jobs)
    (hb : w.stateOf leader id ≠ some .queued ∨ w.AssignInFlight leader id)
    (hr : w'.replicas leader = w.replicas leader) (hl : w'.log = w.log)
    (ht : w'.trace = w.trace ++ [.executed id])
    (hj : w'.jobs = w.jobs.erase (.dispatch leader id target .starting) ++
      [.dispatch leader id target .executing]) : Scheduled leader w' := by
  have hcount (k : TaskId) : w'.jobs.countP (Job.awaits k) + (if id = k then 1 else 0) =
      w.jobs.countP (Job.awaits k) := by
    rw [(List.perm_cons_erase hm).countP_eq, List.countP_cons, hj, List.countP_append,
      List.countP_singleton]
    simp [Job.awaits]
  have hpos : 0 < w.jobs.countP (Job.awaits id) := by
    have := hcount id
    simp only [if_true] at this
    omega
  have hsince (k : TaskId) : ExecutedSince k w'.trace ↔ id = k ∨ ExecutedSince k w.trace := by
    rw [ht, executedSince_concat]
    simp
  refine ⟨?_, ?_, ?_, ?_, ?_, ?_⟩
  · intro job hjob
    rw [hj, List.mem_append, List.mem_singleton] at hjob
    obtain hjob | rfl := hjob
    · exact h.owner job (List.mem_of_mem_erase hjob)
    · rintro node ⟨⟩
      rfl
  · intro k
    have := hcount k
    have := h.once k
    omega
  · intro k hk
    rw [hsince]
    have hc := hcount k
    rintro (rfl | hx)
    · have := h.once id
      simp only [if_true] at hc
      omega
    · exact h.fresh k (by omega) hx
  · intro k hx
    have hold : w.stateOf leader k ≠ some .queued ∨ w.AssignInFlight leader k := by
      obtain rfl | hx := (hsince k).mp hx
      · exact hb
      · exact h.taken k hx
    exact taken_mono hold hr (hl ▸ List.prefix_rfl)
  · rw [ht]
    apply h.atMostOnce.concat
    rintro k ⟨⟩
    exact h.fresh id hpos
  · intro k st hm
    rw [ht, List.mem_append, List.mem_singleton] at hm
    obtain hm | he := hm
    · exact h.reached k st hm
    · cases he

theorem stateOf_queued_before {item : Item} {k : TaskId} {t' : TaskRecord}
    (hk : k ∉ requeuedBy item.data (w.db leader) (w'.db leader))
    (ht' : (w'.db leader).getTask k = some t') (hst' : t'.state = .queued) :
    w.stateOf leader k = some .queued := by
  have hrow : ¬ (item.data.retries? = some k ∨
      ((w.db leader).getTask k).all (·.state ≠ .queued) = true) := by
    intro hor
    apply hk
    refine List.mem_map.mpr ⟨t', List.mem_filter.mpr ⟨Db.getTask_mem ht', ?_⟩, Db.getTask_id ht'⟩
    simpa [Db.getTask_id ht', hst'] using hor
  rw [not_or] at hrow
  unfold stateOf
  cases hg : (w.db leader).getTask k with
  | none => simp [hg] at hrow
  | some t => simpa [hg] using hrow.2

theorem assigns_not_queued {host : Host} {item : Item} {db : Db} {k : TaskId} {t t' : TaskRecord}
    (ha : item.assigns k = true) (ht : db.getTask k = some t)
    (ht' : (handleEntryCommitted host true db item.data).1.getTask k = some t') :
    t'.state ≠ .queued := by
  obtain ⟨data, proposer⟩ := item
  simp only [Item.assigns] at ha
  split at ha
  case h_1 p =>
    obtain rfl : p.taskId = k := by simpa using ha
    rw [handleEntryCommitted_parsed, getTask_applyEntry_task rfl, if_pos rfl, ht] at ht'
    cases ht'
    simp [Entry.set]
  case h_2 => cases ha

theorem Scheduled.applied {host : Host} (h : Scheduled leader w) (hc : w.Consistent)
    (hlead : w.leader = some leader) (hs : w.Stepped (.apply leader host) w') :
    Scheduled leader w' := by
  obtain ⟨item, hnext, hmem, -⟩ := hc.next_eq hs.enabled.1
  have hleads := leads_leader hlead
  have hdb : w'.db leader = (handleEntryCommitted host true (w.db leader) item.data).1 := by
    rw [hs.db_applied hnext, hleads]
  have happ : (w'.replicas leader).applied = (w.replicas leader).applied + 1 := by
    rw [hs.replica_applied]
  have htrace : w'.trace =
      w.trace ++ (requeuedBy item.data (w.db leader) (w'.db leader)).map .requeued := by
    rw [hs.trace, hdb]
    simp [events, hnext, hleads, applyNext]
  have hsince (k : TaskId) : ExecutedSince k w'.trace ↔
      ExecutedSince k w.trace ∧ k ∉ requeuedBy item.data (w.db leader) (w'.db leader) := by
    rw [htrace, executedSince_append_requeued]
  have hjobs : w'.jobs = w.jobs := hs.jobs
  have hnot : ∀ event ∈ (requeuedBy item.data (w.db leader) (w'.db leader)).map Event.requeued,
      ∃ k, event = .requeued k := by
    intro event hm
    obtain ⟨k, -, rfl⟩ := List.mem_map.mp hm
    exact ⟨k, rfl⟩
  refine ⟨hjobs ▸ h.owner, hjobs ▸ h.once, ?_, ?_, ?_, ?_⟩
  · intro k hpos hx
    exact h.fresh k (hjobs ▸ hpos) ((hsince k).mp hx).1
  · intro k hx
    obtain ⟨hx, hk⟩ := (hsince k).mp hx
    by_contra hn
    rw [not_or, not_not] at hn
    obtain ⟨hq, hflight⟩ := hn
    obtain ⟨t', ht', hst'⟩ := Option.map_eq_some_iff.mp hq
    have hwas := stateOf_queued_before hk ht' hst'
    obtain ⟨t, ht, -⟩ := Option.map_eq_some_iff.mp hwas
    have hold : w.AssignInFlight leader k :=
      (h.taken k hx).resolve_left fun hne => hne hwas
    have hdrop : w.log.drop (w.replicas leader).applied =
        item :: w.log.drop ((w.replicas leader).applied + 1) := by
      obtain ⟨hlt, hget⟩ := List.getElem?_eq_some_iff.mp hnext
      rw [List.drop_eq_getElem_cons hlt, hget]
    rw [AssignInFlight, hdrop, List.any_cons, Bool.or_eq_true] at hold
    obtain hassign | hlater := hold
    · exact assigns_not_queued hassign ht (hdb ▸ ht') hst'
    · apply hflight
      obtain ⟨rest, hl⟩ := hs.log_prefix (by simp)
      rw [AssignInFlight, happ, ← hl, List.drop_append, List.any_append, hlater]
      rfl
  · rw [htrace]
    apply h.atMostOnce.append
    intro event hm k
    obtain ⟨k', rfl⟩ := hnot event hm
    simp
  · intro k st hm
    rw [htrace, List.mem_append] at hm
    obtain hm | hm := hm
    · exact h.reached k st hm
    · obtain ⟨k', he⟩ := hnot _ hm
      cases he

theorem countP_replace {jobs new : List Job} {job : Job} {id : TaskId} (hm : job ∈ jobs)
    (hn : new.countP (Job.awaits id) ≤ if job.awaits id then 1 else 0) :
    (jobs.erase job ++ new).countP (Job.awaits id) ≤ jobs.countP (Job.awaits id) := by
  rw [(List.perm_cons_erase hm).countP_eq, List.countP_append, List.countP_cons]
  omega

theorem Scheduled.owner_replace (h : Scheduled leader w) {new : List Job} {job : Job}
    (hn : ∀ j ∈ new, ∀ node ∈ j.scheduler?, node = leader) :
    ∀ j ∈ w.jobs.erase job ++ new, ∀ node ∈ j.scheduler?, node = leader := by
  intro j hj
  obtain hj | hj := List.mem_append.mp hj
  · exact h.owner j (List.mem_of_mem_erase hj)
  · exact hn j hj

theorem Scheduled.replace (h : Scheduled leader w) (hs : w.Stepped a w')
    (ha : ∀ host, a ≠ .apply leader host) (hel : ∀ node log, a ≠ .elect node log)
    (ht : w.events a = []) {new : List Job} {job : Job} (hm : job ∈ w.jobs)
    (hj : w'.jobs = w.jobs.erase job ++ new)
    (hnode : ∀ j ∈ new, ∀ node ∈ j.scheduler?, node ∈ job.scheduler?)
    (hcount : ∀ id, new.countP (Job.awaits id) ≤ if job.awaits id then 1 else 0) :
    Scheduled leader w' := by
  refine h.mono (hs.replicas_eq ha) (hs.log_prefix hel) (by rw [hs.trace, ht, List.append_nil]) ?_ ?_
  · rw [hj]
    apply h.owner_replace
    intro j hjn node hn
    exact h.owner job hm node (hnode j hjn node hn)
  · intro id
    rw [hj]
    exact countP_replace hm (hcount id)

theorem Scheduled.goOn (h : Scheduled leader w) (pickNode : TaskRecord → Option NodeId)
    (tasks : List TaskRecord) (hleads : w.leads leader = true)
    (hg : ∀ x ∈ nextAssignment pickNode tasks, w.Assignable leader x.1)
    (hr : w'.replicas leader = w.replicas leader)
    (hl : w'.log = w.log ++ (nextAssignment pickNode tasks).toList.map
      fun (taskId, target, _) => ⟨.parsed (.taskAssign ⟨taskId, target⟩), .runSchedulingCycle⟩)
    (ht : w'.trace = w.trace ++ w.reached leader pickNode tasks)
    (hj : w'.jobs = w.jobs ++ w.cycleJobs leader pickNode tasks) : Scheduled leader w' := by
  cases hn : nextAssignment pickNode tasks with
  | none =>
    refine h.mono hr (by simp [hl, hn]) (by simp [ht, World.reached, hn]) ?_ ?_
    · simpa [hj, cycleJobs, hn] using h.owner
    · simp [hj, cycleJobs, hn]
  | some x =>
    obtain ⟨id, target, rest⟩ := x
    have hlog : w'.log = w.log ++ [⟨.parsed (.taskAssign ⟨id, target⟩), .runSchedulingCycle⟩] := by
      simp [hl, hn]
    have hjobs : w'.jobs = w.jobs ++ [.cycle leader id target true rest] := by
      simp [hj, cycleJobs, hn, hleads]
    exact h.assign (hg _ hn) hr hlog (by simp [ht, World.reached, hleads, hn, stateOf]) hjobs

theorem Scheduled.aside (h : Scheduled leader w) (hs : w.Stepped a w')
    (ha : ∀ host, a ≠ .apply leader host) (hel : ∀ node log, a ≠ .elect node log)
    (ht : w.events a = []) (hj : w'.jobs = w.jobs) : Scheduled leader w' := by
  refine h.mono (hs.replicas_eq ha) (hs.log_prefix hel) (by rw [hs.trace, ht, List.append_nil])
    (hj ▸ h.owner) ?_
  intro id
  rw [hj]

theorem countP_dispatchJobs {node target : NodeId} {taskId : TaskId} {success : Bool}
    {rest : List TaskRecord} (id : TaskId) :
    (if success then w.dispatchJobs node taskId target else []).countP (Job.awaits id) ≤
      if Job.awaits id (.cycle node taskId target success rest) then 1 else 0 := by
  cases success with
  | false => simp
  | true =>
    simp only [if_true, dispatchJobs, Job.awaits, Bool.true_and, decide_eq_true_eq]
    split
    · simp
    · rw [List.countP_singleton]
      simp [Job.awaits]

theorem scheduler_dispatchJobs {node target : NodeId} {taskId : TaskId} {success : Bool} :
    ∀ j ∈ (if success then w.dispatchJobs node taskId target else []),
      ∀ n ∈ j.scheduler?, n = node := by
  intro j hj n hn
  simp only [dispatchJobs] at hj
  split at hj
  · split at hj
    · cases hj
    · obtain rfl := List.mem_singleton.mp hj
      simpa [Job.scheduler?, eq_comm] using hn
  · cases hj

/-- First the handler of the assignment that has been awaited, then the loop. -/
theorem Scheduled.cycleResume {node target : NodeId} {taskId : TaskId} {success : Bool}
    {rest : List TaskRecord} {pickNode : TaskRecord → Option NodeId} (h : Scheduled leader w)
    (hlead : w.leader = some leader)
    (hg : w.SchedulesOnce (.cycleResume node taskId target success rest pickNode))
    (hs : w.Stepped (.cycleResume node taskId target success rest pickNode) w') :
    Scheduled leader w' := by
  obtain rfl : node = leader := h.owner _ hs.enabled node rfl
  have hleads := leads_leader hlead
  let new : List Job := if success then w.dispatchJobs node taskId target else []
  let mid : World :=
    { w with jobs := w.jobs.erase (.cycle node taskId target success rest) ++ new }
  have hcount (id : TaskId) : mid.jobs.countP (Job.awaits id) ≤ w.jobs.countP (Job.awaits id) :=
    countP_replace hs.enabled (countP_dispatchJobs id)
  have hmid : Scheduled node mid :=
    h.mono rfl List.prefix_rfl rfl (h.owner_replace scheduler_dispatchJobs) hcount
  refine hmid.goOn pickNode rest hleads ?_ (hs.replicas_eq (by simp)) ?_ ?_ ?_
  · intro x hx
    obtain ⟨hq, hu, hw⟩ := hg hleads x hx
    refine ⟨hq, hu, ?_⟩
    have hz : w.jobs.countP (Job.awaits x.1) = 0 := countP_awaits_eq_zero hw
    have hzero : mid.jobs.countP (Job.awaits x.1) = 0 := Nat.le_zero.mp (hz ▸ hcount x.1)
    intro job hm
    simpa using List.countP_eq_zero.mp hzero job hm
  · simp [hs.log_of_leader hlead rfl, proposes, mid]
  · rw [hs.trace]
    rfl
  · rw [hs.jobs]
    rfl

theorem Scheduled.runSchedulingCycle {node : NodeId} {now : Time}
    {pickNode : TaskRecord → Option NodeId} (h : Scheduled leader w)
    (hlead : w.leader = some leader) (hg : w.SchedulesOnce (.runSchedulingCycle node now pickNode))
    (hs : w.Stepped (.runSchedulingCycle node now pickNode) w') : Scheduled leader w' := by
  by_cases hn : w.leads node = true
  · obtain rfl := eq_of_leads hlead hn
    refine h.goOn pickNode ((w.db node).getQueuedTasks now) hn (hg hn)
      (hs.replicas_eq (by simp)) ?_ ?_ ?_
    · simp [hs.log_of_leader hlead rfl, hn, proposes]
    · simp [hs.trace, events]
    · simp [hs.jobs, jobsAfter, hn]
  · refine h.aside hs (by simp) (by simp) ?_ ?_
    · simp [events, World.reached, hn]
    · simp [hs.jobs, jobsAfter, hn]

theorem Scheduled.step (h : Scheduled leader w) (hc : w.Consistent)
    (hlead : w.leader = some leader) (hg : w.SchedulesOnce a) (hs : w.Stepped a w') :
    Scheduled leader w' := by
  cases a with
  | stepDown | elect => exact hg.elim
  | runSchedulingCycle => exact h.runSchedulingCycle hlead hg hs
  | cycleResume => exact h.cycleResume hlead hg hs
  | dispatchStart node taskId target =>
    refine h.replace hs (by simp) (by simp) rfl hs.enabled hs.jobs ?_ ?_
    · simp [Job.scheduler?]
    · intro id
      rw [List.countP_singleton]
      exact le_rfl
  | dispatchExecute node taskId target =>
    obtain rfl : node = leader := h.owner _ hs.enabled node rfl
    exact h.execute hs.enabled hg (hs.replicas_eq (by simp))
      (by simp [hs.log, logAfter, proposes]) hs.trace hs.jobs
  | dispatchComplete node taskId target result =>
    refine h.replace hs (by simp) (by simp) rfl hs.enabled hs.jobs ?_ ?_
    · simp [Job.scheduler?]
    · simp [Job.awaits]
  | dispatchEnd | dispatchError =>
    have hj : w'.jobs = w.jobs.erase _ ++ [] := hs.jobs.trans (List.append_nil _).symm
    exact h.replace hs (by simp) (by simp) rfl hs.enabled hj (by simp) (by simp)
  | drainResume node rest now =>
    refine h.replace hs (by simp) (by simp) rfl hs.enabled hs.jobs ?_ ?_
    · intro j hj n hn
      cases rest <;> simp_all [drainJobs, Job.scheduler?]
    · intro id
      cases rest <;> simp [drainJobs, Job.awaits]
  | drainNodeTasks node target now =>
    refine h.mono (hs.replicas_eq (by simp)) (hs.log_prefix (by simp)) ?_ ?_ ?_
    · simp [hs.trace, events]
    · intro j hj
      rw [hs.jobs, jobsAfter, List.mem_append] at hj
      obtain hj | hj := hj
      · exact h.owner j hj
      · cases ht : (w.db node).getTasksOnNode target <;> simp_all [drainJobs, Job.scheduler?]
    · intro id
      rw [hs.jobs, jobsAfter, List.countP_append]
      cases (w.db node).getTasksOnNode target <;> simp [drainJobs, Job.awaits]
  | apply node host =>
    by_cases hn : node = leader
    · obtain rfl := hn
      exact h.applied hc hlead hs
    · refine h.aside hs ?_ (by simp) ?_ hs.jobs
      · rintro host' ⟨⟩
        exact hn rfl
      · simp only [events, not_leads hlead hn]
        split <;> simp
  | submitTask | submitWorkflow | cancelTask | retryDeadLetterTask | nodeOffline |
    appendElsewhere | commit =>
    exact h.aside hs (by simp) (by simp) rfl hs.jobs

theorem Starts.scheduled (h : w.Starts) (leader : NodeId) : Scheduled leader w := by
  have hnone (id : TaskId) : ¬ ExecutedSince id w.trace := by
    rintro ⟨before, after, he, -⟩
    simp [h.trace] at he
  refine ⟨by simp [h.jobs], by simp [h.jobs], fun id _ => hnone id, fun id hx => absurd hx (hnone id),
    ?_, by simp [h.trace]⟩
  intro id before between after he
  simp [h.trace] at he

/-- Under one leader every task is executed at most once for each time it is
put into the queue, and no cycle assigns a task that is not there. -/
theorem dispatch_at_most_once (h : cluster.Reach SchedulesOnce w) (hl : w.leader = some leader) :
    AtMostOnce w.trace ∧ ∀ id st, .reached id st ∈ w.trace → st = some .queued := by
  suffices hs : w.leader = some leader → Scheduled leader w from
    ⟨(hs hl).atMostOnce, (hs hl).reached⟩
  refine h.invariant (I := fun w => w.leader = some leader → Scheduled leader w)
    (fun _ (hi : Starts _) _ => hi.scheduled leader) ?_
  intro w a w' hr hI hg hs hl
  have hst := stepped hs
  have hsame : w'.leader = w.leader := by
    rw [hst.leader]
    cases a with
    | stepDown | elect => exact hg.elim
    | _ => rfl
  rw [hsame] at hl
  exact (hI hl).step (reach_consistent hr) hl hg hst

end

end World

-- ---------------------------------------------------------------------------
-- Two cycles
-- ---------------------------------------------------------------------------

def Action.KeepsLeader : Action → Bool
  | .stepDown | .elect .. => false
  | _ => true

def cycleStarts : Action := .runSchedulingCycle "n" 0 fun _ => some "n"

def dispatches : List Action :=
  [.cycleResume "n" "u" "n" true [] fun _ => none, .dispatchStart "n" "u" "n",
    .dispatchExecute "n" "u" "n"]

/-- A second cycle starts before the append of the first returns. The task is
assigned and executed twice. -/
theorem overlapping_cycles_execute_twice :
    ∃ w, cluster.Reach (fun _ a => a.KeepsLeader = true) w ∧ w.leader = some "n" ∧
      w.trace = [.requeued "u", .reached "u" (some .queued), .reached "u" (some .queued),
        .executed "u", .executed "u"] ∧ ¬ AtMostOnce w.trace := by
  obtain ⟨w, hr, hl, ht⟩ := @System.Reach.replay _ _ cluster (fun _ a => a.KeepsLeader = true) _ _
    (fun w => w.leader = some "n" ∧
      w.trace = [.requeued "u", .reached "u" (some .queued), .reached "u" (some .queued),
        .executed "u", .executed "u"]) _ (World.starts_start ["n"] (some "n"))
    ([.submitTask "n" "u" {}, .commit 1, .apply "n" (hostOf "n"), cycleStarts, cycleStarts] ++
      dispatches ++ dispatches) (by decide +kernel)
  refine ⟨w, hr, hl, ht, ?_⟩
  intro ho
  have := ho "u" [.requeued "u", .reached "u" (some .queued), .reached "u" (some .queued)] [] [] ht
  cases this

theorem cycles_in_turn :
    ∃ w, cluster.Reach World.SchedulesOnce w ∧ w.leader = some "n" ∧
      w.trace.count (.executed "u") = 2 ∧ AtMostOnce w.trace := by
  obtain ⟨w, hr, hl, ht⟩ := @System.Reach.replay _ _ cluster World.SchedulesOnce _ _
    (fun w => w.leader = some "n" ∧ w.trace.count (.executed "u") = 2) _
    (World.starts_start ["n"] (some "n"))
    ([.submitTask "n" "u" {}, .commit 1, .apply "n" (hostOf "n"), cycleStarts] ++ dispatches ++
      [.commit 3, .apply "n" (hostOf "n"), .apply "n" (hostOf "n"), .drainNodeTasks "n" "n" 0, .commit 4,
        .apply "n" (hostOf "n"), cycleStarts] ++ dispatches) (by decide +kernel)
  exact ⟨w, hr, hl, ht, (World.dispatch_at_most_once hr hl).1⟩

end ClaudeCluster.Tasks
