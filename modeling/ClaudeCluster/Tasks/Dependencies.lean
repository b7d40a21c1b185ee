import ClaudeCluster.Tasks.WorkflowRows

/-!
# Dependency order

A task with dependencies is inserted pending and leaves that state for the
queue only by an advance of its workflow, at which every dependency has ended.
One advance makes two passes, so a dependency may end in the first (skipped)
and a task with a condition be readied in the second; a task without one is
readied only when its dependencies had completed before.
-/

namespace ClaudeCluster.Tasks

open Lib (Table)

-- ---------------------------------------------------------------------------
-- Runs
-- ---------------------------------------------------------------------------

def stateAt (hosts : Nat → Host) (log : List Committed) (n : Nat) : Db :=
  applyLog hosts {} (log.take n)

def Entry.schedules? : Entry → Option TaskId
  | .taskAssign p => some p.taskId
  | .taskStarted p => some p.taskId
  | .taskFailed p => some p.taskId
  | .taskRetry p => some p.taskId
  | _ => none

/-- What submit_task, the scheduling cycle, dispatch, drain, nodeOffline and
the dead-letter retry guarantee of a log. -/
structure Disciplined (hosts : Nat → Host) (log : List Committed) : Prop where
  standalone : ∀ (n : Nat) (p : TaskSubmitPayload), log[n]? = some (.parsed (.taskSubmit p)) →
    p.workflowId = none
  queuedBefore : ∀ (n : Nat) (e : Entry) (id : TaskId), log[n]? = some (.parsed e) → e.schedules? = some id →
    ∃ m ≤ n, ∃ t, (stateAt hosts log m).getTask id = some t ∧ t.state = .queued

section

variable {hosts : Nat → Host} {log : List Committed}

theorem stateAt_succ (n : Nat) :
    stateAt hosts log (n + 1) =
      match log[n]? with
      | some c => (handleEntryCommitted (hosts n) false (stateAt hosts log n) c).1
      | none => stateAt hosts log n := by
  unfold stateAt
  cases hc : log[n]? with
  | none =>
    rw [List.getElem?_eq_none_iff] at hc
    rw [List.take_of_length_le hc, List.take_of_length_le (by omega)]
  | some c =>
    obtain ⟨hn, -⟩ := List.getElem?_eq_some_iff.mp hc
    rw [List.take_add_one, hc, Option.toList_some, applyLog_append]
    simp [applyLog, List.length_take, Nat.min_eq_left (Nat.le_of_lt hn)]

theorem stateAt_cases (hosts : Nat → Host) (log : List Committed) (n : Nat) :
    stateAt hosts log (n + 1) = stateAt hosts log n ∨
      ∃ e, log[n]? = some (.parsed e) ∧
        stateAt hosts log (n + 1) = (applyEntry (hosts n) (stateAt hosts log n) e).db := by
  rw [stateAt_succ]
  cases hc : log[n]? with
  | none => exact .inl rfl
  | some c =>
    cases c with
    | foreign | unparsable => exact .inl rfl
    | parsed e => exact .inr ⟨e, rfl, by simp⟩

theorem getTask_later {id : TaskId} {t : TaskRecord} {m n : Nat} (hmn : m ≤ n)
    (h : (stateAt hosts log m).getTask id = some t) :
    ∃ t', (stateAt hosts log n).getTask id = some t' ∧ t'.fixed = t.fixed := by
  induction n, hmn using Nat.le_induction with
  | base => exact ⟨t, h, rfl⟩
  | succ n _ ih =>
    obtain ⟨t', ht', hf⟩ := ih
    obtain hs | ⟨e, -, hs⟩ := stateAt_cases hosts log n
    · exact ⟨t', hs ▸ ht', hf⟩
    · refine ⟨_, hs ▸ getTask_applyEntry ht', ?_⟩
      rw [Db.rowAfter_fixed, hf]

end

-- ---------------------------------------------------------------------------
-- Rows belong to submitted workflows
-- ---------------------------------------------------------------------------

structure Owned (db : Db) : Prop where
  tasks : ∀ t ∈ db.tasks.rows, ∀ w, t.workflowId = some w → w ∈ db.workflows.rows.map (·.id)
  deps : ∀ r ∈ db.dependencies.rows, r.workflowId ∈ db.workflows.rows.map (·.id)

theorem Owned.applyEntry {host : Host} {db : Db} {e : Entry} (h : Owned db)
    (he : ∀ p, e = .taskSubmit p → p.workflowId = none) : Owned (applyEntry host db e).db where
  tasks t ht w hw := by
    rw [mem_workflow_ids]
    have hg := Db.getTask_of_mem ht
    cases hold : db.getTask t.id with
    | some s =>
      have hrow := @getTask_applyEntry host db e _ _ hold
      rw [hg, Option.some.injEq] at hrow
      have hf : t.workflowId = s.workflowId := congrArg (·.workflowId) (hrow ▸ db.rowAfter_fixed s)
      exact .inl (h.tasks s (Db.getTask_mem hold) w (hf ▸ hw))
    | none =>
      obtain ⟨p, rfl, -, rfl⟩ | ⟨p, key, d, rfl, -, hrow⟩ := getTask_new hold hg
      · rw [TaskSubmitPayload.row, he p rfl] at hw
        cases hw
      · rw [hrow] at hw
        exact .inr hw
  deps r hr := by
    rw [mem_workflow_ids]
    cases hid : e.taskId? with
    | some id =>
      rw [(applyEntry_task hid).2.2] at hr
      exact .inl (h.deps r hr)
    | none =>
      cases e with
      | taskSubmit p =>
        obtain ⟨hdb, -⟩ | ⟨_, -, -, -, hd⟩ := applyEntry_taskSubmit host db p
        · exact .inl (h.deps r (hdb ▸ hr))
        · exact .inl (h.deps r (hd ▸ hr))
      | workflowSubmit p =>
        obtain ⟨hdb, -, -⟩ | ⟨_, _, _, -, hins, hdb⟩ := applyEntry_workflowSubmit host db p
        · exact .inl (h.deps r (hdb ▸ hr))
        · obtain ⟨_, deps, -, hd, -, hdeps⟩ := workflowSubmit_rows hins
          rw [hdb, hd, List.mem_append] at hr
          exact hr.imp (h.deps r) fun hr => by rw [hdeps r hr]; rfl
      | workflowAdvance p =>
        have hd := advance_of_pass host db p (P := fun d => d.dependencies = db.dependencies)
          (fun _ _ hd hp => hp.dependencies.trans hd) rfl
        rw [hd] at hr
        exact .inl (h.deps r hr)
      | _ => cases hid

-- ---------------------------------------------------------------------------
-- Readying a task
-- ---------------------------------------------------------------------------

/-- What holds of the dependencies of a task when an advance readies it: each
had ended, or is skipped by its first pass; if the task has no condition, all
had completed. -/
structure DependenciesEnded (host : Host) (before : Db) (w : WorkflowId)
    (def_ : WorkflowTaskDef) : Prop where
  ended : ∀ dep ∈ def_.deps,
    (∃ st, before.stateOf w dep = some st ∧ st.isTerminal = true) ∨
      before.stateOf w dep = some .pending ∧
        (firstPass host before w).stateOf w dep = some .skipped
  completed : truthy def_.condition = none →
    ∀ dep ∈ def_.deps, before.stateOf w dep = some .completed

section

variable {host : Host} {db : Db} {w : WorkflowId} {d : WorkflowDefinition} {key : TaskKey}
  {def_ : WorkflowTaskDef} {t : TaskRecord}

theorem WorkflowView.verdict_eq_some {v : WorkflowView} {b : Bool} (hk : t.taskKey = some key)
    (h : v.verdict host t = some b) :
    key ≠ "" ∧ v.allDepsTerminal key = true ∧ v.shouldRun host key = b := by
  obtain ⟨k, hke, hv⟩ := Option.bind_eq_some_iff.mp h
  obtain ⟨hkk, hne⟩ : t.taskKey = some k ∧ k ≠ "" := by
    unfold evaluatedKey at hke
    split at hke
    · exact truthy_eq_some.mp hke
    · cases hke
  obtain rfl : key = k := Option.some.inj (hk.symm.trans hkk)
  split at hv
  · rename_i ha
    exact ⟨hne, ha, Option.some.inj hv⟩
  · cases hv

theorem Represents.ready_deps (h : Represents db w d) (hk : (key, def_) ∈ d.tasks)
    (htk : t.taskKey = some key) (hv : (db.workflowView w).verdict host t = some true) :
    (∀ dep ∈ def_.deps, ∃ st, db.stateOf w dep = some st ∧ st.isTerminal = true) ∧
      (truthy def_.condition = none → ∀ dep ∈ def_.deps, db.stateOf w dep = some .completed) := by
  obtain ⟨-, ha, hr⟩ := WorkflowView.verdict_eq_some htk hv
  constructor
  · rw [h.allDepsTerminal hk, List.all_eq_true] at ha
    intro dep hdep
    exact (Option.any_eq_true _ _).mp (ha dep hdep)
  · intro hc
    rw [h.shouldRun hk hc, List.all_eq_true] at hr
    intro dep hdep
    simpa using hr dep hdep

theorem Db.advanceRow_queued (hp : t.state = .pending)
    (hq : (db.advanceRow host w t).state = .queued) :
    (db.workflowView w).verdict host t = some true := by
  unfold advanceRow WorkflowView.move at hq
  split at hq
  · split at hq
    · assumption
    · cases hq
    · rw [hp] at hq
      cases hq
  · rw [hp] at hq
    cases hq

theorem TaskEngineState.moved_terminal {st : TaskEngineState} {v : Option Bool}
    (h : (st.moved v).isTerminal = true) :
    st.isTerminal = true ∧ st.moved v = st ∨ st = .pending ∧ st.moved v = .skipped := by
  unfold moved at h ⊢
  split
  case isTrue hp =>
    rw [if_pos hp] at h
    match v with
    | some true | none => cases h
    | some false => exact .inr ⟨hp, rfl⟩
  case isFalse hp =>
    rw [if_neg hp] at h
    exact .inl ⟨h, rfl⟩

theorem Represents.advance_readies (h : Represents db w d) (hk : (key, def_) ∈ d.tasks)
    (htk : t.taskKey = some key) (hp : t.state = .pending)
    (hq : (db.advancedRow host w t).state = .queued) :
    DependenciesEnded host db w def_ := by
  by_cases hfirst : (db.advanceRow host w t).state = .queued
  · obtain ⟨he, hc⟩ := h.ready_deps hk htk (Db.advanceRow_queued hp hfirst)
    exact ⟨fun dep hdep => .inl (he dep hdep), hc⟩
  · -- readied by the second pass, in the state the first one left
    unfold Db.advancedRow at hq
    split at hq
    case isFalse => exact absurd hq hfirst
    case isTrue =>
      let mid := firstPass host db w
      have hm : Represents mid w d := h.pass firstPass_passed
      have hpend : (db.advanceRow host w t).state = .pending := by
        by_contra hne
        exact hfirst ((congrArg (·.state) (Db.advanceRow_of_not_pending hne)).symm.trans hq)
      obtain ⟨he, hc⟩ := hm.ready_deps hk (by simpa using htk) (Db.advanceRow_queued hpend hq)
      constructor
      · intro dep hdep
        obtain ⟨st, hst, hterm⟩ := he dep hdep
        rw [h.stateOf_pass firstPass_passed] at hst
        obtain ⟨st₀, hst₀, rfl⟩ := Option.map_eq_some_iff.mp hst
        obtain ⟨ht₀, -⟩ | ⟨rfl, hskip⟩ := TaskEngineState.moved_terminal hterm
        · exact .inl ⟨st₀, hst₀, ht₀⟩
        · refine .inr ⟨hst₀, ?_⟩
          rw [h.stateOf_pass firstPass_passed, hst₀, Option.map_some, hskip]
      · intro hcond dep hdep
        have hst := hc hcond dep hdep
        rw [h.stateOf_pass firstPass_passed] at hst
        obtain ⟨st₀, hst₀, hmoved⟩ := Option.map_eq_some_iff.mp hst
        obtain ⟨-, hsame⟩ | ⟨-, hskip⟩ := TaskEngineState.moved_terminal (by rw [hmoved]; rfl)
        · rw [hst₀, ← hsame, hmoved]
        · rw [hskip] at hmoved
          cases hmoved

end

-- ---------------------------------------------------------------------------
-- Whole runs
-- ---------------------------------------------------------------------------

def ReadiedBy (hosts : Nat → Host) (log : List Committed) (n : Nat) (w : WorkflowId)
    (def_ : WorkflowTaskDef) : Prop :=
  (∃ q, log[n]? = some (.parsed (.workflowAdvance q)) ∧ q.workflowId = w) ∧
    DependenciesEnded (hosts n) (stateAt hosts log n) w def_

structure SubmittedAt (hosts : Nat → Host) (log : List Committed) (i : Nat)
    (p : WorkflowSubmitPayload) : Prop where
  entry : log[i]? = some (.parsed (.workflowSubmit p))
  ok : ∃ a, (applyEntry (hosts i) (stateAt hosts log i) (.workflowSubmit p)).outcome = .ok a

section

variable {hosts : Nat → Host} {log : List Committed} {i : Nat} {p : WorkflowSubmitPayload}
  {key : TaskKey} {def_ : WorkflowTaskDef}

theorem Disciplined.owned (hd : Disciplined hosts log) (n : Nat) : Owned (stateAt hosts log n) := by
  induction n with
  | zero => exact ⟨by simp [stateAt, applyLog], by simp [stateAt, applyLog]⟩
  | succ n ih =>
    obtain hs | ⟨e, he, hs⟩ := stateAt_cases hosts log n
    · exact hs ▸ ih
    · rw [hs]
      apply ih.applyEntry
      rintro p rfl
      exact hd.standalone n p he

theorem SubmittedAt.unknown (hs : SubmittedAt hosts log i p) :
    p.workflowId ∉ (stateAt hosts log i).workflows.rows.map (·.id) := by
  obtain ⟨-, herr, -⟩ | ⟨_, _, _, hi, -, -⟩ :=
    applyEntry_workflowSubmit (hosts i) (stateAt hosts log i) p
  · obtain ⟨a, ha⟩ := hs.ok
    rw [herr] at ha
    cases ha
  · exact Table.not_mem_of_insert hi

theorem SubmittedAt.stateAt_succ (hs : SubmittedAt hosts log i p) :
    stateAt hosts log (i + 1) =
      (applyEntry (hosts i) (stateAt hosts log i) (.workflowSubmit p)).db := by
  rw [Tasks.stateAt_succ, hs.entry]
  simp

theorem SubmittedAt.untouched (hs : SubmittedAt hosts log i p) (hd : Disciplined hosts log) :
    Untouched (stateAt hosts log i) p.workflowId where
  tasks := by
    rw [List.eq_nil_iff_forall_not_mem]
    intro t ht
    rw [Db.mem_workflowView] at ht
    exact hs.unknown ((hd.owned i).tasks t ht.1 _ ht.2)
  deps := by
    rw [List.eq_nil_iff_forall_not_mem]
    intro r hr
    simp only [Db.workflowView, List.mem_filter, decide_eq_true_eq] at hr
    exact hs.unknown (hr.2 ▸ (hd.owned i).deps r hr.1)

theorem SubmittedAt.represents (hs : SubmittedAt hosts log i p) (hd : Disciplined hosts log)
    {n : Nat} (hn : i < n) : Represents (stateAt hosts log n) p.workflowId p.definition := by
  induction n, hn using Nat.le_induction with
  | base =>
    rw [hs.stateAt_succ]
    exact (represents_of_submit (hs.untouched hd) hs.ok).1
  | succ n _ ih =>
    obtain hst | ⟨e, he, hst⟩ := stateAt_cases hosts log n
    · exact hst ▸ ih
    · rw [hst]
      apply ih.applyEntry
      rintro q rfl
      simp [hd.standalone n q he]

def TaskEngineState.unscheduled : TaskEngineState → Bool
  | .pending | .completed | .cancelled | .skipped | .deadLetter => true
  | .queued | .assigned | .running | .failed => false

def IsTask (hosts : Nat → Host) (log : List Committed) (n : Nat) (w : WorkflowId) (key : TaskKey)
    (t : TaskRecord) : Prop :=
  (stateAt hosts log n).getTask t.id = some t ∧ t.workflowId = some w ∧ t.taskKey = some key

theorem SubmittedAt.previous (hs : SubmittedAt hosts log i p) (hd : Disciplined hosts log) {n : Nat}
    (hn : i < n) {e : Entry} (he : log[n]? = some (.parsed e)) {t' : TaskRecord}
    (ht' : IsTask hosts log (n + 1) p.workflowId key t') :
    ∃ t, IsTask hosts log n p.workflowId key t ∧ t.id = t'.id ∧
      t' = (stateAt hosts log n).rowAfter (hosts n) e t := by
  obtain ⟨hg, hw, hk⟩ := ht'
  have hst : stateAt hosts log (n + 1) = (applyEntry (hosts n) (stateAt hosts log n) e).db := by
    rw [Tasks.stateAt_succ, he]
    simp
  rw [hst] at hg
  cases hold : (stateAt hosts log n).getTask t'.id with
  | some t =>
    rw [getTask_applyEntry hold, Option.some.injEq] at hg
    have hf : t'.fixed = t.fixed := hg ▸ Db.rowAfter_fixed t
    have hid : t.id = t'.id := Db.getTask_id hold
    refine ⟨t, ⟨hid ▸ hold, ?_, ?_⟩, hid, hg.symm⟩
    · exact (congrArg (·.workflowId) hf).symm.trans hw
    · exact (congrArg (·.taskKey) hf).symm.trans hk
  | none =>
    obtain ⟨q, rfl, -, hrow⟩ | ⟨q, k, d, rfl, -, hrow⟩ := getTask_new hold hg
    · rw [hrow] at hw
      have : q.workflowId = some p.workflowId := hw
      rw [hd.standalone n q he] at this
      cases this
    · -- a second submission under the id of the workflow is refused
      rw [hrow] at hw
      obtain hq : q.workflowId = p.workflowId := Option.some.inj hw
      obtain ⟨hdb, -, -⟩ | ⟨_, _, _, hi, -, -⟩ :=
        applyEntry_workflowSubmit (hosts n) (stateAt hosts log n) q
      · rw [hdb, hold] at hg
        cases hg
      · have hknown := (hs.represents hd hn).known
        rw [← hq] at hknown
        exact absurd hknown (Table.not_mem_of_insert hi)

theorem SubmittedAt.earlier (hs : SubmittedAt hosts log i p) (hd : Disciplined hosts log)
    {m n : Nat} (hmn : m ≤ n) {s t : TaskRecord} (ht : IsTask hosts log n p.workflowId key t)
    (hsm : (stateAt hosts log m).getTask t.id = some s) :
    i < m ∧ IsTask hosts log m p.workflowId key s := by
  have hid : s.id = t.id := Db.getTask_id hsm
  obtain ⟨t₁, ht₁, hf⟩ := getTask_later hmn hsm
  rw [ht.1, Option.some.injEq] at ht₁
  subst ht₁
  have hw : s.workflowId = some p.workflowId := (congrArg (·.workflowId) hf).symm.trans ht.2.1
  have hk : s.taskKey = some key := (congrArg (·.taskKey) hf).symm.trans ht.2.2
  refine ⟨?_, hid ▸ hsm, hw, hk⟩
  -- at the submission no row carried the workflow
  by_contra hle
  obtain ⟨u, hu, huf⟩ := getTask_later (Nat.not_lt.mp hle) hsm
  have huw : u.workflowId = some p.workflowId := (congrArg (·.workflowId) huf).trans hw
  exact hs.unknown ((hd.owned i).tasks u (Db.getTask_mem hu) _ huw)

theorem SubmittedAt.queued_since (hs : SubmittedAt hosts log i p) (hd : Disciplined hosts log)
    {n : Nat} {e : Entry} (he : log[n]? = some (.parsed e)) {t : TaskRecord}
    (ht : IsTask hosts log n p.workflowId key t) (hsch : e.schedules? = some t.id) :
    ∃ m, i < m ∧ m ≤ n ∧ ∃ s, IsTask hosts log m p.workflowId key s ∧ s.state = .queued := by
  obtain ⟨m, hmn, s, hsm, hq⟩ := hd.queuedBefore n e t.id he hsch
  obtain ⟨him, hrow⟩ := hs.earlier hd hmn ht hsm
  exact ⟨m, him, hmn, s, hrow, hq⟩

theorem SubmittedAt.readied (hs : SubmittedAt hosts log i p) (hd : Disciplined hosts log)
    (hk : (key, def_) ∈ p.definition.tasks) {n : Nat} (hn : i < n) {t : TaskRecord}
    (ht : IsTask hosts log n p.workflowId key t) (hp : t.state = .pending) {q : WorkflowAdvancePayload}
    (he : log[n]? = some (.parsed (.workflowAdvance q)))
    (hq : ((stateAt hosts log n).rowAfter (hosts n) (.workflowAdvance q) t).state = .queued) :
    ReadiedBy hosts log n p.workflowId def_ := by
  have hw : q.workflowId = p.workflowId := by
    by_contra hne
    have hne' : some p.workflowId ≠ some q.workflowId := fun h => hne (Option.some.inj h).symm
    have hsame : ((stateAt hosts log n).rowAfter (hosts n) (.workflowAdvance q) t) = t := by
      simp only [Db.rowAfter, Db.advancedRow, Db.advanceRow, ht.2.1, hne', if_false, ite_self]
    rw [hsame, hp] at hq
    cases hq
  rw [Db.rowAfter, hw] at hq
  exact ⟨⟨q, he, hw⟩, (hs.represents hd hn).advance_readies hk ht.2.2 hp hq⟩

theorem SubmittedAt.pending (hs : SubmittedAt hosts log i p) (hd : Disciplined hosts log)
    (hk : (key, def_) ∈ p.definition.tasks) (hne : def_.deps ≠ []) {t : TaskRecord}
    (ht : IsTask hosts log (i + 1) p.workflowId key t) : t.state = .pending := by
  obtain ⟨hg, hw, htk⟩ := ht
  have hm : t ∈ ((stateAt hosts log (i + 1)).workflowView p.workflowId).tasks :=
    Db.mem_workflowView.mpr ⟨Db.getTask_mem hg, hw⟩
  rw [hs.stateAt_succ, (represents_of_submit (hs.untouched hd) hs.ok).2] at hm
  obtain ⟨⟨id, k, d⟩, hin, rfl⟩ := List.mem_map.mp hm
  obtain rfl : k = key := Option.some.inj htk
  have hin' : (k, d) ∈ p.definition.tasks := by
    rw [← p.definition.withIds_tasks (hosts i)]
    exact List.mem_map.mpr ⟨_, hin, rfl⟩
  obtain rfl : d = def_ :=
    congrArg Prod.snd (List.inj_on_of_nodup_map p.definition.keys_nodup hin' hk rfl)
  simp [WorkflowTaskDef.row, hne]

theorem SubmittedAt.unscheduled_or_readied (hs : SubmittedAt hosts log i p)
    (hd : Disciplined hosts log) (hk : (key, def_) ∈ p.definition.tasks) (hne : def_.deps ≠ [])
    (n : Nat) (hn : i < n) (t : TaskRecord) (ht : IsTask hosts log n p.workflowId key t) :
    t.state.unscheduled = true ∨ ∃ m, i < m ∧ m < n ∧ ReadiedBy hosts log m p.workflowId def_ := by
  induction n using Nat.strong_induction_on generalizing t with
  | _ n ih =>
    obtain ⟨n, rfl⟩ : ∃ k, n = k + 1 := ⟨n - 1, by omega⟩
    obtain rfl | hin := Nat.eq_or_lt_of_le (Nat.lt_succ_iff.mp hn)
    · left
      rw [hs.pending hd hk hne ht]
      rfl
    obtain hst | ⟨e, he, hst⟩ := stateAt_cases hosts log n
    · obtain h | ⟨m, him, hmn, hr⟩ := ih n (by omega) hin t ⟨hst ▸ ht.1, ht.2⟩
      · exact .inl h
      · exact .inr ⟨m, him, by omega, hr⟩
    obtain ⟨t₀, ht₀, hid, hrow⟩ := hs.previous hd hin he ht
    obtain hun | ⟨m, him, hmn, hr⟩ := ih n (by omega) hin t₀ ht₀
    case inr => exact .inr ⟨m, him, by omega, hr⟩
    -- an entry that names a task the cycle has seen
    have scheduled (hsch : e.schedules? = some t₀.id) :
        ∃ m, i < m ∧ m < n + 1 ∧ ReadiedBy hosts log m p.workflowId def_ := by
      obtain ⟨m, him, hmn, s, hsm, hq⟩ := hs.queued_since hd he ht₀ hsch
      obtain h | ⟨m', him', hm', hr⟩ := ih m (by omega) him s hsm
      · rw [hq] at h
        cases h
      · exact ⟨m', him', by omega, hr⟩
    by_cases hnamed : e.taskId? = some t₀.id
    · cases e with
      | taskAssign | taskStarted | taskFailed | taskRetry => exact .inr (scheduled hnamed)
      | taskComplete | taskCancel | taskDeadLetter =>
        left
        rw [hrow]
        simp only [Db.rowAfter, hnamed, if_true, Entry.set]
        rfl
      | taskSubmit | workflowSubmit | workflowAdvance => cases hnamed
    · cases e with
      | workflowAdvance q =>
        by_cases hp : t₀.state = .pending
        · rw [hrow]
          obtain h | h | h :=
            @Db.advancedRow_state (hosts n) (stateAt hosts log n) q.workflowId t₀ hp
          · exact .inl (by rw [Db.rowAfter, h]; rfl)
          · exact .inr ⟨n, hin, by omega, hs.readied hd hk hin ht₀ hp he h⟩
          · exact .inl (by rw [Db.rowAfter, h]; rfl)
        · left
          rw [hrow, Db.rowAfter, Db.advancedRow_of_not_pending hp]
          exact hun
      | _ =>
        left
        rw [hrow]
        simp only [Db.rowAfter, hnamed, if_false]
        exact hun

theorem Db.rowAfter_pending {host : Host} {db : Db} {e : Entry} {t : TaskRecord}
    (h : (db.rowAfter host e t).state = .pending) : t.state = .pending := by
  by_contra hp
  cases e with
  | workflowAdvance q =>
    rw [rowAfter, advancedRow_of_not_pending hp] at h
    exact hp h
  | taskSubmit | workflowSubmit => exact hp h
  | taskFailed =>
    simp only [rowAfter] at h
    split at h <;> exact hp h
  | _ =>
    simp only [rowAfter] at h
    split at h
    · cases h
    · exact hp h

theorem SubmittedAt.pending_before (hs : SubmittedAt hosts log i p) (hd : Disciplined hosts log)
    {m n : Nat} (him : i < m) (hmn : m ≤ n) {s t : TaskRecord}
    (hsm : IsTask hosts log m p.workflowId key s) (ht : IsTask hosts log n p.workflowId key t)
    (hp : t.state = .pending) : s.state = .pending := by
  induction n, hmn using Nat.le_induction generalizing t with
  | base =>
    have hr := hs.represents hd him
    obtain rfl := hr.row_unique (Db.mem_workflowView.mpr ⟨Db.getTask_mem hsm.1, hsm.2.1⟩)
      (Db.mem_workflowView.mpr ⟨Db.getTask_mem ht.1, ht.2.1⟩) (hsm.2.2.trans ht.2.2.symm)
    exact hp
  | succ n hmn ih =>
    obtain hst | ⟨e, he, -⟩ := stateAt_cases hosts log n
    · exact ih ⟨hst ▸ ht.1, ht.2⟩ hp
    · obtain ⟨t₀, ht₀, -, hrow⟩ := hs.previous hd (by omega) he ht
      exact ih ht₀ (Db.rowAfter_pending (hrow ▸ hp))

/-- A dependent task leaves `pending` for the queue only by an advance at which
its dependencies have ended, so it is scheduled only after one. -/
theorem dependency_order (hd : Disciplined hosts log) (hs : SubmittedAt hosts log i p)
    (hk : (key, def_) ∈ p.definition.tasks) (hne : def_.deps ≠ []) (n : Nat) (hn : i < n)
    (t : TaskRecord) (ht : IsTask hosts log n p.workflowId key t) :
    (t.state = .pending → ∀ t', IsTask hosts log (n + 1) p.workflowId key t' →
        t'.state = .queued → ReadiedBy hosts log n p.workflowId def_) ∧
      (t.state = .queued ∨ t.state = .assigned ∨ t.state = .running →
        ∃ m, i < m ∧ m < n ∧ ReadiedBy hosts log m p.workflowId def_) := by
  constructor
  · intro hp t' ht' hq
    obtain hst | ⟨e, he, -⟩ := stateAt_cases hosts log n
    · have hpend := hs.pending_before hd hn le_rfl ⟨hst ▸ ht'.1, ht'.2⟩ ht hp
      rw [hq] at hpend
      cases hpend
    obtain ⟨t₀, ht₀, -, hrow⟩ := hs.previous hd hn he ht'
    have hp₀ := hs.pending_before hd hn le_rfl ht₀ ht hp
    cases e with
    | workflowAdvance q => exact hs.readied hd hk hn ht₀ hp₀ he (hrow ▸ hq)
    | taskRetry r =>
      -- a retry names a task that had been queued, and this one never was
      by_cases hnamed : r.taskId = t₀.id
      · obtain ⟨m, him, hmn, s, hsm, hsq⟩ :=
          hs.queued_since hd he ht₀ (congrArg some hnamed)
        rw [hs.pending_before hd him hmn hsm ht₀ hp₀] at hsq
        cases hsq
      · have hrow' : t' = t₀ := by simp [hrow, Db.rowAfter, Entry.taskId?, hnamed]
        rw [hrow', hp₀] at hq
        cases hq
    | taskSubmit | workflowSubmit =>
      rw [hrow] at hq
      exact absurd (hp₀.symm.trans hq) (by simp)
    | _ =>
      simp only [hrow, Db.rowAfter] at hq
      split at hq
      · first | cases hq | exact absurd (hp₀.symm.trans hq) (by simp)
      · exact absurd (hp₀.symm.trans hq) (by simp)
  · intro hsched
    refine (hs.unscheduled_or_readied hd hk hne n hn t ht).resolve_left ?_
    obtain h | h | h := hsched <;> simp [h, TaskEngineState.unscheduled]

end

-- ---------------------------------------------------------------------------
-- A chain of three
-- ---------------------------------------------------------------------------

/-- `b` waits for `a`; `c` waits for `b` and runs on a condition. -/
def chainOfThree : WorkflowDefinition where
  name := "chain of three"
  tasks := [("a", {}), ("b", { dependsOn := some ["a"] }),
    ("c", { dependsOn := some ["b"], condition := some "true" })]

def obliging (_ : Nat) : Host :=
  ⟨"n", 0, fun i => if i = 0 then "u" else if i = 1 then "v" else "x", fun _ _ _ => true,
    Lib.Binary64.nearestPower⟩

def endsFirst (ending : Entry) : List Committed :=
  [.parsed (.workflowSubmit ⟨"w", chainOfThree⟩), .parsed ending,
    .parsed (.workflowAdvance { workflowId := "w" })]

theorem endsFirst_disciplined {ending : Entry} (hn : ending.schedules? = none)
    (hs : ending.submits? = none) (hosts : Nat → Host) : Disciplined hosts (endsFirst ending) where
  standalone n q h := by
    have hm := List.mem_of_getElem? h
    simp only [endsFirst, List.mem_cons, Committed.parsed.injEq, reduceCtorEq, List.not_mem_nil,
      or_false, false_or] at hm
    rw [← hm] at hs
    cases hs
  queuedBefore n e id h hid := by
    have hm := List.mem_of_getElem? h
    simp only [endsFirst, List.mem_cons, Committed.parsed.injEq, List.not_mem_nil, or_false] at hm
    obtain rfl | rfl | rfl := hm
    · cases hid
    · rw [hn] at hid
      cases hid
    · cases hid

theorem exists_isTask {hosts : Nat → Host} {log : List Committed} {n : Nat} {w : WorkflowId}
    {key : TaskKey} {st : TaskEngineState}
    (h : ∃ t ∈ (stateAt hosts log n).tasks.rows,
      t.workflowId = some w ∧ t.taskKey = some key ∧ t.state = st) :
    ∃ t, IsTask hosts log n w key t ∧ t.state = st := by
  obtain ⟨t, ht, hw, hk, hst⟩ := h
  exact ⟨t, ⟨Db.getTask_of_mem ht, hw, hk⟩, hst⟩

/-- `a` is dead-lettered. The advance skips `b` in its first pass and readies
`c` in its second, so `b` was pending when it was applied. -/
theorem readied_with_pending_dependency :
    let log := endsFirst (.taskDeadLetter ⟨"u", "lost"⟩)
    Disciplined obliging log ∧ SubmittedAt obliging log 0 ⟨"w", chainOfThree⟩ ∧
      (∃ t t', IsTask obliging log 2 "w" "c" t ∧ t.state = .pending ∧
        IsTask obliging log 3 "w" "c" t' ∧ t'.state = .queued) ∧
      (stateAt obliging log 2).stateOf "w" "b" = some .pending := by
  intro log
  obtain ⟨t, ht, hp⟩ : ∃ t, IsTask obliging log 2 "w" "c" t ∧ t.state = .pending :=
    exists_isTask (by decide +kernel)
  obtain ⟨t', ht', hq⟩ : ∃ t', IsTask obliging log 3 "w" "c" t' ∧ t'.state = .queued :=
    exists_isTask (by decide +kernel)
  exact ⟨endsFirst_disciplined rfl rfl _, ⟨rfl, _, rfl⟩, ⟨t, t', ht, hp, ht', hq⟩,
    by decide +kernel⟩

theorem dependency_order_of_three :
    let log := endsFirst (.taskComplete ⟨"u", {}⟩)
    (∃ t, IsTask obliging log 3 "w" "b" t ∧ t.state = .queued) ∧
      ReadiedBy obliging log 2 "w" { dependsOn := some ["a"] } := by
  intro log
  obtain ⟨t, ht, hp⟩ : ∃ t, IsTask obliging log 2 "w" "b" t ∧ t.state = .pending :=
    exists_isTask (by decide +kernel)
  obtain ⟨t', ht', hq⟩ : ∃ t', IsTask obliging log 3 "w" "b" t' ∧ t'.state = .queued :=
    exists_isTask (by decide +kernel)
  have hs : SubmittedAt obliging log 0 ⟨"w", chainOfThree⟩ := ⟨rfl, _, rfl⟩
  have hb : ("b", ({ dependsOn := some ["a"] } : WorkflowTaskDef)) ∈ chainOfThree.tasks := by decide
  have horder := dependency_order (endsFirst_disciplined rfl rfl _) hs hb (by decide) 2 (by decide) t ht
  exact ⟨⟨t', ht', hq⟩, horder.1 hp t' ht' hq⟩

end ClaudeCluster.Tasks
