import Mathlib.Algebra.Order.BigOperators.Group.List
import Mathlib.Algebra.Order.Ring.Nat
import Mathlib.Order.WellFoundedSet
import ClaudeCluster.Lib.Run
import ClaudeCluster.Tasks.WorkflowRows

/-!
# Confluence of workflows

A workflow without conditions is run by giving every queued task its outcome
and by advancing it, in any order. Every step that changes a state brings the
run closer to its end, and where it ends depends on the definition and the
outcomes alone: a task takes its outcome if its dependencies all completed,
and is skipped otherwise.
-/

namespace ClaudeCluster.Tasks

open Lib (Table System)

-- ---------------------------------------------------------------------------
-- Definitions and runs
-- ---------------------------------------------------------------------------

namespace WorkflowDefinition

variable (d : WorkflowDefinition)

def DependsOn (key dep : TaskKey) : Prop := ∃ def_, (key, def_) ∈ d.tasks ∧ dep ∈ def_.deps

/-- Dependencies are listed once, name tasks of the definition and form no
cycle; nothing runs on a condition. -/
structure Orderly : Prop where
  once : ∀ key def_, (key, def_) ∈ d.tasks → def_.deps.Nodup
  named : ∀ key dep, d.DependsOn key dep → dep ≠ "" ∧ dep ∈ d.tasks.map Prod.fst
  acyclic : ∀ key, ¬ Relation.TransGen d.DependsOn key key
  unconditional : ∀ key def_, (key, def_) ∈ d.tasks → truthy def_.condition = none

end WorkflowDefinition

inductive Outcome
  | completed
  | deadLetter
  deriving DecidableEq, Repr

def Outcome.state : Outcome → TaskEngineState
  | .completed => .completed
  | .deadLetter => .deadLetter

def Outcome.entry (taskId : TaskId) (result : TaskResult) (reason : String) : Outcome → Entry
  | .completed => .taskComplete ⟨taskId, result⟩
  | .deadLetter => .taskDeadLetter ⟨taskId, reason⟩

inductive Move
  | finish (host : Host) (taskId : TaskId) (result : TaskResult) (reason : String)
  | advance (host : Host) (completedTaskKey : TaskKey)

section

variable (w : WorkflowId) (d : WorkflowDefinition) (outcome : TaskKey → Outcome) (db : Db)

def Db.take : Move → Option Db
  | .finish host id result reason => do
    let t ← db.getTask id
    let key ← t.taskKey
    if t.workflowId = some w ∧ t.state = .queued then
      some (applyEntry host db ((outcome key).entry id result reason)).db
    else none
  | .advance host key => some (applyEntry host db (.workflowAdvance ⟨w, key⟩)).db

/-- The workflow has just been submitted, under new ids, to a database that
had nothing of it. -/
def JustSubmitted : Prop :=
  ∃ host db₀, Untouched db₀ w ∧ w ∉ db₀.workflows.rows.map (·.id) ∧
    Function.Injective host.randomUUID ∧
    (∀ i, host.randomUUID i ∉ db₀.tasks.rows.map (·.id)) ∧
    db = (applyEntry host db₀ (.workflowSubmit ⟨w, d⟩)).db

def workflowRuns : System Db Move where
  init := JustSubmitted w d
  step := Db.take w outcome

def Reached : Prop := (workflowRuns w d outcome).Reach (fun _ _ => True) db

def SameStates (db' : Db) : Prop :=
  db'.taskStates = db.taskStates ∧ db'.workflowStates = db.workflowStates

def Quiet : Prop :=
  (∀ t ∈ (db.workflowView w).tasks, t.state ≠ .queued) ∧ ∃ host, db.Settled host w

structure EndsAs (final : TaskKey → TaskEngineState) : Prop where
  tasks : (db.workflowView w).tasks.map (fun t => (t.taskKey, t.state)) =
    d.tasks.map fun t => (some t.1, final t.1)
  terminal : ∀ t ∈ (db.workflowView w).tasks, t.state.isTerminal = true
  workflow : ∃ r, db.workflows.find? w = some r ∧
    r.state = if ∃ t ∈ (db.workflowView w).tasks, t.state = .deadLetter then .failed else .completed

end

/-- A task takes its outcome if its dependencies complete, else it is skipped. -/
def FollowsOutcome (d : WorkflowDefinition) (outcome : TaskKey → Outcome)
    (final : TaskKey → TaskEngineState) : Prop :=
  ∀ key def_, (key, def_) ∈ d.tasks →
    final key =
      if ∀ dep ∈ def_.deps, final dep = .completed then (outcome key).state else .skipped

structure Confluent (w : WorkflowId) (d : WorkflowDefinition) : Prop where
  terminates : ∀ outcome, WellFounded fun db' db =>
    Reached w d outcome db ∧ (∃ m, db.take w outcome m = some db') ∧ ¬ SameStates db db'
  ends : ∀ outcome, ∃ final, FollowsOutcome d outcome final ∧
    ∀ db, Reached w d outcome db → Quiet w db → EndsAs w d db final

-- ---------------------------------------------------------------------------
-- Why a task is in its state
-- ---------------------------------------------------------------------------

def Justified (db : Db) (w : WorkflowId) (outcome : Outcome) (def_ : WorkflowTaskDef) :
    TaskEngineState → Prop
  | .pending => def_.deps ≠ []
  | .queued => ∀ dep ∈ def_.deps, db.stateOf w dep = some .completed
  | .completed =>
    outcome = .completed ∧ ∀ dep ∈ def_.deps, db.stateOf w dep = some .completed
  | .deadLetter =>
    outcome = .deadLetter ∧ ∀ dep ∈ def_.deps, db.stateOf w dep = some .completed
  | .skipped =>
    (∀ dep ∈ def_.deps, (db.stateOf w dep).any TaskEngineState.isTerminal = true) ∧
      ∃ dep ∈ def_.deps, db.stateOf w dep ≠ some .completed
  | .assigned | .running | .failed | .cancelled => False

structure Sound (w : WorkflowId) (d : WorkflowDefinition) (outcome : TaskKey → Outcome) (db : Db) :
    Prop where
  rows : Represents db w d
  tasks : ∀ t ∈ (db.workflowView w).tasks, ∀ key def_, (key, def_) ∈ d.tasks →
    t.taskKey = some key → Justified db w (outcome key) def_ t.state
  /-- The row of the workflow is open, or closed for good. -/
  closed : ∀ r ∈ db.workflows.rows, r.id = w → r.state = .running ∨
    (∀ t ∈ (db.workflowView w).tasks, t.state.isTerminal = true) ∧
      r.state = if ∃ t ∈ (db.workflowView w).tasks, t.state = .deadLetter then .failed else .completed

section

variable {host : Host} {w : WorkflowId} {d : WorkflowDefinition} {outcome : TaskKey → Outcome}
  {db db' : Db} {m : Move}

theorem take_cases (h : db.take w outcome m = some db') :
    (∃ host id result reason t key, m = .finish host id result reason ∧ db.getTask id = some t ∧
        t.taskKey = some key ∧ t.workflowId = some w ∧ t.state = .queued ∧
        db' = (applyEntry host db ((outcome key).entry id result reason)).db) ∨
      ∃ host key, m = .advance host key ∧
        db' = (applyEntry host db (.workflowAdvance ⟨w, key⟩)).db := by
  cases m with
  | finish host id result reason =>
    simp only [Db.take, Option.bind_eq_bind, Option.bind_eq_some_iff,
      Option.ite_none_right_eq_some, Option.some.injEq] at h
    obtain ⟨t, ht, key, hk, ⟨hw, hq⟩, rfl⟩ := h
    exact .inl ⟨host, id, result, reason, t, key, rfl, ht, hk, hw, hq, rfl⟩
  | advance host key => exact .inr ⟨host, key, rfl, by simpa [Db.take] using h.symm⟩

def TerminalStay (w : WorkflowId) (db db' : Db) : Prop :=
  ∀ key st, db.stateOf w key = some st → st.isTerminal = true → db'.stateOf w key = some st

theorem Justified.mono {o : Outcome} {def_ : WorkflowTaskDef} {st : TaskEngineState}
    (h : Justified db w o def_ st) (hs : TerminalStay w db db') : Justified db' w o def_ st := by
  have completed : (∀ dep ∈ def_.deps, db.stateOf w dep = some .completed) →
      ∀ dep ∈ def_.deps, db'.stateOf w dep = some .completed :=
    fun h dep hd => hs dep _ (h dep hd) rfl
  cases st with
  | pending => exact h
  | queued => exact completed h
  | completed | deadLetter => exact ⟨h.1, completed h.2⟩
  | skipped =>
    have stay (dep : TaskKey) (hd : dep ∈ def_.deps) : db'.stateOf w dep = db.stateOf w dep := by
      obtain ⟨st, hst, ht⟩ := (Option.any_eq_true _ _).mp (h.1 dep hd)
      rw [hst, hs dep st hst ht]
    obtain ⟨hall, dep, hd, hne⟩ := h
    refine ⟨fun dep hd => ?_, dep, hd, ?_⟩
    · rw [stay dep hd]
      exact hall dep hd
    · rwa [stay dep hd]
  | assigned | running | failed | cancelled => exact h

-- ---------------------------------------------------------------------------
-- A pass
-- ---------------------------------------------------------------------------

theorem Sound.terminalStay_pass (h : Sound w d outcome db) (hp : Passed host w db db') :
    TerminalStay w db db' := by
  intro key st hst ht
  have hne : st ≠ .pending := by
    rintro rfl
    cases ht
  rw [h.rows.stateOf_pass hp, hst]
  simp [TaskEngineState.moved, hne]

theorem Sound.justified_moved (h : Sound w d outcome db) {key : TaskKey} {def_ : WorkflowTaskDef}
    (hk : (key, def_) ∈ d.tasks) (hc : truthy def_.condition = none) (hdeps : def_.deps ≠ []) :
    Justified db w (outcome key) def_
      (TaskEngineState.pending.moved ((db.workflowView w).keyVerdict host key)) := by
  unfold WorkflowView.keyVerdict
  rw [h.rows.allDepsTerminal hk, h.rows.shouldRun hk hc]
  split
  case isFalse => exact hdeps
  case isTrue hterm =>
    cases hrun : def_.deps.all fun dep => decide (db.stateOf w dep = some .completed) with
    | true => simpa [TaskEngineState.moved, Justified] using hrun
    | false =>
      refine ⟨by simpa using hterm, ?_⟩
      simpa [List.all_eq_false] using hrun

/-- The loop over the pending tasks passes by a task whose key is the empty
string, as it does one without a key. -/
theorem advanceRow_of_empty_key {t : TaskRecord} (hk : t.taskKey = some "") :
    db.advanceRow host w t = t := by
  have htr : truthy t.taskKey = none := by
    rw [hk]
    rfl
  simp [Db.advanceRow, WorkflowView.move, WorkflowView.verdict, WorkflowView.evaluatedKey, htr]

theorem Sound.workflowState (h : Sound w d outcome db)
    (hall : (db.workflowView w).tasks.all (·.state.isTerminal) = true) :
    (evaluateWorkflow host db w).workflowState =
      if ∃ t ∈ (db.workflowView w).tasks, t.state = .deadLetter then .failed else .completed := by
  have hfailed : ∀ t ∈ (db.workflowView w).tasks, t.state ≠ .failed := by
    intro t ht hf
    obtain ⟨key, def_, hk, htk⟩ := h.rows.exists_def ht
    have hj := h.tasks t ht key def_ hk htk
    rw [hf] at hj
    exact hj
  simp only [evaluateWorkflow, hall, if_true]
  congr 1
  simp only [List.any_eq_true, Bool.or_eq_true, decide_eq_true_eq, eq_iff_iff]
  constructor
  · rintro ⟨t, ht, hf | hd⟩
    · exact absurd hf (hfailed t ht)
    · exact ⟨t, ht, hd⟩
  · rintro ⟨t, ht, hd⟩
    exact ⟨t, ht, .inr hd⟩

theorem Sound.pass (h : Sound w d outcome db)
    (hu : ∀ key def_, (key, def_) ∈ d.tasks → truthy def_.condition = none)
    (hp : Passed host w db db') : Sound w d outcome db' := by
  have hview : (db'.workflowView w).tasks = (db.workflowView w).tasks.map (db.advanceRow host w) :=
    view_tasks_map db.advanceRow_fixed hp.tasks
  refine ⟨h.rows.pass hp, ?_, ?_⟩
  · intro t' ht' key def_ hk htk
    rw [hview] at ht'
    obtain ⟨t, ht, rfl⟩ := List.mem_map.mp ht'
    rw [Db.advanceRow_taskKey] at htk
    have hj := h.tasks t ht key def_ hk htk
    by_cases hpend : t.state = .pending
    · by_cases hne : key = ""
      · rw [advanceRow_of_empty_key (htk.trans (congrArg some hne))]
        exact hj.mono (h.terminalStay_pass hp)
      · rw [Db.advanceRow, if_pos (Db.mem_workflowView.mp ht).2, WorkflowView.move_state htk hne,
          hpend]
        rw [hpend] at hj
        exact (h.justified_moved hk (hu key def_ hk) hj).mono (h.terminalStay_pass hp)
    · rw [Db.advanceRow_of_not_pending hpend]
      exact hj.mono (h.terminalStay_pass hp)
  · intro r' hr' hid
    rw [hp.workflows] at hr'
    split at hr'
    case isTrue hall =>
      right
      have hterm : ∀ t ∈ (db.workflowView w).tasks, t.state.isTerminal = true := by
        simpa using hall
      have hsame : (db'.workflowView w).tasks = (db.workflowView w).tasks := by
        rw [hview]
        conv_rhs => rw [← List.map_id (db.workflowView w).tasks]
        apply List.map_congr_left
        intro t ht
        apply Db.advanceRow_of_not_pending
        intro hpend
        have := hterm t ht
        rw [hpend] at this
        cases this
      rw [hsame]
      refine ⟨hterm, ?_⟩
      obtain ⟨r, hr, rfl⟩ := List.mem_map.mp hr'
      have hrid : r.id = w := by
        by_contra hne
        simp only [hne, if_false] at hid
      simp only [hrid, if_true, h.workflowState hall]
    case isFalse hall =>
      refine .inl ((h.closed r' hr' hid).resolve_right ?_)
      rintro ⟨hterm, -⟩
      exact hall (by simpa using hterm)

-- ---------------------------------------------------------------------------
-- An outcome
-- ---------------------------------------------------------------------------

section

variable {id : TaskId} {result : TaskResult} {reason : String} {t : TaskRecord} {key : TaskKey}

theorem Outcome.entry_taskId (o : Outcome) : (o.entry id result reason).taskId? = some id := by
  cases o <;> rfl

theorem Outcome.entry_set_state (o : Outcome) :
    ((o.entry id result reason).set host t).state = o.state := by
  cases o <;> rfl

theorem finish_rows (o : Outcome) :
    (applyEntry host db (o.entry id result reason)).db.tasks.rows =
      db.tasks.rows.map fun u => if u.id = id then (o.entry id result reason).set host u else u := by
  rw [(applyEntry_task o.entry_taskId).1]
  rfl

theorem Sound.finish (h : Sound w d outcome db) (ht : db.getTask id = some t)
    (hk : t.taskKey = some key) (hw : t.workflowId = some w) (hq : t.state = .queued) :
    Sound w d outcome (applyEntry host db ((outcome key).entry id result reason)).db := by
  generalize he : (outcome key).entry id result reason = e
  have hid : e.taskId? = some id := he ▸ (outcome key).entry_taskId
  have hview : ((applyEntry host db e).db.workflowView w).tasks =
      (db.workflowView w).tasks.map fun u => if u.id = id then e.set host u else u :=
    view_tasks_map (modified_fixed e id) (he ▸ finish_rows _)
  have hrep : Represents (applyEntry host db e).db w d := by
    apply h.rows.applyEntry
    rintro p rfl
    cases hid
  have is_t {u : TaskRecord} (hu : u ∈ (db.workflowView w).tasks) (huid : u.id = id) : u = t := by
    have := Db.getTask_of_mem (Db.mem_workflowView.mp hu).1
    rw [huid, ht, Option.some.injEq] at this
    exact this.symm
  have hmem : t ∈ (db.workflowView w).tasks := Db.mem_workflowView.mpr ⟨Db.getTask_mem ht, hw⟩
  have hstay : TerminalStay w db (applyEntry host db e).db := by
    intro k st hst hterm
    obtain ⟨u, hu, huk, hne, rfl⟩ := h.rows.stateOf_eq_some.mp hst
    refine hrep.stateOf_eq_some.mpr ⟨u, ?_, huk, hne, rfl⟩
    rw [hview]
    refine List.mem_map.mpr ⟨u, hu, if_neg fun huid => ?_⟩
    rw [is_t hu huid, hq] at hterm
    cases hterm
  refine ⟨hrep, ?_, ?_⟩
  · intro t' ht' key' def_ hk' htk'
    rw [hview] at ht'
    obtain ⟨u, hu, rfl⟩ := List.mem_map.mp ht'
    by_cases huid : u.id = id
    · obtain rfl := is_t hu huid
      simp only [huid, if_true] at htk' ⊢
      have hkey : (e.set host u).taskKey = u.taskKey := congrArg (·.taskKey) (e.set_fixed host u)
      obtain rfl : key = key' := by simpa [hkey, hk] using htk'
      have hj := h.tasks u hu key def_ hk' hk
      rw [hq] at hj
      have hstate : (e.set host u).state = (outcome key).state := he ▸ (outcome key).entry_set_state
      rw [hstate]
      cases ho : outcome key with
      | completed | deadLetter => exact ⟨rfl, fun dep hd => hstay dep _ (hj dep hd) rfl⟩
    · simp only [huid, if_false] at htk' ⊢
      exact (h.tasks u hu key' def_ hk' htk').mono hstay
  · intro r hr hrid
    rw [(applyEntry_task hid).2.1] at hr
    refine .inl ((h.closed r hr hrid).resolve_right ?_)
    rintro ⟨hterm, -⟩
    have := hterm t hmem
    rw [hq] at this
    cases this

end

-- ---------------------------------------------------------------------------
-- Runs come to an end
-- ---------------------------------------------------------------------------

def TaskEngineState.weight : TaskEngineState → Nat
  | .pending => 2
  | .queued => 1
  | _ => 0

def WorkflowState.weight : WorkflowState → Nat
  | .running => 1
  | _ => 0

def Db.weight (db : Db) : Nat :=
  (db.taskStates.map (·.2.weight)).sum + (db.workflowStates.map (·.2.weight)).sum

def Closer (db db' : Db) : Prop := SameStates db db' ∨ db'.weight < db.weight

theorem Closer.trans {db'' : Db} (h : Closer db db') (h' : Closer db' db'') : Closer db db'' := by
  have same {a b : Db} (h : SameStates a b) : b.weight = a.weight := by
    rw [Db.weight, h.1, h.2, Db.weight]
  obtain h | h := h <;> obtain h' | h' := h'
  · exact .inl ⟨h'.1.trans h.1, h'.2.trans h.2⟩
  · exact .inr (same h ▸ h')
  · exact .inr ((same h').trans_lt h)
  · exact .inr (h'.trans h)

theorem map_eq_or_sum_lt {α β : Type} {l : List α} {f g : α → β} {weight : β → Nat}
    (h : ∀ a ∈ l, g a = f a ∨ weight (g a) < weight (f a)) :
    l.map g = l.map f ∨
      ((l.map g).map weight).sum < ((l.map f).map weight).sum := by
  by_cases hall : ∀ a ∈ l, g a = f a
  · exact .inl (List.map_congr_left hall)
  · right
    push Not at hall
    obtain ⟨a, ha, hne⟩ := hall
    rw [List.map_map, List.map_map]
    apply List.sum_lt_sum
    · intro b hb
      obtain he | hlt := h b hb
      · exact le_of_eq (congrArg weight he)
      · exact hlt.le
    · exact ⟨a, ha, (h a ha).resolve_left hne⟩

theorem closer_of_map {f : TaskRecord → TaskRecord} {g : WorkflowRecord → WorkflowRecord}
    (hf : db'.tasks.rows = db.tasks.rows.map f) (hg : db'.workflows.rows = db.workflows.rows.map g)
    (hfid : ∀ t, (f t).id = t.id) (hgid : ∀ r, (g r).id = r.id)
    (hfs : ∀ t ∈ db.tasks.rows, (f t).state = t.state ∨ (f t).state.weight < t.state.weight)
    (hgs : ∀ r ∈ db.workflows.rows, (g r).state = r.state ∨ (g r).state.weight < r.state.weight) :
    Closer db db' := by
  have ht := @map_eq_or_sum_lt _ _ db.tasks.rows (fun t => (t.id, t.state))
    (fun t => ((f t).id, (f t).state)) (·.2.weight) (by
      intro t hm
      rw [hfid]
      exact (hfs t hm).imp_left fun he => by rw [he])
  have hw := @map_eq_or_sum_lt _ _ db.workflows.rows (fun r => (r.id, r.state))
    (fun r => ((g r).id, (g r).state)) (·.2.weight) (by
      intro r hm
      rw [hgid]
      exact (hgs r hm).imp_left fun he => by rw [he])
  have hts : db'.taskStates = db.tasks.rows.map fun t => ((f t).id, (f t).state) := by
    rw [Db.taskStates, hf, List.map_map]
    rfl
  have hws : db'.workflowStates = db.workflows.rows.map fun r => ((g r).id, (g r).state) := by
    rw [Db.workflowStates, hg, List.map_map]
    rfl
  rw [← hts] at ht
  rw [← hws] at hw
  change db'.taskStates = db.taskStates ∨ _ < (db.taskStates.map _).sum at ht
  change db'.workflowStates = db.workflowStates ∨ _ < (db.workflowStates.map _).sum at hw
  unfold Closer SameStates Db.weight
  obtain ht | ht := ht <;> obtain hw | hw := hw
  · exact .inl ⟨ht, hw⟩
  · exact .inr (by rw [ht]; omega)
  · exact .inr (by rw [hw]; omega)
  · exact .inr (by omega)

theorem Sound.closer_pass (h : Sound w d outcome db) (hp : Passed host w db db') :
    Closer db db' := by
  have hfs : ∀ t ∈ db.tasks.rows, (db.advanceRow host w t).state = t.state ∨
      (db.advanceRow host w t).state.weight < t.state.weight := by
    intro t _
    by_cases hpend : t.state = .pending
    · rw [hpend]
      obtain hs | hs | hs := @Db.advanceRow_state host db w t hpend <;>
        simp [hs, TaskEngineState.weight]
    · exact .inl (by rw [Db.advanceRow_of_not_pending hpend])
  by_cases hall : (db.workflowView w).tasks.all (·.state.isTerminal) = true
  · refine closer_of_map hp.tasks (by rw [hp.workflows, if_pos hall]; rfl) Db.advanceRow_id ?_ hfs ?_
    · intro r
      split <;> rfl
    · intro r hr
      split
      case isFalse => exact .inl rfl
      case isTrue hid =>
        obtain hrun | ⟨-, hst⟩ := h.closed r hr hid
        · right
          rw [hrun]
          simp only [evaluateWorkflow, hall, if_true]
          split <;> decide
        · left
          simp only [h.workflowState hall, hst]
  · exact closer_of_map (g := id) hp.tasks (by rw [hp.workflows, if_neg hall, List.map_id])
      Db.advanceRow_id (fun _ => rfl) hfs (fun _ _ => .inl rfl)

theorem closer_finish {taskId : TaskId} {t : TaskRecord} {result : TaskResult} {reason : String}
    (o : Outcome) (ht : db.getTask taskId = some t) (hq : t.state = .queued) :
    Closer db (applyEntry host db (o.entry taskId result reason)).db := by
  refine closer_of_map (g := id) (finish_rows o) ?_ ?_ (fun _ => rfl) ?_ (fun _ _ => .inl rfl)
  · rw [(applyEntry_task o.entry_taskId).2.1, List.map_id]
  · intro u
    split <;> simp
  · intro u hu
    split
    case isFalse => exact .inl rfl
    case isTrue huid =>
      have := Db.getTask_of_mem hu
      rw [huid, ht, Option.some.injEq] at this
      rw [Outcome.entry_set_state, ← this, hq]
      right
      cases o <;> decide

/-- What every step keeps, and that it brings the run closer to its end. -/
theorem Sound.take (h : Sound w d outcome db)
    (hu : ∀ key def_, (key, def_) ∈ d.tasks → truthy def_.condition = none)
    (hs : db.take w outcome m = some db') : Sound w d outcome db' ∧ Closer db db' := by
  obtain ⟨host, id, result, reason, t, key, -, ht, hk, hw, hq, rfl⟩ | ⟨host, key, -, rfl⟩ :=
    take_cases hs
  · exact ⟨h.finish ht hk hw hq, closer_finish _ ht hq⟩
  · apply advance_of_pass host db ⟨w, key⟩ (P := fun db' => Sound w d outcome db' ∧ Closer db db')
    · intro db₁ db₂ ⟨h₁, hc⟩ hp
      exact ⟨h₁.pass hu hp, hc.trans (h₁.closer_pass hp)⟩
    · exact ⟨h, .inl ⟨rfl, rfl⟩⟩

-- ---------------------------------------------------------------------------
-- Reached states
-- ---------------------------------------------------------------------------

theorem submit_accepted (ho : d.Orderly) (hu : Untouched db w)
    (hw : w ∉ db.workflows.rows.map (·.id)) (hi : Function.Injective host.randomUUID)
    (hf : ∀ i, host.randomUUID i ∉ db.tasks.rows.map (·.id)) :
    ∃ a, (applyEntry host db (.workflowSubmit ⟨w, d⟩)).outcome = .ok a := by
  obtain ⟨-, -, hm⟩ | ⟨workflows, db', err, -, hins, hdb⟩ := applyEntry_workflowSubmit host db ⟨w, d⟩
  · exact absurd hm hw
  · have hids : ((d.withIds host).map Prod.fst) = (List.range d.tasks.length).map host.randomUUID := by
      rw [List.range_eq_range', ← List.zipIdx_map_snd, List.map_map, WorkflowDefinition.withIds,
        List.map_map]
      rfl
    have hkeys : ((d.withIds host).map (·.2.1)) = d.tasks.map Prod.fst := by
      rw [← d.withIds_tasks host, List.map_map]
      rfl
    have hnone : err = none := by
      refine insertWorkflowTasks_ok (by rw [hids]; exact List.nodup_range.map hi)
        (by rw [hkeys]; exact d.keys_nodup) ?_ ?_ ?_ hins
      · intro t ht
        exact ho.once t.2.1 t.2.2 (d.withIds_tasks host ▸ List.mem_map_of_mem ht)
      · intro t ht
        have hm : t.1 ∈ (d.withIds host).map Prod.fst := List.mem_map_of_mem ht
        rw [hids] at hm
        obtain ⟨i, -, hi⟩ := List.mem_map.mp hm
        rw [← hi]
        exact hf i
      · intro t _ r hr hrw
        have hn : r ∉ (db.workflowView w).deps := by simp [hu.deps]
        exact absurd (List.mem_filter.mpr ⟨hr, by simpa using hrw⟩) hn
    exact ⟨_, by rw [hdb, hnone]; rfl⟩

structure Fresh (w : WorkflowId) (d : WorkflowDefinition) (db : Db) : Prop where
  rows : Represents db w d
  tasks : ∀ t ∈ (db.workflowView w).tasks, ∀ key def_, (key, def_) ∈ d.tasks →
    t.taskKey = some key → t.state = if def_.deps.isEmpty then .queued else .pending
  running : ∀ r ∈ db.workflows.rows, r.id = w → r.state = .running

theorem JustSubmitted.fresh (ho : d.Orderly) (h : JustSubmitted w d db) : Fresh w d db := by
  obtain ⟨host, db₀, hu, hw, hi, hf, rfl⟩ := h
  obtain ⟨hrep, hview⟩ := represents_of_submit hu (submit_accepted ho hu hw hi hf)
  refine ⟨hrep, ?_, ?_⟩
  · intro t ht key def_ hk htk
    rw [hview] at ht
    obtain ⟨s, hs, rfl⟩ := List.mem_map.mp ht
    have hsd : s.2 ∈ d.tasks := d.withIds_tasks host ▸ List.mem_map_of_mem hs
    have he : s.2 = (key, def_) :=
      List.inj_on_of_nodup_map d.keys_nodup hsd hk (by simpa [WorkflowTaskDef.row] using htk)
    rw [he]
    rfl
  · intro r hr hid
    obtain ⟨-, -, hm⟩ | ⟨workflows, db', err, hins, htasks, hdb⟩ :=
      applyEntry_workflowSubmit host db₀ ⟨w, d⟩
    · exact absurd hm hw
    · rw [hdb, (insertWorkflowTasks_spec htasks).1, Table.insert_rows hins, List.mem_append] at hr
      obtain hr | hr := hr
      · exact absurd (hid ▸ List.mem_map_of_mem hr) hw
      · rw [List.mem_singleton.mp hr]
        rfl

theorem Fresh.sound (h : Fresh w d db) : Sound w d outcome db where
  rows := h.rows
  tasks t ht key def_ hk htk := by
    rw [h.tasks t ht key def_ hk htk]
    split
    case isTrue he =>
      rw [List.isEmpty_iff] at he
      simp [Justified, he]
    case isFalse he => simpa [Justified] using he
  closed r hr hid := .inl (h.running r hr hid)

theorem Reached.sound (ho : d.Orderly) (h : Reached w d outcome db) : Sound w d outcome db :=
  System.Reach.invariant (fun _ hi => (JustSubmitted.fresh ho hi).sound)
    (fun _ _ _ _ hI _ hs => (hI.take ho.unconditional hs).1) h

theorem terminates (ho : d.Orderly) (w : WorkflowId) (outcome : TaskKey → Outcome) :
    WellFounded fun db' db =>
      Reached w d outcome db ∧ (∃ m, db.take w outcome m = some db') ∧ ¬ SameStates db db' := by
  apply Subrelation.wf _ (measure Db.weight).wf
  rintro db' db ⟨hr, ⟨m, hs⟩, hne⟩
  exact ((hr.sound ho).take ho.unconditional hs).2.resolve_left hne

-- ---------------------------------------------------------------------------
-- Where they end
-- ---------------------------------------------------------------------------

theorem WorkflowDefinition.dependency_induction
    (hnamed : ∀ key dep, d.DependsOn key dep → dep ∈ d.tasks.map Prod.fst)
    (hacyclic : ∀ key, ¬ Relation.TransGen d.DependsOn key key) {P : TaskKey → Prop}
    (h : ∀ key def_, (key, def_) ∈ d.tasks → (∀ dep ∈ def_.deps, P dep) → P key) {key : TaskKey}
    (hk : key ∈ d.tasks.map Prod.fst) : P key := by
  have hfin : {k | k ∈ d.tasks.map Prod.fst}.Finite := List.finite_toSet _
  have : IsStrictOrder TaskKey fun dep key => Relation.TransGen d.DependsOn key dep :=
    { irrefl := hacyclic, trans := fun _ _ _ h h' => h'.trans h }
  have hwf : {k | k ∈ d.tasks.map Prod.fst}.WellFoundedOn
      fun dep key => Relation.TransGen d.DependsOn key dep := hfin.wellFoundedOn
  refine hwf.induction hk ?_
  intro k hk ih
  obtain ⟨⟨k, def_⟩, hd, rfl⟩ := List.mem_map.mp hk
  apply h k def_ hd
  intro dep hdep
  have hon : d.DependsOn k dep := ⟨def_, hd, hdep⟩
  exact ih dep (hnamed k dep hon) (.single hon)

theorem WorkflowDefinition.Orderly.induction (ho : d.Orderly) {P : TaskKey → Prop}
    (h : ∀ key def_, (key, def_) ∈ d.tasks → (∀ dep ∈ def_.deps, P dep) → P key) {key : TaskKey}
    (hk : key ∈ d.tasks.map Prod.fst) : P key :=
  WorkflowDefinition.dependency_induction (fun k dep hon => (ho.named k dep hon).2) ho.acyclic h hk

inductive Completes (d : WorkflowDefinition) (outcome : TaskKey → Outcome) : TaskKey → Prop
  | intro {key : TaskKey} {def_ : WorkflowTaskDef} : (key, def_) ∈ d.tasks →
    outcome key = .completed → (∀ dep ∈ def_.deps, Completes d outcome dep) →
    Completes d outcome key

theorem exists_followsOutcome (d : WorkflowDefinition) (outcome : TaskKey → Outcome) :
    ∃ final, FollowsOutcome d outcome final := by
  classical
  let runs (key : TaskKey) : Prop :=
    ∃ def_, (key, def_) ∈ d.tasks ∧ ∀ dep ∈ def_.deps, Completes d outcome dep
  let final (key : TaskKey) := if runs key then (outcome key).state else .skipped
  have hfinal (key : TaskKey) : final key = .completed ↔ Completes d outcome key := by
    constructor
    · intro h
      by_cases hr : runs key
      · obtain ⟨def_, hk, hdeps⟩ := hr
        refine .intro hk ?_ hdeps
        cases ho : outcome key with
        | completed => rfl
        | deadLetter => simp [final, runs, show runs key from ⟨def_, hk, hdeps⟩, ho, Outcome.state] at h
      · simp [final, hr] at h
    · rintro ⟨hk, ho, hdeps⟩
      have hr : runs key := ⟨_, hk, hdeps⟩
      simp [final, hr, ho, Outcome.state]
  refine ⟨final, ?_⟩
  intro key def_ hk
  have hr : runs key ↔ ∀ dep ∈ def_.deps, final dep = .completed := by
    simp only [hfinal]
    constructor
    · rintro ⟨def', hk', hdeps⟩
      obtain ⟨-, rfl⟩ := Prod.mk.injEq .. ▸ List.inj_on_of_nodup_map d.keys_nodup hk' hk rfl
      exact hdeps
    · exact fun hdeps => ⟨def_, hk, hdeps⟩
  simp only [final, ← hr]

section

variable {final : TaskKey → TaskEngineState}

theorem Represents.stateOf_row (h : Represents db w d) {t : TaskRecord} {key : TaskKey}
    (ht : t ∈ (db.workflowView w).tasks) (hk : t.taskKey = some key) (hne : key ≠ "") :
    db.stateOf w key = some t.state :=
  h.stateOf_eq_some.mpr ⟨t, ht, hk, hne, rfl⟩

theorem Sound.state_eq (h : Sound w d outcome db) (ho : d.Orderly)
    (hf : FollowsOutcome d outcome final) {key : TaskKey} (hk : key ∈ d.tasks.map Prod.fst) :
    ∀ t ∈ (db.workflowView w).tasks, t.taskKey = some key → t.state.isTerminal = true →
      t.state = final key := by
  refine ho.induction (P := fun key => ∀ t ∈ (db.workflowView w).tasks, t.taskKey = some key →
    t.state.isTerminal = true → t.state = final key) ?_ hk
  intro key def_ hk ih t ht htk hterm
  have dep_final {dep : TaskKey} {st : TaskEngineState} (hd : dep ∈ def_.deps)
      (hst : db.stateOf w dep = some st) (hterm : st.isTerminal = true) : final dep = st := by
    obtain ⟨u, hu, huk, -, rfl⟩ := h.rows.stateOf_eq_some.mp hst
    exact (ih dep hd u hu huk hterm).symm
  have hj := h.tasks t ht key def_ hk htk
  rw [hf key def_ hk]
  cases hst : t.state with
  | completed | deadLetter =>
    rw [hst] at hj
    obtain ⟨hout, hdeps⟩ := hj
    rw [if_pos fun dep hd => dep_final hd (hdeps dep hd) rfl, hout]
    rfl
  | skipped =>
    rw [hst] at hj
    obtain ⟨hall, dep, hd, hne⟩ := hj
    obtain ⟨st, hst, hterm⟩ := (Option.any_eq_true _ _).mp (hall dep hd)
    rw [if_neg]
    intro hcompleted
    have hfd := dep_final hd hst hterm
    rw [hcompleted dep hd] at hfd
    exact hne (hfd ▸ hst)
  | failed | cancelled | assigned | running =>
    rw [hst] at hj
    exact hj.elim
  | pending | queued =>
    rw [hst] at hterm
    cases hterm

theorem Sound.terminal (h : Sound w d outcome db) (ho : d.Orderly)
    (hempty : ∀ def_, ("", def_) ∈ d.tasks → def_.deps = []) (hq : Quiet w db) {key : TaskKey}
    (hk : key ∈ d.tasks.map Prod.fst) :
    ∀ t ∈ (db.workflowView w).tasks, t.taskKey = some key → t.state.isTerminal = true := by
  obtain ⟨hnq, host, hset⟩ := hq
  have hverdict := (Db.settled_iff.mp hset).1
  refine ho.induction (P := fun key => ∀ t ∈ (db.workflowView w).tasks, t.taskKey = some key →
    t.state.isTerminal = true) ?_ hk
  intro key def_ hk ih t ht htk
  have hj := h.tasks t ht key def_ hk htk
  cases hst : t.state with
  | completed | deadLetter | skipped | failed | cancelled => rfl
  | queued => exact absurd hst (hnq t ht)
  | assigned | running =>
    rw [hst] at hj
    exact hj.elim
  | pending =>
    rw [hst] at hj
    have hne : key ≠ "" := by
      rintro rfl
      exact hj (hempty def_ hk)
    have hdeps : (db.workflowView w).allDepsTerminal key = true := by
      rw [h.rows.allDepsTerminal hk, List.all_eq_true]
      intro dep hd
      obtain ⟨hdne, hdk⟩ := ho.named key dep ⟨def_, hk, hd⟩
      obtain ⟨⟨dep, ddef⟩, hdd, rfl⟩ := List.mem_map.mp hdk
      obtain ⟨u, hu, huk⟩ := h.rows.exists_row hdd
      rw [h.rows.stateOf_row hu huk hdne]
      exact ih dep hd u hu huk
    have hv := hverdict t ht
    have htr : truthy t.taskKey = some key := truthy_eq_some.mpr ⟨htk, hne⟩
    simp [WorkflowView.verdict, WorkflowView.evaluatedKey, hst, htr, hdeps] at hv

theorem Sound.endsAs (h : Sound w d outcome db) (ho : d.Orderly)
    (hempty : ∀ def_, ("", def_) ∈ d.tasks → def_.deps = []) (hf : FollowsOutcome d outcome final)
    (hq : Quiet w db) : EndsAs w d db final := by
  have hterm : ∀ t ∈ (db.workflowView w).tasks, t.state.isTerminal = true := by
    intro t ht
    obtain ⟨key, def_, hk, htk⟩ := h.rows.exists_def ht
    exact h.terminal ho hempty hq (List.mem_map.mpr ⟨_, hk, rfl⟩) t ht htk
  refine ⟨?_, hterm, ?_⟩
  · have hpair : ∀ t ∈ (db.workflowView w).tasks,
        (t.taskKey, t.state) = (t.taskKey, (t.taskKey.map final).getD .pending) := by
      intro t ht
      obtain ⟨key, def_, hk, htk⟩ := h.rows.exists_def ht
      have := h.state_eq ho hf (List.mem_map.mpr ⟨_, hk, rfl⟩) t ht htk (hterm t ht)
      simp [htk, this]
    have hkeys := congrArg (List.map fun k => (k, (Option.map final k).getD .pending)) h.rows.keys
    rw [List.map_congr_left hpair]
    simpa [List.map_map, Function.comp_def] using hkeys
  · obtain ⟨r, hr, hid⟩ := List.mem_map.mp h.rows.known
    refine ⟨r, hid ▸ Table.find?_of_mem hr, ?_⟩
    obtain ⟨-, host, hset⟩ := hq
    have hall : (db.workflowView w).tasks.all (·.state.isTerminal) = true := by simpa using hterm
    rw [(Db.settled_iff.mp hset).2 hall r hr hid, h.workflowState hall]

end

-- ---------------------------------------------------------------------------
-- A task under the empty key
-- ---------------------------------------------------------------------------

theorem Reached.empty_key_pending (ho : d.Orderly) {def_ : WorkflowTaskDef}
    (hk : ("", def_) ∈ d.tasks) (hdeps : def_.deps ≠ []) (h : Reached w d outcome db) :
    ∀ t ∈ (db.workflowView w).tasks, t.taskKey = some "" → t.state = .pending := by
  refine System.Reach.invariant (I := fun db => ∀ t ∈ (db.workflowView w).tasks,
    t.taskKey = some "" → t.state = .pending) ?_ ?_ h
  · intro db hi t ht htk
    rw [(JustSubmitted.fresh ho hi).tasks t ht "" def_ hk htk]
    simpa using hdeps
  · intro db m db' _ hI _ hs
    obtain ⟨host, id, result, reason, t, key, -, ht, -, -, hq, rfl⟩ | ⟨host, key, -, rfl⟩ :=
      take_cases hs
    · intro t' ht' htk'
      rw [view_tasks_map (modified_fixed _ id) (finish_rows (outcome key))] at ht'
      obtain ⟨u, hu, rfl⟩ := List.mem_map.mp ht'
      by_cases huid : u.id = id
      · have := Db.getTask_of_mem (Db.mem_workflowView.mp hu).1
        rw [huid, ht, Option.some.injEq] at this
        obtain rfl := this.symm
        have hpend := hI u hu (by
          simp only [huid, if_true] at htk'
          exact (congrArg (·.taskKey) (Entry.set_fixed host u _)).symm.trans htk')
        rw [hq] at hpend
        cases hpend
      · simp only [huid, if_false] at htk' ⊢
        exact hI u hu htk'
    · apply advance_of_pass host db ⟨w, key⟩ (P := fun db => ∀ t ∈ (db.workflowView w).tasks,
        t.taskKey = some "" → t.state = .pending) _ hI
      intro db₁ db₂ hI hp t' ht' htk'
      rw [view_tasks_map db₁.advanceRow_fixed hp.tasks] at ht'
      obtain ⟨u, hu, rfl⟩ := List.mem_map.mp ht'
      rw [Db.advanceRow_taskKey] at htk'
      rw [advanceRow_of_empty_key htk']
      exact hI u hu htk'

theorem exists_quiet (ho : d.Orderly) (w : WorkflowId) (outcome : TaskKey → Outcome) :
    ∃ db, Reached w d outcome db ∧ Quiet w db := by
  obtain ⟨f, hf, -⟩ := exists_fresh []
  let host : Host := ⟨"", 0, f, fun _ _ _ => false, Lib.Binary64.nearestPower⟩
  have hinit : Reached w d outcome (applyEntry host {} (.workflowSubmit ⟨w, d⟩)).db :=
    .init ⟨host, {}, ⟨rfl, rfl⟩, by simp, hf, by simp, rfl⟩
  obtain ⟨db, (hr : Reached w d outcome db), hmin⟩ :=
    (terminates ho w outcome).has_min {db | Reached w d outcome db} ⟨_, hinit⟩
  have hsame {m : Move} {db' : Db} (hs : db.take w outcome m = some db') : SameStates db db' := by
    by_contra hne
    exact hmin db' (System.Reach.step hr trivial hs) ⟨hr, ⟨m, hs⟩, hne⟩
  refine ⟨db, hr, ?_, host, hsame (m := .advance host "") rfl⟩
  intro t ht hq
  obtain ⟨key, -, -, hk⟩ := (hr.sound ho).rows.exists_def ht
  obtain ⟨hm, hw⟩ := Db.mem_workflowView.mp ht
  have hs : db.take w outcome (.finish host t.id {} "") =
      some (applyEntry host db ((outcome key).entry t.id {} "")).db := by
    simp [Db.take, Db.getTask_of_mem hm, hk, hw, hq]
  have hin : (t.id, (outcome key).state) ∈ db.taskStates := by
    rw [← (hsame hs).1, Db.taskStates, finish_rows]
    refine List.mem_map.mpr ⟨_, List.mem_map_of_mem hm, ?_⟩
    simp [Outcome.entry_set_state]
  have hst := Db.state_of_mem_taskStates hm hin
  rw [hq] at hst
  cases ho : outcome key <;> simp [ho, Outcome.state] at hst

theorem not_confluent (ho : d.Orderly) {def_ : WorkflowTaskDef} (hk : ("", def_) ∈ d.tasks)
    (hdeps : def_.deps ≠ []) (w : WorkflowId) : ¬ Confluent w d := by
  intro hc
  let outcome : TaskKey → Outcome := fun _ => .completed
  obtain ⟨db, hr, hq⟩ := exists_quiet ho w outcome
  obtain ⟨final, -, hends⟩ := hc.ends outcome
  obtain ⟨t, ht, htk⟩ := (hr.sound ho).rows.exists_row hk
  have hterm := (hends db hr hq).terminal t ht
  rw [hr.empty_key_pending ho hk hdeps t ht htk] at hterm
  cases hterm

/-- Runs of a workflow end, and all in the same states, exactly when no task
under the empty key has to wait for another. -/
theorem confluent_iff (ho : d.Orderly) (w : WorkflowId) :
    Confluent w d ↔ ∀ def_, ("", def_) ∈ d.tasks → def_.deps = [] := by
  constructor
  · intro hc def_ hk
    by_contra hdeps
    exact not_confluent ho hk hdeps w hc
  · intro hempty
    refine ⟨terminates ho w, ?_⟩
    intro outcome
    obtain ⟨final, hf⟩ := exists_followsOutcome d outcome
    exact ⟨final, hf, fun db hr hq => (hr.sound ho).endsAs ho hempty hf hq⟩

end

theorem acyclic_of_rank {d : WorkflowDefinition} (rank : TaskKey → Nat)
    (h : ∀ t ∈ d.tasks, ∀ dep ∈ t.2.deps, rank dep < rank t.1) (key : TaskKey) :
    ¬ Relation.TransGen d.DependsOn key key := by
  have hlt {a b : TaskKey} (hab : Relation.TransGen d.DependsOn a b) : rank b < rank a := by
    induction hab with
    | single hab =>
      obtain ⟨def_, hk, hd⟩ := hab
      exact h _ hk _ hd
    | tail _ hbc ih =>
      obtain ⟨def_, hk, hd⟩ := hbc
      exact (h _ hk _ hd).trans ih
  exact fun hc => lt_irrefl _ (hlt hc)

theorem orderly_of_rank {d : WorkflowDefinition} (rank : TaskKey → Nat)
    (h : ∀ t ∈ d.tasks, ∀ dep ∈ t.2.deps, rank dep < rank t.1)
    (hdef : ∀ t ∈ d.tasks, t.2.deps.Nodup ∧ truthy t.2.condition = none ∧
      ∀ dep ∈ t.2.deps, dep ≠ "" ∧ dep ∈ d.tasks.map Prod.fst) : d.Orderly where
  once key def_ hk := (hdef _ hk).1
  named key dep hd := by
    obtain ⟨def_, hk, hd⟩ := hd
    exact (hdef _ hk).2.2 dep hd
  acyclic := acyclic_of_rank rank h
  unconditional key def_ hk := (hdef _ hk).2.1

def diamond : WorkflowDefinition where
  name := "diamond"
  tasks := [("a", {}), ("b", { dependsOn := some ["a"] }), ("c", { dependsOn := some ["a"] }),
    ("d", { dependsOn := some ["b", "c"] })]

theorem diamond_confluent : diamond.Orderly ∧ Confluent "w" diamond := by
  have ho : diamond.Orderly :=
    orderly_of_rank (fun k => if k = "a" then 0 else if k = "d" then 2 else 1) (by decide) (by decide)
  exact ⟨ho, (confluent_iff ho "w").mpr (by simp [diamond])⟩

def unnamed : WorkflowDefinition where
  name := "unnamed"
  tasks := [("a", {}), ("", { dependsOn := some ["a"] })]

/-- `a` completes, and every advance leaves the other task pending. -/
theorem unnamed_stuck :
    let host : Host := ⟨"n", 0, fun i => if i = 0 then "u" else "v", fun _ _ _ => false,
      Lib.Binary64.nearestPower⟩
    let db := (applyEntry host (applyEntry host {} (.workflowSubmit ⟨"w", unnamed⟩)).db
      (.taskComplete ⟨"u", {}⟩)).db
    unnamed.Orderly ∧ ¬ Confluent "w" unnamed ∧
      db.taskStates = [("u", .completed), ("v", .pending)] ∧ db.Settled host "w" := by
  intro host db
  have ho : unnamed.Orderly :=
    orderly_of_rank (fun k => if k = "a" then 0 else 1) (by decide) (by decide)
  have hdeps : WorkflowTaskDef.deps { dependsOn := some ["a"] } ≠ [] := by decide
  exact ⟨ho, not_confluent ho (by simp [unnamed]) hdeps "w", by decide +kernel, by decide +kernel⟩

end ClaudeCluster.Tasks
