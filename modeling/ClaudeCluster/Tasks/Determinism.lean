import Mathlib.Data.Nat.Pairing
import ClaudeCluster.Tasks.WorkflowLaws

/-!
# Do replicas hold the same rows?

Two nodes apply one log to empty databases, each with its own clock, ids and
condition evaluator. `workflow_submit` draws the ids of its tasks while it is
applied, so a workflow with a task splits the replicas; nothing else does. The
log on which all replicas agree is thus one where every submitted workflow is
empty or is refused because an earlier one took its id.
-/

namespace ClaudeCluster.Tasks

open Lib (Table)

-- ---------------------------------------------------------------------------
-- Rows without their clocks
-- ---------------------------------------------------------------------------

def TaskRecord.timeless (t : TaskRecord) : TaskRecord :=
  { t with
    createdAt := 0, assignedAt := none, startedAt := none, completedAt := none,
    deadLetteredAt := none }

def WorkflowRecord.timeless (r : WorkflowRecord) : WorkflowRecord :=
  { r with createdAt := 0, completedAt := none }

structure SameRows (d₁ d₂ : Db) : Prop where
  tasks : d₁.tasks.rows.map TaskRecord.timeless = d₂.tasks.rows.map TaskRecord.timeless
  dependencies : d₁.dependencies.rows = d₂.dependencies.rows
  workflows :
    d₁.workflows.rows.map WorkflowRecord.timeless = d₂.workflows.rows.map WorkflowRecord.timeless

theorem map_map_congr {ρ σ : Type} {τ : ρ → σ} {f g : ρ → ρ}
    (hfg : ∀ r s, τ r = τ s → τ (f r) = τ (g s)) {l₁ l₂ : List ρ} (h : l₁.map τ = l₂.map τ) :
    (l₁.map f).map τ = (l₂.map g).map τ := by
  induction l₁ generalizing l₂ with
  | nil =>
    obtain rfl : l₂ = [] := by simpa using h.symm
    rfl
  | cons r l₁ ih =>
    cases l₂ with
    | nil => simp at h
    | cons s l₂ =>
      rw [List.map_cons, List.map_cons, List.cons.injEq] at h
      simp only [List.map_cons, hfg r s h.1, ih h.2]

section

variable {t s : TaskRecord}

theorem TaskRecord.timeless_set (h₁ h₂ : Host) (e : Entry) (h : t.timeless = s.timeless) :
    (e.set h₁ t).timeless = (e.set h₂ s).timeless := by
  simp only [timeless, TaskRecord.mk.injEq] at h
  cases e <;> simp_all [Entry.set, timeless]

theorem TaskRecord.timeless_queue (h : t.timeless = s.timeless) :
    t.queue.timeless = s.queue.timeless := by
  simp only [timeless, TaskRecord.mk.injEq] at h
  simp_all [queue, timeless]

theorem TaskRecord.eq_of_timeless (h : t.timeless = s.timeless) :
    t.id = s.id ∧ t.workflowId = s.workflowId ∧ t.taskKey = s.taskKey ∧ t.state = s.state := by
  simp only [timeless, TaskRecord.mk.injEq] at h
  simp [h]

end

-- ---------------------------------------------------------------------------
-- One entry
-- ---------------------------------------------------------------------------

structure Twins (d₁ d₂ : Db) : Prop extends SameRows d₁ d₂ where
  noDependencies : d₁.dependencies.rows = []

section

variable {d₁ d₂ : Db} {h₁ h₂ : Host} {e : Entry}

theorem SameRows.task_ids (h : SameRows d₁ d₂) :
    d₁.tasks.rows.map (·.id) = d₂.tasks.rows.map (·.id) := by
  have := congrArg (List.map TaskRecord.id) h.tasks
  rwa [List.map_map, List.map_map] at this

theorem SameRows.workflow_ids (h : SameRows d₁ d₂) :
    d₁.workflows.rows.map (·.id) = d₂.workflows.rows.map (·.id) := by
  have := congrArg (List.map WorkflowRecord.id) h.workflows
  rwa [List.map_map, List.map_map] at this

theorem Twins.task (h : Twins d₁ d₂) {id : TaskId} (hid : e.taskId? = some id) :
    Twins (applyEntry h₁ d₁ e).db (applyEntry h₂ d₂ e).db := by
  obtain ⟨ht₁, hw₁, hd₁⟩ := @applyEntry_task h₁ d₁ _ _ hid
  obtain ⟨ht₂, hw₂, hd₂⟩ := @applyEntry_task h₂ d₂ _ _ hid
  refine ⟨⟨?_, ?_, ?_⟩, ?_⟩
  · rw [ht₁, ht₂, Table.rows_modify, Table.rows_modify]
    apply map_map_congr _ h.tasks
    intro t s hts
    have hts' := (TaskRecord.eq_of_timeless hts).1
    by_cases hk : t.id = id
    · simp [hk, hts' ▸ hk, TaskRecord.timeless_set h₁ h₂ e hts]
    · simp [hk, hts' ▸ hk, hts]
  · rw [hd₁, hd₂, h.dependencies]
  · rw [hw₁, hw₂, h.workflows]
  · rw [hd₁, h.noDependencies]

theorem Twins.taskSubmit (h : Twins d₁ d₂) (p : TaskSubmitPayload) :
    Twins (applyEntry h₁ d₁ (.taskSubmit p)).db (applyEntry h₂ d₂ (.taskSubmit p)).db := by
  obtain ⟨hdb₁, hm₁⟩ | ⟨t₁, hi₁, ht₁, hw₁, hd₁⟩ := applyEntry_taskSubmit h₁ d₁ p <;>
    obtain ⟨hdb₂, hm₂⟩ | ⟨t₂, hi₂, ht₂, hw₂, hd₂⟩ := applyEntry_taskSubmit h₂ d₂ p
  · rw [hdb₁, hdb₂]
    exact h
  · exact absurd (h.task_ids ▸ hm₁) (Table.not_mem_of_insert hi₂)
  · exact absurd (h.task_ids ▸ hm₂) (Table.not_mem_of_insert hi₁)
  · refine ⟨⟨?_, ?_, ?_⟩, ?_⟩
    · rw [ht₁, ht₂, Table.insert_rows hi₁, Table.insert_rows hi₂, List.map_append, h.tasks]
      simp [TaskSubmitPayload.row, TaskRecord.timeless]
    · rw [hd₁, hd₂, h.dependencies]
    · rw [hw₁, hw₂, h.workflows]
    · rw [hd₁, h.noDependencies]

theorem Twins.workflowSubmit (h : Twins d₁ d₂) (p : WorkflowSubmitPayload)
    (hp : p.definition.tasks = [] ∨ p.workflowId ∈ d₁.workflows.rows.map (·.id)) :
    Twins (applyEntry h₁ d₁ (.workflowSubmit p)).db (applyEntry h₂ d₂ (.workflowSubmit p)).db := by
  obtain ⟨hdb₁, -, hm₁⟩ | ⟨w₁, db₁, err₁, hi₁, hins₁, hdb₁⟩ := applyEntry_workflowSubmit h₁ d₁ p <;>
    obtain ⟨hdb₂, -, hm₂⟩ | ⟨w₂, db₂, err₂, hi₂, hins₂, hdb₂⟩ := applyEntry_workflowSubmit h₂ d₂ p
  · rw [hdb₁, hdb₂]
    exact h
  · exact absurd (h.workflow_ids ▸ hm₁) (Table.not_mem_of_insert hi₂)
  · exact absurd (h.workflow_ids ▸ hm₂) (Table.not_mem_of_insert hi₁)
  · have hnil := hp.resolve_right (Table.not_mem_of_insert hi₁)
    simp only [WorkflowDefinition.withIds, hnil, List.zipIdx_nil, List.map_nil] at hins₁ hins₂
    obtain ⟨rfl, -⟩ := Prod.mk.inj hins₁
    obtain ⟨rfl, -⟩ := Prod.mk.inj hins₂
    rw [hdb₁, hdb₂]
    refine ⟨⟨h.tasks, h.dependencies, ?_⟩, h.noDependencies⟩
    rw [Table.insert_rows hi₁, Table.insert_rows hi₂, List.map_append, h.workflows]
    simp [WorkflowSubmitPayload.row, WorkflowRecord.timeless]

theorem WorkflowView.verdict_of_deps_nil {v : WorkflowView} (hv : v.deps = []) (host : Host)
    (t : TaskRecord) : v.verdict host t = (evaluatedKey t).map fun _ => true := by
  have hd (key : TaskKey) : v.taskDeps key = [] := by simp [taskDeps, hv]
  unfold verdict
  cases evaluatedKey t <;> simp [allDepsTerminal, shouldRun, hd]

theorem SameRows.view (h : SameRows d₁ d₂) (w : WorkflowId) :
    (d₁.workflowView w).tasks.map TaskRecord.timeless =
      (d₂.workflowView w).tasks.map TaskRecord.timeless := by
  have := congrArg (List.filter (·.workflowId = some w)) h.tasks
  rwa [List.filter_map, List.filter_map] at this

theorem SameRows.all (h : SameRows d₁ d₂) (w : WorkflowId) (f : TaskEngineState → Bool) :
    (d₁.workflowView w).tasks.all (f ·.state) = (d₂.workflowView w).tasks.all (f ·.state) := by
  have := congrArg (List.all · (f ·.state)) (h.view w)
  simp only [List.all_map] at this
  exact this

theorem SameRows.any (h : SameRows d₁ d₂) (w : WorkflowId) (f : TaskEngineState → Bool) :
    (d₁.workflowView w).tasks.any (f ·.state) = (d₂.workflowView w).tasks.any (f ·.state) := by
  have := congrArg (List.any · (f ·.state)) (h.view w)
  simp only [List.any_map] at this
  exact this

theorem SameRows.workflowState (h : SameRows d₁ d₂) (w : WorkflowId) :
    (evaluateWorkflow h₁ d₁ w).workflowState = (evaluateWorkflow h₂ d₂ w).workflowState := by
  have ha := h.all w TaskEngineState.isTerminal
  have hf := h.any w fun s => s = .failed || s = .deadLetter
  simp only [evaluateWorkflow, ha, hf]

theorem view_deps_nil {db : Db} (h : db.dependencies.rows = []) (w : WorkflowId) :
    (db.workflowView w).deps = [] := by simp [Db.workflowView, h]

theorem Twins.pass (h : Twins d₁ d₂) {w : WorkflowId} {d₁' d₂' : Db} (p₁ : Passed h₁ w d₁ d₁')
    (p₂ : Passed h₂ w d₂ d₂') : Twins d₁' d₂' := by
  have hn₂ : d₂.dependencies.rows = [] := h.dependencies ▸ h.noDependencies
  refine ⟨⟨?_, ?_, ?_⟩, ?_⟩
  · rw [p₁.tasks, p₂.tasks]
    apply map_map_congr _ h.tasks
    intro t s hts
    obtain ⟨-, hw, hk, hst⟩ := TaskRecord.eq_of_timeless hts
    have hkey : WorkflowView.evaluatedKey t = WorkflowView.evaluatedKey s := by
      simp only [WorkflowView.evaluatedKey, hk, hst]
    simp only [Db.advanceRow, WorkflowView.move, hw, hkey,
      WorkflowView.verdict_of_deps_nil (view_deps_nil h.noDependencies w),
      WorkflowView.verdict_of_deps_nil (view_deps_nil hn₂ w)]
    split
    · cases WorkflowView.evaluatedKey s with
      | none => exact hts
      | some key => exact TaskRecord.timeless_queue hts
    · exact hts
  · rw [p₁.dependencies, p₂.dependencies, h.dependencies]
  · rw [p₁.workflows, p₂.workflows, h.all w TaskEngineState.isTerminal]
    split
    · apply map_map_congr _ h.workflows
      intro r s hrs
      have hst := @SameRows.workflowState _ _ h₁ h₂ h.toSameRows w
      simp only [WorkflowRecord.timeless, WorkflowRecord.mk.injEq] at hrs ⊢
      by_cases hw : r.id = w
      · simp [hrs, hst, hrs.1 ▸ hw]
      · simp [hrs, hrs.1 ▸ hw]
    · exact h.workflows
  · rw [p₁.dependencies, h.noDependencies]

theorem Twins.workflowAdvance (h : Twins d₁ d₂) (p : WorkflowAdvancePayload) :
    Twins (applyEntry h₁ d₁ (.workflowAdvance p)).db (applyEntry h₂ d₂ (.workflowAdvance p)).db := by
  have one (host : Host) (db : Db) (hn : db.dependencies.rows = []) :
      (applyEntry host db (.workflowAdvance p)).db = firstPass host db p.workflowId := by
    have hs : (evaluateWorkflow host db p.workflowId).skippedTasks = [] := by
      simp [evaluateWorkflow, WorkflowView.verdict_of_deps_nil (view_deps_nil hn p.workflowId)]
    simp [applyEntry_workflowAdvance, hs]
  rw [one h₁ d₁ h.noDependencies, one h₂ d₂ (h.dependencies ▸ h.noDependencies)]
  exact h.pass firstPass_passed firstPass_passed

/-- Every entry but the submission of a new workflow with tasks keeps replicas equal. -/
theorem Twins.applyEntry (h : Twins d₁ d₂) (h₁ h₂ : Host)
    (he : ∀ p, e = .workflowSubmit p →
      p.definition.tasks = [] ∨ p.workflowId ∈ d₁.workflows.rows.map (·.id)) :
    Twins (applyEntry h₁ d₁ e).db (applyEntry h₂ d₂ e).db := by
  cases hid : e.taskId? with
  | some id => exact h.task hid
  | none =>
    cases e with
    | taskSubmit p => exact h.taskSubmit p
    | workflowSubmit p => exact h.workflowSubmit p (he p rfl)
    | workflowAdvance p => exact h.workflowAdvance p
    | _ => cases hid

end

-- ---------------------------------------------------------------------------
-- Whole logs
-- ---------------------------------------------------------------------------

def Committed.entry? : Committed → Option Entry
  | .parsed e => some e
  | .foreign | .unparsable => none

def submittedTasks (log : List Committed) : List TaskId :=
  log.filterMap fun c => c.entry?.bind Entry.submits?

def submittedWorkflows (log : List Committed) : List WorkflowId :=
  log.filterMap fun c => c.entry?.bind Entry.submitsWorkflow?

/-- `randomUUID` hands out every id once, and none that a client has drawn. -/
structure FreshIds (hosts : Nat → Host) (log : List Committed) : Prop where
  once : ∀ n i m j, (hosts n).randomUUID i = (hosts m).randomUUID j → n = m ∧ i = j
  fresh : ∀ n i, (hosts n).randomUUID i ∉ submittedTasks log

theorem applyLog_concat (hosts : Nat → Host) (db : Db) (log : List Committed) (c : Committed) :
    applyLog hosts db (log ++ [c]) =
      (handleEntryCommitted (hosts log.length) false (applyLog hosts db log) c).1 := by
  rw [applyLog_append]
  simp [applyLog]

theorem mem_workflow_ids_applyLog (hosts : Nat → Host) (log : List Committed) (w : WorkflowId) :
    w ∈ (applyLog hosts {} log).workflows.rows.map (·.id) ↔ w ∈ submittedWorkflows log := by
  induction log using List.reverseRecOn with
  | nil => simp [applyLog, submittedWorkflows]
  | append_singleton log c ih =>
    rw [applyLog_concat, submittedWorkflows, List.filterMap_append, List.mem_append,
      ← submittedWorkflows, ← ih]
    cases c with
    | foreign | unparsable => simp [handleEntryCommitted, Committed.entry?]
    | parsed e =>
      rw [handleEntryCommitted_parsed, mem_workflow_ids]
      simp [Committed.entry?]

/-- Every task row comes from a `task_submit` of the log or was drawn at one of its entries. -/
theorem mem_task_ids_applyLog {hosts : Nat → Host} {log : List Committed} {id : TaskId}
    (h : id ∈ (applyLog hosts {} log).tasks.rows.map (·.id)) :
    id ∈ submittedTasks log ∨ ∃ n < log.length, ∃ i, (hosts n).randomUUID i = id := by
  induction log using List.reverseRecOn with
  | nil => simp [applyLog] at h
  | append_singleton log c ih =>
    rw [applyLog_concat] at h
    have old (h : id ∈ (applyLog hosts {} log).tasks.rows.map (·.id)) :
        id ∈ submittedTasks (log ++ [c]) ∨
          ∃ n < (log ++ [c]).length, ∃ i, (hosts n).randomUUID i = id := by
      rw [submittedTasks, List.filterMap_append, List.length_append]
      refine (ih h).imp (List.mem_append_left _) ?_
      rintro ⟨n, hn, hi⟩
      exact ⟨n, by omega, hi⟩
    cases c with
    | foreign | unparsable => exact old h
    | parsed e =>
      rw [handleEntryCommitted_parsed] at h
      obtain h | h | h := mem_task_ids h
      · exact old h
      · left
        rw [submittedTasks, List.filterMap_append]
        exact List.mem_append_right _ (by simp [Committed.entry?, h])
      · exact .inr ⟨log.length, by simp, h⟩

/-- Whatever each node sees while it applies a prefix of the log, both hold the same rows. -/
def ReplicasAgree (log : List Committed) : Prop :=
  ∀ hosts₁ hosts₂, FreshIds hosts₁ log → FreshIds hosts₂ log → ∀ applied, applied <+: log →
    SameRows (applyLog hosts₁ {} applied) (applyLog hosts₂ {} applied)

def NoNewWorkflowTasks (log : List Committed) : Prop :=
  ∀ before p after, log = before ++ .parsed (.workflowSubmit p) :: after →
    p.definition.tasks = [] ∨ p.workflowId ∈ submittedWorkflows before

theorem NoNewWorkflowTasks.twins {log : List Committed} (h : NoNewWorkflowTasks log)
    (hosts₁ hosts₂ : Nat → Host) : Twins (applyLog hosts₁ {} log) (applyLog hosts₂ {} log) := by
  induction log using List.reverseRecOn with
  | nil => exact ⟨⟨rfl, rfl, rfl⟩, rfl⟩
  | append_singleton log c ih =>
    have ht := ih fun before p after hl => h before p (after ++ [c]) (by simp [hl])
    rw [applyLog_concat, applyLog_concat]
    cases c with
    | foreign | unparsable => exact ht
    | parsed e =>
      rw [handleEntryCommitted_parsed, handleEntryCommitted_parsed]
      apply ht.applyEntry
      rintro p rfl
      rw [mem_workflow_ids_applyLog]
      exact h log p [] rfl

theorem insertWorkflowTasks_head {host : Host} {w : WorkflowId} {db db' : Db} {id : TaskId}
    {t : TaskKey × WorkflowTaskDef} {ts : List (TaskId × TaskKey × WorkflowTaskDef)}
    {err : Option ApplyError} (h : insertWorkflowTasks host w db ((id, t) :: ts) = (db', err))
    (hn : id ∉ db.tasks.rows.map (·.id)) : id ∈ db'.tasks.rows.map (·.id) := by
  obtain ⟨key, d⟩ := t
  cases hi : db.tasks.insert (d.row id w key host.now) with
  | none => exact absurd (Table.insert_eq_none.mp hi) hn
  | some tasks =>
    have hid : id ∈ tasks.rows.map (·.id) := by simp [Table.insert_rows hi, WorkflowTaskDef.row]
    simp only [insertWorkflowTasks_cons, Db.insertTask, hi] at h
    split at h
    case h_1 db₁ e hd =>
      obtain ⟨rfl, -⟩ := Prod.mk.injEq .. ▸ h
      rw [(insertDependencies_spec hd).1]
      exact hid
    case h_2 db₁ hd =>
      obtain ⟨-, done, -, -, hrows, -⟩ := insertWorkflowTasks_spec h
      rw [hrows, List.map_append, (insertDependencies_spec hd).1]
      exact List.mem_append_left _ hid

def drawing (f : Nat → TaskId) (n : Nat) : Host :=
  ⟨"", 0, fun i => f (Nat.pair n i), fun _ _ _ => false, Lib.Binary64.nearestPower⟩

theorem freshIds_drawing {f : Nat → TaskId} {log : List Committed} (hf : Function.Injective f)
    (hn : ∀ n, f n ∉ submittedTasks log) : FreshIds (drawing f) log where
  once _ _ _ _ h := Nat.pair_eq_pair.mp (hf h)
  fresh _ _ := hn _

/-- A workflow that is new and has a task splits two replicas that draw different ids. -/
theorem replicas_split {log before after : List Committed} {p : WorkflowSubmitPayload}
    (hl : log = before ++ .parsed (.workflowSubmit p) :: after) (ht : p.definition.tasks ≠ [])
    (hw : p.workflowId ∉ submittedWorkflows before) : ¬ ReplicasAgree log := by
  intro ha
  obtain ⟨f, hf, hn⟩ := exists_fresh (submittedTasks log)
  let hosts₁ := drawing fun n => f (2 * n)
  let hosts₂ := drawing fun n => f (2 * n + 1)
  have hf₁ : FreshIds hosts₁ log :=
    freshIds_drawing (fun _ _ h => by have := hf h; omega) fun _ => hn _
  have hf₂ : FreshIds hosts₂ log :=
    freshIds_drawing (fun _ _ h => by have := hf h; omega) fun _ => hn _
  let applied := before ++ [Committed.parsed (.workflowSubmit p)]
  have hp : applied <+: log := ⟨after, by simp [applied, hl]⟩
  have hsub {l : List Committed} (hl : l <+: log) : submittedTasks l ⊆ submittedTasks log :=
    (hl.filterMap _).subset
  obtain ⟨t, ts, hts⟩ := List.exists_cons_of_ne_nil ht
  -- the first id the first replica draws for the workflow
  let id := (hosts₁ before.length).randomUUID 0
  have hnew : id ∉ (applyLog hosts₁ {} before).tasks.rows.map (·.id) := by
    intro hm
    obtain hm | ⟨n, hlt, i, hi⟩ := mem_task_ids_applyLog hm
    · exact hf₁.fresh _ _ (hsub ⟨_, hl.symm⟩ hm)
    · have := (hf₁.once _ _ _ _ hi).1
      omega
  have hin : id ∈ (applyLog hosts₁ {} applied).tasks.rows.map (·.id) := by
    rw [applyLog_concat, handleEntryCommitted_parsed]
    obtain ⟨-, -, hm⟩ | ⟨workflows, db', err, -, hins, hdb⟩ :=
      applyEntry_workflowSubmit (hosts₁ before.length) (applyLog hosts₁ {} before) p
    · exact absurd ((mem_workflow_ids_applyLog _ _ _).mp hm) hw
    · rw [hdb]
      rw [WorkflowDefinition.withIds, hts, List.zipIdx_cons, List.map_cons] at hins
      exact insertWorkflowTasks_head hins hnew
  rw [(ha hosts₁ hosts₂ hf₁ hf₂ applied hp).task_ids] at hin
  obtain hm | ⟨n, -, i, hi⟩ := mem_task_ids_applyLog hin
  · exact hf₁.fresh _ _ (hsub hp hm)
  · have := hf hi
    omega

theorem replicasAgree_iff (log : List Committed) : ReplicasAgree log ↔ NoNewWorkflowTasks log := by
  constructor
  · intro ha before p after hl
    by_contra h
    rw [not_or] at h
    exact replicas_split hl h.1 h.2 ha
  · rintro h hosts₁ hosts₂ - - applied ⟨rest, rfl⟩
    have ha : NoNewWorkflowTasks applied := by
      rintro before p after rfl
      exact h before p (after ++ rest) (by simp)
    exact (ha.twins hosts₁ hosts₂).toSameRows

/-- One workflow with one task: the id under which one node knows the task is
unknown to the other. -/
theorem replicas_split_by_one_task :
    let host (id : TaskId) : Host := ⟨"n", 0, fun _ => id, fun _ _ _ => false, Lib.Binary64.nearestPower⟩
    let log : List Committed :=
      [.parsed (.workflowSubmit ⟨"w", { name := "build", tasks := [("a", {})] }⟩)]
    ¬ ReplicasAgree log ∧
      ((applyLog (fun _ => host "u") {} log).getTask "u").isSome ∧
      (applyLog (fun _ => host "v") {} log).getTask "u" = none := by
  intro host log
  refine ⟨?_, by decide, by decide⟩
  exact @replicas_split log [] [] _ rfl (by decide) (by decide)

end ClaudeCluster.Tasks
