import ClaudeCluster.Tasks.WorkflowLaws

/-!
# The rows of a submitted workflow

After its `workflow_submit` a workflow stands in the tables as one row a task
and one row a dependency, and no entry but a `task_submit` under its id adds
another. Evaluations are read here in the words of the definition: by key, not
by row.
-/

namespace ClaudeCluster.Tasks

open Lib (Table)

/-- The tables hold exactly the tasks and the dependencies of the definition. -/
structure Represents (db : Db) (w : WorkflowId) (d : WorkflowDefinition) : Prop where
  known : w ∈ db.workflows.rows.map (·.id)
  keys : (db.workflowView w).tasks.map (·.taskKey) = d.tasks.map (some ·.1)
  deps : (db.workflowView w).deps = d.tasks.flatMap fun t => dependencyRows w t.1 t.2

structure Untouched (db : Db) (w : WorkflowId) : Prop where
  tasks : (db.workflowView w).tasks = []
  deps : (db.workflowView w).deps = []

section

variable {host : Host} {db db' : Db} {w : WorkflowId} {d : WorkflowDefinition} {e : Entry}

-- ---------------------------------------------------------------------------
-- Entries keep the rows
-- ---------------------------------------------------------------------------

theorem view_tasks_map {f : TaskRecord → TaskRecord} (hf : ∀ t, (f t).fixed = t.fixed)
    (h : db'.tasks.rows = db.tasks.rows.map f) :
    (db'.workflowView w).tasks = (db.workflowView w).tasks.map f := by
  have hw (t : TaskRecord) : (f t).workflowId = t.workflowId := congrArg (·.workflowId) (hf t)
  simp only [Db.workflowView, h, List.filter_map, Function.comp_def, hw]

theorem Represents.map {f : TaskRecord → TaskRecord} (h : Represents db w d)
    (hf : ∀ t, (f t).fixed = t.fixed) (ht : db'.tasks.rows = db.tasks.rows.map f)
    (hd : db'.dependencies = db.dependencies)
    (hw : db'.workflows.rows.map (·.id) = db.workflows.rows.map (·.id)) : Represents db' w d where
  known := hw ▸ h.known
  keys := by
    have hk (t : TaskRecord) : (f t).taskKey = t.taskKey := congrArg (·.taskKey) (hf t)
    rw [view_tasks_map hf ht, List.map_map, ← h.keys]
    exact List.map_congr_left fun t _ => hk t
  deps := by
    rw [← h.deps]
    simp only [Db.workflowView, hd]

theorem modified_fixed (e : Entry) (id : TaskId) (t : TaskRecord) :
    (if t.id = id then e.set host t else t).fixed = t.fixed := by
  split <;> simp

theorem Represents.pass (h : Represents db w d) {w' : WorkflowId} (hp : Passed host w' db db') :
    Represents db' w d :=
  h.map (db.advanceRow_fixed) hp.tasks hp.dependencies hp.workflow_ids

theorem view_append {ts : List TaskRecord} {ds : List TaskDependencyRecord}
    (ht : db'.tasks.rows = db.tasks.rows ++ ts) (hd : db'.dependencies.rows = db.dependencies.rows ++ ds)
    (hts : ∀ t ∈ ts, t.workflowId ≠ some w) (hds : ∀ r ∈ ds, r.workflowId ≠ w) :
    (db'.workflowView w).tasks = (db.workflowView w).tasks ∧
      (db'.workflowView w).deps = (db.workflowView w).deps := by
  have hn : ts.filter (·.workflowId = some w) = [] := by simpa using hts
  have hm : ds.filter (·.workflowId = w) = [] := by simpa using hds
  simp only [Db.workflowView, ht, hd, List.filter_append, hn, hm, List.append_nil, and_self]

theorem workflowSubmit_rows {ts : List (TaskId × TaskKey × WorkflowTaskDef)} {err : Option ApplyError}
    (h : insertWorkflowTasks host w db ts = (db', err)) :
    ∃ new deps, db'.tasks.rows = db.tasks.rows ++ new ∧
      db'.dependencies.rows = db.dependencies.rows ++ deps ∧
      (∀ t ∈ new, t.workflowId = some w) ∧ ∀ r ∈ deps, r.workflowId = w := by
  obtain ⟨-, done, -, -, hrows, deps, hdp, -, hdr⟩ := insertWorkflowTasks_spec h
  refine ⟨_, deps, hrows, hdr, ?_, ?_⟩
  · intro t ht
    obtain ⟨s, -, rfl⟩ := List.mem_map.mp ht
    rfl
  · intro r hr
    obtain ⟨s, -, hs⟩ := List.mem_flatMap.mp (hdp.subset hr)
    obtain ⟨dep, -, rfl⟩ := List.mem_map.mp hs
    rfl

/-- No entry changes which tasks and dependencies a workflow has, unless a
`task_submit` names it. -/
theorem Represents.applyEntry (h : Represents db w d)
    (he : ∀ p, e = .taskSubmit p → p.workflowId ≠ some w) :
    Represents (applyEntry host db e).db w d := by
  cases hid : e.taskId? with
  | some id =>
    obtain ⟨ht, hw, hd⟩ := @applyEntry_task host db _ _ hid
    exact h.map (modified_fixed e id) (by rw [ht]; rfl) hd (by rw [hw])
  | none =>
    cases e with
    | taskSubmit p =>
      obtain ⟨hdb, -⟩ | ⟨tasks, hi, ht, hw, hd⟩ := applyEntry_taskSubmit host db p
      · rwa [hdb]
      · obtain ⟨hvt, hvd⟩ := @view_append db _ w [p.row host.now] []
          (by rw [ht]; exact Table.insert_rows hi) (by rw [hd, List.append_nil])
          (by simpa [TaskSubmitPayload.row] using he p rfl) (by simp)
        exact ⟨by rw [hw]; exact h.known, by rw [hvt, h.keys], by rw [hvd, h.deps]⟩
    | workflowSubmit p =>
      obtain ⟨hdb, -, -⟩ | ⟨workflows, db', err, hi, hins, hdb⟩ := applyEntry_workflowSubmit host db p
      · rwa [hdb]
      · have hne : p.workflowId ≠ w := by
          rintro rfl
          exact Table.not_mem_of_insert hi h.known
        obtain ⟨new, deps, ht, hd, hnew, hdeps⟩ := workflowSubmit_rows hins
        obtain ⟨hvt, hvd⟩ := view_append ht hd (w := w)
          (fun t hm => by rw [hnew t hm]; simpa using hne) (fun r hm => by rw [hdeps r hm]; exact hne)
        refine ⟨?_, by rw [hdb, hvt]; exact h.keys, by rw [hdb, hvd]; exact h.deps⟩
        rw [mem_workflow_ids]
        exact .inl h.known
    | workflowAdvance p =>
      exact advance_of_pass host db p (P := (Represents · w d)) (fun _ _ h hp => h.pass hp) h
    | _ => cases hid

theorem WorkflowDefinition.withIds_tasks (d : WorkflowDefinition) (host : Host) :
    (d.withIds host).map Prod.snd = d.tasks := by
  simp only [withIds, List.map_map, Function.comp_def]
  exact List.zipIdx_map_fst 0 d.tasks

theorem represents_of_submit (hu : Untouched db w)
    (hok : ∃ a, (Tasks.applyEntry host db (.workflowSubmit ⟨w, d⟩)).outcome = .ok a) :
    Represents (Tasks.applyEntry host db (.workflowSubmit ⟨w, d⟩)).db w d ∧
      ((Tasks.applyEntry host db (.workflowSubmit ⟨w, d⟩)).db.workflowView w).tasks =
        (d.withIds host).map fun t => t.2.2.row t.1 w t.2.1 host.now := by
  obtain ⟨-, herr, -⟩ | ⟨workflows, db', err, hi, hins, hdb⟩ :=
    applyEntry_workflowSubmit host db ⟨w, d⟩
  · rw [herr] at hok
    obtain ⟨a, ha⟩ := hok
    cases ha
  · obtain rfl : err = none := by
      cases err with
      | none => rfl
      | some e =>
        rw [hdb] at hok
        obtain ⟨a, ha⟩ := hok
        cases ha
    obtain ⟨-, done, -, hdone, hrows, deps, -, hdeps, hdr⟩ := insertWorkflowTasks_spec hins
    obtain rfl := hdone rfl
    obtain rfl := hdeps rfl
    have hview : (db'.workflowView w).tasks =
        (d.withIds host).map fun t => t.2.2.row t.1 w t.2.1 host.now := by
      have hold : db.tasks.rows.filter (·.workflowId = some w) = [] := hu.tasks
      simp only [Db.workflowView, hrows, List.filter_append, hold, List.nil_append]
      rw [List.filter_eq_self]
      intro t ht
      obtain ⟨s, -, rfl⟩ := List.mem_map.mp ht
      simp [WorkflowTaskDef.row]
    rw [hdb]
    refine ⟨⟨?_, ?_, ?_⟩, hview⟩
    · rw [(insertWorkflowTasks_spec hins).1, Table.insert_rows hi]
      simp [WorkflowSubmitPayload.row]
    · rw [hview, List.map_map, ← d.withIds_tasks host, List.map_map]
      rfl
    · have hold : db.dependencies.rows.filter (·.workflowId = w) = [] := hu.deps
      simp only [Db.workflowView, hdr, List.filter_append, hold, List.nil_append]
      rw [List.filter_eq_self.mpr, ← d.withIds_tasks host, List.flatMap_map]
      intro r hr
      obtain ⟨s, -, hs⟩ := List.mem_flatMap.mp hr
      obtain ⟨dep, -, rfl⟩ := List.mem_map.mp hs
      simp

-- ---------------------------------------------------------------------------
-- Reading by key
-- ---------------------------------------------------------------------------

def Db.stateOf (db : Db) (w : WorkflowId) (key : TaskKey) : Option TaskEngineState :=
  (taskByKey (db.workflowView w).tasks key).map (·.state)

variable {key : TaskKey} {def_ : WorkflowTaskDef} {t u : TaskRecord}

theorem Represents.row_unique (h : Represents db w d) (ht : t ∈ (db.workflowView w).tasks)
    (hu : u ∈ (db.workflowView w).tasks) (hk : t.taskKey = u.taskKey) : t = u := by
  have hn : ((db.workflowView w).tasks.map (·.taskKey)).Nodup := by
    rw [h.keys, ← Function.comp_def, ← List.map_map]
    exact d.keys_nodup.map (Option.some_injective _)
  exact List.inj_on_of_nodup_map hn ht hu hk

theorem Represents.exists_row (h : Represents db w d) (hk : (key, def_) ∈ d.tasks) :
    ∃ t ∈ (db.workflowView w).tasks, t.taskKey = some key := by
  have hm : some key ∈ (db.workflowView w).tasks.map (·.taskKey) := by
    rw [h.keys]
    exact List.mem_map.mpr ⟨_, hk, rfl⟩
  simpa using hm

theorem Represents.exists_def (h : Represents db w d) (ht : t ∈ (db.workflowView w).tasks) :
    ∃ key def_, (key, def_) ∈ d.tasks ∧ t.taskKey = some key := by
  have hm : t.taskKey ∈ d.tasks.map (some ·.1) := h.keys ▸ List.mem_map_of_mem ht
  obtain ⟨⟨key, def_⟩, hd, he⟩ := List.mem_map.mp hm
  exact ⟨key, def_, hd, he.symm⟩

theorem truthy_eq_some {s : Option String} {x : String} : truthy s = some x ↔ s = some x ∧ x ≠ "" := by
  simp [truthy, Option.filter_eq_some_iff]

theorem Represents.taskByKey_eq_some (h : Represents db w d) :
    taskByKey (db.workflowView w).tasks key = some u ↔
      u ∈ (db.workflowView w).tasks ∧ u.taskKey = some key ∧ key ≠ "" := by
  unfold taskByKey
  constructor
  · intro hu
    have hm := List.mem_of_getLast? hu
    simpa [truthy_eq_some] using hm
  · rintro ⟨hu, hk, hne⟩
    have hm : u ∈ (db.workflowView w).tasks.filter fun t => truthy t.taskKey = some key := by
      simp only [List.mem_filter, decide_eq_true_eq, truthy_eq_some]
      exact ⟨hu, hk, hne⟩
    cases hs : ((db.workflowView w).tasks.filter fun t => truthy t.taskKey = some key).getLast? with
    | none => exact absurd (List.getLast?_eq_none_iff.mp hs) (List.ne_nil_of_mem hm)
    | some s =>
      have hsm := List.mem_of_getLast? hs
      simp only [List.mem_filter, decide_eq_true_eq, truthy_eq_some] at hsm
      rw [h.row_unique hsm.1 hu (hsm.2.1.trans hk.symm)]

theorem Represents.stateOf_eq_some (h : Represents db w d) {st : TaskEngineState} :
    db.stateOf w key = some st ↔
      ∃ u ∈ (db.workflowView w).tasks, u.taskKey = some key ∧ key ≠ "" ∧ u.state = st := by
  simp only [Db.stateOf, Option.map_eq_some_iff, h.taskByKey_eq_some]
  constructor
  · rintro ⟨u, ⟨hu, hk, hne⟩, hs⟩
    exact ⟨u, hu, hk, hne, hs⟩
  · rintro ⟨u, hu, hk, hne, hs⟩
    exact ⟨u, ⟨hu, hk, hne⟩, hs⟩

theorem mem_dependencyRows {r : TaskDependencyRecord} (h : r ∈ dependencyRows w key def_) :
    r.taskKey = key := by
  obtain ⟨dep, -, rfl⟩ := List.mem_map.mp h
  rfl

theorem filter_dependencyRows {tasks : List (TaskKey × WorkflowTaskDef)}
    (hn : (tasks.map Prod.fst).Nodup) (hk : (key, def_) ∈ tasks) :
    (tasks.flatMap fun t => dependencyRows w t.1 t.2).filter (·.taskKey = key) =
      dependencyRows w key def_ := by
  induction tasks with
  | nil => cases hk
  | cons t tasks ih =>
    obtain ⟨hnt, hn⟩ := List.nodup_cons.mp hn
    rw [List.flatMap_cons, List.filter_append]
    have other {k : TaskKey} {ts : List (TaskKey × WorkflowTaskDef)} (hne : k ∉ ts.map Prod.fst) :
        (ts.flatMap fun t => dependencyRows w t.1 t.2).filter (·.taskKey = k) = [] := by
      rw [List.filter_eq_nil_iff]
      intro r hr
      obtain ⟨s, hs, hr⟩ := List.mem_flatMap.mp hr
      rw [mem_dependencyRows hr, decide_eq_true_eq]
      rintro rfl
      exact hne (List.mem_map_of_mem hs)
    cases hk with
    | head =>
      rw [other hnt, List.append_nil, List.filter_eq_self]
      intro r hr
      simp [mem_dependencyRows hr]
    | tail _ hk =>
      have hne : key ∉ [t].map Prod.fst := by
        simp only [List.map_cons, List.map_nil, List.mem_singleton]
        rintro rfl
        exact hnt (List.mem_map.mpr ⟨_, hk, rfl⟩)
      have := other hne
      simp only [List.flatMap_cons, List.flatMap_nil, List.append_nil] at this
      rw [this, List.nil_append, ih hn hk]

theorem Represents.taskDeps (h : Represents db w d) (hk : (key, def_) ∈ d.tasks) :
    (db.workflowView w).taskDeps key = dependencyRows w key def_ := by
  rw [WorkflowView.taskDeps, h.deps]
  exact filter_dependencyRows d.keys_nodup hk

theorem Represents.allDepsTerminal (h : Represents db w d) (hk : (key, def_) ∈ d.tasks) :
    (db.workflowView w).allDepsTerminal key =
      def_.deps.all fun dep => (db.stateOf w dep).any TaskEngineState.isTerminal := by
  rw [WorkflowView.allDepsTerminal, h.taskDeps hk, dependencyRows, List.all_map]
  simp [Function.comp_def, WorkflowView.depIn, Db.stateOf, Option.any_map]

theorem Represents.shouldRun (h : Represents db w d) (hk : (key, def_) ∈ d.tasks)
    (hc : truthy def_.condition = none) :
    (db.workflowView w).shouldRun host key =
      def_.deps.all fun dep => db.stateOf w dep = some .completed := by
  have hany : (dependencyRows w key def_).any (fun r => (truthy r.condition).isSome) = false := by
    simp [dependencyRows, hc]
  rw [WorkflowView.shouldRun, h.taskDeps hk, hany, if_neg (by simp), dependencyRows, List.all_map]
  congr 1
  funext dep
  rw [Bool.eq_iff_iff]
  simp [WorkflowView.depIn, Db.stateOf, Option.any_eq_true]

-- ---------------------------------------------------------------------------
-- A pass, by key
-- ---------------------------------------------------------------------------

def WorkflowView.keyVerdict (host : Host) (v : WorkflowView) (key : TaskKey) : Option Bool :=
  if v.allDepsTerminal key then some (v.shouldRun host key) else none

def TaskEngineState.moved (st : TaskEngineState) (verdict : Option Bool) : TaskEngineState :=
  if st = .pending then
    match verdict with
    | some true => .queued
    | some false => .skipped
    | none => .pending
  else st

theorem WorkflowView.move_state {v : WorkflowView} (hk : t.taskKey = some key) (hne : key ≠ "") :
    (v.move host t).state = t.state.moved (v.keyVerdict host key) := by
  unfold move verdict evaluatedKey TaskEngineState.moved keyVerdict
  by_cases hp : t.state = .pending
  · have htr : truthy t.taskKey = some key := truthy_eq_some.mpr ⟨hk, hne⟩
    simp only [hp, if_true, htr, Option.bind_some]
    cases ha : v.allDepsTerminal key with
    | false => simpa using hp
    | true => cases v.shouldRun host key <;> rfl
  · simp [hp]

theorem Represents.stateOf_pass (h : Represents db w d) (hp : Passed host w db db') :
    db'.stateOf w key =
      (db.stateOf w key).map fun st => st.moved ((db.workflowView w).keyVerdict host key) := by
  have hview : (db'.workflowView w).tasks =
      (db.workflowView w).tasks.map (db.advanceRow host w) :=
    view_tasks_map db.advanceRow_fixed hp.tasks
  cases hs : taskByKey (db.workflowView w).tasks key with
  | some t =>
    obtain ⟨ht, hk, hne⟩ := h.taskByKey_eq_some.mp hs
    have hs' : taskByKey (db'.workflowView w).tasks key = some (db.advanceRow host w t) := by
      rw [(h.pass hp).taskByKey_eq_some, hview]
      exact ⟨List.mem_map_of_mem ht, by simpa using hk, hne⟩
    simp only [Db.stateOf, hs, hs', Option.map_some, Db.advanceRow, (Db.mem_workflowView.mp ht).2,
      if_true, WorkflowView.move_state hk hne]
  | none =>
    have hs' : taskByKey (db'.workflowView w).tasks key = none := by
      rw [Option.eq_none_iff_forall_ne_some]
      intro t' ht'
      obtain ⟨hm, hk, hne⟩ := (h.pass hp).taskByKey_eq_some.mp ht'
      rw [hview] at hm
      obtain ⟨t, ht, rfl⟩ := List.mem_map.mp hm
      rw [h.taskByKey_eq_some.mpr ⟨ht, by simpa using hk, hne⟩] at hs
      cases hs
    simp [Db.stateOf, hs, hs']

end

end ClaudeCluster.Tasks
