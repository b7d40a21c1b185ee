import Mathlib.Data.Set.Finite.Basic
import Mathlib.Data.Set.Finite.Lattice
import Mathlib.Data.Fintype.EquivFin
import ClaudeCluster.Tasks.Committed

/-!
# What the workflow entries do to the tables

`workflow_submit` appends rows: those of the definition in order, up to the
first statement that is rejected. A definition of the declared type has what
the tables ask for, so that only a repeated key is. `workflow_advance` moves pending tasks of
its workflow, each once and as the evaluation of its pass decides, and settles
the row of the workflow. Both are stated on whole tables.
-/

namespace ClaudeCluster.Tasks

open Lib (Table)

-- ---------------------------------------------------------------------------
-- workflow_submit
-- ---------------------------------------------------------------------------

def WorkflowTaskDef.deps (d : WorkflowTaskDef) : List TaskKey := d.dependsOn.getD []

def WorkflowTaskDef.row (d : WorkflowTaskDef) (taskId : TaskId) (workflowId : WorkflowId)
    (taskKey : TaskKey) (now : Time) : TaskRecord where
  id := taskId
  workflowId := some workflowId
  taskKey := some taskKey
  type := d.type
  state := if d.deps.isEmpty then .queued else .pending
  priority := d.priority.getD 0
  spec := d.spec
  constraints := d.constraints
  retryPolicy := d.retryPolicy
  attempt := 0
  createdAt := now

def WorkflowDefinition.withIds (host : Host) (d : WorkflowDefinition) :
    List (TaskId × TaskKey × WorkflowTaskDef) :=
  d.tasks.zipIdx.map fun (t, i) => (host.randomUUID i, t)

def insertDependencies (workflowId : WorkflowId) (taskKey : TaskKey) (condition : Option String)
    (db : Db) (deps : List TaskKey) : Db × Option ApplyError :=
  insertClientDependencies workflowId taskKey condition db (deps.map some)

def insertWorkflowTasks (host : Host) (workflowId : WorkflowId) (db : Db)
    (ts : List (TaskId × TaskKey × WorkflowTaskDef)) : Db × Option ApplyError :=
  insertClientTasks host workflowId db (ts.map fun t => (t.1, t.2.1, t.2.2.sent))

section Submit

variable {host : Host} {db db' : Db} {w : WorkflowId} {err : Option ApplyError}

theorem WorkflowTaskDef.deps_sent (d : WorkflowTaskDef) : d.sent.deps = d.deps.map some := by
  unfold ClientTaskDef.deps sent deps
  cases d.dependsOn <;> rfl

theorem WorkflowTaskDef.row_sent (d : WorkflowTaskDef) (id : TaskId) (key : TaskKey) (now : Time) :
    d.sent.row id w key now = .ok (d.row id w key now) := by
  simp only [ClientTaskDef.row, deps_sent, List.isEmpty_map]
  rfl

theorem insertDependencies_cons (key : TaskKey) (condition : Option String) (dep : TaskKey)
    (deps : List TaskKey) :
    insertDependencies w key condition db (dep :: deps) =
      match db.insertDependency ⟨w, key, dep, condition⟩ with
      | .error e => (db, some e)
      | .ok db => insertDependencies w key condition db deps := rfl

theorem insertWorkflowTasks_cons (id : TaskId) (key : TaskKey) (d : WorkflowTaskDef)
    (ts : List (TaskId × TaskKey × WorkflowTaskDef)) :
    insertWorkflowTasks host w db ((id, key, d) :: ts) =
      match db.insertTask (d.row id w key host.now) with
      | .error e => (db, some e)
      | .ok db =>
        let db := db.insertEvent id .submitted host.nodeId none host.now
        match insertDependencies w key d.condition db d.deps with
        | (db, some e) => (db, some e)
        | (db, none) => insertWorkflowTasks host w db ts := by
  simp only [insertWorkflowTasks, insertDependencies, List.map_cons, insertClientTasks,
    WorkflowTaskDef.row_sent, WorkflowTaskDef.deps_sent]
  rfl

theorem WorkflowDefinition.withIds_sent (d : WorkflowDefinition) :
    d.sent.withIds host = (d.withIds host).map fun t => (t.1, t.2.1, t.2.2.sent) := by
  simp [ClientDefinition.withIds, withIds, sent, List.zipIdx_map]

def dependencyRows (w : WorkflowId) (key : TaskKey) (d : WorkflowTaskDef) :
    List TaskDependencyRecord :=
  d.deps.map fun dep => ⟨w, key, dep, d.condition⟩

theorem insertDependencies_spec {key : TaskKey} {condition : Option String} {deps : List TaskKey}
    (h : insertDependencies w key condition db deps = (db', err)) :
    db'.tasks = db.tasks ∧ db'.workflows = db.workflows ∧
      ∃ done, done <+: deps ∧ (err = none → done = deps) ∧
        db'.dependencies.rows =
          db.dependencies.rows ++ done.map fun dep => ⟨w, key, dep, condition⟩ := by
  induction deps generalizing db with
  | nil =>
    cases h
    exact ⟨rfl, rfl, [], List.nil_prefix, fun _ => rfl, by simp⟩
  | cons dep deps ih =>
    simp only [insertDependencies_cons, Db.insertDependency] at h
    cases hi : db.dependencies.insert ⟨w, key, dep, condition⟩ with
    | none =>
      simp only [hi, Prod.mk.injEq] at h
      obtain ⟨rfl, rfl⟩ := h
      exact ⟨rfl, rfl, [], List.nil_prefix, by simp, by simp⟩
    | some dependencies =>
      simp only [hi] at h
      obtain ⟨ht, hw, done, hp, hd, hr⟩ := ih h
      refine ⟨ht, hw, dep :: done, List.cons_prefix_cons.mpr ⟨rfl, hp⟩, ?_, ?_⟩
      · intro he
        rw [hd he]
      · rw [hr, Table.insert_rows hi]
        simp

/-- Nothing else stands in the tables of tasks and dependencies than before and
the rows of `done`, the tasks whose row got in; the last of them may lack
dependencies when an insert was rejected. -/
theorem insertWorkflowTasks_spec {ts : List (TaskId × TaskKey × WorkflowTaskDef)}
    (h : insertWorkflowTasks host w db ts = (db', err)) :
    db'.workflows = db.workflows ∧
      ∃ done, done <+: ts ∧ (err = none → done = ts) ∧
        db'.tasks.rows = db.tasks.rows ++ done.map (fun t => t.2.2.row t.1 w t.2.1 host.now) ∧
        ∃ deps, deps <+: done.flatMap (fun t => dependencyRows w t.2.1 t.2.2) ∧
          (err = none → deps = done.flatMap fun t => dependencyRows w t.2.1 t.2.2) ∧
          db'.dependencies.rows = db.dependencies.rows ++ deps := by
  induction ts generalizing db with
  | nil =>
    cases h
    exact ⟨rfl, [], List.nil_prefix, fun _ => rfl, by simp, [], List.nil_prefix, fun _ => rfl,
      by simp⟩
  | cons t ts ih =>
    obtain ⟨id, key, d⟩ := t
    simp only [insertWorkflowTasks_cons, Db.insertTask] at h
    cases hi : db.tasks.insert (d.row id w key host.now) with
    | none =>
      simp only [hi, Prod.mk.injEq] at h
      obtain ⟨rfl, rfl⟩ := h
      exact ⟨rfl, [], List.nil_prefix, by simp, by simp, [], List.nil_prefix,
        by simp, by simp⟩
    | some tasks =>
      simp only [hi] at h
      split at h
      case h_1 db₁ e hd =>
        obtain ⟨rfl, rfl⟩ := Prod.mk.injEq .. ▸ h
        obtain ⟨ht, hw, done, hp, -, hr⟩ := insertDependencies_spec hd
        refine ⟨hw, [(id, key, d)], List.cons_prefix_cons.mpr ⟨rfl, List.nil_prefix⟩,
          by simp, ?_, done.map fun dep => ⟨w, key, dep, d.condition⟩, ?_,
          by simp, hr⟩
        · rw [ht]
          exact Table.insert_rows hi
        · simpa [dependencyRows] using hp.map _
      case h_2 db₁ hd =>
        obtain ⟨ht, hw, done, -, hdone, hr⟩ := insertDependencies_spec hd
        obtain ⟨hw', done', hp, hdone', hrows, deps, hdp, hdeps, hdr⟩ := ih h
        refine ⟨hw'.trans hw, (id, key, d) :: done', List.cons_prefix_cons.mpr ⟨rfl, hp⟩, ?_, ?_,
          dependencyRows w key d ++ deps, ?_, ?_, ?_⟩
        · intro he
          rw [hdone' he]
        · rw [hrows, ht]
          simp [Db.insertEvent, Table.insert_rows hi]
        · rw [List.flatMap_cons]
          exact (List.prefix_append_right_inj _).mpr hdp
        · intro he
          rw [List.flatMap_cons, ← hdeps he]
        · rw [hdr, hr, hdone rfl]
          simp [Db.insertEvent, dependencyRows]

theorem insertDependencies_fresh {key : TaskKey} {condition : Option String} {deps : List TaskKey}
    (hn : deps.Nodup) (hf : ∀ dep ∈ deps, (w, key, dep) ∉ db.dependencies.rows.map (·.key)) :
    (insertDependencies w key condition db deps).2 = none := by
  induction deps generalizing db with
  | nil => rfl
  | cons dep deps ih =>
    obtain ⟨hnd, hn⟩ := List.nodup_cons.mp hn
    simp only [insertDependencies_cons, Db.insertDependency]
    cases hi : db.dependencies.insert ⟨w, key, dep, condition⟩ with
    | none => exact absurd (Table.insert_eq_none.mp hi) (hf dep (by simp))
    | some dependencies =>
      apply ih hn
      intro dep' hd hm
      rw [Table.insert_rows hi, List.map_append, List.mem_append] at hm
      obtain hm | hm := hm
      · exact hf dep' (List.mem_cons_of_mem _ hd) hm
      · obtain rfl : dep' = dep := by simpa [TaskDependencyRecord.key] using hm
        exact hnd hd

theorem insertDependencies_ok {key : TaskKey} {condition : Option String} {deps : List TaskKey}
    (hn : deps.Nodup) (hf : ∀ r ∈ db.dependencies.rows, r.workflowId = w → r.taskKey ≠ key)
    (h : insertDependencies w key condition db deps = (db', err)) : err = none := by
  have hnone := @insertDependencies_fresh db w key condition deps hn ?_
  · rwa [h] at hnone
  · intro dep _ hm
    obtain ⟨r, hr, he⟩ := List.mem_map.mp hm
    obtain ⟨hw, hk, -⟩ : r.workflowId = w ∧ r.taskKey = key ∧ r.dependsOnKey = dep := by
      simpa [TaskDependencyRecord.key] using he
    exact hf r hr hw hk

theorem insertWorkflowTasks_ok {ts : List (TaskId × TaskKey × WorkflowTaskDef)}
    (hid : (ts.map Prod.fst).Nodup) (hkey : (ts.map (·.2.1)).Nodup)
    (hdep : ∀ t ∈ ts, t.2.2.deps.Nodup) (hnew : ∀ t ∈ ts, t.1 ∉ db.tasks.rows.map (·.id))
    (hfree : ∀ t ∈ ts, ∀ r ∈ db.dependencies.rows, r.workflowId = w → r.taskKey ≠ t.2.1)
    (h : insertWorkflowTasks host w db ts = (db', err)) : err = none := by
  induction ts generalizing db with
  | nil =>
    cases h
    rfl
  | cons t ts ih =>
    obtain ⟨id, key, d⟩ := t
    obtain ⟨hidn, hid⟩ := List.nodup_cons.mp hid
    obtain ⟨hkn, hkey⟩ := List.nodup_cons.mp hkey
    simp only [insertWorkflowTasks_cons, Db.insertTask] at h
    cases hi : db.tasks.insert (d.row id w key host.now) with
    | none => exact absurd (Table.insert_eq_none.mp hi) (hnew (id, key, d) (by simp))
    | some tasks =>
      simp only [hi] at h
      split at h
      case h_1 db₁ e hd =>
        have hfirst : (id, key, d) ∈ (id, key, d) :: ts := List.mem_cons_self
        cases insertDependencies_ok (hdep _ hfirst) (by exact hfree _ hfirst) hd
      case h_2 db₁ hd =>
        obtain ⟨ht, -, done, -, -, hr⟩ := insertDependencies_spec hd
        refine ih hid hkey (fun t ht => hdep t (List.mem_cons_of_mem _ ht)) ?_ ?_ h
        · intro t hts hm
          rw [ht] at hm
          simp only [Db.insertEvent, Table.insert_rows hi, List.map_append, List.mem_append] at hm
          obtain hm | hm := hm
          · exact hnew t (List.mem_cons_of_mem _ hts) hm
          · obtain rfl : t.1 = id := by simpa [WorkflowTaskDef.row] using hm
            exact hidn (List.mem_map.mpr ⟨t, hts, rfl⟩)
        · intro t hts r hm hw
          rw [hr, List.mem_append] at hm
          obtain hm | hm := hm
          · exact hfree t (List.mem_cons_of_mem _ hts) r hm hw
          · obtain ⟨dep, -, rfl⟩ := List.mem_map.mp hm
            rintro (rfl : key = _)
            exact hkn (List.mem_map.mpr ⟨t, hts, rfl⟩)

def WorkflowSubmitPayload.row (p : WorkflowSubmitPayload) (now : Time) : WorkflowRecord :=
  ⟨p.workflowId, p.definition.name, .running, p.definition.sent, "\x7b\x7d", now, none⟩

theorem applyEntry_workflowSubmit (host : Host) (db : Db) (p : WorkflowSubmitPayload) :
    ((applyEntry host db (.workflowSubmit p)).db = db ∧
        (applyEntry host db (.workflowSubmit p)).outcome =
          .error (.uniqueConstraint "te_workflows") ∧
        p.workflowId ∈ db.workflows.rows.map (·.id)) ∨
      ∃ workflows db' err, db.workflows.insert (p.row host.now) = some workflows ∧
        insertWorkflowTasks host p.workflowId { db with workflows } (p.definition.withIds host) =
          (db', err) ∧
        applyEntry host db (.workflowSubmit p) =
          ⟨db', err.elim (.ok (some (.schedule none none))) .error⟩ := by
  have hrow : p.sent.row host.now = .ok (p.row host.now) := rfl
  have hids : p.sent.definition.withIds host =
      (p.definition.withIds host).map fun t => (t.1, t.2.1, t.2.2.sent) :=
    p.definition.withIds_sent
  simp only [applyEntry, handleWorkflowSubmit, hrow, hids, Except.bind, Db.insertWorkflow]
  cases hi : db.workflows.insert (p.row host.now) with
  | none =>
    have hm : p.workflowId ∈ db.workflows.rows.map (·.id) := Table.insert_eq_none.mp hi
    exact .inl ⟨rfl, rfl, hm⟩
  | some workflows =>
    refine .inr ⟨workflows, _, _, rfl, rfl, ?_⟩
    dsimp only [insertWorkflowTasks, WorkflowSubmitPayload.sent]
    split <;> simp_all

end Submit

-- ---------------------------------------------------------------------------
-- workflow_advance
-- ---------------------------------------------------------------------------

section Advance

variable {host : Host} {db : Db} {w : WorkflowId}

def TaskRecord.queue (t : TaskRecord) : TaskRecord := { t with state := .queued }

def TaskRecord.skip (now : Time) (t : TaskRecord) : TaskRecord :=
  { t with state := .skipped, completedAt := some now }

theorem foldl_queueReady (detail : String) (ids : List TaskId) (db : Db) :
    (ids.foldl (queueReady host detail) db).tasks.rows =
        db.tasks.rows.map (fun t => if t.id ∈ ids then t.queue else t) ∧
      (ids.foldl (queueReady host detail) db).workflows = db.workflows ∧
      (ids.foldl (queueReady host detail) db).dependencies = db.dependencies := by
  induction ids generalizing db with
  | nil => simp
  | cons id ids ih =>
    obtain ⟨ht, hw, hd⟩ := ih (queueReady host detail db id)
    refine ⟨?_, hw, hd⟩
    rw [List.foldl_cons, ht]
    simp only [queueReady, Db.insertEvent, Db.updateTaskState, Db.updateTask, Table.rows_modify,
      List.map_map]
    apply List.map_congr_left
    intro t _
    by_cases h : t.id = id <;> simp [h, TaskRecord.queue]

theorem foldl_skipTask (detail : String) (ids : List TaskId) (db : Db) :
    (ids.foldl (skipTask host detail) db).tasks.rows =
        db.tasks.rows.map (fun t => if t.id ∈ ids then t.skip host.now else t) ∧
      (ids.foldl (skipTask host detail) db).workflows = db.workflows ∧
      (ids.foldl (skipTask host detail) db).dependencies = db.dependencies := by
  induction ids generalizing db with
  | nil => simp
  | cons id ids ih =>
    obtain ⟨ht, hw, hd⟩ := ih (skipTask host detail db id)
    refine ⟨?_, hw, hd⟩
    rw [List.foldl_cons, ht]
    simp only [skipTask, Db.insertEvent, Db.updateTask, Table.rows_modify, List.map_map]
    apply List.map_congr_left
    intro t _
    by_cases h : t.id = id <;> simp [h, TaskRecord.skip]

def WorkflowView.move (host : Host) (v : WorkflowView) (t : TaskRecord) : TaskRecord :=
  match v.verdict host t with
  | some true => t.queue
  | some false => t.skip host.now
  | none => t

def Db.advanceRow (host : Host) (db : Db) (w : WorkflowId) (t : TaskRecord) : TaskRecord :=
  if t.workflowId = some w then (db.workflowView w).move host t else t

@[simp] theorem Db.advanceRow_fixed (t : TaskRecord) :
    (db.advanceRow host w t).fixed = t.fixed := by
  unfold advanceRow WorkflowView.move
  split <;> first | rfl | (split <;> rfl)

@[simp] theorem Db.advanceRow_id (t : TaskRecord) : (db.advanceRow host w t).id = t.id :=
  congrArg (·.id) (db.advanceRow_fixed t)

@[simp] theorem Db.advanceRow_taskKey (t : TaskRecord) :
    (db.advanceRow host w t).taskKey = t.taskKey :=
  congrArg (·.taskKey) (db.advanceRow_fixed t)

@[simp] theorem Db.mem_workflowView {t : TaskRecord} :
    t ∈ (db.workflowView w).tasks ↔ t ∈ db.tasks.rows ∧ t.workflowId = some w := by
  simp [workflowView]

theorem Db.mem_verdict_ids {t : TaskRecord} (ht : t ∈ db.tasks.rows) (b : Bool) :
    t.id ∈ (((db.workflowView w).tasks.filter
        ((db.workflowView w).verdict host · = some b)).map (·.id)) ↔
      t.workflowId = some w ∧ (db.workflowView w).verdict host t = some b := by
  simp only [List.mem_map, List.mem_filter, mem_workflowView, decide_eq_true_eq]
  constructor
  · rintro ⟨s, ⟨⟨hs, hw⟩, hv⟩, hid⟩
    obtain rfl : s = t := List.inj_on_of_nodup_map db.tasks.keys_nodup hs ht hid
    exact ⟨hw, hv⟩
  · rintro ⟨hw, hv⟩
    exact ⟨t, ⟨⟨ht, hw⟩, hv⟩, rfl⟩

/-- The tables before and after one pass. -/
structure Passed (host : Host) (w : WorkflowId) (db db' : Db) : Prop where
  tasks : db'.tasks.rows = db.tasks.rows.map (db.advanceRow host w)
  dependencies : db'.dependencies = db.dependencies
  workflows : db'.workflows =
    if (db.workflowView w).tasks.all (·.state.isTerminal) then
      db.workflows.modify w fun r =>
        { r with state := (evaluateWorkflow host db w).workflowState, completedAt := some host.now }
    else db.workflows

theorem writeEvaluation_passed (ready skipped : String) :
    Passed host w db (writeEvaluation host w ready skipped (evaluateWorkflow host db w) db) := by
  generalize hdb' : writeEvaluation host w ready skipped (evaluateWorkflow host db w) db = db'
  let r := evaluateWorkflow host db w
  obtain ⟨hq, hqw, hqd⟩ := @foldl_queueReady host ready r.readyTasks db
  obtain ⟨hs, hsw, hsd⟩ :=
    @foldl_skipTask host skipped r.skippedTasks (r.readyTasks.foldl (queueReady host ready) db)
  have hrows : db'.tasks.rows = db.tasks.rows.map (db.advanceRow host w) := by
    have hdb : db'.tasks.rows = (r.skippedTasks.foldl (skipTask host skipped)
        (r.readyTasks.foldl (queueReady host ready) db)).tasks.rows := by
      simp only [← hdb', writeEvaluation]
      split <;> rfl
    rw [hdb, hs, hq, List.map_map]
    apply List.map_congr_left
    intro t ht
    have hready : t.id ∈ r.readyTasks ↔ _ := @Db.mem_verdict_ids host db w t ht true
    have hskip : t.id ∈ r.skippedTasks ↔ _ := @Db.mem_verdict_ids host db w t ht false
    have hid : (if t.id ∈ r.readyTasks then t.queue else t).id = t.id := by split <;> rfl
    simp only [Function.comp, hid, hskip]
    simp only [hready, Db.advanceRow, WorkflowView.move]
    by_cases hw : t.workflowId = some w
    · cases hv : (db.workflowView w).verdict host t with
      | none => simp [hw]
      | some b => cases b <;> simp [hw]
    · simp [hw]
  refine ⟨hrows, ?_, ?_⟩
  · simp only [← hdb', writeEvaluation]
    split <;> simp [Db.setWorkflowState, r, hsd, hqd]
  · simp only [← hdb', writeEvaluation]
    change (if (db.workflowView w).tasks.all (·.state.isTerminal) then _ else _ : Db).workflows = _
    split
    · simp only [Db.setWorkflowState]
      rw [hsw, hqw]
    · rw [hsw, hqw]

theorem firstPass_passed : Passed host w db (firstPass host db w) := writeEvaluation_passed _ _

theorem cascadePass_passed : Passed host w db (cascadePass host db w) := writeEvaluation_passed _ _

theorem applyEntry_workflowAdvance (host : Host) (db : Db) (p : WorkflowAdvancePayload) :
    (applyEntry host db (.workflowAdvance p)).db =
      if (evaluateWorkflow host db p.workflowId).skippedTasks ≠ [] ∧
          (evaluateWorkflow host db p.workflowId).workflowComplete = false then
        cascadePass host (firstPass host db p.workflowId) p.workflowId
      else firstPass host db p.workflowId := by
  simp only [applyEntry, handleWorkflowAdvance]
  split <;> split <;> simp_all

theorem advance_of_pass {P : Db → Prop} (host : Host) (db : Db) (p : WorkflowAdvancePayload)
    (hpass : ∀ db db', P db → Passed host p.workflowId db db' → P db') (h : P db) :
    P (applyEntry host db (.workflowAdvance p)).db := by
  have h₁ := hpass _ _ h firstPass_passed
  rw [applyEntry_workflowAdvance]
  split
  · exact hpass _ _ h₁ cascadePass_passed
  · exact h₁

end Advance

-- ---------------------------------------------------------------------------
-- Advances that change nothing
-- ---------------------------------------------------------------------------

section Settled

variable {host : Host} {db db' : Db} {w : WorkflowId}

def Db.advance (host : Host) (db : Db) (w : WorkflowId) : Db :=
  (applyEntry host db (.workflowAdvance { workflowId := w })).db

def Db.taskStates (db : Db) : List (TaskId × TaskEngineState) :=
  db.tasks.rows.map fun t => (t.id, t.state)

def Db.workflowStates (db : Db) : List (WorkflowId × WorkflowState) :=
  db.workflows.rows.map fun r => (r.id, r.state)

/-- An advance would change no task state and no workflow state. -/
def Db.Settled (host : Host) (db : Db) (w : WorkflowId) : Prop :=
  (db.advance host w).taskStates = db.taskStates ∧
    (db.advance host w).workflowStates = db.workflowStates

instance : Decidable (db.Settled host w) := inferInstanceAs (Decidable (_ ∧ _))

theorem Db.advanceRow_of_not_pending {t : TaskRecord} (h : t.state ≠ .pending) :
    db.advanceRow host w t = t := by
  simp [advanceRow, WorkflowView.move, WorkflowView.verdict, WorkflowView.evaluatedKey, h]

theorem Db.advanceRow_eq_self_iff {t : TaskRecord} (hw : t.workflowId = some w) :
    (db.advanceRow host w t).state = t.state ↔ (db.workflowView w).verdict host t = none := by
  by_cases hp : t.state = .pending
  · simp only [advanceRow, hw, if_true, WorkflowView.move]
    cases (db.workflowView w).verdict host t with
    | none => simp
    | some b => cases b <;> simp [TaskRecord.queue, TaskRecord.skip, hp]
  · simp [advanceRow_of_not_pending hp, WorkflowView.verdict, WorkflowView.evaluatedKey, hp]

/-- What the first pass moves, the second leaves. -/
theorem advance_row (host : Host) (db : Db) (w : WorkflowId) {t : TaskRecord}
    (ht : t ∈ db.tasks.rows) (hm : (db.advanceRow host w t).state ≠ t.state) :
    db.advanceRow host w t ∈ (db.advance host w).tasks.rows := by
  have hm₁ : db.advanceRow host w t ∈ (firstPass host db w).tasks.rows := by
    rw [(firstPass_passed).tasks]
    exact List.mem_map_of_mem ht
  have hp : (db.advanceRow host w t).state ≠ .pending := by
    intro hp
    by_cases hq : t.state = .pending
    · exact hm (hp.trans hq.symm)
    · exact hm (by rw [Db.advanceRow_of_not_pending hq])
  rw [Db.advance, applyEntry_workflowAdvance]
  split
  · rw [(cascadePass_passed).tasks]
    exact List.mem_map.mpr ⟨_, hm₁, Db.advanceRow_of_not_pending hp⟩
  · exact hm₁

theorem Db.state_of_mem_taskStates {t : TaskRecord} {st : TaskEngineState} (ht : t ∈ db.tasks.rows)
    (h : (t.id, st) ∈ db.taskStates) : t.state = st := by
  obtain ⟨s, hs, he⟩ := List.mem_map.mp h
  obtain ⟨hid, rfl⟩ := Prod.mk.injEq .. ▸ he
  rw [List.inj_on_of_nodup_map db.tasks.keys_nodup hs ht hid]

theorem Db.state_of_mem_workflowStates {r : WorkflowRecord} {st : WorkflowState}
    (hr : r ∈ db.workflows.rows) (h : (r.id, st) ∈ db.workflowStates) : r.state = st := by
  obtain ⟨s, hs, he⟩ := List.mem_map.mp h
  obtain ⟨hid, rfl⟩ := Prod.mk.injEq .. ▸ he
  rw [List.inj_on_of_nodup_map db.workflows.keys_nodup hs hr hid]

theorem advance_of_complete (hc : (db.workflowView w).tasks.all (·.state.isTerminal) = true) :
    db.advance host w = firstPass host db w := by
  have : (evaluateWorkflow host db w).workflowComplete = true := hc
  simp [Db.advance, applyEntry_workflowAdvance, this]

theorem advance_of_no_verdict
    (hv : ∀ t ∈ (db.workflowView w).tasks, (db.workflowView w).verdict host t = none) :
    db.advance host w = firstPass host db w := by
  have hs : (evaluateWorkflow host db w).skippedTasks = [] := by
    simp only [evaluateWorkflow, List.map_eq_nil_iff, List.filter_eq_nil_iff, decide_eq_true_eq]
    intro t ht
    simp [hv t ht]
  simp [Db.advance, applyEntry_workflowAdvance, hs]

theorem Db.settled_iff :
    db.Settled host w ↔
      (∀ t ∈ (db.workflowView w).tasks, (db.workflowView w).verdict host t = none) ∧
        ((db.workflowView w).tasks.all (·.state.isTerminal) = true →
          ∀ r ∈ db.workflows.rows, r.id = w →
            r.state = (evaluateWorkflow host db w).workflowState) := by
  constructor
  · rintro ⟨ht, hw⟩
    constructor
    · intro t hm
      rw [mem_workflowView] at hm
      rw [← advanceRow_eq_self_iff hm.2]
      by_contra hne
      have hin : (t.id, (db.advanceRow host w t).state) ∈ (db.advance host w).taskStates :=
        List.mem_map.mpr ⟨_, advance_row host db w hm.1 hne, by simp⟩
      rw [ht] at hin
      exact hne (state_of_mem_taskStates hm.1 hin).symm
    · intro hc r hr hid
      have hin : (r.id, (evaluateWorkflow host db w).workflowState) ∈
          (db.advance host w).workflowStates := by
        rw [advance_of_complete hc, workflowStates, firstPass_passed.workflows, if_pos hc]
        exact List.mem_map.mpr ⟨_, List.mem_map_of_mem hr, by simp [hid]⟩
      rw [hw] at hin
      exact state_of_mem_workflowStates hr hin
  · rintro ⟨hv, hw⟩
    rw [Settled, advance_of_no_verdict hv]
    constructor
    · rw [taskStates, taskStates, firstPass_passed.tasks, List.map_map]
      apply List.map_congr_left
      intro t ht
      by_cases hm : t.workflowId = some w
      · have := (advanceRow_eq_self_iff hm).mpr (hv t (mem_workflowView.mpr ⟨ht, hm⟩))
        simp [this]
      · simp [advanceRow, hm]
    · rw [workflowStates, workflowStates, firstPass_passed.workflows]
      split
      · rename_i hc
        rw [Table.rows_modify, List.map_map]
        apply List.map_congr_left
        intro r hr
        by_cases hid : r.id = w
        · simp [hid, hw hc r hr hid]
        · simp [hid]
      · rfl

end Settled

-- ---------------------------------------------------------------------------
-- Where ids come from
-- ---------------------------------------------------------------------------

section Ids

variable {host : Host} {db : Db} {e : Entry}

theorem Passed.task_ids {db' : Db} {w : WorkflowId} (h : Passed host w db db') :
    db'.tasks.rows.map (·.id) = db.tasks.rows.map (·.id) := by
  rw [h.tasks, List.map_map]
  apply List.map_congr_left
  intro t _
  exact Db.advanceRow_id t

theorem Passed.workflow_ids {db' : Db} {w : WorkflowId} (h : Passed host w db db') :
    db'.workflows.rows.map (·.id) = db.workflows.rows.map (·.id) := by
  rw [h.workflows]
  split
  · exact Table.keys_modify _
  · rfl

theorem mem_workflow_ids (w : WorkflowId) :
    w ∈ (applyEntry host db e).db.workflows.rows.map (·.id) ↔
      w ∈ db.workflows.rows.map (·.id) ∨ e.submitsWorkflow? = some w := by
  cases hid : e.taskId? with
  | some id =>
    have hs : e.submitsWorkflow? = none := by cases e <;> first | rfl | cases hid
    rw [(applyEntry_task hid).2.1, hs]
    simp
  | none =>
    cases e with
    | taskSubmit p =>
      obtain ⟨h, -⟩ | ⟨_, -, -, h, -⟩ := applyEntry_taskSubmit host db p <;>
        simp [h, Entry.submitsWorkflow?]
    | workflowSubmit p =>
      obtain ⟨h, -, hm⟩ | ⟨workflows, db', err, hi, hins, h⟩ := applyEntry_workflowSubmit host db p
      · simp only [h, Entry.submitsWorkflow?, Option.some.injEq]
        constructor
        · exact .inl
        · rintro (h | rfl)
          · exact h
          · exact hm
      · rw [h, (insertWorkflowTasks_spec hins).1, Table.insert_rows hi]
        simp [Entry.submitsWorkflow?, WorkflowSubmitPayload.row, eq_comm]
    | workflowAdvance p =>
      have h := advance_of_pass host db p
        (P := fun d => d.workflows.rows.map (·.id) = db.workflows.rows.map (·.id))
        (fun _ _ hd hp => hp.workflow_ids.trans hd) rfl
      rw [h]
      simp [Entry.submitsWorkflow?]
    | _ => cases hid

theorem mem_task_ids {id : TaskId} (h : id ∈ (applyEntry host db e).db.tasks.rows.map (·.id)) :
    id ∈ db.tasks.rows.map (·.id) ∨ e.submits? = some id ∨ ∃ i, host.randomUUID i = id := by
  cases hid : e.taskId? with
  | some k =>
    rw [(applyEntry_task hid).1, Table.keys_modify] at h
    exact .inl h
  | none =>
    cases e with
    | taskSubmit p =>
      obtain ⟨hdb, -⟩ | ⟨tasks, hi, ht, -, -⟩ := applyEntry_taskSubmit host db p
      · exact .inl (hdb ▸ h)
      · rw [ht, Table.insert_rows hi, List.map_append, List.mem_append] at h
        refine h.imp_right fun h => .inl ?_
        simp_all [Entry.submits?, TaskSubmitPayload.row]
    | workflowSubmit p =>
      obtain ⟨hdb, -, -⟩ | ⟨workflows, db', err, hi, hins, hdb⟩ :=
        applyEntry_workflowSubmit host db p
      · exact .inl (hdb ▸ h)
      · obtain ⟨-, done, hp, -, hrows, -⟩ := insertWorkflowTasks_spec hins
        rw [hdb, hrows, List.map_append, List.mem_append, List.map_map] at h
        refine h.imp_right fun h => .inr ?_
        obtain ⟨t, ht, rfl⟩ := List.mem_map.mp h
        obtain ⟨⟨d, i⟩, -, rfl⟩ := List.mem_map.mp (hp.subset ht)
        exact ⟨i, rfl⟩
    | workflowAdvance p =>
      have hids := advance_of_pass host db p
        (P := fun d => d.tasks.rows.map (·.id) = db.tasks.rows.map (·.id))
        (fun _ _ hd hp => hp.task_ids.trans hd) rfl
      exact .inl (hids ▸ h)
    | _ => cases hid

theorem exists_fresh (used : List TaskId) :
    ∃ f : Nat → TaskId, Function.Injective f ∧ ∀ n, f n ∉ used := by
  have hinf : {id : TaskId | id ∉ used}.Infinite :=
    (List.finite_toSet used).infinite_compl
  let f := Set.Infinite.natEmbedding _ hinf
  exact ⟨fun n => f n, fun n m h => f.injective (Subtype.ext h), fun n => (f n).2⟩

end Ids

-- ---------------------------------------------------------------------------
-- One row
-- ---------------------------------------------------------------------------

section Row

variable {host : Host} {db : Db} {e : Entry} {w : WorkflowId}

def Db.advancedRow (host : Host) (db : Db) (w : WorkflowId) (t : TaskRecord) : TaskRecord :=
  if (evaluateWorkflow host db w).skippedTasks ≠ [] ∧
      (evaluateWorkflow host db w).workflowComplete = false then
    (firstPass host db w).advanceRow host w (db.advanceRow host w t)
  else db.advanceRow host w t

theorem Db.advance_rows : (db.advance host w).tasks.rows = db.tasks.rows.map (db.advancedRow host w) := by
  rw [advance, applyEntry_workflowAdvance]
  unfold advancedRow
  split
  · rw [cascadePass_passed.tasks, firstPass_passed.tasks, List.map_map]
    rfl
  · exact firstPass_passed.tasks

theorem Db.advancedRow_of_not_pending {t : TaskRecord} (h : t.state ≠ .pending) :
    db.advancedRow host w t = t := by
  simp [advancedRow, advanceRow_of_not_pending h]

theorem Db.advanceRow_state {t : TaskRecord} (h : t.state = .pending) :
    (db.advanceRow host w t).state = .pending ∨ (db.advanceRow host w t).state = .queued ∨
      (db.advanceRow host w t).state = .skipped := by
  unfold advanceRow WorkflowView.move
  split
  · split
    · exact .inr (.inl rfl)
    · exact .inr (.inr rfl)
    · exact .inl h
  · exact .inl h

theorem Db.advancedRow_state {t : TaskRecord} (h : t.state = .pending) :
    (db.advancedRow host w t).state = .pending ∨ (db.advancedRow host w t).state = .queued ∨
      (db.advancedRow host w t).state = .skipped := by
  unfold advancedRow
  split
  · by_cases hp : (db.advanceRow host w t).state = .pending
    · exact advanceRow_state hp
    · rw [advanceRow_of_not_pending hp]
      exact advanceRow_state h
  · exact advanceRow_state h

def Db.rowAfter (host : Host) (db : Db) (e : Entry) (t : TaskRecord) : TaskRecord :=
  match e with
  | .workflowAdvance q => db.advancedRow host q.workflowId t
  | _ => if e.taskId? = some t.id then e.set host t else t

theorem Db.advancedRow_fixed (t : TaskRecord) : (db.advancedRow host w t).fixed = t.fixed := by
  unfold advancedRow
  split <;> simp

theorem Db.advancedRow_id (t : TaskRecord) : (db.advancedRow host w t).id = t.id :=
  congrArg (·.id) (db.advancedRow_fixed t)

theorem Db.rowAfter_fixed (t : TaskRecord) : (db.rowAfter host e t).fixed = t.fixed := by
  cases e with
  | workflowAdvance q => exact advancedRow_fixed t
  | _ => simp only [rowAfter]; split <;> simp

theorem getTask_applyEntry {id : TaskId} {t : TaskRecord} (h : db.getTask id = some t) :
    (applyEntry host db e).db.getTask id = some (db.rowAfter host e t) := by
  have hid : t.id = id := Db.getTask_id h
  cases hk : e.taskId? with
  | some k =>
    rw [getTask_applyEntry_task hk, h]
    have hr : db.rowAfter host e t = if k = t.id then e.set host t else t := by
      cases e <;> simp_all [Db.rowAfter, Entry.taskId?]
    rw [hr, hid]
    by_cases hik : id = k
    · simp [hik]
    · simp [hik, Ne.symm hik]
  | none =>
    cases e with
    | taskSubmit p =>
      rw [getTask_taskSubmit, h]
      simp [Db.rowAfter, Entry.taskId?]
    | workflowSubmit p =>
      simp only [Db.rowAfter, Entry.taskId?, reduceCtorEq, if_false]
      obtain ⟨hdb, -, -⟩ | ⟨workflows, db', err, -, hins, hdb⟩ :=
        applyEntry_workflowSubmit host db p
      · rw [hdb, h]
      · obtain ⟨-, done, -, -, hrows, -⟩ := insertWorkflowTasks_spec hins
        rw [hdb, ← hid]
        apply Db.getTask_of_mem
        rw [hrows]
        exact List.mem_append_left _ (Db.getTask_mem h)
    | workflowAdvance q =>
      have hm : db.advancedRow host q.workflowId t ∈ (db.advance host q.workflowId).tasks.rows := by
        rw [Db.advance_rows]
        exact List.mem_map_of_mem (Db.getTask_mem h)
      exact (db.advancedRow_id t).trans hid ▸ Db.getTask_of_mem hm
    | _ => cases hk

theorem getTask_new {id : TaskId} {t : TaskRecord} (hn : db.getTask id = none)
    (h : (applyEntry host db e).db.getTask id = some t) :
    (∃ p, e = .taskSubmit p ∧ p.taskId = id ∧ t = p.row host.now) ∨
      ∃ p key d, e = .workflowSubmit p ∧ (id, key, d) ∈ p.definition.withIds host ∧
        t = d.row id p.workflowId key host.now := by
  cases hk : e.taskId? with
  | some k =>
    rw [getTask_applyEntry_task hk, hn] at h
    simp at h
  | none =>
    cases e with
    | taskSubmit p =>
      rw [getTask_taskSubmit, hn] at h
      split at h
      case isTrue hp => exact .inl ⟨p, rfl, hp.symm, by simpa using h.symm⟩
      case isFalse => cases h
    | workflowSubmit p =>
      right
      obtain ⟨hdb, -, -⟩ | ⟨workflows, db', err, -, hins, hdb⟩ :=
        applyEntry_workflowSubmit host db p
      · rw [hdb, hn] at h
        cases h
      · obtain ⟨-, done, hp, -, hrows, -⟩ := insertWorkflowTasks_spec hins
        rw [hdb] at h
        have hm := Db.getTask_mem h
        rw [hrows, List.mem_append] at hm
        obtain hm | hm := hm
        · have := @Db.getTask_of_mem db _ hm
          rw [Db.getTask_id h] at this
          exact absurd (hn.symm.trans this) (by simp)
        · obtain ⟨⟨k, key, d⟩, hd, rfl⟩ := List.mem_map.mp hm
          obtain rfl : k = id := Db.getTask_id h
          exact ⟨p, key, d, rfl, hp.subset hd, rfl⟩
    | workflowAdvance q =>
      have hm : t ∈ (db.advance host q.workflowId).tasks.rows := Db.getTask_mem h
      rw [Db.advance_rows] at hm
      obtain ⟨s, hs, rfl⟩ := List.mem_map.mp hm
      have := Db.getTask_of_mem hs
      rw [← db.advancedRow_id s, Db.getTask_id h] at this
      exact absurd (hn.symm.trans this) (by simp)
    | _ => cases hk

end Row

end ClaudeCluster.Tasks
