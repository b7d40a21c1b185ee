import Mathlib.Algebra.Order.Field.Basic
import Mathlib.Algebra.Order.Field.Rat
import ClaudeCluster.Tasks.WorkflowRows
import ClaudeCluster.Tasks.Dependencies
import ClaudeCluster.Tasks.Plugin

/-!
# Entries that stop midway

`handleEntryCommitted` runs a handler outside a transaction and swallows what
it throws, as if a second insert of the same rows were all there is to catch.
Two handlers can throw after they have written: `workflow_submit`, when an
insert after the row of the workflow is rejected, for a key that is there or a
field that is missing, and `task_failed`, when the time of the retry is not one
a `Date` can hold. For each stands here exactly when it does not happen.
-/

namespace ClaudeCluster.Tasks

open Lib (Table)
open Lib.Binary64 (Number round64 nearest ofRat shift abs_nearest value?_ofRat value?_scale value?_shift
  round64_one round64_zero nearest_one nearest_zero round64_le_iff)

-- ---------------------------------------------------------------------------
-- The dependencies of one task
-- ---------------------------------------------------------------------------

def RepeatsLast {α : Type} (deps : List α) : Prop :=
  ∃ front back, deps = front ++ back ∧ front.Nodup ∧ back ⊆ front

section
variable {host : Host} {db db' : Db} {w : WorkflowId} {err : Option ApplyError} {key : TaskKey}
  {condition : Option String} {deps : List TaskKey}

theorem repeatsLast_of_nodup (h : deps.Nodup) : RepeatsLast deps :=
  ⟨deps, [], by simp, h, by simp⟩

theorem dependencies_distinct
    (h : db'.dependencies.rows = db.dependencies.rows ++ deps.map fun dep => ⟨w, key, dep, condition⟩) :
    deps.Nodup ∧ ∀ dep ∈ deps, (w, key, dep) ∉ db.dependencies.rows.map (·.key) := by
  have hkeys := db'.dependencies.keys_nodup
  rw [h, List.map_append, List.map_map, List.nodup_append] at hkeys
  obtain ⟨-, hnew, hdisjoint⟩ := hkeys
  refine ⟨hnew.of_map _, fun dep hd hm => ?_⟩
  exact hdisjoint _ hm _ (List.mem_map.mpr ⟨dep, hd, rfl⟩) rfl

theorem insertDependencies_append (xs ys : List TaskKey) (db : Db)
    (h : (insertDependencies w key condition db xs).2 = none) :
    insertDependencies w key condition db (xs ++ ys) =
      insertDependencies w key condition (insertDependencies w key condition db xs).1 ys := by
  induction xs generalizing db with
  | nil => rfl
  | cons x xs ih =>
    simp only [List.cons_append, insertDependencies_cons] at h ⊢
    cases hi : db.insertDependency ⟨w, key, x, condition⟩ with
    | error e => simp [hi] at h
    | ok db₁ =>
      simp only [hi] at h ⊢
      exact ih db₁ h

theorem insertDependencies_rejected
    (h : ∀ dep ∈ deps.head?, (w, key, dep) ∈ db.dependencies.rows.map (·.key)) :
    (insertDependencies w key condition db deps).1 = db := by
  cases deps with
  | nil => rfl
  | cons dep deps =>
    have hi : db.dependencies.insert ⟨w, key, dep, condition⟩ = none :=
      Table.insert_eq_none.mpr (h dep rfl)
    simp [insertDependencies_cons, Db.insertDependency, hi]

/-- All dependencies of a task get in exactly when none was there and repeats
come last, rejected or not. -/
theorem insertDependencies_all_iff
    (h : insertDependencies w key condition db deps = (db', err)) :
    (∃ new, db'.dependencies.rows = db.dependencies.rows ++ new ∧
        ∀ r, r ∈ new ↔ r ∈ deps.map fun dep => ⟨w, key, dep, condition⟩) ↔
      (∀ dep ∈ deps, (w, key, dep) ∉ db.dependencies.rows.map (·.key)) ∧ RepeatsLast deps := by
  obtain ⟨-, -, done, hp, -, hr⟩ := insertDependencies_spec h
  constructor
  · rintro ⟨new, hnew, hall⟩
    obtain rfl : new = _ := List.append_cancel_left (hnew.symm.trans hr)
    obtain ⟨hnodup, hfree⟩ := dependencies_distinct hr
    have hsub : deps ⊆ done := by
      intro dep hd
      obtain ⟨dep', hd', he⟩ := List.mem_map.mp ((hall _).mpr (List.mem_map.mpr ⟨dep, hd, rfl⟩))
      cases he
      exact hd'
    obtain ⟨back, rfl⟩ := hp
    exact ⟨fun dep hd => hfree dep (hsub hd), done, back, rfl, hnodup,
      fun dep hd => hsub (List.mem_append_right _ hd)⟩
  · rintro ⟨hfree, front, back, rfl, hnodup, hback⟩
    have hok : (insertDependencies w key condition db front).2 = none :=
      insertDependencies_fresh hnodup fun dep hd => hfree dep (List.mem_append_left _ hd)
    obtain ⟨db₁, hdb₁⟩ : ∃ db₁, insertDependencies w key condition db front = (db₁, none) :=
      ⟨_, Prod.ext rfl hok⟩
    obtain ⟨-, -, done₁, -, hdone₁, hr₁⟩ := insertDependencies_spec hdb₁
    rw [hdone₁ rfl] at hr₁
    have hdb' : db' = db₁ := by
      have hafter := insertDependencies_append front back db hok
      rw [h, hdb₁] at hafter
      have hfst := congrArg Prod.fst hafter
      refine hfst.trans (insertDependencies_rejected fun dep hd => ?_)
      rw [hr₁, List.map_append]
      refine List.mem_append_right _ (List.mem_map.mpr ⟨_, List.mem_map.mpr ⟨dep, ?_, rfl⟩, rfl⟩)
      exact hback (List.mem_of_mem_head? hd)
    refine ⟨_, hdb' ▸ hr₁, fun r => ?_⟩
    simp only [List.mem_map, List.mem_append]
    constructor
    · rintro ⟨dep, hd, rfl⟩
      exact ⟨dep, .inl hd, rfl⟩
    · rintro ⟨dep, hd | hd, rfl⟩
      · exact ⟨dep, hd, rfl⟩
      · exact ⟨dep, hback hd, rfl⟩

end

-- ---------------------------------------------------------------------------
-- The tasks of a workflow
-- ---------------------------------------------------------------------------

/-- The ids are new and distinct, no dependency has a row, and no list of
dependencies repeats a key, but for repeats at the end of the last one. -/
structure Clear (w : WorkflowId) (db : Db) (ts : List (TaskId × TaskKey × WorkflowTaskDef)) :
    Prop where
  ids : (ts.map Prod.fst).Nodup
  unused : ∀ t ∈ ts, t.1 ∉ db.tasks.rows.map (·.id)
  free : ∀ t ∈ ts, ∀ dep ∈ t.2.2.deps, (w, t.2.1, dep) ∉ db.dependencies.rows.map (·.key)
  once : ∀ t ∈ ts.dropLast, t.2.2.deps.Nodup
  last : ∀ t ∈ ts.getLast?, RepeatsLast t.2.2.deps

structure AllRows (host : Host) (w : WorkflowId) (db db' : Db)
    (ts : List (TaskId × TaskKey × WorkflowTaskDef)) : Prop where
  tasks : db'.tasks.rows = db.tasks.rows ++ ts.map fun t => t.2.2.row t.1 w t.2.1 host.now
  dependencies : ∃ new, db'.dependencies.rows = db.dependencies.rows ++ new ∧
    ∀ r, r ∈ new ↔ r ∈ ts.flatMap fun t => dependencyRows w t.2.1 t.2.2

section
variable {host : Host} {db db₁ db' : Db} {w : WorkflowId} {err : Option ApplyError}
  {t : TaskId × TaskKey × WorkflowTaskDef} {ts : List (TaskId × TaskKey × WorkflowTaskDef)}

structure FirstIn (host : Host) (w : WorkflowId) (db db₁ : Db)
    (t : TaskId × TaskKey × WorkflowTaskDef) : Prop where
  tasks : db₁.tasks.rows = db.tasks.rows ++ [t.2.2.row t.1 w t.2.1 host.now]
  dependencies : db₁.dependencies.rows = db.dependencies.rows ++ dependencyRows w t.2.1 t.2.2

theorem mem_taskKeys {r : TaskDependencyRecord}
    (h : r ∈ ts.flatMap fun t => dependencyRows w t.2.1 t.2.2) : r.taskKey ∈ ts.map (·.2.1) := by
  obtain ⟨t, ht, hr⟩ := List.mem_flatMap.mp h
  exact List.mem_map.mpr ⟨t, ht, (mem_dependencyRows hr).symm⟩

theorem FirstIn.allRows_iff (h : FirstIn host w db db₁ t) (hkey : t.2.1 ∉ ts.map (·.2.1))
    {rest : List TaskDependencyRecord} (hdeps : db'.dependencies.rows = db₁.dependencies.rows ++ rest)
    (hrest : rest ⊆ ts.flatMap fun t => dependencyRows w t.2.1 t.2.2) :
    AllRows host w db db' (t :: ts) ↔ AllRows host w db₁ db' ts := by
  have htasks : db'.tasks.rows = db.tasks.rows ++
        (t :: ts).map (fun t => t.2.2.row t.1 w t.2.1 host.now) ↔
      db'.tasks.rows = db₁.tasks.rows ++ ts.map fun t => t.2.2.row t.1 w t.2.1 host.now := by
    rw [h.tasks, List.map_cons, List.append_assoc, List.singleton_append]
  constructor
  · rintro ⟨hrows, new, hnew, hall⟩
    refine ⟨htasks.mp hrows, rest, hdeps, fun r => ⟨fun hr => hrest hr, fun hr => ?_⟩⟩
    rw [hdeps, h.dependencies, List.append_assoc] at hnew
    have hmem := (hall r).mpr (by rw [List.flatMap_cons]; exact List.mem_append_right _ hr)
    rw [← List.append_cancel_left hnew] at hmem
    refine (List.mem_append.mp hmem).resolve_left fun hfirst => hkey ?_
    rw [← mem_dependencyRows hfirst]
    exact mem_taskKeys hr
  · rintro ⟨hrows, new, hnew, hall⟩
    refine ⟨htasks.mpr hrows, dependencyRows w t.2.1 t.2.2 ++ new, ?_, fun r => ?_⟩
    · rw [hnew, h.dependencies, List.append_assoc]
    · rw [List.mem_append, hall, List.flatMap_cons, List.mem_append]

theorem FirstIn.clear_iff (h : FirstIn host w db db₁ t) (hkey : t.2.1 ∉ ts.map (·.2.1)) :
    Clear w db (t :: ts) ↔ Clear w db₁ ts := by
  obtain ⟨hnodup, hfree⟩ := dependencies_distinct h.dependencies
  have hunused : t.1 ∉ db.tasks.rows.map (·.id) := by
    have hkeys := db₁.tasks.keys_nodup
    rw [h.tasks, List.map_append, List.nodup_append] at hkeys
    exact fun hm => hkeys.2.2 _ hm _ (by simp [WorkflowTaskDef.row]) rfl
  have hids : ∀ id, id ∉ db₁.tasks.rows.map (·.id) ↔ id ∉ db.tasks.rows.map (·.id) ∧ id ≠ t.1 := by
    intro id
    simp [h.tasks, WorkflowTaskDef.row]
  have hpairs : ∀ u ∈ ts, ∀ dep, (w, u.2.1, dep) ∉ db₁.dependencies.rows.map (·.key) ↔
      (w, u.2.1, dep) ∉ db.dependencies.rows.map (·.key) := by
    intro u hu dep
    have hne : t.2.1 ≠ u.2.1 := fun he => hkey (he ▸ List.mem_map.mpr ⟨u, hu, rfl⟩)
    simp [h.dependencies, dependencyRows, TaskDependencyRecord.key, hne]
  constructor
  · intro hi
    obtain ⟨hnew, hids'⟩ := List.nodup_cons.mp hi.ids
    refine ⟨hids', fun u hu => (hids _).mpr ⟨hi.unused u (List.mem_cons_of_mem _ hu), ?_⟩,
      fun u hu dep hd => (hpairs u hu dep).mpr (hi.free u (List.mem_cons_of_mem _ hu) dep hd), ?_, ?_⟩
    · exact fun he => hnew (he ▸ List.mem_map.mpr ⟨u, hu, rfl⟩)
    · intro u hu
      refine hi.once u ?_
      rw [List.dropLast_cons_of_ne_nil (List.ne_nil_of_mem (List.dropLast_subset _ hu))]
      exact List.mem_cons_of_mem _ hu
    · intro u hu
      refine hi.last u ?_
      rw [List.getLast?_cons_of_ne_nil (List.ne_nil_of_mem (List.mem_of_getLast? hu))]
      exact hu
  · intro hi
    refine ⟨List.nodup_cons.mpr ⟨fun hm => ?_, hi.ids⟩, ?_, ?_, ?_, ?_⟩
    · obtain ⟨u, hu, he⟩ := List.mem_map.mp hm
      exact ((hids _).mp (hi.unused u hu)).2 he
    · intro u hu
      rcases List.mem_cons.mp hu with rfl | hu
      · exact hunused
      · exact ((hids _).mp (hi.unused u hu)).1
    · intro u hu dep hd
      rcases List.mem_cons.mp hu with rfl | hu
      · exact hfree dep hd
      · exact (hpairs u hu dep).mp (hi.free u hu dep hd)
    · intro u hu
      cases ts with
      | nil => cases hu
      | cons u' ts =>
        rcases List.mem_cons.mp hu with rfl | hu
        · exact hnodup
        · exact hi.once u hu
    · intro u hu
      cases ts with
      | nil =>
        cases hu
        exact repeatsLast_of_nodup hnodup
      | cons u' ts => exact hi.last u (by rwa [List.getLast?_cons_cons] at hu)

theorem insertDependencies_stops
    (htasks : db'.tasks.rows = db.tasks.rows ++ [t.2.2.row t.1 w t.2.1 host.now])
    (hdeps : db₁.dependencies = db.dependencies)
    (hid : t.1 ∉ db.tasks.rows.map (·.id)) {e : ApplyError}
    (h : insertDependencies w t.2.1 t.2.2.condition db₁ t.2.2.deps = (db', some e)) :
    AllRows host w db db' (t :: ts) ↔ Clear w db (t :: ts) := by
  have hall := insertDependencies_all_iff h
  rw [hdeps] at hall
  cases ts with
  | nil =>
    constructor
    · rintro ⟨-, hrows⟩
      obtain ⟨hfree, hlast⟩ := hall.mp (by simpa [dependencyRows] using hrows)
      exact ⟨by simp, by simpa using hid, by simpa using hfree, by simp, by simpa using hlast⟩
    · intro hi
      have hrows := hall.mpr ⟨by simpa using hi.free, by simpa using hi.last⟩
      exact ⟨by simpa using htasks, by simpa [dependencyRows] using hrows⟩
  | cons u ts =>
    refine iff_of_false (fun hin => ?_) fun hi => ?_
    · have hrows := hin.tasks
      rw [htasks] at hrows
      simp at hrows
    · have hfree := hi.free t List.mem_cons_self
      rw [← hdeps] at hfree
      have hnone := @insertDependencies_fresh db₁ w t.2.1 t.2.2.condition _
        (hi.once t (by simp)) hfree
      rw [h] at hnone
      cases hnone

theorem insertWorkflowTasks_allRows_iff (hkeys : (ts.map (·.2.1)).Nodup)
    (h : insertWorkflowTasks host w db ts = (db', err)) :
    AllRows host w db db' ts ↔ Clear w db ts := by
  induction ts generalizing db with
  | nil =>
    cases h
    exact iff_of_true ⟨by simp, [], by simp, by simp⟩ ⟨by simp, by simp, by simp, by simp, by simp⟩
  | cons t ts ih =>
    obtain ⟨id, key, d⟩ := t
    obtain ⟨hkey, hkeys⟩ := List.nodup_cons.mp hkeys
    simp only [insertWorkflowTasks_cons, Db.insertTask] at h
    cases hi : db.tasks.insert (d.row id w key host.now) with
    | none =>
      simp only [hi, Prod.mk.injEq] at h
      obtain ⟨rfl, -⟩ := h
      refine iff_of_false (fun hin => ?_) fun hin => ?_
      · have hrows := hin.tasks
        simp at hrows
      · exact hin.unused _ List.mem_cons_self (Table.insert_eq_none.mp hi)
    | some tasks =>
      simp only [hi] at h
      have hid : id ∉ db.tasks.rows.map (·.id) := Table.not_mem_of_insert hi
      split at h
      case h_1 db₂ e hd =>
        obtain ⟨rfl, -⟩ := Prod.mk.injEq .. ▸ h
        have htasks := (insertDependencies_spec hd).1
        refine insertDependencies_stops (t := (id, key, d)) ?_ ?_ hid hd
        · rw [htasks]
          exact Table.insert_rows hi
        · rfl
      case h_2 db₂ hd =>
        obtain ⟨htasks, -, done, -, hdone, hdeps⟩ := insertDependencies_spec hd
        rw [hdone rfl] at hdeps
        have hfirst : FirstIn host w db db₂ (id, key, d) :=
          ⟨by rw [htasks]; exact Table.insert_rows hi, hdeps⟩
        obtain ⟨-, done', hp, -, -, rest, hrest, -, hrows⟩ := insertWorkflowTasks_spec h
        have hsub : rest ⊆ ts.flatMap fun t => dependencyRows w t.2.1 t.2.2 := by
          intro r hr
          obtain ⟨u, hu, hur⟩ := List.mem_flatMap.mp (hrest.subset hr)
          exact List.mem_flatMap.mpr ⟨u, hp.subset hu, hur⟩
        rw [hfirst.allRows_iff hkey hrows hsub, hfirst.clear_iff hkey]
        exact ih hkeys h

end

-- ---------------------------------------------------------------------------
-- workflow_submit
-- ---------------------------------------------------------------------------

/-- Every task has a type, a spec and no `null` among its dependencies; the ids
are new and distinct, no dependency has a row, and no list of dependencies
repeats a key, but for repeats at the end of the last one. -/
structure Insertable (w : WorkflowId) (db : Db) (ts : List (TaskId × TaskKey × ClientTaskDef)) :
    Prop where
  complete : ∀ t ∈ ts, t.2.2.type.isSome ∧ t.2.2.spec.isSome ∧ none ∉ t.2.2.deps
  ids : (ts.map Prod.fst).Nodup
  unused : ∀ t ∈ ts, t.1 ∉ db.tasks.rows.map (·.id)
  free : ∀ t ∈ ts, ∀ dep, some dep ∈ t.2.2.deps →
    (w, t.2.1, dep) ∉ db.dependencies.rows.map (·.key)
  once : ∀ t ∈ ts.dropLast, t.2.2.deps.Nodup
  last : ∀ t ∈ ts.getLast?, RepeatsLast t.2.2.deps

structure AllIn (host : Host) (w : WorkflowId) (db db' : Db)
    (ts : List (TaskId × TaskKey × ClientTaskDef)) : Prop where
  tasks : ∃ rows, db'.tasks.rows = db.tasks.rows ++ rows ∧
    ts.map (fun t => t.2.2.row t.1 w t.2.1 host.now) = rows.map .ok
  dependencies : ∃ new, db'.dependencies.rows = db.dependencies.rows ++ new ∧
    (∀ r ∈ new, ∃ t ∈ ts, some r.dependsOnKey ∈ t.2.2.deps ∧
      r = ⟨w, t.2.1, r.dependsOnKey, t.2.2.condition⟩) ∧
    ∀ t ∈ ts, ∀ dep ∈ t.2.2.deps, ∃ key, dep = some key ∧
      ⟨w, t.2.1, key, t.2.2.condition⟩ ∈ new

/-- The row of the workflow, its tasks and their dependencies are added, or the
four tables are as before. -/
def SubmitsAtomically (host : Host) (isLeader : Bool) (db : Db) (p : ClientSubmitPayload) : Prop :=
  let db' := ((handleWorkflowSubmit host db p).settled isLeader).1
  (∃ row, p.row host.now = .ok row ∧ db'.workflows.rows = db.workflows.rows ++ [row] ∧
      AllIn host p.workflowId db db' (p.definition.withIds host)) ∨
    db' = db

section
variable {host : Host} {db db' : Db} {w : WorkflowId} {err : Option ApplyError}
  {d : ClientTaskDef} {ts : List (TaskId × TaskKey × ClientTaskDef)}

theorem ClientTaskDef.exists_sent (h : d.type.isSome ∧ d.spec.isSome ∧ none ∉ d.deps) :
    ∃ declared : WorkflowTaskDef, declared.sent = d := by
  obtain ⟨type, spec, constraints, retryPolicy, priority, dependsOn, condition⟩ := d
  obtain ⟨htype, hspec, hdeps⟩ := h
  obtain ⟨type, rfl⟩ := Option.isSome_iff_exists.mp htype
  obtain ⟨spec, rfl⟩ := Option.isSome_iff_exists.mp hspec
  obtain ⟨named, rfl⟩ : ∃ named : Option (List TaskKey), named.map (·.map some) = dependsOn := by
    cases dependsOn with
    | none => exact ⟨none, rfl⟩
    | some deps =>
      have hsome : ∀ dep ∈ deps, dep ∈ Set.range (some : TaskKey → Option TaskKey) := by
        rintro (_ | key) hdep
        · exact absurd hdep hdeps
        · exact ⟨key, rfl⟩
      obtain ⟨named, rfl⟩ : deps ∈ Set.range (List.map some) := by
        rw [Set.range_list_map]
        exact hsome
      exact ⟨some named, rfl⟩
  exact ⟨⟨type, spec, constraints, retryPolicy, priority, named, condition⟩, rfl⟩

theorem exists_declared
    (h : ∀ t ∈ ts, t.2.2.type.isSome ∧ t.2.2.spec.isSome ∧ none ∉ t.2.2.deps) :
    ∃ declared : List (TaskId × TaskKey × WorkflowTaskDef),
      declared.map (fun t => (t.1, t.2.1, t.2.2.sent)) = ts := by
  have hrange : ts ∈ Set.range
      (List.map fun t : TaskId × TaskKey × WorkflowTaskDef => (t.1, t.2.1, t.2.2.sent)) := by
    rw [Set.range_list_map]
    rintro ⟨id, key, d⟩ ht
    obtain ⟨declared, hsent⟩ := ClientTaskDef.exists_sent (h _ ht)
    exact ⟨(id, key, declared), congrArg (fun d => (id, key, d)) hsent⟩
  exact hrange

theorem allIn_sent_iff {declared : List (TaskId × TaskKey × WorkflowTaskDef)} :
    AllIn host w db db' (declared.map fun t => (t.1, t.2.1, t.2.2.sent)) ↔
      AllRows host w db db' declared := by
  have hrows : (declared.map fun t => (t.1, t.2.1, t.2.2.sent)).map
      (fun t => t.2.2.row t.1 w t.2.1 host.now) =
      (declared.map fun t => t.2.2.row t.1 w t.2.1 host.now).map .ok := by
    simp [WorkflowTaskDef.row_sent, Function.comp_def]
  have hpairs : ∀ r : TaskDependencyRecord,
      (∃ t ∈ declared.map (fun t => (t.1, t.2.1, t.2.2.sent)), some r.dependsOnKey ∈ t.2.2.deps ∧
        r = ⟨w, t.2.1, r.dependsOnKey, t.2.2.condition⟩) ↔
      r ∈ declared.flatMap fun t => dependencyRows w t.2.1 t.2.2 := by
    intro r
    simp only [List.mem_map, List.mem_flatMap, dependencyRows]
    constructor
    · rintro ⟨_, ⟨t, ht, rfl⟩, hdep, hr⟩
      rw [WorkflowTaskDef.deps_sent] at hdep
      obtain ⟨dep, hdep, hkey⟩ := List.mem_map.mp hdep
      exact ⟨t, ht, dep, hdep, by rw [hr, Option.some.inj hkey]; rfl⟩
    · rintro ⟨t, ht, dep, hdep, rfl⟩
      refine ⟨_, ⟨t, ht, rfl⟩, ?_, rfl⟩
      rw [WorkflowTaskDef.deps_sent]
      exact List.mem_map_of_mem hdep
  constructor
  · rintro ⟨⟨rows, htasks, hmap⟩, new, hnew, hfrom, hall⟩
    rw [hrows] at hmap
    have hinj : Function.Injective (Except.ok : TaskRecord → Except ApplyError TaskRecord) :=
      fun _ _ => Except.ok.inj
    refine ⟨by rw [htasks, List.map_injective_iff.mpr hinj hmap], new, hnew, fun r => ?_⟩
    refine ⟨fun hr => (hpairs r).mp (hfrom r hr), fun hr => ?_⟩
    obtain ⟨t, ht, hdep, hrow⟩ := (hpairs r).mpr hr
    obtain ⟨key, hkey, hmem⟩ := hall t ht _ hdep
    rw [hrow, Option.some.inj hkey]
    exact hmem
  · rintro ⟨htasks, new, hnew, hall⟩
    refine ⟨⟨_, htasks, hrows⟩, new, hnew, fun r hr => (hpairs r).mpr ((hall r).mp hr), ?_⟩
    intro t ht dep hdep
    obtain ⟨u, hu, rfl⟩ := List.mem_map.mp ht
    rw [WorkflowTaskDef.deps_sent] at hdep
    obtain ⟨key, hkey, rfl⟩ := List.mem_map.mp hdep
    refine ⟨key, rfl, (hall _).mpr ((hpairs _).mp ⟨_, ht, ?_, rfl⟩)⟩
    rw [WorkflowTaskDef.deps_sent]
    exact List.mem_map_of_mem hkey

theorem repeatsLast_map_iff {α β : Type} {f : α → β} (hf : Function.Injective f) {xs : List α} :
    RepeatsLast (xs.map f) ↔ RepeatsLast xs := by
  constructor
  · rintro ⟨front, back, hsplit, hnodup, hsub⟩
    obtain ⟨front, back, rfl, rfl, rfl⟩ := List.map_eq_append_iff.mp hsplit
    refine ⟨front, back, rfl, hnodup.of_map _, fun x hx => ?_⟩
    exact (List.mem_map_of_injective hf).mp (hsub (List.mem_map_of_mem hx))
  · rintro ⟨front, back, rfl, hnodup, hsub⟩
    exact ⟨front.map f, back.map f, List.map_append, hnodup.map hf, List.map_subset f hsub⟩

theorem insertable_sent_iff {declared : List (TaskId × TaskKey × WorkflowTaskDef)} :
    Insertable w db (declared.map fun t => (t.1, t.2.1, t.2.2.sent)) ↔ Clear w db declared := by
  have hsome : Function.Injective (some : TaskKey → Option TaskKey) := Option.some_injective _
  constructor
  · intro h
    refine ⟨by simpa [Function.comp_def] using h.ids, fun t ht => ?_, fun t ht dep hdep => ?_,
      fun t ht => ?_, fun t ht => ?_⟩
    · exact h.unused _ (List.mem_map_of_mem ht)
    · refine h.free _ (List.mem_map_of_mem ht) dep ?_
      rw [WorkflowTaskDef.deps_sent]
      exact List.mem_map_of_mem hdep
    · have honce := h.once (t.1, t.2.1, t.2.2.sent) (List.map_dropLast ▸ List.mem_map_of_mem ht)
      rw [WorkflowTaskDef.deps_sent] at honce
      exact honce.of_map _
    · have hlast := h.last (t.1, t.2.1, t.2.2.sent) (by
        rw [List.getLast?_map]
        exact Option.mem_map_of_mem _ ht)
      rw [WorkflowTaskDef.deps_sent] at hlast
      exact (repeatsLast_map_iff hsome).mp hlast
  · intro h
    refine ⟨?_, by simpa [Function.comp_def] using h.ids, ?_, ?_, ?_, ?_⟩
    · rintro _ ht
      obtain ⟨t, -, rfl⟩ := List.mem_map.mp ht
      refine ⟨rfl, rfl, ?_⟩
      rw [WorkflowTaskDef.deps_sent]
      simp
    · rintro _ ht
      obtain ⟨t, hmem, rfl⟩ := List.mem_map.mp ht
      exact h.unused t hmem
    · rintro _ ht dep hdep
      obtain ⟨t, hmem, rfl⟩ := List.mem_map.mp ht
      rw [WorkflowTaskDef.deps_sent] at hdep
      exact h.free t hmem dep ((List.mem_map_of_injective hsome).mp hdep)
    · rintro _ ht
      rw [← List.map_dropLast] at ht
      obtain ⟨t, hmem, rfl⟩ := List.mem_map.mp ht
      rw [WorkflowTaskDef.deps_sent]
      exact (h.once t hmem).map hsome
    · rintro _ ht
      rw [List.getLast?_map] at ht
      obtain ⟨t, hmem, rfl⟩ := Option.mem_map.mp ht
      rw [WorkflowTaskDef.deps_sent]
      exact (repeatsLast_map_iff hsome).mpr (h.last t hmem)

/-- A task without a type or a spec has no row, and no `null` is a dependency of one. -/
theorem AllIn.complete (h : AllIn host w db db' ts) :
    ∀ t ∈ ts, t.2.2.type.isSome ∧ t.2.2.spec.isSome ∧ none ∉ t.2.2.deps := by
  intro t ht
  obtain ⟨⟨rows, -, hrows⟩, new, -, -, hall⟩ := h
  have hrow : ∃ row, t.2.2.row t.1 w t.2.1 host.now = .ok row := by
    have hmem : t.2.2.row t.1 w t.2.1 host.now ∈ rows.map Except.ok :=
      hrows ▸ List.mem_map_of_mem (f := fun t => t.2.2.row t.1 w t.2.1 host.now) ht
    obtain ⟨row, -, hrow⟩ := List.mem_map.mp hmem
    exact ⟨row, hrow.symm⟩
  obtain ⟨row, hrow⟩ := hrow
  have hfields : t.2.2.type.isSome ∧ t.2.2.spec.isSome := by
    unfold ClientTaskDef.row at hrow
    split at hrow
    · cases hrow
    · cases hrow
    case h_3 htype hspec => simp [htype, hspec]
  refine ⟨hfields.1, hfields.2, fun hnull => ?_⟩
  obtain ⟨key, hkey, -⟩ := hall t ht none hnull
  cases hkey

theorem insertClientTasks_all_iff (hkeys : (ts.map (·.2.1)).Nodup)
    (h : insertClientTasks host w db ts = (db', err)) :
    AllIn host w db db' ts ↔ Insertable w db ts := by
  by_cases hcomplete : ∀ t ∈ ts, t.2.2.type.isSome ∧ t.2.2.spec.isSome ∧ none ∉ t.2.2.deps
  · obtain ⟨declared, rfl⟩ := exists_declared hcomplete
    rw [allIn_sent_iff, insertable_sent_iff]
    refine insertWorkflowTasks_allRows_iff ?_ h
    simpa [Function.comp_def] using hkeys
  · exact iff_of_false (fun hin => hcomplete hin.complete) fun hin => hcomplete hin.complete

theorem insertClientDependencies_workflows {key : TaskKey} {condition : Option String}
    {deps : List (Option TaskKey)} :
    (insertClientDependencies w key condition db deps).1.workflows = db.workflows := by
  induction deps generalizing db with
  | nil => rfl
  | cons dep deps ih =>
    cases dep with
    | none => rfl
    | some dep =>
      rw [insertClientDependencies]
      cases hi : db.insertDependency ⟨w, key, dep, condition⟩ with
      | error => rfl
      | ok db₁ =>
        obtain ⟨_, -, rfl⟩ : ∃ dependencies, db.dependencies.insert ⟨w, key, dep, condition⟩ =
            some dependencies ∧ { db with dependencies } = db₁ := by
          unfold Db.insertDependency at hi
          split at hi
          · cases hi
          case h_2 dependencies hins => exact ⟨dependencies, hins, Except.ok.inj hi⟩
        exact ih

theorem insertClientTasks_workflows :
    (insertClientTasks host w db ts).1.workflows = db.workflows := by
  induction ts generalizing db with
  | nil => rfl
  | cons t ts ih =>
    obtain ⟨id, key, d⟩ := t
    rw [insertClientTasks]
    cases hi : (d.row id w key host.now).bind db.insertTask with
    | error => rfl
    | ok db₁ =>
      have hrow : db₁.workflows = db.workflows := by
        cases hr : d.row id w key host.now with
        | error => simp [hr, Except.bind] at hi
        | ok row =>
          simp only [hr, Except.bind, Db.insertTask] at hi
          split at hi
          · cases hi
          · obtain rfl := Except.ok.inj hi
            rfl
      have hdeps := @insertClientDependencies_workflows (db₁.insertEvent id .submitted host.nodeId none host.now)
        w key d.condition d.deps
      dsimp only
      split
      case h_1 db₂ e hd =>
        rw [hd] at hdeps
        exact hdeps.trans hrow
      case h_2 db₂ hd =>
        rw [hd] at hdeps
        exact ih.trans (hdeps.trans hrow)

end

theorem ClientDefinition.withIds_tasks (d : ClientDefinition) (host : Host) :
    (d.withIds host).map Prod.snd = d.tasks := by
  simp only [withIds, List.map_map, Function.comp_def]
  exact List.zipIdx_map_fst 0 d.tasks

/-- A submission is atomic exactly when the workflow has no name or is known
already, or nothing stands in the way of its rows. -/
theorem submitsAtomically_iff (host : Host) (isLeader : Bool) (db : Db) (p : ClientSubmitPayload) :
    SubmitsAtomically host isLeader db p ↔
      p.definition.name = none ∨ p.workflowId ∈ db.workflows.rows.map (·.id) ∨
        Insertable p.workflowId db (p.definition.withIds host) := by
  have hkeys : ((p.definition.withIds host).map (·.2.1)).Nodup := by
    have hnodup := p.definition.keys_nodup
    rw [← p.definition.withIds_tasks host, List.map_map] at hnodup
    exact hnodup
  simp only [SubmitsAtomically, Applied.settled_db]
  cases hname : p.definition.name with
  | none =>
    refine iff_of_true (.inr ?_) (.inl rfl)
    rw [handleWorkflowSubmit, ClientSubmitPayload.row, hname]
    rfl
  | some name =>
    obtain ⟨row, hrow, hid⟩ : ∃ row, p.row host.now = .ok row ∧ row.id = p.workflowId := by
      rw [ClientSubmitPayload.row, hname]
      exact ⟨_, rfl, rfl⟩
    cases hi : db.workflows.insert row with
    | none =>
      have hknown := Table.insert_eq_none.mp hi
      rw [hid] at hknown
      refine iff_of_true (.inr ?_) (.inr (.inl hknown))
      simp [handleWorkflowSubmit, hrow, Except.bind, Db.insertWorkflow, hi]
    | some workflows =>
      -- the row of the workflow is in, so only the whole will do
      have hunknown : p.workflowId ∉ db.workflows.rows.map (·.id) := hid ▸ Table.not_mem_of_insert hi
      obtain ⟨⟨db', err⟩, hins⟩ :
          ∃ r, insertClientTasks host p.workflowId { db with workflows } (p.definition.withIds host) = r :=
        ⟨_, rfl⟩
      have hdb : (handleWorkflowSubmit host db p).db = db' := by
        simp only [handleWorkflowSubmit, hrow, Except.bind, Db.insertWorkflow, hi, hins]
        cases err <;> rfl
      have hworkflows : db'.workflows.rows = db.workflows.rows ++ [row] := by
        have hsame := congrArg (fun r => r.1.workflows) hins
        rw [← Table.insert_rows hi]
        exact congrArg Table.rows (hsame.symm.trans insertClientTasks_workflows)
      have hchanged : db' ≠ db := by
        rintro rfl
        simp at hworkflows
      have hall := insertClientTasks_all_iff hkeys hins
      simp only [hdb, hrow, reduceCtorEq, false_or, or_iff_right hunknown, or_iff_left hchanged,
        Except.ok.injEq, exists_eq_left', and_iff_right hworkflows]
      constructor
      · intro hin
        have hable := hall.mp ⟨hin.tasks, hin.dependencies⟩
        exact ⟨hable.complete, hable.ids, hable.unused, hable.free, hable.once, hable.last⟩
      · intro hable
        have hin := hall.mpr
          ⟨hable.complete, hable.ids, hable.unused, hable.free, hable.once, hable.last⟩
        exact ⟨hin.tasks, hin.dependencies⟩

/-- `b` names its dependency twice, and `c` comes after it. -/
def twice : ClientDefinition where
  name := some "twice"
  tasks := [("a", {}), ("b", { dependsOn := some ["a", "a"] }), ("c", { dependsOn := some ["b"] })]

def specless : ClientDefinition where
  name := some "specless"
  tasks := [("a", {}), ("b", { spec := none })]

theorem not_submitsAtomically {host : Host} {isLeader : Bool} {p : ClientSubmitPayload}
    (h : (handleWorkflowSubmit host {} p).db.tasks.rows.length ∉ [0, p.definition.tasks.length]) :
    ¬ SubmitsAtomically host isLeader {} p := by
  simp only [List.mem_cons, List.not_mem_nil, or_false, not_or] at h
  simp only [SubmitsAtomically, Applied.settled_db]
  rintro (⟨row, -, -, hin⟩ | hsame)
  · obtain ⟨⟨rows, hrows, hmap⟩, -⟩ := hin
    have hlength := congrArg List.length hmap
    rw [List.length_map, List.length_map, ← List.length_map (f := Prod.snd),
      p.definition.withIds_tasks] at hlength
    exact h.2 (by rw [hrows, hlength]; rfl)
  · exact h.1 (by rw [hsame]; rfl)

/-- The second row for `b` and `a` is rejected, and the workflow stays without
`c`; so is the row of a task without a spec. -/
theorem twice_half_submitted :
    let db := ((handleWorkflowSubmit (obliging 0) {} ⟨"w", twice⟩).settled true).1
    let db' := ((handleWorkflowSubmit (obliging 0) {} ⟨"w", specless⟩).settled true).1
    (¬ SubmitsAtomically (obliging 0) true {} ⟨"w", twice⟩ ∧
      db.workflowStates = [("w", .running)] ∧
      db.taskStates = [("u", .queued), ("v", .pending)] ∧
      db.dependencies.rows = [⟨"w", "b", "a", none⟩] ∧ db.events.length = 2) ∧
    ¬ SubmitsAtomically (obliging 0) true {} ⟨"w", specless⟩ ∧
      db'.workflowStates = [("w", .running)] ∧ db'.taskStates = [("u", .queued)] := by
  intro db db'
  refine ⟨⟨not_submitsAtomically (by decide +kernel), ?_⟩,
    not_submitsAtomically (by decide +kernel), ?_⟩
  · exact ⟨by decide +kernel, by decide +kernel, by decide +kernel, by decide +kernel⟩
  · exact ⟨by decide +kernel, by decide +kernel⟩

-- ---------------------------------------------------------------------------
-- task_failed
-- ---------------------------------------------------------------------------

/-- `Math.pow(base, n)` is this number: 1 for zero, 0 for a positive power of
zero, and else what the engine computes. -/
def IsPower (host : Host) (base : Option ℚ) (n : Int) (power : ℚ) : Prop :=
  n = 0 ∧ power = 1 ∨
    n ≠ 0 ∧ ∃ multiplier, base = some multiplier ∧
      (multiplier = 0 ∧ 0 < n ∧ power = 0 ∨
        multiplier ≠ 0 ∧ (host.approximatePow multiplier n).value? = some power)

/-- The power is a number, its product with the delay does not overflow, and the
time this leads to is one a `Date` can hold, once rounded. -/
def RetryPolicy.Schedules (host : Host) (p : RetryPolicy) (attempt : Int) : Prop :=
  ∃ ms power, p.backoffMs = some ms ∧ IsPower host p.backoffMultiplier attempt power ∧
    round64 |ms * power| < 2 ^ 1024 ∧
    |(host.now : ℚ) + nearest (ms * power)| ≤ 8640000000000000 + 1 / 2

/-- The entry is answered by a retry with the next attempt at a valid time, or
by a dead letter. -/
def FailureHandled (host : Host) (db : Db) (payload : TaskFailedPayload) (task : TaskRecord) :
    Prop :=
  let applied := applyEntry host db (.taskFailed payload)
  (∃ scheduledAfter : Time, |scheduledAfter| ≤ 8640000000000000 ∧
      applied.outcome = .ok (some (.retry payload.taskId (task.attempt + 1) scheduledAfter))) ∨
    ∃ reason, applied.outcome = .ok (some (.deadLetter payload.taskId reason))

section
variable {host : Host} {db : Db} {payload : TaskFailedPayload} {task : TaskRecord}

theorem value?_mathPow {base : Option ℚ} {n : Int} {power : ℚ} :
    (mathPow host base n).value? = some power ↔ IsPower host base n power := by
  have hone : (ofRat false 1).value? = some 1 := by
    rw [value?_ofRat, abs_one, round64_one, if_pos (by decide +kernel), nearest_one]
  have hzero : (ofRat false 0).value? = some 0 := by
    rw [value?_ofRat, abs_zero, round64_zero, if_pos (by decide +kernel), nearest_zero]
  unfold mathPow IsPower
  by_cases hn : n = 0
  · simp [hn, hone, eq_comm]
  · cases base with
    | none => simp [hn, Number.value?]
    | some multiplier =>
      by_cases hm : multiplier = 0
      · by_cases hpos : 0 < n
        · simp [hn, hm, hpos, Lib.Binary64.power, hzero, eq_comm]
        · simp [hn, hm, hpos, Lib.Binary64.power, Number.value?]
      · simp [hn, hm, Lib.Binary64.power]

theorem RetryPolicy.value?_backoff {p : RetryPolicy} {attempt : Int} {q : ℚ} :
    (p.backoff host attempt).value? = some q ↔
      ∃ ms power, p.backoffMs = some ms ∧ IsPower host p.backoffMultiplier attempt power ∧
        round64 |ms * power| < 2 ^ 1024 ∧ nearest (ms * power) = q := by
  unfold backoff
  cases p.backoffMs with
  | none => simp [Number.value?]
  | some ms =>
    simp only [Option.elim_some, value?_scale, Option.bind_eq_some_iff, value?_mathPow,
      Option.ite_none_right_eq_some, Option.some.injEq, exists_and_left, exists_eq_left']

theorem abs_tdiv_le {q : ℚ} {b : Nat} (h : |q| ≤ b) : |q.num.tdiv q.den| ≤ b := by
  have hden : (0 : ℚ) < q.den := by exact_mod_cast q.den_pos
  have hnum : |(q.num : ℚ)| ≤ b * q.den := by
    rw [← div_le_iff₀ hden]
    calc |(q.num : ℚ)| / q.den = |(q.num : ℚ) / q.den| := by rw [abs_div, abs_of_pos hden]
      _ = |q| := by rw [Rat.num_div_den]
      _ ≤ b := h
  have hnat : q.num.natAbs ≤ b * q.den := by
    have hcast : ((q.num.natAbs : ℤ) : ℚ) ≤ ((b * q.den : ℕ) : ℚ) := by
      rw [Int.natCast_natAbs, Int.cast_abs]
      push_cast
      exact hnum
    exact_mod_cast hcast
  rw [← Int.natCast_natAbs, Int.natAbs_tdiv, Int.natAbs_natCast]
  exact_mod_cast Nat.div_le_of_le_mul (by rwa [Nat.mul_comm] at hnat)

theorem abs_toISOString {x : Number} {time : Time} (h : toISOString x = some time) :
    |time| ≤ 8640000000000000 := by
  obtain ⟨q, -, htime⟩ := Option.bind_eq_some_iff.mp h
  obtain ⟨hq, htrunc⟩ := Option.ite_none_right_eq_some.mp htime
  obtain rfl := Option.some.inj htrunc
  exact_mod_cast abs_tdiv_le (b := 8640000000000000) (by exact_mod_cast hq)

/-- What a `Date` holds of a sum is told by the sum before it is rounded. -/
theorem toISOString_shift {x : Number} {now : Time} :
    (∃ time, toISOString (shift now x) = some time) ↔
      ∃ q, x.value? = some q ∧ |(now : ℚ) + q| ≤ 8640000000000000 + 1 / 2 := by
  have hround : ∀ q : ℚ, round64 |(now : ℚ) + q| ≤ (8640000000000000 : ℕ) ↔
      |(now : ℚ) + q| ≤ (8640000000000000 : ℕ) + 1 / 2 := fun q =>
    round64_le_iff (by norm_num) (by norm_num) (by decide) (abs_nonneg _)
  push_cast at hround
  have hone : (∃ time, toISOString (shift now x) = some time) ↔
      ∃ q, x.value? = some q ∧ round64 |(now : ℚ) + q| < 2 ^ 1024 ∧
        round64 |(now : ℚ) + q| ≤ 8640000000000000 := by
    simp only [toISOString, value?_shift, Option.bind_eq_some_iff, Option.ite_none_right_eq_some,
      Option.some.injEq]
    constructor
    · rintro ⟨time, r, ⟨q, hq, hlt, rfl⟩, hle, -⟩
      exact ⟨q, hq, hlt, abs_nearest _ ▸ hle⟩
    · rintro ⟨q, hq, hlt, hle⟩
      exact ⟨_, _, ⟨q, hq, hlt, rfl⟩, (abs_nearest _).symm ▸ hle, rfl⟩
  rw [hone]
  refine exists_congr fun q => and_congr_right fun _ => ?_
  rw [← hround]
  exact and_iff_right_of_imp fun hle => hle.trans_lt (by decide +kernel)

theorem schedules_iff {p : RetryPolicy} {attempt : Int} :
    p.Schedules host attempt ↔ ∃ time, p.scheduledAfter host attempt = some time := by
  rw [RetryPolicy.scheduledAfter, toISOString_shift]
  simp only [RetryPolicy.value?_backoff, RetryPolicy.Schedules]
  constructor
  · rintro ⟨ms, power, hms, hpower, hlt, hle⟩
    exact ⟨_, ⟨ms, power, hms, hpower, hlt, rfl⟩, hle⟩
  · rintro ⟨_, ⟨ms, power, hms, hpower, hlt, rfl⟩, hle⟩
    exact ⟨ms, power, hms, hpower, hlt, hle⟩

/-- A failure is handled exactly when the policy allows no retry, or its delay
can be scheduled. -/
theorem failureHandled_iff (h : db.getTask payload.taskId = some task) :
    FailureHandled host db payload task ↔
      task.policy.allows task.attempt = false ∨ task.policy.Schedules host task.attempt := by
  simp only [FailureHandled, applyEntry_taskFailed h, failureOutcome, schedules_iff]
  cases hallow : task.policy.allows task.attempt with
  | false => simp
  | true =>
    cases htime : task.policy.scheduledAfter host task.attempt with
    | none => simp
    | some time => simpa using abs_toISOString htime

end

def submittedTask (args : SubmitTaskArgs) (attempt : Int) : Db :=
  applyLog obliging {}
    ([.taskSubmit (args.payload "u" "n"), .taskRetry ⟨"u", attempt, 0⟩, .taskAssign ⟨"u", "n"⟩,
      .taskStarted ⟨"u", "n"⟩].map .parsed)

def noBackoffMs : RetryPolicy :=
  { maxRetries := some 3, backoffMultiplier := some 2, retryable := some true }

/-- No delay at all, times 1e200 a retry: the square is too large for a number. -/
def overflowing : RetryPolicy :=
  { maxRetries := some 3, backoffMs := some 0, backoffMultiplier := some (nearest (10 ^ 200)),
    retryable := some true }

def oneTask (retryPolicy : RetryPolicy) : WorkflowDefinition where
  name := "one task"
  tasks := [("a", { retryPolicy := some retryPolicy })]
  keys_nodup := List.nodup_singleton _

def workflowTask (retryPolicy : RetryPolicy) (retries : List Entry) : Db :=
  applyLog obliging {}
    (([Entry.workflowSubmit ⟨"w", oneTask retryPolicy⟩] ++ retries ++
      [Entry.taskAssign ⟨"u", "n"⟩, Entry.taskStarted ⟨"u", "n"⟩]).map .parsed)

def lost : TaskFailedPayload := ⟨"u", "lost", "n"⟩

theorem default_failure_handled :
    ∃ task, (submittedTask {} 2).getTask "u" = some task ∧
      FailureHandled (obliging 0) (submittedTask {} 2) lost task := by
  obtain ⟨task, htask, hattempt, hpolicy⟩ : ∃ task,
      (submittedTask {} 2).getTask "u" = some task ∧ task.attempt = 2 ∧
        task.policy = ⟨some 3, some 1000, some 2, some true⟩ := ⟨_, rfl, rfl, rfl⟩
  refine ⟨task, htask, (failureHandled_iff htask).mpr (.inr ?_)⟩
  rw [hattempt, hpolicy]
  refine ⟨1000, 4, rfl, .inr ⟨by decide, 2, rfl, .inr ⟨by decide, ?_⟩⟩, ?_, ?_⟩ <;> decide +kernel

/-- The error and the event are written, the handler throws, and the task stays
running. -/
structure Stranded (db : Db) : Prop where
  throws : (applyEntry (obliging 0) db (.taskFailed lost)).outcome = .error .invalidTimeValue
  running : ((applyEntry (obliging 0) db (.taskFailed lost)).db.getTask "u").map
    (fun t => (t.state, t.error)) = some (.running, some "lost")
  events : (applyEntry (obliging 0) db (.taskFailed lost)).db.events.length = db.events.length + 1
  unhandled : ∀ task, ¬ FailureHandled (obliging 0) db lost task

theorem not_failureHandled {db : Db} {e : ApplyError}
    (h : (applyEntry (obliging 0) db (.taskFailed lost)).outcome = .error e) (task : TaskRecord) :
    ¬ FailureHandled (obliging 0) db lost task := by
  rintro (⟨_, -, hok⟩ | ⟨_, hok⟩) <;> rw [h] at hok <;> cases hok

/-- A workflow without `backoffMs`, fifty retries asked of `submit_task` when
the forty-third has failed, and a delay of zero times infinity. -/
theorem failure_throws :
    Stranded (workflowTask noBackoffMs []) ∧ Stranded (submittedTask { maxRetries := some 50 } 43) ∧
      Stranded (workflowTask overflowing [.taskRetry ⟨"u", 2, 0⟩]) := by
  refine ⟨⟨?_, ?_, ?_, not_failureHandled (e := .invalidTimeValue) ?_⟩,
    ⟨?_, ?_, ?_, not_failureHandled (e := .invalidTimeValue) ?_⟩,
    ?_, ?_, ?_, not_failureHandled (e := .invalidTimeValue) ?_⟩ <;> decide +kernel

end ClaudeCluster.Tasks
