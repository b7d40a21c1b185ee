import ClaudeCluster.Tasks.Confluence
import ClaudeCluster.Tasks.Dependencies

/-!
# Workflows that get stuck

No one looks at the dependencies of a definition before it is run: not
`submit_workflow`, not the handler of the entry, not the tables. A task that
waits for an unknown key, or for itself by way of others, stays pending. These
are the only ones that do: once the outcomes are in and advances change
nothing, all other tasks are over, whatever their conditions say.
-/

namespace ClaudeCluster.Tasks

namespace WorkflowDefinition

variable (d : WorkflowDefinition)

/-- Every dependency is a task of the definition, and no task waits for itself. -/
structure WellOrdered : Prop where
  named : ∀ key dep, d.DependsOn key dep → dep ∈ d.tasks.map Prod.fst
  acyclic : ∀ key, ¬ Relation.TransGen d.DependsOn key key

/-- A task whose dependencies can end, those of its dependencies first. -/
inductive Grounded : TaskKey → Prop
  | intro {key : TaskKey} {def_ : WorkflowTaskDef} : (key, def_) ∈ d.tasks →
    (∀ dep ∈ def_.deps, Grounded dep) → Grounded key

variable {d}

theorem def_unique {key : TaskKey} {def_ def' : WorkflowTaskDef} (h : (key, def_) ∈ d.tasks)
    (h' : (key, def') ∈ d.tasks) : def' = def_ :=
  congrArg Prod.snd (List.inj_on_of_nodup_map d.keys_nodup h' h rfl)

theorem Grounded.dep {key dep : TaskKey} (h : d.Grounded key) (hon : d.DependsOn key dep) :
    d.Grounded dep := by
  obtain ⟨def', hk', hdep⟩ := hon
  obtain ⟨hk, hdeps⟩ := h
  rw [def_unique hk hk'] at hdep
  exact hdeps dep hdep

theorem Grounded.acc {key : TaskKey} (h : d.Grounded key) :
    Acc (fun dep key => d.DependsOn key dep) key := by
  induction h with
  | intro hk _ ih =>
    refine ⟨_, fun dep hon => ?_⟩
    obtain ⟨def', hk', hdep⟩ := hon
    rw [def_unique hk hk'] at hdep
    exact ih dep hdep

theorem not_rel_of_acc {α : Type} {r : α → α → Prop} {a : α} (h : Acc r a) : ¬ r a a := by
  induction h with
  | intro a _ ih => exact fun hr => ih a hr hr

/-- A definition is well ordered exactly when all its tasks are grounded. -/
theorem wellOrdered_iff : d.WellOrdered ↔ ∀ key ∈ d.tasks.map Prod.fst, d.Grounded key := by
  constructor
  · intro h key hk
    refine dependency_induction h.named h.acyclic (P := d.Grounded) ?_ hk
    exact fun key def_ hd hdeps => .intro hd hdeps
  · intro h
    constructor
    · rintro key dep ⟨def_, hk, hdep⟩
      obtain ⟨hd, -⟩ := (h key (List.mem_map.mpr ⟨_, hk, rfl⟩)).dep ⟨def_, hk, hdep⟩
      exact List.mem_map.mpr ⟨_, hd, rfl⟩
    · intro key hcycle
      -- a task on a cycle is one of the definition
      obtain ⟨dep, ⟨def_, hk, -⟩, -⟩ := Relation.TransGen.head'_iff.mp hcycle
      have hacc := (h key (List.mem_map.mpr ⟨_, hk, rfl⟩)).acc.transGen
      rw [← Relation.transGen_swap] at hcycle
      exact not_rel_of_acc hacc hcycle

end WorkflowDefinition

-- ---------------------------------------------------------------------------
-- Runs by outcomes
-- ---------------------------------------------------------------------------

/-- Tasks are submitted by themselves, and an entry about a task comes after
it was queued: a run of the workflow by outcomes and advances. -/
structure ByOutcomes (hosts : Nat → Host) (log : List Committed) : Prop where
  standalone : ∀ (n : Nat) (p : TaskSubmitPayload), log[n]? = some (.parsed (.taskSubmit p)) →
    p.workflowId = none
  queuedBefore : ∀ (n : Nat) (e : Entry) (id : TaskId), log[n]? = some (.parsed e) →
    e.taskId? = some id →
    ∃ m ≤ n, ∃ t, (stateAt hosts log m).getTask id = some t ∧ t.state = .queued

def Exhausted (db : Db) (w : WorkflowId) : Prop :=
  (∀ t ∈ (db.workflowView w).tasks, t.state.isTerminal ∨ t.state = .pending) ∧
    ∃ host, db.Settled host w

section
variable {hosts : Nat → Host} {log : List Committed} {i n : Nat} {p : WorkflowSubmitPayload}
  {db : Db} {w : WorkflowId} {d : WorkflowDefinition} {key : TaskKey} {def_ : WorkflowTaskDef}

theorem ByOutcomes.disciplined (h : ByOutcomes hosts log) : Disciplined hosts log where
  standalone := h.standalone
  queuedBefore n e id he hid := by
    refine h.queuedBefore n e id he ?_
    cases e with
    | taskAssign | taskStarted | taskFailed | taskRetry => exact hid
    | _ => cases hid

theorem Represents.ended (h : Represents db w d) (hw : d.WellOrdered)
    (hne : "" ∉ d.tasks.map Prod.fst) (hx : Exhausted db w) (hk : key ∈ d.tasks.map Prod.fst) :
    ∀ t ∈ (db.workflowView w).tasks, t.taskKey = some key → t.state.isTerminal := by
  obtain ⟨host, hsettled⟩ := hx.2
  refine WorkflowDefinition.dependency_induction hw.named hw.acyclic
    (P := fun key => ∀ t ∈ (db.workflowView w).tasks, t.taskKey = some key → t.state.isTerminal)
    ?_ hk
  intro key def_ hd ih t ht htk
  refine (hx.1 t ht).resolve_right fun hp => ?_
  have hkey : key ≠ "" := fun he => hne (he ▸ List.mem_map.mpr ⟨_, hd, rfl⟩)
  have hdeps : (db.workflowView w).allDepsTerminal key := by
    rw [h.allDepsTerminal hd, List.all_eq_true]
    intro dep hdep
    obtain ⟨⟨dep, def'⟩, hd', rfl⟩ := List.mem_map.mp (hw.named key dep ⟨def_, hd, hdep⟩)
    obtain ⟨u, hu, huk⟩ := h.exists_row hd'
    have hdne : dep ≠ "" := fun he => hne (he ▸ List.mem_map.mpr ⟨_, hd', rfl⟩)
    rw [h.stateOf_row hu huk hdne]
    exact ih dep hdep u hu huk
  -- so the advance has a verdict on it
  have hnone := (Db.settled_iff.mp hsettled).1 t ht
  have heval : WorkflowView.evaluatedKey t = some key := by
    rw [WorkflowView.evaluatedKey, if_pos hp, truthy_eq_some]
    exact ⟨htk, hkey⟩
  rw [WorkflowView.verdict, heval, Option.bind_some, if_pos hdeps] at hnone
  cases hnone

structure Stuck (w : WorkflowId) (d : WorkflowDefinition) (db : Db) : Prop where
  rows : Represents db w d
  pending : ∀ t ∈ (db.workflowView w).tasks, ∀ key, t.taskKey = some key → ¬ d.Grounded key →
    t.state = .pending

theorem Stuck.not_allDepsTerminal (h : Stuck w d db) (hd : (key, def_) ∈ d.tasks)
    (hg : ¬ d.Grounded key) : (db.workflowView w).allDepsTerminal key = false := by
  obtain ⟨dep, hdep, hdg⟩ : ∃ dep ∈ def_.deps, ¬ d.Grounded dep := by
    by_contra hall
    exact hg (.intro hd fun dep hdep => by_contra fun hdg => hall ⟨dep, hdep, hdg⟩)
  rw [h.rows.allDepsTerminal hd, List.all_eq_false]
  refine ⟨dep, hdep, fun hany => ?_⟩
  obtain ⟨st, hst, hterm⟩ := (Option.any_eq_true _ _).mp hany
  obtain ⟨u, hu, huk, -, rfl⟩ := h.rows.stateOf_eq_some.mp hst
  rw [h.pending u hu dep huk hdg] at hterm
  cases hterm

theorem Stuck.pass {host : Host} {db' : Db} {w' : WorkflowId} (h : Stuck w d db)
    (hp : Passed host w' db db') : Stuck w d db' where
  rows := h.rows.pass hp
  pending t' ht' key htk hg := by
    rw [view_tasks_map db.advanceRow_fixed hp.tasks] at ht'
    obtain ⟨t, ht, rfl⟩ := List.mem_map.mp ht'
    rw [Db.advanceRow_taskKey] at htk
    have hpend := h.pending t ht key htk hg
    unfold Db.advanceRow
    split
    case isFalse => exact hpend
    case isTrue hw =>
      obtain rfl : w = w' := Option.some.inj ((Db.mem_workflowView.mp ht).2.symm.trans hw)
      have hnone : (db.workflowView w).verdict host t = none := by
        by_contra hsome
        obtain ⟨b, hb⟩ := Option.ne_none_iff_exists'.mp hsome
        obtain ⟨key', def_, hd, htk'⟩ := h.rows.exists_def ht
        obtain rfl : key = key' := Option.some.inj (htk.symm.trans htk')
        have hall := (WorkflowView.verdict_eq_some htk hb).2.1
        rw [h.not_allDepsTerminal hd hg] at hall
        cases hall
      simp only [WorkflowView.move, hnone]
      exact hpend

theorem SubmittedAt.stuck (hs : SubmittedAt hosts log i p) (ho : ByOutcomes hosts log) (n : Nat)
    (hn : i < n) : Stuck p.workflowId p.definition (stateAt hosts log n) := by
  have hd := ho.disciplined
  induction n using Nat.strong_induction_on with
  | _ n ih =>
    obtain ⟨n, rfl⟩ : ∃ k, n = k + 1 := ⟨n - 1, by omega⟩
    refine ⟨hs.represents hd hn, ?_⟩
    intro t ht key htk hg
    have hrow : IsTask hosts log (n + 1) p.workflowId key t :=
      ⟨Db.getTask_of_mem (Db.mem_workflowView.mp ht).1, (Db.mem_workflowView.mp ht).2, htk⟩
    obtain rfl | hin := Nat.eq_or_lt_of_le (Nat.lt_succ_iff.mp hn)
    · obtain ⟨key', def_, hdef, htk'⟩ := (hs.represents hd hn).exists_def ht
      obtain rfl : key = key' := Option.some.inj (htk.symm.trans htk')
      refine hs.pending hd hdef (fun hnil => hg (.intro hdef ?_)) hrow
      simp [hnil]
    obtain hst | ⟨e, he, hst⟩ := stateAt_cases hosts log n
    · exact (ih n (by omega) hin).pending t (hst ▸ ht) key htk hg
    have hstuck := ih n (by omega) hin
    cases e with
    | workflowAdvance q =>
      have hafter := advance_of_pass (hosts n) (stateAt hosts log n) q
        (P := Stuck p.workflowId p.definition) (fun _ _ hdb hp => hdb.pass hp) hstuck
      rw [← hst] at hafter
      exact hafter.pending t ht key htk hg
    | _ =>
      obtain ⟨t₀, ht₀, hid, hafter⟩ := hs.previous hd hin he hrow
      have hview₀ := Db.mem_workflowView.mpr ⟨Db.getTask_mem ht₀.1, ht₀.2.1⟩
      have hpend := hstuck.pending t₀ hview₀ key ht₀.2.2 hg
      rw [hafter]
      simp only [Db.rowAfter]
      split
      case isTrue hnamed =>
        -- it was queued before, when it was pending
        obtain ⟨m, hmn, s, hsm, hq⟩ := ho.queuedBefore n _ _ he hnamed
        obtain ⟨him, hsrow⟩ := hs.earlier hd hmn ht₀ hsm
        have hviews := Db.mem_workflowView.mpr ⟨Db.getTask_mem hsrow.1, hsrow.2.1⟩
        have hpends := (ih m (by omega) him).pending s hviews key hsrow.2.2 hg
        rw [hpends] at hq
        cases hq
      case isFalse => exact hpend

/-- Once its outcomes are in and advances change nothing, a workflow that was
accepted has no pending task exactly when its definition is well ordered. -/
theorem no_pending_iff_wellOrdered (ho : ByOutcomes hosts log) (hs : SubmittedAt hosts log i p)
    (hne : "" ∉ p.definition.tasks.map Prod.fst) (hn : i < n)
    (hx : Exhausted (stateAt hosts log n) p.workflowId) :
    (∀ t ∈ ((stateAt hosts log n).workflowView p.workflowId).tasks, t.state ≠ .pending) ↔
      p.definition.WellOrdered := by
  have hrep := hs.represents ho.disciplined hn
  constructor
  · intro hnone
    rw [WorkflowDefinition.wellOrdered_iff]
    intro key hk
    by_contra hg
    obtain ⟨⟨key, def_⟩, hd, rfl⟩ := List.mem_map.mp hk
    obtain ⟨t, ht, htk⟩ := hrep.exists_row hd
    exact hnone t ht ((hs.stuck ho n hn).pending t ht key htk hg)
  · intro hw t ht hp
    obtain ⟨key, def_, hd, htk⟩ := hrep.exists_def ht
    have hterm := hrep.ended hw hne hx (List.mem_map.mpr ⟨_, hd, rfl⟩) t ht htk
    rw [hp] at hterm
    cases hterm

end

def orderlyEntry (hosts : Nat → Host) (log : List Committed) (n : Nat) : Committed → Bool
  | .parsed e =>
    (match e with
      | .taskSubmit p => p.workflowId = none
      | _ => true) &&
    e.taskId?.all fun id => (List.range (n + 1)).any fun m =>
      ((stateAt hosts log m).getTask id).any (·.state = .queued)
  | .foreign | .unparsable => true

theorem byOutcomes_of_orderly {hosts : Nat → Host} {log : List Committed}
    (h : log.zipIdx.all fun x => orderlyEntry hosts log x.2 x.1) : ByOutcomes hosts log := by
  have hentry : ∀ (n : Nat) (e : Entry), log[n]? = some (.parsed e) →
      orderlyEntry hosts log n (.parsed e) :=
    fun n e he => List.all_eq_true.mp h (_, n) (List.mk_mem_zipIdx_iff_getElem?.mpr he)
  constructor
  · intro n p hp
    have ho := hentry n _ hp
    simp only [orderlyEntry, Bool.and_eq_true, decide_eq_true_eq] at ho
    exact ho.1
  · intro n e id he hid
    have ho := hentry n e he
    simp only [orderlyEntry, Bool.and_eq_true, hid, Option.all_some, List.any_eq_true,
      List.mem_range, Option.any_eq_true, decide_eq_true_eq] at ho
    obtain ⟨-, m, hm, t, ht, hq⟩ := ho
    exact ⟨m, Nat.lt_succ_iff.mp hm, t, ht, hq⟩

def completesThree : List Committed :=
  .parsed (.workflowSubmit ⟨"w", chainOfThree⟩) ::
    ["u", "v", "x"].flatMap fun id =>
      [.parsed (.taskComplete ⟨id, {}⟩), .parsed (.workflowAdvance { workflowId := "w" })]

theorem chainOfThree_wellOrdered :
    Exhausted (stateAt obliging completesThree 7) "w" ∧ chainOfThree.WellOrdered := by
  have ho : ByOutcomes obliging completesThree := byOutcomes_of_orderly (by decide +kernel)
  have hs : SubmittedAt obliging completesThree 0 ⟨"w", chainOfThree⟩ := ⟨rfl, _, rfl⟩
  have hx : Exhausted (stateAt obliging completesThree 7) "w" :=
    ⟨by decide +kernel, obliging 0, by decide +kernel⟩
  refine ⟨hx, (no_pending_iff_wellOrdered ho hs (by decide) (by decide) hx).mp ?_⟩
  decide +kernel

def tangled : WorkflowDefinition where
  name := "tangled"
  tasks := [("a", { dependsOn := some ["b"] }), ("b", { dependsOn := some ["a"] }),
    ("c", { dependsOn := some ["missing"] })]

/-- The definition is accepted, and all its tasks wait for ever. -/
theorem tangled_deadlocks :
    let log : List Committed :=
      [.parsed (.workflowSubmit ⟨"w", tangled⟩), .parsed (.workflowAdvance { workflowId := "w" })]
    ByOutcomes obliging log ∧ SubmittedAt obliging log 0 ⟨"w", tangled⟩ ∧
      "" ∉ tangled.tasks.map Prod.fst ∧ Exhausted (stateAt obliging log 2) "w" ∧
      (stateAt obliging log 2).taskStates = [("u", .pending), ("v", .pending), ("x", .pending)] ∧
      tangled.DependsOn "c" "missing" ∧ "missing" ∉ tangled.tasks.map Prod.fst ∧
      tangled.DependsOn "a" "b" ∧ tangled.DependsOn "b" "a" := by
  intro log
  refine ⟨byOutcomes_of_orderly (by decide +kernel), ⟨rfl, _, rfl⟩, by decide,
    ⟨by decide +kernel, obliging 0, by decide +kernel⟩, by decide +kernel, ?_, by decide, ?_, ?_⟩
  · exact ⟨{ dependsOn := some ["missing"] }, by decide, by decide⟩
  · exact ⟨{ dependsOn := some ["b"] }, by decide, by decide⟩
  · exact ⟨{ dependsOn := some ["a"] }, by decide, by decide⟩

end ClaudeCluster.Tasks
