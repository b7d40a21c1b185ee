import ClaudeCluster.Tasks.WorkflowRows
import ClaudeCluster.Tasks.Dependencies

/-!
# What an evaluation decides, and on what

`workflow_advance` evaluates a workflow at most twice, and nobody asks for a
third time. On the rows of one workflow a pass is a function, `pass`; an
advance settles the workflow unless its second pass skips tasks, and these
skips decide more.

The verdict on a task comes from the states of its dependencies and, where it
has a condition, from whatever the expression reads of the sandbox. The
sandbox holds every task of the workflow.
-/

namespace ClaudeCluster.Tasks

open Lib (Table)

theorem all_congr_of_mem {α : Type} {l : List α} {p q : α → Bool} (h : ∀ x ∈ l, p x = q x) :
    l.all p = l.all q := by
  rw [Bool.eq_iff_iff, List.all_eq_true, List.all_eq_true]
  exact forall₂_congr fun x hx => by rw [h x hx]

-- ---------------------------------------------------------------------------
-- One pass over the rows of a workflow
-- ---------------------------------------------------------------------------

namespace WorkflowView

def pass (host : Host) (v : WorkflowView) : WorkflowView := { v with tasks := v.tasks.map (v.move host) }

def isOver (v : WorkflowView) : Bool := v.tasks.all (·.state.isTerminal)

def outcome (v : WorkflowView) : WorkflowState :=
  if v.tasks.any fun t => t.state = .failed || t.state = .deadLetter then .failed else .completed

def Still (host : Host) (v : WorkflowView) : Prop := ∀ t ∈ v.tasks, v.verdict host t = none

def Skipless (host : Host) (v : WorkflowView) : Prop :=
  ∀ t ∈ v.tasks, v.verdict host t ≠ some false

instance (host : Host) (v : WorkflowView) : Decidable (v.Still host) :=
  inferInstanceAs (Decidable (∀ t ∈ v.tasks, _))

instance (host : Host) (v : WorkflowView) : Decidable (v.Skipless host) :=
  inferInstanceAs (Decidable (∀ t ∈ v.tasks, _))

section
variable {host : Host} {v : WorkflowView} {t : TaskRecord} {key : TaskKey}

theorem Still.skipless (h : v.Still host) : v.Skipless host := by
  intro t ht
  rw [h t ht]
  nofun

@[simp] theorem move_fixed (t : TaskRecord) : (v.move host t).fixed = t.fixed := by
  unfold move
  split <;> rfl

theorem move_taskKey (t : TaskRecord) : (v.move host t).taskKey = t.taskKey :=
  congrArg (·.taskKey) (move_fixed t)

theorem verdict_of_terminal (h : t.state.isTerminal) : v.verdict host t = none := by
  have hp : t.state ≠ .pending := by
    rintro hp
    rw [hp] at h
    cases h
  simp [verdict, evaluatedKey, hp]

theorem still_of_isOver (h : v.isOver) : v.Still host :=
  fun _ ht => verdict_of_terminal (List.all_eq_true.mp h _ ht)

theorem move_of_still (h : v.verdict host t = none) : v.move host t = t := by
  simp [move, h]

theorem Still.pass_eq (h : v.Still host) : v.pass host = v := by
  have hmap : v.tasks.map (v.move host) = v.tasks :=
    (List.map_congr_left fun t ht => move_of_still (h t ht)).trans (List.map_id _)
  simp [pass, hmap]

theorem isTerminal_move (h : v.verdict host t ≠ some false) :
    (v.move host t).state.isTerminal = t.state.isTerminal := by
  unfold move
  split
  case h_1 hv =>
    have hp : t.state = .pending := by
      by_contra hp
      simp [verdict, evaluatedKey, hp] at hv
    rw [hp]
    rfl
  case h_2 hv => exact absurd hv h
  case h_3 => rfl

theorem taskByKey_pass (key : TaskKey) :
    taskByKey (v.pass host).tasks key = (taskByKey v.tasks key).map (v.move host) := by
  simp only [taskByKey, pass, List.filter_map, Function.comp_def, move_taskKey, List.getLast?_map]

theorem mem_of_taskByKey (h : taskByKey v.tasks key = some t) : t ∈ v.tasks :=
  List.mem_of_mem_filter (List.mem_of_getLast? h)

theorem Skipless.allDepsTerminal_pass (h : v.Skipless host) (key : TaskKey) :
    (v.pass host).allDepsTerminal key = v.allDepsTerminal key := by
  have hdep : ∀ dep, (v.pass host).depIn TaskEngineState.isTerminal dep =
      v.depIn TaskEngineState.isTerminal dep := by
    intro dep
    simp only [depIn, taskByKey_pass]
    cases hk : taskByKey v.tasks dep.dependsOnKey with
    | none => rfl
    | some t => exact isTerminal_move (h t (mem_of_taskByKey hk))
  exact congrArg _ (funext hdep)

theorem Skipless.still_pass (h : v.Skipless host) : (v.pass host).Still host := by
  intro t' ht'
  obtain ⟨t, ht, rfl⟩ := List.mem_map.mp ht'
  cases hv : v.verdict host t with
  | some b =>
    have hp : (v.move host t).state ≠ .pending := by
      simp only [move, hv]
      cases b <;> simp [TaskRecord.queue, TaskRecord.skip]
    simp [verdict, evaluatedKey, hp]
  | none =>
    rw [move_of_still hv]
    unfold verdict at hv ⊢
    cases hk : evaluatedKey t with
    | none => rfl
    | some key =>
      simp only [hk, Option.bind_some, h.allDepsTerminal_pass] at hv ⊢
      split at hv
      · cases hv
      case isFalse hd => exact if_neg hd

theorem Skipless.isOver_pass (h : v.Skipless host) : (v.pass host).isOver = v.isOver := by
  simp only [isOver, pass, List.all_map]
  exact all_congr_of_mem fun t ht => isTerminal_move (h t ht)

theorem not_over_of_skips (h : ¬ v.Skipless host) : v.isOver = false := by
  by_contra ho
  exact h (still_of_isOver (Bool.eq_true_of_not_eq_false ho)).skipless

theorem outcome_cases (v : WorkflowView) : v.outcome = .completed ∨ v.outcome = .failed := by
  unfold outcome
  split
  · exact .inr rfl
  · exact .inl rfl

end

end WorkflowView

-- ---------------------------------------------------------------------------
-- Passes over the tables
-- ---------------------------------------------------------------------------

section
variable {host : Host} {db db' : Db} {w : WorkflowId}

theorem Passed.workflows_over (h : Passed host w db db') (ho : (db.workflowView w).isOver) :
    db'.workflows = db.workflows.modify w fun r =>
      { r with state := (evaluateWorkflow host db w).workflowState, completedAt := some host.now } :=
  h.workflows.trans (if_pos ho)

theorem Passed.workflows_going (h : Passed host w db db') (ho : (db.workflowView w).isOver = false) :
    db'.workflows = db.workflows :=
  h.workflows.trans (if_neg (by rw [← Bool.not_eq_true] at ho; exact ho))

theorem Passed.view (h : Passed host w db db') :
    db'.workflowView w = (db.workflowView w).pass host := by
  have htasks : (db'.workflowView w).tasks =
      (db.workflowView w).tasks.map ((db.workflowView w).move host) := by
    rw [view_tasks_map db.advanceRow_fixed h.tasks]
    refine List.map_congr_left fun t ht => ?_
    rw [Db.advanceRow, if_pos (Db.mem_workflowView.mp ht).2]
  have hcontext : (db'.workflowView w).context = (db.workflowView w).context := by
    simp only [Db.workflowView]
    cases ho : (db.workflowView w).isOver with
    | true =>
      rw [h.workflows_over ho, Table.find?_modify, if_pos rfl]
      cases db.workflows.find? w <;> rfl
    | false => rw [h.workflows_going ho]
  have hdeps : (db'.workflowView w).deps = (db.workflowView w).deps := by
    simp only [Db.workflowView, h.dependencies]
  rw [WorkflowView.pass, ← htasks, ← hcontext, ← hdeps]

theorem evaluateWorkflow_outcome (h : (db.workflowView w).isOver) :
    (evaluateWorkflow host db w).workflowState = (db.workflowView w).outcome := by
  unfold WorkflowView.isOver at h
  simp [evaluateWorkflow, WorkflowView.outcome, h]

/-- The row of the workflow has the state its tasks come to, if they are over. -/
def Db.RowCurrent (db : Db) (w : WorkflowId) (v : WorkflowView) : Prop :=
  v.isOver → ∀ r ∈ db.workflows.rows, r.id = w → r.state = v.outcome

theorem Db.settled_iff_view :
    db.Settled host w ↔ (db.workflowView w).Still host ∧ db.RowCurrent w (db.workflowView w) := by
  rw [Db.settled_iff]
  refine and_congr_right fun _ => forall_congr' fun ho => ?_
  rw [evaluateWorkflow_outcome ho]

theorem Passed.settled (h : Passed host w db db') (hs : (db.workflowView w).Skipless host) :
    db'.Settled host w := by
  rw [Db.settled_iff_view, h.view]
  refine ⟨hs.still_pass, fun ho r' hr' hid => ?_⟩
  rw [hs.isOver_pass] at ho
  rw [(WorkflowView.still_of_isOver ho).pass_eq]
  rw [h.workflows_over ho, Table.rows_modify] at hr'
  obtain ⟨r, -, rfl⟩ := List.mem_map.mp hr'
  by_cases hr : r.id = w
  · simp [hr, evaluateWorkflow_outcome ho]
  · simp [hr] at hid

theorem skippedTasks_eq_nil :
    (evaluateWorkflow host db w).skippedTasks = [] ↔ (db.workflowView w).Skipless host := by
  simp only [evaluateWorkflow, List.map_eq_nil_iff, List.filter_eq_nil_iff, decide_eq_true_eq]
  rfl

/-- An advance has a second pass exactly when its first one skips. -/
theorem advance_eq (host : Host) (db : Db) (p : WorkflowAdvancePayload) :
    (applyEntry host db (.workflowAdvance p)).db =
      if (db.workflowView p.workflowId).Skipless host then firstPass host db p.workflowId
      else cascadePass host (firstPass host db p.workflowId) p.workflowId := by
  simp only [applyEntry_workflowAdvance, ne_eq, skippedTasks_eq_nil]
  by_cases hs : (db.workflowView p.workflowId).Skipless host
  · simp [hs]
  · have ho : (evaluateWorkflow host db p.workflowId).workflowComplete = false :=
      WorkflowView.not_over_of_skips hs
    simp [hs, ho]

theorem advance_action (host : Host) (db : Db) (p : WorkflowAdvancePayload) :
    (applyEntry host db (.workflowAdvance p)).outcome = .ok none ∨
      (applyEntry host db (.workflowAdvance p)).outcome = .ok (some (.schedule none none)) := by
  simp only [applyEntry, handleWorkflowAdvance]
  split
  · simp only
    split
    · exact .inr rfl
    · exact .inl rfl
  · simp only
    split
    · exact .inr rfl
    · exact .inl rfl

-- ---------------------------------------------------------------------------
-- When one advance is enough
-- ---------------------------------------------------------------------------

/-- After the advance another one would change no state, or is asked for; and
a workflow all of whose tasks are over has ended. -/
def Db.AdvanceSettles (host : Host) (db : Db) (p : WorkflowAdvancePayload) : Prop :=
  let applied := applyEntry host db (.workflowAdvance p)
  (applied.db.Settled host p.workflowId ∨
      ∃ id w, applied.outcome = .ok (some (.workflowAdvance id w))) ∧
    ((applied.db.workflowView p.workflowId).isOver →
      ∀ r ∈ applied.db.workflows.rows, r.id = p.workflowId →
        r.state = .completed ∨ r.state = .failed)

/-- The second pass skips nothing; or its skips decide nothing more, and the
row of the workflow need not change for them. -/
def Db.CascadeEnds (host : Host) (db : Db) (w : WorkflowId) : Prop :=
  let second := (db.workflowView w).pass host
  second.Skipless host ∨ ((second.pass host).Still host ∧ db.RowCurrent w (second.pass host))

theorem Db.advanceSettles_iff_settled {p : WorkflowAdvancePayload} :
    db.AdvanceSettles host p ↔
      (applyEntry host db (.workflowAdvance p)).db.Settled host p.workflowId := by
  constructor
  · rintro ⟨hs | ⟨id, w, ha⟩, -⟩
    · exact hs
    · rcases advance_action host db p with h | h <;> rw [h] at ha <;> cases ha
  · intro hs
    refine ⟨.inl hs, fun ho r hr hid => ?_⟩
    rw [(Db.settled_iff_view.mp hs).2 ho r hr hid]
    exact WorkflowView.outcome_cases _

/-- One advance settles a workflow exactly when its second pass ends the
cascade. -/
theorem advanceSettles_iff_cascadeEnds (host : Host) (db : Db) (p : WorkflowAdvancePayload) :
    db.AdvanceSettles host p ↔ db.CascadeEnds host p.workflowId := by
  have hfirst : Passed host p.workflowId db (firstPass host db p.workflowId) := firstPass_passed
  have hsecond : Passed host p.workflowId (firstPass host db p.workflowId)
      (cascadePass host (firstPass host db p.workflowId) p.workflowId) := cascadePass_passed
  rw [Db.advanceSettles_iff_settled, advance_eq, Db.CascadeEnds]
  by_cases hs : (db.workflowView p.workflowId).Skipless host
  · -- one pass, and the next would decide nothing
    rw [if_pos hs]
    exact iff_of_true (hfirst.settled hs) (.inl hs.still_pass.skipless)
  rw [if_neg hs]
  by_cases hs' : ((db.workflowView p.workflowId).pass host).Skipless host
  · refine iff_of_true (hsecond.settled ?_) (.inl hs')
    rw [hfirst.view]
    exact hs'
  · -- both passes skip, so neither touches the row of the workflow
    have ho := WorkflowView.not_over_of_skips hs
    have ho' : ((firstPass host db p.workflowId).workflowView p.workflowId).isOver = false := by
      rw [hfirst.view]
      exact WorkflowView.not_over_of_skips hs'
    rw [or_iff_right hs', Db.settled_iff_view, hsecond.view, hfirst.view, Db.RowCurrent,
      Db.RowCurrent, hsecond.workflows_going ho', hfirst.workflows_going ho]

end

def chainOfFour : WorkflowDefinition where
  name := "chain of four"
  tasks := [("a", {}), ("b", { dependsOn := some ["a"] }), ("c", { dependsOn := some ["b"] }),
    ("d", { dependsOn := some ["c"] })]

def fourIds (_ : Nat) : Host :=
  ⟨"n", 0, fun i => if i = 0 then "u" else if i = 1 then "v" else if i = 2 then "x" else "y",
    fun _ _ _ => true, Lib.Binary64.nearestPower⟩

/-- `a` is lost: the advance skips `b` and `c` and asks for nothing, though `d`
is now to be skipped as well. `b` is lost: it skips `c` and `d`, and the
workflow, with nothing left to do, stays running. -/
theorem cascade_stops :
    let submitted : Committed := .parsed (.workflowSubmit ⟨"w", chainOfFour⟩)
    let lostA := applyLog fourIds {} [submitted, .parsed (.taskDeadLetter ⟨"u", "lost"⟩)]
    let lostB := applyLog fourIds {}
      [submitted, .parsed (.taskComplete ⟨"u", {}⟩), .parsed (.taskDeadLetter ⟨"v", "lost"⟩)]
    let afterA := applyEntry (fourIds 0) lostA (.workflowAdvance { workflowId := "w" })
    let afterB := applyEntry (fourIds 0) lostB (.workflowAdvance { workflowId := "w" })
    (¬ lostA.AdvanceSettles (fourIds 0) { workflowId := "w" } ∧ afterA.outcome = .ok none ∧
        afterA.db.taskStates =
          [("u", .deadLetter), ("v", .skipped), ("x", .skipped), ("y", .pending)]) ∧
      ¬ lostB.AdvanceSettles (fourIds 0) { workflowId := "w" } ∧ afterB.outcome = .ok none ∧
        afterB.db.taskStates =
          [("u", .completed), ("v", .deadLetter), ("x", .skipped), ("y", .skipped)] ∧
        afterB.db.workflowStates = [("w", .running)] := by
  intro submitted lostA lostB afterA afterB
  simp only [Db.advanceSettles_iff_settled]
  decide +kernel

-- ---------------------------------------------------------------------------
-- What a verdict depends on
-- ---------------------------------------------------------------------------

/-- Of `parent`, the expression reads at most the properties in `keys`. -/
def Reads (host : Host) (keys : TaskKey → Bool) (condition : String) : Prop :=
  ∀ P Q context, P.filter (keys ·.1) = Q.filter (keys ·.1) →
    host.runInContext condition P context = host.runInContext condition Q context

/-- Two sets of rows agree on what the verdict on a task can depend on: the
states of its dependencies, the context, and `keys` of the sandbox. -/
structure AgreeOn (keys : TaskKey → Bool) (v v' : WorkflowView) (key : TaskKey) : Prop where
  deps : v'.taskDeps key = v.taskDeps key
  states : ∀ dep ∈ v.taskDeps key, (taskByKey v'.tasks dep.dependsOnKey).map (·.state) =
    (taskByKey v.tasks dep.dependsOnKey).map (·.state)
  context : v'.context = v.context
  sandbox : (parentResults v'.tasks).filter (keys ·.1) = (parentResults v.tasks).filter (keys ·.1)

structure AgreeOnDependencies (v v' : WorkflowView) (key : TaskKey) : Prop where
  deps : v'.taskDeps key = v.taskDeps key
  results : ∀ dep ∈ v.taskDeps key, (taskByKey v'.tasks dep.dependsOnKey).map parentResult =
    (taskByKey v.tasks dep.dependsOnKey).map parentResult
  context : v'.context = v.context

section
variable {host : Host} {keys : TaskKey → Bool} {v v' : WorkflowView} {key : TaskKey}

theorem AgreeOn.depIn (h : AgreeOn keys v v' key) (p : TaskEngineState → Bool)
    {dep : TaskDependencyRecord} (hd : dep ∈ v.taskDeps key) : v'.depIn p dep = v.depIn p dep := by
  have hstate := h.states dep hd
  have hany : ∀ o : Option TaskRecord, o.any (p ·.state) = (o.map (·.state)).any p := by
    rintro (_ | _) <;> rfl
  simp only [WorkflowView.depIn, hany, hstate]

theorem AgreeOn.edgePasses (h : AgreeOn keys v v' key) {dep : TaskDependencyRecord}
    (hd : dep ∈ v.taskDeps key) (hread : ∀ c ∈ truthy dep.condition, Reads host keys c) :
    v'.edgePasses host dep = v.edgePasses host dep := by
  unfold WorkflowView.edgePasses
  split
  · exact h.depIn _ hd
  case h_2 condition hc =>
    simp only [evaluateCondition, h.context]
    rw [hread condition hc _ _ _ h.sandbox]

theorem AgreeOn.verdict (h : AgreeOn keys v v' key) {t t' : TaskRecord}
    (ht : WorkflowView.evaluatedKey t = some key) (ht' : WorkflowView.evaluatedKey t' = some key)
    (hread : ∀ dep ∈ v.taskDeps key, ∀ c ∈ truthy dep.condition, Reads host keys c) :
    v'.verdict host t' = v.verdict host t := by
  have hterminal : v'.allDepsTerminal key = v.allDepsTerminal key := by
    simp only [WorkflowView.allDepsTerminal, h.deps]
    exact all_congr_of_mem fun dep hd => h.depIn _ hd
  have hrun : v'.shouldRun host key = v.shouldRun host key := by
    simp only [WorkflowView.shouldRun, h.deps]
    split
    · exact all_congr_of_mem fun dep hd => h.edgePasses hd (hread dep hd)
    · exact all_congr_of_mem fun dep hd => h.depIn _ hd
  simp only [WorkflowView.verdict, ht, ht', Option.bind_some, hterminal, hrun]

end

def IsPending (db : Db) (w : WorkflowId) (key : TaskKey) (t : TaskRecord) : Prop :=
  t ∈ (db.workflowView w).tasks ∧ t.state = .pending ∧ truthy t.taskKey = some key

def SameVerdict (host : Host) (db db' : Db) (w : WorkflowId) (t t' : TaskRecord) : Prop :=
  (t'.id ∈ (evaluateWorkflow host db' w).readyTasks ↔
      t.id ∈ (evaluateWorkflow host db w).readyTasks) ∧
    (t'.id ∈ (evaluateWorkflow host db' w).skippedTasks ↔
      t.id ∈ (evaluateWorkflow host db w).skippedTasks)

section
variable {host : Host} {keys : TaskKey → Bool} {db db' : Db} {w : WorkflowId} {key : TaskKey}
  {t t' : TaskRecord}

theorem sameVerdict_of_verdict (ht : t ∈ (db.workflowView w).tasks)
    (ht' : t' ∈ (db'.workflowView w).tasks)
    (h : (db'.workflowView w).verdict host t' = (db.workflowView w).verdict host t) :
    SameVerdict host db db' w t t' := by
  obtain ⟨hrow, hw⟩ := Db.mem_workflowView.mp ht
  obtain ⟨hrow', hw'⟩ := Db.mem_workflowView.mp ht'
  constructor
  · refine (Db.mem_verdict_ids hrow' true).trans (Iff.trans ?_ (Db.mem_verdict_ids hrow true).symm)
    rw [h, hw, hw']
  · refine (Db.mem_verdict_ids hrow' false).trans
      (Iff.trans ?_ (Db.mem_verdict_ids hrow false).symm)
    rw [h, hw, hw']

/-- Whether a pending task is readied or skipped depends on the states of its
dependencies, on the context, and on what its condition reads of the sandbox. -/
theorem sameVerdict_of_agreeOn (ht : IsPending db w key t) (ht' : IsPending db' w key t')
    (hread : ∀ dep ∈ (db.workflowView w).taskDeps key, ∀ c ∈ truthy dep.condition,
      Reads host keys c)
    (h : AgreeOn keys (db.workflowView w) (db'.workflowView w) key) :
    SameVerdict host db db' w t t' := by
  obtain ⟨hrow, hp, hk⟩ := ht
  obtain ⟨hrow', hp', hk'⟩ := ht'
  refine sameVerdict_of_verdict hrow hrow' (h.verdict ?_ ?_ hread)
  · rw [WorkflowView.evaluatedKey, if_pos hp, hk]
  · rw [WorkflowView.evaluatedKey, if_pos hp', hk']

end

def siblings (condition : Option String) : WorkflowDefinition where
  name := "siblings"
  tasks := [("a", {}), ("b", {}), ("c", { dependsOn := some ["a"], condition := condition })]
  keys_nodup := (by decide : ["a", "b", "c"].Nodup)

/-- A node for which every expression is `parent.b.exitCode === 0`. -/
def readsB (_ : Nat) : Host :=
  ⟨"n", 0, fun i => if i = 0 then "u" else if i = 1 then "v" else "x",
    fun _ parent _ => parent.any fun p => p.1 = "b" && p.2.exitCode = 0, Lib.Binary64.nearestPower⟩

def afterA (condition : Option String) (endB : List Entry) : Db :=
  applyLog readsB {} ((.workflowSubmit ⟨"w", siblings condition⟩ ::
    .taskComplete ⟨"u", { exitCode := some 0 }⟩ :: endB).map .parsed)

def endB : List Entry := [.taskComplete ⟨"v", { exitCode := some 0 }⟩]

def rowC (condition : Option String) : TaskRecord :=
  WorkflowTaskDef.row { dependsOn := some ["a"], condition := condition } "x" "w" "c" 0

theorem rowC_pending (endB' : List Entry) (h : endB' = [] ∨ endB' = endB) (c : Option String)
    (hc : c = none ∨ c = some "parent.b.exitCode === 0") :
    IsPending (afterA c endB') "w" "c" (rowC c) := by
  obtain rfl | rfl := h <;> obtain rfl | rfl := hc <;>
    exact ⟨by decide +kernel, by decide +kernel, by decide +kernel⟩

theorem sibling_not_read :
    IsPending (afterA none []) "w" "c" (rowC none) ∧ IsPending (afterA none endB) "w" "c" (rowC none) ∧
      SameVerdict (readsB 0) (afterA none []) (afterA none endB) "w" (rowC none) (rowC none) := by
  have h := rowC_pending [] (.inl rfl) none (.inl rfl)
  have h' := rowC_pending endB (.inr rfl) none (.inl rfl)
  refine ⟨h, h', @sameVerdict_of_agreeOn (readsB 0) (fun _ => false) _ _ _ _ _ _ h h' ?_ ?_⟩
  · have hnone : ∀ dep ∈ ((afterA none []).workflowView "w").taskDeps "c",
        truthy dep.condition = none := by decide +kernel
    intro dep hd c hc
    rw [hnone dep hd] at hc
    cases hc
  · exact ⟨by decide +kernel, by decide +kernel, by decide +kernel, by decide +kernel⟩

/-- The condition of `c` reads `b`, which it does not depend on: the two states
agree on `a` and the context, and `c` is skipped in one and readied in the
other. -/
theorem sibling_read :
    let condition := some "parent.b.exitCode === 0"
    let db := afterA condition []
    let db' := afterA condition endB
    AgreeOnDependencies (db.workflowView "w") (db'.workflowView "w") "c" ∧
      IsPending db "w" "c" (rowC condition) ∧ IsPending db' "w" "c" (rowC condition) ∧
      "x" ∈ (evaluateWorkflow (readsB 0) db "w").skippedTasks ∧
      "x" ∈ (evaluateWorkflow (readsB 0) db' "w").readyTasks ∧
      ¬ SameVerdict (readsB 0) db db' "w" (rowC condition) (rowC condition) := by
  intro condition db db'
  refine ⟨⟨by decide +kernel, by decide +kernel, by decide +kernel⟩,
    rowC_pending [] (.inl rfl) _ (.inr rfl), rowC_pending endB (.inr rfl) _ (.inr rfl),
    by decide +kernel, by decide +kernel, ?_⟩
  rintro ⟨hready, -⟩
  revert hready
  decide +kernel

end ClaudeCluster.Tasks
