import ClaudeCluster.Tasks.WorkflowLaws

/-!
# Signalling workflow progress

When an entry ends a task of a workflow, the workflow may be able to go on: a
pending task has become ready or is to be skipped, or all tasks are over and
the row is to be closed. Only a `workflow_advance` entry does that. The leader
drops the action that asks for one, and three of the handlers that end tasks
do not even return it, so no entry of this kind is ever appended.
-/

namespace ClaudeCluster.Tasks

section

variable (host : Host) (db db' : Db) (w : WorkflowId)

def EndsTask : Prop :=
  ∃ t ∈ db.tasks.rows, t.workflowId = some w ∧ t.state.isTerminal = false ∧
    ∃ t' ∈ db'.tasks.rows, t'.id = t.id ∧ t'.state.isTerminal = true

/-- Some task of the workflow is still pending, or all are over and its row is
still `running`. -/
def Unfinished : Prop :=
  (∃ t ∈ db.tasks.rows, t.workflowId = some w ∧ t.state = .pending) ∨
    (∀ t ∈ db.tasks.rows, t.workflowId = some w → t.state.isTerminal = true) ∧
      ∃ r ∈ db.workflows.rows, r.id = w ∧ r.state = .running

instance : Decidable (EndsTask db db' w) := inferInstanceAs (Decidable (∃ t ∈ db.tasks.rows, _))

instance : Decidable (Unfinished db w) := inferInstanceAs (Decidable (_ ∨ _))

/-- The entry ends a task of the workflow, the workflow is not finished, and
re-evaluating it would change something. -/
def AdvanceDue (c : Committed) : Prop :=
  let db' := (handleEntryCommitted host true db c).1
  EndsTask db db' w ∧ Unfinished db' w ∧ ¬ db'.Settled host w

instance (c : Committed) : Decidable (AdvanceDue host db w c) :=
  inferInstanceAs (Decidable (_ ∧ _ ∧ _))

end

/-- A node that leads throughout appends a `workflow_advance` whenever one is due. -/
def SignalsAdvances (hosts : Nat → Host) (log : List Committed) : Prop :=
  ∀ before c after, log = before ++ c :: after → ∀ w,
    AdvanceDue (hosts before.length) (applyLog hosts {} before) w c →
      ∃ p : WorkflowAdvancePayload, p.workflowId = w ∧
        (handleEntryCommitted (hosts before.length) true (applyLog hosts {} before) c).2 =
          some (.workflowAdvance p)

theorem handleStateMachineAction_ne_advance (a : StateMachineAction) (p : WorkflowAdvancePayload) :
    handleStateMachineAction a ≠ some (.workflowAdvance p) := by
  cases a <;> simp [handleStateMachineAction]

theorem handleEntryCommitted_ne_advance (host : Host) (isLeader : Bool) (db : Db) (c : Committed)
    (p : WorkflowAdvancePayload) :
    (handleEntryCommitted host isLeader db c).2 ≠ some (.workflowAdvance p) := by
  cases c with
  | foreign | unparsable => simp [handleEntryCommitted]
  | parsed e =>
    simp only [handleEntryCommitted, Applied.settled]
    split
    case h_1 action _ =>
      cases isLeader with
      | true => exact handleStateMachineAction_ne_advance action p
      | false => simp
    case h_2 | h_3 => simp

/-- Progress is signalled exactly in the runs where none is ever due. -/
theorem signalsAdvances_iff (hosts : Nat → Host) (log : List Committed) :
    SignalsAdvances hosts log ↔
      ∀ before c after, log = before ++ c :: after → ∀ w,
        ¬ AdvanceDue (hosts before.length) (applyLog hosts {} before) w c := by
  constructor
  · intro h before c after hl w hdue
    obtain ⟨p, -, hp⟩ := h before c after hl w hdue
    exact handleEntryCommitted_ne_advance _ _ _ _ _ hp
  · intro h before c after hl w hdue
    exact absurd hdue (h before c after hl w)

def chain : WorkflowDefinition where
  name := "chain"
  tasks := [("a", {}), ("b", { dependsOn := some ["a"] })]

/-- `a` completes, and nobody asks for `b`. -/
theorem advance_not_signalled :
    let host : Host := ⟨"n", 0, fun i => if i = 0 then "u" else "v", fun _ _ _ => false,
      Lib.Binary64.nearestPower⟩
    let submit : Committed := .parsed (.workflowSubmit ⟨"w", chain⟩)
    let complete : Committed := .parsed (.taskComplete ⟨"u", { exitCode := some 0 }⟩)
    AdvanceDue host (applyLog (fun _ => host) {} [submit]) "w" complete ∧
      ¬ SignalsAdvances (fun _ => host) [submit, complete] := by
  intro host submit complete
  have hdue : AdvanceDue host (applyLog (fun _ => host) {} [submit]) "w" complete := by
    decide +kernel
  refine ⟨hdue, ?_⟩
  intro h
  obtain ⟨p, -, hp⟩ := h [submit] complete [] rfl "w" hdue
  exact handleEntryCommitted_ne_advance _ _ _ _ _ hp

end ClaudeCluster.Tasks
