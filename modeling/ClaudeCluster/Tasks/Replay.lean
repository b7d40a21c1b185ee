import ClaudeCluster.Lib.Overlay
import ClaudeCluster.Tasks.Committed

/-!
# Replaying the log of standalone tasks

A restarted node applies the whole log to the database it left behind. The
handlers of standalone tasks write constants without reading the row, so an
entry is an overlay of the columns it sets; a replayed submit is rejected and
leaves the row in its old state, from which the rest of the log brings every
column to the value of its last writer.
-/

namespace ClaudeCluster.Tasks

open Lib (Table Overlay)
open Raft (NodeId)

-- ---------------------------------------------------------------------------
-- The columns a log decides
-- ---------------------------------------------------------------------------

inductive Column
  | state
  | attempt
  | assignedNode
  | result
  | error
  | scheduledAfter
  deriving DecidableEq, Repr

abbrev Column.Value : Column → Type
  | .state => TaskEngineState
  | .attempt => Int
  | .assignedNode => Option NodeId
  | .result => Option TaskResult
  | .error => Option String
  | .scheduledAfter => Option Time

def TaskRecord.column (t : TaskRecord) : (c : Column) → c.Value
  | .state => t.state
  | .attempt => t.attempt
  | .assignedNode => t.assignedNode
  | .result => t.result
  | .error => t.error
  | .scheduledAfter => t.scheduledAfter

def submittedColumn : (c : Column) → c.Value
  | .state => .queued
  | .attempt => (0 : Int)
  | .assignedNode => none
  | .result => none
  | .error => none
  | .scheduledAfter => none

def Entry.columns : Entry → Overlay Column.Value
  | .taskAssign p => fun
    | .state => some .assigned
    | .assignedNode => some (some p.nodeId)
    | .attempt | .result | .error | .scheduledAfter => none
  | .taskStarted _ => fun
    | .state => some .running
    | .assignedNode | .attempt | .result | .error | .scheduledAfter => none
  | .taskComplete p => fun
    | .state => some .completed
    | .result => some (some p.result)
    | .assignedNode | .attempt | .error | .scheduledAfter => none
  | .taskFailed p => fun
    | .error => some (some p.error)
    | .state | .assignedNode | .attempt | .result | .scheduledAfter => none
  | .taskCancel _ => fun
    | .state => some .cancelled
    | .assignedNode | .attempt | .result | .error | .scheduledAfter => none
  | .taskRetry p => fun
    | .state => some .queued
    | .attempt => some p.attempt
    | .scheduledAfter => some (some p.scheduledAfter)
    | .assignedNode | .result | .error => some none
  | .taskDeadLetter _ => fun
    | .state => some .deadLetter
    | .assignedNode | .attempt | .result | .error | .scheduledAfter => none
  | .taskSubmit _ | .workflowSubmit _ | .workflowAdvance _ => 1

def Entry.writes (id : TaskId) (e : Entry) : Overlay Column.Value :=
  if e.taskId? = some id then e.columns else 1

theorem column_set (host : Host) (t : TaskRecord) (e : Entry) :
    (e.set host t).column = e.columns.apply t.column := by
  funext c
  cases e <;> cases c <;> rfl

-- ---------------------------------------------------------------------------
-- Applying standalone entries
-- ---------------------------------------------------------------------------

def Entry.Standalone : Entry → Prop
  | .taskSubmit p => p.workflowId = none
  | .workflowSubmit _ | .workflowAdvance _ => False
  | _ => True

/-- No other entry names the task before one that submits it. -/
def SubmittedFirst (id : TaskId) (log : List Entry) : Prop :=
  ∀ before e after, log = before ++ e :: after → e.taskId? = some id →
    id ∈ before.filterMap Entry.submits?

theorem Entry.Standalone.keeps {db : Db} {e : Entry} {id : TaskId} {t : TaskRecord}
    (he : e.Standalone) (host : Host) (ht : db.getTask id = some t) :
    ∃ t', (applyEntry host db e).db.getTask id = some t' ∧
      t'.column = (e.writes id).apply t.column := by
  cases hid : e.taskId? with
  | some k =>
    rw [getTask_applyEntry_task hid]
    by_cases hk : id = k
    · subst hk
      exact ⟨e.set host t, by simp [ht], by simp [Entry.writes, hid, column_set]⟩
    · exact ⟨t, by simp [hk, ht], by simp [Entry.writes, hid, Ne.symm hk]⟩
  | none =>
    cases e with
    | taskSubmit p =>
      refine ⟨t, ?_, by simp [Entry.writes, hid]⟩
      rw [getTask_taskSubmit, ht]
      simp
    | workflowSubmit | workflowAdvance => cases he
    | _ => cases hid

theorem Entry.Standalone.absent {db : Db} {e : Entry} {id : TaskId}
    (he : e.Standalone) (host : Host) (hn : db.getTask id = none) :
    if e.submits? = some id then
      ∃ t, (applyEntry host db e).db.getTask id = some t ∧ t.column = submittedColumn
    else (applyEntry host db e).db.getTask id = none := by
  cases hid : e.taskId? with
  | some k =>
    have hs : e.submits? = none := by cases e <;> first | rfl | cases hid
    rw [getTask_applyEntry_task hid]
    simp [hs, hn]
  | none =>
    cases e with
    | taskSubmit p =>
      rw [getTask_taskSubmit, hn]
      simp only [Entry.submits?, Option.some.injEq]
      split
      case isTrue hp =>
        refine ⟨p.row host.now, by simp [hp], ?_⟩
        have hw : p.workflowId = none := he
        funext c
        cases c <;> simp [TaskRecord.column, TaskSubmitPayload.row, submittedColumn, hw, truthy]
      case isFalse hp => simp [Ne.symm hp]
    | workflowSubmit | workflowAdvance => cases he
    | _ => cases hid

section

variable {hosts : Nat → Host} {db : Db} {log : List Entry} {id : TaskId}

/-- A whole log, on a task the database has: every column ends with its last writer. -/
theorem applyLog_keeps {t : TaskRecord} (hs : ∀ e ∈ log, e.Standalone)
    (ht : db.getTask id = some t) :
    ∃ t', (applyLog hosts db (log.map .parsed)).getTask id = some t' ∧
      t'.column = (log.map (Entry.writes id)).prod.apply t.column := by
  induction log generalizing hosts db t with
  | nil => exact ⟨t, ht, rfl⟩
  | cons e log ih =>
    rw [List.forall_mem_cons] at hs
    obtain ⟨t₁, ht₁, hc₁⟩ := hs.1.keeps (hosts 0) ht
    obtain ⟨t₂, ht₂, hc₂⟩ := @ih (fun n => hosts (n + 1)) _ _ hs.2 ht₁
    refine ⟨t₂, ?_, ?_⟩
    · simpa [applyLog] using ht₂
    · rw [hc₂, hc₁, List.map_cons, List.prod_cons, Overlay.apply_mul]

theorem SubmittedFirst.tail {e : Entry} (h : SubmittedFirst id (e :: log))
    (hn : e.submits? ≠ some id) : SubmittedFirst id log := by
  rintro before e' after rfl hid
  have hm := h (e :: before) e' after rfl hid
  rw [List.mem_filterMap] at hm ⊢
  obtain ⟨s, hs, hsub⟩ := hm
  cases hs with
  | head => exact absurd hsub hn
  | tail _ hs => exact ⟨s, hs, hsub⟩

theorem SubmittedFirst.head {e : Entry} (h : SubmittedFirst id (e :: log)) : e.taskId? ≠ some id := by
  intro he
  simpa using h [] e log rfl he

theorem SubmittedFirst.take {rest : List Entry} (h : SubmittedFirst id (log ++ rest)) :
    SubmittedFirst id log := by
  rintro before e after rfl hid
  exact h before e (after ++ rest) (by simp) hid

theorem applyLog_absent (hs : ∀ e ∈ log, e.Standalone) (hf : SubmittedFirst id log)
    (hn : db.getTask id = none) :
    ((applyLog hosts db (log.map .parsed)).getTask id).map TaskRecord.column =
      if id ∈ log.filterMap Entry.submits? then
        some ((log.map (Entry.writes id)).prod.apply submittedColumn)
      else none := by
  induction log generalizing hosts db with
  | nil => simp [applyLog, hn]
  | cons e log ih =>
    rw [List.forall_mem_cons] at hs
    have ha := hs.1.absent (hosts 0) hn
    have hw : e.writes id = 1 := by simp [Entry.writes, hf.head]
    by_cases hsub : e.submits? = some id
    · simp only [hsub, if_true] at ha
      obtain ⟨t, ht, hc⟩ := ha
      obtain ⟨t', ht', hc'⟩ := @applyLog_keeps (fun n => hosts (n + 1)) _ _ _ _ hs.2 ht
      simp [applyLog, ht', hc', hc, hsub, hw]
    · simp only [hsub, if_false] at ha
      have hr := @ih (fun n => hosts (n + 1)) _ hs.2 (hf.tail hsub) ha
      simpa [applyLog, hw, hsub] using hr

end

-- ---------------------------------------------------------------------------
-- Idempotence
-- ---------------------------------------------------------------------------

/-- Applying a whole log to a database that already reflects a part of it ends,
for every task, with the columns of applying it once. -/
theorem replay_over_prefix (hosts hosts' hosts'' : Nat → Host) (log applied : List Entry)
    (hs : ∀ e ∈ log, e.Standalone) (hf : ∀ id, SubmittedFirst id log) (hp : applied <+: log)
    (id : TaskId) :
    ((applyLog hosts' (applyLog hosts {} (applied.map .parsed)) (log.map .parsed)).getTask id).map
        TaskRecord.column =
      ((applyLog hosts'' {} (log.map .parsed)).getTask id).map TaskRecord.column := by
  obtain ⟨rest, rfl⟩ := hp
  have hs₁ : ∀ e ∈ applied, e.Standalone := fun e he => hs e (List.mem_append_left _ he)
  have once := @applyLog_absent hosts'' {} _ id hs (hf id) rfl
  have first := @applyLog_absent hosts {} _ id hs₁ (hf id).take rfl
  by_cases hm : id ∈ applied.filterMap Entry.submits?
  · -- the replayed submit is rejected; what the first application wrote is written again
    rw [if_pos hm] at first
    obtain ⟨t, ht, hc⟩ := Option.map_eq_some_iff.mp first
    obtain ⟨t', ht', hc'⟩ := @applyLog_keeps hosts' _ _ _ _ hs ht
    have hsub : applied.map (Entry.writes id) ⊆ (applied ++ rest).map (Entry.writes id) :=
      List.map_subset _ (List.subset_append_left _ _)
    rw [once, if_pos (by rw [List.filterMap_append]; exact List.mem_append_left _ hm), ht',
      Option.map_some, hc', hc, ← Overlay.apply_mul, Overlay.prod_mul_prod_of_subset hsub]
  · -- the task is new to the database in both runs
    rw [if_neg hm, Option.map_eq_none_iff] at first
    rw [once, applyLog_absent hs (hf id) first]

theorem replay_over_prefix_retried :
    let host : Host := ⟨"n", 5, fun _ => "", fun _ _ _ => false, Lib.Binary64.nearestPower⟩
    let log : List Entry :=
      [.taskSubmit { taskId := "t", submitterNode := "n" }, .taskAssign ⟨"t", "m"⟩,
        .taskStarted ⟨"t", "m"⟩, .taskFailed ⟨"t", "lost", "m"⟩, .taskRetry ⟨"t", 1, 9⟩,
        .taskAssign ⟨"t", "k"⟩, .taskStarted ⟨"t", "k"⟩, .taskComplete ⟨"t", { exitCode := some 0 }⟩]
    ((applyLog (fun _ => host) (applyLog (fun _ => host) {} ((log.take 4).map .parsed))
        (log.map .parsed)).getTask "t").map TaskRecord.column =
      ((applyLog (fun _ => host) {} (log.map .parsed)).getTask "t").map TaskRecord.column := by
  intro host log
  refine replay_over_prefix _ _ _ log (log.take 4) ?_ ?_ (List.take_prefix 4 log) "t"
  · simp [log, Entry.Standalone]
  · intro id before e after h hid
    have hn : ∀ e ∈ log, ∀ k ∈ e.taskId?, k = "t" := by decide
    have hk : id = "t" := hn e (h ▸ List.mem_append_right _ List.mem_cons_self) id hid
    cases before with
    | nil =>
      obtain rfl := (List.cons.inj h).1
      cases hid
    | cons s before =>
      obtain rfl := (List.cons.inj h).1
      simp [hk, Entry.submits?]

end ClaudeCluster.Tasks
