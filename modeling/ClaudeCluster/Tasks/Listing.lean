import ClaudeCluster.Lib.Slices
import ClaudeCluster.Tasks.StateMachine

/-!
# Pages of the task table

`listTasks` pages the tasks of one state in SQL, and `handleListTasks` then
drops from the page what the other two filters do not match. A page of the
matching tasks is a slice of their list.
-/

namespace ClaudeCluster.Tasks

open Raft (NodeId)
open Lib

-- ---------------------------------------------------------------------------
-- list_tasks
-- ---------------------------------------------------------------------------

def TaskEngineState.name : TaskEngineState → String
  | .queued => "queued"
  | .pending => "pending"
  | .assigned => "assigned"
  | .running => "running"
  | .completed => "completed"
  | .failed => "failed"
  | .cancelled => "cancelled"
  | .skipped => "skipped"
  | .deadLetter => "dead_letter"

structure ListTasksArgs where
  state : Option String := none
  workflowId : Option WorkflowId := none
  nodeId : Option NodeId := none
  limit : Option Int := none
  offset : Option Int := none
  deriving DecidableEq, Repr

namespace ListTasksArgs

variable (args : ListTasksArgs)

def pageLimit : Int := args.limit.getD 50

def pageOffset : Int := args.offset.getD 0

/-- `WHERE state = ?`, when there is a state. -/
def inState (task : TaskRecord) : Bool := (truthy args.state).all (task.state.name = ·)

def ofWorkflow (task : TaskRecord) : Bool := (truthy args.workflowId).all (task.workflowId = some ·)

def onNode (task : TaskRecord) : Bool := (truthy args.nodeId).all (task.assignedNode = some ·)

end ListTasksArgs

/-- `LIMIT ? OFFSET ?`: a negative limit is none, a negative offset is 0. -/
def limitOffset (limit offset : Int) (rows : List TaskRecord) : List TaskRecord :=
  if limit < 0 then rows.drop offset.toNat else (rows.drop offset.toNat).take limit.toNat

def Db.rowsInState (db : Db) (args : ListTasksArgs) : List TaskRecord :=
  (db.tasks.rows.filter args.inState).insertionSort TaskRecord.Before

def Db.listTasks (db : Db) (args : ListTasksArgs) : List TaskRecord :=
  limitOffset args.pageLimit args.pageOffset (db.rowsInState args)

structure ListedTask where
  taskId : TaskId
  state : TaskEngineState
  type : TaskType
  priority : Int
  assignedNode : Option NodeId
  attempt : Int
  createdAt : Time
  workflowId : Option WorkflowId
  deriving DecidableEq, Repr

def TaskRecord.listed (t : TaskRecord) : ListedTask where
  taskId := t.id
  state := t.state
  type := t.type
  priority := t.priority
  assignedNode := t.assignedNode
  attempt := t.attempt
  createdAt := t.createdAt
  workflowId := t.workflowId

structure TaskPage where
  tasks : List ListedTask
  total : Nat
  limit : Int
  offset : Int
  deriving DecidableEq, Repr

def handleListTasks (db : Db) (args : ListTasksArgs) : TaskPage :=
  let tasks := db.listTasks args
  let tasks := if (truthy args.workflowId).isSome then tasks.filter args.ofWorkflow else tasks
  let tasks := if (truthy args.nodeId).isSome then tasks.filter args.onNode else tasks
  { tasks := tasks.map TaskRecord.listed
    total := tasks.length
    limit := args.pageLimit
    offset := args.pageOffset }

-- ---------------------------------------------------------------------------
-- What a page should be
-- ---------------------------------------------------------------------------

/-- The filters that are not part of the query. -/
def ListTasksArgs.later (args : ListTasksArgs) (task : TaskRecord) : Bool :=
  args.ofWorkflow task && args.onNode task

def Db.matching (db : Db) (args : ListTasksArgs) : List TaskRecord :=
  (db.tasks.rows.filter fun t => args.inState t && args.later t).insertionSort TaskRecord.Before

/-- The answer is the slice of the matching tasks that was asked for. -/
def Paged (db : Db) (args : ListTasksArgs) : Prop :=
  (handleListTasks db args).tasks =
    (slice args.pageOffset.toNat (args.pageOffset + args.pageLimit).toNat (db.matching args)).map
      TaskRecord.listed

instance (db : Db) (args : ListTasksArgs) : Decidable (Paged db args) :=
  inferInstanceAs (Decidable (_ = _))

section
variable {db : Db} {args : ListTasksArgs}

instance : IsTrans TaskRecord TaskRecord.Before where
  trans a b c hab hbc := by
    obtain hp | ⟨hp, ht⟩ := hab <;> obtain hp' | ⟨hp', ht'⟩ := hbc
    · exact .inl (lt_trans hp' hp)
    · exact .inl (hp' ▸ hp)
    · exact .inl (hp ▸ hp')
    · exact .inr ⟨hp.trans hp', le_trans ht ht'⟩

instance : Std.Total TaskRecord.Before where
  total a b := by
    obtain hp | hp | hp := lt_trichotomy a.priority b.priority
    · exact .inr (.inl hp)
    · obtain ht | ht := le_total a.createdAt.isoOrder b.createdAt.isoOrder
      · exact .inl (.inr ⟨hp, ht⟩)
      · exact .inr (.inr ⟨hp.symm, ht⟩)
    · exact .inl (.inl hp)

theorem matching_eq (db : Db) (args : ListTasksArgs) :
    db.matching args = (db.rowsInState args).filter args.later := by
  rw [Db.rowsInState, filter_insertionSort, List.filter_filter, Db.matching]
  congr 1
  exact List.filter_congr fun t _ => Bool.and_comm _ _

theorem filter_later (tasks : List TaskRecord) :
    (let tasks := if (truthy args.workflowId).isSome then tasks.filter args.ofWorkflow else tasks
      if (truthy args.nodeId).isSome then tasks.filter args.onNode else tasks) =
      tasks.filter args.later := by
  have hgiven : ∀ (given : Option String) (p : TaskRecord → Bool) (l : List TaskRecord),
      (given = none → ∀ t, p t) → (if given.isSome then l.filter p else l) = l.filter p := by
    intro given p l h
    cases given with
    | none => exact (List.filter_eq_self.mpr fun t _ => h rfl t).symm
    | some _ => rfl
  have hw : truthy args.workflowId = none → ∀ t, args.ofWorkflow t := by
    intro h t
    simp [ListTasksArgs.ofWorkflow, h]
  have hn : truthy args.nodeId = none → ∀ t, args.onNode t := by
    intro h t
    simp [ListTasksArgs.onNode, h]
  simp only [hgiven _ _ _ hw]
  rw [hgiven _ _ _ hn, List.filter_filter]
  exact List.filter_congr fun t _ => Bool.and_comm _ _

def ListTasksArgs.pageEnd (args : ListTasksArgs) (rows : Nat) : Nat :=
  if args.pageLimit < 0 then max args.pageOffset.toNat rows
  else args.pageOffset.toNat + args.pageLimit.toNat

theorem offset_le_pageEnd (args : ListTasksArgs) (rows : Nat) :
    args.pageOffset.toNat ≤ args.pageEnd rows := by
  unfold ListTasksArgs.pageEnd
  split <;> omega

theorem listTasks_eq (db : Db) (args : ListTasksArgs) :
    db.listTasks args =
      slice args.pageOffset.toNat (args.pageEnd (db.rowsInState args).length)
        (db.rowsInState args) := by
  rw [Db.listTasks, limitOffset, ListTasksArgs.pageEnd]
  split
  · rw [slice, List.take_of_length_le (Nat.le_max_right _ _)]
  · rw [slice, List.drop_take, Nat.add_sub_cancel_left]

theorem tasks_eq (db : Db) (args : ListTasksArgs) :
    (handleListTasks db args).tasks =
      ((db.listTasks args).filter args.later).map TaskRecord.listed := by
  rw [← filter_later]
  rfl

theorem nodup_matching (db : Db) (args : ListTasksArgs) :
    ((db.matching args).map TaskRecord.listed).Nodup := by
  have hkeys : ((db.matching args).map TaskRecord.id).Nodup :=
    (((List.perm_insertionSort _ _).map _).nodup_iff).mpr
      (db.tasks.keys_nodup.sublist (List.filter_sublist.map _))
  have hid : (db.matching args).map TaskRecord.id =
      ((db.matching args).map TaskRecord.listed).map ListedTask.taskId := by
    rw [List.map_map]
    rfl
  exact List.Nodup.of_map _ (hid ▸ hkeys)

/-- As many rows match before the page as the page's offset says, and as many
before its end as the end says or as there are; or no row of the page matches,
and there is nothing at those positions among the matching tasks. -/
def PageInStep (db : Db) (args : ListTasksArgs) : Prop :=
  let rows := db.rowsInState args
  let first := (rows.take args.pageOffset.toNat).countP args.later
  let last := (rows.take (args.pageEnd rows.length)).countP args.later
  let wanted := min (args.pageOffset + args.pageLimit).toNat (rows.countP args.later)
  (first = args.pageOffset.toNat ∧ last = wanted) ∨
    (last ≤ first ∧ wanted ≤ args.pageOffset.toNat)

/-- A page is the slice asked for exactly when the rows that the later filters
drop do not shift it. -/
theorem paged_iff (db : Db) (args : ListTasksArgs) : Paged db args ↔ PageInStep db args := by
  have hlength : ((db.matching args).map TaskRecord.listed).length =
      (db.rowsInState args).countP args.later := by
    rw [List.length_map, matching_eq, List.countP_eq_length_filter]
  have hlast : ((db.rowsInState args).take (args.pageEnd (db.rowsInState args).length)).countP
      args.later ≤ ((db.matching args).map TaskRecord.listed).length := by
    rw [hlength]
    exact (List.take_sublist _ _).countP_le
  have hwanted : min (args.pageOffset + args.pageLimit).toNat
      ((db.rowsInState args).countP args.later) ≤
        ((db.matching args).map TaskRecord.listed).length := by
    rw [hlength]
    exact Nat.min_le_right _ _
  have hpage : (handleListTasks db args).tasks =
      slice (((db.rowsInState args).take args.pageOffset.toNat).countP args.later)
        (((db.rowsInState args).take (args.pageEnd (db.rowsInState args).length)).countP args.later)
        ((db.matching args).map TaskRecord.listed) := by
    rw [tasks_eq, listTasks_eq, filter_slice _ (offset_le_pageEnd args _), ← matching_eq, slice_map]
  have hslice : (slice args.pageOffset.toNat (args.pageOffset + args.pageLimit).toNat
      (db.matching args)).map TaskRecord.listed =
        slice args.pageOffset.toNat (min (args.pageOffset + args.pageLimit).toNat
          ((db.rowsInState args).countP args.later))
          ((db.matching args).map TaskRecord.listed) := by
    rw [← slice_map, ← hlength, slice_min_length]
  rw [Paged, hpage, hslice]
  exact slice_eq_slice_iff (nodup_matching db args) hlast hwanted

theorem paged_of_later (h : ∀ t ∈ db.rowsInState args, args.later t)
    (hlimit : 0 ≤ args.pageLimit) (hoffset : 0 ≤ args.pageOffset) : Paged db args := by
  have hself : (db.rowsInState args).filter args.later = db.rowsInState args :=
    List.filter_eq_self.mpr h
  have hslice : ∀ t ∈ db.listTasks args, args.later t := by
    intro t ht
    rw [listTasks_eq] at ht
    exact h t (List.mem_of_mem_take (List.mem_of_mem_drop ht))
  have hend : args.pageEnd (db.rowsInState args).length =
      (args.pageOffset + args.pageLimit).toNat := by
    unfold ListTasksArgs.pageEnd
    split <;> omega
  rw [Paged, tasks_eq, List.filter_eq_self.mpr hslice, listTasks_eq, hend, matching_eq, hself]

end

/-- Right pages of `k` tasks, one after the other, list the matching tasks, each
once. -/
theorem pages_enumerate {db : Db} {args : ListTasksArgs} (k n : Nat)
    (h : ∀ i < n, Paged db { args with limit := some k, offset := some ((i * k : Nat) : Int) })
    (hn : (db.matching args).length ≤ n * k) :
    (List.range n).flatMap (fun i =>
        (handleListTasks db
          { args with limit := some k, offset := some ((i * k : Nat) : Int) }).tasks) =
      (db.matching args).map TaskRecord.listed := by
  have hpage : ∀ i ∈ List.range n,
      (handleListTasks db
        { args with limit := some k, offset := some ((i * k : Nat) : Int) }).tasks =
        slice (i * k) (i * k + k) ((db.matching args).map TaskRecord.listed) := by
    intro i hi
    rw [h i (List.mem_range.mp hi), slice_map]
    rfl
  rw [List.flatMap_congr hpage, flatMap_slice, List.take_of_length_le (by simpa using hn)]

-- ---------------------------------------------------------------------------
-- A page that misses a task
-- ---------------------------------------------------------------------------

def workflowRow (id : TaskId) (workflowId : WorkflowId) (priority : Int) : TaskRecord where
  id
  workflowId := some workflowId
  taskKey := none
  type := .shell
  state := .queued
  priority
  spec := "\x7b\x7d"
  constraints := none
  retryPolicy := none
  attempt := 0
  createdAt := 0

def twoWorkflows : Db :=
  { tasks := ⟨[workflowRow "t" "v" 5, workflowRow "u" "w" 1], by decide⟩ }

/-- The first page of one task of `w` is empty: the first row is not of `w`. -/
theorem first_page_empty : ¬ Paged twoWorkflows { workflowId := some "w", limit := some 1 } := by
  decide +kernel

end ClaudeCluster.Tasks
