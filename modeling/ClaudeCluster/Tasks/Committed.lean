import ClaudeCluster.Tasks.StateMachine

/-!
# Committed entries

`handleEntryCommitted` and `handleStateMachineAction` of the plugin
(`plugins/task-engine/index.ts`), and what a node makes of a log, entry by
entry. Below them stands what applying an entry does to the tables, which is
all that later proofs use of the handlers: an entry about a task is one update
of one row, the others add rows or move pending ones.
-/

namespace ClaudeCluster.Tasks

open Lib (Table)

/-- What `entry.type` and `JSON.parse(entry.data)` come to. -/
inductive Committed
  /-- Not one of the task engine's types. -/
  | foreign
  /-- Data that does not parse. -/
  | unparsable
  | parsed (entry : Entry)
  deriving DecidableEq

def handleStateMachineAction : StateMachineAction → Option Entry
  | .retry taskId attempt scheduledAfter => some (.taskRetry ⟨taskId, attempt, scheduledAfter⟩)
  | .deadLetter taskId reason => some (.taskDeadLetter ⟨taskId, reason⟩)
  | .cancelRunning _ _ => none
  | .schedule _ _ => none
  -- the source has a log line here, and a note to implement it later
  | .workflowAdvance _ _ => none

/-- What `handleEntryCommitted` does with what the handler returns or throws. -/
def Applied.settled (applied : Applied) (isLeader : Bool) : Db × Option Entry :=
  match applied.outcome with
  | .ok (some action) => (applied.db, if isLeader then handleStateMachineAction action else none)
  | .ok none => (applied.db, none)
  -- caught and logged, a duplicate insert on a lower level
  | .error _ => (applied.db, none)

@[simp] theorem Applied.settled_db (applied : Applied) (isLeader : Bool) :
    (applied.settled isLeader).1 = applied.db := by
  unfold settled
  split <;> rfl

/-- The database afterwards, and what the node appends when it leads. -/
def handleEntryCommitted (host : Host) (isLeader : Bool) (db : Db) :
    Committed → Db × Option Entry
  | .foreign => (db, none)
  | .unparsable => (db, none)
  | .parsed entry => (applyEntry host db entry).settled isLeader

/-- A node applies a log; `hosts n` is what it sees while applying entry `n`. -/
def applyLog (hosts : Nat → Host) (db : Db) : List Committed → Db
  | [] => db
  | c :: cs => applyLog (fun n => hosts (n + 1)) (handleEntryCommitted (hosts 0) false db c).1 cs

@[simp] theorem handleEntryCommitted_parsed (host : Host) (isLeader : Bool) (db : Db) (e : Entry) :
    (handleEntryCommitted host isLeader db (.parsed e)).1 = (applyEntry host db e).db :=
  Applied.settled_db _ _

theorem applyLog_append (hosts : Nat → Host) (db : Db) (cs ds : List Committed) :
    applyLog hosts db (cs ++ ds) =
      applyLog (fun n => hosts (n + cs.length)) (applyLog hosts db cs) ds := by
  induction cs generalizing hosts db with
  | nil => rfl
  | cons c cs ih =>
    simp only [List.cons_append, applyLog, ih, List.length_cons]
    rfl

theorem Db.getTask_id {db : Db} {id : TaskId} {t : TaskRecord} (h : db.getTask id = some t) :
    t.id = id :=
  Table.find?_key h

theorem Db.getTask_mem {db : Db} {id : TaskId} {t : TaskRecord} (h : db.getTask id = some t) :
    t ∈ db.tasks.rows :=
  Table.find?_mem h

theorem Db.getTask_of_mem {db : Db} {t : TaskRecord} (h : t ∈ db.tasks.rows) :
    db.getTask t.id = some t :=
  Table.find?_of_mem h

-- ---------------------------------------------------------------------------
-- Entries about one task
-- ---------------------------------------------------------------------------

/-- The task an entry is about, unless it creates one. -/
def Entry.taskId? : Entry → Option TaskId
  | .taskAssign p => some p.taskId
  | .taskStarted p => some p.taskId
  | .taskComplete p => some p.taskId
  | .taskFailed p => some p.taskId
  | .taskCancel p => some p.taskId
  | .taskRetry p => some p.taskId
  | .taskDeadLetter p => some p.taskId
  | .taskSubmit _ | .workflowSubmit _ | .workflowAdvance _ => none

def Entry.submits? : Entry → Option TaskId
  | .taskSubmit p => some p.taskId
  | _ => none

def Entry.submitsWorkflow? : Entry → Option WorkflowId
  | .workflowSubmit p => some p.workflowId
  | _ => none

def Entry.set (host : Host) (t : TaskRecord) : Entry → TaskRecord
  | .taskAssign p =>
    { t with state := .assigned, assignedNode := some p.nodeId, assignedAt := some host.now }
  | .taskStarted _ => { t with state := .running, startedAt := some host.now }
  | .taskComplete p =>
    { t with state := .completed, result := some p.result, completedAt := some host.now }
  | .taskFailed p => { t with error := some p.error }
  | .taskCancel _ => { t with state := .cancelled, completedAt := some host.now }
  | .taskRetry p =>
    { t with
      state := .queued, attempt := p.attempt, assignedNode := none, assignedAt := none,
      startedAt := none, completedAt := none, error := none, result := none,
      scheduledAfter := some p.scheduledAfter }
  | .taskDeadLetter _ => { t with state := .deadLetter, deadLetteredAt := some host.now }
  | .taskSubmit _ | .workflowSubmit _ | .workflowAdvance _ => t

def TaskRecord.fixed (t : TaskRecord) : TaskRecord :=
  { t with
    state := .queued, attempt := 0, assignedNode := none, result := none, error := none,
    scheduledAfter := none, assignedAt := none, startedAt := none, completedAt := none,
    deadLetteredAt := none }

@[simp] theorem Entry.set_fixed (host : Host) (t : TaskRecord) (e : Entry) :
    (e.set host t).fixed = t.fixed := by
  cases e <;> rfl

@[simp] theorem Entry.set_id (host : Host) (t : TaskRecord) (e : Entry) :
    (e.set host t).id = t.id :=
  congrArg (·.id) (e.set_fixed host t)

section

variable {host : Host} {db : Db} {e : Entry} {id : TaskId}

/-- The three tables an entry about a task leaves behind. Where the row is
missing some handlers return early, and the update is of nothing. -/
theorem applyEntry_task (h : e.taskId? = some id) :
    (applyEntry host db e).db.tasks = db.tasks.modify id (e.set host) (e.set_id host) ∧
      (applyEntry host db e).db.workflows = db.workflows ∧
      (applyEntry host db e).db.dependencies = db.dependencies := by
  have missing (hn : db.getTask id = none) :
      db.tasks = db.tasks.modify id (e.set host) (e.set_id host) :=
    (Table.modify_of_find?_none _ hn).symm
  cases e with
  | taskAssign p | taskStarted p | taskRetry p | taskDeadLetter p =>
    cases h
    exact ⟨rfl, rfl, rfl⟩
  | taskComplete p =>
    cases h
    cases hg : db.getTask p.taskId with
    | none => simp only [applyEntry, handleTaskComplete, hg, and_true]; exact missing hg
    | some t => simp only [applyEntry, handleTaskComplete, hg]; exact ⟨rfl, rfl, rfl⟩
  | taskFailed p =>
    cases h
    cases hg : db.getTask p.taskId with
    | none => simp only [applyEntry, handleTaskFailed, hg, and_true]; exact missing hg
    | some t => simp only [applyEntry, handleTaskFailed, hg]; exact ⟨rfl, rfl, rfl⟩
  | taskCancel p =>
    cases h
    cases hg : db.getTask p.taskId with
    | none => simp only [applyEntry, handleTaskCancel, hg, and_true]; exact missing hg
    | some t => simp only [applyEntry, handleTaskCancel, hg]; exact ⟨rfl, rfl, rfl⟩
  | taskSubmit p | workflowSubmit p | workflowAdvance p => cases h

theorem getTask_applyEntry_task (h : e.taskId? = some id) (k : TaskId) :
    (applyEntry host db e).db.getTask k =
      if k = id then (db.getTask k).map (e.set host) else db.getTask k := by
  rw [Db.getTask, (applyEntry_task h).1, Table.find?_modify]
  rfl

theorem applyEntry_taskFailed {p : TaskFailedPayload} {t : TaskRecord}
    (h : db.getTask p.taskId = some t) :
    (applyEntry host db (.taskFailed p)).outcome = failureOutcome host p.taskId t := by
  simp only [applyEntry, handleTaskFailed, h]

end

-- ---------------------------------------------------------------------------
-- Submitting a task
-- ---------------------------------------------------------------------------

theorem applyEntry_taskSubmit (host : Host) (db : Db) (p : TaskSubmitPayload) :
    ((applyEntry host db (.taskSubmit p)).db = db ∧ p.taskId ∈ db.tasks.rows.map (·.id)) ∨
      ∃ tasks, db.tasks.insert (p.row host.now) = some tasks ∧
        (applyEntry host db (.taskSubmit p)).db.tasks = tasks ∧
        (applyEntry host db (.taskSubmit p)).db.workflows = db.workflows ∧
        (applyEntry host db (.taskSubmit p)).db.dependencies = db.dependencies := by
  simp only [applyEntry, handleTaskSubmit, Db.insertTask]
  cases hi : db.tasks.insert (p.row host.now) with
  | none => exact .inl ⟨rfl, Table.insert_eq_none.mp hi⟩
  | some tasks => exact .inr ⟨tasks, rfl, rfl, rfl, rfl⟩

theorem getTask_taskSubmit (host : Host) (db : Db) (p : TaskSubmitPayload) (k : TaskId) :
    (applyEntry host db (.taskSubmit p)).db.getTask k =
      if k = p.taskId then (db.getTask k).or (some (p.row host.now)) else db.getTask k := by
  obtain ⟨h, hm⟩ | ⟨tasks, hi, h, -, -⟩ := applyEntry_taskSubmit host db p
  · rw [h]
    split
    case isTrue hk =>
      subst hk
      obtain ⟨t, ht, hid⟩ := List.mem_map.mp hm
      have := Table.find?_of_mem ht
      simp_all [Db.getTask]
    case isFalse => rfl
  · rw [Db.getTask, h, Table.find?_insert hi]
    have hn := Table.find?_eq_none.mpr (Table.not_mem_of_insert hi)
    change db.getTask p.taskId = none at hn
    by_cases hk : k = p.taskId
    · subst hk
      rw [hn]
      simp [TaskSubmitPayload.row]
    · simp only [TaskSubmitPayload.row, hk, if_false]
      rfl

end ClaudeCluster.Tasks
