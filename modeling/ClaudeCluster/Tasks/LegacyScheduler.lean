import ClaudeCluster.Lib.Run
import ClaudeCluster.Lib.Table
import Mathlib.Data.List.Sort

/-!
# The legacy scheduler

`TaskScheduler` queues what is submitted, dispatches it to a node and queues it
again when the dispatch fails. The number of attempts lives in the queue entry,
which is deleted before the dispatch: where a failure looks for it there is
none, so every failure is the first. With retries switched off the bound holds;
otherwise it holds as long as no dispatch fails that should have been the last
(`retryBounded_of_fewFailures`).
-/

namespace ClaudeCluster.Tasks.Legacy

open Lib (Table System)

-- ---------------------------------------------------------------------------
-- Tasks
-- ---------------------------------------------------------------------------

structure TaskSpec where
  taskId : String
  type : String
  shellCommand : Option String := none
  containerImage : Option String := none
  subagentPrompt : Option String := none
  k8sImage : Option String := none
  k8sContext : Option String := none
  relaySession : Option String := none
  relayPrompt : Option String := none
  priority : Option Int := none
  deriving DecidableEq, Repr

inductive TaskState where
  | queued | assigned | running | completed | failed | cancelled
  deriving DecidableEq, Repr

structure TaskStatus where
  taskId : String
  state : TaskState
  assignedNode : Option String := none
  exitCode : Option Int := none
  error : Option String := none
  deriving DecidableEq, Repr

/-- `submission` is not in the source: which accepted submission this is. -/
structure QueuedTask where
  spec : TaskSpec
  queuedAt : Nat
  attempts : Nat
  submission : Nat
  deriving DecidableEq, Repr

def QueuedTask.taskId (q : QueuedTask) : String := q.spec.taskId

structure RunningTask where
  spec : TaskSpec
  assignedNode : String
  deriving DecidableEq, Repr

def RunningTask.taskId (r : RunningTask) : String := r.spec.taskId

/-- A call of `dispatchTask`: its loop over the stream goes on, is over, or threw. -/
inductive Stream where
  | live | done | broken
  deriving DecidableEq, Repr

structure Dispatch where
  spec : TaskSpec
  submission : Nat
  stream : Stream := .live
  deriving DecidableEq, Repr

/-- What is emitted; the submission is not in the source. -/
inductive Event where
  | taskSubmitted (taskId : String)
  | taskAssigned (taskId : String) (node : String)
  | statusChanged (status : TaskStatus)
  | taskCompleted (taskId : String) (success : Bool)
  | taskFailed (taskId : String) (error : String) (submission : Nat)
  deriving DecidableEq, Repr

structure SchedulerConfig where
  maxQueueSize : Option Nat := none
  maxRetries : Option Nat := none

def SchedulerConfig.queueSize (config : SchedulerConfig) : Nat := config.maxQueueSize.getD 1000

def SchedulerConfig.retries (config : SchedulerConfig) : Nat := config.maxRetries.getD 3

/-- The members of the class, the calls that wait, and what was accepted and
cancelled so far, which is not in the source. -/
structure TaskScheduler where
  taskQueue : Table QueuedTask.taskId := .empty
  runningTasks : Table RunningTask.taskId := .empty
  taskStatuses : Table TaskStatus.taskId := .empty
  emitted : List Event := []
  submits : List TaskSpec := []
  dispatches : List Dispatch := []
  cancels : List String := []
  accepted : List TaskSpec := []
  cancelled : List String := []
  deriving DecidableEq

-- ---------------------------------------------------------------------------
-- The methods
-- ---------------------------------------------------------------------------

def filled (field : Option String) : Bool := field.any (· ≠ "")

def validateTask (spec : TaskSpec) : Except String Unit :=
  if spec.taskId = "" then .error "Missing taskId"
  else if spec.type = "" then .error "Missing task type"
  else if spec.type = "shell" then
    if filled spec.shellCommand then .ok () else .error "Shell task missing command"
  else if spec.type = "container" then
    if filled spec.containerImage then .ok () else .error "Container task missing image"
  else if spec.type = "subagent" then
    if filled spec.subagentPrompt then .ok () else .error "Subagent task missing prompt"
  else if spec.type = "k8s_job" then
    if filled spec.k8sImage && filled spec.k8sContext then .ok ()
    else .error "K8s job missing image or context"
  else if spec.type = "claude_relay" then
    if filled spec.relaySession && filled spec.relayPrompt then .ok ()
    else .error "Claude relay missing target or prompt"
  else .error s!"Unknown task type: {spec.type}"

namespace TaskScheduler

def emit (s : TaskScheduler) (e : Event) : TaskScheduler := { s with emitted := s.emitted ++ [e] }

def updateStatus (s : TaskScheduler) (taskId : String) (state : TaskState)
    (assignedNode : Option String := none) : TaskScheduler :=
  let old : TaskStatus := (s.taskStatuses.find? taskId).getD { taskId, state }
  let status : TaskStatus :=
    { old with taskId, state, assignedNode := assignedNode.or old.assignedNode }
  { s with
    taskStatuses := s.taskStatuses.put status
    emitted := s.emitted ++ [.statusChanged status] }

/-- `submit`, up to the append. A submission that is not valid, is forwarded or
finds the queue full leaves nothing here. -/
def submit (config : SchedulerConfig) (s : TaskScheduler) (spec : TaskSpec) (leader : Bool) :
    TaskScheduler :=
  match validateTask spec with
  | .error _ => s
  | .ok () =>
    if !leader || config.queueSize ≤ s.taskQueue.rows.length then s
    else { s with submits := s.submits ++ [spec] }

def accept (s : TaskScheduler) (spec : TaskSpec) (now : Nat) : TaskScheduler :=
  { s with
    taskQueue := s.taskQueue.put ⟨spec, now, 0, s.accepted.length⟩
    taskStatuses := s.taskStatuses.put { taskId := spec.taskId, state := .queued }
    accepted := s.accepted ++ [spec]
    emitted := s.emitted ++ [.taskSubmitted spec.taskId] }

def dispatchTask (s : TaskScheduler) (q : QueuedTask) (node : String) : TaskScheduler :=
  let s := { s with
    runningTasks := s.runningTasks.put ⟨q.spec, node⟩
    dispatches := s.dispatches ++ [Dispatch.mk q.spec q.submission .live] }
  ((s.updateStatus q.taskId .assigned node).emit (.taskAssigned q.taskId node)).updateStatus
    q.taskId .running node

/-- Higher priorities first, then what has been queued for longer. -/
def QueuedTask.before (a b : QueuedTask) : Bool :=
  b.spec.priority.getD 0 < a.spec.priority.getD 0 ||
    b.spec.priority.getD 0 = a.spec.priority.getD 0 && a.queuedAt ≤ b.queuedAt

def scheduleOne (scheduleTask : TaskSpec → Option String) (s : TaskScheduler) (q : QueuedTask) :
    TaskScheduler :=
  match scheduleTask q.spec with
  | none => s
  | some node => dispatchTask { s with taskQueue := s.taskQueue.delete q.taskId } q node

/-- The node `scheduleTask` finds for a task is a parameter: any, or none. -/
def scheduleNext (s : TaskScheduler) (leader : Bool) (scheduleTask : TaskSpec → Option String) :
    TaskScheduler :=
  if !leader then s
  else
    let queue := s.taskQueue.rows.insertionSort (QueuedTask.before · ·)
    queue.foldl (scheduleOne scheduleTask) s

def handleTaskCompletion (s : TaskScheduler) (taskId : String) (exitCode : Option Int)
    (error : Option String) : TaskScheduler :=
  let success := exitCode = some 0
  let s := { s with
    runningTasks := s.runningTasks.delete taskId
    taskStatuses := s.taskStatuses.modify taskId fun status =>
      { status with
        state := if success then .completed else .failed
        exitCode := some (exitCode.getD (-1))
        error := error } }
  s.emit (.taskCompleted taskId success)

def handleTaskFailure (config : SchedulerConfig) (s : TaskScheduler) (spec : TaskSpec)
    (submission : Nat) (error : String) (now : Nat) : TaskScheduler :=
  let s := { s with runningTasks := s.runningTasks.delete spec.taskId }
  let queued := s.taskQueue.find? spec.taskId
  let attempts := (queued.map QueuedTask.attempts).getD 0
  if attempts < config.retries then
    updateStatus { s with taskQueue := s.taskQueue.put ⟨spec, now, attempts + 1, submission⟩ }
      spec.taskId .queued
  else
    let s := s.updateStatus spec.taskId .failed
    emit { s with
      taskStatuses := s.taskStatuses.modify spec.taskId fun status =>
        { status with error := some error } } (.taskFailed spec.taskId error submission)

def cancel (s : TaskScheduler) (taskId : String) : TaskScheduler :=
  if (s.taskQueue.find? taskId).isSome then
    updateStatus { s with
      taskQueue := s.taskQueue.delete taskId
      cancelled := taskId :: s.cancelled } taskId .cancelled
  else if (s.runningTasks.find? taskId).isSome then { s with cancels := s.cancels ++ [taskId] }
  else s

-- ---------------------------------------------------------------------------
-- The scheduler as a system
-- ---------------------------------------------------------------------------

inductive Action where
  | submit (spec : TaskSpec) (leader : Bool)
  | appended (i : Nat) (success : Bool) (now : Nat)
  | scheduleNext (leader : Bool) (scheduleTask : TaskSpec → Option String)
  | status (i : Nat) (exitCode : Option Int) (error : Option String)
  | ended (i : Nat)
  | broken (i : Nat) (error : String) (now : Nat)
  | cancel (taskId : String)
  | cancelAnswered (i : Nat) (success : Bool)

def live (s : TaskScheduler) (i : Nat) : Option Dispatch :=
  s.dispatches[i]?.filter (·.stream = .live)

def close (s : TaskScheduler) (i : Nat) (d : Dispatch) (stream : Stream) : TaskScheduler :=
  { s with dispatches := s.dispatches.set i { d with stream } }

def step (config : SchedulerConfig) (s : TaskScheduler) : Action → Option TaskScheduler
  | .submit spec leader => some (s.submit config spec leader)
  | .appended i success now => do
    let spec ← s.submits[i]?
    let s := { s with submits := s.submits.eraseIdx i }
    some (if success then s.accept spec now else s)
  | .scheduleNext leader scheduleTask => some (s.scheduleNext leader scheduleTask)
  | .status i exitCode error => do
    let d ← s.live i
    some (s.handleTaskCompletion d.spec.taskId exitCode error)
  | .ended i => do
    let d ← s.live i
    some (s.close i d .done)
  | .broken i error now => do
    let d ← s.live i
    some ((s.close i d .broken).handleTaskFailure config d.spec d.submission error now)
  | .cancel taskId => some (s.cancel taskId)
  | .cancelAnswered i success => do
    let taskId ← s.cancels[i]?
    let s := { s with cancels := s.cancels.eraseIdx i }
    some (if success then
      updateStatus { s with cancelled := taskId :: s.cancelled } taskId .cancelled
      else s)

def scheduler (config : SchedulerConfig) : System TaskScheduler Action where
  init := (· = {})
  step := step config

-- ---------------------------------------------------------------------------
-- What is counted
-- ---------------------------------------------------------------------------

def dispatched (s : TaskScheduler) (n : Nat) : Nat := s.dispatches.countP (·.submission = n)

def failures (s : TaskScheduler) (n : Nat) : Nat :=
  s.dispatches.countP fun d => d.submission = n && d.stream = .broken

def gaveUp (s : TaskScheduler) (n : Nat) : Nat :=
  s.emitted.countP fun e => match e with
    | .taskFailed _ _ m => m = n
    | _ => false

def stateOf (s : TaskScheduler) (taskId : String) : Option TaskState :=
  (s.taskStatuses.find? taskId).map TaskStatus.state

def Once (s : TaskScheduler) (n : Nat) (spec : TaskSpec) : Prop :=
  ∀ m other, s.accepted[m]? = some other → other.taskId = spec.taskId → m = n

/-- What is promised of one accepted submission. The status is kept by task id, so
it is this submission's where the id was submitted once and not cancelled. -/
structure RetryBounded (maxRetries : Nat) (s : TaskScheduler) (n : Nat) (spec : TaskSpec) : Prop where
  dispatched : s.dispatched n ≤ maxRetries + 1
  gaveUp : s.failures n = maxRetries + 1 → s.gaveUp n = 1
  failed : s.failures n = maxRetries + 1 → s.Once n spec → spec.taskId ∉ s.cancelled →
    s.stateOf spec.taskId = some .failed

/-- No dispatch fails that should be the last one, unless it is the only one. -/
def FewFailures (config : SchedulerConfig) (s : TaskScheduler) : Action → Prop
  | .broken i _ _ =>
    config.retries = 0 ∨ ∀ d ∈ s.dispatches[i]?, s.failures d.submission < config.retries
  | _ => True

-- ---------------------------------------------------------------------------
-- What the methods leave alone
-- ---------------------------------------------------------------------------

section

variable {s s' : TaskScheduler} {taskId other : String} {state : TaskState} {node : Option String}

@[simp] theorem updateStatus_taskQueue : (s.updateStatus taskId state node).taskQueue = s.taskQueue :=
  rfl

@[simp] theorem updateStatus_dispatches :
    (s.updateStatus taskId state node).dispatches = s.dispatches := rfl

@[simp] theorem updateStatus_accepted : (s.updateStatus taskId state node).accepted = s.accepted := rfl

@[simp] theorem updateStatus_cancelled :
    (s.updateStatus taskId state node).cancelled = s.cancelled := rfl

@[simp] theorem updateStatus_gaveUp (n : Nat) :
    (s.updateStatus taskId state node).gaveUp n = s.gaveUp n := by
  simp [gaveUp, updateStatus]

theorem stateOf_updateStatus :
    (s.updateStatus taskId state node).stateOf other =
      if other = taskId then some state else s.stateOf other := by
  simp only [stateOf, updateStatus, Table.find?_put]
  split <;> rfl

theorem stateOf_modify_error (s : TaskScheduler) {error : Option String} :
    stateOf { s with
      taskStatuses := s.taskStatuses.modify taskId fun status => { status with error } } other =
      s.stateOf other := by
  simp only [stateOf, Table.find?_modify]
  split
  case isTrue hid => rw [hid, Option.map_map]; rfl
  case isFalse => rfl

theorem countP_set {α : Type} (p : α → Bool) (b : α) :
    ∀ {l : List α} {i : Nat} {a : α}, l[i]? = some a →
      (l.set i b).countP p + (if p a then 1 else 0) = l.countP p + if p b then 1 else 0
  | x :: l, 0, a, h => by
    cases h
    rw [List.set_cons_zero, List.countP_cons, List.countP_cons]
    omega
  | x :: l, i + 1, a, h => by
    have hrest := countP_set p b (l := l) (i := i) (a := a) (by simpa using h)
    rw [List.set_cons_succ, List.countP_cons, List.countP_cons]
    omega

-- ---------------------------------------------------------------------------
-- The invariant
-- ---------------------------------------------------------------------------

def waiting (s : TaskScheduler) (n : Nat) : Nat := s.taskQueue.rows.countP (·.submission = n)

/-- A submission waits or is dispatched once, and once more for every failure that
put it back. -/
structure Inv (config : SchedulerConfig) (s : TaskScheduler) : Prop where
  queued : ∀ q ∈ s.taskQueue.rows, s.accepted[q.submission]? = some q.spec
  sent : ∀ d ∈ s.dispatches, s.accepted[d.submission]? = some d.spec
  budget : ∀ n, s.waiting n + s.dispatched n ≤ 1 + if config.retries = 0 then 0 else s.failures n
  few : config.retries ≠ 0 → ∀ n, s.failures n ≤ config.retries
  told : config.retries = 0 → ∀ n, s.gaveUp n = s.failures n
  final : config.retries = 0 → ∀ n spec, s.accepted[n]? = some spec → 1 ≤ s.failures n →
    s.Once n spec → spec.taskId ∉ s.cancelled → s.stateOf spec.taskId = some .failed

variable {config : SchedulerConfig} {n i : Nat} {spec : TaskSpec} {q : QueuedTask} {d : Dispatch}

theorem Inv.start : Inv config {} where
  queued := by simp [Table.empty]
  sent := by simp
  budget := by simp [waiting, dispatched, Table.empty]
  few := by simp [failures]
  told := by simp [failures, gaveUp]
  final := by simp

theorem failures_le_dispatched : s.failures n ≤ s.dispatched n :=
  List.countP_mono_left fun d _ hd => by simp at hd ⊢; exact hd.1

theorem Inv.retryBounded (h : Inv config s) (hn : s.accepted[n]? = some spec) :
    RetryBounded config.retries s n spec := by
  have hbudget := h.budget n
  by_cases hzero : config.retries = 0
  case pos =>
    rw [if_pos hzero] at hbudget
    refine ⟨by omega, fun hf => ?_, fun hf honce hc => ?_⟩
    · rw [h.told hzero n, hf, hzero]
    · exact h.final hzero n spec hn (by omega) honce hc
  case neg =>
    have hfew := h.few hzero n
    rw [if_neg hzero] at hbudget
    exact ⟨by omega, fun hf => by omega, fun hf => by omega⟩

/-- Without retries, a submission that has failed is neither waiting nor on its way. -/
theorem Inv.not_waiting (h : Inv config s) (hzero : config.retries = 0) (hf : 1 ≤ s.failures n) :
    s.waiting n = 0 := by
  have hbudget := h.budget n
  have hle := failures_le_dispatched (s := s) (n := n)
  rw [if_pos hzero] at hbudget
  omega

theorem Inv.not_queued (h : Inv config s) (hzero : config.retries = 0)
    (hf : 1 ≤ s.failures n) (honce : s.Once n spec) (hq : q ∈ s.taskQueue.rows) :
    q.taskId ≠ spec.taskId := by
  intro hid
  have hn : q.submission = n := honce _ _ (h.queued q hq) hid
  have hwait : 0 < s.waiting n := List.countP_pos_iff.mpr ⟨q, hq, by simpa using hn⟩
  rw [h.not_waiting hzero hf] at hwait
  exact absurd hwait (Nat.lt_irrefl 0)

theorem live_spec (h : s.live i = some d) : s.dispatches[i]? = some d ∧ d.stream = .live := by
  simpa [live, Option.filter_eq_some_iff] using h

@[simp] theorem close_taskQueue (stream : Stream) :
    (s.close i d stream).taskQueue = s.taskQueue := rfl

theorem dispatched_close (h : s.live i = some d) (stream : Stream) :
    (s.close i d stream).dispatched n = s.dispatched n := by
  have hset := countP_set (fun d => decide (d.submission = n)) { d with stream } (live_spec h).1
  exact Nat.add_right_cancel hset

theorem failures_broken (h : s.live i = some d) :
    (s.close i d .broken).failures n = s.failures n + if d.submission = n then 1 else 0 := by
  obtain ⟨hmem, hlive⟩ := live_spec h
  have hset := countP_set (fun d => decide (d.submission = n) && decide (d.stream = .broken))
    { d with stream := .broken } hmem
  simpa [failures, close, hlive] using hset

theorem failures_over (h : s.live i = some d) :
    (s.close i d .done).failures n = s.failures n := by
  obtain ⟨hmem, hlive⟩ := live_spec h
  have hset := countP_set (fun d => decide (d.submission = n) && decide (d.stream = .broken))
    { d with stream := .done } hmem
  simpa [failures, close, hlive] using hset

theorem Inv.not_live (h : Inv config s) (hzero : config.retries = 0)
    (hf : 1 ≤ s.failures n) (honce : s.Once n spec) (hd : s.live i = some d) :
    d.spec.taskId ≠ spec.taskId := by
  intro hid
  obtain ⟨hmem, hlive⟩ := live_spec hd
  have hn : d.submission = n := honce _ _ (h.sent d (List.mem_of_getElem? hmem)) hid
  -- were it broken as well, there would be two dispatches of the submission
  have hle := failures_le_dispatched (s := s.close i d .broken) (n := n)
  rw [dispatched_close hd, failures_broken hd, if_pos hn] at hle
  have hbudget := h.budget n
  rw [if_pos hzero] at hbudget
  omega

/-- A step that queues and dispatches nothing, and changes the status of tasks only
that are cancelled, queued or on their way. -/
theorem Inv.frame (h : Inv config s) (hq : s'.taskQueue = s.taskQueue)
    (hd : s'.dispatches = s.dispatches) (ha : s'.accepted = s.accepted)
    (hg : ∀ n, s'.gaveUp n = s.gaveUp n) (hc : s.cancelled ⊆ s'.cancelled)
    (hs : ∀ id, id ∉ s'.cancelled → s'.stateOf id ≠ s.stateOf id →
      ∃ i d, s.live i = some d ∧ d.spec.taskId = id) : Inv config s' where
  queued := by rw [hq, ha]; exact h.queued
  sent := by rw [hd, ha]; exact h.sent
  budget := by simp only [waiting, dispatched, failures, hq, hd]; exact h.budget
  few := by simp only [failures, hd]; exact h.few
  told := by simp only [failures, hd, hg]; exact h.told
  final := by
    intro hzero n spec hn hf honce hcancel
    simp only [failures, hd] at hf
    rw [ha] at hn
    simp only [Once, ha] at honce
    rw [← h.final hzero n spec hn hf honce fun hm => hcancel (hc hm)]
    by_contra hne
    obtain ⟨i, d, hlive, hid⟩ := hs _ hcancel hne
    exact h.not_live hzero hf honce hlive hid

-- ---------------------------------------------------------------------------
-- Accepting and scheduling
-- ---------------------------------------------------------------------------

theorem Inv.fresh (h : Inv config s) :
    s.waiting s.accepted.length = 0 ∧ s.dispatched s.accepted.length = 0 := by
  constructor
  · refine List.countP_eq_zero.mpr fun q hq hn => ?_
    have hget := h.queued q hq
    rw [of_decide_eq_true hn, List.getElem?_eq_none (Nat.le_refl _)] at hget
    cases hget
  · refine List.countP_eq_zero.mpr fun d hd hn => ?_
    have hget := h.sent d hd
    rw [of_decide_eq_true hn, List.getElem?_eq_none (Nat.le_refl _)] at hget
    cases hget

theorem getElem?_of_append {spec' : TaskSpec} (h : s.accepted[n]? = some spec') :
    (s.accepted ++ [spec])[n]? = some spec' := by
  rw [List.getElem?_append_left (List.getElem?_eq_some_iff.mp h).1]
  exact h

theorem waiting_put (q : QueuedTask) (n : Nat) :
    (s.taskQueue.put q).rows.countP (·.submission = n) ≤
      s.waiting n + if q.submission = n then 1 else 0 := by
  have hput : (Table.putRows QueuedTask.taskId q s.taskQueue.rows).countP
      (fun q => decide (q.submission = n)) ≤ _ := Table.countP_putRows_le _ q _
  simp only [decide_eq_true_eq] at hput
  exact hput

theorem Inv.accept (h : Inv config s) (now : Nat) : Inv config (s.accept spec now) where
  queued := by
    intro q hq
    rcases Table.mem_putRows hq with rfl | hq
    · exact List.getElem?_concat_length
    · exact getElem?_of_append (h.queued q hq)
  sent := fun d hd => getElem?_of_append (h.sent d hd)
  budget := by
    intro n
    have hput : (s.accept spec now).waiting n ≤ _ :=
      waiting_put ⟨spec, now, 0, s.accepted.length⟩ n
    have hbudget := h.budget n
    have hsame : (s.accept spec now).dispatched n = s.dispatched n := rfl
    have hfail : (s.accept spec now).failures n = s.failures n := rfl
    rw [hsame, hfail]
    by_cases hn : s.accepted.length = n
    case pos =>
      obtain ⟨hwait, hsent⟩ := h.fresh
      rw [hn] at hwait hsent
      rw [if_pos hn] at hput
      omega
    case neg =>
      rw [if_neg hn] at hput
      omega
  few := h.few
  told := by simpa [gaveUp, failures, TaskScheduler.accept] using h.told
  final := by
    intro hzero n spec' hn hf honce hc
    have hne : s.accepted.length ≠ n := by
      rintro rfl
      have hle := failures_le_dispatched (s := s) (n := s.accepted.length)
      rw [h.fresh.2] at hle
      exact absurd (hf.trans hle) (by omega)
    have hid : spec'.taskId ≠ spec.taskId := fun he =>
      hne (honce _ _ List.getElem?_concat_length he.symm)
    have hold : s.accepted[n]? = some spec' := by
      have hlt := (List.getElem?_eq_some_iff.mp hn).1
      simp only [TaskScheduler.accept, List.length_append, List.length_singleton] at hlt
      rwa [TaskScheduler.accept, List.getElem?_append_left (by omega)] at hn
    have hstate : (s.accept spec now).stateOf spec'.taskId = s.stateOf spec'.taskId := by
      simp [stateOf, TaskScheduler.accept, Table.find?_put, hid]
    rw [hstate]
    exact h.final hzero n spec' hold hf (fun m other hm => honce m other (getElem?_of_append hm)) hc

theorem Inv.dispatch (h : Inv config s) (hq : q ∈ s.taskQueue.rows) (node : String) :
    Inv config (dispatchTask { s with taskQueue := s.taskQueue.delete q.taskId } q node) := by
  have hfind : s.taskQueue.find? q.taskId = some q := Table.find?_of_mem hq
  refine ⟨?_, ?_, ?_, ?_, ?_, ?_⟩
  · exact fun r hr => h.queued r (List.mem_of_mem_filter hr)
  · intro d hd
    rcases List.mem_append.mp hd with hd | hd
    · exact h.sent d hd
    · obtain rfl := List.mem_singleton.mp hd
      exact h.queued q hq
  · intro n
    have hdelete := Table.countP_delete (fun q => decide (q.submission = n)) hfind
    have hbudget := h.budget n
    simp only [waiting, dispatched, failures] at hbudget ⊢
    simp only [dispatchTask, updateStatus, emit, List.countP_append, List.countP_singleton,
      reduceCtorEq, decide_false, Bool.and_false, Bool.false_eq_true, if_false, Nat.add_zero]
    omega
  · simpa [failures, dispatchTask, updateStatus, emit] using h.few
  · simpa [failures, gaveUp, dispatchTask, updateStatus, emit] using h.told
  · intro hzero n spec hn hf honce hc
    have hf' : 1 ≤ s.failures n := by
      simpa [failures, dispatchTask, updateStatus, emit] using hf
    have hid : spec.taskId ≠ q.taskId := (h.not_queued hzero hf' honce hq).symm
    have hstate : (dispatchTask { s with taskQueue := s.taskQueue.delete q.taskId } q node).stateOf
        spec.taskId = s.stateOf spec.taskId := by
      rw [dispatchTask, stateOf_updateStatus, if_neg hid, emit]
      exact (stateOf_updateStatus.trans (if_neg hid) :)
    rw [hstate]
    exact h.final hzero n spec hn hf' honce hc

theorem Inv.scheduleAll (scheduleTask : TaskSpec → Option String) {queue : List QueuedTask} :
    ∀ {s : TaskScheduler}, Inv config s → (queue.map QueuedTask.taskId).Nodup →
      (∀ q ∈ queue, q ∈ s.taskQueue.rows) → Inv config (queue.foldl (scheduleOne scheduleTask) s) := by
  induction queue with
  | nil => exact fun h _ _ => h
  | cons q queue ih =>
    intro s h hnodup hmem
    rw [List.map_cons, List.nodup_cons] at hnodup
    obtain ⟨hq, hqueue⟩ := List.forall_mem_cons.mp hmem
    rw [List.foldl_cons, scheduleOne]
    cases scheduleTask q.spec with
    | none => exact ih h hnodup.2 hqueue
    | some node =>
      refine ih (h.dispatch hq node) hnodup.2 fun r hr => ?_
      have hid : r.taskId ≠ q.taskId := fun he => hnodup.1 (List.mem_map.mpr ⟨r, hr, he⟩)
      exact List.mem_filter.mpr ⟨hqueue r hr, by simpa using hid⟩

theorem Inv.scheduleNext (h : Inv config s) (leader : Bool)
    (scheduleTask : TaskSpec → Option String) : Inv config (s.scheduleNext leader scheduleTask) := by
  rw [TaskScheduler.scheduleNext]
  split
  case isTrue => exact h
  case isFalse =>
    have hperm := List.perm_insertionSort (QueuedTask.before · ·) s.taskQueue.rows
    refine h.scheduleAll scheduleTask ?_ fun q hq => hperm.mem_iff.mp hq
    exact (hperm.map _).nodup_iff.mpr s.taskQueue.keys_nodup

-- ---------------------------------------------------------------------------
-- The ends of a dispatch
-- ---------------------------------------------------------------------------

theorem sent_close (h : Inv config s) (hd : s.live i = some d) (stream : Stream) :
    ∀ e ∈ (s.close i d stream).dispatches, s.accepted[e.submission]? = some e.spec := by
  intro e he
  rcases List.mem_or_eq_of_mem_set he with he | rfl
  · exact h.sent e he
  · exact h.sent d (List.mem_of_getElem? (live_spec hd).1)

theorem Inv.ended (h : Inv config s) (hd : s.live i = some d) : Inv config (s.close i d .done) where
  queued := h.queued
  sent := sent_close h hd .done
  budget := by
    intro n
    rw [dispatched_close hd, failures_over hd]
    exact h.budget n
  few := by simpa only [failures_over hd] using h.few
  told := by
    intro hzero n
    rw [failures_over hd]
    exact h.told hzero n
  final := by
    intro hzero n spec hn hf
    rw [failures_over hd] at hf
    exact h.final hzero n spec hn hf

theorem few_broken (h : Inv config s) (hd : s.live i = some d)
    (hfew : s.failures d.submission < config.retries) (n : Nat) :
    (s.close i d .broken).failures n ≤ config.retries := by
  rw [failures_broken hd]
  split
  case isTrue hn => exact hn ▸ hfew
  case isFalse => exact h.few (by omega) n

theorem Inv.requeue (h : Inv config s) (hd : s.live i = some d)
    (hfew : s.failures d.submission < config.retries) (attempts now : Nat) :
    Inv config (updateStatus { s.close i d .broken with
      runningTasks := s.runningTasks.delete d.spec.taskId
      taskQueue := s.taskQueue.put ⟨d.spec, now, attempts, d.submission⟩ } d.spec.taskId .queued) := by
  have hsome : config.retries ≠ 0 := by omega
  have hfail (n : Nat) := failures_broken (n := n) hd
  refine ⟨?_, sent_close h hd .broken, ?_, ?_, fun hzero => absurd hzero hsome,
    fun hzero => absurd hzero hsome⟩
  · intro q hq
    rcases Table.mem_putRows hq with rfl | hq
    · exact h.sent d (List.mem_of_getElem? (live_spec hd).1)
    · exact h.queued q hq
  · intro n
    have hput := waiting_put (s := s) ⟨d.spec, now, attempts, d.submission⟩ n
    have hbudget := h.budget n
    have hdisp := dispatched_close (n := n) hd .broken
    have hfail := hfail n
    rw [if_neg hsome] at hbudget ⊢
    simp only [waiting, dispatched, failures, updateStatus_taskQueue, updateStatus_dispatches]
      at hput hbudget hdisp hfail ⊢
    omega
  · exact fun _ => few_broken h hd hfew

theorem Inv.giveUp (h : Inv config s) (hd : s.live i = some d)
    (hfew : config.retries = 0 ∨ s.failures d.submission < config.retries) (error : String) :
    let s₁ := updateStatus { s.close i d .broken with
      runningTasks := s.runningTasks.delete d.spec.taskId } d.spec.taskId .failed
    Inv config (emit { s₁ with
      taskStatuses := s₁.taskStatuses.modify d.spec.taskId fun status =>
        { status with error := some error } } (.taskFailed d.spec.taskId error d.submission)) := by
  intro s₁
  have hfail (n : Nat) := failures_broken (n := n) hd
  refine ⟨h.queued, sent_close h hd .broken, ?_, ?_, ?_, ?_⟩
  · intro n
    have hbudget := h.budget n
    have hdisp := dispatched_close (n := n) hd .broken
    have hfail := hfail n
    simp only [waiting, dispatched, failures, emit, s₁, updateStatus_taskQueue,
      updateStatus_dispatches, close_taskQueue] at hbudget hdisp hfail ⊢
    split at hbudget <;> split <;> omega
  · exact fun hsome => few_broken h hd (hfew.resolve_left hsome)
  · intro hzero n
    have htold := h.told hzero n
    refine Eq.trans ?_ (hfail n).symm
    simp only [gaveUp, emit, s₁, updateStatus, close, List.countP_append, List.countP_singleton,
      decide_eq_true_eq, Bool.false_eq_true, if_false, Nat.add_zero] at htold ⊢
    rw [htold]
  · intro hzero n spec hn hf honce hc
    have hstate : stateOf (emit { s₁ with
        taskStatuses := s₁.taskStatuses.modify d.spec.taskId fun status =>
          { status with error := some error } } (.taskFailed d.spec.taskId error d.submission))
        spec.taskId = s₁.stateOf spec.taskId := stateOf_modify_error s₁
    have hs₁ : s₁.stateOf spec.taskId =
        if spec.taskId = d.spec.taskId then some .failed else s.stateOf spec.taskId :=
      stateOf_updateStatus
    rw [hstate, hs₁]
    split
    case isTrue => rfl
    case isFalse hid =>
      have hne : d.submission ≠ n := by
        rintro rfl
        have hsent := h.sent d (List.mem_of_getElem? (live_spec hd).1)
        exact hid (congrArg TaskSpec.taskId (Option.some.inj (hn.symm.trans hsent)))
      have hf' : 1 ≤ s.failures n := by
        have hsame : _ = s.failures n := (hfail n).trans (by rw [if_neg hne, Nat.add_zero])
        exact hsame ▸ hf
      exact h.final hzero n spec hn hf' honce hc

theorem Inv.broken (h : Inv config s) (hd : s.live i = some d)
    (hfew : config.retries = 0 ∨ s.failures d.submission < config.retries) (error : String)
    (now : Nat) :
    Inv config ((s.close i d .broken).handleTaskFailure config d.spec d.submission error now) := by
  unfold handleTaskFailure
  dsimp only
  split
  case isTrue hlt => exact h.requeue hd (hfew.resolve_left (by omega)) _ now
  case isFalse => exact h.giveUp hd hfew error

-- ---------------------------------------------------------------------------
-- The whole run
-- ---------------------------------------------------------------------------

theorem Inv.status (h : Inv config s) (hd : s.live i = some d) (exitCode : Option Int)
    (error : Option String) :
    Inv config (s.handleTaskCompletion d.spec.taskId exitCode error) := by
  refine h.frame rfl rfl rfl (fun n => ?_) (List.Subset.refl _) fun id _ hne => ⟨i, d, hd, ?_⟩
  · simp [gaveUp, handleTaskCompletion, emit]
  · by_contra hid
    refine hne ?_
    simp [stateOf, handleTaskCompletion, emit, Table.find?_modify, Ne.symm hid]

theorem Inv.cancelled (h : Inv config s) (taskId : String) :
    Inv config (updateStatus { s with cancelled := taskId :: s.cancelled } taskId .cancelled) := by
  refine h.frame rfl rfl rfl (fun n => ?_) (List.subset_cons_self ..) fun id hc hne => ?_
  · simp [gaveUp, updateStatus]
  · refine absurd ?_ hne
    rw [stateOf_updateStatus, if_neg (List.ne_of_not_mem_cons hc)]
    rfl

theorem Inv.delete (h : Inv config s) (taskId : String) :
    Inv config { s with taskQueue := s.taskQueue.delete taskId } where
  queued := fun q hq => h.queued q (List.mem_of_mem_filter hq)
  sent := h.sent
  budget := by
    intro n
    have hsub : (s.taskQueue.delete taskId).rows.countP (·.submission = n) ≤ s.waiting n :=
      List.filter_sublist.countP_le
    have hbudget := h.budget n
    simp only [waiting, dispatched, failures] at hsub hbudget ⊢
    omega
  few := h.few
  told := h.told
  final := h.final

theorem Inv.cancel (h : Inv config s) (taskId : String) : Inv config (s.cancel taskId) := by
  unfold TaskScheduler.cancel
  split
  case isTrue => exact (h.delete taskId).cancelled taskId
  case isFalse =>
    split
    case isTrue =>
      exact h.frame rfl rfl rfl (fun _ => rfl) (List.Subset.refl _) fun _ _ hne => absurd rfl hne
    case isFalse => exact h

theorem Inv.submit (h : Inv config s) (leader : Bool) : Inv config (s.submit config spec leader) := by
  unfold TaskScheduler.submit
  split
  case h_1 => exact h
  case h_2 =>
    split
    case isTrue => exact h
    case isFalse =>
      exact h.frame rfl rfl rfl (fun _ => rfl) (List.Subset.refl _) fun _ _ hne => absurd rfl hne

variable {a : Action}

theorem Inv.step (h : Inv config s) (hg : FewFailures config s a)
    (hs : TaskScheduler.step config s a = some s') : Inv config s' := by
  cases a with
  | submit spec leader =>
    cases hs
    exact h.submit leader
  | appended i success now =>
    simp only [TaskScheduler.step, Option.bind_eq_bind, Option.bind_eq_some_iff] at hs
    obtain ⟨spec, -, hs⟩ := hs
    have herase : Inv config { s with submits := s.submits.eraseIdx i } :=
      h.frame rfl rfl rfl (fun _ => rfl) (List.Subset.refl _) fun _ _ hne => absurd rfl hne
    cases hs
    split
    case isTrue => exact herase.accept now
    case isFalse => exact herase
  | scheduleNext leader scheduleTask =>
    cases hs
    exact h.scheduleNext leader scheduleTask
  | status i exitCode error =>
    simp only [TaskScheduler.step, Option.bind_eq_bind, Option.bind_eq_some_iff] at hs
    obtain ⟨d, hd, hs⟩ := hs
    cases hs
    exact h.status hd exitCode error
  | ended i =>
    simp only [TaskScheduler.step, Option.bind_eq_bind, Option.bind_eq_some_iff] at hs
    obtain ⟨d, hd, hs⟩ := hs
    cases hs
    exact h.ended hd
  | broken i error now =>
    simp only [TaskScheduler.step, Option.bind_eq_bind, Option.bind_eq_some_iff] at hs
    obtain ⟨d, hd, hs⟩ := hs
    cases hs
    exact h.broken hd (hg.imp_right fun hall => hall d (live_spec hd).1) error now
  | cancel taskId =>
    cases hs
    exact h.cancel taskId
  | cancelAnswered i success =>
    simp only [TaskScheduler.step, Option.bind_eq_bind, Option.bind_eq_some_iff] at hs
    obtain ⟨taskId, -, hs⟩ := hs
    have herase : Inv config { s with cancels := s.cancels.eraseIdx i } :=
      h.frame rfl rfl rfl (fun _ => rfl) (List.Subset.refl _) fun _ _ hne => absurd rfl hne
    cases hs
    split
    case isTrue => exact herase.cancelled taskId
    case isFalse => exact herase

end

/-- In every run, for every submission that was accepted. -/
theorem retryBounded_of_fewFailures {config : SchedulerConfig} {s : TaskScheduler}
    (h : (scheduler config).Reach (FewFailures config) s) {n : Nat} {spec : TaskSpec}
    (hn : s.accepted[n]? = some spec) : RetryBounded config.retries s n spec := by
  have hinv : Inv config s := h.invariant
    (fun s hi => by cases (show s = {} from hi); exact .start)
    fun s a s' _ hinv hg hs => Inv.step hinv hg hs
  exact hinv.retryBounded hn

instance (config : SchedulerConfig) (s : TaskScheduler) (a : Action) :
    Decidable (FewFailures config s a) :=
  match a with
  | .broken i _ _ => inferInstanceAs (Decidable (_ ∨ ∀ d ∈ s.dispatches[i]?, _))
  | .submit _ _ | .appended _ _ _ | .scheduleNext _ _ | .status _ _ _ | .ended _ | .cancel _
  | .cancelAnswered _ _ => .isTrue trivial

def retryOnce : SchedulerConfig := { maxRetries := some 1 }

def listing : TaskSpec := { taskId := "t", type := "shell", shellCommand := some "ls" }

def anyNode (_ : TaskSpec) : Option String := some "10.0.0.2:50051"

def retriedRun : List Action :=
  [.submit listing true, .appended 0 true 0, .scheduleNext true anyNode,
    .broken 0 "14 UNAVAILABLE: No connection established" 1, .scheduleNext true anyNode,
    .status 1 (some 0) none, .ended 1]

theorem retryBounded_retried : ∃ s, (scheduler retryOnce).Reach (FewFailures retryOnce) s ∧
    (s.accepted = [listing] ∧ s.stateOf "t" = some .completed) ∧ RetryBounded 1 s 0 listing := by
  obtain ⟨s, hs, hP⟩ := System.Reach.replay (M := scheduler retryOnce) (G := FewFailures retryOnce)
    (P := fun s => s.accepted = [listing] ∧ s.stateOf "t" = some .completed) rfl retriedRun
    (by decide +kernel)
  have hn : s.accepted[0]? = some listing := by rw [hP.1]; rfl
  exact ⟨s, hs, hP, retryBounded_of_fewFailures hs hn⟩

/-- The second failure should have been the last: the task is queued again, and
dispatched a third time. -/
def endlessRun : List Action :=
  [.submit listing true, .appended 0 true 0, .scheduleNext true anyNode,
    .broken 0 "14 UNAVAILABLE: No connection established" 1, .scheduleNext true anyNode,
    .broken 1 "14 UNAVAILABLE: No connection established" 2, .scheduleNext true anyNode]

theorem not_retryBounded : ∃ s, (scheduler retryOnce).Reach (fun _ _ => True) s ∧
    s.accepted = [listing] ∧ ¬ RetryBounded 1 s 0 listing := by
  obtain ⟨s, hs, hacc, hdisp⟩ := System.Reach.replay (M := scheduler retryOnce)
    (G := fun _ _ => True) (P := fun s => s.accepted = [listing] ∧ s.dispatched 0 = 3) rfl
    endlessRun (by decide +kernel)
  exact ⟨s, hs, hacc, fun h => absurd h.dispatched (by omega)⟩

end TaskScheduler

end ClaudeCluster.Tasks.Legacy
