import ClaudeCluster.Agent.DockerStream
import ClaudeCluster.Lib.Run
import ClaudeCluster.Lib.Slices
import ClaudeCluster.Lib.Table
import ClaudeCluster.Lib.Utf8
import ClaudeCluster.Tasks.Execution

/-!
# Executions under way

`TaskExecutor` runs tasks side by side and keeps them in a map by task id:
entered when an execution starts, deleted when one ends, whichever it is. The
limit, the listing and `cancel` all read this map, so they are right in every
run that starts no task id twice at a time (`accounted_of_apart`); a cancelled
execution then fails, unless it was over already or is a subagent, which
nobody tells.
-/

namespace ClaudeCluster.Agent

open Lib (Table System)
open Raft (NodeId)
open Tasks (TaskId TaskSpec ExecutionResult Settled truthy)

-- ---------------------------------------------------------------------------
-- Executions
-- ---------------------------------------------------------------------------

structure TaskExecutorConfig where
  maxConcurrent : Nat
  docker : Bool
  subagentExecutor : Bool

structure RunningTask where
  spec : TaskSpec
  process : Bool := false
  containerId : Option String := none
  output : Collected := .empty
  cancelled : Bool := false
  deriving DecidableEq

/-- What an execution waits for: the process, one of the calls to Docker, or the
subagent. Once the result is there, the `finally` is still to come. -/
inductive Stage where
  | process
  | inspecting | pulling | creating | attaching | starting | waiting
  | subagent
  | settled (outcome : Settled)
  | ended (outcome : Settled)
  deriving DecidableEq

structure SubagentResult where
  success : Bool
  response : String
  error : Option String
  deriving DecidableEq

inductive Response where
  | closed (code : Option Int) (signal : Option String)
  | done
  | created (id : String)
  | exited (statusCode : Int)
  | answered (result : SubagentResult)
  | failed (message : String)

namespace RunningTask

def failure (error : String) (output : Collected) : ExecutionResult where
  success := false
  exitCode := -1
  stdout := output.stdout.flatten
  stderr := output.stderr.flatten
  error := some error

def result (running : RunningTask) (exitCode : Int) : ExecutionResult where
  success := exitCode = 0 && !running.cancelled
  exitCode := exitCode
  stdout := running.output.stdout.flatten
  stderr := running.output.stderr.flatten
  error := if running.cancelled then some "Task cancelled" else none

def closeCode (code : Option Int) (signal : Option String) : Int :=
  code.getD (if (truthy signal).isSome then 128 else -1)

def subagentResult (r : SubagentResult) : ExecutionResult where
  success := r.success
  exitCode := if r.success then 0 else 1
  stdout := Lib.Utf8.encode r.response.toList
  stderr := ((truthy r.error).map fun e => Lib.Utf8.encode e.toList).getD []
  error := r.error

/-- How `executeShell`, `executeContainer` and `executeSubagent` start.
`spawnError` is what `spawn` throws, if it does. -/
def start (config : TaskExecutorConfig) (spec : TaskSpec) (spawnError : Option String) : Stage :=
  if spec.type = "shell" then
    match spec.shell, spawnError with
    | none, _ => .settled (.rejected "Cannot read properties of undefined (reading 'sandboxed')")
    | some _, some message => .settled (.rejected message)
    | some _, none => .process
  else if spec.type = "container" then
    if !config.docker then .settled (.resolved (failure "Docker not available" .empty))
    else if spec.container.isNone then
      .settled (.resolved (failure "Cannot read properties of undefined (reading 'image')" .empty))
    else .inspecting
  else if spec.type = "subagent" then
    if !config.subagentExecutor then
      .settled (.resolved
        (failure "Subagent executor not configured (missing ANTHROPIC_API_KEY)" .empty))
    else if spec.subagent.isNone then
      .settled (.rejected "Cannot read properties of undefined (reading 'prompt')")
    else .subagent
  else .ended (.rejected s!"Unsupported task type: {spec.type}")

def next (running : RunningTask) : Stage → Response → Option (RunningTask × Stage)
  | .process, .closed code signal =>
    some (running, .settled (.resolved (running.result (closeCode code signal))))
  | .process, .failed message =>
    some (running, .settled (.resolved (failure message running.output)))
  | .inspecting, .done => some (running, .creating)
  -- an image that cannot be inspected is pulled
  | .inspecting, .failed _ => some (running, .pulling)
  | .pulling, .done => some (running, .creating)
  | .creating, .created id => some ({ running with containerId := some id }, .attaching)
  | .attaching, .done => some (running, .starting)
  | .starting, .done => some (running, .waiting)
  | .waiting, .exited statusCode => some (running, .settled (.resolved (running.result statusCode)))
  | .pulling, .failed message | .creating, .failed message | .attaching, .failed message
  | .starting, .failed message | .waiting, .failed message =>
    some (running, .settled (.resolved (failure message running.output)))
  | .subagent, .answered r => some (running, .settled (.resolved (subagentResult r)))
  | .subagent, .failed message => some (running, .settled (.rejected message))
  | _, _ => none

def onData (running : RunningTask) : Stage → OutputType → Bytes → Option RunningTask
  | .process, .stdout, data => some { running with output := running.output.push 1 data }
  | .process, .stderr, data => some { running with output := running.output.push 2 data }
  | .starting, _, data | .waiting, _, data =>
    some { running with output := (demux running.output data).1 }
  | _, _, _ => none

end RunningTask

/-- A call of `execute` that was let in. `promised` is not in the source: a
`cancel` of its id returned true while it was in progress. -/
structure Execution where
  running : RunningTask
  stage : Stage
  promised : Bool := false
  deriving DecidableEq

def Execution.taskId (e : Execution) : TaskId := e.running.spec.taskId

def Execution.inProgress (e : Execution) : Bool :=
  match e.stage with
  | .ended _ => false
  | _ => true

def Execution.succeeds (e : Execution) : Bool :=
  match e.stage with
  | .settled (.resolved result) | .ended (.resolved result) => result.success
  | _ => false

def Execution.flagged (e : Execution) : Execution :=
  { e with running := { e.running with cancelled := true } }

def Execution.noted (taskId : TaskId) (e : Execution) : Execution :=
  if e.inProgress && e.taskId = taskId then { e with promised := true } else e

-- ---------------------------------------------------------------------------
-- The executor
-- ---------------------------------------------------------------------------

/-- The map holds which call of `execute` made the entry. -/
structure TaskExecutor where
  executions : List Execution := []
  runningTasks : Table (Prod.fst : TaskId × Nat → TaskId) := .empty
  deriving DecidableEq

namespace TaskExecutor

def size (s : TaskExecutor) : Nat := s.runningTasks.rows.length

def getRunningTaskIds (s : TaskExecutor) : List TaskId := s.runningTasks.rows.map Prod.fst

/-- `execute` up to its first `await`. A type it does not know throws at once, and
the `finally` runs. -/
def execute (config : TaskExecutorConfig) (s : TaskExecutor) (spec : TaskSpec)
    (spawnError : Option String) : TaskExecutor :=
  if config.maxConcurrent ≤ s.size then s
  else
    let stage := RunningTask.start config spec spawnError
    let execution : Execution := { running := { spec, process := stage = .process }, stage }
    let entered := s.runningTasks.put (spec.taskId, s.executions.length)
    { executions := s.executions ++ [execution]
      runningTasks := if execution.inProgress then entered else entered.delete spec.taskId }

/-- The flag is set at once, and the value of the promise is settled with it; the
kill and the stop show in how the execution goes on. -/
def cancel (s : TaskExecutor) (taskId : TaskId) : TaskExecutor × Bool :=
  match s.runningTasks.find? taskId with
  | none => (s, false)
  | some (_, i) => ({ s with executions := s.executions.modify i Execution.flagged }, true)

def promise (s : TaskExecutor) (taskId : TaskId) : TaskExecutor :=
  { s with executions := s.executions.map (Execution.noted taskId) }

inductive Action where
  | execute (spec : TaskSpec) (spawnError : Option String)
  | cancel (taskId : TaskId)
  | data (i : Nat) (type : OutputType) (data : Bytes)
  | respond (i : Nat) (response : Response)
  | finish (i : Nat)

def step (config : TaskExecutorConfig) (s : TaskExecutor) : Action → Option TaskExecutor
  | .execute spec spawnError => some (s.execute config spec spawnError)
  | .cancel taskId =>
    match s.cancel taskId with
    | (s, true) => some (s.promise taskId)
    | (s, false) => some s
  | .data i type data => do
    let e ← s.executions[i]?
    let running ← e.running.onData e.stage type data
    some { s with executions := s.executions.set i { e with running } }
  | .respond i response => do
    let e ← s.executions[i]?
    let (running, stage) ← e.running.next e.stage response
    some { s with executions := s.executions.set i { e with running, stage } }
  | .finish i => do
    let e ← s.executions[i]?
    match e.stage with
    | .settled outcome =>
      some
        { executions := s.executions.set i { e with stage := .ended outcome }
          runningTasks := s.runningTasks.delete e.taskId }
    | _ => none

def executor (config : TaskExecutorConfig) : System TaskExecutor Action where
  init := (· = {})
  step := step config

/-- What is in progress is within the limit, listed and in reach of `cancel`, and
what was promised to be cancelled does not end in success. -/
structure Accounted (config : TaskExecutorConfig) (s : TaskExecutor) : Prop where
  limited : (s.executions.filter (·.inProgress)).length ≤ config.maxConcurrent
  listed : ∀ e ∈ s.executions, e.inProgress → e.taskId ∈ s.getRunningTaskIds
  reachable : ∀ i e, s.executions[i]? = some e → e.inProgress →
    s.runningTasks.find? e.taskId = some (e.taskId, i)
  failed : ∀ e ∈ s.executions, e.promised → e.inProgress = false → e.succeeds = false

/-- An id is not started again while it is in progress, nothing is cancelled that
has succeeded already, and a cancelled subagent does not answer with a
success. -/
def Apart (config : TaskExecutorConfig) (s : TaskExecutor) : Action → Prop
  | .execute spec _ =>
    config.maxConcurrent ≤ s.size ∨ ∀ e ∈ s.executions, e.inProgress → e.taskId ≠ spec.taskId
  | .cancel taskId =>
    ∀ e ∈ s.executions, e.inProgress → e.taskId = taskId → e.succeeds = false
  | .respond i (.answered result) =>
    ∀ e ∈ s.executions[i]?, e.running.cancelled = true → result.success = false
  | _ => True

-- ---------------------------------------------------------------------------
-- One execution
-- ---------------------------------------------------------------------------

theorem onData_keeps {running running' : RunningTask} {stage : Stage} {type : OutputType}
    {data : Bytes} (h : running.onData stage type data = some running') (promised : Bool) :
    running'.spec = running.spec ∧ running'.cancelled = running.cancelled ∧
      (Execution.mk running stage promised).inProgress = true := by
  unfold RunningTask.onData at h
  split at h <;> cases h <;> exact ⟨rfl, rfl, rfl⟩

theorem result_cancelled {running : RunningTask} {exitCode : Int} (h : running.cancelled = true) :
    (running.result exitCode).success = false := by
  simp [RunningTask.result, h]

theorem next_keeps {running running' : RunningTask} {stage stage' : Stage} {response : Response}
    (h : running.next stage response = some (running', stage')) (promised : Bool) :
    running'.spec = running.spec ∧ running'.cancelled = running.cancelled ∧
      (Execution.mk running stage promised).inProgress = true ∧
      (running.cancelled = true → (∀ r, response = .answered r → r.success = false) →
        (Execution.mk running' stage' promised).succeeds = false) := by
  unfold RunningTask.next at h
  split at h <;> cases h <;> refine ⟨rfl, rfl, rfl, fun hc hr => ?_⟩ <;>
    first
    | rfl
    | exact result_cancelled hc
    | exact hr _ rfl

-- ---------------------------------------------------------------------------
-- The invariant
-- ---------------------------------------------------------------------------

structure Inv (config : TaskExecutorConfig) (s : TaskExecutor) : Prop where
  bounded : s.size ≤ config.maxConcurrent
  entered : ∀ i e, s.executions[i]? = some e → e.inProgress →
    s.runningTasks.find? e.taskId = some (e.taskId, i)
  kept : ∀ e ∈ s.executions, e.promised → e.running.cancelled = true ∧ e.succeeds = false

section

variable {config : TaskExecutorConfig} {s s' : TaskExecutor} {a : Action} {e e' : Execution} {i : Nat}

theorem Inv.start : Inv config {} where
  bounded := Nat.zero_le _
  entered := by simp
  kept := by simp

theorem Inv.index_eq (h : Inv config s) {j : Nat} (hi : s.executions[i]? = some e)
    (hj : s.executions[j]? = some e') (he : e.inProgress) (he' : e'.inProgress)
    (hid : e.taskId = e'.taskId) : i = j := by
  have hfind := h.entered i e hi he
  rw [hid, h.entered j e' hj he'] at hfind
  simpa using hfind.symm

theorem Inv.limited (h : Inv config s) :
    (s.executions.filter (·.inProgress)).length ≤ config.maxConcurrent := by
  have hnodup : ((s.executions.filter (·.inProgress)).map Execution.taskId).Nodup := by
    rw [List.Nodup, List.pairwise_map, List.pairwise_filter, List.pairwise_iff_getElem]
    intro i j hi hj hlt he he' hid
    have hij := h.index_eq (List.getElem?_eq_getElem hi) (List.getElem?_eq_getElem hj) he he' hid
    omega
  have hsub : (s.executions.filter (·.inProgress)).map Execution.taskId ⊆ s.getRunningTaskIds := by
    intro id hid
    obtain ⟨e, he, rfl⟩ := List.mem_map.mp hid
    obtain ⟨hmem, hprog⟩ := List.mem_filter.mp he
    obtain ⟨i, hi⟩ := List.mem_iff_getElem?.mp hmem
    exact List.mem_map.mpr ⟨_, Table.find?_mem (h.entered i e hi hprog), rfl⟩
  have hlen := (List.subperm_of_subset hnodup hsub).length_le
  rw [List.length_map, getRunningTaskIds, List.length_map] at hlen
  exact hlen.trans h.bounded

theorem Inv.accounted (h : Inv config s) : Accounted config s where
  limited := h.limited
  listed := by
    intro e he hprog
    obtain ⟨i, hi⟩ := List.mem_iff_getElem?.mp he
    exact List.mem_map.mpr ⟨_, Table.find?_mem (h.entered i e hi hprog), rfl⟩
  reachable := h.entered
  failed := fun e he hp _ => (h.kept e he hp).2

theorem Inv.set (h : Inv config s) (hi : s.executions[i]? = some e) (hid : e'.taskId = e.taskId)
    (hprog : e.inProgress) (hkept : e'.promised → e'.running.cancelled = true ∧ e'.succeeds = false) :
    Inv config { s with executions := s.executions.set i e' } where
  bounded := h.bounded
  entered := by
    intro j d hj hd
    rcases Lib.getElem?_set_cases hj with ⟨rfl, rfl⟩ | ⟨-, hj⟩
    · rw [hid]
      exact h.entered i e hi hprog
    · exact h.entered j d hj hd
  kept := by
    intro d hd
    rcases List.mem_or_eq_of_mem_set hd with hd | rfl
    · exact h.kept d hd
    · exact hkept

theorem Inv.data {type : OutputType} {data : Bytes} (h : Inv config s)
    (hs : step config s (.data i type data) = some s') : Inv config s' := by
  simp only [step, Option.bind_eq_bind, Option.bind_eq_some_iff] at hs
  obtain ⟨e, hi, running, hon, hs⟩ := hs
  cases hs
  obtain ⟨hspec, hcancel, hprog⟩ := onData_keeps hon e.promised
  refine h.set hi (by simp [Execution.taskId, hspec]) hprog fun hp => ?_
  obtain ⟨hc, hsucc⟩ := h.kept e (List.mem_of_getElem? hi) hp
  exact ⟨hcancel.trans hc, hsucc⟩

theorem Inv.respond {response : Response} (h : Inv config s) (hg : Apart config s (.respond i response))
    (hs : step config s (.respond i response) = some s') : Inv config s' := by
  simp only [step, Option.bind_eq_bind, Option.bind_eq_some_iff] at hs
  obtain ⟨e, hi, ⟨running, stage⟩, hnext, hs⟩ := hs
  cases hs
  obtain ⟨hspec, hcancel, hprog, hsucc⟩ := next_keeps hnext e.promised
  refine h.set hi (by simp [Execution.taskId, hspec]) hprog fun hp => ?_
  obtain ⟨hc, -⟩ := h.kept e (List.mem_of_getElem? hi) hp
  refine ⟨hcancel.trans hc, hsucc hc ?_⟩
  rintro r rfl
  exact hg e hi hc

theorem Inv.finish (h : Inv config s) (hs : step config s (.finish i) = some s') : Inv config s' := by
  simp only [step, Option.bind_eq_bind, Option.bind_eq_some_iff] at hs
  obtain ⟨e, hi, hs⟩ := hs
  split at hs
  case h_2 => cases hs
  case h_1 outcome hst =>
    cases hs
    have hprog : e.inProgress = true := by simp [Execution.inProgress, hst]
    refine ⟨(List.length_filter_le _ _).trans h.bounded, ?_, ?_⟩
    · intro j d hj hd
      rcases Lib.getElem?_set_cases hj with ⟨-, rfl⟩ | ⟨hij, hj⟩
      · cases hd
      · have hid : d.taskId ≠ e.taskId := fun hid => hij (h.index_eq hi hj hprog hd hid.symm)
        rw [Table.find?_delete, if_neg hid]
        exact h.entered j d hj hd
    · intro d hd hp
      rcases List.mem_or_eq_of_mem_set hd with hd | rfl
      · exact h.kept d hd hp
      · obtain ⟨hc, hsucc⟩ := h.kept e (List.mem_of_getElem? hi) hp
        refine ⟨hc, ?_⟩
        cases outcome <;> simp_all [Execution.succeeds]

theorem Inv.execute {spec : TaskSpec} {spawnError : Option String} (h : Inv config s)
    (hg : Apart config s (.execute spec spawnError)) : Inv config (s.execute config spec spawnError) := by
  unfold TaskExecutor.execute
  split
  case isTrue => exact h
  case isFalse hlt =>
    have hfresh := hg.resolve_left hlt
    refine ⟨?_, ?_, ?_⟩
    · have hput : (s.runningTasks.put (spec.taskId, s.executions.length)).rows.length ≤
          config.maxConcurrent := by
        have : (s.runningTasks.put (spec.taskId, s.executions.length)).rows.length ≤
            s.runningTasks.rows.length + 1 := Table.length_putRows_le _ _
        simp only [TaskExecutor.size] at hlt
        exact this.trans (by omega)
      dsimp only [TaskExecutor.size]
      split
      · exact hput
      · exact (List.length_filter_le _ _).trans hput
    · intro j d hj hd
      rcases Lib.getElem?_concat_cases hj with hj | ⟨rfl, rfl⟩
      · have hid := hfresh d (List.mem_of_getElem? hj) hd
        have hfind := h.entered j d hj hd
        dsimp only
        split
        · rw [Table.find?_put, if_neg hid]
          exact hfind
        · rw [Table.find?_delete, if_neg hid, Table.find?_put, if_neg hid]
          exact hfind
      · dsimp only
        rw [if_pos hd, Table.find?_put]
        exact if_pos rfl
    · intro d hd hp
      rcases List.mem_append.mp hd with hd | hd
      · exact h.kept d hd hp
      · obtain rfl := List.mem_singleton.mp hd
        cases hp

theorem noted_spec (taskId : TaskId) (e : Execution) :
    (e.noted taskId).taskId = e.taskId ∧ (e.noted taskId).inProgress = e.inProgress ∧
      (e.noted taskId).running = e.running ∧ (e.noted taskId).succeeds = e.succeeds ∧
        ((e.noted taskId).promised →
          e.promised ∨ e.inProgress = true ∧ e.taskId = taskId) := by
  unfold Execution.noted
  split
  case isTrue h => exact ⟨rfl, rfl, rfl, rfl, fun _ => .inr (by simpa using h)⟩
  case isFalse => exact ⟨rfl, rfl, rfl, rfl, .inl⟩

@[simp] theorem flagged_taskId (e : Execution) : e.flagged.taskId = e.taskId := rfl

theorem Inv.flag (h : Inv config s) (k : Nat) :
    Inv config { s with executions := s.executions.modify k Execution.flagged } where
  bounded := h.bounded
  entered := by
    intro j d hj hd
    rw [List.getElem?_modify] at hj
    obtain ⟨e, he, rfl⟩ := Option.map_eq_some_iff.mp hj
    split at hd
    case isTrue hk => simpa [hk] using h.entered j e he hd
    case isFalse hk => simpa [hk] using h.entered j e he hd
  kept := by
    intro d hd hp
    obtain ⟨j, hj⟩ := List.mem_iff_getElem?.mp hd
    rw [List.getElem?_modify] at hj
    obtain ⟨e, he, rfl⟩ := Option.map_eq_some_iff.mp hj
    have hkept := h.kept e (List.mem_of_getElem? he)
    split at hp
    case isTrue hk => simpa [hk] using ⟨rfl, (hkept hp).2⟩
    case isFalse hk => simpa [hk] using hkept hp

theorem Inv.promise {taskId : TaskId} (h : Inv config s)
    (hc : ∀ e ∈ s.executions, e.inProgress → e.taskId = taskId →
      e.running.cancelled = true ∧ e.succeeds = false) : Inv config (s.promise taskId) where
  bounded := h.bounded
  entered := by
    intro j d hj hd
    rw [TaskExecutor.promise, List.getElem?_map] at hj
    obtain ⟨e, he, rfl⟩ := Option.map_eq_some_iff.mp hj
    obtain ⟨hid, hprog, -⟩ := noted_spec taskId e
    rw [hid]
    exact h.entered j e he (hprog ▸ hd)
  kept := by
    intro d hd hp
    obtain ⟨e, he, rfl⟩ := List.mem_map.mp hd
    obtain ⟨-, -, hrun, hsucc, hold⟩ := noted_spec taskId e
    rw [hrun, hsucc]
    rcases hold hp with hp | ⟨hprog, hid⟩
    · exact h.kept e he hp
    · exact hc e he hprog hid

/-- The one execution in progress under the id is the one whose flag is set. -/
theorem Inv.cancel {taskId : TaskId} (h : Inv config s) (hg : Apart config s (.cancel taskId))
    (hs : step config s (.cancel taskId) = some s') : Inv config s' := by
  cases hfind : s.runningTasks.find? taskId with
  | none =>
    simp only [step, TaskExecutor.cancel, hfind, Option.some.injEq] at hs
    exact hs ▸ h
  | some entry =>
    obtain ⟨id, k⟩ := entry
    simp only [step, TaskExecutor.cancel, hfind, Option.some.injEq] at hs
    subst hs
    refine (h.flag k).promise fun d hd hprog hid => ?_
    obtain ⟨j, hj⟩ := List.mem_iff_getElem?.mp hd
    rw [List.getElem?_modify] at hj
    obtain ⟨e, he, rfl⟩ := Option.map_eq_some_iff.mp hj
    have hk : k = j := by
      by_contra hne
      rw [if_neg hne] at hprog hid
      have hentry := h.entered j e he hprog
      rw [hid, hfind, Option.some.injEq, Prod.mk.injEq] at hentry
      exact hne hentry.2
    subst hk
    rw [if_pos rfl] at hprog hid ⊢
    exact ⟨rfl, hg e (List.mem_of_getElem? he) hprog hid⟩

theorem Inv.step (h : Inv config s) (hg : Apart config s a)
    (hs : TaskExecutor.step config s a = some s') : Inv config s' := by
  cases a with
  | execute spec spawnError =>
    cases hs
    exact h.execute hg
  | cancel taskId => exact h.cancel hg hs
  | data i type data => exact h.data hs
  | respond i response => exact h.respond hg hs
  | finish i => exact h.finish hs

end

/-- In every run that keeps executions apart. -/
theorem accounted_of_apart {config : TaskExecutorConfig} {s : TaskExecutor}
    (h : (executor config).Reach (Apart config) s) : Accounted config s := by
  have hinv : Inv config s := h.invariant
    (fun s hi => by cases (show s = {} from hi); exact .start)
    fun s a s' _ hinv hg hs => Inv.step hinv hg hs
  exact hinv.accounted

instance (config : TaskExecutorConfig) (s : TaskExecutor) (a : Action) :
    Decidable (Apart config s a) :=
  match a with
  | .execute _ _ => inferInstanceAs (Decidable (_ ∨ _))
  | .cancel _ => inferInstanceAs (Decidable (∀ e ∈ s.executions, _))
  | .respond i (.answered _) => inferInstanceAs (Decidable (∀ e ∈ s.executions[i]?, _))
  | .respond _ (.closed _ _) | .respond _ .done | .respond _ (.created _) | .respond _ (.exited _)
  | .respond _ (.failed _) | .data _ _ _ | .finish _ => .isTrue trivial

def subagents : TaskExecutorConfig := ⟨2, false, true⟩

def prompt (taskId : TaskId) : TaskSpec :=
  { taskId, type := "subagent", subagent := some ⟨"Say hello.", none⟩ }

theorem accounted_cancelled : ∃ s, (executor subagents).Reach (Apart subagents) s ∧
    (s.executions.map Execution.promised = [true, false] ∧ s.getRunningTaskIds = ["u"]) ∧
      Accounted subagents s := by
  obtain ⟨s, hs, hP⟩ := System.Reach.replay (M := executor subagents) (G := Apart subagents)
    (P := fun s => s.executions.map Execution.promised = [true, false] ∧
      s.getRunningTaskIds = ["u"]) rfl
    [.execute (prompt "t") none, .execute (prompt "u") none, .cancel "t",
      .respond 0 (.answered ⟨false, "", some "Request was aborted."⟩), .finish 0] (by decide)
  exact ⟨s, hs, hP, accounted_of_apart hs⟩

/-- One id started twice makes room for a third execution, and a cancelled
subagent succeeds. -/
theorem not_accounted :
    (∃ s, (executor subagents).Reach (fun _ _ => True) s ∧ ¬ Accounted subagents s ∧
      s.executions.map Execution.taskId = ["t", "t", "u"]) ∧
    ∃ s, (executor subagents).Reach (fun _ _ => True) s ∧ ¬ Accounted subagents s ∧
      s.executions.map Execution.taskId = ["t"] := by
  constructor
  · obtain ⟨s, hs, hlen, hids⟩ := System.Reach.replay (M := executor subagents)
      (G := fun _ _ => True)
      (P := fun s => 2 < (s.executions.filter (·.inProgress)).length ∧
        s.executions.map Execution.taskId = ["t", "t", "u"]) rfl
      [.execute (prompt "t") none, .execute (prompt "t") none, .execute (prompt "u") none]
      (by decide)
    exact ⟨s, hs, fun h => absurd h.limited (by simpa [subagents] using hlen), hids⟩
  · obtain ⟨s, hs, ⟨e, he, hp, hend, hsucc⟩, hids⟩ := System.Reach.replay
      (M := executor subagents) (G := fun _ _ => True)
      (P := fun s =>
        (∃ e ∈ s.executions, e.promised = true ∧ e.inProgress = false ∧ e.succeeds = true) ∧
          s.executions.map Execution.taskId = ["t"]) rfl
      [.execute (prompt "t") none, .cancel "t", .respond 0 (.answered ⟨true, "Hello.", none⟩),
        .finish 0] (by decide)
    exact ⟨s, hs, fun h => by simp [h.failed e he hp hend] at hsucc, hids⟩

end TaskExecutor

end ClaudeCluster.Agent
