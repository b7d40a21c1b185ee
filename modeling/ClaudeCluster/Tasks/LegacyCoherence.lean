import ClaudeCluster.Tasks.LegacyScheduler

/-!
# The maps of the legacy scheduler

`taskQueue`, `runningTasks` and `taskStatuses` say where a task is, and each
method touches only some of them. They agree as long as every step meets
`KeepsCoherent`, and what is over by then stays over (`coherent_of_guarded`).
The condition is exact (`coherent_step_iff`): an id that runs or is over is
submitted again, the stream of a dispatch breaks when its task is over, an agent
confirms that a task is cancelled that the maps still have.
-/

namespace ClaudeCluster.Tasks.Legacy

open Lib (Table System)

def TaskState.final : TaskState → Bool
  | .completed | .failed | .cancelled => true
  | .queued | .assigned | .running => false

namespace TaskScheduler

def Queued (s : TaskScheduler) (id : String) : Prop := (s.taskQueue.find? id).isSome

def Running (s : TaskScheduler) (id : String) : Prop := (s.runningTasks.find? id).isSome

instance (s : TaskScheduler) (id : String) : Decidable (s.Queued id) :=
  inferInstanceAs (Decidable (_ = _))

instance (s : TaskScheduler) (id : String) : Decidable (s.Running id) :=
  inferInstanceAs (Decidable (_ = _))

def Finished (s : TaskScheduler) (id : String) : Prop := (s.stateOf id).any TaskState.final

instance (s : TaskScheduler) (id : String) : Decidable (s.Finished id) :=
  inferInstanceAs (Decidable (_ = _))

def dispatchesOf (s : TaskScheduler) (id : String) : Nat :=
  s.dispatches.countP (·.spec.taskId = id)

/-- A task is in one of the two maps at most, and its status says in which. -/
structure Coherent (s : TaskScheduler) : Prop where
  apart : ∀ id, ¬(s.Queued id ∧ s.Running id)
  queued : ∀ id, s.stateOf id = some .queued ↔ s.Queued id
  running : ∀ id, s.stateOf id = some .assigned ∨ s.stateOf id = some .running ↔ s.Running id

/-- What is over stays over: it is not queued, does not run and is not dispatched. -/
def StaysOver (s s' : TaskScheduler) : Prop :=
  ∀ id, s.Finished id → ¬s'.Queued id ∧ ¬s'.Running id ∧ s'.dispatchesOf id = s.dispatchesOf id

/-- The condition on a step: an append commits only for an id that is new or still
queued, a stream breaks only while its task runs or when there are no retries, and an
agent confirms only that a task is cancelled that is in neither map. -/
def KeepsCoherent (config : SchedulerConfig) (s : TaskScheduler) : Action → Prop
  | .appended i success _ => success → ∀ spec ∈ s.submits[i]?,
      s.stateOf spec.taskId = none ∨ s.stateOf spec.taskId = some .queued
  | .broken i _ _ => config.retries = 0 ∨ ∀ d ∈ s.live i, s.Running d.spec.taskId
  | .cancelAnswered i success => success → ∀ id ∈ s.cancels[i]?, ¬s.Queued id ∧ ¬s.Running id
  | _ => True

-- ---------------------------------------------------------------------------
-- One id
-- ---------------------------------------------------------------------------

def Fits (queued running : Bool) (state : Option TaskState) : Prop :=
  (state = some .queued ↔ queued) ∧
    (state = some .assigned ∨ state = some .running ↔ running)

structure Moves (s s' : TaskScheduler) (id : String) (queued running : Bool)
    (state : Option TaskState) : Prop where
  queue : ∀ x, (s'.taskQueue.find? x).isSome =
    if x = id then queued else (s.taskQueue.find? x).isSome
  runningTasks : ∀ x, (s'.runningTasks.find? x).isSome =
    if x = id then running else (s.runningTasks.find? x).isSome
  state : ∀ x, s'.stateOf x = if x = id then state else s.stateOf x

def liveOf (s : TaskScheduler) (id : String) : Nat :=
  s.dispatches.countP fun d => d.stream = .live && d.spec.taskId = id

/-- A task that has left the queue has one dispatch at most that is not through, any
other has none. -/
structure Sound (s : TaskScheduler) : Prop where
  coherent : Coherent s
  lone : ∀ id, s.liveOf id ≤ if (s.stateOf id).any (· ≠ .queued) then 1 else 0

structure Follows (s s' : TaskScheduler) : Prop where
  sound : Sound s'
  finished : ∀ id, s.Finished id → s'.Finished id ∧ s'.dispatchesOf id = s.dispatchesOf id

section
variable {config : SchedulerConfig} {s s' t : TaskScheduler} {id : String} {queued running : Bool}
  {state : Option TaskState} {i : Nat} {d : Dispatch} {q : QueuedTask} {a : Action}

theorem coherent_iff :
    Coherent s ↔ ∀ id, Fits (s.taskQueue.find? id).isSome (s.runningTasks.find? id).isSome
      (s.stateOf id) := by
  constructor
  · exact fun h id => ⟨h.queued id, h.running id⟩
  · refine fun h => ⟨fun id ⟨hq, hr⟩ => ?_, fun id => (h id).1, fun id => (h id).2⟩
    have hstate := (h id).1.mpr hq
    rw [Queued] at hq
    have hactive := (h id).2.mpr hr
    simp [hstate] at hactive

theorem Moves.coherent_iff (h : Moves s s' id queued running state) (hs : Coherent s) :
    Coherent s' ↔ Fits queued running state := by
  rw [TaskScheduler.coherent_iff] at hs ⊢
  constructor
  · intro hall
    have hid := hall id
    rwa [h.queue, h.runningTasks, h.state, if_pos rfl, if_pos rfl, if_pos rfl] at hid
  · intro hfits x
    rw [h.queue, h.runningTasks, h.state]
    by_cases hx : x = id
    · simpa [hx] using hfits
    · simpa [hx] using hs x

theorem Sound.start : Sound {} where
  coherent := by
    rw [coherent_iff]
    intro id
    simp [Fits, stateOf, Table.find?]
  lone id := by simp [liveOf]

theorem Follows.refl (h : Sound s) : Follows s s := ⟨h, fun _ hf => ⟨hf, rfl⟩⟩

theorem Follows.trans (h : Follows s s') (h' : Follows s' t) : Follows s t where
  sound := h'.sound
  finished id hf := by
    obtain ⟨hf', hsame⟩ := h.finished id hf
    obtain ⟨hf'', hsame'⟩ := h'.finished id hf'
    exact ⟨hf'', hsame'.trans hsame⟩

theorem Coherent.not_mem_of_finished (h : Coherent s) (hf : s.Finished id) :
    ¬s.Queued id ∧ ¬s.Running id := by
  rw [← h.queued, ← h.running]
  cases hstate : s.stateOf id with
  | none => simp
  | some state =>
    rw [Finished, hstate] at hf
    cases state <;> simp_all [TaskState.final]

theorem Follows.staysOver (h : Follows s s') : StaysOver s s' := by
  intro id hf
  obtain ⟨hf', hsame⟩ := h.finished id hf
  obtain ⟨hq, hr⟩ := h.sound.coherent.not_mem_of_finished hf'
  exact ⟨hq, hr, hsame⟩

theorem Moves.follows (h : Sound s) (hm : Moves s s' id queued running state)
    (hfits : Fits queued running state)
    (hover : s.Finished id → state.any TaskState.final)
    (hlive : s'.liveOf id ≤ if state.any (· ≠ .queued) then 1 else 0)
    (hothers : ∀ x, x ≠ id → s'.liveOf x ≤ s.liveOf x)
    (hdispatched : ∀ x, s.Finished x → s'.dispatchesOf x = s.dispatchesOf x) : Follows s s' where
  sound := by
    refine ⟨(hm.coherent_iff h.coherent).mpr hfits, fun x => ?_⟩
    rw [hm.state]
    by_cases hx : x = id
    · simpa [hx] using hlive
    · rw [if_neg hx]
      exact (hothers x hx).trans (h.lone x)
  finished x hf := by
    refine ⟨?_, hdispatched x hf⟩
    rw [Finished, hm.state]
    by_cases hx : x = id
    · rw [if_pos hx]
      exact hover (hx ▸ hf)
    · rwa [if_neg hx]

theorem Follows.frame (h : Sound s) (hq : s'.taskQueue = s.taskQueue)
    (hr : s'.runningTasks = s.runningTasks) (hs : s'.taskStatuses = s.taskStatuses)
    (hlive : ∀ x, s'.liveOf x ≤ s.liveOf x) (hd : ∀ x, s'.dispatchesOf x = s.dispatchesOf x) :
    Follows s s' where
  sound := by
    refine ⟨?_, fun id => ?_⟩
    · simpa only [coherent_iff, stateOf, hq, hr, hs] using TaskScheduler.coherent_iff.mp h.coherent
    · have hstate : s'.stateOf id = s.stateOf id := by simp only [stateOf, hs]
      rw [hstate]
      exact (hlive id).trans (h.lone id)
  finished id hf := ⟨by simpa only [Finished, stateOf, hs] using hf, hd id⟩

-- ---------------------------------------------------------------------------
-- The methods
-- ---------------------------------------------------------------------------

theorem not_finished_of_state (h : s.stateOf id = none ∨ s.stateOf id = some .queued) :
    ¬s.Finished id := by
  rw [Finished]
  obtain h | h := h <;> simp [h, TaskState.final]

theorem moves_accept (s : TaskScheduler) (spec : TaskSpec) (now : Nat) :
    Moves s (s.accept spec now) spec.taskId true (s.runningTasks.find? spec.taskId).isSome
      (some .queued) where
  queue x := by
    simp only [accept, Table.find?_put, QueuedTask.taskId]
    by_cases hx : x = spec.taskId <;> simp [hx]
  runningTasks x := by
    by_cases hx : x = spec.taskId <;> simp [accept, hx]
  state x := by
    simp only [stateOf, accept, Table.find?_put]
    split <;> rfl

theorem Sound.accept (h : Sound s) {spec : TaskSpec}
    (hg : s.stateOf spec.taskId = none ∨ s.stateOf spec.taskId = some .queued) (now : Nat) :
    Follows s (s.accept spec now) := by
  have hnot : ¬s.Running spec.taskId := by
    rw [← h.coherent.running]
    obtain hg | hg := hg <;> simp [hg]
  have hnone : s.liveOf spec.taskId ≤ 0 := by
    have hlone := h.lone spec.taskId
    obtain hg | hg := hg <;> simpa [hg] using hlone
  refine (moves_accept s spec now).follows h ⟨by simp, ?_⟩
    (fun hf => absurd hf (not_finished_of_state hg)) (hnone.trans (by simp)) (fun _ _ => le_rfl)
    fun _ _ => rfl
  simpa [Running] using hnot

theorem moves_dispatch (s : TaskScheduler) (q : QueuedTask) (node : String) :
    Moves s (dispatchTask { s with taskQueue := s.taskQueue.delete q.taskId } q node) q.taskId
      false true (some .running) where
  queue x := by
    simp only [dispatchTask, updateStatus_taskQueue, emit, Table.find?_delete]
    split <;> rfl
  runningTasks x := by
    simp only [dispatchTask, updateStatus, emit, Table.find?_put, RunningTask.taskId,
      QueuedTask.taskId]
    by_cases hx : x = q.spec.taskId <;> simp [hx]
  state x := by
    rw [dispatchTask, stateOf_updateStatus]
    by_cases hx : x = q.taskId
    · rw [if_pos hx, if_pos hx]
    · rw [if_neg hx, if_neg hx, emit]
      exact (stateOf_updateStatus.trans (if_neg hx) :)

theorem Sound.dispatch (h : Sound s) (hq : s.taskQueue.find? q.taskId = some q) (node : String) :
    Follows s (dispatchTask { s with taskQueue := s.taskQueue.delete q.taskId } q node) := by
  have hstate : s.stateOf q.taskId = some .queued :=
    (h.coherent.queued q.taskId).mpr (by simp [Queued, hq])
  have hlone := h.lone q.taskId
  have hcount (x : String) (p : Dispatch → Bool) :
      (dispatchTask { s with taskQueue := s.taskQueue.delete q.taskId } q node).dispatches.countP p =
        s.dispatches.countP p + if p ⟨q.spec, q.submission, .live⟩ then 1 else 0 := by
    simp [dispatchTask, updateStatus, emit, List.countP_append, List.countP_singleton]
  refine (moves_dispatch s q node).follows h ⟨by simp, by simp⟩
    (fun hf => absurd hf (not_finished_of_state (.inr hstate))) ?_ (fun x hx => ?_) fun x hf => ?_
  · rw [liveOf, hcount q.taskId]
    simp only [liveOf, hstate] at hlone
    simpa [QueuedTask.taskId] using hlone
  · have hne : q.spec.taskId ≠ x := Ne.symm hx
    rw [liveOf, hcount x]
    simp [liveOf, hne]
  · have hne : q.spec.taskId ≠ x := by
      rintro rfl
      exact not_finished_of_state (.inr hstate) hf
    rw [dispatchesOf, hcount x]
    simp [dispatchesOf, hne]

theorem Sound.scheduleAll (scheduleTask : TaskSpec → Option String) {queue : List QueuedTask}
    (h : Sound s) (hnodup : (queue.map QueuedTask.taskId).Nodup)
    (hmem : ∀ q ∈ queue, s.taskQueue.find? q.taskId = some q) :
    Follows s (queue.foldl (scheduleOne scheduleTask) s) := by
  induction queue generalizing s with
  | nil => exact .refl h
  | cons q queue ih =>
    rw [List.map_cons, List.nodup_cons] at hnodup
    obtain ⟨hq, hqueue⟩ := List.forall_mem_cons.mp hmem
    rw [List.foldl_cons, scheduleOne]
    cases scheduleTask q.spec with
    | none => exact ih h hnodup.2 hqueue
    | some node =>
      have hone := h.dispatch hq node
      refine hone.trans (ih hone.sound hnodup.2 fun r hr => ?_)
      have hid : r.taskId ≠ q.taskId := fun he => hnodup.1 (List.mem_map.mpr ⟨r, hr, he⟩)
      simp only [dispatchTask, updateStatus_taskQueue, emit, Table.find?_delete, if_neg hid]
      exact hqueue r hr

theorem Sound.scheduleNext (h : Sound s) (leader : Bool)
    (scheduleTask : TaskSpec → Option String) :
    Follows s (s.scheduleNext leader scheduleTask) := by
  rw [TaskScheduler.scheduleNext]
  split
  case isTrue => exact .refl h
  case isFalse =>
    have hperm := List.perm_insertionSort (QueuedTask.before · ·) s.taskQueue.rows
    refine h.scheduleAll scheduleTask ?_ fun q hq => Table.find?_of_mem (hperm.mem_iff.mp hq)
    exact (hperm.map _).nodup_iff.mpr s.taskQueue.keys_nodup

theorem Sound.of_live (h : Sound s) (hd : s.live i = some d) :
    (∃ state, s.stateOf d.spec.taskId = some state) ∧ ¬s.Queued d.spec.taskId := by
  obtain ⟨hmem, hlive⟩ := live_spec hd
  have hpos : 0 < s.liveOf d.spec.taskId :=
    List.countP_pos_iff.mpr ⟨d, List.mem_of_getElem? hmem, by simp [hlive]⟩
  have hlone := h.lone d.spec.taskId
  rw [← h.coherent.queued]
  cases hstate : s.stateOf d.spec.taskId with
  | none =>
    rw [hstate] at hlone
    simp only [Option.any_none, Bool.false_eq_true, if_false] at hlone
    omega
  | some state =>
    refine ⟨⟨state, rfl⟩, fun hqueued => ?_⟩
    rw [hstate, hqueued] at hlone
    simp at hlone
    omega

theorem moves_completion (hstate : ∃ state, s.stateOf id = some state) (exitCode : Option Int)
    (error : Option String) :
    Moves s (s.handleTaskCompletion id exitCode error) id (s.taskQueue.find? id).isSome false
      (some (if exitCode = some 0 then .completed else .failed)) where
  queue x := by
    by_cases hx : x = id <;> simp [handleTaskCompletion, emit, hx]
  runningTasks x := by
    simp only [handleTaskCompletion, emit, Table.find?_delete]
    split <;> rfl
  state x := by
    simp only [stateOf, handleTaskCompletion, emit, Table.find?_modify]
    split
    case isTrue hx =>
      obtain ⟨state, hstate⟩ := hstate
      rw [stateOf, ← hx] at hstate
      obtain ⟨status, hstatus, -⟩ := Option.map_eq_some_iff.mp hstate
      simp [hstatus]
    case isFalse => rfl

theorem Sound.status (h : Sound s) (hd : s.live i = some d) (exitCode : Option Int)
    (error : Option String) :
    Follows s (s.handleTaskCompletion d.spec.taskId exitCode error) := by
  obtain ⟨hstate, hnot⟩ := h.of_live hd
  have hlone : s.liveOf d.spec.taskId ≤ 1 := by
    have hle := h.lone d.spec.taskId
    split at hle <;> omega
  refine (moves_completion hstate exitCode error).follows h ⟨?_, ?_⟩ (fun _ => ?_) ?_
    (fun _ _ => le_rfl) fun _ _ => rfl
  · rw [Queued, Bool.not_eq_true] at hnot
    rw [hnot]
    split <;> simp
  · split <;> simp
  · split <;> rfl
  · split <;> exact hlone

theorem liveOf_close (hd : s.live i = some d) {stream : Stream} (hover : stream ≠ .live)
    (id : String) :
    (s.close i d stream).liveOf id + (if d.spec.taskId = id then 1 else 0) = s.liveOf id := by
  obtain ⟨hmem, hlive⟩ := live_spec hd
  have hset := countP_set (fun d => decide (d.stream = .live) && decide (d.spec.taskId = id))
    { d with stream } hmem
  simpa [liveOf, close, hlive, hover] using hset

theorem dispatchesOf_close (hd : s.live i = some d) (stream : Stream) (id : String) :
    (s.close i d stream).dispatchesOf id = s.dispatchesOf id := by
  have hset := countP_set (fun d => decide (d.spec.taskId = id)) { d with stream } (live_spec hd).1
  exact Nat.add_right_cancel hset

theorem Sound.ended (h : Sound s) (hd : s.live i = some d) {stream : Stream}
    (hover : stream ≠ .live) : Follows s (s.close i d stream) := by
  refine .frame h rfl rfl rfl (fun x => ?_) (dispatchesOf_close hd stream)
  have hclose := liveOf_close hd hover x
  omega

theorem moves_failure (config : SchedulerConfig) (hnot : ¬s.Queued d.spec.taskId)
    (submission : Nat) (error : String) (now : Nat) :
    Moves s (s.handleTaskFailure config d.spec submission error now) d.spec.taskId
      (decide (config.retries ≠ 0)) false
      (some (if config.retries = 0 then .failed else .queued)) := by
  have hnone : s.taskQueue.find? d.spec.taskId = none := by simpa [Queued] using hnot
  unfold handleTaskFailure
  simp only [hnone, Option.map_none, Option.getD_none]
  by_cases hzero : config.retries = 0
  · rw [if_neg (by omega)]
    refine ⟨fun x => ?_, fun x => ?_, fun x => ?_⟩
    · by_cases hx : x = d.spec.taskId <;> simp [emit, hx, hzero, hnone]
    · by_cases hx : x = d.spec.taskId <;> simp [emit, updateStatus, Table.find?_delete, hx]
    · rw [if_pos hzero]
      exact (stateOf_modify_error _).trans stateOf_updateStatus
  · rw [if_pos (by omega)]
    refine ⟨fun x => ?_, fun x => ?_, fun x => ?_⟩
    · simp only [updateStatus_taskQueue, Table.find?_put, QueuedTask.taskId]
      by_cases hx : x = d.spec.taskId <;> simp [hx, hzero]
    · by_cases hx : x = d.spec.taskId <;> simp [updateStatus, Table.find?_delete, hx]
    · rw [if_neg hzero]
      exact stateOf_updateStatus

theorem handleTaskFailure_dispatches (config : SchedulerConfig) (s : TaskScheduler)
    (spec : TaskSpec) (submission : Nat) (error : String) (now : Nat) :
    (s.handleTaskFailure config spec submission error now).dispatches = s.dispatches := by
  unfold handleTaskFailure
  dsimp only
  split <;> rfl

theorem Sound.broken (h : Sound s) (hd : s.live i = some d)
    (hg : config.retries = 0 ∨ s.Running d.spec.taskId) (error : String) (now : Nat) :
    Follows s ((s.close i d .broken).handleTaskFailure config d.spec d.submission error now) := by
  obtain ⟨-, hnot⟩ := h.of_live hd
  have hover : Stream.broken ≠ .live := by decide
  have hclosed := h.ended hd hover
  have hsame := handleTaskFailure_dispatches config (s.close i d .broken) d.spec d.submission
    error now
  have hlone := liveOf_close hd hover d.spec.taskId
  have hle := h.lone d.spec.taskId
  refine hclosed.trans ((moves_failure (s := s.close i d .broken) config hnot d.submission error
    now).follows hclosed.sound ?_ (fun hf => ?_) ?_ (fun x _ => ?_) fun x _ => ?_)
  · by_cases hzero : config.retries = 0 <;> simp [Fits, hzero]
  · obtain hzero | hrunning := hg
    · simp [hzero, TaskState.final]
    · exact absurd hrunning (h.coherent.not_mem_of_finished hf).2
  · simp only [liveOf, hsame, if_true] at hlone hle ⊢
    split at hle <;> omega
  · simp only [liveOf, hsame, le_refl]
  · simp only [dispatchesOf, hsame]

theorem moves_cancelled (s : TaskScheduler) (id : String) :
    Moves s (updateStatus { s with cancelled := id :: s.cancelled } id .cancelled) id
      (s.taskQueue.find? id).isSome (s.runningTasks.find? id).isSome (some .cancelled) where
  queue x := by by_cases hx : x = id <;> simp [hx]
  runningTasks x := by by_cases hx : x = id <;> simp [updateStatus, hx]
  state x := stateOf_updateStatus

theorem Sound.cancelled (h : Sound s) (hg : ¬s.Queued id ∧ ¬s.Running id) :
    Follows s (updateStatus { s with cancelled := id :: s.cancelled } id .cancelled) := by
  obtain ⟨hq, hr⟩ := hg
  have hle := h.lone id
  refine (moves_cancelled s id).follows h ⟨?_, ?_⟩ (fun _ => rfl) ?_ (fun _ _ => le_rfl)
    fun _ _ => rfl
  · simpa [Queued] using hq
  · simpa [Running] using hr
  · have hsame : liveOf (updateStatus { s with cancelled := id :: s.cancelled } id .cancelled) id =
        s.liveOf id := rfl
    rw [hsame, if_pos (by simp)]
    split at hle <;> omega

theorem cancel_of_queued (hq : s.Queued id) :
    s.cancel id = updateStatus { s with
      taskQueue := s.taskQueue.delete id
      cancelled := id :: s.cancelled } id .cancelled := if_pos hq

theorem moves_cancel (hq : s.Queued id) :
    Moves s (s.cancel id) id false (s.runningTasks.find? id).isSome (some .cancelled) := by
  rw [cancel_of_queued hq]
  refine ⟨fun x => ?_, fun x => ?_, fun x => stateOf_updateStatus⟩
  · by_cases hx : x = id <;> simp [Table.find?_delete, hx]
  · by_cases hx : x = id <;> simp [updateStatus, hx]

theorem Sound.cancel (h : Sound s) (id : String) : Follows s (s.cancel id) := by
  by_cases hq : s.Queued id
  · have hr : ¬s.Running id := fun hr => h.coherent.apart id ⟨hq, hr⟩
    have hstate := (h.coherent.queued id).mpr hq
    have hsame : (s.cancel id).dispatches = s.dispatches := by
      rw [cancel_of_queued hq]
      rfl
    have hle := h.lone id
    refine (moves_cancel hq).follows h ⟨by simp, ?_⟩ (fun _ => rfl) ?_ (fun x _ => ?_) fun x _ => ?_
    · simpa [Running] using hr
    · simp only [hstate] at hle
      simp only [liveOf, hsame] at hle ⊢
      simpa using hle.trans (Nat.zero_le 1)
    · simp only [liveOf, hsame, le_refl]
    · simp only [dispatchesOf, hsame]
  · unfold TaskScheduler.cancel
    rw [if_neg (by simpa [Queued] using hq)]
    split
    · exact .frame h rfl rfl rfl (fun _ => le_rfl) fun _ => rfl
    · exact .refl h

-- ---------------------------------------------------------------------------
-- One step
-- ---------------------------------------------------------------------------

theorem Sound.step (h : Sound s) (hg : KeepsCoherent config s a)
    (hs : TaskScheduler.step config s a = some s') : Follows s s' := by
  cases a with
  | submit spec leader =>
    cases hs
    unfold TaskScheduler.submit
    split
    · exact .refl h
    · split
      · exact .refl h
      · exact .frame h rfl rfl rfl (fun _ => le_rfl) fun _ => rfl
  | appended i success now =>
    simp only [TaskScheduler.step, Option.bind_eq_bind, Option.bind_eq_some_iff] at hs
    obtain ⟨spec, hspec, hs⟩ := hs
    have herase : Follows s { s with submits := s.submits.eraseIdx i } :=
      .frame h rfl rfl rfl (fun _ => le_rfl) fun _ => rfl
    cases hs
    split
    case isTrue hsuccess => exact herase.trans (herase.sound.accept (hg hsuccess spec hspec) now)
    case isFalse => exact herase
  | scheduleNext leader scheduleTask =>
    cases hs
    exact h.scheduleNext leader scheduleTask
  | status i exitCode error =>
    simp only [TaskScheduler.step, Option.bind_eq_bind, Option.bind_eq_some_iff] at hs
    obtain ⟨d, hd, hs⟩ := hs
    cases hs
    exact h.status hd exitCode error
  | ended i =>
    simp only [TaskScheduler.step, Option.bind_eq_bind, Option.bind_eq_some_iff] at hs
    obtain ⟨d, hd, hs⟩ := hs
    cases hs
    exact h.ended hd (by decide)
  | broken i error now =>
    simp only [TaskScheduler.step, Option.bind_eq_bind, Option.bind_eq_some_iff] at hs
    obtain ⟨d, hd, hs⟩ := hs
    cases hs
    exact h.broken hd (hg.imp_right fun hall => hall d hd) error now
  | cancel taskId =>
    cases hs
    exact h.cancel taskId
  | cancelAnswered i success =>
    simp only [TaskScheduler.step, Option.bind_eq_bind, Option.bind_eq_some_iff] at hs
    obtain ⟨taskId, hid, hs⟩ := hs
    have herase : Follows s { s with cancels := s.cancels.eraseIdx i } :=
      .frame h rfl rfl rfl (fun _ => le_rfl) fun _ => rfl
    cases hs
    split
    case isTrue hsuccess => exact herase.trans (herase.sound.cancelled (hg hsuccess taskId hid))
    case isFalse => exact herase

theorem Coherent.running_or_finished (h : Coherent s)
    (hstate : ¬(s.stateOf id = none ∨ s.stateOf id = some .queued)) :
    s.Running id ∨ s.Finished id := by
  rw [← h.running, Finished]
  cases hfind : s.stateOf id with
  | none => exact absurd (.inl hfind) hstate
  | some state => cases state <;> simp_all [TaskState.final]

/-- The condition on a step is exact. -/
theorem coherent_step_iff (h : Sound s) (hs : TaskScheduler.step config s a = some s') :
    Coherent s' ∧ StaysOver s s' ↔ KeepsCoherent config s a := by
  constructor
  · intro ⟨hcoherent, hover⟩
    cases a with
    | submit | scheduleNext | status | ended | cancel => trivial
    | appended i success now =>
      intro hsuccess spec hspec
      by_contra hstate
      simp only [TaskScheduler.step, Option.bind_eq_bind, Option.bind_eq_some_iff] at hs
      obtain ⟨other, hother, hs⟩ := hs
      obtain rfl : other = spec := Option.some.inj (hother.symm.trans hspec)
      rw [if_pos hsuccess] at hs
      cases hs
      have hmoves := moves_accept { s with submits := s.submits.eraseIdx i } other now
      have hqueued : (accept { s with submits := s.submits.eraseIdx i } other now).Queued
          other.taskId := (hmoves.queue other.taskId).trans (if_pos rfl)
      obtain hrunning | hfinished := h.coherent.running_or_finished hstate
      · refine hcoherent.apart other.taskId ⟨hqueued, ?_⟩
        exact ((hmoves.runningTasks other.taskId).trans (if_pos rfl)).trans hrunning
      · exact (hover other.taskId hfinished).1 hqueued
    | broken i error now =>
      simp only [TaskScheduler.step, Option.bind_eq_bind, Option.bind_eq_some_iff] at hs
      obtain ⟨d, hd, hs⟩ := hs
      cases hs
      by_contra hnot
      obtain ⟨hzero, hdead⟩ : config.retries ≠ 0 ∧ ¬s.Running d.spec.taskId := by
        simpa [KeepsCoherent, hd] using hnot
      obtain ⟨⟨state, hstate⟩, hqueued⟩ := h.of_live hd
      have hfinished : s.Finished d.spec.taskId := by
        refine (h.coherent.running_or_finished ?_).resolve_left hdead
        rw [h.coherent.queued]
        simp [hstate, hqueued]
      have hmoves := moves_failure (s := s.close i d .broken) config hqueued d.submission error now
      refine (hover d.spec.taskId hfinished).1 ?_
      exact (hmoves.queue d.spec.taskId).trans (by simp [hzero])
    | cancelAnswered i success =>
      intro hsuccess id hid
      simp only [TaskScheduler.step, Option.bind_eq_bind, Option.bind_eq_some_iff] at hs
      obtain ⟨other, hother, hs⟩ := hs
      obtain rfl : other = id := Option.some.inj (hother.symm.trans hid)
      rw [if_pos hsuccess] at hs
      cases hs
      have herase : Follows s { s with cancels := s.cancels.eraseIdx i } :=
        .frame h rfl rfl rfl (fun _ => le_rfl) fun _ => rfl
      have hfits := ((moves_cancelled { s with cancels := s.cancels.eraseIdx i } other).coherent_iff
        herase.sound.coherent).mp hcoherent
      simpa [Fits, Queued, Running] using hfits
  · intro hg
    have hfollows := h.step hg hs
    exact ⟨hfollows.sound.coherent, hfollows.staysOver⟩

-- ---------------------------------------------------------------------------
-- Whole runs
-- ---------------------------------------------------------------------------

theorem sound_of_guarded (h : (scheduler config).Reach (KeepsCoherent config) s) : Sound s :=
  h.invariant (fun s hi => by cases (show s = {} from hi); exact .start)
    fun _ _ _ _ hsound hg hs => (hsound.step hg hs).sound

/-- In every run whose steps meet the condition the maps agree in every state, and what is
over in one is over in all that follow. -/
theorem coherent_of_guarded (h : (scheduler config).Reach (KeepsCoherent config) s) :
    Coherent s ∧
      ∀ s', ((scheduler config).after s).Reach (KeepsCoherent config) s' → StaysOver s s' := by
  have hsound := sound_of_guarded h
  refine ⟨hsound.coherent, fun s' h' => ?_⟩
  have hfollows : Follows s s' := h'.invariant
    (fun t hi => by cases (show t = s from hi); exact .refl hsound)
    fun _ _ _ _ hf hg hs => hf.trans (hf.sound.step hg hs)
  exact hfollows.staysOver

end

instance (config : SchedulerConfig) (s : TaskScheduler) (a : Action) :
    Decidable (KeepsCoherent config s a) :=
  match a with
  | .appended i success _ =>
    inferInstanceAs (Decidable (success → ∀ spec ∈ s.submits[i]?, _ ∨ _))
  | .broken i _ _ => inferInstanceAs (Decidable (_ ∨ ∀ d ∈ s.live i, _))
  | .cancelAnswered i success =>
    inferInstanceAs (Decidable (success → ∀ id ∈ s.cancels[i]?, ¬s.Queued id ∧ ¬s.Running id))
  | .submit _ _ | .scheduleNext _ _ | .status _ _ _ | .ended _ | .cancel _ => .isTrue trivial

theorem coherent_of_guarded_retried :
    ∃ s, (scheduler retryOnce).Reach (KeepsCoherent retryOnce) s ∧
      s.stateOf "t" = some .completed ∧ Coherent s ∧
      ∀ s', ((scheduler retryOnce).after s).Reach (KeepsCoherent retryOnce) s' →
        StaysOver s s' := by
  obtain ⟨s, hs, hstate⟩ := System.Reach.replay (M := scheduler retryOnce)
    (G := KeepsCoherent retryOnce) (P := fun s => s.stateOf "t" = some .completed) rfl retriedRun
    (by decide +kernel)
  exact ⟨s, hs, hstate, coherent_of_guarded hs⟩

def dispatchedRun : List Action :=
  [.submit listing true, .appended 0 true 0, .scheduleNext true anyNode]

/-- A running task that is cancelled stays among those that run, and a task whose stream
breaks after its status is queued again though it is completed. -/
theorem maps_disagree :
    (∃ s, (scheduler {}).Reach (fun _ _ => True) s ∧ ¬Coherent s) ∧
    ∃ s s', (scheduler {}).Reach (fun _ _ => True) s ∧
      ((scheduler {}).after s).Reach (fun _ _ => True) s' ∧ ¬StaysOver s s' := by
  constructor
  · obtain ⟨s, hs, hstate, hrunning⟩ := System.Reach.replay (M := scheduler {})
      (G := fun _ _ => True) (P := fun s => s.stateOf "t" = some .cancelled ∧ s.Running "t") rfl
      (dispatchedRun ++ [.cancel "t", .cancelAnswered 0 true]) (by decide +kernel)
    refine ⟨s, hs, fun h => ?_⟩
    have hactive := (h.running "t").mpr hrunning
    simp [hstate] at hactive
  · obtain ⟨s, s', hs, hs', hfinished, hqueued⟩ := System.Reach.replay_on (M := scheduler {})
      (G := fun _ _ => True) (P := fun s s' => s.Finished "t" ∧ s'.Queued "t") rfl
      (dispatchedRun ++ [.status 0 (some 0) none])
      [.broken 0 "14 UNAVAILABLE: Connection dropped" 1] (by decide +kernel)
    exact ⟨s, s', hs, hs', fun h => (h "t" hfinished).1 hqueued⟩

end TaskScheduler

end ClaudeCluster.Tasks.Legacy
