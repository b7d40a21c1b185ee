import Mathlib.Data.List.Nodup
import ClaudeCluster.Lib.Run
import ClaudeCluster.Raft.Node

/-!
# Thoughts of a timeline

The `memory_log_thought` handler of `memory/memory-tools.ts`, called on any
nodes at any time. A call reads the position of the thread, writes the thought
with it as parent, reads the newest thought and writes its id as the position;
reads are of the node's own tables, writes become entries of one log that every
node applies at its own pace. What becomes of a write and what its caller is
told are left open: it may be committed late, again, or not at all.

`Linear` is the shape a thread should have. It has it along every run whose
steps are `Serial`.
-/

namespace ClaudeCluster.Memory

open Lib
open Raft (NodeId)

-- ---------------------------------------------------------------------------
-- The tables
-- ---------------------------------------------------------------------------

structure Thought where
  id : Nat
  threadId : Nat
  parentThoughtId : Option Nat
  content : String
  thoughtType : String
  metadata : String
  /-- The call that inserted it, which is no column. -/
  call : Nat
  deriving DecidableEq, Repr

inductive TimelineWrite
  | insertThought (threadId : Nat) (parentThoughtId : Option Nat)
      (content thoughtType metadata : String)
  | setPosition (threadId thoughtId : Nat)
  | touchThread (threadId : Nat)
  deriving DecidableEq, Repr

structure TimelineEntry where
  call : Nat
  write : TimelineWrite
  deriving DecidableEq, Repr

/-- `timeline_threads` by its ids, `timeline_thoughts` in the order of its ids,
`timeline_thread_position` as a map. -/
structure Timeline where
  threads : List Nat
  thoughts : List Thought := []
  position : Nat → Option Nat := fun _ => none
  seq : Nat := 0

namespace Timeline

/-- A statement that violates a foreign key leaves the tables as they are. -/
def apply (tl : Timeline) (e : TimelineEntry) : Timeline :=
  match e.write with
  | .insertThought threadId parentThoughtId content thoughtType metadata =>
    if threadId ∈ tl.threads ∧ ∀ p ∈ parentThoughtId, p ∈ tl.thoughts.map (·.id) then
      { tl with
        thoughts := tl.thoughts ++
          [⟨tl.seq + 1, threadId, parentThoughtId, content, thoughtType, metadata, e.call⟩]
        seq := tl.seq + 1 }
    else tl
  | .setPosition threadId thoughtId =>
    if threadId ∈ tl.threads ∧ thoughtId ∈ tl.thoughts.map (·.id) then
      { tl with position := fun t => if t = threadId then some thoughtId else tl.position t }
    else tl
  | .touchThread _ => tl

def replay (threads : List Nat) (log : List TimelineEntry) : Timeline :=
  log.foldl apply { threads }

def thread (tl : Timeline) (threadId : Nat) : List Thought :=
  tl.thoughts.filter (·.threadId = threadId)

/-- `ORDER BY id DESC LIMIT 1` -/
def newest (tl : Timeline) (threadId : Nat) : Option Thought := (tl.thread threadId).getLast?

end Timeline

-- ---------------------------------------------------------------------------
-- The handler
-- ---------------------------------------------------------------------------

structure LogThoughtArgs where
  threadId : Nat
  content : String
  thoughtType : Option String := none
  /-- The text of the object, where there is one. -/
  metadata : Option String := none
  deriving DecidableEq, Repr

inductive Stage
  | inserting
  | positioning (thoughtId : Nat)
  | touching (thoughtId : Nat)
  /-- With the `thought_id` of the answer, or with its error. -/
  | returned (result : Except String (Option Nat))
  deriving Repr

structure ThoughtCall where
  node : NodeId
  args : LogThoughtArgs
  parentId : Option Nat
  stage : Stage
  deriving Repr

namespace ThoughtCall

def insertion (call : ThoughtCall) : TimelineWrite :=
  .insertThought call.args.threadId call.parentId call.args.content
    (call.args.thoughtType.getD "progress") (call.args.metadata.getD "\x7b\x7d")

def writes (call : ThoughtCall) : List TimelineWrite :=
  match call.stage with
  | .inserting | .returned (.error _) | .returned (.ok none) => [call.insertion]
  | .positioning thoughtId => [call.insertion, .setPosition call.args.threadId thoughtId]
  | .touching thoughtId | .returned (.ok (some thoughtId)) =>
    [call.insertion, .setPosition call.args.threadId thoughtId, .touchThread call.args.threadId]

def isReturned (call : ThoughtCall) : Bool :=
  match call.stage with
  | .returned _ => true
  | _ => false

def isInserting (call : ThoughtCall) : Bool :=
  match call.stage with
  | .inserting => true
  | _ => false

end ThoughtCall

-- ---------------------------------------------------------------------------
-- Calls on many nodes
-- ---------------------------------------------------------------------------

structure Diary where
  threads : List Nat
  /-- What has been committed. -/
  log : List TimelineEntry := []
  applied : NodeId → Nat := fun _ => 0
  calls : List ThoughtCall := []

namespace Diary

inductive Action
  | call (node : NodeId) (args : LogThoughtArgs)
  /-- A write of a call is committed, whether or not the call still waits for it. -/
  | commit (call : Nat) (write : TimelineWrite)
  | apply (node : NodeId)
  /-- The first `write` of a call returns, with success or an error. -/
  | inserted (call : Nat) (error : Option String)
  /-- The second one returns, with either. -/
  | positioned (call : Nat)
  | touched (call : Nat)
  deriving DecidableEq, Repr

variable (w : Diary)

def timeline : Timeline := .replay w.threads w.log

def tables (node : NodeId) : Timeline := .replay w.threads (w.log.take (w.applied node))

def setStage (call : Nat) (stage : Stage) : Diary :=
  { w with calls := w.calls.modify call fun c => { c with stage } }

def afterInsert (call : ThoughtCall) : Option String → Stage
  | some error => .returned (.error error)
  | none =>
    match (w.tables call.node).newest call.args.threadId with
    | some thought => .positioning thought.id
    | none => .returned (.ok none)

def step : Action → Option Diary
  | .call node args =>
    some { w with calls := w.calls ++
      [⟨node, args, (w.tables node).position args.threadId, .inserting⟩] }
  | .commit c write =>
    w.calls[c]?.bind fun call =>
      if write ∈ call.writes then some { w with log := w.log ++ [⟨c, write⟩] } else none
  | .apply node =>
    if w.applied node < w.log.length then
      some { w with applied := fun x => if x = node then w.applied node + 1 else w.applied x }
    else none
  | .inserted c error =>
    w.calls[c]?.bind fun call =>
      match call.stage with
      | .inserting => some (w.setStage c (w.afterInsert call error))
      | _ => none
  | .positioned c =>
    w.calls[c]?.bind fun call =>
      match call.stage with
      | .positioning thoughtId => some (w.setStage c (.touching thoughtId))
      | _ => none
  | .touched c =>
    w.calls[c]?.bind fun call =>
      match call.stage with
      | .touching thoughtId => some (w.setStage c (.returned (.ok (some thoughtId))))
      | _ => none

end Diary

def diary (threads : List Nat) : System Diary Diary.Action where
  init w := w = { threads }
  step := Diary.step

-- ---------------------------------------------------------------------------
-- What should hold
-- ---------------------------------------------------------------------------

def lastId (thoughts : List Thought) : Option Nat := thoughts.getLast?.map (·.id)

/-- The first has no parent, each next one the one before it. -/
def Linear (thoughts : List Thought) : Prop :=
  thoughts.map (·.parentThoughtId) = (none :: thoughts.map fun x => some x.id).dropLast

instance (thoughts : List Thought) : Decidable (Linear thoughts) :=
  inferInstanceAs (Decidable (_ = _))

structure Intact (w : Diary) (threadId : Nat) : Prop where
  /-- A call that succeeds has inserted one row and returns its id. -/
  returns : ∀ c call r, w.calls[c]? = some call → call.args.threadId = threadId →
    call.stage = .returned (.ok r) →
      ∃ x ∈ w.timeline.thread threadId, w.timeline.thoughts.filter (·.call = c) = [x] ∧
        r = some x.id
  parents : ((w.timeline.thread threadId).map (·.parentThoughtId)).Nodup
  position : (∀ call ∈ w.calls, call.isReturned) →
    Linear (w.timeline.thread threadId) ∧
      w.timeline.position threadId = lastId (w.timeline.thread threadId)

/-- No other thought of the thread comes between a call's read and its insert,
nor between its insert and its second read, which the node has applied its row
for. What a call is told is true, and each write is committed once. -/
def Serial (w : Diary) : Diary.Action → Prop
  | .commit c (.insertThought threadId parentThoughtId ..) =>
    parentThoughtId = lastId (w.timeline.thread threadId) ∧
      (∀ call ∈ w.calls[c]?, call.isInserting) ∧ ∀ x ∈ w.timeline.thoughts, x.call ≠ c
  | .commit c (.setPosition threadId thoughtId) => ⟨c, .setPosition threadId thoughtId⟩ ∉ w.log
  | .inserted c none => ∀ call ∈ w.calls[c]?,
    ((w.tables call.node).newest call.args.threadId).map (·.call) = some c
  | .inserted c (some _) => ∀ x ∈ w.timeline.thoughts, x.call ≠ c
  | .positioned c => ∀ call ∈ w.calls[c]?, ∀ write ∈ call.writes,
    write ≠ call.insertion → ⟨c, write⟩ ∈ w.log
  | .call .. | .commit _ (.touchThread _) | .apply _ | .touched _ => True

instance (w : Diary) : DecidablePred (Serial w) := fun a => by
  unfold Serial
  split <;> infer_instance

-- ---------------------------------------------------------------------------
-- Tables and their log
-- ---------------------------------------------------------------------------

section
variable {threads : List Nat} {log : List TimelineEntry} {tl : Timeline} {e : TimelineEntry}

theorem Timeline.replay_concat (threads : List Nat) (log : List TimelineEntry)
    (e : TimelineEntry) :
    Timeline.replay threads (log ++ [e]) = (Timeline.replay threads log).apply e := by
  rw [Timeline.replay, List.foldl_append]
  rfl

inductive Effect (tl : Timeline) (e : TimelineEntry) : Timeline → Prop
  | insert {x : Thought} (hcall : x.call = e.call) (hid : x.id = tl.seq + 1)
      (hthread : x.threadId ∈ tl.threads)
      (hwrite : e.write =
        .insertThought x.threadId x.parentThoughtId x.content x.thoughtType x.metadata) :
      Effect tl e { tl with thoughts := tl.thoughts ++ [x], seq := tl.seq + 1 }
  | place {threadId thoughtId : Nat} (hwrite : e.write = .setPosition threadId thoughtId) :
      Effect tl e
        { tl with position := fun t => if t = threadId then some thoughtId else tl.position t }
  | none (hplace : ∀ threadId thoughtId, e.write = .setPosition threadId thoughtId →
      threadId ∉ tl.threads ∨ thoughtId ∉ tl.thoughts.map (·.id)) : Effect tl e tl

theorem Timeline.effect (tl : Timeline) (e : TimelineEntry) : Effect tl e (tl.apply e) := by
  unfold Timeline.apply
  cases hw : e.write with
  | insertThought threadId parentThoughtId content thoughtType metadata =>
    dsimp only
    split
    case isTrue h =>
      exact .insert (x := ⟨_, _, _, _, _, _, _⟩) rfl rfl h.1 hw
    case isFalse => exact .none fun _ _ h => (nomatch hw.symm.trans h)
  | setPosition threadId thoughtId =>
    dsimp only
    split
    case isTrue => exact .place hw
    case isFalse h =>
      refine .none fun t p hp => ?_
      cases hw.symm.trans hp
      exact Decidable.not_and_iff_or_not.mp h
  | touchThread threadId => exact .none fun _ _ h => (nomatch hw.symm.trans h)

theorem Timeline.thoughts_prefix (threads : List Nat) (log log' : List TimelineEntry) :
    (Timeline.replay threads log).thoughts <+: (Timeline.replay threads (log ++ log')).thoughts := by
  induction log' using List.reverseRecOn with
  | nil => rw [List.append_nil]
  | append_singleton log' e ih =>
    rw [← List.append_assoc, Timeline.replay_concat]
    refine ih.trans ?_
    have heff := (Timeline.replay threads (log ++ log')).effect e
    generalize (Timeline.replay threads (log ++ log')).apply e = tl' at heff ⊢
    cases heff with
    | insert => exact List.prefix_append _ _
    | place => exact List.prefix_rfl
    | none => exact List.prefix_rfl

theorem Timeline.position_written {threadId p : Nat}
    (h : (Timeline.replay threads log).position threadId = some p) :
    ∃ c, ⟨c, .setPosition threadId p⟩ ∈ log := by
  induction log using List.reverseRecOn with
  | nil => cases h
  | append_singleton log e ih =>
    have hold : (Timeline.replay threads log).position threadId = some p →
        ∃ c, ⟨c, .setPosition threadId p⟩ ∈ log ++ [e] := by
      intro h
      obtain ⟨c, hc⟩ := ih h
      exact ⟨c, List.mem_append_left _ hc⟩
    rw [Timeline.replay_concat] at h
    have heff := (Timeline.replay threads log).effect e
    generalize (Timeline.replay threads log).apply e = tl' at heff h
    cases heff with
    | insert => exact hold h
    | @place t q hwrite =>
      change (if threadId = t then some q else (Timeline.replay threads log).position threadId) =
        some p at h
      split at h
      case isTrue ht =>
        cases h
        refine ⟨e.call, List.mem_append_right _ (List.mem_singleton.mpr ?_)⟩
        rw [ht, ← hwrite]
      case isFalse => exact hold h
    | none => exact hold h

end

-- ---------------------------------------------------------------------------
-- Linear threads
-- ---------------------------------------------------------------------------

section
variable {thoughts : List Thought} {x y : Thought}

theorem linear_concat :
    Linear (thoughts ++ [x]) ↔ Linear thoughts ∧ x.parentThoughtId = lastId thoughts := by
  have hparents : ∀ l : List Thought, (l ++ [x]).map (·.parentThoughtId) =
      l.map (·.parentThoughtId) ++ [x.parentThoughtId] := by simp
  have hids : (none :: (thoughts ++ [x]).map fun x => some x.id).dropLast =
      none :: thoughts.map fun x => some x.id := by
    rw [List.map_append, ← List.cons_append]
    exact List.dropLast_concat
  have hlast : ∀ l : List Thought, none :: l.map (fun x => some x.id) =
      (none :: l.map fun x => some x.id).dropLast ++ [lastId l] := by
    intro l
    induction l using List.reverseRecOn with
    | nil => rfl
    | append_singleton l z _ =>
      rw [List.map_append, ← List.cons_append, List.map_singleton, List.dropLast_concat, lastId,
        List.getLast?_concat]
      rfl
  rw [Linear, hparents, hids, hlast thoughts]
  constructor
  · intro h
    have h' := List.append_inj' h rfl
    exact ⟨h'.1, List.singleton_inj.mp h'.2⟩
  · rintro ⟨h, hx⟩
    rw [show thoughts.map (·.parentThoughtId) = _ from h, hx]

theorem Linear.successor (h : Linear thoughts) (hx : x ∈ thoughts)
    (hlast : thoughts.getLast? ≠ some x) : ∃ y ∈ thoughts, y.parentThoughtId = some x.id := by
  induction thoughts using List.reverseRecOn with
  | nil => cases hx
  | append_singleton l z ih =>
    obtain ⟨hl, hz⟩ := linear_concat.mp h
    cases List.mem_append.mp hx with
    | inr hxz =>
      rw [List.getLast?_concat, List.mem_singleton.mp hxz] at hlast
      exact absurd rfl hlast
    | inl hxl =>
      by_cases hll : l.getLast? = some x
      · refine ⟨z, List.mem_append_right _ (List.mem_singleton_self z), ?_⟩
        rw [hz, lastId, hll]
        rfl
      · obtain ⟨y, hy, hp⟩ := ih hl hxl hll
        exact ⟨y, List.mem_append_left _ hy, hp⟩

theorem Linear.parents_nodup (h : Linear thoughts) (hids : (thoughts.map (·.id)).Nodup) :
    (thoughts.map (·.parentThoughtId)).Nodup := by
  have hall : (none :: thoughts.map fun x => some x.id).Nodup := by
    rw [List.nodup_cons]
    refine ⟨by simp, ?_⟩
    have hmap := hids.map (Option.some_injective Nat)
    rwa [List.map_map] at hmap
  rw [show thoughts.map (·.parentThoughtId) = _ from h]
  exact hall.sublist (List.dropLast_sublist _)

end

-- ---------------------------------------------------------------------------
-- The invariant of serial runs
-- ---------------------------------------------------------------------------

namespace Diary

def StageOk (w : Diary) (c : Nat) (call : ThoughtCall) : Prop :=
  match call.stage with
  | .inserting => True
  | .positioning p => ∃ x ∈ w.timeline.thread call.args.threadId, x.call = c ∧ x.id = p
  | .touching p | .returned (.ok (some p)) =>
    (∃ x ∈ w.timeline.thread call.args.threadId, x.call = c ∧ x.id = p) ∧
      ⟨c, .setPosition call.args.threadId p⟩ ∈ w.log
  | .returned (.ok none) => False
  | .returned (.error _) => ∀ x ∈ w.timeline.thoughts, x.call ≠ c

structure Inv (w : Diary) : Prop where
  ids : (w.timeline.thoughts.map (·.id)).Nodup
  bounded : ∀ x ∈ w.timeline.thoughts, x.id ≤ w.timeline.seq
  known : ∀ x ∈ w.timeline.thoughts, x.threadId ∈ w.timeline.threads
  once : (w.timeline.thoughts.map (·.call)).Nodup
  linear : ∀ t, Linear (w.timeline.thread t)
  owner : ∀ x ∈ w.timeline.thoughts, ∃ call, w.calls[x.call]? = some call ∧
    call.args.threadId = x.threadId ∧ call.parentId = x.parentThoughtId
  /-- The parent a call has read is a position that was written. -/
  read : ∀ call ∈ w.calls, ∀ p, call.parentId = some p →
    ∃ d, ⟨d, .setPosition call.args.threadId p⟩ ∈ w.log
  /-- A position is written by the call that inserted the thought. -/
  placed : ∀ d t p, ⟨d, .setPosition t p⟩ ∈ w.log →
    ∃ x ∈ w.timeline.thread t, x.call = d ∧ x.id = p
  stage : ∀ c call, w.calls[c]? = some call → w.StageOk c call
  /-- The position lags behind at most by the thought whose call has yet to write it. -/
  position : ∀ t, w.timeline.position t = lastId (w.timeline.thread t) ∨
    ∃ x, (w.timeline.thread t).getLast? = some x ∧ ∀ p, ⟨x.call, .setPosition t p⟩ ∉ w.log

section
variable {w : Diary} {c : Nat} {call : ThoughtCall} {threads : List Nat}

theorem mem_thread {tl : Timeline} {t : Nat} {x : Thought} :
    x ∈ tl.thread t ↔ x ∈ tl.thoughts ∧ x.threadId = t := by
  simp [Timeline.thread]

theorem inv_init (threads : List Nat) : Inv { threads } where
  ids := List.nodup_nil
  bounded _ hx := (nomatch hx)
  known _ hx := (nomatch hx)
  once := List.nodup_nil
  linear _ := rfl
  owner _ hx := (nomatch hx)
  read _ hc := (nomatch hc)
  placed _ _ _ h := (nomatch h)
  stage _ _ h := (nomatch h)
  position _ := .inl rfl

theorem insertion_of_mem {t : Nat} {parent : Option Nat} {content type metadata : String}
    (h : .insertThought t parent content type metadata ∈ call.writes) :
    call.args.threadId = t ∧ call.parentId = parent := by
  have hins : call.insertion = .insertThought t parent content type metadata := by
    unfold ThoughtCall.writes at h
    split at h <;> simp only [List.mem_cons, List.not_mem_nil, reduceCtorEq, or_false] at h <;>
      exact h.symm
  unfold ThoughtCall.insertion at hins
  cases hins
  exact ⟨rfl, rfl⟩

theorem StageOk.row (h : w.StageOk c call) {t p : Nat} (hw : .setPosition t p ∈ call.writes) :
    ∃ x ∈ w.timeline.thread t, x.call = c ∧ x.id = p := by
  unfold ThoughtCall.writes at hw
  unfold StageOk at h
  split at hw <;> rename_i hstage <;> rw [hstage] at h <;>
    simp only [ThoughtCall.insertion, List.mem_cons, List.not_mem_nil, reduceCtorEq, or_false,
      false_or, TimelineWrite.setPosition.injEq] at hw
  · obtain ⟨rfl, rfl⟩ := hw
    exact h
  · obtain ⟨rfl, rfl⟩ := hw
    exact h.1
  · obtain ⟨rfl, rfl⟩ := hw
    exact h.1

theorem StageOk.mono {w' : Diary} (h : w.StageOk c call)
    (hsub : ∀ x ∈ w.timeline.thoughts, x ∈ w'.timeline.thoughts)
    (hlog : ∀ e ∈ w.log, e ∈ w'.log)
    (hnew : call.isInserting = false → ∀ x ∈ w'.timeline.thoughts, x.call = c →
      x ∈ w.timeline.thoughts) : w'.StageOk c call := by
  have hrow : ∀ {t p : Nat}, (∃ x ∈ w.timeline.thread t, x.call = c ∧ x.id = p) →
      ∃ x ∈ w'.timeline.thread t, x.call = c ∧ x.id = p := by
    rintro t p ⟨x, hx, hc, hid⟩
    obtain ⟨hx, ht⟩ := mem_thread.mp hx
    exact ⟨x, mem_thread.mpr ⟨hsub x hx, ht⟩, hc, hid⟩
  unfold ThoughtCall.isInserting at hnew
  unfold StageOk at h ⊢
  split at h <;> rename_i hstage <;> rw [hstage] at hnew
  · trivial
  · exact hrow h
  · exact ⟨hrow h.1, hlog _ h.2⟩
  · exact ⟨hrow h.1, hlog _ h.2⟩
  · exact h
  · exact fun x hx hc => h x (hnew rfl x hx hc) hc

theorem thread_concat (tl : Timeline) (x : Thought) (seq t : Nat) :
    Timeline.thread { tl with thoughts := tl.thoughts ++ [x], seq := seq } t =
      if x.threadId = t then tl.thread t ++ [x] else tl.thread t := by
  rw [Timeline.thread, List.filter_append, List.filter_singleton]
  split <;> simp_all [Timeline.thread]

section
variable {w' : Diary} {write : TimelineWrite}

theorem setPosition_mem_iff (hlog : w'.log = w.log ++ [⟨c, write⟩])
    (hwrite : ∀ t p, write ≠ .setPosition t p) (d t p : Nat) :
    ⟨d, .setPosition t p⟩ ∈ w'.log ↔ ⟨d, .setPosition t p⟩ ∈ w.log := by
  rw [hlog, List.mem_append, List.mem_singleton]
  refine or_iff_left fun hm => ?_
  injection hm with _ hm
  exact hwrite t p hm.symm

/-- A thought is committed when its parent is the last one of the thread. -/
theorem Inv.insert (h : w.Inv) {x : Thought} (hcalls : w'.calls = w.calls)
    (hlog : w'.log = w.log ++ [⟨c, write⟩])
    (htl : w'.timeline =
      { w.timeline with thoughts := w.timeline.thoughts ++ [x], seq := w.timeline.seq + 1 })
    (hxc : x.call = c) (hxid : x.id = w.timeline.seq + 1) (hxt : x.threadId ∈ w.timeline.threads)
    (hwrite : ∀ t p, write ≠ .setPosition t p) (hc : w.calls[c]? = some call)
    (ht : call.args.threadId = x.threadId) (hp : call.parentId = x.parentThoughtId)
    (hlast : x.parentThoughtId = lastId (w.timeline.thread x.threadId))
    (hins : call.isInserting) (hfresh : ∀ y ∈ w.timeline.thoughts, y.call ≠ c) : w'.Inv := by
  have hmem : ∀ y, y ∈ w'.timeline.thoughts ↔ y ∈ w.timeline.thoughts ∨ y = x := by
    intro y
    rw [htl]
    simp
  have hsub : ∀ y ∈ w.timeline.thoughts, y ∈ w'.timeline.thoughts :=
    fun y hy => (hmem y).mpr (.inl hy)
  have hthread : ∀ t, w'.timeline.thread t =
      if x.threadId = t then w.timeline.thread t ++ [x] else w.timeline.thread t := by
    intro t
    rw [htl, thread_concat]
  have hentry := setPosition_mem_iff hlog hwrite
  have hkeep : ∀ e ∈ w.log, e ∈ w'.log := by
    intro e he
    rw [hlog]
    exact List.mem_append_left _ he
  constructor
  case ids =>
    rw [htl, List.map_append, List.map_singleton, List.nodup_append]
    refine ⟨h.ids, List.nodup_singleton _, ?_⟩
    intro a ha b hb
    obtain ⟨y, hy, rfl⟩ := List.mem_map.mp ha
    have := h.bounded y hy
    rw [List.mem_singleton.mp hb, hxid]
    omega
  case bounded =>
    intro y hy
    have hseq : w'.timeline.seq = w.timeline.seq + 1 := by rw [htl]
    cases (hmem y).mp hy with
    | inl hy => exact hseq ▸ Nat.le_succ_of_le (h.bounded y hy)
    | inr hy => rw [hy, hxid, hseq]
  case known =>
    intro y hy
    have hthreads : w'.timeline.threads = w.timeline.threads := by rw [htl]
    rw [hthreads]
    cases (hmem y).mp hy with
    | inl hy => exact h.known y hy
    | inr hy => exact hy ▸ hxt
  case once =>
    rw [htl, List.map_append, List.map_singleton, List.nodup_append]
    refine ⟨h.once, List.nodup_singleton _, ?_⟩
    intro a ha b hb
    obtain ⟨y, hy, rfl⟩ := List.mem_map.mp ha
    rw [List.mem_singleton.mp hb, hxc]
    exact hfresh y hy
  case linear =>
    intro t
    rw [hthread]
    split
    case isTrue htx => exact linear_concat.mpr ⟨h.linear t, htx ▸ hlast⟩
    case isFalse => exact h.linear t
  case owner =>
    intro y hy
    rw [hcalls]
    cases (hmem y).mp hy with
    | inl hy => exact h.owner y hy
    | inr hy =>
      subst hy
      exact ⟨call, hxc ▸ hc, ht, hp⟩
  case read =>
    intro call hcall p hparent
    obtain ⟨d, hd⟩ := h.read call (hcalls ▸ hcall) p hparent
    exact ⟨d, hkeep _ hd⟩
  case placed =>
    intro d t p hm
    obtain ⟨y, hy, hd⟩ := h.placed d t p ((hentry d t p).mp hm)
    obtain ⟨hy, hyt⟩ := mem_thread.mp hy
    exact ⟨y, mem_thread.mpr ⟨hsub y hy, hyt⟩, hd⟩
  case stage =>
    intro d other hother
    rw [hcalls] at hother
    refine (h.stage d other hother).mono hsub hkeep fun hni y hy hyd => ?_
    cases (hmem y).mp hy with
    | inl hy => exact hy
    | inr hy =>
      -- the call of the new row is inserting
      rw [hy, hxc] at hyd
      rw [← hyd, hc] at hother
      cases hother
      rw [hni] at hins
      cases hins
  case position =>
    intro t
    have hpos : w'.timeline.position t = w.timeline.position t := by rw [htl]
    rw [hpos, hthread]
    split
    case isTrue =>
      refine .inr ⟨x, List.getLast?_concat, fun p hm => ?_⟩
      obtain ⟨y, hy, hyc, -⟩ := h.placed _ _ _ ((hentry _ _ _).mp hm)
      exact hfresh y (mem_thread.mp hy).1 (hyc.trans hxc)
    case isFalse =>
      obtain hl | ⟨y, hy, hn⟩ := h.position t
      · exact .inl hl
      · exact .inr ⟨y, hy, fun p hm => hn p ((hentry _ _ _).mp hm)⟩

/-- A position is committed once, so while the thought it names is the last one. -/
theorem Inv.last_of_unplaced (h : w.Inv) {t : Nat} {x : Thought}
    (hx : x ∈ w.timeline.thread t) (hn : ⟨x.call, .setPosition t x.id⟩ ∉ w.log) :
    (w.timeline.thread t).getLast? = some x := by
  by_contra hlast
  obtain ⟨y, hy, hparent⟩ := (h.linear t).successor hx hlast
  obtain ⟨hy, hyt⟩ := mem_thread.mp hy
  obtain ⟨hx, hxt⟩ := mem_thread.mp hx
  obtain ⟨call, hcall, hct, hcp⟩ := h.owner y hy
  obtain ⟨d, hd⟩ := h.read call (List.mem_of_getElem? hcall) x.id (hcp.trans hparent)
  rw [hct, hyt] at hd
  obtain ⟨z, hz, hzd, hzid⟩ := h.placed d t x.id hd
  have hzx : z = x := List.inj_on_of_nodup_map h.ids (mem_thread.mp hz).1 hx hzid
  rw [← hzd, hzx] at hd
  exact hn hd

theorem Inv.place (h : w.Inv) {t p : Nat} (hcalls : w'.calls = w.calls)
    (hlog : w'.log = w.log ++ [⟨c, .setPosition t p⟩])
    (htl : w'.timeline =
      { w.timeline with position := fun u => if u = t then some p else w.timeline.position u })
    (hrow : ∃ x ∈ w.timeline.thread t, x.call = c ∧ x.id = p)
    (hn : ⟨c, .setPosition t p⟩ ∉ w.log) : w'.Inv := by
  have hthoughts : w'.timeline.thoughts = w.timeline.thoughts := by rw [htl]
  have hthread : ∀ u, w'.timeline.thread u = w.timeline.thread u := by
    intro u
    rw [htl]
    rfl
  have hkeep : ∀ e ∈ w.log, e ∈ w'.log := by
    intro e he
    rw [hlog]
    exact List.mem_append_left _ he
  constructor
  case ids =>
    rw [hthoughts]
    exact h.ids
  case bounded =>
    rw [htl]
    exact h.bounded
  case known =>
    rw [htl]
    exact h.known
  case once =>
    rw [hthoughts]
    exact h.once
  case linear =>
    intro u
    rw [hthread]
    exact h.linear u
  case owner =>
    rw [hthoughts, hcalls]
    exact h.owner
  case read =>
    intro call hcall q hparent
    obtain ⟨d, hd⟩ := h.read call (hcalls ▸ hcall) q hparent
    exact ⟨d, hkeep _ hd⟩
  case placed =>
    intro d u q hm
    rw [hthread]
    rw [hlog, List.mem_append, List.mem_singleton] at hm
    cases hm with
    | inl hm => exact h.placed d u q hm
    | inr hm =>
      cases hm
      exact hrow
  case stage =>
    intro d other hother
    rw [hcalls] at hother
    exact (h.stage d other hother).mono (fun x hx => hthoughts ▸ hx) hkeep
      fun _ x hx _ => hthoughts ▸ hx
  case position =>
    intro u
    rw [hthread]
    have hpos : w'.timeline.position u =
        if u = t then some p else w.timeline.position u := by rw [htl]
    rw [hpos]
    split
    case isTrue hu =>
      subst hu
      obtain ⟨x, hx, rfl, rfl⟩ := hrow
      rw [lastId, h.last_of_unplaced hx hn]
      exact .inl rfl
    case isFalse hu =>
      obtain hl | ⟨y, hy, hny⟩ := h.position u
      · exact .inl hl
      · refine .inr ⟨y, hy, fun q hm => ?_⟩
        rw [hlog, List.mem_append, List.mem_singleton] at hm
        cases hm with
        | inl hm => exact hny q hm
        | inr hm =>
          cases hm
          exact hu rfl

theorem Inv.same (h : w.Inv) (hcalls : w'.calls = w.calls)
    (hlog : w'.log = w.log ++ [⟨c, write⟩]) (htl : w'.timeline = w.timeline)
    (hwrite : ∀ t p, write ≠ .setPosition t p) : w'.Inv := by
  have hentry := setPosition_mem_iff hlog hwrite
  refine ⟨htl ▸ h.ids, htl ▸ h.bounded, htl ▸ h.known, htl ▸ h.once, htl ▸ h.linear, ?_, ?_, ?_,
    ?_, ?_⟩
  · rw [htl, hcalls]
    exact h.owner
  · simp only [hcalls, hentry]
    exact h.read
  · simp only [hentry, htl]
    exact h.placed
  · intro d other hother
    rw [hcalls] at hother
    refine (h.stage d other hother).mono (fun x hx => htl ▸ hx) ?_ fun _ x hx _ => htl ▸ hx
    intro e he
    rw [hlog]
    exact List.mem_append_left _ he
  · simp only [hentry, htl]
    exact h.position

theorem Inv.commit (h : w.Inv) (hc : w.calls[c]? = some call) (hw : write ∈ call.writes)
    (hg : Serial w (.commit c write)) :
    Inv { w with log := w.log ++ [⟨c, write⟩] } := by
  have heff := w.timeline.effect ⟨c, write⟩
  have htl : Diary.timeline { w with log := w.log ++ [⟨c, write⟩] } =
      w.timeline.apply ⟨c, write⟩ := Timeline.replay_concat _ _ _
  generalize w.timeline.apply ⟨c, write⟩ = tl' at heff htl
  cases heff with
  | @insert x hxc hxid hxt hwrite =>
    change write = _ at hwrite
    subst hwrite
    obtain ⟨hlast, hins, hfresh⟩ := hg
    obtain ⟨ht, hp⟩ := insertion_of_mem hw
    exact h.insert rfl rfl htl hxc hxid hxt (fun _ _ hm => (nomatch hm)) hc ht hp hlast
      (hins call hc) hfresh
  | @place t p hwrite =>
    change write = _ at hwrite
    subst hwrite
    exact h.place rfl rfl htl ((h.stage c call hc).row hw) hg
  | none hplace =>
    refine h.same rfl rfl htl fun t p hwrite => ?_
    subst hwrite
    obtain ⟨x, hx, -, hid⟩ := (h.stage c call hc).row hw
    obtain ⟨hx, hxt⟩ := mem_thread.mp hx
    cases hplace t p rfl with
    | inl hn => exact hn (hxt ▸ h.known x hx)
    | inr hn => exact hn (List.mem_map.mpr ⟨x, hx, hid⟩)

theorem Inv.setStage (h : w.Inv) {stage : Stage} (hc : w.calls[c]? = some call)
    (hs : StageOk w c { call with stage }) : (w.setStage c stage).Inv := by
  have hget : ∀ d, (w.setStage c stage).calls[d]? =
      if c = d then (w.calls[d]?).map fun call => { call with stage } else w.calls[d]? := by
    intro d
    rw [Diary.setStage, List.getElem?_modify]
    split <;> simp
  refine ⟨h.ids, h.bounded, h.known, h.once, h.linear, ?_, ?_, h.placed, ?_, h.position⟩
  · intro x hx
    obtain ⟨owner, hown, ho⟩ := h.owner x hx
    rw [hget]
    split
    · exact ⟨{ owner with stage }, by rw [hown]; rfl, ho⟩
    · exact ⟨owner, hown, ho⟩
  · intro other hother p hp
    obtain ⟨d, hd⟩ := List.mem_iff_getElem?.mp hother
    rw [hget] at hd
    split at hd
    · obtain ⟨old, hold, rfl⟩ := Option.map_eq_some_iff.mp hd
      exact h.read old (List.mem_of_getElem? hold) p hp
    · exact h.read other (List.mem_of_getElem? hd) p hp
  · intro d other hother
    rw [hget] at hother
    split at hother
    case isTrue hcd =>
      subst hcd
      rw [hc] at hother
      cases hother
      exact hs
    case isFalse => exact h.stage d other hother

theorem mem_of_tables {node : NodeId} {t : Nat} {x : Thought}
    (h : x ∈ (w.tables node).thread t) : x ∈ w.timeline.thread t := by
  have hpre := Timeline.thoughts_prefix w.threads (w.log.take (w.applied node))
    (w.log.drop (w.applied node))
  rw [List.take_append_drop] at hpre
  obtain ⟨hx, ht⟩ := mem_thread.mp h
  exact mem_thread.mpr ⟨hpre.subset hx, ht⟩

theorem stageOk_afterInsert {error : Option String} (hc : w.calls[c]? = some call)
    (hg : Serial w (.inserted c error)) :
    StageOk w c { call with stage := w.afterInsert call error } := by
  cases error with
  | some message => exact hg
  | none =>
    have hg' := hg call hc
    cases hn : (w.tables call.node).newest call.args.threadId with
    | none =>
      rw [hn] at hg'
      cases hg'
    | some x =>
      rw [hn] at hg'
      have hx := mem_of_tables (List.mem_of_getLast? hn)
      simp only [Diary.afterInsert, hn]
      exact ⟨x, hx, Option.some.inj hg', rfl⟩

theorem Inv.step {a : Action} (h : w.Inv) (hg : Serial w a) (hs : w.step a = some w') :
    w'.Inv := by
  cases a with
  | call node args =>
    cases hs
    have hget : ∀ {d : Nat} {call : ThoughtCall}, w.calls[d]? = some call →
        (w.calls ++ [⟨node, args, (w.tables node).position args.threadId, .inserting⟩])[d]? =
          some call := fun hd =>
      (List.getElem?_append_left (List.getElem?_eq_some_iff.mp hd).1).trans hd
    refine ⟨h.ids, h.bounded, h.known, h.once, h.linear, ?_, ?_, h.placed, ?_, h.position⟩
    · intro x hx
      obtain ⟨owner, hown, ho⟩ := h.owner x hx
      exact ⟨owner, hget hown, ho⟩
    · intro call hcall p hp
      cases List.mem_append.mp hcall with
      | inl hold => exact h.read call hold p hp
      | inr hnew =>
        rw [List.mem_singleton.mp hnew] at hp ⊢
        obtain ⟨d, hd⟩ := Timeline.position_written hp
        exact ⟨d, List.mem_of_mem_take hd⟩
    · intro d call hcall
      by_cases hlt : d < w.calls.length
      · exact h.stage d call ((List.getElem?_append_left hlt).symm.trans hcall)
      · rw [List.getElem?_append_right (Nat.le_of_not_lt hlt)] at hcall
        have hnew := List.mem_singleton.mp (List.mem_of_getElem? hcall)
        rw [hnew]
        trivial
  | commit c write =>
    obtain ⟨call, hc, hs⟩ := Option.bind_eq_some_iff.mp hs
    split at hs
    case isTrue hw =>
      cases hs
      exact h.commit hc hw hg
    case isFalse => cases hs
  | apply node =>
    simp only [Diary.step] at hs
    split at hs <;> cases hs
    exact ⟨h.ids, h.bounded, h.known, h.once, h.linear, h.owner, h.read, h.placed, h.stage,
      h.position⟩
  | inserted c error =>
    obtain ⟨call, hc, hs⟩ := Option.bind_eq_some_iff.mp hs
    split at hs <;> cases hs
    exact h.setStage hc (stageOk_afterInsert hc hg)
  | positioned c =>
    obtain ⟨call, hc, hs⟩ := Option.bind_eq_some_iff.mp hs
    split at hs <;> cases hs
    rename_i p hstage
    have hok := h.stage c call hc
    rw [StageOk, hstage] at hok
    refine h.setStage hc ⟨hok, hg call hc _ ?_ ?_⟩
    · simp [ThoughtCall.writes, hstage]
    · simp [ThoughtCall.insertion]
  | touched c =>
    obtain ⟨call, hc, hs⟩ := Option.bind_eq_some_iff.mp hs
    split at hs <;> cases hs
    rename_i p hstage
    have hok := h.stage c call hc
    rw [StageOk, hstage] at hok
    exact h.setStage hc hok

theorem Inv.intact (h : w.Inv) (t : Nat) : Intact w t := by
  refine ⟨?_, ?_, ?_⟩
  · intro c call r hc ht hstage
    have hok := h.stage c call hc
    rw [StageOk, hstage] at hok
    cases r with
    | none => exact hok.elim
    | some p =>
      obtain ⟨⟨x, hx, rfl, rfl⟩, -⟩ := hok
      rw [ht] at hx
      refine ⟨x, hx, ?_, rfl⟩
      have hmem := (mem_thread.mp hx).1
      obtain ⟨before, after, hsplit⟩ := List.append_of_mem hmem
      have honce := h.once
      rw [hsplit] at honce ⊢
      simp only [List.map_append, List.map_cons, List.nodup_append, List.nodup_cons] at honce
      have hleft : ∀ y ∈ before, ¬ y.call = x.call := fun y hy =>
        honce.2.2 _ (List.mem_map_of_mem hy) _ List.mem_cons_self
      have hright : ∀ y ∈ after, ¬ y.call = x.call := fun y hy he =>
        honce.2.1.1 (he ▸ List.mem_map_of_mem hy)
      rw [List.filter_append, List.filter_cons_of_pos (by simp),
        List.filter_eq_nil_iff.mpr (by simpa using hleft),
        List.filter_eq_nil_iff.mpr (by simpa using hright), List.nil_append]
  · exact (h.linear t).parents_nodup (h.ids.sublist (List.filter_sublist.map _))
  · intro hall
    refine ⟨h.linear t, ?_⟩
    obtain hl | ⟨x, hx, hn⟩ := h.position t
    · exact hl
    · -- the call of the last thought has returned, so it has written the position
      obtain ⟨hxm, hxt⟩ := mem_thread.mp (List.mem_of_getLast? hx)
      obtain ⟨call, hcall, hct, -⟩ := h.owner x hxm
      have hok := h.stage _ call hcall
      have hret := hall call (List.mem_of_getElem? hcall)
      unfold ThoughtCall.isReturned at hret
      unfold StageOk at hok
      split at hret
      case h_1 r hstage =>
        rw [hstage] at hok
        cases r with
        | error _ => exact absurd rfl (hok x hxm)
        | ok id =>
          cases id with
          | none => exact hok.elim
          | some p => exact absurd (hxt ▸ hct ▸ hok.2) (hn p)
      case h_2 => cases hret

end

end

end Diary

/-- In serial runs every thread is one chain, its calls return what they
inserted, and when they are done its position is the last thought. -/
theorem reach_intact {threads : List Nat} {w : Diary} (h : (diary threads).Reach Serial w)
    (threadId : Nat) : Intact w threadId := by
  have hinv : w.Inv := by
    refine h.invariant ?_ fun _ _ _ _ ih hg hs => ih.step hg hs
    rintro w rfl
    exact Diary.inv_init threads
  exact hinv.intact threadId

-- ---------------------------------------------------------------------------
-- Runs of two calls
-- ---------------------------------------------------------------------------

def noted : LogThoughtArgs := { threadId := 1, content := "noted" }

def insertNoted (parent : Option Nat) : TimelineWrite :=
  .insertThought 1 parent "noted" "progress" "\x7b\x7d"

def oneByOne : List Diary.Action :=
  [.call "a" noted, .commit 0 (insertNoted none), .apply "a", .inserted 0 none,
    .commit 0 (.setPosition 1 1), .apply "a", .positioned 0, .touched 0,
    .call "a" noted, .commit 1 (insertNoted (some 1)), .apply "a", .inserted 1 none,
    .commit 1 (.setPosition 1 2), .apply "a", .positioned 1, .touched 1]

theorem one_by_one_chained : ∃ w, (diary [1]).Reach Serial w ∧
    (w.timeline.thread 1).map (·.parentThoughtId) = [none, some 1] ∧ Intact w 1 := by
  obtain ⟨w, hr, hparents⟩ := System.Reach.replay (M := diary [1]) (G := Serial)
    (P := fun w => (w.timeline.thread 1).map (·.parentThoughtId) = [none, some 1]) rfl oneByOne
    (by decide +kernel)
  exact ⟨w, hr, hparents, reach_intact hr 1⟩

/-- Two calls on the leader, the second while the first awaits its insert. -/
def overlapping : List Diary.Action :=
  [.call "a" noted, .call "a" noted, .commit 0 (insertNoted none), .commit 1 (insertNoted none)]

/-- Both thoughts begin the thread. -/
theorem overlapping_fork : ∃ w, (diary [1]).Reach (fun _ _ => True) w ∧ ¬ Intact w 1 := by
  obtain ⟨w, hr, hparents⟩ := System.Reach.replay (M := diary [1]) (G := fun _ _ => True)
    (P := fun w => (w.timeline.thread 1).map (·.parentThoughtId) = [none, none]) rfl overlapping
    (by decide +kernel)
  refine ⟨w, hr, fun h => ?_⟩
  have hp := h.parents
  rw [hparents] at hp
  exact absurd hp (by decide)

end ClaudeCluster.Memory
