import ClaudeCluster.Lib.Slices
import ClaudeCluster.Raft.Emissions
import ClaudeCluster.Raft.WellFormed
import ClaudeCluster.Memory.Convergence

/-!
# Writes forwarded to the leader

One call of `MemoryReplicator.write` on a node that does not lead, among
whatever else the cluster does. `forwardToLeader` makes up to three
`ForwardMemoryWrite` calls; the handler on the other side appends an entry and
answers when the round of that entry is over. An answer may be lost and the
call may run into its deadline while the handler goes on, or before it has
begun. The request has no identity, so the next attempt appends once more.

Each attempt has at most one entry. Those of attempts that failed on the
caller's side after all are `lost`; besides them the call has one entry, and
none if it returned an error (`committed_once_unless_lost`).
-/

namespace ClaudeCluster.Memory

open Lib
open Raft (NodeId Buffer LogEntry RaftNode Cluster)

-- ---------------------------------------------------------------------------
-- The remote call
-- ---------------------------------------------------------------------------

structure MemoryWriteRequest where
  sql : String
  params : Json
  checksum : String
  classification : String
  table : String
  deriving DecidableEq, Repr

structure MemoryWriteResponse where
  success : Bool
  error : String := ""
  deriving DecidableEq, Repr

def Payload.request (payload : Payload) : MemoryWriteRequest where
  sql := payload.sql
  params := payload.params
  checksum := payload.checksum
  classification := (payload.classification.map Classification.name).getD ""
  table := payload.table.getD ""

def MemoryWriteRequest.payload (request : MemoryWriteRequest) : Payload where
  sql := request.sql
  params := if request.params = "" then "[]" else request.params
  checksum := request.checksum
  classification := Classification.ofName request.classification
  table := if request.table = "" then none else some request.table

/-- The `ForwardMemoryWrite` handler up to its `await`: an answer at once, or
the data it appends. -/
def forwardMemoryWrite (P : Platform) (request : MemoryWriteRequest) (n : RaftNode) :
    Except MemoryWriteResponse Buffer :=
  if n.state ≠ .leader then .error ⟨false, "Not the leader"⟩
  else if request.checksum ≠ P.checksum request.sql request.payload.params then
    .error ⟨false, "Checksum verification failed"⟩
  else .ok request.payload.stringify

-- ---------------------------------------------------------------------------
-- The call
-- ---------------------------------------------------------------------------

structure Attempt where
  /-- Who listens at the address. -/
  target : NodeId
  request : MemoryWriteRequest
  /-- The entry the handler has appended for it. -/
  entry : Option LogEntry := none
  response : Option MemoryWriteResponse := none
  /-- The promise was rejected: by the deadline, or with the connection. -/
  threw : Bool := false
  deriving DecidableEq, Repr

/-- Where the call is. The attempts count from 0. -/
inductive Progress
  | idle
  | trying (payload : Payload) (attempt : Nat)
  /-- The `k`-th request is out. -/
  | waiting (payload : Payload) (attempt k : Nat)
  | returned (result : WriteResult)
  /-- The process ended before the call returned. -/
  | gone
  deriving DecidableEq, Repr

def maxRetries : Nat := 3

/-- `continue`, or the return in its place, or the one behind the loop. -/
def retry (payload : Payload) (attempt : Nat) (error : String) : Progress :=
  if attempt < maxRetries - 1 then .trying payload (attempt + 1)
  else .returned { success := false, error := some error }

def handleResponse (payload : Payload) (attempt : Nat) (response : MemoryWriteResponse) :
    Progress :=
  if response.success then .returned { success := true }
  else if response.error = "Not the leader" then
    retry payload attempt "Forward to leader failed after retries"
  else
    .returned {
      success := false
      error := if response.error = "" then none else some response.error }

structure Forwarding where
  cluster : Cluster
  attempts : List Attempt := []
  progress : Progress := .idle

namespace Forwarding

inductive Action
  | raft (a : Raft.Action)
  | write (a : Ambient) (statement : Statement) (options : WriteOptions) (db : Database)
  /-- `resolveLeaderAddress` returns the address of a node, or none. -/
  | resolve (leader : Option NodeId)
  | serve (k : Nat)
  /-- The `appendEntry` of the handler resolves. -/
  | appended (k : Nat)
  /-- The handler throws, before its append or in it, and answers with the message. -/
  | handlerThrows (k : Nat) (error : String)
  | receive
  | throw (error : String)

section
variable (P : Platform) (S : Sqlite) (caller : NodeId)

def setAttempt (w : Forwarding) (k : Nat) (t : Attempt) : Forwarding :=
  { w with attempts := w.attempts.set k t }

/-- A call does not survive its process. -/
def survive (a : Raft.Action) (progress : Progress) : Progress :=
  match a with
  | .input id (.restart _) => if id = caller ∧ progress ≠ .idle then .gone else progress
  | _ => progress

/-- A request reaches its target, perhaps after the caller has given it up. -/
def serve (w : Forwarding) (k : Nat) (t : Attempt) : Option Forwarding :=
  match forwardMemoryWrite P t.request (w.cluster.node t.target) with
  | .error response => some (w.setAttempt k { t with response := some response })
  | .ok data =>
    (w.cluster.step (.input t.target (.appendEntry .memoryWrite data))).map fun c =>
      { w.setAttempt k { t with
          entry := some ((w.cluster.node t.target).newEntry .memoryWrite data) } with
        cluster := c }

def attempt (w : Forwarding) (payload : Payload) (attempt : Nat) : Option NodeId → Forwarding
  | some target =>
    { w with
      attempts := w.attempts ++ [⟨target, payload.request, none, none, false⟩]
      progress := .waiting payload attempt w.attempts.length }
  | none =>
    let error := "No leader available to forward write"
    { w with progress :=
        if (w.cluster.node caller).leaderId = none then
          .returned { success := false, error := some error }
        else retry payload attempt error }

def step (w : Forwarding) : Action → Option Forwarding
  | .raft a =>
    (w.cluster.step a).map fun c =>
      { w with cluster := c, progress := survive caller a w.progress }
  | .write a statement options db =>
    if w.progress = .idle ∧ (w.cluster.node caller).state ≠ .leader then
      match Memory.write P S a statement options db with
      | .here _ result => some { w with progress := .returned result }
      | .raft payload => some { w with progress := .trying payload 0 }
    else none
  | .resolve leader =>
    match w.progress with
    | .trying payload attempt => some (w.attempt caller payload attempt leader)
    | _ => none
  | .serve k =>
    match w.attempts[k]? with
    | some t => if t.entry = none ∧ t.response = none then w.serve P k t else none
    | none => none
  | .appended k =>
    match w.attempts[k]? with
    | some t =>
      if t.response = none ∧ ∃ e ∈ t.entry, e ∈ (w.cluster.node t.target).resolved then
        some (w.setAttempt k { t with response := some ⟨true, ""⟩ })
      else none
    | none => none
  | .handlerThrows k error =>
    match w.attempts[k]? with
    | some t =>
      if t.response = none then some (w.setAttempt k { t with response := some ⟨false, error⟩ })
      else none
    | none => none
  | .receive =>
    match w.progress with
    | .waiting payload attempt k =>
      (w.attempts[k]?.bind Attempt.response).map fun response =>
        { w with progress := handleResponse payload attempt response }
    | _ => none
  | .throw error =>
    match w.progress with
    | .waiting payload attempt k =>
      w.attempts[k]?.map fun t =>
        { w.setAttempt k { t with threw := true } with progress := retry payload attempt error }
    | _ => none

def forwarding : System Forwarding Action where
  init w := w.cluster.Booted ∧ w.attempts = [] ∧ w.progress = .idle
  step := step P S caller

end

/-- The attempts, by number, whose entry some node has told its listeners of.
`applyCommittedEntries` runs where `commitIndex` moves, so these are the ones
committed in the run so far. -/
def committed (w : Forwarding) : Set Nat :=
  {k | ∃ t ∈ w.attempts[k]?, ∃ e ∈ t.entry,
    ∃ id, e ∈ Raft.RaftNode.committed (w.cluster.node id).emitted}

end Forwarding

/-- For the caller: it threw, or the response was an error. -/
def Attempt.failed (t : Attempt) : Bool := t.threw || t.response.any (!·.success)

namespace Forwarding

def lost (w : Forwarding) : Set Nat := {k | ∃ t ∈ w.attempts[k]?, t.entry ≠ none ∧ t.failed}

-- ---------------------------------------------------------------------------
-- What failed
-- ---------------------------------------------------------------------------

/-- Every attempt has failed, but perhaps the `k`-th. -/
def FailedBut (k : Option Nat) (attempts : List Attempt) : Prop :=
  ∀ j t, attempts[j]? = some t → some j ≠ k → t.failed

section
variable {attempts : List Attempt} {k : Option Nat} {t t' : Attempt} {j : Nat}

theorem FailedBut.nil (k : Option Nat) : FailedBut k [] := by simp [FailedBut]

theorem FailedBut.set (h : FailedBut k attempts) (ht : attempts[j]? = some t)
    (hf : t.failed → t'.failed) : FailedBut k (attempts.set j t') := by
  intro i x hx hi
  rcases Lib.getElem?_set_cases hx with ⟨rfl, rfl⟩ | ⟨-, hx⟩
  · exact hf (h j t ht hi)
  · exact h i x hx hi

theorem FailedBut.push (h : FailedBut none attempts) (t : Attempt) :
    FailedBut (some attempts.length) (attempts ++ [t]) := by
  intro i x hx hi
  rcases Lib.getElem?_concat_cases hx with hx | ⟨hij, -⟩
  · exact h i x hx (by simp)
  · -- the only attempt there is the one left out
    exact absurd (congrArg some hij) hi

theorem FailedBut.all (h : FailedBut (some j) attempts) (ht : attempts[j]? = some t)
    (hf : t.failed) : FailedBut none attempts := by
  intro i x hx _
  by_cases hij : i = j
  · subst hij
    obtain rfl := Option.some.inj (hx.symm.trans ht)
    exact hf
  · exact h i x hx (by simpa using hij)

theorem FailedBut.set_all (h : FailedBut (some j) attempts) (ht : attempts[j]? = some t)
    (hf : t'.failed) : FailedBut none (attempts.set j t') := by
  have hlt := (List.getElem?_eq_some_iff.mp ht).1
  exact (h.set ht fun _ => hf).all (List.getElem?_set_self hlt) hf

end

-- ---------------------------------------------------------------------------
-- The loop
-- ---------------------------------------------------------------------------

def Counted (attempts : List Attempt) : Progress → Prop
  | .idle => attempts = []
  | .trying _ i => attempts.length ≤ i ∧ i < maxRetries ∧ FailedBut none attempts
  | .waiting _ i k => attempts.length ≤ i + 1 ∧ i < maxRetries ∧ FailedBut (some k) attempts
  | .returned result =>
    attempts.length ≤ maxRetries ∧
      ∃ k, FailedBut k attempts ∧ (result.success = false → k = none)
  | .gone => attempts.length ≤ maxRetries ∧ ∃ k, FailedBut k attempts

section
variable {attempts : List Attempt} {progress : Progress} {payload : Payload} {t t' : Attempt}
  {i k : Nat}

theorem Counted.gone (h : Counted attempts progress) : Counted attempts .gone := by
  cases progress with
  | idle =>
    subst h
    exact ⟨Nat.zero_le _, none, .nil _⟩
  | trying payload i =>
    obtain ⟨hlen, hi, hf⟩ := h
    exact ⟨hlen.trans hi.le, none, hf⟩
  | waiting payload i k =>
    obtain ⟨hlen, hi, hf⟩ := h
    exact ⟨hlen.trans hi, some k, hf⟩
  | returned result =>
    obtain ⟨hlen, k, hf, _⟩ := h
    exact ⟨hlen, k, hf⟩
  | gone => exact h

theorem Counted.set (h : Counted attempts progress) (ht : attempts[k]? = some t)
    (hf : t.failed → t'.failed) : Counted (attempts.set k t') progress := by
  cases progress with
  | idle =>
    subst h
    cases ht
  | trying payload i =>
    obtain ⟨hlen, hi, hb⟩ := h
    exact ⟨(List.length_set ..).trans_le hlen, hi, hb.set ht hf⟩
  | waiting payload i j =>
    obtain ⟨hlen, hi, hb⟩ := h
    exact ⟨(List.length_set ..).trans_le hlen, hi, hb.set ht hf⟩
  | returned result =>
    obtain ⟨hlen, j, hb, hj⟩ := h
    exact ⟨(List.length_set ..).trans_le hlen, j, hb.set ht hf, hj⟩
  | gone =>
    obtain ⟨hlen, j, hb⟩ := h
    exact ⟨(List.length_set ..).trans_le hlen, j, hb.set ht hf⟩

theorem counted_error (hlen : attempts.length ≤ maxRetries) (h : FailedBut none attempts)
    (error : Option String) : Counted attempts (.returned { success := false, error := error }) :=
  ⟨hlen, none, h, fun _ => rfl⟩

theorem counted_retry (hlen : attempts.length ≤ i + 1) (hi : i < maxRetries)
    (h : FailedBut none attempts) (error : String) :
    Counted attempts (retry payload i error) := by
  unfold retry
  split
  case isTrue hlt =>
    have hnext : i + 1 < maxRetries := by omega
    exact ⟨hlen, hnext, h⟩
  case isFalse => exact counted_error (hlen.trans hi) h _

theorem counted_handleResponse {response : MemoryWriteResponse} (hlen : attempts.length ≤ i + 1)
    (hi : i < maxRetries) (h : FailedBut (some k) attempts) (ht : attempts[k]? = some t)
    (hr : t.response = some response) :
    Counted attempts (handleResponse payload i response) := by
  unfold handleResponse
  split
  case isTrue => exact ⟨hlen.trans hi, some k, h, by simp⟩
  case isFalse hfail =>
    have hall : FailedBut none attempts := h.all ht (by simp [Attempt.failed, hr, hfail])
    split
    · exact counted_retry hlen hi hall _
    · exact counted_error (hlen.trans hi) hall _

end

-- ---------------------------------------------------------------------------
-- Runs
-- ---------------------------------------------------------------------------

/-- A step of the call is at most one step of the cluster, and keeps count. -/
structure Advance (w w' : Forwarding) : Prop where
  cluster : w'.cluster = w.cluster ∨ ∃ a, w.cluster.step a = some w'.cluster
  counted : Counted w.attempts w.progress → Counted w'.attempts w'.progress

section
variable {P : Platform} {S : Sqlite} {caller : NodeId} {w w' : Forwarding} {a : Action}

theorem counted_survive {a : Raft.Action} (h : Counted w.attempts w.progress) :
    Counted w.attempts (survive caller a w.progress) := by
  unfold survive
  split
  · split
    · exact h.gone
    · exact h
  · exact h

theorem advance_setAttempt {k : Nat} {t t' : Attempt} (ht : w.attempts[k]? = some t)
    (hf : t.failed → t'.failed) : Advance w (w.setAttempt k t') :=
  ⟨.inl rfl, fun h => h.set ht hf⟩

theorem advance_serve {k : Nat} {t : Attempt} (ht : w.attempts[k]? = some t)
    (hr : t.response = none) (h : w.serve P k t = some w') : Advance w w' := by
  unfold serve at h
  split at h
  · cases h
    exact advance_setAttempt ht (by simp +contextual [Attempt.failed, hr])
  · obtain ⟨c, hc, rfl⟩ := Option.map_eq_some_iff.mp h
    exact ⟨.inr ⟨_, hc⟩, fun h => h.set ht id⟩

theorem advance_write {s : Statement} {options : WriteOptions} {amb : Ambient} {db : Database}
    (h : step P S caller w (.write amb s options db) = some w') : Advance w w' := by
  simp only [step] at h
  split at h
  case isFalse => cases h
  case isTrue hidle =>
    have hnil (h : Counted w.attempts w.progress) : w.attempts = [] := by
      rw [hidle.1] at h
      exact h
    split at h
    · cases h
      refine ⟨.inl rfl, fun h => ?_⟩
      rw [hnil h]
      exact ⟨Nat.zero_le _, none, .nil _, fun _ => rfl⟩
    · cases h
      refine ⟨.inl rfl, fun h => ?_⟩
      rw [hnil h]
      exact ⟨Nat.le_refl _, by decide, .nil _⟩

theorem advance_attempt {payload : Payload} {i : Nat} (hp : w.progress = .trying payload i)
    (leader : Option NodeId) : Advance w (w.attempt caller payload i leader) := by
  cases leader with
  | some target =>
    refine ⟨.inl rfl, fun h => ?_⟩
    rw [hp] at h
    obtain ⟨hlen, hi, hf⟩ := h
    refine ⟨?_, hi, hf.push _⟩
    simp only [attempt, List.length_append, List.length_singleton]
    exact Nat.succ_le_succ hlen
  | none =>
    refine ⟨.inl rfl, fun h => ?_⟩
    rw [hp] at h
    obtain ⟨hlen, hi, hf⟩ := h
    simp only [attempt]
    split
    · exact counted_error (hlen.trans hi.le) hf _
    · exact counted_retry (Nat.le_succ_of_le hlen) hi hf _

theorem advance_receive (h : step P S caller w .receive = some w') : Advance w w' := by
  simp only [step] at h
  split at h
  · rename_i payload i k hp
    obtain ⟨response, hr, rfl⟩ := Option.map_eq_some_iff.mp h
    obtain ⟨t, ht, hr⟩ := Option.bind_eq_some_iff.mp hr
    refine ⟨.inl rfl, fun h => ?_⟩
    rw [hp] at h
    obtain ⟨hlen, hi, hf⟩ := h
    exact counted_handleResponse hlen hi hf ht hr
  · cases h

theorem advance_throw {error : String} (h : step P S caller w (.throw error) = some w') :
    Advance w w' := by
  simp only [step] at h
  split at h
  · rename_i payload i k hp
    obtain ⟨t, ht, rfl⟩ := Option.map_eq_some_iff.mp h
    refine ⟨.inl rfl, fun h => ?_⟩
    rw [hp] at h
    obtain ⟨hlen, hi, hf⟩ := h
    have hall : FailedBut none (w.attempts.set k { t with threw := true }) :=
      hf.set_all ht (by simp [Attempt.failed])
    exact counted_retry ((List.length_set ..).trans_le hlen) hi hall _
  · cases h

theorem step_advance (h : step P S caller w a = some w') : Advance w w' := by
  cases a with
  | raft a =>
    obtain ⟨c, hc, rfl⟩ := Option.map_eq_some_iff.mp h
    exact ⟨.inr ⟨a, hc⟩, counted_survive⟩
  | write => exact advance_write h
  | resolve leader =>
    simp only [step] at h
    split at h
    · rename_i hp
      cases h
      exact advance_attempt hp leader
    · cases h
  | serve k =>
    simp only [step] at h
    split at h
    case h_1 t ht =>
      split at h
      case isTrue hfresh => exact advance_serve ht hfresh.2 h
      case isFalse => cases h
    case h_2 => cases h
  | appended k =>
    simp only [step] at h
    split at h
    case h_1 t ht =>
      split at h
      case isTrue hresolved =>
        cases h
        exact advance_setAttempt ht (by simp [Attempt.failed, hresolved.1])
      case isFalse => cases h
    case h_2 => cases h
  | handlerThrows k error =>
    simp only [step] at h
    split at h
    case h_1 t ht =>
      split at h
      case isTrue =>
        cases h
        exact advance_setAttempt ht (by simp [Attempt.failed])
      case isFalse => cases h
    case h_2 => cases h
  | receive => exact advance_receive h
  | throw error => exact advance_throw h

theorem reach_cluster {G : Forwarding → Action → Prop}
    (h : (forwarding P S caller).Reach G w) : Raft.system.Reach (fun _ _ => True) w.cluster := by
  induction h with
  | init hi => exact .init hi.1
  | step _ _ hs ih =>
    obtain heq | ⟨a, ha⟩ := (step_advance hs).cluster
    · exact heq ▸ ih
    · exact ih.step trivial ha

theorem reach_counted {G : Forwarding → Action → Prop}
    (h : (forwarding P S caller).Reach G w) : Counted w.attempts w.progress := by
  induction h with
  | init hi =>
    rw [hi.2.1, hi.2.2]
    rfl
  | step _ _ hs ih => exact (step_advance hs).counted ih

theorem lost_of_failedBut {k : Option Nat} (h : FailedBut k w.attempts) {j : Nat}
    (hj : j ∈ w.committed) (hk : some j ≠ k) : j ∈ w.lost := by
  obtain ⟨t, ht, e, he, _⟩ := hj
  have hne : t.entry ≠ none := by
    rw [he]
    simp
  exact ⟨t, ht, hne, h j t ht hk⟩

/-- A call has no more than one committed entry for each of its three attempts,
at most one besides those of lost attempts, and none besides them if it
returned an error. No log has an entry twice. -/
theorem committed_once_unless_lost (h : (forwarding P S caller).Reach (fun _ _ => True) w) :
    (∀ k ∈ w.committed, k < 3) ∧ (w.committed \ w.lost).Subsingleton ∧
      (∀ result, w.progress = .returned result → result.success = false →
        w.committed ⊆ w.lost) ∧
      ∀ id e, ((w.cluster.node id).log.take (w.cluster.node id).commitIndex).count e ≤ 1 := by
  have hc := reach_counted h
  obtain ⟨hlen, k, hk⟩ := hc.gone
  refine ⟨?_, ?_, ?_, ?_⟩
  · rintro j ⟨t, ht, _⟩
    exact (List.getElem?_eq_some_iff.mp ht).1.trans_le hlen
  · rintro i ⟨hi, hil⟩ j ⟨hj, hjl⟩
    have hik : some i = k := not_not.mp fun hne => hil (lost_of_failedBut hk hi hne)
    have hjk : some j = k := not_not.mp fun hne => hjl (lost_of_failedBut hk hj hne)
    exact Option.some.inj (hik.trans hjk.symm)
  · intro result hp hfail j hj
    rw [hp] at hc
    obtain ⟨_, k, hk, hnone⟩ := hc
    rw [hnone hfail] at hk
    exact lost_of_failedBut hk hj (by simp)
  · intro id e
    have hlog := (Raft.Reach.formed (reach_cluster h) id).log
    have hnd := hlog.nodup.sublist (List.take_sublist (w.cluster.node id).commitIndex _)
    exact List.nodup_iff_count_le_one.mp hnd e

end

-- ---------------------------------------------------------------------------
-- A build recorded through a follower
-- ---------------------------------------------------------------------------

open Sample (platform sqlite insertBuild entry start)

/-- `b` records a build while `a` leads, and takes `a` for the leader. -/
def forwardBuild : List Action :=
  (Raft.officeA ++ Raft.roundA).map .raft ++
    [.write ⟨1, 0⟩ insertBuild { table := some "infra_builds" } start, .resolve (some "a"),
      .serve 0]

def commitRound (packet round : Nat) : List Action :=
  ([.deliver "a" packet, .deliver "a" (packet + 1), .deliver "b" 2, .deliver "c" 2,
    .input "a" (.roundEnds round)] : List Raft.Action).map .raft

theorem mem_committed {w : Forwarding} {k : Nat} {e : LogEntry} {id : NodeId}
    (hk : (w.attempts.map Attempt.entry)[k]? = some (some e))
    (he : e ∈ Raft.RaftNode.committed (w.cluster.node id).emitted) : k ∈ w.committed := by
  rw [List.getElem?_map] at hk
  obtain ⟨t, ht, hte⟩ := Option.map_eq_some_iff.mp hk
  exact ⟨t, ht, e, hte, id, he⟩

theorem build_forwarded_once :
    ∃ w, (forwarding platform sqlite "b").Reach (fun _ _ => True) w ∧
      w.progress = .returned { success := true } ∧ 0 ∈ w.committed ∧
      (w.committed \ w.lost).Subsingleton := by
  obtain ⟨w, hr, hp, hk, he⟩ := System.Reach.replay (M := forwarding platform sqlite "b")
    (G := fun _ _ => True) (P := fun w => w.progress = .returned { success := true } ∧
      (w.attempts.map Attempt.entry)[0]? = some (some (entry 2 insertBuild)) ∧
      entry 2 insertBuild ∈ Raft.RaftNode.committed (w.cluster.node "a").emitted)
    (s := { cluster := Raft.trio }) ⟨Raft.trio_booted, rfl, rfl⟩
    (forwardBuild ++ commitRound 4 1 ++ [.appended 0, .receive]) (by decide +kernel)
  exact ⟨w, hr, hp, mem_committed hk he, (committed_once_unless_lost hr).2.1⟩

/-- `a` has appended the entry when the deadline of the call passes; the second
attempt appends it again, and one round commits both. -/
def forwardTwice : List Action :=
  forwardBuild ++ [.throw "4 DEADLINE_EXCEEDED", .resolve (some "a"), .serve 1] ++
    commitRound 6 2

def forwardInVain : List Action :=
  (Raft.officeA ++ Raft.roundA).map .raft ++
    [.write ⟨1, 0⟩ insertBuild { table := some "infra_builds" } start, .resolve (some "a"),
      .throw "4 DEADLINE_EXCEEDED", .resolve (some "a"), .throw "4 DEADLINE_EXCEEDED",
      .resolve (some "a"), .serve 2, .throw "4 DEADLINE_EXCEEDED"] ++ commitRound 4 1

/-- Two entries of one call are committed, and one of a call that returned an error. -/
theorem build_forwarded_twice :
    (∃ w, (forwarding platform sqlite "b").Reach (fun _ _ => True) w ∧
      ¬ w.committed.Subsingleton ∧
      (Raft.RaftNode.committed (w.cluster.node "a").emitted).drop 1 =
        [entry 2 insertBuild, entry 3 insertBuild]) ∧
    ∃ w result, (forwarding platform sqlite "b").Reach (fun _ _ => True) w ∧
      w.progress = .returned result ∧ result.success = false ∧ w.committed ≠ ∅ := by
  constructor
  · obtain ⟨w, hr, ht, he⟩ := System.Reach.replay (M := forwarding platform sqlite "b")
      (G := fun _ _ => True) (P := fun w =>
        w.attempts.map Attempt.entry =
          [some (entry 2 insertBuild), some (entry 3 insertBuild)] ∧
        (Raft.RaftNode.committed (w.cluster.node "a").emitted).drop 1 =
          [entry 2 insertBuild, entry 3 insertBuild])
      (s := { cluster := Raft.trio }) ⟨Raft.trio_booted, rfl, rfl⟩ forwardTwice
      (by decide +kernel)
    have hmem : ∀ e ∈ [entry 2 insertBuild, entry 3 insertBuild],
        e ∈ Raft.RaftNode.committed (w.cluster.node "a").emitted :=
      fun e h => List.mem_of_mem_drop (i := 1) (he ▸ h)
    have h0 : 0 ∈ w.committed :=
      mem_committed (congrArg (·[0]?) ht) (hmem _ List.mem_cons_self)
    have h1 : 1 ∈ w.committed :=
      mem_committed (congrArg (·[1]?) ht) (hmem _ (List.mem_cons_of_mem _ List.mem_cons_self))
    exact ⟨w, hr, fun hs => absurd (hs h0 h1) (by decide), he⟩
  · obtain ⟨w, hr, hp, hk, he⟩ := System.Reach.replay (M := forwarding platform sqlite "b")
      (G := fun _ _ => True) (P := fun w =>
        w.progress = .returned { success := false, error := some "4 DEADLINE_EXCEEDED" } ∧
        (w.attempts.map Attempt.entry)[2]? = some (some (entry 2 insertBuild)) ∧
        entry 2 insertBuild ∈ Raft.RaftNode.committed (w.cluster.node "a").emitted)
      (s := { cluster := Raft.trio }) ⟨Raft.trio_booted, rfl, rfl⟩ forwardInVain
      (by decide +kernel)
    exact ⟨w, _, hr, hp, rfl, Set.nonempty_iff_ne_empty.mp ⟨2, mem_committed hk he⟩⟩

end Forwarding

end ClaudeCluster.Memory
