import ClaudeCluster.Raft.Delivery

/-!
# Listeners of committed entries

`emit` calls its listeners before it returns, inside the loop of
`applyCommittedEntries`. A listener may call back into the node: `appendEntry`
pushes and sends at once and leaves the rest for later, `addPeer` and
`removePeer` change the peers. It may also throw; `emit` then throws, the loop
ends where it is, and so does the method that ran it. `Applied` is what such a
run of the loop leaves; with listeners that do nothing it is the loop of
`Raft.Node` (`stepHeard_nil`).

Whatever the listeners do, a process tells of the entries 1, 2, 3 and so on,
each once (`heard_in_order`).
-/

namespace ClaudeCluster.Raft

open Lib

inductive Callback
  | appendEntry (type : LogEntryType) (data : Buffer)
  | addPeer (id : NodeId) (votingMember : Bool)
  | removePeer (id : NodeId)
  deriving DecidableEq, Repr

structure Reaction where
  calls : List Callback := []
  throws : Bool := false
  deriving DecidableEq, Repr

/-- The node after a method that runs the loop, the entries emitted with
`lastApplied` as it was then, and whether a listener threw. -/
structure Applied where
  node : RaftNode
  heard : List (Nat × LogEntry)
  threw : Bool

namespace RaftNode

-- ---------------------------------------------------------------------------
-- The loop
-- ---------------------------------------------------------------------------

def callback (n : RaftNode) : Callback → RaftNode
  | .appendEntry type data => n.appendEntry type data
  | .addPeer id votingMember => n.addPeer id votingMember
  | .removePeer id => n.removePeer id

/-- `applyTurns` with listeners. The reactions are used up in order; past their
end the listeners do nothing. -/
def applyHeard : Nat → List Reaction → RaftNode → Applied
  | 0, _, n => ⟨n, [], false⟩
  | k + 1, reactions, n =>
    let applied := { n with lastApplied := n.lastApplied + 1 }
    match n.log[n.lastApplied]? with
    | none => applyHeard k reactions applied
    | some entry =>
      let reaction := reactions.headD {}
      let node := reaction.calls.foldl callback (applied.emit (.entryCommitted entry))
      let told := (applied.lastApplied, entry)
      if reaction.throws then ⟨node, [told], true⟩
      else
        let rest := applyHeard k reactions.tail node
        { rest with heard := told :: rest.heard }

/-- `while (this.lastApplied < this.commitIndex)`: no callback moves either, so
the number of turns is known when the loop starts. -/
def applyCommittedHeard (reactions : List Reaction) (n : RaftNode) : Applied :=
  n.applyHeard (n.commitIndex - n.lastApplied) reactions

def commitToHeard (reactions : List Reaction) (leaderCommit : Nat) (n : RaftNode) : Applied :=
  if leaderCommit > n.commitIndex then
    { n with commitIndex := min leaderCommit n.getLastLogIndex }.applyCommittedHeard reactions
  else ⟨n, [], false⟩

def updateCommitIndexHeard (reactions : List Reaction) (n : RaftNode) : Applied :=
  if n.canAdvance then { n with commitIndex := n.newCommitIndex }.applyCommittedHeard reactions
  else ⟨n, [], false⟩

-- ---------------------------------------------------------------------------
-- The methods that run it
-- ---------------------------------------------------------------------------

/-- `handleAppendEntries`, whose answer is sent only if no listener threw: the
handler of `grpc/handlers.ts` turns the exception into an error status. -/
def handleAppendEntriesHeard (reactions : List Reaction) (c : AppendCall) (n : RaftNode) :
    Applied :=
  let n := n.observeTerm c.request.term
  if c.request.term < n.currentTerm then
    ⟨n.send (.appendReply c ⟨n.currentTerm, false, 0⟩), [], false⟩
  else
    let n := n.noteLeader c.request.leaderId
    if !n.consistent c.request then
      ⟨n.send (.appendReply c ⟨n.currentTerm, false, 0⟩), [], false⟩
    else
      let applied := (n.acceptEntries c.request).commitToHeard reactions c.request.leaderCommit
      if applied.threw then applied
      else
        let n := applied.node
        { applied with node := n.send (.appendReply c ⟨n.currentTerm, true, n.getLastLogIndex⟩) }

/-- `finishRound`. If a listener threw, the promise of the round is rejected
and the `appendEntry` that awaited it does not resolve. -/
def finishRoundHeard (reactions : List Reaction) (r : Round) (n : RaftNode) : Applied :=
  let applied := n.updateCommitIndexHeard reactions
  { applied with
    node :=
      { applied.node with
        rounds := applied.node.rounds.erase r
        resolved := applied.node.resolved ++ if applied.threw then [] else r.entry.toList } }

def stepHeard (reactions : List Reaction) (n : RaftNode) : Stimulus → Option Applied
  | .packet (.appendEntries c) => some (n.handleAppendEntriesHeard reactions c)
  | .input (.roundEnds round) =>
    match n.rounds.find? (·.id = round) with
    | some r => if r.pending = [] then some (n.finishRoundHeard reactions r) else none
    | none => none
  | s => (n.step s).map (⟨·, [], false⟩)

def Stimulus.applies : Stimulus → Bool
  | .packet (.appendEntries _) => true
  | .input (.roundEnds _) => true
  | _ => false

section
variable {n : RaftNode} {s : Stimulus}

theorem stepHeard_outsideLoop {reactions : List Reaction} (h : s.applies = false) :
    n.stepHeard reactions s = (n.step s).map (⟨·, [], false⟩) := by
  unfold stepHeard
  split
  · simp [Stimulus.applies] at h
  · simp [Stimulus.applies] at h
  · rfl

theorem applyHeard_nil (k : Nat) (n : RaftNode) :
    (n.applyHeard k []).node = n.applyTurns k ∧ (n.applyHeard k []).threw = false := by
  induction k generalizing n with
  | zero => exact ⟨rfl, rfl⟩
  | succ k ih =>
    simp only [applyHeard, applyTurns, applyNext]
    cases h : n.log[n.lastApplied]? with
    | none => exact ih _
    | some e => exact ih _

theorem applyCommittedHeard_nil (n : RaftNode) :
    (n.applyCommittedHeard []).node = n.applyCommittedEntries ∧
      (n.applyCommittedHeard []).threw = false :=
  applyHeard_nil _ n

theorem commitToHeard_nil (c : Nat) (n : RaftNode) :
    (n.commitToHeard [] c).node = n.commitTo c ∧ (n.commitToHeard [] c).threw = false := by
  unfold commitToHeard commitTo
  split
  · exact applyCommittedHeard_nil _
  · exact ⟨rfl, rfl⟩

theorem updateCommitIndexHeard_nil (n : RaftNode) :
    (n.updateCommitIndexHeard []).node = n.updateCommitIndex ∧
      (n.updateCommitIndexHeard []).threw = false := by
  unfold updateCommitIndexHeard updateCommitIndex
  split
  · exact applyCommittedHeard_nil _
  · exact ⟨rfl, rfl⟩

/-- With listeners that do nothing a step is the step of `Raft.Node`. -/
theorem stepHeard_nil (n : RaftNode) (s : Stimulus) :
    (n.stepHeard [] s).map Applied.node = n.step s := by
  cases ha : s.applies with
  | false =>
    rw [stepHeard_outsideLoop ha, Option.map_map]
    exact congrFun Option.map_id_fun' _
  | true =>
    unfold Stimulus.applies at ha
    split at ha
    case h_1 c =>
      simp only [stepHeard, step, receive, Option.map_some, handleAppendEntriesHeard,
        handleAppendEntries]
      split
      · rfl
      · split
        · rfl
        · obtain ⟨hnode, hthrew⟩ := commitToHeard_nil c.request.leaderCommit
            (((n.observeTerm c.request.term).noteLeader c.request.leaderId).acceptEntries
              c.request)
          simp [hnode, hthrew]
    case h_2 round =>
      cases hf : n.rounds.find? (·.id = round) with
      | none => simp [stepHeard, step, act, hf]
      | some r =>
        obtain ⟨hnode, hthrew⟩ := updateCommitIndexHeard_nil n
        simp only [stepHeard, step, act, hf]
        split
        · simp [finishRoundHeard, finishRound, hnode, hthrew]
        · rfl
    case h_3 => cases ha

end

-- ---------------------------------------------------------------------------
-- What a method tells
-- ---------------------------------------------------------------------------

/-- The listeners had been told of `old` when `lastApplied` was `k`; since then
they were told of the entries `k + 1`, `k + 2` and so on. -/
structure Told (id : NodeId) (k : Nat) (old : List LogEntry) (a : Applied) : Prop where
  formed : Formed id a.node
  lastApplied : a.node.lastApplied = k + a.heard.length
  consecutive : a.heard.map (·.1) = List.range' (k + 1) a.heard.length
  index : ∀ x ∈ a.heard, x.2.index = x.1
  emitted : committed a.node.emitted = old ++ a.heard.map (·.2)

section
variable {n n' : RaftNode} {id : NodeId} {k : Nat} {old : List LogEntry} {a b : Applied}

theorem Told.none (hf : Formed id n) (threw : Bool) :
    Told id n.lastApplied (committed n.emitted) ⟨n, [], threw⟩ :=
  ⟨hf, rfl, rfl, by simp, by simp⟩

theorem Told.trans (ha : Told id k old a)
    (hb : Told id a.node.lastApplied (committed a.node.emitted) b) :
    Told id k old ⟨b.node, a.heard ++ b.heard, b.threw⟩ := by
  refine ⟨hb.formed, ?_, ?_, ?_, ?_⟩
  · rw [hb.lastApplied, ha.lastApplied, List.length_append, Nat.add_assoc]
  · have hnext : k + a.heard.length + 1 = k + 1 + 1 * a.heard.length := by omega
    rw [List.map_append, ha.consecutive, hb.consecutive, ha.lastApplied, List.length_append,
      hnext, List.range'_append]
  · intro x hx
    exact (List.mem_append.mp hx).elim (ha.index x) (hb.index x)
  · rw [hb.emitted, ha.emitted, List.map_append, List.append_assoc]

theorem Told.silently (ha : Told id k old a) (hf : Formed id n')
    (hla : n'.lastApplied = a.node.lastApplied)
    (hem : committed n'.emitted = committed a.node.emitted) (threw : Bool) :
    Told id k old ⟨n', a.heard, threw⟩ :=
  ⟨hf, hla.trans ha.lastApplied, ha.consecutive, ha.index, hem.trans ha.emitted⟩

theorem Silent.committed_eq (h : Silent n n') : committed n'.emitted = committed n.emitted := by
  obtain ⟨events, he, hc⟩ := h
  rw [he, committed, List.filterMap_append]
  exact (congrArg _ hc).trans (List.append_nil _)

structure Undisturbed (id : NodeId) (n n' : RaftNode) : Prop where
  formed : Formed id n'
  log : n.log <+: n'.log
  lastApplied : n'.lastApplied = n.lastApplied
  emitted : n'.emitted = n.emitted

theorem callback_undisturbed (hf : Formed id n) (c : Callback) :
    Undisturbed id n (n.callback c) := by
  have hno : ∀ c, (Env.ofPackets fun _ => False).packet (.appendEntries c) →
      RequestFormed c.request := fun _ h => h.elim
  cases c with
  | appendEntry type data =>
    refine ⟨hf.moves hno (appendEntry_moves type data), ?_, ?_, ?_⟩ <;>
      simp only [callback, appendEntry] <;> split
    · exact List.prefix_refl _
    · exact List.prefix_append _ _
    all_goals rfl
  | addPeer peer voting =>
    have hq := quiet_addPeer n peer voting
    refine ⟨hf.moves hno hq.moves, by rw [callback, hq.log], hq.lastApplied, ?_⟩
    simp only [callback, addPeer]
    split <;> rfl
  | removePeer peer =>
    exact ⟨hf.moves hno (quiet_removePeer n peer).moves, List.prefix_refl _, rfl, rfl⟩

theorem callbacks_undisturbed (hf : Formed id n) (calls : List Callback) :
    Undisturbed id n (calls.foldl callback n) := by
  induction calls generalizing n with
  | nil => exact ⟨hf, List.prefix_refl _, rfl, rfl⟩
  | cons c calls ih =>
    have hc := callback_undisturbed hf c
    have hcs := ih hc.formed
    exact ⟨hcs.formed, hc.log.trans hcs.log, hcs.lastApplied.trans hc.lastApplied,
      hcs.emitted.trans hc.emitted⟩

/-- The loop finds every position it comes to: the log was long enough when it
started and does not get shorter while it runs. -/
theorem applyHeard_told (reactions : List Reaction) (hf : Formed id n)
    (hk : 0 < k → n.lastApplied + k ≤ n.log.length) :
    Told id n.lastApplied (committed n.emitted) (n.applyHeard k reactions) := by
  induction k generalizing n reactions with
  | zero => exact .none hf false
  | succ k ih =>
    have hlen := hk (Nat.succ_pos k)
    obtain ⟨e, he⟩ : ∃ e, n.log[n.lastApplied]? = some e :=
      ⟨_, List.getElem?_eq_getElem (by omega)⟩
    simp only [applyHeard, he]
    have hf' : Formed id (emit { n with lastApplied := n.lastApplied + 1 } (.entryCommitted e)) :=
      { hf with }
    have hund := callbacks_undisturbed hf' (reactions.headD {}).calls
    generalize List.foldl callback _ (reactions.headD {}).calls = m at hund
    have hm : Told id n.lastApplied (committed n.emitted) ⟨m, [(n.lastApplied + 1, e)], true⟩ := by
      refine ⟨hund.formed, hund.lastApplied, rfl, ?_, ?_⟩
      · intro x hx
        rw [List.mem_singleton.mp hx]
        exact hf.log.index _ e he
      · rw [hund.emitted]
        exact List.filterMap_append
    split
    · exact hm
    · refine hm.trans (ih _ hund.formed fun _ => ?_)
      rw [hund.lastApplied]
      exact Nat.le_trans (by simp only [emit]; omega) hund.log.length_le

theorem commitToHeard_told (reactions : List Reaction) (c : Nat) (hf : Formed id n) :
    Told id n.lastApplied (committed n.emitted) (n.commitToHeard reactions c) := by
  unfold commitToHeard
  split
  · refine applyHeard_told (n := { n with commitIndex := min c n.getLastLogIndex }) reactions
      { hf with } fun hpos => ?_
    have hlen : n.getLastLogIndex = n.log.length := hf.log.lastLogIndex
    dsimp only at hpos ⊢
    omega
  · exact .none hf false

theorem updateCommitIndexHeard_told (reactions : List Reaction) (hf : Formed id n) :
    Told id n.lastApplied (committed n.emitted) (n.updateCommitIndexHeard reactions) := by
  unfold updateCommitIndexHeard
  split
  case isTrue hadv =>
    simp only [canAdvance, Bool.and_eq_true, decide_eq_true_eq, Option.any_eq_true] at hadv
    obtain ⟨hgt, e, he, -⟩ := hadv
    have hlen := (List.getElem?_eq_some_iff.mp he).1
    refine applyHeard_told (n := { n with commitIndex := n.newCommitIndex }) reactions
      { hf with } fun hpos => ?_
    dsimp only at hpos ⊢
    omega
  case isFalse => exact .none hf false

theorem handleAppendEntriesHeard_told {c : AppendCall} (reactions : List Reaction)
    (hf : Formed id n) (hr : RequestFormed c.request) :
    Told id n.lastApplied (committed n.emitted) (n.handleAppendEntriesHeard reactions c) := by
  have hp : ∀ d, (Env.ofPackets (· = .appendEntries c)).packet (.appendEntries d) →
      RequestFormed d.request := fun d hd => by cases hd; exact hr
  have hmax := observeTerm_currentTerm n c.request.term
  have hobs : Formed id (n.observeTerm c.request.term) := hf.moves hp (observeTerm_moves _)
  have hla := (observeTerm_fields n c.request.term).2.2
  have hem := (silent_observeTerm (n := n) c.request.term).committed_eq
  rw [← hla, ← hem]
  simp only [handleAppendEntriesHeard]
  generalize n.observeTerm c.request.term = m at hmax hobs
  split
  · exact (Told.none hobs false).silently (hobs.send fun _ => by simp) rfl rfl _
  case isFalse hlt =>
    have hq := quiet_noteLeader m c.request.leaderId
    have hnote : Formed id (m.noteLeader c.request.leaderId) := hobs.moves hp hq.moves
    have hT : c.request.term = (m.noteLeader c.request.leaderId).currentTerm := by
      rw [hq.currentTerm]
      omega
    rw [← hq.lastApplied, ← (silent_noteLeader (n := m) c.request.leaderId).committed_eq]
    generalize m.noteLeader c.request.leaderId = k at hnote hT
    cases hcons : k.consistent c.request with
    | false => exact (Told.none hnote false).silently (hnote.send fun _ => by simp) rfl rfl _
    | true =>
      have hacc : Formed id (k.acceptEntries c.request) :=
        hnote.move hp (.accept rfl hT hcons trivial)
      have htold := commitToHeard_told reactions c.request.leaderCommit hacc
      simp only [Bool.not_true, Bool.false_eq_true, ↓reduceIte]
      split
      · exact htold
      · exact htold.silently (htold.formed.send fun _ => by simp) rfl rfl _

theorem finishRoundHeard_told (reactions : List Reaction) (r : Round) (hf : Formed id n) :
    Told id n.lastApplied (committed n.emitted) (n.finishRoundHeard reactions r) := by
  have htold := updateCommitIndexHeard_told reactions hf
  have hf' : Formed id (n.finishRoundHeard reactions r).node := { htold.formed with }
  exact htold.silently hf' rfl rfl _

end

-- ---------------------------------------------------------------------------
-- Steps
-- ---------------------------------------------------------------------------

def Env.outsideLoop : Env :=
  { Env.ofPackets fun p => ∀ c, p ≠ .appendEntries c with
    advance := fun _ => False
    reboot := fun _ => False }

section
variable {n n' : RaftNode} {id : NodeId} {s : Stimulus}

theorem Move.lastApplied_eq (h : Move .outsideLoop n n') : n'.lastApplied = n.lastApplied := by
  cases h with
  | quiet q => exact q.lastApplied
  | @commit c _ hp => exact absurd rfl (hp c)
  | advance _ h => exact h.elim
  | reboot h => exact h.elim
  | _ => rfl

theorem Moves.lastApplied_eq (h : Moves .outsideLoop n n') : n'.lastApplied = n.lastApplied := by
  induction h with
  | refl => rfl
  | tail _ hm ih => exact hm.lastApplied_eq.trans ih

theorem Env.allows_outsideLoop (ha : s.applies = false) (hr : s.restarts = false) :
    Env.outsideLoop.Allows n s := by
  have hp : ∀ p, s = .packet p → ∀ c, p ≠ .appendEntries c := by
    rintro p rfl c rfl
    simp [Stimulus.applies] at ha
  have hall : (Env.ofPackets fun p => ∀ c, p ≠ .appendEntries c).Allows n s :=
    Env.allows_ofPackets hp
  refine { hall with advance := ?_, reboot := ?_ }
  · intro r hcl
    cases s with
    | packet p => simp [closing] at hcl
    | input i =>
      cases i with
      | roundEnds round => simp [Stimulus.applies] at ha
      | _ => simp [closing] at hcl
  · intro h
    simp [h] at hr

def startOf (n : RaftNode) (s : Stimulus) : Nat := if s.restarts then 0 else n.lastApplied

theorem step_told (hf : Formed id n) (ha : s.applies = false) (h : n.step s = some n') :
    Told id (n.startOf s) (committed n.emitted) ⟨n', [], false⟩ := by
  have hp : ∀ p, s = .packet p → ∀ c, p ≠ .appendEntries c := by
    rintro p rfl c rfl
    simp [Stimulus.applies] at ha
  have hf' : Formed id n' := by
    refine hf.moves ?_ (step_moves h (Env.allows_ofPackets hp))
    intro c hc
    exact absurd rfl (hc c)
  have hem : committed n'.emitted = committed n.emitted := by
    obtain ⟨k, hemits, hk⟩ := step_emits h
    have hno : n.commits s = false := by
      unfold commits
      split <;> simp_all [Stimulus.applies]
    obtain rfl : k = 0 := by
      by_contra hne
      simp [hno] at hk
      omega
    exact Silent.committed_eq hemits
  refine ⟨hf', ?_, rfl, by simp, by simpa using hem⟩
  unfold startOf
  cases hr : s.restarts with
  | false => exact (step_moves h (Env.allows_outsideLoop ha hr)).lastApplied_eq
  | true =>
    cases s with
    | packet p => simp [Stimulus.restarts] at hr
    | input i =>
      cases i with
      | restart known =>
        cases h
        obtain ⟨peers, nextRef, T, heq, -⟩ := restart_eq known n
        rw [heq]
        rfl
      | _ => simp [Stimulus.restarts] at hr

theorem stepHeard_told {reactions : List Reaction} {a : Applied} (hf : Formed id n)
    (hp : ∀ c, s = .packet (.appendEntries c) → RequestFormed c.request)
    (h : n.stepHeard reactions s = some a) :
    Told id (n.startOf s) (committed n.emitted) a := by
  cases ha : s.applies with
  | false =>
    rw [stepHeard_outsideLoop ha] at h
    obtain ⟨n', hn, rfl⟩ := Option.map_eq_some_iff.mp h
    exact step_told hf ha hn
  | true =>
    unfold Stimulus.applies at ha
    split at ha
    case h_1 c =>
      cases h
      exact handleAppendEntriesHeard_told reactions hf (hp c rfl)
    case h_2 round =>
      simp only [stepHeard] at h
      split at h
      · split at h
        · cases h
          exact finishRoundHeard_told reactions _ hf
        · cases h
      · cases h
    case h_3 => cases ha

end

end RaftNode

-- ---------------------------------------------------------------------------
-- Runs
-- ---------------------------------------------------------------------------

open RaftNode

/-- A cluster, and what the listeners of each node's present process have heard. -/
structure Audience where
  cluster : Cluster
  heard : NodeId → List (Nat × LogEntry)

namespace Audience

def step (w : Audience) (x : Action × List Reaction) : Option Audience :=
  (w.cluster.stimulus x.1).bind fun (id, s) =>
    ((w.cluster.node id).stepHeard x.2 s).map fun a =>
      { cluster := w.cluster.set id a.node
        heard := fun m =>
          if m = id then (if s.restarts then [] else w.heard id) ++ a.heard else w.heard m }

def Booted (w : Audience) : Prop := w.cluster.Booted ∧ ∀ id, w.heard id = []

def InOrder (w : Audience) : Prop :=
  ∀ id, ∃ old, Told id 0 old ⟨w.cluster.node id, w.heard id, false⟩

end Audience

def audience : System Audience (Action × List Reaction) := ⟨Audience.Booted, Audience.step⟩

section
variable {w w' : Audience} {x : Action × List Reaction}

theorem Audience.Booted.inOrder (h : w.Booted) : w.InOrder := by
  intro id
  obtain ⟨config, known, rfl, heq⟩ := h.1 id
  refine ⟨[], ?_⟩
  rw [heq, h.2]
  have hf := formed_boot config known
  obtain ⟨peers, nextRef, hboot, -⟩ := boot_eq config known
  refine ⟨hf, ?_, rfl, by simp, ?_⟩ <;> rw [hboot] <;> rfl

theorem Audience.InOrder.step (h : w.InOrder) (hs : w.step x = some w') : w'.InOrder := by
  obtain ⟨⟨id, s⟩, hst, hs⟩ := Option.bind_eq_some_iff.mp hs
  obtain ⟨a, ha, rfl⟩ := Option.map_eq_some_iff.mp hs
  have hp : ∀ c, s = .packet (.appendEntries c) → RequestFormed c.request := by
    rintro c rfl
    obtain ⟨⟨src, hsrc⟩, -⟩ := Cluster.stimulus_packet hst
    obtain ⟨_, htold⟩ := h src
    exact htold.formed.requests c hsrc
  intro m
  by_cases hm : m = id
  · subst hm
    obtain ⟨old, htold⟩ := h m
    have hstep := stepHeard_told htold.formed hp ha
    simp only [Cluster.set_node_self, ↓reduceIte]
    cases hr : s.restarts with
    | true =>
      simp only [startOf, hr, ↓reduceIte] at hstep
      exact ⟨_, hstep.silently hstep.formed rfl rfl _⟩
    | false =>
      simp only [startOf, hr, Bool.false_eq_true, ↓reduceIte] at hstep
      exact ⟨old, (htold.trans hstep).silently hstep.formed rfl rfl _⟩
  · simp only [Cluster.set_node_ne _ _ hm, hm, ↓reduceIte]
    exact h m

/-- Whatever listeners do, each process tells of the entries 1, 2, 3 and so on
in this order, each once and with `lastApplied` at its index. -/
theorem heard_in_order (h : audience.Reach (fun _ _ => True) w) (id : NodeId) :
    (w.heard id).map (·.2.index) = List.range' 1 (w.heard id).length ∧
    (∀ y ∈ w.heard id, y.2.index = y.1) ∧
    (w.heard id).map (·.2) <:+ committed (w.cluster.node id).emitted := by
  have hinv : w.InOrder := System.Reach.invariant (fun _ => Audience.Booted.inOrder)
    (fun _ _ _ _ hI _ hs => hI.step hs) h
  obtain ⟨old, htold⟩ := hinv id
  refine ⟨?_, htold.index, ⟨old, htold.emitted.symm⟩⟩
  rw [← (List.map_congr_left fun y hy => (htold.index y hy).symm :
    (w.heard id).map (·.1) = (w.heard id).map (·.2.index))]
  exact htold.consecutive

end

/-- The listener of `a` answers its first entry with a new one and throws; the
next round tells of the second. -/
theorem trio_heard : ∃ w, audience.Reach (fun _ _ => True) w ∧
    ((w.heard "a").map (·.1) = [1, 2] ∧ (w.heard "b").map (·.1) = [1]) ∧
    (w.heard "a").map (·.2.index) = List.range' 1 (w.heard "a").length := by
  obtain ⟨w, hw, hP⟩ := System.Reach.replay (M := audience) (G := fun _ _ => True)
    (P := fun w => (w.heard "a").map (·.1) = [1, 2] ∧ (w.heard "b").map (·.1) = [1])
    (s := ⟨trio, fun _ => []⟩) ⟨trio_booted, fun _ => rfl⟩
    ((officeA.map (·, [])) ++ (roundA.map (·, [⟨[.appendEntry .taskSubmit [7]], true⟩])) ++
      [(.deliver "a" 4, []), (.deliver "a" 5, []), (.deliver "b" 2, []), (.deliver "c" 2, []),
        (.input "a" (.roundEnds 1), [])])
    (by decide +kernel)
  exact ⟨w, hw, hP, (heard_in_order hw "a").1⟩

end ClaudeCluster.Raft
