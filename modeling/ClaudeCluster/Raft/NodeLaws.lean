import ClaudeCluster.Raft.Node

/-!
# Laws of the node's methods

What the methods with a loop or a branch leave behind, as one record update
each, so that later proofs read a field off instead of unfolding a method.
-/

namespace ClaudeCluster.Raft.RaftNode

-- ---------------------------------------------------------------------------
-- Records kept at the end of a list
-- ---------------------------------------------------------------------------

theorem forall_mem_concat {α : Type} {P : α → Prop} {l : List α} {a : α} (h : ∀ x ∈ l, P x)
    (ha : P a) : ∀ x ∈ l ++ [a], P x := by
  intro x hx
  rcases List.mem_append.mp hx with hx | hx
  · exact h x hx
  · exact List.mem_singleton.mp hx ▸ ha

theorem forall_pair_concat {α β : Type} {P : α → β → Prop} {l : List (α × β)} {a : α} {b : β}
    (h : ∀ x y, (x, y) ∈ l → P x y) (ha : P a b) : ∀ x y, (x, y) ∈ l ++ [(a, b)] → P x y :=
  fun x y => forall_mem_concat (P := fun p => P p.1 p.2) (fun p hp => h p.1 p.2 hp) ha (x, y)

-- ---------------------------------------------------------------------------
-- Terms
-- ---------------------------------------------------------------------------

theorem observeTerm_currentTerm (n : RaftNode) (T : Nat) :
    (n.observeTerm T).currentTerm = max n.currentTerm T := by
  unfold observeTerm
  split
  case isTrue h => exact (max_eq_right h.le).symm
  case isFalse h => exact (max_eq_left (Nat.not_lt.mp h)).symm

theorem observeTerm_log (n : RaftNode) (T : Nat) : (n.observeTerm T).log = n.log := by
  unfold observeTerm
  split <;> rfl

-- ---------------------------------------------------------------------------
-- Applying entries
-- ---------------------------------------------------------------------------

def nextEntries (n : RaftNode) (k : Nat) : List LogEntry :=
  (List.range' n.lastApplied k).filterMap (n.log[·]?)

theorem applyTurns_eq (n : RaftNode) (k : Nat) :
    n.applyTurns k =
      { n with
        lastApplied := n.lastApplied + k
        emitted := n.emitted ++ (n.nextEntries k).map .entryCommitted } := by
  induction k generalizing n with
  | zero => simp [applyTurns, nextEntries]
  | succ k ih =>
    rw [applyTurns, ih]
    cases h : n.log[n.lastApplied]? with
    | none => simp [applyNext, nextEntries, List.range'_succ, h, Nat.add_assoc, Nat.add_comm 1 k]
    | some e =>
      simp [applyNext, emit, nextEntries, List.range'_succ, h, Nat.add_assoc, Nat.add_comm 1 k]

/-- Setting the commit index and applying what it newly covers. -/
def commitAt (n : RaftNode) (c : Nat) : RaftNode :=
  { n with
    commitIndex := c
    lastApplied := n.lastApplied + (c - n.lastApplied)
    emitted := n.emitted ++ (n.nextEntries (c - n.lastApplied)).map .entryCommitted }

theorem applyCommittedEntries_eq (n : RaftNode) (c : Nat) :
    { n with commitIndex := c }.applyCommittedEntries = n.commitAt c :=
  applyTurns_eq _ _

theorem commitTo_eq (n : RaftNode) (leaderCommit : Nat) :
    n.commitTo leaderCommit =
      if leaderCommit > n.commitIndex then n.commitAt (min leaderCommit n.getLastLogIndex)
      else n := by
  rw [commitTo, applyCommittedEntries_eq]

theorem updateCommitIndex_eq (n : RaftNode) :
    n.updateCommitIndex = if n.canAdvance then n.commitAt n.newCommitIndex else n := by
  rw [updateCommitIndex, applyCommittedEntries_eq]

theorem mem_nextEntries {n : RaftNode} {k : Nat} {e : LogEntry} (h : e ∈ n.nextEntries k) :
    ∃ i, n.lastApplied ≤ i ∧ i < n.lastApplied + k ∧ n.log[i]? = some e := by
  obtain ⟨i, hi, he⟩ := List.mem_filterMap.mp h
  obtain ⟨h1, h2⟩ := List.mem_range'_1.mp hi
  exact ⟨i, h1, h2, he⟩

section
variable {n : RaftNode} {P : RaftNode → Prop}

theorem commitTo_keeps (h : P n) (hc : ∀ c, P (n.commitAt c)) (leaderCommit : Nat) :
    P (n.commitTo leaderCommit) := by
  rw [commitTo_eq]
  split
  · exact hc _
  · exact h

theorem updateCommitIndex_keeps (h : P n) (hc : ∀ c, P (n.commitAt c)) :
    P n.updateCommitIndex := by
  rw [updateCommitIndex_eq]
  split
  · exact hc _
  · exact h

end

-- ---------------------------------------------------------------------------
-- Sending
-- ---------------------------------------------------------------------------

section
variable {n : RaftNode}

theorem mem_replicate {entry : Option LogEntry} {p : Packet}
    (h : p ∈ (n.replicateToFollowers entry).sent) :
    p ∈ n.sent ∨ ∃ peer ∈ n.peers.values, p = .appendEntries
      ⟨n.epoch, n.nextRound, peer.ref, peer.nodeId, n.appendEntriesRequest peer⟩ := by
  rcases List.mem_append.mp h with h | h
  · exact .inl h
  · obtain ⟨peer, hp, rfl⟩ := List.mem_map.mp h
    exact .inr ⟨peer, hp, rfl⟩

theorem mem_campaign {p : Packet} (h : p ∈ n.becomeCandidate.sent) :
    p ∈ n.sent ∨ ∃ peer ∈ n.votingPeers, p = .requestVote
      ⟨n.epoch, peer.nodeId,
        ⟨n.currentTerm + 1, n.nodeId, lastLogIndex n.log, lastLogTerm n.log⟩⟩ := by
  rcases List.mem_append.mp h with h | h
  · exact .inl h
  · obtain ⟨peer, hp, rfl⟩ := List.mem_map.mp h
    exact .inr ⟨peer, hp, rfl⟩

end

-- ---------------------------------------------------------------------------
-- Peer objects
-- ---------------------------------------------------------------------------

def Refs (n : RaftNode) : Prop :=
  ∀ p ∈ n.peers.values, p.nodeId ≠ n.nodeId ∧ p.ref < n.nextRef ∧
    ∀ q ∈ n.peers.values, p.ref = q.ref → p.nodeId = q.nodeId

section
variable {n : RaftNode}

theorem refs_assign {f : PeerInfo → Nat × Nat} (h : Refs n) :
    Refs { n with peers := n.peers.assign f } := by
  intro p' hp'
  obtain ⟨p, hp, rfl⟩ := List.mem_map.mp hp'
  obtain ⟨hid, hlt, hinj⟩ := h p hp
  refine ⟨hid, hlt, ?_⟩
  intro q' hq'
  obtain ⟨q, hq, rfl⟩ := List.mem_map.mp hq'
  exact hinj q hq

theorem refs_of_subset {peers : PeerMap} (h : Refs n) (hs : peers.values ⊆ n.peers.values) :
    Refs { n with peers := peers } := by
  intro p hp
  obtain ⟨hid, hlt, hinj⟩ := h p (hs hp)
  exact ⟨hid, hlt, fun q hq => hinj q (hs hq)⟩

theorem refs_addPeer (h : Refs n) (id : NodeId) (voting : Bool) : Refs (n.addPeer id voting) := by
  unfold addPeer
  split
  · exact h
  case isFalse hne =>
    intro p hp
    rcases PeerMap.mem_setValues hp with rfl | hp
    · refine ⟨hne, Nat.lt_succ_self _, ?_⟩
      intro q hq hpq
      rcases PeerMap.mem_setValues hq with rfl | hq
      · rfl
      · exact absurd hpq (h q hq).2.1.ne'
    · obtain ⟨hid, hlt, hinj⟩ := h p hp
      refine ⟨hid, hlt.trans (Nat.lt_succ_self _), ?_⟩
      intro q hq hpq
      rcases PeerMap.mem_setValues hq with rfl | hq
      · exact absurd hpq hlt.ne
      · exact hinj q hq hpq

end

-- ---------------------------------------------------------------------------
-- Starting
-- ---------------------------------------------------------------------------

/-- The term a start comes up in. The vote on disk does not survive `start()`. -/
def startTerm (n : RaftNode) : Nat :=
  max n.currentTerm (if n.persistent then (n.stateFile.map PersistedState.currentTerm).getD 0 else 0)

theorem loadState_currentTerm (n : RaftNode) : n.loadState.currentTerm = n.startTerm := by
  unfold loadState startTerm
  split
  · cases n.stateFile with
    | none => simp
    | some s =>
      by_cases hlt : s.currentTerm > n.currentTerm
      · simp [hlt, max_eq_right hlt.le]
      · simp [hlt, max_eq_left (Nat.not_lt.mp hlt)]
  · simp

theorem loadState_eq (n : RaftNode) : ∃ v, n.loadState =
    { n with currentTerm := n.startTerm, votedFor := v } := by
  rw [← loadState_currentTerm]
  unfold loadState
  split
  · split
    · split <;> exact ⟨_, rfl⟩
    · exact ⟨_, rfl⟩
  · exact ⟨_, rfl⟩

theorem start_eq (n : RaftNode) (h : n.running = false) :
    n.start = { n.becomeFollower n.startTerm with
      running := true
      electionTimeout := !n.config.nonVoting && !n.electionsPaused } := by
  obtain ⟨v, hv⟩ := loadState_eq { n with running := true }
  simp only [start, h, Bool.false_eq_true, ↓reduceIte, hv]
  rfl

theorem addPeers_eq (known : List (NodeId × Bool)) (n : RaftNode) (h : Refs n) :
    ∃ peers nextRef, addPeers known n = { n with peers := peers, nextRef := nextRef } ∧
      Refs { n with peers := peers, nextRef := nextRef } := by
  induction known generalizing n with
  | nil => exact ⟨n.peers, n.nextRef, rfl, h⟩
  | cons k known ih =>
    obtain ⟨peers, nextRef, heq, href⟩ := ih (n.addPeer k.1 k.2) (refs_addPeer h k.1 k.2)
    refine ⟨peers, nextRef, ?_, ?_⟩
    · simp only [addPeers, List.foldl_cons] at heq ⊢
      rw [heq]
      unfold addPeer
      split <;> rfl
    · revert href
      unfold addPeer
      split <;> exact fun h => h

theorem refs_empty {n : RaftNode} (h : n.peers = .empty) : Refs n := by
  intro p hp
  rw [h] at hp
  cases hp

theorem restart_eq (known : List (NodeId × Bool)) (n : RaftNode) :
    ∃ peers nextRef T, n.restart known =
      { config := n.config
        currentTerm := T
        peers := peers
        electionTimeout := !n.config.nonVoting
        running := true
        epoch := n.epoch + 1
        nextRef := nextRef
        stateFile := if n.persistent then some ⟨T, none⟩ else n.stateFile
        sent := n.sent
        emitted := n.emitted ++ [.stateChange .follower T]
        votes := n.votes
        led := n.led
        tenure := n.tenure
        held := n.held
        resolved := n.resolved } ∧
      Refs (n.restart known) ∧
      T = if n.persistent then (n.stateFile.map PersistedState.currentTerm).getD 0 else 0 := by
  obtain ⟨peers, nextRef, heq, href⟩ := addPeers_eq known
    { config := n.config
      epoch := n.epoch + 1
      stateFile := n.stateFile
      sent := n.sent
      emitted := n.emitted
      votes := n.votes
      led := n.led
      tenure := n.tenure
      held := n.held
      resolved := n.resolved } (refs_empty rfl)
  refine ⟨peers, nextRef, _, ?_, ?_, rfl⟩
  · rw [restart, heq, start_eq _ rfl]
    simp only [startTerm, Nat.zero_max, Bool.not_false, Bool.and_true]
    rfl
  · rw [restart, heq, start_eq _ rfl]
    exact href

theorem boot_eq (config : RaftConfig) (known : List (NodeId × Bool)) :
    ∃ peers nextRef, boot config known =
      { config := config
        peers := peers
        electionTimeout := !config.nonVoting
        running := true
        nextRef := nextRef
        stateFile := if (boot config known).persistent then some ⟨0, none⟩ else none
        emitted := [.stateChange .follower 0] } ∧
      Refs (boot config known) := by
  obtain ⟨peers, nextRef, heq, href⟩ := addPeers_eq known { config } (refs_empty rfl)
  refine ⟨peers, nextRef, ?_, ?_⟩
  · rw [boot, heq, start_eq _ rfl]
    simp only [startTerm, Option.map_none, Option.getD_none, ite_self, Nat.max_zero,
      Bool.not_false, Bool.and_true]
    rfl
  · rw [boot, heq, start_eq _ rfl]
    exact href

end ClaudeCluster.Raft.RaftNode
