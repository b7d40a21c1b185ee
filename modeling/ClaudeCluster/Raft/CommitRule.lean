import Mathlib.Order.Bounds.Basic
import ClaudeCluster.Raft.Durability

/-!
# The commit index

`updateCommitIndex` sorts the match indices and looks at one of them and at the
term of one entry. On a well formed log that is the rule of the protocol: the
greatest index of the term that a quorum has reached (`updateCommitIndex_rule`),
with the quorum `startElection` asks for. What is committed so stays
(`reach_permanent`), in the runs in which nothing else commits.
-/

namespace ClaudeCluster.Raft

open RaftNode
open Lib.History (Majority)

-- ---------------------------------------------------------------------------
-- The rule
-- ---------------------------------------------------------------------------

namespace RaftNode

def voterCount (n : RaftNode) : Nat := n.votingPeers.length + 1

/-- How many voters have a match index of at least `N`, the node itself with
its last index. -/
def reached (n : RaftNode) (N : Nat) : Nat :=
  n.votingPeers.countP (N ≤ ·.matchIndex) + if N ≤ n.getLastLogIndex then 1 else 0

/-- An index the protocol lets a leader commit. -/
structure Committable (n : RaftNode) (N : Nat) : Prop where
  later : n.commitIndex < N
  ofTerm : ∃ e, n.log[N - 1]? = some e ∧ e.term = n.currentTerm
  quorum : n.voterCount / 2 + 1 ≤ n.reached N

section
variable {n : RaftNode} {N : Nat}

theorem length_matchIndices (n : RaftNode) : n.matchIndices.length = n.voterCount := by
  simp [matchIndices, voterCount]

theorem countP_matchIndices (n : RaftNode) (N : Nat) :
    n.matchIndices.countP (N ≤ ·) = n.reached N := by
  rw [matchIndices, List.countP_cons, List.countP_map, reached]
  simp [Function.comp_def]

theorem majorityAt_iff : n.MajorityAt N ↔ n.voterCount / 2 + 1 ≤ n.reached N := by
  rw [MajorityAt, length_matchIndices, countP_matchIndices]
  omega

theorem newCommitIndex_le_length (hlog : WellFormed n.log n.currentTerm)
    (hmatch : ∀ p ∈ n.votingPeers, p.matchIndex ≤ n.log.length) :
    n.newCommitIndex ≤ n.log.length := by
  rcases List.mem_cons.mp n.newCommitIndex_mem with heq | hmem
  · rw [heq, getLastLogIndex, hlog.lastLogIndex]
  · obtain ⟨p, hp, heq⟩ := List.mem_map.mp hmem
    exact heq ▸ hmatch p hp

theorem committable_newCommitIndex (hc : n.canAdvance) : n.Committable n.newCommitIndex := by
  obtain ⟨hlt, hterm⟩ := canAdvance_iff.mp hc
  refine ⟨hlt, hterm, ?_⟩
  have hcount := lt_countP_insertionSort n.getElem?_newCommitIndex
  rw [countP_matchIndices, length_matchIndices] at hcount
  exact hcount

theorem Committable.le_updateCommitIndex (h : n.Committable N)
    (hlog : WellFormed n.log n.currentTerm)
    (hmatch : ∀ p ∈ n.votingPeers, p.matchIndex ≤ n.log.length) :
    N ≤ n.updateCommitIndex.commitIndex := by
  obtain ⟨e, hget, hterm⟩ := h.ofTerm
  exact (majorityAt_iff.mpr h.quorum).le_commitIndex hlog (newCommitIndex_le_length hlog hmatch)
    (Nat.zero_lt_of_lt h.later) hget hterm

theorem startElection_elections (n : RaftNode) : ∃ e, n.startElection.elections =
    n.elections ++ [e] ∧ e.votesNeeded = n.voterCount / 2 + 1 :=
  ⟨_, rfl, rfl⟩

end

end RaftNode

/-- The commit index moves to the greatest index the protocol allows and stays
where there is none; an election needs as many votes as a commit needs voters,
so a quorum of the one kind meets every quorum of the other. -/
theorem updateCommitIndex_rule {n : RaftNode} (hlog : WellFormed n.log n.currentTerm)
    (hmatch : ∀ p ∈ n.votingPeers, p.matchIndex ≤ n.log.length) :
    (IsGreatest {N | n.Committable N} n.updateCommitIndex.commitIndex ∨
      {N | n.Committable N} = ∅ ∧ n.updateCommitIndex.commitIndex = n.commitIndex) ∧
    ∃ e, n.startElection.elections = n.elections ++ [e] ∧
      e.votesNeeded = n.voterCount / 2 + 1 ∧
      ∀ V A B : Finset NodeId, V.card = n.voterCount → A ⊆ V → B ⊆ V →
        n.voterCount / 2 + 1 ≤ A.card → e.votesNeeded ≤ B.card → (A ∩ B).Nonempty := by
  constructor
  · have hmax : ∀ N, n.Committable N → N ≤ n.updateCommitIndex.commitIndex :=
      fun N hN => hN.le_updateCommitIndex hlog hmatch
    cases hc : n.canAdvance with
    | true =>
      refine .inl ⟨?_, hmax⟩
      rw [updateCommitIndex_eq, if_pos hc]
      exact committable_newCommitIndex hc
    | false =>
      have hsame : n.updateCommitIndex = n := by
        rw [updateCommitIndex_eq, hc]
        rfl
      refine .inr ⟨Set.eq_empty_iff_forall_notMem.mpr fun N hN => ?_, by rw [hsame]⟩
      have hle := hmax N hN
      rw [hsame] at hle
      exact absurd hN.later (Nat.not_lt.mpr hle)
  · obtain ⟨e, he, hneed⟩ := n.startElection_elections
    refine ⟨e, he, hneed, fun V A B hV hA hB hcA hcB => ?_⟩
    refine Finset.inter_nonempty_of_card_lt_card_add_card hA hB ?_
    omega

/-- A leader of term 2 with an entry of the term before, and two voting peers of
which one has both entries. -/
def secondTerm : RaftNode where
  config := { nodeId := "a" }
  state := .leader
  currentTerm := 2
  log := [⟨1, 1, .noop, []⟩, ⟨2, 2, .noop, []⟩]
  peers := (PeerMap.empty.set ⟨"b", 3, 2, true, 0⟩).set ⟨"c", 2, 1, true, 1⟩

theorem secondTerm_commits : IsGreatest {N | secondTerm.Committable N} 2 := by
  have hlog : WellFormed secondTerm.log secondTerm.currentTerm :=
    ((WellFormed.nil.concat (T := 1) rfl rfl).mono (Nat.le_succ 1)).concat rfl rfl
  rcases (updateCommitIndex_rule hlog (by decide)).1 with h | ⟨-, h⟩
  · exact h
  · exact absurd h (by decide)

-- ---------------------------------------------------------------------------
-- Permanence
-- ---------------------------------------------------------------------------

structure Retains (n n' : RaftNode) : Prop where
  commitIndex : n.commitIndex ≤ n'.commitIndex
  log : n.log.take n.commitIndex <+: n'.log

section
variable {V : Finset NodeId} {w w' : Cluster} {id : NodeId} {n n' n'' : RaftNode} {env : Env}

theorem Retains.refl (n : RaftNode) : Retains n n := ⟨le_refl _, List.take_prefix _ _⟩

theorem Retains.trans (h : Retains n n') (h' : Retains n' n'') : Retains n n'' := by
  refine ⟨h.commitIndex.trans h'.commitIndex, List.IsPrefix.trans ?_ h'.log⟩
  have hlen : (n.log.take n.commitIndex).length ≤ n'.commitIndex := by
    rw [List.length_take]
    exact (Nat.min_le_left _ _).trans h.commitIndex
  exact List.prefix_take_iff.mpr ⟨h.log, hlen⟩

/-- Every move of a running process keeps what it has committed. -/
theorem Agreed.retains (h : Agreed V w) (hp : ∀ p, env.packet p → w.Arrives id p)
    (hm : Move env (w.node id) n') (hep : n'.epoch = (w.node id).epoch) :
    Retains (w.node id) n' := by
  have hset := h.settled id
  have hlog := (h.replicated.sound.formed id).log
  generalize hn : w.node id = n at *
  cases hm with
  | quiet q => exact ⟨q.commitIndex.ge, q.log ▸ List.take_prefix _ _⟩
  | push => exact ⟨le_refl _, (List.take_prefix _ _).trans (List.prefix_append _ _)⟩
  | @accept c _ hpc hT hcons =>
    subst hn
    exact ⟨le_refl _, h.take_isPrefix_splice (h.replicated.cuts.arrives (hp _ hpc)) hT hcons⟩
  | commit =>
    rw [commitTo_eq]
    split
    case isTrue hgt =>
      refine ⟨?_, List.take_prefix _ _⟩
      have hle := hset.commit_le
      rw [← hlog.lastLogIndex] at hle
      exact le_min hgt.le hle
    case isFalse => exact .refl n
  | advance =>
    exact ⟨le_updateCommitIndex n, updateCommitIndex_keeps
      (P := fun m => n.log.take n.commitIndex <+: m.log) (List.take_prefix _ _)
      fun _ => List.take_prefix _ _⟩
  | @reboot _ known =>
    obtain ⟨peers, nextRef, T, heq, -⟩ := restart_eq known n
    rw [heq] at hep
    exact absurd hep (Nat.succ_ne_self _)
  | _ => exact ⟨le_refl _, List.take_prefix _ _⟩

structure Lasting (V : Finset NodeId) (id : NodeId) (n : RaftNode) (w : Cluster) : Prop where
  agreed : Agreed V w
  epoch : n.epoch ≤ (w.node id).epoch
  retains : (w.node id).epoch = n.epoch → Retains n (w.node id)

theorem Lasting.move {x : NodeId} (h : Lasting V id n w)
    (hm : Move ((commitRules V).env w x) (w.node x) n') (hfresh : w.Fresh x n') :
    Lasting V id n (w.set x n') := by
  refine ⟨h.agreed.move committingRules_committing hm hfresh, ?_, fun hep => ?_⟩
  · exact h.epoch.trans (Cluster.grown_set hm.grows id).epoch
  · by_cases hx : id = x
    · subst hx
      rw [Cluster.set_node_self] at hep ⊢
      have hgrow := hm.grows.epoch
      have hsame : (w.node id).epoch = n.epoch := le_antisymm (hep ▸ hgrow) h.epoch
      exact (h.retains hsame).trans
        (h.agreed.retains ((commitRules V).packet w id) hm (hep.trans hsame.symm))
    · rw [Cluster.set_node_ne w n' hx] at hep ⊢
      exact h.retains hep

/-- Commit permanence: while a process runs its commit index does not fall, is
not past its log, and what lies below it is neither removed nor replaced. -/
theorem reach_permanent (h : system.Reach (CommitGuard V) w)
    (hrun : (system.after w).Reach (CommitGuard V) w') (hone : OneLeader w')
    (hep : (w'.node id).epoch = (w.node id).epoch) :
    (w.node id).commitIndex ≤ (w'.node id).commitIndex ∧
      (w'.node id).commitIndex ≤ (w'.node id).log.length ∧
      ∀ i < (w.node id).commitIndex, (w'.node id).log[i]? = (w.node id).log[i]? := by
  have hA : Agreed V w := Reach.agreed h (hone.anti (Reach.grown hrun))
  have hlast : Lasting V id (w.node id) w' := by
    refine hrun.invariant (I := fun v => OneLeader v → Lasting V id (w.node id) v) ?_ ?_ hone
    · rintro _ rfl _
      exact ⟨hA, le_refl _, fun _ => .refl _⟩
    · exact fun _ _ _ _ hI hg hs => Rules.step_oneLeader commitRules_guard (fun _ h => h.agreed)
        (fun _ _ _ hI hm hf => hI.move hm hf) hI hg hs
  have hext := hlast.retains hep
  refine ⟨hext.commitIndex, (hlast.agreed.settled id).commit_le, fun i hi => ?_⟩
  have hlen : i < (w.node id).log.length := hi.trans_le (hA.settled id).commit_le
  rw [List.getElem?_eq_getElem hlen]
  refine Lib.getElem?_of_isPrefix hext.log ?_
  rw [List.getElem?_take_of_lt hi, List.getElem?_eq_getElem hlen]

end

def taskToB : List Action := [.input "a" (.appendEntry .taskSubmit [3]), .deliver "a" 6]

theorem trio_permanent : ∃ w w', system.Reach (CommitGuard trioVoters) w ∧
    (system.after w).Reach (CommitGuard trioVoters) w' ∧
    ((w.node "b").commitIndex = 1 ∧ (w'.node "b").log.length = 2) ∧
    (w'.node "b").log[0]? = (w.node "b").log[0]? := by
  let G := fun w a => ElectionGuard trioVoters w a ∧ CommitGuard trioVoters w a
  have hcommit : ∀ w a, G w a → CommitGuard trioVoters w a := fun _ _ h => h.2
  obtain ⟨w, w', hw, hrun, hb, hlen, hep⟩ := Lib.System.Reach.replay_on (M := system) (G := G)
    (P := fun w w' => (w.node "b").commitIndex = 1 ∧ (w'.node "b").log.length = 2 ∧
      (w'.node "b").epoch = (w.node "b").epoch)
    trio_booted tellB taskToB (by decide +kernel)
  have hone : OneLeader w' :=
    (Reach.electoral ((hw.trans hrun).mono fun _ _ h => h.1)).oneLeader
  have hperm := reach_permanent (hw.mono hcommit) (hrun.mono hcommit) hone hep
  exact ⟨w, w', hw.mono hcommit, hrun.mono hcommit, ⟨hb, hlen⟩, hperm.2.2 0 (by omega)⟩

/-- `c` believes `b` to have its log, is refused, and sends the entry `b` has
another committed in place of. -/
def staleReplaced : List Action :=
  [.deliver "b" 8, .input "c" .heartbeat, .deliver "c" 14, .deliver "b" 9, .input "c" .heartbeat,
    .deliver "c" 16]

theorem staleTail_replaced :
    ∃ w w', system.Reach (fun w a => OneVotingSet trioVoters w a ∧ NoRestart w a) w ∧
      (system.after w).Reach (fun w a => OneVotingSet trioVoters w a ∧ NoRestart w a) w' ∧
      OneLeader w' ∧ ∃ i < (w.node "b").commitIndex,
        (w'.node "b").log[i]? ≠ (w.node "b").log[i]? := by
  let G := fun w a => ElectionGuard trioVoters w a ∧ NoRestart w a
  have hG : ∀ w a, G w a → OneVotingSet trioVoters w a ∧ NoRestart w a :=
    fun _ _ h => ⟨h.1.1, h.2⟩
  obtain ⟨w, w', hw, hrun, hlt, hne⟩ := Lib.System.Reach.replay_on (M := system) (G := G)
    (P := fun w w' => 1 < (w.node "b").commitIndex ∧
      (w'.node "b").log[1]? ≠ (w.node "b").log[1]?)
    (s := oneByOne) (fun _ => ⟨_, _, rfl, rfl⟩) staleTail staleReplaced (by decide +kernel)
  have hone : OneLeader w' :=
    (Reach.electoral ((hw.trans hrun).mono fun _ _ h => h.1)).oneLeader
  exact ⟨w, w', hw.mono hG, hrun.mono hG, hone, 1, hlt, hne⟩

end ClaudeCluster.Raft
