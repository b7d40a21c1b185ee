import ClaudeCluster.Raft.Replication

/-!
# Commitment

`updateCommitIndex` takes the majority position of the sorted `matchIndex`
values. At a leader, where these are what its peers have held in its term
(`Acked`), the log up to there is `Committed` in the sense of `Lib.History`:
every later leader has it, and nobody who held it has lost it. `Agreed`
carries this through runs, to `commitIndex`, to `leaderCommit` of every request
and to every `entryCommitted` event.
-/

namespace ClaudeCluster.Raft

open RaftNode
open Lib (CutFrom)
open Lib.History (Matching Keeping Electing Committed Majority AtLeast)

-- ---------------------------------------------------------------------------
-- The majority position
-- ---------------------------------------------------------------------------

theorem lt_countP_insertionSort {l : List Nat} {k x : Nat}
    (h : (l.insertionSort (· ≥ ·))[k]? = some x) : k < l.countP (x ≤ ·) := by
  have hsorted := List.pairwise_insertionSort (· ≥ ·) l
  rw [← (List.perm_insertionSort (· ≥ ·) l).countP_eq]
  generalize l.insertionSort (· ≥ ·) = s at h hsorted
  have hk : k < s.length := (List.getElem?_eq_some_iff.mp h).1
  have htake : ∀ y ∈ s.take (k + 1), x ≤ y := by
    intro y hy
    obtain ⟨i, hi⟩ := List.mem_iff_getElem?.mp hy
    have hik : i < k + 1 := by
      have hlen := (List.getElem?_eq_some_iff.mp hi).1
      rw [List.length_take] at hlen
      omega
    rw [List.getElem?_take_of_lt hik] at hi
    obtain ⟨hi', rfl⟩ := List.getElem?_eq_some_iff.mp hi
    obtain ⟨hk', rfl⟩ := List.getElem?_eq_some_iff.mp h
    rcases Nat.lt_succ_iff_lt_or_eq.mp hik with hlt | rfl
    · exact List.pairwise_iff_getElem.mp hsorted i k hi' hk' hlt
    · exact le_refl _
  calc k < (s.take (k + 1)).length := by rw [List.length_take]; omega
    _ = (s.take (k + 1)).countP (x ≤ ·) := by
      rw [eq_comm, List.countP_eq_length]
      simpa using htake
    _ ≤ s.countP (x ≤ ·) := (List.take_sublist _ _).countP_le

theorem le_getElem_insertionSort {l : List Nat} {k x y : Nat} (hk : k < l.countP (x ≤ ·))
    (hy : (l.insertionSort (· ≥ ·))[k]? = some y) : x ≤ y := by
  have hsorted := List.pairwise_insertionSort (· ≥ ·) l
  rw [← (List.perm_insertionSort (· ≥ ·) l).countP_eq] at hk
  generalize l.insertionSort (· ≥ ·) = s at hk hy hsorted
  by_contra hlt
  obtain ⟨hlen, rfl⟩ := List.getElem?_eq_some_iff.mp hy
  have hdrop : (s.drop k).countP (x ≤ ·) = 0 := by
    rw [List.countP_eq_zero]
    intro z hz
    rw [List.drop_eq_getElem_cons hlen, List.mem_cons] at hz
    have hzk : z ≤ s[k] := by
      rcases hz with rfl | hz
      · exact le_refl _
      · rw [← List.take_append_drop k s, List.drop_eq_getElem_cons hlen] at hsorted
        exact (List.pairwise_cons.mp (List.pairwise_append.mp hsorted).2.1).1 z hz
    simp only [decide_eq_true_eq]
    omega
  rw [← List.take_append_drop k s, List.countP_append, hdrop] at hk
  have htake := List.countP_le_length (p := fun y => decide (x ≤ y)) (l := s.take k)
  rw [List.length_take] at htake
  omega

namespace RaftNode

/-- The voting peers counted up to `N`, and the node itself. -/
def holders (n : RaftNode) (N : Nat) : Finset NodeId :=
  insert n.nodeId ((n.votingPeers.filter (N ≤ ·.matchIndex)).map PeerInfo.nodeId).toFinset

variable {n : RaftNode}

theorem not_mem_votingPeers (h : Refs n) : n.nodeId ∉ n.votingPeers.map PeerInfo.nodeId := by
  intro hmem
  obtain ⟨p, hp, hpid⟩ := List.mem_map.mp hmem
  exact (h p (List.mem_of_mem_filter hp)).1 hpid

theorem nodup_votingPeers (n : RaftNode) : (n.votingPeers.map PeerInfo.nodeId).Nodup :=
  n.peers.nodup.sublist (List.filter_sublist.map _)

theorem card_holders (h : Refs n) (N : Nat) :
    (n.holders N).card = n.votingPeers.countP (N ≤ ·.matchIndex) + 1 := by
  have hsub : ((n.votingPeers.filter (N ≤ ·.matchIndex)).map PeerInfo.nodeId).Sublist
      (n.votingPeers.map PeerInfo.nodeId) := List.filter_sublist.map _
  rw [holders, Finset.card_insert_of_notMem, List.toFinset_card_of_nodup, List.length_map,
    ← List.countP_eq_length_filter]
  · exact n.nodup_votingPeers.sublist hsub
  · rw [List.mem_toFinset]
    exact fun hmem => not_mem_votingPeers h (hsub.subset hmem)

theorem holders_subset {V : Finset NodeId} (hid : n.nodeId ∈ V)
    (hv : n.voters = V.erase n.nodeId) (N : Nat) : n.holders N ⊆ V := by
  rw [holders, ← Finset.insert_erase hid, ← hv]
  refine Finset.insert_subset_insert _ fun v hmem => ?_
  rw [List.mem_toFinset] at hmem
  exact List.mem_toFinset.mpr ((List.filter_sublist.map _).subset hmem)

theorem getElem?_newCommitIndex (n : RaftNode) :
    (n.matchIndices.insertionSort (· ≥ ·))[n.matchIndices.length / 2]? =
      some n.newCommitIndex := by
  have hpos : 0 < n.matchIndices.length := by simp [matchIndices]
  have hlt : n.matchIndices.length / 2 < (n.matchIndices.insertionSort (· ≥ ·)).length := by
    rw [List.length_insertionSort]
    omega
  rw [newCommitIndex, List.getElem?_eq_getElem hlt, Option.getD_some]

theorem majority_holders {V : Finset NodeId} (h : Refs n) (hid : n.nodeId ∈ V)
    (hv : n.voters = V.erase n.nodeId) : Majority V (n.holders n.newCommitIndex) := by
  refine ⟨holders_subset hid hv _, ?_⟩
  have hlen : n.matchIndices.length = V.card := by
    have hcard : n.voters.card = n.votingPeers.length := by
      rw [voters, List.toFinset_card_of_nodup n.nodup_votingPeers, List.length_map]
    rw [matchIndices, List.length_cons, List.length_map, ← hcard, hv,
      Finset.card_erase_add_one hid]
  have hcount := lt_countP_insertionSort n.getElem?_newCommitIndex
  have hle : n.matchIndices.countP (n.newCommitIndex ≤ ·) ≤
      n.votingPeers.countP (n.newCommitIndex ≤ ·.matchIndex) + 1 := by
    rw [matchIndices, List.countP_cons, List.countP_map]
    refine Nat.add_le_add (le_of_eq rfl) ?_
    split <;> omega
  rw [card_holders h]
  omega

theorem canAdvance_iff : n.canAdvance ↔ n.commitIndex < n.newCommitIndex ∧
    ∃ e, n.log[n.newCommitIndex - 1]? = some e ∧ e.term = n.currentTerm := by
  simp [canAdvance, Option.any_eq_true]

end RaftNode

-- ---------------------------------------------------------------------------
-- What a leader commits
-- ---------------------------------------------------------------------------

section
variable {D : Set NodeId} {w : Cluster} {V : Finset NodeId} {id : NodeId}

/-- Whoever a leader counts up to `N` has held its log up to `N`. -/
theorem Replicated.held_of_holders (h : Replicated D w) (hs : (w.node id).state = .leader)
    {N : Nat} (hpos : 0 < N) (hN : N ≤ (w.node id).log.length) :
    ∀ v ∈ (w.node id).holders N, ∃ l ∈ w.history.held v (w.node id).currentTerm,
      (w.node id).log.take N <+: l := by
  intro v hv
  rw [holders, (h.sound.formed id).nodeId] at hv
  rcases Finset.mem_insert.mp hv with rfl | hv
  · exact ⟨_, h.keeping.leader v hs, List.take_prefix _ _⟩
  · obtain ⟨p, hp, rfl⟩ := List.mem_map.mp (List.mem_toFinset.mp hv)
    obtain ⟨hp, hle⟩ := List.mem_filter.mp hp
    have hle : N ≤ p.matchIndex := of_decide_eq_true hle
    rcases h.acked id hs p (List.mem_of_mem_filter hp) with hzero | ⟨l, hl, hlast⟩
    · omega
    · have hheld : l ∈ w.history.held p.nodeId (w.node id).currentTerm := .inl hl
      have hlen : lastLogIndex l = l.length := ((h.sound.formed _).held _ l hl).lastLogIndex
      refine ⟨l, hheld, ?_⟩
      refine List.prefix_of_prefix_length_le (List.take_prefix _ _) (h.held_isPrefix hs hheld) ?_
      rw [List.length_take]
      omega

theorem Replicated.committed (h : Replicated D w) (hs : (w.node id).state = .leader)
    (hid : id ∈ V) (hv : (w.node id).voters = V.erase id) (hc : (w.node id).canAdvance) :
    (w.node id).newCommitIndex ≤ (w.node id).log.length ∧
      Committed LogEntry.term V w.history (w.node id).currentTerm
        ((w.node id).log.take (w.node id).newCommitIndex) := by
  obtain ⟨hlt, e, he, hterm⟩ := canAdvance_iff.mp hc
  have hpos : 0 < (w.node id).newCommitIndex := Nat.zero_lt_of_lt hlt
  have hN : (w.node id).newCommitIndex ≤ (w.node id).log.length := by
    have := (List.getElem?_eq_some_iff.mp he).1
    omega
  have hname := (h.sound.formed id).nodeId
  have hmaj := majority_holders (V := V) (h.sound.traffic id).refs (by rwa [hname]) (by rwa [hname])
  refine ⟨hN, ⟨e, ?_, hterm⟩, _, hmaj, h.held_of_holders hs hpos hN⟩
  rw [List.getLast?_take, if_neg hpos.ne', he, Option.some_or]

end

-- ---------------------------------------------------------------------------
-- Decided logs
-- ---------------------------------------------------------------------------

def Cluster.Decided (w : Cluster) (V : Finset NodeId) (U : Nat) (q : List LogEntry) : Prop :=
  q = [] ∨ ∃ T ≤ U, ∃ q', Committed LogEntry.term V w.history T q' ∧ q <+: q'

def Cluster.Final (w : Cluster) (V : Finset NodeId) (e : LogEntry) : Prop :=
  ∃ U q, w.Decided V U q ∧ 0 < e.index ∧ q[e.index - 1]? = some e

section
variable {w w' : Cluster} {V : Finset NodeId} {U U' : Nat} {q : List LogEntry} {e : LogEntry}

theorem Cluster.Grown.held (hg : w.Grown w') (id : NodeId) (T : Nat) :
    w.history.held id T ⊆ w'.history.held id T := by
  rintro l (hl | hl)
  · exact .inl ((hg id).held hl)
  · exact .inr ((hg id).tenure hl)

theorem Cluster.Decided.mono (h : w.Decided V U q) (hg : w.Grown w') (hU : U ≤ U') :
    w'.Decided V U' q := by
  refine h.imp_right ?_
  rintro ⟨T, hT, q', hc, hq⟩
  exact ⟨T, hT.trans hU, q', hc.mono hg.held, hq⟩

theorem Cluster.Final.mono (h : w.Final V e) (hg : w.Grown w') : w'.Final V e := by
  obtain ⟨U, q, hd, hrest⟩ := h
  exact ⟨U, q, hd.mono hg (le_refl U), hrest⟩

end

/-- What a node has committed, sent on as committed and applied is decided. -/
structure Settled (V : Finset NodeId) (w : Cluster) (n : RaftNode) : Prop where
  commit_le : n.commitIndex ≤ n.log.length
  decided : w.Decided V n.currentTerm (n.log.take n.commitIndex)
  emitted : ∀ e, .entryCommitted e ∈ n.emitted → w.Final V e
  requests : ∀ c, .appendEntries c ∈ n.sent → ∃ s ∈ w.history.tenure c.request.term,
    c.request.leaderCommit ≤ s.length ∧
      w.Decided V c.request.term (s.take c.request.leaderCommit)

section
variable {w w' : Cluster} {V : Finset NodeId} {id : NodeId} {n n' : RaftNode} {env : Env}

theorem Settled.mono (hg : w.Grown w') (h : Settled V w n) : Settled V w' n := by
  refine ⟨h.commit_le, h.decided.mono hg (le_refl _), fun e he => (h.emitted e he).mono hg, ?_⟩
  intro c hc
  obtain ⟨s, hs, hle, hd⟩ := h.requests c hc
  exact ⟨s, hg.tenure _ hs, hle, hd.mono hg (le_refl _)⟩

theorem Settled.commitAt (h : Settled V w n) (hf : WellFormed n.log n.currentTerm) {c : Nat}
    (hc : c ≤ n.log.length) (hd : w.Decided V n.currentTerm (n.log.take c)) :
    Settled V w (n.commitAt c) := by
  refine ⟨hc, hd, ?_, h.requests⟩
  intro e he
  rcases List.mem_append.mp he with he | he
  · exact h.emitted e he
  · obtain ⟨x, hx, hxe⟩ := List.mem_map.mp he
    cases hxe
    obtain ⟨i, hlo, hi, hget⟩ := mem_nextEntries hx
    have hidx := hf.index i e hget
    refine ⟨_, _, hd, by omega, ?_⟩
    rw [hidx, Nat.add_sub_cancel, List.getElem?_take_of_lt (by omega)]
    exact hget

theorem Settled.keep (h : Settled V w n) (hcommit : n'.commitIndex = n.commitIndex)
    (hterm : n.currentTerm ≤ n'.currentTerm) (hlog : n.log.take n.commitIndex <+: n'.log)
    (hemit : ∀ e, .entryCommitted e ∈ n'.emitted → .entryCommitted e ∈ n.emitted)
    (hsent : ∀ c, .appendEntries c ∈ n'.sent → .appendEntries c ∈ n.sent) : Settled V w n' := by
  have hlen : (n.log.take n.commitIndex).length = n.commitIndex := by
    rw [List.length_take, Nat.min_eq_left h.commit_le]
  have htake : n'.log.take n'.commitIndex = n.log.take n.commitIndex := by
    rw [hcommit]
    nth_rewrite 1 [← hlen]
    exact (List.prefix_iff_eq_take.mp hlog).symm
  refine ⟨?_, ?_, fun e he => h.emitted e (hemit e he), fun c hc => h.requests c (hsent c hc)⟩
  · rw [hcommit, ← hlen]
    exact hlog.length_le
  · rw [htake]
    exact h.decided.mono (Cluster.Grown.refl w) hterm

end

-- ---------------------------------------------------------------------------
-- Elections
-- ---------------------------------------------------------------------------

structure Rules.Committing (V : Finset NodeId) (R : Rules) : Prop extends R.Replicating V where
  campaign : ∀ w id v, (R.env w id).campaign v → id ∈ V ∧ v = V.erase id
  win : ∀ w id n e, (R.env w id).win n e → e.term = n.currentTerm
  advance : ∀ w id n, (R.env w id).advance n → n.state = .leader ∧
    (id ∈ V → n.voters = V.erase id)

section
variable {w : Cluster} {V : Finset NodeId} {id : NodeId} {n' : RaftNode} {env : Env}

theorem UpToDate.atLeast {l lv : List LogEntry} {T T' : Nat} (h : UpToDate l lv)
    (hl : WellFormed l T) (hlv : WellFormed lv T') : AtLeast LogEntry.term l lv := by
  refine h.imp (fun hlt => hlt) ?_
  rintro ⟨hterm, hidx⟩
  rw [hl.lastLogIndex, hlv.lastLogIndex] at hidx
  exact ⟨hterm, hidx⟩

theorem Cluster.Formed.tenure_le (h : w.Formed) :
    ∀ T s, s ∈ w.history.tenure T → ∀ e ∈ s, e.term ≤ T := by
  rintro T s ⟨x, hx⟩
  exact ((h x).tenure T s hx).bound

theorem Op.electing {h' : Lib.History NodeId LogEntry} (h : Replicated V w)
    (hE : Electing LogEntry.term V w.history) (hf : Franchise V id (w.node id))
    (hcut : ∀ c, env.packet (.appendEntries c) → w.Cut c.request)
    (hwin : ∀ n e, env.win n e → e.term = n.currentTerm)
    (hreboot : ∀ n, env.reboot n → n.persistent ∧ (id ∈ (V : Set NodeId) → n.log = []))
    (hfresh : w.Fresh id n') (hop : Op env w id n' h') : Electing LogEntry.term V h' := by
  cases hop with
  | same => exact hE
  | raise hT => exact hE.raise hT
  | campaign => exact hE.campaign h.matching h.keeping (fun _ hv => hv) id
  | grant => exact hE.grant h.matching h.keeping (fun _ hv => hv) id _
  | @elect e hs he hv hw hmark =>
    obtain ⟨hid, hel⟩ := hf e he
    have htraffic := h.sound.traffic id
    obtain ⟨hQ, hback⟩ := (htraffic.elections e he).majority (htraffic.stood e he) hv hid hel
    have hempty := hfresh hs hmark
    refine hE.elect h.matching hempty (h.sound.formed id).log.bound hQ fun v hvQ => ?_
    obtain ⟨l, lv, hl, hlv, hup⟩ := hback v hvQ
    rw [hwin _ _ hw] at hl hlv
    -- the candidate's log is still the one it voted for itself over
    have hown : (w.node id).log = l := hE.own id hid _ l hl rfl hempty
    refine ⟨lv, hlv, ?_⟩
    rw [show w.history.log id = l from hown]
    exact hup.atLeast ((h.sound.formed id).votes _ hl) ((h.sound.formed v).votes _ hlv)
  | push hs => exact hE.push h.matching hs
  | accept hp hT =>
    obtain ⟨s, hs, -⟩ := hcut _ hp
    rw [hT] at hs
    exact hE.accept hs
  | @reset T hr hT =>
    obtain ⟨hp, hlog⟩ := hreboot _ hr
    have hle : w.history.term id ≤ T := by
      rw [hT hp, (h.filed id).file hp]
      exact le_refl _
    by_cases hid : id ∈ V
    · rw [Lib.History.reset_eq_raise (hlog hid)]
      exact hE.raise hle
    · exact hE.reset hid hle

end

-- ---------------------------------------------------------------------------
-- Agreement
-- ---------------------------------------------------------------------------

structure Agreed (V : Finset NodeId) (w : Cluster) : Prop where
  replicated : Replicated V w
  franchise : ∀ id, Franchise V id (w.node id)
  member : ∀ id, (w.node id).state = .leader → id ∈ V
  electing : Electing LogEntry.term V w.history
  settled : ∀ id, Settled V w (w.node id)

section
variable {w w' : Cluster} {V : Finset NodeId} {id : NodeId} {n' : RaftNode} {env : Env}

theorem Cluster.Decided.of_isPrefix {U : Nat} {p q : List LogEntry} (h : w.Decided V U q)
    (hp : p <+: q) : w.Decided V U p := by
  rcases h with rfl | ⟨T, hT, q', hc, hq⟩
  · exact .inl (List.prefix_nil.mp hp)
  · exact .inr ⟨T, hT, q', hc, hp.trans hq⟩

/-- What a leader said was committed is decided for a follower that has held
its log for this leader, as far as its log goes. -/
theorem Agreed.decided_commitTo (h : Agreed V w) {c : AppendCall}
    (hp : w.Arrives id (.appendEntries c)) (hT : c.request.term = (w.node id).currentTerm)
    (hheld : ((w.node id).currentTerm, (w.node id).log) ∈ (w.node id).held) {k : Nat}
    (hk : k ≤ c.request.leaderCommit) :
    w.Decided V (w.node id).currentTerm ((w.node id).log.take k) := by
  obtain ⟨⟨src, hsrc⟩, -⟩ := hp
  obtain ⟨s, hs, hle, hd⟩ := (h.settled src).requests c hsrc
  obtain ⟨s', hs', hlog⟩ := h.replicated.keeping.within id _ _ (.inl hheld)
  rw [hT] at hs hd
  have hlen : ((w.node id).log.take k).length ≤ (s.take c.request.leaderCommit).length := by
    rw [List.length_take, List.length_take]
    omega
  refine hd.of_isPrefix ?_
  rcases h.replicated.matching.chained _ s s' hs hs' with hss | hss
  · exact List.prefix_of_prefix_length_le ((List.take_prefix _ _).trans hlog)
      ((List.take_prefix _ _).trans hss) hlen
  · exact List.prefix_of_prefix_length_le ((List.take_prefix _ _).trans (hlog.trans hss))
      (List.take_prefix _ _) hlen

/-- An accepted batch does not touch what the node has committed. -/
theorem Agreed.take_isPrefix_splice (h : Agreed V w) {c : AppendCall} (hcut : w.Cut c.request)
    (hT : c.request.term = (w.node id).currentTerm) (hcons : (w.node id).consistent c.request) :
    (w.node id).log.take (w.node id).commitIndex <+: Lib.splice LogEntry.term (w.node id).log
      c.request.prevLogIndex c.request.entries := by
  obtain ⟨s, hs, hb⟩ := hcut
  rw [hT] at hs
  rcases (h.settled id).decided with hnil | ⟨T, hle, q, hc, hq⟩
  · rw [hnil]
    exact List.nil_prefix
  · exact hc.splice h.replicated.matching h.replicated.keeping h.electing
      h.replicated.sound.formed.tenure_le hle hq (List.take_prefix _ _) hs
      ((consistent_iff _ _).mp hcons) hb

theorem Settled.move (hA : Agreed V w) (hp : ∀ p, env.packet p → w.Arrives id p)
    (hadv : ∀ n, env.advance n → n.state = .leader ∧ (id ∈ V → n.voters = V.erase id))
    (hm : Move env (w.node id) n') : Settled V w n' := by
  have h := hA.settled id
  have hlog := (hA.replicated.sound.formed id).log
  generalize hn : w.node id = n at *
  cases hm with
  | quiet q =>
    refine h.keep q.commitIndex q.currentTerm.ge ?_ q.emitted (fun c hc => q.sent ▸ hc)
    rw [q.log]
    exact List.take_prefix _ _
  | follow hT =>
    refine h.keep rfl hT (List.take_prefix _ _) (fun e he => ?_) fun _ hc => hc
    simpa [becomeFollower, saveState, clearTimers, emit] using he
  | campaign =>
    refine h.keep rfl (Nat.le_succ _) (List.take_prefix _ _) (fun e he => ?_) fun c hc => ?_
    · simpa [becomeCandidate, startElection, saveState, resetElectionTimeout, emit] using he
    · exact (mem_campaign hc).resolve_right (by simp)
  | answerVote | answerAppend =>
    refine h.keep rfl (le_refl _) (List.take_prefix _ _) (fun _ he => he) fun c hc => ?_
    exact (List.mem_append.mp hc).resolve_right (by simp)
  | takeOffice =>
    refine h.keep rfl (le_refl _) (List.take_prefix _ _) (fun e he => ?_) fun _ hc => hc
    simpa [takeOffice, clearTimers, emit] using he
  | push =>
    exact h.keep rfl (le_refl _) ((List.take_prefix _ _).trans (List.prefix_append _ _))
      (fun _ he => he) fun _ hc => hc
  | replicate hs =>
    refine ⟨h.commit_le, h.decided, h.emitted, fun c hc => ?_⟩
    rcases mem_replicate hc with hc | ⟨peer, -, hc⟩
    · exact h.requests c hc
    · cases hc
      subst hn
      exact ⟨_, hA.replicated.matching.current id hs, h.commit_le, h.decided⟩
  | @accept c _ hpc hT hcons =>
    subst hn
    have hcut := hA.replicated.cuts.arrives (hp _ hpc)
    exact h.keep rfl (le_refl _) (hA.take_isPrefix_splice hcut hT hcons) (fun _ he => he)
      fun _ hc => hc
  | @commit c _ hpc hT hheld =>
    subst hn
    rw [commitTo_eq]
    split
    · refine h.commitAt hlog ?_ (hA.decided_commitTo (hp _ hpc) hT hheld (Nat.min_le_left _ _))
      rw [getLastLogIndex, hlog.lastLogIndex]
      exact Nat.min_le_right _ _
    · exact h
  | advance hc ha =>
    subst hn
    obtain ⟨hs, hv⟩ := hadv _ ha
    have hid := hA.member id hs
    obtain ⟨hle, hcomm⟩ := hA.replicated.committed hs hid (hv hid) hc
    rw [updateCommitIndex_eq, if_pos hc]
    exact h.commitAt hlog hle (.inr ⟨_, le_refl _, _, hcomm, List.prefix_refl _⟩)
  | @reboot _ known =>
    obtain ⟨peers, nextRef, T, heq, -⟩ := restart_eq known n
    rw [heq]
    refine ⟨Nat.zero_le _, .inl rfl, fun e he => h.emitted e ?_, h.requests⟩
    simpa using he
  | _ =>
    exact h.keep rfl (le_refl _) (List.take_prefix _ _) (fun _ he => he) fun _ hc => hc

theorem member_move (hf : Franchise V id (w.node id))
    (h : (w.node id).state = .leader → id ∈ V) (hm : Move env (w.node id) n') :
    n'.state = .leader → id ∈ V := by
  generalize w.node id = n at *
  cases hm with
  | quiet q =>
    rw [q.state]
    exact h
  | follow => exact nofun
  | campaign => exact nofun
  | takeOffice _ he => exact fun _ => (hf _ he).1
  | commit => exact commitTo_keeps (P := fun n => n.state = .leader → id ∈ V) h (fun _ => h) _
  | advance => exact updateCommitIndex_keeps (P := fun n => n.state = .leader → id ∈ V) h fun _ => h
  | @reboot _ known =>
    obtain ⟨peers, nextRef, T, heq, -⟩ := restart_eq known n
    rw [heq]
    exact nofun
  | _ => exact h

theorem Cluster.Booted.agreed (h : w.Booted) : Agreed V w := by
  have hboot : ∀ id, Franchise V id (w.node id) ∧ (w.node id).state = .follower ∧
      ((w.node id).votes = [] ∧ (w.node id).tenure = []) ∧ Settled V w (w.node id) := by
    intro id
    obtain ⟨config, known, -, hn⟩ := h id
    obtain ⟨peers, nextRef, heq, -⟩ := boot_eq config known
    rw [hn, heq]
    exact ⟨nofun, rfl, ⟨rfl, rfl⟩, Nat.zero_le _, .inl rfl, by simp, nofun⟩
  refine ⟨h.replicated, fun id => (hboot id).1, ?_, ?_, fun id => (hboot id).2.2.2⟩
  · intro id hs
    exact absurd ((hboot id).2.1.symm.trans hs) nofun
  · refine Lib.History.electing_empty (fun v T c => ?_) fun T => ?_ <;>
      refine Set.eq_empty_iff_forall_notMem.mpr ?_
    · intro l hl
      rw [Cluster.history, Set.mem_ofPred_eq, (hboot v).2.2.1.1] at hl
      cases hl
    · rintro l ⟨x, hx⟩
      rw [(hboot x).2.2.1.2] at hx
      cases hx

theorem Agreed.move {R : Rules} (hR : R.Committing V) (h : Agreed V w)
    (hm : Move (R.env w id) (w.node id) n') (hfresh : w.Fresh id n') : Agreed V (w.set id n') := by
  have hop := hm.op (h.replicated.sound.formed id).nodeId
  have hcut : ∀ c, (R.env w id).packet (.appendEntries c) → w.Cut c.request :=
    fun c hp => h.replicated.cuts.arrives (R.packet w id _ hp)
  refine ⟨h.replicated.move hR.toReplicating hm hfresh, ?_, ?_, ?_, ?_⟩
  · exact forall_node (P := fun _ => Franchise V) (fun _ _ _ _ _ h => h) h.franchise hm
      ((h.franchise id).move (hR.campaign w id) hm)
  · exact forall_node (P := fun _ id n => n.state = .leader → id ∈ V) (fun _ _ _ _ _ h => h)
      h.member hm (member_move (h.franchise id) (h.member id) hm)
  · exact hop.electing h.replicated h.electing (h.franchise id) hcut (hR.win w id)
      (hR.reboot w id) hfresh
  · exact forall_node (P := fun w _ => Settled V w) (fun _ _ _ _ => Settled.mono) h.settled hm
      (Settled.move h (R.packet w id) (hR.advance w id) hm)

-- ---------------------------------------------------------------------------
-- What agreement gives
-- ---------------------------------------------------------------------------

theorem Agreed.comparable (h : Agreed V w) {U U' : Nat} {q q' : List LogEntry}
    (hq : w.Decided V U q) (hq' : w.Decided V U' q') : q <+: q' ∨ q' <+: q := by
  rcases hq with rfl | ⟨T, -, c, hc, hqc⟩
  · exact .inl List.nil_prefix
  · rcases hq' with rfl | ⟨T', -, c', hc', hqc'⟩
    · exact .inr List.nil_prefix
    · rcases hc.comparable h.replicated.matching h.replicated.keeping h.electing
        h.replicated.sound.formed.tenure_le hc' with hcc | hcc
      · exact List.prefix_or_prefix_of_prefix (hqc.trans hcc) hqc'
      · exact List.prefix_or_prefix_of_prefix hqc (hqc'.trans hcc)

theorem Agreed.final_unique (h : Agreed V w) {e e' : LogEntry} (he : w.Final V e)
    (he' : w.Final V e') (hidx : e.index = e'.index) : e = e' := by
  obtain ⟨U, q, hq, -, hget⟩ := he
  obtain ⟨U', q', hq', -, hget'⟩ := he'
  rw [← hidx] at hget'
  rcases h.comparable hq hq' with hqq | hqq
  · exact Option.some.inj ((Lib.getElem?_of_isPrefix hqq hget).symm.trans hget')
  · exact Option.some.inj (hget.symm.trans (Lib.getElem?_of_isPrefix hqq hget'))

theorem Agreed.decided_isPrefix (h : Agreed V w) {U : Nat} {q : List LogEntry}
    (hq : w.Decided V U q) {m : NodeId} {t : Tenure} (ht : t ∈ (w.node m).led)
    (hU : U < t.term) : q <+: t.log := by
  rcases hq with rfl | ⟨T, hT, c, hc, hqc⟩
  · exact List.nil_prefix
  · have hstart : t.log ∈ w.history.tenure t.term := ⟨m, (h.replicated.seated m).start t ht⟩
    exact hqc.trans (hc.isPrefix h.replicated.matching h.replicated.keeping h.electing
      h.replicated.sound.formed.tenure_le (hT.trans_lt hU) hstart)

theorem Agreed.stored (h : Agreed V w) (hs : (w.node id).state = .leader)
    (hv : (w.node id).voters = V.erase id) (hc : (w.node id).canAdvance) :
    (w.node id).newCommitIndex ≤ (w.node id).log.length ∧
      ∃ Q, Majority V Q ∧ ∀ v ∈ Q,
        (w.node id).log.take (w.node id).newCommitIndex <+: (w.node v).log := by
  obtain ⟨hle, hcomm⟩ := h.replicated.committed hs (h.member id hs) hv hc
  obtain ⟨Q, hQ, hheld⟩ := hcomm.majority
  refine ⟨hle, Q, hQ, fun v hvQ => ?_⟩
  obtain ⟨l, hl, hpre⟩ := hheld v hvQ
  exact hcomm.kept h.replicated.matching h.replicated.keeping h.electing
    h.replicated.sound.formed.tenure_le (hQ.1 hvQ) hl hpre

end

end ClaudeCluster.Raft
