import ClaudeCluster.Raft.Runs
import ClaudeCluster.Raft.WellFormed

/-!
# What packets and pending calls stand for

A request was sent by the node it names, a reply answers a request that was
sent, and a positive one tells of something its sender has done: a vote given,
a log taken over. A ballot counted in an election tells of a vote for that
election's term, and a reply to `replicateToPeer` writes to the peer it was
asked of. None of this depends on who leads or on what the guards miss.
-/

namespace ClaudeCluster.Raft

open RaftNode

def UpToDate (l lv : List LogEntry) : Prop :=
  lastLogTerm lv < lastLogTerm l ∨
    lastLogTerm l = lastLogTerm lv ∧ lastLogIndex lv ≤ lastLogIndex l

/-- `peer` has voted for `id` in term `T`, and was not ahead of the log `id`
went into the election with. -/
def Cluster.Backs (w : Cluster) (peer id : NodeId) (T : Nat) : Prop :=
  ∃ l lv, ⟨T, id, l⟩ ∈ (w.node id).votes ∧ ⟨T, id, lv⟩ ∈ (w.node peer).votes ∧ UpToDate l lv

structure Counted (w : Cluster) (id : NodeId) (e : Election) : Prop where
  needed : e.votesNeeded = (e.ballots.length + 1) / 2 + 1
  nodup : (e.ballots.map Prod.fst).Nodup
  others : id ∉ e.ballots.map Prod.fst
  backed : ∀ p, (p, some true) ∈ e.ballots → w.Backs p id e.term

structure Traffic (w : Cluster) (id : NodeId) (n : RaftNode) : Prop where
  refs : Refs n
  asked : ∀ c, .requestVote c ∈ n.sent → c.request.candidateId = id ∧
    ∃ l, ⟨c.request.term, id, l⟩ ∈ n.votes ∧ c.request.lastLogIndex = lastLogIndex l ∧
      c.request.lastLogTerm = lastLogTerm l
  voted : ∀ c r, .voteReply c r ∈ n.sent → c.dst = id ∧ w.Sent (.requestVote c) ∧
    (r.voteGranted → ∃ v ∈ n.votes, v.term = c.request.term ∧
      v.candidate = c.request.candidateId ∧ logOk v.log c.request)
  called : ∀ c, .appendEntries c ∈ n.sent → c.request.leaderId = id ∧ c.epoch ≤ n.epoch ∧
    (c.epoch = n.epoch → c.peer < n.nextRef ∧
      ∀ p ∈ n.peers.values, p.ref = c.peer → p.nodeId = c.dst)
  answered : ∀ c r, .appendReply c r ∈ n.sent → c.dst = id ∧ w.Sent (.appendEntries c) ∧
    (r.success → r.term = c.request.term ∧
      ∃ l, (c.request.term, l) ∈ n.held ∧ r.matchIndex = lastLogIndex l)
  elections : ∀ e ∈ n.elections, Counted w id e
  stood : ∀ e ∈ n.elections, ∃ l, ⟨e.term, id, l⟩ ∈ n.votes

section
variable {w w' : Cluster} {id : NodeId} {n n' : RaftNode} {env : Env}

theorem upToDate_of_logOk {l lv : List LogEntry} {r : RequestVoteRequest} (h : logOk lv r)
    (hi : r.lastLogIndex = lastLogIndex l) (ht : r.lastLogTerm = lastLogTerm l) :
    UpToDate l lv := by
  simpa [logOk, UpToDate, hi, ht] using h

theorem Counted.mono {e : Election} (hg : w.Grown w') (h : Counted w id e) : Counted w' id e := by
  refine { h with backed := ?_ }
  intro p hp
  obtain ⟨l, lv, hl, hlv, hup⟩ := h.backed p hp
  exact ⟨l, lv, (hg id).votes hl, (hg p).votes hlv, hup⟩

theorem Traffic.mono (hg : w.Grown w') (h : Traffic w id n) : Traffic w' id n where
  refs := h.refs
  asked := h.asked
  called := h.called
  stood := h.stood
  elections e he := (h.elections e he).mono hg
  voted c r hc := by
    obtain ⟨hdst, hs, hr⟩ := h.voted c r hc
    exact ⟨hdst, hg.sent hs, hr⟩
  answered c r hc := by
    obtain ⟨hdst, hs, hr⟩ := h.answered c r hc
    exact ⟨hdst, hg.sent hs, hr⟩

theorem Traffic.commitAt (h : Traffic w id n) (c : Nat) : Traffic w id (n.commitAt c) :=
  ⟨h.refs, h.asked, h.voted, h.called, h.answered, h.elections, h.stood⟩

-- ---------------------------------------------------------------------------
-- Ballots
-- ---------------------------------------------------------------------------

theorem mem_castBallot {term : Nat} {peer : NodeId} {vote : Bool} {e' : Election}
    (h : e' ∈ (n.castBallot term peer vote).elections) :
    ∃ e ∈ n.elections, e'.term = e.term ∧ e'.votesNeeded = e.votesNeeded ∧
      e'.ballots.map Prod.fst = e.ballots.map Prod.fst ∧
      ∀ p, (p, some true) ∈ e'.ballots →
        (p, some true) ∈ e.ballots ∨ (e.term = term ∧ p = peer ∧ vote = true) := by
  obtain ⟨e, he, rfl⟩ := List.mem_map.mp h
  refine ⟨e, he, ?_⟩
  split
  case isTrue hterm =>
    refine ⟨rfl, rfl, ?_, ?_⟩
    · rw [List.map_map]
      refine List.map_congr_left fun b _ => ?_
      simp only [Function.comp_apply]
      split
      case isTrue hb => rw [hb]
      case isFalse => rfl
    · intro p hp
      obtain ⟨b, hb, hbp⟩ := List.mem_map.mp hp
      split at hbp
      · cases hbp
        exact .inr ⟨hterm, rfl, rfl⟩
      · exact .inl (hbp ▸ hb)
  case isFalse => exact ⟨rfl, rfl, rfl, fun p hp => .inl hp⟩

theorem backs_of_arrives (hw : ∀ x, Traffic w x (w.node x)) {c : VoteCall}
    {r : RequestVoteResponse} (hp : w.Arrives id (.voteReply c r)) (hr : r.voteGranted) :
    w.Backs c.dst id c.request.term := by
  obtain ⟨⟨src, hsrc⟩, hid⟩ := hp
  obtain ⟨rfl, ⟨y, hy⟩, hv⟩ := (hw src).voted c r hsrc
  obtain ⟨⟨T, candidate, lv⟩, hvote, rfl, rfl, hok⟩ := hv hr
  obtain ⟨hcand, l, hl, hi, ht⟩ := (hw y).asked c hy
  cases (show c.request.candidateId = id from hid)
  cases hcand
  exact ⟨l, lv, hl, hvote, upToDate_of_logOk hok hi ht⟩

theorem Traffic.ballot {term : Nat} {peer : NodeId} {vote : Bool} (h : Traffic w id n)
    (hv : vote = true → w.Backs peer id term) : Traffic w id (n.castBallot term peer vote) := by
  refine { h with elections := ?_, stood := ?_ }
  · intro e' he'
    obtain ⟨e, he, hterm, hneed, hids, hb⟩ := mem_castBallot he'
    have hc := h.elections e he
    have hlen : e'.ballots.length = e.ballots.length := by
      simpa using congrArg List.length hids
    refine ⟨by rw [hneed, hlen, hc.needed], hids ▸ hc.nodup, hids ▸ hc.others, ?_⟩
    intro p hp
    rw [hterm]
    rcases hb p hp with hp | ⟨hT, rfl, hvote⟩
    · exact hc.backed p hp
    · exact hT ▸ hv hvote
  · intro e' he'
    obtain ⟨e, he, hterm, -⟩ := mem_castBallot he'
    exact hterm ▸ h.stood e he

theorem Traffic.campaign (h : Traffic w id n) (hid : n.nodeId = id) :
    Traffic w id n.becomeCandidate := by
  have hsent : ∀ p, p ∈ n.becomeCandidate.sent → (∀ c, p ≠ .requestVote c) → p ∈ n.sent := by
    intro p hp hne
    rcases mem_campaign hp with hp | ⟨peer, -, rfl⟩
    · exact hp
    · exact absurd rfl (hne _)
  refine ⟨h.refs, ?_, ?_, ?_, ?_, ?_, ?_⟩
  · intro c hc
    rcases mem_campaign hc with hc | ⟨peer, -, hc⟩
    · obtain ⟨hcand, l, hl, hlast⟩ := h.asked c hc
      exact ⟨hcand, l, List.mem_append_left _ hl, hlast⟩
    · cases hc
      exact ⟨hid, n.log, hid ▸ List.mem_concat_self, rfl, rfl⟩
  · intro c r hc
    obtain ⟨hdst, hs, hr⟩ := h.voted c r (hsent _ hc nofun)
    refine ⟨hdst, hs, fun hg => ?_⟩
    obtain ⟨v, hv, hrest⟩ := hr hg
    exact ⟨v, List.mem_append_left _ hv, hrest⟩
  · exact fun c hc => h.called c (hsent _ hc nofun)
  · exact fun c r hc => h.answered c r (hsent _ hc nofun)
  · have hids : (n.votingPeers.map fun peer => (peer.nodeId, (none : Option Bool))).map Prod.fst =
        n.votingPeers.map PeerInfo.nodeId := by
      simp [Function.comp_def]
    refine forall_mem_concat h.elections ⟨?_, ?_, ?_, ?_⟩
    · exact congrArg (fun k => (k + 1) / 2 + 1) (List.length_map _).symm
    · exact hids ▸ n.peers.nodup.sublist (List.filter_sublist.map _)
    · intro hmem
      obtain ⟨peer, hp, hpid⟩ := List.mem_map.mp (hids ▸ hmem)
      exact (h.refs peer (List.mem_of_mem_filter hp)).1 (hpid.trans hid.symm)
    · intro p hp
      obtain ⟨peer, -, hpeer⟩ := List.mem_map.mp hp
      cases hpeer
  · refine forall_mem_concat (fun e he => ?_) ⟨n.log, hid ▸ List.mem_concat_self⟩
    obtain ⟨l, hl⟩ := h.stood e he
    exact ⟨l, List.mem_append_left _ hl⟩

/-- New peer objects are not those of calls already made. -/
theorem Traffic.quiet (h : Traffic w id n) (q : Quiet n n') : Traffic w id n' := by
  refine ⟨q.refs h.refs, ?_, ?_, ?_, ?_, fun e he => h.elections e (q.elections he), ?_⟩
  · rw [q.sent, q.votes]
    exact h.asked
  · rw [q.sent, q.votes]
    exact h.voted
  · rw [q.sent, q.epoch]
    intro c hc
    obtain ⟨hlead, hep, hpeer⟩ := h.called c hc
    refine ⟨hlead, hep, fun heq => ?_⟩
    obtain ⟨hlt, hdst⟩ := hpeer heq
    refine ⟨hlt.trans_le q.nextRef, fun p' hp' href => ?_⟩
    rcases q.peers p' hp' with ⟨p, hp, hpid, hpref, -⟩ | ⟨hge, -⟩
    · exact hpid ▸ hdst p hp (hpref.trans href)
    · exact absurd hlt (Nat.not_lt.mpr (href ▸ hge))
  · rw [q.sent, q.held]
    exact h.answered
  · rw [q.votes]
    exact fun e he => h.stood e (q.elections he)

theorem Traffic.assign (h : Traffic w id n) (f : PeerInfo → Nat × Nat) :
    Traffic w id { n with peers := n.peers.assign f } := by
  refine { h with refs := refs_assign h.refs, called := ?_ }
  intro c hc
  obtain ⟨hlead, hep, hpeer⟩ := h.called c hc
  refine ⟨hlead, hep, fun heq => ⟨(hpeer heq).1, fun p' hp' href => ?_⟩⟩
  obtain ⟨p, hp, rfl⟩ := List.mem_map.mp hp'
  exact (hpeer heq).2 p hp href

theorem Traffic.replicate (h : Traffic w id n) (hid : n.nodeId = id) (entry : Option LogEntry) :
    Traffic w id (n.replicateToFollowers entry) := by
  have hsent : ∀ p, p ∈ (n.replicateToFollowers entry).sent → (∀ c, p ≠ .appendEntries c) →
      p ∈ n.sent := by
    intro p hp hne
    rcases mem_replicate hp with hp | ⟨peer, -, rfl⟩
    · exact hp
    · exact absurd rfl (hne _)
  refine ⟨h.refs, fun c hc => h.asked c (hsent _ hc nofun),
    fun c r hc => h.voted c r (hsent _ hc nofun), ?_,
    fun c r hc => h.answered c r (hsent _ hc nofun), h.elections, h.stood⟩
  intro c hc
  rcases mem_replicate hc with hc | ⟨peer, hp, hc⟩
  · exact h.called c hc
  · cases hc
    obtain ⟨-, hlt, hinj⟩ := h.refs peer hp
    exact ⟨hid, le_refl _, fun _ => ⟨hlt, fun q hq href => (hinj q hq href.symm).symm⟩⟩

theorem Traffic.restart (h : Traffic w id n) (known : List (NodeId × Bool)) :
    Traffic w id (n.restart known) := by
  obtain ⟨peers, nextRef, T, heq, href, -⟩ := restart_eq known n
  rw [heq] at href ⊢
  refine ⟨href, h.asked, h.voted, ?_, h.answered, nofun, nofun⟩
  intro c hc
  obtain ⟨hlead, hep, -⟩ := h.called c hc
  refine ⟨hlead, hep.trans (Nat.le_succ _), fun heq => ?_⟩
  exact absurd (heq ▸ hep) (Nat.not_succ_le_self _)

theorem Traffic.move (hp : ∀ p, env.packet p → w.Arrives id p)
    (hw : ∀ x, Traffic w x (w.node x)) (h : Traffic w id n) (hid : n.nodeId = id)
    (hm : Move env n n') : Traffic w id n' := by
  cases hm with
  | quiet q => exact h.quiet q
  | follow => exact { h with }
  | campaign => exact h.campaign hid
  | grant =>
    refine { h with asked := ?_, voted := ?_, stood := ?_ }
    · intro c hc
      obtain ⟨hcand, l, hl, hlast⟩ := h.asked c hc
      exact ⟨hcand, l, List.mem_append_left _ hl, hlast⟩
    · intro c r hc
      obtain ⟨hdst, hs, hr⟩ := h.voted c r hc
      refine ⟨hdst, hs, fun hg => ?_⟩
      obtain ⟨v, hv, hrest⟩ := hr hg
      exact ⟨v, List.mem_append_left _ hv, hrest⟩
    · intro e he
      obtain ⟨l, hl⟩ := h.stood e he
      exact ⟨l, List.mem_append_left _ hl⟩
  | @answerVote c n r hpc hr =>
    have hsent : ∀ p, p ∈ (n.send (.voteReply c r)).sent → p ∈ n.sent ∨ p = .voteReply c r :=
      fun p hp => (List.mem_append.mp hp).imp_right List.mem_singleton.mp
    refine { h with asked := ?_, voted := ?_, called := ?_, answered := ?_ }
    · exact fun d hd => h.asked d ((hsent _ hd).resolve_right nofun)
    · intro d s hd
      rcases hsent _ hd with hd | hd
      · exact h.voted d s hd
      · cases hd
        exact ⟨(hp _ hpc).2, (hp _ hpc).1, hr⟩
    · exact fun d hd => h.called d ((hsent _ hd).resolve_right nofun)
    · exact fun d s hd => h.answered d s ((hsent _ hd).resolve_right nofun)
  | ballot hv =>
    refine h.ballot fun hvote => ?_
    obtain ⟨c, r, hc, -, rfl, rfl, hr⟩ := hv hvote
    exact backs_of_arrives hw (hp _ hc) hr
  | takeOffice => exact { h.assign fun _ => (n.getLastLogIndex + 1, 0) with }
  | push => exact { h with }
  | replicate => exact h.replicate hid _
  | accept =>
    refine { h with answered := ?_ }
    intro c r hc
    obtain ⟨hdst, hs, hr⟩ := h.answered c r hc
    refine ⟨hdst, hs, fun hsucc => ?_⟩
    obtain ⟨hT, l, hl, hlast⟩ := hr hsucc
    exact ⟨hT, l, List.mem_append_left _ hl, hlast⟩
  | commit => exact commitTo_keeps (P := Traffic w id) h h.commitAt _
  | @answerAppend c n r hpc hr =>
    have hsent : ∀ p, p ∈ (n.send (.appendReply c r)).sent → p ∈ n.sent ∨ p = .appendReply c r :=
      fun p hp => (List.mem_append.mp hp).imp_right List.mem_singleton.mp
    refine { h with asked := ?_, voted := ?_, called := ?_, answered := ?_ }
    · exact fun d hd => h.asked d ((hsent _ hd).resolve_right nofun)
    · exact fun d s hd => h.voted d s ((hsent _ hd).resolve_right nofun)
    · exact fun d hd => h.called d ((hsent _ hd).resolve_right nofun)
    · intro d s hd
      rcases hsent _ hd with hd | hd
      · exact h.answered d s hd
      · cases hd
        exact ⟨(hp _ hpc).2, (hp _ hpc).1, hr⟩
  | matched => exact h.assign _
  | advance => exact updateCommitIndex_keeps (P := Traffic w id) h h.commitAt
  | resolve => exact { h with }
  | reboot => exact h.restart _

theorem traffic_boot (w : Cluster) (config : RaftConfig) (known : List (NodeId × Bool)) :
    Traffic w id (boot config known) := by
  obtain ⟨peers, nextRef, heq, href⟩ := boot_eq config known
  rw [heq] at href ⊢
  exact ⟨href, nofun, nofun, nofun, nofun, nofun, nofun⟩

end

-- ---------------------------------------------------------------------------
-- Runs
-- ---------------------------------------------------------------------------

structure Cluster.Sound (w : Cluster) : Prop where
  formed : w.Formed
  traffic : ∀ id, Traffic w id (w.node id)

theorem Cluster.Booted.sound {w : Cluster} (h : w.Booted) : w.Sound := by
  refine ⟨h.formed, fun id => ?_⟩
  obtain ⟨config, known, -, heq⟩ := h id
  rw [heq]
  exact traffic_boot w config known

theorem Cluster.Sound.move {R : Rules} {w : Cluster} {id : NodeId} {n' : RaftNode}
    (h : w.Sound) (hm : Move (R.env w id) (w.node id) n') : (w.set id n').Sound where
  formed := h.formed.move hm
  traffic := forall_node (fun _ _ _ _ => Traffic.mono) h.traffic hm
    ((h.traffic id).move (R.packet w id) h.traffic (h.formed id).nodeId hm)

end ClaudeCluster.Raft
