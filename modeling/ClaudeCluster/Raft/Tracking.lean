import ClaudeCluster.Raft.Emissions

/-!
# What the events tell of the state

`stateChange` and `leaderChanged` tell a listener all there is to know of
`state` and `leaderId`: whoever starts from the two and follows the events has
them after every step (`step_tracked`), a restart apart.
-/

namespace ClaudeCluster.Raft.RaftNode

def track (self : NodeId) (known : RaftState × Option NodeId) :
    RaftEvent → RaftState × Option NodeId
  | .stateChange .follower _ => (.follower, known.2)
  | .stateChange .candidate _ => (.candidate, none)
  | .stateChange .leader _ => (.leader, some self)
  | .leaderChanged leaderId => (known.1, some leaderId)
  | _ => known

def Tracked (n n' : RaftNode) : Prop :=
  n'.config = n.config ∧ ∃ events, n'.emitted = n.emitted ++ events ∧
    (n'.state, n'.leaderId) = events.foldl (track n.nodeId) (n.state, n.leaderId)

-- ---------------------------------------------------------------------------
-- Methods
-- ---------------------------------------------------------------------------

section
variable {n n' n'' : RaftNode}

theorem Tracked.trans (h : Tracked n n') (h' : Tracked n' n'') : Tracked n n'' := by
  obtain ⟨hconfig, events, he, hk⟩ := h
  obtain ⟨hconfig', events', he', hk'⟩ := h'
  refine ⟨hconfig'.trans hconfig, events ++ events', ?_, ?_⟩
  · rw [he', he, List.append_assoc]
  · have hself : n'.nodeId = n.nodeId := congrArg RaftConfig.nodeId hconfig
    rw [List.foldl_append, ← hk, ← hself, hk']

theorem Tracked.quiet (hconfig : n'.config = n.config) (hemitted : n'.emitted = n.emitted)
    (hstate : n'.state = n.state) (hleader : n'.leaderId = n.leaderId) : Tracked n n' :=
  ⟨hconfig, [], by rw [hemitted, List.append_nil], by rw [hstate, hleader]; rfl⟩

theorem Tracked.refl (n : RaftNode) : Tracked n n := .quiet rfl rfl rfl rfl

theorem tracked_becomeFollower (T : Nat) : Tracked n (n.becomeFollower T) :=
  ⟨rfl, [.stateChange .follower T], rfl, rfl⟩

theorem tracked_observeTerm (T : Nat) : Tracked n (n.observeTerm T) := by
  unfold observeTerm
  split
  · exact tracked_becomeFollower T
  · exact .refl n

theorem tracked_noteLeader (id : NodeId) : Tracked n (n.noteLeader id) := by
  unfold noteLeader
  split
  case isTrue => exact ⟨rfl, [.leaderChanged id], rfl, rfl⟩
  case isFalse hsame => exact .quiet rfl rfl rfl (not_not.mp hsame).symm

theorem tracked_becomeCandidate : Tracked n n.becomeCandidate :=
  ⟨rfl, [.stateChange .candidate (n.currentTerm + 1)], rfl, rfl⟩

theorem tracked_appendEntry (type : LogEntryType) (data : Buffer) :
    Tracked n (n.appendEntry type data) := by
  unfold appendEntry
  split <;> exact .quiet rfl rfl rfl rfl

theorem tracked_becomeLeader : Tracked n n.becomeLeader := by
  have h : Tracked n n.takeOffice :=
    ⟨rfl, [.stateChange .leader n.currentTerm, .leaderElected n.nodeId], by
      simp [takeOffice, emit, clearTimers], rfl⟩
  exact (h.trans (tracked_appendEntry .noop [])).trans (.quiet rfl rfl rfl rfl)

theorem tracked_triggerImmediateElection : Tracked n n.triggerImmediateElection := by
  unfold triggerImmediateElection
  split
  · exact .refl n
  · split
    · exact .refl n
    · exact tracked_becomeCandidate

theorem tracked_fireElectionTimeout : Tracked n n.fireElectionTimeout := by
  unfold fireElectionTimeout
  dsimp only
  split
  · exact tracked_becomeCandidate
  · exact .quiet rfl rfl rfl rfl

theorem tracked_stepDown : Tracked n n.stepDown := by
  unfold stepDown
  split
  · exact .refl n
  · exact (tracked_becomeFollower n.currentTerm).trans (.quiet rfl rfl rfl rfl)

theorem tracked_finishElection (e : Election) : Tracked n (n.finishElection e) := by
  have hdrop : Tracked n (n.dropElection e) := .quiet rfl rfl rfl rfl
  unfold finishElection
  dsimp only
  split
  · exact hdrop
  · split
    · exact hdrop.trans tracked_becomeLeader
    · exact hdrop

theorem tracked_handleRequestVote (r : RequestVoteRequest) :
    Tracked n (n.handleRequestVote r).1 := by
  have h := tracked_observeTerm (n := n) r.term
  unfold handleRequestVote
  dsimp only
  split
  · exact h.trans (.quiet rfl rfl rfl rfl)
  · exact h

theorem tracked_handleVoteReply (c : VoteCall) (r : RequestVoteResponse) :
    Tracked n (n.handleVoteReply c r) := by
  unfold handleVoteReply
  split
  · split
    · exact (tracked_becomeFollower r.term).trans (.quiet rfl rfl rfl rfl)
    · exact .quiet rfl rfl rfl rfl
  · exact .refl n

theorem tracked_handleAppendReply (c : AppendCall) (r : AppendEntriesResponse) :
    Tracked n (n.handleAppendReply c r) := by
  unfold handleAppendReply
  dsimp only
  split
  · exact (tracked_becomeFollower r.term).trans (.quiet rfl rfl rfl rfl)
  · split <;> exact .quiet rfl rfl rfl rfl

theorem tracked_commitAt (c : Nat) : Tracked n (n.commitAt c) := by
  refine ⟨rfl, (n.nextEntries (c - n.lastApplied)).map .entryCommitted, rfl, ?_⟩
  generalize n.nextEntries (c - n.lastApplied) = entries
  change (n.state, n.leaderId) = _
  induction entries with
  | nil => rfl
  | cons e rest ih => exact ih

theorem tracked_commitTo (c : Nat) : Tracked n (n.commitTo c) :=
  commitTo_keeps (P := Tracked n) (.refl n) tracked_commitAt c

theorem tracked_updateCommitIndex : Tracked n n.updateCommitIndex :=
  updateCommitIndex_keeps (P := Tracked n) (.refl n) tracked_commitAt

theorem tracked_handleAppendEntries (r : AppendEntriesRequest) :
    Tracked n (n.handleAppendEntries r).1 := by
  have hobs := tracked_observeTerm (n := n) r.term
  unfold handleAppendEntries
  dsimp only
  split
  · exact hobs
  · have hnote := hobs.trans (tracked_noteLeader r.leaderId)
    split
    · exact hnote
    · exact (hnote.trans (.quiet rfl rfl rfl rfl)).trans (tracked_commitTo r.leaderCommit)

theorem tracked_addPeer (id : NodeId) (voting : Bool) : Tracked n (n.addPeer id voting) := by
  unfold addPeer
  split <;> exact .quiet rfl rfl rfl rfl

theorem tracked_start : Tracked n n.start := by
  cases h : n.running with
  | true =>
    simp only [start, h, ↓reduceIte]
    exact .refl n
  | false =>
    rw [start_eq n h]
    exact (tracked_becomeFollower n.startTerm).trans (.quiet rfl rfl rfl rfl)

end

-- ---------------------------------------------------------------------------
-- Steps
-- ---------------------------------------------------------------------------

section
variable {n n' : RaftNode}

theorem receive_tracked (p : Packet) : Tracked n (n.receive p) := by
  cases p with
  | requestVote c => exact (tracked_handleRequestVote c.request).trans (.quiet rfl rfl rfl rfl)
  | voteReply c r =>
    simp only [receive]
    split
    · exact tracked_handleVoteReply c r
    · exact .refl n
  | appendEntries c =>
    exact (tracked_handleAppendEntries c.request).trans (.quiet rfl rfl rfl rfl)
  | appendReply c r =>
    simp only [receive]
    split
    · exact tracked_handleAppendReply c r
    · exact .refl n

theorem act_tracked {i : Input} (hi : ∀ known, i ≠ .restart known) (h : n.act i = some n') :
    Tracked n n' := by
  cases i with
  | electionTimeout =>
    simp only [act, Option.ite_none_right_eq_some, Option.some.injEq] at h
    exact h.2 ▸ tracked_fireElectionTimeout
  | timeoutNow T =>
    simp only [act, Option.some.injEq] at h
    subst h
    unfold timeoutNow
    split
    · exact .refl n
    · exact tracked_triggerImmediateElection
  | stepDown =>
    cases h
    exact tracked_stepDown
  | appendEntry type data =>
    cases h
    exact tracked_appendEntry type data
  | heartbeat =>
    simp only [act, Option.ite_none_right_eq_some, Option.some.injEq] at h
    obtain ⟨-, rfl⟩ := h
    split <;> exact .quiet rfl rfl rfl rfl
  | voteFails T peer =>
    simp only [act, Option.ite_none_right_eq_some, Option.some.injEq] at h
    exact h.2 ▸ .quiet rfl rfl rfl rfl
  | electionEnds T =>
    simp only [act] at h
    split at h
    · simp only [Option.ite_none_right_eq_some, Option.some.injEq] at h
      exact h.2 ▸ tracked_finishElection _
    · cases h
  | roundEnds round =>
    simp only [act] at h
    split at h
    · simp only [Option.ite_none_right_eq_some, Option.some.injEq] at h
      exact h.2 ▸ tracked_updateCommitIndex.trans (.quiet rfl rfl rfl rfl)
    · cases h
  | addPeer id voting =>
    cases h
    exact tracked_addPeer id voting
  | resumeElections =>
    simp only [act, Option.some.injEq] at h
    subst h
    unfold resumeElections
    dsimp only
    split <;> exact .quiet rfl rfl rfl rfl
  | start =>
    cases h
    exact tracked_start
  | restart known => exact absurd rfl (hi known)
  | _ =>
    cases h
    exact .quiet rfl rfl rfl rfl

theorem step_tracked {s : Stimulus} (hs : ∀ known, s ≠ .input (.restart known))
    (h : n.step s = some n') : Tracked n n' := by
  cases s with
  | input i =>
    refine act_tracked (fun known hi => ?_) h
    exact hs known (congrArg _ hi)
  | packet p =>
    cases h
    exact receive_tracked p

end

end ClaudeCluster.Raft.RaftNode
