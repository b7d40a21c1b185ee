import ClaudeCluster.Raft.NodeLaws

/-!
# What the listeners get

`emitted` is everything the listeners of a node have been told, over all its
processes. A step adds to it, and `step_emits` says what: entries only where
the step raises the commit index, and then those of the log that stands after
the step, position after position from `lastApplied` on.
-/

namespace ClaudeCluster.Raft

def RaftEvent.entry? : RaftEvent → Option LogEntry
  | .entryCommitted entry => some entry
  | _ => none

namespace RaftNode

def committed (events : List RaftEvent) : List LogEntry := events.filterMap RaftEvent.entry?

/-- The step raises the commit index: an accepted `AppendEntries` that carries
a later one, or the end of a round that a majority has answered. -/
def commits (n : RaftNode) : Stimulus → Bool
  | .packet (.appendEntries c) =>
    n.currentTerm ≤ c.request.term && n.consistent c.request &&
      n.commitIndex < c.request.leaderCommit
  | .input (.roundEnds _) => n.canAdvance
  | _ => false

-- ---------------------------------------------------------------------------
-- Methods that tell of no entry
-- ---------------------------------------------------------------------------

def Silent (n n' : RaftNode) : Prop :=
  ∃ events, n'.emitted = n.emitted ++ events ∧ committed events = []

section
variable {n n' n'' : RaftNode}

theorem Silent.of_eq (h : n'.emitted = n.emitted) : Silent n n' :=
  ⟨[], by rw [h, List.append_nil], rfl⟩

theorem Silent.trans (h : Silent n n') (h' : Silent n' n'') : Silent n n'' := by
  obtain ⟨events, he, hc⟩ := h
  obtain ⟨events', he', hc'⟩ := h'
  refine ⟨events ++ events', ?_, ?_⟩
  · rw [he', he, List.append_assoc]
  · rw [committed, List.filterMap_append]
    exact List.append_eq_nil_iff.mpr ⟨hc, hc'⟩

theorem silent_becomeFollower (T : Nat) : Silent n (n.becomeFollower T) :=
  ⟨[.stateChange .follower T], rfl, rfl⟩

theorem silent_observeTerm (T : Nat) : Silent n (n.observeTerm T) := by
  unfold observeTerm
  split
  · exact silent_becomeFollower T
  · exact .of_eq rfl

theorem silent_noteLeader (id : NodeId) : Silent n (n.noteLeader id) := by
  unfold noteLeader
  split
  · exact ⟨[.leaderChanged id], rfl, rfl⟩
  · exact .of_eq rfl

theorem silent_becomeCandidate : Silent n n.becomeCandidate :=
  ⟨[.stateChange .candidate (n.currentTerm + 1)], rfl, rfl⟩

theorem silent_appendEntry (type : LogEntryType) (data : Buffer) :
    Silent n (n.appendEntry type data) := by
  unfold appendEntry
  split <;> exact .of_eq rfl

theorem silent_becomeLeader : Silent n n.becomeLeader := by
  have h : Silent n n.takeOffice :=
    ⟨[.stateChange .leader n.currentTerm, .leaderElected n.nodeId], by simp [takeOffice, emit,
      clearTimers], rfl⟩
  exact (h.trans (silent_appendEntry .noop [])).trans (.of_eq rfl)

theorem silent_triggerImmediateElection : Silent n n.triggerImmediateElection := by
  unfold triggerImmediateElection
  split
  · exact .of_eq rfl
  · split
    · exact .of_eq rfl
    · exact silent_becomeCandidate

theorem silent_fireElectionTimeout : Silent n n.fireElectionTimeout := by
  unfold fireElectionTimeout
  dsimp only
  split
  · exact silent_becomeCandidate
  · exact .of_eq rfl

theorem silent_stepDown : Silent n n.stepDown := by
  unfold stepDown
  split
  · exact .of_eq rfl
  · exact silent_becomeFollower n.currentTerm

theorem silent_finishElection (e : Election) : Silent n (n.finishElection e) := by
  unfold finishElection
  dsimp only
  split
  · exact .of_eq rfl
  · split
    · exact silent_becomeLeader
    · exact .of_eq rfl

theorem silent_handleRequestVote (r : RequestVoteRequest) :
    Silent n (n.handleRequestVote r).1 := by
  have h := silent_observeTerm (n := n) r.term
  unfold handleRequestVote
  dsimp only
  split
  · exact h.trans (.of_eq rfl)
  · exact h

theorem silent_handleVoteReply (c : VoteCall) (r : RequestVoteResponse) :
    Silent n (n.handleVoteReply c r) := by
  unfold handleVoteReply
  split
  · split
    · exact silent_becomeFollower r.term
    · exact .of_eq rfl
  · exact .of_eq rfl

theorem silent_handleAppendReply (c : AppendCall) (r : AppendEntriesResponse) :
    Silent n (n.handleAppendReply c r) := by
  unfold handleAppendReply
  dsimp only
  split
  · exact silent_becomeFollower r.term
  · split <;> exact .of_eq rfl

theorem silent_addPeer (id : NodeId) (voting : Bool) : Silent n (n.addPeer id voting) := by
  unfold addPeer
  split <;> exact .of_eq rfl

theorem silent_start : Silent n n.start := by
  cases h : n.running with
  | true =>
    simp only [start, h, ↓reduceIte]
    exact .of_eq rfl
  | false =>
    rw [start_eq n h]
    exact silent_becomeFollower n.startTerm

theorem silent_restart (known : List (NodeId × Bool)) : Silent n (n.restart known) := by
  obtain ⟨peers, nextRef, T, heq, -⟩ := restart_eq known n
  rw [heq]
  exact ⟨[.stateChange .follower T], rfl, rfl⟩

end

-- ---------------------------------------------------------------------------
-- Steps
-- ---------------------------------------------------------------------------

/-- From `n` to `n'` the listeners heard of the `k` positions of the log after
`lastApplied`, in order, and of no other entry. -/
def Emits (n n' : RaftNode) (k : Nat) : Prop :=
  ∃ events, n'.emitted = n.emitted ++ events ∧
    committed events = (List.range' n.lastApplied k).filterMap (n'.log[·]?)

section
variable {n m n' : RaftNode}

theorem Silent.emits (h : Silent n n') : Emits n n' 0 := h

theorem committed_map_entryCommitted (es : List LogEntry) :
    committed (es.map .entryCommitted) = es := by
  rw [committed, List.filterMap_map]
  exact List.filterMap_some

theorem emits_commitAt (c : Nat) : Emits n (n.commitAt c) (c - n.lastApplied) :=
  ⟨_, rfl, committed_map_entryCommitted _⟩

theorem Silent.then_emits {k : Nat} (h : Silent n m) (ha : m.lastApplied = n.lastApplied)
    (h' : Emits m n' k) : Emits n n' k := by
  obtain ⟨events, he, hc⟩ := h
  obtain ⟨events', he', hc'⟩ := h'
  refine ⟨events ++ events', ?_, ?_⟩
  · rw [he', he, List.append_assoc]
  · rw [committed, List.filterMap_append]
    change committed events ++ committed events' = _
    rw [hc, hc', ha, List.nil_append]

end

theorem observeTerm_fields (n : RaftNode) (T : Nat) :
    (n.observeTerm T).log = n.log ∧ (n.observeTerm T).commitIndex = n.commitIndex ∧
      (n.observeTerm T).lastApplied = n.lastApplied := by
  unfold observeTerm
  split <;> exact ⟨rfl, rfl, rfl⟩

theorem noteLeader_fields (n : RaftNode) (id : NodeId) :
    (n.noteLeader id).log = n.log ∧ (n.noteLeader id).commitIndex = n.commitIndex ∧
      (n.noteLeader id).lastApplied = n.lastApplied := by
  unfold noteLeader
  split <;> exact ⟨rfl, rfl, rfl⟩

theorem handleAppendEntries_emits (n : RaftNode) (c : AppendCall) :
    ∃ k, Emits n (n.handleAppendEntries c.request).1 k ∧
      (0 < k → n.commits (.packet (.appendEntries c))) := by
  have hobs := silent_observeTerm (n := n) c.request.term
  have hterm := observeTerm_currentTerm n c.request.term
  obtain ⟨hlog, hci, hla⟩ := observeTerm_fields n c.request.term
  simp only [handleAppendEntries]
  generalize n.observeTerm c.request.term = m at hobs hterm hlog hci hla ⊢
  split
  · exact ⟨0, hobs.emits, fun h => absurd h (lt_irrefl 0)⟩
  case isFalse hlt =>
    have hnote := hobs.trans (silent_noteLeader c.request.leaderId)
    obtain ⟨hlog', hci', hla'⟩ := noteLeader_fields m c.request.leaderId
    rw [hlog] at hlog'
    rw [hci] at hci'
    rw [hla] at hla'
    generalize m.noteLeader c.request.leaderId = m' at hnote hlog' hci' hla' ⊢
    have hcons : m'.consistent c.request = n.consistent c.request := by
      rw [consistent, consistent, hlog']
    cases hc : m'.consistent c.request with
    | false => exact ⟨0, hnote.emits, fun h => absurd h (lt_irrefl 0)⟩
    | true =>
      have hacc : Silent n (m'.acceptEntries c.request) := hnote.trans (.of_eq rfl)
      have hla'' : (m'.acceptEntries c.request).lastApplied = n.lastApplied := hla'
      have hci'' : (m'.acceptEntries c.request).commitIndex = n.commitIndex := hci'
      simp only [Bool.not_true, Bool.false_eq_true, ↓reduceIte]
      rw [commitTo_eq]
      split
      case isTrue hgt =>
        refine ⟨_, hacc.then_emits hla'' (emits_commitAt _), fun _ => ?_⟩
        have hle : n.currentTerm ≤ c.request.term := by omega
        simp [commits, hle, ← hcons, hc, ← hci'', hgt]
      case isFalse => exact ⟨0, hacc.emits, fun h => absurd h (lt_irrefl 0)⟩

theorem updateCommitIndex_emits (n : RaftNode) :
    ∃ k, Emits n n.updateCommitIndex k ∧ (0 < k → n.canAdvance) := by
  rw [updateCommitIndex_eq]
  split
  case isTrue h => exact ⟨_, emits_commitAt _, fun _ => h⟩
  case isFalse => exact ⟨0, Silent.emits (.of_eq rfl), fun h => absurd h (lt_irrefl 0)⟩

theorem Silent.step_emits {n n' : RaftNode} {s : Stimulus} (h : Silent n n') :
    ∃ k, Emits n n' k ∧ (0 < k → n.commits s) :=
  ⟨0, h.emits, fun h => absurd h (lt_irrefl 0)⟩

theorem receive_emits (n : RaftNode) (p : Packet) :
    ∃ k, Emits n (n.receive p) k ∧ (0 < k → n.commits (.packet p)) := by
  cases p with
  | requestVote c => exact Silent.step_emits (silent_handleRequestVote c.request)
  | voteReply c r =>
    refine Silent.step_emits ?_
    simp only [receive]
    split
    · exact silent_handleVoteReply c r
    · exact .of_eq rfl
  | appendEntries c => exact handleAppendEntries_emits n c
  | appendReply c r =>
    refine Silent.step_emits ?_
    simp only [receive]
    split
    · exact silent_handleAppendReply c r
    · exact .of_eq rfl

theorem act_emits {n n' : RaftNode} {i : Input} (h : n.act i = some n') :
    ∃ k, Emits n n' k ∧ (0 < k → n.commits (.input i)) := by
  cases i with
  | electionTimeout =>
    simp only [act, Option.ite_none_right_eq_some, Option.some.injEq] at h
    exact h.2 ▸ silent_fireElectionTimeout.step_emits
  | timeoutNow T =>
    simp only [act, Option.some.injEq] at h
    subst h
    refine Silent.step_emits ?_
    unfold timeoutNow
    split
    · exact .of_eq rfl
    · exact silent_triggerImmediateElection
  | stepDown =>
    cases h
    exact silent_stepDown.step_emits
  | appendEntry type data =>
    cases h
    exact (silent_appendEntry type data).step_emits
  | heartbeat =>
    simp only [act, Option.ite_none_right_eq_some, Option.some.injEq] at h
    obtain ⟨-, rfl⟩ := h
    refine Silent.step_emits ?_
    split <;> exact .of_eq rfl
  | voteFails T peer =>
    simp only [act, Option.ite_none_right_eq_some, Option.some.injEq] at h
    exact h.2 ▸ Silent.step_emits (.of_eq rfl)
  | electionEnds T =>
    simp only [act] at h
    split at h
    · simp only [Option.ite_none_right_eq_some, Option.some.injEq] at h
      exact h.2 ▸ (silent_finishElection _).step_emits
    · cases h
  | roundEnds round =>
    simp only [act] at h
    split at h
    · simp only [Option.ite_none_right_eq_some, Option.some.injEq] at h
      exact h.2 ▸ updateCommitIndex_emits n
    · cases h
  | addPeer id voting =>
    cases h
    exact (silent_addPeer id voting).step_emits
  | resumeElections =>
    simp only [act, Option.some.injEq] at h
    subst h
    refine Silent.step_emits ?_
    unfold resumeElections
    dsimp only
    split <;> exact .of_eq rfl
  | start =>
    cases h
    exact silent_start.step_emits
  | restart known =>
    cases h
    exact (silent_restart known).step_emits
  | _ =>
    cases h
    exact Silent.step_emits (.of_eq rfl)

/-- Every entry a step tells of is read from the log after it, the next
position first, and only a step that commits tells of any. -/
theorem step_emits {n n' : RaftNode} {s : Stimulus} (h : n.step s = some n') :
    ∃ k, Emits n n' k ∧ (0 < k → n.commits s) := by
  cases s with
  | input i => exact act_emits h
  | packet p =>
    cases h
    exact receive_emits n p

end RaftNode

end ClaudeCluster.Raft
