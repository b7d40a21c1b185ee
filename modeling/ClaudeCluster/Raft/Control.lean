import ClaudeCluster.Raft.Moves

/-!
# Roles and timers

What decides whether a node campaigns, leads or waits is a small part of it:
`Control`. Seven methods write it, each only some of its fields. `Shift` lists
what a stimulus can do to it, with the guard the code has passed on the way;
`step_shift` is the one place where the handlers are taken apart for it.
-/

namespace ClaudeCluster.Raft

namespace RaftNode

structure Control where
  nodeId : NodeId
  nonVoting : Bool
  state : RaftState
  currentTerm : Nat
  leaderId : Option NodeId
  electionTimeout : Bool
  heartbeatInterval : Bool
  running : Bool
  electionsPaused : Bool
  epoch : Nat
  deriving DecidableEq, Repr

def control (n : RaftNode) : Control where
  nodeId := n.nodeId
  nonVoting := n.config.nonVoting
  state := n.state
  currentTerm := n.currentTerm
  leaderId := n.leaderId
  electionTimeout := n.electionTimeout
  heartbeatInterval := n.heartbeatInterval
  running := n.running
  electionsPaused := n.electionsPaused
  epoch := n.epoch

namespace Control

def rearm (k : Control) : Control :=
  { k with electionTimeout := !k.nonVoting && !k.electionsPaused }

/-- `becomeFollower`: both timers are cleared, the leader stays. -/
def follow (T : Nat) (k : Control) : Control :=
  { k with
    state := .follower
    currentTerm := T
    electionTimeout := false
    heartbeatInterval := false }

def observe (T : Nat) (k : Control) : Control := if T > k.currentTerm then k.follow T else k

theorem observe_of_gt {k : Control} {T : Nat} (h : T > k.currentTerm) : k.observe T = k.follow T :=
  if_pos h

theorem observe_of_le {k : Control} {T : Nat} (h : T ≤ k.currentTerm) : k.observe T = k :=
  if_neg (Nat.not_lt.mpr h)

def campaign (k : Control) : Control :=
  { k with state := .candidate, currentTerm := k.currentTerm + 1, leaderId := none }.rearm

def lead (k : Control) : Control :=
  { k with
    state := .leader
    leaderId := some k.nodeId
    electionTimeout := false
    heartbeatInterval := true }

def note (leaderId : NodeId) (k : Control) : Control :=
  { k with leaderId := some leaderId }.rearm

def fresh (T epoch : Nat) (k : Control) : Control where
  nodeId := k.nodeId
  nonVoting := k.nonVoting
  state := .follower
  currentTerm := T
  leaderId := none
  electionTimeout := !k.nonVoting
  heartbeatInterval := false
  running := true
  electionsPaused := false
  epoch := epoch

end Control

/-- The term a start finds on disk, 0 for none. -/
def filedTerm (n : RaftNode) : Nat :=
  if n.persistent then (n.stateFile.map PersistedState.currentTerm).getD 0 else 0

inductive Shift (n : RaftNode) : Stimulus → Control → Prop
  | idle : Shift n s n.control
  | refused : c.request.term > n.currentTerm → ¬ logOk n.log c.request →
      Shift n (.packet (.requestVote c)) (n.control.follow c.request.term)
  | granted : n.currentTerm ≤ c.request.term → logOk n.log c.request →
      Shift n (.packet (.requestVote c)) (n.control.observe c.request.term).rearm
  | outvoted : c.epoch = n.epoch → n.awaitsVote c.request.term c.dst → r.term > n.currentTerm →
      Shift n (.packet (.voteReply c r)) (n.control.follow r.term)
  | outranked : c.epoch = n.epoch → r.term > n.currentTerm →
      Shift n (.packet (.appendReply c r)) (n.control.follow r.term)
  | led : n.currentTerm ≤ c.request.term →
      Shift n (.packet (.appendEntries c))
        ((n.control.observe c.request.term).note c.request.leaderId)
  | expired : n.electionTimeout → n.running → n.state ≠ .leader →
      Shift n (.input .electionTimeout) n.control.campaign
  | spent : n.electionTimeout → (n.running → n.state = .leader) →
      Shift n (.input .electionTimeout) { n.control with electionTimeout := false }
  | timeoutNow : n.currentTerm ≤ T → n.state ≠ .leader → n.config.nonVoting = false →
      Shift n (.input (.timeoutNow T)) n.control.campaign
  | steppedDown : n.state = .leader →
      Shift n (.input .stepDown) (n.control.follow n.currentTerm).rearm
  | elected : e ∈ n.ending (.input (.electionEnds T)) → n.state = .candidate →
      e.votesReceived ≥ e.votesNeeded → Shift n (.input (.electionEnds T)) n.control.lead
  | paused : Shift n (.input .pauseElections)
      { n.control with electionsPaused := true, electionTimeout := false }
  | resumed : n.running → n.state ≠ .leader →
      Shift n (.input .resumeElections) { n.control with electionsPaused := false }.rearm
  | resumedIdle : (n.running → n.state = .leader) →
      Shift n (.input .resumeElections) { n.control with electionsPaused := false }
  | delayed : Shift n (.input .delayNextElection) { n.control with electionTimeout := true }
  | stopped : Shift n (.input .stop)
      { n.control with running := false, electionTimeout := false, heartbeatInterval := false }
  | started : n.running = false →
      Shift n (.input .start)
        { n.control.follow (max n.currentTerm n.filedTerm) with running := true }.rearm
  | restarted : Shift n (.input (.restart known)) (n.control.fresh n.filedTerm (n.epoch + 1))

section
variable {n n' : RaftNode}

theorem Shift.same {s : Stimulus} (h : n'.control = n.control) : Shift n s n'.control :=
  h ▸ .idle

-- ---------------------------------------------------------------------------
-- The control of each method
-- ---------------------------------------------------------------------------

theorem control_observeTerm (T : Nat) : (n.observeTerm T).control = n.control.observe T := by
  unfold observeTerm Control.observe
  split
  case isTrue h => exact (if_pos h).symm
  case isFalse h => exact (if_neg h).symm

theorem control_noteLeader (id : NodeId) : (n.noteLeader id).control = n.control.note id := by
  unfold noteLeader
  split <;> rfl

theorem control_commitTo (c : Nat) : (n.commitTo c).control = n.control :=
  commitTo_keeps (P := fun m => m.control = n.control) rfl (fun _ => rfl) c

theorem control_updateCommitIndex : n.updateCommitIndex.control = n.control :=
  updateCommitIndex_keeps (P := fun m => m.control = n.control) rfl fun _ => rfl

theorem control_appendEntry (type : LogEntryType) (data : Buffer) :
    (n.appendEntry type data).control = n.control := by
  unfold appendEntry
  split <;> rfl

theorem control_addPeer (id : NodeId) (voting : Bool) :
    (n.addPeer id voting).control = n.control := by
  unfold addPeer
  split <;> rfl

-- ---------------------------------------------------------------------------
-- The steps
-- ---------------------------------------------------------------------------

theorem shift_requestVote (n : RaftNode) (c : VoteCall) :
    Shift n (.packet (.requestVote c)) (n.receive (.requestVote c)).control := by
  have hctl := control_observeTerm (n := n) c.request.term
  have hmax := observeTerm_currentTerm n c.request.term
  have hlog := observeTerm_log n c.request.term
  simp only [receive, handleRequestVote]
  split
  case isTrue h =>
    have hT : n.currentTerm ≤ c.request.term := by omega
    have hgranted := Shift.granted hT (hlog ▸ h.2.1)
    rw [← hctl] at hgranted
    exact hgranted
  case isFalse h =>
    show Shift n _ (n.observeTerm c.request.term).control
    by_cases hT : c.request.term > n.currentTerm
    · -- a new term comes without a vote, so the log was the reason
      have hcan : (n.observeTerm c.request.term).canVote c.request := by
        simp [observeTerm, hT, canVote, becomeFollower, emit, saveState, clearTimers]
      have hge : c.request.term ≥ (n.observeTerm c.request.term).currentTerm := by omega
      have hbad : ¬ logOk n.log c.request := fun hok => h ⟨hge, hlog ▸ hok, hcan⟩
      rw [hctl, Control.observe_of_gt (k := n.control) hT]
      exact .refused hT hbad
    · rw [hctl, Control.observe_of_le (k := n.control) (Nat.not_lt.mp hT)]
      exact .idle

/-- A request that is not stale is noted, whether its entries fit or not. -/
theorem control_appendEntries {c : AppendCall} (h : n.currentTerm ≤ c.request.term) :
    (n.receive (.appendEntries c)).control =
      (n.control.observe c.request.term).note c.request.leaderId := by
  have hmax := observeTerm_currentTerm n c.request.term
  rw [← control_observeTerm, ← control_noteLeader]
  simp only [receive, handleAppendEntries]
  split
  case isTrue hlt => omega
  case isFalse =>
    split
    · rfl
    · exact control_commitTo _

theorem shift_appendEntries (n : RaftNode) (c : AppendCall) :
    Shift n (.packet (.appendEntries c)) (n.receive (.appendEntries c)).control := by
  by_cases hT : n.currentTerm ≤ c.request.term
  · rw [control_appendEntries hT]
    exact .led hT
  · have hobs : n.observeTerm c.request.term = n := if_neg (by omega)
    have hlt : c.request.term < n.currentTerm := Nat.not_le.mp hT
    refine .same ?_
    simp only [receive, handleAppendEntries, hobs, hlt, ↓reduceIte]
    rfl

theorem shift_voteReply (n : RaftNode) (c : VoteCall) (r : RequestVoteResponse) :
    Shift n (.packet (.voteReply c r)) (n.receive (.voteReply c r)).control := by
  simp only [receive]
  split
  case isTrue hep =>
    unfold handleVoteReply
    split
    case isTrue haw =>
      split
      case isTrue hT => exact .outvoted hep haw hT
      case isFalse => exact .same rfl
    case isFalse => exact .idle
  case isFalse => exact .idle

theorem shift_appendReply (n : RaftNode) (c : AppendCall) (r : AppendEntriesResponse) :
    Shift n (.packet (.appendReply c r)) (n.receive (.appendReply c r)).control := by
  simp only [receive]
  split
  case isTrue hep =>
    unfold handleAppendReply
    split
    case isTrue hT => exact .outranked hep hT
    case isFalse =>
      split
      · exact .same rfl
      · exact .same rfl
  case isFalse => exact .idle

theorem shift_electionTimeout (h : n.act .electionTimeout = some n') :
    Shift n (.input .electionTimeout) n'.control := by
  simp only [act] at h
  split at h
  case isTrue harmed =>
    cases h
    simp only [fireElectionTimeout]
    split
    case isTrue hrun => exact .expired harmed hrun.1 hrun.2
    case isFalse hno =>
      exact .spent harmed fun hrun => by_contra fun hs => hno ⟨hrun, hs⟩
  case isFalse => cases h

theorem shift_timeoutNow (n : RaftNode) (T : Nat) :
    Shift n (.input (.timeoutNow T)) (n.timeoutNow T).control := by
  unfold timeoutNow
  split
  · exact .idle
  case isFalse hT =>
    unfold triggerImmediateElection
    split
    · exact .idle
    case isFalse hs =>
      split
      · exact .idle
      case isFalse hv => exact .timeoutNow (Nat.not_lt.mp hT) hs (Bool.eq_false_iff.mpr hv)

theorem shift_electionEnds {T : Nat} (h : n.act (.electionEnds T) = some n') :
    Shift n (.input (.electionEnds T)) n'.control := by
  simp only [act] at h
  cases hf : n.elections.find? (·.term = T) with
  | none => simp [hf] at h
  | some e =>
    simp only [hf] at h
    split at h
    · cases h
      simp only [finishElection]
      split
      · exact .same rfl
      case isFalse hs =>
        split
        case isTrue hv => exact .elected hf (not_not.mp hs) hv
        case isFalse => exact .same rfl
    · cases h

theorem shift_roundEnds {round : Nat} (h : n.act (.roundEnds round) = some n') :
    Shift n (.input (.roundEnds round)) n'.control := by
  simp only [act] at h
  cases hf : n.rounds.find? (·.id = round) with
  | none => simp [hf] at h
  | some r =>
    simp only [hf] at h
    split at h
    · cases h
      exact .same control_updateCommitIndex
    · cases h

theorem shift_start (n : RaftNode) : Shift n (.input .start) n.start.control := by
  cases h : n.running with
  | true =>
    simp only [start, h, ↓reduceIte]
    exact .idle
  | false =>
    rw [start_eq n h]
    exact .started h

theorem shift_restart (n : RaftNode) (known : List (NodeId × Bool)) :
    Shift n (.input (.restart known)) (n.restart known).control := by
  obtain ⟨peers, nextRef, T, heq, -, hT⟩ := restart_eq known n
  rw [heq, hT]
  exact .restarted

theorem act_shift {i : Input} (h : n.act i = some n') : Shift n (.input i) n'.control := by
  cases i with
  | electionTimeout => exact shift_electionTimeout h
  | timeoutNow T =>
    cases h
    exact shift_timeoutNow n T
  | stepDown =>
    cases h
    unfold stepDown
    split
    · exact .idle
    case isFalse hs => exact .steppedDown (not_not.mp hs)
  | appendEntry type data =>
    cases h
    exact .same (control_appendEntry type data)
  | heartbeat =>
    simp only [act] at h
    split at h
    · cases h
      split <;> exact .same rfl
    · cases h
  | voteFails term peer =>
    simp only [act] at h
    split at h
    · cases h
      exact .same rfl
    · cases h
  | electionEnds T => exact shift_electionEnds h
  | appendFails round peer =>
    cases h
    exact .same rfl
  | roundEnds round => exact shift_roundEnds h
  | addPeer id voting =>
    cases h
    exact .same (control_addPeer id voting)
  | removePeer id =>
    cases h
    exact .same rfl
  | pauseElections =>
    cases h
    exact .paused
  | resumeElections =>
    cases h
    simp only [resumeElections]
    split
    case isTrue hrun => exact .resumed hrun.1 hrun.2
    case isFalse hno => exact .resumedIdle fun hrun => by_contra fun hs => hno ⟨hrun, hs⟩
  | delayNextElection =>
    cases h
    exact .delayed
  | stop =>
    cases h
    exact .stopped
  | start =>
    cases h
    exact shift_start n
  | restart known =>
    cases h
    exact shift_restart n known

theorem step_shift {s : Stimulus} (h : n.step s = some n') : Shift n s n'.control := by
  cases s with
  | input i => exact act_shift h
  | packet p =>
    cases h
    cases p with
    | requestVote c => exact shift_requestVote n c
    | voteReply c r => exact shift_voteReply n c r
    | appendEntries c => exact shift_appendEntries n c
    | appendReply c r => exact shift_appendReply n c r

end

-- ---------------------------------------------------------------------------
-- A node by itself
-- ---------------------------------------------------------------------------

/-- A node object from its constructor on, whatever calls and packets come.
A new process may find a state file. -/
def lone : Lib.System RaftNode Stimulus where
  init n := ∃ config stateFile, n = { config, stateFile }
  step := step

section
variable {J : Control → Prop} {G : RaftNode → Stimulus → Prop} {n n' : RaftNode}

/-- What every shift the guard lets through keeps, a run keeps. -/
theorem control_after (hshift : ∀ n s k, J n.control → G n s → Shift n s k → J k)
    (hn : J n.control) (h : (lone.after n).Reach G n') : J n'.control := by
  refine h.invariant (I := fun n => J n.control) ?_ ?_
  · rintro m rfl
    exact hn
  · intro m s m' _ hm hg hs
    exact hshift m s m'.control hm hg (step_shift hs)

theorem lone_control (hinit : ∀ config stateFile, J (control { config, stateFile }))
    (hshift : ∀ n s k, J n.control → G n s → Shift n s k → J k) (h : lone.Reach G n) :
    J n.control := by
  refine h.invariant (I := fun n => J n.control) ?_ ?_
  · rintro m ⟨config, stateFile, rfl⟩
    exact hinit config stateFile
  · intro m s m' _ hm hg hs
    exact hshift m s m'.control hm hg (step_shift hs)

end

end RaftNode

end ClaudeCluster.Raft
