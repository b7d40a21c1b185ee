import Mathlib.Data.Finset.Basic
import Mathlib.Data.Finset.Dedup
import ClaudeCluster.Raft.Cluster
import ClaudeCluster.Raft.NodeLaws

/-!
# What a step can do

Every input and every packet moves a node by a short series of `Move`s, each
one change of one kind: enter a term, vote, take office, push, splice, commit.
`step_moves` is the one place where the handlers are taken apart; invariants
are then proved move by move.

A move says what made it possible. What the rest of the system contributes is
collected in an `Env`: the packets that may arrive, and for the moves whose
soundness needs more than the code checks, a condition on the node at that
moment. `Env.Allows` states these conditions for a whole step.
-/

namespace ClaudeCluster.Raft

open Lib (splice)

namespace RaftNode

-- ---------------------------------------------------------------------------
-- What a stimulus is about
-- ---------------------------------------------------------------------------

def Stimulus.requestVote : Stimulus → Option VoteCall
  | .packet (.requestVote c) => some c
  | _ => none

def Stimulus.appendEntries : Stimulus → Option AppendCall
  | .packet (.appendEntries c) => some c
  | _ => none

def Stimulus.appendReply : Stimulus → Option (AppendCall × AppendEntriesResponse)
  | .packet (.appendReply c r) => some (c, r)
  | _ => none

def Stimulus.stands : Stimulus → Bool
  | .input .electionTimeout => true
  | .input (.timeoutNow _) => true
  | _ => false

def Stimulus.restarts : Stimulus → Bool
  | .input (.restart _) => true
  | _ => false

def ending (n : RaftNode) : Stimulus → Option Election
  | .input (.electionEnds term) => n.elections.find? (·.term = term)
  | _ => none

def closing (n : RaftNode) : Stimulus → Option Round
  | .input (.roundEnds round) => n.rounds.find? (·.id = round)
  | _ => none

-- ---------------------------------------------------------------------------
-- Moves
-- ---------------------------------------------------------------------------

def voters (n : RaftNode) : Finset NodeId := (n.votingPeers.map PeerInfo.nodeId).toFinset

structure Env where
  packet : Packet → Prop
  campaign : Finset NodeId → Prop
  grant : RaftNode → RequestVoteRequest → Prop
  win : RaftNode → Election → Prop
  accept : List LogEntry → AppendEntriesRequest → Prop
  matched : RaftNode → AppendCall → Prop
  advance : RaftNode → Prop
  resolve : RaftNode → LogEntry → Prop
  reboot : RaftNode → Prop

def Env.ofPackets (packet : Packet → Prop) : Env where
  packet := packet
  campaign _ := True
  grant _ _ := True
  win _ _ := True
  accept _ _ := True
  matched _ _ := True
  advance _ := True
  resolve _ _ := True
  reboot _ := True

def PeerFrom (n : RaftNode) (p' : PeerInfo) : Prop :=
  (∃ p ∈ n.peers.values, p.nodeId = p'.nodeId ∧ p.ref = p'.ref ∧ p.matchIndex = p'.matchIndex) ∨
    (n.nextRef ≤ p'.ref ∧ p'.matchIndex = 0)

/-- Nothing that the protocol rests on has changed: only timers, flags,
`nextIndex`, the set of peers, or a pending call given up. -/
structure Quiet (n n' : RaftNode) : Prop where
  config : n'.config = n.config
  state : n'.state = n.state
  currentTerm : n'.currentTerm = n.currentTerm
  votedFor : n'.votedFor = n.votedFor
  log : n'.log = n.log
  commitIndex : n'.commitIndex = n.commitIndex
  lastApplied : n'.lastApplied = n.lastApplied
  epoch : n'.epoch = n.epoch
  stateFile : n'.stateFile = n.stateFile
  sent : n'.sent = n.sent
  votes : n'.votes = n.votes
  led : n'.led = n.led
  tenure : n'.tenure = n.tenure
  held : n'.held = n.held
  resolved : n'.resolved = n.resolved
  emitted : ∀ e, .entryCommitted e ∈ n'.emitted → .entryCommitted e ∈ n.emitted
  elections : n'.elections ⊆ n.elections
  rounds : ∀ r' ∈ n'.rounds, ∃ r ∈ n.rounds, r.entry = r'.entry
  peers : ∀ p' ∈ n'.peers.values, PeerFrom n p'
  nextRef : n.nextRef ≤ n'.nextRef
  refs : Refs n → Refs n'

inductive Move (env : Env) : RaftNode → RaftNode → Prop
  | quiet : Quiet n n' → Move env n n'
  | follow : n.currentTerm ≤ T → Move env n (n.becomeFollower T)
  | campaign : n.state ≠ .leader → env.campaign n.voters → Move env n n.becomeCandidate
  | grant : env.packet (.requestVote c) → c.request.term = n.currentTerm →
      logOk n.log c.request → n.canVote c.request → env.grant n c.request →
      Move env n (n.grantVote c.request)
  | answerVote : env.packet (.requestVote c) →
      (r.voteGranted → ∃ v ∈ n.votes, v.term = c.request.term ∧
        v.candidate = c.request.candidateId ∧ logOk v.log c.request) →
      Move env n (n.send (.voteReply c r))
  | ballot : (vote = true → ∃ c r, env.packet (.voteReply c r) ∧ c.epoch = n.epoch ∧
        c.request.term = term ∧ c.dst = peer ∧ r.voteGranted) →
      Move env n (n.castBallot term peer vote)
  | takeOffice : n.state = .candidate → e ∈ n.elections → e.votesReceived ≥ e.votesNeeded →
      env.win n e → Move env n n.takeOffice
  | push : n.state = .leader → Move env n (n.pushEntry (n.newEntry type data))
  | replicate : n.state = .leader →
      (∀ e ∈ entry, e.term = n.currentTerm ∧ ∃ l, (n.currentTerm, l ++ [e]) ∈ n.tenure) →
      Move env n (n.replicateToFollowers entry)
  | accept : env.packet (.appendEntries c) → c.request.term = n.currentTerm →
      n.consistent c.request → env.accept n.log c.request → Move env n (n.acceptEntries c.request)
  | commit : env.packet (.appendEntries c) → c.request.term = n.currentTerm →
      (n.currentTerm, n.log) ∈ n.held → Move env n (n.commitTo c.request.leaderCommit)
  | answerAppend : env.packet (.appendEntries c) →
      (r.success → r.term = c.request.term ∧
        ∃ l, (c.request.term, l) ∈ n.held ∧ r.matchIndex = lastLogIndex l) →
      Move env n (n.send (.appendReply c r))
  | matched : env.packet (.appendReply c r) → r.success → r.term ≤ n.currentTerm →
      c.epoch = n.epoch → env.matched n c → Move env n (n.recordMatch c.peer r.matchIndex)
  | advance : n.canAdvance → env.advance n → Move env n n.updateCommitIndex
  | resolve : r ∈ n.rounds → r.entry = some e → env.resolve n e →
      Move env n { n with resolved := n.resolved ++ [e] }
  | reboot {known : List (NodeId × Bool)} : env.reboot n → Move env n (n.restart known)

abbrev Moves (env : Env) : RaftNode → RaftNode → Prop := Relation.ReflTransGen (Move env)

structure Env.Allows (env : Env) (n : RaftNode) (s : Stimulus) : Prop where
  packet : ∀ p, s = .packet p → env.packet p
  campaign : s.stands → env.campaign n.voters
  grant : ∀ c ∈ s.requestVote, c.request.term = (n.observeTerm c.request.term).currentTerm →
    logOk n.log c.request → (n.observeTerm c.request.term).canVote c.request →
    env.grant (n.observeTerm c.request.term) c.request
  win : ∀ e ∈ n.ending s, n.state = .candidate → e.votesReceived ≥ e.votesNeeded → env.win n e
  accept : ∀ c ∈ s.appendEntries, n.currentTerm ≤ c.request.term → n.consistent c.request →
    env.accept n.log c.request
  matched : ∀ x ∈ s.appendReply, x.2.success → x.2.term ≤ n.currentTerm →
    x.1.epoch = n.epoch → env.matched n x.1
  advance : ∀ r ∈ n.closing s, n.canAdvance → env.advance n
  resolve : ∀ r ∈ n.closing s, ∀ e ∈ r.entry, env.resolve n.updateCommitIndex e
  reboot : s.restarts → env.reboot n

theorem Env.allows_ofPackets {packet : Packet → Prop} {n : RaftNode} {s : Stimulus}
    (h : ∀ p, s = .packet p → packet p) : (Env.ofPackets packet).Allows n s :=
  ⟨h, fun _ => trivial, fun _ _ _ _ _ => trivial, fun _ _ _ _ => trivial,
    fun _ _ _ _ => trivial, fun _ _ _ _ _ => trivial, fun _ _ _ => trivial,
    fun _ _ _ _ => trivial, fun _ => trivial⟩

section
variable {env : Env} {n n' : RaftNode}

theorem PeerFrom.same {p : PeerInfo} (hp : p ∈ n.peers.values) : PeerFrom n p :=
  .inl ⟨p, hp, rfl, rfl, rfl⟩

/-- Timers, flags and the ids of rounds do not count; the rest is asked for. -/
theorem Quiet.of (n : RaftNode) {leaderId : Option NodeId} {t1 t2 f1 f2 : Bool}
    {elections : List Election} {rounds : List Round} {peers : PeerMap}
    {emitted : List RaftEvent} {nextRound nextRef : Nat}
    (hem : ∀ e, .entryCommitted e ∈ emitted → .entryCommitted e ∈ n.emitted)
    (hel : elections ⊆ n.elections)
    (hro : ∀ r' ∈ rounds, ∃ r ∈ n.rounds, r.entry = r'.entry)
    (hre : n.nextRef ≤ nextRef)
    (hpe : ∀ p' ∈ peers.values, PeerFrom n p')
    (href : Refs n → Refs { n with peers := peers, nextRef := nextRef }) :
    Quiet n { n with
      leaderId := leaderId, electionTimeout := t1, heartbeatInterval := t2, running := f1,
      electionsPaused := f2, elections := elections, rounds := rounds, peers := peers,
      emitted := emitted, nextRound := nextRound, nextRef := nextRef } :=
  ⟨rfl, rfl, rfl, rfl, rfl, rfl, rfl, rfl, rfl, rfl, rfl, rfl, rfl, rfl, rfl, hem, hel, hro,
    hpe, hre, href⟩

theorem Quiet.timers (n : RaftNode) {leaderId : Option NodeId} {t1 t2 f1 f2 : Bool} :
    Quiet n { n with
      leaderId := leaderId, electionTimeout := t1, heartbeatInterval := t2, running := f1,
      electionsPaused := f2 } :=
  .of n (fun _ h => h) (fun _ h => h) (fun r hr => ⟨r, hr, rfl⟩) (le_refl _)
    (fun _ hp => .same hp) fun h => h

theorem Quiet.refl (n : RaftNode) : Quiet n n := .timers n

theorem quiet_noteLeader (n : RaftNode) (id : NodeId) : Quiet n (n.noteLeader id) := by
  unfold noteLeader
  split
  · exact .of n (fun e he => by simpa [emit, resetElectionTimeout] using he) (fun _ h => h)
      (fun r hr => ⟨r, hr, rfl⟩) (le_refl _) (fun _ hp => .same hp) fun h => h
  · exact .timers n

theorem quiet_assign (n : RaftNode) (f : PeerInfo → Nat × Nat)
    (hf : ∀ p ∈ n.peers.values, (f p).2 = p.matchIndex) :
    Quiet n { n with peers := n.peers.assign f } := by
  refine .of n (fun _ h => h) (fun _ h => h) (fun r hr => ⟨r, hr, rfl⟩) (le_refl _) ?_ refs_assign
  intro p' hp'
  obtain ⟨p, hp, rfl⟩ := List.mem_map.mp hp'
  exact .inl ⟨p, hp, rfl, rfl, (hf p hp).symm⟩

theorem quiet_addPeer (n : RaftNode) (id : NodeId) (voting : Bool) :
    Quiet n (n.addPeer id voting) := by
  unfold addPeer
  split
  · exact .refl n
  case isFalse hid =>
    have href := fun h : Refs n => refs_addPeer h id voting
    simp only [addPeer, hid, ↓reduceIte] at href
    refine .of n (fun _ h => h) (fun _ h => h) (fun r hr => ⟨r, hr, rfl⟩) (Nat.le_succ _) ?_ href
    intro p' hp'
    rcases PeerMap.mem_setValues hp' with rfl | hp
    · exact .inr ⟨le_refl _, rfl⟩
    · exact .same hp

theorem quiet_removePeer (n : RaftNode) (id : NodeId) : Quiet n (n.removePeer id) :=
  .of n (fun _ h => h) (fun _ h => h) (fun r hr => ⟨r, hr, rfl⟩) (le_refl _)
    (fun _ hp => .same (List.mem_of_mem_filter hp))
    fun h => refs_of_subset h fun _ hp => List.mem_of_mem_filter hp

theorem quiet_rounds (n : RaftNode) {rounds : List Round}
    (h : ∀ r' ∈ rounds, ∃ r ∈ n.rounds, r.entry = r'.entry) :
    Quiet n { n with rounds := rounds } :=
  .of n (fun _ h => h) (fun _ h => h) h (le_refl _) (fun _ hp => .same hp) fun h => h

theorem quiet_settleRound (n : RaftNode) (round peer : Nat) :
    Quiet n (n.settleRound round peer) := by
  refine quiet_rounds n ?_
  intro r' hr'
  obtain ⟨r, hr, rfl⟩ := List.mem_map.mp hr'
  refine ⟨r, hr, ?_⟩
  split <;> rfl

theorem quiet_dropElection (n : RaftNode) (e : Election) : Quiet n (n.dropElection e) :=
  .of n (fun _ h => h) (fun _ h => List.mem_of_mem_erase h) (fun r hr => ⟨r, hr, rfl⟩)
    (le_refl _) (fun _ hp => .same hp) fun h => h

theorem Quiet.moves (h : Quiet n n') : Moves env n n' := .single (.quiet h)

theorem observeTerm_moves (T : Nat) : Moves env n (n.observeTerm T) := by
  unfold observeTerm
  split
  case isTrue h => exact .single (.follow h.le)
  case isFalse => exact .refl

theorem handleRequestVote_moves {c : VoteCall} (ha : env.Allows n (.packet (.requestVote c))) :
    Moves env n (n.receive (.requestVote c)) := by
  have hp := ha.packet _ rfl
  have hg := ha.grant c rfl
  have hobs : Moves env n (n.observeTerm c.request.term) := observeTerm_moves _
  have hmax := observeTerm_currentTerm n c.request.term
  rw [← observeTerm_log n c.request.term] at hg
  simp only [receive, handleRequestVote]
  generalize hm : n.observeTerm c.request.term = m at hobs hg hmax ⊢
  split
  case isTrue h =>
    obtain ⟨hT, hlog, hcan⟩ := h
    have hT : c.request.term = m.currentTerm := le_antisymm (by omega) hT
    have hgrant := Move.grant hp hT hlog hcan (hg hT hlog hcan)
    refine ((hobs.tail hgrant).trans (Quiet.timers _).moves).tail
      (.answerVote hp ?_)
    intro _
    exact ⟨⟨m.currentTerm, c.request.candidateId, m.log⟩, List.mem_concat_self, hT.symm, rfl, hlog⟩
  case isFalse => exact hobs.tail (.answerVote hp fun h => by simp at h)

theorem handleAppendEntries_moves {c : AppendCall}
    (ha : env.Allows n (.packet (.appendEntries c))) :
    Moves env n (n.receive (.appendEntries c)) := by
  have hp := ha.packet _ rfl
  have hacc := ha.accept c rfl
  have hobs : Moves env n (n.observeTerm c.request.term) := observeTerm_moves _
  have hmax := observeTerm_currentTerm n c.request.term
  have hlog := observeTerm_log n c.request.term
  simp only [receive, handleAppendEntries]
  generalize hm : n.observeTerm c.request.term = m at hobs hmax hlog ⊢
  split
  · exact hobs.tail (.answerAppend hp fun h => by simp at h)
  case isFalse hlt =>
    have hnote := quiet_noteLeader m c.request.leaderId
    have hT : c.request.term = (m.noteLeader c.request.leaderId).currentTerm := by
      rw [hnote.currentTerm]
      omega
    have hnlog := hnote.log.trans hlog
    have hmoves : Moves env n (m.noteLeader c.request.leaderId) := hobs.trans hnote.moves
    generalize m.noteLeader c.request.leaderId = k at hT hnlog hmoves ⊢
    cases hcons : k.consistent c.request with
    | false => exact hmoves.tail (.answerAppend hp fun h => by simp at h)
    | true =>
      have hcons' : n.consistent c.request := by
        rw [consistent, ← hnlog]
        exact hcons
      have hmoves := hmoves.tail (.accept hp hT hcons (hnlog ▸ hacc (by omega) hcons'))
      have hheld : ((k.acceptEntries c.request).currentTerm, (k.acceptEntries c.request).log) ∈
          (k.acceptEntries c.request).held := List.mem_concat_self
      have hmoves := hmoves.tail (.commit hp hT hheld)
      refine hmoves.tail (.answerAppend hp fun _ => ?_)
      refine commitTo_keeps (P := fun m => m.currentTerm = c.request.term ∧
        ∃ l, (c.request.term, l) ∈ m.held ∧ m.getLastLogIndex = lastLogIndex l) ?_ (fun x => ?_) _
      · exact ⟨hT.symm, _, hT ▸ hheld, rfl⟩
      · exact ⟨hT.symm, _, hT ▸ hheld, rfl⟩

theorem handleVoteReply_moves {c : VoteCall} {r : RequestVoteResponse}
    (hp : env.packet (.voteReply c r)) : Moves env n (n.receive (.voteReply c r)) := by
  simp only [receive]
  split
  case isTrue hep =>
    unfold handleVoteReply
    split
    · split
      case isTrue hlt =>
        exact (Relation.ReflTransGen.single (.follow hlt.le)).tail (.ballot fun h => by simp at h)
      case isFalse => exact .single (.ballot fun h => ⟨c, r, hp, hep, rfl, rfl, h⟩)
    · exact .refl
  case isFalse => exact .refl

theorem handleAppendReply_moves {c : AppendCall} {r : AppendEntriesResponse}
    (ha : env.Allows n (.packet (.appendReply c r))) :
    Moves env n (n.receive (.appendReply c r)) := by
  have hp := ha.packet _ rfl
  have hm := ha.matched (c, r) rfl
  simp only [receive]
  split
  case isTrue hep =>
    unfold handleAppendReply
    refine Relation.ReflTransGen.trans ?_ (quiet_settleRound _ _ _).moves
    split
    case isTrue hlt => exact .single (.follow hlt.le)
    case isFalse hle =>
      split
      case isTrue hs =>
        have hle : r.term ≤ n.currentTerm := Nat.not_lt.mp hle
        exact .single (.matched hp hs hle hep (hm hs hle hep))
      case isFalse =>
        refine (quiet_assign n _ fun p _ => ?_).moves
        split <;> rfl
  case isFalse => exact .refl

theorem appendEntry_moves (type : LogEntryType) (data : Buffer) :
    Moves env n (n.appendEntry type data) := by
  unfold appendEntry
  split
  · exact .refl
  case isFalse hs =>
    have hs : n.state = .leader := not_not.mp hs
    refine (Relation.ReflTransGen.single (.push hs)).tail (.replicate hs ?_)
    rintro e he
    cases Option.mem_some_iff.mp he
    exact ⟨rfl, n.log, List.mem_concat_self⟩

theorem finishElection_moves {e : Election} (he : e ∈ n.elections)
    (hwin : n.state = .candidate → e.votesReceived ≥ e.votesNeeded → env.win n e) :
    Moves env n (n.finishElection e) := by
  simp only [finishElection]
  split
  · exact (quiet_dropElection n e).moves
  case isFalse hs =>
    have hs : n.state = .candidate := not_not.mp hs
    split
    case isTrue hv =>
      have hoffice := Relation.ReflTransGen.single (Move.takeOffice hs he hv (hwin hs hv))
      have hnoop := hoffice.trans (appendEntry_moves .noop [])
      refine hnoop.trans (Quiet.moves ?_)
      -- the election is dropped before, but nothing in between looks at it
      exact .of _ (fun _ h => h) (fun _ h => List.mem_of_mem_erase h)
        (fun r hr => ⟨r, hr, rfl⟩) (le_refl _) (fun _ hp => .same hp) fun h => h
    case isFalse => exact (quiet_dropElection n e).moves

theorem finishRound_moves {r : Round} (hr : r ∈ n.rounds) (hadv : n.canAdvance → env.advance n)
    (hres : ∀ e, r.entry = some e → env.resolve n.updateCommitIndex e) :
    Moves env n (n.finishRound r) := by
  have hup : Moves env n n.updateCommitIndex := by
    cases h : n.canAdvance with
    | false =>
      rw [updateCommitIndex_eq, h]
      exact .refl
    | true => exact .single (.advance h (hadv h))
  have hrounds : n.updateCommitIndex.rounds = n.rounds := by
    rw [updateCommitIndex_eq]
    split <;> rfl
  simp only [finishRound]
  generalize hm : n.updateCommitIndex = m at hup hrounds hres ⊢
  have hdrop : ∀ r' ∈ m.rounds.erase r, ∃ r ∈ m.rounds, r.entry = r'.entry :=
    fun r' hr' => ⟨r', List.mem_of_mem_erase hr', rfl⟩
  cases he : r.entry with
  | none =>
    refine hup.trans (Quiet.moves ?_)
    simpa using quiet_rounds m hdrop
  | some e =>
    have hmoves := hup.tail (.resolve (hrounds ▸ hr) he (hres e he))
    exact hmoves.trans (quiet_rounds { m with resolved := m.resolved ++ [e] } hdrop).moves

theorem start_moves : Moves env n n.start := by
  cases h : n.running with
  | true =>
    simp only [start, h, ↓reduceIte]
    exact .refl
  | false =>
    rw [start_eq n h]
    exact (Relation.ReflTransGen.single (.follow (le_max_left _ _))).trans
      (Quiet.timers _).moves

theorem act_moves {i : Input} (h : n.act i = some n') (ha : env.Allows n (.input i)) :
    Moves env n n' := by
  cases i with
  | electionTimeout =>
    simp only [act] at h
    split at h
    · cases h
      refine (Quiet.timers n).moves.trans (b := n.clearElectionTimeout) ?_
      simp only [fireElectionTimeout]
      split
      case isTrue hs => exact .single (.campaign hs.2 (ha.campaign rfl))
      case isFalse => exact .refl
    · cases h
  | timeoutNow fromTerm =>
    cases h
    unfold timeoutNow
    split
    · exact .refl
    · unfold triggerImmediateElection
      split
      · exact .refl
      case isFalse hs =>
        split
        · exact .refl
        · refine (Quiet.timers n).moves.trans (b := n.clearElectionTimeout) ?_
          exact .single (.campaign hs (ha.campaign rfl))
  | stepDown =>
    cases h
    unfold stepDown
    split
    · exact .refl
    · exact (Relation.ReflTransGen.single (.follow (le_refl _))).trans (Quiet.timers _).moves
  | appendEntry type data =>
    cases h
    exact appendEntry_moves type data
  | heartbeat =>
    simp only [act] at h
    split at h
    · cases h
      split
      case isTrue hs => exact .single (.replicate hs fun e he => by cases he)
      case isFalse => exact .refl
    · cases h
  | voteFails term peer =>
    simp only [act] at h
    split at h
    · cases h
      exact .single (.ballot fun h => by simp at h)
    · cases h
  | electionEnds term =>
    simp only [act] at h
    cases hf : n.elections.find? (·.term = term) with
    | none => simp [hf] at h
    | some e =>
      simp only [hf] at h
      split at h
      · cases h
        exact finishElection_moves (List.mem_of_find?_eq_some hf) (ha.win e hf)
      · cases h
  | appendFails round peer =>
    cases h
    exact (quiet_settleRound n round peer).moves
  | roundEnds round =>
    simp only [act] at h
    cases hf : n.rounds.find? (·.id = round) with
    | none => simp [hf] at h
    | some r =>
      simp only [hf] at h
      split at h
      · cases h
        exact finishRound_moves (List.mem_of_find?_eq_some hf) (ha.advance r hf) (ha.resolve r hf)
      · cases h
  | addPeer id voting =>
    cases h
    exact (quiet_addPeer n id voting).moves
  | removePeer id =>
    cases h
    exact (quiet_removePeer n id).moves
  | pauseElections =>
    cases h
    exact (Quiet.timers n).moves
  | resumeElections =>
    cases h
    simp only [resumeElections]
    split <;> exact (Quiet.timers n).moves
  | delayNextElection =>
    cases h
    exact (Quiet.timers n).moves
  | stop =>
    cases h
    exact (Quiet.timers n).moves
  | start =>
    cases h
    exact start_moves
  | restart known =>
    cases h
    exact .single (.reboot (ha.reboot rfl))

theorem step_moves {s : Stimulus} (h : n.step s = some n') (ha : env.Allows n s) :
    Moves env n n' := by
  cases s with
  | input i => exact act_moves h ha
  | packet p =>
    cases h
    cases p with
    | requestVote c => exact handleRequestVote_moves ha
    | voteReply c r => exact handleVoteReply_moves (ha.packet _ rfl)
    | appendEntries c => exact handleAppendEntries_moves ha
    | appendReply c r => exact handleAppendReply_moves ha

end

end RaftNode

end ClaudeCluster.Raft
