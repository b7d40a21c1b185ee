import ClaudeCluster.Raft.Runs

/-!
# Votes

A node votes for at most one candidate in a term as long as it remembers its
vote. Two methods make it forget: `stepDown()` and `start()` run
`becomeFollower` with the current term, which clears `votedFor`, and the state
file with it. `RemembersVote` names the one delivery at which that shows.
-/

namespace ClaudeCluster.Raft

namespace RaftNode

-- ---------------------------------------------------------------------------
-- The term on disk
-- ---------------------------------------------------------------------------

/-- Nothing the node has done lies in a term it has not reached, and a restart
finds the term on disk. -/
structure Filed (n : RaftNode) : Prop where
  file : n.persistent → n.stateFile.map PersistedState.currentTerm = some n.currentTerm
  votes : ∀ v ∈ n.votes, v.term ≤ n.currentTerm
  held : ∀ T l, (T, l) ∈ n.held → T ≤ n.currentTerm
  tenure : ∀ T l, (T, l) ∈ n.tenure → T ≤ n.currentTerm
  led : ∀ t ∈ n.led, t.term ≤ n.currentTerm ∧ (t.term = n.currentTerm → n.state ≠ .candidate)

section
variable {n n' : RaftNode} {env : Env}

theorem Filed.commitAt (h : Filed n) (c : Nat) : Filed (n.commitAt c) :=
  ⟨h.file, h.votes, h.held, h.tenure, h.led⟩

theorem file_saved {old : Option PersistedState}
    (h : n.stateFile = if n.persistent then some ⟨n.currentTerm, n.votedFor⟩ else old)
    (hp : n.persistent) : n.stateFile.map PersistedState.currentTerm = some n.currentTerm := by
  rw [h, if_pos hp]
  rfl

theorem Filed.move (hreboot : ∀ n, env.reboot n → n.persistent) (h : Filed n)
    (hm : Move env n n') : Filed n' := by
  cases hm with
  | quiet q =>
    refine ⟨?_, ?_, ?_, ?_, ?_⟩
    · simp only [persistent, q.config, q.stateFile, q.currentTerm]
      exact h.file
    · rw [q.votes, q.currentTerm]
      exact h.votes
    · rw [q.held, q.currentTerm]
      exact h.held
    · rw [q.tenure, q.currentTerm]
      exact h.tenure
    · rw [q.led, q.currentTerm, q.state]
      exact h.led
  | follow hT =>
    exact ⟨file_saved rfl, fun v hv => (h.votes v hv).trans hT,
      fun T l hl => (h.held T l hl).trans hT, fun T l hl => (h.tenure T l hl).trans hT,
      fun t ht => ⟨(h.led t ht).1.trans hT, fun _ => nofun⟩⟩
  | campaign =>
    refine ⟨file_saved rfl, ?_, fun T l hl => (h.held T l hl).trans (Nat.le_succ _),
      fun T l hl => (h.tenure T l hl).trans (Nat.le_succ _), ?_⟩
    · exact forall_mem_concat (fun v hv => (h.votes v hv).trans (Nat.le_succ _)) (le_refl _)
    · intro t ht
      have hle := (h.led t ht).1
      exact ⟨hle.trans (Nat.le_succ _), fun heq => absurd (heq ▸ hle) (Nat.not_succ_le_self _)⟩
  | grant =>
    exact { h with file := file_saved rfl, votes := forall_mem_concat h.votes (le_refl _) }
  | takeOffice =>
    have hled : ∀ t ∈ n.led, t.term ≤ n.currentTerm ∧
        (t.term = n.currentTerm → RaftState.leader ≠ .candidate) :=
      fun t ht => ⟨(h.led t ht).1, fun _ => nofun⟩
    exact { h with
      tenure := forall_pair_concat h.tenure (le_refl _)
      led := forall_mem_concat hled ⟨le_refl _, fun _ => nofun⟩ }
  | push => exact { h with tenure := forall_pair_concat h.tenure (le_refl _) }
  | accept => exact { h with held := forall_pair_concat h.held (le_refl _) }
  | commit => exact commitTo_keeps (P := Filed) h h.commitAt _
  | advance => exact updateCommitIndex_keeps (P := Filed) h h.commitAt
  | @reboot n known hr =>
    obtain ⟨peers, nextRef, T, heq, -, hT⟩ := restart_eq known n
    have hp := hreboot n hr
    rw [h.file hp, if_pos hp] at hT
    cases hT
    rw [heq]
    refine { h with file := ?_, led := fun t ht => ⟨(h.led t ht).1, fun _ => nofun⟩ }
    intro _
    simp [hp]
  | _ => exact { h with }

theorem filed_boot (config : RaftConfig) (known : List (NodeId × Bool)) :
    Filed (boot config known) := by
  obtain ⟨peers, nextRef, heq, -⟩ := boot_eq config known
  rw [heq]
  refine ⟨?_, nofun, nofun, nofun, nofun⟩
  intro hp
  rw [← heq] at hp
  simp [hp]

end

-- ---------------------------------------------------------------------------
-- One vote a term
-- ---------------------------------------------------------------------------

def OneVote (n : RaftNode) : Prop :=
  ∀ v ∈ n.votes, ∀ v' ∈ n.votes, v.term = v'.term → v.candidate = v'.candidate

def Remembered (n : RaftNode) : Prop :=
  ∀ v ∈ n.votes, v.term = n.currentTerm → n.votedFor = none ∨ n.votedFor = some v.candidate

def NoOtherVote (n : RaftNode) (request : RequestVoteRequest) : Prop :=
  ∀ v ∈ n.votes, v.term = n.currentTerm → v.candidate = request.candidateId

section
variable {n n' : RaftNode} {env : Env}

theorem OneVote.cast {v : Vote} (h : n.OneVote) (hn' : n'.votes = n.votes ++ [v])
    (hv : ∀ x ∈ n.votes, x.term = v.term → x.candidate = v.candidate) : n'.OneVote := by
  unfold OneVote
  rw [hn']
  refine forall_mem_concat (fun x hx => ?_) ?_
  · exact forall_mem_concat (h x hx) (hv x hx)
  · exact forall_mem_concat (fun x hx heq => (hv x hx heq.symm).symm) fun _ => rfl

theorem OneVote.move (hgrant : ∀ n r, env.grant n r → n.NoOtherVote r) (hf : Filed n)
    (h : n.OneVote) (hm : Move env n n') : n'.OneVote := by
  cases hm with
  | quiet q =>
    unfold OneVote
    rw [q.votes]
    exact h
  | campaign =>
    refine h.cast rfl fun x hx heq => ?_
    have hle := hf.votes x hx
    rw [heq] at hle
    exact absurd hle (Nat.not_succ_le_self _)
  | grant _ _ _ _ hg => exact h.cast rfl (hgrant _ _ hg)
  | commit => exact commitTo_keeps (P := OneVote) h (fun _ => h) _
  | advance => exact updateCommitIndex_keeps (P := OneVote) h fun _ => h
  | @reboot n known =>
    obtain ⟨peers, nextRef, T, heq, -⟩ := restart_eq known n
    rw [heq]
    exact h
  | _ => exact h

theorem Remembered.move (hgrant : ∀ n r, env.grant n r → n.NoOtherVote r) (hf : Filed n)
    (h : n.Remembered) (hm : Move env n n') : n'.Remembered := by
  cases hm with
  | quiet q =>
    unfold Remembered
    rw [q.votes, q.currentTerm, q.votedFor]
    exact h
  | follow => exact fun _ _ _ => .inl rfl
  | campaign =>
    refine forall_mem_concat (fun x hx heq => ?_) fun _ => .inr rfl
    exact absurd (heq ▸ hf.votes x hx) (Nat.not_succ_le_self _)
  | grant _ _ _ _ hg =>
    exact forall_mem_concat (fun x hx heq => .inr (congrArg some (hgrant _ _ hg x hx heq).symm))
      fun _ => .inr rfl
  | commit => exact commitTo_keeps (P := Remembered) h (fun _ => h) _
  | advance => exact updateCommitIndex_keeps (P := Remembered) h fun _ => h
  | @reboot n known =>
    obtain ⟨peers, nextRef, T, heq, -⟩ := restart_eq known n
    rw [heq]
    exact fun _ _ _ => .inl rfl
  | _ => exact h

end

/-- A request of the current term that the log allows does not find the vote
of this term forgotten and itself from another candidate. -/
def RemembersVote (n : RaftNode) (s : Stimulus) : Prop :=
  ∀ c ∈ s.requestVote, c.request.term = n.currentTerm → n.votedFor = none →
    logOk n.log c.request → n.NoOtherVote c.request

instance (n : RaftNode) (r : RequestVoteRequest) : Decidable (n.NoOtherVote r) :=
  inferInstanceAs (Decidable (∀ v ∈ n.votes, v.term = n.currentTerm → _))

instance (n : RaftNode) (s : Stimulus) : Decidable (n.RemembersVote s) :=
  inferInstanceAs (Decidable (∀ c ∈ s.requestVote, c.request.term = n.currentTerm →
    n.votedFor = none → logOk n.log c.request → n.NoOtherVote c.request))

instance (n : RaftNode) : Decidable n.OneVote :=
  inferInstanceAs (Decidable (∀ v ∈ n.votes, ∀ v' ∈ n.votes, v.term = v'.term → _))

section
variable {n n' : RaftNode} {c : VoteCall}

theorem RemembersVote.noOtherVote {s : Stimulus} (h : n.RemembersVote s)
    (hc : c ∈ s.requestVote) (hf : Filed n) (hr : n.Remembered)
    (hT : c.request.term = (n.observeTerm c.request.term).currentTerm)
    (hlog : logOk n.log c.request) (hcan : (n.observeTerm c.request.term).canVote c.request) :
    (n.observeTerm c.request.term).NoOtherVote c.request := by
  unfold observeTerm at hT hcan ⊢
  split at hcan
  case isTrue hlt =>
    -- a new term: all votes are of earlier ones
    rw [if_pos hlt]
    intro v hv heq
    exact absurd (hf.votes v hv) (Nat.not_le.mpr (heq ▸ hlt))
  case isFalse hle =>
    rw [if_neg hle] at hT ⊢
    intro v hv heq
    rcases hr v hv heq with hnone | hsome
    · exact h c hc hT hnone hlog v hv heq
    · have hcan : n.votedFor = none ∨ n.votedFor = some c.request.candidateId := by
        simpa [canVote] using hcan
      rw [hsome] at hcan
      exact Option.some.inj (hcan.resolve_left nofun)

theorem exists_not_oneVote {s : Stimulus} (h : ¬ n.RemembersVote s) :
    ∃ n', n.step s = some n' ∧ ¬ n'.OneVote := by
  simp only [RemembersVote, NoOtherVote, not_forall] at h
  obtain ⟨c, hc, hT, hnone, hlog, v, hv, hvT, hne⟩ := h
  obtain rfl : s = .packet (.requestVote c) := by
    match s, hc with
    | .packet (.requestVote _), hc => rw [Option.some.inj hc]
  refine ⟨_, rfl, fun hone => ?_⟩
  have hobs : n.observeTerm c.request.term = n := if_neg (by omega)
  have hgrant : n.receive (.requestVote c) =
      ((n.grantVote c.request).resetElectionTimeout).send (.voteReply c ⟨n.currentTerm, true⟩) := by
    simp [receive, handleRequestVote, hobs, hT.ge, hlog, canVote, hnone]
  rw [hgrant] at hone
  exact hne (hone v (List.mem_append_left _ hv) _ List.mem_concat_self hvT)

end

-- ---------------------------------------------------------------------------
-- A single node
-- ---------------------------------------------------------------------------

def machine : Lib.System RaftNode Stimulus where
  init n := n.persistent ∧ ∃ config known, n = boot config known
  step := step

def votingEnv : Env :=
  { Env.ofPackets fun _ => True with
    grant := NoOtherVote
    reboot := fun n => n.persistent }

structure Voting (n : RaftNode) : Prop where
  persistent : n.persistent
  filed : Filed n
  remembered : n.Remembered
  oneVote : n.OneVote

section
variable {n n' : RaftNode}

theorem Voting.move (h : Voting n) (hm : Move votingEnv n n') : Voting n' where
  persistent := by
    have hp := h.persistent
    rwa [RaftNode.persistent, ← hm.grows.config] at hp
  filed := h.filed.move (fun _ h => h) hm
  remembered := h.remembered.move (fun _ _ h => h) h.filed hm
  oneVote := h.oneVote.move (fun _ _ h => h) h.filed hm

theorem Voting.step {s : Stimulus} (h : Voting n) (hg : n.RemembersVote s)
    (hs : n.step s = some n') : Voting n' := by
  have hall : votingEnv.Allows n s :=
    { Env.allows_ofPackets fun _ _ => trivial with
      grant := fun c hc => hg.noOtherVote hc h.filed h.remembered
      reboot := fun _ => h.persistent }
  have hmoves := step_moves hs hall
  clear hs hg hall
  induction hmoves with
  | refl => exact h
  | tail _ hm ih => exact ih.move hm

theorem voting_boot (config : RaftConfig) (known : List (NodeId × Bool))
    (hp : (boot config known).persistent) : Voting (boot config known) := by
  refine ⟨hp, filed_boot config known, ?_, ?_⟩ <;>
  · obtain ⟨peers, nextRef, heq, -⟩ := boot_eq config known
    rw [heq]
    exact nofun

/-- A node that remembers its vote whenever it is asked again gives one vote a
term; where it does not, the next request makes it give a second. -/
theorem reach_oneVote (h : machine.Reach RemembersVote n) :
    n.OneVote ∧ ∀ s, ¬ n.RemembersVote s → ∃ n', n.step s = some n' ∧ ¬ n'.OneVote := by
  refine ⟨Voting.oneVote ?_, fun s => exists_not_oneVote⟩
  refine h.invariant (I := Voting) ?_ fun _ _ _ _ hI hg hs => hI.step hg hs
  rintro n ⟨hp, config, known, rfl⟩
  exact voting_boot config known hp

end

def nodeA : RaftNode :=
  boot { nodeId := "a", dataDir := some "data" } [("b", true), ("c", true)]

theorem nodeA_init : machine.init nodeA := ⟨by decide, _, _, rfl⟩

def ask (candidate : NodeId) (term : Nat) : Stimulus :=
  .packet (.requestVote ⟨0, "a", ⟨term, candidate, 0, 0⟩⟩)

theorem nodeA_oneVote : ∃ n, machine.Reach RemembersVote n ∧ n.votes.length = 3 ∧ n.OneVote := by
  obtain ⟨n, hn, hlen⟩ := Lib.System.Reach.replay (G := RemembersVote)
    (P := fun n => n.votes.length = 3) nodeA_init
    [ask "b" 1, .input (.restart [("b", true), ("c", true)]), ask "b" 1, ask "c" 2]
    (by decide +kernel)
  exact ⟨n, hn, hlen, (reach_oneVote hn).1⟩

/-- `start()` clears the vote it has just read: two votes in term 1. -/
theorem restart_votes_twice : ∃ n, machine.Reach (fun _ _ => True) n ∧ ¬ n.OneVote :=
  Lib.System.Reach.replay nodeA_init
    [ask "b" 1, .input (.restart [("b", true), ("c", true)]), ask "c" 1] (by decide +kernel)

end RaftNode

end ClaudeCluster.Raft
