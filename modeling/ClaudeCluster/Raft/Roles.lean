import ClaudeCluster.Raft.Control

/-!
# Who may campaign, and who leads

Three invariants of a node by itself, each under a condition on the steps of
the run. A node that takes part in elections has its timer armed unless a
higher term reached it in a way after which nobody rearms it. An observer, and
a node whose elections are paused, does not campaign unless
`delayNextElection` or `TimeoutNow` makes it. `leaderId` and `state` agree
unless a leader is deposed by other than a new leader, or a leader of the own
term is heard by a node that does not follow.
-/

namespace ClaudeCluster.Raft

namespace RaftNode

section
variable {n n' : RaftNode} {s : Stimulus}

-- ---------------------------------------------------------------------------
-- The election timer
-- ---------------------------------------------------------------------------

def TakesPart (n : RaftNode) : Prop :=
  n.running ∧ n.config.nonVoting = false ∧ n.electionsPaused = false

instance (n : RaftNode) : Decidable n.TakesPart :=
  inferInstanceAs (Decidable (_ ∧ _ ∧ _))

def Armed (n : RaftNode) : Prop := n.TakesPart → n.state ≠ .leader → n.electionTimeout

instance (n : RaftNode) : Decidable n.Armed := inferInstanceAs (Decidable (_ → _ → _))

/-- `becomeFollower` is all that happens: the vote is refused for the log, or
the higher term came with a reply. -/
def disarms (n : RaftNode) : Stimulus → Bool
  | .packet (.requestVote c) => c.request.term > n.currentTerm && !logOk n.log c.request
  | .packet (.voteReply c r) =>
    c.epoch = n.epoch && n.awaitsVote c.request.term c.dst && r.term > n.currentTerm
  | .packet (.appendReply c r) => c.epoch = n.epoch && r.term > n.currentTerm
  | _ => false

def KeepsTimer (n : RaftNode) (s : Stimulus) : Prop := n.TakesPart → n.disarms s = false

instance (n : RaftNode) (s : Stimulus) : Decidable (n.KeepsTimer s) :=
  inferInstanceAs (Decidable (_ → _))

def Control.Armed (k : Control) : Prop :=
  k.running → k.nonVoting = false → k.electionsPaused = false → k.state ≠ .leader →
    k.electionTimeout

theorem armed_iff : n.Armed ↔ n.control.Armed := by
  simp only [Armed, TakesPart, Control.Armed, and_imp]
  rfl

theorem Control.armed_rearm (k : Control) : k.rearm.Armed := by
  intro _ hv hp _
  simp only [rearm] at hv hp ⊢
  simp [hv, hp]

theorem Control.Armed.of_follow {T : Nat} (hg : n.KeepsTimer s) (hd : n.disarms s = true) :
    (n.control.follow T).Armed := by
  intro hrun hv hp _
  have hfalse := hg ⟨hrun, hv, hp⟩
  rw [hd] at hfalse
  cases hfalse

theorem Control.Armed.shift {k : Control} (h : n.control.Armed) (hg : n.KeepsTimer s)
    (hs : Shift n s k) : k.Armed := by
  cases hs with
  | idle => exact h
  | refused hT hlog => exact .of_follow hg (by simp [disarms, hT, hlog])
  | granted => exact armed_rearm _
  | outvoted hep haw hT => exact .of_follow hg (by simp [disarms, hep, haw, hT])
  | outranked hep hT => exact .of_follow hg (by simp [disarms, hep, hT])
  | led => exact armed_rearm _
  | expired => exact armed_rearm _
  | spent _ hidle => exact fun hrun _ _ hs => absurd (hidle hrun) hs
  | timeoutNow => exact armed_rearm _
  | steppedDown => exact armed_rearm _
  | elected => exact fun _ _ _ hs => absurd rfl hs
  | paused => exact fun _ _ hp => by cases hp
  | resumed => exact armed_rearm _
  | resumedIdle hidle => exact fun hrun _ _ hs => absurd (hidle hrun) hs
  | delayed => exact fun _ _ _ _ => rfl
  | stopped => exact fun hrun => by cases hrun
  | started => exact armed_rearm _
  | restarted => exact fun _ hv _ _ => by simp [fresh] at hv ⊢; exact hv

theorem not_armed_of_follow {T : Nat} (hpart : n.TakesPart)
    (hn' : n'.control = n.control.follow T) : ¬ n'.Armed := by
  intro harmed
  rw [armed_iff, hn'] at harmed
  have htimer := harmed hpart.1 hpart.2.1 hpart.2.2 nofun
  cases htimer

theorem exists_not_armed (h : ¬ n.KeepsTimer s) : ∃ n', n.step s = some n' ∧ ¬ n'.Armed := by
  simp only [KeepsTimer, not_forall, Bool.not_eq_false] at h
  obtain ⟨hpart, hd⟩ := h
  match s with
  | .packet (.requestVote c) =>
    simp only [disarms, Bool.and_eq_true, decide_eq_true_eq, Bool.not_eq_true'] at hd
    refine ⟨_, rfl, not_armed_of_follow (T := c.request.term) hpart ?_⟩
    have hobs : n.observeTerm c.request.term = n.becomeFollower c.request.term := if_pos hd.1
    have hlog : (n.becomeFollower c.request.term).log = n.log := rfl
    simp [receive, handleRequestVote, hobs, hlog, hd.2]
    rfl
  | .packet (.voteReply c r) =>
    simp only [disarms, Bool.and_eq_true, decide_eq_true_eq] at hd
    refine ⟨_, rfl, not_armed_of_follow (T := r.term) hpart ?_⟩
    simp only [receive, hd.1.1, handleVoteReply, hd.1.2, hd.2, ↓reduceIte]
    rfl
  | .packet (.appendReply c r) =>
    simp only [disarms, Bool.and_eq_true, decide_eq_true_eq] at hd
    refine ⟨_, rfl, not_armed_of_follow (T := r.term) hpart ?_⟩
    simp only [receive, hd.1, handleAppendReply, hd.2, ↓reduceIte]
    rfl
  | .packet (.appendEntries c) => cases hd
  | .input i => cases hd

/-- In a run that disarms no node taking part in elections, such a node always
has its timer, and can campaign when it hears nothing more; the first step
that breaks the condition leaves it without one. -/
theorem reach_armed (h : lone.Reach KeepsTimer n) :
    n.Armed ∧
      (n.TakesPart → n.state ≠ .leader →
        ∃ n', n.step (.input .electionTimeout) = some n' ∧ n'.state = .candidate) ∧
      ∀ s, ¬ n.KeepsTimer s → ∃ n', n.step s = some n' ∧ ¬ n'.Armed := by
  have harmed : n.Armed := by
    rw [armed_iff]
    refine lone_control (J := Control.Armed) ?_ (fun _ _ _ hn hg => hn.shift hg) h
    exact fun _ _ hrun => by cases hrun
  refine ⟨harmed, ?_, fun s => exists_not_armed⟩
  intro hpart hs
  have htimer := harmed hpart hs
  refine ⟨n.fireElectionTimeout, by simp [step, act, htimer], ?_⟩
  have hrun : n.clearElectionTimeout.running = true ∧ n.clearElectionTimeout.state ≠ .leader :=
    ⟨hpart.1, hs⟩
  simp only [fireElectionTimeout, hrun, ne_eq, not_false_eq_true, and_self, ↓reduceIte]
  rfl

end

def startA : List Stimulus :=
  [.input (.addPeer "b" true), .input (.addPeer "c" true), .input .start]

theorem lone_init (config : RaftConfig) : lone.init { config } := ⟨config, none, rfl⟩

def heartbeatB (term : Nat) : Stimulus :=
  .packet (.appendEntries ⟨0, 0, 0, "a", ⟨term, "b", 0, 0, [⟨1, 1, .noop, []⟩], 0⟩⟩)

def askC (term : Nat) : Stimulus :=
  .packet (.requestVote ⟨0, "a", ⟨term, "c", 0, 0⟩⟩)

theorem armed_after_votes : ∃ n, lone.Reach KeepsTimer n ∧ n.TakesPart ∧ n.state ≠ .leader ∧
    n.currentTerm = 2 ∧ n.electionTimeout := by
  obtain ⟨n, hn, hpart, hs, hT⟩ := Lib.System.Reach.replay (G := KeepsTimer)
    (P := fun n => n.TakesPart ∧ n.state ≠ .leader ∧ n.currentTerm = 2)
    (lone_init { nodeId := "a" })
    (startA ++ [heartbeatB 1, askC 1, heartbeatB 2]) (by decide +kernel)
  exact ⟨n, hn, hpart, hs, hT, (reach_armed hn).1 hpart hs⟩

/-- A candidate of a later term with a shorter log asks: node a refuses, and
waits for ever. -/
theorem refusal_disarms : ∃ n, lone.Reach (fun _ _ => True) n ∧ n.TakesPart ∧
    n.state = .follower ∧ n.electionTimeout = false ∧ ¬ n.Armed :=
  Lib.System.Reach.replay (G := fun _ _ => True) (lone_init { nodeId := "a" })
    (startA ++ [heartbeatB 1, askC 2]) (by decide +kernel)

-- ---------------------------------------------------------------------------
-- Observers and paused elections
-- ---------------------------------------------------------------------------

section
variable {n n' : RaftNode} {s : Stimulus}

def Campaigns (n n' : RaftNode) : Prop :=
  n'.state = .candidate ∧ n'.currentTerm = n.currentTerm + 1

instance (n n' : RaftNode) : Decidable (n.Campaigns n') := inferInstanceAs (Decidable (_ ∧ _))

def heardTerm (n : RaftNode) : Stimulus → Option Nat
  | .packet (.requestVote c) => some c.request.term
  | .packet (.voteReply _ r) => some r.term
  | .packet (.appendEntries c) => some c.request.term
  | .packet (.appendReply _ r) => some r.term
  | .input .start => some n.filedTerm
  | .input (.restart _) => some n.filedTerm
  | .input _ => none

/-- No running node is told to delay an election it may not hold, and
`TimeoutNow` does not reach a node whose elections are paused. -/
def Restrained (n : RaftNode) : Stimulus → Prop
  | .input .delayNextElection =>
    n.running → n.state ≠ .leader → n.config.nonVoting = false ∧ n.electionsPaused = false
  | .input (.timeoutNow T) =>
    n.currentTerm ≤ T → n.state ≠ .leader → n.config.nonVoting = false → n.electionsPaused = false
  | _ => True

instance (n : RaftNode) : (s : Stimulus) → Decidable (n.Restrained s)
  | .input .delayNextElection => inferInstanceAs (Decidable (_ → _ → _ ∧ _))
  | .input (.timeoutNow _) => inferInstanceAs (Decidable (_ → _ → _ → _))
  | .input .electionTimeout | .input .stepDown | .input (.appendEntry ..) | .input .heartbeat
  | .input (.voteFails ..) | .input (.electionEnds _) | .input (.appendFails ..)
  | .input (.roundEnds _) | .input (.addPeer ..) | .input (.removePeer _)
  | .input .pauseElections | .input .resumeElections | .input .stop | .input .start
  | .input (.restart _) | .packet _ => inferInstanceAs (Decidable True)

structure Control.Calm (k : Control) : Prop where
  observer : k.nonVoting → k.state = .follower
  timer : k.running → k.electionTimeout → k.state ≠ .leader →
    k.nonVoting = false ∧ k.electionsPaused = false

theorem Control.observe_rises {k : Control} {T : Nat} (h : k.currentTerm < (k.observe T).currentTerm) :
    T > k.currentTerm := by
  by_contra hle
  rw [observe_of_le (Nat.not_lt.mp hle)] at h
  exact lt_irrefl _ h

theorem Control.timer_rearm {k : Control} (h : k.rearm.electionTimeout) :
    k.nonVoting = false ∧ k.electionsPaused = false := by
  simpa [rearm] using h

theorem Control.Calm.rearm {k : Control} (h : k.nonVoting → k.state = .follower) : k.rearm.Calm :=
  ⟨h, fun _ ht _ => timer_rearm ht⟩

theorem Control.Calm.follow {k : Control} (T : Nat) : (k.follow T).Calm :=
  ⟨fun _ => rfl, fun _ ht => by cases ht⟩

theorem Control.Calm.observe {k : Control} (h : k.Calm) (T : Nat) : (k.observe T).Calm := by
  unfold Control.observe
  split
  · exact .follow T
  · exact h

theorem Control.Calm.shift {k : Control} (h : n.control.Calm) (hg : n.Restrained s)
    (hs : Shift n s k) : k.Calm := by
  cases hs with
  | idle => exact h
  | refused => exact .follow _
  | granted => exact .rearm (h.observe _).observer
  | outvoted => exact .follow _
  | outranked => exact .follow _
  | led => exact .rearm (h.observe _).observer
  | expired ht hrun hs =>
    have hv := (h.timer hrun ht hs).1
    exact .rearm fun hv' => by cases hv.symm.trans hv'
  | spent => exact ⟨h.observer, fun _ ht => by cases ht⟩
  | timeoutNow _ _ hv => exact .rearm fun hv' => by cases hv.symm.trans hv'
  | steppedDown => exact .rearm fun _ => rfl
  | elected _ hc =>
    refine ⟨fun hv => ?_, fun _ ht => by cases ht⟩
    cases hc.symm.trans (h.observer hv)
  | paused => exact ⟨h.observer, fun _ ht => by cases ht⟩
  | resumed => exact .rearm h.observer
  | resumedIdle hidle => exact ⟨h.observer, fun hrun _ hs => absurd (hidle hrun) hs⟩
  | delayed => exact ⟨h.observer, fun hrun _ hs => hg hrun hs⟩
  | stopped => exact ⟨h.observer, fun hrun => by cases hrun⟩
  | started => exact .rearm fun _ => rfl
  | restarted =>
    refine ⟨fun _ => rfl, fun _ ht _ => ⟨?_, rfl⟩⟩
    simpa [fresh] using ht

theorem Control.Calm.term {k : Control} (h : n.control.Calm) (hg : n.Restrained s)
    (hs : Shift n s k) (hT : n.currentTerm < k.currentTerm) :
    (k.state = .follower ∧ n.heardTerm s = some k.currentTerm) ∨
      (n.config.nonVoting = false ∧ n.electionsPaused = false) := by
  cases hs with
  | refused => exact .inl ⟨rfl, rfl⟩
  | outvoted => exact .inl ⟨rfl, rfl⟩
  | outranked => exact .inl ⟨rfl, rfl⟩
  | granted =>
    rw [observe_of_gt (observe_rises hT)]
    exact .inl ⟨rfl, rfl⟩
  | led =>
    rw [observe_of_gt (observe_rises hT)]
    exact .inl ⟨rfl, rfl⟩
  | expired ht hrun hs => exact .inr (h.timer hrun ht hs)
  | timeoutNow hle hs hv => exact .inr ⟨hv, hg hle hs hv⟩
  | started =>
    refine .inl ⟨rfl, congrArg some ?_⟩
    have hmax : n.currentTerm < max n.currentTerm n.filedTerm := hT
    exact (max_eq_right (by omega)).symm
  | restarted => exact .inl ⟨rfl, rfl⟩
  | _ => exact absurd hT (lt_irrefl _)

theorem exists_campaign (h : ¬ n.Restrained s) :
    ∃ m m', (lone.after n).Reach (fun _ _ => True) m ∧ (m.config.nonVoting ∨ m.electionsPaused) ∧
      (∃ s, m.step s = some m') ∧ m.Campaigns m' := by
  cases s with
  | packet p => exact absurd trivial h
  | input i => ?_
  cases i with
  | delayNextElection =>
    simp only [Restrained, not_forall, not_and_or, Bool.not_eq_false] at h
    obtain ⟨hrun, hs, hbad⟩ := h
    have hdelayed : (lone.after n).Reach (fun _ _ => True) n.delayNextElection :=
      .step (.init rfl) trivial (a := .input .delayNextElection) rfl
    refine ⟨_, n.delayNextElection.fireElectionTimeout, hdelayed, hbad,
      ⟨.input .electionTimeout, rfl⟩, ?_⟩
    have hfire : n.delayNextElection.clearElectionTimeout.running = true ∧
        n.delayNextElection.clearElectionTimeout.state ≠ .leader := ⟨hrun, hs⟩
    simp only [fireElectionTimeout, hfire, ne_eq, not_false_eq_true, and_self, ↓reduceIte]
    exact ⟨rfl, rfl⟩
  | timeoutNow T =>
    simp only [Restrained, not_forall, Bool.not_eq_false] at h
    obtain ⟨hT, hs, hv, hp⟩ := h
    refine ⟨n, n.timeoutNow T, .init rfl, .inr hp, ⟨.input (.timeoutNow T), rfl⟩, ?_⟩
    simp only [timeoutNow, Nat.not_lt.mpr hT, triggerImmediateElection, hs, hv, ↓reduceIte,
      Bool.false_eq_true]
    exact ⟨rfl, rfl⟩
  | _ => exact absurd trivial h

/-- In a restrained run an observer only follows and takes its terms from
others, and no node campaigns while its elections are paused; a step that is
not restrained makes one campaign. -/
theorem reach_calm (h : lone.Reach Restrained n) :
    (n.config.nonVoting → n.state = .follower) ∧
      (∀ s n', n.Restrained s → n.step s = some n' →
        (n.config.nonVoting → n.currentTerm < n'.currentTerm →
          n.heardTerm s = some n'.currentTerm) ∧
        (n.electionsPaused → ¬ n.Campaigns n')) ∧
      ∀ s, ¬ n.Restrained s →
        ∃ m m', (lone.after n).Reach (fun _ _ => True) m ∧
          (m.config.nonVoting ∨ m.electionsPaused) ∧ (∃ s, m.step s = some m') ∧
          m.Campaigns m' := by
  have hcalm : n.control.Calm := by
    refine lone_control (J := Control.Calm) ?_ (fun _ _ _ hn hg => hn.shift hg) h
    exact fun _ _ => ⟨fun _ => rfl, fun hrun => by cases hrun⟩
  refine ⟨hcalm.observer, fun s n' hg hs => ⟨fun hv hT => ?_, fun hp hc => ?_⟩,
    fun s => exists_campaign⟩
  · rcases hcalm.term hg (step_shift hs) hT with ⟨-, hterm⟩ | ⟨hvoting, -⟩
    · exact hterm
    · cases hv.symm.trans hvoting
  · have hT : n.currentTerm < n'.control.currentTerm := by
      show _ < n'.currentTerm
      rw [hc.2]
      exact Nat.lt_succ_self _
    rcases hcalm.term hg (step_shift hs) hT with ⟨hf, -⟩ | ⟨-, hpaused⟩
    · cases hf.symm.trans hc.1
    · cases hp.symm.trans hpaused

end

theorem observer_follows : ∃ n, lone.Reach Restrained n ∧ n.config.nonVoting ∧
    n.currentTerm = 2 ∧ n.state = .follower := by
  obtain ⟨n, hn, hv, hT⟩ := Lib.System.Reach.replay (G := Restrained)
    (P := fun n => n.config.nonVoting ∧ n.currentTerm = 2)
    (lone_init { nodeId := "a", nonVoting := true })
    (startA ++ [heartbeatB 2, .input (.timeoutNow 2), .input .pauseElections,
      .input .resumeElections]) (by decide +kernel)
  exact ⟨n, hn, hv, hT, (reach_calm hn).1 hv⟩

/-- An observer that has joined runs for office when the delay is over, and
`TimeoutNow` starts an election on a node whose elections are paused. -/
theorem observer_campaigns :
    (∃ n, lone.Reach (fun _ _ => True) n ∧ n.config.nonVoting ∧ n.state = .candidate ∧
      n.currentTerm = 1) ∧
    ∃ n n', lone.Reach (fun _ _ => True) n ∧ n.config.nonVoting = false ∧ n.electionsPaused ∧
      n.step (.input (.timeoutNow 0)) = some n' ∧ n.Campaigns n' := by
  refine ⟨?_, ?_⟩
  · exact Lib.System.Reach.replay (G := fun _ _ => True)
      (lone_init { nodeId := "a", nonVoting := true })
      (startA ++ [.input .delayNextElection, .input .electionTimeout]) (by decide +kernel)
  · obtain ⟨n, hn, hv, hp, hc⟩ := Lib.System.Reach.replay (G := fun _ _ => True)
      (P := fun n => n.config.nonVoting = false ∧ n.electionsPaused ∧
        n.Campaigns (n.timeoutNow 0))
      (lone_init { nodeId := "a" }) (startA ++ [.input .pauseElections]) (by decide +kernel)
    exact ⟨n, n.timeoutNow 0, hn, hv, hp, rfl, hc⟩

-- ---------------------------------------------------------------------------
-- Leaders
-- ---------------------------------------------------------------------------

section
variable {n n' : RaftNode} {s : Stimulus}

/-- `leaderId` is the node's own id while it leads, and only then. -/
def KnowsRole (n : RaftNode) : Prop := n.leaderId = some n.nodeId ↔ n.state = .leader

instance (n : RaftNode) : Decidable n.KnowsRole := inferInstanceAs (Decidable (_ ↔ _))

/-- A leader goes only when a leader of a later term shows up. A leader of the
own term is heard by followers alone, and is another node. An election is won
in its own term. -/
def Orderly (n : RaftNode) : Stimulus → Prop
  | .packet (.requestVote c) => n.state = .leader → c.request.term ≤ n.currentTerm
  | .packet (.voteReply c r) =>
    n.state = .leader → c.epoch = n.epoch → n.awaitsVote c.request.term c.dst →
      r.term ≤ n.currentTerm
  | .packet (.appendReply c r) => n.state = .leader → c.epoch = n.epoch → r.term ≤ n.currentTerm
  | .packet (.appendEntries c) =>
    n.currentTerm ≤ c.request.term → c.request.leaderId ≠ n.nodeId ∧
      (c.request.term = n.currentTerm → n.state = .follower)
  | .input .stepDown => n.state ≠ .leader
  | .input .start => n.running = false → n.state ≠ .leader
  | .input (.electionEnds T) => ∀ e ∈ n.ending (.input (.electionEnds T)),
    n.state = .candidate → e.votesReceived ≥ e.votesNeeded → T = n.currentTerm
  | _ => True

instance (n : RaftNode) : (s : Stimulus) → Decidable (n.Orderly s)
  | .packet (.requestVote _) => inferInstanceAs (Decidable (_ → _))
  | .packet (.voteReply ..) => inferInstanceAs (Decidable (_ → _ → _ → _))
  | .packet (.appendReply ..) => inferInstanceAs (Decidable (_ → _ → _))
  | .packet (.appendEntries _) => inferInstanceAs (Decidable (_ → _ ∧ _))
  | .input .stepDown => inferInstanceAs (Decidable (_ ≠ _))
  | .input .start => inferInstanceAs (Decidable (_ → _ ≠ _))
  | .input (.electionEnds T) =>
    inferInstanceAs (Decidable (∀ e ∈ n.ending (.input (.electionEnds T)), _ → _ → T = _))
  | .input .electionTimeout | .input (.timeoutNow _) | .input (.appendEntry ..)
  | .input .heartbeat | .input (.voteFails ..) | .input (.appendFails ..)
  | .input (.roundEnds _) | .input (.addPeer ..) | .input (.removePeer _)
  | .input .pauseElections | .input .resumeElections | .input .delayNextElection
  | .input .stop | .input (.restart _) => inferInstanceAs (Decidable True)

structure Control.Coherent (k : Control) : Prop where
  leader : k.leaderId = some k.nodeId ↔ k.state = .leader
  heartbeat : k.heartbeatInterval → k.state = .leader

theorem Control.Coherent.follow {k : Control} (h : k.Coherent) (hs : k.state ≠ .leader) (T : Nat) :
    (k.follow T).Coherent :=
  ⟨⟨fun hid => absurd (h.leader.mp hid) hs, nofun⟩, nofun⟩

theorem Control.Coherent.shift {k : Control} (h : n.control.Coherent) (hg : n.Orderly s)
    (hs : Shift n s k) : k.Coherent := by
  cases hs with
  | idle => exact h
  | refused hT => exact h.follow (fun hl => Nat.not_le.mpr hT (hg hl)) _
  | @granted c hle _ =>
    by_cases hT : c.request.term > n.control.currentTerm
    · rw [observe_of_gt hT]
      have hfollow := h.follow (fun hl => Nat.not_le.mpr hT (hg hl)) c.request.term
      exact ⟨hfollow.leader, hfollow.heartbeat⟩
    · rw [observe_of_le (Nat.not_lt.mp hT)]
      exact ⟨h.leader, h.heartbeat⟩
  | outvoted hep haw hT => exact h.follow (fun hl => Nat.not_le.mpr hT (hg hl hep haw)) _
  | outranked hep hT => exact h.follow (fun hl => Nat.not_le.mpr hT (hg hl hep)) _
  | @led c hle =>
    obtain ⟨hid, hfollower⟩ := hg hle
    have hne : some c.request.leaderId ≠ some n.nodeId := fun heq => hid (Option.some.inj heq)
    by_cases hT : c.request.term > n.control.currentTerm
    · rw [observe_of_gt hT]
      exact ⟨⟨fun heq => absurd heq hne, nofun⟩, nofun⟩
    · have hs : n.state = .follower := hfollower (le_antisymm (Nat.not_lt.mp hT) hle)
      rw [observe_of_le (Nat.not_lt.mp hT)]
      refine ⟨⟨fun heq => absurd heq hne, fun hl => ?_⟩, h.heartbeat⟩
      cases hs.symm.trans hl
  | expired _ _ hs =>
    refine ⟨⟨nofun, nofun⟩, fun hb => ?_⟩
    exact absurd (h.heartbeat hb) hs
  | spent => exact ⟨h.leader, h.heartbeat⟩
  | timeoutNow _ hs =>
    refine ⟨⟨nofun, nofun⟩, fun hb => ?_⟩
    exact absurd (h.heartbeat hb) hs
  | steppedDown hs => exact absurd hs hg
  | elected => exact ⟨⟨fun _ => rfl, fun _ => rfl⟩, fun _ => rfl⟩
  | paused => exact ⟨h.leader, h.heartbeat⟩
  | resumed => exact ⟨h.leader, h.heartbeat⟩
  | resumedIdle => exact ⟨h.leader, h.heartbeat⟩
  | delayed => exact ⟨h.leader, h.heartbeat⟩
  | stopped => exact ⟨h.leader, nofun⟩
  | started hrun =>
    have hfollow := h.follow (hg hrun) (max n.currentTerm n.filedTerm)
    exact ⟨hfollow.leader, hfollow.heartbeat⟩
  | restarted => exact ⟨⟨nofun, nofun⟩, nofun⟩

/-- In process `epoch` the node has followed a leader of term `T`, and has not
run for that term since. -/
def Control.Past (epoch T : Nat) (k : Control) : Prop :=
  epoch ≤ k.epoch ∧
    (k.epoch = epoch → T < k.currentTerm ∨ (k.currentTerm = T ∧ k.state = .follower))

theorem Control.Past.follow {k : Control} {epoch T T' : Nat} (h : k.Past epoch T)
    (hT : k.currentTerm ≤ T') : (k.follow T').Past epoch T := by
  refine ⟨h.1, fun hep => ?_⟩
  have hle : T ≤ k.currentTerm := (h.2 hep).elim le_of_lt fun hsame => hsame.1.ge
  rcases (hle.trans hT).lt_or_eq with hlt | rfl
  · exact .inl hlt
  · exact .inr ⟨rfl, rfl⟩

theorem Control.Past.observe {k : Control} {epoch T : Nat} (h : k.Past epoch T) (T' : Nat) :
    (k.observe T').Past epoch T := by
  unfold Control.observe
  split
  case isTrue hT => exact h.follow hT.le
  case isFalse => exact h

theorem Control.Past.campaign {k : Control} {epoch T : Nat} (h : k.Past epoch T) :
    k.campaign.Past epoch T := by
  refine ⟨h.1, fun hep => .inl ?_⟩
  have hle : T ≤ k.currentTerm := (h.2 hep).elim le_of_lt fun hsame => hsame.1.ge
  exact Nat.lt_succ_of_le hle

theorem Control.Past.shift {k : Control} {epoch T : Nat} (h : n.control.Past epoch T)
    (hs : Shift n s k) : k.Past epoch T := by
  cases hs with
  | refused hT => exact h.follow hT.le
  | granted => exact h.observe _
  | outvoted _ _ hT => exact h.follow hT.le
  | outranked _ hT => exact h.follow hT.le
  | led => exact h.observe _
  | expired => exact h.campaign
  | timeoutNow => exact h.campaign
  | steppedDown => exact h.follow (le_refl _)
  | elected _ hc =>
    refine ⟨h.1, fun hep => .inl ?_⟩
    rcases h.2 hep with hlt | ⟨-, hf⟩
    · exact hlt
    · cases hc.symm.trans hf
  | started => exact h.follow (le_max_left _ _)
  | restarted => exact ⟨h.1.trans (Nat.le_succ _), fun hep => by
      have hle : epoch ≤ n.epoch := h.1
      have heq : n.epoch + 1 = epoch := hep
      omega⟩
  | _ => exact h

/-- The tally of a term in which the node has followed a leader makes nobody
leader: the term is over, or the node no candidate. -/
theorem Control.Past.tally {T : Nat} (h : n.control.Past n.epoch T)
    (hg : n.Orderly (.input (.electionEnds T))) (hs : n.step (.input (.electionEnds T)) = some n')
    (hl : n'.state = .leader) : n.state = .leader := by
  have hshift := step_shift hs
  generalize hk : n'.control = k at hshift
  have hkl : k.state = .leader := hk ▸ hl
  cases hshift with
  | idle => exact hkl
  | elected he hc hv =>
    have hT := hg _ he hc hv
    rcases h.2 rfl with hlt | ⟨-, hf⟩
    · exact absurd hlt (by rw [hT]; exact lt_irrefl _)
    · cases hc.symm.trans hf

/-- In an orderly run a node knows its role. A request of the own term finds
it a follower and leaves it one, with the sender for its leader, and no tally
of that term makes it leader in the rest of the run; heartbeats run at leaders
only. -/
theorem reach_knowsRole (h : lone.Reach Orderly n) :
    n.KnowsRole ∧ (n.heartbeatInterval → n.state = .leader) ∧
      ∀ c n₁, c.request.term = n.currentTerm → n.Orderly (.packet (.appendEntries c)) →
        n.step (.packet (.appendEntries c)) = some n₁ →
        n₁.state = .follower ∧ n₁.leaderId = some c.request.leaderId ∧
          ∀ n₂ n₃, (lone.after n₁).Reach Orderly n₂ → n₂.epoch = n₁.epoch →
            n₂.Orderly (.input (.electionEnds n.currentTerm)) →
            n₂.step (.input (.electionEnds n.currentTerm)) = some n₃ →
            n₃.state = .leader → n₂.state = .leader := by
  have hco : n.control.Coherent := by
    refine lone_control (J := Control.Coherent) ?_ (fun _ _ _ hn hg => hn.shift hg) h
    exact fun _ _ => ⟨⟨nofun, nofun⟩, nofun⟩
  refine ⟨hco.leader, hco.heartbeat, ?_⟩
  intro c n₁ hT hg hs
  cases hs
  have hfollower : n.state = .follower := (hg hT.ge).2 hT
  have hctl := control_appendEntries hT.ge
  rw [Control.observe_of_le (k := n.control) hT.le] at hctl
  generalize n.receive (.appendEntries c) = n₁ at hctl
  have hstate : n₁.state = .follower := (congrArg Control.state hctl).trans hfollower
  have hterm : n₁.currentTerm = n.currentTerm := congrArg Control.currentTerm hctl
  refine ⟨hstate, congrArg Control.leaderId hctl, ?_⟩
  intro n₂ n₃ hrun hep hg₂ hs₂ hl
  have hpast : n₂.control.Past n₁.epoch n.currentTerm :=
    control_after (J := Control.Past n₁.epoch n.currentTerm) (fun _ _ _ hJ _ => hJ.shift)
      ⟨le_refl _, fun _ => .inr ⟨hterm, hstate⟩⟩ hrun
  rw [← hep] at hpast
  exact hpast.tally hg₂ hs₂ hl

end

def voteB (term : Nat) : Stimulus :=
  .packet (.voteReply ⟨0, "b", ⟨term, "a", 0, 0⟩⟩ ⟨term, true⟩)

theorem deposed_knowsRole : ∃ n, lone.Reach Orderly n ∧ n.currentTerm = 3 ∧
    n.led.length = 1 ∧ n.KnowsRole := by
  obtain ⟨n, hn, hT, hled⟩ := Lib.System.Reach.replay (G := Orderly)
    (P := fun n => n.currentTerm = 3 ∧ n.led.length = 1) (lone_init { nodeId := "a" })
    (startA ++ [.input .electionTimeout, voteB 1, .input (.voteFails 1 "c"),
      .input (.electionEnds 1), heartbeatB 2, askC 3]) (by decide +kernel)
  exact ⟨n, hn, hT, hled, (reach_knowsRole hn).1⟩

/-- A leader that steps down still takes itself for the leader, and a candidate
that accepts the entries of the leader of its term stays candidate. -/
theorem stepDown_keeps_leaderId :
    (∃ n, lone.Reach (fun _ _ => True) n ∧ n.state = .follower ∧ n.leaderId = some n.nodeId) ∧
    ∃ n, lone.Reach (fun _ _ => True) n ∧ n.state = .candidate ∧ n.leaderId = some "b" ∧
      n.held.map Prod.fst = [n.currentTerm] := by
  refine ⟨?_, ?_⟩
  · exact Lib.System.Reach.replay (G := fun _ _ => True) (lone_init { nodeId := "a" })
      (startA ++ [.input .electionTimeout, voteB 1, .input (.voteFails 1 "c"),
        .input (.electionEnds 1), .input .stepDown]) (by decide +kernel)
  · exact Lib.System.Reach.replay (G := fun _ _ => True) (lone_init { nodeId := "a" })
      (startA ++ [.input .electionTimeout, heartbeatB 1]) (by decide +kernel)

end RaftNode

end ClaudeCluster.Raft
