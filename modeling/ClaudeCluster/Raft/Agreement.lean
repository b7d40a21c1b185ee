import ClaudeCluster.Raft.Commitment

/-!
# Agreement

Runs in which what is committed stays committed. Beside one voting set, the
code needs at each step that

* an election that makes a leader is of the candidate's term (`OwnTerm`);
* a batch the follower already has finds nothing else behind it (`CleanBatch`);
* a success counted by a leader answers a request of its term (`OwnReply`);
* a round that raises the commit index ends at a leader (`LeaderRound`);
* no voting member loses a log by restarting (`LosesNoLog`).

One leader a term is either given or comes from `RemembersVote`.
-/

namespace ClaudeCluster.Raft

open RaftNode
open Lib.History (Majority)

-- ---------------------------------------------------------------------------
-- Conditions
-- ---------------------------------------------------------------------------

/-- `updateCommitIndex` after a round of replication raises nothing at a node
that is no longer leader. -/
def LeaderRound (n : RaftNode) (s : Stimulus) : Prop :=
  ∀ _r ∈ n.closing s, n.canAdvance → n.state = .leader

/-- Whoever restarts finds its state file, and a member of `V` has no log to
lose: logs are kept in memory only. -/
def LosesNoLog (V : Finset NodeId) (w : Cluster) (a : Action) : Prop :=
  ∀ x ∈ w.stimulus a, x.2.restarts →
    (w.node x.1).persistent ∧ (x.1 ∈ V → (w.node x.1).log = [])

def CommitGuard (V : Finset NodeId) (w : Cluster) (a : Action) : Prop :=
  OneVotingSet V w a ∧ LosesNoLog V w a ∧ Each OwnTerm w a ∧ CleanBatch w a ∧
    Each OwnReply w a ∧ Each LeaderRound w a

def AgreementGuard (V : Finset NodeId) (w : Cluster) (a : Action) : Prop :=
  CommitGuard V w a ∧ Each RemembersVote w a

instance (n : RaftNode) (s : Stimulus) : Decidable (LeaderRound n s) :=
  inferInstanceAs (Decidable (∀ _r ∈ n.closing s, n.canAdvance → n.state = .leader))

instance (V : Finset NodeId) (w : Cluster) (a : Action) : Decidable (LosesNoLog V w a) :=
  inferInstanceAs (Decidable (∀ x ∈ w.stimulus a, x.2.restarts →
    (w.node x.1).persistent ∧ (x.1 ∈ V → (w.node x.1).log = [])))

instance (V : Finset NodeId) (w : Cluster) (a : Action) : Decidable (CommitGuard V w a) :=
  inferInstanceAs (Decidable (_ ∧ _ ∧ _ ∧ _ ∧ _ ∧ _))

instance (V : Finset NodeId) (w : Cluster) (a : Action) : Decidable (AgreementGuard V w a) :=
  inferInstanceAs (Decidable (_ ∧ _))

/-- What these guards make of the moves, with what is asked of votes and of
the resolution of `appendEntry` left open. -/
def committingRules (V : Finset NodeId) (grant : RaftNode → RequestVoteRequest → Prop)
    (resolve : RaftNode → LogEntry → Prop) : Rules where
  env w id :=
    { packet := w.Arrives id
      campaign := fun v => id ∈ V ∧ v = V.erase id
      grant := grant
      win := fun n e => e.term = n.currentTerm
      accept := w.Clean
      matched := fun n c => n.state = .leader → c.request.term = n.currentTerm
      advance := fun n => n.state = .leader ∧ (id ∈ V → n.voters = V.erase id)
      resolve := resolve
      reboot := fun n => n.persistent ∧ (id ∈ V → n.log = []) }
  packet _ _ _ h := h
  mono _ _ _ hg := ⟨fun _ h => hg.arrives h, fun _ h => h, fun _ _ h => h, fun _ _ h => h,
    fun _ _ h => h.mono hg, fun _ _ h => h, fun _ h => h, fun _ _ h => h, fun _ h => h⟩

section
variable {V : Finset NodeId} {w w' : Cluster} {id : NodeId} {n' : RaftNode}
variable {grant : RaftNode → RequestVoteRequest → Prop} {resolve : RaftNode → LogEntry → Prop}

theorem committingRules_committing : (committingRules V grant resolve).Committing V where
  accept _ _ _ _ h := h
  matched _ _ _ _ h := h
  reboot _ _ _ h := h
  campaign _ _ _ h := h
  win _ _ _ _ h := h
  advance _ _ _ h := h

theorem committingRules_elective : (committingRules V NoOtherVote resolve).Elective V :=
  ⟨fun _ _ _ h => h, fun _ _ _ _ h => h, fun _ _ _ _ h => h, fun _ _ _ h => h.1⟩

theorem CommitGuard.allows {a : Action} {s : Stimulus} (hg : CommitGuard V w a)
    (hs : w.stimulus a = some (id, s))
    (hgrant : ∀ c ∈ s.requestVote,
      c.request.term = ((w.node id).observeTerm c.request.term).currentTerm →
      logOk (w.node id).log c.request →
      ((w.node id).observeTerm c.request.term).canVote c.request →
      grant ((w.node id).observeTerm c.request.term) c.request)
    (hresolve : ∀ r ∈ (w.node id).closing s, ∀ e ∈ r.entry,
      resolve (w.node id).updateCommitIndex e) :
    ((committingRules V grant resolve).env w id).Allows (w.node id) s := by
  obtain ⟨⟨hsame, hstand⟩, hlose, hterm, hclean, hreply, hround⟩ := hg
  exact
    { packet := fun p hp => Cluster.stimulus_packet (hp ▸ hs)
      campaign := fun h => ⟨hstand _ hs h, hsame id (hstand _ hs h)⟩
      grant := hgrant
      win := hterm _ hs
      accept := hclean _ hs
      matched := hreply _ hs
      advance := fun r hr hc => ⟨hround _ hs r hr hc, hsame id⟩
      resolve := hresolve
      reboot := hlose _ hs }

-- ---------------------------------------------------------------------------
-- Given one leader a term
-- ---------------------------------------------------------------------------

def SteadyGuard (V : Finset NodeId) (w : Cluster) (a : Action) : Prop :=
  CommitGuard V w a ∧ NoRestart w a

instance (V : Finset NodeId) (w : Cluster) (a : Action) : Decidable (SteadyGuard V w a) :=
  inferInstanceAs (Decidable (_ ∧ _))

theorem OneLeader.anti (h : OneLeader w') (hg : w.Grown w') : OneLeader w :=
  fun m n t ht t' ht' => h m n t ((hg m).led ht) t' ((hg n).led ht')

/-- A candidate whose restarts find the term on disk is the first of its term
to take office, if no other node was. -/
theorem OneLeader.fresh (h : OneLeader (w.set id n')) (hg : w.Grown (w.set id n'))
    (hseat : ∀ x, Seated (w.node x)) (hfiled : Filed (w.node id)) : w.Fresh id n' := by
  intro hs hmark
  refine Set.eq_empty_iff_forall_notMem.mpr ?_
  rintro l ⟨x, hx⟩
  obtain ⟨t, ht, hterm⟩ := (hseat x).tenure _ l hx
  have hmark' : ⟨(w.node id).epoch, (w.node id).currentTerm, (w.node id).log⟩ ∈
      ((w.set id n').node id).led := by
    rwa [Cluster.set_node_self]
  obtain rfl : x = id := h x id t ((hg x).led ht) _ hmark' hterm
  exact (hfiled.led t ht).2 hterm hs

/-- What holds of agreed clusters through moves that find their term free holds
along runs that turn out to have one leader a term. -/
theorem Rules.step_oneLeader {R : Rules} {G : Cluster → Action → Prop} {J : Cluster → Prop}
    {a : Action} (hG : R.Guard (fun _ => True) G) (hJ : ∀ w, J w → Agreed V w)
    (hmove : ∀ w id n', J w → Move (R.env w id) (w.node id) n' → w.Fresh id n' → J (w.set id n'))
    (hI : OneLeader w → J w) (hg : G w a) (hs : w.step a = some w') (hone : OneLeader w') :
    J w' := by
  refine Rules.step (R := R) (I := fun w => OneLeader w → J w) (G := G)
    (fun w a id s _ => hG w a id s trivial) (fun w id n' hI hm hone => ?_) hI hg hs hone
  have hgrow := Cluster.grown_set hm.grows
  have hJw := hI (hone.anti hgrow)
  have hrep := (hJ w hJw).replicated
  exact hmove w id n' hJw hm (hone.fresh hgrow hrep.seated (hrep.filed id))

abbrev commitRules (V : Finset NodeId) : Rules :=
  committingRules V (fun _ _ => True) fun _ _ => True

theorem commitRules_guard {I : Cluster → Prop} : (commitRules V).Guard I (CommitGuard V) := by
  rintro w a id s - hg hs
  exact hg.allows hs (fun _ _ _ _ _ => trivial) fun _ _ _ _ => trivial

theorem Reach.agreed (h : system.Reach (CommitGuard V) w) (hone : OneLeader w) : Agreed V w := by
  refine h.invariant (I := fun w => OneLeader w → Agreed V w) ?_ ?_ hone
  · exact fun _ hw _ => hw.agreed
  · exact fun _ _ _ _ hI hg hs => Rules.step_oneLeader commitRules_guard (fun _ hA => hA)
      (fun _ _ _ hA hm hf => hA.move committingRules_committing hm hf) hI hg hs

/-- State machine safety: no two nodes apply different entries at one index. -/
theorem reach_sameEntries (h : system.Reach (SteadyGuard V) w) (hone : OneLeader w)
    {m n : NodeId} {e e' : LogEntry} (he : .entryCommitted e ∈ (w.node m).emitted)
    (he' : .entryCommitted e' ∈ (w.node n).emitted) (hidx : e.index = e'.index) : e = e' := by
  have hA := Reach.agreed (h.mono fun _ _ hg => hg.1) hone
  exact hA.final_unique ((hA.settled m).emitted e he) ((hA.settled n).emitted e' he') hidx

end

def tellB : List Action := officeA ++ roundA ++ [.input "a" .heartbeat, .deliver "a" 4]

theorem trio_sameEntries : ∃ w, system.Reach (SteadyGuard trioVoters) w ∧ OneLeader w ∧
    ∃ e e', .entryCommitted e ∈ (w.node "a").emitted ∧
      .entryCommitted e' ∈ (w.node "b").emitted ∧ e.index = e'.index ∧ e = e' := by
  obtain ⟨w, hw, he, he'⟩ := Lib.System.Reach.replay (M := system)
    (G := fun w a => ElectionGuard trioVoters w a ∧ SteadyGuard trioVoters w a)
    (P := fun w => .entryCommitted ⟨1, 1, .noop, []⟩ ∈ (w.node "a").emitted ∧
      .entryCommitted ⟨1, 1, .noop, []⟩ ∈ (w.node "b").emitted)
    trio_booted tellB (by decide +kernel)
  have hone : OneLeader w := (Reach.electoral (hw.mono fun _ _ h => h.1)).oneLeader
  have hsteady := hw.mono fun _ _ h => h.2
  exact ⟨w, hsteady, hone, _, _, he, he', rfl, reach_sameEntries hsteady hone he he' rfl⟩

/-- Three nodes that send one entry at a time. -/
def oneByOne : Cluster :=
  ⟨fun id => RaftNode.boot
    { nodeId := id, maxLogEntriesPerAppend := some 1, dataDir := some "data" }
    ((["a", "b", "c"].filter (· ≠ id)).map (·, true))⟩

/-- `b` leads term 1 and keeps an entry to itself. `c` leads terms 2 and 3 and
commits with `a`. Two rejections in flight take `nextIndex` for `b` below its
stale entry; the one entry `b` is then sent it already has, and with it comes
the commit index. -/
def staleTail : List Action :=
  [.input "b" .electionTimeout, .deliver "b" 0, .deliver "a" 0, .input "b" (.voteFails 1 "c"),
    .input "b" (.electionEnds 1), .deliver "b" 2, .deliver "b" 3,
    .input "b" (.appendEntry .taskSubmit [7]),
    .input "c" .electionTimeout, .deliver "c" 1, .deliver "a" 2, .input "c" (.voteFails 2 "b"),
    .input "c" (.electionEnds 2), .deliver "c" 3,
    .input "c" .stepDown, .input "c" .electionTimeout, .deliver "c" 5, .deliver "a" 4,
    .input "c" (.voteFails 3 "b"), .input "c" (.electionEnds 3),
    .input "c" .heartbeat, .deliver "c" 7, .deliver "a" 5, .deliver "c" 8, .deliver "c" 10,
    .deliver "b" 6, .deliver "b" 7, .input "c" (.roundEnds 1),
    .input "c" .heartbeat, .deliver "c" 12]

theorem staleTail_differ :
    ∃ w, system.Reach (fun w a => OneVotingSet trioVoters w a ∧ NoRestart w a) w ∧ OneLeader w ∧
      ∃ e e', .entryCommitted e ∈ (w.node "c").emitted ∧
        .entryCommitted e' ∈ (w.node "b").emitted ∧ e.index = e'.index ∧ e.data ≠ e'.data := by
  obtain ⟨w, hw, he, he'⟩ := Lib.System.Reach.replay (M := system)
    (G := fun w a => ElectionGuard trioVoters w a ∧ NoRestart w a)
    (P := fun w => .entryCommitted ⟨2, 2, .noop, []⟩ ∈ (w.node "c").emitted ∧
      .entryCommitted ⟨1, 2, .taskSubmit, [7]⟩ ∈ (w.node "b").emitted)
    (s := oneByOne) (fun _ => ⟨_, _, rfl, rfl⟩) staleTail (by decide +kernel)
  have hone : OneLeader w := (Reach.electoral (hw.mono fun _ _ h => h.1)).oneLeader
  exact ⟨w, hw.mono fun _ _ h => ⟨h.1.1, h.2⟩, hone, _, _, he, he', rfl, by decide⟩

-- ---------------------------------------------------------------------------
-- Without forgotten votes
-- ---------------------------------------------------------------------------

section
variable {V : Finset NodeId} {w w' : Cluster} {id : NodeId} {n' : RaftNode}
variable {resolve : RaftNode → LogEntry → Prop}

theorem Electoral.fresh {R : Rules} (hR : R.Elective V) (h : Electoral V w)
    (hseat : ∀ x, Seated (w.node x)) (hm : Move (R.env w id) (w.node id) n') :
    w.Fresh id n' :=
  (h.move hR hm).oneLeader.fresh (Cluster.grown_set hm.grows) hseat (h.filed id)

structure Consistent (V : Finset NodeId) (w : Cluster) : Prop where
  electoral : Electoral V w
  agreed : Agreed V w

theorem Consistent.move (h : Consistent V w)
    (hm : Move ((committingRules V NoOtherVote resolve).env w id) (w.node id) n') :
    Consistent V (w.set id n') := by
  have hfresh := h.electoral.fresh committingRules_elective h.agreed.replicated.seated hm
  exact ⟨h.electoral.move committingRules_elective hm,
    h.agreed.move committingRules_committing hm hfresh⟩

theorem AgreementGuard.allows {a : Action} {s : Stimulus} (hI : Consistent V w)
    (hg : AgreementGuard V w a) (hs : w.stimulus a = some (id, s))
    (hresolve : ∀ r ∈ (w.node id).closing s, ∀ e ∈ r.entry,
      resolve (w.node id).updateCommitIndex e) :
    ((committingRules V NoOtherVote resolve).env w id).Allows (w.node id) s :=
  hg.1.allows hs (fun _ hc => (hg.2 _ hs).noOtherVote hc (hI.electoral.filed id)
    (hI.electoral.remembered id)) hresolve

theorem Reach.consistent (h : system.Reach (AgreementGuard V) w) : Consistent V w := by
  refine Reach.moves (R := committingRules V NoOtherVote fun _ _ => True) ?_ ?_ ?_ h
  · intro w a id s hI hg hs
    exact hg.allows hI hs fun _ _ _ _ => trivial
  · exact fun w hw => ⟨hw.electoral, hw.agreed⟩
  · exact fun _ _ _ hI hm => hI.move hm

theorem Cluster.grown_step {a : Action} (h : w.step a = some w') : w.Grown w' := by
  obtain ⟨id, s, n', hs, hn, rfl⟩ := Cluster.step_eq h
  have hall := Rules.free_guard (I := fun _ => True) (G := fun _ _ => True) w a id s
    trivial trivial hs
  exact Rules.moves (R := Rules.free) (I := w.Grown)
    (fun _ _ _ hg hm => hg.trans (Cluster.grown_set hm.grows)) (Cluster.Grown.refl w)
    (step_moves hn hall)

theorem Reach.grown {G : Cluster → Action → Prop} (h : (system.after w).Reach G w') :
    w.Grown w' := by
  refine h.invariant (I := w.Grown) ?_ ?_
  · rintro _ rfl
    exact .refl _
  · exact fun _ _ _ _ hg _ hs => hg.trans (Cluster.grown_step hs)

/-- Leader completeness: what a node has committed is in the log of everyone
who becomes leader in a later term, whenever that is. -/
theorem reach_leaderCompleteness (h : system.Reach (AgreementGuard V) w) {i : Nat}
    {e : LogEntry} (hi : i < (w.node id).commitIndex) (he : (w.node id).log[i]? = some e)
    (hrun : (system.after w).Reach (AgreementGuard V) w') {m : NodeId} {t : Tenure}
    (ht : t ∈ (w'.node m).led) (hT : (w.node id).currentTerm < t.term) :
    t.log[i]? = some e := by
  have hd := ((Reach.consistent h).agreed.settled id).decided.mono (Reach.grown hrun) (le_refl _)
  have hpre := (Reach.consistent (h.trans hrun)).agreed.decided_isPrefix hd ht hT
  refine Lib.getElem?_of_isPrefix hpre ?_
  rwa [List.getElem?_take_of_lt hi]

end

def commitWithB : List Action :=
  officeA ++ [.deliver "a" 2, .deliver "b" 1, .input "a" (.appendFails 0 1),
    .input "a" (.roundEnds 0)]

/-- `c`, which missed it, restarts with its empty log, gets the noop late and
leads term 2 with `b`'s vote. -/
def caughtUp : List Action :=
  [.input "c" (.restart [("a", true), ("b", true)]), .deliver "a" 3,
    .input "c" .electionTimeout, .deliver "c" 3, .deliver "b" 2,
    .input "c" (.voteFails 2 "a"), .input "c" (.electionEnds 2)]

theorem trio_leaderCompleteness : ∃ w w', system.Reach (AgreementGuard trioVoters) w ∧
    (system.after w).Reach (AgreementGuard trioVoters) w' ∧ (w.node "a").commitIndex = 1 ∧
    ∃ e, (w.node "a").log[0]? = some e ∧ ∃ t ∈ (w'.node "c").led,
      (w.node "a").currentTerm < t.term ∧ t.log[0]? = some e := by
  obtain ⟨w, hw, ⟨hc, he⟩, hrun⟩ := Lib.System.Reach.replay (M := system)
    (G := AgreementGuard trioVoters)
    (P := fun w => ((w.node "a").commitIndex = 1 ∧
        (w.node "a").log[0]? = some ⟨1, 1, .noop, []⟩) ∧
      ((system.after w).exec (AgreementGuard trioVoters) w caughtUp).any fun w' =>
        ∃ t ∈ (w'.node "c").led, (w.node "a").currentTerm < t.term)
    trio_booted commitWithB (by decide +kernel)
  obtain ⟨w', hw', t, ht, hT⟩ := Lib.System.Reach.replay (M := system.after w) rfl caughtUp hrun
  exact ⟨w, w', hw, hw', hc, _, he, t, ht, hT,
    reach_leaderCompleteness hw (by omega) he hw' ht hT⟩

/-- `b` restarts with an empty log and makes `c`, which missed the noop, leader
of term 2. -/
def forgetful : List Action :=
  [.input "b" (.restart [("a", true), ("c", true)]), .input "c" .electionTimeout,
    .deliver "c" 2, .deliver "b" 2, .input "c" (.voteFails 2 "a"), .input "c" (.electionEnds 2)]

theorem restart_loses_entry :
    ∃ w w', system.Reach (fun w a => OneVotingSet trioVoters w a ∧ Each Files w a) w ∧
      (system.after w).Reach (fun w a => OneVotingSet trioVoters w a ∧ Each Files w a) w' ∧
      ((w.node "a").state = .leader ∧ (w.node "a").commitIndex = 1) ∧
      ∃ e, (w.node "a").log[0]? = some e ∧ e.term = (w.node "a").currentTerm ∧
        ∃ t ∈ (w'.node "c").led, (w.node "a").currentTerm < t.term ∧ t.log[0]? ≠ some e := by
  obtain ⟨w, hw, ⟨hs, he, hterm⟩, hrun⟩ := Lib.System.Reach.replay (M := system)
    (G := fun w a => OneVotingSet trioVoters w a ∧ Each Files w a)
    (P := fun w => (((w.node "a").state = .leader ∧ (w.node "a").commitIndex = 1) ∧
        (w.node "a").log[0]? = some ⟨1, 1, .noop, []⟩ ∧ (w.node "a").currentTerm = 1) ∧
      ((system.after w).exec (fun w a => OneVotingSet trioVoters w a ∧ Each Files w a)
        w forgetful).any fun w' => ∃ t ∈ (w'.node "c").led, t.term = 2 ∧ t.log = [])
    trio_booted commitWithB (by decide +kernel)
  obtain ⟨w', hw', t, ht, hT, hlog⟩ :=
    Lib.System.Reach.replay (M := system.after w) rfl forgetful hrun
  refine ⟨w, w', hw, hw', hs, _, he, hterm.symm, t, ht, by omega, ?_⟩
  rw [hlog]
  nofun

-- ---------------------------------------------------------------------------
-- Who raises a commit index
-- ---------------------------------------------------------------------------

section
variable {V : Finset NodeId} {w w' : Cluster} {id : NodeId}

def Cluster.storing (w : Cluster) (V : Finset NodeId) (id : NodeId) (N : Nat) : Finset NodeId :=
  V.filter fun v => (w.node id).log.take N <+: (w.node v).log

theorem step_roundEnds {k : Nat} (h : w.step (.input id (.roundEnds k)) = some w') :
    ∃ r, r ∈ (w.node id).closing (.input (.roundEnds k)) ∧
      w' = w.set id ((w.node id).finishRound r) := by
  obtain ⟨x, s, n', hs, hn, rfl⟩ := Cluster.step_eq h
  cases hs
  simp only [step, act] at hn
  cases hf : (w.node id).rounds.find? (·.id = k) with
  | none => simp [hf] at hn
  | some r =>
    simp only [hf] at hn
    split at hn
    · cases hn
      exact ⟨r, hf, rfl⟩
    · cases hn

theorem commitIndex_finishRound (n : RaftNode) (r : Round) :
    (n.finishRound r).commitIndex = if n.canAdvance then n.newCommitIndex else n.commitIndex := by
  simp only [finishRound, updateCommitIndex_eq]
  split <;> rfl

/-- Commit authority: a commit index is raised by `updateCommitIndex` at a
leader, over entries that a majority of the voting members store, and from
`matchIndex` values of the leader's own term. -/
theorem reach_commitAuthority (h : system.Reach (AgreementGuard V) w) {k : Nat}
    (hg : AgreementGuard V w (.input id (.roundEnds k)))
    (hs : w.step (.input id (.roundEnds k)) = some w')
    (hlt : (w.node id).commitIndex < (w'.node id).commitIndex) :
    (w.node id).state = .leader ∧ (w'.node id).commitIndex ≤ (w.node id).log.length ∧
      V.card / 2 + 1 ≤ (w.storing V id (w'.node id).commitIndex).card ∧
      ∀ p ∈ (w.node id).votingPeers, p.matchIndex = 0 ∨ ∃ l,
        ((w.node id).currentTerm, l) ∈ (w.node p.nodeId).held ∧ p.matchIndex = lastLogIndex l := by
  have hA := (Reach.consistent h).agreed
  obtain ⟨r, hr, rfl⟩ := step_roundEnds hs
  rw [Cluster.set_node_self, commitIndex_finishRound] at hlt ⊢
  split at hlt
  case isFalse => exact absurd hlt (lt_irrefl _)
  case isTrue hc =>
    obtain ⟨⟨⟨hsame, -⟩, -, -, -, -, hround⟩, -⟩ := hg
    have hlead : (w.node id).state = .leader := hround _ rfl r hr hc
    obtain ⟨hle, Q, hQ, hstored⟩ := hA.stored hlead (hsame id (hA.member id hlead)) hc
    rw [if_pos hc]
    have hsub : Q ⊆ w.storing V id (w.node id).newCommitIndex := fun v hv =>
      Finset.mem_filter.mpr ⟨hQ.1 hv, hstored v hv⟩
    have hcard := Finset.card_le_card hsub
    have hmaj := hQ.2
    refine ⟨hlead, hle, by omega, fun p hp => ?_⟩
    exact hA.replicated.acked id hlead p (List.mem_of_mem_filter hp)

end

theorem trio_commitAuthority : ∃ w w', system.Reach (AgreementGuard trioVoters) w ∧
    w.step (.input "a" (.roundEnds 0)) = some w' ∧
    (w.node "a").commitIndex < (w'.node "a").commitIndex ∧ (w.node "a").state = .leader ∧
    trioVoters.card / 2 + 1 ≤ (w.storing trioVoters "a" (w'.node "a").commitIndex).card := by
  obtain ⟨w, hw, hg, hs⟩ := Lib.System.Reach.replay (M := system)
    (G := AgreementGuard trioVoters)
    (P := fun w => AgreementGuard trioVoters w (.input "a" (.roundEnds 0)) ∧
      (w.step (.input "a" (.roundEnds 0))).any fun w' =>
        (w.node "a").commitIndex < (w'.node "a").commitIndex)
    trio_booted commitWithB.dropLast (by decide +kernel)
  obtain ⟨w', hw', hlt⟩ := (Option.any_eq_true _ _).mp hs
  have hlt := of_decide_eq_true hlt
  obtain ⟨hlead, -, hstored, -⟩ := reach_commitAuthority hw hg hw' hlt
  exact ⟨w, w', hw, hw', hlt, hlead, hstored⟩

def stepDownEarly : List Action :=
  officeA ++ [.deliver "a" 2, .deliver "b" 1, .input "a" .stepDown, .input "a" (.appendFails 0 1)]

theorem follower_commits :
    ∃ w, system.Reach (fun w a => OneVotingSet trioVoters w a ∧ NoRestart w a) w ∧
      ∃ w', w.step (.input "a" (.roundEnds 0)) = some w' ∧
        (w.node "a").commitIndex < (w'.node "a").commitIndex ∧ (w.node "a").state ≠ .leader := by
  obtain ⟨w, hw, hs⟩ := Lib.System.Reach.replay (M := system)
    (G := fun w a => OneVotingSet trioVoters w a ∧ NoRestart w a)
    (P := fun w => (w.step (.input "a" (.roundEnds 0))).any fun w' =>
      (w.node "a").commitIndex < (w'.node "a").commitIndex ∧ (w.node "a").state ≠ .leader)
    trio_booted stepDownEarly (by decide +kernel)
  obtain ⟨w', hw', hP⟩ := (Option.any_eq_true _ _).mp hs
  exact ⟨w, hw, w', hw', of_decide_eq_true hP⟩

end ClaudeCluster.Raft
