import ClaudeCluster.Lib.History
import ClaudeCluster.Raft.Traffic
import ClaudeCluster.Raft.Votes

/-!
# Elections

`finishElection` looks at the state after its `await`, not at the term. The
votes it has counted are those of the election's own term (`Counted.quorum`);
they make a legitimate leader when the candidate is still in that term and its
voting peers are still the ones it asked (`elects_legitimate`). With one vote a
term, two leaders of one term share a voter (`reach_oneLeader`).
-/

namespace ClaudeCluster.Raft

open RaftNode
open Lib.History (Majority)

def Each (P : RaftNode → Stimulus → Prop) (w : Cluster) (a : Action) : Prop :=
  ∀ x ∈ w.stimulus a, P (w.node x.1) x.2

instance {P : RaftNode → Stimulus → Prop} [∀ n s, Decidable (P n s)] (w : Cluster) (a : Action) :
    Decidable (Each P w a) :=
  inferInstanceAs (Decidable (∀ x ∈ w.stimulus a, P (w.node x.1) x.2))

-- ---------------------------------------------------------------------------
-- Quorums
-- ---------------------------------------------------------------------------

def Election.supporters (e : Election) : Finset NodeId :=
  ((e.ballots.filter (·.2 = some true)).map Prod.fst).toFinset

def Election.electorate (e : Election) : Finset NodeId := (e.ballots.map Prod.fst).toFinset

theorem Election.supporters_subset (e : Election) : e.supporters ⊆ e.electorate := by
  intro p hp
  rw [supporters, List.mem_toFinset] at hp
  rw [electorate, List.mem_toFinset]
  exact (List.filter_sublist.map _).subset hp

section
variable {w : Cluster} {id : NodeId} {e : Election}

theorem Counted.card_electorate (h : Counted w id e) : e.electorate.card = e.ballots.length := by
  rw [Election.electorate, List.toFinset_card_of_nodup h.nodup, List.length_map]

theorem Counted.card_supporters (h : Counted w id e) :
    (insert id e.supporters).card = e.votesReceived := by
  have hnodup : ((e.ballots.filter (·.2 = some true)).map Prod.fst).Nodup :=
    h.nodup.sublist (List.filter_sublist.map _)
  have hid : id ∉ e.supporters := by
    intro hmem
    exact h.others (List.mem_toFinset.mp (e.supporters_subset hmem))
  rw [Finset.card_insert_of_notMem hid, Election.supporters, List.toFinset_card_of_nodup hnodup,
    List.length_map, ← List.countP_eq_length_filter, Election.votesReceived, Nat.add_comm]

theorem upToDate_refl (l : List LogEntry) : UpToDate l l := .inr ⟨rfl, le_refl _⟩

theorem Counted.quorum (h : Counted w id e) (hown : ∃ l, ⟨e.term, id, l⟩ ∈ (w.node id).votes)
    (hv : e.votesReceived ≥ e.votesNeeded) :
    (e.electorate.card + 1) / 2 + 1 ≤ (insert id e.supporters).card ∧
      ∀ v ∈ insert id e.supporters, w.Backs v id e.term := by
  constructor
  · rw [h.card_supporters, h.card_electorate, ← h.needed]
    exact hv
  · intro v hv
    rcases Finset.mem_insert.mp hv with rfl | hv
    · obtain ⟨l, hl⟩ := hown
      exact ⟨l, l, hl, hl, upToDate_refl l⟩
    · rw [Election.supporters, List.mem_toFinset] at hv
      obtain ⟨⟨p, vote⟩, hb, rfl⟩ := List.mem_map.mp hv
      obtain ⟨hb, htrue⟩ := List.mem_filter.mp hb
      obtain rfl : vote = some true := of_decide_eq_true htrue
      exact h.backed p hb

end

-- ---------------------------------------------------------------------------
-- Where `becomeLeader` runs
-- ---------------------------------------------------------------------------

namespace RaftNode

variable {n n' : RaftNode}

theorem led_becomeLeader (n : RaftNode) :
    n.becomeLeader.led = n.led ++ [⟨n.epoch, n.currentTerm, n.log⟩] := by
  simp [becomeLeader, takeOffice, appendEntry, startHeartbeats, emit, clearTimers,
    replicateToFollowers, pushEntry]

theorem led_finishElection (n : RaftNode) (e : Election) :
    (n.finishElection e).led = n.led ∨ (n.state = .candidate ∧ e.votesReceived ≥ e.votesNeeded ∧
      (n.finishElection e).led = n.led ++ [⟨n.epoch, n.currentTerm, n.log⟩]) := by
  simp only [finishElection]
  split
  · exact .inl rfl
  case isFalse hs =>
    split
    case isTrue hv => exact .inr ⟨not_not.mp hs, hv, led_becomeLeader _⟩
    case isFalse => exact .inl rfl

def idleEnv : Env := { Env.ofPackets fun _ => True with win := fun _ _ => False }

theorem Move.led_eq (h : Move idleEnv n n') : n'.led = n.led := by
  cases h with
  | quiet q => exact q.led
  | takeOffice _ _ _ hw => exact hw.elim
  | commit => exact commitTo_keeps (P := fun m => m.led = n.led) rfl (fun _ => rfl) _
  | advance => exact updateCommitIndex_keeps (P := fun m => m.led = n.led) rfl fun _ => rfl
  | @reboot n known =>
    obtain ⟨peers, nextRef, T, heq, -⟩ := restart_eq known n
    rw [heq]
  | _ => rfl

theorem stimulus_of_ending {s : Stimulus} {e : Election} (h : e ∈ n.ending s) :
    ∃ term, s = .input (.electionEnds term) := by
  match s, h with
  | .input (.electionEnds term), _ => exact ⟨term, rfl⟩

theorem exists_election {s : Stimulus} (h : n.step s = some n') (hled : n'.led ≠ n.led) :
    ∃ term e, s = .input (.electionEnds term) ∧ n.elections.find? (·.term = term) = some e ∧
      n.state = .candidate ∧ e.votesReceived ≥ e.votesNeeded ∧
      n'.led = n.led ++ [⟨n.epoch, n.currentTerm, n.log⟩] := by
  by_cases hs : ∃ term, s = .input (.electionEnds term)
  · obtain ⟨term, rfl⟩ := hs
    simp only [step, act] at h
    cases hf : n.elections.find? (·.term = term) with
    | none => simp [hf] at h
    | some e =>
      simp only [hf] at h
      split at h
      · cases h
        rcases led_finishElection n e with heq | hrest
        · exact absurd heq hled
        · exact ⟨term, e, rfl, hf, hrest⟩
      · cases h
  · -- any other stimulus goes through without a win
    have hall : idleEnv.Allows n s :=
      { Env.allows_ofPackets fun _ _ => trivial with
        win := fun e he => absurd (stimulus_of_ending he) hs }
    have hmoves := step_moves h hall
    clear h hs
    suffices n'.led = n.led from absurd this hled
    clear hled
    induction hmoves with
    | refl => rfl
    | tail _ hm ih => exact hm.led_eq.trans ih

end RaftNode

-- ---------------------------------------------------------------------------
-- Legitimate leaders
-- ---------------------------------------------------------------------------

def Cluster.backers (w : Cluster) (id : NodeId) (T : Nat) : Finset NodeId :=
  (insert id (w.node id).voters).filter fun v =>
    ∃ x ∈ (w.node v).votes, x.term = T ∧ x.candidate = id

def Cluster.Legitimate (w : Cluster) (id : NodeId) (T : Nat) : Prop :=
  (insert id (w.node id).voters).card / 2 + 1 ≤ (w.backers id T).card

instance (w : Cluster) (id : NodeId) (T : Nat) : Decidable (w.Legitimate id T) :=
  inferInstanceAs (Decidable (_ ≤ _))

def Cluster.Elects (w : Cluster) (a : Action) (id : NodeId) (t : Tenure) : Prop :=
  ∃ w', w.step a = some w' ∧ (w'.node id).led = (w.node id).led ++ [t]

instance (w : Cluster) (a : Action) (id : NodeId) (t : Tenure) : Decidable (w.Elects a id t) :=
  decidable_of_iff ((w.step a).any fun w' => (w'.node id).led = (w.node id).led ++ [t])
    (by simp [Cluster.Elects, Option.any_eq_true])

/-- An election that would make its candidate leader is one of the candidate's
own term, and the peers it asked are its voting peers. -/
def OwnElection (n : RaftNode) (s : Stimulus) : Prop :=
  ∀ e ∈ n.ending s, n.state = .candidate → e.votesReceived ≥ e.votesNeeded →
    e.term = n.currentTerm ∧ e.electorate = n.voters

instance (n : RaftNode) (s : Stimulus) : Decidable (OwnElection n s) :=
  inferInstanceAs (Decidable (∀ e ∈ n.ending s, n.state = .candidate →
    e.votesReceived ≥ e.votesNeeded → e.term = n.currentTerm ∧ e.electorate = n.voters))

theorem not_mem_voters {w : Cluster} (h : w.Sound) (id : NodeId) : id ∉ (w.node id).voters := by
  intro hmem
  obtain ⟨p, hp, hpid⟩ := List.mem_map.mp (List.mem_toFinset.mp hmem)
  have hne := ((h.traffic id).refs p (List.mem_of_mem_filter hp)).1
  exact hne (hpid.trans (h.formed id).nodeId.symm)

theorem Reach.sound {G : Cluster → Action → Prop} {w : Cluster} (h : system.Reach G w) : w.Sound :=
  Reach.moves Rules.free_guard (fun _ => Cluster.Booted.sound) (fun _ _ _ hI hm => hI.move hm) h

/-- In a run whose elections end in their own term, whoever becomes leader has
the votes of a majority of its voting set in its term. -/
theorem elects_legitimate {w : Cluster} {a : Action} {id : NodeId} {t : Tenure}
    (h : system.Reach (Each OwnElection) w) (hg : Each OwnElection w a)
    (he : w.Elects a id t) : w.Legitimate id t.term := by
  have hsound := Reach.sound h
  obtain ⟨w', hs, hled⟩ := he
  obtain ⟨x, s, n', hst, hn, rfl⟩ := Cluster.step_eq hs
  by_cases hx : id = x
  · subst hx
    rw [Cluster.set_node_self] at hled
    obtain ⟨term, e, rfl, hf, hcand, hv, hnew⟩ := exists_election hn (by simp [hled])
    have hmem : e ∈ (w.node id).elections := List.mem_of_find?_eq_some hf
    obtain ⟨hterm, hvoters⟩ := hg _ hst e hf hcand hv
    obtain ⟨hcard, hback⟩ := ((hsound.traffic id).elections e hmem).quorum
      ((hsound.traffic id).stood e hmem) hv
    obtain rfl : t = ⟨_, _, _⟩ := by simpa [hled] using hnew
    have hsub : insert id e.supporters ⊆ w.backers id (w.node id).currentTerm := by
      intro v hmem
      obtain ⟨-, lv, -, hvote, -⟩ := hback v hmem
      refine Finset.mem_filter.mpr ⟨?_, _, hvote, hterm, rfl⟩
      exact Finset.insert_subset_insert id (hvoters ▸ e.supporters_subset) hmem
    rw [Cluster.Legitimate, Finset.card_insert_of_notMem (not_mem_voters hsound id), ← hvoters]
    exact hcard.trans (Finset.card_le_card hsub)
  · rw [Cluster.set_node_ne w n' hx] at hled
    exact absurd hled (by simp)

theorem trio_legitimate : ∃ w, system.Reach (Each OwnElection) w ∧
    w.Elects (.input "a" (.electionEnds 1)) "a" ⟨0, 1, []⟩ ∧ w.Legitimate "a" 1 := by
  obtain ⟨w, hw, hg, he⟩ := Lib.System.Reach.replay (M := system) (G := Each OwnElection)
    (P := fun w => Each OwnElection w (.input "a" (.electionEnds 1)) ∧
      w.Elects (.input "a" (.electionEnds 1)) "a" ⟨0, 1, []⟩) trio_booted officeA.dropLast
    (by decide +kernel)
  exact ⟨w, hw, he, elects_legitimate hw hg he⟩

def NoRestart (w : Cluster) (a : Action) : Prop := ∀ x ∈ w.stimulus a, x.2.restarts = false

instance (w : Cluster) (a : Action) : Decidable (NoRestart w a) :=
  inferInstanceAs (Decidable (∀ x ∈ w.stimulus a, x.2.restarts = false))

/-- `a` gets `b`'s vote of term 1, times out into term 2, and the election of
term 1 ends: `a` leads term 2, in which nobody else has voted for it. -/
def lateElection : List Action :=
  [.input "a" .electionTimeout, .deliver "a" 0, .deliver "b" 0, .input "a" .electionTimeout,
    .input "a" (.voteFails 1 "c")]

theorem late_election_elects : ∃ w, system.Reach NoRestart w ∧
    w.Elects (.input "a" (.electionEnds 1)) "a" ⟨0, 2, []⟩ ∧ ¬ w.Legitimate "a" 2 :=
  Lib.System.Reach.replay trio_booted lateElection (by decide +kernel)

-- ---------------------------------------------------------------------------
-- One leader a term
-- ---------------------------------------------------------------------------

def OneLeader (w : Cluster) : Prop :=
  ∀ m n, ∀ t ∈ (w.node m).led, ∀ t' ∈ (w.node n).led, t.term = t'.term → m = n

def Franchise (V : Finset NodeId) (id : NodeId) (n : RaftNode) : Prop :=
  ∀ e ∈ n.elections, id ∈ V ∧ e.electorate = V.erase id

def Cluster.Chosen (w : Cluster) (V : Finset NodeId) (id : NodeId) (T : Nat) : Prop :=
  ∃ Q, Majority V Q ∧ ∀ v ∈ Q, ∃ l, ⟨T, id, l⟩ ∈ (w.node v).votes

section
variable {V : Finset NodeId} {w w' : Cluster} {id : NodeId} {n n' : RaftNode} {env : Env}

theorem Franchise.move (hc : ∀ v, env.campaign v → id ∈ V ∧ v = V.erase id)
    (h : Franchise V id n) (hm : Move env n n') : Franchise V id n' := by
  cases hm with
  | quiet q => exact fun e he => h e (q.elections he)
  | campaign _ hcamp =>
    obtain ⟨hid, hv⟩ := hc _ hcamp
    refine forall_mem_concat h ⟨hid, hv ▸ ?_⟩
    simp only [Election.electorate, voters, List.map_map, Function.comp_def]
    rfl
  | ballot =>
    intro e' he'
    obtain ⟨e, he, -, -, hids, -⟩ := mem_castBallot he'
    rw [Election.electorate, hids]
    exact h e he
  | commit => exact commitTo_keeps (P := Franchise V id) h (fun _ => h) _
  | advance => exact updateCommitIndex_keeps (P := Franchise V id) h fun _ => h
  | @reboot n known =>
    obtain ⟨peers, nextRef, T, heq, -⟩ := restart_eq known n
    rw [heq]
    exact nofun
  | _ => exact h

theorem Cluster.Chosen.mono {T : Nat} (hg : w.Grown w') (h : w.Chosen V id T) :
    w'.Chosen V id T := by
  obtain ⟨Q, hQ, hv⟩ := h
  refine ⟨Q, hQ, fun v hvQ => ?_⟩
  obtain ⟨l, hl⟩ := hv v hvQ
  exact ⟨l, (hg v).votes hl⟩

theorem Counted.majority {e : Election} (h : Counted w id e)
    (hown : ∃ l, ⟨e.term, id, l⟩ ∈ (w.node id).votes) (hv : e.votesReceived ≥ e.votesNeeded)
    (hid : id ∈ V) (he : e.electorate = V.erase id) :
    Majority V (insert id e.supporters) ∧ ∀ v ∈ insert id e.supporters, w.Backs v id e.term := by
  obtain ⟨hcard, hback⟩ := h.quorum hown hv
  have hsub : insert id e.supporters ⊆ V := by
    rw [← Finset.insert_erase hid, ← he]
    exact Finset.insert_subset_insert id e.supporters_subset
  have hV : e.electorate.card + 1 = V.card := by
    rw [he, Finset.card_erase_add_one hid]
  exact ⟨⟨hsub, by omega⟩, hback⟩

theorem chosen_move (hwin : ∀ n e, env.win n e → e.term = n.currentTerm)
    (ht : Traffic w id (w.node id)) (hf : Franchise V id (w.node id))
    (h : ∀ t ∈ (w.node id).led, w.Chosen V id t.term) (hm : Move env (w.node id) n') :
    ∀ t ∈ n'.led, w.Chosen V id t.term := by
  generalize hn : w.node id = n at *
  cases hm with
  | quiet q =>
    rw [q.led]
    exact h
  | takeOffice _ he hv hw =>
    refine forall_mem_concat h ?_
    obtain ⟨hid, hel⟩ := hf _ he
    obtain ⟨hQ, hback⟩ := (ht.elections _ he).majority (hn.symm ▸ ht.stood _ he) hv hid hel
    refine ⟨_, hQ, fun v hvQ => ?_⟩
    obtain ⟨-, lv, -, hlv, -⟩ := hback v hvQ
    exact ⟨lv, hwin _ _ hw ▸ hlv⟩
  | commit => exact commitTo_keeps (P := fun n => ∀ t ∈ n.led, w.Chosen V id t.term) h (fun _ => h) _
  | advance => exact updateCommitIndex_keeps (P := fun n => ∀ t ∈ n.led, w.Chosen V id t.term) h fun _ => h
  | @reboot _ known =>
    obtain ⟨peers, nextRef, T, heq, -⟩ := restart_eq known n
    rw [heq]
    exact h
  | _ => exact h

/-- Two that were chosen in one term share a voter, who voted once. -/
theorem Cluster.Chosen.unique {m : NodeId} {T : Nat} (hone : ∀ id, (w.node id).OneVote)
    (h : w.Chosen V id T) (h' : w.Chosen V m T) : id = m := by
  obtain ⟨Q, hQ, hv⟩ := h
  obtain ⟨Q', hQ', hv'⟩ := h'
  obtain ⟨v, hvQ, hvQ'⟩ := hQ.inter hQ'
  obtain ⟨l, hl⟩ := hv v hvQ
  obtain ⟨l', hl'⟩ := hv' v hvQ'
  exact hone v _ hl _ hl' rfl

end

-- ---------------------------------------------------------------------------
-- Runs of one voting set
-- ---------------------------------------------------------------------------

def SameVoters (V : Finset NodeId) (w : Cluster) : Prop :=
  ∀ id ∈ V, (w.node id).voters = V.erase id

def MembersStand (V : Finset NodeId) (w : Cluster) (a : Action) : Prop :=
  ∀ x ∈ w.stimulus a, x.2.stands → x.1 ∈ V

/-- An election that would make its candidate leader is one of the candidate's
own term. -/
def OwnTerm (n : RaftNode) (s : Stimulus) : Prop :=
  ∀ e ∈ n.ending s, n.state = .candidate → e.votesReceived ≥ e.votesNeeded →
    e.term = n.currentTerm

/-- Whoever restarts finds its state file. -/
def Files (n : RaftNode) (s : Stimulus) : Prop := s.restarts → n.persistent

def OneVotingSet (V : Finset NodeId) (w : Cluster) (a : Action) : Prop :=
  SameVoters V w ∧ MembersStand V w a

instance (V : Finset NodeId) (w : Cluster) (a : Action) : Decidable (OneVotingSet V w a) :=
  inferInstanceAs (Decidable ((∀ id ∈ V, (w.node id).voters = V.erase id) ∧
    ∀ x ∈ w.stimulus a, x.2.stands → x.1 ∈ V))

instance (n : RaftNode) (s : Stimulus) : Decidable (OwnTerm n s) :=
  inferInstanceAs (Decidable (∀ e ∈ n.ending s, n.state = .candidate →
    e.votesReceived ≥ e.votesNeeded → e.term = n.currentTerm))

instance (n : RaftNode) (s : Stimulus) : Decidable (Files n s) :=
  inferInstanceAs (Decidable (s.restarts → n.persistent))

def ElectionGuard (V : Finset NodeId) (w : Cluster) (a : Action) : Prop :=
  OneVotingSet V w a ∧ Each Files w a ∧ Each RemembersVote w a ∧ Each OwnTerm w a

instance (V : Finset NodeId) (w : Cluster) (a : Action) : Decidable (ElectionGuard V w a) :=
  inferInstanceAs (Decidable (_ ∧ _ ∧ _ ∧ _))

def electionRules (V : Finset NodeId) : Rules where
  env w id := { Env.ofPackets (w.Arrives id) with
    campaign := fun v => id ∈ V ∧ v = V.erase id
    grant := NoOtherVote
    win := fun n e => e.term = n.currentTerm
    reboot := fun n => n.persistent }
  packet _ _ _ h := h
  mono _ _ _ hg := ⟨fun _ h => hg.arrives h, fun _ h => h, fun _ _ h => h, fun _ _ h => h,
    fun _ _ h => h, fun _ _ h => h, fun _ h => h, fun _ _ h => h, fun _ h => h⟩

structure Rules.Elective (V : Finset NodeId) (R : Rules) : Prop where
  campaign : ∀ w id v, (R.env w id).campaign v → id ∈ V ∧ v = V.erase id
  grant : ∀ w id n r, (R.env w id).grant n r → n.NoOtherVote r
  win : ∀ w id n e, (R.env w id).win n e → e.term = n.currentTerm
  reboot : ∀ w id n, (R.env w id).reboot n → n.persistent

theorem electionRules_elective (V : Finset NodeId) : (electionRules V).Elective V :=
  ⟨fun _ _ _ h => h, fun _ _ _ _ h => h, fun _ _ _ _ h => h, fun _ _ _ h => h⟩

structure Electoral (V : Finset NodeId) (w : Cluster) : Prop where
  sound : w.Sound
  filed : ∀ id, Filed (w.node id)
  remembered : ∀ id, (w.node id).Remembered
  oneVote : ∀ id, (w.node id).OneVote
  franchise : ∀ id, Franchise V id (w.node id)
  chosen : ∀ id, ∀ t ∈ (w.node id).led, w.Chosen V id t.term

section
variable {V : Finset NodeId} {w : Cluster}

theorem Cluster.Booted.electoral (h : w.Booted) : Electoral V w := by
  refine ⟨h.sound, ?_, ?_, ?_, ?_, ?_⟩ <;>
  · intro id
    obtain ⟨config, known, -, hn⟩ := h id
    obtain ⟨peers, nextRef, heq, -⟩ := boot_eq config known
    rw [hn]
    first
    | exact filed_boot config known
    | rw [heq]
      exact nofun

theorem Electoral.move {R : Rules} {id : NodeId} {n' : RaftNode} (hR : R.Elective V)
    (h : Electoral V w) (hm : Move (R.env w id) (w.node id) n') : Electoral V (w.set id n') where
  sound := h.sound.move hm
  filed := forall_node (P := fun _ _ => Filed) (fun _ _ _ _ _ h => h) h.filed hm
    ((h.filed id).move (hR.reboot w id) hm)
  remembered := forall_node (P := fun _ _ => Remembered) (fun _ _ _ _ _ h => h) h.remembered hm
    ((h.remembered id).move (hR.grant w id) (h.filed id) hm)
  oneVote := forall_node (P := fun _ _ => OneVote) (fun _ _ _ _ _ h => h) h.oneVote hm
    ((h.oneVote id).move (hR.grant w id) (h.filed id) hm)
  franchise := forall_node (P := fun _ => Franchise V) (fun _ _ _ _ _ h => h) h.franchise hm
    ((h.franchise id).move (hR.campaign w id) hm)
  chosen := forall_node (P := fun w id n => ∀ t ∈ n.led, w.Chosen V id t.term)
    (fun _ _ _ _ hg h t ht => (h t ht).mono hg) h.chosen hm
    (chosen_move (hR.win w id) (h.sound.traffic id) (h.franchise id) (h.chosen id) hm)

theorem electionRules_guard : (electionRules V).Guard (Electoral V) (ElectionGuard V) := by
  rintro w a id s hI ⟨⟨hsame, hstand⟩, hfile, hvote, hterm⟩ hs
  exact { Env.allows_ofPackets fun p hp => Cluster.stimulus_packet (hp ▸ hs) with
    campaign := fun h => ⟨hstand _ hs h, hsame id (hstand _ hs h)⟩
    grant := fun c hc => (hvote _ hs).noOtherVote hc (hI.filed id) (hI.remembered id)
    win := hterm _ hs
    reboot := hfile _ hs }

theorem Reach.electoral (h : system.Reach (ElectionGuard V) w) : Electoral V w :=
  Reach.moves electionRules_guard (fun _ => Cluster.Booted.electoral)
    (fun _ _ _ hI hm => hI.move (electionRules_elective V) hm) h

theorem Electoral.oneLeader (h : Electoral V w) : OneLeader w := by
  intro m n t ht t' ht' heq
  exact (h.chosen m t ht).unique h.oneVote (heq ▸ h.chosen n t' ht')

/-- Election safety: a term has one leader, as long as elections end in their
own term and nobody forgets a vote. -/
theorem reach_oneLeader (h : system.Reach (ElectionGuard V) w) : OneLeader w :=
  (Reach.electoral h).oneLeader

end

def trioVoters : Finset NodeId := {"a", "b", "c"}

/-- `a` leads term 1, restarts, and `b` leads term 2 with `c`'s vote. -/
def restartA : List Action :=
  officeA ++ [.input "a" (.restart [("b", true), ("c", true)]), .input "b" .electionTimeout,
    .deliver "b" 2, .deliver "c" 1, .input "b" (.voteFails 2 "a"), .input "b" (.electionEnds 2)]

theorem trio_oneLeader : ∃ w, system.Reach (ElectionGuard trioVoters) w ∧
    ((w.node "a").led.length = 1 ∧ (w.node "b").led.length = 1) ∧ OneLeader w := by
  obtain ⟨w, hw, hled⟩ := Lib.System.Reach.replay (M := system) (G := ElectionGuard trioVoters)
    (P := fun w => (w.node "a").led.length = 1 ∧ (w.node "b").led.length = 1) trio_booted restartA
    (by decide +kernel)
  exact ⟨w, hw, hled, reach_oneLeader hw⟩

/-- `b` and `c` stand in term 1. `a` votes for `b`, restarts, and votes for `c`. -/
def twoLeaders : List Action :=
  [.input "b" .electionTimeout, .input "c" .electionTimeout, .deliver "b" 0, .deliver "a" 0,
    .input "b" (.voteFails 1 "c"), .input "b" (.electionEnds 1),
    .input "a" (.restart [("b", true), ("c", true)]), .deliver "c" 0, .deliver "a" 1,
    .input "c" (.voteFails 1 "b"), .input "c" (.electionEnds 1)]

theorem restart_elects_two :
    ∃ w, system.Reach (fun w a => OneVotingSet trioVoters w a ∧ Each Files w a) w ∧
      ¬ OneLeader w := by
  obtain ⟨w, hw, t, ht, t', ht', heq⟩ := Lib.System.Reach.replay (M := system)
    (G := fun w a => OneVotingSet trioVoters w a ∧ Each Files w a)
    (P := fun w => ∃ t ∈ (w.node "b").led, ∃ t' ∈ (w.node "c").led, t.term = t'.term)
    trio_booted twoLeaders (by decide +kernel)
  exact ⟨w, hw, fun h => absurd (h "b" "c" t ht t' ht' heq) (by decide)⟩

end ClaudeCluster.Raft
