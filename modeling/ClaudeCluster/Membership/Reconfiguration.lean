import ClaudeCluster.Lib.Quorum
import ClaudeCluster.Raft.CommitRule
import ClaudeCluster.Membership.Voters

/-!
# Changes of the configuration

Runs in which the voting sets follow the log alone: the leader appends joins
and leaves, any number of them before the first is committed, and a node
changes its peers when it applies an entry. `configuration` is what the entries
make of the starting configuration, and `reach_electorate` says that the voting
set of a node is the configuration of the prefix it has applied, with itself.

Nothing keeps two nodes on neighbouring prefixes, and a node that was removed
goes on counting itself. `quorums_meet` says exactly when the quorums of two
nodes meet, and that they do when the nodes are one entry apart and both
belong to their configurations.
-/

namespace ClaudeCluster.Membership

open Lib
open Raft (NodeId RaftNode PeerInfo)
open MembershipManager

-- ---------------------------------------------------------------------------
-- Configurations
-- ---------------------------------------------------------------------------

def Entry.reconfigure (C : Finset NodeId) : Entry → Finset NodeId
  | .nodeJoin data => if isObserver data.nodeId then C else insert data.nodeId C
  | .nodeLeave nodeId => C.erase nodeId
  | .other => C

/-- The voters `V` starts with, changed by the entries. -/
def configuration (V : List JoinData) (entries : List Entry) : Finset NodeId :=
  (V.map Entry.nodeJoin ++ entries).foldl Entry.reconfigure ∅

theorem configuration_concat (V : List JoinData) (entries : List Entry) (entry : Entry) :
    configuration V (entries ++ [entry]) = entry.reconfigure (configuration V entries) := by
  rw [configuration, ← List.append_assoc, List.foldl_append]
  rfl

theorem not_observer_of_mem {entries : List Entry} {C : Finset NodeId} {p : NodeId}
    (hC : ∀ p ∈ C, isObserver p = false) (hp : p ∈ entries.foldl Entry.reconfigure C) :
    isObserver p = false := by
  induction entries generalizing C with
  | nil => exact hC p hp
  | cons entry entries ih =>
    refine ih ?_ hp
    intro q hq
    cases entry with
    | nodeJoin data =>
      simp only [Entry.reconfigure] at hq
      split at hq
      case isTrue => exact hC q hq
      case isFalse hobs =>
        rcases Finset.mem_insert.mp hq with rfl | hq
        · simpa using hobs
        · exact hC q hq
    | nodeLeave nodeId => exact hC q (Finset.mem_of_mem_erase hq)
    | other => exact hC q hq

theorem configuration_voting {V : List JoinData} {entries : List Entry} {p : NodeId}
    (h : p ∈ configuration V entries) : isObserver p = false :=
  not_observer_of_mem (by simp) h

theorem card_reconfigure (C : Finset NodeId) (entry : Entry) :
    (C \ entry.reconfigure C).card + (entry.reconfigure C \ C).card ≤ 1 := by
  cases entry with
  | nodeJoin data =>
    simp only [Entry.reconfigure]
    split
    · simp
    · have hout : C \ insert data.nodeId C = ∅ := by simp
      have hin : insert data.nodeId C \ C ⊆ {data.nodeId} := by
        intro p hp
        simp only [Finset.mem_sdiff, Finset.mem_insert] at hp
        exact Finset.mem_singleton.mpr (hp.1.resolve_right hp.2)
      rw [hout, Finset.card_empty, Nat.zero_add]
      exact (Finset.card_le_card hin).trans (Finset.card_singleton _).le
  | nodeLeave nodeId =>
    have hin : C.erase nodeId \ C = ∅ := Finset.sdiff_eq_empty_iff_subset.mpr (C.erase_subset _)
    have hout : C \ C.erase nodeId ⊆ {nodeId} := by
      intro p hp
      simp only [Finset.mem_sdiff, Finset.mem_erase, not_and, Finset.mem_singleton] at hp ⊢
      by_contra hne
      exact hp.2 hne hp.1
    simp only [Entry.reconfigure]
    rw [hin, Finset.card_empty, Nat.add_zero]
    exact (Finset.card_le_card hout).trans (Finset.card_singleton _).le
  | other => simp [Entry.reconfigure]

theorem card_configuration_take (V : List JoinData) (log : List Entry) (k : Nat) :
    (configuration V (log.take k) \ configuration V (log.take (k + 1))).card +
      (configuration V (log.take (k + 1)) \ configuration V (log.take k)).card ≤ 1 := by
  rw [List.take_add_one]
  cases log[k]? with
  | none => simp
  | some entry =>
    rw [Option.toList_some, configuration_concat]
    exact card_reconfigure _ entry

-- ---------------------------------------------------------------------------
-- The voting set of a node
-- ---------------------------------------------------------------------------

def electorate (n : RaftNode) : Finset NodeId := insert n.nodeId n.voters

/-- Enough members of the node's own voting set to win an election. -/
def VoteQuorum (n : RaftNode) (Q : Finset NodeId) : Prop :=
  Q ⊆ electorate n ∧ n.voterCount / 2 + 1 ≤ Q.card

instance (n : RaftNode) (Q : Finset NodeId) : Decidable (VoteQuorum n Q) :=
  inferInstanceAs (Decidable (Q ⊆ electorate n ∧ n.voterCount / 2 + 1 ≤ Q.card))

theorem mem_voters_iff (n : RaftNode) (p : NodeId) :
    p ∈ n.voters ↔ n.votingMember? p = some true := by
  simp only [RaftNode.voters, List.mem_toFinset, List.mem_map, RaftNode.votingPeers,
    List.mem_filter, RaftNode.votingMember?, Option.map_eq_some_iff]
  constructor
  · rintro ⟨q, ⟨hq, hvote⟩, rfl⟩
    refine ⟨q, ?_, hvote⟩
    have hsome : (n.peers.values.find? (·.nodeId = q.nodeId)).isSome :=
      List.find?_isSome.mpr ⟨q, hq, by simp⟩
    obtain ⟨r, hr⟩ := Option.isSome_iff_exists.mp hsome
    have hid : r.nodeId = q.nodeId := by simpa using List.find?_some hr
    rw [hr, List.inj_on_of_nodup_map n.peers.nodup (List.mem_of_find?_eq_some hr) hq hid]
  · rintro ⟨q, hq, hvote⟩
    exact ⟨q, ⟨List.mem_of_find?_eq_some hq, hvote⟩, by simpa using List.find?_some hq⟩

structure Tracks (V : List JoinData) (id : NodeId) (entries : List Entry) (m : MembershipManager) :
    Prop where
  voters : ∀ p, m.raft.votingMember? p = some true ↔ p ≠ id ∧ p ∈ configuration V entries
  knows : ∀ p b, m.raft.votingMember? p = some b → m.Knows p

section
variable {V : List JoinData} {id : NodeId} {entries : List Entry} {m m' : MembershipManager}

theorem Tracks.idle (h : Tracks V id entries m) (hi : Idle m m') : Tracks V id entries m' := by
  have hsame : ∀ p, m'.raft.votingMember? p = m.raft.votingMember? p :=
    RaftNode.votingMember?_congr hi.peers
  refine ⟨fun p => ?_, fun p b hb => ?_⟩
  · rw [hsame]
    exact h.voters p
  · rw [hsame] at hb
    exact hi.knows p (h.knows p b hb)

theorem Tracks.join (h : Tracks V id entries m) (hs : Sound id m) (now : Nat) (data : JoinData) :
    Tracks V id (entries ++ [.nodeJoin data]) (m.handleNodeJoinCommitted now data) := by
  constructor
  · intro p
    rw [votingMember?_join, configuration_concat, hs.raftId, Entry.reconfigure]
    cases hobs : isObserver data.nodeId with
    | true =>
      -- an observer is no voter before and none after
      have hnot : data.nodeId ∉ configuration V entries := by
        intro hmem
        rw [configuration_voting hmem] at hobs
        cases hobs
      by_cases hp : p = data.nodeId
      · subst hp
        simp only [true_and, Bool.not_true, ↓reduceIte, hnot, and_false, iff_false]
        split
        · simp
        · rw [h.voters]
          simp [hnot]
      · simpa [hp] using h.voters p
    | false =>
      by_cases hp : p = data.nodeId
      · subst hp
        by_cases hself : data.nodeId = id
        · simpa [hself] using h.voters id
        · simp [hself]
      · simpa [hp] using h.voters p
  · intro p b hb
    rw [← knows_iff]
    change ((m.nodes.put (JoinData.toNode data now)).find? p).isSome
    rw [Table.find?_put]
    split
    · rfl
    case isFalse hp =>
      rw [votingMember?_join, if_neg (fun hp' => hp hp'.1)] at hb
      exact (knows_iff m p).mpr (h.knows p b hb)

theorem Tracks.leave (h : Tracks V id entries m) (nodeId : NodeId) :
    Tracks V id (entries ++ [.nodeLeave nodeId]) (m.handleNodeLeaveCommitted nodeId) := by
  rw [handleNodeLeaveCommitted]
  split
  case isTrue hknown =>
    constructor
    · intro p
      rw [RaftNode.votingMember?_removePeer, configuration_concat, Entry.reconfigure,
        Finset.mem_erase]
      by_cases hp : p = nodeId
      · simp [hp]
      · simpa [hp] using h.voters p
    · intro p b hb
      rw [RaftNode.votingMember?_removePeer] at hb
      split at hb
      · cases hb
      case isFalse hp =>
        rw [← knows_iff]
        change ((m.nodes.delete nodeId).find? p).isSome
        rw [Table.find?_delete, if_neg hp]
        exact (knows_iff m p).mpr (h.knows p b hb)
  case isFalse hknown =>
    -- a node the map does not have is not among the peers either
    have hnone : m.raft.votingMember? nodeId ≠ some true :=
      fun hb => hknown ((knows_iff m nodeId).mpr (h.knows nodeId true hb))
    refine ⟨fun p => ?_, h.knows⟩
    rw [configuration_concat, Entry.reconfigure, Finset.mem_erase, h.voters]
    by_cases hp : p = nodeId
    · subst hp
      rw [ne_eq, h.voters] at hnone
      simp [hnone]
    · simp [hp]

theorem Tracks.handleCommittedEntry (h : Tracks V id entries m) (hs : Sound id m) (now : Nat)
    (entry : Entry) : Tracks V id (entries ++ [entry]) (m.handleCommittedEntry now entry) := by
  cases entry with
  | nodeJoin data => exact h.join hs now data
  | nodeLeave nodeId => exact h.leave nodeId
  | other =>
    refine ⟨fun p => ?_, h.knows⟩
    rw [configuration_concat]
    exact h.voters p

theorem tracks_start {config : MembershipConfig} {raftConfig : Raft.RaftConfig}
    (V : List JoinData) (hc : config.nodeId = id) (hr : raftConfig.nodeId = id) :
    Tracks V id [] (Member.start V config raftConfig).manager := by
  have hboot : (RaftNode.boot raftConfig []).peers.values = [] :=
    congrArg Raft.PeerMap.values (Registry.peers_start _ rfl)
  have hnone : ∀ p, (MembershipManager.create config (RaftNode.boot raftConfig [])
      0).raft.votingMember? p = none := fun p => by
    simp [MembershipManager.create, RaftNode.votingMember?, hboot]
  have hcreate : Tracks [] id [] (.create config (RaftNode.boot raftConfig []) 0) :=
    ⟨fun p => by simp [hnone, configuration], fun p b hb => by simp [hnone] at hb⟩
  have hsound : Sound id (Member.start [] config raftConfig).manager := sound_start [] hc hr
  have hfold : ∀ entries (m : MembershipManager), Tracks [] id entries m → Sound id m →
      Tracks [] id (entries ++ V.map .nodeJoin)
        (V.foldl (fun m data => m.handleNodeJoinCommitted 0 data) m) := by
    induction V with
    | nil =>
      intro entries m h _
      simpa using h
    | cons data V ih =>
      intro entries m h hs
      have := ih _ _ (h.join hs 0 data) (hs.handleCommittedEntry 0 (.nodeJoin data))
      simpa using this
  have h := hfold [] _ hcreate hsound
  have hconf : configuration [] ([] ++ V.map .nodeJoin) = configuration V [] := by
    simp [configuration]
  exact ⟨fun p => hconf ▸ h.voters p, h.knows⟩

end

-- ---------------------------------------------------------------------------
-- Runs
-- ---------------------------------------------------------------------------

namespace Registry

/-- Peers come and go by committed entries alone: no response is handled and
no process starts over. -/
def Action.byLog : Action → Bool
  | .receive _ => false
  | .restart _ _ => false
  | _ => true

section
variable {V : List JoinData} {w w' : Registry} {a : Action}

def prefixOf (w : Registry) (id : NodeId) : List Entry := w.log.take (w.member id).applied

structure Following (V : List JoinData) (w : Registry) : Prop where
  tracks : ∀ id, Tracks V id (w.prefixOf id) (w.manager id)
  applied : ∀ id, (w.member id).applied ≤ w.log.length

theorem Following.step (h : Following V w) (hplain : w.Plain) (hg : a.byLog)
    (hs : w.step a = some w') : Following V w' := by
  obtain ⟨later, hlater⟩ := step_log hs
  have htake : ∀ k ≤ w.log.length, w'.log.take k = w.log.take k := by
    intro k hk
    rw [← hlater, List.take_append_of_le_length hk]
  have hlen : w.log.length ≤ w'.log.length := (step_log hs).length_le
  have hmember : ∀ id, Tracks V id (w'.prefixOf id) (w'.manager id) ∧
      (w'.member id).applied ≤ w'.log.length := by
    intro id
    have hb := step_member hs id
    have hle := h.applied id
    rw [prefixOf, manager]
    generalize w'.member id = member at hb
    cases hb with
    | idle hi =>
      refine ⟨?_, hle.trans hlen⟩
      rw [htake _ hle]
      exact (h.tracks id).idle hi
    | @applied now entry _ he =>
      have hlt := (List.getElem?_eq_some_iff.mp he).1
      refine ⟨?_, Nat.succ_le_of_lt (hlt.trans_le hlen)⟩
      dsimp only
      rw [htake _ hlt, List.take_add_one, he]
      exact (h.tracks id).handleCommittedEntry (hplain.sound id) now entry
    | received ha => simp [ha, Action.byLog] at hg
    | restarted ha => simp [ha, Action.byLog] at hg
  exact ⟨fun id => (hmember id).1, fun id => (hmember id).2⟩

theorem reach_following (h : (registry V).Reach (fun _ a => a.byLog) w) : Following V w := by
  refine h.invariant (I := Following V) ?_ fun w a w' hr hI hg hs =>
    hI.step (reach_plain hr) hg hs
  rintro w ⟨hlog, -, -, hstart⟩
  have hstart' : ∀ id, Tracks V id (w.prefixOf id) (w.manager id) ∧
      (w.member id).applied ≤ w.log.length := by
    intro id
    obtain ⟨config, raftConfig, hc, hr, heq⟩ := hstart id
    rw [prefixOf, manager, heq, hlog, List.take_nil]
    exact ⟨tracks_start V hc hr, Nat.zero_le _⟩
  exact ⟨fun id => (hstart' id).1, fun id => (hstart' id).2⟩

/-- The voting set of a node is the configuration of the prefix it has applied,
and the node itself. -/
theorem reach_electorate (h : (registry V).Reach (fun _ a => a.byLog) w) (id : NodeId) :
    electorate (w.manager id).raft = insert id (configuration V (w.prefixOf id)) := by
  have hraft := ((reach_plain h).sound id).raftId
  have htracks := (reach_following h).tracks id
  ext p
  rw [electorate, hraft, Finset.mem_insert, Finset.mem_insert, mem_voters_iff, htracks.voters]
  by_cases hp : p = id <;> simp [hp]

theorem reach_card_electorate (h : (registry V).Reach (fun _ a => a.byLog) w) (id : NodeId) :
    (electorate (w.manager id).raft).card = (w.manager id).raft.voterCount := by
  have hraft := ((reach_plain h).sound id).raftId
  have hnot : id ∉ (w.manager id).raft.voters := by
    rw [mem_voters_iff, ((reach_following h).tracks id).voters]
    simp
  rw [electorate, hraft, Finset.card_insert_of_notMem hnot, RaftNode.voters,
    List.toFinset_card_of_nodup (RaftNode.nodup_votingPeers _), List.length_map]
  rfl

def electorateOf (V : List JoinData) (w : Registry) (id : NodeId) : Finset NodeId :=
  insert id (configuration V (w.prefixOf id))

theorem card_electorateOf {x y : NodeId}
    (hxy : (w.member x).applied = (w.member y).applied ∨
      (w.member x).applied + 1 = (w.member y).applied)
    (hx : x ∈ configuration V (w.prefixOf x)) (hy : y ∈ configuration V (w.prefixOf y)) :
    (electorateOf V w x \ electorateOf V w y).card +
      (electorateOf V w y \ electorateOf V w x).card ≤ 1 := by
  rw [electorateOf, electorateOf, Finset.insert_eq_of_mem hx, Finset.insert_eq_of_mem hy]
  rcases hxy with heq | heq
  · simp [prefixOf, heq]
  · rw [prefixOf, prefixOf, ← heq]
    exact card_configuration_take V w.log _

/-- The quorums of two nodes meet exactly if what each has to take from the
common members exceeds them; they do if the nodes are one entry apart and each
is a member of its configuration. -/
theorem quorums_meet (h : (registry V).Reach (fun _ a => a.byLog) w) (x y : NodeId) :
    ((∀ A B, VoteQuorum (w.manager x).raft A → VoteQuorum (w.manager y).raft B →
        (A ∩ B).Nonempty) ↔
      (electorateOf V w x ∩ electorateOf V w y).card <
        ((electorateOf V w x).card / 2 + 1 - (electorateOf V w x \ electorateOf V w y).card) +
        ((electorateOf V w y).card / 2 + 1 - (electorateOf V w y \ electorateOf V w x).card)) ∧
    ((w.member x).applied ≤ (w.member y).applied + 1 →
      (w.member y).applied ≤ (w.member x).applied + 1 →
      x ∈ configuration V (w.prefixOf x) → y ∈ configuration V (w.prefixOf y) →
      ∀ A B, VoteQuorum (w.manager x).raft A → VoteQuorum (w.manager y).raft B →
        (A ∩ B).Nonempty) := by
  have hX : electorate (w.manager x).raft = electorateOf V w x := reach_electorate h x
  have hY : electorate (w.manager y).raft = electorateOf V w y := reach_electorate h y
  have hmeet : (∀ A B, VoteQuorum (w.manager x).raft A → VoteQuorum (w.manager y).raft B →
      (A ∩ B).Nonempty) ↔ QuorumsMeet (electorateOf V w x) (electorateOf V w y)
        ((electorateOf V w x).card / 2 + 1) ((electorateOf V w y).card / 2 + 1) := by
    simp only [VoteQuorum, ← reach_card_electorate h, hX, hY]
    exact ⟨fun hm A hA B hB hp hq => hm A B ⟨hA, hp⟩ ⟨hB, hq⟩,
      fun hm A B hA hB => hm A hA.1 B hB.1 hA.2 hB.2⟩
  refine ⟨hmeet.trans quorumsMeet_iff, fun hxy hyx hx hy => ?_⟩
  refine hmeet.mpr (.majorities ?_)
  rcases Nat.lt_or_ge (w.member y).applied (w.member x).applied with hlt | hge
  · rw [Nat.add_comm]
    exact card_electorateOf (by omega) hy hx
  · exact card_electorateOf (by omega) hx hy

end

-- ---------------------------------------------------------------------------
-- Two joins in flight
-- ---------------------------------------------------------------------------

def peer (id : NodeId) : JoinData := ⟨id, id, "100.64.0.1", 50051, []⟩

def three : Registry where
  member id := Member.start (["a", "b", "c"].map peer)
    { nodeId := id, hostname := id, tailscaleIp := "100.64.0.1", grpcPort := 50051 }
    { nodeId := id }

theorem three_started : (registry (["a", "b", "c"].map peer)).init three :=
  ⟨rfl, rfl, rfl, fun _ => ⟨_, _, rfl, rfl, rfl⟩⟩

/-- The leader `c` appends the joins of `d` and `e`, and both are committed. -/
def twoJoins : List Action :=
  [.stateChange "c" .leader, .approve "c" (JoinData.toNode (peer "d") 0),
    .approve "c" (JoinData.toNode (peer "e") 0), .commit 0, .commit 1]

/-- `c` is one entry ahead of `a`, and every three of its four voters meet
every two of the three of `a`. -/
theorem one_join_meets : ∃ w, (registry (["a", "b", "c"].map peer)).Reach (fun _ a => a.byLog) w ∧
    (VoteQuorum (w.manager "a").raft {"a", "b"} ∧
      VoteQuorum (w.manager "c").raft {"b", "c", "d"}) ∧
    ∀ A B, VoteQuorum (w.manager "a").raft A → VoteQuorum (w.manager "c").raft B →
      (A ∩ B).Nonempty := by
  obtain ⟨w, hw, hP, hxy, hyx, hx, hy⟩ := System.Reach.replay
    (M := registry (["a", "b", "c"].map peer)) (G := fun _ a => a.byLog)
    (P := fun w => (VoteQuorum (w.manager "a").raft {"a", "b"} ∧
        VoteQuorum (w.manager "c").raft {"b", "c", "d"}) ∧
      (w.member "a").applied ≤ (w.member "c").applied + 1 ∧
      (w.member "c").applied ≤ (w.member "a").applied + 1 ∧
      "a" ∈ configuration (["a", "b", "c"].map peer) (w.prefixOf "a") ∧
      "c" ∈ configuration (["a", "b", "c"].map peer) (w.prefixOf "c")) three_started
    (twoJoins ++ [.apply "c" 1]) (by decide +kernel)
  exact ⟨w, hw, hP, (quorums_meet hw "a" "c").2 hxy hyx hx hy⟩

/-- `c` has applied both joins, `a` none: two voters of `a` and three of `c`
have nobody in common. -/
theorem two_joins_split :
    ∃ w, (registry (["a", "b", "c"].map peer)).Reach (fun _ a => a.byLog) w ∧
      ∃ A B, VoteQuorum (w.manager "a").raft A ∧ VoteQuorum (w.manager "c").raft B ∧
        ¬ (A ∩ B).Nonempty := by
  obtain ⟨w, hw, hA, hB⟩ := System.Reach.replay
    (M := registry (["a", "b", "c"].map peer)) (G := fun _ a => a.byLog)
    (P := fun w => VoteQuorum (w.manager "a").raft {"a", "b"} ∧
      VoteQuorum (w.manager "c").raft {"c", "d", "e"}) three_started
    (twoJoins ++ [.apply "c" 1, .apply "c" 2]) (by decide +kernel)
  exact ⟨w, hw, _, _, hA, hB, by decide⟩

end Registry

end ClaudeCluster.Membership
