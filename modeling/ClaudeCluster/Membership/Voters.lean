import ClaudeCluster.Membership.Registry

/-!
# Who votes

Every node keeps a `votingMember` flag for each of its peers. A committed
`node_join` sets it from the suffix of the id; the response to `RegisterNode`
sets it from the role, and no role it can carry is `worker`
(`Registry.Plain`). So the second way makes a voter of an observer, and
`reach_voterAgreement` says that this is the only way the flags go wrong.
-/

namespace ClaudeCluster.Raft

-- ---------------------------------------------------------------------------
-- The flag of a peer
-- ---------------------------------------------------------------------------

namespace RaftNode

def votingMember? (n : RaftNode) (id : NodeId) : Option Bool :=
  (n.peers.values.find? (·.nodeId = id)).map PeerInfo.votingMember

section
variable {n n' : RaftNode}

theorem votingMember?_congr (h : n'.peers = n.peers) (p : NodeId) :
    n'.votingMember? p = n.votingMember? p := by
  rw [votingMember?, votingMember?, h]

theorem find?_setValues (q : PeerInfo) (qs : List PeerInfo) (p : NodeId) :
    (PeerMap.setValues q qs).find? (·.nodeId = p) =
      if p = q.nodeId then some q else qs.find? (·.nodeId = p) := by
  induction qs with
  | nil =>
    by_cases hp : p = q.nodeId
    · simp [PeerMap.setValues, hp]
    · simp [PeerMap.setValues, hp, Ne.symm hp]
  | cons r qs ih =>
    simp only [PeerMap.setValues]
    split
    case isTrue hr =>
      by_cases hp : p = q.nodeId
      · simp [hp]
      · simp [hp, hr, Ne.symm hp]
    case isFalse hr =>
      by_cases hp : r.nodeId = p
      · have hq : p ≠ q.nodeId := hp ▸ hr
        simp [hp, hq]
      · simpa [hp] using ih

theorem votingMember?_addPeer (n : RaftNode) (id : NodeId) (voting : Bool) (p : NodeId) :
    (n.addPeer id voting).votingMember? p =
      if p = id ∧ id ≠ n.nodeId then some voting else n.votingMember? p := by
  unfold addPeer
  split
  case isTrue hid => simp [hid]
  case isFalse hid =>
    simp only [votingMember?, PeerMap.set, find?_setValues]
    by_cases hp : p = id
    · simp [hp, hid]
    · simp [hp]

theorem votingMember?_removePeer (n : RaftNode) (id p : NodeId) :
    (n.removePeer id).votingMember? p = if p = id then none else n.votingMember? p := by
  simp only [votingMember?, removePeer, PeerMap.delete, List.find?_filter]
  split
  case isTrue h =>
    subst h
    simp [List.find?_eq_none]
  case isFalse h =>
    congr 2
    funext q
    by_cases hq : q.nodeId = p
    · simp [hq, h]
    · simp [hq]

end

end RaftNode

end ClaudeCluster.Raft

namespace ClaudeCluster.Membership

open Lib
open Raft (NodeId RaftNode)
open MembershipManager

-- ---------------------------------------------------------------------------
-- What the methods do to the flags
-- ---------------------------------------------------------------------------

section
variable {m : MembershipManager}

@[simp] theorem nodeId_addPeer (n : RaftNode) (id : NodeId) (voting : Bool) :
    (n.addPeer id voting).nodeId = n.nodeId := by
  unfold RaftNode.addPeer
  split <;> rfl

theorem votingMember?_join (m : MembershipManager) (now : Nat) (data : JoinData) (p : NodeId) :
    (m.handleNodeJoinCommitted now data).raft.votingMember? p =
      if p = data.nodeId ∧ data.nodeId ≠ m.raft.nodeId then some (!isObserver data.nodeId)
      else m.raft.votingMember? p :=
  RaftNode.votingMember?_addPeer _ _ _ _

theorem learnPeer_ids (m : MembershipManager) (peer : NodeInfo) :
    (m.learnPeer peer).config = m.config ∧ (m.learnPeer peer).raft.nodeId = m.raft.nodeId := by
  unfold learnPeer
  split
  · exact ⟨rfl, rfl⟩
  · split
    · exact ⟨rfl, rfl⟩
    · exact ⟨rfl, nodeId_addPeer _ _ _⟩

theorem votingMember?_learnPeer {peer : NodeInfo} (hrole : peer.role ≠ .worker)
    (hid : m.config.nodeId = m.raft.nodeId) (p : NodeId) :
    (m.learnPeer peer).raft.votingMember? p =
      if p ≠ m.config.nodeId ∧ peer.nodeId = p ∧ peer.addressed then some true
      else m.raft.votingMember? p := by
  unfold learnPeer
  split
  case isTrue hself =>
    rw [if_neg]
    rintro ⟨hp, heq, -⟩
    exact hp (heq.symm.trans hself)
  case isFalse hself =>
    split
    case isTrue haddr => simp_all
    case isFalse haddr =>
      have haddr : peer.addressed = true := by simpa using haddr
      have hset := RaftNode.votingMember?_addPeer m.raft peer.nodeId (peer.role ≠ NodeRole.worker) p
      rw [← hid] at hset
      refine hset.trans ?_
      by_cases hp : p = peer.nodeId
      · subst hp
        simp [hself, haddr, hrole]
      · simp [hp, Ne.symm hp]

/-- The flags after the loop over the peers of a response: those of the nodes
it lists are set, the others are as before. -/
theorem votingMember?_learnPeers {peers : List NodeInfo}
    (hw : ∀ peer ∈ peers, peer.role ≠ .worker) (hid : m.config.nodeId = m.raft.nodeId)
    (p : NodeId) :
    (peers.foldl learnPeer m).raft.votingMember? p =
      if p ≠ m.config.nodeId ∧ ∃ peer ∈ peers, peer.nodeId = p ∧ peer.addressed then some true
      else m.raft.votingMember? p := by
  induction peers generalizing m with
  | nil => simp
  | cons peer peers ih =>
    obtain ⟨hconfig, hraft⟩ := learnPeer_ids m peer
    have hid' : (m.learnPeer peer).config.nodeId = (m.learnPeer peer).raft.nodeId := by
      rw [hconfig, hraft, hid]
    rw [List.foldl_cons, ih (fun q hq => hw q (List.mem_cons_of_mem _ hq)) hid', hconfig,
      votingMember?_learnPeer (hw peer List.mem_cons_self) hid]
    simp only [List.mem_cons, exists_eq_or_imp]
    by_cases hp : p = m.config.nodeId
    · simp [hp]
    · by_cases hrest : ∃ q ∈ peers, q.nodeId = p ∧ q.addressed = true
      · simp [hp, hrest]
      · simp [hp, hrest]

def JoinResponse.admits (response : JoinResponse) : Bool :=
  !response.pendingApproval && response.approved

theorem votingMember?_handleJoinResponse {response : JoinResponse} (seedAddress : String)
    (hw : ∀ peer ∈ response.peers, peer.role ≠ .worker) (hid : m.config.nodeId = m.raft.nodeId)
    (p : NodeId) :
    (m.handleJoinResponse seedAddress response).1.raft.votingMember? p =
      if response.admits ∧ p ≠ m.config.nodeId ∧
          ∃ peer ∈ response.peers, peer.nodeId = p ∧ peer.addressed then some true
      else m.raft.votingMember? p := by
  unfold handleJoinResponse JoinResponse.admits
  cases hpend : response.pendingApproval with
  | true =>
    simp
    rfl
  | false =>
    cases happ : response.approved with
    | true =>
      have hlearn := votingMember?_learnPeers
        (m := { m with leaderAddress := some response.leaderAddress }.setStatus m.config.nodeId
          .active) hw hid p
      simp only [Bool.false_eq_true, ↓reduceIte, Bool.not_false, Bool.and_self, true_and]
      exact hlearn
    | false =>
      simp only [Bool.false_eq_true, ↓reduceIte, Bool.and_false, false_and]
      split <;> rfl

end

-- ---------------------------------------------------------------------------
-- Roles
-- ---------------------------------------------------------------------------

/-- A process that knows who it is and of no `worker`. -/
structure Sound (id : NodeId) (m : MembershipManager) : Prop where
  configId : m.config.nodeId = id
  raftId : m.raft.nodeId = id
  workless : Workless m.nodes

section
variable {m m' : MembershipManager} {id : NodeId}

theorem Sound.idle (h : Sound id m) (hi : Idle m m') : Sound id m' :=
  ⟨hi.config ▸ h.configId, hi.raftId.trans h.raftId, hi.workless h.workless⟩

theorem Sound.handleCommittedEntry (h : Sound id m) (now : Nat) (entry : Entry) :
    Sound id (m.handleCommittedEntry now entry) := by
  cases entry with
  | nodeJoin data =>
    exact ⟨h.configId, (nodeId_addPeer _ _ _).trans h.raftId,
      h.workless.put (by simp [JoinData.toNode])⟩
  | nodeLeave nodeId =>
    simp only [MembershipManager.handleCommittedEntry, handleNodeLeaveCommitted]
    split
    · exact ⟨h.configId, h.raftId, fun node hn => h.workless node (List.mem_of_mem_filter hn)⟩
    · exact h
  | other => exact h

theorem Sound.learnPeer (h : Sound id m) {peer : NodeInfo} (hp : peer.role ≠ .worker) :
    Sound id (m.learnPeer peer) := by
  obtain ⟨hconfig, hraft⟩ := learnPeer_ids m peer
  refine ⟨hconfig ▸ h.configId, hraft.trans h.raftId, ?_⟩
  unfold MembershipManager.learnPeer
  split
  · exact h.workless
  · split
    · exact h.workless
    · exact h.workless.put hp

theorem Sound.learnPeers {peers : List NodeInfo} (h : Sound id m)
    (hp : ∀ peer ∈ peers, peer.role ≠ .worker) : Sound id (peers.foldl MembershipManager.learnPeer m) := by
  induction peers generalizing m with
  | nil => exact h
  | cons peer peers ih =>
    exact ih (h.learnPeer (hp peer List.mem_cons_self)) fun q hq => hp q (List.mem_cons_of_mem _ hq)

theorem Sound.handleJoinResponse (h : Sound id m) (seedAddress : String) {response : JoinResponse}
    (hp : ∀ peer ∈ response.peers, peer.role ≠ .worker) :
    Sound id (m.handleJoinResponse seedAddress response).1 := by
  unfold MembershipManager.handleJoinResponse
  split
  · exact h.idle (idle_setStatus _ _ _)
  · split
    · have hactive := h.idle ((idle_leaderAddress m (some response.leaderAddress)).trans
        (idle_setStatus _ m.config.nodeId .active))
      exact { hactive.learnPeers hp with }
    · split <;> exact h

theorem sound_create (config : MembershipConfig) (raft : RaftNode) (now : Nat)
    (hc : config.nodeId = id) (hr : raft.nodeId = id) : Sound id (.create config raft now) := by
  have hempty : Workless (Table.empty : Table NodeInfo.nodeId) := fun _ h => by cases h
  exact ⟨hc, hr, hempty.put (by simp)⟩

theorem sound_start {config : MembershipConfig} {raftConfig : Raft.RaftConfig} (V : List JoinData)
    (hc : config.nodeId = id) (hr : raftConfig.nodeId = id) :
    Sound id (Member.start V config raftConfig).manager := by
  have hboot : (RaftNode.boot raftConfig []).nodeId = id := by
    obtain ⟨peers, nextRef, heq, -⟩ := RaftNode.boot_eq raftConfig []
    rw [heq]
    exact hr
  have hcreate := sound_create config (RaftNode.boot raftConfig []) 0 hc hboot
  unfold Member.start
  dsimp only
  generalize MembershipManager.create config (RaftNode.boot raftConfig []) 0 = m at hcreate
  induction V generalizing m with
  | nil => exact hcreate
  | cons data V ih => exact ih _ (hcreate.handleCommittedEntry 0 (.nodeJoin data))

end

namespace Registry

section
variable {V : List JoinData} {w w' : Registry} {a : Action} {G : Registry → Action → Prop}

structure Plain (w : Registry) : Prop where
  sound : ∀ id, Sound id (w.manager id)
  responses : ∀ response, w.Responded response → ∀ peer ∈ response.peers, peer.role ≠ .worker

theorem Plain.step (h : w.Plain) (hs : w.step a = some w') : w'.Plain := by
  constructor
  · intro id
    have hb := step_member hs id
    rw [manager]
    generalize w'.member id = member at hb
    cases hb with
    | idle hi => exact (h.sound id).idle hi
    | applied _ he => exact (h.sound id).handleCommittedEntry _ _
    | @received k c response _ hk _ hp =>
      have hresp : w.Responded response := ⟨c, List.mem_of_getElem? hk, hp⟩
      exact (h.sound id).handleJoinResponse _ (h.responses response hresp)
    | restarted =>
      refine sound_create _ _ _ (h.sound id).configId ?_
      obtain ⟨peers, nextRef, T, heq, -⟩ := RaftNode.restart_eq [] (w.manager id).raft
      rw [heq]
      exact (h.sound id).raftId
  · intro response hr peer hp
    rcases step_responded hs hr with hr | hnil | ⟨server, rfl⟩
    · exact h.responses response hr peer hp
    · rw [hnil] at hp
      cases hp
    · obtain ⟨node, hn, rfl⟩ := List.mem_map.mp hp
      rw [NodeInfo.overWire_eq]
      exact (h.sound server).workless node (List.mem_of_mem_filter hn)

theorem reach_plain (h : (registry V).Reach G w) : w.Plain := by
  refine h.invariant (I := Plain) ?_ fun _ _ _ _ hI _ hs => hI.step hs
  rintro w ⟨-, -, hcalls, hstart⟩
  refine ⟨fun id => ?_, ?_⟩
  · obtain ⟨config, raftConfig, hc, hr, heq⟩ := hstart id
    rw [manager, heq]
    exact sound_start V hc hr
  · rintro response ⟨c, hc, -⟩
    rw [hcalls] at hc
    cases hc

end

-- ---------------------------------------------------------------------------
-- Agreement on the voters
-- ---------------------------------------------------------------------------

/-- Nodes that both have `p` as a peer agree on whether it votes, and it does
unless it is an observer. -/
def VoterAgreement (w : Registry) : Prop :=
  ∀ x y p b c, (w.manager x).raft.votingMember? p = some b →
    (w.manager y).raft.votingMember? p = some c → b = c ∧ (b = false ↔ isObserver p)

def Flagged (m : MembershipManager) : Prop :=
  ∀ p b, m.raft.votingMember? p = some b → b = !isObserver p

/-- The step takes peers from a response, and an observer is among them. -/
def listsObserver (w : Registry) : Action → Bool
  | .receive k =>
    match w.calls[k]? with
    | some (some c) =>
      match c.progress with
      | .answered response => response.admits && response.peers.any fun peer =>
          peer.nodeId ≠ c.caller && peer.addressed && isObserver peer.nodeId
      | _ => false
    | _ => false
  | _ => false

section
variable {V : List JoinData} {w w' : Registry} {a : Action} {m m' : MembershipManager}

theorem voterAgreement_iff : w.VoterAgreement ↔ ∀ id, Flagged (w.manager id) := by
  constructor
  · intro h id p b hb
    have hobs := (h id id p b b hb hb).2
    cases b <;> simp_all
  · intro h x y p b c hb hc
    have hb := h x p b hb
    have hc := h y p c hc
    subst hb hc
    simp

theorem Flagged.congr (h : Flagged m) (hp : m'.raft.peers = m.raft.peers) : Flagged m' := by
  intro p b hb
  rw [RaftNode.votingMember?_congr hp] at hb
  exact h p b hb

theorem Flagged.handleCommittedEntry (h : Flagged m) (now : Nat) (entry : Entry) :
    Flagged (m.handleCommittedEntry now entry) := by
  intro p b hb
  cases entry with
  | nodeJoin data =>
    rw [MembershipManager.handleCommittedEntry, votingMember?_join] at hb
    split at hb
    case isTrue hp => rw [hp.1, ← Option.some.inj hb]
    case isFalse => exact h p b hb
  | nodeLeave nodeId =>
    simp only [MembershipManager.handleCommittedEntry, handleNodeLeaveCommitted] at hb
    split at hb
    · rw [RaftNode.votingMember?_removePeer] at hb
      split at hb
      · cases hb
      · exact h p b hb
    · exact h p b hb
  | other => exact h p b hb

theorem peers_start (n : RaftNode) (h : n.running = false) : n.start.peers = n.peers := by
  rw [RaftNode.start_eq n h]
  rfl

theorem flagged_create (config : MembershipConfig) {raft : RaftNode} (now : Nat)
    (hp : raft.peers.values = []) : Flagged (.create config raft now) := by
  intro p b hb
  simp [MembershipManager.create, RaftNode.votingMember?, hp] at hb

theorem flagged_start (V : List JoinData) (config : MembershipConfig)
    (raftConfig : Raft.RaftConfig) : Flagged (Member.start V config raftConfig).manager := by
  have hcreate : Flagged (.create config (RaftNode.boot raftConfig []) 0) :=
    flagged_create config 0 (congrArg Raft.PeerMap.values (peers_start _ rfl))
  unfold Member.start
  dsimp only
  generalize MembershipManager.create config (RaftNode.boot raftConfig []) 0 = m at hcreate
  induction V generalizing m with
  | nil => exact hcreate
  | cons data V ih => exact ih _ (hcreate.handleCommittedEntry 0 (.nodeJoin data))

theorem Flagged.handleJoinResponse {id : NodeId} {response : JoinResponse} (h : Flagged m)
    (hs : Sound id m) (hw : ∀ peer ∈ response.peers, peer.role ≠ .worker) (seedAddress : String)
    (hno : response.admits → ∀ peer ∈ response.peers, peer.nodeId ≠ id → peer.addressed →
      isObserver peer.nodeId = false) :
    Flagged (m.handleJoinResponse seedAddress response).1 := by
  intro p b hb
  rw [votingMember?_handleJoinResponse seedAddress hw (hs.configId.trans hs.raftId.symm)] at hb
  split at hb
  case isTrue hl =>
    obtain ⟨hadmits, hself, peer, hp, rfl, haddr⟩ := hl
    rw [hs.configId] at hself
    rw [← Option.some.inj hb, hno hadmits peer hp hself haddr]
    rfl
  case isFalse => exact h p b hb

theorem step_flagged (hplain : w.Plain) (hs : w.step a = some w')
    (hno : ¬ w.listsObserver a) (h : ∀ id, Flagged (w.manager id)) (id : NodeId) :
    Flagged (w'.manager id) := by
  have hb := step_member hs id
  rw [manager]
  generalize w'.member id = member at hb
  cases hb with
  | idle hi => exact (h id).congr hi.peers
  | applied => exact (h id).handleCommittedEntry _ _
  | @received k c response ha hk hid hp =>
    have hresp : w.Responded response := ⟨c, List.mem_of_getElem? hk, hp⟩
    refine (h id).handleJoinResponse (hplain.sound id) (hplain.responses _ hresp) _ ?_
    intro hadmits peer hpeer hself haddr
    subst ha hid
    simp only [listsObserver, hk, hp, hadmits, Bool.true_and, List.any_eq_true, not_exists,
      Bool.and_eq_true, decide_eq_true_eq, not_and] at hno
    simpa using hno peer hpeer ⟨hself, haddr⟩
  | restarted => exact flagged_create _ _ (congrArg Raft.PeerMap.values (peers_start _ rfl))

theorem not_flagged_of_listed (hplain : w.Plain) (hs : w.step a = some w')
    (hl : w.listsObserver a) : ∃ id, ¬ Flagged (w'.manager id) := by
  unfold listsObserver at hl
  split at hl
  case h_2 => cases hl
  case h_1 k =>
    split at hl
    case h_2 => cases hl
    case h_1 c hk =>
      split at hl
      case h_2 => cases hl
      case h_1 response hp =>
        simp only [Bool.and_eq_true, List.any_eq_true, decide_eq_true_eq] at hl
        obtain ⟨hadmits, peer, hpeer, ⟨hself, haddr⟩, hobs⟩ := hl
        have hresp : w.Responded response := ⟨c, List.mem_of_getElem? hk, hp⟩
        have hsound := hplain.sound c.caller
        have hflag := votingMember?_handleJoinResponse c.seedAddress
          (hplain.responses response hresp) (hsound.configId.trans hsound.raftId.symm) peer.nodeId
        rw [hsound.configId, if_pos ⟨hadmits, hself, peer, hpeer, rfl, haddr⟩] at hflag
        have heq : w' = w.receive k c response := by
          simp only [step, hk, hp, Option.ite_none_right_eq_some, Option.some.injEq] at hs
          exact hs.2.symm
        have hmanager : w'.manager c.caller =
            ((w.manager c.caller).handleJoinResponse c.seedAddress response).1 := by
          rw [heq, manager, member_receive]
          simp [setManager, set]
        refine ⟨c.caller, fun hfl => ?_⟩
        rw [hmanager] at hfl
        have := hfl _ _ hflag
        simp [hobs] at this

/-- In a run in which no response handled lists an observer, the nodes agree
on who votes; the first response that does breaks the agreement. -/
theorem voterAgreement_unless_listed :
    (∀ w, (registry V).Reach (fun w a => ¬ w.listsObserver a) w → w.VoterAgreement) ∧
    ∀ w a w', (registry V).Reach (fun _ _ => True) w → w.step a = some w' →
      w.listsObserver a → ¬ w'.VoterAgreement := by
  constructor
  · intro w h
    refine voterAgreement_iff.mpr (h.invariant (I := fun w => ∀ id, Flagged (w.manager id)) ?_ ?_)
    · rintro w ⟨-, -, -, hstart⟩ id
      obtain ⟨config, raftConfig, -, -, heq⟩ := hstart id
      rw [manager, heq]
      exact flagged_start V config raftConfig
    · intro w a w' hr hI hg hs
      exact step_flagged (reach_plain hr) hs hg hI
  · intro w a w' h hs hl hagree
    obtain ⟨id, hid⟩ := not_flagged_of_listed (reach_plain h) hs hl
    exact hid (voterAgreement_iff.mp hagree id)

end

def fresh : Registry where
  member id := Member.start []
    { nodeId := id, hostname := id, tailscaleIp := "100.64.0.1", grpcPort := 50051,
      autoApprove := true }
    { nodeId := id, nonVoting := isObserver id }

theorem fresh_started : (registry []).init fresh :=
  ⟨rfl, rfl, rfl, fun _ => ⟨_, _, rfl, rfl, rfl⟩⟩

/-- `id` joins through `a`; its call is the `k`-th, its entry too. -/
def joinsA (id : NodeId) (k : Nat) : List Action :=
  [.join id "100.64.0.1:50051", .serve k "a" 1, .commit k, .apply "a" 2, .approved k, .receive k]

/-- The leader has the observer as one, and the voter that joined before. -/
theorem fresh_agrees : ∃ w, (registry []).Reach (fun w a => ¬ w.listsObserver a) w ∧
    ((w.manager "a").raft.votingMember? "x-mcp" = some false ∧
      (w.manager "x-mcp").raft.votingMember? "b" = some true) ∧ w.VoterAgreement := by
  obtain ⟨w, hw, hP⟩ := System.Reach.replay (M := registry []) (G := fun w a => ¬ w.listsObserver a)
    (P := fun w => (w.manager "a").raft.votingMember? "x-mcp" = some false ∧
      (w.manager "x-mcp").raft.votingMember? "b" = some true) fresh_started
    ([.stateChange "a" .leader] ++ joinsA "b" 0 ++ joinsA "x-mcp" 1) (by decide +kernel)
  exact ⟨w, hw, hP, voterAgreement_unless_listed.1 w hw⟩

/-- `b` joins after the observer and takes it for a voter; `a` does not. -/
theorem observer_votes : ∃ w, (registry []).Reach (fun _ _ => True) w ∧
    ((w.manager "a").raft.votingMember? "x-mcp" = some false ∧
      (w.manager "b").raft.votingMember? "x-mcp" = some true) ∧ ¬ w.VoterAgreement := by
  obtain ⟨w, hw, ha, hb⟩ := System.Reach.replay (M := registry []) (G := fun _ _ => True)
    (P := fun w => (w.manager "a").raft.votingMember? "x-mcp" = some false ∧
      (w.manager "b").raft.votingMember? "x-mcp" = some true) fresh_started
    ([.stateChange "a" .leader] ++ joinsA "x-mcp" 0 ++ joinsA "b" 1) (by decide +kernel)
  refine ⟨w, hw, ⟨ha, hb⟩, fun hagree => ?_⟩
  have := (hagree _ _ _ _ _ ha hb).1
  cases this

end Registry

end ClaudeCluster.Membership
