import ClaudeCluster.Membership.Events

/-!
# Where the leader is

`getLeaderAddress()` is the address the map has of the leader Raft knows, as
long as every event meets `KeepsAddress`, and the first event that does not
breaks it (`leaderAddressed_deliver`). Nothing looks at the address again when
the entry of a leader comes, or comes with another address.
-/

namespace ClaudeCluster.Membership

open Lib
open Raft (NodeId RaftNode RaftState RaftConfig)

namespace MembershipManager

-- ---------------------------------------------------------------------------
-- The leader's address
-- ---------------------------------------------------------------------------

/-- `getLeaderAddress()` is the address the map has of the leader Raft knows. -/
def LeaderAddressed (m : MembershipManager) : Prop :=
  ∀ leaderId node, m.raft.leaderId = some leaderId → m.nodes.find? leaderId = some node →
    m.leaderAddress = some node.address

def KeepsAddress (m : MembershipManager) : Event → Prop
  | .leaderElected now =>
    ∀ leaderId, m.raft.leaderId = some leaderId → m.nodes.find? leaderId = none →
      leaderId ∈ m.raft.peers.values.map Raft.PeerInfo.nodeId →
      m.leaderAddress = some (nodeOfPeer now leaderId (m.addresses leaderId)).address
  | .entryCommitted _ (.nodeJoin data) =>
    m.raft.leaderId = some data.nodeId →
      m.leaderAddress = some (addressOf data.tailscaleIp data.grpcPort)
  | .heartbeatResponse _ leaderAddress _ =>
    leaderAddress ≠ "" → ∀ leaderId node, m.raft.leaderId = some leaderId →
      m.nodes.find? leaderId = some node → leaderAddress = node.address
  | .joinResponse _ response =>
    response.approved ∧ !response.pendingApproval → ∀ leaderId node,
      m.raft.leaderId = some leaderId →
      recordAmong (m.takenPeers response) m.nodes leaderId = some node →
      response.leaderAddress = node.address
  | _ => True

def addressIn (m : MembershipManager) (x : NodeId) : Option String :=
  (m.nodes.find? x).map NodeInfo.address

section
variable {m m' : MembershipManager} {id x : NodeId}

theorem leaderAddressed_iff : LeaderAddressed m ↔ ∀ leaderId address,
    m.raft.leaderId = some leaderId → m.addressIn leaderId = some address →
      m.leaderAddress = some address := by
  constructor
  · intro h leaderId address hleader haddress
    obtain ⟨node, hnode, rfl⟩ := Option.map_eq_some_iff.mp haddress
    exact h leaderId node hleader hnode
  · intro h leaderId node hleader hnode
    exact h leaderId node.address hleader (congrArg _ hnode)

theorem addressIn_modify {f : NodeInfo → NodeInfo} (hid : ∀ node, (f node).nodeId = node.nodeId)
    (hf : ∀ node, (f node).address = node.address) :
    addressIn { m with nodes := m.nodes.modify id f hid } x = m.addressIn x := by
  simp only [addressIn, Table.find?_modify]
  split
  · simp [Function.comp_def, hf]
  · rfl

theorem addressIn_mapRows {f : NodeInfo → NodeInfo} (hid : ∀ node, (f node).nodeId = node.nodeId)
    (hf : ∀ node, (f node).address = node.address) :
    addressIn { m with nodes := m.nodes.mapRows f hid } x = m.addressIn x := by
  simp [addressIn, Table.find?_mapRows, Function.comp_def, hf]

theorem addressIn_setRole (role : NodeRole) : (m.setRole id role).addressIn x = m.addressIn x :=
  addressIn_modify _ fun _ => rfl

theorem addressIn_demote (keep : NodeId → Bool) : (m.demote keep).addressIn x = m.addressIn x := by
  refine addressIn_mapRows _ fun node => ?_
  split <;> rfl

theorem leaderAddressed_idle (h : LeaderAddressed m) {e : Event} (he : m.KeepsAddress e)
    (hleader : m'.raft.leaderId = m.raft.leaderId) (haddress : m'.leaderAddress = m.leaderAddress)
    (hnodes : ∀ x, m'.addressIn x = m.addressIn x) : LeaderAddressed m' ↔ m.KeepsAddress e := by
  refine iff_of_true (leaderAddressed_iff.mpr fun leaderId address hl ha => ?_) he
  rw [haddress]
  exact leaderAddressed_iff.mp h leaderId address (hleader ▸ hl) (hnodes leaderId ▸ ha)

theorem leaderAddressed_stateChange (h : LeaderAddressed m)
    (hself : m.raft.nodeId = m.config.nodeId) (state : RaftState) :
    LeaderAddressed (m.deliver (.stateChange state)) := by
  have hnodes : ∀ x, (m.deliver (.stateChange state)).addressIn x = m.addressIn x := by
    intro x
    rw [addressIn, deliver, onStateChange_nodes]
    exact addressIn_setRole _
  have hraft := onStateChange_raft (m := Registry.enter state m) state
  have hkept : state ≠ .leader →
      (m.deliver (.stateChange state)).leaderAddress = m.leaderAddress := by
    intro hne
    simp only [deliver, onStateChange, hne, if_false]
    split <;> rfl
  rw [leaderAddressed_iff]
  intro leaderId address hleader haddress
  rw [hnodes] at haddress
  rw [deliver, hraft] at hleader
  cases state with
  | follower =>
    rw [hkept (by simp)]
    exact leaderAddressed_iff.mp h leaderId address hleader haddress
  | candidate => cases hleader
  | leader =>
    -- the leader is the node itself, and its own entry is read
    obtain rfl : m.config.nodeId = leaderId := hself ▸ Option.some.inj hleader
    obtain ⟨node, hnode, rfl⟩ := Option.map_eq_some_iff.mp haddress
    have hget : (Registry.enter .leader m).getSelfNode = some node := hnode
    simp [deliver, onStateChange, hget]

theorem onLeaderChanged_addresses (id : NodeId) :
    (∀ x, (m.onLeaderChanged id).addressIn x = m.addressIn x) ∧
      (m.onLeaderChanged id).leaderAddress = (m.addressIn id).or m.leaderAddress := by
  have hdemote := addressIn_demote (m := m) (x := id) (· = m.config.nodeId)
  simp only [onLeaderChanged]
  split
  case h_1 node hnode =>
    refine ⟨fun x => (addressIn_setRole _).trans (addressIn_demote _), ?_⟩
    rw [← hdemote, addressIn, hnode]
    rfl
  case h_2 hnone =>
    refine ⟨fun x => addressIn_demote _, ?_⟩
    rw [← hdemote, addressIn, hnone]
    rfl

theorem leaderAddressed_leaderChanged (newLeaderId : NodeId) :
    LeaderAddressed (m.deliver (.leaderChanged newLeaderId)) := by
  obtain ⟨hnodes, haddress⟩ := onLeaderChanged_addresses
    (m := { m with raft := { m.raft with leaderId := some newLeaderId } }) newLeaderId
  rw [leaderAddressed_iff]
  intro leaderId address hleader ha
  rw [deliver, onLeaderChanged_raft] at hleader
  obtain rfl : newLeaderId = leaderId := Option.some.inj hleader
  rw [deliver, hnodes] at ha
  rw [deliver, haddress, ha, Option.some_or]

theorem onLeaderElected_adds (now : Nat) :
    (m.onLeaderElected now).leaderAddress = m.leaderAddress ∧
      ∀ x, (m.onLeaderElected now).nodes.find? x = (m.nodes.find? x).or
        (if x ∈ m.raft.peers.values.map Raft.PeerInfo.nodeId then
          some (nodeOfPeer now x (m.addresses x)) else none) := by
  unfold onLeaderElected
  generalize m.raft.peers.values = peers
  induction peers generalizing m with
  | nil => exact ⟨rfl, fun x => by simp⟩
  | cons peer peers ih =>
    rw [List.foldl_cons]
    split
    case isTrue hknown =>
      refine ⟨ih.1, fun x => ?_⟩
      rw [ih.2]
      by_cases hx : x = peer.nodeId
      · obtain ⟨node, hnode⟩ := Option.isSome_iff_exists.mp hknown
        simp [hx, hnode]
      · simp [hx]
    case isFalse hnew =>
      have hrest := @ih
        { m with nodes := m.nodes.put (nodeOfPeer now peer.nodeId (m.addresses peer.nodeId)) }
      refine ⟨hrest.1, fun x => ?_⟩
      rw [hrest.2]
      simp only [Table.find?_put]
      by_cases hx : x = peer.nodeId
      · have hnone : m.nodes.find? peer.nodeId = none := by simpa using hnew
        have hkey : x = (nodeOfPeer now peer.nodeId (m.addresses peer.nodeId)).nodeId := hx
        rw [if_pos hkey, hx, hnone]
        simp
      · have hkey : x ≠ (nodeOfPeer now peer.nodeId (m.addresses peer.nodeId)).nodeId := hx
        simp [hkey, hx]

theorem leaderAddressed_leaderElected (h : LeaderAddressed m) (now : Nat) :
    LeaderAddressed (m.onLeaderElected now) ↔ m.KeepsAddress (.leaderElected now) := by
  obtain ⟨haddress, hfind⟩ := m.onLeaderElected_adds now
  have hraft := (m.onLeaderElected_spec now).1
  unfold LeaderAddressed
  rw [haddress, hraft]
  constructor
  · intro hall leaderId hleader hnone hpeer
    refine hall leaderId _ hleader ?_
    rw [hfind, hnone, if_pos hpeer, Option.none_or]
  · intro hkeeps leaderId node hleader hnode
    rw [hfind] at hnode
    cases hold : m.nodes.find? leaderId with
    | some old =>
      rw [hold, Option.some_or] at hnode
      exact h leaderId node hleader (hold.trans hnode)
    | none =>
      rw [hold, Option.none_or, Option.ite_none_right_eq_some] at hnode
      obtain ⟨hpeer, hnode⟩ := hnode
      cases hnode
      exact hkeeps leaderId hleader hold hpeer

theorem leaderAddressed_nodeJoin (h : LeaderAddressed m) (now : Nat) (data : JoinData) :
    LeaderAddressed (m.handleNodeJoinCommitted now data) ↔
      (m.raft.leaderId = some data.nodeId →
        m.leaderAddress = some (addressOf data.tailscaleIp data.grpcPort)) := by
  have hleader : (m.handleNodeJoinCommitted now data).raft.leaderId = m.raft.leaderId :=
    (addPeer_raft ..).2.1
  have hfind : ∀ x, (m.handleNodeJoinCommitted now data).nodes.find? x =
      if x = data.nodeId then some (data.toNode now) else m.nodes.find? x :=
    fun x => Table.find?_put
  unfold LeaderAddressed
  rw [hleader]
  constructor
  · intro hall hjoins
    exact hall data.nodeId (data.toNode now) hjoins (by rw [hfind, if_pos rfl])
  · intro hkeeps leaderId node hl hnode
    rw [hfind] at hnode
    split at hnode
    case isTrue hx =>
      cases hnode
      exact hkeeps (hx ▸ hl)
    case isFalse => exact h leaderId node hl hnode

theorem leaderAddressed_nodeLeave (h : LeaderAddressed m) (nodeId : NodeId) :
    LeaderAddressed (m.handleNodeLeaveCommitted nodeId) := by
  unfold handleNodeLeaveCommitted
  split
  case isTrue =>
    intro leaderId node hl hnode
    have hfind : (m.nodes.delete nodeId).find? leaderId =
        if leaderId = nodeId then none else m.nodes.find? leaderId := Table.find?_delete
    rw [hfind] at hnode
    split at hnode
    · cases hnode
    · exact h leaderId node hl hnode
  case isFalse => exact h

theorem leaderAddressed_heartbeatResponse (h : LeaderAddressed m) (now : Nat)
    (leaderAddress : String) (leaderId : NodeId) :
    LeaderAddressed (m.onHeartbeat now leaderAddress leaderId) ↔
      m.KeepsAddress (.heartbeatResponse now leaderAddress leaderId) := by
  have hraft := onHeartbeat_raft (m := m) now leaderAddress leaderId
  have haddress : (m.onHeartbeat now leaderAddress leaderId).leaderAddress =
      if leaderAddress = "" then m.leaderAddress else some leaderAddress := by
    simp only [onHeartbeat]
    split <;> rfl
  have hnodes : ∀ x, (m.onHeartbeat now leaderAddress leaderId).addressIn x = m.addressIn x := by
    intro x
    simp only [onHeartbeat]
    split
    · exact addressIn_modify _ fun _ => rfl
    · rw [addressIn_setRole, addressIn_demote]
      exact addressIn_modify _ fun _ => rfl
  rw [leaderAddressed_iff, hraft, haddress]
  simp only [hnodes]
  constructor
  · intro hall hne id node hl hnode
    have := hall id node.address hl (congrArg _ hnode)
    rw [if_neg hne] at this
    exact Option.some.inj this
  · intro hkeeps id address hl ha
    split
    case isTrue => exact leaderAddressed_iff.mp h id address hl ha
    case isFalse hne =>
      obtain ⟨node, hnode, rfl⟩ := Option.map_eq_some_iff.mp ha
      rw [hkeeps hne id node hl hnode]

theorem leaderAddressed_joinResponse (h : LeaderAddressed m) (seedAddress : String)
    (response : JoinResponse) :
    LeaderAddressed (m.deliver (.joinResponse seedAddress response)) ↔
      m.KeepsAddress (.joinResponse seedAddress response) := by
  obtain ⟨_, _, hleader, _, haddress, hview⟩ := m.handleJoinResponse_spec seedAddress response
  have hnodes : ∀ x, (m.handleJoinResponse seedAddress response).1.addressIn x =
      (recordAmong (m.takenPeers response) m.nodes x).map NodeInfo.address := by
    intro x
    have hmap := congrArg (Option.map Prod.snd) (hview x)
    rwa [Option.map_map, Option.map_map] at hmap
  rw [deliver, leaderAddressed_iff, hleader, haddress]
  simp only [hnodes, KeepsAddress]
  by_cases hyes : response.approved ∧ !response.pendingApproval
  · rw [if_pos hyes]
    constructor
    · intro hall _ id node hl hnode
      exact Option.some.inj (hall id node.address hl (congrArg _ hnode))
    · intro hkeeps id address hl ha
      obtain ⟨node, hnode, rfl⟩ := Option.map_eq_some_iff.mp ha
      rw [hkeeps hyes id node hl hnode]
  · -- nothing is taken over
    have hnone : m.takenPeers response = [] := if_neg hyes
    rw [if_neg hyes, hnone]
    refine iff_of_true (fun id address hl ha => ?_) fun happroved => absurd happroved hyes
    exact leaderAddressed_iff.mp h id address hl ha

/-- One step: an event keeps `LeaderAddressed` just if it meets the condition. -/
theorem leaderAddressed_deliver (hself : m.raft.nodeId = m.config.nodeId)
    (h : LeaderAddressed m) (e : Event) :
    LeaderAddressed (m.deliver e) ↔ m.KeepsAddress e := by
  cases e with
  | stateChange state => exact iff_of_true (leaderAddressed_stateChange h hself state) trivial
  | leaderElected now => exact leaderAddressed_leaderElected h now
  | leaderChanged newLeaderId => exact iff_of_true (leaderAddressed_leaderChanged _) trivial
  | entryCommitted now entry =>
    cases entry with
    | nodeJoin data => exact leaderAddressed_nodeJoin h now data
    | nodeLeave nodeId => exact iff_of_true (leaderAddressed_nodeLeave h nodeId) trivial
    | other => exact iff_of_true h trivial
  | silent raft => exact leaderAddressed_idle h trivial rfl rfl fun _ => rfl
  | heartbeatResponse now leaderAddress leaderId =>
    exact leaderAddressed_heartbeatResponse h now leaderAddress leaderId
  | joinResponse seedAddress response =>
    exact leaderAddressed_joinResponse h seedAddress response
  | getState =>
    refine leaderAddressed_idle h trivial (congrArg _ getState_raft) ?_ fun x => ?_
    all_goals
      simp only [deliver, getState, reconcileRoles]
      split
      · rfl
      · split
        · rfl
        · first
            | rfl
            | rw [addressIn_setRole, addressIn_demote]
  | handleHeartbeat now nodeId =>
    refine leaderAddressed_idle h trivial rfl rfl fun x => ?_
    exact addressIn_modify _ fun _ => rfl
  | detectFailures now =>
    refine leaderAddressed_idle h trivial rfl rfl fun x => addressIn_mapRows _ fun node => ?_
    split
    · rfl
    · split <;> rfl
  | removeNode nodeId graceful =>
    rcases removeNode_fst (m := m) nodeId graceful with heq | heq
    · exact iff_of_true (by rwa [deliver, heq]) trivial
    · rw [deliver, heq]
      exact leaderAddressed_idle h trivial rfl rfl fun x => addressIn_modify _ fun _ => rfl

end

-- ---------------------------------------------------------------------------
-- Whole runs
-- ---------------------------------------------------------------------------

section
variable (config : MembershipConfig) (raftConfig : RaftConfig) (known : List (NodeId × Bool))
  (now : Nat)

/-- The leader's address all along, just if every event meets the condition. -/
theorem leaderAddressed_throughout (events : List Event) :
    Throughout deliver LeaderAddressed (start config raftConfig known now) events ↔
      Along deliver KeepsAddress (start config raftConfig known now) events := by
  refine throughout_iff (I := fun m => m.raft.nodeId = m.config.nodeId)
    (fun m e h => deliver_self h e) (fun m e hi h => leaderAddressed_deliver hi h e) ?_ ?_
  · exact (start_raft config raftConfig known now).2.2
  · intro leaderId node hleader
    rw [(start_raft config raftConfig known now).2.1] at hleader
    cases hleader

end

/-- `c` leads and is known; then `b` leads, and its entry comes later. The address
stays that of `c`. -/
theorem address_of_old_leader :
    ¬Throughout deliver LeaderAddressed
      (start ⟨"a", "a", "10.0.0.1", 50051, 15000, false⟩ { nodeId := "a" } [] 0)
      [.entryCommitted 1 (.nodeJoin ⟨"c", "c", "10.0.0.3", 50051, []⟩), .leaderChanged "c",
        .leaderChanged "b", .entryCommitted 2 (.nodeJoin ⟨"b", "b", "10.0.0.2", 50051, []⟩)] := by
  intro hall
  have haddress := hall.foldl "b" ((JoinData.mk "b" "b" "10.0.0.2" 50051 []).toNode 2)
    (by decide +kernel) (by decide +kernel)
  revert haddress
  decide +kernel

-- ---------------------------------------------------------------------------
-- Where writes are forwarded to
-- ---------------------------------------------------------------------------

/-- `resolveLeaderAddress` of `memory/replication.ts`: the address kept, else that
of the leader Raft knows. -/
def resolveLeaderAddress (m : MembershipManager) : Option String :=
  match m.leaderAddress.filter (· ≠ "") with
  | some cached => some cached
  | none =>
    (m.raft.leaderId.filter (· ≠ "")).bind fun leaderId =>
      ((m.nodes.find? leaderId).filter NodeInfo.addressed).map NodeInfo.address

theorem address_ne_empty (node : NodeInfo) : node.address ≠ "" := by
  intro h
  have hlen := congrArg String.length h
  simp [NodeInfo.address, addressOf] at hlen

/-- Under the property writes go to the leader Raft knows of. -/
theorem LeaderAddressed.resolve {m : MembershipManager} (h : LeaderAddressed m) {leaderId : NodeId}
    {node : NodeInfo} (hleader : m.raft.leaderId = some leaderId)
    (hnode : m.nodes.find? leaderId = some node) : m.resolveLeaderAddress = some node.address := by
  have haddress := h leaderId node hleader hnode
  have hcached : m.leaderAddress.filter (· ≠ "") = some node.address := by
    rw [haddress, Option.filter_eq_some_iff]
    exact ⟨rfl, by simpa using address_ne_empty node⟩
  rw [resolveLeaderAddress, hcached]

end MembershipManager

end ClaudeCluster.Membership
