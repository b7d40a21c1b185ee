import ClaudeCluster.Lib.Deliveries
import ClaudeCluster.Raft.Tracking
import ClaudeCluster.Membership.Registry

/-!
# What reaches a membership manager

One membership manager and everything that reaches it: what its `RaftNode`
emits, answers to its heartbeats and joins, calls of its own methods. Nothing
is assumed of the order in which they come. A step of the Raft node reaches it
as the events the step emits (`raft_step_delivered`).

The roles are written by six handlers and the addresses by three; for each, the
map after it is given in terms of the map before.
-/

namespace ClaudeCluster.Membership

open Lib
open Raft (NodeId RaftNode RaftState RaftConfig)

-- ---------------------------------------------------------------------------
-- Events
-- ---------------------------------------------------------------------------

inductive Event
  | stateChange (state : RaftState)
  | leaderElected (now : Nat)
  | leaderChanged (newLeaderId : NodeId)
  | entryCommitted (now : Nat) (entry : Entry)
  /-- Raft goes on without telling its listeners. -/
  | silent (raft : RaftNode)
  | heartbeatResponse (now : Nat) (leaderAddress : String) (leaderId : NodeId)
  | joinResponse (seedAddress : String) (response : JoinResponse)
  | getState
  | handleHeartbeat (now : Nat) (nodeId : NodeId)
  | detectFailures (now : Nat)
  | removeNode (nodeId : NodeId) (graceful : Bool)

namespace MembershipManager

/-- `ClusterStateManager.getState`; an empty id counts as none. -/
def getState (m : MembershipManager) : MembershipManager :=
  if m.raft.leaderId = some "" then m else m.reconcileRoles

/-- Raft changes its state and `leaderId` with the events that tell of it. -/
def deliver (m : MembershipManager) : Event → MembershipManager
  | .stateChange state => (Registry.enter state m).onStateChange state
  | .leaderElected now => m.onLeaderElected now
  | .leaderChanged newLeaderId =>
    { m with raft := { m.raft with leaderId := some newLeaderId } }.onLeaderChanged newLeaderId
  | .entryCommitted now entry => m.handleCommittedEntry now entry
  | .silent raft =>
    { m with raft := { raft with
        config := m.raft.config
        state := m.raft.state
        leaderId := m.raft.leaderId } }
  | .heartbeatResponse now leaderAddress leaderId => m.onHeartbeat now leaderAddress leaderId
  | .joinResponse seedAddress response => (m.handleJoinResponse seedAddress response).1
  | .getState => m.getState
  | .handleHeartbeat now nodeId => m.handleHeartbeat now nodeId
  | .detectFailures now => m.detectFailures now
  | .removeNode nodeId graceful => (m.removeNode nodeId graceful).1

def start (config : MembershipConfig) (raftConfig : RaftConfig) (known : List (NodeId × Bool))
    (now : Nat) : MembershipManager :=
  .create config (.boot { raftConfig with nodeId := config.nodeId } known) now

end MembershipManager

-- ---------------------------------------------------------------------------
-- Reading the map
-- ---------------------------------------------------------------------------

section
variable {nodes : Table NodeInfo.nodeId} {id x : NodeId} {node : NodeInfo}

def Marked (nodes : Table NodeInfo.nodeId) (id : NodeId) : Prop :=
  (nodes.find? id).any (·.role = .leader)

instance : Decidable (Marked nodes id) := inferInstanceAs (Decidable (_ = true))

theorem Marked.known (h : Marked nodes id) : (nodes.find? id).isSome := by
  obtain ⟨node, hnode, _⟩ := (Option.any_eq_true _ _).mp h
  simp [hnode]

theorem marked_modify {f : NodeInfo → NodeInfo} (hid : ∀ node, (f node).nodeId = node.nodeId)
    (hf : ∀ node, (f node).role = node.role) :
    Marked (nodes.modify id f hid) x ↔ Marked nodes x := by
  unfold Marked
  rw [Table.find?_modify]
  split
  · simp [Option.any_map, hf]
  · rfl

theorem marked_mapRows {f : NodeInfo → NodeInfo} (hid : ∀ node, (f node).nodeId = node.nodeId)
    (hf : ∀ node, (f node).role = node.role) :
    Marked (nodes.mapRows f hid) x ↔ Marked nodes x := by
  simp [Marked, Table.find?_mapRows, Option.any_map, hf]

theorem marked_put :
    Marked (nodes.put node) x ↔ if x = node.nodeId then node.role = .leader else Marked nodes x := by
  unfold Marked
  rw [Table.find?_put]
  split <;> simp

theorem marked_delete : Marked (nodes.delete id) x ↔ x ≠ id ∧ Marked nodes x := by
  unfold Marked
  rw [Table.find?_delete]
  split <;> simp [*]

end

namespace MembershipManager

section
variable {m : MembershipManager} {id x : NodeId}

theorem marked_setRole {role : NodeRole} :
    Marked (m.setRole id role).nodes x ↔
      if x = id then (m.nodes.find? id).isSome ∧ role = .leader else Marked m.nodes x := by
  unfold Marked setRole
  rw [Table.find?_modify]
  split
  case isTrue h =>
    subst h
    cases m.nodes.find? x <;> simp
  case isFalse => rfl

theorem marked_demote {keep : NodeId → Bool} :
    Marked (m.demote keep).nodes x ↔ keep x ∧ Marked m.nodes x := by
  simp only [Marked, demote, Table.find?_mapRows, Option.any_map]
  cases hnode : m.nodes.find? x with
  | none => simp
  | some node =>
    have hid := Table.find?_key hnode
    subst hid
    by_cases hrole : node.role = .leader <;> cases hkeep : keep node.nodeId <;>
      simp [hrole, hkeep]

theorem known_demote {keep : NodeId → Bool} :
    ((m.demote keep).nodes.find? x).isSome = (m.nodes.find? x).isSome := by
  simp [demote, Table.find?_mapRows]

theorem marked_promote {keep : NodeId → Bool} :
    Marked ((m.demote keep).setRole id .leader).nodes x ↔
      if x = id then (m.nodes.find? id).isSome = true else keep x ∧ Marked m.nodes x := by
  rw [marked_setRole, marked_demote, known_demote]
  simp

end

-- ---------------------------------------------------------------------------
-- What the handlers do to the roles
-- ---------------------------------------------------------------------------

section
variable {m : MembershipManager} {x : NodeId}

theorem onStateChange_nodes (state : RaftState) :
    (m.onStateChange state).nodes = (m.setRole m.config.nodeId (.ofRaft state)).nodes := by
  simp only [onStateChange]
  split
  · split <;> rfl
  · rfl

theorem onStateChange_raft (state : RaftState) : (m.onStateChange state).raft = m.raft := by
  simp only [onStateChange]
  split
  · split <;> rfl
  · rfl

theorem onStateChange_config (state : RaftState) : (m.onStateChange state).config = m.config := by
  simp only [onStateChange]
  split
  · split <;> rfl
  · rfl

theorem marked_onStateChange (state : RaftState) :
    Marked (m.onStateChange state).nodes x ↔
      if x = m.config.nodeId then (m.nodes.find? x).isSome ∧ state = .leader
      else Marked m.nodes x := by
  rw [onStateChange_nodes, marked_setRole]
  split
  case isTrue h =>
    subst h
    cases state <;> simp [NodeRole.ofRaft]
  case isFalse => rfl

theorem onLeaderElected_spec (now : Nat) :
    (m.onLeaderElected now).raft = m.raft ∧ (m.onLeaderElected now).config = m.config ∧
      ∀ x, Marked (m.onLeaderElected now).nodes x ↔ Marked m.nodes x := by
  unfold onLeaderElected
  generalize m.raft.peers.values = peers
  induction peers generalizing m with
  | nil => exact ⟨rfl, rfl, fun _ => Iff.rfl⟩
  | cons peer peers ih =>
    rw [List.foldl_cons]
    split
    case isTrue => exact ih
    case isFalse hnew =>
      obtain ⟨hraft, hconfig, hmarked⟩ := @ih
        { m with nodes := m.nodes.put (nodeOfPeer now peer.nodeId (m.addresses peer.nodeId)) }
      refine ⟨hraft, hconfig, fun x => (hmarked x).trans ?_⟩
      rw [marked_put]
      split
      case isTrue h =>
        have hunmarked : ¬Marked m.nodes x := by
          rw [show x = peer.nodeId from h]
          exact fun hm => hnew hm.known
        simp [hunmarked, nodeOfPeer]
      case isFalse => rfl

theorem onLeaderChanged_raft (id : NodeId) : (m.onLeaderChanged id).raft = m.raft := by
  simp only [onLeaderChanged]
  split <;> rfl

theorem onLeaderChanged_config (id : NodeId) : (m.onLeaderChanged id).config = m.config := by
  simp only [onLeaderChanged]
  split <;> rfl

/-- The new leader is marked if it is known, else nobody but the node itself. -/
theorem marked_onLeaderChanged (id : NodeId) :
    Marked (m.onLeaderChanged id).nodes x ↔
      if x = id then (m.nodes.find? id).isSome = true else x = m.config.nodeId ∧ Marked m.nodes x := by
  have hmark : Marked ((m.demote fun y => y = m.config.nodeId).setRole id .leader).nodes x ↔ _ :=
    marked_promote
  simp only [decide_eq_true_eq] at hmark
  rw [← hmark]
  simp only [onLeaderChanged]
  split
  case h_1 => rfl
  case h_2 hnone =>
    -- an update of an entry that is not there
    rw [marked_setRole, hnone]
    split
    case isTrue h =>
      subst h
      simp [Marked, hnone]
    case isFalse => rfl

theorem onHeartbeat_raft (now : Nat) (address : String) (id : NodeId) :
    (m.onHeartbeat now address id).raft = m.raft := by
  simp only [onHeartbeat]
  split <;> rfl

theorem onHeartbeat_config (now : Nat) (address : String) (id : NodeId) :
    (m.onHeartbeat now address id).config = m.config := by
  simp only [onHeartbeat]
  split <;> rfl

theorem marked_onHeartbeat (now : Nat) (address : String) (id : NodeId) :
    Marked (m.onHeartbeat now address id).nodes x ↔
      if id = "" then Marked m.nodes x
      else if x = id then (m.nodes.find? id).isSome = true
      else x = m.config.nodeId ∧ Marked m.nodes x := by
  have hseen : ∀ y, Marked (m.nodes.modify m.config.nodeId fun node =>
      { node with lastSeen := now }) y ↔ Marked m.nodes y :=
    fun y => marked_modify _ fun _ => rfl
  simp only [onHeartbeat]
  split
  case isTrue => exact hseen x
  case isFalse =>
    rw [marked_promote]
    simp only [hseen, Table.find?_modify]
    split
    case isTrue => split <;> simp
    case isFalse hx => simp [hx]

theorem getState_raft : m.getState.raft = m.raft := by
  unfold getState reconcileRoles
  split
  · rfl
  · split <;> rfl

theorem getState_config : m.getState.config = m.config := by
  unfold getState reconcileRoles
  split
  · rfl
  · split <;> rfl

theorem marked_getState {id : NodeId} (hleader : m.raft.leaderId = some id) (hid : id ≠ "") :
    Marked m.getState.nodes x ↔ x = id ∧ (m.nodes.find? id).isSome := by
  have hsome : m.raft.leaderId ≠ some "" := by simp [hleader, hid]
  rw [getState, if_neg hsome]
  simp only [reconcileRoles, hleader]
  rw [marked_promote]
  split <;> simp [*]

theorem addPeer_raft (id : NodeId) (address : String) (voting : Bool) :
    (m.addPeer id address voting).raft.state = m.raft.state ∧
      (m.addPeer id address voting).raft.leaderId = m.raft.leaderId ∧
      (m.addPeer id address voting).raft.nodeId = m.raft.nodeId := by
  simp only [addPeer, RaftNode.addPeer]
  split <;> exact ⟨rfl, rfl, rfl⟩

theorem marked_handleNodeLeaveCommitted (id : NodeId) :
    Marked (m.handleNodeLeaveCommitted id).nodes x ↔ x ≠ id ∧ Marked m.nodes x := by
  unfold handleNodeLeaveCommitted
  split
  case isTrue => exact marked_delete
  case isFalse hnew =>
    refine ⟨fun h => ⟨?_, h⟩, And.right⟩
    rintro rfl
    exact hnew h.known

end

-- ---------------------------------------------------------------------------
-- Peers a join response lists
-- ---------------------------------------------------------------------------

/-- What the map has of a node when these have been put into it: what was listed
last, or what it had. -/
def recordAmong (taken : List NodeInfo) (nodes : Table NodeInfo.nodeId) (x : NodeId) :
    Option NodeInfo :=
  (taken.reverse.find? (·.nodeId = x)).or (nodes.find? x)

/-- From `m` to `m'` these peers were put into the map and handed to Raft. -/
structure Takes (taken : List NodeInfo) (m m' : MembershipManager) : Prop where
  config : m'.config = m.config
  state : m'.raft.state = m.raft.state
  leaderId : m'.raft.leaderId = m.raft.leaderId
  raftId : m'.raft.nodeId = m.raft.nodeId
  leaderAddress : m'.leaderAddress = m.leaderAddress
  find? : ∀ x, m'.nodes.find? x = recordAmong taken m.nodes x

section
variable {m m' m'' : MembershipManager} {taken taken' : List NodeInfo}

theorem Takes.refl (m : MembershipManager) : Takes [] m m :=
  ⟨rfl, rfl, rfl, rfl, rfl, fun _ => rfl⟩

theorem Takes.trans (h : Takes taken m m') (h' : Takes taken' m' m'') :
    Takes (taken ++ taken') m m'' where
  config := h'.config.trans h.config
  state := h'.state.trans h.state
  leaderId := h'.leaderId.trans h.leaderId
  raftId := h'.raftId.trans h.raftId
  leaderAddress := h'.leaderAddress.trans h.leaderAddress
  find? x := by
    rw [h'.find?, recordAmong, h.find?]
    simp only [recordAmong, List.reverse_append, List.find?_append, Option.or_assoc]

def takes (m : MembershipManager) (peer : NodeInfo) : Bool :=
  peer.nodeId ≠ m.config.nodeId && peer.addressed

theorem takes_put (node : NodeInfo) (address : String) (voting : Bool) :
    Takes [node] m ({ m with nodes := m.nodes.put node }.addPeer node.nodeId address voting) where
  config := rfl
  state := (addPeer_raft ..).1
  leaderId := (addPeer_raft ..).2.1
  raftId := (addPeer_raft ..).2.2
  leaderAddress := rfl
  find? x := by
    change (m.nodes.put node).find? x = _
    rw [Table.find?_put]
    by_cases hx : node.nodeId = x
    · simp [recordAmong, hx]
    · simp [recordAmong, hx, Ne.symm hx]

theorem learnPeer_takes (peer : NodeInfo) :
    Takes ([peer].filter m.takes) m (m.learnPeer peer) := by
  unfold learnPeer
  split
  case isTrue hself =>
    rw [List.filter_cons_of_neg (by simp [takes, hself])]
    exact .refl m
  case isFalse hself =>
    split
    case isTrue haddr =>
      rw [List.filter_cons_of_neg (by simpa [takes] using fun _ => haddr)]
      exact .refl m
    case isFalse haddr =>
      have htakes : m.takes peer := by simpa [takes, hself] using haddr
      rw [List.filter_cons_of_pos htakes]
      exact takes_put peer _ _

theorem learnPeers_takes (peers : List NodeInfo) :
    Takes (peers.filter m.takes) m (peers.foldl learnPeer m) := by
  induction peers generalizing m with
  | nil => exact .refl m
  | cons peer peers ih =>
    have hstep := learnPeer_takes (m := m) peer
    have hsame : (m.learnPeer peer).takes = m.takes := by
      funext peer
      simp only [takes, hstep.config]
    have hrest := ih (m := m.learnPeer peer)
    rw [hsame] at hrest
    rw [← List.singleton_append, List.filter_append]
    exact hstep.trans hrest

def takenPeers (m : MembershipManager) (response : JoinResponse) : List NodeInfo :=
  if response.approved ∧ !response.pendingApproval then response.peers.filter m.takes else []

def view (node : NodeInfo) : NodeRole × String := (node.role, node.address)

theorem view_setStatus (id x : NodeId) (status : NodeStatus) :
    ((m.setStatus id status).nodes.find? x).map view = (m.nodes.find? x).map view := by
  unfold setStatus
  rw [Table.find?_modify]
  split
  · cases m.nodes.find? x <;> rfl
  · rfl

theorem handleJoinResponse_spec (seedAddress : String) (response : JoinResponse) :
    let m' := (m.handleJoinResponse seedAddress response).1
    m'.config = m.config ∧ m'.raft.state = m.raft.state ∧ m'.raft.leaderId = m.raft.leaderId ∧
      m'.raft.nodeId = m.raft.nodeId ∧
      m'.leaderAddress = (if response.approved ∧ !response.pendingApproval then
        some response.leaderAddress else m.leaderAddress) ∧
      ∀ x, (m'.nodes.find? x).map view =
        (recordAmong (m.takenPeers response) m.nodes x).map view := by
  simp only [handleJoinResponse, takenPeers]
  split
  case isTrue hpending =>
    have hnot : ¬(response.approved ∧ !response.pendingApproval) := by simp [hpending]
    rw [if_neg hnot, if_neg hnot]
    exact ⟨rfl, rfl, rfl, rfl, rfl, fun x => view_setStatus _ x _⟩
  case isFalse hpending =>
    split
    case isTrue happroved =>
      have hyes : response.approved ∧ !response.pendingApproval := by simp [hpending, happroved]
      rw [if_pos hyes, if_pos hyes]
      have htakes := learnPeers_takes response.peers
        (m := { m with leaderAddress := some response.leaderAddress }.setStatus m.config.nodeId
          .active)
      refine ⟨htakes.config, htakes.state, htakes.leaderId, htakes.raftId, htakes.leaderAddress,
        fun x => ?_⟩
      have hstatus := view_setStatus (m := { m with leaderAddress := some response.leaderAddress })
        m.config.nodeId x .active
      have hfind := congrArg (Option.map view) (htakes.find? x)
      rw [recordAmong, Option.map_or, hstatus, ← Option.map_or] at hfind
      exact hfind
    case isFalse happroved =>
      have hnot : ¬(response.approved ∧ !response.pendingApproval) := by simp [happroved]
      rw [if_neg hnot, if_neg hnot]
      split <;> exact ⟨rfl, rfl, rfl, rfl, rfl, fun x => rfl⟩

end

-- ---------------------------------------------------------------------------
-- Configurations
-- ---------------------------------------------------------------------------

section
variable {m : MembershipManager}

theorem removeNode_fst (nodeId : NodeId) (graceful : Bool) :
    (m.removeNode nodeId graceful).1 = m ∨
      (m.removeNode nodeId graceful).1 = m.setStatus nodeId .draining := by
  unfold removeNode
  split
  · cases graceful
    · exact .inl rfl
    · exact .inr rfl
  · exact .inl rfl

/-- No event touches the configuration, of the manager or of Raft. -/
theorem deliver_configs (e : Event) :
    (m.deliver e).config = m.config ∧ (m.deliver e).raft.nodeId = m.raft.nodeId := by
  cases e with
  | stateChange state =>
    refine ⟨onStateChange_config _, ?_⟩
    rw [deliver, onStateChange_raft]
    rfl
  | leaderElected now =>
    obtain ⟨hraft, hconfig, _⟩ := m.onLeaderElected_spec now
    exact ⟨hconfig, congrArg RaftNode.nodeId hraft⟩
  | leaderChanged newLeaderId =>
    refine ⟨onLeaderChanged_config _, ?_⟩
    rw [deliver, onLeaderChanged_raft]
    rfl
  | entryCommitted now entry =>
    cases entry with
    | nodeJoin data => exact ⟨rfl, (addPeer_raft ..).2.2⟩
    | nodeLeave nodeId =>
      simp only [deliver, MembershipManager.handleCommittedEntry, handleNodeLeaveCommitted]
      split <;> exact ⟨rfl, rfl⟩
    | other => exact ⟨rfl, rfl⟩
  | heartbeatResponse now leaderAddress leaderId =>
    exact ⟨onHeartbeat_config .., congrArg RaftNode.nodeId (onHeartbeat_raft ..)⟩
  | joinResponse seedAddress response =>
    obtain ⟨hconfig, _, _, hid, _⟩ := m.handleJoinResponse_spec seedAddress response
    exact ⟨hconfig, hid⟩
  | getState => exact ⟨getState_config, congrArg RaftNode.nodeId getState_raft⟩
  | removeNode nodeId graceful =>
    rcases removeNode_fst (m := m) nodeId graceful with heq | heq <;> rw [deliver, heq]
    · exact ⟨rfl, rfl⟩
    · exact ⟨rfl, rfl⟩
  | _ => exact ⟨rfl, rfl⟩

theorem deliver_self (hself : m.raft.nodeId = m.config.nodeId) (e : Event) :
    (m.deliver e).raft.nodeId = (m.deliver e).config.nodeId := by
  obtain ⟨hconfig, hid⟩ := m.deliver_configs e
  rw [hconfig, hid, hself]

end

section
variable (config : MembershipConfig) (raftConfig : RaftConfig) (known : List (NodeId × Bool))
  (now : Nat)

theorem start_raft :
    (start config raftConfig known now).raft.state = .follower ∧
      (start config raftConfig known now).raft.leaderId = none ∧
      (start config raftConfig known now).raft.nodeId = config.nodeId := by
  obtain ⟨_, _, heq, _⟩ := RaftNode.boot_eq { raftConfig with nodeId := config.nodeId } known
  refine ⟨?_, ?_, ?_⟩
  · exact congrArg RaftNode.state heq
  · exact congrArg RaftNode.leaderId heq
  · exact congrArg RaftNode.nodeId heq

end

-- ---------------------------------------------------------------------------
-- The node behind the events
-- ---------------------------------------------------------------------------

def ofRaft (now : Nat) (read : Raft.LogEntry → Entry) : Raft.RaftEvent → Event
  | .stateChange state _ => .stateChange state
  | .leaderElected _ => .leaderElected now
  | .leaderChanged nodeId => .leaderChanged nodeId
  | .entryCommitted entry => .entryCommitted now (read entry)

section
variable {m : MembershipManager} (now : Nat) (read : Raft.LogEntry → Entry)

theorem deliver_track (e : Raft.RaftEvent) :
    ((m.deliver (ofRaft now read e)).raft.state, (m.deliver (ofRaft now read e)).raft.leaderId) =
      RaftNode.track m.raft.nodeId (m.raft.state, m.raft.leaderId) e := by
  cases e with
  | stateChange state term =>
    rw [ofRaft, deliver, onStateChange_raft]
    cases state <;> rfl
  | leaderElected => rw [ofRaft, deliver, (onLeaderElected_spec _).1]; rfl
  | leaderChanged nodeId =>
    rw [ofRaft, deliver, onLeaderChanged_raft]
    rfl
  | entryCommitted entry =>
    simp only [ofRaft, deliver]
    cases read entry with
    | nodeJoin data => exact Prod.ext (addPeer_raft ..).1 (addPeer_raft ..).2.1
    | nodeLeave nodeId =>
      simp only [MembershipManager.handleCommittedEntry, handleNodeLeaveCommitted]
      split <;> rfl
    | other => rfl

/-- A step of the Raft node reaches the manager as the events it emits, and with
them what the two have of `state` and `leaderId` is the same again. -/
theorem raft_step_delivered (hself : m.raft.nodeId = m.config.nodeId) {s : RaftNode.Stimulus}
    (hs : ∀ known, s ≠ .input (.restart known)) {n : RaftNode} (h : m.raft.step s = some n) :
    ∃ events, n.emitted = m.raft.emitted ++ events ∧
      ((events.map (ofRaft now read)).foldl deliver m).raft.state = n.state ∧
      ((events.map (ofRaft now read)).foldl deliver m).raft.leaderId = n.leaderId := by
  obtain ⟨_, events, hemitted, htrack⟩ := RaftNode.step_tracked hs h
  refine ⟨events, hemitted, ?_⟩
  have hfold : ∀ (events : List Raft.RaftEvent) (m : MembershipManager),
      m.raft.nodeId = m.config.nodeId →
      (((events.map (ofRaft now read)).foldl deliver m).raft.state,
        ((events.map (ofRaft now read)).foldl deliver m).raft.leaderId) =
      events.foldl (RaftNode.track m.config.nodeId) (m.raft.state, m.raft.leaderId) := by
    intro events
    induction events with
    | nil => exact fun _ _ => rfl
    | cons e rest ih =>
      intro m hself
      have hconfig := (deliver_configs (m := m) (ofRaft now read e)).1
      rw [List.map_cons, List.foldl_cons, List.foldl_cons, ih _ (deliver_self hself _),
        deliver_track, hconfig, hself]
  have hpair := (hfold events m hself).trans (hself ▸ htrack.symm)
  exact ⟨congrArg Prod.fst hpair, congrArg Prod.snd hpair⟩

end

end MembershipManager

end ClaudeCluster.Membership
