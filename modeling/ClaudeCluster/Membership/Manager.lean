import ClaudeCluster.Lib.Table
import ClaudeCluster.Raft.Node

/-!
# The membership manager

`MembershipManager` of `cluster/membership.ts`, over the peers of its
`RaftNode`. What it does when Raft emits, when a `RegisterNode` call arrives or
is answered, and when an entry is committed.

A method that awaits is cut there: `handleJoinRequest` up to the
`appendEntry` of `approveNode` and its answer after it, `joinClusterWithRedirect`
up to the call and what it makes of the response. Resources, the counters of
failed heartbeats and the list of pending approvals, which is only shown, are
left out.
-/

namespace ClaudeCluster.Membership

open Lib (Table)
open Raft (NodeId RaftNode RaftState)

-- ---------------------------------------------------------------------------
-- Data
-- ---------------------------------------------------------------------------

inductive NodeRole
  | leader
  | follower
  | candidate
  | worker
  deriving DecidableEq, Repr

inductive NodeStatus
  | pendingApproval
  | active
  | draining
  | offline
  deriving DecidableEq, Repr

def NodeRole.name : NodeRole → String
  | .leader => "leader"
  | .follower => "follower"
  | .candidate => "candidate"
  | .worker => "worker"

def NodeStatus.name : NodeStatus → String
  | .pendingApproval => "pending_approval"
  | .active => "active"
  | .draining => "draining"
  | .offline => "offline"

def NodeRole.ofRaft : RaftState → NodeRole
  | .follower => .follower
  | .candidate => .candidate
  | .leader => .leader

structure NodeInfo where
  nodeId : NodeId
  hostname : String
  tailscaleIp : String
  grpcPort : Nat
  role : NodeRole
  status : NodeStatus
  tags : List String
  joinedAt : Nat
  lastSeen : Nat
  deriving DecidableEq, Repr

def addressOf (ip : String) (port : Nat) : String := ip ++ ":" ++ toString port

def NodeInfo.address (node : NodeInfo) : String := addressOf node.tailscaleIp node.grpcPort

/-- `node.tailscaleIp && node.grpcPort` -/
def NodeInfo.addressed (node : NodeInfo) : Bool := node.tailscaleIp ≠ "" && node.grpcPort ≠ 0

/-- An enum value on the wire, its marker put in front and stripped again. -/
def enumOverWire (marker name : String) : List Char :=
  ((marker.toList ++ name.toList.map Char.toUpper).drop marker.length).map Char.toLower

def NodeRole.overWire (role : NodeRole) : Option NodeRole :=
  [.leader, .follower, .candidate, .worker].find?
    (·.name.toList = enumOverWire "NODE_ROLE_" role.name)

def NodeStatus.overWire (status : NodeStatus) : Option NodeStatus :=
  [.pendingApproval, .active, .draining, .offline].find?
    (·.name.toList = enumOverWire "NODE_STATUS_" status.name)

/-- `protoToNode` of what the `RegisterNode` handler sends. -/
def NodeInfo.overWire (node : NodeInfo) : NodeInfo :=
  { node with
    role := node.role.overWire.getD node.role
    status := node.status.overWire.getD node.status }

@[simp] theorem NodeInfo.overWire_eq (node : NodeInfo) : node.overWire = node := by
  have hrole : ∀ role : NodeRole, role.overWire = some role := by
    intro role
    cases role <;> decide
  have hstatus : ∀ status : NodeStatus, status.overWire = some status := by
    intro status
    cases status <;> decide
  simp [overWire, hrole, hstatus]

/-- The object a `node_join` entry carries. -/
structure JoinData where
  nodeId : NodeId
  hostname : String
  tailscaleIp : String
  grpcPort : Nat
  tags : List String
  deriving DecidableEq, Repr

def JoinData.toNode (data : JoinData) (now : Nat) : NodeInfo where
  nodeId := data.nodeId
  hostname := data.hostname
  tailscaleIp := data.tailscaleIp
  grpcPort := data.grpcPort
  role := .follower
  status := .active
  tags := data.tags
  joinedAt := now
  lastSeen := now

inductive Entry
  | nodeJoin (data : JoinData)
  | nodeLeave (nodeId : NodeId)
  /-- Of another type, or with data that does not parse. -/
  | other
  deriving DecidableEq, Repr

structure JoinResponse where
  approved : Bool
  pendingApproval : Bool
  clusterId : String
  leaderAddress : String
  peers : List NodeInfo
  deriving DecidableEq, Repr

structure MembershipConfig where
  nodeId : NodeId
  hostname : String
  tailscaleIp : String
  grpcPort : Nat
  heartbeatTimeoutMs : Nat := 15000
  autoApprove : Bool := false
  deriving DecidableEq, Repr

structure MembershipManager where
  config : MembershipConfig
  nodes : Table NodeInfo.nodeId
  leaderAddress : Option String := none
  raft : RaftNode
  /-- The `address` of the peers of `raft`. -/
  addresses : NodeId → String := fun _ => ""

/-- `nodeId.endsWith('-mcp')`: an MCP proxy, a non-voting observer. -/
def isObserver (id : NodeId) : Bool := "-mcp".toList.isSuffixOf id.toList

namespace MembershipManager

-- ---------------------------------------------------------------------------
-- Nodes
-- ---------------------------------------------------------------------------

def create (config : MembershipConfig) (raft : RaftNode) (now : Nat) : MembershipManager where
  config := config
  nodes := Table.empty.put {
    nodeId := config.nodeId
    hostname := config.hostname
    tailscaleIp := config.tailscaleIp
    grpcPort := config.grpcPort
    role := .follower
    status := .active
    tags := []
    joinedAt := now
    lastSeen := now }
  raft := raft

def isLeader (m : MembershipManager) : Bool := m.raft.state = .leader

def getSelfNode (m : MembershipManager) : Option NodeInfo := m.nodes.find? m.config.nodeId

def setStatus (id : NodeId) (status : NodeStatus) (m : MembershipManager) : MembershipManager :=
  { m with nodes := m.nodes.modify id fun node => { node with status := status } }

def setRole (id : NodeId) (role : NodeRole) (m : MembershipManager) : MembershipManager :=
  { m with nodes := m.nodes.modify id fun node => { node with role := role } }

def addPeer (id : NodeId) (address : String) (votingMember : Bool) (m : MembershipManager) :
    MembershipManager :=
  { m with
    raft := m.raft.addPeer id votingMember
    addresses := fun x => if x = id then address else m.addresses x }

/-- The loop that takes the role of leader from every node but `keep`. -/
def demote (keep : NodeId → Bool) (m : MembershipManager) : MembershipManager :=
  { m with
    nodes := m.nodes.mapRows
      (fun node => if node.role = .leader ∧ !keep node.nodeId then { node with role := .follower }
        else node)
      (fun node => by split <;> rfl) }

-- ---------------------------------------------------------------------------
-- Listeners of Raft
-- ---------------------------------------------------------------------------

/-- `updateNodeRole(config.nodeId, state)`, on `stateChange`. -/
def onStateChange (state : RaftState) (m : MembershipManager) : MembershipManager :=
  let m' := m.setRole m.config.nodeId (.ofRaft state)
  match m.getSelfNode with
  | some self => if state = .leader then { m' with leaderAddress := some self.address } else m'
  | none => m'

/-- The id without a last dash and the hex digits after it. -/
def hostnameOf (id : NodeId) : String :=
  let hex := fun c : Char => ('a' ≤ c && c ≤ 'f') || ('0' ≤ c && c ≤ '9')
  let reversed := id.toList.reverse
  match reversed.takeWhile hex, reversed.dropWhile hex with
  | _ :: _, '-' :: rest => String.ofList rest.reverse
  | _, _ => id

/-- `parseInt(portStr) || 50051` of the text of a port. -/
def portOf (text : List Char) : Nat :=
  let digits := text.takeWhile Char.isDigit
  let port := digits.foldl (fun n c => 10 * n + (c.toNat - '0'.toNat)) 0
  if port = 0 then 50051 else port

def nodeOfPeer (now : Nat) (id : NodeId) (address : String) : NodeInfo where
  nodeId := id
  hostname := hostnameOf id
  tailscaleIp := String.ofList (address.toList.takeWhile (· ≠ ':'))
  grpcPort := portOf (((address.toList.dropWhile (· ≠ ':')).drop 1).takeWhile (· ≠ ':'))
  role := .follower
  status := .active
  tags := []
  joinedAt := now
  lastSeen := now

def onLeaderElected (now : Nat) (m : MembershipManager) : MembershipManager :=
  m.raft.peers.values.foldl (fun m peer =>
    if (m.nodes.find? peer.nodeId).isSome then m
    else
      { m with nodes := m.nodes.put (nodeOfPeer now peer.nodeId (m.addresses peer.nodeId)) }) m

def onLeaderChanged (newLeaderId : NodeId) (m : MembershipManager) : MembershipManager :=
  let m := m.demote (· = m.config.nodeId)
  match m.nodes.find? newLeaderId with
  | some leader =>
    { m.setRole newLeaderId .leader with leaderAddress := some leader.address }
  | none => m

-- ---------------------------------------------------------------------------
-- Liveness
-- ---------------------------------------------------------------------------

def onHeartbeat (now : Nat) (leaderAddress : String) (leaderId : NodeId) (m : MembershipManager) :
    MembershipManager :=
  let m := { m with
    nodes := m.nodes.modify m.config.nodeId fun node => { node with lastSeen := now }
    leaderAddress := if leaderAddress = "" then m.leaderAddress else some leaderAddress }
  if leaderId = "" then m
  else (m.demote fun id => id = m.config.nodeId || id = leaderId).setRole leaderId .leader

/-- The `Heartbeat` handler of `grpc/handlers.ts`. -/
def handleHeartbeat (now : Nat) (nodeId : NodeId) (m : MembershipManager) : MembershipManager :=
  { m with nodes := m.nodes.modify nodeId fun node =>
      { node with
        lastSeen := now
        status := if node.status = .offline then .active else node.status } }

/-- A follower keeps everybody fresh; the leader compares times. -/
def detectFailures (now : Nat) (m : MembershipManager) : MembershipManager :=
  { m with
    nodes := m.nodes.mapRows
      (fun node =>
        if node.nodeId = m.config.nodeId then node
        else if !m.isLeader then { node with lastSeen := now }
        else
          { node with
            status :=
              if node.status = .active ∧ now - node.lastSeen > m.config.heartbeatTimeoutMs then
                .offline
              else if node.status = .offline ∧
                  now - node.lastSeen ≤ m.config.heartbeatTimeoutMs then .active
              else node.status })
      (fun node => by
        split
        · rfl
        · split <;> rfl) }

/-- What `ClusterStateManager.getState` does to the roles of the map's nodes. -/
def reconcileRoles (m : MembershipManager) : MembershipManager :=
  match m.raft.leaderId with
  | none => m
  | some leaderId => (m.demote (· = leaderId)).setRole leaderId .leader

-- ---------------------------------------------------------------------------
-- Committed entries
-- ---------------------------------------------------------------------------

def handleNodeJoinCommitted (now : Nat) (data : JoinData) (m : MembershipManager) :
    MembershipManager :=
  { m with nodes := m.nodes.put (JoinData.toNode data now) }.addPeer data.nodeId
    (addressOf data.tailscaleIp data.grpcPort) (!isObserver data.nodeId)

def handleNodeLeaveCommitted (nodeId : NodeId) (m : MembershipManager) : MembershipManager :=
  if (m.nodes.find? nodeId).isSome then
    { m with nodes := m.nodes.delete nodeId, raft := m.raft.removePeer nodeId }
  else m

def handleCommittedEntry (now : Nat) (m : MembershipManager) : Entry → MembershipManager
  | .nodeJoin data => m.handleNodeJoinCommitted now data
  | .nodeLeave nodeId => m.handleNodeLeaveCommitted nodeId
  | .other => m

-- ---------------------------------------------------------------------------
-- The leader's side of a join
-- ---------------------------------------------------------------------------

def requestedNode (now : Nat) (node : NodeInfo) : NodeInfo :=
  { node with role := .follower, status := .pendingApproval, joinedAt := now, lastSeen := now }

/-- Where a node that does not lead sends the caller: the leader Raft knows of,
if it is active, else the address kept, unless it is the caller's. -/
def redirectAddress (node : NodeInfo) (m : MembershipManager) : String :=
  let fresh : Option NodeInfo := m.raft.leaderId.bind fun leaderId =>
    if leaderId ≠ "" ∧ leaderId ≠ m.config.nodeId then
      (m.nodes.find? leaderId).filter (·.status = .active)
    else none
  match fresh with
  | some leader => leader.address
  | none => (m.leaderAddress.filter (· ≠ node.address)).getD ""

/-- The answer of a leader that has approved, when `approveNode` has returned;
its result is not looked at. -/
def approvedResponse (m : MembershipManager) : JoinResponse where
  approved := true
  pendingApproval := false
  clusterId := m.config.nodeId
  leaderAddress := addressOf m.config.tailscaleIp m.config.grpcPort
  peers := (m.nodes.rows.filter NodeInfo.addressed).map NodeInfo.overWire

def joinEntry (node : NodeInfo) : Entry :=
  .nodeJoin ⟨node.nodeId, node.hostname, node.tailscaleIp, node.grpcPort, node.tags⟩

/-- `approveNode` up to its `await`: what a leader appends. -/
def approveNode (node : NodeInfo) (m : MembershipManager) : Option Entry :=
  if m.isLeader then some (joinEntry node) else none

/-- `removeNode` up to its `await`. -/
def removeNode (nodeId : NodeId) (graceful : Bool) (m : MembershipManager) :
    MembershipManager × Option Entry :=
  if m.isLeader ∧ (m.nodes.find? nodeId).isSome then
    (if graceful then m.setStatus nodeId .draining else m, some (.nodeLeave nodeId))
  else (m, none)

/-- What a call of `handleJoinRequest` has done when it returns or first awaits. -/
inductive Joining
  | answered (response : JoinResponse)
  /-- In `await this.approveNode(node)`. -/
  | approving (entry : Option Entry)

def handleJoinRequest (node : NodeInfo) (m : MembershipManager) : Joining :=
  if !m.isLeader then .answered ⟨false, false, "", m.redirectAddress node, []⟩
  else if m.config.autoApprove then .approving (m.approveNode node)
  else .answered ⟨false, true, "", addressOf m.config.tailscaleIp m.config.grpcPort, []⟩

-- ---------------------------------------------------------------------------
-- The joiner's side
-- ---------------------------------------------------------------------------

/-- A peer of the response: the node itself and nodes without an address are
skipped. Only a `worker` is not counted as voting. -/
def learnPeer (m : MembershipManager) (peer : NodeInfo) : MembershipManager :=
  if peer.nodeId = m.config.nodeId then m
  else if !peer.addressed then m
  else
    { m with nodes := m.nodes.put peer }.addPeer peer.nodeId peer.address (peer.role ≠ NodeRole.worker)

/-- What `joinClusterWithRedirect` makes of the response of `seedAddress`, and
the address it calls next. -/
def handleJoinResponse (seedAddress : String) (response : JoinResponse) (m : MembershipManager) :
    MembershipManager × Option String :=
  if response.pendingApproval then (m.setStatus m.config.nodeId .pendingApproval, none)
  else if response.approved then
    let m := { m with leaderAddress := some response.leaderAddress }.setStatus m.config.nodeId .active
    let m := response.peers.foldl learnPeer m
    ({ m with raft := m.raft.delayNextElection }, none)
  else if response.leaderAddress ≠ "" ∧ response.leaderAddress ≠ seedAddress then
    (m, some response.leaderAddress)
  else (m, none)

end MembershipManager

end ClaudeCluster.Membership
