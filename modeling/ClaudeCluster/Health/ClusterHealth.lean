import Mathlib.Data.List.Dedup
import Mathlib.Data.Rat.Defs
import ClaudeCluster.Lib.Table
import ClaudeCluster.Lib.Utf16
import ClaudeCluster.Membership.Manager

/-!
# The health monitor

`ClusterHealthPlugin` of `plugins/cluster-health/index.ts`, one field of the
class for one field here; the fields nothing reads (`lastAlertedTerm`,
`lastLeaderCheck`, `noLeaderSince`) are left out. A check reads the Raft node
of its process and the clock, which stands still while it runs.

`runHealthCheck` is cut at its first `await`: it returns the alerts it goes on
to send one by one, and `sendAlert` is what happens to each of them then. An
alert carries the ids of the peers it reports offline, which its text only
gives by their first part.
-/

namespace ClaudeCluster.Health

open Lib (Table JsString)
open Lib.Utf16 (ofText)
open ClaudeCluster.Membership (NodeInfo)
open Raft (NodeId RaftNode RaftState PeerInfo)

-- ---------------------------------------------------------------------------
-- Data
-- ---------------------------------------------------------------------------

inductive Level
  | warning
  | critical
  deriving DecidableEq, Repr

def Level.name : Level → String
  | .warning => "warning"
  | .critical => "critical"

structure HealthAlert where
  level : Level
  message : String
  /-- The peers the alert reports offline. -/
  offline : List NodeId := []
  deriving DecidableEq, Repr

structure TermSample where
  term : Nat
  timestamp : Nat
  deriving DecidableEq, Repr

def peerGracePeriodMs : Nat := 90000
def termWindowMs : Nat := 300000
def alertCooldownMs : Nat := 300000
def leaderGracePeriodMs : Nat := 60000

structure ClusterHealthPlugin where
  termHistory : List TermSample := []
  becameLeaderAt : Nat := 0
  peerLastAlive : Table (Prod.fst : NodeId × Nat → NodeId) := .empty
  /-- A `Set`, in insertion order. -/
  alertedOfflinePeers : List NodeId := []
  squelchedUntil : Rat := 0
  lastAlerts : Table (Prod.fst : JsString × Nat → JsString) := .empty
  termVelocityThreshold : Nat := 5

/-- `Map.get(key) ?? 0` -/
def timeOf {κ : Type} [DecidableEq κ] (times : Table (Prod.fst : κ × Nat → κ)) (k : κ) : Nat :=
  ((times.find? k).map Prod.snd).getD 0

def add (s : List NodeId) (id : NodeId) : List NodeId := if id ∈ s then s else s ++ [id]

/-- `nodeId.split('-')[0]` -/
def shortName (id : NodeId) : String := .ofList (id.toList.takeWhile (· ≠ '-'))

-- ---------------------------------------------------------------------------
-- The alerts
-- ---------------------------------------------------------------------------

/-- `(elections / 5).toFixed(1)` -/
def perMinute (elections : Nat) : String :=
  toString (elections * 2 / 10) ++ "." ++ toString (elections * 2 % 10)

def stormAlert (elections : Nat) : HealthAlert where
  level := .critical
  message := "Election storm: " ++ toString elections ++ " elections in 5min (" ++
    perMinute elections ++ "/min). Cluster may be unstable."

def recoveredAlert (id : NodeId) : HealthAlert where
  level := .warning
  message := "Node recovered: " ++ shortName id ++ " is back online and replicating."

def offlineAlert (newlyOffline : List PeerInfo) (unresponsive peers : Nat) : HealthAlert where
  level := .warning
  message := "Node" ++ (if newlyOffline.length > 1 then "s" else "") ++ " went offline: " ++
    ", ".intercalate (newlyOffline.map fun p => shortName p.nodeId) ++
    " (" ++ toString unresponsive ++ "/" ++ toString peers ++ " not replicating)"
  offline := newlyOffline.map PeerInfo.nodeId

def quorumAlert (aliveVoting quorumSize totalVoting : Nat) : HealthAlert where
  level := .critical
  message := "Quorum at risk: " ++ toString aliveVoting ++ " alive voting nodes, need " ++
    toString quorumSize ++ " for quorum (" ++ toString totalVoting ++ " total)"

def lagAlert (peer : PeerInfo) (commitIndex : Nat) : HealthAlert where
  level := .warning
  message := "Replication lag: " ++ peer.nodeId ++ " is " ++
    toString (commitIndex - peer.matchIndex) ++ " entries behind (matchIndex=" ++
    toString peer.matchIndex ++ ", commitIndex=" ++ toString commitIndex ++ ")"

-- ---------------------------------------------------------------------------
-- What the leader knows of its peers
-- ---------------------------------------------------------------------------

/-- `peers.filter(p => p.matchIndex > 0)` -/
def alivePeers (raft : RaftNode) : List PeerInfo :=
  raft.peers.values.filter (·.matchIndex > 0)

def totalVoting (raft : RaftNode) : Nat := raft.votingPeers.length + 1

/-- The leader counts itself. -/
def aliveVoting (raft : RaftNode) : Nat := ((alivePeers raft).filter (·.votingMember)).length + 1

def quorumSize (raft : RaftNode) : Nat := totalVoting raft / 2 + 1

namespace ClusterHealthPlugin

-- ---------------------------------------------------------------------------
-- Terms
-- ---------------------------------------------------------------------------

def recordTerm (term now : Nat) (h : ClusterHealthPlugin) : ClusterHealthPlugin :=
  { h with
    termHistory := (h.termHistory ++ [TermSample.mk term now]).filter
      (·.timestamp ≥ now - termWindowMs) }

/-- The elections `getTermVelocity` counts: the terms of the window less one. -/
def elections (now : Nat) (h : ClusterHealthPlugin) : Nat :=
  ((h.termHistory.filter (·.timestamp ≥ now - termWindowMs)).map TermSample.term).dedup.length - 1

-- ---------------------------------------------------------------------------
-- The check
-- ---------------------------------------------------------------------------

def noteAlive (raft : RaftNode) (now : Nat) (h : ClusterHealthPlugin) : ClusterHealthPlugin :=
  { h with
    peerLastAlive := raft.peers.values.foldl
      (fun times p => if p.matchIndex > 0 then times.put (p.nodeId, now) else times)
      h.peerLastAlive }

def unresponsivePeers (raft : RaftNode) (now : Nat) (h : ClusterHealthPlugin) : List PeerInfo :=
  raft.peers.values.filter fun p =>
    if p.matchIndex > 0 ∨ raft.commitIndex = 0 then false
    else now - timeOf h.peerLastAlive p.nodeId > peerGracePeriodMs

def recoveredPeers (raft : RaftNode) (h : ClusterHealthPlugin) : List NodeId :=
  h.alertedOfflinePeers.filter fun id =>
    (raft.peers.values.find? (·.nodeId = id)).any (·.matchIndex > 0)

/-- `runHealthCheck` past the grace period of the leader, up to the sending. -/
def checkPeers (raft : RaftNode) (now : Nat) (h : ClusterHealthPlugin) :
    ClusterHealthPlugin × List HealthAlert :=
  let storm :=
    if h.elections now ≥ h.termVelocityThreshold then [stormAlert (h.elections now)] else []
  let noted := h.noteAlive raft now
  let unresponsive := noted.unresponsivePeers raft now
  let recovered := noted.recoveredPeers raft
  let alerted := noted.alertedOfflinePeers.filter (· ∉ recovered)
  let newlyOffline := unresponsive.filter (·.nodeId ∉ alerted)
  let offline :=
    if newlyOffline.length > 0 then
      [offlineAlert newlyOffline unresponsive.length raft.peers.values.length]
    else []
  let quorum :=
    if aliveVoting raft < quorumSize raft then
      [quorumAlert (aliveVoting raft) (quorumSize raft) (totalVoting raft)]
    else []
  -- `peer.matchIndex < commitIndex - 10`, which may be negative
  let lag := (raft.peers.values.filter fun p =>
    p.matchIndex > 0 ∧ p.matchIndex + 10 < raft.commitIndex).map (lagAlert · raft.commitIndex)
  ({ noted with alertedOfflinePeers := (newlyOffline.map PeerInfo.nodeId).foldl add alerted },
    storm ++ recovered.map recoveredAlert ++ offline ++ quorum ++ lag)

def noteOffice (now : Nat) (h : ClusterHealthPlugin) : ClusterHealthPlugin :=
  { h with becameLeaderAt := if h.becameLeaderAt = 0 then now else h.becameLeaderAt }

def runHealthCheck (raft : RaftNode) (now : Nat) (h : ClusterHealthPlugin) :
    ClusterHealthPlugin × List HealthAlert :=
  let h := h.recordTerm raft.currentTerm now
  if raft.state ≠ .leader then ({ h with becameLeaderAt := 0 }, [])
  else
    let h := h.noteOffice now
    if now - h.becameLeaderAt < leaderGracePeriodMs then (h, [])
    else h.checkPeers raft now

-- ---------------------------------------------------------------------------
-- Squelching and sending
-- ---------------------------------------------------------------------------

/-- What `squelchAlerts` sets. What it stores and the notice it sends do not
come back to this object, except through `loadSquelch`. -/
def squelchAlerts (minutes : Option Rat) (now : Nat) (h : ClusterHealthPlugin) :
    ClusterHealthPlugin :=
  let mins := minutes.getD 30
  { h with squelchedUntil := if mins ≤ 0 then 0 else now + mins * 60000 }

/-- `row` is what `parseInt` makes of the stored value, if there is a row. -/
def loadSquelch (row : Option Int) (now : Nat) (h : ClusterHealthPlugin) : ClusterHealthPlugin :=
  match row with
  | some stamp => if stamp > now then { h with squelchedUntil := stamp } else h
  | none => h

def start (row : Option Int) (raft : RaftNode) (now : Nat) (h : ClusterHealthPlugin) :
    ClusterHealthPlugin :=
  (h.loadSquelch row now).recordTerm raft.currentTerm now

/-- A squelch that has run out is cleared when it is asked for. -/
def isSquelched (now : Nat) (h : ClusterHealthPlugin) : ClusterHealthPlugin × Bool :=
  if h.squelchedUntil ≤ 0 then (h, false)
  else if now < h.squelchedUntil then (h, true)
  else ({ h with squelchedUntil := 0 }, false)

/-- `alertKey`: the level and 50 code units of the message. -/
def alertKey (alert : HealthAlert) : JsString :=
  ofText (alert.level.name ++ ":") ++ (ofText alert.message).take 50

def alertText (alert : HealthAlert) : String :=
  (match alert.level with
    | .critical => "🔴 CRITICAL"
    | .warning => "⚠️ WARNING") ++ "\n" ++ alert.message

/-- `sendAlert` up to the tool: the text to hand over, or none. -/
def sendAlert (alert : HealthAlert) (now : Nat) (h : ClusterHealthPlugin) :
    ClusterHealthPlugin × Option String :=
  let (h, squelched) := h.isSquelched now
  if squelched then (h, none)
  else if now - timeOf h.lastAlerts (alertKey alert) < alertCooldownMs then (h, none)
  else
    let sent := h.lastAlerts.put (alertKey alert, now)
    ({ h with lastAlerts := sent.filter fun e => ¬ now - e.2 > alertCooldownMs * 2 },
      some (alertText alert))

end ClusterHealthPlugin

-- ---------------------------------------------------------------------------
-- The report
-- ---------------------------------------------------------------------------

inductive OverallStatus
  | healthy
  | degraded
  | critical
  deriving DecidableEq, Repr

structure LeaderInfo where
  nodeId : Option NodeId
  isLeader : Bool
  term : Nat
  state : RaftState
  deriving DecidableEq, Repr

structure TermVelocityInfo where
  elections : Nat
  windowMinutes : Nat
  electionsPerMinute : Rat
  threshold : Nat
  stable : Bool
  deriving DecidableEq, Repr

structure Replication where
  nodeId : NodeId
  matchIndex : Nat
  lag : Int
  voting : Bool
  alive : Bool
  deriving DecidableEq, Repr

structure LeaderReport where
  squelchedUntil : Option Rat
  leader : LeaderInfo
  termVelocity : TermVelocityInfo
  total : Nat
  alive : Nat
  unresponsive : Nat
  unresponsiveNames : List NodeId
  replication : List Replication
  votingMembers : Nat
  aliveVoting : Nat
  needed : Nat
  healthy : Bool
  overallStatus : OverallStatus
  deriving DecidableEq, Repr

structure PeerStatus where
  nodeId : NodeId
  hostname : String
  status : Membership.NodeStatus
  role : Membership.NodeRole
  alive : Bool
  deriving DecidableEq, Repr

structure FollowerReport where
  squelchedUntil : Option Rat
  leader : LeaderInfo
  lastReceivedMs : Int
  leaderAlive : Bool
  termVelocity : TermVelocityInfo
  total : Nat
  knownAlive : Nat
  peerStatus : List PeerStatus
  votingMembers : Nat
  needed : Nat
  healthy : Bool
  overallStatus : OverallStatus
  deriving DecidableEq, Repr

inductive HealthReport
  | leader (report : LeaderReport)
  | follower (report : FollowerReport)
  deriving DecidableEq, Repr

namespace ClusterHealthPlugin

def computeOverallStatus (elections unresponsiveCount aliveVoting quorumNeeded : Nat)
    (h : ClusterHealthPlugin) : OverallStatus :=
  if aliveVoting < quorumNeeded then .critical
  else if elections ≥ h.termVelocityThreshold then .critical
  else if unresponsiveCount > 0 then .degraded
  else .healthy

def leaderInfo (raft : RaftNode) : LeaderInfo :=
  ⟨raft.leaderId, raft.state = .leader, raft.currentTerm, raft.state⟩

def termVelocityInfo (now : Nat) (h : ClusterHealthPlugin) : TermVelocityInfo where
  elections := h.elections now
  windowMinutes := termWindowMs / 60000
  electionsPerMinute := h.elections now / 5
  threshold := h.termVelocityThreshold
  stable := h.elections now < h.termVelocityThreshold

def squelchEnd (now : Nat) (h : ClusterHealthPlugin) : Option Rat :=
  if h.squelchedUntil > 0 ∧ now < h.squelchedUntil then some h.squelchedUntil else none

def replicationOf (raft : RaftNode) (p : PeerInfo) : Replication where
  nodeId := p.nodeId
  matchIndex := p.matchIndex
  lag := (raft.commitIndex : Int) - p.matchIndex
  voting := p.votingMember
  alive := p.matchIndex > 0 ∨ raft.commitIndex = 0

def leaderReport (raft : RaftNode) (now : Nat) (h : ClusterHealthPlugin) : LeaderReport :=
  let unresponsive := raft.peers.values.filter fun p => p.matchIndex = 0 ∧ raft.commitIndex > 0
  { squelchedUntil := h.squelchEnd now
    leader := leaderInfo raft
    termVelocity := h.termVelocityInfo now
    total := raft.peers.values.length
    alive := (alivePeers raft).length
    unresponsive := unresponsive.length
    unresponsiveNames := unresponsive.map PeerInfo.nodeId
    replication := raft.peers.values.map (replicationOf raft)
    votingMembers := totalVoting raft
    aliveVoting := Health.aliveVoting raft
    needed := quorumSize raft
    healthy := Health.aliveVoting raft ≥ quorumSize raft
    overallStatus := h.computeOverallStatus (h.elections now) unresponsive.length
      (Health.aliveVoting raft) (quorumSize raft) }

/-- One element of `peerStatus`: of the leader only its heartbeats tell. -/
def peerStatusOf (raft : RaftNode) (leaderAlive : Bool) (n : NodeInfo) : PeerStatus where
  nodeId := n.nodeId
  hostname := n.hostname
  status := n.status
  role := if some n.nodeId = raft.leaderId then .leader else .follower
  alive := if some n.nodeId = raft.leaderId then leaderAlive else n.status = .active

def followerReport (raft : RaftNode) (nodes : List NodeInfo) (lastHeartbeat now : Nat)
    (h : ClusterHealthPlugin) : FollowerReport :=
  let heartbeatAgeMs : Int := if lastHeartbeat > 0 then (now : Int) - lastHeartbeat else -1
  let leaderAlive : Bool := heartbeatAgeMs ≥ 0 ∧ heartbeatAgeMs < 5000
  let peerStatus :=
    (nodes.filter (·.nodeId ≠ raft.nodeId)).map (peerStatusOf raft leaderAlive)
  { squelchedUntil := h.squelchEnd now
    leader := leaderInfo raft
    lastReceivedMs := heartbeatAgeMs
    leaderAlive := leaderAlive
    termVelocity := h.termVelocityInfo now
    total := raft.votingPeers.length
    knownAlive := peerStatus.countP (·.alive)
    peerStatus := peerStatus
    votingMembers := totalVoting raft
    needed := quorumSize raft
    healthy := leaderAlive
    overallStatus :=
      if leaderAlive then
        if h.elections now ≥ h.termVelocityThreshold then .critical else .healthy
      else .critical }

/-- `nodes` is `membership.getAllNodes()`, `lastHeartbeat` the time the node
keeps of the last `AppendEntries` it got. -/
def getHealthReport (raft : RaftNode) (nodes : List NodeInfo) (lastHeartbeat now : Nat)
    (h : ClusterHealthPlugin) : HealthReport :=
  if raft.state = .leader then .leader (h.leaderReport raft now)
  else .follower (h.followerReport raft nodes lastHeartbeat now)

end ClusterHealthPlugin

def HealthReport.alive (id : NodeId) : HealthReport → Bool
  | .leader r => r.replication.any fun p => p.nodeId = id && p.alive
  | .follower r => r.peerStatus.any fun p => p.nodeId = id && p.alive

end ClaudeCluster.Health
