import Mathlib.Data.List.Sort
import Mathlib.Data.List.Nodup
import ClaudeCluster.Lib.Splice

/-!
# The Raft node

`RaftNode` of `cluster/raft.ts`, one field of the class for one field here.
A method is a function on the node; what it writes outside the object stands
in fields of its own: `stateFile` is `raft-state.json`, `sent` everything the
node has put on the wire, `emitted` the events its listeners got.

A method that awaits is cut at the `await`. `startElection` leaves an
`Election` behind, `replicateToFollowers` a `Round`; replies settle their
slots one by one, and `electionEnds` and `roundEnds` are what runs after
`Promise.all`. Listeners run after the handler that emitted: a call of
`appendEntry` or `addPeer` they make is an input of its own.

The last fields (`votes`, `led`, `tenure`, `held`, `resolved`) are history. No
method reads them; they record what the node has done.
-/

namespace ClaudeCluster.Raft

open Lib (splice)

abbrev NodeId := String
abbrev Buffer := List UInt8

-- ---------------------------------------------------------------------------
-- Data
-- ---------------------------------------------------------------------------

inductive RaftState
  | follower
  | candidate
  | leader
  deriving DecidableEq, Repr

inductive LogEntryType
  | noop
  | configChange
  | taskSubmit
  | taskComplete
  | nodeJoin
  | nodeLeave
  | contextUpdate
  | memoryWrite
  | taskAssign
  | taskStarted
  | taskFailed
  | taskCancel
  | taskRetry
  | taskDeadLetter
  | workflowSubmit
  | workflowAdvance
  deriving DecidableEq, Repr

structure LogEntry where
  term : Nat
  index : Nat
  type : LogEntryType
  data : Buffer
  deriving DecidableEq, Repr

def LogEntryType.name : LogEntryType → String
  | .noop => "noop"
  | .configChange => "config_change"
  | .taskSubmit => "task_submit"
  | .taskComplete => "task_complete"
  | .nodeJoin => "node_join"
  | .nodeLeave => "node_leave"
  | .contextUpdate => "context_update"
  | .memoryWrite => "memory_write"
  | .taskAssign => "task_assign"
  | .taskStarted => "task_started"
  | .taskFailed => "task_failed"
  | .taskCancel => "task_cancel"
  | .taskRetry => "task_retry"
  | .taskDeadLetter => "task_dead_letter"
  | .workflowSubmit => "workflow_submit"
  | .workflowAdvance => "workflow_advance"

def LogEntryType.all : List LogEntryType :=
  [.noop, .configChange, .taskSubmit, .taskComplete, .nodeJoin, .nodeLeave, .contextUpdate,
    .memoryWrite, .taskAssign, .taskStarted, .taskFailed, .taskCancel, .taskRetry,
    .taskDeadLetter, .workflowSubmit, .workflowAdvance]

def logEntryTypeToProto : LogEntryType → String
  | .noop => "LOG_ENTRY_TYPE_NOOP"
  | .configChange => "LOG_ENTRY_TYPE_CONFIG_CHANGE"
  | .taskSubmit => "LOG_ENTRY_TYPE_TASK_SUBMIT"
  | .taskComplete => "LOG_ENTRY_TYPE_TASK_COMPLETE"
  | .nodeJoin => "LOG_ENTRY_TYPE_NODE_JOIN"
  | .nodeLeave => "LOG_ENTRY_TYPE_NODE_LEAVE"
  | .contextUpdate => "LOG_ENTRY_TYPE_CONTEXT_UPDATE"
  | .memoryWrite => "LOG_ENTRY_TYPE_MEMORY_WRITE"
  | .taskAssign => "LOG_ENTRY_TYPE_TASK_ASSIGN"
  | .taskStarted => "LOG_ENTRY_TYPE_TASK_STARTED"
  | .taskFailed => "LOG_ENTRY_TYPE_TASK_FAILED"
  | .taskCancel => "LOG_ENTRY_TYPE_TASK_CANCEL"
  | .taskRetry => "LOG_ENTRY_TYPE_TASK_RETRY"
  | .taskDeadLetter => "LOG_ENTRY_TYPE_TASK_DEAD_LETTER"
  | .workflowSubmit => "LOG_ENTRY_TYPE_WORKFLOW_SUBMIT"
  | .workflowAdvance => "LOG_ENTRY_TYPE_WORKFLOW_ADVANCE"

/-- What the `AppendEntries` handler of `grpc/handlers.ts` makes of the enum
name: the marker in front stripped, the rest in lower case. -/
def protoToLogEntryType (proto : String) : Option LogEntryType :=
  let name := String.ofList ((proto.toList.drop "LOG_ENTRY_TYPE_".length).map Char.toLower)
  LogEntryType.all.find? (·.name = name)

theorem protoToLogEntryType_toProto (t : LogEntryType) :
    protoToLogEntryType (logEntryTypeToProto t) = some t := by
  cases t <;> decide

def LogEntry.overWire (e : LogEntry) : LogEntry :=
  { e with type := (protoToLogEntryType (logEntryTypeToProto e.type)).getD e.type }

@[simp] theorem LogEntry.overWire_eq (e : LogEntry) : e.overWire = e := by
  simp [overWire, protoToLogEntryType_toProto]

structure RaftConfig where
  nodeId : NodeId
  maxLogEntriesPerAppend : Option Nat := none
  nonVoting : Bool := false
  dataDir : Option String := none
  deriving DecidableEq, Repr

/-- `ref` is the identity of the object: `replicateToPeer` keeps it over its
`await`, and `addPeer` on a known id puts a new object into the map. -/
structure PeerInfo where
  nodeId : NodeId
  nextIndex : Nat
  matchIndex : Nat
  votingMember : Bool
  ref : Nat
  deriving DecidableEq, Repr

/-- A JavaScript `Map` keyed by node id, in insertion order. -/
structure PeerMap where
  values : List PeerInfo
  nodup : (values.map PeerInfo.nodeId).Nodup

namespace PeerMap

def empty : PeerMap := ⟨[], List.nodup_nil⟩

def setValues (p : PeerInfo) : List PeerInfo → List PeerInfo
  | [] => [p]
  | q :: qs => if q.nodeId = p.nodeId then p :: qs else q :: setValues p qs

theorem mem_setValues {p x : PeerInfo} {qs : List PeerInfo} (h : x ∈ setValues p qs) :
    x = p ∨ x ∈ qs := by
  induction qs with
  | nil => exact .inl (List.mem_singleton.mp h)
  | cons q qs ih =>
    simp only [setValues] at h
    split at h
    · exact (List.mem_cons.mp h).imp_right (List.mem_cons_of_mem _)
    · rcases List.mem_cons.mp h with rfl | h
      · exact .inr List.mem_cons_self
      · exact (ih h).imp_right (List.mem_cons_of_mem _)

theorem nodup_setValues (p : PeerInfo) {qs : List PeerInfo}
    (h : (qs.map PeerInfo.nodeId).Nodup) : ((setValues p qs).map PeerInfo.nodeId).Nodup := by
  induction qs with
  | nil => simp [setValues]
  | cons q qs ih =>
    rw [List.map_cons, List.nodup_cons] at h
    simp only [setValues]
    split
    case isTrue hq => exact List.nodup_cons.mpr ⟨hq ▸ h.1, h.2⟩
    case isFalse hq =>
      refine List.nodup_cons.mpr ⟨?_, ih h.2⟩
      intro hm
      obtain ⟨x, hx, hxq⟩ := List.mem_map.mp hm
      rcases mem_setValues hx with rfl | hx
      · exact hq hxq.symm
      · exact h.1 (List.mem_map.mpr ⟨x, hx, hxq⟩)

def set (m : PeerMap) (p : PeerInfo) : PeerMap :=
  ⟨setValues p m.values, nodup_setValues p m.nodup⟩

def delete (m : PeerMap) (id : NodeId) : PeerMap :=
  ⟨m.values.filter (·.nodeId ≠ id), m.nodup.sublist (List.filter_sublist.map _)⟩

def assign (m : PeerMap) (f : PeerInfo → Nat × Nat) : PeerMap :=
  ⟨m.values.map fun p => { p with nextIndex := (f p).1, matchIndex := (f p).2 }, by
    simpa [Function.comp_def] using m.nodup⟩

end PeerMap

structure RequestVoteRequest where
  term : Nat
  candidateId : NodeId
  lastLogIndex : Nat
  lastLogTerm : Nat
  deriving DecidableEq, Repr

structure RequestVoteResponse where
  term : Nat
  voteGranted : Bool
  deriving DecidableEq, Repr

structure AppendEntriesRequest where
  term : Nat
  leaderId : NodeId
  prevLogIndex : Nat
  prevLogTerm : Nat
  entries : List LogEntry
  leaderCommit : Nat
  deriving DecidableEq, Repr

structure AppendEntriesResponse where
  term : Nat
  success : Bool
  matchIndex : Nat
  deriving DecidableEq, Repr

/-- A pending `requestVote` call: the process that made it and the peer asked. -/
structure VoteCall where
  epoch : Nat
  dst : NodeId
  request : RequestVoteRequest
  deriving DecidableEq, Repr

/-- A pending `appendEntries` call, with the round and the `PeerInfo` object
its continuation belongs to. -/
structure AppendCall where
  epoch : Nat
  round : Nat
  peer : Nat
  dst : NodeId
  request : AppendEntriesRequest
  deriving DecidableEq, Repr

inductive Packet
  | requestVote (call : VoteCall)
  | voteReply (call : VoteCall) (response : RequestVoteResponse)
  | appendEntries (call : AppendCall)
  | appendReply (call : AppendCall) (response : AppendEntriesResponse)
  deriving DecidableEq, Repr

def Packet.dst : Packet → NodeId
  | .requestVote c => c.dst
  | .voteReply c _ => c.request.candidateId
  | .appendEntries c => c.dst
  | .appendReply c _ => c.request.leaderId

inductive RaftEvent
  | stateChange (state : RaftState) (term : Nat)
  | leaderElected (nodeId : NodeId)
  | leaderChanged (nodeId : NodeId)
  | entryCommitted (entry : LogEntry)
  deriving DecidableEq, Repr

structure PersistedState where
  currentTerm : Nat
  votedFor : Option NodeId
  deriving DecidableEq, Repr

/-- A call of `startElection` waiting for its votes, known by the term its
requests carry. A ballot is `none` while its RPC is out. -/
structure Election where
  term : Nat
  votesNeeded : Nat
  ballots : List (NodeId × Option Bool)
  deriving DecidableEq, Repr

def Election.votesReceived (e : Election) : Nat := 1 + e.ballots.countP (·.2 = some true)

def Election.settled (e : Election) : Bool := e.ballots.all (·.2.isSome)

/-- A call of `replicateToFollowers` waiting for its peers, and the entry
`appendEntry` returns when it made the call. -/
structure Round where
  id : Nat
  pending : List Nat
  entry : Option LogEntry
  deriving DecidableEq, Repr

structure Vote where
  term : Nat
  candidate : NodeId
  log : List LogEntry
  deriving DecidableEq, Repr

/-- A run of `becomeLeader`: the process, the term and the log it started with. -/
structure Tenure where
  epoch : Nat
  term : Nat
  log : List LogEntry
  deriving DecidableEq, Repr

structure RaftNode where
  config : RaftConfig
  state : RaftState := .follower
  currentTerm : Nat := 0
  votedFor : Option NodeId := none
  log : List LogEntry := []
  commitIndex : Nat := 0
  lastApplied : Nat := 0
  leaderId : Option NodeId := none
  peers : PeerMap := .empty
  /-- A timer is armed. -/
  electionTimeout : Bool := false
  heartbeatInterval : Bool := false
  running : Bool := false
  electionsPaused : Bool := false
  -- the process and what it waits for
  epoch : Nat := 0
  elections : List Election := []
  rounds : List Round := []
  nextRound : Nat := 0
  nextRef : Nat := 0
  -- outside the object
  stateFile : Option PersistedState := none
  sent : List Packet := []
  emitted : List RaftEvent := []
  -- history
  votes : List Vote := []
  led : List Tenure := []
  /-- The log after each step that made or extended it as leader, by term. -/
  tenure : List (Nat × List LogEntry) := []
  /-- The log after each accepted `AppendEntries`, by term. -/
  held : List (Nat × List LogEntry) := []
  /-- Entries for which `appendEntry` has resolved with success. -/
  resolved : List LogEntry := []

def lastLogIndex (log : List LogEntry) : Nat := (log.getLast?.map LogEntry.index).getD 0

def lastLogTerm (log : List LogEntry) : Nat := (log.getLast?.map LogEntry.term).getD 0

def logOk (log : List LogEntry) (request : RequestVoteRequest) : Bool :=
  request.lastLogTerm > lastLogTerm log ||
    (request.lastLogTerm = lastLogTerm log && request.lastLogIndex ≥ lastLogIndex log)

namespace RaftNode

-- ---------------------------------------------------------------------------
-- Getters, timers and the state file
-- ---------------------------------------------------------------------------

def nodeId (n : RaftNode) : NodeId := n.config.nodeId

def maxEntriesPerAppend (n : RaftNode) : Nat := n.config.maxLogEntriesPerAppend.getD 100

def getLastLogIndex (n : RaftNode) : Nat := lastLogIndex n.log

def getLastLogTerm (n : RaftNode) : Nat := lastLogTerm n.log

/-- `Array.from(this.peers.values()).filter(p => p.votingMember)` -/
def votingPeers (n : RaftNode) : List PeerInfo := n.peers.values.filter (·.votingMember)

def emit (n : RaftNode) (event : RaftEvent) : RaftNode :=
  { n with emitted := n.emitted ++ [event] }

def clearElectionTimeout (n : RaftNode) : RaftNode := { n with electionTimeout := false }

def clearTimers (n : RaftNode) : RaftNode :=
  { n with electionTimeout := false, heartbeatInterval := false }

/-- Non-voting nodes, and nodes whose elections are paused, arm no timer. -/
def resetElectionTimeout (n : RaftNode) : RaftNode :=
  { n with electionTimeout := !n.config.nonVoting && !n.electionsPaused }

/-- `stateFilePath` is not null: an empty `dataDir` counts as none. -/
def persistent (n : RaftNode) : Bool := n.config.dataDir.any (· ≠ "")

def saveState (n : RaftNode) : RaftNode :=
  { n with stateFile := if n.persistent then some ⟨n.currentTerm, n.votedFor⟩ else n.stateFile }

def loadState (n : RaftNode) : RaftNode :=
  if n.persistent then
    match n.stateFile with
    | some s =>
      if s.currentTerm > n.currentTerm then
        { n with currentTerm := s.currentTerm, votedFor := s.votedFor }
      else n
    | none => n
  else n

-- ---------------------------------------------------------------------------
-- Peers
-- ---------------------------------------------------------------------------

def addPeer (id : NodeId) (votingMember : Bool) (n : RaftNode) : RaftNode :=
  if id = n.nodeId then n
  else
    { n with
      peers := n.peers.set ⟨id, n.getLastLogIndex + 1, 0, votingMember, n.nextRef⟩
      nextRef := n.nextRef + 1 }

def removePeer (id : NodeId) (n : RaftNode) : RaftNode :=
  { n with peers := n.peers.delete id }

-- ---------------------------------------------------------------------------
-- Replication, the leader's side
-- ---------------------------------------------------------------------------

/-- The request `replicateToPeer` builds. A `nextIndex` past the log gives an
empty batch and 0 for the term of the missing entry. -/
def appendEntriesRequest (n : RaftNode) (peer : PeerInfo) : AppendEntriesRequest where
  term := n.currentTerm
  leaderId := n.nodeId
  prevLogIndex := peer.nextIndex - 1
  prevLogTerm :=
    if peer.nextIndex - 1 > 0 then (n.log[peer.nextIndex - 1 - 1]?.map LogEntry.term).getD 0 else 0
  entries := ((n.log.drop (peer.nextIndex - 1)).take n.maxEntriesPerAppend).map LogEntry.overWire
  leaderCommit := n.commitIndex

/-- `replicateToFollowers` up to its `await`: every `replicateToPeer` runs up
to its own before any of them resumes. -/
def replicateToFollowers (entry : Option LogEntry) (n : RaftNode) : RaftNode :=
  { n with
    sent := n.sent ++ n.peers.values.map fun peer =>
      .appendEntries ⟨n.epoch, n.nextRound, peer.ref, peer.nodeId, n.appendEntriesRequest peer⟩
    rounds := n.rounds ++ [⟨n.nextRound, n.peers.values.map PeerInfo.ref, entry⟩]
    nextRound := n.nextRound + 1 }

def newEntry (n : RaftNode) (type : LogEntryType) (data : Buffer) : LogEntry :=
  ⟨n.currentTerm, n.getLastLogIndex + 1, type, data⟩

def pushEntry (entry : LogEntry) (n : RaftNode) : RaftNode :=
  { n with
    log := n.log ++ [entry]
    tenure := n.tenure ++ [(n.currentTerm, n.log ++ [entry])] }

/-- `appendEntry` up to its `await`. A node that is not leader returns
`success: false` at once. -/
def appendEntry (type : LogEntryType) (data : Buffer) (n : RaftNode) : RaftNode :=
  if n.state ≠ .leader then n
  else (n.pushEntry (n.newEntry type data)).replicateToFollowers (some (n.newEntry type data))

def applyNext (n : RaftNode) : RaftNode :=
  let applied := { n with lastApplied := n.lastApplied + 1 }
  match n.log[n.lastApplied]? with
  | some entry => applied.emit (.entryCommitted entry)
  | none => applied

def applyTurns : Nat → RaftNode → RaftNode
  | 0, n => n
  | k + 1, n => applyTurns k n.applyNext

/-- `while (this.lastApplied < this.commitIndex)`: a turn moves `lastApplied`
alone, so the number of turns is known when the loop starts. -/
def applyCommittedEntries (n : RaftNode) : RaftNode :=
  n.applyTurns (n.commitIndex - n.lastApplied)

def matchIndices (n : RaftNode) : List Nat :=
  n.getLastLogIndex :: n.votingPeers.map PeerInfo.matchIndex

/-- `matchIndices.sort((a, b) => b - a)[majorityIndex]` -/
def newCommitIndex (n : RaftNode) : Nat :=
  (n.matchIndices.insertionSort (· ≥ ·))[n.matchIndices.length / 2]?.getD 0

def canAdvance (n : RaftNode) : Bool :=
  n.newCommitIndex > n.commitIndex &&
    n.log[n.newCommitIndex - 1]?.any (·.term = n.currentTerm)

def updateCommitIndex (n : RaftNode) : RaftNode :=
  if n.canAdvance then { n with commitIndex := n.newCommitIndex }.applyCommittedEntries else n

-- ---------------------------------------------------------------------------
-- State transitions
-- ---------------------------------------------------------------------------

def becomeFollower (term : Nat) (n : RaftNode) : RaftNode :=
  ({ n with state := .follower, currentTerm := term, votedFor := none }
    |>.clearTimers |>.saveState).emit (.stateChange .follower term)

def startElection (n : RaftNode) : RaftNode :=
  { n.resetElectionTimeout with
    elections := n.elections ++ [{
      term := n.currentTerm
      votesNeeded := (n.votingPeers.length + 1) / 2 + 1
      ballots := n.votingPeers.map fun peer => (peer.nodeId, none) }]
    sent := n.sent ++ n.votingPeers.map fun peer => .requestVote {
      epoch := n.epoch
      dst := peer.nodeId
      request := ⟨n.currentTerm, n.nodeId, n.getLastLogIndex, n.getLastLogTerm⟩ } }

def becomeCandidate (n : RaftNode) : RaftNode :=
  ({ n with
      state := .candidate
      currentTerm := n.currentTerm + 1
      votedFor := some n.nodeId
      leaderId := none
      votes := n.votes ++ [Vote.mk (n.currentTerm + 1) n.nodeId n.log] }
    |>.saveState |>.emit (.stateChange .candidate (n.currentTerm + 1))).startElection

/-- `becomeLeader` up to the noop: leader state, `nextIndex` and `matchIndex`
of every peer reset. -/
def takeOffice (n : RaftNode) : RaftNode :=
  ({ n with
      state := .leader
      leaderId := some n.nodeId
      peers := n.peers.assign fun _ => (n.getLastLogIndex + 1, 0)
      led := n.led ++ [Tenure.mk n.epoch n.currentTerm n.log]
      tenure := n.tenure ++ [(n.currentTerm, n.log)] }
    |>.clearTimers).emit (.stateChange .leader n.currentTerm) |>.emit (.leaderElected n.nodeId)

def startHeartbeats (n : RaftNode) : RaftNode := { n with heartbeatInterval := true }

def becomeLeader (n : RaftNode) : RaftNode :=
  (n.takeOffice.appendEntry .noop []).startHeartbeats

/-- The same assignments as `becomeCandidate`, after the two guards. -/
def triggerImmediateElection (n : RaftNode) : RaftNode :=
  if n.state = .leader then n
  else if n.config.nonVoting then n
  else n.clearElectionTimeout.becomeCandidate

def timeoutNow (fromTerm : Nat) (n : RaftNode) : RaftNode :=
  if fromTerm < n.currentTerm then n else n.triggerImmediateElection

def stepDown (n : RaftNode) : RaftNode :=
  if n.state ≠ .leader then n else (n.becomeFollower n.currentTerm).resetElectionTimeout

-- ---------------------------------------------------------------------------
-- RPC handlers
-- ---------------------------------------------------------------------------

/-- The first statement of both handlers. -/
def observeTerm (term : Nat) (n : RaftNode) : RaftNode :=
  if term > n.currentTerm then n.becomeFollower term else n

def canVote (n : RaftNode) (request : RequestVoteRequest) : Bool :=
  n.votedFor = none || n.votedFor = some request.candidateId

def grantVote (request : RequestVoteRequest) (n : RaftNode) : RaftNode :=
  { n with
    votedFor := some request.candidateId
    votes := n.votes ++ [Vote.mk n.currentTerm request.candidateId n.log] }.saveState

def handleRequestVote (request : RequestVoteRequest) (n : RaftNode) :
    RaftNode × RequestVoteResponse :=
  let n := n.observeTerm request.term
  if request.term ≥ n.currentTerm ∧ logOk n.log request ∧ n.canVote request then
    ((n.grantVote request).resetElectionTimeout, ⟨n.currentTerm, true⟩)
  else (n, ⟨n.currentTerm, false⟩)

def noteLeader (leaderId : NodeId) (n : RaftNode) : RaftNode :=
  let noted := { n with leaderId := some leaderId }.resetElectionTimeout
  if n.leaderId ≠ some leaderId then noted.emit (.leaderChanged leaderId) else noted

/-- The consistency check: `prevLogIndex` is looked up by position. -/
def consistent (n : RaftNode) (request : AppendEntriesRequest) : Bool :=
  request.prevLogIndex = 0 ||
    n.log[request.prevLogIndex - 1]?.any (·.term = request.prevLogTerm)

def acceptEntries (request : AppendEntriesRequest) (n : RaftNode) : RaftNode :=
  let log := splice LogEntry.term n.log request.prevLogIndex request.entries
  { n with log := log, held := n.held ++ [(n.currentTerm, log)] }

def commitTo (leaderCommit : Nat) (n : RaftNode) : RaftNode :=
  if leaderCommit > n.commitIndex then
    { n with commitIndex := min leaderCommit n.getLastLogIndex }.applyCommittedEntries
  else n

def handleAppendEntries (request : AppendEntriesRequest) (n : RaftNode) :
    RaftNode × AppendEntriesResponse :=
  let n := n.observeTerm request.term
  if request.term < n.currentTerm then (n, ⟨n.currentTerm, false, 0⟩)
  else
    let n := n.noteLeader request.leaderId
    if !n.consistent request then (n, ⟨n.currentTerm, false, 0⟩)
    else
      let n := (n.acceptEntries request).commitTo request.leaderCommit
      (n, ⟨n.currentTerm, true, n.getLastLogIndex⟩)

-- ---------------------------------------------------------------------------
-- Continuations
-- ---------------------------------------------------------------------------

def castBallot (term : Nat) (peer : NodeId) (vote : Bool) (n : RaftNode) : RaftNode :=
  { n with elections := n.elections.map fun e =>
      if e.term = term then
        { e with ballots := e.ballots.map fun b =>
            if b = (peer, none) then (peer, some vote) else b }
      else e }

def awaitsVote (n : RaftNode) (term : Nat) (peer : NodeId) : Bool :=
  n.elections.any fun e => e.term = term && e.ballots.contains (peer, none)

def handleVoteReply (call : VoteCall) (response : RequestVoteResponse) (n : RaftNode) : RaftNode :=
  if n.awaitsVote call.request.term call.dst then
    if response.term > n.currentTerm then
      (n.becomeFollower response.term).castBallot call.request.term call.dst false
    else n.castBallot call.request.term call.dst response.voteGranted
  else n

def dropElection (e : Election) (n : RaftNode) : RaftNode :=
  { n with elections := n.elections.erase e }

/-- What follows `await Promise.all(votePromises)`: the state is checked, the
term is not. -/
def finishElection (e : Election) (n : RaftNode) : RaftNode :=
  let n := n.dropElection e
  if n.state ≠ .candidate then n
  else if e.votesReceived ≥ e.votesNeeded then n.becomeLeader
  else n

def settleRound (round peer : Nat) (n : RaftNode) : RaftNode :=
  { n with rounds := n.rounds.map fun r =>
      if r.id = round then { r with pending := r.pending.erase peer } else r }

def recordMatch (peer matchIndex : Nat) (n : RaftNode) : RaftNode :=
  { n with peers := n.peers.assign fun p =>
      if p.ref = peer then (matchIndex + 1, matchIndex) else (p.nextIndex, p.matchIndex) }

def decrementNext (peer : Nat) (n : RaftNode) : RaftNode :=
  { n with peers := n.peers.assign fun p =>
      if p.ref = peer then (max 1 (p.nextIndex - 1), p.matchIndex)
      else (p.nextIndex, p.matchIndex) }

/-- What follows the `await` in `replicateToPeer`. Neither the term nor the
state the request was sent in is looked at. -/
def handleAppendReply (call : AppendCall) (response : AppendEntriesResponse) (n : RaftNode) :
    RaftNode :=
  let n :=
    if response.term > n.currentTerm then n.becomeFollower response.term
    else if response.success then n.recordMatch call.peer response.matchIndex
    else n.decrementNext call.peer
  n.settleRound call.round call.peer

/-- What follows `await Promise.all` in `replicateToFollowers`, and the return
of the `appendEntry` that awaited it. The state is not looked at. -/
def finishRound (r : Round) (n : RaftNode) : RaftNode :=
  let n := n.updateCommitIndex
  { n with rounds := n.rounds.erase r, resolved := n.resolved ++ r.entry.toList }

-- ---------------------------------------------------------------------------
-- Life cycle
-- ---------------------------------------------------------------------------

def start (n : RaftNode) : RaftNode :=
  if n.running then n
  else
    let n := { n with running := true }.loadState
    (n.becomeFollower n.currentTerm).resetElectionTimeout

def stop (n : RaftNode) : RaftNode := { n with running := false }.clearTimers

def addPeers (peers : List (NodeId × Bool)) (n : RaftNode) : RaftNode :=
  peers.foldl (fun (n : RaftNode) peer => n.addPeer peer.1 peer.2) n

/-- A new process: the constructor, `addPeer` for each known peer, `start()`. -/
def boot (config : RaftConfig) (peers : List (NodeId × Bool)) : RaftNode :=
  (RaftNode.addPeers peers { config }).start

/-- Crash and restart. The new process has the state file of the old one and
nothing else; replies to calls of the old process reach nobody. -/
def restart (peers : List (NodeId × Bool)) (n : RaftNode) : RaftNode :=
  (RaftNode.addPeers peers
    { config := n.config
      epoch := n.epoch + 1
      stateFile := n.stateFile
      sent := n.sent
      emitted := n.emitted
      votes := n.votes
      led := n.led
      tenure := n.tenure
      held := n.held
      resolved := n.resolved }).start

def fireElectionTimeout (n : RaftNode) : RaftNode :=
  let n := n.clearElectionTimeout
  if n.running ∧ n.state ≠ .leader then n.becomeCandidate else n

def pauseElections (n : RaftNode) : RaftNode :=
  { n with electionsPaused := true }.clearElectionTimeout

def resumeElections (n : RaftNode) : RaftNode :=
  let n := { n with electionsPaused := false }
  if n.running ∧ n.state ≠ .leader then n.resetElectionTimeout else n

/-- Arms the timer also on a non-voting node. -/
def delayNextElection (n : RaftNode) : RaftNode :=
  { n.clearElectionTimeout with electionTimeout := true }

-- ---------------------------------------------------------------------------
-- The node as a machine
-- ---------------------------------------------------------------------------

inductive Input
  | electionTimeout
  | timeoutNow (fromTerm : Nat)
  | stepDown
  | appendEntry (type : LogEntryType) (data : Buffer)
  | heartbeat
  | voteFails (term : Nat) (peer : NodeId)
  | electionEnds (term : Nat)
  | appendFails (round peer : Nat)
  | roundEnds (round : Nat)
  | addPeer (id : NodeId) (votingMember : Bool)
  | removePeer (id : NodeId)
  | pauseElections
  | resumeElections
  | delayNextElection
  | stop
  | start
  | restart (peers : List (NodeId × Bool))
  deriving DecidableEq, Repr

/-- `none` where the input cannot occur: a timer that is not armed, an
election or a round with an RPC still out. -/
def act (n : RaftNode) : Input → Option RaftNode
  | .electionTimeout => if n.electionTimeout then some n.fireElectionTimeout else none
  | .timeoutNow fromTerm => some (n.timeoutNow fromTerm)
  | .stepDown => some n.stepDown
  | .appendEntry type data => some (n.appendEntry type data)
  | .heartbeat =>
    if n.heartbeatInterval then
      some (if n.state = .leader then n.replicateToFollowers none else n)
    else none
  | .voteFails term peer =>
    if n.awaitsVote term peer then some (n.castBallot term peer false) else none
  | .electionEnds term =>
    match n.elections.find? (·.term = term) with
    | some e => if e.settled then some (n.finishElection e) else none
    | none => none
  | .appendFails round peer => some (n.settleRound round peer)
  | .roundEnds round =>
    match n.rounds.find? (·.id = round) with
    | some r => if r.pending = [] then some (n.finishRound r) else none
    | none => none
  | .addPeer id votingMember => some (n.addPeer id votingMember)
  | .removePeer id => some (n.removePeer id)
  | .pauseElections => some n.pauseElections
  | .resumeElections => some n.resumeElections
  | .delayNextElection => some n.delayNextElection
  | .stop => some n.stop
  | .start => some n.start
  | .restart peers => some (n.restart peers)

def send (n : RaftNode) (p : Packet) : RaftNode := { n with sent := n.sent ++ [p] }

/-- The arrival of a packet. A reply reaches only the process that made the call. -/
def receive (n : RaftNode) : Packet → RaftNode
  | .requestVote c =>
    let (n, response) := n.handleRequestVote c.request
    n.send (.voteReply c response)
  | .voteReply c response => if c.epoch = n.epoch then n.handleVoteReply c response else n
  | .appendEntries c =>
    let (n, response) := n.handleAppendEntries c.request
    n.send (.appendReply c response)
  | .appendReply c response => if c.epoch = n.epoch then n.handleAppendReply c response else n

inductive Stimulus
  | input (i : Input)
  | packet (p : Packet)
  deriving DecidableEq, Repr

def step (n : RaftNode) : Stimulus → Option RaftNode
  | .input i => n.act i
  | .packet p => some (n.receive p)

end RaftNode

end ClaudeCluster.Raft
