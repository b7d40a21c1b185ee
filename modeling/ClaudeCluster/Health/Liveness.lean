import ClaudeCluster.Health.Alerts
import ClaudeCluster.Raft.Elections

/-!
# Noticing dead peers

Whether a peer is alive is read off `matchIndex`, by the check, by the report
and by the `GetClusterState` handler alike. In a run of the whole cluster, with
one node watched and its acknowledgements on record, `matchIndex` is the last
index the peer has acknowledged since the node took office
(`Tracked.current`), however long ago that was. So a silent peer is noticed
exactly if it has acknowledged nothing in this office, once something is
committed and no check of the last 90 seconds has seen it replicating.
-/

namespace ClaudeCluster.Health

open Lib (System)
open ClaudeCluster.Membership (NodeInfo)
open Raft (NodeId RaftNode PeerInfo Cluster Packet)
open Raft.RaftNode (Stimulus Move Moves Env Refs)

-- ---------------------------------------------------------------------------
-- GetClusterState
-- ---------------------------------------------------------------------------

structure StateNode where
  node_id : NodeId
  hostname : String
  tailscale_ip : String
  grpc_port : Nat
  role : String
  status : String
  tags : List String
  joined_at : String
  last_seen : String
  deriving DecidableEq, Repr

structure ClusterState where
  leader_id : NodeId
  term : String
  nodes : List StateNode
  deriving DecidableEq, Repr

def upperCase (name : String) : String := .ofList (name.toList.map Char.toUpper)

/-- The loop over the nodes in `getState` of `cluster/state.ts`. -/
def reconcileRole (leaderId : Option NodeId) (n : NodeInfo) : NodeInfo :=
  match leaderId with
  | none => n
  | some leader =>
    if n.nodeId = leader then { n with role := .leader }
    else if n.role = .leader then { n with role := .follower }
    else n

/-- The set `raftAlive`: only a leader puts anything into it. -/
def raftAlive (raft : RaftNode) : List NodeId :=
  if raft.state = .leader then
    raft.nodeId :: (raft.peers.values.filter fun p =>
      p.matchIndex > 0 ∨ raft.commitIndex = 0).map PeerInfo.nodeId
  else []

def stateNode (alive : List NodeId) (n : NodeInfo) : StateNode where
  node_id := n.nodeId
  hostname := n.hostname
  tailscale_ip := n.tailscaleIp
  grpc_port := n.grpcPort
  role := "NODE_ROLE_" ++ upperCase n.role.name
  status := "NODE_STATUS_" ++
    upperCase (if alive.length > 0 ∧ n.nodeId ∈ alive then "active" else n.status.name)
  tags := n.tags
  joined_at := toString n.joinedAt
  last_seen := toString n.lastSeen

/-- `nodes` is `membership.getAllNodes()`. -/
def getClusterState (raft : RaftNode) (nodes : List NodeInfo) : ClusterState where
  leader_id := raft.leaderId.getD ""
  term := toString raft.currentTerm
  nodes := (nodes.map (reconcileRole raft.leaderId)).map (stateNode (raftAlive raft))

-- ---------------------------------------------------------------------------
-- A watched node
-- ---------------------------------------------------------------------------

/-- An acknowledgement: when and by whom, for which peer object, in which
process and which of its offices. -/
structure Ack where
  time : Nat
  peer : NodeId
  ref : Nat
  epoch : Nat
  office : Nat
  matchIndex : Nat
  deriving DecidableEq, Repr

structure Watched where
  cluster : Cluster
  monitor : Monitor
  -- history
  acks : List Ack := []

inductive Act
  | raft (a : Raft.Action)
  | health (e : Event)

namespace Watched

def acknowledgement (me : NodeId) (s : Watched) (a : Raft.Action) : Option Ack :=
  match s.cluster.stimulus a with
  | some (id, .packet (.appendReply c r)) =>
    if id = me ∧ c.epoch = (s.cluster.node me).epoch ∧ r.success ∧
        r.term ≤ (s.cluster.node me).currentTerm then
      some ⟨s.monitor.now, c.dst, c.peer, c.epoch, (s.cluster.node me).led.length, r.matchIndex⟩
    else none
  | _ => none

def restarts (me : NodeId) : Raft.Action → Bool
  | .input id (.restart _) => id = me
  | _ => false

def step (me : NodeId) (s : Watched) : Act → Option Watched
  | .raft a => (s.cluster.step a).map fun w =>
    { cluster := w
      monitor := if restarts me a then s.monitor.restart else s.monitor
      acks := s.acks ++ (s.acknowledgement me a).toList }
  | .health e => (s.monitor.step (s.cluster.node me) e).map fun m => { s with monitor := m }

def Fresh (s : Watched) : Prop := s.cluster.Booted ∧ s.monitor.Fresh ∧ s.acks = []

def PastGrace (me : NodeId) (s : Watched) : Prop :=
  s.monitor.plugin.pastGrace (s.cluster.node me) s.monitor.now = true

instance (me : NodeId) (s : Watched) : Decidable (s.PastGrace me) :=
  inferInstanceAs (Decidable (_ = true))

def lastAcknowledged (s : Watched) (id : NodeId) : Nat :=
  ((s.acks.filter (·.peer = id)).getLast?.map Ack.time).getD 0

def Silent (s : Watched) (id : NodeId) : Prop :=
  s.monitor.now - s.lastAcknowledged id > peerGracePeriodMs

instance (s : Watched) (id : NodeId) : Decidable (s.Silent id) :=
  inferInstanceAs (Decidable (_ > _))

def replicated (me : NodeId) (s : Watched) (p : PeerInfo) : Nat :=
  ((s.acks.filter fun a => a.ref = p.ref ∧ a.epoch = (s.cluster.node me).epoch ∧
    a.office = (s.cluster.node me).led.length).getLast?.map Ack.matchIndex).getD 0

/-- The check takes the peer for unresponsive and does not count it among the
alive voters, the report does not have it as alive, and `GetClusterState`
leaves an offline status as it is. -/
structure SeenDead (me : NodeId) (s : Watched) (p : PeerInfo) : Prop where
  unresponsive : p ∈ s.monitor.plugin.unresponsiveAt (s.cluster.node me) s.monitor.now
  quorum : p ∉ (alivePeers (s.cluster.node me)).filter (·.votingMember)
  report : ∀ nodes lastHeartbeat, (s.monitor.plugin.getHealthReport (s.cluster.node me) nodes
    lastHeartbeat s.monitor.now).alive p.nodeId = false
  state : ∀ nodes : List NodeInfo, (∀ n ∈ nodes, n.nodeId = p.nodeId → n.status = .offline) →
    ∀ n ∈ (getClusterState (s.cluster.node me) nodes).nodes, n.node_id = p.nodeId →
      n.status = "NODE_STATUS_OFFLINE"

def Noticed (me : NodeId) (s : Watched) : Prop :=
  s.PastGrace me → ∀ p ∈ (s.cluster.node me).peers.values, s.Silent p.nodeId →
    s.SeenDead me p

/-- The peer has acknowledged no index in this office, something is committed,
and the last check that saw the peer replicating was long ago. -/
def Unreplicated (me : NodeId) (s : Watched) (p : PeerInfo) : Prop :=
  s.replicated me p = 0 ∧ (s.cluster.node me).commitIndex ≠ 0 ∧
    s.monitor.now - timeOf s.monitor.plugin.peerLastAlive p.nodeId > peerGracePeriodMs

instance (me : NodeId) (s : Watched) (p : PeerInfo) : Decidable (s.Unreplicated me p) :=
  inferInstanceAs (Decidable (_ ∧ _ ∧ _))

end Watched

def watching (me : NodeId) : System Watched Act := ⟨Watched.Fresh, Watched.step me⟩

-- ---------------------------------------------------------------------------
-- What is made of a peer
-- ---------------------------------------------------------------------------

section
variable {raft : RaftNode} {now : Nat} {h : ClusterHealthPlugin} {p q : PeerInfo}

theorem eq_of_nodeId (hp : p ∈ raft.peers.values) (hq : q ∈ raft.peers.values)
    (hid : p.nodeId = q.nodeId) : p = q :=
  List.inj_on_of_nodup_map raft.peers.nodup hp hq hid

theorem timeOf_noteAlive (hp : p ∈ raft.peers.values) (hm : p.matchIndex = 0) :
    timeOf (h.noteAlive raft now).peerLastAlive p.nodeId = timeOf h.peerLastAlive p.nodeId := by
  have hfold : ∀ (peers : List PeerInfo) (times : Lib.Table (Prod.fst : NodeId × Nat → NodeId)),
      (∀ q ∈ peers, q.nodeId = p.nodeId → q.matchIndex = 0) →
      timeOf (peers.foldl (fun times q =>
        if q.matchIndex > 0 then times.put (q.nodeId, now) else times) times) p.nodeId =
        timeOf times p.nodeId := by
    intro peers
    induction peers with
    | nil => exact fun _ _ => rfl
    | cons q peers ih =>
      intro times hq
      rw [List.foldl_cons, ih _ fun x hx => hq x (List.mem_cons_of_mem _ hx)]
      split
      case isTrue hpos =>
        have hne : p.nodeId ≠ q.nodeId := fun hid =>
          absurd (hq q List.mem_cons_self hid.symm) (Nat.ne_of_gt hpos)
        simp [timeOf, Lib.Table.find?_put, hne]
      case isFalse => rfl
  exact hfold _ _ fun q hq hid => eq_of_nodeId hp hq hid.symm ▸ hm

theorem mem_unresponsiveAt : p ∈ h.unresponsiveAt raft now ↔ p ∈ raft.peers.values ∧
    p.matchIndex = 0 ∧ raft.commitIndex ≠ 0 ∧
      now - timeOf h.peerLastAlive p.nodeId > peerGracePeriodMs := by
  unfold ClusterHealthPlugin.unresponsiveAt ClusterHealthPlugin.unresponsivePeers
  rw [List.mem_filter]
  refine and_congr_right fun hp => ?_
  by_cases hm : p.matchIndex = 0
  · rw [timeOf_noteAlive hp hm]
    by_cases hc : raft.commitIndex = 0 <;> simp [hm, hc]
  · simp [hm, Nat.pos_of_ne_zero hm]

theorem not_mem_aliveVoting (hm : p.matchIndex = 0) :
    p ∉ (alivePeers raft).filter (·.votingMember) := by
  simp [alivePeers, hm]

theorem report_not_alive (hs : raft.state = .leader) (hp : p ∈ raft.peers.values)
    (hm : p.matchIndex = 0) (hc : raft.commitIndex ≠ 0) (nodes : List NodeInfo)
    (lastHeartbeat : Nat) :
    (h.getHealthReport raft nodes lastHeartbeat now).alive p.nodeId = false := by
  rw [ClusterHealthPlugin.getHealthReport, if_pos hs]
  simp only [HealthReport.alive, ClusterHealthPlugin.leaderReport, List.any_eq_false,
    List.mem_map]
  rintro _ ⟨q, hq, rfl⟩ halive
  simp only [ClusterHealthPlugin.replicationOf, Bool.and_eq_true] at halive
  obtain ⟨hid, halive⟩ := halive
  cases eq_of_nodeId hq hp (of_decide_eq_true hid)
  simp [hm, hc] at halive

theorem not_mem_raftAlive (hs : raft.state = .leader) (hr : Refs raft)
    (hp : p ∈ raft.peers.values) (hm : p.matchIndex = 0) (hc : raft.commitIndex ≠ 0) :
    p.nodeId ∉ raftAlive raft := by
  rw [raftAlive, if_pos hs, List.mem_cons, not_or]
  refine ⟨(hr p hp).1, ?_⟩
  intro halive
  obtain ⟨q, hq, hid⟩ := List.mem_map.mp halive
  obtain ⟨hq, halive⟩ := List.mem_filter.mp hq
  cases eq_of_nodeId hq hp hid
  simp [hm, hc] at halive

theorem reconcileRole_keeps (leaderId : Option NodeId) (n : NodeInfo) :
    (reconcileRole leaderId n).nodeId = n.nodeId ∧
      (reconcileRole leaderId n).status = n.status := by
  unfold reconcileRole
  split
  · exact ⟨rfl, rfl⟩
  · split
    · exact ⟨rfl, rfl⟩
    · split <;> exact ⟨rfl, rfl⟩

theorem state_offline {id : NodeId} (halive : id ∉ raftAlive raft) {nodes : List NodeInfo}
    (hoff : ∀ n ∈ nodes, n.nodeId = id → n.status = .offline) :
    ∀ n ∈ (getClusterState raft nodes).nodes, n.node_id = id →
      n.status = "NODE_STATUS_OFFLINE" := by
  intro n hn hid
  simp only [getClusterState, List.map_map, List.mem_map, Function.comp_apply] at hn
  obtain ⟨m, hm, rfl⟩ := hn
  obtain ⟨hkid, hkst⟩ := reconcileRole_keeps raft.leaderId m
  have hid : m.nodeId = id := hkid.symm.trans hid
  have hstatus : (reconcileRole raft.leaderId m).status = .offline := hkst.trans (hoff m hm hid)
  simp only [stateNode, hkid, hid, halive, and_false, ↓reduceIte, hstatus]
  decide

end

namespace Watched

variable {me : NodeId} {s s' : Watched} {p : PeerInfo}

theorem seenDead_iff (hg : s.PastGrace me) (hr : Refs (s.cluster.node me))
    (hp : p ∈ (s.cluster.node me).peers.values) :
    s.SeenDead me p ↔ p.matchIndex = 0 ∧ (s.cluster.node me).commitIndex ≠ 0 ∧
      s.monitor.now - timeOf s.monitor.plugin.peerLastAlive p.nodeId > peerGracePeriodMs := by
  constructor
  · intro hd
    exact (mem_unresponsiveAt.mp hd.unresponsive).2
  · rintro ⟨hm, hc, ht⟩
    have hs : (s.cluster.node me).state = .leader := by
      have hg := hg
      simp only [PastGrace, ClusterHealthPlugin.pastGrace, decide_eq_true_eq] at hg
      exact hg.1
    exact {
      unresponsive := mem_unresponsiveAt.mpr ⟨hp, hm, hc, ht⟩
      quorum := not_mem_aliveVoting hm
      report := report_not_alive hs hp hm hc
      state := fun nodes => state_offline (not_mem_raftAlive hs hr hp hm hc) }

end Watched

-- ---------------------------------------------------------------------------
-- Where a match index comes from
-- ---------------------------------------------------------------------------

/-- What a step other than a reply does to the peers: one that is still there
keeps its index in the same process and office, any other starts at 0. -/
structure Carried (n n' : RaftNode) : Prop where
  epoch : n.epoch ≤ n'.epoch
  office : n.led.length ≤ n'.led.length
  refs : n'.epoch = n.epoch → n.nextRef ≤ n'.nextRef
  peers : ∀ p' ∈ n'.peers.values,
    (n'.epoch = n.epoch ∧ n'.led.length = n.led.length ∧
      ∃ p ∈ n.peers.values, p.ref = p'.ref ∧ p.matchIndex = p'.matchIndex) ∨
    (p'.matchIndex = 0 ∧
      (n.epoch < n'.epoch ∨ n.led.length < n'.led.length ∨ n.nextRef ≤ p'.ref))

section
variable {n n' n'' : RaftNode} {env : Env}

theorem Carried.refl (n : RaftNode) : Carried n n :=
  ⟨le_refl _, le_refl _, fun _ => le_refl _, fun p hp => .inl ⟨rfl, rfl, p, hp, rfl, rfl⟩⟩

theorem Carried.trans (h : Carried n n') (h' : Carried n' n'') : Carried n n'' where
  epoch := h.epoch.trans h'.epoch
  office := h.office.trans h'.office
  refs he := by
    have h1 := h.epoch
    have h2 := h'.epoch
    exact (h.refs (by omega)).trans (h'.refs (by omega))
  peers p'' hp'' := by
    have hep := h.epoch
    have hof := h.office
    have hep' := h'.epoch
    rcases h'.peers p'' hp'' with ⟨he', ho', p', hp', href, hmi⟩ | ⟨hz, hnew⟩
    · rcases h.peers p' hp' with ⟨he, ho, p, hp, href', hmi'⟩ | ⟨hz, hnew⟩
      · exact .inl ⟨he'.trans he, ho'.trans ho, p, hp, href'.trans href, hmi'.trans hmi⟩
      · exact .inr ⟨hmi ▸ hz, by omega⟩
    · refine .inr ⟨hz, ?_⟩
      by_cases he : n'.epoch = n.epoch
      · have href := h.refs he
        omega
      · omega

theorem Carried.of_same (he : n'.epoch = n.epoch) (ho : n'.led = n.led)
    (hr : n'.nextRef = n.nextRef) (hp : n'.peers = n.peers) : Carried n n' := by
  refine ⟨he.ge, ho ▸ le_refl _, fun _ => hr.ge, fun p hmem => .inl ⟨he, by rw [ho], p, ?_, rfl, rfl⟩⟩
  rwa [hp] at hmem

theorem addPeers_matchIndex (known : List (NodeId × Bool)) {n : RaftNode}
    (h : ∀ p ∈ n.peers.values, p.matchIndex = 0) :
    ∀ p ∈ (RaftNode.addPeers known n).peers.values, p.matchIndex = 0 := by
  induction known generalizing n with
  | nil => exact h
  | cons k known ih =>
    refine ih ?_
    show ∀ p ∈ (n.addPeer k.1 k.2).peers.values, p.matchIndex = 0
    unfold RaftNode.addPeer
    split
    · exact h
    · intro p hp
      rcases Raft.PeerMap.mem_setValues hp with rfl | hp
      · rfl
      · exact h p hp

theorem start_peers (n : RaftNode) : n.start.peers = n.peers := by
  cases h : n.running with
  | true => simp [RaftNode.start, h]
  | false => rw [RaftNode.start_eq n h]; rfl

theorem restart_matchIndex (known : List (NodeId × Bool)) (n : RaftNode) :
    ∀ p ∈ (n.restart known).peers.values, p.matchIndex = 0 := by
  rw [RaftNode.restart, start_peers]
  exact addPeers_matchIndex known fun _ hp => absurd hp List.not_mem_nil

theorem boot_matchIndex (config : Raft.RaftConfig) (known : List (NodeId × Bool)) :
    ∀ p ∈ (RaftNode.boot config known).peers.values, p.matchIndex = 0 := by
  rw [RaftNode.boot, start_peers]
  exact addPeers_matchIndex known fun _ hp => absurd hp List.not_mem_nil

theorem Carried.move (hpk : ∀ c r, ¬ env.packet (.appendReply c r)) (hm : Move env n n') :
    Carried n n' := by
  cases hm with
  | quiet q =>
    refine ⟨q.epoch.ge, q.led ▸ le_refl _, fun _ => q.nextRef, fun p' hp' => ?_⟩
    rcases q.peers p' hp' with ⟨p, hp, -, href, hmi⟩ | ⟨href, hz⟩
    · exact .inl ⟨q.epoch, by rw [q.led], p, hp, href, hmi⟩
    · exact .inr ⟨hz, .inr (.inr href)⟩
  | takeOffice =>
    have hlen : n.takeOffice.led.length = n.led.length + 1 := List.length_append
    refine ⟨le_refl _, by omega, fun _ => le_refl _, fun p' hp' => .inr ⟨?_, by omega⟩⟩
    obtain ⟨p, -, rfl⟩ := List.mem_map.mp hp'
    rfl
  | matched hp => exact absurd hp (hpk _ _)
  | commit =>
    exact RaftNode.commitTo_keeps (P := Carried n) (.refl n) (fun _ => .of_same rfl rfl rfl rfl) _
  | advance =>
    exact RaftNode.updateCommitIndex_keeps (P := Carried n) (.refl n) fun _ =>
      .of_same rfl rfl rfl rfl
  | @reboot _ known =>
    obtain ⟨peers, nextRef, T, heq, -⟩ := RaftNode.restart_eq known n
    have hep : (n.restart known).epoch = n.epoch + 1 := by rw [heq]
    have hled : (n.restart known).led = n.led := by rw [heq]
    exact ⟨by omega, by rw [hled], by omega, fun p hp =>
      .inr ⟨restart_matchIndex known n p hp, .inl (by omega)⟩⟩
  | _ => exact .of_same rfl rfl rfl rfl

theorem step_carried {st : Stimulus} (h : n.step st = some n')
    (hst : ∀ c r, st ≠ .packet (.appendReply c r)) : Carried n n' := by
  have hallows : (Env.ofPackets (st = .packet ·)).Allows n st := Env.allows_ofPackets fun _ h => h
  have hmoves := RaftNode.step_moves h hallows
  have hno : ∀ c r, ¬ (Env.ofPackets (st = .packet ·)).packet (.appendReply c r) := hst
  clear h
  induction hmoves with
  | refl => exact .refl n
  | tail _ hm ih => exact ih.trans (.move hno hm)

end

namespace Watched

variable {me : NodeId} {s s' : Watched}

structure Tracked (me : NodeId) (s : Watched) : Prop where
  reach : Raft.system.Reach (fun _ _ => True) s.cluster
  past : ∀ a ∈ s.acks, a.epoch ≤ (s.cluster.node me).epoch ∧
    a.office ≤ (s.cluster.node me).led.length ∧
    (a.epoch = (s.cluster.node me).epoch → a.ref < (s.cluster.node me).nextRef)
  current : ∀ p ∈ (s.cluster.node me).peers.values, p.matchIndex = s.replicated me p

theorem Tracked.carried (h : s.Tracked me)
    (hreach : Raft.system.Reach (fun _ _ => True) s'.cluster) (hacks : s'.acks = s.acks)
    (hc : Carried (s.cluster.node me) (s'.cluster.node me)) : s'.Tracked me := by
  have hep := hc.epoch
  have hof := hc.office
  refine ⟨hreach, fun a ha => ?_, fun p' hp' => ?_⟩
  · obtain ⟨hae, hao, har⟩ := h.past a (hacks ▸ ha)
    refine ⟨hae.trans hep, hao.trans hof, fun he => ?_⟩
    have hsame : (s'.cluster.node me).epoch = (s.cluster.node me).epoch := by omega
    exact (har (he.trans hsame)).trans_le (hc.refs hsame)
  · rcases hc.peers p' hp' with ⟨he, ho, p, hp, href, hmi⟩ | ⟨hz, hnew⟩
    · rw [← hmi, h.current p hp]
      simp only [replicated, hacks, href, he, ho]
    · -- none of the acknowledgements is of this object in this office
      have hnone : (s'.acks.filter fun a => a.ref = p'.ref ∧
          a.epoch = (s'.cluster.node me).epoch ∧
          a.office = (s'.cluster.node me).led.length) = [] := by
        refine List.filter_eq_nil_iff.mpr fun a ha => ?_
        obtain ⟨hae, hao, har⟩ := h.past a (hacks ▸ ha)
        rw [decide_eq_true_eq]
        rintro ⟨h1, h2, h3⟩
        by_cases he : a.epoch = (s.cluster.node me).epoch
        · have hlt := har he
          omega
        · omega
      simp only [replicated, hnone, List.getLast?_nil, Option.map_none, Option.getD_none, hz]

theorem Tracked.matched (h : s.Tracked me)
    (hreach : Raft.system.Reach (fun _ _ => True) s'.cluster) {a : Ack}
    (hacks : s'.acks = s.acks ++ [a]) (he : a.epoch = (s.cluster.node me).epoch)
    (ho : a.office = (s.cluster.node me).led.length)
    (href : a.ref < (s.cluster.node me).nextRef)
    (hn : s'.cluster.node me = { (s.cluster.node me).recordMatch a.ref a.matchIndex with
      rounds := (s'.cluster.node me).rounds }) : s'.Tracked me := by
  have hep : (s'.cluster.node me).epoch = (s.cluster.node me).epoch := by rw [hn]; rfl
  have hled : (s'.cluster.node me).led = (s.cluster.node me).led := by rw [hn]; rfl
  have hnext : (s'.cluster.node me).nextRef = (s.cluster.node me).nextRef := by rw [hn]; rfl
  refine ⟨hreach, ?_, fun p' hp' => ?_⟩
  · rw [hacks, hep, hled, hnext]
    refine RaftNode.forall_mem_concat h.past ⟨he.le, ho.le, fun _ => href⟩
  · rw [hn] at hp'
    obtain ⟨p, hp, rfl⟩ := List.mem_map.mp hp'
    have hcur := h.current p hp
    simp only [replicated] at hcur
    simp only [replicated, hacks, hep, hled, List.filter_append]
    by_cases hr : p.ref = a.ref
    · simp [hr, he, ho]
    · simp [hr, Ne.symm hr, hcur]

theorem Tracked.reply (h : s.Tracked me) {w : Cluster} {a : Raft.Action} {c : Raft.AppendCall}
    {r : Raft.AppendEntriesResponse} {m : Monitor} (hreach : Raft.system.Reach (fun _ _ => True) w)
    (hst : s.cluster.stimulus a = some (me, .packet (.appendReply c r)))
    (hn : w.node me = (s.cluster.node me).receive (.appendReply c r)) :
    Tracked me ⟨w, m, s.acks ++ (s.acknowledgement me a).toList⟩ := by
  have hack : s.acknowledgement me a =
      if c.epoch = (s.cluster.node me).epoch ∧ r.success ∧
          r.term ≤ (s.cluster.node me).currentTerm then
        some ⟨s.monitor.now, c.dst, c.peer, c.epoch, (s.cluster.node me).led.length, r.matchIndex⟩
      else none := by
    simp only [acknowledgement, hst, true_and]
  have hkeep : Carried (s.cluster.node me) (w.node me) → s.acknowledgement me a = none →
      Tracked me ⟨w, m, s.acks ++ (s.acknowledgement me a).toList⟩ :=
    fun hc hnone => h.carried hreach (by simp [hnone]) hc
  simp only [RaftNode.receive] at hn
  split at hn
  case isFalse hep => exact hkeep (hn ▸ .refl _) (by rw [hack, if_neg fun h => hep h.1])
  case isTrue hep =>
    simp only [RaftNode.handleAppendReply] at hn
    split at hn
    case isTrue hlt =>
      refine hkeep ?_ (by rw [hack, if_neg fun h => absurd h.2.2 (Nat.not_le.mpr hlt)])
      rw [hn]
      exact .of_same rfl rfl rfl rfl
    case isFalse hle =>
      split at hn
      case isTrue hsucc =>
        obtain ⟨⟨src, hsrc⟩, hid⟩ := Cluster.stimulus_packet hst
        have hw := (Raft.Reach.sound h.reach).traffic
        obtain ⟨-, ⟨y, hy⟩, -⟩ := (hw src).answered c r hsrc
        obtain ⟨hlead, -, hpeer⟩ := (hw y).called c hy
        cases (show c.request.leaderId = me from hid)
        cases hlead
        refine h.matched hreach (a := ⟨s.monitor.now, c.dst, c.peer, c.epoch,
          (s.cluster.node _).led.length, r.matchIndex⟩) ?_ hep rfl (hpeer hep).1 ?_
        · rw [hack, if_pos ⟨hep, hsucc, Nat.not_lt.mp hle⟩]
          rfl
        · show w.node _ = _
          rw [hn]
          rfl
      case isFalse hfail =>
        refine hkeep ?_ (by rw [hack, if_neg fun h => hfail h.2.1])
        have hmove : Move (.ofPackets fun _ => False) (s.cluster.node me)
            ((s.cluster.node me).decrementNext c.peer) :=
          .quiet (RaftNode.quiet_assign _ _ fun p _ => by split <;> rfl)
        have hassign : Carried (s.cluster.node me) ((s.cluster.node me).decrementNext c.peer) :=
          .move (fun _ _ h => h) hmove
        rw [hn]
        exact hassign.trans (.of_same rfl rfl rfl rfl)

theorem Tracked.step {e : Act} (h : s.Tracked me) (hs : s.step me e = some s') :
    s'.Tracked me := by
  cases e with
  | health e =>
    obtain ⟨m, -, rfl⟩ := Option.map_eq_some_iff.mp hs
    exact ⟨h.reach, h.past, h.current⟩
  | raft a =>
    obtain ⟨w, hw, rfl⟩ := Option.map_eq_some_iff.mp hs
    have hreach : Raft.system.Reach (fun _ _ => True) w := h.reach.step trivial hw
    obtain ⟨id, st, n', hst, hn, rfl⟩ := Cluster.step_eq hw
    have hnone : (∀ c r, (id, st) ≠ (me, .packet (.appendReply c r))) →
        s.acknowledgement me a = none := by
      intro hne
      unfold acknowledgement
      split
      case h_1 id' c r heq =>
        rw [hst] at heq
        cases heq
        exact if_neg fun h => hne c r (by rw [h.1])
      case h_2 => rfl
    by_cases hid : id = me
    · subst hid
      have hnode : (s.cluster.set id n').node id = n' := Cluster.set_node_self _ _ _
      by_cases hrep : ∃ c r, st = .packet (.appendReply c r)
      · obtain ⟨c, r, rfl⟩ := hrep
        exact h.reply hreach hst (hnode.trans (Option.some.inj hn).symm)
      · have hrep : ∀ c r, st ≠ .packet (.appendReply c r) := by simpa using hrep
        refine h.carried hreach (by simp [hnone fun c r heq => hrep c r (congrArg Prod.snd heq)]) ?_
        show Carried (s.cluster.node id) ((s.cluster.set id n').node id)
        rw [hnode]
        exact step_carried hn hrep
    · refine h.carried hreach (by simp [hnone fun c r heq => hid (congrArg Prod.fst heq)]) ?_
      show Carried (s.cluster.node me) ((s.cluster.set id n').node me)
      rw [Cluster.set_node_ne _ _ (Ne.symm hid)]
      exact .refl _

theorem Reach.tracked (h : (watching me).Reach (fun _ _ => True) s) : s.Tracked me := by
  refine h.invariant (fun s hs => ?_) fun s e s' _ hi _ hs => hi.step hs
  obtain ⟨hboot, -, hacks⟩ := hs
  refine ⟨.init hboot, by simp [hacks], fun p hp => ?_⟩
  obtain ⟨config, known, -, heq⟩ := hboot me
  rw [heq] at hp
  simp [replicated, hacks, boot_matchIndex config known p hp]

end Watched

-- ---------------------------------------------------------------------------
-- Silent peers
-- ---------------------------------------------------------------------------

/-- In every state of every run, dead peers are noticed if and only if each of
them has acknowledged nothing in this office. -/
theorem noticed_iff_unreplicated {me : NodeId} {s : Watched}
    (h : (watching me).Reach (fun _ _ => True) s) :
    s.Noticed me ↔ (s.PastGrace me → ∀ p ∈ (s.cluster.node me).peers.values,
      s.Silent p.nodeId → s.Unreplicated me p) := by
  have ht := Watched.Reach.tracked h
  have hrefs := ((Raft.Reach.sound ht.reach).traffic me).refs
  have hpeer : ∀ p ∈ (s.cluster.node me).peers.values, s.PastGrace me →
      (s.SeenDead me p ↔ s.Unreplicated me p) := by
    intro p hp hg
    rw [Watched.seenDead_iff hg hrefs hp, ht.current p hp]
    rfl
  constructor
  · intro hn hg p hp hsilent
    exact (hpeer p hp hg).mp (hn hg p hp hsilent)
  · intro hu hg p hp hsilent
    exact (hpeer p hp hg).mpr (hu hg p hp hsilent)

def watchedTrio : Watched := { cluster := Raft.trio, monitor := { now := 1000000 } }

theorem watchedTrio_fresh : (watching "a").init watchedTrio :=
  ⟨Raft.trio_booted, ⟨1000000, 5, rfl⟩, rfl⟩

/-- `a` wins; `c` takes the noop, `b` never answers, and `a` commits. A hundred
seconds later `c` answers a heartbeat. -/
def withoutB : List Act :=
  (Raft.officeA ++ [Raft.Action.deliver "a" 3, .deliver "c" 1, .input "a" (.appendFails 0 0),
    .input "a" (.roundEnds 0)]).map .raft ++
  [.health .check, .health (.elapse 100000), .raft (.input "a" .heartbeat),
    .raft (.deliver "a" 5), .raft (.deliver "c" 2)]

theorem noticed_withoutB : ∃ s, (watching "a").Reach (fun _ _ => True) s ∧
    (s.PastGrace "a" ∧ s.Silent "b") ∧ s.Noticed "a" := by
  obtain ⟨s, hs, hsilent, hpeers⟩ := System.Reach.replay (M := watching "a")
    (G := fun _ _ => True) (P := fun s => (s.PastGrace "a" ∧ s.Silent "b") ∧
      ∀ p ∈ (s.cluster.node "a").peers.values, s.Silent p.nodeId → s.Unreplicated "a" p)
    watchedTrio_fresh withoutB (by decide +kernel)
  exact ⟨s, hs, hsilent, (noticed_iff_unreplicated hs).mpr fun _ => hpeers⟩

/-- Both peers take the noop and are never heard of again. A hundred seconds
later neither is taken for unresponsive, and the quorum counts both. -/
theorem not_noticed_after_noop : ∃ s, (watching "a").Reach (fun _ _ => True) s ∧
    ¬ s.Noticed "a" := by
  obtain ⟨s, hs, hg, p, hp, hsilent, hu⟩ := System.Reach.replay (M := watching "a")
    (G := fun _ _ => True) (P := fun s => s.PastGrace "a" ∧
      ∃ p ∈ (s.cluster.node "a").peers.values, s.Silent p.nodeId ∧
        p ∈ (alivePeers (s.cluster.node "a")).filter (·.votingMember))
    watchedTrio_fresh ((Raft.officeA ++ Raft.roundA).map .raft ++
      [.health .check, .raft (.input "a" .heartbeat), .health (.elapse 100000), .health .check])
    (by decide +kernel)
  exact ⟨s, hs, fun hn => (hn hg p hp hsilent).quorum hu⟩

end ClaudeCluster.Health
