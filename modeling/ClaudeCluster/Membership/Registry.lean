import ClaudeCluster.Lib.Run
import ClaudeCluster.Raft.NodeLaws
import ClaudeCluster.Membership.Manager

/-!
# Managers fed by one log

Any number of membership managers, each with its Raft node. Raft is what it
promises to be: entries handed to a leader may be committed, in one log, and
every process hears of the committed ones in order, at its own pace. Who leads,
and who takes whom for the leader, is left open.

`RegisterNode` calls are in flight from `join` to `receive`; calls of a process
that has ended reach nobody. `step_member` says what a step can do to a member.
-/

namespace ClaudeCluster.Membership

open Lib
open Raft (NodeId RaftNode RaftState RaftConfig)

-- ---------------------------------------------------------------------------
-- The system
-- ---------------------------------------------------------------------------

inductive Progress
  | sent
  /-- The server awaits `approveNode`. -/
  | approving (server : NodeId) (epoch : Nat)
  | answered (response : JoinResponse)
  deriving DecidableEq, Repr

structure Call where
  caller : NodeId
  epoch : Nat
  seedAddress : String
  maxRedirects : Nat
  node : NodeInfo
  progress : Progress
  deriving DecidableEq, Repr

structure Member where
  manager : MembershipManager
  /-- The committed entries it has handled. -/
  applied : Nat := 0

structure Registry where
  log : List Entry := []
  /-- The entries handed to a leader. Which of them commit is up to Raft. -/
  proposed : List Entry := []
  calls : List (Option Call) := []
  member : NodeId → Member

def Member.start (V : List JoinData) (config : MembershipConfig) (raftConfig : RaftConfig) :
    Member where
  manager := V.foldl (fun m data => m.handleNodeJoinCommitted 0 data)
    (.create config (RaftNode.boot raftConfig []) 0)

namespace Registry

inductive Action
  | join (id : NodeId) (seedAddress : String)
  | serve (call : Nat) (server : NodeId) (now : Nat)
  | approved (call : Nat)
  | receive (call : Nat)
  | fail (call : Nat)
  | approve (id : NodeId) (node : NodeInfo)
  | remove (id nodeId : NodeId) (graceful : Bool)
  | commit (entry : Nat)
  | apply (id : NodeId) (now : Nat)
  | stateChange (id : NodeId) (state : RaftState)
  | leaderElected (id : NodeId) (now : Nat)
  | leaderChanged (id newLeaderId : NodeId)
  | heartbeat (id : NodeId) (now : Nat) (leaderAddress : String) (leaderId : NodeId)
  | handleHeartbeat (id : NodeId) (now : Nat) (nodeId : NodeId)
  | detectFailures (id : NodeId) (now : Nat)
  | getState (id : NodeId)
  | restart (id : NodeId) (now : Nat)
  deriving DecidableEq, Repr

def set (w : Registry) (id : NodeId) (m : Member) : Registry :=
  { w with member := fun x => if x = id then m else w.member x }

def manager (w : Registry) (id : NodeId) : MembershipManager := (w.member id).manager

def setManager (w : Registry) (id : NodeId) (m : MembershipManager) : Registry :=
  w.set id { w.member id with manager := m }

def update (w : Registry) (id : NodeId) (f : MembershipManager → MembershipManager) : Registry :=
  w.setManager id (f (w.manager id))

def propose (w : Registry) (entry : Option Entry) : Registry :=
  { w with proposed := w.proposed ++ entry.toList }

def setCall (w : Registry) (k : Nat) (call : Option Call) : Registry :=
  { w with calls := w.calls.set k call }

/-- `joinClusterWithRedirect` up to its `await`. Without redirects left, or
without an entry for the node itself, it returns at once. -/
def call (w : Registry) (id : NodeId) (seedAddress : String) (maxRedirects : Nat) : Registry :=
  match maxRedirects, (w.manager id).getSelfNode with
  | 0, _ => w
  | _, none => w
  | maxRedirects, some node =>
    { w with calls := w.calls ++
        [some ⟨id, (w.manager id).raft.epoch, seedAddress, maxRedirects, node, .sent⟩] }

def serve (w : Registry) (k : Nat) (c : Call) (server : NodeId) (now : Nat) : Registry :=
  match (w.manager server).handleJoinRequest (MembershipManager.requestedNode now c.node) with
  | .answered response => w.setCall k (some { c with progress := .answered response })
  | .approving entry =>
    (w.propose entry).setCall k
      (some { c with progress := .approving server (w.manager server).raft.epoch })

def receive (w : Registry) (k : Nat) (c : Call) (response : JoinResponse) : Registry :=
  let (m, redirect) := (w.manager c.caller).handleJoinResponse c.seedAddress response
  let w := (w.setManager c.caller m).setCall k none
  match redirect with
  | some address => w.call c.caller address (c.maxRedirects - 1)
  | none => w

/-- Raft enters a state: a candidate knows no leader, a leader itself. -/
def enter (state : RaftState) (m : MembershipManager) : MembershipManager :=
  { m with raft := { m.raft with
      state := state
      leaderId := match state with
        | .leader => some m.raft.nodeId
        | .candidate => none
        | .follower => m.raft.leaderId } }

def restart (now : Nat) (m : MembershipManager) : Member where
  manager := .create m.config (m.raft.restart []) now

def step (w : Registry) : Action → Option Registry
  | .join id seedAddress => some (w.call id seedAddress 3)
  | .serve k server now =>
    match w.calls[k]? with
    | some (some c) => if c.progress = .sent then some (w.serve k c server now) else none
    | _ => none
  | .approved k =>
    match w.calls[k]? with
    | some (some c) =>
      match c.progress with
      | .approving server epoch =>
        if (w.manager server).raft.epoch = epoch then
          some (w.setCall k
            (some { c with progress := .answered (w.manager server).approvedResponse }))
        else none
      | _ => none
    | _ => none
  | .receive k =>
    match w.calls[k]? with
    | some (some c) =>
      match c.progress with
      | .answered response =>
        if (w.manager c.caller).raft.epoch = c.epoch then some (w.receive k c response) else none
      | _ => none
    | _ => none
  | .fail k => some (w.setCall k none)
  | .approve id node => some (w.propose ((w.manager id).approveNode node))
  | .remove id nodeId graceful =>
    let (m, entry) := (w.manager id).removeNode nodeId graceful
    some ((w.setManager id m).propose entry)
  | .commit k => w.proposed[k]?.map fun entry => { w with log := w.log ++ [entry] }
  | .apply id now =>
    w.log[(w.member id).applied]?.map fun entry =>
      w.set id {
        manager := (w.manager id).handleCommittedEntry now entry
        applied := (w.member id).applied + 1 }
  | .stateChange id state => some (w.update id fun m => (enter state m).onStateChange state)
  | .leaderElected id now =>
    if (w.manager id).isLeader then some (w.update id (·.onLeaderElected now)) else none
  | .leaderChanged id newLeaderId =>
    some (w.update id fun m =>
      { m with raft := { m.raft with leaderId := some newLeaderId } }.onLeaderChanged newLeaderId)
  | .heartbeat id now leaderAddress leaderId =>
    some (w.update id (·.onHeartbeat now leaderAddress leaderId))
  | .handleHeartbeat id now nodeId => some (w.update id (·.handleHeartbeat now nodeId))
  | .detectFailures id now => some (w.update id (·.detectFailures now))
  | .getState id => some (w.update id (·.reconcileRoles))
  | .restart id now => some (w.set id (restart now (w.manager id)))

end Registry

def registry (V : List JoinData) : System Registry Registry.Action where
  init w := w.log = [] ∧ w.proposed = [] ∧ w.calls = [] ∧
    ∀ id, ∃ config raftConfig, config.nodeId = id ∧ raftConfig.nodeId = id ∧
      w.member id = Member.start V config raftConfig
  step := Registry.step

-- ---------------------------------------------------------------------------
-- Methods that leave the peers alone
-- ---------------------------------------------------------------------------

def Workless (nodes : Table NodeInfo.nodeId) : Prop := ∀ node ∈ nodes.rows, node.role ≠ .worker

section
variable {nodes : Table NodeInfo.nodeId}

theorem Workless.put (h : Workless nodes) {node : NodeInfo} (hn : node.role ≠ .worker) :
    Workless (nodes.put node) := by
  intro x hx
  rcases Table.mem_putRows hx with rfl | hx
  · exact hn
  · exact h x hx

theorem Workless.map {f : NodeInfo → NodeInfo} {rows : List NodeInfo}
    (h : Workless nodes) (hf : ∀ node, node.role ≠ .worker → (f node).role ≠ .worker)
    (heq : rows = nodes.rows.map f) : ∀ node ∈ rows, node.role ≠ .worker := by
  subst heq
  intro x hx
  obtain ⟨node, hn, rfl⟩ := List.mem_map.mp hx
  exact hf node (h node hn)

theorem Workless.modify (h : Workless nodes) {id : NodeId} {f : NodeInfo → NodeInfo}
    (hid : ∀ node, (f node).nodeId = node.nodeId)
    (hf : ∀ node, node.role ≠ .worker → (f node).role ≠ .worker) :
    Workless (nodes.modify id f hid) := by
  refine h.map (f := fun node => if node.nodeId = id then f node else node) ?_ rfl
  intro node hn
  split
  · exact hf node hn
  · exact hn

end

namespace MembershipManager

def Knows (m : MembershipManager) (id : NodeId) : Prop := id ∈ m.nodes.rows.map NodeInfo.nodeId

theorem knows_iff (m : MembershipManager) (id : NodeId) :
    (m.nodes.find? id).isSome ↔ m.Knows id := by
  rw [Knows, ← not_iff_not, ← Table.find?_eq_none]
  simp

structure Idle (m m' : MembershipManager) : Prop where
  config : m'.config = m.config
  raftId : m'.raft.nodeId = m.raft.nodeId
  peers : m'.raft.peers = m.raft.peers
  knows : ∀ id, m.Knows id → m'.Knows id
  workless : Workless m.nodes → Workless m'.nodes

section
variable {m m' m'' : MembershipManager}

theorem Idle.refl (m : MembershipManager) : Idle m m := ⟨rfl, rfl, rfl, fun _ h => h, fun h => h⟩

theorem Idle.trans (h : Idle m m') (h' : Idle m' m'') : Idle m m'' :=
  ⟨h'.config.trans h.config, h'.raftId.trans h.raftId, h'.peers.trans h.peers,
    fun id hk => h'.knows id (h.knows id hk), fun hw => h'.workless (h.workless hw)⟩

theorem idle_leaderAddress (m : MembershipManager) (address : Option String) :
    Idle m { m with leaderAddress := address } := { Idle.refl m with }

theorem idle_modify (m : MembershipManager) (id : NodeId) {f : NodeInfo → NodeInfo}
    (hid : ∀ node, (f node).nodeId = node.nodeId)
    (hf : ∀ node, node.role ≠ .worker → (f node).role ≠ .worker) :
    Idle m { m with nodes := m.nodes.modify id f hid } := by
  refine { Idle.refl m with knows := ?_, workless := fun h => h.modify hid hf }
  intro x hx
  rw [Knows, Table.keys_modify]
  exact hx

theorem idle_mapRows (m : MembershipManager) {f : NodeInfo → NodeInfo}
    (hid : ∀ node, (f node).nodeId = node.nodeId)
    (hf : ∀ node, node.role ≠ .worker → (f node).role ≠ .worker) :
    Idle m { m with nodes := m.nodes.mapRows f hid } := by
  refine { Idle.refl m with knows := ?_, workless := fun h => h.map hf rfl }
  intro x hx
  simpa [Knows, Table.mapRows, hid] using hx

theorem idle_setStatus (m : MembershipManager) (id : NodeId) (status : NodeStatus) :
    Idle m (m.setStatus id status) :=
  idle_modify m id _ fun _ h => h

theorem idle_setRole (m : MembershipManager) (id : NodeId) {role : NodeRole}
    (h : role ≠ .worker) : Idle m (m.setRole id role) :=
  idle_modify m id _ fun _ _ => h

theorem idle_demote (m : MembershipManager) (keep : NodeId → Bool) : Idle m (m.demote keep) := by
  refine idle_mapRows m _ ?_
  intro node h
  split
  · simp
  · exact h

theorem idle_put (m : MembershipManager) {node : NodeInfo} (h : node.role ≠ .worker) :
    Idle m { m with nodes := m.nodes.put node } := by
  refine { Idle.refl m with knows := ?_, workless := fun hw => hw.put h }
  intro x hx
  rw [← knows_iff] at hx ⊢
  rw [Table.find?_put]
  split
  · rfl
  · exact hx

theorem idle_onStateChange (m : MembershipManager) (state : RaftState) :
    Idle m (m.onStateChange state) := by
  have hrole : NodeRole.ofRaft state ≠ .worker := by cases state <;> simp [NodeRole.ofRaft]
  have hset := idle_setRole m m.config.nodeId hrole
  simp only [onStateChange]
  split
  · split
    · exact hset.trans (idle_leaderAddress _ _)
    · exact hset
  · exact hset

theorem idle_onLeaderElected (m : MembershipManager) (now : Nat) :
    Idle m (m.onLeaderElected now) := by
  unfold onLeaderElected
  generalize m.raft.peers.values = peers
  induction peers generalizing m with
  | nil => exact .refl m
  | cons peer peers ih =>
    rw [List.foldl_cons]
    split
    · exact ih m
    · exact (idle_put m (by simp [nodeOfPeer])).trans (ih _)

theorem idle_onLeaderChanged (m : MembershipManager) (newLeaderId : NodeId) :
    Idle m (m.onLeaderChanged newLeaderId) := by
  have hdem := idle_demote m (· = m.config.nodeId)
  simp only [onLeaderChanged]
  split
  · exact (hdem.trans (idle_setRole _ newLeaderId (by simp))).trans (idle_leaderAddress _ _)
  · exact hdem

theorem idle_onHeartbeat (m : MembershipManager) (now : Nat) (leaderAddress : String)
    (leaderId : NodeId) : Idle m (m.onHeartbeat now leaderAddress leaderId) := by
  have hseen := (idle_modify m m.config.nodeId (f := fun node => { node with lastSeen := now })
    (fun _ => rfl) fun _ h => h).trans
      (idle_leaderAddress _ (if leaderAddress = "" then m.leaderAddress else some leaderAddress))
  simp only [onHeartbeat]
  split
  · exact hseen
  · exact (hseen.trans (idle_demote _ _)).trans (idle_setRole _ _ (by simp))

theorem idle_detectFailures (m : MembershipManager) (now : Nat) :
    Idle m (m.detectFailures now) := by
  refine idle_mapRows m _ ?_
  intro node h
  split
  · exact h
  · split <;> exact h

theorem idle_reconcileRoles (m : MembershipManager) : Idle m m.reconcileRoles := by
  unfold reconcileRoles
  split
  · exact .refl m
  · exact (idle_demote m _).trans (idle_setRole _ _ (by simp))

theorem idle_removeNode (m : MembershipManager) (nodeId : NodeId) (graceful : Bool) :
    Idle m (m.removeNode nodeId graceful).1 := by
  unfold removeNode
  split
  · dsimp only
    split
    · exact idle_setStatus m nodeId _
    · exact .refl m
  · exact .refl m

end

end MembershipManager

-- ---------------------------------------------------------------------------
-- Steps
-- ---------------------------------------------------------------------------

namespace Registry

open MembershipManager

inductive Becomes (w : Registry) (a : Action) (id : NodeId) : Member → Prop
  | idle : Idle (w.manager id) m → Becomes w a id ⟨m, (w.member id).applied⟩
  | applied : a = .apply id now → w.log[(w.member id).applied]? = some entry →
      Becomes w a id ⟨(w.manager id).handleCommittedEntry now entry, (w.member id).applied + 1⟩
  | received : a = .receive k → w.calls[k]? = some (some c) → c.caller = id →
      c.progress = .answered response →
      Becomes w a id
        ⟨((w.manager id).handleJoinResponse c.seedAddress response).1, (w.member id).applied⟩
  | restarted : a = .restart id now → Becomes w a id (restart now (w.manager id))

section
variable {w w' : Registry} {a : Action} {id x : NodeId}

theorem Becomes.same : Becomes w a id (w.member id) := .idle (.refl _)

theorem becomes_setManager {m : MembershipManager} (h : Idle (w.manager x) m) :
    Becomes w a id ((w.setManager x m).member id) := by
  simp only [setManager, set]
  split
  case isTrue hx =>
    subst hx
    exact .idle h
  case isFalse => exact .same

@[simp] theorem member_call (w : Registry) (x : NodeId) (address : String) (k : Nat) :
    (w.call x address k).member = w.member := by
  unfold call
  split <;> rfl

@[simp] theorem log_call (w : Registry) (x : NodeId) (address : String) (k : Nat) :
    (w.call x address k).log = w.log := by
  unfold call
  split <;> rfl

theorem member_receive (w : Registry) (k : Nat) (c : Call) (response : JoinResponse) :
    (w.receive k c response).member =
      (w.setManager c.caller
        ((w.manager c.caller).handleJoinResponse c.seedAddress response).1).member := by
  simp only [receive]
  split
  · rw [member_call]
    rfl
  · rfl

-- what the three steps of a call in flight find and leave

theorem step_serve {k : Nat} {server : NodeId} {now : Nat}
    (h : w.step (.serve k server now) = some w') : ∃ c, w' = w.serve k c server now := by
  simp only [step] at h
  split at h
  case h_1 c _ =>
    simp only [Option.ite_none_right_eq_some, Option.some.injEq] at h
    exact ⟨c, h.2.symm⟩
  case h_2 => cases h

theorem step_approved {k : Nat} (h : w.step (.approved k) = some w') :
    ∃ (c : Call) (server : NodeId), w' =
      w.setCall k (some { c with progress := .answered (w.manager server).approvedResponse }) := by
  simp only [step] at h
  split at h
  case h_1 c _ =>
    split at h
    case h_1 server epoch _ =>
      simp only [Option.ite_none_right_eq_some, Option.some.injEq] at h
      exact ⟨c, server, h.2.symm⟩
    case h_2 => cases h
  case h_2 => cases h

theorem step_receive {k : Nat} (h : w.step (.receive k) = some w') :
    ∃ c response, w.calls[k]? = some (some c) ∧ c.progress = .answered response ∧
      w' = w.receive k c response := by
  simp only [step] at h
  split at h
  case h_1 c hk =>
    split at h
    case h_1 response hp =>
      simp only [Option.ite_none_right_eq_some, Option.some.injEq] at h
      exact ⟨c, response, hk, hp, h.2.symm⟩
    case h_2 => cases h
  case h_2 => cases h

theorem becomes_receive {k : Nat} {c : Call} {response : JoinResponse}
    (hk : w.calls[k]? = some (some c)) (hp : c.progress = .answered response) :
    Becomes w (.receive k) id ((w.receive k c response).member id) := by
  rw [member_receive]
  simp only [setManager, set]
  split
  case isTrue hx =>
    subst hx
    exact .received rfl hk rfl hp
  case isFalse => exact .same

theorem step_member (h : w.step a = some w') (id : NodeId) : Becomes w a id (w'.member id) := by
  cases a with
  | join x seedAddress =>
    cases h
    rw [member_call]
    exact .same
  | serve k server now =>
    obtain ⟨c, rfl⟩ := step_serve h
    unfold serve
    split <;> exact .same
  | approved k =>
    obtain ⟨c, server, rfl⟩ := step_approved h
    exact .same
  | receive k =>
    obtain ⟨c, response, hk, hp, rfl⟩ := step_receive h
    exact becomes_receive hk hp
  | fail k =>
    cases h
    exact .same
  | approve x node =>
    cases h
    exact .same
  | remove x nodeId graceful =>
    cases h
    exact becomes_setManager (idle_removeNode _ nodeId graceful)
  | commit k =>
    obtain ⟨entry, -, rfl⟩ := Option.map_eq_some_iff.mp h
    exact .same
  | apply x now =>
    obtain ⟨entry, he, rfl⟩ := Option.map_eq_some_iff.mp h
    simp only [set]
    split
    case isTrue hx =>
      subst hx
      exact .applied rfl he
    case isFalse => exact .same
  | stateChange x state =>
    cases h
    refine becomes_setManager (Idle.trans ?_ (idle_onStateChange _ state))
    exact { Idle.refl _ with }
  | leaderElected x now =>
    simp only [step, Option.ite_none_right_eq_some, Option.some.injEq] at h
    obtain ⟨-, rfl⟩ := h
    exact becomes_setManager (idle_onLeaderElected _ now)
  | leaderChanged x newLeaderId =>
    cases h
    refine becomes_setManager (Idle.trans ?_ (idle_onLeaderChanged _ newLeaderId))
    exact { Idle.refl _ with }
  | heartbeat x now leaderAddress leaderId =>
    cases h
    exact becomes_setManager (idle_onHeartbeat _ now leaderAddress leaderId)
  | handleHeartbeat x now nodeId =>
    cases h
    exact becomes_setManager (idle_modify _ nodeId _ fun _ h => h)
  | detectFailures x now =>
    cases h
    exact becomes_setManager (idle_detectFailures _ now)
  | getState x =>
    cases h
    exact becomes_setManager (idle_reconcileRoles _)
  | restart x now =>
    cases h
    simp only [set]
    split
    case isTrue hx =>
      subst hx
      exact .restarted rfl
    case isFalse => exact .same

theorem step_log (h : w.step a = some w') : w.log <+: w'.log := by
  cases a with
  | join x seedAddress =>
    cases h
    rw [log_call]
  | serve k server now =>
    obtain ⟨c, rfl⟩ := step_serve h
    unfold serve
    split <;> exact List.prefix_refl _
  | approved k =>
    obtain ⟨c, server, rfl⟩ := step_approved h
    exact List.prefix_refl _
  | receive k =>
    obtain ⟨c, response, -, -, rfl⟩ := step_receive h
    simp only [receive]
    split
    · rw [log_call]
      exact List.prefix_refl _
    · exact List.prefix_refl _
  | commit k =>
    obtain ⟨entry, -, rfl⟩ := Option.map_eq_some_iff.mp h
    exact List.prefix_append _ _
  | apply x now =>
    obtain ⟨entry, -, rfl⟩ := Option.map_eq_some_iff.mp h
    exact List.prefix_refl _
  | leaderElected x now =>
    simp only [step, Option.ite_none_right_eq_some, Option.some.injEq] at h
    obtain ⟨-, rfl⟩ := h
    exact List.prefix_refl _
  | _ =>
    cases h
    exact List.prefix_refl _

def Responded (w : Registry) (response : JoinResponse) : Prop :=
  ∃ c, some c ∈ w.calls ∧ c.progress = .answered response

theorem responded_setCall {k : Nat} {call : Option Call} {response : JoinResponse}
    (h : (w.setCall k call).Responded response) :
    w.Responded response ∨ ∃ c, call = some c ∧ c.progress = .answered response := by
  obtain ⟨c, hc, hp⟩ := h
  rcases List.mem_or_eq_of_mem_set hc with hc | hc
  · exact .inl ⟨c, hc, hp⟩
  · exact .inr ⟨c, hc.symm, hp⟩

theorem responded_call {address : String} {k : Nat} {response : JoinResponse}
    (h : (w.call x address k).Responded response) : w.Responded response := by
  unfold call at h
  split at h
  · exact h
  · exact h
  · obtain ⟨c, hc, hp⟩ := h
    rcases List.mem_append.mp hc with hc | hc
    · exact ⟨c, hc, hp⟩
    · cases List.mem_singleton.mp hc
      cases hp

/-- Neither a redirect nor the answer that the approval is pending lists anybody. -/
theorem peers_of_answered {m : MembershipManager} {node : NodeInfo} {response : JoinResponse}
    (h : m.handleJoinRequest node = .answered response) : response.peers = [] := by
  unfold handleJoinRequest at h
  split at h
  · cases h
    rfl
  · split at h
    · cases h
    · cases h
      rfl

theorem step_responded {response : JoinResponse} (h : w.step a = some w')
    (hr : w'.Responded response) :
    w.Responded response ∨ response.peers = [] ∨
      ∃ server, response = (w.manager server).approvedResponse := by
  cases a with
  | join x seedAddress =>
    cases h
    exact .inl (responded_call hr)
  | serve k server now =>
    obtain ⟨c, rfl⟩ := step_serve h
    unfold serve at hr
    split at hr
    case h_1 answer hj =>
      rcases responded_setCall hr with hr | ⟨c', hc', hp⟩
      · exact .inl hr
      · cases hc'
        cases hp
        exact .inr (.inl (peers_of_answered hj))
    case h_2 =>
      rcases responded_setCall hr with hr | ⟨c', hc', hp⟩
      · exact .inl hr
      · cases hc'
        cases hp
  | approved k =>
    obtain ⟨c, server, rfl⟩ := step_approved h
    rcases responded_setCall hr with hr | ⟨c', hc', hp⟩
    · exact .inl hr
    · cases hc'
      cases hp
      exact .inr (.inr ⟨server, rfl⟩)
  | receive k =>
    obtain ⟨c, answer, -, -, rfl⟩ := step_receive h
    have hdone : (w.setCall k none).Responded response := by
      simp only [receive] at hr
      split at hr
      · have hr := responded_call hr
        exact hr
      · exact hr
    rcases responded_setCall hdone with hr | ⟨c', hc', -⟩
    · exact .inl hr
    · cases hc'
  | fail k =>
    cases h
    rcases responded_setCall hr with hr | ⟨c', hc', -⟩
    · exact .inl hr
    · cases hc'
  | commit k =>
    obtain ⟨entry, -, rfl⟩ := Option.map_eq_some_iff.mp h
    exact .inl hr
  | apply x now =>
    obtain ⟨entry, he, rfl⟩ := Option.map_eq_some_iff.mp h
    exact .inl hr
  | leaderElected x now =>
    simp only [step, Option.ite_none_right_eq_some, Option.some.injEq] at h
    obtain ⟨-, rfl⟩ := h
    exact .inl hr
  | _ =>
    cases h
    exact .inl hr

end

end Registry

end ClaudeCluster.Membership
