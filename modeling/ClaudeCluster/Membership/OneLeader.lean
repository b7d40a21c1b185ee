import ClaudeCluster.Membership.Events

/-!
# Who the members take for the leader

The map of a manager marks at most one leader, and itself just while it leads,
as long as every event meets `KeepsOneLeader`. The condition is exact: the first
event that does not meet it breaks the property (`oneLeader_deliver`). A node
that wins an election does not demote the leader it followed, and its own
`node_join` entry demotes a leader.
-/

namespace ClaudeCluster.Membership

open Lib
open Raft (NodeId RaftNode RaftState RaftConfig)

namespace MembershipManager

-- ---------------------------------------------------------------------------
-- One leader
-- ---------------------------------------------------------------------------

/-- At most one node is marked, and the node itself just while it leads. -/
structure OneLeader (m : MembershipManager) : Prop where
  unique : ∀ x y, Marked m.nodes x → Marked m.nodes y → x = y
  own : Marked m.nodes m.config.nodeId ↔ m.raft.state = .leader

/-- A node named leader is, where the map has it, the node itself just if that leads. -/
def NamesLeader (m : MembershipManager) (id : NodeId) : Prop :=
  (m.nodes.find? id).isSome → (id = m.config.nodeId ↔ m.raft.state = .leader)

def KeepsOneLeader (m : MembershipManager) : Event → Prop
  | .stateChange state =>
    state = .leader →
      (m.nodes.find? m.config.nodeId).isSome ∧ ∀ x, Marked m.nodes x → x = m.config.nodeId
  | .leaderChanged newLeaderId => m.NamesLeader newLeaderId
  | .entryCommitted _ (.nodeJoin data) => data.nodeId = m.config.nodeId → m.raft.state ≠ .leader
  | .entryCommitted _ (.nodeLeave nodeId) => nodeId = m.config.nodeId → m.raft.state ≠ .leader
  | .heartbeatResponse _ _ leaderId => leaderId ≠ "" → m.NamesLeader leaderId
  | .joinResponse _ response =>
    let leads x := (recordAmong (m.takenPeers response) m.nodes x).any (·.role = .leader)
    ∀ x y, leads x → leads y → x = y
  | .getState =>
    ∀ leaderId, m.raft.leaderId = some leaderId → leaderId ≠ "" →
      (m.config.nodeId = leaderId ∧ (m.nodes.find? leaderId).isSome ↔ m.raft.state = .leader)
  | _ => True

section
variable {m m' : MembershipManager} {id : NodeId}

theorem oneLeader_congr (hconfig : m'.config = m.config) (hstate : m'.raft.state = m.raft.state)
    (hmarked : ∀ x, Marked m'.nodes x ↔ Marked m.nodes x) : OneLeader m' ↔ OneLeader m := by
  constructor
  · intro ⟨hunique, hown⟩
    refine ⟨fun x y hx hy => hunique x y ((hmarked x).mpr hx) ((hmarked y).mpr hy), ?_⟩
    rw [← hmarked, ← hconfig, hown, hstate]
  · intro ⟨hunique, hown⟩
    refine ⟨fun x y hx hy => hunique x y ((hmarked x).mp hx) ((hmarked y).mp hy), ?_⟩
    rw [hmarked, hconfig, hown, hstate]

theorem oneLeader_idle (h : OneLeader m) {e : Event} (he : m.KeepsOneLeader e)
    (hconfig : m'.config = m.config) (hstate : m'.raft.state = m.raft.state)
    (hmarked : ∀ x, Marked m'.nodes x ↔ Marked m.nodes x) :
    OneLeader m' ↔ m.KeepsOneLeader e :=
  iff_of_true ((oneLeader_congr hconfig hstate hmarked).mpr h) he

theorem oneLeader_promoted (h : OneLeader m) (hconfig : m'.config = m.config)
    (hstate : m'.raft.state = m.raft.state)
    (hmarked : ∀ x, Marked m'.nodes x ↔
      if x = id then (m.nodes.find? id).isSome = true else x = m.config.nodeId ∧ Marked m.nodes x) :
    OneLeader m' ↔ m.NamesLeader id := by
  constructor
  · intro ⟨hunique, hown⟩ hknown
    have hid : Marked m'.nodes id := by rw [hmarked, if_pos rfl]; exact hknown
    rw [hconfig, hstate] at hown
    rw [← hown]
    constructor
    · rintro rfl
      exact hid
    · exact fun hself => hunique _ _ hid hself
  · intro hnames
    by_cases hknown : (m.nodes.find? id).isSome
    · have hiff := hnames hknown
      constructor
      · -- whoever is marked is the node named
        have hall : ∀ x, Marked m'.nodes x → x = id := by
          intro x hx
          rw [hmarked] at hx
          by_contra hne
          rw [if_neg hne] at hx
          obtain ⟨rfl, hself⟩ := hx
          exact hne (hiff.mpr (h.own.mp hself)).symm
        exact fun x y hx hy => (hall x hx).trans (hall y hy).symm
      · rw [hmarked, hconfig, hstate]
        split
        case isTrue hself => simpa [hknown] using hiff.mp hself.symm
        case isFalse hself => simpa using h.own
    · have hnobody : ¬Marked m.nodes id := fun hm => hknown hm.known
      have hall : ∀ x, Marked m'.nodes x ↔ x = m.config.nodeId ∧ Marked m.nodes x := by
        intro x
        rw [hmarked]
        split
        case isTrue hx => simp [hx, hknown, hnobody]
        case isFalse => rfl
      refine ⟨fun x y hx hy => ?_, ?_⟩
      · exact ((hall x).mp hx).1.trans ((hall y).mp hy).1.symm
      · rw [hall, hconfig, hstate]
        simpa using h.own

theorem oneLeader_erased (h : OneLeader m) (hconfig : m'.config = m.config)
    (hstate : m'.raft.state = m.raft.state)
    (hmarked : ∀ x, Marked m'.nodes x ↔ x ≠ id ∧ Marked m.nodes x) :
    OneLeader m' ↔ (id = m.config.nodeId → m.raft.state ≠ .leader) := by
  constructor
  · intro ⟨_, hown⟩ hid hleads
    rw [hmarked, hconfig, hstate] at hown
    exact (hown.mpr hleads).1 hid.symm
  · intro hself
    refine ⟨fun x y hx hy => h.unique x y ((hmarked x).mp hx).2 ((hmarked y).mp hy).2, ?_⟩
    rw [hmarked, hconfig, hstate, h.own]
    exact ⟨And.right, fun hleads => ⟨fun hid => hself hid.symm hleads, hleads⟩⟩

theorem oneLeader_stateChange (h : OneLeader m) (state : RaftState) :
    OneLeader (m.deliver (.stateChange state)) ↔ m.KeepsOneLeader (.stateChange state) := by
  have hconfig : (m.deliver (.stateChange state)).config = m.config :=
    onStateChange_config (m := Registry.enter state m) state
  have hstate : (m.deliver (.stateChange state)).raft.state = state :=
    congrArg RaftNode.state (onStateChange_raft (m := Registry.enter state m) state)
  have hmarked : ∀ x, Marked (m.deliver (.stateChange state)).nodes x ↔
      if x = m.config.nodeId then (m.nodes.find? x).isSome ∧ state = .leader
      else Marked m.nodes x :=
    fun x => marked_onStateChange (m := Registry.enter state m) state
  constructor
  · intro ⟨hunique, hown⟩ hleads
    rw [hconfig, hstate] at hown
    have hself := hown.mpr hleads
    refine ⟨?_, fun x hx => ?_⟩
    · rw [hmarked, if_pos rfl] at hself
      exact hself.1
    · by_contra hne
      exact hne (hunique x _ (by rwa [hmarked, if_neg hne]) hself)
  · intro hkeeps
    constructor
    · intro x y hx hy
      rw [hmarked] at hx hy
      by_cases hleads : state = .leader
      · -- all the marks there are are its own
        have hself : ∀ z, (if z = m.config.nodeId then (m.nodes.find? z).isSome ∧ state = .leader
            else Marked m.nodes z) → z = m.config.nodeId := by
          intro z hz
          by_contra hne
          rw [if_neg hne] at hz
          exact hne ((hkeeps hleads).2 z hz)
        exact (hself x hx).trans (hself y hy).symm
      · have hold : ∀ z, (if z = m.config.nodeId then (m.nodes.find? z).isSome ∧ state = .leader
            else Marked m.nodes z) → Marked m.nodes z := by
          intro z hz
          split at hz
          · exact absurd hz.2 hleads
          · exact hz
        exact h.unique x y (hold x hx) (hold y hy)
    · rw [hmarked, hconfig, hstate, if_pos rfl]
      exact ⟨And.right, fun hleads => ⟨(hkeeps hleads).1, hleads⟩⟩

theorem oneLeader_nodeJoin (h : OneLeader m) (now : Nat) (data : JoinData) :
    OneLeader (m.handleNodeJoinCommitted now data) ↔
      (data.nodeId = m.config.nodeId → m.raft.state ≠ .leader) := by
  refine oneLeader_erased h rfl (addPeer_raft ..).1 fun x => ?_
  have hput : Marked (m.nodes.put (data.toNode now)) x ↔ _ := marked_put
  refine hput.trans ?_
  split
  case isTrue hx => simp [show x = data.nodeId from hx, JoinData.toNode]
  case isFalse hx => simp [show x ≠ data.nodeId from hx]

theorem oneLeader_nodeLeave (h : OneLeader m) (nodeId : NodeId) :
    OneLeader (m.handleNodeLeaveCommitted nodeId) ↔
      (nodeId = m.config.nodeId → m.raft.state ≠ .leader) := by
  refine oneLeader_erased h ?_ ?_ fun x => marked_handleNodeLeaveCommitted nodeId
  all_goals
    unfold handleNodeLeaveCommitted
    split <;> rfl

theorem oneLeader_getState (h : OneLeader m) :
    OneLeader m.getState ↔ m.KeepsOneLeader .getState := by
  have hidle : (m.raft.leaderId = none ∨ m.raft.leaderId = some "") →
      (OneLeader m.getState ↔ m.KeepsOneLeader .getState) := by
    intro hnone
    have hsame : m.getState = m := by
      unfold getState reconcileRoles
      rcases hnone with hnone | hnone <;> simp [hnone]
    rw [hsame]
    refine ⟨fun _ leaderId hleader hne => ?_, fun _ => h⟩
    rcases hnone with hnone | hnone <;> simp_all
  cases hleader : m.raft.leaderId with
  | none => exact hidle (.inl hleader)
  | some leaderId =>
    by_cases hne : leaderId = ""
    · exact hidle (.inr (hleader.trans (congrArg some hne)))
    · have hmarked := fun x => marked_getState (x := x) hleader hne
      have hunique : ∀ x y, Marked m.getState.nodes x → Marked m.getState.nodes y → x = y :=
        fun x y hx hy => ((hmarked x).mp hx).1.trans ((hmarked y).mp hy).1.symm
      constructor
      · intro ⟨_, hown⟩ id hid _
        cases hleader.symm.trans hid
        rw [getState_config, getState_raft, hmarked] at hown
        exact hown
      · intro hkeeps
        refine ⟨hunique, ?_⟩
        rw [getState_config, getState_raft, hmarked]
        exact hkeeps leaderId hleader hne

theorem recordAmong_self (response : JoinResponse) :
    recordAmong (m.takenPeers response) m.nodes m.config.nodeId =
      m.nodes.find? m.config.nodeId := by
  have hnone : (m.takenPeers response).reverse.find? (·.nodeId = m.config.nodeId) = none := by
    rw [List.find?_eq_none]
    intro peer hpeer
    rw [List.mem_reverse, takenPeers] at hpeer
    split at hpeer
    · have := (List.mem_filter.mp hpeer).2
      simp only [takes, Bool.and_eq_true] at this
      simpa using this.1
    · cases hpeer
  rw [recordAmong, hnone, Option.none_or]

theorem oneLeader_joinResponse (h : OneLeader m) (seedAddress : String) (response : JoinResponse) :
    OneLeader (m.deliver (.joinResponse seedAddress response)) ↔
      m.KeepsOneLeader (.joinResponse seedAddress response) := by
  obtain ⟨hconfig, hstate, _, _, _, hview⟩ := m.handleJoinResponse_spec seedAddress response
  have hmarked : ∀ x, Marked (m.deliver (.joinResponse seedAddress response)).nodes x ↔
      (recordAmong (m.takenPeers response) m.nodes x).any (·.role = .leader) := by
    intro x
    have hany := congrArg (Option.any fun v => v.1 = NodeRole.leader) (hview x)
    rw [Option.any_map, Option.any_map] at hany
    exact Bool.eq_iff_iff.mp hany
  have hown : Marked (m.deliver (.joinResponse seedAddress response)).nodes m.config.nodeId ↔
      Marked m.nodes m.config.nodeId := by
    rw [hmarked, recordAmong_self]
    rfl
  constructor
  · intro hone x y hx hy
    exact hone.unique x y ((hmarked x).mpr hx) ((hmarked y).mpr hy)
  · intro hkeeps
    refine ⟨fun x y hx hy => hkeeps x y ((hmarked x).mp hx) ((hmarked y).mp hy), ?_⟩
    rw [show (m.deliver (.joinResponse seedAddress response)).config = m.config from hconfig,
      show (m.deliver (.joinResponse seedAddress response)).raft.state = m.raft.state from hstate,
      hown]
    exact h.own

theorem oneLeader_heartbeatResponse (h : OneLeader m) (now : Nat) (leaderAddress : String)
    (leaderId : NodeId) :
    OneLeader (m.onHeartbeat now leaderAddress leaderId) ↔
      (leaderId ≠ "" → m.NamesLeader leaderId) := by
  have hmarked := fun x => marked_onHeartbeat (m := m) (x := x) now leaderAddress leaderId
  have hconfig := onHeartbeat_config (m := m) now leaderAddress leaderId
  have hstate := congrArg RaftNode.state (onHeartbeat_raft (m := m) now leaderAddress leaderId)
  by_cases hid : leaderId = ""
  · have hsame := oneLeader_congr hconfig hstate fun x => by rw [hmarked, if_pos hid]
    exact iff_of_true (hsame.mpr h) fun hne => absurd hid hne
  · have hnames := oneLeader_promoted h hconfig hstate fun x => by rw [hmarked, if_neg hid]
    exact hnames.trans ⟨fun hn _ => hn, fun hn => hn hid⟩

/-- One step: an event keeps `OneLeader` just if it meets the condition. -/
theorem oneLeader_deliver (h : OneLeader m) (e : Event) :
    OneLeader (m.deliver e) ↔ m.KeepsOneLeader e := by
  cases e with
  | stateChange state => exact oneLeader_stateChange h state
  | leaderElected now =>
    obtain ⟨hraft, hconfig, hmarked⟩ := m.onLeaderElected_spec now
    exact oneLeader_idle h trivial hconfig (congrArg _ hraft) hmarked
  | leaderChanged newLeaderId =>
    have hraft := congrArg RaftNode.state (onLeaderChanged_raft
      (m := { m with raft := { m.raft with leaderId := some newLeaderId } }) newLeaderId)
    exact oneLeader_promoted h (onLeaderChanged_config _) hraft
      fun x => marked_onLeaderChanged newLeaderId
  | entryCommitted now entry =>
    cases entry with
    | nodeJoin data => exact oneLeader_nodeJoin h now data
    | nodeLeave nodeId => exact oneLeader_nodeLeave h nodeId
    | other => exact iff_of_true h trivial
  | silent raft => exact oneLeader_idle h trivial rfl rfl fun _ => .rfl
  | heartbeatResponse now leaderAddress leaderId =>
    exact oneLeader_heartbeatResponse h now leaderAddress leaderId
  | joinResponse seedAddress response => exact oneLeader_joinResponse h seedAddress response
  | getState => exact oneLeader_getState h
  | handleHeartbeat now nodeId =>
    refine oneLeader_idle h trivial rfl rfl fun x => ?_
    simp only [deliver, MembershipManager.handleHeartbeat]
    exact marked_modify _ fun _ => rfl
  | detectFailures now =>
    refine oneLeader_idle h trivial rfl rfl fun x => ?_
    simp only [deliver, MembershipManager.detectFailures]
    refine marked_mapRows _ fun node => ?_
    split
    · rfl
    · split <;> rfl
  | removeNode nodeId graceful =>
    rcases removeNode_fst (m := m) nodeId graceful with heq | heq
    · exact iff_of_true (by rwa [deliver, heq]) trivial
    · rw [deliver, heq]
      refine oneLeader_idle h trivial rfl rfl fun x => ?_
      simp only [setStatus]
      exact marked_modify _ fun _ => rfl

end

-- ---------------------------------------------------------------------------
-- Whole runs
-- ---------------------------------------------------------------------------

section
variable (config : MembershipConfig) (raftConfig : RaftConfig) (known : List (NodeId × Bool))
  (now : Nat)

theorem not_marked_start (x : NodeId) : ¬Marked (start config raftConfig known now).nodes x := by
  simp only [start, create]
  rw [marked_put]
  split
  · nofun
  · simp [Marked, Table.find?]

theorem oneLeader_start : OneLeader (start config raftConfig known now) := by
  have hstate := (start_raft config raftConfig known now).1
  refine ⟨fun x _ hx => absurd hx (not_marked_start config raftConfig known now x), ?_⟩
  rw [hstate]
  exact iff_of_false (not_marked_start config raftConfig known now _) nofun

/-- One leader all along, just if every event meets the condition. -/
theorem oneLeader_throughout (events : List Event) :
    Throughout deliver OneLeader (start config raftConfig known now) events ↔
      Along deliver KeepsOneLeader (start config raftConfig known now) events :=
  throughout_iff (I := fun _ => True) (fun _ _ _ => trivial) (fun _ e _ h => oneLeader_deliver h e)
    trivial (oneLeader_start config raftConfig known now)

end

/-- `a` follows `b`, whose entry is committed and who is marked when the state is
asked for; then `a` wins an election, and both are marked. -/
theorem old_leader_stays_marked :
    ¬Throughout deliver OneLeader
      (start ⟨"a", "a", "10.0.0.1", 50051, 15000, false⟩ { nodeId := "a" } [] 0)
      [.stateChange .follower, .leaderChanged "b",
        .entryCommitted 1 (.nodeJoin ⟨"b", "b", "10.0.0.2", 50051, []⟩), .getState,
        .stateChange .candidate, .stateChange .leader, .leaderElected 2] := by
  intro hall
  have hsame := hall.foldl.unique "a" "b" (by decide +kernel) (by decide +kernel)
  simp at hsame

-- What the node emits meanwhile, when `b` grants its vote.
example :
    ([.packet (.appendEntries ⟨0, 0, 0, "a", ⟨1, "b", 0, 0, [⟨1, 1, .nodeJoin, []⟩], 1⟩⟩),
      .input (.addPeer "b" true), .input .electionTimeout,
      .packet (.voteReply ⟨0, "b", ⟨2, "a", 1, 1⟩⟩ ⟨2, true⟩),
      .input (.electionEnds 2)].foldlM RaftNode.step
        (RaftNode.boot { nodeId := "a" } [])).map RaftNode.emitted =
    some [.stateChange .follower 0, .stateChange .follower 1, .leaderChanged "b",
      .entryCommitted ⟨1, 1, .nodeJoin, []⟩, .stateChange .candidate 2, .stateChange .leader 2,
      .leaderElected "a"] := by decide +kernel

end MembershipManager

end ClaudeCluster.Membership
