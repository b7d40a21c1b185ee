import ClaudeCluster.Raft.Emissions
import ClaudeCluster.Raft.WellFormed
import ClaudeCluster.Memory.Replicator

/-!
# How often a committed write is run on a file

The processes of a cluster and the database files of their machines. `file` is
the path a process opens; a daemon and an MCP process on one machine open the
same, and have one `raft-state.json` beside it. A restart takes a process back
to an empty log and `lastApplied` 0, the file keeps what was run on it. Nothing
in the file says how far the log has been run, so a process that starts over,
or a second process with a log of its own, runs the same entries again.

`UpToDate` is the condition a record of the applied index would enforce. Under
it the indices of the entries run on a file rise.
-/

namespace ClaudeCluster.Memory

open Lib
open Raft (NodeId LogEntry RaftEvent RaftNode Cluster Action)
open Raft.RaftNode (committed)

structure Hosts where
  cluster : Cluster
  /-- The entries whose statement was run on a file, in the order of the calls. -/
  runs : String → List LogEntry

namespace Hosts

section
variable (P : Platform) (file : NodeId → String)

def executed (events : List RaftEvent) : List LogEntry :=
  (committed events).filter fun entry => (committedStatement P entry).isSome

/-- The processes on the machine of `id` find the state file it left. -/
def shareState (id : NodeId) (c : Cluster) : Cluster :=
  ⟨fun m =>
    if (c.node id).persistent ∧ file m = file id then
      { c.node m with stateFile := (c.node id).stateFile }
    else c.node m⟩

def step (w : Hosts) (a : Action) : Option Hosts :=
  (w.cluster.stimulus a).bind fun (id, s) =>
    ((w.cluster.node id).step s).map fun n' => {
      cluster := shareState file id (w.cluster.set id n')
      runs := fun f =>
        if f = file id then
          w.runs f ++ executed P (n'.emitted.drop (w.cluster.node id).emitted.length)
        else w.runs f }

def hosts : System Hosts Action :=
  ⟨fun w => w.cluster.Booted ∧ ∀ f, w.runs f = [], step P file⟩

/-- A process that commits has itself applied the log up to every entry that
was run on its file. -/
def UpToDate (w : Hosts) (a : Action) : Prop :=
  ∀ x ∈ w.cluster.stimulus a, (w.cluster.node x.1).commits x.2 →
    ∀ e ∈ w.runs (file x.1), e.index ≤ (w.cluster.node x.1).lastApplied

instance (w : Hosts) (a : Action) : Decidable (UpToDate file w a) :=
  inferInstanceAs (Decidable (∀ x ∈ w.cluster.stimulus a, (w.cluster.node x.1).commits x.2 →
    ∀ e ∈ w.runs (file x.1), e.index ≤ (w.cluster.node x.1).lastApplied))

end

section
variable {P : Platform} {file : NodeId → String} {w w' : Hosts} {a : Action}

theorem step_eq (h : step P file w a = some w') :
    ∃ id s n', w.cluster.stimulus a = some (id, s) ∧ (w.cluster.node id).step s = some n' ∧
      w' = ⟨shareState file id (w.cluster.set id n'), fun f =>
        if f = file id then
          w.runs f ++ executed P (n'.emitted.drop (w.cluster.node id).emitted.length)
        else w.runs f⟩ := by
  obtain ⟨⟨id, s⟩, hs, h⟩ := Option.bind_eq_some_iff.mp h
  obtain ⟨n', hn, rfl⟩ := Option.map_eq_some_iff.mp h
  exact ⟨id, s, n', hs, hn, rfl⟩

theorem formed_shareState {c : Cluster} (id : NodeId) (h : c.Formed) :
    (shareState file id c).Formed := by
  intro m
  simp only [shareState]
  split
  · exact { h m with }
  · exact h m

theorem formed_set {id : NodeId} {s : RaftNode.Stimulus} {n' : RaftNode} (h : w.cluster.Formed)
    (hs : w.cluster.stimulus a = some (id, s)) (hn : (w.cluster.node id).step s = some n') :
    (w.cluster.set id n').Formed := by
  have hstep : w.cluster.step a = some (w.cluster.set id n') := by
    simp [Cluster.step, hs, hn]
  exact Raft.Rules.step (G := fun _ _ => True) Raft.Rules.free_guard
    (fun _ _ _ hI hm => hI.move hm) h trivial hstep

theorem reach_formed {G : Hosts → Action → Prop} (h : (hosts P file).Reach G w) :
    w.cluster.Formed := by
  induction h with
  | init hi => exact hi.1.formed
  | step _ _ hs ih =>
    obtain ⟨id, s, n', hst, hn, rfl⟩ := step_eq hs
    exact formed_shareState id (formed_set ih hst hn)

def Rising (entries : List LogEntry) : Prop := entries.Pairwise (·.index < ·.index)

theorem Rising.append {es es' : List LogEntry} {i : Nat} (h : Rising es) (h' : Rising es')
    (hle : ∀ e ∈ es, e.index ≤ i) (hgt : ∀ e ∈ es', i < e.index) : Rising (es ++ es') :=
  List.pairwise_append.mpr ⟨h, h', fun x hx y hy => (hle x hx).trans_lt (hgt y hy)⟩

theorem Rising.count_le_one {es : List LogEntry} (h : Rising es) (e : LogEntry) :
    es.count e ≤ 1 := by
  have hnd : es.Nodup := h.imp fun hlt heq => absurd (congrArg LogEntry.index heq) hlt.ne
  exact List.nodup_iff_count_le_one.mp hnd e

/-- What a step tells the listeners rises from `lastApplied`, since a position
of a log is one less than the index of the entry there. -/
theorem rising_committed {n n' : RaftNode} {events : List RaftEvent} {k T : Nat}
    (hl : Raft.WellFormed n'.log T)
    (hc : committed events = (List.range' n.lastApplied k).filterMap (n'.log[·]?)) :
    Rising (executed P events) ∧ ∀ e ∈ executed P events, n.lastApplied < e.index := by
  have hrising : Rising (committed events) := by
    rw [hc]
    refine List.Pairwise.filterMap _ ?_ List.pairwise_lt_range'
    intro i j hij x hx y hy
    rw [hl.index i x hx, hl.index j y hy]
    exact Nat.succ_lt_succ hij
  refine ⟨hrising.filter _, ?_⟩
  intro e he
  have he := List.mem_of_mem_filter he
  rw [hc] at he
  obtain ⟨i, hi, hx⟩ := List.mem_filterMap.mp he
  rw [hl.index i e hx]
  exact Nat.lt_succ_of_le (List.mem_range'_1.mp hi).1

theorem rising_step {id : NodeId} {s : RaftNode.Stimulus} {n' : RaftNode} {T : Nat}
    (hl : Raft.WellFormed n'.log T) (hn : (w.cluster.node id).step s = some n')
    (hg : (w.cluster.node id).commits s →
      ∀ e ∈ w.runs (file id), e.index ≤ (w.cluster.node id).lastApplied)
    (h : Rising (w.runs (file id))) :
    Rising (w.runs (file id) ++
      executed P (n'.emitted.drop (w.cluster.node id).emitted.length)) := by
  obtain ⟨k, ⟨events, he, hc⟩, hk⟩ := RaftNode.step_emits hn
  rw [he, List.drop_left]
  obtain ⟨hrising, hgt⟩ := rising_committed (P := P) hl hc
  rcases Nat.eq_zero_or_pos k with rfl | hpos
  · -- the listeners heard of no entry
    have hnone : executed P events = [] := by
      rw [executed, hc]
      rfl
    rw [hnone, List.append_nil]
    exact h
  · exact h.append hrising (hg (hk hpos)) hgt

theorem reach_rising (h : (hosts P file).Reach (UpToDate file) w) (f : String) :
    Rising (w.runs f) := by
  induction h with
  | init hi =>
    rw [hi.2 f]
    exact List.Pairwise.nil
  | step hr hg hs ih =>
    obtain ⟨id, s, n', hst, hn, rfl⟩ := step_eq hs
    dsimp only
    split
    case isTrue hf =>
      subst hf
      have hl := (formed_set (reach_formed hr) hst hn id).log
      rw [Cluster.set_node_self] at hl
      exact rising_step hl hn (hg (id, s) hst) ih
    case isFalse => exact ih

/-- No entry is run twice on a file. -/
theorem executed_at_most_once (h : (hosts P file).Reach (UpToDate file) w) (f : String)
    (e : LogEntry) : (w.runs f).count e ≤ 1 :=
  (reach_rising h f).count_le_one e

end

-- ---------------------------------------------------------------------------
-- A build recorded in the shared memory
-- ---------------------------------------------------------------------------

def buildPayload : Payload where
  sql := "INSERT INTO infra_builds (project) VALUES (?)"
  params := "[\"cortex\"]"
  checksum := "6dc6477ae1c73b293dc9646b5ebc8e5ff9445ccea79b76a284eaf93d3a68d290"
  classification := some .publicTier
  table := some "infra_builds"

def buildPlatform : Platform where
  parse data := if data = buildPayload.stringify then some buildPayload else none
  sha256 text :=
    if text = buildPayload.sql ++ buildPayload.params then buildPayload.checksum else ""

def buildEntry : LogEntry := ⟨1, 2, .memoryWrite, buildPayload.stringify⟩

/-- A daemon and the MCP process beside it, which does not vote. -/
def daemonAndMcp : Cluster :=
  ⟨fun id =>
    if id = "rog2-mcp" then
      RaftNode.boot { nodeId := id, nonVoting := true, dataDir := some "data" } [("rog2", true)]
    else RaftNode.boot { nodeId := id, dataDir := some "data" } [("rog2-mcp", false)]⟩

theorem daemonAndMcp_booted : daemonAndMcp.Booted := by
  intro id
  simp only [daemonAndMcp]
  split
  · exact ⟨_, _, rfl, rfl⟩
  · exact ⟨_, _, rfl, rfl⟩

def machine (id : NodeId) : String := if id = "rog2-mcp" then "rog2" else id

/-- The daemon commits the build alone; the MCP process gets it, restarts and
refuses the heartbeat with the commit. -/
def recordShared : List Action :=
  [.input "rog2" .electionTimeout, .input "rog2" (.electionEnds 1),
    .input "rog2" (.appendEntry .memoryWrite buildPayload.stringify), .deliver "rog2" 0,
    .deliver "rog2-mcp" 0, .input "rog2" (.roundEnds 0),
    .input "rog2-mcp" (.restart [("rog2", true)]), .input "rog2" .heartbeat, .deliver "rog2" 2]

theorem build_recorded_once :
    ∃ w, (hosts buildPlatform machine).Reach (UpToDate machine) w ∧
      (buildEntry ∈ w.runs (machine "rog2-mcp") ∧ (w.cluster.node "rog2-mcp").epoch = 1) ∧
      ∀ f, (w.runs f).count buildEntry ≤ 1 := by
  obtain ⟨w, hr, hw⟩ := System.Reach.replay (M := hosts buildPlatform machine)
    (G := UpToDate machine)
    (P := fun w => buildEntry ∈ w.runs (machine "rog2-mcp") ∧
      (w.cluster.node "rog2-mcp").epoch = 1)
    (s := ⟨daemonAndMcp, fun _ => []⟩) ⟨daemonAndMcp_booted, fun _ => rfl⟩ recordShared
    (by decide +kernel)
  exact ⟨w, hr, hw, fun f => executed_at_most_once hr f buildEntry⟩

/-- The daemon commits alone; its heartbeat takes the commit to the MCP process. -/
def bothCommit : List Action :=
  [.input "rog2" .electionTimeout, .input "rog2" (.electionEnds 1),
    .input "rog2" (.appendEntry .memoryWrite buildPayload.stringify), .deliver "rog2" 0,
    .deliver "rog2-mcp" 0, .input "rog2" (.roundEnds 0), .input "rog2" .heartbeat,
    .deliver "rog2" 2]

def recordBuild : List Action :=
  Raft.officeA ++ Raft.roundA ++
    [.input "a" (.appendEntry .memoryWrite buildPayload.stringify), .deliver "a" 4,
      .deliver "a" 5, .deliver "b" 2, .deliver "c" 2, .input "a" (.roundEnds 1),
      .input "a" .heartbeat, .deliver "a" 6]

/-- `b` restarts with an empty log, refuses two heartbeats and gets it again. -/
def restartB : List Action :=
  [.deliver "b" 3, .input "b" (.restart [("a", true), ("c", true)]), .input "a" .heartbeat,
    .deliver "a" 8, .deliver "b" 4, .input "a" .heartbeat, .deliver "a" 10, .deliver "b" 5,
    .input "a" .heartbeat, .deliver "a" 12]

/-- Two processes on one file, or one that starts over, run an entry twice. -/
theorem build_recorded_twice :
    (∃ w, (hosts buildPlatform machine).Reach (fun _ _ => True) w ∧
      (w.runs "rog2").count buildEntry = 2) ∧
    ∃ w, (hosts buildPlatform id).Reach (fun _ _ => True) w ∧
      (w.runs "b").count buildEntry = 2 := by
  constructor
  · exact System.Reach.replay (M := hosts buildPlatform machine)
      (P := fun w => (w.runs "rog2").count buildEntry = 2)
      (s := ⟨daemonAndMcp, fun _ => []⟩) ⟨daemonAndMcp_booted, fun _ => rfl⟩ bothCommit
      (by decide +kernel)
  · exact System.Reach.replay (M := hosts buildPlatform id)
      (P := fun w => (w.runs "b").count buildEntry = 2)
      (s := ⟨Raft.trio, fun _ => []⟩) ⟨Raft.trio_booted, fun _ => rfl⟩ (recordBuild ++ restartB)
      (by decide +kernel)

end Hosts

end ClaudeCluster.Memory
