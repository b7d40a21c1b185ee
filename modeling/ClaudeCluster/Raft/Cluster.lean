import ClaudeCluster.Lib.Run
import ClaudeCluster.Raft.Node

/-!
# Clusters of Raft nodes

A cluster is a node for every id; a run moves one node at a time, by an input
of its own or by a packet some node has sent. A packet stays in `sent`, so it
may arrive late, twice, out of order or never. The nodes of a finite run are
the finitely many it moves.
-/

namespace ClaudeCluster.Raft

open Lib

structure Cluster where
  node : NodeId → RaftNode

inductive Action
  | input (id : NodeId) (i : RaftNode.Input)
  /-- The `k`-th packet `src` has sent arrives. -/
  | deliver (src : NodeId) (k : Nat)
  deriving DecidableEq, Repr

namespace Cluster

open RaftNode (Stimulus)

def set (w : Cluster) (id : NodeId) (n : RaftNode) : Cluster :=
  ⟨fun m => if m = id then n else w.node m⟩

def stimulus (w : Cluster) : Action → Option (NodeId × Stimulus)
  | .input id i => some (id, .input i)
  | .deliver src k => (w.node src).sent[k]?.map fun p => (p.dst, .packet p)

def step (w : Cluster) (a : Action) : Option Cluster :=
  (w.stimulus a).bind fun (id, s) => ((w.node id).step s).map (w.set id)

def Booted (w : Cluster) : Prop :=
  ∀ id, ∃ config peers, config.nodeId = id ∧ w.node id = RaftNode.boot config peers

end Cluster

def system : System Cluster Action := ⟨Cluster.Booted, Cluster.step⟩

-- ---------------------------------------------------------------------------
-- A cluster of given nodes
-- ---------------------------------------------------------------------------

/-- Every node has a data directory and knows the others as voting peers. -/
def Cluster.ofIds (ids : List NodeId) : Cluster :=
  ⟨fun id => RaftNode.boot { nodeId := id, dataDir := some "data" }
    ((ids.filter (· ≠ id)).map (·, true))⟩

theorem Cluster.ofIds_booted (ids : List NodeId) : (ofIds ids).Booted :=
  fun _ => ⟨_, _, rfl, rfl⟩

def trio : Cluster := .ofIds ["a", "b", "c"]

theorem trio_booted : system.init trio := Cluster.ofIds_booted _

/-- `a` wins term 1 with both votes and sends its noop. -/
def officeA : List Action :=
  [.input "a" .electionTimeout, .deliver "a" 0, .deliver "a" 1, .deliver "b" 0, .deliver "c" 0,
    .input "a" (.electionEnds 1)]

def roundA : List Action :=
  [.deliver "a" 2, .deliver "a" 3, .deliver "b" 1, .deliver "c" 1, .input "a" (.roundEnds 0)]

/-- A task of `a` reaches `b`, which then has two entries. -/
def taskA : List Action :=
  officeA ++ roundA ++ [.input "a" (.appendEntry .taskSubmit [3]), .deliver "a" 4]

end ClaudeCluster.Raft
