import ClaudeCluster.Raft.Moves

/-!
# Invariants of runs

`Rules` gives every node of a cluster its environment. `Reach.moves` takes a
run apart into moves: an invariant holds throughout if it holds of booted
clusters and every move under the rules keeps it. `forall_node` is the same
for invariants that say one thing of each node.
-/

namespace ClaudeCluster.Raft

open Lib

-- ---------------------------------------------------------------------------
-- What only grows
-- ---------------------------------------------------------------------------

namespace RaftNode

structure Grows (n n' : RaftNode) : Prop where
  config : n'.config = n.config
  epoch : n.epoch ≤ n'.epoch
  sent : n.sent ⊆ n'.sent
  votes : n.votes ⊆ n'.votes
  led : n.led ⊆ n'.led
  tenure : n.tenure ⊆ n'.tenure
  held : n.held ⊆ n'.held

theorem Grows.refl (n : RaftNode) : Grows n n :=
  ⟨rfl, le_refl _, fun _ h => h, fun _ h => h, fun _ h => h, fun _ h => h, fun _ h => h⟩

theorem Grows.trans {n n' n'' : RaftNode} (h : Grows n n') (h' : Grows n' n'') : Grows n n'' :=
  ⟨h'.config.trans h.config, h.epoch.trans h'.epoch, fun _ hp => h'.sent (h.sent hp),
    fun _ hp => h'.votes (h.votes hp), fun _ hp => h'.led (h.led hp),
    fun _ hp => h'.tenure (h.tenure hp), fun _ hp => h'.held (h.held hp)⟩

theorem commitAt_grows (n : RaftNode) (c : Nat) : Grows n (n.commitAt c) :=
  ⟨rfl, le_refl _, fun _ h => h, fun _ h => h, fun _ h => h, fun _ h => h, fun _ h => h⟩

theorem Move.grows {env : Env} {n n' : RaftNode} (h : Move env n n') : Grows n n' := by
  cases h with
  | quiet q =>
    exact ⟨q.config, q.epoch.ge, fun _ h => q.sent ▸ h, fun _ h => q.votes ▸ h,
      fun _ h => q.led ▸ h, fun _ h => q.tenure ▸ h, fun _ h => q.held ▸ h⟩
  | follow => exact { Grows.refl n with }
  | campaign =>
    exact { Grows.refl n with
      sent := fun _ h => List.mem_append_left _ h
      votes := fun _ h => List.mem_append_left _ h }
  | grant => exact { Grows.refl n with votes := fun _ h => List.mem_append_left _ h }
  | answerVote => exact { Grows.refl n with sent := fun _ h => List.mem_append_left _ h }
  | ballot => exact { Grows.refl n with }
  | takeOffice =>
    exact { Grows.refl n with
      led := fun _ h => List.mem_append_left _ h
      tenure := fun _ h => List.mem_append_left _ h }
  | push => exact { Grows.refl n with tenure := fun _ h => List.mem_append_left _ h }
  | replicate => exact { Grows.refl n with sent := fun _ h => List.mem_append_left _ h }
  | accept => exact { Grows.refl n with held := fun _ h => List.mem_append_left _ h }
  | commit => exact commitTo_keeps (P := Grows n) (.refl n) ((commitAt_grows n)) _
  | answerAppend => exact { Grows.refl n with sent := fun _ h => List.mem_append_left _ h }
  | matched => exact { Grows.refl n with }
  | advance => exact updateCommitIndex_keeps (P := Grows n) (.refl n) (commitAt_grows n)
  | resolve => exact { Grows.refl n with }
  | @reboot n known =>
    obtain ⟨peers, nextRef, T, heq, -⟩ := restart_eq known n
    rw [heq]
    exact { Grows.refl n with epoch := Nat.le_succ _ }

structure Env.Le (env env' : Env) : Prop where
  packet : ∀ p, env.packet p → env'.packet p
  campaign : ∀ v, env.campaign v → env'.campaign v
  grant : ∀ n r, env.grant n r → env'.grant n r
  win : ∀ n e, env.win n e → env'.win n e
  accept : ∀ l r, env.accept l r → env'.accept l r
  matched : ∀ n c, env.matched n c → env'.matched n c
  advance : ∀ n, env.advance n → env'.advance n
  resolve : ∀ n e, env.resolve n e → env'.resolve n e
  reboot : ∀ n, env.reboot n → env'.reboot n

theorem Move.mono {env env' : Env} {n n' : RaftNode} (hle : env.Le env') (h : Move env n n') :
    Move env' n n' := by
  cases h with
  | quiet q => exact .quiet q
  | follow h => exact .follow h
  | campaign h hc => exact .campaign h (hle.campaign _ hc)
  | grant hp hT hl hc hg => exact .grant (hle.packet _ hp) hT hl hc (hle.grant _ _ hg)
  | answerVote hp hr => exact .answerVote (hle.packet _ hp) hr
  | ballot hv =>
    refine .ballot fun h => ?_
    obtain ⟨c, r, hp, hr⟩ := hv h
    exact ⟨c, r, hle.packet _ hp, hr⟩
  | takeOffice hs he hv hw => exact .takeOffice hs he hv (hle.win _ _ hw)
  | push hs => exact .push hs
  | replicate hs he => exact .replicate hs he
  | accept hp hT hc ha => exact .accept (hle.packet _ hp) hT hc (hle.accept _ _ ha)
  | commit hp hT hh => exact .commit (hle.packet _ hp) hT hh
  | answerAppend hp hr => exact .answerAppend (hle.packet _ hp) hr
  | matched hp hs hT he hm => exact .matched (hle.packet _ hp) hs hT he (hle.matched _ _ hm)
  | advance hc ha => exact .advance hc (hle.advance _ ha)
  | resolve hr he h => exact .resolve hr he (hle.resolve _ _ h)
  | reboot h => exact .reboot (hle.reboot _ h)

end RaftNode

open RaftNode (Env Move Moves Stimulus Grows)

-- ---------------------------------------------------------------------------
-- Clusters
-- ---------------------------------------------------------------------------

namespace Cluster

variable {w w' : Cluster} {id : NodeId} {n' : RaftNode}

@[simp] theorem set_node_self (w : Cluster) (id : NodeId) (n : RaftNode) :
    (w.set id n).node id = n := by
  simp [set]

@[simp] theorem set_node_ne (w : Cluster) (n : RaftNode) {x : NodeId} (h : x ≠ id) :
    (w.set id n).node x = w.node x := by
  simp [set, h]

@[simp] theorem set_set (w : Cluster) (id : NodeId) (n m : RaftNode) :
    (w.set id n).set id m = w.set id m := by
  simp only [set, mk.injEq]
  funext x
  split <;> rfl

@[simp] theorem set_same (w : Cluster) (id : NodeId) : w.set id (w.node id) = w := by
  cases w with
  | mk node =>
    simp only [set, mk.injEq]
    funext x
    split
    case isTrue h => rw [h]
    case isFalse => rfl

def Sent (w : Cluster) (p : Packet) : Prop := ∃ src, p ∈ (w.node src).sent

def Arrives (w : Cluster) (id : NodeId) (p : Packet) : Prop := w.Sent p ∧ p.dst = id

def Grown (w w' : Cluster) : Prop := ∀ id, Grows (w.node id) (w'.node id)

theorem Grown.refl (w : Cluster) : w.Grown w := fun _ => .refl _

theorem Grown.trans {w'' : Cluster} (h : w.Grown w') (h' : w'.Grown w'') : w.Grown w'' :=
  fun id => (h id).trans (h' id)

theorem grown_set (h : Grows (w.node id) n') : w.Grown (w.set id n') := by
  intro x
  by_cases hx : x = id
  · subst hx
    simpa using h
  · rw [set_node_ne w n' hx]
    exact .refl _

theorem Grown.sent {p : Packet} (h : w.Grown w') (hp : w.Sent p) : w'.Sent p := by
  obtain ⟨src, hp⟩ := hp
  exact ⟨src, (h src).sent hp⟩

theorem Grown.arrives {p : Packet} (h : w.Grown w') (hp : w.Arrives id p) : w'.Arrives id p :=
  ⟨h.sent hp.1, hp.2⟩

theorem stimulus_packet {a : Action} {p : Packet} (h : w.stimulus a = some (id, .packet p)) :
    w.Arrives id p := by
  cases a with
  | input => simp [stimulus] at h
  | deliver src k =>
    obtain ⟨q, hq, heq⟩ := Option.map_eq_some_iff.mp h
    cases heq
    exact ⟨⟨src, List.mem_of_getElem? hq⟩, rfl⟩

theorem step_eq {a : Action} (h : w.step a = some w') :
    ∃ id s n', w.stimulus a = some (id, s) ∧ (w.node id).step s = some n' ∧ w' = w.set id n' := by
  obtain ⟨⟨id, s⟩, hs, h⟩ := Option.bind_eq_some_iff.mp h
  obtain ⟨n', hn, rfl⟩ := Option.map_eq_some_iff.mp h
  exact ⟨id, s, n', hs, hn, rfl⟩

end Cluster

-- ---------------------------------------------------------------------------
-- Rules
-- ---------------------------------------------------------------------------

/-- An environment for every node, which grows with the cluster. -/
structure Rules where
  env : Cluster → NodeId → Env
  packet : ∀ w id p, (env w id).packet p → w.Arrives id p
  mono : ∀ w w' id, w.Grown w' → (env w id).Le (env w' id)

/-- Packets arrive only after they were sent; everything else may happen. -/
def Rules.free : Rules where
  env w id := .ofPackets (w.Arrives id)
  packet _ _ _ h := h
  mono _ _ _ hg := ⟨fun _ h => hg.arrives h, fun _ h => h, fun _ _ h => h, fun _ _ h => h,
    fun _ _ h => h, fun _ _ h => h, fun _ h => h, fun _ _ h => h, fun _ h => h⟩

def Rules.Guard (R : Rules) (I : Cluster → Prop) (G : Cluster → Action → Prop) : Prop :=
  ∀ w a id s, I w → G w a → w.stimulus a = some (id, s) → (R.env w id).Allows (w.node id) s

theorem Rules.free_guard {I : Cluster → Prop} {G : Cluster → Action → Prop} :
    Rules.free.Guard I G := by
  rintro w a id s - - hs
  exact Env.allows_ofPackets fun p hp => Cluster.stimulus_packet (hp ▸ hs)

section
variable {R : Rules} {G : Cluster → Action → Prop} {I : Cluster → Prop} {w w' : Cluster}
variable {id : NodeId} {n' : RaftNode}

theorem Rules.moves (hmove : ∀ w id n', I w → Move (R.env w id) (w.node id) n' → I (w.set id n'))
    (hI : I w) (h : Moves (R.env w id) (w.node id) n') : I (w.set id n') := by
  -- the environment is that of the start of the step, which the cluster outgrows
  suffices I (w.set id n') ∧ w.Grown (w.set id n') from this.1
  induction h with
  | refl => exact ⟨by simpa using hI, by simpa using Cluster.Grown.refl w⟩
  | @tail m m' _ hm ih =>
    obtain ⟨hI, hg⟩ := ih
    have hm : Move (R.env (w.set id m) id) ((w.set id m).node id) m' := by
      simpa using hm.mono (R.mono _ _ id hg)
    have hI' := hmove _ id _ hI hm
    have hg' := hg.trans (Cluster.grown_set hm.grows)
    rw [Cluster.set_set] at hI' hg'
    exact ⟨hI', hg'⟩

theorem Rules.step (hG : R.Guard I G)
    (hmove : ∀ w id n', I w → Move (R.env w id) (w.node id) n' → I (w.set id n'))
    {a : Action} (hI : I w) (hg : G w a) (h : w.step a = some w') : I w' := by
  obtain ⟨id, s, n', hs, hn, rfl⟩ := Cluster.step_eq h
  exact Rules.moves hmove hI (RaftNode.step_moves hn (hG w a id s hI hg hs))

/-- The invariant rule, move by move. -/
theorem Reach.moves (hG : R.Guard I G) (hinit : ∀ w, w.Booted → I w)
    (hmove : ∀ w id n', I w → Move (R.env w id) (w.node id) n' → I (w.set id n'))
    (h : system.Reach G w) : I w :=
  h.invariant hinit fun _ _ _ _ hI hg hst => Rules.step hG hmove hI hg hst

/-- For an invariant that says one thing of each node, about that node and
what the cluster has done, only the moved node needs an argument. -/
theorem forall_node {P : Cluster → NodeId → RaftNode → Prop}
    (hmono : ∀ w w' id n, w.Grown w' → P w id n → P w' id n)
    (hP : ∀ x, P w x (w.node x)) (hm : Move (R.env w id) (w.node id) n') (hn : P w id n') :
    ∀ x, P (w.set id n') x ((w.set id n').node x) := by
  intro x
  have hg : w.Grown (w.set id n') := Cluster.grown_set hm.grows
  by_cases hx : x = id
  · subst hx
    simpa using hmono _ _ _ _ hg hn
  · rw [Cluster.set_node_ne w n' hx]
    exact hmono _ _ _ _ hg (hP x)

end

end ClaudeCluster.Raft
