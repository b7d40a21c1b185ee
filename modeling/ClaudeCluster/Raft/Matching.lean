import ClaudeCluster.Raft.Elections
import ClaudeCluster.Raft.Refinement

/-!
# Log matching

With one tenure a term the logs a leader has form a chain, every request is
cut from one of them (`Cluster.Cuts`) and every log is rooted in them, through
any restarts: a node that comes up with an empty log is rooted too. The
tenures are those of `Lib.History`; what is added here is that a node cannot
take office twice in one term of one process (`Seated`).
-/

namespace ClaudeCluster.Raft

open RaftNode
open Lib (CutFrom)
open Lib.History (Matching)

-- ---------------------------------------------------------------------------
-- Marks of office
-- ---------------------------------------------------------------------------

structure Seated (n : RaftNode) : Prop where
  past : ∀ t ∈ n.led, t.epoch ≤ n.epoch ∧ (t.epoch = n.epoch →
    t.term ≤ n.currentTerm ∧ (t.term = n.currentTerm → n.state ≠ .candidate))
  tenure : ∀ T l, (T, l) ∈ n.tenure → ∃ t ∈ n.led, t.term = T
  leader : n.state = .leader → ∃ t ∈ n.led, t.term = n.currentTerm
  start : ∀ t ∈ n.led, (t.term, t.log) ∈ n.tenure

section
variable {n n' : RaftNode} {env : Env}

theorem Seated.commitAt (h : Seated n) (c : Nat) : Seated (n.commitAt c) :=
  ⟨h.past, h.tenure, h.leader, h.start⟩

theorem Seated.move (h : Seated n) (hm : Move env n n') : Seated n' := by
  cases hm with
  | quiet q =>
    refine ⟨?_, ?_, ?_, ?_⟩
    · rw [q.led, q.epoch, q.currentTerm, q.state]
      exact h.past
    · rw [q.tenure, q.led]
      exact h.tenure
    · rw [q.state, q.led, q.currentTerm]
      exact h.leader
    · rw [q.led, q.tenure]
      exact h.start
  | follow hT =>
    refine ⟨fun t ht => ⟨(h.past t ht).1, fun he => ?_⟩, h.tenure, nofun, h.start⟩
    exact ⟨((h.past t ht).2 he).1.trans hT, fun _ => nofun⟩
  | campaign =>
    refine ⟨fun t ht => ⟨(h.past t ht).1, fun he => ?_⟩, h.tenure, nofun, h.start⟩
    have hle := ((h.past t ht).2 he).1
    exact ⟨hle.trans (Nat.le_succ _), fun heq => absurd (heq ▸ hle) (Nat.not_succ_le_self _)⟩
  | takeOffice =>
    have hold : ∀ T l, (T, l) ∈ n.tenure → ∃ t ∈ n.takeOffice.led, t.term = T := by
      intro T l hl
      obtain ⟨t, ht, hT⟩ := h.tenure T l hl
      exact ⟨t, List.mem_append_left _ ht, hT⟩
    refine ⟨?_, forall_pair_concat hold ⟨_, List.mem_concat_self, rfl⟩,
      fun _ => ⟨_, List.mem_concat_self, rfl⟩,
      forall_mem_concat (fun t ht => List.mem_append_left _ (h.start t ht)) List.mem_concat_self⟩
    refine forall_mem_concat (fun t ht => ?_) ⟨le_refl _, fun _ => ⟨le_refl _, fun _ => nofun⟩⟩
    exact ⟨(h.past t ht).1, fun he => ⟨((h.past t ht).2 he).1, fun _ => nofun⟩⟩
  | push hs =>
    exact { h with
      tenure := forall_pair_concat h.tenure (h.leader hs)
      start := fun t ht => List.mem_append_left _ (h.start t ht) }
  | commit => exact commitTo_keeps (P := Seated) h h.commitAt _
  | advance => exact updateCommitIndex_keeps (P := Seated) h h.commitAt
  | @reboot n known =>
    obtain ⟨peers, nextRef, T, heq, -⟩ := restart_eq known n
    rw [heq]
    refine ⟨fun t ht => ?_, h.tenure, nofun, h.start⟩
    have hle := (h.past t ht).1
    exact ⟨hle.trans (Nat.le_succ _), fun he => absurd (he ▸ hle) (Nat.not_succ_le_self _)⟩
  | _ => exact { h with }

theorem seated_boot (config : RaftConfig) (known : List (NodeId × Bool)) :
    Seated (boot config known) := by
  obtain ⟨peers, nextRef, heq, -⟩ := boot_eq config known
  rw [heq]
  exact ⟨nofun, nofun, nofun, nofun⟩

end

/-- A term has at most one tenure: one run of `becomeLeader` of one process. -/
def OneTenure (w : Cluster) : Prop :=
  ∀ m n, ∀ t ∈ (w.node m).led, ∀ t' ∈ (w.node n).led, t.term = t'.term →
    m = n ∧ t.epoch = t'.epoch

section
variable {w w' : Cluster} {id : NodeId} {n' : RaftNode}

theorem OneTenure.anti (h : OneTenure w') (hg : w.Grown w') : OneTenure w :=
  fun m n t ht t' ht' => h m n t ((hg m).led ht) t' ((hg n).led ht')

theorem OneTenure.fresh (h : OneTenure (w.set id n')) (hg : w.Grown (w.set id n'))
    (hseat : ∀ x, Seated (w.node x)) (hs : (w.node id).state = .candidate)
    (hmark : ⟨(w.node id).epoch, (w.node id).currentTerm, (w.node id).log⟩ ∈ n'.led) :
    w.history.tenure (w.history.term id) = ∅ := by
  refine Set.eq_empty_iff_forall_notMem.mpr ?_
  rintro l ⟨x, hx⟩
  obtain ⟨t, ht, hterm⟩ := (hseat x).tenure _ l hx
  have hmark' : ⟨(w.node id).epoch, (w.node id).currentTerm, (w.node id).log⟩ ∈
      ((w.set id n').node id).led := by
    rwa [Cluster.set_node_self]
  obtain ⟨rfl, hep⟩ := h x id t ((hg x).led ht) _ hmark' hterm
  exact (((hseat x).past t ht).2 hep).2 hterm hs

end

-- ---------------------------------------------------------------------------
-- Without restarts
-- ---------------------------------------------------------------------------

def steadyRules : Rules where
  env w id := { Env.ofPackets (w.Arrives id) with reboot := fun _ => False }
  packet _ _ _ h := h
  mono _ _ _ hg := ⟨fun _ h => hg.arrives h, fun _ h => h, fun _ _ h => h, fun _ _ h => h,
    fun _ _ h => h, fun _ _ h => h, fun _ h => h, fun _ _ h => h, fun _ h => h⟩

theorem RaftNode.Move.epoch_eq {n n' : RaftNode} {env : Env} (hr : ∀ n, ¬ env.reboot n)
    (hm : Move env n n') : n'.epoch = n.epoch := by
  cases hm with
  | quiet q => exact q.epoch
  | commit => exact commitTo_keeps (P := fun m => m.epoch = n.epoch) rfl (fun _ => rfl) _
  | advance => exact updateCommitIndex_keeps (P := fun m => m.epoch = n.epoch) rfl fun _ => rfl
  | reboot h => exact absurd h (hr _)
  | _ => rfl

theorem Reach.epoch_eq_zero {G : Cluster → Action → Prop} {w : Cluster} (h : system.Reach G w)
    (hG : ∀ w a, G w a → NoRestart w a) : ∀ id, (w.node id).epoch = 0 := by
  refine Reach.moves (R := steadyRules) (I := fun w => ∀ id, (w.node id).epoch = 0) ?_ ?_ ?_ h
  · rintro w a id s - hg hs
    exact { Env.allows_ofPackets fun p hp => Cluster.stimulus_packet (hp ▸ hs) with
      reboot := fun hr => absurd hr (by simp [hG w a hg _ hs]) }
  · intro w hw id
    obtain ⟨config, known, -, hn⟩ := hw id
    obtain ⟨peers, nextRef, heq, -⟩ := boot_eq config known
    rw [hn, heq]
  · intro w id n' hI hm
    exact forall_node (P := fun _ _ n => n.epoch = 0) (fun _ _ _ _ _ h => h) hI hm
      ((hm.epoch_eq fun _ h => h).trans (hI id))

theorem OneLeader.oneTenure {w : Cluster} (h : OneLeader w) (hseat : ∀ id, Seated (w.node id))
    (hep : ∀ id, (w.node id).epoch = 0) : OneTenure w := by
  have hzero : ∀ id, ∀ t ∈ (w.node id).led, t.epoch = 0 := fun id t ht =>
    Nat.le_zero.mp (hep id ▸ ((hseat id).past t ht).1)
  intro m n t ht t' ht' heq
  exact ⟨h m n t ht t' ht' heq, (hzero m t ht).trans (hzero n t' ht').symm⟩

-- ---------------------------------------------------------------------------
-- Requests
-- ---------------------------------------------------------------------------

def Cluster.Cut (w : Cluster) (r : AppendEntriesRequest) : Prop :=
  ∃ s ∈ w.history.tenure r.term, CutFrom LogEntry.term s r.prevLogIndex r.prevLogTerm r.entries

def Cluster.Cuts (w : Cluster) : Prop :=
  ∀ id c, .appendEntries c ∈ (w.node id).sent → w.Cut c.request

section
variable {w w' : Cluster} {id : NodeId} {n' : RaftNode} {env : Env}

theorem Cluster.Grown.tenure (hg : w.Grown w') (T : Nat) :
    w.history.tenure T ⊆ w'.history.tenure T := by
  rintro l ⟨x, hx⟩
  exact ⟨x, (hg x).tenure hx⟩

theorem Cluster.Cut.mono {r : AppendEntriesRequest} (h : w.Cut r) (hg : w.Grown w') :
    w'.Cut r := by
  obtain ⟨s, hs, hcut⟩ := h
  exact ⟨s, hg.tenure _ hs, hcut⟩

theorem sent_request {n : RaftNode} {c : AppendCall} (hm : Move env n n')
    (hc : .appendEntries c ∈ n'.sent) :
    .appendEntries c ∈ n.sent ∨
      (n.state = .leader ∧ ∃ peer ∈ n.peers.values, c.request = n.appendEntriesRequest peer) := by
  cases hm with
  | quiet q => exact .inl (q.sent ▸ hc)
  | campaign =>
    rcases mem_campaign hc with hc | ⟨_, -, hc⟩
    · exact .inl hc
    · cases hc
  | answerVote => exact .inl ((List.mem_append.mp hc).resolve_right (by simp))
  | answerAppend => exact .inl ((List.mem_append.mp hc).resolve_right (by simp))
  | replicate hs =>
    rcases mem_replicate hc with hc | ⟨peer, hp, hc⟩
    · exact .inl hc
    · cases hc
      exact .inr ⟨hs, peer, hp, rfl⟩
  | commit => exact .inl (commitTo_keeps (P := fun m => .appendEntries c ∈ m.sent → .appendEntries c ∈ n.sent)
      (fun h => h) (fun _ h => h) _ hc)
  | advance => exact .inl (updateCommitIndex_keeps
      (P := fun m => .appendEntries c ∈ m.sent → .appendEntries c ∈ n.sent)
      (fun h => h) (fun _ h => h) hc)
  | @reboot n known =>
    obtain ⟨peers, nextRef, T, heq, -⟩ := restart_eq known n
    rw [heq] at hc
    exact .inl hc
  | _ => exact .inl hc

theorem Cluster.Cuts.move (h : w.Cuts) (hM : Matching LogEntry.term w.history)
    (hm : Move env (w.node id) n') : (w.set id n').Cuts := by
  have hg := Cluster.grown_set hm.grows
  intro x c hc
  by_cases hx : x = id
  · subst hx
    rw [Cluster.set_node_self] at hc
    rcases sent_request hm hc with hc | ⟨hs, peer, -, hreq⟩
    · exact (h x c hc).mono hg
    · rw [hreq]
      exact ⟨_, hg.tenure _ (hM.current x hs), cutFrom_appendEntriesRequest _ peer⟩
  · rw [Cluster.set_node_ne _ _ hx] at hc
    exact (h x c hc).mono hg

theorem Cluster.Cuts.arrives {c : AppendCall} (h : w.Cuts)
    (hp : w.Arrives id (.appendEntries c)) : w.Cut c.request := by
  obtain ⟨⟨src, hsrc⟩, -⟩ := hp
  exact h src c hsrc

theorem Op.matching {h' : Lib.History NodeId LogEntry} (hM : Matching LogEntry.term w.history)
    (hcut : ∀ c, env.packet (.appendEntries c) → w.Cut c.request)
    (hfresh : (w.node id).state = .candidate →
      ⟨(w.node id).epoch, (w.node id).currentTerm, (w.node id).log⟩ ∈ n'.led →
      w.history.tenure (w.history.term id) = ∅)
    (hop : Op env w id n' h') : Matching LogEntry.term h' := by
  cases hop with
  | same => exact hM
  | raise => exact hM.raise id _
  | campaign => exact hM.campaign id
  | grant => exact hM.grant id _
  | elect hs _ _ _ hmark => exact hM.elect (hfresh hs hmark)
  | push hs he => exact hM.push hs he
  | accept hp hT hc =>
    obtain ⟨s, hs, hb⟩ := hcut _ hp
    rw [hT] at hs
    exact hM.accept hs ((consistent_iff _ _).mp hc) hb
  | reset => exact hM.reset id _

end

-- ---------------------------------------------------------------------------
-- Runs
-- ---------------------------------------------------------------------------

structure Cluster.Matched (w : Cluster) : Prop where
  sound : w.Sound
  seated : ∀ id, Seated (w.node id)
  matching : OneTenure w → Matching LogEntry.term w.history ∧ w.Cuts

theorem Cluster.Booted.matched {w : Cluster} (h : w.Booted) : w.Matched := by
  have hnode : ∀ id, ∃ config known, w.node id = boot config known := by
    intro id
    obtain ⟨config, known, -, heq⟩ := h id
    exact ⟨config, known, heq⟩
  have hboot : ∀ id, (w.node id).log = [] ∧ (w.node id).tenure = [] ∧ (w.node id).sent = [] ∧
      (w.node id).state = .follower := by
    intro id
    obtain ⟨config, known, hn⟩ := hnode id
    obtain ⟨peers, nextRef, heq, -⟩ := boot_eq config known
    rw [hn, heq]
    exact ⟨rfl, rfl, rfl, rfl⟩
  refine ⟨h.sound, fun id => ?_, fun _ => ⟨Lib.History.matching_empty (fun n => (hboot n).1) ?_ ?_, ?_⟩⟩
  · obtain ⟨config, known, hn⟩ := hnode id
    rw [hn]
    exact seated_boot config known
  · intro T
    refine Set.eq_empty_iff_forall_notMem.mpr ?_
    rintro l ⟨x, hx⟩
    rw [(hboot x).2.1] at hx
    cases hx
  · intro n hn
    exact absurd ((hboot n).2.2.2.symm.trans hn) nofun
  · intro id c hc
    rw [(hboot id).2.2.1] at hc
    cases hc

theorem Cluster.Matched.move {R : Rules} {w : Cluster} {id : NodeId} {n' : RaftNode}
    (h : w.Matched) (hm : Move (R.env w id) (w.node id) n') : (w.set id n').Matched where
  sound := h.sound.move hm
  seated := forall_node (P := fun _ _ => Seated) (fun _ _ _ _ _ h => h) h.seated hm
    ((h.seated id).move hm)
  matching hone := by
    have hg := Cluster.grown_set hm.grows
    obtain ⟨hM, hC⟩ := h.matching (hone.anti hg)
    refine ⟨(hm.op (h.sound.formed id).nodeId).matching hM ?_ ?_, hC.move hM hm⟩
    · exact fun c hp => hC.arrives (R.packet w id _ hp)
    · exact hone.fresh hg h.seated

theorem Reach.matched {G : Cluster → Action → Prop} {w : Cluster} (h : system.Reach G w) :
    w.Matched :=
  Reach.moves Rules.free_guard (fun _ => Cluster.Booted.matched) (fun _ _ _ hI hm => hI.move hm) h

/-- Log matching: entries of one term at one position have one past. -/
theorem reach_logMatching {w : Cluster} (h : system.Reach (fun _ _ => True) w) (hone : OneTenure w)
    {m n : NodeId} {i : Nat} {x y : LogEntry} (hx : (w.node m).log[i]? = some x)
    (hy : (w.node n).log[i]? = some y) (hterm : x.term = y.term) :
    ∀ j ≤ i, (w.node m).log[j]? = (w.node n).log[j]? := by
  obtain ⟨hM, -⟩ := (Reach.matched h).matching hone
  have htake := (hM.logs m).agree hM.chained (hM.logs n) hx hy hterm
  intro j hj
  have hget := congrArg (·[j]?) htake
  simpa [List.getElem?_take_of_lt (Nat.lt_succ_of_le hj), Cluster.history] using hget

theorem trio_logMatching : ∃ w, system.Reach (fun _ _ => True) w ∧ OneTenure w ∧
    ((w.node "a").log[1]? = some ⟨1, 2, .taskSubmit, [3]⟩ ∧
      (w.node "b").log[1]? = some ⟨1, 2, .taskSubmit, [3]⟩) ∧
    ∀ j ≤ 1, (w.node "a").log[j]? = (w.node "b").log[j]? := by
  obtain ⟨w, hw, hx, hy⟩ := Lib.System.Reach.replay (M := system)
    (G := fun w a => ElectionGuard trioVoters w a ∧ NoRestart w a)
    (P := fun w => (w.node "a").log[1]? = some ⟨1, 2, .taskSubmit, [3]⟩ ∧
      (w.node "b").log[1]? = some ⟨1, 2, .taskSubmit, [3]⟩)
    trio_booted taskA (by decide +kernel)
  have hlead : OneLeader w := (Reach.electoral (hw.mono fun _ _ h => h.1)).oneLeader
  have hone := hlead.oneTenure (Reach.matched hw).seated
    (Reach.epoch_eq_zero hw fun _ _ h => h.2)
  have hfree := hw.mono fun _ _ _ => trivial
  exact ⟨w, hfree, hone, ⟨hx, hy⟩, reach_logMatching hfree hone hx hy rfl⟩

end ClaudeCluster.Raft
