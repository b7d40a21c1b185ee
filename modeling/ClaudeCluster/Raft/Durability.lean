import ClaudeCluster.Raft.Agreement

/-!
# Acknowledged writes

`appendEntry` resolves with success when its round of replication ends,
whatever became of the RPCs in it. What it has acknowledged is committed in
runs in which the node still leads the entry's term then and a majority is
known to have the entry (`MajorityRound`): the `updateCommitIndex` that ends
the round has just committed it, or an earlier one has.
-/

namespace ClaudeCluster.Raft

open RaftNode

-- ---------------------------------------------------------------------------
-- Pending rounds
-- ---------------------------------------------------------------------------

/-- A round of an `appendEntry` is of an entry the node has pushed as leader. -/
def Pending (n : RaftNode) : Prop :=
  ∀ r ∈ n.rounds, ∀ e ∈ r.entry, ∃ l, (e.term, l ++ [e]) ∈ n.tenure

section
variable {n n' : RaftNode} {env : Env}

theorem Pending.grow (h : Pending n) (hr : n'.rounds = n.rounds) (ht : n.tenure ⊆ n'.tenure) :
    Pending n' := by
  intro r hmem e he
  obtain ⟨l, hl⟩ := h r (hr ▸ hmem) e he
  exact ⟨l, ht hl⟩

theorem Pending.move (h : Pending n) (hm : Move env n n') : Pending n' := by
  cases hm with
  | quiet q =>
    intro r' hr' e he
    obtain ⟨r, hr, hentry⟩ := q.rounds r' hr'
    rw [q.tenure]
    exact h r hr e (hentry ▸ he)
  | takeOffice => exact h.grow rfl (List.subset_append_left _ _)
  | push => exact h.grow rfl (List.subset_append_left _ _)
  | replicate _ hentry =>
    refine forall_mem_concat h fun e he => ?_
    obtain ⟨hterm, l, hl⟩ := hentry e he
    exact ⟨l, hterm ▸ hl⟩
  | commit => exact commitTo_keeps (P := Pending) h (fun _ => h) _
  | advance => exact updateCommitIndex_keeps (P := Pending) h fun _ => h
  | @reboot n known =>
    obtain ⟨peers, nextRef, T, heq, -⟩ := restart_eq known n
    rw [heq]
    exact nofun
  | _ => exact h

end

section
variable {V : Finset NodeId} {w : Cluster} {id : NodeId} {e : LogEntry} {l : List LogEntry}

theorem Agreed.pushed (h : Agreed V w) (hs : (w.node id).state = .leader)
    (hterm : (w.node id).currentTerm = e.term) (hl : (e.term, l ++ [e]) ∈ (w.node id).tenure) :
    0 < e.index ∧ (w.node id).log[e.index - 1]? = some e := by
  have hidx : e.index = l.length + 1 :=
    ((h.replicated.sound.formed id).tenure _ _ hl).index _ e List.getElem?_concat_length
  have hin : l ++ [e] ∈ w.history.tenure (w.node id).currentTerm := ⟨id, hterm ▸ hl⟩
  have hpre : l ++ [e] <+: (w.node id).log := h.replicated.matching.longest id _ hs hin
  rw [hidx]
  exact ⟨Nat.succ_pos _, Lib.getElem?_of_isPrefix hpre List.getElem?_concat_length⟩

theorem Agreed.final_of_pushed (h : Agreed V w) (hs : (w.node id).state = .leader)
    (hterm : (w.node id).currentTerm = e.term) (hl : (e.term, l ++ [e]) ∈ (w.node id).tenure)
    (hle : e.index ≤ (w.node id).commitIndex) : w.Final V e := by
  obtain ⟨hpos, hget⟩ := h.pushed hs hterm hl
  refine ⟨_, _, (h.settled id).decided, hpos, ?_⟩
  rwa [List.getElem?_take_of_lt (by omega)]

end

-- ---------------------------------------------------------------------------
-- A majority that is known
-- ---------------------------------------------------------------------------

namespace RaftNode

variable {n : RaftNode}

theorem newCommitIndex_mem (n : RaftNode) : n.newCommitIndex ∈ n.matchIndices :=
  (List.mem_insertionSort _).mp (List.mem_of_getElem? n.getElem?_newCommitIndex)

def MajorityAt (n : RaftNode) (x : Nat) : Prop :=
  n.matchIndices.length < 2 * n.matchIndices.countP (x ≤ ·)

instance (n : RaftNode) (x : Nat) : Decidable (n.MajorityAt x) :=
  inferInstanceAs (Decidable (_ < _))

theorem MajorityAt.le_newCommitIndex {x : Nat} (h : n.MajorityAt x) : x ≤ n.newCommitIndex := by
  refine le_getElem_insertionSort ?_ n.getElem?_newCommitIndex
  rw [MajorityAt] at h
  omega

/-- A majority at an entry of the term is enough to commit it, although only
the entry at the majority position is looked at: terms rise up to there and
end at the node's own. -/
theorem MajorityAt.le_commitIndex {N : Nat} {e : LogEntry} (h : n.MajorityAt N)
    (hlog : WellFormed n.log n.currentTerm) (hbound : n.newCommitIndex ≤ n.log.length)
    (hpos : 0 < N) (hget : n.log[N - 1]? = some e) (hterm : e.term = n.currentTerm) :
    N ≤ n.updateCommitIndex.commitIndex := by
  have hle := h.le_newCommitIndex
  rw [updateCommitIndex_eq]
  split
  case isTrue => exact hle
  case isFalse hc =>
    by_contra hlt
    obtain ⟨x, hx⟩ : ∃ x, n.log[n.newCommitIndex - 1]? = some x :=
      ⟨_, List.getElem?_eq_getElem (by omega)⟩
    have hxe : e.term ≤ x.term := hlog.term_le (by omega) hget hx
    have hxT : x.term ≤ n.currentTerm := hlog.bound x (List.mem_of_getElem? hx)
    exact hc (canAdvance_iff.mpr ⟨by omega, x, hx, by omega⟩)

theorem le_updateCommitIndex (n : RaftNode) : n.commitIndex ≤ n.updateCommitIndex.commitIndex := by
  rw [updateCommitIndex_eq]
  split
  case isTrue hc => exact (canAdvance_iff.mp hc).1.le
  case isFalse => exact le_refl _

end RaftNode

section
variable {D : Set NodeId} {V : Finset NodeId} {w : Cluster} {id : NodeId} {e : LogEntry}

theorem Replicated.newCommitIndex_le (h : Replicated D w) (hs : (w.node id).state = .leader) :
    (w.node id).newCommitIndex ≤ (w.node id).log.length := by
  rcases List.mem_cons.mp (w.node id).newCommitIndex_mem with heq | hmem
  · rw [heq, getLastLogIndex, (h.sound.formed id).log.lastLogIndex]
  · obtain ⟨p, hp, heq⟩ := List.mem_map.mp hmem
    rw [← heq]
    rcases h.acked id hs p (List.mem_of_mem_filter hp) with hzero | ⟨l, hl, hlast⟩
    · omega
    · rw [hlast, ((h.sound.formed _).held _ l hl).lastLogIndex]
      exact (h.held_isPrefix hs (.inl hl)).length_le

theorem Agreed.le_commitIndex (h : Agreed V w) (hs : (w.node id).state = .leader)
    (hterm : (w.node id).currentTerm = e.term) (hpos : 0 < e.index)
    (hget : (w.node id).log[e.index - 1]? = some e)
    (hmaj : e.index ≤ (w.node id).commitIndex ∨ (w.node id).MajorityAt e.index) :
    e.index ≤ (w.node id).updateCommitIndex.commitIndex := by
  rcases hmaj with hle | hmaj
  · exact hle.trans (le_updateCommitIndex _)
  · exact hmaj.le_commitIndex (h.replicated.sound.formed id).log
      (h.replicated.newCommitIndex_le hs) hpos hget hterm.symm

end

-- ---------------------------------------------------------------------------
-- Runs
-- ---------------------------------------------------------------------------

/-- When the round of an `appendEntry` ends, its node still leads the term of
the entry, and has committed it or counts a majority at it. -/
def MajorityRound (n : RaftNode) (s : Stimulus) : Prop :=
  ∀ r ∈ n.closing s, ∀ e ∈ r.entry, n.state = .leader ∧ n.currentTerm = e.term ∧
    (e.index ≤ n.commitIndex ∨ n.MajorityAt e.index)

instance (n : RaftNode) (s : Stimulus) : Decidable (MajorityRound n s) :=
  inferInstanceAs (Decidable (∀ r ∈ n.closing s, ∀ e ∈ r.entry,
    n.state = .leader ∧ n.currentTerm = e.term ∧
      (e.index ≤ n.commitIndex ∨ n.MajorityAt e.index)))

def DurableGuard (V : Finset NodeId) (w : Cluster) (a : Action) : Prop :=
  AgreementGuard V w a ∧ Each MajorityRound w a

instance (V : Finset NodeId) (w : Cluster) (a : Action) : Decidable (DurableGuard V w a) :=
  inferInstanceAs (Decidable (_ ∧ _))

def Acknowledges (n : RaftNode) (e : LogEntry) : Prop :=
  n.state = .leader ∧ n.currentTerm = e.term ∧ e.index ≤ n.commitIndex

structure Durable (V : Finset NodeId) (w : Cluster) : Prop where
  consistent : Consistent V w
  pending : ∀ id, Pending (w.node id)
  resolved : ∀ id, ∀ e ∈ (w.node id).resolved, w.Final V e

section
variable {V : Finset NodeId} {w : Cluster} {id : NodeId} {n' : RaftNode} {env : Env}

theorem resolved_move (hA : Agreed V w) (hP : Pending (w.node id))
    (hres : ∀ n e, env.resolve n e → Acknowledges n e)
    (h : ∀ e ∈ (w.node id).resolved, w.Final V e) (hm : Move env (w.node id) n') :
    ∀ e ∈ n'.resolved, w.Final V e := by
  generalize hn : w.node id = n at *
  cases hm with
  | quiet q =>
    rw [q.resolved]
    exact h
  | commit => exact commitTo_keeps (P := fun n => ∀ e ∈ n.resolved, w.Final V e) h (fun _ => h) _
  | advance => exact updateCommitIndex_keeps (P := fun n => ∀ e ∈ n.resolved, w.Final V e) h fun _ => h
  | resolve hr he hack =>
    refine forall_mem_concat h ?_
    obtain ⟨hs, hterm, hle⟩ := hres _ _ hack
    obtain ⟨l, hl⟩ := hP _ hr _ he
    subst hn
    exact hA.final_of_pushed hs hterm hl hle
  | @reboot _ known =>
    obtain ⟨peers, nextRef, T, heq, -⟩ := restart_eq known n
    rw [heq]
    exact h
  | _ => exact h

theorem Durable.move (h : Durable V w)
    (hm : Move ((committingRules V NoOtherVote Acknowledges).env w id) (w.node id) n') :
    Durable V (w.set id n') where
  consistent := h.consistent.move hm
  pending := forall_node (P := fun _ _ => Pending) (fun _ _ _ _ _ h => h) h.pending hm
    ((h.pending id).move hm)
  resolved := forall_node (P := fun w _ n => ∀ e ∈ n.resolved, w.Final V e)
    (fun _ _ _ _ hg h e he => (h e he).mono hg) h.resolved hm
    (resolved_move h.consistent.agreed (h.pending id) (fun _ _ h => h) (h.resolved id) hm)

theorem Cluster.Booted.durable (h : w.Booted) : Durable V w := by
  refine ⟨⟨h.electoral, h.agreed⟩, ?_, ?_⟩ <;>
  · intro id
    obtain ⟨config, known, -, hn⟩ := h id
    obtain ⟨peers, nextRef, heq, -⟩ := boot_eq config known
    rw [hn, heq]
    exact nofun

theorem Reach.durable (h : system.Reach (DurableGuard V) w) : Durable V w := by
  refine Reach.moves (R := committingRules V NoOtherVote Acknowledges) ?_
    (fun _ => Cluster.Booted.durable) (fun _ _ _ hI hm => hI.move hm) h
  intro w a id s hI hg hs
  refine hg.1.allows hI.consistent hs fun r hr e he => ?_
  obtain ⟨hlead, hterm, hmaj⟩ := hg.2 _ hs r hr e he
  have hmem : r ∈ (w.node id).rounds := by
    match s, hr with
    | .input (.roundEnds _), hr => exact List.mem_of_find?_eq_some hr
  obtain ⟨l, hl⟩ := hI.pending id r hmem e he
  obtain ⟨hpos, hget⟩ := hI.consistent.agreed.pushed hlead hterm hl
  have hle := hI.consistent.agreed.le_commitIndex hlead hterm hpos hget hmaj
  have hsame : (w.node id).updateCommitIndex.state = (w.node id).state ∧
      (w.node id).updateCommitIndex.currentTerm = (w.node id).currentTerm := by
    rw [updateCommitIndex_eq]
    split <;> exact ⟨rfl, rfl⟩
  exact ⟨hsame.1.trans hlead, hsame.2.trans hterm, hle⟩

/-- An entry for which `appendEntry` has resolved with success is the only one
any node applies at its index, whatever leaders follow. -/
theorem reach_durable (h : system.Reach (DurableGuard V) w) {m n : NodeId} {e e' : LogEntry}
    (he : e ∈ (w.node m).resolved) (he' : .entryCommitted e' ∈ (w.node n).emitted)
    (hidx : e'.index = e.index) : e' = e := by
  have hD := Reach.durable h
  exact hD.consistent.agreed.final_unique ((hD.consistent.agreed.settled n).emitted e' he')
    (hD.resolved m e he) hidx

end

theorem trio_durable : ∃ w, system.Reach (DurableGuard trioVoters) w ∧
    ∃ e ∈ (w.node "a").resolved, ∃ e', .entryCommitted e' ∈ (w.node "b").emitted ∧
      e'.index = e.index ∧ e' = e := by
  obtain ⟨w, hw, he, he'⟩ := Lib.System.Reach.replay (M := system)
    (G := DurableGuard trioVoters)
    (P := fun w => ⟨1, 1, .noop, []⟩ ∈ (w.node "a").resolved ∧
      .entryCommitted ⟨1, 1, .noop, []⟩ ∈ (w.node "b").emitted)
    trio_booted tellB (by decide +kernel)
  exact ⟨w, hw, _, he, _, he', rfl, reach_durable hw he he' rfl⟩

/-- `a` leads term 1 and reaches nobody; its `appendEntry` resolves all the same. -/
def unheard : List Action :=
  officeA ++ [.input "a" (.appendEntry .memoryWrite [1]), .input "a" (.appendFails 1 0),
    .input "a" (.appendFails 1 1), .input "a" (.roundEnds 1)]

/-- `b` leads term 2 with `c` and commits two entries of its own. -/
def overruled : List Action :=
  [.input "b" .electionTimeout, .deliver "b" 2, .deliver "c" 1, .input "b" (.voteFails 2 "a"),
    .input "b" (.electionEnds 2), .input "b" (.appendEntry .taskSubmit [2]), .deliver "b" 6,
    .deliver "c" 2, .input "b" (.appendFails 1 0), .input "b" (.roundEnds 1)]

theorem resolved_overruled :
    ∃ w w', system.Reach (fun w a => OneVotingSet trioVoters w a ∧ NoRestart w a) w ∧
      (system.after w).Reach (fun w a => OneVotingSet trioVoters w a ∧ NoRestart w a) w' ∧
      ∃ e ∈ (w.node "a").resolved, ∃ e', .entryCommitted e' ∈ (w'.node "b").emitted ∧
        e'.index = e.index ∧ e' ≠ e := by
  obtain ⟨w, hw, he, hrun⟩ := Lib.System.Reach.replay (M := system)
    (G := fun w a => OneVotingSet trioVoters w a ∧ NoRestart w a)
    (P := fun w => ⟨1, 2, .memoryWrite, [1]⟩ ∈ (w.node "a").resolved ∧
      ((system.after w).exec (fun w a => OneVotingSet trioVoters w a ∧ NoRestart w a) w
        overruled).any fun w' => .entryCommitted ⟨2, 2, .taskSubmit, [2]⟩ ∈ (w'.node "b").emitted)
    trio_booted unheard (by decide +kernel)
  obtain ⟨w', hw', he'⟩ := Lib.System.Reach.replay (M := system.after w) rfl overruled hrun
  exact ⟨w, w', hw, hw', _, he, _, he', rfl, by decide⟩

end ClaudeCluster.Raft
