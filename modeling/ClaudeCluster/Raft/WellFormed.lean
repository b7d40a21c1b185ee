import Mathlib.Data.List.Chain
import ClaudeCluster.Lib.Tenure
import ClaudeCluster.Raft.Runs

/-!
# Logs are well formed

Position and `index` of an entry agree, terms rise along a log and stay below
the node's term. Entries are pushed after a lookup by position, not placed by
their index, so this rests on the requests in flight: each was cut from a well
formed log (`Formed.requests`), and `WellFormed.splice` puts such a batch into
another.
-/

namespace ClaudeCluster.Raft

open Lib

-- ---------------------------------------------------------------------------
-- Logs
-- ---------------------------------------------------------------------------

structure WellFormed (l : List LogEntry) (T : Nat) : Prop where
  index : ∀ k e, l[k]? = some e → e.index = k + 1
  rising : l.IsChain (·.term ≤ ·.term)
  bound : ∀ e ∈ l, e.term ≤ T

namespace WellFormed

variable {l s es : List LogEntry} {T T' prev prevTerm : Nat}

theorem nil : WellFormed [] T := ⟨by simp, .nil, by simp⟩

theorem mono (h : WellFormed l T) (hT : T ≤ T') : WellFormed l T' :=
  ⟨h.index, h.rising, fun e he => (h.bound e he).trans hT⟩

theorem lastLogIndex (h : WellFormed l T) : lastLogIndex l = l.length := by
  unfold Raft.lastLogIndex
  cases he : l.getLast? with
  | none => simp [List.getLast?_eq_none_iff.mp he]
  | some e =>
    have hne : 0 < l.length := List.length_pos_of_mem (List.mem_of_getLast? he)
    rw [List.getLast?_eq_getElem?] at he
    have := h.index _ e he
    simp only [Option.map_some, Option.getD_some]
    omega

theorem nodup (h : WellFormed l T) : l.Nodup := by
  rw [List.nodup_iff_getElem?_ne_getElem?]
  intro i j hij hj heq
  have hy := List.getElem?_eq_getElem hj
  have hi := h.index i _ (heq.trans hy)
  have hj := h.index j _ hy
  omega

theorem concat {e : LogEntry} (h : WellFormed l T) (hi : e.index = l.length + 1)
    (ht : e.term = T) : WellFormed (l ++ [e]) T := by
  refine ⟨?_, ?_, ?_⟩
  · intro k x hx
    rcases Nat.lt_or_ge k l.length with hk | hk
    · rw [List.getElem?_append_left hk] at hx
      exact h.index k x hx
    · have hlen := (List.getElem?_eq_some_iff.mp hx).1
      rw [List.length_append, List.length_singleton] at hlen
      obtain rfl : k = l.length := by omega
      rw [List.getElem?_concat_length, Option.some.injEq] at hx
      exact hx ▸ hi
  · refine List.isChain_append.mpr ⟨h.rising, .singleton _, ?_⟩
    intro x hx y hy
    cases Option.mem_some_iff.mp hy
    exact ht ▸ h.bound x (List.mem_of_getLast? hx)
  · intro x hx
    rcases List.mem_append.mp hx with hx | hx
    · exact h.bound x hx
    · exact (List.mem_singleton.mp hx) ▸ ht.le

theorem term_le {i j : Nat} {x y : LogEntry} (h : WellFormed l T) (hij : i ≤ j)
    (hx : l[i]? = some x) (hy : l[j]? = some y) : x.term ≤ y.term := by
  obtain ⟨hi, rfl⟩ := List.getElem?_eq_some_iff.mp hx
  obtain ⟨hj, rfl⟩ := List.getElem?_eq_some_iff.mp hy
  have : IsTrans LogEntry (·.term ≤ ·.term) := ⟨fun _ _ _ => le_trans⟩
  have hpair : l.Pairwise (·.term ≤ ·.term) := List.isChain_iff_pairwise.mp h.rising
  rcases hij.lt_or_eq with hlt | rfl
  · exact List.pairwise_iff_getElem.mp hpair i j hi hj hlt
  · exact le_refl _

theorem term_le_batch {k : Nat} {x e : LogEntry} (hs : WellFormed s T)
    (hf : Fits LogEntry.term l prev prevTerm) (hb : CutFrom LogEntry.term s prev prevTerm es)
    (hcov : Covers LogEntry.term l prev (es.take k)) (he : es[k]? = some e)
    (hx : (l.take (prev + k)).getLast? = some x) : x.term ≤ e.term := by
  have hse := hb.getElem? he
  have hlen : (es.take k).length = k := by
    have := (List.getElem?_eq_some_iff.mp he).1
    rw [List.length_take, Nat.min_eq_left this.le]
  have hcut : CutFrom LogEntry.term s prev prevTerm (es.take k) :=
    ⟨(List.take_prefix _ _).trans hb.entries, hb.prevTerm⟩
  have hp : prev ≤ s.length := by
    have := (List.getElem?_eq_some_iff.mp hse).1
    omega
  have hpos : 0 < prev + k := by
    rcases Nat.eq_zero_or_pos (prev + k) with h0 | h0
    · simp [h0] at hx
    · exact h0
  obtain ⟨x', y, hx', hy, hterm⟩ := stamp_eq_of_covers hf hcut hp hcov (by rwa [hlen])
  rw [hlen] at hx' hy
  -- `x` is the entry of the log there, of the term `s` has there
  have hxl : l[prev + k - 1]? = some x := by
    rw [List.getLast?_take, if_neg hpos.ne', hx', Option.some_or] at hx
    rw [hx', hx]
  rw [hx', Option.some.injEq] at hxl
  rw [← hxl, hterm]
  exact hs.term_le (Nat.sub_le _ _) hy hse

theorem splice (hl : WellFormed l T) (hs : WellFormed s T)
    (hf : Fits LogEntry.term l prev prevTerm) (hb : CutFrom LogEntry.term s prev prevTerm es) :
    WellFormed (splice LogEntry.term l prev es) T := by
  rcases splice_cases LogEntry.term hf.le_length es with ⟨h, -⟩ | ⟨k, e, he, h, hk, hcov, -⟩
  · rwa [h]
  · rw [h]
    have hlen : (l.take (prev + k)).length = prev + k := by simp [hk]
    refine ⟨?_, ?_, ?_⟩
    · intro i x hx
      rcases Nat.lt_or_ge i (prev + k) with hi | hi
      · rw [List.getElem?_append_left (by omega)] at hx
        exact hl.index i x (getElem?_of_isPrefix (List.take_prefix _ _) hx)
      · rw [List.getElem?_append_right (by omega), hlen, List.getElem?_drop] at hx
        rw [hs.index _ x (hb.getElem? hx)]
        omega
    · have hes : es.IsChain (·.term ≤ ·.term) := by
        exact List.IsChain.prefix (hs.rising.drop prev) hb.entries
      refine List.isChain_append.mpr ⟨hl.rising.take _, hes.drop k, ?_⟩
      intro x hx y hy
      rw [List.head?_drop, he] at hy
      cases Option.mem_some_iff.mp hy
      exact hs.term_le_batch hf hb hcov he hx
    · intro x hx
      rcases List.mem_append.mp hx with hx | hx
      · exact hl.bound x (List.mem_of_mem_take hx)
      · exact hs.bound x (List.mem_of_mem_drop (hb.entries.subset (List.mem_of_mem_drop hx)))

end WellFormed

-- ---------------------------------------------------------------------------
-- Nodes
-- ---------------------------------------------------------------------------

def RequestFormed (r : AppendEntriesRequest) : Prop :=
  ∃ s, WellFormed s r.term ∧ CutFrom LogEntry.term s r.prevLogIndex r.prevLogTerm r.entries

structure Formed (id : NodeId) (n : RaftNode) : Prop where
  nodeId : n.nodeId = id
  log : WellFormed n.log n.currentTerm
  tenure : ∀ T l, (T, l) ∈ n.tenure → WellFormed l T
  held : ∀ T l, (T, l) ∈ n.held → WellFormed l T
  votes : ∀ v ∈ n.votes, WellFormed v.log v.term
  requests : ∀ c, .appendEntries c ∈ n.sent → RequestFormed c.request

namespace RaftNode

variable {n n' : RaftNode} {env : Env} {id : NodeId}

/-- A `nextIndex` past the log gives an empty batch, cut from anywhere. -/
theorem cutFrom_appendEntriesRequest (n : RaftNode) (peer : PeerInfo) :
    CutFrom LogEntry.term n.log (n.appendEntriesRequest peer).prevLogIndex
      (n.appendEntriesRequest peer).prevLogTerm (n.appendEntriesRequest peer).entries := by
  constructor
  · have hwire : LogEntry.overWire = id := funext LogEntry.overWire_eq
    simp only [appendEntriesRequest, hwire, List.map_id]
    exact List.take_prefix _ _
  · intro e hpos he
    simp only [appendEntriesRequest] at hpos he ⊢
    simp [hpos, he]

theorem consistent_iff (n : RaftNode) (r : AppendEntriesRequest) :
    n.consistent r ↔ Fits LogEntry.term n.log r.prevLogIndex r.prevLogTerm := by
  simp [consistent, Fits, Option.any_eq_true]

end RaftNode

open RaftNode

section
variable {n n' : RaftNode} {env : Env} {id : NodeId}

theorem Formed.commitAt (h : Formed id n) (c : Nat) : Formed id (n.commitAt c) :=
  ⟨h.nodeId, h.log, h.tenure, h.held, h.votes, h.requests⟩

theorem Formed.send {p : Packet} (h : Formed id n) (hp : ∀ c, p ≠ .appendEntries c) :
    Formed id (n.send p) := by
  refine { h with requests := ?_ }
  intro c hc
  rcases List.mem_append.mp hc with hc | hc
  · exact h.requests c hc
  · exact absurd (List.mem_singleton.mp hc).symm (hp c)

theorem Formed.move (hp : ∀ c, env.packet (.appendEntries c) → RequestFormed c.request)
    (h : Formed id n) (hm : Move env n n') : Formed id n' := by
  cases hm with
  | quiet q =>
    refine ⟨(congrArg RaftConfig.nodeId q.config).trans h.nodeId, ?_, ?_, ?_, ?_, ?_⟩
    · rw [q.log, q.currentTerm]
      exact h.log
    · rw [q.tenure]
      exact h.tenure
    · rw [q.held]
      exact h.held
    · rw [q.votes]
      exact h.votes
    · rw [q.sent]
      exact h.requests
  | follow hT => exact { h with log := h.log.mono hT }
  | campaign =>
    have hlog := h.log.mono (Nat.le_succ _)
    refine { h with log := hlog, votes := forall_mem_concat h.votes hlog, requests := ?_ }
    intro c hc
    rcases mem_campaign hc with hc | ⟨peer, -, hc⟩
    · exact h.requests c hc
    · cases hc
  | grant => exact { h with votes := forall_mem_concat h.votes h.log }
  | answerVote => exact h.send fun c => nofun
  | ballot => exact { h with }
  | takeOffice => exact { h with tenure := forall_pair_concat h.tenure h.log }
  | @push n type data =>
    have hnew : WellFormed (n.log ++ [n.newEntry type data]) n.currentTerm :=
      h.log.concat (congrArg (· + 1) h.log.lastLogIndex) rfl
    exact { h with log := hnew, tenure := forall_pair_concat h.tenure hnew }
  | replicate =>
    refine { h with requests := ?_ }
    intro c hc
    rcases mem_replicate hc with hc | ⟨peer, -, hc⟩
    · exact h.requests c hc
    · cases hc
      exact ⟨n.log, h.log, cutFrom_appendEntriesRequest n peer⟩
  | @accept c n hpc hT hcons =>
    obtain ⟨s, hs, hb⟩ := hp c hpc
    have hnew := h.log.splice (hT ▸ hs) ((consistent_iff n c.request).mp hcons) hb
    exact { h with log := hnew, held := forall_pair_concat h.held hnew }
  | commit => exact commitTo_keeps (P := Formed id) h h.commitAt _
  | answerAppend => exact h.send fun c => nofun
  | matched => exact { h with }
  | advance => exact updateCommitIndex_keeps (P := Formed id) h h.commitAt
  | resolve => exact { h with }
  | @reboot n known =>
    obtain ⟨peers, nextRef, T, heq, -⟩ := restart_eq known n
    rw [heq]
    exact { h with log := .nil }

theorem Formed.moves (hp : ∀ c, env.packet (.appendEntries c) → RequestFormed c.request)
    (h : Formed id n) (hm : Moves env n n') : Formed id n' := by
  induction hm with
  | refl => exact h
  | tail _ hm ih => exact ih.move hp hm

theorem formed_boot (config : RaftConfig) (known : List (NodeId × Bool)) :
    Formed config.nodeId (boot config known) := by
  obtain ⟨peers, nextRef, heq, -⟩ := boot_eq config known
  rw [heq]
  exact ⟨rfl, .nil, nofun, nofun, nofun, nofun⟩

end

-- ---------------------------------------------------------------------------
-- Runs
-- ---------------------------------------------------------------------------

def Cluster.Formed (w : Cluster) : Prop := ∀ id, Raft.Formed id (w.node id)

theorem Cluster.Booted.formed {w : Cluster} (h : w.Booted) : w.Formed := by
  intro id
  obtain ⟨config, known, rfl, heq⟩ := h id
  rw [heq]
  exact formed_boot config known

theorem Cluster.Formed.arrives {w : Cluster} {id : NodeId} {c : AppendCall} (h : w.Formed)
    (hp : w.Arrives id (.appendEntries c)) : RequestFormed c.request := by
  obtain ⟨⟨src, hsrc⟩, -⟩ := hp
  exact (h src).requests c hsrc

theorem Cluster.Formed.move {R : Rules} {w : Cluster} {id : NodeId} {n' : RaftNode}
    (h : w.Formed) (hm : Move (R.env w id) (w.node id) n') : (w.set id n').Formed :=
  forall_node (P := fun _ => Raft.Formed) (fun _ _ _ _ _ h => h) h hm
    ((h id).move (fun _ hc => h.arrives (R.packet w id _ hc)) hm)

theorem Reach.formed {G : Cluster → Action → Prop} {w : Cluster} (h : system.Reach G w) :
    w.Formed :=
  Reach.moves Rules.free_guard (fun _ => Cluster.Booted.formed) (fun _ _ _ hI hm => hI.move hm) h

-- ---------------------------------------------------------------------------
-- Terms
-- ---------------------------------------------------------------------------

section
variable {n n' : RaftNode} {env : Env}

theorem RaftNode.Move.currentTerm_le (hm : Move env n n') (he : n'.epoch = n.epoch) :
    n.currentTerm ≤ n'.currentTerm := by
  cases hm with
  | quiet q => exact q.currentTerm.ge
  | follow hT => exact hT
  | campaign => exact Nat.le_succ _
  | commit => exact commitTo_keeps (P := fun m => n.currentTerm ≤ m.currentTerm) (le_refl _) (fun _ => le_refl _) _
  | advance => exact updateCommitIndex_keeps (P := fun m => n.currentTerm ≤ m.currentTerm) (le_refl _) fun _ => le_refl _
  | @reboot n known =>
    obtain ⟨peers, nextRef, T, heq, -⟩ := restart_eq known n
    rw [heq] at he
    exact absurd he (Nat.succ_ne_self _)
  | _ => exact le_refl _

theorem RaftNode.Moves.currentTerm_le (hm : Moves env n n') :
    n.epoch ≤ n'.epoch ∧ (n'.epoch = n.epoch → n.currentTerm ≤ n'.currentTerm) := by
  induction hm with
  | refl => exact ⟨le_refl _, fun _ => le_refl _⟩
  | tail _ hm ih =>
    have hg := hm.grows.epoch
    refine ⟨ih.1.trans hg, fun he => ?_⟩
    exact (ih.2 (by omega)).trans (hm.currentTerm_le (by omega))

end

theorem Cluster.step_currentTerm_le {w w' : Cluster} {a : Action} (h : w.step a = some w')
    (id : NodeId) (he : (w'.node id).epoch = (w.node id).epoch) :
    (w.node id).currentTerm ≤ (w'.node id).currentTerm := by
  obtain ⟨x, s, n', hs, hn, rfl⟩ := Cluster.step_eq h
  by_cases hx : id = x
  · subst hx
    have hall := Rules.free_guard (I := fun _ => True) (G := fun _ _ => True) w a id s
      trivial trivial hs
    have hle := RaftNode.Moves.currentTerm_le (RaftNode.step_moves hn hall)
    rw [set_node_self] at he ⊢
    exact hle.2 he
  · rw [set_node_ne w n' hx]

/-- Every reachable log is well formed, whoever led when, and no step within
one process lowers a term. -/
theorem reach_wellFormed {w : Cluster} (h : system.Reach (fun _ _ => True) w) :
    (∀ id, WellFormed (w.node id).log (w.node id).currentTerm) ∧
    ∀ a w', w.step a = some w' → ∀ id, (w'.node id).epoch = (w.node id).epoch →
      (w.node id).currentTerm ≤ (w'.node id).currentTerm :=
  ⟨fun id => ((Reach.formed h) id).log, fun _ _ hs => Cluster.step_currentTerm_le hs⟩

theorem trio_wellFormed : ∃ w, system.Reach (fun _ _ => True) w ∧
    ((w.node "b").log.length = 2 ∧ (w.node "b").currentTerm = 1) ∧
    ∀ id, WellFormed (w.node id).log (w.node id).currentTerm := by
  obtain ⟨w, hw, hb⟩ := Lib.System.Reach.replay (M := system) (G := fun _ _ => True)
    (P := fun w => (w.node "b").log.length = 2 ∧ (w.node "b").currentTerm = 1) trio_booted
    taskA (by decide +kernel)
  exact ⟨w, hw, hb, (reach_wellFormed hw).1⟩

end ClaudeCluster.Raft
