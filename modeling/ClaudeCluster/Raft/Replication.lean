import ClaudeCluster.Raft.Matching

/-!
# Replication

What a leader believes about its peers. A follower answers an accepted
request with its whole last index, and the leader takes that number for its
own whatever term the request was of. Both are harmless in runs in which

* a batch the follower already has finds nothing else behind it (`Clean`);
* a success counted by a leader answers a request of its term (`OwnReply`).

There a node gives up nothing it has held for a leader unless a later leader
lacks it (`Keeping`), and a `matchIndex` is the length of a log the peer has
held in this term (`Acked`).
-/

namespace ClaudeCluster.Raft

open RaftNode
open Lib (CutFrom splice splice_batch)
open Lib.History (Matching Keeping)

-- ---------------------------------------------------------------------------
-- Conditions
-- ---------------------------------------------------------------------------

def Cluster.Clean (w : Cluster) (log : List LogEntry) (r : AppendEntriesRequest) : Prop :=
  splice LogEntry.term log r.prevLogIndex r.entries = log →
    ∃ p ∈ (w.node r.leaderId).tenure, p.1 = r.term ∧ log <+: p.2

instance (w : Cluster) (log : List LogEntry) (r : AppendEntriesRequest) :
    Decidable (w.Clean log r) :=
  inferInstanceAs (Decidable (splice LogEntry.term log r.prevLogIndex r.entries = log →
    ∃ p ∈ (w.node r.leaderId).tenure, p.1 = r.term ∧ log <+: p.2))

/-- An accepted batch leaves nothing of another tenure behind it. -/
def CleanBatch (w : Cluster) (a : Action) : Prop :=
  ∀ x ∈ w.stimulus a, ∀ c ∈ x.2.appendEntries, (w.node x.1).currentTerm ≤ c.request.term →
    (w.node x.1).consistent c.request → w.Clean (w.node x.1).log c.request

instance (w : Cluster) (a : Action) : Decidable (CleanBatch w a) :=
  inferInstanceAs (Decidable (∀ x ∈ w.stimulus a, ∀ c ∈ x.2.appendEntries,
    (w.node x.1).currentTerm ≤ c.request.term → (w.node x.1).consistent c.request →
      w.Clean (w.node x.1).log c.request))

/-- A success that reaches a leader answers a request of its term. -/
def OwnReply (n : RaftNode) (s : Stimulus) : Prop :=
  ∀ x ∈ s.appendReply, x.2.success → x.2.term ≤ n.currentTerm → x.1.epoch = n.epoch →
    n.state = .leader → x.1.request.term = n.currentTerm

instance (n : RaftNode) (s : Stimulus) : Decidable (OwnReply n s) :=
  inferInstanceAs (Decidable (∀ x ∈ s.appendReply, x.2.success → x.2.term ≤ n.currentTerm →
    x.1.epoch = n.epoch → n.state = .leader → x.1.request.term = n.currentTerm))

structure Rules.Replicating (D : Set NodeId) (R : Rules) : Prop where
  accept : ∀ w id l r, (R.env w id).accept l r → w.Clean l r
  matched : ∀ w id n c, (R.env w id).matched n c → n.state = .leader →
    c.request.term = n.currentTerm
  reboot : ∀ w id n, (R.env w id).reboot n → n.persistent ∧ (id ∈ D → n.log = [])

theorem Cluster.Clean.mono {w w' : Cluster} {l : List LogEntry} {r : AppendEntriesRequest}
    (hg : w.Grown w') (h : w.Clean l r) : w'.Clean l r := by
  intro heq
  obtain ⟨p, hp, hrest⟩ := h heq
  exact ⟨p, (hg _).tenure hp, hrest⟩

-- ---------------------------------------------------------------------------
-- Acknowledgements
-- ---------------------------------------------------------------------------

/-- A peer counted up to `matchIndex` has held a log of that length for the
leader in its term. -/
def Acked (w : Cluster) (n : RaftNode) : Prop :=
  n.state = .leader → ∀ p ∈ n.peers.values, p.matchIndex = 0 ∨
    ∃ l, (n.currentTerm, l) ∈ (w.node p.nodeId).held ∧ p.matchIndex = lastLogIndex l

section
variable {w w' : Cluster} {id : NodeId} {n n' : RaftNode} {env : Env}

theorem Acked.mono (hg : w.Grown w') (h : Acked w n) : Acked w' n := by
  intro hs p hp
  refine (h hs p hp).imp_right ?_
  rintro ⟨l, hl, hlast⟩
  exact ⟨l, (hg _).held hl, hlast⟩

theorem held_of_arrives (hw : ∀ x, Traffic w x (w.node x)) {c : AppendCall}
    {r : AppendEntriesResponse} (hp : w.Arrives id (.appendReply c r)) (hs : r.success)
    (hep : c.epoch = (w.node id).epoch) :
    (∃ l, (c.request.term, l) ∈ (w.node c.dst).held ∧ r.matchIndex = lastLogIndex l) ∧
      ∀ p ∈ (w.node id).peers.values, p.ref = c.peer → p.nodeId = c.dst := by
  obtain ⟨⟨src, hsrc⟩, hid⟩ := hp
  obtain ⟨rfl, ⟨y, hy⟩, hr⟩ := (hw src).answered c r hsrc
  obtain ⟨hlead, -, hpeer⟩ := (hw y).called c hy
  cases (show c.request.leaderId = id from hid)
  cases hlead
  exact ⟨(hr hs).2, (hpeer hep).2⟩

theorem Acked.move (hp : ∀ p, env.packet p → w.Arrives id p)
    (hmatched : ∀ n c, env.matched n c → n.state = .leader → c.request.term = n.currentTerm)
    (hw : ∀ x, Traffic w x (w.node x)) (h : Acked w (w.node id))
    (hm : Move env (w.node id) n') : Acked w n' := by
  generalize hn : w.node id = n at *
  cases hm with
  | quiet q =>
    intro hs p' hp'
    rw [q.state] at hs
    rw [q.currentTerm]
    rcases q.peers p' hp' with ⟨p, hpm, hid, -, hmi⟩ | ⟨-, hzero⟩
    · rw [← hid, ← hmi]
      exact h hs p hpm
    · exact .inl hzero
  | follow => exact nofun
  | campaign => exact nofun
  | takeOffice =>
    intro _ p' hp'
    obtain ⟨p, -, rfl⟩ := List.mem_map.mp hp'
    exact .inl rfl
  | @matched c r _ hpc hsucc _ hep hmat =>
    subst hn
    intro hs p' hp'
    obtain ⟨p, hpm, rfl⟩ := List.mem_map.mp hp'
    obtain ⟨⟨l, hl, hlast⟩, hpeer⟩ := held_of_arrives hw (hp _ hpc) hsucc hep
    by_cases href : p.ref = c.peer
    · simp only [href, ↓reduceIte]
      rw [hpeer p hpm href]
      exact .inr ⟨l, hmatched _ _ hmat hs ▸ hl, hlast⟩
    · simp only [href, ↓reduceIte]
      exact h hs p hpm
  | commit => exact commitTo_keeps (P := Acked w) h (fun _ => h) _
  | advance => exact updateCommitIndex_keeps (P := Acked w) h fun _ => h
  | @reboot _ known =>
    obtain ⟨peers, nextRef, T, heq, -⟩ := restart_eq known n
    rw [heq]
    exact nofun
  | _ => exact h

end

-- ---------------------------------------------------------------------------
-- Keeping
-- ---------------------------------------------------------------------------

section
variable {w : Cluster} {id : NodeId} {n' : RaftNode} {env : Env}

theorem splice_within {c : AppendCall} (hM : Matching LogEntry.term w.history)
    (hcut : w.Cut c.request) (hT : c.request.term = (w.node id).currentTerm)
    (hcons : (w.node id).consistent c.request) (hclean : w.Clean (w.node id).log c.request) :
    ∃ s ∈ w.history.tenure (w.history.term id),
      splice LogEntry.term (w.history.log id) c.request.prevLogIndex c.request.entries <+: s := by
  obtain ⟨s, hs, hb⟩ := hcut
  rw [hT] at hs
  have hfit := (consistent_iff _ _).mp hcons
  rcases splice_batch ((hM.logs id).matching hM.chained (hM.tenures _ s hs)) hfit hb
    with ⟨heq, -⟩ | ⟨heq, -⟩
  · obtain ⟨⟨T, l⟩, hp, rfl, hpre⟩ := hclean heq
    rw [hT] at hp
    exact ⟨l, ⟨_, hp⟩, heq.symm ▸ hpre⟩
  · exact ⟨s, hs, heq.symm ▸ hb.take_append⟩

theorem Op.keeping {D : Set NodeId} {h' : Lib.History NodeId LogEntry}
    (hM : Matching LogEntry.term w.history) (hK : Keeping D w.history) (hf : Filed (w.node id))
    (hcut : ∀ c, env.packet (.appendEntries c) → w.Cut c.request)
    (hclean : ∀ l r, env.accept l r → w.Clean l r)
    (hreboot : ∀ n, env.reboot n → n.persistent ∧ (id ∈ D → n.log = []))
    (hop : Op env w id n' h') : Keeping D h' := by
  cases hop with
  | same => exact hK
  | raise hT => exact hK.raise hT
  | campaign => exact hK.campaign id
  | grant => exact hK.grant id _
  | elect => exact hK.elect id
  | push => exact hK.push id _
  | @accept c hp hT hc ha =>
    obtain ⟨s, hs, hb⟩ := hcut c hp
    have hin := splice_within hM ⟨s, hs, hb⟩ hT hc (hclean _ _ ha)
    rw [hT] at hs
    exact hK.accept hM hs ((consistent_iff _ _).mp hc) hb hin
  | @reset T hr hT =>
    obtain ⟨hp, hlog⟩ := hreboot _ hr
    have hle : w.history.term id ≤ T := by
      rw [hT hp, hf.file hp]
      exact le_refl _
    by_cases hid : id ∈ D
    · rw [Lib.History.reset_eq_raise (hlog hid)]
      exact hK.raise hle
    · exact hK.reset hid hle

end

-- ---------------------------------------------------------------------------
-- Runs
-- ---------------------------------------------------------------------------

def Cluster.Fresh (w : Cluster) (id : NodeId) (n' : RaftNode) : Prop :=
  (w.node id).state = .candidate →
    ⟨(w.node id).epoch, (w.node id).currentTerm, (w.node id).log⟩ ∈ n'.led →
    w.history.tenure (w.history.term id) = ∅

structure Replicated (D : Set NodeId) (w : Cluster) : Prop where
  sound : w.Sound
  filed : ∀ id, Filed (w.node id)
  seated : ∀ id, Seated (w.node id)
  matching : Matching LogEntry.term w.history
  cuts : w.Cuts
  keeping : Keeping D w.history
  acked : ∀ id, Acked w (w.node id)

theorem Cluster.Booted.replicated {D : Set NodeId} {w : Cluster} (h : w.Booted) :
    Replicated D w := by
  have hboot : ∀ id, Filed (w.node id) ∧ (w.node id).led = [] ∧ (w.node id).tenure = [] ∧
      (w.node id).held = [] ∧ (w.node id).state = .follower := by
    intro id
    obtain ⟨config, known, -, hn⟩ := h id
    obtain ⟨peers, nextRef, heq, -⟩ := boot_eq config known
    refine ⟨hn ▸ filed_boot config known, ?_⟩
    rw [hn, heq]
    exact ⟨rfl, rfl, rfl, rfl⟩
  have hone : OneTenure w := by
    intro m n t ht
    rw [(hboot m).2.1] at ht
    cases ht
  obtain ⟨hM, hC⟩ := h.matched.matching hone
  have hlead : ∀ id, (w.node id).state ≠ .leader := fun id hs =>
    absurd ((hboot id).2.2.2.2.symm.trans hs) nofun
  refine ⟨h.sound, fun id => (hboot id).1, h.matched.seated, hM, hC, ?_, ?_⟩
  · refine Lib.History.keeping_empty (fun id T => Set.eq_empty_iff_forall_notMem.mpr ?_) hlead
    rintro l (hl | hl)
    · rw [(hboot id).2.2.2.1] at hl
      cases hl
    · rw [(hboot id).2.2.1] at hl
      cases hl
  · exact fun id hs => absurd hs (hlead id)

theorem Replicated.move {D : Set NodeId} {R : Rules} {w : Cluster} {id : NodeId} {n' : RaftNode}
    (hR : R.Replicating D) (h : Replicated D w) (hm : Move (R.env w id) (w.node id) n')
    (hfresh : w.Fresh id n') : Replicated D (w.set id n') := by
  have hop := hm.op (h.sound.formed id).nodeId
  have hcut : ∀ c, (R.env w id).packet (.appendEntries c) → w.Cut c.request :=
    fun c hp => h.cuts.arrives (R.packet w id _ hp)
  refine ⟨h.sound.move hm, ?_, ?_, hop.matching h.matching hcut hfresh, h.cuts.move h.matching hm,
    hop.keeping h.matching h.keeping (h.filed id) hcut (hR.accept w id) (hR.reboot w id), ?_⟩
  · exact forall_node (P := fun _ _ => Filed) (fun _ _ _ _ _ h => h) h.filed hm
      ((h.filed id).move (fun n hr => (hR.reboot w id n hr).1) hm)
  · exact forall_node (P := fun _ _ => Seated) (fun _ _ _ _ _ h => h) h.seated hm
      ((h.seated id).move hm)
  · exact forall_node (P := fun w _ => Acked w) (fun _ _ _ _ => Acked.mono) h.acked hm
      ((h.acked id).move (R.packet w id) (hR.matched w id) h.sound.traffic hm)

/-- Runs that turn out to have one tenure a term: each taking of office was
the first of its term. -/
theorem Reach.moves_oneTenure {R : Rules} {G : Cluster → Action → Prop} {J : Cluster → Prop}
    {w : Cluster} (hG : R.Guard (fun _ => True) G) (hinit : ∀ w, w.Booted → J w)
    (hmove : ∀ w id n', J w → Move (R.env w id) (w.node id) n' → w.Fresh id n' → J (w.set id n'))
    (h : system.Reach G w) (hone : OneTenure w) : J w := by
  have hI : w.Matched ∧ (OneTenure w → J w) := by
    refine Reach.moves (R := R) (I := fun w => w.Matched ∧ (OneTenure w → J w)) ?_ ?_ ?_ h
    · exact fun w a id s _ => hG w a id s trivial
    · exact fun w hw => ⟨hw.matched, fun _ => hinit w hw⟩
    · intro w id n' hI hm
      refine ⟨hI.1.move hm, fun hone => ?_⟩
      have hg := Cluster.grown_set hm.grows
      exact hmove w id n' (hI.2 (hone.anti hg)) hm (hone.fresh hg hI.1.seated)
  exact hI.2 hone

def ReplicationGuard (w : Cluster) (a : Action) : Prop :=
  NoRestart w a ∧ CleanBatch w a ∧ Each OwnReply w a

instance (w : Cluster) (a : Action) : Decidable (ReplicationGuard w a) :=
  inferInstanceAs (Decidable (_ ∧ _ ∧ _))

def replicationRules : Rules where
  env w id := { Env.ofPackets (w.Arrives id) with
    accept := w.Clean
    matched := fun n c => n.state = .leader → c.request.term = n.currentTerm
    reboot := fun _ => False }
  packet _ _ _ h := h
  mono _ _ _ hg := ⟨fun _ h => hg.arrives h, fun _ h => h, fun _ _ h => h, fun _ _ h => h,
    fun _ _ h => h.mono hg, fun _ _ h => h, fun _ h => h, fun _ _ h => h, fun _ h => h⟩

theorem replicationRules_replicating : replicationRules.Replicating Set.univ :=
  ⟨fun _ _ _ _ h => h, fun _ _ _ _ h => h, fun _ _ _ h => h.elim⟩

theorem replicationRules_guard : replicationRules.Guard (fun _ => True) ReplicationGuard := by
  rintro w a id s - ⟨hsteady, hclean, hreply⟩ hs
  exact { Env.allows_ofPackets fun p hp => Cluster.stimulus_packet (hp ▸ hs) with
    accept := hclean _ hs
    matched := hreply _ hs
    reboot := fun hr => absurd hr (by simp [hsteady _ hs]) }

theorem Reach.oneTenure {G : Cluster → Action → Prop} {w : Cluster} (h : system.Reach G w)
    (hG : ∀ w a, G w a → NoRestart w a) (hone : OneLeader w) : OneTenure w :=
  hone.oneTenure (Reach.matched h).seated (Reach.epoch_eq_zero h hG)

theorem Reach.replicated {w : Cluster} (h : system.Reach ReplicationGuard w)
    (hone : OneLeader w) : Replicated Set.univ w :=
  Reach.moves_oneTenure replicationRules_guard (fun _ => Cluster.Booted.replicated)
    (fun _ _ _ hJ hm hf => hJ.move replicationRules_replicating hm hf) h
    (Reach.oneTenure h (fun _ _ hg => hg.1) hone)

section
variable {D : Set NodeId} {w : Cluster} {id : NodeId}

theorem Replicated.held_isPrefix (h : Replicated D w) (hs : (w.node id).state = .leader)
    {m : NodeId} {l : List LogEntry} (hl : l ∈ w.history.held m (w.node id).currentTerm) :
    l <+: (w.node id).log := by
  obtain ⟨s, hts, hls⟩ := h.keeping.within m _ l hl
  exact hls.trans (h.matching.longest id s hs hts)

/-- A leader's `matchIndex` is right about a peer that has not moved on to a
later term. -/
theorem reach_matchIndex (h : system.Reach ReplicationGuard w) (hone : OneLeader w)
    (hs : (w.node id).state = .leader) {p : PeerInfo} (hp : p ∈ (w.node id).peers.values)
    (hterm : (w.node p.nodeId).currentTerm ≤ (w.node id).currentTerm) :
    ∀ i < p.matchIndex, ∃ e, (w.node p.nodeId).log[i]? = some e ∧
      (w.node id).log[i]? = some e := by
  have hI := Reach.replicated h hone
  intro i hi
  rcases hI.acked id hs p hp with hzero | ⟨l, hl, hlast⟩
  · omega
  · have hheld : l ∈ w.history.held p.nodeId (w.node id).currentTerm := .inl hl
    have hlen : lastLogIndex l = l.length := ((hI.sound.formed _).held _ l hl).lastLogIndex
    have hmine : l <+: (w.node id).log := hI.held_isPrefix hs hheld
    -- in the leader's own term there is no later tenure that could lack `l`
    have hpeer : l <+: (w.node p.nodeId).log := by
      refine hI.keeping.kept _ trivial _ l l hheld (List.prefix_refl l) ?_
      intro T' s h1 h2
      exact absurd (h1.trans_le h2) (Nat.not_lt.mpr hterm)
    obtain ⟨e, he⟩ : ∃ e, l[i]? = some e := ⟨_, List.getElem?_eq_getElem (by omega)⟩
    exact ⟨e, Lib.getElem?_of_isPrefix hpeer he, Lib.getElem?_of_isPrefix hmine he⟩

end

theorem trio_matchIndex : ∃ w, system.Reach ReplicationGuard w ∧ OneLeader w ∧
    ∃ p ∈ (w.node "a").peers.values, p.nodeId = "b" ∧ p.matchIndex = 1 ∧
      ∃ e, (w.node "b").log[0]? = some e ∧ (w.node "a").log[0]? = some e := by
  obtain ⟨w, hw, hs, p, hp, hid, hmi, hterm⟩ := Lib.System.Reach.replay (M := system)
    (G := fun w a => ElectionGuard trioVoters w a ∧ ReplicationGuard w a)
    (P := fun w => (w.node "a").state = .leader ∧ ∃ p ∈ (w.node "a").peers.values,
      p.nodeId = "b" ∧ p.matchIndex = 1 ∧ (w.node p.nodeId).currentTerm ≤ (w.node "a").currentTerm)
    trio_booted (officeA ++ roundA) (by decide +kernel)
  have hone : OneLeader w := (Reach.electoral (hw.mono fun _ _ h => h.1)).oneLeader
  have hrep := hw.mono fun _ _ h => h.2
  refine ⟨w, hrep, hone, p, hp, hid, hmi, ?_⟩
  have hmatch := reach_matchIndex hrep hone hs hp hterm 0 (by omega)
  rwa [hid] at hmatch

def quintet : Cluster := .ofIds ["a", "b", "c", "d", "e"]

def quintetVoters : Finset NodeId := {"a", "b", "c", "d", "e"}

/-- `a` leads term 1 and `b` takes its noop; `d` leads term 2 without either
and `b` takes its noop instead. -/
def deposed : List Action :=
  [.input "a" .electionTimeout, .deliver "a" 0, .deliver "a" 1, .deliver "b" 0, .deliver "c" 0,
    .input "a" (.voteFails 1 "d"), .input "a" (.voteFails 1 "e"), .input "a" (.electionEnds 1),
    .deliver "a" 4, .deliver "b" 1,
    .input "d" .electionTimeout, .input "d" .electionTimeout, .deliver "d" 6, .deliver "d" 7,
    .deliver "c" 1, .deliver "e" 0, .input "d" (.voteFails 2 "a"), .input "d" (.voteFails 2 "b"),
    .input "d" (.electionEnds 2), .deliver "d" 9]

/-- A leader that was deposed without noticing is wrong about `b`. -/
theorem deposed_matchIndex : ∃ w, system.Reach ReplicationGuard w ∧ OneLeader w ∧
    (w.node "a").state = .leader ∧ ∃ p ∈ (w.node "a").peers.values, ∃ i < p.matchIndex,
      ¬ ∃ e, (w.node p.nodeId).log[i]? = some e ∧ (w.node "a").log[i]? = some e := by
  obtain ⟨w, hw, hs, p, hp, hmi, ha, hb⟩ := Lib.System.Reach.replay (M := system)
    (G := fun w a => ElectionGuard quintetVoters w a ∧ ReplicationGuard w a)
    (P := fun w => (w.node "a").state = .leader ∧ ∃ p ∈ (w.node "a").peers.values,
      0 < p.matchIndex ∧ (w.node "a").log[0]? = some ⟨1, 1, .noop, []⟩ ∧
      (w.node p.nodeId).log[0]? = some ⟨2, 1, .noop, []⟩)
    (Cluster.ofIds_booted _ : system.init quintet) deposed (by decide +kernel)
  have hone : OneLeader w := (Reach.electoral (hw.mono fun _ _ h => h.1)).oneLeader
  refine ⟨w, hw.mono fun _ _ h => h.2, hone, hs, p, hp, 0, hmi, ?_⟩
  rintro ⟨e, he, he'⟩
  rw [hb] at he
  rw [ha, ← he] at he'
  exact absurd he' (by decide)

end ClaudeCluster.Raft
