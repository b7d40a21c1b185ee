import ClaudeCluster.Raft.Delivery

/-!
# What a follower has acknowledged

A request is cut from the log its sender has when the step that sends it ends
(`step_sends`), and stays on the wire in its place. Once a follower has
answered it with success, it has the sender's log of that moment up to the end
of the batch; all batches of the term are cut from logs of one tenure, which
extend each other, so as long as the follower stays in the term it keeps that
part (`acknowledged_prefix`).
-/

namespace ClaudeCluster.Raft

open Lib

-- ---------------------------------------------------------------------------
-- What a step sends
-- ---------------------------------------------------------------------------

namespace RaftNode

/-- From `n` to `n'` only packets were added to those sent, and a request
among them is built from `n'`, which leads. -/
def Sends (n n' : RaftNode) : Prop :=
  ∃ packets, n'.sent = n.sent ++ packets ∧ ∀ c, .appendEntries c ∈ packets →
    n'.state = .leader ∧ ∃ peer, c.request = n'.appendEntriesRequest peer

section
variable {n n' m : RaftNode}

theorem Sends.of_eq (h : n'.sent = n.sent) : Sends n n' :=
  ⟨[], by rw [h, List.append_nil], nofun⟩

theorem Sends.of_sent_eq (hm : m.sent = n.sent) (h : Sends m n') : Sends n n' := by
  obtain ⟨packets, hs, hc⟩ := h
  exact ⟨packets, hm ▸ hs, hc⟩

theorem sends_replicateToFollowers (entry : Option LogEntry) (h : n.state = .leader) :
    Sends n (n.replicateToFollowers entry) := by
  refine ⟨_, rfl, fun c hc => ⟨h, ?_⟩⟩
  obtain ⟨peer, -, heq⟩ := List.mem_map.mp hc
  cases heq
  exact ⟨peer, rfl⟩

theorem sends_appendEntry (type : LogEntryType) (data : Buffer) :
    Sends n (n.appendEntry type data) := by
  unfold appendEntry
  split
  · exact .of_eq rfl
  case isFalse hs =>
    exact Sends.of_sent_eq (m := n.pushEntry (n.newEntry type data)) rfl
      (sends_replicateToFollowers _ (not_not.mp hs))

theorem sends_becomeLeader : Sends n n.becomeLeader := by
  obtain ⟨packets, hs, hc⟩ := Sends.of_sent_eq (n := n) (m := n.takeOffice) rfl
    (sends_appendEntry .noop [])
  exact ⟨packets, hs, hc⟩

theorem sends_becomeCandidate : Sends n n.becomeCandidate := by
  refine ⟨_, rfl, fun c hc => ?_⟩
  obtain ⟨peer, -, heq⟩ := List.mem_map.mp hc
  cases heq

theorem sends_send {p : Packet} (hm : m.sent = n.sent) (hp : ∀ c, p ≠ .appendEntries c) :
    Sends n (m.send p) := by
  refine ⟨[p], by rw [send, hm], fun c hc => ?_⟩
  exact absurd (List.mem_singleton.mp hc).symm (hp c)

theorem observeTerm_sent (n : RaftNode) (T : Nat) : (n.observeTerm T).sent = n.sent := by
  unfold observeTerm
  split <;> rfl

theorem handleRequestVote_sent (r : RequestVoteRequest) :
    (n.handleRequestVote r).1.sent = n.sent := by
  have hobs := observeTerm_sent n r.term
  unfold handleRequestVote
  dsimp only
  split <;> exact hobs

theorem handleAppendEntries_sent (r : AppendEntriesRequest) :
    (n.handleAppendEntries r).1.sent = n.sent := by
  have hgreet : (n.greet r).sent = n.sent :=
    (quiet_noteLeader _ _).sent.trans (observeTerm_sent n r.term)
  rw [handleAppendEntries_eq]
  split
  · rfl
  · split
    · exact commitTo_keeps (n := (n.greet r).acceptEntries r) (P := fun m => m.sent = n.sent)
        hgreet (fun _ => hgreet) _
    · exact hgreet

theorem receive_sends (n : RaftNode) (p : Packet) : Sends n (n.receive p) := by
  cases p with
  | requestVote c => exact sends_send (handleRequestVote_sent c.request) (by simp)
  | voteReply c r =>
    refine .of_eq ?_
    simp only [receive, handleVoteReply]
    split
    · split
      · split <;> rfl
      · rfl
    · rfl
  | appendEntries c => exact sends_send (handleAppendEntries_sent c.request) (by simp)
  | appendReply c r =>
    refine .of_eq ?_
    simp only [receive, handleAppendReply]
    split
    · split
      · rfl
      · split <;> rfl
    · rfl

theorem act_sends {i : Input} (h : n.act i = some n') : Sends n n' := by
  cases i with
  | electionTimeout =>
    simp only [act, Option.ite_none_right_eq_some, Option.some.injEq] at h
    obtain ⟨-, rfl⟩ := h
    simp only [fireElectionTimeout]
    split
    · exact sends_becomeCandidate.of_sent_eq rfl
    · exact .of_eq rfl
  | timeoutNow T =>
    cases h
    unfold timeoutNow triggerImmediateElection
    split
    · exact .of_eq rfl
    · split
      · exact .of_eq rfl
      · split
        · exact .of_eq rfl
        · exact sends_becomeCandidate.of_sent_eq rfl
  | stepDown =>
    cases h
    unfold stepDown
    split <;> exact .of_eq rfl
  | appendEntry type data =>
    cases h
    exact sends_appendEntry type data
  | heartbeat =>
    simp only [act, Option.ite_none_right_eq_some, Option.some.injEq] at h
    obtain ⟨-, rfl⟩ := h
    split
    case isTrue hs => exact sends_replicateToFollowers none hs
    case isFalse => exact .of_eq rfl
  | voteFails T peer =>
    simp only [act, Option.ite_none_right_eq_some, Option.some.injEq] at h
    exact h.2 ▸ .of_eq rfl
  | electionEnds T =>
    simp only [act] at h
    split at h
    · simp only [Option.ite_none_right_eq_some, Option.some.injEq] at h
      obtain ⟨-, rfl⟩ := h
      simp only [finishElection]
      split
      · exact .of_eq rfl
      · split
        · exact sends_becomeLeader.of_sent_eq rfl
        · exact .of_eq rfl
    · cases h
  | roundEnds round =>
    simp only [act] at h
    split at h
    · simp only [Option.ite_none_right_eq_some, Option.some.injEq] at h
      obtain ⟨-, rfl⟩ := h
      exact .of_eq (updateCommitIndex_keeps (P := fun m => m.sent = n.sent) rfl fun _ => rfl)
    · cases h
  | addPeer id voting =>
    cases h
    exact .of_eq (quiet_addPeer n id voting).sent
  | resumeElections =>
    cases h
    unfold resumeElections
    dsimp only
    split <;> exact .of_eq rfl
  | start =>
    cases h
    cases hr : n.running with
    | true =>
      simp only [start, hr, ↓reduceIte]
      exact .of_eq rfl
    | false =>
      rw [start_eq n hr]
      exact .of_eq rfl
  | restart known =>
    cases h
    obtain ⟨peers, nextRef, T, heq, -⟩ := restart_eq known n
    rw [heq]
    exact .of_eq rfl
  | _ =>
    cases h
    exact .of_eq rfl

theorem step_sends {s : Stimulus} (h : n.step s = some n') : Sends n n' := by
  cases s with
  | input i => exact act_sends h
  | packet p =>
    cases h
    exact receive_sends n p

end

end RaftNode

open RaftNode

-- ---------------------------------------------------------------------------
-- The wire
-- ---------------------------------------------------------------------------

section
variable {w w' : Cluster} {G : Cluster → Action → Prop} {id : NodeId}

theorem Cluster.step_sent {a : Action} (h : w.step a = some w') (id : NodeId) :
    (w.node id).sent <+: (w'.node id).sent := by
  obtain ⟨x, s, n', -, hn, rfl⟩ := Cluster.step_eq h
  by_cases hx : id = x
  · subst hx
    obtain ⟨packets, hs, -⟩ := step_sends hn
    rw [Cluster.set_node_self, hs]
    exact List.prefix_append _ _
  · rw [Cluster.set_node_ne w n' hx]

theorem Reach.sent (h : (system.after w).Reach G w') (id : NodeId) :
    (w.node id).sent <+: (w'.node id).sent := by
  refine h.invariant (I := fun v => (w.node id).sent <+: (v.node id).sent) ?_ ?_
  · rintro _ rfl
    exact List.prefix_refl _
  · exact fun _ _ _ _ hp _ hs => hp.trans (Cluster.step_sent hs id)

/-- A request that a step puts on the wire is built from the log its sender has
after the step, as leader. -/
theorem Cluster.step_builds {a : Action} (h : w.step a = some w') {k : Nat} {c : AppendCall}
    (hnew : (w.node id).sent.length ≤ k)
    (hk : (w'.node id).sent[k]? = some (.appendEntries c)) :
    (w'.node id).state = .leader ∧
      ∃ peer, c.request = (w'.node id).appendEntriesRequest peer := by
  obtain ⟨x, s, n', -, hn, rfl⟩ := Cluster.step_eq h
  by_cases hx : id = x
  · subst hx
    obtain ⟨packets, hs, hc⟩ := step_sends hn
    rw [Cluster.set_node_self] at hk ⊢
    rw [hs, List.getElem?_append_right hnew] at hk
    exact hc c (List.mem_of_getElem? hk)
  · rw [Cluster.set_node_ne w n' hx] at hk
    have := (List.getElem?_eq_some_iff.mp hk).1
    omega

theorem Cluster.step_deliver {k : Nat} {c : AppendCall}
    (hk : (w.node id).sent[k]? = some (.appendEntries c))
    (h : w.step (.deliver id k) = some w') :
    (w'.node c.dst).log = ((w.node c.dst).handleAppendEntries c.request).1.log ∧
      (w'.node c.dst).currentTerm =
        ((w.node c.dst).handleAppendEntries c.request).1.currentTerm := by
  simp only [Cluster.step, Cluster.stimulus, hk, Option.map_some, Option.bind_some,
    RaftNode.step, Option.some.injEq] at h
  subst h
  simp [Packet.dst, receive, send]

end

-- ---------------------------------------------------------------------------
-- Keeping what was acknowledged
-- ---------------------------------------------------------------------------

structure Keeps (f : NodeId) (T : Nat) (q : List LogEntry) (w : Cluster) : Prop where
  matched : w.Matched
  tenure : ∃ s ∈ w.history.tenure T, q <+: s
  term : T ≤ (w.node f).currentTerm
  kept : OneTenure w → (w.node f).currentTerm = T → q <+: (w.node f).log

section
variable {w w' : Cluster} {f id : NodeId} {T : Nat} {q : List LogEntry} {n' : RaftNode}

/-- In the term of the tenure every move of a node keeps `q`. -/
theorem Keeps.kept_move (h : Keeps f T q w) (hone : OneTenure w)
    (hm : Move (steadyRules.env w f) (w.node f) n') (hT : n'.currentTerm = T) : q <+: n'.log := by
  obtain ⟨hM, hC⟩ := h.matched.matching hone
  have hle := hm.currentTerm_le (hm.epoch_eq fun _ hr => hr)
  have hterm : (w.node f).currentTerm = T := le_antisymm (hT ▸ hle) h.term
  have hq := h.kept hone hterm
  generalize hn : w.node f = n at *
  cases hm with
  | quiet r =>
    rw [r.log]
    exact hq
  | push => exact hq.trans (List.prefix_append _ _)
  | @accept c _ hp hcT hcons =>
    subst hn
    obtain ⟨s, hs, hqs⟩ := h.tenure
    obtain ⟨s', hs', hb⟩ := hC.arrives hp
    rw [hcT, hterm] at hs'
    exact isPrefix_splice hM.chained (hM.logs f) (hM.tenures T s' hs')
      ((consistent_iff _ _).mp hcons) hb hq (hM.chained T s' s hs' hs) hqs
  | commit => exact commitTo_keeps (P := fun m => q <+: m.log) hq (fun _ => hq) _
  | advance => exact updateCommitIndex_keeps (P := fun m => q <+: m.log) hq fun _ => hq
  | reboot hr => exact hr.elim
  | _ => exact hq

theorem Keeps.move (h : Keeps f T q w) (hm : Move (steadyRules.env w id) (w.node id) n') :
    Keeps f T q (w.set id n') := by
  have hg := Cluster.grown_set hm.grows
  have hlog : (w.set id n').node f = w.node f ∨
      (id = f ∧ (w.set id n').node f = n') := by
    by_cases hid : id = f
    · subst hid
      exact .inr ⟨rfl, Cluster.set_node_self w id n'⟩
    · exact .inl (Cluster.set_node_ne w n' (Ne.symm hid))
  refine ⟨h.matched.move hm, ?_, ?_, fun hone hT => ?_⟩
  · obtain ⟨s, hs, hqs⟩ := h.tenure
    exact ⟨s, hg.tenure T hs, hqs⟩
  · rcases hlog with heq | ⟨rfl, heq⟩
    · rw [heq]
      exact h.term
    · rw [heq]
      exact h.term.trans (hm.currentTerm_le (hm.epoch_eq fun _ hr => hr))
  · rcases hlog with heq | ⟨rfl, heq⟩
    · rw [heq] at hT ⊢
      exact h.kept (hone.anti hg) hT
    · rw [heq] at hT ⊢
      exact h.kept_move (hone.anti hg) hm hT

theorem steadyRules_guard {I : Cluster → Prop} : steadyRules.Guard I NoRestart := by
  rintro w a id s - hg hs
  exact { Env.allows_ofPackets fun p hp => Cluster.stimulus_packet (hp ▸ hs) with
    reboot := fun hr => absurd hr (by simp [hg _ hs]) }

theorem Keeps.run (h : Keeps f T q w) (hrun : (system.after w).Reach NoRestart w') :
    Keeps f T q w' := by
  refine hrun.invariant (I := Keeps f T q) ?_ ?_
  · rintro _ rfl
    exact h
  · exact fun _ _ _ _ hI hg hs =>
      Rules.step steadyRules_guard (fun _ _ _ hI hm => hI.move hm) hI hg hs

end

/-- The follower keeps what it has answered with success, as long as it stays
in the term: the entries the leader had, up to the end of the request, when it
built it. -/
theorem acknowledged_prefix {w₀ w₁ w₂ w₃ w₄ : Cluster} {a : Action} {l : NodeId} {k : Nat}
    {c : AppendCall} (h : system.Reach NoRestart w₀)
    -- a step in which `l` sends the request
    (hbuild : w₀.step a = some w₁) (hsteady : NoRestart w₀ a)
    (hnew : (w₀.node l).sent.length ≤ k)
    (hk : (w₁.node l).sent[k]? = some (.appendEntries c))
    -- it arrives some time later and is answered with success
    (hway : (system.after w₁).Reach NoRestart w₂) (harrive : w₂.step (.deliver l k) = some w₃)
    (hack : ((w₂.node c.dst).handleAppendEntries c.request).2.success)
    -- anything may follow
    (hrun : (system.after w₃).Reach NoRestart w₄) (hone : OneTenure w₄)
    (hterm : (w₄.node c.dst).currentTerm = c.request.term) :
    ∀ i < c.request.covered, ∃ e, (w₁.node l).log[i]? = some e ∧
      (w₄.node c.dst).log[i]? = some e := by
  have h₁ : system.Reach NoRestart w₁ := h.step hsteady hbuild
  have h₂ : system.Reach NoRestart w₂ := h₁.trans hway
  have hg₂ : w₂.Grown w₄ := (Cluster.grown_step harrive).trans (Reach.grown hrun)
  have hone₂ : OneTenure w₂ := hone.anti hg₂
  have hcomp : Compatible (w₂.node c.dst) (w₁.node l) :=
    Reach.compatible (h₁.mono fun _ _ _ => trivial) (hway.mono fun _ _ _ => trivial) hone₂ l c.dst
  obtain ⟨hlead, peer, hreq⟩ := Cluster.step_builds hbuild hnew hk
  obtain ⟨hle, hcons⟩ := accepts_of_success hack
  obtain ⟨hlog, hT⟩ :=
    Cluster.step_deliver (getElem?_of_isPrefix (Reach.sent hway l) hk) harrive
  rw [handleAppendEntries_log hle hcons] at hlog
  rw [handleAppendEntries_currentTerm hle hcons] at hT
  -- the log the request was cut from belongs to the tenure of its term
  have htenure : (w₁.node l).log ∈ w₃.history.tenure c.request.term := by
    obtain ⟨hM, -⟩ := (Reach.matched h₁).matching (hone₂.anti (Reach.grown hway))
    have hterm₁ : c.request.term = (w₁.node l).currentTerm := by rw [hreq]; rfl
    rw [hterm₁]
    exact ((Reach.grown hway).trans (Cluster.grown_step harrive)).tenure _ (hM.current l hlead)
  have hkeeps : Keeps c.dst c.request.term ((w₁.node l).log.take c.request.covered) w₃ := by
    refine ⟨?_, ⟨_, htenure, List.take_prefix _ _⟩, hT.ge, fun _ _ => ?_⟩
    · exact Reach.matched (h₂.step (by simp [NoRestart, Cluster.stimulus, Stimulus.restarts]) harrive)
    · rw [hreq] at hcons hlog ⊢
      rw [← hcomp.take_eq hcons, hlog]
      exact List.take_prefix _ _
  intro i hi
  have hlen : i < (w₁.node l).log.length := by
    rw [hreq] at hcons hi
    exact hi.trans_le (covered_le_leader hcomp.positive hcons)
  refine ⟨_, List.getElem?_eq_getElem hlen, ?_⟩
  refine getElem?_of_isPrefix ((hkeeps.run hrun).kept hone hterm) ?_
  rw [List.getElem?_take_of_lt hi]
  exact List.getElem?_eq_getElem hlen

def noopCall : AppendCall :=
  ⟨0, 0, 0, "b", ⟨1, "a", 0, 0, [⟨1, 1, .noop, []⟩], 0⟩⟩

def noopAgain : List Action := [.deliver "a" 2, .input "a" .heartbeat, .deliver "a" 4]

theorem trio_acknowledged : ∃ w₁ w₄ : Cluster, (w₁.node "a").sent[2]? = some (.appendEntries noopCall) ∧
    (w₄.node "b").held.length = 3 ∧
    ∃ e, (w₁.node "a").log[0]? = some e ∧ (w₄.node "b").log[0]? = some e := by
  let G := fun w a => ElectionGuard trioVoters w a ∧ NoRestart w a
  have hsteady : ∀ w a, G w a → NoRestart w a := fun _ _ h => h.2
  obtain ⟨w₀, h₀, ⟨hg₀, hnew⟩, hrest⟩ := System.Reach.replay (M := system) (G := G)
    (P := fun w₀ => (G w₀ (.input "a" (.electionEnds 1)) ∧ (w₀.node "a").sent.length ≤ 2) ∧
      (w₀.step (.input "a" (.electionEnds 1))).any fun w₁ =>
        (w₁.node "a").sent[2]? = some (.appendEntries noopCall) ∧ G w₁ (.deliver "a" 2) ∧
        ((w₁.node "b").handleAppendEntries noopCall.request).2.success ∧
        (w₁.step (.deliver "a" 2)).any fun w₃ =>
          ((system.after w₃).exec G w₃ noopAgain).any fun w₄ =>
            (w₄.node "b").currentTerm = 1 ∧ (w₄.node "b").held.length = 3)
    trio_booted officeA.dropLast (by decide +kernel)
  obtain ⟨w₁, hbuild, hrest⟩ := (Option.any_eq_true _ _).mp hrest
  obtain ⟨hk, hg₁, hack, hrest⟩ := of_decide_eq_true hrest
  obtain ⟨w₃, harrive, hrest⟩ := (Option.any_eq_true _ _).mp hrest
  obtain ⟨w₄, hrun, hterm, hheld⟩ := System.Reach.replay (M := system.after w₃) rfl noopAgain hrest
  have h₄ : system.Reach G w₄ := ((h₀.step hg₀ hbuild).step hg₁ harrive).trans hrun
  have hone : OneLeader w₄ := (Reach.electoral (h₄.mono fun _ _ h => h.1)).oneLeader
  obtain ⟨e, he, he'⟩ := acknowledged_prefix (h₀.mono hsteady) hbuild hg₀.2 hnew hk (.init rfl)
    harrive hack (hrun.mono hsteady) (Reach.oneTenure h₄ hsteady hone) hterm 0 (by decide)
  exact ⟨w₁, w₄, hk, hheld, e, he, he'⟩

end ClaudeCluster.Raft
