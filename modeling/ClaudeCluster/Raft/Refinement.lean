import ClaudeCluster.Lib.History
import ClaudeCluster.Raft.WellFormed

/-!
# Clusters refine histories

`Cluster.history` forgets timers, packets, peers and pending calls and keeps
what the nodes have done. `Move.op`: every move of a node is an operation of
`Lib.History` on it, or none at all.
-/

namespace ClaudeCluster.Raft

open RaftNode
open Lib (History splice)

def Cluster.history (w : Cluster) : History NodeId LogEntry where
  term id := (w.node id).currentTerm
  log id := (w.node id).log
  leading id := (w.node id).state = .leader
  tenure T := {l | ∃ id, (T, l) ∈ (w.node id).tenure}
  held id T := {l | (T, l) ∈ (w.node id).held ∨ (T, l) ∈ (w.node id).tenure}
  vote v T c := {l | ⟨T, c, l⟩ ∈ (w.node v).votes}

inductive Op (env : Env) (w : Cluster) (id : NodeId) (n' : RaftNode) :
    History NodeId LogEntry → Prop
  | same : Op env w id n' w.history
  | raise : (w.node id).currentTerm ≤ T → Op env w id n' (w.history.raise id T)
  | campaign : Op env w id n' (w.history.campaign id)
  | grant : Op env w id n' (w.history.grant id c)
  | elect : (w.node id).state = .candidate → e ∈ (w.node id).elections →
      e.votesReceived ≥ e.votesNeeded → env.win (w.node id) e →
      ⟨(w.node id).epoch, (w.node id).currentTerm, (w.node id).log⟩ ∈ n'.led →
      Op env w id n' (w.history.elect id)
  | push : (w.node id).state = .leader → e.term = (w.node id).currentTerm →
      Op env w id n' (w.history.push id e)
  | accept {c : AppendCall} : env.packet (.appendEntries c) →
      c.request.term = (w.node id).currentTerm → (w.node id).consistent c.request →
      env.accept (w.node id).log c.request →
      Op env w id n' (w.history.accept id (splice LogEntry.term (w.node id).log
        c.request.prevLogIndex c.request.entries))
  | reset : env.reboot (w.node id) → ((w.node id).persistent → T =
        ((w.node id).stateFile.map PersistedState.currentTerm).getD 0) →
      Op env w id n' (w.history.reset id T)

section
variable {w : Cluster} {id : NodeId} {n n' : RaftNode} {env : Env}

theorem history_set (tnew hnew : List (Nat × List LogEntry)) (vnew : List Vote)
    {h : History NodeId LogEntry} (htenure : n'.tenure = (w.node id).tenure ++ tnew)
    (hheld : n'.held = (w.node id).held ++ hnew) (hvotes : n'.votes = (w.node id).votes ++ vnew)
    (h1 : h.term = Function.update w.history.term id n'.currentTerm)
    (h2 : h.log = Function.update w.history.log id n'.log)
    (h3 : h.leading = Function.update w.history.leading id (n'.state = .leader))
    (h4 : ∀ T l, l ∈ h.tenure T ↔ l ∈ w.history.tenure T ∨ (T, l) ∈ tnew)
    (h5 : ∀ m T l, l ∈ h.held m T ↔
      l ∈ w.history.held m T ∨ (m = id ∧ ((T, l) ∈ hnew ∨ (T, l) ∈ tnew)))
    (h6 : ∀ v T c l, l ∈ h.vote v T c ↔
      l ∈ w.history.vote v T c ∨ (v = id ∧ ⟨T, c, l⟩ ∈ vnew)) :
    (w.set id n').history = h := by
  have hset : ∀ {β : Type} (f : RaftNode → β),
      (fun x => f ((w.set id n').node x)) = Function.update (fun x => f (w.node x)) id (f n') := by
    intro β f
    funext x
    by_cases hx : x = id
    · subst hx
      simp
    · simp [hx]
  refine History.ext (h1 ▸ hset currentTerm) (h2 ▸ hset RaftNode.log)
    (h3 ▸ hset fun n => n.state = .leader) ?_ ?_ ?_
  · funext T
    ext l
    rw [h4]
    constructor
    · rintro ⟨x, hx⟩
      by_cases hxid : x = id
      · subst hxid
        rw [Cluster.set_node_self, htenure] at hx
        exact (List.mem_append.mp hx).imp_left fun hx => ⟨x, hx⟩
      · rw [Cluster.set_node_ne _ _ hxid] at hx
        exact .inl ⟨x, hx⟩
    · rintro (⟨x, hx⟩ | hx)
      · by_cases hxid : x = id
        · subst hxid
          refine ⟨x, ?_⟩
          rw [Cluster.set_node_self, htenure]
          exact List.mem_append_left _ hx
        · refine ⟨x, ?_⟩
          rwa [Cluster.set_node_ne _ _ hxid]
      · refine ⟨id, ?_⟩
        rw [Cluster.set_node_self, htenure]
        exact List.mem_append_right _ hx
  · funext m T
    ext l
    rw [h5]
    by_cases hm : m = id
    · subst hm
      simp only [Cluster.history, Cluster.set_node_self, Set.mem_ofPred_eq, htenure, hheld,
        List.mem_append, true_and]
      tauto
    · simp [Cluster.history, hm]
  · funext v T c
    ext l
    rw [h6]
    by_cases hv : v = id
    · subst hv
      simp [Cluster.history, hvotes]
    · simp [Cluster.history, hv]

theorem history_same (hterm : n'.currentTerm = (w.node id).currentTerm)
    (hlog : n'.log = (w.node id).log)
    (hstate : n'.state = .leader ↔ (w.node id).state = .leader)
    (htenure : n'.tenure = (w.node id).tenure) (hheld : n'.held = (w.node id).held)
    (hvotes : n'.votes = (w.node id).votes) : (w.set id n').history = w.history := by
  refine history_set [] [] [] (by simpa) (by simpa) (by simpa)
    ?_ ?_ ?_ (by simp) (by simp) (by simp)
  · rw [hterm]
    exact (Function.update_eq_self id _).symm
  · rw [hlog]
    exact (Function.update_eq_self id _).symm
  · rw [propext hstate]
    exact (Function.update_eq_self id _).symm

theorem history_commitAt (w : Cluster) (id : NodeId) (c : Nat) :
    (w.set id ((w.node id).commitAt c)).history = w.history :=
  history_same rfl rfl Iff.rfl rfl rfl rfl

theorem history_follow (w : Cluster) (id : NodeId) (T : Nat) :
    (w.set id ((w.node id).becomeFollower T)).history = w.history.raise id T := by
  refine history_set [] [] [] (by simp; rfl) (by simp; rfl)
    (by simp; rfl) rfl (Function.update_eq_self id _).symm ?_ (by simp [History.raise])
    (by simp [History.raise]) (by simp [History.raise])
  simp [History.raise, becomeFollower, saveState, clearTimers, emit]

theorem history_campaign (w : Cluster) (id : NodeId) (hid : (w.node id).nodeId = id) :
    (w.set id (w.node id).becomeCandidate).history = w.history.campaign id := by
  refine history_set [] []
    [⟨(w.node id).currentTerm + 1, id, (w.node id).log⟩] (by simp; rfl) (by simp; rfl)
    ?_ rfl (Function.update_eq_self id _).symm ?_ (by simp [History.campaign, History.raise])
    (by simp [History.campaign, History.raise]) ?_
  · have hvotes : (w.node id).becomeCandidate.votes =
        (w.node id).votes ++ [⟨(w.node id).currentTerm + 1, (w.node id).nodeId, (w.node id).log⟩] :=
      rfl
    rw [hvotes, hid]
  · simp [History.campaign, History.raise, becomeCandidate, startElection, saveState, emit,
      resetElectionTimeout]
  · simp [History.campaign, Cluster.history]

theorem history_grant (w : Cluster) (id : NodeId) (r : RequestVoteRequest) :
    (w.set id ((w.node id).grantVote r)).history = w.history.grant id r.candidateId := by
  refine history_set [] []
    [⟨(w.node id).currentTerm, r.candidateId, (w.node id).log⟩] (by simp; rfl)
    (by simp; rfl) rfl (Function.update_eq_self id _).symm (Function.update_eq_self id _).symm
    (Function.update_eq_self id _).symm (by simp [History.grant]) (by simp [History.grant]) ?_
  simp [History.grant, Cluster.history]

theorem history_takeOffice (w : Cluster) (id : NodeId) :
    (w.set id (w.node id).takeOffice).history = w.history.elect id := by
  refine history_set [((w.node id).currentTerm, (w.node id).log)] []
    [] rfl (by simp; rfl) (by simp; rfl) (Function.update_eq_self id _).symm
    (Function.update_eq_self id _).symm ?_ ?_ ?_ (by simp [History.elect])
  · simp [History.elect, takeOffice, clearTimers, emit]
  · simp [History.elect, Cluster.history]
  · simp [History.elect, Cluster.history]

theorem history_push (w : Cluster) (id : NodeId) (e : LogEntry) :
    (w.set id ((w.node id).pushEntry e)).history = w.history.push id e := by
  refine history_set [((w.node id).currentTerm, (w.node id).log ++ [e])] []
    [] rfl (by simp; rfl) (by simp; rfl) (Function.update_eq_self id _).symm rfl
    (Function.update_eq_self id _).symm ?_ ?_ (by simp [History.push])
  · simp [History.push, Cluster.history]
  · simp [History.push, Cluster.history]

theorem history_accept (w : Cluster) (id : NodeId) (r : AppendEntriesRequest) :
    (w.set id ((w.node id).acceptEntries r)).history =
      w.history.accept id (splice LogEntry.term (w.node id).log r.prevLogIndex r.entries) := by
  refine history_set [] [(_, _)] [] (by simp; rfl) rfl
    (by simp; rfl) (Function.update_eq_self id _).symm rfl (Function.update_eq_self id _).symm
    (by simp [History.accept]) ?_ (by simp [History.accept])
  simp [History.accept, Cluster.history]

theorem history_restart (w : Cluster) (id : NodeId) (known : List (NodeId × Bool)) :
    (w.set id ((w.node id).restart known)).history =
      w.history.reset id ((w.node id).restart known).currentTerm := by
  obtain ⟨peers, nextRef, T, heq, -⟩ := restart_eq known (w.node id)
  rw [heq]
  refine history_set [] [] [] (by simp) (by simp) (by simp) rfl rfl
    ?_ (by simp [History.reset, History.raise]) (by simp [History.reset, History.raise])
    (by simp [History.reset, History.raise])
  simp [History.reset, History.raise]

theorem Op.ofEq {h : History NodeId LogEntry} (heq : h = w.history) : Op env w id n' h := heq ▸ .same

/-- The moves of a node are operations on the history. -/
theorem RaftNode.Move.op (hid : (w.node id).nodeId = id) (hm : Move env (w.node id) n') :
    Op env w id n' (w.set id n').history := by
  generalize hn : w.node id = n at hm
  cases hm with
  | quiet q =>
    subst hn
    exact Op.ofEq (history_same q.currentTerm q.log (by rw [q.state]) q.tenure q.held q.votes)
  | follow hT =>
    subst hn
    rw [history_follow]
    exact .raise hT
  | campaign =>
    subst hn
    rw [history_campaign w id hid]
    exact .campaign
  | grant =>
    subst hn
    rw [history_grant]
    exact .grant
  | takeOffice hs he hv hw =>
    subst hn
    rw [history_takeOffice]
    exact .elect hs he hv hw List.mem_concat_self
  | push hs =>
    subst hn
    rw [history_push]
    exact .push hs rfl
  | accept hp hT hc ha =>
    subst hn
    rw [history_accept]
    exact .accept hp hT hc ha
  | commit =>
    subst hn
    refine Op.ofEq (commitTo_keeps (P := fun m => (w.set id m).history = w.history) ?_
      (history_commitAt w id) _)
    rw [Cluster.set_same]
  | advance hc =>
    subst hn
    rw [updateCommitIndex_eq, if_pos hc]
    exact Op.ofEq (history_commitAt w id _)
  | @reboot _ known hr =>
    subst hn
    rw [history_restart]
    refine .reset hr fun hp => ?_
    obtain ⟨peers, nextRef, T, heq, -, hT⟩ := restart_eq known (w.node id)
    rw [heq]
    exact hT.trans (if_pos hp)
  | _ =>
    subst hn
    exact Op.ofEq (history_same rfl rfl Iff.rfl rfl rfl rfl)

end

end ClaudeCluster.Raft
