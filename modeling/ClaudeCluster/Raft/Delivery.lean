import ClaudeCluster.Raft.Agreement
import ClaudeCluster.Raft.Emissions

/-!
# Delivering AppendEntries

What one request does to a follower, and what a second delivery of it, a late
one or a shorter one can undo. The handler puts a batch in by position and
term, so a second time finds everything in place (`handleAppendEntries_twice`);
in one term all batches are cut from one growing log, so none takes away what
another brought (`acknowledged_prefix`). What it does with the commit index is
bounded by the follower's own last index instead of the end of the batch
(`boundedCommit_iff`).
-/

namespace ClaudeCluster.Raft

open Lib
open Lib.History (Matching)

namespace RaftNode

-- ---------------------------------------------------------------------------
-- The handler
-- ---------------------------------------------------------------------------

/-- A request that is not stale, before the log is looked at. -/
def greet (r : AppendEntriesRequest) (n : RaftNode) : RaftNode :=
  (n.observeTerm r.term).noteLeader r.leaderId

section
variable {n : RaftNode} {r : AppendEntriesRequest}

theorem greet_fields (n : RaftNode) (r : AppendEntriesRequest) :
    (n.greet r).log = n.log ∧ (n.greet r).commitIndex = n.commitIndex ∧
      (n.greet r).lastApplied = n.lastApplied := by
  obtain ⟨hlog, hci, hla⟩ := observeTerm_fields n r.term
  obtain ⟨hlog', hci', hla'⟩ := noteLeader_fields (n.observeTerm r.term) r.leaderId
  exact ⟨hlog'.trans hlog, hci'.trans hci, hla'.trans hla⟩

theorem greet_currentTerm (h : n.currentTerm ≤ r.term) : (n.greet r).currentTerm = r.term := by
  rw [greet, (quiet_noteLeader _ _).currentTerm, observeTerm_currentTerm, max_eq_right h]

theorem consistent_greet (n : RaftNode) (r : AppendEntriesRequest) :
    (n.greet r).consistent r = n.consistent r := by
  rw [consistent, consistent, (greet_fields n r).1]

theorem commitTo_currentTerm (n : RaftNode) (c : Nat) : (n.commitTo c).currentTerm = n.currentTerm :=
  commitTo_keeps (P := fun m => m.currentTerm = n.currentTerm) rfl (fun _ => rfl) c

theorem commitTo_log (n : RaftNode) (c : Nat) : (n.commitTo c).log = n.log :=
  commitTo_keeps (P := fun m => m.log = n.log) rfl (fun _ => rfl) c

theorem handleAppendEntries_eq (n : RaftNode) (r : AppendEntriesRequest) :
    n.handleAppendEntries r =
      if r.term < n.currentTerm then (n, ⟨n.currentTerm, false, 0⟩)
      else if n.consistent r then
        (((n.greet r).acceptEntries r).commitTo r.leaderCommit,
          ⟨r.term, true, lastLogIndex (splice LogEntry.term n.log r.prevLogIndex r.entries)⟩)
      else (n.greet r, ⟨r.term, false, 0⟩) := by
  have hmax := observeTerm_currentTerm n r.term
  by_cases hlt : r.term < n.currentTerm
  · have hobs : n.observeTerm r.term = n := if_neg (by omega)
    simp only [handleAppendEntries, hobs, if_pos hlt]
  · have hle : n.currentTerm ≤ r.term := Nat.not_lt.mp hlt
    rw [max_eq_right hle] at hmax
    have hT := greet_currentTerm hle
    simp only [handleAppendEntries, hmax, lt_irrefl, ↓reduceIte, if_neg hlt]
    rw [show (n.observeTerm r.term).noteLeader r.leaderId = n.greet r from rfl,
      consistent_greet, hT]
    cases n.consistent r with
    | false => simp
    | true =>
      simp only [Bool.not_true, Bool.false_eq_true, ↓reduceIte]
      rw [commitTo_currentTerm, getLastLogIndex, commitTo_log]
      simp only [acceptEntries, hT, (greet_fields n r).1]

theorem accepts_of_success (h : (n.handleAppendEntries r).2.success) :
    n.currentTerm ≤ r.term ∧ n.consistent r := by
  rw [handleAppendEntries_eq] at h
  split at h
  · simp at h
  case isFalse hlt =>
    split at h
    case isTrue hc => exact ⟨Nat.not_lt.mp hlt, hc⟩
    case isFalse => simp at h

theorem handleAppendEntries_accepts (hle : n.currentTerm ≤ r.term) (hc : n.consistent r) :
    n.handleAppendEntries r =
      (((n.greet r).acceptEntries r).commitTo r.leaderCommit,
        ⟨r.term, true, lastLogIndex (splice LogEntry.term n.log r.prevLogIndex r.entries)⟩) := by
  rw [handleAppendEntries_eq, if_neg (Nat.not_lt.mpr hle), if_pos hc]

end

-- ---------------------------------------------------------------------------
-- Twice
-- ---------------------------------------------------------------------------

structure Greeted (r : AppendEntriesRequest) (n : RaftNode) : Prop where
  term : n.currentTerm = r.term
  leaderId : n.leaderId = some r.leaderId
  timer : n.electionTimeout = (!n.config.nonVoting && !n.electionsPaused)

section
variable {n : RaftNode} {r : AppendEntriesRequest}

theorem noteLeader_eq (n : RaftNode) (id : NodeId) :
    n.noteLeader id = { n with
      leaderId := some id
      electionTimeout := !n.config.nonVoting && !n.electionsPaused
      emitted := n.emitted ++ if n.leaderId ≠ some id then [.leaderChanged id] else [] } := by
  unfold noteLeader
  split
  · rfl
  · simp [resetElectionTimeout]

theorem greeted_greet (h : n.currentTerm ≤ r.term) : Greeted r (n.greet r) := by
  refine ⟨greet_currentTerm h, ?_, ?_⟩ <;> rw [greet, noteLeader_eq]

theorem Greeted.accept (h : Greeted r n) :
    Greeted r ((n.acceptEntries r).commitTo r.leaderCommit) := by
  have ha : Greeted r (n.acceptEntries r) := ⟨h.term, h.leaderId, h.timer⟩
  exact commitTo_keeps ha (fun _ => ⟨ha.term, ha.leaderId, ha.timer⟩) _

theorem Greeted.greet_eq (h : Greeted r n) : n.greet r = n := by
  have hobs : n.observeTerm r.term = n := if_neg (by rw [h.term]; omega)
  rw [greet, hobs, noteLeader_eq, if_neg (not_not.mpr h.leaderId), List.append_nil, ← h.timer,
    ← h.leaderId]

theorem commitTo_commitTo (n : RaftNode) (c : Nat) : (n.commitTo c).commitTo c = n.commitTo c := by
  rw [commitTo_eq n]
  split
  case isFalse h => rw [commitTo_eq, if_neg h]
  case isTrue =>
    rw [commitTo_eq]
    split
    case isFalse => rfl
    case isTrue =>
      show (n.commitAt (min c n.getLastLogIndex)).commitAt (min c n.getLastLogIndex) = _
      generalize min c n.getLastLogIndex = k
      -- the first time has applied all of it
      have hdone : k - (n.lastApplied + (k - n.lastApplied)) = 0 := by omega
      simp [commitAt, hdone, nextEntries]

theorem acceptEntries_eq (h : splice LogEntry.term n.log r.prevLogIndex r.entries = n.log) :
    n.acceptEntries r = { n with held := n.held ++ [(n.currentTerm, n.log)] } := by
  simp only [acceptEntries, h]

theorem commitTo_held (n : RaftNode) (c : Nat) (held : List (Nat × List LogEntry)) :
    { n with held := held }.commitTo c = { n.commitTo c with held := held } := by
  simp only [commitTo_eq]
  split <;> rfl

theorem accepts_twice (hg : Greeted r n)
    (hlog : splice LogEntry.term n.log r.prevLogIndex r.entries = n.log)
    (hc : n.commitTo r.leaderCommit = n) :
    ((n.greet r).acceptEntries r).commitTo r.leaderCommit =
      { n with held := n.held ++ [(n.currentTerm, n.log)] } := by
  rw [hg.greet_eq, acceptEntries_eq hlog, commitTo_held, hc]

theorem handleAppendEntries_again (n : RaftNode) (r : AppendEntriesRequest) :
    ((n.handleAppendEntries r).1.handleAppendEntries r).2 = (n.handleAppendEntries r).2 ∧
      ∃ held, ((n.handleAppendEntries r).1.handleAppendEntries r).1 =
        { (n.handleAppendEntries r).1 with held := held } := by
  by_cases hlt : r.term < n.currentTerm
  · have honce : n.handleAppendEntries r = (n, ⟨n.currentTerm, false, 0⟩) := by
      rw [handleAppendEntries_eq, if_pos hlt]
    rw [honce]
    exact ⟨congrArg Prod.snd honce, n.held, congrArg Prod.fst honce⟩
  · have hle : n.currentTerm ≤ r.term := Nat.not_lt.mp hlt
    have hg := greeted_greet hle
    cases hcons : n.consistent r with
    | false =>
      have honce : n.handleAppendEntries r = (n.greet r, ⟨r.term, false, 0⟩) := by
        rw [handleAppendEntries_eq, if_neg hlt, hcons, if_neg (by simp)]
      have htwice : (n.greet r).handleAppendEntries r = (n.greet r, ⟨r.term, false, 0⟩) := by
        rw [handleAppendEntries_eq, hg.term, if_neg (lt_irrefl _), consistent_greet, hcons,
          if_neg (by simp), hg.greet_eq]
      rw [honce]
      exact ⟨congrArg Prod.snd htwice, (n.greet r).held, congrArg Prod.fst htwice⟩
    | true =>
      rw [handleAppendEntries_accepts hle hcons]
      dsimp only
      have hfit := (consistent_iff n r).mp hcons
      generalize hm : ((n.greet r).acceptEntries r).commitTo r.leaderCommit = m
      have hgm : Greeted r m := hm ▸ hg.accept
      have hlog : m.log = splice LogEntry.term n.log r.prevLogIndex r.entries := by
        rw [← hm, commitTo_log, acceptEntries, (greet_fields n r).1]
      have hsame : splice LogEntry.term m.log r.prevLogIndex r.entries = m.log := by
        rw [hlog]
        exact splice_splice hfit.le_length
      have hcommit : m.commitTo r.leaderCommit = m := by
        rw [← hm]
        exact commitTo_commitTo _ _
      have hcons' : m.consistent r := by
        rw [consistent_iff, hlog]
        exact hfit.splice
      rw [handleAppendEntries_accepts hgm.term.le hcons', hsame]
      exact ⟨by rw [hlog], _, accepts_twice hgm hsame hcommit⟩

/-- Handling a request twice in a row is handling it once, whatever the state
and the request, with the same answer. The listeners hear nothing new. -/
theorem handleAppendEntries_twice (n : RaftNode) (r : AppendEntriesRequest) :
    let once := n.handleAppendEntries r
    let twice := once.1.handleAppendEntries r
    (twice.1.log = once.1.log ∧ twice.1.commitIndex = once.1.commitIndex ∧
      twice.1.lastApplied = once.1.lastApplied ∧ twice.1.currentTerm = once.1.currentTerm ∧
      twice.1.votedFor = once.1.votedFor ∧ twice.1.state = once.1.state ∧
      twice.1.leaderId = once.1.leaderId) ∧
    twice.1.emitted = once.1.emitted ∧ twice.2 = once.2 := by
  intro once twice
  obtain ⟨hanswer, held, hnode⟩ := handleAppendEntries_again n r
  rw [show twice.1 = { once.1 with held := held } from hnode]
  exact ⟨⟨rfl, rfl, rfl, rfl, rfl, rfl, rfl⟩, rfl, hanswer⟩

end

end RaftNode

open RaftNode

-- ---------------------------------------------------------------------------
-- Once
-- ---------------------------------------------------------------------------

def AppendEntriesRequest.covered (r : AppendEntriesRequest) : Nat :=
  r.prevLogIndex + r.entries.length

/-- What a follower can count on of itself and of a leader's log. -/
structure Compatible (n leader : RaftNode) : Prop where
  formed : WellFormed n.log n.currentTerm
  leaderFormed : WellFormed leader.log leader.currentTerm
  positive : ∀ e ∈ n.log, 0 < e.term
  matching : Matches LogEntry.term n.log leader.log

/-- A success commits nothing past the request, and what it commits is the
leader's. -/
def BoundedCommit (n leader : RaftNode) (r : AppendEntriesRequest) : Prop :=
  (n.handleAppendEntries r).2.success →
    (n.handleAppendEntries r).1.commitIndex ≤ max n.commitIndex r.covered ∧
    ∀ i, n.commitIndex ≤ i → i < (n.handleAppendEntries r).1.commitIndex →
      ∃ e, (n.handleAppendEntries r).1.log[i]? = some e ∧ leader.log[i]? = some e

/-- An accepted request whose batch the follower holds already, while both its
log and the leader's commit index go further than the batch and than what the
follower has committed. -/
structure Overshoots (n : RaftNode) (r : AppendEntriesRequest) : Prop where
  term : n.currentTerm ≤ r.term
  consistent : n.consistent r
  covers : Covers LogEntry.term n.log r.prevLogIndex r.entries
  log : max n.commitIndex r.covered < n.log.length
  leaderCommit : max n.commitIndex r.covered < r.leaderCommit

section
variable {n leader : RaftNode} {peer : PeerInfo} {r : AppendEntriesRequest}

theorem commitTo_commitIndex (n : RaftNode) (c : Nat) :
    (n.commitTo c).commitIndex =
      if c > n.commitIndex then min c n.getLastLogIndex else n.commitIndex := by
  rw [commitTo_eq]
  split <;> rfl

theorem handleAppendEntries_commitIndex (hle : n.currentTerm ≤ r.term) (hc : n.consistent r) :
    (n.handleAppendEntries r).1.commitIndex =
      if r.leaderCommit > n.commitIndex then
        min r.leaderCommit
          (lastLogIndex (splice LogEntry.term n.log r.prevLogIndex r.entries))
      else n.commitIndex := by
  obtain ⟨hlog, hci, -⟩ := greet_fields n r
  rw [handleAppendEntries_accepts hle hc, commitTo_commitIndex]
  simp only [acceptEntries, getLastLogIndex, hlog, hci]

theorem handleAppendEntries_currentTerm (hle : n.currentTerm ≤ r.term) (hc : n.consistent r) :
    (n.handleAppendEntries r).1.currentTerm = r.term := by
  rw [handleAppendEntries_accepts hle hc, commitTo_currentTerm]
  exact greet_currentTerm hle

theorem handleAppendEntries_log (hle : n.currentTerm ≤ r.term) (hc : n.consistent r) :
    (n.handleAppendEntries r).1.log =
      splice LogEntry.term n.log r.prevLogIndex r.entries := by
  rw [handleAppendEntries_accepts hle hc, commitTo_log, acceptEntries, (greet_fields n r).1]

/-- A leader that has no entry before the batch says so with a term no entry
has, so a request that is accepted starts within the leader's log. -/
theorem prevLogIndex_le_leader (hpos : ∀ e ∈ n.log, 0 < e.term)
    (hc : n.consistent (leader.appendEntriesRequest peer)) :
    (leader.appendEntriesRequest peer).prevLogIndex ≤ leader.log.length := by
  rcases (consistent_iff _ _).mp hc with h0 | ⟨x, hx, hxt⟩
  · omega
  · by_contra hlt
    have hnone : leader.log[(leader.appendEntriesRequest peer).prevLogIndex - 1]? = none :=
      List.getElem?_eq_none (by omega)
    have hzero : (leader.appendEntriesRequest peer).prevLogTerm = 0 := by
      simp only [appendEntriesRequest] at hnone ⊢
      simp [hnone]
    have := hpos x (List.mem_of_getElem? hx)
    omega

theorem covered_le_leader (hpos : ∀ e ∈ n.log, 0 < e.term)
    (hc : n.consistent (leader.appendEntriesRequest peer)) :
    (leader.appendEntriesRequest peer).covered ≤ leader.log.length := by
  have hcut := (cutFrom_appendEntriesRequest leader peer).entries.length_le
  have hp := prevLogIndex_le_leader hpos hc
  rw [List.length_drop] at hcut
  rw [AppendEntriesRequest.covered]
  omega

theorem Compatible.splice (h : Compatible n leader)
    (hle : n.currentTerm ≤ (leader.appendEntriesRequest peer).term)
    (hc : n.consistent (leader.appendEntriesRequest peer)) :
    WellFormed (splice LogEntry.term n.log (leader.appendEntriesRequest peer).prevLogIndex
      (leader.appendEntriesRequest peer).entries) leader.currentTerm :=
  (h.formed.mono hle).splice h.leaderFormed ((consistent_iff _ _).mp hc)
    (cutFrom_appendEntriesRequest leader peer)

/-- An accepted batch leaves the follower with the leader's log up to its end. -/
theorem Compatible.take_eq (h : Compatible n leader)
    (hc : n.consistent (leader.appendEntriesRequest peer)) :
    (Lib.splice LogEntry.term n.log (leader.appendEntriesRequest peer).prevLogIndex
      (leader.appendEntriesRequest peer).entries).take (leader.appendEntriesRequest peer).covered =
      leader.log.take (leader.appendEntriesRequest peer).covered :=
  take_splice h.matching ((consistent_iff _ _).mp hc) (cutFrom_appendEntriesRequest leader peer)
    (prevLogIndex_le_leader h.positive hc)

theorem length_splice_of_not_covers {prev prevTerm : Nat} {l es : List LogEntry}
    (hf : Fits LogEntry.term l prev prevTerm) (h : ¬ Covers LogEntry.term l prev es) :
    (Lib.splice LogEntry.term l prev es).length = prev + es.length := by
  rcases splice_cases LogEntry.term hf.le_length es with ⟨-, hcov⟩ | ⟨k, e, he, heq, hk, -, -⟩
  · exact absurd hcov h
  · have hlt := (List.getElem?_eq_some_iff.mp he).1
    rw [heq, List.length_append, List.length_take, List.length_drop]
    omega

theorem commitIndex_le_iff (h : Compatible n leader)
    (hle : n.currentTerm ≤ (leader.appendEntriesRequest peer).term)
    (hc : n.consistent (leader.appendEntriesRequest peer)) :
    (n.handleAppendEntries (leader.appendEntriesRequest peer)).1.commitIndex ≤
        max n.commitIndex (leader.appendEntriesRequest peer).covered ↔
      ¬ Overshoots n (leader.appendEntriesRequest peer) := by
  have hfit := (consistent_iff _ _).mp hc
  rw [handleAppendEntries_commitIndex hle hc, (h.splice hle hc).lastLogIndex]
  generalize leader.appendEntriesRequest peer = r at *
  constructor
  · rintro hbound ⟨-, -, hcov, hlog, hcommit⟩
    rw [splice_of_covers hcov, if_pos (by omega)] at hbound
    omega
  · intro hno
    split
    case isFalse => omega
    case isTrue hgt =>
      by_cases hcov : Covers LogEntry.term n.log r.prevLogIndex r.entries
      · rw [splice_of_covers hcov]
        by_contra hlt
        exact hno ⟨hle, hc, hcov, by omega, by omega⟩
      · rw [length_splice_of_not_covers hfit hcov, AppendEntriesRequest.covered]
        omega

/-- Of compatible nodes, the follower's commit index stays within the request
and its newly committed entries are the leader's, except where the batch is
held already and both log and commit index go on behind it. -/
theorem boundedCommit_iff (h : Compatible n leader) (peer : PeerInfo) :
    BoundedCommit n leader (leader.appendEntriesRequest peer) ↔
      ¬ Overshoots n (leader.appendEntriesRequest peer) := by
  constructor
  · intro hb hover
    have hsucc : (n.handleAppendEntries (leader.appendEntriesRequest peer)).2.success := by
      rw [handleAppendEntries_accepts hover.term hover.consistent]
    exact (commitIndex_le_iff h hover.term hover.consistent).mp (hb hsucc).1 hover
  · intro hno hsucc
    obtain ⟨hle, hc⟩ := accepts_of_success hsucc
    have hbound := (commitIndex_le_iff h hle hc).mpr hno
    refine ⟨hbound, fun i hlo hi => ?_⟩
    have hcovered : i < (leader.appendEntriesRequest peer).covered := by omega
    have hget := congrArg (·[i]?) (h.take_eq hc)
    simp only [List.getElem?_take_of_lt hcovered] at hget
    have hlen : i < leader.log.length := hcovered.trans_le (covered_le_leader h.positive hc)
    rw [handleAppendEntries_log hle hc]
    exact ⟨_, hget.trans (List.getElem?_eq_getElem hlen), List.getElem?_eq_getElem hlen⟩

end

-- ---------------------------------------------------------------------------
-- Compatible nodes
-- ---------------------------------------------------------------------------

/-- Terms of office start at 1: a candidacy raises the term. -/
structure Positive (n : RaftNode) : Prop where
  office : n.state ≠ .follower → 0 < n.currentTerm
  tenure : ∀ T l, (T, l) ∈ n.tenure → 0 < T

section
variable {n n' : RaftNode} {env : Env} {w w' : Cluster}

theorem Positive.commitAt (h : Positive n) (c : Nat) : Positive (n.commitAt c) :=
  ⟨h.office, h.tenure⟩

theorem Positive.move (h : Positive n) (hm : Move env n n') : Positive n' := by
  cases hm with
  | quiet q =>
    refine ⟨?_, ?_⟩
    · rw [q.state, q.currentTerm]
      exact h.office
    · rw [q.tenure]
      exact h.tenure
  | follow => exact ⟨fun hs => absurd rfl hs, h.tenure⟩
  | campaign => exact ⟨fun _ => Nat.succ_pos _, h.tenure⟩
  | takeOffice hs =>
    have hpos := h.office (by simp [hs])
    exact ⟨fun _ => hpos, forall_pair_concat h.tenure hpos⟩
  | push hs =>
    have hpos := h.office (by simp [hs])
    exact ⟨fun _ => hpos, forall_pair_concat h.tenure hpos⟩
  | commit => exact commitTo_keeps (P := Positive) h h.commitAt _
  | advance => exact updateCommitIndex_keeps (P := Positive) h h.commitAt
  | @reboot n known =>
    obtain ⟨peers, nextRef, T, heq, -⟩ := restart_eq known n
    rw [heq]
    exact ⟨fun hs => absurd rfl hs, h.tenure⟩
  | _ => exact { h with }

theorem Reach.positive {G : Cluster → Action → Prop} (h : system.Reach G w) :
    ∀ id, Positive (w.node id) := by
  refine Reach.moves (R := Rules.free) (I := fun w => ∀ id, Positive (w.node id))
    Rules.free_guard ?_ ?_ h
  · intro w hw id
    obtain ⟨config, known, -, hn⟩ := hw id
    obtain ⟨peers, nextRef, heq, -⟩ := boot_eq config known
    rw [hn, heq]
    exact ⟨fun hs => absurd rfl hs, nofun⟩
  · intro w id n' hI hm
    exact forall_node (P := fun _ _ => Positive) (fun _ _ _ _ _ h => h) hI hm ((hI id).move hm)

/-- In a run with one tenure a term, a node is compatible with what any node
is and has been: requests may be old. -/
theorem Reach.compatible (h : system.Reach (fun _ _ => True) w)
    (hrun : (system.after w).Reach (fun _ _ => True) w') (hone : OneTenure w') (m id : NodeId) :
    Compatible (w'.node id) (w.node m) := by
  have h' := h.trans hrun
  have hg := Reach.grown hrun
  obtain ⟨hM, -⟩ := (Reach.matched h').matching hone
  obtain ⟨hM₀, -⟩ := (Reach.matched h).matching (hone.anti hg)
  refine ⟨(Reach.formed h' id).log, (Reach.formed h m).log, ?_, ?_⟩
  · intro e he
    obtain ⟨i, hi⟩ := List.mem_iff_getElem?.mp he
    obtain ⟨s, ⟨x, hx⟩, -⟩ := hM.logs id i e hi
    exact (Reach.positive h' x).tenure _ s hx
  · exact (hM.logs id).matching hM.chained ((hM₀.logs m).mono hg.tenure)

end

theorem trio_boundedCommit : ∃ w, system.Reach (fun _ _ => True) w ∧
    ∃ peer ∈ (w.node "a").peers.values,
      (w.node "b").commitIndex < ((w.node "b").handleAppendEntries
        ((w.node "a").appendEntriesRequest peer)).1.commitIndex ∧
      BoundedCommit (w.node "b") (w.node "a") ((w.node "a").appendEntriesRequest peer) := by
  obtain ⟨w, hw, peer, hp, hlt, hlog⟩ := System.Reach.replay (M := system)
    (G := fun w a => ElectionGuard trioVoters w a ∧ NoRestart w a)
    (P := fun w => ∃ peer ∈ (w.node "a").peers.values,
      (w.node "b").commitIndex < ((w.node "b").handleAppendEntries
        ((w.node "a").appendEntriesRequest peer)).1.commitIndex ∧
      (w.node "b").log.length ≤ ((w.node "a").appendEntriesRequest peer).covered)
    trio_booted (officeA ++ roundA) (by decide +kernel)
  have hone : OneLeader w := (Reach.electoral (hw.mono fun _ _ h => h.1)).oneLeader
  have hten := Reach.oneTenure hw (fun _ _ h => h.2) hone
  have hfree := hw.mono (H := fun _ _ => True) fun _ _ _ => trivial
  refine ⟨w, hfree, peer, hp, hlt, ?_⟩
  refine (boundedCommit_iff (Reach.compatible hfree (.init rfl) hten "a" "b") peer).mpr ?_
  rintro ⟨-, -, -, hover, -⟩
  omega

/-- The request that takes `c`'s commit index to the stale entry of `b`. -/
theorem staleTail_overshoots : ∃ w,
    system.Reach (fun w a => OneVotingSet trioVoters w a ∧ NoRestart w a) w ∧ OneLeader w ∧
    (w.node "c").state = .leader ∧ ∃ peer ∈ (w.node "c").peers.values, peer.nodeId = "b" ∧
      ¬ BoundedCommit (w.node "b") (w.node "c") ((w.node "c").appendEntriesRequest peer) := by
  obtain ⟨w, hw, hs, peer, hp, hid, hsucc, hlt⟩ := System.Reach.replay (M := system)
    (G := fun w a => ElectionGuard trioVoters w a ∧ NoRestart w a)
    (P := fun w => (w.node "c").state = .leader ∧ ∃ peer ∈ (w.node "c").peers.values,
      peer.nodeId = "b" ∧
      ((w.node "b").handleAppendEntries ((w.node "c").appendEntriesRequest peer)).2.success ∧
      max (w.node "b").commitIndex ((w.node "c").appendEntriesRequest peer).covered <
        ((w.node "b").handleAppendEntries
          ((w.node "c").appendEntriesRequest peer)).1.commitIndex)
    (s := oneByOne) (fun _ => ⟨_, _, rfl, rfl⟩) staleTail.dropLast (by decide +kernel)
  have hone : OneLeader w := (Reach.electoral (hw.mono fun _ _ h => h.1)).oneLeader
  refine ⟨w, hw.mono fun _ _ h => ⟨h.1.1, h.2⟩, hone, hs, peer, hp, hid, fun hb => ?_⟩
  exact absurd (hb hsucc).1 (Nat.not_le.mpr hlt)

end ClaudeCluster.Raft
