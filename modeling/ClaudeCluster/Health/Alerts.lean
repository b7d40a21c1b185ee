import ClaudeCluster.Health.ClusterHealth
import ClaudeCluster.Lib.Run

/-!
# Offline alerts

A monitor is the plugin, its clock and the checks that are still sending. A
check reads whatever Raft node it is given, squelches come and go, and each
alert is sent at a moment of its own, to a tool that may be missing or throw.

Peers fall silent in their own time, whoever leads then and whether or not a
check looks at them. `alertedOfflinePeers` is set before an alert is sent, and
nothing takes it back when the alert is dropped; and a peer that has recovered
unseen is still in it. So a peer in it has been reported (`Reported`) as long as
no offline alert is dropped for a peer in the set, and no peer falls silent
while it is there (`Heard`).
-/

namespace ClaudeCluster.Health

open Lib (System)
open Raft (NodeId RaftNode PeerInfo)

-- ---------------------------------------------------------------------------
-- What a check does
-- ---------------------------------------------------------------------------

namespace ClusterHealthPlugin

def pastGrace (raft : RaftNode) (now : Nat) (h : ClusterHealthPlugin) : Bool :=
  raft.state = .leader ∧ ¬ now - (h.noteOffice now).becameLeaderAt < leaderGracePeriodMs

def unresponsiveAt (raft : RaftNode) (now : Nat) (h : ClusterHealthPlugin) : List PeerInfo :=
  (h.noteAlive raft now).unresponsivePeers raft now

section
variable {raft : RaftNode} {now : Nat} {h : ClusterHealthPlugin} {id : NodeId}

theorem runHealthCheck_of_not (hg : h.pastGrace raft now = false) :
    (h.runHealthCheck raft now).2 = [] ∧
      (h.runHealthCheck raft now).1.alertedOfflinePeers = h.alertedOfflinePeers := by
  unfold runHealthCheck
  dsimp only
  split
  case isTrue => exact ⟨rfl, rfl⟩
  case isFalse hs =>
    have hlt : now - (h.noteOffice now).becameLeaderAt < leaderGracePeriodMs := by
      simpa [pastGrace, not_not.mp hs] using hg
    rw [if_pos (show now - ((h.recordTerm raft.currentTerm now).noteOffice now).becameLeaderAt <
      leaderGracePeriodMs from hlt)]
    exact ⟨rfl, rfl⟩

theorem runHealthCheck_of_pastGrace (hg : h.pastGrace raft now = true) :
    ∃ h' : ClusterHealthPlugin, h.runHealthCheck raft now = h'.checkPeers raft now ∧
      h'.alertedOfflinePeers = h.alertedOfflinePeers ∧ h'.peerLastAlive = h.peerLastAlive := by
  simp only [pastGrace, decide_eq_true_eq] at hg
  obtain ⟨hs, hlt⟩ := hg
  refine ⟨(h.recordTerm raft.currentTerm now).noteOffice now, ?_, rfl, rfl⟩
  have hlt : ¬ now - ((h.recordTerm raft.currentTerm now).noteOffice now).becameLeaderAt <
    leaderGracePeriodMs := hlt
  unfold runHealthCheck
  dsimp only
  rw [if_neg (not_not.mpr hs), if_neg hlt]

theorem unresponsiveAt_congr {h' : ClusterHealthPlugin} (hp : h'.peerLastAlive = h.peerLastAlive) :
    h'.unresponsiveAt raft now = h.unresponsiveAt raft now := by
  unfold unresponsiveAt unresponsivePeers noteAlive
  rw [hp]

theorem mem_foldl_add {ids s : List NodeId} : id ∈ ids.foldl add s ↔ id ∈ s ∨ id ∈ ids := by
  induction ids generalizing s with
  | nil => simp
  | cons x ids ih =>
    have hadd : id ∈ add s x ↔ id ∈ s ∨ id = x := by
      unfold add
      split
      case isTrue hx => exact ⟨.inl, fun h => h.elim (fun h => h) fun h => h ▸ hx⟩
      case isFalse => simp
    rw [List.foldl_cons, ih, hadd, List.mem_cons, or_assoc]

/-- After the check the set holds the peers it takes for unresponsive, and of
the others those it held before and has not seen recovered. -/
theorem mem_checkPeers :
    id ∈ (h.checkPeers raft now).1.alertedOfflinePeers ↔
      (id ∈ h.alertedOfflinePeers ∧ id ∉ h.recoveredPeers raft) ∨
        id ∈ (h.unresponsiveAt raft now).map PeerInfo.nodeId := by
  simp only [checkPeers, mem_foldl_add, List.mem_filter, List.mem_map, decide_eq_true_eq]
  constructor
  · rintro (hold | ⟨p, ⟨hp, -⟩, hid⟩)
    · exact .inl hold
    · exact .inr ⟨p, hp, hid⟩
  · rintro (hold | ⟨p, hp, rfl⟩)
    · exact .inl hold
    · by_cases hnew : p.nodeId ∈ h.alertedOfflinePeers ∧ p.nodeId ∉ h.recoveredPeers raft
      · exact .inl hnew
      · exact .inr ⟨p, ⟨hp, hnew⟩, rfl⟩

theorem named_of_unresponsive (hp : id ∈ (h.unresponsiveAt raft now).map PeerInfo.nodeId)
    (hnew : ¬ (id ∈ h.alertedOfflinePeers ∧ id ∉ h.recoveredPeers raft)) :
    ∃ a ∈ (h.checkPeers raft now).2, id ∈ a.offline := by
  obtain ⟨p, hmem, rfl⟩ := List.mem_map.mp hp
  have hnewly : p ∈ (h.unresponsiveAt raft now).filter
      (·.nodeId ∉ h.alertedOfflinePeers.filter (· ∉ h.recoveredPeers raft)) :=
    List.mem_filter.mpr ⟨hmem, by simpa [imp_iff_not_or] using hnew⟩
  refine ⟨offlineAlert _ (h.unresponsiveAt raft now).length raft.peers.values.length, ?_,
    List.mem_map_of_mem hnewly⟩
  simp only [checkPeers, List.mem_append]
  refine .inl (.inl (.inr ?_))
  rw [if_pos]
  · exact List.mem_singleton_self _
  · exact List.length_pos_of_mem hnewly

theorem sendAlert_alerted (alert : HealthAlert) :
    (h.sendAlert alert now).1.alertedOfflinePeers = h.alertedOfflinePeers := by
  have hsq : (h.isSquelched now).1.alertedOfflinePeers = h.alertedOfflinePeers := by
    unfold isSquelched
    split
    · rfl
    · split <;> rfl
  unfold sendAlert
  dsimp only
  split
  · exact hsq
  · split <;> exact hsq

end

end ClusterHealthPlugin

-- ---------------------------------------------------------------------------
-- The monitor
-- ---------------------------------------------------------------------------

inductive Notify
  | missing
  | throws
  | done
  deriving DecidableEq, Repr

structure Monitor where
  plugin : ClusterHealthPlugin := {}
  now : Nat
  /-- The alerts each check still has to send. -/
  checks : List (List HealthAlert) := []
  -- history
  /-- The peers the last check that looked at them took for unresponsive. -/
  unresponsive : List NodeId := []
  /-- The peers of whom an offline alert has been handed over since they last
  fell silent, or were last newly found so. -/
  reported : List NodeId := []

inductive Event
  | elapse (ms : Nat)
  | check
  /-- The `k`-th check sends its next alert. -/
  | send (k : Nat) (notify : Notify)
  | squelch (minutes : Option Rat)
  | stateChange (term : Nat)
  | start (row : Option Int)
  | restart
  /-- A peer becomes unresponsive; the plugin is not told. -/
  | falls (id : NodeId)

namespace Monitor

def pending (m : Monitor) : List HealthAlert := m.checks.flatten

def restart (m : Monitor) : Monitor where
  plugin := { termVelocityThreshold := m.plugin.termVelocityThreshold }
  now := m.now

/-- What the check finds unresponsive; before the grace period is over it does
not look. -/
def finds (raft : RaftNode) (m : Monitor) : List NodeId :=
  if m.plugin.pastGrace raft m.now then
    (m.plugin.unresponsiveAt raft m.now).map PeerInfo.nodeId
  else m.unresponsive

def check (raft : RaftNode) (m : Monitor) : Monitor where
  plugin := (m.plugin.runHealthCheck raft m.now).1
  now := m.now
  checks := m.checks ++ [(m.plugin.runHealthCheck raft m.now).2]
  unresponsive := m.finds raft
  reported := m.reported.filter fun id => ¬ (id ∈ m.finds raft ∧ id ∉ m.unresponsive)

def hands (alert : HealthAlert) (notify : Notify) (m : Monitor) : Bool :=
  (m.plugin.sendAlert alert m.now).2.isSome && notify = .done

def send (k : Nat) (alert : HealthAlert) (rest : List HealthAlert) (notify : Notify)
    (m : Monitor) : Monitor :=
  { m with
    plugin := (m.plugin.sendAlert alert m.now).1
    checks := m.checks.set k rest
    reported := if m.hands alert notify then m.reported ++ alert.offline else m.reported }

def step (raft : RaftNode) (m : Monitor) : Event → Option Monitor
  | .elapse ms => some { m with now := m.now + ms }
  | .check => some (m.check raft)
  | .send k notify =>
    match m.checks[k]? with
    | some (alert :: rest) => some (m.send k alert rest notify)
    | _ => none
  | .squelch minutes => some { m with plugin := m.plugin.squelchAlerts minutes m.now }
  | .stateChange term => some { m with plugin := m.plugin.recordTerm term m.now }
  | .start row => some { m with plugin := m.plugin.start row raft m.now }
  | .restart => some m.restart
  | .falls id => some { m with reported := m.reported.filter (· ≠ id) }

def Fresh (m : Monitor) : Prop :=
  ∃ now threshold, m = { plugin := { termVelocityThreshold := threshold }, now := now }

end Monitor

/-- Each event comes with the Raft node as it is then. -/
def monitoring : System Monitor (RaftNode × Event) := ⟨Monitor.Fresh, fun m a => m.step a.1 a.2⟩

-- ---------------------------------------------------------------------------
-- No alert is swallowed
-- ---------------------------------------------------------------------------

namespace Monitor

/-- An alert for every peer in the set has been handed over, or a check that is
still sending has one; and every unresponsive peer is in the set. -/
def Reported (m : Monitor) : Prop :=
  (∀ id ∈ m.plugin.alertedOfflinePeers, id ∈ m.reported ∨ ∃ a ∈ m.pending, id ∈ a.offline) ∧
    ∀ id ∈ m.unresponsive, id ∈ m.plugin.alertedOfflinePeers

instance (m : Monitor) : Decidable m.Reported := inferInstanceAs (Decidable (_ ∧ _))

/-- Neither a squelch nor the cooldown of the alert is on. -/
def Open (m : Monitor) (a : HealthAlert) : Prop :=
  (m.plugin.squelchedUntil ≤ 0 ∨ m.plugin.squelchedUntil ≤ m.now) ∧
    alertCooldownMs ≤ m.now - timeOf m.plugin.lastAlerts (ClusterHealthPlugin.alertKey a)

/-- No peer becomes unresponsive while it is still in `alertedOfflinePeers`, and
no alert is dropped that names a peer in there. -/
def Heard (m : Monitor) : RaftNode × Event → Prop
  | (raft, .check) => ∀ id ∈ m.plugin.alertedOfflinePeers, id ∈ m.finds raft → id ∈ m.unresponsive
  | (_, .send k notify) => ∀ a ∈ (m.checks[k]?.getD []).head?,
      m.Open a ∧ notify = .done ∨ ∀ id ∈ a.offline, id ∉ m.plugin.alertedOfflinePeers
  | (_, .falls id) => id ∉ m.plugin.alertedOfflinePeers
  | _ => True

instance (m : Monitor) (a : HealthAlert) : Decidable (m.Open a) := inferInstanceAs (Decidable (_ ∧ _))

instance (m : Monitor) : (a : RaftNode × Event) → Decidable (m.Heard a)
  | (raft, .check) => inferInstanceAs (Decidable
      (∀ id ∈ m.plugin.alertedOfflinePeers, id ∈ m.finds raft → id ∈ m.unresponsive))
  | (_, .send k notify) => inferInstanceAs (Decidable
      (∀ a ∈ (m.checks[k]?.getD []).head?,
        m.Open a ∧ notify = .done ∨ ∀ id ∈ a.offline, id ∉ m.plugin.alertedOfflinePeers))
  | (_, .falls id) => inferInstanceAs (Decidable (id ∉ m.plugin.alertedOfflinePeers))
  | (_, .elapse _) | (_, .squelch _) | (_, .stateChange _) | (_, .start _) | (_, .restart) =>
    isTrue trivial

section
variable {m m' : Monitor} {raft : RaftNode}

theorem Reported.check (hr : m.Reported)
    (hh : ∀ id ∈ m.plugin.alertedOfflinePeers, id ∈ m.finds raft → id ∈ m.unresponsive) :
    (m.check raft).Reported := by
  -- what was said of a peer that stays in the set still holds
  have hkeep : ∀ id ∈ m.plugin.alertedOfflinePeers, id ∈ (m.check raft).reported ∨
      ∃ a ∈ (m.check raft).pending, id ∈ a.offline := by
    intro id hid
    rcases hr.1 id hid with h | ⟨a, ha, hn⟩
    · exact .inl (List.mem_filter.mpr ⟨h, by simpa [imp_iff_not_or] using hh id hid⟩)
    · refine .inr ⟨a, ?_, hn⟩
      simp only [pending, Monitor.check, List.flatten_append, List.mem_append]
      exact .inl ha
  cases hg : m.plugin.pastGrace raft m.now with
  | false =>
    obtain ⟨-, hset⟩ := ClusterHealthPlugin.runHealthCheck_of_not hg
    have hset : (m.check raft).plugin.alertedOfflinePeers = m.plugin.alertedOfflinePeers := hset
    refine ⟨?_, ?_⟩
    · rw [hset]
      exact hkeep
    · rw [hset]
      have hfinds : (m.check raft).unresponsive = m.unresponsive := by
        simp [Monitor.check, finds, hg]
      rw [hfinds]
      exact hr.2
  | true =>
    obtain ⟨h', hrun, hset, hlast⟩ := ClusterHealthPlugin.runHealthCheck_of_pastGrace hg
    have hfinds : (m.check raft).unresponsive =
        (h'.unresponsiveAt raft m.now).map PeerInfo.nodeId := by
      simp [Monitor.check, finds, hg, ClusterHealthPlugin.unresponsiveAt_congr hlast]
    have hplugin : (m.check raft).plugin = (h'.checkPeers raft m.now).1 := congrArg Prod.fst hrun
    refine ⟨?_, ?_⟩
    · intro id hid
      rw [hplugin, ClusterHealthPlugin.mem_checkPeers] at hid
      by_cases hold : id ∈ h'.alertedOfflinePeers ∧ id ∉ h'.recoveredPeers raft
      · exact hkeep id (hset ▸ hold.1)
      · obtain ⟨a, ha, hn⟩ :=
          ClusterHealthPlugin.named_of_unresponsive (hid.resolve_left hold) hold
        refine .inr ⟨a, ?_, hn⟩
        simp only [pending, Monitor.check, hrun, List.flatten_append, List.mem_append]
        exact .inr (by simpa using ha)
    · intro id hid
      rw [hplugin, ClusterHealthPlugin.mem_checkPeers]
      exact .inr (hfinds ▸ hid)

theorem mem_flatten_set {α : Type} {ls : List (List α)} {k : Nat} {a b : α} {rest : List α}
    (hk : ls[k]? = some (a :: rest)) (hb : b ∈ ls.flatten) :
    b = a ∨ b ∈ (ls.set k rest).flatten := by
  induction ls generalizing k with
  | nil => cases hk
  | cons l ls ih =>
    rw [List.flatten_cons, List.mem_append] at hb
    cases k with
    | zero =>
      cases hk
      rw [List.set_cons_zero, List.flatten_cons, List.mem_append]
      exact hb.elim (fun h => (List.mem_cons.mp h).imp_right .inl) fun h => .inr (.inr h)
    | succ k =>
      rw [List.set_cons_succ, List.flatten_cons, List.mem_append]
      exact hb.elim (fun h => .inr (.inl h)) fun h => (ih hk h).imp_right .inr

theorem hands_of_open {alert : HealthAlert} (h : m.Open alert) : m.hands alert .done = true := by
  obtain ⟨hsquelch, hcooldown⟩ := h
  have hpass : (m.plugin.isSquelched m.now).2 = false ∧
      (m.plugin.isSquelched m.now).1.lastAlerts = m.plugin.lastAlerts := by
    unfold ClusterHealthPlugin.isSquelched
    split
    · exact ⟨rfl, rfl⟩
    case isFalse hpos =>
      rw [if_neg (Rat.not_lt.mpr (hsquelch.resolve_left hpos))]
      exact ⟨rfl, rfl⟩
  simp only [hands, ClusterHealthPlugin.sendAlert, hpass, Bool.false_eq_true, if_false,
    if_neg (Nat.not_lt.mpr hcooldown)]
  rfl

theorem Reported.send {k : Nat} {alert : HealthAlert} {rest : List HealthAlert} {notify : Notify}
    (hr : m.Reported) (hk : m.checks[k]? = some (alert :: rest))
    (hh : m.Heard (raft, .send k notify)) : (m.send k alert rest notify).Reported := by
  have hset : (m.send k alert rest notify).plugin.alertedOfflinePeers =
      m.plugin.alertedOfflinePeers := ClusterHealthPlugin.sendAlert_alerted alert
  have hmore : ∀ id ∈ m.reported, id ∈ (m.send k alert rest notify).reported := by
    intro id hid
    simp only [Monitor.send]
    split
    · exact List.mem_append_left _ hid
    · exact hid
  refine ⟨?_, fun id hid => hset ▸ hr.2 id hid⟩
  rw [hset]
  intro id hid
  rcases hr.1 id hid with h | ⟨b, hb, hn⟩
  · exact .inl (hmore id h)
  · rcases mem_flatten_set hk hb with rfl | hb
    · -- the alert taken from the check is one that names the peer
      rcases hh b (by rw [hk]; rfl) with ⟨hopen, rfl⟩ | hdrop
      · refine .inl ?_
        simp only [Monitor.send, hands_of_open hopen, ↓reduceIte]
        exact List.mem_append_right _ hn
      · exact absurd hid (hdrop id hn)
    · exact .inr ⟨b, hb, hn⟩

theorem Reported.step {a : RaftNode × Event} (hr : m.Reported) (hh : m.Heard a)
    (hs : m.step a.1 a.2 = some m') : m'.Reported := by
  obtain ⟨raft, e⟩ := a
  cases e with
  | elapse ms | squelch minutes | stateChange term =>
    cases hs
    exact hr
  | check =>
    cases hs
    exact hr.check hh
  | send k notify =>
    simp only [Monitor.step] at hs
    split at hs
    case h_1 alert rest hk =>
      cases hs
      exact hr.send hk hh
    case h_2 => cases hs
  | start row =>
    cases hs
    cases row with
    | none => exact hr
    | some stamp =>
      simp only [Reported, ClusterHealthPlugin.start, ClusterHealthPlugin.loadSquelch,
        ClusterHealthPlugin.recordTerm]
      split <;> exact hr
  | restart =>
    cases hs
    exact ⟨nofun, nofun⟩
  | falls id =>
    cases hs
    refine ⟨fun other hother => (hr.1 other hother).imp_left fun hrep => ?_, hr.2⟩
    refine List.mem_filter.mpr ⟨hrep, decide_eq_true ?_⟩
    rintro rfl
    exact hh hother

end

end Monitor

theorem reported_of_heard {m : Monitor} (h : monitoring.Reach Monitor.Heard m) : m.Reported := by
  refine h.invariant (fun m hm => ?_) fun m a m' _ hr hh hs => hr.step hh hs
  obtain ⟨now, threshold, rfl⟩ := hm
  exact ⟨nofun, nofun⟩

def leaderOfTwo : RaftNode where
  config := { nodeId := "a" }
  state := .leader
  commitIndex := 5
  peers := ⟨[⟨"b", 1, 0, true, 0⟩, ⟨"c", 6, 5, true, 1⟩], by decide⟩

def twoChecks : List (RaftNode × Event) :=
  [(leaderOfTwo, .check), (leaderOfTwo, .elapse 61000), (leaderOfTwo, .check)]

theorem reported_of_heard_b : ∃ m, monitoring.Reach Monitor.Heard m ∧
    (m.plugin.alertedOfflinePeers = ["b"] ∧ m.pending = []) ∧ m.Reported := by
  obtain ⟨m, hm, hp⟩ := System.Reach.replay (M := monitoring) (G := Monitor.Heard)
    (P := fun m => m.plugin.alertedOfflinePeers = ["b"] ∧ m.pending = [])
    ⟨1000000, 5, rfl⟩
    (twoChecks ++ [(leaderOfTwo, .send 1 .done), (leaderOfTwo, .check)]) (by decide)
  exact ⟨m, hm, hp, reported_of_heard hm⟩

def followerOfTwo : RaftNode := { leaderOfTwo with state := .follower }

/-- `b` is found offline while alerts are squelched. Ten minutes after the end
of the squelch a check has run again, and nobody has been told. Nor has anybody
where `b` comes back and falls silent again while another node leads. -/
theorem offline_not_reported :
    (∃ m, monitoring.Reach (fun _ _ => True) m ∧
      (m.plugin.squelchedUntil + 600000 = m.now ∧ m.pending = [] ∧ "b" ∈ m.unresponsive ∧
        ¬ m.Reported)) ∧
    ∃ m, monitoring.Reach (fun _ _ => True) m ∧
      (m.plugin.squelchedUntil = 0 ∧ m.pending = [] ∧ "b" ∈ m.unresponsive ∧ ¬ m.Reported) := by
  constructor
  · exact System.Reach.replay (M := monitoring) ⟨1000000, 5, rfl⟩
      ((leaderOfTwo, .squelch (some 30)) :: twoChecks ++ [(leaderOfTwo, .send 1 .done),
        (leaderOfTwo, .elapse 2339000), (leaderOfTwo, .check)]) (by decide +kernel)
  · exact System.Reach.replay (M := monitoring) ⟨1000000, 5, rfl⟩
      (twoChecks ++ [(leaderOfTwo, .send 1 .done), (followerOfTwo, .check),
        (followerOfTwo, .falls "b")] ++ twoChecks) (by decide +kernel)

end ClaudeCluster.Health
