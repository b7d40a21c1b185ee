import ClaudeCluster.Lib.Run

/-!
# The messaging gateway

The leader polls the channels: `MessagingGateway` connects its adapters when the
node becomes leader and disconnects them when it stops being it. The flag flips
at once, the calls take their time, and a node that loses its leadership
disconnects only what is connected at that instant. Who is connected once no
call is pending is right in every run in which no call overtakes the flag
(`exact_of_inTurn`).
-/

namespace ClaudeCluster.Messaging.Gateway

open Lib (System)

/-- An adapter: `isConnected()`, its calls under way, and whether a `connect` has
succeeded since the gateway was last activated, which is not in the source. -/
structure Adapter where
  connected : Bool := false
  connects : Nat := 0
  disconnects : Nat := 0
  succeeded : Bool := false
  deriving DecidableEq, Repr

/-- `last` is not in the source: the state of the last 'stateChange'. -/
structure MessagingGateway where
  adapters : List Adapter
  active : Bool := false
  last : Option String := none
  deriving DecidableEq, Repr

def Adapter.connect (a : Adapter) : Adapter :=
  { a with connects := a.connects + 1, succeeded := false }

def Adapter.disconnect (a : Adapter) : Adapter := { a with disconnects := a.disconnects + 1 }

namespace MessagingGateway

def activate (g : MessagingGateway) : MessagingGateway :=
  if g.active then g else { g with active := true, adapters := g.adapters.map Adapter.connect }

/-- Up to the `await`: the filter sees the adapters as they are now. -/
def deactivate (g : MessagingGateway) : MessagingGateway :=
  if !g.active then g
  else
    { g with
      active := false
      adapters := g.adapters.map fun a => if a.connected then a.disconnect else a }

def onStateChange (g : MessagingGateway) (state : String) : MessagingGateway :=
  let g := if state = "leader" then g.activate else if g.active then g.deactivate else g
  { g with last := some state }

/-- A gateway that is stopped is not to be connected; the node leads no longer. -/
def stop (g : MessagingGateway) : MessagingGateway := { g.deactivate with last := none }

end MessagingGateway

inductive Ending where
  | connected | connectRejects | disconnected | disconnectRejects
  deriving DecidableEq, Repr

def Adapter.next (a : Adapter) : Ending → Option Adapter
  | .connected =>
    if a.connects = 0 then none
    else some { a with connected := true, connects := a.connects - 1, succeeded := true }
  | .connectRejects =>
    if a.connects = 0 then none else some { a with connects := a.connects - 1 }
  | .disconnected =>
    if a.disconnects = 0 then none
    else some { a with connected := false, disconnects := a.disconnects - 1 }
  | .disconnectRejects =>
    if a.disconnects = 0 then none else some { a with disconnects := a.disconnects - 1 }

inductive Action where
  | stateChange (state : String)
  | stop
  | ends (i : Nat) (ending : Ending)
  deriving DecidableEq, Repr

def step (g : MessagingGateway) : Action → Option MessagingGateway
  | .stateChange state => some (g.onStateChange state)
  | .stop => some g.stop
  | .ends i ending => do
    let a ← g.adapters[i]?
    let a ← a.next ending
    some { g with adapters := g.adapters.set i a }

def gateway : System MessagingGateway Action where
  init g := ∃ n, g = { adapters := .replicate n {} }
  step := step

def Quiet (g : MessagingGateway) : Prop := ∀ a ∈ g.adapters, a.connects = 0 ∧ a.disconnects = 0

/-- Once no call is pending, exactly the leader is connected, if its connect
succeeded. -/
def Exact (g : MessagingGateway) : Prop :=
  Quiet g → ∀ a ∈ g.adapters, a.connected = true ↔ g.last = some "leader" ∧ a.succeeded = true

/-- A connect succeeds while the gateway is active; a disconnect takes away nothing
that was connected since, and fails only where there is nothing to take away. -/
def Adapter.InTurn (active : Bool) (a : Adapter) : Ending → Prop
  | .connected => active = true
  | .connectRejects => True
  | .disconnected => active = true → a.succeeded = false
  | .disconnectRejects => a.connected = true → active = true ∧ a.succeeded = true

def InTurn (g : MessagingGateway) : Action → Prop
  | .ends i ending => ∀ a ∈ g.adapters[i]?, a.InTurn g.active ending
  | .stateChange _ | .stop => True

-- ---------------------------------------------------------------------------
-- The invariant
-- ---------------------------------------------------------------------------

/-- What is connected without having been asked to is about to be disconnected. -/
structure Adapter.Settles (active : Bool) (a : Adapter) : Prop where
  held : active = true → a.succeeded = true → a.connected = true
  leaving : a.connected = true → (active = true ∧ a.succeeded = true) ∨ 0 < a.disconnects

structure Inv (g : MessagingGateway) : Prop where
  active : g.active = true ↔ g.last = some "leader"
  settles : ∀ a ∈ g.adapters, a.Settles g.active

section

variable {g g' : MessagingGateway} {a a' : Adapter} {action : Action}

theorem Inv.start (n : Nat) : Inv { adapters := .replicate n {} } where
  active := by simp
  settles := by
    intro a ha
    obtain rfl := List.eq_of_mem_replicate ha
    exact ⟨by simp, by simp⟩

theorem Inv.exact (h : Inv g) : Exact g := by
  intro hquiet a ha
  obtain ⟨hheld, hleaving⟩ := h.settles a ha
  rw [← h.active]
  constructor
  · intro hc
    refine (hleaving hc).resolve_right ?_
    rw [(hquiet a ha).2]
    exact Nat.lt_irrefl 0
  · exact fun hlead => hheld hlead.1 hlead.2

/-- Flipping the flag asks for what it makes wrong. -/
theorem settles_connect (h : a.Settles false) : a.connect.Settles true where
  held := by simp [Adapter.connect]
  leaving := by
    intro hc
    exact .inr ((h.leaving hc).resolve_left (by simp))

theorem settles_disconnect : (if a.connected then a.disconnect else a).Settles false where
  held := by simp
  leaving := by
    cases hc : a.connected <;> simp [Adapter.disconnect, hc]

theorem settles_activate (h : ∀ a ∈ g.adapters, a.Settles g.active) :
    g.activate.active = true ∧ ∀ a ∈ g.activate.adapters, a.Settles true := by
  rw [MessagingGateway.activate]
  split
  case isTrue hactive =>
    rw [hactive] at h
    exact ⟨hactive, h⟩
  case isFalse hactive =>
    refine ⟨rfl, fun b hb => ?_⟩
    obtain ⟨a, ha, rfl⟩ := List.mem_map.mp hb
    have hsettles := h a ha
    rw [Bool.eq_false_iff.mpr hactive] at hsettles
    exact settles_connect hsettles

theorem settles_deactivate (h : ∀ a ∈ g.adapters, a.Settles g.active) :
    g.deactivate.active = false ∧ ∀ a ∈ g.deactivate.adapters, a.Settles false := by
  rw [MessagingGateway.deactivate]
  split
  case isTrue hactive =>
    have hactive : g.active = false := by simpa using hactive
    rw [hactive] at h
    exact ⟨hactive, h⟩
  case isFalse =>
    refine ⟨rfl, fun b hb => ?_⟩
    obtain ⟨a, -, rfl⟩ := List.mem_map.mp hb
    exact settles_disconnect

theorem Inv.stateChange (h : Inv g) (state : String) : Inv (g.onStateChange state) := by
  rw [MessagingGateway.onStateChange]
  split
  case isTrue hlead =>
    obtain ⟨hactive, hsettles⟩ := settles_activate h.settles
    exact ⟨by simp [hactive, hlead], by simpa only [hactive] using hsettles⟩
  case isFalse hlead =>
    split
    case isTrue =>
      obtain ⟨hactive, hsettles⟩ := settles_deactivate h.settles
      exact ⟨by simp [hactive, hlead], by simpa only [hactive] using hsettles⟩
    case isFalse hactive => exact ⟨by simp [hactive, hlead], h.settles⟩

theorem Inv.stop (h : Inv g) : Inv g.stop := by
  obtain ⟨hactive, hsettles⟩ := settles_deactivate h.settles
  exact ⟨by simp [MessagingGateway.stop, hactive],
    by simpa only [MessagingGateway.stop, hactive] using hsettles⟩

theorem settles_next {active : Bool} {ending : Ending} (h : a.Settles active)
    (hg : a.InTurn active ending) (hn : a.next ending = some a') : a'.Settles active := by
  cases ending with
  | connected =>
    simp only [Adapter.next] at hn
    split at hn <;> cases hn
    exact ⟨fun _ _ => rfl, fun _ => .inl ⟨hg, rfl⟩⟩
  | connectRejects =>
    simp only [Adapter.next] at hn
    split at hn <;> cases hn
    exact ⟨h.held, h.leaving⟩
  | disconnected =>
    simp only [Adapter.next] at hn
    split at hn <;> cases hn
    refine ⟨fun hactive hsucc => ?_, fun hc => by cases hc⟩
    exact absurd (hg hactive) (by simpa using hsucc)
  | disconnectRejects =>
    simp only [Adapter.next] at hn
    split at hn <;> cases hn
    exact ⟨h.held, fun hc => .inl (hg hc)⟩

theorem Inv.step (h : Inv g) (hg : InTurn g action) (hs : Gateway.step g action = some g') : Inv g' := by
  cases action with
  | stateChange state =>
    cases hs
    exact h.stateChange state
  | stop =>
    cases hs
    exact h.stop
  | ends i ending =>
    simp only [Gateway.step, Option.bind_eq_bind, Option.bind_eq_some_iff] at hs
    obtain ⟨a, hi, a', hn, hs⟩ := hs
    cases hs
    refine ⟨h.active, fun b hb => ?_⟩
    rcases List.mem_or_eq_of_mem_set hb with hb | rfl
    · exact h.settles b hb
    · exact settles_next (h.settles a (List.mem_of_getElem? hi)) (hg a hi) hn

end

/-- In every run whose calls end in turn. -/
theorem exact_of_inTurn {g : MessagingGateway} (h : gateway.Reach InTurn g) : Exact g := by
  have hinv : Inv g := h.invariant
    (fun g hi => by obtain ⟨n, rfl⟩ := hi; exact .start n)
    fun g a g' _ hinv hg hs => Inv.step hinv hg hs
  exact hinv.exact

instance (active : Bool) (a : Adapter) : ∀ ending, Decidable (a.InTurn active ending)
  | .connected => inferInstanceAs (Decidable (_ = _))
  | .connectRejects => .isTrue trivial
  | .disconnected => inferInstanceAs (Decidable (_ → _))
  | .disconnectRejects => inferInstanceAs (Decidable (_ → _ ∧ _))

instance (g : MessagingGateway) : ∀ action, Decidable (InTurn g action)
  | .ends i ending => inferInstanceAs (Decidable (∀ a ∈ g.adapters[i]?, a.InTurn g.active ending))
  | .stateChange _ | .stop => .isTrue trivial

theorem exact_leader : ∃ g, gateway.Reach InTurn g ∧
    (g.adapters.map Adapter.connected = [true, false] ∧ g.last = some "leader") ∧ Exact g := by
  obtain ⟨g, hg, hP⟩ := System.Reach.replay (M := gateway) (G := InTurn)
    (P := fun g => g.adapters.map Adapter.connected = [true, false] ∧ g.last = some "leader")
    ⟨2, rfl⟩ [.stateChange "candidate", .stateChange "leader", .ends 1 .connectRejects,
      .ends 0 .connected] (by decide)
  exact ⟨g, hg, hP, exact_of_inTurn hg⟩

/-- A node that loses its leadership while it connects stays connected. -/
theorem not_exact : ∃ g, gateway.Reach (fun _ _ => True) g ∧ g.last = some "follower" ∧ ¬ Exact g := by
  obtain ⟨g, hg, hlast, hadapters⟩ := System.Reach.replay (M := gateway) (G := fun _ _ => True)
    (P := fun g => g.last = some "follower" ∧ g.adapters = [⟨true, 0, 0, true⟩])
    ⟨1, rfl⟩ [.stateChange "leader", .stateChange "follower", .ends 0 .connected] (by decide)
  refine ⟨g, hg, hlast, fun h => ?_⟩
  have hconnected := (h (by simp [Quiet, hadapters]) ⟨true, 0, 0, true⟩ (by simp [hadapters])).mp rfl
  rw [hlast] at hconnected
  exact absurd hconnected.1 (by decide)

end ClaudeCluster.Messaging.Gateway
