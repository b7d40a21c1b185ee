import Mathlib.Data.List.Basic

/-!
# Events delivered one after the other

A state that takes every event it is given. Where each event keeps a property
just if it meets a condition, a list of events keeps it all along just if every
event meets the condition when its turn comes (`throughout_iff`).
-/

namespace ClaudeCluster.Lib

variable {σ ε : Type}

/-- Every event meets the condition in the state it is delivered to. -/
def Along (deliver : σ → ε → σ) (G : σ → ε → Prop) : σ → List ε → Prop
  | _, [] => True
  | s, e :: events => G s e ∧ Along deliver G (deliver s e) events

/-- The property holds of the state at the start and after each event. -/
def Throughout (deliver : σ → ε → σ) (P : σ → Prop) : σ → List ε → Prop
  | s, [] => P s
  | s, e :: events => P s ∧ Throughout deliver P (deliver s e) events

variable {deliver : σ → ε → σ} {P I : σ → Prop} {G : σ → ε → Prop} {s : σ} {events : List ε}

theorem Throughout.start (h : Throughout deliver P s events) : P s := by
  cases events with
  | nil => exact h
  | cons => exact h.1

/-- The invariant `I` may be used in the step, and is kept by every event. -/
theorem throughout_iff (hI : ∀ s e, I s → I (deliver s e))
    (hP : ∀ s e, I s → P s → (P (deliver s e) ↔ G s e)) (hi : I s) (h : P s) :
    Throughout deliver P s events ↔ Along deliver G s events := by
  induction events generalizing s with
  | nil => exact ⟨fun _ => trivial, fun _ => h⟩
  | cons e events ih =>
    have hstep := hP s e hi h
    constructor
    · intro ⟨_, hrest⟩
      have hnext := hrest.start
      exact ⟨hstep.mp hnext, (ih (hI s e hi) hnext).mp hrest⟩
    · intro ⟨hg, hrest⟩
      have hnext := hstep.mpr hg
      exact ⟨h, (ih (hI s e hi) hnext).mpr hrest⟩

theorem Throughout.foldl (h : Throughout deliver P s events) : P (events.foldl deliver s) := by
  induction events generalizing s with
  | nil => exact h
  | cons e events ih => exact ih h.2

end ClaudeCluster.Lib
