import Mathlib.Logic.Relation

/-!
# Guarded runs of a transition system

A system steps by a partial function on actions. `Reach G` is reachability
along runs whose every step meets the guard `G`, which is how a condition on
a run is stated here: on the state before each step and the action taken
there. `exec` replays a list of actions and checks the guard on the way, so
that a concrete run is evaluated rather than derived.
-/

namespace ClaudeCluster.Lib

structure System (σ α : Type) where
  init : σ → Prop
  step : σ → α → Option σ

namespace System

/-- States reached by runs all of whose steps meet the guard. -/
inductive Reach {σ α : Type} (M : System σ α) (G : σ → α → Prop) : σ → Prop
  | init : M.init s → Reach M G s
  | step : Reach M G s → G s a → M.step s a = some s' → Reach M G s'

variable {σ α : Type} {M : System σ α} {G H : σ → α → Prop} {s s' : σ} {a : α}

theorem Reach.mono (hGH : ∀ s a, G s a → H s a) (h : M.Reach G s) : M.Reach H s := by
  induction h with
  | init hi => exact .init hi
  | step _ hg hs ih => exact .step ih (hGH _ _ hg) hs

/-- The invariant rule. The step premise may use that the state is reachable. -/
theorem Reach.invariant {I : σ → Prop} (hi : ∀ s, M.init s → I s)
    (hs : ∀ s a s', M.Reach G s → I s → G s a → M.step s a = some s' → I s')
    (h : M.Reach G s) : I s := by
  induction h with
  | init h => exact hi _ h
  | step hr hg hst ih => exact hs _ _ _ hr ih hg hst

def after (M : System σ α) (s : σ) : System σ α := { M with init := (· = s) }

theorem Reach.trans (h : M.Reach G s) (h' : (M.after s).Reach G s') : M.Reach G s' := by
  induction h' with
  | init hi => exact hi ▸ h
  | step _ hg hs ih => exact .step ih hg hs

/-- Replays `as` from `s`, stopping where a step or its guard fails. -/
def exec (M : System σ α) (G : σ → α → Prop) [∀ s a, Decidable (G s a)] : σ → List α → Option σ
  | s, [] => some s
  | s, a :: as => if G s a then (M.step s a).bind fun s' => exec M G s' as else none

theorem Reach.exec [∀ s a, Decidable (G s a)] {as : List α} (h : M.Reach G s)
    (he : M.exec G s as = some s') : M.Reach G s' := by
  induction as generalizing s with
  | nil =>
    simp only [System.exec, Option.some.injEq] at he
    exact he ▸ h
  | cons a as ih =>
    simp only [System.exec] at he
    split at he
    case isTrue hg =>
      obtain ⟨t, ht, he⟩ := Option.bind_eq_some_iff.mp he
      exact ih (h.step hg ht) he
    case isFalse => cases he

/-- A replay that ends in a state with `P` shows that one is reachable. -/
theorem Reach.replay [∀ s a, Decidable (G s a)] {P : σ → Prop} [DecidablePred P] (hi : M.init s)
    (as : List α) (h : (M.exec G s as).any (P ·)) : ∃ s', M.Reach G s' ∧ P s' := by
  obtain ⟨s', he, hP⟩ := (Option.any_eq_true _ _).mp h
  exact ⟨s', (Reach.init hi).exec he, of_decide_eq_true hP⟩

/-- The same for a state of a run and a later one. -/
theorem Reach.replay_on [∀ s a, Decidable (G s a)] {P : σ → σ → Prop}
    [∀ s s', Decidable (P s s')] (hi : M.init s) (as bs : List α)
    (h : (M.exec G s as).any fun t => ((M.after t).exec G t bs).any (P t ·)) :
    ∃ t u, M.Reach G t ∧ (M.after t).Reach G u ∧ P t u := by
  obtain ⟨t, he, h⟩ := (Option.any_eq_true _ _).mp h
  obtain ⟨u, hu, hP⟩ := Reach.replay (M := M.after t) (P := (P t ·)) rfl bs h
  exact ⟨t, u, (Reach.init hi).exec he, hu, hP⟩

end System

end ClaudeCluster.Lib
