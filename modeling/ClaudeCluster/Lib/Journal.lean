import Mathlib.Data.List.Induction

/-!
# Logs that grow at the end

What the last entry of a kind says, and logs each entry of which suited those
before it when it was appended.
-/

namespace ClaudeCluster.Lib

variable {E α : Type} {f : E → Option α} {P : List E → E → Prop} {l l' : List E} {e : E}

def latest (f : E → Option α) (l : List E) : Option α := (l.filterMap f).getLast?

theorem latest_append : latest f (l ++ l') = (latest f l').or (latest f l) := by
  simp only [latest, List.filterMap_append, List.getLast?_append]

theorem latest_concat : latest f (l ++ [e]) = (f e).or (latest f l) := by
  rw [latest_append]
  cases h : f e <;> simp [latest, h]

theorem exists_of_latest {a : α} (h : latest f l = some a) : ∃ e ∈ l, f e = some a :=
  List.mem_filterMap.mp (List.mem_of_getLast? h)

theorem latest_eq_none (h : ∀ e ∈ l, f e = none) : latest f l = none := by
  rw [latest, List.filterMap_eq_nil_iff.mpr h]
  rfl

/-- Each entry suited the log it was appended to. -/
def Grown (P : List E → E → Prop) (l : List E) : Prop :=
  ∀ before e after, l = before ++ e :: after → P before e

theorem grown_nil : Grown P [] := by
  intro before e after h
  simp at h

theorem Grown.of_isPrefix (h : Grown P l) (hp : l' <+: l) : Grown P l' := by
  obtain ⟨rest, rfl⟩ := hp
  rintro before e after rfl
  exact h before e (after ++ rest) (by simp)

theorem Grown.concat (h : Grown P l) (he : P l e) : Grown P (l ++ [e]) := by
  intro before i after heq
  rcases List.eq_nil_or_concat after with rfl | ⟨after, last, rfl⟩
  · obtain ⟨rfl, heq⟩ := List.append_inj' heq rfl
    obtain rfl : e = i := by simpa using heq
    exact he
  · rw [List.concat_eq_append, ← List.cons_append, ← List.append_assoc] at heq
    obtain ⟨rfl, -⟩ := List.append_inj' heq rfl
    exact h before i after rfl

/-- Entries appended together suit the log with those before them. -/
theorem Grown.append (h : Grown P l)
    (hs : ∀ before e after, l' = before ++ e :: after → P (l ++ before) e) : Grown P (l ++ l') := by
  induction l' using List.reverseRecOn with
  | nil => simpa using h
  | append_singleton l' e ih =>
    rw [← List.append_assoc]
    refine (ih ?_).concat (hs l' e [] rfl)
    rintro before i after rfl
    exact hs before i (after ++ [e]) (by simp)

end ClaudeCluster.Lib
