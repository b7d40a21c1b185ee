import Mathlib.Algebra.BigOperators.Group.List.Defs
import Mathlib.Algebra.BigOperators.Group.List.Basic

/-!
# Writes that do not read

An overlay gives some columns of a record a new value and leaves the others.
Overlays compose: the later one wins where both write. A write is absorbed by
any later sequence that repeats it, which is what makes replaying a log of
such writes over its own outcome harmless.
-/

namespace ClaudeCluster.Lib

def Overlay {ι : Type} (β : ι → Type) := ∀ i, Option (β i)

namespace Overlay

variable {ι : Type} {β : ι → Type} {x y : Overlay β}

/-- `x * y` is `x` and then `y`. -/
instance : Monoid (Overlay β) where
  one := fun _ => none
  mul x y := fun i => (y i).or (x i)
  one_mul x := funext fun i => Option.or_none
  mul_one x := funext fun i => Option.none_or
  mul_assoc x y z := funext fun i => Option.or_assoc.symm

def apply (x : Overlay β) (v : ∀ i, β i) : ∀ i, β i := fun i => (x i).getD (v i)

@[simp] theorem apply_one (v : ∀ i, β i) : (1 : Overlay β).apply v = v := rfl

theorem mul_apply (x y : Overlay β) (i : ι) : (x * y) i = (y i).or (x i) := rfl

theorem apply_mul (x y : Overlay β) (v : ∀ i, β i) : (x * y).apply v = y.apply (x.apply v) := by
  funext i
  simp only [apply, mul_apply]
  cases y i <;> rfl

theorem mul_mul_self (x y : Overlay β) : x * y * x = y * x := by
  funext i
  simp only [mul_apply]
  cases x i <;> simp

theorem mul_prod_of_mem {l : List (Overlay β)} (h : x ∈ l) : x * l.prod = l.prod := by
  obtain ⟨l₁, l₂, rfl⟩ := List.append_of_mem h
  simp only [List.prod_append, List.prod_cons, ← mul_assoc]
  rw [mul_mul_self]

theorem prod_mul_prod_of_subset {l₁ l₂ : List (Overlay β)} (h : l₁ ⊆ l₂) :
    l₁.prod * l₂.prod = l₂.prod := by
  induction l₁ with
  | nil => simp
  | cons x l₁ ih =>
    rw [List.cons_subset] at h
    rw [List.prod_cons, mul_assoc, ih h.2, mul_prod_of_mem h.1]

end Overlay

end ClaudeCluster.Lib
