import Mathlib.Data.Finset.Card

/-!
# Quorums of two electorates

When do all sets of `p` members of one set meet all sets of `q` members of
another? A quorum avoids the other electorate as far as it can, so what counts
is how much of each quorum is left to the common part: `quorumsMeet_iff`. Majorities
of sets that differ by one member meet.
-/

namespace ClaudeCluster.Lib

variable {α : Type} [DecidableEq α] {X Y : Finset α} {p q : Nat}

/-- Every `p` members of `X` and every `q` members of `Y` share one. -/
def QuorumsMeet (X Y : Finset α) (p q : Nat) : Prop :=
  ∀ A ⊆ X, ∀ B ⊆ Y, p ≤ A.card → q ≤ B.card → (A ∩ B).Nonempty

theorem card_le_inter_add_sdiff {A : Finset α} (h : A ⊆ X) :
    A.card ≤ (A ∩ Y).card + (X \ Y).card := by
  rw [← Finset.card_inter_add_card_sdiff A Y]
  have hle : (A \ Y).card ≤ (X \ Y).card := Finset.card_le_card (Finset.sdiff_subset_sdiff h le_rfl)
  omega

theorem QuorumsMeet.of_card_lt
    (h : (X ∩ Y).card < (p - (X \ Y).card) + (q - (Y \ X).card)) : QuorumsMeet X Y p q := by
  intro A hA B hB hp hq
  by_contra hne
  have hdis : Disjoint A B := by
    rw [Finset.disjoint_iff_inter_eq_empty]
    exact Finset.not_nonempty_iff_eq_empty.mp hne
  -- the parts of both quorums in the common part are disjoint there
  have hdis' : Disjoint (A ∩ Y) (B ∩ X) :=
    hdis.mono Finset.inter_subset_left Finset.inter_subset_left
  have hsub : (A ∩ Y) ∪ (B ∩ X) ⊆ X ∩ Y := by
    refine Finset.union_subset ?_ ?_
    · exact Finset.inter_subset_inter hA le_rfl
    · rw [Finset.inter_comm X Y]
      exact Finset.inter_subset_inter hB le_rfl
  have hcard := Finset.card_le_card hsub
  rw [Finset.card_union_of_disjoint hdis'] at hcard
  have hA' := card_le_inter_add_sdiff (Y := Y) hA
  have hB' := card_le_inter_add_sdiff (Y := X) hB
  omega

/-- Quorums that take all they can outside the common part. -/
theorem exists_disjoint (h : (p - (X \ Y).card) + (q - (Y \ X).card) ≤ (X ∩ Y).card) :
    ∃ A ⊆ X, ∃ B ⊆ Y, p ≤ A.card ∧ q ≤ B.card ∧ Disjoint A B := by
  obtain ⟨C, hC, hCcard⟩ := Finset.exists_subset_card_eq (s := X ∩ Y)
    (n := p - (X \ Y).card) (by omega)
  have hrest : q - (Y \ X).card ≤ ((X ∩ Y) \ C).card := by
    rw [Finset.card_sdiff_of_subset hC]
    omega
  obtain ⟨D, hD, hDcard⟩ := Finset.exists_subset_card_eq hrest
  have hCX : C ⊆ X := hC.trans Finset.inter_subset_left
  have hCY : C ⊆ Y := hC.trans Finset.inter_subset_right
  have hDXY : D ⊆ X ∩ Y := hD.trans Finset.sdiff_subset
  have hDX : D ⊆ X := hDXY.trans Finset.inter_subset_left
  have hDY : D ⊆ Y := hDXY.trans Finset.inter_subset_right
  have hCD : Disjoint C D := (Finset.disjoint_sdiff).mono_right hD
  have hXC : Disjoint (X \ Y) C := Finset.sdiff_disjoint.mono_right hCY
  have hXD : Disjoint (X \ Y) D := Finset.sdiff_disjoint.mono_right hDY
  have hYC : Disjoint (Y \ X) C := Finset.sdiff_disjoint.mono_right hCX
  have hYD : Disjoint (Y \ X) D := Finset.sdiff_disjoint.mono_right hDX
  have hXY : Disjoint (X \ Y) (Y \ X) := Finset.sdiff_disjoint.mono_right Finset.sdiff_subset
  refine ⟨X \ Y ∪ C, Finset.union_subset Finset.sdiff_subset hCX, Y \ X ∪ D,
    Finset.union_subset Finset.sdiff_subset hDY, ?_, ?_, ?_⟩
  · rw [Finset.card_union_of_disjoint hXC]
    omega
  · rw [Finset.card_union_of_disjoint hYD]
    omega
  · rw [Finset.disjoint_union_left, Finset.disjoint_union_right, Finset.disjoint_union_right]
    exact ⟨⟨hXY, hXD⟩, hYC.symm, hCD⟩

theorem quorumsMeet_iff : QuorumsMeet X Y p q ↔
    (X ∩ Y).card < (p - (X \ Y).card) + (q - (Y \ X).card) := by
  refine ⟨fun h => ?_, .of_card_lt⟩
  by_contra hle
  obtain ⟨A, hA, B, hB, hp, hq, hdis⟩ := exists_disjoint (Nat.not_lt.mp hle)
  have hne := h A hA B hB hp hq
  rw [Finset.disjoint_iff_inter_eq_empty.mp hdis] at hne
  exact Finset.not_nonempty_empty hne

/-- Majorities of sets that differ by at most one member meet. -/
theorem QuorumsMeet.majorities (h : (X \ Y).card + (Y \ X).card ≤ 1) :
    QuorumsMeet X Y (X.card / 2 + 1) (Y.card / 2 + 1) := by
  have hX := Finset.card_inter_add_card_sdiff X Y
  have hY := Finset.card_inter_add_card_sdiff Y X
  rw [Finset.inter_comm] at hY
  exact .of_card_lt (by omega)

end ClaudeCluster.Lib
