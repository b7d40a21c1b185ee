import Mathlib.Data.List.Nodup
import Mathlib.Data.List.Count
import Mathlib.Data.List.TakeDrop
import Mathlib.Data.List.Sort

/-!
# Slices of a list

`slice a b l` is what stands at the positions from `a` on and before `b`.
Filtering a slice is slicing the filtered list, at positions counted again;
filtering a sorted list is sorting the filtered one. Where one entry is
replaced or added, the others are what they were.
-/

namespace ClaudeCluster.Lib

variable {α β : Type}

theorem getElem?_set_cases {l : List α} {i j : Nat} {a b : α} (h : (l.set i a)[j]? = some b) :
    (i = j ∧ b = a) ∨ (i ≠ j ∧ l[j]? = some b) := by
  rw [List.getElem?_set] at h
  split at h
  case isTrue hij =>
    split at h
    case isTrue => exact .inl ⟨hij, (Option.some.inj h).symm⟩
    case isFalse => cases h
  case isFalse hij => exact .inr ⟨hij, h⟩

theorem getElem?_concat_cases {l : List α} {j : Nat} {a b : α} (h : (l ++ [a])[j]? = some b) :
    l[j]? = some b ∨ (j = l.length ∧ b = a) := by
  rw [List.getElem?_append] at h
  split at h
  case isTrue => exact .inl h
  case isFalse hle =>
    rw [List.getElem?_singleton] at h
    split at h
    case isTrue hz => exact .inr ⟨by omega, (Option.some.inj h).symm⟩
    case isFalse => cases h

def slice (a b : Nat) (l : List α) : List α := (l.take b).drop a

theorem slice_of_le {a b : Nat} (h : b ≤ a) (l : List α) : slice a b l = [] :=
  List.drop_eq_nil_of_le (Nat.le_trans (List.length_take_le b l) h)

theorem slice_map (f : α → β) (a b : Nat) (l : List α) : slice a b (l.map f) = (slice a b l).map f := by
  rw [slice, slice, ← List.map_take, ← List.map_drop]

theorem length_slice {a b : Nat} {l : List α} (h : b ≤ l.length) : (slice a b l).length = b - a := by
  rw [slice, List.length_drop, List.length_take, Nat.min_eq_left h]

theorem slice_min_length (a b : Nat) (l : List α) : slice a (min b l.length) l = slice a b l := by
  rw [slice, slice]
  congr 1
  cases Nat.le_total b l.length with
  | inl h => rw [Nat.min_eq_left h]
  | inr h => rw [Nat.min_eq_right h, List.take_length, List.take_of_length_le h]

theorem take_append_slice {a b : Nat} (h : a ≤ b) (l : List α) :
    l.take a ++ slice a b l = l.take b := by
  rw [slice, List.drop_take, ← List.take_add, Nat.add_sub_cancel' h]

theorem slice_append_slice {a b c : Nat} (hab : a ≤ b) (hbc : b ≤ c) (l : List α) :
    slice a b l ++ slice b c l = slice a c l := by
  have h : l.take a ++ (slice a b l ++ slice b c l) = l.take a ++ slice a c l := by
    rw [← List.append_assoc, take_append_slice hab, take_append_slice hbc,
      take_append_slice (Nat.le_trans hab hbc)]
  exact List.append_cancel_left h

/-- Consecutive slices of one length give the list back. -/
theorem flatMap_slice (k n : Nat) (l : List α) :
    (List.range n).flatMap (fun i => slice (i * k) (i * k + k) l) = l.take (n * k) := by
  induction n with
  | zero => simp
  | succ n ih =>
    rw [List.range_succ, List.flatMap_append, ih, List.flatMap_singleton]
    have h := slice_append_slice (Nat.zero_le (n * k)) (Nat.le_add_right (n * k) k) l
    simpa [slice, Nat.succ_mul] using h

theorem take_countP_filter (p : α → Bool) (a : Nat) (l : List α) :
    (l.filter p).take ((l.take a).countP p) = (l.take a).filter p := by
  conv_lhs => rw [← List.take_append_drop a l, List.filter_append, List.take_append_drop]
  exact List.take_left' (List.countP_eq_length_filter).symm

theorem filter_slice (p : α → Bool) {a b : Nat} (h : a ≤ b) (l : List α) :
    (slice a b l).filter p =
      slice ((l.take a).countP p) ((l.take b).countP p) (l.filter p) := by
  have hcount : (l.take a).countP p ≤ (l.take b).countP p :=
    (List.take_sublist_take_left h).countP_le
  have hjoin : (l.take a).filter p ++ (slice a b l).filter p =
      (l.take a).filter p ++
        slice ((l.take a).countP p) ((l.take b).countP p) (l.filter p) := by
    rw [← List.filter_append, take_append_slice h, ← take_countP_filter p a,
      take_append_slice hcount, take_countP_filter]
  exact List.append_cancel_left hjoin

/-- Two slices of a list without repetitions are the same list in two ways:
the same bounds, or both empty. -/
theorem slice_eq_slice_iff {a b c d : Nat} {l : List α} (hl : l.Nodup) (hb : b ≤ l.length)
    (hd : d ≤ l.length) :
    slice a b l = slice c d l ↔ (a = c ∧ b = d) ∨ (b ≤ a ∧ d ≤ c) := by
  constructor
  · intro h
    have hlen := congrArg List.length h
    rw [length_slice hb, length_slice hd] at hlen
    by_cases hab : b ≤ a
    · exact .inr ⟨hab, by omega⟩
    · have hhead := congrArg (·[0]?) h
      simp only [slice, List.getElem?_drop, Nat.add_zero, List.getElem?_take] at hhead
      rw [if_pos (by omega), if_pos (by omega), List.getElem?_eq_getElem (by omega),
        List.getElem?_eq_getElem (by omega), Option.some.injEq, hl.getElem_inj_iff] at hhead
      exact .inl ⟨hhead, by omega⟩
  · rintro (⟨rfl, rfl⟩ | ⟨hab, hcd⟩)
    · rfl
    · rw [slice_of_le hab, slice_of_le hcd]

-- ---------------------------------------------------------------------------
-- Sorting
-- ---------------------------------------------------------------------------

section
variable (r : α → α → Prop) [DecidableRel r]

theorem orderedInsert_filter_of_neg (p : α → Bool) {a : α} (ha : ¬ p a) (l : List α) :
    (l.orderedInsert r a).filter p = l.filter p := by
  induction l with
  | nil => simp [ha]
  | cons b l ih =>
    rw [List.orderedInsert_cons]
    split
    · rw [List.filter_cons_of_neg ha]
    · rw [List.filter_cons, ih, List.filter_cons]

theorem orderedInsert_filter_of_pos [IsTrans α r] (p : α → Bool) {a : α} (ha : p a) {l : List α}
    (hl : l.Pairwise r) : (l.orderedInsert r a).filter p = (l.filter p).orderedInsert r a := by
  induction l with
  | nil => simp [ha]
  | cons b l ih =>
    rw [List.pairwise_cons] at hl
    rw [List.orderedInsert_cons]
    split
    case isTrue hab =>
      -- `a` comes before `b`, so before all that follows and is kept
      have hhead : ∀ l' : List α, (∀ x ∈ l', r a x) → l'.orderedInsert r a = a :: l' := by
        intro l' h
        cases l' with
        | nil => rfl
        | cons x l' => rw [List.orderedInsert_cons, if_pos (h x List.mem_cons_self)]
      rw [List.filter_cons_of_pos ha, hhead]
      intro x hx
      cases List.mem_cons.mp (List.mem_of_mem_filter hx) with
      | inl h => rw [h]; exact hab
      | inr h => exact trans_of r hab (hl.1 x h)
    case isFalse hab =>
      rw [List.filter_cons, List.filter_cons, ih hl.2]
      split
      · rw [List.orderedInsert_cons, if_neg hab]
      · rfl

/-- The sort is stable, so it does not matter when the rows are chosen. -/
theorem filter_insertionSort [IsTrans α r] [Std.Total r] (p : α → Bool) (l : List α) :
    (l.insertionSort r).filter p = (l.filter p).insertionSort r := by
  induction l with
  | nil => rfl
  | cons a l ih =>
    rw [List.insertionSort_cons]
    by_cases ha : p a
    · rw [orderedInsert_filter_of_pos r p ha (List.pairwise_insertionSort r l), ih,
        List.filter_cons_of_pos ha, List.insertionSort_cons]
    · rw [orderedInsert_filter_of_neg r p ha, ih, List.filter_cons_of_neg ha]

end

end ClaudeCluster.Lib
