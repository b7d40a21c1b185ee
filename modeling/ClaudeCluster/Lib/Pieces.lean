import Mathlib.Data.List.Basic

/-!
# Pieces and parts

A list that comes in pieces, each of which is split at a separator by itself. A
part of the whole stays whole just where no piece ends inside it (`Unbroken`):
the pieces can be taken apart at every separator (`exists_split`), and up to one
the first part is as long as it is unbroken (`exists_first`).
-/

namespace ClaudeCluster.Lib.Pieces

section
variable {α : Type} {piece whole front back : List α} {pieces : List (List α)}
  {start stop : Nat}

-- ---------------------------------------------------------------------------
-- Where pieces end
-- ---------------------------------------------------------------------------

/-- No piece ends between the two places. -/
def Unbroken (pieces : List (List α)) (start stop : Nat) : Prop :=
  ∀ n, (pieces.take n).flatten.length ≤ start ∨ stop ≤ (pieces.take n).flatten.length

theorem unbroken_zero : Unbroken pieces start 0 := fun _ => .inr (Nat.zero_le _)

theorem unbroken_cons :
    Unbroken (piece :: pieces) start stop ↔
      (piece.length ≤ start ∨ stop ≤ piece.length) ∧
        Unbroken pieces (start - piece.length) (stop - piece.length) := by
  constructor
  · refine fun h => ⟨?_, fun n => ?_⟩
    · simpa using h 1
    · have hn := h (n + 1)
      rw [List.take_succ_cons, List.flatten_cons, List.length_append] at hn
      omega
  · rintro ⟨hpiece, h⟩ n
    cases n with
    | zero => exact .inl (Nat.zero_le _)
    | succ n =>
      have hn := h n
      rw [List.take_succ_cons, List.flatten_cons, List.length_append]
      omega

/-- The first of the pieces that holds something is what is unbroken. -/
theorem exists_first (h : pieces.flatten ≠ []) :
    ∃ p rest, pieces.filter (· ≠ []) = p :: rest ∧ p ≠ [] ∧ pieces.flatten = p ++ rest.flatten ∧
      (∀ q ∈ rest, q ≠ []) ∧ ∀ stop, Unbroken pieces 0 stop ↔ stop ≤ p.length := by
  induction pieces with
  | nil => exact absurd rfl h
  | cons piece pieces ih =>
    cases piece with
    | nil =>
      obtain ⟨p, rest, hfilter, hp, hflatten, hrest, hunbroken⟩ := ih h
      refine ⟨p, rest, hfilter, hp, hflatten, hrest, fun stop => ?_⟩
      rw [unbroken_cons, ← hunbroken]
      exact and_iff_right (.inl (Nat.zero_le _))
    | cons c piece =>
      refine ⟨c :: piece, pieces.filter (· ≠ []), by simp, by simp, ?_, ?_, fun stop => ?_⟩
      · rw [List.flatten_cons]
        exact congrArg _ List.flatten_filter_ne_nil.symm
      · intro q hq
        simpa using (List.mem_filter.mp hq).2
      · rw [unbroken_cons, List.length_cons]
        constructor
        · rintro ⟨hpiece, _⟩
          omega
        · intro hstop
          rw [Nat.sub_eq_zero_of_le hstop]
          exact ⟨.inr hstop, unbroken_zero⟩

-- ---------------------------------------------------------------------------
-- Parts
-- ---------------------------------------------------------------------------

variable [DecidableEq α] {sep : α}

def parts (sep : α) (piece : List α) : List (List α) := (piece.splitOn sep).filter (· ≠ [])

theorem parts_append (sep : α) (front back : List α) :
    parts sep (front ++ sep :: back) = parts sep front ++ parts sep back := by
  rw [parts, List.splitOn_append_cons_self, List.filter_append]
  rfl

theorem flatMap_parts (h : sep ∉ pieces.flatten) :
    pieces.flatMap (parts sep) = pieces.filter (· ≠ []) := by
  induction pieces with
  | nil => rfl
  | cons piece pieces ih =>
    rw [List.flatten_cons, List.mem_append, not_or] at h
    rw [List.flatMap_cons, ih h.2, parts, List.splitOn_eq_singleton h.1, ← List.filter_append]
    rfl

structure Split (sep : α) (pieces ps qs : List (List α)) : Prop where
  parts : pieces.flatMap (parts sep) = ps.flatMap (parts sep) ++ qs.flatMap (parts sep)
  before : ∀ start stop, stop ≤ ps.flatten.length →
    (Unbroken pieces start stop ↔ Unbroken ps start stop)
  after : ∀ start stop,
    Unbroken pieces (ps.flatten.length + 1 + start) (ps.flatten.length + 1 + stop) ↔
      Unbroken qs start stop

theorem Split.here (sep : α) (front rest : List α) (pieces : List (List α)) :
    Split sep ((front ++ sep :: rest) :: pieces) [front] (rest :: pieces) where
  parts := by
    rw [List.flatMap_singleton, List.flatMap_cons, List.flatMap_cons, parts_append,
      List.append_assoc]
  before start stop hstop := by
    rw [List.flatten_singleton] at hstop
    have hstop' : stop ≤ (front ++ sep :: rest).length := by
      rw [List.length_append]
      omega
    rw [unbroken_cons, unbroken_cons, Nat.sub_eq_zero_of_le hstop, Nat.sub_eq_zero_of_le hstop']
    exact ⟨fun _ => ⟨.inr hstop, unbroken_zero⟩, fun _ => ⟨.inr hstop', unbroken_zero⟩⟩
  after start stop := by
    have hlength : (front ++ sep :: rest).length = front.length + 1 + rest.length := by
      rw [List.length_append, List.length_cons]
      omega
    rw [List.flatten_singleton, unbroken_cons, unbroken_cons, hlength, Nat.add_sub_add_left,
      Nat.add_sub_add_left, Nat.add_le_add_iff_left, Nat.add_le_add_iff_left]

theorem Split.cons {ps qs : List (List α)} (h : Split sep pieces ps qs) (piece : List α) :
    Split sep (piece :: pieces) (piece :: ps) qs where
  parts := by rw [List.flatMap_cons, List.flatMap_cons, h.parts, List.append_assoc]
  before start stop hstop := by
    rw [List.flatten_cons, List.length_append] at hstop
    rw [unbroken_cons, unbroken_cons, h.before _ _ (by omega)]
  after start stop := by
    have hplace : ∀ n, piece.length + ps.flatten.length + 1 + n - piece.length =
        ps.flatten.length + 1 + n := by
      omega
    rw [List.flatten_cons, List.length_append, unbroken_cons, hplace, hplace, h.after]
    exact and_iff_right (.inl (by omega))

theorem exists_split (h : pieces.flatten = front ++ sep :: back) :
    ∃ ps qs, ps.flatten = front ∧ qs.flatten = back ∧ Split sep pieces ps qs := by
  induction pieces generalizing front with
  | nil => simp at h
  | cons piece pieces ih =>
    have hcases : (∃ rest, piece = front ++ sep :: rest ∧ back = rest ++ pieces.flatten) ∨
        ∃ front', front = piece ++ front' ∧ pieces.flatten = front' ++ sep :: back := by
      rw [List.flatten_cons, List.append_eq_append_iff] at h
      rcases h with h | ⟨rest, rfl, h⟩
      · exact .inr h
      · cases rest with
        | nil => exact .inr ⟨[], by simp, h.symm⟩
        | cons c rest =>
          cases h
          exact .inl ⟨rest, rfl, rfl⟩
    rcases hcases with ⟨rest, rfl, rfl⟩ | ⟨front', rfl, hback⟩
    · exact ⟨[front], rest :: pieces, by simp, rfl, .here sep front rest pieces⟩
    · obtain ⟨ps, qs, rfl, hqs, hsplit⟩ := ih hback
      exact ⟨piece :: ps, qs, rfl, hqs, hsplit.cons piece⟩

end

end ClaudeCluster.Lib.Pieces
