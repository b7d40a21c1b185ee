import Mathlib.Data.List.Basic
import Mathlib.Data.List.Infix

/-!
# Splicing a batch of entries into a log

`splice` writes a batch over a log from a given position on. Nothing is known
about how batch and log are related; `splice_cases` says what the result is
either way: the log untouched, because it holds the whole batch already, or
the log up to the first difference followed by the rest of the batch.
-/

namespace ClaudeCluster.Lib

variable {E : Type} {term : E → Nat} {log es : List E} {i : Nat}

theorem getElem?_of_isPrefix {l l' : List E} {e : E} (h : l <+: l') (he : l[i]? = some e) :
    l'[i]? = some e := by
  obtain ⟨t, rfl⟩ := h
  rwa [List.getElem?_append_left (List.getElem?_eq_some_iff.mp he).1]

/-- Writes `es` into `log` from position `i` on. A position past the end is
appended to; a position that holds an entry of the same term is left alone; a
position that holds an entry of another term is cut off with all that follows. -/
def splice (term : E → Nat) : List E → Nat → List E → List E
  | log, _, [] => log
  | log, i, e :: es =>
    match log[i]? with
    | none => splice term (log ++ [e]) (i + 1) es
    | some x =>
      if term x ≠ term e then splice term (log.take i ++ [e]) (i + 1) es
      else splice term log (i + 1) es

/-- The log holds, position by position, entries of the batch's terms. -/
def Covers (term : E → Nat) (log : List E) (i : Nat) (es : List E) : Prop :=
  ∀ k e, es[k]? = some e → ∃ x, log[i + k]? = some x ∧ term x = term e

def Lacks (term : E → Nat) (log : List E) (i : Nat) (e : E) : Prop :=
  ∀ x, log[i]? = some x → term x ≠ term e

theorem splice_length (term : E → Nat) (log es : List E) :
    splice term log log.length es = log ++ es := by
  induction es generalizing log with
  | nil => simp [splice]
  | cons e es ih =>
    have h := ih (log ++ [e])
    simp only [List.length_append, List.length_singleton] at h
    simp [splice, h]

theorem splice_cases (term : E → Nat) (hi : i ≤ log.length) (es : List E) :
    (splice term log i es = log ∧ Covers term log i es) ∨
    ∃ k e, es[k]? = some e ∧ splice term log i es = log.take (i + k) ++ es.drop k ∧
      i + k ≤ log.length ∧ Covers term log i (es.take k) ∧ Lacks term log (i + k) e := by
  induction es generalizing log i with
  | nil => exact .inl ⟨rfl, by simp [Covers]⟩
  | cons e es ih =>
    have cover {l : List E} {x : E} (hx : log[i]? = some x) (hxe : term x = term e)
        (hc : Covers term log (i + 1) l) : Covers term log i (e :: l) := by
      intro k y hy
      cases k with
      | zero =>
        cases hy
        exact ⟨x, hx, hxe⟩
      | succ k =>
        obtain ⟨z, hz, hzy⟩ := hc k y hy
        exact ⟨z, by rwa [Nat.add_right_comm] at hz, hzy⟩
    cases hx : log[i]? with
    | none =>
      have hlen : i = log.length := Nat.le_antisymm hi (List.getElem?_eq_none_iff.mp hx)
      subst hlen
      refine .inr ⟨0, e, rfl, ?_, hi, by simp [Covers], by simp [Lacks]⟩
      simpa using splice_length term log (e :: es)
    | some x =>
      have hlt : i < log.length := (List.getElem?_eq_some_iff.mp hx).1
      by_cases hxe : term x = term e
      · have hs : splice term log i (e :: es) = splice term log (i + 1) es := by
          simp [splice, hx, hxe]
        rcases ih (i := i + 1) hlt with ⟨h, hc⟩ | ⟨k, y, hy, h, hk, hc, hl⟩
        · exact .inl ⟨hs.trans h, cover hx hxe hc⟩
        · refine .inr ⟨k + 1, y, hy, ?_, by omega, cover hx hxe hc, ?_⟩
          · rw [hs, h, List.drop_succ_cons, Nat.add_right_comm, Nat.add_assoc]
          · rwa [Nat.add_right_comm] at hl
      · refine .inr ⟨0, e, rfl, ?_, hi, by simp [Covers], ?_⟩
        · have hlen : (log.take i ++ [e]).length = i + 1 := by simp [Nat.min_eq_left hi]
          have h := splice_length term (log.take i ++ [e]) es
          rw [hlen] at h
          simp [splice, hx, hxe, h]
        · intro y hy
          rw [Nat.add_zero, hx] at hy
          cases hy
          exact hxe

theorem splice_of_covers (h : Covers term log i es) : splice term log i es = log := by
  induction es generalizing i with
  | nil => rfl
  | cons e es ih =>
    obtain ⟨x, hx, hxe⟩ := h 0 e rfl
    have htail : Covers term log (i + 1) es := by
      intro k y hy
      obtain ⟨z, hz, hzy⟩ := h (k + 1) y hy
      exact ⟨z, by rwa [Nat.add_right_comm], hzy⟩
    simp only [Nat.add_zero] at hx
    simp [splice, hx, hxe, ih htail]

theorem covers_splice (hi : i ≤ log.length) : Covers term (splice term log i es) i es := by
  rcases splice_cases term hi es with ⟨h, hc⟩ | ⟨k, e, -, h, hk, hc, -⟩
  · rwa [h]
  · rw [h]
    have hlen : (log.take (i + k)).length = i + k := by simp [hk]
    intro j y hy
    rcases Nat.lt_or_ge j k with hj | hj
    · obtain ⟨x, hx, hxy⟩ := hc j y (by rwa [List.getElem?_take_of_lt hj])
      refine ⟨x, ?_, hxy⟩
      rw [List.getElem?_append_left (by omega), List.getElem?_take_of_lt (by omega)]
      exact hx
    · refine ⟨y, ?_, rfl⟩
      rw [List.getElem?_append_right (by omega), hlen, List.getElem?_drop]
      rwa [show k + (i + j - (i + k)) = j by omega]

/-- A batch spliced in once is covered, so a second time changes nothing. -/
theorem splice_splice (hi : i ≤ log.length) :
    splice term (splice term log i es) i es = splice term log i es :=
  splice_of_covers (covers_splice hi)

end ClaudeCluster.Lib
