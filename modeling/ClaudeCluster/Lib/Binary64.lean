import Mathlib.Algebra.Order.Field.Power
import Mathlib.Data.Int.Log
import Mathlib.Data.Rat.Floor
import Mathlib.Tactic.Linarith
import ClaudeCluster.Lib.Decimal

/-!
# Numbers of 64 bits

The numbers of IEEE 754 binary64: a finite one is a sign and a magnitude, and a
magnitude is a rational that rounding leaves alone. `read` rounds the value of a
literal to the nearest, ties to even; `print` writes the shortest digits that
are read as the number again, the nearest of these, as `Number::toString` does.
What `print` writes is read as what is written the same (`print_read`).
-/

namespace ClaudeCluster.Lib

namespace Binary64

-- ---------------------------------------------------------------------------
-- Rounding
-- ---------------------------------------------------------------------------

/-- The nearest integer; of two, the even one. -/
def roundEven (q : ℚ) : ℤ :=
  if Int.fract q < 1 / 2 then ⌊q⌋
  else if 1 / 2 < Int.fract q then ⌊q⌋ + 1
  else if 2 ∣ ⌊q⌋ then ⌊q⌋ else ⌊q⌋ + 1

/-- The exponent of the last of the 53 bits of a magnitude; below `2 ^ -1022`
there are fewer. -/
def lastBit (q : ℚ) : ℤ := max (Int.log 2 q) (-1022) - 52

def round64 (q : ℚ) : ℚ := roundEven (q / 2 ^ lastBit q) * 2 ^ lastBit q

section
variable {q : ℚ}

theorem roundEven_intCast (n : ℤ) : roundEven n = n := by simp [roundEven]

theorem roundEven_bounds (q : ℚ) : ⌊q⌋ ≤ roundEven q ∧ roundEven q ≤ ⌊q⌋ + 1 := by
  unfold roundEven
  split
  · omega
  · split
    · omega
    · split <;> omega

theorem round64_zero : round64 0 = 0 := by
  have h := roundEven_intCast 0
  rw [Int.cast_zero] at h
  simp [round64, h]

theorem round64_of_multiple {n : ℤ} (h : q = n * 2 ^ lastBit q) : round64 q = q := by
  have hdiv : q / 2 ^ lastBit q = n := by
    rw [div_eq_iff (by positivity)]
    exact h
  rw [round64, hdiv, roundEven_intCast]
  exact h.symm

theorem round64_of_bits {m : ℕ} {e : ℤ} (hm : m < 2 ^ 53) (he : -1074 ≤ e)
    (h : q = m * 2 ^ e) : round64 q = q := by
  rcases Nat.eq_zero_or_pos m with rfl | hpos
  · rw [h, Nat.cast_zero, zero_mul, round64_zero]
  have hq : 0 < q := by
    rw [h]
    positivity
  have hlt : q < ((2 : ℕ) : ℚ) ^ (53 + e) := by
    rw [h, zpow_add₀ (by norm_num)]
    have hcast : (m : ℚ) < 2 ^ (53 : ℕ) := by exact_mod_cast hm
    have := mul_lt_mul_of_pos_right hcast (zpow_pos (by norm_num : (0 : ℚ) < 2) e)
    simpa using this
  have hlog := (Int.lt_zpow_iff_log_lt (by norm_num) hq).mp hlt
  have hle : lastBit q ≤ e := by
    unfold lastBit
    omega
  obtain ⟨d, hd⟩ := Int.eq_ofNat_of_zero_le (show 0 ≤ e - lastBit q by omega)
  refine round64_of_multiple (n := m * 2 ^ d) ?_
  have hsplit : e = d + lastBit q := by omega
  conv_lhs => rw [h, hsplit, zpow_add₀ (by norm_num), zpow_natCast]
  push_cast
  ring

/-- What is rounded has 53 bits, or is the next power of two. -/
theorem round64_bits (hq : 0 ≤ q) :
    ∃ m : ℕ, ∃ e : ℤ, m < 2 ^ 53 ∧ -1074 ≤ e ∧ round64 q = m * 2 ^ e := by
  have hbit : -1074 ≤ lastBit q := by
    unfold lastBit
    omega
  obtain ⟨hlow, hhigh⟩ := roundEven_bounds (q / 2 ^ lastBit q)
  have hfloor : 0 ≤ ⌊q / 2 ^ lastBit q⌋ := Int.floor_nonneg.mpr (by positivity)
  have hsmall : ⌊q / 2 ^ lastBit q⌋ < 2 ^ 53 := by
    rw [Int.floor_lt, div_lt_iff₀ (by positivity)]
    have hlog := Int.lt_zpow_succ_log_self (b := 2) (by norm_num) q
    have hexp : Int.log 2 q + 1 ≤ 53 + lastBit q := by
      unfold lastBit
      omega
    have hpow : (2 : ℚ) ^ (Int.log 2 q + 1) ≤ 2 ^ (53 + lastBit q) :=
      zpow_le_zpow_right₀ (by norm_num) hexp
    calc q < 2 ^ (Int.log 2 q + 1) := by exact_mod_cast hlog
      _ ≤ 2 ^ (53 + lastBit q) := hpow
      _ = ((2 ^ 53 : ℤ) : ℚ) * 2 ^ lastBit q := by
        rw [zpow_add₀ (by norm_num)]
        norm_num
  obtain ⟨m, hm⟩ := Int.eq_ofNat_of_zero_le (show 0 ≤ roundEven (q / 2 ^ lastBit q) by omega)
  have hround : round64 q = m * 2 ^ lastBit q := by
    rw [round64, hm]
    rfl
  by_cases hlt : m < 2 ^ 53
  · exact ⟨m, lastBit q, hlt, hbit, hround⟩
  · refine ⟨2 ^ 52, lastBit q + 1, by norm_num, by omega, ?_⟩
    have hmax : m = 2 ^ 53 := by omega
    rw [hround, hmax, zpow_add₀ (by norm_num)]
    push_cast
    ring

theorem round64_round64 (hq : 0 ≤ q) : round64 (round64 q) = round64 q := by
  obtain ⟨m, e, hm, he, h⟩ := round64_bits hq
  exact round64_of_bits hm he h

theorem round64_nonneg (hq : 0 ≤ q) : 0 ≤ round64 q := by
  obtain ⟨m, e, _, _, h⟩ := round64_bits hq
  rw [h]
  positivity

end

-- ---------------------------------------------------------------------------
-- Numbers
-- ---------------------------------------------------------------------------

structure Magnitude where
  value : ℚ
  nonneg : 0 ≤ value
  rounded : round64 value = value
  bounded : value < 2 ^ 1024

@[ext] theorem Magnitude.ext {m m' : Magnitude} (h : m.value = m'.value) : m = m' := by
  cases m
  cases m'
  cases h
  rfl

inductive Number
  | nan
  | infinite (negative : Bool)
  | finite (negative : Bool) (magnitude : Magnitude)

theorem Literal.magnitude_nonneg (l : Literal) : 0 ≤ l.magnitude := by
  unfold Literal.magnitude
  positivity

def read (l : Literal) : Number :=
  if h : round64 l.magnitude < 2 ^ 1024 then
    .finite l.negative {
      value := round64 l.magnitude
      nonneg := round64_nonneg (Literal.magnitude_nonneg l)
      rounded := round64_round64 (Literal.magnitude_nonneg l)
      bounded := h }
  else .infinite l.negative

-- ---------------------------------------------------------------------------
-- Shortest digits
-- ---------------------------------------------------------------------------

/-- The integer that times `10 ^ e` is read as `m`, the nearest if there are more. -/
def digitsAt (m : ℚ) (e : ℤ) : Option ℕ :=
  let down := ⌊m / 10 ^ e⌋₊
  let up := ⌈m / 10 ^ e⌉₊
  if round64 (down * 10 ^ e) = m then
    if round64 (up * 10 ^ e) = m then
      some (if roundEven (m / 10 ^ e) = down then down else up)
    else some down
  else if round64 (up * 10 ^ e) = m then some up
  else none

section
variable {m : ℚ} {e : ℤ} {s : ℕ}

theorem digitsAt_spec (h : digitsAt m e = some s) : round64 (s * 10 ^ e) = m := by
  unfold digitsAt at h
  dsimp only at h
  split at h
  case isTrue hdown =>
    split at h
    case isTrue hup =>
      obtain rfl := Option.some.inj h
      split
      · exact hdown
      · exact hup
    case isFalse =>
      obtain rfl := Option.some.inj h
      exact hdown
  case isFalse =>
    split at h
    case isTrue hup =>
      obtain rfl := Option.some.inj h
      exact hup
    case isFalse => cases h

theorem digitsAt_isSome (hm : round64 m = m) (h : m = s * 10 ^ e) : (digitsAt m e).isSome := by
  have hdiv : m / 10 ^ e = s := by
    rw [div_eq_iff (by positivity)]
    exact h
  have hdown : round64 ((⌊m / 10 ^ e⌋₊ : ℚ) * 10 ^ e) = m := by
    rw [hdiv, Nat.floor_natCast, ← h, hm]
  unfold digitsAt
  dsimp only
  rw [if_pos hdown]
  split <;> rfl

theorem exists_digits (h0 : 0 ≤ m) (hm : round64 m = m) :
    ∃ k : ℕ, (digitsAt m (Int.log 10 m - k)).isSome := by
  obtain ⟨bits, b, _, _, hbits⟩ := round64_bits h0
  rw [hm] at hbits
  -- enough digits to get over the point and over every halving
  refine ⟨(Int.log 10 m).toNat + b.natAbs, ?_⟩
  obtain ⟨j, hj⟩ := Int.eq_ofNat_of_zero_le
    (show 0 ≤ ((Int.log 10 m).toNat + b.natAbs : ℕ) - Int.log 10 m - b.natAbs by
      push_cast
      omega)
  obtain ⟨p, hp⟩ := Int.eq_ofNat_of_zero_le (show 0 ≤ b + b.natAbs by omega)
  refine digitsAt_isSome hm (s := bits * 2 ^ p * 5 ^ b.natAbs * 10 ^ j) ?_
  have hexp : Int.log 10 m - ((Int.log 10 m).toNat + b.natAbs : ℕ) = -(j + b.natAbs : ℤ) := by
    push_cast at hj ⊢
    omega
  have hb : b = p - b.natAbs := by omega
  have hten : (10 : ℚ) ^ b.natAbs = 2 ^ b.natAbs * 5 ^ b.natAbs := by
    rw [← mul_pow]
    norm_num
  have htwo : (2 : ℚ) ^ b = 2 ^ p / 2 ^ b.natAbs := by
    conv_lhs => rw [hb, zpow_sub₀ (by norm_num), zpow_natCast, zpow_natCast]
  rw [hexp, neg_add, zpow_add₀ (by norm_num), zpow_neg, zpow_neg, zpow_natCast, zpow_natCast, hten]
  conv_lhs => rw [hbits, htwo]
  push_cast
  field_simp

end

/-- The digits of a positive magnitude with their exponent, as few as will do. -/
def shortest (m : Magnitude) : ℕ × ℤ :=
  let k := Nat.find (exists_digits m.nonneg m.rounded)
  let e := Int.log 10 m.value - k
  let s := (digitsAt m.value e).getD 0
  -- rounded up to the next power of ten
  if s = 10 ^ (k + 1) then (1, e + (k + 1 : ℕ)) else (s, e)

theorem shortest_spec (m : Magnitude) :
    round64 ((shortest m).1 * 10 ^ (shortest m).2) = m.value := by
  have hsome := Nat.find_spec (exists_digits m.nonneg m.rounded)
  unfold shortest
  dsimp only
  generalize Nat.find (exists_digits m.nonneg m.rounded) = k at hsome ⊢
  obtain ⟨s, hs⟩ := Option.isSome_iff_exists.mp hsome
  have hread := digitsAt_spec hs
  rw [hs, Option.getD_some]
  split
  case isTrue hpow =>
    have hsame : ((1 : ℕ) : ℚ) * 10 ^ (Int.log 10 m.value - k + (k + 1 : ℕ)) =
        s * 10 ^ (Int.log 10 m.value - k) := by
      rw [hpow, zpow_add₀ (by norm_num), zpow_natCast]
      push_cast
      ring
    rw [hsame]
    exact hread
  case isFalse => exact hread

def print : Number → Option Literal
  | .finite negative m =>
    if m.value = 0 then some .zero
    else some { Literal.decimal (shortest m).1 (shortest m).2 with negative := negative }
  | _ => none

theorem shortest_pos {m : Magnitude} (h : m.value ≠ 0) : 0 < (shortest m).1 := by
  rw [Nat.pos_iff_ne_zero]
  intro hzero
  have hspec := shortest_spec m
  rw [hzero, Nat.cast_zero, zero_mul, round64_zero] at hspec
  exact h hspec.symm

theorem print_wellFormed {x : Number} {l : Literal} (h : print x = some l) : l.WellFormed := by
  cases x with
  | nan => cases h
  | infinite => cases h
  | finite negative m =>
    simp only [print] at h
    split at h
    case isTrue =>
      cases h
      exact Literal.wellFormed_zero
    case isFalse hne =>
      cases h
      have hdecimal := Literal.wellFormed_decimal (e := (shortest m).2) (shortest_pos hne)
      exact ⟨hdecimal.1, hdecimal.2, hdecimal.3, hdecimal.4⟩

/-- A literal whose value is a magnitude is read as that. -/
theorem read_of_magnitude {l : Literal} {m : Magnitude} (h : round64 l.magnitude = m.value) :
    read l = .finite l.negative m := by
  have hbound : round64 l.magnitude < 2 ^ 1024 := h ▸ m.bounded
  rw [read, dif_pos hbound]
  exact congrArg _ (Magnitude.ext h)

theorem print_read {x : Number} {l : Literal} (h : print x = some l) : print (read l) = some l := by
  cases x with
  | nan => cases h
  | infinite => cases h
  | finite negative m =>
    have hvalue : round64 l.magnitude = m.value := by
      simp only [print] at h
      split at h
      case isTrue hzero =>
        cases h
        have hmagnitude : Literal.zero.magnitude = 0 := by
          simp [Literal.magnitude, Literal.zero, Nat.ofDigitChars_cons]
        rw [hmagnitude, round64_zero, hzero]
      case isFalse hne =>
        cases h
        have hmagnitude : ({ Literal.decimal (shortest m).1 (shortest m).2 with
            negative := negative } : Literal).magnitude =
            (Literal.decimal (shortest m).1 (shortest m).2).magnitude := rfl
        rw [hmagnitude, Literal.magnitude_decimal, shortest_spec]
    rw [read_of_magnitude hvalue]
    -- the sign is written but for a zero, which is printed without
    simp only [print] at h ⊢
    split at h
    case isTrue hzero => rw [if_pos hzero, h]
    case isFalse hne =>
      cases h
      rw [if_neg hne]

end Binary64

end ClaudeCluster.Lib
