import Mathlib.Algebra.Order.Field.Rat
import Mathlib.Tactic.Positivity
import ClaudeCluster.Lib.Coercions

/-!
# Arithmetic of numbers

Products, sums and powers of binary64 numbers where one operand is known by its
value, and what a result of these is worth (`value?`). The standard leaves
`Math.pow` to the implementation but for zeros, ones and what is no number; the
implementation is a parameter of `power`.
-/

namespace ClaudeCluster.Lib.Binary64

def Number.value? : Number → Option ℚ
  | .finite negative m => some (signed negative m.value)
  | .nan | .infinite _ => none

def nearest (q : ℚ) : ℚ := signed (decide (q < 0)) (round64 |q|)

/-- `q * x` for a number of the value `q`, not `-0`. -/
def scale (q : ℚ) : Number → Number
  | .nan => .nan
  | .infinite negative => if q = 0 then .nan else .infinite (negative != decide (q < 0))
  | .finite negative m => ofRat (negative != decide (q < 0)) (q * signed negative m.value)

/-- `q + x` for a number of the value `q`, not `-0`. -/
def shift (q : ℚ) : Number → Number
  | .nan => .nan
  | .infinite negative => .infinite negative
  | .finite negative m => ofRat false (q + signed negative m.value)

/-- `Math.pow(q, n)` for a number of the value `q`, not `-0`, and an integer. -/
def power (approximate : ℚ → ℤ → Number) (q : ℚ) (n : ℤ) : Number :=
  if n = 0 then ofRat false 1
  else if q = 0 then if 0 < n then ofRat false 0 else .infinite false
  else approximate q n

def nearestPower (q : ℚ) (n : ℤ) : Number := ofRat false (q ^ n)

section
variable {q : ℚ} {x : Number} {n : ℕ}

theorem round64_one : round64 1 = 1 :=
  round64_of_bits (m := 1) (e := 0) (by norm_num) (by norm_num) (by norm_num)

@[simp] theorem nearest_zero : nearest 0 = 0 := by simp [nearest, round64_zero, signed]

@[simp] theorem nearest_one : nearest 1 = 1 := by
  simp [nearest, round64_one, signed, not_lt.mpr zero_le_one]

theorem abs_nearest (q : ℚ) : |nearest q| = round64 |q| := by
  have hround := round64_nonneg (abs_nonneg q)
  unfold nearest signed
  split
  · rw [abs_neg, abs_of_nonneg hround]
  · exact abs_of_nonneg hround

theorem value?_ofRat (negative : Bool) (q : ℚ) :
    (ofRat negative q).value? = if round64 |q| < 2 ^ 1024 then some (nearest q) else none := by
  unfold ofRat
  dsimp only
  split
  case isFalse => rfl
  case isTrue =>
    simp only [Number.value?, nearest, Option.some.injEq]
    by_cases hzero : q = 0
    · simp [hzero, signed, round64_zero]
    · rw [if_neg hzero]

theorem value?_scale : (scale q x).value? = x.value?.bind fun r =>
    if round64 |q * r| < 2 ^ 1024 then some (nearest (q * r)) else none := by
  cases x with
  | nan => rfl
  | infinite negative =>
    simp only [scale]
    split <;> rfl
  | finite negative m => exact value?_ofRat _ _

theorem value?_shift : (shift q x).value? = x.value?.bind fun r =>
    if round64 |q + r| < 2 ^ 1024 then some (nearest (q + r)) else none := by
  cases x with
  | nan => rfl
  | infinite => rfl
  | finite negative m => exact value?_ofRat _ _

-- ---------------------------------------------------------------------------
-- Bounds
-- ---------------------------------------------------------------------------

theorem two_zpow_pos (e : ℤ) : (0 : ℚ) < 2 ^ e := zpow_pos (by norm_num) e

theorem roundEven_le_iff (heven : Even n) : roundEven q ≤ n ↔ q ≤ n + 1 / 2 := by
  have hsplit : q = ⌊q⌋ + Int.fract q := (Int.floor_add_fract q).symm
  have hfract := Int.fract_lt_one q
  have hnonneg := Int.fract_nonneg q
  -- on this side of `n`, at `n`, on the other side
  rcases lt_trichotomy ⌊q⌋ (n : ℤ) with hlt | heq | hgt
  · have hup := (roundEven_bounds q).2
    have hcast : (⌊q⌋ : ℚ) + 1 ≤ n := by exact_mod_cast hlt
    exact iff_of_true (by omega) (by linarith)
  · have hcast : (⌊q⌋ : ℚ) = n := by exact_mod_cast heq
    have hdvd : 2 ∣ ⌊q⌋ := by
      rw [heq]
      exact_mod_cast heven.two_dvd
    rw [roundEven, if_pos hdvd]
    split
    case isTrue hbelow => exact iff_of_true heq.le (by linarith)
    case isFalse hbelow =>
      split
      case isTrue habove => exact iff_of_false (by omega) (by linarith)
      case isFalse habove => exact iff_of_true heq.le (by linarith)
  · have hlow := (roundEven_bounds q).1
    have hcast : (n : ℚ) + 1 ≤ ⌊q⌋ := by exact_mod_cast hgt
    exact iff_of_false (by omega) (by linarith)

theorem le_round64 {m : ℤ} (h : m ≤ q / 2 ^ lastBit q) : m * 2 ^ lastBit q ≤ round64 q := by
  have hle : m ≤ roundEven (q / 2 ^ lastBit q) := (Int.le_floor.mpr h).trans (roundEven_bounds _).1
  exact mul_le_mul_of_nonneg_right (by exact_mod_cast hle) (two_zpow_pos _).le

theorem round64_le {m : ℤ} (h : q / 2 ^ lastBit q < m) : round64 q ≤ m * 2 ^ lastBit q := by
  have hle : roundEven (q / 2 ^ lastBit q) ≤ m := (roundEven_bounds _).2.trans (Int.floor_lt.mpr h)
  exact mul_le_mul_of_nonneg_right (by exact_mod_cast hle) (two_zpow_pos _).le

theorem round64_le_two_pow (hq : 0 ≤ q) (hsmall : q < 2 ^ 52) : round64 q ≤ 2 ^ 52 := by
  have hbit : lastBit q ≤ 0 := by
    rcases hq.eq_or_lt with rfl | hpos
    · simp [lastBit]
    · have hlog := (Int.lt_zpow_iff_log_lt (b := 2) (x := 52) (by norm_num) hpos).mp
        (by exact_mod_cast hsmall)
      unfold lastBit
      omega
  obtain ⟨d, hd⟩ := Int.eq_ofNat_of_zero_le (show 0 ≤ -lastBit q by omega)
  have hd' : lastBit q = -(d : ℤ) := by omega
  have hpow : ((2 ^ (52 + d) : ℤ) : ℚ) * 2 ^ lastBit q = 2 ^ 52 := by
    rw [hd', zpow_neg, zpow_natCast]
    push_cast
    rw [pow_add, mul_assoc, mul_inv_cancel₀ (by positivity), mul_one]
  rw [← hpow]
  refine round64_le ?_
  rw [div_lt_iff₀ (two_zpow_pos _), hpow]
  exact hsmall

theorem two_pow_le_round64 (hbig : 2 ^ 53 ≤ q) : 2 ^ 53 ≤ round64 q := by
  have hpos : 0 < q := lt_of_lt_of_le (by positivity) hbig
  have hlog := (Int.zpow_le_iff_le_log (b := 2) (x := 53) (by norm_num) hpos).mp
    (by exact_mod_cast hbig)
  have hbit : lastBit q = Int.log 2 q - 52 := by
    unfold lastBit
    omega
  have hle : ((2 ^ 52 : ℤ) : ℚ) * 2 ^ lastBit q ≤ round64 q := by
    refine le_round64 ?_
    rw [le_div_iff₀ (two_zpow_pos _), hbit]
    have hself := Int.zpow_log_le_self (b := 2) (by norm_num) hpos
    have hsum : ((2 ^ 52 : ℤ) : ℚ) * 2 ^ (Int.log 2 q - 52) = 2 ^ Int.log 2 q := by
      rw [zpow_sub₀ (by norm_num)]
      push_cast
      exact mul_div_cancel₀ _ (by norm_num)
    rw [hsum]
    exact_mod_cast hself
  have hone : (2 : ℚ) ≤ 2 ^ lastBit q := by
    calc (2 : ℚ) = 2 ^ (1 : ℤ) := by norm_num
      _ ≤ 2 ^ lastBit q := zpow_le_zpow_right₀ (by norm_num) (by omega)
  refine le_trans ?_ hle
  push_cast
  linarith

/-- Between `2 ^ 52` and `2 ^ 53` the numbers are the integers. -/
theorem round64_le_iff (hn : 2 ^ 52 ≤ n) (hn' : n < 2 ^ 53) (heven : Even n) (hq : 0 ≤ q) :
    round64 q ≤ n ↔ q ≤ n + 1 / 2 := by
  have hncast : (2 : ℚ) ^ 52 ≤ n := by exact_mod_cast hn
  have hncast' : (n : ℚ) + 1 ≤ 2 ^ 53 := by exact_mod_cast hn'
  rcases lt_or_ge q (2 ^ 52) with hsmall | hlarge
  · have hle := round64_le_two_pow hq hsmall
    exact iff_of_true (by linarith) (by linarith)
  · rcases lt_or_ge q (2 ^ 53) with hmiddle | hbig
    · have hpos : 0 < q := lt_of_lt_of_le (by positivity) hlarge
      have hlow := (Int.zpow_le_iff_le_log (b := 2) (x := 52) (by norm_num) hpos).mp
        (by exact_mod_cast hlarge)
      have hlog := (Int.lt_zpow_iff_log_lt (b := 2) (x := 53) (by norm_num) hpos).mp
        (by exact_mod_cast hmiddle)
      have hbit : lastBit q = 0 := by
        unfold lastBit
        omega
      rw [round64, hbit, zpow_zero, div_one, mul_one, ← roundEven_le_iff heven]
      exact_mod_cast Iff.rfl
    · have hle := two_pow_le_round64 hbig
      exact iff_of_false (by linarith) (by linarith)

end

end ClaudeCluster.Lib.Binary64
