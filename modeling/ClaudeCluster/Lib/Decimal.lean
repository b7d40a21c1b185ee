import Mathlib.Algebra.Order.Field.Rat
import Mathlib.Tactic.Ring
import Mathlib.Tactic.FieldSimp

/-!
# Decimal literals

Numbers as they are written in a text, read by maximal munch: a sign, digits
without a leading zero, a fraction and an exponent. `Literal.scan` gives back
the literal that was written where what follows cannot go on with it
(`scan_text`).

`Literal.decimal` writes an integer times a power of ten in the notation of
`Number::toString` of ECMAScript, and `magnitude_decimal` says that it is the
number written.
-/

namespace ClaudeCluster.Lib

structure Literal where
  negative : Bool := false
  whole : List Char
  fraction : List Char := []
  exponent : Option Int := none
  deriving DecidableEq, Repr

namespace Literal

def exponentText : Option Int → List Char
  | none => []
  | some e => 'e' :: (if 0 ≤ e then '+' else '-') :: Nat.toDigits 10 e.natAbs

def fractionText (fraction : List Char) : List Char :=
  if fraction = [] then [] else '.' :: fraction

def text (l : Literal) : List Char :=
  (if l.negative then ['-'] else []) ++
    (l.whole ++ (fractionText l.fraction ++ exponentText l.exponent))

def magnitude (l : Literal) : ℚ :=
  (Nat.ofDigitChars 10 (l.whole ++ l.fraction) 0 : ℚ) *
    10 ^ (l.exponent.getD 0 - l.fraction.length)

-- ---------------------------------------------------------------------------
-- Scanning
-- ---------------------------------------------------------------------------

def digits (cs : List Char) : Option (List Char × List Char) :=
  if cs.takeWhile Char.isDigit = [] then none
  else some (cs.takeWhile Char.isDigit, cs.dropWhile Char.isDigit)

def scanWhole : List Char → Option (List Char × List Char)
  | '0' :: cs => some (['0'], cs)
  | cs => digits cs

def scanFraction : List Char → Option (List Char × List Char)
  | '.' :: cs => digits cs
  | cs => some ([], cs)

def scanInteger : List Char → Option (Int × List Char)
  | '+' :: cs => (digits cs).map fun (ds, cs) => ((Nat.ofDigitChars 10 ds 0 : Int), cs)
  | '-' :: cs => (digits cs).map fun (ds, cs) => (-(Nat.ofDigitChars 10 ds 0 : Int), cs)
  | cs => (digits cs).map fun (ds, cs) => ((Nat.ofDigitChars 10 ds 0 : Int), cs)

def scanExponent : List Char → Option (Option Int × List Char)
  | 'e' :: cs => (scanInteger cs).map fun (e, cs) => (some e, cs)
  | 'E' :: cs => (scanInteger cs).map fun (e, cs) => (some e, cs)
  | cs => some (none, cs)

def scanSign : List Char → Bool × List Char
  | '-' :: cs => (true, cs)
  | cs => (false, cs)

/-- The longest literal in front, and what follows it. -/
def scan (cs : List Char) : Option (Literal × List Char) :=
  (scanWhole (scanSign cs).2).bind fun (whole, rest) =>
    (scanFraction rest).bind fun (fraction, rest) =>
      (scanExponent rest).map fun (exponent, rest) =>
        (⟨(scanSign cs).1, whole, fraction, exponent⟩, rest)

structure WellFormed (l : Literal) : Prop where
  whole_ne_nil : l.whole ≠ []
  whole_digits : ∀ c ∈ l.whole, c.isDigit
  leading_zero : l.whole.head? = some '0' → l.whole = ['0']
  fraction_digits : ∀ c ∈ l.fraction, c.isDigit

def Ends (rest : List Char) : Prop :=
  ∀ c ∈ rest.head?, c.isDigit = false ∧ c ≠ '.' ∧ c ≠ 'e' ∧ c ≠ 'E'

section
variable {ds rest : List Char} {l : Literal}

theorem takeWhile_digits (hds : ∀ c ∈ ds, c.isDigit) (hrest : ∀ c ∈ rest.head?, c.isDigit = false) :
    (ds ++ rest).takeWhile Char.isDigit = ds ∧ (ds ++ rest).dropWhile Char.isDigit = rest := by
  have hstop : rest.takeWhile Char.isDigit = [] ∧ rest.dropWhile Char.isDigit = rest := by
    cases rest with
    | nil => exact ⟨rfl, rfl⟩
    | cons c rest =>
      have hc := hrest c rfl
      simp [hc]
  rw [List.takeWhile_append_of_pos hds, List.dropWhile_append_of_pos hds, hstop.1, hstop.2]
  simp

theorem digits_append (hne : ds ≠ []) (hds : ∀ c ∈ ds, c.isDigit)
    (hrest : ∀ c ∈ rest.head?, c.isDigit = false) : digits (ds ++ rest) = some (ds, rest) := by
  obtain ⟨htake, hdrop⟩ := takeWhile_digits hds hrest
  rw [digits, htake, hdrop, if_neg hne]

theorem digits_toDigits (n : Nat) (hrest : ∀ c ∈ rest.head?, c.isDigit = false) :
    digits (Nat.toDigits 10 n ++ rest) = some (Nat.toDigits 10 n, rest) :=
  digits_append Nat.toDigits_ne_nil
    (fun _ hc => Nat.isDigit_of_mem_toDigits (by omega) (by omega) hc) hrest

theorem scanWhole_append (h : l.WellFormed) (hrest : ∀ c ∈ rest.head?, c.isDigit = false) :
    scanWhole (l.whole ++ rest) = some (l.whole, rest) := by
  have hdigits := digits_append h.whole_ne_nil h.whole_digits hrest
  unfold scanWhole
  split
  case h_1 cs heq =>
    have hhead : l.whole.head? = some '0' := by
      cases hw : l.whole with
      | nil => exact absurd hw h.whole_ne_nil
      | cons c cs' =>
        rw [hw] at heq
        exact congrArg some (List.cons.inj heq).1
    rw [h.leading_zero hhead] at heq ⊢
    obtain rfl : rest = cs := (List.cons.inj heq).2
    rfl
  case h_2 => exact hdigits

theorem scanExponent_append (exponent : Option Int) (hrest : Ends rest) :
    scanExponent (exponentText exponent ++ rest) = some (exponent, rest) := by
  cases exponent with
  | none =>
    cases rest with
    | nil => rfl
    | cons c rest =>
      obtain ⟨_, _, he, hE⟩ := hrest c rfl
      simp only [exponentText, List.nil_append]
      unfold scanExponent
      split
      case h_1 heq => exact absurd (List.cons.inj heq).1 he
      case h_2 heq => exact absurd (List.cons.inj heq).1 hE
      case h_3 => rfl
  | some e =>
    have hdigits := digits_toDigits e.natAbs fun c hc => (hrest c hc).1
    by_cases hsign : 0 ≤ e
    · simp only [exponentText, hsign, if_true, List.cons_append, scanExponent, scanInteger, hdigits,
        Option.map_some, Nat.ofDigitChars_ten_toDigits]
      rw [Int.natAbs_of_nonneg hsign]
    · simp only [exponentText, hsign, if_false, List.cons_append, scanExponent, scanInteger, hdigits,
        Option.map_some, Nat.ofDigitChars_ten_toDigits]
      rw [Int.ofNat_natAbs_of_nonpos (by omega), Int.neg_neg]

theorem head_exponentText (exponent : Option Int) (hrest : Ends rest) :
    ∀ c ∈ (exponentText exponent ++ rest).head?, c.isDigit = false ∧ c ≠ '.' := by
  intro c hc
  cases exponent with
  | none => exact ⟨(hrest c hc).1, (hrest c hc).2.1⟩
  | some e =>
    cases hc
    decide

theorem scanFraction_append (h : l.WellFormed) (hrest : Ends rest) :
    scanFraction (fractionText l.fraction ++ (exponentText l.exponent ++ rest)) =
      some (l.fraction, exponentText l.exponent ++ rest) := by
  have hhead := head_exponentText l.exponent hrest
  unfold fractionText
  split
  case isTrue hnil =>
    rw [hnil, List.nil_append]
    unfold scanFraction
    split
    case h_1 cs heq =>
      rw [heq] at hhead
      exact absurd rfl (hhead '.' rfl).2
    case h_2 => rfl
  case isFalse hne =>
    rw [List.cons_append]
    exact digits_append hne h.fraction_digits fun c hc => (hhead c hc).1

theorem head_fractionText (hrest : Ends rest) :
    ∀ c ∈ (fractionText l.fraction ++ (exponentText l.exponent ++ rest)).head?,
      c.isDigit = false := by
  intro c hc
  unfold fractionText at hc
  split at hc
  · exact (head_exponentText l.exponent hrest c hc).1
  · cases hc
    decide

theorem scanSign_append (h : l.WellFormed) (rest : List Char) :
    scanSign ((if l.negative then ['-'] else []) ++ (l.whole ++ rest)) =
      (l.negative, l.whole ++ rest) := by
  cases hsign : l.negative with
  | true => rfl
  | false =>
    cases hw : l.whole with
    | nil => exact absurd hw h.whole_ne_nil
    | cons c cs =>
      have hc : c.isDigit := h.whole_digits c (by simp [hw])
      have hne : c ≠ '-' := by
        rintro rfl
        exact absurd hc (by decide)
      simp [scanSign, hne]

/-- What was written is read. -/
theorem scan_text (h : l.WellFormed) (hrest : Ends rest) :
    scan (l.text ++ rest) = some (l, rest) := by
  have htext : l.text ++ rest = (if l.negative then ['-'] else []) ++
      (l.whole ++ (fractionText l.fraction ++ (exponentText l.exponent ++ rest))) := by
    simp [text]
  have hsign := scanSign_append h (fractionText l.fraction ++ (exponentText l.exponent ++ rest))
  have hwhole := scanWhole_append h (head_fractionText (l := l) hrest)
  have hfraction := scanFraction_append h hrest
  have hexponent := scanExponent_append l.exponent hrest
  simp only [htext, scan, hsign, hwhole, hfraction, hexponent, Option.bind_some, Option.map_some]

end

-- ---------------------------------------------------------------------------
-- Writing a number
-- ---------------------------------------------------------------------------

/-- The zero of `Number::toString`; the zero with a sign is written the same. -/
def zero : Literal := { whole := ['0'] }

/-- `s * 10 ^ e`, for a positive `s` without trailing zeros. -/
def decimal (s : Nat) (e : Int) : Literal :=
  let ds := Nat.toDigits 10 s
  let k : Int := ds.length
  let n := k + e
  if k ≤ n ∧ n ≤ 21 then { whole := ds ++ List.replicate (n - k).toNat '0' }
  else if 0 < n ∧ n ≤ 21 then { whole := ds.take n.toNat, fraction := ds.drop n.toNat }
  else if -6 < n ∧ n ≤ 0 then
    { whole := ['0'], fraction := List.replicate (-n).toNat '0' ++ ds }
  else { whole := ds.take 1, fraction := ds.drop 1, exponent := some (n - 1) }

theorem wellFormed_zero : zero.WellFormed where
  whole_ne_nil := by decide
  whole_digits := List.forall_mem_singleton.mpr rfl
  leading_zero _ := rfl
  fraction_digits := List.forall_mem_nil _

section
variable {s : Nat} {e : Int}

theorem magnitude_decimal : (decimal s e).magnitude = (s : ℚ) * 10 ^ e := by
  have hvalue : Nat.ofDigitChars 10 (Nat.toDigits 10 s) 0 = s := Nat.ofDigitChars_ten_toDigits
  have hpos := List.length_pos_iff.mpr (Nat.toDigits_ne_nil (n := s) (b := 10))
  unfold decimal
  dsimp only
  generalize Nat.toDigits 10 s = ds at hvalue hpos ⊢
  split
  case isTrue h =>
    -- the zeros multiply by a power of ten
    obtain ⟨z, hz⟩ := Int.eq_ofNat_of_zero_le (show 0 ≤ e by omega)
    simp only [magnitude, List.append_nil, Nat.ofDigitChars_append, hvalue,
      Nat.ofDigitChars_replicate_zero, hz]
    simp [mul_comm]
  case isFalse =>
    split
    case isTrue h =>
      have hexp : (0 : Int) - (ds.drop (ds.length + e).toNat).length = e := by
        rw [List.length_drop]
        omega
      simp only [magnitude, Option.getD_none, List.take_append_drop, hvalue, hexp]
    case isFalse =>
      split
      case isTrue h =>
        have hexp : (0 : Int) - (List.replicate (-(ds.length + e)).toNat '0' ++ ds).length = e := by
          rw [List.length_append, List.length_replicate]
          omega
        have hdigits : Nat.ofDigitChars 10
            (['0'] ++ (List.replicate (-(ds.length + e)).toNat '0' ++ ds)) 0 = s := by
          simp [Nat.ofDigitChars_append, Nat.ofDigitChars_cons, hvalue]
        simp only [magnitude, Option.getD_none, hdigits, hexp]
      case isFalse h =>
        have hexp : ds.length + e - 1 - (ds.drop 1).length = e := by
          rw [List.length_drop]
          omega
        simp only [magnitude, Option.getD_some, List.take_append_drop, hvalue, hexp]

theorem head_toDigits_ne (h : 0 < s) : (Nat.toDigits 10 s).head? ≠ some '0' := by
  induction s using Nat.strongRecOn with
  | ind s ih =>
    by_cases hlt : s < 10
    · rw [Nat.toDigits_of_lt_base hlt]
      have hdigit : ∀ d < 10, 0 < d → [Nat.digitChar d].head? ≠ some '0' := by decide
      exact hdigit s hlt h
    · rw [Nat.toDigits_of_base_le (by omega) (by omega),
        List.head?_append_of_ne_nil _ Nat.toDigits_ne_nil]
      exact ih (s / 10) (by omega) (by omega)

theorem wellFormed_decimal (h : 0 < s) : (decimal s e).WellFormed := by
  have hdigits : ∀ c ∈ Nat.toDigits 10 s, c.isDigit :=
    fun c hc => Nat.isDigit_of_mem_toDigits (by omega) (by omega) hc
  have hhead := head_toDigits_ne h
  have hne := Nat.toDigits_ne_nil (n := s) (b := 10)
  have hzeros : ∀ n, ∀ c ∈ List.replicate n '0', c.isDigit := by
    intro n c hc
    rw [(List.mem_replicate.mp hc).2]
    decide
  unfold decimal
  dsimp only
  generalize Nat.toDigits 10 s = ds at hdigits hhead hne ⊢
  obtain ⟨d, rest, rfl⟩ := List.exists_cons_of_ne_nil hne
  have hd : d ≠ '0' := fun hd => hhead (congrArg some hd)
  split
  · refine ⟨by simp, ?_, fun hz => absurd (Option.some.inj hz) hd, by simp⟩
    intro c hc
    rcases List.mem_append.mp hc with hc | hc
    · exact hdigits c hc
    · exact hzeros _ c hc
  · split
    case isTrue hn =>
      obtain ⟨k, hk⟩ : ∃ k, ((d :: rest).length + e).toNat = k + 1 :=
        ⟨((d :: rest).length + e).toNat - 1, by omega⟩
      rw [hk]
      refine ⟨by simp, ?_, fun hz => absurd (Option.some.inj hz) hd, ?_⟩
      · exact fun c hc => hdigits c (List.mem_of_mem_take hc)
      · exact fun c hc => hdigits c (List.mem_of_mem_drop hc)
    case isFalse =>
      split
      · refine ⟨by simp, by simp, fun _ => rfl, ?_⟩
        intro c hc
        rcases List.mem_append.mp hc with hc | hc
        · exact hzeros _ c hc
        · exact hdigits c hc
      · refine ⟨by simp, ?_, fun hz => absurd (Option.some.inj hz) hd, ?_⟩
        · exact fun c hc => hdigits c (List.mem_of_mem_take hc)
        · exact fun c hc => hdigits c (List.mem_of_mem_drop hc)

end

end Literal

end ClaudeCluster.Lib
