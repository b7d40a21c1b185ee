import ClaudeCluster.Lib.Json
import ClaudeCluster.Lib.Utf8

/-!
# Coercions

What JavaScript makes of a value where it wants another, for the values that
`JSON.parse` gives: `toText` is `ToString`, `truthy` is `ToBoolean`, `toNumber`
is `ToNumber`, and `greater` the comparison of a number with a value.

Numbers are written so that they can be told apart (`numberChars_inj`), but for
the two zeros, and no number is written with a colon (`colon_notMem_numberChars`).
-/

namespace ClaudeCluster.Lib

open Binary64 (Number Magnitude)

namespace Binary64

-- ---------------------------------------------------------------------------
-- Comparison and addition
-- ---------------------------------------------------------------------------

def signed (negative : Bool) (q : ℚ) : ℚ := if negative then -q else q

/-- `x < y`, false where one of them is not a number. -/
def less : Number → Number → Bool
  | .nan, _ => false
  | _, .nan => false
  | .infinite a, .infinite b => a && !b
  | .infinite a, .finite _ _ => a
  | .finite _ _, .infinite b => !b
  | .finite a m, .finite b m' => signed a m.value < signed b m'.value

/-- A rational rounded; `negative` is the sign of a zero. -/
def ofRat (negative : Bool) (q : ℚ) : Number :=
  let below := if q = 0 then negative else decide (q < 0)
  if h : round64 |q| < 2 ^ 1024 then
    .finite below {
      value := round64 |q|
      nonneg := round64_nonneg (abs_nonneg q)
      rounded := round64_round64 (abs_nonneg q)
      bounded := h }
  else .infinite below

def add : Number → Number → Number
  | .nan, _ => .nan
  | _, .nan => .nan
  | .infinite a, .infinite b => if a = b then .infinite a else .nan
  | .infinite a, .finite _ _ => .infinite a
  | .finite _ _, .infinite b => .infinite b
  | .finite a m, .finite b m' => ofRat (a && b) (signed a m.value + signed b m'.value)

/-- `SameValueZero`: the two zeros are one. -/
def SameNumber (x y : Number) : Prop :=
  x = y ∨ ∃ a b m m', x = .finite a m ∧ y = .finite b m' ∧ m.value = 0 ∧ m'.value = 0

section
variable {x y z : Number}

theorem SameNumber.symm (h : SameNumber x y) : SameNumber y x := by
  rcases h with rfl | ⟨a, b, m, m', hx, hy, hm, hm'⟩
  · exact .inl rfl
  · exact .inr ⟨b, a, m', m, hy, hx, hm', hm⟩

theorem SameNumber.trans (h : SameNumber x y) (h' : SameNumber y z) : SameNumber x z := by
  rcases h with rfl | ⟨a, b, m, m', rfl, rfl, hm, hm'⟩
  · exact h'
  · rcases h' with rfl | ⟨c, d, n, n', hy, rfl, hn, hn'⟩
    · exact .inr ⟨a, b, m, m', rfl, rfl, hm, hm'⟩
    · exact .inr ⟨a, d, m, n', rfl, rfl, hm, hn'⟩

theorem less_congr (h : SameNumber x y) (z : Number) : less x z = less y z := by
  rcases h with rfl | ⟨a, b, m, m', rfl, rfl, hm, hm'⟩
  · rfl
  · have hzero : signed a m.value = signed b m'.value := by
      rw [hm, hm', signed, signed, neg_zero, ite_self, ite_self]
    cases z with
    | nan => rfl
    | infinite => rfl
    | finite c n => rw [less, less, hzero]

end

end Binary64

-- ---------------------------------------------------------------------------
-- Strings
-- ---------------------------------------------------------------------------

def ofChars (cs : List Char) : JsString := cs.flatMap Utf16.units

/-- The bytes of a string; a surrogate without a partner is U+FFFD. -/
def utf8 (s : JsString) : List UInt8 := Utf8.encode (Utf16.toText s).toList

def infinityChars : List Char := ['I', 'n', 'f', 'i', 'n', 'i', 't', 'y']

/-- `Number::toString` -/
def numberChars : Number → List Char
  | .nan => ['N', 'a', 'N']
  | .infinite negative => if negative then '-' :: infinityChars else infinityChars
  | .finite negative m => Json.numberText (.finite negative m)

mutual

/-- `ToString(value)`, `none` where it throws. An object that has a `toString` of
its own, which is no function, has no primitive value. -/
def toText : JsValue → Option JsString
  | .undefined => some (Utf16.ofText "undefined")
  | .null => some (Utf16.ofText "null")
  | .bool true => some (Utf16.ofText "true")
  | .bool false => some (Utf16.ofText "false")
  | .number x => some (ofChars (numberChars x))
  | .string s => some s
  -- no value of `JSON.parse`
  | .date _ => none
  | .array elements => (joinTexts elements).map fun texts => (ofChars [',']).intercalate texts
  | .object assignments =>
    if (assignments.map Prod.fst).contains (Utf16.ofText "toString") then none
    else some (Utf16.ofText "[object Object]")

/-- The texts that `Array.prototype.join` puts together. -/
def joinTexts : List JsValue → Option (List JsString)
  | [] => some []
  | element :: elements =>
    (match element with
      | .undefined => some []
      | .null => some []
      | element => toText element).bind fun text =>
        (joinTexts elements).map fun texts => text :: texts

end

/-- `value[key]`, for the own properties of an object; `none` where it throws. -/
def own (v : JsValue) (key : String) : Option JsValue :=
  match v with
  | .undefined => none
  | .null => none
  | .object assignments =>
    some (((Json.properties assignments).lookup (Utf16.ofText key)).getD .undefined)
  | _ => some .undefined

theorem own_object (assignments : List (JsString × JsValue)) (key : String) :
    own (.object assignments) key =
      some ((assignments.reverse.lookup (Utf16.ofText key)).getD .undefined) := by
  rw [own, Json.lookup_properties]

theorem own_of_ordered {es : List (JsString × JsValue)}
    (h : (es.map Prod.fst).Pairwise Json.Before) (key : String) :
    own (.object es) key = some ((es.lookup (Utf16.ofText key)).getD .undefined) := by
  rw [own, Json.properties_of_ordered h]

/-- `ToBoolean(value)` -/
def truthy : JsValue → Bool
  | .undefined => false
  | .null => false
  | .bool b => b
  | .number .nan => false
  | .number (.finite _ m) => m.value ≠ 0
  | .string s => s ≠ []
  | _ => true

-- ---------------------------------------------------------------------------
-- Numbers
-- ---------------------------------------------------------------------------

def isBlank (c : Char) : Bool :=
  let n := c.toNat
  (0x09 ≤ n && n ≤ 0x0d) || n = 0x20 || n = 0xa0 || n = 0x1680 || (0x2000 ≤ n && n ≤ 0x200a) ||
    n = 0x2028 || n = 0x2029 || n = 0x202f || n = 0x205f || n = 0x3000 || n = 0xfeff

def trim (cs : List Char) : List Char :=
  ((cs.dropWhile isBlank).reverse.dropWhile isBlank).reverse

/-- Digits of another base, after `0x`, `0o` or `0b`. -/
def baseNumber (base : Nat) (cs : List Char) : Number :=
  let digits := cs.map fun c =>
    if c.isDigit then c.toNat - '0'.toNat else (c.toLower.toNat - 'a'.toNat) + 10
  if cs ≠ [] ∧ cs.all Char.isAlphanum ∧ digits.all (· < base) then
    Binary64.ofRat false (digits.foldl (fun n d => n * base + d) 0 : ℕ)
  else .nan

def decimalNumber (negative : Bool) (cs : List Char) : Number :=
  let whole := cs.takeWhile Char.isDigit
  let rest := cs.dropWhile Char.isDigit
  let (fraction, rest) :=
    match rest with
    | '.' :: rest => (rest.takeWhile Char.isDigit, rest.dropWhile Char.isDigit)
    | rest => ([], rest)
  if whole = [] ∧ fraction = [] then .nan
  else
    match Literal.scanExponent rest with
    | some (exponent, []) =>
      Binary64.read { negative := negative, whole := whole, fraction := fraction, exponent := exponent }
    | _ => .nan

/-- `StringToNumber(str)` -/
def stringToNumber (s : JsString) : Number :=
  match (Utf16.points s).mapM Utf16.Point.char? with
  | none => .nan
  | some cs =>
    match trim cs with
    | [] => .finite false ⟨0, le_rfl, Binary64.round64_zero, by norm_num⟩
    | '0' :: 'x' :: cs => baseNumber 16 cs
    | '0' :: 'X' :: cs => baseNumber 16 cs
    | '0' :: 'o' :: cs => baseNumber 8 cs
    | '0' :: 'O' :: cs => baseNumber 8 cs
    | '0' :: 'b' :: cs => baseNumber 2 cs
    | '0' :: 'B' :: cs => baseNumber 2 cs
    | '+' :: cs => if cs = infinityChars then .infinite false else decimalNumber false cs
    | '-' :: cs => if cs = infinityChars then .infinite true else decimalNumber true cs
    | cs => if cs = infinityChars then .infinite false else decimalNumber false cs

/-- `ToNumber(value)`, `none` where it throws. -/
def toNumber : JsValue → Option Number
  | .undefined => some .nan
  | .null => some (Binary64.read .zero)
  | .bool true => some (Binary64.read { whole := ['1'] })
  | .bool false => some (Binary64.read .zero)
  | .number x => some x
  | .string s => some (stringToNumber s)
  | v => (toText v).map stringToNumber

def greater (x : Number) (v : JsValue) : Option Bool := (toNumber v).map (Binary64.less · x)

example : toText (.array [.null, .array [.string [0x61], .bool true]]) =
    some (Utf16.ofText ",a,true") := by
  decide

-- ---------------------------------------------------------------------------
-- Strings as bytes
-- ---------------------------------------------------------------------------

theorem decode_utf8 (s : JsString) : Utf8.decode (utf8 s) = (Utf16.toText s).toList :=
  Utf8.decode_encode _

theorem utf8_inj {s s' : JsString} (h : utf8 s = utf8 s') : Utf16.toText s = Utf16.toText s' := by
  have hdecode := congrArg Utf8.decode h
  rw [decode_utf8, decode_utf8] at hdecode
  exact String.toList_inj.mp hdecode

theorem toText_ofChars (cs : List Char) : Utf16.toText (ofChars cs) = String.ofList cs := by
  rw [← Utf16.toText_ofText (String.ofList cs), Utf16.ofText, String.toList_ofList]
  rfl

theorem ofChars_inj {cs cs' : List Char} (h : ofChars cs = ofChars cs') : cs = cs' := by
  have htext := congrArg Utf16.toText h
  rw [toText_ofChars, toText_ofChars] at htext
  exact String.ofList_inj.mp htext

-- ---------------------------------------------------------------------------
-- How numbers are written
-- ---------------------------------------------------------------------------

section
variable {x y : Number} {l : Literal}

theorem read_print (h : Binary64.print x = some l) :
    Binary64.SameNumber (Binary64.read l) x := by
  cases x with
  | nan => cases h
  | infinite => cases h
  | finite negative m =>
    simp only [Binary64.print] at h
    split at h
    case isTrue hzero =>
      cases h
      have hmagnitude : Literal.zero.magnitude = 0 := by
        simp [Literal.magnitude, Literal.zero, Nat.ofDigitChars_cons]
      rw [Binary64.read_of_magnitude (m := m) (by rw [hmagnitude, Binary64.round64_zero, hzero])]
      exact .inr ⟨false, negative, m, m, rfl, rfl, hzero, hzero⟩
    case isFalse hne =>
      cases h
      refine .inl (Binary64.read_of_magnitude ?_)
      have hmagnitude : ({ Literal.decimal (Binary64.shortest m).1 (Binary64.shortest m).2 with
          negative := negative } : Literal).magnitude =
          (Literal.decimal (Binary64.shortest m).1 (Binary64.shortest m).2).magnitude := rfl
      rw [hmagnitude, Literal.magnitude_decimal, Binary64.shortest_spec]

theorem exists_print (negative : Bool) (m : Magnitude) :
    ∃ l, Binary64.print (.finite negative m) = some l ∧
      numberChars (.finite negative m) = l.text := by
  have hprint : ∃ l, Binary64.print (.finite negative m) = some l := by
    simp only [Binary64.print]
    split
    · exact ⟨_, rfl⟩
    · exact ⟨_, rfl⟩
  obtain ⟨l, hl⟩ := hprint
  exact ⟨l, hl, by rw [numberChars, Json.numberText, hl]⟩

def numeral (c : Char) : Bool := c.isDigit || c = '-' || c = '+' || c = '.' || c = 'e'

theorem numeral_of_mem_text (h : l.WellFormed) : ∀ c ∈ l.text, numeral c := by
  have hdigit : ∀ c : Char, c.isDigit → numeral c := by
    intro c hc
    simp [numeral, hc]
  intro c hc
  simp only [Literal.text, List.mem_append] at hc
  rcases hc with hc | hc | hc | hc
  · split at hc
    · obtain rfl := List.mem_singleton.mp hc
      rfl
    · cases hc
  · exact hdigit c (h.whole_digits c hc)
  · unfold Literal.fractionText at hc
    split at hc
    · cases hc
    · rcases List.mem_cons.mp hc with rfl | hc
      · rfl
      · exact hdigit c (h.fraction_digits c hc)
  · cases hexponent : l.exponent with
    | none =>
      rw [hexponent] at hc
      cases hc
    | some e =>
      rw [hexponent, Literal.exponentText] at hc
      rcases List.mem_cons.mp hc with rfl | hc
      · rfl
      · rcases List.mem_cons.mp hc with rfl | hc
        · split <;> rfl
        · exact hdigit c (Nat.isDigit_of_mem_toDigits (by omega) (by omega) hc)

theorem colon_notMem_numberChars (x : Number) : ':' ∉ numberChars x := by
  cases x with
  | nan => decide
  | infinite negative => cases negative <;> decide
  | finite negative m =>
    obtain ⟨l, hl, htext⟩ := exists_print negative m
    intro hmem
    rw [htext] at hmem
    exact absurd (numeral_of_mem_text (Binary64.print_wellFormed hl) ':' hmem) (by decide)

theorem numberChars_finite_ne {negative : Bool} {m : Magnitude} {cs : List Char} {c : Char}
    (hmem : c ∈ cs) (hc : numeral c = false) : numberChars (.finite negative m) ≠ cs := by
  rintro rfl
  obtain ⟨l, hl, htext⟩ := exists_print negative m
  rw [htext] at hmem
  exact absurd (numeral_of_mem_text (Binary64.print_wellFormed hl) c hmem) (by simp [hc])

/-- Numbers that are written the same are the same, but for the sign of a zero. -/
theorem numberChars_inj (h : numberChars x = numberChars y) : Binary64.SameNumber x y := by
  have hnan : numeral 'N' = false := rfl
  have hinf : numeral 'I' = false := rfl
  have hmem : ∀ negative, 'I' ∈ numberChars (.infinite negative) := by decide
  cases x with
  | nan =>
    cases y with
    | nan => exact .inl rfl
    | infinite b => cases b <;> cases h
    | finite b m' => exact absurd h.symm (numberChars_finite_ne (by decide) hnan)
  | infinite a =>
    cases y with
    | nan => cases a <;> cases h
    | infinite b =>
      cases a <;> cases b
      · exact .inl rfl
      · cases h
      · cases h
      · exact .inl rfl
    | finite b m' => exact absurd h.symm (numberChars_finite_ne (hmem a) hinf)
  | finite a m =>
    cases y with
    | nan => exact absurd h (numberChars_finite_ne (by decide) hnan)
    | infinite b => exact absurd h (numberChars_finite_ne (hmem b) hinf)
    | finite b m' =>
      obtain ⟨l, hl, htext⟩ := exists_print a m
      obtain ⟨l', hl', htext'⟩ := exists_print b m'
      rw [htext, htext'] at h
      have hends : Literal.Ends [] := by
        intro c hc
        cases hc
      have hscan := Literal.scan_text (Binary64.print_wellFormed hl) hends
      rw [h, Literal.scan_text (Binary64.print_wellFormed hl') hends] at hscan
      obtain rfl : l' = l := (Prod.mk.inj (Option.some.inj hscan)).1
      exact (read_print hl).symm.trans (read_print hl')

theorem numberChars_congr (h : Binary64.SameNumber x y) : numberChars x = numberChars y := by
  rcases h with rfl | ⟨a, b, m, m', rfl, rfl, hm, hm'⟩
  · rfl
  · simp [numberChars, Json.numberText, Binary64.print, hm, hm']

end

end ClaudeCluster.Lib
