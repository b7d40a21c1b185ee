import Mathlib.Data.List.Basic

/-!
# Strings of code units

A string of JavaScript is any list of 16-bit code units. Read as text it is a
list of characters and of surrogates that have no partner (`points`), and
nothing is lost by reading it (`flatMap_points`). A list of characters written
in code units is read as these characters (`points_flatMap`).
-/

namespace ClaudeCluster.Lib

abbrev JsString := List UInt16

namespace Utf16

def units (c : Char) : JsString :=
  if c.toNat < 0x10000 then [.ofNat c.toNat]
  else
    [.ofNat (0xd800 + (c.toNat - 0x10000) / 0x400), .ofNat (0xdc00 + (c.toNat - 0x10000) % 0x400)]

inductive Point
  | char (c : Char)
  | lone (surrogate : UInt16)
  deriving DecidableEq, Repr

def Point.units : Point → JsString
  | .char c => Utf16.units c
  | .lone surrogate => [surrogate]

def isHigh (u : UInt16) : Bool := 0xd800 ≤ u.toNat && u.toNat < 0xdc00

def isLow (u : UInt16) : Bool := 0xdc00 ≤ u.toNat && u.toNat < 0xe000

def combine (high low : UInt16) : Char :=
  .ofNat (0x10000 + (high.toNat - 0xd800) * 0x400 + (low.toNat - 0xdc00))

def single (u : UInt16) : Point :=
  if isHigh u || isLow u then .lone u else .char (.ofNat u.toNat)

/-- `StringToCodePoints` -/
def points : JsString → List Point
  | [] => []
  | [u] => [single u]
  | u :: v :: rest =>
    if isHigh u && isLow v then .char (combine u v) :: points rest
    else single u :: points (v :: rest)

def ofText (text : String) : JsString := text.toList.flatMap units

def Point.char? : Point → Option Char
  | .char c => some c
  | .lone _ => none

def text? (s : JsString) : Option String := ((points s).mapM Point.char?).map String.ofList

/-- What a string becomes in UTF-8: a surrogate without a partner is U+FFFD. -/
def toText (s : JsString) : String :=
  .ofList ((points s).map fun p => p.char?.getD (.ofNat 0xfffd))

-- ---------------------------------------------------------------------------
-- There and back
-- ---------------------------------------------------------------------------

theorem toNat_ofNat {n : Nat} (h : n.isValidChar) : (Char.ofNat n).toNat = n := by
  rw [Char.ofNat, dif_pos h]
  rfl

theorem toNat_cases (c : Char) : c.toNat < 0xd800 ∨ 0xdfff < c.toNat ∧ c.toNat < 0x110000 :=
  c.valid

theorem isHigh_iff {u : UInt16} : isHigh u ↔ 0xd800 ≤ u.toNat ∧ u.toNat < 0xdc00 := by
  simp [isHigh]

theorem isLow_iff {u : UInt16} : isLow u ↔ 0xdc00 ≤ u.toNat ∧ u.toNat < 0xe000 := by
  simp [isLow]

theorem units_single (u : UInt16) : (single u).units = [u] := by
  unfold single
  split
  case isTrue => rfl
  case isFalse h =>
    simp only [Bool.or_eq_true, isHigh_iff, isLow_iff, not_or] at h
    have hlt := u.toNat_lt
    have hnat : (Char.ofNat u.toNat).toNat = u.toNat := toNat_ofNat (by
      unfold Nat.isValidChar
      omega)
    rw [Point.units, units, if_pos (by omega), hnat, UInt16.ofNat_toNat]

theorem units_combine {u v : UInt16} (hu : isHigh u) (hv : isLow v) :
    units (combine u v) = [u, v] := by
  rw [isHigh_iff] at hu
  rw [isLow_iff] at hv
  have hnat : (combine u v).toNat =
      0x10000 + (u.toNat - 0xd800) * 0x400 + (v.toNat - 0xdc00) := toNat_ofNat (by
    unfold Nat.isValidChar
    omega)
  have hhigh : 0xd800 + ((combine u v).toNat - 0x10000) / 0x400 = u.toNat := by omega
  have hlow : 0xdc00 + ((combine u v).toNat - 0x10000) % 0x400 = v.toNat := by omega
  rw [units, if_neg (by omega), hhigh, hlow, UInt16.ofNat_toNat, UInt16.ofNat_toNat]

theorem flatMap_points (s : JsString) : (points s).flatMap Point.units = s := by
  induction s using points.induct with
  | case1 => rfl
  | case2 u => simp [points, units_single]
  | case3 u v rest h ih =>
    rw [points, if_pos h]
    simp only [Bool.and_eq_true] at h
    simp only [List.flatMap_cons, Point.units, units_combine h.1 h.2, ih, List.cons_append,
      List.nil_append]
  | case4 u v rest h ih =>
    rw [points, if_neg h]
    simp only [List.flatMap_cons, units_single, ih, List.cons_append, List.nil_append]

theorem points_cons {u : UInt16} (hhigh : isHigh u = false) (s : JsString) :
    points (u :: s) = single u :: points s := by
  cases s with
  | nil => rfl
  | cons v rest => simp [points, hhigh]

theorem points_append (c : Char) (s : JsString) : points (units c ++ s) = .char c :: points s := by
  have hc := toNat_cases c
  unfold units
  split
  case isTrue hlt =>
    have hnat : (UInt16.ofNat c.toNat).toNat = c.toNat := UInt16.toNat_ofNat_of_lt' hlt
    have hhigh : isHigh (.ofNat c.toNat) = false := by
      rw [← Bool.not_eq_true, isHigh_iff, hnat]
      omega
    have hlow : isLow (.ofNat c.toNat) = false := by
      rw [← Bool.not_eq_true, isLow_iff, hnat]
      omega
    rw [List.singleton_append, points_cons hhigh, single, hhigh, hlow, hnat]
    simp
  case isFalse hge =>
    generalize hu : UInt16.ofNat (0xd800 + (c.toNat - 0x10000) / 0x400) = u
    generalize hv : UInt16.ofNat (0xdc00 + (c.toNat - 0x10000) % 0x400) = v
    have hunat : u.toNat = 0xd800 + (c.toNat - 0x10000) / 0x400 := by
      rw [← hu]
      exact UInt16.toNat_ofNat_of_lt' (by unfold UInt16.size; omega)
    have hvnat : v.toNat = 0xdc00 + (c.toNat - 0x10000) % 0x400 := by
      rw [← hv]
      exact UInt16.toNat_ofNat_of_lt' (by unfold UInt16.size; omega)
    have hhigh : isHigh u := by
      rw [isHigh_iff, hunat]
      omega
    have hlow : isLow v := by
      rw [isLow_iff, hvnat]
      omega
    have hcombine : combine u v = c := by
      have hnat : 0x10000 + (u.toNat - 0xd800) * 0x400 + (v.toNat - 0xdc00) = c.toNat := by omega
      rw [combine, hnat, Char.ofNat_toNat]
    simp [points, hhigh, hlow, hcombine]

theorem points_flatMap (cs : List Char) : points (cs.flatMap units) = cs.map .char := by
  induction cs with
  | nil => rfl
  | cons c cs ih => rw [List.flatMap_cons, points_append, ih, List.map_cons]

theorem isLow_head_units (c : Char) (rest : JsString) :
    ∃ u us, units c ++ rest = u :: us ∧ isLow u = false := by
  have hc := toNat_cases c
  unfold units
  split
  case isTrue hlt =>
    refine ⟨_, rest, rfl, ?_⟩
    have hnat : (UInt16.ofNat c.toNat).toNat = c.toNat := UInt16.toNat_ofNat_of_lt' hlt
    rw [← Bool.not_eq_true, isLow_iff, hnat]
    omega
  case isFalse hge =>
    refine ⟨_, _ :: rest, rfl, ?_⟩
    have hnat : (UInt16.ofNat (0xd800 + (c.toNat - 0x10000) / 0x400)).toNat =
        0xd800 + (c.toNat - 0x10000) / 0x400 :=
      UInt16.toNat_ofNat_of_lt' (by unfold UInt16.size; omega)
    rw [← Bool.not_eq_true, isLow_iff, hnat]
    omega

/-- Characters after a string complete no pair of it. -/
theorem points_append_flatMap (s : JsString) (cs : List Char) :
    points (s ++ cs.flatMap units) = points s ++ cs.map .char := by
  induction s using points.induct with
  | case1 => exact points_flatMap cs
  | case2 u =>
    cases cs with
    | nil => simp
    | cons c cs =>
      obtain ⟨v, vs, hv, hlow⟩ := isLow_head_units c (cs.flatMap units)
      have hrest := points_flatMap (c :: cs)
      rw [List.flatMap_cons, hv] at hrest
      have hpair : ¬(isHigh u && isLow v) := by simp [hlow]
      rw [List.flatMap_cons, hv, List.singleton_append, points.eq_3, if_neg hpair, hrest]
      rfl
  | case3 u v rest h ih =>
    rw [List.cons_append, List.cons_append, points, if_pos h, ih, points, if_pos h]
    rfl
  | case4 u v rest h ih =>
    rw [List.cons_append] at ih
    rw [List.cons_append, List.cons_append, points, if_neg h, ih, points, if_neg h]
    rfl

theorem toText_append_flatMap (s : JsString) (cs : List Char) :
    toText (s ++ cs.flatMap units) = toText s ++ String.ofList cs := by
  have hmap : (cs.map Point.char).map (fun p => p.char?.getD (.ofNat 0xfffd)) = cs := by
    rw [List.map_map]
    exact List.map_id' cs
  rw [toText, points_append_flatMap, List.map_append, hmap, String.ofList_append]
  rfl

theorem text?_ofText (text : String) : text? (ofText text) = some text := by
  have hchars : ∀ cs : List Char, (cs.map Point.char).mapM Point.char? = some cs := by
    intro cs
    induction cs with
    | nil => rfl
    | cons c cs ih => simp [List.mapM_cons, Point.char?, ih]
  rw [text?, ofText, points_flatMap, hchars, Option.map_some, String.ofList_toList]

theorem toText_ofText (text : String) : toText (ofText text) = text := by
  rw [toText, ofText, points_flatMap, List.map_map]
  exact (congrArg String.ofList (List.map_id' text.toList)).trans String.ofList_toList

end Utf16

end ClaudeCluster.Lib
