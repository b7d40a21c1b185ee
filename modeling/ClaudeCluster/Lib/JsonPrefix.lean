import Mathlib.Data.List.TakeWhile
import ClaudeCluster.Lib.JsonParser

/-!
# JSON and what follows it

What a parser reads of a text it reads of a longer one, if it knows where its
piece ends: by a bracket (`Firm`), or by what stands behind it (`Steady`). So
where the front of an object's text is JSON, it is that object, and only white
space is left out (`parse_prefix`).
-/

namespace ClaudeCluster.Lib.Json

/-- What follows the text makes no difference. -/
def Firm {α : Type} (item : List Char → Option (α × List Char)) : Prop :=
  ∀ cs a rest, item cs = some (a, rest) → ∀ tail, item (cs ++ tail) = some (a, rest ++ tail)

/-- What follows the text makes no difference if the parser left some of it. -/
def Steady {α : Type} (item : List Char → Option (α × List Char)) : Prop :=
  ∀ cs a rest, item cs = some (a, rest) → rest ≠ [] →
    ∀ tail, item (cs ++ tail) = some (a, rest ++ tail)

/-- A parser leaves nothing of a text of which the one before it left nothing. -/
theorem Shrinks.ne_nil {α : Type} {item : List Char → Option (α × List Char)} (h : Shrinks item)
    {cs rest : List Char} {a : α} (hitem : item cs = some (a, rest)) (hne : rest ≠ []) :
    cs ≠ [] := by
  rintro rfl
  have hlength := h _ _ _ hitem
  exact hne (List.length_eq_zero_iff.mp (Nat.le_zero.mp hlength))

theorem skipSpace_append_of_ne_nil {cs : List Char} (h : skipSpace cs ≠ []) (tail : List Char) :
    skipSpace (cs ++ tail) = skipSpace cs ++ tail := by
  have hempty : (cs.dropWhile isSpace).isEmpty = false := by simpa [skipSpace] using h
  rw [skipSpace, List.dropWhile_append, hempty]
  rfl

-- ---------------------------------------------------------------------------
-- Numbers
-- ---------------------------------------------------------------------------

section
variable (c : Char) (cs : List Char)

theorem scanSign_cons :
    Literal.scanSign (c :: cs) = if c = '-' then (true, cs) else (false, c :: cs) := by
  unfold Literal.scanSign
  split <;> simp_all

theorem scanWhole_cons :
    Literal.scanWhole (c :: cs) = if c = '0' then some (['0'], cs) else Literal.digits (c :: cs) := by
  unfold Literal.scanWhole
  split <;> simp_all

theorem scanFraction_cons :
    Literal.scanFraction (c :: cs) = if c = '.' then Literal.digits cs else some ([], c :: cs) := by
  unfold Literal.scanFraction
  split <;> simp_all

theorem scanInteger_cons :
    Literal.scanInteger (c :: cs) =
      if c = '+' then (Literal.digits cs).map fun (ds, cs) => ((Nat.ofDigitChars 10 ds 0 : Int), cs)
      else if c = '-' then
        (Literal.digits cs).map fun (ds, cs) => (-(Nat.ofDigitChars 10 ds 0 : Int), cs)
      else
        (Literal.digits (c :: cs)).map fun (ds, cs) => ((Nat.ofDigitChars 10 ds 0 : Int), cs) := by
  unfold Literal.scanInteger
  split <;> simp_all

theorem scanExponent_cons :
    Literal.scanExponent (c :: cs) =
      if c = 'e' ∨ c = 'E' then (Literal.scanInteger cs).map fun (e, cs) => (some e, cs)
      else some (none, c :: cs) := by
  unfold Literal.scanExponent
  split <;> simp_all

end

theorem steady_digits : Steady Literal.digits := by
  intro cs ds rest h hne tail
  unfold Literal.digits at h ⊢
  split at h
  case isTrue => cases h
  case isFalse hds =>
    cases h
    have hempty : (cs.dropWhile Char.isDigit).isEmpty = false := by simpa using hne
    have hlength : (cs.takeWhile Char.isDigit).length ≠ cs.length := by
      intro heq
      have hwhole : cs.takeWhile Char.isDigit = cs := (List.takeWhile_prefix _).eq_of_length heq
      have happend := List.takeWhile_append_dropWhile (p := Char.isDigit) (l := cs)
      rw [hwhole] at happend
      exact hne (List.append_right_eq_self.mp happend)
    rw [List.takeWhile_append, List.dropWhile_append, if_neg hlength, if_neg hds, hempty]
    rfl

theorem steady_scanWhole : Steady Literal.scanWhole := by
  intro cs ds rest h hne tail
  cases cs with
  | nil => cases h
  | cons c cs =>
    rw [List.cons_append, scanWhole_cons]
    rw [scanWhole_cons] at h
    split at h
    case isTrue hzero =>
      cases h
      rw [if_pos hzero]
    case isFalse hzero =>
      rw [if_neg hzero]
      exact steady_digits _ _ _ h hne tail

theorem steady_scanFraction : Steady Literal.scanFraction := by
  intro cs ds rest h hne tail
  cases cs with
  | nil =>
    cases h
    exact absurd rfl hne
  | cons c cs =>
    rw [List.cons_append, scanFraction_cons]
    rw [scanFraction_cons] at h
    split at h
    case isTrue hpoint =>
      rw [if_pos hpoint]
      exact steady_digits _ _ _ h hne tail
    case isFalse hpoint =>
      cases h
      rw [if_neg hpoint]
      rfl

theorem steady_scanInteger : Steady Literal.scanInteger := by
  intro cs e rest h hne tail
  cases cs with
  | nil => cases h
  | cons c cs =>
    rw [List.cons_append, scanInteger_cons]
    rw [scanInteger_cons] at h
    split at h
    case isTrue hplus =>
      obtain ⟨⟨ds, rest⟩, hds, heq⟩ := Option.map_eq_some_iff.mp h
      cases heq
      rw [if_pos hplus, steady_digits _ _ _ hds hne tail]
      rfl
    case isFalse hplus =>
      rw [if_neg hplus]
      split at h
      case isTrue hminus =>
        obtain ⟨⟨ds, rest⟩, hds, heq⟩ := Option.map_eq_some_iff.mp h
        cases heq
        rw [if_pos hminus, steady_digits _ _ _ hds hne tail]
        rfl
      case isFalse hminus =>
        obtain ⟨⟨ds, rest⟩, hds, heq⟩ := Option.map_eq_some_iff.mp h
        cases heq
        rw [if_neg hminus, ← List.cons_append, steady_digits _ _ _ hds hne tail]
        rfl

theorem steady_scanExponent : Steady Literal.scanExponent := by
  intro cs e rest h hne tail
  cases cs with
  | nil =>
    cases h
    exact absurd rfl hne
  | cons c cs =>
    rw [List.cons_append, scanExponent_cons]
    rw [scanExponent_cons] at h
    split at h
    case isTrue he =>
      obtain ⟨⟨e, rest⟩, hinteger, heq⟩ := Option.map_eq_some_iff.mp h
      cases heq
      rw [if_pos he, steady_scanInteger _ _ _ hinteger hne tail]
      rfl
    case isFalse he =>
      cases h
      rw [if_neg he]
      rfl

theorem steady_scan : Steady Literal.scan := by
  intro cs l rest h hne tail
  have hsign : ∀ cs ds rest, Literal.scanWhole (Literal.scanSign cs).2 = some (ds, rest) →
      Literal.scanSign (cs ++ tail) = ((Literal.scanSign cs).1, (Literal.scanSign cs).2 ++ tail) := by
    intro cs ds rest h
    cases cs with
    | nil => cases h
    | cons c cs =>
      rw [List.cons_append, scanSign_cons, scanSign_cons]
      split <;> rfl
  obtain ⟨⟨whole, afterWhole⟩, hw, h⟩ := Option.bind_eq_some_iff.mp h
  obtain ⟨⟨fraction, afterFraction⟩, hf, h⟩ := Option.bind_eq_some_iff.mp h
  obtain ⟨⟨exponent, afterExponent⟩, he, heq⟩ := Option.map_eq_some_iff.mp h
  cases heq
  have hfraction := shrinks_scanExponent.ne_nil he hne
  have hwhole := shrinks_scanFraction.ne_nil hf hfraction
  rw [Literal.scan, hsign _ _ _ hw]
  dsimp only
  rw [steady_scanWhole _ _ _ hw hwhole tail, Option.bind_some]
  dsimp only
  rw [steady_scanFraction _ _ _ hf hfraction tail, Option.bind_some]
  dsimp only
  rw [steady_scanExponent _ _ _ he hne tail]
  rfl

-- ---------------------------------------------------------------------------
-- Strings and sequences
-- ---------------------------------------------------------------------------

theorem firm_stringBody : Firm stringBody := by
  intro cs s rest h tail
  induction cs using stringBody.induct generalizing s rest with
  | case1 => cases h
  | case2 =>
    cases h
    rfl
  | case3 a b c d cs ih =>
    rw [stringBody] at h
    obtain ⟨u, hu, h⟩ := Option.bind_eq_some_iff.mp h
    obtain ⟨⟨s, rest⟩, hs, heq⟩ := Option.map_eq_some_iff.mp h
    cases heq
    simp only [List.cons_append, stringBody]
    rw [hu, Option.bind_some, ih _ _ hs]
    rfl
  | case4 c cs hunicode ih =>
    rw [stringBody] at h
    · obtain ⟨u, hu, h⟩ := Option.bind_eq_some_iff.mp h
      obtain ⟨⟨s, rest⟩, hs, heq⟩ := Option.map_eq_some_iff.mp h
      cases heq
      have hne : c ≠ 'u' := by
        rintro rfl
        cases hu
      rw [List.cons_append, List.cons_append, stringBody_simpleEscape hu hne, ih _ _ hs]
      rfl
    · assumption
  | case5 c cs hquote hunicode hescape hplain =>
    rw [stringBody, if_pos hplain] at h
    · cases h
    all_goals assumption
  | case6 c cs hquote hunicode hescape hplain ih =>
    rw [stringBody, if_neg hplain] at h
    · obtain ⟨⟨s, rest⟩, hs, heq⟩ := Option.map_eq_some_iff.mp h
      cases heq
      rw [not_or] at hplain
      rw [List.cons_append, stringBody_plain hplain.1 hquote hplain.2, ih _ _ hs]
      rfl
    all_goals assumption

section
variable {α : Type} {item : List Char → Option (α × List Char)} {close : Char}

theorem firm_separated (h : Steady item) (fuel : Nat) : Firm (separated item close fuel) := by
  induction fuel with
  | zero =>
    intro cs as rest hs
    cases hs
  | succ fuel ih =>
    intro cs as rest hs tail
    rw [separated] at hs ⊢
    obtain ⟨⟨a, after⟩, ha, hs⟩ := Option.bind_eq_some_iff.mp hs
    dsimp only at hs
    cases hskip : skipSpace after with
    | nil =>
      rw [hskip] at hs
      cases hs
    | cons c after' =>
      have hafter : skipSpace after ≠ [] := by simp [hskip]
      have hne : after ≠ [] := by
        rintro rfl
        exact hafter rfl
      rw [hskip] at hs
      rw [h _ _ _ ha hne tail, Option.bind_some]
      dsimp only at hs ⊢
      rw [skipSpace_append_of_ne_nil hafter, hskip, List.cons_append]
      dsimp only
      split at hs
      case isTrue hclose =>
        cases hs
        rw [if_pos hclose]
      case isFalse hclose =>
        rw [if_neg hclose]
        split at hs
        case isTrue hcomma =>
          obtain ⟨⟨as, rest⟩, has, heq⟩ := Option.map_eq_some_iff.mp hs
          cases heq
          rw [if_pos hcomma, ih _ _ _ has tail]
          rfl
        case isFalse => cases hs

theorem firm_enclosed (h : Steady item) (fuel : Nat) : Firm (enclosed item close fuel) := by
  intro cs as rest hs tail
  rw [enclosed] at hs ⊢
  cases hskip : skipSpace cs with
  | nil =>
    rw [hskip] at hs
    cases hs
  | cons c cs' =>
    have hne : skipSpace cs ≠ [] := by simp [hskip]
    rw [hskip] at hs
    rw [skipSpace_append_of_ne_nil hne, hskip, List.cons_append]
    dsimp only at hs ⊢
    split at hs
    case isTrue hclose =>
      cases hs
      rw [if_pos hclose]
    case isFalse hclose =>
      rw [if_neg hclose, ← List.cons_append, firm_separated h fuel _ _ _ hs tail]

theorem steady_member (h : Steady item) : Steady (member item) := by
  intro cs e rest hm hne tail
  unfold member at hm
  split at hm
  case h_1 body heq =>
    obtain ⟨⟨key, after⟩, hkey, hm⟩ := Option.bind_eq_some_iff.mp hm
    dsimp only at hm
    split at hm
    case h_1 text hcolon =>
      obtain ⟨⟨a, rest⟩, ha, heq'⟩ := Option.map_eq_some_iff.mp hm
      cases heq'
      have hspace : skipSpace cs ≠ [] := by simp [heq]
      have hspace' : skipSpace after ≠ [] := by simp [hcolon]
      rw [member, skipSpace_append_of_ne_nil hspace, heq, List.cons_append]
      simp only [firm_stringBody _ _ _ hkey tail, Option.bind_some, skipSpace_append_of_ne_nil hspace', hcolon,
        List.cons_append, h _ _ _ ha hne tail, Option.map_some]
    case h_2 => cases hm
  case h_2 => cases hm

end

-- ---------------------------------------------------------------------------
-- Values
-- ---------------------------------------------------------------------------

theorem scan_head {c : Char} {cs : List Char} (hminus : c ≠ '-') (hdigit : c.isDigit = false) :
    Literal.scan (c :: cs) = none := by
  have hzero : c ≠ '0' := by
    rintro rfl
    cases hdigit
  have hdigits : Literal.digits (c :: cs) = none := by
    rw [Literal.digits, List.takeWhile_cons_of_neg (by simp [hdigit])]
    rfl
  rw [Literal.scan, scanSign_cons, if_neg hminus, scanWhole_cons, if_neg hzero, hdigits]
  rfl

theorem skipSpace_ne_nil {fuel : Nat} {cs rest : List Char} {v : JsValue}
    (h : value fuel cs = some (v, rest)) : skipSpace cs ≠ [] := by
  intro hnil
  cases fuel with
  | zero => cases h
  | succ fuel =>
    rw [value, hnil] at h
    cases h

theorem value_of_scan {cs rest : List Char} {l : Literal} (fuel : Nat)
    (h : Literal.scan (skipSpace cs) = some (l, rest)) :
    value (fuel + 1) cs = some (.number (Binary64.read l), rest) := by
  cases hskip : skipSpace cs with
  | nil =>
    rw [hskip] at h
    cases h
  | cons c text =>
    rw [hskip] at h
    have hspace : isSpace c = false := by
      have hhead := List.head?_dropWhile_not isSpace cs
      rw [← skipSpace, hskip] at hhead
      simpa using hhead
    have hother : c ∉ ['n', 't', 'f', '"', '[', '\x7b'] := by
      intro hmem
      have hnone : Literal.scan (c :: text) = none := by
        simp only [List.mem_cons, List.not_mem_nil, or_false] at hmem
        rcases hmem with rfl | rfl | rfl | rfl | rfl | rfl <;>
          exact scan_head (by decide) (by decide)
      rw [hnone] at h
      cases h
    have hvalue : value (fuel + 1) cs = value (fuel + 1) (c :: text) := by
      rw [value, value, hskip, skipSpace_cons hspace]
    rw [hvalue, value_number hspace hother, h]
    rfl

/-- The text of a value that was read is read in front of more, up to the same place. -/
theorem value_append {fuel : Nat} {cs rest : List Char} {v : JsValue}
    (h : value fuel cs = some (v, rest)) (hends : rest ≠ [] ∨ ∃ es, v = .object es)
    (tail : List Char) : value fuel (cs ++ tail) = some (v, rest ++ tail) := by
  induction fuel generalizing cs v rest tail with
  | zero => cases h
  | succ fuel ih =>
    have hsteady : Steady (value fuel) := fun cs v rest h hne tail => ih h (.inl hne) tail
    have hne := skipSpace_ne_nil h
    rw [value] at h
    split at h
    case h_1 heq =>
      cases h
      rw [value, skipSpace_append_of_ne_nil hne, heq]
      rfl
    case h_2 heq =>
      cases h
      rw [value, skipSpace_append_of_ne_nil hne, heq]
      rfl
    case h_3 heq =>
      cases h
      rw [value, skipSpace_append_of_ne_nil hne, heq]
      rfl
    case h_4 body heq =>
      obtain ⟨⟨s, rest⟩, hs, heq'⟩ := Option.map_eq_some_iff.mp h
      cases heq'
      rw [value, skipSpace_append_of_ne_nil hne, heq]
      simp only [List.cons_append, firm_stringBody _ _ _ hs tail, Option.map_some]
    case h_5 body heq =>
      obtain ⟨⟨vs, rest⟩, hvs, heq'⟩ := Option.map_eq_some_iff.mp h
      cases heq'
      rw [value, skipSpace_append_of_ne_nil hne, heq]
      simp only [List.cons_append, firm_enclosed hsteady fuel _ _ _ hvs tail, Option.map_some]
    case h_6 body heq =>
      obtain ⟨⟨es, rest⟩, hes, heq'⟩ := Option.map_eq_some_iff.mp h
      cases heq'
      rw [value, skipSpace_append_of_ne_nil hne, heq]
      simp only [List.cons_append, firm_enclosed (steady_member hsteady) fuel _ _ _ hes tail,
        Option.map_some]
    case h_7 text _ _ _ _ _ _ =>
      obtain ⟨⟨l, rest⟩, hl, heq'⟩ := Option.map_eq_some_iff.mp h
      cases heq'
      have hrest : rest ≠ [] := by
        rcases hends with hrest | ⟨es, hes⟩
        · exact hrest
        · cases hes
      refine value_of_scan fuel ?_
      rw [skipSpace_append_of_ne_nil hne]
      exact steady_scan _ _ _ hl hrest tail

theorem object_iff_brace {fuel : Nat} {cs rest : List Char} {v : JsValue}
    (h : value fuel cs = some (v, rest)) :
    (∃ es, v = .object es) ↔ (skipSpace cs).head? = some '\x7b' := by
  cases fuel with
  | zero => cases h
  | succ fuel =>
    rw [value] at h
    split at h
    case h_6 body heq =>
      obtain ⟨⟨es, rest⟩, hes, heq'⟩ := Option.map_eq_some_iff.mp h
      cases heq'
      simp [heq]
    case h_7 hobject =>
      obtain ⟨⟨l, rest⟩, hl, heq'⟩ := Option.map_eq_some_iff.mp h
      cases heq'
      refine ⟨by simp, fun hhead => ?_⟩
      obtain ⟨text, htext⟩ := List.head?_eq_some_iff.mp hhead
      exact (hobject text htext).elim
    case h_4 body heq =>
      obtain ⟨⟨s, rest⟩, hs, heq'⟩ := Option.map_eq_some_iff.mp h
      cases heq'
      simp [heq]
    case h_5 body heq =>
      obtain ⟨⟨vs, rest⟩, hvs, heq'⟩ := Option.map_eq_some_iff.mp h
      cases heq'
      simp [heq]
    all_goals
      rename_i heq
      cases h
      simp [heq]

-- ---------------------------------------------------------------------------
-- Texts
-- ---------------------------------------------------------------------------

section
variable {text u v ws : List Char} {w : JsValue} {es : List (JsString × JsValue)}

theorem skipSpace_eq_nil : skipSpace ws = [] ↔ ∀ c ∈ ws, isSpace c :=
  List.dropWhile_eq_nil_iff

theorem parse_iff {fuel : Nat} (hfuel : text.length < fuel) :
    parse text = some w ↔ ∃ rest, value fuel text = some (w, rest) ∧ skipSpace rest = [] := by
  rw [parse_of_fuel hfuel, Option.bind_eq_some_iff]
  constructor
  · rintro ⟨⟨v, rest⟩, hvalue, h⟩
    dsimp only at h
    split at h
    case isTrue hrest =>
      cases h
      exact ⟨rest, hvalue, hrest⟩
    case isFalse => cases h
  · rintro ⟨rest, hvalue, hrest⟩
    exact ⟨(w, rest), hvalue, if_pos hrest⟩

theorem parse_space (h : ∀ c ∈ ws, isSpace c) : parse ws = none := by
  cases hparse : parse ws with
  | none => rfl
  | some w =>
    obtain ⟨rest, hvalue, _⟩ := (parse_iff (Nat.lt_succ_self _)).mp hparse
    exact absurd (skipSpace_eq_nil.mpr h) (skipSpace_ne_nil hvalue)

theorem parse_append_space (h : parse text = some (.object es)) (hws : ∀ c ∈ ws, isSpace c) :
    parse (text ++ ws) = some (.object es) := by
  have hfuel : text.length < (text ++ ws).length + 1 := by
    rw [List.length_append]
    omega
  obtain ⟨rest, hvalue, hrest⟩ := (parse_iff hfuel).mp h
  refine (parse_iff (Nat.lt_succ_self _)).mpr ⟨rest ++ ws, value_append hvalue (.inr ⟨es, rfl⟩) ws, ?_⟩
  rw [skipSpace_eq_nil] at hrest ⊢
  exact List.forall_mem_append.mpr ⟨hrest, hws⟩

/-- Where the front of an object's text is JSON, it is that object, and what is left out is white
space. -/
theorem parse_prefix (hu : parse u = some w) (h : parse (u ++ v) = some (.object es)) :
    w = .object es ∧ ∀ c ∈ v, isSpace c := by
  have hfuel : u.length < (u ++ v).length + 1 := by
    rw [List.length_append]
    omega
  obtain ⟨rest, hvalue, hrest⟩ := (parse_iff hfuel).mp hu
  obtain ⟨rest', hvalue', hrest'⟩ := (parse_iff (Nat.lt_succ_self _)).mp h
  have hne := skipSpace_ne_nil hvalue
  have hobject : ∃ es, w = .object es := by
    have hbrace := (object_iff_brace hvalue').mp ⟨es, rfl⟩
    rw [skipSpace_append_of_ne_nil hne, List.head?_append_of_ne_nil _ hne] at hbrace
    exact (object_iff_brace hvalue).mpr hbrace
  have happend := value_append hvalue (.inr hobject) v
  rw [hvalue'] at happend
  cases happend
  rw [skipSpace_eq_nil, List.forall_mem_append] at hrest'
  exact ⟨rfl, hrest'.2⟩

theorem parse_object_head (h : parse text = some (.object es)) :
    ∃ c cs, text = c :: cs ∧ (isSpace c ∨ c = '\x7b') := by
  obtain ⟨rest, hvalue, _⟩ := (parse_iff (Nat.lt_succ_self _)).mp h
  have hbrace := (object_iff_brace hvalue).mp ⟨es, rfl⟩
  cases text with
  | nil => cases hbrace
  | cons c cs =>
    refine ⟨c, cs, rfl, ?_⟩
    cases hspace : isSpace c with
    | true => exact .inl rfl
    | false =>
      rw [skipSpace_cons hspace] at hbrace
      exact .inr (Option.some.inj hbrace)

end

end ClaudeCluster.Lib.Json
