import ClaudeCluster.Lib.Json

/-!
# JSON.parse

A parser for the grammar of JSON, white space and every escape included. It
recurses on fuel, and the length of the text is enough (`parse_of_fuel`).

What `stringify` writes is parsed as a value that is written the same
(`parse_stringify`). It is another value: `undefined` and the numbers that are
not finite have become `null`, dates strings, and properties without a text are
gone.
-/

namespace ClaudeCluster.Lib.Json

-- ---------------------------------------------------------------------------
-- The parser
-- ---------------------------------------------------------------------------

def isSpace (c : Char) : Bool := c = ' ' || c = '\t' || c = '\n' || c = '\r'

def skipSpace (cs : List Char) : List Char := cs.dropWhile isSpace

def hexValue? (c : Char) : Option Nat :=
  if '0' ≤ c ∧ c ≤ '9' then some (c.toNat - '0'.toNat)
  else if 'a' ≤ c ∧ c ≤ 'f' then some (c.toNat - 'a'.toNat + 10)
  else if 'A' ≤ c ∧ c ≤ 'F' then some (c.toNat - 'A'.toNat + 10)
  else none

/-- The code unit after `\\u`. -/
def hexUnit? (a b c d : Char) : Option UInt16 :=
  (hexValue? a).bind fun a => (hexValue? b).bind fun b => (hexValue? c).bind fun c =>
    (hexValue? d).map fun d => .ofNat (((a * 16 + b) * 16 + c) * 16 + d)

def simpleEscape? : Char → Option Char
  | '"' => some '"'
  | '\\' => some '\\'
  | '/' => some '/'
  | 'b' => some (.ofNat 0x08)
  | 'f' => some (.ofNat 0x0c)
  | 'n' => some '\n'
  | 'r' => some '\r'
  | 't' => some '\t'
  | _ => none

def stringBody : List Char → Option (JsString × List Char)
  | [] => none
  | '"' :: rest => some ([], rest)
  | '\\' :: 'u' :: a :: b :: c :: d :: rest =>
    (hexUnit? a b c d).bind fun u => (stringBody rest).map fun (s, rest) => (u :: s, rest)
  | '\\' :: c :: rest =>
    (simpleEscape? c).bind fun c =>
      (stringBody rest).map fun (s, rest) => (Utf16.units c ++ s, rest)
  | c :: rest =>
    if c.toNat < 0x20 ∨ c = '\\' then none
    else (stringBody rest).map fun (s, rest) => (Utf16.units c ++ s, rest)

section
variable {α : Type}

/-- One or more items with commas in between, up to the closing bracket. -/
def separated (item : List Char → Option (α × List Char)) (close : Char) :
    Nat → List Char → Option (List α × List Char)
  | 0, _ => none
  | fuel + 1, cs =>
    (item cs).bind fun (a, rest) =>
      match skipSpace rest with
      | [] => none
      | c :: rest =>
        if c = close then some ([a], rest)
        else if c = ',' then
          (separated item close fuel rest).map fun (as, rest) => (a :: as, rest)
        else none

def enclosed (item : List Char → Option (α × List Char)) (close : Char) (fuel : Nat)
    (cs : List Char) : Option (List α × List Char) :=
  match skipSpace cs with
  | [] => none
  | c :: rest => if c = close then some ([], rest) else separated item close fuel (c :: rest)

def member (value : List Char → Option (α × List Char)) (cs : List Char) :
    Option ((JsString × α) × List Char) :=
  match skipSpace cs with
  | '"' :: rest =>
    (stringBody rest).bind fun (key, rest) =>
      match skipSpace rest with
      | ':' :: rest => (value rest).map fun (a, rest) => ((key, a), rest)
      | _ => none
  | _ => none

end

def value : Nat → List Char → Option (JsValue × List Char)
  | 0, _ => none
  | fuel + 1, cs =>
    match skipSpace cs with
    | 'n' :: 'u' :: 'l' :: 'l' :: rest => some (.null, rest)
    | 't' :: 'r' :: 'u' :: 'e' :: rest => some (.bool true, rest)
    | 'f' :: 'a' :: 'l' :: 's' :: 'e' :: rest => some (.bool false, rest)
    | '"' :: rest => (stringBody rest).map fun (s, rest) => (.string s, rest)
    | '[' :: rest => (enclosed (value fuel) ']' fuel rest).map fun (vs, rest) => (.array vs, rest)
    | '\x7b' :: rest =>
      (enclosed (member (value fuel)) '\x7d' fuel rest).map fun (es, rest) => (.object es, rest)
    | cs => (Literal.scan cs).map fun (l, rest) => (.number (Binary64.read l), rest)

/-- `JSON.parse(text)`; `none` where it throws. -/
def parse (text : List Char) : Option JsValue :=
  (value (text.length + 1) text).bind fun (v, rest) =>
    if skipSpace rest = [] then some v else none

-- ---------------------------------------------------------------------------
-- Strings
-- ---------------------------------------------------------------------------

theorem hexValue?_digitChar : ∀ d < 16, hexValue? (Nat.digitChar d) = some d := by decide

section
variable {tail rest : List Char}

theorem stringBody_unicodeEscape (n : Nat) (h : n < 2 ^ 16) :
    stringBody (unicodeEscape n ++ tail) =
      (stringBody tail).map fun (s, rest) => (.ofNat n :: s, rest) := by
  have hvalue : ((n / 0x1000 % 16 * 16 + n / 0x100 % 16) * 16 + n / 16 % 16) * 16 + n % 16 = n := by
    omega
  have hdigit := fun k => hexValue?_digitChar (k % 16) (Nat.mod_lt _ (by omega))
  simp only [unicodeEscape, hex4, List.cons_append, List.nil_append, stringBody, hexUnit?, hdigit,
    Option.bind_some, Option.map_some, hvalue]

theorem stringBody_simpleEscape {c d : Char} (h : simpleEscape? d = some c) (hu : d ≠ 'u') :
    stringBody ('\\' :: d :: tail) =
      (stringBody tail).map fun (s, rest) => (Utf16.units c ++ s, rest) := by
  rw [stringBody]
  · rw [h, Option.bind_some]
  · exact fun _ _ _ _ _ heq _ => hu heq

theorem stringBody_plain {c : Char} (hspace : ¬c.toNat < 0x20) (hquote : c ≠ '"')
    (hslash : c ≠ '\\') :
    stringBody (c :: tail) =
      (stringBody tail).map fun (s, rest) => (Utf16.units c ++ s, rest) := by
  rw [stringBody]
  · simp [hspace, hslash]
  · exact hquote
  · exact fun _ _ _ _ _ heq _ => hslash heq
  · exact fun _ _ heq _ => hslash heq

theorem stringBody_escape (p : Utf16.Point) :
    stringBody (escape p ++ tail) =
      (stringBody tail).map fun (s, rest) => (p.units ++ s, rest) := by
  cases p with
  | lone surrogate =>
    rw [escape, stringBody_unicodeEscape _ surrogate.toNat_lt, UInt16.ofNat_toNat]
    rfl
  | char c =>
    have hsimple : ∀ n d, c.toNat = n → simpleEscape? d = some (.ofNat n) → d ≠ 'u' →
        stringBody (['\\', d] ++ tail) =
          (stringBody tail).map fun (s, rest) => (Utf16.units c ++ s, rest) := by
      rintro n d rfl h hu
      rw [Char.ofNat_toNat] at h
      exact stringBody_simpleEscape h hu
    simp only [escape, Utf16.Point.units]
    split
    case h_1 hn => exact hsimple _ _ hn rfl (by decide)
    case h_2 hn => exact hsimple _ _ hn rfl (by decide)
    case h_3 hn => exact hsimple _ _ hn rfl (by decide)
    case h_4 hn => exact hsimple _ _ hn rfl (by decide)
    case h_5 hn => exact hsimple _ _ hn rfl (by decide)
    case h_6 hn => exact hsimple _ _ hn rfl (by decide)
    case h_7 hn => exact hsimple _ _ hn rfl (by decide)
    case h_8 hquote hslash =>
      split
      case isTrue hlow =>
        have hunits : Utf16.units c = [.ofNat c.toNat] := if_pos (by omega)
        rw [stringBody_unicodeEscape _ (by omega), hunits]
        rfl
      case isFalse hspace =>
        refine stringBody_plain hspace ?_ ?_
        · rintro rfl
          exact hquote rfl
        · rintro rfl
          exact hslash rfl

theorem stringBody_points (ps : List Utf16.Point) (rest : List Char) :
    stringBody (ps.flatMap escape ++ '"' :: rest) =
      some (ps.flatMap Utf16.Point.units, rest) := by
  induction ps with
  | nil => rfl
  | cons p ps ih =>
    rw [List.flatMap_cons, List.append_assoc, stringBody_escape, ih]
    rfl

theorem stringBody_quote (s : JsString) (rest : List Char) :
    quote s ++ rest = '"' :: (quote s ++ rest).tail ∧
      stringBody (quote s ++ rest).tail = some (s, rest) := by
  refine ⟨rfl, ?_⟩
  have h := stringBody_points (Utf16.points s) rest
  rw [Utf16.flatMap_points] at h
  simpa [quote] using h

end

-- ---------------------------------------------------------------------------
-- Sequences
-- ---------------------------------------------------------------------------

def Starts (close : Char) (text : List Char) : Prop :=
  ∃ c cs, text = c :: cs ∧ isSpace c = false ∧ c ≠ close

section
variable {α : Type} {close : Char} {text rest : List Char}

theorem skipSpace_cons {c : Char} (h : isSpace c = false) : skipSpace (c :: rest) = c :: rest := by
  simp [skipSpace, h]

theorem ends_cons {c : Char} (h : c.isDigit = false ∧ c ≠ '.' ∧ c ≠ 'e' ∧ c ≠ 'E') :
    Literal.Ends (c :: rest) := by
  intro x hx
  cases hx
  exact h

structure Closes (close : Char) : Prop where
  space : isSpace close = false
  comma : close ≠ ','
  ends : ∀ rest, Literal.Ends (close :: rest)

theorem closes_array : Closes ']' := ⟨by decide, by decide, fun _ => ends_cons (by decide)⟩

theorem closes_object : Closes '\x7d' := ⟨by decide, by decide, fun _ => ends_cons (by decide)⟩

def Reads (item : List Char → Option (α × List Char)) (pieces : List (List Char × α)) : Prop :=
  ∀ p ∈ pieces, ∀ rest, Literal.Ends rest → item (p.1 ++ rest) = some (p.2, rest)

variable {item : List Char → Option (α × List Char)} {pieces : List (List Char × α)} {fuel : Nat}

/-- White space in front of the bracket makes no difference. -/
theorem ends_space {ws : List Char} (hclose : Closes close) (hws : ∀ c ∈ ws, isSpace c) :
    Literal.Ends (ws ++ close :: rest) ∧ skipSpace (ws ++ close :: rest) = close :: rest := by
  refine ⟨?_, by rw [skipSpace, List.dropWhile_append_of_pos hws]; exact skipSpace_cons hclose.space⟩
  cases ws with
  | nil => exact hclose.ends rest
  | cons c ws =>
    have hspace := hws c List.mem_cons_self
    simp only [isSpace, Bool.or_eq_true, decide_eq_true_eq] at hspace
    rcases hspace with ((rfl | rfl) | rfl) | rfl <;> exact ends_cons (by decide)

theorem separated_intercalate (hclose : Closes close) (hne : pieces ≠ [])
    (hreads : Reads item pieces) (hfuel : pieces.length ≤ fuel) {ws : List Char}
    (hws : ∀ c ∈ ws, isSpace c) (rest : List Char) :
    separated item close fuel
        ([','].intercalate (pieces.map Prod.fst) ++ (ws ++ close :: rest)) =
      some (pieces.map Prod.snd, rest) := by
  induction pieces generalizing fuel with
  | nil => exact absurd rfl hne
  | cons p ps ih =>
    obtain ⟨fuel, rfl⟩ := Nat.exists_eq_add_of_lt (show 0 < fuel by simp at hfuel; omega)
    rw [Nat.zero_add, separated]
    have hp := hreads p List.mem_cons_self
    cases ps with
    | nil =>
      obtain ⟨hends, hskip⟩ := @ends_space close rest ws hclose hws
      simp [hp _ hends, hskip]
    | cons q qs =>
      have hcomma : isSpace ',' = false := by decide
      have hcount : (q :: qs).length ≤ fuel := by simpa using hfuel
      have hrest := ih (by simp) (fun x hx => hreads x (List.mem_cons_of_mem _ hx)) hcount
      rw [List.map_cons, List.map_cons, List.intercalate_cons_cons, ← List.map_cons,
        List.append_assoc, List.append_assoc, List.singleton_append,
        hp _ (ends_cons (by decide)), Option.bind_some]
      simp only [skipSpace_cons hcomma, hclose.comma.symm, if_false, if_true]
      rw [hrest]
      rfl

theorem enclosed_intercalate (hclose : Closes close) (hreads : Reads item pieces)
    (hstarts : ∀ p ∈ pieces, Starts close p.1) (hfuel : pieces.length ≤ fuel) :
    enclosed item close fuel ([','].intercalate (pieces.map Prod.fst) ++ close :: rest) =
      some (pieces.map Prod.snd, rest) := by
  cases pieces with
  | nil => simp [enclosed, skipSpace_cons hclose.space]
  | cons p ps =>
    have hsep := separated_intercalate hclose (List.cons_ne_nil p ps) hreads hfuel
      (List.forall_mem_nil _) rest
    obtain ⟨c, cs, hcs, hspace, hne⟩ := hstarts p List.mem_cons_self
    obtain ⟨tail, htail⟩ : ∃ tail, [','].intercalate ((p :: ps).map Prod.fst) ++ close :: rest =
        c :: tail := by
      cases ps with
      | nil => exact ⟨cs ++ close :: rest, by simp [hcs]⟩
      | cons q qs =>
        refine ⟨cs ++ ([','] ++ [','].intercalate ((q :: qs).map Prod.fst)) ++ close :: rest, ?_⟩
        simp [List.intercalate_cons_cons, hcs]
    rw [List.nil_append, htail] at hsep
    rw [htail, enclosed, skipSpace_cons hspace]
    simp only [hne, if_false]
    exact hsep

end

theorem length_intercalate (texts : List (List Char)) :
    texts.length ≤ ([','].intercalate texts).length + 1 ∧
      ∀ t ∈ texts, t.length ≤ ([','].intercalate texts).length := by
  induction texts with
  | nil => simp
  | cons t ts ih =>
    cases ts with
    | nil => simp
    | cons u us =>
      have hlength : ([','].intercalate (t :: u :: us)).length =
          t.length + (1 + ([','].intercalate (u :: us)).length) := by
        rw [List.intercalate_cons_cons, List.append_assoc]
        simp only [List.length_append, List.length_singleton]
      rw [hlength]
      refine ⟨?_, fun x hx => ?_⟩
      · have hcount := ih.1
        rw [List.length_cons]
        omega
      · rcases List.mem_cons.mp hx with rfl | hx
        · omega
        · have := ih.2 x hx
          omega

-- ---------------------------------------------------------------------------
-- Round trip
-- ---------------------------------------------------------------------------

structure Written (text : List Char) (v : JsValue) : Prop where
  starts : Starts ']' text
  stringify : stringify v = some text
  value : ∀ fuel rest, text.length < fuel → Literal.Ends rest →
    value fuel (text ++ rest) = some (v, rest)

theorem written_null : Written nullText .null where
  starts := ⟨'n', ['u', 'l', 'l'], rfl, by decide, by decide⟩
  stringify := rfl
  value fuel rest hfuel _ := by
    obtain ⟨fuel, rfl⟩ := Nat.exists_eq_add_of_lt hfuel
    rfl

theorem written_true : Written ['t', 'r', 'u', 'e'] (.bool true) where
  starts := ⟨'t', ['r', 'u', 'e'], rfl, by decide, by decide⟩
  stringify := rfl
  value fuel rest hfuel _ := by
    obtain ⟨fuel, rfl⟩ := Nat.exists_eq_add_of_lt hfuel
    rfl

theorem written_false : Written ['f', 'a', 'l', 's', 'e'] (.bool false) where
  starts := ⟨'f', ['a', 'l', 's', 'e'], rfl, by decide, by decide⟩
  stringify := rfl
  value fuel rest hfuel _ := by
    obtain ⟨fuel, rfl⟩ := Nat.exists_eq_add_of_lt hfuel
    rfl

theorem written_string (s : JsString) : Written (quote s) (.string s) where
  starts := ⟨'"', _, rfl, by decide, by decide⟩
  stringify := rfl
  value fuel rest hfuel _ := by
    obtain ⟨fuel, rfl⟩ := Nat.exists_eq_add_of_lt hfuel
    obtain ⟨hhead, hbody⟩ := stringBody_quote s rest
    have hspace : isSpace '"' = false := by decide
    rw [hhead, Json.value, skipSpace_cons hspace]
    simp only [hbody, Option.map_some]

theorem head_text {l : Literal} (h : l.WellFormed) :
    ∃ c cs, l.text = c :: cs ∧ (c = '-' ∨ c.isDigit) := by
  obtain ⟨d, ds, hd⟩ := List.exists_cons_of_ne_nil h.whole_ne_nil
  cases hsign : l.negative with
  | true => exact ⟨'-', _, by simp [Literal.text, hsign]; rfl, .inl rfl⟩
  | false =>
    refine ⟨d, _, by simp [Literal.text, hsign, hd]; rfl, .inr (h.whole_digits d ?_)⟩
    simp [hd]

theorem value_number {c : Char} {cs : List Char} (hspace : isSpace c = false)
    (hc : c ∉ ['n', 't', 'f', '"', '[', '\x7b']) (fuel : Nat) :
    value (fuel + 1) (c :: cs) =
      (Literal.scan (c :: cs)).map fun (l, rest) => (.number (Binary64.read l), rest) := by
  rw [value, skipSpace_cons hspace]
  split <;> simp_all

theorem written_number {x : Binary64.Number} {l : Literal} (h : Binary64.print x = some l) :
    Written l.text (.number (Binary64.read l)) := by
  obtain ⟨c, cs, htext, hc⟩ := head_text (Binary64.print_wellFormed h)
  have hspace : isSpace c = false := by
    rcases hc with rfl | hc
    · decide
    · by_contra hspace
      simp only [isSpace, Bool.not_eq_false, Bool.or_eq_true, decide_eq_true_eq] at hspace
      rcases hspace with ((rfl | rfl) | rfl) | rfl <;> exact absurd hc (by decide)
  have hne : ∀ d ∈ [']', 'n', 't', 'f', '"', '[', '\x7b'], c ≠ d := by
    rintro d hd rfl
    rcases hc with rfl | hc
    · exact absurd hd (by decide)
    · simp only [List.mem_cons, List.not_mem_nil, or_false] at hd
      rcases hd with rfl | rfl | rfl | rfl | rfl | rfl | rfl <;> exact absurd hc (by decide)
  have hother : c ∉ ['n', 't', 'f', '"', '[', '\x7b'] :=
    fun hmem => hne c (List.mem_cons_of_mem _ hmem) rfl
  refine ⟨⟨c, cs, htext, hspace, hne _ List.mem_cons_self⟩, ?_, fun fuel rest hfuel hrest => ?_⟩
  · rw [stringify, numberText, Binary64.print_read h]
  · obtain ⟨fuel, rfl⟩ := Nat.exists_eq_add_of_lt hfuel
    have hscan := Literal.scan_text (Binary64.print_wellFormed h) hrest
    rw [htext, List.cons_append] at hscan ⊢
    rw [value_number hspace hother, hscan, Option.map_some]

theorem elementTexts_eq {pieces : List (List Char × JsValue)}
    (h : ∀ p ∈ pieces, Written p.1 p.2) :
    elementTexts (pieces.map Prod.snd) = pieces.map Prod.fst := by
  induction pieces with
  | nil => rfl
  | cons p ps ih =>
    rw [List.map_cons, List.map_cons, elementTexts, (h p List.mem_cons_self).stringify,
      Option.getD_some, ih fun x hx => h x (List.mem_cons_of_mem _ hx)]

/-- Pieces in brackets, where the fuel is enough for each of them. -/
theorem enclosed_enclose {α : Type} {item : List Char → Option (α × List Char)} {close : Char}
    {pieces : List (List Char × α)} {fuel : Nat} (opening : Char) (hclose : Closes close)
    (hfuel : (enclose opening close (pieces.map Prod.fst)).length ≤ fuel)
    (hreads : ∀ p ∈ pieces, p.1.length < fuel → ∀ rest, Literal.Ends rest →
      item (p.1 ++ rest) = some (p.2, rest))
    (hstarts : ∀ p ∈ pieces, Starts close p.1) (rest : List Char) :
    enclosed item close fuel (enclose opening close (pieces.map Prod.fst) ++ rest).tail =
      some (pieces.map Prod.snd, rest) := by
  obtain ⟨hcount, hlength⟩ := length_intercalate (pieces.map Prod.fst)
  rw [List.length_map] at hcount
  have htail : (enclose opening close (pieces.map Prod.fst) ++ rest).tail =
      [','].intercalate (pieces.map Prod.fst) ++ close :: rest := by
    simp [enclose]
  simp only [enclose, List.length_cons, List.length_append] at hfuel
  rw [htail]
  refine enclosed_intercalate hclose (fun p hp => hreads p hp ?_) hstarts (by omega)
  have := hlength p.1 (List.mem_map_of_mem hp)
  omega

theorem written_array {pieces : List (List Char × JsValue)} (h : ∀ p ∈ pieces, Written p.1 p.2) :
    Written (enclose '[' ']' (pieces.map Prod.fst)) (.array (pieces.map Prod.snd)) := by
  refine ⟨⟨'[', _, rfl, by decide, by decide⟩, ?_, fun fuel rest hfuel _ => ?_⟩
  · rw [stringify, elementTexts_eq h]
  · cases fuel with
    | zero => exact absurd hfuel (Nat.not_lt_zero _)
    | succ fuel =>
      have henclosed := enclosed_enclose '[' closes_array (Nat.lt_succ_iff.mp hfuel)
        (fun p hp hlength rest hrest => (h p hp).value _ rest hlength hrest)
        (fun p hp => (h p hp).starts) rest
      have htext : enclose '[' ']' (pieces.map Prod.fst) ++ rest =
          '[' :: (enclose '[' ']' (pieces.map Prod.fst) ++ rest).tail := rfl
      have hspace : isSpace '[' = false := by decide
      rw [htext, value, skipSpace_cons hspace]
      simp only [henclosed, Option.map_some]

structure Member where
  key : JsString
  text : List Char
  value : JsValue

namespace Member

def line (m : Member) : List Char := quote m.key ++ ':' :: m.text

def property (m : Member) : JsString × JsValue := (m.key, m.value)

end Member

theorem member_line {m : Member} {fuel : Nat} {rest : List Char} (h : Written m.text m.value)
    (hfuel : m.text.length < fuel) (hrest : Literal.Ends rest) :
    member (value fuel) (m.line ++ rest) = some (m.property, rest) := by
  obtain ⟨hhead, hbody⟩ := stringBody_quote m.key (':' :: (m.text ++ rest))
  have hquote : isSpace '"' = false := by decide
  have hcolon : isSpace ':' = false := by decide
  have hline : m.line ++ rest = quote m.key ++ (':' :: (m.text ++ rest)) := by simp [Member.line]
  rw [hline, hhead, member, skipSpace_cons hquote]
  simp only [hbody, Option.bind_some, skipSpace_cons hcolon,
    h.value fuel rest hfuel hrest, Option.map_some]
  rfl

section
variable {ms : List Member}

theorem memberTexts_eq (h : ∀ m ∈ ms, Written m.text m.value) :
    memberTexts (assignmentTexts (ms.map Member.property)) = ms.map Member.line := by
  induction ms with
  | nil => rfl
  | cons m ms ih =>
    have hrest := ih fun x hx => h x (List.mem_cons_of_mem _ hx)
    rw [memberTexts] at hrest ⊢
    simp only [List.map_cons, Member.property, assignmentTexts, List.filterMap_cons,
      (h m List.mem_cons_self).stringify, Option.map_some]
    rw [← hrest]
    rfl

theorem assignmentTexts_keys (assignments : List (JsString × JsValue)) :
    (assignmentTexts assignments).map Prod.fst = assignments.map Prod.fst := by
  induction assignments with
  | nil => rfl
  | cons e es ih => rw [assignmentTexts, List.map_cons, List.map_cons, ih]

theorem written_object (h : ∀ m ∈ ms, Written m.text m.value)
    (hkeys : (ms.map Member.key).Pairwise Before) :
    Written (enclose '\x7b' '\x7d' (ms.map Member.line)) (.object (ms.map Member.property)) := by
  refine ⟨⟨'\x7b', _, rfl, by decide, by decide⟩, ?_, fun fuel rest hfuel _ => ?_⟩
  · have hordered : ((assignmentTexts (ms.map Member.property)).map Prod.fst).Pairwise Before := by
      rw [assignmentTexts_keys, List.map_map]
      exact hkeys
    rw [stringify, properties_of_ordered hordered, memberTexts_eq h]
  · obtain ⟨pieces, hpieces⟩ : ∃ pieces, pieces = ms.map fun m => (m.line, m.property) := ⟨_, rfl⟩
    have hlines : ms.map Member.line = pieces.map Prod.fst := by
      rw [hpieces, List.map_map]
      rfl
    have hproperties : ms.map Member.property = pieces.map Prod.snd := by
      rw [hpieces, List.map_map]
      rfl
    have hmember : ∀ p ∈ pieces, ∃ m ∈ ms, (m.line, m.property) = p :=
      fun p hp => List.mem_map.mp (hpieces ▸ hp)
    rw [hlines] at hfuel ⊢
    rw [hproperties]
    cases fuel with
    | zero => exact absurd hfuel (Nat.not_lt_zero _)
    | succ fuel =>
      have henclosed : enclosed (member (value fuel)) '\x7d' fuel
          (enclose '\x7b' '\x7d' (pieces.map Prod.fst) ++ rest).tail =
            some (pieces.map Prod.snd, rest) := by
        refine enclosed_enclose '\x7b' closes_object (Nat.lt_succ_iff.mp hfuel) ?_ ?_ rest
        · intro p hp hlength rest hrest
          obtain ⟨m, hm, rfl⟩ := hmember p hp
          refine member_line (h m hm) ?_ hrest
          simp only [Member.line, List.length_append, List.length_cons] at hlength
          omega
        · intro p hp
          obtain ⟨m, _, rfl⟩ := hmember p hp
          exact ⟨'"', _, rfl, by decide, by decide⟩
      have htext : enclose '\x7b' '\x7d' (pieces.map Prod.fst) ++ rest =
          '\x7b' :: (enclose '\x7b' '\x7d' (pieces.map Prod.fst) ++ rest).tail := rfl
      have hspace : isSpace '\x7b' = false := by decide
      rw [htext, value, skipSpace_cons hspace]
      simp only [henclosed, Option.map_some]

end

theorem exists_pieces {texts : List (List Char)} (h : ∀ t ∈ texts, ∃ w, Written t w) :
    ∃ pieces : List (List Char × JsValue),
      pieces.map Prod.fst = texts ∧ ∀ p ∈ pieces, Written p.1 p.2 := by
  induction texts with
  | nil => exact ⟨[], rfl, by simp⟩
  | cons t ts ih =>
    obtain ⟨w, hw⟩ := h t List.mem_cons_self
    obtain ⟨pieces, rfl, hpieces⟩ := ih fun x hx => h x (List.mem_cons_of_mem _ hx)
    exact ⟨(t, w) :: pieces, rfl, List.forall_mem_cons.mpr ⟨hw, hpieces⟩⟩

theorem exists_members {properties : List (JsString × Option (List Char))}
    (h : ∀ p ∈ properties, ∀ t ∈ p.2, ∃ w, Written t w) :
    ∃ ms : List Member, ms.map Member.line = memberTexts properties ∧
      (∀ m ∈ ms, Written m.text m.value) ∧
      (ms.map Member.key).Sublist (properties.map Prod.fst) := by
  induction properties with
  | nil => exact ⟨[], rfl, by simp, .slnil⟩
  | cons p ps ih =>
    obtain ⟨ms, hlines, hms, hkeys⟩ := ih fun x hx => h x (List.mem_cons_of_mem _ hx)
    obtain ⟨key, text⟩ := p
    cases text with
    | none => exact ⟨ms, hlines, hms, hkeys.cons key⟩
    | some text =>
      obtain ⟨w, hw⟩ := h (key, some text) List.mem_cons_self text rfl
      refine ⟨⟨key, text, w⟩ :: ms, ?_, List.forall_mem_cons.mpr ⟨hw, hms⟩, hkeys.cons_cons key⟩
      rw [List.map_cons, hlines]
      rfl

mutual

/-- What `stringify` writes is the text of the value it is parsed as. -/
theorem written_stringify (v : JsValue) (t : List Char) (h : stringify v = some t) :
    ∃ w, Written t w := by
  cases v with
  | undefined => cases h
  | null =>
    cases h
    exact ⟨.null, written_null⟩
  | bool b =>
    cases b with
    | true =>
      cases h
      exact ⟨.bool true, written_true⟩
    | false =>
      cases h
      exact ⟨.bool false, written_false⟩
  | number x =>
    obtain rfl : numberText x = t := Option.some.inj h
    unfold numberText
    split
    case h_1 l hprint => exact ⟨_, written_number hprint⟩
    case h_2 => exact ⟨.null, written_null⟩
  | string s =>
    cases h
    exact ⟨.string s, written_string s⟩
  | date iso =>
    cases iso with
    | none =>
      cases h
      exact ⟨.null, written_null⟩
    | some iso =>
      cases h
      exact ⟨.string iso, written_string iso⟩
  | array elements =>
    cases h
    obtain ⟨pieces, hpieces, hwritten⟩ := exists_pieces (written_elementTexts elements)
    rw [← hpieces]
    exact ⟨_, written_array hwritten⟩
  | object assignments =>
    cases h
    obtain ⟨ms, hlines, hwritten, hkeys⟩ := exists_members
      fun p hp t ht => written_assignmentTexts assignments p (mem_properties hp) t ht
    rw [← hlines]
    exact ⟨_, written_object hwritten ((properties_ordered _).sublist hkeys)⟩

theorem written_elementTexts (elements : List JsValue) :
    ∀ t ∈ elementTexts elements, ∃ w, Written t w := by
  cases elements with
  | nil => simp [elementTexts]
  | cons element elements =>
    rw [elementTexts]
    refine List.forall_mem_cons.mpr ⟨?_, written_elementTexts elements⟩
    cases h : stringify element with
    | none => exact ⟨.null, written_null⟩
    | some t => exact written_stringify element t h

theorem written_assignmentTexts (assignments : List (JsString × JsValue)) :
    ∀ p ∈ assignmentTexts assignments, ∀ t ∈ p.2, ∃ w, Written t w := by
  cases assignments with
  | nil => simp [assignmentTexts]
  | cons e es =>
    obtain ⟨key, v⟩ := e
    rw [assignmentTexts]
    exact List.forall_mem_cons.mpr
      ⟨fun t ht => written_stringify v t ht, written_assignmentTexts es⟩

end

theorem Written.parse {t : List Char} {v : JsValue} (h : Written t v) : parse t = some v := by
  have hends : Literal.Ends [] := by
    intro c hc
    cases hc
  have hvalue := h.value _ [] (Nat.lt_succ_self _) hends
  rw [List.append_nil] at hvalue
  rw [Json.parse, hvalue]
  rfl

/-- What was written is parsed, and the value is written the same. -/
theorem parse_stringify {v : JsValue} {t : List Char} (h : stringify v = some t) :
    ∃ w, parse t = some w ∧ stringify w = some t := by
  obtain ⟨w, hw⟩ := written_stringify v t h
  exact ⟨w, hw.parse, hw.stringify⟩

-- ---------------------------------------------------------------------------
-- Fuel
-- ---------------------------------------------------------------------------

/-- What a parser leaves is no longer than the text. -/
def Shrinks {α : Type} (item : List Char → Option (α × List Char)) : Prop :=
  ∀ cs a rest, item cs = some (a, rest) → rest.length ≤ cs.length

theorem length_skipSpace (cs : List Char) : (skipSpace cs).length ≤ cs.length :=
  (List.dropWhile_sublist _).length_le

theorem shrinks_digits : Shrinks Literal.digits := by
  intro cs ds rest h
  unfold Literal.digits at h
  split at h
  · cases h
  · cases h
    exact (List.dropWhile_sublist _).length_le

theorem shrinks_scanWhole : Shrinks Literal.scanWhole := by
  intro cs ds rest h
  unfold Literal.scanWhole at h
  split at h
  · cases h
    simp
  · exact shrinks_digits _ _ _ h

theorem shrinks_scanFraction : Shrinks Literal.scanFraction := by
  intro cs ds rest h
  unfold Literal.scanFraction at h
  split at h
  · exact (shrinks_digits _ _ _ h).trans (Nat.le_succ _)
  · cases h
    exact le_rfl

theorem shrinks_scanInteger : Shrinks Literal.scanInteger := by
  intro cs e rest h
  unfold Literal.scanInteger at h
  split at h
  all_goals
    obtain ⟨⟨ds, rest⟩, hds, heq⟩ := Option.map_eq_some_iff.mp h
    cases heq
    exact (shrinks_digits _ _ _ hds).trans (by simp)

theorem shrinks_scanExponent : Shrinks Literal.scanExponent := by
  intro cs e rest h
  unfold Literal.scanExponent at h
  split at h
  case h_3 =>
    cases h
    exact le_rfl
  all_goals
    obtain ⟨⟨e, rest⟩, he, heq⟩ := Option.map_eq_some_iff.mp h
    cases heq
    exact (shrinks_scanInteger _ _ _ he).trans (Nat.le_succ _)

theorem shrinks_scan : Shrinks Literal.scan := by
  have hsign : ∀ cs, (Literal.scanSign cs).2.length ≤ cs.length := by
    intro cs
    unfold Literal.scanSign
    split <;> simp
  intro cs l rest h
  obtain ⟨⟨whole, afterWhole⟩, hw, h⟩ := Option.bind_eq_some_iff.mp h
  obtain ⟨⟨fraction, afterFraction⟩, hf, h⟩ := Option.bind_eq_some_iff.mp h
  obtain ⟨⟨exponent, afterExponent⟩, he, heq⟩ := Option.map_eq_some_iff.mp h
  cases heq
  exact (shrinks_scanExponent _ _ _ he).trans ((shrinks_scanFraction _ _ _ hf).trans
    ((shrinks_scanWhole _ _ _ hw).trans (hsign cs)))

theorem shrinks_stringBody : Shrinks stringBody := by
  intro cs s rest h
  induction cs using stringBody.induct generalizing s rest with
  | case1 => cases h
  | case2 =>
    cases h
    simp
  | case3 a b c d cs ih =>
    rw [stringBody] at h
    obtain ⟨u, _, h⟩ := Option.bind_eq_some_iff.mp h
    obtain ⟨⟨s, rest⟩, hs, heq⟩ := Option.map_eq_some_iff.mp h
    cases heq
    have := ih _ _ hs
    simp only [List.length_cons]
    omega
  | case4 c cs _ ih =>
    rw [stringBody] at h
    · obtain ⟨u, _, h⟩ := Option.bind_eq_some_iff.mp h
      obtain ⟨⟨s, rest⟩, hs, heq⟩ := Option.map_eq_some_iff.mp h
      cases heq
      have := ih _ _ hs
      simp only [List.length_cons]
      omega
    · assumption
  | case5 c cs =>
    rw [stringBody] at h
    · simp_all
    all_goals assumption
  | case6 c cs _ _ _ hplain ih =>
    rw [stringBody] at h
    · rw [if_neg hplain] at h
      obtain ⟨⟨s, rest⟩, hs, heq⟩ := Option.map_eq_some_iff.mp h
      cases heq
      exact (ih _ _ hs).trans (Nat.le_succ _)
    all_goals assumption

section
variable {α : Type} {item item' : List Char → Option (α × List Char)} {close : Char}

theorem shrinks_separated (h : Shrinks item) (fuel : Nat) : Shrinks (separated item close fuel) := by
  induction fuel with
  | zero =>
    intro cs as rest hs
    cases hs
  | succ fuel ih =>
    intro cs as rest hs
    obtain ⟨⟨a, after⟩, ha, hs⟩ := Option.bind_eq_some_iff.mp hs
    have hitem := h _ _ _ ha
    have hspace := length_skipSpace after
    dsimp only at hs
    split at hs
    case h_1 => cases hs
    case h_2 c tail heq =>
      rw [heq, List.length_cons] at hspace
      split at hs
      · cases hs
        omega
      · split at hs
        · obtain ⟨⟨as, rest⟩, has, heq⟩ := Option.map_eq_some_iff.mp hs
          cases heq
          have := ih _ _ _ has
          dsimp only
          omega
        · cases hs

theorem shrinks_enclosed (h : Shrinks item) (fuel : Nat) : Shrinks (enclosed item close fuel) := by
  intro cs as rest hs
  have hspace := length_skipSpace cs
  unfold enclosed at hs
  split at hs
  case h_1 => cases hs
  case h_2 c tail heq =>
    rw [heq, List.length_cons] at hspace
    split at hs
    · cases hs
      omega
    · have := shrinks_separated h fuel _ _ _ hs
      rw [List.length_cons] at this
      omega

theorem shrinks_member (h : Shrinks item) : Shrinks (member item) := by
  intro cs e rest hm
  have hspace := length_skipSpace cs
  unfold member at hm
  split at hm
  case h_1 tail heq =>
    rw [heq, List.length_cons] at hspace
    obtain ⟨⟨key, after⟩, hkey, hm⟩ := Option.bind_eq_some_iff.mp hm
    have hbody := shrinks_stringBody _ _ _ hkey
    have hcolon := length_skipSpace after
    dsimp only at hm
    split at hm
    case h_1 tail heq =>
      rw [heq, List.length_cons] at hcolon
      obtain ⟨⟨a, rest⟩, ha, heq⟩ := Option.map_eq_some_iff.mp hm
      cases heq
      have := h _ _ _ ha
      dsimp only
      omega
    case h_2 => cases hm
  case h_2 => cases hm

end

theorem shrinks_value (fuel : Nat) : Shrinks (value fuel) := by
  induction fuel with
  | zero =>
    intro cs v rest h
    cases h
  | succ fuel ih =>
    intro cs v rest h
    have hspace := length_skipSpace cs
    rw [value] at h
    split at h
    case h_7 =>
      obtain ⟨⟨l, rest⟩, hl, heq⟩ := Option.map_eq_some_iff.mp h
      cases heq
      exact (shrinks_scan _ _ _ hl).trans hspace
    case h_4 tail heq =>
      rw [heq, List.length_cons] at hspace
      obtain ⟨⟨s, rest⟩, hs, heq⟩ := Option.map_eq_some_iff.mp h
      cases heq
      have := shrinks_stringBody _ _ _ hs
      omega
    case h_5 tail heq =>
      rw [heq, List.length_cons] at hspace
      obtain ⟨⟨vs, rest⟩, hvs, heq⟩ := Option.map_eq_some_iff.mp h
      cases heq
      have := shrinks_enclosed ih fuel _ _ _ hvs
      omega
    case h_6 tail heq =>
      rw [heq, List.length_cons] at hspace
      obtain ⟨⟨es, rest⟩, hes, heq⟩ := Option.map_eq_some_iff.mp h
      cases heq
      have := shrinks_enclosed (shrinks_member ih) fuel _ _ _ hes
      omega
    all_goals
      rename_i heq
      cases h
      rw [heq] at hspace
      simp only [List.length_cons] at hspace
      omega

section
variable {α : Type} {item item' : List Char → Option (α × List Char)} {close : Char}

/-- The parsers do the same on every text that is no longer than `n`. -/
def AgreeTo (n : Nat) (item item' : List Char → Option (α × List Char)) : Prop :=
  ∀ cs, cs.length ≤ n → item cs = item' cs

theorem agree_separated {n : Nat} (hshrinks : Shrinks item) (h : AgreeTo n item item')
    {fuel fuel' : Nat} (hfuel : n < fuel) (hfuel' : n < fuel') :
    AgreeTo n (separated item close fuel) (separated item' close fuel') := by
  induction fuel generalizing n fuel' with
  | zero => omega
  | succ fuel ih =>
    intro cs hcs
    obtain ⟨fuel', rfl⟩ := Nat.exists_eq_add_of_lt (Nat.zero_lt_of_lt hfuel')
    rw [Nat.zero_add, separated, separated, ← h cs hcs]
    cases hitem : item cs with
    | none => rfl
    | some p =>
      obtain ⟨a, after⟩ := p
      have hafter := hshrinks _ _ _ hitem
      have hspace := length_skipSpace after
      rw [Option.bind_some, Option.bind_some]
      dsimp only
      cases hskip : skipSpace after with
      | nil => rfl
      | cons c tail =>
        rw [hskip, List.length_cons] at hspace
        -- the comma has been read, so what is left is shorter
        have hshorter : AgreeTo tail.length item item' := fun cs hcs => h cs (by omega)
        have hrest := ih hshorter (by omega) (show tail.length < fuel' by omega) tail le_rfl
        dsimp only
        rw [hrest]

theorem agree_enclosed {n : Nat} (hshrinks : Shrinks item) (h : AgreeTo n item item')
    {fuel fuel' : Nat} (hfuel : n < fuel) (hfuel' : n < fuel') :
    AgreeTo n (enclosed item close fuel) (enclosed item' close fuel') := by
  intro cs hcs
  have hspace := length_skipSpace cs
  rw [enclosed, enclosed]
  cases hskip : skipSpace cs with
  | nil => rfl
  | cons c tail =>
    rw [hskip] at hspace
    have hrest : separated item close fuel (c :: tail) = separated item' close fuel' (c :: tail) :=
      agree_separated hshrinks h hfuel hfuel' (c :: tail) (hspace.trans hcs)
    dsimp only
    rw [hrest]

theorem agree_member {n : Nat} (h : AgreeTo n item item') :
    AgreeTo n (member item) (member item') := by
  intro cs hcs
  have hspace := length_skipSpace cs
  unfold member
  split
  case h_1 tail heq =>
    rw [heq, List.length_cons] at hspace
    cases hkey : stringBody tail with
    | none => rfl
    | some p =>
      obtain ⟨key, after⟩ := p
      have hbody := shrinks_stringBody _ _ _ hkey
      have hcolon := length_skipSpace after
      rw [Option.bind_some, Option.bind_some]
      dsimp only
      split
      case h_1 tail heq =>
        rw [heq, List.length_cons] at hcolon
        rw [h tail (by omega)]
      case h_2 => rfl
  case h_2 => rfl

end

/-- The length of the text is fuel enough: more makes no difference. -/
theorem agree_value {fuel fuel' n : Nat} (hfuel : n < fuel) (hfuel' : n < fuel') :
    AgreeTo n (value fuel) (value fuel') := by
  induction fuel generalizing fuel' n with
  | zero => omega
  | succ fuel ih =>
    intro cs hcs
    obtain ⟨fuel', rfl⟩ := Nat.exists_eq_add_of_lt (Nat.zero_lt_of_lt hfuel')
    have hspace := length_skipSpace cs
    rw [Nat.zero_add, value, value]
    split
    case h_5 tail heq =>
      rw [heq, List.length_cons] at hspace
      have hvalue : AgreeTo tail.length (value fuel) (value fuel') := ih (by omega) (by omega)
      rw [agree_enclosed (shrinks_value fuel) hvalue (by omega) (show tail.length < fuel' by omega)
        tail le_rfl]
    case h_6 tail heq =>
      rw [heq, List.length_cons] at hspace
      have hvalue : AgreeTo tail.length (value fuel) (value fuel') := ih (by omega) (by omega)
      rw [agree_enclosed (shrinks_member (shrinks_value fuel)) (agree_member hvalue) (by omega)
        (show tail.length < fuel' by omega) tail le_rfl]
    all_goals rfl

theorem parse_of_fuel {text : List Char} {fuel : Nat} (h : text.length < fuel) :
    parse text = (value fuel text).bind fun (v, rest) =>
      if skipSpace rest = [] then some v else none := by
  rw [parse, agree_value (Nat.lt_succ_self text.length) h text le_rfl]

end ClaudeCluster.Lib.Json
