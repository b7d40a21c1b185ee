import ClaudeCluster.Lib.JsonParser

/-!
# JSON.stringify with an indent

`indented` writes every element and every property on a line of its own, and
the text is parsed as what `readBack` says comes back of the value
(`parse_indented`): `undefined` is gone, dates are strings, and the numbers that
are not finite are `null`.
-/

namespace ClaudeCluster.Lib.Json

-- ---------------------------------------------------------------------------
-- Texts
-- ---------------------------------------------------------------------------

def spread (opening closing : Char) (inner outer : List Char) (texts : List (List Char)) :
    List Char :=
  if texts = [] then [opening, closing]
  else
    opening :: ([','].intercalate (texts.map fun text => '\n' :: (inner ++ text)) ++
      '\n' :: (outer ++ [closing]))

def spacedLine (key : JsString) (text : List Char) : List Char := quote key ++ ':' :: ' ' :: text

def present {α β : Type} (f : JsString → α → β) (properties : List (JsString × Option α)) : List β :=
  properties.filterMap fun e => e.2.map (f e.1)

mutual

/-- `JSON.stringify(value, null, gap)`, where `indent` is in front of the line. -/
def indented (gap : List Char) : List Char → JsValue → Option (List Char)
  | indent, .array elements =>
    some (spread '[' ']' (indent ++ gap) indent (indentedElements gap (indent ++ gap) elements))
  | indent, .object assignments =>
    some (spread '\x7b' '\x7d' (indent ++ gap) indent
      (present spacedLine (properties (indentedAssignments gap (indent ++ gap) assignments))))
  | _, .undefined => none
  | _, .null => stringify .null
  | _, .bool b => stringify (.bool b)
  | _, .number x => stringify (.number x)
  | _, .string s => stringify (.string s)
  | _, .date iso => stringify (.date iso)

def indentedElements (gap : List Char) : List Char → List JsValue → List (List Char)
  | _, [] => []
  | indent, element :: elements =>
    (indented gap indent element).getD nullText :: indentedElements gap indent elements

def indentedAssignments (gap : List Char) :
    List Char → List (JsString × JsValue) → List (JsString × Option (List Char))
  | _, [] => []
  | indent, (key, value) :: assignments =>
    (key, indented gap indent value) :: indentedAssignments gap indent assignments

end

mutual

/-- What is left of a value once it is written and read; `none` if it has no text. -/
def readBack : JsValue → Option JsValue
  | .undefined => none
  | .null => some .null
  | .bool b => some (.bool b)
  | .number x =>
    match Binary64.print x with
    | some l => some (.number (Binary64.read l))
    | none => some .null
  | .string s => some (.string s)
  | .date (some iso) => some (.string iso)
  | .date none => some .null
  | .array elements => some (.array (readBackElements elements))
  | .object assignments =>
    some (.object (present Prod.mk (properties (readBackAssignments assignments))))

def readBackElements : List JsValue → List JsValue
  | [] => []
  | element :: elements => (readBack element).getD .null :: readBackElements elements

def readBackAssignments : List (JsString × JsValue) → List (JsString × Option JsValue)
  | [] => []
  | (key, value) :: assignments => (key, readBack value) :: readBackAssignments assignments

end

-- ---------------------------------------------------------------------------
-- Reading
-- ---------------------------------------------------------------------------

/-- The text is read as the value, whatever cannot go on with it follows. -/
structure ReadAs (text : List Char) (v : JsValue) : Prop where
  starts : Starts ']' text
  value : ∀ fuel rest, text.length < fuel → Literal.Ends rest →
    value fuel (text ++ rest) = some (v, rest)

theorem Written.readAs {text : List Char} {v : JsValue} (h : Written text v) : ReadAs text v :=
  ⟨h.starts, h.value⟩

theorem ReadAs.parse {t : List Char} {v : JsValue} (h : ReadAs t v) : parse t = some v := by
  have hends : Literal.Ends [] := by
    intro c hc
    cases hc
  have hvalue := h.value _ [] (Nat.lt_succ_self _) hends
  rw [List.append_nil] at hvalue
  rw [Json.parse, hvalue]
  rfl

def Skips {α : Type} (item : List Char → Option (α × List Char)) : Prop :=
  ∀ cs, item (skipSpace cs) = item cs

theorem skipSpace_skipSpace (cs : List Char) : skipSpace (skipSpace cs) = skipSpace cs := by
  induction cs with
  | nil => rfl
  | cons c cs ih =>
    by_cases h : isSpace c
    · simpa [skipSpace, h] using ih
    · simp [skipSpace, h]

theorem skips_value (fuel : Nat) : Skips (value fuel) := by
  intro cs
  cases fuel with
  | zero => rfl
  | succ fuel => rw [value, value, skipSpace_skipSpace]

theorem skips_member (fuel : Nat) : Skips (member (value fuel)) := by
  intro cs
  rw [member, member, skipSpace_skipSpace]

section
variable {α : Type} {item : List Char → Option (α × List Char)} {close : Char} {fuel : Nat}
  {rest ws : List Char}

theorem separated_skipSpace (h : Skips item) (cs : List Char) :
    separated item close fuel (skipSpace cs) = separated item close fuel cs := by
  cases fuel with
  | zero => rfl
  | succ fuel => rw [separated, separated, h]

theorem skipSpace_append (hws : ∀ c ∈ ws, isSpace c) (cs : List Char) :
    skipSpace (ws ++ cs) = skipSpace cs :=
  List.dropWhile_append_of_pos hws

theorem isSpace_line {indent : List Char} (h : ∀ c ∈ indent, isSpace c) :
    ∀ c ∈ '\n' :: indent, isSpace c :=
  List.forall_mem_cons.mpr ⟨by decide, h⟩

theorem enclosed_spread {pieces : List (List Char × α)} (opening : Char) {inner outer : List Char}
    (hclose : Closes close) (hskips : Skips item) (hinner : ∀ c ∈ inner, isSpace c)
    (houter : ∀ c ∈ outer, isSpace c)
    (hfuel : (spread opening close inner outer (pieces.map Prod.fst)).length ≤ fuel)
    (hreads : ∀ p ∈ pieces, p.1.length < fuel → ∀ rest, Literal.Ends rest →
      item (p.1 ++ rest) = some (p.2, rest))
    (hstarts : ∀ p ∈ pieces, Starts close p.1) (rest : List Char) :
    enclosed item close fuel (spread opening close inner outer (pieces.map Prod.fst) ++ rest).tail =
      some (pieces.map Prod.snd, rest) := by
  cases pieces with
  | nil => simp [spread, enclosed, skipSpace_cons hclose.space]
  | cons p ps =>
    obtain ⟨lines, hlines⟩ : ∃ lines, lines = (p :: ps).map fun p => ('\n' :: (inner ++ p.1), p.2) :=
      ⟨_, rfl⟩
    have hfst : ((p :: ps).map Prod.fst).map (fun text => '\n' :: (inner ++ text)) =
        lines.map Prod.fst := by
      rw [hlines, List.map_map, List.map_map]
      rfl
    have hsnd : lines.map Prod.snd = (p :: ps).map Prod.snd := by
      rw [hlines, List.map_map]
      rfl
    have htail : (spread opening close inner outer ((p :: ps).map Prod.fst) ++ rest).tail =
        [','].intercalate (lines.map Prod.fst) ++ (('\n' :: outer) ++ close :: rest) := by
      rw [spread, if_neg (by simp), hfst]
      simp
    have hlength : (spread opening close inner outer ((p :: ps).map Prod.fst)).length =
        ([','].intercalate (lines.map Prod.fst)).length + outer.length + 3 := by
      rw [spread, if_neg (by simp), hfst]
      simp
      omega
    obtain ⟨hcount, hshort⟩ := length_intercalate (lines.map Prod.fst)
    rw [List.length_map] at hcount
    have hlineReads : Reads item lines := by
      intro line hline rest hrest
      rw [hlines] at hline
      obtain ⟨q, hq, rfl⟩ := List.mem_map.mp hline
      have hle := hshort ('\n' :: (inner ++ q.1))
        (hlines ▸ List.mem_map.mpr ⟨_, hline, rfl⟩)
      rw [List.length_cons, List.length_append] at hle
      have hread := hreads q hq (by omega) rest hrest
      rw [← hskips, ← hread, ← hskips (q.1 ++ rest)]
      exact congrArg item ((congrArg skipSpace (by simp)).trans
        (skipSpace_append (isSpace_line hinner) (q.1 ++ rest)))
    have hsep := separated_intercalate hclose (by simp [hlines]) hlineReads
      (show lines.length ≤ fuel by omega) (isSpace_line houter) rest
    obtain ⟨c, cs, hcs, hspace, hne⟩ := hstarts p List.mem_cons_self
    obtain ⟨tail, hskip⟩ : ∃ tail, skipSpace ([','].intercalate (lines.map Prod.fst) ++
        (('\n' :: outer) ++ close :: rest)) = c :: tail := by
      obtain ⟨more, hmore⟩ : ∃ more, [','].intercalate (lines.map Prod.fst) ++
          (('\n' :: outer) ++ close :: rest) = ('\n' :: inner) ++ (c :: more) := by
        cases ps with
        | nil => exact ⟨_, by simp [hlines, hcs]; rfl⟩
        | cons q qs => exact ⟨_, by simp [hlines, hcs, List.intercalate_cons_cons]; rfl⟩
      exact ⟨more, by rw [hmore, skipSpace_append (isSpace_line hinner), skipSpace_cons hspace]⟩
    rw [← separated_skipSpace hskips, hskip, hsnd] at hsep
    rw [htail, enclosed, hskip]
    simp only [hne, if_false]
    exact hsep

end

theorem member_spacedLine {m : Member} {fuel : Nat} {rest : List Char} (h : ReadAs m.text m.value)
    (hfuel : m.text.length < fuel) (hrest : Literal.Ends rest) :
    member (value fuel) (spacedLine m.key m.text ++ rest) = some (m.property, rest) := by
  obtain ⟨hhead, hbody⟩ := stringBody_quote m.key (':' :: ' ' :: (m.text ++ rest))
  have hquote : isSpace '"' = false := by decide
  have hcolon : isSpace ':' = false := by decide
  have hline : spacedLine m.key m.text ++ rest =
      quote m.key ++ (':' :: ' ' :: (m.text ++ rest)) := by simp [spacedLine]
  have hvalue : value fuel (' ' :: (m.text ++ rest)) = some (m.value, rest) := by
    have hskip : skipSpace (' ' :: (m.text ++ rest)) = skipSpace (m.text ++ rest) := rfl
    rw [← skips_value, hskip, skips_value, h.value fuel rest hfuel hrest]
  rw [hline, hhead, member, skipSpace_cons hquote]
  simp only [hbody, Option.bind_some, skipSpace_cons hcolon, hvalue, Option.map_some]
  rfl

theorem starts_spread (opening close : Char) (hopening : isSpace opening = false ∧ opening ≠ ']')
    (inner outer : List Char) (texts : List (List Char)) :
    Starts ']' (spread opening close inner outer texts) := by
  unfold spread
  split
  · exact ⟨_, _, rfl, hopening⟩
  · exact ⟨_, _, rfl, hopening⟩

section
variable {inner outer : List Char} (hinner : ∀ c ∈ inner, isSpace c)
  (houter : ∀ c ∈ outer, isSpace c)
include hinner houter

theorem readAs_array {pieces : List (List Char × JsValue)} (h : ∀ p ∈ pieces, ReadAs p.1 p.2) :
    ReadAs (spread '[' ']' inner outer (pieces.map Prod.fst)) (.array (pieces.map Prod.snd)) := by
  refine ⟨starts_spread '[' ']' (by decide) _ _ _, fun fuel rest hfuel _ => ?_⟩
  cases fuel with
  | zero => exact absurd hfuel (Nat.not_lt_zero _)
  | succ fuel =>
    have henclosed := enclosed_spread '[' closes_array (skips_value fuel) hinner houter
      (Nat.lt_succ_iff.mp hfuel)
      (fun p hp hlength rest hrest => (h p hp).value _ rest hlength hrest)
      (fun p hp => (h p hp).starts) rest
    have htext : spread '[' ']' inner outer (pieces.map Prod.fst) ++ rest =
        '[' :: (spread '[' ']' inner outer (pieces.map Prod.fst) ++ rest).tail := by
      unfold spread
      split <;> rfl
    have hspace : isSpace '[' = false := by decide
    rw [htext, value, skipSpace_cons hspace]
    simp only [henclosed, Option.map_some]

theorem readAs_object {ms : List Member} (h : ∀ m ∈ ms, ReadAs m.text m.value) :
    ReadAs (spread '\x7b' '\x7d' inner outer (ms.map fun m => spacedLine m.key m.text))
      (.object (ms.map Member.property)) := by
  refine ⟨starts_spread '\x7b' '\x7d' (by decide) _ _ _, fun fuel rest hfuel _ => ?_⟩
  obtain ⟨pieces, hpieces⟩ : ∃ pieces, pieces = ms.map fun m =>
      (spacedLine m.key m.text, m.property) := ⟨_, rfl⟩
  have hlines : ms.map (fun m => spacedLine m.key m.text) = pieces.map Prod.fst := by
    rw [hpieces, List.map_map]
    rfl
  have hproperties : ms.map Member.property = pieces.map Prod.snd := by
    rw [hpieces, List.map_map]
    rfl
  have hmember : ∀ p ∈ pieces, ∃ m ∈ ms, (spacedLine m.key m.text, m.property) = p :=
    fun p hp => List.mem_map.mp (hpieces ▸ hp)
  rw [hlines] at hfuel ⊢
  rw [hproperties]
  cases fuel with
  | zero => exact absurd hfuel (Nat.not_lt_zero _)
  | succ fuel =>
    have henclosed : enclosed (member (value fuel)) '\x7d' fuel
        (spread '\x7b' '\x7d' inner outer (pieces.map Prod.fst) ++ rest).tail =
          some (pieces.map Prod.snd, rest) := by
      refine enclosed_spread '\x7b' closes_object (skips_member fuel) hinner houter
        (Nat.lt_succ_iff.mp hfuel) ?_ ?_ rest
      · intro p hp hlength rest hrest
        obtain ⟨m, hm, rfl⟩ := hmember p hp
        refine member_spacedLine (h m hm) ?_ hrest
        simp only [spacedLine, List.length_append, List.length_cons] at hlength
        omega
      · intro p hp
        obtain ⟨m, _, rfl⟩ := hmember p hp
        exact ⟨'"', _, rfl, by decide, by decide⟩
    have htext : spread '\x7b' '\x7d' inner outer (pieces.map Prod.fst) ++ rest =
        '\x7b' :: (spread '\x7b' '\x7d' inner outer (pieces.map Prod.fst) ++ rest).tail := by
      unfold spread
      split <;> rfl
    have hspace : isSpace '\x7b' = false := by decide
    rw [htext, value, skipSpace_cons hspace]
    simp only [henclosed, Option.map_some]

end

-- ---------------------------------------------------------------------------
-- Round trip
-- ---------------------------------------------------------------------------

def Agree (text : Option (List Char)) (v : Option JsValue) : Prop :=
  ∃ p : Option (List Char × JsValue),
    text = p.map Prod.fst ∧ v = p.map Prod.snd ∧ ∀ q ∈ p, ReadAs q.1 q.2

theorem agree_some {text : List Char} {v : JsValue} (h : ReadAs text v) :
    Agree (some text) (some v) := by
  refine ⟨some (text, v), rfl, rfl, fun q hq => ?_⟩
  cases hq
  exact h

theorem present_members {rows : List (JsString × Option (List Char × JsValue))}
    (h : ∀ r ∈ rows, ∀ q ∈ r.2, ReadAs q.1 q.2) :
    ∃ ms : List Member,
      present spacedLine (rows.map fun r => (r.1, r.2.map Prod.fst)) =
          ms.map (fun m => spacedLine m.key m.text) ∧
        present Prod.mk (rows.map fun r => (r.1, r.2.map Prod.snd)) = ms.map Member.property ∧
        ∀ m ∈ ms, ReadAs m.text m.value := by
  induction rows with
  | nil => exact ⟨[], rfl, rfl, by simp⟩
  | cons r rows ih =>
    obtain ⟨ms, htexts, hvalues, hms⟩ := ih fun x hx => h x (List.mem_cons_of_mem _ hx)
    obtain ⟨key, p⟩ := r
    cases p with
    | none => exact ⟨ms, htexts, hvalues, hms⟩
    | some p =>
      refine ⟨⟨key, p.1, p.2⟩ :: ms, ?_, ?_,
        List.forall_mem_cons.mpr ⟨h _ List.mem_cons_self p rfl, hms⟩⟩
      · exact congrArg (spacedLine key p.1 :: ·) htexts
      · exact congrArg ((key, p.2) :: ·) hvalues

mutual

theorem agree_indented {gap indent : List Char} (hgap : ∀ c ∈ gap, isSpace c)
    (hindent : ∀ c ∈ indent, isSpace c) (v : JsValue) :
    Agree (indented gap indent v) (readBack v) := by
  have hinner : ∀ c ∈ indent ++ gap, isSpace c := List.forall_mem_append.mpr ⟨hindent, hgap⟩
  cases v with
  | undefined => exact ⟨none, rfl, rfl, by simp⟩
  | null => exact agree_some written_null.readAs
  | bool b =>
    cases b with
    | true => exact agree_some written_true.readAs
    | false => exact agree_some written_false.readAs
  | number x =>
    rw [indented, stringify, readBack, numberText]
    cases hprint : Binary64.print x with
    | none => exact agree_some written_null.readAs
    | some l => exact agree_some (written_number hprint).readAs
  | string s => exact agree_some (written_string s).readAs
  | date iso =>
    cases iso with
    | none => exact agree_some written_null.readAs
    | some iso => exact agree_some (written_string iso).readAs
  | array elements =>
    obtain ⟨pieces, htexts, hvalues, hpieces⟩ := agree_elements hgap hinner elements
    rw [indented, readBack, htexts, hvalues]
    exact agree_some (readAs_array hinner hindent hpieces)
  | object assignments =>
    obtain ⟨rows, htexts, hvalues, hrows⟩ := agree_assignments hgap hinner assignments
    rw [indented, readBack, htexts, hvalues, properties_map (Option.map Prod.fst),
      properties_map (Option.map Prod.snd)]
    obtain ⟨ms, htexts, hvalues, hms⟩ := present_members fun r hr => hrows r (mem_properties hr)
    rw [htexts, hvalues]
    exact agree_some (readAs_object hinner hindent hms)

theorem agree_elements {gap indent : List Char} (hgap : ∀ c ∈ gap, isSpace c)
    (hindent : ∀ c ∈ indent, isSpace c) (elements : List JsValue) :
    ∃ pieces : List (List Char × JsValue),
      indentedElements gap indent elements = pieces.map Prod.fst ∧
        readBackElements elements = pieces.map Prod.snd ∧ ∀ p ∈ pieces, ReadAs p.1 p.2 := by
  cases elements with
  | nil => exact ⟨[], rfl, rfl, by simp⟩
  | cons element elements =>
    obtain ⟨p, htext, hvalue, hp⟩ := agree_indented hgap hindent element
    obtain ⟨pieces, htexts, hvalues, hpieces⟩ := agree_elements hgap hindent elements
    rw [indentedElements, readBackElements, htext, hvalue, htexts, hvalues]
    cases p with
    | none =>
      exact ⟨(nullText, .null) :: pieces, rfl, rfl,
        List.forall_mem_cons.mpr ⟨written_null.readAs, hpieces⟩⟩
    | some p => exact ⟨p :: pieces, rfl, rfl, List.forall_mem_cons.mpr ⟨hp p rfl, hpieces⟩⟩

theorem agree_assignments {gap indent : List Char} (hgap : ∀ c ∈ gap, isSpace c)
    (hindent : ∀ c ∈ indent, isSpace c) (assignments : List (JsString × JsValue)) :
    ∃ rows : List (JsString × Option (List Char × JsValue)),
      indentedAssignments gap indent assignments = rows.map (fun r => (r.1, r.2.map Prod.fst)) ∧
        readBackAssignments assignments = rows.map (fun r => (r.1, r.2.map Prod.snd)) ∧
        ∀ r ∈ rows, ∀ q ∈ r.2, ReadAs q.1 q.2 := by
  cases assignments with
  | nil => exact ⟨[], rfl, rfl, by simp⟩
  | cons e assignments =>
    obtain ⟨key, v⟩ := e
    obtain ⟨p, htext, hvalue, hp⟩ := agree_indented hgap hindent v
    obtain ⟨rows, htexts, hvalues, hrows⟩ := agree_assignments hgap hindent assignments
    rw [indentedAssignments, readBackAssignments, htext, hvalue, htexts, hvalues]
    exact ⟨(key, p) :: rows, rfl, rfl, List.forall_mem_cons.mpr ⟨hp, hrows⟩⟩

end

/-- What was written is parsed as what comes back. -/
theorem parse_indented {gap t : List Char} {v : JsValue} (hgap : ∀ c ∈ gap, isSpace c)
    (h : indented gap [] v = some t) : ∃ w, readBack v = some w ∧ parse t = some w := by
  obtain ⟨p, htext, hvalue, hp⟩ := agree_indented hgap (List.forall_mem_nil _) v
  rw [h] at htext
  obtain ⟨q, rfl, rfl⟩ := Option.map_eq_some_iff.mp htext.symm
  exact ⟨q.2, hvalue, (hp q rfl).parse⟩

-- ---------------------------------------------------------------------------
-- Properties that come back
-- ---------------------------------------------------------------------------

theorem readBackAssignments_eq (assignments : List (JsString × JsValue)) :
    readBackAssignments assignments = assignments.map fun e => (e.1, readBack e.2) := by
  induction assignments with
  | nil => rfl
  | cons e es ih => rw [readBackAssignments, ih, List.map_cons]

theorem present_keys {α : Type} (es : List (JsString × Option α)) :
    ((present Prod.mk es).map Prod.fst).Sublist (es.map Prod.fst) := by
  induction es with
  | nil => exact .slnil
  | cons e es ih =>
    obtain ⟨key, a⟩ := e
    cases a with
    | none => exact ih.cons key
    | some a => exact ih.cons_cons key

theorem mem_present {α : Type} {es : List (JsString × Option α)} {key : JsString} {a : α} :
    (key, a) ∈ present Prod.mk es ↔ (key, some a) ∈ es := by
  simp only [present, List.mem_filterMap, Option.map_eq_some_iff, Prod.mk.injEq]
  constructor
  · rintro ⟨⟨k, o⟩, hmem, b, rfl, rfl, rfl⟩
    exact hmem
  · intro hmem
    exact ⟨_, hmem, a, rfl, rfl, rfl⟩

/-- A property that comes back is the last that was assigned, as it comes back. -/
theorem mem_readBack {assignments : List (JsString × JsValue)} {key : JsString} {w : JsValue} :
    (key, w) ∈ present Prod.mk (properties (readBackAssignments assignments)) ↔
      (assignments.reverse.lookup key).bind readBack = some w := by
  rw [mem_present, ← lookup_eq_some_iff_mem (properties_keys_nodup _), lookup_properties,
    readBackAssignments_eq, ← List.map_reverse]
  generalize assignments.reverse = es
  induction es with
  | nil => simp
  | cons e es ih =>
    rw [List.map_cons, List.lookup_cons, List.lookup_cons]
    by_cases hkey : key = e.1
    · simp [hkey]
    · have hne : (key == e.1) = false := by simpa using hkey
      simpa [hne] using ih

theorem nodup_readBack (assignments : List (JsString × JsValue)) :
    ((present Prod.mk (properties (readBackAssignments assignments))).map Prod.fst).Nodup :=
  (properties_keys_nodup _).sublist (present_keys _)

theorem lookup_readBack (assignments : List (JsString × JsValue)) (key : JsString) :
    (present Prod.mk (properties (readBackAssignments assignments))).lookup key =
      (assignments.reverse.lookup key).bind readBack := by
  refine Option.ext fun w => ?_
  rw [lookup_eq_some_iff_mem (nodup_readBack _), mem_readBack]

theorem properties_readBack (assignments : List (JsString × JsValue)) :
    properties (present Prod.mk (properties (readBackAssignments assignments))) =
      present Prod.mk (properties (readBackAssignments assignments)) :=
  properties_of_ordered ((properties_ordered _).sublist (present_keys _))

end ClaudeCluster.Lib.Json
