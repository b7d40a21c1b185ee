import Mathlib.Data.List.Basic
import ClaudeCluster.Lib.Utf16

/-!
# Reading markup

A reader of HTML without scripts, comments or attributes other than the
`href` of a link. It takes one code unit at a time and fails on a tag that is
not of the dialect, on a closing tag that does not match the innermost open
one, and on a `<`, `>`, `"` or `&` of any other kind. What it gives back is
the source in its order: the text, entities decoded, with the mark of a tag where
the tag stands, and the target of a link after its text.

What one unit can do is told once (`step_iff`). `run` goes through a text by
append (`run_append`), under any open tags (`run_frame`) and in any larger
dialect (`run_mono`), so that a text which is well formed by itself may stand
wherever text may (`Whole.run`).
-/

namespace ClaudeCluster.Lib.Html

def quot : UInt16 := 0x22
def amp : UInt16 := 0x26
def slash : UInt16 := 0x2f
def semi : UInt16 := 0x3b
def lt : UInt16 := 0x3c
def gt : UInt16 := 0x3e

def isLower (u : UInt16) : Bool := 0x61 ≤ u && u ≤ 0x7a

/-- What may stand in a tag: letters, `/`, and the blank and `=` of a link. -/
def isTagUnit (u : UInt16) : Bool := isLower u || u = slash || u = 0x20 || u = 0x3d

def Plain (u : UInt16) : Prop := u ≠ lt ∧ u ≠ amp ∧ u ≠ gt ∧ u ≠ quot

instance (u : UInt16) : Decidable (Plain u) := inferInstanceAs (Decidable (_ ∧ _))

def link : JsString := [0x61]

def anchor : JsString := [0x61, 0x20, 0x68, 0x72, 0x65, 0x66, 0x3d]

def named (name : JsString) : Option UInt16 :=
  if name = [0x61, 0x6d, 0x70] then some amp
  else if name = [0x6c, 0x74] then some lt
  else if name = [0x67, 0x74] then some gt
  else if name = [0x71, 0x75, 0x6f, 0x74] then some quot
  else none

/-- The tags there are, each with its mark, whether there are links, and which
targets they have. `before` and `behind` are the marks of a link. -/
structure Dialect where
  marks : List (JsString × JsString)
  links : Bool
  target : JsString → Bool
  before : JsString
  behind : JsString → JsString

inductive Mode
  | text
  | entity (name : JsString)
  | tag (name : JsString)
  | target (read : JsString)
  | targetEntity (read name : JsString)
  | targetEnd (read : JsString)
  deriving DecidableEq, Repr

/-- The open tags stand innermost first, each with the mark of its end. -/
structure Reader where
  mode : Mode := .text
  stack : List (JsString × JsString) := []
  deriving DecidableEq, Repr

namespace Dialect

def close (d : Dialect) (name : JsString) (stack : List (JsString × JsString)) :
    Option (List (JsString × JsString) × JsString) :=
  match d.marks.lookup name with
  | some mark => some ((name, mark) :: stack, mark)
  | none =>
    match stack with
    | (top, mark) :: stack => if name = slash :: top then some (stack, mark) else none
    | [] => none

def step (d : Dialect) (r : Reader) (u : UInt16) : Option (Reader × JsString) :=
  match r.mode with
  | .text =>
    if u = lt then some (⟨.tag [], r.stack⟩, [])
    else if u = amp then some (⟨.entity [], r.stack⟩, [])
    else if u = gt ∨ u = quot then none
    else some (⟨.text, r.stack⟩, [u])
  | .entity name =>
    if u = semi then (named name).map fun v => (⟨.text, r.stack⟩, [v])
    else if isLower u then some (⟨.entity (name ++ [u]), r.stack⟩, [])
    else none
  | .tag name =>
    if u = gt then (d.close name r.stack).map fun (stack, mark) => (⟨.text, stack⟩, mark)
    else if u = quot then
      if d.links ∧ name = anchor then some (⟨.target [], r.stack⟩, []) else none
    else if isTagUnit u then some (⟨.tag (name ++ [u]), r.stack⟩, [])
    else none
  | .target read =>
    if u = quot then if d.target read then some (⟨.targetEnd read, r.stack⟩, []) else none
    else if u = lt ∨ u = gt then none
    else if u = amp then some (⟨.targetEntity read [], r.stack⟩, [])
    else some (⟨.target (read ++ [u]), r.stack⟩, [])
  | .targetEntity read name =>
    if u = semi then (named name).map fun v => (⟨.target (read ++ [v]), r.stack⟩, [])
    else if isLower u then some (⟨.targetEntity read (name ++ [u]), r.stack⟩, [])
    else none
  | .targetEnd read =>
    if u = gt then some (⟨.text, (link, d.behind read) :: r.stack⟩, d.before) else none

inductive Shift (d : Dialect) : Reader → UInt16 → Reader → JsString → Prop
  | opens {stack} : Shift d ⟨.text, stack⟩ lt ⟨.tag [], stack⟩ []
  | refers {stack} : Shift d ⟨.text, stack⟩ amp ⟨.entity [], stack⟩ []
  | tells {stack u} : Plain u → Shift d ⟨.text, stack⟩ u ⟨.text, stack⟩ [u]
  | names {stack u name} : isLower u = true →
      Shift d ⟨.entity name, stack⟩ u ⟨.entity (name ++ [u]), stack⟩ []
  | entity {stack name v} : named name = some v →
      Shift d ⟨.entity name, stack⟩ semi ⟨.text, stack⟩ [v]
  | tagged {stack u name} : isTagUnit u = true →
      Shift d ⟨.tag name, stack⟩ u ⟨.tag (name ++ [u]), stack⟩ []
  | closes {stack stack' name mark} : d.close name stack = some (stack', mark) →
      Shift d ⟨.tag name, stack⟩ gt ⟨.text, stack'⟩ mark
  | quotes {stack} : d.links = true → Shift d ⟨.tag anchor, stack⟩ quot ⟨.target [], stack⟩ []
  | reads {stack u read} : Plain u →
      Shift d ⟨.target read, stack⟩ u ⟨.target (read ++ [u]), stack⟩ []
  | readsRefers {stack read} :
      Shift d ⟨.target read, stack⟩ amp ⟨.targetEntity read [], stack⟩ []
  | readsNames {stack u read name} : isLower u = true →
      Shift d ⟨.targetEntity read name, stack⟩ u ⟨.targetEntity read (name ++ [u]), stack⟩ []
  | readsEntity {stack read name v} : named name = some v →
      Shift d ⟨.targetEntity read name, stack⟩ semi ⟨.target (read ++ [v]), stack⟩ []
  | unquotes {stack read} : d.target read = true →
      Shift d ⟨.target read, stack⟩ quot ⟨.targetEnd read, stack⟩ []
  | links {stack read} :
      Shift d ⟨.targetEnd read, stack⟩ gt ⟨.text, (link, d.behind read) :: stack⟩ d.before

/-- The reader after a text, and what the text says. -/
def run (d : Dialect) : Reader → JsString → Option (Reader × JsString)
  | r, [] => some (r, [])
  | r, u :: rest =>
    (d.step r u).bind fun (r', said) => (d.run r' rest).map fun (e, more) => (e, said ++ more)

/-- Well formed by itself: from text to text, with every tag closed. -/
def Whole (d : Dialect) (w said : JsString) : Prop := d.run {} w = some ({}, said)

instance (d : Dialect) (w said : JsString) : Decidable (d.Whole w said) :=
  inferInstanceAs (Decidable (_ = _))

section
variable {d d' : Dialect} {r r' e : Reader} {w w' said said' : JsString} {u : UInt16}

-- ---------------------------------------------------------------------------
-- Steps
-- ---------------------------------------------------------------------------

theorem shift_of_step (h : d.step r u = some (e, said)) : d.Shift r u e said := by
  obtain ⟨mode, stack⟩ := r
  cases mode with
  | text =>
    simp only [step] at h
    split at h
    case isTrue hl => cases h; exact hl ▸ .opens
    case isFalse hl =>
      split at h
      case isTrue ha => cases h; exact ha ▸ .refers
      case isFalse ha =>
        split at h <;> cases h
        case isFalse hgq => exact .tells ⟨hl, ha, not_or.mp hgq⟩
  | entity name =>
    simp only [step] at h
    split at h
    case isTrue hs =>
      obtain ⟨v, hv, h⟩ := Option.map_eq_some_iff.mp h
      cases h
      exact hs ▸ .entity hv
    case isFalse =>
      split at h <;> cases h
      case isTrue hu => exact .names hu
  | tag name =>
    simp only [step] at h
    split at h
    case isTrue hg =>
      obtain ⟨⟨stack', mark⟩, hst, h⟩ := Option.map_eq_some_iff.mp h
      cases h
      exact hg ▸ .closes hst
    case isFalse =>
      split at h
      case isTrue hq =>
        split at h <;> cases h
        case isTrue hl => exact hq ▸ hl.2 ▸ .quotes hl.1
      case isFalse =>
        split at h <;> cases h
        case isTrue hu => exact .tagged hu
  | target read =>
    simp only [step] at h
    split at h
    case isTrue hq =>
      split at h <;> cases h
      case isTrue ht => exact hq ▸ .unquotes ht
    case isFalse hq =>
      split at h
      case isTrue => cases h
      case isFalse hlg =>
        obtain ⟨hl, hg⟩ := not_or.mp hlg
        split at h <;> cases h
        case isTrue ha => exact ha ▸ .readsRefers
        case isFalse ha => exact .reads ⟨hl, ha, hg, hq⟩
  | targetEntity read name =>
    simp only [step] at h
    split at h
    case isTrue hs =>
      obtain ⟨v, hv, h⟩ := Option.map_eq_some_iff.mp h
      cases h
      subst hs
      exact .readsEntity hv
    case isFalse =>
      split at h <;> cases h
      case isTrue hu => exact .readsNames hu
  | targetEnd read =>
    simp only [step] at h
    split at h
    case isTrue hg => cases h; exact hg ▸ .links
    case isFalse => cases h

theorem ne_semi_of_isLower (hu : isLower u = true) : u ≠ semi := by
  rintro rfl
  exact absurd hu (by decide)

theorem ne_of_isTagUnit (hu : isTagUnit u = true) : u ≠ gt ∧ u ≠ quot := by
  constructor <;> rintro rfl <;> exact absurd hu (by decide)

theorem step_iff : d.step r u = some (e, said) ↔ d.Shift r u e said := by
  refine ⟨shift_of_step, fun h => ?_⟩
  cases h with
  | opens | refers | readsRefers | links => rfl
  | tells hu | reads hu =>
    obtain ⟨hl, ha, hg, hq⟩ := hu
    simp [step, hl, ha, hg, hq]
  | names hu | readsNames hu => simp [step, ne_semi_of_isLower hu, hu]
  | entity hv | readsEntity hv => simp [step, hv]
  | tagged hu =>
    obtain ⟨hg, hq⟩ := ne_of_isTagUnit hu
    simp [step, hg, hq, hu]
  | closes hc => simp [step, hc]
  | quotes hl => simp [step, hl, quot, gt]
  | unquotes ht => simp [step, ht]

-- ---------------------------------------------------------------------------
-- Runs
-- ---------------------------------------------------------------------------

theorem run_cons {m : Reader} {s t : JsString} (h : d.step r u = some (m, s))
    (h' : d.run m w = some (e, t)) : d.run r (u :: w) = some (e, s ++ t) := by
  simp [run, h, h']

theorem run_cons_eq : d.run r (u :: w) = some (e, said) ↔ ∃ r' s s', d.step r u = some (r', s) ∧
    d.run r' w = some (e, s') ∧ said = s ++ s' := by
  constructor
  · intro h
    obtain ⟨⟨r', s⟩, hs, h⟩ := Option.bind_eq_some_iff.mp h
    obtain ⟨⟨e', s'⟩, hr, h⟩ := Option.map_eq_some_iff.mp h
    cases h
    exact ⟨r', s, s', hs, hr, rfl⟩
  · rintro ⟨r', s, s', hs, hr, rfl⟩
    exact run_cons hs hr

theorem run_append {m : Reader} {s t : JsString} (h : d.run r w = some (m, s))
    (h' : d.run m w' = some (e, t)) : d.run r (w ++ w') = some (e, s ++ t) := by
  induction w generalizing r s with
  | nil =>
    cases h
    exact h'
  | cons u w ih =>
    obtain ⟨r', s1, s2, hs, hr, rfl⟩ := run_cons_eq.mp h
    rw [List.append_assoc]
    exact run_cons hs (ih hr)

theorem run_append_eq : d.run r (w ++ w') = some (e, said) ↔ ∃ r' s s', d.run r w = some (r', s) ∧
    d.run r' w' = some (e, s') ∧ said = s ++ s' := by
  constructor
  · intro h
    induction w generalizing r said with
    | nil => exact ⟨r, [], said, rfl, h, rfl⟩
    | cons u w ih =>
      obtain ⟨m, s, t, hs, hr, rfl⟩ := run_cons_eq.mp h
      obtain ⟨r', s1, s2, h1, h2, rfl⟩ := ih hr
      exact ⟨r', s ++ s1, s2, run_cons hs h1, h2, (List.append_assoc ..).symm⟩
  · rintro ⟨r', s, s', h, h', rfl⟩
    exact run_append h h'

theorem close_frame {name mark : JsString} {stack stack' : List (JsString × JsString)}
    (h : d.close name stack = some (stack', mark)) (below : List (JsString × JsString)) :
    d.close name (stack ++ below) = some (stack' ++ below, mark) := by
  unfold close at h ⊢
  cases hn : d.marks.lookup name with
  | some m =>
    rw [hn] at h
    cases h
    rfl
  | none =>
    rw [hn] at h
    cases stack with
    | nil => cases h
    | cons top stack =>
      obtain ⟨htop, h⟩ := Option.ite_none_right_eq_some.mp h
      cases h
      exact if_pos htop

theorem step_frame (h : d.step r u = some (e, said)) (below : List (JsString × JsString)) :
    d.step ⟨r.mode, r.stack ++ below⟩ u = some (⟨e.mode, e.stack ++ below⟩, said) := by
  rw [step_iff] at h ⊢
  cases h with
  | closes hc => exact .closes (close_frame hc below)
  | _ => constructor <;> assumption

theorem run_frame (h : d.run r w = some (e, said)) (below : List (JsString × JsString)) :
    d.run ⟨r.mode, r.stack ++ below⟩ w = some (⟨e.mode, e.stack ++ below⟩, said) := by
  induction w generalizing r said with
  | nil =>
    cases h
    rfl
  | cons u w ih =>
    obtain ⟨r', s, s', hs, hr, rfl⟩ := run_cons_eq.mp h
    exact run_cons (step_frame hs below) (ih hr)

/-- Whatever is open, a whole text leaves it as it was. -/
theorem Whole.run (h : d.Whole w said) (stack : List (JsString × JsString)) :
    d.run ⟨.text, stack⟩ w = some (⟨.text, stack⟩, said) := run_frame h stack

structure Le (d d' : Dialect) : Prop where
  marks : d'.marks = d.marks
  before : d'.before = d.before
  behind : d'.behind = d.behind
  links : d.links = true → d'.links = true
  target : ∀ read, d.target read = true → d'.target read = true

theorem step_mono (hd : d.Le d') (h : d.step r u = some (e, said)) :
    d'.step r u = some (e, said) := by
  rw [step_iff] at h ⊢
  cases h with
  | closes hc => exact .closes (by unfold close at hc ⊢; rwa [hd.marks])
  | quotes hl => exact .quotes (hd.links hl)
  | unquotes ht => exact .unquotes (hd.target _ ht)
  | links => exact hd.before ▸ hd.behind ▸ .links
  | _ => constructor <;> assumption

theorem run_mono (hd : d.Le d') (h : d.run r w = some (e, said)) :
    d'.run r w = some (e, said) := by
  induction w generalizing r said with
  | nil => exact h
  | cons u w ih =>
    obtain ⟨r', s, s', hs, hr, rfl⟩ := run_cons_eq.mp h
    exact run_cons (step_mono hd hs) (ih hr)

end

end Dialect

-- ---------------------------------------------------------------------------
-- Text
-- ---------------------------------------------------------------------------

/-- A plain unit that stands in no tag and no entity either. -/
def Mark (u : UInt16) : Prop := Plain u ∧ isTagUnit u = false ∧ u ≠ semi

instance (u : UInt16) : Decidable (Mark u) := inferInstanceAs (Decidable (_ ∧ _))

def escapeUnit (u : UInt16) : JsString :=
  if u = amp then [amp, 0x61, 0x6d, 0x70, semi]
  else if u = lt then [amp, 0x6c, 0x74, semi]
  else if u = gt then [amp, 0x67, 0x74, semi]
  else if u = quot then [amp, 0x71, 0x75, 0x6f, 0x74, semi]
  else [u]

def openTag (name : JsString) : JsString := lt :: (name ++ [gt])

def closeTag (name : JsString) : JsString := lt :: slash :: (name ++ [gt])

/-- Not within the opening tag of a link. -/
def Mode.inline : Mode → Bool
  | .text | .entity _ | .tag _ => true
  | .target _ | .targetEntity _ _ | .targetEnd _ => false

namespace Dialect

section
variable {d : Dialect} {r e : Reader} {w said : JsString} {u : UInt16}
  {stack : List (JsString × JsString)}

theorem run_plain (hw : ∀ u ∈ w, Plain u) :
    d.run ⟨.text, stack⟩ w = some (⟨.text, stack⟩, w) := by
  induction w with
  | nil => rfl
  | cons u w ih =>
    obtain ⟨hu, hw⟩ := List.forall_mem_cons.mp hw
    exact run_cons (step_iff.mpr (.tells hu)) (ih hw)

theorem run_escapeUnit (u : UInt16) :
    d.run ⟨.text, stack⟩ (escapeUnit u) = some (⟨.text, stack⟩, [u]) := by
  unfold escapeUnit
  split
  case isTrue h => subst h; rfl
  case isFalse ha =>
    split
    case isTrue h => subst h; rfl
    case isFalse hl =>
      split
      case isTrue h => subst h; rfl
      case isFalse hg =>
        split
        case isTrue h => subst h; rfl
        case isFalse hq => exact run_plain (by simpa using ⟨hl, ha, hg, hq⟩)

theorem run_escape (w : JsString) :
    d.run ⟨.text, stack⟩ (w.flatMap escapeUnit) = some (⟨.text, stack⟩, w) := by
  induction w with
  | nil => rfl
  | cons u w ih => exact run_append (run_escapeUnit u) ih

theorem step_mark (hu : Mark u) (hr : r.mode.inline = true) (h : d.step r u = some (e, said)) :
    r.mode = .text ∧ e = r ∧ said = [u] := by
  obtain ⟨⟨hl, ha, hg, hq⟩, ht, hs⟩ := hu
  cases step_iff.mp h with
  | tells => exact ⟨rfl, rfl, rfl⟩
  | opens => exact absurd rfl hl
  | refers => exact absurd rfl ha
  | names hu => simp [isTagUnit, hu] at ht
  | entity => exact absurd rfl hs
  | tagged hu => cases ht.symm.trans hu
  | closes => exact absurd rfl hg
  | quotes => exact absurd rfl hq
  | reads | readsRefers | readsNames | readsEntity | unquotes | links => cases hr

theorem run_marks (hw : ∀ u ∈ w, Mark u) (hne : w ≠ []) (hr : r.mode.inline = true)
    (h : d.run r w = some (e, said)) : r.mode = .text ∧ e = r ∧ said = w := by
  induction w generalizing said with
  | nil => exact absurd rfl hne
  | cons u w ih =>
    obtain ⟨hu, hw⟩ := List.forall_mem_cons.mp hw
    obtain ⟨r', s, s', hs, hrun, rfl⟩ := run_cons_eq.mp h
    obtain ⟨hm, rfl, rfl⟩ := step_mark hu hr hs
    cases w with
    | nil =>
      cases hrun
      exact ⟨hm, rfl, rfl⟩
    | cons v w =>
      obtain ⟨-, rfl, rfl⟩ := ih hw (List.cons_ne_nil v w) hrun
      exact ⟨hm, rfl, rfl⟩

/-- Without links the reader never gets into the tag of one. -/
theorem step_inline (hd : d.links = false) (hr : r.mode.inline = true)
    (h : d.step r u = some (e, said)) : e.mode.inline = true := by
  cases step_iff.mp h with
  | quotes hl => cases hd.symm.trans hl
  | opens | refers | tells | names | entity | tagged | closes => rfl
  | reads | readsRefers | readsNames | readsEntity | unquotes | links => cases hr

theorem run_inline (hd : d.links = false) (hr : r.mode.inline = true)
    (h : d.run r w = some (e, said)) : e.mode.inline = true := by
  induction w generalizing r said with
  | nil =>
    cases h
    exact hr
  | cons u w ih =>
    obtain ⟨r', s, s', hs, hrun, rfl⟩ := run_cons_eq.mp h
    exact ih (step_inline hd hr hs) hrun

-- ---------------------------------------------------------------------------
-- Elements
-- ---------------------------------------------------------------------------

theorem run_tagUnits {name : JsString} (hw : ∀ u ∈ w, isTagUnit u = true) :
    d.run ⟨.tag name, stack⟩ w = some (⟨.tag (name ++ w), stack⟩, []) := by
  induction w generalizing name with
  | nil => simp [run]
  | cons u w ih =>
    obtain ⟨hu, hw⟩ := List.forall_mem_cons.mp hw
    simpa using run_cons (step_iff.mpr (.tagged hu)) (ih hw)

theorem run_tag {name mark : JsString} {stack' : List (JsString × JsString)}
    (hn : ∀ u ∈ name, isTagUnit u = true) (hc : d.close name stack = some (stack', mark)) :
    d.run ⟨.text, stack⟩ (lt :: (name ++ [gt])) = some (⟨.text, stack'⟩, mark) := by
  have hend : d.run ⟨.tag name, stack⟩ [gt] = some (⟨.text, stack'⟩, mark) := by
    have hclose := run_cons (step_iff.mpr (.closes hc)) (w := []) rfl
    rwa [List.append_nil] at hclose
  have hname : d.run ⟨.tag [], stack⟩ name = some (⟨.tag name, stack⟩, []) := run_tagUnits hn
  exact run_cons (step_iff.mpr .opens) (run_append hname hend)

/-- A name of the dialect that is not mistaken for a closing tag, with its mark. -/
def Name (d : Dialect) (name mark : JsString) : Prop :=
  d.marks.lookup name = some mark ∧ d.marks.lookup (slash :: name) = none ∧
    ∀ u ∈ name, isTagUnit u = true

instance (d : Dialect) (name mark : JsString) : Decidable (d.Name name mark) :=
  decidable_of_iff (d.marks.lookup name = some mark ∧ d.marks.lookup (slash :: name) = none ∧
      name.all isTagUnit = true)
    (by rw [Name, List.all_eq_true])

theorem close_slash {name mark : JsString} (h : d.marks.lookup (slash :: name) = none) :
    d.close (slash :: name) ((name, mark) :: stack) = some (stack, mark) := by
  simp [close, h]

theorem run_element {name mark : JsString} (hn : d.Name name mark) (hw : d.Whole w said) :
    d.run ⟨.text, stack⟩ (openTag name ++ (w ++ closeTag name)) =
      some (⟨.text, stack⟩, mark ++ (said ++ mark)) := by
  obtain ⟨hmem, hslash, hunits⟩ := hn
  have hopen : d.run ⟨.text, stack⟩ (openTag name) = some (⟨.text, (name, mark) :: stack⟩, mark) :=
    run_tag hunits (by simp [close, hmem])
  have hclose : d.run ⟨.text, (name, mark) :: stack⟩ (closeTag name) =
      some (⟨.text, stack⟩, mark) :=
    run_tag (List.forall_mem_cons.mpr ⟨by decide, hunits⟩) (close_slash hslash)
  exact run_append hopen (run_append (hw.run _) hclose)

/-- What is text without a tag may be the target of a link. -/
theorem run_target (hw : lt ∉ w) (st : List (JsString × JsString)) :
    (∀ said read, d.run ⟨.text, st⟩ w = some (⟨.text, st⟩, said) →
      d.run ⟨.target read, stack⟩ w = some (⟨.target (read ++ said), stack⟩, [])) ∧
    ∀ said read name, d.run ⟨.entity name, st⟩ w = some (⟨.text, st⟩, said) →
      d.run ⟨.targetEntity read name, stack⟩ w =
        some (⟨.target (read ++ said), stack⟩, []) := by
  induction w with
  | nil =>
    refine ⟨fun said read h => ?_, fun said read name h => ?_⟩
    · cases h
      simp [run]
    · cases h
  | cons u w ih =>
    obtain ⟨hu, hw⟩ := not_or.mp (List.mem_cons.not.mp hw)
    obtain ⟨iht, ihe⟩ := ih hw
    have hu : u ≠ lt := Ne.symm hu
    refine ⟨fun said read h => ?_, fun said read name h => ?_⟩
    · obtain ⟨r', s, s', hs, hr, rfl⟩ := run_cons_eq.mp h
      cases step_iff.mp hs with
      | opens => exact absurd rfl hu
      | refers => exact run_cons (step_iff.mpr .readsRefers) (ihe s' read [] hr)
      | tells hp =>
        simpa using run_cons (step_iff.mpr (.reads hp)) (iht s' (read ++ [u]) hr)
    · obtain ⟨r', s, s', hs, hr, rfl⟩ := run_cons_eq.mp h
      cases step_iff.mp hs with
      | names hl => exact run_cons (step_iff.mpr (.readsNames hl)) (ihe s' read _ hr)
      | entity hv => simpa using run_cons (step_iff.mpr (.readsEntity hv)) (iht s' _ hr)

/-- `<a href="`, `">` and `</a>` around a target and a text. -/
def linkElement (target text : JsString) : JsString :=
  lt :: (anchor ++ [quot]) ++ (target ++ (quot :: gt :: (text ++ closeTag link)))

theorem run_linkElement {target text saidTarget saidText : JsString} (hl : d.links = true)
    (hname : d.marks.lookup (slash :: link) = none) (htarget : d.Whole target saidTarget)
    (hno : lt ∉ target) (hok : d.target saidTarget = true) (htext : d.Whole text saidText) :
    d.run ⟨.text, stack⟩ (linkElement target text) =
      some (⟨.text, stack⟩, d.before ++ (saidText ++ d.behind saidTarget)) := by
  have hopen : d.run ⟨.text, stack⟩ (lt :: (anchor ++ [quot])) =
      some (⟨.target [], stack⟩, []) := by
    refine run_cons (step_iff.mpr .opens) ?_
    refine run_append (run_tagUnits (List.all_eq_true.mp (by decide))) ?_
    exact run_cons (step_iff.mpr (.quotes hl)) rfl
  have hread : d.run ⟨.target [], stack⟩ target = some (⟨.target saidTarget, stack⟩, []) :=
    (run_target hno []).1 saidTarget [] htarget
  have hend : d.run ⟨.target saidTarget, stack⟩ [quot, gt] =
      some (⟨.text, (link, d.behind saidTarget) :: stack⟩, d.before) := by
    refine run_cons (step_iff.mpr (.unquotes hok)) ?_
    have hgt : d.step ⟨.targetEnd saidTarget, stack⟩ gt =
        some (⟨.text, (link, d.behind saidTarget) :: stack⟩, d.before) := rfl
    have hlinks := run_cons hgt (w := []) rfl
    rwa [List.append_nil] at hlinks
  have hclose : d.run ⟨.text, (link, d.behind saidTarget) :: stack⟩ (closeTag link) =
      some (⟨.text, stack⟩, d.behind saidTarget) :=
    run_tag (List.all_eq_true.mp (by decide)) (close_slash hname)
  have hbody := run_append hend (run_append (htext.run _) hclose)
  simpa [linkElement] using run_append hopen (run_append hread hbody)

theorem run_reads {read : JsString} (hw : ∀ u ∈ w, Plain u) :
    d.run ⟨.target read, stack⟩ w = some (⟨.target (read ++ w), stack⟩, []) := by
  induction w generalizing read with
  | nil => simp [run]
  | cons u w ih =>
    obtain ⟨hu, hw⟩ := List.forall_mem_cons.mp hw
    have hrest : d.run ⟨.target (read ++ [u]), stack⟩ w =
        some (⟨.target (read ++ [u] ++ w), stack⟩, []) := ih hw
    simpa using run_cons (step_iff.mpr (.reads hu)) hrest

/-- From within a target the text is only reached over its end. -/
theorem target_of_run {read : JsString} (he : e.mode = .text)
    (h : d.run ⟨.target read, stack⟩ w = some (e, said)) :
    ∃ more, d.target (read ++ more) = true := by
  suffices hboth : ∀ w : JsString, (∀ read said, d.run ⟨.target read, stack⟩ w = some (e, said) →
      ∃ more, d.target (read ++ more) = true) ∧
      ∀ read name said, d.run ⟨.targetEntity read name, stack⟩ w = some (e, said) →
      ∃ more, d.target (read ++ more) = true from (hboth w).1 read said h
  intro w
  induction w with
  | nil =>
    refine ⟨fun read said h => ?_, fun read name said h => ?_⟩
    · cases h
      cases he
    · cases h
      cases he
  | cons u w ih =>
    obtain ⟨iht, ihe⟩ := ih
    refine ⟨fun read said h => ?_, fun read name said h => ?_⟩
    · obtain ⟨r', s, s', hs, hr, -⟩ := run_cons_eq.mp h
      cases step_iff.mp hs with
      | unquotes ht => exact ⟨[], by rwa [List.append_nil]⟩
      | readsRefers => exact ihe read [] s' hr
      | reads hp =>
        obtain ⟨more, hmore⟩ := iht (read ++ [u]) s' hr
        exact ⟨u :: more, by simpa using hmore⟩
    · obtain ⟨r', s, s', hs, hr, -⟩ := run_cons_eq.mp h
      cases step_iff.mp hs with
      | @readsEntity _ _ _ v hv =>
        obtain ⟨more, hmore⟩ := iht _ s' hr
        exact ⟨v :: more, by simpa using hmore⟩
      | readsNames hl => exact ihe read _ s' hr

end

end Dialect

end ClaudeCluster.Lib.Html
