import Mathlib.Data.Bool.AllAny
import Mathlib.Data.List.Infix
import Mathlib.Data.List.TakeWhile
import ClaudeCluster.Messaging.TelegramHtml

/-!
# When the HTML is well formed

The HTML is read back: with the marker of each tag in its place it has to be the
markdown again. Each pass inserts its tags around what a match captures,
whatever that is. If the captured text is nested by itself in every pass, and
the target of a link is text without tag or placeholder, what is read stays the
same (`run_join`). Placeholders are found in the HTML where they are found in
what it says (`run_replace`), so the code comes back right if these are the
placeholders that were put in.
-/

namespace ClaudeCluster.Messaging.Format

open Lib (JsString Pattern)
open Lib.Html
open Lib.Utf16 (ofText)

-- ---------------------------------------------------------------------------
-- The property
-- ---------------------------------------------------------------------------

def tagB : JsString := [0x62]
def tagI : JsString := [0x69]
def tagS : JsString := [0x73]
def tagCode : JsString := [0x63, 0x6f, 0x64, 0x65]
def tagPre : JsString := [0x70, 0x72, 0x65]

/-- The tags and the markers they stand for; a block has the tags of inline code
as well. -/
def tagMarks : List (JsString × JsString) :=
  [(tagB, [star, star]), (tagI, [star]), (tagS, [tilde, tilde]), (tagCode, [backtick]),
    (tagPre, [backtick, backtick])]

def dialect (links : Bool) (target : JsString → Bool) : Dialect where
  marks := tagMarks
  links
  target
  before := [openBracket]
  behind target := closeBracket :: openParen :: (target ++ [closeParen])

def telegram : Dialect := dialect true fun _ => true

def unlinked : Dialect := dialect false fun _ => false

/-- The markdown with nothing but its code in each block. -/
def trimmed (markdown : JsString) : JsString :=
  blockPattern.replace (fun b => fence ++ (trimEnd b.code ++ fence)) markdown

/-- The HTML is well formed, and with the marker of each tag in its place it is
the markdown. -/
def Proper (markdown html : JsString) : Prop := telegram.Whole html (trimmed markdown)

instance (markdown html : JsString) : Decidable (Proper markdown html) :=
  inferInstanceAs (Decidable (telegram.Whole _ _))

-- ---------------------------------------------------------------------------
-- The condition
-- ---------------------------------------------------------------------------

/-- Every tag that is opened in the text is closed in it. -/
def nested (w : JsString) : Bool := (unlinked.run {} w).any (·.1 = {})

def unplaced (w : JsString) : Bool :=
  w.tails.all fun t =>
    (findPlaceholder inlineLabel t).isNone && (findPlaceholder blockLabel t).isNone

/-- A link that can be made: its target is text, without a placeholder in what
it says. -/
def Link.sound (l : Link) : Bool :=
  nested l.text && lt ∉ l.target &&
    (unlinked.run {} l.target).any fun (e, said) => e = {} && unplaced said

/-- What a match captures is nested, in every pass. -/
structure Nests (text : JsString) : Prop where
  inBoldItalic : ∀ w ∈ boldItalicPattern.found text, nested w
  inBold : ∀ w ∈ boldPattern.found (boldItalic text), nested w
  inItalic : ∀ w ∈ italicPattern.found (bold (boldItalic text)), nested w
  inStrike : ∀ w ∈ strikePattern.found (italic (bold (boldItalic text))), nested w
  inLinks : ∀ l ∈ linkPattern.found (strike (italic (bold (boldItalic text)))), l.sound

/-- The pieces once the matches are placeholders, numbered from `k`. -/
def placed {β : Type} : Nat → List (UInt16 ⊕ β) → List (UInt16 ⊕ JsString)
  | _, [] => []
  | k, .inl u :: ps => .inl u :: placed k ps
  | k, .inr _ :: ps => .inr (decimal k) :: placed (k + 1) ps

/-- The placeholders found are those put in, each where it was put. -/
structure Restores (markdown : JsString) : Prop where
  ofInlines : (placeholderPattern inlineLabel).pieces 0 none (withoutCode markdown) =
    placed 0 (inlinePattern.pieces 0 none (withoutBlocks markdown))
  ofBlocks : (placeholderPattern blockLabel).pieces 0 none (withoutBlocks markdown) =
    placed 0 (blockPattern.pieces 0 none markdown)

structure Clean (markdown : JsString) : Prop where
  nests : Nests (escaped markdown)
  restores : Restores markdown

instance (text : JsString) : Decidable (Nests text) :=
  decidable_of_iff ((∀ w ∈ boldItalicPattern.found text, nested w) ∧
    (∀ w ∈ boldPattern.found (boldItalic text), nested w) ∧
    (∀ w ∈ italicPattern.found (bold (boldItalic text)), nested w) ∧
    (∀ w ∈ strikePattern.found (italic (bold (boldItalic text))), nested w) ∧
    ∀ l ∈ linkPattern.found (strike (italic (bold (boldItalic text)))), l.sound)
    ⟨fun ⟨h1, h2, h3, h4, h5⟩ => ⟨h1, h2, h3, h4, h5⟩, fun h => ⟨h.1, h.2, h.3, h.4, h.5⟩⟩

instance (markdown : JsString) : Decidable (Restores markdown) :=
  decidable_of_iff (_ ∧ _) ⟨fun ⟨h1, h2⟩ => ⟨h1, h2⟩, fun h => ⟨h.1, h.2⟩⟩

instance (markdown : JsString) : Decidable (Clean markdown) :=
  decidable_of_iff (_ ∧ _) ⟨fun ⟨h1, h2⟩ => ⟨h1, h2⟩, fun h => ⟨h.1, h.2⟩⟩

-- ---------------------------------------------------------------------------
-- Literals
-- ---------------------------------------------------------------------------

theorem ofText_b : ofText "<b>" = openTag tagB ∧ ofText "</b>" = closeTag tagB := by decide

theorem ofText_i : ofText "<i>" = openTag tagI ∧ ofText "</i>" = closeTag tagI := by decide

theorem ofText_s : ofText "<s>" = openTag tagS ∧ ofText "</s>" = closeTag tagS := by decide

theorem ofText_bi : ofText "<b><i>" = openTag tagB ++ openTag tagI ∧
    ofText "</i></b>" = closeTag tagI ++ closeTag tagB := by decide

theorem ofText_code : ofText "<code>" = openTag tagCode ∧ ofText "</code>" = closeTag tagCode := by
  decide

theorem ofText_pre : ofText "<pre><code>" = openTag tagPre ++ openTag tagCode ∧
    ofText "</code></pre>" = closeTag tagCode ++ closeTag tagPre := by decide

theorem ofText_link : ofText "<a href=\"" = lt :: (anchor ++ [quot]) ∧
    ofText "\">" = [quot] ++ [gt] ∧ ofText "</a>" = closeTag link := by decide

theorem escapeHtml_eq (text : JsString) : escapeHtml text = text.flatMap escapeUnit := by
  have hamp : ofText "&amp;" = [amp, 0x61, 0x6d, 0x70, semi] := by decide
  have hlt : ofText "&lt;" = [amp, 0x6c, 0x74, semi] := by decide
  have hgt : ofText "&gt;" = [amp, 0x67, 0x74, semi] := by decide
  have hquot : ofText "&quot;" = [amp, 0x71, 0x75, 0x6f, 0x74, semi] := by decide
  have hunit : ∀ u, escapeHtml [u] = escapeUnit u := by
    intro u
    simp only [escapeHtml, replaceUnit, hamp, hlt, hgt, hquot, escapeUnit]
    by_cases ha : u = amp
    · subst ha; rfl
    · by_cases hl : u = lt
      · subst hl; rfl
      · by_cases hg : u = gt
        · subst hg; rfl
        · by_cases hq : u = quot
          · subst hq; rfl
          · simp [ha, hl, hg, hq]
  induction text with
  | nil => rfl
  | cons u text ih =>
    have hcons : escapeHtml (u :: text) = escapeHtml [u] ++ escapeHtml text := by
      simp [escapeHtml, replaceUnit]
    rw [hcons, hunit, ih, List.flatMap_cons]

theorem run_escapeHtml {d : Dialect} {stack : List (JsString × JsString)} (text : JsString) :
    d.run ⟨.text, stack⟩ (escapeHtml text) = some (⟨.text, stack⟩, text) := by
  rw [escapeHtml_eq]
  exact Dialect.run_escape text

-- ---------------------------------------------------------------------------
-- A pass keeps what is said
-- ---------------------------------------------------------------------------

def marks : List UInt16 := [star, tilde, openBracket, closeBracket, openParen, closeParen]

def linked : Dialect := dialect true unplaced

theorem unlinked_le_linked : unlinked.Le linked := ⟨rfl, rfl, rfl, nofun, nofun⟩

theorem linked_le_telegram : linked.Le telegram := ⟨rfl, rfl, rfl, fun h => h, fun _ _ => rfl⟩

theorem nested_iff {w : JsString} : nested w = true ↔ ∃ said, unlinked.Whole w said := by
  simp only [nested, Option.any_eq_true, decide_eq_true_eq, Prod.exists, exists_and_right]
  constructor
  · rintro ⟨e, ⟨said, h⟩, rfl⟩
    exact ⟨said, h⟩
  · rintro ⟨said, h⟩
    exact ⟨{}, ⟨said, h⟩, rfl⟩

theorem Link.sound_iff {l : Link} : l.sound = true ↔ (∃ said, unlinked.Whole l.text said) ∧
    lt ∉ l.target ∧ ∃ said, unlinked.Whole l.target said ∧ unplaced said = true := by
  simp only [Link.sound, Bool.and_eq_true, nested_iff, decide_eq_true_eq, and_assoc,
    Option.any_eq_true, Prod.exists]
  refine and_congr_right fun _ => and_congr_right fun _ => ⟨?_, ?_⟩
  · rintro ⟨e, said, h, rfl, hun⟩
    exact ⟨said, h, hun⟩
  · rintro ⟨said, h, hun⟩
    exact ⟨{}, said, h, rfl, hun⟩

section
variable {d d' : Dialect} {r e : Reader} {said : JsString} {text w : JsString}
  {stack : List (JsString × JsString)}

/-- Piece by piece, from a text without links. -/
theorem run_join {β : Type} {g f : β → JsString} {ps : List (UInt16 ⊕ β)} (hd : d.Le d')
    (hl : d.links = false)
    (hf : ∀ b, .inr b ∈ ps → ∀ r e said, r.mode.inline = true →
      d.run r (g b) = some (e, said) → d'.run r (f b) = some (e, said))
    (hr : r.mode.inline = true) (h : d.run r (Pattern.join g ps) = some (e, said)) :
    d'.run r (Pattern.join f ps) = some (e, said) := by
  induction ps generalizing r said with
  | nil =>
    cases h
    rfl
  | cons piece ps ih =>
    have ih := fun r said => @ih r said fun b hb => hf b (List.mem_cons_of_mem _ hb)
    cases piece with
    | inl u =>
      obtain ⟨r', s, t, hs, hrest, rfl⟩ := Dialect.run_cons_eq.mp h
      exact Dialect.run_cons (Dialect.step_mono hd hs) (ih r' t (Dialect.step_inline hl hr hs) hrest)
    | inr b =>
      obtain ⟨r', s, t, hs, hrest, rfl⟩ := Dialect.run_append_eq.mp h
      exact Dialect.run_append (hf b List.mem_cons_self r r' s hr hs)
        (ih r' t (Dialect.run_inline hl hr hs) hrest)

theorem mark_of_mem {u : UInt16} (hu : u ∈ marks) : Mark u :=
  List.all_iff_forall_prop.mp (show marks.all fun u => Mark u by decide) u hu

theorem run_marked {m m' : JsString} (hm : m ⊆ marks) (hm' : m' ⊆ marks)
    (hne : m ≠ []) (hne' : m' ≠ []) (hr : r.mode.inline = true) {v : JsString}
    (hw : unlinked.Whole w v) (h : unlinked.run r (m ++ (w ++ m')) = some (e, said)) :
    r.mode = .text ∧ e = r ∧ said = m ++ (v ++ m') := by
  obtain ⟨r1, s1, s2, h1, h2, rfl⟩ := Dialect.run_append_eq.mp h
  obtain ⟨hmode, rfl, rfl⟩ := Dialect.run_marks (fun u hu => mark_of_mem (hm hu)) hne hr h1
  obtain ⟨r2, s3, s4, h3, h4, rfl⟩ := Dialect.run_append_eq.mp h2
  obtain ⟨mode, stack⟩ := r1
  cases (show mode = .text from hmode)
  have hwhole := hw.run stack
  rw [h3] at hwhole
  cases hwhole
  obtain ⟨-, rfl, rfl⟩ := Dialect.run_marks (fun u hu => mark_of_mem (hm' hu)) hne' hr h4
  exact ⟨rfl, rfl, rfl⟩

/-- A pass of emphasis, with an element that stands for its marker. -/
theorem run_emphasis {marker : JsString} {hm : marker ≠ []} {ok : Option UInt16 → Bool}
    (hmarks : marker ⊆ marks) {f : JsString → JsString}
    (hf : ∀ w v stack, unlinked.Whole w v →
      unlinked.run ⟨.text, stack⟩ (f w) = some (⟨.text, stack⟩, marker ++ (v ++ marker)))
    (hw : ∀ w ∈ (emphasis marker hm ok).found text, nested w)
    (h : unlinked.Whole text said) : unlinked.Whole ((emphasis marker hm ok).replace f text) said := by
  refine run_join (g := (emphasis marker hm ok).source) ⟨rfl, rfl, rfl, fun h => h, fun _ h => h⟩
    rfl (fun w hp r e s hr hs => ?_) rfl ?_
  · obtain ⟨v, hv⟩ := nested_iff.mp (hw w (Pattern.mem_found.mpr hp))
    obtain ⟨hmode, rfl, rfl⟩ := run_marked hmarks hmarks hm hm hr hv hs
    obtain ⟨mode, stack⟩ := e
    cases (show mode = .text from hmode)
    exact hf w v stack hv
  · rw [Pattern.join_pieces]
    exact h

theorem run_links (hl : ∀ l ∈ linkPattern.found text, l.sound) (h : unlinked.Whole text said) :
    linked.Whole (links text) said := by
  refine run_join (g := linkPattern.source) unlinked_le_linked rfl
    (fun l hp r e s hr hs => ?_) rfl ?_
  · obtain ⟨⟨v, hv⟩, hlt, t, ht, hok⟩ := Link.sound_iff.mp (hl l (Pattern.mem_found.mpr hp))
    obtain ⟨r1, s1, s2, h1, h2, rfl⟩ := Dialect.run_append_eq.mp hs
    obtain ⟨hmode, rfl, rfl⟩ := run_marked (by decide) (by decide) (by decide) (by decide) hr hv h1
    obtain ⟨-, rfl, rfl⟩ := run_marked (by decide) (by decide) (by decide) (by decide) hr ht h2
    obtain ⟨mode, stack⟩ := e
    cases (show mode = .text from hmode)
    have helem : linked.run ⟨.text, stack⟩ (Dialect.linkElement l.target l.text) = _ :=
      Dialect.run_linkElement rfl (by decide) (Dialect.run_mono unlinked_le_linked ht) hlt hok
        (Dialect.run_mono unlinked_le_linked hv)
    obtain ⟨h1, h2, h3⟩ := ofText_link
    rw [h1, h2, h3]
    simpa [Dialect.linkElement, linked, dialect] using helem
  · rw [Pattern.join_pieces]
    exact h

def formatted (text : JsString) : JsString := links (strike (italic (bold (boldItalic text))))

theorem run_formatted (hn : Nests text) (h : unlinked.Whole text said) :
    linked.Whole (formatted text) said := by
  have helement : ∀ name mark, unlinked.Name name mark → ∀ w v stack, unlinked.Whole w v →
      unlinked.run ⟨.text, stack⟩ (openTag name ++ (w ++ closeTag name)) =
        some (⟨.text, stack⟩, mark ++ (v ++ mark)) :=
    fun name mark hname w v stack => Dialect.run_element hname
  have hboldItalic : ∀ w v stack, unlinked.Whole w v → unlinked.run ⟨.text, stack⟩
      (ofText "<b><i>" ++ (w ++ ofText "</i></b>")) =
        some (⟨.text, stack⟩, [star, star, star] ++ (v ++ [star, star, star])) := by
    intro w v stack hw
    rw [ofText_bi.1, ofText_bi.2]
    have hboth := helement tagB [star, star] (by decide) _ _ stack
      (helement tagI [star] (by decide) w v [] hw)
    simpa using hboth
  have hbold := helement tagB [star, star] (by decide)
  have hitalic := helement tagI [star] (by decide)
  have hstrike := helement tagS [tilde, tilde] (by decide)
  rw [← ofText_b.1, ← ofText_b.2] at hbold
  rw [← ofText_i.1, ← ofText_i.2] at hitalic
  rw [← ofText_s.1, ← ofText_s.2] at hstrike
  have h1 := run_emphasis (by decide) hboldItalic hn.inBoldItalic h
  have h2 := run_emphasis (by decide) hbold hn.inBold h1
  have h3 := run_emphasis (by decide) hitalic hn.inItalic h2
  have h4 := run_emphasis (by decide) hstrike hn.inStrike h3
  exact run_links hn.inLinks h4

end

-- ---------------------------------------------------------------------------
-- Placeholders in the HTML and in what it says
-- ---------------------------------------------------------------------------

def Apart (u : UInt16) : Prop := u ∉ nul :: (inlineLabel ++ blockLabel) ∧ isDigit u = false

instance (u : UInt16) : Decidable (Apart u) := inferInstanceAs (Decidable (_ ∧ _))

theorem after_barrier {c : UInt16} {w : JsString} (hc : c ∉ w) (text rest : JsString) :
    after w (text ++ c :: rest) = (after w text).map (· ++ c :: rest) := by
  induction w generalizing text with
  | nil => rfl
  | cons v w ih =>
    obtain ⟨hv, hc⟩ := not_or.mp (List.mem_cons.not.mp hc)
    cases text with
    | nil => simp [after, hv]
    | cons u text =>
      simp only [List.cons_append, after]
      split
      · exact ih hc text
      · rfl

theorem find_append_apart {label : JsString} (hlabel : label = inlineLabel ∨ label = blockLabel)
    {c : UInt16} (hc : Apart c) (text rest : JsString) :
    findPlaceholder label (text ++ c :: rest) = findPlaceholder label text := by
  obtain ⟨hmem, hdigit⟩ := hc
  obtain ⟨hnul, hmem⟩ := not_or.mp (List.mem_cons.not.mp hmem)
  have hmem : c ∉ nul :: label := by
    rintro h
    rcases List.mem_cons.mp h with h | h
    · exact hnul h
    · rcases hlabel with rfl | rfl
      · exact hmem (List.mem_append_left _ h)
      · exact hmem (List.mem_append_right _ h)
  simp only [findPlaceholder, after_barrier hmem, Option.bind_map]
  refine congrArg _ (funext fun tail => ?_)
  have htake : (tail ++ c :: rest).takeWhile isDigit = tail.takeWhile isDigit := by
    induction tail with
    | nil => simp [hdigit]
    | cons u tail ih => simp only [List.cons_append, List.takeWhile_cons, ih]
  have hhead : ((tail ++ c :: rest).dropWhile isDigit).head? = some nul ↔
      (tail.dropWhile isDigit).head? = some nul := by
    induction tail with
    | nil => simp [hdigit, hnul]
    | cons u tail ih =>
      simp only [List.cons_append, List.dropWhile_cons]
      split
      · refine ih ?_
        simp only [List.cons_append, List.takeWhile_cons] at htake
        simp_all
      · simp
  simp only [Function.comp_apply, htake, hhead]

theorem after_append (w text : JsString) : after w (w ++ text) = some text := by
  induction w with
  | nil => rfl
  | cons c w ih => simpa [after] using ih

theorem digits_of_find {label text digits : JsString} (h : findPlaceholder label text = some digits) :
    digits ≠ [] ∧ ∀ u ∈ digits, isDigit u = true := by
  obtain ⟨rest, -, h⟩ := Option.bind_eq_some_iff.mp h
  simp only [Option.ite_none_right_eq_some, Option.some.injEq] at h
  obtain ⟨⟨hne, -⟩, rfl⟩ := h
  exact ⟨hne, fun u hu => List.mem_takeWhile_imp hu⟩

theorem find_source {label digits : JsString} (hne : digits ≠ [])
    (hd : ∀ u ∈ digits, isDigit u = true) (text : JsString) :
    findPlaceholder label ((placeholderPattern label).source digits ++ text) = some digits := by
  have htake : (digits ++ nul :: text).takeWhile isDigit = digits := by
    rw [List.takeWhile_append_of_pos hd]
    simp [isDigit, nul]
  have hdrop : (digits ++ nul :: text).dropWhile isDigit = nul :: text := by
    rw [List.dropWhile_append_of_pos hd]
    simp [isDigit, nul]
  have hshape : (placeholderPattern label).source digits ++ text =
      (nul :: label) ++ (digits ++ nul :: text) := by simp [placeholderPattern]
  simp only [findPlaceholder, hshape, after_append, Option.bind_some, htake, hdrop]
  simp [hne]

theorem plain_of_digit {u : UInt16} (h : isDigit u = true) : Plain u := by
  refine ⟨?_, ?_, ?_, ?_⟩ <;> rintro rfl <;> exact absurd h (by decide)

theorem parseDigits_decimal (k : Nat) : parseDigits (decimal k) = k := by
  have hmap : (decimal k).map (fun u => Char.ofNat u.toNat) = Nat.toDigits 10 k := by
    rw [decimal, List.map_map]
    conv_rhs => rw [← List.map_id (Nat.toDigits 10 k)]
    refine List.map_congr_left fun c hc => ?_
    have hdigit := Nat.isDigit_of_mem_toDigits (by omega) (by omega) hc
    have hlt : c.toNat < 2 ^ 16 := by
      simp only [Char.isDigit, Bool.and_eq_true, decide_eq_true_eq] at hdigit
      exact (show c.toNat ≤ 57 from hdigit.2).trans_lt (by decide)
    simp [UInt16.toNat_ofNat_of_lt' hlt]
  rw [parseDigits, hmap, Nat.ofDigitChars_ten_toDigits]

def Silent (label : JsString) : JsString → Prop
  | [] => True
  | u :: w => (∀ rest, findPlaceholder label (u :: (w ++ rest)) = none) ∧ Silent label w

/-- What is said in place of a tag or an entity: no placeholder goes on over it. -/
structure Quiet (label said : JsString) : Prop where
  head : ∃ c rest, said = c :: rest ∧ Apart c
  silent : Silent label said

section
variable {r r' e : Reader} {said text label : JsString} {f g : JsString → JsString}
  {stack : List (JsString × JsString)}

theorem find_of_ne_nul {u : UInt16} (hu : u ≠ nul) (text : JsString) :
    findPlaceholder label (u :: text) = none := by
  simp [findPlaceholder, after, hu]

theorem silent_of_ne_nul {w : JsString} (hw : nul ∉ w) : Silent label w := by
  induction w with
  | nil => trivial
  | cons u w ih =>
    obtain ⟨hu, hw⟩ := not_or.mp (List.mem_cons.not.mp hw)
    exact ⟨fun rest => find_of_ne_nul (Ne.symm hu) _, ih hw⟩

theorem quiet_of_apart {w : JsString} (hne : w ≠ []) (hw : w.all fun u => Apart u) :
    Quiet label w := by
  have hw : ∀ u ∈ w, Apart u := List.all_iff_forall_prop.mp hw
  obtain ⟨c, rest, rfl⟩ := List.exists_cons_of_ne_nil hne
  refine ⟨⟨c, rest, rfl, hw c List.mem_cons_self⟩, silent_of_ne_nul fun h => ?_⟩
  exact (hw nul h).1 List.mem_cons_self

/-- The target of a link is between units that stand in no placeholder. -/
theorem quiet_behind (hlabel : label = inlineLabel ∨ label = blockLabel) {target : JsString}
    (h : unplaced target = true) : Quiet label (linked.behind target) := by
  have htails : ∀ t ∈ target.tails, findPlaceholder label t = none := by
    intro t ht
    have hnone := List.all_eq_true.mp h t ht
    rw [Bool.and_eq_true, Option.isNone_iff_eq_none, Option.isNone_iff_eq_none] at hnone
    rcases hlabel with rfl | rfl
    · exact hnone.1
    · exact hnone.2
  have hsilent : Silent label (target ++ [closeParen]) := by
    clear h
    induction target with
    | nil => exact ⟨fun rest => find_of_ne_nul (by decide) _, trivial⟩
    | cons u target ih =>
      refine ⟨fun rest => ?_, ih fun t ht => htails t ?_⟩
      · have happart := find_append_apart hlabel (c := closeParen) (by decide) (u :: target) rest
        simpa [htails (u :: target) (by simp)] using happart
      · rw [List.tails_cons]
        exact List.mem_cons_of_mem _ ht
  exact ⟨⟨closeBracket, _, rfl, by decide⟩, fun rest => find_of_ne_nul (by decide) _,
    fun rest => find_of_ne_nul (by decide) _, hsilent⟩

theorem blind_placeholder (label : JsString) : (placeholderPattern label).Blind := fun _ _ => rfl

theorem replace_silent {w : JsString} (hw : Silent label w) (rest : JsString) :
    (placeholderPattern label).replace g (w ++ rest) =
        w ++ (placeholderPattern label).replace g rest ∧
      (placeholderPattern label).found (w ++ rest) = (placeholderPattern label).found rest := by
  induction w with
  | nil => exact ⟨rfl, rfl⟩
  | cons u w ih =>
    obtain ⟨hnone, hw⟩ := hw
    obtain ⟨hreplace, hfound⟩ := ih hw
    constructor
    · rw [List.cons_append, Pattern.replace_none (blind_placeholder label) (hnone rest), hreplace]
      rfl
    · rw [List.cons_append, Pattern.found_none (blind_placeholder label) (hnone rest), hfound]

theorem plain_source (hlabel : label = inlineLabel ∨ label = blockLabel) {digits : JsString}
    (hd : ∀ u ∈ digits, isDigit u = true) :
    ∀ u ∈ (placeholderPattern label).source digits, Plain u := by
  have hhead : ∀ u ∈ nul :: label, Plain u := by
    rcases hlabel with rfl | rfl <;> exact List.all_iff_forall_prop.mp (by decide)
  intro u hu
  rcases List.mem_append.mp hu with hu | hu
  · exact hhead u hu
  · rcases List.mem_append.mp hu with hu | hu
    · exact plain_of_digit (hd u hu)
    · cases List.mem_singleton.mp hu
      decide

/-- A placeholder is met within text: nowhere else may its first unit stand,
and a target that has one is not closed. -/
theorem mode_of_placeholder (hlabel : label = inlineLabel ∨ label = blockLabel) {digits : JsString}
    (hne : digits ≠ []) (hd : ∀ u ∈ digits, isDigit u = true) (he : e.mode = .text)
    (h : linked.run r ((placeholderPattern label).source digits ++ text) = some (e, said)) :
    r.mode = .text := by
  obtain ⟨mode, stack⟩ := r
  cases mode with
  | text => rfl
  | target read =>
    obtain ⟨r', s, s', hs, hrest, -⟩ := Dialect.run_append_eq.mp h
    rw [Dialect.run_reads (plain_source hlabel hd)] at hs
    cases hs
    obtain ⟨more, hmore⟩ := Dialect.target_of_run he hrest
    have htail : (placeholderPattern label).source digits ++ more ∈
        (read ++ (placeholderPattern label).source digits ++ more).tails := by
      rw [List.mem_tails, List.append_assoc]
      exact List.suffix_append _ _
    have hnone := List.all_eq_true.mp hmore _ htail
    rw [Bool.and_eq_true, Option.isNone_iff_eq_none, Option.isNone_iff_eq_none] at hnone
    rcases hlabel with rfl | rfl
    · rw [find_source hne hd] at hnone
      cases hnone.1
    · rw [find_source hne hd] at hnone
      cases hnone.2
  | entity name | tag name | targetEntity read name | targetEnd =>
    obtain ⟨r', s, s', hs, -, -⟩ := Dialect.run_cons_eq.mp h
    simp [Dialect.step, nul, semi, gt, quot, isLower, isTagUnit, slash] at hs

structure Calm (label : JsString) (r : Reader) : Prop where
  stack : ∀ p ∈ r.stack, Quiet label p.2
  target : ∀ read, r.mode = .targetEnd read → unplaced read = true

theorem calm_start : Calm label {} := ⟨nofun, nofun⟩

theorem quiet_named {name : JsString} {v : UInt16} (h : named name = some v) : Quiet label [v] := by
  have hv : v = amp ∨ v = lt ∨ v = gt ∨ v = quot := by
    unfold named at h
    split_ifs at h <;> simp_all
  rcases hv with rfl | rfl | rfl | rfl <;> exact quiet_of_apart (by simp) (by decide)

theorem quiet_close {name mark : JsString} {stack' : List (JsString × JsString)}
    (hstack : ∀ p ∈ stack, Quiet label p.2) (h : linked.close name stack = some (stack', mark)) :
    (∀ p ∈ stack', Quiet label p.2) ∧ Quiet label mark := by
  unfold Dialect.close at h
  split at h
  case h_1 mark' hmark =>
    cases h
    have hquiet : Quiet label mark := by
      obtain ⟨before, after, hmarks, -⟩ := List.lookup_eq_some_iff.mp hmark
      have hall : tagMarks.all fun p => p.2 ≠ [] ∧ p.2.all fun u => Apart u := by decide
      have hall : ∀ p ∈ tagMarks, p.2 ≠ [] ∧ p.2.all fun u => Apart u :=
        List.all_iff_forall_prop.mp hall
      have hmem : (name, mark) ∈ tagMarks := by
        rw [show tagMarks = before ++ (name, mark) :: after from hmarks]
        simp
      obtain ⟨hne, hap⟩ := hall (name, mark) hmem
      exact quiet_of_apart hne hap
    exact ⟨List.forall_mem_cons.mpr ⟨hquiet, hstack⟩, hquiet⟩
  case h_2 =>
    split at h
    case h_1 top mark' stack =>
      obtain ⟨-, h⟩ := Option.ite_none_right_eq_some.mp h
      cases h
      exact (List.forall_mem_cons.mp hstack).symm
    case h_2 => cases h

/-- A step says nothing and leaves the text, or says something quiet, or goes on
in the text with a unit that says itself. -/
theorem said_of_step (hlabel : label = inlineLabel ∨ label = blockLabel) {u : UInt16}
    (hr : Calm label r) (h : linked.step r u = some (r', said)) : Calm label r' ∧
      (said = [] ∧ r'.mode ≠ .text ∨ Quiet label said ∨ r.mode = .text ∧ r' = r ∧ said = [u]) := by
  cases Dialect.step_iff.mp h with
  | tells => exact ⟨hr, .inr (.inr ⟨rfl, rfl, rfl⟩)⟩
  | entity hv => exact ⟨⟨hr.stack, nofun⟩, .inr (.inl (quiet_named hv))⟩
  | closes hc =>
    obtain ⟨hstack, hquiet⟩ := quiet_close hr.stack hc
    exact ⟨⟨hstack, nofun⟩, .inr (.inl hquiet)⟩
  | links =>
    have hquiet := quiet_behind hlabel (hr.target _ rfl)
    exact ⟨⟨List.forall_mem_cons.mpr ⟨hquiet, hr.stack⟩, nofun⟩,
      .inr (.inl (quiet_of_apart (by decide) (by decide)))⟩
  | unquotes ht =>
    refine ⟨⟨hr.stack, fun read hread => ?_⟩, .inl ⟨rfl, nofun⟩⟩
    cases hread
    exact ht
  | opens | refers | names | tagged | quotes | reads | readsRefers | readsNames | readsEntity =>
    exact ⟨⟨hr.stack, nofun⟩, .inl ⟨rfl, nofun⟩⟩

/-- Outside of the text, what is said next stands in no placeholder. -/
theorem apart_of_run (hlabel : label = inlineLabel ∨ label = blockLabel) {v : UInt16}
    {tail : JsString} (hr : Calm label r) (hmode : r.mode ≠ .text)
    (h : linked.run r text = some (e, v :: tail)) : Apart v := by
  induction text generalizing r with
  | nil => cases h
  | cons u text ih =>
    obtain ⟨r', s, s', hs, hrun, hsaid⟩ := Dialect.run_cons_eq.mp h
    obtain ⟨hr', ⟨rfl, hmode'⟩ | hquiet | ⟨htext, -⟩⟩ := said_of_step hlabel hr hs
    · obtain rfl : v :: tail = s' := hsaid
      exact ih hr' hmode' hrun
    · obtain ⟨c, rest, rfl, hc⟩ := hquiet.head
      obtain ⟨rfl, -⟩ := List.cons.inj hsaid
      exact hc
    · exact absurd htext hmode

theorem prefix_of_run (hlabel : label = inlineLabel ∨ label = blockLabel) {x tail : JsString}
    (hr : Calm label r) (hmode : r.mode = .text) (hx : ∀ v ∈ x, ¬ Apart v)
    (h : linked.run r text = some (e, x ++ tail)) : x <+: text := by
  induction x generalizing text with
  | nil => exact List.nil_prefix
  | cons v x ih =>
    obtain ⟨hv, hx⟩ := List.forall_mem_cons.mp hx
    cases text with
    | nil => cases h
    | cons u text =>
      obtain ⟨r', s, s', hs, hrun, hsaid⟩ := Dialect.run_cons_eq.mp h
      obtain ⟨hr', ⟨rfl, hmode'⟩ | hquiet | ⟨-, rfl, rfl⟩⟩ := said_of_step hlabel hr hs
      · obtain rfl : v :: (x ++ tail) = s' := hsaid
        exact absurd (apart_of_run hlabel hr' hmode' hrun) hv
      · obtain ⟨c, rest, rfl, hc⟩ := hquiet.head
        obtain ⟨rfl, -⟩ := List.cons.inj hsaid
        exact absurd hc hv
      · obtain ⟨rfl, rfl⟩ := List.cons.inj hsaid
        exact (List.prefix_cons_inj v).mpr (ih hx hrun)

theorem not_apart_source (hlabel : label = inlineLabel ∨ label = blockLabel) {digits : JsString}
    (hd : ∀ u ∈ digits, isDigit u = true) :
    ∀ u ∈ (placeholderPattern label).source digits, ¬ Apart u := by
  intro u hu hap
  rcases List.mem_append.mp hu with hu | hu
  · refine hap.1 ?_
    rcases List.mem_cons.mp hu with rfl | hu
    · exact List.mem_cons_self
    · rcases hlabel with rfl | rfl <;> simp [hu]
  · rcases List.mem_append.mp hu with hu | hu
    · exact absurd (hd u hu) (by simp [hap.2])
    · exact hap.1 (by simp [List.mem_singleton.mp hu])

theorem source_of_find {digits : JsString} (h : findPlaceholder label text = some digits) :
    ∃ rest, text = (placeholderPattern label).source digits ++ rest := by
  have hfind : (placeholderPattern label).find none text = some digits := h
  obtain ⟨-, rest, hrest⟩ := (placeholderPattern label).sound hfind
  exact ⟨rest, hrest.symm⟩

/-- A placeholder that is said is read. -/
theorem find_of_said (hlabel : label = inlineLabel ∨ label = blockLabel) {digits : JsString}
    (hr : Calm label r) (hmode : r.mode = .text) (h : linked.run r text = some (e, said))
    (hfind : findPlaceholder label said = some digits) :
    findPlaceholder label text = some digits := by
  obtain ⟨tail, rfl⟩ := source_of_find hfind
  obtain ⟨hne, hd⟩ := digits_of_find hfind
  obtain ⟨more, rfl⟩ := prefix_of_run hlabel hr hmode (not_apart_source hlabel hd) h
  exact find_source hne hd more

/-- Where no placeholder is read, none starts in what the unit says. -/
theorem replace_said (hlabel : label = inlineLabel ∨ label = blockLabel) {u : UInt16}
    {said' : JsString} (hr : Calm label r) (hs : linked.step r u = some (r', said))
    (hrun : linked.run r' text = some (e, said'))
    (hfind : findPlaceholder label (u :: text) = none) :
    (placeholderPattern label).replace g (said ++ said') =
        said ++ (placeholderPattern label).replace g said' ∧
      (placeholderPattern label).found (said ++ said') = (placeholderPattern label).found said' := by
  obtain ⟨-, ⟨rfl, -⟩ | hquiet | ⟨hmode, rfl, rfl⟩⟩ := said_of_step hlabel hr hs
  · exact ⟨rfl, rfl⟩
  · exact replace_silent hquiet.silent said'
  · have hnone : findPlaceholder label (u :: said') = none := by
      cases hsaid : findPlaceholder label (u :: said') with
      | none => rfl
      | some digits =>
        rw [find_of_said hlabel hr hmode (Dialect.run_cons hs hrun) hsaid] at hfind
        cases hfind
    exact ⟨Pattern.replace_none (blind_placeholder label) hnone,
      Pattern.found_none (blind_placeholder label) hnone⟩

/-- The placeholders of the HTML are those of what it says. -/
theorem run_replace (hlabel : label = inlineLabel ∨ label = blockLabel) (he : e.mode = .text)
    (hr : Calm label r)
    (hf : ∀ digits ∈ (placeholderPattern label).found said, ∀ stack,
      linked.run ⟨.text, stack⟩ (f digits) = some (⟨.text, stack⟩, g digits))
    (h : linked.run r text = some (e, said)) :
    linked.run r ((placeholderPattern label).replace f text) =
      some (e, (placeholderPattern label).replace g said) := by
  have hblind := blind_placeholder label
  induction hlen : text.length using Nat.strong_induction_on generalizing text r said with
  | _ n ih =>
    cases text with
    | nil =>
      cases h
      rfl
    | cons u rest =>
      cases hfind : findPlaceholder label (u :: rest) with
      | some digits =>
        obtain ⟨rest', hsource⟩ := source_of_find hfind
        obtain ⟨hne, hd⟩ := digits_of_find hfind
        rw [hsource] at h hlen ⊢
        have hmode := mode_of_placeholder hlabel hne hd he h
        obtain ⟨mode, stack⟩ := r
        cases (show mode = .text from hmode)
        obtain ⟨r', s, s', hs, hrun, rfl⟩ := Dialect.run_append_eq.mp h
        rw [Dialect.run_plain (plain_source hlabel hd)] at hs
        cases hs
        rw [Pattern.found_source hblind s' (find_source hne hd s')] at hf
        obtain ⟨hfirst, hf⟩ := List.forall_mem_cons.mp hf
        have hlt : rest'.length < n := by
          rw [← hlen]
          simp only [placeholderPattern, List.length_append, List.length_cons]
          omega
        rw [Pattern.replace_source hblind rest' (find_source hne hd rest'),
          Pattern.replace_source hblind s' (find_source hne hd s')]
        exact Dialect.run_append (hfirst stack) (ih _ hlt hr hf hrun rfl)
      | none =>
        obtain ⟨r', s, s', hs, hrun, rfl⟩ := Dialect.run_cons_eq.mp h
        have hlt : rest.length < n := hlen ▸ Nat.lt_succ_self _
        have hsilent := @replace_said r r' e s rest label g hlabel u s' hr hs hrun hfind
        rw [hsilent.2] at hf
        rw [Pattern.replace_none hblind hfind, hsilent.1]
        exact Dialect.run_cons hs (ih _ hlt (said_of_step hlabel hr hs).1 hf hrun rfl)

end

-- ---------------------------------------------------------------------------
-- Putting the code back
-- ---------------------------------------------------------------------------

section
variable {β : Type} {ps : List (UInt16 ⊕ β)} {k : Nat} {label said text : JsString}

theorem mem_placed {digits : JsString} (h : .inr digits ∈ placed k ps) :
    ∃ i, digits = decimal i ∧ k ≤ i ∧ i < k + (ps.filterMap Sum.getRight?).length := by
  induction ps generalizing k with
  | nil => cases h
  | cons piece ps ih =>
    cases piece with
    | inl u =>
      obtain ⟨i, hi, hle, hlt⟩ := ih ((List.mem_cons.mp h).resolve_left nofun)
      exact ⟨i, hi, hle, hlt⟩
    | inr b =>
      rcases List.mem_cons.mp h with heq | h
      · cases heq
        exact ⟨k, rfl, le_rfl, by simp⟩
      · obtain ⟨i, hi, hle, hlt⟩ := ih h
        exact ⟨i, hi, by omega, by simp; omega⟩

theorem join_placed {code : β → JsString} {marker : JsString} {codes : List JsString}
    (hcodes : codes.drop k = (ps.filterMap Sum.getRight?).map code) :
    Pattern.join (fun digits => marker ++ ((codes[parseDigits digits]?).getD [] ++ marker))
      (placed k ps) = Pattern.join (fun b => marker ++ (code b ++ marker)) ps := by
  induction ps generalizing k with
  | nil => rfl
  | cons piece ps ih =>
    cases piece with
    | inl u => exact congrArg (u :: ·) (ih hcodes)
    | inr b =>
      have hcodes : codes.drop k = code b :: (ps.filterMap Sum.getRight?).map code := hcodes
      have hcode : codes[k]? = some (code b) := by
        rw [← List.head?_drop, hcodes]
        rfl
      have hrest : codes.drop (k + 1) = (ps.filterMap Sum.getRight?).map code := by
        rw [← List.tail_drop, hcodes]
        rfl
      rw [placed, Pattern.join_inr, Pattern.join_inr, parseDigits_decimal, hcode, ih hrest]
      rfl

/-- Each code comes in where its placeholder was, between its markers. -/
theorem run_putBack (hlabel : label = inlineLabel ∨ label = blockLabel) {code : β → JsString}
    {html : JsString → JsString} {marker : JsString}
    (hhtml : ∀ c stack, linked.run ⟨.text, stack⟩ (html c) =
      some (⟨.text, stack⟩, marker ++ (c ++ marker)))
    (hpieces : (placeholderPattern label).pieces 0 none said = placed 0 ps)
    (h : linked.Whole text said) :
    linked.Whole (putBack label (((ps.filterMap Sum.getRight?).map code).map html) text)
      (Pattern.join (fun b => marker ++ (code b ++ marker)) ps) := by
  obtain ⟨codes, hcodes⟩ : ∃ codes, (ps.filterMap Sum.getRight?).map code = codes := ⟨_, rfl⟩
  have hdrop : codes.drop 0 = (ps.filterMap Sum.getRight?).map code := hcodes.symm
  rw [hcodes, ← join_placed hdrop, ← hpieces]
  refine run_replace hlabel rfl calm_start (fun digits hd stack => ?_) h
  rw [Pattern.mem_found, hpieces] at hd
  obtain ⟨i, rfl, -, hlt⟩ := mem_placed hd
  have hlt : i < codes.length := by
    rw [← hcodes, List.length_map]
    omega
  rw [parseDigits_decimal, List.getElem?_map, List.getElem?_eq_getElem hlt]
  exact hhtml _ stack

end

theorem run_inlineHtml (code : JsString) (stack : List (JsString × JsString)) :
    linked.run ⟨.text, stack⟩ (inlineHtml code) =
      some (⟨.text, stack⟩, [backtick] ++ (code ++ [backtick])) := by
  rw [inlineHtml, ofText_code.1, ofText_code.2]
  exact Dialect.run_element (by decide) (run_escapeHtml code)

theorem run_blockHtml (code : JsString) (stack : List (JsString × JsString)) :
    linked.run ⟨.text, stack⟩ (blockHtml code) =
      some (⟨.text, stack⟩, fence ++ (code ++ fence)) := by
  have hcode : linked.Whole (openTag tagCode ++ (escapeHtml code ++ closeTag tagCode))
      ([backtick] ++ (code ++ [backtick])) :=
    Dialect.run_element (by decide) (run_escapeHtml code)
  rw [blockHtml, ofText_pre.1, ofText_pre.2]
  have hpre : linked.run ⟨.text, stack⟩
      (openTag tagPre ++ (openTag tagCode ++ (escapeHtml code ++ closeTag tagCode) ++
        closeTag tagPre)) = some (⟨.text, stack⟩, [backtick, backtick] ++
          ([backtick] ++ (code ++ [backtick]) ++ [backtick, backtick])) :=
    Dialect.run_element (by decide) hcode
  simpa [fence] using hpre

theorem markdownToTelegramHtml_eq (markdown : JsString) : markdownToTelegramHtml markdown =
    putBackBlocks markdown (putBackInlines markdown (formatted (escaped markdown))) := by
  unfold markdownToTelegramHtml
  split
  case isTrue h =>
    subst h
    rfl
  case isFalse => rfl

/-- The markdown is read back from clean HTML. -/
theorem proper_of_clean {markdown : JsString} (h : Clean markdown) :
    Proper markdown (markdownToTelegramHtml markdown) := by
  have hformatted := run_formatted h.nests (run_escapeHtml (withoutCode markdown))
  have hinlines : linked.Whole
      (putBack inlineLabel (((inlines markdown).map id).map inlineHtml)
        (formatted (escaped markdown)))
      (Pattern.join inlinePattern.source (inlinePattern.pieces 0 none (withoutBlocks markdown))) :=
    run_putBack (.inl rfl) run_inlineHtml h.restores.ofInlines hformatted
  rw [List.map_id, Pattern.join_pieces] at hinlines
  have hblocks : linked.Whole
      (putBackBlocks markdown (putBackInlines markdown (formatted (escaped markdown))))
      (trimmed markdown) :=
    run_putBack (.inr rfl) run_blockHtml h.restores.ofBlocks hinlines
  rw [markdownToTelegramHtml_eq]
  exact Dialect.run_mono linked_le_telegram hblocks

theorem proper_of_clean_nested :
    markdownToTelegramHtml (ofText "**a *b* c** `x<y` [d](e)") =
      ofText "<b>a <i>b</i> c</b> <code>x&lt;y</code> <a href=\"e\">d</a>" ∧
    Proper (ofText "**a *b* c** `x<y` [d](e)")
      (markdownToTelegramHtml (ofText "**a *b* c** `x<y` [d](e)")) :=
  ⟨by decide +kernel, proper_of_clean (by decide +kernel)⟩

/-- Markers that cross give tags that cross, markers in the target of a link tags
in its attribute, and what a block leaves behind may read as a placeholder. -/
theorem not_proper :
    (markdownToTelegramHtml (ofText "**a *b** c*") = ofText "<b>a <i>b</b> c</i>" ∧
      ¬ Proper (ofText "**a *b** c*") (markdownToTelegramHtml (ofText "**a *b** c*"))) ∧
    (markdownToTelegramHtml (ofText "[a](**b**)") = ofText "<a href=\"<b>b</b>\">a</a>" ∧
      ¬ Proper (ofText "[a](**b**)") (markdownToTelegramHtml (ofText "[a](**b**)"))) ∧
    markdownToTelegramHtml (ofText "```a```IC5```b```") =
      nul :: (ofText "CB0undefinedCB1" ++ [nul]) ∧
    ¬ Proper (ofText "```a```IC5```b```")
      (markdownToTelegramHtml (ofText "```a```IC5```b```")) := by
  decide +kernel

end ClaudeCluster.Messaging.Format
