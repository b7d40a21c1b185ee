import ClaudeCluster.Lib.Html
import ClaudeCluster.Lib.Rewriting

/-!
# Markdown to Telegram HTML

`markdownToTelegramHtml` of `messaging/format.ts`. A regular expression is a
`Pattern`: what it matches at a position, seeing the unit before it. Greedy
and lazy parts are followed by a unit they cannot take themselves, so none of
the matches depends on backtracking.
-/

namespace ClaudeCluster.Messaging.Format

open Lib (JsString Pattern)
open Lib.Html
open Lib.Utf16 (ofText)

-- ---------------------------------------------------------------------------
-- Units
-- ---------------------------------------------------------------------------

def nul : UInt16 := 0x00
def lineFeed : UInt16 := 0x0a
def openParen : UInt16 := 0x28
def closeParen : UInt16 := 0x29
def star : UInt16 := 0x2a
def openBracket : UInt16 := 0x5b
def closeBracket : UInt16 := 0x5d
def backtick : UInt16 := 0x60
def tilde : UInt16 := 0x7e

/-- `\d` -/
def isDigit (u : UInt16) : Bool := 0x30 ≤ u && u ≤ 0x39

/-- `[a-zA-Z0-9]` -/
def isAlphanumeric (u : UInt16) : Bool :=
  isDigit u || (0x41 ≤ u && u ≤ 0x5a) || (0x61 ≤ u && u ≤ 0x7a)

/-- `\w` -/
def isWord (u : UInt16) : Bool := isAlphanumeric u || u = 0x5f

/-- What `.` does not match. -/
def isTerminator (u : UInt16) : Bool := u = 0x0a || u = 0x0d || u = 0x2028 || u = 0x2029

/-- `text.replace(/c/g, s)` for a single unit -/
def replaceUnit (c : UInt16) (s text : JsString) : JsString :=
  text.flatMap fun u => if u = c then s else [u]

def escapeHtml (text : JsString) : JsString :=
  text |> replaceUnit amp (ofText "&amp;") |> replaceUnit lt (ofText "&lt;") |>
    replaceUnit gt (ofText "&gt;") |> replaceUnit quot (ofText "&quot;")

def decimal (n : Nat) : JsString := (Nat.toDigits 10 n).map fun c => .ofNat c.toNat

/-- `parseInt(digits, 10)` -/
def parseDigits (digits : JsString) : Nat :=
  Nat.ofDigitChars 10 (digits.map fun u => .ofNat u.toNat) 0

-- ---------------------------------------------------------------------------
-- Matching
-- ---------------------------------------------------------------------------

def after : JsString → JsString → Option JsString
  | [], text => some text
  | _ :: _, [] => none
  | c :: cs, u :: text => if u = c then after cs text else none

/-- `[\s\S]*?` up to the first `stop`. -/
def upTo (stop : JsString) : JsString → Option JsString
  | [] => none
  | u :: text =>
    if (after stop (u :: text)).isSome then some [] else (upTo stop text).map (u :: ·)

/-- `[^c]+` up to the `c`. -/
def enclosed (c : UInt16) (text : JsString) : Option JsString :=
  if text.takeWhile (· ≠ c) ≠ [] ∧ c ∈ text then some (text.takeWhile (· ≠ c)) else none

/-- `.+?` up to the first `stop` with an `ok` unit behind it. -/
def body (stop : JsString) (ok : Option UInt16 → Bool) : JsString → Option JsString
  | [] => none
  | u :: text =>
    if isTerminator u then none
    else if (after stop text).any (ok ·.head?) then some [u]
    else (body stop ok text).map (u :: ·)

theorem after_eq {w text rest : JsString} (h : after w text = some rest) : text = w ++ rest := by
  induction w generalizing text with
  | nil =>
    cases h
    rfl
  | cons c w ih =>
    cases text with
    | nil => cases h
    | cons u text =>
      simp only [after, Option.ite_none_right_eq_some] at h
      obtain ⟨rfl, h⟩ := h
      rw [ih h]
      rfl

theorem upTo_eq {stop text w : JsString} (h : upTo stop text = some w) :
    w ++ stop <+: text := by
  induction text generalizing w with
  | nil => cases h
  | cons u text ih =>
    simp only [upTo] at h
    split at h
    case isTrue hs =>
      cases h
      obtain ⟨rest, hrest⟩ := Option.isSome_iff_exists.mp hs
      exact ⟨rest, (after_eq hrest).symm⟩
    case isFalse =>
      obtain ⟨w, hw, rfl⟩ := Option.map_eq_some_iff.mp h
      exact (List.prefix_cons_inj u).mpr (ih hw)

theorem enclosed_eq {c : UInt16} {text w : JsString} (h : enclosed c text = some w) :
    w ++ [c] <+: text := by
  simp only [enclosed, Option.ite_none_right_eq_some, Option.some.injEq] at h
  obtain ⟨⟨-, hc⟩, rfl⟩ := h
  induction text with
  | nil => cases hc
  | cons u text ih =>
    by_cases hu : u = c
    · subst hu
      simp
    · have hc := (List.mem_cons.mp hc).resolve_left (Ne.symm hu)
      simpa [hu] using ih hc

theorem body_eq {stop text w : JsString} {ok : Option UInt16 → Bool}
    (h : body stop ok text = some w) : w ++ stop <+: text := by
  induction text generalizing w with
  | nil => cases h
  | cons u text ih =>
    simp only [body] at h
    split at h
    · cases h
    · split at h
      case isTrue hs =>
        cases h
        obtain ⟨rest, hrest, -⟩ := (Option.any_eq_true _ _).mp hs
        exact ⟨rest, by rw [after_eq hrest]; rfl⟩
      case isFalse =>
        obtain ⟨w, hw, rfl⟩ := Option.map_eq_some_iff.mp h
        exact (List.prefix_cons_inj u).mpr (ih hw)

-- ---------------------------------------------------------------------------
-- The patterns
-- ---------------------------------------------------------------------------

/-- ```` ```(?:\w*)\n?([\s\S]*?)``` ````, with what its groups do not capture. -/
structure Block where
  language : JsString
  lineBreak : JsString
  code : JsString
  deriving DecidableEq, Repr

def fence : JsString := [backtick, backtick, backtick]

def findBlock (text : JsString) : Option Block :=
  (after fence text).bind fun rest =>
    let body := rest.dropWhile isWord
    let lineBreak := if body.head? = some lineFeed then [lineFeed] else []
    (upTo fence (body.drop lineBreak.length)).map fun code =>
      ⟨rest.takeWhile isWord, lineBreak, code⟩

def blockPattern : Pattern UInt16 Block where
  find _ := findBlock
  source b := fence ++ (b.language ++ (b.lineBreak ++ (b.code ++ fence)))
  sound {before text b} h := by
    obtain ⟨rest, hrest, h⟩ := Option.bind_eq_some_iff.mp h
    obtain ⟨code, hcode, rfl⟩ := Option.map_eq_some_iff.mp h
    refine ⟨by simp [fence], ?_⟩
    rw [after_eq hrest]
    refine (List.prefix_append_right_inj _).mpr ?_
    conv_rhs => rw [← List.takeWhile_append_dropWhile (p := isWord) (l := rest)]
    refine (List.prefix_append_right_inj _).mpr ?_
    have hcode := upTo_eq hcode
    split at hcode
    case isTrue hl =>
      obtain ⟨tail, htail⟩ := List.head?_eq_some_iff.mp hl
      simpa [htail] using hcode
    case isFalse hl =>
      rw [if_neg hl]
      exact hcode

/-- `` `([^`]+)` `` -/
def inlinePattern : Pattern UInt16 JsString where
  find _ text := (after [backtick] text).bind (enclosed backtick)
  source w := [backtick] ++ (w ++ [backtick])
  sound {before text w} h := by
    obtain ⟨rest, hrest, h⟩ := Option.bind_eq_some_iff.mp h
    refine ⟨by simp, ?_⟩
    rw [after_eq hrest]
    exact (List.prefix_append_right_inj _).mpr (enclosed_eq h)

/-- A marker, `(.+?)` and the marker again, with what must hold of the units
around the match. -/
def emphasis (marker : JsString) (hm : marker ≠ []) (ok : Option UInt16 → Bool) :
    Pattern UInt16 JsString where
  find before text := if ok before then (after marker text).bind (body marker ok) else none
  source w := marker ++ (w ++ marker)
  sound {before text w} h := by
    obtain ⟨-, h⟩ := Option.ite_none_right_eq_some.mp h
    obtain ⟨rest, hrest, h⟩ := Option.bind_eq_some_iff.mp h
    refine ⟨by simp [hm], ?_⟩
    rw [after_eq hrest]
    exact (List.prefix_append_right_inj _).mpr (body_eq h)

/-- `\*{3}(.+?)\*{3}` -/
def boldItalicPattern : Pattern UInt16 JsString :=
  emphasis [star, star, star] (by decide) fun _ => true

/-- `\*{2}(.+?)\*{2}` -/
def boldPattern : Pattern UInt16 JsString := emphasis [star, star] (by decide) fun _ => true

/-- `(?<![a-zA-Z0-9])\*(.+?)\*(?![a-zA-Z0-9])` -/
def italicPattern : Pattern UInt16 JsString :=
  emphasis [star] (by decide) fun u => !u.any isAlphanumeric

/-- `~~(.+?)~~` -/
def strikePattern : Pattern UInt16 JsString := emphasis [tilde, tilde] (by decide) fun _ => true

structure Link where
  text : JsString
  target : JsString
  deriving DecidableEq, Repr

def findLink (text : JsString) : Option Link :=
  (after [openBracket] text).bind fun rest =>
    (enclosed closeBracket rest).bind fun label =>
      (after (label ++ [closeBracket, openParen]) rest).bind fun rest =>
        (enclosed closeParen rest).map fun target => ⟨label, target⟩

/-- `\[([^\]]+)\]\(([^)]+)\)` -/
def linkPattern : Pattern UInt16 Link where
  find _ := findLink
  source l := ([openBracket] ++ (l.text ++ [closeBracket])) ++
    ([openParen] ++ (l.target ++ [closeParen]))
  sound {before text l} h := by
    obtain ⟨rest, hrest, h⟩ := Option.bind_eq_some_iff.mp h
    obtain ⟨label, -, h⟩ := Option.bind_eq_some_iff.mp h
    obtain ⟨rest', hrest', h⟩ := Option.bind_eq_some_iff.mp h
    obtain ⟨target, htarget, rfl⟩ := Option.map_eq_some_iff.mp h
    obtain ⟨more, hmore⟩ := enclosed_eq htarget
    refine ⟨by simp, more, ?_⟩
    rw [after_eq hrest, after_eq hrest', ← hmore]
    simp

def findPlaceholder (label text : JsString) : Option JsString :=
  (after (nul :: label) text).bind fun rest =>
    if rest.takeWhile isDigit ≠ [] ∧ (rest.dropWhile isDigit).head? = some nul then
      some (rest.takeWhile isDigit)
    else none

/-- `\x00`, the label, `(\d+)` and `\x00` -/
def placeholderPattern (label : JsString) : Pattern UInt16 JsString where
  find _ := findPlaceholder label
  source digits := (nul :: label) ++ (digits ++ [nul])
  sound {before text digits} h := by
    obtain ⟨rest, hrest, h⟩ := Option.bind_eq_some_iff.mp h
    simp only [Option.ite_none_right_eq_some, Option.some.injEq] at h
    obtain ⟨⟨-, hnul⟩, rfl⟩ := h
    obtain ⟨tail, htail⟩ := List.head?_eq_some_iff.mp hnul
    refine ⟨by simp, ?_⟩
    rw [after_eq hrest]
    refine (List.prefix_append_right_inj _).mpr ⟨tail, ?_⟩
    conv_rhs => rw [← List.takeWhile_append_dropWhile (p := isDigit) (l := rest), htail]
    simp

-- ---------------------------------------------------------------------------
-- The conversion
-- ---------------------------------------------------------------------------

def placeholder (label : JsString) (k : Nat) : JsString :=
  (nul :: label) ++ (decimal k ++ [nul])

/-- The matches replaced by placeholders, numbered from `k`. -/
def numbered {β : Type} (label : JsString) : Nat → List (UInt16 ⊕ β) → JsString
  | _, [] => []
  | k, .inl u :: ps => u :: numbered label k ps
  | k, .inr _ :: ps => placeholder label k ++ numbered label (k + 1) ps

def takeOut {β : Type} (p : Pattern UInt16 β) (label text : JsString) : JsString :=
  numbered label 0 (p.pieces 0 none text)

/-- `codes[parseInt(idx, 10)]`, which may be undefined. -/
def putBack (label : JsString) (codes : List JsString) (text : JsString) : JsString :=
  (placeholderPattern label).replace
    (fun digits => (codes[parseDigits digits]?).getD (ofText "undefined")) text

def blockLabel : JsString := ofText "CB"
def inlineLabel : JsString := ofText "IC"

/-- `code.replace(/\n$/, '')` -/
def trimEnd (code : JsString) : JsString :=
  if code.getLast? = some lineFeed then code.dropLast else code

def blocks (markdown : JsString) : List JsString :=
  (blockPattern.found markdown).map fun b => trimEnd b.code

def withoutBlocks (markdown : JsString) : JsString := takeOut blockPattern blockLabel markdown

def inlines (markdown : JsString) : List JsString := inlinePattern.found (withoutBlocks markdown)

def withoutCode (markdown : JsString) : JsString :=
  takeOut inlinePattern inlineLabel (withoutBlocks markdown)

def blockHtml (code : JsString) : JsString :=
  ofText "<pre><code>" ++ (escapeHtml code ++ ofText "</code></pre>")

def inlineHtml (code : JsString) : JsString :=
  ofText "<code>" ++ (escapeHtml code ++ ofText "</code>")

def boldItalic (text : JsString) : JsString :=
  boldItalicPattern.replace (fun w => ofText "<b><i>" ++ (w ++ ofText "</i></b>")) text

def bold (text : JsString) : JsString :=
  boldPattern.replace (fun w => ofText "<b>" ++ (w ++ ofText "</b>")) text

def italic (text : JsString) : JsString :=
  italicPattern.replace (fun w => ofText "<i>" ++ (w ++ ofText "</i>")) text

def strike (text : JsString) : JsString :=
  strikePattern.replace (fun w => ofText "<s>" ++ (w ++ ofText "</s>")) text

def links (text : JsString) : JsString :=
  linkPattern.replace (fun l => ofText "<a href=\"" ++ (l.target ++ (ofText "\">" ++
    (l.text ++ ofText "</a>")))) text

def escaped (markdown : JsString) : JsString := escapeHtml (withoutCode markdown)

def putBackInlines (markdown text : JsString) : JsString :=
  putBack inlineLabel ((inlines markdown).map inlineHtml) text

def putBackBlocks (markdown text : JsString) : JsString :=
  putBack blockLabel ((blocks markdown).map blockHtml) text

def markdownToTelegramHtml (markdown : JsString) : JsString :=
  if markdown = [] then []
  else
    escaped markdown |> boldItalic |> bold |> italic |> strike |> links |>
      putBackInlines markdown |> putBackBlocks markdown

end ClaudeCluster.Messaging.Format
