import ClaudeCluster.Lib.Utf16
import Mathlib.Data.List.Infix
import Mathlib.Data.List.TakeWhile

/-!
# Messages in pieces

`smartChunk` cuts a text for a channel that takes messages up to a length: at
paragraphs where the text is near the limit anyway, else in a loop at the last
paragraph or line that fits, or hard. The loop drops the newlines a piece would
begin with; the paragraphs are taken as they are, and an empty one is a piece
(`smartChunk_iff`).
-/

namespace ClaudeCluster.Messaging

open Lib (JsString)

-- ---------------------------------------------------------------------------
-- Strings
-- ---------------------------------------------------------------------------

def newline : UInt16 := 10

def paragraphBreak : JsString := [newline, newline]

/-- `text.lastIndexOf(pattern, position)` -/
def lastIndexOf (pattern text : JsString) (position : Nat) : Int :=
  match (List.range (position + 1)).reverse.find? fun k => pattern.isPrefixOf (text.drop k) with
  | some k => k
  | none => -1

/-- `text.split('\\n\\n')` -/
def splitParagraphs : JsString → List JsString
  | [] => [[]]
  | [u] => [[u]]
  | u :: v :: rest =>
    if u = newline ∧ v = newline then [] :: splitParagraphs rest
    else
      match splitParagraphs (v :: rest) with
      | [] => [[u]]
      | p :: ps => (u :: p) :: ps

/-- `text.replace(/^\\n+/, '')` -/
def stripNewlines (text : JsString) : JsString := text.dropWhile (· = newline)

-- ---------------------------------------------------------------------------
-- smartChunk
-- ---------------------------------------------------------------------------

/-- Where the loop cuts what remains. The half of an odd length is no integer. -/
def splitAt (maxLength : Nat) (remaining : JsString) : Nat :=
  let paragraph := lastIndexOf paragraphBreak remaining maxLength
  let line :=
    if 2 * paragraph < maxLength then lastIndexOf [newline] remaining maxLength else paragraph
  if 2 * line < maxLength then maxLength else line.toNat

def chunkLoop (maxLength : Nat) : Nat → JsString → Option (List JsString)
  | _, [] => some []
  | 0, _ :: _ => none
  | fuel + 1, u :: rest =>
    let remaining := u :: rest
    if remaining.length ≤ maxLength then some [remaining]
    else
      let cut := splitAt maxLength remaining
      (chunkLoop maxLength fuel (stripNewlines (remaining.drop cut))).map (remaining.take cut :: ·)

def proactive (maxLength : Nat) (text : JsString) : Bool :=
  3 * maxLength < 4 * text.length && decide (paragraphBreak <:+: text) &&
    (1 < (splitParagraphs text).length && (splitParagraphs text).all (·.length ≤ maxLength))

def smartChunk (fuel : Nat) (text : JsString) (maxLength : Nat) : Option (List JsString) :=
  if proactive maxLength text then some (splitParagraphs text)
  else if text.length ≤ maxLength then some [text]
  else chunkLoop maxLength fuel text

-- ---------------------------------------------------------------------------
-- What is promised
-- ---------------------------------------------------------------------------

/-- The pieces in their order, with nothing but newlines in between and behind. -/
inductive Pieces : List JsString → JsString → Prop
  | nil : Pieces [] []
  | cons {chunk gap rest : JsString} {chunks : List JsString} :
      (∀ u ∈ gap, u = newline) → Pieces chunks rest → Pieces (chunk :: chunks) (chunk ++ (gap ++ rest))

structure Chunked (maxLength : Nat) (text : JsString) (chunks : List JsString) : Prop where
  bounded : ∀ c ∈ chunks, c.length ≤ maxLength
  filled : (∃ u ∈ text, u ≠ newline) → ∀ c ∈ chunks, c ≠ []
  pieces : Pieces chunks text
  /-- Every other character once, in order. -/
  whole : chunks.flatten.filter (· ≠ newline) = text.filter (· ≠ newline)

section

variable {maxLength fuel : Nat} {text rest : JsString} {chunks : List JsString}

theorem Pieces.whole (h : Pieces chunks text) :
    chunks.flatten.filter (· ≠ newline) = text.filter (· ≠ newline) := by
  induction h with
  | nil => rfl
  | @cons chunk gap rest chunks hgap _ ih =>
    have hnone : gap.filter (· ≠ newline) = [] :=
      List.filter_eq_nil_iff.mpr fun u hu => by simpa using hgap u hu
    rw [List.flatten_cons, List.filter_append, List.filter_append, List.filter_append, ih, hnone,
      List.nil_append]

theorem Pieces.single (text : JsString) : Pieces [text] text := by
  have h : Pieces [text] (text ++ ([] ++ [])) := .cons (by simp) .nil
  simpa using h

-- ---------------------------------------------------------------------------
-- The loop
-- ---------------------------------------------------------------------------

theorem lastIndexOf_le (pattern text : JsString) (position : Nat) :
    lastIndexOf pattern text position ≤ position := by
  unfold lastIndexOf
  split
  case h_1 k hk =>
    have hmem := List.mem_of_find?_eq_some hk
    rw [List.mem_reverse, List.mem_range] at hmem
    omega
  case h_2 => omega

/-- A cut before the half is not taken, so something is always cut off. -/
theorem splitAt_bounds (h : 1 ≤ maxLength) (remaining : JsString) :
    0 < splitAt maxLength remaining ∧ splitAt maxLength remaining ≤ maxLength := by
  have hparagraph := lastIndexOf_le paragraphBreak remaining maxLength
  have hline := lastIndexOf_le [newline] remaining maxLength
  unfold splitAt
  dsimp only
  by_cases hhalf : 2 * lastIndexOf paragraphBreak remaining maxLength < maxLength
  case pos =>
    rw [if_pos hhalf]
    split <;> omega
  case neg =>
    rw [if_neg hhalf, if_neg hhalf]
    omega

theorem stripNewlines_eq (text : JsString) :
    ∃ gap, text = gap ++ stripNewlines text ∧ ∀ u ∈ gap, u = newline := by
  refine ⟨text.takeWhile (· = newline), (List.takeWhile_append_dropWhile).symm, fun u hu => ?_⟩
  simpa using List.mem_takeWhile_imp hu

theorem length_stripNewlines_le (text : JsString) : (stripNewlines text).length ≤ text.length :=
  (List.dropWhile_sublist _).length_le

theorem chunkLoop_mono {more : Nat} (h : chunkLoop maxLength fuel text = some chunks)
    (hle : fuel ≤ more) : chunkLoop maxLength more text = some chunks := by
  induction fuel generalizing more text chunks with
  | zero =>
    cases text with
    | nil => cases more <;> exact h
    | cons u rest => cases h
  | succ fuel ih =>
    cases text with
    | nil => cases more <;> exact h
    | cons u rest =>
      obtain ⟨more, rfl⟩ : ∃ m, more = m + 1 := ⟨more - 1, by omega⟩
      simp only [chunkLoop] at h ⊢
      split at h
      case isTrue hlen => rw [if_pos hlen, h]
      case isFalse hlen =>
        obtain ⟨tail, htail, hchunks⟩ := Option.map_eq_some_iff.mp h
        rw [if_neg hlen, ih htail (by omega), Option.map_some, hchunks]

/-- With fuel for every character the loop ends, and no piece is empty. -/
theorem chunkLoop_spec (h : 1 ≤ maxLength) (hfuel : text.length ≤ fuel) :
    ∃ chunks, chunkLoop maxLength fuel text = some chunks ∧
      (∀ c ∈ chunks, c.length ≤ maxLength ∧ c ≠ []) ∧ Pieces chunks text := by
  induction fuel generalizing text with
  | zero =>
    obtain rfl := List.eq_nil_of_length_eq_zero (Nat.le_zero.mp hfuel)
    exact ⟨[], rfl, by simp, .nil⟩
  | succ fuel ih =>
    cases text with
    | nil => exact ⟨[], rfl, by simp, .nil⟩
    | cons u rest =>
      simp only [chunkLoop]
      split
      case isTrue hlen => exact ⟨[u :: rest], rfl, by simpa using hlen, .single _⟩
      case isFalse hlen =>
        obtain ⟨hpos, hmax⟩ := splitAt_bounds h (u :: rest)
        obtain ⟨gap, hgap, hnew⟩ := stripNewlines_eq ((u :: rest).drop (splitAt maxLength (u :: rest)))
        have hshort := length_stripNewlines_le ((u :: rest).drop (splitAt maxLength (u :: rest)))
        rw [List.length_drop] at hshort
        obtain ⟨chunks, hchunks, hall, hpieces⟩ :=
          @ih (stripNewlines ((u :: rest).drop (splitAt maxLength (u :: rest)))) (by omega)
        refine ⟨_, by rw [hchunks, Option.map_some], ?_, ?_⟩
        · refine List.forall_mem_cons.mpr ⟨⟨?_, ?_⟩, hall⟩
          · exact (List.length_take_le _ _).trans hmax
          · obtain ⟨k, hk⟩ : ∃ k, splitAt maxLength (u :: rest) = k + 1 :=
              ⟨splitAt maxLength (u :: rest) - 1, by omega⟩
            rw [hk, List.take_succ_cons]
            exact List.cons_ne_nil _ _
        · have hjoined : Pieces ((u :: rest).take (splitAt maxLength (u :: rest)) :: chunks) _ :=
            .cons hnew hpieces
          rwa [← hgap, List.take_append_drop] at hjoined

-- ---------------------------------------------------------------------------
-- The paragraphs
-- ---------------------------------------------------------------------------

theorem splitParagraphs_ne_nil (text : JsString) : splitParagraphs text ≠ [] := by
  fun_induction splitParagraphs text <;> simp

theorem pieces_splitParagraphs (text : JsString) : Pieces (splitParagraphs text) text := by
  fun_induction splitParagraphs text with
  | case1 => exact .single []
  | case2 u => exact .single [u]
  | case3 u v rest h ih =>
    obtain ⟨rfl, rfl⟩ := h
    have hbreak : Pieces ([] :: splitParagraphs rest) ([] ++ (paragraphBreak ++ rest)) :=
      .cons (by simp [paragraphBreak]) ih
    exact hbreak
  | case4 u v rest h heq ih => exact absurd heq (splitParagraphs_ne_nil _)
  | case5 u v rest h p ps heq ih =>
    rw [heq] at ih
    generalize v :: rest = text at ih
    cases ih with
    | @cons _ gap rest _ hgap htail =>
      have hjoined : Pieces ((u :: p) :: ps) ((u :: p) ++ (gap ++ rest)) := .cons hgap htail
      exact hjoined

end

-- ---------------------------------------------------------------------------
-- All together
-- ---------------------------------------------------------------------------

/-- The text is newlines only, is not taken apart by paragraphs, or has no empty
paragraph. -/
def NoEmptyParagraph (maxLength : Nat) (text : JsString) : Prop :=
  (∀ u ∈ text, u = newline) ∨ proactive maxLength text = false ∨ ∀ p ∈ splitParagraphs text, p ≠ []

/-- Enough fuel is as many steps as the text has characters. -/
theorem smartChunk_iff {maxLength : Nat} (h : 1 ≤ maxLength) (text : JsString) :
    (∃ chunks, (∀ fuel, text.length ≤ fuel → smartChunk fuel text maxLength = some chunks) ∧
      Chunked maxLength text chunks) ↔ NoEmptyParagraph maxLength text := by
  by_cases hpro : proactive maxLength text = true
  case pos =>
    have hbounded : ∀ c ∈ splitParagraphs text, c.length ≤ maxLength := by
      simp only [proactive, Bool.and_eq_true, List.all_eq_true, decide_eq_true_eq] at hpro
      exact hpro.2.2
    have hpieces := pieces_splitParagraphs text
    constructor
    · rintro ⟨chunks, hrun, hchunked⟩
      have hsome := hrun text.length (Nat.le_refl _)
      rw [smartChunk, if_pos hpro, Option.some.injEq] at hsome
      subst hsome
      by_cases hnew : ∃ u ∈ text, u ≠ newline
      case pos => exact .inr (.inr (hchunked.filled hnew))
      case neg => exact .inl (by simpa using hnew)
    · intro hcond
      refine ⟨splitParagraphs text, fun fuel _ => if_pos hpro, hbounded, fun hnew => ?_, hpieces,
        hpieces.whole⟩
      rcases hcond with hall | hfalse | hfilled
      · obtain ⟨u, hu, hne⟩ := hnew
        exact absurd (hall u hu) hne
      · rw [hpro] at hfalse
        cases hfalse
      · exact hfilled
  case neg =>
    refine ⟨fun _ => .inr (.inl (Bool.eq_false_iff.mpr hpro)), fun _ => ?_⟩
    by_cases hlen : text.length ≤ maxLength
    case pos =>
      refine ⟨[text], fun fuel _ => by rw [smartChunk, if_neg hpro, if_pos hlen], by simpa using hlen,
        fun ⟨u, hu, _⟩ => ?_, .single text, (Pieces.single text).whole⟩
      simpa using List.ne_nil_of_mem hu
    case neg =>
      obtain ⟨chunks, hrun, hall, hpieces⟩ := chunkLoop_spec h (Nat.le_refl text.length)
      refine ⟨chunks, fun fuel hfuel => ?_, fun c hc => (hall c hc).1, fun _ c hc => (hall c hc).2,
        hpieces, hpieces.whole⟩
      rw [smartChunk, if_neg hpro, if_neg hlen]
      exact chunkLoop_mono hrun hfuel

/-- `a`, `b` and `c` with an empty line between them, for messages of four characters. -/
def threeParagraphs : JsString := [0x61, newline, newline, 0x62, newline, newline, 0x63]

theorem smartChunk_iff_three : NoEmptyParagraph 4 threeParagraphs ∧ ∃ chunks,
    (∀ fuel, 7 ≤ fuel → smartChunk fuel threeParagraphs 4 = some chunks) ∧
      Chunked 4 threeParagraphs chunks :=
  have hfilled : NoEmptyParagraph 4 threeParagraphs := .inr (.inr (by decide))
  ⟨hfilled, (smartChunk_iff (by decide) threeParagraphs).mpr hfilled⟩

/-- `a`, two empty lines and `b`, for messages of four characters. -/
def emptyParagraph : JsString := [0x61, newline, newline, newline, newline, 0x62]

theorem emptyParagraph_chunked : ¬ ∃ chunks,
    (∀ fuel, emptyParagraph.length ≤ fuel → smartChunk fuel emptyParagraph 4 = some chunks) ∧
      Chunked 4 emptyParagraph chunks := by
  rintro ⟨chunks, hrun, hchunked⟩
  have hsome : some [[0x61], [], [0x62]] = some chunks := hrun 6 (Nat.le_refl 6)
  obtain rfl := Option.some.inj hsome
  exact hchunked.filled (by decide) [] (by decide) rfl

end ClaudeCluster.Messaging
