import Mathlib.Data.List.Basic

/-!
# Global replacement

Searching a text for a pattern from left to right, as `String.replace` does
with a global regular expression. A pattern says what it finds at a position,
given the symbol before it; `pieces` takes a text apart into what was found
and the symbols in between. The text and the text with everything replaced are
both joined from the same pieces, so that a replacement is argued about piece
by piece (`join_pieces`). Where a pattern does not look back, the pieces are
those of the front and those of the rest (`pieces_source`, `pieces_none`).
-/

namespace ClaudeCluster.Lib

/-- `β` is what the groups capture, `source` the text it was found as. -/
structure Pattern (α β : Type) where
  find : Option α → List α → Option β
  source : β → List α
  sound : ∀ {before text b}, find before text = some b → source b ≠ [] ∧ source b <+: text

namespace Pattern

variable {α β : Type}

/-- The pieces of a text, its first `skip` symbols left out. -/
def pieces (p : Pattern α β) : Nat → Option α → List α → List (α ⊕ β)
  | _, _, [] => []
  | skip + 1, _, a :: text => p.pieces skip (some a) text
  | 0, before, a :: text =>
    match p.find before (a :: text) with
    | some b => .inr b :: p.pieces ((p.source b).length - 1) (some a) text
    | none => .inl a :: p.pieces 0 (some a) text

def join (f : β → List α) (ps : List (α ⊕ β)) : List α := ps.flatMap (Sum.elim (fun a => [a]) f)

/-- `text.replace(p, f)` with a global pattern. -/
def replace (p : Pattern α β) (f : β → List α) (text : List α) : List α :=
  join f (p.pieces 0 none text)

def found (p : Pattern α β) (text : List α) : List β :=
  (p.pieces 0 none text).filterMap Sum.getRight?

section
variable {p : Pattern α β} {f g : β → List α} {ps : List (α ⊕ β)} {text : List α} {b : β}

@[simp] theorem join_nil : join f [] = [] := rfl

@[simp] theorem join_inl (a : α) : join f (.inl a :: ps) = a :: join f ps := rfl

@[simp] theorem join_inr : join f (.inr b :: ps) = f b ++ join f ps := rfl

theorem exists_rest (h : p.find none' text = some b) :
    ∃ rest, text = p.source b ++ rest ∧ (p.source b).length ≠ 0 := by
  obtain ⟨hne, rest, hrest⟩ := p.sound h
  exact ⟨rest, hrest.symm, fun hl => hne (List.eq_nil_of_length_eq_zero hl)⟩

theorem join_pieces_drop (p : Pattern α β) (skip : Nat) (before : Option α) (text : List α) :
    join p.source (p.pieces skip before text) = text.drop skip := by
  induction text generalizing skip before with
  | nil => simp [pieces]
  | cons a text ih =>
    cases skip with
    | succ skip => simpa [pieces] using ih skip (some a)
    | zero =>
      simp only [pieces]
      split
      case h_1 b hb =>
        obtain ⟨rest, hrest, hlen⟩ := exists_rest hb
        have hdrop : text.drop ((p.source b).length - 1) = rest := by
          have hcons := congrArg (List.drop (p.source b).length) hrest
          rw [List.drop_left] at hcons
          rw [← hcons, ← Nat.succ_pred_eq_of_ne_zero hlen]
          rfl
        rw [join_inr, ih, hdrop, List.drop_zero, hrest]
      case h_2 => rw [join_inl, ih, List.drop_zero, List.drop_zero]

/-- The text is joined from its pieces. -/
theorem join_pieces (p : Pattern α β) (text : List α) :
    join p.source (p.pieces 0 none text) = text := join_pieces_drop p 0 none text

theorem mem_found : b ∈ p.found text ↔ .inr b ∈ p.pieces 0 none text := by
  simp only [found, List.mem_filterMap]
  constructor
  · rintro ⟨x, hx, hb⟩
    cases x with
    | inl => cases hb
    | inr => cases hb; exact hx
  · exact fun h => ⟨_, h, rfl⟩

-- ---------------------------------------------------------------------------
-- Patterns that do not look back
-- ---------------------------------------------------------------------------

def Blind (p : Pattern α β) : Prop := ∀ before text, p.find before text = p.find none text

theorem pieces_blind (hp : p.Blind) (before : Option α) (text : List α) :
    p.pieces 0 before text = p.pieces 0 none text := by
  cases text with
  | nil => rfl
  | cons a text =>
    simp only [pieces]
    rw [hp before]

theorem pieces_skip (hp : p.Blind) (skip : Nat) (before : Option α) (text : List α) :
    p.pieces skip before text = p.pieces 0 none (text.drop skip) := by
  induction text generalizing skip before with
  | nil => simp [pieces]
  | cons a text ih =>
    cases skip with
    | zero => exact pieces_blind hp before (a :: text)
    | succ skip => exact ih skip (some a)

theorem pieces_source (hp : p.Blind) (rest : List α) (h : p.find none (p.source b ++ rest) = some b) :
    p.pieces 0 none (p.source b ++ rest) = .inr b :: p.pieces 0 none rest := by
  obtain ⟨a, front, hsource⟩ := List.exists_cons_of_ne_nil (p.sound h).1
  rw [hsource, List.cons_append] at h ⊢
  have hdrop : (front ++ rest).drop ((p.source b).length - 1) = rest := by simp [hsource]
  simp only [pieces, h]
  rw [pieces_skip hp, hdrop]

theorem pieces_none (hp : p.Blind) {a : α} (h : p.find none (a :: text) = none) :
    p.pieces 0 none (a :: text) = .inl a :: p.pieces 0 none text := by
  simp only [pieces, h]
  rw [pieces_blind hp]

theorem replace_source (hp : p.Blind) (rest : List α)
    (h : p.find none (p.source b ++ rest) = some b) :
    p.replace f (p.source b ++ rest) = f b ++ p.replace f rest := by
  rw [replace, pieces_source hp rest h]
  rfl

theorem replace_none (hp : p.Blind) {a : α} (h : p.find none (a :: text) = none) :
    p.replace f (a :: text) = a :: p.replace f text := by
  rw [replace, pieces_none hp h]
  rfl

theorem found_source (hp : p.Blind) (rest : List α)
    (h : p.find none (p.source b ++ rest) = some b) :
    p.found (p.source b ++ rest) = b :: p.found rest := by
  rw [found, pieces_source hp rest h]
  rfl

theorem found_none (hp : p.Blind) {a : α} (h : p.find none (a :: text) = none) :
    p.found (a :: text) = p.found text := by
  rw [found, pieces_none hp h]
  rfl

end

end Pattern

end ClaudeCluster.Lib
