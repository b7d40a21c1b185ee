import Mathlib.Data.List.Basic

/-!
# UTF-8

A decoder that does not fail: every maximal part of a character that is not
completed, and every byte that starts none, becomes U+FFFD. The encoder is
`String.utf8EncodeChar`, and what it wrote is read back (`decode_encode`).

`stream` decodes the bytes as far as they go, and a `Decoder` goes on from there
with the next: it gives the same text however the bytes were cut
(`flatten_texts`).
-/

namespace ClaudeCluster.Lib.Utf8

def encode (cs : List Char) : List UInt8 := cs.flatMap String.utf8EncodeChar

def replacement : Char := .ofNat 0xfffd

/-- A character of which bytes have been read: its bits so far, how many bytes
it `needs`, and the bounds of the next. -/
structure Pending where
  needs : Nat
  bits : Nat
  lower : Nat := 0x80
  upper : Nat := 0xbf

def lead (b : Nat) : Char ⊕ Pending :=
  if b < 0x80 then .inl (.ofNat b)
  else if 0xc2 ≤ b ∧ b ≤ 0xdf then .inr { needs := 1, bits := b - 0xc0 }
  else if 0xe0 ≤ b ∧ b ≤ 0xef then
    .inr {
      needs := 2
      bits := b - 0xe0
      lower := if b = 0xe0 then 0xa0 else 0x80
      upper := if b = 0xed then 0x9f else 0xbf }
  else if 0xf0 ≤ b ∧ b ≤ 0xf4 then
    .inr {
      needs := 3
      bits := b - 0xf0
      lower := if b = 0xf0 then 0x90 else 0x80
      upper := if b = 0xf4 then 0x8f else 0xbf }
  else .inl replacement

def decodeFrom : Option Pending → List UInt8 → List Char
  | none, [] => []
  | some _, [] => [replacement]
  | none, b :: bytes =>
    match lead b.toNat with
    | .inl c => c :: decodeFrom none bytes
    | .inr p => decodeFrom (some p) bytes
  | some p, b :: bytes =>
    if p.lower ≤ b.toNat ∧ b.toNat ≤ p.upper then
      let bits := p.bits * 64 + (b.toNat - 0x80)
      if p.needs = 1 then .ofNat bits :: decodeFrom none bytes
      else decodeFrom (some { needs := p.needs - 1, bits }) bytes
    else
      -- the byte that does not go on may start a character itself
      match lead b.toNat with
      | .inl c => replacement :: c :: decodeFrom none bytes
      | .inr p => replacement :: decodeFrom (some p) bytes

def decode (bytes : List UInt8) : List Char := decodeFrom none bytes

def push (c : Char) (r : List Char × Option Pending) : List Char × Option Pending := (c :: r.1, r.2)

/-- The characters that the bytes complete, and the one that is left to go on with. -/
def stream : Option Pending → List UInt8 → List Char × Option Pending
  | p, [] => ([], p)
  | none, b :: bytes =>
    match lead b.toNat with
    | .inl c => push c (stream none bytes)
    | .inr p => stream (some p) bytes
  | some p, b :: bytes =>
    if p.lower ≤ b.toNat ∧ b.toNat ≤ p.upper then
      let bits := p.bits * 64 + (b.toNat - 0x80)
      if p.needs = 1 then push (.ofNat bits) (stream none bytes)
      else stream (some { needs := p.needs - 1, bits }) bytes
    else
      match lead b.toNat with
      | .inl c => push replacement (push c (stream none bytes))
      | .inr p => push replacement (stream (some p) bytes)

def flush : Option Pending → List Char
  | none => []
  | some _ => [replacement]

@[simp]
theorem push_fst (c : Char) (r : List Char × Option Pending) : (push c r).1 = c :: r.1 := rfl

@[simp]
theorem push_snd (c : Char) (r : List Char × Option Pending) : (push c r).2 = r.2 := rfl

theorem decodeFrom_eq (p : Option Pending) (bytes : List UInt8) :
    decodeFrom p bytes = (stream p bytes).1 ++ flush (stream p bytes).2 := by
  induction bytes generalizing p with
  | nil => cases p <;> rfl
  | cons b bytes ih =>
    cases p with
    | none =>
      rw [decodeFrom, stream]
      cases lead b.toNat with
      | inl c => simp [ih]
      | inr p => simp [ih]
    | some p =>
      rw [decodeFrom, stream]
      split
      case isTrue =>
        dsimp only
        split
        case isTrue => simp [ih]
        case isFalse => exact ih _
      case isFalse =>
        cases lead b.toNat with
        | inl c => simp [ih]
        | inr p => simp [ih]

/-- Where bytes are cut makes no difference. -/
theorem stream_append (p : Option Pending) (bytes bytes' : List UInt8) :
    stream p (bytes ++ bytes') =
      ((stream p bytes).1 ++ (stream (stream p bytes).2 bytes').1,
        (stream (stream p bytes).2 bytes').2) := by
  induction bytes generalizing p with
  | nil => simp [stream]
  | cons b bytes ih =>
    rw [List.cons_append]
    cases p with
    | none =>
      rw [stream, stream]
      cases lead b.toNat with
      | inl c => simp [push, ih]
      | inr p => simp [ih]
    | some p =>
      rw [stream, stream]
      split
      case isTrue =>
        dsimp only
        split
        case isTrue => simp [push, ih]
        case isFalse => exact ih _
      case isFalse =>
        cases lead b.toNat with
        | inl c => simp [push, ih]
        | inr p => simp [push, ih]

-- ---------------------------------------------------------------------------
-- There and back
-- ---------------------------------------------------------------------------

section
variable {n needs bits lower upper : Nat} {bytes : List UInt8}

theorem stream_last (hn : n < 64) (hlower : lower ≤ n + 0x80) (hupper : n + 0x80 ≤ upper) :
    stream (some ⟨1, bits, lower, upper⟩) (.ofNat (n + 0x80) :: bytes) =
      push (.ofNat (bits * 64 + n)) (stream none bytes) := by
  have hbyte : (UInt8.ofNat (n + 0x80)).toNat = n + 0x80 :=
    UInt8.toNat_ofNat_of_lt' (by unfold UInt8.size; omega)
  rw [stream, hbyte, if_pos ⟨hlower, hupper⟩, Nat.add_sub_cancel]
  rfl

theorem stream_next (hn : n < 64) (hlower : lower ≤ n + 0x80) (hupper : n + 0x80 ≤ upper) :
    stream (some ⟨needs + 2, bits, lower, upper⟩) (.ofNat (n + 0x80) :: bytes) =
      stream (some { needs := needs + 1, bits := bits * 64 + n }) bytes := by
  have hbyte : (UInt8.ofNat (n + 0x80)).toNat = n + 0x80 :=
    UInt8.toNat_ofNat_of_lt' (by unfold UInt8.size; omega)
  rw [stream, hbyte, if_pos ⟨hlower, hupper⟩, Nat.add_sub_cancel]
  rfl

theorem stream_lead (hn : n < 256) :
    stream none (.ofNat n :: bytes) =
      match lead n with
      | .inl c => push c (stream none bytes)
      | .inr p => stream (some p) bytes := by
  have hbyte : (UInt8.ofNat n).toNat = n := UInt8.toNat_ofNat_of_lt' (by unfold UInt8.size; omega)
  rw [stream, hbyte]

theorem lead_two (hlower : 2 ≤ n) (hupper : n < 32) :
    lead (n + 0xc0) = .inr { needs := 1, bits := n } := by
  rw [lead, if_neg (by omega), if_pos (by omega), Nat.add_sub_cancel]

theorem lead_three (h : n < 16) :
    lead (n + 0xe0) =
      .inr ⟨2, n, if n = 0 then 0xa0 else 0x80, if n = 0xd then 0x9f else 0xbf⟩ := by
  have hfirst : n + 0xe0 = 0xe0 ↔ n = 0 := by omega
  have hlast : n + 0xe0 = 0xed ↔ n = 0xd := by omega
  rw [lead, if_neg (by omega), if_neg (by omega), if_pos (by omega), Nat.add_sub_cancel]
  simp only [hfirst, hlast]

theorem lead_four (h : n ≤ 4) :
    lead (n + 0xf0) =
      .inr ⟨3, n, if n = 0 then 0x90 else 0x80, if n = 4 then 0x8f else 0xbf⟩ := by
  have hfirst : n + 0xf0 = 0xf0 ↔ n = 0 := by omega
  have hlast : n + 0xf0 = 0xf4 ↔ n = 4 := by omega
  rw [lead, if_neg (by omega), if_neg (by omega), if_neg (by omega), if_pos (by omega),
    Nat.add_sub_cancel]
  simp only [hfirst, hlast]

theorem stream_encodeChar (c : Char) :
    stream none (String.utf8EncodeChar c ++ bytes) = push c (stream none bytes) := by
  have hvalid : c.toNat < 0xd800 ∨ 0xdfff < c.toNat ∧ c.toNat < 0x110000 := c.valid
  have hc : Char.ofNat c.toNat = c := Char.ofNat_toNat c
  have hval : c.val.toNat = c.toNat := rfl
  unfold String.utf8EncodeChar
  dsimp only
  rw [hval]
  generalize c.toNat = v at hvalid hc ⊢
  split
  case isTrue h =>
    rw [List.singleton_append, stream_lead (by omega), lead, if_pos (by omega), hc]
  case isFalse h =>
    split
    case isTrue h2 =>
      have hbits : v / 64 % 0x20 * 64 + v % 0x40 = v := by omega
      rw [List.cons_append, List.singleton_append, stream_lead (by omega),
        lead_two (by omega) (by omega)]
      dsimp only
      rw [stream_last (by omega) (by omega) (by omega), hbits, hc]
    case isFalse h2 =>
      split
      case isTrue h3 =>
        have hbits : (v / 4096 % 0x10 * 64 + v / 64 % 0x40) * 64 + v % 0x40 = v := by omega
        rw [List.cons_append, List.cons_append, List.singleton_append, stream_lead (by omega),
          lead_three (by omega)]
        dsimp only
        rw [stream_next (by omega) (by split <;> omega) (by split <;> omega),
          stream_last (by omega) (by omega) (by omega), hbits, hc]
      case isFalse h3 =>
        have hbits : ((v / 262144 % 0x08 * 64 + v / 4096 % 0x40) * 64 + v / 64 % 0x40) * 64 +
            v % 0x40 = v := by omega
        rw [List.cons_append, List.cons_append, List.cons_append, List.singleton_append,
          stream_lead (by omega), lead_four (by omega)]
        dsimp only
        rw [stream_next (by omega) (by split <;> omega) (by split <;> omega),
          stream_next (by omega) (by omega) (by omega),
          stream_last (by omega) (by omega) (by omega), hbits, hc]

end

/-- What was written is read, and nothing is left to go on with. -/
theorem stream_encode (cs : List Char) : stream none (encode cs) = (cs, none) := by
  induction cs with
  | nil => rfl
  | cons c cs ih =>
    rw [encode, List.flatMap_cons, stream_encodeChar]
    exact congrArg (push c) ih

theorem decode_encode (cs : List Char) : decode (encode cs) = cs := by
  rw [decode, decodeFrom_eq, stream_encode, flush, List.append_nil]

-- ---------------------------------------------------------------------------
-- Texts in pieces
-- ---------------------------------------------------------------------------

theorem eq_nil_of_stream {p : Option Pending} {bytes : List UInt8}
    (h : stream p bytes = ([], none)) : bytes = [] := by
  have hnil : ∀ {p : Option Pending} {bytes : List UInt8}, stream p bytes = ([], none) →
      p = none := by
    intro p bytes h
    induction bytes generalizing p with
    | nil => exact congrArg Prod.snd h
    | cons b bytes ih =>
      cases p with
      | none => rfl
      | some p =>
        rw [stream] at h
        split at h
        case isTrue =>
          dsimp only at h
          split at h
          case isTrue => cases h
          case isFalse => cases ih h
        case isFalse =>
          cases hlead : lead b.toNat with
          | inl c =>
            rw [hlead] at h
            cases h
          | inr q =>
            rw [hlead] at h
            cases h
  cases bytes with
  | nil => rfl
  | cons b bytes =>
    obtain rfl := hnil h
    rw [stream] at h
    cases hlead : lead b.toNat with
    | inl c =>
      rw [hlead] at h
      cases h
    | inr q =>
      rw [hlead] at h
      cases hnil h

theorem encode_append (cs cs' : List Char) : encode (cs ++ cs') = encode cs ++ encode cs' :=
  List.flatMap_append

section
variable {cs cs' : List Char} {bytes rest : List UInt8}

theorem length_encode_ascii {c : Char} (h : c.toNat < 0x80) : (encode [c]).length = 1 := by
  have hval : c.val.toNat ≤ 0x7f := Nat.le_of_lt_succ h
  rw [encode, List.flatMap_singleton, String.utf8EncodeChar, if_pos hval]
  rfl

/-- What the front of an encoded text completes is the front of the text. -/
theorem stream_prefix (h : bytes ++ rest = encode cs) : (stream none bytes).1 <+: cs := by
  have hstream := stream_encode cs
  rw [← h, stream_append] at hstream
  exact ⟨_, congrArg Prod.fst hstream⟩

theorem length_encode_le_iff (h : bytes ++ rest = encode (cs ++ cs')) :
    (encode cs).length ≤ bytes.length ↔ cs.length ≤ (stream none bytes).1.length := by
  rw [encode_append] at h
  constructor
  · intro hlength
    obtain ⟨more, rfl⟩ : encode cs <+: bytes :=
      List.prefix_of_prefix_length_le ⟨encode cs', rfl⟩ ⟨rest, h⟩ hlength
    rw [stream_append, stream_encode, List.length_append]
    exact Nat.le_add_right _ _
  · intro hlength
    by_contra hshort
    obtain ⟨more, hmore⟩ : bytes <+: encode cs :=
      List.prefix_of_prefix_length_le ⟨rest, h⟩ ⟨encode cs', rfl⟩ (by omega)
    have hstream := stream_encode cs
    rw [← hmore, stream_append] at hstream
    obtain ⟨hcs, hnone⟩ := Prod.mk.inj hstream
    have hcount := congrArg List.length hcs
    rw [List.length_append] at hcount
    have hfst : (stream (stream none bytes).2 more).1 = [] :=
      List.length_eq_zero_iff.mp (by omega)
    have hnil := eq_nil_of_stream (Prod.ext hfst hnone)
    rw [← hmore, hnil, List.append_nil] at hshort
    exact hshort (Nat.le_refl _)

end

-- ---------------------------------------------------------------------------
-- A decoder that is called again
-- ---------------------------------------------------------------------------

/-- `TextDecoder`, which takes a byte order mark for no part of the text. -/
structure Decoder where
  pending : Option Pending := none
  bomSeen : Bool := false

def byteOrderMark : Char := .ofNat 0xfeff

namespace Decoder

/-- `decoder.decode(bytes, { stream: true })` -/
def decode (d : Decoder) (bytes : List UInt8) : List Char × Decoder :=
  let (cs, pending) := stream d.pending bytes
  match d.bomSeen, cs with
  | true, cs => (cs, { pending, bomSeen := true })
  | false, [] => ([], { pending })
  | false, c :: cs =>
    (if c = byteOrderMark then cs else c :: cs, { pending, bomSeen := true })

def texts (d : Decoder) : List (List UInt8) → List (List Char)
  | [] => []
  | bytes :: reads => (d.decode bytes).1 :: (d.decode bytes).2.texts reads

theorem take_texts (d : Decoder) (reads : List (List UInt8)) (n : Nat) :
    (d.texts reads).take n = d.texts (reads.take n) := by
  induction reads generalizing d n with
  | nil => simp [texts]
  | cons bytes reads ih =>
    cases n with
    | zero => rfl
    | succ n => rw [texts, List.take_succ_cons, List.take_succ_cons, texts, ih]

/-- Without a byte order mark the texts are what the bytes complete. -/
theorem flatten_texts (d : Decoder) (reads : List (List UInt8))
    (h : d.bomSeen ∨ (stream d.pending reads.flatten).1.head? ≠ some byteOrderMark) :
    (d.texts reads).flatten = (stream d.pending reads.flatten).1 := by
  induction reads generalizing d with
  | nil => rfl
  | cons bytes reads ih =>
    obtain ⟨pending, bomSeen⟩ := d
    rw [List.flatten_cons, stream_append] at h ⊢
    rw [texts, List.flatten_cons]
    cases bomSeen with
    | true => exact congrArg _ (ih ⟨_, true⟩ (.inl rfl))
    | false =>
      rw [decode]
      cases hread : (stream pending bytes).1 with
      | nil =>
        dsimp only at h ⊢
        rw [hread] at h ⊢
        exact ih ⟨_, false⟩ (h.imp_right id)
      | cons c cs =>
        dsimp only at h ⊢
        rw [hread] at h ⊢
        have hc : c ≠ byteOrderMark := by
          rintro rfl
          rcases h with h | h
          · cases h
          · exact h rfl
        dsimp only
        rw [if_neg hc]
        exact congrArg _ (ih ⟨_, true⟩ (.inl rfl))

end Decoder

end ClaudeCluster.Lib.Utf8
