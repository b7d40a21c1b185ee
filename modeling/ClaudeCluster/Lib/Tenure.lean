import Mathlib.Data.Set.Basic
import ClaudeCluster.Lib.Splice

/-!
# Logs rooted in tenures

In a replicated log every entry carries the term of the leader that wrote it.
`tenure T` is the set of logs the leader of `T` has had while it led. A log is
`Rooted` when each of its entries stands there with exactly the past it had in
the tenure that wrote it. Rootedness only asks for tenures to exist, so it
survives their growth; if the logs of each tenure form a chain it gives log
matching (`Rooted.agree`), and `splice` keeps it (`splice_batch`).
-/

namespace ClaudeCluster.Lib

variable {E : Type} {stamp : E → Nat} {tenure tenure' : Nat → Set (List E)}
variable {l l' s s' q es : List E} {e e' : E} {i prev prevTerm T : Nat}

/-- The logs of one tenure extend each other. -/
def Chained (tenure : Nat → Set (List E)) : Prop :=
  ∀ T s s', s ∈ tenure T → s' ∈ tenure T → s <+: s' ∨ s' <+: s

def Rooted (stamp : E → Nat) (tenure : Nat → Set (List E)) (l : List E) : Prop :=
  ∀ i e, l[i]? = some e → ∃ s ∈ tenure (stamp e), l.take (i + 1) <+: s

theorem rooted_nil : Rooted stamp tenure [] := by
  intro i e h
  simp at h

theorem Rooted.mono (h : Rooted stamp tenure l) (ht : ∀ T, tenure T ⊆ tenure' T) :
    Rooted stamp tenure' l := by
  intro i e he
  obtain ⟨s, hs, hl⟩ := h i e he
  exact ⟨s, ht _ hs, hl⟩

theorem Rooted.of_isPrefix (h : Rooted stamp tenure l) (hl : l' <+: l) :
    Rooted stamp tenure l' := by
  intro i e he
  obtain ⟨s, hs, hp⟩ := h i e (getElem?_of_isPrefix hl he)
  exact ⟨s, hs, (hl.take (i + 1)).trans hp⟩

theorem Rooted.concat (h : Rooted stamp tenure l) (hm : l ++ [e] ∈ tenure (stamp e)) :
    Rooted stamp tenure (l ++ [e]) := by
  intro i x hx
  rcases Nat.lt_or_ge i l.length with hi | hi
  · rw [List.getElem?_append_left hi] at hx
    obtain ⟨s, hs, hp⟩ := h i x hx
    exact ⟨s, hs, by rwa [List.take_append_of_le_length hi]⟩
  · rw [List.getElem?_append_right hi] at hx
    have h0 : i - l.length = 0 := by
      have := (List.getElem?_eq_some_iff.mp hx).1
      simp at this
      omega
    rw [h0, List.getElem?_cons_zero, Option.some.injEq] at hx
    subst hx
    exact ⟨_, hm, List.take_prefix _ _⟩

/-- Log matching: logs with entries of one term at one position agree up to it. -/
theorem Rooted.agree (hc : Chained tenure) (hl : Rooted stamp tenure l)
    (hl' : Rooted stamp tenure l') (he : l[i]? = some e) (he' : l'[i]? = some e')
    (ht : stamp e = stamp e') : l.take (i + 1) = l'.take (i + 1) := by
  have hlen : (l.take (i + 1)).length = (l'.take (i + 1)).length := by
    have h1 := (List.getElem?_eq_some_iff.mp he).1
    have h2 := (List.getElem?_eq_some_iff.mp he').1
    simp only [List.length_take]
    omega
  obtain ⟨s, hs, hp⟩ := hl i e he
  obtain ⟨s', hs', hp'⟩ := hl' i e' he'
  rw [← ht] at hs'
  rcases hc _ _ _ hs hs' with h | h
  · exact (List.prefix_of_prefix_length_le (hp.trans h) hp' hlen.le).eq_of_length hlen
  · exact (List.prefix_of_prefix_length_le hp (hp'.trans h) hlen.le).eq_of_length hlen

/-- Entries of one term at one position have one past. -/
def Matches (stamp : E → Nat) (l l' : List E) : Prop :=
  ∀ i e e', l[i]? = some e → l'[i]? = some e' → stamp e = stamp e' →
    l.take (i + 1) = l'.take (i + 1)

theorem Rooted.matching (hc : Chained tenure) (hl : Rooted stamp tenure l)
    (hl' : Rooted stamp tenure l') : Matches stamp l l' :=
  fun _ _ _ he he' => hl.agree hc hl' he he'

theorem Rooted.isPrefix (h : Rooted stamp tenure l) (he : l.getLast? = some e) :
    ∃ s ∈ tenure (stamp e), l <+: s := by
  rw [List.getLast?_eq_getElem?] at he
  obtain ⟨s, hs, hp⟩ := h _ e he
  have hlen := (List.getElem?_eq_some_iff.mp he).1
  rw [List.take_of_length_le (by omega)] at hp
  exact ⟨s, hs, hp⟩

-- ---------------------------------------------------------------------------
-- Splicing a batch of a tenure
-- ---------------------------------------------------------------------------

/-- `es` is cut from `s` at `prev`, whose entry before the cut has `prevTerm`. -/
structure CutFrom (stamp : E → Nat) (s : List E) (prev prevTerm : Nat) (es : List E) : Prop where
  entries : es <+: s.drop prev
  prevTerm : ∀ e, 0 < prev → s[prev - 1]? = some e → stamp e = prevTerm

theorem CutFrom.getElem? {e : E} (hb : CutFrom stamp s prev prevTerm es)
    (he : es[k]? = some e) : s[prev + k]? = some e := by
  rw [← List.getElem?_drop]
  exact getElem?_of_isPrefix hb.entries he

/-- The consistency check: the log has an entry of `prevTerm` before `prev`. -/
def Fits (stamp : E → Nat) (l : List E) (prev prevTerm : Nat) : Prop :=
  prev = 0 ∨ ∃ x, l[prev - 1]? = some x ∧ stamp x = prevTerm

theorem Fits.le_length (h : Fits stamp l prev prevTerm) : prev ≤ l.length := by
  rcases h with rfl | ⟨x, hx, -⟩
  · exact Nat.zero_le _
  · have := (List.getElem?_eq_some_iff.mp hx).1
    omega

theorem Fits.splice (h : Fits stamp l prev prevTerm) :
    Fits stamp (splice stamp l prev es) prev prevTerm := by
  rcases Nat.eq_zero_or_pos prev with h0 | hpos
  · exact .inl h0
  · rcases h with h0 | ⟨x, hx, hxt⟩
    · exact .inl h0
    · refine .inr ⟨x, ?_, hxt⟩
      have hlt := (List.getElem?_eq_some_iff.mp hx).1
      rcases splice_cases stamp (by omega : prev ≤ l.length) es with ⟨heq, -⟩ | ⟨k, -, -, heq, -⟩
      · rwa [heq]
      · rw [heq, List.getElem?_append_left (by rw [List.length_take]; omega),
          List.getElem?_take_of_lt (by omega)]
        exact hx

/-- Where a batch a log covers ends, the log has an entry of the term the
tenure has there. -/
theorem stamp_eq_of_covers (hf : Fits stamp l prev prevTerm)
    (hb : CutFrom stamp s prev prevTerm es) (hp : prev ≤ s.length)
    (hcov : Covers stamp l prev es) (hpos : 0 < prev + es.length) :
    ∃ x y, l[prev + es.length - 1]? = some x ∧ s[prev + es.length - 1]? = some y ∧
      stamp x = stamp y := by
  rcases Nat.eq_zero_or_pos es.length with h0 | h0
  · -- an empty batch: the consistency check itself
    rw [h0, Nat.add_zero] at hpos ⊢
    rcases hf with rfl | ⟨x, hx, hxt⟩
    · exact absurd hpos (Nat.lt_irrefl 0)
    · obtain ⟨y, hy⟩ : ∃ y, s[prev - 1]? = some y := ⟨_, List.getElem?_eq_getElem (by omega)⟩
      exact ⟨x, y, hx, hy, hxt.trans (hb.prevTerm y hpos hy).symm⟩
  · obtain ⟨y, hy⟩ : ∃ y, es[es.length - 1]? = some y := ⟨_, List.getElem?_eq_getElem (by omega)⟩
    obtain ⟨x, hx, hxy⟩ := hcov _ y hy
    rw [Nat.add_sub_assoc h0]
    exact ⟨x, y, hx, hb.getElem? hy, hxy⟩

theorem take_eq_of_covers (hm : Matches stamp l s) (hf : Fits stamp l prev prevTerm)
    (hb : CutFrom stamp s prev prevTerm es) (hp : prev ≤ s.length)
    (hcov : Covers stamp l prev es) :
    l.take (prev + es.length) = s.take (prev + es.length) := by
  rcases Nat.eq_zero_or_pos (prev + es.length) with h0 | hpos
  · rw [h0, List.take_zero, List.take_zero]
  · obtain ⟨x, y, hx, hy, hxy⟩ := stamp_eq_of_covers hf hb hp hcov hpos
    have h := hm _ x y hx hy hxy
    rwa [Nat.sub_add_cancel hpos] at h

theorem CutFrom.take_append (hb : CutFrom stamp s prev prevTerm es) :
    s.take prev ++ es <+: s := by
  have h := (List.prefix_append_right_inj (s.take prev)).mpr hb.entries
  rwa [List.take_append_drop] at h

/-- A batch cut from a tenure either leaves a log that matches it as it is or
makes it the part of the tenure that ends with the batch. -/
theorem splice_batch (hm : Matches stamp l s) (hf : Fits stamp l prev prevTerm)
    (hb : CutFrom stamp s prev prevTerm es) :
    (splice stamp l prev es = l ∧ Covers stamp l prev es) ∨
    (splice stamp l prev es = s.take prev ++ es ∧ ¬ s.take prev ++ es <+: l) := by
  rcases splice_cases stamp hf.le_length es with h | ⟨k, e, he, hR, -, hcov, hlack⟩
  · exact .inl h
  · right
    have hk : k < es.length := (List.getElem?_eq_some_iff.mp he).1
    have hdrop : es.length ≤ (s.drop prev).length := hb.entries.length_le
    rw [List.length_drop] at hdrop
    have hp : prev ≤ s.length := by omega
    have hcut : CutFrom stamp s prev prevTerm (es.take k) :=
      ⟨(List.take_prefix _ _).trans hb.entries, hb.prevTerm⟩
    have htake := take_eq_of_covers hm hf hcut hp hcov
    rw [List.length_take, Nat.min_eq_left hk.le] at htake
    have hsk : s.take (prev + k) = s.take prev ++ es.take k := by
      have h := List.prefix_iff_eq_take.mp hcut.entries
      rw [List.length_take, Nat.min_eq_left hk.le] at h
      rw [List.take_add, ← h]
    constructor
    · rw [hR, htake, hsk, List.append_assoc, List.take_append_drop]
    · intro hpre
      have hx : (s.take prev ++ es)[prev + k]? = some e := by
        have hlen : (s.take prev).length = prev := by simp [hp]
        rw [List.getElem?_append_right (by omega), hlen, Nat.add_sub_cancel_left]
        exact he
      exact hlack e (getElem?_of_isPrefix hpre hx) rfl

theorem take_splice (hm : Matches stamp l s) (hf : Fits stamp l prev prevTerm)
    (hb : CutFrom stamp s prev prevTerm es) (hp : prev ≤ s.length) :
    (splice stamp l prev es).take (prev + es.length) = s.take (prev + es.length) := by
  rcases splice_batch hm hf hb with ⟨h, hcov⟩ | ⟨h, -⟩
  · rw [h]
    exact take_eq_of_covers hm hf hb hp hcov
  · have hlen : (s.take prev ++ es).length = prev + es.length := by simp [hp]
    rw [h, List.take_of_length_le hlen.le, ← hlen]
    exact List.prefix_iff_eq_take.mp hb.take_append

/-- What a log has in common with a log of the tenure survives the splice. -/
theorem isPrefix_splice (hc : Chained tenure) (hl : Rooted stamp tenure l)
    (hs : Rooted stamp tenure s) (hf : Fits stamp l prev prevTerm)
    (hb : CutFrom stamp s prev prevTerm es) (hql : q <+: l) (hss : s <+: s' ∨ s' <+: s)
    (hqs : q <+: s') : q <+: splice stamp l prev es := by
  rcases splice_batch (hl.matching hc hs) hf hb with ⟨h, -⟩ | ⟨h, hn⟩
  · rwa [h]
  · rw [h]
    have hcomp : q <+: s.take prev ++ es ∨ s.take prev ++ es <+: q := by
      rcases hss with hss | hss
      · exact List.prefix_or_prefix_of_prefix hqs (hb.take_append.trans hss)
      · exact List.prefix_or_prefix_of_prefix (hqs.trans hss) hb.take_append
    rcases hcomp with hq | hq
    · exact hq
    · exact absurd (hq.trans hql) hn

theorem Rooted.splice (hc : Chained tenure) (hl : Rooted stamp tenure l)
    (hs : Rooted stamp tenure s) (hf : Fits stamp l prev prevTerm)
    (hb : CutFrom stamp s prev prevTerm es) :
    Rooted stamp tenure (splice stamp l prev es) := by
  rcases splice_batch (hl.matching hc hs) hf hb with ⟨h, -⟩ | ⟨h, -⟩
  · rwa [h]
  · rw [h]
    exact hs.of_isPrefix hb.take_append

end ClaudeCluster.Lib
