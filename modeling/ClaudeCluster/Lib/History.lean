import Mathlib.Data.Finset.Card
import Mathlib.Data.Set.Insert
import Mathlib.Logic.Function.Basic
import ClaudeCluster.Lib.Tenure

/-!
# Histories of a replicated log

What a group of servers has done, as sets that only grow: the logs each
leader had (`tenure`), the logs each server has held as its leader's in a term
(`held`) and the votes given, each with the voter's log (`vote`). The
operations are the moves of leader-based replication; each comes with what it
needs to keep

* `Matching`: logs are rooted and a leader's log is the longest of its tenure;
* `Keeping`: a server gives up nothing it held unless a later leader lacks it;
* `Electing`: a tenure starts from a log no voter of a majority was ahead of.

`Committed.isPrefix` concludes from the three that what a majority holds in
the term that wrote it is in every later tenure, and `Committed.comparable`
that committed logs extend each other.
-/

namespace ClaudeCluster.Lib

@[ext] structure History (ι E : Type) where
  term : ι → Nat
  log : ι → List E
  leading : ι → Prop
  tenure : Nat → Set (List E)
  held : ι → Nat → Set (List E)
  vote : ι → Nat → ι → Set (List E)

namespace History

variable {ι E : Type} [DecidableEq ι] {stamp : E → Nat} {h : History ι E} {n : ι} {D : Set ι}

-- ---------------------------------------------------------------------------
-- Operations
-- ---------------------------------------------------------------------------

def raise (h : History ι E) (n : ι) (T : Nat) : History ι E :=
  { h with term := Function.update h.term n T, leading := Function.update h.leading n False }

/-- `n` enters the next term and votes for itself. -/
def campaign (h : History ι E) (n : ι) : History ι E :=
  { h.raise n (h.term n + 1) with
    vote := fun v T c => h.vote v T c ∪ {l | v = n ∧ T = h.term n + 1 ∧ c = n ∧ l = h.log n} }

def grant (h : History ι E) (n c : ι) : History ι E :=
  { h with
    vote := fun v T d => h.vote v T d ∪ {l | v = n ∧ T = h.term n ∧ d = c ∧ l = h.log n} }

def elect (h : History ι E) (n : ι) : History ι E :=
  { h with
    leading := Function.update h.leading n True
    tenure := fun T => h.tenure T ∪ {l | T = h.term n ∧ l = h.log n}
    held := fun m T => h.held m T ∪ {l | m = n ∧ T = h.term n ∧ l = h.log n} }

def push (h : History ι E) (n : ι) (e : E) : History ι E :=
  { h with
    log := Function.update h.log n (h.log n ++ [e])
    tenure := fun T => h.tenure T ∪ {l | T = h.term n ∧ l = h.log n ++ [e]}
    held := fun m T => h.held m T ∪ {l | m = n ∧ T = h.term n ∧ l = h.log n ++ [e]} }

/-- `n` takes over `l` as its log in its term. -/
def accept (h : History ι E) (n : ι) (l : List E) : History ι E :=
  { h with
    log := Function.update h.log n l
    held := fun m T => h.held m T ∪ {x | m = n ∧ T = h.term n ∧ x = l} }

def reset (h : History ι E) (n : ι) (T : Nat) : History ι E :=
  { h.raise n T with log := Function.update h.log n [] }

-- ---------------------------------------------------------------------------
-- Matching
-- ---------------------------------------------------------------------------

structure Matching (stamp : E → Nat) (h : History ι E) : Prop where
  chained : Chained h.tenure
  logs : ∀ n, Rooted stamp h.tenure (h.log n)
  tenures : ∀ T s, s ∈ h.tenure T → Rooted stamp h.tenure s
  current : ∀ n, h.leading n → h.log n ∈ h.tenure (h.term n)
  longest : ∀ n s, h.leading n → s ∈ h.tenure (h.term n) → s <+: h.log n
  sole : ∀ m n, h.leading m → h.leading n → h.term m = h.term n → m = n

omit [DecidableEq ι] in
theorem matching_empty (hlog : ∀ n, h.log n = []) (hten : ∀ T, h.tenure T = ∅)
    (hlead : ∀ n, ¬ h.leading n) : Matching stamp h where
  chained T s _ hs := absurd (hten T ▸ hs) (Set.notMem_empty s)
  logs n := hlog n ▸ rooted_nil
  tenures T s hs := absurd (hten T ▸ hs) (Set.notMem_empty s)
  current n hn := absurd hn (hlead n)
  longest n _ hn := absurd hn (hlead n)
  sole m _ hm := absurd hm (hlead m)

theorem leading_update {n m : ι} (hm : Function.update h.leading n False m) :
    m ≠ n ∧ h.leading m := by
  by_cases hmn : m = n
  · subst hmn
    simp at hm
  · simpa [hmn] using hm

theorem Matching.raise (hM : Matching stamp h) (n : ι) (T : Nat) :
    Matching stamp (h.raise n T) where
  chained := hM.chained
  logs := hM.logs
  tenures := hM.tenures
  current m hm := by
    obtain ⟨hmn, hm⟩ := leading_update hm
    simpa [History.raise, hmn] using hM.current m hm
  longest m s hm hs := by
    obtain ⟨hmn, hm⟩ := leading_update hm
    exact hM.longest m s hm (by simpa [History.raise, hmn] using hs)
  sole m k hm hk hmk := by
    obtain ⟨hmn, hm⟩ := leading_update hm
    obtain ⟨hkn, hk⟩ := leading_update hk
    exact hM.sole m k hm hk (by simpa [History.raise, hmn, hkn] using hmk)

theorem Matching.campaign (hM : Matching stamp h) (n : ι) : Matching stamp (h.campaign n) := by
  have h' := hM.raise n (h.term n + 1)
  exact ⟨h'.chained, h'.logs, h'.tenures, h'.current, h'.longest, h'.sole⟩

omit [DecidableEq ι] in
theorem Matching.grant (hM : Matching stamp h) (n c : ι) : Matching stamp (h.grant n c) :=
  ⟨hM.chained, hM.logs, hM.tenures, hM.current, hM.longest, hM.sole⟩

theorem Matching.reset (hM : Matching stamp h) (n : ι) (T : Nat) :
    Matching stamp (h.reset n T) := by
  have h' := hM.raise n T
  refine ⟨h'.chained, ?_, h'.tenures, ?_, ?_, h'.sole⟩
  · intro m
    by_cases hmn : m = n
    · subst hmn
      simpa [History.reset] using rooted_nil
    · simpa [History.reset, History.raise, hmn] using hM.logs m
  · intro m hm
    have hmn := (leading_update hm).1
    simpa [History.reset, History.raise, hmn] using h'.current m hm
  · intro m s hm hs
    have hmn := (leading_update hm).1
    simpa [History.reset, History.raise, hmn] using h'.longest m s hm hs

theorem Matching.elect (hM : Matching stamp h) (hfresh : h.tenure (h.term n) = ∅) :
    Matching stamp (h.elect n) := by
  have hsub : ∀ T, h.tenure T ⊆ (h.elect n).tenure T := fun T => Set.subset_union_left
  -- whoever leads this term already would have given it a tenure
  have hlead : ∀ m, (h.elect n).leading m → m = n ∨ (h.leading m ∧ h.term m ≠ h.term n) := by
    intro m hm
    by_cases hmn : m = n
    · exact .inl hmn
    · have hm : h.leading m := by simpa [History.elect, hmn] using hm
      refine .inr ⟨hm, fun ht => ?_⟩
      have hin := hM.current m hm
      rw [ht, hfresh] at hin
      exact hin
  have hnew : ∀ s, s ∈ (h.elect n).tenure (h.term n) → s = h.log n := by
    rintro s (hs | hs)
    · rw [hfresh] at hs
      exact hs.elim
    · exact hs.2
  refine ⟨?_, fun m => (hM.logs m).mono hsub, ?_, ?_, ?_, ?_⟩
  · rintro T s s' (hs | ⟨rfl, rfl⟩) hs'
    · rcases hs' with hs' | ⟨rfl, rfl⟩
      · exact hM.chained T s s' hs hs'
      · rw [hfresh] at hs
        exact hs.elim
    · rw [hnew s' hs']
      exact .inl (List.prefix_refl _)
  · rintro T s (hs | ⟨rfl, rfl⟩)
    · exact (hM.tenures T s hs).mono hsub
    · exact (hM.logs n).mono hsub
  · intro m hm
    rcases hlead m hm with rfl | ⟨hm, -⟩
    · exact .inr ⟨rfl, rfl⟩
    · exact .inl (hM.current m hm)
  · intro m s hm hs
    rcases hlead m hm with rfl | ⟨hm, hne⟩
    · rw [hnew s hs]
      exact List.prefix_refl _
    · rcases hs with hs | hs
      · exact hM.longest m s hm hs
      · exact absurd hs.1 hne
  · intro m k hm hk hmk
    rcases hlead m hm with rfl | ⟨hm, hmn⟩ <;> rcases hlead k hk with rfl | ⟨hk, hkn⟩
    · rfl
    · exact absurd hmk.symm hkn
    · exact absurd hmk hmn
    · exact hM.sole m k hm hk hmk

theorem Matching.push {e : E} (hM : Matching stamp h) (hn : h.leading n)
    (he : stamp e = h.term n) : Matching stamp (h.push n e) := by
  have hsub : ∀ T, h.tenure T ⊆ (h.push n e).tenure T := fun T => Set.subset_union_left
  have hext : h.log n <+: h.log n ++ [e] := List.prefix_append _ _
  have hroot : Rooted stamp (h.push n e).tenure (h.log n ++ [e]) :=
    ((hM.logs n).mono hsub).concat (.inr ⟨he, rfl⟩)
  refine ⟨?_, ?_, ?_, ?_, ?_, hM.sole⟩
  · rintro T s s' (hs | ⟨rfl, rfl⟩) (hs' | ⟨hT, rfl⟩)
    · exact hM.chained T s s' hs hs'
    · exact .inl ((hM.longest n s hn (hT ▸ hs)).trans hext)
    · exact .inr ((hM.longest n s' hn hs').trans hext)
    · exact .inl (List.prefix_refl _)
  · intro m
    by_cases hmn : m = n
    · subst hmn
      simpa [History.push] using hroot
    · simpa [History.push, hmn] using (hM.logs m).mono hsub
  · rintro T s (hs | ⟨rfl, rfl⟩)
    · exact (hM.tenures T s hs).mono hsub
    · exact hroot
  · intro m hm
    by_cases hmn : m = n
    · subst hmn
      exact .inr ⟨rfl, by simp [History.push]⟩
    · have h' := hM.current m hm
      exact .inl (by simpa [History.push, hmn] using h')
  · intro m s hm hs
    by_cases hmn : m = n
    · subst hmn
      rw [show (h.push m e).log m = h.log m ++ [e] by simp [History.push]]
      rcases hs with hs | ⟨-, rfl⟩
      · exact (hM.longest m s hm hs).trans hext
      · exact List.prefix_refl _
    · rw [show (h.push n e).log m = h.log m by simp [History.push, hmn]]
      rcases hs with hs | ⟨ht, -⟩
      · exact hM.longest m s hm hs
      · exact absurd (hM.sole m n hm hn ht) hmn

omit [DecidableEq ι] in
/-- A batch of the current tenure does not change its leader's log. -/
theorem Matching.splice_leading {s es : List E} {prev prevTerm : Nat} (hM : Matching stamp h)
    (hn : h.leading n) (hs : s ∈ h.tenure (h.term n)) (hf : Fits stamp (h.log n) prev prevTerm)
    (hb : CutFrom stamp s prev prevTerm es) : splice stamp (h.log n) prev es = h.log n := by
  rcases splice_batch ((hM.logs n).matching hM.chained (hM.tenures _ s hs)) hf hb
    with ⟨h', -⟩ | ⟨-, hno⟩
  · exact h'
  · exact absurd (hb.take_append.trans (hM.longest n s hn hs)) hno

theorem Matching.accept {s es : List E} {prev prevTerm : Nat} (hM : Matching stamp h)
    (hs : s ∈ h.tenure (h.term n)) (hf : Fits stamp (h.log n) prev prevTerm)
    (hb : CutFrom stamp s prev prevTerm es) :
    Matching stamp (h.accept n (splice stamp (h.log n) prev es)) := by
  have hkeep : ∀ m, h.leading m →
      (h.accept n (splice stamp (h.log n) prev es)).log m = h.log m := by
    intro m hm
    by_cases hmn : m = n
    · subst hmn
      simpa [History.accept] using hM.splice_leading hm hs hf hb
    · simp [History.accept, hmn]
  refine ⟨hM.chained, ?_, hM.tenures, ?_, ?_, hM.sole⟩
  · intro m
    by_cases hmn : m = n
    · subst hmn
      simpa [History.accept] using (hM.logs m).splice hM.chained (hM.tenures _ s hs) hf hb
    · simpa [History.accept, hmn] using hM.logs m
  · intro m hm
    rw [hkeep m hm]
    exact hM.current m hm
  · intro m s' hm hs'
    rw [hkeep m hm]
    exact hM.longest m s' hm hs'

-- ---------------------------------------------------------------------------
-- Keeping
-- ---------------------------------------------------------------------------

def Upheld (h : History ι E) (T U : Nat) (q : List E) : Prop :=
  ∀ T' s, T < T' → T' ≤ U → s ∈ h.tenure T' → q <+: s

/-- `D` are the servers that lose nothing when they start over. -/
structure Keeping (D : Set ι) (h : History ι E) : Prop where
  held_le : ∀ n T l, l ∈ h.held n T → T ≤ h.term n
  within : ∀ n T l, l ∈ h.held n T → ∃ s ∈ h.tenure T, l <+: s
  kept : ∀ n ∈ D, ∀ T l q, l ∈ h.held n T → q <+: l → h.Upheld T (h.term n) q → q <+: h.log n
  leader : ∀ n, h.leading n → h.log n ∈ h.held n (h.term n)

omit [DecidableEq ι] in
theorem keeping_empty (hheld : ∀ n T, h.held n T = ∅) (hlead : ∀ n, ¬ h.leading n) :
    Keeping D h where
  held_le n T l hl := absurd (hheld n T ▸ hl) (Set.notMem_empty l)
  within n T l hl := absurd (hheld n T ▸ hl) (Set.notMem_empty l)
  kept n _ T l _ hl := absurd (hheld n T ▸ hl) (Set.notMem_empty l)
  leader n hn := absurd hn (hlead n)

theorem reset_eq_raise (hlog : h.log n = []) (T : Nat) : h.reset n T = h.raise n T := by
  have hsame : Function.update h.log n [] = h.log := by
    rw [← hlog]
    exact Function.update_eq_self n h.log
  simp only [History.reset, hsame]
  rfl

omit [DecidableEq ι] in
theorem Upheld.anti {h' : History ι E} {T U U' : Nat} {q : List E} (hu : h'.Upheld T U' q)
    (hU : U ≤ U') (ht : ∀ T, h.tenure T ⊆ h'.tenure T) : h.Upheld T U q :=
  fun T' s h1 h2 hs => hu T' s h1 (h2.trans hU) (ht T' hs)

theorem Keeping.raise {T : Nat} (hK : Keeping D h) (hT : h.term n ≤ T) :
    Keeping D (h.raise n T) := by
  have hle : ∀ m, h.term m ≤ (h.raise n T).term m := by
    intro m
    by_cases hmn : m = n
    · subst hmn
      simpa [History.raise] using hT
    · simp [History.raise, hmn]
  refine ⟨fun m T' l hl => (hK.held_le m T' l hl).trans (hle m), hK.within, ?_, ?_⟩
  · intro m hm T' l q hl hq hu
    exact hK.kept m hm T' l q hl hq (hu.anti (hle m) fun _ => subset_rfl)
  · intro m hm
    obtain ⟨hmn, hm⟩ := leading_update hm
    simpa [History.raise, hmn] using hK.leader m hm

theorem Keeping.campaign (hK : Keeping D h) (n : ι) : Keeping D (h.campaign n) := by
  have h' := hK.raise (n := n) (Nat.le_succ (h.term n))
  exact ⟨h'.held_le, h'.within, h'.kept, h'.leader⟩

/-- Only servers outside `D` may lose their logs. -/
theorem Keeping.reset {T : Nat} (hK : Keeping D h) (hn : n ∉ D) (hT : h.term n ≤ T) :
    Keeping D (h.reset n T) := by
  have h' := hK.raise hT
  refine ⟨h'.held_le, h'.within, ?_, ?_⟩
  · intro m hm T' l q hl hq hu
    have hmn : m ≠ n := fun hmn => hn (hmn ▸ hm)
    simpa [History.reset, History.raise, hmn] using h'.kept m hm T' l q hl hq hu
  · intro m hm
    obtain ⟨hmn, hm⟩ := leading_update hm
    simpa [History.reset, History.raise, hmn] using hK.leader m hm

omit [DecidableEq ι] in
theorem Keeping.grant (hK : Keeping D h) (n c : ι) : Keeping D (h.grant n c) :=
  ⟨hK.held_le, hK.within, hK.kept, hK.leader⟩

theorem Keeping.elect (hK : Keeping D h) (n : ι) : Keeping D (h.elect n) := by
  have hsub : ∀ T, h.tenure T ⊆ (h.elect n).tenure T := fun T => Set.subset_union_left
  refine ⟨?_, ?_, ?_, ?_⟩
  · rintro m T l (hl | ⟨rfl, rfl, -⟩)
    · exact hK.held_le m T l hl
    · exact le_refl _
  · rintro m T l (hl | ⟨rfl, rfl, rfl⟩)
    · obtain ⟨s, hs, hp⟩ := hK.within m T l hl
      exact ⟨s, hsub T hs, hp⟩
    · exact ⟨_, .inr ⟨rfl, rfl⟩, List.prefix_refl _⟩
  · rintro m hm T l q (hl | ⟨rfl, rfl, rfl⟩) hq hu
    · exact hK.kept m hm T l q hl hq (hu.anti (le_refl _) hsub)
    · exact hq
  · intro m hm
    by_cases hmn : m = n
    · exact .inr ⟨hmn, hmn ▸ rfl, hmn ▸ rfl⟩
    · exact .inl (hK.leader m (by simpa [History.elect, hmn] using hm))

theorem Keeping.push (hK : Keeping D h) (n : ι) (e : E) : Keeping D (h.push n e) := by
  have hsub : ∀ T, h.tenure T ⊆ (h.push n e).tenure T := fun T => Set.subset_union_left
  have hlog : ∀ m, h.log m <+: (h.push n e).log m := by
    intro m
    by_cases hmn : m = n
    · subst hmn
      simp [History.push]
    · simp [History.push, hmn]
  refine ⟨?_, ?_, ?_, ?_⟩
  · rintro m T l (hl | ⟨rfl, rfl, -⟩)
    · exact hK.held_le m T l hl
    · exact le_refl _
  · rintro m T l (hl | ⟨rfl, rfl, rfl⟩)
    · obtain ⟨s, hs, hp⟩ := hK.within m T l hl
      exact ⟨s, hsub T hs, hp⟩
    · exact ⟨_, .inr ⟨rfl, rfl⟩, List.prefix_refl _⟩
  · rintro m hm T l q (hl | ⟨rfl, rfl, rfl⟩) hq hu
    · exact (hK.kept m hm T l q hl hq (hu.anti (le_refl _) hsub)).trans (hlog m)
    · simpa [History.push] using hq
  · intro m hm
    by_cases hmn : m = n
    · subst hmn
      exact .inr ⟨rfl, rfl, by simp [History.push]⟩
    · exact .inl (by simpa [History.push, hmn] using hK.leader m hm)

theorem Keeping.accept {s es : List E} {prev prevTerm : Nat} (hK : Keeping D h)
    (hM : Matching stamp h) (hs : s ∈ h.tenure (h.term n))
    (hf : Fits stamp (h.log n) prev prevTerm) (hb : CutFrom stamp s prev prevTerm es)
    (hin : ∃ s ∈ h.tenure (h.term n), splice stamp (h.log n) prev es <+: s) :
    Keeping D (h.accept n (splice stamp (h.log n) prev es)) := by
  refine ⟨?_, ?_, ?_, ?_⟩
  · rintro m T l (hl | ⟨rfl, rfl, -⟩)
    · exact hK.held_le m T l hl
    · exact le_refl _
  · rintro m T l (hl | ⟨rfl, rfl, rfl⟩)
    · exact hK.within m T l hl
    · exact hin
  · rintro m hm T l q (hl | ⟨rfl, rfl, rfl⟩) hq hu
    · have hql := hK.kept m hm T l q hl hq hu
      by_cases hmn : m = n
      · subst hmn
        rw [show (h.accept m (splice stamp (h.log m) prev es)).log m =
          splice stamp (h.log m) prev es by simp [History.accept]]
        have hroot := hM.tenures _ s hs
        rcases (hK.held_le m T l hl).lt_or_eq with hlt | rfl
        · exact isPrefix_splice hM.chained (hM.logs m) hroot hf hb hql
            (.inl (List.prefix_refl _)) (hu _ s hlt (le_refl _) hs)
        · -- held in this very term: `q` and the batch are parts of one tenure
          obtain ⟨s', hs', hl'⟩ := hK.within m _ l hl
          exact isPrefix_splice hM.chained (hM.logs m) hroot hf hb hql
            (hM.chained _ s s' hs hs') (hq.trans hl')
      · simpa [History.accept, hmn] using hql
    · simpa [History.accept] using hq
  · intro m hm
    by_cases hmn : m = n
    · subst hmn
      exact .inr ⟨rfl, rfl, by simp [History.accept]⟩
    · exact .inl (by simpa [History.accept, hmn] using hK.leader m hm)

-- ---------------------------------------------------------------------------
-- Electing
-- ---------------------------------------------------------------------------

def lastStamp (stamp : E → Nat) (l : List E) : Nat := (l.getLast?.map stamp).getD 0

def AtLeast (stamp : E → Nat) (l l' : List E) : Prop :=
  lastStamp stamp l > lastStamp stamp l' ∨
    (lastStamp stamp l = lastStamp stamp l' ∧ l'.length ≤ l.length)

/-- When `v` voted in `U` over the log `lv`, it still had what it had held
before, unless a tenure in between lacks it. -/
def KeptTo (h : History ι E) (v : ι) (U : Nat) (lv : List E) : Prop :=
  ∀ T l q, l ∈ h.held v T → T < U → q <+: l → h.Upheld T (U - 1) q → q <+: lv

def Majority (V Q : Finset ι) : Prop := Q ⊆ V ∧ V.card < 2 * Q.card

/-- A tenure and the election it came from: the log it began with and a
majority that voted over logs that were not ahead of it. -/
def Won (stamp : E → Nat) (V : Finset ι) (h : History ι E) (T : Nat) (s : List E) : Prop :=
  ∃ l, l <+: s ∧ (∀ e ∈ l, stamp e < T) ∧ ∃ Q, Majority V Q ∧
    ∀ v ∈ Q, ∃ c, ∃ lv ∈ h.vote v T c, AtLeast stamp l lv ∧ h.KeptTo v T lv

structure Electing (stamp : E → Nat) (V : Finset ι) (h : History ι E) : Prop where
  vote_le : ∀ v T c l, l ∈ h.vote v T c → T ≤ h.term v
  rooted : ∀ v T c l, l ∈ h.vote v T c → Rooted stamp h.tenure l
  kept : ∀ v ∈ V, ∀ T c l, l ∈ h.vote v T c → h.tenure T = ∅ → h.KeptTo v T l
  own : ∀ c ∈ V, ∀ T l, l ∈ h.vote c T c → h.term c = T → h.tenure T = ∅ → h.log c = l
  won : ∀ T s, s ∈ h.tenure T → Won stamp V h T s

section
variable {V : Finset ι} {h' : History ι E}

omit [DecidableEq ι] in
theorem electing_empty (hvote : ∀ v T c, h.vote v T c = ∅) (hten : ∀ T, h.tenure T = ∅) :
    Electing stamp V h where
  vote_le v T c l hl := absurd (hvote v T c ▸ hl) (Set.notMem_empty l)
  rooted v T c l hl := absurd (hvote v T c ▸ hl) (Set.notMem_empty l)
  kept v _ T c l hl := absurd (hvote v T c ▸ hl) (Set.notMem_empty l)
  own c _ T l hl := absurd (hvote c T c ▸ hl) (Set.notMem_empty l)
  won T s hs := absurd (hten T ▸ hs) (Set.notMem_empty s)

omit [DecidableEq ι] in
theorem KeptTo.mono {v : ι} {U : Nat} {lv : List E} (hk : h.KeptTo v U lv)
    (ht : ∀ T, h.tenure T ⊆ h'.tenure T) (hh : ∀ T, T < U → h'.held v T ⊆ h.held v T) :
    h'.KeptTo v U lv := by
  intro T l q hl hT hq hu
  exact hk T l q (hh T hT hl) hT hq (hu.anti (le_refl _) ht)

omit [DecidableEq ι] in
theorem Won.mono {T : Nat} {s : List E} (hw : Won stamp V h T s)
    (hE : ∀ v T c l, l ∈ h.vote v T c → T ≤ h.term v)
    (ht : ∀ T, h.tenure T ⊆ h'.tenure T) (hv : ∀ v T c, h.vote v T c ⊆ h'.vote v T c)
    (hh : ∀ v T, T < h.term v → h'.held v T ⊆ h.held v T) : Won stamp V h' T s := by
  obtain ⟨l, hl, hlt, Q, hQ, hvotes⟩ := hw
  refine ⟨l, hl, hlt, Q, hQ, ?_⟩
  intro v hvQ
  obtain ⟨c, lv, hlv, hat, hk⟩ := hvotes v hvQ
  exact ⟨c, lv, hv v T c hlv, hat,
    hk.mono ht fun T' hT' => hh v T' (hT'.trans_le (hE v T c lv hlv))⟩

omit [DecidableEq ι] in
/-- What one operation must satisfy to keep `Electing`, votes and elections
apart: it touches no held log of a past term. -/
theorem Electing.step (hE : Electing stamp V h) (hterm : ∀ v, h.term v ≤ h'.term v)
    (ht : ∀ T, h.tenure T ⊆ h'.tenure T) (hv : ∀ v T c, h.vote v T c ⊆ h'.vote v T c)
    (hh : ∀ v T, T < h.term v → h'.held v T ⊆ h.held v T)
    (hnew : ∀ v T c l, l ∈ h'.vote v T c → l ∉ h.vote v T c →
      T ≤ h'.term v ∧ Rooted stamp h'.tenure l ∧ (v ∈ V → h'.tenure T = ∅ → h'.KeptTo v T l))
    (hown : ∀ c ∈ V, ∀ T l, l ∈ h'.vote c T c → h'.term c = T → h'.tenure T = ∅ → h'.log c = l)
    (hwon : ∀ T s, s ∈ h'.tenure T → s ∉ h.tenure T → Won stamp V h' T s) :
    Electing stamp V h' := by
  classical
  refine ⟨?_, ?_, ?_, hown, ?_⟩
  · intro v T c l hl
    by_cases hold : l ∈ h.vote v T c
    · exact (hE.vote_le v T c l hold).trans (hterm v)
    · exact (hnew v T c l hl hold).1
  · intro v T c l hl
    by_cases hold : l ∈ h.vote v T c
    · exact (hE.rooted v T c l hold).mono ht
    · exact (hnew v T c l hl hold).2.1
  · intro v hvV T c l hl hempty
    by_cases hold : l ∈ h.vote v T c
    · have h0 : h.tenure T = ∅ := Set.subset_empty_iff.mp (hempty ▸ ht T)
      exact (hE.kept v hvV T c l hold h0).mono ht fun T' hT' =>
        hh v T' (hT'.trans_le (hE.vote_le v T c l hold))
    · exact (hnew v T c l hl hold).2.2 hvV hempty
  · intro T s hs
    by_cases hold : s ∈ h.tenure T
    · exact (hE.won T s hold).mono hE.vote_le ht hv hh
    · exact hwon T s hs hold

theorem Electing.raise {T : Nat} (hE : Electing stamp V h) (hT : h.term n ≤ T) :
    Electing stamp V (h.raise n T) := by
  have hle : ∀ m, h.term m ≤ (h.raise n T).term m := by
    intro m
    by_cases hmn : m = n
    · subst hmn
      simpa [History.raise] using hT
    · simp [History.raise, hmn]
  refine hE.step hle (fun _ => subset_rfl) (fun _ _ _ => subset_rfl) (fun _ _ _ => subset_rfl)
    (fun _ _ _ _ hl hno => absurd hl hno) ?_ (fun _ _ hs hno => absurd hs hno)
  intro c hc T' l hl hterm hempty
  have hT' := hE.vote_le c T' c l hl
  exact hE.own c hc T' l hl (le_antisymm ((hle c).trans hterm.le) hT') hempty

theorem Electing.reset {T : Nat} (hE : Electing stamp V h) (hn : n ∉ V) (hT : h.term n ≤ T) :
    Electing stamp V (h.reset n T) := by
  have h' := hE.raise hT
  refine ⟨h'.vote_le, h'.rooted, h'.kept, ?_, h'.won⟩
  intro c hc T' l hl hterm hempty
  have hcn : c ≠ n := fun hcn => hn (hcn ▸ hc)
  simpa [History.reset, History.raise, hcn] using h'.own c hc T' l hl hterm hempty

theorem Electing.campaign (hE : Electing stamp V h) (hM : Matching stamp h) (hK : Keeping D h)
    (hV : ∀ v ∈ V, v ∈ D) (n : ι) : Electing stamp V (h.campaign n) := by
  have hle : ∀ m, h.term m ≤ (h.campaign n).term m := by
    intro m
    by_cases hmn : m = n
    · subst hmn
      simp [History.campaign, History.raise]
    · simp [History.campaign, History.raise, hmn]
  have hn : (h.campaign n).term n = h.term n + 1 := by simp [History.campaign, History.raise]
  refine hE.step hle (fun _ => subset_rfl) (fun _ _ _ => Set.subset_union_left)
    (fun _ _ _ => subset_rfl) ?_ ?_ (fun _ _ hs hno => absurd hs hno)
  · rintro v T c l (hl | ⟨rfl, rfl, -, rfl⟩) hno
    · exact absurd hl hno
    · exact ⟨hn.ge, hM.logs v, fun hv _ T l q hl _ hq hu => hK.kept v (hV v hv) T l q hl hq hu⟩
  · rintro c hc T l (hl | ⟨rfl, -, -, rfl⟩) hterm hempty
    · have hT := hE.vote_le c T c l hl
      exact hE.own c hc T l hl (le_antisymm ((hle c).trans hterm.le) hT) hempty
    · rfl

omit [DecidableEq ι] in
theorem Electing.grant (hE : Electing stamp V h) (hM : Matching stamp h) (hK : Keeping D h)
    (hV : ∀ v ∈ V, v ∈ D) (n c : ι) : Electing stamp V (h.grant n c) := by
  refine hE.step (fun _ => le_refl _) (fun _ => subset_rfl) (fun _ _ _ => Set.subset_union_left)
    (fun _ _ _ => subset_rfl) ?_ ?_ (fun _ _ hs hno => absurd hs hno)
  · rintro v T d l (hl | ⟨rfl, rfl, rfl, rfl⟩) hno
    · exact absurd hl hno
    · refine ⟨le_refl _, hM.logs v, fun hv hempty T l q hl hT hq hu =>
        hK.kept v (hV v hv) T l q hl hq ?_⟩
      -- the term itself has no tenure, so the tenures before it are all there are
      intro T' s h1 h2 hs
      rcases h2.lt_or_eq with h2 | rfl
      · exact hu T' s h1 (by omega) hs
      · rw [show h.tenure (h.term v) = ∅ from hempty] at hs
        exact hs.elim
  · rintro d hd T l (hl | ⟨rfl, -, -, rfl⟩) hterm hempty
    · exact hE.own d hd T l hl hterm hempty
    · rfl

/-- A candidate that a majority voted for, none of them ahead of it. -/
theorem Electing.elect {Q : Finset ι} (hE : Electing stamp V h) (hM : Matching stamp h)
    (hfresh : h.tenure (h.term n) = ∅) (hb : ∀ e ∈ h.log n, stamp e ≤ h.term n)
    (hQ : Majority V Q)
    (hvotes : ∀ v ∈ Q, ∃ lv ∈ h.vote v (h.term n) n, AtLeast stamp (h.log n) lv) :
    Electing stamp V (h.elect n) := by
  have hsub : ∀ T, h.tenure T ⊆ (h.elect n).tenure T := fun T => Set.subset_union_left
  have hheld : ∀ v T, T < h.term v → (h.elect n).held v T ⊆ h.held v T := by
    rintro v T hT l (hl | ⟨rfl, rfl, -⟩)
    · exact hl
    · exact absurd hT (lt_irrefl _)
  refine hE.step (fun _ => le_refl _) hsub (fun _ _ _ => subset_rfl) hheld
    (fun _ _ _ _ hl hno => absurd hl hno) ?_ ?_
  · intro c hc T l hl hterm hempty
    exact hE.own c hc T l hl hterm (Set.subset_empty_iff.mp (hempty ▸ hsub T))
  · rintro T s (hs | ⟨rfl, rfl⟩) hno
    · exact absurd hs hno
    · refine ⟨h.log n, List.prefix_refl _, ?_, Q, hQ, ?_⟩
      · intro e he
        refine lt_of_le_of_ne (hb e he) fun heq => ?_
        obtain ⟨i, hi⟩ := List.mem_iff_getElem?.mp he
        obtain ⟨s, hs, -⟩ := hM.logs n i e hi
        rw [heq, hfresh] at hs
        exact hs
      · intro v hv
        obtain ⟨lv, hlv, hat⟩ := hvotes v hv
        have hk := hE.kept v (hQ.1 hv) _ n lv hlv hfresh
        exact ⟨n, lv, hlv, hat, hk.mono hsub fun T hT =>
          hheld v T (hT.trans_le (hE.vote_le v _ n lv hlv))⟩

theorem Electing.push {e : E} (hE : Electing stamp V h) (hM : Matching stamp h)
    (hn : h.leading n) : Electing stamp V (h.push n e) := by
  have hsub : ∀ T, h.tenure T ⊆ (h.push n e).tenure T := fun T => Set.subset_union_left
  have hheld : ∀ v T, T < h.term v → (h.push n e).held v T ⊆ h.held v T := by
    rintro v T hT l (hl | ⟨rfl, rfl, -⟩)
    · exact hl
    · exact absurd hT (lt_irrefl _)
  refine hE.step (fun _ => le_refl _) hsub (fun _ _ _ => subset_rfl) hheld
    (fun _ _ _ _ hl hno => absurd hl hno) ?_ ?_
  · intro c hc T l hl hterm hempty
    by_cases hcn : c = n
    · have hnew : h.log n ++ [e] ∈ (h.push n e).tenure T := .inr ⟨hterm ▸ hcn ▸ rfl, rfl⟩
      rw [hempty] at hnew
      exact hnew.elim
    · have h' := hE.own c hc T l hl hterm (Set.subset_empty_iff.mp (hempty ▸ hsub T))
      simpa [History.push, hcn] using h'
  · rintro T s (hs | ⟨rfl, rfl⟩) hno
    · exact absurd hs hno
    · have hwon : Won stamp V (h.push n e) (h.term n) (h.log n) :=
        (hE.won _ _ (hM.current n hn)).mono hE.vote_le hsub (fun _ _ _ => subset_rfl) hheld
      obtain ⟨l, hl, rest⟩ := hwon
      exact ⟨l, hl.trans (List.prefix_append _ _), rest⟩

theorem Electing.accept {s l : List E} (hE : Electing stamp V h)
    (hs : s ∈ h.tenure (h.term n)) : Electing stamp V (h.accept n l) := by
  have hheld : ∀ v T, T < h.term v → (h.accept n l).held v T ⊆ h.held v T := by
    rintro v T hT x (hx | ⟨rfl, rfl, -⟩)
    · exact hx
    · exact absurd hT (lt_irrefl _)
  refine hE.step (fun _ => le_refl _) (fun _ => subset_rfl) (fun _ _ _ => subset_rfl) hheld
    (fun _ _ _ _ hl hno => absurd hl hno) ?_ (fun _ _ hs hno => absurd hs hno)
  intro c hc T x hx hterm hempty
  by_cases hcn : c = n
  · subst hcn
    rw [show h.term c = T from hterm, show h.tenure T = ∅ from hempty] at hs
    exact hs.elim
  · have h' := hE.own c hc T x hx hterm hempty
    simpa [History.accept, hcn] using h'

end

-- ---------------------------------------------------------------------------
-- Commitment
-- ---------------------------------------------------------------------------

/-- `q` ends with an entry of term `T` and a majority has held it in `T`. -/
structure Committed (stamp : E → Nat) (V : Finset ι) (h : History ι E) (T : Nat) (q : List E) :
    Prop where
  written : ∃ e, q.getLast? = some e ∧ stamp e = T
  majority : ∃ Q, Majority V Q ∧ ∀ v ∈ Q, ∃ l ∈ h.held v T, q <+: l

section
variable {V : Finset ι} {T T' : Nat} {q q' : List E}

theorem Majority.inter {V Q Q' : Finset ι} (hQ : Majority V Q) (hQ' : Majority V Q') :
    ∃ v, v ∈ Q ∧ v ∈ Q' := by
  have hcard : V.card < Q.card + Q'.card := by
    have := hQ.2
    have := hQ'.2
    omega
  obtain ⟨v, hv⟩ := Finset.inter_nonempty_of_card_lt_card_add_card hQ.1 hQ'.1 hcard
  exact ⟨v, (Finset.mem_inter.mp hv).1, (Finset.mem_inter.mp hv).2⟩

omit [DecidableEq ι] in
theorem Committed.within (hK : Keeping D h) (hc : Committed stamp V h T q) :
    ∃ s ∈ h.tenure T, q <+: s := by
  obtain ⟨Q, hQ, hheld⟩ := hc.majority
  obtain ⟨v, hv⟩ : Q.Nonempty := Finset.card_pos.mp (by have := hQ.2; omega)
  obtain ⟨l, hl, hq⟩ := hheld v hv
  obtain ⟨s, hs, hls⟩ := hK.within v T l hl
  exact ⟨s, hs, hq.trans hls⟩

omit [DecidableEq ι] in
/-- A log at least as up to date as one that has `q` has `q` itself, when every
tenure after `T` that it could stem from does. -/
theorem AtLeast.isPrefix {l lv : List E} {e : E} {U : Nat} (hat : AtLeast stamp l lv)
    (hM : Matching stamp h) (hb : ∀ T s, s ∈ h.tenure T → ∀ e ∈ s, stamp e ≤ T)
    (hl : Rooted stamp h.tenure l) (hlv : Rooted stamp h.tenure lv)
    (hlU : ∀ e ∈ l, stamp e < U) (he : q.getLast? = some e) (hqv : q <+: lv)
    (hqT : ∀ x ∈ q, stamp x ≤ stamp e) (hu : h.Upheld (stamp e) (U - 1) q) : q <+: l := by
  have heq : e ∈ q := List.mem_of_getLast? he
  have hne : lv ≠ [] := List.ne_nil_of_mem (hqv.subset heq)
  obtain ⟨y, hy⟩ : ∃ y, lv.getLast? = some y := ⟨_, List.getLast?_eq_some_getLast hne⟩
  obtain ⟨sv, hsv, hpv⟩ := hlv.isPrefix hy
  have hey : stamp e ≤ stamp y := hb _ sv hsv e ((hqv.trans hpv).subset heq)
  cases hx : l.getLast? with
  | none =>
    have hl0 : l = [] := List.getLast?_eq_none_iff.mp hx
    subst hl0
    rcases hat with hgt | ⟨-, hlen⟩
    · simp [lastStamp] at hgt
    · exact absurd (List.length_eq_zero_iff.mp (Nat.le_zero.mp hlen)) hne
  | some x =>
    obtain ⟨s, hs, hp⟩ := hl.isPrefix hx
    simp only [AtLeast, lastStamp, hx, hy, Option.map_some, Option.getD_some] at hat
    rcases hat with hgt | ⟨hxy, hlen⟩
    · -- `l` ends in a later tenure, which has `q`; were it shorter, `q` would
      -- hold an entry of that later term
      have hxU := hlU x (List.mem_of_getLast? hx)
      have hqs : q <+: s := hu _ s (by omega) (by omega) hs
      rcases List.prefix_or_prefix_of_prefix hqs hp with h' | h'
      · exact h'
      · have := hqT x (h'.subset (List.mem_of_getLast? hx))
        omega
    · -- both end in one tenure
      rw [← hxy] at hsv
      refine hqv.trans ?_
      rcases hM.chained _ s sv hs hsv with h' | h'
      · exact List.prefix_of_prefix_length_le hpv (hp.trans h') hlen
      · exact List.prefix_of_prefix_length_le (hpv.trans h') hp hlen

/-- Leader completeness: every later tenure has what was committed. -/
theorem Committed.isPrefix (hM : Matching stamp h) (hK : Keeping D h) (hE : Electing stamp V h)
    (hb : ∀ T s, s ∈ h.tenure T → ∀ e ∈ s, stamp e ≤ T) (hc : Committed stamp V h T q)
    {s : List E} (hT : T < T') (hs : s ∈ h.tenure T') : q <+: s := by
  obtain ⟨e, he, rfl⟩ := hc.written
  obtain ⟨sq, hsq, hqs⟩ := hc.within hK
  have hqT : ∀ x ∈ q, stamp x ≤ stamp e := fun x hx => hb _ sq hsq x (hqs.subset hx)
  induction T' using Nat.strong_induction_on generalizing s with
  | _ U ih =>
    have hu : h.Upheld (stamp e) (U - 1) q := fun T'' s h1 h2 hs => ih T'' (by omega) hs h1
    obtain ⟨l, hls, hlU, Q, hQ, hvotes⟩ := hE.won U s hs
    obtain ⟨Qc, hQc, hheld⟩ := hc.majority
    obtain ⟨v, hv, hvc⟩ := hQ.inter hQc
    obtain ⟨c, lv, hlv, hat, hk⟩ := hvotes v hv
    obtain ⟨lh, hlh, hqh⟩ := hheld v hvc
    have hqv : q <+: lv := hk _ lh q hlh hT hqh hu
    exact (hat.isPrefix hM hb ((hM.tenures U s hs).of_isPrefix hls) (hE.rooted v U c lv hlv)
      hlU he hqv hqT hu).trans hls

/-- State machine safety: of two committed logs one extends the other. -/
theorem Committed.comparable (hM : Matching stamp h) (hK : Keeping D h) (hE : Electing stamp V h)
    (hb : ∀ T s, s ∈ h.tenure T → ∀ e ∈ s, stamp e ≤ T) (hc : Committed stamp V h T q)
    (hc' : Committed stamp V h T' q') : q <+: q' ∨ q' <+: q := by
  obtain ⟨s, hs, hq⟩ := hc.within hK
  obtain ⟨s', hs', hq'⟩ := hc'.within hK
  rcases Nat.lt_trichotomy T T' with hlt | rfl | hlt
  · exact List.prefix_or_prefix_of_prefix (hc.isPrefix hM hK hE hb hlt hs') hq'
  · rcases hM.chained _ s s' hs hs' with h' | h'
    · exact List.prefix_or_prefix_of_prefix (hq.trans h') hq'
    · exact List.prefix_or_prefix_of_prefix hq (hq'.trans h')
  · exact List.prefix_or_prefix_of_prefix hq (hc'.isPrefix hM hK hE hb hlt hs)

omit [DecidableEq ι] in
theorem Committed.mono {h' : History ι E} (hc : Committed stamp V h T q)
    (hh : ∀ v T, h.held v T ⊆ h'.held v T) : Committed stamp V h' T q := by
  refine ⟨hc.written, ?_⟩
  obtain ⟨Q, hQ, hheld⟩ := hc.majority
  refine ⟨Q, hQ, fun v hv => ?_⟩
  obtain ⟨l, hl, hq⟩ := hheld v hv
  exact ⟨l, hh v T hl, hq⟩

/-- A batch of the current tenure does not touch what is committed. -/
theorem Committed.splice {s es p : List E} {prev prevTerm : Nat} (hM : Matching stamp h)
    (hK : Keeping D h) (hE : Electing stamp V h)
    (hb : ∀ T s, s ∈ h.tenure T → ∀ e ∈ s, stamp e ≤ T) (hc : Committed stamp V h T q)
    (hT : T ≤ h.term n) (hpq : p <+: q) (hp : p <+: h.log n) (hs : s ∈ h.tenure (h.term n))
    (hf : Fits stamp (h.log n) prev prevTerm) (hcut : CutFrom stamp s prev prevTerm es) :
    p <+: Lib.splice stamp (h.log n) prev es := by
  obtain ⟨s', hs', hqs'⟩ : ∃ s' ∈ h.tenure (h.term n), q <+: s' := by
    rcases hT.lt_or_eq with hlt | rfl
    · exact ⟨s, hs, hc.isPrefix hM hK hE hb hlt hs⟩
    · exact hc.within hK
  exact isPrefix_splice hM.chained (hM.logs n) (hM.tenures _ s hs) hf hcut hp
    (hM.chained _ s s' hs hs') (hpq.trans hqs')

/-- Who does not lose it still has a committed log it has held. -/
theorem Committed.kept {l : List E} (hM : Matching stamp h) (hK : Keeping D h)
    (hE : Electing stamp V h) (hb : ∀ T s, s ∈ h.tenure T → ∀ e ∈ s, stamp e ≤ T)
    (hc : Committed stamp V h T q) (hn : n ∈ D) (hl : l ∈ h.held n T) (hq : q <+: l) :
    q <+: h.log n :=
  hK.kept n hn T l q hl hq fun _ _ h1 _ hs => hc.isPrefix hM hK hE hb h1 hs

end

end History

end ClaudeCluster.Lib
