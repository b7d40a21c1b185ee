import Mathlib.Data.List.Sort
import ClaudeCluster.Lib.Table
import ClaudeCluster.Lib.Utf16
import ClaudeCluster.Lib.Binary64

/-!
# JSON.stringify

The values of JavaScript that `JSON.stringify` takes, and the text it makes of
them. A text is a list of characters: `stringify` escapes the surrogates that
have no partner, so its result is always well-formed.

The properties of an object come in the order of its keys: array indices first,
by size, then the other keys as they were first assigned (`properties`).
-/

namespace ClaudeCluster.Lib

open Binary64 (Number)

/-- An object is the assignments it was made by, the properties of a literal in
their order; one with a `toJSON` of its own is what that returns. A function or
a symbol is as good as `undefined`. -/
inductive JsValue
  | undefined
  | null
  | bool (b : Bool)
  | number (x : Number)
  | string (s : JsString)
  /-- A `Date` by its `toISOString()`, if it has one. -/
  | date (iso : Option JsString)
  | array (elements : List JsValue)
  | object (assignments : List (JsString × JsValue))

namespace Json

-- ---------------------------------------------------------------------------
-- Properties
-- ---------------------------------------------------------------------------

section
variable {α : Type}

/-- Under a key that was assigned before, the new value takes the place of the old. -/
def assign (assignments : List (JsString × α)) : List (JsString × α) :=
  assignments.foldl (fun own e => Table.putRows Prod.fst e own) []

/-- The array index a key is the canonical text of. -/
def arrayIndex? (key : JsString) : Option Nat :=
  let text := key.map fun u => Char.ofNat u.toNat
  let n := Nat.ofDigitChars 10 text 0
  if text = Nat.toDigits 10 n ∧ n < 2 ^ 32 - 1 then some n else none

def isIndex (e : JsString × α) : Bool := (arrayIndex? e.1).isSome

def index (e : JsString × α) : Nat := (arrayIndex? e.1).getD 0

/-- `OrdinaryOwnPropertyKeys`, with the values. -/
def properties (assignments : List (JsString × α)) : List (JsString × α) :=
  ((assign assignments).filter isIndex).insertionSort (Order.Preimage index (· ≤ ·)) ++
    (assign assignments).filter (!isIndex ·)

end

-- ---------------------------------------------------------------------------
-- Texts
-- ---------------------------------------------------------------------------

def hex4 (n : Nat) : List Char :=
  [Nat.digitChar (n / 0x1000 % 16), Nat.digitChar (n / 0x100 % 16), Nat.digitChar (n / 16 % 16),
    Nat.digitChar (n % 16)]

def unicodeEscape (n : Nat) : List Char := '\\' :: 'u' :: hex4 n

/-- A piece of a string, as `QuoteJSONString` writes it. -/
def escape : Utf16.Point → List Char
  | .lone surrogate => unicodeEscape surrogate.toNat
  | .char c =>
    match c.toNat with
    | 0x08 => ['\\', 'b']
    | 0x09 => ['\\', 't']
    | 0x0a => ['\\', 'n']
    | 0x0c => ['\\', 'f']
    | 0x0d => ['\\', 'r']
    | 0x22 => ['\\', '"']
    | 0x5c => ['\\', '\\']
    | n => if n < 0x20 then unicodeEscape n else [c]

def quote (s : JsString) : List Char := '"' :: ((Utf16.points s).flatMap escape ++ ['"'])

def nullText : List Char := ['n', 'u', 'l', 'l']

def numberText (x : Number) : List Char :=
  match Binary64.print x with
  | some l => l.text
  | none => nullText

def enclose (opening closing : Char) (texts : List (List Char)) : List Char :=
  opening :: ([','].intercalate texts ++ [closing])

/-- A property whose value has no text is left out. -/
def memberTexts (members : List (JsString × Option (List Char))) : List (List Char) :=
  members.filterMap fun (key, text) => text.map fun text => quote key ++ ':' :: text

mutual

/-- `JSON.stringify(value)` -/
def stringify : JsValue → Option (List Char)
  | .undefined => none
  | .null => some nullText
  | .bool true => some ['t', 'r', 'u', 'e']
  | .bool false => some ['f', 'a', 'l', 's', 'e']
  | .number x => some (numberText x)
  | .string s => some (quote s)
  | .date (some iso) => some (quote iso)
  | .date none => some nullText
  | .array elements => some (enclose '[' ']' (elementTexts elements))
  | .object assignments =>
    some (enclose '\x7b' '\x7d' (memberTexts (properties (assignmentTexts assignments))))

def elementTexts : List JsValue → List (List Char)
  | [] => []
  | element :: elements => (stringify element).getD nullText :: elementTexts elements

def assignmentTexts : List (JsString × JsValue) → List (JsString × Option (List Char))
  | [] => []
  | (key, value) :: assignments => (key, stringify value) :: assignmentTexts assignments

end

example : stringify (.array [.undefined, .date none, .object [
      (Utf16.ofText "b", .null), (Utf16.ofText "1", .string [0xd800]),
      (Utf16.ofText "x", .undefined), (Utf16.ofText "b", .bool true)]]) =
    some "[null,null,\x7b\"1\":\"\\ud800\",\"b\":true\x7d]".toList := by
  decide

-- ---------------------------------------------------------------------------
-- The order of properties
-- ---------------------------------------------------------------------------

def Before (a b : JsString) : Prop :=
  a ≠ b ∧ ∀ j ∈ arrayIndex? b, ∃ i ∈ arrayIndex? a, i ≤ j

section
variable {α β : Type} {es : List (JsString × α)}

theorem assign_keys_nodup (assignments : List (JsString × α)) :
    ((assign assignments).map Prod.fst).Nodup := by
  have h : ∀ own : List (JsString × α), (own.map Prod.fst).Nodup →
      ((assignments.foldl (fun own e => Table.putRows Prod.fst e own) own).map Prod.fst).Nodup := by
    induction assignments with
    | nil => exact fun _ h => h
    | cons e rest ih => exact fun own h => ih _ (Table.nodup_putRows e h)
  exact h [] List.nodup_nil

theorem mem_assign {assignments : List (JsString × α)} {e : JsString × α}
    (h : e ∈ assign assignments) : e ∈ assignments := by
  have hfold : ∀ own : List (JsString × α),
      e ∈ assignments.foldl (fun own e => Table.putRows Prod.fst e own) own →
        e ∈ own ∨ e ∈ assignments := by
    clear h
    induction assignments with
    | nil => exact fun _ h => .inl h
    | cons x rest ih =>
      intro own h
      rcases ih _ h with h | h
      · rcases Table.mem_putRows h with h | h
        · exact .inr (by simp [h])
        · exact .inl h
      · exact .inr (List.mem_cons_of_mem _ h)
  simpa using hfold [] h

theorem mem_properties {assignments : List (JsString × α)} {e : JsString × α}
    (h : e ∈ properties assignments) : e ∈ assignments := by
  rcases List.mem_append.mp h with h | h
  · exact mem_assign (List.mem_filter.mp ((List.mem_insertionSort _).mp h)).1
  · exact mem_assign (List.mem_filter.mp h).1

theorem putRows_of_new {e : JsString × α} (h : e.1 ∉ es.map Prod.fst) :
    Table.putRows Prod.fst e es = es ++ [e] := by
  induction es with
  | nil => rfl
  | cons x es ih =>
    rw [List.map_cons, List.mem_cons, not_or] at h
    rw [Table.putRows, if_neg (Ne.symm h.1), ih h.2, List.cons_append]

/-- Assignments to different keys are the properties they make. -/
theorem assign_of_nodup (h : (es.map Prod.fst).Nodup) : assign es = es := by
  have hfold : ∀ own : List (JsString × α), ((own ++ es).map Prod.fst).Nodup →
      es.foldl (fun own e => Table.putRows Prod.fst e own) own = own ++ es := by
    induction es with
    | nil => simp
    | cons e es ih =>
      intro own hnodup
      rw [List.map_append, List.map_cons] at hnodup
      have hnew : e.1 ∉ own.map Prod.fst := by
        intro hmem
        exact (List.disjoint_of_nodup_append hnodup) hmem List.mem_cons_self
      rw [List.foldl_cons, putRows_of_new hnew, ih]
      · simp
      · rw [List.map_cons] at h
        exact h.of_cons
      · simpa using hnodup
  exact hfold [] h

theorem arrayIndex?_of_isIndex {e : JsString × α} (h : isIndex e) :
    arrayIndex? e.1 = some (index e) := by
  obtain ⟨i, hi⟩ := Option.isSome_iff_exists.mp h
  rw [index, hi, Option.getD_some]

theorem before_iff {a b : JsString × α} :
    Before a.1 b.1 ↔ a.1 ≠ b.1 ∧ (isIndex b → isIndex a ∧ index a ≤ index b) := by
  refine and_congr_right fun _ => ⟨fun h hb => ?_, fun h j hj => ?_⟩
  · obtain ⟨i, hi, hle⟩ := h (index b) (arrayIndex?_of_isIndex hb)
    refine ⟨Option.isSome_iff_exists.mpr ⟨i, hi⟩, ?_⟩
    rw [index, hi, Option.getD_some]
    exact hle
  · have hb : isIndex b := Option.isSome_iff_exists.mpr ⟨j, hj⟩
    obtain ⟨ha, hle⟩ := h hb
    obtain rfl : index b = j := by rw [index, hj, Option.getD_some]
    exact ⟨index a, arrayIndex?_of_isIndex ha, hle⟩

theorem perm_properties (assignments : List (JsString × α)) :
    (properties assignments).Perm (assign assignments) :=
  ((List.perm_insertionSort _ _).append_right _).trans (List.filter_append_perm isIndex _)

theorem properties_keys_nodup (assignments : List (JsString × α)) :
    ((properties assignments).map Prod.fst).Nodup :=
  ((perm_properties assignments).map Prod.fst).nodup_iff.mpr (assign_keys_nodup assignments)

theorem properties_ordered (assignments : List (JsString × α)) :
    ((properties assignments).map Prod.fst).Pairwise Before := by
  have hne := List.pairwise_map.mp (properties_keys_nodup assignments)
  rw [List.pairwise_map]
  unfold properties at hne ⊢
  generalize assign assignments = own at hne ⊢
  have hsorted := List.pairwise_insertionSort (Order.Preimage index (· ≤ ·)) (own.filter isIndex)
  have hindex : ∀ e ∈ (own.filter isIndex).insertionSort (Order.Preimage index (· ≤ ·)), isIndex e := by
    intro e he
    exact (List.mem_filter.mp ((List.mem_insertionSort _).mp he)).2
  rw [List.pairwise_append] at hne ⊢
  obtain ⟨hfirst, hrest, hcross⟩ := hne
  refine ⟨?_, ?_, fun a ha b hb => ?_⟩
  · refine (hfirst.and hsorted).imp_of_mem fun ha _ h => before_iff.mpr ⟨h.1, fun _ => ?_⟩
    exact ⟨hindex _ ha, h.2⟩
  · refine hrest.imp_of_mem fun _ hb h => before_iff.mpr ⟨h, fun hindex => ?_⟩
    simp [hindex] at hb
  · refine before_iff.mpr ⟨hcross a ha b hb, fun hindex => ?_⟩
    simp [hindex] at hb

-- ---------------------------------------------------------------------------
-- Looking up
-- ---------------------------------------------------------------------------

theorem lookup_eq_some_iff_mem {key : JsString} {a : α} (h : (es.map Prod.fst).Nodup) :
    es.lookup key = some a ↔ (key, a) ∈ es := by
  induction es with
  | nil => simp
  | cons e es ih =>
    rw [List.map_cons, List.nodup_cons] at h
    obtain ⟨k, b⟩ := e
    rw [List.lookup_cons, List.mem_cons, Prod.mk.injEq]
    by_cases hk : key = k
    · subst hk
      have hnew : (key, a) ∉ es := fun hmem => h.1 (List.mem_map.mpr ⟨_, hmem, rfl⟩)
      simp [hnew, eq_comm]
    · have hne : (key == k) = false := by simpa using hk
      simp [hne, hk, ih h.2]

theorem lookup_putRows (e : JsString × α) (es : List (JsString × α)) (key : JsString) :
    (Table.putRows Prod.fst e es).lookup key =
      if key = e.1 then some e.2 else es.lookup key := by
  induction es with
  | nil =>
    obtain ⟨k, b⟩ := e
    by_cases hkey : key = k
    · simp [Table.putRows, hkey]
    · have hne : (key == k) = false := by simpa using hkey
      simp [Table.putRows, List.lookup_cons, hne, hkey]
  | cons x es ih =>
    obtain ⟨k, b⟩ := e
    obtain ⟨k', b'⟩ := x
    rw [Table.putRows]
    dsimp only at ih ⊢
    by_cases hk : k' = k
    · subst hk
      rw [if_pos rfl, List.lookup_cons, List.lookup_cons]
      by_cases hkey : key = k'
      · simp [hkey]
      · have hne : (key == k') = false := by simpa using hkey
        simp [hne, hkey]
    · rw [if_neg hk, List.lookup_cons, List.lookup_cons, ih]
      by_cases hkey : key = k'
      · subst hkey
        simp [hk]
      · have hne : (key == k') = false := by simpa using hkey
        simp [hne]

/-- The last assignment to a key is what its property holds. -/
theorem lookup_properties (assignments : List (JsString × α)) (key : JsString) :
    (properties assignments).lookup key = assignments.reverse.lookup key := by
  have hfold : ∀ own : List (JsString × α),
      (assignments.foldl (fun own e => Table.putRows Prod.fst e own) own).lookup key =
        (assignments.reverse.lookup key).or (own.lookup key) := by
    induction assignments with
    | nil => simp
    | cons e rest ih =>
      intro own
      obtain ⟨k, b⟩ := e
      rw [List.foldl_cons, ih, lookup_putRows, List.reverse_cons, List.lookup_append,
        Option.or_assoc, List.lookup_cons]
      by_cases hkey : key = k
      · simp [hkey]
      · have hne : (key == k) = false := by simpa using hkey
        simp [hne, hkey]
  have hassign : (assign assignments).lookup key = assignments.reverse.lookup key := by
    rw [assign, hfold [], List.lookup_nil, Option.or_none]
  rw [← hassign]
  refine Option.ext fun a => ?_
  rw [lookup_eq_some_iff_mem (properties_keys_nodup assignments),
    lookup_eq_some_iff_mem (assign_keys_nodup assignments), (perm_properties assignments).mem_iff]

theorem properties_map (f : α → β) (assignments : List (JsString × α)) :
    properties (assignments.map fun e => (e.1, f e.2)) =
      (properties assignments).map fun e => (e.1, f e.2) := by
  have hput : ∀ (e : JsString × α) (own : List (JsString × α)),
      Table.putRows Prod.fst (e.1, f e.2) (own.map fun e => (e.1, f e.2)) =
        (Table.putRows Prod.fst e own).map fun e => (e.1, f e.2) := by
    intro e own
    induction own with
    | nil => rfl
    | cons x own ih =>
      simp only [List.map_cons, Table.putRows]
      split
      · rfl
      · rw [List.map_cons, ih]
  have hassign : assign (assignments.map fun e => (e.1, f e.2)) =
      (assign assignments).map fun e => (e.1, f e.2) := by
    have hfold : ∀ own : List (JsString × α),
        (assignments.map fun e => (e.1, f e.2)).foldl (fun own e => Table.putRows Prod.fst e own)
            (own.map fun e => (e.1, f e.2)) =
          (assignments.foldl (fun own e => Table.putRows Prod.fst e own) own).map
            fun e => (e.1, f e.2) := by
      induction assignments with
      | nil => exact fun _ => rfl
      | cons e rest ih =>
        intro own
        rw [List.map_cons, List.foldl_cons, List.foldl_cons, hput, ih]
    exact hfold []
  have hindex : isIndex ∘ (fun e : JsString × α => (e.1, f e.2)) = isIndex := rfl
  have hnone : (fun e : JsString × β => !isIndex e) ∘ (fun e : JsString × α => (e.1, f e.2)) =
      fun e => !isIndex e := rfl
  have hsort := List.map_insertionSort (Order.Preimage index (· ≤ ·))
    (Order.Preimage index (· ≤ ·)) (fun e : JsString × α => (e.1, f e.2))
    ((assign assignments).filter isIndex) (fun _ _ _ _ => Iff.rfl)
  rw [properties, properties, hassign, List.filter_map, List.filter_map, hindex, hnone,
    List.map_append, hsort]

-- ---------------------------------------------------------------------------
-- Keys in order
-- ---------------------------------------------------------------------------

theorem properties_of_ordered (h : (es.map Prod.fst).Pairwise Before) : properties es = es := by
  have hnodup : (es.map Prod.fst).Nodup := h.imp And.left
  have hbefore := (List.pairwise_map.mp h).imp before_iff.mp
  rw [properties, assign_of_nodup hnodup]
  have hsorted : (es.filter isIndex).Pairwise (Order.Preimage index (· ≤ ·)) := by
    refine (hbefore.filter isIndex).imp_of_mem fun _ hb h => ?_
    exact (h.2 (List.mem_filter.mp hb).2).2
  rw [hsorted.insertionSort_eq]
  clear hsorted hnodup h
  induction es with
  | nil => rfl
  | cons e es ih =>
    rw [List.pairwise_cons] at hbefore
    by_cases he : isIndex e
    · simpa [he] using ih hbefore.2
    · -- after another key there is no index any more
      have hnone : ∀ x ∈ es, isIndex x = false := by
        intro x hx
        by_contra hindex
        exact he ((hbefore.1 x hx).2 (by simpa using hindex)).1
      rw [List.filter_cons_of_neg he, List.filter_eq_nil_iff.mpr (by simpa using hnone),
        List.nil_append, List.filter_eq_self]
      intro x hx
      rcases List.mem_cons.mp hx with rfl | hx
      · simpa using he
      · simpa using hnone x hx

end

theorem ordered_of_names {keys : List JsString} (hnodup : keys.Nodup)
    (hnames : ∀ key ∈ keys, arrayIndex? key = none) : keys.Pairwise Before := by
  refine hnodup.imp_of_mem fun _ hb hne => ⟨hne, fun j hj => ?_⟩
  rw [hnames _ hb] at hj
  cases hj

end Json

end ClaudeCluster.Lib
