import Mathlib.Data.List.Nodup

/-!
# Tables with a primary key

A table is its rows in insertion order, no two with the same key. An insert
is rejected when the key is taken; an update rewrites the row under a key and
leaves its key alone. Both are read back through `find?`.
-/

namespace ClaudeCluster.Lib

structure Table {ρ κ : Type} (key : ρ → κ) where
  rows : List ρ
  keys_nodup : (rows.map key).Nodup

namespace Table

variable {ρ κ : Type} {key : ρ → κ}

instance [DecidableEq ρ] : DecidableEq (Table key) := fun s t =>
  decidable_of_iff (s.rows = t.rows) ⟨fun h => by cases s; cases t; simp_all, fun h => h ▸ rfl⟩

@[ext] theorem ext {s t : Table key} (h : s.rows = t.rows) : s = t := by
  cases s
  cases t
  simpa using h

def empty : Table key := ⟨[], List.nodup_nil⟩

@[simp] theorem rows_empty : (empty : Table key).rows = [] := rfl

variable [DecidableEq κ]

def find? (t : Table key) (k : κ) : Option ρ := t.rows.find? (key · = k)

/-- `INSERT`, or `none` when the key is taken. -/
def insert (t : Table key) (r : ρ) : Option (Table key) :=
  if h : key r ∈ t.rows.map key then none
  else some ⟨t.rows ++ [r], by
    simpa [List.nodup_append, t.keys_nodup] using fun a ha => List.mem_map.not.mp h ∘ fun e => ⟨a, ha, e⟩⟩

theorem map_key_modify (f : ρ → ρ) (hf : ∀ r, key (f r) = key r) (k : κ) (rows : List ρ) :
    (rows.map fun r => if key r = k then f r else r).map key = rows.map key := by
  rw [List.map_map]
  apply List.map_congr_left
  intro r _
  simp only [Function.comp]
  split <;> simp [hf]

/-- `UPDATE … WHERE key = k`. -/
def modify (t : Table key) (k : κ) (f : ρ → ρ) (hf : ∀ r, key (f r) = key r := by intro _; rfl) :
    Table key :=
  ⟨t.rows.map fun r => if key r = k then f r else r, by rw [map_key_modify f hf]; exact t.keys_nodup⟩

/-- Under a key the table has, the new row takes the place of the old one. -/
def putRows (key : ρ → κ) (r : ρ) : List ρ → List ρ
  | [] => [r]
  | s :: rows => if key s = key r then r :: rows else s :: putRows key r rows

theorem mem_putRows {r x : ρ} {rows : List ρ} (h : x ∈ putRows key r rows) :
    x = r ∨ x ∈ rows := by
  induction rows with
  | nil => exact .inl (List.mem_singleton.mp h)
  | cons s rows ih =>
    simp only [putRows] at h
    split at h
    · exact (List.mem_cons.mp h).imp_right (List.mem_cons_of_mem _)
    · rcases List.mem_cons.mp h with rfl | h
      · exact .inr List.mem_cons_self
      · exact (ih h).imp_right (List.mem_cons_of_mem _)

theorem nodup_putRows (r : ρ) {rows : List ρ} (h : (rows.map key).Nodup) :
    ((putRows key r rows).map key).Nodup := by
  induction rows with
  | nil => simp [putRows]
  | cons s rows ih =>
    rw [List.map_cons, List.nodup_cons] at h
    simp only [putRows]
    split
    case isTrue hs => exact List.nodup_cons.mpr ⟨hs ▸ h.1, h.2⟩
    case isFalse hs =>
      refine List.nodup_cons.mpr ⟨?_, ih h.2⟩
      intro hm
      obtain ⟨x, hx, hxs⟩ := List.mem_map.mp hm
      rcases mem_putRows hx with rfl | hx
      · exact hs hxs.symm
      · exact h.1 (List.mem_map.mpr ⟨x, hx, hxs⟩)

theorem length_putRows_le (r : ρ) (rows : List ρ) :
    (putRows key r rows).length ≤ rows.length + 1 := by
  induction rows with
  | nil => exact Nat.le_refl _
  | cons s rows ih =>
    rw [putRows]
    split
    · simp
    · simpa using ih

/-- Under any test, a `put` adds its own row at most. -/
theorem countP_putRows_le (p : ρ → Bool) (r : ρ) (rows : List ρ) :
    (putRows key r rows).countP p ≤ rows.countP p + if p r then 1 else 0 := by
  induction rows with
  | nil => simp [putRows, List.countP_singleton]
  | cons s rows ih =>
    rw [putRows]
    split
    · rw [List.countP_cons, List.countP_cons]
      omega
    · rw [List.countP_cons, List.countP_cons]
      omega

/-- `Map.set` -/
def put (t : Table key) (r : ρ) : Table key :=
  ⟨putRows key r t.rows, nodup_putRows r t.keys_nodup⟩

/-- `Map.delete` -/
def delete (t : Table key) (k : κ) : Table key :=
  ⟨t.rows.filter (key · ≠ k), t.keys_nodup.sublist (List.filter_sublist.map _)⟩

def filter (t : Table key) (p : ρ → Bool) : Table key :=
  ⟨t.rows.filter p, t.keys_nodup.sublist (List.filter_sublist.map _)⟩

def mapRows (t : Table key) (f : ρ → ρ) (hf : ∀ r, key (f r) = key r) : Table key :=
  ⟨t.rows.map f, by simpa [Function.comp_def, hf] using t.keys_nodup⟩

-- ---------------------------------------------------------------------------
-- Reading back
-- ---------------------------------------------------------------------------

variable {t t' : Table key} {r : ρ} {k k' : κ} {f : ρ → ρ}

theorem find?_key (h : t.find? k = some r) : key r = k := by simpa using List.find?_some h

theorem find?_mem (h : t.find? k = some r) : r ∈ t.rows := List.mem_of_find?_eq_some h

theorem find?_of_mem (h : r ∈ t.rows) : t.find? (key r) = some r := by
  have hs : (t.find? (key r)).isSome := List.find?_isSome.mpr ⟨r, h, by simp⟩
  obtain ⟨s, hs⟩ := Option.isSome_iff_exists.mp hs
  have he : s = r := List.inj_on_of_nodup_map t.keys_nodup (find?_mem hs) h (find?_key hs)
  exact he ▸ hs

theorem find?_eq_none : t.find? k = none ↔ k ∉ t.rows.map key := by
  simp [find?, List.find?_eq_none]

theorem insert_eq_none : t.insert r = none ↔ key r ∈ t.rows.map key := by
  unfold insert
  split <;> simp_all

theorem insert_rows (h : t.insert r = some t') : t'.rows = t.rows ++ [r] := by
  unfold insert at h
  split at h
  · cases h
  · cases h
    rfl

theorem not_mem_of_insert (h : t.insert r = some t') : key r ∉ t.rows.map key := by
  intro hm
  rw [insert_eq_none.mpr hm] at h
  cases h

theorem find?_insert (h : t.insert r = some t') :
    t'.find? k = if k = key r then some r else t.find? k := by
  simp only [find?, insert_rows h, List.find?_append]
  by_cases hk : k = key r
  · subst hk
    have hn : t.rows.find? (key · = key r) = none := find?_eq_none.mpr (not_mem_of_insert h)
    simp [hn]
  · simp [hk, Ne.symm hk]

@[simp] theorem rows_modify (hf : ∀ r, key (f r) = key r) :
    (t.modify k f hf).rows = t.rows.map fun r => if key r = k then f r else r := rfl

@[simp] theorem keys_modify (hf : ∀ r, key (f r) = key r) :
    (t.modify k f hf).rows.map key = t.rows.map key := map_key_modify f hf k t.rows

theorem find?_mapRows (hf : ∀ r, key (f r) = key r) :
    (t.mapRows f hf).find? k = (t.find? k).map f := by
  simp only [find?, mapRows, List.find?_map, Function.comp_def, hf]

theorem find?_modify (hf : ∀ r, key (f r) = key r) :
    (t.modify k f hf).find? k' = if k' = k then (t.find? k').map f else t.find? k' := by
  have hk : ∀ r, key (if key r = k then f r else r) = key r := by
    intro r
    split <;> simp [hf]
  have hfind : (t.modify k f hf).find? k' =
      (t.find? k').map fun r => if key r = k then f r else r := by
    simp only [find?, rows_modify, List.find?_map, Function.comp_def, hk]
  rw [hfind]
  cases hr : t.find? k' with
  | none => simp
  | some r =>
    have := find?_key hr
    by_cases h : k' = k <;> simp_all

theorem modify_of_find?_none (hf : ∀ r, key (f r) = key r) (h : t.find? k = none) :
    t.modify k f hf = t := by
  apply ext
  rw [rows_modify]
  conv_rhs => rw [← List.map_id t.rows]
  apply List.map_congr_left
  intro r hr
  have hn : key r ≠ k := fun he => find?_eq_none.mp h (List.mem_map.mpr ⟨r, hr, he⟩)
  simp [hn]

theorem find?_put : (t.put r).find? k = if k = key r then some r else t.find? k := by
  simp only [find?, put]
  induction t.rows with
  | nil =>
    by_cases hk : k = key r
    · simp [putRows, hk]
    · simp [putRows, hk, Ne.symm hk]
  | cons s rows ih =>
    simp only [putRows]
    split
    case isTrue hs =>
      by_cases hk : k = key r
      · simp [hk]
      · simp [hk, hs, Ne.symm hk]
    case isFalse hs =>
      by_cases hk : key s = k
      · have hr : k ≠ key r := hk ▸ hs
        simp [hk, hr]
      · simpa [hk] using ih

theorem countP_delete (p : ρ → Bool) (h : t.find? k = some r) :
    (t.delete k).rows.countP p + (if p r then 1 else 0) = t.rows.countP p := by
  obtain ⟨rows, hnodup⟩ := t
  simp only [find?, delete] at h ⊢
  induction rows with
  | nil => cases h
  | cons s rows ih =>
    rw [List.map_cons, List.nodup_cons] at hnodup
    by_cases hs : key s = k
    case pos =>
      have hrs : s = r := by simpa [hs] using h
      have hskip : (s :: rows).filter (key · ≠ k) = rows.filter (key · ≠ k) :=
        List.filter_cons_of_neg (by simp [hs])
      have hrest : rows.filter (key · ≠ k) = rows := by
        rw [List.filter_eq_self]
        intro x hx
        exact decide_eq_true fun he => hnodup.1 (List.mem_map.mpr ⟨x, hx, he.trans hs.symm⟩)
      rw [hskip, hrest, List.countP_cons, hrs]
    case neg =>
      have hkeep : (s :: rows).filter (key · ≠ k) = s :: rows.filter (key · ≠ k) :=
        List.filter_cons_of_pos (by simp [hs])
      have hrest := ih hnodup.2 (by simpa [hs] using h)
      rw [hkeep, List.countP_cons, List.countP_cons]
      omega

theorem find?_delete : (t.delete k).find? k' = if k' = k then none else t.find? k' := by
  simp only [find?, delete, List.find?_filter]
  split
  case isTrue h =>
    subst h
    simp [List.find?_eq_none]
  case isFalse h =>
    congr 1
    funext r
    by_cases hr : key r = k'
    · simp [hr, h]
    · simp [hr]

end Table

end ClaudeCluster.Lib
