import ClaudeCluster.Memory.Fleet

/-!
# Replicated tables converge

Tables that are not `local` hold the same rows on all nodes that have applied
the same entries, up to the columns that `datetime('now')` fills. This is not
so of every run: the classification a caller passes to `write` wins over that
of the table, an entry carries the text of a statement and not its effect, and
the classifications are themselves rows of a table. `Disciplined` says what a
run must keep to.

What is assumed of SQLite is in `Documented`. The proof follows one node at a
time: what it has in its replicated tables is what a replay of the entries it
has applied gives, at whatever time the replay is made.
-/

namespace ClaudeCluster.Memory

open Lib
open Raft (NodeId LogEntry)

-- ---------------------------------------------------------------------------
-- What is known of a statement
-- ---------------------------------------------------------------------------

structure Footprint where
  /-- The tables it reads or writes, those of its foreign keys and triggers
  among them. -/
  touches : Database → Statement → List String
  writes : Database → Statement → List String
  /-- It reads nothing but tables, save that `datetime('now')` fills columns of
  `stamped`, and it does not read those. -/
  deterministic : Statement → Bool
  /-- The columns of a table that `datetime('now')` fills. -/
  stamped : String → String → Bool

namespace Footprint

variable (F : Footprint)

def unstamped (table : String) (row : Row) : Row := row.filter fun cell => !F.stamped table cell.1

/-- A table without the columns `datetime('now')` fills. Its counter for
generated keys stays. -/
def view (table : String) (t : Table) : Table :=
  { t with rows := t.rows.map (F.unstamped table) }

def Same (table : String) (db db' : Database) : Prop :=
  F.view table (db table) = F.view table (db' table)

instance (table : String) (db db' : Database) : Decidable (F.Same table db db') :=
  inferInstanceAs (Decidable (F.view table (db table) = F.view table (db' table)))

end Footprint

structure Documented (S : Sqlite) (F : Footprint) : Prop where
  /-- A statement changes the tables it writes. -/
  frame : ∀ a statement db table, table ∉ F.writes db statement →
    runStatement S a statement db table = db table
  /-- A deterministic statement does the same wherever the tables it touches
  hold the same. -/
  determined : ∀ a a' statement db db', F.deterministic statement →
    (∀ table ∈ F.touches db statement, F.Same table db db') →
    ∀ table, F.Same table db db' →
      F.Same table (runStatement S a statement db) (runStatement S a' statement db')
  /-- The classifications are not times. -/
  classifications : F.stamped "_table_classification" "table_name" = false ∧
    F.stamped "_table_classification" "classification" = false

namespace Footprint.Same

variable {F : Footprint} {table : String} {db db' db'' : Database}

theorem refl (db : Database) : F.Same table db db := rfl

theorem symm (h : F.Same table db db') : F.Same table db' db := Eq.symm h

theorem trans (h : F.Same table db db') (h' : F.Same table db' db'') : F.Same table db db'' :=
  Eq.trans h h'

theorem of_eq (h : db table = db' table) : F.Same table db db' := congrArg (F.view table) h

end Footprint.Same

-- ---------------------------------------------------------------------------
-- Classifications in databases that agree
-- ---------------------------------------------------------------------------

theorem lookup_filter {p : String → Bool} {column : String} (hp : p column = true) (row : Row) :
    (row.filter fun cell => p cell.1).lookup column = row.lookup column := by
  induction row with
  | nil => rfl
  | cons cell row ih =>
    obtain ⟨key, value⟩ := cell
    by_cases hc : column = key
    · subst hc
      simp [hp]
    · have hne : (column == key) = false := beq_eq_false_iff_ne.mpr hc
      by_cases hk : p key
      · simp [hk, List.lookup_cons, hne, ih]
      · simp [hk, List.lookup_cons, hne, ih]

section
variable {S : Sqlite} {F : Footprint} {db db' : Database}

theorem classificationIn_unstamped (hF : Documented S F) (rows : List Row) (table : String) :
    classificationIn (rows.map (F.unstamped "_table_classification")) table =
      classificationIn rows table := by
  obtain ⟨hname, hclass⟩ := hF.classifications
  have hn := lookup_filter (p := fun c => !F.stamped "_table_classification" c)
    (show (!F.stamped "_table_classification" "table_name") = true by simp [hname])
  have hc := lookup_filter (p := fun c => !F.stamped "_table_classification" c)
    (show (!F.stamped "_table_classification" "classification") = true by simp [hclass])
  simp only [classificationIn, List.find?_map, Function.comp_def, Footprint.unstamped, hn,
    Option.bind_map, hc]

theorem isLocal_congr (hF : Documented S F) (h : F.Same "_table_classification" db db')
    (table : String) : IsLocal db table ↔ IsLocal db' table := by
  have hrows := congrArg Table.rows h
  simp only [Footprint.view] at hrows
  rw [IsLocal, IsLocal, getTableClassification, getTableClassification,
    ← classificationIn_unstamped hF, hrows, classificationIn_unstamped hF]

end

-- ---------------------------------------------------------------------------
-- The condition
-- ---------------------------------------------------------------------------

/-- A committed statement does the same on every node: it is deterministic,
touches replicated tables alone, and neither makes a local table replicated nor
the classifications local. -/
structure Replicable (S : Sqlite) (F : Footprint) (a : Ambient) (statement : Statement)
    (db : Database) : Prop where
  deterministic : F.deterministic statement
  touches : ∀ table ∈ F.touches db statement, ¬ IsLocal db table
  stays : ∀ table ∈ localTables db, IsLocal (runStatement S a statement db) table
  classifications : ¬ IsLocal (runStatement S a statement db) "_table_classification"

instance (S : Sqlite) (F : Footprint) (a : Ambient) (statement : Statement) (db : Database) :
    Decidable (Replicable S F a statement db) :=
  decidable_of_iff
    ((F.deterministic statement ∧ ∀ table ∈ F.touches db statement, ¬ IsLocal db table) ∧
      (∀ table ∈ localTables db, IsLocal (runStatement S a statement db) table) ∧
      ¬ IsLocal (runStatement S a statement db) "_table_classification")
    ⟨fun ⟨⟨hd, ht⟩, hs, hc⟩ => ⟨hd, ht, hs, hc⟩,
      fun ⟨hd, ht, hs, hc⟩ => ⟨⟨hd, ht⟩, hs, hc⟩⟩

namespace Fleet

/-- A statement that `write` runs on the spot writes local tables alone, every
committed statement is replicable, and nobody squelches. -/
def Disciplined (P : Platform) (S : Sqlite) (F : Footprint) (w : Fleet) : Action → Prop
  | .commit _ => True
  | .apply id a => ∀ entry ∈ w.log[(w.replica id).applied]?,
      ∀ statement ∈ committedStatement P entry, Replicable S F a statement (w.replica id).db
  | .write id _ statement options => classify (w.replica id).db options = .localTier →
      ∀ table ∈ F.writes (w.replica id).db statement, IsLocal (w.replica id).db table
  | .squelch _ _ _ => False

instance (P : Platform) (S : Sqlite) (F : Footprint) (w : Fleet) :
    ∀ a, Decidable (Disciplined P S F w a)
  | .commit _ => .isTrue trivial
  | .apply id a => inferInstanceAs (Decidable (∀ entry ∈ w.log[(w.replica id).applied]?,
      ∀ statement ∈ committedStatement P entry, Replicable S F a statement (w.replica id).db))
  | .write id _ statement options =>
    inferInstanceAs (Decidable (classify (w.replica id).db options = .localTier →
      ∀ table ∈ F.writes (w.replica id).db statement, IsLocal (w.replica id).db table))
  | .squelch _ _ _ => .isFalse id

-- ---------------------------------------------------------------------------
-- One node against a replay
-- ---------------------------------------------------------------------------

structure Follows (F : Footprint) (ref db : Database) : Prop where
  classifications : ¬ IsLocal ref "_table_classification"
  same : ∀ table, ¬ IsLocal ref table → F.Same table ref db

section
variable {P : Platform} {S : Sqlite} {F : Footprint} {ref db : Database}

theorem Follows.isLocal (hF : Documented S F) (h : Follows F ref db) (table : String) :
    IsLocal ref table ↔ IsLocal db table :=
  isLocal_congr hF (h.same _ h.classifications) table

/-- A statement that writes local tables alone is not seen in the others. -/
theorem Follows.runLocally (hF : Documented S F) (h : Follows F ref db) (a : Ambient)
    {statement : Statement} (hw : ∀ table ∈ F.writes db statement, IsLocal db table) :
    Follows F ref (runStatement S a statement db) := by
  refine ⟨h.classifications, ?_⟩
  intro table ht
  have hnot : table ∉ F.writes db statement := fun hm => ht ((h.isLocal hF table).mpr (hw table hm))
  exact (h.same table ht).trans (.of_eq (hF.frame a statement db table hnot).symm)

theorem Follows.runCommitted (hF : Documented S F) (h : Follows F ref db) (a a' : Ambient)
    {statement : Statement} (hr : Replicable S F a statement db) :
    Follows F (runStatement S a' statement ref) (runStatement S a statement db) := by
  have hrun : ∀ table, ¬ IsLocal ref table → F.Same table (runStatement S a' statement ref)
      (runStatement S a statement db) := by
    intro table ht
    refine (hF.determined a a' statement db ref hr.deterministic ?_ table
      (h.same table ht).symm).symm
    intro t htouch
    exact (h.same t (mt (h.isLocal hF t).mp (hr.touches t htouch))).symm
  have hiff := isLocal_congr hF (hrun _ h.classifications)
  refine ⟨mt (hiff _).mp hr.classifications, ?_⟩
  intro table ht
  -- a table that is replicated now was so before
  refine hrun table fun hl => ht ((hiff table).mpr ?_)
  exact hr.stays table (mem_localTables ((h.isLocal hF table).mp hl))

theorem Follows.handleCommittedEntry (hF : Documented S F) (h : Follows F ref db) (a a' : Ambient)
    {entry : LogEntry} (hr : ∀ statement ∈ committedStatement P entry,
      Replicable S F a statement db) :
    Follows F (handleCommittedEntry P S a' entry ref) (handleCommittedEntry P S a entry db) := by
  unfold Memory.handleCommittedEntry
  cases hs : committedStatement P entry with
  | none => exact h
  | some statement => exact h.runCommitted hF a a' (hr statement hs)

end

/-- The entries handled one after the other, all at one moment. -/
def replay (P : Platform) (S : Sqlite) (start : Database) (entries : List LogEntry) : Database :=
  entries.foldl (fun db entry => handleCommittedEntry P S ⟨0, 0⟩ entry db) start

-- ---------------------------------------------------------------------------
-- Runs
-- ---------------------------------------------------------------------------

structure Converged (P : Platform) (S : Sqlite) (F : Footprint) (start : Database) (w : Fleet) :
    Prop where
  applied : ∀ id, (w.replica id).applied ≤ w.log.length
  follows : ∀ id,
    Follows F (replay P S start (w.log.take (w.replica id).applied)) (w.replica id).db

section
variable {P : Platform} {S : Sqlite} {F : Footprint} {start : Database} {w w' : Fleet}

theorem Converged.set (h : Converged P S F start w) {id : NodeId} {r : Replica}
    (ha : r.applied ≤ w.log.length)
    (hf : Follows F (replay P S start (w.log.take r.applied)) r.db) :
    Converged P S F start (w.set id r) := by
  constructor
  · intro x
    by_cases hx : x = id
    · simpa [Fleet.set, hx] using ha
    · simpa [Fleet.set, hx] using h.applied x
  · intro x
    by_cases hx : x = id
    · simpa [Fleet.set, hx] using hf
    · simpa [Fleet.set, hx] using h.follows x

theorem Converged.commit (h : Converged P S F start w) (entry : LogEntry) :
    Converged P S F start { w with log := w.log ++ [entry] } := by
  constructor
  · intro id
    exact (h.applied id).trans (by simp)
  · intro id
    dsimp only
    rw [List.take_append_of_le_length (h.applied id)]
    exact h.follows id

theorem Converged.step (hF : Documented S F) {a : Action} (h : Converged P S F start w)
    (hg : Disciplined P S F w a) (hs : step P S w a = some w') : Converged P S F start w' := by
  cases a with
  | commit entry =>
    cases hs
    exact h.commit entry
  | apply id a =>
    obtain ⟨entry, he, rfl⟩ := Option.map_eq_some_iff.mp hs
    refine h.set (List.getElem?_eq_some_iff.mp he).1 ?_
    rw [List.take_add_one, he, Option.toList_some, replay, List.foldl_append]
    exact (h.follows id).handleCommittedEntry hF a ⟨0, 0⟩ (hg entry he)
  | write id a statement options =>
    simp only [Fleet.step, Memory.write] at hs
    by_cases hc : classify (w.replica id).db options = .localTier
    · simp only [hc, ↓reduceIte, applyLocally_fst, Option.some.injEq] at hs
      subst hs
      exact h.set (h.applied id) ((h.follows id).runLocally hF a (hg hc))
    · simp only [hc, ↓reduceIte, Option.some.injEq] at hs
      subst hs
      exact ⟨h.applied, h.follows⟩
  | squelch => exact hg.elim

theorem Converged.reach (hF : Documented S F) (h0 : ¬ IsLocal start "_table_classification")
    (h : (fleet P S start).Reach (Disciplined P S F) w) : Converged P S F start w := by
  induction h with
  | init hi =>
    obtain ⟨hlog, -, hr⟩ := hi
    constructor
    · intro id
      rw [hr id]
      exact Nat.zero_le _
    · intro id
      rw [hr id, hlog]
      exact ⟨h0, fun _ _ => .refl start⟩
  | step _ hg hs ih => exact ih.step hF hg hs

/-- Nodes that have applied equally many entries classify alike and hold the
same in every table that is not local. -/
theorem replicated_tables_agree (hF : Documented S F)
    (h0 : ¬ IsLocal start "_table_classification")
    (h : (fleet P S start).Reach (Disciplined P S F) w) (i j : NodeId)
    (happ : (w.replica i).applied = (w.replica j).applied) (table : String) :
    (IsLocal (w.replica i).db table ↔ IsLocal (w.replica j).db table) ∧
      (¬ IsLocal (w.replica i).db table →
        F.Same table (w.replica i).db (w.replica j).db) := by
  have hi := (Converged.reach hF h0 h).follows i
  have hj := (Converged.reach hF h0 h).follows j
  rw [← happ] at hj
  refine ⟨(hi.isLocal hF table).symm.trans (hj.isLocal hF table), ?_⟩
  intro ht
  have href := mt (hi.isLocal hF table).mp ht
  exact (hi.same table href).symm.trans (hj.same table href)

end

end Fleet

-- ---------------------------------------------------------------------------
-- A few statements of SQLite
-- ---------------------------------------------------------------------------

namespace Sample

def insertBuild : Statement :=
  ⟨"INSERT INTO infra_builds (project) VALUES (?)", "[\"cortex\"]"⟩

def insertNote : Statement :=
  ⟨"INSERT INTO node_notes (note) VALUES (?)", "[\"slow disk\"]"⟩

def copyNotes : Statement :=
  ⟨"INSERT INTO infra_builds (project) SELECT note FROM node_notes", "[]"⟩

def randomBuild : Statement :=
  ⟨"INSERT INTO infra_builds (project) VALUES (random())", "[]"⟩

def publishNotes : Statement :=
  ⟨"UPDATE _table_classification SET classification = 'public' WHERE table_name = 'node_notes'",
    "[]"⟩

def buildRow (project : Value) (id : Nat) : Row :=
  [("id", .integer id), ("project", project), ("branch", .null), ("commit_hash", .null),
    ("status", .null), ("started_at", .null), ("completed_at", .null),
    ("metadata", .text "\x7b\x7d")]

def noteRow (note : Value) (id : Nat) : Row := [("id", .integer id), ("note", note)]

def squelchRow (a : Ambient) (value : String) : Row :=
  [("key", .text "health_squelch_until"), ("value", .text value), ("thread_id", .null),
    ("category", .text "machine"), ("label", .text "Health Alert Squelch"),
    ("source", .text "cluster-health"), ("pinned", .integer 0), ("expires_at", .null),
    ("created_at", .integer a.now), ("updated_at", .integer a.now)]

/-- `AUTOINCREMENT`: the key is one more than any the table has had. -/
def insertRow (row : Nat → Row) (t : Table) : Table :=
  ⟨t.rows ++ [row (t.seq + 1)], t.seq + 1⟩

def note (row : Row) : Value := (row.lookup "note").getD .null

def publish (row : Row) : Row :=
  if row.lookup "table_name" = some (.text "node_notes") then
    row.map fun cell => (cell.1, if cell.1 = "classification" then .text "public" else cell.2)
  else row

def otherKey (row : Row) : Bool := row.lookup "key" ≠ some (.text "health_squelch_until")

def unquote (params : Json) : String :=
  String.ofList ((params.toList.drop 2).dropLast.dropLast)

inductive Command
  | insertBuild
  | insertNote
  | copyNotes
  | randomBuild
  | publishNotes
  | squelch (value : String)
  deriving DecidableEq

def prepare (statement : Statement) : Option Command :=
  if statement = insertBuild then some .insertBuild
  else if statement = insertNote then some .insertNote
  else if statement = copyNotes then some .copyNotes
  else if statement = randomBuild then some .randomBuild
  else if statement = publishNotes then some .publishNotes
  else if statement.sql = squelchInsert then some (.squelch (unquote statement.params))
  else none

def Command.target : Command → String
  | .insertNote => "node_notes"
  | .publishNotes => "_table_classification"
  | .squelch _ => "timeline_context"
  | _ => "infra_builds"

def Command.edit (a : Ambient) (db : Database) : Command → Table
  | .insertBuild => insertRow (buildRow (.text "cortex")) (db "infra_builds")
  | .insertNote => insertRow (noteRow (.text "slow disk")) (db "node_notes")
  | .copyNotes => ((db "node_notes").rows.map note).foldl
      (fun t project => insertRow (buildRow project) t) (db "infra_builds")
  | .randomBuild => insertRow (buildRow (.text (toString a.random))) (db "infra_builds")
  | .publishNotes => { db "_table_classification" with
      rows := (db "_table_classification").rows.map publish }
  | .squelch value => { db "timeline_context" with
      rows := (db "timeline_context").rows.filter otherKey ++ [squelchRow a value] }

def Command.changes (db : Database) : Command → Nat
  | .copyNotes => (db "node_notes").rows.length
  | _ => 1

def sqlite : Sqlite where
  run a statement db :=
    match prepare statement with
    | some c => .ok (Function.update db c.target (c.edit a db), c.changes db)
    | none => .error "not prepared"

def footprint : Footprint where
  writes _ statement := (prepare statement).toList.map Command.target
  touches _ statement := (prepare statement).toList.flatMap fun c =>
    if c = .copyNotes then [c.target, "node_notes"] else [c.target]
  deterministic statement := prepare statement ≠ some .randomBuild
  stamped table column := ((stampColumns.lookup table).getD []).contains column

section
variable {table : String} {t t' : Table} {db db' : Database}

theorem view_insertRow (row : Nat → Row) (h : footprint.view table t = footprint.view table t') :
    footprint.view table (insertRow row t) = footprint.view table (insertRow row t') := by
  have hrows := congrArg Table.rows h
  have hseq := congrArg Table.seq h
  simp only [Footprint.view] at hrows hseq
  simp only [Footprint.view, insertRow, List.map_append, hrows, hseq]

theorem view_insertRows (projects : List Value)
    (h : footprint.view table t = footprint.view table t') :
    footprint.view table (projects.foldl (fun t project => insertRow (buildRow project) t) t) =
      footprint.view table
        (projects.foldl (fun t project => insertRow (buildRow project) t) t') := by
  induction projects generalizing t t' with
  | nil => exact h
  | cons project projects ih => exact ih (view_insertRow (buildRow project) h)

theorem same_update {name : String} (h : footprint.Same table db db')
    (ht : footprint.view name t = footprint.view name t') :
    footprint.Same table (Function.update db name t) (Function.update db' name t') := by
  by_cases hn : table = name
  · subst hn
    simpa [Footprint.Same] using ht
  · simpa [Footprint.Same, Function.update_of_ne hn] using h

theorem view_rows {f : List Row → List Row} {g : List Row → List Row}
    (hf : ∀ rows, (f rows).map (footprint.unstamped table) =
      g (rows.map (footprint.unstamped table)))
    {f' : List Row → List Row} (hf' : ∀ rows, (f' rows).map (footprint.unstamped table) =
      g (rows.map (footprint.unstamped table)))
    (h : footprint.view table t = footprint.view table t') :
    footprint.view table { t with rows := f t.rows } =
      footprint.view table { t' with rows := f' t'.rows } := by
  have hrows := congrArg Table.rows h
  have hseq := congrArg Table.seq h
  simp only [Footprint.view] at hrows hseq
  simp only [Footprint.view, hf, hf', hrows, hseq]

end

theorem lookup_unstamped {table column : String} (h : footprint.stamped table column = false)
    (row : Row) : (footprint.unstamped table row).lookup column = row.lookup column :=
  lookup_filter (p := fun c => !footprint.stamped table c) (by simp [h]) row

theorem notes_eq {db ref : Database} (h : footprint.Same "node_notes" db ref) :
    (db "node_notes").rows.map note = (ref "node_notes").rows.map note := by
  have hnote : note ∘ footprint.unstamped "node_notes" = note := by
    funext row
    simp only [Function.comp_apply, note,
      lookup_unstamped (show footprint.stamped "node_notes" "note" = false by decide)]
  have hrows := congrArg (fun t : Table => t.rows.map note) h
  simpa only [Footprint.view, List.map_map, hnote] using hrows

theorem publish_unstamped (row : Row) :
    publish (footprint.unstamped "_table_classification" row) =
      footprint.unstamped "_table_classification" (publish row) := by
  unfold publish
  rw [lookup_unstamped (by decide)]
  split
  · simp only [Footprint.unstamped, List.filter_map, Function.comp_def]
  · rfl

theorem squelchRow_unstamped (a a' : Ambient) (value : String) :
    footprint.unstamped "timeline_context" (squelchRow a value) =
      footprint.unstamped "timeline_context" (squelchRow a' value) := by
  rfl

theorem runStatement_eq (a : Ambient) (statement : Statement) (db : Database) :
    runStatement sqlite a statement db =
      match prepare statement with
      | some c => Function.update db c.target (c.edit a db)
      | none => db := by
  simp only [runStatement, sqlite]
  cases prepare statement <;> rfl

theorem view_edit {a a' : Ambient} {c : Command} {db db' : Database} (hd : c ≠ .randomBuild)
    (ht : footprint.Same c.target db db')
    (hn : c = .copyNotes → footprint.Same "node_notes" db db') :
    footprint.view c.target (c.edit a db) = footprint.view c.target (c.edit a' db') := by
  cases c with
  | insertBuild => exact view_insertRow _ ht
  | insertNote => exact view_insertRow _ ht
  | copyNotes =>
    simp only [Command.edit, notes_eq (hn rfl)]
    exact view_insertRows _ ht
  | randomBuild => exact absurd rfl hd
  | publishNotes =>
    have hp : ∀ rows : List Row,
        (rows.map publish).map (footprint.unstamped "_table_classification") =
          (rows.map (footprint.unstamped "_table_classification")).map publish := by
      intro rows
      simp only [List.map_map, Function.comp_def, publish_unstamped]
    exact view_rows hp hp ht
  | squelch value =>
    have hkey : ∀ row, otherKey (footprint.unstamped "timeline_context" row) = otherKey row := by
      intro row
      simp only [otherKey,
        lookup_unstamped (show footprint.stamped "timeline_context" "key" = false by decide)]
    have hq : ∀ (m : Ambient) (rows : List Row),
        (rows.filter otherKey ++ [squelchRow m value]).map
            (footprint.unstamped "timeline_context") =
          (rows.map (footprint.unstamped "timeline_context")).filter otherKey ++
            [footprint.unstamped "timeline_context" (squelchRow a value)] := by
      intro m rows
      rw [List.map_append, List.map_singleton, squelchRow_unstamped m a, List.filter_map]
      simp only [Function.comp_def, hkey]
    exact view_rows (g := fun rows => rows.filter otherKey ++
      [footprint.unstamped "timeline_context" (squelchRow a value)]) (hq a) (hq a') ht

theorem documented : Documented sqlite footprint where
  frame a statement db table hw := by
    rw [runStatement_eq]
    cases hp : prepare statement with
    | none => rfl
    | some c =>
      have hne : table ≠ c.target := fun h => hw (by simp [footprint, hp, h])
      exact Function.update_of_ne hne _ _
  determined a a' statement db db' hd htouch table hs := by
    rw [runStatement_eq, runStatement_eq]
    cases hp : prepare statement with
    | none => exact hs
    | some c =>
      have hdet : c ≠ .randomBuild := by
        rintro rfl
        simp [footprint, hp] at hd
      refine same_update hs (view_edit hdet (htouch _ ?_) fun hc => htouch _ ?_)
      · simp only [footprint, hp, Option.toList_some, List.flatMap_cons, List.flatMap_nil]
        split <;> simp
      · simp [footprint, hp, hc]
  classifications := ⟨by decide, by decide⟩

-- ---------------------------------------------------------------------------
-- Runs of two nodes
-- ---------------------------------------------------------------------------

def payload (statement : Statement) (checksum table : String) : Payload :=
  ⟨statement.sql, statement.params, checksum, some .publicTier, some table⟩

def payloads : List Payload :=
  [payload insertBuild "6dc6477ae1c73b293dc9646b5ebc8e5ff9445ccea79b76a284eaf93d3a68d290"
      "infra_builds",
    payload copyNotes "d0bd9c39a749a7adfadb4c69266cfd3e0e7a44d1ba87c88cf14f69ad664f2bce"
      "infra_builds",
    payload randomBuild "3b3a35cdca56c2fea8e9b4cdc07efcff1e5208c4c222306fd4f8ebc91970b145"
      "infra_builds",
    payload publishNotes "f1ea72fd7642e817d06d0a90de4689fa11a3e2e2b584236de0a7a84a3797eb1a"
      "_table_classification"]

def platform : Platform where
  parse data := payloads.find? (·.stringify = data)
  sha256 text :=
    ((payloads.find? fun p => p.sql ++ p.params = text).map Payload.checksum).getD ""

def entry (index : Nat) (statement : Statement) : LogEntry :=
  ⟨1, index, .memoryWrite, ((payloads.find? (·.sql = statement.sql)).map Payload.stringify).getD []⟩

def start : Database :=
  classified "2026-02-19 00:00:00" (defaultClassifications ++ [("node_notes", .localTier, "node")])

/-- `a` keeps a note of its own; both nodes apply a build, at their own time. -/
def notedRun : List Fleet.Action :=
  [.write "a" ⟨1, 0⟩ insertNote { table := some "node_notes" }, .commit (entry 1 insertBuild),
    .apply "a" ⟨2, 0⟩, .apply "b" ⟨3, 0⟩]

open Fleet (fleet Disciplined)

theorem builds_agree :
    ∃ w, (fleet platform sqlite start).Reach (Disciplined platform sqlite footprint) w ∧
      ((w.replica "a").applied = (w.replica "b").applied ∧
        ((w.replica "a").db "node_notes" ≠ (w.replica "b").db "node_notes") ∧
        ((w.replica "a").db "infra_builds").rows = [buildRow (.text "cortex") 1] ∧
        ¬ IsLocal (w.replica "a").db "infra_builds") ∧
      footprint.Same "infra_builds" (w.replica "a").db (w.replica "b").db := by
  obtain ⟨w, hr, hw⟩ := System.Reach.replay (M := fleet platform sqlite start)
    (G := Disciplined platform sqlite footprint)
    (P := fun w => (w.replica "a").applied = (w.replica "b").applied ∧
      ((w.replica "a").db "node_notes" ≠ (w.replica "b").db "node_notes") ∧
      ((w.replica "a").db "infra_builds").rows = [buildRow (.text "cortex") 1] ∧
      ¬ IsLocal (w.replica "a").db "infra_builds")
    (s := { replica := fun _ => { db := start } }) ⟨rfl, rfl, fun _ => rfl⟩ notedRun
    (by decide +kernel)
  exact ⟨w, hr, hw, (Fleet.replicated_tables_agree documented (by decide) hr "a" "b" hw.1
    "infra_builds").2 hw.2.2.2⟩

def Diverged (w : Fleet) (table : String) : Prop :=
  (w.replica "a").applied = (w.replica "b").applied ∧
    (¬ IsLocal (w.replica "a").db table ∧ ¬ IsLocal (w.replica "b").db table) ∧
    ¬ footprint.Same table (w.replica "a").db (w.replica "b").db

instance (w : Fleet) (table : String) : Decidable (Diverged w table) :=
  inferInstanceAs (Decidable (_ ∧ _ ∧ _))

/-- One way each to lose a table, and the table lost: the caller's
classification, a row copied from a local table, a random value, a local table
that becomes public, a squelch. -/
def losses : List (String × List Fleet.Action) :=
  [("infra_builds", [.write "a" ⟨1, 0⟩ insertBuild
      { classification := some .localTier, table := some "infra_builds" }]),
    ("infra_builds", [.write "a" ⟨1, 0⟩ insertNote { table := some "node_notes" },
      .commit (entry 1 copyNotes), .apply "a" ⟨2, 0⟩, .apply "b" ⟨3, 0⟩]),
    ("infra_builds", [.commit (entry 1 randomBuild), .apply "a" ⟨2, 7⟩, .apply "b" ⟨3, 8⟩]),
    ("node_notes", [.write "a" ⟨1, 0⟩ insertNote { table := some "node_notes" },
      .commit (entry 1 publishNotes), .apply "a" ⟨2, 0⟩, .apply "b" ⟨3, 0⟩]),
    ("timeline_context", [.squelch "a" ⟨1, 0⟩ none])]

theorem losses_diverge : losses.Forall fun loss =>
    ∃ w, (fleet platform sqlite start).Reach (fun _ _ => True) w ∧ Diverged w loss.1 := by
  have hruns : ∀ loss ∈ losses, ((fleet platform sqlite start).exec (fun _ _ => True)
      { replica := fun _ => { db := start } } loss.2).any (Diverged · loss.1) := by
    decide +kernel
  refine List.forall_iff_forall_mem.mpr fun loss hl => ?_
  exact System.Reach.replay (M := fleet platform sqlite start) (P := (Diverged · loss.1))
    ⟨rfl, rfl, fun _ => rfl⟩ loss.2 (hruns loss hl)

end Sample

end ClaudeCluster.Memory
