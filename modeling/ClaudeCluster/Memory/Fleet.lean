import ClaudeCluster.Lib.Run
import ClaudeCluster.Memory.Replicator

/-!
# Databases fed by one log

Any number of nodes that start from one database. Each hears of the committed
entries in order, at its own pace, and in between calls `write` with options of
its own and the squelch of the cluster-health plugin. The log is what Raft has
committed: any entries, in any number.
-/

namespace ClaudeCluster.Memory

open Lib
open Raft (NodeId LogEntry)

-- ---------------------------------------------------------------------------
-- The squelch of cluster-health
-- ---------------------------------------------------------------------------

def squelchInsert : String :=
  "INSERT OR REPLACE INTO timeline_context " ++
    "(key, value, category, label, source, pinned, updated_at)\n           " ++
    "VALUES ('health_squelch_until', ?, 'machine', 'Health Alert Squelch', " ++
    "'cluster-health', 0, datetime('now'))"

def squelchDelete : String := "DELETE FROM timeline_context WHERE key = 'health_squelch_until'"

/-- Straight to `db.run`; the error of a statement is logged. -/
def persistSquelch (S : Sqlite) (a : Ambient) (untilMs : Int) (db : Database) : Database :=
  if untilMs > 0 then
    runStatement S a ⟨squelchInsert, "[\"" ++ toString untilMs ++ "\"]"⟩ db
  else runStatement S a ⟨squelchDelete, "[]"⟩ db

def squelchAlerts (S : Sqlite) (a : Ambient) (minutes : Option Int) (db : Database) : Database :=
  let mins := minutes.getD 30
  if mins ≤ 0 then persistSquelch S a 0 db
  else persistSquelch S a (a.now + mins * 60000) db

-- ---------------------------------------------------------------------------
-- The nodes
-- ---------------------------------------------------------------------------

structure Replica where
  db : Database
  /-- The committed entries it has handled. -/
  applied : Nat := 0

structure Fleet where
  log : List LogEntry := []
  /-- The payloads handed to a leader. Which of them commit is up to Raft. -/
  proposed : List Payload := []
  replica : NodeId → Replica

namespace Fleet

inductive Action
  | commit (entry : LogEntry)
  | apply (id : NodeId) (a : Ambient)
  | write (id : NodeId) (a : Ambient) (statement : Statement) (options : WriteOptions)
  | squelch (id : NodeId) (a : Ambient) (minutes : Option Int)
  deriving DecidableEq, Repr

def set (w : Fleet) (id : NodeId) (r : Replica) : Fleet :=
  { w with replica := fun x => if x = id then r else w.replica x }

def setDb (w : Fleet) (id : NodeId) (db : Database) : Fleet :=
  w.set id { w.replica id with db := db }

def step (P : Platform) (S : Sqlite) (w : Fleet) : Action → Option Fleet
  | .commit entry => some { w with log := w.log ++ [entry] }
  | .apply id a =>
    w.log[(w.replica id).applied]?.map fun entry =>
      w.set id {
        db := handleCommittedEntry P S a entry (w.replica id).db
        applied := (w.replica id).applied + 1 }
  | .write id a statement options =>
    match write P S a statement options (w.replica id).db with
    | .here db _ => some (w.setDb id db)
    | .raft payload => some { w with proposed := w.proposed ++ [payload] }
  | .squelch id a minutes => some (w.setDb id (squelchAlerts S a minutes (w.replica id).db))

def fleet (P : Platform) (S : Sqlite) (start : Database) : System Fleet Action :=
  ⟨fun w => w.log = [] ∧ w.proposed = [] ∧ ∀ id, w.replica id = { db := start }, step P S⟩

end Fleet

-- ---------------------------------------------------------------------------
-- Local tables
-- ---------------------------------------------------------------------------

def IsLocal (db : Database) (table : String) : Prop :=
  getTableClassification db table = some .localTier

instance (db : Database) (table : String) : Decidable (IsLocal db table) :=
  inferInstanceAs (Decidable (getTableClassification db table = some .localTier))

/-- The tables with a row that says `local`. -/
def localTables (db : Database) : List String :=
  ((db "_table_classification").rows.filterMap fun row =>
    match row.lookup "table_name" with
    | some (.text name) => some name
    | _ => none).filter (IsLocal db ·)

theorem mem_localTables {db : Database} {table : String} (h : IsLocal db table) :
    table ∈ localTables db := by
  refine List.mem_filter.mpr ⟨?_, decide_eq_true h⟩
  obtain ⟨row, hrow, -⟩ := Option.bind_eq_some_iff.mp h
  have hname := List.find?_some hrow
  refine List.mem_filterMap.mpr ⟨row, List.mem_of_find?_eq_some hrow, ?_⟩
  simp only [decide_eq_true_eq] at hname
  rw [hname]

/-- The classifications `initializeSchema` registers, with their domains. -/
def defaultClassifications : List (String × Classification × String) :=
  [("timeline_projects", .publicTier, "timeline"),
    ("timeline_threads", .publicTier, "timeline"),
    ("timeline_thoughts", .publicTier, "timeline"),
    ("timeline_thread_position", .publicTier, "timeline"),
    ("timeline_context", .internalTier, "timeline"),
    ("network_clients", .publicTier, "network"),
    ("network_networks", .publicTier, "network"),
    ("infra_builds", .publicTier, "infra"),
    ("infra_configs", .publicTier, "infra"),
    ("infra_events", .publicTier, "infra"),
    ("infra_sessions", .publicTier, "infra"),
    ("infra_secrets", .internalTier, "infra"),
    ("task_agent_tasks", .publicTier, "task")]

def classificationRow (now : String) (c : String × Classification × String) : Row :=
  [("table_name", .text c.1), ("classification", .text c.2.1.name), ("domain", .text c.2.2),
    ("description", .null), ("created_at", .text now)]

def classified (now : String) (cs : List (String × Classification × String)) : Database :=
  fun table => if table = "_table_classification" then { rows := cs.map (classificationRow now) } else {}

/-- The columns of the schema that default to `datetime('now')`. -/
def stampColumns : List (String × List String) :=
  [("_table_classification", ["created_at"]),
    ("timeline_projects", ["created_at", "updated_at"]),
    ("timeline_threads", ["created_at", "updated_at"]),
    ("timeline_thoughts", ["created_at"]),
    ("timeline_thread_position", ["updated_at"]),
    ("timeline_context", ["created_at", "updated_at"]),
    ("network_clients", ["discovered_at", "last_seen"]),
    ("network_networks", ["discovered_at", "last_seen"]),
    ("infra_configs", ["created_at", "updated_at"]),
    ("infra_events", ["created_at"]),
    ("infra_sessions", ["started_at", "created_at"]),
    ("infra_secrets", ["created_at"]),
    ("task_agent_tasks", ["created_at", "updated_at"])]

end ClaudeCluster.Memory
