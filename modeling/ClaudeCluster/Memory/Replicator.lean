import ClaudeCluster.Raft.Node

/-!
# The shared memory and its replicator

`MemoryReplicator` of `memory/replication.ts` over `SharedMemoryDB`. A write is
either run on the local file at once, when its classification is `local`, or
becomes the payload of a `memory_write` entry; a committed entry is run by
every process that hears of it, after its checksum has been compared.

SQLite, `JSON` and `sha256` are not of this repository. `Sqlite` and `Platform`
take their place, and nothing is assumed of either here. A JSON value stands
for itself by its text, so `sql + JSON.stringify(params)` is `sql ++ params`.
-/

namespace ClaudeCluster.Memory

open Raft (Buffer LogEntry)

abbrev Json := String

-- ---------------------------------------------------------------------------
-- Databases
-- ---------------------------------------------------------------------------

inductive Value
  | null
  | integer (i : Int)
  | real (bits : UInt64)
  | text (s : String)
  | blob (bytes : Buffer)
  deriving DecidableEq, Repr

abbrev Row := List (String × Value)

/-- The rows of a table by rowid, with its row of `sqlite_sequence`. -/
structure Table where
  rows : List Row := []
  seq : Nat := 0
  deriving DecidableEq, Repr

abbrev Database := String → Table

structure Statement where
  sql : String
  params : Json
  deriving DecidableEq, Repr

structure Ambient where
  now : Nat
  random : Int
  deriving DecidableEq, Repr

/-- `db.prepare(sql).run(...params)`: the database after it and the number of
rows changed, or the message of the error thrown. -/
structure Sqlite where
  run : Ambient → Statement → Database → Except String (Database × Nat)

-- ---------------------------------------------------------------------------
-- Classification
-- ---------------------------------------------------------------------------

inductive Classification
  | publicTier
  | internalTier
  | localTier
  deriving DecidableEq, Repr

def Classification.name : Classification → String
  | .publicTier => "public"
  | .internalTier => "internal"
  | .localTier => "local"

def Classification.ofName (name : String) : Option Classification :=
  [.publicTier, .internalTier, .localTier].find? (·.name = name)

/-- `SELECT classification FROM _table_classification WHERE table_name = ?` over
the rows of that table. -/
def classificationIn (rows : List Row) (tableName : String) : Option Classification :=
  (rows.find? fun row => row.lookup "table_name" = some (.text tableName)).bind fun row =>
    match row.lookup "classification" with
    | some (.text name) => Classification.ofName name
    | _ => none

def getTableClassification (db : Database) (tableName : String) : Option Classification :=
  classificationIn (db "_table_classification").rows tableName

/-- An empty name counts as none. -/
def getClassificationForTable (db : Database) (table : Option String) : Classification :=
  match table with
  | none => .publicTier
  | some name =>
    if name = "" then .publicTier else (getTableClassification db name).getD .publicTier

-- ---------------------------------------------------------------------------
-- The write path
-- ---------------------------------------------------------------------------

structure WriteOptions where
  classification : Option Classification := none
  table : Option String := none
  deriving DecidableEq, Repr

structure WriteResult where
  success : Bool
  error : Option String := none
  changes : Option Nat := none
  deriving DecidableEq, Repr

structure Payload where
  sql : String
  params : Json
  checksum : String
  classification : Option Classification := none
  table : Option String := none
  deriving DecidableEq, Repr

/-- A character inside a string, as `JSON.stringify` writes it. -/
def escape (c : Char) : List Char :=
  match c.toNat with
  | 0x08 => ['\\', 'b']
  | 0x09 => ['\\', 't']
  | 0x0a => ['\\', 'n']
  | 0x0c => ['\\', 'f']
  | 0x0d => ['\\', 'r']
  | 0x22 => ['\\', '"']
  | 0x5c => ['\\', '\\']
  | code =>
    if code < 0x20 then ['\\', 'u', '0', '0', Nat.digitChar (code / 16), Nat.digitChar (code % 16)]
    else [c]

def quote (s : String) : List Char := '"' :: s.toList.flatMap escape ++ ['"']

def field (key : String) (value : List Char) : List Char := quote key ++ ':' :: value

/-- `Buffer.from(JSON.stringify(entry))`. Fields that are `undefined` are left out. -/
def Payload.stringify (payload : Payload) : Buffer :=
  let fields := [
    some (field "sql" (quote payload.sql)),
    some (field "params" payload.params.toList),
    some (field "checksum" (quote payload.checksum)),
    payload.classification.map fun c => field "classification" (quote c.name),
    payload.table.map fun t => field "table" (quote t)]
  let text := '\x7b' :: [','].intercalate fields.reduceOption ++ ['\x7d']
  text.flatMap String.utf8EncodeChar

structure Platform where
  /-- `JSON.parse(entry.data.toString())`; `none` where it throws or the object
  lacks a text of the statement or of the checksum. -/
  parse : Buffer → Option Payload
  sha256 : String → String

def Platform.checksum (P : Platform) (sql : String) (params : Json) : String :=
  P.sha256 (sql ++ params)

def applyLocally (S : Sqlite) (a : Ambient) (statement : Statement) (db : Database) :
    Database × WriteResult :=
  match S.run a statement db with
  | .ok (db', changes) => (db', { success := true, changes := some changes })
  | .error message => (db, { success := false, error := some message })

def classify (db : Database) (options : WriteOptions) : Classification :=
  options.classification.getD (getClassificationForTable db options.table)

/-- What a call of `write` has done when it returns or first awaits. -/
inductive Written
  | here (db : Database) (result : WriteResult)
  /-- The payload for the leader: this node, or the one `ForwardMemoryWrite`
  reaches, which builds the same payload again. -/
  | raft (payload : Payload)

def write (P : Platform) (S : Sqlite) (a : Ambient) (statement : Statement)
    (options : WriteOptions) (db : Database) : Written :=
  if classify db options = .localTier then
    let (db, result) := applyLocally S a statement db
    .here db result
  else
    .raft {
      sql := statement.sql
      params := statement.params
      checksum := P.checksum statement.sql statement.params
      classification := some (classify db options)
      table := options.table }

-- ---------------------------------------------------------------------------
-- Committed entries
-- ---------------------------------------------------------------------------

/-- `handleCommittedEntry` up to `this.db.run`: what it is called with. -/
def committedStatement (P : Platform) (entry : LogEntry) : Option Statement :=
  if entry.type ≠ .memoryWrite then none
  else
    (P.parse entry.data).bind fun payload =>
      if payload.checksum ≠ P.checksum payload.sql payload.params then none
      else some ⟨payload.sql, payload.params⟩

/-- An error of the statement is logged and the database left as it is. -/
def runStatement (S : Sqlite) (a : Ambient) (statement : Statement) (db : Database) : Database :=
  match S.run a statement db with
  | .ok (db', _) => db'
  | .error _ => db

def handleCommittedEntry (P : Platform) (S : Sqlite) (a : Ambient) (entry : LogEntry)
    (db : Database) : Database :=
  match committedStatement P entry with
  | some statement => runStatement S a statement db
  | none => db

@[simp] theorem applyLocally_fst (S : Sqlite) (a : Ambient) (statement : Statement)
    (db : Database) : (applyLocally S a statement db).1 = runStatement S a statement db := by
  unfold applyLocally runStatement
  split <;> rfl

end ClaudeCluster.Memory
