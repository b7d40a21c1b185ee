import ClaudeCluster.Memory.Replicator

/-!
# Snapshots of the shared memory

`requestSnapshot` of `MemoryReplicator` and the `RequestMemorySnapshot` handler
that answers it. The stream and every file operation may go either way; what
they did is handed to the call, and it says what is left of the file and of the
handle.

The snapshot is put together as the leader sent it (`assemble_snapshotChunks`),
in whatever order the chunks arrive (`snapshot_round_trip`). The handle is
closed before the file is replaced and nothing opens it again, so the call
leaves a usable database where it stops before that (`usable_iff_stops`), and a
node that has taken a snapshot applies no entry any more (`deaf_of_closed`).
-/

namespace ClaudeCluster.Memory

open Raft (Buffer LogEntry)

-- ---------------------------------------------------------------------------
-- The handle
-- ---------------------------------------------------------------------------

structure SharedMemoryDB where
  /-- The file at `getPath()`, with what is still in its write-ahead log. -/
  file : Buffer
  /-- The file at `getPath() + '.snapshot'`. -/
  snapshot : Option Buffer := none
  isOpen : Bool := true
  deriving DecidableEq, Repr

namespace SharedMemoryDB

/-- `this.db.prepare(sql)`, and then what the statement does. -/
def prepare {α : Type} (db : SharedMemoryDB) (statement : Except String α) : Except String α :=
  if db.isOpen then statement else .error "The database connection is not open"

def sqlite (db : SharedMemoryDB) (S : Sqlite) : Sqlite where
  run a statement d := db.prepare (S.run a statement d)

def query (db : SharedMemoryDB) (read : Database → Except String (List Row)) (d : Database) :
    Except String (List Row) :=
  db.prepare (read d)

/-- It accepts reads and writes: each comes out as SQLite has it. -/
def Usable (db : SharedMemoryDB) : Prop :=
  (∀ S, db.sqlite S = S) ∧ ∀ read d, db.query read d = read d

theorem usable_iff {db : SharedMemoryDB} : db.Usable ↔ db.isOpen := by
  constructor
  · intro h
    cases hopen : db.isOpen with
    | true => rfl
    | false =>
      have hread := h.2 (fun _ => .ok []) fun _ => {}
      simp [query, prepare, hopen] at hread
  · intro h
    refine ⟨fun S => ?_, fun read d => ?_⟩
    · simp [sqlite, prepare, h]
    · simp [query, prepare, h]

end SharedMemoryDB

-- ---------------------------------------------------------------------------
-- The stream
-- ---------------------------------------------------------------------------

/-- A `MemorySnapshotChunk` after `parseInt`. -/
structure SnapshotChunk where
  data : Buffer
  offset : Int
  totalSize : Int
  done : Bool
  checksum : String
  deriving DecidableEq, Repr

def chunkSize : Nat := 64 * 1024

def snapshotChunksFrom (sha256 : Buffer → String) (file : Buffer) (offset : Nat) :
    List SnapshotChunk :=
  if offset < file.length then
    let isDone := decide (file.length ≤ offset + chunkSize)
    { data := (file.drop offset).take chunkSize
      offset := offset
      totalSize := file.length
      done := isDone
      checksum := if isDone then sha256 file else "" } ::
      snapshotChunksFrom sha256 file (offset + chunkSize)
  else []
termination_by file.length - offset
decreasing_by
  have : 0 < chunkSize := by decide
  omega

/-- What `RequestMemorySnapshot` writes to the stream, for the file it finds. -/
def snapshotChunks (sha256 : Buffer → String) : Option Buffer → List SnapshotChunk
  | none => []
  | some file => snapshotChunksFrom sha256 file 0

def sent (chunks : List SnapshotChunk) : Buffer := chunks.flatMap SnapshotChunk.data

-- ---------------------------------------------------------------------------
-- The call
-- ---------------------------------------------------------------------------

structure FileOps where
  /-- `Buffer.alloc` finds the memory. -/
  allocates : Bool := true
  /-- `writeFileSync` throws, and leaves this. -/
  writeFails : Option (Option Buffer) := none
  /-- `close` throws. -/
  closeFails : Bool := false
  /-- `renameSync` throws. -/
  renameFails : Bool := false
  deriving DecidableEq, Repr

/-- `chunk.data.copy(fileBuffer, chunk.offset)`: what does not fit is cut off. -/
def copyInto (buffer : Buffer) (chunk : SnapshotChunk) : Option Buffer :=
  if chunk.offset < 0 then none
  else
    let start := chunk.offset.toNat
    some (buffer.take start ++ chunk.data.take (buffer.length - start) ++
      buffer.drop (start + chunk.data.length))

def totalSize (chunks : List SnapshotChunk) : Int :=
  (chunks.getLast?.map SnapshotChunk.totalSize).getD 0

def receivedChecksum (chunks : List SnapshotChunk) : String :=
  ((chunks.filter SnapshotChunk.done).getLast?.map SnapshotChunk.checksum).getD ""

/-- `fileBuffer`, unless its allocation or a copy throws. -/
def assemble (allocates : Bool) (chunks : List SnapshotChunk) : Option Buffer :=
  if allocates ∧ 0 ≤ totalSize chunks then
    chunks.foldlM copyInto (List.replicate (totalSize chunks).toNat 0)
  else none

/-- `receivedChecksum && actualChecksum !== receivedChecksum` -/
def checksumMismatch (sha256 : Buffer → String) (chunks : List SnapshotChunk) (file : Buffer) :
    Bool :=
  receivedChecksum chunks ≠ "" ∧ sha256 file ≠ receivedChecksum chunks

/-- `close` of a handle that is closed does nothing. -/
def SharedMemoryDB.close (ops : FileOps) (db : SharedMemoryDB) : Option SharedMemoryDB :=
  if db.isOpen ∧ ops.closeFails then none else some { db with isOpen := false }

def replaceDatabase (ops : FileOps) (file : Buffer) (db : SharedMemoryDB) :
    SharedMemoryDB × Bool :=
  match ops.writeFails with
  | some left => ({ db with snapshot := left }, false)
  | none =>
    let db := { db with snapshot := some file }
    match db.close ops with
    | none => (db, false)
    | some db =>
      if ops.renameFails then (db, false)
      else ({ db with file := file, snapshot := none }, true)

/-- A stream that breaks after some chunks is an error. -/
def requestSnapshot (sha256 : Buffer → String) (leaderAddress : Option String)
    (stream : Except String (List SnapshotChunk)) (ops : FileOps) (db : SharedMemoryDB) :
    SharedMemoryDB × Bool :=
  if leaderAddress.getD "" = "" then (db, false)
  else
    match stream with
    | .error _ => (db, false)
    | .ok chunks =>
      if chunks = [] then (db, false)
      else
        match assemble ops.allocates chunks with
        | none => (db, false)
        | some file =>
          if checksumMismatch sha256 chunks file then (db, false)
          else replaceDatabase ops file db

-- ---------------------------------------------------------------------------
-- The snapshot put together
-- ---------------------------------------------------------------------------

section
variable (sha256 : Buffer → String) (file : Buffer)

theorem snapshotChunksFrom_cons {offset : Nat} (h : offset < file.length) :
    ∃ chunk, snapshotChunksFrom sha256 file offset =
        chunk :: snapshotChunksFrom sha256 file (offset + chunkSize) ∧
      chunk.data = (file.drop offset).take chunkSize ∧ chunk.offset = offset ∧
      chunk.totalSize = file.length := by
  rw [snapshotChunksFrom, if_pos h]
  exact ⟨_, rfl, rfl, rfl, rfl⟩

theorem snapshotChunksFrom_nil {offset : Nat} (h : file.length ≤ offset) :
    snapshotChunksFrom sha256 file offset = [] := by
  rw [snapshotChunksFrom, if_neg (by omega)]

theorem totalSize_snapshotChunksFrom {offset : Nat} (h : offset < file.length) :
    totalSize (snapshotChunksFrom sha256 file offset) = file.length := by
  induction offset using snapshotChunksFrom.induct file with
  | case1 offset _ ih =>
    obtain ⟨chunk, heq, _, _, htotal⟩ := snapshotChunksFrom_cons sha256 file h
    rw [heq]
    by_cases hnext : offset + chunkSize < file.length
    · obtain ⟨chunk', heq', _⟩ := snapshotChunksFrom_cons sha256 file hnext
      have := ih hnext
      rw [heq'] at this ⊢
      simpa [totalSize] using this
    · rw [snapshotChunksFrom_nil sha256 file (by omega)]
      simp [totalSize, htotal]
  | case2 offset hge => exact absurd h hge

theorem sent_snapshotChunksFrom (offset : Nat) :
    sent (snapshotChunksFrom sha256 file offset) = file.drop offset := by
  induction offset using snapshotChunksFrom.induct file with
  | case1 offset h ih =>
    obtain ⟨chunk, heq, hdata, _, _⟩ := snapshotChunksFrom_cons sha256 file h
    rw [heq]
    simp only [sent, List.flatMap_cons, hdata] at ih ⊢
    rw [ih, ← List.drop_drop, List.take_append_drop]
  | case2 offset hge =>
    rw [snapshotChunksFrom_nil sha256 file (by omega), List.drop_eq_nil_of_le (by omega)]
    rfl

/-- What is in `fileBuffer` when the chunks before the offset have arrived. -/
def arrived (offset : Nat) : Buffer :=
  file.take offset ++ List.replicate (file.length - offset) 0

theorem copyInto_arrived {offset : Nat} (h : offset < file.length) {chunk : SnapshotChunk}
    (hdata : chunk.data = (file.drop offset).take chunkSize) (hoffset : chunk.offset = offset) :
    copyInto (arrived file offset) chunk = some (arrived file (offset + chunkSize)) := by
  have hlen : (arrived file offset).length = file.length := by
    simp [arrived]
    omega
  have htake : (arrived file offset).take offset = file.take offset :=
    List.take_left' (by simp; omega)
  have hfits : chunk.data.take (file.length - offset) = chunk.data := by
    apply List.take_of_length_le
    simp [hdata]
  have hrest : (arrived file offset).drop (offset + chunk.data.length) =
      List.replicate (file.length - (offset + chunkSize)) 0 := by
    have hcount : file.length - offset - chunk.data.length =
        file.length - (offset + chunkSize) := by
      rw [hdata, List.length_take, List.length_drop]
      omega
    rw [← List.drop_drop, arrived, List.drop_left' (by simp; omega), List.drop_replicate, hcount]
  have hneg : ¬(offset : Int) < 0 := by omega
  rw [copyInto, hoffset, if_neg hneg]
  simp only [Int.toNat_natCast, hlen, htake, hfits, hrest]
  rw [hdata, ← List.take_add, arrived]

theorem copy_snapshotChunksFrom (offset : Nat) :
    (snapshotChunksFrom sha256 file offset).foldlM copyInto (arrived file offset) = some file := by
  induction offset using snapshotChunksFrom.induct file with
  | case1 offset h ih =>
    obtain ⟨chunk, heq, hdata, hoffset, _⟩ := snapshotChunksFrom_cons sha256 file h
    rw [heq, List.foldlM_cons, copyInto_arrived file h hdata hoffset, Option.bind_eq_bind,
      Option.bind_some, ih]
  | case2 offset hge =>
    rw [snapshotChunksFrom_nil sha256 file (by omega), arrived, List.take_of_length_le (by omega)]
    simp
    omega

variable {file}

theorem assemble_snapshotChunks (h : file ≠ []) :
    assemble true (snapshotChunks sha256 (some file)) = some file := by
  have hpos := List.length_pos_iff.mpr h
  have htotal := totalSize_snapshotChunksFrom sha256 file hpos
  have hcopy := copy_snapshotChunksFrom sha256 file 0
  simp only [arrived, List.take_zero, List.nil_append, Nat.sub_zero] at hcopy
  simp [assemble, snapshotChunks, htotal, hcopy]

theorem sent_snapshotChunks : sent (snapshotChunks sha256 (some file)) = file :=
  sent_snapshotChunksFrom sha256 file 0

theorem receivedChecksum_snapshotChunksFrom {offset : Nat} (h : offset < file.length) :
    receivedChecksum (snapshotChunksFrom sha256 file offset) = sha256 file := by
  induction offset using snapshotChunksFrom.induct file with
  | case1 offset _ ih =>
    rw [snapshotChunksFrom, if_pos h]
    by_cases hnext : offset + chunkSize < file.length
    · have := ih hnext
      simpa [receivedChecksum, Nat.not_le.mpr hnext] using this
    · rw [snapshotChunksFrom_nil sha256 file (by omega)]
      simp [receivedChecksum, Nat.not_lt.mp hnext]
  | case2 offset hge => exact absurd h hge

theorem not_checksumMismatch_snapshotChunks (h : file ≠ []) :
    checksumMismatch sha256 (snapshotChunks sha256 (some file)) file = false := by
  have hreceived := receivedChecksum_snapshotChunksFrom sha256 (List.length_pos_iff.mpr h)
  simp [checksumMismatch, snapshotChunks, hreceived]

end

-- ---------------------------------------------------------------------------
-- Any order of arrival
-- ---------------------------------------------------------------------------

def SnapshotChunk.Covers (chunk : SnapshotChunk) (i : Int) : Prop :=
  chunk.offset ≤ i ∧ i < chunk.offset + chunk.data.length

instance (chunk : SnapshotChunk) (i : Int) : Decidable (chunk.Covers i) :=
  inferInstanceAs (Decidable (_ ∧ _))

def chunkAt (sha256 : Buffer → String) (file : Buffer) (offset : Nat) : SnapshotChunk :=
  let isDone := decide (file.length ≤ offset + chunkSize)
  { data := (file.drop offset).take chunkSize
    offset := offset
    totalSize := file.length
    done := isDone
    checksum := if isDone then sha256 file else "" }

section
variable {sha256 : Buffer → String} {file : Buffer} {offset : Nat}

theorem snapshotChunksFrom_of_lt (h : offset < file.length) :
    snapshotChunksFrom sha256 file offset =
      chunkAt sha256 file offset :: snapshotChunksFrom sha256 file (offset + chunkSize) := by
  rw [snapshotChunksFrom, if_pos h]
  rfl

theorem covers_chunkAt {i : Int} :
    (chunkAt sha256 file offset).Covers i ↔
      (offset : Int) ≤ i ∧ i < offset + chunkSize ∧ i < max offset file.length := by
  simp only [SnapshotChunk.Covers, chunkAt, List.length_take, List.length_drop]
  omega

theorem eq_chunkAt_of_mem {chunk : SnapshotChunk}
    (h : chunk ∈ snapshotChunksFrom sha256 file offset) :
    ∃ start, offset ≤ start ∧ start < file.length ∧ chunk = chunkAt sha256 file start := by
  induction offset using snapshotChunksFrom.induct file with
  | case1 offset hlt ih =>
    rw [snapshotChunksFrom_of_lt hlt, List.mem_cons] at h
    obtain rfl | hrest := h
    · exact ⟨offset, le_rfl, hlt, rfl⟩
    · obtain ⟨start, hle, hstart, heq⟩ := ih hrest
      exact ⟨start, by omega, hstart, heq⟩
  | case2 offset hge =>
    rw [snapshotChunksFrom_nil sha256 file (by omega)] at h
    cases h

theorem pairwise_snapshotChunksFrom :
    (snapshotChunksFrom sha256 file offset).Pairwise fun a b => ∀ i, ¬(a.Covers i ∧ b.Covers i) := by
  induction offset using snapshotChunksFrom.induct file with
  | case1 offset hlt ih =>
    rw [snapshotChunksFrom_of_lt hlt, List.pairwise_cons]
    refine ⟨fun chunk hchunk i => ?_, ih⟩
    obtain ⟨start, hle, _, rfl⟩ := eq_chunkAt_of_mem hchunk
    rw [covers_chunkAt, covers_chunkAt]
    omega
  | case2 offset hge =>
    rw [snapshotChunksFrom_nil sha256 file (by omega)]
    exact .nil

theorem covered_snapshotChunksFrom {i : Int} :
    (∃ chunk ∈ snapshotChunksFrom sha256 file offset, chunk.Covers i) ↔
      (offset : Int) ≤ i ∧ i < file.length := by
  induction offset using snapshotChunksFrom.induct file with
  | case1 offset hlt ih =>
    simp only [snapshotChunksFrom_of_lt hlt, List.mem_cons, exists_eq_or_imp, ih, covers_chunkAt]
    omega
  | case2 offset hge =>
    simp only [snapshotChunksFrom_nil sha256 file (Nat.le_of_not_lt hge), List.not_mem_nil,
      false_and, exists_false, false_iff]
    omega

theorem filter_done_snapshotChunksFrom (h : offset < file.length) :
    ∃ last, (snapshotChunksFrom sha256 file offset).filter SnapshotChunk.done = [last] ∧
      last.checksum = sha256 file := by
  induction offset using snapshotChunksFrom.induct file with
  | case1 offset hlt ih =>
    rw [snapshotChunksFrom_of_lt hlt]
    by_cases hnext : offset + chunkSize < file.length
    · obtain ⟨last, hlast, hsum⟩ := ih hnext
      have hmore : (chunkAt sha256 file offset).done = false := by simp [chunkAt, hnext]
      exact ⟨last, by rw [List.filter_cons_of_neg (by simp [hmore]), hlast], hsum⟩
    · have hdone : (chunkAt sha256 file offset).done = true := by
        simp [chunkAt, Nat.not_lt.mp hnext]
      refine ⟨chunkAt sha256 file offset, ?_, ?_⟩
      · rw [snapshotChunksFrom_nil sha256 file (by omega), List.filter_cons_of_pos hdone,
          List.filter_nil]
      · simp [chunkAt, Nat.not_lt.mp hnext]
  | case2 offset hge => exact absurd h hge

/-- A copy changes nothing but the positions it covers, and these have the file's bytes after it. -/
theorem getElem?_copyInto {buffer : Buffer} (hlen : buffer.length = file.length)
    (h : offset < file.length) :
    ∃ buffer', copyInto buffer (chunkAt sha256 file offset) = some buffer' ∧
      buffer'.length = file.length ∧
      ∀ i : Nat, buffer'[i]? =
        if (chunkAt sha256 file offset).Covers i then file[i]? else buffer[i]? := by
  have hneg : ¬(chunkAt sha256 file offset).offset < 0 := by simp [chunkAt]
  refine ⟨_, by rw [copyInto, if_neg hneg], ?_, fun i => ?_⟩
  · simp [chunkAt]
    omega
  · simp only [covers_chunkAt]
    simp only [chunkAt, Int.toNat_natCast, List.getElem?_append, List.length_append,
      List.length_take, List.length_drop, List.getElem?_take, List.getElem?_drop]
    by_cases hbefore : i < offset
    · rw [if_pos (by omega), if_pos (by omega), if_pos hbefore, if_neg (by omega)]
    · by_cases hinside : i < offset + chunkSize ∧ i < file.length
      · rw [if_pos (by omega), if_neg (by omega), if_pos (by omega), if_pos (by omega),
          if_pos (by omega)]
        congr 1
        omega
      · rw [if_neg (by omega), if_neg (by omega)]
        congr 1
        omega

theorem foldlM_copyInto (chunks : List SnapshotChunk) {buffer : Buffer}
    (hlen : buffer.length = file.length)
    (hchunks : ∀ chunk ∈ chunks, ∃ start < file.length, chunk = chunkAt sha256 file start) :
    ∃ buffer', chunks.foldlM copyInto buffer = some buffer' ∧ buffer'.length = file.length ∧
      ∀ i : Nat, (∃ chunk ∈ chunks, chunk.Covers i) ∨ buffer[i]? = file[i]? →
        buffer'[i]? = file[i]? := by
  induction chunks generalizing buffer with
  | nil => exact ⟨buffer, rfl, hlen, by simp⟩
  | cons chunk rest ih =>
    obtain ⟨start, hstart, rfl⟩ := hchunks chunk List.mem_cons_self
    obtain ⟨next, hcopy, hnext, hget⟩ := getElem?_copyInto hlen hstart
    obtain ⟨last, hfold, hlast, hall⟩ := ih hnext fun c hc => hchunks c (List.mem_cons_of_mem _ hc)
    refine ⟨last, by rw [List.foldlM_cons, hcopy]; exact hfold, hlast, fun i hi => hall i ?_⟩
    rw [hget]
    by_cases hcovers : (chunkAt sha256 file start).Covers i
    · exact .inr (if_pos hcovers)
    · rw [if_neg hcovers]
      simpa [hcovers] using hi

/-- Chunks of one file that cover it come together as that file, however often and in
whatever order they arrive. -/
theorem assemble_of_covers {chunks : List SnapshotChunk} (h : file ≠ [])
    (hchunks : ∀ chunk ∈ chunks, ∃ start < file.length, chunk = chunkAt sha256 file start)
    (hcover : ∀ i : Nat, i < file.length → ∃ chunk ∈ chunks, chunk.Covers i) :
    assemble true chunks = some file := by
  have htotal : totalSize chunks = file.length := by
    cases hget : chunks.getLast? with
    | none =>
      obtain ⟨chunk, hmem, _⟩ := hcover 0 (List.length_pos_iff.mpr h)
      rw [List.getLast?_eq_none_iff.mp hget] at hmem
      cases hmem
    | some last =>
      obtain ⟨start, _, rfl⟩ := hchunks last (List.mem_of_getLast? hget)
      simp [totalSize, hget, chunkAt]
  obtain ⟨buffer, hfold, hlen, hall⟩ :=
    @foldlM_copyInto sha256 file chunks (List.replicate file.length 0) (by simp) hchunks
  have hbuffer : buffer = file := by
    apply List.ext_getElem?
    intro i
    by_cases hi : i < file.length
    · exact hall i (.inl (hcover i hi))
    · rw [List.getElem?_eq_none (by omega), List.getElem?_eq_none (by omega)]
  simp [assemble, htotal, hfold, hbuffer]

end

/-- The chunks of a file are disjoint, none is empty or larger than 64KB, they cover the
file, the one that is `done` has its checksum, and in any order of arrival they come
together as the file and pass the checksum test. -/
theorem snapshot_round_trip (sha256 : Buffer → String) {file : Buffer} (h : file ≠ []) :
    (snapshotChunks sha256 (some file)).Pairwise (fun a b => ∀ i, ¬(a.Covers i ∧ b.Covers i)) ∧
    (∀ chunk ∈ snapshotChunks sha256 (some file),
      chunk.data ≠ [] ∧ chunk.data.length ≤ 65536) ∧
    (∀ i : Int, (∃ chunk ∈ snapshotChunks sha256 (some file), chunk.Covers i) ↔
      0 ≤ i ∧ i < file.length) ∧
    (∃ last, (snapshotChunks sha256 (some file)).filter SnapshotChunk.done = [last] ∧
      last.checksum = sha256 file) ∧
    ∀ arrived, arrived.Perm (snapshotChunks sha256 (some file)) →
      assemble true arrived = some file ∧ checksumMismatch sha256 arrived file = false := by
  have hpos := List.length_pos_iff.mpr h
  refine ⟨pairwise_snapshotChunksFrom, fun chunk hchunk => ?_,
    fun i => @covered_snapshotChunksFrom sha256 file 0 i,
    filter_done_snapshotChunksFrom hpos, fun arrived hperm => ⟨?_, ?_⟩⟩
  · obtain ⟨start, _, hstart, rfl⟩ := eq_chunkAt_of_mem hchunk
    refine ⟨?_, by simp [chunkAt, chunkSize]⟩
    rw [← List.length_pos_iff]
    simp only [chunkAt, chunkSize, List.length_take, List.length_drop]
    omega
  · refine @assemble_of_covers sha256 file arrived h (fun chunk hchunk => ?_) fun i hi => ?_
    · obtain ⟨start, _, hstart, heq⟩ := eq_chunkAt_of_mem (hperm.mem_iff.mp hchunk)
      exact ⟨start, hstart, heq⟩
    · obtain ⟨chunk, hchunk, hcovers⟩ :=
        (@covered_snapshotChunksFrom sha256 file 0 i).mpr ⟨by omega, by omega⟩
      exact ⟨chunk, hperm.mem_iff.mpr hchunk, hcovers⟩
  · obtain ⟨last, hlast, hsum⟩ := @filter_done_snapshotChunksFrom sha256 file 0 hpos
    have hdone : arrived.filter SnapshotChunk.done = [last] := by
      rw [← List.perm_singleton, ← hlast]
      exact hperm.filter _
    simp [checksumMismatch, receivedChecksum, hdone, hsum]

def twoChunks : Buffer := List.replicate (chunkSize + 1) 7

theorem length_twoChunks : twoChunks.length = chunkSize + 1 := List.length_replicate

/-- The second chunk arrives first. -/
theorem snapshot_round_trip_reversed :
    [chunkAt (fun _ => "sum") twoChunks chunkSize, chunkAt (fun _ => "sum") twoChunks 0].Perm
        (snapshotChunks (fun _ => "sum") (some twoChunks)) ∧
      assemble true [chunkAt (fun _ => "sum") twoChunks chunkSize,
        chunkAt (fun _ => "sum") twoChunks 0] = some twoChunks ∧
      checksumMismatch (fun _ => "sum") [chunkAt (fun _ => "sum") twoChunks chunkSize,
        chunkAt (fun _ => "sum") twoChunks 0] twoChunks = false := by
  have hne : twoChunks ≠ [] := List.cons_ne_nil _ _
  have hchunks : snapshotChunks (fun _ => "sum") (some twoChunks) =
      [chunkAt (fun _ => "sum") twoChunks 0, chunkAt (fun _ => "sum") twoChunks chunkSize] := by
    rw [snapshotChunks, snapshotChunksFrom_of_lt (by rw [length_twoChunks]; omega),
      snapshotChunksFrom_of_lt (by rw [length_twoChunks]; omega),
      snapshotChunksFrom_nil _ _ (by rw [length_twoChunks, chunkSize]; omega), Nat.zero_add]
  have hperm : [chunkAt (fun _ => "sum") twoChunks chunkSize,
      chunkAt (fun _ => "sum") twoChunks 0].Perm
        (snapshotChunks (fun _ => "sum") (some twoChunks)) := by
    rw [hchunks]
    exact List.Perm.swap ..
  exact ⟨hperm, (snapshot_round_trip (fun _ => "sum") hne).2.2.2.2 _ hperm⟩

-- ---------------------------------------------------------------------------
-- What is left of the database
-- ---------------------------------------------------------------------------

/-- The call gets as far as `db.close()` and it does not throw: there is a leader,
the stream ends with chunks that can be put together and whose checksum is
right or missing, and the temporary file is written. -/
def ReachesClose (sha256 : Buffer → String) (leaderAddress : Option String)
    (stream : Except String (List SnapshotChunk)) (ops : FileOps) : Prop :=
  leaderAddress.getD "" ≠ "" ∧
    (∃ chunks file, stream = .ok chunks ∧ chunks ≠ [] ∧ assemble ops.allocates chunks = some file ∧
      checksumMismatch sha256 chunks file = false) ∧
    ops.writeFails = none ∧ ops.closeFails = false

/-- What a call should leave: the snapshot if it succeeded, else the file there
was, and in both cases a usable handle. -/
def LeavesUsable (stream : Except String (List SnapshotChunk)) (before : SharedMemoryDB)
    (after : SharedMemoryDB × Bool) : Prop :=
  (if after.2 then ∃ chunks, stream = .ok chunks ∧ after.1.file = sent chunks
    else after.1.file = before.file) ∧
  after.1.Usable

section
variable {sha256 : Buffer → String} {leaderAddress : Option String}
  {stream : Except String (List SnapshotChunk)} {ops : FileOps} {db : SharedMemoryDB}

theorem replaceDatabase_unchanged (hopen : db.isOpen) (file : Buffer)
    (hops : ¬(ops.writeFails = none ∧ ops.closeFails = false)) :
    (replaceDatabase ops file db).2 = false ∧ (replaceDatabase ops file db).1.file = db.file ∧
      (replaceDatabase ops file db).1.isOpen := by
  unfold replaceDatabase
  cases hwrite : ops.writeFails with
  | some left => exact ⟨rfl, rfl, hopen⟩
  | none =>
    have hclose : ops.closeFails = true := by simpa [hwrite] using hops
    simp [SharedMemoryDB.close, hopen, hclose]

theorem replaceDatabase_isOpen (file : Buffer) :
    (replaceDatabase ops file db).1.isOpen =
      (db.isOpen && (ops.writeFails.isSome || ops.closeFails)) := by
  unfold replaceDatabase SharedMemoryDB.close
  cases hopen : db.isOpen <;> cases hwrite : ops.writeFails <;> cases hclose : ops.closeFails <;>
    cases hrename : ops.renameFails <;> simp

/-- All a call can come to: it stops at once, or gets as far as its file operations. -/
theorem requestSnapshot_cases :
    (requestSnapshot sha256 leaderAddress stream ops db = (db, false) ∧
      ¬ReachesClose sha256 leaderAddress stream ops) ∨
    ∃ file, requestSnapshot sha256 leaderAddress stream ops db = replaceDatabase ops file db ∧
      (ReachesClose sha256 leaderAddress stream ops ↔
        ops.writeFails = none ∧ ops.closeFails = false) := by
  unfold requestSnapshot
  split
  case isTrue hleader => exact .inl ⟨rfl, fun h => h.1 hleader⟩
  case isFalse hleader =>
    cases stream with
    | error message =>
      refine .inl ⟨rfl, ?_⟩
      rintro ⟨_, ⟨_, _, heq, _⟩, _⟩
      cases heq
    | ok chunks =>
      simp only
      split
      case isTrue hnil =>
        refine .inl ⟨rfl, ?_⟩
        rintro ⟨_, ⟨_, _, heq, hne, _⟩, _⟩
        cases heq
        exact hne hnil
      case isFalse hne =>
        split
        case h_1 hnone =>
          refine .inl ⟨rfl, ?_⟩
          rintro ⟨_, ⟨_, _, heq, _, hfile, _⟩, _⟩
          cases heq
          simp [hnone] at hfile
        case h_2 file hfile =>
          split
          case isTrue hbad =>
            refine .inl ⟨rfl, ?_⟩
            rintro ⟨_, ⟨_, _, heq, _, hfile', hsum⟩, _⟩
            cases heq
            cases hfile.symm.trans hfile'
            simp [hbad] at hsum
          case isFalse hsum =>
            refine .inr ⟨file, rfl, fun h => h.2.2, fun h => ⟨hleader, ?_, h⟩⟩
            exact ⟨chunks, file, rfl, hne, hfile, by simpa using hsum⟩

theorem isOpen_of_requestSnapshot
    (h : (requestSnapshot sha256 leaderAddress stream ops db).1.isOpen) : db.isOpen := by
  obtain ⟨heq, _⟩ | ⟨file, heq, _⟩ :=
    @requestSnapshot_cases sha256 leaderAddress stream ops db
  · rwa [heq] at h
  · rw [heq, replaceDatabase_isOpen] at h
    simp_all

theorem isOpen_of_reachesClose (h : ReachesClose sha256 leaderAddress stream ops) :
    (requestSnapshot sha256 leaderAddress stream ops db).1.isOpen = false := by
  obtain ⟨_, hstops⟩ | ⟨file, heq, hiff⟩ :=
    @requestSnapshot_cases sha256 leaderAddress stream ops db
  · exact absurd h hstops
  · obtain ⟨hwrite, hclose⟩ := hiff.mp h
    simp [heq, replaceDatabase_isOpen, hwrite, hclose]

theorem unchanged_of_not_reachesClose (hopen : db.isOpen)
    (h : ¬ReachesClose sha256 leaderAddress stream ops) :
    (requestSnapshot sha256 leaderAddress stream ops db).2 = false ∧
      (requestSnapshot sha256 leaderAddress stream ops db).1.file = db.file ∧
      (requestSnapshot sha256 leaderAddress stream ops db).1.isOpen := by
  obtain ⟨heq, _⟩ | ⟨file, heq, hiff⟩ :=
    @requestSnapshot_cases sha256 leaderAddress stream ops db
  · exact ⟨by rw [heq], by rw [heq], by rwa [heq]⟩
  · rw [heq]
    exact replaceDatabase_unchanged hopen file fun hops => h (hiff.mpr hops)

end

/-- The call leaves a usable database just where the handle was open and it stops
before it has closed it. -/
theorem usable_iff_stops (sha256 : Buffer → String) (leaderAddress : Option String)
    (stream : Except String (List SnapshotChunk)) (ops : FileOps) (db : SharedMemoryDB) :
    LeavesUsable stream db (requestSnapshot sha256 leaderAddress stream ops db) ↔
      db.isOpen ∧ ¬ReachesClose sha256 leaderAddress stream ops := by
  constructor
  · intro ⟨_, husable⟩
    rw [SharedMemoryDB.usable_iff] at husable
    refine ⟨isOpen_of_requestSnapshot husable, fun hreach => ?_⟩
    simp [isOpen_of_reachesClose hreach] at husable
  · intro ⟨hopen, hstops⟩
    obtain ⟨hfalse, hfile, hstill⟩ := unchanged_of_not_reachesClose hopen hstops
    exact ⟨by simp [hfalse, hfile], SharedMemoryDB.usable_iff.mpr hstill⟩

theorem requestSnapshot_of_leader (sha256 : Buffer → String) {leaderAddress : Option String}
    (hleader : leaderAddress.getD "" ≠ "") {file : Buffer} (hne : file ≠ []) (db : SharedMemoryDB) :
    requestSnapshot sha256 leaderAddress (.ok (snapshotChunks sha256 (some file))) {} db =
      ({ file := file, snapshot := none, isOpen := false }, true) := by
  have hchunks : snapshotChunks sha256 (some file) ≠ [] := by
    intro hnil
    have hsent : sent (snapshotChunks sha256 (some file)) = file := sent_snapshotChunks sha256
    rw [hnil] at hsent
    exact hne hsent.symm
  have hfile := assemble_snapshotChunks sha256 hne
  have hsum := not_checksumMismatch_snapshotChunks sha256 hne
  simp [requestSnapshot, hleader, hchunks, hfile, hsum, replaceDatabase, SharedMemoryDB.close]

/-- With a closed handle no committed entry is applied any more. -/
theorem deaf_of_closed {db : SharedMemoryDB} (h : db.isOpen = false) (P : Platform) (S : Sqlite)
    (entries : List (Ambient × LogEntry)) (d : Database) :
    entries.foldl (fun d e => handleCommittedEntry P (db.sqlite S) e.1 e.2 d) d = d := by
  induction entries with
  | nil => rfl
  | cons e rest ih =>
    have hone : handleCommittedEntry P (db.sqlite S) e.1 e.2 d = d := by
      unfold handleCommittedEntry
      split
      case h_1 => simp [runStatement, SharedMemoryDB.sqlite, SharedMemoryDB.prepare, h]
      case h_2 => rfl
    rw [List.foldl_cons, hone, ih]

theorem snapshot_closes_handle :
    ¬LeavesUsable (.ok (snapshotChunks (fun _ => "sum") (some [1, 2]))) { file := [7] }
      (requestSnapshot (fun _ => "sum") (some "10.0.0.2:50051")
        (.ok (snapshotChunks (fun _ => "sum") (some [1, 2]))) {} { file := [7] }) := by
  intro ⟨_, husable⟩
  rw [SharedMemoryDB.usable_iff, requestSnapshot_of_leader _ (by decide) (by decide)] at husable
  cases husable

end ClaudeCluster.Memory
