import Mathlib.Algebra.Order.Ring.Nat
import Mathlib.Data.List.SplitLengths

/-!
# The output of a container

Docker sends both output streams of a container over one connection, as
frames. `demux` takes them apart again, one 'data' event at a time, and keeps
nothing from one event to the next: it reads a stream right, whatever is in
it, just if every event holds whole frames (`collects_iff_onBoundaries`).
-/

namespace ClaudeCluster.Agent

abbrev Bytes := List UInt8

-- ---------------------------------------------------------------------------
-- The wire format
-- ---------------------------------------------------------------------------

/-- One frame. The three bytes after the stream type are reserved. -/
structure Frame where
  streamType : UInt8
  reserved : UInt8 × UInt8 × UInt8
  payload : Bytes
  small : payload.length < 2 ^ 32

def uint32BE (n : Nat) : Bytes :=
  [.ofNat (n / 2 ^ 24), .ofNat (n / 2 ^ 16), .ofNat (n / 2 ^ 8), .ofNat n]

def Frame.wire (f : Frame) : Bytes :=
  f.streamType :: f.reserved.1 :: f.reserved.2.1 :: f.reserved.2.2 ::
    (uint32BE f.payload.length ++ f.payload)

def wire (frames : List Frame) : Bytes := frames.flatMap Frame.wire

def payloads (streamType : UInt8) (frames : List Frame) : Bytes :=
  (frames.filter (·.streamType = streamType)).flatMap Frame.payload

-- ---------------------------------------------------------------------------
-- The handler of 'data' events
-- ---------------------------------------------------------------------------

inductive OutputType where
  | stdout | stderr
deriving DecidableEq, Repr

structure Collected where
  stdout : List Bytes
  stderr : List Bytes
  emitted : List (OutputType × Bytes)
deriving DecidableEq, Repr

def Collected.empty : Collected := ⟨[], [], []⟩

def Collected.push (c : Collected) (streamType : UInt8) (payload : Bytes) : Collected :=
  if streamType = 1 then
    { c with stdout := c.stdout ++ [payload], emitted := c.emitted ++ [(.stdout, payload)] }
  else if streamType = 2 then
    { c with stderr := c.stderr ++ [payload], emitted := c.emitted ++ [(.stderr, payload)] }
  else c

inductive RangeError where
  | outOfRange
deriving DecidableEq, Repr

/-- Throws where fewer than four bytes are left. -/
def readUInt32BE (data : Bytes) (offset : Nat) : Except RangeError Nat :=
  match data.drop offset with
  | a :: b :: c :: d :: _ =>
    .ok (a.toNat * 2 ^ 24 + b.toNat * 2 ^ 16 + c.toNat * 2 ^ 8 + d.toNat)
  | _ => .error .outOfRange

/-- The loop over one event, and what it throws. `data` is what the event holds
from `offset` on; what was pushed before an exception stays. -/
def demux (c : Collected) (data : Bytes) : Collected × Option RangeError :=
  match data with
  | [] => (c, none)
  | streamType :: rest =>
    match readUInt32BE (streamType :: rest) 4 with
    | .error e => (c, some e)
    | .ok size =>
      let payload := ((streamType :: rest).drop 8).take size
      demux (c.push streamType payload) ((streamType :: rest).drop (8 + size))
termination_by data.length

def onData (c : Collected) : List Bytes → Collected × Option RangeError
  | [] => (c, none)
  | data :: events =>
    match demux c data with
    | (c, some e) => (c, some e)
    | (c, none) => onData c events

def Collects (frames : List Frame) (events : List Bytes) : Prop :=
  ∃ c, onData .empty events = (c, none) ∧
    c.stdout.flatten = payloads 1 frames ∧ c.stderr.flatten = payloads 2 frames

def wireLength (sizes : List Nat) : Nat := (sizes.map (8 + ·)).sum

/-- Every event is made of whole frames: the lengths of the events are those of
groups of frames that follow one another. -/
def OnBoundaries (sizes cuts : List Nat) : Prop :=
  ∃ groups : List (List Nat), groups.flatten = sizes ∧ groups.map wireLength = cuts

-- ---------------------------------------------------------------------------
-- One frame
-- ---------------------------------------------------------------------------

section

variable {c : Collected} {f : Frame} {frames : List Frame} {data : Bytes}

@[simp] theorem length_uint32BE (n : Nat) : (uint32BE n).length = 4 := rfl

@[simp] theorem Frame.length_wire (f : Frame) : f.wire.length = 8 + f.payload.length := by
  simp only [Frame.wire, List.length_cons, List.length_append, length_uint32BE]
  omega

@[simp] theorem wire_nil : wire [] = [] := rfl

@[simp] theorem wire_cons : wire (f :: frames) = f.wire ++ wire frames := rfl

@[simp] theorem wire_append (frames rest : List Frame) :
    wire (frames ++ rest) = wire frames ++ wire rest := List.flatMap_append

@[simp] theorem wireLength_cons (n : Nat) (sizes : List Nat) :
    wireLength (n :: sizes) = 8 + n + wireLength sizes := by
  simp [wireLength]

@[simp] theorem wireLength_append (sizes rest : List Nat) :
    wireLength (sizes ++ rest) = wireLength sizes + wireLength rest := by
  simp [wireLength]

theorem length_wire (frames : List Frame) :
    (wire frames).length = wireLength (frames.map (·.payload.length)) := by
  induction frames with
  | nil => rfl
  | cons f frames ih => simp [ih]

theorem demux_nil : demux c [] = (c, none) := by
  rw [demux]

theorem readUInt32BE_uint32BE {n : Nat} (h : n < 2 ^ 32) (a b c d : UInt8) (rest : Bytes) :
    readUInt32BE (a :: b :: c :: d :: (uint32BE n ++ rest)) 4 = .ok n := by
  have hsum : n / 2 ^ 24 % 2 ^ 8 * 2 ^ 24 + n / 2 ^ 16 % 2 ^ 8 * 2 ^ 16 + n / 2 ^ 8 % 2 ^ 8 * 2 ^ 8 +
      n % 2 ^ 8 = n := by omega
  simp only [readUInt32BE, uint32BE, List.drop_succ_cons, List.drop_zero, List.cons_append,
    List.nil_append, UInt8.toNat_ofNat', hsum]

theorem demux_short (hne : data ≠ []) (h : data.length < 8) :
    demux c data = (c, some .outOfRange) := by
  cases data with
  | nil => exact absurd rfl hne
  | cons t rest =>
    have hread : readUInt32BE (t :: rest) 4 = .error .outOfRange := by
      match rest, h with
      | [], _ | [_], _ | [_, _], _ | [_, _, _], _ | [_, _, _, _], _ | [_, _, _, _, _], _
      | [_, _, _, _, _, _], _ => rfl
    rw [demux, hread]

theorem demux_header (hlen : data.length ≤ f.payload.length) :
    demux c ((f.wire.take 8) ++ data) = (c.push f.streamType data, none) := by
  have hread := readUInt32BE_uint32BE f.small f.streamType f.reserved.1 f.reserved.2.1
    f.reserved.2.2 data
  have htake : f.wire.take 8 = f.streamType :: f.reserved.1 :: f.reserved.2.1 :: f.reserved.2.2 ::
      uint32BE f.payload.length := rfl
  rw [htake]
  simp only [List.cons_append]
  rw [demux, hread]
  have hdrop : (f.streamType :: f.reserved.1 :: f.reserved.2.1 :: f.reserved.2.2 ::
      (uint32BE f.payload.length ++ data)).drop 8 = data := rfl
  have hrest : (f.streamType :: f.reserved.1 :: f.reserved.2.1 :: f.reserved.2.2 ::
      (uint32BE f.payload.length ++ data)).drop (8 + f.payload.length) = [] := by
    rw [← List.drop_drop, hdrop, List.drop_eq_nil_of_le hlen]
  simp only [hdrop, hrest, List.take_of_length_le hlen, demux_nil]

theorem demux_frame : demux c (f.wire ++ data) = demux (c.push f.streamType f.payload) data := by
  have hread := readUInt32BE_uint32BE f.small f.streamType f.reserved.1 f.reserved.2.1
    f.reserved.2.2 (f.payload ++ data)
  simp only [Frame.wire, List.cons_append, List.append_assoc]
  rw [demux, hread]
  have hdrop : (f.streamType :: f.reserved.1 :: f.reserved.2.1 :: f.reserved.2.2 ::
      (uint32BE f.payload.length ++ (f.payload ++ data))).drop 8 = f.payload ++ data := rfl
  simp only [← List.drop_drop, hdrop, List.take_left, List.drop_left]

def pushAll (c : Collected) (frames : List Frame) : Collected :=
  frames.foldl (fun c f => c.push f.streamType f.payload) c

theorem demux_frames : demux c (wire frames ++ data) = demux (pushAll c frames) data := by
  induction frames generalizing c with
  | nil => rfl
  | cons f frames ih => rw [wire_cons, List.append_assoc, demux_frame, ih]; rfl

theorem push_stdout (t : UInt8) (p : Bytes) :
    (c.push t p).stdout.flatten = c.stdout.flatten ++ if t = 1 then p else [] := by
  unfold Collected.push
  split
  case isTrue => simp
  case isFalse => split <;> simp

theorem push_stderr (t : UInt8) (p : Bytes) :
    (c.push t p).stderr.flatten = c.stderr.flatten ++ if t = 2 then p else [] := by
  unfold Collected.push
  split
  case isTrue h => simp [h]
  case isFalse => split <;> simp

theorem payloads_cons (t : UInt8) :
    payloads t (f :: frames) = (if f.streamType = t then f.payload else []) ++ payloads t frames := by
  unfold payloads
  by_cases h : f.streamType = t <;> simp [h]

theorem pushAll_stdout : (pushAll c frames).stdout.flatten = c.stdout.flatten ++ payloads 1 frames := by
  induction frames generalizing c with
  | nil => simp [pushAll, payloads]
  | cons f frames ih =>
    have h := ih (c := c.push f.streamType f.payload)
    rw [push_stdout, List.append_assoc] at h
    rw [payloads_cons]
    exact h

theorem pushAll_stderr : (pushAll c frames).stderr.flatten = c.stderr.flatten ++ payloads 2 frames := by
  induction frames generalizing c with
  | nil => simp [pushAll, payloads]
  | cons f frames ih =>
    have h := ih (c := c.push f.streamType f.payload)
    rw [push_stderr, List.append_assoc] at h
    rw [payloads_cons]
    exact h

end

-- ---------------------------------------------------------------------------
-- Events of whole frames
-- ---------------------------------------------------------------------------

def CollectsFrom (c : Collected) (frames : List Frame) (events : List Bytes) : Prop :=
  ∃ c', onData c events = (c', none) ∧ c'.stdout.flatten = c.stdout.flatten ++ payloads 1 frames ∧
    c'.stderr.flatten = c.stderr.flatten ++ payloads 2 frames

theorem collectsFrom_empty {frames : List Frame} {events : List Bytes} :
    CollectsFrom .empty frames events ↔ Collects frames events := by
  simp [CollectsFrom, Collects, Collected.empty]

theorem payloads_append (t : UInt8) (frames rest : List Frame) :
    payloads t (frames ++ rest) = payloads t frames ++ payloads t rest := by
  simp [payloads]

theorem collectsFrom_append {c : Collected} {group rest : List Frame} {data : Bytes}
    {events : List Bytes} :
    CollectsFrom c (group ++ rest) ((wire group ++ data) :: events) ↔
      CollectsFrom (pushAll c group) rest (data :: events) := by
  simp only [CollectsFrom, onData, demux_frames, pushAll_stdout, pushAll_stderr, payloads_append,
    List.append_assoc]

theorem collectsFrom_wire {c : Collected} {group rest : List Frame} {events : List Bytes} :
    CollectsFrom c (group ++ rest) (wire group :: events) ↔
      CollectsFrom (pushAll c group) rest events := by
  have h : CollectsFrom c (group ++ rest) ((wire group ++ []) :: events) ↔
      CollectsFrom (pushAll c group) rest ([] :: events) := collectsFrom_append
  have hempty : onData (pushAll c group) ([] :: events) = onData (pushAll c group) events := by
    rw [onData, demux_nil]
  rw [List.append_nil] at h
  rw [h, CollectsFrom, hempty, CollectsFrom]

theorem map_length_eq_append {frames : List Frame} {sizes rest : List Nat}
    (h : frames.map (·.payload.length) = sizes ++ rest) :
    ∃ group others, frames = group ++ others ∧ group.map (·.payload.length) = sizes ∧
      others.map (·.payload.length) = rest :=
  List.map_eq_append_iff.mp h

theorem collectsFrom_of_boundaries {groups : List (List Nat)} :
    ∀ {c : Collected} {frames : List Frame}, frames.map (·.payload.length) = groups.flatten →
      CollectsFrom c frames ((groups.map wireLength).splitLengths (wire frames)) := by
  induction groups with
  | nil =>
    intro c frames h
    have hnil : frames = [] := by simpa using h
    subst hnil
    exact ⟨c, rfl, by simp [payloads], by simp [payloads]⟩
  | cons sizes groups ih =>
    intro c frames h
    rw [List.flatten_cons] at h
    obtain ⟨group, others, rfl, hgroup, hothers⟩ := map_length_eq_append h
    have hlen : wireLength sizes = (wire group).length := by rw [length_wire, hgroup]
    rw [List.map_cons, List.splitLengths_cons, wire_append, hlen, List.take_left, List.drop_left]
    exact collectsFrom_wire.mpr (ih hothers)

-- ---------------------------------------------------------------------------
-- Events that cut a frame
-- ---------------------------------------------------------------------------

def stdinFrame (n : Nat) (h : n < 2 ^ 32) : Frame where
  streamType := 0
  reserved := (0, 0, 0)
  payload := .replicate n 0
  small := by simpa using h

/-- A frame of stdout whose payload is zeros but for the byte `x` in front of the
last `m`. -/
def stdoutFrame (k : Nat) (x : UInt8) (m : Nat) (h : k + (m + 1) < 2 ^ 32) : Frame where
  streamType := 1
  reserved := (0, 0, 0)
  payload := .replicate k 0 ++ x :: .replicate m 0
  small := by simpa using h

theorem exists_stdinFrames {sizes : List Nat} (h : ∀ n ∈ sizes, n < 2 ^ 32) :
    ∃ frames : List Frame, frames.map (·.payload.length) = sizes ∧ ∀ c, pushAll c frames = c := by
  induction sizes with
  | nil => exact ⟨[], rfl, fun _ => rfl⟩
  | cons n sizes ih =>
    obtain ⟨hn, hsizes⟩ := List.forall_mem_cons.mp h
    obtain ⟨frames, hlen, hpush⟩ := ih hsizes
    exact ⟨stdinFrame n hn :: frames, by simp [stdinFrame, hlen], fun c => hpush c⟩

theorem cut_cases {m : Nat} {sizes : List Nat} (h : m ≤ wireLength sizes) :
    (∃ group rest, sizes = group ++ rest ∧ m = wireLength group) ∨
    ∃ group n rest k, sizes = group ++ n :: rest ∧ m = wireLength group + k ∧ 0 < k ∧ k < 8 + n := by
  induction sizes generalizing m with
  | nil => exact .inl ⟨[], [], rfl, by simpa [wireLength] using h⟩
  | cons n sizes ih =>
    rw [wireLength_cons] at h
    by_cases hm : m < 8 + n
    case pos =>
      cases m with
      | zero => exact .inl ⟨[], n :: sizes, rfl, rfl⟩
      | succ k => exact .inr ⟨[], n, sizes, k + 1, rfl, by simp [wireLength], by omega, hm⟩
    case neg =>
      obtain ⟨group, rest, rfl, heq⟩ | ⟨group, n', rest, k, rfl, heq, hk⟩ :=
        ih (m := m - (8 + n)) (by omega)
      · exact .inl ⟨n :: group, rest, rfl, by rw [wireLength_cons]; omega⟩
      · exact .inr ⟨n :: group, n', rest, k, rfl, by rw [wireLength_cons]; omega, hk⟩

theorem not_collectsFrom_header {c : Collected} {frames : List Frame} {f : Frame} {k : Nat}
    {events : List Bytes} (hk : 0 < k) (hk' : k < 8) :
    ¬ CollectsFrom c frames (f.wire.take k :: events) := by
  rintro ⟨c', hrun, -⟩
  have hne : f.wire.take k ≠ [] := by simp [Frame.wire]; omega
  have hshort : (f.wire.take k).length < 8 := by simp; omega
  rw [onData, demux_short hne hshort] at hrun
  cases hrun

theorem onData_head {x y : UInt8} (hx : x ≠ 1 ∧ x ≠ 2) (hy : y ≠ 1 ∧ y ≠ 2) (data : Bytes) :
    ∀ (cuts : List Nat) (c : Collected),
      onData c (cuts.splitLengths (x :: data)) = onData c (cuts.splitLengths (y :: data)) := by
  intro cuts
  induction cuts with
  | nil => intro c; rfl
  | cons m cuts ih =>
    intro c
    cases m with
    | zero => simpa [onData, demux_nil] using ih c
    | succ m =>
      have hread : readUInt32BE (x :: data.take m) 4 = readUInt32BE (y :: data.take m) 4 := rfl
      have hpush (p : Bytes) : c.push x p = c.push y p := by
        simp [Collected.push, hx.1, hx.2, hy.1, hy.2]
      have hdemux : demux c (x :: data.take m) = demux c (y :: data.take m) := by
        rw [demux, demux, hread]
        cases readUInt32BE (y :: data.take m) 4 with
        | error e => rfl
        | ok size => simp only [hpush, Nat.add_comm 8 size, List.drop_succ_cons]
      simp only [List.splitLengths_cons, List.take_succ_cons, List.drop_succ_cons, onData, hdemux]

/-- An event that ends inside a payload of stdout leaves its next byte to be read
as a stream type: two payloads are read as one. -/
theorem collectsFrom_payload {c : Collected} {k m : Nat} (h : k + (m + 1) < 2 ^ 32)
    {rest : List Frame} {cuts : List Nat} :
    ¬ ∀ x, CollectsFrom c (stdoutFrame k x m h :: rest)
      (((8 + k) :: cuts).splitLengths (wire (stdoutFrame k x m h :: rest))) := by
  intro hall
  have hevents (x : UInt8) : ((8 + k) :: cuts).splitLengths (wire (stdoutFrame k x m h :: rest)) =
      ((stdoutFrame k x m h).wire.take 8 ++ .replicate k 0) ::
        cuts.splitLengths (x :: (.replicate m 0 ++ wire rest)) := by
    have hwire : wire (stdoutFrame k x m h :: rest) =
        ((stdoutFrame k x m h).wire.take 8 ++ .replicate k 0) ++
          x :: (.replicate m 0 ++ wire rest) := by
      have hsplit : (stdoutFrame k x m h).wire =
          (stdoutFrame k x m h).wire.take 8 ++ (stdoutFrame k x m h).payload := rfl
      rw [wire_cons, hsplit]
      simp [stdoutFrame, List.append_assoc]
    have hlen : 8 + k = ((stdoutFrame k x m h).wire.take 8 ++ .replicate k 0).length := by simp
    rw [hwire, List.splitLengths_cons, hlen, List.take_left, List.drop_left]
  have hfirst (x : UInt8) : demux c ((stdoutFrame k x m h).wire.take 8 ++ .replicate k 0) =
      (c.push 1 (.replicate k 0), none) :=
    demux_header (f := stdoutFrame k x m h) (by simp [stdoutFrame])
  obtain ⟨c₀, hrun₀, hout₀, -⟩ := hall 0
  obtain ⟨c₃, hrun₃, hout₃, -⟩ := hall 3
  simp only [hevents, onData, hfirst] at hrun₀ hrun₃
  rw [onData_head (by decide) (y := 3) (by decide)] at hrun₀
  have hsame : c₀ = c₃ := by
    rw [hrun₃] at hrun₀
    exact (Prod.mk.inj hrun₀).1.symm
  rw [hsame, hout₃] at hout₀
  have hbyte := List.append_cancel_left hout₀
  simp [payloads, stdoutFrame] at hbyte

theorem onBoundaries_cons {sizes rest cuts : List Nat} (h : OnBoundaries rest cuts) :
    OnBoundaries (sizes ++ rest) (wireLength sizes :: cuts) := by
  obtain ⟨groups, rfl, rfl⟩ := h
  exact ⟨sizes :: groups, rfl, rfl⟩

/-- Not all frames are collected where one is cut. -/
theorem not_collectsFrom_cut {c : Collected} {group rest cuts : List Nat} {n k : Nat}
    (hsizes : ∀ m ∈ group ++ n :: rest, m < 2 ^ 32) (hk : 0 < k) (hk' : k < 8 + n) :
    ¬ ∀ frames : List Frame, frames.map (·.payload.length) = group ++ n :: rest →
      CollectsFrom c frames (((wireLength group + k) :: cuts).splitLengths (wire frames)) := by
  intro hall
  obtain ⟨hgroup, hn, hrest⟩ :
      (∀ m ∈ group, m < 2 ^ 32) ∧ n < 2 ^ 32 ∧ ∀ m ∈ rest, m < 2 ^ 32 := by
    simpa [or_imp, forall_and] using hsizes
  obtain ⟨zeros, hlen, hpush⟩ := exists_stdinFrames hgroup
  obtain ⟨others, hothers, -⟩ := exists_stdinFrames hrest
  have hzeros : wireLength group = (wire zeros).length := by rw [length_wire, hlen]
  -- the frames before the one that is cut go nowhere
  have hcut (f : Frame) (hf : f.payload.length = n) :
      CollectsFrom c (f :: others) ((k :: cuts).splitLengths (wire (f :: others))) := by
    have h := hall (zeros ++ f :: others) (by simp [hlen, hothers, hf])
    rw [wire_append, List.splitLengths_cons, hzeros, List.take_length_add_append,
      List.drop_length_add_append, collectsFrom_append, hpush] at h
    rw [List.splitLengths_cons]
    exact h
  by_cases hheader : k < 8
  case pos =>
    have h := hcut (stdinFrame n hn) (by simp [stdinFrame])
    rw [List.splitLengths_cons, wire_cons, List.take_append_of_le_length (by simp; omega)] at h
    exact not_collectsFrom_header hk hheader h
  case neg =>
    obtain ⟨j, l, rfl, rfl⟩ : ∃ j l, k = 8 + j ∧ n = j + (l + 1) :=
      ⟨k - 8, n - (k - 8) - 1, by omega, by omega⟩
    exact collectsFrom_payload hn fun x => hcut (stdoutFrame j x l hn) (by simp [stdoutFrame])

theorem onBoundaries_of_collectsFrom {cuts : List Nat} :
    ∀ {sizes : List Nat} {c : Collected}, (∀ n ∈ sizes, n < 2 ^ 32) → cuts.sum = wireLength sizes →
      (∀ frames : List Frame, frames.map (·.payload.length) = sizes →
        CollectsFrom c frames (cuts.splitLengths (wire frames))) →
      OnBoundaries sizes cuts := by
  induction cuts with
  | nil =>
    intro sizes c _ hsum _
    cases sizes with
    | nil => exact ⟨[], rfl, rfl⟩
    | cons n sizes =>
      rw [wireLength_cons, List.sum_nil] at hsum
      omega
  | cons m cuts ih =>
    intro sizes c hsizes hsum hall
    have hm : m ≤ wireLength sizes := by rw [← hsum, List.sum_cons]; omega
    obtain ⟨group, rest, rfl, rfl⟩ | ⟨group, n, rest, k, rfl, rfl, hk, hk'⟩ := cut_cases hm
    case inl =>
      obtain ⟨hgroup, hrest⟩ := List.forall_mem_append.mp hsizes
      obtain ⟨zeros, hlen, hpush⟩ := exists_stdinFrames hgroup
      have hsum' : cuts.sum = wireLength rest := by
        rw [List.sum_cons, wireLength_append] at hsum
        omega
      refine onBoundaries_cons (ih (c := c) hrest hsum' fun frames hframes => ?_)
      have h := hall (zeros ++ frames) (by simp [hlen, hframes])
      have hzeros : wireLength group = (wire zeros).length := by rw [length_wire, hlen]
      rw [wire_append, List.splitLengths_cons, hzeros, List.take_left, List.drop_left,
        collectsFrom_wire, hpush] at h
      exact h
    case inr => exact absurd hall (not_collectsFrom_cut hsizes hk hk')

/-- However the payloads read, they are collected as sent just if the stream is
cut between frames only. -/
theorem collects_iff_onBoundaries {sizes cuts : List Nat} (hsizes : ∀ n ∈ sizes, n < 2 ^ 32)
    (hcuts : cuts.sum = wireLength sizes) :
    (∀ frames : List Frame, frames.map (·.payload.length) = sizes →
      Collects frames (cuts.splitLengths (wire frames))) ↔ OnBoundaries sizes cuts := by
  constructor
  · intro h
    refine onBoundaries_of_collectsFrom (c := .empty) hsizes hcuts fun frames hframes => ?_
    exact collectsFrom_empty.mpr (h frames hframes)
  · rintro ⟨groups, rfl, rfl⟩ frames hframes
    exact collectsFrom_empty.mp (collectsFrom_of_boundaries hframes)

theorem collects_iff_two_frames :
    (∀ frames : List Frame, frames.map (·.payload.length) = [1, 2] →
      Collects frames ([9, 10].splitLengths (wire frames))) ↔ OnBoundaries [1, 2] [9, 10] :=
  collects_iff_onBoundaries (by decide) rfl

def hi : Frame := ⟨1, (0, 0, 0), [0x68, 0x69], by decide⟩

theorem hi_cut_in_header :
    ([[1, 0, 0, 0], [0, 0, 0, 2, 0x68, 0x69]] : List Bytes).flatten = wire [hi] ∧
      ¬ Collects [hi] [[1, 0, 0, 0], [0, 0, 0, 2, 0x68, 0x69]] := by
  refine ⟨by decide, ?_⟩
  rw [← collectsFrom_empty]
  exact not_collectsFrom_header (f := hi) (k := 4) (by decide) (by decide)

end ClaudeCluster.Agent
