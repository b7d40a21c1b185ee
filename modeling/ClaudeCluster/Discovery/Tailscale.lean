import ClaudeCluster.Lib.Deliveries
import ClaudeCluster.Lib.Table
import ClaudeCluster.Lib.Utf16

/-!
# Discovery through Tailscale

`TailscaleDiscovery` of `discovery/tailscale.ts`. A poll parses what
`tailscale status --json` prints, brings the map of known nodes up to it, and
says what changed.

The events and the map never part: replayed, the events give the known nodes
that are online, whatever was polled (`Replayed.poll`). The map follows the
status only where the online flag of a node changes or its id disappears, so it
is the cluster's part of the latest status all along just if every poll meets
`KeepsMirror` (`mirrors_throughout`).
-/

namespace ClaudeCluster.Discovery

open Lib
open Lib.Utf16 (ofText)

-- ---------------------------------------------------------------------------
-- The status
-- ---------------------------------------------------------------------------

/-- A time in milliseconds, or none in an invalid `Date`. -/
abbrev Date := Option Int

structure Intl where
  toLowerCase : JsString → JsString
  /-- `new Date(text)` -/
  parseDate : JsString → Date

structure TailscaleNode where
  id : JsString
  hostname : JsString
  ip : JsString
  online : Bool
  os : JsString
  tags : List JsString
  lastSeen : Date
  self : Bool
  deriving DecidableEq, Repr

structure TailscaleStatus where
  selfIP : JsString
  selfHostname : JsString
  tailnetName : JsString
  magicDNSSuffix : JsString
  nodes : List TailscaleNode
  deriving DecidableEq, Repr

/-- A node as Tailscale prints it. What is `null` is missing. -/
structure NodeData where
  ID : Option JsString := none
  HostName : Option JsString := none
  TailscaleIPs : Option (List JsString) := none
  Online : Option Bool := none
  OS : Option JsString := none
  Tags : Option (List JsString) := none
  LastSeen : Option JsString := none
  deriving DecidableEq, Repr

structure StatusData where
  Self : Option NodeData := none
  Peer : Option (List NodeData) := none
  CurrentTailnet : Option (Option JsString) := none
  MagicDNSSuffix : Option JsString := none
  deriving DecidableEq, Repr

def parseNode (intl : Intl) (now : Int) (data : NodeData) (self : Bool) : TailscaleNode where
  id := data.ID.getD []
  hostname := data.HostName.getD []
  ip := ((data.TailscaleIPs.bind List.head?).getD [])
  online := data.Online.getD false
  os := data.OS.getD []
  tags := (data.Tags.getD []).map intl.toLowerCase
  lastSeen :=
    let text := data.LastSeen.getD []
    if text = [] then some now else intl.parseDate text
  self := self

def fetchStatus (intl : Intl) (clock : Nat → Int) (data : StatusData) : TailscaleStatus where
  selfIP := ((data.Self.bind NodeData.TailscaleIPs).bind List.head?).getD []
  selfHostname := (data.Self.bind NodeData.HostName).getD []
  tailnetName := data.CurrentTailnet.join.getD []
  magicDNSSuffix := data.MagicDNSSuffix.getD []
  nodes := ((data.Self.toList.map (·, true)) ++ ((data.Peer.getD []).map (·, false))).mapIdx
    fun i (node, self) => parseNode intl (clock i) node self

def TailscaleStatus.clusterNodes (clusterTag : JsString) (status : TailscaleStatus) :
    List TailscaleNode :=
  status.nodes.filter fun n => n.tags.contains (ofText "tag:" ++ clusterTag) && !n.self

-- ---------------------------------------------------------------------------
-- The poll
-- ---------------------------------------------------------------------------

inductive Event
  | nodeDiscovered (node : TailscaleNode)
  | nodeOnline (node : TailscaleNode)
  | nodeOffline (node : TailscaleNode)
  | nodeRemoved (node : TailscaleNode)
  | error (message : JsString)
  deriving DecidableEq, Repr

structure TailscaleDiscovery where
  clusterTag : JsString := ofText "cortex"
  lastStatus : Option TailscaleStatus := none
  knownNodes : Table TailscaleNode.id := .empty
  /-- What has been emitted, from the start. -/
  emitted : List Event := []

namespace TailscaleDiscovery

def emit (d : TailscaleDiscovery) (event : Event) : TailscaleDiscovery :=
  { d with emitted := d.emitted ++ [event] }

def set (d : TailscaleDiscovery) (node : TailscaleNode) : TailscaleDiscovery :=
  { d with knownNodes := d.knownNodes.put node }

def getClusterNodes (d : TailscaleDiscovery) : List TailscaleNode :=
  match d.lastStatus with
  | none => []
  | some status =>
    status.nodes.filter fun n =>
      n.tags.contains (ofText "tag:" ++ d.clusterTag) && n.online && !n.self

def update (d : TailscaleDiscovery) (node : TailscaleNode) : TailscaleDiscovery :=
  match d.knownNodes.find? node.id with
  | none =>
    let d := d.set node
    if node.online then d.emit (.nodeDiscovered node) else d
  | some existing =>
    if !existing.online && node.online then (d.set node).emit (.nodeOnline node)
    else if existing.online && !node.online then (d.set node).emit (.nodeOffline node)
    else d

def dropRemoved (currentNodeIds : List JsString) (d : TailscaleDiscovery) (node : TailscaleNode) :
    TailscaleDiscovery :=
  if currentNodeIds.contains node.id then d
  else { d with knownNodes := d.knownNodes.delete node.id }.emit (.nodeRemoved node)

def takeStatus (d : TailscaleDiscovery) (status : TailscaleStatus) : TailscaleDiscovery :=
  let d := (status.clusterNodes d.clusterTag).foldl update { d with lastStatus := some status }
  d.knownNodes.rows.foldl (dropRemoved (status.nodes.map TailscaleNode.id)) d

/-- The status fetched, or the message of the error where the command or the parsing of
its output fails, with the readings of the clock meanwhile. -/
structure Poll where
  clock : Nat → Int
  fetched : Except JsString StatusData

def poll (intl : Intl) (d : TailscaleDiscovery) (p : Poll) : TailscaleDiscovery :=
  match p.fetched with
  | .error message => d.emit (.error message)
  | .ok data => d.takeStatus (fetchStatus intl p.clock data)

-- ---------------------------------------------------------------------------
-- The mirror
-- ---------------------------------------------------------------------------

def replayEvent (online : Table TailscaleNode.id) : Event → Table TailscaleNode.id
  | .nodeDiscovered node => online.put node
  | .nodeOnline node => online.put node
  | .nodeOffline node => online.delete node.id
  | .nodeRemoved node => online.delete node.id
  | .error _ => online

def replay (events : List Event) : Table TailscaleNode.id := events.foldl replayEvent .empty

/-- The known nodes are the cluster's in the status, and the events replayed are those
among them that are online. -/
structure Mirrors (d : TailscaleDiscovery) (status : TailscaleStatus) : Prop where
  known : ∀ node, node ∈ d.knownNodes.rows ↔ node ∈ status.clusterNodes d.clusterTag
  online : ∀ node, node ∈ (replay d.emitted).rows ↔
    node ∈ status.clusterNodes d.clusterTag ∧ node.online

def UpToDate (d : TailscaleDiscovery) : Prop :=
  ∀ status, d.lastStatus = some status → d.Mirrors status

/-- The condition on a status under which it is mirrored once it has been taken: no two
nodes of the cluster share an id, whoever is known under an id of the status is
there a node of the cluster, and one that is online as before is there as it was. -/
structure CanFollow (d : TailscaleDiscovery) (status : TailscaleStatus) : Prop where
  distinct : ∀ a ∈ status.clusterNodes d.clusterTag, ∀ b ∈ status.clusterNodes d.clusterTag,
    a.id = b.id → a = b
  tagged : ∀ known ∈ d.knownNodes.rows, known.id ∈ status.nodes.map TailscaleNode.id →
    known.id ∈ (status.clusterNodes d.clusterTag).map TailscaleNode.id
  same : ∀ known ∈ d.knownNodes.rows, ∀ node ∈ status.clusterNodes d.clusterTag,
    node.id = known.id → node.online = known.online → node = known

def KeepsMirror (intl : Intl) (d : TailscaleDiscovery) (p : Poll) : Prop :=
  ∀ data, p.fetched = .ok data → d.CanFollow (fetchStatus intl p.clock data)

-- ---------------------------------------------------------------------------
-- The events and the map
-- ---------------------------------------------------------------------------

def Replayed (d : TailscaleDiscovery) : Prop :=
  ∀ id, (replay d.emitted).find? id = (d.knownNodes.find? id).filter TailscaleNode.online

section
variable {d : TailscaleDiscovery} {node : TailscaleNode} {id : JsString} {event : Event}

theorem replay_emit (d : TailscaleDiscovery) (event : Event) :
    replay (d.emit event).emitted = replayEvent (replay d.emitted) event := by
  simp [replay, emit, List.foldl_append]

theorem update_cases (d : TailscaleDiscovery) (node : TailscaleNode) :
    (d.knownNodes.find? node.id = none ∧ node.online = false ∧ d.update node = d.set node) ∨
    ((∀ existing, d.knownNodes.find? node.id = some existing → existing.online ≠ node.online) ∧
      ∃ event, d.update node = (d.set node).emit event ∧
        if node.online then ∀ t, replayEvent t event = t.put node
        else ∀ t, replayEvent t event = t.delete node.id) ∨
    ∃ existing, d.knownNodes.find? node.id = some existing ∧ existing.online = node.online ∧
      d.update node = d := by
  unfold update
  cases hfind : d.knownNodes.find? node.id with
  | none =>
    cases hon : node.online with
    | false => exact .inl ⟨rfl, rfl, by simp⟩
    | true => exact .inr (.inl ⟨nofun, .nodeDiscovered node, rfl, fun _ => rfl⟩)
  | some existing =>
    dsimp only
    cases hwas : existing.online <;> cases hon : node.online
    case false.false => exact .inr (.inr ⟨existing, rfl, hwas, by simp⟩)
    case true.true => exact .inr (.inr ⟨existing, rfl, hwas, by simp⟩)
    case false.true =>
      exact .inr (.inl ⟨by simp [hwas], .nodeOnline node, by simp, fun _ => rfl⟩)
    case true.false =>
      exact .inr (.inl ⟨by simp [hwas], .nodeOffline node, by simp, fun _ => rfl⟩)

theorem find?_update (d : TailscaleDiscovery) (node : TailscaleNode) (id : JsString) :
    (d.update node).knownNodes.find? id =
      if id = node.id then
        match d.knownNodes.find? id with
        | none => some node
        | some existing => some (if existing.online = node.online then existing else node)
      else d.knownNodes.find? id := by
  obtain ⟨hnone, _, heq⟩ | ⟨hflag, event, heq, _⟩ | ⟨existing, hfind, hflag, heq⟩ :=
    update_cases d node
  · rw [heq, set, Table.find?_put]
    by_cases hid : id = node.id
    · simp [hid, hnone]
    · simp [hid]
  · rw [heq, emit, set, Table.find?_put]
    by_cases hid : id = node.id
    · subst hid
      cases hfind : d.knownNodes.find? node.id with
      | none => rfl
      | some existing => simp [hflag existing hfind]
    · simp [hid]
  · rw [heq]
    by_cases hid : id = node.id
    · simp [hid, hfind, hflag]
    · simp [hid]

theorem Replayed.update (h : d.Replayed) (node : TailscaleNode) : (d.update node).Replayed := by
  intro id
  obtain ⟨hnone, hoff, heq⟩ | ⟨_, event, heq, hevent⟩ | ⟨_, _, _, heq⟩ := update_cases d node
  · -- first seen offline: no event, and no row that counts
    rw [heq, set, Table.find?_put, h id]
    by_cases hid : id = node.id
    · simp [hid, hnone, hoff, Option.filter]
    · simp [hid]
  · rw [heq, replay_emit]
    simp only [emit, set, Table.find?_put]
    split at hevent
    case isTrue hon =>
      rw [hevent, Table.find?_put, h id]
      by_cases hid : id = node.id
      · simp [hid, hon, Option.filter]
      · simp [hid]
    case isFalse hoff =>
      rw [hevent, Table.find?_delete, h id]
      by_cases hid : id = node.id
      · simp [hid, hoff, Option.filter]
      · simp [hid]
  · rw [heq]
    exact h id

theorem find?_dropRemoved (currentNodeIds : List JsString) (d : TailscaleDiscovery)
    (node : TailscaleNode) (id : JsString) :
    (dropRemoved currentNodeIds d node).knownNodes.find? id =
      if id = node.id ∧ id ∉ currentNodeIds then none else d.knownNodes.find? id := by
  unfold dropRemoved
  by_cases hmem : node.id ∈ currentNodeIds
  · have hno : ¬(id = node.id ∧ id ∉ currentNodeIds) := fun ⟨hid, hnot⟩ => hnot (hid ▸ hmem)
    rw [if_pos (List.contains_iff_mem.mpr hmem), if_neg hno]
  · rw [if_neg (by simpa using hmem), emit, Table.find?_delete]
    by_cases hid : id = node.id
    · simp [hid, hmem]
    · simp [hid]

theorem Replayed.dropRemoved (h : d.Replayed) (currentNodeIds : List JsString)
    (node : TailscaleNode) : (dropRemoved currentNodeIds d node).Replayed := by
  unfold TailscaleDiscovery.dropRemoved
  split
  case isTrue => exact h
  case isFalse =>
    intro id
    rw [replay_emit]
    simp only [emit, replayEvent, Table.find?_delete]
    rw [h id]
    by_cases hid : id = node.id
    · simp [hid]
    · simp [hid]

theorem Replayed.takeStatus (h : d.Replayed) (status : TailscaleStatus) :
    (d.takeStatus status).Replayed := by
  unfold TailscaleDiscovery.takeStatus
  refine List.foldlRecOn _ _ ?_ fun _ hd node _ => hd.dropRemoved _ node
  exact List.foldlRecOn _ _ h fun _ hd node _ => hd.update node

/-- Whatever is polled, the events replayed give the known nodes that are online. -/
theorem Replayed.poll (h : d.Replayed) (intl : Intl) (p : Poll) : (d.poll intl p).Replayed := by
  unfold TailscaleDiscovery.poll
  cases p.fetched with
  | error message =>
    intro id
    rw [replay_emit]
    exact h id
  | ok data => exact h.takeStatus _

end

-- ---------------------------------------------------------------------------
-- The map and the status
-- ---------------------------------------------------------------------------

section
variable {d : TailscaleDiscovery} {status : TailscaleStatus}

theorem find?_foldl_update (nodes : List TailscaleNode)
    (hdistinct : ∀ a ∈ nodes, ∀ b ∈ nodes, a.id = b.id → a = b) (d : TailscaleDiscovery)
    (id : JsString) :
    (nodes.foldl update d).knownNodes.find? id =
      match nodes.find? (·.id = id) with
      | none => d.knownNodes.find? id
      | some node =>
        match d.knownNodes.find? id with
        | none => some node
        | some existing => some (if existing.online = node.online then existing else node) := by
  induction nodes generalizing d with
  | nil => rfl
  | cons node rest ih =>
    have hrest := ih (fun a ha b hb => hdistinct a (List.mem_cons_of_mem _ ha) b
      (List.mem_cons_of_mem _ hb)) (d.update node)
    rw [List.foldl_cons, hrest, find?_update]
    by_cases hid : id = node.id
    · subst hid
      have hsame : ∀ other, rest.find? (·.id = node.id) = some other → other = node := by
        intro other hother
        have hmem := List.mem_of_find?_eq_some hother
        exact hdistinct other (List.mem_cons_of_mem _ hmem) node List.mem_cons_self
          (by simpa using List.find?_some hother)
      rw [if_pos rfl, List.find?_cons_of_pos (by simp)]
      cases hother : rest.find? (·.id = node.id) with
      | none => cases d.knownNodes.find? node.id <;> rfl
      | some other =>
        obtain rfl := hsame other hother
        cases hfind : d.knownNodes.find? other.id with
        | none => simp
        | some existing =>
          by_cases hflag : existing.online = other.online
          · simp [hflag]
          · simp [hflag]
    · rw [if_neg hid, List.find?_cons_of_neg (by simpa using Ne.symm hid)]

theorem find?_foldl_dropRemoved (currentNodeIds : List JsString) (nodes : List TailscaleNode)
    (d : TailscaleDiscovery) (id : JsString) :
    (nodes.foldl (dropRemoved currentNodeIds) d).knownNodes.find? id =
      if id ∈ nodes.map TailscaleNode.id ∧ id ∉ currentNodeIds then none
      else d.knownNodes.find? id := by
  induction nodes generalizing d with
  | nil => simp
  | cons node rest ih =>
    rw [List.foldl_cons, ih, find?_dropRemoved]
    by_cases hmem : id ∈ currentNodeIds
    · simp [hmem]
    · by_cases hid : id = node.id
      · simp [hid, hid ▸ hmem]
      · simp [hid, hmem]

theorem takeStatus_frame (d : TailscaleDiscovery) (status : TailscaleStatus) :
    (d.takeStatus status).clusterTag = d.clusterTag ∧
      (d.takeStatus status).lastStatus = some status := by
  have hupdate : ∀ (d : TailscaleDiscovery) node,
      (d.update node).clusterTag = d.clusterTag ∧ (d.update node).lastStatus = d.lastStatus := by
    intro d node
    obtain ⟨_, _, heq⟩ | ⟨_, event, heq, _⟩ | ⟨_, _, _, heq⟩ := update_cases d node <;>
      (rw [heq]; exact ⟨rfl, rfl⟩)
  have hdrop : ∀ ids (d : TailscaleDiscovery) node,
      (dropRemoved ids d node).clusterTag = d.clusterTag ∧
        (dropRemoved ids d node).lastStatus = d.lastStatus := by
    intro ids d node
    unfold dropRemoved
    split <;> exact ⟨rfl, rfl⟩
  unfold takeStatus
  refine List.foldlRecOn _ _ (motive := fun d' : TailscaleDiscovery =>
    d'.clusterTag = d.clusterTag ∧ d'.lastStatus = some status) ?_ fun d' hd' node _ => ?_
  · refine List.foldlRecOn _ _ (motive := fun d' : TailscaleDiscovery =>
      d'.clusterTag = d.clusterTag ∧ d'.lastStatus = some status) ⟨rfl, rfl⟩
        fun d' hd' node _ => ?_
    exact ⟨(hupdate d' node).1.trans hd'.1, (hupdate d' node).2.trans hd'.2⟩
  · exact ⟨(hdrop _ d' node).1.trans hd'.1, (hdrop _ d' node).2.trans hd'.2⟩

theorem find?_takeStatus (hdistinct : ∀ a ∈ status.clusterNodes d.clusterTag,
      ∀ b ∈ status.clusterNodes d.clusterTag, a.id = b.id → a = b) (id : JsString) :
    (d.takeStatus status).knownNodes.find? id =
      match (status.clusterNodes d.clusterTag).find? (·.id = id) with
      | none => if id ∈ status.nodes.map TailscaleNode.id then d.knownNodes.find? id else none
      | some node =>
        match d.knownNodes.find? id with
        | none => some node
        | some existing => some (if existing.online = node.online then existing else node) := by
  have hloop := find?_foldl_update (status.clusterNodes d.clusterTag) hdistinct
    { d with lastStatus := some status } id
  unfold takeStatus
  simp only [find?_foldl_dropRemoved]
  split
  case isTrue hgone =>
    cases hcluster : (status.clusterNodes d.clusterTag).find? (·.id = id) with
    | none => simp [hgone.2]
    | some node =>
      have hmem : node ∈ status.nodes :=
        (List.filter_sublist.subset (List.mem_of_find?_eq_some hcluster))
      have hid : node.id = id := by simpa using List.find?_some hcluster
      exact absurd (List.mem_map.mpr ⟨node, hmem, hid⟩) hgone.2
  case isFalse hkept =>
    rw [hloop]
    cases hcluster : (status.clusterNodes d.clusterTag).find? (·.id = id) with
    | some node => rfl
    | none =>
      by_cases hin : id ∈ status.nodes.map TailscaleNode.id
      · simp [hin]
      · -- the id is not among the rows, or it would have been dropped
        rw [if_neg hin]
        have hnot : id ∉ _ := fun hrow => hkept ⟨hrow, hin⟩
        rw [← Table.find?_eq_none, hloop, hcluster] at hnot
        exact hnot

theorem mem_rows_iff (t : Table TailscaleNode.id) (node : TailscaleNode) :
    node ∈ t.rows ↔ t.find? node.id = some node :=
  ⟨Table.find?_of_mem, Table.find?_mem⟩

theorem find?_clusterNodes {nodes : List TailscaleNode} {node : TailscaleNode}
    (hdistinct : ∀ a ∈ nodes, ∀ b ∈ nodes, a.id = b.id → a = b) (hmem : node ∈ nodes) :
    nodes.find? (·.id = node.id) = some node := by
  have hsome : (nodes.find? (·.id = node.id)).isSome :=
    List.find?_isSome.mpr ⟨node, hmem, by simp⟩
  obtain ⟨other, hother⟩ := Option.isSome_iff_exists.mp hsome
  have hid : other.id = node.id := by simpa using List.find?_some hother
  rw [hother, hdistinct other (List.mem_of_find?_eq_some hother) node hmem hid]

theorem CanFollow.find?_takeStatus {d : TailscaleDiscovery} {status : TailscaleStatus}
    (h : d.CanFollow status) (id : JsString) :
    (d.takeStatus status).knownNodes.find? id =
      (status.clusterNodes d.clusterTag).find? (·.id = id) := by
  obtain ⟨hdistinct, htagged, hsame⟩ := h
  rw [TailscaleDiscovery.find?_takeStatus hdistinct]
  cases hcluster : (status.clusterNodes d.clusterTag).find? (·.id = id) with
  | none =>
    dsimp only
    split
    case isTrue hin =>
      cases hfind : d.knownNodes.find? id with
      | none => rfl
      | some known =>
        have hid := Table.find?_key hfind
        obtain ⟨other, hother, hids⟩ :=
          List.mem_map.mp (htagged known (Table.find?_mem hfind) (hid ▸ hin))
        exact absurd (decide_eq_true (hids.trans hid)) (List.find?_eq_none.mp hcluster other hother)
    case isFalse => rfl
  | some other =>
    have hother := List.mem_of_find?_eq_some hcluster
    have hid : other.id = id := by simpa using List.find?_some hcluster
    cases hfind : d.knownNodes.find? id with
    | none => rfl
    | some existing =>
      by_cases hflag : existing.online = other.online
      · have heq := hsame existing (Table.find?_mem hfind) other hother
          (hid.trans (Table.find?_key hfind).symm) hflag.symm
        simp [heq]
      · simp [hflag]

theorem canFollow_of_known {d : TailscaleDiscovery} {status : TailscaleStatus}
    (hknown : ∀ node, node ∈ (d.takeStatus status).knownNodes.rows ↔
      node ∈ status.clusterNodes d.clusterTag) : d.CanFollow status := by
  have hdistinct : ∀ a ∈ status.clusterNodes d.clusterTag,
      ∀ b ∈ status.clusterNodes d.clusterTag, a.id = b.id → a = b := by
    intro a ha b hb hid
    have hfa := Table.find?_of_mem ((hknown a).mpr ha)
    rw [hid, Table.find?_of_mem ((hknown b).mpr hb)] at hfa
    exact (Option.some.inj hfa).symm
  refine ⟨hdistinct, fun known hmem hin => ?_, fun known hmem node hnode hid hflag => ?_⟩
  · by_contra hnot
    have hnone : (status.clusterNodes d.clusterTag).find? (·.id = known.id) = none := by
      rw [List.find?_eq_none]
      exact fun n hn hid => hnot (List.mem_map.mpr ⟨n, hn, by simpa using hid⟩)
    have hfind := find?_takeStatus hdistinct known.id
    rw [hnone, Table.find?_of_mem hmem] at hfind
    simp only [if_pos hin] at hfind
    exact hnot (List.mem_map.mpr ⟨known, (hknown known).mp (Table.find?_mem hfind), rfl⟩)
  · have hfind := find?_takeStatus hdistinct known.id
    rw [← hid, find?_clusterNodes hdistinct hnode, hid, Table.find?_of_mem hmem] at hfind
    simp only [if_pos hflag.symm] at hfind
    exact hdistinct node hnode known ((hknown known).mp (Table.find?_mem hfind)) hid

theorem known_takeStatus_iff (d : TailscaleDiscovery) (status : TailscaleStatus) :
    (∀ node, node ∈ (d.takeStatus status).knownNodes.rows ↔
      node ∈ status.clusterNodes d.clusterTag) ↔ d.CanFollow status := by
  refine ⟨canFollow_of_known, fun h node => ?_⟩
  rw [mem_rows_iff, h.find?_takeStatus]
  exact ⟨List.mem_of_find?_eq_some, find?_clusterNodes h.distinct⟩

theorem mirrors_takeStatus_iff (h : d.Replayed) (status : TailscaleStatus) :
    (d.takeStatus status).Mirrors status ↔ d.CanFollow status := by
  have htag := (takeStatus_frame d status).1
  rw [← known_takeStatus_iff]
  constructor
  · intro hmirrors node
    rw [hmirrors.known, htag]
  · intro hknown
    have hiff : ∀ node, node ∈ (d.takeStatus status).knownNodes.rows ↔
        node ∈ status.clusterNodes (d.takeStatus status).clusterTag := by
      rw [htag]
      exact hknown
    refine ⟨hiff, fun node => ?_⟩
    rw [mem_rows_iff, h.takeStatus status node.id, ← hiff, mem_rows_iff, Option.filter_eq_some_iff]

/-- The condition on a poll is exact, whatever was polled before. -/
theorem upToDate_poll (h : d.Replayed) (hup : d.UpToDate) (intl : Intl) (p : Poll) :
    (d.poll intl p).UpToDate ↔ d.KeepsMirror intl p := by
  unfold poll KeepsMirror
  cases hfetched : p.fetched with
  | error message =>
    refine iff_of_true (fun status hstatus => ?_) fun data hok => ?_
    · obtain ⟨hknown, honline⟩ := hup status hstatus
      exact ⟨hknown, by rw [replay_emit]; exact honline⟩
    · cases hok
  | ok data =>
    have hstatus := (takeStatus_frame d (fetchStatus intl p.clock data)).2
    simp only [UpToDate, hstatus, Option.some.injEq, forall_eq', Except.ok.injEq]
    exact mirrors_takeStatus_iff h _

theorem Mirrors.mem_getClusterNodes (h : d.Mirrors status) (hstatus : d.lastStatus = some status)
    (node : TailscaleNode) : node ∈ (replay d.emitted).rows ↔ node ∈ d.getClusterNodes := by
  rw [h.online, getClusterNodes, hstatus]
  simp only [TailscaleStatus.clusterNodes, List.mem_filter, Bool.and_eq_true]
  tauto

/-- Over any sequence of polls from the start the map and the events mirror the latest
status after each of them, just if every poll meets the condition. -/
theorem mirrors_throughout (intl : Intl) (clusterTag : JsString) (polls : List Poll) :
    Throughout (poll intl) UpToDate { clusterTag := clusterTag } polls ↔
      Along (poll intl) (KeepsMirror intl) { clusterTag := clusterTag } polls :=
  throughout_iff (I := Replayed) (fun _ p h => h.poll intl p)
    (fun _ p h hup => upToDate_poll h hup intl p) (fun _ => rfl) nofun

end

/-- Lower case for the letters of ASCII, and the one time that is printed below. -/
def plainIntl : Intl where
  toLowerCase text := text.map fun u => if 65 ≤ u ∧ u ≤ 90 then u + 32 else u
  parseDate _ := some 1704067200000

def onlinePeer (address : String) (tags : List JsString) : NodeData where
  ID := some (ofText "peer")
  HostName := some (ofText "forge")
  TailscaleIPs := some [ofText address]
  Online := some true
  OS := some (ofText "linux")
  Tags := some tags
  LastSeen := some (ofText "2024-01-01T00:00:00Z")

def pollOf (peer : NodeData) : Poll where
  clock _ := 1704067200500
  fetched := .ok { Peer := some [peer] }

/-- A peer that loses the tag of the cluster stays known, and no event says so; one
that moves to another address is known at the old one. -/
theorem untagged_or_moved_unnoticed :
    ¬Throughout (poll plainIntl) UpToDate {}
      [pollOf (onlinePeer "100.0.0.2" [ofText "tag:cortex"]), pollOf (onlinePeer "100.0.0.2" [])] ∧
    ¬Throughout (poll plainIntl) UpToDate {}
      [pollOf (onlinePeer "100.0.0.2" [ofText "tag:cortex"]),
        pollOf (onlinePeer "100.0.0.3" [ofText "tag:cortex"])] := by
  refine ⟨fun hall => ?_, fun hall => ?_⟩
  · have hknown := (hall.foldl _ rfl).known
      (parseNode plainIntl 1704067200500 (onlinePeer "100.0.0.2" [ofText "tag:cortex"]) false)
    exact absurd hknown (by decide +kernel)
  · have hknown := (hall.foldl _ rfl).known
      (parseNode plainIntl 1704067200500 (onlinePeer "100.0.0.2" [ofText "tag:cortex"]) false)
    exact absurd hknown (by decide +kernel)

end TailscaleDiscovery

end ClaudeCluster.Discovery
