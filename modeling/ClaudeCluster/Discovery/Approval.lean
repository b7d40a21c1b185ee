import ClaudeCluster.Lib.Run
import ClaudeCluster.Lib.Slices
import ClaudeCluster.Lib.Table

/-!
# Approval of new nodes

`ApprovalWorkflow` of `discovery/approval.ts`. A call of `requestApproval` runs
up to the end of its 'approvalRequired' listeners, then either waits for the
callback or registers a poll and a listener for its decision. `decide`,
`cancelRequest`, the poll and the cleanup take the request out of a map in
between.

A decision reaches the call only through that listener, or where it is made by
the callback's own completion. Where it is made at no other time and no two
calls that wait share an id, every call resolves to the one decision made on its
request (`agreed_of_guarded`).
-/

namespace ClaudeCluster.Discovery

open Lib (Table System)

-- ---------------------------------------------------------------------------
-- Requests and decisions
-- ---------------------------------------------------------------------------

structure NodeInfo where
  nodeId : String
  tags : List String := []
  deriving DecidableEq, Repr

/-- `call` is not in the source: the call of `requestApproval` that made it. -/
structure ApprovalRequest where
  requestId : String
  node : NodeInfo
  requestedAt : Int
  expiresAt : Int
  ephemeral : Bool
  call : Nat
  deriving DecidableEq, Repr

structure ApprovalDecision where
  requestId : String
  approved : Bool
  decidedBy : String
  decidedAt : Int
  reason : Option String := none
  deriving DecidableEq, Repr

structure ApprovalWorkflowConfig where
  requestTimeoutMs : Option Int := none
  autoApproveEphemeral : Bool := false
  autoApproveTags : Option (List String) := none
  maxPendingRequests : Option Nat := none

def ApprovalWorkflowConfig.timeoutMs (config : ApprovalWorkflowConfig) : Int :=
  config.requestTimeoutMs.getD (5 * 60 * 1000)

def ApprovalWorkflowConfig.maxPending (config : ApprovalWorkflowConfig) : Nat :=
  config.maxPendingRequests.getD 100

def checkAutoApproval (config : ApprovalWorkflowConfig) (node : NodeInfo) : Option String :=
  if config.autoApproveEphemeral && node.tags.contains "ephemeral" then
    some "Ephemeral node auto-approved"
  else
    ((config.autoApproveTags.getD []).find? node.tags.contains).map
      fun tag => "Tag " ++ tag ++ " auto-approved"

/-- Where a call of `requestApproval` is: in the listeners of 'approvalRequired', in the
callback, between the polls, or through. -/
inductive Phase
  | announcing
  | calling
  | waiting
  | resolved (decision : ApprovalDecision)
  deriving DecidableEq, Repr

/-- `made` is not in the source: the decisions that `decide` made on the request. -/
structure Call where
  requestId : String
  phase : Phase
  made : List ApprovalDecision := []
  deriving DecidableEq, Repr

def Call.Open (c : Call) : Prop :=
  match c.phase with
  | .resolved _ => False
  | _ => True

instance (c : Call) : Decidable c.Open := by
  unfold Call.Open
  split <;> infer_instance

/-- A call has been told the one decision made on its request; without one it goes on, or
has not approved the node unless it needed no approval. -/
def Call.Settled (c : Call) : Prop :=
  match c.phase with
  | .resolved d => c.made = [d] ∨ c.made = [] ∧ (d.approved → d.decidedBy = "auto")
  | _ => c.made = []

structure ApprovalWorkflow where
  pendingRequests : Table ApprovalRequest.requestId := .empty
  calls : List Call := []
  deriving DecidableEq

namespace ApprovalWorkflow

-- ---------------------------------------------------------------------------
-- The methods
-- ---------------------------------------------------------------------------

def settle (w : ApprovalWorkflow) (k : Nat) (decision : ApprovalDecision) : ApprovalWorkflow :=
  { w with calls := w.calls.modify k fun c => { c with phase := .resolved decision } }

def hear (decision : ApprovalDecision) (c : Call) : Call :=
  if c.phase = .waiting ∧ c.requestId = decision.requestId then
    { c with phase := .resolved decision }
  else c

def decide (w : ApprovalWorkflow) (requestId : String) (approved : Bool) (decidedBy : String)
    (reason : Option String) (now : Int) : ApprovalWorkflow × ApprovalDecision :=
  match w.pendingRequests.find? requestId with
  | none => (w, ⟨requestId, false, "system", now, some "Request not found"⟩)
  | some request =>
    let decision : ApprovalDecision := ⟨requestId, approved, decidedBy, now, reason⟩
    ({ pendingRequests := w.pendingRequests.delete requestId
       calls := (w.calls.modify request.call fun c => { c with made := c.made ++ [decision] }).map
         (hear decision) }, decision)

/-- `requestApproval`, up to the listeners of 'approvalRequired'. The clock is read
twice. -/
def requestApproval (config : ApprovalWorkflowConfig) (w : ApprovalWorkflow) (node : NodeInfo)
    (idTime now : Int) : ApprovalWorkflow :=
  let requestId := node.nodeId ++ "-" ++ toString idTime
  match checkAutoApproval config node with
  | some reason =>
    let decision : ApprovalDecision := ⟨requestId, true, "auto", now, some reason⟩
    { w with calls := w.calls ++ [⟨requestId, .resolved decision, []⟩] }
  | none =>
    if config.maxPending ≤ w.pendingRequests.rows.length then
      let decision : ApprovalDecision :=
        ⟨requestId, false, "system", now, some "Too many pending requests"⟩
      { w with calls := w.calls ++ [⟨requestId, .resolved decision, []⟩] }
    else
      let request : ApprovalRequest :=
        { requestId, node, requestedAt := now, expiresAt := now + config.timeoutMs
          ephemeral := node.tags.contains "ephemeral", call := w.calls.length }
      { pendingRequests := w.pendingRequests.put request
        calls := w.calls ++ [⟨requestId, .announcing, []⟩] }

def cancelRequest (w : ApprovalWorkflow) (requestId : String) : ApprovalWorkflow :=
  { w with pendingRequests := w.pendingRequests.delete requestId }

def cleanupExpired (w : ApprovalWorkflow) (now : Int) : ApprovalWorkflow :=
  { w with pendingRequests := w.pendingRequests.filter fun r => now ≤ r.expiresAt }

def callbackDone (w : ApprovalWorkflow) (k : Nat) (requestId : String) (answer : Option Bool)
    (now : Int) : ApprovalWorkflow :=
  match answer with
  | some approved =>
    let (w, decision) := w.decide requestId approved "callback" none now
    w.settle k decision
  | none => w.settle k ⟨requestId, false, "system", now, some "Callback error"⟩

def poll (w : ApprovalWorkflow) (k : Nat) (requestId : String) (now : Int) : ApprovalWorkflow :=
  match w.pendingRequests.find? requestId with
  | none => w.settle k ⟨requestId, false, "unknown", now, none⟩
  | some request =>
    if request.expiresAt < now then
      { w with pendingRequests := w.pendingRequests.delete requestId }.settle k
        ⟨requestId, false, "timeout", now, some "Request expired"⟩
    else w

-- ---------------------------------------------------------------------------
-- The workflow as a system
-- ---------------------------------------------------------------------------

inductive Action
  | requestApproval (node : NodeInfo) (idTime now : Int)
  | announced (k : Nat) (callback : Bool)
  | callbackDone (k : Nat) (answer : Option Bool) (now : Int)
  | poll (k : Nat) (now : Int)
  | decide (requestId : String) (approved : Bool) (decidedBy : String) (reason : Option String)
      (now : Int)
  | cancelRequest (requestId : String)
  | cleanupExpired (now : Int)

def Idle (w : ApprovalWorkflow) : Prop := ∀ c ∈ w.calls, c.phase ≠ .announcing

instance (w : ApprovalWorkflow) : Decidable w.Idle :=
  inferInstanceAs (Decidable (∀ _ ∈ _, _))

def inPhase (w : ApprovalWorkflow) (k : Nat) (phase : Phase) : Option Call :=
  w.calls[k]?.filter (·.phase = phase)

/-- `decide` and `cancelRequest` are called by anyone and at any time, also by the
listeners of 'approvalRequired'. Of two calls in their listeners the later one is
through first. -/
def step (config : ApprovalWorkflowConfig) (w : ApprovalWorkflow) :
    Action → Option ApprovalWorkflow
  | .requestApproval node idTime now => some (w.requestApproval config node idTime now)
  | .announced k callback => do
    let c ← w.inPhase k .announcing
    if (w.calls.drop (k + 1)).all (·.phase ≠ .announcing) then
      some { w with
        calls := w.calls.set k { c with phase := if callback then .calling else .waiting } }
    else none
  | .callbackDone k answer now => do
    let c ← w.inPhase k .calling
    if w.Idle then some (w.callbackDone k c.requestId answer now) else none
  | .poll k now => do
    let c ← w.inPhase k .waiting
    if w.Idle then some (w.poll k c.requestId now) else none
  | .decide requestId approved decidedBy reason now =>
    some (w.decide requestId approved decidedBy reason now).1
  | .cancelRequest requestId => some (w.cancelRequest requestId)
  | .cleanupExpired now => if w.Idle then some (w.cleanupExpired now) else none

def workflow (config : ApprovalWorkflowConfig) : System ApprovalWorkflow Action where
  init := (· = {})
  step := step config

/-- Calls that have not resolved have ids of their own, `decide` has made one decision at
most on a request, the call has resolved to it, and a call that has resolved without
one has not approved the node unless it needed no approval. -/
structure Agreed (w : ApprovalWorkflow) : Prop where
  distinct : ∀ (i j : Nat) (c c' : Call), w.calls[i]? = some c → w.calls[j]? = some c' → c.Open → c'.Open →
    c.requestId = c'.requestId → i = j
  once : ∀ c ∈ w.calls, c.made.length ≤ 1
  reached : ∀ c ∈ w.calls, ∀ d ∈ c.made, c.phase = .resolved d
  own : ∀ c ∈ w.calls, ∀ d, c.phase = .resolved d → c.made = [] → d.approved →
    d.decidedBy = "auto"

/-- The condition on a step: no request is put under the id of a call that has not resolved,
and what `decide` finds is the request of a call whose listener is registered. -/
def KeepsAgreement (config : ApprovalWorkflowConfig) (w : ApprovalWorkflow) : Action → Prop
  | .requestApproval node idTime _ =>
    checkAutoApproval config node = none → w.pendingRequests.rows.length < config.maxPending →
      ∀ c ∈ w.calls, c.Open → c.requestId ≠ node.nodeId ++ "-" ++ toString idTime
  | .decide requestId _ _ _ _ =>
    ∀ r ∈ w.pendingRequests.find? requestId, ∃ c ∈ w.calls[r.call]?, c.phase = .waiting
  | _ => True

-- ---------------------------------------------------------------------------
-- The invariant
-- ---------------------------------------------------------------------------

/-- Every request is one on which no decision has been made, and a call that has not
resolved owns what is under its id. -/
structure Inv (w : ApprovalWorkflow) : Prop where
  owner : ∀ r ∈ w.pendingRequests.rows, ∃ c, w.calls[r.call]? = some c ∧
    c.requestId = r.requestId ∧ c.made = []
  own : ∀ (k : Nat) (c : Call) r, w.calls[k]? = some c → c.Open →
    w.pendingRequests.find? c.requestId = some r → r.call = k
  distinct : ∀ (i j : Nat) (c c' : Call), w.calls[i]? = some c → w.calls[j]? = some c' → c.Open →
    c'.Open → c.requestId = c'.requestId → i = j
  settled : ∀ (k : Nat) (c : Call), w.calls[k]? = some c → c.Settled

section
variable {config : ApprovalWorkflowConfig} {w w' : ApprovalWorkflow} {k : Nat} {c : Call}
  {d : ApprovalDecision} {r : ApprovalRequest} {phase : Phase}

theorem Inv.start : Inv {} where
  owner := by simp
  own := by simp
  distinct := by simp
  settled := by simp

theorem made_of_open (h : c.Settled) (ho : c.Open) : c.made = [] := by
  unfold Call.Settled Call.Open at *
  split at h <;> simp_all

theorem Inv.agreed (h : Inv w) : Agreed w := by
  have hall : ∀ c ∈ w.calls, c.Settled := by
    intro c hc
    obtain ⟨k, hk⟩ := List.mem_iff_getElem?.mp hc
    exact h.settled k c hk
  refine ⟨h.distinct, fun c hc => ?_, fun c hc d hd => ?_, fun c hc d hd hmade => ?_⟩
  · have hs := hall c hc
    unfold Call.Settled at hs
    split at hs
    · obtain hone | ⟨hnone, _⟩ := hs
      · simp [hone]
      · simp [hnone]
    · simp [hs]
  · have hs := hall c hc
    unfold Call.Settled at hs
    split at hs
    case h_1 v hv =>
      obtain hone | ⟨hnone, _⟩ := hs
      · rw [hone, List.mem_singleton] at hd
        rw [hv, hd]
      · simp [hnone] at hd
    case h_2 => simp [hs] at hd
  · have hs := hall c hc
    rw [Call.Settled, hd] at hs
    simp only [hmade, List.ne_cons_self, false_or, true_and] at hs
    exact hs

theorem Inv.withdraw (h : Inv w) (hcalls : w'.calls = w.calls)
    (hfind : ∀ id r, w'.pendingRequests.find? id = some r → w.pendingRequests.find? id = some r) :
    Inv w' where
  owner r hr := by
    rw [hcalls]
    exact h.owner r (Table.find?_mem (hfind _ _ (Table.find?_of_mem hr)))
  own k c r hk ho hr := h.own k c r (hcalls ▸ hk) ho (hfind _ _ hr)
  distinct := hcalls ▸ h.distinct
  settled := hcalls ▸ h.settled

theorem Inv.change {b : Call} (h : Inv w) (hk : w.calls[k]? = some c) (ho : c.Open)
    (hid : b.requestId = c.requestId) (hb : b.Settled)
    (hmade : b.made = [] ∨ w'.pendingRequests.find? c.requestId = none)
    (hcalls : ∀ i, w'.calls[i]? = if i = k then some b else w.calls[i]?)
    (hfind : ∀ id r, w'.pendingRequests.find? id = some r → w.pendingRequests.find? id = some r) :
    Inv w' := by
  -- whoever is open afterwards was so before, under the same id
  have hback : ∀ (i : Nat) (x : Call), w'.calls[i]? = some x → x.Open →
      ∃ y, w.calls[i]? = some y ∧ x.requestId = y.requestId ∧ y.Open := by
    intro i x hi hx
    rw [hcalls] at hi
    split at hi
    case isTrue hik =>
      cases hi
      exact ⟨c, hik ▸ hk, hid, ho⟩
    case isFalse => exact ⟨x, hi, rfl, hx⟩
  refine ⟨fun r hr => ?_, fun i x r hi hx hr => ?_, fun i j x y hi hj hx hy hxy => ?_,
    fun i x hi => ?_⟩
  · have hr' := hfind _ _ (Table.find?_of_mem hr)
    obtain ⟨x, hx, hxid, hxmade⟩ := h.owner r (Table.find?_mem hr')
    rw [hcalls]
    by_cases hrk : r.call = k
    · obtain rfl : x = c := by simpa [hrk, hk] using hx.symm
      rw [if_pos hrk]
      refine ⟨b, rfl, hid.trans hxid, hmade.resolve_right fun hnone => ?_⟩
      rw [hxid, Table.find?_of_mem hr] at hnone
      cases hnone
    · rw [if_neg hrk]
      exact ⟨x, hx, hxid, hxmade⟩
  · obtain ⟨y, hy, hxy, hyo⟩ := hback i x hi hx
    exact h.own i y r hy hyo (hxy ▸ hfind _ _ hr)
  · obtain ⟨x', hx', hxid, hxo⟩ := hback i x hi hx
    obtain ⟨y', hy', hyid, hyo⟩ := hback j y hj hy
    exact h.distinct i j x' y' hx' hy' hxo hyo (by rw [← hxid, ← hyid, hxy])
  · rw [hcalls] at hi
    split at hi
    case isTrue =>
      cases hi
      exact hb
    case isFalse => exact h.settled i x hi

theorem getElem?_settle (hk : w.calls[k]? = some c) (d : ApprovalDecision) (i : Nat) :
    (w.settle k d).calls[i]? =
      if i = k then some { c with phase := .resolved d } else w.calls[i]? := by
  simp only [settle, List.getElem?_modify]
  by_cases hik : i = k
  · simp [hik, hk]
  · simp [hik, Ne.symm hik]

theorem Inv.settle (h : Inv w) (hk : w.calls[k]? = some c) (ho : c.Open)
    (hd : d.approved = false) : Inv (w.settle k d) := by
  have hmade := made_of_open (h.settled k c hk) ho
  have hown : Call.Settled { c with phase := .resolved d } :=
    Or.inr (a := c.made = [d]) ⟨hmade, by simp [hd]⟩
  exact h.change (b := { c with phase := .resolved d }) hk ho rfl hown (.inl hmade)
    (getElem?_settle hk d) fun _ _ hr => hr

theorem find?_delete_some {id id' : String}
    (hr : (w.pendingRequests.delete id).find? id' = some r) :
    id' ≠ id ∧ w.pendingRequests.find? id' = some r := by
  rw [Table.find?_delete] at hr
  split at hr
  case isTrue => cases hr
  case isFalse hne => exact ⟨hne, hr⟩

theorem getElem?_decide (h : Inv w) {requestId : String} {approved : Bool} {decidedBy : String}
    {reason : Option String} {now : Int} (hfind : w.pendingRequests.find? requestId = some r)
    (hk : w.calls[r.call]? = some c) (ho : c.Open) (i : Nat) :
    (w.decide requestId approved decidedBy reason now).1.calls[i]? =
      if i = r.call then
        some (hear ⟨requestId, approved, decidedBy, now, reason⟩
          { c with made := [⟨requestId, approved, decidedBy, now, reason⟩] })
      else w.calls[i]? := by
  have hmade := made_of_open (h.settled _ c hk) ho
  have hid : c.requestId = requestId := by
    obtain ⟨x, hx, hxid, _⟩ := h.owner r (Table.find?_mem hfind)
    obtain rfl : x = c := by simpa [hk] using hx.symm
    exact hxid.trans (Table.find?_key hfind)
  simp only [decide, hfind, List.getElem?_map, List.getElem?_modify]
  by_cases hi : i = r.call
  · simp [hi, hk, hmade]
  · rw [if_neg hi]
    cases hx : w.calls[i]? with
    | none => rfl
    | some x =>
      -- another call that waited under the id would be the same
      have hdeaf : ¬(x.phase = .waiting ∧ x.requestId = requestId) := by
        rintro ⟨hwaiting, hxid⟩
        have hxo : x.Open := by simp [Call.Open, hwaiting]
        exact hi (h.distinct i r.call x c hx hk hxo ho (hxid.trans hid.symm))
      simp [Ne.symm hi, hear, hdeaf]

/-- `decide` finds the request of a call that waits for it: the call resolves. -/
theorem Inv.decide (h : Inv w) (requestId : String) (approved : Bool) (decidedBy : String)
    (reason : Option String) (now : Int)
    (hg : ∀ r ∈ w.pendingRequests.find? requestId, ∃ c ∈ w.calls[r.call]?, c.phase = .waiting) :
    Inv (w.decide requestId approved decidedBy reason now).1 := by
  cases hfind : w.pendingRequests.find? requestId with
  | none => simpa [ApprovalWorkflow.decide, hfind] using h
  | some r =>
    obtain ⟨c, hk, hwaiting⟩ := hg r hfind
    have ho : c.Open := by simp [Call.Open, hwaiting]
    have hid : c.requestId = requestId := by
      obtain ⟨x, hx, hxid, _⟩ := h.owner r (Table.find?_mem hfind)
      obtain rfl : x = c := by simpa [Option.mem_def.mp hk] using hx.symm
      exact hxid.trans (Table.find?_key hfind)
    have hpending : (w.decide requestId approved decidedBy reason now).1.pendingRequests =
        w.pendingRequests.delete requestId := by simp [ApprovalWorkflow.decide, hfind]
    refine h.change hk ho (b := _) ?_ ?_ (.inr ?_) (getElem?_decide h hfind hk ho) ?_
    · simp [hear, hwaiting, hid]
    · simp [hear, hwaiting, hid, Call.Settled]
    · simp [hpending, Table.find?_delete, hid]
    · intro id r' hr
      rw [hpending] at hr
      exact (find?_delete_some hr).2

/-- The callback of a call has answered: its own decision is what the call resolves to,
unless the request has been withdrawn. -/
theorem Inv.callbackDone (h : Inv w) (hk : w.calls[k]? = some c) (hcalling : c.phase = .calling)
    (answer : Option Bool) (now : Int) : Inv (w.callbackDone k c.requestId answer now) := by
  have ho : c.Open := by simp [Call.Open, hcalling]
  cases answer with
  | none => exact h.settle hk ho rfl
  | some approved =>
    cases hfind : w.pendingRequests.find? c.requestId with
    | none =>
      have hsame : w.callbackDone k c.requestId (some approved) now =
          w.settle k ⟨c.requestId, false, "system", now, some "Request not found"⟩ := by
        simp [ApprovalWorkflow.callbackDone, ApprovalWorkflow.decide, hfind]
      rw [hsame]
      exact h.settle hk ho rfl
    | some r =>
      obtain rfl : r.call = k := h.own k c r hk ho hfind
      let d : ApprovalDecision := ⟨c.requestId, approved, "callback", now, none⟩
      have hdecide : ∀ i, (w.decide c.requestId approved "callback" none now).1.calls[i]? = _ :=
        getElem?_decide h hfind hk ho
      have hpending : (w.decide c.requestId approved "callback" none now).1.pendingRequests =
          w.pendingRequests.delete c.requestId := by simp [ApprovalWorkflow.decide, hfind]
      have hsame : w.callbackDone r.call c.requestId (some approved) now =
          (w.decide c.requestId approved "callback" none now).1.settle r.call d := by
        simp [ApprovalWorkflow.callbackDone, ApprovalWorkflow.decide, hfind, d]
      rw [hsame]
      refine h.change (b := { c with phase := .resolved d, made := [d] }) hk ho rfl
        (Or.inl (b := _ ∧ _) rfl) (.inr ?_) (fun i => ?_) fun id r' hr => ?_
      · simp [ApprovalWorkflow.settle, hpending, Table.find?_delete]
      · rw [getElem?_settle ((hdecide r.call).trans (if_pos rfl)), hdecide]
        by_cases hi : i = r.call
        · simp [hi, hear, hcalling, d]
        · simp [hi]
      · rw [ApprovalWorkflow.settle, hpending] at hr
        exact (find?_delete_some hr).2

theorem Inv.poll (h : Inv w) (hk : w.calls[k]? = some c) (ho : c.Open) (now : Int) :
    Inv (w.poll k c.requestId now) := by
  unfold ApprovalWorkflow.poll
  split
  · exact h.settle hk ho rfl
  · split
    · have hout : Inv { w with pendingRequests := w.pendingRequests.delete c.requestId } :=
        h.withdraw rfl fun _ _ hr => (find?_delete_some hr).2
      exact hout.settle hk ho rfl
    · exact h

theorem Inv.announced (h : Inv w) (hk : w.calls[k]? = some c) (ho : c.Open) (callback : Bool) :
    Inv { w with
      calls := w.calls.set k { c with phase := if callback then .calling else .waiting } } := by
  have hmade := made_of_open (h.settled k c hk) ho
  have hlt := (List.getElem?_eq_some_iff.mp hk).1
  refine h.change (b := { c with phase := if callback then .calling else .waiting }) hk ho rfl ?_
    (.inl hmade) (fun i => ?_) fun _ _ hr => hr
  · cases callback <;> exact hmade
  · rw [List.getElem?_set]
    by_cases hi : i = k
    · simp [hi, hlt]
    · simp [hi, Ne.symm hi]

theorem Inv.atOnce (h : Inv w) (requestId : String) (hd : d.approved → d.decidedBy = "auto") :
    Inv { w with calls := w.calls ++ [⟨requestId, .resolved d, []⟩] } := by
  have hopen : ∀ (i : Nat) (x : Call), (w.calls ++ [⟨requestId, .resolved d, []⟩])[i]? = some x →
      x.Open → w.calls[i]? = some x := by
    intro i x hi hx
    obtain hi | ⟨_, rfl⟩ := Lib.getElem?_concat_cases hi
    · exact hi
    · exact absurd hx (by simp [Call.Open])
  refine ⟨fun r hr => ?_, fun i x r hi hx => h.own i x r (hopen i x hi hx) hx,
    fun i j x y hi hj hx hy => h.distinct i j x y (hopen i x hi hx) (hopen j y hj hy) hx hy,
    fun i x hi => ?_⟩
  · obtain ⟨x, hx, hrest⟩ := h.owner r hr
    exact ⟨x, List.getElem?_append_left (List.getElem?_eq_some_iff.mp hx).1 ▸ hx, hrest⟩
  · obtain hi | ⟨_, rfl⟩ := Lib.getElem?_concat_cases hi
    · exact h.settled i x hi
    · exact Or.inr (a := _ = _) ⟨rfl, hd⟩

theorem Inv.opened (h : Inv w) {request : ApprovalRequest}
    (hcall : request.call = w.calls.length)
    (hfresh : ∀ c ∈ w.calls, c.Open → c.requestId ≠ request.requestId) :
    Inv { pendingRequests := w.pendingRequests.put request
          calls := w.calls ++ [⟨request.requestId, .announcing, []⟩] } := by
  refine ⟨fun r hr => ?_, fun i x r hi hx hr => ?_, fun i j x y hi hj hx hy hxy => ?_,
    fun i x hi => ?_⟩
  · obtain rfl | hr := Table.mem_putRows hr
    · exact ⟨_, by rw [hcall]; exact List.getElem?_concat_length, rfl, rfl⟩
    · obtain ⟨x, hx, hrest⟩ := h.owner r hr
      exact ⟨x, List.getElem?_append_left (List.getElem?_eq_some_iff.mp hx).1 ▸ hx, hrest⟩
  · rw [Table.find?_put] at hr
    obtain hi | ⟨rfl, rfl⟩ := Lib.getElem?_concat_cases hi
    · rw [if_neg (hfresh x (List.mem_of_getElem? hi) hx)] at hr
      exact h.own i x r hi hx hr
    · rw [if_pos rfl] at hr
      cases hr
      exact hcall
  · obtain hi | ⟨rfl, rfl⟩ := Lib.getElem?_concat_cases hi
    · obtain hj | ⟨rfl, rfl⟩ := Lib.getElem?_concat_cases hj
      · exact h.distinct i j x y hi hj hx hy hxy
      · exact absurd hxy (hfresh x (List.mem_of_getElem? hi) hx)
    · obtain hj | ⟨rfl, rfl⟩ := Lib.getElem?_concat_cases hj
      · exact absurd hxy.symm (hfresh y (List.mem_of_getElem? hj) hy)
      · rfl
  · obtain hi | ⟨_, rfl⟩ := Lib.getElem?_concat_cases hi
    · exact h.settled i x hi
    · exact (rfl : ([] : List ApprovalDecision) = [])

theorem Inv.requestApproval (h : Inv w) (node : NodeInfo) (idTime now : Int)
    (hg : KeepsAgreement config w (.requestApproval node idTime now)) :
    Inv (w.requestApproval config node idTime now) := by
  unfold ApprovalWorkflow.requestApproval
  dsimp only
  cases hauto : checkAutoApproval config node with
  | some reason => exact h.atOnce _ fun _ => rfl
  | none =>
    dsimp only
    split
    case isTrue => exact h.atOnce _ nofun
    case isFalse hroom => exact h.opened rfl (hg hauto (by omega))

-- ---------------------------------------------------------------------------
-- Whole runs
-- ---------------------------------------------------------------------------

theorem inPhase_spec (h : w.inPhase k phase = some c) :
    w.calls[k]? = some c ∧ c.phase = phase := by
  simpa [inPhase, Option.filter_eq_some_iff] using h

theorem Inv.step {a : Action} (h : Inv w) (hg : KeepsAgreement config w a)
    (hs : ApprovalWorkflow.step config w a = some w') : Inv w' := by
  cases a with
  | requestApproval node idTime now =>
    cases hs
    exact h.requestApproval node idTime now hg
  | announced k callback =>
    simp only [ApprovalWorkflow.step, Option.bind_eq_bind, Option.bind_eq_some_iff] at hs
    obtain ⟨c, hc, hs⟩ := hs
    obtain ⟨hk, hphase⟩ := inPhase_spec hc
    split at hs
    case isTrue =>
      cases hs
      exact h.announced hk (by simp [Call.Open, hphase]) callback
    case isFalse => cases hs
  | callbackDone k answer now =>
    simp only [ApprovalWorkflow.step, Option.bind_eq_bind, Option.bind_eq_some_iff] at hs
    obtain ⟨c, hc, hs⟩ := hs
    obtain ⟨hk, hphase⟩ := inPhase_spec hc
    split at hs
    case isTrue =>
      cases hs
      exact h.callbackDone hk hphase answer now
    case isFalse => cases hs
  | poll k now =>
    simp only [ApprovalWorkflow.step, Option.bind_eq_bind, Option.bind_eq_some_iff] at hs
    obtain ⟨c, hc, hs⟩ := hs
    obtain ⟨hk, hphase⟩ := inPhase_spec hc
    split at hs
    case isTrue =>
      cases hs
      exact h.poll hk (by simp [Call.Open, hphase]) now
    case isFalse => cases hs
  | decide requestId approved decidedBy reason now =>
    cases hs
    exact h.decide requestId approved decidedBy reason now hg
  | cancelRequest requestId =>
    cases hs
    exact h.withdraw rfl fun _ _ hr => (find?_delete_some hr).2
  | cleanupExpired now =>
    simp only [ApprovalWorkflow.step] at hs
    split at hs
    case isTrue =>
      cases hs
      refine h.withdraw rfl fun id r hr => ?_
      have hmem := List.mem_of_mem_filter (Table.find?_mem hr)
      exact Table.find?_key hr ▸ Table.find?_of_mem hmem
    case isFalse => cases hs

/-- In every run whose steps meet the condition, in every state. -/
theorem agreed_of_guarded (h : (workflow config).Reach (KeepsAgreement config) w) : Agreed w := by
  have hinv : Inv w := h.invariant (fun w hi => by cases (show w = {} from hi); exact .start)
    fun _ _ _ _ hinv hg hs => hinv.step hg hs
  exact hinv.agreed

end

instance (config : ApprovalWorkflowConfig) (w : ApprovalWorkflow) (a : Action) :
    Decidable (KeepsAgreement config w a) :=
  match a with
  | .requestApproval _ _ _ => inferInstanceAs (Decidable (_ → _ → ∀ c ∈ w.calls, c.Open → _))
  | .decide requestId _ _ _ _ =>
    inferInstanceAs (Decidable (∀ r ∈ w.pendingRequests.find? requestId,
      ∃ c ∈ w.calls[r.call]?, c.phase = .waiting))
  | .announced _ _ | .callbackDone _ _ _ | .poll _ _ | .cancelRequest _ | .cleanupExpired _ =>
    .isTrue trivial

def forge : NodeInfo where
  nodeId := "forge"

def rog2 : NodeInfo where
  nodeId := "rog2"

/-- Two nodes ask in the same millisecond; the later one is refused before the
first is approved. -/
def approvedRun : List Action :=
  [.requestApproval forge 1000 1000, .announced 0 false, .requestApproval rog2 1000 1000,
    .announced 1 false, .poll 0 2000, .decide "rog2-1000" false "admin" none 2200, .poll 0 2400,
    .decide "forge-1000" true "admin" none 2500]

theorem agreed_of_guarded_approved :
    ∃ w, (workflow {}).Reach (KeepsAgreement {}) w ∧
      (w.calls.map Call.phase = [.resolved ⟨"forge-1000", true, "admin", 2500, none⟩,
        .resolved ⟨"rog2-1000", false, "admin", 2200, none⟩]) ∧
      Agreed w := by
  obtain ⟨w, hw, hphase⟩ := System.Reach.replay (M := workflow {}) (G := KeepsAgreement {})
    (P := fun w => w.calls.map Call.phase =
      [.resolved ⟨"forge-1000", true, "admin", 2500, none⟩,
        .resolved ⟨"rog2-1000", false, "admin", 2200, none⟩]) rfl approvedRun (by decide +kernel)
  exact ⟨w, hw, hphase, agreed_of_guarded hw⟩

/-- A listener of 'approvalRequired' that approves the node at once. -/
def approvedAtOnceRun : List Action :=
  [.requestApproval forge 1000 1000, .decide "forge-1000" true "auto-approver" none 1000,
    .announced 0 false, .poll 0 2000]

def sameTimeRun : List Action :=
  [.requestApproval forge 1000 1000, .announced 0 false, .requestApproval forge 1000 1000,
    .announced 1 false]

/-- `decide` has approved the request and its call resolves to a rejection, and two calls
wait under one id. -/
theorem approval_lost_and_id_shared :
    (∃ w, (workflow {}).Reach (fun _ _ => True) w ∧ ∃ c ∈ w.calls, ∃ d ∈ c.made, ∃ d',
      d.approved ∧ c.phase = .resolved d' ∧ d'.approved = false) ∧
    ∃ w, (workflow {}).Reach (fun _ _ => True) w ∧ ∃ c c' : Call, w.calls[0]? = some c ∧
      w.calls[1]? = some c' ∧ c.Open ∧ c'.Open ∧ c.requestId = c'.requestId := by
  constructor
  · obtain ⟨w, hw, hcalls⟩ := System.Reach.replay (M := workflow {}) (G := fun _ _ => True)
      (P := fun w => w.calls =
        [⟨"forge-1000", .resolved ⟨"forge-1000", false, "unknown", 2000, none⟩,
          [⟨"forge-1000", true, "auto-approver", 1000, none⟩]⟩]) rfl approvedAtOnceRun
      (by decide +kernel)
    exact ⟨w, hw, _, by rw [hcalls]; exact List.mem_singleton_self _, _,
      List.mem_singleton_self _, _, rfl, rfl, rfl⟩
  · obtain ⟨w, hw, hcalls⟩ := System.Reach.replay (M := workflow {}) (G := fun _ _ => True)
      (P := fun w => w.calls =
        [⟨"forge-1000", .waiting, []⟩, ⟨"forge-1000", .waiting, []⟩]) rfl sameTimeRun
      (by decide +kernel)
    exact ⟨w, hw, ⟨"forge-1000", .waiting, []⟩, ⟨"forge-1000", .waiting, []⟩, by rw [hcalls]; rfl,
      by rw [hcalls]; rfl, trivial, trivial, rfl⟩

end ApprovalWorkflow

end ClaudeCluster.Discovery
