import ClaudeCluster.Lib.Json
import ClaudeCluster.Lib.Run
import ClaudeCluster.Lib.Slices
import ClaudeCluster.Lib.Table
import Mathlib.Data.List.Chain

/-!
# Conversations

`handleMessage` copies the history of its chat, takes the message through the
model and the tools the model asks for, and stores the copy, trimmed. Calls
overlap: nobody waits for them. Whatever is stored can be sent to the model
again (`validHistory_of_saved`). But a call that stores its copy stores what the
chat was when it started: the exchanges of the calls in between are gone, and
none is only where each call finds the history as it left it
(`noneLost_of_fresh`).
-/

namespace ClaudeCluster.Messaging

open Lib (JsString Table System)

-- ---------------------------------------------------------------------------
-- Messages
-- ---------------------------------------------------------------------------

inductive Role where
  | user | assistant | system
  deriving DecidableEq, Repr

/-- The input of a tool by its JSON text; it is passed on. -/
inductive ContentBlock where
  | text (text : JsString)
  | toolUse (id name input : JsString)
  | toolResult (toolUseId content : JsString)
  deriving DecidableEq, Repr

inductive Content where
  | text (text : JsString)
  | blocks (blocks : List ContentBlock)
  deriving DecidableEq, Repr

structure ChatMessage where
  role : Role
  content : Content
  deriving DecidableEq, Repr

structure ToolCall where
  id : JsString
  name : JsString
  input : JsString
  deriving DecidableEq, Repr

/-- No tool calls are as good as an empty list of them. -/
structure ChatResponse where
  content : JsString
  toolCalls : List ToolCall
  deriving DecidableEq, Repr

def ContentBlock.toolUseId? : ContentBlock → Option JsString
  | .toolUse id _ _ => some id
  | .text _ | .toolResult _ _ => none

def ContentBlock.toolResultId? : ContentBlock → Option JsString
  | .toolResult id _ => some id
  | .text _ | .toolUse _ _ _ => none

def Content.blockList : Content → List ContentBlock
  | .text _ => []
  | .blocks bs => bs

def ChatMessage.toolUseIds (m : ChatMessage) : List JsString :=
  m.content.blockList.filterMap ContentBlock.toolUseId?

def ChatMessage.toolResultIds (m : ChatMessage) : List JsString :=
  m.content.blockList.filterMap ContentBlock.toolResultId?

def ChatMessage.isToolResult (m : ChatMessage) : Bool :=
  m.content.blockList.any fun b => b.toolResultId?.isSome

-- ---------------------------------------------------------------------------
-- The parts of handleMessage
-- ---------------------------------------------------------------------------

structure ConversationConfig where
  tools : List JsString := []
  maxHistory : Option Nat := none
  maxToolIterations : Option Int := none

def ConversationConfig.history (config : ConversationConfig) : Nat := config.maxHistory.getD 20

def ConversationConfig.iterations (config : ConversationConfig) : Int :=
  config.maxToolIterations.getD 5

def userMessage (content : JsString) : ChatMessage := ⟨.user, .text content⟩

def assistantMessage (content : JsString) : ChatMessage := ⟨.assistant, .text content⟩

/-- `assistantBlocks` -/
def toolUseMessage (r : ChatResponse) : ChatMessage :=
  ⟨.assistant, .blocks ((if r.content.isEmpty then [] else [.text r.content]) ++
    r.toolCalls.map fun tc => .toolUse tc.id tc.name tc.input)⟩

def toolResultMessage (results : List ContentBlock) : ChatMessage := ⟨.user, .blocks results⟩

def truncateResult (result : JsString) : JsString :=
  if 4000 < result.length then result.take 4000 ++ Lib.Utf16.ofText "... [truncated]" else result

/-- What a handler comes to: the JSON text of what it returns, if that has one. -/
inductive ToolOutcome where
  | resolved (json : Option JsString)
  | threw (message : JsString)
  deriving DecidableEq, Repr

/-- `JSON.stringify({ error })` -/
def errorResult (error : JsString) : JsString :=
  ((Lib.Json.stringify (.object [(Lib.Utf16.ofText "error", .string error)])).getD []).flatMap
    Lib.Utf16.units

def executeTool (config : ConversationConfig) (name : JsString) : ToolOutcome → Option JsString
  | outcome =>
    if !config.tools.contains name then some (errorResult (Lib.Utf16.ofText "Unknown tool: " ++ name))
    else
      match outcome with
      | .resolved json => json
      | .threw message => some (errorResult (Lib.Utf16.ofText "Tool execution failed: " ++ message))

def trimHistoryArray (maxHistory : Nat) (history : List ChatMessage) : List ChatMessage :=
  if history.length ≤ maxHistory then history
  else
    (history.drop (history.length - maxHistory)).dropWhile fun first =>
      first.role ≠ .user || first.isToolResult

-- ---------------------------------------------------------------------------
-- Calls
-- ---------------------------------------------------------------------------

/-- What a call waits for: `onTyping`, the model, or the first of the tools still to
run. -/
inductive Phase where
  | typing
  | chatting
  | running (todo : List ToolCall) (results : List ContentBlock)
  | returned (answer : JsString)
  | rejected
  deriving DecidableEq, Repr

/-- A call of `handleMessage`; `loaded` is what it copied. -/
structure Call where
  chatId : String
  content : JsString
  loaded : List ChatMessage
  history : List ChatMessage
  iterations : Nat := 0
  phase : Phase := .typing
  deriving DecidableEq, Repr

def Call.final (config : ConversationConfig) (c : Call) (r : ChatResponse) : Bool :=
  r.toolCalls.isEmpty || config.iterations ≤ c.iterations

def Call.exchange (c : Call) (answer : JsString) : List ChatMessage :=
  c.history.drop c.loaded.length ++ [assistantMessage answer]

structure Row where
  chatId : String
  history : List ChatMessage
  deriving DecidableEq, Repr

/-- Not in the source: what was stored, by which call. -/
structure Saved where
  call : Nat
  chatId : String
  history : List ChatMessage
  exchange : List ChatMessage
  deriving DecidableEq, Repr

structure ConversationHandler where
  store : Table Row.chatId := .empty
  calls : List Call := []
  saved : List Saved := []
  deriving DecidableEq

namespace ConversationHandler

/-- What was saved is what is loaded: the JSON text of a row is parsed to what it
was made of. -/
def load (s : ConversationHandler) (chatId : String) : List ChatMessage :=
  ((s.store.find? chatId).map Row.history).getD []

def save (s : ConversationHandler) (chatId : String) (history : List ChatMessage) :
    ConversationHandler :=
  { s with store := s.store.put ⟨chatId, history⟩ }

def setCall (s : ConversationHandler) (i : Nat) (c : Call) : ConversationHandler :=
  { s with calls := s.calls.set i c }

def handleMessage (s : ConversationHandler) (chatId : String) (content : JsString) :
    ConversationHandler :=
  let loaded := s.load chatId
  { s with calls := s.calls ++ [⟨chatId, content, loaded, loaded ++ [userMessage content], 0, .typing⟩] }

/-- The model answers: another round of tools, or the end. `written` says whether the
store takes the row. -/
def answered (config : ConversationConfig) (s : ConversationHandler) (i : Nat) (c : Call)
    (r : ChatResponse) (written : Bool) : ConversationHandler :=
  if c.final config r then
    let history := trimHistoryArray config.history (c.history ++ [assistantMessage r.content])
    if !written then s.setCall i { c with phase := .rejected }
    else
      { (s.save c.chatId history).setCall i { c with phase := .returned r.content } with
        saved := s.saved ++ [⟨i, c.chatId, history, c.exchange r.content⟩] }
  else
    s.setCall i { c with
      iterations := c.iterations + 1
      history := c.history ++ [toolUseMessage r]
      phase := .running r.toolCalls [] }

/-- A tool is done. A result that has no JSON text has no length either. -/
def toolDone (config : ConversationConfig) (s : ConversationHandler) (i : Nat) (c : Call)
    (tc : ToolCall) (todo : List ToolCall) (results : List ContentBlock) (outcome : ToolOutcome) :
    ConversationHandler :=
  match executeTool config tc.name outcome with
  | none => s.setCall i { c with phase := .rejected }
  | some result =>
    let results := results ++ [.toolResult tc.id (truncateResult result)]
    if todo.isEmpty then
      s.setCall i { c with
        history := c.history ++ [toolResultMessage results]
        phase := .chatting }
    else s.setCall i { c with phase := .running todo results }

inductive Action where
  | handleMessage (chatId : String) (content : JsString)
  | typed (i : Nat) (ok : Bool)
  | answered (i : Nat) (response : Option ChatResponse) (written : Bool)
  | toolDone (i : Nat) (outcome : ToolOutcome)
  /-- The row is cleared, or put back to something saved before. -/
  | restore (chatId : String) (history : List ChatMessage)
  deriving DecidableEq, Repr

def step (config : ConversationConfig) (s : ConversationHandler) : Action → Option ConversationHandler
  | .handleMessage chatId content => some (s.handleMessage chatId content)
  | .typed i ok => do
    let c ← s.calls[i]?
    match c.phase with
    | .typing => some (s.setCall i { c with phase := if ok then .chatting else .rejected })
    | _ => none
  | .answered i response written => do
    let c ← s.calls[i]?
    match c.phase, response with
    | .chatting, none => some (s.setCall i { c with phase := .rejected })
    | .chatting, some r => some (s.answered config i c r written)
    | _, _ => none
  | .toolDone i outcome => do
    let c ← s.calls[i]?
    match c.phase with
    | .running (tc :: todo) results => some (s.toolDone config i c tc todo results outcome)
    | _ => none
  | .restore chatId history => some (s.save chatId history)

inductive Shift (config : ConversationConfig) (s : ConversationHandler) :
    Action → ConversationHandler → Prop
  | handleMessage {chatId content} :
      Shift config s (.handleMessage chatId content) (s.handleMessage chatId content)
  | typed {i c} : s.calls[i]? = some c → c.phase = .typing →
      Shift config s (.typed i true) (s.setCall i { c with phase := .chatting })
  | notTyped {i c} : s.calls[i]? = some c → c.phase = .typing →
      Shift config s (.typed i false) (s.setCall i { c with phase := .rejected })
  | refused {i c written} : s.calls[i]? = some c → c.phase = .chatting →
      Shift config s (.answered i none written) (s.setCall i { c with phase := .rejected })
  | answered {i c r written} : s.calls[i]? = some c → c.phase = .chatting →
      Shift config s (.answered i (some r) written) (s.answered config i c r written)
  | toolDone {i c tc todo results outcome} : s.calls[i]? = some c →
      c.phase = .running (tc :: todo) results →
      Shift config s (.toolDone i outcome) (s.toolDone config i c tc todo results outcome)
  | restore {chatId history} : Shift config s (.restore chatId history) (s.save chatId history)

theorem shift_of_step {config : ConversationConfig} {s s' : ConversationHandler} {a : Action}
    (hs : step config s a = some s') : Shift config s a s' := by
  cases a with
  | handleMessage chatId content =>
    cases hs
    exact .handleMessage
  | typed i ok =>
    simp only [step, Option.bind_eq_bind, Option.bind_eq_some_iff] at hs
    obtain ⟨c, hi, hs⟩ := hs
    split at hs <;> cases hs
    case h_1 hphase =>
      cases ok with
      | true => exact .typed hi hphase
      | false => exact .notTyped hi hphase
  | answered i response written =>
    simp only [step, Option.bind_eq_bind, Option.bind_eq_some_iff] at hs
    obtain ⟨c, hi, hs⟩ := hs
    split at hs <;> cases hs
    case h_1 hphase => exact .refused hi hphase
    case h_2 r hphase => exact .answered hi hphase
  | toolDone i outcome =>
    simp only [step, Option.bind_eq_bind, Option.bind_eq_some_iff] at hs
    obtain ⟨c, hi, hs⟩ := hs
    split at hs <;> cases hs
    case h_1 tc todo results hphase => exact .toolDone hi hphase
  | restore chatId history =>
    cases hs
    exact .restore

end ConversationHandler

open ConversationHandler (Action)

def conversations (config : ConversationConfig) : System ConversationHandler Action where
  init := (· = {})
  step := ConversationHandler.step config

-- ---------------------------------------------------------------------------
-- What is promised
-- ---------------------------------------------------------------------------

structure ValidHistory (maxHistory : Nat) (history : List ChatMessage) : Prop where
  short : history.length ≤ maxHistory
  ends : history = [] ∨
    (∃ m ∈ history.head?, m.role = .user ∧ m.isToolResult = false) ∧
      ∃ m ∈ history.getLast?, m.role = .assistant
  alternates : history.IsChain fun a b =>
    a.role = .user ∧ b.role = .assistant ∨ a.role = .assistant ∧ b.role = .user
  paired : ∀ i m, history[i]? = some m → m.role = .user → m.isToolResult = true →
    ∃ j p, i = j + 1 ∧ history[j]? = some p ∧ p.role = .assistant ∧ p.toolUseIds = m.toolResultIds

def LoadsSaved (s : ConversationHandler) : Action → Prop
  | .restore _ history => history = [] ∨ ∃ x ∈ s.saved, x.history = history
  | _ => True

def ConversationHandler.exchangesOf (s : ConversationHandler) (chatId : String) :
    List (List ChatMessage) :=
  (s.saved.filter (·.chatId = chatId)).map Saved.exchange

/-- What is there once the exchanges went by one after the other. -/
def afterExchanges (maxHistory : Nat) (exchanges : List (List ChatMessage)) : List ChatMessage :=
  exchanges.foldl (fun history e => trimHistoryArray maxHistory (history ++ e)) []

/-- The exchange of every call that returned is in the history of its chat, as far as
trimming leaves it. -/
structure NoneLost (config : ConversationConfig) (s : ConversationHandler) : Prop where
  sequential : ∀ chatId, s.load chatId = afterExchanges config.history (s.exchangesOf chatId)
  returned : ∀ i c answer, s.calls[i]? = some c → c.phase = .returned answer →
    ∃ x ∈ s.saved, x.call = i ∧ x.chatId = c.chatId ∧
      x.exchange.head? = some (userMessage c.content) ∧
        x.exchange.getLast? = some (assistantMessage answer)

/-- A call that stores its history finds the stored one as it loaded it. -/
def Fresh (config : ConversationConfig) (s : ConversationHandler) : Action → Prop
  | .answered i (some r) true =>
    ∀ c ∈ s.calls[i]?, c.final config r = true → s.load c.chatId = c.loaded
  | .restore _ _ => False
  | _ => True

-- ---------------------------------------------------------------------------
-- Histories
-- ---------------------------------------------------------------------------

def Follows (a b : ChatMessage) : Prop :=
  a.role = .user ∧ b.role = .assistant ∨
    a.role = .assistant ∧ b.role = .user ∧ (b.isToolResult = true → a.toolUseIds = b.toolResultIds)

structure Linked (history : List ChatMessage) : Prop where
  head : ∀ m ∈ history.head?, m.role = .user ∧ m.isToolResult = false
  chain : history.IsChain Follows

structure Closed (history : List ChatMessage) : Prop extends Linked history where
  last : ∀ m ∈ history.getLast?, m.role = .assistant

section

variable {maxHistory : Nat} {history rest : List ChatMessage} {m : ChatMessage}

theorem Closed.nil : Closed [] where
  head := by simp
  chain := .nil
  last := by simp

theorem Linked.push (h : Linked history) (hm : ∀ l ∈ history.getLast?, Follows l m)
    (hhead : history = [] → m.role = .user ∧ m.isToolResult = false) : Linked (history ++ [m]) where
  head := by
    cases history with
    | nil => simpa using hhead rfl
    | cons x xs => exact h.head
  chain := by
    refine List.isChain_append.mpr ⟨h.chain, .singleton m, fun l hl x hx => ?_⟩
    obtain rfl : m = x := by simpa using hx
    exact hm l hl

/-- A cut before a plain user message leaves a history. -/
theorem Closed.suffix (h : Closed history) (hs : rest <:+ history)
    (hhead : ∀ m ∈ rest.head?, m.role = .user ∧ m.isToolResult = false) : Closed rest where
  head := hhead
  chain := by
    obtain ⟨cut, rfl⟩ := hs
    exact (List.isChain_append.mp h.chain).2.1
  last := by
    obtain ⟨cut, rfl⟩ := hs
    intro m hm
    exact h.last m (List.mem_getLast?_append_of_mem_getLast? hm)

theorem trimHistoryArray_suffix : trimHistoryArray maxHistory history <:+ history := by
  unfold trimHistoryArray
  split
  · exact List.suffix_refl _
  · exact (List.dropWhile_suffix _).trans (List.drop_suffix _ _)

theorem length_trimHistoryArray_le : (trimHistoryArray maxHistory history).length ≤ maxHistory := by
  unfold trimHistoryArray
  split
  case isTrue h => exact h
  case isFalse =>
    refine (List.dropWhile_suffix _).length_le.trans ?_
    rw [List.length_drop]
    omega

theorem trimHistoryArray_of_length_le (h : history.length ≤ maxHistory) :
    trimHistoryArray maxHistory history = history := if_pos h

theorem Closed.trim (h : Closed history) : Closed (trimHistoryArray maxHistory history) := by
  refine h.suffix trimHistoryArray_suffix fun m hm => ?_
  unfold trimHistoryArray at hm
  split at hm
  case isTrue => exact h.head m hm
  case isFalse =>
    have hstop := List.head?_dropWhile_not (fun first : ChatMessage =>
      decide (first.role ≠ .user) || first.isToolResult) (history.drop (history.length - maxHistory))
    rw [Option.mem_def.mp hm] at hstop
    simpa using hstop

theorem Closed.valid (h : Closed history) (hlen : history.length ≤ maxHistory) :
    ValidHistory maxHistory history where
  short := hlen
  ends := by
    cases history with
    | nil => exact .inl rfl
    | cons x xs =>
      refine .inr ⟨⟨x, rfl, h.head x rfl⟩, ?_⟩
      have hlast := List.getLast?_eq_some_getLast (List.cons_ne_nil x xs)
      exact ⟨_, hlast, h.last _ hlast⟩
  alternates := h.chain.imp fun a b hab => hab.imp_right fun ⟨ha, hb, _⟩ => ⟨ha, hb⟩
  paired := by
    intro i m hi hrole hresult
    cases i with
    | zero =>
      have hhead := h.head m (by rwa [List.head?_eq_getElem?])
      rw [hresult] at hhead
      exact absurd hhead.2 (by decide)
    | succ j =>
      have hlt := (List.getElem?_eq_some_iff.mp hi).1
      have hjlt : j < history.length := by omega
      have hj : history[j]? = some history[j] := List.getElem?_eq_getElem hjlt
      obtain ⟨-, hb⟩ | ⟨ha, hb, hids⟩ := List.isChain_iff_getElem.mp h.chain j hlt
      · rw [List.getElem?_eq_getElem hlt, Option.some.injEq] at hi
        rw [hi, hrole] at hb
        cases hb
      · rw [List.getElem?_eq_getElem hlt, Option.some.injEq] at hi
        rw [hi] at hids
        exact ⟨j, _, rfl, hj, ha, hids hresult⟩

end

-- ---------------------------------------------------------------------------
-- Valid histories only
-- ---------------------------------------------------------------------------

def Call.Ready (c : Call) : Prop :=
  match c.phase with
  | .typing | .chatting => Linked c.history ∧ ∃ l ∈ c.history.getLast?, l.role = .user
  | .running todo results => Linked c.history ∧ ∃ l ∈ c.history.getLast?, l.role = .assistant ∧
      l.toolUseIds = (toolResultMessage results).toolResultIds ++ todo.map ToolCall.id
  | .returned _ | .rejected => True

structure Wellformed (config : ConversationConfig) (s : ConversationHandler) : Prop where
  stored : ∀ chatId, Closed (s.load chatId)
  saved : ∀ x ∈ s.saved, Closed x.history ∧ x.history.length ≤ config.history
  calls : ∀ c ∈ s.calls, c.Ready

section

variable {config : ConversationConfig} {s s' : ConversationHandler} {a : Action} {c c' : Call} {i : Nat}
  {history : List ChatMessage}

theorem load_save (chatId other : String) (history : List ChatMessage) :
    (s.save chatId history).load other = if other = chatId then history else s.load other := by
  simp only [ConversationHandler.load, ConversationHandler.save, Table.find?_put]
  split <;> rfl

theorem Wellformed.start : Wellformed config {} where
  stored := fun _ => .nil
  saved := by simp
  calls := by simp

theorem Wellformed.setCall (h : Wellformed config s) (i : Nat) (hc : c.Ready) :
    Wellformed config (s.setCall i c) where
  stored := h.stored
  saved := h.saved
  calls := by
    intro d hd
    rcases List.mem_or_eq_of_mem_set hd with hd | rfl
    · exact h.calls d hd
    · exact hc

theorem Wellformed.save (h : Wellformed config s) (chatId : String) (hc : Closed history) :
    Wellformed config (s.save chatId history) where
  stored := by
    intro other
    rw [load_save]
    split
    · exact hc
    · exact h.stored other
  saved := h.saved
  calls := h.calls

theorem Linked.push_user (h : Closed history) (content : JsString) :
    Linked (history ++ [userMessage content]) :=
  h.toLinked.push (fun l hl => .inr ⟨h.last l hl, rfl, fun hr => by cases hr⟩) fun _ => ⟨rfl, rfl⟩

theorem Wellformed.handleMessage (h : Wellformed config s) (chatId : String) (content : JsString) :
    Wellformed config (s.handleMessage chatId content) where
  stored := h.stored
  saved := h.saved
  calls := by
    intro d hd
    rcases List.mem_append.mp hd with hd | hd
    · exact h.calls d hd
    · obtain rfl := List.mem_singleton.mp hd
      exact ⟨.push_user (h.stored chatId) content, userMessage content, by simp, rfl⟩

theorem Linked.push_assistant (h : Linked history) (hlast : ∃ l ∈ history.getLast?, l.role = .user)
    (content : Content) : Linked (history ++ [⟨.assistant, content⟩]) := by
  obtain ⟨l, hl, hrole⟩ := hlast
  refine h.push (fun x hx => ?_) fun hnil => ?_
  · obtain rfl := Option.mem_unique hl hx
    exact .inl ⟨hrole, rfl⟩
  · rw [hnil] at hl
    cases hl

theorem toolUseIds_toolUseMessage (r : ChatResponse) :
    (toolUseMessage r).toolUseIds = r.toolCalls.map ToolCall.id := by
  have hcalls : ∀ calls : List ToolCall,
      (calls.map fun tc => ContentBlock.toolUse tc.id tc.name tc.input).filterMap
        ContentBlock.toolUseId? = calls.map ToolCall.id := by
    intro calls
    induction calls with
    | nil => rfl
    | cons tc calls ih => simpa [ContentBlock.toolUseId?] using ih
  rw [ChatMessage.toolUseIds, toolUseMessage, Content.blockList, List.filterMap_append, hcalls]
  split <;> rfl

theorem Wellformed.answered {r : ChatResponse} (h : Wellformed config s)
    (hi : s.calls[i]? = some c) (hphase : c.phase = .chatting) (written : Bool) :
    Wellformed config (s.answered config i c r written) := by
  have hready := h.calls c (List.mem_of_getElem? hi)
  rw [Call.Ready, hphase] at hready
  obtain ⟨hlinked, hlast⟩ := hready
  unfold ConversationHandler.answered
  split
  case isTrue =>
    have hclosed : Closed (trimHistoryArray config.history (c.history ++ [assistantMessage r.content])) :=
      Closed.trim { hlinked.push_assistant hlast _ with
        last := by
          intro m hm
          obtain rfl : assistantMessage r.content = m := by simpa using hm
          rfl }
    dsimp only
    split
    case isTrue => exact h.setCall i trivial
    case isFalse =>
      have hset : Wellformed config ((s.save c.chatId (trimHistoryArray config.history
          (c.history ++ [assistantMessage r.content]))).setCall i
            { c with phase := .returned r.content }) := (h.save c.chatId hclosed).setCall i trivial
      refine ⟨hset.stored, fun x hx => ?_, hset.calls⟩
      rcases List.mem_append.mp hx with hx | hx
      · exact h.saved x hx
      · obtain rfl := List.mem_singleton.mp hx
        exact ⟨hclosed, length_trimHistoryArray_le⟩
  case isFalse =>
    refine h.setCall i ⟨hlinked.push_assistant hlast _, toolUseMessage r, by simp, rfl, ?_⟩
    rw [toolUseIds_toolUseMessage]
    rfl

theorem toolResultIds_concat (results : List ContentBlock) (id content : JsString) :
    (toolResultMessage (results ++ [.toolResult id content])).toolResultIds =
      (toolResultMessage results).toolResultIds ++ [id] := by
  simp [ChatMessage.toolResultIds, toolResultMessage, Content.blockList, ContentBlock.toolResultId?]

theorem Wellformed.toolDone {tc : ToolCall} {todo : List ToolCall} {results : List ContentBlock}
    (h : Wellformed config s) (hi : s.calls[i]? = some c)
    (hphase : c.phase = .running (tc :: todo) results) (outcome : ToolOutcome) :
    Wellformed config (s.toolDone config i c tc todo results outcome) := by
  have hready := h.calls c (List.mem_of_getElem? hi)
  rw [Call.Ready, hphase] at hready
  obtain ⟨hlinked, l, hl, hrole, hids⟩ := hready
  unfold ConversationHandler.toolDone
  split
  case h_1 => exact h.setCall i trivial
  case h_2 result _ =>
    -- the results so far and the tools to come make up the ids asked for
    have hids' : l.toolUseIds = (toolResultMessage (results ++
        [.toolResult tc.id (truncateResult result)])).toolResultIds ++ todo.map ToolCall.id := by
      rw [toolResultIds_concat, List.append_assoc, hids]
      rfl
    dsimp only
    split
    case isTrue hdone =>
      rw [List.isEmpty_iff.mp hdone, List.map_nil, List.append_nil] at hids'
      refine h.setCall i ⟨hlinked.push (fun x hx => ?_) fun hnil => ?_,
        toolResultMessage (results ++ [.toolResult tc.id (truncateResult result)]), by simp, rfl⟩
      · obtain rfl := Option.mem_unique hl hx
        exact .inr ⟨hrole, rfl, fun _ => hids'⟩
      · rw [hnil] at hl
        cases hl
    case isFalse => exact h.setCall i ⟨hlinked, l, hl, hrole, hids'⟩

theorem Wellformed.step (h : Wellformed config s) (hg : LoadsSaved s a)
    (hs : ConversationHandler.step config s a = some s') : Wellformed config s' := by
  cases ConversationHandler.shift_of_step hs with
  | handleMessage => exact h.handleMessage _ _
  | typed hi hphase =>
    have hready := h.calls _ (List.mem_of_getElem? hi)
    rw [Call.Ready, hphase] at hready
    exact h.setCall _ hready
  | notTyped => exact h.setCall _ trivial
  | refused => exact h.setCall _ trivial
  | answered hi hphase => exact h.answered hi hphase _
  | toolDone hi hphase => exact h.toolDone hi hphase _
  | restore =>
    refine h.save _ ?_
    rcases hg with rfl | ⟨x, hx, rfl⟩
    · exact .nil
    · exact (h.saved x hx).1

end

/-- In every run, whatever overlaps and whatever the model answers. -/
theorem validHistory_of_saved {config : ConversationConfig} {s : ConversationHandler}
    (h : (conversations config).Reach LoadsSaved s) {x : Saved} (hx : x ∈ s.saved) :
    ValidHistory config.history x.history := by
  have hinv : Wellformed config s := h.invariant
    (fun s hi => by cases (show s = {} from hi); exact .start)
    fun s a s' _ hinv hg hs => Wellformed.step hinv hg hs
  obtain ⟨hclosed, hlen⟩ := hinv.saved x hx
  exact hclosed.valid hlen

instance (s : ConversationHandler) : ∀ a, Decidable (LoadsSaved s a)
  | .restore _ _ => inferInstanceAs (Decidable (_ ∨ ∃ x ∈ s.saved, _))
  | .handleMessage _ _ | .typed _ _ | .answered _ _ _ | .toolDone _ _ => .isTrue trivial

def oneTool : ConversationConfig := { tools := [Lib.Utf16.ofText "cluster_status"] }

def hello : JsString := Lib.Utf16.ofText "hello"

def bye : JsString := Lib.Utf16.ofText "bye"

theorem validHistory_with_tool : ∃ s, (conversations oneTool).Reach LoadsSaved s ∧
    ∃ x ∈ s.saved, x.history.length = 4 ∧ ValidHistory 20 x.history := by
  obtain ⟨s, hs, x, hx, hlen⟩ := System.Reach.replay (M := conversations oneTool)
    (G := LoadsSaved) (P := fun s => ∃ x ∈ s.saved, x.history.length = 4) rfl
    [.handleMessage "c" hello, .typed 0 true,
      .answered 0 (some ⟨[], [⟨hello, Lib.Utf16.ofText "cluster_status", []⟩]⟩) true,
      .toolDone 0 (.resolved (some hello)), .answered 0 (some ⟨hello, []⟩) true] (by decide +kernel)
  exact ⟨s, hs, x, hx, hlen, validHistory_of_saved hs hx⟩

-- ---------------------------------------------------------------------------
-- Exchanges
-- ---------------------------------------------------------------------------

theorem afterExchanges_concat (maxHistory : Nat) (exchanges : List (List ChatMessage))
    (e : List ChatMessage) :
    afterExchanges maxHistory (exchanges ++ [e]) =
      trimHistoryArray maxHistory (afterExchanges maxHistory exchanges ++ e) := by
  rw [afterExchanges, List.foldl_append]
  rfl

theorem afterExchanges_of_length_le {maxHistory : Nat} {exchanges : List (List ChatMessage)}
    (h : exchanges.flatten.length ≤ maxHistory) :
    afterExchanges maxHistory exchanges = exchanges.flatten := by
  induction exchanges using List.reverseRecOn with
  | nil => rfl
  | append_singleton exchanges e ih =>
    rw [List.flatten_append, List.flatten_singleton, List.length_append] at h
    rw [afterExchanges_concat, ih (by omega), List.flatten_append, List.flatten_singleton]
    exact trimHistoryArray_of_length_le (by rw [List.length_append]; exact h)

def Call.Grown (c : Call) : Prop :=
  match c.phase with
  | .typing | .chatting | .running _ _ => ∃ rest, c.history = c.loaded ++ userMessage c.content :: rest
  | .returned _ | .rejected => True

structure Accumulated (config : ConversationConfig) (s : ConversationHandler) : Prop
    extends NoneLost config s where
  calls : ∀ c ∈ s.calls, c.Grown

section

variable {config : ConversationConfig} {s s' : ConversationHandler} {a : Action} {c c' : Call} {i : Nat}

theorem Accumulated.start : Accumulated config {} where
  sequential := fun _ => rfl
  returned := by simp
  calls := by simp

theorem Accumulated.setCall (h : Accumulated config s) (i : Nat) (hc : c.Grown)
    (hphase : ∀ answer, c.phase ≠ .returned answer) : Accumulated config (s.setCall i c) where
  sequential := h.sequential
  returned := by
    intro j d answer hj hd
    rcases Lib.getElem?_set_cases hj with ⟨-, rfl⟩ | ⟨-, hj⟩
    · exact absurd hd (hphase answer)
    · exact h.returned j d answer hj hd
  calls := by
    intro d hd
    rcases List.mem_or_eq_of_mem_set hd with hd | rfl
    · exact h.calls d hd
    · exact hc

theorem Accumulated.handleMessage (h : Accumulated config s) (chatId : String) (content : JsString) :
    Accumulated config (s.handleMessage chatId content) where
  sequential := h.sequential
  returned := by
    intro j d answer hj hd
    rcases Lib.getElem?_concat_cases hj with hj | ⟨-, rfl⟩
    · exact h.returned j d answer hj hd
    · cases hd
  calls := by
    intro d hd
    rcases List.mem_append.mp hd with hd | hd
    · exact h.calls d hd
    · obtain rfl := List.mem_singleton.mp hd
      exact ⟨[], rfl⟩

theorem head?_exchange {rest : List ChatMessage} (h : c.history = c.loaded ++ userMessage c.content :: rest)
    (answer : JsString) : (c.exchange answer).head? = some (userMessage c.content) := by
  rw [Call.exchange, h, List.drop_left]
  rfl

theorem getLast?_exchange (answer : JsString) :
    (c.exchange answer).getLast? = some (assistantMessage answer) := by
  rw [Call.exchange, List.getLast?_concat]

/-- What a call stores is what it found with its exchange behind. -/
theorem Accumulated.save (h : Accumulated config s) {answer : JsString}
    (hgrown : ∃ rest, c.history = c.loaded ++ userMessage c.content :: rest)
    (hfresh : s.load c.chatId = c.loaded) :
    let history := trimHistoryArray config.history (c.history ++ [assistantMessage answer])
    Accumulated config { (s.save c.chatId history).setCall i { c with phase := .returned answer } with
      saved := s.saved ++ [⟨i, c.chatId, history, c.exchange answer⟩] } := by
  intro history
  obtain ⟨rest, hrest⟩ := hgrown
  refine ⟨⟨fun chatId => ?_, fun j d reply hj hd => ?_⟩, fun d hd => ?_⟩
  · have hload : (s.save c.chatId history).load chatId = if chatId = c.chatId then history
        else s.load chatId := load_save ..
    refine hload.trans ?_
    have hold := h.sequential chatId
    simp only [ConversationHandler.exchangesOf, List.filter_append, List.map_append] at hold ⊢
    split
    case isTrue hchat =>
      subst hchat
      have hexchange : c.loaded ++ c.exchange answer = c.history ++ [assistantMessage answer] := by
        rw [Call.exchange, hrest, List.drop_left, ← List.append_assoc]
      rw [List.filter_cons_of_pos (by simp), List.filter_nil, List.map_singleton,
        afterExchanges_concat, ← hold, hfresh, hexchange]
    case isFalse hchat =>
      rw [List.filter_cons_of_neg (by simpa using Ne.symm hchat), List.filter_nil, List.map_nil,
        List.append_nil]
      exact hold
  · rcases Lib.getElem?_set_cases hj with ⟨hij, rfl⟩ | ⟨-, hj⟩
    · cases hd
      exact ⟨_, List.mem_append_right _ (List.mem_singleton_self _), hij, rfl,
        head?_exchange hrest answer, getLast?_exchange answer⟩
    · obtain ⟨x, hx, hrest⟩ := h.returned j d reply hj hd
      exact ⟨x, List.mem_append_left _ hx, hrest⟩
  · rcases List.mem_or_eq_of_mem_set hd with hd | rfl
    · exact h.calls d hd
    · exact trivial

theorem Accumulated.answered {r : ChatResponse} {written : Bool} (h : Accumulated config s)
    (hg : Fresh config s (.answered i (some r) written)) (hi : s.calls[i]? = some c)
    (hphase : c.phase = .chatting) : Accumulated config (s.answered config i c r written) := by
  have hgrown := h.calls c (List.mem_of_getElem? hi)
  rw [Call.Grown, hphase] at hgrown
  unfold ConversationHandler.answered
  split
  case isTrue hfinal =>
    cases written with
    | true => exact h.save hgrown (hg c hi hfinal)
    | false => exact h.setCall i trivial (by simp)
  case isFalse =>
    obtain ⟨rest, hrest⟩ := hgrown
    refine h.setCall i ⟨rest ++ [toolUseMessage r], ?_⟩ (by simp)
    rw [hrest, List.append_assoc]
    rfl

theorem Accumulated.toolDone {tc : ToolCall} {todo : List ToolCall} {results : List ContentBlock}
    (h : Accumulated config s) (hi : s.calls[i]? = some c)
    (hphase : c.phase = .running (tc :: todo) results) (outcome : ToolOutcome) :
    Accumulated config (s.toolDone config i c tc todo results outcome) := by
  have hgrown := h.calls c (List.mem_of_getElem? hi)
  rw [Call.Grown, hphase] at hgrown
  obtain ⟨rest, hrest⟩ := hgrown
  unfold ConversationHandler.toolDone
  split
  case h_1 => exact h.setCall i trivial (by simp)
  case h_2 result _ =>
    dsimp only
    split
    case isTrue =>
      refine h.setCall i ⟨rest ++ [toolResultMessage (results ++
        [.toolResult tc.id (truncateResult result)])], ?_⟩ (by simp)
      rw [hrest, List.append_assoc]
      rfl
    case isFalse => exact h.setCall i ⟨rest, hrest⟩ (by simp)

theorem Accumulated.step (h : Accumulated config s) (hg : Fresh config s a)
    (hs : ConversationHandler.step config s a = some s') : Accumulated config s' := by
  cases ConversationHandler.shift_of_step hs with
  | handleMessage => exact h.handleMessage _ _
  | typed hi hphase =>
    have hgrown := h.calls _ (List.mem_of_getElem? hi)
    rw [Call.Grown, hphase] at hgrown
    exact h.setCall _ hgrown (by simp)
  | notTyped => exact h.setCall _ trivial (by simp)
  | refused => exact h.setCall _ trivial (by simp)
  | answered hi hphase => exact h.answered hg hi hphase
  | toolDone hi hphase => exact h.toolDone hi hphase _
  | restore => exact hg.elim

end

/-- In every run whose calls find what they left. -/
theorem noneLost_of_fresh {config : ConversationConfig} {s : ConversationHandler}
    (h : (conversations config).Reach (Fresh config) s) : NoneLost config s := by
  have hinv : Accumulated config s := h.invariant
    (fun s hi => by cases (show s = {} from hi); exact .start)
    fun s a s' _ hinv hg hs => Accumulated.step hinv hg hs
  exact hinv.toNoneLost

theorem NoneLost.whole {config : ConversationConfig} {s : ConversationHandler}
    (h : NoneLost config s) {chatId : String}
    (hlen : (s.exchangesOf chatId).flatten.length ≤ config.history) :
    s.load chatId = (s.exchangesOf chatId).flatten := by
  rw [h.sequential chatId, afterExchanges_of_length_le hlen]

instance (config : ConversationConfig) (s : ConversationHandler) : ∀ a, Decidable (Fresh config s a)
  | .answered i (some r) true => inferInstanceAs (Decidable (∀ c ∈ s.calls[i]?,
      c.final config r = true → s.load c.chatId = c.loaded))
  | .restore _ _ => .isFalse id
  | .handleMessage _ _ | .typed _ _ | .answered _ none _ | .answered _ (some _) false
  | .toolDone _ _ => .isTrue trivial

theorem noneLost_in_turn : ∃ s, (conversations {}).Reach (Fresh {}) s ∧
    (s.load "c").length = 4 ∧ NoneLost {} s := by
  obtain ⟨s, hs, hlen⟩ := System.Reach.replay (M := conversations {}) (G := Fresh {})
    (P := fun s => (s.load "c").length = 4) rfl
    [.handleMessage "c" hello, .typed 0 true, .answered 0 (some ⟨hello, []⟩) true,
      .handleMessage "c" hello, .typed 1 true, .answered 1 (some ⟨hello, []⟩) true]
    (by decide +kernel)
  exact ⟨s, hs, hlen, noneLost_of_fresh hs⟩

/-- Two messages at a time: both are answered, and the first is not in the history. -/
theorem not_noneLost : ∃ s, (conversations {}).Reach (fun _ _ => True) s ∧
    s.calls.map Call.phase = [.returned hello, .returned bye] ∧
      s.load "c" = [userMessage bye, assistantMessage bye] ∧ ¬ NoneLost {} s := by
  obtain ⟨s, hs, hphase, hload, hlen⟩ := System.Reach.replay (M := conversations {})
    (G := fun _ _ => True)
    (P := fun s => s.calls.map Call.phase = [.returned hello, .returned bye] ∧
      s.load "c" = [userMessage bye, assistantMessage bye] ∧
        (s.exchangesOf "c").flatten.length = 4) rfl
    [.handleMessage "c" hello, .typed 0 true, .handleMessage "c" bye, .typed 1 true,
      .answered 0 (some ⟨hello, []⟩) true, .answered 1 (some ⟨bye, []⟩) true] (by decide +kernel)
  refine ⟨s, hs, hphase, hload, fun h => ?_⟩
  have hwhole := congrArg List.length (@NoneLost.whole _ _ h "c" (by rw [hlen]; decide))
  rw [hload, hlen] at hwhole
  exact absurd hwhole (by decide)

end ClaudeCluster.Messaging
