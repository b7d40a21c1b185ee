import Mathlib.Data.List.ReduceOption
import ClaudeCluster.Lib.JsonParser
import ClaudeCluster.Lib.Utf8
import ClaudeCluster.Memory.Forwarding

/-!
# Checksums through JSON

`Platform` leaves `JSON` open, and takes the parameters of a statement for their
text. Here they are values, and `JSON` and the encoding of a `Buffer` are in
their places (`platform`); only `sha256` is any function.

The checksum is taken of the text of the parameters before they are encoded.
The replicas take it of the parameters an entry brings, the leader of those a
request brings, and both have become other values on the way. They are written
as the same text (`checksums_accepted`).
-/

namespace ClaudeCluster.Memory.Runtime

open Lib (JsValue JsString Utf16.ofText Utf16.toText)
open Lib.Json (Member)
open Raft (RaftNode Buffer LogEntry)

-- ---------------------------------------------------------------------------
-- Objects
-- ---------------------------------------------------------------------------

/-- `JSON.stringify(value)`, where it is appended to a string. -/
def jsonText (v : JsValue) : String :=
  match Lib.Json.stringify v with
  | some text => .ofList text
  | none => "undefined"

/-- `value[key]`, for own properties. -/
def property (v : JsValue) (key : String) : JsValue :=
  match v with
  | .object assignments =>
    ((Lib.Json.properties assignments).lookup (Utf16.ofText key)).getD .undefined
  | _ => .undefined

def textOr (text : Option String) : JsValue :=
  match text with
  | some text => .string (Utf16.ofText text)
  | none => .undefined

/-- `{ sql, params, checksum, classification, table }` -/
def entryObject (sql : String) (params : JsValue) (checksum : String)
    (classification table : Option String) : JsValue :=
  .object [
    (Utf16.ofText "sql", .string (Utf16.ofText sql)),
    (Utf16.ofText "params", params),
    (Utf16.ofText "checksum", .string (Utf16.ofText checksum)),
    (Utf16.ofText "classification", textOr classification),
    (Utf16.ofText "table", textOr table)]

/-- `Buffer.from(JSON.stringify(value))`; `none` where it throws. -/
def bufferOf (v : JsValue) : Option Buffer := (Lib.Json.stringify v).map Lib.Utf8.encode

-- ---------------------------------------------------------------------------
-- The write path
-- ---------------------------------------------------------------------------

structure WriteCall where
  sql : String
  params : List JsValue
  checksum : String
  classification : Option Classification
  table : Option String

def write (sha256 : String → String) (sql : String) (params : List JsValue)
    (classification : Option Classification) (table : Option String) : WriteCall where
  sql := sql
  params := params
  checksum := sha256 (sql ++ jsonText (.array params))
  classification := classification
  table := table

def writeAsLeader (call : WriteCall) : Option Buffer :=
  bufferOf (entryObject call.sql (.array call.params) call.checksum
    (call.classification.map Classification.name) call.table)

def forwardToLeader (call : WriteCall) : MemoryWriteRequest where
  sql := call.sql
  params := jsonText (.array call.params)
  checksum := call.checksum
  classification := (call.classification.map Classification.name).getD ""
  table := call.table.getD ""

def orUndefined (value : String) : Option String := if value = "" then none else some value

/-- The `ForwardMemoryWrite` handler up to its `await`: an answer at once, or
the data it appends; `none` where it throws. -/
def forwardMemoryWrite (sha256 : String → String) (request : MemoryWriteRequest) (n : RaftNode) :
    Option (Except MemoryWriteResponse Buffer) :=
  if n.state ≠ .leader then some (.error ⟨false, "Not the leader"⟩)
  else
    (Lib.Json.parse (if request.params = "" then "[]" else request.params).toList).bind
      fun params =>
        if request.checksum ≠ sha256 (request.sql ++ jsonText params) then
          some (.error ⟨false, "Checksum verification failed"⟩)
        else
          (bufferOf (entryObject request.sql params request.checksum
            (orUndefined request.classification) (orUndefined request.table))).map .ok

-- ---------------------------------------------------------------------------
-- The platform
-- ---------------------------------------------------------------------------

/-- What `handleCommittedEntry` takes from the object. Where `sql` is no string
`db.prepare` throws, and a `checksum` that is none, or has a surrogate of its
own, is not that of anything. -/
def payload? (v : JsValue) : Option Payload :=
  match property v "sql", property v "checksum" with
  | .string sql, .string checksum =>
    (Lib.Utf16.text? checksum).map fun checksum => {
      sql := Utf16.toText sql
      params := jsonText (property v "params")
      checksum := checksum
      classification :=
        match property v "classification" with
        | .string name => Classification.ofName (Utf16.toText name)
        | _ => none
      table :=
        match property v "table" with
        | .string name => some (Utf16.toText name)
        | _ => none }
  | _, _ => none

def platform (sha256 : String → String) : Platform where
  parse data := (Lib.Json.parse (Lib.Utf8.decode data)).bind payload?
  sha256 := sha256

-- ---------------------------------------------------------------------------
-- Payloads
-- ---------------------------------------------------------------------------

theorem unicodeEscape_of_lt : ∀ code < 0x20, Lib.Json.unicodeEscape code =
    ['\\', 'u', '0', '0', Nat.digitChar (code / 16), Nat.digitChar (code % 16)] := by
  decide

theorem escape_char (c : Char) : Lib.Json.escape (.char c) = escape c := by
  by_cases hspecial : c.toNat ∈ [0x08, 0x09, 0x0a, 0x0c, 0x0d, 0x22, 0x5c]
  · simp only [List.mem_cons, List.not_mem_nil, or_false] at hspecial
    rcases hspecial with h | h | h | h | h | h | h <;> simp [Lib.Json.escape, escape, h]
  · have hjson : Lib.Json.escape (.char c) =
        if c.toNat < 0x20 then Lib.Json.unicodeEscape c.toNat else [c] := by
      unfold Lib.Json.escape
      dsimp only
      split <;> simp_all
    have hescape : escape c =
        if c.toNat < 0x20 then
          ['\\', 'u', '0', '0', Nat.digitChar (c.toNat / 16), Nat.digitChar (c.toNat % 16)]
        else [c] := by
      unfold escape
      split <;> simp_all
    rw [hjson, hescape]
    split
    case isTrue h => exact unicodeEscape_of_lt _ h
    case isFalse => rfl

theorem quote_ofText (text : String) : Lib.Json.quote (Utf16.ofText text) = quote text := by
  have hescape : (fun c => Lib.Json.escape (.char c)) = escape := funext escape_char
  rw [Lib.Json.quote, Utf16.ofText, Lib.Utf16.points_flatMap, List.flatMap_map, hescape]
  rfl

def textMember (key text : String) : Member :=
  ⟨Utf16.ofText key, Lib.Json.quote (Utf16.ofText text), .string (Utf16.ofText text)⟩

/-- The properties of the object a payload stands for, with `v` for the parameters. -/
def members (payload : Payload) (v : JsValue) : List Member :=
  [some (textMember "sql" payload.sql),
    some ⟨Utf16.ofText "params", payload.params.toList, v⟩,
    some (textMember "checksum" payload.checksum),
    payload.classification.map fun c => textMember "classification" c.name,
    payload.table.map fun t => textMember "table" t].reduceOption

section
variable (payload : Payload) (v : JsValue)

theorem stringify_eq : payload.stringify =
    Lib.Utf8.encode (Lib.Json.enclose '\x7b' '\x7d' ((members payload v).map Member.line)) := by
  have hline : ∀ key text, (textMember key text).line = field key (quote text) := by
    intro key text
    rw [Member.line, textMember, quote_ofText, quote_ofText, field]
  have hparams : (Member.mk (Utf16.ofText "params") payload.params.toList v).line =
      field "params" payload.params.toList := by
    rw [Member.line, quote_ofText, field]
  rw [members, ← List.reduceOption_map]
  simp only [List.map_cons, List.map_nil, Option.map_some, Option.map_map, Function.comp_def, hline,
    hparams]
  rfl

theorem names_ordered : (["sql", "params", "checksum", "classification", "table"].map
    Utf16.ofText).Pairwise Lib.Json.Before :=
  Lib.Json.ordered_of_names (by decide) (by decide)

theorem members_ordered : ((members payload v).map Member.key).Pairwise Lib.Json.Before := by
  refine names_ordered.sublist ?_
  obtain ⟨sql, params, checksum, classification, table⟩ := payload
  cases classification <;> cases table <;>
    simp only [members, textMember, Option.map_some, Option.map_none,
      List.reduceOption_cons_of_some, List.reduceOption_cons_of_none, List.reduceOption_nil,
      List.map_cons, List.map_nil] <;>
    decide

theorem written_members (h : Lib.Json.Written payload.params.toList v) :
    ∀ m ∈ members payload v, Lib.Json.Written m.text m.value := by
  have htext : ∀ key text, Lib.Json.Written (textMember key text).text (textMember key text).value :=
    fun _ text => Lib.Json.written_string _
  intro m hm
  simp only [members, List.reduceOption_mem_iff, List.mem_cons, List.not_mem_nil, or_false,
    Option.some_inj] at hm
  rcases hm with rfl | rfl | rfl | hm | hm
  · exact htext _ _
  · exact h
  · exact htext _ _
  · obtain ⟨c, _, rfl⟩ := Option.map_eq_some_iff.mp hm.symm
    exact htext _ _
  · obtain ⟨t, _, rfl⟩ := Option.map_eq_some_iff.mp hm.symm
    exact htext _ _

theorem lookup_members :
    let own := (members payload v).map Member.property
    own.lookup (Utf16.ofText "sql") = some (.string (Utf16.ofText payload.sql)) ∧
      own.lookup (Utf16.ofText "params") = some v ∧
      own.lookup (Utf16.ofText "checksum") = some (.string (Utf16.ofText payload.checksum)) ∧
      own.lookup (Utf16.ofText "classification") =
        payload.classification.map (fun c => .string (Utf16.ofText c.name)) ∧
      own.lookup (Utf16.ofText "table") = payload.table.map (fun t => .string (Utf16.ofText t)) := by
  obtain ⟨sql, params, checksum, classification, table⟩ := payload
  cases classification <;> cases table <;> exact ⟨rfl, rfl, rfl, rfl, rfl⟩

theorem payload?_members (h : jsonText v = payload.params) :
    payload? (.object ((members payload v).map Member.property)) = some payload := by
  have hproperty : ∀ key, property (.object ((members payload v).map Member.property)) key =
      (((members payload v).map Member.property).lookup (Utf16.ofText key)).getD .undefined := by
    intro key
    have hkeys := members_ordered payload v
    have hmap : (members payload v).map Member.key =
        ((members payload v).map Member.property).map Prod.fst := by
      rw [List.map_map]
      rfl
    rw [property, Lib.Json.properties_of_ordered (hmap ▸ hkeys)]
  have hname : ∀ c : Classification, Classification.ofName c.name = some c := by
    intro c
    cases c <;> decide
  obtain ⟨hsql, hparams, hchecksum, hclassification, htable⟩ := lookup_members payload v
  unfold payload?
  simp only [hproperty, hsql, hparams, hchecksum, hclassification, htable, Option.getD_some, h,
    Lib.Utf16.text?_ofText, Lib.Utf16.toText_ofText, Option.map_some]
  obtain ⟨sql, params, checksum, classification, table⟩ := payload
  cases classification <;> cases table <;> simp [hname, Lib.Utf16.toText_ofText]

theorem bufferOf_entryObject (h : Lib.Json.stringify v = some payload.params.toList) :
    bufferOf (entryObject payload.sql v payload.checksum
      (payload.classification.map Classification.name) payload.table) =
        some payload.stringify := by
  have hordered : ((Lib.Json.assignmentTexts [
      (Utf16.ofText "sql", .string (Utf16.ofText payload.sql)),
      (Utf16.ofText "params", v),
      (Utf16.ofText "checksum", .string (Utf16.ofText payload.checksum)),
      (Utf16.ofText "classification", textOr (payload.classification.map Classification.name)),
      (Utf16.ofText "table", textOr payload.table)]).map Prod.fst).Pairwise Lib.Json.Before := by
    rw [Lib.Json.assignmentTexts_keys]
    exact names_ordered
  rw [bufferOf, entryObject, Lib.Json.stringify, Lib.Json.properties_of_ordered hordered,
    stringify_eq payload v, Option.map_some]
  congr 3
  obtain ⟨sql, params, checksum, classification, table⟩ := payload
  cases classification <;> cases table <;>
    simp only [Lib.Json.assignmentTexts, h, textOr, Option.map_some, Option.map_none] <;>
    rfl

end

-- ---------------------------------------------------------------------------
-- Acceptance
-- ---------------------------------------------------------------------------

def IsJson (text : Json) : Prop := ∃ v, Lib.Json.stringify v = some text.toList

theorem jsonText_eq {v : JsValue} {text : Json} (h : Lib.Json.stringify v = some text.toList) :
    jsonText v = text := by
  rw [jsonText, h]
  exact String.ofList_toList

theorem isJson_array (params : List JsValue) : IsJson (jsonText (.array params)) :=
  ⟨.array params, by rw [jsonText, Lib.Json.stringify, String.toList_ofList]⟩

theorem IsJson.ne_empty {text : Json} (h : IsJson text) : text ≠ "" := by
  rintro rfl
  obtain ⟨v, hv⟩ := h
  obtain ⟨w, hw⟩ := Lib.Json.written_stringify v _ hv
  obtain ⟨c, cs, hcs, _⟩ := hw.starts
  exact absurd hcs (by simp)

theorem IsJson.parse {text : Json} (h : IsJson text) :
    ∃ w, Lib.Json.parse text.toList = some w ∧ Lib.Json.stringify w = some text.toList := by
  obtain ⟨v, hv⟩ := h
  exact Lib.Json.parse_stringify hv

section
variable (sha256 : String → String) {payload : Payload}

theorem platform_parse (h : IsJson payload.params) :
    (platform sha256).parse payload.stringify = some payload := by
  obtain ⟨v, hv⟩ := h
  obtain ⟨w, hw⟩ := Lib.Json.written_stringify v _ hv
  have hobject := Lib.Json.written_object (written_members payload w hw) (members_ordered payload w)
  rw [stringify_eq payload w, platform]
  dsimp only
  rw [Lib.Utf8.decode_encode, hobject.parse, Option.bind_some]
  exact payload?_members payload w (jsonText_eq hw.stringify)

theorem committedStatement_payload (h : IsJson payload.params)
    (hchecksum : payload.checksum = sha256 (payload.sql ++ payload.params)) (term index : Nat) :
    committedStatement (platform sha256) ⟨term, index, .memoryWrite, payload.stringify⟩ =
      some ⟨payload.sql, payload.params⟩ := by
  rw [committedStatement, if_neg (not_not_intro rfl), platform_parse sha256 h, Option.bind_some]
  exact if_neg (not_not_intro hchecksum)

end

theorem orUndefined_name (classification : Option Classification) :
    orUndefined ((classification.map Classification.name).getD "") =
      (Classification.ofName ((classification.map Classification.name).getD "")).map
        Classification.name := by
  rcases classification with _ | _ | _ | _ <;> decide

def WriteCall.payload (call : WriteCall) : Payload where
  sql := call.sql
  params := jsonText (.array call.params)
  checksum := call.checksum
  classification := call.classification
  table := call.table

section
variable (sha256 : String → String) (call : WriteCall)

/-- A call of `Memory.write` that is not run here has the payload of this one. -/
theorem write_eq {S : Sqlite} {a : Ambient} {sql : String} {params : List JsValue}
    {options : WriteOptions} {db : Database} (h : classify db options ≠ .localTier) :
    Memory.write (platform sha256) S a ⟨sql, jsonText (.array params)⟩ options db =
      .raft (write sha256 sql params (some (classify db options)) options.table).payload :=
  if_neg h

theorem writeAsLeader_eq : writeAsLeader call = some call.payload.stringify := by
  have hparams : Lib.Json.stringify (.array call.params) = some call.payload.params.toList := by
    rw [WriteCall.payload, jsonText, Lib.Json.stringify, String.toList_ofList]
  exact bufferOf_entryObject call.payload (.array call.params) hparams

/-- The handler takes the parameters of the request for others, and appends what
it would append for their text. -/
theorem forwardMemoryWrite_eq (n : RaftNode) :
    forwardMemoryWrite sha256 (forwardToLeader call) n =
      some (Memory.forwardMemoryWrite (platform sha256) call.payload.request n) := by
  have hjson := isJson_array call.params
  obtain ⟨w, hparse, hw⟩ := hjson.parse
  have hrequest : forwardToLeader call = call.payload.request := rfl
  have hparams : call.payload.request.params = jsonText (.array call.params) := rfl
  have hpayload : call.payload.request.payload.params = jsonText (.array call.params) :=
    if_neg hjson.ne_empty
  have hclassification : orUndefined call.payload.request.classification =
      call.payload.request.payload.classification.map Classification.name :=
    orUndefined_name call.classification
  have hbuffer := bufferOf_entryObject call.payload.request.payload w (hpayload ▸ hw)
  rw [← hclassification] at hbuffer
  rw [hrequest, forwardMemoryWrite, Memory.forwardMemoryWrite]
  split
  case isTrue => rfl
  case isFalse =>
    rw [hparams, if_neg hjson.ne_empty, hparse, Option.bind_some, jsonText_eq hw, hpayload]
    change (if _ ≠ (platform sha256).checksum call.payload.request.sql _ then _ else _) = _
    split
    case isTrue => rfl
    case isFalse =>
      exact congrArg (Option.map Except.ok) hbuffer

end

/-- Whatever is written, the entry the leader makes of the call, and the one it
makes of the request of another node, are run everywhere as they were given. -/
theorem checksums_accepted (sha256 : String → String) (sql : String) (params : List JsValue)
    (classification : Option Classification) (table : Option String) (leader : RaftNode)
    (term index : Nat) :
    let call := write sha256 sql params classification table
    let statement : Statement := ⟨sql, jsonText (.array params)⟩
    (∃ data, writeAsLeader call = some data ∧
      committedStatement (platform sha256) ⟨term, index, .memoryWrite, data⟩ = some statement) ∧
    ∃ data, forwardMemoryWrite sha256 (forwardToLeader call) { leader with state := .leader } =
        some (.ok data) ∧
      committedStatement (platform sha256) ⟨term, index, .memoryWrite, data⟩ = some statement := by
  intro call statement
  have hjson : IsJson call.payload.params := isJson_array params
  have hparams : call.payload.request.payload.params = call.payload.params :=
    if_neg hjson.ne_empty
  have hchecksum : call.payload.checksum =
      sha256 (call.payload.sql ++ call.payload.params) := rfl
  refine ⟨⟨_, writeAsLeader_eq call, committedStatement_payload sha256 hjson hchecksum _ _⟩,
    call.payload.request.payload.stringify, ?_, ?_⟩
  · have hrequest : call.payload.request.checksum =
        (platform sha256).checksum call.payload.request.sql call.payload.request.payload.params := by
      rw [hparams]
      rfl
    rw [forwardMemoryWrite_eq, Memory.forwardMemoryWrite, if_neg (not_not_intro rfl),
      if_neg (not_not_intro hrequest)]
  · have h := committedStatement_payload sha256 (hparams.symm ▸ hjson)
      (show call.payload.request.payload.checksum = _ by rw [hparams]; rfl) term index
    rw [h, hparams]
    rfl

end ClaudeCluster.Memory.Runtime
