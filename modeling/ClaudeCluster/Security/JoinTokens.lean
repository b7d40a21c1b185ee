import ClaudeCluster.Lib.Coercions
import ClaudeCluster.Lib.JsonParser

/-!
# Join tokens

`AuthManager` signs a node id with the times of its token, as one text with
colons in between, and a token is valid that carries such a signature and has
not expired. HMAC-SHA256 under the secret of the cluster and base64 are
parameters.

The signed text determines what was signed (`signedText_inj`), so a token whose
fields are of the types of `AuthToken` is valid only if it was issued. But the
fields are not checked: those of a forged token may be any values that make the
same text, and an expiry that is no number is never over (`valid_iff_issued`).
-/

namespace ClaudeCluster.Security

open Lib (JsValue JsString ofChars utf8 numberChars own toText greater)
open Lib.Binary64 (Number SameNumber)

namespace AuthManager

-- ---------------------------------------------------------------------------
-- Tokens
-- ---------------------------------------------------------------------------

structure AuthToken where
  nodeId : JsString
  issuedAt : Number
  expiresAt : Number
  signature : JsString

/-- `${nodeId}:${issuedAt}:${expiresAt}`, of their texts. -/
def signedText (nodeId issuedAt expiresAt : JsString) : JsString :=
  nodeId ++ (ofChars [':'] ++ (issuedAt ++ (ofChars [':'] ++ expiresAt)))

def AuthToken.object (token : AuthToken) : JsValue :=
  .object [
    (Lib.Utf16.ofText "nodeId", .string token.nodeId),
    (Lib.Utf16.ofText "issuedAt", .number token.issuedAt),
    (Lib.Utf16.ofText "expiresAt", .number token.expiresAt),
    (Lib.Utf16.ofText "signature", .string token.signature)]

structure Call where
  nodeId : JsString
  validityMs : Option Number
  now : Number

def defaultValidity : Number := Lib.Binary64.read { whole := "3600000".toList }

def Call.expiresAt (call : Call) : Number :=
  Lib.Binary64.add call.now (call.validityMs.getD defaultValidity)

def Call.data (call : Call) : List UInt8 :=
  utf8 (signedText call.nodeId (ofChars (numberChars call.now))
    (ofChars (numberChars call.expiresAt)))

section
variable (hmac : List UInt8 → JsString)

def Call.token (call : Call) : AuthToken where
  nodeId := call.nodeId
  issuedAt := call.now
  expiresAt := call.expiresAt
  signature := hmac call.data

def generateJoinToken (toBase64 : List UInt8 → JsString) (call : Call) : Option JsString :=
  (Lib.Json.stringify (call.token hmac).object).map fun text => toBase64 (Lib.Utf8.encode text)

inductive Validation
  | valid (nodeId : JsValue)
  | invalid (reason : String)

/-- The bytes that the signature of a decoded token has to be of; `none` where it throws. -/
def signedBytes (token : JsValue) : Option (List UInt8) := do
  let nodeId ← (own token "nodeId").bind toText
  let issuedAt ← (own token "issuedAt").bind toText
  let expiresAt ← (own token "expiresAt").bind toText
  return utf8 (signedText nodeId issuedAt expiresAt)

/-- `token.signature === expectedSignature` -/
def isString (v : JsValue) (s : JsString) : Bool :=
  match v with
  | .string s' => s' == s
  | _ => false

variable (fromBase64 : JsString → List UInt8)

/-- `JSON.parse(Buffer.from(tokenStr, 'base64').toString())` -/
def decoded (tokenStr : JsString) : Option JsValue :=
  Lib.Json.parse (Lib.Utf8.decode (fromBase64 tokenStr))

/-- The `try` block; `none` where it throws. -/
def validated (now : Number) (tokenStr : JsString) : Option Validation := do
  let token ← decoded fromBase64 tokenStr
  let expired ← (own token "expiresAt").bind (greater now)
  if expired then
    return .invalid "Token expired"
  let data ← signedBytes token
  let signature ← own token "signature"
  if !isString signature (hmac data) then
    return .invalid "Invalid signature"
  let nodeId ← own token "nodeId"
  return .valid nodeId

def validateJoinToken (now : Number) (tokenStr : JsString) : Validation :=
  (validated hmac fromBase64 now tokenStr).getD (.invalid "Invalid token format")

end

-- ---------------------------------------------------------------------------
-- What is valid
-- ---------------------------------------------------------------------------

section
variable {hmac : List UInt8 → JsString} {fromBase64 : JsString → List UInt8} {now : Number}
  {tokenStr : JsString} {token n : JsValue}

def Signed (hmac : List UInt8 → JsString) (token : JsValue) : Prop :=
  ∃ data, signedBytes token = some data ∧ own token "signature" = some (.string (hmac data))

def Expired (now : Number) (token : JsValue) : Prop :=
  (own token "expiresAt").bind (greater now) = some true

theorem isString_iff {v : JsValue} {s : JsString} : isString v s ↔ v = .string s := by
  cases v <;> simp [isString]

theorem greater_isSome {v : JsValue} (h : (toText v).isSome) : (greater now v).isSome := by
  rw [greater, Option.isSome_map]
  cases v with
  | bool b => cases b <;> rfl
  | date => cases h
  | array es => simpa [Lib.toNumber] using h
  | object es => simpa [Lib.toNumber] using h
  | _ => rfl

theorem fields_of_signed (h : Signed hmac token) :
    ∃ id iat exp id' iat' exp', own token "nodeId" = some id ∧ own token "issuedAt" = some iat ∧
      own token "expiresAt" = some exp ∧ toText id = some id' ∧ toText iat = some iat' ∧
      toText exp = some exp' ∧ signedBytes token = some (utf8 (signedText id' iat' exp')) ∧
      own token "signature" = some (.string (hmac (utf8 (signedText id' iat' exp')))) := by
  obtain ⟨data, hdata, hsignature⟩ := h
  have hfields := hdata
  unfold signedBytes at hfields
  obtain ⟨id', hid, hfields⟩ := Option.bind_eq_some_iff.mp hfields
  obtain ⟨iat', hiat, hfields⟩ := Option.bind_eq_some_iff.mp hfields
  obtain ⟨exp', hexp, hfields⟩ := Option.bind_eq_some_iff.mp hfields
  obtain rfl := Option.some.inj hfields
  obtain ⟨id, hown, hid⟩ := Option.bind_eq_some_iff.mp hid
  obtain ⟨iat, hown', hiat⟩ := Option.bind_eq_some_iff.mp hiat
  obtain ⟨exp, hown'', hexp⟩ := Option.bind_eq_some_iff.mp hexp
  exact ⟨id, iat, exp, id', iat', exp', hown, hown', hown'', hid, hiat, hexp, hdata, hsignature⟩

theorem validateJoinToken_valid :
    validateJoinToken hmac fromBase64 now tokenStr = .valid n ↔
      ∃ token, decoded fromBase64 tokenStr = some token ∧ Signed hmac token ∧
        ¬Expired now token ∧ own token "nodeId" = some n := by
  have hget : validateJoinToken hmac fromBase64 now tokenStr = .valid n ↔
      validated hmac fromBase64 now tokenStr = some (.valid n) := by
    unfold validateJoinToken
    cases validated hmac fromBase64 now tokenStr with
    | none => simp
    | some v => simp
  rw [hget]
  constructor
  · intro h
    unfold validated at h
    obtain ⟨token, htoken, h⟩ := Option.bind_eq_some_iff.mp h
    obtain ⟨expired, hexpired, h⟩ := Option.bind_eq_some_iff.mp h
    cases expired with
    | true => cases h
    | false =>
      obtain ⟨data, hdata, h⟩ := Option.bind_eq_some_iff.mp h
      obtain ⟨signature, hsignature, h⟩ := Option.bind_eq_some_iff.mp h
      split at h
      case isTrue => cases h
      case isFalse hstring =>
        rw [Bool.not_eq_true', Bool.not_eq_false, isString_iff] at hstring
        obtain ⟨id, hid, h⟩ := Option.bind_eq_some_iff.mp h
        cases h
        refine ⟨token, htoken, ⟨data, hdata, hstring ▸ hsignature⟩, ?_, hid⟩
        rw [Expired, hexpired]
        simp
  · rintro ⟨token, htoken, hsigned, hfresh, hid⟩
    obtain ⟨_, _, exp, _, _, _, _, _, hexp, _, _, htext, hdata, hsignature⟩ := fields_of_signed hsigned
    obtain ⟨expired, hexpired⟩ := Option.isSome_iff_exists.mp
      (@greater_isSome now exp (Option.isSome_iff_exists.mpr ⟨_, htext⟩))
    rw [Expired, hexp, Option.bind_some, hexpired] at hfresh
    cases expired with
    | true => exact absurd rfl hfresh
    | false =>
      simp [validated, htoken, hexp, hexpired, hdata, hsignature, isString, hid]

end

-- ---------------------------------------------------------------------------
-- What was signed
-- ---------------------------------------------------------------------------

theorem append_cons_inj_last {α : Type} {p q a b : List α} {c : α} (ha : c ∉ a) (hb : c ∉ b)
    (h : p ++ c :: a = q ++ c :: b) : p = q ∧ a = b := by
  rcases List.append_eq_append_iff.mp h with ⟨t, hq, ht⟩ | ⟨t, hp, ht⟩
  · cases t with
    | nil => exact ⟨by simp [hq], (List.cons.inj ht).2⟩
    | cons x t =>
      have htail : a = t ++ c :: b := (List.cons.inj ht).2
      exact absurd (by simp [htail]) ha
  · cases t with
    | nil => exact ⟨by simp [hp], (List.cons.inj ht).2.symm⟩
    | cons x t =>
      have htail : b = t ++ c :: a := (List.cons.inj ht).2
      exact absurd (by simp [htail]) hb

theorem toText_signedText (nodeId : JsString) (xs ys : List Char) :
    (Lib.Utf16.toText (signedText nodeId (ofChars xs) (ofChars ys))).toList =
      ((Lib.Utf16.toText nodeId).toList ++ ':' :: xs) ++ ':' :: ys := by
  have htext : signedText nodeId (ofChars xs) (ofChars ys) =
      nodeId ++ (':' :: (xs ++ ':' :: ys)).flatMap Lib.Utf16.units := by
    simp [signedText, ofChars]
  rw [htext, Lib.Utf16.toText_append_flatMap]
  simp

/-- Where the times are numbers, the text determines them, and the id as far as
UTF-8 does. -/
theorem signedText_inj {n n' : JsString} {x x' y y' : Number}
    (h : utf8 (signedText n (ofChars (numberChars x)) (ofChars (numberChars y))) =
      utf8 (signedText n' (ofChars (numberChars x')) (ofChars (numberChars y')))) :
    Lib.Utf16.toText n = Lib.Utf16.toText n' ∧ SameNumber x x' ∧ SameNumber y y' := by
  have htext := congrArg String.toList (Lib.utf8_inj h)
  rw [toText_signedText, toText_signedText] at htext
  have hcolon := Lib.colon_notMem_numberChars
  obtain ⟨hfront, hexpiry⟩ := append_cons_inj_last (hcolon y) (hcolon y') htext
  obtain ⟨hid, hissued⟩ := append_cons_inj_last (hcolon x) (hcolon x') hfront
  exact ⟨String.toList_inj.mp hid, Lib.numberChars_inj hissued, Lib.numberChars_inj hexpiry⟩

section
variable {hmac : List UInt8 → JsString} {fromBase64 : JsString → List UInt8} {now : Number}
  {tokenStr : JsString} {token n : JsValue} {calls : List Call} {call : Call}

/-- A decoded token is the one of a call, but for the sign of a zero among its times. -/
structure Carries (hmac : List UInt8 → JsString) (token : JsValue) (call : Call) : Prop where
  nodeId : own token "nodeId" = some (.string call.nodeId)
  issuedAt : ∃ x, own token "issuedAt" = some (.number x) ∧ SameNumber x call.now
  expiresAt : ∃ x, own token "expiresAt" = some (.number x) ∧ SameNumber x call.expiresAt
  signature : own token "signature" = some (.string (hmac call.data))

/-- The fields that are signed have the types that `AuthToken` declares. -/
def Declared (token : JsValue) (nodeId : JsString) (issuedAt expiresAt : Number) : Prop :=
  own token "nodeId" = some (.string nodeId) ∧ own token "issuedAt" = some (.number issuedAt) ∧
    own token "expiresAt" = some (.number expiresAt)

theorem signedBytes_of_declared {id : JsString} {x y : Number} (h : Declared token id x y) :
    signedBytes token =
      some (utf8 (signedText id (ofChars (numberChars x)) (ofChars (numberChars y)))) := by
  obtain ⟨hid, hx, hy⟩ := h
  simp [signedBytes, hid, hx, hy, toText]

theorem Carries.declared (h : Carries hmac token call) :
    ∃ x y, Declared token call.nodeId x y ∧ SameNumber x call.now ∧ SameNumber y call.expiresAt := by
  obtain ⟨x, hx, hsame⟩ := h.issuedAt
  obtain ⟨y, hy, hsame'⟩ := h.expiresAt
  exact ⟨x, y, ⟨h.nodeId, hx, hy⟩, hsame, hsame'⟩

theorem Carries.signed (h : Carries hmac token call) : Signed hmac token := by
  obtain ⟨x, y, hdeclared, hx, hy⟩ := h.declared
  refine ⟨_, signedBytes_of_declared hdeclared, ?_⟩
  rw [Lib.numberChars_congr hx, Lib.numberChars_congr hy, h.signature]
  rfl

theorem Carries.expired_iff (h : Carries hmac token call) :
    Expired now token ↔ Lib.Binary64.less call.expiresAt now := by
  obtain ⟨y, hy, hsame⟩ := h.expiresAt
  rw [Expired, hy, Option.bind_some, greater, Lib.toNumber, Option.map_some, Option.some_inj,
    Lib.Binary64.less_congr hsame]

/-- No other id that was passed is written the same in UTF-8, where a surrogate
without a partner is as good as any. -/
def ToldApart (calls : List Call) (id : JsString) : Prop :=
  ∀ call ∈ calls, Lib.Utf16.toText call.nodeId = Lib.Utf16.toText id → call.nodeId = id

def Passed (calls : List Call) (id : JsString) (issuedAt expiresAt : Number) : Prop :=
  ∃ call ∈ calls, call.nodeId = id ∧ SameNumber issuedAt call.now ∧
    SameNumber expiresAt call.expiresAt

/-- The token has the types of `AuthToken`, and its id can be told from the others. -/
def AsDeclared (calls : List Call) (token : JsValue) : Prop :=
  ∃ id x y, Declared token id x y ∧ (ToldApart calls id ∨ Passed calls id x y)

theorem toldApart_of_text {id : String}
    (h : ∀ call ∈ calls, ∃ text, call.nodeId = Lib.Utf16.ofText text) :
    ToldApart calls (Lib.Utf16.ofText id) := by
  intro call hcall hsame
  obtain ⟨text, htext⟩ := h call hcall
  rw [htext, Lib.Utf16.toText_ofText, Lib.Utf16.toText_ofText] at hsame
  rw [htext, hsame]

/-- Whoever does not know the secret has signatures of what was signed only. -/
def Unforged (hmac : List UInt8 → JsString) (calls : List Call) (token : JsValue) : Prop :=
  ∀ data, own token "signature" = some (.string (hmac data)) → ∃ call ∈ calls, data = call.data

/-- The string is the token of a call that has not expired. -/
def Issued (hmac : List UInt8 → JsString) (fromBase64 : JsString → List UInt8) (calls : List Call)
    (now : Number) (tokenStr : JsString) (n : JsValue) : Prop :=
  ∃ token, decoded fromBase64 tokenStr = some token ∧ ∃ call ∈ calls, Carries hmac token call ∧
    Lib.Binary64.less call.expiresAt now = false ∧ n = .string call.nodeId

theorem carries_of_asDeclared (hunforged : Unforged hmac calls token) (hsigned : Signed hmac token)
    (h : AsDeclared calls token) : ∃ call ∈ calls, Carries hmac token call := by
  obtain ⟨id, x, y, hdeclared, hid⟩ := h
  obtain ⟨data, hdata, hsignature⟩ := hsigned
  rw [signedBytes_of_declared hdeclared, Option.some_inj] at hdata
  rcases hid with hapart | ⟨call, hcall, rfl, hx, hy⟩
  · obtain ⟨call, hcall, hsame⟩ := hunforged data hsignature
    obtain ⟨htext, hx, hy⟩ := signedText_inj (hdata.trans hsame)
    refine ⟨call, hcall, ?_, ⟨x, hdeclared.2.1, hx⟩, ⟨y, hdeclared.2.2, hy⟩, hsame ▸ hsignature⟩
    rw [hapart call hcall htext.symm]
    exact hdeclared.1
  · refine ⟨call, hcall, hdeclared.1, ⟨x, hdeclared.2.1, hx⟩, ⟨y, hdeclared.2.2, hy⟩, ?_⟩
    rw [Lib.numberChars_congr hx, Lib.numberChars_congr hy] at hdata
    rw [Call.data, hdata]
    exact hsignature

theorem issued_valid (h : Issued hmac fromBase64 calls now tokenStr n) :
    validateJoinToken hmac fromBase64 now tokenStr = .valid n := by
  obtain ⟨token, htoken, call, _, hcarries, hfresh, rfl⟩ := h
  refine validateJoinToken_valid.mpr ⟨token, htoken, hcarries.signed, ?_, hcarries.nodeId⟩
  rw [hcarries.expired_iff, hfresh]
  exact Bool.false_ne_true

-- ---------------------------------------------------------------------------
-- Generated tokens
-- ---------------------------------------------------------------------------

def members (token : AuthToken) (issuedAt expiresAt : Lib.Literal) : List Lib.Json.Member := [
  ⟨Lib.Utf16.ofText "nodeId", Lib.Json.quote token.nodeId, .string token.nodeId⟩,
  ⟨Lib.Utf16.ofText "issuedAt", issuedAt.text, .number (Lib.Binary64.read issuedAt)⟩,
  ⟨Lib.Utf16.ofText "expiresAt", expiresAt.text, .number (Lib.Binary64.read expiresAt)⟩,
  ⟨Lib.Utf16.ofText "signature", Lib.Json.quote token.signature, .string token.signature⟩]

theorem names_ordered : (["nodeId", "issuedAt", "expiresAt", "signature"].map
    Lib.Utf16.ofText).Pairwise Lib.Json.Before :=
  Lib.Json.ordered_of_names (by decide) (by decide)

section
variable {issuedAt expiresAt : Lib.Literal} (hissued : Lib.Binary64.print call.now = some issuedAt)
  (hexpires : Lib.Binary64.print call.expiresAt = some expiresAt)
include hissued hexpires

theorem written_token :
    Lib.Json.Written
      (Lib.Json.enclose '\x7b' '\x7d'
        ((members (call.token hmac) issuedAt expiresAt).map Lib.Json.Member.line))
      (.object ((members (call.token hmac) issuedAt expiresAt).map Lib.Json.Member.property)) := by
  refine Lib.Json.written_object ?_ names_ordered
  simp only [members, List.forall_mem_cons]
  exact ⟨Lib.Json.written_string _, Lib.Json.written_number hissued,
    Lib.Json.written_number hexpires, Lib.Json.written_string _, List.forall_mem_nil _⟩

theorem carries_of_text {text : List Char}
    (htext : Lib.Json.stringify (call.token hmac).object = some text)
    (hbytes : fromBase64 tokenStr = Lib.Utf8.encode text) :
    ∃ token, decoded fromBase64 tokenStr = some token ∧ Carries hmac token call := by
  have hwritten := @written_token hmac _ _ _ hissued hexpires
  have hsame : Lib.Json.stringify (call.token hmac).object = Lib.Json.stringify
      (.object ((members (call.token hmac) issuedAt expiresAt).map Lib.Json.Member.property)) := by
    simp only [members, AuthToken.object, Call.token, List.map_cons, List.map_nil,
      Lib.Json.Member.property, Lib.Json.stringify, Lib.Json.assignmentTexts, Lib.Json.numberText,
      hissued, hexpires, Lib.Binary64.print_read hissued, Lib.Binary64.print_read hexpires]
  obtain rfl := Option.some.inj (htext.symm.trans (hsame.trans hwritten.stringify))
  have hkeys : (((members (call.token hmac) issuedAt expiresAt).map
      Lib.Json.Member.property).map Prod.fst).Pairwise Lib.Json.Before := names_ordered
  have hown := Lib.own_of_ordered hkeys
  refine ⟨_, ?_, ⟨hown "nodeId", ⟨_, hown "issuedAt", Lib.read_print hissued⟩,
    ⟨_, hown "expiresAt", Lib.read_print hexpires⟩, hown "signature"⟩⟩
  rw [decoded, hbytes, Lib.Utf8.decode_encode, hwritten.parse]

theorem validate_generated {toBase64 : List UInt8 → JsString}
    (hcodec : ∀ bytes, fromBase64 (toBase64 bytes) = bytes)
    (hs : generateJoinToken hmac toBase64 call = some tokenStr)
    (hfresh : Lib.Binary64.less call.expiresAt now = false) :
    validateJoinToken hmac fromBase64 now tokenStr = .valid (.string call.nodeId) := by
  obtain ⟨text, htext, rfl⟩ := Option.map_eq_some_iff.mp hs
  obtain ⟨token, htoken, hcarries⟩ :=
    carries_of_text hissued hexpires htext (hcodec (Lib.Utf8.encode text))
  exact @issued_valid _ _ _ _ _ [call]
    ⟨token, htoken, call, List.mem_cons_self, hcarries, hfresh, rfl⟩

end

-- ---------------------------------------------------------------------------
-- The types of the fields
-- ---------------------------------------------------------------------------

/-- Exactly the issued tokens are valid, where the token that was presented is
expired, not signed or of the declared types. -/
theorem valid_iff_issued (hmac : List UInt8 → JsString) (fromBase64 : JsString → List UInt8)
    (calls : List Call) (now : Number) (tokenStr : JsString)
    (hunforged : ∀ token, decoded fromBase64 tokenStr = some token → Unforged hmac calls token) :
    (∀ n, validateJoinToken hmac fromBase64 now tokenStr = .valid n ↔
        Issued hmac fromBase64 calls now tokenStr n) ↔
      ∀ token, decoded fromBase64 tokenStr = some token →
        Expired now token ∨ ¬Signed hmac token ∨ AsDeclared calls token := by
  constructor
  · intro h token htoken
    by_cases hexpired : Expired now token
    · exact .inl hexpired
    by_cases hsigned : Signed hmac token
    · obtain ⟨id, _, _, _, _, _, hid, _⟩ := fields_of_signed hsigned
      have hvalid := validateJoinToken_valid.mpr ⟨token, htoken, hsigned, hexpired, hid⟩
      obtain ⟨token', htoken', call, hcall, hcarries, _, _⟩ := (h id).mp hvalid
      obtain rfl : token' = token := Option.some.inj (htoken'.symm.trans htoken)
      obtain ⟨x, y, hdeclared, hx, hy⟩ := hcarries.declared
      exact .inr (.inr ⟨_, x, y, hdeclared, .inr ⟨call, hcall, rfl, hx, hy⟩⟩)
    · exact .inr (.inl hsigned)
  · intro h n
    refine ⟨fun hvalid => ?_, issued_valid⟩
    obtain ⟨token, htoken, hsigned, hfresh, hid⟩ := validateJoinToken_valid.mp hvalid
    have hdeclared := ((h token htoken).resolve_left hfresh).resolve_left (not_not_intro hsigned)
    obtain ⟨call, hcall, hcarries⟩ :=
      carries_of_asDeclared (hunforged token htoken) hsigned hdeclared
    rw [hcarries.expired_iff, Bool.not_eq_true] at hfresh
    refine ⟨token, htoken, call, hcall, hcarries, hfresh, ?_⟩
    exact Option.some.inj (hid.symm.trans hcarries.nodeId)

/-- A function that keeps all that is signed, in the place of HMAC. -/
def plainMac (data : List UInt8) : JsString := data.map UInt8.toUInt16

theorem plainMac_injective : Function.Injective plainMac := by
  refine List.map_injective_iff.mpr fun a b h => ?_
  have hnat := congrArg UInt16.toNat h
  exact UInt8.toNat_inj.mp (by simpa using hnat)

theorem unforged_plainMac (hcall : call ∈ calls)
    (h : own token "signature" = some (.string (plainMac call.data))) :
    Unforged plainMac calls token := by
  intro data hdata
  rw [h, Option.some_inj, JsValue.string.injEq] at hdata
  exact ⟨call, hcall, plainMac_injective hdata.symm⟩

def thousand : Number := Lib.Binary64.read { whole := ['1', '0', '0', '0'] }

def callFor (nodeId : String) : Call where
  nodeId := Lib.Utf16.ofText nodeId
  validityMs := some thousand
  now := thousand

def tokenText : List Char :=
  "\x7b\"nodeId\":\"n1\",\"issuedAt\":1000,\"expiresAt\":2000,\"signature\":\"n1:1000:2000\"\x7d".toList

def tokenBase64 : JsString :=
  Lib.Utf16.ofText ("eyJub2RlSWQiOiJuMSIsImlzc3VlZEF0IjoxMDAwLCJleHBpcmVzQXQiOjIwMDAs" ++
    "InNpZ25hdHVyZSI6Im4xOjEwMDA6MjAwMCJ9")

theorem valid_iff_issued_one :
    validateJoinToken plainMac (fun _ => Lib.Utf8.encode tokenText) thousand tokenBase64 =
        .valid (.string (Lib.Utf16.ofText "n1")) ↔
      Issued plainMac (fun _ => Lib.Utf8.encode tokenText) [callFor "n1"] thousand tokenBase64
        (.string (Lib.Utf16.ofText "n1")) := by
  obtain ⟨issuedAt, hissued⟩ : ∃ l, Lib.Binary64.print (callFor "n1").now = some l :=
    Option.isSome_iff_exists.mp (by decide +kernel)
  obtain ⟨expiresAt, hexpires⟩ : ∃ l, Lib.Binary64.print (callFor "n1").expiresAt = some l :=
    Option.isSome_iff_exists.mp (by decide +kernel)
  have htext : Lib.Json.stringify ((callFor "n1").token plainMac).object = some tokenText := by
    decide +kernel
  obtain ⟨token, htoken, hcarries⟩ := @carries_of_text plainMac
    (fun _ => Lib.Utf8.encode tokenText) tokenBase64 _ _ _ hissued hexpires _ htext rfl
  have hdecoded : ∀ token', decoded (fun _ => Lib.Utf8.encode tokenText) tokenBase64 = some token' →
      token' = token :=
    fun token' h => Option.some.inj (h.symm.trans htoken)
  refine (valid_iff_issued plainMac _ [callFor "n1"] thousand tokenBase64 ?_).mpr ?_ _
  · intro token' htoken'
    rw [hdecoded token' htoken']
    exact unforged_plainMac List.mem_cons_self hcarries.signature
  · intro token' htoken'
    rw [hdecoded token' htoken']
    obtain ⟨x, y, hdeclared, hx, hy⟩ := hcarries.declared
    exact .inr (.inr ⟨_, x, y, hdeclared, .inr ⟨_, List.mem_cons_self, rfl, hx, hy⟩⟩)

/-- The token of `n1:1` with its text split in another place, all in strings. -/
def splitMembers : List Lib.Json.Member :=
  [("nodeId", "n1"), ("issuedAt", "1"), ("expiresAt", "1000:2000"),
    ("signature", "n1:1:1000:2000")].map fun (key, text) =>
      ⟨Lib.Utf16.ofText key, Lib.Json.quote (Lib.Utf16.ofText text), .string (Lib.Utf16.ofText text)⟩

def splitBase64 : JsString :=
  Lib.Utf16.ofText ("eyJub2RlSWQiOiJuMSIsImlzc3VlZEF0IjoiMSIsImV4cGlyZXNBdCI6IjEwMDA6MjAwMCIs" ++
    "InNpZ25hdHVyZSI6Im4xOjE6MTAwMDoyMDAwIn0=")

/-- The id `n1`, which nothing was signed for, has a token without an end. -/
theorem split_token_valid :
    ¬∀ (hmac : List UInt8 → JsString) (fromBase64 : JsString → List UInt8) (calls : List Call)
        (now : Number) (tokenStr : JsString),
      (∀ token, decoded fromBase64 tokenStr = some token → Unforged hmac calls token) →
        ∀ n, validateJoinToken hmac fromBase64 now tokenStr = .valid n ↔
          Issued hmac fromBase64 calls now tokenStr n := by
  intro h
  have hkeys : ((splitMembers.map Lib.Json.Member.property).map Prod.fst).Pairwise
      Lib.Json.Before := names_ordered
  have hstrings : ∀ m ∈ splitMembers, Lib.Json.Written m.text m.value := by
    intro m hm
    obtain ⟨p, _, rfl⟩ := List.mem_map.mp hm
    exact Lib.Json.written_string _
  have hwritten := Lib.Json.written_object hstrings names_ordered
  obtain ⟨bytes, hbytes⟩ : ∃ bytes, bytes = Lib.Utf8.encode (Lib.Json.enclose '\x7b' '\x7d'
      (splitMembers.map Lib.Json.Member.line)) := ⟨_, rfl⟩
  have hdecoded : decoded (fun _ => bytes) splitBase64 =
      some (.object (splitMembers.map Lib.Json.Member.property)) := by
    rw [decoded, hbytes, Lib.Utf8.decode_encode, hwritten.parse]
  have hown := Lib.own_of_ordered hkeys
  have hmac : plainMac (callFor "n1:1").data = Lib.Utf16.ofText "n1:1:1000:2000" := by
    decide +kernel
  have hsignature : own (.object (splitMembers.map Lib.Json.Member.property)) "signature" =
      some (.string (plainMac (callFor "n1:1").data)) := by
    rw [hown, hmac]
    rfl
  have hsigned : Signed plainMac (.object (splitMembers.map Lib.Json.Member.property)) := by
    refine ⟨_, ?_, hsignature⟩
    have hdata : utf8 (signedText (Lib.Utf16.ofText "n1") (Lib.Utf16.ofText "1")
        (Lib.Utf16.ofText "1000:2000")) = (callFor "n1:1").data := by
      decide +kernel
    rw [← hdata]
    simp only [signedBytes, hown]
    rfl
  have hfresh : ¬Expired thousand (.object (splitMembers.map Lib.Json.Member.property)) := by
    have hnan : greater thousand (.string (Lib.Utf16.ofText "1000:2000")) = some false := rfl
    intro hexpired
    rw [Expired, hown] at hexpired
    cases hnan.symm.trans hexpired
  have hvalid : validateJoinToken plainMac (fun _ => bytes) thousand splitBase64 =
      .valid (.string (Lib.Utf16.ofText "n1")) :=
    validateJoinToken_valid.mpr ⟨_, hdecoded, hsigned, hfresh, hown "nodeId"⟩
  obtain ⟨_, _, call, hcall, _, _, hid⟩ :=
    (h plainMac (fun _ => bytes) [callFor "n1:1"] thousand splitBase64
      (fun token htoken => Option.some.inj (hdecoded.symm.trans htoken) ▸
        unforged_plainMac List.mem_cons_self hsignature) _).mp hvalid
  obtain rfl := List.mem_singleton.mp hcall
  exact absurd (JsValue.string.inj hid) (by decide)

end

end AuthManager

end ClaudeCluster.Security
