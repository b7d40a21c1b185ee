import Mathlib.Data.List.TakeWhile
import ClaudeCluster.Lib.Run
import ClaudeCluster.Lib.Coercions
import ClaudeCluster.Lib.JsonIndent

/-!
# Secrets

`SecretsManager` keeps its secrets in a map and writes all of them to one file
after every change, each value encrypted by AES-256-GCM, which is a parameter.
A write is issued with what the map held at the call, and writes may complete in
any order.

A file that was written holds the map of its call but for a secret named
`__proto__` (`entries_saved`), which an assignment to a plain object does not
keep. So the file is the map again if the last write to complete was issued when
the map held the same (`reload_iff`). And what `loadSecrets` did not read is
gone with the first write (`preserved_iff`): it stops at the first record that
it cannot decrypt.
-/

namespace ClaudeCluster.Security

open Lib (JsValue JsString Table ofChars utf8 own truthy)
open Lib.Binary64 (Number)

namespace SecretsManager

-- ---------------------------------------------------------------------------
-- Encryption
-- ---------------------------------------------------------------------------

/-- `crypto.randomBytes(16)` -/
abbrev Iv := {bytes : List UInt8 // bytes.length = 16}

/-- AES-256-GCM under the master key: the tag and the ciphertext for an IV, and
back; `none` where `createDecipheriv` or `final` throws. -/
structure MasterKey where
  cipher : Iv → List UInt8 → List UInt8 × List UInt8
  decipher : List UInt8 → List UInt8 → List UInt8 → Option (List UInt8)
  decipher_cipher : ∀ (iv : Iv) plaintext,
    decipher iv.1 (cipher iv plaintext).1 (cipher iv plaintext).2 = some plaintext

/-- `bytes.toString('hex')` -/
def hex (bytes : List UInt8) : List Char :=
  bytes.flatMap fun b => [Nat.digitChar (b.toNat / 16), Nat.digitChar (b.toNat % 16)]

def hexDigit? (u : UInt16) : Option Nat := Lib.Json.hexValue? (Char.ofNat u.toNat)

/-- `Buffer.from(text, 'hex')`: the pairs in front that are digits. -/
def fromHex : JsString → List UInt8
  | a :: b :: rest =>
    match hexDigit? a, hexDigit? b with
    | some high, some low => .ofNat (high * 16 + low) :: fromHex rest
    | _, _ => []
  | _ => []

def colon : UInt16 := 0x3a

/-- `${iv}:${authTag}:${ciphertext}`, in hex. -/
def encrypt (key : MasterKey) (iv : Iv) (plaintext : JsString) : JsString :=
  let (authTag, encrypted) := key.cipher iv (utf8 plaintext)
  ofChars (hex iv.1) ++ colon :: (ofChars (hex authTag) ++ colon :: ofChars (hex encrypted))

/-- `none` where it throws: hex that `update` takes has an even length. -/
def decrypt (key : MasterKey) (ciphertext : JsString) : Option JsString :=
  match ciphertext.splitOn colon with
  | iv :: authTag :: encrypted :: _ =>
    if encrypted.length % 2 = 0 then
      (key.decipher (fromHex iv) (fromHex authTag) (fromHex encrypted)).map fun bytes =>
        ofChars (Lib.Utf8.decode bytes)
    else none
  | _ => none

theorem units_digitChar {d : Nat} (h : d < 16) :
    Lib.Utf16.units (Nat.digitChar d) = [.ofNat (Nat.digitChar d).toNat] ∧
      hexDigit? (.ofNat (Nat.digitChar d).toNat) = some d ∧
      UInt16.ofNat (Nat.digitChar d).toNat ≠ colon := by
  have hall : ∀ d < 16, Lib.Utf16.units (Nat.digitChar d) = [.ofNat (Nat.digitChar d).toNat] ∧
      hexDigit? (.ofNat (Nat.digitChar d).toNat) = some d ∧
      UInt16.ofNat (Nat.digitChar d).toNat ≠ colon := by
    decide
  exact hall d h

theorem ofChars_hex_cons (b : UInt8) (bytes : List UInt8) :
    ofChars (hex (b :: bytes)) =
      .ofNat (Nat.digitChar (b.toNat / 16)).toNat :: .ofNat (Nat.digitChar (b.toNat % 16)).toNat ::
        ofChars (hex bytes) := by
  have hb := b.toNat_lt
  obtain ⟨hhigh, -⟩ := units_digitChar (show b.toNat / 16 < 16 by omega)
  obtain ⟨hlow, -⟩ := units_digitChar (show b.toNat % 16 < 16 by omega)
  have hcons : hex (b :: bytes) =
      Nat.digitChar (b.toNat / 16) :: Nat.digitChar (b.toNat % 16) :: hex bytes := rfl
  rw [hcons, ofChars, List.flatMap_cons, List.flatMap_cons, hhigh, hlow]
  rfl

theorem fromHex_hex (bytes : List UInt8) : fromHex (ofChars (hex bytes)) = bytes := by
  induction bytes with
  | nil => rfl
  | cons b bytes ih =>
    have hb := b.toNat_lt
    obtain ⟨-, hhigh, -⟩ := units_digitChar (show b.toNat / 16 < 16 by omega)
    obtain ⟨-, hlow, -⟩ := units_digitChar (show b.toNat % 16 < 16 by omega)
    have hvalue : b.toNat / 16 * 16 + b.toNat % 16 = b.toNat := by omega
    rw [ofChars_hex_cons, fromHex, hhigh, hlow]
    simp only [hvalue, UInt8.ofNat_toNat, ih]

theorem colon_notMem_hex (bytes : List UInt8) : colon ∉ ofChars (hex bytes) := by
  induction bytes with
  | nil => exact List.not_mem_nil
  | cons b bytes ih =>
    have hb := b.toNat_lt
    obtain ⟨-, -, hhigh⟩ := units_digitChar (show b.toNat / 16 < 16 by omega)
    obtain ⟨-, -, hlow⟩ := units_digitChar (show b.toNat % 16 < 16 by omega)
    rw [ofChars_hex_cons]
    simp only [List.mem_cons, not_or]
    exact ⟨hhigh.symm, hlow.symm, ih⟩

theorem even_length_hex (bytes : List UInt8) : (ofChars (hex bytes)).length % 2 = 0 := by
  induction bytes with
  | nil => rfl
  | cons b bytes ih =>
    rw [ofChars_hex_cons, List.length_cons, List.length_cons]
    omega

/-- A value is decrypted as it was, an empty one too; a surrogate without a
partner is lost in UTF-8. -/
theorem decrypt_encrypt (key : MasterKey) (iv : Iv) (plaintext : JsString) :
    decrypt key (encrypt key iv plaintext) =
      some (Lib.Utf16.ofText (Lib.Utf16.toText plaintext)) := by
  have hsplit : (encrypt key iv plaintext).splitOn colon =
      [ofChars (hex iv.1), ofChars (hex (key.cipher iv (utf8 plaintext)).1),
        ofChars (hex (key.cipher iv (utf8 plaintext)).2)] := by
    rw [encrypt, List.splitOn_append_cons_self_of_not_mem (colon_notMem_hex iv.1),
      List.splitOn_append_cons_self_of_not_mem (colon_notMem_hex _),
      List.splitOn_eq_singleton (colon_notMem_hex _)]
  simp only [decrypt, hsplit, even_length_hex, fromHex_hex, key.decipher_cipher, Lib.decode_utf8, if_true,
    Option.map_some]
  rfl

-- ---------------------------------------------------------------------------
-- Loading
-- ---------------------------------------------------------------------------

/-- `Map<string, Secret>`; what a file holds may be any value. -/
abbrev Secrets := Table (Prod.fst : JsString × JsValue → JsString)

def indexKey (i : Nat) : JsString := ofChars (Nat.toDigits 10 i)

/-- `Object.entries(value)`, `none` where it throws. -/
def entries : JsValue → Option (List (JsString × JsValue))
  | .undefined => none
  | .null => none
  | .object assignments => some (Lib.Json.properties assignments)
  | .array elements => some (elements.zipIdx.map fun (v, i) => (indexKey i, v))
  | .string s => some (s.zipIdx.map fun (u, i) => (indexKey i, .string [u]))
  | _ => some []

/-- `secret.value = value` -/
def withValue (secret : JsValue) (value : JsString) : JsValue :=
  match secret with
  | .object assignments => .object (assignments ++ [(Lib.Utf16.ofText "value", .string value)])
  | v => v

section
variable (key : MasterKey)

def decryptValue (value : JsValue) : Option JsString :=
  match value with
  | .string s => decrypt key s
  | _ => none

def loaded (secret : JsValue) : Option JsValue := do
  let encrypted ← own secret "encrypted"
  if truthy encrypted then
    let value ← own secret "value"
    let decrypted ← decryptValue key value
    return withValue secret decrypted
  return secret

/-- The loop of `loadSecrets`; what was set before it throws stays. -/
def loadEntries : List (JsString × JsValue) → Secrets → Secrets
  | [], secrets => secrets
  | (name, secret) :: rest, secrets =>
    match loaded key secret with
    | none => secrets
    | some secret => loadEntries rest (secrets.put (name, secret))

/-- The records of a file, `none` if there is no file or its text is malformed. -/
def records (file : Option (List UInt8)) : Option (List (JsString × JsValue)) :=
  (file.bind fun bytes => Lib.Json.parse (Lib.Utf8.decode bytes)).map fun stored =>
    -- of `null` there are none either
    (entries stored).getD []

def loadSecrets (file : Option (List UInt8)) : Secrets :=
  loadEntries key ((records file).getD []) .empty

-- ---------------------------------------------------------------------------
-- Saving
-- ---------------------------------------------------------------------------

def proto : JsString := Lib.Utf16.ofText "__proto__"

/-- `{ ...secret, value: this.encrypt(secret.value), encrypted: true }`; `cipher.update`
throws on what is no string. -/
def stored (iv : Iv) (secret : JsValue) : Option JsValue :=
  match secret with
  | .object assignments =>
    match own secret "value" with
    | some (.string value) =>
      some (.object (assignments ++ [
        (Lib.Utf16.ofText "value", .string (encrypt key iv value)),
        (Lib.Utf16.ofText "encrypted", .bool true)]))
    | _ => none
  | _ => none

def storedEntries (ivs : JsString → Iv) :
    List (JsString × JsValue) → Option (List (JsString × JsValue))
  | [] => some []
  | (name, secret) :: rest =>
    (stored key (ivs name) secret).bind fun secret =>
      (storedEntries ivs rest).map fun rest => (name, secret) :: rest

/-- The bytes that `saveSecrets` writes. An assignment to `__proto__` makes no
property, and of the properties only its own are written. -/
def saveSecrets (ivs : JsString → Iv) (secrets : Secrets) : Option (List UInt8) :=
  (storedEntries key ivs secrets.rows).bind fun toStore =>
    (Lib.Json.indented [' ', ' '] [] (.object (toStore.filter (·.1 ≠ proto)))).map Lib.Utf8.encode

-- ---------------------------------------------------------------------------
-- Calls
-- ---------------------------------------------------------------------------

structure Write where
  secrets : Secrets
  bytes : List UInt8

structure State where
  secrets : Secrets
  file : Option (List UInt8)
  pending : List Write
  /-- The map of the last write to complete. -/
  saved : Option Secrets
  /-- The names that were set or deleted. -/
  touched : List JsString

inductive Action
  | set (name value : JsString) (now : Number) (ivs : JsString → Iv)
  | delete (name : JsString) (ivs : JsString → Iv)
  | complete (i : Nat)

/-- Issues a write, unless `encrypt` throws. -/
def save (ivs : JsString → Iv) (s : State) : State :=
  match saveSecrets key ivs s.secrets with
  | none => s
  | some bytes => { s with pending := s.pending ++ [⟨s.secrets, bytes⟩] }

/-- `existing?.createdAt ?? now` -/
def createdAt (existing : Option (JsString × JsValue)) (now : Number) : JsValue :=
  match existing.bind fun e => own e.2 "createdAt" with
  | none => .number now
  | some .undefined => .number now
  | some .null => .number now
  | some v => v

def newSecret (secrets : Secrets) (name value : JsString) (now : Number) : JsValue :=
  .object [
    (Lib.Utf16.ofText "name", .string name),
    (Lib.Utf16.ofText "value", .string value),
    (Lib.Utf16.ofText "encrypted", .bool true),
    (Lib.Utf16.ofText "createdAt", createdAt (secrets.find? name) now),
    (Lib.Utf16.ofText "updatedAt", .number now)]

def step (s : State) : Action → Option State
  | .set name value now ivs =>
    some (save key ivs { s with
      secrets := s.secrets.put (name, newSecret s.secrets name value now)
      touched := name :: s.touched })
  | .delete name ivs =>
    if (s.secrets.find? name).isSome then
      some (save key ivs { s with
        secrets := s.secrets.delete name
        touched := name :: s.touched })
    else some { s with touched := name :: s.touched }
  | .complete i =>
    s.pending[i]?.map fun write => { s with
      file := some write.bytes
      pending := s.pending.eraseIdx i
      saved := some write.secrets }

def initialized (readable : Bool) (file : Option (List UInt8)) : State where
  secrets := loadSecrets key (if readable then file else none)
  file := file
  pending := []
  saved := none
  touched := []

end

-- ---------------------------------------------------------------------------
-- What a file holds
-- ---------------------------------------------------------------------------

section
variable {key : MasterKey} {ivs : JsString → Iv} {iv : Iv}
  {rows es : List (JsString × JsValue)} {secrets t : Secrets} {bytes : List UInt8}
  {name v : JsString} {secret r w : JsValue}

theorem own_withValue (assignments : List (JsString × JsValue)) (v : JsString) :
    own (withValue (.object assignments) v) "value" = some (.string v) := by
  rw [withValue, Lib.own_object, List.reverse_append]
  rfl

theorem stored_eq_some : stored key iv secret = some r ↔
    ∃ assignments v, secret = .object assignments ∧ own secret "value" = some (.string v) ∧
      r = .object (assignments ++ [
        (Lib.Utf16.ofText "value", .string (encrypt key iv v)),
        (Lib.Utf16.ofText "encrypted", .bool true)]) := by
  constructor
  · intro h
    unfold stored at h
    split at h
    case h_1 assignments =>
      split at h
      case h_1 v hv => exact ⟨assignments, v, rfl, hv, (Option.some.inj h).symm⟩
      case h_2 => cases h
    case h_2 => cases h
  · rintro ⟨assignments, v, rfl, hv, rfl⟩
    simp only [stored, hv]

theorem loaded_of_encrypted {e : JsValue} {ct v : JsString} (he : own w "encrypted" = some e)
    (htruthy : truthy e) (hvalue : own w "value" = some (.string ct))
    (hdecrypt : decrypt key ct = some v) : loaded key w = some (withValue w v) := by
  simp [loaded, he, htruthy, hvalue, decryptValue, hdecrypt]

structure ReadStored (key : MasterKey) (iv : Iv) (v : JsString) (w : JsValue) : Prop where
  object : ∃ assignments, w = .object assignments
  value : own w "value" = some (.string (encrypt key iv v))
  encrypted : own w "encrypted" = some (.bool true)

theorem ReadStored.loaded (h : ReadStored key iv v w) :
    loaded key w = some (withValue w (Lib.Utf16.ofText (Lib.Utf16.toText v))) :=
  loaded_of_encrypted h.encrypted rfl h.value (decrypt_encrypt key iv v)

theorem readStored_of_stored (h : stored key iv secret = some r)
    (hw : Lib.Json.readBack r = some w) :
    ∃ v, own secret "value" = some (.string v) ∧ ReadStored key iv v w := by
  obtain ⟨assignments, v, rfl, hv, rfl⟩ := stored_eq_some.mp h
  rw [Lib.Json.readBack, Option.some_inj] at hw
  have hown : ∀ name, own w name = some ((((assignments ++ [
      (Lib.Utf16.ofText "value", JsValue.string (encrypt key iv v)),
      (Lib.Utf16.ofText "encrypted", .bool true)]).reverse.lookup
        (Lib.Utf16.ofText name)).bind Lib.Json.readBack).getD .undefined) := by
    intro name
    rw [← hw, own, Lib.Json.properties_readBack, Lib.Json.lookup_readBack]
  rw [List.reverse_append] at hown
  exact ⟨v, hv, ⟨_, hw.symm⟩, hown "value", hown "encrypted"⟩

theorem storedEntries_keys (h : storedEntries key ivs rows = some es) :
    es.map Prod.fst = rows.map Prod.fst := by
  induction rows generalizing es with
  | nil =>
    cases h
    rfl
  | cons e rows ih =>
    obtain ⟨r, _, h⟩ := Option.bind_eq_some_iff.mp h
    obtain ⟨rest, hrest, rfl⟩ := Option.map_eq_some_iff.mp h
    rw [List.map_cons, List.map_cons, ih hrest]

theorem mem_storedEntries (h : storedEntries key ivs rows = some es) :
    (name, r) ∈ es ↔ ∃ secret, (name, secret) ∈ rows ∧ stored key (ivs name) secret = some r := by
  induction rows generalizing es with
  | nil =>
    cases h
    simp
  | cons e rows ih =>
    obtain ⟨n, first⟩ := e
    obtain ⟨r', hr', h⟩ := Option.bind_eq_some_iff.mp h
    obtain ⟨rest, hrest, rfl⟩ := Option.map_eq_some_iff.mp h
    rw [List.mem_cons, Prod.mk.injEq, ih hrest]
    constructor
    · rintro (⟨rfl, rfl⟩ | ⟨secret, hmem, hsecret⟩)
      · exact ⟨first, List.mem_cons_self, hr'⟩
      · exact ⟨secret, List.mem_cons_of_mem _ hmem, hsecret⟩
    · rintro ⟨secret, hmem, hsecret⟩
      rcases List.mem_cons.mp hmem with heq | hmem
      · obtain ⟨rfl, rfl⟩ := Prod.mk.inj heq
        exact .inl ⟨rfl, Option.some.inj (hsecret.symm.trans hr')⟩
      · exact .inr ⟨secret, hmem, hsecret⟩

theorem records_saved (h : saveSecrets key ivs secrets = some bytes) :
    ∃ es, records (some bytes) = some es ∧ (es.map Prod.fst).Nodup ∧
      (∀ name w, (name, w) ∈ es → name ≠ proto ∧ ∃ secret v, secrets.find? name = some (name, secret) ∧
        own secret "value" = some (.string v) ∧ ReadStored key (ivs name) v w) ∧
      ∀ name secret, secrets.find? name = some (name, secret) → name ≠ proto →
        ∃ w, (name, w) ∈ es := by
  obtain ⟨toStore, hstore, h⟩ := Option.bind_eq_some_iff.mp h
  obtain ⟨text, htext, rfl⟩ := Option.map_eq_some_iff.mp h
  have hgap : ∀ c ∈ [' ', ' '], Lib.Json.isSpace c :=
    List.forall_mem_cons.mpr ⟨rfl, List.forall_mem_singleton.mpr rfl⟩
  obtain ⟨w, hw, hparse⟩ := Lib.Json.parse_indented hgap htext
  rw [Lib.Json.readBack, Option.some_inj] at hw
  have hnodup : ((toStore.filter (·.1 ≠ proto)).map Prod.fst).Nodup := by
    have hkeys := secrets.keys_nodup
    rw [← storedEntries_keys hstore] at hkeys
    exact hkeys.sublist (List.filter_sublist.map _)
  have hmem : ∀ name w, (name, w) ∈ Lib.Json.present Prod.mk (Lib.Json.properties
      (Lib.Json.readBackAssignments (toStore.filter (·.1 ≠ proto)))) ↔
        ∃ r, (name, r) ∈ toStore ∧ name ≠ proto ∧ Lib.Json.readBack r = some w := by
    intro name w
    have hreverse : ((toStore.filter (·.1 ≠ proto)).reverse.map Prod.fst).Nodup := by
      rw [List.map_reverse]
      exact List.nodup_reverse.mpr hnodup
    rw [Lib.Json.mem_readBack, Option.bind_eq_some_iff]
    simp only [Lib.Json.lookup_eq_some_iff_mem hreverse, List.mem_reverse, List.mem_filter,
      decide_eq_true_eq, and_assoc]
  refine ⟨_, ?_, Lib.Json.nodup_readBack (toStore.filter (·.1 ≠ proto)), ?_, ?_⟩
  · rw [records, Option.bind_some, Lib.Utf8.decode_encode, hparse, ← hw, Option.map_some, entries,
      Lib.Json.properties_readBack, Option.getD_some]
  · intro name w' hw'
    obtain ⟨r, hr, hne, hback⟩ := (hmem name w').mp hw'
    obtain ⟨secret, hsecret, hstored⟩ := (mem_storedEntries hstore).mp hr
    obtain ⟨v, hv, hread⟩ := readStored_of_stored hstored hback
    exact ⟨hne, secret, v, Table.find?_of_mem hsecret, hv, hread⟩
  · intro name secret hfind hne
    have hrow : (name, secret) ∈ secrets.rows := Table.find?_mem hfind
    have hname : name ∈ toStore.map Prod.fst := by
      rw [storedEntries_keys hstore]
      exact List.mem_map_of_mem hrow
    obtain ⟨⟨_, r⟩, hr, rfl⟩ := List.mem_map.mp hname
    obtain ⟨secret', _, hstored⟩ := (mem_storedEntries hstore).mp hr
    obtain ⟨_, _, _, _, rfl⟩ := stored_eq_some.mp hstored
    exact ⟨_, (hmem _ _).mpr ⟨_, hr, hne, rfl⟩⟩

-- ---------------------------------------------------------------------------
-- What is loaded
-- ---------------------------------------------------------------------------

def loads (key : MasterKey) (e : JsString × JsValue) : Bool := (loaded key e.2).isSome

theorem find?_loadEntries (hnodup : (es.map Prod.fst).Nodup) :
    (loadEntries key es t).find? name =
      match (es.takeWhile (loads key)).lookup name with
      | some secret => (loaded key secret).map fun secret => (name, secret)
      | none => t.find? name := by
  induction es generalizing t with
  | nil => rfl
  | cons e es ih =>
    obtain ⟨n, secret⟩ := e
    rw [List.map_cons, List.nodup_cons] at hnodup
    rw [loadEntries, List.takeWhile_cons]
    cases hloaded : loaded key secret with
    | none => simp [loads, hloaded]
    | some secret' =>
      have hloads : loads key (n, secret) := by simp [loads, hloaded]
      dsimp only
      rw [if_pos hloads, ih hnodup.2, List.lookup_cons, Table.find?_put]
      by_cases hname : name = n
      · subst hname
        have hnone : (es.takeWhile (loads key)).lookup name = none := by
          rw [List.lookup_eq_none_iff]
          intro e he
          refine bne_iff_ne.mpr fun hname => hnodup.1 ?_
          exact List.mem_map.mpr ⟨e, (List.takeWhile_sublist _).mem he, hname.symm⟩
        simp [hnone, hloaded]
      · have hne : (name == n) = false := by simpa using hname
        simp [hne, hname]

theorem indexKey_injective : Function.Injective indexKey := by
  intro i j h
  have hdigits := congrArg (Nat.ofDigitChars 10 · 0) (Lib.ofChars_inj h)
  simpa [Nat.ofDigitChars_ten_toDigits] using hdigits

theorem nodup_indexKeys {α : Type} (xs : List α) (f : α → JsValue) :
    ((xs.zipIdx.map fun (a, i) => (indexKey i, f a)).map Prod.fst).Nodup := by
  have hkeys : (xs.zipIdx.map fun (a, i) => (indexKey i, f a)).map Prod.fst =
      (xs.zipIdx.map Prod.snd).map indexKey := by
    rw [List.map_map, List.map_map]
    rfl
  rw [hkeys, List.zipIdx_map_snd]
  exact List.Nodup.map indexKey_injective List.nodup_range'

theorem records_nodup {file : Option (List UInt8)} (h : records file = some es) :
    (es.map Prod.fst).Nodup := by
  obtain ⟨v, _, rfl⟩ := Option.map_eq_some_iff.mp h
  cases v with
  | object assignments => exact Lib.Json.properties_keys_nodup assignments
  | array elements => exact nodup_indexKeys elements id
  | string s => exact nodup_indexKeys s fun u => .string [u]
  | _ => exact List.nodup_nil

def held (secrets : Secrets) (name : JsString) : Option (Option JsValue) :=
  (secrets.find? name).map fun e => own e.2 "value"

theorem find?_loadSecrets {file : Option (List UInt8)} (h : records file = some es) :
    (loadSecrets key file).find? name =
      ((es.takeWhile (loads key)).lookup name).bind fun secret =>
        (loaded key secret).map fun secret => (name, secret) := by
  rw [loadSecrets, h, Option.getD_some, find?_loadEntries (records_nodup h)]
  cases (es.takeWhile (loads key)).lookup name with
  | none => rfl
  | some secret => rfl

/-- A new manager on a file that was written holds what the map held, but for
surrogates without a partner and for the name that is no property. -/
theorem held_saved (h : saveSecrets key ivs secrets = some bytes) :
    held (loadSecrets key (some bytes)) name =
      if name = proto then none
      else (held secrets name).map fun value => value.map fun value =>
        match value with
        | .string v => .string (Lib.Utf16.ofText (Lib.Utf16.toText v))
        | value => value := by
  obtain ⟨es, hes, hnodup, hfrom, hto⟩ := records_saved h
  have hall : es.takeWhile (loads key) = es := by
    refine List.takeWhile_eq_self_iff.mpr ?_
    rintro ⟨name, w⟩ hw
    obtain ⟨_, secret, v, _, _, hread⟩ := hfrom name w hw
    rw [loads, hread.loaded]
    rfl
  rw [held, find?_loadSecrets hes, hall]
  cases hlookup : es.lookup name with
  | some w =>
    rw [Lib.Json.lookup_eq_some_iff_mem hnodup] at hlookup
    obtain ⟨hne, secret, v, hfind, hv, hread⟩ := hfrom name w hlookup
    obtain ⟨assignments, rfl⟩ := hread.object
    rw [if_neg hne, held, hfind]
    simp only [Option.bind_some, hread.loaded, Option.map_some, own_withValue, hv]
  | none =>
    split
    case isTrue => rfl
    case isFalse hne =>
      cases hfind : secrets.find? name with
      | none => rw [held, hfind]; rfl
      | some e =>
        obtain ⟨n, secret⟩ := e
        obtain rfl : n = name := Table.find?_key hfind
        obtain ⟨w, hw⟩ := hto _ secret hfind hne
        rw [← Lib.Json.lookup_eq_some_iff_mem hnodup, hlookup] at hw
        cases hw

end

-- ---------------------------------------------------------------------------
-- Runs
-- ---------------------------------------------------------------------------

def manager (key : MasterKey) (init : State → Prop) : Lib.System State Action := ⟨init, step key⟩

structure Wrote (key : MasterKey) (P : Secrets → Prop) (s : State) : Prop where
  secrets : P s.secrets
  pending : ∀ w ∈ s.pending, P w.secrets ∧ ∃ ivs, saveSecrets key ivs w.secrets = some w.bytes
  saved : ∀ t, s.saved = some t →
    P t ∧ ∃ ivs bytes, saveSecrets key ivs t = some bytes ∧ s.file = some bytes

section
variable {key : MasterKey} {P Q : Secrets → Prop} {s s' : State} {a : Action}
  {ivs : JsString → Iv}

theorem Wrote.save (h : Wrote key P s) : Wrote key P (save key ivs s) := by
  unfold SecretsManager.save
  split
  case h_1 => exact h
  case h_2 bytes hbytes =>
    refine ⟨h.secrets, fun w hw => ?_, h.saved⟩
    rcases List.mem_append.mp hw with hw | hw
    · exact h.pending w hw
    · obtain rfl := List.mem_singleton.mp hw
      exact ⟨h.secrets, ivs, hbytes⟩

theorem save_secrets : (save key ivs s).secrets = s.secrets := by
  unfold save
  split <;> rfl

theorem save_touched : (save key ivs s).touched = s.touched := by
  unfold save
  split <;> rfl

theorem save_saved : (save key ivs s).saved = s.saved := by
  unfold save
  split <;> rfl

theorem save_file : (save key ivs s).file = s.file := by
  unfold save
  split <;> rfl

theorem Wrote.step (h : Wrote key P s) (hPQ : ∀ t, P t → Q t) (hs : step key s a = some s')
    (hsecrets : Q s'.secrets) : Wrote key Q s' := by
  have hbefore : ∀ secrets touched, Q secrets →
      Wrote key Q { s with secrets := secrets, touched := touched } := by
    intro secrets touched hnow
    refine ⟨hnow, fun w hw => (h.pending w hw).imp_left (hPQ _), fun t ht => ?_⟩
    exact (h.saved t ht).imp_left (hPQ _)
  cases a with
  | set name value now ivs =>
    cases hs
    rw [save_secrets] at hsecrets
    exact (hbefore _ _ hsecrets).save
  | delete name ivs =>
    simp only [SecretsManager.step] at hs
    split at hs
    case isTrue =>
      cases hs
      rw [save_secrets] at hsecrets
      exact (hbefore _ _ hsecrets).save
    case isFalse =>
      cases hs
      exact hbefore _ _ hsecrets
  | complete i =>
    obtain ⟨write, hwrite, rfl⟩ := Option.map_eq_some_iff.mp hs
    have hmem := List.mem_of_getElem? hwrite
    refine ⟨hsecrets, fun w hw => ?_, fun t ht => ?_⟩
    · exact (h.pending w (List.mem_of_mem_eraseIdx hw)).imp_left (hPQ _)
    · cases ht
      obtain ⟨hP, ivs, hbytes⟩ := h.pending write hmem
      exact ⟨hPQ _ hP, ivs, write.bytes, hbytes, rfl⟩

end

-- ---------------------------------------------------------------------------
-- The same map after a restart
-- ---------------------------------------------------------------------------

def WellFormed (v : JsString) : Prop := Lib.Utf16.ofText (Lib.Utf16.toText v) = v

def Texts (secrets : Secrets) : Prop :=
  ∀ e ∈ secrets.rows, ∃ assignments v, e.2 = .object assignments ∧
    own e.2 "value" = some (.string v) ∧ WellFormed v

def SetsText (_ : State) (a : Action) : Prop :=
  ∀ name value now ivs, a = .set name value now ivs → WellFormed value

def Started (key : MasterKey) (s : State) : Prop :=
  ∃ file, s = initialized key true file ∧ Texts s.secrets

section
variable {key : MasterKey} {s s' : State} {a : Action} {secrets t : Secrets}
  {ivs : JsString → Iv} {name : JsString}

theorem Texts.put (h : Texts secrets) {value : JsString} (hvalue : WellFormed value) (now : Number) :
    Texts (secrets.put (name, newSecret secrets name value now)) := by
  intro e he
  rcases Table.mem_putRows he with rfl | he
  · exact ⟨_, value, rfl, by rw [newSecret, Lib.own_object]; rfl, hvalue⟩
  · exact h e he

theorem Texts.delete (h : Texts secrets) (name : JsString) : Texts (secrets.delete name) :=
  fun e he => h e (List.mem_filter.mp he).1

theorem Texts.step (h : Texts s.secrets) (hset : SetsText s a) (hs : step key s a = some s') :
    Texts s'.secrets := by
  cases a with
  | set name value now ivs =>
    cases hs
    rw [save_secrets]
    exact h.put (hset name value now ivs rfl) now
  | delete name ivs =>
    simp only [SecretsManager.step] at hs
    split at hs
    case isTrue =>
      cases hs
      rw [save_secrets]
      exact h.delete name
    case isFalse =>
      cases hs
      exact h
  | complete i =>
    obtain ⟨write, _, rfl⟩ := Option.map_eq_some_iff.mp hs
    exact h

theorem Texts.saveSecrets (h : Texts secrets) (ivs : JsString → Iv) :
    ∃ bytes, saveSecrets key ivs secrets = some bytes := by
  have hstore : ∀ rows : List (JsString × JsValue),
      (∀ e ∈ rows, ∃ assignments v, e.2 = .object assignments ∧
        own e.2 "value" = some (.string v) ∧ WellFormed v) →
      ∃ es, storedEntries key ivs rows = some es := by
    intro rows hrows
    induction rows with
    | nil => exact ⟨[], rfl⟩
    | cons e rows ih =>
      obtain ⟨n, secret⟩ := e
      obtain ⟨assignments, v, hobject, hv, _⟩ := hrows _ List.mem_cons_self
      obtain ⟨es, hes⟩ := ih fun e he => hrows e (List.mem_cons_of_mem _ he)
      have hsecret := (@stored_eq_some key (ivs n) _ _).mpr ⟨assignments, v, hobject, hv, rfl⟩
      exact ⟨_, by rw [storedEntries, hsecret, hes]; rfl⟩
  obtain ⟨es, hes⟩ := hstore secrets.rows h
  exact ⟨_, by rw [SecretsManager.saveSecrets, hes, Option.bind_some, Lib.Json.indented]; rfl⟩

theorem held_saved_of_texts {bytes : List UInt8} (htexts : Texts secrets)
    (h : SecretsManager.saveSecrets key ivs secrets = some bytes) :
    held (loadSecrets key (some bytes)) name =
      if name = proto then none else held secrets name := by
  rw [held_saved h]
  refine if_congr Iff.rfl rfl ?_
  cases hfind : secrets.find? name with
  | none => simp [held, hfind]
  | some e =>
    obtain ⟨_, v, _, hv, hwell⟩ := htexts e (Table.find?_mem hfind)
    simp only [held, hfind, Option.map_some, hv]
    rw [hwell]

def Unchanged (key : MasterKey) (s : State) : Prop :=
  s.saved = none → s.pending = [] → ∀ name, held (loadSecrets key s.file) name = held s.secrets name

theorem Unchanged.step (h : Unchanged key s) (htexts : Texts s'.secrets)
    (hs : step key s a = some s') : Unchanged key s' := by
  have hissued : ∀ s ivs, Texts s.secrets → (save key ivs s).pending ≠ [] := by
    intro s ivs htexts
    obtain ⟨bytes, hbytes⟩ := @Texts.saveSecrets key _ htexts ivs
    simp [save, hbytes]
  cases a with
  | set name value now ivs =>
    cases hs
    rw [save_secrets] at htexts
    exact fun _ hquiet => absurd hquiet (hissued _ ivs htexts)
  | delete name ivs =>
    simp only [SecretsManager.step] at hs
    split at hs
    case isTrue =>
      cases hs
      rw [save_secrets] at htexts
      exact fun _ hquiet => absurd hquiet (hissued _ ivs htexts)
    case isFalse =>
      cases hs
      exact h
  | complete i =>
    obtain ⟨write, _, rfl⟩ := Option.map_eq_some_iff.mp hs
    intro hnone
    cases hnone

theorem wrote_texts (h : (manager key (Started key)).Reach SetsText s) :
    Wrote key Texts s ∧ Unchanged key s := by
  refine h.invariant (I := fun s => Wrote key Texts s ∧ Unchanged key s) ?_ ?_
  · rintro s ⟨file, rfl, htexts⟩
    refine ⟨⟨htexts, List.forall_mem_nil _, fun t ht => ?_⟩, fun _ _ _ => rfl⟩
    cases ht
  · rintro s a s' _ ⟨hwrote, hunchanged⟩ hset hs
    have htexts := hwrote.secrets.step hset hs
    exact ⟨hwrote.step (fun _ h => h) hs htexts, hunchanged.step htexts hs⟩

/-- Once no write is on its way, a new manager holds the map exactly if the last
write to complete was issued when the map held the same, but for `__proto__`. -/
theorem reload_iff (key : MasterKey) (s : State)
    (h : (manager key (Started key)).Reach SetsText s) (hquiet : s.pending = []) :
    (∀ name, held (loadSecrets key s.file) name = held s.secrets name) ↔
      ∀ t, s.saved = some t → ∀ name,
        held s.secrets name = if name = proto then none else held t name := by
  obtain ⟨hwrote, hunchanged⟩ := wrote_texts h
  cases hsaved : s.saved with
  | none => simp [hunchanged hsaved hquiet]
  | some t =>
    obtain ⟨htexts, ivs, bytes, hbytes, hfile⟩ := hwrote.saved t hsaved
    have hheld := fun name => @held_saved_of_texts _ _ _ name _ htexts hbytes
    rw [hfile]
    constructor
    · rintro hsame _ ⟨⟩ name
      rw [← hsame, hheld]
    · intro hsame name
      rw [hheld, hsame t rfl]

def zeroIv : Iv := ⟨List.replicate 16 0, rfl⟩

section
variable {init : State → Prop} {G : State → Action → Prop}

theorem reach_set (h : (manager key init).Reach G s) (htexts : Texts s.secrets) (name : JsString)
    {value : JsString} (hvalue : WellFormed value) (now : Number)
    (hG : G s (.set name value now fun _ => zeroIv)) :
    ∃ bytes, saveSecrets key (fun _ => zeroIv)
        (s.secrets.put (name, newSecret s.secrets name value now)) = some bytes ∧
      (manager key init).Reach G
        { s with
          secrets := s.secrets.put (name, newSecret s.secrets name value now)
          touched := name :: s.touched
          pending := s.pending ++
            [⟨s.secrets.put (name, newSecret s.secrets name value now), bytes⟩] } := by
  obtain ⟨bytes, hbytes⟩ := @Texts.saveSecrets key _ (@Texts.put _ name htexts _ hvalue now)
    (fun _ => zeroIv)
  refine ⟨bytes, hbytes, h.step hG ?_⟩
  change some (save key _ _) = _
  simp only [save, hbytes]

theorem reach_complete (h : (manager key init).Reach G s) {i : Nat} {w : Write}
    (hw : s.pending[i]? = some w) (hG : G s (.complete i)) :
    (manager key init).Reach G
      { s with
        file := some w.bytes
        pending := s.pending.eraseIdx i
        saved := some w.secrets } := by
  refine h.step hG ?_
  change Option.map _ s.pending[i]? = _
  rw [hw, Option.map_some]

end

theorem setsText_set {value : JsString} {now : Number} (h : WellFormed value) :
    SetsText s (.set name value now ivs) := by
  rintro _ _ _ _ ⟨⟩
  exact h

theorem setsText_complete {i : Nat} : SetsText s (.complete i) := by
  rintro _ _ _ _ ⟨⟩

theorem reach_empty (key : MasterKey) :
    (manager key (Started key)).Reach SetsText (initialized key true none) :=
  .init ⟨none, rfl, List.forall_mem_nil _⟩

theorem wellFormed_ofText (text : String) : WellFormed (Lib.Utf16.ofText text) := by
  rw [WellFormed, Lib.Utf16.toText_ofText]

/-- A cipher that hides nothing; its tag is the plaintext. -/
def plainKey : MasterKey where
  cipher _ plaintext := (plaintext, plaintext)
  decipher _ authTag encrypted := if authTag = encrypted then some encrypted else none
  decipher_cipher _ _ := if_pos rfl

/-- Two calls at once, whose writes complete in their order. -/
theorem reload_iff_in_order :
    ∃ s : State, s.touched = [Lib.Utf16.ofText "b", Lib.Utf16.ofText "a"] ∧ s.saved ≠ none ∧
      ∀ name, held (loadSecrets plainKey s.file) name = held s.secrets name := by
  have hvalue := wellFormed_ofText "x"
  obtain ⟨first, _, hfirst⟩ := reach_set (reach_empty plainKey) (List.forall_mem_nil _)
    (Lib.Utf16.ofText "a") hvalue .nan (setsText_set hvalue)
  obtain ⟨second, _, hsecond⟩ := reach_set hfirst (wrote_texts hfirst).1.secrets
    (Lib.Utf16.ofText "b") hvalue .nan (setsText_set hvalue)
  have hs := @reach_complete _ _ _ _
    (@reach_complete _ _ _ _ hsecond 0 _ rfl setsText_complete) 0 _ rfl setsText_complete
  refine ⟨_, rfl, Option.some_ne_none _, (reload_iff plainKey _ hs rfl).mpr ?_⟩
  rintro _ ⟨⟩ name
  split
  case isTrue hproto =>
    have hb : proto ≠ Lib.Utf16.ofText "b" := by decide
    have ha : proto ≠ Lib.Utf16.ofText "a" := by decide
    rw [held, hproto, Table.find?_put, if_neg hb, Table.find?_put, if_neg ha]
    rfl
  case isFalse => rfl

/-- A secret named `__proto__` is gone after a restart, and so is one whose write
completed before that of an earlier call. -/
theorem secret_gone :
    (∃ s, (manager plainKey (Started plainKey)).Reach SetsText s ∧ s.pending = [] ∧
        ¬∀ name, held (loadSecrets plainKey s.file) name = held s.secrets name) ∧
      ∃ s, (manager plainKey (Started plainKey)).Reach SetsText s ∧ s.pending = [] ∧
        proto ∉ s.touched ∧
        ¬∀ name, held (loadSecrets plainKey s.file) name = held s.secrets name := by
  have hvalue := wellFormed_ofText "x"
  constructor
  · obtain ⟨bytes, _, hset⟩ := reach_set (reach_empty plainKey) (List.forall_mem_nil _) proto hvalue
      .nan (setsText_set hvalue)
    have hs := @reach_complete _ _ _ _ hset 0 _ rfl setsText_complete
    refine ⟨_, hs, rfl, fun hsame => ?_⟩
    obtain ⟨htexts, ivs, bytes', hbytes, hfile⟩ := (wrote_texts hs).1.saved _ rfl
    have hproto := hsame proto
    rw [hfile, held_saved_of_texts htexts hbytes, if_pos rfl, held, Table.find?_put,
      if_pos rfl] at hproto
    cases hproto
  · obtain ⟨first, _, hfirst⟩ := reach_set (reach_empty plainKey) (List.forall_mem_nil _)
      (Lib.Utf16.ofText "a") hvalue .nan (setsText_set hvalue)
    obtain ⟨second, _, hsecond⟩ := reach_set hfirst (wrote_texts hfirst).1.secrets
      (Lib.Utf16.ofText "b") hvalue .nan (setsText_set hvalue)
    have hs := @reach_complete _ _ _ _
      (@reach_complete _ _ _ _ hsecond 1 _ rfl setsText_complete) 0 _ rfl setsText_complete
    have htouched : proto ∉ [Lib.Utf16.ofText "b", Lib.Utf16.ofText "a"] := by decide
    refine ⟨_, hs, rfl, htouched, fun hsame => ?_⟩
    obtain ⟨htexts, ivs, bytes', hbytes, hfile⟩ := (wrote_texts hs).1.saved _ rfl
    have hb := hsame (Lib.Utf16.ofText "b")
    rw [hfile, held_saved_of_texts htexts hbytes, if_neg (by decide), held, held, Table.find?_put,
      Table.find?_put, Table.find?_put, if_neg (by decide), if_pos rfl] at hb
    cases hb

end

-- ---------------------------------------------------------------------------
-- Records that are kept
-- ---------------------------------------------------------------------------

def plain (key : MasterKey) (record : JsValue) : Option JsString :=
  match own record "value" with
  | some (.string value) =>
    if (own record "encrypted").any truthy then decrypt key value else some value
  | _ => none

/-- The other record has the same ciphertext, or an encryption of the same value. -/
def SameSecret (key : MasterKey) (record record' : JsValue) : Prop :=
  own record' "value" = own record "value" ∨
    ∃ value ciphertext, plain key record = some value ∧
      own record' "value" = some (.string ciphertext) ∧ decrypt key ciphertext = some value

/-- The records whose names were not touched are in the file; where the text is
malformed it has to stay. -/
def Preserved (key : MasterKey) (original : List UInt8) (s : State) : Prop :=
  match records (some original) with
  | none => s.file = some original
  | some es => ∀ e ∈ es, e.1 ∉ s.touched →
      ∃ es' record, records s.file = some es' ∧ (e.1, record) ∈ es' ∧ SameSecret key e.2 record

section
variable {key : MasterKey} {readable : Bool} {original : List UInt8} {s s' : State} {a : Action}
  {ivs : JsString → Iv} {iv : Iv} {name v : JsString} {record secret w : JsValue}

def Untouched (loaded : Secrets) (touched : List JsString) (secrets : Secrets) : Prop :=
  ∀ name, name ∉ touched → secrets.find? name = loaded.find? name

theorem Untouched.step {t : Secrets} (h : Untouched t s.touched s.secrets)
    (hs : step key s a = some s') :
    (∀ secrets, Untouched t s.touched secrets → Untouched t s'.touched secrets) ∧
      Untouched t s'.touched s'.secrets := by
  have hmono : ∀ name secrets, Untouched t s.touched secrets →
      Untouched t (name :: s.touched) secrets := by
    intro name secrets hsecrets n hn
    exact hsecrets n (List.not_mem_of_not_mem_cons hn)
  cases a with
  | set name value now ivs =>
    cases hs
    rw [save_touched, save_secrets]
    refine ⟨hmono name, fun n hn => ?_⟩
    rw [Table.find?_put, if_neg (List.ne_of_not_mem_cons hn)]
    exact h n (List.not_mem_of_not_mem_cons hn)
  | delete name ivs =>
    simp only [SecretsManager.step] at hs
    split at hs
    case isTrue =>
      cases hs
      rw [save_touched, save_secrets]
      refine ⟨hmono name, fun n hn => ?_⟩
      rw [Table.find?_delete, if_neg (List.ne_of_not_mem_cons hn)]
      exact h n (List.not_mem_of_not_mem_cons hn)
    case isFalse =>
      cases hs
      exact ⟨hmono name, hmono name _ h⟩
  | complete i =>
    obtain ⟨write, _, rfl⟩ := Option.map_eq_some_iff.mp hs
    exact ⟨fun _ h => h, h⟩

theorem unsaved_step (h : s.saved = none → s.file = some original)
    (hs : step key s a = some s') : s'.saved = none → s'.file = some original := by
  cases a with
  | set name value now ivs =>
    cases hs
    rw [save_saved, save_file]
    exact h
  | delete name ivs =>
    simp only [step] at hs
    split at hs
    case isTrue =>
      cases hs
      rw [save_saved, save_file]
      exact h
    case isFalse =>
      cases hs
      exact h
  | complete i =>
    obtain ⟨write, _, rfl⟩ := Option.map_eq_some_iff.mp hs
    intro hnone
    cases hnone

theorem wrote_untouched
    (h : (manager key (· = initialized key readable (some original))).Reach (fun _ _ => True) s) :
    Wrote key (Untouched (initialized key readable (some original)).secrets s.touched) s ∧
      (s.saved = none → s.file = some original) := by
  refine h.invariant (I := fun s =>
    Wrote key (Untouched (initialized key readable (some original)).secrets s.touched) s ∧
      (s.saved = none → s.file = some original)) ?_ ?_
  · rintro s rfl
    refine ⟨⟨fun _ _ => rfl, List.forall_mem_nil _, fun t ht => ?_⟩, fun _ => rfl⟩
    cases ht
  · rintro s a s' _ ⟨hwrote, hfile⟩ _ hs
    obtain ⟨hmono, hsecrets⟩ := hwrote.secrets.step hs
    exact ⟨hwrote.step hmono hs hsecrets, unsaved_step hfile hs⟩

theorem wellFormed_ofChars (cs : List Char) : WellFormed (ofChars cs) := by
  rw [WellFormed, Lib.toText_ofChars, Lib.Utf16.ofText, String.toList_ofList]
  rfl

theorem wellFormed_encrypt : WellFormed (encrypt key iv v) := by
  have hchars : encrypt key iv v = ofChars (hex iv.1 ++ ':' ::
      (hex (key.cipher iv (utf8 v)).1 ++ ':' :: hex (key.cipher iv (utf8 v)).2)) := by
    simp only [encrypt, ofChars, List.flatMap_append, List.flatMap_cons]
    rfl
  rw [hchars]
  exact wellFormed_ofChars _

theorem wellFormed_of_decrypt {ciphertext : JsString} (h : decrypt key ciphertext = some v) :
    WellFormed v := by
  unfold decrypt at h
  split at h
  case h_1 =>
    split at h
    case isTrue =>
      obtain ⟨bytes, _, rfl⟩ := Option.map_eq_some_iff.mp h
      exact wellFormed_ofChars _
    case isFalse => cases h
  case h_2 => cases h

theorem plain_of_loaded (h : loaded key record = some secret)
    (hv : own secret "value" = some (.string v)) :
    plain key record = some v ∧ (WellFormed v ∨ own record "value" = some (.string v)) := by
  obtain ⟨e, he, h⟩ := Option.bind_eq_some_iff.mp h
  cases htruthy : truthy e with
  | false =>
    simp only [htruthy, Bool.false_eq_true, if_false] at h
    obtain rfl := Option.some.inj h
    exact ⟨by simp [plain, hv, he, htruthy], .inr hv⟩
  | true =>
    simp only [htruthy, if_true] at h
    obtain ⟨value, hvalue, h⟩ := Option.bind_eq_some_iff.mp h
    obtain ⟨decrypted, hdecrypted, h⟩ := Option.bind_eq_some_iff.mp h
    obtain rfl := Option.some.inj h
    cases value with
    | string ciphertext =>
      cases record with
      | object assignments =>
        rw [own_withValue, Option.some_inj, JsValue.string.injEq] at hv
        subst hv
        refine ⟨?_, .inl (wellFormed_of_decrypt hdecrypted)⟩
        simp only [plain, hvalue, he, Option.any_some, htruthy, if_true]
        exact hdecrypted
      | _ => cases hvalue
    | _ => cases hdecrypted

/-- A record that was loaded and stored is the same secret exactly if UTF-8 keeps it. -/
theorem sameSecret_iff (hloaded : loaded key record = some secret)
    (hv : own secret "value" = some (.string v)) (hread : ReadStored key iv v w) :
    SameSecret key record w ↔ ∀ value, plain key record = some value → WellFormed value := by
  obtain ⟨hplain, hwell⟩ := plain_of_loaded hloaded hv
  simp only [SameSecret, hplain, Option.some_inj, forall_eq']
  constructor
  · intro hsame
    rcases hwell with hwell | hown
    · exact hwell
    rcases hsame with hsame | ⟨value, ciphertext, rfl, _, hdecrypt⟩
    · rw [hread.value, hown, Option.some_inj, JsValue.string.injEq] at hsame
      exact hsame ▸ wellFormed_encrypt
    · exact wellFormed_of_decrypt hdecrypt
  · intro hwell
    exact .inr ⟨v, _, rfl, hread.value, by rw [decrypt_encrypt, hwell]⟩

theorem find?_loadSecrets_iff {file : Option (List UInt8)} {es : List (JsString × JsValue)}
    (hes : records file = some es) (he : (name, record) ∈ es) :
    (loadSecrets key file).find? name = some (name, secret) ↔
      (name, record) ∈ es.takeWhile (loads key) ∧ loaded key record = some secret := by
  have hnodup := records_nodup hes
  have htake : ((es.takeWhile (loads key)).map Prod.fst).Nodup :=
    hnodup.sublist ((List.takeWhile_sublist _).map _)
  rw [find?_loadSecrets hes]
  constructor
  · intro hfind
    obtain ⟨first, hfirst, hmap⟩ := Option.bind_eq_some_iff.mp hfind
    obtain ⟨secret', hloaded, heq⟩ := Option.map_eq_some_iff.mp hmap
    obtain rfl : secret' = secret := (Prod.mk.inj heq).2
    rw [Lib.Json.lookup_eq_some_iff_mem htake] at hfirst
    -- the names of the file are different, so this is the record itself
    have hlookup := (Lib.Json.lookup_eq_some_iff_mem hnodup).mpr
      ((List.takeWhile_sublist _).mem hfirst)
    rw [(Lib.Json.lookup_eq_some_iff_mem hnodup).mpr he, Option.some_inj] at hlookup
    exact hlookup ▸ ⟨hfirst, hloaded⟩
  · rintro ⟨hmem, hloaded⟩
    rw [(Lib.Json.lookup_eq_some_iff_mem htake).mpr hmem, Option.bind_some, hloaded]
    rfl

/-- The untouched records are kept exactly until a write completes, unless each of
them was read: from a readable and well-formed file, in front of the first that
throws, under a name that can be written, with a value that UTF-8 keeps. -/
theorem preserved_iff (key : MasterKey) (readable : Bool) (original : List UInt8) (s : State)
    (h : (manager key (· = initialized key readable (some original))).Reach (fun _ _ => True) s) :
    Preserved key original s ↔
      s.saved = none ∨ ∃ es, records (some original) = some es ∧ ∀ e ∈ es, e.1 ∉ s.touched →
        readable = true ∧ e ∈ es.takeWhile (loads key) ∧ e.1 ≠ proto ∧
          ∀ value, plain key e.2 = some value → WellFormed value := by
  obtain ⟨hwrote, hunsaved⟩ := wrote_untouched h
  cases hsaved : s.saved with
  | none =>
    refine iff_of_true ?_ (.inl rfl)
    rw [Preserved, hunsaved hsaved]
    split
    case h_1 => rfl
    case h_2 es hes => exact fun e he _ => ⟨es, e.2, hes, he, .inl rfl⟩
  | some t =>
    obtain ⟨huntouched, ivs, bytes, hbytes, hfile⟩ := hwrote.saved t hsaved
    obtain ⟨es', hes', _, hfrom, hto⟩ := records_saved hbytes
    have hfile' : records s.file = some es' := hfile ▸ hes'
    rw [Preserved]
    cases hes : records (some original) with
    | none =>
      refine iff_of_false (fun hsame => ?_) (by simp)
      rw [hsame, hes] at hfile'
      cases hfile'
    | some es =>
      simp only [reduceCtorEq, false_or, Option.some_inj, exists_eq_left']
      refine forall₃_congr fun e he hname => ?_
      obtain ⟨name, record⟩ := e
      have hfind := huntouched name hname
      constructor
      · rintro ⟨es'', record', hes'', hmem, hsame⟩
        obtain rfl : es' = es'' := Option.some.inj (hfile'.symm.trans hes'')
        obtain ⟨hne, secret, v, hsecret, hv, hread⟩ := hfrom name record' hmem
        rw [hsecret] at hfind
        cases readable with
        | false => cases hfind
        | true =>
          obtain ⟨htake, hloaded⟩ := (find?_loadSecrets_iff hes he).mp hfind.symm
          exact ⟨rfl, htake, hne, (sameSecret_iff hloaded hv hread).mp hsame⟩
      · rintro ⟨rfl, htake, hne, hwell⟩
        have hloads : loads key (name, record) := List.mem_takeWhile_imp htake
        obtain ⟨secret, hloaded⟩ := Option.isSome_iff_exists.mp hloads
        have hsecret := hfind.trans ((find?_loadSecrets_iff hes he).mpr ⟨htake, hloaded⟩)
        obtain ⟨w, hw⟩ := hto name secret hsecret hne
        obtain ⟨_, secret', v, hsecret', hv, hread⟩ := hfrom name w hw
        obtain rfl : secret = secret' :=
          (Prod.mk.inj (Option.some.inj (hsecret.symm.trans hsecret'))).2
        exact ⟨es', w, hfile', hw, (sameSecret_iff hloaded hv hread).mpr hwell⟩

/-- A record that plain text is no encryption for, and one that is not encrypted. -/
def mixedFile : List UInt8 :=
  Lib.Utf8.encode ("\x7b\"bad\":\x7b\"value\":\"x\",\"encrypted\":true\x7d," ++
    "\"good\":\x7b\"value\":\"y\",\"encrypted\":false\x7d\x7d").toList

def badRecord : JsValue :=
  .object [(Lib.Utf16.ofText "value", .string (Lib.Utf16.ofText "x")),
    (Lib.Utf16.ofText "encrypted", .bool true)]

def goodRecord : JsValue :=
  .object [(Lib.Utf16.ofText "value", .string (Lib.Utf16.ofText "y")),
    (Lib.Utf16.ofText "encrypted", .bool false)]

theorem records_mixedFile : records (some mixedFile) =
    some [(Lib.Utf16.ofText "bad", badRecord), (Lib.Utf16.ofText "good", goodRecord)] := by
  rw [records, mixedFile, Option.bind_some, Lib.Utf8.decode_encode]
  rfl

theorem loadSecrets_mixedFile : loadSecrets plainKey (some mixedFile) = .empty := by
  have hbad : loaded plainKey badRecord = none := rfl
  rw [loadSecrets, records_mixedFile, Option.getD_some, loadEntries, hbad]

theorem reach_mixedFile :
    ∃ s, (manager plainKey (· = initialized plainKey true (some mixedFile))).Reach
        (fun _ _ => True) s ∧
      s.touched = [Lib.Utf16.ofText "a"] ∧ ∃ secrets ivs bytes, s.saved = some secrets ∧
        s.file = some bytes ∧ saveSecrets plainKey ivs secrets = some bytes ∧
        secrets.find? (Lib.Utf16.ofText "good") = none := by
  have hempty : (initialized plainKey true (some mixedFile)).secrets = .empty :=
    loadSecrets_mixedFile
  have hinit : (manager plainKey (· = initialized plainKey true (some mixedFile))).Reach
      (fun _ _ => True) (initialized plainKey true (some mixedFile)) := .init rfl
  obtain ⟨bytes, hbytes, hset⟩ := reach_set hinit (hempty ▸ List.forall_mem_nil _)
    (Lib.Utf16.ofText "a") (wellFormed_ofText "x") .nan trivial
  refine ⟨_, @reach_complete _ _ _ _ hset 0 _ rfl trivial, rfl, _, _, bytes, rfl, rfl, hbytes, ?_⟩
  rw [Table.find?_put, if_neg (by decide), hempty]
  rfl

theorem preserved_iff_mixed :
    ∃ s : State, s.saved ≠ none ∧ (Preserved plainKey mixedFile s ↔
      s.saved = none ∨ ∃ es, records (some mixedFile) = some es ∧ ∀ e ∈ es, e.1 ∉ s.touched →
        true = true ∧ e ∈ es.takeWhile (loads plainKey) ∧ e.1 ≠ proto ∧
          ∀ value, plain plainKey e.2 = some value → WellFormed value) := by
  obtain ⟨s, hs, _, secrets, _, _, hsaved, _⟩ := reach_mixedFile
  exact ⟨s, by simp [hsaved], preserved_iff plainKey true mixedFile s hs⟩

/-- The record behind one that cannot be decrypted is gone after a call of `set`. -/
theorem record_gone :
    ∃ s, (manager plainKey (· = initialized plainKey true (some mixedFile))).Reach
        (fun _ _ => True) s ∧ ¬Preserved plainKey mixedFile s := by
  obtain ⟨s, hs, htouched, secrets, ivs, bytes, _, hfile, hbytes, hgood⟩ := reach_mixedFile
  refine ⟨s, hs, fun hpreserved => ?_⟩
  rw [Preserved, records_mixedFile] at hpreserved
  obtain ⟨es', record, hes', hmem, _⟩ := hpreserved (Lib.Utf16.ofText "good", goodRecord)
    (by simp) (by rw [htouched]; decide)
  obtain ⟨es, hes, _, hfrom, _⟩ := records_saved hbytes
  obtain rfl : es = es' := Option.some.inj (hes.symm.trans (hfile ▸ hes'))
  obtain ⟨_, secret, v, hsecret, _⟩ := hfrom _ _ hmem
  rw [hgood] at hsecret
  cases hsecret

end

end SecretsManager

end ClaudeCluster.Security
