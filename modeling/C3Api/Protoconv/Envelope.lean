import C3Api.Encoding.Base64
import C3Api.Json.Members
import C3Api.Protoconv.Mapper

/-!
# Reasoning envelopes

A thinking block travels through a Responses client, and a reasoning item through a Messages
client, inside an opaque string of the gateway. Both kinds of envelope have one prefix and one
encoding; what tells them apart is the type that the decoded object names.
-/

namespace C3Api.Protoconv

open Envelope Base64

open JsonText (Bytes utf8 utf8_append length_utf8 utf8_eq objectText)
open Option hiding guard

/-- The unpadded URL alphabet of base64, and JSON: what is asked of them is that each reads back
what it wrote. Neither has to refuse what it would not itself write. -/
structure Codec where
  Raw : Type
  size : Raw → Nat
  encode : Raw → String
  decode : List UInt8 → Option Raw
  decode_encode : ∀ raw, decode (utf8 (encode raw)) = some raw
  marshal : List (String × String) → Raw
  parse : Raw → Option Json
  parse_marshal : ∀ fields,
    parse (marshal fields) = some (.obj (fields.map fun field => (field.1, .str field.2)))

/-- Bytes below 128 as a string. -/
def asciiString (bs : Bytes) : String := String.ofList (bs.map fun c => Char.ofNat c.toNat)

theorem utf8_asciiString {bs : Bytes} (ascii : ∀ c ∈ bs, c < 128) : utf8 (asciiString bs) = bs := by
  have single : ∀ n < 128, String.utf8EncodeChar (Char.ofNat n) = [UInt8.ofNat n] := by
    decide +kernel
  rw [utf8_eq, asciiString, String.toList_ofList, List.flatMap_map]
  induction bs with
  | nil => rfl
  | cons c bs ih =>
    obtain ⟨first, others⟩ := List.forall_mem_cons.mp ascii
    rw [List.flatMap_cons, ih others, single c.toNat (UInt8.lt_iff_toNat_lt.mp first),
      UInt8.ofNat_toNat]
    rfl

/-- `base64.RawURLEncoding` and `encoding/json`. -/
def goCodec : Codec where
  Raw := Bytes
  size := List.length
  encode raw := asciiString (encode raw)
  decode := decode
  decode_encode raw := by
    rw [utf8_asciiString fun c member => (encode_ascii raw c member).1]
    exact decode_encode raw
  marshal := objectText
  parse raw := (JsonText.parse raw).map (·.root.toJson)
  parse_marshal fields := by
    rw [JsonText.parse_objectText, map_some, JsonText.Tree.toJson, JsonText.toJson_stringMembers]

def sealPrefix : String := "c3a1:"

def maxEnvelopeBytes : Nat := 524288

def reasoningRefType : String := "reasoning_ref"

/-- The fold of a rune under which the decoder matches names; every rune that folds to a letter
of ASCII is here. -/
def foldRune (c : Char) : Char :=
  if c = 'ſ' then 'S' else if c = 'K' then 'K' else c.toUpper

def foldName (name : String) : List Char := name.toList.map foldRune

/-- What a member of an object makes of a field of text: `null` leaves it, and any other value
but a string fails the whole decoding. -/
def setField (name found : String) (member : String × Json) : Option String :=
  if foldName member.1 = foldName name then
    match member.2 with
    | .str text => some text
    | .null => some found
    | _ => none
  else some found

def decodeField (members : Json.Obj) (name : String) : Option String :=
  members.foldlM (setField name) ""

def unmarshalThinking (members : Json.Obj) : Option ThinkingBlock := do
  let type ← decodeField members "type"
  let thinking ← decodeField members "thinking"
  let signature ← decodeField members "signature"
  let data ← decodeField members "data"
  pure ⟨type, thinking, signature, data⟩

/-- The reference beside the type its object names. -/
def unmarshalRef (members : Json.Obj) : Option (String × ReasoningRef) := do
  let type ← decodeField members "type"
  let encryptedContent ← decodeField members "encrypted_content"
  let id ← decodeField members "id"
  pure (type, ⟨encryptedContent, id⟩)

/-- A field that is left out when it is empty. -/
def omitEmpty (name text : String) : List (String × String) :=
  if text = "" then [] else [(name, text)]

def Envelope.fields : Envelope → List (String × String)
  | .thinking b => ("type", b.type) ::
      (omitEmpty "thinking" b.thinking ++ omitEmpty "signature" b.signature ++
        omitEmpty "data" b.data)
  | .ref r => ("type", reasoningRefType) :: ("encrypted_content", r.encryptedContent) ::
      omitEmpty "id" r.id

def Envelope.members (e : Envelope) : Json.Obj :=
  e.fields.map fun field => (field.1, .str field.2)

/-- A field that an envelope leaves out is empty when it is read back. -/
theorem foldlM_omitEmpty (name found key text : String) :
    ((omitEmpty key text).map fun field => (field.1, Json.str field.2)).foldlM
      (setField name) found =
      some (if foldName key = foldName name ∧ text ≠ "" then text else found) := by
  by_cases empty : text = ""
  · simp [omitEmpty, empty]
  · by_cases same : foldName key = foldName name <;> simp [omitEmpty, empty, setField, same]

theorem ite_empty (text : String) : (if text = "" then "" else text) = text := by
  by_cases empty : text = "" <;> simp [empty]

theorem unmarshalThinking_members (b : ThinkingBlock) :
    unmarshalThinking (thinking b).members = some b := by
  have read (name : String) : decodeField (thinking b).members name =
        some (if foldName "data" = foldName name ∧ b.data ≠ "" then b.data
          else if foldName "signature" = foldName name ∧ b.signature ≠ "" then b.signature
          else if foldName "thinking" = foldName name ∧ b.thinking ≠ "" then b.thinking
          else if foldName "type" = foldName name then b.type else "") := by
    by_cases named : foldName "type" = foldName name <;>
      simp [decodeField, members, fields, setField, foldlM_omitEmpty, named]
  simp +decide [unmarshalThinking, read, ite_empty]

theorem unmarshalRef_members (r : ReasoningRef) :
    unmarshalRef (ref r).members = some (reasoningRefType, r) := by
  have read (name : String) : decodeField (ref r).members name =
        some (if foldName "id" = foldName name ∧ r.id ≠ "" then r.id
          else if foldName "encrypted_content" = foldName name then r.encryptedContent
          else if foldName "type" = foldName name then reasoningRefType else "") := by
    by_cases named : foldName "type" = foldName name <;>
      by_cases content : foldName "encrypted_content" = foldName name <;>
      simp [decodeField, members, fields, setField, foldlM_omitEmpty, named, content]
  simp +decide [unmarshalRef, read, ite_empty]

namespace Codec

variable (c : Codec)

def sealBytes (e : Envelope) : String :=
  let raw := c.marshal e.fields
  let out := sealPrefix ++ c.encode raw
  if maxEnvelopeBytes < c.size raw then ""
  else if maxEnvelopeBytes < out.utf8ByteSize then "" else out

/-- What both openers read of a string: the members of the object it holds. -/
def payload (s : List UInt8) : Option Json.Obj := do
  guard (utf8 sealPrefix <+: s ∧ s.length ≤ maxEnvelopeBytes)
  let raw ← c.decode (s.drop (utf8 sealPrefix).length)
  match ← c.parse raw with
  | .obj members => some members
  | .null => some []
  | _ => none

def openThinking (s : List UInt8) : Option ThinkingBlock := do
  let b ← unmarshalThinking (← c.payload s)
  guard (canReplay c.sealBytes b)
  pure b

def openReasoningRef (s : List UInt8) : Option (String × ReasoningRef) := do
  let r ← unmarshalRef (← c.payload s)
  guard (r.1 = reasoningRefType ∧ r.2.encryptedContent ≠ "")
  pure r

variable {c}

theorem payload_sealBytes {e : Envelope} (sealed : c.sealBytes e ≠ "") :
    c.payload (utf8 (c.sealBytes e)) = some e.members := by
  simp only [sealBytes] at sealed ⊢
  split_ifs at sealed ⊢ with large long
  · exact absurd rfl sealed
  · exact absurd rfl sealed
  have fits := Nat.le_of_not_lt long
  rw [String.utf8ByteSize_append] at fits
  simp [payload, guard, fits, c.decode_encode, c.parse_marshal, members]

theorem openThinking_sealThinking {b : ThinkingBlock} (sealed : sealThinking c.sealBytes b ≠ "") :
    c.openThinking (utf8 (sealThinking c.sealBytes b)) = some b := by
  simp only [sealThinking] at sealed ⊢
  split_ifs at sealed ⊢ with replays
  · simp [openThinking, payload_sealBytes sealed, unmarshalThinking_members, replays, guard]
  · exact absurd rfl sealed

theorem openReasoningRef_sealReasoningRef {r : ReasoningRef}
    (sealed : sealReasoningRef c.sealBytes r ≠ "") :
    c.openReasoningRef (utf8 (sealReasoningRef c.sealBytes r)) = some (reasoningRefType, r) := by
  simp only [sealReasoningRef] at sealed ⊢
  split_ifs at sealed ⊢ with empty
  · exact absurd rfl sealed
  · simp [openReasoningRef, payload_sealBytes sealed, unmarshalRef_members, empty, guard]

theorem sealThinking_ne_empty {b : ThinkingBlock} (replays : canReplay c.sealBytes b = true) :
    sealThinking c.sealBytes b ≠ "" := by
  simp only [sealThinking, replays, if_true]
  simp only [canReplay] at replays
  split_ifs at replays <;> simp_all

theorem type_of_openThinking {s : List UInt8} {b : ThinkingBlock}
    (accepted : c.openThinking s = some b) :
    canReplay c.sealBytes b = true ∧
      ∃ members, c.payload s = some members ∧ decodeField members "type" = some b.type := by
  simp only [openThinking, unmarshalThinking, bind_eq_bind, bind_eq_some_iff,
    pure_def, some.injEq, guard_eq_some'] at accepted
  obtain ⟨members, held, _, ⟨type, named, _, -, _, -, _, -, rfl⟩, -, replays, rfl⟩ := accepted
  exact ⟨replays, members, held, named⟩

theorem type_of_openReasoningRef {s : List UInt8} {r : String × ReasoningRef}
    (accepted : c.openReasoningRef s = some r) :
    ∃ members, c.payload s = some members ∧ decodeField members "type" = some reasoningRefType := by
  simp only [openReasoningRef, unmarshalRef, bind_eq_bind, bind_eq_some_iff,
    pure_def, some.injEq, guard_eq_some'] at accepted
  obtain ⟨members, held, _, ⟨type, named, _, -, _, -, rfl⟩, -, ⟨rfl, -⟩, -⟩ := accepted
  exact ⟨members, held, named⟩

theorem canReplay_type {b : ThinkingBlock} (replays : canReplay c.sealBytes b = true) :
    b.type ≠ reasoningRefType := by
  intro typed
  simp [canReplay, typed, reasoningRefType] at replays

variable (c)

/-- Envelopes read back as what was sealed, no string is an envelope of both kinds, and a block
that was accepted can be sealed again. -/
theorem envelopes_reopen_apart :
    (∀ b, sealThinking c.sealBytes b ≠ "" →
      c.openThinking (utf8 (sealThinking c.sealBytes b)) = some b) ∧
    (∀ r, sealReasoningRef c.sealBytes r ≠ "" →
      c.openReasoningRef (utf8 (sealReasoningRef c.sealBytes r)) = some (reasoningRefType, r)) ∧
    (∀ s, c.openThinking s = none ∨ c.openReasoningRef s = none) ∧
    ∀ s b, c.openThinking s = some b → sealThinking c.sealBytes b ≠ "" ∧
      c.openThinking (utf8 (sealThinking c.sealBytes b)) = some b := by
  refine ⟨fun b sealed => openThinking_sealThinking sealed,
    fun r sealed => openReasoningRef_sealReasoningRef sealed, fun s => ?_, fun s b accepted => ?_⟩
  · cases thought : c.openThinking s with
    | none => exact .inl rfl
    | some b =>
      cases referred : c.openReasoningRef s with
      | none => exact .inr rfl
      | some r =>
        -- Both read the type of one object.
        obtain ⟨replays, members, held, typed⟩ := type_of_openThinking thought
        obtain ⟨_, held', typed'⟩ := type_of_openReasoningRef referred
        rw [held, some.injEq] at held'
        rw [← held', typed, some.injEq] at typed'
        exact absurd typed' (canReplay_type replays)
  · have sealed := sealThinking_ne_empty (type_of_openThinking accepted).1
    exact ⟨sealed, openThinking_sealThinking sealed⟩

def sampleThinking : ThinkingBlock :=
  { type := "thinking", thinking := "Hm.", signature := "sig" }

def sampleRef : ReasoningRef := ⟨"enc", "rs_1"⟩

/-- A block and a reference are sealed and reopened, and the envelope of the block is none of a
reference. -/
theorem envelopes_reopen_apart_sealed :
    sealThinking goCodec.sealBytes sampleThinking =
        "c3a1:eyJ0eXBlIjoidGhpbmtpbmciLCJ0aGlua2luZyI6IkhtLiIsInNpZ25hdHVyZSI6InNpZyJ9" ∧
      goCodec.openThinking (utf8 (sealThinking goCodec.sealBytes sampleThinking)) =
        some sampleThinking ∧ sealReasoningRef goCodec.sealBytes sampleRef =
        "c3a1:eyJ0eXBlIjoicmVhc29uaW5nX3JlZiIsImVuY3J5cHRlZF9jb250ZW50IjoiZW5jIiwiaWQiOiJyc18xIn0" ∧
      goCodec.openReasoningRef (utf8 (sealReasoningRef goCodec.sealBytes sampleRef)) =
        some (reasoningRefType, sampleRef) ∧
      goCodec.openReasoningRef (utf8 (sealThinking goCodec.sealBytes sampleThinking)) = none := by
  obtain ⟨reopens, refReopens, apart, -⟩ := envelopes_reopen_apart goCodec
  have block : sealThinking goCodec.sealBytes sampleThinking =
      "c3a1:eyJ0eXBlIjoidGhpbmtpbmciLCJ0aGlua2luZyI6IkhtLiIsInNpZ25hdHVyZSI6InNpZyJ9" := by
    decide +kernel
  have ref : sealReasoningRef goCodec.sealBytes sampleRef =
      "c3a1:eyJ0eXBlIjoicmVhc29uaW5nX3JlZiIsImVuY3J5cHRlZF9jb250ZW50IjoiZW5jIiwiaWQiOiJyc18xIn0" := by
    decide +kernel
  have opened := reopens sampleThinking (by rw [block]; decide)
  refine ⟨block, opened, ref, refReopens sampleRef (by rw [ref]; decide), ?_⟩
  exact (apart _).resolve_left (by simp [opened])

end Codec

end C3Api.Protoconv
