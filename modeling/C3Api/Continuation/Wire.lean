import C3Api.Encoding.Framing
import C3Api.Json.Parse
import C3Api.Machine.Int64

/-!
# Continuation bindings and their keys

The texts of `continuation/store.go`: the canonical wire form of a binding and its parser,
and the tuple that a key is the digest of. Go strings are lists of bytes.
-/

namespace C3Api.Continuation

open Framing Machine List

abbrev Digest := { bs : Bytes // bs.length = 32 }

def zeroDigest : Digest := ⟨replicate 32 0, rfl⟩

structure Binding where
  accountID : Int
  fingerprint : Digest
  identityRevision : Int
  redisAcked : Bool := true
  deriving DecidableEq

def formatInt (n : Int) : Bytes :=
  if n < 0 then 45 :: decimal n.natAbs else decimal n.natAbs

def isDigit (c : UInt8) : Bool := 48 ≤ c && c ≤ 57

/-- `strconv.ParseInt` in base ten, for 64 bits. -/
def parseInt (bs : Bytes) : Option Int :=
  let neg := bs.head? = some 45
  let digits := if neg ∨ bs.head? = some 43 then bs.drop 1 else bs
  if digits = [] ∨ digits.all isDigit = false then none
  else
    let n : Int := if neg then -undecimal digits else undecimal digits
    if minInt64 ≤ n ∧ n ≤ maxInt64 then some n else none

def stringMember (name : String) (text : Bytes) : Bytes :=
  34 :: (JsonText.bytes name ++ 34 :: 58 :: 34 :: (text ++ [34]))

def encodeWire (b : Binding) : Bytes :=
  123 :: (stringMember "account_id" (formatInt b.accountID) ++
    44 :: (stringMember "fingerprint" (hex b.fingerprint.1) ++
      44 :: (stringMember "identity_revision" (formatInt b.identityRevision) ++
        JsonText.bytes ",\"redis_acked\":true\x7d")))

def fields (root : JsonText.Tree) : List (Bytes × JsonText.Tree) :=
  root.members.map fun m => (JsonText.decode m.1, m.2)

/-- A string field of the decoded struct: the last member of its name, where a null leaves
what was there. -/
def decodeString (root : JsonText.Tree) (name : String) : Option Bytes :=
  (fields root).foldlM (fun cur m =>
    if m.1 = JsonText.bytes name then
      match m.2 with
      | .str content => some (JsonText.decode content)
      | .null => some cur
      | _ => none
    else some cur) []

def decodeBool (root : JsonText.Tree) (name : String) : Option Bool :=
  (fields root).foldlM (fun cur m =>
    if m.1 = JsonText.bytes name then
      match m.2 with
      | .bool value => some value
      | .null => some cur
      | _ => none
    else some cur) false

def wireNames : List Bytes :=
  ["account_id", "fingerprint", "identity_revision", "redis_acked"].map JsonText.bytes

def parseCanonical (bs : Bytes) : Option Int :=
  (parseInt bs).filter fun n => 0 < n ∧ formatInt n = bs

def parseFingerprint (bs : Bytes) : Option Digest :=
  if bs.length ≠ 64 then none
  else
    match unhex bs with
    | none => none
    | some fb => if length : fb.length = 32 then some ⟨fb, length⟩ else none

structure RedisWire where
  accountID : Bytes
  fingerprint : Bytes
  identityRevision : Bytes
  redisAcked : Bool

/-- The decoded struct of an object that has the four names and no other. -/
def decodeWire (data : Bytes) : Option RedisWire :=
  match JsonText.parse data with
  | none => none
  | some doc =>
    let names := ((fields doc.root).map Prod.fst).dedup
    if doc.root.isObject = false ∨ names.length ≠ 4 ∨ ¬ wireNames ⊆ names then none
    else
      match decodeString doc.root "account_id", decodeString doc.root "fingerprint",
        decodeString doc.root "identity_revision", decodeBool doc.root "redis_acked" with
      | some accountID, some fingerprint, some identityRevision, some redisAcked =>
        some { accountID, fingerprint, identityRevision, redisAcked }
      | _, _, _, _ => none

def RedisWire.binding (w : RedisWire) : Option Binding :=
  if w.redisAcked = false then none
  else
    match parseCanonical w.accountID, parseCanonical w.identityRevision,
      parseFingerprint w.fingerprint with
    | some acc, some rev, some fp =>
      if fp = zeroDigest then none
      else some { accountID := acc, fingerprint := fp, identityRevision := rev }
    | _, _, _ => none

def parseBinding (data : Bytes) : Option Binding :=
  ((decodeWire data).bind RedisWire.binding).filter fun b => encodeWire b = data

structure ContKey where
  userID : Int64
  groupID : Int64
  routeClassID : Digest
  protocolTag : Bytes
  continuationID : Bytes
  deriving DecidableEq

def canonicalTuple (k : ContKey) : Bytes :=
  1 :: [bigEndian 8 k.userID.toUInt64.toNat, bigEndian 8 k.groupID.toUInt64.toNat,
    k.routeClassID.1, k.protocolTag, k.continuationID].flatMap prefixed

def redisPrefix : Bytes := JsonText.bytes "c3api:cont:"

/-- The key of a tuple, for the truncated digest under the store's secret. -/
def redisKey (hmac : Bytes → Bytes) (k : ContKey) : Except String Bytes :=
  if k.continuationID = [] then .error "continuation: empty continuation_id"
  else if k.protocolTag = [] then .error "continuation: empty protocol tag"
  else .ok ( redisPrefix ++ hex (hmac (canonicalTuple k)))

theorem formatInt_injective : Function.Injective formatInt := by
  intro m n same
  have digits {k : Nat} : (45 : UInt8) ∉ decimal k := fun mem =>
    absurd (mem_decimal mem).1 (by decide)
  unfold formatInt at same
  split at same <;> split at same
  · have := decimal_injective (cons.inj same).2
    omega
  · exact absurd (same ▸ mem_cons_self) digits
  · exact absurd (same.symm ▸ mem_cons_self) digits
  · have := decimal_injective same
    omega

theorem quote_notMem_formatInt (n : Int) : (34 : UInt8) ∉ formatInt n := by
  have digits {k : Nat} : (34 : UInt8) ∉ decimal k := fun mem =>
    absurd (mem_decimal mem).1 (by decide)
  unfold formatInt
  split
  · intro mem
    rcases mem_cons.mp mem with sign | mem
    · exact absurd sign (by decide)
    · exact digits mem
  · exact digits

theorem framed_formatInt : Framed fun n => formatInt n ++ [34] :=
  framed_of_stop 34 formatInt_injective quote_notMem_formatInt

theorem framed_hex_digest : Framed fun d : Digest => hex d.1 ++ [34] := by
  refine framed_of_length 65 (fun d => ?_) fun d e same => ?_
  · rw [length_append, length_hex, d.2, length_singleton]
  · exact Subtype.ext (hex_injective (append_cancel_right same))

theorem framed_stringMember {α : Type} (name : String) {text : α → Bytes}
    (framed : Framed fun a => text a ++ [34]) : Framed fun a => stringMember name (text a) := by
  have member := framed.after (34 :: (JsonText.bytes name ++ [34, 58, 34]))
  simpa only [stringMember, cons_append, append_assoc, nil_append] using member

theorem encodeWire_inj {b b' : Binding} (same : encodeWire b = encodeWire b') :
    b.accountID = b'.accountID ∧ b.fingerprint = b'.fingerprint ∧
      b.identityRevision = b'.identityRevision := by
  obtain ⟨account, same⟩ :=
    framed_stringMember "account_id" framed_formatInt _ _ _ _ (cons.inj same).2
  obtain ⟨fingerprint, same⟩ :=
    framed_stringMember "fingerprint" framed_hex_digest _ _ _ _ (cons.inj same).2
  obtain ⟨revision, -⟩ :=
    framed_stringMember "identity_revision" framed_formatInt _ _ _ _ (cons.inj same).2
  exact ⟨account, fingerprint, revision⟩

theorem word_injective : Function.Injective fun n : Int64 => bigEndian 8 n.toUInt64.toNat := by
  intro m n same
  have words := bigEndian_inj m.toUInt64.toNat_lt n.toUInt64.toNat_lt same
  exact congrArg Int64.ofUInt64 (UInt64.toNat_inj.mp words)

/-- No two tuples have the same bytes, whatever their strings contain. -/
theorem canonicalTuple_injective : Function.Injective canonicalTuple := by
  rintro ⟨user, group, route, tag, id⟩ ⟨user', group', route', tag', id'⟩ same
  have fields : (bigEndian 8 user.toUInt64.toNat, bigEndian 8 group.toUInt64.toNat, route.1, tag,
      id) = (bigEndian 8 user'.toUInt64.toNat, bigEndian 8 group'.toUInt64.toNat, route'.1, tag',
      id') := (framed_prefixed.append (framed_prefixed.append (framed_prefixed.append
      (framed_prefixed.append framed_prefixed)))).injective (by simpa [canonicalTuple] using same)
  simp only [Prod.mk.injEq] at fields
  rw [ContKey.mk.injEq]
  exact ⟨word_injective fields.1, word_injective fields.2.1, Subtype.ext fields.2.2.1, fields.2.2.2⟩

theorem redisKey_inj {hmac : Bytes → Bytes} {k k' : ContKey} {key : Bytes}
    (collisionFree : hmac (canonicalTuple k) = hmac (canonicalTuple k') →
      canonicalTuple k = canonicalTuple k')
    (own : redisKey hmac k = .ok key) (other : redisKey hmac k' = .ok key) : k = k' := by
  have digest {l : ContKey} (made : redisKey hmac l = .ok key) :
      redisPrefix ++ hex (hmac (canonicalTuple l)) = key := by
    unfold redisKey at made
    split at made
    · cases made
    split at made
    · cases made
    · exact Except.ok.inj made
  have same := append_cancel_left ((digest own).trans (digest other).symm)
  exact canonicalTuple_injective (collisionFree (hex_injective same))

theorem encodeWire_of_parseBinding {data : Bytes} {b : Binding}
    (parsed : parseBinding data = some b) : encodeWire b = data ∧ b.redisAcked = true := by
  obtain ⟨read, canonical⟩ := Option.filter_eq_some_iff.mp parsed
  obtain ⟨w, -, bound⟩ := Option.bind_eq_some_iff.mp read
  refine ⟨of_decide_eq_true canonical, ?_⟩
  unfold RedisWire.binding at bound
  split at bound
  · cases bound
  split at bound
  · split at bound <;> cases bound
    rfl
  · cases bound

end C3Api.Continuation
