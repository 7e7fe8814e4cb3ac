import C3Api.Encoding.Scan

/-!
# Health keys and their texts

A health record belongs to an account, a quality class, a candidate identity and an
identity revision.  Redis knows it by one text, the four parts joined by colons; a key
whose numbers are words, whose parts hold no colon and whose identity is not empty is read
back from it.
-/

namespace C3Api.Health

open List Machine Scan

abbrev Text := List Char

inductive HealthState where
  | opened
  | retryAfter
  | probing
  | ready
deriving DecidableEq

namespace HealthState

def string : HealthState → String
  | opened => "OPEN"
  | retryAfter => "RETRY_AFTER"
  | probing => "PROBING"
  | ready => "READY"

def severity : HealthState → Nat
  | opened => 4
  | retryAfter => 3
  | probing => 2
  | ready => 1

/-- The state a record's text stands for; an unknown one is taken as `OPEN`. -/
def ofString (text : String) : HealthState :=
  if text = "OPEN" then opened
  else if text = "RETRY_AFTER" then retryAfter
  else if text = "PROBING" then probing
  else if text = "READY" then ready
  else opened

@[simp] theorem ofString_string (state : HealthState) : ofString state.string = state := by
  cases state <;> decide

end HealthState

/-- What follows the number is not looked at. -/
def scanInt (s : Text) : Option Int := (scanDecimal s).map Prod.fst

structure HealthKey where
  accountID : Int
  quality : Text
  identity : Text
  identityRevision : Int
deriving DecidableEq

def identityAny : Text := ['*']

namespace HealthKey

def string (k : HealthKey) : Text :=
  [':'].intercalate
    [formatInt k.accountID, k.quality, k.identity, formatInt k.identityRevision]

/-- The writers fill in hexadecimal texts or the wildcard, and refuse an empty identity. -/
structure Plain (k : HealthKey) : Prop where
  account : Fits k.accountID
  revision : Fits k.identityRevision
  quality : ':' ∉ k.quality
  identity : ':' ∉ k.identity
  named : k.identity ≠ []

instance (k : HealthKey) : Decidable k.Plain :=
  decidable_of_iff (Fits k.accountID ∧ Fits k.identityRevision ∧ ':' ∉ k.quality ∧
      ':' ∉ k.identity ∧ k.identity ≠ [])
    ⟨fun ⟨account, revision, quality, identity, named⟩ =>
        ⟨account, revision, quality, identity, named⟩,
      fun plain => ⟨plain.account, plain.revision, plain.quality, plain.identity, plain.named⟩⟩

end HealthKey

def parseHealthKey (s : Text) : Option HealthKey :=
  match s.splitOn ':' with
  | [account, quality, identity, revision] =>
    if identity = [] then none
    else
      match scanInt account, scanInt revision with
      | some accountID, some identityRevision =>
        some ⟨accountID, quality, identity, identityRevision⟩
      | _, _ => none
  | _ => none

/-! ## Reading back -/

namespace HealthKey

@[simp] theorem parse_string {k : HealthKey} (plain : k.Plain) :
    parseHealthKey k.string = some k := by
  have parts : k.string.splitOn ':' =
      [formatInt k.accountID, k.quality, k.identity, formatInt k.identityRevision] := by
    apply splitOn_intercalate
    · intro part member
      simp only [mem_cons, not_mem_nil, or_false] at member
      rcases member with rfl | rfl | rfl | rfl
      · exact colon_notMem_formatInt _
      · exact plain.quality
      · exact plain.identity
      · exact colon_notMem_formatInt _
    · exact cons_ne_nil _ _
  simp [parseHealthKey, parts, plain.named, scanInt, scanDecimal_formatInt plain.account,
    scanDecimal_formatInt plain.revision]

theorem string_injective {k l : HealthKey} (plain : k.Plain) (other : l.Plain)
    (same : k.string = l.string) : k = l := by
  have read := parse_string plain
  rw [same, parse_string other] at read
  exact (Option.some.inj read).symm

end HealthKey

def accountStart (accountID : Int) : Text := formatInt accountID ++ [':']

end C3Api.Health
