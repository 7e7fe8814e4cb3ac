import C3Api.Machine.Int64
import C3Api.Proxy.StripScan

/-!
# Token usage of a response frame

The extraction half of `proxy/usage_extract.go`: the counts carried by a
`response.completed` frame, read by the byte scanner.
-/

namespace C3Api.Proxy

open Machine

structure UsageTuple where
  it : Int := 0
  ot : Int := 0
  tt : Int := 0
  cr : Int := 0
  cc : Int := 0
  calls : Int := 0
  ii : Int := 0
  io : Int := 0

def parseDigits (digits : Bytes) : Option Nat :=
  if digits = [] then none
  else
    digits.foldlM (fun total c =>
      if 48 ≤ c ∧ c ≤ 57 then some (total * 10 + (c.toNat - 48)) else none) 0

def inRange (value : Int) : Option Int := if Fits value then some value else none

def parseInt (text : Bytes) : Option Int :=
  match text with
  | [] => none
  | c :: rest =>
    if c = 45 then (parseDigits rest).bind (fun n => inRange (-(n : Int)))
    else if c = 43 then (parseDigits rest).bind (fun n => inRange n)
    else (parseDigits text).bind (fun n => inRange n)

def scanIntValue (raw : Bytes) : Int :=
  match raw with
  | [] => 0
  | c :: rest =>
    if c = quote then
      match parseJSONString rest with
      | none => 0
      | some (val, _) => (parseInt val).getD 0
    else (parseInt raw).getD 0

def scanFieldInt64 (raw key : Bytes) : Int :=
  match scanKeyValue raw key with
  | none => 0
  | some value => scanIntValue value

def usageInterval (data usageKey : Bytes) : Option Bytes :=
  match scanKeyValue data usageKey with
  | none => none
  | some raw =>
    match raw with
    | [] => none
    | c :: _ => if c = openBrace ∨ c = openBracket then some raw else none

def deductCacheTokens (it cr cc : Int) : Int :=
  let cr := if cr < 0 then 0 else cr
  let cc := if cc < 0 then 0 else cc
  let cache := add64 cr cc
  if cache ≤ 0 then it
  else if it ≤ cache then 0
  else sub64 it cache

def usageFieldsFromInterval (raw itKey otKey crKey : Bytes) : UsageTuple :=
  let it := scanFieldInt64 raw itKey
  let details := scanKeyValue raw crKey
  let cr := match details with
    | none => 0
    | some found => scanFieldInt64 found (bytes "cached_tokens")
  let cc := match details with
    | none => 0
    | some found => scanFieldInt64 found (bytes "cache_write_tokens")
  { it := deductCacheTokens it cr cc
    ot := scanFieldInt64 raw otKey
    tt := scanFieldInt64 raw (bytes "total_tokens")
    cr := cr
    cc := cc }

def responsesCompletedUsage (data : Bytes) : Option UsageTuple :=
  match scanKeyValue data (bytes "response") with
  | none => none
  | some response =>
    match usageInterval response (bytes "usage") with
    | none => none
    | some raw =>
      some (usageFieldsFromInterval raw (bytes "input_tokens") (bytes "output_tokens")
        (bytes "input_tokens_details"))

/-- The usage of a frame whose top-level type is exactly `response.completed`. -/
def sniffResponsesCompletedUsage (data : Bytes) : Option UsageTuple :=
  match scanKeyValue data (bytes "type") with
  | none => none
  | some value =>
    match value with
    | [] => none
    | c :: rest =>
      if c = quote ∧ rest.dropLast = bytes "response.completed" then responsesCompletedUsage data
      else none

theorem inRange_fits {digits : Option Nat} {sign : Nat → Int} {value : Int}
    (found : digits.bind (fun n => inRange (sign n)) = some value) : Fits value := by
  obtain ⟨n, -, ranged⟩ := Option.bind_eq_some_iff.mp found
  unfold inRange at ranged
  split at ranged
  case isTrue fits =>
    cases ranged
    exact fits
  case isFalse => cases ranged

theorem parseInt_fits {text : Bytes} {value : Int} (parsed : parseInt text = some value) :
    Fits value := by
  cases text with
  | nil => cases parsed
  | cons c rest =>
    unfold parseInt at parsed
    dsimp only at parsed
    split at parsed
    · exact inRange_fits parsed
    split at parsed
    · exact inRange_fits parsed
    · exact inRange_fits parsed

theorem parseInt_getD_fits (text : Bytes) : Fits ((parseInt text).getD 0) := by
  cases parsed : parseInt text with
  | none => decide
  | some value => exact parseInt_fits parsed

theorem scanIntValue_fits (raw : Bytes) : Fits (scanIntValue raw) := by
  unfold scanIntValue
  cases raw with
  | nil => decide
  | cons c rest =>
    dsimp only
    split
    · split
      · decide
      · exact parseInt_getD_fits _
    · exact parseInt_getD_fits _

theorem scanFieldInt64_fits (raw key : Bytes) : Fits (scanFieldInt64 raw key) := by
  unfold scanFieldInt64
  split
  · decide
  · exact scanIntValue_fits _

theorem deductCacheTokens_fits {it : Int} (cr cc : Int) (fits : Fits it) :
    Fits (deductCacheTokens it cr cc) := by
  unfold deductCacheTokens
  dsimp only
  generalize add64 (if cr < 0 then 0 else cr) (if cc < 0 then 0 else cc) = cache
  split
  · exact fits
  split
  · decide
  · exact wrap_fits _

theorem sniffResponsesCompletedUsage_fits {data : Bytes} {u : UsageTuple}
    (found : sniffResponsesCompletedUsage data = some u) : Fits u.it ∧ Fits u.ot := by
  unfold sniffResponsesCompletedUsage at found
  split at found
  · cases found
  split at found
  · cases found
  split at found
  case isFalse => cases found
  unfold responsesCompletedUsage at found
  split at found
  · cases found
  split at found
  · cases found
  cases found
  exact ⟨deductCacheTokens_fits _ _ (scanFieldInt64_fits _ _), scanFieldInt64_fits _ _⟩

end C3Api.Proxy
