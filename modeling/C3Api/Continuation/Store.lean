import C3Api.Continuation.Wire
import C3Api.Interleaving.History
import C3Api.Interleaving.Pool

/-!
# The continuation store

`CreateOrRefresh`, `CreateOrRefreshBatch` and `Lookup` of `continuation/store.go` as
processes on one Redis. A script runs in one step; the scripts of a batch run one by one,
and others may run between them. The history of the store is kept beside it: every bind
that ran, every key that expired and every answer.
-/

namespace C3Api.Continuation

open Framing Interleaving List Option Function

/-- A value and the time on Redis's clock after which it is gone, in milliseconds. -/
structure Entry where
  value : Bytes
  expiresAt : Int

inductive Event where
  | bound (k : ContKey) (b : Binding)
  | expired (key : Bytes)
  | answered (k : ContKey) (result : Option Binding)
  deriving DecidableEq

structure Heap where
  redis : Bytes → Option Entry := fun _ => none
  history : List Event := []

inductive BindStatus where
  | created | refreshed | conflict
  deriving DecidableEq

def ttlSeconds : Int := 86400

/-- A key that is overdue goes when a command or the sweep comes upon it. -/
def expire (now : Int) (key : Bytes) (h : Heap) : Heap :=
  match h.redis key with
  | none => h
  | some e =>
    if e.expiresAt < now then
      { redis := Function.update h.redis key none, history := h.history ++ [.expired key] }
    else h

def luaCAS (now : Int) (key value : Bytes) (redis : Bytes → Option Entry) :
    BindStatus × (Bytes → Option Entry) :=
  let fresh : Entry := { value, expiresAt := now + 1000 * ttlSeconds }
  match redis key with
  | none => (.created, Function.update redis key (some fresh))
  | some e =>
    if e.value = value then (.refreshed, Function.update redis key (some fresh))
    else (.conflict, redis)

def luaLookup (now : Int) (key : Bytes) (redis : Bytes → Option Entry) : Option (Bytes × Int) :=
  (redis key).map fun e => (e.value, e.expiresAt - now)

def validateBind (accountID identityRevision : Int) (fingerprint : Digest) :
    Except String Unit :=
  if accountID ≤ 0 then .error ("continuation: invalid account_id " ++ toString accountID)
  else if identityRevision ≤ 0 then
    .error ("continuation: invalid identity revision " ++ toString identityRevision)
  else if fingerprint = zeroDigest then .error "continuation: zero fingerprint"
  else .ok ()

structure BindRequest where
  key : ContKey
  accountID : Int
  fingerprint : Digest
  identityRevision : Int

def BindRequest.binding (req : BindRequest) : Binding where
  accountID := req.accountID
  fingerprint := req.fingerprint
  identityRevision := req.identityRevision

/-- A request as far as it gets without Redis: the key it writes. -/
def BindRequest.prepare (hmac : Bytes → Bytes) (req : BindRequest) : Except String Bytes :=
  match validateBind req.accountID req.identityRevision req.fingerprint with
  | .error e => .error e
  | .ok () => redisKey hmac req.key

/-- A bind call has requests left to run, a single one or those of a batch; a lookup asks
for one key. -/
inductive Call where
  | bind (rest : List BindRequest) (results : List (Except String BindStatus))
  | lookup (k : ContKey)
  | found (result : Except String (Option Binding))
  | sweep (key : Bytes)
  | failed

/-- Redis's clock in milliseconds, the client's before and after the command in
nanoseconds, and whether the command is lost on its way. -/
structure Input where
  now : Int := 0
  start : Int := 0
  completion : Int := 0
  lost : Bool := false

/-- The binding of an answer that is still alive when the command completes. -/
def readBinding (input : Input) : Option (Bytes × Int) → Option Binding
  | none => none
  | some (value, pttl) =>
    if pttl ≤ 0 then none
    else if input.completion < input.start + pttl * 1000000 then parseBinding value
    else none

def write (now : Int) (key : Bytes) (req : BindRequest) (h : Heap) : BindStatus × Heap :=
  let cas := luaCAS now key (encodeWire req.binding) h.redis
  (cas.1, { redis := cas.2, history := h.history ++ [.bound req.key req.binding] })

def answer (k : ContKey) (result : Option Binding) (h : Heap) : Heap :=
  { h with history := h.history ++ [.answered k result] }

def step (hmac : Bytes → Bytes) : Step Heap Call Input := fun _ input h call =>
  match call with
  | .bind [] _ | .found _ | .failed => none
  | .bind (req :: rest) results =>
    match req.prepare hmac with
    | .error e => some (h, .bind rest (results ++ [.error e]))
    | .ok key =>
      if input.lost then some (h, .failed)
      else
        let written := write input.now key req (expire input.now key h)
        some (written.2, .bind rest (results ++ [.ok written.1]))
  | .lookup k =>
    match redisKey hmac k with
    | .error e => some (h, .found (.error e))
    | .ok key =>
      if input.lost then some (h, .failed)
      else
        let h := expire input.now key h
        let result := readBinding input (luaLookup input.now key h.redis)
        some (answer k result h, .found (.ok result))
  | .sweep key => some (expire input.now key h, .failed)

abbrev Runs (hmac : Bytes → Bytes) : Pool Heap Call → Prop :=
  Reachable (step hmac) (fun _ _ => True) ⟨{}, []⟩

/-- The first binding written under a tuple since its key last expired. -/
def firstWritten (hmac : Bytes → Bytes) (k : ContKey) (history : List Event) : Option Binding :=
  history.foldl (fun cur event =>
    match event with
    | .bound k' b => if k' = k then cur.or (some b) else cur
    | .expired key => if redisKey hmac k = .ok key then none else cur
    | .answered _ _ => cur) none

def Mentions (history : List Event) (k : ContKey) : Prop :=
  (∃ b, .bound k b ∈ history) ∨ ∃ result, .answered k result ∈ history

/-- The truncated digest tells the tuples of the history apart. -/
def CollisionFree (hmac : Bytes → Bytes) (history : List Event) : Prop :=
  ∀ k k', Mentions history k → Mentions history k' →
    hmac (canonicalTuple k) = hmac (canonicalTuple k') → canonicalTuple k = canonicalTuple k'

/-- What `validateBind` leaves of the bindings. -/
structure Binding.Valid (b : Binding) : Prop where
  account : 0 < b.accountID
  revision : 0 < b.identityRevision
  fingerprint : b.fingerprint ≠ zeroDigest
  acked : b.redisAcked = true

section

variable {hmac : Bytes → Bytes} {k k' : ContKey} {history : List Event}

@[simp] theorem firstWritten_bound (b : Binding) :
    firstWritten hmac k (history ++ [.bound k' b]) =
      if k' = k then (firstWritten hmac k history).or (some b)
      else firstWritten hmac k history := by
  simp [firstWritten]

@[simp] theorem firstWritten_expired (key : Bytes) :
    firstWritten hmac k (history ++ [.expired key]) =
      if redisKey hmac k = .ok key then none else firstWritten hmac k history := by
  simp [firstWritten]

@[simp] theorem firstWritten_answered (result : Option Binding) :
    firstWritten hmac k (history ++ [.answered k' result]) = firstWritten hmac k history := by
  simp [firstWritten]

theorem bound_of_firstWritten {b : Binding} (first : firstWritten hmac k history = some b) :
    .bound k b ∈ history := by
  induction history using List.reverseRecOn with
  | nil => cases first
  | append_singleton history event ih =>
    have earlier (known : firstWritten hmac k history = some b) :
        .bound k b ∈ history ++ [event] := mem_append_left _ (ih known)
    cases event with
    | bound k' b' =>
      rw [firstWritten_bound] at first
      split at first
      next same =>
        subst same
        rcases or_eq_some_iff.mp first with known | ⟨-, last⟩
        · exact earlier known
        · cases last
          exact mem_append_right _ mem_cons_self
      · exact earlier first
    | expired key =>
      rw [firstWritten_expired] at first
      split at first
      · cases first
      · exact earlier first
    | answered k' result => exact earlier (by rwa [firstWritten_answered] at first)

end

section

variable {hmac : Bytes → Bytes} {T : ContKey → Prop} {h : Heap}

/-- Keys of the tuples in view are keys of one tuple each. -/
def Apart (hmac : Bytes → Bytes) (T : ContKey → Prop) : Prop :=
  ∀ k k' key, T k → T k' → redisKey hmac k = .ok key → redisKey hmac k' = .ok key → k = k'

/-- An answer is the first binding written under its tuple since the key expired. -/
def Right (hmac : Bytes → Bytes) (before : List Event) (event : Event) : Prop :=
  ∀ k b, event = .answered k (some b) → firstWritten hmac k before = some b

/-- Every key in view holds the first binding written under its tuple since it expired, and
so did every answer. -/
structure Sound (hmac : Bytes → Bytes) (T : ContKey → Prop) (h : Heap) : Prop where
  stored : ∀ k key, T k → redisKey hmac k = .ok key →
    (h.redis key).map Entry.value = (firstWritten hmac k h.history).map encodeWire
  answers : History.Always (Right hmac) h.history
  valid : ∀ k b, .bound k b ∈ h.history → b.Valid

theorem sound_empty : Sound hmac T {} := by
  refine ⟨fun _ _ _ _ => rfl, History.always_nil, ?_⟩
  intro k b mem
  cases mem

theorem Sound.expire (sound : Sound hmac T h) (now : Int) (key : Bytes) :
    Sound hmac T (expire now key h) := by
  unfold Continuation.expire
  split
  · exact sound
  split
  · refine ⟨?_, sound.answers.snoc nofun, ?_⟩
    · intro k key' view made
      dsimp only
      rw [firstWritten_expired, made]
      by_cases same : key' = key
      · subst same
        simp
      · rw [if_neg (fun equal => same (Except.ok.inj equal)), update_of_ne same]
        exact sound.stored k key' view made
    · intro k b mem
      rcases mem_append.mp mem with old | new
      · exact sound.valid k b old
      · cases mem_singleton.mp new
  · exact sound

variable {req : BindRequest} {b : Binding} (now : Int) (key : Bytes)

theorem luaCAS_value (value key' : Bytes) (redis : Bytes → Option Entry) :
    ((luaCAS now key value redis).2 key').map Entry.value =
      if key' = key then ((redis key).map Entry.value).or (some value)
      else (redis key').map Entry.value := by
  unfold luaCAS
  by_cases same : key' = key
  · subst same
    split
    next free => simp [free]
    next e taken =>
      split
      next equal => simp [taken, equal]
      · simp [taken]
  · rw [if_neg same]
    split
    · simp [update_of_ne same]
    split
    · simp [update_of_ne same]
    · rfl

theorem of_prepare {key : Bytes} (prepared : req.prepare hmac = .ok key) :
    req.binding.Valid ∧ redisKey hmac req.key = .ok key := by
  unfold BindRequest.prepare at prepared
  split at prepared
  · cases prepared
  next valid =>
  refine ⟨?_, prepared⟩
  unfold validateBind at valid
  split at valid
  · cases valid
  next account =>
  split at valid
  · cases valid
  next revision =>
  split at valid
  · cases valid
  next fingerprint =>
  exact ⟨Int.not_le.mp account, Int.not_le.mp revision, fingerprint, rfl⟩

theorem Sound.write (apart : Apart hmac T) (sound : Sound hmac T h) {key : Bytes} (view : T req.key)
    (prepared : req.prepare hmac = .ok key) (now : Int) : Sound hmac T (write now key req h).2 := by
  obtain ⟨valid, made⟩ := of_prepare prepared
  unfold Continuation.write
  refine ⟨?_, sound.answers.snoc nofun, ?_⟩
  · intro k key' view' made'
    rw [luaCAS_value, firstWritten_bound]
    by_cases same : req.key = k
    · subst same
      cases Except.ok.inj (made'.symm.trans made)
      rw [if_pos rfl, if_pos rfl, sound.stored _ _ view made]
      cases firstWritten hmac req.key h.history <;> rfl
    · have keys : key' ≠ key := by
        rintro rfl
        exact same (apart _ _ _ view view' made made')
      rw [if_neg keys, if_neg same]
      exact sound.stored k key' view' made'
  · intro k b mem
    rcases mem_append.mp mem with old | new
    · exact sound.valid k b old
    · cases mem_singleton.mp new
      exact valid

variable {input : Input} {k : ContKey} {h' : Heap}

theorem readBinding_value {found : Option (Bytes × Int)} (read : readBinding input found = some b) :
    ∃ value pttl, found = some (value, pttl) ∧ parseBinding value = some b := by
  unfold readBinding at read
  split at read
  · cases read
  next value pttl =>
  split at read
  · cases read
  split at read
  · exact ⟨value, pttl, rfl, read⟩
  · cases read

theorem Sound.read (sound : Sound hmac T h) {key : Bytes} (view : T k)
    (made : redisKey hmac k = .ok key)
    (read : readBinding input (luaLookup input.now key h.redis) = some b) :
    firstWritten hmac k h.history = some b := by
  obtain ⟨value, pttl, found, parsed⟩ := readBinding_value read
  obtain ⟨e, held, entry⟩ := map_eq_some_iff.mp found
  obtain ⟨canonical, flag⟩ := encodeWire_of_parseBinding parsed
  have stored := sound.stored k key view made
  rw [held] at stored
  obtain ⟨first, written, wire⟩ := map_eq_some_iff.mp stored.symm
  have acked := (sound.valid k first (bound_of_firstWritten written)).acked
  cases entry
  obtain ⟨account, fingerprint, revision⟩ := encodeWire_inj (wire.trans canonical.symm)
  rw [written]
  cases first
  cases b
  simp only [some.injEq, Binding.mk.injEq]
  exact ⟨account, fingerprint, revision, acked.trans flag.symm⟩

theorem Sound.answer (sound : Sound hmac T h) {result : Option Binding}
    (right : ∀ b, result = some b → firstWritten hmac k h.history = some b) :
    Sound hmac T (answer k result h) := by
  refine ⟨?_, ?_, ?_⟩
  · intro k' key view made
    rw [Continuation.answer, firstWritten_answered]
    exact sound.stored k' key view made
  · apply sound.answers.snoc
    intro k' b same
    cases same
    exact right b rfl
  · intro k' b mem
    rcases mem_append.mp mem with old | new
    · exact sound.valid k' b old
    · cases mem_singleton.mp new

inductive Changes (hmac : Bytes → Bytes) (input : Input) (h : Heap) : Heap → Prop
  | none : Changes hmac input h h
  | sweep (key : Bytes) : Changes hmac input h (expire input.now key h)
  | write (req : BindRequest) (key : Bytes) (prepared : req.prepare hmac = .ok key) :
      Changes hmac input h (write input.now key req (expire input.now key h)).2
  | answer (k : ContKey) (key : Bytes) (made : redisKey hmac k = .ok key) :
      Changes hmac input h (answer k
        (readBinding input (luaLookup input.now key (expire input.now key h).redis))
        (expire input.now key h))

theorem step_changes {i : Nat} {call call' : Call}
    (acted : step hmac i input h call = some (h', call')) : Changes hmac input h h' := by
  cases call with
  | found | failed => cases acted
  | sweep key =>
    cases acted
    exact .sweep key
  | bind rest results =>
    cases rest with
    | nil => cases acted
    | cons req rest =>
      simp only [step] at acted
      split at acted
      · cases acted
        exact .none
      next key prepared =>
      split at acted <;> cases acted
      · exact .none
      · exact .write req key prepared
  | lookup k =>
    simp only [step] at acted
    split at acted
    · cases acted
      exact .none
    next key made =>
    split at acted <;> cases acted
    · exact .none
    · exact .answer k key made

theorem expire_history (h : Heap) : h.history <+: (expire now key h).history := by
  unfold expire
  split
  · exact prefix_rfl
  split
  · exact prefix_append _ _
  · exact prefix_rfl

theorem Mentions.mono {history history' : List Event} (mentions : Mentions history k)
    (grown : history <+: history') : Mentions history' k := by
  rcases mentions with ⟨b, mem⟩ | ⟨result, mem⟩
  · exact Or.inl ⟨b, grown.subset mem⟩
  · exact Or.inr ⟨result, grown.subset mem⟩

theorem Changes.history (changes : Changes hmac input h h') : h.history <+: h'.history := by
  cases changes with
  | none => exact prefix_rfl
  | sweep key => exact expire_history input.now key h
  | write req key | answer k key => exact (expire_history input.now key h).trans (prefix_append _ _)

theorem Changes.sound (changes : Changes hmac input h h') (apart : Apart hmac T)
    (view : ∀ k, Mentions h'.history k → T k) (sound : Sound hmac T h) : Sound hmac T h' := by
  cases changes with
  | none => exact sound
  | sweep key => exact sound.expire input.now key
  | write req key prepared =>
    have own : T req.key :=
      view _ (Or.inl ⟨req.binding, mem_append_right _ mem_cons_self⟩)
    exact (sound.expire input.now key).write apart own prepared input.now
  | answer k key made =>
    have own : T k := view _ (Or.inr ⟨_, mem_append_right _ mem_cons_self⟩)
    exact (sound.expire input.now key).answer fun b read =>
      (sound.expire input.now key).read own made read

/-- The store is sound as long as all its tuples are in view. -/
def SoundInView (hmac : Bytes → Bytes) (T : ContKey → Prop) (σ : Pool Heap Call) : Prop :=
  (∀ k, Mentions σ.shared.history k → T k) → Sound hmac T σ.shared

theorem soundInView_of_runs {σ : Pool Heap Call} (runs : Runs hmac σ) (apart : Apart hmac T) :
    SoundInView hmac T σ := by
  apply runs.invariant (fun _ => sound_empty) (fun _ _ _ _ before => before)
  intro s procs i input p s' p' _ _ acted before view
  have changes := step_changes acted
  exact changes.sound apart view (before fun k mentions => view k (mentions.mono changes.history))

end

/-- A lookup finds a binding only under the tuple it was written under, and it is the first
one written there since the key last expired. -/
theorem lookup_first_written (hmac : Bytes → Bytes) {σ : Pool Heap Call} (runs : Runs hmac σ)
    (collisionFree : CollisionFree hmac σ.shared.history) {before after : List Event}
    {k : ContKey} {b : Binding}
    (answered : σ.shared.history = before ++ .answered k (some b) :: after) :
    .bound k b ∈ before ∧ firstWritten hmac k before = some b := by
  have apart : Apart hmac (Mentions σ.shared.history) := by
    intro k k' key view view' made made'
    exact redisKey_inj (collisionFree k k' view view') made made'
  have sound := soundInView_of_runs runs apart fun _ mentions => mentions
  have first := sound.answers before _ after answered k b rfl
  exact ⟨bound_of_firstWritten first, first⟩

def userKey (userID : Int64) : ContKey where
  userID := userID
  groupID := 1
  routeClassID := zeroDigest
  protocolTag := [114]
  continuationID := [105]

def bindFor (userID : Int64) (accountID : Int) : BindRequest where
  key := userKey userID
  accountID := accountID
  fingerprint := ⟨1 :: List.replicate 31 0, rfl⟩
  identityRevision := 1

/-- User 1 binds account 7 and then 8, user 2 binds account 9 in a batch, and user 1 asks. -/
def twoUsers : Option (Pool Heap Call) :=
  run (step id) (fun _ _ => true) ⟨{}, []⟩
    [.start (.bind [bindFor 1 7] []), .start (.bind [bindFor 1 8, bindFor 2 9] []),
      .start (.lookup (userKey 1)), .step 0 {}, .step 1 {}, .step 1 {}, .step 2 {}]

theorem lookup_first_written_twoUsers : ∃ σ, twoUsers = some σ ∧
    .bound (userKey 1) (bindFor 1 7).binding ∈ σ.shared.history.take 3 ∧
    firstWritten id (userKey 1) (σ.shared.history.take 3) = some (bindFor 1 7).binding := by
  have ran : (twoUsers.map fun σ => σ.shared.history) = some
      [.bound (userKey 1) (bindFor 1 7).binding, .bound (userKey 1) (bindFor 1 8).binding,
        .bound (userKey 2) (bindFor 2 9).binding,
        .answered (userKey 1) (some (bindFor 1 7).binding)] := by
    decide +kernel
  obtain ⟨σ, reached, history⟩ := map_eq_some_iff.mp ran
  have runs : Runs id σ := (reachable_of_run reached).mono fun _ _ _ => trivial
  have answered : σ.shared.history = σ.shared.history.take 3 ++
      [.answered (userKey 1) (some (bindFor 1 7).binding)] := by
    rw [history]
    rfl
  exact ⟨σ, reached, lookup_first_written id runs (fun _ _ _ _ same => same) answered⟩

end C3Api.Continuation
