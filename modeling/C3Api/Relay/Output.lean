import Mathlib.Logic.Function.Iterate
import C3Api.Stream.Buffered

/-!
# The relay's downstream side

`Output` owns the write buffer of one response: whole frames, batched flushes and heartbeats.
The lock makes every operation one step; a heartbeat may come between any two of them.
Every operation either goes well or fails for good, and then the failure is recorded
(`Went`).
-/

namespace C3Api.Relay

open C3Api.Stream List

inductive IOErr where
  | write
  | flush
deriving DecidableEq

/-- The client side: how each write call of the response ends (`some n` fails after `n` bytes),
which flushes of the wire fail, and how many heartbeats fall due before each operation. -/
structure Client where
  writes : Nat → Option Nat := fun _ => none
  flushes : Nat → Bool := fun _ => false
  beats : Nat → Nat := fun _ => 0

namespace Client

def Breaks (client : Client) : Prop :=
  (∃ k, client.writes k ≠ none) ∨ ∃ k, client.flushes k = true

end Client

def bufferSize : Nat := 4096

def heartbeatFrame : List UInt8 :=
  -- ": keepalive\n"
  [58, 32, 107, 101, 101, 112, 97, 108, 105, 118, 101, 10]

structure Output where
  bw : Writer UInt8 := {}
  pending : Nat := 0
  pendingBusiness : Nat := 0
  firstFlushed : Bool := false
  committed : Bool := false
  businessSent : Bool := false
  writeFailed : Bool := false
  selfCanceled : Bool := false
  finished : Bool := false
  lastErr : Option IOErr := none
  flushBytes : Nat := 4096
  /-- The heartbeat timer runs. -/
  timer : Bool := false
  /-- Flushes of the wire so far. -/
  wireFlushes : Nat := 0
  /-- Operations so far. -/
  ops : Nat := 0

namespace Output

/-- All bytes written to this output. -/
def sent (o : Output) : List UInt8 := o.bw.sent

/-- Record the first I/O failure; `done` is whether the upstream context had ended before. -/
def failLocked (done : Bool) (o : Output) (err : IOErr) : Output :=
  if o.writeFailed then o
  else
    { o with
      writeFailed := true
      lastErr := o.lastErr.or (some err)
      selfCanceled := o.selfCanceled || !done }

/-- Account for what has passed the boundary of the wire. -/
def settleWireLocked (o : Output) (businessBuffered wireBuffered after : Nat) : Output :=
  let businessWired := min (wireBuffered - after) businessBuffered
  { o with
    businessSent := o.businessSent || decide (0 < businessWired)
    pendingBusiness := businessBuffered - businessWired }

variable (client : Client) (done : Bool)

def flushWireLocked (o : Output) : Output × Option IOErr :=
  ({ o with wireFlushes := o.wireFlushes + 1 },
    if client.flushes o.wireFlushes then some .flush else none)

def flushNoResetLocked (o : Output) : Output × Option IOErr :=
  let buffered := o.bw.buffer.length
  let bw := o.bw.flush client.writes
  let o' := { o with committed := true, bw }.settleWireLocked buffered buffered bw.buffer.length
  if bw.failed then (o'.failLocked done .write, some .write)
  else
    match o'.flushWireLocked client with
    | (o'', none) => (o'', none)
    | (o'', some err) => (o''.failLocked done err, some err)

/-- The same, with the count of pending bytes started anew. -/
def flushLocked (o : Output) : Output × Option IOErr :=
  if o.pending = 0 then (o, none)
  else
    match o.flushNoResetLocked client done with
    | (o', none) => ({ o' with pending := 0 }, none)
    | failed => failed

/-- Take one whole frame into the buffer; the first frame is flushed at once, later ones when
enough bytes are pending. -/
def writeFrame (o : Output) (frame : List UInt8) : Output × Option IOErr :=
  if o.finished || o.writeFailed then (o, none)
  else if frame.isEmpty then (o, none)
  else
    let buffered := o.bw.buffer.length
    let committed := o.committed || decide (o.bw.available bufferSize < frame.length)
    let (bw, n) := o.bw.write client.writes bufferSize frame
    let o' := { o with committed, bw, pending := o.pending + n }.settleWireLocked
      (buffered + n) (buffered + n) bw.buffer.length
    if bw.failed then (o'.failLocked done .write, some .write)
    else if !o'.firstFlushed then
      { o' with firstFlushed := true }.flushNoResetLocked client done
    else if o'.flushBytes ≤ o'.pending then o'.flushLocked client done
    else (o', none)

/-- The comment line itself, after the business bytes have gone. -/
def writeBeat (o : Output) : Output × Option IOErr :=
  let before := o.bw.buffer.length
  let (bw, n) := o.bw.write client.writes bufferSize heartbeatFrame
  let o' := { o with bw }.settleWireLocked before (before + n) bw.buffer.length
  if bw.failed then (o'.failLocked done .write, some .write)
  else
    let flushed := bw.flush client.writes
    let o'' := { o' with committed := true, bw := flushed }.settleWireLocked before (before + n)
      flushed.buffer.length
    if flushed.failed then (o''.failLocked done .write, some .write)
    else
      match o''.flushWireLocked client with
      | (o₃, none) => ({ o₃ with pending := 0 }, none)
      | (o₃, some err) => (o₃.failLocked done err, some err)

def writeHeartbeatLocked (o : Output) : Output × Option IOErr :=
  if o.bw.buffer.isEmpty then o.writeBeat client done
  else
    match o.flushLocked client done with
    | (o', none) => o'.writeBeat client done
    | failed => failed

def fireHeartbeat (o : Output) : Output :=
  if o.finished || o.writeFailed then o else (o.writeHeartbeatLocked client done).1

/-- The heartbeats that come before the next operation. -/
def beat (o : Output) : Output :=
  let o' := { o with ops := o.ops + 1 }
  if o.timer then Nat.iterate (fireHeartbeat client done) (client.beats o.ops) o' else o'

/-- Flush whole frames before the relay blocks on its upstream. -/
def drainFlush (o : Output) : Output × Option IOErr :=
  if o.finished || o.writeFailed then (o, none)
  else if o.pending = 0 then (o, none)
  else if o.bw.buffer.isEmpty then ({ o with pending := 0 }, none)
  else o.flushLocked client done

def stopTimer (o : Output) : Output := { o with timer := false }

/-- Writable, with every buffered byte counted as pending. -/
structure Healthy (o : Output) : Prop where
  unfinished : o.finished = false
  unfailed : o.writeFailed = false
  uncanceled : o.selfCanceled = false
  working : o.bw.failed = false
  counted : o.bw.buffer ≠ [] → 0 < o.pending

/-- A write has failed while the upstream context was alive: every later operation is void. -/
def Ruined (o : Output) : Prop := o.writeFailed = true ∧ o.selfCanceled = true

/-- How an operation that appends `bytes` ends: well, or with a recorded failure. -/
def Went (o : Output) (bytes : List UInt8) (r : Output × Option IOErr) : Prop :=
  (r.2 = none ∧ r.1.Healthy ∧ r.1.sent = o.sent ++ bytes ∧ r.1.timer = o.timer) ∨
    (r.2 ≠ none ∧ r.1.writeFailed = true ∧ (done = false → r.1.selfCanceled = true) ∧
      client.Breaks)

variable {client done}

variable {o o' : Output}

variable {bytes : List UInt8} {r : Output × Option IOErr}

theorem Went.fail {err : IOErr} (unfailed : o'.writeFailed = false) (breaks : client.Breaks) :
    Went client done o bytes (o'.failLocked done err, some err) := by
  refine .inr ⟨by simp, ?_, ?_, breaks⟩
  · simp [failLocked, unfailed]
  · intro alive
    simp [failLocked, unfailed, alive]

theorem Went.after {first second : List UInt8} (sent : o'.sent = o.sent ++ first)
    (timer : o'.timer = o.timer) (went : Went client done o' second r) :
    Went client done o (first ++ second) r := by
  rcases went with ⟨fine, healthy, more, same⟩ | failed
  · refine .inl ⟨fine, healthy, ?_, same.trans timer⟩
    rw [more, sent, append_assoc]
  · exact .inr failed

theorem Went.flushed (sent : o'.sent = o.sent ++ bytes) (timer : o'.timer = o.timer)
    (went : Went client done o' [] r) : Went client done o bytes r := by
  have both := Went.after sent timer went
  rwa [append_nil] at both

variable (client done)

theorem flushNoResetLocked_went (unfinished : o.finished = false) (unfailed : o.writeFailed = false)
    (uncanceled : o.selfCanceled = false) (working : o.bw.failed = false) :
    Went client done o [] (o.flushNoResetLocked client done) ∧
      ((o.flushNoResetLocked client done).2 = none →
        (o.flushNoResetLocked client done).1.bw.buffer = []) := by
  unfold flushNoResetLocked
  rcases o.bw.flush_cases client.writes working with ⟨fine, emptied, same⟩ | ⟨failed, broke⟩
  · simp only [fine, Bool.false_eq_true, if_false, flushWireLocked]
    by_cases lost : client.flushes o.wireFlushes = true
    · simp only [settleWireLocked, lost, if_true]
      exact ⟨.fail unfailed (.inr ⟨_, lost⟩), nofun⟩
    · simp only [settleWireLocked, lost]
      refine ⟨.inl ⟨rfl, ⟨unfinished, unfailed, uncanceled, fine, ?_⟩, ?_, rfl⟩, fun _ => emptied⟩
      · exact fun held => absurd emptied held
      · rw [append_nil]
        exact same
  · simp only [failed, if_true]
    exact ⟨.fail unfailed (.inl broke), nofun⟩

section

variable (healthy : o.Healthy)

include healthy

theorem Healthy.emptied (nothing : o.pending = 0) : o.bw.buffer = [] := by
  by_contra held
  have := healthy.counted held
  omega

theorem flushLocked_went :
    Went client done o [] (o.flushLocked client done) ∧
      ((o.flushLocked client done).2 = none → (o.flushLocked client done).1.bw.buffer = []) := by
  unfold flushLocked
  by_cases nothing : o.pending = 0
  · rw [if_pos nothing]
    exact ⟨.inl ⟨rfl, healthy, (append_nil _).symm, rfl⟩, fun _ => healthy.emptied nothing⟩
  rw [if_neg nothing]
  obtain ⟨went, emptied⟩ := flushNoResetLocked_went client done healthy.unfinished
    healthy.unfailed healthy.uncanceled healthy.working
  generalize o.flushNoResetLocked client done = result at went emptied
  rcases result with ⟨o', _ | e⟩
  · obtain ⟨-, well, same, timer⟩ | ⟨wrong, -⟩ := went
    · refine ⟨.inl ⟨rfl, ⟨well.unfinished, well.unfailed, well.uncanceled, well.working, ?_⟩,
        same, timer⟩, fun _ => emptied rfl⟩
      exact fun held => absurd (emptied rfl) held
    · exact absurd rfl wrong
  · exact ⟨went, nofun⟩

theorem writeFrame_went (frame : List UInt8) :
    Went client done o frame (o.writeFrame client done frame) := by
  unfold writeFrame
  rw [if_neg (by simp [healthy.unfinished, healthy.unfailed])]
  by_cases void : frame.isEmpty = true
  · rw [if_pos void, List.isEmpty_iff.mp void]
    exact .inl ⟨rfl, healthy, (append_nil _).symm, rfl⟩
  rw [if_neg void]
  rcases o.bw.write_cases client.writes bufferSize frame healthy.working with
    ⟨fine, more, count⟩ | ⟨failed, broke⟩
  · simp only [fine, Bool.false_eq_true, if_false, count]
    have positive : 0 < frame.length := by
      rw [length_pos_iff]
      simpa using void
    split
    · refine Went.flushed ?_ ?_ (flushNoResetLocked_went client done ?_ ?_ ?_ ?_).1
      · exact more
      · rfl
      · exact healthy.unfinished
      · exact healthy.unfailed
      · exact healthy.uncanceled
      · exact fine
    · split
      · refine Went.flushed ?_ ?_ (flushLocked_went client done ?_).1
        · exact more
        · rfl
        exact ⟨healthy.unfinished, healthy.unfailed, healthy.uncanceled, fine,
          fun _ => Nat.add_pos_right _ positive⟩
      · refine .inl ⟨rfl, ?_, more, rfl⟩
        exact ⟨healthy.unfinished, healthy.unfailed, healthy.uncanceled, fine,
          fun _ => Nat.add_pos_right _ positive⟩
  · simp only [failed, if_true]
    exact .fail healthy.unfailed (.inl broke)

theorem drainFlush_went :
    Went client done o [] (o.drainFlush client done) ∧
      ((o.drainFlush client done).2 = none → (o.drainFlush client done).1.bw.buffer = []) := by
  unfold drainFlush
  rw [if_neg (by simp [healthy.unfinished, healthy.unfailed])]
  by_cases nothing : o.pending = 0
  · rw [if_pos nothing]
    exact ⟨.inl ⟨rfl, healthy, (append_nil _).symm, rfl⟩, fun _ => healthy.emptied nothing⟩
  rw [if_neg nothing]
  by_cases idle : o.bw.buffer.isEmpty = true
  · have emptied := List.isEmpty_iff.mp idle
    rw [if_pos idle]
    refine ⟨.inl ⟨rfl, ⟨healthy.unfinished, healthy.unfailed, healthy.uncanceled,
      healthy.working, ?_⟩, (append_nil _).symm, rfl⟩, fun _ => emptied⟩
    exact fun held => absurd emptied held
  · rw [if_neg idle]
    exact flushLocked_went client done healthy

/-- A drained output has everything written to it on the wire. -/
theorem drainFlush_wire :
    ((o.drainFlush client false).2 = none ∧ (o.drainFlush client false).1.Healthy ∧
        (o.drainFlush client false).1.bw.wire = o.sent ∧
        (o.drainFlush client false).1.sent = o.sent) ∨
      (o.drainFlush client false).2 ≠ none ∧ (o.drainFlush client false).1.Ruined ∧
        client.Breaks := by
  obtain ⟨went, emptied⟩ := drainFlush_went client false healthy
  rcases went with ⟨fine, well, sent, -⟩ | ⟨err, failed, canceled, broke⟩
  · rw [append_nil] at sent
    refine .inl ⟨fine, well, ?_, sent⟩
    rw [← sent, Output.sent, Writer.sent, emptied fine, append_nil]
  · exact .inr ⟨err, ⟨failed, canceled rfl⟩, broke⟩

theorem writeBeat_went : Went client done o heartbeatFrame (o.writeBeat client done) := by
  unfold writeBeat
  rcases o.bw.write_cases client.writes bufferSize heartbeatFrame healthy.working with
    ⟨fine, more, -⟩ | ⟨failed, broke⟩
  · simp only [fine, Bool.false_eq_true, if_false]
    rcases (o.bw.write client.writes bufferSize heartbeatFrame).1.flush_cases client.writes fine with
      ⟨flushed, emptied, same⟩ | ⟨failed, broke⟩
    · simp only [flushed, Bool.false_eq_true, if_false, flushWireLocked, settleWireLocked]
      by_cases lost : client.flushes o.wireFlushes = true
      · simp only [lost, if_true]
        exact .fail healthy.unfailed (.inr ⟨_, lost⟩)
      · simp only [lost]
        refine .inl ⟨rfl, ⟨healthy.unfinished, healthy.unfailed, healthy.uncanceled, flushed, ?_⟩,
          ?_, rfl⟩
        · exact fun held => absurd emptied held
        · exact same.trans more
    · simp only [failed, if_true]
      exact .fail healthy.unfailed (.inl broke)
  · simp only [failed, if_true]
    exact .fail healthy.unfailed (.inl broke)

theorem writeHeartbeatLocked_went :
    Went client done o heartbeatFrame (o.writeHeartbeatLocked client done) := by
  unfold writeHeartbeatLocked
  by_cases idle : o.bw.buffer.isEmpty = true
  · rw [if_pos idle]
    exact writeBeat_went client done healthy
  rw [if_neg idle]
  have went := (flushLocked_went client done healthy).1
  generalize o.flushLocked client done = result at went
  rcases result with ⟨o', _ | e⟩
  · obtain ⟨-, well, same, timer⟩ | ⟨wrong, -⟩ := went
    · exact Went.after same timer (writeBeat_went client done well)
    · exact absurd rfl wrong
  · obtain ⟨wrong, -⟩ | failed := went
    · cases wrong
    · exact .inr failed

/-- Heartbeats leave a healthy output healthy unless one of them fails. -/
theorem beats_cases (n : Nat) :
    ((Nat.iterate (fireHeartbeat client false) n o).Healthy ∧
        (Nat.iterate (fireHeartbeat client false) n o).timer = o.timer) ∨
      (Nat.iterate (fireHeartbeat client false) n o).Ruined ∧ client.Breaks := by
  refine Function.Iterate.rec (fun o' : Output => o'.Healthy ∧ o'.timer = o.timer ∨
    o'.Ruined ∧ client.Breaks) (.inl ⟨healthy, rfl⟩) ?_ n
  rintro o' (⟨well, timer⟩ | ⟨ruined, broke⟩)
  · rw [fireHeartbeat, if_neg (by simp [well.unfinished, well.unfailed])]
    rcases writeHeartbeatLocked_went client false well with
      ⟨-, healthy', -, same⟩ | ⟨-, failed, canceled, broke⟩
    · exact .inl ⟨healthy', same.trans timer⟩
    · exact .inr ⟨⟨failed, canceled rfl⟩, broke⟩
  · rw [fireHeartbeat, if_pos (by simp [ruined.1])]
    exact .inr ⟨ruined, broke⟩

def Quiet (o : Output) : Prop := o.timer = false ∨ ∀ k, client.beats k = 0

theorem beat_cases :
    ((o.beat client false).Healthy ∧ (o.beat client false).timer = o.timer ∧
        (Quiet client o → (o.beat client false).sent = o.sent)) ∨
      (o.beat client false).Ruined ∧ client.Breaks := by
  have counted : ({ o with ops := o.ops + 1 } : Output).Healthy :=
    ⟨healthy.unfinished, healthy.unfailed, healthy.uncanceled, healthy.working, healthy.counted⟩
  unfold beat
  split
  next runs =>
    rcases beats_cases client counted (client.beats o.ops) with ⟨well, timer⟩ | failed
    · refine .inl ⟨well, timer, fun quiet => ?_⟩
      rcases quiet with stopped | never
      · simp [runs] at stopped
      · rw [never]
        rfl
    · exact .inr failed
  · exact .inl ⟨counted, rfl, fun _ => rfl⟩

end

theorem writeFrame_ruined (ruined : o.Ruined) (frame : List UInt8) :
    o.writeFrame client done frame = (o, none) := by
  simp [writeFrame, ruined.1]

theorem drainFlush_ruined (ruined : o.Ruined) : o.drainFlush client done = (o, none) := by
  simp [drainFlush, ruined.1]

theorem beat_ruined (ruined : o.Ruined) : (o.beat client done).Ruined := by
  have void : ∀ o' : Output, o'.Ruined → fireHeartbeat client done o' = o' := by
    intro o' ruined'
    simp [fireHeartbeat, ruined'.1]
  unfold beat
  split
  · rw [Function.iterate_fixed (void { o with ops := o.ops + 1 } ruined)]
    exact ruined
  · exact ruined

end Output

end C3Api.Relay
