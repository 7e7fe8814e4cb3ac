import C3Api.Interleaving.Pool

/-!
# Flushing usage logs

`flushLogs` and `poisonBisect` of `usage.go`. A flush takes the whole pending list, splits
it by user over its workers and inserts chunk by chunk; a chunk that fails is bisected,
and whatever is not inserted goes back to the pending list. The workers run at the same
time, and logs are recorded meanwhile. The failure counters and the water line are only
observed and left out.
-/

namespace C3Api.Usage

open Interleaving List

structure UsageLog where
  requestID : String
  userID : Int
  deriving DecidableEq

/-- `New` replaces values below one. -/
structure Config where
  workers : Nat
  batchSize : Nat
  workers_pos : 0 < workers
  batchSize_pos : 0 < batchSize

def Config.new (workers batchSize : Nat) : Config where
  workers := max workers 1
  batchSize := max batchSize 1
  workers_pos := Nat.lt_of_lt_of_le Nat.one_pos (Nat.le_max_right _ _)
  batchSize_pos := Nat.lt_of_lt_of_le Nat.one_pos (Nat.le_max_right _ _)

inductive InsertOutcome where
  | ok
  | failed
  | partitionUnavailable
  deriving DecidableEq

/-- What a worker has still to do: its atomic steps and how it goes on after them. -/
inductive Work where
  | finished
  | expired (next : Bool → Work)
  | insertBatch (rows : List UsageLog) (next : InsertOutcome → Work)
  | refillLogs (rows : List UsageLog) (next : Work)
  | addDrained (n : Nat) (next : Work)
  | drop (row : UsageLog) (chunk : List UsageLog) (next : Work)

structure Bisected where
  poison : Option UsageLog := none
  refill : List UsageLog := []
  drained : Nat := 0
  isRouting : Bool := false

/-- One half is in, and the bisection goes on in the other one. -/
def Bisected.after (r : Bisected) (half : List UsageLog) : Bisected :=
  if r.isRouting then ⟨none, r.refill, r.drained + half.length, true⟩
  else ⟨r.poison, r.refill, r.drained + half.length, false⟩

/-- The bisection of a chunk whose insertion has failed. Where both halves fail, all rows
go back. -/
def poisonBisect (chunk : List UsageLog) (k : Bisected → Work) : Work :=
  match chunk with
  | [] => k {}
  | [row] => .insertBatch [row] fun
    | .ok => k { drained := 1 }
    | .partitionUnavailable => k { refill := [row], isRouting := true }
    | .failed => k { poison := some row }
  | first :: second :: rest =>
    let chunk := first :: second :: rest
    let mid := chunk.length / 2
    let left := chunk.take mid
    let right := chunk.drop mid
    .insertBatch left fun
      | .ok => poisonBisect right fun r => k (r.after left)
      | leftErr => .insertBatch right fun
        | .ok => poisonBisect left fun r => k (r.after right)
        | rightErr => k { refill := chunk, isRouting :=
            leftErr = .partitionUnavailable || rightErr = .partitionUnavailable }
termination_by chunk.length
decreasing_by
  all_goals
    simp only [length_take, length_drop, length_cons]
    omega

/-- What follows a bisection: the poison row is dropped, and the rest of the chunk and of
the shard goes back. -/
def afterBisect (chunk rest : List UsageLog) (r : Bisected) : Work :=
  let back : Work := .refillLogs r.refill (.refillLogs rest (.addDrained r.drained .finished))
  if r.isRouting then back
  else
    match r.poison with
    | some row => .drop row chunk back
    | none => back

/-- The loop of a worker over its shard. -/
def flushShard (cfg : Config) (s : List UsageLog) : Work :=
  if s.isEmpty then .finished
  else
    let chunk := s.take cfg.batchSize
    let rest := s.drop cfg.batchSize
    .expired fun late =>
      if late then .refillLogs s .finished
      else .insertBatch chunk fun
        | .ok => .addDrained chunk.length (flushShard cfg rest)
        | .partitionUnavailable => .refillLogs s .finished
        | .failed =>
          if chunk.length = 1 then .refillLogs s .finished
          else poisonBisect chunk (afterBisect chunk rest)
termination_by s.length
decreasing_by
  have := cfg.batchSize_pos
  rename_i more
  have nonempty : 0 < s.length := by
    rw [length_pos_iff]
    simpa using more
  simp only [length_drop]
  omega

/-- The shard of a user: the number modulo 2⁶⁴, modulo the workers. -/
def shardOf (cfg : Config) (l : UsageLog) : Nat :=
  (l.userID % 18446744073709551616).toNat % cfg.workers

def shards (cfg : Config) (pend : List UsageLog) : List (List UsageLog) :=
  (range cfg.workers).map fun i => pend.filter fun l => shardOf cfg l = i

/-- `inserted` notes with each row the flush that inserted it, and `dropped` the chunk of
each poison row. `recorded` lists what was ever recorded. -/
structure Recorder where
  recorded : List UsageLog := []
  pending : List UsageLog := []
  flushMu : Bool := false
  inserted : List (Nat × UsageLog) := []
  dropped : List (UsageLog × List UsageLog) := []

def Recorder.table (r : Recorder) : List UsageLog := r.inserted.map Prod.snd

def Recorder.landed (r : Recorder) (flush : Nat) : List UsageLog :=
  (r.inserted.filter fun e => e.1 = flush).map Prod.snd

/-- What a step reads from outside; `worker` names the worker of a flush that moves. -/
structure Input where
  worker : Nat := 0
  outcome : InsertOutcome := .ok
  expired : Bool := false

inductive FlushPc where
  | lock
  | swap
  | start (pend : List UsageLog)
  | running (workers : List Work) (drained : Nat)
  | done (drained : Nat)

def stepWork (flush : Nat) (input : Input) (r : Recorder) : Work → Option (Recorder × Work × Nat)
  | .finished => none
  | .expired next => some (r, next input.expired, 0)
  | .insertBatch rows next =>
    match input.outcome with
    | .ok => some ({ r with inserted := r.inserted ++ rows.map fun l => (flush, l) }, next .ok, 0)
    | outcome => some (r, next outcome, 0)
  | .refillLogs rows next => some ({ r with pending := r.pending ++ rows }, next, 0)
  | .addDrained n next => some (r, next, n)
  | .drop row chunk next => some ({ r with dropped := r.dropped ++ [(row, chunk)] }, next, 0)

def Work.isFinished : Work → Bool
  | .finished => true
  | _ => false

def stepFlush (cfg : Config) (i : Nat) (input : Input) (r : Recorder) :
    FlushPc → Option (Recorder × FlushPc)
  | .lock => if r.flushMu then none else some ({ r with flushMu := true }, .swap)
  | .swap =>
    if r.pending.isEmpty then some ({ r with flushMu := false }, .done 0)
    else some ({ r with pending := [] }, .start r.pending)
  | .start pend =>
    if input.expired then some ({ r with pending := r.pending ++ pend, flushMu := false }, .done 0)
    else some (r, .running ((shards cfg pend).map (flushShard cfg)) 0)
  | .running workers drained =>
    if workers.all Work.isFinished then some ({ r with flushMu := false }, .done drained)
    else
      match workers[input.worker]? with
      | none => none
      | some w =>
        (stepWork i input r w).map fun s =>
          (s.1, .running (workers.set input.worker s.2.1) (drained + s.2.2))
  | .done _ => none

inductive Call where
  | record (l : UsageLog)
  | flush (pc : FlushPc)
  | recorded

def stepCall (cfg : Config) : Step Recorder Call Input := fun i input r call =>
  match call with
  | .record l => some ({ r with recorded := r.recorded ++ [l], pending := r.pending ++ [l] }, .recorded)
  | .flush pc => (stepFlush cfg i input r pc).map fun s => (s.1, .flush s.2)
  | .recorded => none

def Call.starts : Call → Bool
  | .record _ => true
  | .flush .lock => true
  | _ => false

def legal (_ : Pool Recorder Call) : Label Call Input → Bool
  | .start call => call.starts
  | .step _ _ => true

def newRecorder : Pool Recorder Call := { shared := {} }

end C3Api.Usage
