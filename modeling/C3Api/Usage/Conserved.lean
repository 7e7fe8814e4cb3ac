import C3Api.FiniteMap.Basic
import C3Api.Usage.Flush
import Mathlib.Data.List.Perm.Subperm

/-!
# No usage log is lost or inserted twice

Whatever the insertions report, a worker keeps every row of its shard until it is inserted,
put back or dropped. What a worker still holds and still has to count can be read off its
failing path, and `Balanced` says that all other paths agree with it.
-/

namespace C3Api.Usage

open Interleaving List Work Recorder

namespace Work

/-- The rows that a worker would put back or drop if every insertion failed from now on. -/
def held : Work → List UsageLog
  | finished => []
  | expired next => (next true).held
  | insertBatch _ next => (next .failed).held
  | refillLogs rows next => rows ++ next.held
  | addDrained _ next => next.held
  | drop row _ next => row :: next.held

def due : Work → Nat
  | finished => 0
  | expired next => (next true).due
  | insertBatch _ next => (next .failed).due
  | refillLogs _ next => next.due
  | addDrained n next => n + next.due
  | drop _ _ next => next.due

/-- All ways on agree on the rows; `landed` are rows inserted before. A dropped row is the
only one of its chunk that is not inserted. -/
def Balanced : Work → List UsageLog → Prop
  | finished, _ => True
  | expired next, landed => ∀ late, (next late).Balanced landed ∧
      (next late).held.Perm (next true).held ∧ (next late).due = (next true).due
  | insertBatch rows next, landed =>
      ((next .ok).Balanced (landed ++ rows) ∧ (rows ++ (next .ok).held).Perm (next .failed).held ∧
        (next .ok).due = (next .failed).due + rows.length) ∧
      ∀ outcome, outcome ≠ .ok → (next outcome).Balanced landed ∧
        (next outcome).held.Perm (next .failed).held ∧ (next outcome).due = (next .failed).due
  | refillLogs _ next, landed => next.Balanced landed
  | addDrained _ next, landed => next.Balanced landed
  | drop row chunk next, landed =>
      (row ∈ chunk ∧ (chunk.erase row).Subperm landed) ∧ next.Balanced landed

/-- A worker that balances and would give back these rows and count that many. -/
structure Accounts (w : Work) (rows : List UsageLog) (count : Nat) (landed : List UsageLog) :
    Prop where
  held : w.held.Perm rows
  due : w.due = count
  balanced : w.Balanced landed

variable {w : Work} {rows rest landed : List UsageLog} {count : Nat}

theorem Accounts.perm (accounts : w.Accounts rows count landed) {others : List UsageLog}
    (same : rows.Perm others) : w.Accounts others count landed :=
  ⟨accounts.held.trans same, accounts.due, accounts.balanced⟩

theorem finished_accounts (landed : List UsageLog) : finished.Accounts [] 0 landed :=
  ⟨.refl _, rfl, trivial⟩

theorem refillLogs_accounts (rows : List UsageLog) (next : w.Accounts rest count landed) :
    (refillLogs rows w).Accounts (rows ++ rest) count landed :=
  ⟨next.held.append_left rows, next.due, next.balanced⟩

theorem addDrained_accounts {n : Nat} (next : w.Accounts rest count landed) :
    (addDrained n w).Accounts rest (n + count) landed :=
  ⟨next.held, congrArg (n + ·) next.due, next.balanced⟩

theorem expired_accounts {next : Bool → Work} (each : ∀ late, (next late).Accounts rows count landed) :
    (expired next).Accounts rows count landed := by
  refine ⟨(each true).held, (each true).due, fun late => ⟨(each late).balanced, ?_, ?_⟩⟩
  · exact (each late).held.trans (each true).held.symm
  · rw [(each late).due, (each true).due]

theorem insertBatch_accounts {next : InsertOutcome → Work}
    (ok : (next .ok).Accounts rest (count + rows.length) (landed ++ rows))
    (others : ∀ outcome, outcome ≠ .ok → (next outcome).Accounts (rows ++ rest) count landed) :
    (insertBatch rows next).Accounts (rows ++ rest) count landed := by
  have failed := others .failed (by decide)
  refine ⟨failed.held, failed.due, ⟨ok.balanced, ?_, ?_⟩, fun outcome wrong => ?_⟩
  · exact (ok.held.append_left rows).trans failed.held.symm
  · rw [ok.due, failed.due]
  · have other := others outcome wrong
    exact ⟨other.balanced, other.held.trans failed.held.symm, by rw [other.due, failed.due]⟩

end Work

section

/-- What a bisection of a chunk reports: the rows it has inserted, those it gives back, and
at most one poison row, and then nothing is given back. -/
structure Reports (chunk inserted : List UsageLog) (r : Bisected) : Prop where
  rows : chunk.Perm (inserted ++ (r.poison.toList ++ r.refill))
  drained : r.drained = inserted.length
  alone : r.poison ≠ none → r.refill = []
  routed : r.isRouting = true → r.poison = none

variable {other inserted : List UsageLog} {r : Bisected}

theorem Reports.after_eq (reports : Reports other inserted r) (half : List UsageLog) :
    r.after half = ⟨r.poison, r.refill, r.drained + half.length, r.isRouting⟩ := by
  unfold Bisected.after
  split
  next routing => rw [reports.routed routing, routing]
  next settled => rw [eq_false_of_ne_true settled]

theorem Reports.after (reports : Reports other inserted r) (half : List UsageLog) :
    Reports (half ++ other) (half ++ inserted) (r.after half) := by
  rw [reports.after_eq]
  refine ⟨?_, ?_, reports.alone, reports.routed⟩
  · rw [append_assoc]
    exact reports.rows.append_left half
  · rw [reports.drained, length_append, Nat.add_comm]

theorem Reports.perm {chunk : List UsageLog} (reports : Reports chunk inserted r)
    (same : other.Perm chunk) : Reports other inserted r :=
  ⟨same.trans reports.rows, reports.drained, reports.alone, reports.routed⟩

/-- A continuation that balances for every report of the chunk balances after the
bisection. -/
theorem poisonBisect_accounts (chunk rest landed : List UsageLog) (count : Nat)
    (k : Bisected → Work)
    (continues : ∀ inserted r, Reports chunk inserted r →
      (k r).Accounts (r.poison.toList ++ r.refill ++ rest) (count + inserted.length)
        (landed ++ inserted)) : (poisonBisect chunk k).Accounts (chunk ++ rest) count landed := by
  fun_induction poisonBisect chunk k generalizing landed count rest with
  | case1 k => simpa using continues [] {} ⟨.refl _, rfl, fun _ => rfl, by simp⟩
  | case2 k first =>
    refine insertBatch_accounts ?_ fun outcome wrong => ?_
    · exact continues [first] { drained := 1 } ⟨.refl _, rfl, fun _ => rfl, by simp⟩
    cases outcome with
    | ok => exact absurd rfl wrong
    | failed =>
      simpa using continues [] { poison := some first } ⟨.refl _, rfl, fun _ => rfl, by simp⟩
    | partitionUnavailable =>
      simpa using continues [] { refill := [first], isRouting := true }
        ⟨.refl _, rfl, fun none => absurd rfl none, fun _ => rfl⟩
  | case3 k first second more chunk mid left right ihRight ihLeft =>
    have halves : left ++ right = first :: second :: more := take_append_drop _ _
    -- one half is in: the poison row, if any, is in the other one
    have after : ∀ half other, (first :: second :: more).Perm (half ++ other) →
        ∀ inserted r, Reports other inserted r →
          (k (r.after half)).Accounts (r.poison.toList ++ r.refill ++ rest)
            (count + half.length + inserted.length) (landed ++ half ++ inserted) := by
      intro half other parts inserted r reports
      have done := continues (half ++ inserted) (r.after half) ((reports.after half).perm parts)
      rw [reports.after_eq] at done ⊢
      rw [append_assoc landed, Nat.add_assoc, ← length_append]
      exact done
    have swapped : (right ++ (left ++ rest)).Perm (left ++ (right ++ rest)) := by
      rw [← append_assoc, ← append_assoc]
      exact perm_append_comm.append_right rest
    rw [← halves, append_assoc]
    refine insertBatch_accounts
      (ihRight rest _ _ (after left right (.of_eq halves.symm))) fun leftErr wrong => ?_
    have both : ∀ routing : Bool, (k { refill := chunk, isRouting := routing }).Accounts
        (right ++ (left ++ rest)) count landed := by
      intro routing
      have done := continues [] { refill := chunk, isRouting := routing }
        ⟨.refl _, rfl, fun none => absurd rfl none, fun _ => rfl⟩
      rw [append_nil] at done
      apply done.perm
      change (chunk ++ rest).Perm _
      rw [show chunk = left ++ right from halves.symm, append_assoc]
      exact swapped.symm
    have retried := ihLeft rest _ _
      (after right left ((List.Perm.of_eq halves.symm).trans perm_append_comm))
    cases leftErr with
    | ok => exact absurd rfl wrong
    | failed | partitionUnavailable =>
      refine (insertBatch_accounts retried fun rightErr wrong => ?_).perm swapped
      cases rightErr with
      | ok => exact absurd rfl wrong
      | failed | partitionUnavailable => exact both _

theorem afterBisect_accounts {chunk rest landed : List UsageLog}
    (reports : Reports chunk inserted r) :
    (afterBisect chunk rest r).Accounts (r.poison.toList ++ r.refill ++ rest) inserted.length
      (landed ++ inserted) := by
  have back : (refillLogs r.refill
      (.refillLogs rest (.addDrained r.drained .finished))).Accounts (r.refill ++ rest)
      inserted.length (landed ++ inserted) := by
    have counted : (addDrained r.drained .finished).Accounts [] inserted.length
        (landed ++ inserted) := by
      rw [← reports.drained]
      exact addDrained_accounts (finished_accounts _)
    have given := refillLogs_accounts rest counted
    rw [append_nil] at given
    exact refillLogs_accounts r.refill given
  unfold afterBisect
  split
  next routing =>
    rw [reports.routed routing]
    exact back
  · split
    next row found =>
      have rows := reports.rows
      have alone := reports.alone (by rw [found]; exact Option.some_ne_none row)
      rw [found, alone] at rows
      have member : row ∈ chunk := rows.mem_iff.mpr (by simp)
      refine found ▸ ⟨back.held.cons row, back.due, ⟨member, ?_⟩, back.balanced⟩
      have others : (chunk.erase row).Perm inserted := by
        apply (rows.erase row).trans
        have moved : (inserted ++ ((some row).toList ++ [])).Perm (row :: inserted) := by
          simp
        simpa using moved.erase row
      exact others.subperm.trans (sublist_append_right landed inserted).subperm
    next none =>
      rw [none]
      exact back

/-- A worker accounts for its whole shard. -/
theorem flushShard_accounts (cfg : Config) (s landed : List UsageLog) :
    (flushShard cfg s).Accounts s 0 landed := by
  fun_induction flushShard cfg s generalizing landed with
  | case1 s empty =>
    rw [List.isEmpty_iff.mp empty]
    exact finished_accounts landed
  | case2 s more chunk rest ih =>
    have back : (refillLogs s .finished).Accounts s 0 landed := by
      simpa using refillLogs_accounts s (finished_accounts landed)
    have inserting : (chunk ++ rest).Perm s := .of_eq (take_append_drop _ _)
    refine expired_accounts fun late => ?_
    cases late with
    | true => exact back
    | false =>
      refine (insertBatch_accounts ?_ fun outcome wrong => ?_).perm inserting
      · rw [Nat.zero_add]
        exact addDrained_accounts (ih _)
      cases outcome with
      | ok => exact absurd rfl wrong
      | partitionUnavailable => exact back.perm inserting.symm
      | failed =>
        dsimp only
        split
        · exact back.perm inserting.symm
        refine poisonBisect_accounts _ rest landed 0 _ fun inserted r reports => ?_
        rw [Nat.zero_add]
        exact afterBisect_accounts reports

end

section

def Call.held : Call → List UsageLog
  | .flush (.start pend) => pend
  | .flush (.running workers _) => workers.flatMap Work.held
  | _ => []

/-- A step that inserts, gives back and drops rows, as the flush with this number. -/
def Recorder.moved (r : Recorder) (flush : Nat) (rows back : List UsageLog)
    (drops : List (UsageLog × List UsageLog)) : Recorder :=
  { r with
    inserted := r.inserted ++ rows.map fun l => (flush, l)
    pending := r.pending ++ back
    dropped := r.dropped ++ drops }

variable {r r' : Recorder} {flush : Nat} (cfg : Config) (pend : List UsageLog)

variable {rows : List UsageLog}

section

variable (inserted : r'.inserted = r.inserted ++ rows.map fun l => (flush, l))

include inserted

theorem Recorder.table_append : r'.table = r.table ++ rows := by
  simp [table, inserted, Function.comp_def]

theorem Recorder.landed_append : r'.landed flush = r.landed flush ++ rows := by
  simp [landed, inserted, filter_map, Function.comp_def]

theorem Recorder.landed_other {i : Nat} (other : i ≠ flush) : r'.landed i = r.landed i := by
  have none : (rows.map fun l => (flush, l)).filter (fun e => e.1 = i) = [] := by
    simp [filter_eq_nil_iff, Ne.symm other]
  rw [landed, inserted, filter_append, none, append_nil]
  rfl

end

/-- A poison row is in its chunk, and all others of the chunk are among these rows. -/
def PoisonOf (landed : List UsageLog) (e : UsageLog × List UsageLog) : Prop :=
  e.1 ∈ e.2 ∧ (e.2.erase e.1).Subperm landed

/-- What one step of a balanced worker does. -/
theorem stepWork_spec {n : Nat} {input : Input} {w w' : Work} {landed : List UsageLog}
    (balanced : w.Balanced landed) (stepped : stepWork flush input r w = some (r', w', n)) :
    ∃ rows back drops, r' = r.moved flush rows back drops ∧
      w.held.Perm (rows ++ (back ++ (drops.map Prod.fst ++ w'.held))) ∧
      n + w'.due = w.due + rows.length ∧ w'.Balanced (landed ++ rows) ∧
      ∀ e ∈ drops, PoisonOf landed e := by
  have still : r = r.moved flush [] [] [] := by simp [moved]
  cases w with
  | finished => cases stepped
  | expired next =>
    cases stepped
    obtain ⟨next, held, due⟩ := balanced input.expired
    refine ⟨[], [], [], still, held.symm, ?_, by simpa using next, by simp⟩
    simp [Work.due, due]
  | insertBatch rows next =>
    simp only [stepWork] at stepped
    obtain ⟨⟨ok, held, due⟩, others⟩ := balanced
    split at stepped
    · cases stepped
      refine ⟨rows, [], [], by simp [moved], held.symm, ?_, ok, by simp⟩
      simp [Work.due, due]
    next outcome bad =>
      cases stepped
      obtain ⟨next, held, due⟩ := others input.outcome bad
      refine ⟨[], [], [], still, held.symm, ?_, by simpa using next, by simp⟩
      simp [Work.due, due]
  | refillLogs rows next =>
    cases stepped
    refine ⟨[], rows, [], by simp [moved], .refl _, ?_, ?_, by simp⟩
    · simp [Work.due]
    · rw [append_nil]
      exact balanced
  | addDrained m next =>
    cases stepped
    refine ⟨[], [], [], still, .refl _, ?_, ?_, by simp⟩
    · simp [Work.due]
    · rw [append_nil]
      exact balanced
  | drop row chunk next =>
    cases stepped
    obtain ⟨poison, balanced⟩ := balanced
    refine ⟨[], [], [(row, chunk)], by simp [moved], .refl _, ?_, ?_, ?_⟩
    · simp [Work.due]
    · simpa using balanced
    intro e member
    rw [mem_singleton.mp member]
    exact poison

theorem shards_perm : (shards cfg pend).flatten.Perm pend := by
  have all : (pend.filter fun l => shardOf cfg l ∈ List.range cfg.workers) = pend := by
    refine filter_eq_self.mpr fun l _ => decide_eq_true ?_
    exact mem_range.mpr (Nat.mod_lt _ cfg.workers_pos)
  have parts := FiniteMap.flatMap_filter_perm (shardOf cfg) (nodup_range (n := cfg.workers)) pend
  rw [all] at parts
  exact parts

theorem started_held : (((shards cfg pend).map (flushShard cfg)).flatMap held).Perm pend := by
  refine List.Perm.trans ?_ (shards_perm cfg pend)
  rw [flatMap_map, ← flatMap_id]
  exact .flatMap_left _ fun s _ => (flushShard_accounts cfg s []).held

theorem started_due : (((shards cfg pend).map (flushShard cfg)).map due).sum = 0 := by
  refine sum_eq_zero fun n member => ?_
  rw [map_map] at member
  obtain ⟨s, _, rfl⟩ := mem_map.mp member
  exact (flushShard_accounts cfg s []).due

end

/-- What the table holds of a call and what the call has counted. -/
def Call.Settles (r : Recorder) (i : Nat) : Call → Prop
  | .flush (.running workers drained) =>
      (∀ w ∈ workers, ∃ landed, landed.Subperm (r.landed i) ∧ w.Balanced landed) ∧
        drained + (workers.map due).sum = (r.landed i).length
  | .flush (.done drained) => drained = (r.landed i).length
  | _ => r.landed i = []

theorem Call.settles_congr {r r' : Recorder} {i : Nat} (same : r'.landed i = r.landed i)
    {p : Call} (settles : p.Settles r i) : p.Settles r' i := by
  unfold Call.Settles at settles ⊢
  rw [same]
  exact settles

/-- Every recorded log is in the table, pending, dropped or held by a call. -/
structure Conserved (σ : Pool Recorder Call) : Prop where
  counted : ∀ l, (σ.shared.recorded.count l : Int) = σ.shared.table.count l +
    σ.shared.pending.count l + (σ.shared.dropped.map Prod.fst).count l +
    total (fun p : Call => (p.held.count l : Int)) σ.procs
  tagged : ∀ e ∈ σ.shared.inserted, e.1 < σ.procs.length
  settled : ∀ i (p : Call), σ.procs[i]? = some p → p.Settles σ.shared i
  poison : ∀ e ∈ σ.shared.dropped, PoisonOf σ.shared.table e

variable {cfg : Config} {r r' : Recorder} {procs : List Call} {i : Nat} {p p' : Call}

theorem PoisonOf.mono {some more : List UsageLog} {e : UsageLog × List UsageLog}
    (poison : PoisonOf some e) (fewer : some.Subperm more) : PoisonOf more e :=
  ⟨poison.1, poison.2.trans fewer⟩

section

variable (before : Conserved ⟨r, procs⟩)

include before

theorem Conserved.start (starts : p.starts = true) : Conserved ⟨r, procs ++ [p]⟩ := by
  obtain ⟨counted, tagged, settled, poison⟩ := before
  have fresh : r.landed procs.length = [] := by
    have none : (r.inserted.filter fun e => e.1 = procs.length) = [] := by
      simp only [filter_eq_nil_iff, decide_eq_true_eq]
      exact fun e member => Nat.ne_of_lt (tagged e member)
    rw [landed, none, map_nil]
  have empty : p.held = [] ∧ p.Settles r procs.length := by
    unfold Call.starts at starts
    split at starts
    · exact ⟨rfl, fresh⟩
    · exact ⟨rfl, fresh⟩
    · cases starts
  refine ⟨fun l => ?_, fun e member => ?_, each_append empty.2 settled, poison⟩
  · rw [total_append, empty.1]
    simpa using counted l
  · rw [length_append]
    exact Nat.lt_add_right _ (tagged e member)

/-- A step of one call that moves rows and keeps their number. -/
theorem Conserved.step (found : procs[i]? = some p) (rows : List UsageLog)
    (drops : List (UsageLog × List UsageLog))
    (inserted : r'.inserted = r.inserted ++ rows.map fun l => (i, l))
    (dropped : r'.dropped = r.dropped ++ drops)
    (moved : ∀ l, r'.recorded.count l + (r.pending.count l + p.held.count l) =
      r.recorded.count l + (rows.count l + ((drops.map Prod.fst).count l +
        (r'.pending.count l + p'.held.count l))))
    (settles : p'.Settles r' i) (poison : ∀ e ∈ drops, PoisonOf r.table e) :
    Conserved ⟨r', procs.set i p'⟩ := by
  have inside : i < procs.length := (List.getElem?_eq_some_iff.mp found).1
  have table := table_append inserted
  refine ⟨fun l => ?_, fun e member => ?_, each_set settles fun j q other at_ => ?_,
    fun e member => ?_⟩
  · have earlier := before.counted l
    have kept := moved l
    simp only at earlier
    rw [total_set found]
    simp only [table, dropped, map_append, count_append]
    omega
  · rw [length_set]
    simp only [inserted] at member
    rcases mem_append.mp member with old | new
    · exact before.tagged e old
    · obtain ⟨l, _, rfl⟩ := mem_map.mp new
      exact inside
  · exact Call.settles_congr (landed_other inserted other) (before.settled j q at_)
  · simp only [dropped] at member
    have fewer : r.table.Subperm r'.table := by
      rw [table]
      exact (sublist_append_left _ _).subperm
    rcases mem_append.mp member with old | new
    · exact (before.poison e old).mono fewer
    · exact (poison e new).mono fewer

/-- A step that inserts and drops nothing. -/
theorem Conserved.calm (found : procs[i]? = some p) (inserted : r'.inserted = r.inserted)
    (dropped : r'.dropped = r.dropped)
    (moved : ∀ l, r'.recorded.count l + (r.pending.count l + p.held.count l) =
      r.recorded.count l + (r'.pending.count l + p'.held.count l))
    (settles : p'.Settles r' i) : Conserved ⟨r', procs.set i p'⟩ := by
  refine before.step found [] [] (by simpa using inserted) (by simpa using dropped) (fun l => ?_)
    settles (by simp)
  simpa using moved l

end

variable {workers : List Work} {k : Nat} {w : Work} {input : Input}

theorem sum_map_set (f : Work → Nat) (at_ : workers[k]? = some w) (w' : Work) :
    ((workers.set k w').map f).sum + f w = (workers.map f).sum + f w' := by
  have sums : total (fun v => (f v : Int)) (workers.set k w') = _ := total_set at_
  rw [total_natCast, total_natCast] at sums
  omega

theorem Work.isFinished_iff : w.isFinished = true ↔ w = .finished := by
  cases w <;> simp [isFinished]

theorem Conserved.work (before : Conserved ⟨r, procs⟩) {drained n : Nat} {w' : Work}
    (found : procs[i]? = some (.flush (.running workers drained))) (at_ : workers[k]? = some w)
    (stepped : stepWork i input r w = some (r', w', n)) :
    Conserved ⟨r', procs.set i (.flush (.running (workers.set k w') (drained + n)))⟩ := by
  obtain ⟨balanced, counted⟩ := before.settled i _ found
  obtain ⟨own, fewer, balance⟩ := balanced w (mem_of_getElem? at_)
  obtain ⟨rows, back, drops, rfl, held, due, balance, poison⟩ := stepWork_spec balance stepped
  have landed : (r.moved i rows back drops).landed i = r.landed i ++ rows :=
    Recorder.landed_append rfl
  refine before.step found rows drops rfl rfl (fun l => ?_) ⟨fun v member => ?_, ?_⟩
    fun e member => ((poison e member).mono fewer).mono (filter_sublist.map Prod.snd).subperm
  · have moved := held.count_eq l
    have others := sum_map_set (fun v : Work => v.held.count l) at_ w'
    simp only [count_append] at moved
    simp only [Call.held, Recorder.moved, count_flatMap, count_append, Function.comp_def]
    omega
  · rw [landed]
    rcases mem_or_eq_of_mem_set member with old | rfl
    · obtain ⟨rest, some, balance⟩ := balanced v old
      exact ⟨rest, some.trans (sublist_append_left _ _).subperm, balance⟩
    · exact ⟨own ++ rows, fewer.append (List.Subperm.refl rows), balance⟩
  · have others := sum_map_set Work.due at_ w'
    simp only at counted
    rw [landed, length_append]
    omega

theorem stepFlush_conserved {pc pc' : FlushPc} (before : Conserved ⟨r, procs⟩)
    (found : procs[i]? = some (.flush pc)) (stepped : stepFlush cfg i input r pc = some (r', pc')) :
    Conserved ⟨r', procs.set i (.flush pc')⟩ := by
  have settles := before.settled i _ found
  cases pc with
  | lock =>
    simp only [stepFlush] at stepped
    split at stepped
    · cases stepped
    · cases stepped
      exact before.calm found rfl rfl (fun l => rfl) settles
  | swap =>
    have none : (r.landed i).length = 0 := length_eq_zero_iff.mpr settles
    simp only [stepFlush] at stepped
    split at stepped
    · cases stepped
      exact before.calm found rfl rfl (fun l => rfl) none.symm
    · cases stepped
      refine before.calm found rfl rfl (fun l => ?_) settles
      simp [Call.held]
  | start pend =>
    have none : (r.landed i).length = 0 := length_eq_zero_iff.mpr settles
    simp only [stepFlush] at stepped
    split at stepped
    · cases stepped
      refine before.calm found rfl rfl (fun l => ?_) none.symm
      simp [Call.held]
    · cases stepped
      refine before.calm found rfl rfl (fun l => ?_) ⟨fun w member => ?_, ?_⟩
      · rw [Call.held, Call.held, (started_held cfg pend).count_eq]
      · obtain ⟨s, _, rfl⟩ := mem_map.mp member
        exact ⟨[], nil_subperm, (flushShard_accounts cfg s []).balanced⟩
      · rw [started_due, none]
  | running workers drained =>
    simp only [stepFlush] at stepped
    split at stepped
    next finished =>
      cases stepped
      have over' : ∀ w ∈ workers, w = .finished := fun w member =>
        Work.isFinished_iff.mp (all_eq_true.mp finished w member)
      have held : workers.flatMap Work.held = [] :=
        flatMap_eq_nil_iff.mpr fun w member => by rw [over' w member]; rfl
      have due : (workers.map Work.due).sum = 0 :=
        sum_eq_zero fun n member => by
          obtain ⟨w, at_, rfl⟩ := mem_map.mp member
          rw [over' w at_]
          rfl
      obtain ⟨_, counted⟩ := settles
      refine before.calm found rfl rfl (fun l => ?_) ?_
      · rw [Call.held, held]
        rfl
      · rw [due] at counted
        exact counted
    · split at stepped
      · cases stepped
      next w at_ =>
        obtain ⟨⟨s, w', n⟩, worked, same⟩ := Option.map_eq_some_iff.mp stepped
        cases same
        exact before.work found at_ worked
  | done drained => cases stepped

theorem Conserved.reachable {σ : Pool Recorder Call}
    (reached : Reachable (stepCall cfg) (fun σ l => legal σ l = true) newRecorder σ) :
    Conserved σ := by
  refine reached.invariant ?_ (fun r procs p starts before => before.start starts) ?_
  · exact ⟨by simp [newRecorder, table], by simp [newRecorder], by simp [newRecorder],
      by simp [newRecorder]⟩
  intro r procs i input p r' p' _ found stepped before
  cases p with
  | record l =>
    cases stepped
    refine before.calm found rfl rfl (fun k => ?_) (before.settled i _ found)
    simp [Call.held, count_append]
    omega
  | flush pc =>
    obtain ⟨⟨s, pc'⟩, flushed, same⟩ := Option.map_eq_some_iff.mp stepped
    cases same
    exact stepFlush_conserved before found flushed
  | recorded => cases stepped

def Call.idle : Call → Bool
  | .flush .lock => true
  | .flush (.done _) => true
  | .flush _ => false
  | _ => true

theorem Call.held_idle {p : Call} (idle : p.idle = true) : p.held = [] := by
  cases p with
  | flush pc =>
    cases pc with
    | lock | done _ => rfl
    | _ => cases idle
  | _ => rfl

/-- After any number of flushes every recorded log is in the table, pending or dropped, each
as often as it was recorded; a dropped row is the only one of its chunk that is not in the
table, and every flush has counted the rows it inserted. -/
theorem flushes_conserve {cfg : Config} {σ : Pool Recorder Call}
    (reached : Reachable (stepCall cfg) (fun σ l => legal σ l = true) newRecorder σ)
    (idle : ∀ p ∈ σ.procs, Call.idle p = true) :
    σ.shared.recorded.Perm (σ.shared.table ++ (σ.shared.pending ++ σ.shared.dropped.map Prod.fst)) ∧
      (∀ row chunk, (row, chunk) ∈ σ.shared.dropped →
        row ∈ chunk ∧ (chunk.erase row).Subperm σ.shared.table) ∧
      ∀ i drained, σ.procs[i]? = some (.flush (.done drained)) →
        drained = (σ.shared.landed i).length := by
  have conserved := Conserved.reachable reached
  refine ⟨perm_iff_count.mpr fun l => ?_, fun row chunk => conserved.poison (row, chunk),
    fun i drained found => conserved.settled i _ found⟩
  have counted := conserved.counted l
  have none : total (fun p : Call => (p.held.count l : Int)) σ.procs = 0 :=
    total_eq_zero fun p member => by rw [Call.held_idle (idle p member)]; rfl
  simp only [count_append]
  omega

def chatLog (requestID : String) : UsageLog := ⟨requestID, 7⟩

/-- Two logs are flushed in one chunk. The chunk fails, its first half is inserted, and the
other row fails again. -/
def bisectedRun : List (Label Call Input) :=
  [.start (.record (chatLog "a")), .step 0 {}, .start (.record (chatLog "b")), .step 1 {},
    .start (.flush .lock), .step 2 {}, .step 2 {}, .step 2 {}, .step 2 {},
    .step 2 { outcome := .failed }, .step 2 {}, .step 2 { outcome := .failed }, .step 2 {},
    .step 2 {}, .step 2 {}, .step 2 {}, .step 2 {}]

theorem flushes_conserve_bisected : ∃ σ,
    run (stepCall (Config.new 1 2)) legal newRecorder bisectedRun = some σ ∧
      σ.shared.table = [chatLog "a"] ∧ σ.shared.dropped.map Prod.fst = [chatLog "b"] ∧
      σ.procs.all Call.idle = true ∧ σ.shared.recorded.Perm
        (σ.shared.table ++ (σ.shared.pending ++ σ.shared.dropped.map Prod.fst)) := by
  have ends : (run (stepCall (Config.new 1 2)) legal newRecorder bisectedRun).map
      (fun σ => (σ.shared.table, σ.shared.dropped.map Prod.fst, σ.procs.all Call.idle)) =
        some ([chatLog "a"], [chatLog "b"], true) := by
    decide +kernel
  obtain ⟨σ, ran, seen⟩ := Option.map_eq_some_iff.mp ends
  have idle : σ.procs.all Call.idle = true := congrArg (fun s => s.2.2) seen
  have reached : Reachable (stepCall (Config.new 1 2)) (fun σ l => legal σ l = true) newRecorder σ :=
    reachable_of_run ran
  exact ⟨σ, ran, congrArg (fun s => s.1) seen, congrArg (fun s => s.2.1) seen, idle,
    (flushes_conserve reached (all_eq_true.mp idle)).1⟩

end C3Api.Usage
