import C3Api.Usage.Conserved

/-!
# Outages of the database

A bisection takes a row for poison that fails alone after the other halves went through. A
database that is down, back and down again while a worker runs looks the same to it where the
results fall so, and nowhere else is a log dropped.
-/

namespace C3Api.Usage

open List Work

/-- Where the rows of a worker end up. -/
structure Ending where
  inserted : List UsageLog := []
  refilled : List UsageLog := []
  dropped : List UsageLog := []

/-- A worker whose calls of the database are numbered: the result of a call depends on its
number and not on its rows. -/
def Work.ending (late : Nat → Bool) (result : Nat → InsertOutcome) : Nat → Work → Ending
  | _, finished => {}
  | n, expired next => (next (late n)).ending late result n
  | n, insertBatch rows next =>
    let after := (next (result n)).ending late result (n + 1)
    if result n = .ok then { after with inserted := rows ++ after.inserted } else after
  | n, refillLogs rows next =>
    let after := next.ending late result n
    { after with refilled := rows ++ after.refilled }
  | n, addDrained _ next => next.ending late result n
  | n, drop row _ next =>
    let after := next.ending late result n
    { after with dropped := row :: after.dropped }

/-- A bisection of some rows, from a call on: one half goes through each time, and the row that
is left fails alone. -/
inductive Isolates (result : Nat → InsertOutcome) : Nat → Nat → Prop
  | alone {n : Nat} (fails : result n = .failed) : Isolates result 1 n
  | right {len n : Nat} (several : 2 ≤ len) (first : result n = .ok)
    (rest : Isolates result (len - len / 2) (n + 1)) : Isolates result len n
  | left {len n : Nat} (several : 2 ≤ len) (first : result n ≠ .ok) (second : result (n + 1) = .ok)
    (rest : Isolates result (len / 2) (n + 2)) : Isolates result len n

/-- While a shard of some rows is flushed, from a call on, a chunk fails and is bisected down to
a row that fails alone. -/
inductive Torn (cfg : Config) (late : Nat → Bool) (result : Nat → InsertOutcome) : Nat → Nat → Prop
  | here {len n : Nat} (due : late n = false) (fails : result n = .failed)
    (several : 2 ≤ min cfg.batchSize len)
    (isolates : Isolates result (min cfg.batchSize len) (n + 1)) : Torn cfg late result len n
  | later {len n : Nat} (due : late n = false) (more : 0 < len) (through : result n = .ok)
    (rest : Torn cfg late result (len - cfg.batchSize) (n + 1)) : Torn cfg late result len n

variable {late : Nat → Bool} {result : Nat → InsertOutcome} {n : Nat}

/-- Whatever the results, a balanced worker loses no row. -/
theorem ending_perm (late : Nat → Bool) (result : Nat → InsertOutcome) {w : Work}
    {landed : List UsageLog} (balanced : w.Balanced landed) :
    ((w.ending late result n).inserted ++ ((w.ending late result n).refilled ++
      (w.ending late result n).dropped)).Perm w.held := by
  induction w generalizing landed n with
  | finished => exact .refl _
  | expired next ih =>
    obtain ⟨next, held, _⟩ := balanced (late n)
    exact (ih _ next).trans held
  | insertBatch rows next ih =>
    obtain ⟨⟨ok, held, _⟩, others⟩ := balanced
    unfold ending
    split
    next through =>
      rw [through, append_assoc]
      exact ((ih _ ok).append_left rows).trans held
    next failed =>
      obtain ⟨next, held, _⟩ := others _ failed
      exact (ih _ next).trans held
  | refillLogs rows next ih =>
    have moved := (ih (n := n) balanced).append_left rows
    simp only [ending, held, append_assoc]
    exact (perm_append_comm_assoc _ _ _).trans moved
  | addDrained m next ih => exact ih balanced
  | drop row chunk next ih =>
    have moved := (ih (n := n) balanced.2).cons row
    simp only [ending, held, ← append_assoc] at moved ⊢
    exact perm_middle.trans moved

def Bisected.Drops (b : Bisected) : Prop := b.isRouting = false ∧ b.poison.isSome = true

theorem Bisected.after_drops (b : Bisected) (half : List UsageLog) :
    (b.after half).Drops ↔ b.Drops := by
  cases routing : b.isRouting <;> simp [after, Drops, routing]

theorem isolates_one : Isolates result 1 n ↔ result n = .failed := by
  refine ⟨fun isolates => ?_, .alone⟩
  cases isolates with
  | alone fails => exact fails
  | right several | left several => omega

theorem isolates_several {len : Nat} (several : 2 ≤ len) : Isolates result len n ↔
    result n = .ok ∧ Isolates result (len - len / 2) (n + 1) ∨
      result n ≠ .ok ∧ result (n + 1) = .ok ∧ Isolates result (len / 2) (n + 2) := by
  constructor
  · intro isolates
    cases isolates with
    | alone => omega
    | right _ first rest => exact .inl ⟨first, rest⟩
    | left _ first second rest => exact .inr ⟨first, second, rest⟩
  · rintro (⟨first, rest⟩ | ⟨first, second, rest⟩)
    · exact .right several first rest
    · exact .left several first second rest

/-- A bisection goes on with a row to drop exactly when the results isolate one. -/
theorem poisonBisect_dropped (late : Nat → Bool) (chunk : List UsageLog) (k : Bisected → Work) :
    ∃ b n', ((poisonBisect chunk k).ending late result n).dropped =
      ((k b).ending late result n').dropped ∧ (b.Drops ↔ Isolates result chunk.length n) := by
  fun_induction poisonBisect chunk k generalizing n with
  | case1 k =>
    refine ⟨{}, n, rfl, by simp [Bisected.Drops], fun isolates => ?_⟩
    cases isolates <;> contradiction
  | case2 k row =>
    cases now : result n <;>
      exact ⟨_, n + 1, by simp [ending, now]; rfl, by simp [Bisected.Drops, isolates_one, now]⟩
  | case3 k x y rows chunk mid left right ihRight =>
    rename_i ihLeft
    have several : 2 ≤ chunk.length := Nat.le_add_left 2 rows.length
    have leftLength : left.length = chunk.length / 2 := by simp [left, mid]; omega
    have rightLength : right.length = chunk.length - chunk.length / 2 := by simp [right, mid]
    rw [isolates_several several, ← rightLength, ← leftLength]
    cases first : result n with
    | ok =>
      obtain ⟨b, n', same, drops⟩ := ihRight (n := n + 1)
      refine ⟨b.after left, n', ?_, by simp [b.after_drops, drops]⟩
      simpa only [ending, first, if_true] using same
    | failed | partitionUnavailable =>
      simp only [ending, first, reduceCtorEq, if_false]
      cases second : result (n + 1) with
      | ok =>
        obtain ⟨b, n', same, drops⟩ := ihLeft (n := n + 2)
        exact ⟨b.after right, n', same, by simp [b.after_drops, drops]⟩
      | failed | partitionUnavailable =>
        exact ⟨_, n + 2, rfl, by simp [Bisected.Drops]⟩

theorem afterBisect_dropped (chunk rest : List UsageLog) (b : Bisected) :
    ((afterBisect chunk rest b).ending late result n).dropped = [] ↔ ¬ b.Drops := by
  unfold afterBisect Bisected.Drops
  cases b.isRouting <;> cases b.poison <;> simp [ending]

theorem flushShard_dropped (cfg : Config) (s : List UsageLog) :
    ((flushShard cfg s).ending late result n).dropped = [] ↔ ¬ Torn cfg late result s.length n := by
  fun_induction flushShard cfg s generalizing n with
  | case1 s empty =>
    refine iff_of_true rfl fun torn => ?_
    rw [isEmpty_iff.mp empty] at torn
    cases torn <;> simp_all
  | case2 s more chunk rest =>
    rename_i ih
    have size : chunk.length = min cfg.batchSize s.length := length_take
    have nonempty : 0 < s.length := length_pos_iff.mpr (by simpa using more)
    have torn : Torn cfg late result s.length n ↔ late n = false ∧
        (result n = .failed ∧ 2 ≤ chunk.length ∧ Isolates result chunk.length (n + 1) ∨
          result n = .ok ∧ Torn cfg late result rest.length (n + 1)) := by
      rw [size, length_drop]
      constructor
      · rintro (⟨due, fails, several, isolates⟩ | ⟨due, -, through, rest⟩)
        · exact ⟨due, .inl ⟨fails, several, isolates⟩⟩
        · exact ⟨due, .inr ⟨through, rest⟩⟩
      · rintro ⟨due, ⟨fails, several, isolates⟩ | ⟨through, rest⟩⟩
        · exact .here due fails several isolates
        · exact .later due nonempty through rest
    simp only [ending, torn]
    cases late n with
    | true => simp [ending]
    | false =>
      cases now : result n with
      | ok => simpa [ending, now] using ih
      | partitionUnavailable => simp [ending, now]
      | failed =>
        simp only [Bool.false_eq_true, if_false, ending, now, reduceCtorEq]
        split
        next one => simp [ending, one]
        next apart =>
          have several : 2 ≤ chunk.length := by
            have := cfg.batchSize_pos
            omega
          obtain ⟨b, n', same, drops⟩ := poisonBisect_dropped (n := n + 1) late chunk
            (afterBisect chunk rest)
          rw [same, afterBisect_dropped, drops]
          simp [several]

/-- No log is dropped, and each is inserted or put back, exactly where the results do not
isolate a row. -/
theorem flush_drops_nothing_iff (cfg : Config) (late : Nat → Bool)
    (result : Nat → InsertOutcome) (s : List UsageLog) :
    (((flushShard cfg s).ending late result 0).dropped = [] ∧
      s.Perm (((flushShard cfg s).ending late result 0).inserted ++
        ((flushShard cfg s).ending late result 0).refilled)) ↔
      ¬ Torn cfg late result s.length 0 := by
  rw [← flushShard_dropped]
  refine and_iff_left_of_imp fun none => ?_
  have accounts := flushShard_accounts cfg s []
  have kept := (ending_perm late result (n := 0) accounts.balanced).trans accounts.held
  rw [none, append_nil] at kept
  exact kept.symm

/-- Down at the first and the third call: the second log is taken for poison. -/
theorem torn_outage_drops :
    ((flushShard (Config.new 1 2) [chatLog "a", chatLog "b"]).ending (fun _ => false)
      (fun n => if n = 1 then .ok else .failed) 0).dropped = [chatLog "b"] := by
  decide +kernel

end C3Api.Usage
