import C3Api.Interleaving.Pool

/-!
# Identity slots

The slot pools of `scheduler/identity_pool.go`. A claim takes a slot by swapping its busy flag. A
resize takes the free slots of the old pool for good and carries their threads over to new slots.
Of the releases of a lease, the one that swaps its flag gives the slot back.
-/

namespace C3Api.Scheduler.Identity

open Interleaving List Option

/-- A slot, with the thread of its state. -/
structure IdentitySlot where
  busy : Bool := false
  thread : Nat

structure IdentityPool where
  slots : List Nat
  cursor : UInt64 := 0

/-- A claim that took a slot: the slot with the thread it had, the flag of the lease token, and
how often the slot was given back for it. -/
structure Lease where
  slot : Nat
  thread : Nat
  released : Bool := false
  stores : Nat := 0

structure Identities where
  slots : List IdentitySlot := []
  pools : List IdentityPool := []
  leases : List Lease := []
  threads : Nat := 0

inductive Call where
  | claim (pool : Nat)
  | probe (slots : List Nat) (base : UInt64) (i : Nat)
  | release (lease : Nat)
  | store (lease : Nat)
  | resize (old : Option Nat) (k : Int) (made : List Nat)
  | returned

/-- `newIdentitySlot`, which opens a thread of its own. -/
def newIdentitySlot (h : Identities) : Identities :=
  { h with slots := h.slots ++ [{ thread := h.threads }], threads := h.threads + 1 }

def setBusy (busy : Bool) (slots : List IdentitySlot) (s : Nat) : List IdentitySlot :=
  slots.modify s fun x => { x with busy := busy }

/-- One atomic access. The state of a slot is stored before anyone can reach the slot, so that the
load of it belongs to the swap before. -/
def stepCall : Step Identities Call Unit
  | _, _, h, .claim p => h.pools[p]?.map fun pool =>
    if pool.slots = [] then (h, .returned)
    else ({ h with pools := h.pools.set p { pool with cursor := pool.cursor + 1 } },
      .probe pool.slots (pool.cursor + 1) 0)
  | _, _, h, .probe slots base i =>
    if i < slots.length then
      slots[((base + .ofNat i) % .ofNat slots.length).toNat]?.bind fun s =>
        h.slots[s]?.map fun x =>
          if x.busy then (h, .probe slots base (i + 1))
          else ({ h with slots := setBusy true h.slots s, leases := h.leases ++ [⟨s, x.thread, false, 0⟩] },
            .returned)
    else some (h, .returned)
  | _, _, h, .release l => h.leases[l]?.map fun a =>
    if a.released then (h, .returned)
    else ({ h with leases := h.leases.set l { a with released := true } }, .store l)
  | _, _, h, .store l => h.leases[l]?.map fun a =>
    ({ h with slots := setBusy false h.slots a.slot
              leases := h.leases.set l { a with stores := a.stores + 1 } }, .returned)
  | _, _, h, .resize old k made =>
    if made.length < (max k 1).toNat then
      match (old.bind (h.pools[·]?)).bind (·.slots[made.length]?) with
      | none => some (newIdentitySlot h, .resize old k (made ++ [h.slots.length]))
      | some o => h.slots[o]?.map fun x =>
        (if x.busy then newIdentitySlot h
          else { h with slots := setBusy true h.slots o ++ [{ thread := x.thread }] },
          .resize old k (made ++ [h.slots.length]))
    else some ({ h with pools := h.pools ++ [{ slots := made }] }, .returned)
  | _, _, _, .returned => none

/-- Calls start at their first access. -/
def starts (_ : Pool Identities Call) : Label Call Unit → Bool
  | .start (.claim _) | .start (.release _) | .start (.resize _ _ []) | .step _ _ => true
  | _ => false

/-- Whether a claim or a resize can take the slot with this thread. -/
def free (τ : Nat) (x : IdentitySlot) : Int := if x.busy = false ∧ x.thread = τ then 1 else 0

/-- Whether the lease is out with this thread. -/
def out (τ : Nat) (a : Lease) : Int := if a.stores = 0 ∧ a.thread = τ then 1 else 0

def threadOf (slots : List IdentitySlot) (s : Nat) : Option Nat := slots[s]?.map (·.thread)

/-- A thread is in one place. -/
structure Sound (h : Identities) : Prop where
  once : ∀ τ, total (free τ) h.slots + total (out τ) h.leases ≤ if τ < h.threads then 1 else 0
  known : ∀ a ∈ h.leases, threadOf h.slots a.slot = some a.thread

section

variable {h : Identities} {slots : List IdentitySlot} {x : IdentitySlot} {a : Lease} {s l τ : Nat}

theorem threadOf_setBusy (busy : Bool) (t : Nat) :
    threadOf (setBusy busy slots t) s = threadOf slots s := by
  rw [threadOf, setBusy, getElem?_modify, threadOf]
  cases slots[s]? with
  | none => rfl
  | some x => split <;> rfl

theorem threadOf_append (known : threadOf slots s = some τ) :
    threadOf (slots ++ [x]) s = some τ := by
  obtain ⟨y, found, rfl⟩ := map_eq_some_iff.mp known
  have inside : s < slots.length := (List.getElem?_eq_some_iff.mp found).1
  rw [threadOf, getElem?_append_left inside, found]
  rfl

theorem total_setBusy (found : slots[s]? = some x) (busy : Bool) :
    total (free τ) (setBusy busy slots s) =
      total (free τ) slots - free τ x + free τ { x with busy := busy } := by
  rw [setBusy, modify_eq_set_getElem?, found]
  exact total_set found

theorem free_nonneg (x : IdentitySlot) : 0 ≤ free τ x := by
  unfold free
  split <;> decide

theorem out_nonneg (a : Lease) : 0 ≤ out τ a := by
  unfold out
  split <;> decide

namespace Sound

variable (sound : Sound h)

include sound

theorem fresh : Sound (newIdentitySlot h) := by
  refine ⟨fun τ => ?_, fun a member => threadOf_append (sound.known a member)⟩
  have before := sound.once τ
  simp only [newIdentitySlot, total_append, free]
  split_ifs at * <;> omega

theorem claim (found : h.slots[s]? = some x) (idle : x.busy = false) :
    Sound { h with slots := setBusy true h.slots s, leases := h.leases ++ [⟨s, x.thread, false, 0⟩] } := by
  refine ⟨fun τ => ?_, fun a member => ?_⟩
  · have before := sound.once τ
    simp only [total_setBusy found, total_append, free, out, idle]
    split_ifs at * <;> simp at * <;> omega
  · rw [threadOf_setBusy]
    rcases mem_append.mp member with old | new
    · exact sound.known a old
    cases mem_singleton.mp new
    rw [threadOf, found]
    rfl

theorem migrate (found : h.slots[s]? = some x) (idle : x.busy = false) :
    Sound { h with slots := setBusy true h.slots s ++ [{ thread := x.thread }] } := by
  refine ⟨fun τ => ?_, fun a member => ?_⟩
  · have before := sound.once τ
    simp only [total_append, total_setBusy found, free, idle]
    split_ifs at * <;> simp at * <;> omega
  · exact threadOf_append ((threadOf_setBusy true s).trans (sound.known a member))

theorem swap (found : h.leases[l]? = some a) :
    Sound { h with leases := h.leases.set l { a with released := true } } := by
  refine ⟨fun τ => ?_, fun b member => ?_⟩
  · have before := sound.once τ
    rw [total_set found]
    simp only [out]
    omega
  · rcases mem_or_eq_of_mem_set member with old | rfl
    · exact sound.known b old
    · exact sound.known a (mem_of_getElem? found)

theorem store (found : h.leases[l]? = some a) (unstored : a.stores = 0) :
    Sound { h with slots := setBusy false h.slots a.slot
                   leases := h.leases.set l { a with stores := a.stores + 1 } } := by
  have owner := sound.known a (mem_of_getElem? found)
  obtain ⟨x, at_slot, same⟩ := map_eq_some_iff.mp owner
  refine ⟨fun τ => ?_, fun b member => ?_⟩
  · have before := sound.once τ
    rw [total_set found, total_setBusy at_slot]
    simp only [out, free, unstored, same] at *
    split_ifs at * <;> simp at * <;> omega
  · rw [threadOf_setBusy]
    rcases mem_or_eq_of_mem_set member with old | rfl
    · exact sound.known b old
    · exact owner

end Sound

end

def Call.storing (l : Nat) : Call → Int
  | .store l' => if l' = l then 1 else 0
  | _ => 0

/-- The stores that are still to come for a lease. -/
def owed : Option Lease → Int
  | none => 0
  | some a => (if a.released then 1 else 0) - a.stores

structure Inv (σ : Pool Identities Call) : Prop where
  sound : Sound σ.shared
  stores : ∀ l : Nat, total (Call.storing l) σ.procs = owed σ.shared.leases[l]?

section

variable {h h' : Identities} {procs : List Call} {i : Nat} {call call' : Call} {σ : Pool Identities Call}

theorem storing_nonneg (l : Nat) (call : Call) : 0 ≤ call.storing l := by
  unfold Call.storing
  split
  · split <;> decide
  · exact le_rfl

theorem owed_append (leases : List Lease) (s τ l : Nat) :
    owed (leases ++ [⟨s, τ, false, 0⟩])[l]? = owed leases[l]? := by
  rcases Nat.lt_trichotomy l leases.length with inside | rfl | outside
  · rw [getElem?_append_left inside]
  · simp [owed]
  · rw [getElem?_eq_none outside.le, getElem?_eq_none (by simp; omega)]

theorem owed_set {leases : List Lease} {a b : Lease} {l : Nat} (found : leases[l]? = some a)
    (j : Nat) : owed (leases.set l b)[j]? =
      owed leases[j]? + if l = j then owed (some b) - owed (some a) else 0 := by
  by_cases same : l = j
  · subst same
    simp [getElem?_set_self', found]
  · simp [same]

theorem Inv.quiet (inv : Inv ⟨h, procs⟩) (found : procs[i]? = some call) (sound : Sound h')
    (same : ∀ l : Nat, call.storing l = 0 ∧ call'.storing l = 0 ∧
      owed h'.leases[l]? = owed h.leases[l]?) : Inv ⟨h', procs.set i call'⟩ := by
  refine ⟨sound, fun l => ?_⟩
  obtain ⟨before, after, owes⟩ := same l
  rw [total_set found, before, after, owes, inv.stores l, sub_zero, add_zero]

theorem Inv.step {input : Unit} (inv : Inv ⟨h, procs⟩) (found : procs[i]? = some call)
    (stepped : stepCall i input h call = some (h', call')) : Inv ⟨h', procs.set i call'⟩ := by
  have sound : Sound h := inv.sound
  cases call with
  | claim p =>
    obtain ⟨pool, -, made⟩ := map_eq_some_iff.mp stepped
    split at made <;> cases made
    · exact inv.quiet found sound fun _ => ⟨rfl, rfl, rfl⟩
    · exact inv.quiet found ⟨sound.once, sound.known⟩ fun _ => ⟨rfl, rfl, rfl⟩
  | probe slots base n =>
    simp only [stepCall] at stepped
    split at stepped
    · obtain ⟨s, -, stepped⟩ := bind_eq_some_iff.mp stepped
      obtain ⟨x, at_s, made⟩ := map_eq_some_iff.mp stepped
      split at made <;> cases made
      · exact inv.quiet found sound fun _ => ⟨rfl, rfl, rfl⟩
      · exact inv.quiet found (sound.claim at_s (by simpa using ‹¬ x.busy = true›)) fun _ =>
          ⟨rfl, rfl, owed_append ..⟩
    · cases stepped
      exact inv.quiet found sound fun _ => ⟨rfl, rfl, rfl⟩
  | release l =>
    obtain ⟨a, known, made⟩ := map_eq_some_iff.mp stepped
    split at made <;> cases made
    · exact inv.quiet found sound fun _ => ⟨rfl, rfl, rfl⟩
    next unreleased =>
      refine ⟨sound.swap known, fun j => ?_⟩
      rw [total_set found, inv.stores, owed_set known]
      simp [owed, Call.storing, unreleased]
  | store l =>
    obtain ⟨a, known, made⟩ := map_eq_some_iff.mp stepped
    cases made
    have before : _ = owed h.leases[l]? := inv.stores l
    have here := le_total (storing_nonneg l) found
    rw [before, known] at here
    have unstored : a.stores = 0 := by
      simp only [owed, Call.storing, if_true] at here
      split_ifs at here <;> omega
    refine ⟨sound.store known unstored, fun j => ?_⟩
    rw [total_set found, inv.stores, owed_set known]
    simp only [owed, Call.storing]
    split_ifs <;> omega
  | resize old k made =>
    simp only [stepCall] at stepped
    split at stepped
    · split at stepped
      · cases stepped
        exact inv.quiet found sound.fresh fun _ => ⟨rfl, rfl, rfl⟩
      · obtain ⟨x, at_o, made⟩ := map_eq_some_iff.mp stepped
        cases made
        split
        · exact inv.quiet found sound.fresh fun _ => ⟨rfl, rfl, rfl⟩
        · exact inv.quiet found (sound.migrate at_o (by simpa using ‹¬ x.busy = true›)) fun _ => ⟨rfl, rfl, rfl⟩
    · cases stepped
      exact inv.quiet found ⟨sound.once, sound.known⟩ fun _ => ⟨rfl, rfl, rfl⟩
  | returned => cases stepped

theorem inv_of_reachable (reached : Reachable stepCall (starts · ·) ⟨{}, []⟩ σ) : Inv σ := by
  apply reached.invariant
  · refine ⟨⟨fun τ => ?_, fun a member => by cases member⟩, fun l => rfl⟩
    simp
  · intro h procs call started inv
    refine ⟨inv.sound, fun l => ?_⟩
    have idle : call.storing l = 0 := by
      cases call <;> first | rfl | cases started
    rw [total_append, idle, add_zero]
    exact inv.stores l
  · exact fun h procs i input call h' call' _ found stepped inv => inv.step found stepped

end

/-- Two leases that are out never have one slot or one thread, whatever the order of the accesses.
Once a lease is released, its slot has been given back once, or one call is about to do it. -/
theorem identity_slots_exclusive (σ : Pool Identities Call)
    (reached : Reachable stepCall (starts · ·) ⟨{}, []⟩ σ) :
    (∀ (l l' : Nat) (a b : Lease), σ.shared.leases[l]? = some a → σ.shared.leases[l']? = some b →
      l ≠ l' → a.stores = 0 → b.stores = 0 → a.slot ≠ b.slot ∧
        threadOf σ.shared.slots a.slot ≠ threadOf σ.shared.slots b.slot) ∧
    ∀ (l : Nat) (a : Lease), σ.shared.leases[l]? = some a →
      a.stores + total (Call.storing l) σ.procs = if a.released then 1 else 0 := by
  obtain ⟨sound, stores⟩ := inv_of_reachable reached
  constructor
  · intro l l' a b found found' apart out_a out_b
    have threads : threadOf σ.shared.slots a.slot ≠ threadOf σ.shared.slots b.slot := by
      rw [sound.known a (mem_of_getElem? found), sound.known b (mem_of_getElem? found')]
      intro same
      -- With the first lease given back, the second would still be out.
      have rest : out a.thread b ≤
          total (out a.thread) (σ.shared.leases.set l { a with stores := 1 }) :=
        le_total out_nonneg ((getElem?_set_ne apart).trans found')
      have idle : 0 ≤ total (free a.thread) σ.shared.slots :=
        sum_nonneg (forall_mem_map.mpr fun x _ => free_nonneg x)
      have once := sound.once a.thread
      rw [total_set found] at rest
      simp only [out, out_a, out_b, ← some.inj same, and_self, if_true] at rest
      split_ifs at once <;> simp at rest <;> omega
    exact ⟨fun same => threads (same ▸ rfl), threads⟩
  · intro l a found
    rw [stores l, found, owed]
    omega

/-- A claim before a resize, one after it, and one of the old pool once the first lease is back. -/
def resizedRun : List (Label Call Unit) :=
  [.start (.resize none 1 []), .step 0 (), .step 0 (), .start (.claim 0), .step 1 (), .step 1 (),
    .start (.resize (some 0) 1 []), .step 2 (), .step 2 (), .start (.claim 1), .step 3 (), .step 3 (),
    .start (.release 0), .step 4 (), .step 4 (), .start (.claim 0), .step 5 (), .step 5 ()]

theorem identity_slots_exclusive_resized : ∃ σ a b c,
    run stepCall starts ⟨{}, []⟩ resizedRun = some σ ∧ σ.shared.leases = [a, b, c] ∧
      a.slot = c.slot ∧ b.slot ≠ c.slot ∧ a.stores + total (Call.storing 0) σ.procs = 1 := by
  obtain ⟨σ, ran, all⟩ : ∃ σ, run stepCall starts ⟨{}, []⟩ resizedRun = some σ ∧
    σ.shared.leases = [⟨0, 0, true, 1⟩, ⟨1, 1, false, 0⟩, ⟨0, 0, false, 0⟩] := ⟨_, rfl, rfl⟩
  obtain ⟨exclusive, given⟩ := identity_slots_exclusive σ (reachable_of_run ran)
  rw [all] at exclusive given
  exact ⟨σ, _, _, _, ran, all, rfl, (exclusive 1 2 _ _ rfl rfl (by decide) rfl rfl).1, given 0 _ rfl⟩

end C3Api.Scheduler.Identity
