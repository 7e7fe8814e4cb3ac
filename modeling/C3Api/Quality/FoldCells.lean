import C3Api.Interleaving.Pool
import Mathlib.Algebra.BigOperators.Fin

/-!
# The fold cell table

`fold_cells.go`: sharded counter cells that requests add to and that ticks drain and grow.
Every critical section of a shard is one step, and adds, drains and growths interleave in any
way. Counts are in any additive group, which covers the integers as well as 64-bit words. The
numbers kept for statistics only (`pending`, `grown`, `seq`) are left out.
-/

namespace C3Api.Quality

open Interleaving

/-- One attempt, and the key of its counter cell. -/
structure AttemptFact where
  route : Vector UInt8 32
  accountID : Int64
  prevAccount : Int64
  generation : Int64
  minuteBucket : Int64
  ordinal : UInt8
  lane : UInt8
  outcome : UInt8
  prevOutcome : UInt8
  transition : UInt8
  identityVersion : UInt8
  isTerminal : Bool
  hasPrev : Bool
  hasPrevOutcome : Bool
  residual : Bool
  deriving DecidableEq

def AttemptFact.zero : AttemptFact where
  route := Vector.replicate 32 0
  accountID := 0
  prevAccount := 0
  generation := 0
  minuteBucket := 0
  ordinal := 0
  lane := 0
  outcome := 0
  prevOutcome := 0
  transition := 0
  identityVersion := 0
  isTerminal := false
  hasPrev := false
  hasPrevOutcome := false
  residual := false

def foldShardCount : Nat := 64

def foldCellShardCapStart : Nat := 512

def foldCellShardCapMax : Nat := 4096

inductive SlotState where
  | empty
  | live
  | tomb
  deriving DecidableEq

def foldShardOf (accountID : Int64) : Fin foldShardCount :=
  ⟨(accountID.toUInt64 &&& 63).toNat, by
    have low := Nat.and_le_right (n := accountID.toUInt64.toNat) (m := 63)
    rw [UInt64.toNat_and]
    exact Nat.lt_succ_of_le low⟩

def mix (h : UInt64) (b : UInt8) : UInt64 := (h ^^^ b.toUInt64) * 1099511628211

def mixBytes (h : UInt64) (p : List UInt8) : UInt64 := p.foldl mix h

def mixU64 (h v : UInt64) : UInt64 :=
  mixBytes h ((List.range 8).map fun i => (v >>> UInt64.ofNat (8 * i)).toUInt8)

def mixBool (h : UInt64) (b : Bool) : UInt64 := mix h (if b then 1 else 0)

def foldHash (f : AttemptFact) : UInt64 :=
  let h := mixBytes 14695981039346656037 f.route.toList
  let h := [f.accountID, f.prevAccount, f.generation, f.minuteBucket].foldl
    (fun h v => mixU64 h v.toUInt64) h
  let h := mixBytes h
    [f.ordinal, f.lane, f.outcome, f.prevOutcome, f.transition, f.identityVersion]
  [f.isTerminal, f.hasPrev, f.hasPrevOutcome, f.residual].foldl mixBool h

variable {C : Type}

structure FoldSlot (C : Type) where
  key : AttemptFact
  count : C
  state : SlotState

structure FoldShard (C : Type) where
  cap : Nat
  slots : Fin cap → FoldSlot C
  overflow : Nat := 0
  cap_pos : 0 < cap
  cap_le : cap ≤ foldCellShardCapMax

def FoldShard.mask (s : FoldShard C) : UInt64 := UInt64.ofNat (s.cap - 1)

theorem FoldShard.and_mask_lt (s : FoldShard C) (h : UInt64) : (h &&& s.mask).toNat < s.cap := by
  have le : (h &&& s.mask).toNat ≤ s.mask.toNat := by
    exact Nat.and_le_right
  have mask : s.mask.toNat ≤ s.cap - 1 := by
    exact Nat.mod_le _ _
  have pos := s.cap_pos
  omega

def FoldShard.probe (s : FoldShard C) (f : AttemptFact) : List (Fin s.cap) :=
  (List.range s.cap).map fun i =>
    ⟨((foldHash f + UInt64.ofNat i) &&& s.mask).toNat, s.and_mask_lt _⟩

/-- The matching slot of the fast path, which ends at an empty one. -/
def FoldShard.fastMatch (s : FoldShard C) (f : AttemptFact) : List (Fin s.cap) → Option (Fin s.cap)
  | [] => none
  | j :: rest =>
    if (s.slots j).state = .empty then none
    else if (s.slots j).key = f then some j
    else s.fastMatch f rest

def FoldShard.slowMatch (s : FoldShard C) (f : AttemptFact) : Option (Fin s.cap) :=
  (s.probe f).find? fun j => (s.slots j).state ≠ .empty ∧ (s.slots j).key = f

def FoldShard.claimable (s : FoldShard C) (f : AttemptFact) : Option (Fin s.cap) :=
  (s.probe f).find? fun j => (s.slots j).state ≠ .live

def FoldShard.liveCount (s : FoldShard C) : Nat :=
  (List.finRange s.cap).countP fun j => (s.slots j).state = .live

/-- `loadPct` is at least 0.75. -/
def FoldShard.loaded (s : FoldShard C) : Bool := s.cap * 3 ≤ s.liveCount * 4

def FoldShard.mustGrow (s : FoldShard C) : Bool :=
  s.cap < foldCellShardCapMax && (s.overflow > 0 || s.loaded)

def FoldShard.update (s : FoldShard C) (j : Fin s.cap) (sl : FoldSlot C) : FoldShard C :=
  { s with slots := Function.update s.slots j sl }

section

variable [AddCommGroup C]

def FoldSlot.fresh : FoldSlot C := ⟨AttemptFact.zero, 0, .empty⟩

def FoldShard.fresh (cap overflow : Nat) (cap_pos : 0 < cap) (cap_le : cap ≤ foldCellShardCapMax) :
    FoldShard C :=
  ⟨cap, fun _ => FoldSlot.fresh, overflow, cap_pos, cap_le⟩

def FoldSlot.add (sl : FoldSlot C) (delta : C) : FoldSlot C :=
  { sl with count := sl.count + delta }

def FoldSlot.claim (sl : FoldSlot C) (f : AttemptFact) (delta : C) : FoldSlot C :=
  { key := f, state := .live, count := sl.count + delta }

/-- The section of `add` under the read lock; `none` when it finds no slot. -/
def FoldShard.addFast (s : FoldShard C) (f : AttemptFact) (delta : C) : Option (FoldShard C) :=
  (s.fastMatch f (s.probe f)).map fun j => s.update j ((s.slots j).add delta)

/-- The section of `add` under the write lock, and whether the delta has landed. -/
def FoldShard.addSlow (s : FoldShard C) (f : AttemptFact) (delta : C) : FoldShard C × Bool :=
  match s.slowMatch f with
  | some j => (s.update j ((s.slots j).add delta), true)
  | none =>
    match s.claimable f with
    | some j => (s.update j ((s.slots j).claim f delta), true)
    | none => ({ s with overflow := s.overflow + 1 }, false)

def FoldSlot.drained (curMinute : Int64) (sl : FoldSlot C) : FoldSlot C :=
  if sl.state = .empty then sl
  else
    { sl with
      count := 0
      state := if sl.key.minuteBucket < curMinute then .tomb else sl.state }

def FoldShard.grow (s : FoldShard C) : FoldShard C :=
  if s.mustGrow then
    .fresh (min (s.cap * 2) foldCellShardCapMax) s.overflow
      (Nat.lt_min.mpr ⟨Nat.mul_pos s.cap_pos Nat.two_pos, by decide⟩) (Nat.min_le_right _ _)
  else s

end

/-- The table, with the adds that were accepted and what drains have handed out. -/
structure FoldCellTable (C : Type) where
  shards : Fin foldShardCount → FoldShard C
  accepted : List (AttemptFact × C) := []
  handed : List (AttemptFact × C) := []

inductive Call (C : Type) where
  | add (f : AttemptFact) (delta : C)
  | addSlow (f : AttemptFact) (delta : C)
  | added (landed : Bool)
  /-- The next shard to drain, and the total so far. -/
  | drain (curMinute : Int64) (next : Nat) (total : C)
  /-- The next shard whose overflow counter is read. -/
  | growIfNeeded (next : Nat)
  | loadPct (shard : Fin foldShardCount)
  | grow (shard : Fin foldShardCount)

def FoldCellTable.setShard (t : FoldCellTable C) (i : Fin foldShardCount) (s : FoldShard C) :
    FoldCellTable C :=
  { t with shards := Function.update t.shards i s }

def FoldCellTable.accept (t : FoldCellTable C) (f : AttemptFact) (delta : C) : FoldCellTable C :=
  { t with accepted := t.accepted ++ [(f, delta)] }

variable [AddCommGroup C]

def newFoldCellTable : FoldCellTable C where
  shards := fun _ => .fresh foldCellShardCapStart 0 (by decide) (by decide)

variable [DecidableEq C]

/-- The count of a slot, if `drain` hands it out. -/
def FoldSlot.swapped (sl : FoldSlot C) : Option (AttemptFact × C) :=
  if sl.state = .empty ∨ sl.count = 0 then none else some (sl.key, sl.count)

/-- The critical section of `drain`, and what it hands to the callback. -/
def FoldShard.drain (curMinute : Int64) (s : FoldShard C) :
    FoldShard C × List (AttemptFact × C) :=
  ({ s with slots := fun j => (s.slots j).drained curMinute },
    (List.finRange s.cap).filterMap fun j => (s.slots j).swapped)

def stepCall : Step (FoldCellTable C) (Call C) Unit := fun _ _ t call =>
  match call with
  | .add f delta =>
    let i := foldShardOf f.accountID
    match (t.shards i).addFast f delta with
    | some s => some ((t.setShard i s).accept f delta, .added true)
    | none => some (t, .addSlow f delta)
  | .addSlow f delta =>
    let i := foldShardOf f.accountID
    match (t.shards i).addSlow f delta with
    | (s, true) => some ((t.setShard i s).accept f delta, .added true)
    | (s, false) => some (t.setShard i s, .added false)
  | .added _ => none
  | .drain curMinute next total =>
    if inside : next < foldShardCount then
      let (s, out) := (t.shards ⟨next, inside⟩).drain curMinute
      some ({ t.setShard ⟨next, inside⟩ s with handed := t.handed ++ out },
        .drain curMinute (next + 1) (total + (out.map Prod.snd).sum))
    else none
  | .growIfNeeded next =>
    if inside : next < foldShardCount then
      if (t.shards ⟨next, inside⟩).overflow = 0 then some (t, .loadPct ⟨next, inside⟩)
      else some (t, .grow ⟨next, inside⟩)
    else none
  | .loadPct shard =>
    if (t.shards shard).loaded then some (t, .grow shard)
    else some (t, .growIfNeeded (shard.val + 1))
  | .grow shard => some (t.setShard shard (t.shards shard).grow, .growIfNeeded (shard.val + 1))

def legal (_ : Pool (FoldCellTable C) (Call C)) : Label (Call C) Unit → Bool
  | .start (.add _ _) => true
  | .start (.drain _ next total) => next = 0 ∧ total = 0
  | .start (.growIfNeeded next) => next = 0
  | .start _ => false
  | .step _ _ => true

end C3Api.Quality
