import C3Api.Scheduler.Leases

/-!
# A batch of groups and its groups one by one

`invalidateGroupsLocked` folds the groups of a batch into one working root, builds the
identity pools anew after every group and stages the result once. The pools of codex
accounts hang on the static view; how a pool goes on from the one before it is left open.
-/

namespace C3Api.Scheduler

open FiniteMap List

/-- The scheduler with the identity pools of every static view. -/
structure Pooled (D Pool : Type) where
  heap : Heap D
  identityPools : Nat → Option (Map Int Pool)

variable {D Pool : Type} (syncIdentityPool : Option Pool → Int → String → Pool)
  (load : Int → Option (List Account))

def buildIdentityPools (byID : Map Int Leaf) (prevReg : Option (Map Int Pool)) : Map Int Pool :=
  insertAll ∅ ((pairs byID).filterMap fun e =>
    match e.2.static.tpl, e.2.static.acc.ext with
    | some tpl, some ext =>
      if tpl.credentialType.isCodex ∧ 0 < e.2.static.acc.maxConcurrency then
        some (e.1, syncIdentityPool (prevReg.bind (·.lookup e.1)) e.2.static.acc.maxConcurrency
          (derefString ext.codexInstallation))
      else none
    | _, _ => none)

/-- One group of a batch, with the pools; a group whose load fails is skipped. -/
def foldGroup (s : Working × Option (Map Int Pool)) (gid : Int) :
    Working × Option (Map Int Pool) :=
  match load gid with
  | none => s
  | some accs =>
    let w := invalidateOneInto s.1 gid accs
    (w, some (buildIdentityPools syncIdentityPool w.root.byID s.2))

namespace Pooled

variable (s : Pooled D Pool)

def prevIdentityPools : Option (Map Int Pool) := s.heap.publisher.newest.bind s.identityPools

def workingRoot : Working × Option (Map Int Pool) := (s.heap.working, s.prevIdentityPools)

def stage (folded : Working × Option (Map Int Pool)) : Pooled D Pool where
  heap := s.heap.stage folded.1.created folded.1.root
  identityPools := Function.update s.identityPools s.heap.publisher.statics.length folded.2

def invalidateGroups (ids : List Int) (reach : Nat) : Pooled D Pool :=
  let gids := batchGroups ids reach
  if gids.any fun gid => (load gid).isSome then
    s.stage (gids.foldl (foldGroup syncIdentityPool load) s.workingRoot)
  else s

def invalidateGroup (gid : Int) : Pooled D Pool := s.invalidateGroups syncIdentityPool load [gid] 1

/-- The groups with their routes, the accounts with their groups, and the pools. -/
def topology : Root × Option (Map Int Pool) :=
  (s.heap.publisher.workingRoot, s.prevIdentityPools)

/-- What a batch hands on, all but the groups it has touched. -/
def kept (folded : Working × Option (Map Int Pool)) : Created × Root × Option (Map Int Pool) :=
  (folded.1.created, folded.1.root, folded.2)

variable {syncIdentityPool load s} {a b : Working × Option (Map Int Pool)} {gids : List Int}

theorem kept_foldGroup (same : kept a = kept b) (gid : Int) :
    kept (foldGroup syncIdentityPool load a gid) = kept (foldGroup syncIdentityPool load b gid) := by
  obtain ⟨⟨created', root', scope'⟩, pools'⟩ := b
  obtain ⟨rfl, rfl, rfl⟩ := same
  unfold foldGroup
  cases load gid <;> rfl

theorem kept_foldl (same : kept a = kept b) :
    kept (gids.foldl (foldGroup syncIdentityPool load) a) =
      kept (gids.foldl (foldGroup syncIdentityPool load) b) :=
  foldl_rel (r := fun a b => kept a = kept b) same fun gid _ _ _ same =>
    kept_foldGroup same gid

/-- The groups of a batch are the working copy that `invalidateGroups` of the heap folds. -/
theorem foldl_fst : (gids.foldl (foldGroup syncIdentityPool load) a).1 = foldGroups load gids a.1 := by
  induction gids generalizing a with
  | nil => rfl
  | cons gid gids ih =>
    rw [foldl_cons, ih, foldGroups, foldGroup]
    cases load gid <;> rfl

theorem invalidateGroups_heap (ids : List Int) (reach : Nat) :
    (s.invalidateGroups syncIdentityPool load ids reach).heap =
      s.heap.invalidateGroups ids load reach := by
  unfold invalidateGroups Heap.invalidateGroups
  dsimp only
  split
  · rw [stage, foldl_fst]
    rfl
  · rfl

theorem kept_stage : kept (s.stage a).workingRoot = kept a := by
  have root : (s.stage a).heap.publisher.workingRoot = a.1.root := workingRoot_stage a.1.root
  have newest : (s.stage a).heap.publisher.newest = some s.heap.publisher.statics.length := by
    unfold stage Heap.stage Publisher.stageLocked
    dsimp only
    split <;> rfl
  unfold kept workingRoot prevIdentityPools
  rw [newest]
  simp only [Heap.working, root, Option.bind_some]
  simp [stage, Heap.stage]

theorem kept_invalidateGroups (ids : List Int) (reach : Nat) :
    kept (s.invalidateGroups syncIdentityPool load ids reach).workingRoot =
      kept ((batchGroups ids reach).foldl (foldGroup syncIdentityPool load) s.workingRoot) := by
  unfold invalidateGroups
  dsimp only
  split
  · exact kept_stage
  next failed =>
    have skipped : ∀ gid ∈ batchGroups ids reach, load gid = none := by simpa using failed
    refine congrArg kept (foldlRecOn (motive := fun folded => s.workingRoot = folded) _ _ rfl ?_)
    intro folded same gid member
    rw [foldGroup, skipped gid member]
    exact same

theorem kept_invalidateGroup (gid : Int) :
    kept (s.invalidateGroup syncIdentityPool load gid).workingRoot =
      kept (foldGroup syncIdentityPool load s.workingRoot gid) := by
  have single : batchGroups [gid] 1 = [gid] := by
    rfl
  rw [invalidateGroup, kept_invalidateGroups, single]
  rfl

theorem kept_one_by_one :
    kept (gids.foldl (invalidateGroup syncIdentityPool load) s).workingRoot =
      kept (gids.foldl (foldGroup syncIdentityPool load) s.workingRoot) := by
  induction gids generalizing s with
  | nil => rfl
  | cons gid gids ih =>
    rw [foldl_cons, ih]
    exact kept_foldl (kept_invalidateGroup gid)

/-- A batch leaves what its distinct groups leave when they are invalidated one by one in
ascending order, whatever their loads return. -/
theorem batch_one_by_one (syncIdentityPool : Option Pool → Int → String → Pool)
    (load : Int → Option (List Account)) (s : Pooled D Pool) (ids : List Int) :
    (s.invalidateGroups syncIdentityPool load ids (sortedUniqueInt64 ids).length).topology =
      ((sortedUniqueInt64 ids).foldl (invalidateGroup syncIdentityPool load) s).topology := by
  have batch : kept (s.invalidateGroups syncIdentityPool load ids _).workingRoot = _ :=
    kept_invalidateGroups ids (sortedUniqueInt64 ids).length
  rw [batchGroups, take_length, ← kept_one_by_one] at batch
  exact congrArg Prod.snd batch

end Pooled

end C3Api.Scheduler
