import C3Api.Scheduler.Leaves
import Mathlib.Data.List.Dedup
import Mathlib.Data.List.Induction

/-!
# Groups list the leaves of the index

In a static view every group lists the leaf that the index holds for the account, and the
leaf names the group. A batch keeps this: an account that a reload changes is replaced in
every group that its old leaf names. What a group reload makes of the groups of an account
therefore depends on the loaded rows and on the leaf of the index alone.
-/

namespace C3Api.Scheduler

open FiniteMap List

/-- The groups that `live` selects list the leaves of the index, each once. -/
structure LinkedOn (live : Int → Prop) (groups : Map Int GroupSnapshot) (byID : Map Int Leaf) :
    Prop where
  listed : ∀ gid gs, live gid → groups.lookup gid = some gs → ∀ leaf ∈ gs.accounts,
    byID.lookup leaf.id = some leaf ∧ gid ∈ leaf.static.groupIDs
  once : ∀ gid gs, live gid → groups.lookup gid = some gs → (gs.accounts.map Leaf.id).Nodup

structure Root.Linked (root : Root) : Prop where
  numbered : ∀ id leaf, root.byID.lookup id = some leaf → leaf.id = id
  groups : LinkedOn (fun _ => True) root.groups root.byID

theorem Root.Linked.empty : Root.Linked {} := by
  refine ⟨fun id leaf found => ?_, fun gid gs _ found => ?_, fun gid gs _ found => ?_⟩ <;>
    simp at found

section

variable {created : Created} {oldByID : Map Int Leaf} {m : List (Int × List Account)}

/-- The collection knows the group for the account. -/
def Joined (infos : Map Int AccInfo) (id gid : Int) : Prop :=
  ∃ inf, infos.lookup id = some inf ∧ gid ∈ inf.groupIDs

variable {infos : Map Int AccInfo} {id gid other g : Int} {a : Account} {accs : List Account}

theorem collectOne_joined (joined : Joined infos id gid ∨ a.id = id ∧ other = gid) :
    Joined (collectOne other infos a) id gid := by
  unfold collectOne Joined
  -- The account is known or not; only a known one can have had the group.
  split
  all_goals
    rename_i known
    rw [lookup_insert_ite]
    split
    next same =>
      refine ⟨_, rfl, ?_⟩
      rcases joined with ⟨inf, found, member⟩ | ⟨_, rfl⟩
      · rw [same, known] at found
        cases found
        all_goals exact mem_append_left _ member
      · simp
    next different => exact joined.resolve_right fun fresh => different fresh.1.symm

theorem collectInfo_joined (loaded : (gid, accs) ∈ m) (row : a ∈ accs) :
    Joined (collectInfo m) a.id gid := by
  have keeps other infos b (before : Joined infos a.id gid) :
      Joined (collectOne other infos b) a.id gid := collectOne_joined (.inl before)
  refine foldl_of_mem (P := (Joined · a.id gid)) loaded (fun infos => ?_) fun infos g before => ?_
  · exact foldl_of_mem (P := (Joined · a.id gid)) row
      (fun infos => collectOne_joined (.inr ⟨rfl, rfl⟩)) (keeps gid)
  · exact foldlRecOn (motive := (Joined · a.id gid)) g.2 _ before fun infos before b _ =>
      keeps g.1 infos b before

/-- A loaded account is indexed. -/
theorem buildSnapshots_indexed (row : a ∈ rows m) :
    ((buildSnapshots created m oldByID).2.byID.lookup a.id).isSome := by
  obtain ⟨g, loaded, row⟩ := mem_flatMap.mp row
  obtain ⟨inf, known, _⟩ := collectInfo_joined loaded row
  refine foldl_of_mem (P := fun s : Created × Map Int Leaf => (s.2.lookup a.id).isSome)
    (mem_pairs.mpr known) (fun s => ?_) fun s e before => ?_
  · rw [buildOne, lookup_insert_ite, if_pos rfl]
    rfl
  · rw [buildOne, lookup_insert_ite]
    split
    · rfl
    · exact before

theorem digestInt64s_mem {items others : List Int}
    (same : digestInt64s items = digestInt64s others) : g ∈ items ↔ g ∈ others := by
  rw [← mem_insertionSort (· ≤ ·), ← digestInt64s, same, digestInt64s, mem_insertionSort]

theorem buildLeaf_groupIDs {old : Option Leaf} {inf : AccInfo} (member : g ∈ inf.groupIDs) :
    g ∈ (buildLeaf created old inf).2.static.groupIDs := by
  unfold buildLeaf
  cases old with
  | none => exact member
  | some o =>
    dsimp only
    split
    next same =>
      have groups : digestInt64s o.static.groupIDs = digestInt64s inf.groupIDs :=
        congrArg (fun key => key.1.groupIDs) same
      exact (digestInt64s_mem groups).mpr member
    · exact member

theorem buildSnapshots_numbered (numbered : ∀ id leaf, oldByID.lookup id = some leaf → leaf.id = id)
    {leaf : Leaf} (found : (buildSnapshots created m oldByID).2.byID.lookup id = some leaf) :
    leaf.id = id := by
  obtain ⟨a, _, same, old | ⟨account, _⟩⟩ := buildSnapshots_built found
  · exact numbered id leaf old
  · rw [Leaf.id, account, clampCodex_id, same]

/-- The leaves of the rows stand in the order of the rows. -/
theorem filterMap_ids {byID : Map Int Leaf}
    (numbered : ∀ id leaf, byID.lookup id = some leaf → leaf.id = id) (accs : List Account) :
    ((accs.filterMap fun a => byID.lookup a.id).map Leaf.id).Sublist (accs.map (·.id)) := by
  induction accs with
  | nil => exact List.Sublist.refl _
  | cons a rest ih =>
    cases found : byID.lookup a.id with
    | none =>
      simp only [filterMap_cons, found, map_cons]
      exact ih.cons _
    | some leaf =>
      simp only [filterMap_cons, found, map_cons, numbered a.id leaf found]
      exact ih.cons_cons _

/-- A group has each account at most once. -/
def distinctRows (m : List (Int × List Account)) : Prop := ∀ g ∈ m, (g.2.map (·.id)).Nodup

theorem buildSnapshots_linked (numbered : ∀ id leaf, oldByID.lookup id = some leaf → leaf.id = id)
    (distinct : distinctRows m) : (buildSnapshots created m oldByID).2.Linked := by
  have current : ∀ id leaf, (buildSnapshots created m oldByID).2.byID.lookup id = some leaf →
      leaf.id = id := fun _ _ => buildSnapshots_numbered numbered
  have loaded : ∀ gid gs, (buildSnapshots created m oldByID).2.groups.lookup gid = some gs →
      ∃ accs, (gid, accs) ∈ m ∧ gs = groupSnapshot (buildSnapshots created m oldByID).2.byID accs := by
    intro gid gs found
    rcases lookup_insertAll_cases found with entry | ⟨_, none⟩
    · obtain ⟨g, member, same⟩ := mem_map.mp entry
      obtain ⟨rfl, rfl⟩ := Prod.mk.inj same
      exact ⟨g.2, member, rfl⟩
    · simp at none
  refine ⟨current, ?_, ?_⟩
  · intro gid gs _ found leaf listed
    obtain ⟨accs, member, rfl⟩ := loaded gid gs found
    obtain ⟨a, row, indexed⟩ := mem_filterMap.mp listed
    refine ⟨by rw [current a.id leaf indexed]; exact indexed, ?_⟩
    obtain ⟨c, inf, entry, rfl⟩ := buildLeaves_from _ indexed
    obtain ⟨other, known, joined⟩ := collectInfo_joined member row
    rw [mem_pairs.mp entry] at known
    cases known
    exact buildLeaf_groupIDs joined
  · intro gid gs _ found
    obtain ⟨accs, member, rfl⟩ := loaded gid gs found
    exact (filterMap_ids current accs).nodup (distinct _ member)

end

section

variable {live : Int → Prop} {groups groups' : Map Int GroupSnapshot} {byID byID' : Map Int Leaf}
  {leaves : List Leaf} {gs : GroupSnapshot}

/-- The leaf that the index holds now for the account of a leaf. -/
def relink (byID : Map Int Leaf) (a : Leaf) : Leaf := (byID.lookup a.id).getD a

/-- The leaves of a list by their account; the last one counts. -/
def leafMap (leaves : List Leaf) : Map Int Leaf := insertAll ∅ (leaves.map fun lf => (lf.id, lf))

variable {leaf : Leaf} {accs : List Leaf}

theorem leafMap_mem {id : Int} (found : (leafMap leaves).lookup id = some leaf) :
    leaf ∈ leaves ∧ leaf.id = id := by
  rcases lookup_insertAll_cases found with entry | ⟨_, none⟩
  · obtain ⟨other, member, same⟩ := mem_map.mp entry
    obtain ⟨rfl, rfl⟩ := Prod.mk.inj same
    exact ⟨member, rfl⟩
  · simp at none

theorem leafMap_isSome (member : leaf ∈ leaves) : ((leafMap leaves).lookup leaf.id).isSome :=
  lookup_insertAll_isSome (mem_map.mpr ⟨(leaf.id, leaf), mem_map_of_mem member, rfl⟩)

theorem replaceByID_relink (current : ∀ leaf ∈ leaves, byID'.lookup leaf.id = some leaf)
    (kept : ∀ a ∈ gs.accounts, (∃ leaf ∈ leaves, leaf.id = a.id) ∨ byID'.lookup a.id = some a) :
    (replaceByID leaves gs).accounts = gs.accounts.map (relink byID') := by
  refine map_congr_left fun a listed => ?_
  change ((leafMap leaves).lookup a.id).getD a = relink byID' a
  cases found : (leafMap leaves).lookup a.id with
  | none =>
    rcases kept a listed with ⟨leaf, member, same⟩ | still
    · have some := leafMap_isSome member
      rw [same, found] at some
      cases some
    · rw [relink, still]
      rfl
  | some leaf =>
    obtain ⟨member, same⟩ := leafMap_mem found
    rw [relink, ← same, current leaf member]

theorem positions_lookup (once : (accs.map Leaf.id).Nodup) {i : Nat} {a : Leaf}
    (at_i : accs[i]? = some a) : (positions accs).lookup a.id = some i := by
  refine lookup_insertAll_of_mem ?_ ?_
  · rw [map_map]
    have ids : accs.zipIdx.map (Prod.fst ∘ fun e => (e.1.id, e.2)) = accs.map Leaf.id := by
      conv_rhs => rw [← zipIdx_map_fst 0 accs, map_map]
      rfl
    rw [ids]
    exact once
  · exact mem_map.mpr ⟨(a, i), mem_zipIdx_iff_getElem?.mpr at_i, rfl⟩

theorem positions_lookup_none {id : Int} (absent : ∀ a ∈ accs, a.id ≠ id) :
    (positions accs).lookup id = none := by
  refine (lookup_insertAll_of_notMem ?_).trans (lookup_empty id)
  rw [map_map, mem_map]
  rintro ⟨e, member, same⟩
  exact absent e.1 (fst_mem_of_mem_zipIdx member) same

theorem placeOne_pick (once : (accs.map Leaf.id).Nodup) (found : Map Int Leaf) (ns : Leaf) :
    placeOne (positions accs) (accs.map (relink found)) ns =
      accs.map (relink (found.insert ns.id ns)) := by
  unfold placeOne
  by_cases listed : ∃ a ∈ accs, a.id = ns.id
  · obtain ⟨a, member, same⟩ := listed
    obtain ⟨i, bound, rfl⟩ := getElem_of_mem member
    rw [← same, positions_lookup once (List.getElem?_eq_getElem bound)]
    refine ext_getElem (by simp) fun j inside _ => ?_
    have inside' : j < accs.length := by simpa using inside
    rw [getElem_set, getElem_map, getElem_map]
    split
    next here =>
      subst here
      simp [relink]
    next elsewhere =>
      have different : accs[j].id ≠ accs[i].id := by
        intro equal
        have first : i < (accs.map Leaf.id).length := by simpa using bound
        have second : j < (accs.map Leaf.id).length := by simpa using inside'
        have ids : (accs.map Leaf.id)[j] = (accs.map Leaf.id)[i] := by simpa using equal
        exact elsewhere (once.getElem_inj_iff.mp ids).symm
      simp [relink, different]
  · have absent : ∀ a ∈ accs, a.id ≠ ns.id := fun a member same => listed ⟨a, member, same⟩
    rw [positions_lookup_none absent]
    refine map_congr_left fun a member => ?_
    rw [relink, relink, lookup_insert_ite, if_neg (absent a member)]

/-- Where every account stands once, both ways of replacing leaves agree. -/
theorem replaceAt_eq (once : (gs.accounts.map Leaf.id).Nodup) :
    replaceAt leaves gs = replaceByID leaves gs := by
  suffices general : ∀ (leaves : List Leaf) (found : Map Int Leaf),
      leaves.foldl (placeOne (positions gs.accounts)) (gs.accounts.map (relink found)) =
        gs.accounts.map (relink (insertAll found (leaves.map fun lf => (lf.id, lf)))) by
    have nothing : gs.accounts.map (relink ∅) = gs.accounts := by
      rw [map_congr_left (g := id)]
      · exact map_id _
      · intro a _
        simp [relink]
    have placed := general leaves ∅
    rw [nothing] at placed
    simp only [replaceAt, placed]
    rfl
  intro leaves
  induction leaves with
  | nil => exact fun found => rfl
  | cons ns rest ih =>
    intro found
    rw [foldl_cons, placeOne_pick once, ih]
    rfl

theorem relink_unchanged (same : ∀ a ∈ gs.accounts, byID'.lookup a.id = some a) :
    gs.accounts = gs.accounts.map (relink byID') := by
  conv_lhs => rw [← map_id gs.accounts]
  refine map_congr_left fun a listed => ?_
  rw [relink, same a listed]
  rfl

/-- Groups whose leaves are replaced by those of a new index are linked to it. -/
theorem LinkedOn.relink (linked : LinkedOn live groups byID)
    (rewritten : ∀ gid gs, live gid → groups'.lookup gid = some gs →
      ∃ before, groups.lookup gid = some before ∧
        gs.accounts = before.accounts.map (C3Api.Scheduler.relink byID'))
    (carried : ∀ gid gs, live gid → groups.lookup gid = some gs → ∀ a ∈ gs.accounts,
      ∃ leaf, byID'.lookup a.id = some leaf ∧ leaf.id = a.id ∧ gid ∈ leaf.static.groupIDs) :
    LinkedOn live groups' byID' := by
  constructor
  · intro gid gs alive found leaf listed
    obtain ⟨before, known, accounts⟩ := rewritten gid gs alive found
    rw [accounts] at listed
    obtain ⟨a, member, rfl⟩ := mem_map.mp listed
    obtain ⟨leaf, indexed, same, names⟩ := carried gid before alive known a member
    rw [C3Api.Scheduler.relink, indexed]
    exact ⟨by rw [Option.getD_some, same, indexed], names⟩
  · intro gid gs alive found
    obtain ⟨before, known, accounts⟩ := rewritten gid gs alive found
    have ids : gs.accounts.map Leaf.id = before.accounts.map Leaf.id := by
      rw [accounts, map_map]
      refine map_congr_left fun a member => ?_
      obtain ⟨leaf, indexed, same, _⟩ := carried gid before alive known a member
      simp [C3Api.Scheduler.relink, indexed, same]
    rw [ids]
    exact linked.once gid before alive known

theorem lookup_rewriteGroups {rewrite : Int → GroupSnapshot → GroupSnapshot} {gids : List Int}
    (distinct : gids.Nodup) (m : Map Int GroupSnapshot) (gid : Int) :
    (rewriteGroups rewrite gids m).lookup gid =
      if gid ∈ gids then (m.lookup gid).map (rewrite gid) else m.lookup gid := by
  unfold rewriteGroups
  induction gids generalizing m with
  | nil => simp
  | cons og rest ih =>
    obtain ⟨fresh, distinct⟩ := nodup_cons.mp distinct
    rw [foldl_cons, ih distinct]
    have first : (rewriteOne rewrite m og).lookup gid =
        if gid = og then (m.lookup gid).map (rewrite gid) else m.lookup gid := by
      unfold rewriteOne
      split
      next gs known =>
        rw [lookup_insert_ite]
        split
        next same =>
          rw [same, known]
          rfl
        · rfl
      next unknown =>
        split
        next same =>
          rw [same, unknown]
          rfl
        · rfl
    rw [first]
    by_cases same : gid = og
    · subst same
      simp [fresh]
    · simp [same]

theorem nodup_ids_snoc {done : List Leaf} (distinct : ((done ++ [leaf]).map Leaf.id).Nodup) :
    (done.map Leaf.id).Nodup ∧ leaf.id ∉ done.map Leaf.id := by
  rw [map_append, nodup_append] at distinct
  exact ⟨distinct.1, fun member => distinct.2.2 _ member _ (by simp) rfl⟩

/-- Groups in which an account is replaced or stands in the new index stay linked. -/
theorem LinkedOn.rewrite {rewrite : Int → GroupSnapshot → GroupSnapshot} {gids : List Int}
    {leavesOf : Int → List Leaf} (linked : LinkedOn live groups byID) (distinct : gids.Nodup)
    (rewrites : ∀ g gs, live g → groups.lookup g = some gs →
      rewrite g gs = replaceByID (leavesOf g) gs)
    (current : ∀ g, ∀ leaf ∈ leavesOf g, byID'.lookup leaf.id = some leaf)
    (cases : ∀ g gs, live g → groups.lookup g = some gs → ∀ a ∈ gs.accounts,
      (∃ leaf ∈ leavesOf g, leaf.id = a.id ∧ g ∈ gids ∧ g ∈ leaf.static.groupIDs) ∨
        byID'.lookup a.id = some a) : LinkedOn live (rewriteGroups rewrite gids groups) byID' := by
  refine linked.relink ?_ ?_
  · intro g gs alive found
    rw [lookup_rewriteGroups distinct] at found
    split at found
    · obtain ⟨before, known, rfl⟩ := Option.map_eq_some_iff.mp found
      rw [rewrites g before alive known]
      refine ⟨before, known, replaceByID_relink (current g) fun a listed => ?_⟩
      apply (cases g before alive known a listed).imp_left
      exact fun ⟨leaf, member, same, _⟩ => ⟨leaf, member, same⟩
    next unaffected =>
      refine ⟨gs, found, relink_unchanged fun a listed => ?_⟩
      apply (cases g gs alive found a listed).resolve_left
      exact fun ⟨_, _, _, affected, _⟩ => unaffected affected
  · intro g gs alive found a listed
    rcases cases g gs alive found a listed with ⟨leaf, member, same, _, named⟩ | still
    · exact ⟨leaf, same ▸ current g leaf member, same, named⟩
    · exact ⟨a, still, rfl, (linked.listed g gs alive found a listed).2⟩

end

variable {gid : Int} {newIDs : List Int} {byID : Map Int Leaf}

section

variable {done : List Leaf}

/-- The removal of the leaves `done` from an index: the leaves that are kept stand in the
index and are recorded for every other group. -/
structure Removal.Exact (gid : Int) (newIDs : List Int) (byID : Map Int Leaf) (done : List Leaf)
    (s : Removal) : Prop where
  untouched : ∀ id, (∀ os ∈ done, os.id ∉ newIDs → os.id ≠ id) → s.byID.lookup id = byID.lookup id
  current : ∀ e ∈ s.otherRefs, s.byID.lookup e.2.id = some e.2 ∧ e.1 ∈ e.2.static.groupIDs
  removed : ∀ e ∈ s.otherRefs, ∃ os ∈ done, os.id ∉ newIDs ∧ os.id = e.2.id
  recorded : ∀ os ∈ done, os.id ∉ newIDs → ∀ og ∈ removeGid os.static.groupIDs gid,
    ∃ e ∈ s.otherRefs, e.1 = og ∧ e.2.id = os.id

/-- One more leaf: off its own account the index stays, and its new records are of this leaf. -/
theorem Removal.Exact.snoc {s s' : Removal} {os : Leaf} {r : List (Int × Leaf)}
    (exact : s.Exact gid newIDs byID done) (fresh : os.id ∉ done.map Leaf.id)
    (appended : s'.otherRefs = s.otherRefs ++ r)
    (elsewhere : ∀ id, (os.id ∉ newIDs → os.id ≠ id) → s'.byID.lookup id = s.byID.lookup id)
    (current : ∀ e ∈ r, s'.byID.lookup e.2.id = some e.2 ∧ e.1 ∈ e.2.static.groupIDs)
    (removed : ∀ e ∈ r, os.id ∉ newIDs ∧ os.id = e.2.id)
    (recorded : os.id ∉ newIDs → ∀ og ∈ removeGid os.static.groupIDs gid,
      ∃ e ∈ r, e.1 = og ∧ e.2.id = os.id) : s'.Exact gid newIDs byID (done ++ [os]) := by
  refine ⟨?_, ?_, ?_, ?_⟩
  · intro id different
    rw [elsewhere id (different os (by simp))]
    exact exact.untouched id (forall_mem_append.mp different).1
  · rw [appended]
    refine forall_mem_append.mpr ⟨fun e before => ?_, current⟩
    rw [elsewhere]
    · exact exact.current e before
    · intro _ same
      obtain ⟨other, processed, _, equal⟩ := exact.removed e before
      exact fresh (mem_map.mpr ⟨other, processed, equal.trans same.symm⟩)
  · rw [appended]
    refine forall_mem_append.mpr ⟨fun e before => ?_, fun e new => ⟨os, by simp, removed e new⟩⟩
    obtain ⟨other, processed, rest⟩ := exact.removed e before
    exact ⟨other, mem_append_left _ processed, rest⟩
  · intro o member gone og named
    rw [appended]
    rcases mem_append.mp member with before | last
    · obtain ⟨e, known, same⟩ := exact.recorded o before gone og named
      exact ⟨e, mem_append_left _ known, same⟩
    · cases mem_singleton.mp last
      obtain ⟨e, known, same⟩ := recorded gone og named
      exact ⟨e, mem_append_right _ known, same⟩

theorem removeOne_exact {s : Removal} {os : Leaf} (exact : s.Exact gid newIDs byID done)
    (fresh : os.id ∉ done.map Leaf.id) :
    (removeOne gid newIDs s os).Exact gid newIDs byID (done ++ [os]) := by
  unfold removeOne
  split
  next still =>
    exact exact.snoc (r := []) fresh (by simp) (fun _ _ => rfl) (by simp) (by simp)
      fun gone => absurd (by simpa using still) gone
  next gone =>
    have gone : os.id ∉ newIDs := by simpa using gone
    split
    next none =>
      refine exact.snoc (r := []) fresh (by simp) ?_ (by simp) (by simp) (by simp [none])
      intro id different
      rw [lookup_erase_ite, if_neg (different gone).symm]
    · refine exact.snoc fresh rfl ?_ ?_ ?_ ?_
      · intro id different
        rw [lookup_insert_ite, if_neg (different gone).symm]
      · exact forall_mem_map.mpr fun og named =>
          ⟨(lookup_insert_ite _ _ _ _).trans (if_pos rfl), named⟩
      · exact forall_mem_map.mpr fun _ _ => ⟨gone, rfl⟩
      · exact fun _ og named => ⟨_, mem_map_of_mem named, rfl, rfl⟩

theorem removeAll_exact (gid : Int) (newIDs : List Int) (created : Created) {old : List Leaf}
    (distinct : (old.map Leaf.id).Nodup) :
    (old.foldl (removeOne gid newIDs) ⟨created, byID, []⟩).Exact gid newIDs byID old := by
  induction old using List.reverseRecOn with
  | nil => exact ⟨fun _ _ => rfl, by simp, by simp, by simp⟩
  | append_singleton done os ih =>
    obtain ⟨distinct, fresh⟩ := nodup_ids_snoc distinct
    rw [foldl_append]
    exact removeOne_exact (ih distinct) fresh

/-- The adoption of the leaves `done` into an index: every adopted leaf stands in the index,
and the other groups of the old leaf are kept. -/
structure Adoption.Exact (gid : Int) (byID : Map Int Leaf) (done : List Leaf) (s : Adoption) :
    Prop where
  untouched : ∀ id, id ∉ done.map Leaf.id → s.byID.lookup id = byID.lookup id
  ids : s.leaves.map Leaf.id = done.map Leaf.id
  current : ∀ leaf ∈ s.leaves, s.byID.lookup leaf.id = some leaf ∧ gid ∈ leaf.static.groupIDs
  kept : ∀ leaf ∈ s.leaves, ∀ oa, byID.lookup leaf.id = some oa →
    ∀ og ∈ removeGid oa.static.groupIDs gid, og ∈ s.others ∧ og ∈ leaf.static.groupIDs

theorem adopted_id (byID : Map Int Leaf) (ns : Leaf) : (adopted gid byID ns).1.id = ns.id := by
  unfold adopted
  split <;> rfl

theorem adopted_mem (byID : Map Int Leaf) (ns : Leaf) :
    gid ∈ (adopted gid byID ns).1.static.groupIDs := by
  unfold adopted
  split <;> simp

theorem adopted_keeps {ns oa : Leaf} (known : byID.lookup ns.id = some oa) {og : Int}
    (named : og ∈ removeGid oa.static.groupIDs gid) :
    og ∈ (adopted gid byID ns).2 ∧ og ∈ (adopted gid byID ns).1.static.groupIDs := by
  simp only [adopted, known]
  exact ⟨named, mem_cons_of_mem _ named⟩

theorem adoptOne_exact {s : Adoption} {ns : Leaf} (exact : s.Exact gid byID done)
    (fresh : ns.id ∉ done.map Leaf.id) : (adoptOne gid s ns).Exact gid byID (done ++ [ns]) := by
  have apart : ∀ leaf ∈ s.leaves, leaf.id ≠ ns.id := by
    intro leaf member same
    have listed : leaf.id ∈ s.leaves.map Leaf.id := mem_map_of_mem member
    rw [exact.ids] at listed
    exact fresh (same ▸ listed)
  refine ⟨?_, ?_, ?_, ?_⟩
  · intro id absent
    simp only [map_append, map_cons, map_nil, mem_append, not_or, mem_singleton] at absent
    rw [adoptOne, lookup_insert_ite, if_neg absent.2]
    exact exact.untouched id absent.1
  · simp [adoptOne, exact.ids, adopted_id]
  · intro leaf member
    rcases mem_append.mp member with before | last
    · rw [adoptOne, lookup_insert_ite, if_neg (apart leaf before)]
      exact exact.current leaf before
    · cases mem_singleton.mp last
      exact ⟨by rw [adoptOne, lookup_insert_ite, if_pos (adopted_id _ _)], adopted_mem _ _⟩
  · intro leaf member oa known og named
    rcases mem_append.mp member with before | last
    · obtain ⟨other, keeps⟩ := exact.kept leaf before oa known og named
      exact ⟨mem_append_left _ other, keeps⟩
    · cases mem_singleton.mp last
      rw [adopted_id, ← exact.untouched ns.id fresh] at known
      obtain ⟨other, keeps⟩ := adopted_keeps known named
      exact ⟨mem_append_right _ other, keeps⟩

theorem adoptAll_exact (gid : Int) {newAccs : List Leaf} (distinct : (newAccs.map Leaf.id).Nodup) :
    (newAccs.foldl (adoptOne gid) ⟨byID, [], []⟩).Exact gid byID newAccs := by
  induction newAccs using List.reverseRecOn with
  | nil => exact ⟨fun _ _ => rfl, rfl, by simp, by simp⟩
  | append_singleton done ns ih =>
    obtain ⟨distinct, fresh⟩ := nodup_ids_snoc distinct
    rw [foldl_append]
    exact adoptOne_exact (ih distinct) fresh

end

variable {old : List Leaf} {groups : Map Int GroupSnapshot}

def removalGroups (removal : Removal) (groups : Map Int GroupSnapshot) : Map Int GroupSnapshot :=
  rewriteGroups (fun og => replaceByID ((removal.otherRefs.filter (·.1 = og)).map Prod.snd))
    (removal.otherRefs.map Prod.fst).dedup groups

def adoptionGroups (adoption : Adoption) (groups : Map Int GroupSnapshot) : List Int :=
  adoption.others.dedup.filter fun og => (groups.lookup og).isSome

variable {gids : List Int} {g : Int} {w : Working} {accs : List Account}

theorem mem_removeGid (member : g ∈ gids) (other : g ≠ gid) : g ∈ removeGid gids gid := by
  simp [removeGid, member, other]

/-- The other groups stay linked while the old leaves of a group are removed. -/
theorem removal_linked {removal : Removal} (exact : removal.Exact gid newIDs byID old)
    (own : ∀ os ∈ old, byID.lookup os.id = some os) (linked : LinkedOn (· ≠ gid) groups byID) :
    LinkedOn (· ≠ gid) (removalGroups removal groups) removal.byID := by
  refine linked.rewrite (nodup_dedup _) (fun _ _ _ _ => rfl) ?_ ?_
  · intro g leaf member
    obtain ⟨e, kept, rfl⟩ := mem_map.mp member
    exact (exact.current e (mem_of_mem_filter kept)).1
  -- An account of another group is removed with a leaf recorded for that group, or stays.
  · intro g gs other found a listed
    obtain ⟨indexed, named⟩ := linked.listed g gs other found a listed
    by_cases gone : ∃ os ∈ old, os.id ∉ newIDs ∧ os.id = a.id
    · obtain ⟨os, member, absent, same⟩ := gone
      have known := own os member
      rw [same, indexed] at known
      cases known
      obtain ⟨e, member, rfl, same⟩ :=
        exact.recorded a member absent g (mem_removeGid named other)
      exact .inl ⟨e.2, mem_map_of_mem (mem_filter.mpr ⟨member, by simp⟩), same,
        mem_dedup.mpr (mem_map_of_mem member), (exact.current e member).2⟩
    · refine .inr ((exact.untouched a.id ?_).trans indexed)
      exact fun os member absent same => gone ⟨os, member, absent, same⟩

/-- The other groups stay linked while the new leaves of a group are adopted. -/
theorem adoption_linked {adoption : Adoption} {newAccs : List Leaf}
    (exact : adoption.Exact gid byID newAccs) (linked : LinkedOn (· ≠ gid) groups byID) :
    LinkedOn (· ≠ gid)
      (rewriteGroups (fun _ => replaceAt adoption.leaves) (adoptionGroups adoption groups) groups)
      adoption.byID := by
  refine linked.rewrite ((nodup_dedup _).filter _)
    (fun g gs other found => replaceAt_eq (linked.once g gs other found))
    (fun _ leaf member => (exact.current leaf member).1) ?_
  -- An account of another group is adopted and the group recorded, or stays.
  intro g gs other found a listed
  obtain ⟨indexed, named⟩ := linked.listed g gs other found a listed
  by_cases adopted : a.id ∈ newAccs.map Leaf.id
  · rw [← exact.ids] at adopted
    obtain ⟨leaf, member, same⟩ := mem_map.mp adopted
    rw [← same] at indexed
    obtain ⟨recorded, keeps⟩ := exact.kept leaf member a indexed g (mem_removeGid named other)
    exact .inl ⟨leaf, member, same, mem_filter.mpr ⟨mem_dedup.mpr recorded, by simp [found]⟩, keeps⟩
  · exact .inr ((exact.untouched a.id adopted).trans indexed)

section

variable (w : Working) (gid : Int) (accs : List Account)

abbrev rebuilt := buildSnapshots w.created [(gid, accs)] w.root.byID

def oldAccounts : List Leaf :=
  ((w.root.groups.lookup gid).map (·.accounts)).getD []

def newAccounts : List Leaf :=
  (((rebuilt w gid accs).2.groups.lookup gid).map (·.accounts)).getD []

def removalOf : Removal :=
  (oldAccounts w gid).foldl (removeOne gid ((newAccounts w gid accs).map Leaf.id))
    ⟨(rebuilt w gid accs).1, w.root.byID, []⟩

def adoptionOf : Adoption :=
  (newAccounts w gid accs).foldl (adoptOne gid) ⟨(removalOf w gid accs).byID, [], []⟩

theorem invalidateOneInto_groups (g : Int) :
    (invalidateOneInto w gid accs).root.groups.lookup g =
      if g = gid then some ⟨(adoptionOf w gid accs).leaves, buildRoutes (newAccounts w gid accs)⟩
      else (rewriteGroups (fun _ => replaceAt (adoptionOf w gid accs).leaves)
        (adoptionGroups (adoptionOf w gid accs) (removalGroups (removalOf w gid accs) w.root.groups))
        (removalGroups (removalOf w gid accs) w.root.groups)).lookup g :=
  lookup_insert_ite _ _ _ _

end

theorem Root.Linked.accounts_nodup {root : Root} (linked : root.Linked) :
    ((((root.groups.lookup gid).map (·.accounts)).getD []).map Leaf.id).Nodup := by
  cases found : root.groups.lookup gid with
  | none => simp
  | some gs => exact linked.groups.once gid gs trivial found

section

variable (linked : w.root.Linked) (distinct : (accs.map (·.id)).Nodup)

include linked

theorem oldAccounts_indexed {os : Leaf} (member : os ∈ oldAccounts w gid) :
    w.root.byID.lookup os.id = some os := by
  obtain ⟨gs, found, listed⟩ := getD_accounts_mem member
  exact (linked.groups.listed gid gs trivial found os listed).1

theorem removalOf_exact : (removalOf w gid accs).Exact gid ((newAccounts w gid accs).map Leaf.id)
    w.root.byID (oldAccounts w gid) :=
  removeAll_exact gid _ _ linked.accounts_nodup

include distinct

variable (gid)

theorem built_linked : (rebuilt w gid accs).2.Linked :=
  buildSnapshots_linked linked.numbered (by simpa [distinctRows] using distinct)

theorem adoptionOf_exact : (adoptionOf w gid accs).Exact gid (removalOf w gid accs).byID
    (newAccounts w gid accs) :=
  adoptAll_exact gid (built_linked gid linked distinct).accounts_nodup

theorem invalidateOneInto_linked : (invalidateOneInto w gid accs).root.Linked := by
  have built := built_linked gid linked distinct
  have before : LinkedOn (· ≠ gid) w.root.groups w.root.byID :=
    ⟨fun g gs _ => linked.groups.listed g gs trivial, fun g gs _ => linked.groups.once g gs trivial⟩
  have adoption := adoptionOf_exact gid linked distinct
  have others := adoption_linked adoption
    (removal_linked (removalOf_exact linked) (fun _ => oldAccounts_indexed linked) before)
  refine ⟨?_, ?_, ?_⟩
  · intro id leaf found
    exact ((invalidateOneInto_all (Q := fun _ _ => True) (fun _ _ _ _ _ _ _ => trivial)
      ⟨fun id leaf found => ⟨linked.numbered id leaf found, trivial⟩, fun _ _ _ _ _ => trivial⟩
      fun id leaf found => ⟨built.numbered id leaf found, trivial⟩).indexed id leaf found).1
  · intro g gs _ found
    rw [invalidateOneInto_groups] at found
    split at found
    next same =>
      cases found
      subst same
      exact adoption.current
    next other => exact others.listed g gs other found
  · intro g gs _ found
    rw [invalidateOneInto_groups] at found
    split at found
    · cases found
      rw [adoption.ids]
      exact built.accounts_nodup
    next other => exact others.once g gs other found

theorem mem_newAccounts {id : Int} :
    id ∈ (newAccounts w gid accs).map Leaf.id ↔ ∃ a ∈ accs, a.id = id := by
  have accounts : newAccounts w gid accs = accs.filterMap fun a =>
      (rebuilt w gid accs).2.byID.lookup a.id := by
    simp only [newAccounts, buildSnapshots, map_cons, map_nil, insertAll_cons, insertAll_nil,
      lookup_insert_ite, if_true, Option.map_some, Option.getD_some, groupSnapshot]
  have numbered := (built_linked gid linked distinct).numbered
  rw [accounts, mem_map]
  constructor
  · rintro ⟨leaf, member, rfl⟩
    obtain ⟨a, row, found⟩ := mem_filterMap.mp member
    exact ⟨a, row, (numbered a.id leaf found).symm⟩
  · rintro ⟨a, row, rfl⟩
    obtain ⟨leaf, found⟩ : ∃ leaf, (rebuilt w gid accs).2.byID.lookup a.id = some leaf :=
      Option.isSome_iff_exists.mp (buildSnapshots_indexed (by simpa [rows] using row))
    exact ⟨leaf, mem_filterMap.mpr ⟨a, row, found⟩, numbered a.id leaf found⟩

/-- The index holds the account, with a leaf that names these groups. -/
def Root.Names (root : Root) (id : Int) (gids : List Int) : Prop :=
  ∃ leaf, root.byID.lookup id = some leaf ∧ ∀ g ∈ gids, g ∈ leaf.static.groupIDs

variable {id : Int}

/-- A loaded account is indexed under the group. -/
theorem names_enter (row : ∃ a ∈ accs, a.id = id) :
    (invalidateOneInto w gid accs).root.Names id [gid] := by
  have loaded := (mem_newAccounts gid linked distinct).mpr row
  have adoption := adoptionOf_exact gid linked distinct
  rw [← adoption.ids] at loaded
  obtain ⟨leaf, member, rfl⟩ := mem_map.mp loaded
  obtain ⟨indexed, own⟩ := adoption.current leaf member
  exact ⟨leaf, indexed, forall_mem_singleton.mpr own⟩

/-- A group that loads the account joins the groups it names. -/
theorem names_join (row : ∃ a ∈ accs, a.id = id) (names : w.root.Names id gids) :
    (invalidateOneInto w gid accs).root.Names id (gid :: removeGid gids gid) := by
  obtain ⟨oa, known, named⟩ := names
  have loaded := (mem_newAccounts gid linked distinct).mpr row
  have adoption := adoptionOf_exact gid linked distinct
  rw [← adoption.ids] at loaded
  obtain ⟨leaf, member, rfl⟩ := mem_map.mp loaded
  have before : (removalOf w gid accs).byID.lookup leaf.id = some oa := by
    rw [(removalOf_exact linked).untouched leaf.id, known]
    intro os _ gone same
    exact gone (same ▸ adoption.ids ▸ loaded)
  obtain ⟨indexed, own⟩ := adoption.current leaf member
  refine ⟨leaf, indexed, forall_mem_cons.mpr ⟨own, fun g kept => ?_⟩⟩
  obtain ⟨mine, other⟩ := mem_filter.mp kept
  exact (adoption.kept leaf member oa before g (mem_filter.mpr ⟨named g mine, other⟩)).2

/-- A group that loads without the account leaves the groups it names. -/
theorem names_leave (absent : ¬∃ a ∈ accs, a.id = id) (names : w.root.Names id gids)
    (left : removeGid gids gid ≠ []) :
    (invalidateOneInto w gid accs).root.Names id (removeGid gids gid) := by
  obtain ⟨oa, known, named⟩ := names
  have apart := mt (mem_newAccounts gid linked distinct).mp absent
  have same := (adoptionOf_exact gid linked distinct).untouched id apart
  have removal : (removalOf w gid accs).Exact _ _ _ _ := removalOf_exact linked
  have others : ∀ g ∈ removeGid gids gid, g ∈ removeGid oa.static.groupIDs gid := by
    intro g kept
    obtain ⟨mine, other⟩ := mem_filter.mp kept
    exact mem_filter.mpr ⟨named g mine, other⟩
  by_cases listed : ∃ os ∈ oldAccounts w gid, os.id = id
  · obtain ⟨os, member, rfl⟩ := listed
    have indexed := oldAccounts_indexed linked member
    rw [known] at indexed
    cases indexed
    -- every other group has the new leaf on record, and the index holds it
    have recorded := removal.recorded oa member apart
    obtain ⟨first, kept⟩ := exists_mem_of_ne_nil _ left
    obtain ⟨e, entry, _, mine⟩ := recorded first (others first kept)
    have current := (removal.current e entry).1
    refine ⟨e.2, same.trans (mine ▸ current), fun g kept => ?_⟩
    obtain ⟨e', entry', rfl, mine'⟩ := recorded g (others g kept)
    have current' := removal.current e' entry'
    rw [mine', ← mine, current] at current'
    rw [← Option.some.inj current'.1] at current'
    exact current'.2
  · refine ⟨oa, same.trans ((removal.untouched id ?_).trans known), fun g kept => ?_⟩
    · exact fun os member _ mine => listed ⟨os, member, mine⟩
    · exact (mem_filter.mp (others g kept)).1

end

/-- Every load of a batch returns distinct accounts. -/
def distinctLoads (load : Int → Option (List Account)) (gids : List Int) : Prop :=
  ∀ gid ∈ gids, ∀ accs, load gid = some accs → (accs.map (·.id)).Nodup

variable {load : Int → Option (List Account)}

theorem foldGroups_linked (distinct : distinctLoads load gids) (linked : w.root.Linked) :
    (foldGroups load gids w).root.Linked := by
  induction gids generalizing w with
  | nil => exact linked
  | cons gid rest ih =>
    obtain ⟨first, distinct⟩ := forall_mem_cons.mp distinct
    unfold foldGroups
    split
    · exact ih distinct linked
    next accs loaded => exact ih distinct (invalidateOneInto_linked _ linked (first accs loaded))

end C3Api.Scheduler
