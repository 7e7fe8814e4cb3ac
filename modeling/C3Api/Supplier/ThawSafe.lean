import C3Api.Supplier.CreditSafe

/-!
# Thawing and patching keep the ledger

A thaw removes chunks and adds up what they held per supplier; the guards make sure
that every supplier with a sum also has a balance to add it to.
-/

namespace C3Api.Supplier

open ReadCommitted List Contract

variable {cfg : SupplierRepoConfig} {base : Rows} {t : Task} {w : SupplierWorld}
variable {h : Held Row Nat} {moved : Account → Int}

def thawMoved (deltas : List (Int × Int)) : Account → Int
  | .frozen uid => -deltaOf deltas uid
  | _ => 0

def releasedMoved (d : Int × Int) : Account → Int
  | .available uid => if d.1 = uid then d.2 else 0
  | _ => 0

theorem thawed_posting (deltas : List (Int × Int)) (a : Account) :
    thawMoved deltas a + (deltas.map (releasedMoved · a)).sum = posting a (.thawed deltas) := by
  cases a <;> simp only [thawMoved, releasedMoved, posting, deltaOf, map_const',
    sum_replicate, nsmul_zero, zero_add, add_zero]

theorem deltaList_perm (deltas : Deltas) :
    (deltaList deltas).Perm (deltas.entries.map fun entry => (entry.1, entry.2)) :=
  perm_insertionSort ..

theorem deltaOf_deltaList (deltas : Deltas) (uid : Int) :
    deltaOf (deltaList deltas) uid = (deltas.lookup uid).getD 0 := by
  have whole : deltaOf (deltaList deltas) uid =
      tally (fun k v => if k = uid then v else 0) deltas := by
    unfold deltaOf tally
    rw [((deltaList_perm deltas).map _).sum_eq, map_map]
    rfl
  rw [whole, tally_single _ deltas uid (fun k v _ different => if_neg different)]
  cases deltas.lookup uid with
  | none => rfl
  | some amount => exact if_pos rfl

theorem deltaList_nodup (deltas : Deltas) : ((deltaList deltas).map Prod.fst).Nodup := by
  rw [((deltaList_perm deltas).map _).nodup_iff, map_map]
  exact deltas.nodupKeys

variable {uid limit : Int} {now : Nat}

variable {deltas deltas' : Deltas} {amount : Int} {b b' : SupplierBalance} {failed : Tx}
  {p : SupplierBalancePatch}

theorem addDelta_ok (ok : addDelta deltas uid amount = .ok deltas') :
    0 ≤ amount ∧ deltas' = deltas.insert uid ((deltas.lookup uid).getD 0 + amount) := by
  unfold addDelta at ok
  split at ok
  · cases ok
  rename_i valid
  split at ok
  · cases ok
  · cases ok
  rename_i sum added
  cases Except.ok.inj ok
  rw [addChecked_ok added]
  exact ⟨not_lt.mp (fun negative => valid (.inr negative)), rfl⟩

theorem thawMoved_addDelta (ok : addDelta deltas uid amount = .ok deltas') (a : Account) :
    thawMoved (deltaList deltas') a = thawMoved (deltaList deltas) a +
      (match a with
        | .frozen uid' => if uid = uid' then -amount else 0
        | _ => 0) := by
  obtain ⟨-, rfl⟩ := addDelta_ok ok
  cases a <;> simp only [thawMoved, add_zero]
  case frozen uid' =>
    rw [deltaOf_deltaList, deltaOf_deltaList]
    by_cases same : uid = uid'
    · subst same
      rw [AList.lookup_insert, if_pos rfl, Option.getD_some]
      ring
    · rw [AList.lookup_insert_ne (Ne.symm same), if_neg same, add_zero]

theorem removeChunks_safe {chosen : List (Int × Nat)} {done : Deltas → Tx}
    (start : Crediting [] (fun _ => 0) w h.writes)
    (finish : ∀ deltas h' w', Crediting [] (thawMoved (deltaList deltas)) w' h'.writes →
      Safe cfg base t (done deltas) h' w') :
    Safe cfg base t
      (.forEach
        (fun c deltas rest => .removeRow (.chunk c.1 c.2) fun
          | none => rest deltas
          | some chunk => orAbort (addDelta deltas c.1 chunk.amount) rest) done chosen ∅) h w := by
  refine safe_forEach
    (fun _ deltas h w => Crediting [] (thawMoved (deltaList deltas)) w h.writes) ?_ finish chosen ∅
    (start.of_moved (fun a => by cases a <;> rfl))
  intro c rest deltas h w next crediting more
  apply safe_removeRow
  · intro w' later _
    exact more deltas h w' (crediting.later later)
  intro w' chunk later found
  refine orAbort_safe (fun deltas' ok => ?_)
  refine more deltas' _ w' (((crediting.later later).write found ⟨trivial, trivial, nofun⟩
    (fun a => ?_)).of_moved (fun a => (thawMoved_addDelta ok a).symm))
  cases a <;> simp only [weight_none, weight_some, share, sub_self, zero_sub]
  split <;> simp

theorem addAvailable_step {delta : Int} (uid : Int) (nonneg : 0 ≤ delta)
    (added : addAvailable now delta b = some b') :
    RowStep creditScope (.balance uid) (some b) (some b') ∧
      ∀ a, weight (share a) (.balance uid) (some b') - weight (share a) (.balance uid) (some b) =
        releasedMoved (uid, delta) a := by
  cases added
  refine ⟨⟨⟨fun _ => rfl, fun solvent b' same => ?_⟩, trivial, nofun⟩, fun a => ?_⟩
  · cases same
    exact add_nonneg (solvent b rfl) nonneg
  · cases a <;> simp only [weight_some, share, releasedMoved, sub_self]
    split <;> simp

/-- If every supplier was returned, every sum has been added. -/
theorem thawBalances_safe {deltas : List (Int × Int)} {next : List Int → Tx}
    (nonneg : ∀ d ∈ deltas, 0 ≤ d.2) (distinct : (deltas.map Prod.fst).Nodup)
    (start : Crediting [] moved w h.writes)
    (followed : ∀ returned h' w',
      ((∀ d ∈ deltas, d.1 ∈ returned) →
        Crediting [] (fun a => moved a + (deltas.map (releasedMoved · a)).sum) w' h'.writes) →
      Safe cfg base t (next returned) h' w') :
    Safe cfg base t (thawBalances now deltas next) h w := by
  intro w₁ later₁
  let P : List (Int × Int) → List Int → Held Row Nat → SupplierWorld → Prop :=
    fun done returned h w => returned = done.map Prod.fst ∧
      Crediting [] (fun a => moved a + (done.map (releasedMoved · a)).sum) w h.writes
  refine safe_updateEach_done P (fun now later => ⟨now.1, now.2.later later⟩) ?_ ?_ ?_ ?_
  · rintro d done returned h w ⟨same, crediting⟩
    exact ⟨same, by rwa [enter_writes]⟩
  · rintro d done returned h w b b' ⟨same, crediting⟩ part found added
    have member := mem_of_mem_filter (part.subset mem_cons_self)
    obtain ⟨step, amounts⟩ := addAvailable_step d.1 (nonneg d member) added
    refine ⟨by rw [same, map_cons], ?_⟩
    refine (crediting.write found step amounts).of_moved (fun a => ?_)
    rw [map_cons, sum_cons]
    ring
  · rintro done returned h w ⟨same, crediting⟩ part
    refine followed returned h w (fun covered => crediting.of_moved (fun a => ?_))
    have part := part.trans filter_sublist.subperm
    have inside := part.subset
    have fresh : done.Nodup := (nodup_of_subperm part distinct).of_map _
    have whole : done.Perm deltas := by
      refine (perm_ext_iff_of_nodup fresh (distinct.of_map _)).mpr (fun d => ⟨@inside d, ?_⟩)
      intro member
      obtain ⟨d', listed, first⟩ := mem_map.mp (same ▸ covered d member)
      cases inj_on_of_nodup_map distinct (inside listed) member first
      exact listed
    rw [(whole.map _).sum_eq]
  · exact ⟨rfl, (start.later later₁).of_moved (fun a => by simp)⟩

theorem releaseDeltas_safe {deltas : List (Int × Int)}
    (onFailure : ∀ h' w', Safe cfg base t failed h' w')
    (distinct : (deltas.map Prod.fst).Nodup) (start : Crediting [] (thawMoved deltas) w h.writes) :
    Safe cfg base t (releaseDeltas now failed deltas) h w := by
  refine safe_ite (fun empty => ?_) (fun _ => ?_)
  · exact start.commit (fun a => by rw [empty]; cases a <;> rfl) fun _ => trivial
  · refine exec_safe (onFailure h w) (lockBalances_safe start (fun h₁ w₁ locked => ?_))
    split
    · trivial
    rename_i none_negative
    have nonneg : ∀ d ∈ deltas, 0 ≤ d.2 := by
      intro d member
      simpa using List.find?_eq_none.mp none_negative d member
    refine exec_safe (onFailure h₁ w₁)
      (thawBalances_safe nonneg distinct locked (fun returned h₂ w₂ released => ?_))
    split
    · trivial
    rename_i none_missing
    have covered : ∀ d ∈ deltas, d.1 ∈ returned := by
      intro d member
      simpa using List.find?_eq_none.mp none_missing d member
    exact (released covered).commit (thawed_posting deltas) fun _ => trivial

theorem thawChunks_safe {dueOnly : Bool} (onFailure : ∀ h' w', Safe cfg base t failed h' w') :
    Safe cfg base t (thawChunks limit dueOnly failed) {} w := by
  refine safe_ite (fun _ => commit_nothing rfl) (fun _ => ?_)
  intro w₁ _
  apply exec_safe (onFailure _ w₁)
  intro w₂ _ order locked
  refine removeChunks_safe (.start nofun) ?_
  exact fun deltas h' w' removed => releaseDeltas_safe onFailure (deltaList_nodup deltas) removed

theorem thawWithRetry_safe (n : Nat) : Safe cfg base t (thawWithRetry limit n) {} w := by
  induction n generalizing w with
  | zero => trivial
  | succ n ih =>
    exact thawChunks_safe (fun h' w' w'' later => ih)

theorem releaseFrozenNoWait_safe : Safe cfg base t (releaseFrozenNoWait limit) {} w :=
  thawChunks_safe (fun _ _ => trivial)

theorem patch_step (set : p.set now b = some b') :
    RowStep creditScope (.balance uid) (some b) (some b') ∧
      ∀ a, weight (share a) (.balance uid) (some b') - weight (share a) (.balance uid) (some b) =
        0 := by
  cases set
  refine ⟨⟨⟨fun _ => rfl, fun solvent b' same => ?_⟩, trivial, nofun⟩, fun a => ?_⟩
  · cases same
    exact solvent b rfl
  · cases a <;> exact sub_self _

theorem patchSupplierBalance_safe : Safe cfg base t (patchSupplierBalance uid p) {} w := by
  intro w₁ later₁
  refine safe_ite (fun _ => ?_) (fun _ => ?_)
  · split
    · trivial
    · exact commit_nothing rfl
  have start : Crediting [] (fun _ => 0) w₁ ({} : Held Row Nat).writes :=
    .start (by simp)
  apply safe_updateWhere
  · exact fun _ _ => trivial
  · exact fun _ _ => trivial
  intro w₂ b b' later₂ found set
  obtain ⟨step, amounts⟩ := patch_step set
  have written := (start.later later₂).write found step amounts
  exact Crediting.commit written (fun a => by cases a <;> rfl) fun _ => trivial

end C3Api.Supplier
