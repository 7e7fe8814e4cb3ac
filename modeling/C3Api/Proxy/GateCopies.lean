import C3Api.Proxy.GateProtocol

/-!
# What a rebuild carries over

A rebuild gives the levels and the keys new cells that go on from the old ones. While nobody
writes to the old cells, the cells of a draft read as theirs.
-/

namespace C3Api.Proxy.GateSteps

open Interleaving Heap Function Snapshot

/-- What a new cell starts with; only a quota may start at will, where there was none. -/
def Heap.carried (h : Heap) (old : Snapshot) (p : Place) : Option Int :=
  match old.entry p, p with
  | some c, _ => some (h.reading p c)
  | none, .counter _ => some 0
  | none, .quota _ => none

variable {I : Type} (place : I → Place)

def Known (h : Heap) (old : Snapshot) : Prop :=
  ∀ x c, old.entry (place x) = some c → c < h.next

/-- Every cell of the draft goes on from that of the old snapshot. -/
def Copies (h : Heap) (old draft : Snapshot) : Prop :=
  ∀ x c, draft.entry (place x) = some c →
    c < h.next ∧ ∀ v, h.carried old (place x) = some v → h.reading (place x) c = v

structure Copied (σ : Gate) : Prop where
  known : Known place σ.shared σ.shared.current
  drafts : ∀ (i : Nat) op pc draft, σ.procs[i]? = some (.rebuild op pc) → pc.draft = some draft →
    Copies place σ.shared σ.shared.current draft

variable {place} {h h' : Heap} {old draft : Snapshot}

theorem carried_some {p : Place} {c : Nat} (entry : old.entry p = some c) :
    h.carried old p = some (h.reading p c) := by
  simp [carried, entry]

theorem carried_none {s : Slot} (entry : old.counters s = none) :
    h.carried old (.counter s) = some 0 := by
  simp [carried, Snapshot.entry, entry]

section

variable (reading : ∀ x c, c < h.next → h'.reading (place x) c = h.reading (place x) c)
  (known : Known place h old)

include reading known

theorem carried_extend (x : I) : h'.carried old (place x) = h.carried old (place x) := by
  unfold carried
  split
  next c entry => rw [reading x c (known x c entry)]
  · rfl
  · rfl

theorem Copies.extend (next : h.next ≤ h'.next) (copies : Copies place h old draft) :
    Copies place h' old draft := by
  intro x c entry
  obtain ⟨below, same⟩ := copies x c entry
  refine ⟨below.trans_le next, fun v carried => ?_⟩
  rw [carried_extend reading known] at carried
  rw [reading x c below]
  exact same v carried

end

/-- A new cell that goes on from the old one. -/
theorem Copies.enter {draft' : Snapshot} {p : Place} (copies : Copies place h old draft)
    (known : Known place h old) (grown : h.Extends h') (room : h.next < h'.next)
    (entry : draft'.entry = update draft.entry p (some h.next))
    (inherits : ∀ v, h.carried old p = some v → h'.reading p h.next = v) :
    Copies place h' old draft' := by
  intro x c listed
  rw [entry] at listed
  by_cases here : place x = p
  · rw [here, update_self] at listed
    cases listed
    refine ⟨room, fun v carried => ?_⟩
    rw [carried_extend (fun x => grown.reading (place x)) known, here] at carried
    rw [here]
    exact inherits v carried
  · rw [update_of_ne here] at listed
    exact copies.extend (fun x => grown.reading (place x)) known grown.next x c listed

theorem Builds.copies {built built' : Heap × Snapshot} (builds : Builds old built built')
    (known : Known place built.1 old) (copies : Copies place built.1 old built.2) :
    Copies place built'.1 old built'.2 := by
  induction builds with
  | refl => exact copies
  | @tail middle _ before step ih =>
    have known : Known place middle.1 old := fun x c entry =>
      (known x c entry).trans_le (Builds.extends before).next
    have grown := Builds.extends (.single step)
    cases step with
    | counter s inherits =>
      refine ih.enter (p := .counter s) known grown (Nat.lt_succ_self _) ?_ fun v carried => ?_
      · exact funext fun p => by cases p <;> simp [newCounter, entry, update_apply]
      · simp only [newCounter, Heap.reading, update_self, inherits]
        unfold Heap.inherited
        unfold Heap.carried at carried
        split at carried <;> simp_all [entry, Heap.reading]
    | quota key q inherits =>
      refine ih.enter (p := .quota key) known grown (Nat.lt_succ_self _) ?_ fun v carried => ?_
      · exact funext fun p => by cases p <;> simp [newQuota, entry, update_apply]
      · simp only [newQuota, Heap.reading, update_self]
        unfold Heap.carried at carried
        split at carried <;> simp_all [entry, Heap.reading]
    | allocate => exact ih.extend (fun x => grown.reading (place x)) known grown.next
    | drop _ entries => exact fun x c entry => ih x c (entries _ c entry)

theorem entries_copies (known : Known place h old) : Copies place h old old.entries := by
  intro x c entry
  have listed : old.entry (place x) = some c := by
    rw [← entry]
    cases place x <;> rfl
  exact ⟨known x c listed, fun v carried => Option.some.inj ((carried_some listed).symm.trans carried)⟩

theorem empty_copies : Copies place h old {} := by
  intro x c entry
  cases at_ : place x <;> rw [at_] at entry <;> cases entry

section

variable {i : Nat} {procs : List Call} (copied : Copied place ⟨h, procs⟩)

include copied

theorem Copied.frame {call' : Call} (entry : h'.current.entry = h.current.entry)
    (next : h.next ≤ h'.next)
    (reading : ∀ x c, c < h.next → h'.reading (place x) c = h.reading (place x) c)
    (draft : ∀ op pc draft, call' = .rebuild op pc → pc.draft = some draft →
      Copies place h' h.current draft) :
    Copied place ⟨h', procs.set i call'⟩ where
  known x c listed := by
    rw [entry] at listed
    exact (copied.known x c listed).trans_le next
  drafts j op pc draft' found held := by
    have relative : Copies place h' h.current draft' := by
      obtain ⟨-, same⟩ | ⟨-, found⟩ := set_cases found
      · exact draft op pc draft' same.symm held
      · exact (copied.drafts j op pc draft' found held).extend reading copied.known next
    simpa only [Copies, carried, entry] using relative

theorem Copied.rebuild {op : RebuildOp} {pc pc' : RebuildPc} (inv : Protocol ⟨h, procs⟩)
    (found : procs[i]? = some (.rebuild op pc)) (stepped : RebuildStep i h pc h' pc') :
    Copied place ⟨h', procs.set i (.rebuild op pc')⟩ := by
  obtain ⟨old, draft, rfl, rfl, rfl⟩ | ⟨keeps, drafted⟩ := stepped.drafts (inv.calls i _ found).2.1
  · have mine : Copies place h h.current draft := copied.drafts i op _ draft found rfl
    refine ⟨fun x c entry => ?_, fun j op' pc' draft' foundOther held => ?_⟩
    · rw [current_publish] at entry
      exact (mine x c entry).1
    · rw [inv.undrafted found foundOther] at held
      cases held
  · refine copied.frame keeps.entry keeps.next (fun x => keeps.reading (place x)) ?_
    rintro op pc draft same held
    cases same
    obtain ⟨first, origin, builds⟩ := drafted draft held
    refine builds.copies copied.known ?_
    obtain rfl | had | rfl := origin
    · exact empty_copies
    · exact copied.drafts i op _ first found had
    · exact entries_copies copied.known

theorem Copied.start {call : Call} (starts : call.starts = true) :
    Copied place ⟨h, procs ++ [call]⟩ :=
  ⟨copied.known, fun i op pc draft found held =>
    copied.drafts i op pc draft (rebuild_of_drafted starts found held) held⟩

end

theorem copied_initial : Copied place newGate := by
  refine ⟨fun x c entry => ?_, fun i op pc draft found => by simp [newGate] at found⟩
  cases at_ : place x <;> rw [at_] at entry <;> cases entry

end C3Api.Proxy.GateSteps
