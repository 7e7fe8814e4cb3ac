import C3Api.Interleaving.Pool
import C3Api.ReadCommitted.Session

/-!
# Proving an invariant of concurrent transactions

A contract states an invariant of the committed world and, for each task, what
the commits of others may do while it runs. `Safe` executes one transaction
symbolically: before every step the world may have moved to any later one that
satisfies the invariant, respects the contract and agrees on the rows the
transaction has frozen. The lock on a row may shield more than the row: no commit
of a transaction that does not hold the lock changes what it shields. If every
task is safe from its start, the invariant holds in every reachable state.
-/

namespace ReadCommitted

open Option List Held

section

variable {K : Type} {V : K → Type} {O : Type} {guard : K → Option (O × Bool)}

/-- The table locks that the written rows need are held. -/
def Held.Guarded (guard : K → Option (O × Bool)) (h : Held V O) : Prop :=
  ∀ k ∈ writtenKeys h.writes, ∀ lock, guard k = some lock →
    ∃ exclusive, (lock.1, exclusive) ∈ h.objects ∧ (lock.2 = true → exclusive = true)

/-- Two transactions share no written row and no conflicting table lock. -/
structure Held.Apart (h h' : Held V O) : Prop where
  rows : ∀ k ∈ writtenKeys h.writes, k ∉ writtenKeys h'.writes
  objects : ∀ o m m', (o, m) ∈ h.objects → (o, m') ∈ h'.objects → m = false ∧ m' = false

variable {h h' : Held V O}

theorem Held.Apart.symm (apart : h.Apart h') : h'.Apart h :=
  ⟨fun k written shared => apart.rows k shared written,
    fun o m m' held held' => (apart.objects o m' m held' held).symm⟩

theorem Held.Apart.empty : Held.Apart ({} : Held V O) h' :=
  ⟨fun _ written => by simp at written, fun _ _ _ held => by simp at held⟩

theorem Held.Guarded.take (guarded : h.Guarded guard) (o : O) (m : Bool) :
    (h.take o m).Guarded guard := by
  intro k written lock needed
  obtain ⟨exclusive, held, covers⟩ := guarded k written lock needed
  exact ⟨exclusive, mem_cons_of_mem _ held, covers⟩

theorem Held.Guarded.enter (guarded : h.Guarded guard) (k : K) : (h.enter guard k).Guarded guard := by
  unfold Held.enter
  split
  · exact guarded
  · exact guarded.take _ _

theorem Held.Guarded.access (guarded : h.Guarded guard) (k : K)
    (written : Option (Option (V k))) : (h.access guard k written).Guarded guard := by
  cases written with
  | none => exact guarded.enter k
  | some v =>
    intro j member lock needed
    rcases mem_writtenKeys_cons.mp member with rfl | old
    · unfold Held.access Held.enter
      simp only [needed]
      exact ⟨lock.2, mem_cons_self, id⟩
    · exact (guarded.enter k) j (by rwa [enter_writes]) lock needed

theorem mem_objects_access {lock : O × Bool} (held : lock ∈ h.objects) (k : K)
    (written : Option (Option (V k))) : lock ∈ (h.access guard k written).objects := by
  have entered : lock ∈ (h.enter guard k).objects := by
    unfold enter
    split
    · exact held
    · exact mem_cons_of_mem _ held
  cases written <;> exact entered

theorem mem_writtenKeys_access {j : K} (member : j ∈ writtenKeys h.writes) (k : K)
    (written : Option (Option (V k))) : j ∈ writtenKeys (h.access guard k written).writes := by
  rw [access_writes]
  cases written with
  | none => exact member
  | some v => exact mem_cons_of_mem _ member

variable [DecidableEq O]

theorem blocks_eq_false_iff {o : O} {m : Bool} :
    h.blocks o m = false ↔ ∀ m', (o, m') ∈ h.objects → m = false ∧ m' = false := by
  unfold blocks
  simp only [List.any_eq_false, Bool.and_eq_true, decide_eq_true_eq, Bool.or_eq_true, not_and,
    not_or, Bool.not_eq_true]
  constructor
  · intro free m' member
    exact free (o, m') member rfl
  · rintro free ⟨o', m'⟩ member rfl
    exact free m' member

theorem Held.Apart.take (apart : h.Apart h') {o : O} {m : Bool} (free : h'.blocks o m = false) :
    (h.take o m).Apart h' := by
  refine ⟨apart.rows, ?_⟩
  intro o' n n' held held'
  rcases mem_cons.mp held with new | old
  · obtain ⟨rfl, rfl⟩ := Prod.mk.inj new
    exact blocks_eq_false_iff.mp free n' held'
  · exact apart.objects o' n n' old held'

variable [DecidableEq K]

theorem freezes_eq_false_iff {k : K} :
    h.freezes guard k = false ↔ k ∉ writtenKeys h.writes ∧
      ∀ lock, guard k = some lock → h.blocks lock.1 lock.2 = false := by
  unfold freezes
  cases guard k <;> simp

theorem freezes_access {j : K} (frozen : h.freezes guard j = true) (k : K)
    (written : Option (Option (V k))) : (h.access guard k written).freezes guard j = true := by
  by_contra thawed
  obtain ⟨free, unlocked⟩ := freezes_eq_false_iff.mp (Bool.not_eq_true _ ▸ thawed)
  have before : h.freezes guard j = false := by
    refine freezes_eq_false_iff.mpr ⟨fun member => free (mem_writtenKeys_access member k written), ?_⟩
    intro lock needed
    rw [blocks_eq_false_iff]
    intro m' held
    exact blocks_eq_false_iff.mp (unlocked lock needed) m' (mem_objects_access held k written)
  rw [frozen] at before
  cases before

/-- A written row is frozen against every transaction apart. -/
theorem Held.Apart.freezes (apart : h.Apart h') (guarded : h.Guarded guard) {k : K}
    (written : k ∈ writtenKeys h.writes) : h'.freezes guard k = false := by
  refine freezes_eq_false_iff.mpr ⟨apart.rows k written, ?_⟩
  intro lock needed
  obtain ⟨exclusive, held, covers⟩ := guarded k written lock needed
  rw [blocks_eq_false_iff]
  intro m' held'
  obtain ⟨own, other⟩ := apart.objects lock.1 exclusive m' held held'
  refine ⟨?_, other⟩
  by_contra strict
  simp only [Bool.not_eq_false] at strict
  exact absurd (covers strict) (by simp [own])

theorem Held.Apart.enter (apart : h.Apart h') {k : K} (free : h'.freezes guard k = false) :
    (h.enter guard k).Apart h' := by
  unfold Held.enter
  split
  · exact apart
  next lock needed => exact apart.take ((freezes_eq_false_iff.mp free).2 lock needed)

theorem Held.Apart.access (apart : h.Apart h') {k : K} (written : Option (Option (V k)))
    (free : h'.freezes guard k = false) : (h.access guard k written).Apart h' := by
  cases written with
  | none => exact apart.enter free
  | some v =>
    exact ⟨forall_mem_cons.mpr ⟨(freezes_eq_false_iff.mp free).1, apart.rows⟩,
      (apart.enter free).objects⟩

end

variable {K : Type} [DecidableEq K] {V : K → Type} {O : Type} [DecidableEq O]
variable {E X T : Type}

structure Contract (sys : System V O E X T) where
  inv : World V E → Prop
  rely : T → World V E → World V E → Prop
  permit : List T → World V E → World V E → Prop := fun _ _ _ => True
  mayAbort : T → X → Prop := fun _ _ => True
  shield : K → World V E → World V E → Prop := fun _ _ _ => True
  rely_refl : ∀ t w, rely t w w
  rely_trans : ∀ {t w w' w''}, rely t w w' → rely t w' w'' → rely t w w''
  shield_refl : ∀ k w, shield k w w := by intros; trivial
  shield_trans : ∀ {k w w' w''}, shield k w w' → shield k w' w'' → shield k w w'' := by
    intros; trivial

namespace Contract

variable {sys : System V O E X T} (c : Contract sys)

/-- A world that the commits of others may lead to while `t` holds `h`. -/
structure Later (t : T) (h : Held V O) (w w' : World V E) : Prop where
  inv : c.inv w'
  rely : c.rely t w w'
  frozen : ∀ k, h.freezes sys.guard k = true → w'.db.lookup k = w.db.lookup k
  shielded : ∀ k ∈ writtenKeys h.writes, c.shield k w w'

/-- What a commit of a transaction that holds `h` owes to the others. -/
structure Kept (others : List T) (h : Held V O) (w w' : World V E) : Prop where
  inv : c.inv w'
  rely : ∀ t ∈ others, c.rely t w w'
  shield : ∀ k, k ∉ writtenKeys h.writes → c.shield k w w'

/-- A change that every transaction tolerates, whatever it holds. -/
structure Quiet (w w' : World V E) : Prop where
  inv : c.inv w'
  rely : ∀ t, c.rely t w w'
  shield : ∀ k, c.shield k w w'

/-- Every continuation of the program keeps the contract. -/
def Safe (t : T) : Prog V O E X → Held V O → World V E → Prop
  | .read next, h, w => ∀ w', c.Later t h w w' →
      Safe t (next (overlay w'.db h.writes) w'.clock) h w'
  | .access k write next, h, w => ∀ w', c.Later t h w w' →
      Safe t (next ((overlay w'.db h.writes).lookup k))
        (h.access sys.guard k (write ((overlay w'.db h.writes).lookup k))) w'
  | .hold o exclusive next, h, w => ∀ w', c.Later t h w w' → Safe t next (h.take o exclusive) w'
  | .choose next, h, w => ∀ n, Safe t (next n) h w
  | .rollback next, h, w => ∀ w', c.Later t h w w' → Safe t next {} w'
  | .abort error, _, _ => c.mayAbort t error
  | .commit events, h, w => ∀ w', c.Later t h w w' → ∀ others,
      c.permit others w' (w'.commit h.writes events) →
      c.Kept others h w' (w'.commit h.writes events)

variable {c}

variable {t : T} {h : Held V O} {w w' : World V E} {k : K} {σ σ' : State V O E X T} {i : Nat}
  {s : Session V O E X T}

theorem Later.refl (inv : c.inv w) : c.Later t h w w :=
  ⟨inv, c.rely_refl t w, fun _ _ => rfl, fun k _ => c.shield_refl k w⟩

theorem Later.trans {w'' : World V E} (first : c.Later t h w w') (second : c.Later t h w' w'') :
    c.Later t h w w'' :=
  ⟨second.inv, c.rely_trans first.rely second.rely,
    fun k frozen => (second.frozen k frozen).trans (first.frozen k frozen),
    fun k held => c.shield_trans (first.shielded k held) (second.shielded k held)⟩

theorem Later.of_access {written : Option (Option (V k))}
    (later : c.Later t (h.access sys.guard k written) w w') : c.Later t h w w' :=
  ⟨later.inv, later.rely, fun j frozen => later.frozen j (freezes_access frozen k written),
    fun j member => later.shielded j (mem_writtenKeys_access member k written)⟩

theorem Later.written (later : c.Later t h w w') (member : k ∈ writtenKeys h.writes) :
    w'.db.lookup k = w.db.lookup k :=
  later.frozen k (by simp [freezes, member])

theorem Later.change {M : Type} [AddCommGroup M] (later : c.Later t h w w')
    (q : (k : K) → V k → M) : change q w'.db h.writes = change q w.db h.writes :=
  change_congr q (fun _ member => later.written member)

theorem Later.moves (later : c.Later t h w w') {R : (k : K) → Option (V k) → Option (V k) → Prop}
    (refl : ∀ k v, R k v v) (moves : Moves R w.db h.writes) : Moves R w'.db h.writes :=
  moves.congr refl (fun _ member => later.written member)

/-- Safety survives the commits of others. -/
theorem Safe.later {p : Prog V O E X} (safe : c.Safe t p h w) (later : c.Later t h w w') :
    c.Safe t p h w' := by
  induction p generalizing h w w' with
  | read next _ | access k write next _ | hold o exclusive next _ | rollback next _
  | commit events => exact fun w'' further => safe w'' (later.trans further)
  | choose next ih => exact fun n => ih n (safe n) later
  | abort error => exact safe

variable (c)

/-- The invariant of the whole state: every running session is safe from where it
is, and no two of them interfere. -/
structure Holds (σ : State V O E X T) : Prop where
  inv : c.inv σ.world
  safe : ∀ (i : Nat) (s : Session V O E X T), σ.sessions[i]? = some (some s) →
    c.Safe s.task s.prog s.held σ.world
  guarded : ∀ (i : Nat) (s : Session V O E X T), σ.sessions[i]? = some (some s) →
    s.held.Guarded sys.guard
  apart : ∀ (i j : Nat) (s t : Session V O E X T), i ≠ j → σ.sessions[i]? = some (some s) →
    σ.sessions[j]? = some (some t) → s.held.Apart t.held

variable {c}

omit [DecidableEq K] [DecidableEq O] in
theorem mem_others {sid : Nat} {t : Session V O E X T} :
    t ∈ σ.others sid ↔ ∃ j, j ≠ sid ∧ σ.sessions[j]? = some (some t) := by
  unfold State.others
  rw [reduceOption_mem_iff, mem_eraseIdx_iff_getElem?]

section

variable (holds : c.Holds σ)

include holds

/-- At most one session is new, and the world is a later one for all others. -/
theorem Holds.change {sessions : List (Option (Session V O E X T))} {P : Session V O E X T → Prop}
    (inv : c.inv w)
    (found : ∀ j t, sessions[j]? = some (some t) →
      (j = i ∧ P t) ∨ (j ≠ i ∧ σ.sessions[j]? = some (some t)))
    (later : ∀ t ∈ σ.others i, c.Later t.task t.held σ.world w)
    (ready : ∀ t, P t → c.Safe t.task t.prog t.held w ∧ t.held.Guarded sys.guard ∧
      ∀ u ∈ σ.others i, t.held.Apart u.held) : c.Holds ⟨w, sessions⟩ := by
  refine ⟨inv, ?_, ?_, ?_⟩
  · intro j t there
    rcases found j t there with ⟨-, new⟩ | ⟨other, old⟩
    · exact (ready t new).1
    · exact (holds.safe j t old).later (later t (mem_others.mpr ⟨j, other, old⟩))
  · intro j t there
    rcases found j t there with ⟨-, new⟩ | ⟨-, old⟩
    · exact (ready t new).2.1
    · exact holds.guarded j t old
  · intro j k t u different there there'
    rcases found j t there with ⟨rfl, new⟩ | ⟨apartJ, old⟩
    · rcases found k u there' with ⟨rfl, -⟩ | ⟨apartK, old'⟩
      · exact absurd rfl different
      · exact (ready t new).2.2 u (mem_others.mpr ⟨k, apartK, old'⟩)
    · rcases found k u there' with ⟨rfl, new⟩ | ⟨-, old'⟩
      · exact ((ready u new).2.2 t (mem_others.mpr ⟨j, apartJ, old⟩)).symm
      · exact holds.apart j k t u different old old'

theorem Holds.update (safe : c.Safe s.task s.prog s.held σ.world)
    (guarded : s.held.Guarded sys.guard) (apart : ∀ t ∈ σ.others i, s.held.Apart t.held) :
    c.Holds (σ.update i s) := by
  refine holds.change (i := i) (P := (· = s)) holds.inv ?_ (fun t _ => .refl holds.inv) ?_
  · intro j t there
    rcases Interleaving.set_cases there with ⟨same, new⟩ | old
    · exact .inl ⟨same, some.inj new⟩
    · exact .inr old
  · rintro _ rfl
    exact ⟨safe, guarded, apart⟩

/-- A session ends and leaves a world that is a later one for all others. -/
theorem Holds.finish (inv : c.inv w)
    (later : ∀ t ∈ σ.others i, c.Later t.task t.held σ.world w) : c.Holds (σ.finish i w) := by
  refine holds.change (i := i) (P := fun _ => False) inv ?_ later (by simp)
  intro j t there
  rcases Interleaving.set_cases there with ⟨-, new⟩ | old
  · cases new
  · exact .inr old

variable (there : σ.sessions[i]? = some (some s))

include there

theorem Holds.apart_others {t : Session V O E X T} (other : t ∈ σ.others i) :
    s.held.Apart t.held := by
  obtain ⟨j, different, old⟩ := mem_others.mp other
  exact holds.apart i j s t (Ne.symm different) there old

/-- A commit leaves the rows others have frozen as they are. -/
theorem Holds.commit_frozen {t : Session V O E X T} (other : t ∈ σ.others i) (events : List E)
    (frozen : t.held.freezes sys.guard k = true) :
    (σ.world.commit s.held.writes events).db.lookup k = σ.world.db.lookup k := by
  apply lookup_overlay_of_notMem
  intro written
  have free := (holds.apart_others there other).freezes (holds.guarded i s there) written
  rw [frozen] at free
  cases free

theorem Holds.act {choice : Nat} (acted : act sys σ i choice s = some σ')
    (permitted : c.permit ((σ.others i).map Session.task) σ.world σ'.world) : c.Holds σ' := by
  have safe := holds.safe i s there
  have guarded := holds.guarded i s there
  have apart := fun t other => holds.apart_others (t := t) there other
  have now : c.Later s.task s.held σ.world σ.world := .refl holds.inv
  unfold ReadCommitted.act at acted
  cases program : s.prog
  all_goals
    rw [program] at safe
    simp only [program, some.injEq] at acted
  case read next =>
    subst acted
    exact holds.update (safe _ now) guarded apart
  case access k write next =>
    split at acted
    · cases acted
    rename_i free
    cases acted
    simp only [List.any_eq_true, not_exists, not_and, Bool.not_eq_true] at free
    exact holds.update (safe _ now) (guarded.access k _)
      (fun t other => (apart t other).access _ (free t other))
  case hold o exclusive next =>
    split at acted
    · cases acted
    rename_i free
    cases acted
    simp only [List.any_eq_true, not_exists, not_and, Bool.not_eq_true] at free
    exact holds.update (safe _ now) (guarded.take o exclusive)
      (fun t other => (apart t other).take (free t other))
  case choose next =>
    subst acted
    exact holds.update (safe choice) guarded apart
  case rollback next =>
    subst acted
    exact holds.update (safe _ now) (fun k written => by simp at written)
      (fun t _ => Held.Apart.empty)
  case abort error =>
    subst acted
    exact holds.finish holds.inv (fun t _ => .refl holds.inv)
  case commit events =>
    subst acted
    have kept := safe _ now _ permitted
    refine holds.finish kept.inv (fun t other => ⟨kept.inv, ?_, ?_, ?_⟩)
    · exact kept.rely t.task (mem_map_of_mem other)
    · exact fun k frozen => holds.commit_frozen there other events frozen
    · exact fun k held => kept.shield k ((apart t other).symm.rows k held)

end

variable {l : Label T} {σ₀ : State V O E X T} (ticks : ∀ w n, c.inv w → c.Quiet w (w.tick n))

include ticks

section

variable (holds : c.Holds σ) (stepped : ReadCommitted.step sys σ l = some σ')
  (permitted : ∀ sid choice, l = .act sid choice →
    c.permit ((σ.others sid).map Session.task) σ.world σ'.world)

include holds stepped permitted

theorem Holds.step (begins : ∀ t w, c.inv w → c.Safe t (sys.code t) {} w) : c.Holds σ' := by
  cases l with
  | start task =>
    cases stepped
    refine holds.change (i := σ.sessions.length) (P := (· = { task, prog := sys.code task }))
      holds.inv ?_ (fun t _ => .refl holds.inv) ?_
    · intro j t there
      rcases Nat.lt_trichotomy j σ.sessions.length with less | equal | more
      · rw [getElem?_append_left less] at there
        exact .inr ⟨less.ne, there⟩
      · subst equal
        rw [getElem?_concat_length] at there
        exact .inl ⟨rfl, (some.inj (some.inj there)).symm⟩
      · rw [getElem?_eq_none (by simp; omega)] at there
        cases there
    · rintro _ rfl
      exact ⟨begins task σ.world holds.inv, fun k written => by simp at written,
        fun _ _ => Held.Apart.empty⟩
  | act sid choice =>
    simp only [ReadCommitted.step] at stepped
    split at stepped
    next s there => exact holds.act there stepped (permitted sid choice rfl)
    · cases stepped
  | crash sid =>
    cases stepped
    exact holds.finish holds.inv (fun t _ => .refl holds.inv)
  | tick n =>
    cases stepped
    have quiet := ticks _ n holds.inv
    refine ⟨quiet.inv, ?_, holds.guarded, holds.apart⟩
    intro i s there
    exact (holds.safe i s there).later
      ⟨quiet.inv, quiet.rely s.task, fun _ _ => rfl, fun k _ => quiet.shield k⟩

/-- A permitted step is one that every task tolerates, if the permit does not look
at the other tasks. -/
theorem Holds.rely (independent : ∀ ts ts' w w', c.permit ts w w' → c.permit ts' w w') (t : T) :
    c.rely t σ.world σ'.world := by
  rcases step_world stepped with same | ⟨n, ticked⟩ |
    ⟨sid, choice, s, events, acts, there, program, committed⟩
  · rw [same]
    exact c.rely_refl t _
  · rw [ticked]
    exact (ticks _ n holds.inv).rely t
  · have safe := holds.safe sid s there
    have alone := independent _ [t] _ _ (permitted sid choice acts)
    rw [program] at safe
    rw [committed] at alone ⊢
    exact (safe _ (.refl holds.inv) [t] alone).rely t mem_cons_self

end

variable (begins : ∀ t w, c.inv w → c.Safe t (sys.code t) {} w)

include begins

/-- If every task is safe from its start, the invariant of the whole state holds in
every state reached from an idle one. -/
theorem holds_of_reachable (idle : σ₀.sessions = []) (initial : c.inv σ₀.world)
    (reached : Reachable sys c.permit σ₀ σ) : c.Holds σ := by
  induction reached with
  | refl => refine ⟨initial, ?_, ?_, ?_⟩ <;> simp [idle]
  | tail _ stepped permitted ih =>
    exact ih.step ticks stepped permitted begins

theorem Holds.rely_of_reachable (holds : c.Holds σ)
    (independent : ∀ ts ts' w w', c.permit ts w w' → c.permit ts' w w')
    (reached : Reachable sys c.permit σ σ') (t : T) : c.rely t σ.world σ'.world := by
  have both : c.Holds σ' ∧ c.rely t σ.world σ'.world := by
    induction reached with
    | refl => exact ⟨holds, c.rely_refl t _⟩
    | tail _ stepped permitted ih =>
      obtain ⟨before, later⟩ := ih
      exact ⟨before.step ticks stepped permitted begins,
        c.rely_trans later (before.rely ticks stepped permitted independent t)⟩
  exact both.2

/-- If every task is safe from its start, the invariant holds in every state
reached from an idle one. -/
theorem sound (idle : σ₀.sessions = []) (initial : c.inv σ₀.world)
    (reached : Reachable sys c.permit σ₀ σ) : c.inv σ.world :=
  (holds_of_reachable ticks begins idle initial reached).inv

end Contract

end ReadCommitted
