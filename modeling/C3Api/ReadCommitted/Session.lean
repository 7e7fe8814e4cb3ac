import Mathlib.Data.List.ReduceOption
import C3Api.ReadCommitted.Table

/-!
# Transactions over row locks

A transaction is a program of single steps against the committed table: a
statement reads the rows as they are when it starts, every row it writes is
locked until the end, and writing a row another transaction holds has to wait.
Table locks come in a shared and an exclusive mode; each row key names the lock
that writing it needs. Commits append to a log, which records what the
transaction did and replied.
-/

namespace ReadCommitted

open Option List

variable {K : Type} [DecidableEq K] {V : K → Type} {O : Type} [DecidableEq O]
variable {E X T : Type}

/-- One transaction. `read` takes the visible rows and the clock; `access` takes
the newest version of one row, writes it or leaves it, and holds it if written;
`choose` is a choice the database makes. -/
inductive Prog (V : K → Type) (O E X : Type) : Type
  | read (next : Table V → Nat → Prog V O E X)
  | access (k : K) (write : Option (V k) → Option (Option (V k)))
      (next : Option (V k) → Prog V O E X)
  | hold (o : O) (exclusive : Bool) (next : Prog V O E X)
  | choose (next : Nat → Prog V O E X)
  | rollback (next : Prog V O E X)
  | abort (error : X)
  | commit (events : List E)

/-- The program on its own, with the database's choices: the writes and events of
its commit. -/
def Prog.solo : Prog V O E X → (Nat → Nat) → Nat → Table V → Writes V →
    Option (Writes V × List E)
  | .read next, choices, now, d, ws => (next (overlay d ws) now).solo choices now d ws
  | .access k write next, choices, now, d, ws =>
    (next ((overlay d ws).lookup k)).solo choices now d
      ((write ((overlay d ws).lookup k)).elim ws (fun v => ⟨k, v⟩ :: ws))
  | .hold _ _ next, choices, now, d, ws => next.solo choices now d ws
  | .choose next, choices, now, d, ws =>
    (next (choices 0)).solo (fun n => choices (n + 1)) now d ws
  | .rollback next, choices, now, d, _ => next.solo choices now d []
  | .abort _, _, _, _, _ => none
  | .commit events, _, _, _, ws => some (ws, events)

/-- What a running transaction holds: its writes and its table locks, each with
`true` for exclusive. -/
structure Held (V : K → Type) (O : Type) where
  writes : Writes V := []
  objects : List (O × Bool) := []

/-- The held table locks conflict with taking `o` in this mode. -/
def Held.blocks (h : Held V O) (o : O) (exclusive : Bool) : Bool :=
  h.objects.any (fun held => decide (held.1 = o) && (exclusive || held.2))

/-- No other transaction may write this row. -/
def Held.freezes (guard : K → Option (O × Bool)) (h : Held V O) (k : K) : Bool :=
  decide (k ∈ writtenKeys h.writes) ||
    match guard k with
    | none => false
    | some lock => h.blocks lock.1 lock.2

def Held.take (h : Held V O) (o : O) (exclusive : Bool) : Held V O :=
  { h with objects := (o, exclusive) :: h.objects }

/-- The table lock that writing the row needs. -/
def Held.enter (guard : K → Option (O × Bool)) (h : Held V O) (k : K) : Held V O :=
  match guard k with
  | none => h
  | some lock => h.take lock.1 lock.2

def Held.access (guard : K → Option (O × Bool)) (h : Held V O) (k : K)
    (written : Option (Option (V k))) : Held V O :=
  match written with
  | none => h.enter guard k
  | some v => { h.enter guard k with writes := ⟨k, v⟩ :: h.writes }

section

variable {guard : K → Option (O × Bool)} {h : Held V O}

omit [DecidableEq K] [DecidableEq O]

theorem enter_writes (k : K) : (h.enter guard k).writes = h.writes := by
  unfold Held.enter
  split <;> rfl

theorem access_writes (k : K) (written : Option (Option (V k))) :
    (h.access guard k written).writes = written.elim h.writes (fun v => ⟨k, v⟩ :: h.writes) := by
  cases written with
  | none => exact enter_writes k
  | some v => rfl

end

structure World (V : K → Type) (E : Type) where
  db : Table V
  log : List E := []
  clock : Nat := 0

def World.commit (w : World V E) (ws : Writes V) (events : List E) : World V E :=
  { w with db := overlay w.db ws, log := w.log ++ events }

def World.tick (w : World V E) (n : Nat) : World V E := { w with clock := w.clock + n }

/-- The lock each row needs, and the program of each task. -/
structure System (V : K → Type) (O E X T : Type) where
  guard : K → Option (O × Bool)
  code : T → Prog V O E X

structure Session (V : K → Type) (O E X T : Type) where
  task : T
  prog : Prog V O E X
  held : Held V O := {}

structure State (V : K → Type) (O E X T : Type) where
  world : World V E
  sessions : List (Option (Session V O E X T)) := []

open State

inductive Label (T : Type) where
  | start (task : T)
  | act (sid choice : Nat)
  | crash (sid : Nat)
  | tick (n : Nat)

def State.others (σ : State V O E X T) (sid : Nat) : List (Session V O E X T) :=
  (σ.sessions.eraseIdx sid).reduceOption

def State.update (σ : State V O E X T) (sid : Nat) (s : Session V O E X T) : State V O E X T :=
  { σ with sessions := σ.sessions.set sid (some s) }

def State.finish (σ : State V O E X T) (sid : Nat) (w : World V E) : State V O E X T :=
  { world := w, sessions := σ.sessions.set sid none }

def act (sys : System V O E X T) (σ : State V O E X T) (sid choice : Nat)
    (s : Session V O E X T) : Option (State V O E X T) :=
  let view := overlay σ.world.db s.held.writes
  match s.prog with
  | .read next => some (σ.update sid { s with prog := next view σ.world.clock })
  | .access k write next =>
    if (σ.others sid).any (fun t => t.held.freezes sys.guard k) then none
    else
      some (σ.update sid { s with
        prog := next (view.lookup k)
        held := s.held.access sys.guard k (write (view.lookup k)) })
  | .hold o exclusive next =>
    if (σ.others sid).any (fun t => t.held.blocks o exclusive) then none
    else some (σ.update sid { s with prog := next, held := s.held.take o exclusive })
  | .choose next => some (σ.update sid { s with prog := next choice })
  | .rollback next => some (σ.update sid { s with prog := next, held := {} })
  | .abort _ => some (σ.finish sid σ.world)
  | .commit events => some (σ.finish sid (σ.world.commit s.held.writes events))

def step (sys : System V O E X T) (σ : State V O E X T) : Label T → Option (State V O E X T)
  | .start task => some { σ with sessions := σ.sessions ++ [some { task, prog := sys.code task }] }
  | .act sid choice =>
    match σ.sessions[sid]? with
    | some (some s) => act sys σ sid choice s
    | _ => none
  | .crash sid => some (σ.finish sid σ.world)
  | .tick n => some { σ with world := σ.world.tick n }

/-- The run of these labels, as long as `check` accepts the world before and
after each of them. -/
def run (sys : System V O E X T) (check : World V E → World V E → Bool)
    (σ : State V O E X T) : List (Label T) → Option (State V O E X T)
  | [] => some σ
  | l :: ls => (step sys σ l).bind fun next =>
      if check σ.world next.world then run sys check next ls else none

/-- Runs in which every act of a session is permitted, given the tasks of the
sessions running beside it and the world before and after. -/
inductive Reachable (sys : System V O E X T)
    (permit : List T → World V E → World V E → Prop) (σ₀ : State V O E X T) :
    State V O E X T → Prop
  | refl : Reachable sys permit σ₀ σ₀
  | tail {σ σ' : State V O E X T} {l : Label T} : Reachable sys permit σ₀ σ →
      step sys σ l = some σ' →
      (∀ sid choice, l = .act sid choice →
        permit ((σ.others sid).map Session.task) σ.world σ'.world) →
      Reachable sys permit σ₀ σ'

variable {sys : System V O E X T} {permit : List T → World V E → World V E → Prop}
  {σ₀ σ σ' : State V O E X T}

theorem run_reachable {check : World V E → World V E → Bool}
    (permitted : ∀ ts w w', check w w' = true → permit ts w w') (ls : List (Label T))
    (before : Reachable sys permit σ₀ σ) (ran : run sys check σ ls = some σ') :
    Reachable sys permit σ₀ σ' := by
  induction ls generalizing σ with
  | nil =>
    cases ran
    exact before
  | cons l ls ih =>
    obtain ⟨next, stepped, rest⟩ := bind_eq_some_iff.mp ran
    split at rest
    next accepted =>
      exact ih (.tail before stepped (fun _ _ _ => permitted _ _ _ accepted)) rest
    · cases rest

theorem Reachable.mono {allow : List T → World V E → World V E → Prop}
    (weaker : ∀ ts w w', permit ts w w' → allow ts w w') (reached : Reachable sys permit σ₀ σ) :
    Reachable sys allow σ₀ σ := by
  induction reached with
  | refl => exact .refl
  | tail _ stepped permitted ih =>
    refine .tail ih stepped fun sid choice acts => ?_
    exact weaker _ _ _ (permitted sid choice acts)

/-- Only a commit and the clock change the world. -/
theorem step_world {l : Label T} (stepped : step sys σ l = some σ') :
    σ'.world = σ.world ∨ (∃ n, σ'.world = σ.world.tick n) ∨
      ∃ sid choice s events, l = .act sid choice ∧ σ.sessions[sid]? = some (some s) ∧
        s.prog = .commit events ∧ σ'.world = σ.world.commit s.held.writes events := by
  cases l with
  | start task | crash sid =>
    cases stepped
    exact .inl rfl
  | act sid choice =>
    simp only [step] at stepped
    split at stepped
    next s there =>
      unfold act at stepped
      cases program : s.prog with
      | commit events =>
        simp only [program, some.injEq] at stepped
        subst stepped
        exact .inr (.inr ⟨sid, choice, s, events, rfl, there, program, rfl⟩)
      | access k write next | hold o exclusive next =>
        simp only [program] at stepped
        split at stepped
        · cases stepped
        · cases stepped
          exact .inl rfl
      | _ =>
        simp only [program, some.injEq] at stepped
        subst stepped
        exact .inl rfl
    · cases stepped
  | tick n =>
    cases stepped
    exact .inr (.inl ⟨n, rfl⟩)

theorem step_log {l : Label T} (stepped : step sys σ l = some σ') :
    σ.world.log <+: σ'.world.log := by
  rcases step_world stepped with same | ⟨n, ticked⟩ | ⟨_, _, s, events, -, -, -, committed⟩
  · exact same ▸ prefix_rfl
  · rw [ticked]
    exact prefix_rfl
  · rw [committed]
    exact prefix_append _ _

variable {t : T} {w : World V E} {n : Nat}

/-- One session that runs after `n` others have finished. -/
def State.alone (w : World V E) (n : Nat) (s : Session V O E X T) : State V O E X T :=
  { world := w, sessions := List.replicate n none ++ [some s] }

variable (s : Session V O E X T)

section

omit [DecidableEq K] [DecidableEq O]

@[simp] theorem State.world_alone : (alone w n s).world = w := rfl

@[simp] theorem State.others_alone : (alone w n s).others n = [] := by
  unfold others alone
  rw [eraseIdx_append_of_length_le (by simp)]
  simp [reduceOption_replicate_none]

@[simp] theorem State.update_alone (s' : Session V O E X T) :
    (alone w n s).update n s' = alone w n s' := by
  simp [update, alone]

@[simp] theorem State.finish_alone (w' : World V E) :
    (alone w n s).finish n w' = ⟨w', List.replicate (n + 1) none⟩ := by
  simp [finish, alone, replicate_succ']

end

theorem Reachable.actAlone {s : Session V O E X T} (alone : ∀ w w', permit [] w w')
    (before : Reachable sys permit σ₀ (.alone w n s)) (choice : Nat)
    (acted : act sys (.alone w n s) n choice s = some σ') : Reachable sys permit σ₀ σ' := by
  refine .tail (l := .act n choice) before ?_ ?_
  · simpa [step, State.alone] using acted
  intro sid choice' same
  obtain ⟨rfl, rfl⟩ := Label.act.inj same
  rw [State.others_alone]
  exact alone _ _

/-- A program that runs alone does what `Prog.solo` computes. -/
theorem solo_reachable (alone : ∀ w w', permit [] w w') (p : Prog V O E X) (h : Held V O)
    (choices : Nat → Nat) {ws : Writes V} {events : List E}
    (before : Reachable sys permit σ₀ (.alone w n ⟨t, p, h⟩))
    (ran : p.solo choices w.clock w.db h.writes = some (ws, events)) :
    Reachable sys permit σ₀ ⟨w.commit ws events, List.replicate (n + 1) none⟩ := by
  induction p generalizing h choices with
  | read next ih =>
    exact ih _ _ h choices (before.actAlone alone 0 (by simp [act])) ran
  | access k write next ih =>
    refine ih _ (h.access sys.guard k _) choices (before.actAlone alone 0 (by simp [act]; rfl)) ?_
    rw [access_writes]
    exact ran
  | hold o exclusive next ih =>
    exact ih (h.take o exclusive) choices (before.actAlone alone 0 (by simp [act])) ran
  | choose next ih =>
    exact ih _ h _ (before.actAlone alone (choices 0) (by simp [act])) ran
  | rollback next ih =>
    exact ih {} choices (before.actAlone alone 0 (by simp [act])) ran
  | abort error => cases ran
  | commit events' =>
    obtain ⟨rfl, rfl⟩ := Prod.mk.inj (some.inj ran)
    exact before.actAlone alone 0 (by simp [act])

end ReadCommitted
