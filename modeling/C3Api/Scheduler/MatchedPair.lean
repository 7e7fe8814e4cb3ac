import C3Api.Scheduler.Steps

/-!
# Decisions are published with the static root they were compiled from

A fire captures the staged view under the lock and publishes under the lock, and in
between anything may be staged. What rules out a mixed pair is that a staged view is the
newest static view there is: if it is still staged, nothing was staged since.
-/

namespace C3Api.Scheduler

open Interleaving Option List Publisher

variable {D : Type}

section

/-- The static views of a list are still there, over the same maps. -/
def Grown (before after : List StaticView) : Prop :=
  ∀ (ref : Nat) (sv : StaticView), before[ref]? = some sv →
    ∃ sv' : StaticView, after[ref]? = some sv' ∧ sv'.origin = sv.origin ∧ sv'.root = sv.root

def SameMaps (statics : List StaticView) (a b : Nat) : Prop :=
  ∃ s t : StaticView, statics[a]? = some s ∧ statics[b]? = some t ∧
    s.origin = t.origin ∧ s.root = t.root

variable {before middle after : List StaticView} {p : Publisher D}

theorem Grown.refl (statics : List StaticView) : Grown statics statics :=
  fun _ sv found => ⟨sv, found, rfl, rfl⟩

theorem Grown.trans (first : Grown before middle) (second : Grown middle after) :
    Grown before after := by
  intro ref sv found
  obtain ⟨sv', found', origin, root⟩ := first ref sv found
  obtain ⟨sv'', found'', origin', root'⟩ := second ref sv' found'
  exact ⟨sv'', found'', origin'.trans origin, root'.trans root⟩

theorem SameMaps.grown {a b : Nat} (same : SameMaps before a b) (grown : Grown before after) :
    SameMaps after a b := by
  obtain ⟨s, t, foundA, foundB, origin, root⟩ := same
  obtain ⟨s', foundA', originA, rootA⟩ := grown a s foundA
  obtain ⟨t', foundB', originB, rootB⟩ := grown b t foundB
  exact ⟨s', t', foundA', foundB', by rw [originA, originB, origin], by rw [rootA, rootB, root]⟩

theorem SameMaps.refl {a : Nat} (inside : a < before.length) : SameMaps before a a :=
  ⟨before[a], before[a], getElem?_eq_getElem inside, getElem?_eq_getElem inside, rfl, rfl⟩

theorem grown_append (added : List StaticView) : Grown before (before ++ added) := by
  intro ref sv found
  have inside := (List.getElem?_eq_some_iff.mp found).1
  exact ⟨sv, by rw [List.getElem?_append_left inside, found], rfl, rfl⟩

theorem grown_stamp (ref : Nat) : Grown p.statics (p.stamp ref).statics := by
  intro other sv found
  by_cases same : ref = other
  · subst same
    exact ⟨{ sv with generation := p.nextGeneration }, by simp [stamp, found], rfl, rfl⟩
  · exact ⟨sv, by simp [stamp, same, found], rfl, rfl⟩

@[simp] theorem Publisher.stamp_length (ref : Nat) :
    (p.stamp ref).statics.length = p.statics.length := by
  simp [stamp]

theorem Grown.length_le (grown : Grown before after) : before.length ≤ after.length := by
  by_contra shorter
  obtain ⟨sv, found, _⟩ := grown after.length _ (List.getElem?_eq_getElem (by omega))
  exact Nat.lt_irrefl _ (List.getElem?_eq_some_iff.mp found).1

end

inductive FireStep (h : Heap D) : FirePc D → Heap D → FirePc D → Prop
  | capture : FireStep h .capture h (.compile h.publisher.capture)
  | stop {pc : FirePc D} : FireStep h pc h .done
  | compiled {fire : Fire} {target : Nat} {routes : D} (found : fire.target = some target) :
      FireStep h (.compile fire) h (.finish fire { routes, compiledFrom := target })
  | pair {fire : Fire} {dv : DecisionView D} {target : Nat}
      (staged : h.publisher.pending = some target) (captured : fire.pendingSnap = some target) :
      FireStep h (.finish fire dv)
        { h with publisher := h.publisher.publishPairLocked target dv } .done
  | rebase {fire : Fire} {dv : DecisionView D} (captured : fire.pendingSnap = none) :
      FireStep h (.finish fire dv) h (.base fire dv)
  | base {fire : Fire} {dv : DecisionView D} {cur : RoutingView D}
      (view : h.publisher.view = some cur) (static : some cur.static = fire.baseStatic) :
      FireStep h (.base fire dv)
        { h with publisher := h.publisher.publish cur.static (some dv) } .done

variable {input : Input D} {h h' : Heap D} {pc pc' : FirePc D} {call : Call D}

theorem stepFire_cases (stepped : stepFire input h pc = some (h', pc')) : FireStep h pc h' pc' := by
  cases pc <;> simp only [stepFire, reduceCtorEq] at stepped
  case capture =>
    cases stepped
    exact .capture
  case compile fire =>
    split at stepped
    next found _ =>
      cases stepped
      exact .compiled found
    · cases stepped
      exact .stop
  case finish fire dv =>
    split at stepped
    · cases stepped
      exact .stop
    next staged =>
      split at stepped
      · cases stepped
        exact .stop
      split at stepped
      next captured =>
        cases stepped
        exact .pair (by rw [not_not.mp staged, captured]) captured
      next captured =>
        cases stepped
        exact .rebase captured
  case base fire dv =>
    split at stepped
    · cases stepped
      exact .stop
    next p published =>
      cases stepped
      unfold publishWithBase at published
      split at published
      next cur view =>
        split at published
        next unchanged =>
          cases published
          exact .base view unchanged.2
        · cases published
      · cases published

/-- The published views form one history, and a staged view is the newest static view. -/
structure Publisher.Paired (p : Publisher D) : Prop where
  newest : ∀ ref, p.pending = some ref → ref + 1 = p.statics.length
  inside : ∀ v, p.view = some v → v.static < p.statics.length
  initial : ∀ v, p.view = some v → v.decision = none → p.pending = some v.static
  head : p.view = p.log.head?
  increasing : p.log.Pairwise fun newer older => older.generation < newer.generation
  matched : ∀ v ∈ p.log, ∀ dv, v.decision = some dv → SameMaps p.statics v.static dv.compiledFrom

section

variable {p q : Publisher D}

theorem Publisher.Paired.older (paired : p.Paired) :
    ∀ v ∈ p.log, v.generation < p.nextGeneration := by
  intro v member
  have head := paired.head
  have increasing := paired.increasing
  cases published : p.log with
  | nil => simp [published] at member
  | cons newest rest =>
    rw [published] at head increasing member
    have next : p.nextGeneration = newest.generation + 1 := by
      simp [nextGeneration, head]
    rcases mem_cons.mp member with rfl | later
    · omega
    · have := (pairwise_cons.mp increasing).1 v later
      omega

theorem Publisher.Paired.publish (paired : p.Paired) (grown : Grown p.statics q.statics)
    (view : q.view = p.view) (log : q.log = p.log) {static : Nat}
    {decision : Option (DecisionView D)} (pending : Option Nat)
    (inside : static < q.statics.length)
    (newest : ∀ ref, pending = some ref → ref + 1 = q.statics.length)
    (initial : decision = none → pending = some static)
    (matched : ∀ dv, decision = some dv → SameMaps q.statics static dv.compiledFrom) :
    ({ q.publish static decision with pending := pending } : Publisher D).Paired := by
  have next : q.nextGeneration = p.nextGeneration := by simp [nextGeneration, view]
  refine ⟨newest, ?_, ?_, rfl, ?_, ?_⟩
  · rintro v ⟨rfl⟩
    exact inside
  · rintro v ⟨rfl⟩ none
    exact initial (by simpa using none)
  · refine pairwise_cons.mpr ⟨?_, by simpa [log] using paired.increasing⟩
    intro older member
    rw [log] at member
    simpa [next] using paired.older older member
  · intro v member dv decided
    rcases mem_cons.mp member with rfl | before
    · obtain ⟨source, known, rfl⟩ := map_eq_some_iff.mp decided
      exact matched source known
    · rw [log] at before
      exact (paired.matched v before dv decided).grown grown

theorem Publisher.Paired.stage (paired : p.Paired) (root : Root) :
    ((p.newStaticView root).1.stageLocked (p.newStaticView root).2).Paired ∧ Grown p.statics
      ((p.newStaticView root).1.stageLocked (p.newStaticView root).2).statics := by
  have grown : Grown p.statics (p.newStaticView root).1.statics := grown_append _
  have length : (p.newStaticView root).1.statics.length = p.statics.length + 1 := by
    simp [Publisher.newStaticView]
  unfold Publisher.stageLocked
  split
  next complete =>
    refine ⟨⟨?_, ?_, ?_, paired.head, paired.increasing, ?_⟩, grown⟩
    · rintro ref ⟨rfl⟩
      exact length.symm
    · intro v view
      have := paired.inside v view
      simp only [length]
      omega
    · intro v view none
      have decided : v.decision.isSome := by
        simpa [Publisher.complete, Publisher.newStaticView, show p.view = some v from view]
          using complete
      simp [none] at decided
    · exact fun v member dv decided => (paired.matched v member dv decided).grown grown
  · replace grown := grown.trans (grown_stamp (p.newStaticView root).2)
    refine ⟨paired.publish grown rfl rfl (some _) ?_ ?_ (fun _ => rfl) nofun, grown⟩
    · rw [Publisher.stamp_length, length]
      exact Nat.lt_succ_self _
    · rintro ref ⟨rfl⟩
      rw [Publisher.stamp_length, length]
      rfl

/-- The static view that goes out with the decisions is over the maps of the staged one. -/
theorem Publisher.publishPairLocked_eq {target : Nat} (inside : target < p.statics.length)
    (dv : DecisionView D) : ∃ (q : Publisher D) (static : Nat),
      p.publishPairLocked target dv = { q.publish static (some dv) with pending := none } ∧
      Grown p.statics q.statics ∧ q.view = p.view ∧ q.log = p.log ∧
      static < q.statics.length ∧ SameMaps q.statics static target := by
  unfold publishPairLocked
  split
  · have found := getElem?_eq_getElem inside
    have wrapped : p.wrap target = ({ p with statics := p.statics ++
        [{ p.statics[target] with generation := p.nextGeneration }] }, p.statics.length) := by
      simp [wrap, found]
    rw [wrapped]
    refine ⟨_, _, rfl, grown_append _, rfl, rfl, by simp, ?_⟩
    refine ⟨_, p.statics[target], getElem?_concat_length, ?_, rfl, rfl⟩
    rw [getElem?_append_left inside, found]
  · have stamped : target < (p.stamp target).statics.length := by simpa using inside
    exact ⟨_, _, rfl, grown_stamp _, rfl, rfl, stamped, SameMaps.refl stamped⟩

theorem Publisher.Paired.pair (paired : p.Paired) {target : Nat} {dv : DecisionView D}
    (staged : p.pending = some target) (source : dv.compiledFrom = target) :
    (p.publishPairLocked target dv).Paired ∧
      Grown p.statics (p.publishPairLocked target dv).statics := by
  have inside : target < p.statics.length := by
    have := paired.newest target staged
    omega
  obtain ⟨q, static, published, grown, view, log, within, same⟩ :=
    publishPairLocked_eq inside dv
  rw [published]
  refine ⟨paired.publish grown view log none within nofun nofun ?_, grown⟩
  rintro _ ⟨rfl⟩
  rw [source]
  exact same

theorem Publisher.Paired.base (paired : p.Paired) {cur : RoutingView D} {dv : DecisionView D}
    (view : p.view = some cur) (source : dv.compiledFrom = cur.static) :
    (p.publish cur.static (some dv)).Paired := by
  refine paired.publish (.refl _) rfl rfl p.pending (paired.inside cur view) paired.newest nofun ?_
  rintro _ ⟨rfl⟩
  rw [source]
  exact SameMaps.refl (paired.inside cur view)

end

/-- What a fire holds between its steps. -/
def FirePc.captured : FirePc D → Option Fire
  | .compile fire | .finish fire _ | .base fire _ => some fire
  | _ => none

/-- The captured views existed when the fire began. -/
structure Fire.Ok (statics : List StaticView) (fire : Fire) : Prop where
  began : fire.began ≤ statics.length
  pending : ∀ ref, fire.pendingSnap = some ref → ref < fire.began
  base : ∀ ref, fire.baseStatic = some ref → ref < fire.began

/-- A fire compiles its target, and goes on without a staged view only if it captured
none. -/
def FirePc.Ok (statics : List StaticView) : FirePc D → Prop
  | .compile fire => fire.Ok statics
  | .finish fire dv => fire.Ok statics ∧ fire.target = some dv.compiledFrom
  | .base fire dv =>
    fire.Ok statics ∧ fire.target = some dv.compiledFrom ∧ fire.pendingSnap = none
  | _ => True

theorem FirePc.Ok.grown {before after : List StaticView} (ok : pc.Ok before)
    (grown : Grown before after) : pc.Ok after := by
  have longer : ∀ fire : Fire, fire.Ok before → fire.Ok after := fun fire known =>
    ⟨known.began.trans grown.length_le, known.pending, known.base⟩
  cases pc with
  | compile fire => exact longer fire ok
  | finish fire dv | base fire dv => exact ⟨longer fire ok.1, ok.2⟩
  | _ => exact ok

theorem FirePc.Ok.fire {statics : List StaticView} (ok : pc.Ok statics) {fire : Fire}
    (captured : pc.captured = some fire) : fire.Ok statics := by
  cases pc with
  | compile own =>
    cases captured
    exact ok
  | finish own dv | base own dv =>
    cases captured
    exact ok.1
  | _ => cases captured

def Call.Ok (statics : List StaticView) : Call D → Prop
  | .fire pc => pc.Ok statics
  | _ => True

theorem Call.Ok.grown {before after : List StaticView} (ok : call.Ok before)
    (grown : Grown before after) : call.Ok after := by
  cases call with
  | fire pc => exact FirePc.Ok.grown ok grown
  | _ => trivial

theorem Call.ok_of_starts (starts : call.starts = true) (statics : List StaticView) :
    call.Ok statics := by
  cases call with
  | fire pc =>
    cases pc with
    | capture => trivial
    | _ => cases starts
  | _ => trivial

theorem FireStep.paired (step : FireStep h pc h' pc') (paired : h.publisher.Paired)
    (ok : pc.Ok h.publisher.statics) :
    h'.publisher.Paired ∧ Grown h.publisher.statics h'.publisher.statics ∧
      pc'.Ok h'.publisher.statics := by
  cases step with
  | capture =>
    refine ⟨paired, .refl _, le_refl _, ?_, ?_⟩
    · intro ref staged
      have := paired.newest ref staged
      simp only [Publisher.capture]
      omega
    · intro ref base
      obtain ⟨v, view, rfl⟩ := map_eq_some_iff.mp base
      exact paired.inside v view
  | stop => exact ⟨paired, .refl _, trivial⟩
  | compiled found => exact ⟨paired, .refl _, ok, found⟩
  | @pair fire dv target staged captured =>
    have source : dv.compiledFrom = target := by
      simpa [Fire.target, captured] using ok.2.symm
    obtain ⟨paired, grown⟩ := paired.pair staged source
    exact ⟨paired, grown, trivial⟩
  | rebase captured => exact ⟨paired, .refl _, ok.1, ok.2, captured⟩
  | @base fire dv cur view static =>
    obtain ⟨_, target, none⟩ := ok
    have source : dv.compiledFrom = cur.static := by
      simpa [Fire.target, none, ← static] using target.symm
    exact ⟨paired.base view source, .refl _, trivial⟩

/-- A static view that is staged after a fire began is left alone by the fire. -/
theorem FireStep.later {fire : Fire} (step : FireStep h pc h' pc') (paired : h.publisher.Paired)
    (ok : pc.Ok h.publisher.statics) (captured : pc.captured = some fire) {ref : Nat}
    (later : fire.began ≤ ref) :
    (h.publisher.pending = some ref → h'.publisher.pending = some ref) ∧
    ∀ v, h.publisher.view = some v → v.static = ref → h'.publisher.view = some v := by
  have known := ok.fire captured
  cases step with
  | @pair own dv target staged snap =>
    cases captured
    -- the staged view is both the newest one and older than the fire
    have old := known.pending target snap
    have newest := paired.newest target staged
    constructor
    · intro pending
      cases staged.symm.trans pending
      omega
    · intro v view same
      have := paired.inside v view
      omega
  | @base own dv cur view static =>
    cases captured
    refine ⟨id, ?_⟩
    intro v current same
    cases view.symm.trans current
    have := known.base cur.static static.symm
    omega
  | _ => exact ⟨id, fun _ view _ => view⟩

theorem stepReserve_publisher {pc pc' : ReservePc}
    (stepped : stepReserve input h pc = some (h', pc')) : h'.publisher = h.publisher := by
  unfold stepReserve at stepped
  split at stepped <;> (try split at stepped) <;> (try split at stepped) <;>
    (try split at stepped) <;> cases stepped <;> rfl

theorem stepRelease_publisher {lease : Nat} {pc pc' : ReleasePc}
    (stepped : stepRelease h lease pc = some (h', pc')) : h'.publisher = h.publisher := by
  unfold stepRelease at stepped
  split at stepped <;> (try split at stepped) <;> (try split at stepped) <;> cases stepped <;> rfl

theorem stepCall_paired {i : Nat} {call' : Call D}
    (stepped : stepCall i input h call = some (h', call')) (paired : h.publisher.Paired)
    (ok : call.Ok h.publisher.statics) :
    h'.publisher.Paired ∧ Grown h.publisher.statics h'.publisher.statics ∧
      call'.Ok h'.publisher.statics := by
  cases call with
  | reserve pc =>
    obtain ⟨⟨next, pc'⟩, acted, same⟩ := map_eq_some_iff.mp stepped
    cases same
    rw [stepReserve_publisher acted]
    exact ⟨paired, .refl _, trivial⟩
  | release lease pc =>
    obtain ⟨⟨next, pc'⟩, acted, same⟩ := map_eq_some_iff.mp stepped
    cases same
    rw [stepRelease_publisher acted]
    exact ⟨paired, .refl _, trivial⟩
  | fire pc =>
    obtain ⟨⟨next, pc'⟩, acted, same⟩ := map_eq_some_iff.mp stepped
    cases same
    exact (stepFire_cases acted).paired paired ok
  | reload m =>
    cases stepped
    exact ⟨(paired.stage _).1, (paired.stage _).2, trivial⟩
  | invalidateGroups ids load reach =>
    cases stepped
    rcases h.invalidateGroups_cases ids load reach with same | staged
    · rw [same]
      exact ⟨paired, .refl _, trivial⟩
    · rw [staged]
      exact ⟨(paired.stage _).1, (paired.stage _).2, trivial⟩
  | finished => cases stepped

def AllPaired (σ : Pool (Heap D) (Call D)) : Prop :=
  σ.shared.publisher.Paired ∧
    ∀ (i : Nat) (call : Call D), σ.procs[i]? = some call → call.Ok σ.shared.publisher.statics

theorem allPaired_of_reachable {σ : Pool (Heap D) (Call D)}
    (reached : Reachable stepCall (fun σ l => legal σ l = true) (newScheduler D) σ) :
    AllPaired σ := by
  apply reached.invariant
  · refine ⟨⟨?_, ?_, ?_, rfl, .nil, ?_⟩, ?_⟩
    · exact nofun
    · exact nofun
    · exact nofun
    · exact nofun
    · intro i call found
      simp [newScheduler] at found
  · intro s procs call permitted before
    exact ⟨before.1, each_append (Call.ok_of_starts permitted _) before.2⟩
  · intro s procs i input call s' call' _ found stepped before
    obtain ⟨paired, grown, ok⟩ := stepCall_paired stepped before.1 (before.2 i call found)
    exact ⟨paired, each_set ok fun j other _ known => (before.2 j other known).grown grown⟩

/-- A first reload is compiled and published; a second fire begins, and a second reload
is staged before it finishes. -/
def stagedMeanwhile : List (Label (Call Nat) (Input Nat)) :=
  [.start (.reload [(1, [{ id := 7 }])]), .step 0 {}, .start (.fire .capture), .step 1 {},
    .step 1 { compiled := some 10 }, .step 1 {}, .start (.fire .capture), .step 2 {},
    .start (.reload [(1, [{ id := 8 }])]), .step 3 {}, .step 2 { compiled := some 20 }]

end C3Api.Scheduler
