import Mathlib.Data.List.AList
import Mathlib.Data.List.Perm.Lattice

/-!
# Finite maps with one type of values

Association lists with distinct keys, and how a lookup sees an insertion, a removal
and the insertion of a whole list.
-/

namespace FiniteMap

open List AList

variable {K V : Type} [DecidableEq K]

abbrev Map (K V : Type) := AList fun _ : K => V

/-- Maps are equal when their entries are; unlike the general instance this one computes. -/
instance [DecidableEq V] : DecidableEq (Map K V) := fun a b =>
  decidable_of_iff (a.entries = b.entries) AList.ext_iff.symm

def pairs (m : Map K V) : List (K × V) := m.entries.map fun e => (e.1, e.2)

@[simp] theorem lookup_empty (k : K) : (∅ : Map K V).lookup k = none :=
  AList.lookup_empty k

theorem lookup_insert_ite (m : Map K V) (k j : K) (v : V) :
    (m.insert k v).lookup j = if j = k then some v else m.lookup j := by
  split
  next same =>
    subst same
    exact lookup_insert m
  next other => exact lookup_insert_ne other

theorem lookup_erase_ite (m : Map K V) (k j : K) :
    (m.erase k).lookup j = if j = k then none else m.lookup j := by
  split
  next same =>
    subst same
    exact lookup_erase j m
  next other => exact lookup_erase_ne other

variable {k : K} {m : Map K V} {v : V} {entries : List (K × V)}

theorem mem_pairs : (k, v) ∈ pairs m ↔ m.lookup k = some v := by
  rw [pairs, mem_map, mem_lookup_iff.symm.trans Option.mem_def |>.symm]
  constructor
  · rintro ⟨⟨j, w⟩, member, same⟩
    obtain ⟨rfl, rfl⟩ := Prod.mk.inj same
    exact member
  · exact fun member => ⟨⟨k, v⟩, member, rfl⟩

/-- What one element brings about and the others keep. -/
theorem foldl_of_mem {α β : Type} {P : β → Prop} {op : β → α → β} {a : α} {xs : List α} {b : β}
    (member : a ∈ xs) (brings : ∀ b, P (op b a)) (keeps : ∀ b c, P b → P (op b c)) :
    P (xs.foldl op b) := by
  obtain ⟨before, after, rfl⟩ := append_of_mem member
  rw [foldl_append, foldl_cons]
  exact foldlRecOn after op (brings _) fun b kept c _ => keeps b c kept

/-- Inserts the pairs in order, so that a later pair replaces an earlier one. -/
def insertAll (m : Map K V) (entries : List (K × V)) : Map K V :=
  entries.foldl (fun m e => m.insert e.1 e.2) m

@[simp] theorem insertAll_nil (m : Map K V) : insertAll m [] = m := rfl

@[simp] theorem insertAll_cons (m : Map K V) (e : K × V) (rest : List (K × V)) :
    insertAll m (e :: rest) = insertAll (m.insert e.1 e.2) rest := rfl

theorem lookup_insertAll_of_notMem (absent : k ∉ entries.map Prod.fst) :
    (insertAll m entries).lookup k = m.lookup k := by
  induction entries generalizing m with
  | nil => rfl
  | cons e rest ih =>
    rw [map_cons, mem_cons, not_or] at absent
    rw [insertAll_cons, ih absent.2, lookup_insert_ite, if_neg absent.1]

/-- What a lookup finds afterwards is one of the pairs or was there before. -/
theorem lookup_insertAll_cases (found : (insertAll m entries).lookup k = some v) :
    (k, v) ∈ entries ∨ k ∉ entries.map Prod.fst ∧ m.lookup k = some v := by
  induction entries generalizing m with
  | nil => exact .inr ⟨not_mem_nil, found⟩
  | cons e rest ih =>
    rcases ih found with later | ⟨absent, before⟩
    · exact .inl (mem_cons_of_mem _ later)
    rw [lookup_insert_ite] at before
    split at before
    next same =>
      cases before
      exact .inl (by rw [same]; exact mem_cons_self)
    next other => exact .inr ⟨by simp [other, absent], before⟩

theorem lookup_insertAll_isSome (member : k ∈ entries.map Prod.fst) :
    ((insertAll m entries).lookup k).isSome := by
  obtain ⟨e, listed, rfl⟩ := mem_map.mp member
  refine foldl_of_mem (P := fun m : Map K V => (m.lookup e.1).isSome) listed (fun m => ?_) ?_
  · rw [lookup_insert_ite, if_pos rfl]
    rfl
  · intro m c known
    rw [lookup_insert_ite]
    split
    · rfl
    · exact known

theorem lookup_insertAll_of_mem (distinct : (entries.map Prod.fst).Nodup)
    (member : (k, v) ∈ entries) : (insertAll m entries).lookup k = some v := by
  induction entries generalizing m with
  | nil => cases member
  | cons e rest ih =>
    rw [map_cons, nodup_cons] at distinct
    rcases mem_cons.mp member with rfl | later
    · rw [insertAll_cons, lookup_insertAll_of_notMem distinct.1, lookup_insert_ite, if_pos rfl]
    · exact ih distinct.2 later

theorem length_keys_insert_of_notMem (absent : k ∉ m) :
    (m.insert k v).keys.length = m.keys.length + 1 := by
  rw [keys_insert, length_cons, erase_of_not_mem absent]

theorem length_keys_insertAll (distinct : (entries.map Prod.fst).Nodup)
    (fresh : ∀ k ∈ entries.map Prod.fst, k ∉ m) :
    (insertAll m entries).keys.length = m.keys.length + entries.length := by
  induction entries generalizing m with
  | nil => rfl
  | cons e rest ih =>
    rw [map_cons, nodup_cons] at distinct
    rw [insertAll_cons, ih distinct.2, length_cons,
      length_keys_insert_of_notMem (fresh e.1 mem_cons_self)]
    · omega
    intro k member inserted
    rcases mem_insert m |>.mp inserted with same | before
    · exact distinct.1 (same ▸ member)
    · exact fresh k (mem_cons_of_mem _ member) before

/-- A list is its groups of equal keys, in any order of the keys. -/
theorem flatMap_filter_perm {α : Type} (f : α → K) {ks : List K} (distinct : ks.Nodup)
    (xs : List α) :
    (ks.flatMap fun k => xs.filter fun x => f x = k).Perm (xs.filter fun x => f x ∈ ks) := by
  induction ks with
  | nil => simp
  | cons k ks ih =>
    rw [nodup_cons] at distinct
    have parts := filter_append_perm (fun x => decide (f x = k)) (xs.filter fun x => f x ∈ k :: ks)
    rw [filter_filter, filter_filter] at parts
    refine ((ih distinct.2).append_left _).trans (List.Perm.trans (List.Perm.of_eq ?_) parts)
    congr 1
    · refine filter_congr fun x _ => ?_
      rw [← Bool.decide_and, decide_eq_decide, mem_cons]
      tauto
    · refine filter_congr fun x _ => ?_
      rw [← decide_not, ← Bool.decide_and, decide_eq_decide, mem_cons]
      refine ⟨fun member => ⟨fun same => distinct.1 (same ▸ member), .inr member⟩, ?_⟩
      rintro ⟨other, same | member⟩
      · exact absurd same other
      · exact member

end FiniteMap
