import Mathlib.Data.Finset.Card
import Mathlib.Data.Finset.Union
import Mathlib.Data.List.Basic
import Mathlib.Logic.Relation
import Mathlib.Order.Monotone.Basic

/-! Mark and sweep over a heap of numbered slots. The slot of a freed object stays empty and is not given out
again, so the number of a slot tells an object from all that come later. -/
namespace LuaTT.MarkSweep
open Relation
set_option autoImplicit false

variable {β : Type*} (refs : β → List ℕ) {heap heap' : List (Option β)} {roots : List ℕ} {a c : ℕ}

def object (heap : List (Option β)) (a : ℕ) : Option β := heap[a]?.join

/-! ## Reachability -/

/-- The object in the slot `a` refers to the slot `c`. -/
def Edge (heap : List (Option β)) (a c : ℕ) : Prop := ∃ o, object heap a = some o ∧ c ∈ refs o

def Reachable (heap : List (Option β)) (roots : List ℕ) (a : ℕ) : Prop :=
  ∃ r ∈ roots, ReflTransGen (Edge refs heap) r a

/-- Neither a root nor an object refers to an empty slot. -/
structure Closed (heap : List (Option β)) (roots : List ℕ) : Prop where
  root : ∀ a ∈ roots, (object heap a).isSome
  edge : ∀ a c, Edge refs heap a c → (object heap c).isSome

variable {refs}

theorem object_lt {o : β} (h : object heap a = some o) : a < heap.length := by
  by_contra hge
  rw [object, List.getElem?_eq_none (Nat.le_of_not_lt hge)] at h
  cases h

theorem Reachable.root (h : a ∈ roots) : Reachable refs heap roots a := ⟨a, h, .refl⟩

theorem Reachable.edge (h : Reachable refs heap roots a) (hedge : Edge refs heap a c) :
    Reachable refs heap roots c := by
  obtain ⟨r, hr, hpath⟩ := h
  exact ⟨r, hr, hpath.tail hedge⟩

/-- A set of slots that holds the roots and what its objects refer to holds all that is reachable. -/
theorem Reachable.mem {A : Set ℕ} (h : Reachable refs heap roots a) (hroots : ∀ r ∈ roots, r ∈ A)
    (hedge : ∀ b c, b ∈ A → Edge refs heap b c → c ∈ A) : a ∈ A := by
  obtain ⟨r, hr, hpath⟩ := h
  induction hpath with
  | refl => exact hroots r hr
  | tail _ hbc ih => exact hedge _ _ ih hbc

theorem Closed.isSome (hc : Closed refs heap roots) (h : Reachable refs heap roots a) :
    (object heap a).isSome := by
  apply h.mem (A := {b | (object heap b).isSome}) hc.root
  intro b c _ hbc
  exact hc.edge b c hbc

theorem Closed.of_forall (hroots : ∀ a ∈ roots, (object heap a).isSome)
    (hrefs : ∀ o ∈ heap, ∀ p ∈ o, ∀ c ∈ refs p, (object heap c).isSome) : Closed refs heap roots := by
  refine ⟨hroots, ?_⟩
  rintro a c ⟨p, hp, hc⟩
  have hmem : heap[a]? = some (some p) := by
    rw [object] at hp
    exact Option.join_eq_some_iff.mp hp
  exact hrefs (some p) (List.mem_of_getElem? hmem) p rfl c hc

theorem Closed.of_reachable {roots' : List ℕ} (hc : Closed refs heap roots)
    (hroots : ∀ a ∈ roots', Reachable refs heap roots a) : Closed refs heap roots' :=
  ⟨fun a ha => hc.isSome (hroots a ha), hc.edge⟩

/-! ## Marking -/

variable (refs)

/-- The marked slots and what their objects refer to. -/
def grow (heap : List (Option β)) (A : Finset ℕ) : Finset ℕ :=
  A ∪ A.biUnion fun a => ((object heap a).elim [] refs).toFinset

def mark (heap : List (Option β)) (roots : List ℕ) : Finset ℕ :=
  (grow refs heap)^[heap.length] roots.toFinset

variable {refs}

theorem mem_grow {A : Finset ℕ} : c ∈ grow refs heap A ↔ c ∈ A ∨ ∃ a ∈ A, Edge refs heap a c := by
  have hrefs (a : ℕ) : c ∈ (object heap a).elim [] refs ↔ Edge refs heap a c := by
    cases h : object heap a with
    | none => simp [Edge, h]
    | some o => simp [Edge, h]
  simp only [grow, Finset.mem_union, Finset.mem_biUnion, List.mem_toFinset, hrefs]

theorem subset_grow (A : Finset ℕ) : A ⊆ grow refs heap A := Finset.subset_union_left

theorem iterate_grow_succ (A : Finset ℕ) (k : ℕ) :
    (grow refs heap)^[k] A ⊆ (grow refs heap)^[k + 1] A := by
  rw [Function.iterate_succ_apply']
  exact subset_grow _

theorem reachable_of_mem_iterate {k : ℕ} (h : a ∈ (grow refs heap)^[k] roots.toFinset) :
    Reachable refs heap roots a := by
  induction k generalizing a with
  | zero => exact Reachable.root (List.mem_toFinset.mp h)
  | succ k ih =>
    rw [Function.iterate_succ_apply', mem_grow] at h
    rcases h with h | ⟨b, hb, hedge⟩
    · exact ih h
    · exact (ih hb).edge hedge

/-- Marking stops within as many rounds as there are slots. -/
theorem grow_mark (hc : Closed refs heap roots) :
    grow refs heap (mark refs heap roots) = mark refs heap roots := by
  have hmono : Monotone fun k => ((grow refs heap)^[k] roots.toFinset).card :=
    monotone_nat_of_le_succ fun k => Finset.card_le_card (iterate_grow_succ _ k)
  have hbound (k : ℕ) : ((grow refs heap)^[k] roots.toFinset).card ≤ heap.length := by
    have hrange : (grow refs heap)^[k] roots.toFinset ⊆ Finset.range heap.length := by
      intro a ha
      obtain ⟨o, ho⟩ := Option.isSome_iff_exists.mp (hc.isSome (reachable_of_mem_iterate ha))
      exact Finset.mem_range.mpr (object_lt ho)
    simpa using Finset.card_le_card hrange
  have hstable (k : ℕ) (h : ((grow refs heap)^[k] roots.toFinset).card =
      ((grow refs heap)^[k + 1] roots.toFinset).card) :
      ((grow refs heap)^[k + 1] roots.toFinset).card =
        ((grow refs heap)^[k + 2] roots.toFinset).card := by
    have heq := Finset.eq_of_subset_of_card_le (iterate_grow_succ roots.toFinset k) h.ge
    have hfix := Function.iterate_succ_apply' (grow refs heap) k roots.toFinset
    rw [Function.iterate_succ_apply' _ (k + 1), ← heq, ← hfix, ← heq]
  have hcard := Nat.stabilises_of_monotone hmono hbound hstable (Nat.le_succ heap.length)
  have heq := Finset.eq_of_subset_of_card_le (iterate_grow_succ roots.toFinset heap.length) hcard.le
  rw [Function.iterate_succ_apply'] at heq
  exact heq.symm

theorem mem_mark (hc : Closed refs heap roots) : a ∈ mark refs heap roots ↔ Reachable refs heap roots a := by
  constructor
  · exact reachable_of_mem_iterate
  · intro h
    apply h.mem (A := {b | b ∈ mark refs heap roots})
    · intro r hr
      have hle : Monotone fun k => (grow refs heap)^[k] roots.toFinset :=
        monotone_nat_of_le_succ (iterate_grow_succ _)
      exact hle (Nat.zero_le heap.length) (List.mem_toFinset.mpr hr)
    · intro b c hb hedge
      show c ∈ mark refs heap roots
      rw [← grow_mark hc]
      exact mem_grow.mpr (.inr ⟨b, hb, hedge⟩)

/-! ## Sweeping -/

variable (refs)

def collect (heap : List (Option β)) (roots : List ℕ) : List (Option β) :=
  heap.mapIdx fun a o => if a ∈ mark refs heap roots then o else none

variable {refs}

@[simp] theorem length_collect : (collect refs heap roots).length = heap.length := by
  simp [collect]

theorem object_collect_eq : object (collect refs heap roots) a =
    if a ∈ mark refs heap roots then object heap a else none := by
  simp only [object, collect, List.getElem?_mapIdx]
  cases heap[a]? with
  | none => simp
  | some o => split_ifs <;> simp_all

theorem object_collect (hc : Closed refs heap roots) (h : Reachable refs heap roots a) :
    object (collect refs heap roots) a = object heap a := by
  rw [object_collect_eq, if_pos ((mem_mark hc).mpr h)]

theorem object_collect_eq_none (hc : Closed refs heap roots) (h : ¬ Reachable refs heap roots a) :
    object (collect refs heap roots) a = none := by
  rw [object_collect_eq, if_neg fun hmem => h ((mem_mark hc).mp hmem)]

theorem closed_collect (hc : Closed refs heap roots) : Closed refs (collect refs heap roots) roots := by
  constructor
  · intro a ha
    rw [object_collect hc (Reachable.root ha)]
    exact hc.root a ha
  · rintro a c ⟨o, ho, hmem⟩
    have hreach : Reachable refs heap roots a := by
      by_contra hnot
      rw [object_collect_eq_none hc hnot] at ho
      cases ho
    rw [object_collect hc hreach] at ho
    have hedge : Edge refs heap a c := ⟨o, ho, hmem⟩
    rw [object_collect hc (hreach.edge hedge)]
    exact hc.edge a c hedge

/-! ## Mutation -/

/-- What a program does to a heap between two collections: new objects take new slots, and an object that is
`fixed` keeps its contents. -/
structure Extends (fixed : β → Prop) (heap heap' : List (Option β)) : Prop where
  empty : ∀ a < heap.length, object heap a = none → object heap' a = none
  kept : ∀ a o, object heap a = some o → fixed o → object heap' a = some o
  length_le : heap.length ≤ heap'.length

variable {fixed : β → Prop}

theorem Extends.refl : Extends fixed heap heap := ⟨fun _ _ h => h, fun _ _ h _ => h, le_rfl⟩

theorem object_append_of_lt (tail : List (Option β)) (ha : a < heap.length) :
    object (heap ++ tail) a = object heap a := by
  rw [object, object, List.getElem?_append_left ha]

theorem object_append_length (o : β) : object (heap ++ [some o]) heap.length = some o := by
  simp [object]

theorem Extends.append (tail : List (Option β)) : Extends fixed heap (heap ++ tail) where
  empty a ha h := by rw [object_append_of_lt tail ha, h]
  kept a o h _ := by rw [object_append_of_lt tail (object_lt h), h]
  length_le := by simp

/-- A new object that refers to nothing. -/
theorem Closed.append {o : β} (hc : Closed refs heap roots) (ho : refs o = []) :
    Closed refs (heap ++ [some o]) (heap.length :: roots) := by
  have hold (c : ℕ) (h : (object heap c).isSome) :
      (object (heap ++ [some o]) c).isSome := by
    obtain ⟨p, hp⟩ := Option.isSome_iff_exists.mp h
    rw [object_append_of_lt _ (object_lt hp)]
    exact h
  constructor
  · intro a ha
    rcases List.mem_cons.mp ha with rfl | ha
    · rw [object_append_length]
      rfl
    · exact hold a (hc.root a ha)
  · rintro a c ⟨p, hp, hmem⟩
    by_cases ha : a < heap.length
    · rw [object_append_of_lt _ ha] at hp
      exact hold c (hc.edge a c ⟨p, hp, hmem⟩)
    · have hlt := object_lt hp
      have heq : a = heap.length := by
        rw [List.length_append, List.length_singleton] at hlt
        omega
      rw [heq, object_append_length] at hp
      cases hp
      rw [ho] at hmem
      cases hmem

end LuaTT.MarkSweep
