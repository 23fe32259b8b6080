import Mathlib.Algebra.BigOperators.Fin
import Mathlib.Algebra.Order.BigOperators.Group.Finset
import Mathlib.Logic.Equiv.Fin.Basic
import Mathlib.Order.Lattice.Nat

/-! Finite trees of tables: a table is a finite list of entries whose keys and values are leaves or
tables again. Two trees are the same if their entries can be matched one to one. -/
namespace LuaTT.TableTree
set_option autoImplicit false

inductive ValueTree (α : Type) where
  | leaf (a : α)
  | table (size : ℕ) (key value : Fin size → ValueTree α)

variable {α : Type}

namespace ValueTree

def isTable : ValueTree α → Bool
  | leaf _ => false
  | table _ _ _ => true

/-- Equality up to the order of entries, at every level. -/
def Same : ValueTree α → ValueTree α → Prop
  | leaf a, leaf b => a = b
  | table n k v, table m k' v' =>
    ∃ e : Fin n ≃ Fin m, ∀ i, Same (k i) (k' (e i)) ∧ Same (v i) (v' (e i))
  | _, _ => False

/-- The entries that can be reached through values. -/
def entryCount : ValueTree α → ℕ
  | leaf _ => 0
  | table _ _ v => ∑ i, (1 + entryCount (v i))

/-- One more than the number of tables nested in each other. -/
def depth : ValueTree α → ℕ
  | leaf _ => 1
  | table _ k v => 1 + Finset.univ.sup fun i => max (depth (k i)) (depth (v i))

/-- The table with the listed entries. -/
def ofList (l : List (ValueTree α × ValueTree α)) : ValueTree α :=
  table l.length (fun i => (l.get i).1) fun i => (l.get i).2

/-! ## The same trees -/

theorem Same.refl : ∀ t : ValueTree α, Same t t
  | leaf _ => rfl
  | table _ k v => ⟨Equiv.refl _, fun i => ⟨Same.refl (k i), Same.refl (v i)⟩⟩

theorem Same.of_eq {s t : ValueTree α} (h : s = t) : Same s t := h ▸ .refl s

theorem Same.symm {s t : ValueTree α} (h : Same s t) : Same t s := by
  induction s generalizing t with
  | leaf a =>
    cases t with
    | leaf b => exact Eq.symm h
    | table _ _ _ => exact h
  | table n k v ihk ihv =>
    cases t with
    | leaf b => exact h
    | table m k' v' =>
      obtain ⟨e, he⟩ := h
      refine ⟨e.symm, fun j => ?_⟩
      have hj := he (e.symm j)
      rw [e.apply_symm_apply] at hj
      exact ⟨ihk _ hj.1, ihv _ hj.2⟩

theorem Same.trans {s t u : ValueTree α} (hst : Same s t) (htu : Same t u) : Same s u := by
  induction s generalizing t u with
  | leaf a =>
    cases t with
    | leaf b => exact Eq.symm hst ▸ htu
    | table _ _ _ => exact hst.elim
  | table n k v ihk ihv =>
    cases t with
    | leaf b => exact hst.elim
    | table m k' v' =>
      cases u with
      | leaf c => exact htu
      | table l k'' v'' =>
        obtain ⟨e, he⟩ := hst
        obtain ⟨f, hf⟩ := htu
        exact ⟨e.trans f, fun i => ⟨ihk i (he i).1 (hf (e i)).1, ihv i (he i).2 (hf (e i)).2⟩⟩

theorem Same.isTable_eq {s t : ValueTree α} (h : Same s t) : s.isTable = t.isTable := by
  cases s <;> cases t <;> first | rfl | exact h.elim

theorem Same.entryCount_eq {s t : ValueTree α} (h : Same s t) : s.entryCount = t.entryCount := by
  induction s generalizing t with
  | leaf a =>
    cases t with
    | leaf b => rfl
    | table _ _ _ => exact h.elim
  | table n k v ihk ihv =>
    cases t with
    | leaf b => exact h.elim
    | table m k' v' =>
      obtain ⟨e, he⟩ := h
      simp only [entryCount]
      rw [← e.sum_comp fun j => 1 + (v' j).entryCount]
      exact Finset.sum_congr rfl fun i _ => by rw [ihv i (he i).2]

theorem depth_pos (t : ValueTree α) : 0 < t.depth := by
  cases t <;> simp [depth]

theorem depth_lt {n : ℕ} (k v : Fin n → ValueTree α) (i : Fin n) :
    (k i).depth < (table n k v).depth ∧ (v i).depth < (table n k v).depth := by
  have h : max (k i).depth (v i).depth ≤
      Finset.univ.sup fun i => max (depth (k i)) (depth (v i)) :=
    Finset.le_sup (f := fun i => max (depth (k i)) (depth (v i))) (Finset.mem_univ i)
  simp only [depth]
  omega

/-! ## Entries as a list -/

theorem exists_equiv_of_perm {β : Type} {l l' : List β} (h : l.Perm l') :
    ∃ e : Fin l.length ≃ Fin l'.length, ∀ i, l.get i = l'.get (e i) := by
  induction h with
  | nil => exact ⟨Equiv.refl _, fun i => rfl⟩
  | @cons x l l' _ ih =>
    obtain ⟨e, he⟩ := ih
    refine ⟨(finSuccEquiv _).trans (e.optionCongr.trans (finSuccEquiv _).symm), fun i => ?_⟩
    refine Fin.cases ?_ (fun j => ?_) i
    · rfl
    · simpa using he j
  | swap x y l =>
    refine ⟨Equiv.swap 0 1, fun i => ?_⟩
    refine Fin.cases ?_ (fun j => Fin.cases ?_ (fun k => ?_) j) i
    · simp
    · simp
    · rw [Equiv.swap_apply_of_ne_of_ne (by simp [Fin.ext_iff]) (by simp [Fin.ext_iff])]
      rfl
  | trans _ _ ih ih' =>
    obtain ⟨e, he⟩ := ih
    obtain ⟨f, hf⟩ := ih'
    exact ⟨e.trans f, fun i => (he i).trans (hf (e i))⟩

end ValueTree
end LuaTT.TableTree
