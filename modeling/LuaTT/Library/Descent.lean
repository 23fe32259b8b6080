import Mathlib.Data.Set.Card
import Mathlib.Logic.Relation
import Mathlib.Order.CompletePartialOrder

/-! How far one can descend along a relation, with a property to check at every element on the way. Where
finitely many elements are below, the descent is bounded exactly if it never comes back to an element. -/
namespace LuaTT.Descent
open Relation
set_option autoImplicit false

variable {α : Type*} {Q : α → Prop} {R : α → α → Prop} {a b : α} {m n : ℕ}

/-- Every descent from the element ends in fewer than `n` steps and has the property all along. -/
def Within (Q : α → Prop) (R : α → α → Prop) : ℕ → α → Prop
  | 0, _ => False
  | n + 1, a => Q a ∧ ∀ b, R a b → Within Q R n b

theorem Within.mono (h : Within Q R m a) (hle : m ≤ n) : Within Q R n a := by
  induction m generalizing n a with
  | zero => exact h.elim
  | succ m ih =>
    obtain ⟨n, rfl⟩ : ∃ k, n = k + 1 := ⟨n - 1, by omega⟩
    exact ⟨h.1, fun b hab => ih (h.2 b hab) (by omega)⟩

/-- A step uses up some of the bound. -/
theorem Within.step (h : Within Q R n a) (hab : R a b) : ∃ m < n, Within Q R m b := by
  cases n with
  | zero => exact h.elim
  | succ n => exact ⟨n, by omega, h.2 b hab⟩

theorem Within.path (h : Within Q R n a) (hab : TransGen R a b) : ∃ m < n, Within Q R m b := by
  induction hab with
  | single hab => exact h.step hab
  | tail _ hbc ih =>
    obtain ⟨m, hm, hb⟩ := ih
    obtain ⟨k, hk, hc⟩ := hb.step hbc
    exact ⟨k, by omega, hc⟩

theorem Within.holds (h : Within Q R n a) : Q a := by
  cases n with
  | zero => exact h.elim
  | succ n => exact h.1

/-- On a cycle the bound would go down for ever. -/
theorem Within.not_cyclic (h : Within Q R n a) : ¬ TransGen R a a := by
  intro hcycle
  induction n using Nat.strong_induction_on with
  | _ n ih =>
    obtain ⟨m, hm, ha⟩ := h.path hcycle
    exact ih m hm ha

theorem Within.reached (h : Within Q R n a) (hab : ReflTransGen R a b) :
    Q b ∧ ¬ TransGen R b b := by
  rcases reflTransGen_iff_eq_or_transGen.mp hab with rfl | hab
  · exact ⟨h.holds, h.not_cyclic⟩
  · obtain ⟨m, _, hb⟩ := h.path hab
    exact ⟨hb.holds, hb.not_cyclic⟩

/-- The elements below one. -/
def below (R : α → α → Prop) (a : α) : Set α := {b | TransGen R a b}

theorem below_ssubset (hab : R a b) (hb : ¬ TransGen R b b) : below R b ⊂ below R a := by
  have hsub : below R b ⊆ below R a := fun c hbc => TransGen.head hab hbc
  have hmem : b ∈ below R a := TransGen.single hab
  exact ⟨hsub, fun hback => hb (hback hmem)⟩

/-- Without a cycle every step leaves fewer elements below, so their number bounds the descent. -/
theorem within_ncard (hfin : (below R a).Finite)
    (h : ∀ b, ReflTransGen R a b → Q b ∧ ¬ TransGen R b b) :
    Within Q R ((below R a).ncard + 1) a := by
  induction hn : (below R a).ncard using Nat.strong_induction_on generalizing a with
  | _ n ih =>
    refine ⟨(h a .refl).1, fun b hab => ?_⟩
    have hless : below R b ⊂ below R a := below_ssubset hab (h b (.single hab)).2
    have hcard : (below R b).ncard < n := hn ▸ Set.ncard_lt_ncard hless hfin
    have hb := ih _ hcard (hfin.subset hless.subset) (fun c hbc => h c (.head hab hbc)) rfl
    exact hb.mono (by omega)

theorem exists_within_iff (hfin : (below R a).Finite) :
    (∃ n, Within Q R n a) ↔ ∀ b, ReflTransGen R a b → Q b ∧ ¬ TransGen R b b := by
  constructor
  · rintro ⟨n, hn⟩ b hab
    exact hn.reached hab
  · exact fun h => ⟨_, within_ncard hfin h⟩

end LuaTT.Descent
