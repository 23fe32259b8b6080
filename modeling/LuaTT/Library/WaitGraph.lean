import Mathlib.Logic.Relation

/-! Who waits for whom, as a relation, and what one more edge adds to its paths. A new edge closes a
cycle exactly if its target already leads back to its source. -/
namespace LuaTT.WaitGraph
open Relation
set_option autoImplicit false

variable {α : Type*} {r : α → α → Prop} {v t a b : α}

/-- The relation with one more edge, from `v` to `t`. -/
def addEdge (r : α → α → Prop) (v t : α) : α → α → Prop := fun a b => r a b ∨ a = v ∧ b = t

theorem le_addEdge : r ≤ addEdge r v t := fun _ _ h => .inl h

/-- A path uses the new edge or it is an old one; up to its first and from its last use it is old. -/
theorem transGen_addEdge :
    TransGen (addEdge r v t) a b ↔ TransGen r a b ∨ ReflTransGen r a v ∧ ReflTransGen r t b := by
  constructor
  · intro h
    induction h with
    | single hab =>
      rcases hab with hab | ⟨rfl, rfl⟩
      · exact .inl (.single hab)
      · exact .inr ⟨.refl, .refl⟩
    | tail _ hbc ih =>
      rcases hbc with hbc | ⟨rfl, rfl⟩
      · exact ih.imp (fun h => h.tail hbc) fun h => ⟨h.1, h.2.tail hbc⟩
      · exact .inr ⟨ih.elim TransGen.to_reflTransGen And.left, .refl⟩
  · rintro (h | ⟨hav, htb⟩)
    · exact TransGen.mono le_addEdge _ _ h
    · have hedge : addEdge r v t v t := .inr ⟨rfl, rfl⟩
      have hfirst : TransGen (addEdge r v t) a t :=
        .tail' (ReflTransGen.mono le_addEdge _ _ hav) hedge
      exact hfirst.trans_left (ReflTransGen.mono le_addEdge _ _ htb)

/-- No thread waits for itself, directly or through others. -/
def Acyclic (r : α → α → Prop) : Prop := ∀ a, ¬ TransGen r a a

theorem acyclic_addEdge (h : Acyclic r) : Acyclic (addEdge r v t) ↔ ¬ ReflTransGen r t v := by
  constructor
  · exact fun hnew htv => hnew v (transGen_addEdge.mpr (.inr ⟨.refl, htv⟩))
  · intro htv a hcycle
    rcases transGen_addEdge.mp hcycle with hold | ⟨hav, hta⟩
    · exact h a hold
    · exact htv (hta.trans hav)

theorem Acyclic.mono {r' : α → α → Prop} (h : Acyclic r') (hle : r ≤ r') : Acyclic r :=
  fun a hcycle => h a (TransGen.mono hle _ _ hcycle)

end LuaTT.WaitGraph
