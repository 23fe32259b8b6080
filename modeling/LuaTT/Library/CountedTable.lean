import Mathlib.Data.List.Basic

/-! Tables whose entries are stored under a counting index: each holds a list, without holes. -/
namespace LuaTT.CountedTable
set_option autoImplicit false

variable {V α : Type*}

/-- A table with the index that is used next. -/
structure Rows (V : Type*) where
  table : ℕ → V
  index : ℕ

namespace Rows

def start (nil : V) : Rows V := ⟨fun _ => nil, 1⟩

def add (r : Rows V) (v : V) : Rows V := ⟨fun k => if k = r.index then v else r.table k, r.index + 1⟩

/-- The table holds these values under 1, 2 and so on, and nothing else. -/
structure Holds (nil : V) (r : Rows V) (vs : List V) : Prop where
  index : r.index = vs.length + 1
  zero : r.table 0 = nil
  entry : ∀ k, r.table (k + 1) = vs[k]?.getD nil

variable {nil : V} {r : Rows V} {vs : List V}

theorem holds_start (nil : V) : (start nil).Holds nil [] := ⟨rfl, rfl, fun _ => rfl⟩

theorem Holds.add (h : r.Holds nil vs) (v : V) : (r.add v).Holds nil (vs ++ [v]) where
  index := by
    show r.index + 1 = (vs ++ [v]).length + 1
    rw [h.index, List.length_append]
    rfl
  zero := by
    have hne : ¬0 = r.index := by
      rw [h.index]
      omega
    exact (if_neg hne).trans h.zero
  entry := by
    intro k
    show (if k + 1 = r.index then v else r.table (k + 1)) = _
    rw [h.index, h.entry]
    split
    next heq =>
      obtain rfl : k = vs.length := by omega
      simp
    next hne =>
      obtain hlt | hgt : k < vs.length ∨ vs.length < k := by omega
      · rw [List.getElem?_append_left hlt]
      · have hlen : (vs ++ [v]).length ≤ k := by
          rw [List.length_append, List.length_singleton]
          exact hgt
        rw [List.getElem?_eq_none (Nat.le_of_lt hgt), List.getElem?_eq_none hlen]

/-- A loop whose body adds the images of what belongs to an element. -/
theorem Holds.foldl {β : Type*} {e : β → V} {step : Rows V → α → Rows V} {g : α → List β}
    (hstep : ∀ r bs x, r.Holds nil (bs.map e) → (step r x).Holds nil ((bs ++ g x).map e)) {bs : List β}
    (h : r.Holds nil (bs.map e)) (xs : List α) : (xs.foldl step r).Holds nil ((bs ++ xs.flatMap g).map e) := by
  induction xs generalizing r bs with
  | nil => simpa using h
  | cons x xs ih =>
    rw [List.foldl_cons, List.flatMap_cons, ← List.append_assoc]
    exact ih (hstep r bs x h)

end Rows

end LuaTT.CountedTable
