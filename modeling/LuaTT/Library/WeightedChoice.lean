import Mathlib.Algebra.Order.Group.Defs
import Mathlib.Algebra.BigOperators.Group.List.Basic
import Mathlib.Algebra.Order.BigOperators.Group.List
import Mathlib.Order.Interval.Set.Defs

/-! The choice among weighted options by a draw: the first one at which the sum of the weights so far
reaches the draw. Nothing here names a particular program. -/
namespace LuaTT.WeightedChoice
set_option autoImplicit false

variable {K : Type*} [AddCommGroup K] [LinearOrder K]

/-- The position at which a sum that starts with `total` reaches `r`. -/
def firstReach (r : K) : K → List K → Option ℕ
  | _, [] => none
  | total, w :: ws => if r ≤ total + w then some 0 else (firstReach r (total + w) ws).map (· + 1)

theorem firstReach_eq_some {r total : K} {ws : List K} {i : ℕ} :
    firstReach r total ws = some i ↔ i < ws.length ∧ r ≤ total + (ws.take (i + 1)).sum ∧
      ∀ j < i, total + (ws.take (j + 1)).sum < r := by
  induction ws generalizing total i with
  | nil => simp [firstReach]
  | cons w ws ih =>
    have hsum : ∀ n, total + w + (ws.take n).sum = total + ((w :: ws).take (n + 1)).sum := by
      intro n
      rw [List.take_succ_cons, List.sum_cons, add_assoc]
    have hfirst : total + ((w :: ws).take 1).sum = total + w := by simp
    rw [firstReach]
    by_cases hr : r ≤ total + w
    · rw [if_pos hr]
      constructor
      · rintro ⟨⟩
        exact ⟨Nat.succ_pos _, by rwa [hfirst], fun j hj => absurd hj (Nat.not_lt_zero j)⟩
      · rintro ⟨_, _, hbefore⟩
        cases i with
        | zero => rfl
        | succ i =>
          have hlt := hbefore 0 (Nat.succ_pos i)
          rw [hfirst] at hlt
          exact absurd hlt (not_lt.mpr hr)
    · rw [if_neg hr]
      cases i with
      | zero =>
        refine iff_of_false (by simp) ?_
        rintro ⟨_, hreach, _⟩
        rw [hfirst] at hreach
        exact hr hreach
      | succ i =>
        rw [Option.map_eq_some_iff]
        constructor
        · rintro ⟨k, hk, he⟩
          obtain rfl : k = i := by omega
          obtain ⟨hlen, hreach, hbefore⟩ := ih.mp hk
          refine ⟨Nat.succ_lt_succ hlen, by rwa [← hsum], fun j hj => ?_⟩
          cases j with
          | zero => rw [hfirst]; exact not_le.mp hr
          | succ j =>
            have hlt := hbefore j (Nat.lt_of_succ_lt_succ hj)
            rwa [hsum] at hlt
        · rintro ⟨hlen, hreach, hbefore⟩
          refine ⟨i, ih.mpr ⟨Nat.lt_of_succ_lt_succ hlen, by rwa [hsum], fun j hj => ?_⟩, rfl⟩
          have hlt := hbefore (j + 1) (Nat.succ_lt_succ hj)
          rwa [← hsum] at hlt

/-- A draw that the whole sum reaches is reached somewhere. -/
theorem firstReach_isSome {r total : K} {ws : List K} (hne : ws ≠ []) (hr : r ≤ total + ws.sum) :
    (firstReach r total ws).isSome := by
  induction ws generalizing total with
  | nil => exact absurd rfl hne
  | cons w ws ih =>
    rw [firstReach]
    split_ifs with hw
    · rfl
    · rw [Option.isSome_map]
      apply ih
      · rintro rfl
        simp [hw] at hr
      · rwa [List.sum_cons, ← add_assoc] at hr

theorem firstReach_zero_iff {r total : K} {ws : List K} (hi : 0 < ws.length) :
    firstReach r total ws = some 0 ↔ r ≤ total + (ws.take 1).sum := by
  rw [firstReach_eq_some]
  constructor
  · rintro ⟨_, hreach, _⟩
    exact hreach
  · intro hreach
    exact ⟨hi, hreach, fun j hj => absurd hj (Nat.not_lt_zero j)⟩

variable [IsOrderedAddMonoid K]

theorem sum_take_mono {ws : List K} (hws : ∀ w ∈ ws, 0 ≤ w) {m n : ℕ} (h : m ≤ n) :
    (ws.take m).sum ≤ (ws.take n).sum := by
  obtain ⟨k, rfl⟩ := Nat.exists_eq_add_of_le h
  have hrest : 0 ≤ ((ws.drop m).take k).sum := by
    apply List.sum_nonneg
    intro w hw
    exact hws w (List.mem_of_mem_drop (List.mem_of_mem_take hw))
  calc (ws.take m).sum ≤ (ws.take m).sum + ((ws.drop m).take k).sum := le_add_of_nonneg_right hrest
    _ = (ws.take (m + k)).sum := by rw [← List.sum_append, ← List.take_add]

/-- The draws that choose a position other than the first: from the sum before it, which belongs to an
earlier one, to the sum with it. -/
theorem firstReach_succ_iff {r total : K} {ws : List K} (hws : ∀ w ∈ ws, 0 ≤ w) {i : ℕ}
    (hi : i + 1 < ws.length) : firstReach r total ws = some (i + 1) ↔
      r ∈ Set.Ioc (total + (ws.take (i + 1)).sum) (total + (ws.take (i + 2)).sum) := by
  rw [firstReach_eq_some, Set.mem_Ioc]
  constructor
  · rintro ⟨_, hreach, hbefore⟩
    exact ⟨hbefore i (Nat.lt_succ_self i), hreach⟩
  · rintro ⟨hlt, hreach⟩
    refine ⟨hi, hreach, fun j hj => lt_of_le_of_lt ?_ hlt⟩
    exact add_le_add_right (sum_take_mono hws (by omega)) total

end LuaTT.WeightedChoice
