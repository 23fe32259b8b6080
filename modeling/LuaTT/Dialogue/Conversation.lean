import Mathlib.Algebra.Order.Field.Rat
import Mathlib.Tactic.Linarith
import LuaTT.Library.WeightedChoice
import LuaTT.Lua.Number

/-! `AI_Dialogue_Script::Get_Random_Conversation`: the choice among the options of a dialogue by a random
number. Weights are taken as exact numbers. -/
namespace LuaTT.Dialogue
open Lua WeightedChoice
set_option autoImplicit false

structure DialogueOptionClass where
  conversationID : ℤ
  weight : ℚ

/-- The option list may hold null pointers. -/
structure DialogueClass where
  optionList : List (Option DialogueOptionClass)
  silenceWeight : ℚ

/-- `ConversationIDs`, `Weights` and `TotalWeight` of the first loop. -/
structure Collected where
  conversationIDs : List ℤ
  weights : List ℚ
  totalWeight : ℚ

def Collected.add (c : Collected) : Option DialogueOptionClass → Collected
  | some o => ⟨c.conversationIDs ++ [o.conversationID], c.weights ++ [o.weight], c.totalWeight + o.weight⟩
  | none => c

namespace DialogueClass
variable (d : DialogueClass)

def collected : Collected := d.optionList.foldl Collected.add ⟨[], [], 0⟩

/-- The second loop, after the test for silence: the `x` at which it returns. -/
def chosen (rand : ℚ) : Option ℕ :=
  if d.silenceWeight ≤ rand then firstReach (rand - d.silenceWeight) 0 d.collected.weights else none

/-- The id that is looked up. -/
def conversationID (rand : ℚ) : Option ℤ := (d.chosen rand).bind fun x => d.collected.conversationIDs[x]?

/-- `Get_Random_Conversation`, over the conversations and the random numbers of the engine. -/
def getRandomConversation {C : Type} (findConversation : ℤ → Option C) (getRandom : ℚ → ℚ → ℚ) : Option C :=
  (d.conversationID (getRandom 0 (d.collected.totalWeight + d.silenceWeight))).bind findConversation

/-! ## What the first loop collects -/

/-- The options that are no null pointers. -/
def options : List DialogueOptionClass := d.optionList.filterMap id

theorem foldl_add (l : List (Option DialogueOptionClass)) (c : Collected) :
    l.foldl Collected.add c = ⟨c.conversationIDs ++ (l.filterMap id).map (·.conversationID),
      c.weights ++ (l.filterMap id).map (·.weight),
      c.totalWeight + ((l.filterMap id).map (·.weight)).sum⟩ := by
  induction l generalizing c with
  | nil => simp
  | cons o l ih =>
    rw [List.foldl_cons, ih]
    cases o with
    | none => simp [Collected.add]
    | some o => simp [Collected.add, add_assoc]

theorem collected_eq : d.collected = ⟨d.options.map (·.conversationID), d.options.map (·.weight),
    (d.options.map (·.weight)).sum⟩ := by
  rw [collected, foldl_add]
  simp [options]

variable {d}

theorem options_eq_nil : d.options = [] ↔ ∀ o ∈ d.optionList, o = none := by
  rw [options, List.filterMap_eq_nil_iff]
  rfl

theorem conversationID_eq {rand : ℚ} :
    d.conversationID rand = ((d.chosen rand).bind fun x => d.options[x]?).map (·.conversationID) := by
  unfold conversationID
  cases d.chosen rand with
  | none => rfl
  | some x => simp [collected_eq]

/-! ## The draws of an option -/

/-- The weight of the options before the one at `x`. -/
def weightBefore (d : DialogueClass) (x : ℕ) : ℚ := ((d.options.take x).map (·.weight)).sum

/-- Weights are not negative. -/
structure Weighted (d : DialogueClass) : Prop where
  options : ∀ o ∈ d.options, 0 ≤ o.weight
  silence : 0 ≤ d.silenceWeight

theorem weightBefore_zero (d : DialogueClass) : d.weightBefore 0 = 0 := rfl

theorem weightBefore_succ {x : ℕ} {o : DialogueOptionClass} (ho : d.options[x]? = some o) :
    d.weightBefore (x + 1) = d.weightBefore x + o.weight := by
  rw [weightBefore, List.take_add_one, ho]
  simp [weightBefore]

theorem weightBefore_length (d : DialogueClass) :
    d.weightBefore d.options.length = d.collected.totalWeight := by
  rw [weightBefore, List.take_length, collected_eq]

theorem chosen_eq_some {rand : ℚ} {x : ℕ} : d.chosen rand = some x ↔ d.silenceWeight ≤ rand ∧
    x < d.options.length ∧ rand - d.silenceWeight ≤ d.weightBefore (x + 1) ∧
      ∀ y < x, d.weightBefore (y + 1) < rand - d.silenceWeight := by
  unfold chosen
  split_ifs with hs
  · simp [firstReach_eq_some, collected_eq, weightBefore, List.map_take, hs]
  · simp [hs]

theorem chosen_isSome {rand : ℚ} (hs : d.silenceWeight ≤ rand) (hne : d.options ≠ [])
    (hr : rand ≤ d.silenceWeight + d.collected.totalWeight) : (d.chosen rand).isSome := by
  rw [chosen, if_pos hs]
  apply firstReach_isSome
  · simpa [collected_eq] using hne
  · rw [zero_add]
    have htotal : d.collected.weights.sum = d.collected.totalWeight := by rw [collected_eq]
    rw [htotal]
    exact sub_le_iff_le_add'.mpr hr

/-! ## The choice -/

theorem options_ne_nil_of_chosen {rand : ℚ} {x : ℕ} (h : d.chosen rand = some x) :
    ∃ o, d.options[x]? = some o := by
  obtain ⟨_, hlen, _⟩ := chosen_eq_some.mp h
  exact ⟨_, List.getElem?_eq_getElem hlen⟩

theorem conversationID_eq_none {rand : ℚ} (hr : rand ≤ d.silenceWeight + d.collected.totalWeight) :
    d.conversationID rand = none ↔ rand < d.silenceWeight ∨ ∀ o ∈ d.optionList, o = none := by
  rw [← options_eq_nil, conversationID_eq, Option.map_eq_none_iff]
  constructor
  · intro hnone
    by_contra hnot
    obtain ⟨hs, hne⟩ := not_or.mp hnot
    obtain ⟨x, hx⟩ := Option.isSome_iff_exists.mp (chosen_isSome (not_lt.mp hs) hne hr)
    obtain ⟨o, ho⟩ := options_ne_nil_of_chosen hx
    simp [hx, ho] at hnone
  · rintro (hlt | hnil)
    · simp [chosen, not_le.mpr hlt]
    · cases d.chosen rand with
      | none => rfl
      | some x => simp [hnil]

theorem conversationID_eq_some {rand : ℚ} {c : ℤ} (h : d.conversationID rand = some c) :
    ∃ x o, d.chosen rand = some x ∧ d.options[x]? = some o ∧ c = o.conversationID := by
  rw [conversationID_eq] at h
  obtain ⟨o, ho, rfl⟩ := Option.map_eq_some_iff.mp h
  obtain ⟨x, hx, ho⟩ := Option.bind_eq_some_iff.mp ho
  exact ⟨x, o, hx, ho, rfl⟩

theorem chosen_isLeast {rand : ℚ} {x : ℕ} (h : d.chosen rand = some x) :
    IsLeast {y | y < d.options.length ∧ rand - d.silenceWeight ≤ d.weightBefore (y + 1)} x := by
  obtain ⟨_, hlen, hreach, hbefore⟩ := chosen_eq_some.mp h
  refine ⟨⟨hlen, hreach⟩, ?_⟩
  rintro y ⟨_, hy⟩
  by_contra hlt
  exact absurd hy (not_le.mpr (hbefore y (Nat.lt_of_not_le hlt)))

/-- The draws at which the option at `x` is chosen. -/
def draws (d : DialogueClass) (x : ℕ) : Set ℚ :=
  {rand | 0 ≤ rand ∧ rand ≤ d.silenceWeight + d.collected.totalWeight ∧ d.chosen rand = some x}

theorem weightBefore_mono (hd : d.Weighted) {x y : ℕ} (h : x ≤ y) :
    d.weightBefore x ≤ d.weightBefore y := by
  simp only [weightBefore, List.map_take]
  apply sum_take_mono _ h
  intro w hw
  obtain ⟨o, ho, rfl⟩ := List.mem_map.mp hw
  exact hd.options o ho

/-- Every option is within reach of the draws. -/
theorem weightBefore_le (hd : d.Weighted) {x : ℕ} (h : x ≤ d.options.length) :
    d.weightBefore x ≤ d.collected.totalWeight := by
  rw [← weightBefore_length]
  exact weightBefore_mono hd h

theorem chosen_zero_iff {rand : ℚ} (hlen : 0 < d.options.length) : d.chosen rand = some 0 ↔
    d.silenceWeight ≤ rand ∧ rand - d.silenceWeight ≤ d.weightBefore 1 := by
  have hlen' : 0 < d.collected.weights.length := by simpa [collected_eq] using hlen
  unfold chosen
  split_ifs with hs
  · rw [firstReach_zero_iff hlen']
    simp [collected_eq, weightBefore, List.map_take, hs]
  · simp [hs]

theorem chosen_succ_iff (hd : d.Weighted) {rand : ℚ} {x : ℕ} (hlen : x + 1 < d.options.length) :
    d.chosen rand = some (x + 1) ↔ d.silenceWeight ≤ rand ∧
      rand - d.silenceWeight ∈ Set.Ioc (d.weightBefore (x + 1)) (d.weightBefore (x + 2)) := by
  have hlen' : x + 1 < d.collected.weights.length := by simpa [collected_eq] using hlen
  have hweights : ∀ w ∈ d.collected.weights, 0 ≤ w := by simpa [collected_eq] using hd.options
  unfold chosen
  split_ifs with hs
  · rw [firstReach_succ_iff hweights hlen']
    simp [collected_eq, weightBefore, List.map_take, hs]
  · simp [hs]

theorem draws_zero (hd : d.Weighted) {o : DialogueOptionClass} (ho : d.options[0]? = some o) :
    d.draws 0 = Set.Icc d.silenceWeight (d.silenceWeight + o.weight) := by
  obtain ⟨hlen, _⟩ := List.getElem?_eq_some_iff.mp ho
  have hfirst : d.weightBefore 1 = o.weight := by
    rw [weightBefore_succ ho, weightBefore_zero, zero_add]
  have htotal : o.weight ≤ d.collected.totalWeight := hfirst ▸ weightBefore_le hd hlen
  have hsilence := hd.silence
  ext rand
  simp only [draws, Set.mem_ofPred_eq, Set.mem_Icc, chosen_zero_iff hlen, hfirst]
  constructor
  · rintro ⟨_, _, hs, hreach⟩
    exact ⟨hs, by linarith⟩
  · rintro ⟨hs, hreach⟩
    exact ⟨by linarith, by linarith, hs, by linarith⟩

theorem draws_succ (hd : d.Weighted) {x : ℕ} {o : DialogueOptionClass} (ho : d.options[x + 1]? = some o) :
    d.draws (x + 1) = Set.Ioc (d.silenceWeight + d.weightBefore (x + 1))
      (d.silenceWeight + d.weightBefore (x + 1) + o.weight) := by
  obtain ⟨hlen, _⟩ := List.getElem?_eq_some_iff.mp ho
  have hupper := weightBefore_succ ho
  have htotal : d.weightBefore (x + 2) ≤ d.collected.totalWeight := weightBefore_le hd hlen
  have hlower : 0 ≤ d.weightBefore (x + 1) := weightBefore_mono hd (Nat.zero_le (x + 1))
  have hsilence := hd.silence
  ext rand
  simp only [draws, Set.mem_ofPred_eq, Set.mem_Ioc, chosen_succ_iff hd hlen]
  constructor
  · rintro ⟨_, _, _, hafter, hreach⟩
    exact ⟨by linarith, by linarith⟩
  · rintro ⟨hafter, hreach⟩
    exact ⟨by linarith, by linarith, by linarith, by linarith, by linarith⟩

/-- A null pointer between two options of weight 1 and 2, and silence of weight 1. -/
def twoOptions : DialogueClass := ⟨[some ⟨7, 1⟩, none, some ⟨9, 2⟩], 1⟩

end DialogueClass
end LuaTT.Dialogue
