import Mathlib.Logic.Function.Iterate
import Mathlib.Data.List.Basic

/-! Labelled transition systems with an executable step, their runs and the two inductions every
safety proof goes through: over the state reached, and over the state with the history that led
there. Nothing here names a particular program. -/
namespace LuaTT.Transition
set_option autoImplicit false

/-- Initial states and a partial step function; a label names one atomic step. -/
structure System (σ α : Type*) where
  init : σ → Prop
  step : σ → α → Option σ

namespace System
variable {σ α : Type*} (S : System σ α)

/-! ## Runs -/

/-- A run whose steps all meet `ok`. The history lists each step with the state before it, the
latest step first. -/
inductive Run (ok : σ → α → Prop) : List (σ × α) → σ → Prop
  | start {s : σ} (hi : S.init s) : Run ok [] s
  | next {h : List (σ × α)} {s s' : σ} {a : α} (hr : Run ok h s) (hok : ok s a)
      (hs : S.step s a = some s') : Run ok ((s, a) :: h) s'

/-- The states that runs with all steps in `ok` reach. -/
def Reaches (ok : σ → α → Prop) (s : σ) : Prop := ∃ h, S.Run ok h s

/-- No condition on the steps. -/
def anyStep : σ → α → Prop := fun _ _ => True

variable {S} {ok : σ → α → Prop}

theorem Reaches.start {s : σ} (hi : S.init s) : S.Reaches ok s := ⟨[], .start hi⟩

theorem Reaches.next {s s' : σ} {a : α} (hr : S.Reaches ok s) (hok : ok s a)
    (hs : S.step s a = some s') : S.Reaches ok s' := by
  obtain ⟨h, hr⟩ := hr
  exact ⟨(s, a) :: h, .next hr hok hs⟩

/-! ## Induction rules -/

/-- An invariant of state and history: true at the start, kept by every step that meets `ok`. -/
theorem Run.invariant {I : List (σ × α) → σ → Prop} (h0 : ∀ s, S.init s → I [] s)
    (hstep : ∀ h s a s', I h s → ok s a → S.step s a = some s' → I ((s, a) :: h) s')
    {h : List (σ × α)} {s : σ} (hr : S.Run ok h s) : I h s := by
  induction hr with
  | start hi => exact h0 _ hi
  | next _ hok hs ih => exact hstep _ _ _ _ ih hok hs

theorem Reaches.invariant {I : σ → Prop} (h0 : ∀ s, S.init s → I s)
    (hstep : ∀ s a s', I s → ok s a → S.step s a = some s' → I s')
    {s : σ} (hr : S.Reaches ok s) : I s := by
  obtain ⟨h, hr⟩ := hr
  exact Run.invariant (I := fun _ s => I s) h0 (fun _ s a s' => hstep s a s') hr

/-! ## Executing a list of labels -/

variable (S) in
/-- The state after the labels `as`, if every step is enabled. -/
def exec (s : σ) : List α → Option σ
  | [] => some s
  | a :: as => match S.step s a with
    | some s' => exec s' as
    | none => none

variable (S) (ok) in
/-- Every step that `as` takes from `s` meets `ok`. -/
def Along (s : σ) : List α → Prop
  | [] => True
  | a :: as => ok s a ∧ match S.step s a with
    | some s' => Along s' as
    | none => True

instance decidableAlong [∀ s a, Decidable (ok s a)] (s : σ) :
    ∀ as : List α, Decidable (S.Along ok s as)
  | [] => isTrue trivial
  | a :: as =>
    have : Decidable (match S.step s a with | some s' => S.Along ok s' as | none => True) :=
      match S.step s a with
      | some s' => decidableAlong s' as
      | none => isTrue trivial
    inferInstanceAs (Decidable (_ ∧ _))

theorem along_anyStep (s : σ) (as : List α) : S.Along anyStep s as := by
  induction as generalizing s with
  | nil => trivial
  | cons a as ih =>
    refine ⟨trivial, ?_⟩
    cases S.step s a with
    | none => trivial
    | some s' => exact ih s'

theorem Reaches.exec {s s' : σ} (hr : S.Reaches ok s) (as : List α) (hok : S.Along ok s as)
    (hx : S.exec s as = some s') : S.Reaches ok s' := by
  induction as generalizing s with
  | nil =>
    cases hx
    exact hr
  | cons a as ih =>
    simp only [System.exec, Along] at hx hok
    cases hs : S.step s a with
    | none => simp [hs] at hx
    | some t =>
      rw [hs] at hx hok
      exact ih (hr.next hok.1 hs) hok.2 hx

theorem Run.exec {h : List (σ × α)} {s s' : σ} (hr : S.Run ok h s) (as : List α)
    (hok : S.Along ok s as) (hx : S.exec s as = some s') :
    ∃ g, S.Run ok (g ++ h) s' ∧ ∀ x ∈ g, x.2 ∈ as := by
  induction as generalizing h s with
  | nil =>
    cases hx
    exact ⟨[], hr, fun x hx => absurd hx List.not_mem_nil⟩
  | cons a as ih =>
    simp only [System.exec, Along] at hx hok
    cases hs : S.step s a with
    | none => simp [hs] at hx
    | some t =>
      rw [hs] at hx hok
      obtain ⟨g, hg, hmem⟩ := ih (hr.next hok.1 hs) hok.2 hx
      refine ⟨g ++ [(s, a)], by simpa using hg, fun x hx => ?_⟩
      rcases List.mem_append.mp hx with hx | hx
      · exact List.mem_cons_of_mem _ (hmem x hx)
      · rw [List.mem_singleton.mp hx]
        exact List.mem_cons_self

theorem exec_append {s u v : σ} {as bs : List α} (h : S.exec s as = some u)
    (h' : S.exec u bs = some v) : S.exec s (as ++ bs) = some v := by
  induction as generalizing s with
  | nil =>
    cases h
    exact h'
  | cons a as ih =>
    simp only [List.cons_append, System.exec] at h ⊢
    cases hs : S.step s a with
    | none => simp [hs] at h
    | some w =>
      rw [hs] at h
      exact ih h

/-- The steps that `as` takes from `s`, each with the state before it. -/
def trace (S : System σ α) (s : σ) : List α → List (σ × α)
  | [] => []
  | a :: as => (s, a) :: match S.step s a with
    | some s' => S.trace s' as
    | none => []

/-- An invariant of a run that starts anywhere, over the state and the steps still to come. -/
theorem exec_induction {P : σ → List (σ × α) → σ → Prop} (hnil : ∀ s, P s [] s)
    (hcons : ∀ s a s' h u, S.step s a = some s' → P s' h u → P s ((s, a) :: h) u) {s u : σ} {as : List α}
    (hx : S.exec s as = some u) : P s (S.trace s as) u := by
  induction as generalizing s with
  | nil =>
    cases hx
    exact hnil _
  | cons a as ih =>
    simp only [System.exec] at hx
    cases hs : S.step s a with
    | none => simp [hs] at hx
    | some s' =>
      rw [hs] at hx
      simp only [trace, hs]
      exact hcons s a s' _ u hs (ih hx)

theorem mem_trace {s : σ} {as : List α} {x : σ × α} (hx : x ∈ S.trace s as) : x.2 ∈ as := by
  induction as generalizing s with
  | nil => exact absurd hx List.not_mem_nil
  | cons a as ih =>
    rcases List.mem_cons.mp hx with rfl | hx
    · exact List.mem_cons_self
    · cases hs : S.step s a with
      | none =>
        rw [hs] at hx
        exact absurd hx List.not_mem_nil
      | some s' =>
        rw [hs] at hx
        exact List.mem_cons_of_mem _ (ih hx)

theorem exec_single {s s' : σ} {a : α} (h : S.step s a = some s') : S.exec s [a] = some s' := by
  simp only [System.exec, h]

end System

/-! ## Machines -/

/-- A machine that goes down in a measure until it is done is done at some time. -/
theorem exists_iterate_of_decreasing {σ : Type*} {f : σ → σ} (done : σ → Prop) (μ : σ → ℕ) {s : σ}
    (h : ∀ n, ¬ done (f^[n] s) → μ (f^[n + 1] s) < μ (f^[n] s)) : ∃ n, done (f^[n] s) := by
  by_contra hnever
  have hrun : ∀ n, ¬ done (f^[n] s) := not_exists.mp hnever
  have hbound : ∀ n, μ (f^[n] s) + n ≤ μ s := by
    intro n
    induction n with
    | zero => exact Nat.le_refl _
    | succ n ih =>
      have hstep := h n (hrun n)
      omega
  have hlast := hbound (μ s + 1)
  omega

end LuaTT.Transition
