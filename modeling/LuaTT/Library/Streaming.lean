import Mathlib.Data.List.Basic

/-! Machines that read a text symbol by symbol and write another one. They do not see how the text has been
cut into pieces; and a decoder that is in its first state after each step of an encoder, having given back
all but what the encoder still holds, gives back every text. -/
namespace LuaTT.Streaming
set_option autoImplicit false

structure Transducer (σ α β : Type*) where
  init : σ
  step : σ → α → σ × List β
  /-- What is written when the text ends. -/
  finish : σ → List β

namespace Transducer
variable {σ τ α β : Type*} (T : Transducer σ α β)

def feed : σ → List α → σ × List β
  | s, [] => (s, [])
  | s, a :: as =>
    let r := T.step s a
    let q := feed r.1 as
    (q.1, r.2 ++ q.2)

/-- The text written for a whole text. -/
def run (as : List α) : List β :=
  let r := T.feed T.init as
  r.2 ++ T.finish r.1

@[simp] theorem feed_nil (s : σ) : T.feed s [] = (s, []) := rfl

theorem feed_cons (s : σ) (a : α) (as : List α) :
    T.feed s (a :: as) = ((T.feed (T.step s a).1 as).1, (T.step s a).2 ++ (T.feed (T.step s a).1 as).2) :=
  rfl

theorem feed_singleton (s : σ) (a : α) : T.feed s [a] = T.step s a := by
  simp [feed_cons]

theorem feed_append (s : σ) (as bs : List α) :
    T.feed s (as ++ bs) =
      ((T.feed (T.feed s as).1 bs).1, (T.feed s as).2 ++ (T.feed (T.feed s as).1 bs).2) := by
  induction as generalizing s with
  | nil => rfl
  | cons a as ih =>
    rw [List.cons_append, feed_cons, ih, feed_cons]
    simp only [List.append_assoc]

theorem run_eq (as : List α) : T.run as = (T.feed T.init as).2 ++ T.finish (T.feed T.init as).1 := rfl

variable {T}

theorem feed_invariant {P : σ → Prop} (hstep : ∀ s a, P s → P (T.step s a).1) {s : σ} (hs : P s)
    (as : List α) : P (T.feed s as).1 := by
  induction as generalizing s with
  | nil => exact hs
  | cons a as ih => exact ih (hstep s a hs)

/-- Bytes of one kind are written for bytes of another. -/
theorem feed_written {P : α → Prop} {Q : β → Prop} (hstep : ∀ s a, P a → ∀ b ∈ (T.step s a).2, Q b) (s : σ)
    {as : List α} (has : ∀ a ∈ as, P a) : ∀ b ∈ (T.feed s as).2, Q b := by
  induction as generalizing s with
  | nil => exact fun b hb => (List.not_mem_nil hb).elim
  | cons a as ih =>
    intro b hb
    rw [feed_cons] at hb
    obtain hb | hb := List.mem_append.mp hb
    · exact hstep s a (has a List.mem_cons_self) b hb
    · exact ih _ (fun a' ha' => has a' (List.mem_cons_of_mem a ha')) b hb

/-! ## Decoding -/

/-- After each step the decoder is back in its first state, and has given back what has been read but for
what the encoder holds. -/
structure KeepsUp (E : Transducer σ α β) (D : Transducer τ β α) (P : σ → Prop) (held : σ → List α) :
    Prop where
  init : P E.init
  held_init : held E.init = []
  step : ∀ s a, P s → P (E.step s a).1 ∧
    ∃ d, D.feed D.init (E.step s a).2 = (D.init, d) ∧ d ++ held (E.step s a).1 = held s ++ [a]
  finish : ∀ s, P s → D.run (E.finish s) = held s

variable {E : Transducer σ α β} {D : Transducer τ β α} {P : σ → Prop} {held : σ → List α}

theorem KeepsUp.feed (h : KeepsUp E D P held) {s : σ} (hs : P s) (as : List α) :
    P (E.feed s as).1 ∧
      ∃ d, D.feed D.init (E.feed s as).2 = (D.init, d) ∧ d ++ held (E.feed s as).1 = held s ++ as := by
  induction as generalizing s with
  | nil => exact ⟨hs, [], rfl, by simp⟩
  | cons a as ih =>
    obtain ⟨hs1, d1, hd1, heq1⟩ := h.step s a hs
    obtain ⟨hs2, d2, hd2, heq2⟩ := ih hs1
    refine ⟨hs2, d1 ++ d2, ?_, ?_⟩
    · rw [feed_cons, feed_append, hd1, hd2]
    · calc d1 ++ d2 ++ held (E.feed (E.step s a).1 as).1
          = d1 ++ (held (E.step s a).1 ++ as) := by rw [List.append_assoc, heq2]
        _ = held s ++ a :: as := by
          rw [← List.append_assoc, heq1, List.append_assoc, List.singleton_append]

/-- The decoder gives every text back. -/
theorem KeepsUp.run (h : KeepsUp E D P held) (as : List α) : D.run (E.run as) = as := by
  obtain ⟨hs, d, hd, heq⟩ := h.feed h.init as
  have hfin := h.finish _ hs
  rw [h.held_init, List.nil_append] at heq
  rw [run_eq] at hfin
  rw [run_eq, run_eq, feed_append, hd, List.append_assoc, hfin, heq]

end Transducer
end LuaTT.Streaming
