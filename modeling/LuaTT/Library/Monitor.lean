import Mathlib.Logic.Function.Basic
import Mathlib.Data.List.Basic

/-! One mutex with one condition variable, as the atomic operations a thread can take on the pair.
A wait is two operations: it releases the mutex and falls asleep, and after a notification it takes
the mutex again like any other contender. -/
namespace LuaTT.Sync
set_option autoImplicit false

/-- Where a thread stands with respect to the condition variable. -/
inductive Waiting
  | awake
  | asleep
  | notified
  deriving DecidableEq, Repr

/-- The owner of the mutex and the waiters of the condition variable. -/
structure Monitor (τ : Type) where
  owner : Option τ
  cond : τ → Waiting

namespace Monitor
variable {τ : Type}

/-- Nobody owns the mutex and nobody waits. -/
def idle : Monitor τ := ⟨none, fun _ => .awake⟩

/-! ## The operations; `none` where the thread is blocked or must not call it -/

def lock (m : Monitor τ) (t : τ) : Option (Monitor τ) :=
  if m.owner = none then some { m with owner := some t } else none

/-- Never blocks: says whether the mutex was taken. -/
def tryLock (m : Monitor τ) (t : τ) : Bool × Monitor τ :=
  if m.owner = none then (true, { m with owner := some t }) else (false, m)

section Contended
variable [DecidableEq τ]

def unlock (m : Monitor τ) (t : τ) : Option (Monitor τ) :=
  if m.owner = some t then some { m with owner := none } else none

def wait (m : Monitor τ) (t : τ) : Option (Monitor τ) :=
  if m.owner = some t then some ⟨none, Function.update m.cond t .asleep⟩ else none

def notifyAll (m : Monitor τ) : Monitor τ :=
  { m with cond := fun t => if m.cond t = .asleep then .notified else m.cond t }

/-- One sleeper wakes, notified alone or for no reason. -/
def wakeOne (m : Monitor τ) (t : τ) : Option (Monitor τ) :=
  if m.cond t = .asleep then some { m with cond := Function.update m.cond t .notified } else none

def reacquire (m : Monitor τ) (t : τ) : Option (Monitor τ) :=
  if m.cond t = .notified ∧ m.owner = none then
    some ⟨some t, Function.update m.cond t .awake⟩
  else none

end Contended

/-! ## What each operation can do -/

theorem lock_eq_some {m m' : Monitor τ} {t : τ} :
    m.lock t = some m' ↔ m.owner = none ∧ m' = { m with owner := some t } := by
  unfold lock
  split_ifs with h <;> simp [h, eq_comm]

theorem notifyAll_awake (m : Monitor τ) (t : τ) : m.notifyAll.cond t ≠ .asleep := by
  simp only [notifyAll]
  split_ifs with h
  · simp
  · exact h

variable [DecidableEq τ]

theorem unlock_eq_some {m m' : Monitor τ} {t : τ} :
    m.unlock t = some m' ↔ m.owner = some t ∧ m' = { m with owner := none } := by
  unfold unlock
  split_ifs with h <;> simp [h, eq_comm]

theorem wait_eq_some {m m' : Monitor τ} {t : τ} :
    m.wait t = some m' ↔
      m.owner = some t ∧ m' = ⟨none, Function.update m.cond t .asleep⟩ := by
  unfold wait
  split_ifs with h <;> simp [h, eq_comm]

theorem reacquire_eq_some {m m' : Monitor τ} {t : τ} :
    m.reacquire t = some m' ↔ m.cond t = .notified ∧ m.owner = none ∧
      m' = ⟨some t, Function.update m.cond t .awake⟩ := by
  unfold reacquire
  split_ifs with h
  · simp [h.1, h.2, eq_comm]
  · simp only [false_iff]
    exact fun hc => h ⟨hc.1, hc.2.1⟩

theorem wakeOne_eq_some {m m' : Monitor τ} {t : τ} :
    m.wakeOne t = some m' ↔
      m.cond t = .asleep ∧ m' = { m with cond := Function.update m.cond t .notified } := by
  unfold wakeOne
  split_ifs with h <;> simp [h, eq_comm]

end Monitor
end LuaTT.Sync
