import LuaTT.Library.WaitGraph
import LuaTT.Thread.FdsLockExclusion

/-! `Lua_Wait_Thread` and the FDS lock. A thread in `Wait_Thread` is blocked until the other one has
ended, and a worker in `Lock` until the main thread comes to `Lock_Check`; nothing keeps the main thread
from waiting for a worker that waits for the main thread, nor two workers from waiting for each other. -/
namespace LuaTT.WaitDeadlock
open Sync Transition FdsLock WaitGraph Relation
set_option autoImplicit false

variable {W : Type}

/-! ## Joins -/

structure State (W : Type) where
  fds : FdsLock.State W
  /-- The worker whose end a thread waits for, in `LuaThreadInternal::waitThread`. -/
  joining : Tid W → Option W

inductive Act (W : Type)
  | fds (a : FdsLock.Act W)
  /-- `Wait_Thread(t)`, called by `v`. -/
  | wait (v : Tid W) (t : W)
  /-- `m_thread->join()` returns. -/
  | joined (v : Tid W)

/-- The thread that takes the step. -/
def actor : FdsLock.Act W → Tid W
  | .callLockCheck | .mainNotify | .mainTryLock | .mainLock | .mainUnlock => .main
  | .callLock w | .workerLock w | .workerWait w | .workerReacquire w | .callUnlock w | .finish w =>
    .worker w

/-- The thread runs Lua code: the script of a worker, or a handler that the main thread has called. -/
def RunsLua (s : FdsLock.State W) : Tid W → Prop
  | .main => s.main = .game
  | .worker w => s.Running w

instance (s : FdsLock.State W) : (v : Tid W) → Decidable (RunsLua s v)
  | .main => inferInstanceAs (Decidable (s.main = .game))
  | .worker w => inferInstanceAs (Decidable (s.Running w))

namespace State

/-- `v` is blocked in `Wait_Thread(u)`. -/
def WaitsFor (s : State W) (v u : Tid W) : Prop := ∃ t, s.joining v = some t ∧ u = .worker t

/-- The worker is blocked in `Lock`, and only a notify of `Lock_Check` will wake it. -/
def Asleep (s : State W) (u : W) : Prop := s.fds.fds.cond (.worker u) = .asleep

/-- The main thread does not wait, directly or through others, for a worker that needs its
`Lock_Check`, and no threads wait for each other in a circle. -/
structure DeadlockFree (s : State W) : Prop where
  main : ∀ u, TransGen s.WaitsFor .main (.worker u) → ¬ s.Asleep u
  acyclic : Acyclic s.WaitsFor

variable [DecidableEq W]

/-- A thread that joins itself gets an error; it is not blocked. -/
def step (s : State W) : Act W → Option (State W)
  | .fds a => if s.joining (actor a) = none then (s.fds.step a).map fun fds => { s with fds := fds }
    else none
  | .wait v t =>
    if RunsLua s.fds v ∧ s.joining v = none then
      if v = .worker t then some s else some { s with joining := Function.update s.joining v (some t) }
    else none
  | .joined v =>
    match s.joining v with
    | some t =>
      if s.fds.worker t = .finished then some { s with joining := Function.update s.joining v none }
      else none
    | none => none

end State

def initial : State W := ⟨FdsLock.initial, fun _ => none⟩

def system [DecidableEq W] : System (State W) (Act W) := ⟨fun s => s = initial, State.step⟩

/-! ## Waiting with care -/

/-- `Wait_Thread` is called for a worker that does not wait for the caller, and where the main thread
waits, not for one that needs it in `Lock`; and a worker goes to sleep in `Lock` only while the main
thread does not wait for it. -/
def Careful (s : State W) : Act W → Prop
  | .wait v t => v ≠ .worker t →
      ¬ ReflTransGen s.WaitsFor (.worker t) v ∧
        (ReflTransGen s.WaitsFor .main v → ∀ u, ReflTransGen s.WaitsFor (.worker t) (.worker u) →
          ¬ s.Asleep u)
  | .fds (.workerWait u) => ¬ TransGen s.WaitsFor .main (.worker u)
  | _ => True

section Steps
variable [DecidableEq W] {s s' : State W}

/-- Who sleeps after a step slept before it, or has just gone to sleep. -/
theorem asleep_step {f f' : FdsLock.State W} {a : FdsLock.Act W} {u : W} (hs : f.step a = some f')
    (hu : f'.fds.cond (.worker u) = .asleep) :
    f.fds.cond (.worker u) = .asleep ∨ a = .workerWait u := by
  cases a with
  | callLockCheck =>
    obtain ⟨_, rfl⟩ := FdsLock.State.step_callLockCheck.mp hs
    exact .inl hu
  | mainNotify =>
    obtain ⟨_, rfl⟩ := FdsLock.State.step_mainNotify.mp hs
    exact absurd hu (f.fds.notifyAll_awake _)
  | mainTryLock =>
    obtain ⟨_, ⟨_, rfl⟩ | ⟨_, rfl⟩⟩ := FdsLock.State.step_mainTryLock.mp hs <;> exact .inl hu
  | mainLock =>
    obtain ⟨_, _, rfl⟩ := FdsLock.State.step_mainLock.mp hs
    exact .inl hu
  | mainUnlock =>
    obtain ⟨_, _, rfl⟩ := FdsLock.State.step_mainUnlock.mp hs
    exact .inl hu
  | callLock w =>
    obtain ⟨_, rfl⟩ := FdsLock.State.step_callLock.mp hs
    exact .inl hu
  | workerLock w =>
    obtain ⟨_, _, rfl⟩ := FdsLock.State.step_workerLock.mp hs
    exact .inl hu
  | workerWait w =>
    obtain ⟨_, _, rfl⟩ := FdsLock.State.step_workerWait.mp hs
    by_cases hw : u = w
    · exact .inr (by rw [hw])
    · exact .inl (by simpa [hw] using hu)
  | workerReacquire w =>
    obtain ⟨_, _, _, rfl⟩ := FdsLock.State.step_workerReacquire.mp hs
    by_cases hw : u = w
    · simp [hw] at hu
    · exact .inl (by simpa [hw] using hu)
  | callUnlock w =>
    obtain ⟨_, ⟨_, rfl⟩ | ⟨_, rfl⟩⟩ := FdsLock.State.step_callUnlock.mp hs <;> exact .inl hu
  | finish w =>
    obtain ⟨_, rfl⟩ := FdsLock.State.step_finish.mp hs
    exact .inl hu

theorem step_fds {a : FdsLock.Act W} (hs : s.step (.fds a) = some s') :
    ∃ f', s.fds.step a = some f' ∧ s' = { s with fds := f' } := by
  simp only [State.step] at hs
  split_ifs at hs
  obtain ⟨f', hf, rfl⟩ := Option.map_eq_some_iff.mp hs
  exact ⟨f', hf, rfl⟩

theorem step_wait {v : Tid W} {t : W} (hs : s.step (.wait v t) = some s') :
    v = .worker t ∧ s' = s ∨ v ≠ .worker t ∧ s'.fds = s.fds ∧
      s'.WaitsFor = addEdge s.WaitsFor v (.worker t) := by
  simp only [State.step] at hs
  split_ifs at hs with hc hv
  · exact .inl ⟨hv, (Option.some.inj hs).symm⟩
  · obtain rfl := Option.some.inj hs
    refine .inr ⟨hv, rfl, funext fun x => funext fun y => propext ?_⟩
    by_cases hx : x = v
    · subst hx
      simp [State.WaitsFor, addEdge, hc.2]
    · simp [State.WaitsFor, addEdge, hx]

theorem step_joined {v : Tid W} (hs : s.step (.joined v) = some s') :
    s'.fds = s.fds ∧ s'.WaitsFor ≤ s.WaitsFor := by
  simp only [State.step] at hs
  split at hs
  · split_ifs at hs
    obtain rfl := Option.some.inj hs
    refine ⟨rfl, ?_⟩
    rintro x y ⟨t, ht, rfl⟩
    by_cases hx : x = v
    · simp [hx] at ht
    · exact ⟨t, by simpa [hx] using ht, rfl⟩
  · cases hs

theorem deadlockFree_step (h : s.DeadlockFree) {a : Act W} (hc : Careful s a)
    (hs : s.step a = some s') : s'.DeadlockFree := by
  cases a with
  | fds a =>
    obtain ⟨f', hf, rfl⟩ := step_fds hs
    refine ⟨fun u hu hasleep => ?_, h.acyclic⟩
    rcases asleep_step hf hasleep with hold | rfl
    · exact h.main u hu hold
    · exact hc hu
  | wait v t =>
    rcases step_wait hs with ⟨_, rfl⟩ | ⟨hv, hfds, hgraph⟩
    · exact h
    · obtain ⟨hback, hmain⟩ := hc hv
      refine ⟨fun u hu hasleep => ?_, ?_⟩
      · rw [State.Asleep, hfds] at hasleep
        rw [hgraph] at hu
        rcases transGen_addEdge.mp hu with hold | ⟨hmv, htu⟩
        · exact h.main u hold hasleep
        · exact hmain hmv u htu hasleep
      · rw [hgraph]
        exact (acyclic_addEdge h.acyclic).mpr hback
  | joined v =>
    obtain ⟨hfds, hle⟩ := step_joined hs
    refine ⟨fun u hu hasleep => ?_, h.acyclic.mono hle⟩
    rw [State.Asleep, hfds] at hasleep
    exact h.main u (TransGen.mono hle _ _ hu) hasleep

theorem careless_step (h : s.DeadlockFree) {a : Act W} (hc : ¬ Careful s a)
    (hs : s.step a = some s') : ¬ s'.DeadlockFree := by
  intro hfree
  cases a with
  | fds a =>
    cases a with
    | workerWait u =>
      obtain ⟨f', hf, rfl⟩ := step_fds hs
      obtain ⟨_, _, rfl⟩ := FdsLock.State.step_workerWait.mp hf
      have hwaits : TransGen s.WaitsFor .main (.worker u) := not_not.mp hc
      exact hfree.main u hwaits (by simp [State.Asleep])
    | _ => exact hc trivial
  | wait v t =>
    rcases step_wait hs with ⟨rfl, _⟩ | ⟨_, hfds, hgraph⟩
    · exact hc fun hne => absurd rfl hne
    · refine hc fun _ => ⟨?_, fun hmv u htu hasleep => ?_⟩
      · have hacyclic := hfree.acyclic
        rw [hgraph] at hacyclic
        exact (acyclic_addEdge h.acyclic).mp hacyclic
      · refine hfree.main u ?_ (by rwa [State.Asleep, hfds])
        rw [hgraph]
        exact transGen_addEdge.mpr (.inr ⟨hmv, htu⟩)
  | joined v => exact hc trivial

theorem reaches_deadlockFree (hr : system.Reaches Careful s) : s.DeadlockFree := by
  refine hr.invariant (I := State.DeadlockFree) ?_ fun _ _ _ h hc hs => deadlockFree_step h hc hs
  rintro s rfl
  have hnobody : ∀ v u : Tid W, ¬ initial.WaitsFor v u := by
    rintro v u ⟨t, ht, _⟩
    simp [initial] at ht
  constructor
  · intro u hu
    obtain ⟨x, hx, _⟩ := TransGen.head'_iff.mp hu
    exact absurd hx (hnobody _ _)
  · intro v hv
    obtain ⟨x, hx, _⟩ := TransGen.head'_iff.mp hv
    exact hnobody _ _ hx

end Steps

/-! ## Runs -/

/-- **Waiting does not deadlock.** It does not in careful runs, and the first step without care makes a
deadlock. -/
theorem waiting_deadlock_free [DecidableEq W] :
    (∀ s : State W, system.Reaches Careful s → s.DeadlockFree) ∧
      ∀ (s s' : State W) (a : Act W), system.Reaches Careful s → s.step a = some s' →
        ¬ Careful s a → ¬ s'.DeadlockFree :=
  ⟨fun _ hr => reaches_deadlockFree hr, fun _ _ _ hr hs hc => careless_step (reaches_deadlockFree hr) hc hs⟩

/-- The main thread waits for a worker that is in its script. -/
theorem waiting_deadlock_free_main : ∃ s : State Unit,
    system.exec initial [.wait .main ()] = some s ∧ s.DeadlockFree := by
  have hstart : system.Reaches Careful (initial : State Unit) := .start rfl
  have hnobody : ∀ v u : Tid Unit, ¬ initial.WaitsFor v u := by
    rintro v u ⟨t, ht, _⟩
    simp [initial] at ht
  have hwait := hstart.next (a := Act.wait .main ()) (fun _ => ⟨fun hback => ?_, fun _ u _ => ?_⟩) rfl
  · exact ⟨_, rfl, waiting_deadlock_free.1 _ hwait⟩
  · rcases hback.cases_head with h | ⟨x, hx, _⟩
    · cases h
    · exact hnobody _ _ hx
  · simp [State.Asleep, initial, FdsLock.initial, Monitor.idle]

/-- A worker calls `Lock`, and a handler of the main thread `Wait_Thread` for it; two workers wait for
each other. -/
theorem waiting_deadlocks :
    (¬ ∀ s : State Unit, system.Reaches System.anyStep s →
      ∀ u, TransGen s.WaitsFor .main (.worker u) → ¬ s.Asleep u) ∧
    ¬ ∀ s : State Bool, system.Reaches System.anyStep s → Acyclic s.WaitsFor := by
  constructor
  · intro h
    have hstart : system.Reaches System.anyStep (initial : State Unit) := .start rfl
    have hend := hstart.exec [.fds (.callLock ()), .fds (.workerLock ()), .fds (.workerWait ()),
      .wait .main ()] (System.along_anyStep _ _) rfl
    exact h _ hend () (.single ⟨(), rfl, rfl⟩) rfl
  · intro h
    have hstart : system.Reaches System.anyStep (initial : State Bool) := .start rfl
    have hend := hstart.exec [.wait (.worker false) true, .wait (.worker true) false]
      (System.along_anyStep _ _) rfl
    exact h _ hend (.worker false) (.tail (.single ⟨true, rfl, rfl⟩) ⟨false, rfl, rfl⟩)

end LuaTT.WaitDeadlock
