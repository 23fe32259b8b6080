import LuaTT.Thread.FdsLock
import Mathlib.Data.Fintype.Basic

/-! When the FDS lock keeps workers and game code apart. `Lock_Check` wakes the sleeping workers and
then competes with them for `m_lockerFDS`; if it wins the race it leaves a woken worker behind, and
that worker returns from `Lua_Lock` as soon as the main thread is back in game code. -/
namespace LuaTT.FdsLock
open Sync Transition State
set_option autoImplicit false

variable {W : Type}

/-! ## Who owns the mutex, in every paired run -/

structure Owned (s : State W) : Prop where
  worker : ∀ w, s.worker w = .wait ∨ s.worker w = .locked → s.fds.owner = some (.worker w)
  main : s.main = .unlock → s.fds.owner = some .main
  notified : ∀ w, s.fds.cond (.worker w) ≠ .awake → s.worker w = .waiting

theorem owned_initial : Owned (initial : State W) :=
  ⟨fun w h => by simp [initial] at h, fun h => by simp [initial] at h,
    fun w h => absurd rfl h⟩

theorem Owned.not_awake {s : State W} (h : Owned s) {w : W} (hr : s.Running w) :
    s.fds.cond (.worker w) = .awake := by
  by_contra hc
  have hw := h.notified w hc
  rcases hr with hr | hr <;> simp [hw] at hr

theorem Paired.unlock {s : State W} {a : Act W} (hp : Paired s a) (w : W)
    (ha : a = .callUnlock w) : s.worker w = .locked := by
  subst ha
  exact hp

variable [DecidableEq W]

/-- A worker takes the step to `pc`, with the mutex afterwards in `fds`: the others keep what they
own as long as the mutex was free, or the worker's own. -/
theorem Owned.setWorker {s : State W} (h : Owned s) {w : W} {pc : WorkerPc} {fds : Monitor (Tid W)}
    (hfree : s.fds.owner = none ∨ s.fds.owner = some (.worker w) ∨ fds.owner = s.fds.owner)
    (hcond : ∀ v, v ≠ w → fds.cond (.worker v) = s.fds.cond (.worker v))
    (hown : pc = .wait ∨ pc = .locked → fds.owner = some (.worker w))
    (hwait : fds.cond (.worker w) ≠ .awake → pc = .waiting) :
    Owned ({ s with fds := fds }.setWorker w pc) := by
  refine ⟨fun v hv => ?_, fun hm => ?_, fun v hv => ?_⟩
  · by_cases hvw : v = w
    · subst hvw
      exact hown (by simpa using hv)
    · rw [setWorker_ne _ _ hvw] at hv
      have ho := h.worker v hv
      rcases hfree with hf | hf | hf
      · simp [ho] at hf
      · simp [ho, hvw] at hf
      · exact hf.trans ho
  · have ho := h.main hm
    rcases hfree with hf | hf | hf
    · simp [ho] at hf
    · simp [ho] at hf
    · exact hf.trans ho
  · by_cases hvw : v = w
    · subst hvw
      simpa using hwait hv
    · rw [setWorker_ne _ _ hvw]
      exact h.notified v (by rwa [setWorker_fds, hcond v hvw] at hv)

/-- It is enough that a worker calls `Unlock` only after its `Lock` has returned. -/
theorem owned_step {s s' : State W} {a : Act W} (h : Owned s)
    (hu : ∀ w, a = .callUnlock w → s.worker w = .locked) (hs : s.step a = some s') : Owned s' := by
  cases a with
  | callLockCheck =>
    obtain ⟨_, rfl⟩ := step_callLockCheck.mp hs
    exact ⟨h.worker, fun hm => by simp at hm, h.notified⟩
  | mainNotify =>
    obtain ⟨_, rfl⟩ := step_mainNotify.mp hs
    refine ⟨h.worker, fun hm => by simp at hm, fun w hw => h.notified w fun ha => hw ?_⟩
    simp [Monitor.notifyAll, ha]
  | mainTryLock =>
    obtain ⟨_, ⟨ho, rfl⟩ | ⟨_, rfl⟩⟩ := step_mainTryLock.mp hs
    · refine ⟨fun w hw => ?_, fun _ => rfl, h.notified⟩
      have hc := h.worker w hw
      simp [ho] at hc
    · exact ⟨h.worker, fun hm => by simp at hm, h.notified⟩
  | mainLock =>
    obtain ⟨_, ho, rfl⟩ := step_mainLock.mp hs
    refine ⟨fun w hw => ?_, fun _ => rfl, h.notified⟩
    have hc := h.worker w hw
    simp [ho] at hc
  | mainUnlock =>
    obtain ⟨_, ho, rfl⟩ := step_mainUnlock.mp hs
    refine ⟨fun w hw => ?_, fun hm => by simp at hm, h.notified⟩
    have hc := h.worker w hw
    simp [ho] at hc
  | callLock w =>
    obtain ⟨hr, rfl⟩ := step_callLock.mp hs
    exact h.setWorker (.inr (.inr rfl)) (fun _ _ => rfl) (by simp)
      fun hc => absurd (h.not_awake hr) hc
  | workerLock w =>
    obtain ⟨hw, ho, rfl⟩ := step_workerLock.mp hs
    refine h.setWorker (.inl ho) (fun _ _ => rfl) (fun _ => rfl) fun hc => ?_
    have hn := h.notified w hc
    simp [hw] at hn
  | workerWait w =>
    obtain ⟨_, ho, rfl⟩ := step_workerWait.mp hs
    exact h.setWorker (.inr (.inl ho)) (fun v hv => by simp [hv]) (by simp) fun _ => rfl
  | workerReacquire w =>
    obtain ⟨_, _, ho, rfl⟩ := step_workerReacquire.mp hs
    exact h.setWorker (.inl ho) (fun v hv => by simp [hv]) (fun _ => rfl) (by simp)
  | callUnlock w =>
    obtain ⟨hr, ⟨ho, rfl⟩ | ⟨ho, rfl⟩⟩ := step_callUnlock.mp hs
    · exact h.setWorker (.inr (.inl ho)) (fun _ _ => rfl) (by simp)
        fun hc => absurd (h.not_awake hr) hc
    · exact absurd (h.worker w (.inr (hu w rfl))) ho
  | finish w =>
    obtain ⟨hr, rfl⟩ := step_finish.mp hs
    exact h.setWorker (.inr (.inr rfl)) (fun _ _ => rfl) (by simp)
      fun hc => absurd (h.not_awake hr) hc

theorem reaches_owned {s : State W} (hr : system.Reaches Paired s) : Owned s :=
  hr.invariant (I := Owned) (fun _ hi => hi ▸ owned_initial) fun _ _ _ h hp hs =>
    owned_step h hp.unlock hs

/-! ## Runs in which the main thread leaves no woken worker behind -/

/-- `Lock_Check` executes its `m_lockerFDS.unlock()` only when every worker its `notify_all` woke
has the mutex behind it. -/
def NoStraggler (s : State W) : Act W → Prop
  | .mainUnlock => ∀ w, s.fds.cond (.worker w) ≠ .notified
  | _ => True

instance [Fintype W] (s : State W) : (a : Act W) → Decidable (NoStraggler s a)
  | .mainUnlock => inferInstanceAs (Decidable (∀ w, s.fds.cond (.worker w) ≠ .notified))
  | .callLockCheck | .mainNotify | .mainTryLock | .mainLock | .callLock _ | .workerLock _ | .workerWait _
  | .workerReacquire _ | .callUnlock _ | .finish _ => isTrue trivial

/-- While the main thread is outside `Lock_Check`, or has not notified yet, no worker is past its
wait or about to be. -/
def Settled (s : State W) : Prop :=
  s.main = .game ∨ s.main = .notify →
    ∀ w, s.worker w ≠ .locked ∧ s.fds.cond (.worker w) ≠ .notified

theorem settled_step {s s' : State W} {a : Act W} (ho : Owned s) (h : Settled s)
    (hn : NoStraggler s a) (hs : s.step a = some s') : Settled s' := by
  cases a with
  | callLockCheck =>
    obtain ⟨hm, rfl⟩ := step_callLockCheck.mp hs
    exact fun _ => h (.inl hm)
  | mainNotify =>
    obtain ⟨_, rfl⟩ := step_mainNotify.mp hs
    intro hm
    simp at hm
  | mainTryLock =>
    obtain ⟨_, ⟨_, rfl⟩ | ⟨_, rfl⟩⟩ := step_mainTryLock.mp hs <;> (intro hm; simp at hm)
  | mainLock =>
    obtain ⟨_, _, rfl⟩ := step_mainLock.mp hs
    intro hm
    simp at hm
  | mainUnlock =>
    obtain ⟨_, hmain, rfl⟩ := step_mainUnlock.mp hs
    refine fun _ w => ⟨fun hw => ?_, hn w⟩
    have hc := ho.worker w (.inr hw)
    simp [hmain] at hc
  | callLock w =>
    obtain ⟨_, rfl⟩ := step_callLock.mp hs
    refine fun hm v => ⟨?_, (h hm v).2⟩
    by_cases hv : v = w
    · subst hv
      simp
    · simpa [setWorker_ne _ _ hv] using (h hm v).1
  | workerLock w =>
    obtain ⟨_, _, rfl⟩ := step_workerLock.mp hs
    refine fun hm v => ⟨?_, (h hm v).2⟩
    by_cases hv : v = w
    · subst hv
      simp
    · simpa [setWorker_ne _ _ hv] using (h hm v).1
  | workerWait w =>
    obtain ⟨_, _, rfl⟩ := step_workerWait.mp hs
    intro hm v
    by_cases hv : v = w
    · subst hv
      simp
    · simpa [setWorker_ne _ _ hv, hv] using h hm v
  | workerReacquire w =>
    obtain ⟨_, hc, _, rfl⟩ := step_workerReacquire.mp hs
    exact fun hm => absurd hc (h hm w).2
  | callUnlock w =>
    obtain ⟨_, ⟨_, rfl⟩ | ⟨_, rfl⟩⟩ := step_callUnlock.mp hs
    · refine fun hm v => ⟨?_, (h hm v).2⟩
      by_cases hv : v = w
      · subst hv
        simp
      · simpa [setWorker_ne _ _ hv] using (h hm v).1
    · exact h
  | finish w =>
    obtain ⟨_, rfl⟩ := step_finish.mp hs
    refine fun hm v => ⟨?_, (h hm v).2⟩
    by_cases hv : v = w
    · subst hv
      simp
    · simpa [setWorker_ne _ _ hv] using (h hm v).1

theorem reaches_settled {s : State W}
    (hr : system.Reaches (fun s a => Paired s a ∧ NoStraggler s a) s) : Owned s ∧ Settled s := by
  refine hr.invariant (I := fun s => Owned s ∧ Settled s) ?_ fun s a s' h hok hs =>
    ⟨owned_step h.1 hok.1.unlock hs, settled_step h.1 h.2 hok.2 hs⟩
  rintro s rfl
  exact ⟨owned_initial, fun _ w => ⟨by simp [initial], by simp [initial, Monitor.idle]⟩⟩

theorem straggler_breaks_exclusion {s s' : State W} {w : W} (ho : Owned s)
    (hs : s.step .mainUnlock = some s') (hw : s.fds.cond (.worker w) = .notified) :
    ∃ t, s'.step (.workerReacquire w) = some t ∧ ¬ Exclusive t := by
  obtain ⟨_, _, rfl⟩ := step_mainUnlock.mp hs
  have hwait := ho.notified w (by simp [hw])
  refine ⟨_, step_workerReacquire.mpr ⟨hwait, hw, rfl, rfl⟩, fun hx => ?_⟩
  exact hx w (by simp) rfl

/-- **Exclusion of workers and game code.** It holds in every run in which `Lock_Check` never
releases the mutex over a woken worker, and each such release can be followed by its loss. -/
theorem lock_excludes_game_code :
    (∀ s : State W, system.Reaches (fun s a => Paired s a ∧ NoStraggler s a) s → Exclusive s) ∧
      ∀ (s s' : State W) (a : Act W), system.Reaches Paired s → Paired s a →
        s.step a = some s' → ¬ NoStraggler s a →
        ∃ b t, Paired s' b ∧ s'.step b = some t ∧ ¬ Exclusive t := by
  constructor
  · intro s hr w hw hm
    exact ((reaches_settled hr).2 (.inl hm) w).1 hw
  · intro s s' a hr _ hs hn
    cases a with
    | mainUnlock =>
      obtain ⟨w, hw⟩ : ∃ w, s.fds.cond (.worker w) = .notified := by
        simpa only [NoStraggler, not_forall, not_not] using hn
      obtain ⟨t, ht, hx⟩ := straggler_breaks_exclusion (reaches_owned hr) hs hw
      exact ⟨.workerReacquire w, t, trivial, ht, hx⟩
    | _ => exact absurd trivial hn

/-- A worker wins the race: it holds the mutex, and the main thread hangs in `Lock_Check`. -/
theorem lock_excludes_game_code_race_won :
    ∃ s : State Unit, system.exec initial [.callLock (), .workerLock (), .workerWait (),
        .callLockCheck, .mainNotify, .workerReacquire (), .mainTryLock] = some s ∧
      s.worker () = .locked ∧ s.main = .lock ∧ Exclusive s := by
  refine ⟨_, rfl, rfl, rfl, lock_excludes_game_code.1 _ ?_⟩
  have hstart : system.Reaches (fun s a => Paired s a ∧ NoStraggler s a)
    (initial : State Unit) := .start rfl
  exact hstart.exec [.callLock (), .workerLock (), .workerWait (), .callLockCheck, .mainNotify,
    .workerReacquire (), .mainTryLock] (by decide) rfl

/-! ## The race, with one worker -/

/-- A worker sleeps in `Lua_Lock`; the main thread notifies it and wins the race for the mutex. -/
def raceLost : List (Act Unit) :=
  [.callLock (), .workerLock (), .workerWait (), .callLockCheck, .mainNotify, .mainTryLock,
    .mainUnlock, .workerReacquire ()]

theorem lock_exclusion_race : ¬ ∀ s : State Unit, system.Reaches Paired s → Exclusive s := by
  intro h
  have hstart : system.Reaches Paired (initial : State Unit) := .start rfl
  have hend := hstart.exec raceLost (by decide) rfl
  exact h _ hend () rfl rfl

end LuaTT.FdsLock
