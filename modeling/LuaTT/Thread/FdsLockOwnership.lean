import LuaTT.Thread.FdsLockExclusion

/-! Who owns `m_lockerFDS` when scripts call `Lock` and `Unlock` as they like and end where they
like. Neither `Lua_Unlock` nor the exit path of `executeThread` asks for the owner, so it is up to
the script to give back what it took: an `Unlock` too many releases a mutex of somebody else, and an
error between `Lock` and `Unlock` leaves the mutex to a thread that no longer exists. -/
namespace LuaTT.FdsLock
open Sync Transition State
set_option autoImplicit false

variable {W : Type}

/-! ## What a script must keep to -/

/-- `Unlock` is called after a `Lock` that has returned, and the script does not end, by a return
or by an error, between the two. -/
def Disciplined (s : State W) : Act W → Prop
  | .callUnlock w => s.worker w = .locked
  | .finish w => s.worker w = .script
  | _ => True

instance (s : State W) : (a : Act W) → Decidable (Disciplined s a)
  | .callUnlock w => inferInstanceAs (Decidable (s.worker w = .locked))
  | .finish w => inferInstanceAs (Decidable (s.worker w = .script))
  | .callLockCheck | .mainNotify | .mainTryLock | .mainLock | .mainUnlock | .callLock _ | .workerLock _
  | .workerWait _ | .workerReacquire _ => isTrue trivial

/-- Nobody has unlocked the mutex without owning it, who is about to unlock it owns it, and no
worker that has ended owns it. -/
structure OwnerUnlocks (s : State W) : Prop where
  defined : s.undefined = false
  main : s.main = .unlock → s.fds.owner = some .main
  wait : ∀ w, s.worker w = .wait → s.fds.owner = some (.worker w)
  finished : ∀ w, s.worker w = .finished → s.fds.owner ≠ some (.worker w)

/-! ## The invariant of disciplined runs -/

/-- A worker that owns the mutex is inside `Lock`, or between `Lock` and `Unlock`. -/
def Held (s : State W) : Prop :=
  ∀ w, s.fds.owner = some (.worker w) →
    s.worker w = .lock ∨ s.worker w = .wait ∨ s.worker w = .locked

theorem Disciplined.unlock {s : State W} {a : Act W} (hd : Disciplined s a) (w : W)
    (ha : a = .callUnlock w) : s.worker w = .locked := by
  subst ha
  exact hd

theorem ownerUnlocks_of_held {s : State W} (ho : Owned s) (hh : Held s)
    (hu : s.undefined = false) : OwnerUnlocks s := by
  refine ⟨hu, ho.main, fun w hw => ho.worker w (.inl hw), fun w hw hc => ?_⟩
  have hin := hh w hc
  simp [hw] at hin

variable [DecidableEq W]

/-- Worker `w` moves to `pc`; if it owns the mutex afterwards, it is where an owner may be. -/
theorem Held.setWorker {s : State W} (h : Held s) {w : W} {pc : WorkerPc} {fds : Monitor (Tid W)}
    (hothers : ∀ v, v ≠ w → fds.owner = some (.worker v) → s.fds.owner = some (.worker v))
    (hown : fds.owner = some (.worker w) → pc = .lock ∨ pc = .wait ∨ pc = .locked) :
    Held ({ s with fds := fds }.setWorker w pc) := by
  intro v hv
  by_cases hvw : v = w
  · subst hvw
    simpa using hown hv
  · rw [setWorker_ne _ _ hvw]
    exact h v (hothers v hvw hv)

theorem held_step {s s' : State W} {a : Act W} (h : Held s) (hd : Disciplined s a)
    (hs : s.step a = some s') : Held s' := by
  cases a with
  | callLockCheck =>
    obtain ⟨_, rfl⟩ := step_callLockCheck.mp hs
    exact h
  | mainNotify =>
    obtain ⟨_, rfl⟩ := step_mainNotify.mp hs
    exact h
  | mainTryLock =>
    obtain ⟨_, ⟨_, rfl⟩ | ⟨_, rfl⟩⟩ := step_mainTryLock.mp hs
    · exact fun w hw => by simp at hw
    · exact h
  | mainLock =>
    obtain ⟨_, _, rfl⟩ := step_mainLock.mp hs
    exact fun w hw => by simp at hw
  | mainUnlock =>
    obtain ⟨_, _, rfl⟩ := step_mainUnlock.mp hs
    exact fun w hw => by simp at hw
  | callLock w =>
    obtain ⟨_, rfl⟩ := step_callLock.mp hs
    exact h.setWorker (fun _ _ hv => hv) fun _ => .inl rfl
  | workerLock w =>
    obtain ⟨_, _, rfl⟩ := step_workerLock.mp hs
    exact h.setWorker (fun v hv ho => absurd (by simpa using ho.symm) hv) fun _ => .inr (.inl rfl)
  | workerWait w =>
    obtain ⟨_, _, rfl⟩ := step_workerWait.mp hs
    exact h.setWorker (fun v _ ho => by simp at ho) fun ho => by simp at ho
  | workerReacquire w =>
    obtain ⟨_, _, _, rfl⟩ := step_workerReacquire.mp hs
    exact h.setWorker (fun v hv ho => absurd (by simpa using ho.symm) hv) fun _ => .inr (.inr rfl)
  | callUnlock w =>
    obtain ⟨_, ⟨_, rfl⟩ | ⟨_, rfl⟩⟩ := step_callUnlock.mp hs
    · exact h.setWorker (fun v _ ho => by simp at ho) fun ho => by simp at ho
    · exact h
  | finish w =>
    obtain ⟨_, rfl⟩ := step_finish.mp hs
    apply h.setWorker (fun _ _ ho => ho)
    intro ho
    -- a script that ends outside `Lock` and `Unlock` owns nothing
    have hin := h w ho
    have hscript : s.worker w = .script := hd
    simp [hscript] at hin

theorem defined_step {s s' : State W} {a : Act W} (ho : Owned s) (hu : s.undefined = false)
    (hd : Disciplined s a) (hs : s.step a = some s') : s'.undefined = false := by
  cases a with
  | callUnlock w =>
    obtain ⟨_, ⟨_, rfl⟩ | ⟨hne, rfl⟩⟩ := step_callUnlock.mp hs
    · exact hu
    · exact absurd (ho.worker w (.inr hd)) hne
  | callLockCheck => obtain ⟨_, rfl⟩ := step_callLockCheck.mp hs; exact hu
  | mainNotify => obtain ⟨_, rfl⟩ := step_mainNotify.mp hs; exact hu
  | mainTryLock => obtain ⟨_, ⟨_, rfl⟩ | ⟨_, rfl⟩⟩ := step_mainTryLock.mp hs <;> exact hu
  | mainLock => obtain ⟨_, _, rfl⟩ := step_mainLock.mp hs; exact hu
  | mainUnlock => obtain ⟨_, _, rfl⟩ := step_mainUnlock.mp hs; exact hu
  | callLock w => obtain ⟨_, rfl⟩ := step_callLock.mp hs; exact hu
  | workerLock w => obtain ⟨_, _, rfl⟩ := step_workerLock.mp hs; exact hu
  | workerWait w => obtain ⟨_, _, rfl⟩ := step_workerWait.mp hs; exact hu
  | workerReacquire w => obtain ⟨_, _, _, rfl⟩ := step_workerReacquire.mp hs; exact hu
  | finish w => obtain ⟨_, rfl⟩ := step_finish.mp hs; exact hu

theorem disciplined_invariant {s : State W} (hr : system.Reaches Disciplined s) :
    Owned s ∧ Held s ∧ s.undefined = false := by
  refine hr.invariant (I := fun s => Owned s ∧ Held s ∧ s.undefined = false) ?_
    fun s a s' h hd hs => ⟨owned_step h.1 hd.unlock hs, held_step h.2.1 hd hs,
      defined_step h.1 h.2.2 hd hs⟩
  rintro s rfl
  exact ⟨owned_initial, fun w hw => by simp [initial, Monitor.idle] at hw, rfl⟩

/-! ## A step that does not keep to it -/

theorem undisciplined_step {s s' : State W} {a : Act W} (ho : Owned s) (hh : Held s)
    (hs : s.step a = some s') (hd : ¬ Disciplined s a) : ¬ OwnerUnlocks s' := by
  intro hx
  cases a with
  | callUnlock w =>
    obtain ⟨hr, ⟨hown, _⟩ | ⟨_, rfl⟩⟩ := step_callUnlock.mp hs
    · have hscript : s.worker w = .script := hr.resolve_right hd
      have hin := hh w hown
      simp [hscript] at hin
    · have hu := hx.defined
      simp at hu
  | finish w =>
    obtain ⟨hr, rfl⟩ := step_finish.mp hs
    have hlocked : s.worker w = .locked := hr.resolve_left hd
    exact hx.finished w (by simp) (ho.worker w (.inr hlocked))
  | _ => exact hd trivial

/-- **Only the owner unlocks.** It holds in every run of disciplined scripts, and the first step out
of discipline ends it. -/
theorem owner_unlocks :
    (∀ s : State W, system.Reaches Disciplined s → OwnerUnlocks s) ∧
      ∀ (s s' : State W) (a : Act W), system.Reaches Disciplined s → s.step a = some s' →
        ¬ Disciplined s a → ¬ OwnerUnlocks s' := by
  constructor
  · intro s hr
    obtain ⟨ho, hh, hu⟩ := disciplined_invariant hr
    exact ownerUnlocks_of_held ho hh hu
  · intro s s' a hr hs hd
    obtain ⟨ho, hh, _⟩ := disciplined_invariant hr
    exact undisciplined_step ho hh hs hd

/-- `Lock` and `Unlock` in turn around a `Lock_Check`, then a return. -/
def lockedOnce : List (Act Unit) :=
  [.callLock (), .workerLock (), .workerWait (), .callLockCheck, .mainNotify, .workerReacquire (),
    .callUnlock (), .finish ()]

theorem owner_unlocks_lockedOnce :
    ∃ s : State Unit, system.exec initial lockedOnce = some s ∧ s.worker () = .finished ∧
      OwnerUnlocks s := by
  refine ⟨_, rfl, rfl, owner_unlocks.1 _ ?_⟩
  have hstart : system.Reaches Disciplined (initial : State Unit) := .start rfl
  exact hstart.exec lockedOnce (by decide) rfl

/-! ## The order the code does not ask for -/

/-- `Lock()` and an error: `Lock_Check` meets an owner that has ended. -/
def errorWhileLocked : List (Act Unit) :=
  [.callLock (), .workerLock (), .workerWait (), .callLockCheck, .mainNotify, .workerReacquire (),
    .finish (), .mainTryLock]

/-- `Unlock()` alone, and an error after `Lock()`. -/
theorem owner_unlocks_fails :
    (¬ ∀ s : State Unit, system.Reaches System.anyStep s → s.undefined = false) ∧
      ¬ ∀ s : State Unit, system.Reaches System.anyStep s →
        ∀ w, s.worker w = .finished → s.fds.owner ≠ some (.worker w) := by
  have hstart : system.Reaches System.anyStep (initial : State Unit) := .start rfl
  constructor
  · intro h
    have hend := h _ (hstart.exec [.callUnlock ()] (System.along_anyStep _ _) rfl)
    simp at hend
  · intro h
    have hend := hstart.exec errorWhileLocked (System.along_anyStep _ _) rfl
    exact h _ hend () rfl rfl

end LuaTT.FdsLock
