import LuaTT.Library.Monitor
import LuaTT.Library.Transition

/-! The FDS lock: `LuaThread::Lua_Lock`, `Lua_Unlock` and `Lock_Check` over `m_lockerFDS` and
`m_lockCheck`, interleaved step by step. The main thread alternates between `Lock_Check` (called by
`LuaManager::Call_Think_Hook`) and game code; a worker is the Lua code of one `executeThread`. -/
namespace LuaTT.FdsLock
open Sync Transition
set_option autoImplicit false

/-! ## Threads and where they stand -/

inductive Tid (W : Type)
  | main
  | worker (w : W)
  deriving DecidableEq

/-- The main thread in `Lock_Check`, before the statement named, or outside it. -/
inductive MainPc
  | game
  | notify
  | tryLock
  | lock
  | unlock
  deriving DecidableEq, Repr

/-- A worker in its script, or inside `Lua_Lock` before the statement named. -/
inductive WorkerPc
  | script
  | lock
  | wait
  | waiting
  | locked
  | finished
  deriving DecidableEq, Repr

structure State (W : Type) where
  /-- `m_lockerFDS` with `m_lockCheck`. -/
  fds : Monitor (Tid W)
  main : MainPc
  worker : W → WorkerPc
  /-- A thread has unlocked `m_lockerFDS` without owning it. -/
  undefined : Bool

/-- The atomic steps: calls, and the statements of the three functions. -/
inductive Act (W : Type)
  | callLockCheck
  | mainNotify
  | mainTryLock
  | mainLock
  | mainUnlock
  | callLock (w : W)
  | workerLock (w : W)
  | workerWait (w : W)
  | workerReacquire (w : W)
  | callUnlock (w : W)
  | finish (w : W)

variable {W : Type} [DecidableEq W]

namespace State

def setWorker (s : State W) (w : W) (pc : WorkerPc) : State W :=
  { s with worker := Function.update s.worker w pc }

@[simp] theorem setWorker_fds (s : State W) (w : W) (pc : WorkerPc) :
    (s.setWorker w pc).fds = s.fds := rfl

@[simp] theorem setWorker_main (s : State W) (w : W) (pc : WorkerPc) :
    (s.setWorker w pc).main = s.main := rfl

@[simp] theorem setWorker_self (s : State W) (w : W) (pc : WorkerPc) :
    (s.setWorker w pc).worker w = pc := by simp [setWorker]

theorem setWorker_ne (s : State W) {w v : W} (pc : WorkerPc) (h : v ≠ w) :
    (s.setWorker w pc).worker v = s.worker v := by simp [setWorker, h]

/-! ## The step function -/

/-- `LuaThread::Lock_Check`. -/
def lockCheck (s : State W) : Act W → Option (State W)
  | .callLockCheck => if s.main = .game then some { s with main := .notify } else none
  | .mainNotify =>
    if s.main = .notify then some { s with main := .tryLock, fds := s.fds.notifyAll } else none
  | .mainTryLock =>
    if s.main = .tryLock then
      match s.fds.tryLock .main with
      | (true, fds) => some { s with main := .unlock, fds := fds }
      | (false, _) => some { s with main := .lock }
    else none
  | .mainLock =>
    if s.main = .lock then
      (s.fds.lock .main).map fun fds => { s with main := .unlock, fds := fds }
    else none
  | .mainUnlock =>
    if s.main = .unlock then
      (s.fds.unlock .main).map fun fds => { s with main := .game, fds := fds }
    else none
  | _ => none

/-- The Lua code of a worker runs: it is not inside `Lua_Lock` and has not ended. -/
def Running (s : State W) (w : W) : Prop := s.worker w = .script ∨ s.worker w = .locked

instance (s : State W) (w : W) : Decidable (s.Running w) :=
  inferInstanceAs (Decidable (_ ∨ _))

/-- `LuaThread::Lua_Lock` and `Lua_Unlock`, called in any order. -/
def workerStep (s : State W) : Act W → Option (State W)
  | .callLock w => if s.Running w then some (s.setWorker w .lock) else none
  | .workerLock w =>
    if s.worker w = .lock then
      (s.fds.lock (.worker w)).map fun fds => { s with fds := fds }.setWorker w .wait
    else none
  | .workerWait w =>
    if s.worker w = .wait then
      (s.fds.wait (.worker w)).map fun fds => { s with fds := fds }.setWorker w .waiting
    else none
  | .workerReacquire w =>
    if s.worker w = .waiting then
      (s.fds.reacquire (.worker w)).map fun fds => { s with fds := fds }.setWorker w .locked
    else none
  | .callUnlock w =>
    if s.Running w then
      match s.fds.unlock (.worker w) with
      | some fds => some ({ s with fds := fds }.setWorker w .script)
      | none => some { s with undefined := true }
    else none
  | .finish w => if s.Running w then some (s.setWorker w .finished) else none
  | _ => none

def step (s : State W) (a : Act W) : Option (State W) := s.lockCheck a <|> s.workerStep a

/-! ## What each step can do -/

section Steps
variable {s s' : State W} {w : W}
attribute [local simp] step lockCheck workerStep

theorem step_callLockCheck :
    s.step .callLockCheck = some s' ↔ s.main = .game ∧ s' = { s with main := .notify } := by
  by_cases h : s.main = .game <;> simp [h, eq_comm]

theorem step_mainNotify :
    s.step .mainNotify = some s' ↔
      s.main = .notify ∧ s' = { s with main := .tryLock, fds := s.fds.notifyAll } := by
  by_cases h : s.main = .notify <;> simp [h, eq_comm]

theorem step_mainTryLock :
    s.step .mainTryLock = some s' ↔ s.main = .tryLock ∧
      (s.fds.owner = none ∧ s' = { s with main := .unlock, fds := ⟨some .main, s.fds.cond⟩ } ∨
        s.fds.owner ≠ none ∧ s' = { s with main := .lock }) := by
  by_cases h : s.main = .tryLock
  · by_cases ho : s.fds.owner = none <;>
      simp [Monitor.tryLock, h, ho, eq_comm]
  · simp [h]

theorem step_mainLock :
    s.step .mainLock = some s' ↔ s.main = .lock ∧ s.fds.owner = none ∧
      s' = { s with main := .unlock, fds := ⟨some .main, s.fds.cond⟩ } := by
  by_cases h : s.main = .lock
  · simp [h, Monitor.lock_eq_some, and_assoc, eq_comm (a := s')]
  · simp [h]

theorem step_mainUnlock :
    s.step .mainUnlock = some s' ↔ s.main = .unlock ∧ s.fds.owner = some .main ∧
      s' = { s with main := .game, fds := ⟨none, s.fds.cond⟩ } := by
  by_cases h : s.main = .unlock
  · simp [h, Monitor.unlock_eq_some, and_assoc, eq_comm (a := s')]
  · simp [h]

theorem step_callLock :
    s.step (.callLock w) = some s' ↔ s.Running w ∧ s' = s.setWorker w .lock := by
  by_cases h : s.Running w <;> simp [h, eq_comm]

theorem step_workerLock :
    s.step (.workerLock w) = some s' ↔ s.worker w = .lock ∧ s.fds.owner = none ∧
      s' = { s with fds := ⟨some (.worker w), s.fds.cond⟩ }.setWorker w .wait := by
  by_cases h : s.worker w = .lock
  · simp [h, Monitor.lock_eq_some, and_assoc, eq_comm (a := s')]
  · simp [h]

theorem step_workerWait :
    s.step (.workerWait w) = some s' ↔ s.worker w = .wait ∧ s.fds.owner = some (.worker w) ∧
      s' = { s with fds := ⟨none, Function.update s.fds.cond (.worker w) .asleep⟩ }.setWorker
        w .waiting := by
  by_cases h : s.worker w = .wait
  · simp [h, Monitor.wait_eq_some, and_assoc, eq_comm (a := s')]
  · simp [h]

theorem step_workerReacquire :
    s.step (.workerReacquire w) = some s' ↔ s.worker w = .waiting ∧
      s.fds.cond (.worker w) = .notified ∧ s.fds.owner = none ∧
      s' = { s with fds := ⟨some (.worker w), Function.update s.fds.cond (.worker w) .awake⟩ }.setWorker
        w .locked := by
  by_cases h : s.worker w = .waiting
  · simp [h, Monitor.reacquire_eq_some, and_assoc, eq_comm (a := s')]
  · simp [h]

theorem step_callUnlock :
    s.step (.callUnlock w) = some s' ↔ s.Running w ∧
      (s.fds.owner = some (.worker w) ∧
          s' = { s with fds := ⟨none, s.fds.cond⟩ }.setWorker w .script ∨
        s.fds.owner ≠ some (.worker w) ∧ s' = { s with undefined := true }) := by
  by_cases h : s.Running w
  · by_cases ho : s.fds.owner = some (.worker w) <;>
      simp [Monitor.unlock, h, ho, eq_comm]
  · simp [h]

theorem step_finish :
    s.step (.finish w) = some s' ↔ s.Running w ∧ s' = s.setWorker w .finished := by
  by_cases h : s.Running w <;> simp [h, eq_comm]

end Steps

end State

/-- Nobody has called anything yet: the main thread is in game code. -/
def initial : State W := ⟨.idle, .game, fun _ => .script, false⟩

def system : System (State W) (Act W) := ⟨fun s => s = initial, State.step⟩

/-- A worker calls `Lock` and `Unlock` in turn. -/
def Paired (s : State W) : Act W → Prop
  | .callLock w => s.worker w = .script
  | .callUnlock w => s.worker w = .locked
  | _ => True

instance (s : State W) : (a : Act W) → Decidable (Paired s a)
  | .callLock w => inferInstanceAs (Decidable (s.worker w = .script))
  | .callUnlock w => inferInstanceAs (Decidable (s.worker w = .locked))
  | .callLockCheck | .mainNotify | .mainTryLock | .mainLock | .mainUnlock | .workerLock _ | .workerWait _
  | .workerReacquire _ | .finish _ => isTrue trivial

/-- No worker may call game functions while the main thread runs game code. -/
def Exclusive (s : State W) : Prop := ∀ w, s.worker w = .locked → s.main ≠ .game

end LuaTT.FdsLock
