import LuaTT.Library.NodeList
import LuaTT.Library.Transition
import LuaTT.Lua.Value

/-! The thread registry: `LuaThread::m_threads` under `m_locker`, the records in it, and the workers
that `executeThread` runs. The functions that hold `m_locker` throughout are one step each. `New_Thread`
is one step for each statement of the record's constructor, because the worker runs from the first of
them on; `Wait_Thread` is the lookup and then, without the lock, the join. -/
namespace LuaTT.Registry
open Lua NodeList Transition
set_option autoImplicit false

/-! ## Records -/

abbrev ThreadId := BitVec 32

/-- A record. `thread` says which worker its `std::thread` stands for; it is none for a null pointer. -/
structure LuaThreadInternal where
  thread : Option ℕ
  id : ThreadId
  running : Bool
  error : Option Bytes
  delete : Bool
  deriving DecidableEq

namespace LuaThreadInternal

def isRunning (r : LuaThreadInternal) : Bool := r.running

def getError (r : LuaThreadInternal) : Option Bytes := r.error

def shouldDelete (r : LuaThreadInternal) : Bool := r.delete

def deleteLater (r : LuaThreadInternal) : LuaThreadInternal := { r with delete := true }

def setRunning (running : Bool) (r : LuaThreadInternal) : LuaThreadInternal :=
  { r with running := running }

end LuaThreadInternal

/-- What the memory of a new record holds in the fields its constructor has not set. -/
structure Garbage where
  running : Bool
  error : Option Bytes
  delete : Bool

/-- "Cannot create thread while initialization is not done" -/
def notInitialized : Bytes :=
  [67, 97, 110, 110, 111, 116, 32, 99, 114, 101, 97, 116, 101, 32, 116, 104, 114, 101, 97, 100, 32, 119,
    104, 105, 108, 101, 32, 105, 110, 105, 116, 105, 97, 108, 105, 122, 97, 116, 105, 111, 110, 32, 105,
    115, 32, 110, 111, 116, 32, 100, 111, 110, 101]

/-! ## Operations on the list of records -/

abbrev Threads := List (Node LuaThreadInternal)

def checkDeleteLater (threads : Threads) : Threads := eraseIf (·.shouldDelete) threads

def findThread (threads : Threads) (id : ThreadId) : Option (Node LuaThreadInternal) :=
  findIf (fun r => r.id = id) threads

/-- `Lua_Is_Thread_Running`, with the boolean it returns if it finds the record. -/
def isThreadRunning (threads : Threads) (id : ThreadId) : Threads × Option Bool :=
  let threads := checkDeleteLater threads
  (threads, (findThread threads id).map (·.obj.isRunning))

/-- `Lua_Get_Thread_Error`, with the string it returns. -/
def getThreadError (threads : Threads) (id : ThreadId) : Threads × Option Bytes :=
  (threads, (findThread threads id).bind (·.obj.getError))

/-- `Lua_Remove_Thread`: it asks the record whether it should be deleted, and ignores the answer. -/
def removeThread (threads : Threads) (id : ThreadId) : Threads :=
  let _ := (findThread threads id).map (·.obj.shouldDelete)
  checkDeleteLater threads

inductive ThreadExitStatus
  | ok
  | error
  deriving DecidableEq, Repr

/-- What `setThreadExit` does to the record. -/
def LuaThreadInternal.exited (status : ThreadExitStatus) (error : Bytes) (r : LuaThreadInternal) :
    LuaThreadInternal :=
  match status with
  | .error => { r with error := some (cstring error) }.setRunning false
  | .ok => (r.setRunning false).deleteLater

@[simp] theorem exited_id (st : ThreadExitStatus) (e : Bytes) (r : LuaThreadInternal) :
    (r.exited st e).id = r.id := by
  cases st <;> rfl

@[simp] theorem exited_thread (st : ThreadExitStatus) (e : Bytes) (r : LuaThreadInternal) :
    (r.exited st e).thread = r.thread := by
  cases st <;> rfl

def setThreadExit (threads : Threads) (id : ThreadId) (status : ThreadExitStatus) (error : Bytes) :
    Threads :=
  modifyFirst (fun r => r.id = id) (·.exited status error) threads

/-! ## Workers -/

/-- How the Lua code of a worker ends: the status of `luaL_loadbuffer`, that of `lua_pcall` if the code
loaded, and the value on top of the stack where a status is not 0. -/
structure Outcome where
  loadStatus : ℤ
  callStatus : ℤ
  value : LuaValue
  deriving DecidableEq

namespace Outcome

def Failed (o : Outcome) : Prop := o.loadStatus ≠ 0 ∨ o.callStatus ≠ 0

instance (o : Outcome) : Decidable o.Failed := inferInstanceAs (Decidable (_ ∨ _))

/-- The local `errorResult` of `executeThread`. -/
def errorResult (o : Outcome) : Option Bytes :=
  if o.loadStatus = 0 then
    if o.callStatus ≠ 0 then o.value.tostring else none
  else o.value.tostring

/-- The last test of `executeThread`. -/
def exitStatus (o : Outcome) : ThreadExitStatus × Bytes :=
  match o.errorResult with
  | some e => (.error, e)
  | none => (.ok, [])

end Outcome

/-- A worker runs its code, has ended it, has reported to the registry and closes its Lua state (its
finalizers run), has returned. -/
inductive Phase
  | running
  | exiting (o : Outcome)
  | closing (o : Outcome)
  | returned (o : Outcome)
  deriving DecidableEq

def Phase.callsLua : Phase → Bool
  | running => true
  | closing _ => true
  | _ => false

structure Worker where
  id : ThreadId
  phase : Phase
  deriving DecidableEq

inductive Tid
  | main
  | worker (n : ℕ)
  deriving DecidableEq

/-- A thread in `Wait_Thread`: it holds an iterator to the record it has found, or joins a worker. -/
inductive Wait
  | idle
  | found (threadId : ThreadId) (addr : ℕ)
  | joining (n : ℕ)
  deriving DecidableEq

/-! ## The state -/

/-- The next statement of the constructor, or of `Lua_New_Thread` after it, and the record so far. -/
inductive Stage
  | construct
  | initError (r : LuaThreadInternal)
  | initRunning (r : LuaThreadInternal)
  | publish (r : LuaThreadInternal)
  deriving DecidableEq

/-- A thread is in `Lua_New_Thread`, and so holds `m_locker`. -/
structure Creation where
  caller : Tid
  id : ThreadId
  stage : Stage

structure State where
  threadEnabled : Bool
  id : ThreadId
  threads : Threads
  creating : Option Creation
  workers : List Worker
  joined : ℕ → Bool
  waiting : Tid → Wait
  /-- A thread has used a freed node or a null `std::thread`. -/
  undefined : Bool

inductive Act
  | enable
  | newThread (t : Tid)
  | construct (g : Garbage)
  | initError
  | initRunning
  | publish (addr : ℕ)
  | isThreadRunning (t : Tid) (id : ThreadId)
  | getThreadError (t : Tid) (id : ThreadId)
  | removeThread (t : Tid) (id : ThreadId)
  | workerEnd (n : ℕ) (o : Outcome)
  | setThreadExit (n : ℕ)
  | workerReturn (n : ℕ)
  | waitThread (t : Tid) (id : ThreadId)
  | waitDeref (t : Tid)
  | waitJoined (t : Tid)

namespace State

def getNewID (s : State) : ThreadId := s.id + 1

/-- The thread executes Lua code: it may call the functions of the registry. -/
def Calling (s : State) (t : Tid) : Prop :=
  s.waiting t = .idle ∧ (∀ c ∈ s.creating, c.caller ≠ t) ∧
    match t with
    | .main => True
    | .worker n => ∃ w ∈ s.workers[n]?, w.phase.callsLua

instance (s : State) : (t : Tid) → Decidable (s.Calling t)
  | .main => inferInstanceAs (Decidable (_ ∧ _ ∧ True))
  | .worker n => inferInstanceAs (Decidable (_ ∧ _ ∧ ∃ w ∈ s.workers[n]?, w.phase.callsLua))

def setWorker (s : State) (n : ℕ) (w : Worker) : State := { s with workers := s.workers.set n w }

def setWaiting (s : State) (t : Tid) (p : Wait) : State :=
  { s with waiting := Function.update s.waiting t p }

/-! ## `LuaThread::Lua_New_Thread` and `LuaThreadInternal::LuaThreadInternal` -/

def newThread (s : State) : Act → Option State
  | .newThread t =>
    if s.Calling t ∧ s.creating = none then
      some { s with
        threads := checkDeleteLater s.threads
        id := s.getNewID
        creating := some ⟨t, s.getNewID, .construct⟩ }
    else none
  | .construct g =>
    match s.creating with
    | some ⟨t, id, .construct⟩ =>
      if s.threadEnabled then
        let r := ⟨some s.workers.length, id, g.running, g.error, g.delete⟩
        some { s with
          workers := s.workers ++ [⟨id, .running⟩]
          creating := some ⟨t, id, .initError r⟩ }
      else some { s with creating := some ⟨t, id, .publish ⟨none, id, false, notInitialized, g.delete⟩⟩ }
    | _ => none
  | .initError =>
    match s.creating with
    | some ⟨t, id, .initError r⟩ =>
      some { s with creating := some ⟨t, id, .initRunning { r with error := none }⟩ }
    | _ => none
  | .initRunning =>
    match s.creating with
    | some ⟨t, id, .initRunning r⟩ =>
      some { s with creating := some ⟨t, id, .publish { r with running := true }⟩ }
    | _ => none
  | .publish a =>
    match s.creating with
    | some ⟨_, _, .publish r⟩ =>
      if a ∈ addrs s.threads then none
      else some { s with threads := s.threads ++ [⟨a, r⟩], creating := none }
    | _ => none
  | _ => none

/-! ## The other steps -/

/-- The functions that take `m_locker` once, and the start of the think hook. -/
def lockedStep (s : State) : Act → Option State
  | .enable => if s.Calling .main then some { s with threadEnabled := true } else none
  | .isThreadRunning t id =>
    if s.Calling t ∧ s.creating = none then
      some { s with threads := (Registry.isThreadRunning s.threads id).1 }
    else none
  | .getThreadError t id =>
    if s.Calling t ∧ s.creating = none then
      some { s with threads := (Registry.getThreadError s.threads id).1 }
    else none
  | .removeThread t id =>
    if s.Calling t ∧ s.creating = none then
      some { s with threads := Registry.removeThread s.threads id }
    else none
  | _ => none

/-- `LuaThreadInternal::executeThread`. -/
def executeThread (s : State) : Act → Option State
  | .workerEnd n o =>
    match s.workers[n]? with
    | some ⟨id, .running⟩ =>
      if s.Calling (.worker n) then some (s.setWorker n ⟨id, .exiting o⟩) else none
    | _ => none
  | .setThreadExit n =>
    match s.workers[n]? with
    | some ⟨id, .exiting o⟩ =>
      if s.creating = none then
        some ({ s with threads := Registry.setThreadExit s.threads id o.exitStatus.1 o.exitStatus.2 }.setWorker
          n ⟨id, .closing o⟩)
      else none
    | _ => none
  | .workerReturn n =>
    match s.workers[n]? with
    | some ⟨id, .closing o⟩ =>
      if s.Calling (.worker n) then some (s.setWorker n ⟨id, .returned o⟩) else none
    | _ => none
  | _ => none

/-- `LuaThread::Lua_Wait_Thread` and `LuaThreadInternal::waitThread`. -/
def waitStep (s : State) : Act → Option State
  | .waitThread t id =>
    if s.Calling t ∧ s.creating = none then
      match findThread s.threads id with
      | some nd => some (s.setWaiting t (.found id nd.addr))
      | none => some s
    else none
  | .waitDeref t =>
    match s.waiting t with
    | .found _ a =>
      match (deref s.threads a).bind (·.thread) with
      | some n => some (s.setWaiting t (if s.joined n then .idle else .joining n))
      | none => some { s.setWaiting t .idle with undefined := true }
    | _ => none
  | .waitJoined t =>
    match s.waiting t with
    | .joining n =>
      match s.workers[n]? with
      | some ⟨_, .returned _⟩ =>
        some { s.setWaiting t .idle with joined := Function.update s.joined n true }
      | _ => none
    | _ => none
  | _ => none

def step (s : State) (a : Act) : Option State :=
  (s.newThread a).or ((s.lockedStep a).or ((s.executeThread a).or (s.waitStep a)))

/-! ## What each step can do -/

section Steps
variable {s s' : State} {t : Tid} {n : ℕ} {id : ThreadId}
attribute [local simp] step newThread lockedStep executeThread waitStep

theorem step_enable (h : s.step .enable = some s') : s' = { s with threadEnabled := true } := by
  simp only [step, newThread, lockedStep, executeThread, waitStep, Option.none_or, Option.or_none] at h
  split_ifs at h
  simpa using h.symm

theorem step_newThread (h : s.step (.newThread t) = some s') :
    s.Calling t ∧ s.creating = none ∧
      s' = { s with
        threads := checkDeleteLater s.threads
        id := s.getNewID
        creating := some ⟨t, s.getNewID, .construct⟩ } := by
  simp only [step, newThread, lockedStep, executeThread, waitStep, Option.or_none] at h
  split_ifs at h with hc
  exact ⟨hc.1, hc.2, by simpa using h.symm⟩

theorem step_construct {g : Garbage} (h : s.step (.construct g) = some s') :
    ∃ t id, s.creating = some ⟨t, id, .construct⟩ ∧
      (s.threadEnabled = true ∧ s' = { s with
          workers := s.workers ++ [⟨id, .running⟩]
          creating := some ⟨t, id,
            .initError ⟨some s.workers.length, id, g.running, g.error, g.delete⟩⟩ } ∨
        s.threadEnabled = false ∧ s' = { s with
          creating := some ⟨t, id, .publish ⟨none, id, false, notInitialized, g.delete⟩⟩ }) := by
  simp only [step, newThread, lockedStep, executeThread, waitStep, Option.or_none] at h
  split at h
  next t id hc =>
    refine ⟨t, id, hc, ?_⟩
    split_ifs at h with he
    · exact .inl ⟨he, by simpa using h.symm⟩
    · exact .inr ⟨by simpa using he, by simpa using h.symm⟩
  next => simp at h

theorem step_initError (h : s.step .initError = some s') :
    ∃ t id r, s.creating = some ⟨t, id, .initError r⟩ ∧
      s' = { s with creating := some ⟨t, id, .initRunning { r with error := none }⟩ } := by
  simp only [step, newThread, lockedStep, executeThread, waitStep, Option.or_none] at h
  split at h
  next t id r hc => exact ⟨t, id, r, hc, by simpa using h.symm⟩
  next => simp at h

theorem step_initRunning (h : s.step .initRunning = some s') :
    ∃ t id r, s.creating = some ⟨t, id, .initRunning r⟩ ∧
      s' = { s with creating := some ⟨t, id, .publish { r with running := true }⟩ } := by
  simp only [step, newThread, lockedStep, executeThread, waitStep, Option.or_none] at h
  split at h
  next t id r hc => exact ⟨t, id, r, hc, by simpa using h.symm⟩
  next => simp at h

theorem step_publish {a : ℕ} (h : s.step (.publish a) = some s') :
    ∃ t id r, s.creating = some ⟨t, id, .publish r⟩ ∧ a ∉ addrs s.threads ∧
      s' = { s with threads := s.threads ++ [⟨a, r⟩], creating := none } := by
  simp only [step, newThread, lockedStep, executeThread, waitStep, Option.or_none] at h
  split at h
  next t id r hc =>
    split_ifs at h with ha
    exact ⟨t, id, r, hc, ha, by simpa using h.symm⟩
  next => simp at h

theorem step_isThreadRunning (h : s.step (.isThreadRunning t id) = some s') :
    s.Calling t ∧ s.creating = none ∧ s' = { s with threads := checkDeleteLater s.threads } := by
  simp only [step, newThread, lockedStep, executeThread, waitStep, Option.none_or, Option.or_none] at h
  split_ifs at h with hc
  exact ⟨hc.1, hc.2, by simpa [Registry.isThreadRunning] using h.symm⟩

theorem step_getThreadError (h : s.step (.getThreadError t id) = some s') :
    s.Calling t ∧ s.creating = none ∧ s' = s := by
  simp only [step, newThread, lockedStep, executeThread, waitStep, Option.none_or, Option.or_none] at h
  split_ifs at h with hc
  exact ⟨hc.1, hc.2, by simpa [Registry.getThreadError] using h.symm⟩

theorem step_removeThread (h : s.step (.removeThread t id) = some s') :
    s.Calling t ∧ s.creating = none ∧ s' = { s with threads := checkDeleteLater s.threads } := by
  simp only [step, newThread, lockedStep, executeThread, waitStep, Option.none_or, Option.or_none] at h
  split_ifs at h with hc
  exact ⟨hc.1, hc.2, by simpa [Registry.removeThread] using h.symm⟩

theorem step_workerEnd {o : Outcome} (h : s.step (.workerEnd n o) = some s') :
    ∃ id, s.workers[n]? = some ⟨id, .running⟩ ∧ s.Calling (.worker n) ∧
      s' = s.setWorker n ⟨id, .exiting o⟩ := by
  simp only [step, newThread, lockedStep, executeThread, waitStep, Option.none_or, Option.or_none] at h
  split at h
  next id hw =>
    split_ifs at h with hc
    exact ⟨id, hw, hc, by simpa using h.symm⟩
  next => simp at h

theorem step_setThreadExit (h : s.step (.setThreadExit n) = some s') :
    ∃ id o, s.workers[n]? = some ⟨id, .exiting o⟩ ∧ s.creating = none ∧
      s' = { s with threads :=
        Registry.setThreadExit s.threads id o.exitStatus.1 o.exitStatus.2 }.setWorker
          n ⟨id, .closing o⟩ := by
  simp only [step, newThread, lockedStep, executeThread, waitStep, Option.none_or, Option.or_none] at h
  split at h
  next id o hw =>
    split_ifs at h with hc
    exact ⟨id, o, hw, hc, by simpa using h.symm⟩
  next => simp at h

theorem step_workerReturn (h : s.step (.workerReturn n) = some s') :
    ∃ id o, s.workers[n]? = some ⟨id, .closing o⟩ ∧ s.Calling (.worker n) ∧
      s' = s.setWorker n ⟨id, .returned o⟩ := by
  simp only [step, newThread, lockedStep, executeThread, waitStep, Option.none_or, Option.or_none] at h
  split at h
  next id o hw =>
    split_ifs at h with hc
    exact ⟨id, o, hw, hc, by simpa using h.symm⟩
  next => simp at h

theorem step_waitThread (h : s.step (.waitThread t id) = some s') :
    s.Calling t ∧ s.creating = none ∧
      ((∃ nd, findThread s.threads id = some nd ∧ s' = s.setWaiting t (.found id nd.addr)) ∨
        findThread s.threads id = none ∧ s' = s) := by
  simp only [step, newThread, lockedStep, executeThread, waitStep, Option.none_or] at h
  split_ifs at h with hc
  refine ⟨hc.1, hc.2, ?_⟩
  cases hf : findThread s.threads id with
  | some nd => exact .inl ⟨nd, rfl, by simpa [hf] using h.symm⟩
  | none => exact .inr ⟨rfl, by simpa [hf] using h.symm⟩

theorem step_waitDeref (h : s.step (.waitDeref t) = some s') :
    ∃ i a, s.waiting t = .found i a ∧
      ((∃ n, (deref s.threads a).bind (·.thread) = some n ∧
          s' = s.setWaiting t (if s.joined n then .idle else .joining n)) ∨
        (deref s.threads a).bind (·.thread) = none ∧
          s' = { s.setWaiting t .idle with undefined := true }) := by
  simp only [step, newThread, lockedStep, executeThread, waitStep, Option.none_or] at h
  split at h
  next i a hw =>
    refine ⟨i, a, hw, ?_⟩
    cases hd : (deref s.threads a).bind (·.thread) with
    | some n => exact .inl ⟨n, rfl, by simpa [hd] using h.symm⟩
    | none => exact .inr ⟨rfl, by simpa [hd] using h.symm⟩
  next => simp at h

theorem step_waitJoined (h : s.step (.waitJoined t) = some s') :
    ∃ n id o, s.waiting t = .joining n ∧ s.workers[n]? = some ⟨id, .returned o⟩ ∧
      s' = { s.setWaiting t .idle with joined := Function.update s.joined n true } := by
  simp only [step, newThread, lockedStep, executeThread, waitStep, Option.none_or] at h
  split at h
  next n hw =>
    split at h
    next id o hr => exact ⟨n, id, o, hw, hr, by simpa using h.symm⟩
    next => simp at h
  next => simp at h

end Steps

end State

def initial : State := ⟨false, 0, [], none, [], fun _ => false, fun _ => .idle, false⟩

def system : System State Act := ⟨fun s => s = initial, State.step⟩

end LuaTT.Registry
