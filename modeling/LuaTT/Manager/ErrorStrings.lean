import LuaTT.Lua.Memory
import LuaTT.Manager.Dispatch
import LuaTT.Thread.Registry

/-! The strings behind the pointers that `lua_tostring` gives to `LuaManager::Report_Errors`,
`LuaManager::ConAc`, `LuaManager::DA_Connection_Request_Event` and `LuaThreadInternal::executeThread`. Each of
them pops the value first and reads the text afterwards. -/
namespace LuaTT.ErrorStrings
open Lua Memory World
set_option autoImplicit false

/-! ## `LuaManager::Report_Errors` -/

/-- What runs in the course of a report. -/
structure Report where
  convert : List Step
  /-- The console-output handlers; the line is formatted before them. -/
  print : List Step
  getglobal : Bytes → Call
  push : List Step
  garbage : Bytes
  /-- `OnError` returns, or raises. -/
  pcall : Call ⊕ Call

structure Reported where
  world : World
  reads : List (Option Bytes)
  /-- What `OnError` has been called with, `none` for nil. -/
  calls : List (Option Bytes)

def reportErrors (e : Report) (L status : ℕ) (W : World) : Reported :=
  if status ≠ 0 then
    let (W, err) := W.tostring L e.convert
    let W := W.pop L 1
    let printed := W.read err
    let W := W.run e.print
    let W := W.call L (e.getglobal (bytes "OnError"))
    if (W L).isfunction (W L).top then
      let (W, copied) := W.pushstring L err e.push e.garbage
      let calls := [W.topText L]
      match e.pcall with
      | .inl c => ⟨W.call L c, printed ++ copied, calls⟩
      | .inr c => ⟨(W.call L c).pop L 1, printed ++ copied, calls⟩
    else ⟨W, printed, []⟩
  else ⟨W, [], []⟩

/-! ## The two connection dispatchers -/

def pushValue (L : ℕ) (v : LuaValue) (steps : List Step) (W : World) : World :=
  match v with
  | .string s =>
    let W := W.run steps
    W.set L ((W L).pushString s)
  | .number n => W.set L ((W L).push (.number n) fun _ ha => by cases ha)
  | _ => W.set L ((W L).push .nil fun _ ha => by cases ha)

def pushAll (L : ℕ) (push : ℕ → List Step) : ℕ → List LuaValue → World → World
  | _, [], W => W
  | i, v :: vs, W => pushAll L push (i + 1) vs (pushValue L v (push i) W)

/-- What runs while a state is asked. -/
structure Answer where
  getglobal : Bytes → Call
  push : ℕ → List Step
  /-- With the result or the error on top of the frame. -/
  pcall : Call
  status : ℕ
  report : Report
  convert : List Step
  setglobal : Bytes → Call

structure Asked where
  world : World
  reads : List (Option Bytes)
  ret : Pointer

section Connection
variable (name : Bytes) (args : List LuaValue)

/-- The hook is called and its error reported. -/
def callHook (L : ℕ) (e : Answer) (W : World) : Reported :=
  reportErrors e.report L e.status ((pushAll L e.push 0 args W).call L e.pcall)

/-- `ret = lua_tostring(L, -1)`, or the literal where that is NULL, and an empty frame. -/
def takeAnswer (L : ℕ) (convert : List Step) (W : World) : World × Pointer :=
  let (W, ret) := W.tostring L convert
  let ret := match ret with
    | .null => .literal (bytes "CONTINUE")
    | ret => ret
  (W.pop L (W L).stack.length, ret)

/-- The loop of the dispatchers; they differ in the hook and its arguments. -/
def askStates : List (ℕ × Answer) → Pointer → World → Asked
  | [], ret, W => ⟨W, [], ret⟩
  | (L, e) :: lua, ret, W =>
    let W := W.call L (e.getglobal name)
    if (W L).isfunction (W L).top then
      let reported := callHook args L e W
      let (W, ret) := takeAnswer L e.convert reported.world
      let compared := W.read ret
      if compared ≠ [some (bytes "CONTINUE")] then ⟨W, reported.reads ++ compared, ret⟩
      else
        let asked := askStates lua ret W
        { asked with reads := reported.reads ++ compared ++ asked.reads }
    else askStates lua ret (W.call L (e.setglobal name))

/-- The caller reads what it gets. -/
def askedReads (lua : List (ℕ × Answer)) (W : World) : List (Option Bytes) :=
  let asked := askStates name args lua (.literal (bytes "CONTINUE")) W
  asked.reads ++ asked.world.read asked.ret

end Connection

def conAcArgs (ip nick serial version : Option Bytes) (id : ℤ) : List LuaValue :=
  [ofCString nick, ofCString ip, ofCString serial, ofCString version, ofInt id]

/-- `LuaManager::ConAc`, called by `luatt::getStatus`. -/
def conAcReads (ip nick serial version : Option Bytes) (id : ℤ)
    (lua : List (ℕ × Answer)) (W : World) : List (Option Bytes) :=
  askedReads (bytes "ConnectionAcceptance") (conAcArgs ip nick serial version id) lua W

/-- `LuaManager::DA_Connection_Request_Event`, called by `LuaTT_DA_Hooks::Connection_Request_Event`. -/
def daConnectionRequestEventReads (request : Dispatch.ConnectionRequest)
    (lua : List (ℕ × Answer)) (W : World) : List (Option Bytes) :=
  askedReads (bytes "DA_Connection_Request_Event") request.args lua W

/-! ## `LuaThreadInternal::executeThread` -/

/-- What runs while a thread is executed. `executeThread` opens the state itself and hands it to nobody, so
that what other threads run before the thread is granted its lock is run in other states. -/
structure Execution (L : ℕ) where
  /-- `luaL_loadbuffer`: the chunk or an error. -/
  load : Call
  loaded : Bool
  /-- `lua_pcall`: nothing or an error. -/
  pcall : Call ⊕ Call
  convert : List Step
  wait : List Step
  others : ∀ t ∈ wait, t.state ≠ L
  /-- The thread is still in the table of threads. -/
  registered : Bool

/-- `LuaThread::setThreadExit` copies the text of an error. -/
def setThreadExit {L : ℕ} (e : Execution L) (status : Registry.ThreadExitStatus) (error : Pointer)
    (W : World) : World × List (Option Bytes) :=
  let W := W.run e.wait
  match status with
  | .error => (W, if e.registered then W.read error else [])
  | .ok => (W, [])

/-- `err = lua_tostring(L, -1)` and `lua_pop(L, 1)`. -/
def takeError {L : ℕ} (e : Execution L) (W : World) : World × Pointer :=
  let (W, err) := W.tostring L e.convert
  (W.pop L 1, err)

/-- The end of `executeThread`, with `errorResult`. -/
def exitThread {L : ℕ} (e : Execution L) (r : World × Pointer) : World × List (Option Bytes) :=
  match r with
  | (W, .null) => setThreadExit e .ok (.literal []) W
  | (W, errorResult) => setThreadExit e .error errorResult W

def executeThread {L : ℕ} (e : Execution L) (W : World) : World × List (Option Bytes) :=
  let W := W.call L e.load
  exitThread e <|
    if e.loaded then
      match e.pcall with
      | .inl c => (W.call L c, .null)
      | .inr c => takeError e (W.call L c)
    else takeError e W

end LuaTT.ErrorStrings
