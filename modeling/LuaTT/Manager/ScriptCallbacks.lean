import LuaTT.Manager.HookCalls

/-! What the callbacks of `LuaScript` call. Each of them pushes its arguments one by one and passes their
number to `lua_pcall`, which counts the slots down to the function by it. -/
namespace LuaTT.ScriptCallbacks
open Lua LState Dispatch
set_option autoImplicit false

/-! ## The callbacks -/

/-- What the engine calls in a registered object that has a state; one without does nothing. A script passes
its own id first. -/
inductive Callback
  | created (id obj : ℤ)
  | destroyed (id obj : ℤ)
  | detach (id obj : ℤ)
  | keyHook (id owner : ℤ)
  | killed (id obj shooter : ℤ)
  | damaged (id obj damager : ℤ) (damage : Float32)
  | custom (id obj message param sender : ℤ)
  | enemySeen (id obj seen : ℤ)
  | soundHeard (id obj creator : ℤ) (position : ℕ) (sound : ℤ)
  | actionComplete (id obj action : ℤ)
  | timerExpired (id obj number : ℤ)
  | animationComplete (id obj : ℤ) (anim : Option Bytes)
  | poked (id obj poker : ℤ)
  | entered (id obj enter : ℤ)
  | exited (id obj exit : ℤ)
  | crateInit
  | crateActivate (player : Option ℤ)
  | crateCanActivate (player : Option ℤ)
  | consoleActivate (arguments : Option Bytes)

namespace Callback

def field : Callback → Bytes
  | created .. => bytes "Created"
  | destroyed .. => bytes "Destroyed"
  | detach .. => bytes "Detach"
  | keyHook .. => bytes "KeyHook"
  | killed .. => bytes "Killed"
  | damaged .. => bytes "Damaged"
  | custom .. => bytes "Custom"
  | enemySeen .. => bytes "Enemy_Seen"
  | soundHeard .. => bytes "Sound_Heard"
  | actionComplete .. => bytes "Action_Complete"
  | timerExpired .. => bytes "Timer_Expired"
  | animationComplete .. => bytes "Animation_Complete"
  | poked .. => bytes "Poked"
  | entered .. => bytes "Entered"
  | exited .. => bytes "Exited"
  | crateInit => bytes "Init"
  | crateActivate .. | consoleActivate .. => bytes "Activate"
  | crateCanActivate .. => bytes "Can_Activate"

/-- The arguments after the table; `soundHeard` has more. -/
def args : Callback → List LuaValue
  | created id obj | destroyed id obj | detach id obj => [number id, number obj]
  | keyHook id owner => [number id, number owner]
  | killed id obj shooter => [number id, number obj, number shooter]
  | damaged id obj damager damage => [number id, number obj, number damager, float damage]
  | custom id obj message param sender =>
    [number id, number obj, number message, number param, number sender]
  | enemySeen id obj seen => [number id, number obj, number seen]
  | soundHeard id obj creator _ _ => [number id, number obj, number creator]
  | actionComplete id obj action => [number id, number obj, number action]
  | timerExpired id obj n => [number id, number obj, number n]
  | animationComplete id obj anim => [number id, number obj, ofCString anim]
  | poked id obj poker => [number id, number obj, number poker]
  | entered id obj enter => [number id, number obj, number enter]
  | exited id obj exit => [number id, number obj, number exit]
  | crateInit => []
  | crateActivate player | crateCanActivate player => [number (player.getD 0)]
  | consoleActivate arguments => [ofCString arguments]

/-- It returns before it looks at its table. -/
def skipped : Callback → Bool
  | crateActivate player | crateCanActivate player => player.isNone
  | _ => false

def nresults : Callback → ℕ
  | crateCanActivate _ => 1
  | _ => 0

end Callback

/-! ## The host's view of handler tables -/

/-- A program with its registry and metatables. -/
structure ScriptCode (M : Type) extends Code M where
  /-- What `luaL_ref` has put into the registry. -/
  refs : M → ℤ → LuaValue
  getfield : M → LuaValue → Bytes → LuaValue
  /-- `luaL_getmetatable`. -/
  getmetatable : M → Bytes → LuaValue
  setmetatable : M → LuaValue → LuaValue → M

section Callbacks
variable {M : Type} (code : ScriptCode M)

def ScriptCode.logged : ScriptCode (M × List Called) where
  toCode := code.toCode.logged
  refs m := code.refs m.1
  getfield m := code.getfield m.1
  getmetatable m := code.getmetatable m.1
  setmetatable m o mt := (code.setmetatable m.1 o mt, m.2)

/-- `lua_setmetatable` of the value under the top. -/
def setmetatable (L : LState M) : LState M :=
  { L.pop 1 with mem := code.setmetatable L.mem (L.fromTop 2) L.top }

/-- The call of the function on top, above the table. -/
def body (c : Callback) (L : LState M) : LState M :=
  let L := (L.push (L.fromTop 2)).pushAll c.args
  match c with
  | .soundHeard _ _ _ position sound =>
    -- `lua_boxpointer` of the position
    let L := L.push (.userdata position)
    let L := setmetatable code (L.push (code.getmetatable L.mem (bytes "Vector3")))
    let (L, status) := (L.push (number sound)).pcall code.toCode 4 (some 0)
    (reportErrors code.toCode L status).1
  | _ =>
    let (L, status) := L.pcall code.toCode (c.args.length + 1) (some c.nresults)
    (reportErrors code.toCode L status).1

/-- The callback of an object whose table is at `uRef`; a value that is no table stays on the stack. -/
def run (c : Callback) (uRef : ℤ) (L : LState M) : LState M :=
  if c.skipped then L
  else
    let L := L.push (code.refs L.mem uRef)
    if L.top.istable then
      let L := L.push (code.getfield L.mem L.top c.field)
      let L := if L.top.isfunction then body code c L else L
      L.pop (-1)
    else L

end Callbacks

/-! ## Delivery -/

/-- A callback of `LuaScript`; the others are those of crates and console functions. -/
def isScript : Callback → Bool
  | .crateInit | .crateActivate _ | .crateCanActivate _ | .consoleActivate _ => false
  | _ => true

/-- The one whose count of arguments is too small. -/
def undercounts : Callback → Bool
  | .soundHeard .. => true
  | _ => false

/-- All that is pushed above the table. -/
def pushed (c : Callback) : List LuaValue :=
  match c with
  | .soundHeard _ _ _ position sound => c.args ++ [.userdata position, number sound]
  | _ => c.args

section Delivery
variable {M : Type} (code : ScriptCode M)

/-- The memory when the arguments have been pushed. -/
def memoryAt (c : Callback) (mem : M) : M :=
  match c with
  | .soundHeard _ _ _ position _ =>
    code.setmetatable mem (.userdata position) (code.getmetatable mem (bytes "Vector3"))
  | _ => mem

/-- The function in the field of the table is called with the table and all that is pushed (and its error
reported), and nothing is called where there is none. -/
def Delivered (c : Callback) (uRef : ℤ) (L : LState M) : Prop :=
  let table := code.refs L.mem uRef
  let f := code.getfield L.mem table c.field
  (run code.logged c uRef L.recording).calls =
    if f.isfunction then calling code.toCode (memoryAt code c L.mem) f (table :: pushed c) else []

variable {L : LState (M × List Called)} {s : List LuaValue} {table f : LuaValue}

theorem fromTop_table (h : L.stack = s ++ [table, f]) : L.fromTop 2 = table := by
  rw [fromTop, h]
  exact congrArg (Option.getD · .nil) (index2adr_below_top s table f)

/-- The count is that of the pushes. -/
theorem body_calls {c : Callback} (hc : undercounts c = false) (h : L.stack = s ++ [table, f]) :
    (body code.logged c L).calls = L.calls ++ calling code.toCode L.mem.1 f (table :: c.args) := by
  have hstack : ((L.push (L.fromTop 2)).pushAll c.args).stack = s ++ [table] ++ [f] ++ (table :: c.args) := by
    simp [LState.pushAll, LState.push, h, fromTop_table h]
  have hcalls := pcall_report_calls code.toCode (some c.nresults) hstack
  cases c with
  | soundHeard => cases hc
  | _ => exact hcalls

theorem setmetatable_push {N : Type} (code : ScriptCode N) (K : LState N) (o mt : LuaValue) :
    setmetatable code ((K.push o).push mt) = { K.push o with mem := code.setmetatable K.mem o mt } := by
  have hstack : (((K.push o).push mt).pop 1).stack = K.stack ++ [o] := pop_one_stack _ rfl
  have hbelow : ((K.push o).push mt).fromTop 2 = o := by
    have hadr := index2adr_below_top K.stack o mt
    simp only [fromTop, push_stack, List.append_assoc]
    exact congrArg (Option.getD · .nil) hadr
  unfold setmetatable
  rw [hbelow, top_push]
  exact congrArg (fun stack => (⟨code.setmetatable K.mem o mt, K.below, stack, K.errors⟩ : LState N)) hstack

/-- The slot that the count leads to is that of the script id. -/
theorem body_calls_soundHeard (id obj creator : ℤ) (position : ℕ) (sound : ℤ)
    (h : L.stack = s ++ [table, f]) :
    (body code.logged (.soundHeard id obj creator position sound) L).calls = L.calls ++ calling code.toCode
      (memoryAt code (.soundHeard id obj creator position sound) L.mem.1) (number id)
      [number obj, number creator, .userdata position, number sound] := by
  let K := (L.push (L.fromTop 2)).pushAll [number id, number obj, number creator]
  let mt := code.logged.getmetatable (K.push (.userdata position)).mem (bytes "Vector3")
  let K' := { K.push (.userdata position) with
    mem := code.logged.setmetatable K.mem (.userdata position) mt }
  have hK : setmetatable code.logged ((K.push (.userdata position)).push mt) = K' := setmetatable_push _ K _ _
  have hstack : (K'.push (number sound)).stack = s ++ [table, f, L.fromTop 2] ++ [number id] ++
      [number obj, number creator, .userdata position, number sound] := by
    simp [K', K, LState.pushAll, LState.push, h]
  have hbody : body code.logged (.soundHeard id obj creator position sound) L =
      (reportErrors code.logged.toCode
        (((setmetatable code.logged ((K.push (.userdata position)).push mt)).push (number sound)).pcall
          code.logged.toCode 4 (some 0)).1
        (((setmetatable code.logged ((K.push (.userdata position)).push mt)).push (number sound)).pcall
          code.logged.toCode 4 (some 0)).2).1 := rfl
  have hmem : (K'.push (number sound)).mem.1 =
      memoryAt code (.soundHeard id obj creator position sound) L.mem.1 := rfl
  have hbefore : (K'.push (number sound)).calls = L.calls := rfl
  have hcalls := pcall_report_calls code.toCode (some 0) hstack
  rw [hmem, hbefore] at hcalls
  rw [hbody, hK]
  exact hcalls

/-- **Script callbacks.** Each delivers its event to a table, except for `Sound_Heard`, which does so
only where there is no function to be called. -/
theorem script_delivery {c : Callback} (hc : isScript c = true) (uRef : ℤ) (L : LState M)
    (htable : (code.refs L.mem uRef).istable = true) : Delivered code c uRef L ↔
      (undercounts c = true → (code.getfield L.mem (code.refs L.mem uRef) c.field).isfunction = false) := by
  have hskip : c.skipped = false := by
    cases c with
    | crateActivate | crateCanActivate => cases hc
    | _ => rfl
  let K := L.recording.push (code.refs L.mem uRef)
  have htop : K.top = code.refs L.mem uRef := top_push _ _
  have hrun : run code.logged c uRef L.recording =
      (if (code.getfield L.mem (code.refs L.mem uRef) c.field).isfunction then
        body code.logged c (K.push (code.getfield L.mem (code.refs L.mem uRef) c.field))
      else K.push (code.getfield L.mem (code.refs L.mem uRef) c.field)).pop (-1) := by
    unfold run
    rw [if_neg (by simp [hskip])]
    change (if K.top.istable then ((if ((K.push (code.getfield L.mem K.top c.field)).top).isfunction then
      body code.logged c (K.push (code.getfield L.mem K.top c.field))
      else K.push (code.getfield L.mem K.top c.field)).pop (-1)) else K) = _
    rw [htop, if_pos htable, top_push]
  have hframe : (K.push (code.getfield L.mem (code.refs L.mem uRef) c.field)).stack =
      L.stack ++ [code.refs L.mem uRef, code.getfield L.mem (code.refs L.mem uRef) c.field] :=
    List.append_assoc _ _ _
  unfold Delivered
  rw [hrun, pop_calls]
  cases hf : (code.getfield L.mem (code.refs L.mem uRef) c.field).isfunction with
  | false =>
    refine iff_of_true ?_ fun _ => rfl
    simp only [hf, Bool.false_eq_true, if_false]
    rfl
  | true =>
    simp only [hf, if_true, Bool.true_eq_false, imp_false, Bool.not_eq_true]
    cases hu : undercounts c with
    | false =>
      refine iff_of_true ?_ rfl
      rw [body_calls code hu hframe]
      cases c with
      | soundHeard => cases hu
      | _ => rfl
    | true =>
      refine iff_of_false (fun hcalls => ?_) Bool.noConfusion
      cases c with
      | soundHeard id obj creator position sound =>
        -- the first call is one of the script id
        rw [body_calls_soundHeard code id obj creator position sound hframe] at hcalls
        have hfunc : number id = code.getfield L.mem (code.refs L.mem uRef)
            (Callback.soundHeard id obj creator position sound).field :=
          congrArg Called.func (List.cons.inj hcalls).1
        rw [← hfunc] at hf
        cases hf
      | _ => cases hu

end Delivery

/-- Every reference is to one table, and every field a function. -/
def handlerCode : ScriptCode Unit where
  getglobal _ _ := .nil
  setglobal _ _ _ := ()
  call _ _ _ := ((), .ok [])
  refs _ _ := .table 0
  getfield _ _ _ := .function 1
  getmetatable _ _ := .nil
  setmetatable _ _ _ := ()

def handlerState : LState Unit := ⟨(), .nil, [], []⟩

theorem script_delivery_poked : Delivered handlerCode (.poked 3 4 5) 1 handlerState :=
  (script_delivery handlerCode (c := .poked 3 4 5) rfl 1 handlerState rfl).mpr nofun

/-- A sound is heard by a script that handles sounds. -/
theorem script_delivery_sound : ¬ ∀ (c : Callback) (uRef : ℤ) (L : LState Unit), isScript c = true →
    (handlerCode.refs L.mem uRef).istable = true → Delivered handlerCode c uRef L := by
  intro hall
  have hcalls : (run handlerCode.logged (.soundHeard 3 4 5 6 7) 1 handlerState.recording).calls = _ :=
    hall (.soundHeard 3 4 5 6 7) 1 handlerState rfl rfl
  have hfunc := congrArg (List.map Called.func) hcalls
  cases hfunc

end LuaTT.ScriptCallbacks
