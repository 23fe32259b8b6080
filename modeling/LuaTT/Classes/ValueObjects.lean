import Mathlib.Algebra.Order.Field.Rat
import Mathlib.Logic.Function.Basic
import LuaTT.Lua.Number

/-! The accessors of `LuaVector3`, `LuaMatrix3`, `LuaBox` and `LuaActionParams`. In a method call the userdata
stands at index 1 and the arguments follow. Numbers are taken exactly. -/
namespace LuaTT.ValueObjects
open Lua
set_option autoImplicit false

/-- Lua values, as far as the accessors tell them apart; a string with the number it scans as. -/
inductive Value
  | nil
  | boolean (b : Bool)
  | number (x : ℚ)
  | string (scanned : Option ℚ)
  | userdata (ref : ℕ)
  | other

def Value.scan : Value → Option ℚ
  | number x => some x
  | string scanned => scanned
  | _ => none

/-- `lua_tonumber`. -/
def Value.tonumber (v : Value) : ℚ := v.scan.getD 0

/-! ## Objects -/

inductive Component
  | x
  | y
  | z
  deriving DecidableEq

/-- `LUA_Vector3` and the engine's `Vector3`. -/
structure Vec where
  x : ℚ
  y : ℚ
  z : ℚ
  deriving DecidableEq

def Vec.get (v : Vec) : Component → ℚ
  | .x => v.x
  | .y => v.y
  | .z => v.z

def Vec.set (v : Vec) (a : ℚ) : Component → Vec
  | .x => { v with x := a }
  | .y => { v with y := a }
  | .z => { v with z := a }

inductive FloatField
  | moveArrivedDistance | lookDuration | moveSpeed | attackRange | attackError | faceDuration
  deriving DecidableEq

inductive IntField
  | aiState | priority | actionID | observerID | shutdownEngineOnArrival | attackErrorOverride
  | attackPrimaryFire | attackCrouched | attackCheckBlocked | attackActive | attackWanderAllowed
  | attackFaceTarget | attackForceFire | forceFacing | ignoreFacing | waypathID | waypointStartID
  | waypointEndID | waypathSplined | animationLooping | activeConversationID
  deriving DecidableEq

inductive BoolField
  | moveBackup | moveFollow | moveCrouched | movePathfind
  deriving DecidableEq

inductive VecField
  | dockLocation | dockEntrance | moveLocation | moveObjectOffset | attackLocation | faceLocation
  | lookLocation
  deriving DecidableEq

/-- The number, boolean and vector fields of `ActionParamsStruct`. The engine declares it; the fields are taken
to have the types that the macros convert to. -/
structure ActionParams where
  float : FloatField → ℚ
  int : IntField → ℤ
  bool : BoolField → Bool
  vec : VecField → Vec

/-- The engine's `Matrix3`. -/
structure MatrixClass (Mat : Type) where
  set : Vec → Vec → Vec → Mat
  /-- `Set` of nine numbers. -/
  setNumbers : List ℚ → Mat
  getXVector : Mat → Vec
  getYVector : Mat → Vec
  getZVector : Mat → Vec

/-- `OBBoxClass`. -/
structure OBBox (Mat : Type) where
  center : Vec
  extent : Vec
  basis : Mat

inductive Object (Mat : Type)
  | vector3 (v : Vec)
  | matrix3 (m : Mat)
  | box (b : OBBox Mat)
  | actionParams (a : ActionParams)
  /-- A userdata of another class. -/
  | other

abbrev Heap (Mat : Type) := List (Object Mat)

/-- `luaL_typerror`. -/
structure LuaError where
  argument : ℕ
  expected : Bytes

section Methods
variable {Mat : Type}

def Object.vector? : Object Mat → Option Vec
  | vector3 v => some v
  | _ => none

def Object.matrix? : Object Mat → Option Mat
  | matrix3 m => some m
  | _ => none

def Object.box? : Object Mat → Option (OBBox Mat)
  | box b => some b
  | _ => none

def Object.params? : Object Mat → Option ActionParams
  | actionParams a => some a
  | _ => none

/-- The results and the objects after a call on a stack. -/
abbrev Method (Mat : Type) := Heap Mat → List Value → Except LuaError (List Value × Heap Mat)

/-- The slot `n`, from 1 on. -/
def slot (stack : List Value) (n : ℕ) : Value := (stack[n - 1]?).getD .nil

def checknumber (stack : List Value) (n : ℕ) : Except LuaError ℚ :=
  match (slot stack n).scan with
  | some x => .ok x
  | none => .error ⟨n, bytes "number"⟩

/-- `GetInstance` of a class: the object and where it is. -/
def getInstance {α : Type} (cls : String) (as : Object Mat → Option α) (heap : Heap Mat)
    (stack : List Value) (n : ℕ) : Except LuaError (ℕ × α) :=
  match slot stack n with
  | .userdata ref =>
    match (heap[ref]?).bind as with
    | some a => .ok (ref, a)
    | none => .error ⟨n, bytes cls⟩
  | _ => .error ⟨n, bytes "userdata"⟩

def vector3At (heap : Heap Mat) (stack : List Value) (n : ℕ) : Except LuaError (ℕ × Vec) :=
  getInstance "Vector3" Object.vector? heap stack n

/-- `lua_boxpointer` of a new `LUA_Vector3`, with its metatable. -/
def pushVector3 (heap : Heap Mat) (v : Vec) : List Value × Heap Mat :=
  ([.userdata heap.length], heap ++ [.vector3 v])

/-! ## `LuaVector3` -/

def getComponent (c : Component) : Method Mat := fun heap stack => do
  let a ← vector3At heap stack 1
  pure ([.number (a.2.get c)], heap)

def assignComponent (c : Component) : Method Mat := fun heap stack => do
  let a ← vector3At heap stack 1
  let x ← checknumber stack 2
  pure ([], heap.set a.1 (.vector3 (a.2.set x c)))

/-- `X`, `Y` and `Z` count the userdata as an argument. -/
def component (c : Component) : Method Mat := fun heap stack =>
  if stack.length < 1 then getComponent c heap stack else assignComponent c heap stack

def getX : Method Mat := getComponent .x
def getY : Method Mat := getComponent .y
def getZ : Method Mat := getComponent .z
def assignX : Method Mat := assignComponent .x
def assignY : Method Mat := assignComponent .y
def assignZ : Method Mat := assignComponent .z

/-! ## `LuaMatrix3` -/

def matrix3At (heap : Heap Mat) (stack : List Value) (n : ℕ) : Except LuaError (ℕ × Mat) :=
  getInstance "Matrix3" Object.matrix? heap stack n

def getVector (vector : Mat → Vec) : Method Mat := fun heap stack => do
  let a ← matrix3At heap stack 1
  pure (pushVector3 heap (vector a.2))

/-- The numbers of arguments it tests for do not count the userdata, which stands in front of them. -/
def matrixSet (E : MatrixClass Mat) : Method Mat := fun heap stack => do
  let a ← matrix3At heap stack 1
  if stack.length = 3 then
    let v1 ← vector3At heap stack 2
    let v2 ← vector3At heap stack 3
    let v3 ← vector3At heap stack 4
    pure (stack.getLast?.toList, heap.set a.1 (.matrix3 (E.set v1.2 v2.2 v3.2)))
  else if stack.length = 9 then
    pure (stack.getLast?.toList,
      heap.set a.1 (.matrix3 (E.setNumbers ((List.range 9).map fun i => (slot stack (i + 2)).tonumber))))
  else pure (stack.getLast?.toList, heap)

/-! ## `LuaBox` -/

def boxAt (heap : Heap Mat) (stack : List Value) (n : ℕ) : Except LuaError (ℕ × OBBox Mat) :=
  getInstance "Box" Object.box? heap stack n

def getBoxVector (vector : OBBox Mat → Vec) : Method Mat := fun heap stack => do
  let b ← boxAt heap stack 1
  pure (pushVector3 heap (vector b.2))

/-- The numbers are read from index 1 on, where the userdata is. -/
def setBoxVector (set : OBBox Mat → Vec → OBBox Mat) : Method Mat := fun heap stack =>
  if stack.length < 3 then .ok ([], heap)
  else do
    let b ← boxAt heap stack 1
    pure ([], heap.set b.1 (.box (set b.2
      ⟨(slot stack 1).tonumber, (slot stack 2).tonumber, (slot stack 3).tonumber⟩)))

def getCenter : Method Mat := getBoxVector OBBox.center
def getExtent : Method Mat := getBoxVector OBBox.extent
def setCenter : Method Mat := setBoxVector fun b v => { b with center := v }
def setExtent : Method Mat := setBoxVector fun b v => { b with extent := v }

/-! ## `LuaActionParams` -/

def paramsAt (heap : Heap Mat) (stack : List Value) (n : ℕ) : Except LuaError (ℕ × ActionParams) :=
  getInstance "ActionParamsStruct" Object.params? heap stack n

/-- `static_cast<int>`, with the indefinite value for what an int does not hold. -/
def toInt (x : ℚ) : ℤ :=
  let i := x.num.tdiv x.den
  if -2 ^ 31 ≤ i ∧ i < 2 ^ 31 then i else -2 ^ 31

/-- The macro `LuaActionParams_NUMBER`. A setter returns its argument. -/
def paramNumber (set : ActionParams → ℚ → ActionParams) (get : ActionParams → ℚ) : Method Mat :=
  fun heap stack =>
    if stack.length < 1 then .ok ([], heap)
    else do
      let a ← paramsAt heap stack 1
      if stack.length ≥ 2 then
        pure (stack.getLast?.toList, heap.set a.1 (.actionParams (set a.2 (slot stack 2).tonumber)))
      else pure ([.number (get a.2)], heap)

def paramFloat (f : FloatField) : Method Mat :=
  paramNumber (fun a x => { a with float := Function.update a.float f x }) fun a => a.float f

def paramInt (f : IntField) : Method Mat :=
  paramNumber (fun a x => { a with int := Function.update a.int f (toInt x) }) fun a => a.int f

/-- A boolean is converted from and to a number. -/
def paramBool (f : BoolField) : Method Mat :=
  paramNumber (fun a x => { a with bool := Function.update a.bool f (x ≠ 0) })
    fun a => if a.bool f then 1 else 0

/-- The macro `LuaActionParams_VEC3`. -/
def paramVec (f : VecField) : Method Mat := fun heap stack =>
  if stack.length < 1 then .ok ([], heap)
  else do
    let a ← paramsAt heap stack 1
    if stack.length ≥ 2 then
      let v ← vector3At heap stack 2
      pure (stack.getLast?.toList,
        heap.set a.1 (.actionParams { a.2 with vec := Function.update a.2.vec f v.2 }))
    else pure (pushVector3 heap (a.2.vec f))

end Methods

end LuaTT.ValueObjects
