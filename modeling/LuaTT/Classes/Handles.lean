import LuaTT.Manager.Registrations

/-! The methods of `LuaScriptedDialogClass`, `LuaHUDSurfaceClass` and `LuaHUDElementClass`. A handle is a
userdata with a pointer to an object of the engine, which may be null. -/
namespace LuaTT.Handles
open Lua
open Registrations (slot)
set_option autoImplicit false

/-! ## Handles -/

/-- The registered classes of userdata. -/
inductive Class
  | scriptedControl
  | scriptedDialog
  | hudSurface
  | hudLineElement
  | hudRectangleElement
  | hudOutlineElement
  | hudTextElement
  | vector3
  | matrix3
  | box
  | actionParams
  | other
  deriving DecidableEq

/-- The classes that `LuaHUDElementClass::GetInstance` tests for. -/
def Class.isElement : Class → Bool
  | hudLineElement => true
  | hudRectangleElement => true
  | hudOutlineElement => true
  | hudTextElement => true
  | _ => false

/-- An object of the engine. -/
abbrev Addr := ℕ

structure Userdata where
  cls : Class
  ptr : Option Addr

/-- What the values of a state refer to. -/
structure Memory where
  userdata : ℕ → Userdata
  rawgeti : ℕ → ℤ → LuaValue

inductive LuaError
  | badArgument (n : ℕ) (expected : String)
  | message (text : String)

/-- What a correct wrapper never does. -/
inductive Hazard
  | nullDereference
  | foreignUserdata
  | uninitialisedRead
  deriving DecidableEq

inductive Result
  | value (v : LuaValue)
  | handle (cls : Class) (ptr : Option Addr)
  /-- A new table with the numbers at 1, 2, … -/
  | table (numbers : List LuaNumber)

inductive Outcome (S : Type)
  | error (e : LuaError)
  | done (s : S) (results : List Result)
  | hazard (h : Hazard)

/-! ## The engine -/

structure Rect where
  left : LuaNumber
  top : LuaNumber
  right : LuaNumber
  bottom : LuaNumber

def Rect.numbers (r : Rect) : List LuaNumber := [r.left, r.top, r.right, r.bottom]

/-- `ScriptedDialogClass` and `ScriptedPopupDialogClass`, over the engine's states. A text that it is given may
be NULL, which it is taken to accept. -/
structure DialogEngine (S : Type) where
  getDialogType : S → Addr → LuaNumber
  getDialogID : S → Addr → LuaNumber
  getClientID : S → Addr → LuaNumber
  isDirty : S → Addr → Bool
  setDirty : S → Addr → Bool → S
  addControl : S → Addr → Addr → S
  focusControl : S → Addr → Addr → S
  createControl : S → Addr → ℤ → S × Option Addr
  findControl : S → Addr → ℤ → Option Addr
  getControlCount : S → Addr → LuaNumber
  getControlIndex : S → Addr → ℤ → Option Addr
  removeControl : S → Addr → Addr → S
  clearControls : S → Addr → S
  asPopup : S → Addr → Option Addr
  getOrientation : S → Addr → LuaNumber
  getDialogSize : S → Addr → LuaNumber × LuaNumber
  getDialogLocation : S → Addr → LuaNumber × LuaNumber
  getDialogTitle : S → Addr → Option Bytes
  setDialogSize : S → Addr → ℤ → ℤ → S
  setDialogLocation : S → Addr → ℤ → ℤ → S
  setDialogTitle : S → Addr → Option Bytes → S
  setOrientation : S → Addr → ℤ → S

/-- `HUDElementType`. -/
inductive ElementType
  | line
  | rectangle
  | outline
  | text

def ElementType.cls : ElementType → Class
  | line => .hudLineElement
  | rectangle => .hudRectangleElement
  | outline => .hudOutlineElement
  | text => .hudTextElement

/-- `HUDSurfaceClass` and `HUDElementClass`, which is taken to accept NULL for a texture as well. -/
structure HUDEngine (S : Type) where
  getSurfaceID : S → Addr → LuaNumber
  getClientID : S → Addr → LuaNumber
  getBoundaryArea : S → Addr → Rect
  getAspectRatio : S → Addr → LuaNumber
  getSurfaceTexture : S → Addr → Option Bytes
  setSurfaceTexture : S → Addr → Option Bytes → S
  surfaceIsDirty : S → Addr → Bool
  surfaceSetDirty : S → Addr → Bool → S
  /-- The enumerators have numbers of the engine's own. -/
  elementType : ℤ → Option ElementType
  createElement : S → Addr → ℤ → S × Option Addr
  findElement : S → Addr → ℤ → Option Addr
  getElementCount : S → Addr → LuaNumber
  getElementIndex : S → Addr → ℤ → Option Addr
  removeElementID : S → Addr → ℤ → S
  removeElement : S → Addr → Addr → S
  clearElements : S → Addr → S
  getElementType : S → Addr → ℤ
  getElementID : S → Addr → LuaNumber
  isDirty : S → Addr → Bool
  setDirty : S → Addr → Bool → S
  isRendered : S → Addr → Bool
  setRendered : S → Addr → Bool → S
  getUVRange : S → Addr → Rect
  setUVRange : S → Addr → Rect → S

/-! ## `GetInstance` -/

section Methods
variable {S : Type}

/-- The outcome of a call on a stack. -/
abbrev Method (S : Type) := Memory → S → List LuaValue → Outcome S

/-- `luaL_checkudata`. -/
def checkudata (cls : Class) (expected : String) (mem : Memory) (args : List LuaValue) (n : ℕ) :
    Except LuaError (Option Addr) :=
  match slot args n with
  | .userdata ref =>
    if (mem.userdata ref).cls = cls then .ok (mem.userdata ref).ptr else .error (.badArgument n expected)
  | _ => .error (.badArgument n expected)

/-- `GetInstance` of a class: first the type, then the class. -/
def getInstance (cls : Class) (expected : String) (mem : Memory) (args : List LuaValue) (n : ℕ) :
    Except LuaError (Option Addr) :=
  match slot args n with
  | .userdata _ => checkudata cls expected mem args n
  | _ => .error (.badArgument n "userdata")

def dialogAt : Memory → List LuaValue → ℕ → Except LuaError (Option Addr) :=
  getInstance .scriptedDialog "ScriptedDialogClass"

def controlAt : Memory → List LuaValue → ℕ → Except LuaError (Option Addr) :=
  getInstance .scriptedControl "ScriptedControlClass"

def surfaceAt : Memory → List LuaValue → ℕ → Except LuaError (Option Addr) :=
  getInstance .hudSurface "HUDSurfaceClass"

/-- A userdata of another class counts as a null pointer. -/
def elementAt (mem : Memory) (args : List LuaValue) (n : ℕ) : Except LuaError (Option Addr) :=
  match slot args n with
  | .userdata ref => .ok (if (mem.userdata ref).cls.isElement then (mem.userdata ref).ptr else none)
  | _ => .error (.badArgument n "userdata")

/-- The frame of every method: enough arguments, and an object. -/
def onObject (objectAt : Memory → List LuaValue → ℕ → Except LuaError (Option Addr)) (arity : ℕ)
    (body : S → Addr → Outcome S) (mem : Memory) (s : S) (args : List LuaValue) : Outcome S :=
  if args.length < arity then .done s []
  else
    match objectAt mem args 1 with
    | .error e => .error e
    | .ok none => .done s []
    | .ok (some a) => body s a

/-- A method that asks the engine for values. -/
def getter (objectAt : Memory → List LuaValue → ℕ → Except LuaError (Option Addr))
    (get : S → Addr → List Result) : Method S := fun mem s args =>
  onObject objectAt 1 (fun s a => .done s (get s a)) mem s args

/-- A method that changes the engine's state; with `return 1` the last argument is the result. -/
def setter (objectAt : Memory → List LuaValue → ℕ → Except LuaError (Option Addr)) (arity : ℕ)
    (returns : Bool) (set : S → Addr → List LuaValue → S) : Method S := fun mem s args =>
  onObject objectAt arity
    (fun s a => .done (set s a args) (if returns then args.getLast?.toList.map .value else [])) mem s args

def pushnumber (n : LuaNumber) : Result := .value (.number n)

def pushboolean (b : Bool) : Result := .value (.boolean b)

def pushstring (text : Option Bytes) : Result := .value (ofCString text)

/-- `Wrap`, where the pointer is not null. -/
def wrapped (cls : Class) (s : S) (ptr : Option Addr) : Outcome S :=
  match ptr with
  | none => .done s []
  | some p => .done s [.handle cls (some p)]

/-! ## `LuaScriptedDialogClass` -/

section Dialog
variable (E : DialogEngine S)

def dialogGetDialogType : Method S := getter dialogAt fun s a => [pushnumber (E.getDialogType s a)]

def dialogGetDialogID : Method S := getter dialogAt fun s a => [pushnumber (E.getDialogID s a)]

def dialogGetClientID : Method S := getter dialogAt fun s a => [pushnumber (E.getClientID s a)]

def dialogIsDirty : Method S := getter dialogAt fun s a => [pushboolean (E.isDirty s a)]

def dialogSetDirty : Method S :=
  setter dialogAt 2 true fun s a args => E.setDirty s a (slot args 2).toboolean

/-- `Add_Control` and `Focus_Control`. -/
def withControl (f : S → Addr → Addr → S) : Method S := fun mem s args =>
  onObject dialogAt 2 (fun s a =>
    match controlAt mem args 2 with
    | .error e => .error e
    | .ok none => .done s []
    | .ok (some control) => .done (f s a control) []) mem s args

def dialogAddControl : Method S := withControl E.addControl

def dialogFocusControl : Method S := withControl E.focusControl

/-- The methods that give a control by a number. -/
def controlMethod (get : S → Addr → ℤ → S × Option Addr) : Method S := fun mem s args =>
  onObject dialogAt 2 (fun s a =>
    let (s, control) := get s a (slot args 2).tointeger
    wrapped .scriptedControl s control) mem s args

def dialogCreateControl : Method S := controlMethod E.createControl

def dialogFindControl : Method S := controlMethod fun s a id => (s, E.findControl s a id)

def dialogGetControlCount : Method S := getter dialogAt fun s a => [pushnumber (E.getControlCount s a)]

def dialogGetControlIndex : Method S := controlMethod fun s a index => (s, E.getControlIndex s a index)

/-- `luaL_checkudata` does not return where the argument is no control, so the id is never read. -/
def dialogRemoveControl : Method S := fun mem s args =>
  onObject dialogAt 2 (fun s a =>
    match checkudata .scriptedControl "ScriptedControlClass" mem args 2 with
    | .error e => .error e
    | .ok _ =>
      match controlAt mem args 2 with
      | .error e => .error e
      | .ok none => .done s []
      | .ok (some control) => .done (E.removeControl s a control) []) mem s args

def dialogClearControls : Method S := setter dialogAt 1 false fun s a _ => E.clearControls s a

def popupGetter (get : S → Addr → List Result) : Method S :=
  getter dialogAt fun s a => (E.asPopup s a).elim [] (get s)

def popupSetter (arity : ℕ) (set : S → Addr → List LuaValue → S) : Method S :=
  setter dialogAt arity false fun s a args => (E.asPopup s a).elim s fun popup => set s popup args

def dialogGetOrientation : Method S := popupGetter E fun s a => [pushnumber (E.getOrientation s a)]

def dialogGetDialogSize : Method S :=
  popupGetter E fun s a => [pushnumber (E.getDialogSize s a).1, pushnumber (E.getDialogSize s a).2]

def dialogGetDialogLocation : Method S :=
  popupGetter E fun s a => [pushnumber (E.getDialogLocation s a).1, pushnumber (E.getDialogLocation s a).2]

def dialogGetDialogTitle : Method S := popupGetter E fun s a => [pushstring (E.getDialogTitle s a)]

def dialogSetDialogSize : Method S := popupSetter E 3 fun s a args =>
  E.setDialogSize s a (slot args 2).tointeger (slot args 3).tointeger

def dialogSetDialogLocation : Method S := popupSetter E 3 fun s a args =>
  E.setDialogLocation s a (slot args 2).tointeger (slot args 3).tointeger

def dialogSetDialogTitle : Method S :=
  popupSetter E 2 fun s a args => E.setDialogTitle s a (slot args 2).tostring

def dialogSetOrientation : Method S :=
  popupSetter E 2 fun s a args => E.setOrientation s a (slot args 2).tointeger

end Dialog

/-! ## `LuaHUDSurfaceClass` -/

section Surface
variable (E : HUDEngine S)

def surfaceGetSurfaceID : Method S := getter surfaceAt fun s a => [pushnumber (E.getSurfaceID s a)]

def surfaceGetClientID : Method S := getter surfaceAt fun s a => [pushnumber (E.getClientID s a)]

def surfaceGetBoundaryArea : Method S :=
  getter surfaceAt fun s a => (E.getBoundaryArea s a).numbers.map pushnumber

def surfaceGetAspectRatio : Method S := getter surfaceAt fun s a => [pushnumber (E.getAspectRatio s a)]

def surfaceGetSurfaceTexture : Method S := getter surfaceAt fun s a => [pushstring (E.getSurfaceTexture s a)]

def surfaceSetSurfaceTexture : Method S :=
  setter surfaceAt 2 true fun s a args => E.setSurfaceTexture s a (slot args 2).tostring

def surfaceIsDirty : Method S := getter surfaceAt fun s a => [pushboolean (E.surfaceIsDirty s a)]

def surfaceSetDirty : Method S :=
  setter surfaceAt 2 true fun s a args => E.surfaceSetDirty s a (slot args 2).toboolean

/-- The `switch` over the type of an element. -/
def wrapElement (type : ℤ) (s : S) (obj : Option Addr) : Outcome S :=
  match E.elementType type with
  | some t => .done s [.handle t.cls obj]
  | none => .done s []

def surfaceCreateElement : Method S := fun mem s args =>
  onObject surfaceAt 2 (fun s a =>
    let type := (slot args 2).tointeger
    let (s, obj) := E.createElement s a type
    wrapElement E type s obj) mem s args

/-- `Find_Element` and `Get_Element_Index` ask what they have found for its type. -/
def lookUpElement (find : S → Addr → ℤ → Option Addr) : Method S := fun mem s args =>
  onObject surfaceAt 2 (fun s a =>
    match find s a (slot args 2).tointeger with
    | none => .hazard .nullDereference
    | some obj => wrapElement E (E.getElementType s obj) s (some obj)) mem s args

def surfaceFindElement : Method S := lookUpElement E E.findElement

def surfaceGetElementCount : Method S := getter surfaceAt fun s a => [pushnumber (E.getElementCount s a)]

def surfaceGetElementIndex : Method S := lookUpElement E E.getElementIndex

/-- Any userdata is taken for an element. -/
def surfaceRemoveElement : Method S := fun mem s args =>
  onObject surfaceAt 2 (fun s a =>
    match slot args 2 with
    | .number n => .done (E.removeElementID s a (LuaValue.number n).tointeger) []
    | .userdata ref =>
      if (mem.userdata ref).cls.isElement then
        .done ((mem.userdata ref).ptr.elim s (E.removeElement s a)) []
      else .hazard .foreignUserdata
    | _ => .done s []) mem s args

def surfaceClearElements : Method S := setter surfaceAt 1 false fun s a _ => E.clearElements s a

/-! ## `LuaHUDElementClass` -/

def elementGetElementType : Method S := getter elementAt fun s a => [.value (ofInt (E.getElementType s a))]

def elementGetElementID : Method S := getter elementAt fun s a => [pushnumber (E.getElementID s a)]

def elementIsDirty : Method S := getter elementAt fun s a => [pushboolean (E.isDirty s a)]

def elementSetDirty : Method S :=
  setter elementAt 2 true fun s a args => E.setDirty s a (slot args 2).toboolean

def elementIsRendered : Method S := getter elementAt fun s a => [pushboolean (E.isRendered s a)]

def elementSetRendered : Method S :=
  setter elementAt 2 true fun s a args => E.setRendered s a (slot args 2).toboolean

def elementGetUVRange : Method S := getter elementAt fun s a => [.table (E.getUVRange s a).numbers]

/-- `point[i - 1]` after the loop, which sets it only where the table has a number. -/
def point (mem : Memory) (ref : ℕ) (i : ℤ) : Option LuaNumber :=
  match mem.rawgeti ref i with
  | .number n => some n.toFloat32.toFloat
  | _ => none

def elementSetUVRange : Method S := fun mem s args =>
  onObject elementAt 2 (fun s a =>
    match slot args 2 with
    | .table ref =>
      match point mem ref 1, point mem ref 2, point mem ref 3, point mem ref 4 with
      | some left, some top, some right, some bottom => .done (E.setUVRange s a ⟨left, top, right, bottom⟩) []
      | _, _, _, _ => .hazard .uninitialisedRead
    | _ => .error (.message "Invalid argument #2. Expected a table.")) mem s args

end Surface
end Methods

/-! ## The method tables -/

inductive DialogMethod
  | getDialogType | getDialogID | getClientID | isDirty | setDirty | focusControl | addControl
  | createControl | findControl | getControlCount | getControlIndex | removeControl | clearControls
  | getOrientation | getDialogSize | getDialogLocation | getDialogTitle | setDialogSize
  | setDialogLocation | setDialogTitle | setOrientation

inductive SurfaceMethod
  | getSurfaceID | getClientID | getBoundaryArea | getAspectRatio | getSurfaceTexture
  | setSurfaceTexture | isDirty | setDirty | createElement | findElement | getElementCount
  | getElementIndex | removeElement | clearElements

inductive ElementMethod
  | getElementType | getElementID | isDirty | setDirty | isRendered | setRendered | getUVRange | setUVRange

section Tables
variable {S : Type}

def DialogMethod.run (E : DialogEngine S) : DialogMethod → Method S
  | getDialogType => dialogGetDialogType E
  | getDialogID => dialogGetDialogID E
  | getClientID => dialogGetClientID E
  | isDirty => dialogIsDirty E
  | setDirty => dialogSetDirty E
  | focusControl => dialogFocusControl E
  | addControl => dialogAddControl E
  | createControl => dialogCreateControl E
  | findControl => dialogFindControl E
  | getControlCount => dialogGetControlCount E
  | getControlIndex => dialogGetControlIndex E
  | removeControl => dialogRemoveControl E
  | clearControls => dialogClearControls E
  | getOrientation => dialogGetOrientation E
  | getDialogSize => dialogGetDialogSize E
  | getDialogLocation => dialogGetDialogLocation E
  | getDialogTitle => dialogGetDialogTitle E
  | setDialogSize => dialogSetDialogSize E
  | setDialogLocation => dialogSetDialogLocation E
  | setDialogTitle => dialogSetDialogTitle E
  | setOrientation => dialogSetOrientation E

def SurfaceMethod.run (E : HUDEngine S) : SurfaceMethod → Method S
  | getSurfaceID => surfaceGetSurfaceID E
  | getClientID => surfaceGetClientID E
  | getBoundaryArea => surfaceGetBoundaryArea E
  | getAspectRatio => surfaceGetAspectRatio E
  | getSurfaceTexture => surfaceGetSurfaceTexture E
  | setSurfaceTexture => surfaceSetSurfaceTexture E
  | isDirty => surfaceIsDirty E
  | setDirty => surfaceSetDirty E
  | createElement => surfaceCreateElement E
  | findElement => surfaceFindElement E
  | getElementCount => surfaceGetElementCount E
  | getElementIndex => surfaceGetElementIndex E
  | removeElement => surfaceRemoveElement E
  | clearElements => surfaceClearElements E

def ElementMethod.run (E : HUDEngine S) : ElementMethod → Method S
  | getElementType => elementGetElementType E
  | getElementID => elementGetElementID E
  | isDirty => elementIsDirty E
  | setDirty => elementSetDirty E
  | isRendered => elementIsRendered E
  | setRendered => elementSetRendered E
  | getUVRange => elementGetUVRange E
  | setUVRange => elementSetUVRange E

end Tables

end LuaTT.Handles
