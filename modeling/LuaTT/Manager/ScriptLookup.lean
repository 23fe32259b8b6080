import LuaTT.Manager.Registrations

/-! `LuaScriptManager::Get_Script` and `Get_ScriptByName`, and the Lua functions that call a method of what they
find. Observers are of several classes, and the lookups cast each match to a script. -/
namespace LuaTT.ScriptLookup
open Lua
open Registrations (slot)
set_option autoImplicit false

/-! ## Objects and their observers -/

/-- Each class is derived from the one before. -/
inductive ObserverClass
  | gameObjObserver
  | scriptImp
  | luaScript

/-- Whether an object of the first class is one of the second. -/
def ObserverClass.isA : ObserverClass → ObserverClass → Bool
  | _, .gameObjObserver => true
  | .scriptImp, .scriptImp => true
  | .luaScript, .scriptImp => true
  | .luaScript, .luaScript => true
  | _, _ => false

structure Observer where
  cls : ObserverClass
  id : ℤ
  name : Bytes

/-- Only a scriptable object has observers. -/
structure GameObject where
  id : ℤ
  observers : Option (List Observer)

structure Vector3 where
  x : Float32
  y : Float32
  z : Float32

/-- A method called through the pointer found. -/
inductive Method
  | destroyScript
  | getFloatParameter (name : Option Bytes)
  | getVector3Parameter (name : Option Bytes)
  | getIntParameter (name : Option Bytes)
  | getBoolParameter (name : Option Bytes)
  | getParameter (name : Option Bytes)
  | getName
  | startTimer (time : Float32) (number : ℤ)
  | installHook (key : Option Bytes)
  | removeHook
  | getID
  | getParameterCount
  | getParameterAt (i : ℕ)

/-- The class the pointer has been cast to. -/
def Method.receiver : Method → ObserverClass
  | installHook _ => .luaScript
  | removeHook => .luaScript
  | _ => .scriptImp

/-- The engine: its objects, and what its scripts answer. -/
structure Engine where
  findObject : ℤ → Option GameObject
  floatParameter : Observer → Option Bytes → Float32
  vector3Parameter : Observer → Option Bytes → Vector3
  intParameter : Observer → Option Bytes → ℤ
  boolParameter : Observer → Option Bytes → Bool
  stringParameter : Observer → Option Bytes → Option Bytes
  parameterCount : Observer → ℤ
  parameter : Observer → ℕ → Option Bytes
  /-- `Vector3()`. -/
  vector3 : Vector3
  /-- A userdata with the metatable `Vector3`. -/
  boxVector3 : Vector3 → LuaValue
  /-- A table with these strings at 1, 2, … -/
  newTable : List Bytes → LuaValue

/-- An argument of a format. -/
inductive Printed
  | d (i : ℤ)
  | s (text : Option Bytes)

/-- What goes to the console and what to Lua. -/
structure Answer where
  console : List (Bytes × List Printed) := []
  results : List LuaValue := []

structure Effect where
  calls : List (Observer × Method)
  answer : Answer

/-- `none` for an object that has no observers to read. -/
def getScript (obj : GameObject) (scriptID : ℤ) : Option (Option Observer) :=
  obj.observers.map fun observers => observers.find? fun o => o.id = scriptID

/-- `strcmp` with a null pointer is undefined. -/
def getScriptByName (obj : GameObject) (name : Option Bytes) : Option (List Observer) :=
  obj.observers.bind fun observers =>
    if observers.isEmpty then some []
    else name.map fun name => observers.filter fun o => o.name = name

/-! ## The functions that look up an id -/

/-- What differs between them. All of them take the script's id and the object's first. -/
structure Lookup where
  arity : ℕ
  receiver : ObserverClass
  method : List LuaValue → Method
  receiver_method : ∀ args, (method args).receiver = receiver
  results : Observer → List LuaValue → List LuaValue
  noObject : ℤ → List LuaValue → Answer
  noScript : GameObject → ℤ → List LuaValue → Answer

def scriptID (args : List LuaValue) : ℤ := toCInt (slot args 1).tonumber

def objID (args : List LuaValue) : ℤ := toCInt (slot args 2).tonumber

/-- `Name` or `TheKey`. -/
def text (args : List LuaValue) : Option Bytes := (slot args 3).tostring

section Functions
variable (E : Engine)

/-- A wrapper with the function under it; `none` where it reads what is no list of observers. -/
def Lookup.call (f : Lookup) (args : List LuaValue) : Option Effect :=
  if args.length < f.arity then some ⟨[], {}⟩
  else
    match E.findObject (objID args) with
    | none => some ⟨[], f.noObject (scriptID args) args⟩
    | some obj => (getScript obj (scriptID args)).map fun found =>
      match found with
      | none => ⟨[], f.noScript obj (scriptID args) args⟩
      | some o => ⟨[(o, f.method args)], { results := f.results o args }⟩

def destroyScript : Lookup where
  arity := 2
  receiver := .scriptImp
  method _ := .destroyScript
  receiver_method _ := rfl
  results _ _ := []
  noObject id _ := { console := [(bytes "LuaTT: Invalid object to destroy! ScriptID: %d\n", [.d id])] }
  noScript obj id _ :=
    { console := [(bytes "LuaTT: Error while destroying script! Object: %d ScriptID: %d\n",
        [.d obj.id, .d id])] }

/-- The parameter functions differ in the method, in two texts and in what they give without a script. -/
def getParameter (kind : String) (method : Option Bytes → Method)
    (hm : ∀ name, (method name).receiver = .scriptImp)
    (parameter : Observer → Option Bytes → LuaValue) (noObject noScript : LuaValue) : Lookup where
  arity := 3
  receiver := .scriptImp
  method args := method (text args)
  receiver_method args := hm (text args)
  results o args := [parameter o (text args)]
  noObject id args :=
    { console := [(bytes "LuaTT: Invalid object! ScriptID: %d Name: %s\n", [.d id, .s (text args)])]
      results := [noObject] }
  noScript obj id args :=
    { console := [(bytes "LuaTT: Error while trying to get " ++ bytes kind ++
        bytes " parameter! Object: %d ScriptID: %d Name: %s\n", [.d obj.id, .d id, .s (text args)])]
      results := [noScript] }

def getFloatParameter : Lookup :=
  getParameter "float" .getFloatParameter (fun _ => rfl)
    (fun o name => .number (E.floatParameter o name).toFloat) (.number 0) (.number 0)

def getVector3Parameter : Lookup :=
  getParameter "float" .getVector3Parameter (fun _ => rfl)
    (fun o name => E.boxVector3 (E.vector3Parameter o name)) (E.boxVector3 E.vector3) (E.boxVector3 E.vector3)

def getIntParameter : Lookup :=
  getParameter "int" .getIntParameter (fun _ => rfl)
    (fun o name => ofInt (E.intParameter o name)) (.number 0) (.number 0)

def getBoolParameter : Lookup :=
  getParameter "bool" .getBoolParameter (fun _ => rfl)
    (fun o name => .boolean (E.boolParameter o name)) (.boolean false) (.boolean false)

def getStringParameter : Lookup :=
  getParameter "string" .getParameter (fun _ => rfl)
    (fun o name => ofCString (E.stringParameter o name))
    (.string (bytes "ERROR OBJECT")) (.string (bytes "ERROR"))

def getScriptName : Lookup where
  arity := 2
  receiver := .scriptImp
  method _ := .getName
  receiver_method _ := rfl
  results o _ := [ofCString (some o.name)]
  noObject _ _ := {}
  noScript _ _ _ := {}

def startTimer : Lookup where
  arity := 4
  receiver := .scriptImp
  method args := .startTimer (slot args 3).tonumber.toFloat32 (toCInt (slot args 4).tonumber)
  receiver_method _ := rfl
  results _ _ := []
  noObject _ _ := {}
  noScript _ _ _ := {}

def installHook : Lookup where
  arity := 3
  receiver := .luaScript
  method args := .installHook (text args)
  receiver_method _ := rfl
  results _ _ := []
  noObject _ _ := {}
  noScript _ _ _ := {}

def removeHook : Lookup where
  arity := 2
  receiver := .luaScript
  method _ := .removeHook
  receiver_method _ := rfl
  results _ _ := []
  noObject _ _ := {}
  noScript _ _ _ := {}

/-! ## `Lua_Get_Script_Parameters` -/

/-- The names of the parameters, with commas between them. -/
def parameterNames (o : Observer) : Bytes :=
  (bytes ",").intercalate ((List.range (E.parameterCount o).toNat).map fun i => (E.parameter o i).getD [])

/-- The loop over the scripts found: the methods called on each, and the strings of those with an id. -/
def scanScript (o : Observer) : List (Observer × Method) × List Bytes :=
  if o.id = 0 then ([(o, .getID)], [])
  else
    ((o, .getID) :: (o, .getParameterCount) ::
      (List.range (E.parameterCount o).toNat).map fun i => (o, .getParameterAt i), [parameterNames E o])

/-- The object comes first and the name second. -/
def getScriptParameters (args : List LuaValue) : Option Effect :=
  if args.length < 2 then some ⟨[], {}⟩
  else
    match E.findObject (toCInt (slot args 1).tonumber) with
    | none => some ⟨[], {}⟩
    | some obj => (getScriptByName obj (slot args 2).tostring).map fun scriptList =>
      if scriptList.isEmpty then ⟨[], {}⟩
      else ⟨scriptList.flatMap fun o => (scanScript E o).1,
        { results := [E.newTable (scriptList.flatMap fun o => (scanScript E o).2)] }⟩

/-! ## Type safety -/

/-- The call is defined, and each method is called on an object that has it. -/
def CastsRight (effect : Option Effect) : Prop :=
  ∃ e, effect = some e ∧ ∀ c ∈ e.calls, c.1.cls.isA c.2.receiver

variable {E}

theorem castsRight_none : ¬ CastsRight none := by
  rintro ⟨_, h, _⟩
  cases h

theorem castsRight_some {e : Effect} :
    CastsRight (some e) ↔ ∀ c ∈ e.calls, c.1.cls.isA c.2.receiver := by
  constructor
  · rintro ⟨_, h, hall⟩
    rwa [Option.some.inj h]
  · intro hall
    exact ⟨e, rfl, hall⟩

/-- What `f` is to find: a script of its class with the id. -/
def Lookup.Wanted (f : Lookup) (args : List LuaValue) (o : Observer) : Prop :=
  o.id = scriptID args ∧ o.cls.isA f.receiver

variable (E) in
/-- A call of `f` with the arguments it takes casts rightly and finds a script that is there. -/
structure Lookup.TypeSafe (f : Lookup) (args : List LuaValue) : Prop where
  casts : CastsRight (f.call E args)
  finds : f.arity ≤ args.length → ∀ obj observers, E.findObject (objID args) = some obj →
    obj.observers = some observers → (∃ o ∈ observers, f.Wanted args o) →
      ∃ e, f.call E args = some e ∧ ∃ c ∈ e.calls, f.Wanted args c.1

/-- The object has observers, and the first with the id has the class that `f` casts to. -/
def Lookup.Fits (f : Lookup) (args : List LuaValue) (obj : GameObject) : Prop :=
  ∃ observers, obj.observers = some observers ∧
    ∀ o, observers.find? (fun o => o.id = scriptID args) = some o → o.cls.isA f.receiver

theorem Lookup.call_few {f : Lookup} {args : List LuaValue} (h : args.length < f.arity) :
    f.call E args = some ⟨[], {}⟩ := if_pos h

theorem Lookup.call_noObject {f : Lookup} {args : List LuaValue} (h : f.arity ≤ args.length)
    (ho : E.findObject (objID args) = none) :
    f.call E args = some ⟨[], f.noObject (scriptID args) args⟩ := by
  simp only [Lookup.call, if_neg (Nat.not_lt.mpr h), ho]

theorem Lookup.call_object {f : Lookup} {args : List LuaValue} {obj : GameObject}
    (h : f.arity ≤ args.length) (ho : E.findObject (objID args) = some obj) :
    f.call E args = (getScript obj (scriptID args)).map fun found =>
      found.elim ⟨[], f.noScript obj (scriptID args) args⟩
        fun o => ⟨[(o, f.method args)], { results := f.results o args }⟩ := by
  simp only [Lookup.call, if_neg (Nat.not_lt.mpr h), ho]
  congr 1
  funext found
  cases found with
  | none => rfl
  | some o => rfl

/-- On an object, the casts are right exactly if the first match is. -/
theorem Lookup.castsRight_object {f : Lookup} {args : List LuaValue} {obj : GameObject}
    (h : f.arity ≤ args.length) (ho : E.findObject (objID args) = some obj) :
    CastsRight (f.call E args) ↔ f.Fits args obj := by
  rw [Lookup.call_object h ho, getScript, Lookup.Fits]
  cases obj.observers with
  | none => simp [castsRight_none]
  | some observers =>
    cases hfind : observers.find? fun o => o.id = scriptID args with
    | none => simp [castsRight_some, hfind]
    | some o => simp [castsRight_some, hfind, f.receiver_method]

/-- The first match is found, and it has the id. -/
theorem Lookup.finds_of_fits {f : Lookup} {args : List LuaValue} {obj : GameObject}
    {observers : List Observer} (h : f.arity ≤ args.length)
    (ho : E.findObject (objID args) = some obj) (hobs : obj.observers = some observers)
    (hfits : f.Fits args obj) (hwanted : ∃ o ∈ observers, f.Wanted args o) :
    ∃ e, f.call E args = some e ∧ ∃ c ∈ e.calls, f.Wanted args c.1 := by
  obtain ⟨_, hobs', hfirst⟩ := hfits
  obtain rfl := Option.some.inj (hobs.symm.trans hobs')
  rw [Lookup.call_object h ho, getScript, hobs]
  cases hfind : observers.find? fun o => o.id = scriptID args with
  | none =>
    obtain ⟨o, hmem, hid, _⟩ := hwanted
    exact absurd hid (by simpa using List.find?_eq_none.mp hfind o hmem)
  | some o =>
    have hid : o.id = scriptID args := by simpa using List.find?_some hfind
    refine ⟨_, by simp only [hfind, Option.map_some]; rfl, (o, f.method args), ?_, hid, hfirst o hfind⟩
    exact List.mem_singleton_self _

theorem Lookup.typeSafe_iff (f : Lookup) (args : List LuaValue) :
    f.TypeSafe E args ↔
      (f.arity ≤ args.length → ∀ obj, E.findObject (objID args) = some obj → f.Fits args obj) := by
  constructor
  · intro hsafe h obj ho
    exact (Lookup.castsRight_object h ho).mp hsafe.casts
  · intro hfits
    refine ⟨?_, fun h obj observers ho hobs => Lookup.finds_of_fits h ho hobs (hfits h obj ho)⟩
    by_cases h : f.arity ≤ args.length
    · cases ho : E.findObject (objID args) with
      | none =>
        rw [Lookup.call_noObject h ho, castsRight_some]
        simp
      | some obj => exact (Lookup.castsRight_object h ho).mpr (hfits h obj ho)
    · rw [Lookup.call_few (Nat.not_le.mp h), castsRight_some]
      simp

/-! ### By name -/

variable (E) in
/-- A call casts rightly and finds every script of the name. -/
structure ParametersTypeSafe (args : List LuaValue) : Prop where
  casts : CastsRight (getScriptParameters E args)
  finds : 2 ≤ args.length → ∀ obj observers, E.findObject (toCInt (slot args 1).tonumber) = some obj →
    obj.observers = some observers → ∀ o ∈ observers, (slot args 2).tostring = some o.name →
      o.cls.isA .scriptImp → ∃ e, getScriptParameters E args = some e ∧ ∃ c ∈ e.calls, c.1 = o

/-- There is nothing to compare, or a name, and each observer that has it is a script. -/
def NameFits (args : List LuaValue) (obj : GameObject) : Prop :=
  ∃ observers, obj.observers = some observers ∧ (observers = [] ∨
    ∃ name, (slot args 2).tostring = some name ∧ ∀ o ∈ observers, o.name = name → o.cls.isA .scriptImp)

theorem scanScript_calls (o : Observer) {c : Observer × Method} (hc : c ∈ (scanScript E o).1) :
    c.1 = o ∧ c.2.receiver = .scriptImp := by
  unfold scanScript at hc
  split_ifs at hc
  · rw [List.mem_singleton.mp hc]
    exact ⟨rfl, rfl⟩
  · rw [List.mem_cons, List.mem_cons, List.mem_map] at hc
    obtain rfl | rfl | ⟨_, _, rfl⟩ := hc
    · exact ⟨rfl, rfl⟩
    · exact ⟨rfl, rfl⟩
    · exact ⟨rfl, rfl⟩

theorem getID_mem_scanScript (o : Observer) : (o, .getID) ∈ (scanScript E o).1 := by
  unfold scanScript
  split_ifs
  · exact List.mem_singleton_self _
  · exact List.mem_cons_self

/-- The calls of the loop, also where the list is empty. -/
theorem getScriptParameters_object {args : List LuaValue} {obj : GameObject} (h : 2 ≤ args.length)
    (ho : E.findObject (toCInt (slot args 1).tonumber) = some obj) :
    (getScriptParameters E args).map (·.calls) = (getScriptByName obj (slot args 2).tostring).map
      fun scriptList => scriptList.flatMap fun o => (scanScript E o).1 := by
  simp only [getScriptParameters, if_neg (Nat.not_lt.mpr h), ho, Option.map_map]
  congr 1
  funext scriptList
  cases scriptList with
  | nil => rfl
  | cons o rest => rfl

theorem castsRight_iff_calls {effect : Option Effect} :
    CastsRight effect ↔ ∃ calls, effect.map (·.calls) = some calls ∧ ∀ c ∈ calls, c.1.cls.isA c.2.receiver := by
  cases effect with
  | none => simp [castsRight_none]
  | some e => simp [castsRight_some]

theorem scans_castRight {scriptList : List Observer} :
    (∀ c ∈ scriptList.flatMap fun o => (scanScript E o).1, c.1.cls.isA c.2.receiver) ↔
      ∀ o ∈ scriptList, o.cls.isA .scriptImp := by
  constructor
  · intro hall o ho
    exact hall (o, .getID) (List.mem_flatMap.mpr ⟨o, ho, getID_mem_scanScript o⟩)
  · intro hall c hc
    obtain ⟨o, ho, hc⟩ := List.mem_flatMap.mp hc
    obtain ⟨rfl, hreceiver⟩ := scanScript_calls o hc
    rw [hreceiver]
    exact hall c.1 ho

theorem parameters_castsRight {args : List LuaValue} {obj : GameObject} (h : 2 ≤ args.length)
    (ho : E.findObject (toCInt (slot args 1).tonumber) = some obj) :
    CastsRight (getScriptParameters E args) ↔ NameFits args obj := by
  rw [castsRight_iff_calls, getScriptParameters_object h ho, getScriptByName, NameFits]
  cases obj.observers with
  | none => simp
  | some observers =>
    cases observers with
    | nil => simp
    | cons o rest =>
      cases (slot args 2).tostring with
      | none => simp
      | some name =>
        simp only [Option.bind_some, List.isEmpty_cons, Bool.false_eq_true, if_false, Option.map_some,
          Option.some.injEq, exists_eq_left', scans_castRight]
        simp

theorem parameters_finds {args : List LuaValue} {obj : GameObject} {observers : List Observer}
    (h : 2 ≤ args.length) (ho : E.findObject (toCInt (slot args 1).tonumber) = some obj)
    (hobs : obj.observers = some observers) {o : Observer} (hmem : o ∈ observers)
    (hname : (slot args 2).tostring = some o.name) :
    ∃ e, getScriptParameters E args = some e ∧ ∃ c ∈ e.calls, c.1 = o := by
  have hne : observers.isEmpty = false := by
    cases observers with
    | nil => cases hmem
    | cons _ _ => rfl
  have hcalls := getScriptParameters_object h ho
  rw [getScriptByName, hobs, hname, Option.bind_some, hne] at hcalls
  obtain ⟨e, he, hec⟩ := Option.map_eq_some_iff.mp hcalls
  refine ⟨e, he, (o, .getID), ?_, rfl⟩
  rw [hec]
  exact List.mem_flatMap.mpr
    ⟨o, List.mem_filter.mpr ⟨hmem, decide_eq_true rfl⟩, getID_mem_scanScript o⟩

theorem parametersTypeSafe_iff (args : List LuaValue) :
    ParametersTypeSafe E args ↔ (2 ≤ args.length →
      ∀ obj, E.findObject (toCInt (slot args 1).tonumber) = some obj → NameFits args obj) := by
  constructor
  · intro hsafe h obj ho
    exact (parameters_castsRight h ho).mp hsafe.casts
  · intro hfits
    refine ⟨?_, fun h obj observers ho hobs o hmem hname _ => parameters_finds h ho hobs hmem hname⟩
    by_cases h : 2 ≤ args.length
    · cases ho : E.findObject (toCInt (slot args 1).tonumber) with
      | none => simp [getScriptParameters, Nat.not_lt.mpr h, ho, castsRight_some]
      | some obj => exact (parameters_castsRight h ho).mpr (hfits h obj ho)
    · simp [getScriptParameters, Nat.not_le.mp h, castsRight_some]

/-! ## Every function -/

/-- The functions that are given the id of a script. -/
def lookups (E : Engine) : List Lookup :=
  [destroyScript, getFloatParameter E, getVector3Parameter E, getIntParameter E, getBoolParameter E,
    getStringParameter E, getScriptName, startTimer, installHook, removeHook]

/-- Each function is type safe exactly where the class it casts to is that of the first observer with the id,
or of all with the name. -/
theorem script_lookup (E : Engine) (args : List LuaValue) :
    (∀ f ∈ lookups E, f.TypeSafe E args ↔
      (f.arity ≤ args.length → ∀ obj, E.findObject (objID args) = some obj → f.Fits args obj)) ∧
    (ParametersTypeSafe E args ↔ (2 ≤ args.length →
      ∀ obj, E.findObject (toCInt (slot args 1).tonumber) = some obj → NameFits args obj)) :=
  ⟨fun f _ => f.typeSafe_iff args, parametersTypeSafe_iff args⟩

end Functions

/-- An engine with one object, number 1, and scripts that have no parameters. -/
def oneObject (observers : Option (List Observer)) : Engine where
  findObject id := if id = 1 then some ⟨1, observers⟩ else none
  floatParameter _ _ := 0
  vector3Parameter _ _ := ⟨0, 0, 0⟩
  intParameter _ _ := 0
  boolParameter _ _ := false
  stringParameter _ _ := none
  parameterCount _ := 0
  parameter _ _ := none
  vector3 := ⟨0, 0, 0⟩
  boxVector3 _ := .userdata 0
  newTable _ := .table 0

/-- Ahead of the script with id 5 stands an observer that is none, and ahead of the Lua script 6 another script. -/
def sharedIds : List Observer :=
  [⟨.gameObjObserver, 5, bytes "Pathfind"⟩, ⟨.luaScript, 5, bytes "Guard"⟩, ⟨.scriptImp, 6, bytes "M00_Base"⟩,
    ⟨.luaScript, 6, bytes "Guard"⟩]

/-- `DestroyScript(5, 1)`, `Install_Hook(6, 1, "key")`, and `Get_Script_Name(5, 1)` of an object without
observers. -/
theorem script_lookup_confused :
    ¬ destroyScript.TypeSafe (oneObject sharedIds) [.number 5, .number 1] ∧
    ¬ installHook.TypeSafe (oneObject sharedIds) [.number 6, .number 1, .string (bytes "key")] ∧
    ¬ getScriptName.TypeSafe (oneObject none) [.number 5, .number 1] := by
  refine ⟨fun h => ?_, fun h => ?_, fun h => ?_⟩
  · obtain ⟨_, he, hall⟩ := h.casts
    obtain rfl := Option.some.inj he
    exact absurd (hall _ (List.mem_singleton_self _)) (by decide)
  · obtain ⟨_, he, hall⟩ := h.casts
    obtain rfl := Option.some.inj he
    exact absurd (hall _ (List.mem_singleton_self _)) (by decide)
  · obtain ⟨_, he, _⟩ := h.casts
    cases he

end LuaTT.ScriptLookup
