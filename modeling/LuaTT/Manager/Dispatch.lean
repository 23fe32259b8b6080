import LuaTT.Lua.State

/-! The hook dispatchers of `LuaManager`: for an event each of them calls one global function in every
plugin state of `LuaManager::Lua`. Engine objects enter as their ids, `none` for a null pointer, and wide
strings as converted. Here a hook changes the memory of its own state only; `Reentrancy` has what hooks, and
the texts that are printed for their errors, make the engine do meanwhile. -/
namespace LuaTT.Dispatch
open Lua LState
set_option autoImplicit false

def number (i : ℤ) : LuaValue := ofInt i

def float (f : Float32) : LuaValue := .number f.toFloat

def string (s : Bytes) : LuaValue := ofCString (some s)

section Hooks
variable {M : Type} (code : Code M)

/-! ## `LuaManager::Report_Errors` -/

/-- The error is printed, without what the engine does for the text, and handed to `OnError`; a global of that
name that is no function stays on the stack. -/
def reportErrors (L : LState M) (status : ℕ) : LState M × Bool :=
  if status ≠ 0 then
    let err := L.top.tostring
    let L := L.pop 1
    let L := { L with errors := err :: L.errors }
    let L := L.getglobal code (bytes "OnError")
    if L.top.isfunction then
      let (L, status) := (L.push (ofCString err)).pcall code 1 (some 0)
      (if status ≠ 0 then L.pop 1 else L, true)
    else (L, true)
  else (L, false)

/-! ## Families of dispatchers -/

/-- The call of the function on top of the stack, and the report if it raises. -/
def callHook (args : List LuaValue) (nresults : Option ℕ) (L : LState M) : LState M :=
  let (L, status) := (L.pushAll args).pcall code args.length nresults
  (reportErrors code L status).1

def notifyState (name : Bytes) (args : List LuaValue) (L : LState M) : LState M :=
  let L := L.getglobal code name
  if L.top.isfunction then callHook code args (some 0) L else L.setglobal code name

/-- The dispatchers that take no result. -/
def notifyHook (name : Bytes) (args : List LuaValue) (lua : List (LState M)) : List (LState M) :=
  lua.map (notifyState code name args)

/-- The dispatchers that ask for one result, fold it into `ret` and clear the frame. -/
def verdictHook {β : Type} (name : Bytes) (args : List LuaValue) (combine : β → LuaValue → β) :
    β → List (LState M) → List (LState M) × β
  | ret, [] => ([], ret)
  | ret, L :: lua =>
    let L := L.getglobal code name
    if L.top.isfunction then
      let L := callHook code args (some 1) L
      let (lua, ret) := verdictHook name args combine (combine ret L.top) lua
      (L.pop L.gettop :: lua, ret)
    else
      let (lua, ret) := verdictHook name args combine ret lua
      (L.setglobal code name :: lua, ret)

/-- `ret = !ret ? ret : (int)lua_tonumber(L, -1)`. -/
def combineInt (ret : ℤ) (v : LuaValue) : ℤ := if ret = 0 then ret else toCInt v.tonumber

def intVerdictHook (name : Bytes) (args : List LuaValue) (lua : List (LState M)) :
    List (LState M) × Bool :=
  let (lua, ret) := verdictHook code name args combineInt 1 lua
  (lua, ret ≠ 0)

/-- `ret = !ret ? ret : (bool)lua_toboolean(L, -1)`. -/
def combineBool (ret : Bool) (v : LuaValue) : Bool := if !ret then ret else v.toboolean

def boolVerdictHook (name : Bytes) (args : List LuaValue) (lua : List (LState M)) :
    List (LState M) × Bool :=
  verdictHook code name args combineBool true lua

/-- The two dispatchers for connections stop at the first result that is not "CONTINUE". -/
def connectionHook (name : Bytes) (args : List LuaValue) : Bytes → List (LState M) →
    List (LState M) × Bytes
  | ret, [] => ([], ret)
  | ret, L :: lua =>
    let L := L.getglobal code name
    if L.top.isfunction then
      let L := callHook code args (some 1) L
      let ret := L.top.tostring.getD (bytes "CONTINUE")
      let L := L.pop L.gettop
      if ret ≠ bytes "CONTINUE" then (L :: lua, ret)
      else
        let (lua, ret) := connectionHook name args ret lua
        (L :: lua, ret)
    else
      let (lua, ret) := connectionHook name args ret lua
      (L.setglobal code name :: lua, ret)

/-! ## SSGM hooks -/

def callChatHook (id type : ℤ) (msg : Bytes) (target : ℤ) (lua : List (LState M)) :
    List (LState M) × Bool :=
  intVerdictHook code (bytes "OnChat") [number id, number type, string msg, number target] lua

def conAc (ip nick serial version : Option Bytes) (id : ℤ) (lua : List (LState M)) :
    List (LState M) × Bytes :=
  connectionHook code (bytes "ConnectionAcceptance")
    [ofCString nick, ofCString ip, ofCString serial, ofCString version, number id] (bytes "CONTINUE") lua

def radioHook (playerType playerID announcementID iconID announcementType : ℤ) (lua : List (LState M)) :
    List (LState M) × Bool :=
  intVerdictHook code (bytes "RadioHook") [number playerType, number playerID, number announcementID,
    number iconID, number announcementType] lua

def refillHook (purchaser : Option ℤ) (lua : List (LState M)) : List (LState M) × Bool :=
  match purchaser with
  | none => (lua, true)
  | some id => intVerdictHook code (bytes "OnRefill") [number id] lua

def callHostHook (playerID type : ℤ) (message : Option Bytes) (lua : List (LState M)) :
    List (LState M) × Bool :=
  (notifyHook code (bytes "OnHostMessage") [number playerID, number type, ofCString message] lua, true)

def callPlayerJoinHook (id : ℤ) (nick : Option Bytes) (lua : List (LState M)) : List (LState M) :=
  if id = 0 ∨ nick = none then lua
  else notifyHook code (bytes "OnPlayerJoin") [number id, ofCString nick] lua

def callOnDialog (playerID dialogID controlID messageType : ℤ) (lua : List (LState M)) :
    List (LState M) :=
  notifyHook code (bytes "OnDialog")
    [number playerID, number dialogID, number controlID, number messageType] lua

def callPlayerLeaveHook (id : ℤ) (lua : List (LState M)) : List (LState M) :=
  if id = 0 then lua else notifyHook code (bytes "OnPlayerLeave") [number id] lua

def callLevelLoadedHook (lua : List (LState M)) : List (LState M) :=
  notifyHook code (bytes "OnLevelLoaded") [] lua

def callGameOverHook (lua : List (LState M)) : List (LState M) :=
  notifyHook code (bytes "OnGameOver") [] lua

def callConsoleOutputHook (output : Option Bytes) (lua : List (LState M)) : List (LState M) :=
  notifyHook code (bytes "OnConsoleOutput") [ofCString output] lua

/-- A purchaser without an id ends the function with the hook still on the stack. -/
def purchaseHook (purchaser : ℤ) (cost preset purchaseret : ℕ) (data : Bytes) :
    List (LState M) → List (LState M)
  | [] => []
  | L :: lua =>
    let L := L.getglobal code data
    if L.top.isfunction then
      if purchaser = 0 then L :: lua
      else
        callHook code [number purchaser, number cost, number preset, number purchaseret] (some 0) L ::
          purchaseHook purchaser cost preset purchaseret data lua
    else L.setglobal code data :: purchaseHook purchaser cost preset purchaseret data lua

/-- `int rety = (int)lua_tonumber(L, -1); if (rety) ret = rety;`. -/
def combineNonzero (ret : ℤ) (v : LuaValue) : ℤ :=
  let rety := toCInt v.tonumber
  if rety ≠ 0 then rety else ret

def purchaseHook2 (purchaser : ℤ) (cost preset : ℕ) (lua : List (LState M)) : List (LState M) × ℤ :=
  verdictHook code (bytes "VehicleTTHook") [number purchaser, number cost, number preset]
    combineNonzero (-1) lua

def stockDamage (damager target : ℤ) (damage : Float32) (warhead : ℕ) (lua : List (LState M)) :
    List (LState M) × Bool :=
  intVerdictHook code (bytes "StockDamageHook")
    [number damager, number target, float damage, number warhead] lua

/-- `ammo` is the address of the definition, whose other fields follow. -/
def ttDamageHook (damager target : ℤ) (ammo : ℕ) (name : Bytes) (warhead : ℤ) (damage : Float32)
    (bone : Option Bytes) (lua : List (LState M)) : List (LState M) × Bool :=
  intVerdictHook code (bytes "TTDamageHook") [number damager, number target, string name, number warhead,
    ofCString bone, .lightuserdata ammo, float damage] lua

def unloadingLua (lua : List (LState M)) : List (LState M) :=
  notifyHook code (bytes "UnloadingLua") [] lua

def callObjectHook (obj : Option ℤ) (lua : List (LState M)) : List (LState M) :=
  match obj with
  | none => lua
  | some id => notifyHook code (bytes "OnObjectCreate") [number id] lua

def adressIP (addr : Option Bytes) (lua : List (LState M)) : List (LState M) :=
  match addr with
  | none => lua
  | some addr => notifyHook code (bytes "Adress_IP") [string addr] lua

/-- The dispatch of a tick; where `Reload_Flag` is set, the tick reloads instead. -/
def callThinkHook (lua : List (LState M)) : List (LState M) := notifyHook code (bytes "OnThink") [] lua

/-- A global that is no function stays on the stack. -/
def invokeState (function : Bytes) (arg : Option Bytes) (L : LState M) : LState M :=
  let L := L.getglobal code function
  if L.top.isfunction then callHook code [ofCString arg] (some 0) L else L

def callInvoke (function : Bytes) (arg : Option Bytes) (lua : List (LState M)) : List (LState M) :=
  lua.map (invokeState code function arg)

/-! ## Script hooks -/

def killedHook (obj shooter : ℤ) (lua : List (LState M)) : List (LState M) :=
  notifyHook code (bytes "OnKilled") [number obj, number shooter] lua

def zoneEnterHook (obj enter : ℤ) (lua : List (LState M)) : List (LState M) :=
  notifyHook code (bytes "OnZoneEnter") [number obj, number enter] lua

def zoneExitHook (obj exit : ℤ) (lua : List (LState M)) : List (LState M) :=
  notifyHook code (bytes "OnZoneExit") [number obj, number exit] lua

def destroyedHook (obj : ℤ) (lua : List (LState M)) : List (LState M) :=
  notifyHook code (bytes "OnDestroyed") [number obj] lua

def customHook (obj message param sender : ℤ) (lua : List (LState M)) : List (LState M) :=
  notifyHook code (bytes "CustomHook") [number obj, number message, number param, number sender] lua

/-- The last argument is what the engine gives as the warhead of the damage. -/
def damageHook (obj damager : ℤ) (damage : Float32) (warhead : ℤ) (lua : List (LState M)) :
    List (LState M) :=
  notifyHook code (bytes "DamageHook") [number obj, number damager, float damage, number warhead] lua

def pokedHook (obj damager : ℤ) (lua : List (LState M)) : List (LState M) :=
  notifyHook code (bytes "PokedHook") [number obj, number damager] lua

def keyHook (obj : ℤ) (key : Option Bytes) (callback : Bytes) (lua : List (LState M)) :
    List (LState M) :=
  notifyHook code callback [number obj, ofCString key] lua

/-! ## DA hooks -/

/-- The three dispatchers that ask about a player. -/
def playerVerdictHook (name : Bytes) (player : Option ℤ) (lua : List (LState M)) :
    List (LState M) × Bool :=
  match player with
  | none => (lua, true)
  | some id => boolVerdictHook code name [number id] lua

def daSuicideEvent (player : Option ℤ) (lua : List (LState M)) : List (LState M) × Bool :=
  playerVerdictHook code (bytes "DA_Suicide_Event") player lua

def daRefillEvent (player : Option ℤ) (lua : List (LState M)) : List (LState M) × Bool :=
  playerVerdictHook code (bytes "DA_Refill_Event") player lua

def daTeamChangeRequestEvent (player : Option ℤ) (lua : List (LState M)) : List (LState M) × Bool :=
  playerVerdictHook code (bytes "DA_Team_Change_Request_Event") player lua

structure ConnectionRequest where
  clientId : ℤ
  clientName : Bytes
  clientAddress : Bytes
  clientSerialHash : Option Bytes
  /-- Printed with "%f". -/
  clientVersion : Bytes
  clientRevisionNumber : ℤ
  password : Bytes
  clientExeKey : ℤ

def ConnectionRequest.args (r : ConnectionRequest) : List LuaValue :=
  [number r.clientId, string r.clientName, string r.clientAddress, ofCString r.clientSerialHash,
    string r.clientVersion, number r.clientRevisionNumber, string r.password, number r.clientExeKey]

def daPlayerPreJoinEvent (request : ConnectionRequest) (lua : List (LState M)) : List (LState M) :=
  notifyHook code (bytes "DA_Player_Pre_Join_Event") request.args lua

def daLogEvent (header output : Option Bytes) (lua : List (LState M)) : List (LState M) :=
  notifyHook code (bytes "DA_Log_Event") [ofCString header, ofCString output] lua

def daConnectionRequestEvent (request : ConnectionRequest) (lua : List (LState M)) :
    List (LState M) × Bytes :=
  connectionHook code (bytes "DA_Connection_Request_Event") request.args (bytes "CONTINUE") lua

structure DamageRequest where
  allow : Bool
  damage : Float32
  warhead : ℕ

/-- The arguments for the damage and the warhead as the states before left them. -/
def damageArgs (victim damager : Option ℤ) (scale : Float32) (type : ℤ) (r : DamageRequest) :
    List LuaValue :=
  [number (victim.getD 0), number (damager.getD 0), float r.damage, number r.warhead, float scale,
    number type]

/-- What the top `n` values of the frame change. -/
def readDamage (n : ℕ) (L : LState M) (r : DamageRequest) : DamageRequest where
  allow := if 1 ≤ n then combineBool r.allow L.top else r.allow
  damage := if 2 ≤ n ∧ (L.fromTop 2).isnumber then (L.fromTop 2).tonumber.toFloat32 else r.damage
  warhead := if 3 ≤ n ∧ (L.fromTop 3).isnumber then toCUInt (L.fromTop 3).tonumber else r.warhead

def daDamageRequestEvent (victim damager : Option ℤ) (scale : Float32) (type : ℤ) :
    DamageRequest → List (LState M) → List (LState M) × DamageRequest
  | r, [] => ([], r)
  | r, L :: lua =>
    let stackSize := L.gettop
    let L := L.getglobal code (bytes "DA_Damage_Request_Event")
    if L.top.isfunction then
      let L := callHook code (damageArgs victim damager scale type r) none L
      let numReturns := L.gettop - stackSize
      let (lua, r) := daDamageRequestEvent victim damager scale type (readDamage numReturns L r) lua
      (L.pop L.gettop :: lua, r)
    else
      let (lua, r) := daDamageRequestEvent victim damager scale type r lua
      (L.setglobal code (bytes "DA_Damage_Request_Event") :: lua, r)

/-! ## `LuaManager::Generic_Hook` -/

/-- A parameter of a generic event: its `GenericParam` with the data it says how to read. -/
inductive GenericParam
  | useNothing
  | useInt (i : ℤ)
  | useFloat (f : Float32)
  | useString (s : Option Bytes)
  | useBool (b : Bool)
  | useDouble (d : LuaNumber)

/-- What a generic event makes of the results. -/
inductive GenericReturn
  | useNothing
  | useInt
  | useBool
  | useOther
  deriving DecidableEq

structure GenericParamList where
  ret : GenericReturn
  p1 : GenericParam
  p2 : GenericParam
  p3 : GenericParam
  p4 : GenericParam
  p5 : GenericParam
  p6 : GenericParam
  defaultReturn : ℤ

namespace GenericParamList

def params (params : GenericParamList) : List GenericParam :=
  [params.p1, params.p2, params.p3, params.p4, params.p5, params.p6]

/-- `GenericHelper_getTotalArguments`. -/
def getTotalArguments (params : GenericParamList) : ℕ :=
  params.params.countP fun | .useNothing => false | _ => true

/-- What `GenericHelper_pushStack` pushes. -/
def pushStack : GenericParam → List LuaValue
  | .useNothing => []
  | .useInt i => [number i]
  | .useFloat f => [float f]
  | .useString s => [ofCString s]
  | .useBool b => [.boolean b]
  | .useDouble d => [.number d]

def args (params : GenericParamList) : List LuaValue := params.params.flatMap pushStack

/-- `ret = !ret ? ret : (bool)lua_toboolean(L, -1)` on an `int`, or `lua_tointeger(L, -1)` where
`lua_tostring(L, -1)`, which turns a number into a string, gives one. -/
def combine (params : GenericParamList) (ret : ℤ) (v : LuaValue) : ℤ :=
  match params.ret with
  | .useBool => if ret = 0 then ret else if v.toboolean then 1 else 0
  | .useInt =>
    match v.tolstring with
    | some s => (LuaValue.string s).tointeger
    | none => ret
  | _ => ret

end GenericParamList

def genericLoop (func : Bytes) (params : GenericParamList) (usingReturn : ℕ) :
    ℤ → List (LState M) → List (LState M) × ℤ
  | ret, [] => ([], ret)
  | ret, L :: lua =>
    let L := L.getglobal code func
    if L.top.isfunction then
      let (L, status) := (L.pushAll params.args).pcall code params.getTotalArguments (some usingReturn)
      let L := (reportErrors code L status).1
      let (lua, ret) := genericLoop func params usingReturn (params.combine ret L.top) lua
      (L.pop (-1) :: lua, ret)
    else
      let (lua, ret) := genericLoop func params usingReturn ret lua
      (L.setglobal code func :: lua, ret)

def genericHook (func : Bytes) (params : GenericParamList) (lua : List (LState M)) :
    List (LState M) × ℤ :=
  if params.ret ≠ .useNothing then genericLoop code func params 1 params.defaultReturn lua
  else genericLoop code func params 0 0 lua

end Hooks

/-! ## Events -/

/-- The calls the engine makes, one for each dispatcher. -/
inductive Event
  | chat (id type : ℤ) (msg : Bytes) (target : ℤ)
  | conAc (ip nick serial version : Option Bytes) (id : ℤ)
  | radio (playerType playerID announcementID iconID announcementType : ℤ)
  | refill (purchaser : Option ℤ)
  | host (playerID type : ℤ) (message : Option Bytes)
  | playerJoin (id : ℤ) (nick : Option Bytes)
  | dialog (playerID dialogID controlID messageType : ℤ)
  | playerLeave (id : ℤ)
  | levelLoaded
  | gameOver
  | consoleOutput (output : Option Bytes)
  | purchase (purchaser : ℤ) (cost preset purchaseret : ℕ) (data : Bytes)
  | purchase2 (purchaser : ℤ) (cost preset : ℕ)
  | stockDamage (damager target : ℤ) (damage : Float32) (warhead : ℕ)
  | ttDamage (damager target : ℤ) (ammo : ℕ) (name : Bytes) (warhead : ℤ) (damage : Float32)
      (bone : Option Bytes)
  | unloading
  | objectCreate (obj : Option ℤ)
  | adressIP (addr : Option Bytes)
  | think
  | invoke (function : Bytes) (arg : Option Bytes)
  | killed (obj shooter : ℤ)
  | zoneEnter (obj enter : ℤ)
  | zoneExit (obj exit : ℤ)
  | destroyed (obj : ℤ)
  | custom (obj message param sender : ℤ)
  | damage (obj damager : ℤ) (damage : Float32) (warhead : ℤ)
  | poked (obj damager : ℤ)
  | key (obj : ℤ) (key : Option Bytes) (callback : Bytes)
  | daSuicide (player : Option ℤ)
  | daRefill (player : Option ℤ)
  | daTeamChangeRequest (player : Option ℤ)
  | daPlayerPreJoin (request : ConnectionRequest)
  | daLog (header output : Option Bytes)
  | daConnectionRequest (request : ConnectionRequest)
  | daDamageRequest (victim damager : Option ℤ) (damage : Float32) (warhead : ℕ) (scale : Float32)
      (type : ℤ)
  | generic (func : Bytes) (params : GenericParamList)

/-- What a dispatcher tells the engine. -/
inductive Verdict
  | nothing
  | bool (b : Bool)
  | int (i : ℤ)
  | string (s : Bytes)
  | damage (r : DamageRequest)

def answering {M α : Type} (verdict : α → Verdict) (r : List (LState M) × α) :
    List (LState M) × Verdict := (r.1, verdict r.2)

/-- The states after an event, and the verdict. -/
def dispatch {M : Type} (code : Code M) (e : Event) (lua : List (LState M)) :
    List (LState M) × Verdict :=
  match e with
  | .chat id type msg target => answering .bool (callChatHook code id type msg target lua)
  | .conAc ip nick serial version id => answering .string (conAc code ip nick serial version id lua)
  | .radio playerType playerID announcementID iconID announcementType =>
    answering .bool (radioHook code playerType playerID announcementID iconID announcementType lua)
  | .refill purchaser => answering .bool (refillHook code purchaser lua)
  | .host playerID type message => answering .bool (callHostHook code playerID type message lua)
  | .playerJoin id nick => (callPlayerJoinHook code id nick lua, .nothing)
  | .dialog playerID dialogID controlID messageType =>
    (callOnDialog code playerID dialogID controlID messageType lua, .nothing)
  | .playerLeave id => (callPlayerLeaveHook code id lua, .nothing)
  | .levelLoaded => (callLevelLoadedHook code lua, .nothing)
  | .gameOver => (callGameOverHook code lua, .nothing)
  | .consoleOutput output => (callConsoleOutputHook code output lua, .nothing)
  | .purchase purchaser cost preset purchaseret data =>
    (purchaseHook code purchaser cost preset purchaseret data lua, .nothing)
  | .purchase2 purchaser cost preset => answering .int (purchaseHook2 code purchaser cost preset lua)
  | .stockDamage damager target damage warhead =>
    answering .bool (stockDamage code damager target damage warhead lua)
  | .ttDamage damager target ammo name warhead damage bone =>
    answering .bool (ttDamageHook code damager target ammo name warhead damage bone lua)
  | .unloading => (unloadingLua code lua, .nothing)
  | .objectCreate obj => (callObjectHook code obj lua, .nothing)
  | .adressIP addr => (adressIP code addr lua, .nothing)
  | .think => (callThinkHook code lua, .nothing)
  | .invoke function arg => (callInvoke code function arg lua, .nothing)
  | .killed obj shooter => (killedHook code obj shooter lua, .nothing)
  | .zoneEnter obj enter => (zoneEnterHook code obj enter lua, .nothing)
  | .zoneExit obj exit => (zoneExitHook code obj exit lua, .nothing)
  | .destroyed obj => (destroyedHook code obj lua, .nothing)
  | .custom obj message param sender => (customHook code obj message param sender lua, .nothing)
  | .damage obj damager damage warhead => (damageHook code obj damager damage warhead lua, .nothing)
  | .poked obj damager => (pokedHook code obj damager lua, .nothing)
  | .key obj key callback => (keyHook code obj key callback lua, .nothing)
  | .daSuicide player => answering .bool (daSuicideEvent code player lua)
  | .daRefill player => answering .bool (daRefillEvent code player lua)
  | .daTeamChangeRequest player => answering .bool (daTeamChangeRequestEvent code player lua)
  | .daPlayerPreJoin request => (daPlayerPreJoinEvent code request lua, .nothing)
  | .daLog header output => (daLogEvent code header output lua, .nothing)
  | .daConnectionRequest request => answering .string (daConnectionRequestEvent code request lua)
  | .daDamageRequest victim damager damage warhead scale type =>
    answering .damage (daDamageRequestEvent code victim damager scale type ⟨true, damage, warhead⟩ lua)
  | .generic func params => answering .int (genericHook code func params lua)

end LuaTT.Dispatch
