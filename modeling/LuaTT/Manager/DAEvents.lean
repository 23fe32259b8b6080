import LuaTT.Manager.GenericHook

/-! The events of `LuaTT_DA_Hooks` that go through `LuaManager::Generic_Hook`. Each of them lays its data
out as words and kinds; what the handlers of the plugins get are the data themselves, in the order of the
parameters. -/
namespace LuaTT.DAEvents
open Lua LState GenericHook
open Dispatch hiding GenericParam GenericParamList genericHook genericLoop
set_option autoImplicit false

/-! ## What an event comes with -/

/-- The memory of the server, with the literal that stands for no weapon. -/
structure Image extends WordMemory where
  noneLiteral : Word
  noneLiteral_ne : noneLiteral ≠ nullptr
  cstr_noneLiteral : cstr noneLiteral = some (bytes "None")

/-- A `const char *` and what it points to. -/
structure Text where
  address : Word
  text : Option Bytes

/-- A float variable and its value; the events pass its address. -/
structure FloatVar where
  address : Word
  value : Float32

/-- A definition of a weapon, a unit or a power-up. -/
structure Definition where
  id : UInt32
  name : Text

/-- A player or an object is its id, `none` where the event may come with a null pointer. -/
inductive Event
  | chatCommand (player : Option Int32) (type : Int32) (command text : Text) (receiverID : Int32)
  | chat (player : Option Int32) (type : Int32) (message : Text) (receiverID accessLevel : Int32)
  | keyHook (player : Option Int32) (key : Text)
  | hostChat (id type : Int32) (message : Text)
  | radio (player : Option Int32) (playerType announcementID iconID announcementType : Int32)
  | playerLoaded (player : Option Int32)
  | playerJoin (player : Option Int32)
  | playerLeave (player : Option Int32)
  | nameChange (player : Option Int32)
  | remix
  | rebalance
  | swap
  | gameOver
  | levelLoaded
  | settingsLoaded
  | renLog (output : Text)
  | consoleOutput (output : Text)
  | characterPurchaseRequest (playerType player : Int32) (cost : FloatVar) (item : Definition)
  | changeCharacter (player : Int32) (soldier : Definition)
  | characterPurchase (player : Int32) (cost : FloatVar) (item : Definition)
  | vehiclePurchaseRequest (playerType player : Int32) (cost : FloatVar) (item : Definition)
  | vehiclePurchase (player : Int32) (cost : FloatVar) (item : Definition)
  | powerUpPurchaseRequest (playerType player : Int32) (cost : FloatVar) (item : Definition)
  | powerUpPurchase (player : Int32) (cost : FloatVar) (item : Definition)
  | customPurchaseRequest (playerType player : Int32) (cost : FloatVar) (id : UInt32)
  | customPurchase (player : Int32) (cost : FloatVar) (id : UInt32)
  | teamChange (player : Int32)
  | vehicleEntryRequest (vehicle player seat : Int32)
  | vehicleEnter (vehicle player seat : Int32)
  | vehicleExit (vehicle player seat : Int32)
  | powerUpGrantRequest (player : Int32) (powerUp : Definition) (powerUpObj : Option Int32)
  | powerUpGrant (player : Int32) (powerUp : Definition) (powerUpObj : Option Int32)
  | addWeaponRequest (player : Option Int32) (weapon : Option Definition)
  | addWeapon (player : Option Int32) (weapon : Option Definition)
  | removeWeapon (player : Option Int32) (weapon : Option Definition)
  | clearWeapons (player : Int32)
  | beaconDeploy (beacon : Int32)
  | beaconDetonate (beacon : Int32)
  | c4DetonateRequest (c4 : Int32) (triggerer : Option Int32)
  | c4Detonate (c4 : Int32)
  | vehicleFlip (vehicle : Int32)
  | requestVehicle (factory : Int32) (vehicle : UInt32) (player : Option Int32) (delay : FloatVar)
  | kill (victim killer : Option Int32) (damage : FloatVar) (warhead : UInt32) (scale : FloatVar)
      (type : Int32)
  | custom (obj type param : Int32) (sender : Option Int32)
  | poke (player obj : Int32)
  | zoneEnter (obj : Int32) (enterer : Option Int32)
  | zoneExit (obj : Int32) (exiter : Option Int32)
  | objectCreated (obj : Int32)
  | objectDestroyed (obj : Int32)

/-! ## The handlers of `LuaTT_DA_Hooks` -/

/-- A call of `LuaManager::Generic_Hook`. -/
structure Call where
  func : Bytes
  params : GenericParamList
  data : Data

/-- `int ID = 0; if (obj != nullptr) ID = obj->Get_ID();`. -/
def idOf (obj : Option Int32) : Int32 := obj.getD 0

def chatCommandEvent (player : Option Int32) (type : Int32) (command text : Text) (receiverID : Int32) :
    Option Call :=
  player.map fun id => ⟨bytes "DA_Chat_Command_Event",
    { p1 := .useInt, p2 := .useInt, p3 := .useString, p4 := .useString, p5 := .useInt,
      ret := .useBool, defaultReturn := 1 },
    { p1 := ofInt32 id, p2 := ofInt32 type, p3 := command.address, p4 := text.address,
      p5 := ofInt32 receiverID }⟩

def chatEvent (player : Option Int32) (type : Int32) (message : Text)
    (receiverID accessLevel : Int32) : Option Call :=
  player.map fun id => ⟨bytes "DA_Chat_Event",
    { p1 := .useInt, p2 := .useInt, p3 := .useString, p4 := .useInt, p5 := .useInt,
      ret := .useBool, defaultReturn := 1 },
    { p1 := ofInt32 id, p2 := ofInt32 type, p3 := message.address, p4 := ofInt32 receiverID,
      p5 := ofInt32 accessLevel }⟩

def keyHookEvent (player : Option Int32) (key : Text) : Option Call :=
  player.map fun id => ⟨bytes "DA_Key_Hook_Event",
    { p1 := .useInt, p2 := .useString, ret := .useBool, defaultReturn := 1 },
    { p1 := ofInt32 id, p2 := key.address }⟩

def hostChatEvent (id type : Int32) (message : Text) : Call :=
  ⟨bytes "DA_Host_Chat_Event",
    { p1 := .useInt, p2 := .useInt, p3 := .useString, ret := .useBool, defaultReturn := 1 },
    { p1 := ofInt32 id, p2 := ofInt32 type, p3 := message.address }⟩

def radioEvent (player : Option Int32) (playerType announcementID iconID announcementType : Int32) :
    Option Call :=
  player.map fun id => ⟨bytes "DA_Radio_Event",
    { p1 := .useInt, p2 := .useInt, p3 := .useInt, p4 := .useInt, p5 := .useInt,
      ret := .useBool, defaultReturn := 1 },
    { p1 := ofInt32 id, p2 := ofInt32 playerType, p3 := ofInt32 announcementID, p4 := ofInt32 iconID,
      p5 := ofInt32 announcementType }⟩

/-- The handlers that only pass an id on. -/
def idEvent (func : Bytes) (id : Int32) : Call := ⟨func, { p1 := .useInt }, { p1 := ofInt32 id }⟩

def playerLoadedEvent (player : Option Int32) : Option Call :=
  player.map (idEvent (bytes "DA_Player_Loaded_Event"))

def playerJoinEvent (player : Option Int32) : Option Call :=
  player.map (idEvent (bytes "DA_Player_Join_Event"))

def playerLeaveEvent (player : Option Int32) : Option Call :=
  player.map (idEvent (bytes "DA_Player_Leave_Event"))

def nameChangeEvent (player : Option Int32) : Option Call :=
  player.map (idEvent (bytes "DA_Name_Change_Event"))

def teamChangeEvent (player : Int32) : Call := idEvent (bytes "DA_Team_Change_Event") player

def clearWeaponsEvent (player : Int32) : Call := idEvent (bytes "DA_Clear_Weapons_Event") player

def beaconDeployEvent (beacon : Int32) : Call := idEvent (bytes "DA_Beacon_Deploy_Event") beacon

def beaconDetonateEvent (beacon : Int32) : Call := idEvent (bytes "DA_Beacon_Detonate_Event") beacon

def c4DetonateEvent (c4 : Int32) : Call := idEvent (bytes "DA_C4_Detonate_Event") c4

def objectCreatedEvent (obj : Int32) : Call := idEvent (bytes "DA_Object_Created_Event") obj

def objectDestroyedEvent (obj : Int32) : Call := idEvent (bytes "DA_Object_Destroyed_Event") obj

/-- The handlers without data. -/
def plainEvent (func : Bytes) : Call := ⟨func, {}, {}⟩

def remixEvent : Call := plainEvent (bytes "DA_Remix_Event")

def rebalanceEvent : Call := plainEvent (bytes "DA_Rebalance_Event")

def swapEvent : Call := plainEvent (bytes "DA_Swap_Event")

def gameOverEvent : Call := plainEvent (bytes "DA_Game_Over_Event")

def levelLoadedEvent : Call := plainEvent (bytes "DA_Level_Loaded_Event")

def settingsLoadedEvent : Call := plainEvent (bytes "DA_Settings_Loaded_Event")

/-- The handlers that pass a line of output on. -/
def outputEvent (func : Bytes) (output : Text) : Call :=
  ⟨func, { p1 := .useString }, { p1 := output.address }⟩

def renLogEvent (output : Text) : Call := outputEvent (bytes "DA_Ren_Log_Event") output

def consoleOutputEvent (output : Text) : Call := outputEvent (bytes "DA_Console_Output_Event") output

/-- The handlers that ask whether an item may be bought. -/
def purchaseRequestEvent (func : Bytes) (playerType player : Int32) (cost : FloatVar)
    (item : Definition) : Call :=
  ⟨func,
    { p1 := .useInt, p2 := .useInt, p3 := .useFloat, p4 := .useInt, p5 := .useString,
      ret := .useInt, defaultReturn := -1 },
    { p1 := ofInt32 playerType, p2 := ofInt32 player, p3 := cost.address, p4 := item.id,
      p5 := item.name.address }⟩

/-- The handlers that tell of an item that has been bought. -/
def purchaseEvent (func : Bytes) (player : Int32) (cost : FloatVar) (item : Definition) : Call :=
  ⟨func, { p1 := .useInt, p2 := .useFloat, p3 := .useInt, p4 := .useString },
    { p1 := ofInt32 player, p2 := cost.address, p3 := item.id, p4 := item.name.address }⟩

def characterPurchaseRequestEvent : Int32 → Int32 → FloatVar → Definition → Call :=
  purchaseRequestEvent (bytes "DA_Character_Purchase_Request_Event")

def characterPurchaseEvent : Int32 → FloatVar → Definition → Call :=
  purchaseEvent (bytes "DA_Character_Purchase_Event")

def vehiclePurchaseRequestEvent : Int32 → Int32 → FloatVar → Definition → Call :=
  purchaseRequestEvent (bytes "DA_Vehicle_Purchase_Request_Event")

def vehiclePurchaseEvent : Int32 → FloatVar → Definition → Call :=
  purchaseEvent (bytes "DA_Vehicle_Purchase_Event")

def powerUpPurchaseRequestEvent : Int32 → Int32 → FloatVar → Definition → Call :=
  purchaseRequestEvent (bytes "DA_PowerUp_Purchase_Request_Event")

def powerUpPurchaseEvent : Int32 → FloatVar → Definition → Call :=
  purchaseEvent (bytes "DA_PowerUp_Purchase_Event")

/-- A custom purchase has no name, and is answered with another default. -/
def customPurchaseRequestEvent (playerType player : Int32) (cost : FloatVar) (id : UInt32) : Call :=
  ⟨bytes "DA_Custom_Purchase_Request_Event",
    { p1 := .useInt, p2 := .useInt, p3 := .useFloat, p4 := .useInt, ret := .useInt,
      defaultReturn := 3 },
    { p1 := ofInt32 playerType, p2 := ofInt32 player, p3 := cost.address, p4 := id }⟩

def customPurchaseEvent (player : Int32) (cost : FloatVar) (id : UInt32) : Call :=
  ⟨bytes "DA_Custom_Purchase_Event", { p1 := .useInt, p2 := .useFloat, p3 := .useInt },
    { p1 := ofInt32 player, p2 := cost.address, p3 := id }⟩

def changeCharacterEvent (player : Int32) (soldier : Definition) : Call :=
  ⟨bytes "DA_Change_Character_Event", { p1 := .useInt, p2 := .useInt, p3 := .useString },
    { p1 := ofInt32 player, p2 := soldier.id, p3 := soldier.name.address }⟩

def vehicleEntryRequestEvent (vehicle player seat : Int32) : Call :=
  ⟨bytes "DA_Vehicle_Entry_Request_Event",
    { p1 := .useInt, p2 := .useInt, p3 := .useInt, ret := .useBool, defaultReturn := 1 },
    { p1 := ofInt32 vehicle, p2 := ofInt32 player, p3 := ofInt32 seat }⟩

/-- The handlers that tell of a seat taken or left. -/
def seatEvent (func : Bytes) (vehicle player seat : Int32) : Call :=
  ⟨func, { p1 := .useInt, p2 := .useInt, p3 := .useInt },
    { p1 := ofInt32 vehicle, p2 := ofInt32 player, p3 := ofInt32 seat }⟩

def vehicleEnterEvent : Int32 → Int32 → Int32 → Call := seatEvent (bytes "DA_Vehicle_Enter_Event")

def vehicleExitEvent : Int32 → Int32 → Int32 → Call := seatEvent (bytes "DA_Vehicle_Exit_Event")

def powerUpGrantRequestEvent (player : Int32) (powerUp : Definition) (powerUpObj : Option Int32) :
    Call :=
  ⟨bytes "DA_PowerUp_Grant_Request_Event",
    { p1 := .useInt, p2 := .useInt, p3 := .useString, p4 := .useInt, ret := .useBool,
      defaultReturn := 1 },
    { p1 := ofInt32 player, p2 := powerUp.id, p3 := powerUp.name.address,
      p4 := ofInt32 (idOf powerUpObj) }⟩

def powerUpGrantEvent (player : Int32) (powerUp : Definition) (powerUpObj : Option Int32) : Call :=
  ⟨bytes "DA_PowerUp_Grant_Event", { p1 := .useInt, p2 := .useInt, p3 := .useString, p4 := .useInt },
    { p1 := ofInt32 player, p2 := powerUp.id, p3 := powerUp.name.address,
      p4 := ofInt32 (idOf powerUpObj) }⟩

section Weapons
variable (image : Image)

/-- The words for a player and a weapon, either of which may be null. -/
def weaponData (player : Option Int32) (weapon : Option Definition) : Data :=
  { p1 := ofInt32 (idOf player),
    p2 := ofInt32 (weapon.elim 0 fun w => w.id.toInt32),
    p3 := weapon.elim image.noneLiteral fun w => w.name.address }

def addWeaponRequestEvent (player : Option Int32) (weapon : Option Definition) : Call :=
  ⟨bytes "DA_Add_Weapon_Request_Event",
    { p1 := .useInt, p2 := .useInt, p3 := .useString, ret := .useBool, defaultReturn := 1 },
    weaponData image player weapon⟩

def addWeaponEvent (player : Option Int32) (weapon : Option Definition) : Call :=
  ⟨bytes "DA_Add_Weapon_Event", { p1 := .useInt, p2 := .useInt, p3 := .useString },
    weaponData image player weapon⟩

def removeWeaponEvent (player : Option Int32) (weapon : Option Definition) : Call :=
  ⟨bytes "DA_Remove_Weapon_Event", { p1 := .useInt, p2 := .useInt, p3 := .useString },
    weaponData image player weapon⟩

end Weapons

def c4DetonateRequestEvent (c4 : Int32) (triggerer : Option Int32) : Call :=
  ⟨bytes "DA_C4_Detonate_Request_Event",
    { p1 := .useInt, p2 := .useInt, ret := .useBool, defaultReturn := 1 },
    { p1 := ofInt32 c4, p2 := ofInt32 (idOf triggerer) }⟩

def vehicleFlipEvent (vehicle : Int32) : Call :=
  ⟨bytes "DA_Vehicle_Flip_Event", { p1 := .useInt, ret := .useBool, defaultReturn := 1 },
    { p1 := ofInt32 vehicle }⟩

def requestVehicleEvent (factory : Int32) (vehicle : UInt32) (player : Option Int32)
    (delay : FloatVar) : Call :=
  ⟨bytes "DA_Request_Vehicle_Event",
    { p1 := .useInt, p2 := .useInt, p3 := .useInt, p4 := .useFloat, ret := .useBool,
      defaultReturn := 1 },
    { p1 := ofInt32 factory, p2 := vehicle, p3 := ofInt32 (idOf player), p4 := delay.address }⟩

def killEvent (victim killer : Option Int32) (damage : FloatVar) (warhead : UInt32)
    (scale : FloatVar) (type : Int32) : Call :=
  ⟨bytes "DA_Kill_Event",
    { p1 := .useInt, p2 := .useInt, p3 := .useFloat, p4 := .useInt, p5 := .useFloat, p6 := .useInt },
    { p1 := ofInt32 (idOf victim), p2 := ofInt32 (idOf killer), p3 := damage.address, p4 := warhead,
      p5 := scale.address, p6 := ofInt32 type }⟩

def customEvent (obj type param : Int32) (sender : Option Int32) : Call :=
  ⟨bytes "DA_Custom_Event", { p1 := .useInt, p2 := .useInt, p3 := .useInt, p4 := .useInt },
    { p1 := ofInt32 obj, p2 := ofInt32 type, p3 := ofInt32 param, p4 := ofInt32 (idOf sender) }⟩

/-- The handlers that pass two ids on. -/
def pairEvent (func : Bytes) (a b : Int32) : Call :=
  ⟨func, { p1 := .useInt, p2 := .useInt }, { p1 := ofInt32 a, p2 := ofInt32 b }⟩

def pokeEvent (player obj : Int32) : Call := pairEvent (bytes "DA_Poke_Event") player obj

def zoneEnterEvent (obj : Int32) (enterer : Option Int32) : Call :=
  pairEvent (bytes "DA_Zone_Enter_Event") obj (idOf enterer)

def zoneExitEvent (obj : Int32) (exiter : Option Int32) : Call :=
  pairEvent (bytes "DA_Zone_Exit_Event") obj (idOf exiter)

/-- The call an event makes; `none` where its handler returns before. -/
def Event.call (image : Image) : Event → Option Call
  | .chatCommand player type command text receiverID =>
    chatCommandEvent player type command text receiverID
  | .chat player type message receiverID accessLevel =>
    chatEvent player type message receiverID accessLevel
  | .keyHook player key => keyHookEvent player key
  | .hostChat id type message => some (hostChatEvent id type message)
  | .radio player playerType announcementID iconID announcementType =>
    radioEvent player playerType announcementID iconID announcementType
  | .playerLoaded player => playerLoadedEvent player
  | .playerJoin player => playerJoinEvent player
  | .playerLeave player => playerLeaveEvent player
  | .nameChange player => nameChangeEvent player
  | .remix => some remixEvent
  | .rebalance => some rebalanceEvent
  | .swap => some swapEvent
  | .gameOver => some gameOverEvent
  | .levelLoaded => some levelLoadedEvent
  | .settingsLoaded => some settingsLoadedEvent
  | .renLog output => some (renLogEvent output)
  | .consoleOutput output => some (consoleOutputEvent output)
  | .characterPurchaseRequest playerType player cost item =>
    some (characterPurchaseRequestEvent playerType player cost item)
  | .changeCharacter player soldier => some (changeCharacterEvent player soldier)
  | .characterPurchase player cost item => some (characterPurchaseEvent player cost item)
  | .vehiclePurchaseRequest playerType player cost item =>
    some (vehiclePurchaseRequestEvent playerType player cost item)
  | .vehiclePurchase player cost item => some (vehiclePurchaseEvent player cost item)
  | .powerUpPurchaseRequest playerType player cost item =>
    some (powerUpPurchaseRequestEvent playerType player cost item)
  | .powerUpPurchase player cost item => some (powerUpPurchaseEvent player cost item)
  | .customPurchaseRequest playerType player cost id =>
    some (customPurchaseRequestEvent playerType player cost id)
  | .customPurchase player cost id => some (customPurchaseEvent player cost id)
  | .teamChange player => some (teamChangeEvent player)
  | .vehicleEntryRequest vehicle player seat => some (vehicleEntryRequestEvent vehicle player seat)
  | .vehicleEnter vehicle player seat => some (vehicleEnterEvent vehicle player seat)
  | .vehicleExit vehicle player seat => some (vehicleExitEvent vehicle player seat)
  | .powerUpGrantRequest player powerUp powerUpObj =>
    some (powerUpGrantRequestEvent player powerUp powerUpObj)
  | .powerUpGrant player powerUp powerUpObj => some (powerUpGrantEvent player powerUp powerUpObj)
  | .addWeaponRequest player weapon => some (addWeaponRequestEvent image player weapon)
  | .addWeapon player weapon => some (addWeaponEvent image player weapon)
  | .removeWeapon player weapon => some (removeWeaponEvent image player weapon)
  | .clearWeapons player => some (clearWeaponsEvent player)
  | .beaconDeploy beacon => some (beaconDeployEvent beacon)
  | .beaconDetonate beacon => some (beaconDetonateEvent beacon)
  | .c4DetonateRequest c4 triggerer => some (c4DetonateRequestEvent c4 triggerer)
  | .c4Detonate c4 => some (c4DetonateEvent c4)
  | .vehicleFlip vehicle => some (vehicleFlipEvent vehicle)
  | .requestVehicle factory vehicle player delay =>
    some (requestVehicleEvent factory vehicle player delay)
  | .kill victim killer damage warhead scale type =>
    some (killEvent victim killer damage warhead scale type)
  | .custom obj type param sender => some (customEvent obj type param sender)
  | .poke player obj => some (pokeEvent player obj)
  | .zoneEnter obj enterer => some (zoneEnterEvent obj enterer)
  | .zoneExit obj exiter => some (zoneExitEvent obj exiter)
  | .objectCreated obj => some (objectCreatedEvent obj)
  | .objectDestroyed obj => some (objectDestroyedEvent obj)

/-- What a handler returns: nothing, a bool, or a `PurchaseStatus`. -/
inductive Returns
  | nothing
  | bool
  | status
  deriving DecidableEq

def Event.returns : Event → Returns
  | .chatCommand .. | .chat .. | .keyHook .. | .hostChat .. | .radio .. | .vehicleEntryRequest ..
  | .powerUpGrantRequest .. | .addWeaponRequest .. | .c4DetonateRequest .. | .vehicleFlip ..
  | .requestVehicle .. => .bool
  | .characterPurchaseRequest .. | .vehiclePurchaseRequest .. | .powerUpPurchaseRequest ..
  | .customPurchaseRequest .. => .status
  | _ => .nothing

/-- The `int` of the generic hook as what the handler returns. -/
def Returns.verdict : Returns → ℤ → Verdict
  | .nothing, _ => .nothing
  | .bool, ret => .bool (ret ≠ 0)
  | .status, ret => .int ret

/-- An event on the server; a handler that returns early has said nothing or yes. -/
def Event.raise {M : Type} (code : Code M) (image : Image) (e : Event) (lua : List (LState M)) :
    Option (List (LState M) × Verdict) :=
  match e.call image with
  | none => some (lua, e.returns.verdict 1)
  | some c => (genericHook code image.toWordMemory c.func c.params c.data lua).map
      (answering e.returns.verdict)

end LuaTT.DAEvents
