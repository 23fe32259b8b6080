import LuaTT.Manager.DAEvents

/-! What the plugins see of a DA event: its fields, one after the other, under its hook. The words and kinds
of `LuaTT_DA_Hooks` say the same for every event. -/
namespace LuaTT.DAEvents
open Lua LState GenericHook
open Dispatch hiding GenericParam GenericParamList genericHook genericLoop
set_option autoImplicit false

/-! ## The events as plugins know them -/

inductive Field
  | int (i : Int32)
  /-- Handed over as an int: from `2 ^ 31` on it arrives negative. -/
  | unsigned (u : UInt32)
  | float (f : Float32)
  | text (s : Option Bytes)

def Field.param : Field → Dispatch.GenericParam
  | .int i => .useInt i.toInt
  | .unsigned u => .useInt u.toInt32.toInt
  | .float f => .useFloat f
  | .text s => .useString s

/-- The Lua value of a field. -/
def Field.value : Field → LuaValue
  | .int i => number i.toInt
  | .unsigned u => number u.toInt32.toInt
  | .float f => Dispatch.float f
  | .text s => ofCString s

/-- A null object is 0. -/
def objectField (obj : Option Int32) : Field := .int (obj.getD 0)

def Definition.fields (d : Definition) : List Field := [.unsigned d.id, .text d.name.text]

/-- No weapon is number 0 and called "None". -/
def weaponFields (weapon : Option Definition) : List Field :=
  weapon.elim [.int 0, .text (some (bytes "None"))] Definition.fields

/-- The fields of an event; `none` where it concerns a player who is not there. -/
def Event.fields : Event → Option (List Field)
  | .chatCommand player type command text receiverID => player.map fun id =>
    [.int id, .int type, .text command.text, .text text.text, .int receiverID]
  | .chat player type message receiverID accessLevel => player.map fun id =>
    [.int id, .int type, .text message.text, .int receiverID, .int accessLevel]
  | .keyHook player key => player.map fun id => [.int id, .text key.text]
  | .hostChat id type message => some [.int id, .int type, .text message.text]
  | .radio player playerType announcementID iconID announcementType => player.map fun id =>
    [.int id, .int playerType, .int announcementID, .int iconID, .int announcementType]
  | .playerLoaded player | .playerJoin player | .playerLeave player | .nameChange player =>
    player.map fun id => [.int id]
  | .remix | .rebalance | .swap | .gameOver | .levelLoaded | .settingsLoaded => some []
  | .renLog output | .consoleOutput output => some [.text output.text]
  | .characterPurchaseRequest playerType player cost item
  | .vehiclePurchaseRequest playerType player cost item
  | .powerUpPurchaseRequest playerType player cost item =>
    some ([.int playerType, .int player, .float cost.value] ++ item.fields)
  | .changeCharacter player soldier => some (.int player :: soldier.fields)
  | .characterPurchase player cost item | .vehiclePurchase player cost item
  | .powerUpPurchase player cost item => some ([.int player, .float cost.value] ++ item.fields)
  | .customPurchaseRequest playerType player cost id =>
    some [.int playerType, .int player, .float cost.value, .unsigned id]
  | .customPurchase player cost id => some [.int player, .float cost.value, .unsigned id]
  | .teamChange id | .clearWeapons id | .beaconDeploy id | .beaconDetonate id | .c4Detonate id
  | .vehicleFlip id | .objectCreated id | .objectDestroyed id => some [.int id]
  | .vehicleEntryRequest vehicle player seat | .vehicleEnter vehicle player seat
  | .vehicleExit vehicle player seat => some [.int vehicle, .int player, .int seat]
  | .powerUpGrantRequest player powerUp powerUpObj | .powerUpGrant player powerUp powerUpObj =>
    some (.int player :: powerUp.fields ++ [objectField powerUpObj])
  | .addWeaponRequest player weapon | .addWeapon player weapon | .removeWeapon player weapon =>
    some (objectField player :: weaponFields weapon)
  | .c4DetonateRequest c4 triggerer => some [.int c4, objectField triggerer]
  | .requestVehicle factory vehicle player delay =>
    some [.int factory, .unsigned vehicle, objectField player, .float delay.value]
  | .kill victim killer damage warhead scale type =>
    some [objectField victim, objectField killer, .float damage.value, .unsigned warhead,
      .float scale.value, .int type]
  | .custom obj type param sender => some [.int obj, .int type, .int param, objectField sender]
  | .poke player obj => some [.int player, .int obj]
  | .zoneEnter obj other | .zoneExit obj other => some [.int obj, objectField other]

/-- The global that handles an event. -/
def Event.hook : Event → Bytes
  | .chatCommand .. => bytes "DA_Chat_Command_Event"
  | .chat .. => bytes "DA_Chat_Event"
  | .keyHook .. => bytes "DA_Key_Hook_Event"
  | .hostChat .. => bytes "DA_Host_Chat_Event"
  | .radio .. => bytes "DA_Radio_Event"
  | .playerLoaded _ => bytes "DA_Player_Loaded_Event"
  | .playerJoin _ => bytes "DA_Player_Join_Event"
  | .playerLeave _ => bytes "DA_Player_Leave_Event"
  | .nameChange _ => bytes "DA_Name_Change_Event"
  | .remix => bytes "DA_Remix_Event"
  | .rebalance => bytes "DA_Rebalance_Event"
  | .swap => bytes "DA_Swap_Event"
  | .gameOver => bytes "DA_Game_Over_Event"
  | .levelLoaded => bytes "DA_Level_Loaded_Event"
  | .settingsLoaded => bytes "DA_Settings_Loaded_Event"
  | .renLog _ => bytes "DA_Ren_Log_Event"
  | .consoleOutput _ => bytes "DA_Console_Output_Event"
  | .characterPurchaseRequest .. => bytes "DA_Character_Purchase_Request_Event"
  | .changeCharacter .. => bytes "DA_Change_Character_Event"
  | .characterPurchase .. => bytes "DA_Character_Purchase_Event"
  | .vehiclePurchaseRequest .. => bytes "DA_Vehicle_Purchase_Request_Event"
  | .vehiclePurchase .. => bytes "DA_Vehicle_Purchase_Event"
  | .powerUpPurchaseRequest .. => bytes "DA_PowerUp_Purchase_Request_Event"
  | .powerUpPurchase .. => bytes "DA_PowerUp_Purchase_Event"
  | .customPurchaseRequest .. => bytes "DA_Custom_Purchase_Request_Event"
  | .customPurchase .. => bytes "DA_Custom_Purchase_Event"
  | .teamChange _ => bytes "DA_Team_Change_Event"
  | .vehicleEntryRequest .. => bytes "DA_Vehicle_Entry_Request_Event"
  | .vehicleEnter .. => bytes "DA_Vehicle_Enter_Event"
  | .vehicleExit .. => bytes "DA_Vehicle_Exit_Event"
  | .powerUpGrantRequest .. => bytes "DA_PowerUp_Grant_Request_Event"
  | .powerUpGrant .. => bytes "DA_PowerUp_Grant_Event"
  | .addWeaponRequest .. => bytes "DA_Add_Weapon_Request_Event"
  | .addWeapon .. => bytes "DA_Add_Weapon_Event"
  | .removeWeapon .. => bytes "DA_Remove_Weapon_Event"
  | .clearWeapons _ => bytes "DA_Clear_Weapons_Event"
  | .beaconDeploy _ => bytes "DA_Beacon_Deploy_Event"
  | .beaconDetonate _ => bytes "DA_Beacon_Detonate_Event"
  | .c4DetonateRequest .. => bytes "DA_C4_Detonate_Request_Event"
  | .c4Detonate _ => bytes "DA_C4_Detonate_Event"
  | .vehicleFlip _ => bytes "DA_Vehicle_Flip_Event"
  | .requestVehicle .. => bytes "DA_Request_Vehicle_Event"
  | .kill .. => bytes "DA_Kill_Event"
  | .custom .. => bytes "DA_Custom_Event"
  | .poke .. => bytes "DA_Poke_Event"
  | .zoneEnter .. => bytes "DA_Zone_Enter_Event"
  | .zoneExit .. => bytes "DA_Zone_Exit_Event"
  | .objectCreated _ => bytes "DA_Object_Created_Event"
  | .objectDestroyed _ => bytes "DA_Object_Destroyed_Event"

/-- The answer where no plugin gives one. -/
def Event.defaultReturn : Event → ℤ
  | .characterPurchaseRequest .. | .vehiclePurchaseRequest .. | .powerUpPurchaseRequest .. => -1
  | .customPurchaseRequest .. => 3
  | _ => 1

def Returns.generic : Returns → GenericReturn
  | .nothing => .useNothing
  | .bool => .useBool
  | .status => .useInt

/-- The generic event with the given fields. -/
def Event.generic (e : Event) (fs : List Field) : Dispatch.GenericParamList :=
  let p (i : ℕ) := (fs[i]?).elim .useNothing Field.param
  ⟨e.returns.generic, p 0, p 1, p 2, p 3, p 4, p 5, e.defaultReturn⟩

/-- The event on data: the generic event of its fields, or nothing where there is no player. -/
def Event.deliver {M : Type} (code : Code M) (e : Event) (lua : List (LState M)) :
    List (LState M) × Verdict :=
  match e.fields with
  | none => (lua, e.returns.verdict 1)
  | some fs => answering e.returns.verdict (Dispatch.genericHook code e.hook (e.generic fs) lua)

/-! ## Where the data lie -/

def Text.Placed (mem : WordMemory) (t : Text) : Prop :=
  match t.text with
  | none => t.address = nullptr
  | some s => t.address ≠ nullptr ∧ mem.cstr t.address = some s

def FloatVar.Placed (mem : WordMemory) (v : FloatVar) : Prop := mem.float v.address = some v.value

def Event.texts : Event → List Text
  | .chatCommand _ _ command text _ => [command, text]
  | .chat _ _ message _ _ => [message]
  | .keyHook _ key => [key]
  | .hostChat _ _ message => [message]
  | .renLog output | .consoleOutput output => [output]
  | .characterPurchaseRequest _ _ _ item | .vehiclePurchaseRequest _ _ _ item
  | .powerUpPurchaseRequest _ _ _ item | .characterPurchase _ _ item | .vehiclePurchase _ _ item
  | .powerUpPurchase _ _ item => [item.name]
  | .changeCharacter _ soldier => [soldier.name]
  | .powerUpGrantRequest _ powerUp _ | .powerUpGrant _ powerUp _ => [powerUp.name]
  | .addWeaponRequest _ weapon | .addWeapon _ weapon | .removeWeapon _ weapon =>
    weapon.toList.map Definition.name
  | _ => []

def Event.floats : Event → List FloatVar
  | .characterPurchaseRequest _ _ cost _ | .vehiclePurchaseRequest _ _ cost _
  | .powerUpPurchaseRequest _ _ cost _ | .characterPurchase _ cost _ | .vehiclePurchase _ cost _
  | .powerUpPurchase _ cost _ | .customPurchaseRequest _ _ cost _ | .customPurchase _ cost _ => [cost]
  | .requestVehicle _ _ _ delay => [delay]
  | .kill _ _ damage _ scale _ => [damage, scale]
  | _ => []

/-- The memory holds what the event comes with. -/
structure Event.Placed (mem : WordMemory) (e : Event) : Prop where
  texts : ∀ t ∈ e.texts, t.Placed mem
  floats : ∀ v ∈ e.floats, v.Placed mem

/-! ## Words as fields -/

section Param
variable {mem : WordMemory}

theorem param_text {t : Text} (h : t.Placed mem) :
    param mem .useString t.address = some (Field.text t.text).param := by
  obtain ⟨address, text⟩ := t
  cases text with
  | none =>
    have haddress : address = nullptr := h
    simp only [param, haddress, if_true, Field.param]
  | some s =>
    obtain ⟨hne, hs⟩ : address ≠ nullptr ∧ mem.cstr address = some s := h
    simp only [param, if_neg hne, hs, Option.map_some, Field.param]

theorem param_float {v : FloatVar} (h : v.Placed mem) :
    param mem .useFloat v.address = some (Field.float v.value).param := by
  have hv : mem.float v.address = some v.value := h
  simp only [param, hv, Option.map_some, Field.param]

theorem param_noneLiteral (image : Image) : param image.toWordMemory .useString image.noneLiteral =
    some (Field.text (some (bytes "None"))).param := by
  have hplaced : Text.Placed image.toWordMemory ⟨image.noneLiteral, some (bytes "None")⟩ :=
    ⟨image.noneLiteral_ne, image.cstr_noneLiteral⟩
  exact param_text hplaced

end Param

/-! ## The handlers -/

/-- The call hands these fields to the hook of the event. -/
structure Call.Says (mem : WordMemory) (e : Event) (c : Call) (fs : List Field) : Prop where
  func : c.func = e.hook
  data : typed mem c.params c.data = some (e.generic fs)

theorem typed_intro {mem : WordMemory} {params : GenericParamList} {data : Data}
    {t : Dispatch.GenericParamList} (hret : genericReturn params.ret = t.ret)
    (hdefault : params.defaultReturn = t.defaultReturn) (h1 : param mem params.p1 data.p1 = some t.p1)
    (h2 : param mem params.p2 data.p2 = some t.p2) (h3 : param mem params.p3 data.p3 = some t.p3)
    (h4 : param mem params.p4 data.p4 = some t.p4) (h5 : param mem params.p5 data.p5 = some t.p5)
    (h6 : param mem params.p6 data.p6 = some t.p6) : typed mem params data = some t := by
  simp only [typed, h1, h2, h3, h4, h5, h6, hret, hdefault, Option.bind_eq_bind, Option.bind_some]

/-- A handler that needs its player. -/
theorem says_map {mem : WordMemory} {e : Event} (player : Option Int32) {f : Int32 → Call}
    {g : Int32 → List Field} (h : ∀ id, (f id).Says mem e (g id)) :
    Option.Rel (Call.Says mem e) (player.map f) (player.map g) := by
  cases player with
  | none => exact .none
  | some id => exact .some (h id)

/-- The words of an event are its fields. Ints are what they are; a text or a float is where the event says. -/
theorem call_says {image : Image} {e : Event} (h : e.Placed image.toWordMemory) :
    Option.Rel (Call.Says image.toWordMemory e) (e.call image) e.fields := by
  have ht : ∀ t ∈ e.texts, param image.toWordMemory .useString t.address =
      some (Field.text t.text).param := fun t hm => param_text (h.texts t hm)
  have hv : ∀ v ∈ e.floats, param image.toWordMemory .useFloat v.address =
      some (Field.float v.value).param := fun v hm => param_float (h.floats v hm)
  cases e
  case chatCommand player type command text receiverID =>
    have hcommand := ht command (.head _)
    have htext := ht text (.tail _ (.head _))
    exact says_map player fun id => ⟨rfl, typed_intro rfl rfl rfl rfl hcommand htext rfl rfl⟩
  case chat player type message receiverID accessLevel =>
    have hmessage := ht message (.head _)
    exact says_map player fun id => ⟨rfl, typed_intro rfl rfl rfl rfl hmessage rfl rfl rfl⟩
  case keyHook player key =>
    have hkey := ht key (.head _)
    exact says_map player fun id => ⟨rfl, typed_intro rfl rfl rfl hkey rfl rfl rfl rfl⟩
  case hostChat id type message =>
    have hmessage := ht message (.head _)
    exact .some ⟨rfl, typed_intro rfl rfl rfl rfl hmessage rfl rfl rfl⟩
  case radio player playerType announcementID iconID announcementType =>
    exact says_map player fun id => ⟨rfl, rfl⟩
  case playerLoaded player | playerJoin player | playerLeave player | nameChange player =>
    exact says_map player fun id => ⟨rfl, rfl⟩
  case renLog output | consoleOutput output =>
    have houtput := ht output (.head _)
    exact .some ⟨rfl, typed_intro rfl rfl houtput rfl rfl rfl rfl rfl⟩
  case characterPurchaseRequest playerType player cost item
    | vehiclePurchaseRequest playerType player cost item
    | powerUpPurchaseRequest playerType player cost item =>
    have hcost := hv cost (.head _)
    have hname := ht item.name (.head _)
    exact .some ⟨rfl, typed_intro rfl rfl rfl rfl hcost rfl hname rfl⟩
  case characterPurchase player cost item | vehiclePurchase player cost item
    | powerUpPurchase player cost item =>
    have hcost := hv cost (.head _)
    have hname := ht item.name (.head _)
    exact .some ⟨rfl, typed_intro rfl rfl rfl hcost rfl hname rfl rfl⟩
  case customPurchaseRequest playerType player cost id =>
    have hcost := hv cost (.head _)
    exact .some ⟨rfl, typed_intro rfl rfl rfl rfl hcost rfl rfl rfl⟩
  case customPurchase player cost id =>
    have hcost := hv cost (.head _)
    exact .some ⟨rfl, typed_intro rfl rfl rfl hcost rfl rfl rfl rfl⟩
  case changeCharacter player soldier =>
    have hname := ht soldier.name (.head _)
    exact .some ⟨rfl, typed_intro rfl rfl rfl rfl hname rfl rfl rfl⟩
  case powerUpGrantRequest player powerUp powerUpObj | powerUpGrant player powerUp powerUpObj =>
    have hname := ht powerUp.name (.head _)
    exact .some ⟨rfl, typed_intro rfl rfl rfl rfl hname rfl rfl rfl⟩
  case addWeaponRequest player weapon | addWeapon player weapon | removeWeapon player weapon =>
    cases weapon with
    | none =>
      have hname := param_noneLiteral image
      exact .some ⟨rfl, typed_intro rfl rfl rfl rfl hname rfl rfl rfl⟩
    | some w =>
      have hname := ht w.name (.head _)
      exact .some ⟨rfl, typed_intro rfl rfl rfl rfl hname rfl rfl rfl⟩
  case requestVehicle factory vehicle player delay =>
    have hdelay := hv delay (.head _)
    exact .some ⟨rfl, typed_intro rfl rfl rfl rfl rfl hdelay rfl rfl⟩
  case kill victim killer damage warhead scale type =>
    have hdamage := hv damage (.head _)
    have hscale := hv scale (.tail _ (.head _))
    exact .some ⟨rfl, typed_intro rfl rfl rfl rfl hdamage rfl hscale rfl⟩
  -- the others have ids only
  all_goals exact .some ⟨rfl, rfl⟩

theorem fields_length_le {e : Event} {fs : List Field} (h : e.fields = some fs) : fs.length ≤ 6 := by
  have hmap : ∀ {player : Option Int32} {g : Int32 → List Field}, player.map g = some fs →
      (∀ id, (g id).length ≤ 6) → fs.length ≤ 6 := by
    intro player g hp hg
    obtain ⟨id, -, rfl⟩ := Option.map_eq_some_iff.mp hp
    exact hg id
  have hsome : ∀ {gs : List Field}, some gs = some fs → gs.length ≤ 6 → fs.length ≤ 6 :=
    fun hgs hle => Option.some.inj hgs ▸ hle
  cases e
  case chatCommand | chat | keyHook | radio | playerLoaded | playerJoin | playerLeave | nameChange =>
    exact hmap h fun id => by simp
  case addWeaponRequest player weapon | addWeapon player weapon | removeWeapon player weapon =>
    exact hsome h (by cases weapon <;> simp [weaponFields, Definition.fields])
  all_goals exact hsome h (by simp [Definition.fields])

theorem pushStack_param (f : Field) : Dispatch.GenericParamList.pushStack f.param = [f.value] := by
  cases f <;> rfl

theorem flatMap_getElem? {α : Type} (l : List α) (n : ℕ) :
    (List.range n).flatMap (fun i => (l[i]?).toList) = l.take n := by
  induction n with
  | zero => rfl
  | succ n ih => rw [List.range_succ, List.flatMap_append, ih, List.take_add_one, List.flatMap_singleton]

/-- The handlers get the values of the fields. -/
theorem generic_args (e : Event) {fs : List Field} (h : fs.length ≤ 6) :
    (e.generic fs).args = fs.map Field.value := by
  have hp (i : ℕ) : Dispatch.GenericParamList.pushStack ((fs[i]?).elim .useNothing Field.param) =
      ((fs.map Field.value)[i]?).toList := by
    rw [List.getElem?_map]
    cases fs[i]? with
    | none => rfl
    | some f => exact pushStack_param f
  simp only [Event.generic, Dispatch.GenericParamList.args, Dispatch.GenericParamList.params,
    List.flatMap_cons, List.flatMap_nil, hp]
  have hall := flatMap_getElem? (fs.map Field.value) 6
  rw [List.take_of_length_le (by simpa using h)] at hall
  exact hall

/-- Every event reads only what it has been given, and hands each handler the fields in their order. -/
theorem raise_eq_deliver {M : Type} (code : Code M) (image : Image) (e : Event)
    (h : e.Placed image.toWordMemory) (lua : List (LState M)) :
    e.raise code image lua = some (e.deliver code lua) ∧
      ∀ fs, e.fields = some fs → (e.generic fs).args = fs.map Field.value := by
  refine ⟨?_, fun fs hfs => generic_args e (fields_length_le hfs)⟩
  have hsays := call_says h
  unfold Event.raise Event.deliver
  cases hc : e.call image with
  | none =>
    cases hf : e.fields with
    | none => rfl
    | some fs =>
      rw [hc, hf] at hsays
      cases hsays
  | some c =>
    cases hf : e.fields with
    | none =>
      rw [hc, hf] at hsays
      cases hsays
    | some fs =>
      rw [hc, hf] at hsays
      cases hsays with
      | some hs =>
        simp only [genericHook_eq code hs.data, hs.func, Option.map_some]

/-- A plugin that defines every hook and answers with its first argument. -/
def answeringCode : Code Unit where
  getglobal _ _ := .function 0
  setglobal m _ _ := m
  call m _ args := (m, .ok (args.take 1))

/-- Three objects in memory: the literal, the name of a vehicle and a cost. -/
def sampleImage : Image where
  float w := if w = 64 then some 900 else none
  double _ := none
  cstr w := if w = 32 then some (bytes "None") else if w = 48 then some (bytes "CnC_GDI_APC") else none
  noneLiteral := 32
  noneLiteral_ne := by decide
  cstr_noneLiteral := rfl

def samplePurchase : Event := .vehiclePurchaseRequest 1 7 ⟨64, 900⟩ ⟨512, ⟨48, some (bytes "CnC_GDI_APC")⟩⟩

theorem samplePurchase_placed : samplePurchase.Placed sampleImage.toWordMemory where
  texts t ht := by
    obtain rfl := List.mem_singleton.mp ht
    exact ⟨by decide, rfl⟩
  floats v hv := by
    obtain rfl := List.mem_singleton.mp hv
    exact rfl

theorem samplePurchase_delivered :
    let L : LState Unit := ⟨(), .nil, [], []⟩
    samplePurchase.raise answeringCode sampleImage [L] = some (samplePurchase.deliver answeringCode [L]) ∧
      ∀ fs, samplePurchase.fields = some fs → (samplePurchase.generic fs).args = fs.map Field.value :=
  raise_eq_deliver answeringCode sampleImage samplePurchase samplePurchase_placed _

end LuaTT.DAEvents
