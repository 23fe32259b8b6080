import LuaTT.Library.Ballot
import LuaTT.Manager.Dispatch

/-! What a hook leaves on the stack of its state. A hook that raises is reported; where `OnError` is no
function its value stays behind, and the dispatchers that want a result read whatever is on top. -/
namespace LuaTT.Dispatch
open Lua LState Voting
set_option autoImplicit false

variable {M : Type} (code : Code M)

/-- The global `OnError` in the memory that a hook leaves. -/
def onError (mem : M) : LuaValue := code.getglobal mem (bytes "OnError")

/-- What `reportErrors` adds to the frame. -/
def leftover (mem : M) : List LuaValue :=
  if (onError code mem).isfunction then [] else [onError code mem]

theorem reportErrors_zero (L : LState M) : (reportErrors code L 0).1 = L := rfl

theorem pcall_discard {L : LState M} {s : List LuaValue} (f err : LuaValue)
    (h : L.stack = s ++ [f] ++ [err]) :
    (if (L.pcall code 1 (some 0)).2 ≠ 0 then (L.pcall code 1 (some 0)).1.pop 1
      else (L.pcall code 1 (some 0)).1).stack = s := by
  have hcall := pcall_eq code L (some 0) h
  rw [List.length_singleton] at hcall
  rw [hcall]
  cases code.call L.mem f [err] with
  | mk mem r =>
    cases r with
    | ok vs => simp [adjustResults]
    | error e => simpa [luaErrrun] using pop_one_stack _ rfl

theorem reportErrors_stack {L : LState M} {s : List LuaValue} {e : LuaValue}
    (h : L.stack = s ++ [e]) :
    (reportErrors code L luaErrrun).1.stack = s ++ leftover code L.mem := by
  have hpop : (L.pop 1).stack = s := pop_one_stack L h
  have hmem : (L.pop 1).mem = L.mem := rfl
  unfold reportErrors
  rw [if_pos (by decide)]
  simp only [getglobal_top, leftover, onError, hmem]
  by_cases hf : (code.getglobal L.mem (bytes "OnError")).isfunction
  · simp only [hf, if_true, List.append_nil]
    refine pcall_discard code (onError code L.mem) (ofCString L.top.tostring) ?_
    rw [push_stack, getglobal_stack, hpop]
    rfl
  · simp [hf, hpop]

theorem reportErrors_below (L : LState M) (status : ℕ) :
    (reportErrors code L status).1.below = L.below := by
  unfold reportErrors
  split_ifs with hs
  · simp only
    split_ifs with hf hs'
    · exact pcall_below code _ _ _
    · exact pcall_below code _ _ _
    · rfl
  · rfl

/-! ## One state -/

section State
variable (name : Bytes) (args : List LuaValue)

abbrev Defines (L : LState M) : Prop := (code.getglobal L.mem name).isfunction = true

/-- What the call of the hook would do. -/
def outcome (L : LState M) : M × Except LuaValue (List LuaValue) :=
  code.call L.mem (code.getglobal L.mem name) args

theorem callHook_stack (nresults : Option ℕ) (L : LState M) :
    (callHook code args nresults (L.getglobal code name)).stack =
      match outcome code name args L with
      | (_, .ok vs) => L.stack ++ adjustResults nresults vs
      | (mem, .error _) => L.stack ++ leftover code mem := by
  unfold callHook
  rw [pcall_eq code _ nresults rfl]
  simp only [outcome]
  cases hr : code.call L.mem (code.getglobal L.mem name) args with
  | mk mem r =>
    have hr' : code.call ((L.getglobal code name).pushAll args).mem (code.getglobal L.mem name) args =
        (mem, r) := hr
    rw [hr']
    cases r with
    | ok vs => simp [reportErrors_zero]
    | error e => exact reportErrors_stack code rfl

theorem callHook_below (nresults : Option ℕ) (L : LState M) :
    (callHook code args nresults L).below = L.below :=
  (reportErrors_below code _ _).trans (pcall_below code _ _ _)

/-- What a dispatcher reads at -1 where the hook has raised. -/
def residue (mem : M) (L : LState M) : LuaValue :=
  if (onError code mem).isfunction then L.top else onError code mem

/-- What a state has to say: its hook's first result, or what is read in its place. -/
def ballot (L : LState M) : Option (Ballot LuaValue) :=
  if Defines code name L then
    match outcome code name args L with
    | (_, .ok vs) => some (.answer (vs.headD .nil))
    | (mem, .error _) => some (.stray (residue code mem L))
  else none

def ballots (lua : List (LState M)) : List (Ballot LuaValue) := lua.filterMap (ballot code name args)

theorem ballot_isSome {L : LState M} : (ballot code name args L).isSome ↔ Defines code name L := by
  unfold ballot
  split_ifs with h
  · cases outcome code name args L with
    | mk mem r => cases r <;> exact iff_of_true rfl h
  · exact iff_of_false (by simp) h

theorem defines_of_ballot {L : LState M} {b : Ballot LuaValue} (h : ballot code name args L = some b) :
    Defines code name L := (ballot_isSome code name args).mp (by rw [h]; rfl)

theorem not_defines_of_ballot {L : LState M} (h : ballot code name args L = none) :
    ¬ Defines code name L := fun hd => by
  have hs := (ballot_isSome code name args).mpr hd
  rw [h] at hs
  cases hs

theorem callHook_top {L : LState M} {b : Ballot LuaValue} (h : ballot code name args L = some b) :
    (callHook code args (some 1) (L.getglobal code name)).top = b.value := by
  have hstack := callHook_stack code name args (some 1) L
  have hbelow := callHook_below code args (some 1) (L.getglobal code name)
  unfold ballot at h
  split_ifs at h
  cases ho : outcome code name args L with
  | mk mem r =>
    rw [ho] at h hstack
    cases r with
    | ok vs =>
      obtain rfl := Option.some.inj h
      have hone : adjustResults (some 1) vs = [vs.headD .nil] := by
        cases vs <;> simp [adjustResults]
      simp only [hone] at hstack
      exact top_of_stack_append hstack
    | error e =>
      obtain rfl := Option.some.inj h
      simp only [leftover] at hstack
      simp only [Ballot.value, residue]
      by_cases hf : (onError code mem).isfunction
      · rw [if_pos hf, List.append_nil] at hstack
        rw [if_pos hf, top, top, hstack, hbelow]
        rfl
      · rw [if_neg hf] at hstack
        rw [if_neg hf]
        exact top_of_stack_append hstack

end State

/-! ## Refusals -/

/-- The refusal that a value stands for, if it is one. -/
def refusal (v : LuaValue) : Option Bytes :=
  v.tostring.bind fun s => if s = bytes "CONTINUE" then none else some s

theorem refusal_eq_none {v : LuaValue} :
    refusal v = none ↔ v.tostring.getD (bytes "CONTINUE") = bytes "CONTINUE" := by
  unfold refusal
  cases v.tostring <;> simp

theorem getD_of_refusal {v : LuaValue} {s : Bytes} (h : refusal v = some s) :
    v.tostring.getD (bytes "CONTINUE") = s := by
  unfold refusal at h
  cases hv : v.tostring with
  | none => simp [hv] at h
  | some s' =>
    rw [hv, Option.bind_some] at h
    split_ifs at h
    exact Option.some.inj h

/-! ## Events -/

namespace Event

/-- The global that the event looks for in every state. -/
def hook : Event → Bytes
  | chat .. => bytes "OnChat"
  | conAc .. => bytes "ConnectionAcceptance"
  | radio .. => bytes "RadioHook"
  | refill .. => bytes "OnRefill"
  | host .. => bytes "OnHostMessage"
  | playerJoin .. => bytes "OnPlayerJoin"
  | dialog .. => bytes "OnDialog"
  | playerLeave .. => bytes "OnPlayerLeave"
  | levelLoaded => bytes "OnLevelLoaded"
  | gameOver => bytes "OnGameOver"
  | consoleOutput .. => bytes "OnConsoleOutput"
  | purchase _ _ _ _ data => data
  | purchase2 .. => bytes "VehicleTTHook"
  | stockDamage .. => bytes "StockDamageHook"
  | ttDamage .. => bytes "TTDamageHook"
  | unloading => bytes "UnloadingLua"
  | objectCreate .. => bytes "OnObjectCreate"
  | adressIP .. => bytes "Adress_IP"
  | think => bytes "OnThink"
  | invoke function _ => function
  | killed .. => bytes "OnKilled"
  | zoneEnter .. => bytes "OnZoneEnter"
  | zoneExit .. => bytes "OnZoneExit"
  | destroyed .. => bytes "OnDestroyed"
  | custom .. => bytes "CustomHook"
  | damage .. => bytes "DamageHook"
  | poked .. => bytes "PokedHook"
  | key _ _ callback => callback
  | daSuicide .. => bytes "DA_Suicide_Event"
  | daRefill .. => bytes "DA_Refill_Event"
  | daTeamChangeRequest .. => bytes "DA_Team_Change_Request_Event"
  | daPlayerPreJoin .. => bytes "DA_Player_Pre_Join_Event"
  | daLog .. => bytes "DA_Log_Event"
  | daConnectionRequest .. => bytes "DA_Connection_Request_Event"
  | daDamageRequest .. => bytes "DA_Damage_Request_Event"
  | generic func _ => func

/-- The arguments a hook gets; those of a damage request are the ones for the first state. -/
def args : Event → List LuaValue
  | chat id type msg target => [number id, number type, string msg, number target]
  | conAc ip nick serial version id =>
    [ofCString nick, ofCString ip, ofCString serial, ofCString version, number id]
  | radio playerType playerID announcementID iconID announcementType => [number playerType,
    number playerID, number announcementID, number iconID, number announcementType]
  | refill purchaser => [number (purchaser.getD 0)]
  | host playerID type message => [number playerID, number type, ofCString message]
  | playerJoin id nick => [number id, ofCString nick]
  | dialog playerID dialogID controlID messageType =>
    [number playerID, number dialogID, number controlID, number messageType]
  | playerLeave id => [number id]
  | consoleOutput output => [ofCString output]
  | purchase purchaser cost preset purchaseret _ =>
    [number purchaser, number cost, number preset, number purchaseret]
  | purchase2 purchaser cost preset => [number purchaser, number cost, number preset]
  | stockDamage damager target amount warhead =>
    [number damager, number target, float amount, number warhead]
  | ttDamage damager target ammo name warhead amount bone => [number damager, number target, string name,
    number warhead, ofCString bone, .lightuserdata ammo, float amount]
  | objectCreate obj => [number (obj.getD 0)]
  | adressIP addr => [ofCString addr]
  | invoke _ arg => [ofCString arg]
  | killed obj shooter => [number obj, number shooter]
  | zoneEnter obj enter => [number obj, number enter]
  | zoneExit obj exit => [number obj, number exit]
  | destroyed obj => [number obj]
  | custom obj message param sender => [number obj, number message, number param, number sender]
  | damage obj damager amount warhead => [number obj, number damager, float amount, number warhead]
  | poked obj damager => [number obj, number damager]
  | key obj name _ => [number obj, ofCString name]
  | daSuicide player | daRefill player | daTeamChangeRequest player => [number (player.getD 0)]
  | daPlayerPreJoin request | daConnectionRequest request => request.args
  | daLog header output => [ofCString header, ofCString output]
  | daDamageRequest victim damager amount warhead scale type =>
    damageArgs victim damager scale type ⟨true, amount, warhead⟩
  | generic _ params => params.args
  | levelLoaded | gameOver | unloading | think => []

/-- The dispatcher returns before it looks at any state. -/
def skipped : Event → Bool
  | refill purchaser => purchaser.isNone
  | playerJoin id nick => id = 0 || nick.isNone
  | playerLeave id => id = 0
  | objectCreate obj => obj.isNone
  | adressIP addr => addr.isNone
  | daSuicide player | daRefill player | daTeamChangeRequest player => player.isNone
  | _ => false

end Event
end LuaTT.Dispatch
