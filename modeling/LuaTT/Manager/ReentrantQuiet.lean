import LuaTT.Manager.PluginIsolation
import LuaTT.Manager.ReentrantFrames

/-! Plugins whose functions make the host do nothing. There the dispatchers are those of `Dispatch`, which
go through the states one after the other, and the plugins stay apart. -/
namespace LuaTT.Reentrancy
open Lua LState Dispatch ScriptCallbacks
set_option autoImplicit false

variable {M : Type}

/-- A call depends on the memory of its own state, and neither it nor a text on the console makes the host
act. -/
def quiet (code : ScriptCode M) : Program M where
  toScriptCode := code
  play w i f args := .done (code.call (w.state i).mem f args).1 (code.call (w.state i).mem f args).2
  printed _ _ := []

namespace World
variable (w : World M)

theorem put_put (i : ℕ) (L K : LState M) : (w.put i L).put i K = w.put i K := by
  unfold put
  rw [Function.update_idem]

theorem modify_put (i : ℕ) (L : LState M) (f : LState M → LState M) :
    (w.put i L).modify i f = w.put i (f L) := by
  rw [modify, put_put, put_state_self]

theorem modify_eq (i : ℕ) (f : LState M → LState M) : w.modify i f = w.put i (f (w.state i)) := rfl

end World

section Quiet
variable (code : ScriptCode M) (perf : Act M → World M → Result M Verdict) (i : ℕ)

/-! ## Calls -/

/-- The status of a call. -/
def status {α β : Type} : Except α β → ℕ
  | .ok _ => 0
  | .error _ => luaErrrun

theorem pcall_quiet (nargs : ℕ) (nresults : Option ℕ) (w : World M) :
    (pcall (quiet code) perf i nargs nresults w).world =
        w.put i ((w.state i).pcall code.toCode nargs nresults).1 ∧
      status (pcall (quiet code) perf i nargs nresults w).value =
        ((w.state i).pcall code.toCode nargs nresults).2 ∧
      (pcall (quiet code) perf i nargs nresults w).records = [] := by
  unfold pcall LState.pcall
  simp only [quiet, Play.run, World.modify_eq, World.put_put, World.put_state_self, and_true]
  cases h : code.call (w.state i).mem
    (((w.state i).stack[(w.state i).stack.length - (nargs + 1)]?).getD .nil)
    ((w.state i).stack.drop ((w.state i).stack.length - (nargs + 1) + 1)) with
  | mk mem r => cases r <;> exact ⟨rfl, rfl⟩

/-- The state when `Report_Errors` has looked up `OnError`. -/
def reported (code : ScriptCode M) (L : LState M) : LState M :=
  ({ L.pop 1 with errors := L.top.tostring :: L.errors } : LState M).getglobal code.toCode (bytes "OnError")

theorem reportErrors_eq (L : LState M) : (reportErrors code.toCode L luaErrrun).1 =
    if (reported code L).top.isfunction then
      if (((reported code L).push (ofCString L.top.tostring)).pcall code.toCode 1 (some 0)).2 = 0 then
        (((reported code L).push (ofCString L.top.tostring)).pcall code.toCode 1 (some 0)).1
      else (((reported code L).push (ofCString L.top.tostring)).pcall code.toCode 1 (some 0)).1.pop 1
    else reported code L := by
  unfold reportErrors
  rw [if_pos (by decide), apply_ite Prod.fst]
  simp only [ite_not]
  rfl

theorem report_eq (w : World M) : ∃ K, report (quiet code) perf i w =
    if (reported code (w.state i)).top.isfunction then
      let r := pcall (quiet code) perf i 1 (some 0)
        (w.put i ((reported code (w.state i)).push (ofCString (w.state i).top.tostring)))
      match r.value with
      | .ok _ => ⟨r.world, K, r.records⟩
      | .error _ => ⟨r.world.modify i fun L => L.pop 1, K, r.records⟩
    else ⟨w.put i (reported code (w.state i)), K, []⟩ := by
  have hprinted : ∀ v e, (quiet code).printed v e = [] := fun _ _ => rfl
  refine ⟨{ (w.state i).pop 1 with errors := (w.state i).top.tostring :: (w.state i).errors }, ?_⟩
  unfold report
  simp only [hprinted, performAll, World.modify_eq, World.put_put, World.put_state_self]
  rfl

theorem report_quiet (w : World M) :
    (report (quiet code) perf i w).world = w.put i (reportErrors code.toCode (w.state i) luaErrrun).1 ∧
      (report (quiet code) perf i w).records = [] := by
  obtain ⟨K, hreport⟩ := report_eq code perf i w
  rw [reportErrors_eq, hreport]
  by_cases hf : (reported code (w.state i)).top.isfunction
  · obtain ⟨hworld, hstatus, hrecords⟩ := pcall_quiet code perf i 1 (some 0)
      (w.put i ((reported code (w.state i)).push (ofCString (w.state i).top.tostring)))
    rw [World.put_put, World.put_state_self] at hworld
    rw [World.put_state_self] at hstatus
    rw [if_pos hf, if_pos hf, ← hstatus]
    generalize pcall (quiet code) perf i 1 (some 0) _ = r at hworld hrecords ⊢
    cases hr : r.value with
    | ok vs => exact ⟨by simpa [hr, status] using hworld, by simpa [hr] using hrecords⟩
    | error e =>
      refine ⟨?_, by simpa [hr] using hrecords⟩
      simp [hr, status, hworld, World.modify_put, luaErrrun]
  · rw [if_neg hf, if_neg hf]
    exact ⟨rfl, rfl⟩

/-- The call of a hook in its own state. -/
theorem callHook_quiet (nargs : ℕ) (nresults : Option ℕ) (w : World M) :
    (callHook (quiet code) perf i nargs nresults w).world =
        w.put i (reportErrors code.toCode ((w.state i).pcall code.toCode nargs nresults).1
          ((w.state i).pcall code.toCode nargs nresults).2).1 ∧
      (callHook (quiet code) perf i nargs nresults w).records = [] := by
  obtain ⟨hworld, hstatus, hrecords⟩ := pcall_quiet code perf i nargs nresults w
  unfold callHook
  dsimp only
  rw [← hstatus]
  cases hr : (pcall (quiet code) perf i nargs nresults w).value with
  | ok vs => exact ⟨hworld, hrecords⟩
  | error e =>
    obtain ⟨hreport, hnone⟩ := report_quiet code perf i (pcall (quiet code) perf i nargs nresults w).world
    rw [hworld, World.put_put, World.put_state_self] at hreport
    refine ⟨?_, by rw [hrecords, hnone]; rfl⟩
    rw [hworld, hreport]
    rfl

/-! ## One state after the other -/

variable {β : Type} (d : Dispatcher M β)

/-- A turn of the dispatcher, as it is in `Dispatch`. -/
def turnState (ret : β) (L : LState M) : LState M × β × Bool :=
  let K := L.getglobal code.toCode d.hook
  if K.top.isfunction then
    if d.quits then (K, ret, false)
    else
      let K := Dispatch.callHook code.toCode (d.args ret) d.nresults K
      let ret := d.read (K.gettop - L.gettop) K ret
      (if d.clears then K.pop K.gettop else K, ret, !d.stops ret)
  else (if d.keeps then K else K.setglobal code.toCode d.hook, ret, true)

def turnStates : β → List (LState M) → List (LState M) × β
  | ret, [] => ([], ret)
  | ret, L :: lua =>
    let (L, ret, goesOn) := turnState code d ret L
    if goesOn then
      let (lua, ret) := turnStates ret lua
      (L :: lua, ret)
    else (L :: lua, ret)

theorem turn_quiet (w : World M) (ret : β) :
    (turn (quiet code) perf d i w ret).world = w.put i (turnState code d ret (w.state i)).1 ∧
      (turn (quiet code) perf d i w ret).value = (turnState code d ret (w.state i)).2.1 ∧
      (turn (quiet code) perf d i w ret).goesOn = (turnState code d ret (w.state i)).2.2 ∧
      (turn (quiet code) perf d i w ret).records = [] := by
  have hcode : (quiet code).toCode = code.toCode := rfl
  unfold turn turnState
  simp only [hcode, World.modify_eq, World.put_put, World.put_state_self]
  by_cases hf : ((w.state i).getglobal code.toCode d.hook).top.isfunction
  · rw [if_pos hf, if_pos hf]
    cases hq : d.quits with
    | true => exact ⟨rfl, rfl, rfl, rfl⟩
    | false =>
      obtain ⟨hworld, hrecords⟩ := callHook_quiet code perf i (d.args ret).length d.nresults
        (w.put i (((w.state i).getglobal code.toCode d.hook).pushAll (d.args ret)))
      rw [World.put_put, World.put_state_self] at hworld
      change _ = w.put i (Dispatch.callHook code.toCode (d.args ret) d.nresults
        ((w.state i).getglobal code.toCode d.hook)) at hworld
      generalize callHook (quiet code) perf i (d.args ret).length d.nresults _ = r at hworld hrecords ⊢
      simp only [Bool.false_eq_true, if_false, hworld, World.put_state_self, World.put_put, hrecords]
      refine ⟨?_, trivial, trivial, trivial⟩
      split_ifs <;> rfl
  · rw [if_neg hf, if_neg hf]
    refine ⟨?_, rfl, rfl, rfl⟩
    dsimp only
    split_ifs <;> rfl

theorem askAll_quiet {is : List ℕ} (hnodup : is.Nodup) (w : World M) (ret : β) :
    is.map (askAll (quiet code) perf d is w ret).world.state = (turnStates code d ret (is.map w.state)).1 ∧
      (askAll (quiet code) perf d is w ret).value = (turnStates code d ret (is.map w.state)).2 ∧
      (askAll (quiet code) perf d is w ret).world.lua = w.lua ∧
      ∀ j, j ∉ is → (askAll (quiet code) perf d is w ret).world.state j = w.state j := by
  induction is generalizing w ret with
  | nil => exact ⟨rfl, rfl, rfl, fun _ _ => rfl⟩
  | cons i is ih =>
    obtain ⟨hi, hnodup⟩ := List.nodup_cons.mp hnodup
    obtain ⟨hworld, hvalue, hgo, _⟩ := turn_quiet code perf i d w ret
    have hother : ∀ L : LState M, is.map (w.put i L).state = is.map w.state := fun L =>
      List.map_congr_left fun j hj => World.put_state_of_ne w L fun hji => hi (hji ▸ hj)
    unfold askAll turnStates
    simp only [List.map_cons, hworld, hvalue, hgo]
    split_ifs
    · obtain ⟨hstates, hret, hlua, hrest⟩ := ih hnodup (w.put i (turnState code d ret (w.state i)).1)
        (turnState code d ret (w.state i)).2.1
      rw [hother] at hstates hret
      refine ⟨?_, hret, hlua, fun j hj => ?_⟩
      · rw [hstates, hrest i hi, World.put_state_self]
      · obtain ⟨hji, hj⟩ := not_or.mp fun h => hj (List.mem_cons.mpr h)
        rw [hrest j hj, World.put_state_of_ne _ _ hji]
    · refine ⟨?_, rfl, rfl, fun j hj => ?_⟩
      · rw [World.put_state_self, hother]
      · exact World.put_state_of_ne _ _ fun hji => hj (hji ▸ List.mem_cons_self)

/-- A loop that does not stop asks each state as it was before the event, in their order. -/
theorem askAll_visits {is : List ℕ} (hnodup : is.Nodup) (hquits : d.quits = false)
    (hstops : ∀ ret, d.stops ret = false) (w : World M) (ret : β) :
    ((askAll (quiet code) perf d is w ret).visits.filter (·.outcome.isSome)).map (·.state) =
      (is.map w.state).filter fun L => Defines code.toCode d.hook L := by
  induction is generalizing w ret with
  | nil => rfl
  | cons i is ih =>
    obtain ⟨hi, hnodup⟩ := List.nodup_cons.mp hnodup
    obtain ⟨hworld, _, hgo, _⟩ := turn_quiet code perf i d w ret
    have hother : ∀ L : LState M, is.map (w.put i L).state = is.map w.state := fun L =>
      List.map_congr_left fun j hj => World.put_state_of_ne w L fun hji => hi (hji ▸ hj)
    have hvisit : (turn (quiet code) perf d i w ret).visit.state = w.state i ∧
        (turn (quiet code) perf d i w ret).visit.outcome.isSome =
          decide (Defines code.toCode d.hook (w.state i)) := by
      unfold turn
      simp only [World.modify_eq, World.put_state_self, getglobal_top]
      by_cases hd : Defines code.toCode d.hook (w.state i)
      · have hd' : ((quiet code).getglobal (w.state i).mem d.hook).isfunction = true := hd
        simp [hd, hd', hquits]
      · have hd' : ¬ ((quiet code).getglobal (w.state i).mem d.hook).isfunction = true := hd
        simp [hd, hd']
    have hgo' : (turnState code d ret (w.state i)).2.2 = true := by
      unfold turnState
      simp only [hquits, hstops, Bool.false_eq_true, if_false, Bool.not_false]
      split_ifs <;> rfl
    rw [hgo'] at hgo
    unfold askAll
    simp only [hgo, if_true, List.filter_cons, List.map_cons, hvisit.2]
    have hrest := ih hnodup (turn (quiet code) perf d i w ret).world (turn (quiet code) perf d i w ret).value
    rw [hworld, hother] at hrest
    split_ifs with hd
    · rw [List.map_cons, hvisit.1, hworld, hrest]
    · rw [hworld, hrest]

/-! ## The dispatchers -/

section Families
variable {code} {L : LState M}

theorem turnState_missing {d : Dispatcher M β} (hf : ¬ Defines code.toCode d.hook L) (ret : β) :
    turnState code d ret L = (if d.keeps then L.getglobal code.toCode d.hook
      else (L.getglobal code.toCode d.hook).setglobal code.toCode d.hook, ret, true) := by
  unfold turnState
  simp only [getglobal_top]
  exact if_neg hf

theorem turnState_called {d : Dispatcher M β} (hf : Defines code.toCode d.hook L) (hq : d.quits = false)
    {ret : β} {K : LState M}
    (hK : Dispatch.callHook code.toCode (d.args ret) d.nresults (L.getglobal code.toCode d.hook) = K) :
    turnState code d ret L = (if d.clears then K.pop K.gettop else K, d.read (K.gettop - L.gettop) K ret,
      !d.stops (d.read (K.gettop - L.gettop) K ret)) := by
  unfold turnState
  simp only [getglobal_top, hK, hq, Bool.false_eq_true, if_false]
  exact if_pos hf

end Families

variable (name : Bytes) (args : List LuaValue) (lua : List (LState M))

theorem turnStates_notify :
    turnStates code (notify M name args) () lua = (notifyHook code.toCode name args lua, ()) := by
  induction lua with
  | nil => rfl
  | cons L lua ih =>
    simp only [turnStates, ih, notifyHook, notifyState, getglobal_top, List.map_cons]
    by_cases hf : Defines code.toCode name L
    · rw [turnState_called (d := notify M name args) hf rfl rfl, if_pos hf]
      rfl
    · rw [turnState_missing (d := notify M name args) hf, if_neg hf]
      rfl

theorem turnStates_invoke (arg : Option Bytes) :
    turnStates code { notify M name [ofCString arg] with keeps := true } () lua =
      (callInvoke code.toCode name arg lua, ()) := by
  induction lua with
  | nil => rfl
  | cons L lua ih =>
    simp only [turnStates, ih, callInvoke, invokeState, getglobal_top, List.map_cons]
    by_cases hf : Defines code.toCode name L
    · rw [turnState_called (d := { notify M name [ofCString arg] with keeps := true }) hf rfl rfl, if_pos hf]
      rfl
    · rw [turnState_missing (d := { notify M name [ofCString arg] with keeps := true }) hf, if_neg hf]
      rfl

theorem turnStates_purchase (purchaser : ℤ) (cost preset purchaseret : ℕ) :
    turnStates code { notify M name [number purchaser, number cost, number preset, number purchaseret] with
        quits := purchaser = 0 } () lua =
      (purchaseHook code.toCode purchaser cost preset purchaseret name lua, ()) := by
  induction lua with
  | nil => rfl
  | cons L lua ih =>
    simp only [turnStates, ih, purchaseHook, getglobal_top]
    by_cases hf : Defines code.toCode name L
    · rw [if_pos hf]
      by_cases hp : purchaser = 0
      · have hquit : turnState code { notify M name
            [number purchaser, number cost, number preset, number purchaseret] with quits := purchaser = 0 }
            () L = (L.getglobal code.toCode name, (), false) := by
          unfold turnState
          simp only [getglobal_top]
          exact (if_pos hf).trans (if_pos (decide_eq_true hp))
        rw [hquit, if_pos hp]
        rfl
      · rw [turnState_called (d := { notify M name
            [number purchaser, number cost, number preset, number purchaseret] with quits := purchaser = 0 })
            hf (decide_eq_false hp) rfl, if_neg hp]
        rfl
    · rw [turnState_missing (d := { notify M name
          [number purchaser, number cost, number preset, number purchaseret] with quits := purchaser = 0 }) hf,
        if_neg hf]
      rfl

theorem turnStates_verdict (combine : β → LuaValue → β) (ret : β) :
    turnStates code (verdict M name args combine) ret lua =
      verdictHook code.toCode name args combine ret lua := by
  induction lua generalizing ret with
  | nil => rfl
  | cons L lua ih =>
    simp only [turnStates, verdictHook, getglobal_top]
    by_cases hf : Defines code.toCode name L
    · rw [turnState_called (d := verdict M name args combine) hf rfl rfl, if_pos hf, ← ih]
      rfl
    · rw [turnState_missing (d := verdict M name args combine) hf, if_neg hf, ← ih]
      rfl

theorem turnStates_connection (ret : Bytes) :
    turnStates code (connection M name args) ret lua = connectionHook code.toCode name args ret lua := by
  induction lua generalizing ret with
  | nil => rfl
  | cons L lua ih =>
    simp only [turnStates, connectionHook, getglobal_top]
    by_cases hf : Defines code.toCode name L
    · rw [turnState_called (d := connection M name args) hf rfl rfl, if_pos hf]
      by_cases hc : (Dispatch.callHook code.toCode args (some 1) (L.getglobal code.toCode name)).top.tostring.getD
          (bytes "CONTINUE") = bytes "CONTINUE"
      · have hgo : (!(connection M name args).stops ((Dispatch.callHook code.toCode args (some 1)
            (L.getglobal code.toCode name)).top.tostring.getD (bytes "CONTINUE"))) = true := by
          rw [hc]
          simp [connection]
        rw [if_neg (not_not.mpr hc), ← ih]
        exact if_pos hgo
      · have hgo : ¬ (!(connection M name args).stops ((Dispatch.callHook code.toCode args (some 1)
            (L.getglobal code.toCode name)).top.tostring.getD (bytes "CONTINUE"))) = true := by
          simp [connection, hc]
        rw [if_pos hc]
        exact if_neg hgo
    · rw [turnState_missing (d := connection M name args) hf, if_neg hf, ← ih]
      rfl

theorem turnStates_damage (victim damager : Option ℤ) (scale : Float32) (type : ℤ) (r : DamageRequest) :
    turnStates code (damage M victim damager scale type) r lua =
      daDamageRequestEvent code.toCode victim damager scale type r lua := by
  induction lua generalizing r with
  | nil => rfl
  | cons L lua ih =>
    simp only [turnStates, daDamageRequestEvent, getglobal_top]
    by_cases hf : Defines code.toCode (bytes "DA_Damage_Request_Event") L
    · rw [turnState_called (d := damage M victim damager scale type) hf rfl rfl, if_pos hf, ← ih]
      rfl
    · rw [turnState_missing (d := damage M victim damager scale type) hf, if_neg hf, ← ih]
      rfl

theorem pop_neg_one (K : LState M) : K.pop (-1) = K.pop K.gettop := by
  have hstack : (K.pop (-1)).stack = (K.pop K.gettop).stack := by simp
  exact congrArg (fun s => (⟨K.mem, K.below, s, K.errors⟩ : LState M)) hstack

theorem turnStates_generic (func : Bytes) (params : GenericParamList) (ret : ℤ) :
    turnStates code (generic M func params) ret lua =
      genericLoop code.toCode func params (if params.ret ≠ .useNothing then 1 else 0) ret lua := by
  induction lua generalizing ret with
  | nil => rfl
  | cons L lua ih =>
    simp only [turnStates, genericLoop, getglobal_top, getTotalArguments_eq, pop_neg_one]
    by_cases hf : Defines code.toCode func L
    · rw [turnState_called (d := generic M func params) hf rfl rfl, if_pos hf, ← ih]
      rfl
    · rw [turnState_missing (d := generic M func params) hf, if_neg hf, ← ih]
      rfl

/-! ## Events -/

theorem ask_quiet {d : Dispatcher M β} {start ret : β} {lua : List (LState M)} (v : β → Verdict) (w : World M)
    (h : turnStates code d start (w.lua.map w.state) = (lua, ret)) :
    (ask (quiet code) perf d start v w.lua w).world.lua = w.lua ∧
      (w.lua.map (ask (quiet code) perf d start v w.lua w).world.state,
        (ask (quiet code) perf d start v w.lua w).value) = (lua, v ret) := by
  obtain ⟨hstates, hvalue, hlua, _⟩ := askAll_quiet code perf d w.nodup w start
  rw [h] at hstates hvalue
  exact ⟨hlua, Prod.ext hstates (congrArg v hvalue)⟩

/-- The dispatchers are those of `Dispatch`. -/
theorem raise_quiet (e : Event) (w : World M) :
    (raise (quiet code) perf e w).world.lua = w.lua ∧
      (w.lua.map (raise (quiet code) perf e w).world.state, (raise (quiet code) perf e w).value) =
        dispatch code.toCode e (w.lua.map w.state) := by
  have hnotify := fun name args => turnStates_notify code name args (w.lua.map w.state)
  cases e with
  | chat | radio | stockDamage | ttDamage =>
    exact ask_quiet code perf _ w (turnStates_verdict code _ _ _ combineInt 1)
  | refill purchaser =>
    cases purchaser with
    | none => exact ⟨rfl, rfl⟩
    | some id => exact ask_quiet code perf _ w (turnStates_verdict code _ _ _ combineInt 1)
  | daSuicide player | daRefill player | daTeamChangeRequest player =>
    cases player with
    | none => exact ⟨rfl, rfl⟩
    | some id => exact ask_quiet code perf _ w (turnStates_verdict code _ _ _ combineBool true)
  | purchase2 => exact ask_quiet code perf _ w (turnStates_verdict code _ _ _ combineNonzero (-1))
  | conAc | daConnectionRequest =>
    exact ask_quiet code perf _ w (turnStates_connection code _ _ _ (bytes "CONTINUE"))
  | daDamageRequest => exact ask_quiet code perf _ w (turnStates_damage code _ _ _ _ _ _)
  | generic func params =>
    have hloop := ask_quiet code perf Verdict.int w (turnStates_generic code (w.lua.map w.state) func params
      (if params.ret ≠ .useNothing then params.defaultReturn else 0))
    refine ⟨hloop.1, hloop.2.trans ?_⟩
    simp only [dispatch, answering, genericHook]
    split_ifs <;> rfl
  | purchase purchaser cost preset purchaseret data =>
    exact ask_quiet code perf _ w (turnStates_purchase code data _ purchaser cost preset purchaseret)
  | invoke function arg => exact ask_quiet code perf _ w (turnStates_invoke code function _ arg)
  | playerJoin id nick =>
    by_cases h : id = 0 ∨ nick = none
    · have hskip : (Event.playerJoin id nick).skipped = true := by simpa [Event.skipped] using h
      simp only [raise, hskip, dispatch, callPlayerJoinHook, h, if_true]
      exact ⟨rfl, rfl⟩
    · have hskip : (Event.playerJoin id nick).skipped = false := by
        simpa [Event.skipped, Option.isSome_iff_ne_none] using h
      simp only [raise, hskip, dispatch, callPlayerJoinHook, h, if_false, Bool.false_eq_true]
      exact ask_quiet code perf _ w (hnotify _ _)
  | playerLeave id =>
    by_cases h : id = 0
    · simp only [raise, dispatch, callPlayerLeaveHook, h, if_true]
      exact ⟨rfl, rfl⟩
    · have hskip : (Event.playerLeave id).skipped = false := by simpa [Event.skipped] using h
      simp only [raise, hskip, dispatch, callPlayerLeaveHook, h, if_false, Bool.false_eq_true]
      exact ask_quiet code perf _ w (hnotify _ _)
  | objectCreate obj =>
    cases obj with
    | none => exact ⟨rfl, rfl⟩
    | some id => exact ask_quiet code perf _ w (hnotify _ _)
  | adressIP addr =>
    cases addr with
    | none => exact ⟨rfl, rfl⟩
    | some addr => exact ask_quiet code perf _ w (hnotify _ _)
  | _ => exact ask_quiet code perf _ w (hnotify _ _)

end Quiet

/-! ## Isolation -/

section Isolation
open PluginIsolation
variable (code : ScriptCode M) (n : ℕ)

/-- The world after the events, one after the other. -/
def runEvents (p : Program M) (es : List Event) (w : World M) : World M :=
  es.foldl (fun w e => (perform p (n + 1) (.event e) w).world) w

theorem runEvents_quiet (es : List Event) (w : World M) :
    (runEvents n (quiet code) es w).lua = w.lua ∧
      w.lua.map (runEvents n (quiet code) es w).state = run code.toCode es (w.lua.map w.state) := by
  induction es generalizing w with
  | nil => exact ⟨rfl, rfl⟩
  | cons e es ih =>
    obtain ⟨hlua, hraise⟩ := raise_quiet code (perform (quiet code) n) e w
    obtain ⟨hrest, hstates⟩ := ih (raise (quiet code) (perform (quiet code) n) e w).world
    rw [hlua] at hrest hstates
    have hfirst : w.lua.map (raise (quiet code) (perform (quiet code) n) e w).world.state =
        (dispatch code.toCode e (w.lua.map w.state)).1 := congrArg Prod.fst hraise
    rw [hfirst] at hstates
    exact ⟨hrest, hstates⟩

end Isolation

/-- A program whose handlers count their calls, and that lets nobody in. -/
def countingProgram : ScriptCode ℕ where
  toCode := PluginIsolation.countingCode
  refs _ _ := .nil
  getfield _ _ _ := .nil
  getmetatable _ _ := .nil
  setmetatable m _ _ := m

def plugins (lua : List ℕ) (h : lua.Nodup) : World ℕ := ⟨lua, h, fun _ => ⟨0, .nil, [], []⟩⟩

end LuaTT.Reentrancy
