import LuaTT.Manager.EventDelivery

/-! Plugins under a run of events. What an event does to the state of a plugin can depend on the plugins
before it in `LuaManager::Lua`, through a refused connection, a damage that has been changed or a purchaser
without an id; on the plugins behind it it never depends, and for all other events on no other plugin. -/
namespace LuaTT.PluginIsolation
open Lua LState Dispatch EventDelivery
set_option autoImplicit false

/-! ## Loops that only look back -/

section Causal
variable {α : Type}

/-- Each element of the result comes from one of the list and from those before it. -/
structure Causal (f : List α → List α) : Prop where
  length (as : List α) : (f as).length = as.length
  append (as bs : List α) : ∃ cs, f (as ++ bs) = f as ++ cs

theorem Causal.map (g : α → α) : Causal (List.map g) where
  length _ := List.length_map g
  append _ bs := ⟨bs.map g, List.map_append⟩

theorem Causal.id : Causal (fun as : List α => as) where
  length _ := rfl
  append _ bs := ⟨bs, rfl⟩

theorem Causal.comp {f g : List α → List α} (hf : Causal f) (hg : Causal g) :
    Causal fun as => f (g as) where
  length as := (hf.length _).trans (hg.length as)
  append as bs := by
    obtain ⟨cs, hcs⟩ := hg.append as bs
    obtain ⟨ds, hds⟩ := hf.append (g as) cs
    exact ⟨ds, by rw [hcs, hds]⟩

theorem Causal.take {f : List α → List α} (hf : Causal f) (as bs : List α) :
    (f (as ++ bs)).take as.length = f as := by
  obtain ⟨cs, hcs⟩ := hf.append as bs
  rw [hcs, ← hf.length as, List.take_left]

end Causal

/-! ## The dispatchers -/

section Dispatchers
variable {M : Type} (code : Code M)

theorem genericLoop_states (func : Bytes) (params : GenericParamList) (n : ℕ) (ret : ℤ)
    (lua : List (LState M)) : (genericLoop code func params n ret lua).1 =
      lua.map fun L => ((genericLoop code func params n 0 [L]).1).headD L := by
  induction lua generalizing ret with
  | nil => rfl
  | cons L lua ih =>
    simp only [genericLoop, List.map_cons]
    split_ifs
    · rw [ih]
      rfl
    · rw [ih]
      rfl

theorem genericHook_states (func : Bytes) (params : GenericParamList) (lua : List (LState M)) :
    ∃ g, (genericHook code func params lua).1 = lua.map g ∧
      ∀ L, g L = ((genericHook code func params [L]).1).headD L := by
  refine ⟨fun L => ((genericHook code func params [L]).1).headD L, ?_, fun _ => rfl⟩
  unfold genericHook
  split_ifs with hret
  · rw [genericLoop_states]
    apply List.map_congr_left
    intro L _
    rw [genericLoop_states code func params 1 params.defaultReturn [L]]
    rfl
  · exact genericLoop_states code func params 0 0 lua

theorem connectionHook_causal (name : Bytes) (args : List LuaValue) (ret : Bytes) :
    Causal fun lua => (connectionHook code name args ret lua).1 where
  length lua := by
    induction lua generalizing ret with
    | nil => rfl
    | cons L lua ih =>
      simp only [connectionHook]
      split_ifs <;> simp only [List.length_cons, ih]
  append lua mua := by
    induction lua generalizing ret with
    | nil => exact ⟨_, rfl⟩
    | cons L lua ih =>
      simp only [connectionHook, List.cons_append]
      split_ifs
      · exact ⟨mua, rfl⟩
      · obtain ⟨cs, hcs⟩ := ih _
        exact ⟨cs, by rw [hcs]; rfl⟩
      · obtain ⟨cs, hcs⟩ := ih _
        exact ⟨cs, by rw [hcs]; rfl⟩

theorem purchaseHook_causal (purchaser : ℤ) (cost preset purchaseret : ℕ) (data : Bytes) :
    Causal fun lua => purchaseHook code purchaser cost preset purchaseret data lua where
  length lua := by
    induction lua with
    | nil => rfl
    | cons L lua ih =>
      simp only [purchaseHook]
      split_ifs <;> simp only [List.length_cons, ih]
  append lua mua := by
    induction lua with
    | nil => exact ⟨_, rfl⟩
    | cons L lua ih =>
      obtain ⟨cs, hcs⟩ := ih
      simp only [purchaseHook, List.cons_append, hcs]
      split_ifs
      · exact ⟨mua, rfl⟩
      · exact ⟨cs, rfl⟩
      · exact ⟨cs, rfl⟩

/-- With an id the hook reaches every plugin. -/
theorem purchaseHook_states {purchaser : ℤ} (hid : purchaser ≠ 0) (cost preset purchaseret : ℕ)
    (data : Bytes) (lua : List (LState M)) :
    purchaseHook code purchaser cost preset purchaseret data lua =
      lua.map fun L => (purchaseHook code purchaser cost preset purchaseret data [L]).headD L := by
  induction lua with
  | nil => rfl
  | cons L lua ih =>
    rw [List.map_cons, ← ih]
    simp only [purchaseHook, if_neg hid]
    split_ifs <;> rfl

theorem daDamageRequestEvent_causal (victim damager : Option ℤ) (scale : Float32) (type : ℤ)
    (r : DamageRequest) :
    Causal fun lua => (daDamageRequestEvent code victim damager scale type r lua).1 where
  length lua := by
    induction lua generalizing r with
    | nil => rfl
    | cons L lua ih =>
      simp only [daDamageRequestEvent]
      split_ifs <;> simp only [List.length_cons, ih]
  append lua mua := by
    induction lua generalizing r with
    | nil => exact ⟨_, rfl⟩
    | cons L lua ih =>
      simp only [daDamageRequestEvent, List.cons_append]
      split_ifs
      · obtain ⟨cs, hcs⟩ := ih _
        exact ⟨cs, by rw [hcs]; rfl⟩
      · obtain ⟨cs, hcs⟩ := ih _
        exact ⟨cs, by rw [hcs]; rfl⟩

/-! ## One event -/

end Dispatchers

/-- The plugins get the event independently of each other: it is no connection, no damage request, and no
purchase by something without an id. -/
def Separate : Event → Prop
  | .conAc .. | .daConnectionRequest _ | .daDamageRequest .. => False
  | .purchase purchaser .. => purchaser ≠ 0
  | _ => True

section Events
variable {M : Type} (code : Code M)

theorem deliver_skipped {e : Event} (h : ∀ lua, deliver code e lua = lua) (lua : List (LState M)) :
    deliver code e lua = lua.map (deliverState code e) := by
  have hone : deliverState code e = id := by
    funext L
    show (deliver code e [L]).headD L = L
    rw [h [L]]
    rfl
  rw [h lua, hone, List.map_id]

theorem deliver_separate {e : Event} (he : Separate e) (lua : List (LState M)) :
    deliver code e lua = lua.map (deliverState code e) := by
  cases e with
  | conAc ip nick serial version id => exact he.elim
  | daConnectionRequest request => exact he.elim
  | daDamageRequest victim damager damage warhead scale type => exact he.elim
  | purchase purchaser cost preset purchaseret data =>
    exact purchaseHook_states code he cost preset purchaseret data lua
  | chat id type msg target => exact intVerdictHook_states code (bytes "OnChat") _ lua
  | radio playerType playerID announcementID iconID announcementType =>
    exact intVerdictHook_states code (bytes "RadioHook") _ lua
  | stockDamage damager target damage warhead =>
    exact intVerdictHook_states code (bytes "StockDamageHook") _ lua
  | ttDamage damager target ammo name warhead damage bone =>
    exact intVerdictHook_states code (bytes "TTDamageHook") _ lua
  | purchase2 purchaser cost preset =>
    exact verdictHook_states code (bytes "VehicleTTHook") _ combineNonzero (-1) lua
  | refill purchaser =>
    cases purchaser with
    | none => exact deliver_skipped code (fun _ => rfl) lua
    | some id => exact intVerdictHook_states code (bytes "OnRefill") _ lua
  | daSuicide player =>
    cases player with
    | none => exact deliver_skipped code (fun _ => rfl) lua
    | some id => exact verdictHook_states code (bytes "DA_Suicide_Event") _ combineBool true lua
  | daRefill player =>
    cases player with
    | none => exact deliver_skipped code (fun _ => rfl) lua
    | some id => exact verdictHook_states code (bytes "DA_Refill_Event") _ combineBool true lua
  | daTeamChangeRequest player =>
    cases player with
    | none => exact deliver_skipped code (fun _ => rfl) lua
    | some id =>
      exact verdictHook_states code (bytes "DA_Team_Change_Request_Event") _ combineBool true lua
  | playerJoin id nick =>
    by_cases h : id = 0 ∨ nick = none
    · exact deliver_skipped code (fun _ => by simp [deliver, dispatch, callPlayerJoinHook, h]) lua
    · simp [deliver, deliverState, dispatch, callPlayerJoinHook, h, notifyHook]
  | playerLeave id =>
    by_cases h : id = 0
    · exact deliver_skipped code (fun _ => by simp [deliver, dispatch, callPlayerLeaveHook, h]) lua
    · simp [deliver, deliverState, dispatch, callPlayerLeaveHook, h, notifyHook]
  | objectCreate obj =>
    cases obj with
    | none => exact deliver_skipped code (fun _ => rfl) lua
    | some id => rfl
  | adressIP addr =>
    cases addr with
    | none => exact deliver_skipped code (fun _ => rfl) lua
    | some addr => rfl
  | generic func params =>
    obtain ⟨g, hg, hg1⟩ := genericHook_states code func params lua
    exact hg.trans (List.map_congr_left fun L _ => hg1 L)
  | _ => rfl

theorem deliver_causal (e : Event) : Causal (deliver code e) := by
  by_cases he : Separate e
  · have hmap : deliver code e = List.map (deliverState code e) := funext (deliver_separate code he)
    rw [hmap]
    exact .map _
  · cases e with
    | conAc ip nick serial version id =>
      exact connectionHook_causal code (bytes "ConnectionAcceptance") _ _
    | daConnectionRequest request =>
      exact connectionHook_causal code (bytes "DA_Connection_Request_Event") _ _
    | daDamageRequest victim damager damage warhead scale type =>
      exact daDamageRequestEvent_causal code victim damager scale type _
    | purchase purchaser cost preset purchaseret data =>
      exact purchaseHook_causal code purchaser cost preset purchaseret data
    | _ => exact (he trivial).elim

/-! ## Runs -/

/-- The states after the events, one after the other. -/
def run (es : List Event) (lua : List (LState M)) : List (LState M) :=
  es.foldl (fun lua e => deliver code e lua) lua

/-- A plugin that is loaded alone. -/
def runAlone (es : List Event) (L : LState M) : LState M :=
  es.foldl (fun L e => deliverState code e L) L

theorem run_causal (es : List Event) : Causal (run code es) := by
  induction es with
  | nil => exact .id
  | cons e es ih => exact ih.comp (deliver_causal code e)

theorem run_separate {es : List Event} (hes : ∀ e ∈ es, Separate e) (lua : List (LState M)) :
    run code es lua = lua.map (runAlone code es) := by
  induction es generalizing lua with
  | nil => exact (List.map_id lua).symm
  | cons e es ih =>
    have hrest : ∀ e' ∈ es, Separate e' := fun e' he' => hes e' (.tail _ he')
    show run code es (deliver code e lua) = _
    rw [deliver_separate code (hes e (.head _)), ih hrest, List.map_map]
    rfl

/-- Plugins loaded later change nothing for those before them. Without connections, damage requests and
purchasers without an id, each plugin ends as if it were the only one. -/
theorem run_isolated (es : List Event) (lua mua : List (LState M)) :
    (run code es (lua ++ mua)).take lua.length = run code es lua ∧
      ((∀ e ∈ es, Separate e) → run code es (lua ++ mua) = (lua ++ mua).map (runAlone code es)) :=
  ⟨(run_causal code es).take lua mua, fun hes => run_separate code hes (lua ++ mua)⟩

end Events

/-- A program whose handlers count their calls, and that lets nobody in. -/
def countingCode : Code ℕ where
  getglobal _ _ := .function 0
  setglobal m _ _ := m
  call m _ _ := (m + 1, .ok [.string (bytes "REFUSED")])

/-- The second plugin does not hear of a connection that the first has refused. -/
example : (run countingCode [.conAc none none none none 1]
    [⟨0, .nil, [], []⟩, ⟨0, .nil, [], []⟩]).map LState.mem = [1, 0] := by decide

end LuaTT.PluginIsolation
