import LuaTT.Manager.ReentrantQuiet

/-! The events that a plugin can veto. Their dispatchers ask every state, read the results in three
different ways and make the same of them. -/
namespace LuaTT.Dispatch
open Lua LState Voting
set_option autoImplicit false

/-! ## Events with a veto -/

/-- What a result has to be so that it is no veto, for the events that plugins can veto. -/
def Event.vetoes : Event → Option (LuaValue → Bool)
  | .chat .. | .radio .. | .refill .. | .stockDamage .. | .ttDamage .. => some passInt
  | .daSuicide .. | .daRefill .. | .daTeamChangeRequest .. => some LuaValue.toboolean
  | .generic _ params =>
    if params.ret = .useBool ∧ params.defaultReturn ≠ 0 then some LuaValue.toboolean else none
  | _ => none

/-- The verdict as the engine takes it. -/
def Verdict.passes : Verdict → Bool
  | .bool b => b
  | .int i => i ≠ 0
  | _ => true

section Verdicts
variable {e : Event} {pass : LuaValue → Bool}

theorem generic_of_vetoes {func : Bytes} {params : GenericParamList}
    (h : (Event.generic func params).vetoes = some pass) :
    params.ret = .useBool ∧ params.defaultReturn ≠ 0 ∧ pass = LuaValue.toboolean := by
  obtain ⟨⟨hret, hdefault⟩, hpass⟩ := Option.ite_none_right_eq_some.mp h
  exact ⟨hret, hdefault, (Option.some.inj hpass).symm⟩

/-- The three readings agree: one veto is enough. -/
theorem verdictOf_passes (h : e.vetoes = some pass) (vs : List LuaValue) :
    (verdictOf e vs).passes = vs.all pass := by
  cases e with
  | generic func params =>
    obtain ⟨hret, hdefault, rfl⟩ := generic_of_vetoes h
    simp only [verdictOf, hret, Verdict.passes, genericBool]
    by_cases hvs : vs = []
    · simp [hvs, hdefault]
    · cases hall : vs.all LuaValue.toboolean <;> simp [hvs, hdefault]
  | chat | radio | refill | stockDamage | ttDamage | daSuicide | daRefill | daTeamChangeRequest =>
    obtain rfl := Option.some.inj h
    rfl
  | _ => cases h

theorem all_eq_of_perm {vs vs' : List LuaValue} (h : vs.Perm vs') : vs.all pass = vs'.all pass := by
  rw [Bool.eq_iff_iff, List.all_eq_true, List.all_eq_true]
  exact forall_congr' fun v => imp_congr_left h.mem_iff

theorem verdictOf_perm (h : e.vetoes = some pass) {vs vs' : List LuaValue} (hp : vs.Perm vs') :
    verdictOf e vs = verdictOf e vs' := by
  cases e with
  | generic func params =>
    obtain ⟨hret, _, _⟩ := generic_of_vetoes h
    have hnil : vs = [] ↔ vs' = [] := by
      rw [← List.length_eq_zero_iff, ← List.length_eq_zero_iff, hp.length_eq]
    simp only [verdictOf, hret, genericBool, all_eq_of_perm hp, hnil]
  | chat | radio | refill | stockDamage | ttDamage | daSuicide | daRefill | daTeamChangeRequest =>
    exact congrArg Verdict.bool (all_eq_of_perm hp)
  | _ => cases h

end Verdicts

/-! ## Dispatches -/

section Dispatches
variable {M : Type} (code : Code M) {e : Event} {pass : LuaValue → Bool}

theorem dispatch_vetoes (h : e.vetoes = some pass) (hs : e.skipped = false) (lua : List (LState M)) :
    (dispatch code e lua).2 = verdictOf e (values (ballots code e.hook e.args lua)) := by
  cases e with
  | chat | radio | stockDamage | ttDamage =>
    exact congrArg Verdict.bool (intVerdictHook_verdict code _ _ lua)
  | refill purchaser =>
    cases purchaser with
    | none => cases hs
    | some id => exact congrArg Verdict.bool (intVerdictHook_verdict code _ _ lua)
  | daSuicide player | daRefill player | daTeamChangeRequest player =>
    cases player with
    | none => cases hs
    | some id => exact congrArg Verdict.bool (boolVerdictHook_verdict code _ _ lua)
  | generic func params =>
    obtain ⟨hret, _, _⟩ := generic_of_vetoes h
    simp [dispatch, answering, genericHook, hret, verdictOf, genericLoop_verdict,
      foldl_combine_useBool params hret, Event.hook, Event.args]
  | _ => cases h

theorem dispatch_vetoes_calls (h : e.vetoes = some pass) (hs : e.skipped = false)
    (lua : List (LState (M × List Called))) :
    (dispatch code.logged e lua).1.map calls =
      lua.map fun L => L.calls ++ hookCalls code e.hook e.args L.erase := by
  cases e with
  | chat | radio | stockDamage | ttDamage => exact verdictHook_calls code _ _ combineInt 1 lua
  | refill purchaser =>
    cases purchaser with
    | none => cases hs
    | some id => exact verdictHook_calls code _ _ combineInt 1 lua
  | daSuicide player | daRefill player | daTeamChangeRequest player =>
    cases player with
    | none => cases hs
    | some id => exact verdictHook_calls code _ _ combineBool true lua
  | generic func params =>
    obtain ⟨hret, _, _⟩ := generic_of_vetoes h
    simp only [dispatch, answering, genericHook, hret]
    exact genericLoop_calls code func params 1 params.defaultReturn lua
  | _ => cases h

/-- The program without handler tables. -/
def hooksOnly (code : Code M) : ScriptCallbacks.ScriptCode M where
  toCode := code
  refs _ _ := .nil
  getfield _ _ _ := .nil
  getmetatable _ _ := .nil
  setmetatable m _ _ := m

/-- The states whose hook is called, each as it is then, from the first call to the last. -/
def calledStates (code : Code M) (e : Event) (w : Reentrancy.World M) : List (LState M) :=
  ((Reentrancy.raise (Reentrancy.quiet (hooksOnly code)) (fun _ w => ⟨w, .nothing, []⟩) e w).visits.filter
    (·.outcome.isSome)).map (·.state)

theorem calledStates_vetoes (h : e.vetoes = some pass) (hs : e.skipped = false) (w : Reentrancy.World M) :
    calledStates code e w = (w.lua.map w.state).filter fun L => Defines code e.hook L := by
  have hask : ∀ {β : Type} (d : Reentrancy.Dispatcher M β) (start : β) (v : β → Verdict),
      d.hook = e.hook → d.quits = false → (∀ ret, d.stops ret = false) →
      (((Reentrancy.ask (Reentrancy.quiet (hooksOnly code)) (fun _ w => ⟨w, .nothing, []⟩) d start v w.lua
        w).visits.filter (·.outcome.isSome)).map (·.state)) =
        (w.lua.map w.state).filter fun L => Defines code e.hook L := by
    intro β d start v hhook hq hstops
    rw [← hhook]
    exact Reentrancy.askAll_visits (hooksOnly code) _ d w.nodup hq hstops w start
  cases e with
  | chat | radio | stockDamage | ttDamage => exact hask _ _ _ rfl rfl fun _ => rfl
  | refill purchaser | daSuicide purchaser | daRefill purchaser | daTeamChangeRequest purchaser =>
    cases purchaser with
    | none => cases hs
    | some id => exact hask _ _ _ rfl rfl fun _ => rfl
  | generic func params => exact hask _ _ _ rfl rfl fun _ => rfl
  | _ => cases h

/-- A null purchaser or player: nobody is asked. -/
theorem dispatch_skipped (h : e.vetoes = some pass) (hs : e.skipped = true) (lua : List (LState M)) :
    dispatch code e lua = (lua, .bool true) := by
  cases e with
  | refill purchaser | daSuicide purchaser | daRefill purchaser | daTeamChangeRequest purchaser =>
    cases purchaser with
    | none => rfl
    | some id => cases hs
  | chat | radio | stockDamage | ttDamage | generic => cases hs
  | _ => cases h

/-! ## Hooks that complete -/

/-- The hook returns. -/
def Completes (name : Bytes) (args : List LuaValue) (L : LState M) : Prop :=
  ∃ mem vs, outcome code name args L = (mem, .ok vs)

/-- The state defines the hook, which returns a veto. -/
def Vetoes (e : Event) (pass : LuaValue → Bool) (L : LState M) : Prop :=
  Defines code e.hook L ∧ ∃ mem vs, outcome code e.hook e.args L = (mem, .ok vs) ∧ pass (vs.headD .nil) = false

theorem ballot_of_completes {name : Bytes} {args : List LuaValue} {L : LState M} {mem : M}
    {vs : List LuaValue} (hd : Defines code name L) (ho : outcome code name args L = (mem, .ok vs)) :
    ballot code name args L = some (.answer (vs.headD .nil)) := by
  rw [ballot, if_pos hd, ho]

theorem mem_values_iff {name : Bytes} {args : List LuaValue} {lua : List (LState M)}
    (hc : ∀ L ∈ lua, Defines code name L → Completes code name args L) {v : LuaValue} :
    v ∈ values (ballots code name args lua) ↔ ∃ L ∈ lua, Defines code name L ∧
      ∃ mem vs, outcome code name args L = (mem, .ok vs) ∧ vs.headD .nil = v := by
  simp only [values, ballots, List.mem_map, List.mem_filterMap]
  constructor
  · rintro ⟨b, ⟨L, hL, hb⟩, rfl⟩
    have hd := defines_of_ballot code name args hb
    obtain ⟨mem, vs, ho⟩ := hc L hL hd
    rw [ballot_of_completes code hd ho] at hb
    obtain rfl := Option.some.inj hb
    exact ⟨L, hL, hd, mem, vs, ho, rfl⟩
  · rintro ⟨L, hL, hd, mem, vs, ho, rfl⟩
    exact ⟨_, ⟨L, hL, ballot_of_completes code hd ho⟩, rfl⟩

theorem hookCalls_of_completes {name : Bytes} {args : List LuaValue} {L : LState M}
    (hc : Defines code name L → Completes code name args L) :
    hookCalls code name args L =
      if Defines code name L then [⟨code.getglobal L.mem name, args⟩] else [] := by
  split_ifs with hd
  · obtain ⟨mem, vs, ho⟩ := hc hd
    exact hookCalls_of_ok code name args hd ho
  · exact (hookCalls_eq_nil code name args).mpr hd

end Dispatches

/-- The globals are the memory, and every function returns 0. -/
def refusingCode : Code LuaValue where
  getglobal m _ := m
  setglobal m _ _ := m
  call m _ _ := (m, .ok [number 0])

def refusing (ref : ℕ) : LState LuaValue := ⟨.function ref, .nil, [], []⟩

/-- Two plugins, of which the second one was loaded first. -/
def twoPlugins : Reentrancy.World LuaValue := ⟨[1, 0], by decide, refusing⟩

end LuaTT.Dispatch
