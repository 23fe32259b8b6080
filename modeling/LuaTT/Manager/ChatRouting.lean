import LuaTT.Manager.ChatRegistry
import LuaTT.Manager.HookCalls

/-! The activation of a chat command. The command object holds the name of the callback but not the state it
belongs to, so every plugin that has a function of that name is asked. -/
namespace LuaTT.ChatRegistry
open Lua LState Transition Registrations Dispatch Voting
set_option autoImplicit false

section Activate
variable {M : Type} (code : Code M)

/-- `LuaTT_DAChatCommand::Activate`, with the number of the player and the first token of the text. -/
def activate (func : Bytes) (playerId : ℤ) (text : Bytes) (chatType : ℤ) (lua : List (LState M)) :
    List (LState M) × Bool :=
  boolVerdictHook code func [number playerId, string text, number chatType] lua

def activateArgs (playerId : ℤ) (text : Bytes) (chatType : ℤ) : List LuaValue :=
  [number playerId, string text, number chatType]

/-- The callback of the plugin that has registered the command is called once (and its error reported),
nothing is called in the other plugins, and the verdict is that of the plugin alone. -/
structure Routed (s : Chat) (state : StateId → LState M) (o : Object) (playerId : ℤ) (text : Bytes)
    (chatType : ℤ) : Prop where
  once : s.lua.count o.owner = 1
  calls : (activate code.logged o.command.func playerId text chatType
      (s.lua.map fun L => (state L).recording)).1.map calls = s.lua.map fun L =>
        if L = o.owner then
          calling code (state L).mem (code.getglobal (state L).mem o.command.func)
            (activateArgs playerId text chatType)
        else []
  verdict : (activate code o.command.func playerId text chatType (s.lua.map state)).2 =
    (activate code o.command.func playerId text chatType [state o.owner]).2

/-! ## Names -/

section Names
variable {s : Chat} (state : StateId → LState M) (o : Object) (playerId : ℤ) (text : Bytes) (chatType : ℤ)

/-- The plugin has the callback, and no other one a function of its name. -/
def Alone (s : Chat) : Prop :=
  Defines code o.command.func (state o.owner) ∧
    ∀ L ∈ s.lua, L ≠ o.owner → ¬ Defines code o.command.func (state L)

theorem activate_calls : (activate code.logged o.command.func playerId text chatType
    (s.lua.map fun L => (state L).recording)).1.map calls = s.lua.map fun L =>
      hookCalls code o.command.func (activateArgs playerId text chatType) (state L) := by
  have hcalls := verdictHook_calls code o.command.func (activateArgs playerId text chatType) combineBool true
    (s.lua.map fun L => (state L).recording)
  rw [List.map_map] at hcalls
  exact hcalls

theorem activate_verdict (hA : o.owner ∈ s.lua) (halone : Alone code state o s) :
    (activate code o.command.func playerId text chatType (s.lua.map state)).2 =
      (activate code o.command.func playerId text chatType [state o.owner]).2 := by
  have hmem : ∀ v, v ∈ values (ballots code o.command.func (activateArgs playerId text chatType)
      (s.lua.map state)) ↔ v ∈ values (ballots code o.command.func
        (activateArgs playerId text chatType) [state o.owner]) := by
    intro v
    simp only [values, ballots, List.mem_map, List.mem_filterMap, List.mem_singleton]
    constructor
    · rintro ⟨b, ⟨_, ⟨L, hL, rfl⟩, hb⟩, rfl⟩
      have hd := defines_of_ballot code _ _ hb
      have hself : L = o.owner := by
        by_contra hne
        exact halone.2 L hL hne hd
      exact ⟨b, ⟨_, rfl, hself ▸ hb⟩, rfl⟩
    · rintro ⟨b, ⟨_, rfl, hb⟩, rfl⟩
      exact ⟨b, ⟨_, ⟨o.owner, hA, rfl⟩, hb⟩, rfl⟩
  unfold activate
  rw [boolVerdictHook_verdict, boolVerdictHook_verdict, Bool.eq_iff_iff, List.all_eq_true, List.all_eq_true]
  exact forall_congr' fun v => imp_congr_left (hmem v)

end Names

theorem count_of_loaded {s : Chat} {L : StateId} (hr : system.Reaches System.anyStep s) (hL : L ∈ s.lua) :
    s.lua.count L = 1 := by
  have hkept : Kept s := by
    refine hr.invariant (fun s hs => ?_) fun s a s' hk _ hs => hk.step hs
    obtain rfl : s = initial := hs
    exact kept_initial
  exact List.count_eq_one_of_mem (List.nodup_append.mp hkept.once).1 hL

end Activate

/-- Every global is a function that returns true. -/
def agreeingCode : Code Unit where
  getglobal _ _ := .function 0
  setglobal _ _ _ := ()
  call _ _ _ := ((), .ok [.boolean true])

def aState : LState Unit := ⟨(), .nil, [], []⟩

def aCommand : Object := ⟨0, 0, Chat.newCommand callbackArgs (bytes "f") (bytes "!x")⟩

end LuaTT.ChatRegistry
