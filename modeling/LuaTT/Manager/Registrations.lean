import LuaTT.Library.Transition
import LuaTT.Lua.Value

/-! What plugins register with the engine, and the life of their Lua states: `LuaManager::LoadLua`,
`Cleanup` and `Reload_All`, `LuaScriptManager`, and the crates, console functions and chat commands of the
DA server. Registered objects keep the `lua_State` they call back into. The steps are small enough for what
code does while a plugin loads or a state is closed: it may register and unregister, load further plugins, and
call into other states. -/
namespace LuaTT.Registrations
open Lua Transition
set_option autoImplicit false

/-- A `lua_State`, numbered by its creation: a new state at an old address is another one. -/
abbrev StateId := ℕ

theorem lt_of_mem_append_newest {lua : List StateId} {n : StateId} (h : ∀ L ∈ lua, L < n) :
    ∀ L ∈ lua ++ [n], L < n + 1 := by
  intro L hL
  rcases List.mem_append.mp hL with hold | hnew
  · exact Nat.lt_succ_of_lt (h L hold)
  · rw [List.mem_singleton.mp hnew]
    exact Nat.lt_succ_self _

theorem nodup_append_newest {lua : List StateId} {n : StateId} (hlua : lua.Nodup) (h : ∀ L ∈ lua, L < n) :
    (lua ++ [n]).Nodup := by
  apply List.nodup_append.mpr
  refine ⟨hlua, by simp, ?_⟩
  intro L hL M hM
  rw [List.mem_singleton.mp hM]
  exact Nat.ne_of_lt (h L hL)

/-- What is running in a state, or has become of it. `lua_close` calls the finalizers of a state before it
frees it. -/
inductive Phase
  | unborn
  | loading
  | plugin
  | worker
  /-- In `lua_close`, called by `LuaManager::Cleanup`, at the end of `executeThread`, or by `LoadLua`. -/
  | unloading
  | exiting
  | discarding
  /-- Freed: closed by `LuaManager::Cleanup` or at the end of `executeThread`, or by `LoadLua`. -/
  | closed
  | discarded
  deriving DecidableEq

/-- Lua code can run in the state. -/
def Phase.runs : Phase → Bool
  | unborn | closed | discarded => false
  | _ => true

/-- A `lua_State` as C functions get it: the one of `luaL_newstate`, or a coroutine of it, which `lua_close`
frees with it. -/
structure LuaState where
  main : StateId
  coroutine : Option ℕ

/-! ## Registered objects -/

/-- An instance handed to the engine, with its `L`, null after its factory is gone. -/
structure LuaScript where
  id : ℕ
  lua : Option LuaState

structure LuaScriptRegistrant where
  strName : Bytes
  strParams : Bytes
  luaHandler : LuaState
  scripts : List LuaScript

structure LuaTTDACrateRegistrant where
  name : Bytes
  type : ℤ
  lua : LuaState
  /-- The `L` of `Instance`, once there is one. -/
  crate : Option LuaState

/-- The registrant and the object in the console function list of the engine hold the same state. -/
structure LuaTTDAConsoleFunction where
  name : Bytes
  aliasName : Bytes
  help : Bytes
  lua : LuaState

/-- Level and type are those of the engine where they are not given. -/
structure LuaTTDAChatCommand where
  func : Bytes
  command : Bytes
  parameters : ℤ
  accessLevel : Option ℤ
  chatType : Option ℤ

/-- An object of the chat list, which holds no state. -/
structure ChatObject where
  id : ℕ
  command : LuaTTDAChatCommand

structure World where
  nextState : StateId
  nextScript : ℕ
  nextCommand : ℕ
  phase : StateId → Phase
  lua : List StateId
  luaNames : List Bytes
  scripts : List LuaScriptRegistrant
  /-- Live instances whose factory is gone. -/
  orphans : List LuaScript
  crateList : List LuaTTDACrateRegistrant
  consoleList : List LuaTTDAConsoleFunction
  /-- `LuaTT_DAChatList`, as `LuaFunctionsDA.cpp` sees it. -/
  chatList : List ChatObject

/-! ## Registration calls -/

/-- A slot of the frame, where one above it is nil. Callers that count from the top look at their number of
arguments first. -/
def slot (args : List LuaValue) (i : ℤ) : LuaValue := (index2adr args i).getD .nil

/-- The calls with their frames. `Register_Script` does not look at the number of its arguments, so that it
may read the slots below the frame, whatever they hold. -/
inductive Registration
  | script (below args : List LuaValue)
  | crate (args : List LuaValue)
  | console (args : List LuaValue)
  | chat (args : List LuaValue)

namespace World
variable (L : LuaState) (w : World)

/-- `LuaScriptManager::Register_Script`. -/
def registerScript (stack : List LuaValue) : World :=
  if (slot stack (-1)).istable then
    match (slot stack (-3)).tostring, (slot stack (-2)).tostring with
    | some name, some parameters =>
      if w.scripts.any fun s => s.strName = name then w
      else { w with scripts := w.scripts ++ [⟨name, parameters, L, []⟩] }
    | _, _ => w
  else w

/-- `LuaTT_DACrateClass::Lua_Register_Crate`. -/
def registerCrate (args : List LuaValue) : World :=
  if args.length < 3 then w
  else if (slot args (-1)).istable then
    match (slot args (-2)).tostring with
    | some name =>
      if (slot args (-3)).isnumber then
        { w with crateList := w.crateList ++ [⟨name, (slot args (-3)).tointeger, L, none⟩] }
      else w
    | none => w
  else w

/-- `LuaTT_DAConsoleFunction::Lua_Register_Console_Function`. -/
def registerConsoleFunction (args : List LuaValue) : World :=
  if args.length < 4 then w
  else if (slot args (-1)).istable then
    match (slot args (-4)).tostring, (slot args (-3)).tostring, (slot args (-2)).tostring with
    | some name, some aliasName, some help =>
      { w with consoleList := w.consoleList ++ [⟨name, aliasName, help, L⟩] }
    | _, _, _ => w
  else w

/-- `LuaDA_Register_Chat_Command`; a `std::string` of a null pointer is undefined. -/
def registerChatCommand (args : List LuaValue) : Option World :=
  if args.length < 2 then some w
  else
    match (slot args 1).tostring with
    | none => none
    | some callback =>
      if w.chatList.any fun o => o.command.func = callback then some w
      else
        match (slot args 2).tostring with
        | none => none
        | some triggers => some { w with
            nextCommand := w.nextCommand + 1
            chatList := w.chatList ++ [⟨w.nextCommand, {
              func := callback
              command := triggers
              parameters := if 3 ≤ args.length then toCInt (slot args 3).tonumber else 0
              accessLevel := if 4 ≤ args.length then some (toCInt (slot args 4).tonumber) else none
              chatType := if 5 ≤ args.length then some (toCInt (slot args 5).tonumber) else none }⟩] }

/-- The object that `LuaDA_Unregister_Chat_Command` finds. -/
def findCommand (callback : Bytes) : Option ChatObject := w.chatList.find? fun o => o.command.func = callback

/-- `LuaDA_Unregister_Chat_Command`, with the list as one of pointers. -/
def unregisterChatCommand (args : List LuaValue) : Option World :=
  if args.length < 1 then some w
  else
    match (slot args 1).tostring with
    | none => none
    | some callback =>
      match w.findCommand callback with
      | some o => some { w with chatList := w.chatList.filter fun x => x.id ≠ o.id }
      | none => some w

/-- The world after a call by code that runs in `L`. -/
def register : Registration → Option World
  | .script below args => some (w.registerScript L (below ++ args))
  | .crate args => some (w.registerCrate L args)
  | .console args => some (w.registerConsoleFunction L args)
  | .chat args => w.registerChatCommand args

end World

/-! ## What a call does -/

/-- The arguments are not accepted, or the name is taken. -/
def Refused (w : World) : Registration → Prop
  | .script below args =>
    (slot (below ++ args) (-1)).istable = false ∨ (slot (below ++ args) (-3)).tostring = none ∨
      (slot (below ++ args) (-2)).tostring = none ∨
      ∃ s ∈ w.scripts, (slot (below ++ args) (-3)).tostring = some s.strName
  | .crate args =>
    args.length < 3 ∨ (slot args (-1)).istable = false ∨ (slot args (-2)).tostring = none ∨
      (slot args (-3)).isnumber = false
  | .console args =>
    args.length < 4 ∨ (slot args (-1)).istable = false ∨ (slot args (-4)).tostring = none ∨
      (slot args (-3)).tostring = none ∨ (slot args (-2)).tostring = none
  | .chat args =>
    args.length < 2 ∨ ∃ o ∈ w.chatList, (slot args 1).tostring = some o.command.func

/-- A new entry, with the state `L` or as a chat command. -/
inductive Entered (w : World) (L : LuaState) : Registration → World → Prop
  | script (below args : List LuaValue) (name parameters : Bytes) :
    Entered w L (.script below args) { w with scripts := w.scripts ++ [⟨name, parameters, L, []⟩] }
  | crate (args : List LuaValue) (name : Bytes) (type : ℤ) :
    Entered w L (.crate args) { w with crateList := w.crateList ++ [⟨name, type, L, none⟩] }
  | console (args : List LuaValue) (name aliasName help : Bytes) :
    Entered w L (.console args) { w with consoleList := w.consoleList ++ [⟨name, aliasName, help, L⟩] }
  | chat (args : List LuaValue) (c : LuaTTDAChatCommand) : Entered w L (.chat args) { w with
      nextCommand := w.nextCommand + 1
      chatList := w.chatList ++ [⟨w.nextCommand, c⟩] }

section Register
open World
variable {w w' : World} {L : LuaState}

theorem registerScript_cases (below args : List LuaValue) :
    Refused w (.script below args) ∧ w.registerScript L (below ++ args) = w ∨
      ¬ Refused w (.script below args) ∧
        Entered w L (.script below args) (w.registerScript L (below ++ args)) := by
  generalize hs : below ++ args = stack
  unfold registerScript
  simp only [Refused, hs]
  by_cases ht : (slot stack (-1)).istable
  · rw [if_pos ht]
    cases hn : (slot stack (-3)).tostring with
    | none => simp
    | some name =>
      cases hp : (slot stack (-2)).tostring with
      | none => simp
      | some parameters =>
        by_cases hs : w.scripts.any fun s => s.strName = name
        · left
          obtain ⟨s, hs', he⟩ := List.any_eq_true.mp hs
          refine ⟨.inr (.inr (.inr ⟨s, hs', ?_⟩)), if_pos hs⟩
          rw [of_decide_eq_true he]
        · right
          simp only [if_neg hs, ht]
          refine ⟨?_, .script below args name parameters⟩
          simp only [List.any_eq_true, decide_eq_true_eq, not_exists, not_and] at hs
          rintro (h | h | h | ⟨s, hs', he⟩)
          · cases h
          · cases h
          · cases h
          · exact hs s hs' (Option.some.inj he).symm
  · exact .inl ⟨.inl (by simpa using ht), if_neg ht⟩

theorem registerCrate_cases (args : List LuaValue) :
    Refused w (.crate args) ∧ w.registerCrate L args = w ∨
      ¬ Refused w (.crate args) ∧ Entered w L (.crate args) (w.registerCrate L args) := by
  unfold registerCrate
  simp only [Refused]
  by_cases hlen : args.length < 3
  · exact .inl ⟨.inl hlen, if_pos hlen⟩
  rw [if_neg hlen]
  by_cases ht : (slot args (-1)).istable
  · rw [if_pos ht]
    cases hn : (slot args (-2)).tostring with
    | none => simp
    | some name =>
      by_cases hi : (slot args (-3)).isnumber
      · right
        simp only [if_pos hi]
        exact ⟨by simp [hlen, ht, hi], .crate args name _⟩
      · exact .inl ⟨.inr (.inr (.inr (by simpa using hi))), if_neg hi⟩
  · exact .inl ⟨.inr (.inl (by simpa using ht)), if_neg ht⟩

theorem registerConsoleFunction_cases (args : List LuaValue) :
    Refused w (.console args) ∧ w.registerConsoleFunction L args = w ∨
      ¬ Refused w (.console args) ∧ Entered w L (.console args) (w.registerConsoleFunction L args) := by
  unfold registerConsoleFunction
  simp only [Refused]
  by_cases hlen : args.length < 4
  · exact .inl ⟨.inl hlen, if_pos hlen⟩
  rw [if_neg hlen]
  by_cases ht : (slot args (-1)).istable
  · rw [if_pos ht]
    cases hn : (slot args (-4)).tostring with
    | none => simp
    | some name =>
      cases ha : (slot args (-3)).tostring with
      | none => simp
      | some aliasName =>
        cases hh : (slot args (-2)).tostring with
        | none => simp
        | some help =>
          right
          exact ⟨by simp [hlen, ht], .console args name aliasName help⟩
  · exact .inl ⟨.inr (.inl (by simpa using ht)), if_neg ht⟩

theorem registerChatCommand_cases {args : List LuaValue} (h : w.registerChatCommand args = some w') :
    Refused w (.chat args) ∧ w' = w ∨ ¬ Refused w (.chat args) ∧ Entered w L (.chat args) w' := by
  unfold registerChatCommand at h
  simp only [Refused]
  by_cases hlen : args.length < 2
  · rw [if_pos hlen] at h
    exact .inl ⟨.inl hlen, (Option.some.inj h).symm⟩
  rw [if_neg hlen] at h
  cases hc : (slot args 1).tostring with
  | none => simp [hc] at h
  | some callback =>
    simp only [hc] at h
    by_cases ha : w.chatList.any fun o => o.command.func = callback
    · rw [if_pos ha] at h
      obtain ⟨c, hmem, he⟩ := List.any_eq_true.mp ha
      refine .inl ⟨.inr ⟨c, hmem, ?_⟩, (Option.some.inj h).symm⟩
      rw [of_decide_eq_true he]
    · rw [if_neg ha] at h
      cases htr : (slot args 2).tostring with
      | none => simp [htr] at h
      | some triggers =>
        simp only [htr] at h
        obtain rfl := Option.some.inj h
        refine .inr ⟨?_, .chat args _⟩
        simp only [List.any_eq_true, decide_eq_true_eq, not_exists, not_and] at ha
        rintro (hl | ⟨c, hmem, he⟩)
        · exact hlen hl
        · exact ha c hmem (Option.some.inj he).symm

theorem register_cases {c : Registration} (h : w.register L c = some w') :
    Refused w c ∧ w' = w ∨ ¬ Refused w c ∧ Entered w L c w' := by
  cases c with
  | script below args =>
    obtain rfl := Option.some.inj h
    exact registerScript_cases below args
  | crate args =>
    obtain rfl := Option.some.inj h
    exact registerCrate_cases args
  | console args =>
    obtain rfl := Option.some.inj h
    exact registerConsoleFunction_cases args
  | chat args => exact registerChatCommand_cases h

end Register

namespace World
variable (w : World)

/-! ## Loading and unloading -/

def setPhase (L : StateId) (phase : Phase) : World := { w with phase := Function.update w.phase L phase }

/-- `luaL_newstate`. -/
def newState (phase : Phase) : World := { w.setPhase w.nextState phase with nextState := w.nextState + 1 }

/-- The file name behind the last slash or backslash. -/
def baseName (file : Bytes) : Bytes := (file.reverse.takeWhile fun c => c ≠ 47 && c ≠ 92).reverse

/-- `LoadLua` has run the plugin, which joins the others. -/
def addPlugin (L : StateId) (file : Bytes) : World :=
  { w.setPhase L .plugin with lua := w.lua ++ [L], luaNames := w.luaNames ++ [baseName file] }

/-- A factory that is deleted takes the state from its instances. -/
def scriptCleanup : World :=
  { w with scripts := [],
           orphans := w.orphans ++ (w.scripts.reverse.flatMap (·.scripts)).map fun s => ⟨s.id, none⟩ }

/-- The engine creates a script of the factory `i`. -/
def create (i : ℕ) : Option World :=
  w.scripts[i]?.map fun f =>
    { w with
      nextScript := w.nextScript + 1
      scripts := w.scripts.set i { f with scripts := f.scripts ++ [⟨w.nextScript, some f.luaHandler⟩] } }

/-- The engine detaches a script and frees it. -/
def detach (id : ℕ) : World :=
  { w with
    scripts := w.scripts.map fun f => { f with scripts := f.scripts.filter (·.id ≠ id) }
    orphans := w.orphans.filter (·.id ≠ id) }

/-- `LuaTT_DACrateRegistrant::Create_Instance`. -/
def createInstance (i : ℕ) : Option World :=
  w.crateList[i]?.map fun f =>
    { w with crateList := w.crateList.set i { f with crate := f.crate <|> some f.lua } }

end World

/-! ## Steps -/

inductive Act
  /-- `LoadLua` opens a state; it has run the file there, or closes the state. -/
  | newState
  | finishLoad (L : StateId) (file : Bytes)
  | failLoad (L : StateId)
  | register (L : LuaState) (c : Registration)
  | unregister (L : LuaState) (args : List LuaValue)
  | create (i : ℕ)
  | detach (id : ℕ)
  | createInstance (i : ℕ)
  /-- `executeThread` opens a state, and closes it. -/
  | startWorker
  | exitWorker (L : StateId)
  /-- `LuaScriptManager::Cleanup`. -/
  | scriptCleanup
  /-- `LuaManager::Cleanup` closes a plugin, and at last clears `Lua`. The chat list that it clears is that of
  `LuaManager.cpp`, which is empty. -/
  | closePlugin (L : StateId)
  | cleanup
  /-- `lua_close` comes to its end. -/
  | free (L : StateId)

namespace World

/-- The steps of loads, reloads, workers, finalizers and callbacks, in any order. -/
def step (w : World) : Act → Option World
  | .newState => some (w.newState .loading)
  | .finishLoad L file => if w.phase L = .loading then some (w.addPlugin L file) else none
  | .failLoad L => if w.phase L = .loading then some (w.setPhase L .discarding) else none
  | .register L c => if (w.phase L.main).runs then w.register L c else none
  | .unregister L args => if (w.phase L.main).runs then w.unregisterChatCommand args else none
  | .create i => w.create i
  | .detach id => some (w.detach id)
  | .createInstance i => w.createInstance i
  | .startWorker => some (w.newState .worker)
  | .exitWorker L => if w.phase L = .worker then some (w.setPhase L .exiting) else none
  | .scriptCleanup => some w.scriptCleanup
  | .closePlugin L => if L ∈ w.lua ∧ w.phase L = .plugin then some (w.setPhase L .unloading) else none
  | .cleanup => some { w with lua := [] }
  | .free L =>
    match w.phase L with
    | .unloading | .exiting => some (w.setPhase L .closed)
    | .discarding => some (w.setPhase L .discarded)
    | _ => none

theorem free_cases {w w' : World} {L : StateId} (hs : w.step (.free L) = some w') :
    (w.phase L = .unloading ∨ w.phase L = .exiting) ∧ w' = w.setPhase L .closed ∨
      w.phase L = .discarding ∧ w' = w.setPhase L .discarded := by
  simp only [step] at hs
  split at hs
  · next h => exact .inl ⟨.inl h, (Option.some.inj hs).symm⟩
  · next h => exact .inl ⟨.inr h, (Option.some.inj hs).symm⟩
  · next h => exact .inr ⟨h, (Option.some.inj hs).symm⟩
  · cases hs

end World

/-- The server has started. -/
def initial : World := ⟨0, 0, 0, fun _ => .unborn, [], [], [], [], [], [], []⟩

def system : System World Act := ⟨fun w => w = initial, World.step⟩

/-! ## `LuaManager::LoadLua` and `Reload_All` -/

/-- A load, with all that happens meanwhile: what the chunk and the `OnError` that it may leave make anyone
do, what finalizers do while the state is closed after a failure, and what is done for the text that is
printed. -/
structure Load where
  file : Bytes
  fails : Bool
  chunk : List Act
  finalizers : List Act
  output : List Act

/-- The steps of `LoadLua` with the state `L`. -/
def Load.acts (p : Load) (L : StateId) : List Act :=
  if p.fails then .newState :: p.chunk ++ (.failLoad L :: p.finalizers ++ (.free L :: p.output))
  else .newState :: p.chunk ++ (p.output ++ [.finishLoad L p.file])

/-- The steps of `LuaScriptManager::Cleanup` and `LuaManager::Cleanup`, with those of the finalizers. -/
def unloadActs (finalizers : StateId → List Act) (lua : List StateId) : List Act :=
  .scriptCleanup :: (lua.flatMap fun L => .closePlugin L :: finalizers L ++ [.free L]) ++ [.cleanup]

namespace World

def loadLua (w : World) (p : Load) : Option World := system.exec w (p.acts w.nextState)

/-- `LuaManager::Reload_All`, with the files that are there. -/
def reloadAll (w : World) (finalizers : StateId → List Act) (plugins : List Load) : Option World :=
  (system.exec w (unloadActs finalizers w.lua)).bind fun w => plugins.foldlM loadLua w

theorem loads_exec {plugins : List Load} {w w' : World} (h : plugins.foldlM loadLua w = some w') :
    ∃ as, system.exec w as = some w' := by
  induction plugins generalizing w with
  | nil => exact ⟨[], h⟩
  | cons p plugins ih =>
    obtain ⟨u, hu, hrest⟩ := Option.bind_eq_some_iff.mp h
    obtain ⟨as, has⟩ := ih hrest
    exact ⟨p.acts w.nextState ++ as, System.exec_append hu has⟩

theorem reloadAll_exec {finalizers : StateId → List Act} {plugins : List Load} {w w' : World}
    (h : w.reloadAll finalizers plugins = some w') : ∃ as, system.exec w as = some w' := by
  obtain ⟨u, hu, hloads⟩ := Option.bind_eq_some_iff.mp h
  obtain ⟨as, has⟩ := loads_exec hloads
  exact ⟨_, System.exec_append hu has⟩

end World
end LuaTT.Registrations
