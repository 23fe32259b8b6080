import Mathlib.Data.List.Nodup
import LuaTT.Library.KeyedIndex
import LuaTT.Manager.Registrations

/-! The chat commands of the plugins: `LuaTT_DAChatList` and the map of the engine from triggers to command
objects. The list is declared `static` in a header, so `LuaManager.cpp` has one of its own. -/
namespace LuaTT.ChatRegistry
open Lua Transition KeyedIndex Registrations
set_option autoImplicit false

/-- A command object with its address. The object does not store the state that has registered it. -/
structure Object where
  id : ℕ
  owner : StateId
  command : LuaTTDAChatCommand

def Object.trigger (o : Object) : Bytes := o.command.command

structure Chat where
  nextState : StateId
  nextObject : ℕ
  /-- `LuaManager::Lua`. -/
  lua : List StateId
  /-- The states `LoadLua` is running a plugin in. -/
  loading : List StateId
  /-- `LuaTT_DAChatList` of `LuaFunctionsDA.cpp`. -/
  chatList : List Object
  /-- `LuaTT_DAChatList` of `LuaManager.cpp`. -/
  managerChatList : List Object
  /-- `DAChatCommandManager`. -/
  engine : Bytes → Option Object
  deleted : List ℕ

namespace Chat
variable (s : Chat)

/-! ## The calls -/

def newCommand (args : List LuaValue) (callback triggers : Bytes) : LuaTTDAChatCommand where
  func := callback
  command := triggers
  parameters := if 3 ≤ args.length then toCInt (slot args 3).tonumber else 0
  accessLevel := if 4 ≤ args.length then some (toCInt (slot args 4).tonumber) else none
  chatType := if 5 ≤ args.length then some (toCInt (slot args 5).tonumber) else none

/-- The new object and its entry with the engine, which replaces one of the same trigger. -/
def enter (o : Object) : Chat :=
  { s with nextObject := s.nextObject + 1
           chatList := s.chatList ++ [o]
           engine := Function.update s.engine o.trigger (some o) }

/-- `LuaDA_Register_Chat_Command` called by a plugin, and its result; a `std::string` of a null pointer is
undefined. -/
def registerChatCommand (L : StateId) (args : List LuaValue) : Option (Chat × Bool) :=
  if args.length < 2 then some (s, false)
  else
    match (slot args 1).tostring with
    | none => none
    | some callback =>
      if s.chatList.any fun o => o.command.func = callback then some (s, false)
      else
        match (slot args 2).tostring with
        | none => none
        | some triggers => some (s.enter ⟨s.nextObject, L, newCommand args callback triggers⟩, true)

/-- The engine forgets the trigger of the object, which is deleted. -/
def delete (o : Object) : Chat :=
  { s with engine := Function.update s.engine o.trigger none
           deleted := o.id :: s.deleted }

/-- `LuaDA_Unregister_Chat_Command`. -/
def unregisterChatCommand (args : List LuaValue) : Option (Chat × Bool) :=
  if args.length < 1 then some (s, false)
  else
    match (slot args 1).tostring with
    | none => none
    | some callback =>
      match s.chatList.find? fun o => o.command.func = callback with
      | some o =>
        some ({ s with chatList := s.chatList.eraseP fun o => o.command.func = callback }.delete o, true)
      | none => some (s, false)

/-- `LuaManager::Cleanup`, in `LuaManager.cpp`. -/
def cleanup : Chat := { s.managerChatList.foldl delete s with managerChatList := [], lua := [] }

/-! ## Steps -/

/-- Code of the state can run. -/
def Open (L : StateId) : Prop := L ∈ s.lua ∨ L ∈ s.loading

instance (L : StateId) : Decidable (s.Open L) := inferInstanceAs (Decidable (_ ∨ _))

end Chat

inductive Act
  | newState
  | finishLoad (L : StateId) (fails : Bool)
  | register (L : StateId) (args : List LuaValue)
  | unregister (L : StateId) (args : List LuaValue)
  | reload

namespace Chat

/-- The steps of `LoadLua`, of the calls by plugins and of `Reload_All`, whose loads follow it. -/
def step (s : Chat) : Act → Option Chat
  | .newState => some { s with nextState := s.nextState + 1, loading := s.loading ++ [s.nextState] }
  | .finishLoad L fails =>
    if L ∈ s.loading then
      some { s with loading := s.loading.filter (· ≠ L), lua := if fails then s.lua else s.lua ++ [L] }
    else none
  | .register L args => if s.Open L then (s.registerChatCommand L args).map (·.1) else none
  | .unregister L args => if s.Open L then (s.unregisterChatCommand args).map (·.1) else none
  | .reload => some s.cleanup

end Chat

def initial : Chat := ⟨0, 0, [], [], [], [], fun _ => none, []⟩

def system : System Chat Act := ⟨fun s => s = initial, Chat.step⟩

/-! ## What the registry is for -/

/-- The engine knows the objects of the list, which are alive and belong to plugins that are there, and a
plugin can register any callback that none of these has registered. -/
structure Chat.Registered (s : Chat) : Prop where
  known : Knows s.engine s.chatList
  live : ∀ o ∈ s.chatList, o.id ∉ s.deleted
  loaded : ∀ o ∈ s.chatList, s.Open o.owner
  accepts : ∀ (L : StateId) (args : List LuaValue) (callback triggers : Bytes), 2 ≤ args.length →
    (slot args 1).tostring = some callback → (slot args 2).tostring = some triggers →
    (∀ o ∈ s.chatList, s.Open o.owner → o.command.func ≠ callback) →
    ∃ s', s.registerChatCommand L args = some (s', true)

/-- A command that is accepted has a trigger of its own, and no plugin that has commands is unloaded or
fails to load. -/
def Careful (s : Chat) : Act → Prop
  | .register _ args => ∀ callback triggers : Bytes, 2 ≤ args.length →
      (slot args 1).tostring = some callback → (slot args 2).tostring = some triggers →
      (∀ o ∈ s.chatList, o.command.func ≠ callback) → s.engine triggers = none
  | .finishLoad L fails => fails = true → ∀ o ∈ s.chatList, o.owner ≠ L
  | .reload => ∀ o ∈ s.chatList, o.owner ∉ s.lua
  | _ => True

section Step
variable {s s' : Chat} {L : StateId} {args : List LuaValue} {a : Act}

/-! ## What the calls do -/

theorem registerChatCommand_cases {r : Chat × Bool} (h : s.registerChatCommand L args = some r) :
    r = (s, false) ∨ ∃ callback triggers, 2 ≤ args.length ∧ (slot args 1).tostring = some callback ∧
      (slot args 2).tostring = some triggers ∧ (∀ o ∈ s.chatList, o.command.func ≠ callback) ∧
      r = (s.enter ⟨s.nextObject, L, Chat.newCommand args callback triggers⟩, true) := by
  unfold Chat.registerChatCommand at h
  by_cases hlen : args.length < 2
  · rw [if_pos hlen] at h
    exact .inl (Option.some.inj h).symm
  rw [if_neg hlen] at h
  cases hc : (slot args 1).tostring with
  | none => simp [hc] at h
  | some callback =>
    simp only [hc] at h
    by_cases ha : s.chatList.any fun o => o.command.func = callback
    · rw [if_pos ha] at h
      exact .inl (Option.some.inj h).symm
    · rw [if_neg ha] at h
      cases ht : (slot args 2).tostring with
      | none => simp [ht] at h
      | some triggers =>
        simp only [ht] at h
        simp only [List.any_eq_true, decide_eq_true_eq, not_exists, not_and] at ha
        exact .inr ⟨callback, triggers, by omega, rfl, rfl, ha, (Option.some.inj h).symm⟩

/-- A callback that no object has is taken. -/
theorem registerChatCommand_accepts {callback triggers : Bytes} (L : StateId) (hlen : 2 ≤ args.length)
    (hc : (slot args 1).tostring = some callback) (ht : (slot args 2).tostring = some triggers)
    (hnew : ∀ o ∈ s.chatList, o.command.func ≠ callback) : s.registerChatCommand L args =
      some (s.enter ⟨s.nextObject, L, Chat.newCommand args callback triggers⟩, true) := by
  have hany : ¬ s.chatList.any fun o => o.command.func = callback := by simpa using hnew
  unfold Chat.registerChatCommand
  simp only [if_neg (Nat.not_lt.mpr hlen), hc, ht, if_neg hany]

theorem unregisterChatCommand_cases {r : Chat × Bool} (h : s.unregisterChatCommand args = some r) :
    r = (s, false) ∨ ∃ o ∈ s.chatList, r = ({ s with
      chatList := s.chatList.eraseP fun x => x.command.func = o.command.func }.delete o, true) := by
  unfold Chat.unregisterChatCommand at h
  by_cases hlen : args.length < 1
  · rw [if_pos hlen] at h
    exact .inl (Option.some.inj h).symm
  rw [if_neg hlen] at h
  cases hc : (slot args 1).tostring with
  | none => simp [hc] at h
  | some callback =>
    simp only [hc] at h
    cases hf : s.chatList.find? fun o => o.command.func = callback with
    | none =>
      simp only [hf] at h
      exact .inl (Option.some.inj h).symm
    | some o =>
      simp only [hf] at h
      have hname : o.command.func = callback := by simpa using List.find?_some hf
      refine .inr ⟨o, List.mem_of_find?_eq_some hf, ?_⟩
      rw [hname]
      exact (Option.some.inj h).symm

/-- The calls are those of the registrations. -/
theorem registerChatCommand_world {w : World}
    (hw : w.chatList.map (·.command) = s.chatList.map (·.command)) :
    (w.registerChatCommand args).map (·.chatList.map (·.command)) =
      (s.registerChatCommand L args).map fun r => r.1.chatList.map (·.command) := by
  unfold World.registerChatCommand Chat.registerChatCommand
  by_cases hlen : args.length < 2
  · simp [hlen, hw]
  cases hc : (slot args 1).tostring with
  | none => simp [hlen]
  | some callback =>
    have hany : (w.chatList.any fun o => o.command.func = callback) =
        s.chatList.any fun o => o.command.func = callback := by
      have hmap := congrArg (List.any · fun c => c.func = callback) hw
      simpa only [List.any_map, Function.comp_def] using hmap
    simp only [if_neg hlen, hany]
    by_cases ha : s.chatList.any fun o => o.command.func = callback
    · simp [ha, hw]
    · cases ht : (slot args 2).tostring with
      | none => simp [ha]
      | some triggers => simp [ha, hw, Chat.enter, Chat.newCommand]

/-! ## Objects and states -/

/-- Addresses and callbacks on the list are different, and only `LuaFunctionsDA.cpp` has a list. -/
structure Kept (s : Chat) : Prop where
  manager : s.managerChatList = []
  states : ∀ L, s.Open L → L < s.nextState
  once : (s.lua ++ s.loading).Nodup
  objects : ∀ o ∈ s.chatList, o.id < s.nextObject
  deleted : ∀ id ∈ s.deleted, id < s.nextObject
  live : ∀ o ∈ s.chatList, o.id ∉ s.deleted
  ids : (s.chatList.map (·.id)).Nodup
  names : (s.chatList.map (·.command.func)).Nodup

theorem kept_initial : Kept initial := by
  constructor <;> simp [initial, Chat.Open]

theorem Kept.apart (h : Kept s) : s.lua.Disjoint s.loading := List.disjoint_of_nodup_append h.once

/-- A state that has been loaded goes from one list to the other. -/
theorem nodup_of_loaded {lua loading : List StateId} (h : (lua ++ loading).Nodup) (hL : L ∈ loading) :
    (lua ++ [L] ++ loading.filter (· ≠ L)).Nodup := by
  obtain ⟨hlua, hloading, hne⟩ := List.nodup_append.mp h
  refine List.nodup_append.mpr ⟨List.nodup_append.mpr ⟨hlua, List.nodup_singleton L, ?_⟩, hloading.filter _, ?_⟩
  · intro K hK K' hK'
    rw [List.mem_singleton.mp hK']
    exact hne K hK L hL
  · intro K hK K' hK'
    obtain ⟨hK', hneL⟩ := List.mem_filter.mp hK'
    rcases List.mem_append.mp hK with hK | hK
    · exact hne K hK K' hK'
    · rw [List.mem_singleton.mp hK]
      exact (of_decide_eq_true hneL).symm

theorem Kept.eq_of_id {o o' : Object} (h : Kept s) (ho : o ∈ s.chatList) (ho' : o' ∈ s.chatList)
    (hid : o.id = o'.id) : o = o' := List.inj_on_of_nodup_map h.ids ho ho' hid

theorem Kept.cleanup (h : Kept s) : s.cleanup = { s with lua := [] } := by
  have hnone : s.managerChatList = [] := h.manager
  obtain ⟨_, _, _, _, _, managerChatList, _, _⟩ := s
  obtain rfl : managerChatList = [] := hnone
  rfl

theorem Kept.enter {o : Object} (h : Kept s) (hid : o.id = s.nextObject)
    (hnew : ∀ x ∈ s.chatList, x.command.func ≠ o.command.func) : Kept (s.enter o) := by
  have hfresh : ∀ x ∈ s.chatList, x.id ≠ o.id := by
    intro x hx
    have hlt := h.objects x hx
    omega
  refine ⟨h.manager, h.states, h.once, ?_, ?_, ?_, ?_, ?_⟩
  · intro x hx
    change x.id < s.nextObject + 1
    rcases List.mem_append.mp hx with hx | hx
    · have hlt := h.objects x hx
      omega
    · rw [List.mem_singleton.mp hx]
      omega
  · intro id hd
    exact Nat.lt_succ_of_lt (h.deleted id hd)
  · intro x hx hd
    rcases List.mem_append.mp hx with hx | hx
    · exact h.live x hx hd
    · rw [List.mem_singleton.mp hx] at hd
      have hlt := h.deleted _ hd
      omega
  · change ((s.chatList ++ [o]).map (·.id)).Nodup
    rw [List.map_append, List.nodup_append]
    refine ⟨h.ids, List.nodup_singleton _, ?_⟩
    simpa using hfresh
  · change ((s.chatList ++ [o]).map (·.command.func)).Nodup
    rw [List.map_append, List.nodup_append]
    refine ⟨h.names, List.nodup_singleton _, ?_⟩
    simpa using hnew

theorem Kept.unregister {o : Object} (h : Kept s) (ho : o ∈ s.chatList) : Kept ({ s with
    chatList := s.chatList.eraseP fun x => x.command.func = o.command.func }.delete o) := by
  have hsub : ∀ x ∈ s.chatList.eraseP fun x => x.command.func = o.command.func,
      x ∈ s.chatList ∧ x ≠ o := fun x hx => (mem_eraseP_iff h.names ho).mp hx
  have hrest := List.eraseP_sublist (l := s.chatList)
    (p := fun x : Object => decide (x.command.func = o.command.func))
  refine ⟨h.manager, h.states, h.once, fun x hx => h.objects x (hsub x hx).1, ?_, ?_, ?_, ?_⟩
  · intro id hd
    rcases List.mem_cons.mp hd with rfl | hd
    · exact h.objects o ho
    · exact h.deleted id hd
  · intro x hx hd
    obtain ⟨hmem, hne⟩ := hsub x hx
    rcases List.mem_cons.mp hd with hid | hd
    · exact hne (h.eq_of_id hmem ho hid)
    · exact h.live x hmem hd
  · exact h.ids.sublist (hrest.map _)
  · exact h.names.sublist (hrest.map _)

theorem Kept.step (h : Kept s) (hs : s.step a = some s') : Kept s' := by
  cases a with
  | newState =>
    obtain rfl := Option.some.inj hs
    refine ⟨h.manager, fun K hK => ?_, ?_, h.objects, h.deleted, h.live, h.ids, h.names⟩
    · change K < s.nextState + 1
      rcases hK with hK | hK
      · exact Nat.lt_succ_of_lt (h.states K (.inl hK))
      · rcases List.mem_append.mp hK with hK | hK
        · exact Nat.lt_succ_of_lt (h.states K (.inr hK))
        · rw [List.mem_singleton.mp hK]
          exact Nat.lt_succ_self _
    · have hnodup := nodup_append_newest h.once fun K hK => h.states K (List.mem_append.mp hK)
      rwa [List.append_assoc] at hnodup
  | finishLoad L fails =>
    obtain ⟨hL, hs⟩ := Option.ite_none_right_eq_some.mp hs
    obtain rfl := Option.some.inj hs
    have hlua : ∀ K ∈ (if fails then s.lua else s.lua ++ [L]), K ∈ s.lua ∨ K = L := by
      intro K hK
      cases fails with
      | false => exact (List.mem_append.mp hK).imp_right List.mem_singleton.mp
      | true => exact .inl hK
    refine ⟨h.manager, fun K hK => ?_, ?_, h.objects, h.deleted, h.live, h.ids, h.names⟩
    · rcases hK with hK | hK
      · rcases hlua K hK with hK | rfl
        · exact h.states K (.inl hK)
        · exact h.states K (.inr hL)
      · exact h.states K (.inr (List.mem_of_mem_filter hK))
    · cases fails with
      | false => exact nodup_of_loaded h.once hL
      | true => exact h.once.sublist (List.filter_sublist.append_left s.lua)
  | register L args =>
    obtain ⟨_, hs⟩ := Option.ite_none_right_eq_some.mp hs
    obtain ⟨r, hr, rfl⟩ := Option.map_eq_some_iff.mp hs
    rcases registerChatCommand_cases hr with rfl | ⟨_, _, _, _, _, hnew, rfl⟩
    · exact h
    · exact h.enter rfl hnew
  | unregister L args =>
    obtain ⟨_, hs⟩ := Option.ite_none_right_eq_some.mp hs
    obtain ⟨r, hr, rfl⟩ := Option.map_eq_some_iff.mp hs
    rcases unregisterChatCommand_cases hr with rfl | ⟨o, ho, rfl⟩
    · exact h
    · exact h.unregister ho
  | reload =>
    obtain rfl := Option.some.inj hs
    rw [h.cleanup]
    refine ⟨h.manager, fun K hK => ?_, ?_, h.objects, h.deleted, h.live, h.ids, h.names⟩
    · rcases hK with hK | hK
      · exact absurd hK List.not_mem_nil
      · exact h.states K (.inr hK)
    · exact h.once.sublist (List.sublist_append_right s.lua s.loading)

/-! ## Runs -/

structure Invariant (s : Chat) : Prop where
  kept : Kept s
  indexed : Indexes Object.trigger s.engine s.chatList
  loaded : ∀ o ∈ s.chatList, s.Open o.owner

theorem Invariant.registered (h : Invariant s) : s.Registered := by
  refine ⟨h.indexed.knows, h.kept.live, h.loaded, fun L args callback triggers hlen hc ht hnew => ?_⟩
  exact ⟨_, registerChatCommand_accepts L hlen hc ht fun o ho => hnew o ho (h.loaded o ho)⟩

theorem Invariant.step (h : Invariant s) (ha : Careful s a) (hs : s.step a = some s') : Invariant s' := by
  have hkept := h.kept.step hs
  cases a with
  | newState =>
    obtain rfl := Option.some.inj hs
    exact ⟨hkept, h.indexed, fun o ho => (h.loaded o ho).imp_right (List.mem_append_left _)⟩
  | finishLoad L fails =>
    obtain ⟨_, hs⟩ := Option.ite_none_right_eq_some.mp hs
    obtain rfl := Option.some.inj hs
    refine ⟨hkept, h.indexed, fun o ho => ?_⟩
    cases hf : fails with
    | true =>
      have hne : o.owner ≠ L := ha hf o ho
      exact (h.loaded o ho).imp_right fun hl => List.mem_filter.mpr ⟨hl, by simpa using hne⟩
    | false =>
      by_cases he : o.owner = L
      · exact .inl (List.mem_append_right _ (List.mem_singleton.mpr he))
      · exact (h.loaded o ho).imp (List.mem_append_left _) fun hl => List.mem_filter.mpr ⟨hl, by simpa using he⟩
  | register L args =>
    obtain ⟨hopen, hs⟩ := Option.ite_none_right_eq_some.mp hs
    obtain ⟨r, hr, rfl⟩ := Option.map_eq_some_iff.mp hs
    rcases registerChatCommand_cases hr with rfl | ⟨callback, triggers, hlen, hc, ht, hnew, rfl⟩
    · exact h
    · refine ⟨hkept, h.indexed.insert (ha callback triggers hlen hc ht hnew), fun o ho => ?_⟩
      rcases List.mem_append.mp ho with ho | ho
      · exact h.loaded o ho
      · rw [List.mem_singleton.mp ho]
        exact hopen
  | unregister L args =>
    obtain ⟨_, hs⟩ := Option.ite_none_right_eq_some.mp hs
    obtain ⟨r, hr, rfl⟩ := Option.map_eq_some_iff.mp hs
    rcases unregisterChatCommand_cases hr with rfl | ⟨o, ho, rfl⟩
    · exact h
    · refine ⟨hkept, h.indexed.erase ho fun x => mem_eraseP_iff h.kept.names ho, fun x hx => ?_⟩
      exact h.loaded x (List.mem_of_mem_eraseP hx)
  | reload =>
    obtain rfl := Option.some.inj hs
    rw [h.kept.cleanup] at hkept ⊢
    refine ⟨hkept, h.indexed, fun o ho => ?_⟩
    exact .inr ((h.loaded o ho).resolve_left (ha o ho))

/-- A trigger that is taken over, or commands of a plugin that goes. -/
theorem Invariant.not_registered (h : Invariant s) (ha : ¬ Careful s a) (hs : s.step a = some s') :
    ¬ s'.Registered := by
  intro hreg
  cases a with
  | newState => exact ha trivial
  | unregister L args => exact ha trivial
  | finishLoad L fails =>
    obtain ⟨hL, hs⟩ := Option.ite_none_right_eq_some.mp hs
    obtain rfl := Option.some.inj hs
    refine ha fun hf o ho he => ?_
    subst he hf
    rcases hreg.loaded o ho with hl | hl
    · exact h.kept.apart hl hL
    · have hne := (List.mem_filter.mp hl).2
      simp at hne
  | register L args =>
    obtain ⟨_, hs⟩ := Option.ite_none_right_eq_some.mp hs
    obtain ⟨r, hr, rfl⟩ := Option.map_eq_some_iff.mp hs
    refine ha fun callback triggers hlen hc ht hnew => ?_
    rw [registerChatCommand_accepts L hlen hc ht hnew] at hr
    obtain rfl := Option.some.inj hr
    cases hold : s.engine triggers with
    | none => rfl
    | some o' =>
      have hmem := ((h.indexed triggers o').mp hold).1
      have hlt := h.kept.objects o' hmem
      refine absurd hreg.known (h.indexed.not_knows_of_taken hold ?_)
      rintro rfl
      exact Nat.lt_irrefl _ hlt
  | reload =>
    obtain rfl := Option.some.inj hs
    rw [h.kept.cleanup] at hreg
    refine ha fun o ho hl => ?_
    rcases hreg.loaded o ho with hl' | hl'
    · exact List.not_mem_nil hl'
    · exact h.kept.apart hl hl'

end Step

/-- **Chat-command registry.** It is consistent in every careful run, and the first step that is not
careful ends that. -/
theorem chat_registry {s : Chat} (hr : system.Reaches Careful s) :
    s.Registered ∧ ∀ a s', s.step a = some s' → ¬ Careful s a → ¬ s'.Registered := by
  have hinv : Invariant s := by
    refine hr.invariant (fun s hs => ?_) fun s a s' hi ha hs => hi.step ha hs
    obtain rfl : s = initial := hs
    exact ⟨kept_initial, .nil, fun o ho => absurd ho List.not_mem_nil⟩
  exact ⟨hinv.registered, fun a s' hs ha => hinv.not_registered ha hs⟩

def callbackArgs : List LuaValue := [.string (bytes "f"), .string (bytes "!x")]

theorem chat_registry_registered : ∃ s : Chat, s.chatList.map (·.owner) = [0] ∧ s.lua = [0] ∧
    s.Registered := by
  have hload : system.Reaches Careful _ := .next (.start rfl) (a := Act.newState) trivial rfl
  have hregister := hload.next (a := Act.register 0 callbackArgs) (fun _ _ _ _ _ _ => rfl) rfl
  have hfinish := hregister.next (a := Act.finishLoad 0 false) (by rintro ⟨⟩) rfl
  exact ⟨_, rfl, rfl, (chat_registry hfinish).1⟩

/-- A plugin that has registered a command is reloaded. -/
theorem chat_registry_fails : ¬ ∀ s, system.Reaches System.anyStep s → s.Registered := by
  intro hall
  have hstart : system.Reaches System.anyStep initial := .start rfl
  have hend := hstart.exec [.newState, .register 0 callbackArgs, .finishLoad 0 false, .reload]
    (System.along_anyStep _ _) rfl
  have hopen := (hall _ hend).loaded _ (List.mem_singleton_self _)
  rcases hopen with hl | hl
  · exact List.not_mem_nil hl
  · exact List.not_mem_nil hl

end LuaTT.ChatRegistry
