import LuaTT.Manager.Registrations

/-! `Reload_Lua` and the tick that reloads. A call tells every loaded state at once that it will be unloaded
and sets `Reload_Flag`; the next tick that finds the flag closes the states, loads the plugins again and
clears the flag. Calls nest as the handlers and the plugins that run on the way choose. -/
namespace LuaTT.ReloadProtocol
open Transition Registrations
set_option autoImplicit false

/-! ## The main thread -/

/-- What is being executed, besides the engine. -/
inductive Frame
  /-- A handler of a loaded state. -/
  | handler (L : StateId)
  /-- `LoadLua` runs a plugin. -/
  | chunk
  /-- `Lua_Reload_Lua`, with the states that have got `UnloadingLua` from it and those that will. -/
  | notify (called rest : List StateId)
  /-- `Reload_All`. -/
  | reloading

structure State where
  lua : List StateId
  nextState : StateId
  /-- How often a state has got `UnloadingLua`. -/
  received : StateId → ℕ
  reloadFlag : Bool
  /-- How many calls of `Reload_Lua` no `Reload_All` has been started after. -/
  unserved : ℕ
  /-- The states that reloads have closed, with how often they had got `UnloadingLua`. -/
  closed : List (StateId × ℕ)
  /-- Innermost first. -/
  stack : List Frame

inductive Act
  /-- `Call_Think_Hook`; the `OnThink` handlers are calls that follow. -/
  | think
  /-- Some event is dispatched to a state. -/
  | call (L : StateId)
  | handlerReturns
  | loadLua
  | chunkReturns
  | chunkFails
  | reloadLua
  /-- The loop of `Lua_Reload_Lua` calls the next state. -/
  | notifyNext
  | notifyEnd
  | reloadEnd

namespace State

/-- Lua code runs, so that it can call functions of the server. -/
def InLua (s : State) : Prop :=
  match s.stack with
  | .handler _ :: _ | .chunk :: _ => True
  | _ => False

/-- `LoadLua` may be called: at the start of the server, by `Load_Lua`, or by `Reload_All`. -/
def CanLoad (s : State) : Prop :=
  match s.stack with
  | .notify _ _ :: _ => False
  | _ => True

instance (s : State) : Decidable s.InLua := by
  unfold InLua
  split <;> infer_instance

instance (s : State) : Decidable s.CanLoad := by
  unfold CanLoad
  split <;> infer_instance

/-- `Cleanup`, at the start of `Reload_All`. -/
def close (s : State) : State :=
  { s with
    lua := []
    unserved := 0
    closed := s.closed ++ s.lua.map fun L => (L, s.received L)
    stack := [.reloading] }

def step (s : State) : Act → Option State
  | .think => if s.stack = [] then some (if s.reloadFlag then s.close else s) else none
  | .call L => if L ∈ s.lua then some { s with stack := .handler L :: s.stack } else none
  | .handlerReturns =>
    match s.stack with
    | .handler _ :: stack => some { s with stack := stack }
    | _ => none
  | .loadLua => if s.CanLoad then some { s with stack := .chunk :: s.stack } else none
  | .chunkReturns =>
    match s.stack with
    | .chunk :: stack =>
      some { s with lua := s.lua ++ [s.nextState], nextState := s.nextState + 1, stack := stack }
    | _ => none
  | .chunkFails =>
    match s.stack with
    | .chunk :: stack => some { s with stack := stack }
    | _ => none
  | .reloadLua =>
    if s.InLua then some { s with unserved := s.unserved + 1, stack := .notify [] s.lua :: s.stack }
    else none
  | .notifyNext =>
    match s.stack with
    | .notify called (L :: rest) :: stack =>
      some { s with
        received := Function.update s.received L (s.received L + 1)
        stack := .handler L :: .notify (called ++ [L]) rest :: stack }
    | _ => none
  | .notifyEnd =>
    match s.stack with
    | .notify _ [] :: stack => some { s with reloadFlag := true, stack := stack }
    | _ => none
  | .reloadEnd =>
    match s.stack with
    | .reloading :: stack => some { s with reloadFlag := false, stack := stack }
    | _ => none

end State

def initial : State := ⟨[], 0, fun _ => 0, false, 0, [], []⟩

def system : System State Act := ⟨fun s => s = initial, State.step⟩

/-! ## One request at a time -/

/-- The calls of `Reload_Lua` that are under way. -/
def notifies : List Frame → List (List StateId × List StateId)
  | [] => []
  | .notify called rest :: stack => (called, rest) :: notifies stack
  | _ :: stack => notifies stack

/-- How many calls of `Reload_All` are under way. -/
def reloads : List Frame → ℕ
  | [] => 0
  | .reloading :: stack => reloads stack + 1
  | _ :: stack => reloads stack

/-- A request has been made, or is being made, that a tick has yet to serve. -/
def State.Due (s : State) : Prop :=
  notifies s.stack ≠ [] ∨ s.reloadFlag = true ∧ reloads s.stack = 0

instance (s : State) : Decidable s.Due := inferInstanceAs (Decidable (_ ∨ _ ∧ _))

/-- `Reload_Lua` is called while no reload is requested or under way, unless there is nobody to tell, and no
plugin finishes loading between a request and the tick that serves it. -/
def Prudent (s : State) : Act → Prop
  | .reloadLua => notifies s.stack = [] ∧ reloads s.stack = 0 ∧ (s.reloadFlag = true → s.lua = [])
  | .chunkReturns => ¬ s.Due
  | _ => True

instance (s : State) : (a : Act) → Decidable (Prudent s a)
  | .reloadLua => inferInstanceAs (Decidable (_ ∧ _ ∧ _))
  | .chunkReturns => inferInstanceAs (Decidable (¬ s.Due))
  | .think | .call _ | .handlerReturns | .loadLua | .chunkFails | .notifyNext | .notifyEnd
  | .reloadEnd => isTrue trivial

structure Sound (s : State) : Prop where
  closedOnce : ∀ L n, (L, n) ∈ s.closed → n = 1
  /-- The next tick serves what has been requested. -/
  served : s.stack = [] → 0 < s.unserved → s.reloadFlag = true
  /-- No call of `Reload_Lua` waits for another one, -/
  alone : (notifies s.stack).length ≤ 1
  /-- and each has at most one handler of every loaded state to wait for. -/
  calls : ∀ called rest, (called, rest) ∈ notifies s.stack → called ++ rest = s.lua

inductive Phase (s : State) : Prop
  | quiet (hnone : notifies s.stack = []) (hreload : reloads s.stack = s.reloadFlag.toNat)
      (hreceived : ∀ L ∈ s.lua, s.received L = 0) (hunserved : s.unserved = 0)
  | notifying (called rest : List StateId) (hone : notifies s.stack = [(called, rest)])
      (hreload : reloads s.stack = 0) (hlua : s.lua = called ++ rest)
      (hcalled : ∀ L ∈ called, s.received L = 1) (hrest : ∀ L ∈ rest, s.received L = 0)
  | requested (hnone : notifies s.stack = []) (hflag : s.reloadFlag = true)
      (hreload : reloads s.stack = 0) (hreceived : ∀ L ∈ s.lua, s.received L = 1)

structure Invariant (s : State) : Prop where
  closedOnce : ∀ L n, (L, n) ∈ s.closed → n = 1
  phase : Phase s
  fresh : ∀ L, s.nextState ≤ L → s.received L = 0
  older : ∀ L ∈ s.lua, L < s.nextState
  nodup : s.lua.Nodup

/-! ## Frames -/

section Frames
variable {stack : List Frame} {L : StateId} {called rest : List StateId}

@[simp] theorem notifies_handler : notifies (.handler L :: stack) = notifies stack := rfl

@[simp] theorem notifies_chunk : notifies (.chunk :: stack) = notifies stack := rfl

@[simp] theorem notifies_reloading : notifies (.reloading :: stack) = notifies stack := rfl

@[simp] theorem notifies_notify :
    notifies (.notify called rest :: stack) = (called, rest) :: notifies stack := rfl

@[simp] theorem reloads_handler : reloads (.handler L :: stack) = reloads stack := rfl

@[simp] theorem reloads_chunk : reloads (.chunk :: stack) = reloads stack := rfl

@[simp] theorem reloads_notify : reloads (.notify called rest :: stack) = reloads stack := rfl

@[simp] theorem reloads_reloading : reloads (.reloading :: stack) = reloads stack + 1 := rfl

end Frames

/-! ## The invariant -/

section Steps
variable {s s' : State}

theorem invariant_initial : Invariant initial where
  closedOnce := by simp [initial]
  phase := .quiet rfl rfl (by simp [initial]) rfl
  fresh := fun _ _ => rfl
  older := by simp [initial]
  nodup := List.nodup_nil

theorem sound_of_invariant (h : Invariant s) : Sound s where
  closedOnce := h.closedOnce
  served := by
    intro hstack hpos
    cases h.phase with
    | quiet hnone hreload hreceived hunserved => omega
    | notifying called rest hone => simp [hstack, notifies] at hone
    | requested hnone hflag => exact hflag
  alone := by
    cases h.phase with
    | quiet hnone => simp [hnone]
    | notifying called rest hone => simp [hone]
    | requested hnone => simp [hnone]
  calls := by
    intro called rest hmem
    cases h.phase with
    | quiet hnone => simp [hnone] at hmem
    | notifying called' rest' hone hreload hlua =>
      rw [hone] at hmem
      obtain ⟨rfl, rfl⟩ := Prod.mk.inj (List.mem_singleton.mp hmem)
      exact hlua.symm
    | requested hnone => simp [hnone] at hmem

theorem invariant_frames {stack : List Frame} (h : Invariant s) (hn : notifies stack = notifies s.stack)
    (hr : reloads stack = reloads s.stack) : Invariant { s with stack := stack } where
  closedOnce := h.closedOnce
  phase := by
    cases h.phase with
    | quiet hnone hreload hreceived hunserved =>
      exact .quiet (hn.trans hnone) (hr.trans hreload) hreceived hunserved
    | notifying called rest hone hreload hlua hcalled hrest =>
      exact .notifying called rest (hn.trans hone) (hr.trans hreload) hlua hcalled hrest
    | requested hnone hflag hreload hreceived =>
      exact .requested (hn.trans hnone) hflag (hr.trans hreload) hreceived
  fresh := h.fresh
  older := h.older
  nodup := h.nodup

theorem invariant_close (h : Invariant s) (hstack : s.stack = []) (hflag : s.reloadFlag = true) :
    Invariant s.close where
  closedOnce := by
    intro L n hmem
    rcases List.mem_append.mp hmem with hold | hnew
    · exact h.closedOnce L n hold
    · obtain ⟨M, hM, he⟩ := List.mem_map.mp hnew
      obtain ⟨rfl, rfl⟩ := Prod.mk.inj he
      cases h.phase with
      | quiet hnone hreload =>
        rw [hstack, hflag] at hreload
        cases hreload
      | notifying called rest hone => simp [hstack, notifies] at hone
      | requested hnone hflag hreload hreceived => exact hreceived M hM
  phase := .quiet rfl (by simp [State.close, hflag, reloads]) (by simp [State.close]) rfl
  fresh := h.fresh
  older := by simp [State.close]
  nodup := List.nodup_nil

/-- A plugin joins the others where nobody has been told to unload. -/
theorem invariant_load {stack : List Frame} (h : Invariant s) (hstack : s.stack = .chunk :: stack)
    (hdue : ¬ s.Due) :
    Invariant { s with lua := s.lua ++ [s.nextState], nextState := s.nextState + 1, stack := stack } where
  closedOnce := h.closedOnce
  phase := by
    obtain ⟨hnone, hflag⟩ := not_or.mp hdue
    cases h.phase with
    | quiet hnone hreload hreceived hunserved =>
      rw [hstack] at hnone hreload
      refine .quiet hnone hreload (fun L hL => ?_) hunserved
      rcases List.mem_append.mp hL with hold | hnew
      · exact hreceived L hold
      · rw [List.mem_singleton.mp hnew]
        exact h.fresh _ (Nat.le_refl _)
    | notifying called rest hone => exact absurd (by simp [hone]) hnone
    | requested _ hset hreload => exact absurd ⟨hset, hreload⟩ hflag
  fresh := fun L hL => h.fresh L (Nat.le_of_succ_le hL)
  older := lt_of_mem_append_newest h.older
  nodup := nodup_append_newest h.nodup h.older

theorem invariant_request (h : Invariant s) (hnone : notifies s.stack = [])
    (hreload : reloads s.stack = 0) (hflag : s.reloadFlag = true → s.lua = []) :
    Invariant { s with unserved := s.unserved + 1, stack := .notify [] s.lua :: s.stack } where
  closedOnce := h.closedOnce
  phase := by
    refine .notifying [] s.lua (by simp [hnone]) (by simpa using hreload) rfl (by simp) ?_
    cases h.phase with
    | quiet _ _ hreceived => exact hreceived
    | notifying called rest hone =>
      rw [hnone] at hone
      cases hone
    | requested _ hset => simp [hflag hset]
  fresh := h.fresh
  older := h.older
  nodup := h.nodup

theorem invariant_notify {called rest : List StateId} {L : StateId} {stack : List Frame} (h : Invariant s)
    (hstack : s.stack = .notify called (L :: rest) :: stack) :
    Invariant { s with
      received := Function.update s.received L (s.received L + 1)
      stack := .handler L :: .notify (called ++ [L]) rest :: stack } := by
  cases h.phase with
  | quiet hnone => simp [hstack] at hnone
  | requested hnone => simp [hstack] at hnone
  | notifying called' rest' hone hreload hlua hcalled hrest =>
    rw [hstack] at hone hreload
    obtain ⟨heq, hnone⟩ := List.cons.inj hone
    obtain ⟨rfl, rfl⟩ := Prod.mk.inj heq
    have hnodup : (called ++ L :: rest).Nodup := hlua ▸ h.nodup
    have hL : L ∉ called ++ rest := (List.nodup_cons.mp (List.perm_middle.nodup_iff.mp hnodup)).1
    have hzero : s.received L = 0 := hrest L (by simp)
    refine ⟨h.closedOnce, .notifying (called ++ [L]) rest (by simp [hnone]) (by simpa using hreload)
      (by simp [hlua]) ?_ ?_, ?_, h.older, h.nodup⟩
    · intro M hM
      by_cases hML : M = L
      · simp [hML, hzero]
      · have hold : M ∈ called := by simpa [hML] using hM
        simpa [hML] using hcalled M hold
    · intro M hM
      have hML : M ≠ L := fun he => hL (by simp [← he, hM])
      simpa [hML] using hrest M (by simp [hM])
    · intro M hM
      have hlt : L < s.nextState := h.older L (by simp [hlua])
      have hML : M ≠ L := Nat.ne_of_gt (Nat.lt_of_lt_of_le hlt hM)
      simpa [hML] using h.fresh M hM

theorem invariant_notified {called : List StateId} {stack : List Frame} (h : Invariant s)
    (hstack : s.stack = .notify called [] :: stack) :
    Invariant { s with reloadFlag := true, stack := stack } := by
  cases h.phase with
  | quiet hnone => simp [hstack] at hnone
  | requested hnone => simp [hstack] at hnone
  | notifying called' rest' hone hreload hlua hcalled hrest =>
    rw [hstack] at hone hreload
    obtain ⟨heq, hnone⟩ := List.cons.inj hone
    obtain ⟨rfl, rfl⟩ := Prod.mk.inj heq
    rw [List.append_nil] at hlua
    exact ⟨h.closedOnce, .requested hnone rfl hreload (hlua ▸ hcalled), h.fresh, h.older, h.nodup⟩

theorem invariant_reloaded {stack : List Frame} (h : Invariant s)
    (hstack : s.stack = .reloading :: stack) :
    Invariant { s with reloadFlag := false, stack := stack } := by
  cases h.phase with
  | quiet hnone hreload hreceived hunserved =>
    rw [hstack] at hnone hreload
    have hbelow : reloads stack = 0 := by
      have hle : s.reloadFlag.toNat ≤ 1 := Bool.toNat_le _
      rw [reloads_reloading] at hreload
      omega
    exact ⟨h.closedOnce, .quiet hnone hbelow hreceived hunserved, h.fresh, h.older, h.nodup⟩
  | notifying called rest hone hreload => simp [hstack] at hreload
  | requested hnone hflag hreload => simp [hstack] at hreload

theorem invariant_step {a : Act} (h : Invariant s) (ha : Prudent s a) (hs : s.step a = some s') :
    Invariant s' := by
  cases a with
  | think =>
    simp only [State.step] at hs
    split_ifs at hs with hstack hflag
    · obtain rfl := Option.some.inj hs
      exact invariant_close h hstack hflag
    · obtain rfl := Option.some.inj hs
      exact h
  | call L =>
    simp only [State.step] at hs
    split_ifs at hs
    obtain rfl := Option.some.inj hs
    exact invariant_frames h rfl rfl
  | handlerReturns =>
    simp only [State.step] at hs
    split at hs
    · next L stack hstack =>
      obtain rfl := Option.some.inj hs
      exact invariant_frames h (by simp [hstack]) (by simp [hstack])
    · cases hs
  | loadLua =>
    simp only [State.step] at hs
    split_ifs at hs
    obtain rfl := Option.some.inj hs
    exact invariant_frames h rfl rfl
  | chunkReturns =>
    simp only [State.step] at hs
    split at hs
    · next stack hstack =>
      obtain rfl := Option.some.inj hs
      exact invariant_load h hstack ha
    · cases hs
  | chunkFails =>
    simp only [State.step] at hs
    split at hs
    · next stack hstack =>
      obtain rfl := Option.some.inj hs
      exact invariant_frames h (by simp [hstack]) (by simp [hstack])
    · cases hs
  | reloadLua =>
    simp only [State.step] at hs
    split_ifs at hs
    obtain rfl := Option.some.inj hs
    exact invariant_request h ha.1 ha.2.1 ha.2.2
  | notifyNext =>
    simp only [State.step] at hs
    split at hs
    · next called L rest stack hstack =>
      obtain rfl := Option.some.inj hs
      exact invariant_notify h hstack
    · cases hs
  | notifyEnd =>
    simp only [State.step] at hs
    split at hs
    · next called stack hstack =>
      obtain rfl := Option.some.inj hs
      exact invariant_notified h hstack
    · cases hs
  | reloadEnd =>
    simp only [State.step] at hs
    split at hs
    · next stack hstack =>
      obtain rfl := Option.some.inj hs
      exact invariant_reloaded h hstack
    · cases hs

theorem reaches_invariant (hr : system.Reaches Prudent s) : Invariant s := by
  refine hr.invariant ?_ fun s a s' h ha hs => invariant_step h ha hs
  rintro s rfl
  exact invariant_initial

theorem reloadLua_returns {called rest : List StateId} {stack : List Frame}
    (hstack : s.stack = .notify called rest :: stack) :
    ∃ s', system.exec s (rest.flatMap (fun _ => [.notifyNext, .handlerReturns]) ++ [.notifyEnd]) = some s' ∧
      s'.stack = stack ∧ s'.reloadFlag = true := by
  induction rest generalizing s called with
  | nil =>
    have hend : system.step s .notifyEnd = some { s with reloadFlag := true, stack := stack } := by
      simp [system, State.step, hstack]
    exact ⟨_, System.exec_single hend, rfl, rfl⟩
  | cons L rest ih =>
    have hone : system.exec s [.notifyNext, .handlerReturns] = some { s with
        received := Function.update s.received L (s.received L + 1)
        stack := .notify (called ++ [L]) rest :: stack } := by
      simp [System.exec, system, State.step, hstack]
    obtain ⟨s', hx, hs'⟩ := ih (s := { s with
        received := Function.update s.received L (s.received L + 1)
        stack := .notify (called ++ [L]) rest :: stack }) rfl
    refine ⟨s', ?_, hs'⟩
    rw [List.flatMap_cons, List.append_assoc]
    exact System.exec_append hone hx

end Steps

/-! ## Requests -/

/-- **Reload protocol.** Where `Reload_Lua` is not called again before the reload it asked for is over, and no
plugin finishes loading in between, every closed state has been told once, the next tick serves every request,
and a call returns when one handler of each loaded state has. -/
theorem reload_protocol {s : State} (hr : system.Reaches Prudent s) :
    Sound s ∧ ∀ called rest stack, s.stack = .notify called rest :: stack →
      ∃ s', system.exec s (rest.flatMap (fun _ => [.notifyNext, .handlerReturns]) ++ [.notifyEnd]) = some s' ∧
        s'.stack = stack ∧ s'.reloadFlag = true := by
  refine ⟨sound_of_invariant (reaches_invariant hr), ?_⟩
  intro called rest stack hstack
  exact reloadLua_returns hstack

/-- A handler of the first of two plugins asks for a reload, and a tick serves it. -/
theorem reload_protocol_sample :
    ∃ s s', Sound s ∧ system.exec s [.notifyNext, .handlerReturns, .notifyNext, .handlerReturns, .notifyEnd] =
      some s' ∧ ∃ t, system.exec s' [.handlerReturns, .think] = some t ∧ t.closed = [(0, 1), (1, 1)] := by
  have hstart : system.Reaches Prudent initial := .start rfl
  have hrun := hstart.exec [.loadLua, .chunkReturns, .loadLua, .chunkReturns, .call 0, .reloadLua]
    (by decide) rfl
  obtain ⟨hsound, hreturns⟩ := reload_protocol hrun
  obtain ⟨s', hx, hstack, hflag⟩ := hreturns _ _ _ rfl
  refine ⟨_, s', hsound, hx, ?_⟩
  cases hx
  exact ⟨_, rfl, rfl⟩

/-- The handlers of one plugin call each other through `Reload_Lua`. -/
theorem reloadLua_nests (n : ℕ) : ∃ s stack, system.Reaches System.anyStep s ∧ s.lua = [0] ∧
    s.stack = .handler 0 :: stack ∧ (notifies stack).length = n := by
  induction n with
  | zero =>
    have hstart : system.Reaches System.anyStep initial := .start rfl
    have hrun := hstart.exec [.loadLua, .chunkReturns, .call 0] (System.along_anyStep _ _) rfl
    exact ⟨_, _, hrun, rfl, rfl, rfl⟩
  | succ n ih =>
    obtain ⟨s, stack, hr, hlua, hstack, hlen⟩ := ih
    have hx : system.exec s [.reloadLua, .notifyNext] = some { s with
        unserved := s.unserved + 1
        received := Function.update s.received 0 (s.received 0 + 1)
        stack := .handler 0 :: .notify [0] [] :: s.stack } := by
      simp [System.exec, system, State.step, State.InLua, hstack, hlua]
    have hrun := hr.exec _ (System.along_anyStep _ _) hx
    exact ⟨_, _, hrun, hlua, rfl, by simp [hstack, hlen]⟩

/-- Two requests in one tick tell a plugin twice, a request made while the plugins are loaded again is lost,
and `UnloadingLua` handlers that ask for a reload nest without end. -/
theorem reload_protocol_fails :
    (¬ ∀ s, system.Reaches System.anyStep s → Sound s) ∧
      (∃ s, system.Reaches System.anyStep s ∧ s.closed = [(0, 2)]) ∧
      (∃ s, system.Reaches System.anyStep s ∧ s.stack = [] ∧ s.unserved = 1 ∧ s.reloadFlag = false) ∧
      ∀ n, ∃ s, system.Reaches System.anyStep s ∧ (notifies s.stack).length = n := by
  have hstart : system.Reaches System.anyStep initial := .start rfl
  have htwice := hstart.exec [.loadLua, .chunkReturns, .call 0, .reloadLua, .notifyNext, .handlerReturns,
    .notifyEnd, .reloadLua, .notifyNext, .handlerReturns, .notifyEnd, .handlerReturns, .think]
    (System.along_anyStep _ _) rfl
  have hlost := hstart.exec [.loadLua, .chunkReturns, .call 0, .reloadLua, .notifyNext, .handlerReturns,
    .notifyEnd, .handlerReturns, .think, .loadLua, .reloadLua, .notifyEnd, .chunkReturns, .reloadEnd]
    (System.along_anyStep _ _) rfl
  refine ⟨fun h => ?_, ⟨_, htwice, rfl⟩, ⟨_, hlost, rfl, rfl, rfl⟩, fun n => ?_⟩
  · have htold := (h _ htwice).closedOnce 0 2 (by decide)
    cases htold
  · obtain ⟨s, stack, hr, _, hstack, hlen⟩ := reloadLua_nests n
    exact ⟨s, hr, by rw [hstack, notifies_handler, hlen]⟩

end LuaTT.ReloadProtocol
