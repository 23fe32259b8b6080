import LuaTT.Manager.FailedLoad

/-! The states that registered objects call back into. Only `LuaScriptManager::Cleanup` takes a state from
its objects before it is closed; what it does for the scripts nothing does for crates and console functions,
for what finalizers register while a state is closed, nor for a worker that exits. -/
namespace LuaTT.Registrations
open Lua Transition World
set_option autoImplicit false

/-! ## Who holds a state -/

namespace World

/-- A factory or a console function holds the state or a coroutine of it. -/
def FactoryHolds (w : World) (L : StateId) : Prop :=
  (∃ f ∈ w.scripts, f.luaHandler.main = L) ∨ (∃ f ∈ w.crateList, f.lua.main = L) ∨
    ∃ f ∈ w.consoleList, f.lua.main = L

/-- A live script or a crate holds it. -/
def InstanceHolds (w : World) (L : StateId) : Prop :=
  (∃ f ∈ w.scripts, ∃ s ∈ f.scripts, ∃ T, s.lua = some T ∧ T.main = L) ∨
    (∃ s ∈ w.orphans, ∃ T, s.lua = some T ∧ T.main = L) ∨
    ∃ f ∈ w.crateList, ∃ T, f.crate = some T ∧ T.main = L

def Holds (w : World) (L : StateId) : Prop := w.FactoryHolds L ∨ w.InstanceHolds L

/-- No object holds a state that has been closed. -/
def Safe (w : World) : Prop := ∀ L, w.Holds L → w.phase L ≠ .closed

end World

/-- The state of a plugin or a worker is not closed under any object, and while it is, its finalizers enter
none. -/
def Guarded (w : World) : Act → Prop
  | .closePlugin L | .exitWorker L => ¬ w.Holds L
  | .register T c => w.phase T.main = .unloading ∨ w.phase T.main = .exiting → ¬ Enters w (.register T c)
  | _ => True

/-- Closed, or about to be. -/
def Phase.leaves : Phase → Bool
  | .unloading | .exiting | .closed => true
  | _ => false

section Step
variable {w w' : World} {K : StateId} {a : Act}

/-! ## Instances hold what their factories hold -/

structure Instances (w : World) : Prop where
  scripts : ∀ f ∈ w.scripts, ∀ s ∈ f.scripts, s.lua = some f.luaHandler
  orphans : ∀ s ∈ w.orphans, s.lua = none
  crates : ∀ f ∈ w.crateList, ∀ T, f.crate = some T → T = f.lua

theorem instances_initial : Instances initial := by
  refine ⟨?_, ?_, ?_⟩ <;> exact fun _ h => absurd h List.not_mem_nil

theorem Instances.factoryHolds (hi : Instances w) (hk : w.Holds K) : w.FactoryHolds K := by
  rcases hk with hk | ⟨f, hf, s, hs, T, hT, hk⟩ | ⟨s, hs, T, hT, hk⟩ | ⟨f, hf, T, hT, hk⟩
  · exact hk
  · obtain rfl := Option.some.inj (hT.symm.trans (hi.scripts f hf s hs))
    exact .inl ⟨f, hf, hk⟩
  · rw [hi.orphans s hs] at hT
    cases hT
  · obtain rfl := hi.crates f hf T hT
    exact .inr (.inl ⟨f, hf, hk⟩)

theorem Instances.entered {L : LuaState} {c : Registration} (hi : Instances w) (he : Entered w L c w') :
    Instances w' := by
  cases he with
  | script below args name parameters =>
    refine ⟨fun f hf => ?_, hi.orphans, hi.crates⟩
    rcases List.mem_append.mp hf with hf | hf
    · exact hi.scripts f hf
    · rw [List.mem_singleton.mp hf]
      exact fun s hs => absurd hs List.not_mem_nil
  | crate args name type =>
    refine ⟨hi.scripts, hi.orphans, fun f hf => ?_⟩
    rcases List.mem_append.mp hf with hf | hf
    · exact hi.crates f hf
    · rw [List.mem_singleton.mp hf]
      exact nofun
  | console | chat => exact ⟨hi.scripts, hi.orphans, hi.crates⟩

theorem Instances.create {i : ℕ} (hi : Instances w) (hs : w.create i = some w') : Instances w' := by
  obtain ⟨f, hf, rfl⟩ := Option.map_eq_some_iff.mp hs
  refine ⟨fun g hg => ?_, hi.orphans, hi.crates⟩
  rcases List.mem_or_eq_of_mem_set hg with hg | rfl
  · exact hi.scripts g hg
  · intro s hs
    rcases List.mem_append.mp hs with hs | hs
    · exact hi.scripts f (List.mem_of_getElem? hf) s hs
    · rw [List.mem_singleton.mp hs]

theorem Instances.createInstance {i : ℕ} (hi : Instances w) (hs : w.createInstance i = some w') :
    Instances w' := by
  obtain ⟨f, hf, rfl⟩ := Option.map_eq_some_iff.mp hs
  refine ⟨hi.scripts, hi.orphans, fun g hg => ?_⟩
  rcases List.mem_or_eq_of_mem_set hg with hg | rfl
  · exact hi.crates g hg
  · intro T hT
    cases hc : f.crate with
    | none =>
      simp only [hc] at hT
      exact (Option.some.inj hT).symm
    | some T' =>
      simp only [hc] at hT
      obtain rfl := Option.some.inj hT
      exact hi.crates f (List.mem_of_getElem? hf) T' hc

theorem Instances.step (hi : Instances w) (hs : w.step a = some w') : Instances w' := by
  cases a with
  | register L c =>
    rcases register_cases (Option.ite_none_right_eq_some.mp hs).2 with ⟨_, rfl⟩ | ⟨_, he⟩
    · exact hi
    · exact hi.entered he
  | unregister L args =>
    rcases unregister_cases (Option.ite_none_right_eq_some.mp hs).2 with ⟨rfl, _⟩ | ⟨o, _, rfl, _⟩
    · exact hi
    · exact ⟨hi.scripts, hi.orphans, hi.crates⟩
  | create i => exact hi.create hs
  | detach id =>
    obtain rfl := Option.some.inj hs
    refine ⟨fun f hf s hs => ?_, fun s hs => hi.orphans s (List.mem_of_mem_filter hs), hi.crates⟩
    obtain ⟨g, hg, rfl⟩ := List.mem_map.mp hf
    exact hi.scripts g hg s (List.mem_of_mem_filter hs)
  | createInstance i => exact hi.createInstance hs
  | scriptCleanup =>
    obtain rfl := Option.some.inj hs
    refine ⟨fun f hf => absurd hf List.not_mem_nil, fun s hs => ?_, hi.crates⟩
    rcases List.mem_append.mp hs with hs | hs
    · exact hi.orphans s hs
    · obtain ⟨_, _, rfl⟩ := List.mem_map.mp hs
      rfl
  | newState | startWorker | cleanup =>
    obtain rfl := Option.some.inj hs
    exact ⟨hi.scripts, hi.orphans, hi.crates⟩
  | finishLoad | failLoad | exitWorker | closePlugin =>
    obtain ⟨_, hs⟩ := Option.ite_none_right_eq_some.mp hs
    obtain rfl := Option.some.inj hs
    exact ⟨hi.scripts, hi.orphans, hi.crates⟩
  | free L =>
    rcases free_cases hs with ⟨_, rfl⟩ | ⟨_, rfl⟩ <;> exact ⟨hi.scripts, hi.orphans, hi.crates⟩

/-! ## Holders through a step -/

/-- The step enters an object that holds the state. -/
def Gains (w : World) (a : Act) (K : StateId) : Prop :=
  ∃ T c, a = .register T c ∧ T.main = K ∧ Enters w a

theorem factoryHolds_iff : w.FactoryHolds K ↔ (∃ e ∈ scriptEntries w, e.2.2.main = K) ∨
    (∃ e ∈ crateEntries w, e.2.2.main = K) ∨ ∃ f ∈ w.consoleList, f.lua.main = K := by
  simp [FactoryHolds, scriptEntries, crateEntries]

theorem SameEntries.factoryHolds (h : SameEntries w w') : w'.FactoryHolds K ↔ w.FactoryHolds K := by
  rw [factoryHolds_iff, factoryHolds_iff, h.scripts, h.crateList, h.consoleList]

theorem exists_mem_append_singleton {α : Type*} {l : List α} {y : α} {p : α → Prop} :
    (∃ x ∈ l ++ [y], p x) ↔ (∃ x ∈ l, p x) ∨ p y := by
  simp [or_and_right, exists_or]

theorem Entered.factoryHolds {T : LuaState} {c : Registration} (he : Entered w T c w')
    (hnew : ¬ Refused w c) :
    w'.FactoryHolds K ↔ w.FactoryHolds K ∨ T.main = K ∧ Enters w (.register T c) := by
  cases he with
  | script below args name parameters =>
    have hen : Enters w (.register T (.script below args)) := hnew
    simp only [FactoryHolds, exists_mem_append_singleton, hen, and_true]
    simp only [or_assoc, or_comm]
  | crate args name type =>
    have hen : Enters w (.register T (.crate args)) := hnew
    simp only [FactoryHolds, exists_mem_append_singleton, hen, and_true]
    simp only [or_comm, or_left_comm]
  | console args name aliasName help =>
    have hen : Enters w (.register T (.console args)) := hnew
    simp only [FactoryHolds, exists_mem_append_singleton, hen, and_true]
    simp only [or_assoc]
  | chat args c =>
    have hen : ¬ Enters w (.register T (.chat args)) := id
    simp only [hen, and_false, or_false]
    rfl

/-- Factories stay until `LuaScriptManager::Cleanup`. -/
theorem step_factoryHolds (hs : w.step a = some w') (ha : a ≠ .scriptCleanup) :
    w'.FactoryHolds K ↔ w.FactoryHolds K ∨ Gains w a K := by
  have hquiet : (∀ T c, a ≠ .register T c) → ¬ Gains w a K := by
    rintro hno ⟨T, c, he, _⟩
    exact hno T c he
  have hentries := fun hin : Inside a => step_entries hin hs
  cases a with
  | register T c =>
    have hgain : Gains w (.register T c) K ↔ T.main = K ∧ Enters w (.register T c) := by
      constructor
      · rintro ⟨_, _, he, hK, hen⟩
        obtain ⟨rfl, rfl⟩ := Act.register.inj he
        exact ⟨hK, hen⟩
      · exact fun h => ⟨T, c, rfl, h⟩
    rw [hgain]
    rcases register_cases (Option.ite_none_right_eq_some.mp hs).2 with ⟨href, rfl⟩ | ⟨hnew, he⟩
    · have hen : ¬ Enters w' (.register T c) := by
        intro hen
        cases c with
        | chat args => exact hen
        | _ => exact hen href
      exact (or_iff_left fun h => hen h.2).symm
    · exact he.factoryHolds hnew
  | finishLoad | closePlugin =>
    obtain ⟨_, hs⟩ := Option.ite_none_right_eq_some.mp hs
    obtain rfl := Option.some.inj hs
    exact (or_iff_left (hquiet nofun)).symm
  | cleanup =>
    obtain rfl := Option.some.inj hs
    exact (or_iff_left (hquiet nofun)).symm
  | scriptCleanup => exact absurd rfl ha
  | _ =>
    rcases hentries trivial with ⟨hen, _⟩ | ⟨_, hsame⟩
    · exact absurd hen id
    · rw [hsame.factoryHolds, or_iff_left (hquiet nofun)]

theorem factoryHolds_of_step (hs : w.step a = some w') (hk : w'.FactoryHolds K) :
    w.FactoryHolds K ∨ Gains w a K := by
  by_cases ha : a = .scriptCleanup
  · subst ha
    obtain rfl := Option.some.inj hs
    rcases hk with ⟨_, hf, _⟩ | hk
    · exact absurd hf List.not_mem_nil
    · exact .inl (.inr hk)
  · exact (step_factoryHolds hs ha).mp hk

/-! ## The life of a state -/

/-- A step leaves all phases alone, takes a state on, or opens one. Only two steps begin to close a state that
has been in use. -/
theorem step_phase (hs : w.step a = some w') :
    (w'.phase = w.phase ∧ w'.nextState = w.nextState) ∨
    (∃ L p, w'.phase = Function.update w.phase L p ∧ w'.nextState = w.nextState ∧ w.phase L ≠ .unborn ∧
      p ≠ .unborn ∧ p ≠ .loading ∧ (p.leaves → (w.phase L).leaves ∨ a = .closePlugin L ∨ a = .exitWorker L)) ∨
    ∃ p, w'.phase = Function.update w.phase w.nextState p ∧ w'.nextState = w.nextState + 1 ∧
      p ≠ .unborn ∧ ¬ p.leaves := by
  cases a with
  | register L c =>
    rcases register_cases (Option.ite_none_right_eq_some.mp hs).2 with ⟨_, rfl⟩ | ⟨_, he⟩
    · exact .inl ⟨rfl, rfl⟩
    · cases he <;> exact .inl ⟨rfl, rfl⟩
  | unregister L args =>
    rcases unregister_cases (Option.ite_none_right_eq_some.mp hs).2 with ⟨rfl, _⟩ | ⟨o, _, rfl, _⟩ <;>
      exact .inl ⟨rfl, rfl⟩
  | create i | createInstance i =>
    obtain ⟨f, hf, rfl⟩ := Option.map_eq_some_iff.mp hs
    exact .inl ⟨rfl, rfl⟩
  | detach | scriptCleanup | cleanup =>
    obtain rfl := Option.some.inj hs
    exact .inl ⟨rfl, rfl⟩
  | newState | startWorker =>
    obtain rfl := Option.some.inj hs
    exact .inr (.inr ⟨_, rfl, rfl, nofun, nofun⟩)
  | finishLoad L | failLoad L =>
    obtain ⟨hL, hs⟩ := Option.ite_none_right_eq_some.mp hs
    obtain rfl := Option.some.inj hs
    exact .inr (.inl ⟨L, _, rfl, rfl, by simp [hL], nofun, nofun, nofun⟩)
  | exitWorker L =>
    obtain ⟨hL, hs⟩ := Option.ite_none_right_eq_some.mp hs
    obtain rfl := Option.some.inj hs
    exact .inr (.inl ⟨L, _, rfl, rfl, by simp [hL], nofun, nofun, fun _ => .inr (.inr rfl)⟩)
  | closePlugin L =>
    obtain ⟨⟨_, hL⟩, hs⟩ := Option.ite_none_right_eq_some.mp hs
    obtain rfl := Option.some.inj hs
    exact .inr (.inl ⟨L, _, rfl, rfl, by simp [hL], nofun, nofun, fun _ => .inr (.inl rfl)⟩)
  | free L =>
    rcases free_cases hs with ⟨hL, rfl⟩ | ⟨hL, rfl⟩
    · refine .inr (.inl ⟨L, _, rfl, rfl, ?_, nofun, nofun, fun _ => .inl ?_⟩)
      · rcases hL with hL | hL <;> simp [hL]
      · rcases hL with hL | hL <;> simp [hL, Phase.leaves]
    · exact .inr (.inl ⟨L, _, rfl, rfl, by simp [hL], nofun, nofun, nofun⟩)

theorem leaves_of_step (hs : w.step a = some w') (hk : (w'.phase K).leaves) :
    (w.phase K).leaves ∨ a = .closePlugin K ∨ a = .exitWorker K := by
  rcases step_phase hs with ⟨hphase, _⟩ | ⟨L, p, hphase, _, _, _, _, hp⟩ | ⟨p, hphase, _, _, hp⟩
  · rw [hphase] at hk
    exact .inl hk
  · rw [hphase] at hk
    by_cases hKL : K = L
    · subst hKL
      rw [Function.update_self] at hk
      exact hp hk
    · rw [Function.update_of_ne hKL] at hk
      exact .inl hk
  · rw [hphase] at hk
    by_cases hKn : K = w.nextState
    · rw [hKn, Function.update_self] at hk
      exact absurd hk hp
    · rw [Function.update_of_ne hKn] at hk
      exact .inl hk

/-! ## Runs -/

/-- What holds in guarded runs, between the steps and inside of the operations. -/
structure Unheld (w : World) : Prop where
  instances : Instances w
  alive : ∀ K, w.FactoryHolds K → ¬ (w.phase K).leaves

theorem Unheld.safe (h : Unheld w) : w.Safe := by
  intro L hL hclosed
  apply h.alive L (h.instances.factoryHolds hL)
  rw [hclosed]
  rfl

theorem Unheld.step (h : Unheld w) (hg : Guarded w a) (hs : w.step a = some w') : Unheld w' := by
  refine ⟨h.instances.step hs, fun K hK hleaves => ?_⟩
  rcases factoryHolds_of_step hs hK with hold | ⟨T, c, rfl, rfl, hen⟩
  · rcases leaves_of_step hs hleaves with hl | rfl | rfl
    · exact h.alive K hold hl
    · exact hg (.inl hold)
    · exact hg (.inl hold)
  · rcases leaves_of_step hs hleaves with hl | he | he
    · have hruns := (Option.ite_none_right_eq_some.mp hs).1
      refine hg ?_ hen
      cases hp : w.phase T.main <;> simp [hp, Phase.leaves, Phase.runs] at hl hruns ⊢
    · cases he
    · cases he

theorem unheld (hr : system.Reaches Guarded w) : Unheld w := by
  refine hr.invariant (I := Unheld) (fun s hi => ?_) fun _ _ _ hI hg hs => hI.step hg hs
  obtain rfl : s = initial := hi
  refine ⟨instances_initial, fun K hK => ?_⟩
  rcases hK with ⟨_, hf, _⟩ | ⟨_, hf, _⟩ | ⟨_, hf, _⟩ <;> exact absurd hf List.not_mem_nil

theorem exec_factoryHolds {as : List Act} (ha : Act.scriptCleanup ∉ as) (hx : system.exec w as = some w')
    (hk : w.FactoryHolds K) : w'.FactoryHolds K := by
  refine System.exec_induction (P := fun s h u =>
    (∀ x ∈ h, x.2 ≠ Act.scriptCleanup) → s.FactoryHolds K → u.FactoryHolds K)
    (fun s _ hs => hs) (fun s a s' h u hs ih hall hsk => ?_) hx
    (fun x hx he => ha (he ▸ System.mem_trace hx)) hk
  refine ih (fun x hx => hall x (List.mem_cons_of_mem _ hx)) ?_
  exact (step_factoryHolds hs (hall _ List.mem_cons_self)).mpr (.inl hsk)

/-- A step that is not guarded leaves a state with an object that is being closed. -/
theorem held_of_unguarded (hi : Instances w) (hs : w.step a = some w') (hg : ¬ Guarded w a) :
    ∃ L, (w'.phase L = .unloading ∨ w'.phase L = .exiting) ∧ w'.FactoryHolds L := by
  cases a with
  | closePlugin L =>
    obtain ⟨_, hs⟩ := Option.ite_none_right_eq_some.mp hs
    obtain rfl := Option.some.inj hs
    exact ⟨L, .inl (Function.update_self _ _ _), hi.factoryHolds (not_not.mp hg)⟩
  | exitWorker L =>
    obtain ⟨_, hs⟩ := Option.ite_none_right_eq_some.mp hs
    obtain rfl := Option.some.inj hs
    exact ⟨L, .inr (Function.update_self _ _ _), hi.factoryHolds (not_not.mp hg)⟩
  | register T c =>
    obtain ⟨hp, hen⟩ := Classical.not_imp.mp hg
    have hen := not_not.mp hen
    refine ⟨T.main, ?_, (step_factoryHolds hs nofun).mpr (.inr ⟨T, c, rfl, rfl, hen⟩)⟩
    rcases register_cases (Option.ite_none_right_eq_some.mp hs).2 with ⟨_, rfl⟩ | ⟨_, he⟩
    · exact hp
    · cases he <;> exact hp
  | _ => exact absurd trivial hg

end Step

/-- **Closed states.** In a run whose steps are guarded no registered object holds a closed state. After any
step that is not guarded some object does when that `lua_close` returns, and until the next
`LuaScriptManager::Cleanup`. -/
theorem closed_states_unheld {w : World} (hr : system.Reaches Guarded w) :
    w.Safe ∧ ∀ a w', w.step a = some w' → ¬ Guarded w a →
      ∃ L, (w'.phase L = .unloading ∨ w'.phase L = .exiting) ∧
        ∀ as v, Act.scriptCleanup ∉ as → system.exec w' as = some v → v.phase L = .closed → ¬ v.Safe := by
  have hinv := unheld hr
  refine ⟨hinv.safe, fun a w' hs hg => ?_⟩
  obtain ⟨L, hphase, hL⟩ := held_of_unguarded hinv.instances hs hg
  refine ⟨L, hphase, fun as v ha hx hclosed hsafe => ?_⟩
  exact hsafe L (.inl (exec_factoryHolds ha hx hL)) hclosed

def scriptPlugin : Load :=
  ⟨bytes "a.lua", false, [.register ⟨0, none⟩ (.script [] [.string (bytes "s"), .string [], .table 0])], [], []⟩

/-- The plugin is loaded, the engine creates its script, and `Reload_All` unloads it. -/
def underScript : List Act := scriptPlugin.acts 0 ++ .create 0 :: unloadActs (fun _ => []) [0]

theorem closed_states_unheld_script : ∃ w, system.exec initial underScript = some w ∧ w.phase 0 = .closed ∧
    w.orphans.map (·.lua) = [none] ∧ w.Safe := by
  obtain ⟨w, hx, hclosed, horphans⟩ : ∃ w, system.exec initial underScript = some w ∧
      w.phase 0 = .closed ∧ w.orphans.map (·.lua) = [none] := ⟨_, rfl, rfl, rfl⟩
  have hok : system.Along Guarded initial underScript := by
    refine ⟨trivial, ?_, trivial, trivial, trivial, ?_, trivial, trivial, trivial⟩
    · rintro (h | h) <;> cases h
    · rintro ((⟨_, hf, _⟩ | ⟨_, hf, _⟩ | ⟨_, hf, _⟩) | ⟨_, hf, _⟩ | ⟨s, hs, T, hT, _⟩ | ⟨_, hf, _⟩)
      · exact absurd hf List.not_mem_nil
      · exact absurd hf List.not_mem_nil
      · exact absurd hf List.not_mem_nil
      · exact absurd hf List.not_mem_nil
      · rw [List.mem_singleton.mp hs] at hT
        cases hT
      · exact absurd hf List.not_mem_nil
  exact ⟨w, hx, hclosed, horphans, (closed_states_unheld (.exec (.start rfl) _ hok hx)).1⟩

/-- `DA_Register_Console_Function("c", "", "", {})`, and a reload. -/
theorem closed_states_held : ¬ ∀ w, system.Reaches System.anyStep w → w.Safe := by
  intro hall
  have hstart : system.Reaches System.anyStep initial := .start rfl
  have hend := hstart.exec (.newState ::
    .register ⟨0, none⟩ (.console [.string (bytes "c"), .string [], .string [], .table 0]) ::
    .finishLoad 0 (bytes "a.lua") :: unloadActs (fun _ => []) [0]) (System.along_anyStep _ _) rfl
  exact hall _ hend 0 (.inl (.inr (.inr ⟨_, List.mem_singleton_self _, rfl⟩))) rfl

end LuaTT.Registrations
