import Mathlib.Data.List.Forall2
import LuaTT.Manager.OpenStates

/-! `LuaManager::Lua` and `LuaManager::LuaNames`, and the look up of a plugin by its name. A load appends
to both lists; `LuaManager::Cleanup` clears the first one only. -/
namespace LuaTT.Registrations
open Lua Transition World
set_option autoImplicit false

/-! ## `Lua_Get_Lua_By_Name` -/

/-- The loop over `LuaNames`, with the id of its first name. -/
def findName (whatfind : Bytes) : ℕ → List Bytes → Option ℕ
  | _, [] => none
  | id, name :: names => if name = whatfind then some id else findName whatfind (id + 1) names

theorem findName_eq_some {whatfind : Bytes} {first id : ℕ} {names : List Bytes}
    (h : findName whatfind first names = some id) : ∃ i, id = first + i ∧ names[i]? = some whatfind := by
  induction names generalizing first with
  | nil => cases h
  | cons name names ih =>
    unfold findName at h
    split_ifs at h with hname
    · obtain rfl := Option.some.inj h
      exact ⟨0, rfl, congrArg some hname⟩
    · obtain ⟨i, rfl, hi⟩ := ih h
      exact ⟨i + 1, by omega, hi⟩

theorem findName_eq_none {whatfind : Bytes} {first : ℕ} {names : List Bytes}
    (h : findName whatfind first names = none) : whatfind ∉ names := by
  induction names generalizing first with
  | nil => exact List.not_mem_nil
  | cons name names ih =>
    unfold findName at h
    split_ifs at h with hname
    intro hmem
    rcases List.mem_cons.mp hmem with rfl | hmem
    · exact hname rfl
    · exact ih h hmem

namespace World

/-- `Lua_Get_Lua_By_Name`, asked for a string. -/
def getLuaByName (w : World) (whatfind : Bytes) : Option ℕ := findName whatfind 0 w.luaNames

end World

/-! ## What has been loaded -/

/-- The file that `LoadLua` has run in the state. -/
def fileOf : List (World × Act) → StateId → Option Bytes
  | [], _ => none
  | (_, .finishLoad L file) :: h, K => if L = K then some file else fileOf h K
  | _ :: h, K => fileOf h K

/-- The state runs a file of that name. -/
def Runs (h : List (World × Act)) (L : StateId) (name : Bytes) : Prop :=
  ∃ file, fileOf h L = some file ∧ baseName file = name

/-- The two lists belong together, and a look up finds what it is asked for. -/
structure NamesAgree (h : List (World × Act)) (w : World) : Prop where
  length : w.lua.length = w.luaNames.length
  names : ∀ (i : ℕ) (L : StateId), w.lua[i]? = some L → ∃ name, w.luaNames[i]? = some name ∧ Runs h L name
  found : ∀ (name : Bytes) (id : ℕ), w.getLuaByName name = some id → ∃ L, w.lua[id]? = some L ∧ Runs h L name
  missing : ∀ (name : Bytes), w.getLuaByName name = none → ∀ L ∈ w.lua, ¬ Runs h L name

section Names
variable {h : List (World × Act)} {w w' : World}

theorem Runs.unique {L : StateId} {name name' : Bytes} (hr : Runs h L name) (hr' : Runs h L name') :
    name = name' := by
  obtain ⟨file, hf, rfl⟩ := hr
  obtain ⟨file', hf', rfl⟩ := hr'
  rw [hf] at hf'
  rw [Option.some.inj hf']

theorem namesAgree_of_forall₂ (hn : List.Forall₂ (Runs h) w.lua w.luaNames) : NamesAgree h w := by
  obtain ⟨hlen, hget⟩ := List.forall₂_iff_get.mp hn
  have hnames : ∀ (i : ℕ) (L : StateId), w.lua[i]? = some L →
      ∃ name, w.luaNames[i]? = some name ∧ Runs h L name := by
    intro i L hL
    obtain ⟨hi, rfl⟩ := List.getElem?_eq_some_iff.mp hL
    have hi' : i < w.luaNames.length := hlen ▸ hi
    exact ⟨_, List.getElem?_eq_getElem hi', hget i hi hi'⟩
  refine ⟨hlen, hnames, fun name id hid => ?_, fun name hnone L hL hrun => ?_⟩
  · obtain ⟨i, rfl, hi⟩ := findName_eq_some hid
    rw [Nat.zero_add]
    obtain ⟨hlt, rfl⟩ := List.getElem?_eq_some_iff.mp hi
    have hlt' : i < w.lua.length := hlen ▸ hlt
    exact ⟨_, List.getElem?_eq_getElem hlt', hget i hlt' hlt⟩
  · obtain ⟨i, hi⟩ := List.mem_iff_getElem?.mp hL
    obtain ⟨name', hname', hrun'⟩ := hnames i L hi
    obtain rfl := hrun.unique hrun'
    exact findName_eq_none hnone (List.mem_of_getElem? hname')

/-! ## What a step does to the lists -/

theorem register_names {L : LuaState} {c : Registration} (hs : w.register L c = some w') :
    w'.lua = w.lua ∧ w'.luaNames = w.luaNames := by
  rcases register_cases hs with ⟨_, rfl⟩ | ⟨_, he⟩
  · exact ⟨rfl, rfl⟩
  · cases he <;> exact ⟨rfl, rfl⟩

/-- A step appends to both lists, clears the first one, or leaves both alone. -/
theorem step_names {a : Act} (hs : w.step a = some w') :
    (∃ L file, a = .finishLoad L file ∧ w.phase L = .loading ∧ w'.lua = w.lua ++ [L] ∧
      w'.luaNames = w.luaNames ++ [baseName file]) ∨
    (a = .cleanup ∧ w'.lua = [] ∧ w'.luaNames = w.luaNames) ∨
    (a ≠ .cleanup ∧ (∀ L file, a ≠ .finishLoad L file) ∧ w'.lua = w.lua ∧ w'.luaNames = w.luaNames) := by
  cases a with
  | finishLoad L file =>
    obtain ⟨hL, hs⟩ := Option.ite_none_right_eq_some.mp hs
    obtain rfl := Option.some.inj hs
    exact .inl ⟨L, file, rfl, hL, rfl, rfl⟩
  | cleanup =>
    obtain rfl := Option.some.inj hs
    exact .inr (.inl ⟨rfl, rfl, rfl⟩)
  | register L c =>
    obtain ⟨_, hs⟩ := Option.ite_none_right_eq_some.mp hs
    exact .inr (.inr ⟨nofun, nofun, register_names hs⟩)
  | unregister L args =>
    rcases unregister_cases (Option.ite_none_right_eq_some.mp hs).2 with ⟨rfl, _⟩ | ⟨o, _, rfl, _⟩ <;>
      exact .inr (.inr ⟨nofun, nofun, rfl, rfl⟩)
  | create i | createInstance i =>
    obtain ⟨f, _, rfl⟩ := Option.map_eq_some_iff.mp hs
    exact .inr (.inr ⟨nofun, nofun, rfl, rfl⟩)
  | failLoad L | exitWorker L | closePlugin L =>
    obtain ⟨_, hs⟩ := Option.ite_none_right_eq_some.mp hs
    obtain rfl := Option.some.inj hs
    exact .inr (.inr ⟨nofun, nofun, rfl, rfl⟩)
  | newState | detach | startWorker | scriptCleanup =>
    obtain rfl := Option.some.inj hs
    exact .inr (.inr ⟨nofun, nofun, rfl, rfl⟩)
  | free L =>
    rcases free_cases hs with ⟨_, rfl⟩ | ⟨_, rfl⟩ <;> exact .inr (.inr ⟨nofun, nofun, rfl, rfl⟩)

/-- Only the end of its load gives a state a file. -/
theorem fileOf_cons {a : Act} {K : StateId} (ha : ∀ file, a ≠ .finishLoad K file) :
    fileOf ((w, a) :: h) K = fileOf h K := by
  cases a with
  | finishLoad L file =>
    have hne : ¬ L = K := by
      rintro rfl
      exact ha file rfl
    simp only [fileOf, if_neg hne]
  | _ => rfl

/-! ## Plugins -/

/-- The states of `Lua` have been loaded. -/
structure Members (w : World) : Prop where
  unborn : ∀ L, w.nextState ≤ L → w.phase L = .unborn
  loaded : ∀ L ∈ w.lua, w.phase L ≠ .unborn ∧ w.phase L ≠ .loading

theorem members_initial : Members initial := ⟨fun _ _ => rfl, fun _ hL => absurd hL List.not_mem_nil⟩

theorem Members.step {a : Act} (hm : Members w) (hs : w.step a = some w') : Members w' := by
  have hlua : ∀ L ∈ w'.lua, L ∈ w.lua ∨ w'.phase L = .plugin := by
    intro L hL
    rcases step_names hs with ⟨K, file, rfl, _, hlua, _⟩ | ⟨_, hlua, _⟩ | ⟨_, _, hlua, _⟩
    · rw [hlua] at hL
      rcases List.mem_append.mp hL with hL | hL
      · exact .inl hL
      · obtain rfl := List.mem_singleton.mp hL
        obtain rfl := Option.some.inj (Option.ite_none_right_eq_some.mp hs).2
        exact .inr (Function.update_self _ _ _)
    · rw [hlua] at hL
      exact absurd hL List.not_mem_nil
    · rw [hlua] at hL
      exact .inl hL
  have hloaded : ∀ L ∈ w'.lua,
      (w.phase L ≠ .unborn → w.phase L ≠ .loading → w'.phase L ≠ .unborn ∧ w'.phase L ≠ .loading) →
      w'.phase L ≠ .unborn ∧ w'.phase L ≠ .loading := by
    intro L hL hkeep
    rcases hlua L hL with hold | hnew
    · exact hkeep (hm.loaded L hold).1 (hm.loaded L hold).2
    · simp [hnew]
  rcases step_phase hs with ⟨hphase, hnext⟩ | ⟨K, p, hphase, hnext, hK, hp, hp', _⟩ |
      ⟨p, hphase, hnext, hp, _⟩
  · refine ⟨fun L hL => ?_, fun L hL => hloaded L hL fun h h' => ?_⟩
    · rw [hphase]
      exact hm.unborn L (hnext ▸ hL)
    · rw [hphase]
      exact ⟨h, h'⟩
  · refine ⟨fun L hL => ?_, fun L hL => hloaded L hL fun h h' => ?_⟩
    · have hL := hm.unborn L (hnext ▸ hL)
      rwa [hphase, Function.update_of_ne]
      rintro rfl
      exact hK hL
    · rw [hphase]
      by_cases hLK : L = K
      · rw [hLK, Function.update_self]
        exact ⟨hp, hp'⟩
      · rw [Function.update_of_ne hLK]
        exact ⟨h, h'⟩
  · refine ⟨fun L hL => ?_, fun L hL => hloaded L hL fun h h' => ?_⟩
    · rw [hnext] at hL
      rw [hphase, Function.update_of_ne (Nat.ne_of_gt hL)]
      exact hm.unborn L (Nat.le_of_succ_le hL)
    · rw [hphase, Function.update_of_ne]
      · exact ⟨h, h'⟩
      · rintro rfl
        exact h (hm.unborn _ (Nat.le_refl _))

/-! ## Runs -/

/-- Plugins are unloaded only when there are none. -/
def NothingUnloaded (h : List (World × Act)) : Prop := ∀ u, (u, Act.cleanup) ∈ h → u.lua = []

theorem nothingUnloaded_cons {a : Act} : NothingUnloaded ((w, a) :: h) ↔
    (a = .cleanup → w.lua = []) ∧ NothingUnloaded h := by
  constructor
  · intro hn
    exact ⟨fun ha => hn w (by rw [ha]; exact List.mem_cons_self), fun u hu => hn u (List.mem_cons_of_mem _ hu)⟩
  · rintro ⟨ha, hn⟩ u hu
    rcases List.mem_cons.mp hu with he | hu
    · obtain ⟨rfl, rfl⟩ := Prod.mk.inj he
      exact ha rfl
    · exact hn u hu

/-- Names are never taken out, so once plugins have been unloaded there are too many for good. -/
structure NameInvariant (h : List (World × Act)) (w : World) : Prop where
  members : Members w
  names : NothingUnloaded h → List.Forall₂ (Runs h) w.lua w.luaNames
  surplus : ¬ NothingUnloaded h → w.lua.length < w.luaNames.length

theorem NameInvariant.le (hi : NameInvariant h w) : w.lua.length ≤ w.luaNames.length := by
  by_cases hn : NothingUnloaded h
  · exact Nat.le_of_eq (hi.names hn).length_eq
  · exact Nat.le_of_lt (hi.surplus hn)

theorem NameInvariant.step {a : Act} (hi : NameInvariant h w) (hs : w.step a = some w') :
    NameInvariant ((w, a) :: h) w' := by
  have hmem := hi.members.step hs
  rcases step_names hs with ⟨L, file, rfl, hL, hlua, hnames⟩ | ⟨rfl, hlua, hnames⟩ | ⟨hc, hf, hlua, hnames⟩
  · refine ⟨hmem, fun hn => ?_, fun hn => ?_⟩
    · have hold := hi.names (nothingUnloaded_cons.mp hn).2
      have hkeep : ∀ K ∈ w.lua, ∀ name, Runs h K name → Runs ((w, .finishLoad L file) :: h) K name := by
        rintro K hK name ⟨file', hfile, hname⟩
        refine ⟨file', ?_, hname⟩
        rw [fileOf_cons, hfile]
        rintro q he
        obtain ⟨rfl, rfl⟩ := Act.finishLoad.inj he
        exact (hi.members.loaded _ hK).2 hL
      have hpairs := (List.forall₂_and_left (p := (· ∈ w.lua)) w.lua w.luaNames).mpr ⟨fun K hK => hK, hold⟩
      have hnew : Runs ((w, .finishLoad L file) :: h) L (baseName file) := by
        refine ⟨file, ?_, rfl⟩
        simp [fileOf]
      rw [hlua, hnames]
      exact List.rel_append (hpairs.imp fun K name hr => hkeep K hr.1 name hr.2) (.cons hnew .nil)
    · have hlt := hi.surplus fun ho => hn (nothingUnloaded_cons.mpr ⟨nofun, ho⟩)
      rw [hlua, hnames, List.length_append, List.length_append]
      exact Nat.add_lt_add_right hlt 1
  · refine ⟨hmem, fun hn => ?_, fun hn => ?_⟩
    · obtain ⟨hempty, hn⟩ := nothingUnloaded_cons.mp hn
      have hold := hi.names hn
      rw [hempty rfl] at hold
      rw [hlua, hnames, List.forall₂_nil_left_iff.mp hold]
      exact .nil
    · rw [hlua, hnames, List.length_nil]
      by_cases ho : NothingUnloaded h
      · have hne : w.lua ≠ [] := fun he => hn (nothingUnloaded_cons.mpr ⟨fun _ => he, ho⟩)
        exact (List.length_pos_of_ne_nil hne).trans_le hi.le
      · exact (Nat.zero_le _).trans_lt (hi.surplus ho)
  · refine ⟨hmem, fun hn => ?_, fun hn => ?_⟩
    · rw [hlua, hnames]
      have hsame : Runs ((w, a) :: h) = Runs h := by
        funext K name
        unfold Runs
        rw [fileOf_cons fun file => hf K file]
      rw [hsame]
      exact hi.names (nothingUnloaded_cons.mp hn).2
    · rw [hlua, hnames]
      exact hi.surplus fun ho => hn (nothingUnloaded_cons.mpr ⟨fun he => absurd he hc, ho⟩)

theorem nameInvariant (hr : system.Run System.anyStep h w) : NameInvariant h w := by
  refine hr.invariant (fun u hu => ?_) fun h u a u' hi _ hs => hi.step hs
  obtain rfl : u = initial := hu
  have hnone : NothingUnloaded [] := fun u hu => absurd hu List.not_mem_nil
  exact ⟨members_initial, fun _ => .nil, fun hn => absurd hnone hn⟩

end Names

/-- **Name table.** `LuaNames` belongs to `Lua` exactly as long as plugins are unloaded only when there
are none. -/
theorem names_agree {h : List (World × Act)} {w : World} (hr : system.Run System.anyStep h w) :
    NamesAgree h w ↔ NothingUnloaded h := by
  have hi := nameInvariant hr
  refine ⟨fun hn => ?_, fun hn => namesAgree_of_forall₂ (hi.names hn)⟩
  by_contra hun
  have hlen := hn.length
  have hlt := hi.surplus hun
  omega

def aPlugin : Load := ⟨bytes "LuaPlugins\\a.lua", false, [], [], []⟩

theorem names_agree_loaded : ∃ h w, w.lua = [0] ∧ w.luaNames = [bytes "a.lua"] ∧ NamesAgree h w := by
  have hload : ∃ w, initial.loadLua aPlugin = some w ∧ w.lua = [0] ∧ w.luaNames = [bytes "a.lua"] :=
    ⟨_, rfl, rfl, by decide⟩
  obtain ⟨w, hw, hlua, hnames⟩ := hload
  obtain ⟨g, hr, hg⟩ := System.Run.exec (.start rfl) _ (System.along_anyStep _ _) hw
  refine ⟨g ++ [], w, hlua, hnames, (names_agree hr).mpr fun u hu => ?_⟩
  have hact := hg (u, .cleanup) (by simpa using hu)
  simp [aPlugin, Load.acts] at hact

/-- A plugin is loaded and reloaded. -/
theorem names_disagree : ¬ ∀ h w, system.Run System.anyStep h w → NamesAgree h w := by
  intro hall
  have hruns : ∃ w w', initial.loadLua aPlugin = some w ∧ w.reloadAll (fun _ => []) [aPlugin] = some w' ∧
      w'.lua.length = 1 ∧ w'.luaNames.length = 2 := ⟨_, _, rfl, rfl, rfl, rfl⟩
  obtain ⟨w, w', hload, hreload, hlua, hnames⟩ := hruns
  obtain ⟨as, has⟩ := reloadAll_exec hreload
  obtain ⟨g, hr, _⟩ := System.Run.exec (.start rfl) _ (System.along_anyStep _ _) hload
  obtain ⟨g', hr', _⟩ := hr.exec as (System.along_anyStep _ _) has
  have hlen := (hall _ w' hr').length
  omega

end LuaTT.Registrations
