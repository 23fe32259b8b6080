import LuaTT.Library.GrowingVector
import LuaTT.Manager.HookOutcome
import LuaTT.Manager.Registrations

/-! The range loops over `LuaManager::Lua`. They nest, as a handler may raise events of its own, and share
one vector, which `Load_Lua` appends to; `Lua_Destroy_Lua_Thread`, which would erase from it, is not among the
functions that Lua gets. A loop survives the loads of its handlers as long as the vector has
room for them. -/
namespace LuaTT.DispatchLoops
open Lua Dispatch GrowingVector Transition Registrations
set_option autoImplicit false

/-! ## The loops -/

inductive Dispatcher
  | event (e : Event)
  /-- `Lua_Reload_Lua`. -/
  | reloadLua
  /-- `LuaTT_DAChatCommand::Activate`. -/
  | chatCommand (func : Bytes)

namespace Dispatcher

/-- It returns before its loop. -/
def skipped : Dispatcher → Bool
  | event e => e.skipped
  | _ => false

/-- Its loop has a way out from the body: the `break` at a refusal, or the `return` where the purchaser has
no id. -/
def leaves : Dispatcher → Bool
  | event (.conAc ..) | event (.daConnectionRequest ..) => true
  | event (.purchase purchaser ..) => purchaser = 0
  | _ => false

end Dispatcher

structure ActiveLoop where
  dispatcher : Dispatcher
  range : RangeLoop StateId

structure State where
  lua : Storage StateId
  nextState : StateId
  /-- Innermost first. -/
  loops : List ActiveLoop
  /-- With whether the loop was left from its body. -/
  finished : List (ActiveLoop × Bool)
  /-- An iterator has been used that no longer points into the vector. -/
  undefined : Bool

inductive Act
  /-- The engine raises an event, or Lua code gets it to. -/
  | dispatch (d : Dispatcher)
  /-- The innermost loop compares its iterators and reads the next state. -/
  | visit
  /-- The body ends, and the loop moves on. -/
  | handlerReturns
  | leave
  | endLoop
  /-- `LoadLua` appends the state it has run a plugin in. -/
  | loadLua
  /-- `Reload_All`, by the engine's tick, closes the states; the loads follow. -/
  | reloadAll

namespace State

/-- The engine or a handler runs, so no loop is between two bodies. -/
def Running (s : State) : Prop := ∀ l ∈ s.loops.head?, l.range.inBody = true

instance (s : State) : Decidable s.Running :=
  match h : s.loops.head? with
  | none => isTrue (by simp [Running, h])
  | some l => decidable_of_iff (l.range.inBody = true) (by simp [Running, h])

/-- What the loop does next, if its iterators may be used. -/
def use (s : State) (l : ActiveLoop) (next : Option State) : Option State :=
  if l.range.Usable s.lua then next else some { s with undefined := true }

/-- Nothing is said about a run that has used such an iterator. -/
def step (grow : ℕ → ℕ) (s : State) (a : Act) : Option State :=
  if s.undefined then none
  else
    match a, s.loops with
    | .dispatch d, loops =>
      if s.Running ∧ d.skipped = false then some { s with loops := ⟨d, .begin s.lua⟩ :: loops } else none
    | .visit, l :: loops =>
      if l.range.inBody then none
      else s.use l ((l.range.enter s.lua).map fun r => { s with loops := { l with range := r } :: loops })
    | .handlerReturns, l :: loops =>
      if l.range.inBody then s.use l (some { s with loops := { l with range := l.range.advance } :: loops })
      else none
    | .leave, l :: loops =>
      if l.range.inBody ∧ l.dispatcher.leaves then
        some { s with loops := loops, finished := (l, true) :: s.finished }
      else none
    | .endLoop, l :: loops =>
      if l.range.inBody then none
      else
        s.use l (if l.range.atEnd then some { s with loops := loops, finished := (l, false) :: s.finished }
          else none)
    | .loadLua, _ =>
      if s.Running then
        some { s with lua := s.lua.pushBack grow s.nextState, nextState := s.nextState + 1 }
      else none
    | .reloadAll, [] => some { s with lua := s.lua.clear }
    | _, _ => none

end State

def initial : State := ⟨.empty, 0, [], [], false⟩

def system (grow : ℕ → ℕ) : System State Act := ⟨fun s => s = initial, State.step grow⟩

/-! ## Loads that find room -/

/-- Where a handler loads a plugin there is room in the vector. -/
def Steady (s : State) : Act → Prop
  | .loadLua => s.loops = [] ∨ s.lua.items.length < s.lua.capacity
  | _ => True

instance (s : State) : (a : Act) → Decidable (Steady s a)
  | .loadLua => inferInstanceAs (Decidable (_ ∨ _))
  | .dispatch _ | .visit | .handlerReturns | .leave | .endLoop | .reloadAll => isTrue trivial

/-- Every loop so far has visited what was loaded at its start, each state once and in the order of their
loading, up to where it is or to where its dispatcher has left it. -/
structure Sound (s : State) : Prop where
  defined : s.undefined = false
  active : ∀ l ∈ s.loops, l.range.visited <+: l.range.start ∧ l.range.start.Nodup
  finished : ∀ l left, (l, left) ∈ s.finished → l.range.start.Nodup ∧
    if left then l.dispatcher.leaves = true ∧ l.range.visited <+: l.range.start
    else l.range.visited = l.range.start

structure Invariant (s : State) : Prop where
  sound : Sound s
  tracks : ∀ l ∈ s.loops, l.range.Tracks s.lua
  fresh : ∀ L ∈ s.lua.items, L < s.nextState
  nodup : s.lua.items.Nodup

section Steps
variable {grow : ℕ → ℕ} {s s' : State}

theorem invariant_initial : Invariant initial where
  sound := ⟨rfl, by simp [initial], by simp [initial]⟩
  tracks := by simp [initial]
  fresh := by simp [initial, Storage.empty]
  nodup := List.nodup_nil

theorem use_eq {l : ActiveLoop} {loops : List ActiveLoop} (h : Invariant s) (hl : s.loops = l :: loops)
    (next : Option State) : s.use l next = next := by
  have htracks := h.tracks l (by simp [hl])
  exact if_pos htracks.usable

theorem invariant_move {l l' : ActiveLoop} {loops : List ActiveLoop} (h : Invariant s)
    (hl : s.loops = l :: loops) (hstart : l'.range.start = l.range.start) (ht : l'.range.Tracks s.lua) :
    Invariant { s with loops := l' :: loops } where
  sound := by
    refine ⟨h.sound.defined, ?_, h.sound.finished⟩
    intro x hx
    rcases List.mem_cons.mp hx with rfl | hx
    · refine ⟨ht.visited_prefix, ?_⟩
      rw [hstart]
      exact (h.sound.active l (by simp [hl])).2
    · exact h.sound.active x (by simp [hl, hx])
  tracks := by
    intro x hx
    rcases List.mem_cons.mp hx with rfl | hx
    · exact ht
    · exact h.tracks x (by simp [hl, hx])
  fresh := h.fresh
  nodup := h.nodup

theorem invariant_finish {l : ActiveLoop} {loops : List ActiveLoop} (left : Bool) (h : Invariant s)
    (hl : s.loops = l :: loops)
    (hvisited : if left then l.dispatcher.leaves = true ∧ l.range.visited <+: l.range.start
      else l.range.visited = l.range.start) :
    Invariant { s with loops := loops, finished := (l, left) :: s.finished } where
  sound := by
    refine ⟨h.sound.defined, fun x hx => h.sound.active x (by simp [hl, hx]), ?_⟩
    intro x b hx
    rcases List.mem_cons.mp hx with hx | hx
    · obtain ⟨rfl, rfl⟩ := Prod.mk.inj hx
      exact ⟨(h.sound.active x (by simp [hl])).2, hvisited⟩
    · exact h.sound.finished x b hx
  tracks := fun x hx => h.tracks x (by simp [hl, hx])
  fresh := h.fresh
  nodup := h.nodup

theorem invariant_dispatch (h : Invariant s) (d : Dispatcher) :
    Invariant { s with loops := ⟨d, .begin s.lua⟩ :: s.loops } where
  sound := by
    refine ⟨h.sound.defined, ?_, h.sound.finished⟩
    intro l hl
    rcases List.mem_cons.mp hl with rfl | hl
    · exact ⟨List.nil_prefix, h.nodup⟩
    · exact h.sound.active l hl
  tracks := by
    intro l hl
    rcases List.mem_cons.mp hl with rfl | hl
    · exact RangeLoop.tracks_begin
    · exact h.tracks l hl
  fresh := h.fresh
  nodup := h.nodup

theorem invariant_loadLua (h : Invariant s)
    (hroom : s.loops = [] ∨ s.lua.items.length < s.lua.capacity) :
    Invariant { s with lua := s.lua.pushBack grow s.nextState, nextState := s.nextState + 1 } where
  sound := ⟨h.sound.defined, h.sound.active, h.sound.finished⟩
  tracks := by
    intro l hl
    rcases hroom with hnone | hroom
    · simp [hnone] at hl
    · exact (h.tracks l hl).pushBack grow s.nextState hroom
  fresh := by
    intro L hL
    simp only [Storage.pushBack_items] at hL
    exact lt_of_mem_append_newest h.fresh L hL
  nodup := by
    simp only [Storage.pushBack_items]
    exact nodup_append_newest h.nodup h.fresh

theorem invariant_shrink (lua : Storage StateId) (h : Invariant s) (hnone : s.loops = [])
    (hsub : lua.items.Sublist s.lua.items) : Invariant { s with lua := lua } where
  sound := ⟨h.sound.defined, h.sound.active, h.sound.finished⟩
  tracks := by simp [hnone]
  fresh := fun L hL => h.fresh L (hsub.subset hL)
  nodup := h.nodup.sublist hsub

theorem invariant_step {a : Act} (h : Invariant s) (ha : Steady s a) (hs : s.step grow a = some s') :
    Invariant s' := by
  have hdefined : ¬ s.undefined = true := by simp [h.sound.defined]
  unfold State.step at hs
  rw [if_neg hdefined] at hs
  cases a with
  | dispatch d =>
    dsimp only at hs
    split_ifs at hs
    obtain rfl := Option.some.inj hs
    exact invariant_dispatch h d
  | visit =>
    cases hl : s.loops with
    | nil => simp [hl] at hs
    | cons l loops =>
      simp only [hl] at hs
      split_ifs at hs
      rw [use_eq h hl] at hs
      obtain ⟨r, hr, rfl⟩ := Option.map_eq_some_iff.mp hs
      have htracks := h.tracks l (by simp [hl])
      exact invariant_move h hl (RangeLoop.enter_start hr) (htracks.enter hr)
  | handlerReturns =>
    cases hl : s.loops with
    | nil => simp [hl] at hs
    | cons l loops =>
      simp only [hl] at hs
      split_ifs at hs with hbody
      rw [use_eq h hl] at hs
      obtain rfl := Option.some.inj hs
      have htracks := h.tracks l (by simp [hl])
      exact invariant_move h hl rfl (htracks.advance hbody)
  | leave =>
    cases hl : s.loops with
    | nil => simp [hl] at hs
    | cons l loops =>
      simp only [hl] at hs
      split_ifs at hs with hc
      obtain rfl := Option.some.inj hs
      have htracks := h.tracks l (by simp [hl])
      exact invariant_finish true h hl ⟨hc.2, htracks.visited_prefix⟩
  | endLoop =>
    cases hl : s.loops with
    | nil => simp [hl] at hs
    | cons l loops =>
      simp only [hl] at hs
      rw [use_eq h hl] at hs
      split_ifs at hs with hbody hend
      obtain rfl := Option.some.inj hs
      have htracks := h.tracks l (by simp [hl])
      exact invariant_finish false h hl (htracks.finished (by simpa using hbody) hend)
  | loadLua =>
    dsimp only at hs
    split_ifs at hs
    obtain rfl := Option.some.inj hs
    exact invariant_loadLua h ha
  | reloadAll =>
    cases hl : s.loops with
    | cons l loops => simp [hl] at hs
    | nil =>
      simp only [hl] at hs
      obtain rfl := Option.some.inj hs
      have hclosed := invariant_shrink s.lua.clear h hl (List.nil_sublist _)
      rwa [hl] at hclosed

/-- A step that is not steady ends the use of the iterators that the loops hold. -/
theorem moved_of_unsteady {a : Act} (hdefined : ¬ s.undefined = true) (ha : ¬ Steady s a)
    (hs : s.step grow a = some s') :
    ∃ l loops, s'.loops = l :: loops ∧ s.loops = l :: loops ∧ l.range.inBody = true ∧
      s'.lua.generation = s.lua.generation + 1 ∧ s'.undefined = s.undefined := by
  unfold State.step at hs
  rw [if_neg hdefined] at hs
  cases a with
  | loadLua =>
    obtain ⟨hloops, hfull⟩ := not_or.mp ha
    obtain ⟨l, loops, hl⟩ := List.exists_cons_of_ne_nil hloops
    dsimp only at hs
    split_ifs at hs with hrunning
    obtain rfl := Option.some.inj hs
    refine ⟨l, loops, hl, hl, hrunning l (by simp [hl]), ?_, rfl⟩
    exact (s.lua.pushBack_generation grow s.nextState).trans (if_neg hfull)
  | dispatch | visit | handlerReturns | leave | endLoop | reloadAll => exact absurd trivial ha

/-- After such a step the handler's loop goes on with an iterator of the old storage. -/
theorem undefined_of_unsteady {a : Act} (h : Invariant s) (ha : ¬ Steady s a)
    (hs : s.step grow a = some s') :
    ∃ s'', s'.step grow .handlerReturns = some s'' ∧ s''.undefined = true := by
  have hdefined : ¬ s.undefined = true := by simp [h.sound.defined]
  obtain ⟨l, loops, hl', hl, hbody, hgen, hkept⟩ := moved_of_unsteady hdefined ha hs
  have htracks := h.tracks l (by simp [hl])
  have hmoved : ¬ l.range.Usable s'.lua := htracks.not_usable_of_moved hgen
  refine ⟨{ s' with undefined := true }, ?_, rfl⟩
  unfold State.step
  rw [hkept, if_neg hdefined, hl']
  simp only [hbody, if_true, State.use, if_neg hmoved]
  rw [hl']

theorem reaches_invariant (hr : (system grow).Reaches Steady s) : Invariant s := by
  refine hr.invariant ?_ fun s a s' h ha hs => invariant_step h ha hs
  rintro s rfl
  exact invariant_initial

end Steps

/-! ## Loads during a dispatch -/

variable (grow : ℕ → ℕ)

/-- **Dispatch and loads.** As long as the loads of handlers find room, every loop visits the states that were
loaded at its start, each once and in order, and uses no iterator that is no longer valid. The first step that is different makes the loop of the handler use one. -/
theorem dispatch_visits_all :
    (∀ s, (system grow).Reaches Steady s → Sound s) ∧
      ∀ s a s', (system grow).Reaches Steady s → ¬ Steady s a → s.step grow a = some s' →
        ∃ s'', s'.step grow .handlerReturns = some s'' ∧ ¬ Sound s'' := by
  constructor
  · intro s hr
    exact (reaches_invariant hr).sound
  · intro s a s' hr ha hs
    obtain ⟨s'', hs'', hundefined⟩ := undefined_of_unsteady (reaches_invariant hr) ha hs
    refine ⟨s'', hs'', fun hsound => ?_⟩
    rw [hsound.defined] at hundefined
    cases hundefined

/-- The second plugin finds room in a vector for two, the third does not. -/
theorem dispatch_visits_all_sample :
    ∃ s s' s'', Sound s ∧ s.lua.items = [0, 1] ∧ State.step (fun _ => 2) s .loadLua = some s' ∧
      State.step (fun _ => 2) s' .handlerReturns = some s'' ∧ ¬ Sound s'' := by
  obtain ⟨hsound, hbreaks⟩ := dispatch_visits_all fun _ => 2
  have hstart : (system fun _ => 2).Reaches Steady initial := .start rfl
  have hrun := hstart.exec [.loadLua, .dispatch (.event .think), .visit, .loadLua, .handlerReturns, .endLoop,
      .dispatch (.event .think), .visit] (by decide) rfl
  obtain ⟨s'', hs'', hunsound⟩ := hbreaks _ .loadLua _ hrun (by decide) rfl
  exact ⟨_, _, s'', hsound _ hrun, rfl, rfl, hs'', hunsound⟩

/-- One plugin is loaded, and its `OnThink` loads another; the capacity grows by a half. -/
theorem load_from_handler_fails :
    ¬ ∀ s, (system fun capacity => capacity + capacity / 2).Reaches System.anyStep s → Sound s := by
  intro h
  have hstart : (system fun capacity => capacity + capacity / 2).Reaches System.anyStep initial :=
    .start rfl
  have hrun := hstart.exec [.loadLua, .dispatch (.event .think), .visit, .loadLua, .handlerReturns]
    (System.along_anyStep _ _) rfl
  have hdefined := (h _ hrun).defined
  cases hdefined

end LuaTT.DispatchLoops
