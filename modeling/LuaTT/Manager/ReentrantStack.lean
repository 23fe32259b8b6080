import LuaTT.Manager.ReentrantFrames

/-! Which dispatches leave the stacks of the plugin states as they were, with all that happens inside of
them. Dispatchers without a result leave the value of `OnError` behind when a hook raises and `OnError` is no
function; the others, and the callbacks into tables, clear the whole frame of the state they call. -/
namespace LuaTT.Reentrancy
open Lua LState Dispatch
open ScriptCallbacks (Callback)
set_option autoImplicit false

variable {M : Type} (p : Program M)

/-! ## The contract -/

/-- All plugin states have the stacks they had before. -/
def Record.Neutral (r : Record M) : Prop :=
  ∀ i ∈ r.before.lua, (r.after.state i).stack = (r.before.state i).stack

/-- The hook has raised, and when it was looked up the global `OnError` was no function. -/
def Visit.Unhandled (v : Visit M) : Prop :=
  ∃ K, v.outcome = some (.error K) ∧ (onError p.toCode K.mem).isfunction = false

/-- The states that the dispatcher of the record looks at let it leave the stacks alone. -/
def Record.Spared (r : Record M) : Prop :=
  match r.act with
  | .event e =>
    match e with
    | .chat .. | .radio .. | .refill .. | .purchase2 .. | .stockDamage .. | .ttDamage .. | .daSuicide ..
    | .daRefill .. | .daTeamChangeRequest .. | .conAc .. | .daConnectionRequest .. | .daDamageRequest ..
    | .generic .. => ∀ v ∈ r.visits, Defines p.toCode e.hook v.state → v.state.stack = []
    | .purchase purchaser .. => ∀ v ∈ r.visits, ¬ v.Unhandled p ∧
        (purchaser = 0 → ¬ Defines p.toCode e.hook v.state)
    | .invoke .. => ∀ v ∈ r.visits, Defines p.toCode e.hook v.state ∧ ¬ v.Unhandled p
    | _ => ∀ v ∈ r.visits, ¬ v.Unhandled p
  | .chatCommand func .. => ∀ v ∈ r.visits, Defines p.toCode func v.state → v.state.stack = []
  | .callback c i uRef => i ∈ r.before.lua → c.skipped = true ∨
      (p.refs (r.before.state i).mem uRef).istable = true ∧ (r.before.state i).stack = []
  | .load .. => True

/-! ## What is kept -/

/-- The stacks are the same but for those of some states. -/
structure KeptBut (is : List ℕ) (v w : World M) : Prop where
  lua : v.lua ⊆ w.lua
  stack : ∀ i ∈ v.lua, i ∉ is → (w.state i).stack = (v.state i).stack

namespace KeptBut
variable {is js : List ℕ} {u v w : World M}

theorem refl : KeptBut is w w := ⟨List.Subset.refl _, fun _ _ _ => rfl⟩

theorem trans (h : KeptBut is u v) (h' : KeptBut is v w) : KeptBut is u w :=
  ⟨List.Subset.trans h.lua h'.lua, fun i hi hne => (h'.stack i (h.lua hi) hne).trans (h.stack i hi hne)⟩

theorem mono (h : KeptBut is v w) (hsub : is ⊆ js) : KeptBut js v w :=
  ⟨h.lua, fun i hi hne => h.stack i hi fun his => hne (hsub his)⟩

theorem modify (h : KeptBut is v w) {i : ℕ} (hi : i ∈ is) (f : LState M → LState M) :
    KeptBut is v (w.modify i f) := by
  refine ⟨h.lua, fun j hj hne => ?_⟩
  have hji : j ≠ i := fun hji => hne (hji ▸ hi)
  rw [World.modify_state_of_ne _ _ hji]
  exact h.stack j hj hne

end KeptBut

/-- What the host does meanwhile takes no state out, and keeps the stacks if each of its dispatches does. -/
structure Sound (perf : Act M → World M → Result M Verdict) : Prop where
  lua (a : Act M) (w : World M) : w.lua ⊆ (perf a w).world.lua
  kept (a : Act M) (w : World M) (h : ∀ r ∈ (perf a w).records, r.Neutral) (i : ℕ) (hi : i ∈ w.lua) :
    ((perf a w).world.state i).stack = (w.state i).stack

section Sound
variable {perf : Act M → World M → Result M Verdict} (hs : Sound perf)
include hs

theorem performAll_kept (as : List (Act M)) (w : World M)
    (hn : ∀ r ∈ (performAll perf as w).2, r.Neutral) : KeptBut [] w (performAll perf as w).1 := by
  induction as generalizing w with
  | nil => exact .refl
  | cons a as ih =>
    obtain ⟨hfirst, hrest⟩ := List.forall_mem_append.mp hn
    have hact : KeptBut [] w (perf a w).world := ⟨hs.lua a w, fun i hi _ => hs.kept a w hfirst i hi⟩
    exact hact.trans (ih _ hrest)

theorem play_kept (i : ℕ) (f : Play M) (w : World M) (hn : ∀ r ∈ (f.run perf i w).records, r.Neutral) :
    KeptBut [] w (f.run perf i w).world := by
  -- the frame of the state itself is put back after every act
  induction f generalizing w with
  | done mem result =>
    refine ⟨List.Subset.refl _, fun j _ _ => ?_⟩
    by_cases hji : j = i
    · rw [hji]
      exact play_stack i (.done mem result) w
    · exact congrArg stack (World.modify_state_of_ne w (fun L => { L with mem := mem }) hji)
  | act mem frame below a k ih =>
    obtain ⟨hfirst, hrest⟩ := List.forall_mem_append.mp hn
    generalize hv : w.put i { w.state i with mem := mem, stack := frame, below := below } = v at hfirst hrest
    have hlua : w.lua ⊆ (perf a v).world.lua := by
      have hsub := hs.lua a v
      rwa [← hv] at hsub ⊢
    have hback : KeptBut [] w ((perf a v).world.modify i fun L =>
        { L with stack := (w.state i).stack, below := (w.state i).below }) := by
      refine ⟨hlua, fun j hj _ => ?_⟩
      by_cases hji : j = i
      · rw [hji, World.modify_state_self]
      · have hjv : j ∈ v.lua := hv ▸ hj
        rw [World.modify_state_of_ne _ _ hji, hs.kept a v hfirst j hjv, ← hv, World.put_state_of_ne _ _ hji]
    rw [Play.run, hv]
    exact hback.trans (ih _ _ _ hrest)

variable {i : ℕ} {w : World M} {s args : List LuaValue} {f e : LuaValue}

theorem pcall_kept (nargs : ℕ) (nresults : Option ℕ)
    (hn : ∀ r ∈ (pcall p perf i nargs nresults w).records, r.Neutral) :
    KeptBut [i] w (pcall p perf i nargs nresults w).world := by
  have hplay := play_kept hs i _ w hn
  unfold pcall
  dsimp only
  exact (hplay.mono (List.nil_subset _)).modify (List.mem_singleton_self i) _

theorem report_kept (i : ℕ) (w : World M) (hn : ∀ r ∈ (report p perf i w).records, r.Neutral) :
    KeptBut [i] w (report p perf i w).world ∧
      (i ∈ w.lua → (report p perf i w).value.stack = ((w.state i).pop 1).stack) := by
  have hmem := List.mem_singleton_self i
  unfold report at hn ⊢
  dsimp only at hn ⊢
  generalize hv : (w.modify i fun L => { L.pop 1 with errors := (w.state i).top.tostring :: L.errors }) = v
    at hn ⊢
  have hvs : (v.state i).stack = ((w.state i).pop 1).stack := by rw [← hv, World.modify_state_self]
  have hwv : KeptBut [i] w v := hv ▸ KeptBut.refl.modify hmem _
  have hprinted : (∀ r ∈ (performAll perf (p.printed v (w.state i).top.tostring) v).2, r.Neutral) →
      KeptBut [i] w (performAll perf (p.printed v (w.state i).top.tostring) v).1 ∧
        (i ∈ w.lua → ((performAll perf (p.printed v (w.state i).top.tostring) v).1.state i).stack =
          ((w.state i).pop 1).stack) := fun hn => by
    have hkept := performAll_kept hs _ v hn
    exact ⟨hwv.trans (hkept.mono (List.nil_subset _)), fun hi =>
      (hkept.stack i (hwv.lua hi) List.not_mem_nil).trans hvs⟩
  generalize performAll perf (p.printed v (w.state i).top.tostring) v = printed at hn hprinted ⊢
  by_cases hf : ((printed.1.modify i fun L => L.getglobal p.toCode (bytes "OnError")).state i).top.isfunction
  · rw [if_pos hf] at hn ⊢
    split at hn
    all_goals
      rename_i hr
      obtain ⟨hfirst, hrest⟩ := List.forall_mem_append.mp hn
      obtain ⟨hkept, hheard⟩ := hprinted hfirst
      have hpushed := (hkept.modify hmem fun L => L.getglobal p.toCode (bytes "OnError")).modify hmem
        fun L => L.push (ofCString (w.state i).top.tostring)
      have hcall := hpushed.trans (pcall_kept p hs 1 (some 0) hrest)
      dsimp only
    · exact ⟨hcall, hheard⟩
    · exact ⟨hcall.modify hmem fun L => L.pop 1, hheard⟩
  · rw [if_neg hf] at hn ⊢
    obtain ⟨hkept, hheard⟩ := hprinted hn
    exact ⟨hkept.modify hmem fun L => L.getglobal p.toCode (bytes "OnError"), hheard⟩

theorem callHook_kept (nargs : ℕ) (nresults : Option ℕ)
    (hn : ∀ r ∈ (callHook p perf i nargs nresults w).records, r.Neutral) :
    KeptBut [i] w (callHook p perf i nargs nresults w).world := by
  unfold callHook at hn ⊢
  dsimp only at hn ⊢
  split at hn
  · exact pcall_kept p hs nargs nresults hn
  · obtain ⟨hfirst, hrest⟩ := List.forall_mem_append.mp hn
    exact (pcall_kept p hs nargs nresults hfirst).trans (report_kept p hs i _ hrest).1

/-- Where the call of a hook is reported, `OnError` is looked up on the frame from before. -/
theorem callHook_heard (nresults : Option ℕ) (hi : i ∈ w.lua)
    (hstack : (w.state i).stack = s ++ [f] ++ args)
    (hn : ∀ r ∈ (callHook p perf i args.length nresults w).records, r.Neutral) {K : LState M}
    (hK : (callHook p perf i args.length nresults w).value = .error K) : K.stack = s := by
  have hcalled := pcall_stack p perf nresults hstack
  unfold callHook at hn hK
  dsimp only at hn hK
  cases hr : (pcall p perf i args.length nresults w).value with
  | ok vs =>
    rw [hr] at hK
    cases hK
  | error e =>
    simp only [hr] at hn hK hcalled
    obtain ⟨hfirst, hrest⟩ := List.forall_mem_append.mp hn
    have hkept := pcall_kept p hs _ nresults hfirst
    obtain rfl := Except.error.inj hK
    rw [(report_kept p hs i _ hrest).2 (hkept.lua hi)]
    exact pop_one_stack _ hcalled

/-- A call without a result leaves the frame as it was, unless the hook raises and `OnError` is no function. -/
theorem callHook_stack_iff (L : LState M) (hi : i ∈ w.lua) (hstack : (w.state i).stack = s ++ [f] ++ args)
    (hn : ∀ r ∈ (callHook p perf i args.length (some 0) w).records, r.Neutral) :
    ((callHook p perf i args.length (some 0) w).world.state i).stack = s ↔
      ¬ Visit.Unhandled p ⟨L, some (callHook p perf i args.length (some 0) w).value⟩ := by
  rw [callHook_frame p perf (some 0) hstack]
  cases hr : (callHook p perf i args.length (some 0) w).value with
  | ok vs => exact iff_of_true (by simp [adjustResults]) (by rintro ⟨K, hK, _⟩; cases hK)
  | error K =>
    dsimp only
    rw [callHook_heard p hs (some 0) hi hstack hn hr]
    simp only [Visit.Unhandled, Option.some.injEq, Except.error.injEq, exists_eq_left', leftover]
    by_cases hf : (onError p.toCode K.mem).isfunction <;> simp [hf]

/-! ## Dispatchers -/

variable {β : Type} (d : Dispatcher M β)

/-- The dispatcher leaves the stack of the state alone. -/
def Dispatcher.Spares (v : Visit M) : Prop :=
  if Defines p.toCode d.hook v.state then
    d.quits = false ∧ if d.clears then v.state.stack = [] else ¬ v.Unhandled p
  else d.keeps = false

theorem turn_kept (hd : d.clears = false → d.nresults = some 0) (hi : i ∈ w.lua) (ret : β)
    (hn : ∀ r ∈ (turn p perf d i w ret).records, r.Neutral) :
    KeptBut [i] w (turn p perf d i w ret).world ∧
      (((turn p perf d i w ret).world.state i).stack = (w.state i).stack ↔
        d.Spares p (turn p perf d i w ret).visit) := by
  have hmem := List.mem_singleton_self i
  have hglobal : KeptBut [i] w (w.modify i fun L => L.getglobal p.toCode d.hook) := KeptBut.refl.modify hmem _
  have hpushed := hglobal.modify hmem fun L => L.pushAll (d.args ret)
  have hframe : (((w.modify i fun L => L.getglobal p.toCode d.hook).modify i
      fun L => L.pushAll (d.args ret)).state i).stack =
      (w.state i).stack ++ [p.getglobal (w.state i).mem d.hook] ++ d.args ret := by
    rw [World.modify_state_self, World.modify_state_self]
    rfl
  unfold turn at hn ⊢
  dsimp only [Dispatcher.Spares] at hn ⊢
  rw [World.modify_state_self, getglobal_top] at hn ⊢
  by_cases hdef : Defines p.toCode d.hook (w.state i)
  · rw [if_pos hdef] at hn ⊢
    cases hq : d.quits with
    | true =>
      simp only [if_true, if_pos hdef, World.modify_state_self, getglobal_stack]
      exact ⟨hglobal, iff_of_false (by simp) (by simp)⟩
    | false =>
      simp only [hq, Bool.false_eq_true, if_false] at hn ⊢
      have hall := hpushed.trans (callHook_kept p hs (d.args ret).length d.nresults hn)
      simp only [if_pos hdef, true_and]
      cases hc : d.clears with
      | true =>
        simp only [if_true, World.modify_state_self, pop_gettop_stack]
        exact ⟨hall.modify hmem fun K => K.pop K.gettop, eq_comm⟩
      | false =>
        rw [hd hc] at hn hall ⊢
        simp only [Bool.false_eq_true, if_false]
        exact ⟨hall, callHook_stack_iff p hs (w.state i) (hpushed.lua hi) hframe hn⟩
  · rw [if_neg hdef, if_neg hdef]
    cases hk : d.keeps with
    | true =>
      simp only [if_true, World.modify_state_self, getglobal_stack]
      exact ⟨hglobal, iff_of_false (by simp) (by simp)⟩
    | false =>
      simp only [Bool.false_eq_true, if_false, World.modify_state_self]
      refine ⟨hglobal.modify hmem fun L => L.setglobal p.toCode d.hook, iff_of_true ?_ trivial⟩
      exact setglobal_stack p.toCode (w.state i) d.hook _

/-- The states of the loop keep their stacks exactly if the dispatcher spares those it visits; the others
keep theirs. -/
theorem askAll_kept (hd : d.clears = false → d.nresults = some 0) {is : List ℕ} (hnodup : is.Nodup)
    (hsub : is ⊆ w.lua) (ret : β) (hn : ∀ r ∈ (askAll p perf d is w ret).records, r.Neutral) :
    KeptBut is w (askAll p perf d is w ret).world ∧
      ((∀ i ∈ is, ((askAll p perf d is w ret).world.state i).stack = (w.state i).stack) ↔
        ∀ v ∈ (askAll p perf d is w ret).visits, d.Spares p v) := by
  induction is generalizing w ret with
  | nil => exact ⟨.refl, iff_of_true (fun i hi => absurd hi List.not_mem_nil) fun v hv =>
      absurd hv List.not_mem_nil⟩
  | cons i is ih =>
    obtain ⟨hi, hsub⟩ := List.cons_subset.mp hsub
    obtain ⟨hnot, hnodup⟩ := List.nodup_cons.mp hnodup
    have hone : [i] ⊆ i :: is := List.cons_subset_cons i (List.nil_subset is)
    unfold askAll at hn ⊢
    dsimp only at hn ⊢
    generalize ht : turn p perf d i w ret = t at hn ⊢
    have hturn : (∀ r ∈ t.records, r.Neutral) → KeptBut [i] w t.world ∧
        ((t.world.state i).stack = (w.state i).stack ↔ d.Spares p t.visit) := by
      rw [← ht]
      exact turn_kept p hs d hd hi ret
    have hother : ∀ {v : World M}, KeptBut [i] w v → ∀ j ∈ is, (v.state j).stack = (w.state j).stack := by
      intro v hv j hj
      refine hv.stack j (hsub hj) fun hji => hnot ?_
      rwa [← List.mem_singleton.mp hji]
    split_ifs at hn ⊢
    · obtain ⟨hfirst, hrest⟩ := List.forall_mem_append.mp hn
      obtain ⟨hkept, hspares⟩ := hturn hfirst
      obtain ⟨hloop, hiff⟩ := ih hnodup (List.Subset.trans hsub hkept.lua) t.value hrest
      refine ⟨(hkept.mono hone).trans (hloop.mono (List.subset_cons_self i is)), ?_⟩
      have hhead := hloop.stack i (hkept.lua hi) hnot
      rw [List.forall_mem_cons, List.forall_mem_cons, hhead, hspares, ← hiff]
      refine and_congr_right fun _ => forall₂_congr fun j hj => ?_
      rw [hother hkept j hj]
    · obtain ⟨hkept, hspares⟩ := hturn hn
      refine ⟨hkept.mono hone, ?_⟩
      rw [List.forall_mem_cons, List.forall_mem_singleton, hspares]
      exact and_iff_left fun j hj => hother hkept j hj

/-! ## What the host does -/

theorem ask_kept (hd : d.clears = false → d.nresults = some 0) (start : β) (v : β → Verdict) {is : List ℕ}
    (his : is = [] ∨ is = w.lua) (hn : ∀ r ∈ (ask p perf d start v is w).records, r.Neutral) :
    (∀ i ∈ w.lua, ((ask p perf d start v is w).world.state i).stack = (w.state i).stack) ↔
      ∀ x ∈ (ask p perf d start v is w).visits, d.Spares p x := by
  rcases his with rfl | rfl
  · exact iff_of_true (fun _ _ => rfl) fun v hv => absurd hv List.not_mem_nil
  · exact (askAll_kept p hs d hd w.nodup (List.Subset.refl _) start hn).2

theorem callBack_kept (c : Callback) (uRef : ℤ)
    (hn : ∀ r ∈ (callBack p perf c i uRef w).records, r.Neutral) :
    KeptBut [i] w (callBack p perf c i uRef w).world := by
  have hmem := List.mem_singleton_self i
  have htable : KeptBut [i] w (w.modify i fun L => L.push (p.refs L.mem uRef)) := KeptBut.refl.modify hmem _
  have hfield := htable.modify hmem fun L => L.push (p.getfield L.mem L.top c.field)
  have hpushed := hfield.modify hmem (pushArgs p c)
  unfold callBack at hn ⊢
  dsimp only at hn ⊢
  split_ifs at hn ⊢
  · exact .refl
  · exact (hpushed.trans (callHook_kept p hs _ _ hn)).modify hmem fun L => L.pop (-1)
  · exact hfield.modify hmem fun L => L.pop (-1)
  · exact htable

end Sound

/-- A callback leaves its frame empty, or with what is no table. -/
theorem callBack_frame (perf : Act M → World M → Result M Verdict) (c : Callback) (i : ℕ) (uRef : ℤ)
    (w : World M) (hc : c.skipped = false) :
    ((callBack p perf c i uRef w).world.state i).stack =
      if (p.refs (w.state i).mem uRef).istable then []
      else (w.state i).stack ++ [p.refs (w.state i).mem uRef] := by
  unfold callBack
  rw [if_neg (by simp [hc])]
  simp only [World.modify_state_self, top_push]
  split_ifs <;> simp

/-! ## All dispatchers -/

/-- What has been called is a function. -/
theorem askAll_defined {β : Type} (perf : Act M → World M → Result M Verdict) (d : Dispatcher M β)
    (is : List ℕ) (w : World M) (ret : β) :
    ∀ v ∈ (askAll p perf d is w ret).visits, v.Unhandled p → Defines p.toCode d.hook v.state := by
  have hturn : ∀ i w ret, (turn p perf d i w ret).visit.Unhandled p →
      Defines p.toCode d.hook (turn p perf d i w ret).visit.state := by
    rintro i w ret ⟨K, hK, _⟩
    unfold turn at hK ⊢
    dsimp only at hK ⊢
    rw [World.modify_state_self, getglobal_top] at hK ⊢
    by_cases hdef : Defines p.toCode d.hook (w.state i)
    · split_ifs <;> exact hdef
    · rw [if_neg hdef] at hK
      cases hK
  induction is generalizing w ret with
  | nil => exact fun v hv => absurd hv List.not_mem_nil
  | cons i is ih =>
    unfold askAll
    dsimp only
    split_ifs
    · exact List.forall_mem_cons.mpr ⟨hturn i w ret, ih _ _⟩
    · exact List.forall_mem_singleton.mpr (hturn i w ret)

theorem ask_defined {β : Type} (perf : Act M → World M → Result M Verdict) (d : Dispatcher M β) (start : β)
    (v : β → Verdict) (is : List ℕ) (w : World M) :
    ∀ x ∈ (ask p perf d start v is w).visits, x.Unhandled p → Defines p.toCode d.hook x.state :=
  askAll_defined p perf d is w start

section Families
variable {name : Bytes} {args : List LuaValue} {v : Visit M}

theorem clears_or {β : Type} {d : Dispatcher M β} (hc : d.clears = true) (h : d.clears = false) :
    d.nresults = some 0 := by
  rw [hc] at h
  cases h

theorem spares_of_clears {β : Type} {d : Dispatcher M β} (hc : d.clears = true) (hq : d.quits = false)
    (hk : d.keeps = false) :
    d.Spares p v ↔ (Defines p.toCode d.hook v.state → v.state.stack = []) := by
  unfold Dispatcher.Spares
  simp only [hc, if_true]
  split_ifs with hd
  · exact ⟨fun h _ => h.2, fun h => ⟨hq, h hd⟩⟩
  · exact iff_of_true hk fun h => absurd h hd

theorem spares_of_not_clears {d : Dispatcher M Unit} (hc : d.clears = false) :
    d.Spares p v ↔ (Defines p.toCode d.hook v.state → d.quits = false ∧ ¬ v.Unhandled p) ∧
      (¬ Defines p.toCode d.hook v.state → d.keeps = false) := by
  unfold Dispatcher.Spares
  simp only [hc, Bool.false_eq_true, if_false]
  split_ifs with hd
  · exact ⟨fun h => ⟨fun _ => h, fun hn => absurd hd hn⟩, fun h => h.1 hd⟩
  · exact ⟨fun h => ⟨fun hn => absurd hn hd, fun _ => h⟩, fun h => h.2 hd⟩

theorem spares_notify (hd : v.Unhandled p → Defines p.toCode name v.state) :
    (notify M name args).Spares p v ↔ ¬ v.Unhandled p :=
  (spares_of_not_clears p rfl).trans
    ⟨fun h hu => (h.1 (hd hu)).2 hu, fun h => ⟨fun _ => ⟨rfl, h⟩, fun _ => rfl⟩⟩

theorem spares_purchase (hd : v.Unhandled p → Defines p.toCode name v.state) (purchaser : ℤ) :
    ({ notify M name args with quits := purchaser = 0 } : Dispatcher M Unit).Spares p v ↔
      ¬ v.Unhandled p ∧ (purchaser = 0 → ¬ Defines p.toCode name v.state) := by
  refine (spares_of_not_clears p rfl).trans ⟨fun h => ⟨fun hu => (h.1 (hd hu)).2 hu, fun hz hf => ?_⟩, fun h => ?_⟩
  · exact of_decide_eq_false (h.1 hf).1 hz
  · exact ⟨fun hf => ⟨decide_eq_false fun hz => h.2 hz hf, h.1⟩, fun _ => rfl⟩

theorem spares_invoke :
    ({ notify M name args with keeps := true } : Dispatcher M Unit).Spares p v ↔
      Defines p.toCode name v.state ∧ ¬ v.Unhandled p := by
  refine (spares_of_not_clears p rfl).trans ⟨fun h => ?_, fun h => ⟨fun _ => ⟨rfl, h.2⟩, fun hf => absurd h.1 hf⟩⟩
  have hf : Defines p.toCode name v.state := by
    by_contra hf
    cases h.2 hf
  exact ⟨hf, (h.1 hf).2⟩

end Families

/-- What a round leaves in the records. -/
def Round.record (r : Round M Verdict) (a : Act M) (w : World M) : Record M := ⟨a, w, r.visits, r.world, r.value⟩

theorem asked (e : Event) (w : World M) :
    (if e.skipped then [] else w.lua) = [] ∨ (if e.skipped then [] else w.lua) = w.lua := by
  split_ifs
  · exact .inl rfl
  · exact .inr rfl

section Sound
variable {perf : Act M → World M → Result M Verdict} (hs : Sound perf)
include hs

theorem raise_neutral (e : Event) (w : World M) (hn : ∀ r ∈ (raise p perf e w).records, r.Neutral) :
    ((raise p perf e w).record (.event e) w).Neutral ↔
      ((raise p perf e w).record (.event e) w).Spared p := by
  have his := asked e w
  cases e with
  | chat | radio | refill | purchase2 | stockDamage | ttDamage | daSuicide | daRefill | daTeamChangeRequest
  | conAc | daConnectionRequest | daDamageRequest | generic =>
    refine (ask_kept p hs _ (clears_or rfl) _ _ his hn).trans (forall₂_congr fun v _ => ?_)
    exact spares_of_clears p rfl rfl rfl
  | purchase purchaser =>
    refine (ask_kept p hs _ (fun _ => rfl) _ _ his hn).trans (forall₂_congr fun v hv => ?_)
    exact spares_purchase p (ask_defined p perf _ _ _ _ w v hv) purchaser
  | invoke =>
    refine (ask_kept p hs _ (fun _ => rfl) _ _ his hn).trans (forall₂_congr fun v hv => ?_)
    exact spares_invoke p
  | _ =>
    refine (ask_kept p hs _ (fun _ => rfl) _ _ his hn).trans (forall₂_congr fun v hv => ?_)
    exact spares_notify p (ask_defined p perf _ _ _ _ w v hv)

theorem callBack_neutral (c : Callback) (i : ℕ) (uRef : ℤ) (w : World M)
    (hn : ∀ r ∈ (callBack p perf c i uRef w).records, r.Neutral) :
    ((callBack p perf c i uRef w).record (.callback c i uRef) w).Neutral ↔
      ((callBack p perf c i uRef w).record (.callback c i uRef) w).Spared p := by
  have hkept := callBack_kept p hs c uRef hn
  cases hc : c.skipped with
  | true =>
    have hsame : callBack p perf c i uRef w = ⟨w, answer c false, [], []⟩ := if_pos hc
    rw [hsame]
    exact iff_of_true (fun _ _ => rfl) fun _ => .inl hc
  | false =>
    have hown : i ∈ w.lua → (((callBack p perf c i uRef w).world.state i).stack = (w.state i).stack ↔
        (p.refs (w.state i).mem uRef).istable = true ∧ (w.state i).stack = []) := fun _ => by
      rw [callBack_frame p perf c i uRef w hc]
      by_cases ht : (p.refs (w.state i).mem uRef).istable
      · rw [if_pos ht]
        exact ⟨fun h => ⟨ht, h.symm⟩, fun h => h.2.symm⟩
      · rw [if_neg ht]
        exact iff_of_false (by simp) fun h => ht h.1
    constructor
    · exact fun h hi => .inr ((hown hi).mp (h i hi))
    · intro h j hj
      by_cases hji : j = i
      · subst hji
        exact (hown hj).mpr ((h hj).resolve_left (by simp [hc]))
      · exact hkept.stack j hj (by simpa using hji)

theorem execute_neutral (a : Act M) (w : World M) (hn : ∀ r ∈ (execute p perf a w).records, r.Neutral) :
    ((execute p perf a w).record a w).Neutral ↔ ((execute p perf a w).record a w).Spared p := by
  cases a with
  | event e => exact raise_neutral p hs e w hn
  | chatCommand func playerId text chatType =>
    refine (ask_kept p hs _ (clears_or rfl) _ _ (.inr rfl) hn).trans (forall₂_congr fun v _ => ?_)
    exact spares_of_clears p rfl rfl rfl
  | callback c i uRef => exact callBack_neutral p hs c i uRef w hn
  | load i L => exact iff_of_true (fun j hj => congrArg stack (w.load_state i L hj)) trivial

end Sound

/-! ## Runs -/

theorem closed_lua {perf : Act M → World M → Result M Verdict} (h : ∀ a w, w.lua ⊆ (perf a w).world.lua) :
    Closed perf fun v w _ => v.lua ⊆ w.lua where
  put _ _ _ := List.Subset.refl _
  trans huv hvw := List.Subset.trans huv hvw
  perf := h

theorem perform_lua (n : ℕ) (a : Act M) (w : World M) : w.lua ⊆ (perform p n a w).world.lua := by
  induction n generalizing a w with
  | zero => exact List.Subset.refl _
  | succ n ih => exact (closed_lua ih).execute p (fun w i L => w.load_lua i L) a w

theorem sound_perform (n : ℕ) : Sound (perform p n) where
  lua := perform_lua p n
  kept a w h := by
    cases n with
    | zero => exact fun _ _ => rfl
    | succ n => exact h _ (List.mem_append_right _ (List.mem_singleton_self _))

/-- **Stack neutrality.** In all that the host does, from whatever state of the plugins, every dispatch
leaves every plugin's stack as it was if and only if each of them, the inner ones included, is spared: without
a result, no hook raises with an `OnError` that is no function (and no early exit leaves the hook itself);
with a result, each state whose hook is called has an empty frame. -/
theorem dispatches_neutral (n : ℕ) (a : Act M) (w : World M) :
    (∀ r ∈ (perform p n a w).records, r.Neutral) ↔ ∀ r ∈ (perform p n a w).records, r.Spared p := by
  induction n generalizing a w with
  | zero => exact iff_of_true (fun r hr => absurd hr List.not_mem_nil) fun r hr => absurd hr List.not_mem_nil
  | succ n ih =>
    -- what happens inside goes by the depth below
    have hclosed : Closed (perform p n) fun _ _ l => (∀ r ∈ l, r.Neutral) ↔ ∀ r ∈ l, r.Spared p := by
      refine ⟨fun _ _ _ => ?_, fun huv hvw => ?_, ih⟩
      · exact iff_of_true (fun r hr => absurd hr List.not_mem_nil) fun r hr => absurd hr List.not_mem_nil
      · rw [List.forall_mem_append, List.forall_mem_append, huv, hvw]
    have hinner := hclosed.execute p (fun _ _ _ => hclosed.put w 0 (w.state 0)) a w
    have hown := execute_neutral p (sound_perform p n) a w
    have hrecords : (perform p (n + 1) a w).records =
        (execute p (perform p n) a w).records ++ [(execute p (perform p n) a w).record a w] := rfl
    rw [hrecords, List.forall_mem_append, List.forall_mem_append, List.forall_mem_singleton,
      List.forall_mem_singleton, ← hinner]
    exact and_congr_right hown

/-- The hook `OnThink` raises; there is no `OnError`. -/
def faultyProgram : Program Unit where
  getglobal _ name := if name = bytes "OnThink" then .function 0 else .nil
  setglobal _ _ _ := ()
  call _ _ _ := ((), .ok [])
  refs _ _ := .nil
  getfield _ _ _ := .nil
  getmetatable _ _ := .nil
  setmetatable _ _ _ := ()
  play _ _ _ _ := .done () (.error (.string (bytes "fault")))
  printed _ _ := []

def onePlugin : World Unit where
  lua := [0]
  nodup := List.nodup_singleton 0
  state _ := ⟨(), .nil, [], []⟩

/-- A tick leaves the missing `OnError` on the stack. -/
theorem dispatches_leak : ¬ ∀ (n : ℕ) (a : Act Unit) (w : World Unit),
    ∀ r ∈ (perform faultyProgram n a w).records, r.Neutral := by
  intro hall
  have hsame := hall 1 (.event .think) onePlugin _ (List.mem_singleton_self _) 0 (List.mem_singleton_self 0)
  have hleak : ((perform faultyProgram 1 (.event .think) onePlugin).world.state 0).stack = [.nil] := by
    decide
  have hempty : (onePlugin.state 0).stack = [] := rfl
  have hleft := hleak.symm.trans (hsame.trans hempty)
  cases hleft

end LuaTT.Reentrancy
