import LuaTT.Manager.Reentrancy

/-! What the parts of a dispatch leave of the worlds they start from. A call ends on the frame it has begun
on, whatever the host does meanwhile; only the report of an error runs into what a text on the console has
done to it. -/
namespace LuaTT.Reentrancy
open Lua LState Dispatch
open ScriptCallbacks (Callback)
set_option autoImplicit false

variable {M : Type}

/-! ## Worlds -/

namespace World
variable (w : World M) (i j : ℕ) (L : LState M) (f : LState M → LState M)

@[simp] theorem put_lua : (w.put i L).lua = w.lua := rfl

@[simp] theorem put_state_self : (w.put i L).state i = L := by
  simp [put]

theorem put_state_of_ne {i j : ℕ} (h : j ≠ i) : (w.put i L).state j = w.state j := by
  simp [put, h]

theorem put_self : w.put i (w.state i) = w := by
  unfold put
  rw [Function.update_eq_self]

@[simp] theorem modify_lua : (w.modify i f).lua = w.lua := rfl

@[simp] theorem modify_state_self : (w.modify i f).state i = f (w.state i) := w.put_state_self i _

theorem modify_state_of_ne {i j : ℕ} (h : j ≠ i) : (w.modify i f).state j = w.state j :=
  w.put_state_of_ne _ h

theorem load_lua : w.lua ⊆ (w.load i L).lua := by
  unfold load
  split_ifs
  · exact List.Subset.refl _
  · exact List.subset_append_left _ _

theorem load_state {j : ℕ} (hj : j ∈ w.lua) : (w.load i L).state j = w.state j := by
  unfold load
  split_ifs with h
  · rfl
  · have hne : j ≠ i := fun hji => h (hji ▸ hj)
    simp [hne]

end World

variable (p : Program M) {perf : Act M → World M → Result M Verdict}

/-! ## What goes on from world to world -/

/-- A relation between two worlds, and what the host has done from the one to the other, that holds of each
change of a single state and of each act, and goes on. -/
structure Closed (perf : Act M → World M → Result M Verdict)
    (R : World M → World M → List (Record M) → Prop) : Prop where
  put (w : World M) (i : ℕ) (L : LState M) : R w (w.put i L) []
  trans {u v w : World M} {l l' : List (Record M)} : R u v l → R v w l' → R u w (l ++ l')
  perf (a : Act M) (w : World M) : R w (perf a w).world (perf a w).records

namespace Closed
variable {R : World M → World M → List (Record M) → Prop} (h : Closed perf R)
include h

theorem refl (w : World M) : R w w [] := by
  have hput := h.put w 0 (w.state 0)
  rwa [w.put_self] at hput

theorem modify {u v : World M} {l : List (Record M)} (huv : R u v l) (i : ℕ) (f : LState M → LState M) :
    R u (v.modify i f) l := by
  have hput := h.trans huv (h.put v i (f (v.state i)))
  rwa [List.append_nil] at hput

theorem performAll (as : List (Act M)) (w : World M) :
    R w (performAll perf as w).1 (performAll perf as w).2 := by
  induction as generalizing w with
  | nil => exact h.refl w
  | cons a as ih => exact h.trans (h.perf a w) (ih _)

theorem play (i : ℕ) (f : Play M) (w : World M) : R w (f.run perf i w).world (f.run perf i w).records := by
  induction f generalizing w with
  | done mem result => exact h.modify (h.refl w) i fun L => { L with mem := mem }
  | act mem frame below a k ih =>
    have hact := h.trans (h.put w i { w.state i with mem := mem, stack := frame, below := below })
      (h.perf a _)
    exact h.trans (h.modify hact i fun L =>
      { L with stack := (w.state i).stack, below := (w.state i).below }) (ih _ _ _)

theorem pcall (i nargs : ℕ) (nresults : Option ℕ) (w : World M) :
    R w (pcall p perf i nargs nresults w).world (pcall p perf i nargs nresults w).records := by
  unfold Reentrancy.pcall
  dsimp only
  exact h.modify (h.play i _ w) i _

theorem report (i : ℕ) (w : World M) : R w (report p perf i w).world (report p perf i w).records := by
  unfold Reentrancy.report
  dsimp only
  generalize hv : (w.modify i fun L => { L.pop 1 with errors := (w.state i).top.tostring :: L.errors }) = v
  have hpopped : R w v [] := by
    rw [← hv]
    exact h.modify (h.refl w) i _
  have hprinted := h.trans hpopped (h.performAll (p.printed v (w.state i).top.tostring) v)
  have hglobal := h.modify hprinted i fun L => L.getglobal p.toCode (bytes "OnError")
  split_ifs
  · have hpushed := h.modify hglobal i fun L => L.push (ofCString (w.state i).top.tostring)
    have hcall := h.trans hpushed (h.pcall p i 1 (some 0) _)
    split
    · exact hcall
    · exact h.modify hcall i fun L => L.pop 1
  · exact hglobal

theorem callHook (i nargs : ℕ) (nresults : Option ℕ) (w : World M) :
    R w (callHook p perf i nargs nresults w).world (callHook p perf i nargs nresults w).records := by
  unfold Reentrancy.callHook
  dsimp only
  split
  · exact h.pcall p i nargs nresults w
  · exact h.trans (h.pcall p i nargs nresults w) (h.report p i _)

variable {β : Type} (d : Dispatcher M β)

theorem turn (i : ℕ) (w : World M) (ret : β) :
    R w (turn p perf d i w ret).world (turn p perf d i w ret).records := by
  unfold Reentrancy.turn
  dsimp only
  have hglobal := h.modify (h.refl w) i fun L => L.getglobal p.toCode d.hook
  have hpushed := h.modify hglobal i fun L => L.pushAll (d.args ret)
  have hcall := h.trans hpushed (h.callHook p i (d.args ret).length d.nresults _)
  split_ifs
  · exact hglobal
  · exact h.modify hcall i fun K => K.pop K.gettop
  · exact hcall
  · exact hglobal
  · exact h.modify hglobal i fun L => L.setglobal p.toCode d.hook

theorem askAll (is : List ℕ) (w : World M) (ret : β) :
    R w (askAll p perf d is w ret).world (askAll p perf d is w ret).records := by
  induction is generalizing w ret with
  | nil => exact h.refl w
  | cons i is ih =>
    unfold Reentrancy.askAll
    dsimp only
    split_ifs
    · exact h.trans (h.turn p d i w ret) (ih _ _)
    · exact h.turn p d i w ret

theorem callBack (c : Callback) (i : ℕ) (uRef : ℤ) (w : World M) :
    R w (callBack p perf c i uRef w).world (callBack p perf c i uRef w).records := by
  unfold Reentrancy.callBack
  dsimp only
  have htable := h.modify (h.refl w) i fun L => L.push (p.refs L.mem uRef)
  have hfield := h.modify htable i fun L => L.push (p.getfield L.mem L.top c.field)
  have hpushed := h.modify hfield i (pushArgs p c)
  split_ifs
  · exact h.refl w
  · exact h.modify (h.trans hpushed (h.callHook p i (nargs c) (some c.nresults) _)) i fun L => L.pop (-1)
  · exact h.modify hfield i fun L => L.pop (-1)
  · exact htable

theorem ask (start : β) (v : β → Verdict) (is : List ℕ) (w : World M) :
    R w (ask p perf d start v is w).world (ask p perf d start v is w).records := h.askAll p d is w start

theorem raise (e : Event) (w : World M) : R w (raise p perf e w).world (raise p perf e w).records := by
  cases e <;> exact h.ask p _ _ _ _ w

theorem execute (hload : ∀ w i L, R w (World.load w i L) []) (a : Act M) (w : World M) :
    R w (execute p perf a w).world (execute p perf a w).records := by
  cases a with
  | event e => exact h.raise p e w
  | chatCommand func playerId text chatType => exact h.ask p _ _ _ _ w
  | callback c i uRef => exact h.callBack p c i uRef w
  | load i L => exact hload w i L

end Closed

/-! ## The frame of the state itself -/

theorem play_stack (i : ℕ) (f : Play M) (w : World M) :
    ((f.run perf i w).world.state i).stack = (w.state i).stack := by
  induction f generalizing w with
  | done mem result => simp [Play.run]
  | act mem frame below a k ih =>
    rw [Play.run]
    dsimp only
    rw [ih, World.modify_state_self]

theorem play_below (i : ℕ) (f : Play M) (w : World M) :
    ((f.run perf i w).world.state i).below = (w.state i).below := by
  induction f generalizing w with
  | done mem result => simp [Play.run]
  | act mem frame below a k ih =>
    rw [Play.run]
    dsimp only
    rw [ih, World.modify_state_self]

/-- What `lua_pcall` pushes. -/
def pushed (nresults : Option ℕ) : Except LuaValue (List LuaValue) → List LuaValue
  | .ok vs => adjustResults nresults vs
  | .error e => [e]

section Frame
variable (perf) {w : World M} {i : ℕ} {s args : List LuaValue} {f : LuaValue}

theorem pcall_stack (nresults : Option ℕ) (h : (w.state i).stack = s ++ [f] ++ args) :
    ((pcall p perf i args.length nresults w).world.state i).stack =
      s ++ pushed nresults (pcall p perf i args.length nresults w).value := by
  have hfunc : (s ++ [f] ++ args).length - (args.length + 1) = s.length := by simp
  have htake : (s ++ [f] ++ args).take s.length = s := by simp
  unfold pcall
  simp only [World.modify_state_self, h, hfunc, htake]
  cases ((p.play w i (((s ++ [f] ++ args)[s.length]?).getD .nil)
    ((s ++ [f] ++ args).drop (s.length + 1))).run perf i w).value <;> rfl

theorem pcall_below (nargs : ℕ) (nresults : Option ℕ) :
    ((pcall p perf i nargs nresults w).world.state i).below = (w.state i).below := by
  unfold pcall
  simp only [World.modify_state_self, play_below]

/-- The report leaves what it has found when it looked up `OnError`, and its value if it is no function. -/
theorem report_frame (i : ℕ) (w : World M) :
    ((report p perf i w).world.state i).stack =
        (report p perf i w).value.stack ++ leftover p.toCode (report p perf i w).value.mem ∧
      ((report p perf i w).world.state i).below = (report p perf i w).value.below := by
  unfold report
  dsimp only
  generalize performAll perf (p.printed _ (w.state i).top.tostring) _ = printed
  simp only [World.modify_state_self, getglobal_top, leftover, onError]
  by_cases hf : (p.getglobal (printed.1.state i).mem (bytes "OnError")).isfunction
  · simp only [hf, if_true]
    generalize hv : (printed.1.modify i fun L => L.getglobal p.toCode (bytes "OnError")).modify i
      (fun L => L.push (ofCString (w.state i).top.tostring)) = v
    have hbefore : (v.state i).stack = (printed.1.state i).stack ++
        [p.getglobal (printed.1.state i).mem (bytes "OnError")] ++ [ofCString (w.state i).top.tostring] := by
      rw [← hv]
      simp
    have hstack := pcall_stack p perf (some 0) hbefore
    have hbelow := pcall_below p perf (w := v) (i := i) 1 (some 0)
    have hv' : (v.state i).below = (printed.1.state i).below := by
      rw [← hv, World.modify_state_self, World.modify_state_self]
      rfl
    rw [List.length_singleton] at hstack
    cases hr : (pcall p perf i 1 (some 0) v).value with
    | ok vs =>
      simp only [hr, pushed, adjustResults] at hstack
      simp only [hf, if_true, List.append_nil]
      exact ⟨by simpa using hstack, hbelow.trans hv'⟩
    | error e =>
      simp only [hr, pushed] at hstack
      simp only [hf, if_true, List.append_nil, World.modify_state_self]
      exact ⟨pop_one_stack _ hstack, hbelow.trans hv'⟩
  · simp [hf]
    rfl

/-- What the call of a hook leaves on the frame. -/
theorem callHook_frame (nresults : Option ℕ) (h : (w.state i).stack = s ++ [f] ++ args) :
    ((callHook p perf i args.length nresults w).world.state i).stack =
      match (callHook p perf i args.length nresults w).value with
      | .ok vs => s ++ adjustResults nresults vs
      | .error K => K.stack ++ leftover p.toCode K.mem := by
  have hstack := pcall_stack p perf nresults h
  unfold callHook
  dsimp only
  cases hr : (pcall p perf i args.length nresults w).value with
  | ok vs =>
    rw [hr] at hstack
    exact hstack
  | error e => exact (report_frame p perf i _).1

end Frame
end LuaTT.Reentrancy
