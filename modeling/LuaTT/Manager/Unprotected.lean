import LuaTT.Lua.Metatable
import LuaTT.Manager.ReentrantFrames

/-! What the host does to a state outside of any `lua_pcall`. A read or write by name may come to a
metamethod, a push may start the collector or find the stack full, and an error there ends the server. The
dispatchers and callbacks are traced: a state comes back with the list of these operations, in order and with
the state they found. -/
namespace LuaTT.Unprotected
open Lua LState Dispatch ScriptCallbacks
open Reentrancy (Dispatcher Program)
set_option autoImplicit false

/-! ## Operations -/

inductive Op
  /-- `lua_getfield`, `lua_getglobal` and `luaL_getmetatable`. -/
  | getfield (o : LuaValue) (name : Bytes)
  /-- `lua_setglobal` of the value on top. -/
  | setglobal (name : Bytes)
  /-- The other pushes; one that makes an object allocates. -/
  | push (allocates : Bool)
  /-- `lua_tostring`, which makes a string of a number. -/
  | tostring (v : LuaValue)

inductive Effect
  | quiet
  | runsPlugin
  | raises

/-- `LUAI_MAXSTACK`. -/
def luaiMaxStack : ℕ := 65500

/-- The stack takes `n` more slots. -/
def Fits (L : LState Memory) (n : ℕ) : Prop := L.mem.base + L.stack.length + n < luaiMaxStack

instance (L : LState Memory) (n : ℕ) : Decidable (Fits L n) := inferInstanceAs (Decidable (_ < _))

theorem Fits.mono {L : LState Memory} {m n : ℕ} (h : Fits L n) (hmn : m ≤ n) : Fits L m := by
  unfold Fits at h ⊢
  omega

def isNumber : LuaValue → Bool
  | .number _ => true
  | _ => false

def isString : LuaValue → Bool
  | .string _ => true
  | _ => false

namespace Op

/-- A check of the collector runs the finalizers that are due. -/
def effect (L : LState Memory) : Op → Effect
  | getfield o name =>
    match L.mem.tget o name with
    | .ends _ => if Fits L 1 then .quiet else .raises
    | .calls _ => .runsPlugin
    | .error => .raises
  | setglobal name =>
    match L.mem.tset (.table L.mem.globals) name with
    | .ends _ => .quiet
    | .calls _ => .runsPlugin
    | .error => .raises
  | push allocates =>
    if allocates ∧ L.mem.due then .runsPlugin else if Fits L 1 then .quiet else .raises
  | tostring v => if isNumber v ∧ L.mem.due then .runsPlugin else .quiet

end Op

/-! ## Traces -/

/-- What becomes of a state while a hook runs, while the engine has a text printed, and while `OnError` runs:
their own doing, and that of all they make the host do. -/
structure Others where
  hook : Memory → LuaValue → List LuaValue → Memory × Except LuaValue (List LuaValue)
  printed : LState Memory → Option Bytes → LState Memory
  onError : Memory → LuaValue → List LuaValue → Memory × Except LuaValue (List LuaValue)

/-- Names as LuaJIT looks them up. A call of a function is left to `Others`. -/
def memoryCode : ScriptCode Memory where
  toCode := plugin fun m _ _ => (m, .ok [])
  refs m := m.refs
  getfield m := m.getfield
  getmetatable m name := m.getfield (.table m.registry) name
  setmetatable m o mt :=
    { m with metatable := Function.update m.metatable o (match mt with | .table t => some t | _ => none) }

/-- A state, and the operations that have led to it. -/
structure Traced where
  state : LState Memory
  log : List (LState Memory × Op)

namespace Traced

def start (L : LState Memory) : Traced := ⟨L, []⟩

/-- What involves no such operation. -/
def map (f : LState Memory → LState Memory) (t : Traced) : Traced := ⟨f t.state, t.log⟩

/-- `lua_pushstring` of a text makes a string. -/
def push (v : LuaValue) (t : Traced) : Traced := ⟨t.state.push v, t.log ++ [(t.state, .push (isString v))]⟩

def pushAll (vs : List LuaValue) (t : Traced) : Traced := vs.foldl (fun t v => t.push v) t

/-- `lua_rawgeti` and `lua_pushvalue`: the value is there already. -/
def copy (v : LuaValue) (t : Traced) : Traced := ⟨t.state.push v, t.log ++ [(t.state, .push false)]⟩

/-- `lua_boxpointer`, with the new object at `ref`. -/
def boxpointer (ref : ℕ) (t : Traced) : Traced :=
  ⟨t.state.push (.userdata ref), t.log ++ [(t.state, .push true)]⟩

def tostring (t : Traced) : Traced := ⟨t.state, t.log ++ [(t.state, .tostring t.state.top)]⟩

def getfield (o : LuaValue) (name : Bytes) (t : Traced) : Traced :=
  ⟨t.state.push (t.state.mem.getfield o name), t.log ++ [(t.state, .getfield o name)]⟩

def getglobal (name : Bytes) (t : Traced) : Traced := t.getfield (.table t.state.mem.globals) name

def setglobal (name : Bytes) (t : Traced) : Traced :=
  ⟨t.state.setglobal memoryCode.toCode name, t.log ++ [(t.state, .setglobal name)]⟩

variable (o : Others)

def pcall (call : Memory → LuaValue → List LuaValue → Memory × Except LuaValue (List LuaValue))
    (nargs : ℕ) (nresults : Option ℕ) (t : Traced) : Traced × ℕ :=
  let (L, status) := t.state.pcall (plugin call) nargs nresults
  (⟨L, t.log⟩, status)

/-- `LuaManager::Report_Errors`. -/
def reportErrors (status : ℕ) (t : Traced) : Traced :=
  if status ≠ 0 then
    let err := t.state.top.tostring
    let t := t.tostring.map fun L => o.printed { L.pop 1 with errors := err :: L.errors } err
    let t := t.getglobal (bytes "OnError")
    if t.state.top.isfunction then
      let (t, status) := (t.push (ofCString err)).pcall o.onError 1 (some 0)
      if status ≠ 0 then t.map fun L => L.pop 1 else t
    else t
  else t

/-- The call of the function under `nargs` arguments, and its report. -/
def callHook (nargs : ℕ) (nresults : Option ℕ) (t : Traced) : Traced :=
  let (t, status) := t.pcall o.hook nargs nresults
  t.reportErrors o status

end Traced

/-! ## Dispatchers and callbacks -/

section Calls
open Traced
variable (o : Others)

/-- What a dispatcher does with a state when it is its turn. -/
def asked {β : Type} (d : Dispatcher Memory β) (ret : β) (L : LState Memory) : Traced :=
  let t := (start L).getglobal d.hook
  if t.state.top.isfunction then
    if d.quits then t
    else
      let t := (t.pushAll (d.args ret)).callHook o (d.args ret).length d.nresults
      let t := if d.text then t.tostring else t
      if d.clears then t.map fun K => K.pop K.gettop else t
  else if d.keeps then t else t.setglobal d.hook

/-- The arguments above the function, from the table under it on. -/
def pushArgs (c : Callback) (t : Traced) : Traced :=
  let t := (t.copy (t.state.fromTop 2)).pushAll c.args
  match c with
  | .soundHeard _ _ _ position sound =>
    let t := t.boxpointer position
    let t := t.getfield (.table t.state.mem.registry) (bytes "Vector3")
    (t.map (setmetatable memoryCode)).push (number sound)
  | _ => t

/-- The callback of an object whose table is at `uRef`; a value that is no table stays on the stack. -/
def calledBack (c : Callback) (uRef : ℤ) (L : LState Memory) : Traced :=
  if c.skipped then start L
  else
    let t := (start L).copy (L.mem.refs uRef)
    if t.state.top.istable then
      let t := t.getfield t.state.top c.field
      let t := if t.state.top.isfunction then
        (pushArgs c t).callHook o (Reentrancy.nargs c) (some c.nresults) else t
      t.map fun L => L.pop (-1)
    else t

end Calls

/-! ## The traces are those of the host -/

/-- The same memory and frame. -/
def Agrees (K T : LState Memory) : Prop := K.mem = T.mem ∧ K.stack = T.stack ∧ K.below = T.below

theorem Agrees.top {K T : LState Memory} (h : Agrees K T) : K.top = T.top := by
  rw [LState.top, LState.top, h.2.1, h.2.2]

theorem Agrees.push {K T : LState Memory} (h : Agrees K T) (v : LuaValue) : Agrees (K.push v) (T.push v) :=
  ⟨h.1, congrArg (· ++ [v]) h.2.1, h.2.2⟩

theorem Agrees.pop {K T : LState Memory} (h : Agrees K T) (n : ℤ) : Agrees (K.pop n) (T.pop n) := by
  refine ⟨h.1, ?_, h.2.2⟩
  simp only [LState.pop, LState.settop, h.2.1]

theorem Agrees.pushAll {K T : LState Memory} (h : Agrees K T) (vs : List LuaValue) :
    Agrees (K.pushAll vs) (T.pushAll vs) := ⟨h.1, congrArg (· ++ vs) h.2.1, h.2.2⟩

theorem Agrees.popAll {K T : LState Memory} (h : Agrees K T) : Agrees (K.pop K.gettop) (T.pop T.gettop) := by
  rw [LState.gettop, h.2.1]
  exact h.pop _

theorem Agrees.setglobal {K T : LState Memory} (h : Agrees K T) (code : Code Memory) (name : Bytes) :
    Agrees (K.setglobal code name) (T.setglobal code name) := by
  refine ⟨?_, (h.pop 1).2.1, h.2.2⟩
  simp only [LState.setglobal, h.1, h.top]

theorem pushAll_state (vs : List LuaValue) (t : Traced) : (t.pushAll vs).state = t.state.pushAll vs := by
  induction vs generalizing t with
  | nil => simp [Traced.pushAll, LState.pushAll]
  | cons v vs ih =>
    have hrest := ih (t.push v)
    simp only [Traced.pushAll, List.foldl_cons] at hrest ⊢
    rw [hrest]
    simp [Traced.push, LState.pushAll, LState.push]

section Host
open Reentrancy (Act World Result)
variable (p : Program Memory) (perf : Act Memory → World Memory → Result Memory Verdict) (i : ℕ)

/-- A call in the host is one of a trace that ends in the same memory. -/
theorem pcall_traced (nargs : ℕ) (nresults : Option ℕ) (w : World Memory) :
    ∃ call, ∀ t : Traced, Agrees (w.state i) t.state →
      Agrees ((Reentrancy.pcall p perf i nargs nresults w).world.state i) (t.pcall call nargs nresults).1.state ∧
        (t.pcall call nargs nresults).2 =
          match (Reentrancy.pcall p perf i nargs nresults w).value with
          | .ok _ => 0
          | .error _ => luaErrrun := by
  let L := w.state i
  let func := L.stack.length - (nargs + 1)
  let r := (p.play w i ((L.stack[func]?).getD .nil) (L.stack.drop (func + 1))).run perf i w
  refine ⟨fun _ _ _ => ((r.world.state i).mem, r.value), fun t ht => ?_⟩
  have hstack : t.state.stack = L.stack := ht.2.1.symm
  have hbelow : (r.world.state i).below = t.state.below := (Reentrancy.play_below i _ w).trans ht.2.2
  have hvalue : (Reentrancy.pcall p perf i nargs nresults w).value = r.value := rfl
  rw [hvalue]
  unfold Reentrancy.pcall Traced.pcall LState.pcall
  simp only [Reentrancy.World.modify_state_self, plugin, hstack]
  cases hr : r.value with
  | ok vs => exact ⟨⟨rfl, rfl, hbelow⟩, rfl⟩
  | error e => exact ⟨⟨rfl, rfl, hbelow⟩, rfl⟩

variable {p} (hp : p.toScriptCode = memoryCode)
include hp

theorem getglobal_traced (name : Bytes) {K : LState Memory} {t : Traced} (h : Agrees K t.state) :
    Agrees (K.getglobal p.toCode name) (t.getglobal name).state := by
  have hcode : p.toCode = memoryCode.toCode := congrArg (·.toCode) hp
  refine ⟨h.1, ?_, h.2.2⟩
  simp only [getglobal_stack, Traced.getglobal, Traced.getfield, push_stack, hcode, h.1, h.2.1]
  rfl

theorem report_traced (w : World Memory) : ∃ printed onError, ∀ hook (t : Traced), Agrees (w.state i) t.state →
    Agrees ((Reentrancy.report p perf i w).world.state i)
      (t.reportErrors ⟨hook, printed, onError⟩ luaErrrun).state := by
  let err := (w.state i).top.tostring
  let popped := w.modify i fun L => { L.pop 1 with errors := err :: L.errors }
  let heard := (Reentrancy.performAll perf (p.printed popped err) popped).1
  let w := (heard.modify i fun L => L.getglobal p.toCode (bytes "OnError")).modify i
    fun L => L.push (ofCString err)
  obtain ⟨call, hcall⟩ := pcall_traced p perf i 1 (some 0) w
  refine ⟨fun _ _ => heard.state i, call, fun hook t ht => ?_⟩
  have herr : t.state.top.tostring = err := by rw [← ht.top]
  let t' : Traced := (t.tostring.map fun _ => heard.state i).getglobal (bytes "OnError")
  have hglobal : Agrees ((heard.state i).getglobal p.toCode (bytes "OnError")) t'.state :=
    getglobal_traced hp _ ⟨rfl, rfl, rfl⟩
  have hpushed := hcall (t'.push (ofCString err)) (by
    simp only [w, Reentrancy.World.modify_state_self]
    exact hglobal.push _)
  unfold Reentrancy.report Traced.reportErrors
  rw [if_pos (by decide)]
  simp only [Reentrancy.World.modify_state_self, herr]
  change Agrees ((if ((heard.state i).getglobal p.toCode (bytes "OnError")).top.isfunction then
      (match (Reentrancy.pcall p perf i 1 (some 0) w).value with
        | .ok _ => (⟨_, _, _⟩ : Result Memory (LState Memory))
        | .error _ => ⟨_, _, _⟩)
      else ⟨heard.modify i fun L => L.getglobal p.toCode (bytes "OnError"), heard.state i, _⟩).world.state i)
    (if t'.state.top.isfunction then _ else t').state
  rw [hglobal.top]
  by_cases hf : t'.state.top.isfunction
  · rw [if_pos hf, if_pos hf]
    cases hv : (Reentrancy.pcall p perf i 1 (some 0) w).value with
    | ok vs =>
      rw [hv] at hpushed
      rw [if_neg (not_not.mpr hpushed.2)]
      exact hpushed.1
    | error e =>
      rw [hv] at hpushed
      have hraised : ((t'.push (ofCString err)).pcall call 1 (some 0)).2 ≠ 0 := by
        rw [hpushed.2]
        exact nofun
      rw [if_pos hraised, Reentrancy.World.modify_state_self]
      exact hpushed.1.pop 1
  · rw [if_neg hf, if_neg hf, Reentrancy.World.modify_state_self]
    exact hglobal

theorem callHook_traced (nargs : ℕ) (nresults : Option ℕ) (w : World Memory) :
    ∃ o : Others, ∀ t : Traced, Agrees (w.state i) t.state →
      Agrees ((Reentrancy.callHook p perf i nargs nresults w).world.state i)
        (t.callHook o nargs nresults).state := by
  obtain ⟨call, hcall⟩ := pcall_traced p perf i nargs nresults w
  obtain ⟨printed, onError, hreport⟩ :=
    report_traced perf i hp (Reentrancy.pcall p perf i nargs nresults w).world
  refine ⟨⟨call, printed, onError⟩, fun t ht => ?_⟩
  obtain ⟨hstate, hstatus⟩ := hcall t ht
  unfold Reentrancy.callHook Traced.callHook
  dsimp only
  cases hv : (Reentrancy.pcall p perf i nargs nresults w).value with
  | ok vs =>
    rw [hstatus, hv]
    exact hstate
  | error e =>
    rw [hstatus, hv]
    exact hreport call _ hstate

variable {β : Type} (d : Dispatcher Memory β)

/-- The turn of a state, whatever the host does in it, is one of the traces. -/
theorem turn_traced (w : World Memory) (ret : β) : ∃ o : Others,
    Agrees ((Reentrancy.turn p perf d i w ret).world.state i) (asked o d ret (w.state i)).state := by
  let w' := (w.modify i fun L => L.getglobal p.toCode d.hook).modify i fun L => L.pushAll (d.args ret)
  obtain ⟨o, hcall⟩ := callHook_traced perf i hp (d.args ret).length d.nresults w'
  refine ⟨o, ?_⟩
  have hcode : p.toCode = memoryCode.toCode := congrArg (·.toCode) hp
  let t := (Traced.start (w.state i)).getglobal d.hook
  have hglobal : Agrees ((w.state i).getglobal p.toCode d.hook) t.state :=
    getglobal_traced hp _ ⟨rfl, rfl, rfl⟩
  have hcalled := hcall (t.pushAll (d.args ret)) (by
    simp only [w', Reentrancy.World.modify_state_self, pushAll_state]
    exact hglobal.pushAll _)
  unfold Reentrancy.turn asked
  simp only [Reentrancy.World.modify_state_self, hglobal.top]
  by_cases hf : t.state.top.isfunction
  · rw [if_pos hf, if_pos hf]
    by_cases hq : d.quits
    · rw [if_pos hq, if_pos hq, Reentrancy.World.modify_state_self]
      exact hglobal
    · rw [if_neg hq, if_neg hq]
      dsimp only
      generalize (t.pushAll (d.args ret)).callHook o (d.args ret).length d.nresults = u at hcalled
      have htext : (if d.text then u.tostring else u).state = u.state := by
        split_ifs <;> rfl
      by_cases hc : d.clears
      · rw [if_pos hc, if_pos hc, Reentrancy.World.modify_state_self, Traced.map, htext]
        exact hcalled.popAll
      · rw [if_neg hc, if_neg hc, htext]
        exact hcalled
  · rw [if_neg hf, if_neg hf]
    by_cases hk : d.keeps
    · rw [if_pos hk, if_pos hk, Reentrancy.World.modify_state_self]
      exact hglobal
    · have hset := hglobal.setglobal p.toCode d.hook
      rw [if_neg hk, if_neg hk, Reentrancy.World.modify_state_self, Reentrancy.World.modify_state_self]
      rw [hcode] at hset ⊢
      exact hset

theorem pushArgs_state (c : Callback) (t : Traced) :
    (pushArgs c t).state = Reentrancy.pushArgs p c t.state := by
  obtain ⟨code, play, printed⟩ := p
  obtain rfl : code = memoryCode := hp
  have hall : ((t.copy (t.state.fromTop 2)).pushAll c.args).state =
      (t.state.push (t.state.fromTop 2)).pushAll c.args := pushAll_state _ _
  cases c with
  | soundHeard id obj creator position sound =>
    simp only [pushArgs, Reentrancy.pushArgs, Traced.push, Traced.map, Traced.getfield, Traced.boxpointer, hall]
    rfl
  | _ => exact hall

/-- So is a callback. -/
theorem callBack_traced (c : Callback) (uRef : ℤ) (w : World Memory) : ∃ o : Others,
    Agrees ((Reentrancy.callBack p perf c i uRef w).world.state i) (calledBack o c uRef (w.state i)).state := by
  let table := fun L : LState Memory => L.push (p.refs L.mem uRef)
  let field := fun L : LState Memory => L.push (p.getfield L.mem L.top c.field)
  let w' := ((w.modify i table).modify i field).modify i (Reentrancy.pushArgs p c)
  obtain ⟨o, hcall⟩ := callHook_traced perf i hp (Reentrancy.nargs c) (some c.nresults) w'
  refine ⟨o, ?_⟩
  let t := (Traced.start (w.state i)).copy ((w.state i).mem.refs uRef)
  have htable : table (w.state i) = t.state := by
    simp only [table, hp]
    rfl
  have hfield : field t.state = (t.getfield t.state.top c.field).state := by
    simp only [field, hp]
    rfl
  have hcalled := hcall (pushArgs c (t.getfield t.state.top c.field)) (by
    simp only [w', Reentrancy.World.modify_state_self, htable, hfield, ← pushArgs_state hp]
    exact ⟨rfl, rfl, rfl⟩)
  unfold Reentrancy.callBack calledBack
  by_cases hs : c.skipped
  · rw [if_pos hs, if_pos hs]
    exact ⟨rfl, rfl, rfl⟩
  rw [if_neg hs, if_neg hs]
  change Agrees (((if ((w.modify i table).state i).top.istable then _ else _ : Reentrancy.Round _ _).world.state i))
    (if t.state.top.istable then _ else t).state
  rw [Reentrancy.World.modify_state_self, htable]
  by_cases ht : t.state.top.istable
  · rw [if_pos ht, if_pos ht]
    let u := t.getfield t.state.top c.field
    let w₁ := (w.modify i table).modify i field
    have hu : w₁.state i = u.state := by
      simp only [w₁, Reentrancy.World.modify_state_self, htable, hfield, u]
    change Agrees (((if (w₁.state i).top.isfunction then _ else _ : Reentrancy.Round _ _).world.state i))
      (Traced.map _ (if u.state.top.isfunction then _ else u)).state
    rw [hu]
    by_cases hf : u.state.top.isfunction
    · rw [if_pos hf, if_pos hf]
      dsimp only
      rw [Reentrancy.World.modify_state_self]
      exact hcalled.pop _
    · rw [if_neg hf, if_neg hf]
      dsimp only
      rw [Reentrancy.World.modify_state_self]
      change Agrees ((w₁.state i).pop (-1)) (u.state.pop (-1))
      rw [hu]
      exact ⟨rfl, rfl, rfl⟩
  · rw [if_neg ht, if_neg ht]
    change Agrees ((w.modify i table).state i) t.state
    rw [Reentrancy.World.modify_state_self, htable]
    exact ⟨rfl, rfl, rfl⟩

end Host
end LuaTT.Unprotected
