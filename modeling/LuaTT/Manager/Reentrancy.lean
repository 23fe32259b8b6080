import Mathlib.Data.List.Nodup
import LuaTT.Manager.ScriptCallbacks

/-! Dispatches inside of dispatches. A function of a plugin may call host functions that make the engine
raise events, so that hooks run in any plugin while it waits, in its own one on the frame of the C function
that is running there; `Invoke` does so directly. The text that `Report_Errors` prints raises events too. -/
namespace LuaTT.Reentrancy
open Lua LState Dispatch ScriptCallbacks
set_option autoImplicit false

/-- The states by their numbers, those in `LuaManager::Lua` and others, as of workers. A state's stack is
the frame that is running in it. -/
structure World (M : Type) where
  lua : List ℕ
  nodup : lua.Nodup
  state : ℕ → LState M

/-- What the host is made to do. -/
inductive Act (M : Type)
  | event (e : Event)
  /-- `LuaTT_DAChatCommand::Activate`. -/
  | chatCommand (func : Bytes) (playerId : ℤ) (text : Bytes) (chatType : ℤ)
  /-- A callback into the table at `uRef` of the state `i`. -/
  | callback (c : Callback) (i : ℕ) (uRef : ℤ)
  /-- `LoadLua` appends a state. What its chunk makes the host do goes before, in the place of the call. -/
  | load (i : ℕ) (L : LState M)

/-- A function from some point on. It ends, or one of the C functions it calls, whose frame lies over the
slot `below`, makes the host act; what it does then depends on all that has become of the world. -/
inductive Play (M : Type)
  | done (mem : M) (result : Except LuaValue (List LuaValue))
  | act (mem : M) (frame : List LuaValue) (below : LuaValue) (a : Act M)
      (k : World M → Verdict → Play M)

/-- A call of a function goes by `play`, not by `call`. -/
structure Program (M : Type) extends ScriptCode M where
  play : World M → ℕ → LuaValue → List LuaValue → Play M
  /-- What the engine does for a text on the console. -/
  printed : World M → Option Bytes → List (Act M)

/-! ## Records -/

/-- A state in which a hook has been looked up, as it was before; and if the hook has been called, what it
has returned, or else the state when `OnError` is looked up. -/
structure Visit (M : Type) where
  state : LState M
  outcome : Option (Except (LState M) (List LuaValue))

/-- What the host has done at a time, from start to end. -/
structure Record (M : Type) where
  act : Act M
  before : World M
  visits : List (Visit M)
  after : World M
  verdict : Verdict

/-- The world after some steps, what they give, and all that the host has done on the way. -/
structure Result (M α : Type) where
  world : World M
  value : α
  records : List (Record M)

/-- The same, with the states that have been asked. -/
structure Round (M β : Type) where
  world : World M
  value : β
  visits : List (Visit M)
  records : List (Record M)

namespace World
variable {M : Type} (w : World M)

def put (i : ℕ) (L : LState M) : World M := { w with state := Function.update w.state i L }

def modify (i : ℕ) (f : LState M → LState M) : World M := w.put i (f (w.state i))

/-- `Lua.push_back`. -/
def load (i : ℕ) (L : LState M) : World M :=
  if h : i ∈ w.lua then w
  else
    { lua := w.lua ++ [i]
      nodup := List.nodup_append_comm.mpr (List.nodup_cons.mpr ⟨h, w.nodup⟩)
      state := Function.update w.state i L }

end World

/-! ## Calls -/

section Calls
variable {M : Type} (p : Program M) (perf : Act M → World M → Result M Verdict)

def performAll : List (Act M) → World M → World M × List (Record M)
  | [], w => (w, [])
  | a :: as, w =>
    let r := perf a w
    let (w, records) := performAll as r.world
    (w, r.records ++ records)

/-- While the host acts, the state has the frame of the C function; then it has its own one again. -/
def Play.run (i : ℕ) : Play M → World M → Result M (Except LuaValue (List LuaValue))
  | .done mem result, w => ⟨w.modify i fun L => { L with mem := mem }, result, []⟩
  | .act mem frame below a k, w =>
    let outer := w.state i
    let r := perf a (w.put i { outer with mem := mem, stack := frame, below := below })
    let rest := (k r.world r.value).run i
      (r.world.modify i fun L => { L with stack := outer.stack, below := outer.below })
    ⟨rest.world, rest.value, r.records ++ rest.records⟩

/-- `lua_pcall`. -/
def pcall (i nargs : ℕ) (nresults : Option ℕ) (w : World M) :
    Result M (Except LuaValue (List LuaValue)) :=
  let L := w.state i
  let func := L.stack.length - (nargs + 1)
  let r := (p.play w i ((L.stack[func]?).getD .nil) (L.stack.drop (func + 1))).run perf i w
  let left := match r.value with
    | .ok vs => adjustResults nresults vs
    | .error e => [e]
  ⟨r.world.modify i fun K => { K with stack := L.stack.take func ++ left }, r.value, r.records⟩

/-- `LuaManager::Report_Errors` for a call that has raised, with the state when `OnError` is looked up. -/
def report (i : ℕ) (w : World M) : Result M (LState M) :=
  let err := (w.state i).top.tostring
  let w := w.modify i fun L => { L.pop 1 with errors := err :: L.errors }
  let (w, records) := performAll perf (p.printed w err) w
  let heard := w.state i
  let w := w.modify i fun L => L.getglobal p.toCode (bytes "OnError")
  if (w.state i).top.isfunction then
    let r := pcall p perf i 1 (some 0) (w.modify i fun L => L.push (ofCString err))
    match r.value with
    | .ok _ => ⟨r.world, heard, records ++ r.records⟩
    | .error _ => ⟨r.world.modify i fun L => L.pop 1, heard, records ++ r.records⟩
  else ⟨w, heard, records⟩

/-- The call of the function under `nargs` arguments, and the report if it raises. -/
def callHook (i nargs : ℕ) (nresults : Option ℕ) (w : World M) :
    Result M (Except (LState M) (List LuaValue)) :=
  let r := pcall p perf i nargs nresults w
  match r.value with
  | .ok vs => ⟨r.world, .ok vs, r.records⟩
  | .error _ =>
    let r' := report p perf i r.world
    ⟨r'.world, .error r'.value, r.records ++ r'.records⟩

/-! ## Dispatchers -/

/-- A dispatcher, by what it does with each state. -/
structure Dispatcher (M β : Type) where
  hook : Bytes
  args : β → List LuaValue
  nresults : Option ℕ := some 0
  /-- The result is read by `lua_tostring`. -/
  text : Bool := false
  /-- What becomes of the verdict after a call that leaves so many values more. -/
  read : ℕ → LState M → β → β := fun _ _ ret => ret
  /-- The frame is cleared after a call. -/
  clears : Bool := false
  /-- A value that is no function stays on the stack. -/
  keeps : Bool := false
  /-- The function returns when it has found a hook. -/
  quits : Bool := false
  /-- The function returns with such a verdict. -/
  stops : β → Bool := fun _ => false

/-- What becomes of one state: the world and the verdict after it, and whether the loop goes on. -/
structure Turn (M β : Type) where
  world : World M
  value : β
  visit : Visit M
  goesOn : Bool
  records : List (Record M)

/-- The hook is called where there is one. -/
def turn {β : Type} (d : Dispatcher M β) (i : ℕ) (w : World M) (ret : β) : Turn M β :=
  let L := w.state i
  let w := w.modify i fun L => L.getglobal p.toCode d.hook
  if (w.state i).top.isfunction then
    if d.quits then ⟨w, ret, ⟨L, none⟩, false, []⟩
    else
      let r := callHook p perf i (d.args ret).length d.nresults
        (w.modify i fun L => L.pushAll (d.args ret))
      let K := r.world.state i
      let ret := d.read (K.gettop - L.gettop) K ret
      ⟨if d.clears then r.world.modify i fun K => K.pop K.gettop else r.world, ret, ⟨L, some r.value⟩,
        !d.stops ret, r.records⟩
  else
    ⟨if d.keeps then w else w.modify i fun L => L.setglobal p.toCode d.hook, ret, ⟨L, none⟩, true, []⟩

/-- The loop over the states. -/
def askAll {β : Type} (d : Dispatcher M β) : List ℕ → World M → β → Round M β
  | [], w, ret => ⟨w, ret, [], []⟩
  | i :: is, w, ret =>
    let t := turn p perf d i w ret
    if t.goesOn then
      let rest := askAll d is t.world t.value
      ⟨rest.world, rest.value, t.visit :: rest.visits, t.records ++ rest.records⟩
    else ⟨t.world, t.value, [t.visit], t.records⟩

def ask {β : Type} (d : Dispatcher M β) (start : β) (verdict : β → Verdict) (is : List ℕ) (w : World M) :
    Round M Verdict :=
  let r := askAll p perf d is w start
  ⟨r.world, verdict r.value, r.visits, r.records⟩

end Calls

section Families
variable (M : Type) (name : Bytes) (args : List LuaValue)

def notify : Dispatcher M Unit where
  hook := name
  args _ := args

def verdict {β : Type} (combine : β → LuaValue → β) : Dispatcher M β where
  hook := name
  args _ := args
  nresults := some 1
  read _ L ret := combine ret L.top
  clears := true

def connection : Dispatcher M Bytes where
  hook := name
  args _ := args
  nresults := some 1
  text := true
  read _ L _ := L.top.tostring.getD (bytes "CONTINUE")
  clears := true
  stops ret := ret ≠ bytes "CONTINUE"

def damage (victim damager : Option ℤ) (scale : Float32) (type : ℤ) : Dispatcher M DamageRequest where
  hook := bytes "DA_Damage_Request_Event"
  args := damageArgs victim damager scale type
  nresults := none
  read := readDamage
  clears := true

def generic (func : Bytes) (params : GenericParamList) : Dispatcher M ℤ where
  hook := func
  args _ := params.args
  nresults := some (if params.ret ≠ .useNothing then 1 else 0)
  text := params.ret = .useInt
  read _ L ret := params.combine ret L.top
  clears := true

end Families

/-! ## What the host does -/

section Host
variable {M : Type} (p : Program M) (perf : Act M → World M → Result M Verdict)

/-- The dispatcher of an event, as `Dispatch.dispatch` has it for hooks that make the host do nothing. -/
def raise (e : Event) (w : World M) : Round M Verdict :=
  let is := if e.skipped then [] else w.lua
  match e with
  | .chat .. | .radio .. | .refill .. | .stockDamage .. | .ttDamage .. =>
    ask p perf (verdict M e.hook e.args combineInt) 1 (fun ret => .bool (ret ≠ 0)) is w
  | .daSuicide .. | .daRefill .. | .daTeamChangeRequest .. =>
    ask p perf (verdict M e.hook e.args combineBool) true .bool is w
  | .purchase2 .. => ask p perf (verdict M e.hook e.args combineNonzero) (-1) .int is w
  | .conAc .. | .daConnectionRequest .. =>
    ask p perf (connection M e.hook e.args) (bytes "CONTINUE") .string is w
  | .daDamageRequest victim damager amount warhead scale type =>
    ask p perf (damage M victim damager scale type) ⟨true, amount, warhead⟩ .damage is w
  | .generic func params =>
    ask p perf (generic M func params) (if params.ret ≠ .useNothing then params.defaultReturn else 0) .int
      is w
  | .purchase purchaser .. =>
    ask p perf { notify M e.hook e.args with quits := purchaser = 0 } () (fun _ => .nothing) is w
  | .invoke .. => ask p perf { notify M e.hook e.args with keeps := true } () (fun _ => .nothing) is w
  | .host .. => ask p perf (notify M e.hook e.args) () (fun _ => .bool true) is w
  | _ => ask p perf (notify M e.hook e.args) () (fun _ => .nothing) is w

/-- The arguments above the function, from the table under it on. -/
def pushArgs (c : Callback) (L : LState M) : LState M :=
  let L := (L.push (L.fromTop 2)).pushAll c.args
  match c with
  | .soundHeard _ _ _ position sound =>
    let L := L.push (.userdata position)
    (setmetatable p.toScriptCode (L.push (p.getmetatable L.mem (bytes "Vector3")))).push (number sound)
  | _ => L

/-- `Sound_Heard` passes fewer arguments than it has pushed. -/
def nargs : Callback → ℕ
  | .soundHeard .. => 4
  | c => c.args.length + 1

/-- Only `Can_Activate` has a result. -/
def answer (c : Callback) (b : Bool) : Verdict :=
  match c with
  | .crateCanActivate _ => .bool b
  | _ => .nothing

/-- The callback of an object whose table is at `uRef`. -/
def callBack (c : Callback) (i : ℕ) (uRef : ℤ) (w : World M) : Round M Verdict :=
  if c.skipped then ⟨w, answer c false, [], []⟩
  else
    let L := w.state i
    let w := w.modify i fun L => L.push (p.refs L.mem uRef)
    if (w.state i).top.istable then
      let w := w.modify i fun L => L.push (p.getfield L.mem L.top c.field)
      if (w.state i).top.isfunction then
        let r := callHook p perf i (nargs c) (some c.nresults) (w.modify i (pushArgs p c))
        ⟨r.world.modify i fun L => L.pop (-1), answer c (r.world.state i).top.toboolean,
          [⟨L, some r.value⟩], r.records⟩
      else ⟨w.modify i fun L => L.pop (-1), answer c true, [⟨L, none⟩], []⟩
    else ⟨w, answer c false, [⟨L, none⟩], []⟩

def execute (a : Act M) (w : World M) : Round M Verdict :=
  match a with
  | .event e => raise p perf e w
  | .chatCommand func playerId text chatType =>
    ask p perf (verdict M func [number playerId, string text, number chatType] combineBool) true .bool w.lua w
  | .callback c i uRef => callBack p perf c i uRef w
  | .load i L => ⟨w.load i L, .nothing, [], []⟩

/-- What the host does, with what it is made to do meanwhile up to a depth, as deep as a run goes that comes
to an end. -/
def perform : ℕ → Act M → World M → Result M Verdict
  | 0, _, w => ⟨w, .nothing, []⟩
  | n + 1, a, w =>
    let r := execute p (perform n) a w
    ⟨r.world, r.value, r.records ++ [⟨a, w, r.visits, r.world, r.value⟩]⟩

end Host
end LuaTT.Reentrancy
