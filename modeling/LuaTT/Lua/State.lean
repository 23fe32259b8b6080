import LuaTT.Lua.Value

/-! A Lua state as its host sees it: the frame of the function that is running, and the C API calls on
it. What the functions of the state do is left open; a call turns one memory of the state into another
and returns or raises. -/
namespace LuaTT.Lua
set_option autoImplicit false

/-- The globals and the functions of a program over memories `M`. -/
structure Code (M : Type) where
  getglobal : M → Bytes → LuaValue
  setglobal : M → Bytes → LuaValue → M
  call : M → LuaValue → List LuaValue → M × Except LuaValue (List LuaValue)

structure LState (M : Type) where
  mem : M
  /-- What the index -1 reads in an empty frame: the slot below it. -/
  below : LuaValue
  stack : List LuaValue
  /-- The errors `LuaManager::Report_Errors` has printed, latest first; NULL among them. -/
  errors : List (Option Bytes)

/-- The status of a call that raised; the host only tells it from 0. -/
def luaErrrun : ℕ := 2

namespace LState
variable {M : Type}

/-! ## The stack -/

def gettop (L : LState M) : ℕ := L.stack.length

def top (L : LState M) : LuaValue := L.stack.getLast?.getD L.below

/-- The value at a negative index. -/
def fromTop (L : LState M) (i : ℕ) : LuaValue := (index2adr L.stack (-i)).getD .nil

def push (L : LState M) (v : LuaValue) : LState M := { L with stack := L.stack ++ [v] }

def pushAll (L : LState M) (vs : List LuaValue) : LState M := { L with stack := L.stack ++ vs }

/-- `lua_settop`: a negative index counts from the top. -/
def settop (L : LState M) (idx : ℤ) : LState M :=
  { L with stack :=
      if 0 ≤ idx then (L.stack ++ List.replicate idx.toNat LuaValue.nil).take idx.toNat
      else L.stack.take (L.stack.length + idx + 1).toNat }

/-- `lua_pop`: a macro around `lua_settop`. -/
def pop (L : LState M) (n : ℤ) : LState M := L.settop (-n - 1)

/-! ## Globals and calls -/

section Calls
variable (code : Code M)

def getglobal (L : LState M) (name : Bytes) : LState M := L.push (code.getglobal L.mem name)

def setglobal (L : LState M) (name : Bytes) : LState M :=
  { L.pop 1 with mem := code.setglobal L.mem name L.top }

/-- The results as the caller asks for them; `none` stands for `LUA_MULTRET`. -/
def adjustResults (nresults : Option ℕ) (vs : List LuaValue) : List LuaValue :=
  match nresults with
  | some n => (vs ++ List.replicate n LuaValue.nil).take n
  | none => vs

/-- `lua_pcall`, with the status. -/
def pcall (L : LState M) (nargs : ℕ) (nresults : Option ℕ) : LState M × ℕ :=
  let func := L.stack.length - (nargs + 1)
  match code.call L.mem ((L.stack[func]?).getD .nil) (L.stack.drop (func + 1)) with
  | (mem, .ok vs) => ({ L with mem := mem, stack := L.stack.take func ++ adjustResults nresults vs }, 0)
  | (mem, .error e) => ({ L with mem := mem, stack := L.stack.take func ++ [e] }, luaErrrun)

end Calls

/-! ## What the calls leave -/

@[simp] theorem top_push (L : LState M) (v : LuaValue) : (L.push v).top = v := by
  simp [top, push]

@[simp] theorem push_stack (L : LState M) (v : LuaValue) : (L.push v).stack = L.stack ++ [v] := rfl

theorem pop_one_stack (L : LState M) {s : List LuaValue} {v : LuaValue} (h : L.stack = s ++ [v]) :
    (L.pop 1).stack = s := by
  have hlen : ((s.length : ℤ) + 1 + -2 + 1).toNat = s.length := by omega
  simp [pop, settop, h, hlen]

@[simp] theorem pop_gettop_stack (L : LState M) : (L.pop L.gettop).stack = [] := by
  have hneg : ¬ (0 ≤ -(L.stack.length : ℤ) - 1) := by omega
  have hlen : ((L.stack.length : ℤ) + (-(L.stack.length : ℤ) - 1) + 1).toNat = 0 := by omega
  simp only [pop, settop, gettop, if_neg hneg, hlen, List.take_zero]

@[simp] theorem pop_neg_one_stack (L : LState M) : (L.pop (-1)).stack = [] := by
  simp [pop, settop]

variable (code : Code M)

@[simp] theorem getglobal_stack (L : LState M) (name : Bytes) :
    (L.getglobal code name).stack = L.stack ++ [code.getglobal L.mem name] := rfl

@[simp] theorem getglobal_top (L : LState M) (name : Bytes) :
    (L.getglobal code name).top = code.getglobal L.mem name := top_push _ _

theorem setglobal_stack (L : LState M) (name : Bytes) (v : LuaValue) :
    ((L.push v).setglobal code name).stack = L.stack := pop_one_stack _ rfl

theorem pcall_eq (L : LState M) {s args : List LuaValue} {f : LuaValue} (nresults : Option ℕ)
    (h : L.stack = s ++ [f] ++ args) : L.pcall code args.length nresults =
      match code.call L.mem f args with
      | (mem, .ok vs) => ({ L with mem := mem, stack := s ++ adjustResults nresults vs }, 0)
      | (mem, .error e) => ({ L with mem := mem, stack := s ++ [e] }, luaErrrun) := by
  have hfunc : (s ++ [f] ++ args).length - (args.length + 1) = s.length := by simp
  have hget : (s ++ [f] ++ args)[s.length]? = some f := by simp
  have hdrop : (s ++ [f] ++ args).drop (s.length + 1) = args := by simp
  have htake : (s ++ [f] ++ args).take s.length = s := by simp
  simp only [pcall, h, hfunc, hget, hdrop, htake, Option.getD_some]

theorem pcall_below (L : LState M) (nargs : ℕ) (nresults : Option ℕ) :
    (L.pcall code nargs nresults).1.below = L.below := by
  simp only [pcall]
  split <;> rfl

theorem top_of_stack_append {L : LState M} {s : List LuaValue} {v : LuaValue} (h : L.stack = s ++ [v]) :
    L.top = v := by
  simp [top, h]

end LState
end LuaTT.Lua
