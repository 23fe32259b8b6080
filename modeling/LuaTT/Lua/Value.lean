import LuaTT.Lua.Number

/-! Lua values as the C API hands them out, and its type tests and conversions. A number test also
accepts the strings LuaJIT can scan as a number; a string test also accepts numbers. -/
namespace LuaTT.Lua
set_option autoImplicit false

/-- Tables, functions, userdata and coroutines are references; two of them are equal when they are
the same object. -/
inductive LuaValue
  | nil
  | boolean (b : Bool)
  | lightuserdata (p : ℕ)
  | number (n : LuaNumber)
  | string (s : Bytes)
  | table (ref : ℕ)
  | function (ref : ℕ)
  | userdata (ref : ℕ)
  | thread (ref : ℕ)
  deriving DecidableEq

namespace LuaValue

def isnumber : LuaValue → Bool
  | number _ => true
  | string s => (ljStrscanNum s).isSome
  | _ => false

def isstring : LuaValue → Bool
  | string _ => true
  | number _ => true
  | _ => false

def isboolean : LuaValue → Bool
  | boolean _ => true
  | _ => false

def istable : LuaValue → Bool
  | table _ => true
  | _ => false

def isfunction : LuaValue → Bool
  | function _ => true
  | _ => false

/-- `lua_tonumber`: 0 where the value is no number. -/
def tonumber : LuaValue → LuaNumber
  | number n => n
  | string s => (ljStrscanNum s).getD 0
  | _ => 0

/-- `lua_tointeger`. -/
def tointeger (v : LuaValue) : ℤ := if v.isnumber then ljNum2int v.tonumber else 0

/-- `lua_toboolean`: everything but nil and false counts as true. -/
def toboolean : LuaValue → Bool
  | nil => false
  | boolean b => b
  | _ => true

/-- `lua_tolstring`: the bytes of a string or number, NULL for any other value. -/
def tolstring : LuaValue → Option Bytes
  | string s => some s
  | number n => some (ljStrFromnum n)
  | _ => none

/-- `lua_tostring` as a C string. -/
def tostring (v : LuaValue) : Option Bytes := v.tolstring.map cstring

theorem tostring_isSome (v : LuaValue) : v.tostring.isSome = v.isstring := by
  cases v <;> rfl

end LuaValue

/-- `lua_pushstring`: NULL is pushed as nil. -/
def ofCString : Option Bytes → LuaValue
  | some s => .string (cstring s)
  | none => .nil

def ofInt (i : ℤ) : LuaValue := .number (Float.ofInt i)

/-! ## Stack indices

A frame of the Lua stack is the list of its slots from the base up. Positive indices count from the
base, negative ones from the top. -/

section Index
variable {α : Type}

/-- `index2adr`, for the indices of stack slots. -/
def index2adr (stack : List α) (idx : ℤ) : Option α :=
  if 0 < idx then stack[(idx - 1).toNat]?
  else if idx = 0 ∨ stack.length < idx.natAbs then none
  else stack[stack.length - idx.natAbs]?

theorem index2adr_top (stack : List α) (v : α) : index2adr (stack ++ [v]) (-1) = some v := by
  simp [index2adr]

theorem index2adr_below_top (stack : List α) (u v : α) :
    index2adr (stack ++ [u, v]) (-2) = some u := by
  simp [index2adr]

end Index

end LuaTT.Lua
