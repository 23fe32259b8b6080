import LuaTT.Lua.State

/-! The calls that a host makes into a state. The program is run over memories that also hold the list of
these calls, which it does not look at. -/
namespace LuaTT.Lua
set_option autoImplicit false

/-- A function and the arguments it has been called with. -/
structure Called where
  func : LuaValue
  args : List LuaValue

variable {M : Type}

/-- The program with a list of its calls, first to last, beside its memory. -/
def Code.logged (code : Code M) : Code (M × List Called) where
  getglobal m name := code.getglobal m.1 name
  setglobal m name v := (code.setglobal m.1 name v, m.2)
  call m f args := ((((code.call m.1 f args).1), m.2 ++ [⟨f, args⟩]), (code.call m.1 f args).2)

namespace LState

/-- The state before the host has called anything. -/
def recording (L : LState M) : LState (M × List Called) := ⟨(L.mem, []), L.below, L.stack, L.errors⟩

def calls (L : LState (M × List Called)) : List Called := L.mem.2

/-- The state without the list. -/
def erase (L : LState (M × List Called)) : LState M := ⟨L.mem.1, L.below, L.stack, L.errors⟩

@[simp] theorem erase_recording (L : LState M) : L.recording.erase = L := rfl

@[simp] theorem calls_recording (L : LState M) : L.recording.calls = [] := rfl

variable (code : Code M) (L : LState (M × List Called))

@[simp] theorem getglobal_calls (name : Bytes) : (L.getglobal code.logged name).calls = L.calls := rfl

@[simp] theorem setglobal_calls (name : Bytes) : (L.setglobal code.logged name).calls = L.calls := rfl

@[simp] theorem pop_calls (n : ℤ) : (L.pop n).calls = L.calls := rfl

/-- `lua_pcall` is the only way to a call. -/
theorem pcall_calls {s args : List LuaValue} {f : LuaValue} (nresults : Option ℕ)
    (h : L.stack = s ++ [f] ++ args) :
    (L.pcall code.logged args.length nresults).1.calls = L.calls ++ [⟨f, args⟩] := by
  rw [pcall_eq code.logged L nresults h]
  simp only [Code.logged]
  cases (code.call L.mem.1 f args).2 <;> rfl

end LState
end LuaTT.Lua
