import LuaTT.Lua.Table

/-! Messages between threads: `LuaThread::convertData` makes one from a value of the sender's state, and
`LuaThread::ReturnDataLua` makes a value of it in the receiver's state. -/
namespace LuaTT.DataMessage
open Lua TableTree
set_option autoImplicit false

/-- A table holds its entries in the order in which the map lists them. -/
inductive LuaDataMessage
  | number (n : LuaNumber)
  | boolean (b : Bool)
  | string (s : Bytes)
  | table (size : ℕ) (key value : Fin size → LuaDataMessage)

namespace LuaDataMessage

/-- `TableType`: a `std::map` from the addresses of key messages, in the order of the addresses. -/
abbrev TableType := List (ℕ × LuaDataMessage × LuaDataMessage)

/-- `map[key] = value`, with the key message `k` at the address `a`. -/
def mapInsert (a : ℕ) (k v : LuaDataMessage) : TableType → TableType
  | [] => [(a, k, v)]
  | (a', k', v') :: m =>
    if a < a' then (a, k, v) :: (a', k', v') :: m
    else if a = a' then (a', k', v) :: m
    else (a', k', v') :: mapInsert a k v m

def ofMap (m : TableType) : LuaDataMessage :=
  table m.length (fun i => (m.get i).2.1) fun i => (m.get i).2.2

end LuaDataMessage

open LuaDataMessage

/-! ## `LuaThread::convertData` -/

inductive Fault
  /-- The recursion is deeper than the fuel. -/
  | outOfFuel
  /-- `lua_next` on a value that is not a table. -/
  | notATable
  deriving DecidableEq, Repr

section Convert
variable (heap : Heap) (addr : ℕ → ℕ)

/-- A new message; `addr` gives the address of each allocation. -/
def newMessage (next : ℕ) (m : LuaDataMessage) : Except Fault (ℕ × Option (ℕ × LuaDataMessage)) :=
  .ok (next + 1, some (addr next, m))

/-- `map[key] = value`, unless one of the two is a null pointer. -/
def insertEntry (key value : Option (ℕ × LuaDataMessage)) (map : TableType) : TableType :=
  match key, value with
  | some (a, k), some (_, v) => mapInsert a k v map
  | _, _ => map

/-- The message for the value at the index `n` of the frame, or a null pointer, with the number of
allocations so far. The loop over a table keeps the key and the value on the stack for the two calls;
it leaves the stack as it was. -/
def convertData : ℕ → ℕ → List LuaValue → ℤ → Bool →
    Except Fault (ℕ × Option (ℕ × LuaDataMessage))
  | 0, _, _, _, _ => .error .outOfFuel
  | fuel + 1, next, stack, n, insideTable =>
    let v := (index2adr stack n).getD .nil
    if v.isnumber then newMessage addr next (.number v.tonumber)
    else if v.isstring then newMessage addr next (.string (v.tostring.getD []))
    else if v.isboolean then newMessage addr next (.boolean v.toboolean)
    else if v.istable then
      let n := if insideTable then (stack.length : ℤ) else n
      match index2adr (stack ++ [LuaValue.nil]) n with
      | some (.table r) => do
        let (next, map) ← (heap.entries r).foldlM (fun (next, map) (k, v) => do
          let (next, key) ← convertData fuel next (stack ++ [k, v]) (-2) true
          let (next, value) ← convertData fuel next (stack ++ [k, v]) (-1) true
          return (next, insertEntry key value map)) (next, [])
        newMessage addr next (.ofMap map)
      | _ => .error .notATable
    else .ok (next, none)

end Convert

/-! ## `LuaThread::ReturnDataLua` -/

/-- The value pushed; the fresh table at index -3 is filled entry by entry. -/
def returnDataLua : LuaDataMessage → Except LuaError LuaTree
  | .number n => .ok (.leaf (.number n))
  | .string s => .ok (.leaf (.string (cstring s)))
  | .boolean b => .ok (.leaf (.boolean b))
  | .table size key value => do
    let t ← (List.finRange size).foldlM (fun t i => do
      let k ← returnDataLua (key i)
      let v ← returnDataLua (value i)
      settable t k v) []
    return .ofList t

end LuaTT.DataMessage
