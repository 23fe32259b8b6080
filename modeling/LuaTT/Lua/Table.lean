import LuaTT.Library.TableTree
import LuaTT.Lua.Value

/-! Lua tables: the heap of a state, the finite values in it as trees, and the store into a new table.
A table that a C function has just created is reached from one place only, so it is written as the list
of its entries. -/
namespace LuaTT.Lua
open TableTree
set_option autoImplicit false

/-! ## Keys -/

def normalNumber (n : LuaNumber) : LuaNumber := if n == 0 then 0 else n

theorem normalNumber_normalNumber (n : LuaNumber) :
    normalNumber (normalNumber n) = normalNumber n := by
  have hz : normalNumber 0 = 0 := by decide +kernel
  by_cases hn : n == 0
  · rw [show normalNumber n = 0 from if_pos hn, hz]
  · rw [show normalNumber n = n from if_neg hn, show normalNumber n = n from if_neg hn]

namespace LuaValue

/-- Equality of keys: numbers by value, everything else by identity. -/
def rawequal : LuaValue → LuaValue → Bool
  | number a, number b => a == b
  | u, v => u = v

/-- A key as it can stand in a table. -/
def isKey : LuaValue → Bool
  | nil => false
  | number n => n == n && normalNumber n = n
  | _ => true

end LuaValue

/-- The tables of a Lua state, each with its entries in the order of `lua_next`. -/
structure Heap where
  entries : ℕ → List (LuaValue × LuaValue)
  isKey : ∀ r, ∀ e ∈ entries r, e.1.isKey
  distinct : ∀ r, (entries r).Pairwise fun e e' => e.1.rawequal e'.1 = false

/-! ## Finite values -/

inductive LuaLeaf
  | number (n : LuaNumber)
  | string (s : Bytes)
  | boolean (b : Bool)
  deriving DecidableEq

/-- A finite acyclic value of numbers, strings, booleans and tables. -/
abbrev LuaTree := ValueTree LuaLeaf

/-- The value `v` of the heap is finite and acyclic, and the tree shows it. -/
inductive Unfolds (h : Heap) : LuaValue → LuaTree → Prop
  | number (n : LuaNumber) : Unfolds h (.number n) (.leaf (.number n))
  | string (s : Bytes) : Unfolds h (.string s) (.leaf (.string s))
  | boolean (b : Bool) : Unfolds h (.boolean b) (.leaf (.boolean b))
  | table (r : ℕ) (k v : Fin (h.entries r).length → LuaTree)
      (hk : ∀ i, Unfolds h ((h.entries r).get i).1 (k i))
      (hv : ∀ i, Unfolds h ((h.entries r).get i).2 (v i)) :
      Unfolds h (.table r) (.table (h.entries r).length k v)

theorem Unfolds.istable_eq {h : Heap} {v : LuaValue} {t : LuaTree} (hu : Unfolds h v t) :
    v.istable = t.isTable := by
  cases hu <;> rfl

/-! ## The store into a new table -/

def LuaLeaf.rawequal : LuaLeaf → LuaLeaf → Bool
  | number a, number b => a == b
  | u, v => u = v

/-- Two keys of a new table are the same key. Tables are different objects. -/
def sameKey : LuaTree → LuaTree → Bool
  | .leaf a, .leaf b => a.rawequal b
  | _, _ => false

def normalKey : LuaTree → LuaTree
  | .leaf (.number n) => .leaf (.number (normalNumber n))
  | t => t

theorem rawequal_comm (a b : LuaLeaf) : a.rawequal b = b.rawequal a := by
  cases a <;> cases b <;> simp [LuaLeaf.rawequal, beq_comm, eq_comm]

theorem sameKey_comm (s t : LuaTree) : sameKey s t = sameKey t s := by
  cases s <;> cases t <;> simp [sameKey, rawequal_comm]

theorem sameKey_congr {s s' t t' : LuaTree} (hs : s.Same s') (ht : t.Same t') :
    sameKey s t = sameKey s' t' := by
  cases s <;> cases s' <;> cases t <;> cases t' <;> simp_all [ValueTree.Same, sameKey]

theorem normalKey_normalKey (t : LuaTree) : normalKey (normalKey t) = normalKey t := by
  cases t with
  | leaf a => cases a <;> simp [normalKey, normalNumber_normalNumber]
  | table n k v => rfl

@[simp] theorem normalKey_isTable (t : LuaTree) : (normalKey t).isTable = t.isTable := by
  cases t with
  | leaf a => cases a <;> rfl
  | table n k v => rfl

theorem normalKey_eq_self {t : LuaTree} (h : t.isTable = true) : normalKey t = t := by
  cases t with
  | leaf a => simp [ValueTree.isTable] at h
  | table n k v => rfl

theorem normalKey_congr {s t : LuaTree} (h : s.Same t) : (normalKey s).Same (normalKey t) := by
  cases s <;> cases t
  · obtain rfl := h
    exact .refl _
  · exact h.elim
  · exact h.elim
  · exact h

/-- The value of the key is replaced, or the entry added. -/
def store (key value : LuaTree) : List (LuaTree × LuaTree) → List (LuaTree × LuaTree)
  | [] => [(key, value)]
  | (k, v) :: t => if sameKey k key then (k, value) :: t else (k, v) :: store key value t

inductive LuaError
  /-- "table index is NaN" -/
  | nanIndex
  /-- "bad argument #`narg` (string expected)" -/
  | stringExpected (narg : ℕ)
  deriving DecidableEq, Repr

/-- `lua_settable` on a new table. -/
def settable (t : List (LuaTree × LuaTree)) (key value : LuaTree) :
    Except LuaError (List (LuaTree × LuaTree)) :=
  match key with
  | .leaf (.number n) => if n == n then .ok (store (normalKey key) value t) else .error .nanIndex
  | _ => .ok (store key value t)

end LuaTT.Lua
