import LuaTT.Lua.State

/-! Reads and writes by name as LuaJIT performs them for `lua_getfield` and `lua_setfield`. Both follow the
metamethods of one event from object to object until a table takes the access; on the way they may come to a
function, which is called, or fail. -/
namespace LuaTT.Lua
set_option autoImplicit false

/-- The memory of a Lua state, as far as the host can come across it. -/
structure Memory where
  /-- The entries of the tables with string keys, nil where there is none. -/
  get : ℕ → Bytes → LuaValue
  /-- Tables and userdata have their own metatable, the other types one for all their values. -/
  metatable : LuaValue → Option ℕ
  /-- `LUA_GLOBALSINDEX`. -/
  globals : ℕ
  /-- `LUA_REGISTRYINDEX`, and what `luaL_ref` has put there. -/
  registry : ℕ
  refs : ℤ → LuaValue
  /-- Some object with a finalizer waits for the collector. -/
  due : Bool
  /-- The slots of the stack below the frame. -/
  base : ℕ

/-- Where an access by name ends. -/
inductive Walk
  | ends (t : ℕ)
  | calls (f : LuaValue)
  | error
  deriving DecidableEq

/-- Only a table takes an access. -/
def Walk.endAt : LuaValue → Walk
  | .table t => .ends t
  | _ => .error

/-- `LJ_MAX_IDXCHAIN`. -/
def maxIdxChain : ℕ := 100

namespace Memory

def rawget (m : Memory) (o : LuaValue) (k : Bytes) : LuaValue :=
  match o with
  | .table t => m.get t k
  | _ => .nil

/-- `lj_meta_lookup`. -/
def metamethod (m : Memory) (o : LuaValue) (event : Bytes) : LuaValue :=
  match m.metatable o with
  | some mt => m.get mt event
  | none => .nil

/-- The loop of `lj_meta_tget` and, with the other event, of `lj_meta_tset`. -/
def walk (m : Memory) (event k : Bytes) : ℕ → LuaValue → Walk
  | 0, _ => .error
  | n + 1, o =>
    if m.rawget o k ≠ .nil ∨ m.metamethod o event = .nil then .endAt o
    else if (m.metamethod o event).isfunction then .calls (m.metamethod o event)
    else walk m event k n (m.metamethod o event)

/-- `lj_meta_tget`. -/
def tget (m : Memory) (o : LuaValue) (k : Bytes) : Walk := m.walk (bytes "__index") k maxIdxChain o

/-- `lj_meta_tset`. -/
def tset (m : Memory) (o : LuaValue) (k : Bytes) : Walk := m.walk (bytes "__newindex") k maxIdxChain o

def set (m : Memory) (t : ℕ) (k : Bytes) (v : LuaValue) : Memory :=
  { m with get := Function.update m.get t (Function.update (m.get t) k v) }

/-- The value of a read that a table takes. -/
def getfield (m : Memory) (o : LuaValue) (k : Bytes) : LuaValue :=
  match m.tget o k with
  | .ends t => m.get t k
  | _ => .nil

/-- The memory after a write that a table takes. -/
def setfield (m : Memory) (o : LuaValue) (k : Bytes) (v : LuaValue) : Memory :=
  match m.tset o k with
  | .ends t => m.set t k v
  | _ => m

/-! ## Chains -/

/-- `n` objects, each without the name and with a metamethod that is no function but the next object, lead
from `o` to the table `t`, which has the name or no such metamethod. -/
inductive Leads (m : Memory) (event k : Bytes) : ℕ → LuaValue → ℕ → Prop
  | here {t : ℕ} (h : m.get t k ≠ .nil ∨ m.metamethod (.table t) event = .nil) :
    Leads m event k 0 (.table t) t
  | next {n : ℕ} {o : LuaValue} {t : ℕ} (hraw : m.rawget o k = .nil)
      (hmo : m.metamethod o event ≠ .nil) (hf : (m.metamethod o event).isfunction = false)
      (h : Leads m event k n (m.metamethod o event) t) : Leads m event k (n + 1) o t

variable {m : Memory} {event k : Bytes} {o : LuaValue} {t : ℕ}

theorem walk_of_leads {n fuel : ℕ} (h : Leads m event k n o t) (hn : n < fuel) :
    m.walk event k fuel o = .ends t := by
  induction h generalizing fuel with
  | here h =>
    cases fuel with
    | zero => omega
    | succ fuel => exact if_pos h
  | next hraw hmo hf _ ih =>
    cases fuel with
    | zero => omega
    | succ fuel =>
      have hgo : ¬ (m.rawget _ k ≠ .nil ∨ m.metamethod _ event = .nil) :=
        not_or.mpr ⟨not_not.mpr hraw, hmo⟩
      rw [walk, if_neg hgo, if_neg (by simp [hf])]
      exact ih (by omega)

theorem leads_of_walk {fuel : ℕ} (h : m.walk event k fuel o = .ends t) :
    ∃ n < fuel, Leads m event k n o t := by
  induction fuel generalizing o with
  | zero => cases h
  | succ fuel ih =>
    rw [walk] at h
    split_ifs at h with hend hf
    · cases o with
      | table t' =>
        obtain rfl := Walk.ends.inj h
        exact ⟨0, Nat.succ_pos _, .here hend⟩
      | _ => cases h
    · obtain ⟨hraw, hmo⟩ := not_or.mp hend
      obtain ⟨n, hn, hleads⟩ := ih h
      exact ⟨n + 1, by omega, .next (not_not.mp hraw) hmo (by simpa using hf) hleads⟩

theorem walk_eq_ends_iff {fuel : ℕ} : m.walk event k fuel o = .ends t ↔ ∃ n < fuel, Leads m event k n o t :=
  ⟨leads_of_walk, fun ⟨_, hn, h⟩ => walk_of_leads h hn⟩

theorem tget_eq_ends_iff :
    m.tget o k = .ends t ↔ ∃ n < maxIdxChain, Leads m (bytes "__index") k n o t := walk_eq_ends_iff

theorem tset_eq_ends_iff :
    m.tset o k = .ends t ↔ ∃ n < maxIdxChain, Leads m (bytes "__newindex") k n o t := walk_eq_ends_iff

/-- The table that takes an access has the name, or nothing to pass it on to. -/
theorem Leads.end_of {n : ℕ} (h : Leads m event k n o t) :
    m.get t k ≠ .nil ∨ m.metamethod (.table t) event = .nil := by
  induction h with
  | here h => exact h
  | next _ _ _ _ ih => exact ih

theorem walk_self (h : m.get t k ≠ .nil ∨ m.metamethod (.table t) event = .nil) :
    m.walk event k maxIdxChain (.table t) = .ends t := walk_of_leads (.here h) (by decide)

/-! ## Writing back what has been read -/

/-- A table holds the name, or passes writes of it on, or a read of it gives nil. -/
def KeepsOnWrite (m : Memory) (t : ℕ) (k : Bytes) : Prop :=
  m.get t k ≠ .nil ∨ m.metamethod (.table t) (bytes "__newindex") ≠ .nil ∨ m.getfield (.table t) k = .nil

/-- Exactly then the table stays as it is where a read value is written back. -/
theorem setfield_getfield_iff {t' : ℕ} (hw : m.tset (.table t) k = .ends t') :
    (m.setfield (.table t) k (m.getfield (.table t) k)).get t = m.get t ↔ m.KeepsOnWrite t k := by
  simp only [setfield, hw, set]
  by_cases hraw : m.get t k = .nil
  · by_cases hmo : m.metamethod (.table t) (bytes "__newindex") = .nil
    · have hself : t' = t := by
        rw [tset, walk_self (.inr hmo)] at hw
        exact (Walk.ends.inj hw).symm
      rw [hself, Function.update_self, KeepsOnWrite]
      constructor
      · intro hsame
        have hk := congrFun hsame k
        rw [Function.update_self, hraw] at hk
        exact .inr (.inr hk)
      · rintro (h | h | h)
        · exact absurd hraw h
        · exact absurd hmo h
        · rw [h, ← hraw, Function.update_eq_self]
    · have hother : t' ≠ t := by
        rintro rfl
        obtain ⟨n, _, hleads⟩ := leads_of_walk hw
        exact hleads.end_of.elim (fun h => h hraw) hmo
      exact iff_of_true (Function.update_of_ne hother.symm _ _) (.inr (.inl hmo))
  · have hself : t' = t := by
      rw [tset, walk_self (.inl hraw)] at hw
      exact (Walk.ends.inj hw).symm
    have hread : m.getfield (.table t) k = m.get t k := by
      rw [getfield, tget, walk_self (.inl hraw)]
    rw [hself, Function.update_self, hread, Function.update_eq_self]
    exact iff_of_true rfl (.inl hraw)

end Memory

/-! ## Programs -/

/-- The functions of a plugin over its memory. -/
def plugin (call : Memory → LuaValue → List LuaValue → Memory × Except LuaValue (List LuaValue)) :
    Code Memory where
  getglobal m name := m.getfield (.table m.globals) name
  setglobal m name v := m.setfield (.table m.globals) name v
  call := call

end LuaTT.Lua
