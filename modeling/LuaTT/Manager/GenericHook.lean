import LuaTT.Manager.DispatchVerdict

/-! `LuaManager::Generic_Hook` as its callers use it: the data of an event are six `void *` words, and a
list of kinds says what each of them is, the number itself or the address of a float or of a text. Where
every word is what its kind says, the hook is the one that takes the data themselves. -/
namespace LuaTT.GenericHook
open Lua LState Dispatch
set_option autoImplicit false

/-! ## Words and kinds -/

/-- A `void *` of the 32-bit server. -/
abbrev Word := UInt32

def nullptr : Word := 0

/-- `(void *)i` of an int. -/
def ofInt32 (i : Int32) : Word := i.toUInt32

/-- `reinterpret_cast<int>(data)`. -/
def toInt (w : Word) : ℤ := w.toInt32.toInt

/-- What can be read where: `none` where a read would leave the objects of the program. -/
structure WordMemory where
  float : Word → Option Float32
  double : Word → Option LuaNumber
  cstr : Word → Option Bytes

inductive GenericParam
  | useNothing
  | useInt
  | useFloat
  | useString
  | useBool
  | useDouble
  deriving DecidableEq

structure GenericParamList where
  ret : GenericParam := .useNothing
  p1 : GenericParam := .useNothing
  p2 : GenericParam := .useNothing
  p3 : GenericParam := .useNothing
  p4 : GenericParam := .useNothing
  p5 : GenericParam := .useNothing
  p6 : GenericParam := .useNothing
  defaultReturn : ℤ := 1

/-- The six words of a call. -/
structure Data where
  p1 : Word := nullptr
  p2 : Word := nullptr
  p3 : Word := nullptr
  p4 : Word := nullptr
  p5 : Word := nullptr
  p6 : Word := nullptr

/-- `GenericHelper_getTotalArguments`. -/
def getTotalArguments (params : GenericParamList) : ℕ :=
  let t := 0
  let t := if params.p1 ≠ .useNothing then t + 1 else t
  let t := if params.p2 ≠ .useNothing then t + 1 else t
  let t := if params.p3 ≠ .useNothing then t + 1 else t
  let t := if params.p4 ≠ .useNothing then t + 1 else t
  let t := if params.p5 ≠ .useNothing then t + 1 else t
  if params.p6 ≠ .useNothing then t + 1 else t

section Hook
variable {M : Type} (code : Code M) (mem : WordMemory)

/-- `GenericHelper_pushStack`; `lua_pushstring` takes NULL for nil. -/
def pushStack (type : GenericParam) (data : Word) (L : LState M) : Option (LState M) :=
  match type with
  | .useBool => some (L.push (.boolean (data ≠ nullptr)))
  | .useString =>
    if data = nullptr then some (L.push .nil)
    else (mem.cstr data).map fun s => L.push (string s)
  | .useInt => some (L.push (number (toInt data)))
  | .useDouble => (mem.double data).map fun d => L.push (.number d)
  | .useFloat => (mem.float data).map fun f => L.push (float f)
  | .useNothing => some L

/-- What becomes of `ret` once the hook of a state has returned. -/
def combine (type : GenericParam) (ret : ℤ) (v : LuaValue) : ℤ :=
  match type with
  | .useBool => if ret = 0 then ret else if v.toboolean then 1 else 0
  | .useInt =>
    match v.tolstring with
    | some s => (LuaValue.string s).tointeger
    | none => ret
  | _ => ret

def genericLoop (func : Bytes) (params : GenericParamList) (data : Data) (usingReturn : ℕ) :
    ℤ → List (LState M) → Option (List (LState M) × ℤ)
  | ret, [] => some ([], ret)
  | ret, L :: lua => do
    let L := L.getglobal code func
    if L.top.isfunction then
      let L ← pushStack mem params.p1 data.p1 L
      let L ← pushStack mem params.p2 data.p2 L
      let L ← pushStack mem params.p3 data.p3 L
      let L ← pushStack mem params.p4 data.p4 L
      let L ← pushStack mem params.p5 data.p5 L
      let L ← pushStack mem params.p6 data.p6 L
      let (L, status) := L.pcall code (getTotalArguments params) (some usingReturn)
      let L := (reportErrors code L status).1
      let (lua, ret) ← genericLoop func params data usingReturn (combine params.ret ret L.top) lua
      some (L.pop (-1) :: lua, ret)
    else
      let (lua, ret) ← genericLoop func params data usingReturn ret lua
      some (L.setglobal code func :: lua, ret)

/-- `LuaManager::Generic_Hook`; `none` where it reads what is no object of its kind. -/
def genericHook (func : Bytes) (params : GenericParamList) (data : Data) (lua : List (LState M)) :
    Option (List (LState M) × ℤ) :=
  if params.ret ≠ .useNothing then genericLoop code mem func params data 1 params.defaultReturn lua
  else genericLoop code mem func params data 0 0 lua

end Hook

/-! ## The data the words stand for -/

def param (mem : WordMemory) (type : GenericParam) (data : Word) : Option Dispatch.GenericParam :=
  match type with
  | .useNothing => some .useNothing
  | .useInt => some (.useInt (toInt data))
  | .useBool => some (.useBool (data ≠ nullptr))
  | .useDouble => (mem.double data).map .useDouble
  | .useFloat => (mem.float data).map .useFloat
  | .useString =>
    if data = nullptr then some (.useString none) else (mem.cstr data).map fun s => .useString (some s)

def genericReturn : GenericParam → GenericReturn
  | .useNothing => .useNothing
  | .useInt => .useInt
  | .useBool => .useBool
  | _ => .useOther

/-- The list of parameters with their data, if every word is what its kind says. -/
def typed (mem : WordMemory) (params : GenericParamList) (data : Data) :
    Option Dispatch.GenericParamList := do
  let p1 ← param mem params.p1 data.p1
  let p2 ← param mem params.p2 data.p2
  let p3 ← param mem params.p3 data.p3
  let p4 ← param mem params.p4 data.p4
  let p5 ← param mem params.p5 data.p5
  let p6 ← param mem params.p6 data.p6
  some ⟨genericReturn params.ret, p1, p2, p3, p4, p5, p6, params.defaultReturn⟩

variable {mem : WordMemory} {params : GenericParamList} {data : Data} {t : Dispatch.GenericParamList}

theorem typed_eq_some (h : typed mem params data = some t) :
    t.ret = genericReturn params.ret ∧ t.defaultReturn = params.defaultReturn ∧
    param mem params.p1 data.p1 = some t.p1 ∧ param mem params.p2 data.p2 = some t.p2 ∧
    param mem params.p3 data.p3 = some t.p3 ∧ param mem params.p4 data.p4 = some t.p4 ∧
    param mem params.p5 data.p5 = some t.p5 ∧ param mem params.p6 data.p6 = some t.p6 := by
  simp only [typed, Option.bind_eq_bind, Option.bind_eq_some_iff, Option.some.injEq] at h
  obtain ⟨p1, h1, p2, h2, p3, h3, p4, h4, p5, h5, p6, h6, rfl⟩ := h
  exact ⟨rfl, rfl, h1, h2, h3, h4, h5, h6⟩

/-! ## Refinement -/

section Refinement
variable {M : Type} {p : Dispatch.GenericParam} {type : GenericParam} {w : Word}

theorem pushStack_eq (h : param mem type w = some p) (L : LState M) :
    pushStack mem type w L = some (L.pushAll (Dispatch.GenericParamList.pushStack p)) := by
  cases type with
  | useNothing =>
    obtain rfl : Dispatch.GenericParam.useNothing = p := Option.some.inj h
    simp [pushStack, pushAll, Dispatch.GenericParamList.pushStack]
  | useInt =>
    obtain rfl : Dispatch.GenericParam.useInt (toInt w) = p := Option.some.inj h
    rfl
  | useBool =>
    obtain rfl : Dispatch.GenericParam.useBool _ = p := Option.some.inj h
    rfl
  | useDouble =>
    obtain ⟨d, hd, rfl⟩ := Option.map_eq_some_iff.mp h
    simp only [pushStack, hd, Option.map_some]
    rfl
  | useFloat =>
    obtain ⟨f, hf, rfl⟩ := Option.map_eq_some_iff.mp h
    simp only [pushStack, hf, Option.map_some]
    rfl
  | useString =>
    simp only [param] at h
    split_ifs at h with hw
    · obtain rfl := Option.some.inj h
      rw [pushStack, if_pos hw]
      rfl
    · obtain ⟨s, hs, rfl⟩ := Option.map_eq_some_iff.mp h
      rw [pushStack, if_neg hw, hs]
      rfl

/-- A kind asks for an argument exactly if its parameter is one. -/
theorem useNothing_iff (h : param mem type w = some p) :
    type = .useNothing ↔ Dispatch.GenericParamList.pushStack p = [] := by
  cases type with
  | useNothing => obtain rfl := Option.some.inj h; simp [Dispatch.GenericParamList.pushStack]
  | useInt => obtain rfl := Option.some.inj h; simp [Dispatch.GenericParamList.pushStack]
  | useBool => obtain rfl := Option.some.inj h; simp [Dispatch.GenericParamList.pushStack]
  | useDouble =>
    obtain ⟨d, hd, rfl⟩ := Option.map_eq_some_iff.mp h
    simp [Dispatch.GenericParamList.pushStack]
  | useFloat =>
    obtain ⟨f, hf, rfl⟩ := Option.map_eq_some_iff.mp h
    simp [Dispatch.GenericParamList.pushStack]
  | useString =>
    simp only [param] at h
    split_ifs at h
    · obtain rfl := Option.some.inj h; simp [Dispatch.GenericParamList.pushStack]
    · obtain ⟨s, hs, rfl⟩ := Option.map_eq_some_iff.mp h
      simp [Dispatch.GenericParamList.pushStack]

/-- The count goes up by the number of values that are pushed. -/
theorem count_eq (h : param mem type w = some p) (t : ℕ) :
    (if type ≠ .useNothing then t + 1 else t) =
      t + (Dispatch.GenericParamList.pushStack p).length := by
  have hle : (Dispatch.GenericParamList.pushStack p).length ≤ 1 := by
    cases p <;> simp [Dispatch.GenericParamList.pushStack]
  by_cases ht : type = .useNothing
  · have hnil := (useNothing_iff h).mp ht
    simp [ht, hnil]
  · have hne : Dispatch.GenericParamList.pushStack p ≠ [] := fun hnil => ht ((useNothing_iff h).mpr hnil)
    have hpos := List.length_pos_iff.mpr hne
    rw [if_pos ht]
    omega

theorem getTotalArguments_eq_length (h : typed mem params data = some t) :
    getTotalArguments params = t.args.length := by
  obtain ⟨-, -, h1, h2, h3, h4, h5, h6⟩ := typed_eq_some h
  simp only [getTotalArguments, count_eq h1, count_eq h2, count_eq h3, count_eq h4, count_eq h5,
    count_eq h6, Dispatch.GenericParamList.args, Dispatch.GenericParamList.params,
    List.flatMap_cons, List.flatMap_nil, List.length_append, List.length_nil]
  omega

theorem combine_eq (h : typed mem params data = some t) (ret : ℤ) (v : LuaValue) :
    combine params.ret ret v = t.combine ret v := by
  obtain ⟨hret, -⟩ := typed_eq_some h
  unfold combine Dispatch.GenericParamList.combine
  rw [hret]
  cases params.ret <;> rfl

theorem pushAll_pushAll (L : LState M) (vs ws : List LuaValue) :
    (L.pushAll vs).pushAll ws = L.pushAll (vs ++ ws) := by
  simp [pushAll]

variable (code : Code M)

theorem genericLoop_eq (h : typed mem params data = some t) (func : Bytes) (usingReturn : ℕ) (ret : ℤ)
    (lua : List (LState M)) : genericLoop code mem func params data usingReturn ret lua =
      some (Dispatch.genericLoop code func t usingReturn ret lua) := by
  obtain ⟨-, -, h1, h2, h3, h4, h5, h6⟩ := typed_eq_some h
  have hargs : t.args.length = t.getTotalArguments := (getTotalArguments_eq t).symm
  induction lua generalizing ret with
  | nil => rfl
  | cons L lua ih =>
    simp only [genericLoop, Dispatch.genericLoop]
    by_cases hf : (L.getglobal code func).top.isfunction
    · simp only [if_pos hf, pushStack_eq h1, pushStack_eq h2, pushStack_eq h3, pushStack_eq h4,
        pushStack_eq h5, pushStack_eq h6, Option.bind_eq_bind, Option.bind_some, pushAll_pushAll,
        getTotalArguments_eq_length h, hargs, combine_eq h, ih]
      simp [Dispatch.GenericParamList.args, Dispatch.GenericParamList.params]
    · simp only [if_neg hf, ih, Option.bind_eq_bind, Option.bind_some]

/-- With words of their kinds nothing wrong is read, and the hook does what the hook on data does. -/
theorem genericHook_eq (h : typed mem params data = some t) (func : Bytes) (lua : List (LState M)) :
    genericHook code mem func params data lua = some (Dispatch.genericHook code func t lua) := by
  obtain ⟨hret, hdef, -⟩ := typed_eq_some h
  have hiff : params.ret ≠ .useNothing ↔ t.ret ≠ .useNothing := by
    rw [hret]
    cases params.ret <;> simp [genericReturn]
  simp only [genericHook, Dispatch.genericHook, genericLoop_eq code h, hdef, hiff]
  split_ifs <;> rfl

end Refinement
end LuaTT.GenericHook
