import Mathlib.Tactic.Linarith
import LuaTT.Classes.ValueObjects

/-! What an accessor reads after it has set something. -/
namespace LuaTT.ValueObjects
open Lua
set_option autoImplicit false

variable {Mat : Type}

/-! ## Parts of objects -/

inductive Content (Mat : Type)
  | number (x : ℚ)
  | flag (b : Bool)
  | vector (v : Vec)
  | matrix (m : Mat)

inductive Part
  | component (c : Component)
  | rows
  | center
  | extent
  | basis
  | float (f : FloatField)
  | int (f : IntField)
  | bool (f : BoolField)
  | vec (f : VecField)
  deriving DecidableEq

def Object.part : Object Mat → Part → Option (Content Mat)
  | vector3 v, .component c => some (.number (v.get c))
  | matrix3 m, .rows => some (.matrix m)
  | box b, .center => some (.vector b.center)
  | box b, .extent => some (.vector b.extent)
  | box b, .basis => some (.matrix b.basis)
  | actionParams a, .float f => some (.number (a.float f))
  | actionParams a, .int f => some (.number (a.int f))
  | actionParams a, .bool f => some (.flag (a.bool f))
  | actionParams a, .vec f => some (.vector (a.vec f))
  | _, _ => none

/-! ## Settings -/

/-- A setter with its arguments; vectors are passed as userdata that hold them. -/
inductive Setting
  /-- `v:X(a)`, and likewise. -/
  | component (c : Component) (a : ℚ)
  | assign (c : Component) (a : ℚ)
  | center (v : Vec)
  | extent (v : Vec)
  | rows (r1 r2 r3 : ℕ) (v1 v2 v3 : Vec)
  | float (f : FloatField) (a : ℚ)
  | int (f : IntField) (a : ℚ)
  | bool (f : BoolField) (b : Bool)
  | vec (f : VecField) (r : ℕ) (v : Vec)

namespace Setting

def args : Setting → List Value
  | component _ a => [.number a]
  | assign _ a => [.number a]
  | center v => [.number v.x, .number v.y, .number v.z]
  | extent v => [.number v.x, .number v.y, .number v.z]
  | rows r1 r2 r3 _ _ _ => [.userdata r1, .userdata r2, .userdata r3]
  | float _ a => [.number a]
  | int _ a => [.number a]
  | bool _ b => [.boolean b]
  | vec _ r _ => [.userdata r]

def setter (E : MatrixClass Mat) : Setting → Method Mat
  | component c _ => ValueObjects.component c
  | assign c _ => assignComponent c
  | center _ => setCenter
  | extent _ => setExtent
  | rows .. => matrixSet E
  | float f _ => paramFloat f
  | int f _ => paramInt f
  | bool f _ => paramBool f
  | vec f _ _ => paramVec f

/-- The getters, with what was set. -/
def getters (E : MatrixClass Mat) : Setting → List (Method Mat × Content Mat)
  | component c a => [(ValueObjects.component c, .number a)]
  | assign c a => [(getComponent c, .number a)]
  | center v => [(getCenter, .vector v)]
  | extent v => [(getExtent, .vector v)]
  | rows _ _ _ v1 v2 v3 => [(getVector E.getXVector, .vector v1), (getVector E.getYVector, .vector v2),
      (getVector E.getZVector, .vector v3)]
  | float f a => [(paramFloat f, .number a)]
  | int f a => [(paramInt f, .number a)]
  | bool f b => [(paramBool f, .flag b)]
  | vec f _ v => [(paramVec f, .vector v)]

def part : Setting → Part
  | component c _ => .component c
  | assign c _ => .component c
  | center _ => .center
  | extent _ => .extent
  | rows .. => .rows
  | float f _ => .float f
  | int f _ => .int f
  | bool f _ => .bool f
  | vec f _ _ => .vec f

/-- The object is of the class of the setter, and the vectors passed are there. -/
def Fits (heap : Heap Mat) (self : ℕ) : Setting → Prop
  | component _ _ => ∃ v, heap[self]? = some (.vector3 v)
  | assign _ _ => ∃ v, heap[self]? = some (.vector3 v)
  | center _ => ∃ b, heap[self]? = some (.box b)
  | extent _ => ∃ b, heap[self]? = some (.box b)
  | rows r1 r2 r3 v1 v2 v3 => (∃ m, heap[self]? = some (.matrix3 m)) ∧ heap[r1]? = some (.vector3 v1) ∧
      heap[r2]? = some (.vector3 v2) ∧ heap[r3]? = some (.vector3 v3)
  | float _ _ => ∃ a, heap[self]? = some (.actionParams a)
  | int _ _ => ∃ a, heap[self]? = some (.actionParams a)
  | bool _ _ => ∃ a, heap[self]? = some (.actionParams a)
  | vec _ r v => (∃ a, heap[self]? = some (.actionParams a)) ∧ heap[r]? = some (.vector3 v)

end Setting

/-! ## The laws -/

/-- A boolean may be read back as a number. -/
def Shows (heap : Heap Mat) (r : Value) : Content Mat → Prop
  | .number x => r = .number x
  | .flag b => r = .boolean b ∨ ∃ x, r = .number x ∧ (x ≠ 0 ↔ b = true)
  | .vector v => ∃ ref, r = .userdata ref ∧ heap[ref]? = some (.vector3 v)
  | .matrix _ => False

/-- Neither call raises an error, the getter gives what was set, and nothing else has changed. -/
structure LensLaw (E : MatrixClass Mat) (heap : Heap Mat) (self : ℕ) (s : Setting) : Prop where
  law : ∃ results heap', s.setter E heap (.userdata self :: s.args) = .ok (results, heap') ∧
    (∀ g ∈ s.getters E, ∃ r heap'', g.1 heap' [.userdata self] = .ok ([r], heap'') ∧ Shows heap'' r g.2 ∧
      heap' <+: heap'') ∧
    (∀ k ≠ self, heap'[k]? = heap[k]?) ∧
    ∀ p ≠ s.part, (heap'[self]?).bind (·.part p) = (heap[self]?).bind (·.part p)

section Calls
variable {heap : Heap Mat} {self : ℕ}

theorem getInstance_ok {α : Type} {cls : String} {as : Object Mat → Option α} {stack : List Value} {n ref : ℕ}
    {o : Object Mat} {a : α} (hs : slot stack n = .userdata ref) (ho : heap[ref]? = some o) (ha : as o = some a) :
    getInstance cls as heap stack n = .ok (ref, a) := by
  simp only [getInstance, hs, ho, Option.bind_some, ha]

theorem getElem?_set {o : Object Mat} (o' : Object Mat) (ho : heap[self]? = some o) :
    (heap.set self o')[self]? = some o' := by
  obtain ⟨hlt, _⟩ := List.getElem?_eq_some_iff.mp ho
  exact List.getElem?_set_self hlt

/-- A getter that returns gives what was set. -/
def Reads (heap : Heap Mat) (self : ℕ) (g : Method Mat × Content Mat) : Prop :=
  ∃ r heap', g.1 heap [.userdata self] = .ok ([r], heap') ∧ Shows heap' r g.2 ∧ heap <+: heap'

/-- A setter that puts `o'` in the place of the object is as good as its getters. -/
theorem lensLaw_iff {E : MatrixClass Mat} {s : Setting} {o o' : Object Mat} {results : List Value}
    (ho : heap[self]? = some o)
    (hset : s.setter E heap (.userdata self :: s.args) = .ok (results, heap.set self o'))
    (hpart : ∀ p ≠ s.part, o'.part p = o.part p) :
    LensLaw E heap self s ↔ ∀ g ∈ s.getters E, Reads (heap.set self o') self g := by
  constructor
  · rintro ⟨results', heap', hset', hget, _⟩
    rw [hset] at hset'
    obtain ⟨rfl, rfl⟩ := Prod.mk.inj (Except.ok.inj hset')
    exact hget
  · intro hget
    refine ⟨results, heap.set self o', hset, hget, ?_, ?_⟩
    · intro k hk
      exact List.getElem?_set_ne (Ne.symm hk)
    · intro p hp
      rw [getElem?_set _ ho, ho, Option.bind_some, Option.bind_some]
      exact hpart p hp

theorem reads_iff {m : Method Mat} {c : Content Mat} {r : Value} {heap' : Heap Mat}
    (hget : m heap [.userdata self] = .ok ([r], heap')) (hpre : heap <+: heap') :
    Reads heap self (m, c) ↔ Shows heap' r c := by
  constructor
  · rintro ⟨r', heap'', hcall, hshows, _⟩
    obtain ⟨hr, rfl⟩ := Prod.mk.inj (Except.ok.inj (hget.symm.trans hcall))
    obtain rfl := List.singleton_inj.mp hr
    exact hshows
  · intro hshows
    exact ⟨r, heap', hget, hshows, hpre⟩

/-- A new vector shows what was pushed. -/
theorem shows_pushVector3 {v w : Vec} :
    Shows (heap ++ [.vector3 w] : Heap Mat) (.userdata heap.length) (.vector v) ↔ w = v := by
  constructor
  · rintro ⟨ref, href, hat⟩
    obtain rfl := Value.userdata.inj href
    rw [List.getElem?_concat_length] at hat
    exact Object.vector3.inj (Option.some.inj hat)
  · rintro rfl
    exact ⟨heap.length, rfl, List.getElem?_concat_length⟩

theorem shows_number {x y : ℚ} : Shows heap (.number y) (.number x) ↔ y = x := by
  constructor
  · exact Value.number.inj
  · rintro rfl
    rfl

/-! ### `LuaVector3` -/

theorem Vec.get_set_self (v : Vec) (a : ℚ) (c : Component) : (v.set a c).get c = a := by
  cases c <;> rfl

theorem Vec.get_set_ne (v : Vec) (a : ℚ) {c c' : Component} (h : c' ≠ c) : (v.set a c).get c' = v.get c' := by
  cases c <;> cases c' <;> first | rfl | exact absurd rfl h

theorem getComponent_ok {v : Vec} (c : Component) (ho : heap[self]? = some (.vector3 v)) :
    getComponent c heap [.userdata self] = .ok ([.number (v.get c)], heap) := by
  have hinst : vector3At heap [.userdata self] 1 = .ok (self, v) := getInstance_ok rfl ho rfl
  simp only [getComponent, hinst]
  rfl

theorem assignComponent_ok {v : Vec} (c : Component) (a : ℚ) (ho : heap[self]? = some (.vector3 v)) :
    assignComponent c heap [.userdata self, .number a] = .ok ([], heap.set self (.vector3 (v.set a c))) := by
  have hinst : vector3At heap [.userdata self, .number a] 1 = .ok (self, v) := getInstance_ok rfl ho rfl
  simp only [assignComponent, hinst]
  rfl

theorem vector_part_ne (v : Vec) (a : ℚ) (c : Component) {p : Part} (hp : p ≠ .component c) :
    (Object.vector3 (v.set a c) : Object Mat).part p = (Object.vector3 v).part p := by
  cases p with
  | component c' =>
    have hne : c' ≠ c := fun h => hp (congrArg Part.component h)
    simp only [Object.part, Vec.get_set_ne v a hne]
  | _ => rfl

theorem assign_law (E : MatrixClass Mat) {v : Vec} (c : Component) (a : ℚ) (ho : heap[self]? = some (.vector3 v)) :
    LensLaw E heap self (.assign c a) := by
  have hset : (Setting.assign c a).setter E heap (.userdata self :: (Setting.assign c a).args) =
      .ok ([], heap.set self (.vector3 (v.set a c))) := assignComponent_ok c a ho
  rw [lensLaw_iff ho hset fun p hp => vector_part_ne v a c hp]
  intro g hg
  obtain rfl := List.mem_singleton.mp hg
  rw [reads_iff (getComponent_ok c (getElem?_set _ ho)) List.prefix_rfl, Vec.get_set_self]
  exact shows_number.mpr rfl

/-- The getter tests for no argument at all, and the userdata is one. -/
theorem component_getter_error {v : Vec} (c : Component) (ho : heap[self]? = some (.vector3 v)) :
    component c heap [.userdata self] = .error ⟨2, bytes "number"⟩ := by
  have hinst : vector3At heap [.userdata self] 1 = .ok (self, v) := getInstance_ok rfl ho rfl
  have hlen : ¬ [Value.userdata self].length < 1 := by simp
  simp only [component, if_neg hlen, assignComponent, hinst]
  rfl

theorem component_law (E : MatrixClass Mat) {v : Vec} (c : Component) (a : ℚ)
    (ho : heap[self]? = some (.vector3 v)) : ¬ LensLaw E heap self (.component c a) := by
  have hset : (Setting.component c a).setter E heap (.userdata self :: (Setting.component c a).args) =
      .ok ([], heap.set self (.vector3 (v.set a c))) := assignComponent_ok c a ho
  rw [lensLaw_iff ho hset fun p hp => vector_part_ne v a c hp]
  intro hget
  obtain ⟨r, heap', hcall, _⟩ := hget _ (List.mem_singleton_self _)
  have herror := component_getter_error c (getElem?_set (.vector3 (v.set a c)) ho)
  cases herror.symm.trans hcall

/-! ### `LuaBox` -/

theorem getBoxVector_ok {b : OBBox Mat} (vector : OBBox Mat → Vec) (ho : heap[self]? = some (.box b)) :
    getBoxVector vector heap [.userdata self] =
      .ok ([.userdata heap.length], heap ++ [.vector3 (vector b)]) := by
  have hinst : boxAt heap [.userdata self] 1 = .ok (self, b) := getInstance_ok rfl ho rfl
  simp only [getBoxVector, hinst]
  rfl

/-- The userdata counts as 0, and the last number is not read. -/
theorem setBoxVector_ok {b : OBBox Mat} (set : OBBox Mat → Vec → OBBox Mat) (v : Vec)
    (ho : heap[self]? = some (.box b)) :
    setBoxVector set heap [.userdata self, .number v.x, .number v.y, .number v.z] =
      .ok ([], heap.set self (.box (set b ⟨0, v.x, v.y⟩))) := by
  have hlen : ¬ [Value.userdata self, .number v.x, .number v.y, .number v.z].length < 3 := by simp
  have hinst : boxAt heap [.userdata self, .number v.x, .number v.y, .number v.z] 1 = .ok (self, b) :=
    getInstance_ok rfl ho rfl
  simp only [setBoxVector, if_neg hlen, hinst]
  rfl

theorem shifted_eq_iff (v : Vec) : (⟨0, v.x, v.y⟩ : Vec) = v ↔ v = ⟨0, 0, 0⟩ := by
  constructor
  · intro h
    have hx : 0 = v.x := congrArg Vec.x h
    have hy : v.x = v.y := congrArg Vec.y h
    have hz : v.y = v.z := congrArg Vec.z h
    rw [← h, ← hy, ← hx]
  · rintro rfl
    rfl

/-- Center and extent: the vector set is read back where it is the same after the shift. -/
theorem box_law_iff (E : MatrixClass Mat) {b : OBBox Mat} {s : Setting} {v : Vec} {vector : OBBox Mat → Vec}
    (set : OBBox Mat → Vec → OBBox Mat) (ho : heap[self]? = some (.box b))
    (hargs : s.args = [.number v.x, .number v.y, .number v.z]) (hsetter : s.setter E = setBoxVector set)
    (hgetters : s.getters E = [(getBoxVector vector, .vector v)]) (hvector : ∀ w, vector (set b w) = w)
    (hpart : ∀ w, ∀ p ≠ s.part, (Object.box (set b w)).part p = (Object.box b).part p) :
    LensLaw E heap self s ↔ v = ⟨0, 0, 0⟩ := by
  have hset : s.setter E heap (.userdata self :: s.args) =
      .ok ([], heap.set self (.box (set b ⟨0, v.x, v.y⟩))) := by
    rw [hsetter, hargs]
    exact setBoxVector_ok set v ho
  have hget := getBoxVector_ok vector (getElem?_set (.box (set b ⟨0, v.x, v.y⟩)) ho)
  rw [lensLaw_iff ho hset (hpart _), hgetters, List.forall_mem_singleton,
    reads_iff hget (List.prefix_append _ _), shows_pushVector3, hvector, shifted_eq_iff]

theorem center_law_iff (E : MatrixClass Mat) {b : OBBox Mat} (v : Vec) (ho : heap[self]? = some (.box b)) :
    LensLaw E heap self (.center v) ↔ v = ⟨0, 0, 0⟩ := by
  refine box_law_iff E (fun b v => { b with center := v }) ho rfl rfl rfl (fun _ => rfl) ?_
  intro w p hp
  cases p with
  | center => exact absurd rfl hp
  | _ => rfl

theorem extent_law_iff (E : MatrixClass Mat) {b : OBBox Mat} (v : Vec) (ho : heap[self]? = some (.box b)) :
    LensLaw E heap self (.extent v) ↔ v = ⟨0, 0, 0⟩ := by
  refine box_law_iff E (fun b v => { b with extent := v }) ho rfl rfl rfl (fun _ => rfl) ?_
  intro w p hp
  cases p with
  | extent => exact absurd rfl hp
  | _ => rfl

/-! ### `LuaMatrix3` -/

theorem getVector_ok {m : Mat} (vector : Mat → Vec) (ho : heap[self]? = some (.matrix3 m)) :
    getVector vector heap [.userdata self] = .ok ([.userdata heap.length], heap ++ [.vector3 (vector m)]) := by
  have hinst : matrix3At heap [.userdata self] 1 = .ok (self, m) := getInstance_ok rfl ho rfl
  simp only [getVector, hinst]
  rfl

/-- With the userdata there are four arguments, and it tests for three and nine. -/
theorem matrixSet_ok (E : MatrixClass Mat) {m : Mat} (r1 r2 r3 : ℕ) (ho : heap[self]? = some (.matrix3 m)) :
    matrixSet E heap [.userdata self, .userdata r1, .userdata r2, .userdata r3] =
      .ok ([.userdata r3], heap) := by
  have hinst : matrix3At heap [.userdata self, .userdata r1, .userdata r2, .userdata r3] 1 = .ok (self, m) :=
    getInstance_ok rfl ho rfl
  simp only [matrixSet, hinst]
  rfl

theorem rows_law_iff (E : MatrixClass Mat) {m : Mat} (r1 r2 r3 : ℕ) (v1 v2 v3 : Vec)
    (ho : heap[self]? = some (.matrix3 m)) :
    LensLaw E heap self (.rows r1 r2 r3 v1 v2 v3) ↔
      E.getXVector m = v1 ∧ E.getYVector m = v2 ∧ E.getZVector m = v3 := by
  have hsame : heap.set self (.matrix3 m) = heap := by
    apply List.ext_getElem?
    intro k
    by_cases hk : self = k
    · rw [← hk, getElem?_set _ ho, ho]
    · rw [List.getElem?_set_ne hk]
  have hset : (Setting.rows r1 r2 r3 v1 v2 v3).setter E heap
      (.userdata self :: (Setting.rows r1 r2 r3 v1 v2 v3).args) =
      .ok ([.userdata r3], heap.set self (.matrix3 m)) := by
    rw [hsame]
    exact matrixSet_ok E r1 r2 r3 ho
  have hreads (vector : Mat → Vec) (v : Vec) :
      Reads heap self (getVector vector, .vector v) ↔ vector m = v := by
    rw [reads_iff (getVector_ok vector ho) (List.prefix_append _ _), shows_pushVector3]
  rw [lensLaw_iff ho hset fun _ _ => rfl, hsame]
  simp [Setting.getters, hreads]

/-! ### `LuaActionParams` -/

section Number
variable (set : ActionParams → ℚ → ActionParams) (get : ActionParams → ℚ) {a : ActionParams}

theorem paramNumber_get (ho : heap[self]? = some (.actionParams a)) :
    paramNumber set get heap [.userdata self] = .ok ([.number (get a)], heap) := by
  have hinst : paramsAt heap [.userdata self] 1 = .ok (self, a) := getInstance_ok rfl ho rfl
  have hlen : ¬ [Value.userdata self].length < 1 := by simp
  simp only [paramNumber, if_neg hlen, hinst]
  rfl

theorem paramNumber_set (v : Value) (ho : heap[self]? = some (.actionParams a)) :
    paramNumber set get heap [.userdata self, v] =
      .ok ([v], heap.set self (.actionParams (set a v.tonumber))) := by
  have hinst : paramsAt heap [.userdata self, v] 1 = .ok (self, a) := getInstance_ok rfl ho rfl
  have hlen : ¬ [Value.userdata self, v].length < 1 := by simp
  simp only [paramNumber, if_neg hlen, hinst]
  rfl

/-- The fields of the macro for numbers. -/
theorem number_law_iff (E : MatrixClass Mat) {s : Setting} {v : Value} {c : Content Mat}
    (ho : heap[self]? = some (.actionParams a)) (hargs : s.args = [v])
    (hsetter : s.setter E = paramNumber set get) (hgetters : s.getters E = [(paramNumber set get, c)])
    (hpart : ∀ x, ∀ p ≠ s.part, (Object.actionParams (set a x) : Object Mat).part p =
      (Object.actionParams a).part p) :
    LensLaw E heap self s ↔
      Shows (heap.set self (.actionParams (set a v.tonumber))) (.number (get (set a v.tonumber))) c := by
  have hset : s.setter E heap (.userdata self :: s.args) =
      .ok ([v], heap.set self (.actionParams (set a v.tonumber))) := by
    rw [hsetter, hargs]
    exact paramNumber_set set get v ho
  have hget := paramNumber_get set get (getElem?_set (.actionParams (set a v.tonumber)) ho)
  rw [lensLaw_iff ho hset (hpart _), hgetters, List.forall_mem_singleton, reads_iff hget List.prefix_rfl]

end Number

variable {a : ActionParams}

/-- Only the fields of one part differ. -/
theorem params_part {a' : ActionParams} {q : Part} (hfloat : ∀ f, Part.float f ≠ q → a'.float f = a.float f)
    (hint : ∀ f, Part.int f ≠ q → a'.int f = a.int f) (hbool : ∀ f, Part.bool f ≠ q → a'.bool f = a.bool f)
    (hvec : ∀ f, Part.vec f ≠ q → a'.vec f = a.vec f) :
    ∀ p ≠ q, (Object.actionParams a' : Object Mat).part p = (Object.actionParams a).part p := by
  intro p hp
  cases p with
  | float f => simp only [Object.part, hfloat f hp]
  | int f => simp only [Object.part, hint f hp]
  | bool f => simp only [Object.part, hbool f hp]
  | vec f => simp only [Object.part, hvec f hp]
  | _ => rfl

theorem float_law (E : MatrixClass Mat) (f : FloatField) (x : ℚ) (ho : heap[self]? = some (.actionParams a)) :
    LensLaw E heap self (.float f x) := by
  have hpart : ∀ y, ∀ p ≠ (Setting.float f x).part,
      (Object.actionParams { a with float := Function.update a.float f y } : Object Mat).part p =
        (Object.actionParams a).part p := by
    intro y
    refine params_part (fun f' hf => ?_) (fun _ _ => rfl) (fun _ _ => rfl) fun _ _ => rfl
    exact Function.update_of_ne (fun h => hf (congrArg Part.float h)) _ _
  rw [number_law_iff _ _ E (s := .float f x) (v := .number x) ho rfl rfl rfl hpart]
  simp only [Function.update_self]
  exact shows_number.mpr rfl

theorem toInt_cast (i : ℤ) (h : -2 ^ 31 ≤ i ∧ i < 2 ^ 31) : toInt i = i := by
  have htrunc : ((i : ℚ).num.tdiv (i : ℚ).den) = i := by simp
  simp only [toInt, htrunc, if_pos h]

theorem toInt_range (x : ℚ) : -2 ^ 31 ≤ toInt x ∧ toInt x < 2 ^ 31 := by
  unfold toInt
  simp only
  split_ifs with h
  · exact h
  · omega

theorem toInt_eq_iff (x : ℚ) : (toInt x : ℚ) = x ↔ ∃ i : ℤ, x = i ∧ -2 ^ 31 ≤ i ∧ i < 2 ^ 31 := by
  constructor
  · intro h
    exact ⟨toInt x, h.symm, toInt_range x⟩
  · rintro ⟨i, rfl, hi⟩
    rw [toInt_cast i hi]

theorem int_law_iff (E : MatrixClass Mat) (f : IntField) (x : ℚ) (ho : heap[self]? = some (.actionParams a)) :
    LensLaw E heap self (.int f x) ↔ ∃ i : ℤ, x = i ∧ -2 ^ 31 ≤ i ∧ i < 2 ^ 31 := by
  have hpart : ∀ y, ∀ p ≠ (Setting.int f x).part,
      (Object.actionParams { a with int := Function.update a.int f (toInt y) } : Object Mat).part p =
        (Object.actionParams a).part p := by
    intro y
    refine params_part (fun _ _ => rfl) (fun f' hf => ?_) (fun _ _ => rfl) fun _ _ => rfl
    exact Function.update_of_ne (fun h => hf (congrArg Part.int h)) _ _
  rw [number_law_iff _ _ E (s := .int f x) (v := .number x) ho rfl rfl rfl hpart, shows_number]
  simp only [Function.update_self]
  exact toInt_eq_iff x

/-- `lua_tonumber` of a boolean is 0. -/
theorem bool_law_iff (E : MatrixClass Mat) (f : BoolField) (b : Bool) (ho : heap[self]? = some (.actionParams a)) :
    LensLaw E heap self (.bool f b) ↔ b = false := by
  have hpart : ∀ y : ℚ, ∀ p ≠ (Setting.bool f b).part,
      (Object.actionParams { a with bool := Function.update a.bool f (y ≠ 0) } : Object Mat).part p =
        (Object.actionParams a).part p := by
    intro y
    refine params_part (fun _ _ => rfl) (fun _ _ => rfl) (fun f' hf => ?_) fun _ _ => rfl
    exact Function.update_of_ne (fun h => hf (congrArg Part.bool h)) _ _
  rw [number_law_iff _ _ E (s := .bool f b) (v := .boolean b) ho rfl rfl rfl hpart]
  have hzero : (Value.boolean b).tonumber = 0 := rfl
  simp [hzero, Shows]

theorem paramVec_law (E : MatrixClass Mat) (f : VecField) {r : ℕ} {v : Vec}
    (ho : heap[self]? = some (.actionParams a)) (hr : heap[r]? = some (.vector3 v)) :
    LensLaw E heap self (.vec f r v) := by
  have hset : (Setting.vec f r v).setter E heap (.userdata self :: (Setting.vec f r v).args) =
      .ok ([.userdata r], heap.set self (.actionParams { a with vec := Function.update a.vec f v })) := by
    have hinst : paramsAt heap [.userdata self, .userdata r] 1 = .ok (self, a) := getInstance_ok rfl ho rfl
    have hvec : vector3At heap [.userdata self, .userdata r] 2 = .ok (r, v) := getInstance_ok rfl hr rfl
    have hlen : ¬ [Value.userdata self, .userdata r].length < 1 := by simp
    change paramVec f heap [.userdata self, .userdata r] = _
    simp only [paramVec, if_neg hlen, hinst]
    change ((vector3At heap [.userdata self, .userdata r] 2).bind _) = _
    rw [hvec]
    rfl
  have hget : ∀ {heap : Heap Mat} {a : ActionParams}, heap[self]? = some (.actionParams a) →
      paramVec f heap [.userdata self] = .ok ([.userdata heap.length], heap ++ [.vector3 (a.vec f)]) := by
    intro heap a ho
    have hinst : paramsAt heap [.userdata self] 1 = .ok (self, a) := getInstance_ok rfl ho rfl
    have hlen : ¬ [Value.userdata self].length < 1 := by simp
    simp only [paramVec, if_neg hlen, hinst]
    rfl
  have hpart : ∀ p ≠ (Setting.vec f r v).part,
      (Object.actionParams { a with vec := Function.update a.vec f v } : Object Mat).part p =
        (Object.actionParams a).part p := by
    refine params_part (fun _ _ => rfl) (fun _ _ => rfl) (fun _ _ => rfl) fun f' hf => ?_
    exact Function.update_of_ne (fun h => hf (congrArg Part.vec h)) _ _
  rw [lensLaw_iff ho hset hpart]
  intro g hg
  obtain rfl := List.mem_singleton.mp hg
  rw [reads_iff (hget (getElem?_set _ ho)) (List.prefix_append _ _), shows_pushVector3]
  exact Function.update_self f v a.vec

end Calls

/-! ## Every setter -/

/-- Where the getter gives what was set. -/
def Setting.Works (E : MatrixClass Mat) (heap : Heap Mat) (self : ℕ) : Setting → Prop
  | .component _ _ => False
  | .assign _ _ => True
  | .center v => v = ⟨0, 0, 0⟩
  | .extent v => v = ⟨0, 0, 0⟩
  | .rows _ _ _ v1 v2 v3 => ∃ m, heap[self]? = some (.matrix3 m) ∧
      E.getXVector m = v1 ∧ E.getYVector m = v2 ∧ E.getZVector m = v3
  | .float _ _ => True
  | .int _ x => ∃ i : ℤ, x = i ∧ -2 ^ 31 ≤ i ∧ i < 2 ^ 31
  | .bool _ b => b = false
  | .vec _ _ _ => True

/-- **Lens laws.** -/
theorem lens_laws (E : MatrixClass Mat) {heap : Heap Mat} {self : ℕ} {s : Setting} (hfits : s.Fits heap self) :
    LensLaw E heap self s ↔ s.Works E heap self := by
  cases s with
  | component c x =>
    obtain ⟨v, ho⟩ := hfits
    exact iff_of_false (component_law E c x ho) not_false
  | assign c x =>
    obtain ⟨v, ho⟩ := hfits
    exact iff_of_true (assign_law E c x ho) trivial
  | center v =>
    obtain ⟨b, ho⟩ := hfits
    exact center_law_iff E v ho
  | extent v =>
    obtain ⟨b, ho⟩ := hfits
    exact extent_law_iff E v ho
  | rows r1 r2 r3 v1 v2 v3 =>
    obtain ⟨⟨m, ho⟩, _⟩ := hfits
    rw [rows_law_iff E r1 r2 r3 v1 v2 v3 ho]
    simp [Setting.Works, ho]
  | float f x =>
    obtain ⟨a, ho⟩ := hfits
    exact iff_of_true (float_law E f x ho) trivial
  | int f x =>
    obtain ⟨a, ho⟩ := hfits
    exact int_law_iff E f x ho
  | bool f b =>
    obtain ⟨a, ho⟩ := hfits
    exact bool_law_iff E f b ho
  | vec f r v =>
    obtain ⟨⟨a, ho⟩, hr⟩ := hfits
    exact iff_of_true (paramVec_law E f ho hr) trivial

/-- A matrix of three rows. -/
def rowMatrix : MatrixClass (Vec × Vec × Vec) where
  set v1 v2 v3 := (v1, v2, v3)
  setNumbers a := (⟨a.getD 0 0, a.getD 1 0, a.getD 2 0⟩, ⟨a.getD 3 0, a.getD 4 0, a.getD 5 0⟩,
    ⟨a.getD 6 0, a.getD 7 0, a.getD 8 0⟩)
  getXVector m := m.1
  getYVector m := m.2.1
  getZVector m := m.2.2

/-- A vector, a box, a matrix of zeros and new action parameters. -/
def someObjects : Heap (Vec × Vec × Vec) :=
  [.vector3 ⟨1, 2, 3⟩, .box ⟨⟨0, 0, 0⟩, ⟨0, 0, 0⟩, (⟨0, 0, 0⟩, ⟨0, 0, 0⟩, ⟨0, 0, 0⟩)⟩,
    .matrix3 (⟨0, 0, 0⟩, ⟨0, 0, 0⟩, ⟨0, 0, 0⟩),
    .actionParams ⟨fun _ => 0, fun _ => 0, fun _ => false, fun _ => ⟨0, 0, 0⟩⟩]

theorem lens_laws_assignX : LensLaw rowMatrix someObjects 0 (.assign .x 7) := by
  have hfits : (Setting.assign .x 7).Fits someObjects 0 := ⟨_, rfl⟩
  exact (lens_laws rowMatrix hfits).mpr trivial

/-- `v:X(7)`, `b:SetCenter(1, 2, 3)`, `m:Set(v, v, v)` and `p:MoveCrouched(true)`. -/
theorem lens_laws_fail :
    ¬ LensLaw rowMatrix someObjects 0 (.component .x 7) ∧
    ¬ LensLaw rowMatrix someObjects 1 (.center ⟨1, 2, 3⟩) ∧
    ¬ LensLaw rowMatrix someObjects 2 (.rows 0 0 0 ⟨1, 2, 3⟩ ⟨1, 2, 3⟩ ⟨1, 2, 3⟩) ∧
    ¬ LensLaw rowMatrix someObjects 3 (.bool .moveCrouched true) := by
  refine ⟨component_law rowMatrix .x 7 rfl, ?_, ?_, ?_⟩
  · rw [center_law_iff rowMatrix ⟨1, 2, 3⟩ rfl]
    decide +kernel
  · rw [rows_law_iff rowMatrix 0 0 0 ⟨1, 2, 3⟩ ⟨1, 2, 3⟩ ⟨1, 2, 3⟩ rfl]
    decide +kernel
  · rw [bool_law_iff rowMatrix .moveCrouched true rfl]
    decide

end LuaTT.ValueObjects
