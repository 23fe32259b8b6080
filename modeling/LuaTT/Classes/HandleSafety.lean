import LuaTT.Classes.Handles

/-! Which calls of the handle methods are safe. The engine answers an unknown id or index with a null pointer. -/
namespace LuaTT.Handles
open Lua
open Registrations (slot)
set_option autoImplicit false

variable {S : Type}

/-- The call raises an error or completes. -/
def Outcome.Safe (o : Outcome S) : Prop := ∀ h, o ≠ .hazard h

theorem safe_done (s : S) (results : List Result) : (Outcome.done s results).Safe := by
  intro h he
  cases he

theorem safe_error (e : LuaError) : (Outcome.error e : Outcome S).Safe := by
  intro h he
  cases he

theorem not_safe_hazard (h : Hazard) : ¬ (Outcome.hazard h : Outcome S).Safe := fun hs => hs h rfl

/-- No call of the method is unsafe. -/
def Method.Harmless (m : Method S) : Prop := ∀ mem s args, (m mem s args).Safe

/-- The method gets as far as its object, and something holds of that. -/
def Reached (objectAt : Memory → List LuaValue → ℕ → Except LuaError (Option Addr)) (arity : ℕ) (mem : Memory)
    (args : List LuaValue) (P : Addr → Prop) : Prop :=
  arity ≤ args.length → ∀ a, objectAt mem args 1 = .ok (some a) → P a

section Frame
variable {objectAt : Memory → List LuaValue → ℕ → Except LuaError (Option Addr)} {mem : Memory} {s : S}
  {args : List LuaValue}

theorem onObject_reached {arity : ℕ} {body : S → Addr → Outcome S} {a : Addr} (hlen : arity ≤ args.length)
    (ha : objectAt mem args 1 = .ok (some a)) : onObject objectAt arity body mem s args = body s a := by
  simp only [onObject, if_neg (Nat.not_lt.mpr hlen), ha]

theorem safe_onObject {arity : ℕ} {body : S → Addr → Outcome S} :
    (onObject objectAt arity body mem s args).Safe ↔
      Reached objectAt arity mem args fun a => (body s a).Safe := by
  constructor
  · intro h hlen a ha
    rwa [onObject_reached hlen ha] at h
  · intro h
    by_cases hlen : arity ≤ args.length
    · cases ha : objectAt mem args 1 with
      | error e =>
        simp only [onObject, if_neg (Nat.not_lt.mpr hlen), ha]
        exact safe_error e
      | ok ptr =>
        cases ptr with
        | none =>
          simp only [onObject, if_neg (Nat.not_lt.mpr hlen), ha]
          exact safe_done s []
        | some a =>
          rw [onObject_reached hlen ha]
          exact h hlen a ha
    · rw [onObject, if_pos (Nat.not_le.mp hlen)]
      exact safe_done s []

/-- A body that only completes or raises errors. -/
theorem safe_of_body {arity : ℕ} {body : S → Addr → Outcome S} (h : ∀ a, (body s a).Safe) :
    (onObject objectAt arity body mem s args).Safe := safe_onObject.mpr fun _ a _ => h a

theorem safe_getter (get : S → Addr → List Result) : (getter objectAt get).Harmless :=
  fun _ _ _ => safe_of_body fun _ => safe_done _ _

theorem safe_setter (arity : ℕ) (returns : Bool) (set : S → Addr → List LuaValue → S) :
    (setter objectAt arity returns set).Harmless := fun _ _ _ => safe_of_body fun _ => safe_done _ _

theorem safe_wrapped (cls : Class) (ptr : Option Addr) : (wrapped cls s ptr).Safe := by
  cases ptr with
  | none => exact safe_done s []
  | some p => exact safe_done s _

theorem safe_controlMethod (get : S → Addr → ℤ → S × Option Addr) : (controlMethod get).Harmless := by
  intro mem s args
  apply safe_of_body
  intro a
  exact safe_wrapped _ _

/-- A control that the caller passes is tested before it is used. -/
theorem safe_withControl (f : S → Addr → Addr → S) : (withControl f).Harmless := by
  intro mem s args
  apply safe_of_body
  intro a
  cases controlAt mem args 2 with
  | error e => exact safe_error e
  | ok ptr =>
    cases ptr with
    | none => exact safe_done s []
    | some control => exact safe_done _ _

end Frame

/-! ## The methods -/

section Safe
variable (D : DialogEngine S) (E : HUDEngine S) (mem : Memory) (s : S) (args : List LuaValue)

theorem safe_removeControl : (dialogRemoveControl D).Harmless := by
  intro mem s args
  apply safe_of_body
  intro a
  cases checkudata .scriptedControl "ScriptedControlClass" mem args 2 with
  | error e => exact safe_error e
  | ok _ =>
    simp only
    cases controlAt mem args 2 with
    | error e => exact safe_error e
    | ok ptr =>
      cases ptr with
      | none => exact safe_done s []
      | some control => exact safe_done _ _

theorem dialog_safe (m : DialogMethod) : (m.run D).Harmless := by
  cases m with
  | addControl | focusControl => exact safe_withControl _
  | createControl => exact safe_controlMethod D.createControl
  | findControl => exact safe_controlMethod fun s a id => (s, D.findControl s a id)
  | getControlIndex => exact safe_controlMethod fun s a index => (s, D.getControlIndex s a index)
  | removeControl => exact safe_removeControl D
  | setDirty | clearControls | setDialogSize | setDialogLocation | setDialogTitle | setOrientation =>
    exact safe_setter _ _ _
  | _ => exact safe_getter _

theorem safe_wrapElement (type : ℤ) (obj : Option Addr) : (wrapElement E type s obj).Safe := by
  unfold wrapElement
  cases E.elementType type with
  | none => exact safe_done s []
  | some t => exact safe_done s _

theorem lookUpElement_safe (find : S → Addr → ℤ → Option Addr) :
    (lookUpElement E find mem s args).Safe ↔
      Reached surfaceAt 2 mem args fun a => find s a (slot args 2).tointeger ≠ none := by
  rw [lookUpElement, safe_onObject]
  refine forall₃_congr fun _ a _ => ?_
  beta_reduce
  cases find s a (slot args 2).tointeger with
  | none => exact iff_of_false (not_safe_hazard _) fun h => h rfl
  | some obj => exact iff_of_true (safe_wrapElement E s _ _) (Option.some_ne_none obj)

theorem removeElement_safe :
    (surfaceRemoveElement E mem s args).Safe ↔
      Reached surfaceAt 2 mem args fun _ =>
        ∀ ref, slot args 2 = .userdata ref → (mem.userdata ref).cls.isElement := by
  rw [surfaceRemoveElement, safe_onObject]
  refine forall₃_congr fun _ a _ => ?_
  beta_reduce
  cases slot args 2 with
  | userdata ref =>
    by_cases hcls : (mem.userdata ref).cls.isElement
    · simp [hcls, safe_done]
    · simp [hcls, not_safe_hazard]
  | _ => simp [safe_done]

/-- The table has the four numbers. -/
def FullRange (mem : Memory) (ref : ℕ) : Prop := ∀ i ∈ ([1, 2, 3, 4] : List ℤ), ∃ n, mem.rawgeti ref i = .number n

theorem point_isSome {mem : Memory} {ref : ℕ} {i : ℤ} :
    (∃ n, mem.rawgeti ref i = .number n) ↔ ∃ x, point mem ref i = some x := by
  unfold point
  cases mem.rawgeti ref i <;> simp

theorem fullRange_iff {mem : Memory} {ref : ℕ} : FullRange mem ref ↔
    (∃ x, point mem ref 1 = some x) ∧ (∃ x, point mem ref 2 = some x) ∧ (∃ x, point mem ref 3 = some x) ∧
      ∃ x, point mem ref 4 = some x := by
  simp only [FullRange, List.forall_mem_cons, point_isSome]
  simp

theorem setUVRange_safe :
    (elementSetUVRange E mem s args).Safe ↔
      Reached elementAt 2 mem args fun _ => ∀ ref, slot args 2 = .table ref → FullRange mem ref := by
  rw [elementSetUVRange, safe_onObject]
  refine forall₃_congr fun _ a _ => ?_
  beta_reduce
  cases slot args 2 with
  | table ref =>
    simp only [LuaValue.table.injEq, forall_eq', fullRange_iff]
    cases point mem ref 1 <;> cases point mem ref 2 <;> cases point mem ref 3 <;> cases point mem ref 4 <;>
      simp [safe_done, not_safe_hazard]
  | _ => simp [safe_error]

/-- Where a method of a surface is safe. -/
def SurfaceMethod.Harmless : SurfaceMethod → Prop
  | findElement => Reached surfaceAt 2 mem args fun a => E.findElement s a (slot args 2).tointeger ≠ none
  | getElementIndex =>
    Reached surfaceAt 2 mem args fun a => E.getElementIndex s a (slot args 2).tointeger ≠ none
  | removeElement => Reached surfaceAt 2 mem args fun _ =>
      ∀ ref, slot args 2 = .userdata ref → (mem.userdata ref).cls.isElement
  | _ => True

def ElementMethod.Harmless : ElementMethod → Prop
  | setUVRange => Reached elementAt 2 mem args fun _ => ∀ ref, slot args 2 = .table ref → FullRange mem ref
  | _ => True

theorem safe_createElement : (surfaceCreateElement E).Harmless := by
  intro mem s args
  apply safe_of_body
  intro a
  exact safe_wrapElement E _ _ _

variable {mem s args} in
theorem Method.Harmless.safe_iff {m : Method S} (h : m.Harmless) : (m mem s args).Safe ↔ True :=
  iff_true_intro (h mem s args)

theorem surface_safe (m : SurfaceMethod) : (m.run E mem s args).Safe ↔ m.Harmless E mem s args := by
  cases m with
  | findElement => exact lookUpElement_safe E mem s args E.findElement
  | getElementIndex => exact lookUpElement_safe E mem s args E.getElementIndex
  | removeElement => exact removeElement_safe E mem s args
  | createElement => exact Method.Harmless.safe_iff (safe_createElement E)
  | setSurfaceTexture | setDirty | clearElements => exact Method.Harmless.safe_iff (safe_setter _ _ _)
  | _ => exact Method.Harmless.safe_iff (safe_getter _)

theorem element_safe (m : ElementMethod) : (m.run E mem s args).Safe ↔ m.Harmless mem args := by
  cases m with
  | setUVRange => exact setUVRange_safe E mem s args
  | setDirty | setRendered => exact Method.Harmless.safe_iff (safe_setter _ _ _)
  | _ => exact Method.Harmless.safe_iff (safe_getter _)

end Safe

/-! ## Removal -/

/-- What is removed by the number and by the handle is the same. -/
def RemovesAlike (remove : Method S) (mem : Memory) (s : S) (owner : LuaValue) (id : LuaNumber)
    (handle : LuaValue) : Prop :=
  ∃ s', remove mem s [owner, .number id] = .done s' [] ∧ remove mem s [owner, handle] = .done s' []

theorem removeElement_alike (E : HUDEngine S) {mem : Memory} {s : S} {r h : ℕ} {a e : Addr} {id : LuaNumber}
    (hremove : E.removeElementID s a (LuaValue.number id).tointeger = E.removeElement s a e)
    (hr : mem.userdata r = ⟨.hudSurface, some a⟩) (hcls : (mem.userdata h).cls.isElement)
    (hptr : (mem.userdata h).ptr = some e) :
    RemovesAlike (surfaceRemoveElement E) mem s (.userdata r) id (.userdata h) := by
  have hat : ∀ v, surfaceAt mem [.userdata r, v] 1 = .ok (some a) := by
    intro v
    change (if (mem.userdata r).cls = .hudSurface then Except.ok (mem.userdata r).ptr else _) = _
    rw [hr, if_pos rfl]
  have htwo : ∀ v, 2 ≤ [LuaValue.userdata r, v].length := fun _ => Nat.le_refl 2
  refine ⟨E.removeElement s a e, ?_, ?_⟩
  · rw [surfaceRemoveElement, onObject_reached (htwo _) (hat _), ← hremove]
    rfl
  · rw [surfaceRemoveElement, onObject_reached (htwo _) (hat _)]
    change (if (mem.userdata h).cls.isElement then
      Outcome.done ((mem.userdata h).ptr.elim s (E.removeElement s a)) [] else _) = _
    rw [if_pos hcls, hptr]
    rfl

/-- A number is no control, which is an error. -/
theorem removeControl_number (D : DialogEngine S) {mem : Memory} {s : S} {r : ℕ} {a : Addr} (id : LuaNumber)
    (hr : mem.userdata r = ⟨.scriptedDialog, some a⟩) :
    dialogRemoveControl D mem s [.userdata r, .number id] = .error (.badArgument 2 "ScriptedControlClass") := by
  have hat : dialogAt mem [.userdata r, .number id] 1 = .ok (some a) := by
    change (if (mem.userdata r).cls = .scriptedDialog then Except.ok (mem.userdata r).ptr else _) = _
    rw [hr, if_pos rfl]
  have htwo : 2 ≤ [LuaValue.userdata r, .number id].length := Nat.le_refl 2
  rw [dialogRemoveControl, onObject_reached htwo hat]
  rfl

theorem removeControl_not_alike (D : DialogEngine S) {mem : Memory} {s : S} {r : ℕ} {a : Addr} (id : LuaNumber)
    (handle : LuaValue) (hr : mem.userdata r = ⟨.scriptedDialog, some a⟩) :
    ¬ RemovesAlike (dialogRemoveControl D) mem s (.userdata r) id handle := by
  rintro ⟨s', hid, _⟩
  rw [removeControl_number D id hr] at hid
  cases hid

/-! ## All handles -/

/-- Every call that is safe, and the removals. The engine removes the element that it finds by an id. -/
theorem handles_safe (D : DialogEngine S) (E : HUDEngine S)
    (hengine : ∀ s a id e, E.findElement s a id = some e → E.removeElementID s a id = E.removeElement s a e)
    (mem : Memory) (s : S) (args : List LuaValue) :
    (∀ m : DialogMethod, (m.run D mem s args).Safe) ∧
    (∀ m : SurfaceMethod, (m.run E mem s args).Safe ↔ m.Harmless E mem s args) ∧
    (∀ m : ElementMethod, (m.run E mem s args).Safe ↔ m.Harmless mem args) ∧
    (∀ r h a e id, mem.userdata r = ⟨.hudSurface, some a⟩ → (mem.userdata h).cls.isElement →
      (mem.userdata h).ptr = some e → E.findElement s a (LuaValue.number id).tointeger = some e →
      RemovesAlike (surfaceRemoveElement E) mem s (.userdata r) id (.userdata h)) ∧
    ∀ r a id handle, mem.userdata r = ⟨.scriptedDialog, some a⟩ →
      ¬ RemovesAlike (dialogRemoveControl D) mem s (.userdata r) id handle :=
  ⟨fun m => dialog_safe D m mem s args, surface_safe E mem s args, element_safe E mem s args,
    fun _ _ _ _ _ hr hcls hptr hfind => removeElement_alike E (hengine _ _ _ _ hfind) hr hcls hptr,
    fun _ _ id handle hr => removeControl_not_alike D id handle hr⟩

/-- Surfaces whose elements are numbered by themselves. -/
def numberedHUD : HUDEngine (List ℕ) where
  getSurfaceID _ _ := 0
  getClientID _ _ := 0
  getBoundaryArea _ _ := ⟨0, 0, 0, 0⟩
  getAspectRatio _ _ := 1
  getSurfaceTexture _ _ := none
  setSurfaceTexture s _ _ := s
  surfaceIsDirty _ _ := false
  surfaceSetDirty s _ _ := s
  elementType _ := some .line
  createElement s _ _ := (s ++ [s.length], some s.length)
  findElement s _ id := s.find? fun e => (e : ℤ) = id
  getElementCount _ _ := 0
  getElementIndex s _ i := s[i.toNat]?
  removeElementID s _ id := s.filter fun e => (e : ℤ) ≠ id
  removeElement s _ e := s.filter (· ≠ e)
  clearElements _ _ := []
  getElementType _ _ := 0
  getElementID _ _ := 0
  isDirty _ _ := false
  setDirty s _ _ := s
  isRendered _ _ := false
  setRendered s _ _ := s
  getUVRange _ _ := ⟨0, 0, 0, 0⟩
  setUVRange s _ _ := s

/-- Dialogs without controls. -/
def emptyDialogs : DialogEngine (List ℕ) where
  getDialogType _ _ := 0
  getDialogID _ _ := 0
  getClientID _ _ := 0
  isDirty _ _ := false
  setDirty s _ _ := s
  addControl s _ _ := s
  focusControl s _ _ := s
  createControl s _ _ := (s, none)
  findControl _ _ _ := none
  getControlCount _ _ := 0
  getControlIndex _ _ _ := none
  removeControl s _ _ := s
  clearControls s _ := s
  asPopup _ _ := none
  getOrientation _ _ := 0
  getDialogSize _ _ := (0, 0)
  getDialogLocation _ _ := (0, 0)
  getDialogTitle _ _ := none
  setDialogSize s _ _ _ := s
  setDialogLocation s _ _ _ := s
  setDialogTitle s _ _ := s
  setOrientation s _ _ := s

/-- A surface, its element 5, a vector, a dialog and a control; every table is empty. -/
def someHandles : Memory where
  userdata n := [⟨.hudSurface, some 0⟩, ⟨.hudLineElement, some 5⟩, ⟨.vector3, some 0⟩, ⟨.scriptedDialog, some 0⟩].getD n
    ⟨.scriptedControl, some 0⟩
  rawgeti _ _ := .nil

theorem numberedHUD_removes (s : List ℕ) (a : Addr) (id : ℤ) (e : Addr) (h : numberedHUD.findElement s a id = some e) :
    numberedHUD.removeElementID s a id = numberedHUD.removeElement s a e := by
  have hid : (e : ℤ) = id := by
    have hfound := List.find?_some h
    simpa using hfound
  simp [numberedHUD, ← hid]

theorem handles_safe_removed :
    RemovesAlike (surfaceRemoveElement numberedHUD) someHandles [5] (.userdata 0) 5 (.userdata 1) := by
  obtain ⟨_, _, _, hremoves, _⟩ := handles_safe emptyDialogs numberedHUD numberedHUD_removes someHandles [5] []
  exact hremoves 0 1 0 5 5 rfl rfl rfl (by decide +kernel)

/-- `surface:Find_Element(99)` of an empty surface, `surface:Remove_Element(Vector3(1, 2, 3))`,
`element:Set_UV_Range({})` and `dialog:Remove_Control(5)`. -/
theorem handles_unsafe :
    ¬ (surfaceFindElement numberedHUD someHandles [] [.userdata 0, .number 99]).Safe ∧
    ¬ (surfaceRemoveElement numberedHUD someHandles [5] [.userdata 0, .userdata 2]).Safe ∧
    ¬ (elementSetUVRange numberedHUD someHandles [5] [.userdata 1, .table 0]).Safe ∧
    ¬ RemovesAlike (dialogRemoveControl emptyDialogs) someHandles [] (.userdata 3) 5 (.userdata 4) :=
  ⟨not_safe_hazard .nullDereference, not_safe_hazard .foreignUserdata, not_safe_hazard .uninitialisedRead,
    removeControl_not_alike emptyDialogs 5 _ rfl⟩

end LuaTT.Handles
