import LuaTT.Library.MarkSweep
import LuaTT.Lua.Value

/-! The memory behind the values of Lua states. A string lives until a collection of its state does not
reach it from the state's stack, registry or globals, and a `const char *` into it knows nothing of that. -/
namespace LuaTT.Memory
open Lua MarkSweep
set_option autoImplicit false

/-! ## Objects -/

inductive Value
  | nil
  | boolean (b : Bool)
  | lightuserdata (p : ℕ)
  | number (n : LuaNumber)
  | object (a : ℕ)

def Value.refs : Value → List ℕ
  | .object a => [a]
  | _ => []

/-- The weak entries of a table are left out, except for the strings among them. -/
inductive Object
  | string (s : Bytes)
  | table (entries : List (Value × Value)) (metatable : Value)
  | function (env : Value) (upvalues : List Value)
  | userdata (env metatable : Value)
  | thread (env : Value) (stack : List Value)

def Object.refs : Object → List ℕ
  | .string _ => []
  | .table entries metatable => (entries.flatMap fun e => e.1.refs ++ e.2.refs) ++ metatable.refs
  | .function env upvalues => (env :: upvalues).flatMap Value.refs
  | .userdata env metatable => env.refs ++ metatable.refs
  | .thread env stack => (env :: stack).flatMap Value.refs

/-- Strings are immutable. -/
def Object.IsString (o : Object) : Prop := ∃ s, o = .string s

/-! ## One state -/

structure State where
  heap : List (Option Object)
  /-- The frame of the host function that is running. -/
  stack : List Value
  /-- What is in the other frames. -/
  frames : List Value
  registry : Value
  globals : Value
  closed : Closed Object.refs heap ((stack ++ frames ++ [registry, globals]).flatMap Value.refs)

namespace State

def roots (L : State) : List ℕ := (L.stack ++ L.frames ++ [L.registry, L.globals]).flatMap Value.refs

def Anchors (L : State) (a : ℕ) : Prop := Reachable Object.refs L.heap L.roots a

def text (L : State) (a : ℕ) : Option Bytes :=
  match object L.heap a with
  | some (.string s) => some s
  | _ => none

def isfunction (L : State) : Value → Bool
  | .object a =>
    match object L.heap a with
    | some (.function _ _) => true
    | _ => false
  | _ => false

/-- Below an empty frame is the function or the coroutine that it belongs to, which reads as no string. -/
def top (L : State) : Value := L.stack.getLast?.getD .nil

/-- The value refers to no freed object. -/
def Valid (L : State) (v : Value) : Prop := ∀ a ∈ v.refs, (object L.heap a).isSome

theorem valid_of_mem_stack (L : State) {v : Value} (h : v ∈ L.stack) : L.Valid v := by
  intro a ha
  apply L.closed.root
  exact List.mem_flatMap.mpr ⟨v, by simp [h], ha⟩

def setStack (L : State) (stack : List Value) (h : ∀ v ∈ stack, L.Valid v) : State where
  heap := L.heap
  stack := stack
  frames := L.frames
  registry := L.registry
  globals := L.globals
  closed := by
    refine ⟨fun a ha => ?_, L.closed.edge⟩
    obtain ⟨v, hv, hav⟩ := List.mem_flatMap.mp ha
    rw [List.append_assoc] at hv
    rcases List.mem_append.mp hv with hv | hv
    · exact h v hv a hav
    · apply L.closed.root
      rw [List.append_assoc]
      exact List.mem_flatMap.mpr ⟨v, List.mem_append_right _ hv, hav⟩

/-- `lua_pop`. -/
def pop (L : State) (n : ℕ) : State :=
  L.setStack (L.stack.take (L.stack.length - n)) fun _ hv => L.valid_of_mem_stack (List.mem_of_mem_take hv)

def push (L : State) (v : Value) (hv : L.Valid v) : State :=
  L.setStack (L.stack ++ [v]) fun w hw => by
    rcases List.mem_append.mp hw with hw | hw
    · exact L.valid_of_mem_stack hw
    · rw [List.mem_singleton.mp hw]
      exact hv

/-- A full collection. -/
def collect (L : State) : State where
  heap := MarkSweep.collect Object.refs L.heap L.roots
  stack := L.stack
  frames := L.frames
  registry := L.registry
  globals := L.globals
  closed := closed_collect L.closed

def isText (s : Bytes) : Option Object → Bool
  | some (.string t) => t == s
  | _ => false

/-- `lj_str_new`: equal strings are one object. -/
def intern (L : State) (s : Bytes) : State × ℕ :=
  match L.heap.findIdx? (isText s) with
  | some a => (L, a)
  | none =>
    ({ L with
        heap := L.heap ++ [some (.string s)]
        closed := (L.closed.append rfl).of_reachable fun _ ha => .root (List.mem_cons_of_mem _ ha) },
      L.heap.length)

theorem text_eq_some {L : State} {a : ℕ} {s : Bytes} :
    L.text a = some s ↔ object L.heap a = some (.string s) := by
  unfold text
  split
  next t ht => simp [ht]
  next hne =>
    constructor
    · intro h
      cases h
    · intro h
      exact absurd h (hne s)

theorem intern_text (L : State) (s : Bytes) : (L.intern s).1.text (L.intern s).2 = some s := by
  rw [text_eq_some]
  unfold intern
  split
  next a ha =>
    obtain ⟨hlt, htext, _⟩ := List.findIdx?_eq_some_iff_getElem.mp ha
    rw [object, List.getElem?_eq_getElem hlt]
    unfold isText at htext
    split at htext
    next t ht => rw [Option.join_some, ht, beq_iff_eq.mp htext]
    next => cases htext
  next => exact object_append_length _

theorem intern_heap (L : State) (s : Bytes) : Extends Object.IsString L.heap (L.intern s).1.heap := by
  unfold intern
  split
  · exact .refl
  · exact .append _

theorem intern_valid (L : State) (s : Bytes) : (L.intern s).1.Valid (.object (L.intern s).2) := by
  intro a ha
  rw [List.mem_singleton.mp ha, text_eq_some.mp (L.intern_text s)]
  rfl

def pushString (L : State) (s : Bytes) : State :=
  (L.intern s).1.push (.object (L.intern s).2) (L.intern_valid s)

/-- What `lua_tolstring` leaves in place of a number. -/
def setTopString (L : State) (s : Bytes) : State :=
  ((L.intern s).1.pop 1).push (.object (L.intern s).2) (L.intern_valid s)

theorem pushString_heap (L : State) (s : Bytes) : Extends Object.IsString L.heap (L.pushString s).heap :=
  L.intern_heap s

/-- The value of a global, without metamethods. -/
def rawGlobal (L : State) (name : Bytes) : Value :=
  match L.globals with
  | .object g =>
    match object L.heap g with
    | some (.table entries _) =>
      match entries.find? (fun e => match e.1 with
        | .object k => L.text k == some name
        | _ => false) with
      | some e => e.2
      | none => .nil
    | _ => .nil
  | _ => .nil

theorem rawGlobal_valid (L : State) (name : Bytes) : L.Valid (L.rawGlobal name) := by
  have hnil : L.Valid .nil := fun a ha => absurd ha List.not_mem_nil
  unfold rawGlobal
  split
  next g hg =>
    split
    next entries metatable htable =>
      split
      next e he =>
        intro a ha
        apply L.closed.edge g a
        refine ⟨_, htable, ?_⟩
        have hmem : a ∈ entries.flatMap fun e => e.1.refs ++ e.2.refs :=
          List.mem_flatMap.mpr ⟨e, List.mem_of_find?_eq_some he, List.mem_append_right _ ha⟩
        exact List.mem_append_left _ hmem
      next => exact hnil
    next => exact hnil
  next => exact hnil

end State

/-! ## Other code -/

/-- What an API call or the code of a state does between collections. It may change the frame as well, as a
handler for console output does that is called while a state reports an error. -/
structure Effect where
  run : State → State
  heap : ∀ L, Extends Object.IsString L.heap (run L).heap

namespace Effect

/-- The values are taken off the frame. -/
def drop (n : ℕ) : Effect where
  run L := L.pop n
  heap _ := .refl

/-- A call that takes `n` values and returns a string. -/
def returnString (n : ℕ) (s : Bytes) : Effect where
  run L := (L.pop n).pushString s
  heap L := (L.pop n).pushString_heap s

/-- A lookup that meets no metamethod. -/
def rawGetglobal (name : Bytes) : Effect where
  run L := L.push (L.rawGlobal name) (L.rawGlobal_valid name)
  heap _ := .refl

end Effect

/-- All loaded states, by handle. -/
def World := ℕ → State

inductive Step
  | code (L : ℕ) (e : Effect)
  | collect (L : ℕ)

/-- The state in which the step is made. -/
def Step.state : Step → ℕ
  | .code L _ => L
  | .collect L => L

/-- An API call: what runs in any state before it is done, and what it does then. -/
structure Call where
  steps : List Step
  effect : Effect

namespace World

def set (W : World) (L : ℕ) (s : State) : World := fun K => if K = L then s else W K

def step (W : World) : Step → World
  | .code L e => W.set L (e.run (W L))
  | .collect L => W.set L (W L).collect

def run (W : World) (steps : List Step) : World := steps.foldl step W

def call (W : World) (L : ℕ) (c : Call) : World :=
  (W.run c.steps).set L (c.effect.run (W.run c.steps L))

@[simp] theorem set_self (W : World) (L : ℕ) (s : State) : W.set L s L = s := if_pos rfl

theorem set_of_ne (W : World) {K L : ℕ} (s : State) (h : K ≠ L) : W.set L s K = W K := if_neg h

/-! ## Pointers -/

/-- A `const char *`: NULL, a literal, or the text of a string of a state. -/
inductive Pointer
  | null
  | literal (s : Bytes)
  | string (L a : ℕ)

/-- What a reader of the pointer finds: nothing behind NULL, `none` where the string has been freed. -/
def read (W : World) : Pointer → List (Option Bytes)
  | .null => []
  | .literal s => [some s]
  | .string L a => [((W L).text a).map cstring]

/-- `lua_tostring` at the index -1. A number is turned into a string in its slot, and the collector may run
before that. -/
def tostring (W : World) (L : ℕ) (convert : List Step) : World × Pointer :=
  match (W L).top with
  | .number n =>
    let W := W.run convert
    (W.set L ((W L).setTopString (ljStrFromnum n)), .string L ((W L).intern (ljStrFromnum n)).2)
  | .object a => (W, if ((W L).text a).isSome then .string L a else .null)
  | _ => (W, .null)

def pop (W : World) (L n : ℕ) : World := W.set L ((W L).pop n)

/-- `lua_pushstring`, with what it reads: the collector runs before the text is copied. Of a freed string it
copies what happens to be there. -/
def pushstring (W : World) (L : ℕ) (p : Pointer) (steps : List Step) (garbage : Bytes) :
    World × List (Option Bytes) :=
  match p with
  | .null => (W.set L ((W L).push .nil fun _ ha => by cases ha), [])
  | p =>
    let W := W.run steps
    let found := W.read p
    (W.set L ((W L).pushString ((found.head?.join).getD garbage)), found)

/-! ## Lifetimes -/

def Holds (W : World) (L a : ℕ) (s : Bytes) : Prop := (W L).text a = some s

def Freed (W : World) (L a : ℕ) : Prop := a < (W L).heap.length ∧ object (W L).heap a = none

/-- Every collection of the state finds the object within reach. -/
def Anchored (L a : ℕ) : World → List Step → Prop
  | _, [] => True
  | W, s :: steps => (s = .collect L → (W L).Anchors a) ∧ Anchored L a (W.step s) steps

section Lifetimes
variable {W : World} {K L a : ℕ} {s : Bytes} {S : State}

/-- What holds of a state and of what replaces it, if that is where the change is, holds after the change. -/
theorem set_of {P : State → Prop} (h : P (W L)) (hS : K = L → P S) : P (W.set K S L) := by
  by_cases hK : L = K
  · subst hK
    rw [set_self]
    exact hS rfl
  · rw [set_of_ne W S hK]
    exact h

theorem Holds.set (h : W.Holds L a s) (hS : Extends Object.IsString (W K).heap S.heap) :
    (W.set K S).Holds L a s := by
  apply set_of (P := fun T => T.text a = some s) h
  rintro rfl
  rw [State.text_eq_some]
  exact hS.kept a _ (State.text_eq_some.mp h) ⟨s, rfl⟩

theorem Freed.set (h : W.Freed L a) (hS : Extends Object.IsString (W K).heap S.heap) :
    (W.set K S).Freed L a := by
  apply set_of (P := fun T => a < T.heap.length ∧ object T.heap a = none) h
  rintro rfl
  exact ⟨lt_of_lt_of_le h.1 hS.length_le, hS.empty a h.1 h.2⟩

theorem Holds.collect (h : W.Holds L a s) (ha : K = L → (W L).Anchors a) :
    (W.set K (W K).collect).Holds L a s := by
  apply set_of (P := fun T => T.text a = some s) h
  rintro rfl
  rw [State.text_eq_some]
  exact (object_collect (W K).closed (ha rfl)).trans (State.text_eq_some.mp h)

theorem Freed.collect (h : W.Freed L a) : (W.set K (W K).collect).Freed L a := by
  apply set_of (P := fun T => a < T.heap.length ∧ object T.heap a = none) h
  rintro rfl
  refine ⟨by simpa [State.collect] using h.1, ?_⟩
  show object (MarkSweep.collect Object.refs (W K).heap (W K).roots) a = none
  rw [object_collect_eq, h.2, ite_self]

theorem Holds.freed (h : W.Holds L a s) (ha : ¬ (W L).Anchors a) : (W.set L (W L).collect).Freed L a := by
  rw [Freed, set_self]
  refine ⟨?_, object_collect_eq_none (W L).closed ha⟩
  simpa [State.collect] using object_lt (State.text_eq_some.mp h)

theorem Freed.step (h : W.Freed L a) (t : Step) : (W.step t).Freed L a := by
  cases t with
  | code K e => exact h.set (e.heap _)
  | collect K => exact h.collect

theorem Freed.run (h : W.Freed L a) (steps : List Step) : (W.run steps).Freed L a := by
  induction steps generalizing W with
  | nil => exact h
  | cons t steps ih => exact ih (h.step t)

theorem Holds.step (h : W.Holds L a s) {t : Step} (ht : t = .collect L → (W L).Anchors a) :
    (W.step t).Holds L a s := by
  cases t with
  | code K e => exact h.set (e.heap _)
  | collect K => exact h.collect fun hK => ht (by rw [hK])

theorem Holds.run (h : W.Holds L a s) {steps : List Step} (ha : Anchored L a W steps) :
    (W.run steps).Holds L a s := by
  induction steps generalizing W with
  | nil => exact h
  | cons t steps ih => exact ih (h.step ha.1) ha.2

/-- The string is gone for good after the first collection that does not find it within reach. -/
theorem Holds.freed_run (h : W.Holds L a s) {steps : List Step} (ha : ¬ Anchored L a W steps) :
    (W.run steps).Freed L a := by
  induction steps generalizing W with
  | nil => exact absurd trivial ha
  | cons t steps ih =>
    by_cases ht : t = .collect L → (W L).Anchors a
    · exact ih (h.step ht) fun hrest => ha ⟨ht, hrest⟩
    · obtain ⟨rfl, hnot⟩ := Classical.not_imp.mp ht
      exact (h.freed hnot).run steps

/-- Steps in other states do not touch it. -/
theorem anchored_of_others {steps : List Step} (ho : ∀ t ∈ steps, t.state ≠ L) : Anchored L a W steps := by
  induction steps generalizing W with
  | nil => trivial
  | cons t steps ih =>
    refine ⟨?_, ih fun u hu => ho u (List.mem_cons_of_mem _ hu)⟩
    rintro rfl
    exact absurd rfl (ho _ List.mem_cons_self)

theorem Holds.call (h : W.Holds L a s) {c : Call} (ha : Anchored L a W c.steps) :
    (W.call K c).Holds L a s :=
  (h.run ha).set (c.effect.heap _)

theorem Freed.call (h : W.Freed L a) (c : Call) : (W.call K c).Freed L a :=
  (h.run c.steps).set (c.effect.heap _)

theorem Holds.pop (h : W.Holds L a s) (n : ℕ) : (W.pop K n).Holds L a s := h.set .refl

theorem Holds.read (h : W.Holds L a s) : W.read (.string L a) = [some (cstring s)] := by
  rw [World.read, show (W L).text a = some s from h]
  rfl

theorem Freed.read (h : W.Freed L a) : W.read (.string L a) = [none] := by
  have htext : (W L).text a = none := by
    cases ht : (W L).text a with
    | none => rfl
    | some s =>
      rw [State.text_eq_some, h.2] at ht
      cases ht
  rw [World.read, htext]
  rfl

end Lifetimes

/-! ## What `lua_tostring` gives -/

/-- The string on top of the frame, where it is one. -/
def topText (W : World) (L : ℕ) : Option Bytes :=
  match (W L).top with
  | .object a => (W L).text a
  | _ => none

/-- Its pointer is NULL or a live string, the one on top if that is a string. -/
theorem tostring_cases (W : World) (L : ℕ) (convert : List Step) :
    ((W.tostring L convert).2 = .null ∧ W.topText L = none) ∨
      ∃ a s, (W.tostring L convert).2 = .string L a ∧ (W.tostring L convert).1.Holds L a s ∧
        ∀ t, W.topText L = some t → t = s := by
  unfold tostring topText
  cases (W L).top with
  | number n =>
    refine .inr ⟨_, ljStrFromnum n, rfl, ?_, fun t ht => by cases ht⟩
    show ((W.run convert).set L _ L).text _ = _
    rw [set_self]
    exact State.intern_text _ _
  | object a =>
    cases ht : (W L).text a with
    | none =>
      dsimp only
      exact .inl ⟨by rw [ht]; rfl, ht⟩
    | some s =>
      refine .inr ⟨a, s, ?_, ht, fun t heq => ?_⟩
      · dsimp only
        rw [ht]
        rfl
      · exact Option.some.inj (heq.symm.trans ht)
  | _ => exact .inl ⟨rfl, rfl⟩

/-! ## What `lua_pushstring` reads -/

section Pushing
variable {W : World} {L a : ℕ} {s : Bytes} {steps : List Step} (garbage : Bytes)

theorem topText_pushString (W : World) (L : ℕ) (s : Bytes) :
    (W.set L ((W L).pushString s)).topText L = some s := by
  have htop : ((W L).pushString s).top = .object ((W L).intern s).2 := by
    simp [State.top, State.pushString, State.push, State.setStack]
  rw [topText, set_self, htop]
  exact State.intern_text _ _

theorem pushstring_holds (h : W.Holds L a s) (ha : Anchored L a W steps) :
    (W.pushstring L (.string L a) steps garbage).2 = [some (cstring s)] ∧
      (W.pushstring L (.string L a) steps garbage).1.topText L = some (cstring s) := by
  have hread := (h.run ha).read
  refine ⟨hread, ?_⟩
  simp only [pushstring, hread]
  exact topText_pushString _ _ _

theorem pushstring_freed (h : (W.run steps).Freed L a) :
    (W.pushstring L (.string L a) steps garbage).2 = [none] := h.read

end Pushing
end World
end LuaTT.Memory
