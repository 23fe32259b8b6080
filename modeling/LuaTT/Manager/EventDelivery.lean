import LuaTT.Library.Transition
import LuaTT.Manager.HookOutcome

/-! The callbacks that plugins have the engine install. `Add_Console_Hook` and its siblings append one at
every call, and the engine calls each of them for every event until the process ends; `luatt` installs two of
its own at the start. -/
namespace LuaTT.EventDelivery
open Lua LState Dispatch Transition
set_option autoImplicit false

/-! ## Callbacks -/

/-- The lists of callbacks that the requests append to. -/
inductive Kind
  | consoleOutput
  | hostMessage
  | radio
  | damage
  | refill
  deriving DecidableEq

/-- The list that the engine goes through for an event. -/
def kind : Event → Option Kind
  | .consoleOutput .. => some .consoleOutput
  | .host .. => some .hostMessage
  | .radio .. => some .radio
  | .ttDamage .. => some .damage
  | .refill .. => some .refill
  | _ => none

inductive Request
  | addConsoleHook
  | addRadioHook
  | addTTDamageHook
  | addRefillHook

def Request.registers : Request → List Kind
  | addConsoleHook => [.consoleOutput, .hostMessage]
  | addRadioHook => [.radio]
  | addTTDamageHook => [.damage]
  | addRefillHook => [.refill]

/-- Installed by `luatt::luatt`: `RegisterEvent(EVENT_REFILL_HOOK)` and `AddHostHook`. -/
def builtin : List Kind := [.refill, .hostMessage]

structure State (M : Type) where
  lua : List (LState M)
  callbacks : List Kind
  /-- What the plugins have called so far, those of earlier loads included. -/
  requests : List Request

inductive Act (M : Type)
  | load (L : LState M)
  | reload
  | request (r : Request)
  | event (e : Event)
  /-- Other code of a plugin has run. -/
  | execute (i : ℕ) (mem : M)

section Delivery
variable {M : Type} (code : Code M)

/-- One callback of the engine for the event. -/
def deliver (e : Event) (lua : List (LState M)) : List (LState M) := (dispatch code e lua).1

/-- The engine calls all callbacks there are. -/
def raise (e : Event) (s : State M) : List (LState M) :=
  match kind e with
  | some k => (deliver code e)^[s.callbacks.count k] s.lua
  | none => deliver code e s.lua

def step (s : State M) : Act M → Option (State M)
  | .load L => some { s with lua := s.lua ++ [L] }
  | .reload => some { s with lua := [] }
  | .request r =>
    some { s with callbacks := s.callbacks ++ r.registers, requests := s.requests ++ [r] }
  | .event e => some { s with lua := raise code e s }
  | .execute i mem =>
    s.lua[i]?.map fun L => { s with lua := s.lua.set i { L with mem := mem } }

def initial : State M := ⟨[], builtin, []⟩

def system : System (State M) (Act M) := ⟨fun s => s = initial, step code⟩

def deliverState (e : Event) (L : LState M) : LState M := (deliver code e [L]).headD L

/-- How often the handler of a state is called by `n` callbacks. -/
def calls (e : Event) : ℕ → LState M → ℕ
  | 0, _ => 0
  | n + 1, L =>
    (if e.skipped = false ∧ Defines code e.hook L then 1 else 0) + calls e n (deliverState code e L)

/-- Each state that defines the handler of the event has it called once. -/
def Once (s : State M) (e : Event) (k : Kind) : Prop :=
  ∀ L ∈ s.lua, Defines code e.hook L → calls code e (s.callbacks.count k) L = 1

end Delivery

variable {M : Type}

def asked (s : State M) (k : Kind) : ℕ := s.requests.countP fun r => k ∈ r.registers

/-- There has been one request for the kind, and `luatt` has installed no callback for it. -/
def Single (s : State M) (k : Kind) : Prop := k ∉ builtin ∧ asked s k = 1

/-! ## One callback -/

section States
variable (code : Code M)

theorem verdictHook_states {β : Type} (name : Bytes) (args : List LuaValue) (combine : β → LuaValue → β)
    (ret : β) (lua : List (LState M)) :
    (verdictHook code name args combine ret lua).1 =
      lua.map fun L => ((verdictHook code name args combine ret [L]).1).headD L := by
  induction lua generalizing ret with
  | nil => rfl
  | cons L lua ih =>
    have hone : ∀ ret' L', ((verdictHook code name args combine ret' [L']).1).headD L' =
        ((verdictHook code name args combine ret [L']).1).headD L' := by
      intro ret' L'
      simp only [verdictHook]
      split_ifs <;> rfl
    simp only [hone] at ih
    simp only [verdictHook, List.map_cons]
    split_ifs
    · rw [ih]
      rfl
    · rw [ih]
      rfl

theorem intVerdictHook_states (name : Bytes) (args : List LuaValue) (lua : List (LState M)) :
    (intVerdictHook code name args lua).1 =
      lua.map fun L => ((intVerdictHook code name args [L]).1).headD L :=
  verdictHook_states code name args combineInt 1 lua

theorem deliver_eq {e : Event} {k : Kind} (hk : kind e = some k) (lua : List (LState M)) :
    deliver code e lua = lua.map (deliverState code e) := by
  cases e with
  | consoleOutput output => rfl
  | host playerID type message => rfl
  | radio playerType playerID announcementID iconID announcementType =>
    exact intVerdictHook_states code (bytes "RadioHook") _ lua
  | ttDamage damager target ammo name warhead damage bone =>
    exact intVerdictHook_states code (bytes "TTDamageHook") _ lua
  | refill purchaser =>
    cases purchaser with
    | none => exact (List.map_id lua).symm
    | some id => exact intVerdictHook_states code (bytes "OnRefill") _ lua
  | _ => cases hk

/-- So an event does to each state what its callbacks do to that state one after the other. -/
theorem raise_eq {e : Event} {k : Kind} (hk : kind e = some k) (s : State M) :
    raise code e s = s.lua.map (deliverState code e)^[s.callbacks.count k] := by
  have hiterate : ∀ (n : ℕ) (lua : List (LState M)),
      (deliver code e)^[n] lua = lua.map (deliverState code e)^[n] := by
    intro n
    induction n with
    | zero => exact fun lua => (List.map_id lua).symm
    | succ n ih =>
      intro lua
      rw [Function.iterate_succ_apply, deliver_eq code hk, ih, List.map_map]
      rfl
  simp only [raise, hk]
  exact hiterate _ _

theorem calls_skipped {e : Event} (hskip : e.skipped = true) (n : ℕ) (L : LState M) :
    calls code e n L = 0 := by
  induction n generalizing L with
  | zero => rfl
  | succ n ih => simp [calls, hskip, ih]

/-- Two callbacks call a handler that stays twice, or not at all. -/
theorem calls_ne_one {e : Event} {L : LState M} (hL : Defines code e.hook L)
    (hkeep : Defines code e.hook (deliverState code e L)) (n : ℕ) : calls code e (n + 2) L ≠ 1 := by
  cases hskip : e.skipped with
  | true =>
    rw [calls_skipped code hskip]
    exact Nat.zero_ne_one
  | false =>
    have hfirst : e.skipped = false ∧ Defines code e.hook L := ⟨hskip, hL⟩
    have hsecond : e.skipped = false ∧ Defines code e.hook (deliverState code e L) := ⟨hskip, hkeep⟩
    simp only [calls, if_pos hfirst, if_pos hsecond]
    omega

end States

/-! ## The list of callbacks -/

theorem count_registers (r : Request) (k : Kind) : r.registers.count k = if k ∈ r.registers then 1 else 0 := by
  cases r <;> cases k <;> rfl

theorem count_flatMap_registers (rs : List Request) (k : Kind) :
    (rs.flatMap Request.registers).count k = rs.countP fun r => k ∈ r.registers := by
  induction rs with
  | nil => rfl
  | cons r rs ih =>
    rw [List.flatMap_cons, List.count_append, ih, count_registers, List.countP_cons]
    by_cases hk : k ∈ r.registers
    · simp [hk, Nat.add_comm]
    · simp [hk]

variable (code : Code M)

/-- Nothing takes a callback from the list, a reload no more than an event. -/
theorem callbacks_eq {s : State M} (hr : (system code).Reaches System.anyStep s) :
    s.callbacks = builtin ++ s.requests.flatMap Request.registers := by
  refine hr.invariant (I := fun s => s.callbacks = builtin ++ s.requests.flatMap Request.registers) ?_ ?_
  · rintro s rfl
    rfl
  · intro s a s' h _ hs
    cases a with
    | load L =>
      obtain rfl := Option.some.inj hs
      exact h
    | reload =>
      obtain rfl := Option.some.inj hs
      exact h
    | request r =>
      obtain rfl := Option.some.inj hs
      simp [h]
    | event e =>
      obtain rfl := Option.some.inj hs
      exact h
    | execute i mem =>
      obtain ⟨L, _, rfl⟩ := Option.map_eq_some_iff.mp hs
      exact h

theorem count_callbacks {s : State M} (hr : (system code).Reaches System.anyStep s) (k : Kind) :
    s.callbacks.count k = builtin.count k + asked s k := by
  rw [callbacks_eq code hr, List.count_append, count_flatMap_registers]
  rfl

/-! ## Events -/

theorem not_skipped_of_single {e : Event} {k : Kind} (hk : kind e = some k) (hbuiltin : k ∉ builtin) :
    e.skipped = false := by
  cases e with
  | refill purchaser =>
    obtain rfl := Option.some.inj hk
    exact absurd (by decide) hbuiltin
  | consoleOutput | host | radio | ttDamage => rfl
  | _ => cases hk

/-- **Delivery.** After a request for its kind an event calls the handler of each loaded state once if there
has been one request in the whole run and `luatt` has installed no callback of that kind. Where handlers stay
defined, it does so only then, or if no loaded state defines the handler. -/
theorem delivered_once {s : State M} (hr : (system code).Reaches System.anyStep s) {e : Event} {k : Kind}
    (hk : kind e = some k) (hasked : 0 < asked s k) :
    (Single s k ∨ (∀ L ∈ s.lua, ¬ Defines code e.hook L) → Once code s e k) ∧
      ((∀ L ∈ s.lua, Defines code e.hook L → Defines code e.hook (deliverState code e L)) →
        Once code s e k → Single s k ∨ ∀ L ∈ s.lua, ¬ Defines code e.hook L) := by
  have hcount := count_callbacks code hr k
  constructor
  · rintro (⟨hbuiltin, hone⟩ | hnone) L hL hdefines
    · have hcalled : e.skipped = false ∧ Defines code e.hook L :=
        ⟨not_skipped_of_single hk hbuiltin, hdefines⟩
      rw [hcount, hone, List.count_eq_zero_of_not_mem hbuiltin]
      simp only [calls, if_pos hcalled]
    · exact absurd hdefines (hnone L hL)
  · intro hkeep honce
    by_contra hnot
    obtain ⟨hsingle, hsome⟩ := not_or.mp hnot
    have hmany : 2 ≤ s.callbacks.count k := by
      by_cases hbuiltin : k ∈ builtin
      · have hpos : 0 < builtin.count k := List.count_pos_iff.mpr hbuiltin
        omega
      · have hne : asked s k ≠ 1 := fun h => hsingle ⟨hbuiltin, h⟩
        omega
    apply hsome
    intro L hL hdefines
    obtain ⟨n, hn⟩ := Nat.exists_eq_add_of_le' hmany
    have hcalls := honce L hL hdefines
    rw [hn] at hcalls
    exact calls_ne_one code hdefines (hkeep L hL hdefines) n hcalls

/-- A plugin that takes part in radio messages. -/
def radioCode : Code Unit where
  getglobal _ name := if name = bytes "RadioHook" then .function 0 else .nil
  setglobal _ _ _ := ()
  call _ _ _ := ((), .ok [])

theorem delivered_once_sample : ∃ s L, s.lua = [L] ∧ Defines radioCode (bytes "RadioHook") L ∧
    Once radioCode s (.radio 0 1 2 3 4) .radio := by
  have hstart : (system radioCode).Reaches System.anyStep initial := .start rfl
  have hrun := hstart.exec [.load ⟨(), .nil, [], []⟩, .request .addRadioHook] (System.along_anyStep _ _) rfl
  have honce := (delivered_once radioCode hrun (e := .radio 0 1 2 3 4) (k := .radio) rfl (by decide)).1
  exact ⟨_, _, rfl, rfl, honce (.inl ⟨by decide, by decide⟩)⟩

/-- The plugin asks for its hook whenever it is loaded, and there has been a reload. -/
theorem requested_again : ¬ ∀ (s : State Unit) (e : Event) (k : Kind),
    (system radioCode).Reaches System.anyStep s → kind e = some k → 0 < asked s k →
      Once radioCode s e k := by
  intro h
  have hstart : (system radioCode).Reaches System.anyStep initial := .start rfl
  have hrun := hstart.exec [.load ⟨(), .nil, [], []⟩, .request .addRadioHook, .reload,
    .load ⟨(), .nil, [], []⟩, .request .addRadioHook] (System.along_anyStep _ _) rfl
  have honce := h _ (.radio 0 1 2 3 4) .radio hrun rfl (by decide) _ (List.mem_singleton_self _) rfl
  exact calls_ne_one radioCode rfl rfl 0 honce

end LuaTT.EventDelivery
