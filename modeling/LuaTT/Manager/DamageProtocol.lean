import Mathlib.Data.List.Forall2
import LuaTT.Manager.HookCalls

/-! The results of `DA_Damage_Request_Event`. Plugins return whether the damage is allowed, the damage and
the warhead, in this order; the dispatcher counts the results from the last one. -/
namespace LuaTT.Dispatch
open Lua LState Voting
set_option autoImplicit false

/-! ## The documented reading -/

/-- The first result allows the damage. -/
def allows (vs : List LuaValue) : Bool := (vs[0]?).elim true LuaValue.toboolean

/-- The second result, if it is a number. -/
def secondNumber (vs : List LuaValue) : Option Float32 :=
  ((vs[1]?).filter LuaValue.isnumber).map fun v => v.tonumber.toFloat32

def thirdNumber (vs : List LuaValue) : Option ℕ :=
  ((vs[2]?).filter LuaValue.isnumber).map fun v => toCUInt v.tonumber

/-- `return true,Damage,Warhead`, where the last ones may be left out. -/
def returned (r : DamageRequest) (vs : List LuaValue) : DamageRequest :=
  ⟨r.allow && allows vs, (secondNumber vs).getD r.damage, (thirdNumber vs).getD r.warhead⟩

/-- One to three results, as documented. -/
def Documented (vs : List LuaValue) : Prop := 1 ≤ vs.length ∧ vs.length ≤ 3

instance (vs : List LuaValue) : Decidable (Documented vs) := inferInstanceAs (Decidable (_ ∧ _))

/-- A hook, the request it is asked with and what it returns. -/
structure Asked where
  hook : LuaValue
  request : DamageRequest
  results : List LuaValue

section Damage
variable {M : Type} (code : Code M) (victim damager : Option ℤ) (scale : Float32) (type : ℤ)

/-- What the hook of the state returns when it is asked; none where it raises. -/
def damageResults (r : DamageRequest) (L : LState M) : List LuaValue :=
  match outcome code (bytes "DA_Damage_Request_Event") (damageArgs victim damager scale type r) L with
  | (_, .ok vs) => vs
  | (_, .error _) => []

/-- The requests that the defining states are asked with where `read` takes their results, and what is left of
the request. -/
def passAround (read : DamageRequest → List LuaValue → DamageRequest) :
    DamageRequest → List (LState M) → List Asked × DamageRequest
  | r, [] => ([], r)
  | r, L :: lua =>
    if Defines code (bytes "DA_Damage_Request_Event") L then
      let vs := damageResults code victim damager scale type r L
      let (asked, last) := passAround read (read r vs) lua
      (⟨code.getglobal L.mem (bytes "DA_Damage_Request_Event"), r, vs⟩ :: asked, last)
    else passAround read r lua

def Asked.call (a : Asked) : Called := ⟨a.hook, damageArgs victim damager scale type a.request⟩

/-- Every hook completes and returns one to three values. -/
def AllDocumented (lua : List (LState M)) : Prop :=
  ∀ L ∈ lua, Defines code (bytes "DA_Damage_Request_Event") L → ∀ r, ∃ mem vs,
    outcome code (bytes "DA_Damage_Request_Event") (damageArgs victim damager scale type r) L =
      (mem, .ok vs) ∧ Documented vs

theorem AllDocumented.tail {L : LState M} {lua : List (LState M)}
    (hdoc : AllDocumented code victim damager scale type (L :: lua)) :
    AllDocumented code victim damager scale type lua :=
  fun K hK => hdoc K (List.mem_cons_of_mem _ hK)

/-! ## What the dispatcher hands around -/

/-- The frame of a state after its hook has returned. -/
theorem readDamage_callHook {L : LState M} {r : DamageRequest} {mem : M} {vs : List LuaValue}
    (ho : outcome code (bytes "DA_Damage_Request_Event") (damageArgs victim damager scale type r) L =
      (mem, .ok vs)) :
    let L' := callHook code (damageArgs victim damager scale type r) none
      (L.getglobal code (bytes "DA_Damage_Request_Event"))
    readDamage (L'.gettop - L.gettop) L' r = applyDamage r vs := by
  have hstack := callHook_stack code (bytes "DA_Damage_Request_Event")
    (damageArgs victim damager scale type r) none L
  rw [ho] at hstack
  simp only [adjustResults] at hstack
  have hn : (callHook code (damageArgs victim damager scale type r) none
      (L.getglobal code (bytes "DA_Damage_Request_Event"))).gettop - L.gettop = vs.length := by
    simp [gettop, hstack]
  simp only [hn]
  exact readDamage_eq hstack r

theorem daDamageRequestEvent_passAround {lua : List (LState M)}
    (hdoc : AllDocumented code victim damager scale type lua) (r : DamageRequest) :
    (daDamageRequestEvent code victim damager scale type r lua).2 =
      (passAround code victim damager scale type applyDamage r lua).2 := by
  induction lua generalizing r with
  | nil => rfl
  | cons L lua ih =>
    have hrest := hdoc.tail
    simp only [daDamageRequestEvent, getglobal_top, passAround]
    by_cases hd : Defines code (bytes "DA_Damage_Request_Event") L
    · obtain ⟨mem, vs, ho, _⟩ := hdoc L List.mem_cons_self hd r
      simp only [if_pos hd, damageResults, ho, readDamage_callHook code victim damager scale type ho]
      exact ih hrest _
    · simp only [if_neg hd]
      exact ih hrest r

/-- The hooks are called with the requests as they are handed around. -/
theorem daDamageRequestEvent_calls {lua : List (LState M)}
    (hdoc : AllDocumented code victim damager scale type lua) (r : DamageRequest) :
    (daDamageRequestEvent code.logged victim damager scale type r (lua.map recording)).1.flatMap calls =
      (passAround code victim damager scale type applyDamage r lua).1.map
        (Asked.call victim damager scale type) := by
  induction lua generalizing r with
  | nil => rfl
  | cons L lua ih =>
    have hrest := hdoc.tail
    simp only [List.map_cons, daDamageRequestEvent, getglobal_top, passAround]
    by_cases hd : Defines code (bytes "DA_Damage_Request_Event") L
    · obtain ⟨mem, vs, ho, _⟩ := hdoc L List.mem_cons_self hd r
      have hd' : Defines code.logged (bytes "DA_Damage_Request_Event") L.recording := hd
      have ho' : outcome code.logged (bytes "DA_Damage_Request_Event")
          (damageArgs victim damager scale type r) L.recording = ((mem, [⟨code.getglobal L.mem
            (bytes "DA_Damage_Request_Event"), damageArgs victim damager scale type r⟩]), .ok vs) := by
        change (((outcome code _ _ L).1, _), (outcome code _ _ L).2) = _
        rw [ho]
        rfl
      have hcalls := callHook_calls code (bytes "DA_Damage_Request_Event")
        (damageArgs victim damager scale type r) none (L := L.recording) hd
      rw [calls_recording, erase_recording, List.nil_append, hookCalls_of_ok code _ _ hd ho] at hcalls
      have hread := readDamage_callHook code.logged victim damager scale type ho'
      have hgettop : L.recording.gettop = L.gettop := rfl
      simp only [if_pos hd', if_pos hd, damageResults, ho, hread, List.flatMap_cons, pop_calls, hcalls,
        List.map_cons, ih hrest, Asked.call, List.singleton_append]
    · have hd' : ¬ Defines code.logged (bytes "DA_Damage_Request_Event") L.recording := hd
      simp only [if_neg hd', if_neg hd, List.flatMap_cons, setglobal_calls, getglobal_calls,
        calls_recording, List.nil_append]
      exact ih hrest r

/-! ## Two readings of the results -/

theorem passAround_last (read : DamageRequest → List LuaValue → DamageRequest) (r : DamageRequest)
    (lua : List (LState M)) : (passAround code victim damager scale type read r lua).2 =
      ((passAround code victim damager scale type read r lua).1.map Asked.results).foldl read r := by
  induction lua generalizing r with
  | nil => rfl
  | cons L lua ih =>
    simp only [passAround]
    split_ifs
    · exact ih _
    · exact ih r

theorem foldl_returned (r : DamageRequest) (vss : List (List LuaValue)) :
    vss.foldl returned r = ⟨r.allow && vss.all allows, lastPick secondNumber r.damage vss,
      lastPick thirdNumber r.warhead vss⟩ := by
  induction vss generalizing r with
  | nil => simp [lastPick]
  | cons vs vss ih =>
    rw [List.foldl_cons, ih, List.all_cons, ← Bool.and_assoc]
    rfl

end Damage

/-- What a result makes of the damage and the warhead of a request. -/
def damageOf (r : DamageRequest) (v : LuaValue) : Float32 :=
  if v.isnumber then v.tonumber.toFloat32 else r.damage

def warheadOf (r : DamageRequest) (v : LuaValue) : ℕ := if v.isnumber then toCUInt v.tonumber else r.warhead

/-- Two results say the same of the damage, three the same of the warhead, from either end. -/
def Harmless (r : DamageRequest) : List LuaValue → Prop
  | [allow, damage] => damageOf r allow = damageOf r damage
  | [allow, _, warhead] => warheadOf r allow = warheadOf r warhead
  | _ => True

theorem harmless_iff {r : DamageRequest} {vs : List LuaValue} (h : Documented vs) : Harmless r vs ↔
    (applyDamage r vs).damage = (returned r vs).damage ∧
      (applyDamage r vs).warhead = (returned r vs).warhead := by
  obtain ⟨hpos, hle⟩ := h
  match vs, hpos, hle with
  | [allow], _, _ => simp [Harmless, applyDamage, returned, secondNumber, thirdNumber]
  | [allow, damage], _, _ =>
    cases ha : allow.isnumber <;> cases hd : damage.isnumber <;>
      simp [Harmless, applyDamage, returned, secondNumber, thirdNumber, damageOf, Option.filter_some, ha, hd]
  | [allow, damage, warhead], _, _ =>
    cases ha : allow.isnumber <;> cases hw : warhead.isnumber <;> cases hd : damage.isnumber <;>
      simp [Harmless, applyDamage, returned, secondNumber, thirdNumber, warheadOf, Option.filter_some, ha, hd, hw]

/-- Damage and warhead are the same. -/
def DamageRequest.Same (r r' : DamageRequest) : Prop := r.damage = r'.damage ∧ r.warhead = r'.warhead

section Damage
variable {M : Type} (code : Code M) (victim damager : Option ℤ) (scale : Float32) (type : ℤ)
variable {r r' : DamageRequest} {lua : List (LState M)}

theorem damageArgs_of_same (h : r.Same r') :
    damageArgs victim damager scale type r = damageArgs victim damager scale type r' := by
  unfold damageArgs
  rw [h.1, h.2]

theorem damageResults_of_same (h : r.Same r') (L : LState M) :
    damageResults code victim damager scale type r L = damageResults code victim damager scale type r' L := by
  unfold damageResults
  rw [damageArgs_of_same victim damager scale type h]

theorem applyDamage_same (h : r.Same r') (vs : List LuaValue) : (applyDamage r vs).Same (applyDamage r' vs) := by
  constructor
  · change Option.elim _ r.damage _ = Option.elim _ r'.damage _
    rw [h.1]
  · change Option.elim _ r.warhead _ = Option.elim _ r'.warhead _
    rw [h.2]

/-- The requests of two courses start alike if they are alike from there on. -/
theorem same_of_passAround {read read' : DamageRequest → List LuaValue → DamageRequest}
    (hseen : List.Forall₂ (fun a a' : Asked => a.request.Same a'.request)
      (passAround code victim damager scale type read r lua).1
      (passAround code victim damager scale type read' r' lua).1)
    (hlast : (passAround code victim damager scale type read r lua).2.Same
      (passAround code victim damager scale type read' r' lua).2) : r.Same r' := by
  induction lua with
  | nil => exact hlast
  | cons L lua ih =>
    simp only [passAround] at hseen hlast
    split_ifs at hseen hlast with hd
    · exact (List.forall₂_cons.mp hseen).1
    · exact ih hseen hlast

/-- Both readings go the same course exactly if the results are harmless all along. -/
theorem passAround_same (hdoc : AllDocumented code victim damager scale type lua) (h : r.Same r') :
    (∀ a ∈ (passAround code victim damager scale type returned r' lua).1, Harmless a.request a.results) ↔
      List.Forall₂ (fun a a' : Asked => a.request.Same a'.request)
          (passAround code victim damager scale type applyDamage r lua).1
          (passAround code victim damager scale type returned r' lua).1 ∧
        (passAround code victim damager scale type applyDamage r lua).2.Same
          (passAround code victim damager scale type returned r' lua).2 := by
  induction lua generalizing r r' with
  | nil => exact iff_of_true (fun a ha => absurd ha List.not_mem_nil) ⟨.nil, h⟩
  | cons L lua ih =>
    have hrest := hdoc.tail
    simp only [passAround]
    by_cases hd : Defines code (bytes "DA_Damage_Request_Event") L
    · have hresults := damageResults_of_same code victim damager scale type h L
      obtain ⟨mem, vs, ho, hvs⟩ := hdoc L List.mem_cons_self hd r'
      have hget : damageResults code victim damager scale type r' L = vs := by
        rw [damageResults, ho]
      have hread := applyDamage_same h vs
      simp only [if_pos hd, hresults, hget, List.forall₂_cons, List.forall_mem_cons, harmless_iff hvs]
      constructor
      · rintro ⟨hsame, hall⟩
        have hnext : (applyDamage r vs).Same (returned r' vs) :=
          ⟨hread.1.trans hsame.1, hread.2.trans hsame.2⟩
        obtain ⟨hseen, hlast⟩ := (ih hrest hnext).mp hall
        exact ⟨⟨h, hseen⟩, hlast⟩
      · rintro ⟨⟨_, hseen⟩, hlast⟩
        have hnext := same_of_passAround code victim damager scale type hseen hlast
        have hsame : (applyDamage r' vs).Same (returned r' vs) :=
          ⟨hread.1.symm.trans hnext.1, hread.2.symm.trans hnext.2⟩
        exact ⟨hsame, (ih hrest hnext).mpr ⟨hseen, hlast⟩⟩
    · simp only [if_neg hd]
      exact ih hrest h

/-- Requests that are alike get the same answers. -/
theorem results_eq_of_same {read read' : DamageRequest → List LuaValue → DamageRequest}
    (hseen : List.Forall₂ (fun a a' : Asked => a.request.Same a'.request)
      (passAround code victim damager scale type read r lua).1
      (passAround code victim damager scale type read' r' lua).1) :
    (passAround code victim damager scale type read r lua).1.map Asked.results =
        (passAround code victim damager scale type read' r' lua).1.map Asked.results ∧
      (passAround code victim damager scale type read r lua).1.map (Asked.call victim damager scale type) =
        (passAround code victim damager scale type read' r' lua).1.map
          (Asked.call victim damager scale type) := by
  induction lua generalizing r r' with
  | nil => exact ⟨rfl, rfl⟩
  | cons L lua ih =>
    simp only [passAround] at hseen ⊢
    by_cases hd : Defines code (bytes "DA_Damage_Request_Event") L
    · simp only [if_pos hd, List.forall₂_cons] at hseen ⊢
      obtain ⟨hresults, hcalls⟩ := ih hseen.2
      have hargs := damageArgs_of_same victim damager scale type hseen.1
      have hsame := damageResults_of_same code victim damager scale type hseen.1 L
      constructor
      · rw [List.map_cons, List.map_cons, hresults, hsame]
      · rw [List.map_cons, List.map_cons, hcalls, Asked.call, Asked.call, hargs]
    · simp only [if_neg hd] at hseen ⊢
      exact ih hseen

/-! ## The protocol -/

/-- The documented course of a request. -/
def documented (damage : Float32) (warhead : ℕ) (lua : List (LState M)) : List Asked × DamageRequest :=
  passAround code victim damager scale type returned ⟨true, damage, warhead⟩ lua

/-- The states are asked with what those before them have left, the damage is refused if one of them does so
with its first result, and damage and warhead are those of the last second and third numbers. -/
structure FollowsProtocol (damage : Float32) (warhead : ℕ) (lua : List (LState M)) : Prop where
  calls : (daDamageRequestEvent code.logged victim damager scale type ⟨true, damage, warhead⟩
      (lua.map recording)).1.flatMap calls =
    (documented code victim damager scale type damage warhead lua).1.map (Asked.call victim damager scale type)
  requests : List.Forall₂ (fun a a' : Asked => a.request.Same a'.request)
    (passAround code victim damager scale type applyDamage ⟨true, damage, warhead⟩ lua).1
    (documented code victim damager scale type damage warhead lua).1
  allow : (daDamageRequestEvent code victim damager scale type ⟨true, damage, warhead⟩ lua).2.allow = false ↔
    ∃ a ∈ (documented code victim damager scale type damage warhead lua).1, allows a.results = false
  lastDamage : (daDamageRequestEvent code victim damager scale type ⟨true, damage, warhead⟩ lua).2.damage =
    lastPick secondNumber damage
      ((documented code victim damager scale type damage warhead lua).1.map Asked.results)
  lastWarhead : (daDamageRequestEvent code victim damager scale type ⟨true, damage, warhead⟩ lua).2.warhead =
    lastPick thirdNumber warhead
      ((documented code victim damager scale type damage warhead lua).1.map Asked.results)

/-- From either end the results say the same of damage and warhead, and there is a refusal among the last
results if there is one among the first. -/
structure ReadsAlike (damage : Float32) (warhead : ℕ) (lua : List (LState M)) : Prop where
  harmless : ∀ a ∈ (documented code victim damager scale type damage warhead lua).1,
    Harmless a.request a.results
  refusals : (∃ a ∈ (documented code victim damager scale type damage warhead lua).1,
      passDamage a.results = false) ↔
    ∃ a ∈ (documented code victim damager scale type damage warhead lua).1, allows a.results = false

/-- **Damage requests.** -/
theorem damage_request_protocol (hdoc : AllDocumented code victim damager scale type lua)
    (damage : Float32) (warhead : ℕ) :
    FollowsProtocol code victim damager scale type damage warhead lua ↔
      ReadsAlike code victim damager scale type damage warhead lua := by
  have hactual := daDamageRequestEvent_passAround code victim damager scale type hdoc ⟨true, damage, warhead⟩
  have hcalls := daDamageRequestEvent_calls code victim damager scale type hdoc ⟨true, damage, warhead⟩
  have hstart : DamageRequest.Same ⟨true, damage, warhead⟩ ⟨true, damage, warhead⟩ := ⟨rfl, rfl⟩
  have hsame := passAround_same code victim damager scale type hdoc hstart
  have hlast := passAround_last code victim damager scale type returned ⟨true, damage, warhead⟩ lua
  rw [foldl_returned] at hlast
  have hallow := passAround_last code victim damager scale type applyDamage ⟨true, damage, warhead⟩ lua
  rw [← hactual, foldl_applyDamage] at hallow
  have hvetoes : (daDamageRequestEvent code victim damager scale type ⟨true, damage, warhead⟩ lua).2.allow =
      false ↔ ∃ vs ∈ (passAround code victim damager scale type applyDamage ⟨true, damage, warhead⟩ lua).1.map
        Asked.results, passDamage vs = false := by
    rw [hallow]
    simp
  constructor
  · intro hf
    obtain ⟨hresults, _⟩ := results_eq_of_same code victim damager scale type hf.requests
    refine ⟨hsame.mpr ⟨hf.requests, ?_⟩, ?_⟩
    · rw [← hactual, hlast]
      exact ⟨hf.lastDamage, hf.lastWarhead⟩
    · rw [← hf.allow, hvetoes, hresults]
      simp [documented]
  · intro hr
    obtain ⟨hseen, hend⟩ := hsame.mp hr.harmless
    obtain ⟨hresults, hmade⟩ := results_eq_of_same code victim damager scale type hseen
    rw [← hactual, hlast] at hend
    refine ⟨hcalls.trans hmade, hseen, ?_, hend.1, hend.2⟩
    rw [hvetoes, hresults, ← hr.refusals]
    simp [documented]

end Damage

/-- The hook of every state returns these values. -/
def returningCode (vs : List LuaValue) : Code Unit where
  getglobal _ _ := .function 0
  setglobal _ _ _ := ()
  call _ _ _ := ((), .ok vs)

def damagedState : LState Unit := ⟨(), .nil, [], []⟩

/-- A plugin that only refuses. -/
theorem damage_request_protocol_refused :
    FollowsProtocol (returningCode [.boolean false]) (some 1) (some 2) 1 0 5 3 [damagedState] := by
  refine (damage_request_protocol _ _ _ _ _ ?_ 5 3).mpr ⟨?_, iff_of_true ?_ ?_⟩
  · exact fun L _ _ r => ⟨(), _, rfl, by decide⟩
  · intro a ha
    obtain rfl := List.mem_singleton.mp ha
    trivial
  · exact ⟨_, List.mem_singleton_self _, rfl⟩
  · exact ⟨_, List.mem_singleton_self _, rfl⟩

/-- `return false,5,3`: the last result counts as true. -/
theorem damage_request_misread : ¬ ∀ (vs : List LuaValue) (lua : List (LState Unit)),
    AllDocumented (returningCode vs) (some 1) (some 2) 1 0 lua →
    FollowsProtocol (returningCode vs) (some 1) (some 2) 1 0 5 3 lua := by
  intro hall
  have hdoc : AllDocumented (returningCode [.boolean false, number 5, number 3]) (some 1) (some 2) 1 0
      [damagedState] := fun L _ _ r => ⟨(), _, rfl, by decide⟩
  have hallow := (hall _ [damagedState] hdoc).allow.mpr ⟨_, List.mem_singleton_self _, rfl⟩
  cases hallow

end LuaTT.Dispatch
