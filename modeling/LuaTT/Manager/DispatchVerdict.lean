import LuaTT.Manager.HookOutcome

/-! What the dispatchers make of the values they read, the results of the hooks and what is read in place
of those that raise. -/
namespace LuaTT.Dispatch
open Lua LState Voting
set_option autoImplicit false

variable {M : Type} (code : Code M)

section Hook
variable (name : Bytes) (args : List LuaValue)

/-! ## What the dispatchers combine -/

theorem verdictHook_verdict {β : Type} (combine : β → LuaValue → β) (ret : β) (lua : List (LState M)) :
    (verdictHook code name args combine ret lua).2 =
      (values (ballots code name args lua)).foldl combine ret := by
  induction lua generalizing ret with
  | nil => rfl
  | cons L lua ih =>
    simp only [verdictHook, getglobal_top, ballots, List.filterMap_cons]
    cases hb : ballot code name args L with
    | none =>
      rw [if_neg (not_defines_of_ballot code name args hb)]
      exact ih ret
    | some b =>
      rw [if_pos (defines_of_ballot code name args hb), callHook_top code name args hb]
      exact ih (combine ret b.value)

/-- The hook allows what it is asked about. -/
def passInt (v : LuaValue) : Bool := toCInt v.tonumber ≠ 0

theorem foldl_combineInt_zero (vs : List LuaValue) : vs.foldl combineInt 0 = 0 := by
  induction vs with
  | nil => rfl
  | cons v vs ih => exact ih

theorem foldl_combineInt {ret : ℤ} (hret : ret ≠ 0) (vs : List LuaValue) :
    decide (vs.foldl combineInt ret ≠ 0) = vs.all passInt := by
  induction vs generalizing ret with
  | nil => simp [hret]
  | cons v vs ih =>
    simp only [List.foldl_cons, List.all_cons, combineInt, if_neg hret]
    by_cases hv : toCInt v.tonumber = 0
    · rw [hv, foldl_combineInt_zero]
      simp [passInt, hv]
    · rw [ih hv]
      simp [passInt, hv]

theorem foldl_combineBool (ret : Bool) (vs : List LuaValue) :
    vs.foldl combineBool ret = (ret && vs.all LuaValue.toboolean) := by
  induction vs generalizing ret with
  | nil => simp
  | cons v vs ih =>
    rw [List.foldl_cons, ih]
    cases ret <;> simp [combineBool]

/-- A number other than 0 is a status. -/
def nonzero (v : LuaValue) : Option ℤ :=
  if toCInt v.tonumber ≠ 0 then some (toCInt v.tonumber) else none

theorem foldl_combineNonzero (ret : ℤ) (vs : List LuaValue) :
    vs.foldl combineNonzero ret = lastPick nonzero ret vs := by
  apply congrArg (fun f => vs.foldl f ret)
  funext ret v
  by_cases hv : toCInt v.tonumber = 0 <;> simp [combineNonzero, nonzero, hv]

theorem connectionHook_verdict (lua : List (LState M)) :
    (connectionHook code name args (bytes "CONTINUE") lua).2 =
      firstPick refusal (bytes "CONTINUE") (values (ballots code name args lua)) := by
  induction lua with
  | nil => rfl
  | cons L lua ih =>
    simp only [connectionHook, getglobal_top, ballots, List.filterMap_cons]
    cases hb : ballot code name args L with
    | none =>
      rw [if_neg (not_defines_of_ballot code name args hb)]
      exact ih
    | some b =>
      rw [if_pos (defines_of_ballot code name args hb), callHook_top code name args hb]
      cases hr : refusal b.value with
      | none =>
        rw [if_neg (not_not.mpr (refusal_eq_none.mp hr)), refusal_eq_none.mp hr]
        exact ih.trans (firstPick_cons_none _ hr).symm
      | some s =>
        rw [if_pos fun hc => by simp [refusal_eq_none.mpr hc] at hr]
        refine Eq.trans ?_ (firstPick_cons_some _ hr).symm
        exact getD_of_refusal hr

end Hook

/-! ## Generic events -/

section Generic
variable (func : Bytes) (params : GenericParamList)

theorem getTotalArguments_eq : params.getTotalArguments = params.args.length := by
  unfold GenericParamList.getTotalArguments GenericParamList.args
  induction params.params with
  | nil => rfl
  | cons p ps ih =>
    rw [List.countP_cons, ih, List.flatMap_cons, List.length_append]
    cases p <;> simp [GenericParamList.pushStack, Nat.add_comm]

theorem genericLoop_verdict (ret : ℤ) (lua : List (LState M)) :
    (genericLoop code func params 1 ret lua).2 =
      (values (ballots code func params.args lua)).foldl params.combine ret := by
  induction lua generalizing ret with
  | nil => rfl
  | cons L lua ih =>
    simp only [genericLoop, getglobal_top, ballots, List.filterMap_cons, getTotalArguments_eq]
    cases hb : ballot code func params.args L with
    | none =>
      rw [if_neg (not_defines_of_ballot code func params.args hb)]
      exact ih ret
    | some b =>
      have htop := callHook_top code func params.args hb
      simp only [callHook] at htop
      rw [if_pos (defines_of_ballot code func params.args hb), htop]
      exact ih (params.combine ret b.value)

/-- What a generic event for a boolean makes of its results. -/
def genericBool (ret : ℤ) (vs : List LuaValue) : ℤ :=
  if ret = 0 ∨ vs = [] then ret else if vs.all LuaValue.toboolean then 1 else 0

theorem foldl_combine_useBool (hb : params.ret = .useBool) (ret : ℤ) (vs : List LuaValue) :
    vs.foldl params.combine ret = genericBool ret vs := by
  induction vs generalizing ret with
  | nil => simp [genericBool]
  | cons v vs ih =>
    rw [List.foldl_cons, ih, GenericParamList.combine, hb]
    by_cases hret : ret = 0
    · simp [genericBool, hret]
    · cases hv : v.toboolean <;> cases vs <;> simp [genericBool, hret, hv]

/-- Besides a veto, the default shows where it is neither 0 nor 1 and every hook raises. -/
def GenericAgrees (ret : ℤ) (bs : List (Ballot LuaValue)) : Prop :=
  ret = 0 ∨ VetoAgrees LuaValue.toboolean bs ∧ (strays bs = [] ∨ answers bs ≠ [] ∨ ret = 1)

theorem genericBool_values_eq (ret : ℤ) (bs : List (Ballot LuaValue)) :
    genericBool ret (values bs) = genericBool ret (answers bs) ↔ GenericAgrees ret bs := by
  by_cases hret : ret = 0
  · simp [genericBool, GenericAgrees, hret]
  have hveto := all_values_eq LuaValue.toboolean bs
  rw [GenericAgrees, or_iff_right hret, ← hveto]
  by_cases ha : answers bs = []
  · by_cases hs : strays bs = []
    · have hv : values bs = [] := by
        apply List.eq_nil_iff_forall_not_mem.mpr
        intro v hv
        simpa [ha, hs] using mem_values.mp hv
      simp [hv, ha, hs]
    · obtain ⟨v, hv⟩ := List.exists_mem_of_ne_nil _ hs
      have hne : values bs ≠ [] := List.ne_nil_of_mem (mem_values.mpr (.inr hv))
      simp only [genericBool, hret, hne, ha, or_self, or_true, if_true, if_false, List.all_nil]
      cases (values bs).all LuaValue.toboolean
      · have hret' : (0 : ℤ) ≠ ret := fun h => hret h.symm
        simp [hret']
      · simpa [hs] using eq_comm
  · obtain ⟨v, hv⟩ := List.exists_mem_of_ne_nil _ ha
    have hne : values bs ≠ [] := List.ne_nil_of_mem (mem_values.mpr (.inl hv))
    simp only [genericBool, hret, hne, ha, or_self, if_false]
    cases (values bs).all LuaValue.toboolean <;> cases (answers bs).all LuaValue.toboolean <;> simp [ha]

/-- A string or a number is a status. -/
def integer (v : LuaValue) : Option ℤ := v.tolstring.map fun s => (LuaValue.string s).tointeger

theorem foldl_combine_useInt (hi : params.ret = .useInt) (ret : ℤ) (vs : List LuaValue) :
    vs.foldl params.combine ret = lastPick integer ret vs := by
  apply congrArg (fun f => vs.foldl f ret)
  funext ret v
  rw [GenericParamList.combine, hi]
  cases hv : v.tolstring <;> simp [integer, hv]

end Generic

/-! ## Damage requests -/

/-- What the results of one hook change, the last result first. -/
def applyDamage (r : DamageRequest) (vs : List LuaValue) : DamageRequest where
  allow := (vs.reverse[0]?).elim r.allow (combineBool r.allow)
  damage := ((vs.reverse[1]?).filter LuaValue.isnumber).elim r.damage fun v => v.tonumber.toFloat32
  warhead := ((vs.reverse[2]?).filter LuaValue.isnumber).elim r.warhead fun v => toCUInt v.tonumber

theorem reverse_getElem? {L : LState M} {s vs : List LuaValue} (h : L.stack = s ++ vs) {i : ℕ}
    (hi : i < vs.length) : vs.reverse[i]? = some (L.fromTop (i + 1)) := by
  have hlen : ¬ (s ++ vs).length < i + 1 := by
    rw [List.length_append]
    omega
  have hadr : index2adr L.stack (-((i + 1 : ℕ) : ℤ)) = (s ++ vs)[(s ++ vs).length - (i + 1)]? := by
    have hpos : ¬ 0 < -((i + 1 : ℕ) : ℤ) := by omega
    have hzero : ¬ (-((i + 1 : ℕ) : ℤ) = 0) := by omega
    rw [index2adr, h, if_neg hpos, Int.natAbs_neg, Int.natAbs_natCast,
      if_neg (not_or.mpr ⟨hzero, hlen⟩)]
  have hright : (s ++ vs).length - (i + 1) - s.length = vs.length - 1 - i := by
    rw [List.length_append]
    omega
  rw [List.getElem?_append_right (by rw [List.length_append]; omega), hright] at hadr
  have hlt : vs.length - 1 - i < vs.length := by omega
  rw [List.getElem?_reverse hi, fromTop, hadr, List.getElem?_eq_getElem hlt, Option.getD_some]

theorem ite_isnumber {α : Type} {L : LState M} {s vs : List LuaValue} (h : L.stack = s ++ vs) (i : ℕ)
    (f : LuaValue → α) (a : α) :
    (if i + 1 ≤ vs.length ∧ (L.fromTop (i + 1)).isnumber then f (L.fromTop (i + 1)) else a) =
      ((vs.reverse[i]?).filter LuaValue.isnumber).elim a f := by
  by_cases hi : i < vs.length
  · rw [reverse_getElem? h hi, Option.filter_some]
    by_cases hn : (L.fromTop (i + 1)).isnumber = true
    · rw [if_pos ⟨hi, hn⟩, if_pos hn]
      rfl
    · rw [if_neg fun hc => hn hc.2, if_neg hn]
      rfl
  · rw [if_neg fun hc => hi hc.1, List.getElem?_eq_none (by simpa using hi)]
    rfl

theorem readDamage_eq {L : LState M} {s vs : List LuaValue} (h : L.stack = s ++ vs)
    (r : DamageRequest) : readDamage vs.length L r = applyDamage r vs := by
  unfold readDamage applyDamage
  congr 1
  · rcases List.eq_nil_or_concat vs with rfl | ⟨vs', v, rfl⟩
    · rfl
    · rw [List.concat_eq_append, ← List.append_assoc] at h
      simp [top_of_stack_append h]
  · exact ite_isnumber h 1 (fun v => v.tonumber.toFloat32) r.damage
  · exact ite_isnumber h 2 (fun v => toCUInt v.tonumber) r.warhead

/-- The results allow the damage. -/
def passDamage (vs : List LuaValue) : Bool := (vs.reverse[0]?).elim true LuaValue.toboolean

def newDamage (vs : List LuaValue) : Option Float32 :=
  ((vs.reverse[1]?).filter LuaValue.isnumber).map fun v => v.tonumber.toFloat32

def newWarhead (vs : List LuaValue) : Option ℕ :=
  ((vs.reverse[2]?).filter LuaValue.isnumber).map fun v => toCUInt v.tonumber

theorem foldl_applyDamage (r : DamageRequest) (vss : List (List LuaValue)) :
    vss.foldl applyDamage r = ⟨r.allow && vss.all passDamage, lastPick newDamage r.damage vss,
      lastPick newWarhead r.warhead vss⟩ := by
  induction vss generalizing r with
  | nil => simp [lastPick]
  | cons vs vss ih =>
    have hallow : (applyDamage r vs).allow = (r.allow && passDamage vs) := by
      cases hv : vs.reverse[0]? with
      | none => simp [applyDamage, passDamage, hv]
      | some v => cases ha : r.allow <;> simp [applyDamage, passDamage, hv, combineBool, ha]
    have hdamage : (applyDamage r vs).damage = (newDamage vs).getD r.damage := by
      cases hv : (vs.reverse[1]?).filter LuaValue.isnumber <;> simp [applyDamage, newDamage, hv]
    have hwarhead : (applyDamage r vs).warhead = (newWarhead vs).getD r.warhead := by
      cases hv : (vs.reverse[2]?).filter LuaValue.isnumber <;> simp [applyDamage, newWarhead, hv]
    rw [List.foldl_cons, ih, hallow, hdamage, hwarhead, List.all_cons, Bool.and_assoc]
    rfl

/-! ## All dispatchers -/

/-- The verdict on the results of the hooks that completed, in the order of the states. -/
def verdictOf (e : Event) (vs : List LuaValue) : Verdict :=
  match e with
  | .chat .. | .radio .. | .refill .. | .stockDamage .. | .ttDamage .. => .bool (vs.all passInt)
  | .daSuicide .. | .daRefill .. | .daTeamChangeRequest .. => .bool (vs.all LuaValue.toboolean)
  | .purchase2 .. => .int (lastPick nonzero (-1) vs)
  | .conAc .. | .daConnectionRequest .. => .string (firstPick refusal (bytes "CONTINUE") vs)
  | .generic _ params =>
    match params.ret with
    | .useBool => .int (genericBool params.defaultReturn vs)
    | .useInt => .int (lastPick integer params.defaultReturn vs)
    | .useOther => .int params.defaultReturn
    | .useNothing => .int 0
  | .host .. => .bool true
  | _ => .nothing

theorem intVerdictHook_verdict (name : Bytes) (args : List LuaValue) (lua : List (LState M)) :
    (intVerdictHook code name args lua).2 = (values (ballots code name args lua)).all passInt := by
  rw [← foldl_combineInt Int.one_ne_zero, ← verdictHook_verdict]
  rfl

theorem boolVerdictHook_verdict (name : Bytes) (args : List LuaValue) (lua : List (LState M)) :
    (boolVerdictHook code name args lua).2 =
      (values (ballots code name args lua)).all LuaValue.toboolean := by
  have hverdict := verdictHook_verdict code name args combineBool true lua
  rwa [foldl_combineBool, Bool.true_and] at hverdict

end LuaTT.Dispatch
