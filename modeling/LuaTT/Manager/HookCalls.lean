import LuaTT.Lua.CallLog
import LuaTT.Manager.DispatchVerdict

/-! Which functions a dispatch calls. The dispatchers go through the states one after the other, so the
calls of a dispatch are those into its first state, then those into its second, and so on. -/
namespace LuaTT.Dispatch
open Lua LState Voting
set_option autoImplicit false

variable {M : Type} (code : Code M)

/-- What `Report_Errors` calls for an error. -/
def reportCalls (mem : M) (e : LuaValue) : List Called :=
  if (onError code mem).isfunction then [⟨onError code mem, [ofCString e.tostring]⟩] else []

theorem reportErrors_calls {L : LState (M × List Called)} {s : List LuaValue} {e : LuaValue}
    (h : L.stack = s ++ [e]) :
    (reportErrors code.logged L luaErrrun).1.calls = L.calls ++ reportCalls code L.mem.1 e := by
  have hpop : (L.pop 1).stack = s := pop_one_stack L h
  have hglobal : code.logged.getglobal (L.pop 1).mem (bytes "OnError") = onError code L.mem.1 := rfl
  have htop : L.top = e := top_of_stack_append h
  unfold reportErrors reportCalls
  rw [if_pos (by decide)]
  simp only [getglobal_top, hglobal, htop]
  by_cases hf : (onError code L.mem.1).isfunction
  · simp only [hf, if_true]
    generalize hK : ({ L.pop 1 with errors := e.tostring :: (L.pop 1).errors } :
      LState (M × List Called)).getglobal code.logged (bytes "OnError") = K
    have hstack : (K.push (ofCString e.tostring)).stack =
        s ++ [onError code L.mem.1] ++ [ofCString e.tostring] := by
      rw [← hK, push_stack, getglobal_stack, hpop]
      rfl
    have hcalls := pcall_calls code _ (some 0) hstack
    have hbefore : (K.push (ofCString e.tostring)).calls = L.calls := by
      rw [← hK]
      rfl
    rw [List.length_singleton, hbefore] at hcalls
    split_ifs
    · rw [pop_calls]
      exact hcalls
    · exact hcalls
  · simp only [if_neg hf, getglobal_calls, List.append_nil]
    rfl

/-- A call, and the report of its error. -/
def calling (mem : M) (f : LuaValue) (args : List LuaValue) : List Called :=
  ⟨f, args⟩ ::
    match code.call mem f args with
    | (_, .ok _) => []
    | (mem, .error e) => reportCalls code mem e

theorem pcall_report_calls {L : LState (M × List Called)} {s args : List LuaValue} {f : LuaValue}
    (nresults : Option ℕ) (h : L.stack = s ++ [f] ++ args) :
    (reportErrors code.logged (L.pcall code.logged args.length nresults).1
      (L.pcall code.logged args.length nresults).2).1.calls = L.calls ++ calling code L.mem.1 f args := by
  have hcall := pcall_eq code.logged L nresults h
  unfold calling
  cases ho : code.call L.mem.1 f args with
  | mk mem r =>
    have hlog : code.logged.call L.mem f args = ((mem, L.mem.2 ++ [⟨f, args⟩]), r) := by
      change (((code.call L.mem.1 f args).1, _), (code.call L.mem.1 f args).2) = _
      rw [ho]
    rw [hlog] at hcall
    rw [hcall]
    cases r with
    | ok vs => rfl
    | error e =>
      refine (reportErrors_calls code (s := s) (e := e) rfl).trans ?_
      exact List.append_assoc _ _ _

section Hook
variable (name : Bytes) (args : List LuaValue)

/-- What is called in a state where the hook is looked up. -/
def hookCalls (L : LState M) : List Called :=
  if Defines code name L then calling code L.mem (code.getglobal L.mem name) args else []

theorem hookCalls_eq_nil {L : LState M} : hookCalls code name args L = [] ↔ ¬ Defines code name L := by
  unfold hookCalls
  split_ifs with hd <;> simp [hd, calling]

/-- A hook that returns is the only call. -/
theorem hookCalls_of_ok {L : LState M} {mem : M} {vs : List LuaValue} (hd : Defines code name L)
    (ho : outcome code name args L = (mem, .ok vs)) :
    hookCalls code name args L = [⟨code.getglobal L.mem name, args⟩] := by
  have hcall : code.call L.mem (code.getglobal L.mem name) args = (mem, .ok vs) := ho
  rw [hookCalls, if_pos hd, calling, hcall]

theorem callHook_calls (nresults : Option ℕ) {L : LState (M × List Called)}
    (h : Defines code name L.erase) :
    (callHook code.logged args nresults (L.getglobal code.logged name)).calls =
      L.calls ++ hookCalls code name args L.erase := by
  have hstack : ((L.getglobal code.logged name).pushAll args).stack =
      L.stack ++ [code.getglobal L.mem.1 name] ++ args := rfl
  rw [hookCalls, if_pos h]
  exact pcall_report_calls code nresults hstack

/-! ## The dispatchers that ask for a verdict -/

theorem verdictHook_calls {β : Type} (combine : β → LuaValue → β) (ret : β)
    (lua : List (LState (M × List Called))) :
    (verdictHook code.logged name args combine ret lua).1.map calls =
      lua.map fun L => L.calls ++ hookCalls code name args L.erase := by
  induction lua generalizing ret with
  | nil => rfl
  | cons L lua ih =>
    simp only [verdictHook, getglobal_top, List.map_cons]
    by_cases hd : Defines code name L.erase
    · have hd' : Defines code.logged name L := hd
      rw [if_pos hd', List.map_cons, pop_calls, callHook_calls code name args (some 1) hd, ih]
    · have hd' : ¬ Defines code.logged name L := hd
      rw [if_neg hd', List.map_cons, ih, (hookCalls_eq_nil code name args).mpr hd, List.append_nil]
      rfl

theorem genericLoop_calls (params : GenericParamList) (n : ℕ) (ret : ℤ)
    (lua : List (LState (M × List Called))) :
    (genericLoop code.logged name params n ret lua).1.map calls =
      lua.map fun L => L.calls ++ hookCalls code name params.args L.erase := by
  induction lua generalizing ret with
  | nil => rfl
  | cons L lua ih =>
    simp only [genericLoop, getglobal_top, List.map_cons, getTotalArguments_eq]
    by_cases hd : Defines code name L.erase
    · have hd' : Defines code.logged name L := hd
      have hcalls := callHook_calls code name params.args (some n) hd
      simp only [callHook] at hcalls
      rw [if_pos hd', List.map_cons, pop_calls, hcalls, ih]
    · have hd' : ¬ Defines code.logged name L := hd
      rw [if_neg hd', List.map_cons, ih, (hookCalls_eq_nil code name params.args).mpr hd, List.append_nil]
      rfl

/-- The program does not look at the list of its calls. -/
theorem ballot_logged (L : LState (M × List Called)) :
    ballot code.logged name args L = ballot code name args L.erase := by
  have hout : outcome code.logged name args L =
      (((outcome code name args L.erase).1, L.mem.2 ++ [⟨code.getglobal L.mem.1 name, args⟩]),
        (outcome code name args L.erase).2) := rfl
  unfold ballot
  rw [hout]
  by_cases hd : Defines code name L.erase
  · rw [if_pos hd, if_pos (show Defines code.logged name L from hd)]
    cases outcome code name args L.erase with
    | mk mem r => cases r <;> rfl
  · rw [if_neg hd, if_neg (show ¬ Defines code.logged name L from hd)]

theorem ballots_logged (lua : List (LState (M × List Called))) :
    ballots code.logged name args lua = ballots code name args (lua.map erase) := by
  unfold ballots
  rw [List.filterMap_map]
  exact congrArg (lua.filterMap ·) (funext (ballot_logged code name args))

end Hook
end LuaTT.Dispatch
