import LuaTT.Manager.Unprotected

/-! When the host stays clear of plugin code and of errors that nobody catches. The conditions are on the
state whose turn it is, on the memory and the error that a hook leaves, and on the state in which the error is
reported, which handlers of the printed text may have changed. -/
namespace LuaTT.Unprotected
open Lua LState Dispatch ScriptCallbacks
open Reentrancy (Dispatcher)
set_option autoImplicit false

/-! ## Conditions -/

/-- A read leads, over fewer than 100 objects that lack the name and whose `__index` is no function, to a
table that has it or has no such metamethod. -/
def Reads (m : Memory) (o : LuaValue) (name : Bytes) : Prop :=
  ∃ t, ∃ n < maxIdxChain, m.Leads (bytes "__index") name n o t

/-- So does a write of a global, by `__newindex`. -/
def Writes (m : Memory) (name : Bytes) : Prop :=
  ∃ t, ∃ n < maxIdxChain, m.Leads (bytes "__newindex") name n (.table m.globals) t

def global (m : Memory) (name : Bytes) : LuaValue := m.getfield (.table m.globals) name

section Conditions
variable (o : Others)

/-- The state in which `OnError` is looked up for the error that is on top. -/
def heard (K : LState Memory) : LState Memory :=
  o.printed { K.pop 1 with errors := K.top.tostring :: K.errors } K.top.tostring

def reporter (K : LState Memory) : LuaValue := global (heard o K).mem (bytes "OnError")

/-- The error on top can be reported. -/
structure Reports (K : LState Memory) : Prop where
  text : isNumber K.top → K.mem.due = false
  name : Reads (heard o K).mem (.table (heard o K).mem.globals) (bytes "OnError")
  room : Fits (heard o K) 1
  argument : (reporter o K).isfunction →
    (isString (ofCString K.top.tostring) → (heard o K).mem.due = false) ∧ Fits (heard o K) 2

/-- The state after the report. -/
def reported (K : LState Memory) : LState Memory :=
  if (reporter o K).isfunction then
    { heard o K with mem := (o.onError (heard o K).mem (reporter o K) [ofCString K.top.tostring]).1 }
  else (heard o K).push (reporter o K)

/-- If `f` raises above the frame of `L`, the error can be reported. -/
def CanRaise (L : LState Memory) (f : LuaValue) (args : List LuaValue) : Prop :=
  ∀ mem e, o.hook L.mem f args = (mem, .error e) → Reports o { L with mem := mem, stack := L.stack ++ [e] }

/-- The state after the call of `f` and the report. -/
def called (L : LState Memory) (f : LuaValue) (args : List LuaValue) (nresults : Option ℕ) : LState Memory :=
  match o.hook L.mem f args with
  | (mem, .ok vs) => { L with mem := mem, stack := L.stack ++ adjustResults nresults vs }
  | (mem, .error e) => reported o { L with mem := mem, stack := L.stack ++ [e] }

/-- The name of the hook, the room for its arguments and for texts among them, its error and its result. -/
structure Asks {β : Type} (d : Dispatcher Memory β) (ret : β) (L : LState Memory) : Prop where
  name : Reads L.mem (.table L.mem.globals) d.hook
  room : Fits L 1
  missing : (global L.mem d.hook).isfunction = false → d.keeps = false → Writes L.mem d.hook
  args : (global L.mem d.hook).isfunction → d.quits = false → Fits L (1 + (d.args ret).length) ∧
    ∀ v ∈ d.args ret, isString v → L.mem.due = false
  error : (global L.mem d.hook).isfunction → d.quits = false →
    CanRaise o L (global L.mem d.hook) (d.args ret)
  text : (global L.mem d.hook).isfunction → d.quits = false → d.text →
    isNumber (called o L (global L.mem d.hook) (d.args ret) d.nresults).top →
    (called o L (global L.mem d.hook) (d.args ret) d.nresults).mem.due = false

/-- A global that is no function is written back where it was read. -/
def Keeps {β : Type} (d : Dispatcher Memory β) (L : LState Memory) : Prop :=
  (global L.mem d.hook).isfunction = false → d.keeps = false → L.mem.KeepsOnWrite L.mem.globals d.hook

/-- An object of the table has the callback. -/
def Handles (c : Callback) (uRef : ℤ) (L : LState Memory) : Prop :=
  (L.mem.refs uRef).istable ∧ (L.mem.getfield (L.mem.refs uRef) c.field).isfunction

def allocates (c : Callback) : Bool := undercounts c || c.args.any isString

/-- The frame under the slot that is called, that slot, and the arguments above it. -/
def callee (c : Callback) (table f : LuaValue) : List LuaValue × LuaValue × List LuaValue :=
  match c with
  | .soundHeard id obj creator position sound =>
    ([table, f, table], number id, [number obj, number creator, .userdata position, number sound])
  | _ => ([table], f, table :: c.args)

/-- The name of the field, the room for the arguments and for objects among them, the metatable of a
position, and the error. -/
structure Answers (c : Callback) (uRef : ℤ) (L : LState Memory) : Prop where
  table : Fits L 1
  field : (L.mem.refs uRef).istable → Reads L.mem (L.mem.refs uRef) c.field ∧ Fits L 2
  args : Handles c uRef L → Fits L (3 + (pushed c).length) ∧ (allocates c → L.mem.due = false)
  metatable : Handles c uRef L → undercounts c → Reads L.mem (.table L.mem.registry) (bytes "Vector3")
  error : Handles c uRef L →
    let call := callee c (L.mem.refs uRef) (L.mem.getfield (L.mem.refs uRef) c.field)
    CanRaise o { L with mem := memoryAt memoryCode c L.mem, stack := L.stack ++ call.1 } call.2.1 call.2.2

end Conditions

/-! ## Operations -/

/-- No operation of the trace raises or runs plugin code. -/
def Quiet (t : Traced) : Prop := ∀ x ∈ t.log, x.2.effect x.1 = .quiet

section Operations
variable {t : Traced} {L : LState Memory}

theorem getfield_quiet {o : LuaValue} {name : Bytes} :
    (Op.getfield o name).effect L = .quiet ↔ Reads L.mem o name ∧ Fits L 1 := by
  simp only [Op.effect, Reads, ← Memory.tget_eq_ends_iff]
  cases L.mem.tget o name with
  | ends t => by_cases hroom : Fits L 1 <;> simp [hroom]
  | calls f => simp
  | error => simp

theorem setglobal_quiet {name : Bytes} : (Op.setglobal name).effect L = .quiet ↔ Writes L.mem name := by
  simp only [Op.effect, Writes, ← Memory.tset_eq_ends_iff]
  cases L.mem.tset (.table L.mem.globals) name <;> simp

theorem push_quiet {b : Bool} :
    (Op.push b).effect L = .quiet ↔ (b → L.mem.due = false) ∧ Fits L 1 := by
  simp only [Op.effect]
  by_cases hroom : Fits L 1 <;> cases b <;> cases L.mem.due <;> simp [hroom]

theorem tostring_quiet {v : LuaValue} :
    (Op.tostring v).effect L = .quiet ↔ (isNumber v → L.mem.due = false) := by
  simp only [Op.effect]
  cases isNumber v <;> cases L.mem.due <;> simp

theorem quiet_start : Quiet (.start L) := fun _ hx => absurd hx List.not_mem_nil

theorem quiet_snoc {K : LState Memory} {op : Op} {log : List (LState Memory × Op)} :
    Quiet ⟨K, log ++ [(L, op)]⟩ ↔ (∀ x ∈ log, x.2.effect x.1 = .quiet) ∧ op.effect L = .quiet := by
  simp only [Quiet, List.forall_mem_append, List.forall_mem_singleton]

theorem quiet_map {f : LState Memory → LState Memory} : Quiet (t.map f) ↔ Quiet t := Iff.rfl

theorem quiet_push {v : LuaValue} :
    Quiet (t.push v) ↔ Quiet t ∧ (isString v → t.state.mem.due = false) ∧ Fits t.state 1 :=
  quiet_snoc.trans (and_congr_right' push_quiet)

theorem quiet_copy {v : LuaValue} : Quiet (t.copy v) ↔ Quiet t ∧ Fits t.state 1 := by
  refine quiet_snoc.trans (and_congr_right' (push_quiet.trans ?_))
  simp

theorem quiet_boxpointer {ref : ℕ} :
    Quiet (t.boxpointer ref) ↔ Quiet t ∧ t.state.mem.due = false ∧ Fits t.state 1 := by
  refine quiet_snoc.trans (and_congr_right' (push_quiet.trans ?_))
  simp

theorem quiet_getfield {o : LuaValue} {name : Bytes} :
    Quiet (t.getfield o name) ↔ Quiet t ∧ Reads t.state.mem o name ∧ Fits t.state 1 :=
  quiet_snoc.trans (and_congr_right' getfield_quiet)

theorem quiet_setglobal {name : Bytes} : Quiet (t.setglobal name) ↔ Quiet t ∧ Writes t.state.mem name :=
  quiet_snoc.trans (and_congr_right' setglobal_quiet)

theorem quiet_tostring : Quiet t.tostring ↔ Quiet t ∧ (isNumber t.state.top → t.state.mem.due = false) :=
  quiet_snoc.trans (and_congr_right' tostring_quiet)

/-- After a slot there is room for the rest. -/
theorem fits_push_iff {v : LuaValue} {n : ℕ} : Fits (L.push v) n ↔ Fits L (1 + n) := by
  simp only [Fits, LState.push, List.length_append, List.length_singleton]
  omega

theorem fits_args {v : LuaValue} {vs : List LuaValue} :
    Fits L 1 ∧ (vs ≠ [] → Fits (L.push v) vs.length) ↔ Fits L 1 ∧ Fits L (1 + vs.length) := by
  rw [fits_push_iff]
  cases vs with
  | nil => simp
  | cons v' vs => simp

theorem quiet_pushAll {vs : List LuaValue} : Quiet (t.pushAll vs) ↔
    Quiet t ∧ (vs ≠ [] → Fits t.state vs.length) ∧ ∀ v ∈ vs, isString v → t.state.mem.due = false := by
  induction vs generalizing t with
  | nil => simp [Traced.pushAll]
  | cons v vs ih =>
    have hstep : t.pushAll (v :: vs) = (t.push v).pushAll vs := rfl
    have hroom : Fits t.state 1 ∧ (vs ≠ [] → Fits (t.push v).state vs.length) ↔
        Fits t.state (v :: vs).length := by
      rw [Traced.push, fits_push_iff, List.length_cons, Nat.add_comm]
      constructor
      · rintro ⟨hone, hrest⟩
        cases vs with
        | nil => exact hone
        | cons v' vs => exact hrest (List.cons_ne_nil _ _)
      · exact fun h => ⟨h.mono (by omega), fun _ => h⟩
    rw [hstep, ih, quiet_push, List.forall_mem_cons, ← hroom]
    have hmem : (t.push v).state.mem = t.state.mem := rfl
    rw [hmem]
    simp only [ne_eq, List.cons_ne_nil, not_false_eq_true, forall_true_left]
    tauto

end Operations

/-! ## Calls -/

section Calls
variable {o : Others} {t : Traced}

theorem pop_one (K : LState Memory) (s : List LuaValue) (v : LuaValue) :
    ({ K with stack := s ++ [v] } : LState Memory).pop 1 = { K with stack := s } :=
  congrArg (fun stack => (⟨K.mem, K.below, stack, K.errors⟩ : LState Memory)) (pop_one_stack _ rfl)

theorem pcall_traced_eq (call : Memory → LuaValue → List LuaValue → Memory × Except LuaValue (List LuaValue))
    {s args : List LuaValue} {f : LuaValue} (nresults : Option ℕ) (h : t.state.stack = s ++ [f] ++ args) :
    t.pcall call args.length nresults =
      match call t.state.mem f args with
      | (mem, .ok vs) => (⟨{ t.state with mem := mem, stack := s ++ adjustResults nresults vs }, t.log⟩, 0)
      | (mem, .error e) => (⟨{ t.state with mem := mem, stack := s ++ [e] }, t.log⟩, luaErrrun) := by
  unfold Traced.pcall
  rw [pcall_eq (plugin call) t.state nresults h]
  cases hr : call t.state.mem f args with
  | mk mem r =>
    have hr' : (plugin call).call t.state.mem f args = (mem, r) := hr
    rw [hr']
    cases r <;> rfl

/-- The trace when `OnError` has been looked up. -/
def looking (o : Others) (t : Traced) : Traced :=
  (t.tostring.map fun _ => heard o t.state).getglobal (bytes "OnError")

theorem looking_state (t : Traced) : (looking o t).state = (heard o t.state).push (reporter o t.state) := rfl

theorem reportErrors_eq (t : Traced) : t.reportErrors o luaErrrun =
    ⟨reported o t.state, if (reporter o t.state).isfunction then
      ((looking o t).push (ofCString t.state.top.tostring)).log else (looking o t).log⟩ := by
  let u := (looking o t).push (ofCString t.state.top.tostring)
  have hreport : t.reportErrors o luaErrrun =
      if (looking o t).state.top.isfunction then
        if (u.pcall o.onError 1 (some 0)).2 ≠ 0 then (u.pcall o.onError 1 (some 0)).1.map fun L => L.pop 1
        else (u.pcall o.onError 1 (some 0)).1
      else looking o t := rfl
  rw [hreport, looking_state, top_push, reported]
  by_cases hf : (reporter o t.state).isfunction
  · rw [if_pos hf, if_pos hf, if_pos hf]
    have hstack : u.state.stack =
        (heard o t.state).stack ++ [reporter o t.state] ++ [ofCString t.state.top.tostring] := rfl
    have hcall := pcall_traced_eq o.onError (some 0) hstack
    have hmem : u.state.mem = (heard o t.state).mem := rfl
    rw [List.length_singleton, hmem] at hcall
    rw [hcall]
    cases o.onError (heard o t.state).mem (reporter o t.state) [ofCString t.state.top.tostring] with
    | mk mem r =>
      cases r with
      | ok vs =>
        simp only [adjustResults, List.take_zero, List.append_nil]
        rfl
      | error e =>
        have hpop := pop_one { u.state with mem := mem } (heard o t.state).stack e
        exact congrArg (fun K => (⟨K, u.log⟩ : Traced)) hpop
  · rw [if_neg hf, if_neg hf, if_neg hf]
    rfl

theorem quiet_looking : Quiet (looking o t) ↔ (Quiet t ∧ (isNumber t.state.top → t.state.mem.due = false)) ∧
    Reads (heard o t.state).mem (.table (heard o t.state).mem.globals) (bytes "OnError") ∧
      Fits (heard o t.state) 1 := by
  refine quiet_getfield.trans (and_congr_left' ?_)
  exact quiet_map.trans quiet_tostring

theorem quiet_reportErrors : Quiet (t.reportErrors o luaErrrun) ↔ Quiet t ∧ Reports o t.state := by
  have hlog : Quiet (t.reportErrors o luaErrrun) ↔
      if (reporter o t.state).isfunction then Quiet ((looking o t).push (ofCString t.state.top.tostring))
      else Quiet (looking o t) := by
    rw [reportErrors_eq]
    split_ifs <;> exact Iff.rfl
  have hmem : (looking o t).state.mem = (heard o t.state).mem := rfl
  rw [hlog]
  by_cases hf : (reporter o t.state).isfunction
  · rw [if_pos hf, quiet_push, quiet_looking, hmem, looking_state, fits_push_iff]
    constructor
    · rintro ⟨⟨⟨hq, htext⟩, hname, hroom⟩, harg⟩
      exact ⟨hq, htext, hname, hroom, fun _ => harg⟩
    · rintro ⟨hq, h⟩
      exact ⟨⟨⟨hq, h.text⟩, h.name, h.room⟩, h.argument hf⟩
  · rw [if_neg hf, quiet_looking]
    constructor
    · rintro ⟨⟨hq, htext⟩, hname, hroom⟩
      exact ⟨hq, htext, hname, hroom, fun h => absurd h hf⟩
    · rintro ⟨hq, h⟩
      exact ⟨⟨hq, h.text⟩, h.name, h.room⟩

section Hook
variable {L : LState Memory} {f : LuaValue} {args : List LuaValue}

/-- The frame of `L` with a function and its arguments on it. -/
def above (L : LState Memory) (f : LuaValue) (args : List LuaValue) : LState Memory :=
  { L with stack := L.stack ++ [f] ++ args }

theorem callHook_state (nresults : Option ℕ) (ht : t.state = above L f args) :
    (t.callHook o args.length nresults).state = called o L f args nresults := by
  have hstack : t.state.stack = L.stack ++ [f] ++ args := by rw [ht, above]
  have hmem : t.state.mem = L.mem := by rw [ht, above]
  unfold Traced.callHook called
  rw [pcall_traced_eq o.hook nresults hstack, hmem]
  cases o.hook L.mem f args with
  | mk mem r =>
    cases r with
    | ok vs => rw [ht]; rfl
    | error e =>
      dsimp only
      rw [reportErrors_eq, ht]
      rfl

theorem quiet_callHook (nresults : Option ℕ) (ht : t.state = above L f args) :
    Quiet (t.callHook o args.length nresults) ↔ Quiet t ∧ CanRaise o L f args := by
  have hstack : t.state.stack = L.stack ++ [f] ++ args := by rw [ht, above]
  have hmem : t.state.mem = L.mem := by rw [ht, above]
  unfold Traced.callHook CanRaise
  rw [pcall_traced_eq o.hook nresults hstack, hmem]
  cases hr : o.hook L.mem f args with
  | mk mem r =>
    cases r with
    | ok vs => exact (and_iff_left nofun).symm
    | error e =>
      dsimp only
      rw [quiet_reportErrors, ht]
      refine and_congr_right' ⟨?_, fun h => h mem e rfl⟩
      rintro h _ _ he
      cases he
      exact h

end Hook

/-! ## Dispatchers -/

section Dispatch
variable {β : Type} (d : Dispatcher Memory β) (ret : β) (L : LState Memory)

theorem quiet_lookup : Quiet ((Traced.start L).getglobal d.hook) ↔
    Reads L.mem (.table L.mem.globals) d.hook ∧ Fits L 1 :=
  quiet_getfield.trans (and_iff_right quiet_start)

theorem asked_missing (hf : (global L.mem d.hook).isfunction = false) : asked o d ret L =
    if d.keeps then (Traced.start L).getglobal d.hook
    else ((Traced.start L).getglobal d.hook).setglobal d.hook := by
  have htop : ((Traced.start L).getglobal d.hook).state.top = global L.mem d.hook := top_push _ _
  unfold asked
  simp only [htop, hf, Bool.false_eq_true, if_false]

theorem asked_called (hf : (global L.mem d.hook).isfunction = true) (hq : d.quits = false) :
    ∃ u : Traced, u.state = called o L (global L.mem d.hook) (d.args ret) d.nresults ∧
      (Quiet u ↔ (Reads L.mem (.table L.mem.globals) d.hook ∧ Fits L 1) ∧
        (Fits L (1 + (d.args ret).length) ∧ ∀ v ∈ d.args ret, isString v → L.mem.due = false) ∧
        CanRaise o L (global L.mem d.hook) (d.args ret)) ∧
      (Quiet (asked o d ret L) ↔ Quiet (if d.text then u.tostring else u)) := by
  let t := ((Traced.start L).getglobal d.hook).pushAll (d.args ret)
  have ht : t.state = above L (global L.mem d.hook) (d.args ret) := pushAll_state _ _
  refine ⟨t.callHook o (d.args ret).length d.nresults, callHook_state _ ht, ?_, ?_⟩
  · have hpush : ((Traced.start L).getglobal d.hook).state = L.push (global L.mem d.hook) := rfl
    have hargs : Quiet t ↔ _ := quiet_pushAll
    have hmem : (L.push (global L.mem d.hook)).mem = L.mem := rfl
    have hroom : Fits L 1 ∧ (d.args ret ≠ [] → _) ↔ _ := fits_args (v := global L.mem d.hook)
    rw [quiet_callHook _ ht, hargs, quiet_lookup, hpush, hmem]
    tauto
  · have htop : ((Traced.start L).getglobal d.hook).state.top = global L.mem d.hook := top_push _ _
    unfold asked
    simp only [htop, hf, hq, if_true, Bool.false_eq_true, if_false]
    split_ifs <;> exact Iff.rfl

variable {d ret L}

theorem asks_missing (hf : (global L.mem d.hook).isfunction = false) : Asks o d ret L ↔
    (Reads L.mem (.table L.mem.globals) d.hook ∧ Fits L 1) ∧ (d.keeps = false → Writes L.mem d.hook) := by
  constructor
  · intro h
    exact ⟨⟨h.name, h.room⟩, h.missing hf⟩
  · rintro ⟨⟨hname, hroom⟩, hwrite⟩
    exact ⟨hname, hroom, fun _ => hwrite, by simp [hf], by simp [hf], by simp [hf]⟩

theorem asks_quits (hf : (global L.mem d.hook).isfunction = true) (hq : d.quits = true) : Asks o d ret L ↔
    Reads L.mem (.table L.mem.globals) d.hook ∧ Fits L 1 := by
  constructor
  · intro h
    exact ⟨h.name, h.room⟩
  · rintro ⟨hname, hroom⟩
    exact ⟨hname, hroom, by simp [hf], by simp [hq], by simp [hq], by simp [hq]⟩

theorem asks_called (hf : (global L.mem d.hook).isfunction = true) (hq : d.quits = false) : Asks o d ret L ↔
    ((Reads L.mem (.table L.mem.globals) d.hook ∧ Fits L 1) ∧
      (Fits L (1 + (d.args ret).length) ∧ ∀ v ∈ d.args ret, isString v → L.mem.due = false) ∧
      CanRaise o L (global L.mem d.hook) (d.args ret)) ∧
      (d.text → isNumber (called o L (global L.mem d.hook) (d.args ret) d.nresults).top →
        (called o L (global L.mem d.hook) (d.args ret) d.nresults).mem.due = false) := by
  constructor
  · intro h
    exact ⟨⟨⟨h.name, h.room⟩, h.args hf hq, h.error hf hq⟩, h.text hf hq⟩
  · rintro ⟨⟨⟨hname, hroom⟩, hargs, herror⟩, htext⟩
    exact ⟨hname, hroom, by simp [hf], fun _ _ => hargs, fun _ _ => herror, fun _ _ => htext⟩

theorem quiet_asked : Quiet (asked o d ret L) ↔ Asks o d ret L := by
  cases hf : (global L.mem d.hook).isfunction with
  | false =>
    rw [asks_missing hf, asked_missing d ret L hf]
    cases hk : d.keeps with
    | false =>
      simp only [Bool.false_eq_true, if_false, forall_true_left]
      exact quiet_setglobal.trans (and_congr_left' (quiet_lookup d L))
    | true =>
      simp only [if_true, Bool.true_eq_false, false_imp_iff, and_true]
      exact quiet_lookup d L
  | true =>
    cases hq : d.quits with
    | false =>
      obtain ⟨u, hstate, hu, hasked⟩ := asked_called (o := o) d ret L hf hq
      rw [asks_called hf hq, hasked, ← hu, ← hstate]
      cases d.text with
      | false => simp
      | true =>
        simp only [if_true, forall_true_left]
        exact quiet_tostring
    | true =>
      have htop : ((Traced.start L).getglobal d.hook).state.top = global L.mem d.hook := top_push _ _
      have hasked : asked o d ret L = (Traced.start L).getglobal d.hook := by
        unfold asked
        simp only [htop, hf, hq, if_true]
      rw [asks_quits hf hq, hasked]
      exact quiet_lookup d L

/-- A hook that is not there is written back as it was read. -/
theorem missing_mem : (((Traced.start L).getglobal d.hook).setglobal d.hook).state.mem =
    L.mem.setfield (.table L.mem.globals) d.hook (global L.mem d.hook) := by
  have htop : ((Traced.start L).getglobal d.hook).state.top = global L.mem d.hook := top_push _ _
  simp only [Traced.setglobal, LState.setglobal, htop]
  rfl

theorem unchanged_iff_keeps (h : Asks o d ret L) : ((global L.mem d.hook).isfunction = false →
    (asked o d ret L).state.mem.get L.mem.globals = L.mem.get L.mem.globals) ↔ Keeps d L := by
  refine forall_congr' fun hf => ?_
  rw [asked_missing d ret L hf]
  cases hk : d.keeps with
  | true => exact iff_of_true rfl nofun
  | false =>
    obtain ⟨t, hwrite⟩ := h.missing hf hk
    rw [if_neg nofun, missing_mem, global, Memory.setfield_getfield_iff (Memory.tset_eq_ends_iff.mpr hwrite)]
    exact ⟨fun hkeeps _ => hkeeps, fun hkeeps => hkeeps rfl⟩

end Dispatch

/-! ## Callbacks -/

section Callbacks
variable {L : LState Memory} {table f : LuaValue}

/-- The frame with a table and the function in it. -/
def onTable (L : LState Memory) (table f : LuaValue) : LState Memory :=
  { L with stack := L.stack ++ [table, f] }

theorem fromTop_onTable : (onTable L table f).fromTop 2 = table := by
  rw [LState.fromTop, onTable]
  exact congrArg (Option.getD · .nil) (index2adr_below_top L.stack table f)

theorem fits_of_length {K K' : LState Memory} {k n : ℕ} (hbase : K'.mem.base = K.mem.base)
    (hlen : K'.stack.length = K.stack.length + k) : Fits K' n ↔ Fits K (k + n) := by
  rw [Fits, Fits, hbase, hlen, ← Nat.add_assoc, ← Nat.add_assoc]

theorem any_isString {args : List LuaValue} {m : Memory} :
    (∀ v ∈ args, isString v → m.due = false) ↔ (args.any isString → m.due = false) := by
  simp only [List.any_eq_true, forall_exists_index, and_imp]

/-- The arguments of a callback that passes all of them. -/
theorem quiet_args {args : List LuaValue} (ht : t.state = onTable L table f) :
    Quiet ((t.copy table).pushAll args) ↔
      Quiet t ∧ Fits L (3 + args.length) ∧ (args.any isString → L.mem.due = false) := by
  have hcopy : (t.copy table).state = t.state.push table := rfl
  have hmem : (t.copy table).state.mem = L.mem := by rw [hcopy, ht]; rfl
  have hfits : ∀ n, Fits t.state n ↔ Fits L (2 + n) := fun n => by
    rw [ht]
    exact fits_of_length rfl (List.length_append)
  have hroom : Fits t.state 1 ∧ (args ≠ [] → Fits (t.copy table).state args.length) ↔
      Fits L (3 + args.length) := by
    rw [hcopy, fits_args, hfits, hfits, ← Nat.add_assoc]
    exact ⟨fun h => h.2, fun h => ⟨h.mono (by omega), h⟩⟩
  rw [quiet_pushAll, quiet_copy, hmem, any_isString, ← hroom]
  tauto

section Position
variable (id obj creator : ℤ) (position : ℕ)

/-- The arguments of `Sound_Heard` under its last one. -/
def upTo (table : LuaValue) (t : Traced) : Traced :=
  ((t.copy table).pushAll [number id, number obj, number creator]).boxpointer position

theorem upTo_state (ht : t.state = onTable L table f) : (upTo id obj creator position table t).state =
    { L with stack := L.stack ++ [table, f, table, number id, number obj, number creator] ++
      [.userdata position] } := by
  have hstate : (upTo id obj creator position table t).state =
      ((t.state.push table).pushAll [number id, number obj, number creator]).push (.userdata position) :=
    congrArg (fun K => LState.push K (.userdata position)) (pushAll_state _ _)
  rw [hstate, ht]
  simp [onTable, LState.push, LState.pushAll]

theorem quiet_upTo (ht : t.state = onTable L table f) : Quiet (upTo id obj creator position table t) ↔
    Quiet t ∧ Fits L 7 ∧ L.mem.due = false := by
  have hstate : ((t.copy table).pushAll [number id, number obj, number creator]).state =
      (t.state.push table).pushAll [number id, number obj, number creator] := pushAll_state _ _
  have hfits : Fits ((t.state.push table).pushAll [number id, number obj, number creator]) 1 ↔ Fits L 7 := by
    rw [ht]
    exact fits_of_length rfl (by simp [onTable, LState.push, LState.pushAll])
  have hmem : ((t.state.push table).pushAll [number id, number obj, number creator]).mem = L.mem := by
    rw [ht]
    rfl
  rw [upTo, quiet_boxpointer, quiet_args ht, hstate, hfits, hmem]
  constructor
  · rintro ⟨⟨hq, _⟩, hdue, hroom⟩
    exact ⟨hq, hroom, hdue⟩
  · rintro ⟨hq, hroom, hdue⟩
    exact ⟨⟨hq, hroom.mono (by simp), fun _ => hdue⟩, hdue, hroom⟩

/-- With the metatable of the position. -/
def marked (table : LuaValue) (t : Traced) : Traced :=
  ((upTo id obj creator position table t).getfield
    (.table (upTo id obj creator position table t).state.mem.registry) (bytes "Vector3")).map
    (setmetatable memoryCode)

theorem marked_state (sound : ℤ) (ht : t.state = onTable L table f) :
    (marked id obj creator position table t).state = { L with
      mem := memoryAt memoryCode (.soundHeard id obj creator position sound) L.mem
      stack := L.stack ++ [table, f, table, number id, number obj, number creator] ++
        [.userdata position] } := by
  let K : LState Memory :=
    { L with stack := L.stack ++ [table, f, table, number id, number obj, number creator] }
  have hset := setmetatable_push memoryCode K (.userdata position)
    (L.mem.getfield (.table L.mem.registry) (bytes "Vector3"))
  simp only [marked, Traced.map, Traced.getfield, upTo_state id obj creator position ht]
  exact hset

theorem quiet_marked (ht : t.state = onTable L table f) : Quiet (marked id obj creator position table t) ↔
    (Quiet t ∧ L.mem.due = false) ∧ Reads L.mem (.table L.mem.registry) (bytes "Vector3") ∧ Fits L 8 := by
  have hfits : Fits { L with stack := L.stack ++ [table, f, table, number id, number obj, number creator] ++
      [.userdata position] } 1 ↔ Fits L 8 := fits_of_length rfl (by simp)
  rw [marked, quiet_map, quiet_getfield, quiet_upTo id obj creator position ht,
    upTo_state id obj creator position ht, hfits]
  constructor
  · rintro ⟨⟨hq, _, hdue⟩, hname, hroom⟩
    exact ⟨⟨hq, hdue⟩, hname, hroom⟩
  · rintro ⟨⟨hq, hdue⟩, hname, hroom⟩
    exact ⟨⟨hq, hroom.mono (by omega), hdue⟩, hname, hroom⟩

theorem pushArgs_soundHeard (sound : ℤ) (htop : t.state.fromTop 2 = table) :
    pushArgs (.soundHeard id obj creator position sound) t =
      (marked id obj creator position table t).push (number sound) := by
  rw [← htop]
  rfl

end Position

theorem pushArgs_state_eq (c : Callback) (ht : t.state = onTable L table f) : (pushArgs c t).state =
    above { L with
      mem := memoryAt memoryCode c L.mem
      stack := L.stack ++ (callee c table f).1 } (callee c table f).2.1 (callee c table f).2.2 := by
  have htop : t.state.fromTop 2 = table := by rw [ht, fromTop_onTable]
  cases c with
  | soundHeard id obj creator position sound =>
    rw [pushArgs_soundHeard id obj creator position sound htop, Traced.push,
      marked_state id obj creator position sound ht]
    simp [above, callee, LState.push]
  | _ =>
    have hstate : ∀ args, ((t.copy table).pushAll args).state = (t.state.push table).pushAll args :=
      fun args => pushAll_state args _
    simp only [pushArgs, htop, hstate]
    simp [ht, onTable, above, callee, memoryAt, LState.push, LState.pushAll]

theorem quiet_pushArgs (c : Callback) (ht : t.state = onTable L table f) : Quiet (pushArgs c t) ↔
    Quiet t ∧ (Fits L (3 + (pushed c).length) ∧ (allocates c → L.mem.due = false)) ∧
      (undercounts c → Reads L.mem (.table L.mem.registry) (bytes "Vector3")) := by
  have htop : t.state.fromTop 2 = table := by rw [ht, fromTop_onTable]
  cases c with
  | soundHeard id obj creator position sound =>
    have hfits : Fits (marked id obj creator position table t).state 1 ↔ Fits L 8 := by
      rw [marked_state id obj creator position sound ht]
      exact fits_of_length rfl (by simp)
    rw [pushArgs_soundHeard id obj creator position sound htop, quiet_push, hfits,
      quiet_marked id obj creator position ht]
    constructor
    · rintro ⟨⟨⟨hq, hdue⟩, hname, hroom⟩, _⟩
      exact ⟨hq, ⟨hroom, fun _ => hdue⟩, fun _ => hname⟩
    · rintro ⟨hq, ⟨hroom, hdue⟩, hname⟩
      exact ⟨⟨⟨hq, hdue rfl⟩, hname rfl, hroom⟩, nofun, hroom⟩
  | _ =>
    simp only [pushArgs, htop, undercounts, Bool.false_eq_true, false_imp_iff, and_true]
    exact quiet_args ht

variable {c : Callback} {uRef : ℤ}

theorem answers_untabled (ht : (L.mem.refs uRef).istable = false) : Answers o c uRef L ↔ Fits L 1 := by
  have hno : ¬ Handles c uRef L := fun h => Bool.false_ne_true (ht.symm.trans h.1)
  exact ⟨fun h => h.table, fun h => ⟨h, by simp [ht], fun h => absurd h hno, fun h => absurd h hno,
    fun h => absurd h hno⟩⟩

theorem answers_unhandled (ht : (L.mem.refs uRef).istable = true)
    (hf : (L.mem.getfield (L.mem.refs uRef) c.field).isfunction = false) :
    Answers o c uRef L ↔ Reads L.mem (L.mem.refs uRef) c.field ∧ Fits L 2 := by
  have hno : ¬ Handles c uRef L := fun h => Bool.false_ne_true (hf.symm.trans h.2)
  exact ⟨fun h => h.field ht, fun h => ⟨h.2.mono (by omega), fun _ => h, fun h => absurd h hno,
    fun h => absurd h hno, fun h => absurd h hno⟩⟩

theorem answers_handled (h : Handles c uRef L) : Answers o c uRef L ↔
    (((Reads L.mem (L.mem.refs uRef) c.field ∧ Fits L 2) ∧
      (Fits L (3 + (pushed c).length) ∧ (allocates c → L.mem.due = false)) ∧
      (undercounts c → Reads L.mem (.table L.mem.registry) (bytes "Vector3"))) ∧
      CanRaise o { L with
        mem := memoryAt memoryCode c L.mem
        stack := L.stack ++ (callee c (L.mem.refs uRef) (L.mem.getfield (L.mem.refs uRef) c.field)).1 }
        (callee c (L.mem.refs uRef) (L.mem.getfield (L.mem.refs uRef) c.field)).2.1
        (callee c (L.mem.refs uRef) (L.mem.getfield (L.mem.refs uRef) c.field)).2.2) := by
  constructor
  · intro ha
    exact ⟨⟨ha.field h.1, ha.args h, ha.metatable h⟩, ha.error h⟩
  · rintro ⟨⟨hfield, hargs, hmeta⟩, herror⟩
    exact ⟨hfield.2.mono (by omega), fun _ => hfield, fun _ => hargs, fun _ => hmeta, fun _ => herror⟩

theorem nargs_eq (c : Callback) (table f : LuaValue) :
    Reentrancy.nargs c = (callee c table f).2.2.length := by
  cases c <;> rfl

theorem quiet_calledBack : Quiet (calledBack o c uRef L) ↔ (c.skipped = false → Answers o c uRef L) := by
  unfold calledBack
  cases hs : c.skipped with
  | true => exact iff_of_true quiet_start nofun
  | false =>
    let t := (Traced.start L).copy (L.mem.refs uRef)
    have htop : t.state.top = L.mem.refs uRef := top_push _ _
    have hq : Quiet t ↔ Fits L 1 := quiet_copy.trans (and_iff_right quiet_start)
    simp only [Bool.false_eq_true, if_false, forall_true_left]
    change Quiet (if t.state.top.istable then _ else t) ↔ _
    rw [htop]
    cases ht : (L.mem.refs uRef).istable with
    | false =>
      rw [if_neg nofun, answers_untabled ht]
      exact hq
    | true =>
      rw [if_pos rfl, quiet_map]
      let u := t.getfield (L.mem.refs uRef) c.field
      let f := L.mem.getfield (L.mem.refs uRef) c.field
      have hu : u.state = onTable L (L.mem.refs uRef) f := by
        simp [u, t, f, onTable, Traced.getfield, Traced.copy, Traced.start, LState.push]
      have hqu : Quiet u ↔ Reads L.mem (L.mem.refs uRef) c.field ∧ Fits L 2 := by
        have hfits : Fits t.state 1 ↔ Fits L 2 := fits_push_iff
        have hmem : t.state.mem = L.mem := rfl
        rw [quiet_getfield, hq, hmem, hfits]
        exact ⟨fun h => h.2, fun h => ⟨h.2.mono (by omega), h⟩⟩
      have hutop : u.state.top = f := top_push _ _
      change Quiet (if u.state.top.isfunction then _ else u) ↔ _
      rw [hutop]
      cases hf : f.isfunction with
      | false =>
        rw [if_neg nofun, answers_unhandled ht hf]
        exact hqu
      | true =>
        rw [if_pos rfl, answers_handled ⟨ht, hf⟩, nargs_eq c (L.mem.refs uRef) f, ← hqu]
        have hstate := pushArgs_state_eq c hu
        exact (quiet_callHook _ hstate).trans (and_congr_left' (quiet_pushArgs c hu))

end Callbacks
end Calls

/-! ## The contract -/

section Contract
variable (o : Others)

/-- No operation outside of `lua_pcall` raises or runs plugin code, and the globals of a state that does not
define the hook stay as they are. -/
structure Contract {β : Type} (d : Dispatcher Memory β) (ret : β) (L : LState Memory) : Prop where
  quiet : Quiet (asked o d ret L)
  unchanged : (global L.mem d.hook).isfunction = false →
    (asked o d ret L).state.mem.get L.mem.globals = L.mem.get L.mem.globals

/-- **No error without a handler.** Whatever runs meanwhile, a dispatcher and a callback meet the contract
exactly under the conditions on the state whose turn it is, on what the hook makes of it, and on the state in
which its error is reported. -/
theorem unprotected_quiet :
    (∀ {β : Type} (d : Dispatcher Memory β) (ret : β) (L : LState Memory),
      Contract o d ret L ↔ Asks o d ret L ∧ Keeps d L) ∧
      ∀ (c : Callback) (uRef : ℤ) (L : LState Memory),
        Quiet (calledBack o c uRef L) ↔ (c.skipped = false → Answers o c uRef L) := by
  refine ⟨fun {β} d ret L => ?_, fun c uRef L => quiet_calledBack⟩
  constructor
  · intro h
    have hasks := quiet_asked.mp h.quiet
    exact ⟨hasks, (unchanged_iff_keeps hasks).mp h.unchanged⟩
  · rintro ⟨hasks, hkeeps⟩
    exact ⟨quiet_asked.mpr hasks, (unchanged_iff_keeps hasks).mpr hkeeps⟩

end Contract

/-! ## Globals with a metatable -/

/-- Every function raises, and a text on the console changes nothing; neither matters in what follows. -/
def anyOthers : Others where
  hook m _ _ := (m, .error .nil)
  printed L _ := L
  onError m _ _ := (m, .error .nil)

/-- The globals are the table 0 with the metatable 1, whose `__index` is given. -/
def indexedMemory (index : LuaValue) : Memory where
  get t k := if t = 1 ∧ k = bytes "__index" then index
    else if t = 2 ∧ k = bytes "OnThink" then .boolean true else .nil
  metatable o := if o = .table 0 then some 1 else none
  globals := 0
  registry := 3
  refs _ := .nil
  due := false
  base := 1

def indexedState (index : LuaValue) : LState Memory := ⟨indexedMemory index, .nil, [], []⟩

/-- `OnThink`. -/
def thinking : Dispatcher Memory Unit := Reentrancy.notify Memory Event.think.hook Event.think.args

theorem tick_runs_plugin : ∃ x ∈ (asked anyOthers thinking () (indexedState (.function 0))).log,
    x.2.effect x.1 = .runsPlugin := by
  have hcalls : (indexedMemory (.function 0)).tget (.table 0) (bytes "OnThink") = .calls (.function 0) := by
    decide
  refine ⟨(indexedState (.function 0), .getfield (.table 0) (bytes "OnThink")), ?_, ?_⟩
  · rw [asked_missing thinking () _ (by decide)]
    exact List.mem_cons_self
  · simp only [Op.effect, indexedState, hcalls]

/-- The first read of a tick calls an `__index` function; and a default out of an `__index` table is copied
into the globals. -/
theorem unprotected_not_quiet :
    (¬ ∀ L, Contract anyOthers thinking () L) ∧
      (indexedMemory (.table 2)).get 0 (bytes "OnThink") = .nil ∧
        (asked anyOthers thinking () (indexedState (.table 2))).state.mem.get 0 (bytes "OnThink") =
          .boolean true := by
  refine ⟨fun h => ?_, by decide, by decide⟩
  obtain ⟨x, hx, hruns⟩ := tick_runs_plugin
  have hquiet := (h _).quiet x hx
  rw [hruns] at hquiet
  cases hquiet

end LuaTT.Unprotected
