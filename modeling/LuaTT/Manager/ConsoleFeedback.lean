import LuaTT.Library.Transition
import LuaTT.Manager.HookOutcome

/-! The error report of a console-output handler is console output itself. `Console_Output` runs the callbacks
of the plugins before it returns, a handler that raises is reported through it, and the report goes to the
same handlers. The calls that are under way are kept on a stack, so that a line that is never done shows as
one that grows for ever. -/
namespace LuaTT.ConsoleFeedback
open Lua LState Dispatch Transition
set_option autoImplicit false

/-! ## Console output -/

inductive Callback
  /-- `LuaManager::Call_Console_Output_Hook`. -/
  | consoleOutputHook
  /-- `LuaTT_DA_Hooks::Console_Output_Event`, by way of `Generic_Hook`. -/
  | consoleOutputEvent

def Callback.name : Callback → Bytes
  | consoleOutputHook => bytes "OnConsoleOutput"
  | consoleOutputEvent => bytes "DA_Console_Output_Event"

inductive Frame
  /-- `Console_Output`, with the callbacks that are left. -/
  | print (line : Bytes) (rest : List Callback)
  /-- The loop of a callback, before the state `i`. -/
  | loop (cb : Callback) (line : Bytes) (i : ℕ)
  /-- `Report_Errors` for the state `i`, after the error has been printed. -/
  | report (cb : Callback) (i : ℕ) (err : Option Bytes)

structure State (M : Type) where
  lua : List (LState M)
  /-- Innermost first. -/
  stack : List Frame

/-- "[Lua_Error] %s\n"; a null pointer prints as "(null)". -/
def errorLine (err : Option Bytes) : Bytes := bytes "[Lua_Error] " ++ err.getD (bytes "(null)") ++ [10]

section Machine
variable {M : Type} (code : Code M) (callbacks : List Callback)

/-- What a callback does after the call: `Generic_Hook` clears the frame. -/
def finish (cb : Callback) (L : LState M) : LState M :=
  match cb with
  | .consoleOutputHook => L
  | .consoleOutputEvent => L.pop (-1)

/-- `Report_Errors` after the error has been printed. -/
def callOnError (err : Option Bytes) (L : LState M) : LState M :=
  let L := L.getglobal code (bytes "OnError")
  if L.top.isfunction then
    let (L, status) := (L.push (ofCString err)).pcall code 1 (some 0)
    if status ≠ 0 then L.pop 1 else L
  else L

/-- One handler call at most. `Console_Output` returns when the stack is empty. -/
def step (s : State M) : State M :=
  match s.stack with
  | [] => s
  | .print _ [] :: stack => { s with stack := stack }
  | .print line (cb :: rest) :: stack => { s with stack := .loop cb line 0 :: .print line rest :: stack }
  | .loop cb line i :: stack =>
    match s.lua[i]? with
    | none => { s with stack := stack }
    | some L =>
      let L := L.getglobal code cb.name
      if L.top.isfunction then
        let (L, status) := (L.push (string line)).pcall code 1 (some 0)
        if status ≠ 0 then
          let err := L.top.tostring
          let L := L.pop 1
          { lua := s.lua.set i { L with errors := err :: L.errors }
            stack := .print (errorLine err) callbacks :: .report cb i err :: .loop cb line (i + 1) :: stack }
        else { lua := s.lua.set i (finish cb L), stack := .loop cb line (i + 1) :: stack }
      else { lua := s.lua.set i (L.setglobal code cb.name), stack := .loop cb line (i + 1) :: stack }
  | .report cb i err :: stack =>
    { lua := s.lua.modify i fun L => finish cb (callOnError code err L), stack := stack }

def start (lua : List (LState M)) (line : Bytes) : State M := ⟨lua, [.print line callbacks]⟩

/-- `Console_Output` of the line returns, after finitely many handler calls. -/
def Returns (lua : List (LState M)) (line : Bytes) : Prop :=
  ∃ n, ((step code callbacks)^[n] (start callbacks lua line)).stack = []

end Machine

/-! ## Nesting -/

/-- How many lines are being printed. -/
def depth : List Frame → ℕ
  | [] => 0
  | .print _ _ :: stack => depth stack + 1
  | _ :: stack => depth stack

section Nesting
variable {M : Type} (code : Code M)

/-- The handler that is called next raises. -/
def Raises (s : State M) : Prop :=
  match s.stack with
  | .loop cb line i :: _ =>
    ∃ L ∈ s.lua[i]?, Defines code cb.name L ∧
      ∃ mem err, code.call L.mem (code.getglobal L.mem cb.name) [string line] = (mem, .error err)
  | _ => False

/-- A handler raises only while fewer than `d` lines are being printed. -/
def Shallow (d : ℕ) (s : State M) : Prop := Raises code s → depth s.stack < d

end Nesting

/-! ## One step -/

section Steps
variable {M : Type} {code : Code M} {callbacks : List Callback} {s : State M} {stack : List Frame}

/-- The first half of `Report_Errors` and what follows the print are the whole of it. -/
theorem reportErrors_eq (L : LState M) : (reportErrors code L luaErrrun).1 =
    callOnError code L.top.tostring { L.pop 1 with errors := L.top.tostring :: (L.pop 1).errors } := by
  unfold reportErrors callOnError
  rw [if_pos (by decide)]
  dsimp only
  split_ifs <;> rfl

theorem step_nil (hs : s.stack = []) : step code callbacks s = s := by
  simp [step, hs]

theorem step_print_nil {line : Bytes} (hs : s.stack = .print line [] :: stack) :
    step code callbacks s = { s with stack := stack } := by
  simp [step, hs]

theorem step_print_cons {line : Bytes} {cb : Callback} {rest : List Callback}
    (hs : s.stack = .print line (cb :: rest) :: stack) :
    step code callbacks s = { s with stack := .loop cb line 0 :: .print line rest :: stack } := by
  simp [step, hs]

theorem step_report {cb : Callback} {i : ℕ} {err : Option Bytes}
    (hs : s.stack = .report cb i err :: stack) : step code callbacks s =
      { lua := s.lua.modify i fun L => finish cb (callOnError code err L), stack := stack } := by
  simp [step, hs]

theorem step_loop_end {cb : Callback} {line : Bytes} {i : ℕ} (hs : s.stack = .loop cb line i :: stack)
    (hi : s.lua[i]? = none) : step code callbacks s = { s with stack := stack } := by
  simp [step, hs, hi]

variable (code callbacks) in
/-- A handler that does not raise, or is not there, leaves the loop before the next state; an error is
printed first. -/
theorem step_loop {cb : Callback} {line : Bytes} {i : ℕ} {L : LState M}
    (hs : s.stack = .loop cb line i :: stack) (hi : s.lua[i]? = some L) :
    (¬ Raises code s ∧ ∃ L', step code callbacks s =
        { lua := s.lua.set i L', stack := .loop cb line (i + 1) :: stack }) ∨
      (Raises code s ∧ ∃ L' err, step code callbacks s =
        { lua := s.lua.set i L'
          stack := .print (errorLine err) callbacks :: .report cb i err :: .loop cb line (i + 1) ::
            stack }) := by
  have hraises : Raises code s ↔ Defines code cb.name L ∧ ∃ mem err,
      code.call L.mem (code.getglobal L.mem cb.name) [string line] = (mem, .error err) := by
    simp [Raises, hs, hi]
  rw [hraises]
  by_cases hd : Defines code cb.name L
  · have hstack : ((L.getglobal code cb.name).push (string line)).stack =
        L.stack ++ [code.getglobal L.mem cb.name] ++ [string line] := rfl
    have hcall := pcall_eq code _ (some 0) hstack
    rw [List.length_singleton] at hcall
    simp only [step, hs, hi, getglobal_top, if_pos hd, hcall]
    have hmem : ((L.getglobal code cb.name).push (string line)).mem = L.mem := rfl
    rw [hmem]
    cases ho : code.call L.mem (code.getglobal L.mem cb.name) [string line] with
    | mk mem r =>
      cases r with
      | ok vs => exact .inl ⟨by simp, _, rfl⟩
      | error e => exact .inr ⟨⟨hd, mem, e, rfl⟩, _, _, rfl⟩
  · simp only [step, hs, hi, getglobal_top, if_neg hd]
    exact .inl ⟨fun h => hd h.1, _, rfl⟩

variable (code callbacks) in
theorem step_cases (s : State M) (hne : s.stack ≠ []) :
    (∃ f stack, s.stack = f :: stack ∧ (step code callbacks s).stack = stack) ∨
      (∃ line cb rest stack, s.stack = .print line (cb :: rest) :: stack ∧
        (step code callbacks s).stack = .loop cb line 0 :: .print line rest :: stack) ∨
      (∃ cb line i stack, s.stack = .loop cb line i :: stack ∧ i < s.lua.length ∧ ¬ Raises code s ∧
        (step code callbacks s).stack = .loop cb line (i + 1) :: stack) ∨
      ∃ cb line i stack err, s.stack = .loop cb line i :: stack ∧ i < s.lua.length ∧ Raises code s ∧
        (step code callbacks s).stack =
          .print (errorLine err) callbacks :: .report cb i err :: .loop cb line (i + 1) :: stack := by
  obtain ⟨f, stack, hs⟩ := List.exists_cons_of_ne_nil hne
  cases f with
  | print line rest =>
    cases rest with
    | nil => exact .inl ⟨_, stack, hs, by rw [step_print_nil hs]⟩
    | cons cb rest => exact .inr (.inl ⟨line, cb, rest, stack, hs, by rw [step_print_cons hs]⟩)
  | report cb i err => exact .inl ⟨_, stack, hs, by rw [step_report hs]⟩
  | loop cb line i =>
    cases hi : s.lua[i]? with
    | none => exact .inl ⟨_, stack, hs, by rw [step_loop_end hs hi]⟩
    | some L =>
      obtain ⟨hlt, _⟩ := List.getElem?_eq_some_iff.mp hi
      obtain ⟨hr, L', hstep⟩ | ⟨hr, L', err, hstep⟩ := step_loop code callbacks hs hi
      · exact .inr (.inr (.inl ⟨cb, line, i, stack, hs, hlt, hr, by rw [hstep]⟩))
      · exact .inr (.inr (.inr ⟨cb, line, i, stack, err, hs, hlt, hr, by rw [hstep]⟩))

variable (code callbacks) in
theorem step_length (s : State M) : (step code callbacks s).lua.length = s.lua.length := by
  cases hs : s.stack with
  | nil => rw [step_nil hs]
  | cons f stack =>
    cases f with
    | print line rest =>
      cases rest with
      | nil => rw [step_print_nil hs]
      | cons cb rest => rw [step_print_cons hs]
    | report cb i err =>
      rw [step_report hs]
      exact List.length_modify _ _ _
    | loop cb line i =>
      cases hi : s.lua[i]? with
      | none => rw [step_loop_end hs hi]
      | some L =>
        obtain ⟨_, L', hstep⟩ | ⟨_, L', err, hstep⟩ := step_loop code callbacks hs hi
        · rw [hstep]
          exact List.length_set
        · rw [hstep]
          exact List.length_set

end Steps

/-! ## Bounded nesting -/

/-- The steps that the loop of a callback may take at one state, where lines nest `j` deeper at most. -/
def stateCost (callbacks states : ℕ) : ℕ → ℕ
  | 0 => 2
  | j + 1 => 3 + callbacks * (2 + states * stateCost callbacks states j)

/-- The steps that a frame with `j` levels above it may still take. -/
def weight (callbacks states j : ℕ) : Frame → ℕ
  | .print _ rest => 1 + rest.length * (2 + states * stateCost callbacks states j)
  | .loop _ _ i => 1 + (states - i) * stateCost callbacks states j
  | .report _ _ _ => 1

/-- The steps that a stack may still take, where at most `d` lines nest. -/
def potential (callbacks states d : ℕ) : List Frame → ℕ
  | [] => 0
  | f :: stack => weight callbacks states (d - depth (f :: stack)) f + potential callbacks states d stack

theorem two_le_stateCost (callbacks states j : ℕ) : 2 ≤ stateCost callbacks states j := by
  cases j with
  | zero => exact Nat.le_refl 2
  | succ j =>
    simp only [stateCost]
    omega

theorem weight_loop_succ (callbacks states j : ℕ) (cb : Callback) (line : Bytes) {i : ℕ} (hi : i < states) :
    weight callbacks states j (.loop cb line i) =
      weight callbacks states j (.loop cb line (i + 1)) + stateCost callbacks states j := by
  have hsub : states - i = states - (i + 1) + 1 := by omega
  simp only [weight, hsub, Nat.succ_mul]
  omega

section Potential
variable {M : Type} {code : Code M} {callbacks : List Callback} {s : State M} {d : ℕ}

variable (callbacks) in
/-- Every step takes something from what may still be done. -/
theorem potential_step (h : Shallow code d s) (hne : s.stack ≠ []) :
    potential callbacks.length s.lua.length d (step code callbacks s).stack <
      potential callbacks.length s.lua.length d s.stack := by
  obtain ⟨f, stack, hs, hstep⟩ | ⟨line, cb, rest, stack, hs, hstep⟩ |
    ⟨cb, line, i, stack, hs, hi, _, hstep⟩ | ⟨cb, line, i, stack, err, hs, hi, hraises, hstep⟩ :=
    step_cases code callbacks s hne
  · rw [hs, hstep]
    cases f with
    | print line rest =>
      simp only [potential, weight]
      omega
    | loop cb line i =>
      simp only [potential, weight]
      omega
    | report cb i err =>
      simp only [potential, weight]
      omega
  · rw [hs, hstep]
    simp only [potential, weight, depth, List.length_cons, Nat.succ_mul, Nat.sub_zero]
    omega
  · rw [hs, hstep]
    have hcost := two_le_stateCost callbacks.length s.lua.length (d - depth stack)
    simp only [potential, depth, weight_loop_succ _ _ _ cb line hi]
    omega
  · rw [hs, hstep]
    have hdepth : depth stack < d := by
      have hlt := h hraises
      rwa [hs] at hlt
    have hlevel : d - depth stack = d - (depth stack + 1) + 1 := by omega
    have hcost : stateCost callbacks.length s.lua.length (d - depth stack) =
        2 + weight callbacks.length s.lua.length (d - (depth stack + 1))
          (.print (errorLine err) callbacks) := by
      rw [hlevel]
      simp only [stateCost, weight]
      omega
    simp only [potential, depth, weight_loop_succ _ _ _ cb line hi, hcost]
    simp only [weight]
    omega

variable (code callbacks) in
theorem depth_step (s : State M) : depth (step code callbacks s).stack ≤ depth s.stack + 1 := by
  by_cases hne : s.stack = []
  · rw [step_nil hne]
    exact Nat.le_succ _
  · obtain ⟨f, stack, hs, hstep⟩ | ⟨line, cb, rest, stack, hs, hstep⟩ |
      ⟨cb, line, i, stack, hs, _, _, hstep⟩ | ⟨cb, line, i, stack, err, hs, _, _, hstep⟩ :=
      step_cases code callbacks s hne
    · rw [hs, hstep]
      cases f with
      | print line rest =>
        simp only [depth]
        omega
      | loop cb line i => exact Nat.le_succ _
      | report cb i err => exact Nat.le_succ _
    · rw [hs, hstep]
      exact Nat.le_succ _
    · rw [hs, hstep]
      exact Nat.le_succ _
    · rw [hs, hstep]
      exact Nat.le_refl _

end Potential

/-! ## Whole lines -/

section Lines
variable {M : Type} (code : Code M) (callbacks : List Callback) (lua : List (LState M)) (line : Bytes)

theorem iterate_length (n : ℕ) :
    ((step code callbacks)^[n] (start callbacks lua line)).lua.length = lua.length := by
  induction n with
  | zero => rfl
  | succ n ih => rw [Function.iterate_succ_apply', step_length, ih]

theorem iterate_depth (n : ℕ) :
    depth ((step code callbacks)^[n] (start callbacks lua line)).stack ≤ n + 1 := by
  induction n with
  | zero => exact Nat.le_refl 1
  | succ n ih =>
    rw [Function.iterate_succ_apply']
    have hstep := depth_step code callbacks ((step code callbacks)^[n] (start callbacks lua line))
    omega

theorem iterate_stays {n m : ℕ} (hnm : n ≤ m)
    (h : ((step code callbacks)^[n] (start callbacks lua line)).stack = []) :
    ((step code callbacks)^[m] (start callbacks lua line)).stack = [] := by
  induction m, hnm using Nat.le_induction with
  | base => exact h
  | succ m _ ih =>
    rw [Function.iterate_succ_apply', step_nil ih]
    exact ih

theorem not_raises_of_nil {s : State M} (hs : s.stack = []) : ¬ Raises code s := by
  simp [Raises, hs]

theorem returns_iff_shallow : Returns code callbacks lua line ↔
    ∃ d, ∀ n, Shallow code d ((step code callbacks)^[n] (start callbacks lua line)) := by
  constructor
  · rintro ⟨m, hm⟩
    refine ⟨m + 1, fun n hraises => ?_⟩
    have hlt : n < m := by
      by_contra hge
      have hdone := iterate_stays code callbacks lua line (Nat.le_of_not_lt hge) hm
      exact not_raises_of_nil code hdone hraises
    have hdepth := iterate_depth code callbacks lua line n
    omega
  · rintro ⟨d, hd⟩
    refine exists_iterate_of_decreasing (fun s : State M => s.stack = [])
      (fun s => potential callbacks.length lua.length d s.stack) ?_
    intro n hn
    have hstep := potential_step callbacks (hd n) hn
    rw [iterate_length] at hstep
    rw [Function.iterate_succ_apply']
    exact hstep

/-! ## Handlers that accept reports -/

/-- Only lines that are error reports are printed inside others. -/
def ReportsInside : List Frame → Prop
  | [] => True
  | .print line _ :: stack =>
    (depth stack ≠ 0 → ∃ err, line = errorLine err) ∧ ReportsInside stack
  | .loop _ line _ :: stack => (1 < depth stack → ∃ err, line = errorLine err) ∧ ReportsInside stack
  | .report _ _ _ :: stack => ReportsInside stack

theorem reportsInside_step {s : State M} (h : ReportsInside s.stack) :
    ReportsInside (step code callbacks s).stack := by
  by_cases hne : s.stack = []
  · rwa [step_nil hne]
  · obtain ⟨f, stack, hs, hstep⟩ | ⟨line, cb, rest, stack, hs, hstep⟩ |
      ⟨cb, line, i, stack, hs, _, _, hstep⟩ | ⟨cb, line, i, stack, err, hs, _, _, hstep⟩ :=
      step_cases code callbacks s hne
    · rw [hs] at h
      rw [hstep]
      cases f with
      | print line rest => exact h.2
      | loop cb line i => exact h.2
      | report cb i err => exact h
    · rw [hs] at h
      rw [hstep]
      refine ⟨fun hdepth => h.1 ?_, h⟩
      simp only [depth] at hdepth
      omega
    · rw [hs] at h
      rw [hstep]
      exact h
    · rw [hs] at h
      rw [hstep]
      exact ⟨fun _ => ⟨err, rfl⟩, h⟩

/-- No handler raises when it is called with the report of an error. -/
def AcceptsReports : Prop :=
  ∀ (cb : Callback) (mem : M) (err : Option Bytes) (mem' : M) (e : LuaValue),
    code.call mem (code.getglobal mem cb.name) [string (errorLine err)] ≠ (mem', .error e)

theorem returns_of_reports_accepted (haccept : AcceptsReports code) :
    Returns code callbacks lua line := by
  refine (returns_iff_shallow code callbacks lua line).mpr ⟨2, fun n hraises => ?_⟩
  have hinside : ReportsInside ((step code callbacks)^[n] (start callbacks lua line)).stack := by
    clear hraises
    induction n with
    | zero => exact ⟨fun h => absurd rfl h, trivial⟩
    | succ n ih =>
      rw [Function.iterate_succ_apply']
      exact reportsInside_step code callbacks ih
  generalize (step code callbacks)^[n] (start callbacks lua line) = s at hraises hinside
  unfold Raises at hraises
  split at hraises
  · next cb line i stack hs =>
    obtain ⟨L, _, _, mem, e, hcall⟩ := hraises
    rw [hs] at hinside ⊢
    by_contra hdeep
    simp only [depth] at hdeep
    obtain ⟨err, rfl⟩ := hinside.1 (by omega)
    exact haccept cb L.mem err mem e hcall
  · exact hraises.elim

/-- **Console feedback.** `Console_Output` returns, after finitely many handler calls, exactly if the errors
of its handlers nest to a bounded depth: for some `d`, no handler raises while `d` lines are being printed. It
is enough that they accept error reports, whatever else they raise on. -/
theorem console_output_returns : (Returns code callbacks lua line ↔
    ∃ d, ∀ n, Shallow code d ((step code callbacks)^[n] (start callbacks lua line))) ∧
      (AcceptsReports code → Returns code callbacks lua line) :=
  ⟨returns_iff_shallow code callbacks lua line, returns_of_reports_accepted code callbacks lua line⟩

end Lines

/-! ## A handler that always raises -/

/-- The one plugin raises in `OnConsoleOutput`. -/
def brokenCode : Code Unit where
  getglobal _ name := if name = bytes "OnConsoleOutput" then .function 0 else .nil
  setglobal _ _ _ := ()
  call _ _ _ := ((), .error (.string (bytes "broken")))

theorem broken_nests (n : ℕ) : ∃ L line stack,
    (step brokenCode [.consoleOutputHook])^[n + n]
      (start [.consoleOutputHook] [⟨(), .nil, [], []⟩] (bytes "hello")) =
      ⟨[L], .print line [.consoleOutputHook] :: stack⟩ := by
  induction n with
  | zero => exact ⟨_, _, _, rfl⟩
  | succ n ih =>
    obtain ⟨L, line, stack, hn⟩ := ih
    have hsum : n + 1 + (n + 1) = n + n + 1 + 1 := by omega
    have hprint : step brokenCode [.consoleOutputHook] ⟨[L], .print line [.consoleOutputHook] :: stack⟩ =
        ⟨[L], .loop .consoleOutputHook line 0 :: .print line [] :: stack⟩ := rfl
    rw [hsum, Function.iterate_succ_apply', Function.iterate_succ_apply', hn, hprint]
    obtain ⟨hcalm, _⟩ | ⟨_, L', err, hstep⟩ := step_loop brokenCode [.consoleOutputHook]
      (s := ⟨[L], .loop .consoleOutputHook line 0 :: .print line [] :: stack⟩) rfl rfl
    · exact absurd ⟨L, rfl, rfl, (), _, rfl⟩ hcalm
    · exact ⟨L', _, _, hstep⟩

theorem console_output_feeds_back : ¬ ∀ (code : Code Unit) (callbacks : List Callback)
    (lua : List (LState Unit)) (line : Bytes), Returns code callbacks lua line := by
  intro h
  obtain ⟨n, hn⟩ := h brokenCode [.consoleOutputHook] [⟨(), .nil, [], []⟩] (bytes "hello")
  obtain ⟨L, line, stack, hdeep⟩ := broken_nests n
  have hdone := iterate_stays brokenCode [.consoleOutputHook] _ _ (Nat.le_add_right n n) hn
  rw [hdeep] at hdone
  cases hdone

end LuaTT.ConsoleFeedback
