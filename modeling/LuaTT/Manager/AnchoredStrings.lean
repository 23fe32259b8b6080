import LuaTT.Manager.ErrorStrings

/-! Whether the pointers are read while their strings are there. It depends on what else holds a string once it
has been popped, since the reports and the callers read after other code has run. -/
namespace LuaTT.ErrorStrings
open Lua Memory World
set_option autoImplicit false

/-! ## Reports -/

/-- Every pointer is read while its string is there. -/
def Alive (reads : List (Option Bytes)) : Prop := ∀ r ∈ reads, r ≠ none

/-- And `OnError`, where it is found, is called once, with the string that has been raised. -/
def Reported.Faithful (o : Reported) (raised : Option Bytes) (found : Prop) : Prop :=
  Alive o.reads ∧ ∀ s, raised = some s → found → o.calls = [some s]

theorem alive_nil : Alive [] := fun _ hr => absurd hr List.not_mem_nil

theorem alive_cons {r : Option Bytes} {reads : List (Option Bytes)} :
    Alive (r :: reads) ↔ r ≠ none ∧ Alive reads := List.forall_mem_cons

theorem alive_append {rs reads : List (Option Bytes)} :
    Alive (rs ++ reads) ↔ Alive rs ∧ Alive reads := List.forall_mem_append

theorem alive_some (s : Bytes) : Alive [some s] := alive_cons.mpr ⟨Option.some_ne_none s, alive_nil⟩

section Reads
variable {W : World} {L a : ℕ} {s : Bytes}

theorem alive_of_holds (h : W.Holds L a s) : Alive (W.read (.string L a)) := by
  rw [h.read]
  exact alive_some _

theorem not_alive_of_freed (h : W.Freed L a) : ¬ Alive (W.read (.string L a)) := by
  rw [h.read]
  intro halive
  exact (alive_cons.mp halive).1 rfl

end Reads

namespace Report
variable (e : Report) (L : ℕ)

/-- The error has been taken off the frame. -/
def popped (W : World) : World := (W.tostring L e.convert).1.pop L 1

/-- `OnError` has been looked up. -/
def lookedUp (W : World) : World := ((e.popped L W).run e.print).call L (e.getglobal (bytes "OnError"))

def Finds (W : World) : Prop := (e.lookedUp L W L).isfunction (e.lookedUp L W L).top = true

/-- No collection of the state finds the object out of reach until `lua_pushstring` has copied it. -/
def Keeps (a : ℕ) (W : World) : Prop :=
  Anchored L a (e.popped L W) e.print ∧
    Anchored L a ((e.popped L W).run e.print) (e.getglobal (bytes "OnError")).steps ∧
    Anchored L a (e.lookedUp L W) e.push

/-- A report that finds `OnError` needs its error to be kept by something else. -/
def Safe (status : ℕ) (W : World) : Prop :=
  status ≠ 0 → e.Finds L W → ∀ a, (W.tostring L e.convert).2 = .string L a → e.Keeps L a W

/-- And a C string has no zero byte. -/
def Works (status : ℕ) (W : World) : Prop :=
  e.Safe L status W ∧ (status ≠ 0 → e.Finds L W → ∀ s, W.topText L = some s → 0 ∉ s)

end Report

section Reports
variable {e : Report} {L status : ℕ} {W : World}

theorem reportErrors_finds (hs : status ≠ 0) (hf : e.Finds L W) :
    (reportErrors e L status W).reads = (e.popped L W).read (W.tostring L e.convert).2 ++
        ((e.lookedUp L W).pushstring L (W.tostring L e.convert).2 e.push e.garbage).2 ∧
      (reportErrors e L status W).calls =
        [((e.lookedUp L W).pushstring L (W.tostring L e.convert).2 e.push e.garbage).1.topText L] := by
  simp only [Report.Finds, Report.lookedUp, Report.popped] at hf ⊢
  unfold reportErrors
  rw [if_pos hs]
  dsimp only
  rw [if_pos hf]
  cases e.pcall with
  | inl c => exact ⟨rfl, rfl⟩
  | inr c => exact ⟨rfl, rfl⟩

theorem reportErrors_not_finds (hs : status ≠ 0) (hf : ¬ e.Finds L W) :
    (reportErrors e L status W).reads = (e.popped L W).read (W.tostring L e.convert).2 := by
  simp only [Report.Finds, Report.lookedUp, Report.popped] at hf ⊢
  unfold reportErrors
  rw [if_pos hs]
  dsimp only
  rw [if_neg hf]

/-- The string is gone when it is pushed, if it has not been kept. -/
theorem freed_of_not_keeps {a : ℕ} {s : Bytes} (h : (e.popped L W).Holds L a s) (hk : ¬ e.Keeps L a W) :
    ((e.lookedUp L W).run e.push).Freed L a := by
  by_cases hprint : Anchored L a (e.popped L W) e.print
  · by_cases hget : Anchored L a ((e.popped L W).run e.print) (e.getglobal (bytes "OnError")).steps
    · have hpush : ¬ Anchored L a (e.lookedUp L W) e.push := fun hpush => hk ⟨hprint, hget, hpush⟩
      exact ((h.run hprint).call hget).freed_run hpush
    · exact (((h.run hprint).freed_run hget).set (Effect.heap _ _)).run _
  · exact ((h.freed_run hprint).call _).run _

theorem reportErrors_alive_of_null (hn : (W.tostring L e.convert).2 = .null) :
    Alive (reportErrors e L status W).reads := by
  have hreads : (reportErrors e L status W).reads = [] := by
    by_cases hs : status = 0
    · rw [reportErrors, if_neg (not_not.mpr hs)]
    by_cases hf : e.Finds L W
    · rw [(reportErrors_finds hs hf).1, hn]
      rfl
    · rw [reportErrors_not_finds hs hf, hn]
      rfl
  rw [hreads]
  exact alive_nil

/-- A report that keeps its error hands it over. -/
theorem reportErrors_of_keeps (hs : status ≠ 0) (hf : e.Finds L W) {a : ℕ} {s : Bytes}
    (hptr : (W.tostring L e.convert).2 = .string L a) (h : (e.popped L W).Holds L a s)
    (hk : e.Keeps L a W) : Alive (reportErrors e L status W).reads ∧
      (reportErrors e L status W).calls = [some (cstring s)] := by
  have hrun := reportErrors_finds hs hf
  have hlooked : (e.lookedUp L W).Holds L a s := (h.run hk.1).call hk.2.1
  have hpush := pushstring_holds e.garbage hlooked hk.2.2
  rw [hptr, h.read, hpush.1, hpush.2] at hrun
  refine ⟨?_, hrun.2⟩
  rw [hrun.1, alive_append]
  exact ⟨alive_some _, alive_some _⟩

theorem reportErrors_alive : Alive (reportErrors e L status W).reads ↔ e.Safe L status W := by
  rcases tostring_cases W L e.convert with ⟨hnull, _⟩ | ⟨a, s, hptr, hholds, _⟩
  · refine iff_of_true (reportErrors_alive_of_null hnull) fun _ _ a ha => ?_
    rw [hnull] at ha
    cases ha
  have hpopped : (e.popped L W).Holds L a s := hholds.pop 1
  by_cases hs : status = 0
  · rw [reportErrors, if_neg (not_not.mpr hs)]
    exact iff_of_true alive_nil fun hne => absurd hs hne
  by_cases hf : e.Finds L W
  · have hsafe : e.Safe L status W ↔ e.Keeps L a W := by
      refine ⟨fun h => h hs hf a hptr, fun hk _ _ b hb => ?_⟩
      rw [hptr] at hb
      cases hb
      exact hk
    rw [hsafe]
    by_cases hk : e.Keeps L a W
    · exact iff_of_true (reportErrors_of_keeps hs hf hptr hpopped hk).1 hk
    · have hpush := pushstring_freed e.garbage (freed_of_not_keeps hpopped hk)
      refine iff_of_false (fun halive => ?_) hk
      rw [(reportErrors_finds hs hf).1, hptr, hpush, alive_append] at halive
      exact (alive_cons.mp halive.2).1 rfl
  · refine iff_of_true ?_ fun _ hfinds => absurd hfinds hf
    rw [reportErrors_not_finds hs hf, hptr]
    exact alive_of_holds hpopped

theorem reportErrors_faithful :
    (reportErrors e L status W).Faithful (W.topText L) (status ≠ 0 ∧ e.Finds L W) ↔
      e.Works L status W := by
  rw [Reported.Faithful, reportErrors_alive, Report.Works]
  apply and_congr_right
  intro hsafe
  have hcalls (s : Bytes) (hraised : W.topText L = some s) (hs : status ≠ 0) (hf : e.Finds L W) :
      (reportErrors e L status W).calls = [some s] ↔ 0 ∉ s := by
    rcases tostring_cases W L e.convert with ⟨_, htop⟩ | ⟨a, t, hptr, hholds, htext⟩
    · rw [htop] at hraised
      cases hraised
    · have hk := hsafe hs hf a hptr
      rw [(reportErrors_of_keeps hs hf hptr (hholds.pop 1) hk).2, ← htext s hraised, ← cstring_eq_self]
      simp
  constructor
  · intro h hs hf s hraised
    exact (hcalls s hraised hs hf).mp (h s hraised ⟨hs, hf⟩)
  · rintro h s hraised ⟨hs, hf⟩
    exact (hcalls s hraised hs hf).mpr (h hs hf s hraised)

end Reports

/-! ## Answers -/

section Answers
variable (name : Bytes) (args : List LuaValue)

/-- The hook has been looked up. -/
def lookedUp (L : ℕ) (e : Answer) (W : World) : World := W.call L (e.getglobal name)

def Asks (L : ℕ) (e : Answer) (W : World) : Prop :=
  (lookedUp name L e W L).isfunction (lookedUp name L e W L).top = true

/-- A state that is not asked gets its global back. -/
def skipped (L : ℕ) (e : Answer) (W : World) : World :=
  (lookedUp name L e W).call L (e.setglobal name)

def answered (L : ℕ) (e : Answer) (W : World) : World × Pointer :=
  takeAnswer L e.convert (callHook args L e (lookedUp name L e W)).world

/-- The answer so far is one that a later state replaces. -/
def Replaced : List (ℕ × Answer) → World → Prop
  | [], _ => False
  | (L, e) :: lua, W => Asks name L e W ∨ Replaced lua (skipped name L e W)

/-- No collection of the state `K` finds the object out of reach while other states are passed over. -/
def Spares (K a : ℕ) : List (ℕ × Answer) → World → Prop
  | [], _ => True
  | (L, e) :: lua, W =>
    Anchored K a W (e.getglobal name).steps ∧
      Anchored K a (lookedUp name L e W) (e.setglobal name).steps ∧
      Spares K a lua (skipped name L e W)

/-- Reports keep their errors; a last answer of "CONTINUE" is spared until the caller has it. -/
def AnswersSafe : List (ℕ × Answer) → World → Prop
  | [], _ => True
  | (L, e) :: lua, W =>
    (Asks name L e W →
      e.report.Safe L e.status ((pushAll L e.push 0 args (lookedUp name L e W)).call L e.pcall) ∧
      ((answered name args L e W).1.read (answered name args L e W).2 = [some (bytes "CONTINUE")] →
        AnswersSafe lua (answered name args L e W).1 ∧
        (¬ Replaced name lua (answered name args L e W).1 →
          ∀ K a, (answered name args L e W).2 = .string K a →
            Spares name K a lua (answered name args L e W).1))) ∧
    (¬ Asks name L e W → AnswersSafe lua (skipped name L e W))

end Answers

section Asking
variable {name : Bytes} {args : List LuaValue} {L : ℕ} {e : Answer} {W : World}
  {lua : List (ℕ × Answer)} {ret : Pointer}

/-- What is read in the loop from here on, and by the caller. -/
def readsFrom (name : Bytes) (args : List LuaValue) (lua : List (ℕ × Answer)) (ret : Pointer)
    (W : World) : List (Option Bytes) :=
  (askStates name args lua ret W).reads ++
    (askStates name args lua ret W).world.read (askStates name args lua ret W).ret

theorem askStates_skips (h : ¬ Asks name L e W) :
    askStates name args ((L, e) :: lua) ret W = askStates name args lua ret (skipped name L e W) := by
  simp only [Asks, lookedUp] at h
  rw [askStates]
  dsimp only
  rw [if_neg h]
  rfl

theorem readsFrom_stops (h : Asks name L e W)
    (hr : (answered name args L e W).1.read (answered name args L e W).2 ≠ [some (bytes "CONTINUE")]) :
    readsFrom name args ((L, e) :: lua) ret W =
      (callHook args L e (lookedUp name L e W)).reads ++
        ((answered name args L e W).1.read (answered name args L e W).2 ++
          (answered name args L e W).1.read (answered name args L e W).2) := by
  simp only [Asks, lookedUp, answered] at h hr ⊢
  rw [readsFrom, askStates]
  dsimp only
  rw [if_pos h, if_pos hr, List.append_assoc]

theorem readsFrom_continues (h : Asks name L e W)
    (hr : (answered name args L e W).1.read (answered name args L e W).2 = [some (bytes "CONTINUE")]) :
    readsFrom name args ((L, e) :: lua) ret W =
      (callHook args L e (lookedUp name L e W)).reads ++
        (some (bytes "CONTINUE") ::
          readsFrom name args lua (answered name args L e W).2 (answered name args L e W).1) := by
  simp only [Asks, lookedUp, answered] at h hr ⊢
  rw [readsFrom, askStates]
  dsimp only
  rw [if_pos h, if_neg (not_not.mpr hr), hr]
  simp only [List.append_assoc, List.cons_append, List.nil_append, readsFrom]

theorem readsFrom_skips (h : ¬ Asks name L e W) :
    readsFrom name args ((L, e) :: lua) ret W = readsFrom name args lua ret (skipped name L e W) := by
  simp only [readsFrom, askStates_skips h]

/-- The text of an answer is read while it is there. -/
theorem answered_cases (name : Bytes) (args : List LuaValue) (L : ℕ) (e : Answer) (W : World) :
    (answered name args L e W).2 = .literal (bytes "CONTINUE") ∨
      ∃ a s, (answered name args L e W).2 = .string L a ∧ (answered name args L e W).1.Holds L a s := by
  unfold answered takeAnswer
  dsimp only
  rcases tostring_cases (callHook args L e (lookedUp name L e W)).world L e.convert with
    ⟨hnull, _⟩ | ⟨a, s, hptr, hholds, _⟩
  · rw [hnull]
    exact .inl rfl
  · rw [hptr]
    exact .inr ⟨a, s, rfl, hholds.pop _⟩

theorem alive_answered (name : Bytes) (args : List LuaValue) (L : ℕ) (e : Answer) (W : World) :
    Alive ((answered name args L e W).1.read (answered name args L e W).2) := by
  rcases answered_cases name args L e W with hlit | ⟨a, s, hptr, hholds⟩
  · rw [hlit]
    exact alive_some _
  · rw [hptr]
    exact alive_of_holds hholds

theorem readsFrom_of_replaced (h : Replaced name lua W) (ret' : Pointer) :
    readsFrom name args lua ret W = readsFrom name args lua ret' W := by
  induction lua generalizing W with
  | nil => exact h.elim
  | cons p lua ih =>
    by_cases hasks : Asks name p.1 p.2 W
    · by_cases hr : (answered name args p.1 p.2 W).1.read (answered name args p.1 p.2 W).2 =
          [some (bytes "CONTINUE")]
      · rw [readsFrom_continues hasks hr, readsFrom_continues hasks hr]
      · rw [readsFrom_stops hasks hr, readsFrom_stops hasks hr]
    · rw [readsFrom_skips hasks, readsFrom_skips hasks]
      exact ih (h.resolve_left hasks)

section NotReplaced
variable {K a : ℕ} {s : Bytes}

theorem alive_readsFrom_literal (h : ¬ Replaced name lua W) :
    Alive (readsFrom name args lua (.literal s) W) := by
  induction lua generalizing W with
  | nil => exact alive_some s
  | cons p lua ih =>
    obtain ⟨hasks, hrest⟩ := not_or.mp h
    rw [readsFrom_skips hasks]
    exact ih hrest

theorem not_alive_readsFrom_freed (h : ¬ Replaced name lua W) (hf : W.Freed K a) :
    ¬ Alive (readsFrom name args lua (.string K a) W) := by
  induction lua generalizing W with
  | nil => exact not_alive_of_freed hf
  | cons p lua ih =>
    obtain ⟨hasks, hrest⟩ := not_or.mp h
    rw [readsFrom_skips hasks]
    exact ih hrest ((hf.call _).call _)

/-- Where no later state answers, the caller reads the last answer. -/
theorem alive_readsFrom_string (h : ¬ Replaced name lua W) (hs : W.Holds K a s) :
    Alive (readsFrom name args lua (.string K a) W) ↔ Spares name K a lua W := by
  induction lua generalizing W with
  | nil => exact iff_of_true (alive_of_holds hs) trivial
  | cons p lua ih =>
    obtain ⟨hasks, hrest⟩ := not_or.mp h
    rw [readsFrom_skips hasks]
    by_cases hget : Anchored K a W (p.2.getglobal name).steps
    · have hlooked : (lookedUp name p.1 p.2 W).Holds K a s := hs.call hget
      by_cases hset : Anchored K a (lookedUp name p.1 p.2 W) (p.2.setglobal name).steps
      · rw [ih hrest (hlooked.call hset)]
        exact ⟨fun hspares => ⟨hget, hset, hspares⟩, fun hspares => hspares.2.2⟩
      · have hfreed : (skipped name p.1 p.2 W).Freed K a :=
          (hlooked.freed_run hset).set (Effect.heap _ _)
        exact iff_of_false (not_alive_readsFrom_freed hrest hfreed) fun hspares => hset hspares.2.1
    · have hfreed : (lookedUp name p.1 p.2 W).Freed K a :=
        (hs.freed_run hget).set (Effect.heap _ _)
      exact iff_of_false (not_alive_readsFrom_freed hrest (hfreed.call _)) fun hspares => hget hspares.1

theorem answersSafe_of_not_replaced (h : ¬ Replaced name lua W) : AnswersSafe name args lua W := by
  induction lua generalizing W with
  | nil => trivial
  | cons p lua ih =>
    obtain ⟨hasks, hrest⟩ := not_or.mp h
    exact ⟨fun hasked => absurd hasked hasks, fun _ => ih hrest⟩

end NotReplaced

/-- The rest of a run is safe if the loop is, and what the loop has now if it is the last answer. -/
theorem alive_readsFrom_answered {W' : World}
    (hw : ret = .literal (bytes "CONTINUE") ∨ ∃ a s, ret = .string L a ∧ W'.Holds L a s)
    (ih : Alive (readsFrom name args lua (.literal (bytes "CONTINUE")) W') ↔
      AnswersSafe name args lua W') :
    Alive (readsFrom name args lua ret W') ↔ AnswersSafe name args lua W' ∧
      (¬ Replaced name lua W' → ∀ K a, ret = .string K a → Spares name K a lua W') := by
  by_cases hrep : Replaced name lua W'
  · rw [readsFrom_of_replaced hrep (.literal (bytes "CONTINUE")), ih]
    exact ⟨fun h => ⟨h, fun hnot => absurd hrep hnot⟩, And.left⟩
  rcases hw with rfl | ⟨a, s, rfl, hholds⟩
  · refine iff_of_true (alive_readsFrom_literal hrep) ⟨answersSafe_of_not_replaced hrep, ?_⟩
    intro _ K a hptr
    cases hptr
  · rw [alive_readsFrom_string hrep hholds]
    constructor
    · intro hspares
      refine ⟨answersSafe_of_not_replaced hrep, fun _ K b hptr => ?_⟩
      cases hptr
      exact hspares
    · exact fun h => h.2 hrep L a rfl

theorem alive_askedReads (name : Bytes) (args : List LuaValue) (lua : List (ℕ × Answer))
    (W : World) : Alive (askedReads name args lua W) ↔ AnswersSafe name args lua W := by
  show Alive (readsFrom name args lua (.literal (bytes "CONTINUE")) W) ↔ _
  induction lua generalizing W with
  | nil => exact iff_of_true (alive_some _) trivial
  | cons p lua ih =>
    obtain ⟨L, e⟩ := p
    rw [AnswersSafe]
    by_cases hasks : Asks name L e W
    · have hreport : Alive (callHook args L e (lookedUp name L e W)).reads ↔ _ := reportErrors_alive
      simp only [hasks, not_true, IsEmpty.forall_iff, and_true, true_imp_iff]
      by_cases hr : (answered name args L e W).1.read (answered name args L e W).2 =
          [some (bytes "CONTINUE")]
      · rw [readsFrom_continues hasks hr, alive_append, alive_cons, hreport,
          alive_readsFrom_answered (answered_cases name args L e W) (ih _)]
        simp [hr]
      · have hanswer := alive_answered name args L e W
        rw [readsFrom_stops hasks hr, alive_append, alive_append, hreport]
        simp [hr, hanswer]
    · simp only [hasks, IsEmpty.forall_iff, not_false_iff, true_imp_iff, true_and]
      rw [readsFrom_skips hasks]
      exact ih _

end Asking

/-! ## Threads -/

/-- Nothing runs in the state of a thread between the pop and the copy. -/
theorem alive_setThreadExit {L : ℕ} (e : Execution L) {W : World} {a : ℕ} {s : Bytes}
    (h : W.Holds L a s) : Alive (setThreadExit e .error (.string L a) W).2 := by
  have halive := alive_of_holds (h.run (anchored_of_others e.others))
  show Alive (if e.registered then (W.run e.wait).read (.string L a) else [])
  split_ifs
  · exact halive
  · exact alive_nil

theorem takeError_cases {L : ℕ} (e : Execution L) (W : World) : (takeError e W).2 = .null ∨
    ∃ a s, (takeError e W).2 = .string L a ∧ (takeError e W).1.Holds L a s := by
  rcases tostring_cases W L e.convert with ⟨hnull, _⟩ | ⟨a, s, hptr, hholds, _⟩
  · exact .inl hnull
  · exact .inr ⟨a, s, hptr, hholds.pop 1⟩

theorem alive_executeThread {L : ℕ} (e : Execution L) (W : World) : Alive (executeThread e W).2 := by
  have hexit (r : World × Pointer) (hr : r.2 = .null ∨ ∃ a s, r.2 = .string L a ∧ r.1.Holds L a s) :
      Alive (exitThread e r).2 := by
    obtain ⟨W', err⟩ := r
    rcases hr with rfl | ⟨a, s, rfl, hholds⟩
    · exact alive_nil
    · exact alive_setThreadExit e hholds
  apply hexit
  split_ifs
  · cases e.pcall with
    | inl c => exact .inl rfl
    | inr c => exact takeError_cases e _
  · exact takeError_cases e _

/-! ## All four functions -/

/-- In an error report of a state the error must be reachable otherwise, wherever the state collects before
`OnError` has it; in the dispatchers, so must be a last "CONTINUE" while further states are passed over. -/
theorem error_strings (W : World) :
    (∀ (e : Report) (L status : ℕ),
      (reportErrors e L status W).Faithful (W.topText L) (status ≠ 0 ∧ e.Finds L W) ↔
        e.Works L status W) ∧
    (∀ (ip nick serial version : Option Bytes) (id : ℤ) (lua : List (ℕ × Answer)),
      Alive (conAcReads ip nick serial version id lua W) ↔
        AnswersSafe (bytes "ConnectionAcceptance") (conAcArgs ip nick serial version id) lua W) ∧
    (∀ (request : Dispatch.ConnectionRequest) (lua : List (ℕ × Answer)),
      Alive (daConnectionRequestEventReads request lua W) ↔
        AnswersSafe (bytes "DA_Connection_Request_Event") request.args lua W) ∧
    ∀ (L : ℕ) (e : Execution L), Alive (executeThread e W).2 := by
  refine ⟨fun e L status => reportErrors_faithful, ?_, ?_, fun L e => alive_executeThread e W⟩
  · intro ip nick serial version id lua
    exact alive_askedReads _ _ lua W
  · intro request lua
    exact alive_askedReads _ _ lua W

/-- A state with one global function and a string on its frame. -/
def oneHook (name text : Bytes) : State where
  heap := [some (.table [] .nil), some (.table [(.object 2, .object 3)] .nil), some (.string name),
    some (.function (.object 1) []), some (.string text)]
  stack := [.object 4]
  frames := []
  registry := .object 0
  globals := .object 1
  closed := .of_forall (by simp [Value.refs, MarkSweep.object])
    (by simp [Object.refs, Value.refs, MarkSweep.object])

/-- A console-output handler calls `collectgarbage`. -/
def collectingReport : Report where
  convert := []
  print := [.collect 0]
  getglobal name := ⟨[], .rawGetglobal name⟩
  push := []
  garbage := []
  pcall := .inl ⟨[], .drop 2⟩

/-- The hook of the state, if it has one, returns "CONTINUE". -/
def continuing (nargs : ℕ) (lookup : List Step) : Answer where
  getglobal name := ⟨lookup, .rawGetglobal name⟩
  push _ := []
  pcall := ⟨[], .returnString (nargs + 1) (bytes "CONTINUE")⟩
  status := 0
  report := collectingReport
  convert := []
  setglobal _ := ⟨[], .drop 1⟩

def errorWorld (text : Bytes) : World := fun _ => oneHook (bytes "OnError") text

/-- A thread raises, and another one pops and collects before it has the lock. -/
def raising : Execution 0 where
  load := ⟨[], .returnString 0 (bytes "thread")⟩
  loaded := true
  pcall := .inr ⟨[.collect 0], .returnString 1 (bytes "failed")⟩
  convert := []
  wait := [.code 1 (.drop 1), .collect 1]
  others := by simp [Step.state]
  registered := true

example : (executeThread raising (errorWorld [])).2 = [some (bytes "failed")] := by decide +kernel

/-- State 0 answers connection requests. -/
def answerWorld : World := fun L => if L = 0 then oneHook (bytes "ConnectionAcceptance") [] else oneHook [] []

/-- An error is freed while it is printed, and of one with a zero byte `OnError` gets a part; an answer of state
0 is freed while state 1, which has no such hook, is passed over. -/
theorem error_strings_freed :
    ¬ (reportErrors collectingReport 0 luaErrrun (errorWorld (bytes "failed"))).Faithful
        ((errorWorld (bytes "failed")).topText 0)
        (luaErrrun ≠ 0 ∧ collectingReport.Finds 0 (errorWorld (bytes "failed"))) ∧
      ¬ (reportErrors { collectingReport with print := [] } 0 luaErrrun (errorWorld [120, 0, 121])).Faithful
        ((errorWorld [120, 0, 121]).topText 0)
        (luaErrrun ≠ 0 ∧ Report.Finds { collectingReport with print := [] } 0 (errorWorld [120, 0, 121])) ∧
      ¬ Alive (conAcReads none none none none 0
        [(0, continuing 5 []), (1, continuing 5 [.collect 0])] answerWorld) := by
  refine ⟨?_, ?_, ?_⟩
  · have hreads : (reportErrors collectingReport 0 luaErrrun (errorWorld (bytes "failed"))).reads =
        [some (bytes "failed"), none] := by
      decide +kernel
    intro h
    have halive := h.1
    rw [hreads, alive_cons, alive_cons] at halive
    exact halive.2.1 rfl
  · have hcalls : (reportErrors { collectingReport with print := [] } 0 luaErrrun
        (errorWorld [120, 0, 121])).calls = [some [120]] := by
      decide +kernel
    have hfinds : Report.Finds { collectingReport with print := [] } 0 (errorWorld [120, 0, 121]) := by
      unfold Report.Finds
      decide +kernel
    intro h
    have hcall := h.2 [120, 0, 121] (by decide +kernel) ⟨by decide, hfinds⟩
    rw [hcalls] at hcall
    exact absurd hcall (by decide)
  · have hreads : conAcReads none none none none 0
        [(0, continuing 5 []), (1, continuing 5 [.collect 0])] answerWorld =
        [some (bytes "CONTINUE"), none] := by
      decide +kernel
    intro h
    rw [hreads, alive_cons, alive_cons] at h
    exact h.2.1 rfl

end LuaTT.ErrorStrings
