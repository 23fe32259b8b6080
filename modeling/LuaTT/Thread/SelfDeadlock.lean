import LuaTT.Library.Transition
import LuaTT.Thread.LockedSection

/-! When a thread runs Lua code while it owns `m_locker`. The functions of `LuaThread` call no Lua code
themselves, but a call of the Lua API that allocates runs the finalizers that are due, and a call that
raises goes back to the script; either may call the next function of `LuaThread`, which locks. -/
namespace LuaTT.SelfDeadlock
open Lua DataMessage Channel LockedSection Transition
set_option autoImplicit false

variable {Thr St : Type}

/-! ## Threads -/

/-- A call as far as it has come, or the finalizer that one of its allocations runs. -/
inductive Frame
  | enter (c : Call)
  | inside (l : List Op)
  | finalizer

structure State (Thr St : Type) where
  messages : ChannelMap
  owner : Option Thr
  /-- What runs on top of the script of a thread, innermost first, each with its Lua state. -/
  stack : Thr → List (St × Frame)
  /-- The objects of a Lua state whose finalizer the next collection runs. -/
  pending : St → ℕ

/-- Steps of the thread that runs the Lua state. -/
inductive Act (St : Type)
  /-- An object with a finalizer becomes garbage. -/
  | drop (L : St)
  /-- Lua code calls a function of `LuaThread`, past the check of its arguments. -/
  | call (L : St) (c : Call)
  /-- `m_locker.lock()`; a `Demand_Data` over an empty queue gives it back and comes here again. -/
  | acquire (L : St)
  /-- The next operation under the lock, and the collection it may start. -/
  | exec (L : St)
  | collect (L : St)
  /-- The operation raises an error. -/
  | raise (L : St)
  /-- The end of the function: the guard unlocks. -/
  | leave (L : St)
  /-- The finalizer returns, or raises an error, which the allocation passes on. -/
  | finalizerReturn (L : St)
  | finalizerRaise (L : St)

/-- The thread runs Lua code: the script, or a finalizer. -/
def runsLua : List (St × Frame) → Bool
  | [] => true
  | (_, .finalizer) :: _ => true
  | _ => false

namespace State
variable [DecidableEq Thr] [DecidableEq St]

def setStack (s : State Thr St) (t : Thr) (frames : List (St × Frame)) : State Thr St :=
  { s with stack := Function.update s.stack t frames }

def setPending (s : State Thr St) (L : St) (n : ℕ) : State Thr St :=
  { s with pending := Function.update s.pending L n }

/-- The error leaves the function; the guard unlocks if the error unwinds. -/
def abort (unwinds : Bool) (s : State Thr St) (t : Thr) (rest : List (St × Frame)) : State Thr St :=
  { s with owner := if unwinds then none else s.owner }.setStack t rest

section Step
variable (unwinds : Bool) (thread : St → Thr)

def step (s : State Thr St) : Act St → Option (State Thr St)
  | .drop L =>
    if runsLua (s.stack (thread L)) then some (s.setPending L (s.pending L + 1)) else none
  | .call L c =>
    if runsLua (s.stack (thread L)) then
      some (s.setStack (thread L) ((L, .enter c) :: s.stack (thread L)))
    else none
  | .acquire L =>
    match s.stack (thread L) with
    | (L', .enter c) :: rest =>
      if L' = L ∧ s.owner = none then
        match c.section s.messages with
        | .ops l => some ({ s with owner := some (thread L) }.setStack (thread L) ((L, .inside l) :: rest))
        | .wait c => some { s with messages := s.messages.getChannel c }
        | .fault => none
      else none
    | _ => none
  | .exec L =>
    match s.stack (thread L) with
    | (L', .inside (op :: l)) :: rest =>
      if L' = L ∧ op.raises = false then
        some ({ s with messages := op.effect s.messages }.setStack (thread L) ((L, .inside l) :: rest))
      else none
    | _ => none
  | .collect L =>
    match s.stack (thread L) with
    | (L', .inside (op :: l)) :: rest =>
      if L' = L ∧ op.allocates = true ∧ 0 < s.pending L then
        some ((s.setPending L (s.pending L - 1)).setStack (thread L)
          ((L, .finalizer) :: (L, .inside (op :: l)) :: rest))
      else none
    | _ => none
  | .raise L =>
    match s.stack (thread L) with
    | (L', .inside (op :: _)) :: rest =>
      if L' = L ∧ op.raises = true then some (s.abort unwinds (thread L) rest) else none
    | _ => none
  | .leave L =>
    match s.stack (thread L) with
    | (L', .inside []) :: rest =>
      if L' = L ∧ s.owner = some (thread L) then
        some ({ s with owner := none }.setStack (thread L) rest)
      else none
    | _ => none
  | .finalizerReturn L =>
    match s.stack (thread L) with
    | (L', .finalizer) :: rest => if L' = L then some (s.setStack (thread L) rest) else none
    | _ => none
  | .finalizerRaise L =>
    match s.stack (thread L) with
    | (L', .finalizer) :: _ :: rest => if L' = L then some (s.abort unwinds (thread L) rest) else none
    | _ => none

end Step
end State

/-- Nobody has called anything, and there is nothing to finalize. -/
def initial : State Thr St := ⟨∅, none, fun _ => [], fun _ => 0⟩

/-- Any number of threads, each with the Lua states it runs. -/
def system [DecidableEq Thr] [DecidableEq St] (unwinds : Bool) (thread : St → Thr) : System (State Thr St) (Act St) :=
  ⟨fun s => s = initial, State.step unwinds thread⟩

/-! ## Lua code under the lock -/

/-- The owner of the mutex is in the C code of its function, not in Lua code and not before another
lock. -/
def Sealed (s : State Thr St) : Prop :=
  ∀ t, s.owner = some t → ∃ L l rest, s.stack t = (L, .inside l) :: rest

/-- The thread is about to lock the mutex that it owns. -/
def SelfLocked (s : State Thr St) (t : Thr) : Prop :=
  s.owner = some t ∧ ∃ L c rest, s.stack t = (L, .enter c) :: rest

/-- A call that allocates under the lock gets it only while no finalizer of its state is due, and a call
that fails under the lock only where errors unwind. -/
def Calm (unwinds : Bool) (thread : St → Thr) (s : State Thr St) : Act St → Prop
  | .acquire L => ∀ c rest, s.stack (thread L) = (L, .enter c) :: rest →
      (c.Allocates s.messages → s.pending L = 0) ∧ (c.Fails s.messages → unwinds = true)
  | _ => True

/-! ## What a step does -/

section Steps
variable [DecidableEq Thr] [DecidableEq St] {unwinds : Bool} {thread : St → Thr} {s s' : State Thr St} {L : St}

theorem step_acquire (h : s.step unwinds thread (.acquire L) = some s') :
    ∃ c rest, s.stack (thread L) = (L, .enter c) :: rest ∧ s.owner = none ∧
      ((∃ l, c.section s.messages = .ops l ∧
          s' = { s with owner := some (thread L) }.setStack (thread L) ((L, .inside l) :: rest)) ∨
        ∃ d, c.section s.messages = .wait d ∧
          s' = { s with messages := s.messages.getChannel d }) := by
  simp only [State.step] at h
  split at h
  · rename_i L' c rest hs
    split_ifs at h with hc
    obtain ⟨rfl, ho⟩ := hc
    refine ⟨c, rest, hs, ho, ?_⟩
    split at h
    · rename_i l hl
      exact .inl ⟨l, hl, (Option.some.inj h).symm⟩
    · rename_i d hd
      exact .inr ⟨d, hd, (Option.some.inj h).symm⟩
    · cases h
  · cases h

theorem step_exec (h : s.step unwinds thread (.exec L) = some s') :
    ∃ op l rest, s.stack (thread L) = (L, .inside (op :: l)) :: rest ∧ op.raises = false ∧
      s' = { s with messages := op.effect s.messages }.setStack (thread L) ((L, .inside l) :: rest) := by
  simp only [State.step] at h
  split at h
  · rename_i L' op l rest hs
    split_ifs at h with hc
    obtain ⟨rfl, hr⟩ := hc
    exact ⟨op, l, rest, hs, hr, (Option.some.inj h).symm⟩
  · cases h

theorem step_collect (h : s.step unwinds thread (.collect L) = some s') :
    ∃ op l rest, s.stack (thread L) = (L, .inside (op :: l)) :: rest ∧ op.allocates = true ∧
      0 < s.pending L := by
  simp only [State.step] at h
  split at h
  · rename_i L' op l rest hs
    split_ifs at h with hc
    obtain ⟨rfl, ha, hp⟩ := hc
    exact ⟨op, l, rest, hs, ha, hp⟩
  · cases h

theorem step_raise (h : s.step unwinds thread (.raise L) = some s') :
    ∃ op l rest, s.stack (thread L) = (L, .inside (op :: l)) :: rest ∧ op.raises = true ∧
      s' = s.abort unwinds (thread L) rest := by
  simp only [State.step] at h
  split at h
  · rename_i L' op l rest hs
    split_ifs at h with hc
    obtain ⟨rfl, hr⟩ := hc
    exact ⟨op, l, rest, hs, hr, (Option.some.inj h).symm⟩
  · cases h

theorem step_leave (h : s.step unwinds thread (.leave L) = some s') :
    ∃ rest, s.stack (thread L) = (L, .inside []) :: rest ∧ s.owner = some (thread L) ∧
      s' = { s with owner := none }.setStack (thread L) rest := by
  simp only [State.step] at h
  split at h
  · rename_i L' rest hs
    split_ifs at h with hc
    obtain ⟨rfl, ho⟩ := hc
    exact ⟨rest, hs, ho, (Option.some.inj h).symm⟩
  · cases h

theorem step_finalizer {a : Act St} (ha : a = .finalizerReturn L ∨ a = .finalizerRaise L)
    (h : s.step unwinds thread a = some s') : ∃ L' rest, s.stack (thread L) = (L', .finalizer) :: rest := by
  rcases ha with rfl | rfl
  · simp only [State.step] at h
    split at h
    · exact ⟨_, _, ‹_›⟩
    · cases h
  · simp only [State.step] at h
    split at h
    · exact ⟨_, _, ‹_›⟩
    · cases h

end Steps

/-! ## The invariant of calm runs -/

section Calm
variable {unwinds : Bool} {thread : St → Thr} {s s' : State Thr St} {L : St} {t : Thr}

/-- Where a thread stands in a calm run: in its script, before the lock, or under it, with nothing ahead
that would run Lua code. -/
def Standing (unwinds : Bool) (thread : St → Thr) (s : State Thr St) (t : Thr) :
    List (St × Frame) → Prop
  | [] => s.owner ≠ some t
  | [(_, .enter _)] => s.owner ≠ some t
  | [(L, .inside l)] => s.owner = some t ∧ thread L = t ∧ (Allocating l → s.pending L = 0) ∧
      (Raising l → unwinds = true)
  | _ => False

def Standings (unwinds : Bool) (thread : St → Thr) (s : State Thr St) : Prop :=
  ∀ t, Standing unwinds thread s t (s.stack t)

theorem Standing.other {frames : List (St × Frame)} (h : Standing unwinds thread s t frames)
    (ho : s'.owner = some t ↔ s.owner = some t)
    (hp : ∀ L, thread L = t → s'.pending L = s.pending L) : Standing unwinds thread s' t frames := by
  unfold Standing at h ⊢
  split at h
  · exact fun hc => h (ho.mp hc)
  · exact fun hc => h (ho.mp hc)
  · obtain ⟨hown, hL, halloc, hraise⟩ := h
    exact ⟨ho.mpr hown, hL, fun ha => (hp _ hL).trans (halloc ha), hraise⟩
  · exact h

/-- Under the lock of a calm run there is no other frame. -/
theorem Standings.inside (h : Standings unwinds thread s) {l : List Op} {rest : List (St × Frame)}
    (hs : s.stack t = (L, .inside l) :: rest) :
    rest = [] ∧ s.owner = some t ∧ thread L = t ∧ (Allocating l → s.pending L = 0) ∧
      (Raising l → unwinds = true) := by
  have ht := h t
  rw [hs] at ht
  cases rest with
  | nil => exact ⟨rfl, ht⟩
  | cons f rest => exact ht.elim

theorem Standings.enter (h : Standings unwinds thread s) {c : Call} {rest : List (St × Frame)}
    (hs : s.stack t = (L, .enter c) :: rest) : rest = [] ∧ s.owner ≠ some t := by
  have ht := h t
  rw [hs] at ht
  cases rest with
  | nil => exact ⟨rfl, ht⟩
  | cons f rest => exact ht.elim

theorem Standings.no_finalizer (h : Standings unwinds thread s) {rest : List (St × Frame)}
    (hs : s.stack t = (L, .finalizer) :: rest) : False := by
  have ht := h t
  rw [hs] at ht
  exact ht

/-- Lua code runs only as a script. -/
theorem Standings.script (h : Standings unwinds thread s) (hl : runsLua (s.stack t) = true) :
    s.stack t = [] ∧ s.owner ≠ some t := by
  have ht := h t
  cases hs : s.stack t with
  | nil =>
    rw [hs] at ht
    exact ⟨rfl, ht⟩
  | cons f rest =>
    obtain ⟨L, f⟩ := f
    rw [hs] at hl
    cases f with
    | finalizer => exact (h.no_finalizer hs).elim
    | enter c => cases hl
    | inside l => cases hl

theorem Standings.sealed (h : Standings unwinds thread s) : Sealed s := by
  intro t ho
  cases hs : s.stack t with
  | nil => exact absurd ho (h.script (by rw [hs]; rfl)).2
  | cons f rest =>
    obtain ⟨L, f⟩ := f
    cases f with
    | enter c => exact absurd ho (h.enter hs).2
    | inside l => exact ⟨L, l, rest, rfl⟩
    | finalizer => exact (h.no_finalizer hs).elim

theorem Sealed.not_selfLocked (h : Sealed s) (t : Thr) : ¬ SelfLocked s t := by
  rintro ⟨ho, L, c, rest, hs⟩
  obtain ⟨L', l, rest', hs'⟩ := h t ho
  rw [hs] at hs'
  cases hs'

variable [DecidableEq Thr]

/-- The thread of `L` gets the frames, and the other threads stand as they stood. -/
theorem Standings.setStack (h : Standings unwinds thread s) {frames : List (St × Frame)}
    (hself : Standing unwinds thread s' (thread L) frames)
    (ho : ∀ u, u ≠ thread L → (s'.owner = some u ↔ s.owner = some u))
    (hp : ∀ L', thread L' ≠ thread L → s'.pending L' = s.pending L') (hs : s'.stack = s.stack) :
    Standings unwinds thread (s'.setStack (thread L) frames) := by
  intro u
  by_cases hu : u = thread L
  · subst hu
    simpa [State.setStack, Standing] using hself
  · have hother : Standing unwinds thread s' u (s.stack u) :=
      (h u).other (ho u hu) fun L' hL' => hp L' (hL' ▸ hu)
    have hstack : (s'.setStack (thread L) frames).stack u = s.stack u := by
      simp [State.setStack, hu, hs]
    rw [hstack]
    exact hother

variable [DecidableEq St]

theorem standings_step (h : Standings unwinds thread s) {a : Act St} (hcalm : Calm unwinds thread s a)
    (hs : s.step unwinds thread a = some s') : Standings unwinds thread s' := by
  have hfree : ∀ {u v : Thr}, s.owner = some u → v ≠ u →
      ((none : Option Thr) = some v ↔ s.owner = some v) := fun hu hv => by
    rw [hu]
    simp [hv.symm]
  cases a with
  | drop L =>
    simp only [State.step] at hs
    split_ifs at hs with hl
    obtain rfl := Option.some.inj hs
    intro u
    by_cases hu : u = thread L
    · subst hu
      obtain ⟨hnil, hown⟩ := h.script hl
      show Standing unwinds thread _ _ (s.stack (thread L))
      rw [hnil]
      exact hown
    · refine (h u).other Iff.rfl fun L' hL' => ?_
      have hne : L' ≠ L := fun he => hu (he ▸ hL'.symm)
      exact Function.update_of_ne hne _ _
  | call L c =>
    simp only [State.step] at hs
    split_ifs at hs with hl
    obtain rfl := Option.some.inj hs
    obtain ⟨hnil, hown⟩ := h.script hl
    rw [hnil]
    exact h.setStack hown (fun _ _ => Iff.rfl) (fun _ _ => rfl) rfl
  | acquire L =>
    obtain ⟨c, rest, hst, hnone, ⟨l, hl, rfl⟩ | ⟨d, _, rfl⟩⟩ := step_acquire hs
    · obtain ⟨rfl, _⟩ := h.enter hst
      obtain ⟨halloc, hfail⟩ := hcalm c [] hst
      refine h.setStack ?_ (fun u hu => ?_) (fun _ _ => rfl) rfl
      · exact ⟨rfl, rfl, fun ha => halloc ((section_allocating hl).mp ha),
          fun hr => hfail ((section_raising hl).mp hr)⟩
      · simp [hnone, hu.symm]
    · exact fun u => (h u).other Iff.rfl fun _ _ => rfl
  | exec L =>
    obtain ⟨op, l, rest, hst, hr, rfl⟩ := step_exec hs
    obtain ⟨rfl, hown, hL, halloc, hraise⟩ := h.inside hst
    refine h.setStack ?_ (fun _ _ => Iff.rfl) (fun _ _ => rfl) rfl
    refine ⟨hown, rfl, fun ha => halloc ?_, fun hx => hraise (raising_cons.mpr (.inr hx))⟩
    obtain ⟨x, hx, hxa⟩ := ha
    exact ⟨x, by simp [executed, hr, hx], hxa⟩
  | collect L =>
    obtain ⟨op, l, rest, hst, ha, hp⟩ := step_collect hs
    obtain ⟨_, _, _, halloc, _⟩ := h.inside hst
    have hzero := halloc (allocating_head ha)
    omega
  | raise L =>
    obtain ⟨op, l, rest, hst, hr, rfl⟩ := step_raise hs
    obtain ⟨rfl, hown, _, _, hraise⟩ := h.inside hst
    obtain rfl := hraise (raising_cons.mpr (.inl hr))
    exact h.setStack (by simp [Standing]) (fun u hu => hfree hown hu) (fun _ _ => rfl) rfl
  | leave L =>
    obtain ⟨rest, hst, hown, rfl⟩ := step_leave hs
    obtain ⟨rfl, _⟩ := h.inside hst
    exact h.setStack (by simp [Standing]) (fun u hu => hfree hown hu) (fun _ _ => rfl) rfl
  | finalizerReturn L =>
    obtain ⟨L', rest, hst⟩ := step_finalizer (.inl rfl) hs
    exact (h.no_finalizer hst).elim
  | finalizerRaise L =>
    obtain ⟨L', rest, hst⟩ := step_finalizer (.inr rfl) hs
    exact (h.no_finalizer hst).elim

theorem reaches_standings (hr : (system unwinds thread).Reaches (Calm unwinds thread) s) :
    Standings unwinds thread s := by
  refine hr.invariant (I := Standings unwinds thread) ?_ fun s a s' h hok hs => standings_step h hok hs
  rintro s rfl
  exact fun t => by simp [initial, Standing]

/-! ## A call that is not calm -/

/-- From the operations of such a call Lua code comes to run under the lock. -/
theorem exposes {l : List Op} (hs : s.stack (thread L) = [(L, .inside l)])
    (ho : s.owner = some (thread L))
    (hx : Allocating l ∧ 0 < s.pending L ∨ Raising l ∧ unwinds = false) :
    ∃ as u, (system unwinds thread).exec s as = some u ∧ u.owner = some (thread L) ∧
      runsLua (u.stack (thread L)) = true := by
  induction l generalizing s with
  | nil =>
    rcases hx with ⟨⟨op, hop, _⟩, _⟩ | ⟨⟨op, hop, _⟩, _⟩ <;> exact absurd hop List.not_mem_nil
  | cons op l ih =>
    by_cases hr : op.raises = true
    · -- the operation fails; `lua_settable` is not one that allocates
      have hno : ¬ (Allocating (op :: l) ∧ 0 < s.pending L) := by
        rintro ⟨⟨x, hmem, ha⟩, _⟩
        simp only [executed, hr, if_true, List.mem_singleton] at hmem
        subst hmem
        cases x <;> simp [Op.raises, Op.allocates] at hr ha
      obtain ⟨_, rfl⟩ := hx.resolve_left hno
      refine ⟨[.raise L], s.abort false (thread L) [], ?_, ho, by simp [State.abort, State.setStack, runsLua]⟩
      simp [System.exec, system, State.step, hs, hr]
    · have hr' : op.raises = false := by simpa using hr
      by_cases hc : op.allocates = true ∧ 0 < s.pending L
      · refine ⟨[.collect L], (s.setPending L (s.pending L - 1)).setStack (thread L)
          [(L, .finalizer), (L, .inside (op :: l))], ?_, ho, by simp [State.setStack, runsLua]⟩
        simp [System.exec, system, State.step, hs, hc.1, hc.2]
      · let s₁ := { s with messages := op.effect s.messages }.setStack (thread L) [(L, .inside l)]
        have hstep : s.step unwinds thread (.exec L) = some s₁ := by
          simp [State.step, hs, hr', s₁]
        have hx' : Allocating l ∧ 0 < s₁.pending L ∨ Raising l ∧ unwinds = false := by
          rcases hx with ⟨⟨x, hmem, ha⟩, hp⟩ | ⟨hraise, hu⟩
          · simp only [executed, hr', Bool.false_eq_true, if_false, List.mem_cons] at hmem
            rcases hmem with rfl | hmem
            · exact absurd ⟨ha, hp⟩ hc
            · exact .inl ⟨⟨x, hmem, ha⟩, hp⟩
          · exact .inr ⟨(raising_cons.mp hraise).resolve_left hr, hu⟩
        obtain ⟨as, u, hexec, hown, hlua⟩ := ih (s := s₁) (by simp [s₁, State.setStack]) ho hx'
        refine ⟨.exec L :: as, u, ?_, hown, hlua⟩
        simp only [System.exec, system, hstep]
        exact hexec

theorem not_calm_deadlocks (h : Standings unwinds thread s) {a : Act St}
    (hs : s.step unwinds thread a = some s') (hcalm : ¬ Calm unwinds thread s a) :
    ∃ as u, (system unwinds thread).exec s' as = some u ∧ ∃ t, SelfLocked u t := by
  cases a with
  | acquire L =>
    obtain ⟨c, rest, hst, _, hcase⟩ := step_acquire hs
    obtain ⟨rfl, _⟩ := h.enter hst
    have hx : (c.Allocates s.messages ∧ 0 < s.pending L) ∨ (c.Fails s.messages ∧ unwinds = false) := by
      by_contra hno
      rw [not_or] at hno
      apply hcalm
      intro c' rest' hst'
      obtain ⟨rfl, rfl⟩ : c = c' ∧ [] = rest' := by
        rw [hst] at hst'
        simpa using hst'
      refine ⟨fun ha => ?_, fun hf => by simpa using fun hu => hno.2 ⟨hf, hu⟩⟩
      by_contra hp
      exact hno.1 ⟨ha, by omega⟩
    rcases hcase with ⟨l, hl, rfl⟩ | ⟨d, hd, rfl⟩
    · rw [← section_allocating hl, ← section_raising hl] at hx
      obtain ⟨as, u, hexec, hown, hlua⟩ := exposes (s := State.setStack
        { s with owner := some (thread L) } (thread L) [(L, .inside l)]) (by simp [State.setStack]) rfl hx
      have hcall : (system unwinds thread).step u (.call L .removeThread) =
          some (u.setStack (thread L) ((L, .enter .removeThread) :: u.stack (thread L))) := if_pos hlua
      exact ⟨as ++ [.call L .removeThread],
        u.setStack (thread L) ((L, .enter .removeThread) :: u.stack (thread L)),
        System.exec_append hexec (System.exec_single hcall), thread L, hown, L, .removeThread,
        u.stack (thread L), by simp [State.setStack]⟩
    · obtain ⟨ha, hf⟩ := section_wait hd
      rcases hx with ⟨hx, _⟩ | ⟨hx, _⟩
      · exact absurd hx ha
      · exact absurd hx hf
  | _ => exact absurd trivial hcalm

end Calm

/-! ## Runs -/

/-- **No self-deadlock.** In calm runs the owner of `m_locker` runs none but the C code of its function,
so it never locks again; and a call that gets the lock without being calm can go on to lock it again. -/
theorem no_self_deadlock [DecidableEq Thr] [DecidableEq St] (unwinds : Bool) (thread : St → Thr) :
    (∀ s : State Thr St, (system unwinds thread).Reaches (Calm unwinds thread) s →
      Sealed s ∧ ∀ t, ¬ SelfLocked s t) ∧
    ∀ (s s' : State Thr St) (a : Act St), (system unwinds thread).Reaches (Calm unwinds thread) s →
      s.step unwinds thread a = some s' → ¬ Calm unwinds thread s a →
      ∃ as u, (system unwinds thread).exec s' as = some u ∧ ∃ t, SelfLocked u t := by
  constructor
  · intro s hr
    have hsealed := (reaches_standings hr).sealed
    exact ⟨hsealed, hsealed.not_selfLocked⟩
  · exact fun s s' a hr hs hcalm => not_calm_deadlocks (reaches_standings hr) hs hcalm

/-- One thread with one state asks for the channels, and nothing is to be finalized. -/
theorem no_self_deadlock_listing : ∃ s : State Unit Unit,
    (system false id).exec initial [.call () .getAllChannels, .acquire ()] = some s ∧
      s.owner = some () ∧ ¬ SelfLocked s () := by
  have hstart : (system false id).Reaches (Calm false id) (initial : State Unit Unit) := .start rfl
  have hcalled := hstart.next (a := Act.call () .getAllChannels) trivial rfl
  have hlocked := hcalled.next (a := Act.acquire ())
    (fun c rest hs => ⟨fun _ => rfl, fun hf => by cases hs; exact hf.elim⟩) rfl
  exact ⟨_, rfl, rfl, ((no_self_deadlock false id).1 _ hlocked).2 ()⟩

/-- A finalizer that calls `Get_All_Channels()` runs when `Get_All_Channels()` makes its table. -/
def finalizerLocks : List (Act Unit) :=
  [.drop (), .call () .getAllChannels, .acquire (), .collect (), .call () .getAllChannels]

theorem self_deadlock : ¬ ∀ s : State Unit Unit, (system true id).Reaches System.anyStep s →
    ∀ t, ¬ SelfLocked s t := by
  intro h
  have hstart : (system true id).Reaches System.anyStep (initial : State Unit Unit) := .start rfl
  have hend := hstart.exec finalizerLocks (System.along_anyStep _ _) rfl
  exact h _ hend () ⟨rfl, (), .getAllChannels, _, rfl⟩

end LuaTT.SelfDeadlock
