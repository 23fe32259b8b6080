import Mathlib.Data.List.Nodup
import LuaTT.Library.GrowingVector
import LuaTT.Library.KeyedIndex
import LuaTT.Library.Transition
import LuaTT.Manager.Registrations

/-! `LuaScriptRegistrant` and its instances: each points to the other, and `LuaScript::Detach` and the
destructor of the registrant run into one another through `Destroy_Script`. -/
namespace LuaTT.RegistrantBooks
open GrowingVector KeyedIndex Transition
open Registrations (StateId)
set_option autoImplicit false

/-! ## Objects -/

structure LuaScript where
  /-- `Get_ID()`, once the engine has attached the script. -/
  id : Option ℕ
  lua : Option StateId
  myFactory : Option ℕ

/-- Scripts and registrants are numbered by their creation. -/
structure LuaScriptRegistrant where
  luaHandler : StateId
  scripts : Storage ℕ

/-- A destructor that is running. -/
structure Destruction where
  factory : ℕ
  loop : RangeLoop ℕ
  /-- What had been detached when it began. -/
  before : List ℕ

structure Books where
  nextFactory : ℕ
  nextScript : ℕ
  /-- Those that have not been deleted. -/
  factories : ℕ → Option LuaScriptRegistrant
  scripts : ℕ → Option LuaScript
  /-- The registrant whose `Create` has made the script. -/
  creator : ℕ → Option ℕ
  /-- The scripts whose `Detach` has been called. -/
  detached : List ℕ
  destroying : Option Destruction
  finished : List Destruction
  /-- The calls of `Destroy_Script`. -/
  requests : List ℕ
  /-- An object has been used that is deleted, or an iterator that is no longer valid. -/
  fault : Bool

namespace Books
variable (b : Books)

/-! ## `LuaScriptRegistrant` -/

/-- `Register_Script`. -/
def register (luaHandler : StateId) : Books :=
  { b with nextFactory := b.nextFactory + 1
           factories := Function.update b.factories b.nextFactory (some ⟨luaHandler, .empty⟩) }

/-- `Create`. -/
def create (grow : ℕ → ℕ) (f : ℕ) : Option Books :=
  (b.factories f).map fun r =>
    { b with
      nextScript := b.nextScript + 1
      scripts := Function.update b.scripts b.nextScript (some ⟨none, some r.luaHandler, some f⟩)
      factories := Function.update b.factories f (some { r with scripts := r.scripts.pushBack grow b.nextScript })
      creator := Function.update b.creator b.nextScript (some f) }

/-- The loop of `removeScript` goes no further: the id is found, or the script is deleted. -/
def stopsAt (scriptID : Option ℕ) (p : ℕ) : Bool :=
  match b.scripts p with
  | some s => s.id = scriptID
  | none => true

/-- `removeScript`. -/
def removeScript (f : ℕ) (scriptID : Option ℕ) : Books :=
  match b.factories f with
  | none => { b with fault := true }
  | some r =>
    match r.scripts.items.findIdx? (b.stopsAt scriptID) with
    | none => b
    | some i =>
      if (r.scripts.items[i]?.bind b.scripts).isSome then
        { b with factories := Function.update b.factories f (some { r with scripts := r.scripts.erase i }) }
      else { b with fault := true }

/-- `LuaScript::Detach`; `isTable` tells what `uRef` refers to. -/
def detach (p : ℕ) (isTable : Bool) : Option Books :=
  (b.scripts p).map fun s =>
    let b := { b with detached := p :: b.detached }
    if s.lua = none then b
    else
      let b := match s.myFactory with
        | some f =>
          let b := b.removeScript f s.id
          { b with scripts := Function.update b.scripts p (some { s with myFactory := none }) }
        | none => b
      if isTable then { b with requests := p :: b.requests } else b

/-! ## `~LuaScriptRegistrant` -/

def destroy (f : ℕ) : Option Books :=
  (b.factories f).map fun r => { b with destroying := some ⟨f, .begin r.scripts, b.detached⟩ }

/-- The body of the loop up to the call of `Destroy_Script`. -/
def visit (d : Destruction) : Option Books :=
  (b.factories d.factory).bind fun r =>
    if d.loop.Usable r.scripts then
      (d.loop.enter r.scripts).bind fun l =>
        l.visited.getLast?.map fun p =>
          match b.scripts p with
          | some s =>
            { b with scripts := Function.update b.scripts p (some { s with lua := none, myFactory := some d.factory })
                     requests := p :: b.requests
                     destroying := some { d with loop := l } }
          | none => { b with fault := true }
    else some { b with fault := true }

/-- `Destroy_Script` has returned. -/
def visitReturns (d : Destruction) : Option Books :=
  (b.factories d.factory).bind fun r =>
    if d.loop.inBody then
      if d.loop.Usable r.scripts then some { b with destroying := some { d with loop := d.loop.advance } }
      else some { b with fault := true }
    else none

/-- The end of the loop, and the registrant is deleted. -/
def destroyed (d : Destruction) : Option Books :=
  (b.factories d.factory).bind fun r =>
    if d.loop.inBody then none
    else if d.loop.Usable r.scripts then
      if d.loop.atEnd then
        some { b with factories := Function.update b.factories d.factory none
                      destroying := none
                      finished := d :: b.finished }
      else none
    else some { b with fault := true }

end Books

/-! ## Steps -/

inductive Act
  | register (luaHandler : StateId)
  | create (f : ℕ)
  /-- The engine attaches the script to an object. -/
  | attach (p : ℕ) (id : ℕ)
  | detach (p : ℕ) (isTable : Bool)
  | free (p : ℕ)
  | destroy (f : ℕ)
  | visit
  | visitReturns
  | destroyed

namespace Books

/-- While a destructor runs the engine is in `Destroy_Script`, which may detach the script there and
free scripts. -/
def step (grow : ℕ → ℕ) (b : Books) (a : Act) : Option Books :=
  match b.destroying, a with
  | _, .free p => some { b with scripts := Function.update b.scripts p none }
  | none, .register luaHandler => some (b.register luaHandler)
  | none, .create f => b.create grow f
  | none, .attach p id =>
    (b.scripts p).map fun s => { b with scripts := Function.update b.scripts p (some { s with id := some id }) }
  | none, .detach p isTable => b.detach p isTable
  | none, .destroy f => b.destroy f
  | some d, .detach p isTable =>
    if d.loop.inBody ∧ d.loop.visited.getLast? = some p then b.detach p isTable else none
  | some d, .visit => b.visit d
  | some d, .visitReturns => b.visitReturns d
  | some d, .destroyed => b.destroyed d
  | _, _ => none

end Books

def initial : Books := ⟨0, 0, fun _ => none, fun _ => none, fun _ => none, [], none, [], [], false⟩

def system (grow : ℕ → ℕ) : System Books Act := ⟨fun b => b = initial, Books.step grow⟩

/-- Attached scripts have different ids, and a script is attached when its `Detach` is called, which is
once and before it is freed. -/
def EngineRules (b : Books) : Act → Prop
  | .attach _ id => ∀ q s, b.scripts q = some s → q ∉ b.detached → s.id ≠ some id
  | .detach p _ => p ∉ b.detached ∧ ∃ s id, b.scripts p = some s ∧ s.id = some id
  | .free p => p ∈ b.detached
  | _ => True

/-- An instance that the registrant has made and that has not been detached. -/
def Books.Has (b : Books) (f p : ℕ) : Prop := b.creator p = some f ∧ p ∉ b.detached

/-- The registrants have their instances in their books, destructors have visited each of theirs, and
no call has used what is deleted. -/
structure Books.Kept (b : Books) : Prop where
  lists : ∀ f r, b.factories f = some r → (∀ d ∈ b.destroying, d.factory ≠ f) →
    r.scripts.items.Nodup ∧ ∀ p, p ∈ r.scripts.items ↔ b.Has f p
  pointers : ∀ f r p, b.factories f = some r → b.Has f p → ∃ s, b.scripts p = some s ∧ s.myFactory = some f
  iteration : ∀ d ∈ b.destroying, ∃ r, b.factories d.factory = some r ∧ r.scripts.items = d.loop.start ∧
    d.loop.Usable r.scripts ∧ d.loop.visited <+: d.loop.start
  visits : ∀ d ∈ b.finished, d.loop.visited.Nodup ∧
    ∀ p, p ∈ d.loop.visited ↔ b.creator p = some d.factory ∧ p ∉ d.before
  later : ∀ f p isTable b', b.factories f = none → b.Has f p → b.detach p isTable = some b' →
    b'.factories = b.factories ∧ b'.fault = b.fault
  defined : b.fault = false

/-! ## The invariant -/

/-- A destructor has taken the state from those it has visited; the others are still in the engine's
hands. -/
structure Closing (b : Books) (d : Destruction) : Prop where
  live : ∃ r, b.factories d.factory = some r ∧ d.loop.Tracks r.scripts ∧ r.scripts.items = d.loop.start
  nodup : d.loop.start.Nodup
  members : ∀ p, p ∈ d.loop.start ↔ b.creator p = some d.factory ∧ p ∉ d.before
  before : ∀ p ∈ d.before, p ∈ b.detached
  cleared : ∀ p ∈ d.loop.visited, ∀ s, b.scripts p = some s → s.lua = none
  waiting : ∀ p ∈ d.loop.start, p ∉ d.loop.visited → p ∉ b.detached

/-- The registrant is there and no destructor of it is running. -/
def Books.Serves (b : Books) (f : ℕ) (r : LuaScriptRegistrant) : Prop :=
  b.factories f = some r ∧ ∀ d ∈ b.destroying, d.factory ≠ f

structure Invariant (b : Books) : Prop where
  defined : b.fault = false
  factories : ∀ f r, b.factories f = some r → f < b.nextFactory
  creators : ∀ p f, b.creator p = some f → p < b.nextScript ∧ f < b.nextFactory
  created : ∀ p s, b.scripts p = some s → ∃ f, b.creator p = some f
  detached : ∀ p ∈ b.detached, p < b.nextScript
  alive : ∀ f p, b.Has f p → ∃ s, b.scripts p = some s ∧ s.myFactory = some f
  ids : ∀ p q s t id, b.scripts p = some s → b.scripts q = some t → p ∉ b.detached → q ∉ b.detached →
    s.id = some id → t.id = some id → p = q
  lists : ∀ f r, b.Serves f r → r.scripts.items.Nodup ∧ ∀ p, p ∈ r.scripts.items ↔ b.Has f p
  handled : ∀ f r p s, b.Serves f r → b.Has f p → b.scripts p = some s → s.lua ≠ none
  held : ∀ f p s, b.Has f p → b.scripts p = some s → s.lua ≠ none → ∃ r, b.factories f = some r
  closing : ∀ d ∈ b.destroying, Closing b d
  finished : ∀ d ∈ b.finished, b.factories d.factory = none ∧ d.factory < b.nextFactory ∧
    d.loop.visited.Nodup ∧ ∀ p, p ∈ d.loop.visited ↔ b.creator p = some d.factory ∧ p ∉ d.before

section Step
variable {b b' : Books} {d : Destruction} {f p : ℕ} {s s' : LuaScript} {r : LuaScriptRegistrant}

theorem invariant_initial : Invariant initial := by
  constructor <;> simp [initial, Books.Has, Books.Serves]

theorem not_destroying (hd : b.destroying = none) : d ∉ b.destroying := by
  rw [hd]
  exact nofun

theorem Invariant.register (h : Invariant b) (hd : b.destroying = none) (luaHandler : StateId) :
    Invariant (b.register luaHandler) := by
  have hfresh : ∀ p, b.creator p ≠ some b.nextFactory := fun p hp => Nat.lt_irrefl _ (h.creators p _ hp).2
  have hserves : ∀ f r, (b.register luaHandler).Serves f r →
      f = b.nextFactory ∧ r.scripts.items = [] ∨ b.Serves f r := by
    rintro f r ⟨hf, hd⟩
    rcases update_some_iff.mp hf with ⟨rfl, rfl⟩ | ⟨_, hf⟩
    · exact .inl ⟨rfl, rfl⟩
    · exact .inr ⟨hf, hd⟩
  refine ⟨h.defined, ?_, ?_, h.created, h.detached, h.alive, h.ids, ?_, ?_, ?_, ?_, ?_⟩
  · intro f r hf
    rcases update_some_iff.mp hf with ⟨rfl, _⟩ | ⟨_, hf⟩
    · exact Nat.lt_succ_self _
    · exact Nat.lt_succ_of_lt (h.factories f r hf)
  · intro p f hp
    obtain ⟨hlt, hlt'⟩ := h.creators p f hp
    exact ⟨hlt, Nat.lt_succ_of_lt hlt'⟩
  · intro f r hf
    rcases hserves f r hf with ⟨rfl, hnil⟩ | hf
    · rw [hnil]
      exact ⟨List.nodup_nil, fun p => ⟨fun hp => absurd hp List.not_mem_nil, fun hp => absurd hp.1 (hfresh p)⟩⟩
    · exact h.lists f r hf
  · intro f r p s hf hp hs
    rcases hserves f r hf with ⟨rfl, _⟩ | hf
    · exact absurd hp.1 (hfresh p)
    · exact h.handled f r p s hf hp hs
  · intro f p s hp hs hlua
    obtain ⟨r, hr⟩ := h.held f p s hp hs hlua
    have hne : f ≠ b.nextFactory := Nat.ne_of_lt (h.factories f r hr)
    exact ⟨r, update_of_ne_eq_some hne hr⟩
  · exact fun d hd' => absurd hd' (not_destroying hd)
  · intro d hd'
    obtain ⟨hnone, hlt, hvisits⟩ := h.finished d hd'
    exact ⟨(Function.update_of_ne (Nat.ne_of_lt hlt) _ _).trans hnone, Nat.lt_succ_of_lt hlt, hvisits⟩

/-- No script has the number of the next one. -/
theorem Invariant.next_unused (h : Invariant b) :
    b.creator b.nextScript = none ∧ b.nextScript ∉ b.detached ∧ b.scripts b.nextScript = none := by
  have hcreator : b.creator b.nextScript = none := by
    cases hc : b.creator b.nextScript with
    | none => rfl
    | some g => exact absurd (h.creators _ g hc).1 (Nat.lt_irrefl _)
  refine ⟨hcreator, fun hm => Nat.lt_irrefl _ (h.detached _ hm), ?_⟩
  cases hp : b.scripts b.nextScript with
  | none => rfl
  | some t =>
    obtain ⟨g, hg⟩ := h.created _ t hp
    rw [hcreator] at hg
    cases hg

theorem serves_of_idle (hd : b.destroying = none) (hr : b.factories f = some r) : b.Serves f r :=
  ⟨hr, fun _ hd' => absurd hd' (not_destroying hd)⟩

theorem Invariant.create {grow : ℕ → ℕ} (h : Invariant b) (hd : b.destroying = none)
    (hs : b.create grow f = some b') : Invariant b' := by
  obtain ⟨r, hr, rfl⟩ := Option.map_eq_some_iff.mp hs
  obtain ⟨hcreator, hundetached, hunused⟩ := h.next_unused
  obtain ⟨hnodup, hmem⟩ := h.lists f r (serves_of_idle hd hr)
  have hnotin : b.nextScript ∉ r.scripts.items := fun hin => ne_of_absent hcreator ((hmem _).mp hin).1 rfl
  -- the new instance is in the books of its registrant, all others are where they were
  have hhas : ∀ {g p}, Function.update b.creator b.nextScript (some f) p = some g ∧ p ∉ b.detached ↔
      b.Has g p ∨ g = f ∧ p = b.nextScript := by
    intro g p
    unfold Books.Has
    by_cases he : p = b.nextScript
    · subst he
      simp [hcreator, hundetached, eq_comm]
    · simp [he]
  have hold : ∀ {g p}, b.Has g p → p ≠ b.nextScript := fun hp => (ne_of_absent hcreator hp.1).symm
  refine ⟨h.defined, ?_, ?_, ?_, ?_, ?_, ?_, ?_, ?_, ?_, ?_, ?_⟩
  · intro g r' hg
    rcases update_some_iff.mp hg with ⟨rfl, _⟩ | ⟨_, hg⟩
    · exact h.factories g r hr
    · exact h.factories g r' hg
  · intro p g hp
    rcases update_some_iff.mp hp with ⟨rfl, rfl⟩ | ⟨_, hp⟩
    · exact ⟨Nat.lt_succ_self _, h.factories g r hr⟩
    · obtain ⟨hlt, hlt'⟩ := h.creators p g hp
      exact ⟨Nat.lt_succ_of_lt hlt, hlt'⟩
  · intro p t hp
    rcases update_some_iff.mp hp with ⟨rfl, _⟩ | ⟨he, hp⟩
    · exact ⟨f, Function.update_self _ _ _⟩
    · obtain ⟨g, hg⟩ := h.created p t hp
      exact ⟨g, update_of_ne_eq_some he hg⟩
  · exact fun p hp => Nat.lt_succ_of_lt (h.detached p hp)
  · intro g p hp
    rcases hhas.mp hp with hp | ⟨rfl, rfl⟩
    · obtain ⟨t, ht, hf⟩ := h.alive g p hp
      exact ⟨t, update_of_ne_eq_some (hold hp) ht, hf⟩
    · exact ⟨_, Function.update_self _ _ _, rfl⟩
  · intro p q t u id hp hq hpd hqd ht hu
    have hne : ∀ {x v}, Function.update b.scripts b.nextScript
        (some ⟨none, some r.luaHandler, some f⟩) x = some v → v.id = some id → b.scripts x = some v := by
      intro x v hx hv
      rcases update_some_iff.mp hx with ⟨_, rfl⟩ | ⟨_, hx⟩
      · cases hv
      · exact hx
    exact h.ids p q t u id (hne hp ht) (hne hq hu) hpd hqd ht hu
  · rintro g r' ⟨hg, _⟩
    rcases update_some_iff.mp hg with ⟨rfl, rfl⟩ | ⟨he, hg⟩
    · rw [Storage.pushBack_items]
      refine ⟨List.nodup_append.mpr ⟨hnodup, List.nodup_singleton _, ?_⟩, fun p => ?_⟩
      · rintro x hx y hy rfl
        rw [List.mem_singleton.mp hy] at hx
        exact hnotin hx
      · rw [List.mem_append, List.mem_singleton, hmem p]
        exact Iff.trans (or_congr_right (by simp)) hhas.symm
    · obtain ⟨hnodup', hmem'⟩ := h.lists g r' (serves_of_idle hd hg)
      refine ⟨hnodup', fun p => (hmem' p).trans (Iff.trans ?_ hhas.symm)⟩
      simp [he]
  · rintro g r' p t ⟨hg, _⟩ hp ht
    rcases update_some_iff.mp ht with ⟨rfl, rfl⟩ | ⟨hne, hscript⟩
    · exact Option.some_ne_none _
    · have hbefore := (hhas.mp hp).resolve_right fun he => hne he.2
      rcases update_some_iff.mp hg with ⟨rfl, _⟩ | ⟨_, hg⟩
      · exact h.handled g r p t (serves_of_idle hd hr) hbefore hscript
      · exact h.handled g r' p t (serves_of_idle hd hg) hbefore hscript
  · intro g p t hp ht hlua
    by_cases he : g = f
    · subst he
      exact ⟨_, Function.update_self _ _ _⟩
    · have hp := (hhas.mp hp).resolve_right fun hnew => he hnew.1
      rcases update_some_iff.mp ht with ⟨rfl, _⟩ | ⟨_, ht⟩
      · exact absurd rfl (hold hp)
      · obtain ⟨r', hr'⟩ := h.held g p t hp ht hlua
        exact ⟨r', update_of_ne_eq_some he hr'⟩
  · exact fun d hd' => absurd hd' (not_destroying hd)
  · intro d hd'
    obtain ⟨hnone, hlt, hvisits, hiff⟩ := h.finished d hd'
    have hne : d.factory ≠ f := ne_of_absent hnone hr
    refine ⟨(Function.update_of_ne hne _ _).trans hnone, hlt, hvisits, fun p => (hiff p).trans ?_⟩
    by_cases he : p = b.nextScript
    · subst he
      simp [hcreator, hne.symm]
    · simp [he]

/-- A script that the engine or a destructor has written to. -/
theorem Invariant.setScript (h : Invariant b) (s' : LuaScript) (requests : List ℕ) (hp : b.scripts p = some s)
    (hfac : ∀ f, b.Has f p → s'.myFactory = some f)
    (hlua : s'.lua = s.lua ∨ s'.lua = none ∧ ∀ f r, ¬ b.Serves f r ∨ b.creator p ≠ some f)
    (hids : ∀ q t id, q ≠ p → b.scripts q = some t → q ∉ b.detached → p ∉ b.detached → s'.id = some id →
      t.id ≠ some id) :
    Invariant { b with scripts := Function.update b.scripts p (some s'), requests := requests } := by
  refine ⟨h.defined, h.factories, h.creators, ?_, h.detached, ?_, ?_, h.lists, ?_, ?_, ?_, h.finished⟩
  · intro q t hq
    rcases update_some_iff.mp hq with ⟨rfl, _⟩ | ⟨_, hq⟩
    · exact h.created q s hp
    · exact h.created q t hq
  · intro f q hq
    by_cases he : q = p
    · subst he
      exact ⟨s', Function.update_self _ _ _, hfac f hq⟩
    · obtain ⟨t, ht, hf⟩ := h.alive f q hq
      exact ⟨t, update_of_ne_eq_some he ht, hf⟩
  · intro q q' t t' id hq hq' hd hd' ht ht'
    rcases update_some_iff.mp hq with ⟨rfl, rfl⟩ | ⟨hne, hold⟩ <;>
      rcases update_some_iff.mp hq' with ⟨rfl, rfl⟩ | ⟨hne', hold'⟩
    · rfl
    · exact absurd ht' (hids q' t' id hne' hold' hd' hd ht)
    · exact absurd ht (hids q t id hne hold hd hd' ht')
    · exact h.ids q q' t t' id hold hold' hd hd' ht ht'
  · intro f r q t hf hq ht
    rcases update_some_iff.mp ht with ⟨rfl, rfl⟩ | ⟨_, ht⟩
    · rcases hlua with he | ⟨_, hno⟩
      · rw [he]
        exact h.handled f r q s hf hq hp
      · rcases hno f r with hno | hno
        · exact absurd hf hno
        · exact absurd hq.1 hno
    · exact h.handled f r q t hf hq ht
  · intro f q t hq ht hsome
    rcases update_some_iff.mp ht with ⟨rfl, rfl⟩ | ⟨_, ht⟩
    · rcases hlua with he | ⟨he, _⟩
      · exact h.held f q s hq hp (he ▸ hsome)
      · exact absurd he hsome
    · exact h.held f q t hq ht hsome
  · intro d hd
    have hc := h.closing d hd
    refine ⟨hc.live, hc.nodup, hc.members, hc.before, fun q hq t ht => ?_, hc.waiting⟩
    rcases update_some_iff.mp ht with ⟨rfl, rfl⟩ | ⟨_, ht⟩
    · rcases hlua with he | ⟨he, _⟩
      · rw [he]
        exact hc.cleared q hq s hp
      · exact he
    · exact hc.cleared q hq t ht

theorem Invariant.attach {id : ℕ} (h : Invariant b) (hrule : EngineRules b (.attach p id))
    (hp : b.scripts p = some s) :
    Invariant { b with scripts := Function.update b.scripts p (some { s with id := some id }) } := by
  refine h.setScript _ b.requests hp (fun f hf => ?_) (.inl rfl) fun q t id' _ hq hqd _ he => ?_
  · obtain ⟨t, ht, hfac⟩ := h.alive f p hf
    obtain rfl := Option.some.inj (hp.symm.trans ht)
    exact hfac
  · rw [← he]
    exact hrule q t hq hqd

theorem Invariant.free (h : Invariant b) (hrule : p ∈ b.detached) :
    Invariant { b with scripts := Function.update b.scripts p none } := by
  have hkept : ∀ {q t}, Function.update b.scripts p none q = some t → b.scripts q = some t :=
    fun hq => (update_none_iff.mp hq).2
  refine ⟨h.defined, h.factories, h.creators, fun q t hq => h.created q t (hkept hq), h.detached, ?_, ?_,
    h.lists, ?_, ?_, ?_, h.finished⟩
  · intro f q hq
    have hne : q ≠ p := by
      rintro rfl
      exact hq.2 hrule
    obtain ⟨t, ht, hf⟩ := h.alive f q hq
    exact ⟨t, update_of_ne_eq_some hne ht, hf⟩
  · intro q q' t t' id hq hq'
    exact h.ids q q' t t' id (hkept hq) (hkept hq')
  · intro f r q t hf hq ht
    exact h.handled f r q t hf hq (hkept ht)
  · intro f q t hq ht
    exact h.held f q t hq (hkept ht)
  · intro d hd
    have hc := h.closing d hd
    exact ⟨hc.live, hc.nodup, hc.members, hc.before, fun q hq t ht => hc.cleared q hq t (hkept ht), hc.waiting⟩

/-- The loop of the destructor moves on. -/
theorem Invariant.setLoop {l : RangeLoop ℕ} (h : Invariant b) (hd : b.destroying = some d)
    (hc : Closing b { d with loop := l }) : Invariant { b with destroying := some { d with loop := l } } := by
  have hserves : ∀ f r, Books.Serves { b with destroying := some { d with loop := l } } f r → b.Serves f r := by
    rintro f r ⟨hf, hne⟩
    refine ⟨hf, fun d' hd' => ?_⟩
    rw [hd] at hd'
    obtain rfl := Option.some.inj hd'
    exact hne { d with loop := l } rfl
  refine ⟨h.defined, h.factories, h.creators, h.created, h.detached, h.alive, h.ids, ?_, ?_, h.held, ?_, h.finished⟩
  · exact fun f r hf => h.lists f r (hserves f r hf)
  · exact fun f r p s hf => h.handled f r p s (hserves f r hf)
  · intro d' hd'
    obtain rfl := Option.some.inj hd'
    exact ⟨hc.live, hc.nodup, hc.members, hc.before, hc.cleared, hc.waiting⟩

/-! ## `Detach` -/

/-- `Detach` of a script whose registrant is gone, or is about to, comes back at once. -/
theorem Invariant.detachOnly (h : Invariant b) (hp : b.scripts p = some s) (hnull : s.lua = none)
    (hd : ∀ d ∈ b.destroying, p ∈ d.loop.visited) : Invariant { b with detached := p :: b.detached } := by
  have hhas : ∀ {f q}, Books.Has { b with detached := p :: b.detached } f q ↔ b.Has f q ∧ q ≠ p := by
    intro f q
    simp only [Books.Has, List.mem_cons, not_or]
    tauto
  have hout : ∀ f r, b.Serves f r → ¬ b.Has f p := fun f r hf hhas => h.handled f r p s hf hhas hp hnull
  obtain ⟨f₀, hf₀⟩ := h.created p s hp
  refine ⟨h.defined, h.factories, h.creators, h.created, ?_, ?_, ?_, ?_, ?_, ?_, ?_, h.finished⟩
  · intro q hq
    rcases List.mem_cons.mp hq with rfl | hq
    · exact (h.creators q f₀ hf₀).1
    · exact h.detached q hq
  · exact fun f q hq => h.alive f q (hhas.mp hq).1
  · intro q q' t t' id hq hq' hqd hqd'
    exact h.ids q q' t t' id hq hq' (fun hm => hqd (List.mem_cons_of_mem _ hm)) fun hm =>
      hqd' (List.mem_cons_of_mem _ hm)
  · intro f r hf
    obtain ⟨hnodup, hmem⟩ := h.lists f r hf
    refine ⟨hnodup, fun q => (hmem q).trans (Iff.trans ?_ hhas.symm)⟩
    refine (and_iff_left_of_imp fun hq => ?_).symm
    rintro rfl
    exact hout f r hf hq
  · exact fun f r q t hf hq => h.handled f r q t hf (hhas.mp hq).1
  · exact fun f q t hq => h.held f q t (hhas.mp hq).1
  · intro d hd'
    have hc := h.closing d hd'
    refine ⟨hc.live, hc.nodup, hc.members, fun q hq => List.mem_cons_of_mem _ (hc.before q hq), hc.cleared, ?_⟩
    intro q hq hnot hm
    rcases List.mem_cons.mp hm with rfl | hm
    · exact hnot (hd d hd')
    · exact hc.waiting q hq hnot hm

/-- `removeScript` finds the script that calls it. -/
theorem removeScript_found (hr : b.factories f = some r) (hp : b.scripts p = some s)
    (hmem : p ∈ r.scripts.items)
    (halone : ∀ q ∈ r.scripts.items, ∃ t, b.scripts q = some t ∧ (t.id = s.id → q = p)) :
    ∃ i, r.scripts.items[i]? = some p ∧ b.removeScript f s.id =
      { b with factories := Function.update b.factories f (some { r with scripts := r.scripts.erase i }) } := by
  have hstops : b.stopsAt s.id p = true := by simp [Books.stopsAt, hp]
  cases hfind : r.scripts.items.findIdx? (b.stopsAt s.id) with
  | none =>
    have hno := List.findIdx?_eq_none_iff.mp hfind p hmem
    rw [hstops] at hno
    cases hno
  | some i =>
    obtain ⟨hi, hstop, _⟩ := List.findIdx?_eq_some_iff_getElem.mp hfind
    obtain ⟨t, ht, hsame⟩ := halone _ (List.getElem_mem hi)
    have hid : r.scripts.items[i] = p := by
      refine hsame ?_
      simpa [Books.stopsAt, ht] using hstop
    have hget : r.scripts.items[i]? = some p := by rw [List.getElem?_eq_getElem hi, hid]
    refine ⟨i, hget, ?_⟩
    simp [Books.removeScript, hr, hfind, hget, hp]

/-- `Detach` of a script that its registrant has in its books takes it out there. -/
theorem Invariant.detachHeld (h : Invariant b) (hd : b.destroying = none) (hp : b.scripts p = some s)
    (hf : b.Has f p) (hr : b.factories f = some r) {i : ℕ} (hi : r.scripts.items[i]? = some p)
    (t : LuaScript) (requests : List ℕ) :
    Invariant { b with
      detached := p :: b.detached
      factories := Function.update b.factories f (some { r with scripts := r.scripts.erase i })
      scripts := Function.update b.scripts p (some t)
      requests := requests } := by
  have hhas : ∀ {g q}, b.creator q = some g ∧ q ∉ p :: b.detached ↔ b.Has g q ∧ q ≠ p := by
    intro g q
    simp only [Books.Has, List.mem_cons, not_or]
    tauto
  have hscript : ∀ {q u}, q ≠ p → Function.update b.scripts p (some t) q = some u → b.scripts q = some u :=
    fun hne hq => ((update_some_iff.mp hq).resolve_left fun he => hne he.1).2
  obtain ⟨hnodup, hmem⟩ := h.lists f r (serves_of_idle hd hr)
  refine ⟨h.defined, ?_, h.creators, ?_, ?_, ?_, ?_, ?_, ?_, ?_, ?_, ?_⟩
  · intro g r' hg
    rcases update_some_iff.mp hg with ⟨rfl, _⟩ | ⟨_, hg⟩
    · exact h.factories g r hr
    · exact h.factories g r' hg
  · intro q u hq
    rcases update_some_iff.mp hq with ⟨rfl, _⟩ | ⟨_, hq⟩
    · exact ⟨f, hf.1⟩
    · exact h.created q u hq
  · intro q hq
    rcases List.mem_cons.mp hq with rfl | hq
    · exact (h.creators q f hf.1).1
    · exact h.detached q hq
  · intro g q hq
    obtain ⟨hq, hne⟩ := hhas.mp hq
    obtain ⟨u, hu, hfac⟩ := h.alive g q hq
    exact ⟨u, update_of_ne_eq_some hne hu, hfac⟩
  · intro q q' u u' id hq hq' hqd hqd'
    obtain ⟨hne, hqd⟩ := not_or.mp (List.mem_cons.not.mp hqd)
    obtain ⟨hne', hqd'⟩ := not_or.mp (List.mem_cons.not.mp hqd')
    exact h.ids q q' u u' id (hscript hne hq) (hscript hne' hq') hqd hqd'
  · rintro g r' ⟨hg, _⟩
    rcases update_some_iff.mp hg with ⟨rfl, rfl⟩ | ⟨he, hg⟩
    · refine ⟨Storage.nodup_erase hnodup i, fun q => ?_⟩
      rw [Storage.mem_erase_iff hnodup hi, hmem q]
      exact hhas.symm
    · obtain ⟨hnodup', hmem'⟩ := h.lists g r' (serves_of_idle hd hg)
      refine ⟨hnodup', fun q => (hmem' q).trans (Iff.trans ?_ hhas.symm)⟩
      refine (and_iff_left_of_imp fun hq => ?_).symm
      rintro rfl
      exact he (Option.some.inj (hq.1.symm.trans hf.1))
  · rintro g r' q u ⟨hg, _⟩ hq hu
    obtain ⟨hbefore, hne⟩ := hhas.mp hq
    rcases update_some_iff.mp hg with ⟨rfl, _⟩ | ⟨_, hg⟩
    · exact h.handled g r q u (serves_of_idle hd hr) hbefore (hscript hne hu)
    · exact h.handled g r' q u (serves_of_idle hd hg) hbefore (hscript hne hu)
  · intro g q u hq hu hlua
    obtain ⟨hq, hne⟩ := hhas.mp hq
    obtain ⟨r', hr'⟩ := h.held g q u hq (hscript hne hu) hlua
    by_cases he : g = f
    · subst he
      exact ⟨_, Function.update_self _ _ _⟩
    · exact ⟨r', update_of_ne_eq_some he hr'⟩
  · exact fun d hd' => absurd hd' (not_destroying hd)
  · intro d hd'
    obtain ⟨hnone, hrest⟩ := h.finished d hd'
    have hne : d.factory ≠ f := ne_of_absent hnone hr
    exact ⟨(Function.update_of_ne hne _ _).trans hnone, hrest⟩

/-- What `Detach` does to a script that is attached and has not been detached. -/
theorem Invariant.detach_cases {isTable : Bool} (h : Invariant b) (hrule : EngineRules b (.detach p isTable))
    (hs : b.detach p isTable = some b') :
    ∃ s, b.scripts p = some s ∧ (s.lua = none ∧ b' = { b with detached := p :: b.detached } ∨
      s.lua ≠ none ∧ ∃ f r i requests, b.Has f p ∧ b.factories f = some r ∧
        (b.destroying = none → r.scripts.items[i]? = some p ∧ b' = { b with
          detached := p :: b.detached
          factories := Function.update b.factories f (some { r with scripts := r.scripts.erase i })
          scripts := Function.update b.scripts p (some { s with myFactory := none })
          requests := requests })) := by
  obtain ⟨s, hp, rfl⟩ := Option.map_eq_some_iff.mp hs
  refine ⟨s, hp, ?_⟩
  by_cases hnull : s.lua = none
  · exact .inl ⟨hnull, by simp only [if_pos hnull]⟩
  obtain ⟨hpd, t, id, ht, hid⟩ := hrule
  obtain rfl := Option.some.inj (hp.symm.trans ht)
  obtain ⟨f, hf⟩ := h.created p s hp
  obtain ⟨t, ht, hfac⟩ := h.alive f p ⟨hf, hpd⟩
  obtain rfl := Option.some.inj (hp.symm.trans ht)
  obtain ⟨r, hr⟩ := h.held f p s ⟨hf, hpd⟩ hp hnull
  right
  by_cases hd : b.destroying = none
  · have hmem := (h.lists f r (serves_of_idle hd hr)).2
    have halone : ∀ q ∈ r.scripts.items, ∃ t, b.scripts q = some t ∧ (t.id = s.id → q = p) := by
      intro q hq
      have hhas := (hmem q).mp hq
      obtain ⟨t, ht, _⟩ := h.alive f q hhas
      exact ⟨t, ht, fun he => h.ids q p t s id ht hp hhas.2 hpd (he.trans hid) hid⟩
    obtain ⟨i, hi, hremove⟩ := removeScript_found (b := { b with detached := p :: b.detached }) hr hp
      ((hmem p).mpr ⟨hf, hpd⟩) halone
    refine ⟨hnull, f, r, i, if isTable then p :: b.requests else b.requests, ⟨hf, hpd⟩, hr, fun _ => ⟨hi, ?_⟩⟩
    simp only [if_neg hnull, hfac, hremove]
    cases isTable <;> rfl
  · exact ⟨hnull, f, r, 0, [], ⟨hf, hpd⟩, hr, fun he => absurd he hd⟩

theorem Invariant.detach {isTable : Bool} (h : Invariant b) (hrule : EngineRules b (.detach p isTable))
    (hd : ∀ d ∈ b.destroying, p ∈ d.loop.visited) (hs : b.detach p isTable = some b') : Invariant b' := by
  obtain ⟨s, hp, ⟨hnull, rfl⟩ | ⟨hlua, f, r, i, requests, hf, hr, hidle⟩⟩ := h.detach_cases hrule hs
  · exact h.detachOnly hp hnull hd
  · cases hdest : b.destroying with
    | none =>
      obtain ⟨hi, rfl⟩ := hidle hdest
      exact h.detachHeld hdest hp hf hr hi _ requests
    | some d =>
      exact absurd ((h.closing d hdest).cleared p (hd d hdest) s hp) hlua

/-! ## Destructors -/

theorem Invariant.destroy (h : Invariant b) (hd : b.destroying = none) (hs : b.destroy f = some b') :
    Invariant b' := by
  obtain ⟨r, hr, rfl⟩ := Option.map_eq_some_iff.mp hs
  obtain ⟨hnodup, hmem⟩ := h.lists f r (serves_of_idle hd hr)
  refine ⟨h.defined, h.factories, h.creators, h.created, h.detached, h.alive, h.ids, ?_, ?_, h.held, ?_, h.finished⟩
  · exact fun g r' hg => h.lists g r' (serves_of_idle hd hg.1)
  · exact fun g r' p s hg => h.handled g r' p s (serves_of_idle hd hg.1)
  · intro d hd'
    obtain rfl := Option.some.inj hd'
    refine ⟨⟨r, hr, RangeLoop.tracks_begin, rfl⟩, hnodup, hmem, fun p hp => hp, ?_, ?_⟩
    · exact fun p hp => absurd hp List.not_mem_nil
    · exact fun p hp _ => ((hmem p).mp hp).2

theorem Invariant.visit (h : Invariant b) (hd : b.destroying = some d) (hs : b.visit d = some b') :
    Invariant b' := by
  have hc := h.closing d hd
  obtain ⟨r, hr, htracks, hitems⟩ := hc.live
  simp only [Books.visit, hr, Option.bind_some, if_pos htracks.usable] at hs
  obtain ⟨l, henter, hs⟩ := Option.bind_eq_some_iff.mp hs
  obtain ⟨_, _, p, hp, hvisited⟩ := RangeLoop.enter_visited henter
  have htracks' := htracks.enter henter
  have hstart := RangeLoop.enter_start henter
  rw [hitems] at hp
  -- the script has not been visited before, so it has not been detached
  have hnew : p ∉ d.loop.visited := by
    have hnodup := htracks'.visited_prefix.sublist.nodup (hstart ▸ hc.nodup)
    rw [hvisited, List.nodup_append] at hnodup
    exact fun hm => hnodup.2.2 p hm p (List.mem_singleton_self p) rfl
  have hhas : b.Has d.factory p := ⟨((hc.members p).mp hp).1, hc.waiting p hp hnew⟩
  obtain ⟨s, hscript, hfac⟩ := h.alive d.factory p hhas
  simp only [hvisited, List.getLast?_append, List.getLast?_singleton, Option.some_or, Option.map_some, hscript] at hs
  obtain rfl := Option.some.inj hs
  have hset := h.setScript { s with lua := none, myFactory := some d.factory } (p :: b.requests) hscript
    (fun g hg => congrArg some (Option.some.inj (hhas.1.symm.trans hg.1))) (.inr ⟨rfl, fun g r' => ?_⟩)
    (fun q t id hne hq hqd hpd hid ht => hne (h.ids q p t s id hq hscript hqd hpd ht hid))
  · have hclosing := hset.closing d hd
    refine hset.setLoop hd ⟨⟨r, hr, htracks', hitems.trans hstart.symm⟩, ?_, ?_, hc.before, ?_, ?_⟩
    · rw [hstart]
      exact hc.nodup
    · rw [hstart]
      exact hc.members
    · intro q hq t ht
      rw [hvisited] at hq
      rcases List.mem_append.mp hq with hq | hq
      · exact hclosing.cleared q hq t ht
      · rw [List.mem_singleton.mp hq] at ht
        simp only [Function.update_self] at ht
        obtain rfl := Option.some.inj ht
        rfl
    · intro q hq hnot
      rw [hstart] at hq
      refine hc.waiting q hq fun hm => hnot ?_
      rw [hvisited]
      exact List.mem_append_left _ hm
  · by_cases hg : b.creator p = some g
    · refine .inl fun hserves => ?_
      exact hserves.2 d hd (Option.some.inj (hhas.1.symm.trans hg))
    · exact .inr hg

theorem Invariant.visitReturns (h : Invariant b) (hd : b.destroying = some d)
    (hs : b.visitReturns d = some b') : Invariant b' := by
  have hc := h.closing d hd
  obtain ⟨r, hr, htracks, hitems⟩ := hc.live
  simp only [Books.visitReturns, hr, Option.bind_some, if_pos htracks.usable] at hs
  obtain ⟨hbody, hs⟩ := Option.ite_none_right_eq_some.mp hs
  obtain rfl := Option.some.inj hs
  exact h.setLoop hd ⟨⟨r, hr, htracks.advance hbody, hitems⟩, hc.nodup, hc.members, hc.before, hc.cleared, hc.waiting⟩

theorem Invariant.destroyed (h : Invariant b) (hd : b.destroying = some d) (hs : b.destroyed d = some b') :
    Invariant b' := by
  have hc := h.closing d hd
  obtain ⟨r, hr, htracks, hitems⟩ := hc.live
  simp only [Books.destroyed, hr, Option.bind_some, if_pos htracks.usable] at hs
  obtain ⟨hbody, hs⟩ := Option.ite_none_left_eq_some.mp hs
  obtain ⟨hend, hs⟩ := Option.ite_none_right_eq_some.mp hs
  obtain rfl := Option.some.inj hs
  have hall : d.loop.visited = d.loop.start := htracks.finished (by simpa using hbody) hend
  have hserves : ∀ {g r'}, g ≠ d.factory → b.factories g = some r' → b.Serves g r' := by
    intro g r' hne hg
    refine ⟨hg, fun d' hd' => ?_⟩
    rw [hd] at hd'
    obtain rfl := Option.some.inj hd'
    exact hne.symm
  refine ⟨h.defined, ?_, h.creators, h.created, h.detached, h.alive, h.ids, ?_, ?_, ?_, ?_, ?_⟩
  · exact fun g r' hg => h.factories g r' (update_none_iff.mp hg).2
  · rintro g r' ⟨hg, _⟩
    obtain ⟨hne, hg⟩ := update_none_iff.mp hg
    exact h.lists g r' (hserves hne hg)
  · rintro g r' p s ⟨hg, _⟩
    obtain ⟨hne, hg⟩ := update_none_iff.mp hg
    exact h.handled g r' p s (hserves hne hg)
  · intro g p s hp hscript hlua
    obtain ⟨r', hr'⟩ := h.held g p s hp hscript hlua
    have hne : g ≠ d.factory := by
      rintro rfl
      have hmem : p ∈ d.loop.start := (hc.members p).mpr ⟨hp.1, fun hm => hp.2 (hc.before p hm)⟩
      exact hlua (hc.cleared p (hall ▸ hmem) s hscript)
    exact ⟨r', update_of_ne_eq_some hne hr'⟩
  · nofun
  · intro d' hd'
    rcases List.mem_cons.mp hd' with rfl | hd'
    · refine ⟨Function.update_self _ _ _, h.factories _ r hr, ?_, ?_⟩
      · exact hall ▸ hc.nodup
      · exact hall ▸ hc.members
    · obtain ⟨hnone, hrest⟩ := h.finished d' hd'
      have hne : d'.factory ≠ d.factory := ne_of_absent hnone hr
      exact ⟨(Function.update_of_ne hne _ _).trans hnone, hrest⟩

theorem Invariant.step {grow : ℕ → ℕ} {a : Act} (h : Invariant b) (hrule : EngineRules b a)
    (hs : b.step grow a = some b') : Invariant b' := by
  unfold Books.step at hs
  cases hd : b.destroying with
  | none =>
    have hidle : ∀ p, ∀ d ∈ b.destroying, p ∈ d.loop.visited :=
      fun p d hd' => absurd hd' (not_destroying hd)
    cases a <;> simp only [hd] at hs
    case register luaHandler =>
      obtain rfl := Option.some.inj hs
      exact h.register hd luaHandler
    case create f => exact h.create hd hs
    case attach p id =>
      obtain ⟨s, hp, rfl⟩ := Option.map_eq_some_iff.mp hs
      rw [← hd]
      exact h.attach hrule hp
    case detach p isTable => exact h.detach hrule (hidle p) hs
    case free p =>
      obtain rfl := Option.some.inj hs
      rw [← hd]
      exact h.free hrule
    case destroy f => exact h.destroy hd hs
    all_goals cases hs
  | some d =>
    cases a <;> simp only [hd] at hs
    case detach p isTable =>
      obtain ⟨⟨_, hlast⟩, hs⟩ := Option.ite_none_right_eq_some.mp hs
      refine h.detach hrule (fun d' hd' => ?_) hs
      rw [hd] at hd'
      obtain rfl := Option.some.inj hd'
      exact List.mem_of_getLast? hlast
    case free p =>
      obtain rfl := Option.some.inj hs
      rw [← hd]
      exact h.free hrule
    case visit => exact h.visit hd hs
    case visitReturns => exact h.visitReturns hd hs
    case destroyed => exact h.destroyed hd hs
    all_goals cases hs

theorem Invariant.kept (h : Invariant b) : b.Kept := by
  refine ⟨?_, ?_, ?_, ?_, ?_, h.defined⟩
  · exact fun f r hf hd => h.lists f r ⟨hf, hd⟩
  · exact fun f r p _ hp => h.alive f p hp
  · intro d hd
    obtain ⟨r, hr, htracks, hitems⟩ := (h.closing d hd).live
    exact ⟨r, hr, hitems, htracks.usable, htracks.visited_prefix⟩
  · exact fun d hd => (h.finished d hd).2.2
  · intro f p isTable b' hf hp hs
    obtain ⟨s, hscript, rfl⟩ := Option.map_eq_some_iff.mp hs
    have hnull : s.lua = none := by
      by_contra hlua
      obtain ⟨r, hr⟩ := h.held f p s hp hscript hlua
      rw [hf] at hr
      cases hr
    simp only [if_pos hnull, and_self]

end Step

/-- **Registrant bookkeeping.** -/
theorem registrant_books {grow : ℕ → ℕ} {b : Books} (hr : (system grow).Reaches EngineRules b) : b.Kept := by
  have hinv : Invariant b := by
    refine hr.invariant (fun b hb => ?_) fun b a b' hi hrule hs => hi.step hrule hs
    obtain rfl : b = initial := hb
    exact invariant_initial
  exact hinv.kept

/-- A registrant with one script is destroyed, and `Destroy_Script` detaches the script there. -/
theorem registrant_books_destroyed : ∃ b : Books, b.finished.map (·.loop.visited) = [[0]] ∧
    b.detached = [0] ∧ b.factories 0 = none ∧ b.Kept := by
  have hstart : (system id).Reaches EngineRules initial := .start rfl
  have hcreated := hstart.exec [.register 0, .create 0] ⟨trivial, trivial, trivial⟩ rfl
  have hattached := hcreated.next (a := Act.attach 0 7) ?_ rfl
  · have hdetached := hattached.exec [.destroy 0, .visit, .detach 0 true, .visitReturns, .destroyed]
      ⟨trivial, trivial, ⟨List.not_mem_nil, _, 7, rfl, rfl⟩, trivial, trivial, trivial⟩ rfl
    exact ⟨_, rfl, rfl, rfl, registrant_books hdetached⟩
  · intro q s hq _ hid
    by_cases he : q = 0
    · subst he
      obtain rfl := Option.some.inj hq
      cases hid
    · have hnone := (Function.update_of_ne he _ _).symm.trans hq
      cases hnone

end LuaTT.RegistrantBooks
