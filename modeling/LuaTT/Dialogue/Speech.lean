import Mathlib.Data.List.Chain
import LuaTT.Dialogue.Flags

/-! When a soldier speaks. The engine delivers a timer at most once and not before it is due, and a soldier that
has been killed stays dead. -/
namespace LuaTT.Dialogue
open Lua Transition
set_option autoImplicit false

/-! ## The engine's schedule -/

structure Scheduled where
  script : State
  killed : Bool

/-- What the engine does: no timer is early, and from the event `Killed` on the soldier is dead. -/
def Scheduled.allows (s : Scheduled) : Event → Bool
  | .timerExpired i _ => s.script.timers[i]?.all fun t => t.due ≤ s.script.now
  | .killed _ => s.script.dead
  | .setDead b => b || !s.killed
  | _ => true

def Event.isKilled : Event → Bool
  | .killed _ => true
  | _ => false

def Scheduled.step (d : Definitions) (s : Scheduled) (a : Act) : Option Scheduled :=
  if s.allows a.event then (s.script.step d a).map fun script => ⟨script, s.killed || a.event.isKilled⟩
  else none

/-- A script on a soldier that belongs to no player, under the engine's schedule. -/
def schedule (d : Definitions) : System Scheduled Act where
  init s := (∃ hibernating dead aiState now, created true false hibernating dead aiState now = some s.script) ∧
    s.killed = false
  step := Scheduled.step d

namespace State
variable {s s' s'' : State}

/-- The pending timers that end a conversation. -/
def speechTimers (s : State) : List Timer := s.timers.filter (·.number = 2)

/-! ## What the handlers do -/

structure Still (s s' : State) : Prop where
  acting : s'.acting = s.acting
  spoken : s'.spoken = s.spoken
  now : s'.now = s.now
  dead : s'.dead = s.dead
  timers : s'.speechTimers = s.speechTimers

/-- A conversation is started, with the timer that ends it. -/
structure Speaks (type : DialogueType) (s s' : State) : Prop where
  silent : s.acting = false
  dying : s.dead = true → type = .die
  acting : s'.acting = true
  spoken : ∃ sound, s'.spoken = ⟨type, sound, s.now⟩ :: s.spoken
  now : s'.now = s.now
  dead : s'.dead = s.dead
  timers : s'.speechTimers = s.speechTimers ++ [⟨2, s.now + 2⟩]

/-- At most one conversation is started, and none of a dying soldier. -/
def Talks (s s' : State) : Prop := Still s s' ∨ ∃ type, type ≠ .die ∧ Speaks type s s'

theorem Still.refl (s : State) : Still s s := ⟨rfl, rfl, rfl, rfl, rfl⟩

theorem Still.trans (h : Still s s') (h' : Still s' s'') : Still s s'' :=
  ⟨h'.acting.trans h.acting, h'.spoken.trans h.spoken, h'.now.trans h.now, h'.dead.trans h.dead,
    h'.timers.trans h.timers⟩

theorem Still.speaks {type : DialogueType} (h : Still s s') (h' : Speaks type s' s'') : Speaks type s s'' := by
  obtain ⟨sound, hspoken⟩ := h'.spoken
  refine ⟨h.acting.symm.trans h'.silent, ?_, h'.acting, ⟨sound, ?_⟩, h'.now.trans h.now, h'.dead.trans h.dead, ?_⟩
  · rw [← h.dead]
    exact h'.dying
  · rw [hspoken, h.spoken, h.now]
  · rw [h'.timers, h.timers, h.now]

theorem Speaks.still {type : DialogueType} (h : Speaks type s s') (h' : Still s' s'') : Speaks type s s'' := by
  obtain ⟨sound, hspoken⟩ := h.spoken
  exact ⟨h.silent, h.dying, h'.acting.trans h.acting, ⟨sound, h'.spoken.trans hspoken⟩, h'.now.trans h.now,
    h'.dead.trans h.dead, h'.timers.trans h.timers⟩

theorem Talks.refl (s : State) : Talks s s := .inl (.refl s)

/-- Who has begun to speak does not begin again. -/
theorem Talks.trans (h : Talks s s') (h' : Talks s' s'') : Talks s s'' := by
  cases h with
  | inl hstill =>
    cases h' with
    | inl hstill' => exact .inl (hstill.trans hstill')
    | inr hspeaks' =>
      obtain ⟨type, hne, hspeaks'⟩ := hspeaks'
      exact .inr ⟨type, hne, hstill.speaks hspeaks'⟩
  | inr hspeaks =>
    obtain ⟨type, hne, hspeaks⟩ := hspeaks
    cases h' with
    | inl hstill' => exact .inr ⟨type, hne, hspeaks.still hstill'⟩
    | inr hspeaks' =>
      obtain ⟨_, _, hspeaks'⟩ := hspeaks'
      have hacting := hspeaks.acting
      rw [hspeaks'.silent] at hacting
      cases hacting

theorem speechTimers_startTimer (s : State) (duration : ℚ) (n : ℤ) :
    (s.startTimer duration n).speechTimers =
      s.speechTimers ++ if n = 2 then [⟨2, s.now + duration⟩] else [] := by
  unfold speechTimers startTimer
  rw [List.filter_append]
  by_cases hn : n = 2
  · subst hn
    simp
  · simp [hn]

theorem still_startTimer {duration : ℚ} {n : ℤ} (hn : n ≠ 2) (s : State) : Still s (s.startTimer duration n) := by
  refine ⟨rfl, rfl, rfl, rfl, ?_⟩
  rw [speechTimers_startTimer, if_neg hn, List.append_nil]

section Handlers
variable (d : Definitions) (getRandom : DialogueType → ℚ → ℚ → ℚ)

theorem act_cases (type : DialogueType) (s : State) :
    Still s (s.act d getRandom type) ∨ Speaks type s (s.act d getRandom type) := by
  unfold act
  by_cases hsilent : (s.hibernating || type = .dialogueTypeNone || s.acting || s.star) = true
  · rw [if_pos hsilent]
    exact .inl (.refl s)
  rw [if_neg hsilent]
  by_cases hdead : (s.dead && type ≠ .die) = true
  · rw [if_pos hdead]
    exact .inl (.refl s)
  rw [if_neg hdead]
  have hacting : s.acting = false := by
    cases ha : s.acting with
    | false => rfl
    | true => simp [ha] at hsilent
  have hdying : s.dead = true → type = .die := by
    intro hd
    by_contra hne
    simp [hd, hne] at hdead
  -- the flag of a sighting comes before there is something to say
  have hspeak : ∀ u : State, Still s u → ∀ name, Speaks type s ({ u with
      acting := true, spoken := ⟨type, name ++ bytes ".wav", u.now⟩ :: u.spoken }.startTimer 2 2) := by
    intro u hu name
    refine ⟨hacting, hdying, rfl, ⟨name ++ bytes ".wav", ?_⟩, hu.now, hu.dead, ?_⟩
    · change _ :: u.spoken = _
      rw [hu.spoken, hu.now]
    · rw [speechTimers_startTimer, if_pos rfl]
      change u.speechTimers ++ [⟨2, u.now + 2⟩] = _
      rw [hu.timers, hu.now]
  have hraised : ∀ {u : State} (n : ℤ), n ≠ 2 → Still s u → Still s (u.startTimer 3 n) :=
    fun n hn hu => hu.trans (still_startTimer hn _)
  rcases (d.dialogue type).getRandomConversation d.findConversation (getRandom type) with _ | name
  on_goal 1 => apply Or.inl
  on_goal 2 => apply Or.inr (hspeak _ _ name)
  all_goals
    cases type with
    | sawFriend => exact hraised 4 (by decide) ⟨rfl, rfl, rfl, rfl, rfl⟩
    | sawEnemy => exact hraised 3 (by decide) ⟨rfl, rfl, rfl, rfl, rfl⟩
    | _ => exact .refl s

theorem act_talks {type : DialogueType} (hne : type ≠ .die) (s : State) : Talks s (s.act d getRandom type) :=
  (act_cases d getRandom type s).imp_right fun h => ⟨type, hne, h⟩

theorem stateChanged_talks (before after : SoldierAIState) (s : State) :
    Talks s (s.stateChanged d getRandom before after) := by
  have hstate : Still s { s with lastState := after } := ⟨rfl, rfl, rfl, rfl, rfl⟩
  have hchange : changeType before after ≠ .die := by
    unfold changeType
    split <;> decide
  unfold stateChanged
  by_cases hne : before ≠ after
  · rw [if_pos hne]
    simp only
    split_ifs
    · exact .inl hstate
    · exact Talks.trans (.inl hstate) (act_talks d getRandom hchange _)
  · rw [if_neg hne]
    exact .refl s

theorem sendCustomEvent_still (s : State) (receiver type : ℤ) : Still s (s.sendCustomEvent receiver type) :=
  ⟨rfl, rfl, rfl, rfl, rfl⟩

theorem damaged_talks (damager : Option Other) (amount hitpoints : Float32) (s : State) :
    Talks s (s.damaged d getRandom damager amount hitpoints) := by
  unfold damaged
  cases damager with
  | none => exact .refl s
  | some damager =>
    simp only
    split_ifs
    · exact .refl s
    · exact (act_talks d getRandom (by decide) s).trans (.inl (sendCustomEvent_still _ _ _))
    · exact (act_talks d getRandom (by decide) s).trans (.inl (sendCustomEvent_still _ _ _))

theorem poked_talks (s : State) : Talks s (s.poked d getRandom) := by
  unfold poked
  split_ifs
  · exact .refl s
  · cases s.lastState with
    | other n => exact .refl s
    | _ => exact act_talks d getRandom (by decide) s

theorem lookForFriends_talks (s : State) (stars : List (Option Star)) :
    Talks s (s.lookForFriends d getRandom stars) := by
  induction stars with
  | nil => exact .refl s
  | cons star stars ih =>
    cases star with
    | none => exact ih
    | some star =>
      simp only [lookForFriends]
      split_ifs
      · exact ih
      · exact act_talks d getRandom (by decide) s
      · exact ih

theorem enemySeen_talks (s : State) : Talks s (s.enemySeen d getRandom) := by
  unfold enemySeen
  split_ifs
  · exact act_talks d getRandom (by decide) s
  · exact .refl s

theorem custom_talks (type : ℤ) (s : State) : Talks s (s.custom d getRandom type) := by
  unfold custom
  split_ifs
  · exact act_talks d getRandom (by decide) s
  · exact act_talks d getRandom (by decide) s
  · exact act_talks d getRandom (by decide) s
  · exact .inl ⟨rfl, rfl, rfl, rfl, rfl⟩
  · exact act_talks d getRandom (by decide) s
  · exact .refl s

/-- The end of a conversation is the matter of timer 2 alone. -/
theorem timerExpired_talks {number : ℤ} (hn : number ≠ 2) (stars : List (Option Star)) (s : State) :
    Talks s (s.timerExpired d getRandom number stars) := by
  unfold timerExpired
  by_cases h1 : number = 1
  · rw [if_pos h1]
    have hlook : ∀ v : State, Talks v
        (if !v.hibernating && !v.sawFriend then v.lookForFriends d getRandom stars else v) := by
      intro v
      split_ifs
      · exact lookForFriends_talks d getRandom v stars
      · exact .refl v
    apply Talks.trans (stateChanged_talks d getRandom s.lastState s.aiState s)
    apply Talks.trans (hlook _)
    exact .inl (still_startTimer (by decide) _)
  rw [if_neg h1, if_neg hn]
  split_ifs
  · exact .inl ⟨rfl, rfl, rfl, rfl, rfl⟩
  · exact .inl ⟨rfl, rfl, rfl, rfl, rfl⟩
  · exact .refl s

theorem timerExpired_two (stars : List (Option Star)) (s : State) :
    Talks { s with acting := false } (s.timerExpired d getRandom 2 stars) := by
  have hone : ¬ (2 : ℤ) = 1 := by omega
  rw [timerExpired, if_neg hone, if_pos rfl]
  simp only
  split_ifs
  · exact (act_talks d getRandom (by decide) _).trans (.inl ⟨rfl, rfl, rfl, rfl, rfl⟩)
  · exact .refl _

theorem killed_spoken (killer : Option Other) (s : State) :
    (s.killed d getRandom killer).dead = s.dead ∧ ((s.killed d getRandom killer).spoken = s.spoken ∨
      ∃ sound, (s.killed d getRandom killer).spoken = ⟨.die, sound, s.now⟩ :: s.spoken) := by
  unfold killed
  cases killer with
  | none => exact ⟨rfl, .inl rfl⟩
  | some killer =>
    simp only
    split_ifs
    · exact ⟨rfl, .inl rfl⟩
    all_goals
      cases act_cases d getRandom .die { s.sendCustomEvent _ _ with acting := false } with
      | inl h => exact ⟨h.dead, .inl h.spoken⟩
      | inr h => exact ⟨h.dead, .inr h.spoken⟩

end Handlers

/-! ## Time between conversations -/

/-- Two time units pass before a conversation other than `DIE`; the latest comes first. -/
def Spaced (s : State) : Prop :=
  s.spoken.IsChain fun later earlier => later.type ≠ .die → earlier.time + 2 ≤ later.time

/-- While the soldier is alive the timer that ends the last conversation is pending, or that is over. -/
inductive Paced (s : State) : Prop
  | silent (acting : s.acting = false) (timers : s.speechTimers = [])
      (ended : ∀ sp ∈ s.spoken.head?, sp.time + 2 ≤ s.now) : Paced s
  | speaking (t : Timer) (acting : s.acting = true) (timers : s.speechTimers = [t])
      (due : ∀ sp ∈ s.spoken.head?, sp.time + 2 ≤ t.due) : Paced s

theorem Paced.still (h : Paced s) (hs : Still s s') : Paced s' := by
  cases h with
  | silent acting timers ended =>
    refine .silent (hs.acting.trans acting) (hs.timers.trans timers) ?_
    rw [hs.spoken, hs.now]
    exact ended
  | speaking t acting timers due =>
    refine .speaking t (hs.acting.trans acting) (hs.timers.trans timers) ?_
    rw [hs.spoken]
    exact due

theorem Paced.ended (h : Paced s) (ha : s.acting = false) :
    s.speechTimers = [] ∧ ∀ sp ∈ s.spoken.head?, sp.time + 2 ≤ s.now := by
  cases h with
  | silent _ timers ended => exact ⟨timers, ended⟩
  | speaking t acting _ _ =>
    rw [ha] at acting
    cases acting

theorem Paced.speaks {type : DialogueType} (h : Paced s) (hs : Speaks type s s') : Paced s' := by
  obtain ⟨sound, hspoken⟩ := hs.spoken
  refine .speaking ⟨2, s.now + 2⟩ hs.acting ?_ ?_
  · rw [hs.timers, (h.ended hs.silent).1, List.nil_append]
  · rw [hspoken]
    intro sp hsp
    obtain rfl := Option.some.inj hsp
    exact le_refl _

theorem Paced.talks (h : Paced s) (ht : Talks s s') : Paced s' := by
  cases ht with
  | inl hstill => exact h.still hstill
  | inr hspeaks =>
    obtain ⟨_, _, hspeaks⟩ := hspeaks
    exact h.speaks hspeaks

/-- A delivery takes one timer away. -/
theorem speechTimers_erase {i : ℕ} {t : Timer} (hi : s.timers[i]? = some t) :
    List.Perm (if t.number = 2 then t :: { s with timers := s.timers.eraseIdx i }.speechTimers
      else { s with timers := s.timers.eraseIdx i }.speechTimers) s.speechTimers := by
  obtain ⟨hlt, rfl⟩ := List.getElem?_eq_some_iff.mp hi
  have hperm := (List.getElem_cons_eraseIdx_perm hlt).filter fun t => t.number = 2
  rw [List.filter_cons] at hperm
  simpa [speechTimers] using hperm

theorem Paced.erase_other {i : ℕ} {t : Timer} (h : Paced s) (hi : s.timers[i]? = some t)
    (hn : t.number ≠ 2) : Paced { s with timers := s.timers.eraseIdx i } := by
  have hperm := speechTimers_erase hi
  rw [if_neg hn] at hperm
  cases h with
  | silent acting timers ended =>
    rw [timers] at hperm
    exact .silent acting hperm.eq_nil ended
  | speaking t acting timers due =>
    rw [timers] at hperm
    exact .speaking t acting (List.perm_singleton.mp hperm) due

/-- The timer of the last conversation is delivered. -/
theorem Paced.erase_two {i : ℕ} {t : Timer} (h : Paced s) (hi : s.timers[i]? = some t)
    (hn : t.number = 2) (hdue : t.due ≤ s.now) :
    Paced { s with timers := s.timers.eraseIdx i, acting := false } := by
  have hperm := speechTimers_erase hi
  rw [if_pos hn] at hperm
  cases h with
  | silent acting timers ended =>
    rw [timers] at hperm
    cases hperm.eq_nil
  | speaking t' acting timers due =>
    rw [timers] at hperm
    obtain ⟨rfl, hnone⟩ := List.cons.inj (List.perm_singleton.mp hperm)
    refine .silent rfl hnone ?_
    intro sp hsp
    exact (due sp hsp).trans hdue

theorem Spaced.talks (h : Spaced s) (hp : Paced s) (ht : Talks s s') : Spaced s' := by
  cases ht with
  | inl hstill =>
    rw [Spaced, hstill.spoken]
    exact h
  | inr hspeaks =>
    obtain ⟨type, _, hspeaks⟩ := hspeaks
    obtain ⟨sound, hspoken⟩ := hspeaks.spoken
    rw [Spaced, hspoken, List.isChain_cons]
    refine ⟨?_, h⟩
    intro sp hsp _
    exact (hp.ended hspeaks.silent).2 sp hsp

theorem Talks.spoken_of_dead (ht : Talks s s') (hd : s.dead = true) : s'.spoken = s.spoken := by
  cases ht with
  | inl hstill => exact hstill.spoken
  | inr hspeaks =>
    obtain ⟨type, hne, hspeaks⟩ := hspeaks
    exact absurd (hspeaks.dying hd) hne

theorem Talks.dead (ht : Talks s s') : s'.dead = s.dead := by
  cases ht with
  | inl hstill => exact hstill.dead
  | inr hspeaks =>
    obtain ⟨_, _, hspeaks⟩ := hspeaks
    exact hspeaks.dead

/-- Nothing but `DIE` is said in between. -/
def OnlyDies (s s' : State) : Prop :=
  ∃ new, s'.spoken = new ++ s.spoken ∧ ∀ sp ∈ new, sp.type = .die

theorem OnlyDies.of_eq (h : s'.spoken = s.spoken) : OnlyDies s s' :=
  ⟨[], h, fun _ hsp => absurd hsp List.not_mem_nil⟩

theorem onlyDies_killed (d : Definitions) (getRandom : DialogueType → ℚ → ℚ → ℚ) (killer : Option Other)
    (s : State) : OnlyDies s (s.killed d getRandom killer) := by
  cases (killed_spoken d getRandom killer s).2 with
  | inl hsame => exact .of_eq hsame
  | inr hdie =>
    obtain ⟨sound, hspoken⟩ := hdie
    refine ⟨[⟨.die, sound, s.now⟩], hspoken, ?_⟩
    intro sp hsp
    rw [List.mem_singleton.mp hsp]

theorem Spaced.onlyDies (h : Spaced s) (ho : OnlyDies s s') : Spaced s' := by
  obtain ⟨new, hspoken, hdie⟩ := ho
  rw [Spaced, hspoken]
  clear hspoken
  induction new with
  | nil => exact h
  | cons sp new ih =>
    rw [List.cons_append, List.isChain_cons]
    exact ⟨fun _ _ hne => absurd (hdie sp List.mem_cons_self) hne,
      ih fun sp hsp => hdie sp (List.mem_cons_of_mem _ hsp)⟩

/-! ## Steps -/

/-- What changes before a handler says anything. -/
inductive Prepares (s : State) : State → Prop
  | still {u : State} (h : Still s u) : Prepares s u
  | delivered {i : ℕ} {t : Timer} (hi : s.timers[i]? = some t) (hn : t.number ≠ 2) :
    Prepares s { s with timers := s.timers.eraseIdx i }
  | ended {i : ℕ} {t : Timer} (hi : s.timers[i]? = some t) (hn : t.number = 2) (hdue : t.due ≤ s.now) :
    Prepares s { s with timers := s.timers.eraseIdx i, acting := false }
  | setDead (b : Bool) : Prepares s { s with dead := b }
  | wait {t : ℚ} (ht : 0 ≤ t) : Prepares s { s with now := s.now + t }

theorem Prepares.spoken {u : State} (h : Prepares s u) : u.spoken = s.spoken := by
  cases h with
  | still h => exact h.spoken
  | _ => rfl

theorem Paced.prepares {u : State} (h : Paced s) (hu : Prepares s u) : Paced u := by
  cases hu with
  | still hs => exact h.still hs
  | delivered hi hn => exact h.erase_other hi hn
  | ended hi hn hdue => exact h.erase_two hi hn hdue
  | setDead b =>
    cases h with
    | silent acting timers ended => exact .silent acting timers ended
    | speaking t acting timers due => exact .speaking t acting timers due
  | wait ht =>
    cases h with
    | silent acting timers ended =>
      refine .silent acting timers fun sp hsp => ?_
      have hended := ended sp hsp
      change sp.time + 2 ≤ s.now + _
      linarith
    | speaking t acting timers due => exact .speaking t acting timers due

end State

open State

/-- Every event but `Killed` lets the soldier talk; only the engine revives it. -/
theorem step_prepares {d : Definitions} {s : Scheduled} {a : Act} {s' : State}
    (hallows : s.allows a.event = true) (hk : a.event.isKilled = false) (hs : s.script.step d a = some s') :
    ∃ u, Prepares s.script u ∧ Talks u s' ∧
      (s.script.dead = true → (∀ b, a.event = .setDead b → b = true) → u.dead = true) := by
  obtain ⟨event, getRandom⟩ := a
  have hhandled : ∀ {u : State}, Talks s.script u → ∃ u', Prepares s.script u' ∧ Talks u' u ∧
      (s.script.dead = true → (∀ b, event = .setDead b → b = true) → u'.dead = true) :=
    fun ht => ⟨s.script, .still (.refl _), ht, fun hd _ => hd⟩
  cases event with
  | killed killer => cases hk
  | damaged damager amount hitpoints =>
    obtain rfl := Option.some.inj hs
    exact hhandled (damaged_talks d getRandom damager amount hitpoints s.script)
  | poked =>
    obtain rfl := Option.some.inj hs
    exact hhandled (poked_talks d getRandom s.script)
  | custom type =>
    obtain rfl := Option.some.inj hs
    exact hhandled (custom_talks d getRandom type s.script)
  | enemySeen =>
    obtain rfl := Option.some.inj hs
    exact hhandled (enemySeen_talks d getRandom s.script)
  | timerExpired i stars =>
    obtain ⟨t, hi, rfl⟩ := Option.map_eq_some_iff.mp hs
    have hdue : t.due ≤ s.script.now := by
      simp only [Scheduled.allows, hi, Option.all_some, decide_eq_true_eq] at hallows
      exact hallows
    by_cases hn : t.number = 2
    · refine ⟨_, .ended hi hn hdue, ?_, fun hd _ => hd⟩
      rw [hn]
      exact timerExpired_two d getRandom stars { s.script with timers := s.script.timers.eraseIdx i }
    · exact ⟨_, .delivered hi hn, timerExpired_talks d getRandom hn stars _, fun hd _ => hd⟩
  | setAIState aiState | setHibernating b =>
    obtain rfl := Option.some.inj hs
    exact hhandled (.inl ⟨rfl, rfl, rfl, rfl, rfl⟩)
  | setDead b =>
    obtain rfl := Option.some.inj hs
    exact ⟨_, .setDead b, .refl _, fun _ hb => hb b rfl⟩
  | wait t =>
    simp only [State.step] at hs
    split_ifs at hs with ht
    obtain rfl := Option.some.inj hs
    exact ⟨_, .wait ht, .refl _, fun hd _ => hd⟩

/-- Conversations are apart; a soldier not yet killed keeps the pace, and one that has been is dead. -/
structure Scheduled.Orderly (s : Scheduled) : Prop where
  spaced : Spaced s.script
  paced : s.killed = false → Paced s.script
  dead : s.killed = true → s.script.dead = true

theorem scheduled_step {d : Definitions} {s s' : Scheduled} {a : Act} (hs : s.step d a = some s') :
    s.allows a.event = true ∧ s.script.step d a = some s'.script ∧
      s'.killed = (s.killed || a.event.isKilled) := by
  unfold Scheduled.step at hs
  split_ifs at hs with hallows
  obtain ⟨script, hscript, rfl⟩ := Option.map_eq_some_iff.mp hs
  exact ⟨hallows, hscript, rfl⟩

/-- Who has been killed by the end of a step stays dead, and says nothing else in it. -/
theorem Scheduled.Orderly.killed_step {d : Definitions} {s s' : Scheduled} {a : Act} (h : s.Orderly)
    (hs : s.step d a = some s') (hk : s'.killed = true) :
    s'.script.dead = true ∧ OnlyDies s.script s'.script := by
  obtain ⟨hallows, hscript, hkilled⟩ := scheduled_step hs
  cases hevent : a.event.isKilled with
  | true =>
    obtain ⟨event, getRandom⟩ := a
    cases event with
    | killed killer =>
      have hs' := (Option.some.inj hscript).symm
      have hdead : s.script.dead = true := hallows
      rw [hs', (killed_spoken d getRandom killer s.script).1]
      exact ⟨hdead, onlyDies_killed d getRandom killer s.script⟩
    | _ => cases hevent
  | false =>
    have hdead : s.killed = true := by simpa [hevent, hk] using hkilled.symm
    obtain ⟨u, hu, htalks, hkeeps⟩ := step_prepares hallows hevent hscript
    have hudead : u.dead = true := by
      apply hkeeps (h.dead hdead)
      intro b hb
      rw [hb] at hallows
      simpa [Scheduled.allows, hdead] using hallows
    exact ⟨htalks.dead.trans hudead, .of_eq ((htalks.spoken_of_dead hudead).trans hu.spoken)⟩

theorem Scheduled.Orderly.step {d : Definitions} {s s' : Scheduled} {a : Act} (h : s.Orderly)
    (hs : s.step d a = some s') : s'.Orderly := by
  cases hk : s'.killed with
  | true =>
    obtain ⟨hdead, honly⟩ := h.killed_step hs hk
    refine ⟨h.spaced.onlyDies honly, fun hf => ?_, fun _ => hdead⟩
    rw [hk] at hf
    cases hf
  | false =>
    obtain ⟨hallows, hscript, hkilled⟩ := scheduled_step hs
    rw [hk] at hkilled
    obtain ⟨halive, hevent⟩ := Bool.or_eq_false_iff.mp hkilled.symm
    obtain ⟨u, hu, htalks, _⟩ := step_prepares hallows hevent hscript
    have hpaced : Paced u := (h.paced halive).prepares hu
    have hspaced : Spaced u := by
      rw [Spaced, hu.spoken]
      exact h.spaced
    refine ⟨hspaced.talks hpaced htalks, fun _ => hpaced.talks htalks, fun ht => ?_⟩
    rw [hk] at ht
    cases ht

theorem orderly_init {d : Definitions} {s : Scheduled} (hi : (schedule d).init s) : s.Orderly := by
  obtain ⟨⟨hibernating, dead, aiState, now, hs⟩, hk⟩ := hi
  have hs' := (Option.some.inj hs).symm
  refine ⟨?_, fun _ => ?_, fun ht => ?_⟩
  · rw [Spaced, hs']
    exact .nil
  · rw [hs']
    exact .silent rfl rfl fun sp hsp => by cases hsp
  · rw [hk] at ht
    cases ht

/-- **Speech never overlaps.** -/
theorem speech_spaced (d : Definitions) {s : Scheduled} (hr : (schedule d).Reaches System.anyStep s) :
    s.script.Spaced ∧
      ∀ a s', s.step d a = some s' → s'.killed = true → OnlyDies s.script s'.script := by
  have h : s.Orderly := by
    apply hr.invariant (I := Scheduled.Orderly)
    · exact fun s => orderly_init
    · exact fun s a s' h _ hs => h.step hs
  exact ⟨h.spaced, fun a s' hs hk => (h.killed_step hs hk).2⟩

/-- It sees an enemy and speaks of that for two time units, and then of another. -/
def speaksTwice : List Act :=
  [⟨.enemySeen, fun _ _ m => m⟩, ⟨.wait 2, fun _ _ m => m⟩, ⟨.timerExpired 2 [], fun _ _ m => m⟩,
    ⟨.custom customEventDamagedEnemy, fun _ _ m => m⟩]

theorem speech_spaced_twice : ∃ s, ((created true false false false .idle 0).map fun s => (⟨s, false⟩ : Scheduled)).bind
      (fun s => (schedule talkative).exec s speaksTwice) = some s ∧
    s.script.spoken.map (·.time) = [2, 0] ∧ s.script.Spaced := by
  have hrun : (((created true false false false .idle 0).map fun s => (⟨s, false⟩ : Scheduled)).bind fun s =>
      (schedule talkative).exec s speaksTwice).map (fun s => s.script.spoken.map (·.time)) =
        some [2, 0] := by decide +kernel
  obtain ⟨s', hx, htimes⟩ := Option.map_eq_some_iff.mp hrun
  refine ⟨s', hx, htimes, ?_⟩
  obtain ⟨s, hs, hx⟩ := Option.bind_eq_some_iff.mp hx
  obtain ⟨script, hscript, rfl⟩ := Option.map_eq_some_iff.mp hs
  have hreached : (schedule talkative).Reaches System.anyStep ⟨script, false⟩ :=
    .start ⟨⟨_, _, _, _, hscript⟩, rfl⟩
  exact (speech_spaced talkative (hreached.exec _ (System.along_anyStep _ _) hx)).1

end LuaTT.Dialogue
