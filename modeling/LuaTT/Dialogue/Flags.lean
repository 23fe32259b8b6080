import Mathlib.Data.List.Perm.Basic
import LuaTT.Dialogue.Script

/-! The flags of a dialogue script and the timers that take them back. A flag is raised only with its timer
or while that is pending, and falls only when the timer is delivered. -/
namespace LuaTT.Dialogue
open Lua Transition
set_option autoImplicit false

namespace State
variable {s s' s'' : State}

/-! ## Pending timers -/

theorem pending_startTimer (s : State) (duration : ℚ) (m n : ℤ) :
    (s.startTimer duration m).pending n = s.pending n + if m = n then 1 else 0 := by
  simp only [pending, startTimer, List.countP_append, List.countP_singleton, decide_eq_true_eq]

theorem pending_erase {i : ℕ} {t : Timer} (h : s.timers[i]? = some t) (n : ℤ) :
    s.pending n = { s with timers := s.timers.eraseIdx i }.pending n + if t.number = n then 1 else 0 := by
  obtain ⟨hi, rfl⟩ := List.getElem?_eq_some_iff.mp h
  have hperm := (List.getElem_cons_eraseIdx_perm hi).countP_eq (·.number = n)
  rw [List.countP_cons] at hperm
  simpa [pending] using hperm.symm

/-! ## What `Act` can do -/

/-- New flags have their timers, no timer is taken away, and timer 1 is left alone. -/
structure Acted (s s' : State) : Prop where
  tick : s'.pending 1 = s.pending 1
  grows : ∀ n, s.pending n ≤ s'.pending n
  acting : s'.acting = true → s.acting = true ∨ 0 < s'.pending 2
  sawEnemy : s'.sawEnemy = true → s.sawEnemy = true ∨ 0 < s'.pending 3
  sawFriend : s'.sawFriend = true → s.sawFriend = true ∨ 0 < s'.pending 4
  enemyKilled : s'.enemyKilled = s.enemyKilled

theorem Acted.refl (s : State) : Acted s s :=
  ⟨rfl, fun _ => Nat.le_refl _, .inl, .inl, .inl, rfl⟩

theorem Acted.trans (h : Acted s s') (h' : Acted s' s'') : Acted s s'' where
  tick := h'.tick.trans h.tick
  grows n := Nat.le_trans (h.grows n) (h'.grows n)
  acting ha := by
    rcases h'.acting ha with ha | hp
    · have hgrows := h'.grows 2
      exact (h.acting ha).imp_right fun hp => by omega
    · exact .inr hp
  sawEnemy hs := by
    rcases h'.sawEnemy hs with hs | hp
    · have hgrows := h'.grows 3
      exact (h.sawEnemy hs).imp_right fun hp => by omega
    · exact .inr hp
  sawFriend hs := by
    rcases h'.sawFriend hs with hs | hp
    · have hgrows := h'.grows 4
      exact (h.sawFriend hs).imp_right fun hp => by omega
    · exact .inr hp
  enemyKilled := h'.enemyKilled.trans h.enemyKilled

/-- Flags are raised in `u`, and the timer that takes them back is started. -/
theorem acted_raise {u : State} (duration : ℚ) {n : ℤ} (hn : n ≠ 1) (ht : u.timers = s.timers)
    (hacting : u.acting = true → s.acting = true ∨ n = 2)
    (henemy : u.sawEnemy = true → s.sawEnemy = true ∨ n = 3)
    (hfriend : u.sawFriend = true → s.sawFriend = true ∨ n = 4)
    (hkilled : u.enemyKilled = s.enemyKilled) : Acted s (u.startTimer duration n) := by
  have hpending : ∀ m, (u.startTimer duration n).pending m = s.pending m + if n = m then 1 else 0 := by
    intro m
    rw [pending_startTimer, pending, pending, ht]
  have hraised : ∀ m, n = m → 0 < (u.startTimer duration n).pending m := by
    intro m hm
    rw [hpending, if_pos hm]
    omega
  refine ⟨?_, fun m => ?_, fun ha => (hacting ha).imp_right (hraised 2),
    fun hs => (henemy hs).imp_right (hraised 3), fun hs => (hfriend hs).imp_right (hraised 4), hkilled⟩
  · rw [hpending, if_neg hn, Nat.add_zero]
  · rw [hpending]
    omega

section Handlers
variable (d : Definitions) (getRandom : DialogueType → ℚ → ℚ → ℚ)

theorem act_acted (type : DialogueType) (s : State) : Acted s (s.act d getRandom type) := by
  unfold act
  split_ifs
  · exact .refl s
  · exact .refl s
  · have hspeak : ∀ u name, Acted s u → Acted s ({ u with
        acting := true, spoken := ⟨type, name ++ bytes ".wav", u.now⟩ :: u.spoken }.startTimer 2 2) :=
      fun u name hu => hu.trans (acted_raise 2 (by decide) rfl (fun _ => .inr rfl) .inl .inl rfl)
    rcases (d.dialogue type).getRandomConversation d.findConversation (getRandom type) with _ | name
    on_goal 2 => apply hspeak
    -- What is left, with a conversation or without, is the flag of a sighting and its timer.
    all_goals
      cases type with
      | sawFriend => exact acted_raise 3 (by decide) rfl .inl .inl (fun _ => .inr rfl) rfl
      | sawEnemy => exact acted_raise 3 (by decide) rfl .inl (fun _ => .inr rfl) .inl rfl
      | _ => exact .refl s

theorem stateChanged_acted (before after : SoldierAIState) (s : State) :
    Acted s (s.stateChanged d getRandom before after) := by
  have hstate : Acted s { s with lastState := after } := ⟨rfl, fun _ => Nat.le_refl _, .inl, .inl, .inl, rfl⟩
  unfold stateChanged
  by_cases hne : before ≠ after
  · rw [if_pos hne]
    simp only
    split_ifs
    · exact hstate
    · exact hstate.trans (act_acted d getRandom _ _)
  · rw [if_neg hne]
    exact .refl s

theorem sendCustomEvent_acted (s : State) (receiver type : ℤ) : Acted s (s.sendCustomEvent receiver type) :=
  ⟨rfl, fun _ => Nat.le_refl _, .inl, .inl, .inl, rfl⟩

theorem damaged_acted (damager : Option Other) (amount hitpoints : Float32) (s : State) :
    Acted s (s.damaged d getRandom damager amount hitpoints) := by
  unfold damaged
  cases damager with
  | none => exact .refl s
  | some damager =>
    simp only
    split_ifs
    · exact .refl s
    · exact (act_acted d getRandom _ s).trans (sendCustomEvent_acted _ _ _)
    · exact (act_acted d getRandom _ s).trans (sendCustomEvent_acted _ _ _)

theorem poked_acted (s : State) : Acted s (s.poked d getRandom) := by
  unfold poked
  split_ifs
  · exact .refl s
  · cases s.lastState with
    | other n => exact .refl s
    | _ => exact act_acted d getRandom _ s

theorem lookForFriends_acted (s : State) (stars : List (Option Star)) :
    Acted s (s.lookForFriends d getRandom stars) := by
  induction stars with
  | nil => exact .refl s
  | cons star stars ih =>
    cases star with
    | none => exact ih
    | some star =>
      simp only [lookForFriends]
      split_ifs
      · exact ih
      · exact act_acted d getRandom _ s
      · exact ih

theorem enemySeen_acted (s : State) : Acted s (s.enemySeen d getRandom) := by
  unfold enemySeen
  split_ifs
  · exact act_acted d getRandom _ s
  · exact .refl s

end Handlers

/-! ## The invariant -/

/-- Whatever flag keeps the soldier silent, the timer that takes it back is on its way. -/
structure Recovers (s : State) : Prop where
  tick : s.pending 1 = 1
  acting : s.acting = true → 0 < s.pending 2
  sawEnemy : s.sawEnemy = true → 0 < s.pending 3
  sawFriend : s.sawFriend = true → 0 < s.pending 4
  enemyKilled : s.enemyKilled = true → s.acting = true ∨ 0 < s.pending 2

/-- Flags and timers up to the tick, which a handler of the tick starts again. -/
structure Flags (s : State) : Prop where
  acting : s.acting = true → 0 < s.pending 2
  sawEnemy : s.sawEnemy = true → 0 < s.pending 3
  sawFriend : s.sawFriend = true → 0 < s.pending 4
  enemyKilled : s.enemyKilled = true → 0 < s.pending 2

theorem recovers_iff : s.Recovers ↔ s.pending 1 = 1 ∧ s.Flags := by
  constructor
  · intro h
    exact ⟨h.tick, h.acting, h.sawEnemy, h.sawFriend, fun hk => (h.enemyKilled hk).elim h.acting id⟩
  · rintro ⟨htick, h⟩
    exact ⟨htick, h.acting, h.sawEnemy, h.sawFriend, fun hk => .inr (h.enemyKilled hk)⟩

theorem Flags.acted (h : s.Flags) (ha : Acted s s') : s'.Flags where
  acting hs := (ha.acting hs).elim (fun hs => (h.acting hs).trans_le (ha.grows 2)) id
  sawEnemy hs := (ha.sawEnemy hs).elim (fun hs => (h.sawEnemy hs).trans_le (ha.grows 3)) id
  sawFriend hs := (ha.sawFriend hs).elim (fun hs => (h.sawFriend hs).trans_le (ha.grows 4)) id
  enemyKilled hk := (h.enemyKilled (ha.enemyKilled ▸ hk)).trans_le (ha.grows 2)

theorem Flags.of_pending (h : s.Flags) (hacting : s'.acting = true → s.acting = true)
    (henemy : s'.sawEnemy = true → s.sawEnemy = true) (hfriend : s'.sawFriend = true → s.sawFriend = true)
    (hkilled : s'.enemyKilled = true → s.enemyKilled = true)
    (h2 : s'.pending 2 = s.pending 2) (h3 : s'.pending 3 = s.pending 3) (h4 : s'.pending 4 = s.pending 4) :
    s'.Flags := by
  refine ⟨?_, ?_, ?_, ?_⟩
  · rw [h2]
    exact fun hs => h.acting (hacting hs)
  · rw [h3]
    exact fun hs => h.sawEnemy (henemy hs)
  · rw [h4]
    exact fun hs => h.sawFriend (hfriend hs)
  · rw [h2]
    exact fun hs => h.enemyKilled (hkilled hs)

theorem Flags.startTimer (h : s.Flags) (duration : ℚ) (n : ℤ) : (s.startTimer duration n).Flags := by
  have hgrows : ∀ m, s.pending m ≤ (s.startTimer duration n).pending m := by
    intro m
    rw [pending_startTimer]
    omega
  exact ⟨fun hs => (h.acting hs).trans_le (hgrows 2), fun hs => (h.sawEnemy hs).trans_le (hgrows 3),
    fun hs => (h.sawFriend hs).trans_le (hgrows 4), fun hs => (h.enemyKilled hs).trans_le (hgrows 2)⟩

theorem Recovers.acted (h : s.Recovers) (ha : Acted s s') : s'.Recovers := by
  obtain ⟨htick, hflags⟩ := recovers_iff.mp h
  exact recovers_iff.mpr ⟨ha.tick.trans htick, hflags.acted ha⟩

section Steps
variable (d : Definitions) (getRandom : DialogueType → ℚ → ℚ → ℚ)

theorem Recovers.killed (h : s.Recovers) (killer : Option Other) :
    (s.killed d getRandom killer).Recovers := by
  obtain ⟨htick, hflags⟩ := recovers_iff.mp h
  unfold State.killed
  cases killer with
  | none => exact h
  | some killer =>
    simp only
    split_ifs
    · exact h
    all_goals
      apply Recovers.acted _ (act_acted d getRandom _ _)
      refine recovers_iff.mpr ⟨htick, ?_⟩
      exact hflags.of_pending (fun ha => by cases ha) id id id rfl rfl rfl

/-- Only while the script is acting does the news of a dead enemy wait. -/
theorem Recovers.custom (h : s.Recovers) (type : ℤ) : (s.custom d getRandom type).Recovers := by
  unfold State.custom
  split_ifs with _ _ _ hacting
  · exact h.acted (act_acted d getRandom _ s)
  · exact h.acted (act_acted d getRandom _ s)
  · exact h.acted (act_acted d getRandom _ s)
  · have hacting : s.acting = true := by simpa using hacting
    exact ⟨h.tick, h.acting, h.sawEnemy, h.sawFriend, fun _ => .inl hacting⟩
  · exact h.acted (act_acted d getRandom _ s)
  · exact h

/-- The timer with this number has been taken from the pending ones, for its delivery. -/
theorem Recovers.timerExpired {i : ℕ} {t : Timer} (h : s.Recovers) (hi : s.timers[i]? = some t)
    (stars : List (Option Star)) :
    ({ s with timers := s.timers.eraseIdx i }.timerExpired d getRandom t.number stars).Recovers := by
  obtain ⟨htick, hflags⟩ := recovers_iff.mp h
  have herase := pending_erase hi
  set u : State := { s with timers := s.timers.eraseIdx i }
  have hkeep : ∀ n, t.number ≠ n → u.pending n = s.pending n := by
    intro n hn
    rw [herase, if_neg hn, Nat.add_zero]
  have htick' : t.number ≠ 1 → u.pending 1 = 1 := fun h1 => (hkeep 1 h1).trans htick
  have h2' : t.number ≠ 2 → ∀ {p : Prop}, (p → 0 < s.pending 2) → p → 0 < u.pending 2 :=
    fun h2 _ hf hp => (hf hp).trans_eq (hkeep 2 h2).symm
  have h3' : t.number ≠ 3 → s.sawEnemy = true → 0 < u.pending 3 :=
    fun h3 hs => (hflags.sawEnemy hs).trans_eq (hkeep 3 h3).symm
  have h4' : t.number ≠ 4 → s.sawFriend = true → 0 < u.pending 4 :=
    fun h4 hs => (hflags.sawFriend hs).trans_eq (hkeep 4 h4).symm
  unfold State.timerExpired
  by_cases h1 : t.number = 1
  · rw [if_pos h1]
    have hflagsu : u.Flags := ⟨h2' (by omega) hflags.acting, h3' (by omega), h4' (by omega),
      h2' (by omega) hflags.enemyKilled⟩
    have hlook : ∀ v : State, Acted v
        (if !v.hibernating && !v.sawFriend then v.lookForFriends d getRandom stars else v) := by
      intro v
      split_ifs
      · exact lookForFriends_acted d getRandom v stars
      · exact .refl v
    have hacted := (stateChanged_acted d getRandom u.lastState u.aiState u).trans (hlook _)
    rw [recovers_iff, pending_startTimer, hacted.tick]
    refine ⟨?_, (hflagsu.acted hacted).startTimer 2 1⟩
    have hone := herase 1
    rw [if_pos h1, htick] at hone
    rw [if_pos rfl]
    omega
  rw [if_neg h1]
  by_cases h2 : t.number = 2
  · rw [if_pos h2]
    simp only
    split_ifs with hk
    · -- the soldier has spoken, and tells the news of a dead enemy
      have hacted := act_acted d getRandom .killedEnemy { u with acting := false }
      refine recovers_iff.mpr ⟨hacted.tick.trans (htick' h1), ?_, ?_, ?_, fun hs => by cases hs⟩
      · exact fun hs => (hacted.acting hs).elim (fun hf => by cases hf) id
      · exact fun hs => (hacted.sawEnemy hs).elim
          (fun hs => (h3' (by omega) hs).trans_le (hacted.grows 3)) id
      · exact fun hs => (hacted.sawFriend hs).elim
          (fun hs => (h4' (by omega) hs).trans_le (hacted.grows 4)) id
    · exact recovers_iff.mpr ⟨htick' h1, (fun hs => by cases hs), h3' (by omega), h4' (by omega),
        fun hs => absurd hs hk⟩
  rw [if_neg h2]
  split_ifs with h3 h4
  · exact recovers_iff.mpr ⟨htick' h1, h2' h2 hflags.acting, (fun hs => by cases hs), h4' (by omega),
      h2' h2 hflags.enemyKilled⟩
  · exact recovers_iff.mpr ⟨htick' h1, h2' h2 hflags.acting, h3' h3, (fun hs => by cases hs),
      h2' h2 hflags.enemyKilled⟩
  · exact recovers_iff.mpr ⟨htick' h1, h2' h2 hflags.acting, h3' h3, h4' h4,
      h2' h2 hflags.enemyKilled⟩

theorem Recovers.step {a : Act} (h : s.Recovers) (hs : s.step d a = some s') : s'.Recovers := by
  obtain ⟨event, getRandom⟩ := a
  cases event with
  | damaged damager amount hitpoints =>
    obtain rfl := Option.some.inj hs
    exact h.acted (damaged_acted d getRandom damager amount hitpoints s)
  | killed killer =>
    obtain rfl := Option.some.inj hs
    exact h.killed d getRandom killer
  | poked =>
    obtain rfl := Option.some.inj hs
    exact h.acted (poked_acted d getRandom s)
  | timerExpired i stars =>
    obtain ⟨t, hi, rfl⟩ := Option.map_eq_some_iff.mp hs
    exact h.timerExpired d getRandom hi stars
  | custom type =>
    obtain rfl := Option.some.inj hs
    exact h.custom d getRandom type
  | enemySeen =>
    obtain rfl := Option.some.inj hs
    exact h.acted (enemySeen_acted d getRandom s)
  | setAIState aiState | setHibernating b | setDead b =>
    obtain rfl := Option.some.inj hs
    exact ⟨h.tick, h.acting, h.sawEnemy, h.sawFriend, h.enemyKilled⟩
  | wait t =>
    simp only [State.step] at hs
    split_ifs at hs
    obtain rfl := Option.some.inj hs
    exact ⟨h.tick, h.acting, h.sawEnemy, h.sawFriend, h.enemyKilled⟩

end Steps

end State

theorem created_recovers {hibernating dead : Bool} {aiState : SoldierAIState} {now : ℚ} {s : State}
    (h : created true false hibernating dead aiState now = some s) : s.Recovers := by
  obtain rfl := Option.some.inj h
  exact ⟨rfl, (fun ha => by cases ha), (fun ha => by cases ha), (fun ha => by cases ha), fun ha => by cases ha⟩

/-- **No flag stays up.** From `Created` on, in whatever order events come and timers are delivered, one
timer 1 is pending, and with each flag that keeps the soldier silent the timer that takes it back. -/
theorem dialogue_recovers (d : Definitions) {s : State} (hr : (system d).Reaches System.anyStep s) :
    s.Recovers := by
  apply hr.invariant (I := State.Recovers)
  · rintro s ⟨hibernating, dead, aiState, now, hs⟩
    exact created_recovers hs
  · intro s a s' h _ hs
    exact h.step d hs

/-- The soldier always has something to say. -/
def talkative : Definitions := ⟨fun _ => ⟨[some ⟨1, 1⟩], 0⟩, fun _ => some (bytes "line")⟩

/-- It sees an enemy, is killed while it speaks of that, and its first timer 2 is delivered. -/
def killedWhileActing : List Act :=
  [⟨.enemySeen, fun _ _ m => m⟩, ⟨.custom customEventKilledEnemy, fun _ _ m => m⟩,
    ⟨.killed (some ⟨3, true⟩), fun _ _ m => m⟩, ⟨.timerExpired 2 [], fun _ _ m => m⟩]

theorem dialogue_recovers_killed : ∃ s s', created true false false false .idle 0 = some s ∧
    (system talkative).exec s killedWhileActing = some s' ∧ s'.acting = true ∧ 0 < s'.pending 2 := by
  have hrun : ((created true false false false .idle 0).bind fun s =>
      (system talkative).exec s killedWhileActing).map State.acting = some true := by decide +kernel
  obtain ⟨s', hx, hacting⟩ := Option.map_eq_some_iff.mp hrun
  obtain ⟨s, hs, hx⟩ := Option.bind_eq_some_iff.mp hx
  have hreached : (system talkative).Reaches System.anyStep s := .start ⟨_, _, _, _, hs⟩
  have hrecovers := dialogue_recovers talkative (hreached.exec _ (System.along_anyStep _ _) hx)
  exact ⟨s, s', hs, hx, hacting, hrecovers.acting hacting⟩

end LuaTT.Dialogue
