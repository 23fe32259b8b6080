import LuaTT.Thread.ChannelDelivery

/-! `Lua_Demand_Data` and `m_newMessage`: one condition variable wakes the consumers of all channels,
and a woken consumer may find that another one was faster. A thread falls asleep only over an empty
queue, and whoever fills a queue wakes everybody, so no message is slept over. -/
namespace LuaTT.Channel
open Lua DataMessage Sync Transition ChannelMap
set_option autoImplicit false

namespace State
variable {τ : Type} {unwinds : Bool} {s s' : State τ} {t : τ} {o : Outcome} {r : Report}

/-- Who sleeps does so inside `Demand_Data`, over a channel without messages. -/
def Quiet (s : State τ) : Prop :=
  ∀ t, s.locker.cond t = .asleep → ∃ c, s.demanding t = some c ∧ s.queue c = []

/-! ## Who sleeps after a step -/

/-- Who sleeps in `s'` slept in `s`, inside the same call, or has just found its queue empty. -/
def Sleepers (s s' : State τ) : Prop :=
  ∀ u, s'.locker.cond u = .asleep →
    s.locker.cond u = .asleep ∧ s'.demanding u = s.demanding u ∨
      ∃ c, s'.demanding u = some c ∧ s'.queue c = []

theorem Sleepers.same (hc : s'.locker.cond = s.locker.cond) (hd : s'.demanding = s.demanding) :
    Sleepers s s' := fun u hu => .inl ⟨hc ▸ hu, congrFun hd u⟩

variable [DecidableEq τ]

theorem leave_cond (h : s.leave unwinds t o = some (s', r)) :
    s'.locker.cond = s.locker.cond := by
  unfold leave at h
  obtain ⟨locker, hl, he⟩ := Option.map_eq_some_iff.mp h
  simp only [Prod.mk.injEq] at he
  obtain ⟨rfl, _⟩ := he
  split_ifs at hl
  · obtain ⟨_, rfl⟩ := Monitor.unlock_eq_some.mp hl
    rfl
  · exact (congrArg Monitor.cond (Option.some.inj hl)).symm

theorem leave_sleepers {u : State τ} (h : u.leave unwinds t o = some (s', r))
    (hc : u.locker.cond = s.locker.cond) (hd : u.demanding = s.demanding) : Sleepers s s' := by
  obtain ⟨_, _, hdem, _⟩ := leave_eq_some h
  exact .same ((leave_cond h).trans hc) (hdem.trans hd)

/-- A section of one call that neither waits nor notifies. -/
theorem enter_sleepers {needed : ℕ} {args : List LuaValue} {o : Bytes → State τ → Outcome}
    (h : s.enter t needed args (fun c u => u.leave unwinds t (o c u)) = some (s', r)) :
    Sleepers s s' := by
  rcases enter_eq_some h with ⟨rfl, _, _⟩ | ⟨channel, _, hb⟩
  · exact .same rfl rfl
  · exact leave_sleepers hb rfl rfl

/-- The demander either goes to sleep over its empty queue or leaves the call. -/
theorem demandLoop_sleepers {u : State τ} {channel : Bytes}
    (h : u.demandLoop unwinds t channel = some (s', r)) (hd : u.demanding = s.demanding)
    (hothers : ∀ v, v ≠ t → u.locker.cond v = s.locker.cond v)
    (hself : u.locker.cond t ≠ .asleep ∨ s.demanding t = none ∧ u.locker.cond t = s.locker.cond t) :
    Sleepers s s' := by
  unfold demandLoop at h
  split_ifs at h with hq
  · obtain ⟨locker, hl, he⟩ := Option.map_eq_some_iff.mp h
    simp only [Prod.mk.injEq] at he
    obtain ⟨rfl, _⟩ := he
    obtain ⟨_, rfl⟩ := Monitor.wait_eq_some.mp hl
    intro v hv
    by_cases hvt : v = t
    · subst hvt
      exact .inr ⟨channel, by simp, hq⟩
    · simp only [Function.update_of_ne hvt, hothers v hvt] at hv ⊢
      exact .inl ⟨hv, congrFun hd v⟩
  · obtain ⟨_, _, hdem, _⟩ := leave_eq_some h
    intro v hv
    rw [leave_cond h] at hv
    simp only at hv hdem
    by_cases hvt : v = t
    · subst hvt
      rcases hself with hawake | ⟨hnone, hcond⟩
      · exact absurd hv hawake
      · exact .inl ⟨hcond ▸ hv, by rw [hdem, hnone, Function.update_self]⟩
    · rw [hothers v hvt] at hv
      exact .inl ⟨hv, by rw [hdem, Function.update_of_ne hvt, hd]⟩

theorem perform_sleepers {a : Act τ} (h : s.perform unwinds a = some (s', r)) : Sleepers s s' := by
  cases a with simp only [perform] at h
  | sendData t heap args addr fuel next =>
    have hp : s.perform unwinds (.sendData t heap args addr fuel next) = some (s', r) := h
    rcases sendData_eq_some hp with ⟨_, _, hd, hc⟩ | ⟨c, _, _, _, _, _, _, _, _, _, _, _, hl⟩
    · exact .same hc hd
    · exact fun u hu => absurd hu (hl ▸ s.locker.notifyAll_awake u)
  | getData t args => exact enter_sleepers h
  | getAllData t args => exact enter_sleepers h
  | peekData t args => exact enter_sleepers h
  | peekAllData t args => exact enter_sleepers h
  | demandData t args =>
    rcases enter_cases h with ⟨rfl, _⟩ | ⟨channel, _, hfree, _, hb⟩
    · exact .same rfl rfl
    · exact demandLoop_sleepers hb rfl (fun _ _ => rfl) (.inr ⟨hfree, rfl⟩)
  | getAllChannels t =>
    split_ifs at h
    obtain ⟨locker, hl, hb⟩ := Option.bind_eq_some_iff.mp h
    obtain ⟨_, rfl⟩ := Monitor.lock_eq_some.mp hl
    exact leave_sleepers hb rfl rfl
  | demandWake t =>
    obtain ⟨channel, _, hb⟩ := Option.bind_eq_some_iff.mp h
    obtain ⟨locker, hl, hb⟩ := Option.bind_eq_some_iff.mp hb
    obtain ⟨_, _, rfl⟩ := Monitor.reacquire_eq_some.mp hl
    exact demandLoop_sleepers hb rfl (fun v hv => by simp [hv]) (.inl (by simp))
  | spuriousWake t =>
    obtain ⟨locker, hl, he⟩ := Option.map_eq_some_iff.mp h
    simp only [Prod.mk.injEq] at he
    obtain ⟨rfl, _⟩ := he
    obtain ⟨_, rfl⟩ := Monitor.wakeOne_eq_some.mp hl
    intro u hu
    by_cases hut : u = t
    · simp [hut] at hu
    · simp only [Function.update_of_ne hut] at hu
      exact .inl ⟨hu, rfl⟩

theorem sent_or_awake {a : Act τ} (h : s.perform unwinds a = some (s', r)) :
    r.sent = [] ∨ ∀ u, s'.locker.cond u ≠ .asleep := by
  cases a with
  | sendData t heap args addr fuel next =>
    rcases sendData_eq_some h with ⟨hs, _⟩ | ⟨c, _, _, _, _, _, _, _, _, _, _, _, hl⟩
    · exact .inl hs
    · exact .inr fun u => hl ▸ s.locker.notifyAll_awake u
  | _ => exact .inl (perform_sent (by simp [Sends]) h)

theorem quiet_step {a : Act τ} (hq : s.Quiet) (h : s.perform unwinds a = some (s', r)) :
    s'.Quiet := by
  intro u hu
  rcases perform_sleepers h u hu with ⟨hslept, hdem⟩ | hnew
  · obtain ⟨c, hc, hempty⟩ := hq u hslept
    refine ⟨c, hdem.trans hc, ?_⟩
    have hsent : r.sent = [] := (sent_or_awake h).resolve_right fun hawake => hawake u hu
    obtain ⟨hown, hother⟩ := perform_moves h
    by_cases ha : s.channelOf a = some c
    · have hmoved := hown c ha
      rw [hempty, hsent] at hmoved
      exact (List.nil_eq_append_iff.mp hmoved).2
    · exact (hother c ha).trans hempty
  · exact hnew

/-! ## What a demand takes -/

/-- The steps in which `Demand_Data` tests its queue. -/
def DemandsBy (t : τ) : Act τ → Prop
  | .demandData u _ => u = t
  | .demandWake u => u = t
  | _ => False

/-- It sleeps over an empty queue; otherwise it hands out the front message, and keeps it in the queue
only if the message cannot be turned into a value. -/
def Demanded (s : State τ) (t : τ) (c : Bytes) (s' : State τ) (r : Report) : Prop :=
  (s.queue c = [] → r.removed = [] ∧ r.result = none ∧ s'.queue c = [] ∧
    s'.demanding t = some c ∧ s'.locker.cond t = .asleep) ∧
  ∀ m q, s.queue c = m :: q → r.result = some ((returnDataLua m).map .value) ∧
    r.removed = (if (returnDataLua m).isOk then [m] else []) ∧ s'.demanding t = none

theorem demandLoop_demanded {u : State τ} {c : Bytes} (hu : u.queue c = s.queue c)
    (h : u.demandLoop unwinds t c = some (s', r)) : s.Demanded t c s' r := by
  unfold demandLoop at h
  split_ifs at h with hq
  · obtain ⟨locker, hl, he⟩ := Option.map_eq_some_iff.mp h
    simp only [Prod.mk.injEq] at he
    obtain ⟨rfl, rfl⟩ := he
    obtain ⟨_, rfl⟩ := Monitor.wait_eq_some.mp hl
    refine ⟨fun _ => ⟨rfl, rfl, hq, by simp, by simp⟩, fun m q hm => ?_⟩
    rw [← hu, hq] at hm
    cases hm
  · refine ⟨fun hempty => absurd (hu.trans hempty) hq, fun m q hm => ?_⟩
    obtain ⟨rfl, _, hdem, _⟩ := leave_eq_some h
    have hfront : u.messages.queue c = m :: q := hu.trans hm
    refine ⟨?_, ?_, hdem ▸ Function.update_self t none u.demanding⟩
    · simp only [Outcome.report, popFront, hfront]
      cases returnDataLua m <;> rfl
    · simp only [Outcome.report, popFront, hfront]
      cases returnDataLua m <;> rfl

theorem perform_demanded {a : Act τ} {c : Bytes} (hd : DemandsBy t a) (hc : s.channelOf a = some c)
    (h : s.perform unwinds a = some (s', r)) : s.Demanded t c s' r := by
  cases a with
  | demandData u args =>
    obtain rfl : u = t := hd
    have hargs : channelArg args = some c := hc
    simp only [perform] at h
    rw [enter_channel hargs] at h
    split_ifs at h
    obtain ⟨locker, _, hb⟩ := Option.bind_eq_some_iff.mp h
    refine demandLoop_demanded ?_ hb
    exact queue_getChannel s.messages c c
  | demandWake u =>
    obtain rfl : u = t := hd
    obtain ⟨channel, hdem, hb⟩ := Option.bind_eq_some_iff.mp h
    obtain ⟨locker, _, hb⟩ := Option.bind_eq_some_iff.mp hb
    obtain rfl : channel = c := Option.some.inj (hdem.symm.trans hc)
    exact demandLoop_demanded (s := s) (u := { s with locker := locker }) rfl hb
  | _ => exact hd.elim

end State

/-! ## Runs -/

variable {τ : Type} [DecidableEq τ] {unwinds : Bool}

theorem reaches_quiet {s : State τ} (hr : (system unwinds).Reaches System.anyStep s) : s.Quiet := by
  refine hr.invariant (I := State.Quiet) ?_ fun s a s' hq _ hs => ?_
  · rintro s rfl t ht
    simp [initial, Monitor.idle] at ht
  · obtain ⟨⟨u, r⟩, hp, rfl⟩ := Option.map_eq_some_iff.mp hs
    exact State.quiet_step hq hp

/-- **No lost wakeup.** Whoever sleeps without a notification sleeps over an empty queue, and whenever a
demand has the lock it takes a message only from a queue that holds one. -/
theorem demand_wakeup {s : State τ} (hr : (system unwinds).Reaches System.anyStep s) :
    (∀ t, s.locker.cond t = .asleep → ∃ c, s.demanding t = some c ∧ s.queue c = []) ∧
      ∀ t c a s' r, State.DemandsBy t a → s.channelOf a = some c →
        s.perform unwinds a = some (s', r) → s.Demanded t c s' r :=
  ⟨reaches_quiet hr, fun _ _ _ _ _ hd hc hp => State.perform_demanded hd hc hp⟩

/-- Two consumers, and `none` who sends: one sleeps, a message is sent, the other one takes it first. -/
def stolenWakeup : List (Act (Option Bool)) :=
  let heap : Heap := ⟨fun _ => [(.boolean true, .boolean true)],
    fun _ _ he => List.mem_singleton.mp he ▸ rfl, fun _ => List.pairwise_singleton _ _⟩
  [.demandData (some true) [.string [99]], .sendData none heap [.string [99], .boolean true] id 1 0,
    .getData (some false) [.string [99]], .demandWake (some true)]

theorem demand_wakeup_stolen : ∃ s : State (Option Bool),
    (system true).exec initial stolenWakeup = some s ∧ s.locker.cond (some true) = .asleep ∧
      ∃ c, s.demanding (some true) = some c ∧ s.queue c = [] := by
  have hstart : (system true).Reaches System.anyStep (initial : State (Option Bool)) := .start rfl
  have hend := hstart.exec stolenWakeup (System.along_anyStep _ _) rfl
  exact ⟨_, rfl, rfl, (demand_wakeup hend).1 (some true) rfl⟩

end LuaTT.Channel
