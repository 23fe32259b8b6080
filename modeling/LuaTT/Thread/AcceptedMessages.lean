import LuaTT.Thread.ChannelDelivery
import LuaTT.Thread.Deliverability

/-! What an undeliverable message does to a channel, and why there is none where no value that is sent
rejects its own way back. `ReturnDataLua` runs under `m_locker` and before the message is popped, so the
error leaves the message at the front, and the lock with it unless the error unwinds. -/
namespace LuaTT.Channel
open Lua DataMessage Sync Transition ChannelMap
set_option autoImplicit false

/-! ## Sections over deliverable messages -/

section Sections
variable {messages : ChannelMap} {channel : Bytes}

theorem popFront_ok (h : ∀ m ∈ messages.queue channel, Deliverable m) :
    ∃ x, (popFront messages channel).result = .ok x := by
  unfold popFront
  split
  · exact ⟨_, rfl⟩
  · rename_i m q hq
    obtain ⟨v, hv⟩ := h m (hq ▸ List.mem_cons_self)
    rw [hv]
    exact ⟨_, rfl⟩

theorem peekAllLoop_ok {k : ℕ} {t : List (ℕ × LuaTree)} {q : List LuaDataMessage}
    (h : ∀ m ∈ q, Deliverable m) : ∃ l, peekAllLoop k t q = .ok l := by
  induction q generalizing k t with
  | nil => exact ⟨t, rfl⟩
  | cons m q ih =>
    obtain ⟨v, hv⟩ := h m List.mem_cons_self
    simp only [peekAllLoop, hv]
    exact ih fun m hm => h m (List.mem_cons_of_mem _ hm)

theorem getAllSection_ok (h : ∀ m ∈ messages.queue channel, Deliverable m) :
    ∃ x, (getAllSection messages channel).result = .ok x := by
  obtain ⟨l, hl⟩ := peekAllLoop_ok (k := 1) (t := []) h
  refine ⟨.array l, ?_⟩
  simp only [getAllSection, queue_getChannel, getAllLoop_result, hl]
  rfl

theorem peekSection_ok (h : ∀ m ∈ messages.queue channel, Deliverable m) :
    ∃ x, (peekSection messages channel).result = .ok x := by
  simp only [peekSection, queue_getChannel]
  split
  · exact ⟨_, rfl⟩
  · rename_i m q hq
    obtain ⟨v, hv⟩ := h m (hq ▸ List.mem_cons_self)
    rw [hv]
    exact ⟨_, rfl⟩

theorem peekAllSection_ok (h : ∀ m ∈ messages.queue channel, Deliverable m) :
    ∃ x, (peekAllSection messages channel).result = .ok x := by
  obtain ⟨l, hl⟩ := peekAllLoop_ok (k := 1) (t := []) h
  refine ⟨.array l, ?_⟩
  simp only [peekAllSection, queue_getChannel, hl]
  rfl

/-! ## What a section removes -/

theorem popFront_removed : ∀ m ∈ (popFront messages channel).removed, Deliverable m := by
  unfold popFront
  split
  · exact fun m hm => absurd hm List.not_mem_nil
  · rename_i m q _
    split
    · rename_i v hv
      intro m' hm'
      rw [List.mem_singleton.mp hm']
      exact ⟨v, hv⟩
    · exact fun m hm => absurd hm List.not_mem_nil

theorem getAllLoop_removed {k : ℕ} {t : List (ℕ × LuaTree)} {q : List LuaDataMessage} :
    ∀ m ∈ (getAllLoop k t q).2.1, Deliverable m := by
  induction q generalizing k t with
  | nil => exact fun m hm => absurd hm List.not_mem_nil
  | cons x q ih =>
    simp only [getAllLoop]
    cases hx : returnDataLua x with
    | error e => exact fun m hm => absurd hm List.not_mem_nil
    | ok v =>
      intro m hm
      rcases List.mem_cons.mp hm with rfl | hm
      · exact ⟨v, hx⟩
      · exact ih m hm

/-- The loop of `Lua_Get_All_Data` stops before the first message that does not come out. -/
theorem getAllLoop_stops {k : ℕ} {t : List (ℕ × LuaTree)} {q : List LuaDataMessage} {m : LuaDataMessage}
    (hq : ∀ x ∈ q, Deliverable x) (hm : ¬ Deliverable m) :
    (getAllLoop k t (q ++ [m])).1 = [m] ∧ (getAllLoop k t (q ++ [m])).2.2 = .error .nanIndex := by
  induction q generalizing k t with
  | nil => simp [getAllLoop, error_of_not_deliverable hm]
  | cons x q ih =>
    obtain ⟨v, hv⟩ := hq x List.mem_cons_self
    simp only [List.cons_append, getAllLoop, hv]
    exact ih fun y hy => hq y (List.mem_cons_of_mem _ hy)

end Sections

/-! ## Steps -/

/-- The allocator gives different addresses to the messages of one conversion. -/
def Fresh {τ : Type} : Act τ → Prop
  | .sendData _ _ _ addr _ _ => Function.Injective addr
  | _ => True

def Clean {τ : Type} : Act τ → Prop
  | .sendData _ heap args _ _ _ => ∀ v, index2adr args 2 = some v → ¬ Rejects heap v
  | _ => True

namespace State
variable {τ : Type} {unwinds : Bool} {s s' : State τ} {t : τ} {o : Outcome} {r : Report}

/-- Between two steps nobody holds `m_locker`, and every message comes out. -/
structure Flowing (s : State τ) : Prop where
  unlocked : s.locker.owner = none
  deliverable : ∀ c, ∀ m ∈ s.queue c, Deliverable m

variable [DecidableEq τ]

theorem leave_ok {u : State τ} (h : u.leave unwinds t o = some (s', r))
    (ho : ∃ x, o.result = .ok x) :
    s'.locker.owner = none ∧ ∀ e, r.result ≠ some (.error e) := by
  obtain ⟨x, hx⟩ := ho
  obtain ⟨rfl, _, _, hfree⟩ := leave_eq_some h
  refine ⟨hfree (by rw [hx]; rfl), fun e he => ?_⟩
  rw [Outcome.report, hx] at he
  cases he

/-- A call whose section ends without an error, over a state in which every message comes out. -/
theorem enter_ok {needed : ℕ} {args : List LuaValue} {o : Bytes → State τ → Outcome}
    (hf : s.Flowing) (h : s.enter t needed args (fun c u => u.leave unwinds t (o c u)) = some (s', r))
    (ho : ∀ c u, u.messages = s.messages → ∃ x, (o c u).result = .ok x) :
    s'.locker.owner = none ∧ (channelArg args ≠ none → ∀ e, r.result ≠ some (.error e)) := by
  rcases enter_cases h with ⟨rfl, rfl | ⟨hc, rfl⟩⟩ | ⟨channel, _, _, _, hb⟩
  · exact ⟨hf.unlocked, fun _ e he => by cases he⟩
  · exact ⟨hf.unlocked, fun hne => absurd hc hne⟩
  · obtain ⟨hfree, hres⟩ := leave_ok hb (ho _ _ rfl)
    exact ⟨hfree, fun _ => hres⟩

theorem demandLoop_ok {u : State τ} {channel : Bytes}
    (h : u.demandLoop unwinds t channel = some (s', r)) (hq : ∀ m ∈ u.queue channel, Deliverable m) :
    s'.locker.owner = none ∧ ∀ e, r.result ≠ some (.error e) := by
  unfold demandLoop at h
  split_ifs at h
  · obtain ⟨locker, hl, he⟩ := Option.map_eq_some_iff.mp h
    simp only [Prod.mk.injEq] at he
    obtain ⟨rfl, rfl⟩ := he
    obtain ⟨_, rfl⟩ := Monitor.wait_eq_some.mp hl
    exact ⟨rfl, fun e he => by cases he⟩
  · exact leave_ok h (popFront_ok hq)

theorem perform_ok {a : Act τ} (hf : s.Flowing) (h : s.perform unwinds a = some (s', r)) :
    s'.locker.owner = none ∧ (s.channelOf a ≠ none → ∀ e, r.result ≠ some (.error e)) := by
  have hqueue : ∀ c (u : State τ), u.messages = s.messages →
      ∀ m ∈ u.messages.queue c, Deliverable m := fun c u hu => hu ▸ hf.deliverable c
  have hadded : ∀ c (u : State τ), u.messages = s.messages →
      ∀ m ∈ (u.messages.getChannel c).queue c, Deliverable m := fun c u hu => by
    rw [queue_getChannel]
    exact hqueue c u hu
  cases a with simp only [perform] at h
  | sendData t heap args addr fuel next =>
    rcases enter_cases h with ⟨rfl, rfl | ⟨hc, rfl⟩⟩ | ⟨channel, _, _, _, hb⟩
    · exact ⟨hf.unlocked, fun _ e he => by cases he⟩
    · exact ⟨hf.unlocked, fun hne => absurd hc hne⟩
    · split at hb
      · cases hb
      · rename_i data _
        obtain ⟨hfree, hres⟩ := leave_ok hb (by cases data <;> exact ⟨_, rfl⟩)
        exact ⟨hfree, fun _ => hres⟩
  | getData t args => exact enter_ok hf h fun c u hu => popFront_ok (hadded c u hu)
  | getAllData t args => exact enter_ok hf h fun c u hu => getAllSection_ok (hqueue c u hu)
  | peekData t args => exact enter_ok hf h fun c u hu => peekSection_ok (hqueue c u hu)
  | peekAllData t args => exact enter_ok hf h fun c u hu => peekAllSection_ok (hqueue c u hu)
  | demandData t args =>
    rcases enter_cases h with ⟨rfl, rfl | ⟨hc, rfl⟩⟩ | ⟨channel, _, _, _, hb⟩
    · exact ⟨hf.unlocked, fun _ e he => by cases he⟩
    · exact ⟨hf.unlocked, fun hne => absurd hc hne⟩
    · obtain ⟨hfree, hres⟩ := demandLoop_ok hb (hadded channel s rfl)
      exact ⟨hfree, fun _ => hres⟩
  | getAllChannels t =>
    split_ifs at h
    obtain ⟨locker, _, hb⟩ := Option.bind_eq_some_iff.mp h
    exact ⟨(leave_ok hb ⟨_, rfl⟩).1, fun hne => absurd rfl hne⟩
  | demandWake t =>
    obtain ⟨channel, _, hb⟩ := Option.bind_eq_some_iff.mp h
    obtain ⟨locker, _, hb⟩ := Option.bind_eq_some_iff.mp hb
    obtain ⟨hfree, hres⟩ := demandLoop_ok hb (hqueue channel { s with locker := locker } rfl)
    exact ⟨hfree, fun _ => hres⟩
  | spuriousWake t =>
    obtain ⟨locker, hl, he⟩ := Option.map_eq_some_iff.mp h
    simp only [Prod.mk.injEq] at he
    obtain ⟨rfl, rfl⟩ := he
    obtain ⟨_, rfl⟩ := Monitor.wakeOne_eq_some.mp hl
    exact ⟨hf.unlocked, fun hne => absurd rfl hne⟩

theorem queued_or_sent {a : Act τ} (h : s.perform unwinds a = some (s', r)) {c : Bytes}
    {m : LuaDataMessage} (hm : m ∈ s'.queue c) : m ∈ s.queue c ∨ m ∈ r.sent := by
  obtain ⟨hown, hother⟩ := perform_moves h
  by_cases hc : s.channelOf a = some c
  · have hmem : m ∈ s.queue c ++ r.sent := by
      rw [hown c hc]
      exact List.mem_append_right _ hm
    exact List.mem_append.mp hmem
  · rw [hother c hc] at hm
    exact .inl hm

theorem flowing_step {a : Act τ} (hf : s.Flowing) (hfresh : Fresh a) (hclean : Clean a)
    (h : s.perform unwinds a = some (s', r)) : s'.Flowing := by
  refine ⟨(perform_ok hf h).1, fun c m hm => ?_⟩
  rcases queued_or_sent h hm with hm | hm
  · exact hf.deliverable c m hm
  · cases a with
    | sendData t heap args addr fuel next =>
      rcases sendData_eq_some h with ⟨hs, _⟩ | ⟨_, next', x, d, _, hconv, hs, _⟩
      · rw [hs] at hm
        exact absurd hm List.not_mem_nil
      · rw [hs] at hm
        obtain rfl := List.mem_singleton.mp hm
        obtain ⟨v, hv⟩ := converted_arg hconv
        exact (deliverable_iff hfresh hv hconv).mpr (hclean v hv)
    | _ =>
      rw [perform_sent (by simp [Sends]) h] at hm
      exact absurd hm List.not_mem_nil

/-! ## A message that stays -/

theorem leave_removed {u : State τ} (h : u.leave unwinds t o = some (s', r))
    (ho : ∀ m ∈ o.removed, Deliverable m) : ∀ m ∈ r.removed, Deliverable m := by
  obtain ⟨rfl, _⟩ := leave_eq_some h
  exact ho

theorem enter_removed {needed : ℕ} {args : List LuaValue} {o : Bytes → State τ → Outcome}
    (h : s.enter t needed args (fun c u => u.leave unwinds t (o c u)) = some (s', r))
    (ho : ∀ c u, ∀ m ∈ (o c u).removed, Deliverable m) : ∀ m ∈ r.removed, Deliverable m := by
  rcases enter_eq_some h with ⟨_, _, hr⟩ | ⟨channel, _, hb⟩
  · rw [hr]
    exact fun m hm => absurd hm List.not_mem_nil
  · exact leave_removed hb (ho channel _)

theorem demandLoop_removed {channel : Bytes} (h : s.demandLoop unwinds t channel = some (s', r)) :
    ∀ m ∈ r.removed, Deliverable m := by
  unfold demandLoop at h
  split_ifs at h
  · obtain ⟨locker, _, he⟩ := Option.map_eq_some_iff.mp h
    simp only [Prod.mk.injEq] at he
    obtain ⟨rfl, rfl⟩ := he
    exact fun m hm => absurd hm List.not_mem_nil
  · exact leave_removed h popFront_removed

theorem perform_removed {a : Act τ} (h : s.perform unwinds a = some (s', r)) :
    ∀ m ∈ r.removed, Deliverable m := by
  have hnone : ∀ m ∈ ([] : List LuaDataMessage), Deliverable m := fun m hm => absurd hm List.not_mem_nil
  cases a with simp only [perform] at h
  | sendData t heap args addr fuel next =>
    rcases enter_eq_some h with ⟨_, _, hr⟩ | ⟨channel, _, hb⟩
    · exact hr ▸ hnone
    · split at hb
      · cases hb
      · rename_i data _
        exact leave_removed hb (by cases data <;> exact hnone)
  | getData t args => exact enter_removed h fun _ _ => popFront_removed
  | getAllData t args => exact enter_removed h fun _ _ => getAllLoop_removed
  | peekData t args =>
    apply enter_removed h
    intro c u
    rw [(peekSection_keeps u.messages c).2.1]
    exact hnone
  | peekAllData t args => exact enter_removed h fun _ _ => hnone
  | demandData t args =>
    rcases enter_eq_some h with ⟨_, _, hr⟩ | ⟨channel, _, hb⟩
    · exact hr ▸ hnone
    · exact demandLoop_removed hb
  | getAllChannels t =>
    split_ifs at h
    obtain ⟨locker, _, hb⟩ := Option.bind_eq_some_iff.mp h
    exact leave_removed hb hnone
  | demandWake t =>
    obtain ⟨channel, _, hb⟩ := Option.bind_eq_some_iff.mp h
    obtain ⟨locker, _, hb⟩ := Option.bind_eq_some_iff.mp hb
    exact demandLoop_removed hb
  | spuriousWake t =>
    obtain ⟨locker, _, he⟩ := Option.map_eq_some_iff.mp h
    simp only [Prod.mk.injEq] at he
    obtain ⟨_, rfl⟩ := he
    exact hnone

theorem head_step {a : Act τ} {c : Bytes} {m : LuaDataMessage} {q : List LuaDataMessage}
    (hm : ¬ Deliverable m) (hq : s.queue c = m :: q) (h : s.perform unwinds a = some (s', r)) :
    ∃ q', s'.queue c = m :: q' := by
  obtain ⟨hown, hother⟩ := perform_moves h
  by_cases hc : s.channelOf a = some c
  · have hmoved := hown c hc
    rw [hq, List.cons_append] at hmoved
    cases hr : r.removed with
    | nil =>
      rw [hr] at hmoved
      exact ⟨q ++ r.sent, hmoved.symm⟩
    | cons x xs =>
      rw [hr, List.cons_append, List.cons.injEq] at hmoved
      obtain ⟨rfl, _⟩ := hmoved
      exact absurd (perform_removed h m (hr ▸ List.mem_cons_self)) hm
  · exact ⟨q, (hother c hc).trans hq⟩

theorem getAllData_stuck {args : List LuaValue} {c : Bytes} {q : List LuaDataMessage}
    {m : LuaDataMessage} (hc : channelArg args = some c) (hd : s.demanding t = none)
    (ho : s.locker.owner = none) (hq : s.queue c = q ++ [m]) (hall : ∀ x ∈ q, Deliverable x)
    (hm : ¬ Deliverable m) :
    ∃ s' r, s.perform unwinds (.getAllData t args) = some (s', r) ∧
      r.result = some (.error .nanIndex) ∧ s'.queue c = [m] ∧
      s'.locker.owner = if unwinds then none else some t := by
  obtain ⟨hrest, hres⟩ := getAllLoop_stops (k := 1) (t := []) hall hm
  have hfront : (getAllSection s.messages c).messages.queue c = [m] := by
    simp only [getAllSection, queue_getChannel, queue_setQueue_self]
    rw [← queue, hq, hrest]
  have herr : (getAllSection s.messages c).result = .error .nanIndex := by
    simp only [getAllSection, queue_getChannel]
    rw [← queue, hq, hres]
    rfl
  simp only [perform]
  rw [enter_channel hc, if_neg (not_not.mpr hd), Monitor.lock, if_pos ho]
  simp only [Option.bind_some, leave, herr, Except.isOk, Except.toBool, Bool.false_or]
  cases unwinds with
  | true =>
    refine ⟨⟨(getAllSection s.messages c).messages, ⟨none, s.locker.cond⟩, s.demanding⟩,
      (getAllSection s.messages c).report, ?_, congrArg some herr, hfront, rfl⟩
    simp [Monitor.unlock]
  | false => exact ⟨_, (getAllSection s.messages c).report, rfl, congrArg some herr, hfront, rfl⟩

end State

/-! ## Runs -/

variable {τ : Type} [DecidableEq τ] {unwinds : Bool}

theorem reaches_flowing {s : State τ}
    (hr : (system unwinds).Reaches (fun _ a => Fresh a ∧ Clean a) s) : s.Flowing := by
  refine hr.invariant (I := State.Flowing) ?_ fun s a s' hf hok hs => ?_
  · rintro s rfl
    exact ⟨rfl, fun c m hm => by simp [State.queue, initial, queue] at hm⟩
  · obtain ⟨⟨u, r⟩, hp, rfl⟩ := Option.map_eq_some_iff.mp hs
    exact State.flowing_step hf hok.1 hok.2 hp

theorem head_stays {s u : State τ} {c : Bytes} {m : LuaDataMessage} (hm : ¬ Deliverable m)
    (hq : ∃ q, s.queue c = m :: q) (as : List (Act τ)) (hx : (system unwinds).exec s as = some u) :
    ∃ q, u.queue c = m :: q := by
  induction as generalizing s with
  | nil =>
    cases hx
    exact hq
  | cons a as ih =>
    simp only [System.exec] at hx
    cases hs : (system unwinds).step s a with
    | none => simp [hs] at hx
    | some v =>
      rw [hs] at hx
      obtain ⟨⟨v, r⟩, hp, rfl⟩ := Option.map_eq_some_iff.mp hs
      obtain ⟨q, hq⟩ := hq
      exact ih (State.head_step hm hq hp) hx

/-- **Accepted messages come out.** A message does so exactly if the value it was made of rejects
nothing. Where all values are like that, no call that got past its arguments ever fails and the lock is
free after each of them; the first other value that is accepted makes the next `Get_All_Data` fail, and
its message stays at the front for good. -/
theorem accepted_messages :
    (∀ (heap : Heap) (addr : ℕ → ℕ) (fuel next next' x : ℕ) (args : List LuaValue) (v : LuaValue)
      (m : LuaDataMessage), Function.Injective addr → index2adr args 2 = some v →
      convertData heap addr fuel next args 2 false = .ok (next', some (x, m)) →
      (Deliverable m ↔ ¬ Rejects heap v)) ∧
    (∀ s : State τ, (system unwinds).Reaches (fun _ a => Fresh a ∧ Clean a) s →
      s.locker.owner = none ∧ ∀ a s' r, s.channelOf a ≠ none → s.perform unwinds a = some (s', r) →
        ∀ e, r.result ≠ some (.error e)) ∧
    ∀ (s s' : State τ) (r : Report) (t : τ) (heap : Heap) (args : List LuaValue) (addr : ℕ → ℕ)
      (fuel next : ℕ), (system unwinds).Reaches (fun _ a => Fresh a ∧ Clean a) s →
      s.perform unwinds (.sendData t heap args addr fuel next) = some (s', r) →
      Fresh (.sendData t heap args addr fuel next) →
      r.result = some (.ok (pushboolean true)) → ¬ Clean (.sendData t heap args addr fuel next) →
      ∃ c m s'' r', channelArg args = some c ∧
        s'.perform unwinds (.getAllData t args) = some (s'', r') ∧
        r'.result = some (.error .nanIndex) ∧ s''.locker.owner = (if unwinds then none else some t) ∧
        ∀ as u, (system unwinds).exec s'' as = some u → ∃ q, u.queue c = m :: q := by
  refine ⟨fun heap addr fuel next next' x args v m ha hv h => deliverable_iff ha hv h,
    fun s hr => ?_, fun s s' r t heap args addr fuel next hr hp hfresh hres hclean => ?_⟩
  · have hf := reaches_flowing hr
    exact ⟨hf.unlocked, fun a s' r hc hp => (State.perform_ok hf hp).2 hc⟩
  · have hf := reaches_flowing hr
    rcases State.sendData_eq_some hp with ⟨_, hne, _⟩ | ⟨c, next', x, m, hc, hconv, hsent, hnone, _, hd, _, hd', hl⟩
    · exact absurd hres hne
    · have hm : ¬ Deliverable m := by
        intro hm
        apply hclean
        intro v hv
        exact (deliverable_iff hfresh hv hconv).mp hm
      have hq : s'.queue c = s.queue c ++ [m] := by
        have hmoved := (State.perform_moves hp).1 c hc
        rw [hsent, hnone] at hmoved
        exact hmoved.symm
      obtain ⟨s'', r', hget, herr, hfront, hown⟩ : ∃ s'' r',
          s'.perform unwinds (.getAllData t args) = some (s'', r') ∧
            r'.result = some (.error .nanIndex) ∧ s''.queue c = [m] ∧
            s''.locker.owner = if unwinds then none else some t :=
        State.getAllData_stuck hc ((congrFun hd' t).trans hd) (by rw [hl]) hq (hf.deliverable c) hm
      exact ⟨c, m, s'', r', hc, hget, herr, hown,
        fun as u hx => head_stays hm ⟨[], hfront⟩ as hx⟩

/-- `{[key] = true}`, as table 0. -/
def oneEntryHeap (key : Bytes) : Heap where
  entries
    | 0 => [(.string key, .boolean true)]
    | _ => []
  isKey r e he := by
    cases r with
    | zero =>
      obtain rfl := List.mem_singleton.mp he
      rfl
    | succ r => cases he
  distinct r := by
    cases r with
    | zero => exact List.pairwise_singleton _ _
    | succ r => exact .nil

/-- `Send_Data("c", {[key] = true})` by thread `t`. -/
def sendEntry {τ : Type} (t : τ) (key : Bytes) : Act τ :=
  .sendData t (oneEntryHeap key) [.string [99], .table 0] id 2 0

theorem clean_sendEntry {τ : Type} (t : τ) {key : Bytes} (hk : ljStrscanNum key = none) :
    Clean (sendEntry t key) := by
  intro v hv
  obtain rfl : LuaValue.table 0 = v := by simpa [index2adr] using hv
  rw [rejects_table]
  rintro ⟨e, he, _, _, hnan | hrej⟩
  · obtain rfl := List.mem_singleton.mp he
    simp [NanKey, LuaValue.isnumber, hk] at hnan
  · obtain rfl := List.mem_singleton.mp he
    exact not_rejects_of_not_table rfl hrej

theorem accepted_messages_sample : ∃ s : State Unit,
    (system true).exec initial [sendEntry () [120]] = some s ∧ s.locker.owner = none := by
  have hstart : (system true).Reaches (fun _ a => Fresh a ∧ Clean a) (initial : State Unit) := .start rfl
  have hclean : Clean (sendEntry () [120]) := clean_sendEntry () (by decide +kernel)
  have hend := hstart.next (a := sendEntry () [120]) ⟨Function.injective_id, hclean⟩ rfl
  exact ⟨_, rfl, (accepted_messages.2.1 _ hend).1⟩

/-- The message of `{nan = true}`: its key is the number NaN. -/
def nanMessage : LuaDataMessage := .ofMap [(0, .number nan, .boolean true)]

theorem nanMessage_stuck : ¬ Deliverable nanMessage := by
  rw [nanMessage, deliverable_ofMap]
  intro h
  have hkey := (h _ List.mem_cons_self).2.2
  have hnan : (nan == nan) = false := by decide +kernel
  simp [KeyAccepted, hnan] at hkey

/-- `Send_Data("c", {nan = true})` returns true, and `Get_Data("c")` fails with the lock held. -/
theorem accepted_message_fails :
    (¬ ∀ (heap : Heap) (addr : ℕ → ℕ) (fuel next next' x : ℕ) (args : List LuaValue) (m : LuaDataMessage),
      Function.Injective addr → convertData heap addr fuel next args 2 false = .ok (next', some (x, m)) →
      Deliverable m) ∧
    ¬ ∀ s : State Unit, (system false).Reaches (fun _ a => Fresh a) s → s.locker.owner = none := by
  constructor
  · intro h
    exact nanMessage_stuck (h (oneEntryHeap [110, 97, 110]) id 2 0 3 2 [.string [99], .table 0] nanMessage
      Function.injective_id rfl)
  · intro h
    have hstart : (system false).Reaches (fun _ a => Fresh a) (initial : State Unit) := .start rfl
    have hsent := hstart.next (a := sendEntry () [110, 97, 110]) Function.injective_id rfl
    have hend := hsent.next (a := Act.getData () [.string [99]]) trivial rfl
    have howner := h _ hend
    revert howner
    decide +kernel

end LuaTT.Channel
