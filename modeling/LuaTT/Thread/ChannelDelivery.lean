import LuaTT.Thread.Channel

/-! What was sent on a channel is what was removed from it followed by what is still in it. Each section
under the lock moves messages of one channel only; the runs follow by induction. -/
namespace LuaTT.Channel
open Lua DataMessage Sync Transition ChannelMap
set_option autoImplicit false

/-! ## Sections -/

/-- What the section sends goes to the end of the channel, what it removes comes from the front, and no
other channel changes. -/
def Outcome.Moves (o : Outcome) (messages : ChannelMap) (channel : Bytes) : Prop :=
  messages.queue channel ++ o.sent = o.removed ++ o.messages.queue channel ∧
    ∀ c, channel ≠ c → o.messages.queue c = messages.queue c

/-- The section sends and removes nothing. -/
def Outcome.Keeps (o : Outcome) (messages : ChannelMap) : Prop :=
  o.sent = [] ∧ o.removed = [] ∧ ∀ c, o.messages.queue c = messages.queue c

theorem Outcome.Keeps.moves {o : Outcome} {messages : ChannelMap} (h : o.Keeps messages)
    (channel : Bytes) : o.Moves messages channel := by
  obtain ⟨hs, hr, hq⟩ := h
  exact ⟨by rw [hs, hr, hq]; simp, fun c _ => hq c⟩

section Sections
variable (messages : ChannelMap) (channel : Bytes)

theorem sendSection_moves (data : Option LuaDataMessage) :
    (sendSection messages channel data).Moves messages channel := by
  cases data with
  | none => exact Outcome.Keeps.moves ⟨rfl, rfl, fun _ => rfl⟩ channel
  | some m =>
    refine ⟨?_, fun c hc => ?_⟩
    · simp [sendSection]
    · simp only [sendSection]
      rw [queue_setQueue_ne _ _ hc, queue_getChannel]

theorem popFront_moves : (popFront messages channel).Moves messages channel := by
  unfold popFront
  split
  · exact Outcome.Keeps.moves ⟨rfl, rfl, fun _ => rfl⟩ channel
  · rename_i m q hq
    split
    · exact ⟨by simp [hq], fun c hc => queue_setQueue_ne messages q hc⟩
    · exact Outcome.Keeps.moves ⟨rfl, rfl, fun _ => rfl⟩ channel

theorem getSection_moves : (getSection messages channel).Moves messages channel := by
  obtain ⟨hmoved, hothers⟩ := popFront_moves (messages.getChannel channel) channel
  rw [queue_getChannel] at hmoved
  exact ⟨hmoved, fun c hc => by rw [getSection, hothers c hc, queue_getChannel]⟩

theorem getAllLoop_split (k : ℕ) (t : List (ℕ × LuaTree)) (q : List LuaDataMessage) :
    (getAllLoop k t q).2.1 ++ (getAllLoop k t q).1 = q := by
  induction q generalizing k t with
  | nil => rfl
  | cons m q ih =>
    simp only [getAllLoop]
    cases returnDataLua m with
    | error e => rfl
    | ok v => simp [ih (k + 1) (setindex k v t)]

theorem getAllSection_moves : (getAllSection messages channel).Moves messages channel := by
  refine ⟨?_, fun c hc => ?_⟩
  · simp only [getAllSection, queue_setQueue_self, queue_getChannel, List.append_nil]
    exact (getAllLoop_split 1 [] (messages.queue channel)).symm
  · simp only [getAllSection]
    rw [queue_setQueue_ne _ _ hc, queue_getChannel]

theorem peekSection_keeps : (peekSection messages channel).Keeps messages := by
  simp only [peekSection]
  split <;> exact ⟨rfl, rfl, fun c => queue_getChannel messages channel c⟩

theorem peekAllSection_keeps : (peekAllSection messages channel).Keeps messages :=
  ⟨rfl, rfl, fun c => queue_getChannel messages channel c⟩

theorem getAllChannelsSection_keeps : (getAllChannelsSection messages).Keeps messages :=
  ⟨rfl, rfl, fun _ => rfl⟩

end Sections

/-! ## The two listings -/

/-- The table has the keys 1, 2, … and at each of them the value of that message. -/
def Lists (q : List LuaDataMessage) (l : List (ℕ × LuaTree)) : Prop :=
  ∃ vs, List.Forall₂ (fun m v => returnDataLua m = .ok v) q vs ∧ l = (List.range' 1 q.length).zip vs

theorem setindex_append {k : ℕ} {t : List (ℕ × LuaTree)} (v : LuaTree) (h : ∀ e ∈ t, e.1 < k) :
    setindex k v t = t ++ [(k, v)] := by
  induction t with
  | nil => rfl
  | cons e t ih =>
    have he := h e List.mem_cons_self
    simp only [setindex, if_neg (Nat.ne_of_lt he), List.cons_append]
    rw [ih fun e' he' => h e' (List.mem_cons_of_mem e he')]

theorem peekAllLoop_eq_ok {k : ℕ} {t l : List (ℕ × LuaTree)} {q : List LuaDataMessage}
    (ht : ∀ e ∈ t, e.1 < k) (h : peekAllLoop k t q = .ok l) :
    ∃ vs, List.Forall₂ (fun m v => returnDataLua m = .ok v) q vs ∧
      l = t ++ (List.range' k q.length).zip vs := by
  induction q generalizing k t with
  | nil => exact ⟨[], .nil, by simpa [peekAllLoop] using h.symm⟩
  | cons m q ih =>
    simp only [peekAllLoop] at h
    cases hm : returnDataLua m with
    | error e => simp [hm] at h
    | ok v =>
      simp only [hm, setindex_append v ht] at h
      have ht' : ∀ e ∈ t ++ [(k, v)], e.1 < k + 1 := by
        intro e he
        rcases List.mem_append.mp he with he | he
        · exact Nat.lt_succ_of_lt (ht e he)
        · simp [List.mem_singleton.mp he]
      obtain ⟨vs, hvs, rfl⟩ := ih ht' h
      exact ⟨v :: vs, .cons hm hvs, by simp [List.range'_succ]⟩

theorem lists_of_peekAllLoop {q : List LuaDataMessage} {l : List (ℕ × LuaTree)}
    (h : peekAllLoop 1 [] q = .ok l) : Lists q l := by
  obtain ⟨vs, hvs, rfl⟩ := peekAllLoop_eq_ok (fun _ he => by cases he) h
  exact ⟨vs, hvs, List.nil_append _⟩

theorem getAllLoop_result (k : ℕ) (t : List (ℕ × LuaTree)) (q : List LuaDataMessage) :
    (getAllLoop k t q).2.2 = peekAllLoop k t q := by
  induction q generalizing k t with
  | nil => rfl
  | cons m q ih =>
    simp only [getAllLoop, peekAllLoop]
    cases returnDataLua m with
    | error e => rfl
    | ok v => exact ih (k + 1) (setindex k v t)

theorem getAllLoop_empties {k : ℕ} {t l : List (ℕ × LuaTree)} {q : List LuaDataMessage}
    (h : peekAllLoop k t q = .ok l) : (getAllLoop k t q).1 = [] := by
  induction q generalizing k t with
  | nil => rfl
  | cons m q ih =>
    simp only [getAllLoop, peekAllLoop] at h ⊢
    cases hm : returnDataLua m with
    | error e => simp [hm] at h
    | ok v =>
      rw [hm] at h
      exact ih h

/-! ## Steps -/

namespace State
variable {τ : Type} {unwinds : Bool} {s s' : State τ} {t : τ} {o : Outcome} {r : Report}

/-- The step pushes and pops on that channel only. -/
def Moves (s : State τ) (channel : Option Bytes) (s' : State τ) (r : Report) : Prop :=
  (∀ c, channel = some c → s.queue c ++ r.sent = r.removed ++ s'.queue c) ∧
    ∀ c, channel ≠ some c → s'.queue c = s.queue c

theorem Moves.still {channel : Option Bytes} (h : s'.messages = s.messages) (hs : r.sent = [])
    (hr : r.removed = []) : s.Moves channel s' r := by
  refine ⟨fun c _ => ?_, fun c _ => ?_⟩
  · rw [hs, hr, queue, queue, h, List.append_nil, List.nil_append]
  · rw [queue, queue, h]

theorem enter_cases {needed : ℕ} {args : List LuaValue}
    {body : Bytes → State τ → Option (State τ × Report)}
    (h : s.enter t needed args body = some (s', r)) :
    s' = s ∧ (r = ⟨[], [], some (.ok .nothing)⟩ ∨
        channelArg args = none ∧ r = ⟨[], [], some (.error (.stringExpected 1))⟩) ∨
      ∃ channel, channelArg args = some channel ∧ s.demanding t = none ∧ s.locker.owner = none ∧
        body channel { s with locker := ⟨some t, s.locker.cond⟩ } = some (s', r) := by
  unfold enter at h
  split_ifs at h with hd hn
  · simp only [Option.some.injEq, Prod.mk.injEq] at h
    exact .inl ⟨h.1.symm, .inl h.2.symm⟩
  · split at h
    · rename_i hc
      simp only [Option.some.injEq, Prod.mk.injEq] at h
      exact .inl ⟨h.1.symm, .inr ⟨hc, h.2.symm⟩⟩
    · rename_i channel hc
      obtain ⟨locker, hl, hb⟩ := Option.bind_eq_some_iff.mp h
      obtain ⟨ho, rfl⟩ := Monitor.lock_eq_some.mp hl
      exact .inr ⟨channel, hc, not_not.mp hd, ho, hb⟩

theorem enter_eq_some {needed : ℕ} {args : List LuaValue}
    {body : Bytes → State τ → Option (State τ × Report)}
    (h : s.enter t needed args body = some (s', r)) :
    s' = s ∧ r.sent = [] ∧ r.removed = [] ∨
      ∃ channel, channelArg args = some channel ∧
        body channel { s with locker := ⟨some t, s.locker.cond⟩ } = some (s', r) := by
  rcases enter_cases h with ⟨rfl, rfl | ⟨_, rfl⟩⟩ | ⟨channel, hc, _, _, hb⟩
  · exact .inl ⟨rfl, rfl, rfl⟩
  · exact .inl ⟨rfl, rfl, rfl⟩
  · exact .inr ⟨channel, hc, hb⟩

theorem enter_moves {needed : ℕ} {args : List LuaValue}
    {body : Bytes → State τ → Option (State τ × Report)}
    (hbody : ∀ channel u s' r, u.messages = s.messages → body channel u = some (s', r) →
      u.Moves (some channel) s' r)
    (h : s.enter t needed args body = some (s', r)) : s.Moves (channelArg args) s' r := by
  rcases enter_eq_some h with ⟨rfl, hs, hr⟩ | ⟨channel, hc, hb⟩
  · exact .still rfl hs hr
  · rw [hc]
    exact hbody channel { s with locker := ⟨some t, s.locker.cond⟩ } s' r rfl hb

section Steps
variable [DecidableEq τ]

theorem leave_eq_some (h : s.leave unwinds t o = some (s', r)) :
    r = o.report ∧ s'.messages = o.messages ∧ s'.demanding = s.demanding ∧
      (o.result.isOk = true → s'.locker.owner = none) := by
  unfold leave at h
  obtain ⟨locker, hl, he⟩ := Option.map_eq_some_iff.mp h
  simp only [Prod.mk.injEq] at he
  obtain ⟨rfl, rfl⟩ := he
  refine ⟨rfl, rfl, rfl, fun hok => ?_⟩
  simp only [hok, Bool.true_or, if_true] at hl
  obtain ⟨_, rfl⟩ := Monitor.unlock_eq_some.mp hl
  rfl

theorem leave_moves {u : State τ} {channel : Bytes} (h : u.leave unwinds t o = some (s', r))
    (hu : u.messages = s.messages) (hm : o.Moves u.messages channel) :
    s.Moves (some channel) s' r := by
  rw [hu] at hm
  obtain ⟨rfl, hs', _, _⟩ := leave_eq_some h
  obtain ⟨hmoved, hothers⟩ := hm
  refine ⟨fun c hc => ?_, fun c hc => ?_⟩
  · obtain rfl := Option.some.inj hc
    rw [queue, queue, hs']
    exact hmoved
  · rw [queue, queue, hs']
    exact hothers c fun heq => hc (congrArg some heq)

theorem demandLoop_moves {channel : Bytes} (h : s.demandLoop unwinds t channel = some (s', r)) :
    s.Moves (some channel) s' r := by
  unfold demandLoop at h
  split_ifs at h
  · obtain ⟨locker, _, he⟩ := Option.map_eq_some_iff.mp h
    simp only [Prod.mk.injEq] at he
    obtain ⟨rfl, rfl⟩ := he
    exact .still rfl rfl rfl
  · exact leave_moves h rfl (popFront_moves _ _)

/-- **Step lemma**: a step takes from the front of its channel, adds to the end, and leaves the other
channels alone. -/
theorem perform_moves {a : Act τ} (h : s.perform unwinds a = some (s', r)) :
    s.Moves (s.channelOf a) s' r := by
  cases a with simp only [perform] at h
  | sendData t heap args addr fuel next =>
    refine enter_moves (fun channel u s' r _ hb => ?_) h
    split at hb
    · cases hb
    · exact leave_moves hb rfl (sendSection_moves _ _ _)
  | getData t args => exact enter_moves (fun _ _ _ _ _ hb => leave_moves hb rfl (getSection_moves _ _)) h
  | getAllData t args => exact enter_moves (fun _ _ _ _ _ hb => leave_moves hb rfl (getAllSection_moves _ _)) h
  | peekData t args =>
    exact enter_moves (fun c _ _ _ _ hb => leave_moves hb rfl ((peekSection_keeps _ _).moves c)) h
  | peekAllData t args =>
    exact enter_moves (fun c _ _ _ _ hb => leave_moves hb rfl ((peekAllSection_keeps _ _).moves c)) h
  | demandData t args =>
    refine enter_moves (fun channel u s' r _ hb => ?_) h
    obtain ⟨hmoved, hothers⟩ := demandLoop_moves hb
    simp only [queue, queue_getChannel] at hmoved hothers
    exact ⟨hmoved, hothers⟩
  | getAllChannels t =>
    split_ifs at h
    obtain ⟨locker, _, hb⟩ := Option.bind_eq_some_iff.mp h
    obtain ⟨rfl, hs', _, _⟩ := leave_eq_some hb
    exact .still hs' rfl rfl
  | demandWake t =>
    obtain ⟨channel, hd, hb⟩ := Option.bind_eq_some_iff.mp h
    obtain ⟨locker, _, hb⟩ := Option.bind_eq_some_iff.mp hb
    rw [channelOf, hd]
    exact demandLoop_moves (s := { s with locker := locker }) hb
  | spuriousWake t =>
    obtain ⟨locker, _, he⟩ := Option.map_eq_some_iff.mp h
    simp only [Prod.mk.injEq] at he
    obtain ⟨rfl, rfl⟩ := he
    exact .still rfl rfl rfl

/-! ## Sending -/

/-- The call that pushes. -/
def Sends : Act τ → Prop
  | .sendData _ _ _ _ _ _ => True
  | _ => False

theorem popFront_sent (messages : ChannelMap) (channel : Bytes) :
    (popFront messages channel).sent = [] := by
  unfold popFront
  split
  · rfl
  · split <;> rfl

theorem leave_sent {u : State τ} (h : u.leave unwinds t o = some (s', r)) : r.sent = o.sent := by
  obtain ⟨rfl, _⟩ := leave_eq_some h
  rfl

theorem enter_sent {needed : ℕ} {args : List LuaValue} {o : Bytes → State τ → Outcome}
    (h : s.enter t needed args (fun c u => u.leave unwinds t (o c u)) = some (s', r))
    (ho : ∀ c u, (o c u).sent = []) : r.sent = [] := by
  rcases enter_eq_some h with ⟨_, hs, _⟩ | ⟨channel, _, hb⟩
  · exact hs
  · exact (leave_sent hb).trans (ho channel _)

theorem demandLoop_sent {channel : Bytes} (h : s.demandLoop unwinds t channel = some (s', r)) :
    r.sent = [] := by
  unfold demandLoop at h
  split_ifs at h
  · obtain ⟨_, _, he⟩ := Option.map_eq_some_iff.mp h
    simp only [Prod.mk.injEq] at he
    obtain ⟨_, rfl⟩ := he
    rfl
  · exact (leave_sent h).trans (popFront_sent _ _)

theorem perform_sent {a : Act τ} (ha : ¬ Sends a) (h : s.perform unwinds a = some (s', r)) :
    r.sent = [] := by
  cases a with simp only [perform] at h
  | sendData t heap args addr fuel next => exact absurd trivial ha
  | getData t args => exact enter_sent h fun _ _ => popFront_sent _ _
  | getAllData t args => exact enter_sent h fun _ _ => rfl
  | peekData t args => exact enter_sent h fun c u => (peekSection_keeps u.messages c).1
  | peekAllData t args => exact enter_sent h fun _ _ => rfl
  | demandData t args =>
    rcases enter_eq_some h with ⟨_, hs, _⟩ | ⟨channel, _, hb⟩
    · exact hs
    · exact demandLoop_sent hb
  | getAllChannels t =>
    split_ifs at h
    obtain ⟨locker, _, hb⟩ := Option.bind_eq_some_iff.mp h
    exact leave_sent hb
  | demandWake t =>
    obtain ⟨channel, _, hb⟩ := Option.bind_eq_some_iff.mp h
    obtain ⟨locker, _, hb⟩ := Option.bind_eq_some_iff.mp hb
    exact demandLoop_sent hb
  | spuriousWake t =>
    obtain ⟨locker, _, he⟩ := Option.map_eq_some_iff.mp h
    simp only [Prod.mk.injEq] at he
    obtain ⟨_, rfl⟩ := he
    rfl

/-- `Send_Data` ends at its arguments, with a null pointer, or with one message pushed and everybody
who slept notified. -/
theorem sendData_eq_some {heap : Heap} {args : List LuaValue} {addr : ℕ → ℕ} {fuel next : ℕ}
    (h : s.perform unwinds (.sendData t heap args addr fuel next) = some (s', r)) :
    r.sent = [] ∧ r.result ≠ some (.ok (pushboolean true)) ∧ s'.demanding = s.demanding ∧
        s'.locker.cond = s.locker.cond ∨
      ∃ c next' a m, channelArg args = some c ∧
        convertData heap addr fuel next args 2 false = .ok (next', some (a, m)) ∧ r.sent = [m] ∧
        r.removed = [] ∧ r.result = some (.ok (pushboolean true)) ∧ s.demanding t = none ∧ s.locker.owner = none ∧
        s'.demanding = s.demanding ∧ s'.locker = ⟨none, s.locker.notifyAll.cond⟩ := by
  simp only [perform] at h
  rcases enter_cases h with ⟨rfl, rfl | ⟨_, rfl⟩⟩ | ⟨c, hc, hd, ho, hb⟩
  · exact .inl ⟨rfl, by simp [pushboolean], rfl, rfl⟩
  · exact .inl ⟨rfl, by simp, rfl, rfl⟩
  · cases hconv : convertData heap addr fuel next args 2 false with
    | error e => simp [hconv] at hb
    | ok result =>
      obtain ⟨next', data⟩ := result
      simp only [hconv] at hb
      obtain ⟨locker, hl, he⟩ := Option.map_eq_some_iff.mp hb
      simp only [Prod.mk.injEq] at he
      obtain ⟨rfl, rfl⟩ := he
      cases data with
      | none =>
        obtain ⟨_, rfl⟩ := Monitor.unlock_eq_some.mp hl
        exact .inl ⟨rfl, by simp [Outcome.report, sendSection, pushboolean], rfl, rfl⟩
      | some d =>
        obtain ⟨_, rfl⟩ := Monitor.unlock_eq_some.mp hl
        exact .inr ⟨c, next', d.1, d.2, hc, rfl, rfl, rfl, rfl, hd, ho, rfl, rfl⟩

/-! ## Peeking -/

/-- The calls that only look. -/
def Peeks : Act τ → Prop
  | .peekData _ _ => True
  | .peekAllData _ _ => True
  | .getAllChannels _ => True
  | _ => False

theorem leave_keeps {u : State τ} (h : u.leave unwinds t o = some (s', r))
    (hu : u.messages = s.messages) (hk : o.Keeps u.messages) :
    r.sent = [] ∧ r.removed = [] ∧ ∀ c, s'.queue c = s.queue c := by
  rw [hu] at hk
  obtain ⟨rfl, hs', _, _⟩ := leave_eq_some h
  refine ⟨hk.1, hk.2.1, fun c => ?_⟩
  rw [queue, queue, hs']
  exact hk.2.2 c

theorem perform_peeks {a : Act τ} (ha : Peeks a) (h : s.perform unwinds a = some (s', r)) :
    r.sent = [] ∧ r.removed = [] ∧ ∀ c, s'.queue c = s.queue c := by
  cases a with simp only [perform] at h
  | peekData t args =>
    rcases enter_eq_some h with ⟨rfl, hs, hr⟩ | ⟨channel, _, hb⟩
    · exact ⟨hs, hr, fun _ => rfl⟩
    · exact leave_keeps hb rfl (peekSection_keeps _ _)
  | peekAllData t args =>
    rcases enter_eq_some h with ⟨rfl, hs, hr⟩ | ⟨channel, _, hb⟩
    · exact ⟨hs, hr, fun _ => rfl⟩
    · exact leave_keeps hb rfl (peekAllSection_keeps _ _)
  | getAllChannels t =>
    split_ifs at h
    obtain ⟨locker, _, hb⟩ := Option.bind_eq_some_iff.mp h
    exact leave_keeps hb rfl (getAllChannelsSection_keeps _)
  | _ => exact ha.elim

/-! ## A listing, and the removal that follows it -/

omit [DecidableEq τ] in
theorem enter_channel {args : List LuaValue} {c : Bytes} (hc : channelArg args = some c)
    (body : Bytes → State τ → Option (State τ × Report)) :
    s.enter t 1 args body = if s.demanding t ≠ none then none
      else (s.locker.lock t).bind fun locker => body c { s with locker := locker } := by
  have hargs : ¬ args.length < 1 := by
    cases args with
    | nil => simp [channelArg, index2adr] at hc
    | cons => simp
  simp only [enter, hc, if_neg hargs]

theorem peekAllData_eq_some {args : List LuaValue} {c : Bytes} (hc : channelArg args = some c)
    (h : s.perform unwinds (.peekAllData t args) = some (s', r)) :
    r.result = some ((peekAllLoop 1 [] (s.queue c)).map .array) ∧ s'.queue c = s.queue c ∧
      s'.demanding = s.demanding ∧
      ∀ l, peekAllLoop 1 [] (s.queue c) = .ok l → s'.locker.owner = none := by
  have hkeep := (perform_peeks (a := .peekAllData t args) trivial h).2.2 c
  simp only [perform] at h
  rw [enter_channel hc] at h
  split_ifs at h
  obtain ⟨locker, _, hb⟩ := Option.bind_eq_some_iff.mp h
  obtain ⟨rfl, _, hd, hfree⟩ := leave_eq_some hb
  have hres : (peekAllSection s.messages c).result = (peekAllLoop 1 [] (s.queue c)).map .array := by
    simp only [peekAllSection, queue_getChannel]
    rfl
  refine ⟨congrArg some hres, hkeep, hd, fun l hl => hfree ?_⟩
  rw [hres, hl]
  rfl

theorem getAllData_eq_some {args : List LuaValue} {c : Bytes} (hc : channelArg args = some c)
    (h : s.perform unwinds (.getAllData t args) = some (s', r)) :
    r.result = some ((peekAllLoop 1 [] (s.queue c)).map .array) := by
  simp only [perform] at h
  rw [enter_channel hc] at h
  split_ifs at h
  obtain ⟨locker, _, hb⟩ := Option.bind_eq_some_iff.mp h
  obtain ⟨rfl, _⟩ := leave_eq_some hb
  simp only [Outcome.report, getAllSection, queue_getChannel, getAllLoop_result]
  rfl

theorem getAllData_total {args : List LuaValue} {c : Bytes} (hc : channelArg args = some c)
    (hd : s.demanding t = none) (ho : s.locker.owner = none) {l : List (ℕ × LuaTree)}
    (hl : peekAllLoop 1 [] (s.queue c) = .ok l) :
    ∃ s', s.perform unwinds (.getAllData t args) = some (s', ⟨[], s.queue c, some (.ok (.array l))⟩) := by
  have hsplit := getAllLoop_split 1 [] (s.queue c)
  rw [getAllLoop_empties hl, List.append_nil] at hsplit
  have hreport : (getAllSection s.messages c).report = ⟨[], s.queue c, some (.ok (.array l))⟩ := by
    simp only [Outcome.report, getAllSection, queue_getChannel, getAllLoop_result]
    rw [← queue, hl, hsplit]
    rfl
  have hok : (getAllSection s.messages c).result.isOk = true := by
    rw [Option.some.inj (congrArg Report.result hreport)]
    rfl
  refine ⟨⟨(getAllSection s.messages c).messages, ⟨none, s.locker.cond⟩, s.demanding⟩, ?_⟩
  simp only [perform]
  rw [enter_channel hc, if_neg (not_not.mpr hd), Monitor.lock, if_pos ho, ← hreport]
  simp [leave, hok, Monitor.unlock]

end Steps
end State

/-! ## Runs -/

variable {τ : Type} [DecidableEq τ] {unwinds : Bool}

theorem sent_eq_removed_append {h : List (State τ × Act τ)} {s : State τ}
    (hr : (system unwinds).Run System.anyStep h s) (c : Bytes) :
    sent unwinds c h = removed unwinds c h ++ s.queue c := by
  refine System.Run.invariant (I := fun h s => sent unwinds c h = removed unwinds c h ++ s.queue c)
    ?_ ?_ hr
  · rintro s rfl
    simp [sent, removed, State.queue, initial, queue]
  · intro h s a s' ih _ hs
    obtain ⟨⟨u, r⟩, hp, rfl⟩ := Option.map_eq_some_iff.mp hs
    obtain ⟨hown, hother⟩ := State.perform_moves hp
    simp only [sent, removed, State.sentBy, State.removedBy, hp, Option.map_some, Option.getD_some]
    by_cases hc : s.channelOf a = some c
    · rw [if_pos hc, if_pos hc, ih, List.append_assoc, List.append_assoc, hown c hc]
    · rw [if_neg hc, if_neg hc, ih, List.append_nil, List.append_nil, hother c hc]

/-- **Exactly once and in order.** On every channel what was sent is what was removed followed by what
waits in the queue; a step changes only its own channel, and a peek none; and what `Peek_All_Data`
lists is what a `Get_All_Data` after it returns. -/
theorem channel_delivery {h : List (State τ × Act τ)} {s : State τ}
    (hr : (system unwinds).Run System.anyStep h s) :
    (∀ c, sent unwinds c h = removed unwinds c h ++ s.queue c) ∧
    (∀ a s' r, s.perform unwinds a = some (s', r) →
      (∀ c, s.channelOf a ≠ some c → s'.queue c = s.queue c) ∧
      (State.Peeks a → r.removed = [] ∧ ∀ c, s'.queue c = s.queue c)) ∧
    ∀ t args c s' r, channelArg args = some c →
      s.perform unwinds (.peekAllData t args) = some (s', r) →
      (∃ x : Except LuaError (List (ℕ × LuaTree)), r.result = some (x.map .array) ∧
        ∀ l, x = .ok l → Lists (s.queue c) l ∧
          ∀ t' args', channelArg args' = some c → s'.demanding t' = none →
            ∃ s'', s'.perform unwinds (.getAllData t' args') =
              some (s'', ⟨[], s.queue c, some (.ok (.array l))⟩)) ∧
      ∀ t' args' s'' r', channelArg args' = some c →
        s'.perform unwinds (.getAllData t' args') = some (s'', r') → r'.result = r.result := by
  refine ⟨sent_eq_removed_append hr, fun a s' r hp => ?_, fun t args c s' r hc hp => ?_⟩
  · exact ⟨(State.perform_moves hp).2, fun ha => (State.perform_peeks ha hp).2⟩
  · obtain ⟨hres, hq, _, hfree⟩ := State.peekAllData_eq_some hc hp
    refine ⟨⟨_, hres, fun l hl => ⟨lists_of_peekAllLoop hl, fun t' args' hc' hd => ?_⟩⟩, ?_⟩
    · rw [← hq] at hl ⊢
      exact State.getAllData_total hc' hd (hfree l (hq ▸ hl)) hl
    · intro t' args' s'' r' hc' hp'
      rw [State.getAllData_eq_some hc' hp', hq, hres]

/-- Two threads send, one takes. -/
def sampleActs : List (Act Bool) :=
  let heap : Heap := ⟨fun _ => [], fun _ _ he => absurd he List.not_mem_nil, fun _ => .nil⟩
  [.sendData false heap [.string [99], .boolean true] id 1 0,
    .sendData true heap [.string [99], .boolean false] id 1 0, .getData true [.string [99]]]

theorem channel_delivery_one_left : ∃ h, ∃ s : State Bool, (system true).Run System.anyStep h s ∧
    s.queue [99] = [.boolean false] ∧ sent true [99] h = removed true [99] h ++ s.queue [99] := by
  have hstart : (system true).Reaches System.anyStep (initial : State Bool) := .start rfl
  obtain ⟨h, hr⟩ := hstart.exec sampleActs (System.along_anyStep _ _) rfl
  exact ⟨h, _, hr, rfl, (channel_delivery hr).1 [99]⟩

end LuaTT.Channel
