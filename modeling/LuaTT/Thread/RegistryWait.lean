import LuaTT.Thread.Registry

/-! When `Wait_Thread` is safe. It keeps an iterator to the record, and then the record itself, after it
has released `m_locker`, so a sweep by another thread can take either away; and it asks neither whether
the record has a thread nor whose thread that is. -/
namespace LuaTT.Registry
open NodeList Transition State
set_option autoImplicit false

/-! ## The property -/

structure WaitSafe (s : State) : Prop where
  defined : s.undefined = false
  /-- The iterator still leads to the record that was looked up, and that has a thread. -/
  found : ∀ t i a, s.waiting t = .found i a →
    ∃ r, deref s.threads a = some r ∧ r.id = i ∧ r.thread ≠ none
  /-- The record whose thread is joined is still registered. -/
  alive : ∀ t n, s.waiting t = .joining n → ∃ r ∈ objs s.threads, r.thread = some n
  notSelf : ∀ t n, s.waiting t = .joining n → t ≠ .worker n
  single : ∀ t t' n, s.waiting t = .joining n → s.waiting t' = .joining n → t = t'

/-- A sweep leaves alone what the threads in `Wait_Thread` hold: it removes no record up to a node that
an iterator leads to, and none whose thread is being joined. -/
def Spares (s : State) : Prop :=
  ∀ t, match s.waiting t with
    | .idle => True
    | .found _ a => KeptThrough (·.shouldDelete) a s.threads
    | .joining n => ∀ r ∈ objs s.threads, r.thread = some n → r.shouldDelete = false

/-- `Wait_Thread` is called for a record with a thread that is not the caller's, it goes on to a join
only where nobody joins already, and no sweep disturbs it. -/
def Guarded (s : State) : Act → Prop
  | .waitThread t i => ∀ nd, findThread s.threads i = some nd →
      ∃ n, nd.obj.thread = some n ∧ t ≠ .worker n
  | .waitDeref t => ∀ i a n, s.waiting t = .found i a →
      (deref s.threads a).bind (·.thread) = some n → s.joined n = false →
      ∀ t', s.waiting t' ≠ .joining n
  | .newThread _ => Spares s
  | .isThreadRunning _ _ => Spares s
  | .removeThread _ _ => Spares s
  | _ => True

/-! ## The invariant -/

structure Held (s : State) : Prop where
  defined : s.undefined = false
  nodup : (addrs s.threads).Nodup
  found : ∀ t i a, s.waiting t = .found i a →
    ∃ r n, deref s.threads a = some r ∧ r.id = i ∧ r.thread = some n ∧ t ≠ .worker n
  joining : ∀ t n, s.waiting t = .joining n →
    (∃ r ∈ objs s.threads, r.thread = some n) ∧ t ≠ .worker n
  single : ∀ t t' n, s.waiting t = .joining n → s.waiting t' = .joining n → t = t'

theorem held_initial : Held initial := by
  constructor <;> simp [initial, addrs]

namespace Held
variable {s s' : State}

theorem safe (h : Held s) : WaitSafe s where
  defined := h.defined
  found t i a hw := by
    obtain ⟨r, n, hd, hi, hn, _⟩ := h.found t i a hw
    exact ⟨r, hd, hi, by simp [hn]⟩
  alive t n hw := (h.joining t n hw).1
  notSelf t n hw := (h.joining t n hw).2
  single := h.single

theorem of_threads (h : Held s) (hw : s'.waiting = s.waiting) (hu : s'.undefined = s.undefined)
    (hn : (addrs s'.threads).Nodup)
    (hf : ∀ t i a, s.waiting t = .found i a → (deref s'.threads a).map (fun r => (r.id, r.thread)) =
      (deref s.threads a).map fun r => (r.id, r.thread))
    (hj : ∀ t n, s.waiting t = .joining n → (∃ r ∈ objs s.threads, r.thread = some n) →
      ∃ r ∈ objs s'.threads, r.thread = some n) : Held s' := by
  refine ⟨hu.trans h.defined, hn, fun t i a hwt => ?_, fun t n hwt => ?_, hw ▸ h.single⟩ <;>
    rw [hw] at hwt
  · obtain ⟨r, n, hr, hi, hn, hne⟩ := h.found t i a hwt
    have he := hf t i a hwt
    rw [hr] at he
    obtain ⟨r', hr', hp⟩ := Option.map_eq_some_iff.mp he
    obtain ⟨hi', ht'⟩ : r'.id = r.id ∧ r'.thread = r.thread := by simpa using hp
    exact ⟨r', n, hr', hi'.trans hi, ht'.trans hn, hne⟩
  · exact ⟨hj t n hwt (h.joining t n hwt).1, (h.joining t n hwt).2⟩

theorem sweep (h : Held s) (hs : Spares s) (ht : s'.threads = checkDeleteLater s.threads)
    (hw : s'.waiting = s.waiting) (hu : s'.undefined = s.undefined) : Held s' := by
  refine h.of_threads hw hu ?_ (fun t i a hwt => ?_) fun t n hwt hr => ?_
  · rw [ht]
    exact h.nodup.sublist (addrs_eraseIf _ _).sublist
  · have hk := hs t
    simp only [hwt] at hk
    rw [ht, checkDeleteLater, deref_eraseIf hk]
  · have hk := hs t
    simp only [hwt] at hk
    obtain ⟨r, hr, hn⟩ := hr
    refine ⟨r, ?_, hn⟩
    rw [ht, checkDeleteLater, objs_eraseIf]
    exact List.mem_filter.mpr ⟨hr, by simp [hk r hr hn]⟩

theorem same (h : Held s) (ht : s'.threads = s.threads) (hw : s'.waiting = s.waiting)
    (hu : s'.undefined = s.undefined) : Held s' :=
  h.of_threads hw hu (ht ▸ h.nodup) (fun _ _ _ _ => by rw [ht]) fun _ _ _ hr => ht ▸ hr

theorem setWaiting (h : Held s) {t : Tid} {p : Wait}
    (hf : ∀ i a, p = .found i a →
      ∃ r n, deref s.threads a = some r ∧ r.id = i ∧ r.thread = some n ∧ t ≠ .worker n)
    (hj : ∀ n, p = .joining n → (∃ r ∈ objs s.threads, r.thread = some n) ∧ t ≠ .worker n ∧
      ∀ t', s.waiting t' ≠ .joining n) :
    Held (s.setWaiting t p) := by
  have hself : (s.setWaiting t p).waiting t = p := by simp [State.setWaiting]
  have hother : ∀ t', t' ≠ t → (s.setWaiting t p).waiting t' = s.waiting t' := fun t' hne => by
    simp [State.setWaiting, Function.update_of_ne hne]
  refine ⟨h.defined, h.nodup, fun t' i a hw => ?_, fun t' n hw => ?_, fun t₁ t₂ n h₁ h₂ => ?_⟩
  · by_cases ht : t' = t
    · subst ht
      exact hf i a (hself ▸ hw)
    · exact h.found t' i a (hother t' ht ▸ hw)
  · by_cases ht : t' = t
    · subst ht
      obtain ⟨hr, hne, _⟩ := hj n (hself ▸ hw)
      exact ⟨hr, hne⟩
    · exact h.joining t' n (hother t' ht ▸ hw)
  · by_cases ht₁ : t₁ = t <;> by_cases ht₂ : t₂ = t
    · exact ht₁.trans ht₂.symm
    · subst ht₁
      exact absurd (hother t₂ ht₂ ▸ h₂) ((hj n (hself ▸ h₁)).2.2 t₂)
    · subst ht₂
      exact absurd (hother t₁ ht₁ ▸ h₁) ((hj n (hself ▸ h₂)).2.2 t₁)
    · exact h.single t₁ t₂ n (hother t₁ ht₁ ▸ h₁) (hother t₂ ht₂ ▸ h₂)

end Held

theorem held_step {s s' : State} {a : Act} (h : Held s) (hok : Guarded s a)
    (hs : s.step a = some s') : Held s' := by
  cases a with
  | enable =>
    obtain rfl := step_enable hs
    exact h.same rfl rfl rfl
  | newThread t =>
    obtain ⟨_, _, rfl⟩ := step_newThread hs
    exact h.sweep hok rfl rfl rfl
  | construct g =>
    obtain ⟨_, _, _, ⟨_, rfl⟩ | ⟨_, rfl⟩⟩ := step_construct hs <;> exact h.same rfl rfl rfl
  | initError =>
    obtain ⟨_, _, _, _, rfl⟩ := step_initError hs
    exact h.same rfl rfl rfl
  | initRunning =>
    obtain ⟨_, _, _, _, rfl⟩ := step_initRunning hs
    exact h.same rfl rfl rfl
  | publish a =>
    obtain ⟨_, _, r, _, ha, rfl⟩ := step_publish hs
    refine h.of_threads rfl rfl ?_ (fun t i b hw => ?_) fun t n _ ⟨x, hx, hn⟩ => ⟨x, ?_, hn⟩
    · rw [addrs_append]
      refine List.nodup_append.mpr ⟨h.nodup, by simp [addrs], ?_⟩
      rintro b hb c hc rfl
      obtain rfl : b = a := by simpa [addrs] using hc
      exact ha hb
    · obtain ⟨x, n, hx, _⟩ := h.found t i b hw
      rw [deref_push _ hx, hx]
    · rw [objs_append]
      exact List.mem_append_left _ hx
  | isThreadRunning t i =>
    obtain ⟨_, _, rfl⟩ := step_isThreadRunning hs
    exact h.sweep hok rfl rfl rfl
  | getThreadError t i =>
    obtain ⟨_, _, rfl⟩ := step_getThreadError hs
    exact h
  | removeThread t i =>
    obtain ⟨_, _, rfl⟩ := step_removeThread hs
    exact h.sweep hok rfl rfl rfl
  | workerEnd n o =>
    obtain ⟨_, _, _, rfl⟩ := step_workerEnd hs
    exact h.same rfl rfl rfl
  | setThreadExit n =>
    obtain ⟨i, o, _, _, rfl⟩ := step_setThreadExit hs
    have hkeep : ∀ x : LuaThreadInternal,
        ((x.exited o.exitStatus.1 o.exitStatus.2).id, (x.exited o.exitStatus.1 o.exitStatus.2).thread) =
          (x.id, x.thread) := by simp
    refine h.of_threads rfl rfl ?_ (fun t j b hw => ?_) fun t n _ ⟨x, hx, hn⟩ => ?_
    · exact (addrs_modifyFirst _ _ s.threads).symm ▸ h.nodup
    · exact deref_modifyFirst (fun r => (r.id, r.thread)) hkeep s.threads b
    · have hmem : some n ∈ (objs s.threads).map (·.thread) := hn ▸ List.mem_map_of_mem hx
      rw [← map_modifyFirst (·.thread) fun x => exited_thread o.exitStatus.1 o.exitStatus.2 x] at hmem
      obtain ⟨y, hy, hyn⟩ := List.mem_map.mp hmem
      exact ⟨y, hy, hyn⟩
  | workerReturn n =>
    obtain ⟨_, _, _, _, rfl⟩ := step_workerReturn hs
    exact h.same rfl rfl rfl
  | waitThread t i =>
    obtain ⟨_, _, ⟨nd, hnd, rfl⟩ | ⟨_, rfl⟩⟩ := step_waitThread hs
    · obtain ⟨n, hn, hne⟩ := hok nd hnd
      have hid : nd.obj.id = i := by simpa using List.find?_some hnd
      have hd := deref_eq h.nodup (List.mem_of_find?_eq_some hnd)
      refine h.setWaiting ?_ (by simp)
      rintro j b hp
      obtain ⟨rfl, rfl⟩ : i = j ∧ nd.addr = b := by simpa using hp
      exact ⟨nd.obj, n, hd, hid, hn, hne⟩
    · exact h
  | waitDeref t =>
    obtain ⟨i, b, hw, ⟨n, hn, rfl⟩ | ⟨hn, _⟩⟩ := step_waitDeref hs <;>
      obtain ⟨r, m, hr, _, hm, hne⟩ := h.found t i b hw
    · obtain rfl : m = n := by simpa [hr, hm] using hn
      refine h.setWaiting (fun j c hp => ?_) fun k hp => ?_
      · split_ifs at hp
      · split_ifs at hp with hj
        obtain rfl := Wait.joining.inj hp
        exact ⟨⟨r, deref_mem hr, hm⟩, hne, hok i b m hw hn (Bool.eq_false_iff.mpr hj)⟩
    · simp [hr, hm] at hn
  | waitJoined t =>
    obtain ⟨n, _, _, _, _, rfl⟩ := step_waitJoined hs
    have hidle : Held (s.setWaiting t .idle) := h.setWaiting (by simp) (by simp)
    exact hidle.same rfl rfl rfl

/-- **`Wait_Thread` is safe** in every run whose steps are guarded. -/
theorem wait_thread_safe {s : State} (hr : system.Reaches Guarded s) : WaitSafe s := by
  have hheld : Held s := hr.invariant (fun _ hi => hi ▸ held_initial) fun _ _ _ h hok hs =>
    held_step h hok hs
  exact hheld.safe

/-- A running worker with a record, and nobody in `Wait_Thread`. -/
def oneRecord : State :=
  ⟨true, 1, [⟨0, ⟨some 0, 1, true, none, false⟩⟩], none, [⟨1, .running⟩], fun _ => false,
    fun _ => .idle, false⟩

/-- The main thread waits for a worker. -/
theorem wait_thread_safe_joining : ∃ s, s.waiting .main = .joining 0 ∧ WaitSafe s := by
  have hstart : system.Reaches Guarded initial := .start rfl
  have hmade : system.Reaches Guarded oneRecord :=
    hstart.exec [.enable, .newThread .main, .construct ⟨false, none, false⟩, .initError,
        .initRunning, .publish 0]
      ⟨trivial, fun _ => trivial, trivial, trivial, trivial, trivial, trivial⟩ rfl
  have hguard : Guarded oneRecord (.waitThread .main 1) := by
    intro nd hnd
    obtain rfl := Option.some.inj hnd
    exact ⟨0, rfl, by simp⟩
  have hfound := hmade.next hguard rfl
  have hjoin : Guarded (oneRecord.setWaiting .main (.found 1 0)) (.waitDeref .main) := by
    intro _ _ n _ _ _ t'
    by_cases ht : t' = .main <;> simp [State.setWaiting, oneRecord, ht]
  exact ⟨_, rfl, wait_thread_safe (hfound.next hjoin rfl)⟩

/-- The record was created before the first think hook: it has no thread. -/
theorem wait_thread_null : ¬ ∀ s, system.Reaches System.anyStep s → WaitSafe s := by
  intro hall
  have hstart : system.Reaches System.anyStep initial := .start rfl
  have hend := hstart.exec [.newThread .main, .construct ⟨false, none, false⟩, .publish 0,
    .waitThread .main 1, .waitDeref .main] (System.along_anyStep _ _) rfl
  exact absurd (hall _ hend).defined (by decide)

end LuaTT.Registry
