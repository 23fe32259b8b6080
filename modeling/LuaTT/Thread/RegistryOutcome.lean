import LuaTT.Thread.RegistryInvariant

/-! What a record tells about its worker after `setThreadExit`. The worker reports an error by a string,
and a report without a string is a success; the creating thread still holds `m_locker` while it
initialises the record, so it cannot overwrite the report. -/
namespace LuaTT.Registry
open Lua NodeList Transition State
set_option autoImplicit false

/-! ## The states of a record -/

def ErrorState (r : LuaThreadInternal) : Prop :=
  r.isRunning = false ∧ r.getError ≠ none ∧ r.shouldDelete = false

def FinishedState (r : LuaThreadInternal) : Prop :=
  r.isRunning = false ∧ r.getError = none ∧ r.shouldDelete = true

/-- The record is in the state that the statuses call for. -/
def Faithful (o : Outcome) (r : LuaThreadInternal) : Prop :=
  (ErrorState r ↔ o.Failed) ∧ (FinishedState r ↔ ¬ o.Failed)

theorem Outcome.errorResult_isSome (o : Outcome) :
    o.errorResult.isSome ↔ o.Failed ∧ o.value.isstring = true := by
  have hs := o.value.tostring_isSome
  by_cases hl : o.loadStatus = 0 <;> by_cases hc : o.callStatus = 0 <;>
    simp [errorResult, Failed, hl, hc, hs]

/-- The record after `setThreadExit`, for a worker that ended with `o`. -/
def Outcome.report (o : Outcome) (r : LuaThreadInternal) : LuaThreadInternal :=
  r.exited o.exitStatus.1 o.exitStatus.2

@[simp] theorem report_thread (o : Outcome) (r : LuaThreadInternal) :
    (o.report r).thread = r.thread := exited_thread _ _ _

@[simp] theorem report_id (o : Outcome) (r : LuaThreadInternal) : (o.report r).id = r.id :=
  exited_id _ _ _

theorem faithful_report {o : Outcome} {r : LuaThreadInternal} (he : r.error = none) :
    Faithful o (o.report r) ↔ (o.Failed → o.value.isstring = true ∧ r.delete = false) := by
  have hsome := o.errorResult_isSome
  cases hr : o.errorResult with
  | some e =>
    obtain ⟨hf, hv⟩ : o.Failed ∧ o.value.isstring = true := by simpa [hr] using hsome
    simp [Faithful, ErrorState, FinishedState, Outcome.report, Outcome.exitStatus, hr,
      LuaThreadInternal.exited, LuaThreadInternal.isRunning, LuaThreadInternal.getError,
      LuaThreadInternal.shouldDelete, LuaThreadInternal.setRunning, hf, hv]
  | none =>
    have hnot : o.Failed → o.value.isstring = false := by simpa [hr] using hsome
    by_cases hf : o.Failed
    · simp [Faithful, ErrorState, Outcome.report, Outcome.exitStatus, hr, he,
        LuaThreadInternal.exited, LuaThreadInternal.getError,
        LuaThreadInternal.setRunning, LuaThreadInternal.deleteLater, hf, hnot hf]
    · simp [Faithful, ErrorState, FinishedState, Outcome.report, Outcome.exitStatus, hr, he,
        LuaThreadInternal.exited, LuaThreadInternal.isRunning, LuaThreadInternal.getError,
        LuaThreadInternal.shouldDelete, LuaThreadInternal.setRunning,
        LuaThreadInternal.deleteLater, hf]

/-! ## Before the report -/

/-- The worker has not reported. -/
def Unreported (s : State) (n : ℕ) : Prop :=
  ∃ w, s.workers[n]? = some w ∧ w.phase.reported = none

structure Pristine (s : State) : Prop where
  registered : ∀ r ∈ objs s.threads, ∀ n, r.thread = some n → Unreported s n → r.error = none
  building : ∀ r, s.building = some r → ∀ n, r.thread = some n → Unreported s n
  cleared : ∀ c, s.creating = some c → c.stage.ErrorCleared

theorem pristine_initial : Pristine initial := by
  constructor <;> simp [initial, building, objs]

section Steps
variable {s s' : State}

theorem Extends.unreported (he : Extends s.workers s'.workers) {n : ℕ} {w : Worker}
    (hw : s.workers[n]? = some w) (hu : Unreported s' n) : Unreported s n := by
  obtain ⟨w', hw', _, ho⟩ := he n w hw
  obtain ⟨v, hv, hr⟩ := hu
  obtain rfl : w' = v := Option.some.inj (hw'.symm.trans hv)
  refine ⟨w, hw, ?_⟩
  cases hp : w.phase.reported with
  | none => rfl
  | some o => simp [ho o hp] at hr

theorem not_unreported {n : ℕ} {w : Worker} (hw : s.workers[n]? = some w)
    (hr : w.phase.reported ≠ none) : ¬ Unreported s n := by
  rintro ⟨v, hv, hvr⟩
  obtain rfl : w = v := Option.some.inj (hw.symm.trans hv)
  exact hr hvr

theorem Ids.report_thread (hi : Ids s) {n m : ℕ} {w : Worker} (hw : s.workers[n]? = some w)
    {x : LuaThreadInternal} (hx : x ∈ s.records) (hid : x.id = w.id) (hm : x.thread = some m) :
    m = n := by
  obtain ⟨v, hv, hvid⟩ := hi.owner x hx m hm
  exact hi.worker_inj hv hw (hvid.trans hid)

namespace Pristine

theorem error_eq_none (h : Pristine s) (hi : Ids s) (he : Extends s.workers s'.workers)
    {r : LuaThreadInternal} (hr : r ∈ objs s.threads) {n : ℕ} (hn : r.thread = some n)
    (hu : Unreported s' n) : r.error = none := by
  obtain ⟨w, hw, _⟩ := hi.owner r (mem_records.mpr (.inl hr)) n hn
  exact h.registered r hr n hn (he.unreported hw hu)

end Pristine

theorem pristine_step {a : Act} (h : Pristine s) (hi : Ids s) (he : Effect s a s') : Pristine s' := by
  have hext := he.workers
  cases he with
  | quiet _ ht _ hc hw =>
    refine ⟨fun r hr n hn hu => ?_, fun r hr n hn => ?_, fun c hcs => h.cleared c (hc ▸ hcs)⟩
    · exact h.error_eq_none hi hext (ht ▸ hr) hn hu
    · rw [Unreported, hw]
      exact h.building r (by simpa [State.building, hc] using hr) n hn
  | sweep _ hc =>
    refine ⟨fun r hr n hn hu => ?_, fun r hr => by simp [building, hc] at hr, h.cleared⟩
    rw [checkDeleteLater, objs_eraseIf] at hr
    exact h.error_eq_none hi hext (List.mem_of_mem_filter hr) hn hu
  | begin t hc =>
    refine ⟨fun r hr n hn hu => ?_, fun r hr => by simp [building, Stage.record] at hr, ?_⟩
    · rw [checkDeleteLater, objs_eraseIf] at hr
      exact h.error_eq_none hi hext (List.mem_of_mem_filter hr) hn hu
    · rintro c hc
      obtain rfl := Option.some.inj hc
      trivial
  | @construct g t i hc st r₀ hst _ _ hcl ws hws =>
    refine ⟨fun r hr n hn hu => h.error_eq_none hi hext hr hn hu, fun r hr n hn => ?_, ?_⟩
    · obtain rfl : r₀ = r := by simpa [building, hst] using hr
      rcases hws with ⟨_, ht⟩ | ⟨rfl, ht⟩
      · simp [ht] at hn
      · obtain rfl : s.workers.length = n := by simpa [ht] using hn
        exact ⟨⟨i, .running⟩, by simp, rfl⟩
    · rintro c hc
      obtain rfl := Option.some.inj hc
      exact hcl
  | @init a _ t i st st' r₀ r₁ hc hst hst' _ ht _ hcl =>
    refine ⟨h.registered, fun r hr n hn => ?_, ?_⟩
    · obtain rfl : r₁ = r := by simpa [building, hst'] using hr
      exact h.building r₀ (by simp [building, hc, hst]) n (ht.trans hn)
    · rintro c hc'
      obtain rfl := Option.some.inj hc'
      exact hcl (h.cleared _ hc)
  | @publish a t i r₀ hc =>
    refine ⟨fun r hr n hn hu => ?_, fun r hr => by simp [building] at hr, by simp⟩
    rw [objs_append, List.mem_append] at hr
    rcases hr with hr | hr
    · exact h.registered r hr n hn hu
    · obtain rfl : r = r₀ := by simpa [objs] using hr
      exact h.cleared _ hc n hn
  | @phase a _ n w w' hw _ hp _ =>
    refine ⟨fun r hr m hm hu => h.error_eq_none hi hext hr hm hu, fun r hr m hm => ?_, h.cleared⟩
    obtain ⟨v, hv, hvp⟩ := h.building r hr m hm
    by_cases hnm : n = m
    · subst hnm
      obtain rfl : w = v := Option.some.inj (hw.symm.trans hv)
      exact ⟨w', by simp [(List.getElem?_eq_some_iff.mp hw).1], hp.trans hvp⟩
    · exact ⟨v, by rwa [setWorker_workers, List.getElem?_set_ne hnm], hvp⟩
  | @report n i o hw hc =>
    refine ⟨fun r hr m hm hu => ?_, fun r hr => by simp [building, hc] at hr, by simp [hc]⟩
    have hnd := hi.nodup
    rw [records_of_creating_none hc] at hnd
    rcases mem_modifyFirst hnd hr with ⟨hr, _⟩ | ⟨x, hx, hid, rfl⟩
    · exact h.error_eq_none hi hext hr hm hu
    · rw [exited_thread] at hm
      obtain rfl := hi.report_thread hw (mem_records.mpr (.inl hx)) hid hm
      have hlt := (List.getElem?_eq_some_iff.mp hw).1
      exact absurd hu (not_unreported (w := ⟨i, .closing o⟩) (by simp [hlt]) (by simp [Phase.reported]))

/-! ## After the report -/

/-- Once its worker has reported, a record stays as it is or disappears. -/
theorem reported_stays {a : Act} (hp : Pristine s) (hi : Ids s) (he : Effect s a s') {n : ℕ}
    {w : Worker} (hw : s.workers[n]? = some w) (hr : w.phase.reported ≠ none)
    {r : LuaThreadInternal} (hm : r ∈ s'.records) (hn : r.thread = some n) : r ∈ s.records := by
  have hnot := not_unreported hw hr
  cases he with
  | quiet _ ht _ hc _ => exact records_congr ht hc ▸ hm
  | sweep _ hc =>
    rw [records_of_creating_none (by simpa using hc), records_checkDeleteLater s hc] at hm
    exact List.mem_of_mem_filter hm
  | begin t hc =>
    rcases mem_records.mp hm with hm | hm
    · rw [records_checkDeleteLater s hc] at hm
      exact List.mem_of_mem_filter hm
    · simp [building, Stage.record] at hm
  | @construct g t i hc st r₀ hst _ _ _ ws hws =>
    rcases mem_records.mp hm with hm | hm
    · exact mem_records.mpr (.inl hm)
    · obtain rfl : r₀ = r := by simpa [building, hst] using hm
      have hlt := (List.getElem?_eq_some_iff.mp hw).1
      rcases hws with ⟨_, ht⟩ | ⟨_, ht⟩
      · simp [ht] at hn
      · obtain rfl : s.workers.length = n := by simpa [ht] using hn
        simp at hlt
  | @init a _ t i st st' r₀ r₁ hc hst hst' _ ht _ _ =>
    rcases mem_records.mp hm with hm | hm
    · exact mem_records.mpr (.inl hm)
    · obtain rfl : r₁ = r := by simpa [building, hst'] using hm
      exact absurd (hp.building r₀ (by simp [building, hc, hst]) n (ht.trans hn)) hnot
  | publish a hc => simpa [State.records, building, hc, Stage.record, objs] using hm
  | phase => exact hm
  | @report m i o hwm hc =>
    have hnd := hi.nodup
    rw [records_of_creating_none hc] at hnd ⊢
    rw [records_of_creating_none (by simpa using hc)] at hm
    rcases mem_modifyFirst hnd hm with ⟨hm, _⟩ | ⟨x, hx, hid, rfl⟩
    · exact hm
    · rw [exited_thread] at hn
      obtain rfl := hi.report_thread hwm (mem_records.mpr (.inl hx)) hid hn
      exact absurd ⟨_, hwm, rfl⟩ hnot

end Steps

/-- The report of worker `n`, made from `s₀`, as the state `s` still shows it. -/
def Kept (s₀ s : State) (n : ℕ) : Prop :=
  ∃ id o, s₀.workers[n]? = some ⟨id, .exiting o⟩ ∧
    (∃ w, s.workers[n]? = some w ∧ w.phase.reported = some o) ∧
    ∀ r₀ ∈ objs s₀.threads, r₀.thread = some n →
      r₀.error = none ∧ ∀ r ∈ s.records, r.thread = some n → r = o.report r₀

theorem kept_self {s s' : State} {n : ℕ} (hp : Pristine s) (hi : Ids s)
    (hs : s.step (.setThreadExit n) = some s') : Kept s s' n := by
  obtain ⟨id, o, hw, hc, rfl⟩ := step_setThreadExit hs
  have hlt := (List.getElem?_eq_some_iff.mp hw).1
  refine ⟨id, o, hw, ⟨⟨id, .closing o⟩, by simp [hlt], rfl⟩, fun r₀ hr₀ hn => ⟨?_, fun r hr hrn => ?_⟩⟩
  · exact hp.registered r₀ hr₀ n hn ⟨_, hw, rfl⟩
  · have hid : ∀ x ∈ objs s.threads, x.thread = some n → x.id = id := by
      intro x hx hxn
      obtain ⟨v, hv, hvid⟩ := hi.owner x (mem_records.mpr (.inl hx)) n hxn
      obtain rfl := Option.some.inj (hw.symm.trans hv)
      exact hvid.symm
    have hnd := hi.nodup
    rw [records_of_creating_none hc] at hnd
    rw [records_of_creating_none (by simpa using hc)] at hr
    rcases mem_modifyFirst hnd hr with ⟨hr, hne⟩ | ⟨x, hx, hxid, rfl⟩
    · exact absurd (hid r hr hrn) hne
    · rw [hi.inj (mem_records.mpr (.inl hx)) (mem_records.mpr (.inl hr₀))
        (hxid.trans (hid r₀ hr₀ hn).symm)]
      rfl

theorem Kept.step {s₀ s s' : State} {n : ℕ} {a : Act} (h : Kept s₀ s n) (hp : Pristine s)
    (hi : Ids s) (he : Effect s a s') : Kept s₀ s' n := by
  obtain ⟨id, o, hw₀, ⟨w, hw, ho⟩, hrep⟩ := h
  obtain ⟨w', hw', _, hkeep⟩ := he.workers n w hw
  refine ⟨id, o, hw₀, ⟨w', hw', hkeep o ho⟩, fun r₀ hr₀ hn => ⟨(hrep r₀ hr₀ hn).1, fun r hr hrn => ?_⟩⟩
  exact (hrep r₀ hr₀ hn).2 r (reported_stays hp hi he hw (by simp [ho]) hr hrn) hrn

theorem run_kept {h : List (State × Act)} {s : State} (hr : system.Run FewCreations h s) :
    Ids s ∧ Pristine s ∧ ∀ s₀ n, (s₀, Act.setThreadExit n) ∈ h → Kept s₀ s n := by
  refine hr.invariant (I := fun h s => Ids s ∧ Pristine s ∧
    ∀ s₀ n, (s₀, Act.setThreadExit n) ∈ h → Kept s₀ s n) ?_ ?_
  · rintro s rfl
    exact ⟨ids_initial, pristine_initial, by simp⟩
  · rintro h s a s' ⟨hi, hp, hk⟩ hok hs
    have he := step_effect hs
    refine ⟨ids_step hi hok he, pristine_step hp hi he, fun s₀ n hm => ?_⟩
    rcases List.mem_cons.mp hm with heq | hm
    · obtain ⟨rfl, rfl⟩ := Prod.mk.inj heq
      exact kept_self hp hi hs
    · exact (hk s₀ n hm).step hp hi he

/-- **Faithful outcomes.** The step `setThreadExit` keeps the record, and ever after, while the record
is registered, it shows the outcome exactly when a failure left a string or a number as error value and
the record's memory did not already say that it is to be deleted. -/
theorem worker_outcome_faithful {h : List (State × Act)} {s : State}
    (hr : system.Run FewCreations h s) {s₀ s₁ : State} {n : ℕ} (hm : (s₀, Act.setThreadExit n) ∈ h)
    (hs : s₀.step (.setThreadExit n) = some s₁) :
    ∃ id o, s₀.workers[n]? = some ⟨id, .exiting o⟩ ∧
      ∀ r₀ ∈ objs s₀.threads, r₀.thread = some n →
        (∃ r ∈ objs s₁.threads, r.thread = some n) ∧
        ∀ r ∈ objs s.threads, r.thread = some n →
          (Faithful o r ↔ (o.Failed → o.value.isstring = true ∧ r₀.shouldDelete = false)) := by
  obtain ⟨id, o, hw, _, hrep⟩ := (run_kept hr).2.2 s₀ n hm
  refine ⟨id, o, hw, fun r₀ hr₀ hn => ⟨?_, fun r hr hrn => ?_⟩⟩
  · obtain ⟨_, _, _, _, rfl⟩ := step_setThreadExit hs
    have hmem : r₀.thread ∈ (objs s₀.threads).map (·.thread) := List.mem_map_of_mem hr₀
    rw [← map_modifyFirst (·.thread) (fun x => exited_thread _ _ x)] at hmem
    obtain ⟨r, hr, he⟩ := List.mem_map.mp hmem
    exact ⟨r, hr, he.trans hn⟩
  · obtain ⟨he, hall⟩ := hrep r₀ hr₀ hn
    rw [hall r (mem_records.mpr (.inl hr)) hrn]
    exact faithful_report he

/-! ## One worker that fails -/

def oneWorker : List Act :=
  [.enable, .newThread .main, .construct ⟨false, none, false⟩, .initError, .initRunning, .publish 0]

/-- The only record, and its worker in the phase `p`. -/
def withWorker (r : LuaThreadInternal) (p : Phase) : State :=
  ⟨true, 1, [⟨0, r⟩], none, [⟨1, p⟩], fun _ => false, fun _ => .idle, false⟩

theorem oneWorker_run (o : Outcome) : ∃ h,
    (withWorker ⟨some 0, 1, true, none, false⟩ (.exiting o)).step (.setThreadExit 0) =
      some (withWorker (o.report ⟨some 0, 1, true, none, false⟩) (.closing o)) ∧
    system.Run FewCreations
      ((withWorker ⟨some 0, 1, true, none, false⟩ (.exiting o), .setThreadExit 0) :: h)
      (withWorker (o.report ⟨some 0, 1, true, none, false⟩) (.closing o)) := by
  have hstart : system.Reaches FewCreations initial := .start rfl
  have hmade : system.Reaches FewCreations (withWorker ⟨some 0, 1, true, none, false⟩ .running) :=
    hstart.exec oneWorker (by decide) rfl
  have hend : system.Reaches FewCreations
      (withWorker ⟨some 0, 1, true, none, false⟩ (.exiting o)) :=
    hmade.next (a := .workerEnd 0 o) trivial rfl
  obtain ⟨h, hr⟩ := hend
  exact ⟨h, rfl, .next hr trivial rfl⟩

theorem worker_outcome_faithful_string : ∃ h s, system.Run FewCreations h s ∧
    ∃ r ∈ objs s.threads, r.thread = some 0 ∧
      Faithful ⟨0, 2, .string [98, 111, 111, 109]⟩ r := by
  obtain ⟨h, hs, hr⟩ := oneWorker_run ⟨0, 2, .string [98, 111, 111, 109]⟩
  obtain ⟨id, o, hw, hall⟩ := worker_outcome_faithful hr (List.mem_cons_self ..) hs
  obtain ⟨_, rfl⟩ : (1 : ThreadId) = id ∧ (⟨0, 2, .string [98, 111, 111, 109]⟩ : Outcome) = o := by
    simpa [withWorker] using hw
  obtain ⟨_, hrec⟩ := hall _ (List.mem_singleton_self _) rfl
  refine ⟨_, _, hr, _, List.mem_singleton_self _, rfl, ?_⟩
  exact (hrec _ (List.mem_singleton_self _) rfl).mpr fun _ => ⟨rfl, rfl⟩

/-- The error value is a table: the record says that the worker finished. -/
theorem worker_outcome_table_error : ¬ ∀ h s, system.Run FewCreations h s → ∀ s₀ n id o,
    (s₀, Act.setThreadExit n) ∈ h → s₀.workers[n]? = some ⟨id, .exiting o⟩ →
    ∀ r ∈ objs s.threads, r.thread = some n → Faithful o r := by
  intro hall
  obtain ⟨h, _, hr⟩ := oneWorker_run ⟨0, 2, .table 0⟩
  have hf := hall _ _ hr _ 0 1 ⟨0, 2, .table 0⟩ (List.mem_cons_self ..) rfl _
    (List.mem_singleton_self _) rfl
  rw [faithful_report rfl] at hf
  exact absurd (hf (by decide)) (by decide)

end LuaTT.Registry
