import LuaTT.Thread.RegistryOutcome

/-! How records enter and leave the registry. `Remove_Thread` never marks a record, so all it does is to
sweep out the records that are marked already; a mark comes from `setThreadExit`, or was in the record's
memory from the beginning. -/
namespace LuaTT.Registry
open Lua NodeList Transition State
set_option autoImplicit false

/-! ## The property -/

/-- The ids given out in a run, the latest first. -/
def created (h : List (State × Act)) : List ThreadId :=
  h.filterMap fun
    | (s, .newThread _) => some s.getNewID
    | _ => none

/-- The worker of the record has reported success. -/
def FinishedWorker (s : State) (r : LuaThreadInternal) : Prop :=
  ∃ n w o, r.thread = some n ∧ s.workers[n]? = some w ∧ w.phase.reported = some o ∧ ¬ o.Failed

/-- What the step `a` from `s` to `s'` does, after the run `h`. -/
structure Lifecycle (h : List (State × Act)) (s : State) (a : Act) (s' : State) : Prop where
  distinct : ((objs s'.threads).map (·.id)).Nodup
  neverReused : (created ((s, a) :: h)).Nodup
  fromCreation : ∀ r ∈ objs s'.threads, r.id ∈ created ((s, a) :: h)
  leaves : ∀ r ∈ objs s.threads, r.id ∉ (objs s'.threads).map (·.id) →
    FinishedWorker s r ∨ ∃ s₀ t, (s₀, Act.removeThread t r.id) ∈ (s, a) :: h
  removes : ∀ t id, a = .removeThread t id → ∀ r ∈ objs s'.threads, r.id ≠ id
  keepsOthers : ∀ t id, a = .removeThread t id →
    ∀ r ∈ objs s.threads, r.id ≠ id → r.shouldDelete = false → r ∈ objs s'.threads

/-- New records start unmarked, errors are strings or numbers, and `Remove_Thread` is called for marked
records only, or for none. -/
def Marked (s : State) : Act → Prop
  | .newThread _ => s.getNewID ≠ 0
  | .construct g => g.delete = false
  | .workerEnd _ o => o.Failed → o.value.isstring = true
  | .removeThread _ i => ∀ r ∈ objs s.threads, r.id = i → r.shouldDelete = true
  | _ => True

instance (s : State) : (a : Act) → Decidable (Marked s a)
  | .newThread _ => inferInstanceAs (Decidable (s.getNewID ≠ 0))
  | .construct g => inferInstanceAs (Decidable (g.delete = false))
  | .workerEnd _ o => inferInstanceAs (Decidable (o.Failed → o.value.isstring = true))
  | .removeThread _ i =>
    inferInstanceAs (Decidable (∀ r ∈ objs s.threads, r.id = i → r.shouldDelete = true))
  | .enable | .initError | .initRunning | .publish _ | .isThreadRunning _ _ | .getThreadError _ _
  | .setThreadExit _ | .workerReturn _ | .waitThread _ _ | .waitDeref _ | .waitJoined _ => isTrue trivial

theorem Marked.fewCreations {s : State} {a : Act} (h : Marked s a) : FewCreations s a := by
  cases a with
  | newThread t => exact h
  | _ => trivial

section Steps
variable {s s' : State} {a : Act}

/-! ## Where records come from, and where they stay -/

/-- A record after the step is an old one that keeps its mark, the one just constructed, or the one just
reported. -/
theorem Effect.record (he : Effect s a s') (hi : Ids s) {r' : LuaThreadInternal}
    (hm : r' ∈ s'.records) :
    (∃ r ∈ s.records, r.id = r'.id ∧ r.thread = r'.thread ∧ r.delete = r'.delete) ∨
      (∃ t i g, a = .construct g ∧ s.creating = some ⟨t, i, .construct⟩ ∧ r'.id = i ∧
        r'.delete = g.delete) ∨
      ∃ n i o, a = .setThreadExit n ∧ s.workers[n]? = some ⟨i, .exiting o⟩ ∧
        ∃ r ∈ s.records, r.id = i ∧ r' = o.report r := by
  have hold : r' ∈ s.records →
      ∃ r ∈ s.records, r.id = r'.id ∧ r.thread = r'.thread ∧ r.delete = r'.delete :=
    fun h => ⟨r', h, rfl, rfl, rfl⟩
  cases he with
  | quiet _ ht _ hc _ => exact .inl (hold (records_congr ht hc ▸ hm))
  | sweep _ hc =>
    rw [records_of_creating_none (by simpa using hc), records_checkDeleteLater s hc] at hm
    exact .inl (hold (List.mem_of_mem_filter hm))
  | begin t hc =>
    rcases mem_records.mp hm with hm | hm
    · rw [records_checkDeleteLater s hc] at hm
      exact .inl (hold (List.mem_of_mem_filter hm))
    · simp [building, Stage.record] at hm
  | @construct g t i hc st r hst hid hd _ _ _ =>
    rcases mem_records.mp hm with hm | hm
    · exact .inl (hold (mem_records.mpr (.inl hm)))
    · obtain rfl : r = r' := by simpa [building, hst] using hm
      exact .inr (.inl ⟨t, i, g, rfl, hc, hid, hd⟩)
  | @init a _ t i st st' r r₁ hc hst hst' hid ht hd _ =>
    rcases mem_records.mp hm with hm | hm
    · exact .inl (hold (mem_records.mpr (.inl hm)))
    · obtain rfl : r₁ = r' := by simpa [building, hst'] using hm
      exact .inl ⟨r, mem_records.mpr (.inr (by simp [building, hc, hst])), hid, ht, hd⟩
  | publish a hc =>
    exact .inl (hold (by simpa [State.records, building, hc, Stage.record, objs] using hm))
  | phase => exact .inl (hold hm)
  | @report n i o hw hc =>
    have hnd := hi.nodup
    rw [records_of_creating_none hc] at hnd ⊢
    rw [records_of_creating_none (by simpa using hc)] at hm
    rcases mem_modifyFirst hnd hm with ⟨hm, _⟩ | ⟨r, hr, hid, rfl⟩
    · exact .inl ⟨r', hm, rfl, rfl, rfl⟩
    · exact .inr (.inr ⟨n, i, o, rfl, hw, r, hr, hid, rfl⟩)

theorem Effect.keeps (he : Effect s a s') {r : LuaThreadInternal} (hr : r ∈ objs s.threads)
    (hd : r.shouldDelete = false) : r.id ∈ (objs s'.threads).map (·.id) := by
  have hmem : r.id ∈ (objs s.threads).map (·.id) := List.mem_map_of_mem hr
  have hsweep : r.id ∈ (objs (checkDeleteLater s.threads)).map (·.id) := by
    rw [checkDeleteLater, objs_eraseIf]
    exact List.mem_map_of_mem (List.mem_filter.mpr ⟨hr, by simp [hd]⟩)
  cases he with
  | quiet _ ht _ _ _ => exact ht ▸ hmem
  | sweep | begin => exact hsweep
  | construct | init | phase => exact hmem
  | publish a hc =>
    rw [objs_append, List.map_append]
    exact List.mem_append_left _ hmem
  | report hw hc =>
    rw [setWorker_threads, setThreadExit, map_modifyFirst (·.id) fun x => exited_id _ _ x]
    exact hmem

/-! ## The ids given out -/

theorem created_cons (h : List (State × Act)) (hn : ∀ t, a ≠ .newThread t) :
    created ((s, a) :: h) = created h := by
  cases a with
  | newThread t => exact absurd rfl (hn t)
  | _ => rfl

/-- The ids given out are distinct, none is above the counter, and every record has one. -/
structure Counted (h : List (State × Act)) (s : State) : Prop where
  nodup : (created h).Nodup
  issued : ∀ i ∈ created h, i ≤ s.id
  records : ∀ r ∈ s.records, r.id ∈ created h
  building : ∀ c, s.creating = some c → c.id ∈ created h

theorem Effect.counter (he : Effect s a s') :
    (∃ t, a = .newThread t) ∨ (∀ t, a ≠ .newThread t) ∧ s'.id = s.id ∧
      ∀ c', s'.creating = some c' → ∃ c, s.creating = some c ∧ c.id = c'.id := by
  cases he with
  | quiet hn _ hi hc _ => exact .inr ⟨hn, hi, fun c' h => ⟨c', hc ▸ h, rfl⟩⟩
  | sweep hn hc => exact .inr ⟨hn, rfl, fun c' h => ⟨c', h, rfl⟩⟩
  | begin t hc => exact .inl ⟨t, rfl⟩
  | construct g hc =>
    exact .inr ⟨by simp, rfl, fun c' h => ⟨_, hc, by simp [← Option.some.inj h]⟩⟩
  | init hn hc => exact .inr ⟨hn, rfl, fun c' h => ⟨_, hc, by simp [← Option.some.inj h]⟩⟩
  | publish a hc => exact .inr ⟨by simp, rfl, by simp⟩
  | phase hn => exact .inr ⟨hn, rfl, fun c' h => ⟨c', h, rfl⟩⟩
  | report => exact .inr ⟨by simp, rfl, fun c' h => ⟨c', h, rfl⟩⟩

theorem Counted.newThread {h : List (State × Act)} {t : Tid} (hk : Counted h s)
    (hid : s.getNewID ≠ 0) (hs : s.step (.newThread t) = some s') :
    Counted ((s, .newThread t) :: h) s' := by
  obtain ⟨_, hc, rfl⟩ := step_newThread hs
  have hlt : ∀ i ∈ created h, i < s.getNewID := by
    intro i hm
    have hle := hk.issued i hm
    simp only [getNewID] at hid ⊢
    bv_omega
  have hcons : created ((s, .newThread t) :: h) = s.getNewID :: created h := rfl
  refine ⟨?_, fun i hm => ?_, fun r hr => ?_, fun c hc' => ?_⟩
  · rw [hcons, List.nodup_cons]
    refine ⟨fun hm => ?_, hk.nodup⟩
    have h' := hlt _ hm
    bv_omega
  · rcases List.mem_cons.mp (hcons ▸ hm) with rfl | hm
    · simp
    · have h' := hlt i hm
      show i ≤ s.getNewID
      bv_omega
  · rw [hcons]
    refine List.mem_cons_of_mem _ (hk.records r ?_)
    rcases mem_records.mp hr with hr | hr
    · rw [records_checkDeleteLater s hc] at hr
      exact List.mem_of_mem_filter hr
    · simp [State.building, Stage.record] at hr
  · obtain rfl := Option.some.inj hc'
    exact hcons ▸ List.mem_cons_self ..

theorem counted_step {h : List (State × Act)} (hk : Counted h s) (hi : Ids s)
    (hok : FewCreations s a) (hs : s.step a = some s') : Counted ((s, a) :: h) s' := by
  have he := step_effect hs
  rcases he.counter with ⟨t, rfl⟩ | ⟨hn, hid, hcr⟩
  · exact hk.newThread hok hs
  refine ⟨?_, ?_, fun r' hr' => ?_, fun c' hc' => ?_⟩ <;> rw [created_cons h hn]
  · exact hk.nodup
  · exact hid ▸ hk.issued
  · rcases he.record hi hr' with ⟨r, hr, heq, _⟩ | ⟨t, i, g, _, hc, heq, _⟩ |
      ⟨n, i, o, _, _, r, hr, _, rfl⟩
    · exact heq ▸ hk.records r hr
    · exact heq ▸ hk.building _ hc
    · exact report_id o r ▸ hk.records r hr
  · obtain ⟨c, hcs, heq⟩ := hcr c' hc'
    exact heq ▸ hk.building c hcs

/-! ## The marks -/

/-- In a run that meets the condition, only a worker that reported success has its record marked. -/
structure Scheduled (s : State) : Prop where
  marked : ∀ r ∈ s.records, r.delete = true → FinishedWorker s r
  exiting : ∀ w ∈ s.workers, ∀ o, w.phase = .exiting o → o.Failed → o.value.isstring = true

theorem FinishedWorker.step {r r' : LuaThreadInternal} (h : FinishedWorker s r)
    (ht : r.thread = r'.thread) (he : Extends s.workers s'.workers) : FinishedWorker s' r' := by
  obtain ⟨n, w, o, hn, hw, ho, hf⟩ := h
  obtain ⟨w', hw', _, hkeep⟩ := he n w hw
  exact ⟨n, w', o, ht ▸ hn, hw', hkeep o ho, hf⟩

theorem Effect.exiting (he : Effect s a s') {w : Worker} (hw : w ∈ s'.workers) {o : Outcome}
    (hp : w.phase = .exiting o) : w ∈ s.workers ∨ ∃ n, a = .workerEnd n o := by
  cases he with
  | quiet _ _ _ _ hws => exact .inl (hws ▸ hw)
  | sweep | begin | init | publish => exact .inl hw
  | construct g _ _ _ _ _ hws =>
    rcases hws with ⟨rfl, _⟩ | ⟨rfl, _⟩
    · exact .inl hw
    · rcases List.mem_append.mp hw with hw | hw
      · exact .inl hw
      · simp [List.mem_singleton.mp hw] at hp
  | phase _ _ _ _ he =>
    rcases List.mem_or_eq_of_mem_set hw with hw | rfl
    · exact .inl hw
    · exact .inr ⟨_, he o hp⟩
  | report =>
    rcases List.mem_or_eq_of_mem_set hw with hw | rfl
    · exact .inl hw
    · simp at hp

theorem report_delete {o : Outcome} {r : LuaThreadInternal}
    (hv : o.Failed → o.value.isstring = true) (hd : (o.report r).delete = true) :
    r.delete = true ∨ ¬ o.Failed := by
  have hsome := o.errorResult_isSome
  cases hr : o.errorResult with
  | some e =>
    left
    simpa [Outcome.report, Outcome.exitStatus, hr, LuaThreadInternal.exited,
      LuaThreadInternal.setRunning] using hd
  | none =>
    right
    intro hf
    simp [hr, hf, hv hf] at hsome

theorem scheduled_step (h : Scheduled s) (hi : Ids s) (hok : Marked s a)
    (hs : s.step a = some s') : Scheduled s' := by
  have he := step_effect hs
  refine ⟨fun r' hr' hd => ?_, fun w hw o hp => ?_⟩
  · rcases he.record hi hr' with ⟨r, hr, _, ht, hdel⟩ | ⟨_, _, g, rfl, _, _, hg⟩ |
      ⟨n, i, o, rfl, hw, r, hr, hid, rfl⟩
    · exact (h.marked r hr (hdel.trans hd)).step ht he.workers
    · have hg' : g.delete = false := hok
      simp [← hg, hd] at hg'
    · have hv := h.exiting _ (List.mem_of_getElem? hw) o rfl
      rcases report_delete hv hd with hd | hf
      · exact (h.marked r hr hd).step (report_thread o r).symm he.workers
      · obtain ⟨_, _, hw', _, rfl⟩ := step_setThreadExit hs
        have hlt := (List.getElem?_eq_some_iff.mp hw).1
        obtain ⟨rfl, rfl⟩ : i = _ ∧ o = _ := by simpa using hw.symm.trans hw'
        exact ⟨n, ⟨i, .closing o⟩, o, (report_thread o r).trans (hi.owned r hr n _ hw hid.symm),
          by simp [hlt], rfl, hf⟩
  · rcases he.exiting hw hp with hw | ⟨n, rfl⟩
    · exact h.exiting w hw o hp
    · exact hok

end Steps

theorem run_scheduled {h : List (State × Act)} {s : State} (hr : system.Run Marked h s) :
    Ids s ∧ Counted h s ∧ Scheduled s := by
  refine hr.invariant (I := fun h s => Ids s ∧ Counted h s ∧ Scheduled s) ?_ ?_
  · rintro s rfl
    refine ⟨ids_initial, ?_, ?_⟩ <;>
      constructor <;> simp [created, initial, State.records, building, objs]
  · rintro h s a s' ⟨hi, hk, hd⟩ hok hs
    exact ⟨ids_step hi hok.fewCreations (step_effect hs), counted_step hk hi hok.fewCreations hs,
      scheduled_step hd hi hok hs⟩

/-- **Registry lifecycle.** In every run of fewer than `2 ^ 32` creations in which new records start
unmarked, errors are strings or numbers and `Remove_Thread` is called for marked records or for none. -/
theorem registry_lifecycle {h : List (State × Act)} {s s' : State} {a : Act}
    (hr : system.Run Marked ((s, a) :: h) s') : Lifecycle h s a s' := by
  obtain ⟨hi', hk', _⟩ := run_scheduled hr
  obtain _ | ⟨hr, hok, hs⟩ := hr
  obtain ⟨hi, hk, hd⟩ := run_scheduled hr
  refine ⟨?_, hk'.nodup, fun r hr => hk'.records r (mem_records.mpr (.inl hr)), ?_, ?_, ?_⟩
  · have hn := hi'.nodup
    rw [State.records, List.map_append] at hn
    exact (List.nodup_append.mp hn).1
  · intro r hm hgone
    refine .inl (hd.marked r (mem_records.mpr (.inl hm)) ?_)
    by_contra hdel
    exact hgone ((step_effect hs).keeps hm (Bool.eq_false_iff.mpr hdel))
  · rintro t i rfl r' hr' rfl
    obtain ⟨_, hc, rfl⟩ := step_removeThread hs
    rw [records_checkDeleteLater s hc, records_of_creating_none hc] at hr'
    obtain ⟨hm, hdel⟩ := List.mem_filter.mp hr'
    have hmark : r'.shouldDelete = true := hok r' hm rfl
    simp [hmark] at hdel
  · rintro t i rfl r hm _ hdel
    obtain ⟨_, hc, rfl⟩ := step_removeThread hs
    rw [records_checkDeleteLater s hc, records_of_creating_none hc]
    exact List.mem_filter.mpr ⟨hm, by simp [hdel]⟩

/-- A worker finishes, and `Remove_Thread` takes its record away. -/
theorem registry_lifecycle_finished : ∃ h s s', Lifecycle h s (.removeThread .main 1) s' ∧
    objs s.threads = [⟨some 0, 1, false, none, true⟩] ∧ objs s'.threads = [] := by
  have hstart : system.Reaches Marked initial := .start rfl
  have hend : system.Reaches Marked (withWorker ⟨some 0, 1, false, none, true⟩ (.closing ⟨0, 0, .nil⟩)) :=
    hstart.exec (oneWorker ++ [.workerEnd 0 ⟨0, 0, .nil⟩, .setThreadExit 0]) (by decide) rfl
  obtain ⟨h, hr⟩ := hend
  have hrun := hr.next (a := .removeThread .main 1) (by decide) rfl
  exact ⟨h, _, _, registry_lifecycle hrun, rfl, rfl⟩

/-- `Remove_Thread` leaves the record of a running worker where it is. -/
theorem registry_lifecycle_running : ¬ ∀ h s a s', system.Run FewCreations ((s, a) :: h) s' →
    Lifecycle h s a s' := by
  intro hall
  have hstart : system.Reaches FewCreations initial := .start rfl
  have hmade : system.Reaches FewCreations (withWorker ⟨some 0, 1, true, none, false⟩ .running) :=
    hstart.exec oneWorker (by decide) rfl
  obtain ⟨h, hr⟩ := hmade
  have hlife := hall h _ (.removeThread .main 1) (withWorker ⟨some 0, 1, true, none, false⟩ .running)
    (.next hr trivial rfl)
  exact hlife.removes .main 1 rfl _ (List.mem_singleton_self _) rfl

end LuaTT.Registry
