import LuaTT.Thread.Registry
import Mathlib.Data.List.Nodup

/-! What holds of the registry in every run with fewer than `2 ^ 32` creations: the ids are distinct,
and a record with a thread carries the id that its worker was started with. -/
namespace LuaTT.Registry
open Lua NodeList Transition State
set_option autoImplicit false

/-- The counter `m_id` has a number left: it does not return to 0. -/
def FewCreations (s : State) : Act → Prop
  | .newThread _ => s.getNewID ≠ 0
  | _ => True

instance (s : State) : (a : Act) → Decidable (FewCreations s a)
  | .newThread _ => inferInstanceAs (Decidable (s.getNewID ≠ 0))
  | .enable | .construct _ | .initError | .initRunning | .publish _ | .isThreadRunning _ _
  | .getThreadError _ _ | .removeThread _ _ | .workerEnd _ _ | .setThreadExit _ | .workerReturn _
  | .waitThread _ _ | .waitDeref _ | .waitJoined _ => isTrue trivial

/-! ## Records, the one under construction included -/

def Stage.record : Stage → Option LuaThreadInternal
  | construct => none
  | initError r => some r
  | initRunning r => some r
  | publish r => some r

def State.building (s : State) : Option LuaThreadInternal := s.creating.bind fun c => c.stage.record

def State.records (s : State) : List LuaThreadInternal := objs s.threads ++ s.building.toList

theorem mem_records {s : State} {r : LuaThreadInternal} :
    r ∈ s.records ↔ r ∈ objs s.threads ∨ s.building = some r := by
  simp [State.records]

theorem building_of_creating_none {s : State} (h : s.creating = none) : s.building = none := by
  simp [State.building, h]

theorem records_of_creating_none {s : State} (h : s.creating = none) :
    s.records = objs s.threads := by
  simp [State.records, building_of_creating_none h]

theorem records_checkDeleteLater (s : State) (h : s.creating = none) :
    objs (checkDeleteLater s.threads) = s.records.filter fun r => !r.shouldDelete := by
  rw [records_of_creating_none h]
  exact objs_eraseIf _ _

@[simp] theorem setWorker_threads (s : State) (n : ℕ) (w : Worker) :
    (s.setWorker n w).threads = s.threads := rfl

@[simp] theorem setWorker_creating (s : State) (n : ℕ) (w : Worker) :
    (s.setWorker n w).creating = s.creating := rfl

@[simp] theorem setWorker_id (s : State) (n : ℕ) (w : Worker) : (s.setWorker n w).id = s.id := rfl

@[simp] theorem setWorker_workers (s : State) (n : ℕ) (w : Worker) :
    (s.setWorker n w).workers = s.workers.set n w := rfl

/-! ## Workers keep their ids and, once reported, their outcomes -/

/-- The outcome that the worker has reported to the registry. -/
def Phase.reported : Phase → Option Outcome
  | closing o => some o
  | returned o => some o
  | _ => none

def Extends (ws ws' : List Worker) : Prop :=
  ∀ (n : ℕ) (w : Worker), ws[n]? = some w →
    ∃ w', ws'[n]? = some w' ∧ w'.id = w.id ∧ ∀ o, w.phase.reported = some o → w'.phase.reported = some o

theorem Extends.rfl {ws : List Worker} : Extends ws ws := fun _ w h => ⟨w, h, by simp, fun _ => id⟩

theorem Extends.push (ws : List Worker) (w : Worker) : Extends ws (ws ++ [w]) := by
  intro n v hv
  have hn : n < ws.length := (List.getElem?_eq_some_iff.mp hv).1
  exact ⟨v, by rwa [List.getElem?_append_left hn], by simp, fun _ => id⟩

theorem Extends.set {ws : List Worker} {n : ℕ} {w w' : Worker} (hw : ws[n]? = some w)
    (hid : w'.id = w.id) (ho : ∀ o, w.phase.reported = some o → w'.phase.reported = some o) :
    Extends ws (ws.set n w') := by
  have hn : n < ws.length := (List.getElem?_eq_some_iff.mp hw).1
  intro m v hv
  by_cases hm : n = m
  · subst hm
    rw [hw] at hv
    obtain rfl := Option.some.inj hv
    exact ⟨w', by simp [hn], hid, ho⟩
  · exact ⟨v, by rwa [List.getElem?_set_ne hm], by simp, fun _ => id⟩

/-! ## What a step does to records and workers -/

/-- The error of a record with a worker has been set to null. -/
def Stage.ErrorCleared : Stage → Prop
  | .initRunning r => r.error = none
  | .publish r => ∀ n, r.thread = some n → r.error = none
  | _ => True

inductive Effect (s : State) : Act → State → Prop
  | quiet {a : Act} {s' : State} (hn : ∀ t, a ≠ .newThread t) (ht : s'.threads = s.threads)
      (hi : s'.id = s.id) (hc : s'.creating = s.creating) (hw : s'.workers = s.workers) :
      Effect s a s'
  | sweep {a : Act} (hn : ∀ t, a ≠ .newThread t) (hc : s.creating = none) :
      Effect s a { s with threads := checkDeleteLater s.threads }
  | begin (t : Tid) (hc : s.creating = none) :
      Effect s (.newThread t) { s with
        threads := checkDeleteLater s.threads
        id := s.getNewID
        creating := some ⟨t, s.getNewID, .construct⟩ }
  | construct (g : Garbage) {t : Tid} {i : ThreadId} (hc : s.creating = some ⟨t, i, .construct⟩)
      {st : Stage} {r : LuaThreadInternal} (hst : st.record = some r) (hi : r.id = i)
      (hd : r.delete = g.delete) (he : st.ErrorCleared) {ws : List Worker}
      (hws : ws = s.workers ∧ r.thread = none ∨
        ws = s.workers ++ [⟨i, .running⟩] ∧ r.thread = some s.workers.length) :
      Effect s (.construct g) { s with workers := ws, creating := some ⟨t, i, st⟩ }
  | init {a : Act} (hn : ∀ t, a ≠ .newThread t) {t : Tid} {i : ThreadId} {st st' : Stage}
      {r r' : LuaThreadInternal} (hc : s.creating = some ⟨t, i, st⟩) (hst : st.record = some r)
      (hst' : st'.record = some r') (hi : r.id = r'.id) (ht : r.thread = r'.thread)
      (hd : r.delete = r'.delete) (he : st.ErrorCleared → st'.ErrorCleared) :
      Effect s a { s with creating := some ⟨t, i, st'⟩ }
  | publish (a : ℕ) {t : Tid} {i : ThreadId} {r : LuaThreadInternal}
      (hc : s.creating = some ⟨t, i, .publish r⟩) :
      Effect s (.publish a) { s with threads := s.threads ++ [⟨a, r⟩], creating := none }
  | phase {a : Act} (hn : ∀ t, a ≠ .newThread t) {n : ℕ} {w w' : Worker}
      (hw : s.workers[n]? = some w) (hi : w'.id = w.id) (hr : w'.phase.reported = w.phase.reported)
      (he : ∀ o, w'.phase = .exiting o → a = .workerEnd n o) : Effect s a (s.setWorker n w')
  | report {n : ℕ} {i : ThreadId} {o : Outcome} (hw : s.workers[n]? = some ⟨i, .exiting o⟩)
      (hc : s.creating = none) :
      Effect s (.setThreadExit n)
        ({ s with threads := setThreadExit s.threads i o.exitStatus.1 o.exitStatus.2 }.setWorker n
          ⟨i, .closing o⟩)

theorem step_effect {s s' : State} {a : Act} (hs : s.step a = some s') : Effect s a s' := by
  cases a with
  | enable =>
    obtain rfl := step_enable hs
    exact .quiet (by simp) rfl rfl rfl rfl
  | newThread t =>
    obtain ⟨_, hc, rfl⟩ := step_newThread hs
    exact .begin t hc
  | construct g =>
    obtain ⟨t, i, hc, ⟨_, rfl⟩ | ⟨_, rfl⟩⟩ := step_construct hs
    · refine .construct g hc rfl rfl rfl ?_ (.inr ⟨rfl, rfl⟩)
      trivial
    · refine .construct g hc rfl rfl rfl ?_ (.inl ⟨rfl, rfl⟩)
      exact fun n hn => by simp at hn
  | initError =>
    obtain ⟨t, i, r, hc, rfl⟩ := step_initError hs
    exact .init (by simp) hc rfl rfl rfl rfl rfl fun _ => rfl
  | initRunning =>
    obtain ⟨t, i, r, hc, rfl⟩ := step_initRunning hs
    exact .init (by simp) hc rfl rfl rfl rfl rfl fun he _ _ => he
  | publish a =>
    obtain ⟨t, i, r, hc, _, rfl⟩ := step_publish hs
    exact .publish a hc
  | isThreadRunning t i =>
    obtain ⟨_, hc, rfl⟩ := step_isThreadRunning hs
    exact .sweep (by simp) hc
  | getThreadError t i =>
    obtain ⟨_, _, rfl⟩ := step_getThreadError hs
    exact .quiet (by simp) rfl rfl rfl rfl
  | removeThread t i =>
    obtain ⟨_, hc, rfl⟩ := step_removeThread hs
    exact .sweep (by simp) hc
  | workerEnd n o =>
    obtain ⟨i, hw, _, rfl⟩ := step_workerEnd hs
    exact .phase (by simp) hw rfl rfl fun o' ho => by simpa using ho
  | setThreadExit n =>
    obtain ⟨i, o, hw, hc, rfl⟩ := step_setThreadExit hs
    exact .report hw hc
  | workerReturn n =>
    obtain ⟨i, o, hw, _, rfl⟩ := step_workerReturn hs
    exact .phase (by simp) hw rfl rfl fun o' ho => by simp at ho
  | waitThread t i =>
    obtain ⟨_, _, ⟨_, _, rfl⟩ | ⟨_, rfl⟩⟩ := step_waitThread hs <;>
      exact .quiet (by simp) rfl rfl rfl rfl
  | waitDeref t =>
    obtain ⟨_, _, _, ⟨_, _, rfl⟩ | ⟨_, rfl⟩⟩ := step_waitDeref hs <;>
      exact .quiet (by simp) rfl rfl rfl rfl
  | waitJoined t =>
    obtain ⟨_, _, _, _, _, rfl⟩ := step_waitJoined hs
    exact .quiet (by simp) rfl rfl rfl rfl

theorem Effect.workers {s s' : State} {a : Act} (h : Effect s a s') :
    Extends s.workers s'.workers := by
  cases h with
  | quiet _ _ _ _ hw => exact hw ▸ .rfl
  | construct _ _ _ _ _ _ hws =>
    rcases hws with ⟨rfl, _⟩ | ⟨rfl, _⟩
    · exact .rfl
    · exact .push _ _
  | phase _ hw hi hr _ => exact .set hw hi fun o ho => hr.trans ho
  | report hw _ => exact .set hw rfl fun o ho => by simp [Phase.reported] at ho
  | sweep | begin | init | publish => exact .rfl

theorem records_congr {s s' : State} (ht : s'.threads = s.threads)
    (hc : s'.creating = s.creating) : s'.records = s.records := by
  simp [State.records, State.building, ht, hc]

/-! ## The ids -/

structure Ids (s : State) : Prop where
  nodup : (s.records.map (·.id)).Nodup
  issued : ∀ r ∈ s.records, r.id ≤ s.id
  /-- A new id is above all others until the record and the worker have it. -/
  fresh : ∀ t id, s.creating = some ⟨t, id, .construct⟩ →
    id = s.id ∧ (∀ r ∈ s.records, r.id < s.id) ∧ ∀ w ∈ s.workers, w.id < s.id
  workers_nodup : (s.workers.map (·.id)).Nodup
  workers_issued : ∀ w ∈ s.workers, w.id ≤ s.id
  owner : ∀ r ∈ s.records, ∀ n, r.thread = some n → ∃ w, s.workers[n]? = some w ∧ w.id = r.id
  owned : ∀ r ∈ s.records, ∀ (n : ℕ) w, s.workers[n]? = some w → w.id = r.id → r.thread = some n

theorem ids_initial : Ids initial := by
  constructor <;> simp [initial, State.records, State.building, objs]

namespace Ids
variable {s s' : State}

theorem of_records (h : Ids s)
    (hc : ∀ t id, s'.creating = some ⟨t, id, .construct⟩ → s.creating = some ⟨t, id, .construct⟩)
    (hid : s'.id = s.id) (hw : s'.workers.map (·.id) = s.workers.map (·.id))
    (hr : (s'.records.map fun r => (r.id, r.thread)).Sublist
      (s.records.map fun r => (r.id, r.thread))) : Ids s' := by
  have hmem : ∀ r' ∈ s'.records, ∃ r ∈ s.records, r.id = r'.id ∧ r.thread = r'.thread := by
    intro r' hr'
    have hp := hr.subset (List.mem_map_of_mem hr')
    obtain ⟨r, hmr, he⟩ := List.mem_map.mp hp
    exact ⟨r, hmr, by simpa using he⟩
  have hworker : ∀ w' ∈ s'.workers, ∃ w ∈ s.workers, w.id = w'.id := by
    intro w' hw'
    have hm : w'.id ∈ s.workers.map (·.id) := hw ▸ List.mem_map_of_mem hw'
    exact List.mem_map.mp hm
  have hget : ∀ n : ℕ, s'.workers[n]?.map (·.id) = s.workers[n]?.map (·.id) := by
    intro n
    rw [← List.getElem?_map, ← List.getElem?_map, hw]
  refine ⟨?_, fun r' hr' => ?_, fun t id he => ?_, hw ▸ h.workers_nodup, fun w' hw' => ?_, ?_, ?_⟩
  · have hsub := hr.map Prod.fst
    simp only [List.map_map, Function.comp_def] at hsub
    exact h.nodup.sublist hsub
  · obtain ⟨r, hr, he, _⟩ := hmem r' hr'
    exact he ▸ hid ▸ h.issued r hr
  · obtain ⟨hid', hrec, hwork⟩ := h.fresh t id (hc t id he)
    refine ⟨hid'.trans hid.symm, fun r' hr' => ?_, fun w' hw' => ?_⟩
    · obtain ⟨r, hr, he, _⟩ := hmem r' hr'
      exact he ▸ hid ▸ hrec r hr
    · obtain ⟨w, hw, he⟩ := hworker w' hw'
      exact he ▸ hid ▸ hwork w hw
  · obtain ⟨w, hw, he⟩ := hworker w' hw'
    exact he ▸ hid ▸ h.workers_issued w hw
  · intro r' hr' n hn
    obtain ⟨r, hr, he, ht⟩ := hmem r' hr'
    obtain ⟨w, hwn, hwid⟩ := h.owner r hr n (ht.trans hn)
    have hm := hget n
    rw [hwn] at hm
    obtain ⟨w', hw', he'⟩ := Option.map_eq_some_iff.mp hm
    exact ⟨w', hw', he'.trans (hwid.trans he)⟩
  · intro r' hr' n w' hw' hid'
    obtain ⟨r, hr, he, ht⟩ := hmem r' hr'
    have hm := (hget n).symm
    rw [hw'] at hm
    obtain ⟨w, hwn, he'⟩ := Option.map_eq_some_iff.mp hm
    exact ht ▸ h.owned r hr n w hwn (he'.trans (hid'.trans he.symm))

theorem inj (h : Ids s) {r r' : LuaThreadInternal} (hr : r ∈ s.records) (hr' : r' ∈ s.records)
    (he : r.id = r'.id) : r = r' :=
  List.inj_on_of_nodup_map h.nodup hr hr' he

theorem worker_inj (h : Ids s) {n m : ℕ} {w v : Worker} (hw : s.workers[n]? = some w)
    (hv : s.workers[m]? = some v) (he : w.id = v.id) : n = m := by
  have hn : n < (s.workers.map (·.id)).length := by
    simpa using (List.getElem?_eq_some_iff.mp hw).1
  refine (List.getElem?_inj hn h.workers_nodup).mp ?_
  rw [List.getElem?_map, List.getElem?_map, hw, hv]
  simp [he]

theorem sweep (h : Ids s) (hc : s.creating = none)
    (hs : s' = { s with threads := checkDeleteLater s.threads }) : Ids s' := by
  subst hs
  refine h.of_records (by simp [hc]) rfl rfl ?_
  simp only [State.records, State.building, hc, checkDeleteLater, objs_eraseIf, Option.bind_none,
    Option.toList_none, List.append_nil]
  exact List.filter_sublist.map _

theorem setWorker (h : Ids s) {n : ℕ} {w w' : Worker} (hw : s.workers[n]? = some w)
    (hid : w'.id = w.id) : Ids (s.setWorker n w') := by
  refine h.of_records (fun _ _ hc => hc) rfl ?_ (List.Sublist.refl _)
  rw [setWorker_workers, List.map_set, hid]
  refine List.ext_getElem? fun m => ?_
  by_cases hm : n = m
  · subst hm
    obtain ⟨hn, rfl⟩ := List.getElem?_eq_some_iff.mp hw
    simp [hn]
  · rw [List.getElem?_set_ne hm]

theorem setThreadExit (h : Ids s) (hc : s.creating = none) (id : ThreadId) (st : ThreadExitStatus)
    (e : Bytes) : Ids { s with threads := setThreadExit s.threads id st e } := by
  refine h.of_records (by simp [hc]) rfl rfl ?_
  simp only [State.records, State.building, hc, Registry.setThreadExit, Option.bind_none,
    Option.toList_none, List.append_nil]
  rw [map_modifyFirst (fun r : LuaThreadInternal => (r.id, r.thread)) (by simp)]

theorem newThread (h : Ids s) (hc : s.creating = none) (hid : s.getNewID ≠ 0) {t : Tid} :
    Ids { s with
      threads := checkDeleteLater s.threads
      id := s.getNewID
      creating := some ⟨t, s.getNewID, .construct⟩ } := by
  have hsub : ((objs s.threads).filter fun r => !r.shouldDelete) ⊆ s.records := by
    rw [records_of_creating_none hc]
    exact List.filter_subset_self _
  have hlt : ∀ id : ThreadId, id ≤ s.id → id < s.getNewID := by
    intro id hle
    simp only [getNewID] at hid ⊢
    bv_omega
  have hle : ∀ id : ThreadId, id ≤ s.id → id ≤ s.getNewID := fun id h => by
    have h' := hlt id h
    bv_omega
  have hrec : ∀ r, r ∈ (objs s.threads).filter (fun r => !r.shouldDelete) → r.id < s.getNewID :=
    fun r hr => hlt _ (h.issued r (hsub hr))
  refine ⟨?_, ?_, ?_, h.workers_nodup, fun w hw => hle _ (h.workers_issued w hw), ?_, ?_⟩ <;>
    simp only [State.records, State.building, checkDeleteLater, objs_eraseIf, Option.bind_some,
      Stage.record, Option.toList_none, List.append_nil]
  · have hn := h.nodup
    rw [records_of_creating_none hc] at hn
    exact hn.sublist (List.filter_sublist.map _)
  · exact fun r hr => hle _ (h.issued r (hsub hr))
  · rintro t' id' he
    simp only [Option.some.injEq, Creation.mk.injEq] at he
    exact ⟨he.2.1.symm, hrec, fun w hw => hlt _ (h.workers_issued w hw)⟩
  · exact fun r hr n hn => h.owner r (hsub hr) n hn
  · exact fun r hr n w hw he => h.owned r (hsub hr) n w hw he

theorem construct (h : Ids s) {t : Tid} {id : ThreadId} (hc : s.creating = some ⟨t, id, .construct⟩)
    {st : Stage} {r : LuaThreadInternal} (hst : st.record = some r) (hr : r.id = id)
    {ws : List Worker} (hws : ws = s.workers ∧ r.thread = none ∨
      ws = s.workers ++ [⟨id, .running⟩] ∧ r.thread = some s.workers.length) :
    Ids { s with workers := ws, creating := some ⟨t, id, st⟩ } := by
  obtain ⟨rfl, hrec, hwork⟩ := h.fresh t id hc
  have hold : s.records = objs s.threads := by simp [State.records, State.building, hc, Stage.record]
  rw [hold] at hrec
  have hrecords : ({ s with workers := ws, creating := some ⟨t, s.id, st⟩ } : State).records =
      objs s.threads ++ [r] := by simp [State.records, State.building, hst]
  have hmem : ∀ x, x ∈ objs s.threads ++ [r] → x ∈ objs s.threads ∨ x = r := by simp
  refine ⟨?_, ?_, ?_, ?_, ?_, ?_, ?_⟩
  · rw [hrecords, List.map_append, List.nodup_append]
    refine ⟨hold ▸ h.nodup, by simp, ?_⟩
    intro a ha b hb
    obtain ⟨x, hx, rfl⟩ := List.mem_map.mp ha
    have hlt := hrec x hx
    simp only [List.map_cons, List.map_nil, List.mem_singleton] at hb
    rw [hb, hr]
    bv_omega
  · intro x hx
    rcases hmem x (hrecords ▸ hx) with hx | rfl
    · exact h.issued x (hold ▸ hx)
    · simp [hr]
  · rintro t' id' he
    simp only [Option.some.injEq, Creation.mk.injEq] at he
    simp [he.2.2, Stage.record] at hst
  · rcases hws with ⟨rfl, _⟩ | ⟨rfl, _⟩
    · exact h.workers_nodup
    · simp only [List.map_append, List.nodup_append]
      refine ⟨h.workers_nodup, by simp, ?_⟩
      intro a ha b hb
      obtain ⟨w, hw, rfl⟩ := List.mem_map.mp ha
      have hlt := hwork w hw
      simp only [List.map_cons, List.map_nil, List.mem_singleton] at hb
      rw [hb]
      bv_omega
  · rcases hws with ⟨rfl, _⟩ | ⟨rfl, _⟩
    · exact h.workers_issued
    · intro w hw
      rcases List.mem_append.mp hw with hw | hw
      · exact h.workers_issued w hw
      · simp [List.mem_singleton.mp hw]
  · intro x hx n hn
    rcases hmem x (hrecords ▸ hx) with hx | rfl
    · obtain ⟨w, hw, he⟩ := h.owner x (hold ▸ hx) n hn
      rcases hws with ⟨rfl, _⟩ | ⟨rfl, _⟩
      · exact ⟨w, hw, he⟩
      · exact ⟨w, by rwa [List.getElem?_append_left (List.getElem?_eq_some_iff.mp hw).1], he⟩
    · rcases hws with ⟨_, ht⟩ | ⟨rfl, ht⟩
      · simp [ht] at hn
      · rw [ht] at hn
        obtain rfl := Option.some.inj hn
        exact ⟨⟨s.id, .running⟩, by simp, hr.symm⟩
  · intro x hx n w hw he
    have hcases : s.workers[n]? = some w ∨ n = s.workers.length ∧ r.thread = some n ∧ w.id = s.id := by
      rcases hws with ⟨rfl, _⟩ | ⟨rfl, ht⟩
      · exact .inl hw
      · rcases lt_or_ge n s.workers.length with hn | hn
        · exact .inl (by rwa [List.getElem?_append_left hn] at hw)
        · obtain rfl : n = s.workers.length := by
            have hlt := (List.getElem?_eq_some_iff.mp hw).1
            simp at hlt
            omega
          simp at hw
          exact .inr ⟨rfl, ht, by simp [← hw]⟩
    rcases hmem x (hrecords ▸ hx) with hx | rfl
    · rcases hcases with hw | ⟨_, _, hid⟩
      · exact h.owned x (hold ▸ hx) n w hw he
      · have hlt := hrec x hx
        rw [← he, hid] at hlt
        bv_omega
    · rcases hcases with hw | ⟨_, ht, _⟩
      · have hlt := hwork w (List.mem_of_getElem? hw)
        rw [he, hr] at hlt
        bv_omega
      · exact ht

end Ids

theorem ids_step {s s' : State} {a : Act} (h : Ids s) (hok : FewCreations s a)
    (he : Effect s a s') : Ids s' := by
  cases he with
  | quiet _ ht hi hc hw =>
    exact h.of_records (by simp [hc]) hi (by rw [hw]) (by rw [records_congr ht hc])
  | sweep _ hc => exact h.sweep hc rfl
  | begin t hc => exact h.newThread hc hok
  | construct g hc hst hi _ _ hws => exact h.construct hc hst hi hws
  | init _ hc hst hst' hi ht =>
    refine h.of_records (fun t i hcon => ?_) rfl rfl ?_
    · obtain ⟨_, _, rfl⟩ : _ ∧ _ ∧ _ = _ := by simpa using hcon
      simp [Stage.record] at hst'
    · simp [State.records, State.building, hc, hst, hst', hi, ht]
  | publish a hc =>
    refine h.of_records (by simp) rfl rfl ?_
    simp [State.records, State.building, hc, Stage.record, objs]
  | phase _ hw hi _ _ => exact h.setWorker hw hi
  | report hw hc => exact (h.setThreadExit hc _ _ _).setWorker hw rfl

end LuaTT.Registry
