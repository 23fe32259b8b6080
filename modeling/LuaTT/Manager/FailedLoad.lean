import LuaTT.Manager.Registrations

/-! A plugin that fails to load. `LoadLua` closes its state and takes back nothing of what it, its finalizers
and the handlers of the printed errors have done, so the lists are as before exactly if these have entered
nothing that stays and taken nothing out. -/
namespace LuaTT.Registrations
open Lua Transition World
set_option autoImplicit false

/-! ## The contract -/

/-- The step enters a script, a crate or a console function, or a further plugin. -/
def Enters (w : World) : Act → Prop
  | .register _ (.chat _) => False
  | .register _ c => ¬ Refused w c
  | .finishLoad .. => True
  | _ => False

/-- The step registers the chat command `id`. -/
def Registers (w : World) (a : Act) (id : ℕ) : Prop :=
  ∃ L args, a = .register L (.chat args) ∧ ¬ Refused w (.chat args) ∧ id = w.nextCommand

/-- The step takes the chat command `id` out of the list. -/
def Unregisters (w : World) (a : Act) (id : ℕ) : Prop :=
  ∃ L args callback o, a = .unregister L args ∧ 1 ≤ args.length ∧ (slot args 1).tostring = some callback ∧
    w.findCommand callback = some o ∧ o.id = id

/-- What can happen inside of `LoadLua`; a reload waits for the next tick. -/
def Inside : Act → Prop
  | .scriptCleanup | .closePlugin _ | .cleanup => False
  | _ => True

/-- The entries of the lists of factories, without the instances that the engine has. -/
def scriptEntries (w : World) : List (Bytes × Bytes × LuaState) :=
  w.scripts.map fun f => (f.strName, f.strParams, f.luaHandler)

def crateEntries (w : World) : List (Bytes × ℤ × LuaState) := w.crateList.map fun f => (f.name, f.type, f.lua)

/-- The plugins and their names, the factories and the console functions are the same. -/
structure SameEntries (w w' : World) : Prop where
  lua : w'.lua = w.lua
  luaNames : w'.luaNames = w.luaNames
  scripts : scriptEntries w' = scriptEntries w
  crateList : crateEntries w' = crateEntries w
  consoleList : w'.consoleList = w.consoleList

/-- So are the chat commands: no entry that was not there before holds the closed state or reserves a name. -/
structure Unchanged (w w' : World) : Prop extends SameEntries w w' where
  chatList : w'.chatList = w.chatList

section Step
variable {w w' : World} {a : Act}

/-! ## Scripts, crates, console functions and plugins -/

def entryCount (w : World) : ℕ :=
  w.lua.length + (scriptEntries w).length + (crateEntries w).length + w.consoleList.length

theorem SameEntries.count (h : SameEntries w w') : entryCount w' = entryCount w := by
  simp only [entryCount, h.lua, h.scripts, h.crateList, h.consoleList]

theorem SameEntries.refl (w : World) : SameEntries w w := ⟨rfl, rfl, rfl, rfl, rfl⟩

theorem SameEntries.trans {u : World} (h : SameEntries u w) (h' : SameEntries w w') : SameEntries u w' :=
  ⟨h'.lua.trans h.lua, h'.luaNames.trans h.luaNames, h'.scripts.trans h.scripts,
    h'.crateList.trans h.crateList, h'.consoleList.trans h.consoleList⟩

theorem map_set_eq {α β : Type*} {l : List α} {i : ℕ} {x y : α} (f : α → β) (hx : l[i]? = some x)
    (hy : f y = f x) : (l.set i y).map f = l.map f := by
  obtain ⟨hi, rfl⟩ := List.getElem?_eq_some_iff.mp hx
  apply List.ext_getElem? fun j => ?_
  simp only [List.getElem?_map, List.getElem?_set]
  by_cases hij : i = j
  · subst hij
    simp [hi, hy]
  · rw [if_neg hij]

theorem Entered.entries {L : LuaState} {c : Registration} (he : Entered w L c w') (hnew : ¬ Refused w c) :
    Enters w (.register L c) ∧ entryCount w < entryCount w' ∨
      ¬ Enters w (.register L c) ∧ SameEntries w w' := by
  cases he with
  | script | crate | console =>
    refine .inl ⟨hnew, ?_⟩
    simp only [entryCount, scriptEntries, crateEntries, List.length_map, List.length_append,
      List.length_singleton]
    omega
  | chat args c => exact .inr ⟨id, rfl, rfl, rfl, rfl, rfl⟩

theorem register_entries {L : LuaState} {c : Registration} (hs : w.register L c = some w') :
    Enters w (.register L c) ∧ entryCount w < entryCount w' ∨
      ¬ Enters w (.register L c) ∧ SameEntries w w' := by
  rcases register_cases hs with ⟨href, rfl⟩ | ⟨hnew, he⟩
  · refine .inr ⟨fun hen => ?_, .refl _⟩
    cases c with
    | chat args => exact hen
    | _ => exact hen href
  · exact he.entries hnew

theorem unregister_cases {args : List LuaValue} (hs : w.unregisterChatCommand args = some w') :
    w' = w ∧ (∀ L k, ¬ Unregisters w (.unregister L args) k) ∨
      ∃ o ∈ w.chatList, w' = { w with chatList := w.chatList.filter fun x => x.id ≠ o.id } ∧
        ∀ L k, Unregisters w (.unregister L args) k ↔ k = o.id := by
  unfold unregisterChatCommand at hs
  by_cases hlen : args.length < 1
  · rw [if_pos hlen] at hs
    refine .inl ⟨(Option.some.inj hs).symm, ?_⟩
    rintro L k ⟨_, _, _, _, he, hone, _⟩
    obtain ⟨_, rfl⟩ := Act.unregister.inj he
    omega
  rw [if_neg hlen] at hs
  cases hc : (slot args 1).tostring with
  | none => simp [hc] at hs
  | some callback =>
    simp only [hc] at hs
    cases hf : w.findCommand callback with
    | none =>
      simp only [hf] at hs
      refine .inl ⟨(Option.some.inj hs).symm, ?_⟩
      rintro L k ⟨_, _, _, _, he, _, hcall, hfind, _⟩
      obtain ⟨_, rfl⟩ := Act.unregister.inj he
      obtain rfl := Option.some.inj (hc.symm.trans hcall)
      simp [hf] at hfind
    | some o =>
      simp only [hf] at hs
      refine .inr ⟨o, List.mem_of_find?_eq_some hf, (Option.some.inj hs).symm, fun L k => ⟨?_, ?_⟩⟩
      · rintro ⟨_, _, _, _, he, _, hcall, hfind, rfl⟩
        obtain ⟨_, rfl⟩ := Act.unregister.inj he
        obtain rfl := Option.some.inj (hc.symm.trans hcall)
        rw [Option.some.inj (hf.symm.trans hfind)]
      · rintro rfl
        exact ⟨L, args, callback, o, rfl, by omega, hc, hf, rfl⟩

/-- A step inside of a load adds to the entries, or leaves all of them alone. -/
theorem step_entries (hin : Inside a) (hs : w.step a = some w') :
    Enters w a ∧ entryCount w < entryCount w' ∨ ¬ Enters w a ∧ SameEntries w w' := by
  cases a with
  | finishLoad L file =>
    obtain ⟨_, hs⟩ := Option.ite_none_right_eq_some.mp hs
    obtain rfl := Option.some.inj hs
    refine .inl ⟨trivial, ?_⟩
    simp only [entryCount, addPlugin, setPhase, scriptEntries, crateEntries, List.length_append,
      List.length_singleton]
    omega
  | register L c => exact register_entries (Option.ite_none_right_eq_some.mp hs).2
  | unregister L args =>
    rcases unregister_cases (Option.ite_none_right_eq_some.mp hs).2 with ⟨rfl, _⟩ | ⟨o, _, rfl, _⟩
    · exact .inr ⟨id, .refl _⟩
    · exact .inr ⟨id, rfl, rfl, rfl, rfl, rfl⟩
  | create i =>
    obtain ⟨f, hf, rfl⟩ := Option.map_eq_some_iff.mp hs
    exact .inr ⟨id, rfl, rfl, map_set_eq _ hf rfl, rfl, rfl⟩
  | detach id' =>
    obtain rfl := Option.some.inj hs
    refine .inr ⟨id, rfl, rfl, ?_, rfl, rfl⟩
    simp [scriptEntries, World.detach, Function.comp_def]
  | createInstance i =>
    obtain ⟨f, hf, rfl⟩ := Option.map_eq_some_iff.mp hs
    exact .inr ⟨id, rfl, rfl, rfl, map_set_eq _ hf rfl, rfl⟩
  | newState | startWorker =>
    obtain rfl := Option.some.inj hs
    exact .inr ⟨id, rfl, rfl, rfl, rfl, rfl⟩
  | failLoad L | exitWorker L =>
    obtain ⟨_, hs⟩ := Option.ite_none_right_eq_some.mp hs
    obtain rfl := Option.some.inj hs
    exact .inr ⟨id, rfl, rfl, rfl, rfl, rfl⟩
  | free L =>
    rcases free_cases hs with ⟨_, rfl⟩ | ⟨_, rfl⟩ <;> exact .inr ⟨id, rfl, rfl, rfl, rfl, rfl⟩
  | scriptCleanup | closePlugin | cleanup => exact absurd hin id

/-! ## Chat commands -/

/-- A step appends a chat command, takes one out, or leaves the list alone. -/
theorem step_chat (hs : w.step a = some w') :
    (∃ c, w'.chatList = w.chatList ++ [⟨w.nextCommand, c⟩] ∧ w'.nextCommand = w.nextCommand + 1 ∧
      (∀ k, Registers w a k ↔ k = w.nextCommand) ∧ ∀ k, ¬ Unregisters w a k) ∨
    (∃ o ∈ w.chatList, w'.chatList = (w.chatList.filter fun x => x.id ≠ o.id) ∧
      w'.nextCommand = w.nextCommand ∧ (∀ k, ¬ Registers w a k) ∧ ∀ k, Unregisters w a k ↔ k = o.id) ∨
    (w'.chatList = w.chatList ∧ w'.nextCommand = w.nextCommand ∧ (∀ k, ¬ Registers w a k) ∧
      ∀ k, ¬ Unregisters w a k) := by
  have hquiet : (∀ L args, a ≠ .register L (.chat args)) → (∀ L args, a ≠ .unregister L args) →
      w'.chatList = w.chatList → w'.nextCommand = w.nextCommand →
      w'.chatList = w.chatList ∧ w'.nextCommand = w.nextCommand ∧ (∀ k, ¬ Registers w a k) ∧
        ∀ k, ¬ Unregisters w a k := by
    intro hreg hun hlist hnext
    refine ⟨hlist, hnext, ?_, ?_⟩
    · rintro k ⟨L, args, he, _⟩
      exact hreg L args he
    · rintro k ⟨L, args, _, _, he, _⟩
      exact hun L args he
  cases a with
  | register L c =>
    rcases register_cases (Option.ite_none_right_eq_some.mp hs).2 with ⟨href, rfl⟩ | ⟨hnew, he⟩
    · refine .inr (.inr ⟨rfl, rfl, ?_, ?_⟩)
      · rintro k ⟨_, args, he, hnew, _⟩
        obtain ⟨_, rfl⟩ := Act.register.inj he
        exact hnew href
      · rintro k ⟨_, _, _, _, he, _⟩
        cases he
    · cases he with
      | chat args c =>
        refine .inl ⟨c, rfl, rfl, fun k => ⟨?_, ?_⟩, ?_⟩
        · rintro ⟨_, _, _, _, rfl⟩
          rfl
        · rintro rfl
          exact ⟨L, args, rfl, hnew, rfl⟩
        · rintro k ⟨_, _, _, _, he, _⟩
          cases he
      | _ => exact .inr (.inr (hquiet nofun nofun rfl rfl))
  | unregister L args =>
    rcases unregister_cases (Option.ite_none_right_eq_some.mp hs).2 with ⟨rfl, hno⟩ | ⟨o, ho, rfl, hun⟩
    · refine .inr (.inr ⟨rfl, rfl, ?_, hno L⟩)
      rintro k ⟨_, _, he, _⟩
      cases he
    · refine .inr (.inl ⟨o, ho, rfl, rfl, ?_, hun L⟩)
      rintro k ⟨_, _, he, _⟩
      cases he
  | create i | createInstance i =>
    obtain ⟨f, hf, rfl⟩ := Option.map_eq_some_iff.mp hs
    exact .inr (.inr (hquiet nofun nofun rfl rfl))
  | newState | startWorker | detach | scriptCleanup | cleanup =>
    obtain rfl := Option.some.inj hs
    exact .inr (.inr (hquiet nofun nofun rfl rfl))
  | finishLoad | failLoad | exitWorker | closePlugin =>
    obtain ⟨_, hs⟩ := Option.ite_none_right_eq_some.mp hs
    obtain rfl := Option.some.inj hs
    exact .inr (.inr (hquiet nofun nofun rfl rfl))
  | free L =>
    rcases free_cases hs with ⟨_, rfl⟩ | ⟨_, rfl⟩ <;>
      exact .inr (.inr (hquiet nofun nofun rfl rfl))

/-- Objects get numbers that no object has had. -/
def Numbered (w : World) : Prop := ∀ o ∈ w.chatList, o.id < w.nextCommand

theorem numbered_step (h : Numbered w) (hs : w.step a = some w') : Numbered w' := by
  unfold Numbered at h ⊢
  rcases step_chat hs with ⟨c, hlist, hnext, _⟩ | ⟨_, _, hlist, hnext, _⟩ | ⟨hlist, hnext, _⟩ <;>
    rw [hlist, hnext]
  · intro o ho
    rcases List.mem_append.mp ho with ho | ho
    · exact Nat.lt_succ_of_lt (h o ho)
    · rw [List.mem_singleton.mp ho]
      exact Nat.lt_succ_self _
  · exact fun o ho => h o (List.mem_of_mem_filter ho)
  · exact h

theorem numbered (hr : system.Reaches System.anyStep w) : Numbered w := by
  refine hr.invariant (I := Numbered) (fun s hs => ?_) fun _ _ _ hI _ hs => numbered_step hI hs
  obtain rfl : s = initial := hs
  exact fun o ho => absurd ho List.not_mem_nil

/-- The chat list after some steps: what was there and what has been `added`, less what has been `removed`. -/
structure ChatRun (w : World) (h : List (World × Act)) (w' : World) (added : List ChatObject)
    (removed : List ℕ) : Prop where
  chatList : w'.chatList = (w.chatList ++ added).filter fun o => o.id ∉ removed
  fresh : ∀ o ∈ added, w.nextCommand ≤ o.id
  registered : ∀ k, (∃ o ∈ added, o.id = k) ↔ ∃ x ∈ h, Registers x.1 x.2 k
  unregistered : ∀ k, k ∈ removed ↔ ∃ x ∈ h, Unregisters x.1 x.2 k

theorem chatRun_nil (w : World) : ChatRun w [] w [] [] := by
  refine ⟨by simp, ?_, ?_, ?_⟩ <;> simp

theorem chatRun_cons {h : List (World × Act)} {u : World} {added : List ChatObject} {removed : List ℕ}
    (hnum : Numbered w) (hs : w.step a = some w') (hrun : ChatRun w' h u added removed) :
    ∃ added' removed', ChatRun w ((w, a) :: h) u added' removed' := by
  rcases step_chat hs with ⟨c, hlist, hnext, hreg, hun⟩ | ⟨o, ho, hlist, hnext, hreg, hun⟩ |
      ⟨hlist, hnext, hreg, hun⟩
  · refine ⟨⟨w.nextCommand, c⟩ :: added, removed, ?_, ?_, fun k => ?_, fun k => ?_⟩
    · rw [hrun.chatList, hlist, List.append_assoc, List.singleton_append]
    · intro o ho
      rcases List.mem_cons.mp ho with rfl | ho
      · exact Nat.le_refl _
      · have hle := hrun.fresh o ho
        omega
    · simp only [List.exists_mem_cons_iff, hreg, hrun.registered]
      exact or_congr_left eq_comm
    · simp [hun, hrun.unregistered]
  · refine ⟨added, o.id :: removed, ?_, fun o ho => hnext ▸ hrun.fresh o ho, fun k => ?_, fun k => ?_⟩
    · have hkeep : (added.filter fun x => x.id ≠ o.id) = added := by
        refine List.filter_eq_self.mpr fun x hx => ?_
        have hlt := hnum o ho
        have hle := hrun.fresh x hx
        simp only [decide_eq_true_eq]
        omega
      rw [hrun.chatList, hlist]
      conv_lhs => rw [← hkeep, ← List.filter_append, List.filter_filter]
      exact List.filter_congr fun x _ => by simp [Bool.and_comm]
    · simp [hreg, hrun.registered]
    · simp [hun, hrun.unregistered]
  · refine ⟨added, removed, ?_, fun o ho => hnext ▸ hrun.fresh o ho, fun k => ?_, fun k => ?_⟩
    · rw [hrun.chatList, hlist]
    · simp [hreg, hrun.registered]
    · simp [hun, hrun.unregistered]

theorem exec_chat {as : List Act} (hnum : Numbered w) (hx : system.exec w as = some w') :
    ∃ added removed, ChatRun w (system.trace w as) w' added removed := by
  refine System.exec_induction (P := fun s h u => Numbered s → ∃ added removed, ChatRun s h u added removed)
    (fun s _ => ⟨[], [], chatRun_nil s⟩) (fun s a s' h u hs ih hn => ?_) hx hnum
  obtain ⟨added, removed, hrun⟩ := ih (numbered_step hn hs)
  exact chatRun_cons hn hs hrun

/-- The list is as before exactly if what was there has stayed and what has come has gone. -/
theorem ChatRun.chatList_eq_iff {h : List (World × Act)} {added : List ChatObject} {removed : List ℕ}
    (hnum : Numbered w) (hrun : ChatRun w h w' added removed) :
    w'.chatList = w.chatList ↔ (∀ o ∈ w.chatList, o.id ∉ removed) ∧ ∀ o ∈ added, o.id ∈ removed := by
  rw [hrun.chatList, List.filter_append]
  constructor
  · intro he
    have hmem : ∀ o ∈ added, o.id ∈ removed := by
      intro o ho
      by_contra hno
      have hin : o ∈ w.chatList := by
        rw [← he]
        exact List.mem_append_right _ (List.mem_filter.mpr ⟨ho, by simpa using hno⟩)
      exact absurd (hnum o hin) (Nat.not_lt.mpr (hrun.fresh o ho))
    refine ⟨fun o ho => ?_, hmem⟩
    rw [← he] at ho
    rcases List.mem_append.mp ho with ho | ho
    · simpa using (List.mem_filter.mp ho).2
    · simpa using (List.mem_filter.mp ho).2
  · rintro ⟨hstay, hgone⟩
    rw [List.filter_eq_self.mpr fun o ho => by simpa using hstay o ho,
      List.filter_eq_nil_iff.mpr fun o ho => by simpa using hgone o ho, List.append_nil]

/-! ## Whole loads -/

theorem exec_entries {as : List Act} (hin : ∀ a ∈ as, Inside a) (hx : system.exec w as = some w') :
    ((∃ x ∈ system.trace w as, Enters x.1 x.2) ∧ entryCount w < entryCount w') ∨
      (∀ x ∈ system.trace w as, ¬ Enters x.1 x.2) ∧ SameEntries w w' := by
  refine System.exec_induction (P := fun s h u => (∀ x ∈ h, Inside x.2) →
    ((∃ x ∈ h, Enters x.1 x.2) ∧ entryCount s < entryCount u) ∨
      (∀ x ∈ h, ¬ Enters x.1 x.2) ∧ SameEntries s u)
    (fun s _ => .inr ⟨fun x hx => absurd hx List.not_mem_nil, .refl s⟩)
    (fun s a s' h u hs ih hall => ?_) hx fun x hx => hin x.2 (System.mem_trace hx)
  have hrest := ih fun x hx => hall x (List.mem_cons_of_mem _ hx)
  rcases step_entries (hall _ List.mem_cons_self) hs with ⟨hen, hlt⟩ | ⟨hno, hsame⟩
  · refine .inl ⟨⟨_, List.mem_cons_self, hen⟩, ?_⟩
    rcases hrest with ⟨_, hlt'⟩ | ⟨_, hsame⟩
    · exact hlt.trans hlt'
    · rwa [hsame.count]
  · rcases hrest with ⟨⟨x, hx, hen⟩, hlt⟩ | ⟨hnone, hsame'⟩
    · exact .inl ⟨⟨x, List.mem_cons_of_mem _ hx, hen⟩, hsame.count ▸ hlt⟩
    · refine .inr ⟨fun x hx => ?_, hsame.trans hsame'⟩
      rcases List.mem_cons.mp hx with rfl | hx
      · exact hno
      · exact hnone x hx

end Step

/-- Whatever happens while a plugin loads happens inside of `LoadLua`. -/
def Load.Inside (p : Load) : Prop :=
  ∀ a ∈ p.chunk ++ p.finalizers ++ p.output, Registrations.Inside a

theorem Load.Inside.acts {p : Load} (h : p.Inside) (hf : p.fails = true) (L : StateId) :
    ∀ a ∈ p.acts L, Registrations.Inside a := by
  intro a ha
  simp only [Load.acts, hf, if_true, List.cons_append, List.mem_cons, List.mem_append] at ha
  rcases ha with rfl | ha | rfl | ha | rfl | ha
  · trivial
  · exact h a (by simp [ha])
  · trivial
  · exact h a (by simp [ha])
  · trivial
  · exact h a (by simp [ha])

/-- **Failed loads.** A plugin that fails leaves the lists as they were exactly if no script, crate, console
function or plugin has been entered, no chat command that was there taken out, and each one that has been
registered taken out again, by the chunk, the finalizers or the handlers of what is printed. -/
theorem failed_load_unchanged {w w' : World} {p : Load} (hr : system.Reaches System.anyStep w)
    (hf : p.fails = true) (hin : p.Inside) (hl : w.loadLua p = some w') :
    Unchanged w w' ↔
      (∀ x ∈ system.trace w (p.acts w.nextState), ¬ Enters x.1 x.2) ∧
        (∀ x ∈ system.trace w (p.acts w.nextState), ∀ o ∈ w.chatList, ¬ Unregisters x.1 x.2 o.id) ∧
        ∀ x ∈ system.trace w (p.acts w.nextState), ∀ k, Registers x.1 x.2 k →
          ∃ y ∈ system.trace w (p.acts w.nextState), Unregisters y.1 y.2 k := by
  have hnum := numbered hr
  obtain ⟨added, removed, hrun⟩ := exec_chat hnum hl
  have hchat := hrun.chatList_eq_iff hnum
  have hstay : (∀ o ∈ w.chatList, o.id ∉ removed) ↔
      ∀ x ∈ system.trace w (p.acts w.nextState), ∀ o ∈ w.chatList, ¬ Unregisters x.1 x.2 o.id := by
    simp only [hrun.unregistered, not_exists, not_and]
    exact ⟨fun h x hx o ho => h o ho x hx, fun h o ho x hx => h x hx o ho⟩
  have hgone : (∀ o ∈ added, o.id ∈ removed) ↔
      ∀ x ∈ system.trace w (p.acts w.nextState), ∀ k, Registers x.1 x.2 k →
        ∃ y ∈ system.trace w (p.acts w.nextState), Unregisters y.1 y.2 k := by
    simp only [hrun.unregistered]
    constructor
    · intro h x hx k hk
      obtain ⟨o, ho, rfl⟩ := (hrun.registered k).mpr ⟨x, hx, hk⟩
      exact h o ho
    · intro h o ho
      obtain ⟨x, hx, hk⟩ := (hrun.registered o.id).mp ⟨o, ho, rfl⟩
      exact h x hx o.id hk
  rw [← hstay, ← hgone, ← hchat]
  rcases exec_entries (hin.acts hf _) hl with ⟨⟨x, hx, hen⟩, hlt⟩ | ⟨hnone, hsame⟩
  · constructor
    · intro hun
      exact absurd hun.toSameEntries.count (Nat.ne_of_gt hlt)
    · intro h
      exact absurd hen (h.1 x hx)
  · exact ⟨fun hun => ⟨hnone, hun.chatList⟩, fun h => ⟨hsame, h.2⟩⟩

def failing (chunk : List Act) : Load := ⟨bytes "a.lua", true, chunk, [], []⟩

/-- `Register_Script("s", "", nil)`, and a chat command that is registered and unregistered. -/
def tidyPlugin : Load := failing
  [.register ⟨0, none⟩ (.script [] [.string (bytes "s"), .string [], .nil]),
    .register ⟨0, none⟩ (.chat [.string (bytes "f"), .string (bytes "!f")]),
    .unregister ⟨0, none⟩ [.string (bytes "f")]]

theorem failed_load_unchanged_refused : ∃ w, initial.loadLua tidyPlugin = some w ∧ Unchanged initial w := by
  obtain ⟨w, hw⟩ : ∃ w, initial.loadLua tidyPlugin = some w := ⟨_, rfl⟩
  refine ⟨w, hw, (failed_load_unchanged (.start rfl) rfl ?_ hw).mpr ⟨?_, ?_, ?_⟩⟩
  · simp [Load.Inside, tidyPlugin, failing, Registrations.Inside]
  · intro x hx hen
    have hact := System.mem_trace hx
    simp only [tidyPlugin, failing, Load.acts, if_true, List.cons_append, List.nil_append, List.mem_cons,
      List.not_mem_nil, or_false] at hact
    rcases hact with h | h | h | h | h | h <;> rw [h] at hen
    · exact hen
    · exact hen (.inl rfl)
    · exact hen
    · exact hen
    · exact hen
    · exact hen
  · exact fun x _ o ho => absurd ho List.not_mem_nil
  · intro x hx k hreg
    have hk : k = 0 := by
      obtain ⟨L, args, he, _, rfl⟩ := hreg
      rcases List.mem_cons.mp hx with rfl | hx
      · cases he
      rcases List.mem_cons.mp hx with rfl | hx
      · cases he
      rcases List.mem_cons.mp hx with rfl | hx
      · rfl
      have hact : x.2 ∈ [.unregister ⟨0, none⟩ [.string (bytes "f")], .failLoad 0, .free 0] :=
        System.mem_trace hx
      simp [he] at hact
    subst hk
    refine ⟨(_, .unregister ⟨0, none⟩ [.string (bytes "f")]),
      List.mem_cons_of_mem _ (List.mem_cons_of_mem _ (List.mem_cons_of_mem _ List.mem_cons_self)),
      _, _, _, _, rfl, by decide, rfl, rfl, rfl⟩

/-- `Register_Script("s", "", {})` stays. -/
theorem failed_load_registered : ¬ ∀ (w w' : World) (p : Load), system.Reaches System.anyStep w →
    p.fails = true → p.Inside → w.loadLua p = some w' → Unchanged w w' := by
  intro hall
  let p := failing [.register ⟨0, none⟩ (.script [] [.string (bytes "s"), .string [], .table 0])]
  have hun := hall initial _ p (.start rfl) rfl ?_ rfl
  · have hlen := congrArg List.length hun.scripts
    exact absurd hlen (by decide)
  · simp [Load.Inside, p, failing, Registrations.Inside]

end LuaTT.Registrations
