import LuaTT.Manager.VetoCombination

/-! The verdict on a connection. `LuaManager::ConAc` and `LuaManager::DA_Connection_Request_Event` ask the states
until one has something else to say than "CONTINUE"; `luatt::getStatus` and
`LuaTT_DA_Hooks::Connection_Request_Event` make a status of it. -/
namespace LuaTT.Dispatch
open Lua LState Voting
set_option autoImplicit false

/-! ## The status -/

inductive Status
  | accepting
  | indeterminate
  | refusing
  deriving DecidableEq

abbrev WideString := List UInt16

/-- `WideStringClass::Format`: of characters that are cast to wide ones and then taken for the format itself,
and of `L"%S"`. -/
structure Formatter where
  misread : Bytes → WideString
  widen : Bytes → WideString

def ConnectionRequest.serialIsEmpty (r : ConnectionRequest) : Bool := r.clientSerialHash.getD [] = []

section Status
variable {M : Type} (code : Code M) (fmt : Formatter) (request : ConnectionRequest)
  (refusalMessage : WideString) (lua : List (LState M))

/-- The two functions, up to whom they ask. -/
def statusOf (ask : List (LState M) → List (LState M) × Bytes) : List (LState M) × Status × WideString :=
  if request.serialIsEmpty then (lua, .indeterminate, refusalMessage)
  else
    let (lua, refused) := ask lua
    let refusalMessage := fmt.misread refused
    if refused = bytes "CONTINUE" then (lua, .accepting, refusalMessage)
    else if refused = bytes "INDETERMINATE" then (lua, .indeterminate, refusalMessage)
    else (lua, .refusing, fmt.widen refused)

/-- `luatt::getStatus`. -/
def getStatus : List (LState M) × Status × WideString :=
  statusOf fmt request refusalMessage lua fun lua =>
    conAc code (some request.clientAddress) (some request.clientName) request.clientSerialHash
      (some request.clientVersion) request.clientId lua

/-- `LuaTT_DA_Hooks::Connection_Request_Event`. -/
def connectionRequestEvent : List (LState M) × Status × WideString :=
  statusOf fmt request refusalMessage lua (daConnectionRequestEvent code request)

end Status

/-! ## Whom a dispatcher asks -/

section Asked
variable {M : Type} (code : Code M) (name : Bytes) (args : List LuaValue)

/-- One call of the hook where there is one. -/
def once (L : LState M) : List Called :=
  if Defines code name L then [⟨code.getglobal L.mem name, args⟩] else []

/-- The state's hook returns something else than "CONTINUE", as `read` takes its result. -/
def Objects (read : LuaValue → Option Bytes) (L : LState M) (s : Bytes) : Prop :=
  Defines code name L ∧ (∃ mem vs, outcome code name args L = (mem, .ok vs) ∧ read (vs.headD .nil) = some s) ∧
    s ≠ bytes "CONTINUE"

/-- Up to the first state that objects, and this one included, each is asked once; what that one says is the
verdict. -/
structure AsksInOrder (read : LuaValue → Option Bytes) (lua : List (LState M)) : Prop where
  continues : (∀ L ∈ lua, ∀ s, ¬ Objects code name args read L s) →
    (connectionHook code.logged name args (bytes "CONTINUE") (lua.map recording)).1.map calls =
        lua.map (once code name args) ∧
      (connectionHook code name args (bytes "CONTINUE") lua).2 = bytes "CONTINUE"
  stops : ∀ pre L post s, lua = pre ++ L :: post → (∀ K ∈ pre, ∀ s, ¬ Objects code name args read K s) →
    Objects code name args read L s →
    (connectionHook code.logged name args (bytes "CONTINUE") (lua.map recording)).1.map calls =
        pre.map (once code name args) ++ once code name args L :: post.map (fun _ => []) ∧
      (connectionHook code name args (bytes "CONTINUE") lua).2 = s

/-! ### The calls of the loop -/

theorem connectionHook_calls_continue {L : LState (M × List Called)} {lua : List (LState (M × List Called))}
    (h : ∀ b, ballot code name args L.erase = some b → refusal b.value = none) :
    (connectionHook code.logged name args (bytes "CONTINUE") (L :: lua)).1.map calls =
      (L.calls ++ hookCalls code name args L.erase) ::
        (connectionHook code.logged name args (bytes "CONTINUE") lua).1.map calls := by
  simp only [connectionHook, getglobal_top]
  cases hb : ballot code name args L.erase with
  | none =>
    have hd : ¬ Defines code name L.erase := not_defines_of_ballot code name args hb
    have hd' : ¬ Defines code.logged name L := hd
    rw [if_neg hd', (hookCalls_eq_nil code name args).mpr hd, List.append_nil]
    rfl
  | some b =>
    have hd : Defines code name L.erase := defines_of_ballot code name args hb
    have hd' : Defines code.logged name L := hd
    have hb' : ballot code.logged name args L = some b := by rw [ballot_logged, hb]
    have hcontinue := refusal_eq_none.mp (h b hb)
    rw [if_pos hd', callHook_top code.logged name args hb', if_neg (not_not.mpr hcontinue), hcontinue,
      List.map_cons, pop_calls, callHook_calls code name args (some 1) hd]

theorem connectionHook_calls_stop {L : LState (M × List Called)} {lua : List (LState (M × List Called))}
    {b : Ballot LuaValue} {s : Bytes} (hb : ballot code name args L.erase = some b)
    (hs : refusal b.value = some s) :
    (connectionHook code.logged name args (bytes "CONTINUE") (L :: lua)).1.map calls =
      (L.calls ++ hookCalls code name args L.erase) :: lua.map calls := by
  have hd : Defines code name L.erase := defines_of_ballot code name args hb
  have hd' : Defines code.logged name L := hd
  have hb' : ballot code.logged name args L = some b := by rw [ballot_logged, hb]
  have hobjects : b.value.tostring.getD (bytes "CONTINUE") ≠ bytes "CONTINUE" := by
    intro hc
    rw [refusal_eq_none.mpr hc] at hs
    cases hs
  simp only [connectionHook, getglobal_top]
  rw [if_pos hd', callHook_top code.logged name args hb', if_pos hobjects, List.map_cons, pop_calls,
    callHook_calls code name args (some 1) hd]

/-! ### States whose hooks complete -/

variable {code name args}

theorem refusal_eq_some {v : LuaValue} {s : Bytes} :
    refusal v = some s ↔ v.tostring = some s ∧ s ≠ bytes "CONTINUE" := by
  unfold refusal
  cases v.tostring with
  | none => simp
  | some t =>
    rw [Option.bind_some, Option.some.injEq]
    by_cases ht : t = bytes "CONTINUE"
    · rw [if_pos ht]
      constructor
      · intro h
        cases h
      · rintro ⟨rfl, hne⟩
        exact absurd ht hne
    · rw [if_neg ht, Option.some.injEq]
      constructor
      · rintro rfl
        exact ⟨rfl, ht⟩
      · exact fun h => h.1

theorem objects_iff {L : LState M} {s : Bytes} (hc : Defines code name L → Completes code name args L) :
    Objects code name args LuaValue.tostring L s ↔
      ∃ b, ballot code name args L = some b ∧ refusal b.value = some s := by
  constructor
  · rintro ⟨hd, ⟨mem, vs, ho, hread⟩, hne⟩
    exact ⟨_, ballot_of_completes code hd ho, refusal_eq_some.mpr ⟨hread, hne⟩⟩
  · rintro ⟨b, hb, hs⟩
    have hd : Defines code name L := defines_of_ballot code name args hb
    obtain ⟨mem, vs, ho⟩ := hc hd
    rw [ballot_of_completes code hd ho] at hb
    obtain rfl := Option.some.inj hb
    obtain ⟨hread, hne⟩ := refusal_eq_some.mp hs
    exact ⟨hd, ⟨mem, vs, ho, hread⟩, hne⟩

theorem refusal_none_of_not_objects {L : LState M}
    (hc : Defines code name L → Completes code name args L)
    (h : ∀ s, ¬ Objects code name args LuaValue.tostring L s) :
    ∀ b, ballot code name args L = some b → refusal b.value = none := by
  intro b hb
  by_contra hne
  obtain ⟨s, hs⟩ := Option.ne_none_iff_exists'.mp hne
  exact h s ((objects_iff hc).mpr ⟨b, hb, hs⟩)

theorem once_of_completes {L : LState M} (hc : Defines code name L → Completes code name args L) :
    [] ++ hookCalls code name args L = once code name args L := by
  rw [List.nil_append, hookCalls_of_completes code hc]
  rfl

theorem asksInOrder {lua : List (LState M)} (hc : ∀ L ∈ lua, Defines code name L → Completes code name args L) :
    AsksInOrder code name args LuaValue.tostring lua := by
  induction lua with
  | nil =>
    refine ⟨fun _ => ⟨rfl, rfl⟩, fun pre L post s hlua => ?_⟩
    cases pre <;> cases hlua
  | cons K lua ih =>
    have hK := hc K List.mem_cons_self
    have ih := ih fun L hL => hc L (List.mem_cons_of_mem _ hL)
    -- a state that does not object leaves the verdict to those after it
    have hcontinue : (∀ s, ¬ Objects code name args LuaValue.tostring K s) →
        (connectionHook code.logged name args (bytes "CONTINUE") ((K :: lua).map recording)).1.map calls =
            once code name args K ::
              (connectionHook code.logged name args (bytes "CONTINUE") (lua.map recording)).1.map calls ∧
          (connectionHook code name args (bytes "CONTINUE") (K :: lua)).2 =
            (connectionHook code name args (bytes "CONTINUE") lua).2 := by
      intro hno
      have hnone := refusal_none_of_not_objects hK hno
      constructor
      · rw [List.map_cons, connectionHook_calls_continue code name args (L := K.recording) hnone,
          calls_recording, erase_recording, once_of_completes hK]
      · rw [connectionHook_verdict, connectionHook_verdict, ballots, List.filterMap_cons]
        cases hb : ballot code name args K with
        | none => rfl
        | some b => exact firstPick_cons_none _ (hnone b hb)
    constructor
    · intro hno
      obtain ⟨hcalls, hverdict⟩ := hcontinue (hno K List.mem_cons_self)
      obtain ⟨hrest, hlast⟩ := ih.continues fun L hL => hno L (List.mem_cons_of_mem _ hL)
      rw [hcalls, hverdict, hrest, hlast]
      exact ⟨rfl, rfl⟩
    · intro pre L post s hlua hpre hL
      cases pre with
      | nil =>
        obtain ⟨rfl, rfl⟩ := List.cons.inj hlua
        obtain ⟨b, hb, hs⟩ := (objects_iff hK).mp hL
        constructor
        · rw [List.map_cons, connectionHook_calls_stop code name args (L := K.recording) hb hs,
            calls_recording, erase_recording, once_of_completes hK, List.map_map]
          rfl
        · rw [connectionHook_verdict, ballots, List.filterMap_cons, hb]
          exact firstPick_cons_some _ hs
      | cons P pre =>
        obtain ⟨rfl, htail⟩ := List.cons.inj hlua
        obtain ⟨hcalls, hverdict⟩ := hcontinue (hpre K List.mem_cons_self)
        obtain ⟨hrest, hlast⟩ := ih.stops pre L post s htail (fun P hP => hpre P (List.mem_cons_of_mem _ hP)) hL
        rw [hcalls, hverdict, hrest, hlast]
        exact ⟨rfl, rfl⟩

end Asked

/-! ## Both verdicts -/

section Verdict
variable {M : Type} (code : Code M) (fmt : Formatter) (request : ConnectionRequest)
  (refusalMessage : WideString) (lua : List (LState M))

/-- How a status is made of what `ask` says. -/
structure MapsVerdict (status : List (LState M) × Status × WideString)
    (ask : List (LState M) → List (LState M) × Bytes) : Prop where
  unasked : request.serialIsEmpty → status = (lua, .indeterminate, refusalMessage)
  asked : request.serialIsEmpty = false → status.1 = (ask lua).1 ∧
    (status.2.1 = .accepting ↔ (ask lua).2 = bytes "CONTINUE") ∧
    (status.2.1 = .indeterminate ↔ (ask lua).2 = bytes "INDETERMINATE") ∧
    (status.2.1 = .refusing → status.2.2 = fmt.widen (ask lua).2)

theorem statusOf_maps (ask : List (LState M) → List (LState M) × Bytes) :
    MapsVerdict fmt request refusalMessage lua (statusOf fmt request refusalMessage lua ask) ask := by
  constructor
  · intro hempty
    rw [statusOf, if_pos hempty]
  · intro hserial
    have hne : ¬ request.serialIsEmpty = true := by simp [hserial]
    have hdistinct : bytes "INDETERMINATE" ≠ bytes "CONTINUE" := by decide
    simp only [statusOf, if_neg hne]
    by_cases hcontinue : (ask lua).2 = bytes "CONTINUE"
    · rw [if_pos hcontinue, hcontinue]
      simp [hdistinct.symm]
    · rw [if_neg hcontinue]
      by_cases hind : (ask lua).2 = bytes "INDETERMINATE"
      · rw [if_pos hind, hind]
        simp [hdistinct]
      · rw [if_neg hind]
        simp [hcontinue, hind]

/-- The arguments of `ConnectionAcceptance`. -/
def acceptanceArgs : List LuaValue :=
  [string request.clientName, string request.clientAddress, ofCString request.clientSerialHash,
    string request.clientVersion, number request.clientId]

/-- **Connection verdict.** What a hook returns is read as a C string. -/
theorem connection_verdict
    (hc : ∀ L ∈ lua,
      (Defines code (bytes "ConnectionAcceptance") L →
        Completes code (bytes "ConnectionAcceptance") (acceptanceArgs request) L) ∧
      (Defines code (bytes "DA_Connection_Request_Event") L →
        Completes code (bytes "DA_Connection_Request_Event") request.args L)) :
    AsksInOrder code (bytes "ConnectionAcceptance") (acceptanceArgs request) LuaValue.tostring lua ∧
      AsksInOrder code (bytes "DA_Connection_Request_Event") request.args LuaValue.tostring lua ∧
      MapsVerdict fmt request refusalMessage lua (getStatus code fmt request refusalMessage lua)
        (connectionHook code (bytes "ConnectionAcceptance") (acceptanceArgs request) (bytes "CONTINUE")) ∧
      MapsVerdict fmt request refusalMessage lua (connectionRequestEvent code fmt request refusalMessage lua)
        (connectionHook code (bytes "DA_Connection_Request_Event") request.args (bytes "CONTINUE")) :=
  ⟨asksInOrder fun L hL => (hc L hL).1, asksInOrder fun L hL => (hc L hL).2,
    statusOf_maps fmt request refusalMessage lua _, statusOf_maps fmt request refusalMessage lua _⟩

end Verdict

/-- Every global is a function that returns the memory. -/
def answeringCode : Code Bytes where
  getglobal _ _ := .function 0
  setglobal m _ _ := m
  call m _ _ := (m, .ok [.string m])

def saying (s : Bytes) : LState Bytes := ⟨s, .nil, [], []⟩

def someRequest : ConnectionRequest := ⟨1, bytes "nick", bytes "127.0.0.1", some (bytes "ab12"), bytes "1.0", 0, [], 0⟩

def someFormat : Formatter := ⟨fun _ => [], fun s => s.map UInt8.toUInt16⟩

/-- The second plugin returns "no", which is the message, and the third one is not asked. -/
theorem connection_verdict_refused :
    (connectionHook answeringCode.logged (bytes "ConnectionAcceptance") (acceptanceArgs someRequest)
      (bytes "CONTINUE") ([saying (bytes "CONTINUE"), saying (bytes "no"),
        saying (bytes "CONTINUE")].map recording)).1.map calls =
        [[⟨.function 0, acceptanceArgs someRequest⟩], [⟨.function 0, acceptanceArgs someRequest⟩], []] ∧
      (getStatus answeringCode someFormat someRequest [] [saying (bytes "CONTINUE"),
        saying (bytes "no"), saying (bytes "CONTINUE")]).2 = (.refusing, [110, 111]) := by
  let lua := [saying (bytes "CONTINUE"), saying (bytes "no"), saying (bytes "CONTINUE")]
  have hc : ∀ L ∈ lua,
      (Defines answeringCode (bytes "ConnectionAcceptance") L →
        Completes answeringCode (bytes "ConnectionAcceptance") (acceptanceArgs someRequest) L) ∧
      (Defines answeringCode (bytes "DA_Connection_Request_Event") L →
        Completes answeringCode (bytes "DA_Connection_Request_Event") someRequest.args L) :=
    fun L _ => ⟨fun _ => ⟨L.mem, _, rfl⟩, fun _ => ⟨L.mem, _, rfl⟩⟩
  obtain ⟨horder, _, hmaps, _⟩ := connection_verdict answeringCode someFormat someRequest [] lua hc
  obtain ⟨_, _, _, hmessage⟩ := hmaps.asked rfl
  have hcontinues : ∀ K ∈ [saying (bytes "CONTINUE")], ∀ s, ¬ Objects answeringCode
      (bytes "ConnectionAcceptance") (acceptanceArgs someRequest) LuaValue.tostring K s := by
    rintro K hK s ⟨_, ⟨mem, vs, ho, hs⟩, hne⟩
    obtain rfl := List.mem_singleton.mp hK
    obtain ⟨rfl, hvs⟩ := Prod.mk.inj ho
    obtain rfl := Except.ok.inj hvs
    exact hne (Option.some.inj (hs.symm.trans (by decide)))
  have hobjects : Objects answeringCode (bytes "ConnectionAcceptance") (acceptanceArgs someRequest)
      LuaValue.tostring (saying (bytes "no")) (bytes "no") :=
    ⟨rfl, ⟨_, _, rfl, by decide⟩, by decide⟩
  exact ⟨(horder.stops _ _ [saying (bytes "CONTINUE")] _ rfl hcontinues hobjects).1,
    Prod.ext rfl (hmessage rfl)⟩

/-- The bytes returned are "CONTINUE", a zero and "no": they are not "CONTINUE", but the connection is accepted. -/
theorem connection_verdict_zero :
    ¬ AsksInOrder answeringCode (bytes "ConnectionAcceptance")
      (acceptanceArgs someRequest) LuaValue.tolstring [saying (bytes "CONTINUE\x00no")] := by
  intro hall
  have hobjects : Objects answeringCode (bytes "ConnectionAcceptance") (acceptanceArgs someRequest)
      LuaValue.tolstring (saying (bytes "CONTINUE\x00no")) (bytes "CONTINUE\x00no") :=
    ⟨rfl, ⟨_, _, rfl, rfl⟩, by decide⟩
  obtain ⟨_, hverdict⟩ := hall.stops [] _ [] _ rfl (fun _ hK => absurd hK List.not_mem_nil) hobjects
  exact absurd hverdict (by decide)

end LuaTT.Dispatch
