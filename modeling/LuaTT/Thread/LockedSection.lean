import LuaTT.Thread.AcceptedMessages

/-! The functions of `LuaThread` between the lock of `m_locker` and its unlock, one call of the Lua API
after the other. Two kinds of calls matter: one that allocates may start the collector, which runs the
finalizers of the state, and one that raises leaves the function. -/
namespace LuaTT.LockedSection
open Lua DataMessage Channel ChannelMap TableTree
set_option autoImplicit false

/-! ## Operations -/

/-- What these functions do under the lock: calls of the Lua API, and their own work on `m_threads` and
`m_messages`. -/
inductive Op
  | isnumber
  | isstring
  | isboolean
  | istable
  | tonumber
  | toboolean
  | tostring (v : LuaValue)
  | gettop
  | next
  | lua_pop
  | pushnil
  | pushnumber
  | pushboolean
  | pushstring (s : Bytes)
  | createtable
  /-- `nan` where the key is NaN. -/
  | settable (nan : Bool)
  | threads
  | getChannel (c : Bytes)
  | push (c : Bytes) (m : LuaDataMessage)
  | pop (c : Bytes)
  | notify

namespace Op

/-- The call has an `lj_gc_check`: `lua_pushstring` of a text, `lua_createtable`, and `lua_tolstring`
where it makes a string of a number. -/
def allocates : Op → Bool
  | pushstring _ => true
  | createtable => true
  | tostring (.number _) => true
  | _ => false

/-- `lua_settable` raises "table index is NaN". -/
def raises : Op → Bool
  | settable nan => nan
  | _ => false

def effect (messages : ChannelMap) : Op → ChannelMap
  | getChannel c => messages.getChannel c
  | push c m => messages.setQueue c (messages.queue c ++ [m])
  | pop c => messages.setQueue c (messages.queue c).tail
  | _ => messages

end Op

/-- The operations that are executed: an error ends the function. -/
def executed : List Op → List Op
  | [] => []
  | op :: ops => op :: if op.raises then [] else executed ops

/-- The channels after the operations, and whether the function comes to its end. -/
def perform (messages : ChannelMap) : List Op → ChannelMap × Bool
  | [] => (messages, true)
  | op :: ops => if op.raises then (messages, false) else perform (op.effect messages) ops

/-! ## `LuaThread::convertData` and `LuaThread::ReturnDataLua` -/

section Convert
variable (heap : Heap)

def convertOps : ℕ → List LuaValue → ℤ → Bool → List Op
  | 0, _, _, _ => []
  | fuel + 1, stack, n, insideTable =>
    let v := (index2adr stack n).getD .nil
    if v.isnumber then [.isnumber, .tonumber]
    else if v.isstring then [.isnumber, .isstring, .tostring v]
    else if v.isboolean then [.isnumber, .isstring, .isboolean, .toboolean]
    else if v.istable then
      let n := if insideTable then (stack.length : ℤ) else n
      [.isnumber, .isstring, .isboolean, .istable, .gettop, .pushnil] ++
      match index2adr (stack ++ [LuaValue.nil]) n with
      | some (.table r) => ((heap.entries r).flatMap fun (k, v) =>
          .next :: convertOps fuel (stack ++ [k, v]) (-2) true ++
            convertOps fuel (stack ++ [k, v]) (-1) true ++ [.lua_pop]) ++ [.next]
      | _ => [.next]
    else [.isnumber, .isstring, .isboolean, .istable]

end Convert

def nanKey : LuaDataMessage → Bool
  | .number n => !(n == n)
  | _ => false

def returnOps : LuaDataMessage → List Op
  | .number _ => [.pushnumber]
  | .string s => [.pushstring s]
  | .boolean _ => [.pushboolean]
  | .table size key value => .createtable :: (List.finRange size).flatMap fun i =>
    returnOps (key i) ++ returnOps (value i) ++ [.settable (nanKey (key i))]

/-! ## The functions -/

/-- A call past the check of its arguments, with what it reads besides `m_messages`. `setThreadExit` is
called at the end of `executeThread`. -/
inductive Call
  | newThread
  | waitThread
  | isThreadRunning (found : Bool)
  | getThreadError (error : Option Bytes)
  | removeThread
  | setThreadExit
  | sendData (c : Bytes) (heap : Heap) (args : List LuaValue) (addr : ℕ → ℕ) (fuel next : ℕ)
  | getData (c : Bytes)
  | getAllData (c : Bytes)
  | peekData (c : Bytes)
  | peekAllData (c : Bytes)
  | demandData (c : Bytes)
  | getAllChannels

/-- `Lua_Send_Data`, with what `convertData` made of the value. -/
def sendOps (c : Bytes) (converted : List Op) : Option LuaDataMessage → List Op
  | some data => converted ++ [.getChannel c, .push c data, .pushboolean, .notify]
  | none => converted ++ [.pushboolean]

/-- The front message, if there is one, and what is done with it. -/
def frontOps (rest : List Op) : List LuaDataMessage → List Op
  | [] => []
  | data :: _ => returnOps data ++ rest

/-- A table of all messages; `after` follows each of them. -/
def listOps (after : List Op) (q : List LuaDataMessage) : List Op :=
  .createtable :: q.flatMap fun data => .pushnumber :: (returnOps data ++ after ++ [.settable false])

/-- What a call does with the lock: its operations, or `m_newMessage.wait` over the empty channel, or a
fault in `convertData`. -/
inductive Section
  | ops (l : List Op)
  | wait (c : Bytes)
  | fault

def Call.section (messages : ChannelMap) : Call → Section
  | newThread => .ops [.threads, .threads, .pushnumber]
  | waitThread => .ops [.threads]
  | isThreadRunning found => .ops ([.threads, .threads] ++ if found then [.pushboolean] else [])
  | getThreadError (some error) => .ops [.threads, .pushstring error]
  | getThreadError none => .ops [.threads]
  | removeThread => .ops [.threads, .threads]
  | setThreadExit => .ops [.threads]
  | sendData c heap args addr fuel next =>
    match convertData heap addr fuel next args 2 false with
    | .error _ => .fault
    | .ok (_, data) => .ops (sendOps c (convertOps heap fuel args 2 false) (data.map Prod.snd))
  | getData c => .ops (.getChannel c :: frontOps [.pop c] (messages.queue c))
  | getAllData c => .ops (.getChannel c :: listOps [.pop c] (messages.queue c))
  | peekData c => .ops (.getChannel c :: frontOps [] (messages.queue c))
  | peekAllData c => .ops (.getChannel c :: listOps [] (messages.queue c))
  | demandData c => if messages.queue c = [] then .wait c
    else .ops (.getChannel c :: frontOps [.pop c] (messages.queue c))
  | getAllChannels => .ops (.createtable :: messages.keys.flatMap fun c =>
      [.pushnumber, .pushstring (cstring c), .settable false])

/-! ## Which calls allocate, and which fail -/

def isObject : LuaDataMessage → Bool
  | .string _ => true
  | .table _ _ _ => true
  | _ => false

/-- The front message of the channel is a string or a table. -/
def FrontObject (messages : ChannelMap) (c : Bytes) : Prop :=
  ∃ m q, messages.queue c = m :: q ∧ isObject m = true

/-- The front message of the channel does not come out. -/
def FrontStuck (messages : ChannelMap) (c : Bytes) : Prop :=
  ∃ m q, messages.queue c = m :: q ∧ ¬ Deliverable m

def Call.Allocates (messages : ChannelMap) : Call → Prop
  | getThreadError error => error ≠ none
  | getData c => FrontObject messages c
  | peekData c => FrontObject messages c
  | demandData c => FrontObject messages c
  | getAllData _ => True
  | peekAllData _ => True
  | getAllChannels => True
  | _ => False

def Call.Fails (messages : ChannelMap) : Call → Prop
  | getData c => FrontStuck messages c
  | peekData c => FrontStuck messages c
  | demandData c => FrontStuck messages c
  | getAllData c => ∃ m ∈ messages.queue c, ¬ Deliverable m
  | peekAllData c => ∃ m ∈ messages.queue c, ¬ Deliverable m
  | _ => False

def Allocating (l : List Op) : Prop := ∃ op ∈ executed l, op.allocates = true

def Raising (l : List Op) : Prop := ∃ op ∈ l, op.raises = true

theorem mem_executed {op : Op} {l : List Op} (h : op ∈ executed l) : op ∈ l := by
  induction l with
  | nil => exact h
  | cons x l ih =>
    rw [executed] at h
    rcases List.mem_cons.mp h with rfl | h
    · exact List.mem_cons_self
    · split_ifs at h
      · exact absurd h List.not_mem_nil
      · exact List.mem_cons_of_mem _ (ih h)

theorem not_allocating {l : List Op} (h : ∀ op ∈ l, op.allocates = false) : ¬ Allocating l := by
  rintro ⟨op, hop, ha⟩
  rw [h op (mem_executed hop)] at ha
  cases ha

theorem allocating_cons {op : Op} {l : List Op} (ha : op.allocates = false) (hr : op.raises = false) :
    Allocating (op :: l) ↔ Allocating l := by
  simp [Allocating, executed, ha, hr]

theorem allocating_head {op : Op} {l : List Op} (ha : op.allocates = true) : Allocating (op :: l) :=
  ⟨op, by simp [executed], ha⟩

theorem raising_append {l l' : List Op} : Raising (l ++ l') ↔ Raising l ∨ Raising l' := by
  simp only [Raising, List.mem_append]
  constructor
  · rintro ⟨op, hop | hop, hr⟩
    · exact .inl ⟨op, hop, hr⟩
    · exact .inr ⟨op, hop, hr⟩
  · rintro (⟨op, hop, hr⟩ | ⟨op, hop, hr⟩)
    · exact ⟨op, .inl hop, hr⟩
    · exact ⟨op, .inr hop, hr⟩

theorem raising_cons {op : Op} {l : List Op} : Raising (op :: l) ↔ op.raises = true ∨ Raising l := by
  simp [Raising]

theorem raising_flatMap {α : Type} {f : α → List Op} {as : List α} :
    Raising (as.flatMap f) ↔ ∃ a ∈ as, Raising (f a) := by
  simp only [Raising, List.mem_flatMap]
  constructor
  · rintro ⟨op, ⟨a, ha, hop⟩, hr⟩
    exact ⟨a, ha, op, hop, hr⟩
  · rintro ⟨a, ha, op, hop, hr⟩
    exact ⟨op, ⟨a, ha, hop⟩, hr⟩

/-! ### Conversions and values -/

def Op.Plain (op : Op) : Prop := op.allocates = false ∧ op.raises = false

instance (op : Op) : Decidable op.Plain := inferInstanceAs (Decidable (_ ∧ _))

/-- A call of the Lua API that only looks at values, or pushes one that is no object. -/
def Op.looks : Op → Bool
  | tostring v => !v.isnumber
  | pushstring _ => false
  | createtable => false
  | settable _ => false
  | threads => false
  | getChannel _ => false
  | push _ _ => false
  | pop _ => false
  | notify => false
  | _ => true

theorem plain_of_looks {op : Op} (h : op.looks = true) : op.Plain := by
  cases op with
  | tostring v =>
    cases v with
    | number n => cases h
    | _ => exact ⟨rfl, rfl⟩
  | _ => first | exact ⟨rfl, rfl⟩ | cases h

theorem still_of_looks {op : Op} (h : op.looks = true) (messages : ChannelMap) :
    op.effect messages = messages := by
  cases op <;> first | rfl | cases h

/-- `convertData` makes no Lua object: where it asks for a text, the value is a string. -/
theorem convertOps_looks (heap : Heap) (fuel : ℕ) (stack : List LuaValue) (n : ℤ) (insideTable : Bool) :
    ∀ op ∈ convertOps heap fuel stack n insideTable, op.looks = true := by
  induction fuel generalizing stack n insideTable with
  | zero => exact fun op hop => absurd hop List.not_mem_nil
  | succ fuel ih =>
    simp only [convertOps]
    generalize (if insideTable = true then (stack.length : ℤ) else n) = idx
    split_ifs with hnum
    · decide
    · refine List.forall_mem_cons.mpr ⟨rfl, List.forall_mem_cons.mpr ⟨rfl, ?_⟩⟩
      exact List.forall_mem_singleton.mpr (by simpa [Op.looks] using hnum)
    · decide
    · refine List.forall_mem_append.mpr ⟨by decide, ?_⟩
      split
      · refine List.forall_mem_append.mpr ⟨?_, by decide⟩
        intro op hop
        obtain ⟨⟨k, v⟩, _, hop⟩ := List.mem_flatMap.mp hop
        rcases List.mem_append.mp hop with hop | hop
        · rcases List.mem_append.mp hop with hop | hop
          · rcases List.mem_cons.mp hop with rfl | hop
            · rfl
            · exact ih _ _ _ op hop
          · exact ih _ _ _ op hop
        · rw [List.mem_singleton.mp hop]
          rfl
      · decide
    · decide

theorem raising_returnOps (m : LuaDataMessage) : Raising (returnOps m) ↔ ¬ Deliverable m := by
  induction m with
  | number n => exact iff_of_false (by simp [Raising, returnOps, Op.raises]) (not_not.mpr (deliverable_number n))
  | string s => exact iff_of_false (by simp [Raising, returnOps, Op.raises]) (not_not.mpr (deliverable_string s))
  | boolean b => exact iff_of_false (by simp [Raising, returnOps, Op.raises]) (not_not.mpr (deliverable_boolean b))
  | table size key value ihk ihv =>
    rw [deliverable_table, returnOps, raising_cons, raising_flatMap]
    simp only [Op.raises, Bool.false_eq_true, false_or, List.mem_finRange, true_and, not_forall]
    apply exists_congr
    intro i
    have hnan : nanKey (key i) = true ↔ ¬ KeyAccepted (key i) := by
      cases key i <;> simp [nanKey, KeyAccepted]
    rw [raising_append, raising_append, ihk i, ihv i]
    simp only [raising_cons, Op.raises, hnan, EntryDeliverable]
    have hnil : ¬ Raising [] := by simp [Raising]
    tauto

theorem allocating_returnOps (m : LuaDataMessage) (l : List Op) :
    Allocating (returnOps m ++ l) ↔ isObject m = true ∨ (isObject m = false ∧ Allocating l) := by
  cases m with
  | number n =>
    rw [returnOps, List.singleton_append, allocating_cons rfl rfl]
    simp [isObject]
  | boolean b =>
    rw [returnOps, List.singleton_append, allocating_cons rfl rfl]
    simp [isObject]
  | string s =>
    rw [returnOps, List.singleton_append]
    exact iff_of_true (allocating_head rfl) (.inl rfl)
  | table size key value =>
    rw [returnOps, List.cons_append]
    exact iff_of_true (allocating_head rfl) (.inl rfl)

/-! ### The functions -/

theorem allocating_frontOps {rest : List Op} (hrest : ∀ op ∈ rest, op.Plain) (q : List LuaDataMessage) :
    Allocating (frontOps rest q) ↔ ∃ m q', q = m :: q' ∧ isObject m = true := by
  cases q with
  | nil => exact iff_of_false (not_allocating fun op hop => absurd hop List.not_mem_nil) (by simp)
  | cons m q =>
    have hno : ¬ Allocating rest := not_allocating fun op hop => (hrest op hop).1
    rw [frontOps, allocating_returnOps]
    simp [hno]

theorem not_raising {l : List Op} (h : ∀ op ∈ l, op.Plain) : ¬ Raising l := by
  rintro ⟨op, hop, hr⟩
  rw [(h op hop).2] at hr
  cases hr

theorem raising_frontOps {rest : List Op} (hrest : ∀ op ∈ rest, op.Plain) (q : List LuaDataMessage) :
    Raising (frontOps rest q) ↔ ∃ m q', q = m :: q' ∧ ¬ Deliverable m := by
  cases q with
  | nil => exact iff_of_false (not_raising fun op hop => absurd hop List.not_mem_nil) (by simp)
  | cons m q =>
    have hno : ¬ Raising rest := not_raising hrest
    rw [frontOps, raising_append, raising_returnOps]
    simp [hno]

theorem raising_listOps {after : List Op} (hafter : ∀ op ∈ after, op.Plain) (q : List LuaDataMessage) :
    Raising (listOps after q) ↔ ∃ m ∈ q, ¬ Deliverable m := by
  have hno : ¬ Raising after := not_raising hafter
  have hset : ¬ Raising [Op.settable false] := not_raising (by decide)
  rw [listOps, raising_cons, raising_flatMap]
  simp [raising_cons, raising_append, raising_returnOps, hno, hset, Op.raises]

theorem plain_sendOps {converted : List Op} (h : ∀ op ∈ converted, op.looks = true) (c : Bytes)
    (data : Option LuaDataMessage) : ∀ op ∈ sendOps c converted data, op.Plain := by
  have hplain : ∀ op ∈ converted, op.Plain := fun op hop => plain_of_looks (h op hop)
  cases data with
  | none => exact List.forall_mem_append.mpr ⟨hplain, by decide⟩
  | some d =>
    refine List.forall_mem_append.mpr ⟨hplain, fun op hop => ?_⟩
    simp only [List.mem_cons, List.not_mem_nil, or_false] at hop
    rcases hop with rfl | rfl | rfl | rfl <;> exact ⟨rfl, rfl⟩

theorem plain_pop (c : Bytes) : ∀ op ∈ [Op.pop c], op.Plain := fun op hop => by
  rw [List.mem_singleton.mp hop]
  exact ⟨rfl, rfl⟩

/-- Nothing comes out of a channel or a thread. -/
def Call.HandsOutNothing : Call → Prop
  | newThread | waitThread | isThreadRunning _ | getThreadError none | removeThread | setThreadExit
  | sendData .. => True
  | _ => False

theorem section_plain {messages : ChannelMap} {c : Call} {l : List Op} (h : c.section messages = .ops l)
    (hc : c.HandsOutNothing) : ∀ op ∈ l, op.Plain := by
  cases c with
  | newThread | waitThread | removeThread | setThreadExit =>
    obtain rfl := Section.ops.inj h
    decide
  | isThreadRunning found =>
    obtain rfl := Section.ops.inj h
    cases found <;> decide
  | getThreadError error =>
    cases error with
    | none =>
      obtain rfl := Section.ops.inj h
      decide
    | some e => exact hc.elim
  | sendData c heap args addr fuel next =>
    simp only [Call.section] at h
    split at h
    · cases h
    · obtain rfl := Section.ops.inj h
      exact plain_sendOps (convertOps_looks heap fuel args 2 false) c (Option.map Prod.snd ‹_›)
  | _ => exact hc.elim

/-- `Get_Thread_Error` with an error, the calls that hand out a string or a table, and the listings
allocate under the lock; the other functions do not. -/
theorem section_allocating {messages : ChannelMap} {c : Call} {l : List Op}
    (h : c.section messages = .ops l) : Allocating l ↔ c.Allocates messages := by
  have hplain : c.HandsOutNothing → ¬ Allocating l :=
    fun hc => not_allocating fun op hop => (section_plain h hc op hop).1
  cases c with
  | newThread | waitThread | isThreadRunning | removeThread | setThreadExit | sendData =>
    exact iff_of_false (hplain trivial) id
  | getThreadError error =>
    cases error with
    | none => exact iff_of_false (hplain trivial) (by simp [Call.Allocates])
    | some e =>
      obtain rfl := Section.ops.inj h
      rw [allocating_cons rfl rfl]
      exact iff_of_true (allocating_head rfl) (by simp [Call.Allocates])
  | getData c =>
    obtain rfl := Section.ops.inj h
    rw [allocating_cons rfl rfl]
    exact allocating_frontOps (plain_pop c) _
  | peekData c =>
    obtain rfl := Section.ops.inj h
    rw [allocating_cons rfl rfl]
    exact allocating_frontOps (by decide) _
  | demandData c =>
    simp only [Call.section] at h
    split_ifs at h
    obtain rfl := Section.ops.inj h
    rw [allocating_cons rfl rfl]
    exact allocating_frontOps (plain_pop c) _
  | getAllData c =>
    obtain rfl := Section.ops.inj h
    rw [allocating_cons rfl rfl]
    exact iff_of_true (allocating_head rfl) trivial
  | peekAllData c =>
    obtain rfl := Section.ops.inj h
    rw [allocating_cons rfl rfl]
    exact iff_of_true (allocating_head rfl) trivial
  | getAllChannels =>
    obtain rfl := Section.ops.inj h
    exact iff_of_true (allocating_head rfl) trivial

/-- The calls that hand out a message fail where the message does not come out. -/
theorem section_raising {messages : ChannelMap} {c : Call} {l : List Op}
    (h : c.section messages = .ops l) : Raising l ↔ c.Fails messages := by
  have hplain : c.HandsOutNothing → ¬ Raising l := fun hc => not_raising (section_plain h hc)
  have hfirst : ∀ (d : Bytes) (ops : List Op), Raising (.getChannel d :: ops) ↔ Raising ops := fun d ops => by
    simp [raising_cons, Op.raises]
  cases c with
  | newThread | waitThread | isThreadRunning | removeThread | setThreadExit | sendData =>
    exact iff_of_false (hplain trivial) id
  | getThreadError error =>
    cases error with
    | none => exact iff_of_false (hplain trivial) id
    | some e =>
      obtain rfl := Section.ops.inj h
      exact iff_of_false (by simp [Raising, Op.raises]) id
  | getData c =>
    obtain rfl := Section.ops.inj h
    rw [hfirst]
    exact raising_frontOps (plain_pop c) _
  | peekData c =>
    obtain rfl := Section.ops.inj h
    rw [hfirst]
    exact raising_frontOps (by decide) _
  | demandData c =>
    simp only [Call.section] at h
    split_ifs at h
    obtain rfl := Section.ops.inj h
    rw [hfirst]
    exact raising_frontOps (plain_pop c) _
  | getAllData c =>
    obtain rfl := Section.ops.inj h
    rw [hfirst]
    exact raising_listOps (plain_pop c) _
  | peekAllData c =>
    obtain rfl := Section.ops.inj h
    rw [hfirst]
    exact raising_listOps (by decide) _
  | getAllChannels =>
    obtain rfl := Section.ops.inj h
    refine iff_of_false ?_ id
    rw [raising_cons, raising_flatMap]
    simp [Raising, Op.raises]

/-- Only `Demand_Data` waits, and it does so over an empty queue. -/
theorem section_wait {messages : ChannelMap} {c : Call} {d : Bytes} (h : c.section messages = .wait d) :
    ¬ c.Allocates messages ∧ ¬ c.Fails messages := by
  cases c with
  | demandData c =>
    simp only [Call.section] at h
    split_ifs at h with hq
    constructor
    · rintro ⟨m, q, hm, _⟩
      simp [hq] at hm
    · rintro ⟨m, q, hm, _⟩
      simp [hq] at hm
  | getThreadError error => cases error <;> cases h
  | sendData c heap args addr fuel next =>
    simp only [Call.section] at h
    split at h <;> cases h
  | _ => cases h

/-! ## The operations make up the sections

The channels and the way a call ends are the same, operation by operation and in one step. -/

def Call.outcome (messages : ChannelMap) : Call → Option Outcome
  | sendData c heap args addr fuel next =>
    match convertData heap addr fuel next args 2 false with
    | .error _ => none
    | .ok (_, data) => some (sendSection messages c (data.map Prod.snd))
  | getData c => some (getSection messages c)
  | getAllData c => some (getAllSection messages c)
  | peekData c => some (peekSection messages c)
  | peekAllData c => some (peekAllSection messages c)
  | demandData c => some (popFront (messages.getChannel c) c)
  | getAllChannels => some (getAllChannelsSection messages)
  | _ => none

theorem perform_completed (messages : ChannelMap) (l : List Op) :
    (perform messages l).2 = true ↔ ¬ Raising l := by
  induction l generalizing messages with
  | nil => simp [perform, Raising]
  | cons op l ih =>
    rw [perform, raising_cons]
    split_ifs with hr
    · simp [hr]
    · simp [hr, ih]

theorem perform_append {l : List Op} (hl : ¬ Raising l) (messages : ChannelMap) (l' : List Op) :
    perform messages (l ++ l') = perform (perform messages l).1 l' := by
  induction l generalizing messages with
  | nil => rfl
  | cons op l ih =>
    rw [raising_cons, not_or] at hl
    rw [List.cons_append, perform, perform, if_neg hl.1, if_neg hl.1]
    exact ih hl.2 (op.effect messages)

theorem perform_stopped {l : List Op} (hl : Raising l) (messages : ChannelMap) (l' : List Op) :
    perform messages (l ++ l') = perform messages l := by
  induction l generalizing messages with
  | nil => simp [Raising] at hl
  | cons op l ih =>
    rw [List.cons_append, perform, perform]
    split_ifs with hr
    · rfl
    · exact ih ((raising_cons.mp hl).resolve_left hr) (op.effect messages)

theorem perform_still {l : List Op} (h : ∀ op ∈ l, ∀ messages, op.effect messages = messages)
    (messages : ChannelMap) : (perform messages l).1 = messages := by
  induction l with
  | nil => rfl
  | cons op l ih =>
    rw [perform]
    split_ifs
    · rfl
    · rw [h op List.mem_cons_self]
      exact ih fun op hop => h op (List.mem_cons_of_mem _ hop)

/-- The calls of the Lua API leave the channels alone. -/
theorem returnOps_still (m : LuaDataMessage) :
    ∀ op ∈ returnOps m, ∀ messages, op.effect messages = messages := by
  induction m with
  | number n => exact List.forall_mem_singleton.mpr fun _ => rfl
  | string s => exact List.forall_mem_singleton.mpr fun _ => rfl
  | boolean b => exact List.forall_mem_singleton.mpr fun _ => rfl
  | table size key value ihk ihv =>
    refine List.forall_mem_cons.mpr ⟨fun _ => rfl, fun op hop => ?_⟩
    obtain ⟨i, _, hop⟩ := List.mem_flatMap.mp hop
    rcases List.mem_append.mp hop with hop | hop
    · rcases List.mem_append.mp hop with hop | hop
      · exact ihk i op hop
      · exact ihv i op hop
    · rw [List.mem_singleton.mp hop]
      exact fun _ => rfl

/-- A front message that does not come out ends the call before it is popped. -/
theorem perform_frontOps (messages : ChannelMap) (rest : List Op) {m : LuaDataMessage}
    (q : List LuaDataMessage) :
    (Deliverable m → perform messages (frontOps rest (m :: q)) = perform messages rest) ∧
      (¬ Deliverable m → (perform messages (frontOps rest (m :: q))).1 = messages) := by
  have hstill := perform_still (returnOps_still m) messages
  constructor
  · intro hm
    have hr : ¬ Raising (returnOps m) := (raising_returnOps m).not.mpr (not_not.mpr hm)
    rw [frontOps, perform_append hr, hstill]
  · intro hm
    rw [frontOps, perform_stopped ((raising_returnOps m).mpr hm), hstill]

theorem perform_sendOps (messages : ChannelMap) (c : Bytes) {converted : List Op}
    (h : ∀ op ∈ converted, op.looks = true) (data : Option LuaDataMessage) :
    (perform messages (sendOps c converted data)).1 = (sendSection messages c data).messages := by
  have hno : ¬ Raising converted := not_raising fun op hop => plain_of_looks (h op hop)
  have hstill := perform_still (fun op hop => still_of_looks (h op hop)) messages
  cases data with
  | none =>
    rw [sendOps, perform_append hno, hstill]
    rfl
  | some d =>
    rw [sendOps, perform_append hno, hstill]
    rfl

theorem setQueue_queue (messages : ChannelMap) (c d : Bytes) (q : List LuaDataMessage) :
    (messages.setQueue c q).queue d = if d = c then q else messages.queue d := by
  split_ifs with h
  · rw [h, queue_setQueue_self]
  · exact queue_setQueue_ne messages q (Ne.symm h)

theorem perform_popFront (messages : ChannelMap) (c : Bytes) :
    (perform messages (frontOps [.pop c] (messages.queue c))).1 = (popFront messages c).messages := by
  cases hq : messages.queue c with
  | nil =>
    simp only [popFront, hq]
    rfl
  | cons m q =>
    obtain ⟨hout, hstuck⟩ := perform_frontOps messages [.pop c] (m := m) q
    by_cases hm : Deliverable m
    · obtain ⟨v, hv⟩ := id hm
      rw [hout hm]
      simp only [popFront, hq, hv]
      simp [perform, Op.raises, Op.effect, hq]
    · rw [hstuck hm]
      simp only [popFront, hq, error_of_not_deliverable hm]

/-- The loop of `Lua_Get_All_Data` pops message after message, up to one that does not come out. -/
theorem perform_getAll {messages : ChannelMap} {c : Bytes} {q : List LuaDataMessage}
    (hq : messages.queue c = q) (k : ℕ) (t : List (ℕ × LuaTree)) (d : Bytes) :
    (perform messages (q.flatMap fun m =>
      .pushnumber :: (returnOps m ++ [.pop c] ++ [.settable false]))).1.queue d =
      if d = c then (getAllLoop k t q).1 else messages.queue d := by
  induction q generalizing messages k t with
  | nil =>
    split_ifs with hd
    · rw [hd]
      exact hq
    · rfl
  | cons m q ih =>
    rw [List.flatMap_cons, List.cons_append, List.append_assoc, List.append_assoc, perform,
      if_neg (by simp [Op.raises])]
    have hstill := perform_still (returnOps_still m) messages
    by_cases hm : Deliverable m
    · obtain ⟨v, hv⟩ := id hm
      have hr : ¬ Raising (returnOps m) := (raising_returnOps m).not.mpr (not_not.mpr hm)
      have hpopped : (messages.setQueue c q).queue c = q := queue_setQueue_self messages c q
      simp only [Op.effect, getAllLoop, hv]
      rw [perform_append hr, hstill, List.singleton_append, perform, if_neg (by simp [Op.raises]),
        List.singleton_append, perform, if_neg (by simp [Op.raises])]
      simp only [Op.effect, hq, List.tail_cons]
      rw [ih hpopped (k + 1) (setindex k v t), setQueue_queue]
      split_ifs <;> rfl
    · simp only [Op.effect, getAllLoop, error_of_not_deliverable hm]
      rw [perform_stopped ((raising_returnOps m).mpr hm), hstill]
      split_ifs with hd
      · rw [hd, hq]
      · rfl

theorem frontOps_still (q : List LuaDataMessage) :
    ∀ op ∈ frontOps [] q, ∀ messages, op.effect messages = messages := by
  cases q with
  | nil => exact fun op hop => absurd hop List.not_mem_nil
  | cons m q =>
    rw [frontOps, List.append_nil]
    exact returnOps_still m

theorem listOps_still (q : List LuaDataMessage) :
    ∀ op ∈ listOps [] q, ∀ messages, op.effect messages = messages := by
  refine List.forall_mem_cons.mpr ⟨fun _ => rfl, fun op hop => ?_⟩
  obtain ⟨m, _, hop⟩ := List.mem_flatMap.mp hop
  rcases List.mem_cons.mp hop with rfl | hop
  · exact fun _ => rfl
  · rw [List.append_nil] at hop
    rcases List.mem_append.mp hop with hop | hop
    · exact returnOps_still m op hop
    · rw [List.mem_singleton.mp hop]
      exact fun _ => rfl

/-! ### How the calls end -/

theorem popFront_fails (messages : ChannelMap) (c : Bytes) :
    (∃ x, (popFront messages c).result = .ok x) ↔ ¬ FrontStuck messages c := by
  constructor
  · rintro ⟨x, hx⟩ ⟨m, q, hq, hm⟩
    simp [popFront, hq, error_of_not_deliverable hm] at hx
  · intro h
    cases hq : messages.queue c with
    | nil => exact ⟨.nothing, by simp only [popFront, hq]⟩
    | cons m q =>
      obtain ⟨v, hv⟩ : Deliverable m := not_not.mp fun hm => h ⟨m, q, hq, hm⟩
      exact ⟨.value v, by simp only [popFront, hq, hv]⟩

theorem frontStuck_getChannel (messages : ChannelMap) (c d : Bytes) :
    FrontStuck (messages.getChannel d) c ↔ FrontStuck messages c := by
  simp only [FrontStuck, queue_getChannel]

theorem peekAllLoop_fails (k : ℕ) (t : List (ℕ × LuaTree)) (q : List LuaDataMessage) :
    (∃ l, peekAllLoop k t q = .ok l) ↔ ¬ ∃ m ∈ q, ¬ Deliverable m := by
  simp only [not_exists, not_and, not_not]
  constructor
  · rintro ⟨l, hl⟩ m hm
    induction q generalizing k t with
    | nil => exact absurd hm List.not_mem_nil
    | cons x q ih =>
      simp only [peekAllLoop] at hl
      cases hx : returnDataLua x with
      | error e => simp [hx] at hl
      | ok v =>
        rw [hx] at hl
        rcases List.mem_cons.mp hm with rfl | hm
        · exact ⟨v, hx⟩
        · exact ih (k + 1) (setindex k v t) hl hm
  · exact fun h => peekAllLoop_ok h

theorem map_array_ok {x : Except LuaError (List (ℕ × LuaTree))} :
    (∃ y, x.map Returned.array = .ok y) ↔ ∃ l, x = .ok l := by
  cases x with
  | error e => exact iff_of_false (by rintro ⟨_, h⟩; cases h) (by rintro ⟨_, h⟩; cases h)
  | ok l => exact iff_of_true ⟨_, rfl⟩ ⟨l, rfl⟩

theorem outcome_fails {messages : ChannelMap} {c : Call} {o : Outcome}
    (ho : c.outcome messages = some o) : (∃ x, o.result = .ok x) ↔ ¬ c.Fails messages := by
  cases c with
  | sendData c heap args addr fuel next =>
    simp only [Call.outcome] at ho
    split at ho
    · cases ho
    · obtain rfl := Option.some.inj ho
      refine iff_of_true ?_ id
      generalize Option.map Prod.snd _ = data
      cases data <;> exact ⟨_, rfl⟩
  | getData c =>
    obtain rfl := Option.some.inj ho
    rw [getSection, popFront_fails, frontStuck_getChannel]
    rfl
  | demandData c =>
    obtain rfl := Option.some.inj ho
    rw [popFront_fails, frontStuck_getChannel]
    rfl
  | peekData c =>
    obtain rfl := Option.some.inj ho
    simp only [peekSection, queue_getChannel, Call.Fails, FrontStuck]
    cases hq : messages.queue c with
    | nil => simp
    | cons m q =>
      by_cases hm : Deliverable m
      · obtain ⟨v, hv⟩ := id hm
        simp [hv, hm, Except.map]
      · simp [error_of_not_deliverable hm, hm, Except.map]
  | getAllData c =>
    obtain rfl := Option.some.inj ho
    simp only [getAllSection, queue_getChannel, getAllLoop_result, map_array_ok]
    exact peekAllLoop_fails 1 [] _
  | peekAllData c =>
    obtain rfl := Option.some.inj ho
    simp only [peekAllSection, queue_getChannel, map_array_ok]
    exact peekAllLoop_fails 1 [] _
  | getAllChannels =>
    obtain rfl := Option.some.inj ho
    exact iff_of_true ⟨_, rfl⟩ id
  | _ => cases ho

/-- **The operations refine the sections.** One after the other they leave the queues that the section
leaves in one step, and they come to their end exactly where it raises no error. -/
theorem section_refines {messages : ChannelMap} {c : Call} {l : List Op} {o : Outcome}
    (h : c.section messages = .ops l) (ho : c.outcome messages = some o) :
    (∀ d, (perform messages l).1.queue d = o.messages.queue d) ∧
      ((perform messages l).2 = true ↔ ∃ x, o.result = .ok x) := by
  have hfirst : ∀ d ops, perform messages (.getChannel d :: ops) =
      perform (messages.getChannel d) ops := fun d ops => by simp [perform, Op.raises, Op.effect]
  refine ⟨fun d => ?_, by rw [perform_completed, section_raising h, outcome_fails ho]⟩
  cases c with
  | sendData c heap args addr fuel next =>
    simp only [Call.section, Call.outcome] at h ho
    split at h
    · cases h
    · rename_i hconv
      rw [hconv] at ho
      obtain rfl := Section.ops.inj h
      obtain rfl := Option.some.inj ho
      rw [perform_sendOps messages c (convertOps_looks heap fuel args 2 false)]
  | getData c =>
    obtain rfl := Section.ops.inj h
    obtain rfl := Option.some.inj ho
    rw [hfirst, ← queue_getChannel messages c c, perform_popFront]
    rfl
  | demandData c =>
    simp only [Call.section] at h
    split_ifs at h
    obtain rfl := Section.ops.inj h
    obtain rfl := Option.some.inj ho
    rw [hfirst, ← queue_getChannel messages c c, perform_popFront]
  | peekData c =>
    obtain rfl := Section.ops.inj h
    obtain rfl := Option.some.inj ho
    have hstill : (perform (messages.getChannel c) (frontOps [] (messages.queue c))).1 =
        messages.getChannel c := perform_still (frontOps_still _) _
    rw [hfirst, hstill, queue_getChannel]
    exact ((peekSection_keeps messages c).2.2 d).symm
  | getAllData c =>
    obtain rfl := Section.ops.inj h
    obtain rfl := Option.some.inj ho
    have hq : (messages.getChannel c).queue c = messages.queue c := queue_getChannel messages c c
    rw [hfirst, listOps, perform, if_neg (by simp [Op.raises])]
    simp only [Op.effect, List.append_assoc]
    have hall := perform_getAll hq 1 [] d
    simp only [List.append_assoc] at hall
    rw [hall, getAllSection, setQueue_queue, queue_getChannel, queue_getChannel]
  | peekAllData c =>
    obtain rfl := Section.ops.inj h
    obtain rfl := Option.some.inj ho
    have hstill : (perform (messages.getChannel c) (listOps [] (messages.queue c))).1 =
        messages.getChannel c := perform_still (listOps_still _) _
    rw [hfirst, hstill]
    rfl
  | getAllChannels =>
    obtain rfl := Section.ops.inj h
    obtain rfl := Option.some.inj ho
    rw [perform_still fun op hop => ?_]
    · rfl
    · rcases List.mem_cons.mp hop with rfl | hop
      · exact fun _ => rfl
      · obtain ⟨c, _, hop⟩ := List.mem_flatMap.mp hop
        simp only [List.mem_cons, List.not_mem_nil, or_false] at hop
        rcases hop with rfl | rfl | rfl <;> exact fun _ => rfl
  | _ => cases ho

end LuaTT.LockedSection
