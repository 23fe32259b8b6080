import LuaTT.Library.Monitor
import LuaTT.Library.Transition
import LuaTT.Thread.DataMessage

/-! Channels: `Lua_Send_Data`, `Lua_Get_Data`, `Lua_Get_All_Data`, `Lua_Peek_Data`, `Lua_Peek_All_Data`,
`Lua_Demand_Data` and `Lua_Get_All_Channels`. Each holds `m_locker` from the check of its arguments to
its end and is one step; only `Lua_Demand_Data` lets go of it, while it waits for `m_newMessage`. -/
namespace LuaTT.Channel
open Lua DataMessage Sync Transition
set_option autoImplicit false

/-! ## `m_messages` -/

/-- Each channel with its messages, front first. -/
abbrev ChannelMap := Std.TreeMap Bytes (List LuaDataMessage)

namespace ChannelMap

/-- `LuaThread::getChannel`: adds the channel if there is none of that name. -/
def getChannel (messages : ChannelMap) (msg : Bytes) : ChannelMap :=
  if messages.contains msg then messages else messages.insert msg []

def queue (messages : ChannelMap) (channel : Bytes) : List LuaDataMessage := messages.getD channel []

def setQueue (messages : ChannelMap) (channel : Bytes) (q : List LuaDataMessage) : ChannelMap :=
  messages.insert channel q

@[simp] theorem queue_setQueue_self (messages : ChannelMap) (channel : Bytes) (q : List LuaDataMessage) :
    (messages.setQueue channel q).queue channel = q := by
  simp [queue, setQueue]

theorem queue_setQueue_ne (messages : ChannelMap) {channel c : Bytes} (q : List LuaDataMessage)
    (h : channel ≠ c) : (messages.setQueue channel q).queue c = messages.queue c := by
  simp [queue, setQueue, Std.TreeMap.getD_insert, h]

@[simp] theorem queue_getChannel (messages : ChannelMap) (msg c : Bytes) :
    (messages.getChannel msg).queue c = messages.queue c := by
  unfold getChannel
  split_ifs with h
  · rfl
  · rw [← setQueue]
    by_cases hc : msg = c
    · subst hc
      rw [queue_setQueue_self, queue, Std.TreeMap.getD_eq_fallback]
      simpa using h
    · exact queue_setQueue_ne messages [] hc

end ChannelMap

/-! ## What the functions return -/

/-- The values a call leaves to its caller. The arrays that these functions build have the keys `k`
of type `int`, which a `lua_Number` holds exactly. -/
inductive Returned
  | nothing
  | value (v : LuaTree)
  | array (t : List (ℕ × LuaTree))

/-- `lua_settable` with an integer key, on a new table. -/
def setindex (k : ℕ) (v : LuaTree) : List (ℕ × LuaTree) → List (ℕ × LuaTree)
  | [] => [(k, v)]
  | (k', v') :: t => if k' = k then (k', v) :: t else (k', v') :: setindex k v t

/-- `lua_pushboolean`. -/
def pushboolean (b : Bool) : Returned := .value (.leaf (.boolean b))

/-- A call: the messages it pushes and pops, and how it ends, `none` while it waits. -/
structure Report where
  sent : List LuaDataMessage
  removed : List LuaDataMessage
  result : Option (Except LuaError Returned)

/-- A section under the lock, with the channels after it. -/
structure Outcome where
  messages : ChannelMap
  sent : List LuaDataMessage
  removed : List LuaDataMessage
  result : Except LuaError Returned

def Outcome.report (o : Outcome) : Report := ⟨o.sent, o.removed, some o.result⟩

/-! ## The sections under the lock -/

section Sections
variable (messages : ChannelMap) (channel : Bytes)

/-- `Lua_Send_Data`, with what `convertData` made of the value. -/
def sendSection : Option LuaDataMessage → Outcome
  | some data =>
    let messages := messages.getChannel channel
    ⟨messages.setQueue channel (messages.queue channel ++ [data]), [data], [], .ok (pushboolean true)⟩
  | none => ⟨messages, [], [], .ok (pushboolean false)⟩

/-- The front message is handed out and popped; `Lua_Get_Data` and `Lua_Demand_Data` end with it. -/
def popFront : Outcome :=
  match messages.queue channel with
  | [] => ⟨messages, [], [], .ok .nothing⟩
  | data :: q =>
    match returnDataLua data with
    | .ok v => ⟨messages.setQueue channel q, [], [data], .ok (.value v)⟩
    | .error e => ⟨messages, [], [], .error e⟩

/-- `Lua_Get_Data`. -/
def getSection : Outcome := popFront (messages.getChannel channel) channel

/-- The loop of `Lua_Get_All_Data`: what is left of the queue, what was popped, and the table. -/
def getAllLoop (k : ℕ) (t : List (ℕ × LuaTree)) : List LuaDataMessage →
    List LuaDataMessage × List LuaDataMessage × Except LuaError (List (ℕ × LuaTree))
  | [] => ([], [], .ok t)
  | data :: q =>
    match returnDataLua data with
    | .error e => (data :: q, [], .error e)
    | .ok v =>
      let (rest, removed, result) := getAllLoop (k + 1) (setindex k v t) q
      (rest, data :: removed, result)

/-- `Lua_Get_All_Data`. -/
def getAllSection : Outcome :=
  let messages := messages.getChannel channel
  let (rest, removed, result) := getAllLoop 1 [] (messages.queue channel)
  ⟨messages.setQueue channel rest, [], removed, result.map .array⟩

/-- `Lua_Peek_Data`. -/
def peekSection : Outcome :=
  let messages := messages.getChannel channel
  match messages.queue channel with
  | [] => ⟨messages, [], [], .ok .nothing⟩
  | data :: _ => ⟨messages, [], [], (returnDataLua data).map .value⟩

/-- The loop of `Lua_Peek_All_Data`, over a copy of the queue. -/
def peekAllLoop (k : ℕ) (t : List (ℕ × LuaTree)) : List LuaDataMessage →
    Except LuaError (List (ℕ × LuaTree))
  | [] => .ok t
  | data :: container =>
    match returnDataLua data with
    | .error e => .error e
    | .ok v => peekAllLoop (k + 1) (setindex k v t) container

/-- `Lua_Peek_All_Data`. -/
def peekAllSection : Outcome :=
  let messages := messages.getChannel channel
  ⟨messages, [], [], (peekAllLoop 1 [] (messages.queue channel)).map .array⟩

/-- The loop of `Lua_Get_All_Channels`. -/
def listChannels (k : ℕ) (t : List (ℕ × LuaTree)) : List Bytes → List (ℕ × LuaTree)
  | [] => t
  | c :: cs => listChannels (k + 1) (setindex k (.leaf (.string (cstring c))) t) cs

/-- `Lua_Get_All_Channels`. -/
def getAllChannelsSection : Outcome :=
  ⟨messages, [], [], .ok (.array (listChannels 1 [] messages.keys))⟩

end Sections

/-! ## The threads -/

variable {τ : Type} [DecidableEq τ]

structure State (τ : Type) where
  messages : ChannelMap
  /-- `m_locker` with `m_newMessage`. -/
  locker : Monitor τ
  /-- The channel a thread waits for, inside `Lua_Demand_Data`. -/
  demanding : τ → Option Bytes

/-- Calls with the arguments on the stack of the caller; `Send_Data` also reads the tables of its state
and allocates messages. -/
inductive Act (τ : Type)
  | sendData (t : τ) (heap : Heap) (args : List LuaValue) (addr : ℕ → ℕ) (fuel next : ℕ)
  | getData (t : τ) (args : List LuaValue)
  | getAllData (t : τ) (args : List LuaValue)
  | peekData (t : τ) (args : List LuaValue)
  | peekAllData (t : τ) (args : List LuaValue)
  | demandData (t : τ) (args : List LuaValue)
  | getAllChannels (t : τ)
  /-- The wait of `Demand_Data` ends: the thread has `m_locker` again. -/
  | demandWake (t : τ)
  /-- A condition variable may wake a thread without a notification. -/
  | spuriousWake (t : τ)

/-- `luaL_checkstring(L, 1)` as a `std::string`. -/
def channelArg (args : List LuaValue) : Option Bytes := (index2adr args 1).bind LuaValue.tostring

namespace State

def queue (s : State τ) (channel : Bytes) : List LuaDataMessage := s.messages.queue channel

/-- The channel a step is about. -/
def channelOf (s : State τ) : Act τ → Option Bytes
  | .sendData _ _ args _ _ _ => channelArg args
  | .getData _ args => channelArg args
  | .getAllData _ args => channelArg args
  | .peekData _ args => channelArg args
  | .peekAllData _ args => channelArg args
  | .demandData _ args => channelArg args
  | .demandWake t => s.demanding t
  | .getAllChannels _ => none
  | .spuriousWake _ => none

section Step
variable (unwinds : Bool)

/-- The end of a section: the destructor of the guard unlocks, which it does after a Lua error only if
the error unwinds the C++ frames it passes. -/
def leave (s : State τ) (t : τ) (o : Outcome) : Option (State τ × Report) :=
  let locker := if o.result.isOk || unwinds then s.locker.unlock t else some s.locker
  locker.map fun locker => ({ s with messages := o.messages, locker := locker }, o.report)

/-- How these functions begin: the arguments are checked before the lock is taken. -/
def enter (s : State τ) (t : τ) (needed : ℕ) (args : List LuaValue)
    (body : Bytes → State τ → Option (State τ × Report)) : Option (State τ × Report) :=
  if s.demanding t ≠ none then none
  else if args.length < needed then some (s, ⟨[], [], some (.ok .nothing)⟩)
  else
    match channelArg args with
    | none => some (s, ⟨[], [], some (.error (.stringExpected 1))⟩)
    | some channel => (s.locker.lock t).bind fun locker => body channel { s with locker := locker }

/-- The loop of `Lua_Demand_Data` from its test on. -/
def demandLoop (s : State τ) (t : τ) (channel : Bytes) : Option (State τ × Report) :=
  if s.queue channel = [] then
    (s.locker.wait t).map fun locker =>
      ({ s with locker := locker, demanding := Function.update s.demanding t (some channel) },
        ⟨[], [], none⟩)
  else
    { s with demanding := Function.update s.demanding t none }.leave unwinds t
      (popFront s.messages channel)

/-- One step, with what the call pushes, pops and returns. A conversion that faults has no next state. -/
def perform (s : State τ) : Act τ → Option (State τ × Report)
  | .sendData t heap args addr fuel next => s.enter t 2 args fun channel s =>
    match convertData heap addr fuel next args 2 false with
    | .error _ => none
    | .ok (_, data) =>
      let locker := if data.isSome then s.locker.notifyAll else s.locker
      { s with locker := locker }.leave unwinds t (sendSection s.messages channel (data.map Prod.snd))
  | .getData t args => s.enter t 1 args fun channel s =>
    s.leave unwinds t (getSection s.messages channel)
  | .getAllData t args => s.enter t 1 args fun channel s =>
    s.leave unwinds t (getAllSection s.messages channel)
  | .peekData t args => s.enter t 1 args fun channel s =>
    s.leave unwinds t (peekSection s.messages channel)
  | .peekAllData t args => s.enter t 1 args fun channel s =>
    s.leave unwinds t (peekAllSection s.messages channel)
  | .demandData t args => s.enter t 1 args fun channel s =>
    { s with messages := s.messages.getChannel channel }.demandLoop unwinds t channel
  | .getAllChannels t =>
    if s.demanding t ≠ none then none
    else (s.locker.lock t).bind fun locker =>
      { s with locker := locker }.leave unwinds t (getAllChannelsSection s.messages)
  | .demandWake t => (s.demanding t).bind fun channel => (s.locker.reacquire t).bind fun locker =>
    { s with locker := locker }.demandLoop unwinds t channel
  | .spuriousWake t => (s.locker.wakeOne t).map fun locker => ({ s with locker := locker }, ⟨[], [], none⟩)

end Step

end State

def initial : State τ := ⟨∅, .idle, fun _ => none⟩

/-- Any number of threads, in any order. -/
def system (unwinds : Bool) : System (State τ) (Act τ) :=
  ⟨fun s => s = initial, fun s a => (s.perform unwinds a).map Prod.fst⟩

/-! ## Histories -/

/-- The messages a step sends on the channel. -/
def State.sentBy (unwinds : Bool) (c : Bytes) (s : State τ) (a : Act τ) : List LuaDataMessage :=
  if s.channelOf a = some c then ((s.perform unwinds a).map fun r => r.2.sent).getD [] else []

/-- The messages a step removes from the channel. -/
def State.removedBy (unwinds : Bool) (c : Bytes) (s : State τ) (a : Act τ) : List LuaDataMessage :=
  if s.channelOf a = some c then ((s.perform unwinds a).map fun r => r.2.removed).getD [] else []

/-- All messages sent on the channel, the first one first. -/
def sent (unwinds : Bool) (c : Bytes) : List (State τ × Act τ) → List LuaDataMessage
  | [] => []
  | (s, a) :: h => sent unwinds c h ++ s.sentBy unwinds c a

/-- All messages removed from the channel, in the order of removal. -/
def removed (unwinds : Bool) (c : Bytes) : List (State τ × Act τ) → List LuaDataMessage
  | [] => []
  | (s, a) :: h => removed unwinds c h ++ s.removedBy unwinds c a

end LuaTT.Channel
