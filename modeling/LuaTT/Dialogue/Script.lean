import LuaTT.Library.Transition
import LuaTT.Dialogue.Conversation

/-! `AI_Dialogue_Script`: the flags, the timers and the event handlers with which a soldier comments on what
happens to it. The soldier is part of the state as far as the script asks the engine about it; the
definitions of its dialogues, the conversations and the random numbers are those of the engine. -/
namespace LuaTT.Dialogue
open Lua Transition
set_option autoImplicit false

inductive DialogueType
  | takeDamageFromFriend
  | takeDamageFromEnemy
  | damageFriend
  | damageEnemy
  | killedFriend
  | killedEnemy
  | sawFriend
  | sawEnemy
  | obsolete01
  | obsolete02
  | die
  | pokeIdle
  | pokeSearch
  | pokeCombat
  | idleToCombat
  | idleToSearch
  | searchToCombat
  | searchToIdle
  | combatToSearch
  | combatToIdle
  | dialogueTypeNone
  deriving DecidableEq

inductive SoldierAIState
  | idle
  | search
  | combat
  | other (n : ℕ)
  deriving DecidableEq

/-! ## `AIDialogueCustom` -/

def customEventDamagedEnemy : ℤ := 53548

def customEventDamagedFriend : ℤ := 53549

def customEventKilledEnemy : ℤ := 53550

def customEventKilledFriend : ℤ := 53551

/-! ## The soldier and its script -/

/-- A started timer of the script, with the time from which it is to be delivered. -/
structure Timer where
  number : ℤ
  due : ℚ
  deriving DecidableEq

/-- A conversation that has been started. -/
structure Speech where
  type : DialogueType
  sound : Bytes
  time : ℚ

/-- Another object, as the soldier sees it. -/
structure Other where
  id : ℤ
  isEnemy : Bool

/-- A soldier of `StarGameObjList`, as this one sees it; `hidden` where it has a model that is. -/
structure Star where
  humanControlled : Bool
  isEnemy : Bool
  visible : Bool
  hidden : Bool

structure State where
  acting : Bool
  lastState : SoldierAIState
  sawEnemy : Bool
  sawFriend : Bool
  enemyKilled : Bool
  /-- `Is_A_Star`: it belongs to a player. -/
  star : Bool
  hibernating : Bool
  dead : Bool
  aiState : SoldierAIState
  timers : List Timer
  now : ℚ
  spoken : List Speech
  /-- The custom events for others, with their receivers, latest first. -/
  sent : List (ℤ × ℤ)

/-- What the engine knows: the dialogues of the soldier and the conversations. -/
structure Definitions where
  dialogue : DialogueType → DialogueClass
  findConversation : ℤ → Option Bytes

namespace State

/-- `Commands->Start_Timer`. -/
def startTimer (s : State) (duration : ℚ) (number : ℤ) : State :=
  { s with timers := s.timers ++ [⟨number, s.now + duration⟩] }

/-- `Commands->Send_Custom_Event`; what is sent to the soldier itself comes back as an event. -/
def sendCustomEvent (s : State) (receiver type : ℤ) : State :=
  { s with sent := (receiver, type) :: s.sent }

/-- The timers with this number that are to be delivered. -/
def pending (s : State) (number : ℤ) : ℕ := s.timers.countP (·.number = number)

section Handlers
variable (d : Definitions) (getRandom : DialogueType → ℚ → ℚ → ℚ)

/-- `Act` sets the flags of a sight before it knows whether there is something to say. -/
def act (type : DialogueType) (s : State) : State :=
  if s.hibernating || type = .dialogueTypeNone || s.acting || s.star then s
  else if s.dead && type ≠ .die then s
  else
    let s := match type with
      | .sawFriend => { s with sawFriend := true }.startTimer 3 4
      | .sawEnemy => { s with sawEnemy := true }.startTimer 3 3
      | _ => s
    match (d.dialogue type).getRandomConversation d.findConversation (getRandom type) with
    | none => s
    | some name =>
      { s with acting := true, spoken := ⟨type, name ++ bytes ".wav", s.now⟩ :: s.spoken }.startTimer 2 2

/-- The AI states between which a soldier has something to say. -/
def changeType : SoldierAIState → SoldierAIState → DialogueType
  | .idle, .combat => .idleToCombat
  | .idle, .search => .idleToSearch
  | .search, .combat => .searchToCombat
  | .search, .idle => .searchToIdle
  | .combat, .search => .combatToSearch
  | .combat, .idle => .combatToIdle
  | _, _ => .dialogueTypeNone

def stateChanged (before after : SoldierAIState) (s : State) : State :=
  if before ≠ after then
    let s := { s with lastState := after }
    if s.hibernating then s else s.act d getRandom (changeType before after)
  else s

def damaged (damager : Option Other) (amount hitpoints : Float32) (s : State) : State :=
  match damager with
  | none => s
  | some damager =>
    if s.hibernating || amount ≤ 0 || hitpoints ≤ amount then s
    else if damager.isEnemy then
      (s.act d getRandom .takeDamageFromEnemy).sendCustomEvent damager.id customEventDamagedEnemy
    else (s.act d getRandom .takeDamageFromFriend).sendCustomEvent damager.id customEventDamagedFriend

def killed (killer : Option Other) (s : State) : State :=
  match killer with
  | none => s
  | some killer =>
    if s.hibernating then s
    else
      let s := s.sendCustomEvent killer.id
        (if killer.isEnemy then customEventKilledEnemy else customEventKilledFriend)
      State.act d getRandom .die { s with acting := false }

def poked (s : State) : State :=
  if s.hibernating then s
  else
    match s.lastState with
    | .idle => s.act d getRandom .pokeIdle
    | .search => s.act d getRandom .pokeSearch
    | .combat => s.act d getRandom .pokeCombat
    | .other _ => s

/-- The loop over `StarGameObjList`, up to the first friend in sight. -/
def lookForFriends (s : State) : List (Option Star) → State
  | [] => s
  | none :: stars => lookForFriends s stars
  | some star :: stars =>
    if star.humanControlled && !star.isEnemy && star.visible then
      if star.hidden then lookForFriends s stars else s.act d getRandom .sawFriend
    else lookForFriends s stars

def timerExpired (number : ℤ) (stars : List (Option Star)) (s : State) : State :=
  if number = 1 then
    let s := s.stateChanged d getRandom s.lastState s.aiState
    let s := if !s.hibernating && !s.sawFriend then s.lookForFriends d getRandom stars else s
    s.startTimer 2 1
  else if number = 2 then
    let s := { s with acting := false }
    if s.enemyKilled then { s.act d getRandom .killedEnemy with enemyKilled := false } else s
  else if number = 3 then { s with sawEnemy := false }
  else if number = 4 then { s with sawFriend := false }
  else s

def custom (type : ℤ) (s : State) : State :=
  if type = customEventDamagedEnemy then s.act d getRandom .damageEnemy
  else if type = customEventDamagedFriend then s.act d getRandom .damageFriend
  else if type = customEventKilledEnemy then
    if !s.acting then s.act d getRandom .killedEnemy else { s with enemyKilled := true }
  else if type = customEventKilledFriend then s.act d getRandom .killedFriend
  else s

def enemySeen (s : State) : State :=
  if !s.hibernating && !s.sawEnemy then s.act d getRandom .sawEnemy else s

end Handlers
end State

/-! ## Events -/

inductive Event
  | damaged (damager : Option Other) (amount hitpoints : Float32)
  | killed (killer : Option Other)
  | poked
  /-- The timer at position `i` of the pending ones is delivered. -/
  | timerExpired (i : ℕ) (stars : List (Option Star))
  | custom (type : ℤ)
  | enemySeen
  | setAIState (aiState : SoldierAIState)
  | setHibernating (b : Bool)
  | setDead (b : Bool)
  | wait (t : ℚ)

/-- An event, with the random numbers that are drawn on it. -/
structure Act where
  event : Event
  getRandom : DialogueType → ℚ → ℚ → ℚ

namespace State

def step (d : Definitions) (s : State) (a : Act) : Option State :=
  match a.event with
  | .damaged damager amount hitpoints => some (s.damaged d a.getRandom damager amount hitpoints)
  | .killed killer => some (s.killed d a.getRandom killer)
  | .poked => some (s.poked d a.getRandom)
  | .timerExpired i stars => s.timers[i]?.map fun t =>
    { s with timers := s.timers.eraseIdx i }.timerExpired d a.getRandom t.number stars
  | .custom type => some (s.custom d a.getRandom type)
  | .enemySeen => some (s.enemySeen d a.getRandom)
  | .setAIState aiState => some { s with aiState := aiState }
  | .setHibernating b => some { s with hibernating := b }
  | .setDead b => some { s with dead := b }
  | .wait t => if 0 ≤ t then some { s with now := s.now + t } else none

end State

/-- `Created`; on what is no soldier the script destroys itself. -/
def created (soldier star hibernating dead : Bool) (aiState : SoldierAIState) (now : ℚ) : Option State :=
  if soldier then
    let s : State := ⟨false, aiState, false, false, false, star, hibernating, dead, aiState, [], now, [], []⟩
    some (if star then s else s.startTimer 1 1)
  else none

/-- A script on a soldier that belongs to no player, from `Created` on. -/
def system (d : Definitions) : System State Act where
  init s := ∃ hibernating dead aiState now, created true false hibernating dead aiState now = some s
  step := State.step d

end LuaTT.Dialogue
