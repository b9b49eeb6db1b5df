import Mathlib.Logic.Function.Basic
import SdyServer.Lib.Run

/-!
# The timer

Every service asks one timer to wake it up. The timer keeps what is due soon in `near`, one list for
each of the next ticks, and everything else in four coarser tables whose lists it deals out again
when their time comes. The time has 32 bits. Services ask at any time, also while the timer's thread
hands out the messages of a tick.
-/

namespace SdyServer.SkynetTimer

abbrev timeNearShift : Nat := 8
abbrev timeNear : Nat := 1 <<< timeNearShift
abbrev timeLevelShift : Nat := 6
abbrev timeLevel : Nat := 1 <<< timeLevelShift
abbrev timeNearMask : Nat := timeNear - 1
abbrev timeLevelMask : Nat := timeLevel - 1

/-- What there is of `uint32_t`. -/
abbrev word : Nat := 0x100000000

structure TimerEvent where
  handle : UInt32
  session : Int32
deriving DecidableEq, Repr

structure TimerNode where
  expire : Nat
  event : TimerEvent
deriving DecidableEq, Repr

/-- An element of `near` or of `t`. -/
inductive Slot where
  | near (idx : Nat)
  | t (level idx : Nat)
deriving DecidableEq, Repr

structure Timer where
  lists : Slot → List TimerNode := fun _ => []
  time : Nat := 0

/-- The level of `add_node`, which tries three. -/
def levelOf (time currentTime : Nat) : Nat → Nat → Nat → Nat
  | 0, i, _ => i
  | n + 1, i, mask =>
      if time ||| (mask - 1) = currentTime ||| (mask - 1) then i
      else levelOf time currentTime n (i + 1) (mask <<< timeLevelShift)

/-- Where `add_node` links a node. -/
def slotOf (time currentTime : Nat) : Slot :=
  if time ||| timeNearMask = currentTime ||| timeNearMask then .near (time &&& timeNearMask)
  else
    let i := levelOf time currentTime 3 0 (timeNear <<< timeLevelShift)
    .t i ((time >>> (timeNearShift + i * timeLevelShift)) &&& timeLevelMask)

namespace Timer

section Model

def addNode (T : Timer) (node : TimerNode) : Timer :=
  let slot := slotOf node.expire T.time
  { T with lists := Function.update T.lists slot (T.lists slot ++ [node]) }

def timerAdd (T : Timer) (event : TimerEvent) (time : Int32) : Timer :=
  T.addNode { expire := ((time.toInt + T.time) % word).toNat, event }

def linkClear (T : Timer) (slot : Slot) : Timer :=
  { T with lists := Function.update T.lists slot [] }

def moveList (T : Timer) (level idx : Nat) : Timer :=
  (T.lists (.t level idx)).foldl addNode (T.linkClear (.t level idx))

/-- The loop of `timer_shift`: a list is dealt out when all finer ones have come round. -/
def shiftLoop (T : Timer) (ct : Nat) : Nat → Nat → Nat → Nat → Timer
  | 0, _, _, _ => T
  | n + 1, mask, time, i =>
      if ct &&& (mask - 1) = 0 then
        if time &&& timeLevelMask ≠ 0 then T.moveList i (time &&& timeLevelMask)
        else shiftLoop T ct n (mask <<< timeLevelShift) (time >>> timeLevelShift) (i + 1)
      else T

def timerShift (T : Timer) : Timer :=
  let ct := (T.time + 1) % word
  let T := { T with time := ct }
  if ct = 0 then T.moveList 3 0 else T.shiftLoop ct 4 timeNear (ct >>> timeNearShift) 0

/-- The list of the present tick. -/
def now (T : Timer) : Slot := .near (T.time &&& timeNearMask)

end Model

end Timer

/-- What the timer's thread is about while it does not hold the lock: the messages of the first or
of the second `timer_execute` of a `timer_update`, or nothing. -/
inductive Phase where
  | idle
  | first (current : List TimerNode)
  | second (current : List TimerNode)
deriving DecidableEq, Repr

/-- The timer, its clock, and how many calls of `timer_update` are still to come; how often the time
was shifted, what has been asked for with the tick at which it is due, and what has been pushed with
the tick at which it was. -/
structure Clock where
  timer : Timer := {}
  current : Nat
  currentPoint : Nat
  updates : Nat := 0
  phase : Phase := .idle
  ticks : Nat := 0
  asked : List (Nat × TimerEvent) := []
  pushed : List (Nat × TimerEvent) := []

/-- A service asks, the timer's thread looks at the clock, or goes on until it gives the lock back
or has pushed one message. -/
inductive Event where
  | timeout (handle : UInt32) (time : Int32) (session : Int32)
  | updatetime (cp : Nat)
  | turn
deriving DecidableEq, Repr

namespace Clock

section Model

def push (s : Clock) (event : TimerEvent) : Clock :=
  { s with pushed := s.pushed ++ [(s.ticks, event)] }

/-- `skynet_timeout`. -/
def timeout (s : Clock) (handle : UInt32) (time session : Int32) : Clock :=
  let event : TimerEvent := { handle, session }
  let s := { s with asked := s.asked ++ [(s.ticks + time.toInt.toNat, event)] }
  if time.toInt ≤ 0 then s.push event else { s with timer := s.timer.timerAdd event time }

/-- `skynet_updatetime`, up to its loop. -/
def updatetime (s : Clock) (cp : Nat) : Clock :=
  if cp < s.currentPoint then { s with currentPoint := cp }
  else if cp ≠ s.currentPoint then
    let diff := (cp - s.currentPoint) % word
    { s with currentPoint := cp, current := (s.current + diff) % 0x10000000000000000, updates :=
      diff }
  else s

/-- The second `timer_execute`, at the head of its loop. -/
def executeSecond (s : Clock) : Clock :=
  match s.timer.lists s.timer.now with
  | [] => { s with phase := .idle, updates := s.updates - 1 }
  | current => { s with timer := s.timer.linkClear s.timer.now, phase := .second current }

/-- The first `timer_execute`, at the head of its loop. -/
def executeFirst (s : Clock) : Clock :=
  match s.timer.lists s.timer.now with
  | [] => { s with timer := s.timer.timerShift, ticks := s.ticks + 1 }.executeSecond
  | current => { s with timer := s.timer.linkClear s.timer.now, phase := .first current }

def turn (s : Clock) : Clock :=
  match s.phase with
  | .idle => if s.updates = 0 then s else s.executeFirst
  | .first [] => s.executeFirst
  | .first (node :: current) =>
      let s := s.push node.event
      if current = [] then s.executeFirst else { s with phase := .first current }
  | .second [] => s.executeSecond
  | .second (node :: current) =>
      let s := s.push node.event
      if current = [] then s.executeSecond else { s with phase := .second current }

def step (s : Clock) : Event → Clock
  | .timeout handle time session => s.timeout handle time session
  | .updatetime cp => if s.phase = .idle ∧ s.updates = 0 then s.updatetime cp else s
  | .turn => s.turn

end Model

end Clock

/-- `skynet_timer_init`. -/
def start (current currentPoint : Nat) : Clock := { current, currentPoint }

def run (current currentPoint : Nat) (events : List Event) : Clock :=
  Run.exec Clock.step (start current currentPoint) events

end SdyServer.SkynetTimer
