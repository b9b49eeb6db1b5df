import Mathlib.Data.Rat.Defs
import Mathlib.Logic.Function.Basic
import SdyServer.Daboluo.Room
import SdyServer.Lib.Run

/-!
# Who is in the room

The service of a room keeps every user as an object, and refers to the objects from three tables:
the connections, the users and the seats. The tables are not keyed alike. A connection is found
under its socket, a user under his number, and a seat holds the id of its user as it was when he sat
down. The id of an object is a number while its user plays and the text of it once he has left, and
the hall sends an id and a new object with every login.

A loop that makes several users leave waits for the hall after each of them, so that every turn of
it is an event of its own.
-/

namespace SdyServer.Daboluo

inductive Id where
  | number (n : Nat)
  | text (n : Nat)
deriving DecidableEq, Repr

def Id.tonumber : Id → Id
  | .number n => .number n
  | .text n => .number n

def Id.tostring : Id → Id
  | .number n => .text n
  | .text n => .text n

@[simp]
theorem Id.tonumber_tonumber (id : Id) : id.tonumber.tonumber = id.tonumber := by
  cases id <;> rfl

@[simp]
theorem Id.tonumber_tostring (id : Id) : id.tostring.tonumber = id.tonumber := by
  cases id <;> rfl

abbrev Fd := Int

abbrev Ref := Nat

structure Member where
  id : Id
  fd : Option Fd := none
  seat : Option ℚ := none
  isRobot : Bool := false
  offline : Bool := false
  agreeQuit : Bool := false
deriving DecidableEq, Repr

/-- How a vote on leaving the room ends: the room is closed, or the votes are cleared. The flag says
whether every seated user had agreed, or has no vote any more. -/
inductive VoteEnd where
  | closed (agreed : Bool)
  | cleared (all : Bool)
deriving DecidableEq, Repr

/-- The fields of `g` that tell who is in the room. `cards` are the ids that were dealt a hand,
`fresh` is the next object, and `votes` records how the votes ended. -/
structure Agent where
  minCount : Nat
  isPrivate : Bool
  member : Ref → Member := fun _ => { id := .number 0 }
  fresh : Ref := 0
  conns : LuaTable Fd Ref := ∅
  users : LuaTable Id Ref := ∅
  seat : LuaTable ℚ Id := ∅
  cards : List Id := []
  realUser : Int := 0
  robotUser : Int := 0
  gameStep : Step := .none
  round : Nat := 0
  askQuitTime : Nat := 0
  votes : List VoteEnd := []

namespace Agent

def modify (agent : Agent) (ref : Ref) (f : Member → Member) : Agent :=
  { agent with member := Function.update agent.member ref (f (agent.member ref)) }

section Seats

def someoneSit (agent : Agent) (seat : ℚ) (ref : Ref) : Agent :=
  { agent with seat := agent.seat.set seat (agent.member ref).id }.modify ref
    fun user => { user with seat := some seat }

def someoneStand (agent : Agent) (ref : Ref) : Agent :=
  match (agent.member ref).seat with
  | none => agent
  | some seat =>
      { agent with seat := agent.seat.erase seat }.modify ref fun user => { user with seat := none }

def tryStand (agent : Agent) (ref : Ref) : Agent :=
  if agent.gameStep ≠ .none ∧ agent.gameStep ≠ .over ∧
    (agent.member ref).id ∈ agent.cards then agent
  else agent.someoneStand ref

/-- `cmd.sit`. The number is the client's. -/
def sit (agent : Agent) (ref : Ref) (seatid : ℚ) : Agent :=
  if seatid ≤ 0 ∨ seatid > agent.minCount then agent
  else if (agent.seat.get seatid).isSome then agent
  else agent.someoneSit seatid ref

/-- The seats from 1 to `min_count`. -/
def seatids (agent : Agent) : List ℚ := (List.range agent.minCount).map fun (i : Nat) => (i : ℚ) + 1

/-- `logic.login` up to its last loop: back to the own seat, or to the first free one. -/
def takeSeat (agent : Agent) (ref : Ref) : Agent :=
  if agent.seatids.any fun seat => agent.seat.get seat = some (agent.member ref).id then agent
  else match agent.seatids.find? fun seat => (agent.seat.get seat).isNone with
    | some seat => agent.someoneSit seat ref
    | none => agent

/-- Whether the last loop of `logic.login` gets past a seat. -/
def showsSeat (agent : Agent) (entry : ℚ × Id) : Bool :=
  match agent.users.get entry.2 with
  | some ref => (agent.member ref).seat.isSome
  | none => false

end Seats

section Coming

/-- The first part of `logic.post_leave`: a seated user stays, marked offline, while a game runs. -/
def clearUser (agent : Agent) (ref : Ref) : Agent :=
  if agent.gameStep ≠ .none ∧ (agent.member ref).seat ≠ none then
    agent.modify ref fun user => { user with offline := true }
  else
    ({ agent with users := agent.users.erase (agent.member ref).id.tonumber }.modify ref
      fun user => { user with id := user.id.tonumber }).someoneStand ref

def leaveAgent (agent : Agent) (ref : Ref) : Agent :=
  if (agent.member ref).isRobot then { agent with robotUser := agent.robotUser - 1 }
  else { agent with realUser := agent.realUser - 1 }.modify ref
    fun user => { user with id := user.id.tostring }

def clearConn (agent : Agent) (ref : Ref) : Agent :=
  match (agent.member ref).fd with
  | none => agent
  | some fd =>
      { agent with conns := agent.conns.erase fd }.modify ref fun user => { user with fd := none }

def postLeave (agent : Agent) (ref : Ref) : Agent :=
  ((agent.clearUser ref).leaveAgent ref).clearConn ref

/-- The object that `cmd.login` works on: the one the id finds, or the one the hall has sent. -/
def enter (agent : Agent) (id userId : Id) : Agent × Ref :=
  match agent.users.get id with
  | some ref => (agent, ref)
  | none =>
      ({ agent with fresh := agent.fresh + 1 }.modify agent.fresh fun _ => { id := userId },
        agent.fresh)

/-- `_login` up to `logic.login`. -/
def register (agent : Agent) (fd : Fd) (ref : Ref) : Agent :=
  { agent with
    conns := agent.conns.set fd ref
    users := agent.users.set (agent.member ref).id ref }

/-- `cmd.login`. `id` is the id the hall has for the user, and `userId` the one in the object it
sends, made a number by `CMD.start`. A login whose last loop raises is not counted. -/
def login (agent : Agent) (fd : Fd) (id : Id) (n : Nat) : Agent :=
  let (agent, ref) := agent.enter id (.number n)
  let agent := agent.modify ref fun user => { user with fd := some fd, offline := false }
  let agent := (agent.register fd ref).takeSeat ref
  if agent.seat.entries.all agent.showsSeat then { agent with realUser := agent.realUser + 1 }
  else agent

/-- `logic.add_robot`, with the robot it has drawn. -/
def addRobot (agent : Agent) (n : Nat) : Agent :=
  let ref := agent.fresh
  let agent := { agent with fresh := agent.fresh + 1, robotUser := agent.robotUser + 1 }.modify ref
    fun _ => { id := .number n, fd := some (-n), isRobot := true }
  (agent.register (-n) ref).takeSeat ref

def disconnect (agent : Agent) (fd : Fd) : Agent :=
  let user := agent.conns.get fd
  let agent := { agent with
    conns := agent.conns.erase fd
    realUser := max (agent.realUser - 1) 0 }
  match user with
  | none => agent
  | some ref =>
      if (agent.member ref).seat ≠ none ∧ (agent.isPrivate = true ∨ agent.gameStep ≠ .none) then
        agent.modify ref fun user => { user with offline := true }
      else agent.postLeave ref

/-- `cmd.kick_member`, or one turn of a loop that makes users leave. -/
def leave (agent : Agent) (id : Id) : Agent :=
  match agent.users.get id with
  | none => agent
  | some ref => agent.postLeave ref

/-- `game_over` up to its loops over the users. -/
def gameOver (agent : Agent) : Agent := { agent with gameStep := .none, cards := [] }

end Coming

section Votes

/-- `ipairs(g.seat)`: the seats from 1 up to the first free one. -/
def seatRow (agent : Agent) : List Id :=
  (((List.range agent.seat.size).map fun (i : Nat) => agent.seat.get ((i : ℚ) + 1)).takeWhile
    Option.isSome).reduceOption

/-- Whether every seat holds a user of whom `p` is true. -/
def allSeated (agent : Agent) (p : Member → Bool) : Bool :=
  agent.seat.entries.all fun entry => (agent.users.get entry.2).any fun ref => p (agent.member ref)

/-- `room_logic.game_over(true)` called by a vote, up to its loop over the users. -/
def dissolve (agent : Agent) : Agent :=
  { agent with
    askQuitTime := 0, gameStep := .none
    votes := agent.votes ++ [.closed (agent.allSeated Member.agreeQuit)] }

/-- Whether the loops over the row find a seat without a user and raise. -/
def rowRaises (agent : Agent) : Bool := agent.seatRow.any fun id => (agent.users.get id).isNone

def clearVotes (agent : Agent) : Agent :=
  let seated := agent.seatRow.takeWhile fun id => (agent.users.get id).isSome
  let agent := { agent with
    askQuitTime := 0
    member := fun ref => { agent.member ref with
      agreeQuit := (agent.member ref).agreeQuit &&
        !(seated.any fun id => agent.users.get id = some ref) } }
  { agent with votes := agent.votes ++ [.cleared (agent.allSeated fun user => !user.agreeQuit)] }

def agreeQuit (agent : Agent) (ref : Ref) (status : Bool) : Agent :=
  if agent.askQuitTime = 0 then agent
  else if status then
    let agent := agent.modify ref fun user => { user with agreeQuit := true }
    let users := (agent.seatRow.filterMap agent.users.get).map agent.member
    if agent.rowRaises then agent
    else if users.countP Member.agreeQuit ≥ users.length then agent.dissolve
    else agent
  else agent.clearVotes

/-- `Config.ask_quit_time`. -/
def askTime : Nat := 60

/-- The loop of `cmd.quit_room`: the user who wants to leave and the robots agree. -/
def askQuit (agent : Agent) (ref : Ref) : List (Id × Ref) → Agent
  | [] => agent.modify ref fun user => { user with agreeQuit := true }
  | (_, other) :: rest =>
      if (agent.member other).isRobot ∨ (agent.member ref).id = (agent.member other).id then
        let agent := agent.agreeQuit other true
        if agent.askQuitTime ≠ 0 ∧ agent.rowRaises = true then agent else agent.askQuit ref rest
      else agent.askQuit ref rest

/-- `cmd.quit_room`: in a private room whose game has begun a seated user calls a vote. -/
def quitRoom (agent : Agent) (ref : Ref) : Agent :=
  if agent.isPrivate then
    if agent.askQuitTime > 0 then agent
    else if (agent.gameStep ≠ .none ∨ agent.round > 0) ∧ (agent.member ref).seat ≠ none then
      { agent with askQuitTime := askTime }.askQuit ref agent.users.entries
    else agent.postLeave ref
  else if agent.gameStep = .dealCard ∧ (agent.member ref).seat ≠ none then agent
  else agent.postLeave ref

/-- The vote in `room_logic.run`. -/
def tick (agent : Agent) : Agent :=
  if agent.askQuitTime = 0 then agent
  else if agent.askQuitTime = 1 then
    if agent.rowRaises then agent.clearVotes else { agent.clearVotes with gameStep := .none }
  else { agent with askQuitTime := agent.askQuitTime - 1 }

end Votes

/-- `advance` is the step machine: it deals hands and goes from step to step. -/
inductive Event where
  | login (fd : Fd) (id : Id) (n : Nat)
  | addRobot (n : Nat)
  | sit (fd : Fd) (seatid : ℚ)
  | tryStand (fd : Fd)
  | stand (fd : Fd)
  | disconnect (fd : Fd)
  | quitRoom (fd : Fd)
  | agreeQuit (fd : Fd) (status : Bool)
  | leave (id : Id)
  | gameOver
  | advance (gameStep : Step) (round : Nat) (cards : List Id)
  | tick
deriving DecidableEq, Repr

def ofConn (agent : Agent) (fd : Fd) (handler : Ref → Agent) : Agent :=
  match agent.conns.get fd with
  | some ref => handler ref
  | none => agent

def step (agent : Agent) : Event → Agent
  | .login fd id n => agent.login fd id n
  | .addRobot n => agent.addRobot n
  | .sit fd seatid => agent.ofConn fd fun ref => agent.sit ref seatid
  | .tryStand fd => agent.ofConn fd agent.tryStand
  | .stand fd => agent.ofConn fd agent.someoneStand
  | .disconnect fd => agent.disconnect fd
  | .quitRoom fd => agent.ofConn fd agent.quitRoom
  | .agreeQuit fd status => agent.ofConn fd fun ref => agent.agreeQuit ref status
  | .leave id => agent.leave id
  | .gameOver => agent.gameOver
  | .advance gameStep round cards => { agent with gameStep, round, cards }
  | .tick => agent.tick

end Agent

end SdyServer.Daboluo
