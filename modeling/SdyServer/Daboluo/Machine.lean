import SdyServer.Daboluo.Auto
import SdyServer.Daboluo.Score
import SdyServer.Lib.Run

/-!
# The step machine

One call of `cmd.run` a second drives the room through dealing, comparing and settling, and client
messages arrive in between. A handler that raises is caught by its caller and leaves what it had
changed until then.
-/

namespace SdyServer.Daboluo

def autoCardTime : Nat := 60

/-- What a tick draws or is told from outside: the draw of each robot, the shuffled deck with the
special type of each hand, what scoring had added to `client_time` where it raises, and the users
who leave when the round is over. -/
structure TickInput where
  robotDraw : Uid → Nat
  deck : List Card
  checkSpecial : List Card → Option Int × Option (List Card)
  scoreTime : Nat
  leavers : List Uid

inductive Event where
  | tick (input : TickInput)
  | choicePokerType (uid : Uid) (data : ChoiceMsg)
  | happydogggySequence (uid : Uid) (hpArr : Option (List Int))
  | tryStand (uid : Uid)
  | stand (uid : Uid)
  | sit (uid : Uid) (seatid : Seat)
  | ready (uid : Uid)
  | disconnect (uid : Uid)
  | login (uid : Uid) (isRobot : Bool)

section Seats

def someoneStand (room : Room) (user : User) : Room :=
  match user.seat with
  | some seat => { room with
      seat := room.seat.erase seat
      users := room.users.set user.id { user with seat := none } }
  | none => room

def someoneSit (room : Room) (seat : Seat) (user : User) : Room :=
  { room with
    seat := room.seat.set seat user.id
    users := room.users.set user.id { user with seat := some seat }
    gameTime := if room.gameStep = .none then 0 else room.gameTime }

/-- `logic.post_leave`: a seated player stays, marked offline, while a game runs. -/
def postLeave (room : Room) (user : User) : Room :=
  let room :=
    if room.gameStep ≠ .none ∧ user.seat ≠ none then
      { room with users := room.users.set user.id { user with offline := true } }
    else
      { room with
        users := room.users.erase user.id
        seat := match user.seat with
          | some seat => room.seat.erase seat
          | none => room.seat }
  if user.isRobot then { room with robotUser := room.robotUser - 1 }
  else { room with realUser := room.realUser - 1 }

def tryStand (room : Room) (user : User) : Room :=
  if room.gameStep ≠ .none ∧ room.gameStep ≠ .over ∧
      ((room.cards.getD ∅).get user.id).isSome then room
  else someoneStand room user

def sit (room : Room) (user : User) (seatid : Seat) : Room :=
  if seatid ≤ 0 ∨ seatid > room.roomInfo.minCount then room
  else if (room.seat.get seatid).isSome then room
  else someoneSit room seatid user

def disconnect (room : Room) (user : User) : Room :=
  let room := { room with realUser := max (room.realUser - 1) 0 }
  if user.seat ≠ none ∧ (room.roomInfo.isPrivate = true ∨ room.gameStep ≠ .none) then
    { room with users := room.users.set user.id { user with offline := true } }
  else postLeave room user

/-- `logic.login`: back to the own seat, or to the first free one. -/
def takeSeat (room : Room) (user : User) : Room :=
  let seats := (List.range room.roomInfo.minCount).map fun (i : Nat) => (i : Seat) + 1
  if seats.any fun seat => room.seat.get seat = some user.id then room
  else match seats.find? fun seat => (room.seat.get seat).isNone with
    | some seat => someoneSit room seat user
    | none => room

/-- `cmd.login`, or `logic.add_robot` for a robot. -/
def login (room : Room) (uid : Uid) (isRobot : Bool) : Room :=
  let user := { (room.users.get uid).getD { id := uid, isRobot } with offline := false }
  takeSeat { room with
    users := room.users.set uid user
    realUser := if isRobot then room.realUser else room.realUser + 1
    robotUser := if isRobot then room.robotUser + 1 else room.robotUser } user

end Seats

section Steps

/-- `room_logic.check_ready` over the seats: robots are made ready on the way. The answer is `none`
where a seat's user is missing and the loop raises; it counts the users that were ready. -/
def checkReadyFrom (room : Room) : List (Seat × Uid) → Room × Option (Bool × Nat)
  | [] => (room, some (true, 0))
  | (_, uid) :: rest =>
      match room.users.get uid with
      | none => (room, none)
      | some user =>
          if user.ready then
            let (room, answer) := checkReadyFrom room rest
            (room, answer.map fun (rec', count) => (rec', count + 1))
          else if user.isRobot then
            checkReadyFrom { room with users := room.users.set uid { user with ready := true } }
              rest
          else
            let (room, answer) := checkReadyFrom room rest
            (room, answer.map fun (_, count) => (false, count))

/-- In a private room the first count overrules the flags and the second one overrules the first. -/
def checkReady (room : Room) : Room × Option Bool :=
  let (room, answer) := checkReadyFrom room room.seat.entries
  (room, answer.map fun (rec', count) =>
    if room.roomInfo.isPrivate = true ∧ count < room.roomInfo.minCount then true else rec')

/-- `logic.room_deal_card`: hands from the end of the deck, one for each seat. A deck that runs out
raises and leaves the hands dealt so far. -/
def roomDealCard (roomInfo : RoomInfo) (checkSpecial : List Card → Option Int × Option (List Card))
    (deck : List Card) (cards : LuaTable Uid Dealt) : List (Seat × Uid) → LuaTable Uid Dealt
  | [] => cards
  | (seat, uid) :: rest =>
      if uid > 0 then
        if deck.length < roomInfo.cardNum then cards
        else
          let userCard := (deck.drop (deck.length - roomInfo.cardNum)).reverse
          let (spType, spCards) := if roomInfo.cardNum = 13 then checkSpecial userCard
            else (none, none)
          roomDealCard roomInfo checkSpecial (deck.take (deck.length - roomInfo.cardNum))
            (cards.set uid { userCard, spType, spCards, seat }) rest
      else roomDealCard roomInfo checkSpecial deck cards rest

def gameStart (room : Room) (input : TickInput) : Room :=
  { room with
    gameTime := 0
    gameStep := .skip
    round := room.round + 1
    cards := some (roomDealCard room.roomInfo input.checkSpecial input.deck ∅ room.seat.entries) }

def gameOver (room : Room) (input : TickInput) : Room :=
  let room := { room with
    cards := none
    curCards := none
    scores := none
    gameStep := .none
    gameTime := 0 }
  let leave (room : Room) (uid : Uid) : Room :=
    match room.users.get uid with
    | some user => postLeave room user
    | none => room
  let room := input.leavers.foldl leave room
  let unready (users : LuaTable Uid User) (entry : Seat × Uid) : LuaTable Uid User :=
    match users.get entry.2 with
    | some user => users.set entry.2 { user with ready := false }
    | none => users
  { room with users := room.seat.entries.foldl unready room.users }

def stepSkip (room : Room) : Room :=
  if room.gameTime < 2 then room
  else { room with gameStep := .dealCard, curCards := some ∅, gameTime := 0 }

/-- How the loop of `cmd[step_deal_card]` ends: it raised, it submitted for one player and returned,
or it saw all entries, with one missing or not. -/
inductive DealOutcome where
  | raised
  | submitted (uid : Uid) (entry : CurCards)
  | done (hasNil : Bool)

def dealLoop (room : Room) (curCards : LuaTable Uid CurCards) (robotDraw : Uid → Nat)
    (hasNil : Bool) : List (Uid × Dealt) → DealOutcome
  | [] => .done hasNil
  | (k, dealt) :: rest =>
      match room.users.get k with
      | none => .raised
      | some user =>
          let missing := (curCards.get k).isNone
          if missing ∧ ((user.isRobot ∧ robotDraw k = 1) ∨ room.gameTime > autoCardTime) then
            match choicePokerAuto room.roomInfo dealt with
            | .ok entry => .submitted k entry
            | .error _ => .raised
          else dealLoop room curCards robotDraw (hasNil || missing) rest

def stepDealCard (room : Room) (input : TickInput) : Room :=
  let curCards := room.curCards.getD ∅
  match dealLoop room curCards input.robotDraw false (room.cards.getD ∅).entries with
  | .raised => room
  | .submitted uid entry => { room with curCards := some (curCards.set uid entry) }
  | .done true => room
  | .done false => { room with gameStep := .compare, gameTime := 0 }

/-- An entry that the loop of `cmd[step_compare]` gets through without raising. -/
def comparable (entry : Option CurCards) : Bool :=
  match entry with
  | none => false
  | some entry =>
      (entry.spType.isSome || (entry.cType.isSome && entry.cards.isSome)) &&
        (entry.varietyPos.getD []).all fun pos => pos.2.isSome

/-- The first tick of `cmd[step_compare]`: `client_time` counts the hands and grows while they are
scored, also where the scoring raises. -/
def compareStart (room : Room) (input : TickInput) : Room :=
  let keys := (room.cards.getD ∅).keys
  let seen := keys.takeWhile fun k => comparable ((room.curCards.getD ∅).get k)
  if seen.length < keys.length then { room with clientTime := some (seen.length + 1) }
  else match calculateScore room keys.length with
    | .ok (scores, clientTime) =>
        { room with scores := some scores, clientTime := some clientTime }
    | .error _ => { room with clientTime := some (keys.length + input.scoreTime) }

def stepCompare (room : Room) (input : TickInput) : Room :=
  match room.clientTime with
  | none => compareStart room input
  | some clientTime =>
      if room.gameTime < clientTime then room
      else { room with clientTime := none, gameStep := .over, gameTime := 0 }

/-- `cmd[step_over]`: the result is broadcast first. -/
def stepOver (room : Room) (input : TickInput) : Room :=
  if room.gameTime = 1 then room
  else if room.roomInfo.isPrivate = true ∨ room.gameTime > 6 then gameOver room input
  else room

/-- A room without a game: it starts once all are ready, with two seats taken and a real user. -/
def stepNone (room : Room) (input : TickInput) : Room :=
  if room.gameTime > 1 then
    let (room, ready) := checkReady room
    if ready = some true ∧ room.seat.size > 1 ∧ room.realUser > 0 then gameStart room input
    else room
  else room

def run (room : Room) (input : TickInput) : Room :=
  let room := { room with gameTime := room.gameTime + 1 }
  match room.gameStep with
  | .none => stepNone room input
  | .skip => stepSkip room
  | .dealCard => stepDealCard room input
  | .compare => stepCompare room input
  | .over => stepOver room input

end Steps

/-- A client message from a user of the room; one from nobody is dropped. -/
def ofUser (room : Room) (uid : Uid) (handler : User → Room) : Room :=
  match room.users.get uid with
  | some user => handler user
  | none => room

def step (room : Room) : Event → Room
  | .tick input => run room input
  | .choicePokerType uid data => ofUser room uid fun user =>
      match choicePokerType room user data with
      | .ok (room', _) => room'
      | .error _ => room
  | .happydogggySequence uid hpArr => ofUser room uid fun user =>
      match happydogggySequence room user hpArr with
      | .ok room' => room'
      | .error _ => room
  | .tryStand uid => ofUser room uid (tryStand room)
  | .stand uid => ofUser room uid (someoneStand room)
  | .sit uid seatid => ofUser room uid fun user => sit room user seatid
  | .ready uid => ofUser room uid fun user =>
      { room with users := room.users.set uid { user with ready := true } }
  | .disconnect uid => ofUser room uid (disconnect room)
  | .login uid isRobot => login room uid isRobot

def Room.fresh (roomInfo : RoomInfo) : Room := { roomInfo }

end SdyServer.Daboluo
