import SdyServer.Pk10.Room
import SdyServer.Lib.Run

/-!
# The timer and its clients

`cmd.run` reads the phase off the clock, asks the draw cache, lets a robot bet and then acts on a
phase that differs from `g.game_step`. A robot's bet suspends it, so the two halves are events of
their own and the second may come late, after other ticks, or not at all. The clock's phase is given
with the round it belongs to, which the room itself never sees.

Next to the room the state remembers where its values came from: the round in which each recorded
bet was sent and in which the draw was received, and what the last result was computed from.
-/

namespace SdyServer.Pk10

structure Placed where
  round : Nat
  uid : Uid
  door : Door
  value : Int
deriving DecidableEq, Repr

/-- What `g.result` was computed from. -/
structure Source where
  placed : List Placed
  kjHao : KjHao
  drawn : Option Nat
  bankerSeat : Option Door
  banker : Option Uid
deriving DecidableEq, Repr

/-- A handler in the queue `cs`. -/
inductive Job where
  | rob (uid : Uid) (coin : ℚ)
  | bet (req : BetRequest) (round : Nat)
deriving DecidableEq, Repr

def Job.call : Job → ServiceCall
  | .rob uid coin => .operatGameResultAcct [⟨some .freeze, coin, some uid⟩]
  | .bet req _ => .operatGameResultAcct [⟨some .freeze, req.betValue, some req.uid⟩]

def Job.isBet : Job → Bool
  | .bet .. => true
  | .rob .. => false

structure CjData where
  data : Option Draw
  number : Nat
deriving DecidableEq, Repr

structure World where
  room : Room
  frames : List Frame := []
  job : Option Job := none
  queue : List Job := []
  log : List ServiceCall := []
  clock : Nat := 0
  placed : List Placed := []
  drawn : Option Nat := none
  source : Option Source := none

inductive Event where
  | poll (cj : CjData)
  | enter (round : Nat) (status : GameStep)
  | reconn (status : GameStep) (number : Option Nat)
  | robBanker (uid : Uid) (coin : ℚ)
  | downBanker (uid : Uid)
  | betting (uid : Uid) (betType : Option Door) (betValue : Option Amount)
  | dequeue
  | resumeJob (answer : Answer) (saizi : Nat × Nat)
  | resume (index : Nat) (answer : Answer)
  | setOffline (uid : Uid) (isOffline : Bool)

section Timer

/-- Whether `logic.update_cj_data` takes the draw that the cache has answered. -/
def Room.takesDraw (room : Room) (cj : CjData) : Bool :=
  cj.data.isSome && room.round ≠ some cj.number && !room.isKj

/-- `logic.update_cj_data` after its call of the cache. -/
def updateCjAnswered (room : Room) (cj : CjData) : Room :=
  match cj.data with
  | none => room
  | some data =>
      if room.round ≠ some cj.number ∧ room.isKj = false then
        { room with isKj := true, kjHao := .text data, round := some cj.number }
      else room

def updateCjData (room : Room) (cj : CjData) : Room :=
  if room.gameStep ≠ .kaijiang then { room with isKj := false } else updateCjAnswered room cj

/-- `getResult` of what the room holds. -/
def Room.computed (room : Room) : Lua Result :=
  getResult room.info.calculatedBits room.betDoorData room.totalBetValueList room.kjHao
    room.bankerSeat room.banker

/-- The doors whose totals `getResult` compares with a number, and those whose players are given
their bets as they are recorded. -/
structure Compared where
  totals : List Door
  bets : List Door

/-- With a banker these are the doors that he pays. Without one all totals are compared, and the
bets are given to the players of the doors that win their whole stake. -/
def comparedDoors (betData : BetDoorData) (tmp : List Info) (bankerInfo : Option Info) : Compared :=
  match bankerInfo with
  | some bankerInfo => {
      totals := (tmp.filter fun info => !comparePoint bankerInfo info).map Info.door,
      bets := (tmp.filter fun info => bankerDoorChange bankerInfo info > 0).map Info.door }
  | none =>
      if betData.size > 1 then {
        totals := tmp.map Info.door,
        bets := ((settleDoors tmp (tmp.map fun info => info.totalBet.getD 0)).filter fun door =>
          door.1.totalBet = some |door.2| && 0 ≤ door.2).map fun door => door.1.door }
      else { totals := [], bets := [] }

def Room.compared (room : Room) : Compared :=
  match room.kjHao with
  | .text kj =>
      let infos := doorInfos room.info.calculatedBits (room.totalBetValueList.getD ∅) kj
      comparedDoors (room.betDoorData.getD ∅)
        (Lua.tableSort comparePoint (infos.filter fun info => some info.door ≠ room.bankerSeat))
        (infos.find? fun info => some info.door = room.bankerSeat)
  | _ => { totals := [], bets := [] }

/-- `getResult` comes to a total that is a text. -/
def Room.comparesText (room : Room) : Bool :=
  room.texts.totals.any fun door => door ∈ room.compared.totals

/-- A change is a text if it is the bet of a player on a single door of those that play. -/
def Room.changeTexts (room : Room) : List Uid :=
  let betData := room.betDoorData.getD ∅
  let playing :=
    ((List.range' 1 (getSeatCount room.info.calculatedBits)).map fun i => (i : Door)).filter
    fun door => some door ≠ room.bankerSeat
  (room.texts.bets.filter fun bet => bet.1 ∈ room.compared.bets && some bet.2 ≠ room.banker &&
    playing.all fun door => door = bet.1 || (((betData.get door).getD ∅).get bet.2).isNone).map
      Prod.snd

def bipai (room : Room) : Slice :=
  if room.comparesText then (room, .raised .compareText)
  else match room.computed with
    | .ok result => ({ room with result := some result, resultTexts := room.changeTexts }, .done)
    | .error error => (room, .raised error)

def stepRun (room : Room) : Slice :=
  match room.gameStep with
  | .betStart => (beterStart room, .done)
  | .kaijiang =>
      match room.round with
      | none => (room, .raised .arithmeticOnNil)
      | some _ => (room, .done)
  | .bipai => bipai room
  | .result => result room
  | _ => (room, .done)

/-- The end of `cmd.run`. -/
def enter (room : Room) (status : GameStep) : Slice :=
  if room.gameStep = status then (room, .done) else stepRun { room with gameStep := status }

def reconn (room : Room) (status : GameStep) (number : Option Nat) : Room :=
  { room with gameStep := status, round := some (number.getD 0) }

end Timer

def World.setRoom (world : World) (room : Room) : World :=
  { world with room, placed := if room.betDoorData.isNone then [] else world.placed }

def World.apply (world : World) (slice : Slice) : World :=
  { world.setRoom slice.1 with frames := world.frames ++ slice.2.frame?.toList }

/-- `logic.update_cj_data` after its call, and in which race the draw was received, if in one. -/
def World.drawAnswered (world : World) (cj : CjData) : World :=
  { world with
    room := updateCjAnswered world.room cj,
    drawn := if world.room.takesDraw cj then
        if world.room.gameStep = .kaijiang then some world.clock else none
      else world.drawn }

def World.book (world : World) (answer : Answer) (call : ServiceCall) : World :=
  match answer with
  | .ok => { world with log := world.log ++ [call] }
  | _ => world

def startJob (room : Room) : Job → Room × Option Job
  | .rob uid coin => (room, if room.banker.isSome then none else some (.rob uid coin))
  | .bet req round =>
      if !room.betting then (room, none)
      else
        let (room, next) := beter room req
        (room, next.frame?.map fun req => .bet req round)

def World.start (world : World) (job : Job) : World :=
  let (room, job) := startJob world.room job
  { world with room, job }

def World.enqueue (world : World) (job : Job) : World :=
  if world.job.isSome ∨ world.queue ≠ [] then { world with queue := world.queue ++ [job] }
  else world.start job

def placedBy (req : BetRequest) (round : Nat) : Next BetRequest → List Placed
  | .done => (req.betType.map fun door => ⟨round, req.uid, door, req.betValue⟩).toList
  | _ => []

def World.finish (world : World) (answer : Answer) (saizi : Nat × Nat) : Job → World
  | .rob uid coin =>
      { world with room := robBankerAnswered world.room uid coin saizi answer, job := none }
  | .bet req round =>
      let (room, next) := beterAnswered world.room req answer
      { world with room, job := none, placed := world.placed ++ placedBy req round next }

def World.sources (world : World) : Source where
  placed := world.placed
  kjHao := world.room.kjHao
  drawn := world.drawn
  bankerSeat := world.room.bankerSeat
  banker := world.room.banker

def Room.computes (room : Room) (status : GameStep) : Bool :=
  status = .bipai && room.gameStep ≠ .bipai && !room.comparesText && room.computed.isOk

def step (world : World) : Event → World
  | .poll cj =>
      { world with
        room := updateCjData world.room cj,
        drawn := if world.room.gameStep = .kaijiang ∧ world.room.takesDraw cj then some world.clock
          else world.drawn }
  | .enter round status =>
      { world.apply (enter world.room status) with
        clock := round,
        source := if world.room.computes status then some world.sources else world.source }
  | .reconn status number => { world with room := reconn world.room status number }
  | .robBanker uid coin => if world.room.idle then world.enqueue (.rob uid coin) else world
  | .downBanker uid => world.apply (downBankerCmd world.room uid)
  | .betting uid betType betValue =>
      match betting world.room uid betType betValue with
      | .error _ => world
      | .ok req => world.enqueue (.bet req world.clock)
  | .dequeue =>
      match world.job, world.queue with
      | none, job :: queue => { world with queue }.start job
      | _, _ => world
  | .resumeJob answer saizi =>
      match world.job with
      | none => world
      | some job => (world.finish answer saizi job).book answer job.call
  | .resume index answer =>
      match world.frames[index]? with
      | none => world
      | some frame =>
          ({ world with frames := world.frames.eraseIdx index }.book answer frame.call).apply
            (resume world.room answer frame)
  | .setOffline uid isOffline =>
      let others := world.room.offline.filter (· ≠ uid)
      { world with
        room := { world.room with offline := if isOffline then uid :: others else others } }

def World.fresh (info : RoomInfo) : World := { room := { info } }

end SdyServer.Pk10
