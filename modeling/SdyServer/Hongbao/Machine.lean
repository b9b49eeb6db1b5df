import SdyServer.Hongbao.Betting
import SdyServer.Lib.Run

/-!
# The step machine and its clients

`cmd.run` ticks once a second. Clients send requests at any time, and every handler that waits for
the account service lets all of them go on in the meantime. Bets alone are queued: one of them is
under way at a time.
-/

namespace SdyServer.Hongbao

section Packets

def dxdsCfg (tag : Int) : Option (List Nat) :=
  atInt [[1, 2, 3, 4, 5], [6, 7, 8, 9, 10], [1, 3, 5, 7, 9], [2, 4, 6, 8, 10], [1, 3, 5], [7, 9],
    [2, 4], [6, 8, 10], [11, 12, 13, 14, 15, 16]] tag

/-- The classes among which `getIgnoreDxdsTag` draws: those without a point that the bets cover. -/
def ignoreDxdsTags (bets : List Bet) : Lua (List Nat) := do
  let covered ← bets.mapM fun bet => Lua.need .indexNil (bet.subType.bind dxdsCfg)
  return (List.range' 1 9).filter fun tag =>
    ((dxdsCfg tag).getD []).all fun point => !covered.flatten.contains point

/-- The bettors that `use_event` gives a packet. -/
def useEvent (betData : LuaTable Uid (List Bet)) : Lua (List Uid) := do
  let picked ← betData.entries.mapM fun entry => do
    match entry.2.head? with
    | some bet =>
        if bet.type = 3 then
          let tags ← ignoreDxdsTags entry.2
          return if tags = [] then [] else [entry.1]
        else return []
    | none => return []
  return picked.flatten

def allDxds (betData : LuaTable Uid (List Bet)) : Bool :=
  betData.entries.all fun entry => (entry.2.head?.map Bet.type) = some 3

/-- Who is dealt a packet by `cheat.assign_red_packet`. In the first case nobody else is, and the
others fill up with the players. -/
def cheatKeys (room : Room) (players : List Uid) : Lua (List Uid) := do
  let ctBanker := room.bankerCt ≠ some 0
  let ctUser := room.userCt ≠ some 0
  if ctBanker ∧ ctUser then
    let betData ← Lua.need .indexNil room.betData
    let users ← useEvent betData
    let banker ← Lua.need .indexNil room.banker
    return if allDxds betData then banker :: users else banker :: users ++ players
  else if ctBanker then
    let banker ← Lua.need .indexNil room.banker
    return banker :: players
  else
    let users ← useEvent (← Lua.need .indexNil room.betData)
    return users ++ players

def packetKeys (room : Room) (players : List Uid) : Lua (List Uid) :=
  if room.bankerCt = some 1 ∨ room.userCt = some 1 then cheatKeys room players else pure players

/-- `logic.send_packet` up to the banker's name: the values are drawn, the owners are not. -/
def sendPacket (room : Room) (values : Uid → Option Value) : Lua Room := do
  let players ← Lua.need .indexNil room.players
  let keys ← packetKeys room players
  return { room with packets := some (LuaTable.ofKeys keys fun uid => { value := values uid }) }

/-- `logic.wait_game_result`: a packet nobody opened is opened for its player. -/
def waitGameResult (room : Room) : Lua Room := do
  let packets ← Lua.need .indexNil room.packets
  if packets.entries.any fun entry => !entry.2.opened && !room.isPlayer entry.1 then
    throw .indexNil
  return { room with
    packets := some ⟨packets.entries.map fun entry => (entry.1, { entry.2 with opened := true }),
      by simpa [Function.comp_def] using packets.nodupKeys⟩ }

/-- `cmd.open_red_packet`: the banker may not be the first. -/
def openRedPacket (room : Room) (uid : Uid) : Room :=
  match room.packets with
  | none => room
  | some packets =>
      if room.gameStep ≠ .qiang then room
      else if room.banker = some uid ∧ !(packets.entries.any fun entry => entry.2.opened) then room
      else match packets.get uid with
        | none => room
        | some packet =>
            { room with packets := some (packets.set uid { packet with opened := true }) }

end Packets

section Tick

def Room.due (room : Room) : Bool :=
  let time := room.gameTime + 1
  match room.gameStep with
  | .none => false
  | .biao => hbBiaoTime ≤ time
  | .biaoEnd => 1 ≤ time
  | .bet => hbBetTime ≤ time
  | .betEnd => 1 ≤ time
  | .send => hbWaitSend ≤ time
  | .qiang => hbQiangTime ≤ time
  | .waitResult => hbWaitResultTime ≤ time
  | .result => hbReusltTime < time
  | .flow => true

/-- A step function that is due. One that raises keeps its step and is due again. -/
def stepRun (room : Room) (values : Uid → Option Value) : Slice :=
  match room.gameStep with
  | .none => (room, .done)
  | .biao => ({ room with gameTime := 0, gameStep := .biaoEnd }, .done)
  | .biaoEnd => (beterStart room, .done)
  | .bet => ({ room with gameTime := 0, gameStep := .betEnd }, .done)
  | .betEnd =>
      if room.betPeoples < hbMinimumBet then
        ({ room with gameTime := 0, gameStep := .flow }, .done)
      else ({ room with gameTime := 0, gameStep := .send }, .done)
  | .send =>
      match sendPacket room values with
      | .ok room =>
          if room.banker.any room.isPlayer then
            ({ room with gameTime := 0, gameStep := .qiang }, .done)
          else (room, .raised .indexNil)
      | .error error => (room, .raised error)
  | .qiang =>
      match waitGameResult room with
      | .ok room => ({ room with gameTime := 0, gameStep := .waitResult }, .done)
      | .error error => (room, .raised error)
  | .waitResult => gotoResult room
  | .result => gameOver room
  | .flow => gameFlowBureau room

def run (room : Room) (values : Uid → Option Value) : Slice :=
  let ticked := { room with gameTime := room.gameTime + 1 }
  if room.due then stepRun ticked values else (ticked, .done)

end Tick

section World

/-- The room with everything that is under way: the suspended handlers, the bet that holds the
queue, the bets that wait for it, and the calls the account service has accepted. -/
structure World where
  room : Room
  frames : List Frame := []
  bet : Option BetCall := none
  queue : List BetRequest := []
  log : List ServiceCall := []

inductive Event where
  | robBanker (uid : Uid) (coin : ℚ)
  | biaoBanker (uid : Uid) (coin : ℚ)
  | downBanker (uid : Uid)
  | betting (uid : Uid) (data : BetMsg)
  | dequeue
  | resume (index : Nat) (answer : Answer) (rewards : List (Uid × ℚ))
  | resumeBet (answer : Answer)
  | tick (values : Uid → Option Value)
  | openRedPacket (uid : Uid)
  | setOffline (uid : Uid) (isOffline : Bool)
  | setBankerType (bankerType : Option Int)
  | setZhuangxian (bankerCt userCt : Option Int)

def World.apply (world : World) (slice : Slice) : World :=
  { world with room := slice.1, frames := world.frames ++ slice.2.frame?.toList }

def World.startBet (world : World) (req : BetRequest) : World :=
  let (room, next) := beter world.room req
  { world with room, bet := next.frame? }

def World.book (world : World) (answer : Answer) (call : ServiceCall) : World :=
  match answer with
  | .ok => { world with log := world.log ++ [call] }
  | _ => world

def step (world : World) : Event → World
  | .robBanker uid coin => world.apply (robBanker world.room uid coin)
  | .biaoBanker uid coin => world.apply (biaoBanker world.room uid coin)
  | .downBanker uid => world.apply (downBankerCmd world.room uid)
  | .betting uid data =>
      match betting world.room uid data with
      | .error _ => world
      | .ok req =>
          if world.bet.isSome ∨ world.queue ≠ [] then
            { world with queue := world.queue ++ [req] }
          else world.startBet req
  | .dequeue =>
      match world.bet, world.queue with
      | none, req :: queue => { world with queue }.startBet req
      | _, _ => world
  | .resume index answer rewards =>
      match world.frames[index]? with
      | none => world
      | some frame =>
          ({ world with frames := world.frames.eraseIdx index }.book answer
            (frame.call world.room.info.gameOwner)).apply
              (resume world.room answer rewards frame)
  | .resumeBet answer =>
      match world.bet with
      | none => world
      | some bet =>
          let (room, _) := beterAnswered world.room bet answer
          { world with room, bet := none }.book answer bet.call
  | .tick values => world.apply (run world.room values)
  | .openRedPacket uid => { world with room := openRedPacket world.room uid }
  | .setOffline uid isOffline =>
      let others := world.room.offline.filter (· ≠ uid)
      { world with
        room := { world.room with offline := if isOffline then uid :: others else others } }
  | .setBankerType bankerType => { world with room := { world.room with bankerType } }
  | .setZhuangxian bankerCt userCt => { world with room := { world.room with bankerCt, userCt } }

def World.fresh (info : RoomInfo) : World := { room := { info } }

end World

end SdyServer.Hongbao
