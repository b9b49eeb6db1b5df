import SdyServer.Hongbao.Room

/-!
# Settling a round

`getResult` compares every bettor with the banker, or with what he betted on, and `game_result`
turns the outcome into one batch: every participant gets his frozen coins back, wins and losses are
booked, commissions go to the owner, and the banker's new stake is frozen again.
-/

namespace SdyServer.Hongbao

structure PlayerResult where
  uid : Uid
  isBanker : Bool
  coinChange : ℚ
  totalBetValue : Int
deriving DecidableEq, Repr

section GetResult

/-- A bet on the cow, decided against the banker: on equal points one and two the banker wins, and
also where the bettor has a two against a one. -/
def cowChange (tBet : TotalBet) (banker user : Point) : Lua ℚ := do
  let rate ← Lua.need .arithmeticOnNil (← getRate tBet.type (some user.pointType))
  let win : ℚ := rate * tBet.value
  let lose : Lua ℚ := do
    let bankerRate ← Lua.need .arithmeticOnNil (← getRate tBet.type (some banker.pointType))
    return if tBet.type = 1 then -bankerRate * tBet.value else -rate * tBet.value
  if banker.pointType > user.pointType then lose
  else if user.pointType = 1 ∨ user.pointType = 2 then lose
  else if banker.pointType < user.pointType then return win
  else
    let bankerValue ← Lua.need .compareNil (tonumber banker.packetValue)
    let userValue ← Lua.need .compareNil (tonumber user.packetValue)
    if bankerValue > userValue then lose
    else if bankerValue < userValue then return win
    else return 0

def specialPointChange (userCow : List Point) (maxUserCow : Point) (v : TotalBet) : Lua ℚ := do
  let hits := if maxUserCow.pointType > 10 then 0
    else userCow.countP fun h => v.subType = some (h.pointType : Int)
  if !(v.subType.any cowNamed) then throw .concatNil
  let rate ← Lua.need .arithmeticOnNil (← getRate v.type none)
  return if hits = 0 then -v.value else hits * (rate * v.value)

/-- One bet on size and parity: a special packet pays only the bet on it and takes half of the
others. -/
def dxdsChange (userDxds : List Nat) (v : TotalBet) (isFirst : Bool) : Lua ℚ := do
  let maxDxds ← Lua.elem userDxds 1
  if !isFirst && !(v.subType.any dxdsNamed) then throw .concatNil
  let hits := if maxDxds = 9 then (if v.subType = some 9 then 1 else 0)
    else userDxds.countP fun h => v.subType = some (h : Int)
  if hits = 0 then return if maxDxds = 9 then -v.value * (1 / 2) else -v.value
  else
    let rate ← Lua.need .arithmeticOnNil (← getRate v.type v.subType)
    return hits * (rate * v.value)

def userChange (banker : Point) (userDxds : List Nat) (userCow : List Point) (maxUserCow : Point)
    (bet : List TotalBet) : Lua (ℚ × Int) := do
  let first ← Lua.elem bet 1
  if first.type = 1 ∨ first.type = 2 then
    return (← cowChange first banker maxUserCow, first.value)
  else if first.type = 4 then
    let changes ← bet.mapM fun v => specialPointChange userCow maxUserCow v
    return (changes.sum, (bet.map fun v => v.value).sum)
  else if first.type = 3 then
    let head ← dxdsChange userDxds first true
    let rest ← bet.tail.mapM fun v => dxdsChange userDxds v false
    return (head + rest.sum, (bet.map fun v => v.value).sum)
  else return (0, 0)

def userResult (hongbao : LuaTable Uid Packet) (playes : List Uid) (banker : Point)
    (entry : Uid × List TotalBet) : Lua PlayerResult := do
  let packet ← Lua.need .indexNil (hongbao.get entry.1)
  let (userDxds, userCow) ← getSizeDanShuangData (packet.value.getD "0".toList)
  let userCow ← Lua.need .indexNil userCow
  let maxUserCow ← Lua.elem userCow 1
  let (coinChange, totalBetValue) ← userChange banker userDxds userCow maxUserCow entry.2
  if entry.1 ∉ playes then throw .indexNil
  return { uid := entry.1, isBanker := false, coinChange, totalBetValue }

/-- `getResult`. The banker's entry takes the place of one he may have as a bettor. -/
def getResult (bankerId : Option Uid) (hongbao : Option (LuaTable Uid Packet))
    (betData : Option (LuaTable Uid (List TotalBet))) (playes : Option (List Uid)) :
    Lua (List PlayerResult) := do
  let bankerId ← Lua.need .indexNil bankerId
  let hongbao ← Lua.need .indexNil hongbao
  let bankerPacket ← Lua.need .indexNil (hongbao.get bankerId)
  let (_, bankerCow) ← getSizeDanShuangData (bankerPacket.value.getD "nil".toList)
  let bankerCow ← Lua.need .indexNil bankerCow
  let banker ← Lua.elem bankerCow 1
  let betData ← Lua.need .indexNil betData
  let playes ← Lua.need .indexNil playes
  let peoples ← betData.entries.mapM fun entry => userResult hongbao playes banker entry
  if bankerId ∉ playes then throw .indexNil
  return (peoples.filter fun people => people.uid ≠ bankerId) ++
    [{ uid := bankerId, isBanker := true,
       coinChange := -(peoples.map PlayerResult.coinChange).sum,
       totalBetValue := (peoples.map PlayerResult.totalBetValue).sum }]

end GetResult

section Batch

def giveBackAcct (room : Room) (v : PlayerResult) : UserAcct where
  type := some .giveBack
  coin := if v.isBanker then room.bankerGameCoin else room.betCoin v.uid
  custNo := some v.uid

def winLoseAcct (v : PlayerResult) : UserAcct where
  type := if v.coinChange > 0 then some .win else if v.coinChange < 0 then some .lose else none
  coin := |v.coinChange|
  custNo := some v.uid

def pumpOf (v : PlayerResult) : Option ℚ :=
  if v.coinChange > 0 then
    some (v.coinChange * if v.isBanker then hbBankerWinPumpRate else hbUserWinPumpRate)
  else none

def pumpAccts (gameOwner : Uid) (v : PlayerResult) : List UserAcct :=
  match pumpOf v with
  | none => []
  | some pump => [⟨some .defray, pump, some v.uid⟩, ⟨some .profit, pump, some gameOwner⟩]

/-- `g.bankerGameCoin` after the loop that books wins and losses. -/
def bankerCoinAfter (coin : ℚ) (v : PlayerResult) : ℚ :=
  if !v.isBanker then coin
  else match pumpOf v with
    | some pump => coin + round2 (v.coinChange - pump)
    | none => round2 (coin - |v.coinChange|)

/-- The commission for being banker: fixed per bettor, at most what the banker has left. -/
def robBankerPump (bankerGameCoin : ℚ) (betPeoples : Nat) : ℚ :=
  if bankerGameCoin < betPeoples * hbRobBankerPumpRate then bankerGameCoin
  else betPeoples * hbRobBankerPumpRate

/-- What `game_result` has computed when it calls the service: the banker's user, the batch, and the
stake to be frozen again. -/
structure Settlement where
  user : Uid
  userAccts : List UserAcct
  bankerGameCoin : ℚ
deriving DecidableEq, Repr

/-- The batch: frozen coins back, wins and losses, commissions, and the new stake. -/
def resultAccts (room : Room) (bankerId : Uid) (result : List PlayerResult)
    (robPump newCoin : ℚ) : List UserAcct :=
  result.map (giveBackAcct room) ++ result.map winLoseAcct ++
    result.flatMap (pumpAccts room.info.gameOwner) ++
    [⟨some .defray, robPump, some bankerId⟩, ⟨some .profit, robPump, some room.info.gameOwner⟩,
      ⟨some .freeze, newCoin, some bankerId⟩]

/-- `game_result` up to its first call. `g.bankerGameCoin` is already changed then. -/
def settle (room : Room) : Lua (Room × Settlement) := do
  let result ← getResult room.banker room.packets room.totalBetData room.players
  let bankerId ← Lua.need .indexNil room.banker
  let coin := result.foldl bankerCoinAfter room.bankerGameCoin
  let robPump := robBankerPump coin room.betPeoples
  let newCoin := round2 (coin - robPump)
  return ({ room with bankerGameCoin := coin },
    { user := bankerId, userAccts := resultAccts room bankerId result robPump newCoin,
      bankerGameCoin := newCoin })

/-- The batch of `game_flow_bureau`. -/
def flowAccts (room : Room) : List UserAcct :=
  (room.totalBetData.getD ∅).entries.map fun entry =>
    ⟨some .giveBack, sumGameCoin entry.2, some entry.1⟩

end Batch

end SdyServer.Hongbao
