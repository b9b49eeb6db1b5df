import SdyServer.Hongbao.Handlers

/-!
# Bets

A bet request is checked when it arrives, waits in the queue `cs` until no other bet is under way,
and is then checked again and frozen. Only the first check looks at the game step.
-/

namespace SdyServer.Hongbao

structure BetMsg where
  betType : Option Int
  betSubType : Option Int
  betValue : Option Int
deriving DecidableEq, Repr

/-- A request that `cmd.betting` has handed to the queue, with what it has checked. -/
structure BetRequest where
  uid : Uid
  betType : Int
  betSubType : Option Int
  betValue : Int
  typed : ¬(betType ≤ 0 ∨ betType > 4)
  subTyped : ¬((betType = 3 ∨ betType = 4) ∧ betSubType = none)
deriving DecidableEq, Repr

structure BetCall extends BetRequest where
  gameCoin : ℚ
  surplusCoin : ℚ
deriving DecidableEq, Repr

def BetCall.call (bet : BetCall) : ServiceCall :=
  .operatGameResultAcct [⟨some .freeze, bet.gameCoin, some bet.uid⟩]

/-- `cmd.betting` up to the queue. -/
def betting (room : Room) (uid : Uid) (data : BetMsg) : Except (String × String) BetRequest :=
  if room.gameStep ≠ .bet then .error ("下注已结束", "bet_fail")
  else if room.banker = some uid then .error ("庄家不允许下注", "bet_fail")
  else match data.betType, data.betValue with
    | none, _ => .error ("下注失败，请选择下注类型", "bet_fail")
    | some _, none => .error ("下注失败，请选择下注子类型", "bet_fail")
    | some betType, some betValue =>
        if typed : betType ≤ 0 ∨ betType > 4 then .error ("非法的下注类型", "bet_fail")
        else if subTyped : (betType = 3 ∨ betType = 4) ∧ data.betSubType = none then
          .error ("下注失败，请选择下注子类型", "bet_fail")
        else .ok { uid, betType, betSubType := data.betSubType, betValue, typed, subTyped }

section Beter

/-- What speaks against a further bet of a user: another type, the same point again, or a second bet
of a type that allows one. -/
def betConflict (req : BetRequest) (value : Bet) : Option String :=
  if value.type ≠ req.betType then some "只允许选中一种方式下注~"
  else if value.type = 4 then
    if value.subType = req.betSubType then some "该点数只允许下注一次~" else none
  else some "该类型只允许下注一次~"

def bankerReduceCoin (req : BetRequest) : Lua ℚ := do
  let rate ← if req.betType = 1 ∨ req.betType = 2 ∨ req.betType = 4 then
      pure (getMaxRate req.betType)
    else getRate req.betType req.betSubType
  let rate ← Lua.need .arithmeticOnNil rate
  return rate * req.betValue

def betGameCoin (req : BetRequest) : Lua ℚ :=
  if req.betType ≠ 1 then pure req.betValue
  else do
    let rate ← Lua.need .arithmeticOnNil (getMaxRate req.betType)
    return rate * req.betValue

/-- `logic.beter` up to its call, once `g.bet_data` is a table. -/
def beterCheck (room : Room) (betData : LuaTable Uid (List Bet)) (req : BetRequest) :
    Lua (Next BetCall) := do
  if let some text := ((betData.get req.uid).getD []).findSome? (betConflict req) then
    return .refused text "bet_fail"
  let (minBetValue, maxBetValue) ←
    Lua.need .indexNil (hbBetRangeConfig room.info.gameGradeType req.betType)
  if req.betValue < minBetValue ∨ req.betValue > maxBetValue then
    return .refused s!"下注失败，下注区间为{minBetValue}~{maxBetValue}" "bet_fail"
  let reduceCoin ← bankerReduceCoin req
  let surplusCoin := room.bankerSurplusCoin - reduceCoin
  if surplusCoin < 0 then return .refused "下注失败，超出上庄金币范围" "bet_fail"
  let gameCoin ← betGameCoin req
  return .call { toBetRequest := req, gameCoin, surplusCoin }

def beter (room : Room) (req : BetRequest) : Room × Next BetCall :=
  let betData := room.betData.getD ∅
  let room := { room with betData := some betData }
  match beterCheck room betData req with
  | .ok next => (room, next)
  | .error error => (room, .raised error)

/-- The entry of a bet is added to one of the same type and sub type, and is new otherwise. -/
def addTotalBet (bet : BetCall) (total : List TotalBet) : List TotalBet :=
  let same := fun v : TotalBet => v.type = bet.betType ∧ v.subType = bet.betSubType
  let merged := total.map fun v =>
    if same v then { v with value := v.value + bet.betValue, gameCoin := v.gameCoin + bet.gameCoin }
    else v
  if total.any fun v => same v then merged
  else merged ++ [{ type := bet.betType, subType := bet.betSubType, value := bet.betValue,
                    gameCoin := bet.gameCoin }]

/-- `logic.beter` after its call. The bet is recorded before its name is looked up. -/
def recordBet (room : Room) (betData : LuaTable Uid (List Bet)) (bet : BetCall) : Room :=
  let total := room.totalBetData.getD ∅
  { room with
    betData := some (betData.set bet.uid
      (((betData.get bet.uid).getD []) ++ [⟨bet.betType, bet.betSubType, bet.betValue⟩])),
    totalBetValue := some (room.totalBetValue.getD 0 + bet.betValue),
    bankerSurplusCoin := bet.surplusCoin,
    totalBetData := some (total.set bet.uid (addTotalBet bet ((total.get bet.uid).getD []))),
    players := some ((room.players.getD []).insert bet.uid) }

def beterAnswered (room : Room) (bet : BetCall) : Answer → Room × Next BetCall
  | .ok =>
      match room.betData with
      | none => (room, .raised .indexNil)
      | some betData =>
          let room := recordBet room betData bet
          if bet.betType = 4 ∧ !(bet.betSubType.any cowNamed) then (room, .raised .concatNil)
          else (room, .done)
  | answer => (room, .refused answer.dec "bet_fail")

end Beter

end SdyServer.Hongbao
