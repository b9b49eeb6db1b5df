import SdyServer.Hongbao.Result

/-!
# The handlers, cut where they wait

Every call of the account service suspends the handler that makes it. A handler is therefore cut
into the pieces between two calls: a piece runs without interruption, and ends the handler or leaves
a frame that says which answer it waits for and what it still remembers. A database call suspends
its handler as well; here it is taken to be answered before anything else reaches the room, so that
a piece runs past it. `Stored` has the room in which the database is late.
-/

namespace SdyServer.Hongbao

inductive Frame where
  | robFreeze (uid : Uid) (coin : ℚ)
  | robCoin (uid : Uid) (coin : ℚ)
  | startFreeze
  | down (uid : Uid) (coin : ℚ) (startFailed : Bool)
  | biaoFreeze (uid : Uid) (coin : ℚ)
  | biaoReturn (uid : Uid) (coin : ℚ) (banker : Option Uid) (bankerCoin : ℚ)
  | biaoTopUp (uid : Uid) (coin : ℚ) (offsetCoin : ℚ)
  | resultReduce (settlement : Settlement)
  | resultCoin (settlement : Settlement)
  | reward (user : Uid) (uid : Uid) (coin : ℚ) (rest : List (Uid × ℚ))
  | flowReturn (user : Option Uid)
  | flowCoin (user : Uid) (userAccts : List UserAcct)
deriving DecidableEq, Repr

def Frame.call (gameOwner : Uid) : Frame → ServiceCall
  | .robFreeze .. => .freezeRoomGold
  | .robCoin uid coin => .operatGameResultAcct [⟨some .freeze, coin, some uid⟩]
  | .startFreeze => .freezeRoomGold
  | .down uid coin _ => .operatGameResultAcct [⟨some .giveBack, coin, some uid⟩]
  | .biaoFreeze uid coin => .operatGameResultAcct [⟨some .freeze, coin, some uid⟩]
  | .biaoReturn _ _ banker bankerCoin =>
      .operatGameResultAcct [⟨some .giveBack, bankerCoin, banker⟩]
  | .biaoTopUp uid _ offsetCoin => .operatGameResultAcct [⟨some .freeze, offsetCoin, some uid⟩]
  | .resultReduce _ => .reduceRoomGold
  | .resultCoin settlement => .operatGameResultAcct settlement.userAccts
  | .reward _ uid coin _ =>
      .operatGameResultAcct [⟨some .defray, coin, some gameOwner⟩, ⟨some .profit, coin, some uid⟩]
  | .flowReturn _ => .returnRoomGold
  | .flowCoin _ userAccts => .operatGameResultAcct userAccts

abbrev Slice := Room × Next Frame

section Banker

/-- `logic.down_banker` up to its call. -/
def downBanker (room : Room) (user : Uid) (startFailed : Bool) : Slice :=
  (room, .call (.down user room.bankerGameCoin startFailed))

/-- A step-down that follows a failed start ends the game, whether or not it succeeds. -/
def downBankerAnswered (room : Room) (startFailed : Bool) (answer : Answer) : Slice :=
  let room := match answer with
    | .ok => { room with
        bankerGameCoin := 0, bankerSurplusCoin := 0, banker := none, players := none,
        gameTime := hbReusltTime }
    | _ => room
  let room := if startFailed then { room with gameTime := 0, gameStep := .none } else room
  match answer with
  | .ok => (room, .done)
  | answer => (room, .refused answer.dec "someone_rob_banker_fail")

/-- `logic.beter_start` after `game_start` or `step_biao_end` has set the step. -/
def beterStart (room : Room) : Room :=
  { room with
    gameTime := 0, gameStep := .bet,
    totalBetValue := some 0, totalBetData := none, betData := none }

/-- `game_start`: a round that nobody may challenge freezes the room diamonds itself. -/
def gameStart (room : Room) (flag : Bool) : Slice :=
  if flag then ({ room with gameTime := 0, gameStep := .biao }, .done)
  else (room, .call .startFreeze)

def gameStartAnswered (room : Room) (answer : Answer) : Slice :=
  match answer with
  | .ok => (beterStart room, .done)
  | answer =>
      match room.banker with
      | none => (room, .raised .indexNil)
      | some banker =>
          if !room.isPlayer banker then (room, .raised .indexNil)
          else match answer with
            | .b002 _ => downBanker room banker true
            | answer => (room, .refused answer.dec "game_start_fail")

def robBanker (room : Room) (uid : Uid) (coin : ℚ) : Slice :=
  let minLimit := room.info.gameBankerLimitAmt.getD 0
  let maxLimit := room.info.gameBankerMaxLimitAmt.getD 0
  if room.banker.isSome then
    (room, .refused "上庄失败，已经有人捷足先登了~" "someone_rob_banker_fail")
  else if coin > 10000000 then
    (room, .refused "亲，你抢庄金额太高了~" "someone_rob_banker_fail")
  else if coin < minLimit / 100 then
    (room, .refused room.info.gameGradeTypeName "someone_rob_banker_fail")
  else if maxLimit > 0 ∧ coin > maxLimit / 100 then
    (room, .refused room.info.gameGradeTypeName "someone_rob_banker_fail")
  else (room, .call (.robFreeze uid coin))

def robFreezeAnswered (room : Room) (uid : Uid) (coin : ℚ) : Answer → Slice
  | .ok => (room, .call (.robCoin uid coin))
  | answer => (room, .refused (failText "房间钻石不足" answer) "someone_rob_banker_fail")

def robCoinAnswered (room : Room) (uid : Uid) (coin : ℚ) : Answer → Slice
  | .ok =>
      let room := { room with
        banker := some uid, bankerGameCoin := coin, bankerSurplusCoin := coin,
        players := some ((room.players.getD []).insert uid) }
      gameStart room (room.bankerType ≠ some 2)
  | answer => (room, .refused answer.dec "someone_rob_banker_fail")

/-- `cmd.biao_banker`: a challenger freezes his own coins first and has the banker's returned then,
and the banker himself adds what is missing. -/
def biaoBanker (room : Room) (uid : Uid) (coin : ℚ) : Slice :=
  let maxLimit := room.info.gameBankerMaxLimitAmt.getD 0
  if room.gameStep ≠ .biao then (room, .refused "标庄已结束" "bet_fail")
  else if coin > 10000000 then
    (room, .refused "亲，你标庄金额太高了~" "someone_biao_banker_fail")
  else if maxLimit > 0 ∧ coin > maxLimit / 100 then
    (room, .refused room.info.gameGradeTypeName "someone_rob_banker_fail")
  else if room.bankerGameCoin ≥ coin then
    (room, .refused "抢庄失败，抢庄金币少于庄家金币~" "someone_biao_banker_fail")
  else if room.banker ≠ some uid then (room, .call (.biaoFreeze uid coin))
  else (room, .call (.biaoTopUp uid coin (coin - room.bankerGameCoin)))

def biaoFreezeAnswered (room : Room) (uid : Uid) (coin : ℚ) : Answer → Slice
  | .ok => (room, .call (.biaoReturn uid coin room.banker room.bankerGameCoin))
  | answer => (room, .refused answer.dec "someone_biao_banker_fail")

def biaoAnswered (room : Room) (uid : Uid) (coin : ℚ) : Answer → Slice
  | .ok =>
      ({ room with
          banker := some uid, bankerGameCoin := coin, bankerSurplusCoin := coin,
          players := some [uid] }, .done)
  | answer => (room, .refused answer.dec "someone_biao_banker_fail")

/-- `cmd.down_banker`. -/
def downBankerCmd (room : Room) (uid : Uid) : Slice :=
  if room.banker ≠ some uid then (room, .refused "下庄失败，您不是庄家！" "down_banker_fail")
  else if room.gameStep ≠ .none ∧ room.gameStep ≠ .result then
    (room, .refused "游戏中不能下庄！" "down_banker_fail")
  else downBanker room uid false

end Banker

section Settling

/-- `goto_result` with `game_result` up to its first call. -/
def gotoResult (room : Room) : Slice :=
  let room := { room with gameTime := 0, gameStep := .result }
  match settle room with
  | .ok (room, settlement) => (room, .call (.resultReduce settlement))
  | .error error => (room, .raised error)

def resultReduceAnswered (room : Room) (settlement : Settlement) : Answer → Slice
  | .ok => (room, .call (.resultCoin settlement))
  | answer => (room, .refused (failText "房间钻石不足" answer) "game_flow__fail")

/-- The end of `game_result`: the banker stays only in the mode of consecutive rounds, while he is
online and has enough coins. -/
def resultEnd (room : Room) (user : Uid) : Slice :=
  if room.banker.isSome ∧ room.bankerType = some 2 then
    if user ∈ room.offline then downBanker room user false
    else match room.info.gameBankerLimitAmt with
      | none => (room, .raised .arithmeticOnNil)
      | some limit =>
          if room.bankerGameCoin < limit / 100 then downBanker room user false
          else (room, .done)
  else downBanker room user false

/-- The task rewards that `core.handleResult` still has to pay, and then the end. -/
def payRewards (room : Room) (user : Uid) : List (Uid × ℚ) → Slice
  | [] => resultEnd room user
  | (uid, coin) :: rest => (room, .call (.reward user uid coin rest))

def resultCoinAnswered (room : Room) (settlement : Settlement) (rewards : List (Uid × ℚ)) :
    Answer → Slice
  | .ok =>
      let room := { room with
        bankerGameCoin := settlement.bankerGameCoin,
        bankerSurplusCoin := settlement.bankerGameCoin }
      payRewards room settlement.user rewards
  | answer => (room, .refused (failText "账户余额不足" answer) "game_result_fail")

/-- `game_flow_bureau` up to its first call, from `cmd[step_flow]`. -/
def gameFlowBureau (room : Room) : Slice :=
  let room := { room with gameStep := .result, gameTime := 0 }
  match room.players with
  | none => (room, .raised .indexNil)
  | some _ => (room, .call (.flowReturn (room.banker.filter room.isPlayer)))

def flowReturnAnswered (room : Room) (user : Option Uid) (answer : Answer) : Slice :=
  match user with
  | none => (room, .raised .indexNil)
  | some user =>
      match answer with
      | .ok =>
          let room := { room with bankerSurplusCoin := room.bankerGameCoin }
          if flowAccts room = [] then (room, .done)
          else (room, .call (.flowCoin user (flowAccts room)))
      | answer => (room, .refused (failText "房间钻石不足" answer) "game_flow__fail")

def flowCoinAnswered (room : Room) (user : Uid) : Answer → Slice
  | .ok => if room.bankerType = some 1 then downBanker room user false else (room, .done)
  | answer => (room, .refused (failText "账户余额不足" answer) "game_flow_bureau_fail")

/-- `game_over`: a banker who is still there goes on to the next round. -/
def gameOver (room : Room) : Slice :=
  let room := { room with
    gameTime := 0, packets := none, betData := none, totalBetData := none, totalBetValue := none }
  match room.banker with
  | some banker =>
      if !room.isPlayer banker then (room, .raised .indexNil)
      else if banker ∈ room.offline then downBanker room banker false
      else gameStart { room with players := some [banker] } false
  | none => ({ room with players := none, gameStep := .none, gameTime := 0 }, .done)

end Settling

/-- What a handler does with the answer it waited for. `rewards` are the task rewards that the
database grants when a settlement is booked; a reward goes on whatever its answer is. -/
def resume (room : Room) (answer : Answer) (rewards : List (Uid × ℚ)) : Frame → Slice
  | .robFreeze uid coin => robFreezeAnswered room uid coin answer
  | .robCoin uid coin => robCoinAnswered room uid coin answer
  | .startFreeze => gameStartAnswered room answer
  | .down _ _ startFailed => downBankerAnswered room startFailed answer
  | .biaoFreeze uid coin => biaoFreezeAnswered room uid coin answer
  | .biaoReturn uid coin _ _ => biaoAnswered room uid coin answer
  | .biaoTopUp uid coin _ => biaoAnswered room uid coin answer
  | .resultReduce settlement => resultReduceAnswered room settlement answer
  | .resultCoin settlement => resultCoinAnswered room settlement rewards answer
  | .reward user _ _ rest => payRewards room user rest
  | .flowReturn user => flowReturnAnswered room user answer
  | .flowCoin user _ => flowCoinAnswered room user answer

end SdyServer.Hongbao
