import SdyServer.Pk10.Result

/-!
# The pk10 room

The fields of `g` that a pk10 room uses, and its handlers cut at their calls of the account service.
Robbing the seat of the banker and betting share one queue, and each of them looks at the game step
again when its turn has come. A settlement runs inside the timer, changes the banker's coins and the
result before it calls the service, and is followed by the end of the round whatever the answer.
-/

namespace SdyServer.Pk10

open Rounding

inductive GameStep where
  | none
  | betStart
  | stepBet
  | betEnd
  | waitKaijiang
  | kaijiang
  | bipai
  | result
deriving DecidableEq, Repr

structure RoomInfo where
  calculatedBits : CalculatedBits := .other
  gameOwner : Uid := 0
deriving DecidableEq, Repr

/-- An entry of `g.bet_data[uid]`. -/
structure Bet where
  type : Door
  value : Int
deriving DecidableEq, Repr

/-- The amounts that are still recorded as the text a client has sent. Adding to one makes it a
number. -/
structure Texts where
  totals : List Door := []
  bets : List (Door × Uid) := []
deriving DecidableEq, Repr

/-- `offline` are the users whose object says so, `resultTexts` the users of `g.result` whose change
is a text. -/
structure Room where
  info : RoomInfo
  offline : List Uid := []
  banker : Option Uid := none
  bankerSeat : Option Door := none
  bankerGameCoin : ℚ := 0
  bankerSurplusCoinList : Option (LuaTable Door Int) := none
  players : Option (List Uid) := none
  totalBetValueList : Option (LuaTable Door Int) := none
  betDoorData : Option BetDoorData := none
  betData : Option (LuaTable Uid (List Bet)) := none
  texts : Texts := {}
  kjHao : KjHao := .nil
  isKj : Bool := false
  round : Option Nat := some 0
  result : Option Result := none
  resultTexts : List Uid := []
  gameStep : GameStep := .none

def pkBankerWinPumpRate : ℚ := 5 / 100

def pkUserWinPumpRate : ℚ := 5 / 100

/-- `table.size(g.bet_door_data or {})`. -/
def Room.betDoors (room : Room) : Nat := (room.betDoorData.getD ∅).size

def Room.betting (room : Room) : Bool := room.gameStep = .stepBet || room.gameStep = .betStart

def Room.idle (room : Room) : Bool := room.gameStep = .none || room.gameStep = .result

inductive Frame where
  | down (uid : Uid) (coin : ℚ)
  | result (userAccts : List UserAcct)
  | resultDown (uid : Uid) (coin : ℚ)
deriving DecidableEq, Repr

def Frame.call : Frame → ServiceCall
  | .down uid coin => .operatGameResultAcct [⟨some .giveBack, coin, some uid⟩]
  | .result userAccts => .operatGameResultAcct userAccts
  | .resultDown uid coin => .operatGameResultAcct [⟨some .giveBack, coin, some uid⟩]

abbrev Slice := Room × Next Frame

section Banker

/-- `get_banker_seat` of two dice. -/
def getBankerSeat (calculatedBits : CalculatedBits) (saizi : Nat × Nat) : Door :=
  let seatCount := getSeatCount calculatedBits
  let num := (saizi.1 + saizi.2) % seatCount
  if num = 0 then seatCount else num

def getAverageBetValueList (calculatedBits : CalculatedBits) (bankerSeat : Option Door)
    (bankerCoin : ℚ) : LuaTable Door Int :=
  let canBetCount := getSeatCount calculatedBits
  LuaTable.ofKeys (((List.range' 1 canBetCount).map fun (i : Nat) => (i : Door)).filter
    fun i => some i ≠ bankerSeat) fun _ => ⌊bankerCoin / (canBetCount - 1)⌋

/-- `logic.rob_banker` after its call. -/
def robBankerAnswered (room : Room) (uid : Uid) (coin : ℚ) (saizi : Nat × Nat) : Answer → Room
  | .ok => { room with
      banker := some uid, bankerGameCoin := coin,
      players := some ((room.players.getD []).insert uid),
      bankerSeat := some (getBankerSeat room.info.calculatedBits saizi) }
  | _ => room

def downBankerAnswered (room : Room) : Answer → Room
  | .ok => { room with
      bankerGameCoin := 0, bankerSurplusCoinList := some ∅, banker := none, bankerSeat := none,
      players := none }
  | _ => room

/-- `cmd.down_banker`. -/
def downBankerCmd (room : Room) (uid : Uid) : Slice :=
  if room.banker ≠ some uid then (room, .refused "下庄失败，您不是庄家！" "down_banker_fail")
  else if !room.idle then (room, .refused "游戏中不能下庄！" "down_banker_fail")
  else (room, .call (.down uid room.bankerGameCoin))

end Banker

section Beter

/-- An amount as a client sends it: a whole number, or the text of one, which the `%d` of
`logic.beter` takes as well and which arithmetic turns into the number. What `%d` refuses raises
before any coin is asked for. -/
structure Amount where
  value : Int
  isText : Bool := false
deriving DecidableEq, Repr

/-- A bet that `cmd.betting` has handed to the queue. -/
structure BetRequest where
  uid : Uid
  betType : Option Door
  betValue : Int
  isText : Bool := false
deriving DecidableEq, Repr

/-- `cmd.betting` up to the queue. -/
def betting (room : Room) (uid : Uid) (betType : Option Door) (betValue : Option Amount) :
    Except (String × String) BetRequest :=
  if !room.betting then .error ("下注已结束", "bet_fail")
  else if room.banker = some uid then .error ("庄家不允许下注", "bet_fail")
  else match betValue with
    | none => .error ("下注失败，没有下注金额", "bet_fail")
    | some betValue => .ok { uid, betType, betValue := betValue.value, isText := betValue.isText }

def surplusOf (room : Room) (betType : Option Door) : Lua (LuaTable Door Int × Int) := do
  let list ← Lua.need .indexNil room.bankerSurplusCoinList
  let surplus ← Lua.need .arithmeticOnNil (betType.bind list.get)
  return (list, surplus)

/-- `logic.beter` up to its call. -/
def beter (room : Room) (req : BetRequest) : Room × Next BetRequest :=
  let room := { room with betData := some (room.betData.getD ∅) }
  if room.banker.isNone then (room, .call req)
  else if req.betType = room.bankerSeat then
    (room, .refused "庄家区域无法下注！" "bet_fail")
  else match surplusOf room req.betType with
    | .error error => (room, .raised error)
    | .ok (_, surplus) =>
        if surplus - req.betValue < 0 then (room, .refused "该区域下注总额已上限" "bet_fail")
        else (room, .call req)

def addTotal (totals : LuaTable Door Int) (door : Door) (betValue : Int) : LuaTable Door Int :=
  totals.set door ((totals.get door).getD 0 + betValue)

def addDoorBet (data : BetDoorData) (door : Door) (uid : Uid) (betValue : Int) : BetDoorData :=
  let people := (data.get door).getD ∅
  data.set door (people.set uid ((people.get uid).getD 0 + betValue))

/-- A text is kept as it is where it is the first amount. -/
def recordText (room : Room) (uid : Uid) (door : Door) (isText : Bool) : Texts where
  totals := room.texts.totals.filter (· ≠ door) ++
    if isText && ((room.totalBetValueList.getD ∅).get door).isNone then [door] else []
  bets := room.texts.bets.filter (· ≠ (door, uid)) ++
    if isText && ((((room.betDoorData.getD ∅).get door).getD ∅).get uid).isNone then [(door, uid)]
    else []

def recordBet (room : Room) (betData : LuaTable Uid (List Bet)) (uid : Uid) (door : Door)
    (betValue : Int) (isText : Bool) : Room :=
  { room with
    totalBetValueList := some (addTotal (room.totalBetValueList.getD ∅) door betValue),
    betDoorData := some (addDoorBet (room.betDoorData.getD ∅) door uid betValue),
    betData := some (betData.set uid (((betData.get uid).getD []) ++ [⟨door, betValue⟩])),
    texts := recordText room uid door isText }

/-- The coins left for the door are only counted while there is a banker. -/
def reduceSurplus (room : Room) (req : BetRequest) : Lua Room :=
  if room.banker.isNone then pure room
  else do
    let (list, surplus) ← surplusOf room req.betType
    let door ← Lua.need .indexNil req.betType
    return { room with bankerSurplusCoinList := some (list.set door (surplus - req.betValue)) }

/-- `logic.beter` after its call. -/
def beterAnswered (room : Room) (req : BetRequest) : Answer → Room × Next BetRequest
  | .ok =>
      match room.betData with
      | none => (room, .raised .indexNil)
      | some betData =>
          let betData := betData.set req.uid ((betData.get req.uid).getD [])
          let room := { room with betData := some betData }
          match reduceSurplus room req with
          | .error error => (room, .raised error)
          | .ok room =>
              match req.betType with
              | none =>
                  ({ room with totalBetValueList := some (room.totalBetValueList.getD ∅) },
                    .raised .indexNil)
              | some door => (recordBet room betData req.uid door req.betValue req.isText, .done)
  | answer => (room, .refused answer.dec "bet_fail")

def clearBets (room : Room) : Room :=
  { room with totalBetValueList := none, betDoorData := none, betData := none, texts := {} }

def beterStart (room : Room) : Room :=
  clearBets { room with
    bankerSurplusCoinList := if room.banker.isSome then
        some (getAverageBetValueList room.info.calculatedBits room.bankerSeat room.bankerGameCoin)
      else room.bankerSurplusCoinList }

end Beter

section Settle

def gameRoundOver (room : Room) : Room := { clearBets room with kjHao := .emptyTable }

def pumpOf (user : UserResult) : Option ℚ :=
  if user.coinChange > 0 then
    some (double (user.coinChange *
      double (if user.isBanker then pkBankerWinPumpRate else pkUserWinPumpRate)))
  else none

def settledUser (user : UserResult) : UserResult :=
  match pumpOf user with
  | some pump => { user with
      originalCoinChange := some user.coinChange,
      coinChange := double (round2 (double (user.coinChange - pump))) }
  | none => user

/-- The entry of a win or a loss. There is none for a change of zero. -/
def winLoseAccts (entry : Uid × UserResult) : List UserAcct :=
  if entry.2.coinChange > 0 then [⟨some .win, |entry.2.coinChange|, some entry.1⟩]
  else if entry.2.coinChange < 0 then [⟨some .lose, |entry.2.coinChange|, some entry.1⟩]
  else []

def pumpAccts (gameOwner : Uid) (entry : Uid × UserResult) : List UserAcct :=
  match pumpOf entry.2 with
  | some pump => [⟨some .defray, pump, some entry.1⟩, ⟨some .profit, pump, some gameOwner⟩]
  | none => []

/-- `g.bankerGameCoin` after one turn of the loop over `g.result.users`. -/
def bankerCoinAfter (coin : ℚ) (user : UserResult) : ℚ :=
  if user.isBanker ∧ user.coinChange ≠ 0 then
    double (round2 (double (coin + (settledUser user).coinChange)))
  else coin

/-- The users whose wins and losses are booked: those of `g.result`, in a round on several doors. -/
def Room.paidUsers (room : Room) : List (Uid × UserResult) :=
  match room.result with
  | some result => if room.betDoors > 1 then result.users.entries else []
  | none => []

def betBackAccts (room : Room) : List UserAcct :=
  (room.betData.getD ∅).entries.map fun entry =>
    ⟨some .giveBack, (entry.2.map fun bet => (bet.value : ℚ)).sum, some entry.1⟩

def bankerAccts (room : Room) (type : AcctType) (coin : ℚ) : List UserAcct :=
  match room.banker with
  | some banker => [⟨some type, coin, some banker⟩]
  | none => []

def Room.newBankerCoin (room : Room) : ℚ :=
  (room.paidUsers.map Prod.snd).foldl bankerCoinAfter room.bankerGameCoin

/-- The batch of `logic.result`. -/
def resultAccts (room : Room) : List UserAcct :=
  bankerAccts room .giveBack room.bankerGameCoin ++ betBackAccts room ++
    room.paidUsers.flatMap winLoseAccts ++ room.paidUsers.flatMap (pumpAccts room.info.gameOwner) ++
    bankerAccts room .freeze room.newBankerCoin

def Detail.refresh (user : UserResult) (detail : Detail) : Detail :=
  { detail with coinChange := user.coinChange, originalCoinChange := user.originalCoinChange }

/-- The details of the users take over what was left after the commission. -/
def refreshDetail (details : LuaTable Uid Detail) (entry : Uid × UserResult) :
    LuaTable Uid Detail :=
  match details.get entry.1 with
  | some detail => details.set entry.1 (detail.refresh entry.2)
  | none => details

def refreshDetails (users : LuaTable Uid UserResult) (details : LuaTable Uid Detail) :
    LuaTable Uid Detail :=
  users.entries.foldl refreshDetail details

/-- `g.result` when the service is called. -/
def Room.settledResult (room : Room) : Option Result :=
  room.result.map fun result =>
    let users := if room.betDoors > 1 then result.users.mapValues settledUser else result.users
    { users, details := refreshDetails users result.details }

/-- The end of `logic.result` after `core.handleResult`, and the end of the round. -/
def resultStored (room : Room) : Slice :=
  match room.banker with
  | none => (gameRoundOver room, .done)
  | some banker =>
      if banker ∉ room.players.getD [] then (room, .raised .indexNil)
      else if banker ∈ room.offline ∨ room.bankerGameCoin < 10000 then
        (room, .call (.resultDown banker room.bankerGameCoin))
      else (gameRoundOver room, .done)

/-- `logic.result` after its call, with the details stored at once. Storing them raises while
`g.kj_hao` is a table. -/
def resultPaid (room : Room) : Slice :=
  if room.kjHao = .emptyTable ∧ (room.result.any fun result => result.details.size ≠ 0) then
    (room, .raised .badArgument)
  else resultStored room

/-- A change that is a text cannot be compared with zero, unless its size is zero. -/
def Room.stopsAt (room : Room) (entry : Uid × UserResult) : Bool :=
  entry.1 ∈ room.resultTexts && entry.2.coinChange ≠ 0

/-- The loop over the users has raised. Those before are settled, and nothing is sent. -/
def resultStopped (room : Room) : Room :=
  let settled := room.paidUsers.takeWhile fun entry => !room.stopsAt entry
  { room with
    bankerGameCoin := (settled.map Prod.snd).foldl bankerCoinAfter room.bankerGameCoin,
    result := room.result.map fun result => { result with
      users :=
        settled.foldl (fun users entry => users.set entry.1 (settledUser entry.2)) result.users } }

/-- `cmd[pk_result]` up to its call. Without a banker and without bets there is none. -/
def result (room : Room) : Slice :=
  if room.paidUsers.any room.stopsAt then (resultStopped room, .raised .compareText)
  else
    let userAccts := resultAccts room
    let room := { room with bankerGameCoin := room.newBankerCoin, result := room.settledResult }
    if userAccts = [] then resultPaid room else (room, .call (.result userAccts))

def resultAnswered (room : Room) : Answer → Slice
  | .ok => resultPaid room
  | _ => (gameRoundOver room, .done)

def resume (room : Room) (answer : Answer) : Frame → Slice
  | .down .. => (downBankerAnswered room answer, .done)
  | .result _ => resultAnswered room answer
  | .resultDown .. => (gameRoundOver (downBankerAnswered room answer), .done)

end Settle

end SdyServer.Pk10
