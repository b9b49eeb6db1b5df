import SdyServer.Hongbao.Packet
import SdyServer.Lib.LuaTable
import SdyServer.User.Account

/-!
# The red-packet room

The fields of `g` that the handlers and the step machine of a red-packet room read and write, and
the settings they are given.
-/

namespace SdyServer.Hongbao

abbrev Uid := CustNo

/-- `step_rob` is never entered. -/
inductive GameStep where
  | none
  | biao
  | biaoEnd
  | bet
  | betEnd
  | send
  | qiang
  | waitResult
  | result
  | flow
deriving DecidableEq, Repr

/-- An entry of `g.bet_data[uid]`. -/
structure Bet where
  type : Int
  subType : Option Int
  value : Int
deriving DecidableEq, Repr

/-- An entry of `g.total_bet_data[uid]`: a bet with the coins frozen for it. -/
structure TotalBet extends Bet where
  gameCoin : ℚ
deriving DecidableEq, Repr

/-- A packet that nobody has a value for was dealt past the end of the drawn values. -/
structure Packet where
  value : Option Value
  opened : Bool := false
deriving DecidableEq, Repr

/-- The room grades: every grade without a table of its own uses the one of `"8B"`. -/
inductive GradeType where
  | g8A
  | other
deriving DecidableEq, Repr

/-- `g.room_info.gameRoomInfo`. Limits are in cents. -/
structure RoomInfo where
  gameBankerLimitAmt : Option ℚ := none
  gameBankerMaxLimitAmt : Option ℚ := none
  gameGradeType : GradeType := .other
  gameGradeTypeName : String := ""
  gameOwner : Uid := 0
deriving DecidableEq, Repr

/-- `bankerType`, `bankerCt` and `userCt` are what the database holds for the room, and `offline`
the users whose object says so. -/
structure Room where
  info : RoomInfo
  bankerType : Option Int := none
  bankerCt : Option Int := none
  userCt : Option Int := none
  offline : List Uid := []
  banker : Option Uid := none
  bankerGameCoin : ℚ := 0
  bankerSurplusCoin : ℚ := 0
  players : Option (List Uid) := none
  betData : Option (LuaTable Uid (List Bet)) := none
  totalBetData : Option (LuaTable Uid (List TotalBet)) := none
  totalBetValue : Option Int := none
  packets : Option (LuaTable Uid Packet) := none
  gameStep : GameStep := .none
  gameTime : Nat := 0

section Config

def hbBetTime : Nat := 60

def hbBiaoTime : Nat := 10

def hbWaitSend : Nat := 15

def hbQiangTime : Nat := 21

def hbWaitResultTime : Nat := 20

def hbReusltTime : Nat := 20

def hbMinimumBet : Nat := 5

def hbRobBankerPumpRate : ℚ := 50

def hbBankerWinPumpRate : ℚ := 6 / 100

def hbUserWinPumpRate : ℚ := 3 / 100

/-- `Config.hb_bet_range_config`, per grade and bet type. -/
def hbBetRangeConfig : GradeType → Int → Option (Int × Int)
  | .g8A, 1 => some (10, 5000)
  | .g8A, 2 => some (6, 50000)
  | .g8A, 3 => some (100, 50000)
  | .g8A, 4 => some (100, 10000)
  | .other, 1 => some (2, 5000)
  | .other, 2 => some (5, 50000)
  | .other, 3 => some (5, 50000)
  | .other, 4 => some (5, 10000)
  | _, _ => none

end Config

/-- `table.size(g.bet_data or {})`. -/
def Room.betPeoples (room : Room) : Nat := (room.betData.getD ∅).size

/-- Whether `g.players[uid]` is a user. -/
def Room.isPlayer (room : Room) (uid : Uid) : Bool := (room.players.getD []).contains uid

def sumGameCoin (bets : List TotalBet) : ℚ := (bets.map TotalBet.gameCoin).sum

def Room.betCoin (room : Room) (uid : Uid) : ℚ :=
  sumGameCoin (((room.totalBetData.getD ∅).get uid).getD [])

def Room.bankerCoin (room : Room) (uid : Uid) : ℚ :=
  if room.banker = some uid then room.bankerGameCoin else 0

end SdyServer.Hongbao
