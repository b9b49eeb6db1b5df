import SdyServer.Hongbao.Average
import SdyServer.Hongbao.Room
import SdyServer.Lib.Run

/-!
# Winning streaks

After a round the row of every user in its result counts his streak up or ends it, and the streaks
of the users that did not bet are ended together. A streak of six rounds or more is rewarded when it
ends, from a table that stops at twenty. The ids of its rounds are kept in a column of 1024
characters: a longer text is refused or cut off, as the mode of the database has it.
-/

namespace SdyServer.Hongbao.Streaks

section Rows

/-- A row of `t_ct_hb_room_user`. -/
structure RoomUser where
  winningSteakCount : Nat := 0
  winningSteakRoundIds : List Char := []
deriving DecidableEq, Repr

/-- An entry of the result of a round. -/
structure BetResult where
  coinChange : ℚ
  isBanker : Bool
  betType : Int
  totalBetValue : ℚ
deriving DecidableEq, Repr

/-- What is settled: `g.roundid` and the result. -/
structure Round where
  roundId : Nat
  result : LuaTable Uid BetResult

/-- A row of `t_ct_hb_result`. -/
structure SavedResult where
  uid : Uid
  roundId : Nat
  row : ResultRow

/-- A streak that was settled, with the coins that were returned for it. -/
structure Reward where
  uid : Uid
  winCount : Nat
  coin : Int
deriving DecidableEq, Repr

structure Db where
  roomUsers : LuaTable Uid RoomUser := ∅
  results : List SavedResult := []
  rewards : List Reward := []

/-- A round id as it is written into a statement. -/
def roundText (roundId : Nat) : List Char := Nat.toDigits 10 roundId

/-- The ids in a column. -/
def idsOf (ids : List Char) : List (List Char) := if ids = [] then [] else ids.splitOn ','

/-- The ids with that of the round after them. -/
def nextIds (ids : List Char) (roundId : Nat) : List Char :=
  if ids = [] then roundText roundId else ids ++ ',' :: roundText roundId

def idsWidth : Nat := 1024

end Rows

section Settling

/-- `handleRoomUser`: a user without a row is given one. -/
def handleRoomUser (db : Db) (uid : Uid) : Db :=
  if (db.roomUsers.get uid).isSome then db else { db with roomUsers := db.roomUsers.set uid {} }

def addResultLog (db : Db) (round : Round) : Db :=
  { db with results := db.results ++ round.result.entries.map fun entry =>
      ⟨entry.1, round.roundId, ⟨entry.2.betType, entry.2.totalBetValue⟩⟩ }

/-- `SELECT * FROM t_ct_hb_result WHERE uid=%s and room_id=%s and round_id IN(%s)`. -/
def selectResults (db : Db) (uid : Uid) (ids : List Char) : List ResultRow :=
  (db.results.filter fun saved => saved.uid = uid ∧ roundText saved.roundId ∈ ids.splitOn ',').map
    SavedResult.row

/-- `Config.hb_winning_streak_config`. -/
def hbWinningStreakConfig (winCount : Nat) : Option (Int × Int) :=
  [(6, 666, 1111), (7, 1333, 2222), (8, 1999, 3333), (9, 2666, 4444), (10, 3333, 5555),
    (11, 3999, 6666),
    (12, 4666, 7777), (13, 5333, 8888), (14, 5999, 9999), (15, 6666, 11111), (16, 7333, 12222),
    (17, 7999, 13333), (18, 8666, 14444), (19, 9333, 15555), (20, 9999, 16666)].lookup winCount

/-- The coins for a streak. -/
def streakCoin (average : ℚ) (winCount : Nat) : Lua Int :=
  if average < 50 then .ok 0
  else do
    let config ← Lua.need .indexNil (hbWinningStreakConfig winCount)
    return if average < 100 then config.1 else config.2

/-- `WinningStreakResult`, with what it settles. -/
def winningStreakResult (db : Db) (uid : Uid) (userInfo : RoomUser) : Lua (Option Reward) :=
  if userInfo.winningSteakCount ≥ 6 then
    let res := selectResults db uid userInfo.winningSteakRoundIds
    if res.isEmpty then .ok none
    else do
      let coin ← streakCoin (winningStreakAverage res userInfo.winningSteakCount)
        userInfo.winningSteakCount
      return some ⟨uid, userInfo.winningSteakCount, coin⟩
  else .ok none

/-- The streak that is settled is written down, where it does not raise. -/
def settleStreak (db : Db) (entry : Uid × RoomUser) : Db × Option LuaError :=
  match winningStreakResult db entry.1 entry.2 with
  | .ok reward => ({ db with rewards := db.rewards ++ reward.toList }, none)
  | .error e => (db, some e)

/-- The update of a row. Ids that do not fit are refused in strict mode and cut off otherwise. -/
def updateStreak (strict : Bool) (db : Db) (uid : Uid) (user : RoomUser) : Db :=
  if user.winningSteakRoundIds.length ≤
    idsWidth then { db with roomUsers := db.roomUsers.set uid user }
  else if strict then db
  else
    let cut := { user with winningSteakRoundIds := user.winningSteakRoundIds.take idsWidth }
    { db with roomUsers := db.roomUsers.set uid cut }

/-- He has bet and won. -/
def BetResult.won (user : BetResult) : Bool := decide (user.coinChange > 0) && !user.isBanker

def handleUserWinningStreak (strict : Bool) (roundId : Nat) (db : Db) (entry : Uid × BetResult) :
    Db × Option LuaError :=
  match db.roomUsers.get entry.1 with
  | none => (db, some .indexNil)
  | some roomUser =>
      if entry.2.won then
        (updateStreak strict db entry.1
          ⟨roomUser.winningSteakCount + 1, nextIds roomUser.winningSteakRoundIds roundId⟩, none)
      else
        let settled := settleStreak db (entry.1, roomUser)
        match settled.2 with
        | none => (updateStreak strict settled.1 entry.1 ⟨0, []⟩, none)
        | some e => (settled.1, some e)

/-- The users in `bet_user_ids`. -/
def Round.bettors (round : Round) : List Uid :=
  (round.result.entries.filter fun entry => !entry.2.isBanker).map Prod.fst

/-- `get_room_userinfos`. -/
def getRoomUserinfos (db : Db) (userIds : List Uid) : List (Uid × RoomUser) :=
  db.roomUsers.entries.filter fun entry => entry.2.winningSteakCount > 0 ∧ entry.1 ∉ userIds

/-- The statement that ends the streaks of all others. -/
def resetOthers (db : Db) (userIds : List Uid) : Db :=
  { db with roomUsers := ⟨db.roomUsers.entries.map fun entry =>
      (entry.1, if entry.1 ∉ userIds then {} else entry.2), by
        simpa [Function.comp_def] using db.roomUsers.nodupKeys⟩ }

/-- `addWinningStreak`. Without a bettor the query for the others is no SQL, and the loop over its
result raises. -/
def addWinningStreak (strict : Bool) (db : Db) (round : Round) : Db × Option LuaError :=
  let handled := Lua.each (handleUserWinningStreak strict round.roundId) db round.result.entries
  match handled.2 with
  | some e => (handled.1, some e)
  | none =>
      if round.bettors = [] then (handled.1, some .badArgument)
      else
        let ended := Lua.each settleStreak handled.1 (getRoomUserinfos handled.1 round.bettors)
        match ended.2 with
        | some e => (ended.1, some e)
        | none => (resetOthers ended.1 round.bettors, none)

/-- What `game_result` does to the three tables. -/
def settleRound (strict : Bool) (db : Db) (round : Round) : Db × Option LuaError :=
  addWinningStreak strict (addResultLog db round) round

end Settling

end SdyServer.Hongbao.Streaks
