import SdyServer.Daboluo.Score

/-!
# Scoring a round of thirteen cards

The game of thirteen cards keeps the cards, the submissions and the comparisons of the three-row
game. A sweep doubles the score of the pair instead of adding to it. A home run, a sweep of
everybody at a full table, doubles once more: the winner's side in `calculate_score`, the losers'
side in the compare step.
-/

namespace SdyServer.Poker

open Daboluo (Uid Seat Dealt CurCards Totals Scores PairTally bump danseRank rowStart copy meets
  specialScore getSpecialScoreSmall)

structure RoomInfo where
  danse : Bool := false
  minCount : Nat := 4
  roomCoin : Int := 0
  isPrivate : Bool := false
deriving DecidableEq, Repr

structure User where
  id : Uid
  seat : Option Seat := none
  isRobot : Bool := false
  forceQuit : Bool := false
deriving DecidableEq, Repr

/-- `Config.step_*`. -/
inductive Step where
  | none
  | fee
  | dealCard
  | compare
  | over
deriving DecidableEq, Repr

/-- The fields of `g` that the game reads and writes. `dyj` is `Config.channel == 'dyj'`. -/
structure Room where
  roomInfo : RoomInfo
  dyj : Bool := false
  gameStep : Step := .none
  gameTime : Nat := 0
  clientTime : Option Nat := none
  users : LuaTable Uid User := ∅
  seat : LuaTable Seat Uid := ∅
  cards : LuaTable Uid Dealt := ∅
  curCards : LuaTable Uid CurCards := ∅
  banker : Option Uid := none
  scores : Option Scores := none

/-- `PokerUtils.getNomalScore`: what a row of type `com` earns besides its point. -/
def getNomalScore (dyj : Bool) (pos : Nat) (com : Int) (danse : Bool) : Option Int :=
  if pos = 3 ∧ (com = 4 ∨ com = 11) then some 2
  else if pos = 2 ∧ (com = 7 ∨ com = 13) then some 1
  else if com = 8 ∧ pos = 2 then some (if danse then if dyj then 9 else 19 else 7)
  else if com = 8 ∧ pos = 1 then some (if danse then if dyj then 7 else 9 else 3)
  else if com = 9 ∧ pos = 2 then some 9
  else if com = 9 ∧ pos = 1 then some 4
  else if com = 10 ∧ pos = 2 then some (if danse then if dyj then 31 else 39 else 19)
  else if com = 10 ∧ pos = 1 then some (if danse then if dyj then 15 else 19 else 9)
  else none

/-- The local function `add_score`. -/
def addScore (dyj danse : Bool) (i : Nat) (com jj : Int) (tally : PairTally) : PairTally :=
  let scoreIndex := (4 - i) * 2 - 1
  let scoreArr := bump tally.scoreArr scoreIndex jj
  let totalScore := tally.totalScore + jj
  match getNomalScore dyj i com danse with
  | some value =>
      { tally with
        scoreArr := bump scoreArr (scoreIndex + 1) (value * jj)
        totalScore := totalScore + value * jj }
  | none => { tally with scoreArr, totalScore }

/-- One row of `compare_score`. -/
def compareRow (dyj danse : Bool) (fromCard toCard : CurCards) (tally : PairTally) (i : Nat) :
    Lua PairTally := do
  let fromType := Lua.nth (← Lua.need .indexNil fromCard.cType) i
  let toType := Lua.nth (← Lua.need .indexNil toCard.cType) i
  if fromType ≠ toType then
    let t1 ← Lua.need .compareNil fromType
    let t2 ← Lua.need .compareNil toType
    let type1 := if danse then danseRank t1 else t1
    let type2 := if danse then danseRank t2 else t2
    if type1 > type2 then return { addScore dyj danse i t1 1 tally with swated := false }
    else if type1 < type2 then return { addScore dyj danse i t2 (-1) tally with swat := false }
    else return tally
  else
    let com ← Lua.need .concatNil fromType
    let cardType := if com = 11 then 4 else com
    let res ← match Daboluo.compare cardType with
      | some fn => fn (rowStart i) (copy fromCard.cards) (copy toCard.cards)
      | none => pure none
    match res with
    | some true => return { addScore dyj danse i com 1 tally with swated := false }
    | some false => return { addScore dyj danse i com (-1) tally with swat := false }
    | none => return { tally with swat := false, swated := false }

/-- `compare_score`: the score of `fromCard` against `toCard`, row by row. -/
def compareScore (dyj danse : Bool) (fromCard toCard : CurCards) : Lua PairTally :=
  [1, 2, 3].foldlM (compareRow dyj danse fromCard toCard) PairTally.start

structure Tally where
  userScores : LuaTable Seat (List Int) := ∅
  tempScore : LuaTable Seat Int := ∅
  totalScore : Int := 0
  normalAdd : Int := 0
  specialAdd : Int := 0
  curSwat : Int := 1
  peopleNum : Nat := 0
  shootLen : List (Option Seat × Seat)
  clientTime : Nat

/-- The score of a pair of ordinary hands, doubled by a sweep on either side. -/
def sweepScore (pair : PairTally) : Int :=
  let curScore := if pair.swat then pair.totalScore * 2 else pair.totalScore
  if pair.swated then curScore * 2 else curScore

/-- The body of the loop over the opponents of a player with an ordinary submission. -/
def scoreOrdinary (room : Room) (k : Uid) (v : CurCards) (tally : Tally)
    (opponent : Uid × CurCards) : Lua Tally := do
  let (kk, vv) := opponent
  let tally := { tally with peopleNum := tally.peopleNum + 1 }
  if meets room.banker k kk then
    match vv.spType with
    | none => do
        let toUserCards ← Lua.need (.assertion "to_user_cards") (room.cards.get kk)
        let pair ← compareScore room.dyj room.roomInfo.danse v vv
        let tally ←
          if pair.swat then do
            let fromUser ← Lua.need .indexNil (room.users.get k)
            pure { tally with
              clientTime := tally.clientTime + 2
              shootLen := tally.shootLen ++ [(fromUser.seat, toUserCards.seat)] }
          else pure { tally with curSwat := -1 }
        let curScore := sweepScore pair
        return { tally with
          totalScore := tally.totalScore + curScore
          normalAdd := tally.normalAdd + curScore
          userScores := tally.userScores.set toUserCards.seat (pair.scoreArr.set 6 curScore)
          tempScore := tally.tempScore.set toUserCards.seat curScore }
    | some spType => do
        let curScore ← Lua.need .arithmeticOnNil (getSpecialScoreSmall spType)
        let toUserCards ← Lua.need .indexNil (room.cards.get kk)
        return { tally with
          curSwat := -1
          totalScore := tally.totalScore - curScore
          specialAdd := tally.specialAdd - curScore
          userScores := tally.userScores.set toUserCards.seat [0, 0, 0, 0, 0, 0, -curScore] }
  else return tally

/-- The body of the loop over the opponents of a player with a special hand. -/
def scoreSpecial (room : Room) (k : Uid) (x : Int) (tally : Tally) (opponent : Uid × CurCards) :
    Lua Tally := do
  let (kk, vv) := opponent
  if meets room.banker k kk then
    let toUserCards ← Lua.need (.assertion "to_user_cards") (room.cards.get kk)
    let curScore ← specialScore x vv.spType
    return { tally with
      totalScore := tally.totalScore + curScore
      specialAdd := tally.specialAdd + curScore
      userScores := tally.userScores.set toUserCards.seat [0, 0, 0, 0, 0, 0, curScore] }
  else return tally

/-- `scores[7] = scores[7] * 2`. -/
def doubleLast (scoreArr : List Int) : List Int := scoreArr.set 6 (scoreArr.getD 6 0 * 2)

/-- The columns of the opponents in `temp_score` are doubled. -/
def doubleColumns (userScores : LuaTable Seat (List Int)) (seats : List Seat) :
    LuaTable Seat (List Int) :=
  seats.foldl (fun userScores seat =>
    match userScores.get seat with
    | some scoreArr => userScores.set seat (doubleLast scoreArr)
    | none => userScores) userScores

/-- What the outer loop of `calculate_score` carries. -/
structure Board where
  datas : LuaTable Uid (LuaTable Seat (List Int)) := ∅
  totals : LuaTable Uid Totals := ∅
  shootLen : List (Option Seat × Seat) := []
  allSwat : Option Seat := some (-1)
  clientTime : Nat

/-- One player of `calculate_score`. A home run leaves `normalAdd` as it is. -/
def scorePlayer (room : Room) (board : Board) (player : Uid × CurCards) : Lua Board := do
  let (k, v) := player
  let (tally, allSwat) ← match v.spType with
    | none => do
        let tally ← room.curCards.entries.foldlM (scoreOrdinary room k v)
          { shootLen := board.shootLen, clientTime := board.clientTime }
        if tally.curSwat = 1 ∧ tally.peopleNum = room.roomInfo.minCount ∧ tally.peopleNum ≥ 3
            ∧ room.banker = none then
          let fromUser ← Lua.need .indexNil (room.users.get k)
          pure ({ tally with
            totalScore := tally.totalScore * 2
            userScores := doubleColumns tally.userScores tally.tempScore.keys }, fromUser.seat)
        else pure (tally, board.allSwat)
    | some x => do
        let tally ← room.curCards.entries.foldlM (scoreSpecial room k x)
          { shootLen := board.shootLen, clientTime := board.clientTime + 5 }
        pure (tally, board.allSwat)
  return {
    datas := board.datas.set k tally.userScores
    totals := board.totals.set k ⟨tally.totalScore, tally.specialAdd, tally.normalAdd⟩
    shootLen := tally.shootLen
    allSwat := allSwat
    clientTime := tally.clientTime }

/-- `calculate_score`. The caller has set `g.client_time`. -/
def calculateScore (room : Room) (clientTime : Nat) : Lua (Scores × Nat) := do
  let board ← room.curCards.entries.foldlM (scorePlayer room) { clientTime }
  return (⟨board.datas, board.shootLen, board.allSwat, board.totals⟩, board.clientTime)

/-- What the compare step does to one player after a home run of the player on seat `swat`. -/
def doublePlayer (swat : Option Seat) (swatUserId : Option Uid) (scores : Scores)
    (player : Uid × LuaTable Seat (List Int)) : Lua Scores := do
  let (k, v) := player
  if swatUserId = some k then return scores
  else
    let scoreArr ← Lua.need .indexNil (swat.bind v.get)
    let score ← Lua.need .arithmeticOnNil (Lua.nth scoreArr 7)
    let totals ← Lua.need .indexNil (scores.totals.get k)
    return { scores with
      datas := scores.datas.set k (v.set (swat.getD 0) (doubleLast scoreArr))
      totals := scores.totals.set k { totals with
        totalScore := totals.totalScore + score
        normalAdd := totals.normalAdd + score } }

def doubleLosers (room : Room) (scores : Scores) : Lua Scores :=
  if scores.allSwat ≠ some (-1) then
    scores.datas.entries.foldlM
      (doublePlayer scores.allSwat (scores.allSwat.bind room.seat.get)) scores
  else .ok scores

end SdyServer.Poker
