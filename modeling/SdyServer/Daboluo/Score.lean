import SdyServer.Daboluo.Compare
import SdyServer.Daboluo.Room

/-!
# Scoring a round

Every player is scored against every other one by a run of the loop of his own, so a pair is scored
twice, once from each side.
-/

namespace SdyServer.Daboluo

def getSpecialScoreSmall (t : Int) : Option Int :=
  if t = -1 then some 20
  else if t = -2 then some 100
  else if t = 12 then some 52
  else if t = 13 then some 108
  else if 1 ≤ t ∧ t ≤ 11 then some 6
  else none

def getTopValue (v1 v2 v3 : Int) : Int := if v1 = v2 ∨ v1 = v3 then v1 else v2

/-- `PokerUtils.getNomalScore`: the bonus of a winning row. The room's `danse` is passed and not
used; the top row's cards are read whatever its type. -/
def getNomalScore (pos : Nat) (com : Int) (_danse : Bool) (cards : List Card) : Lua (Option Int) :=
  if pos = 1 then
    return match com with
      | 5 => some 2
      | 6 => some 4
      | 7 => some 6
      | 8 => some 10
      | 9 => some 15
      | 99 => some 25
      | _ => none
  else if pos = 2 then
    return match com with
      | 4 => some 2
      | 11 => some 2
      | 5 => some 4
      | 6 => some 8
      | 7 => some 12
      | 8 => some 20
      | 9 => some 30
      | 99 => some 50
      | _ => none
  else if pos = 3 then do
    let topValue := getTopValue (← valueAt cards 11) (← valueAt cards 12) (← valueAt cards 13)
    if com = 2 then
      return if 6 ≤ topValue ∧ topValue ≤ 13 then some (topValue - 4) else none
    else if com = 4 then
      return if 1 ≤ topValue ∧ topValue ≤ 13 then some (topValue + 9) else none
    else return none
  else return none

/-- What the loop of `compare_score` carries over the three rows. -/
structure PairTally where
  scoreArr : List Int
  totalScore : Int
  swat : Bool
  swated : Bool
deriving DecidableEq, Repr

def PairTally.start : PairTally := ⟨[0, 0, 0, 0, 0, 0, 0], 0, true, true⟩

/-- `score_arr[i] = score_arr[i] + x`. -/
def bump (scoreArr : List Int) (i : Nat) (x : Int) : List Int :=
  scoreArr.set (i - 1) (scoreArr.getD (i - 1) 0 + x)

/-- The local function `add_score`; a factor that was not passed is nil. -/
def addScore (danse : Bool) (i : Nat) (cards : List Card) (com : Int) (jj : Option Int)
    (tally : PairTally) : Lua PairTally := do
  let scoreIndex := (4 - i) * 2 - 1
  let jj ← Lua.need .arithmeticOnNil jj
  let scoreArr := bump tally.scoreArr scoreIndex jj
  let totalScore := tally.totalScore + jj
  match ← getNomalScore i com danse cards with
  | some value =>
      return { tally with
        scoreArr := bump scoreArr (scoreIndex + 1) (value * jj)
        totalScore := totalScore + value * jj }
  | none => return { tally with scoreArr, totalScore }

/-- In a one-suit room four of a kind and the straight flush change places. -/
def danseRank (t : Int) : Int := if t = 8 then 9 else if t = 9 then 8 else t

/-- Where row `i` starts: 1 bottom, 2 middle, 3 top. -/
def rowStart (i : Nat) : Nat := if i = 1 then 1 else if i = 2 then 6 else 11

/-- One row of `compare_score`. -/
def compareRow (danse : Bool) (fromCard toCard : CurCards) (tally : PairTally) (i : Nat) :
    Lua PairTally := do
  let fromType := Lua.nth (← Lua.need .indexNil fromCard.cType) i
  let toType := Lua.nth (← Lua.need .indexNil toCard.cType) i
  if fromType ≠ toType then
    if danse then
      let type1 ← Lua.need .compareNil (fromType.map danseRank)
      let type2 ← Lua.need .compareNil (toType.map danseRank)
      -- both calls leave out the cards, so the type lands in `cards`, 1 in `com` and nil in `jj`
      if type1 > type2 then
        return { (← addScore danse i [] 1 none tally) with swated := false }
      else if type1 < type2 then
        return { (← addScore danse i [] (-1) none tally) with swat := false }
      else return tally
    else
      let t1 ← Lua.need .compareNil fromType
      let t2 ← Lua.need .compareNil toType
      if t1 > t2 then
        return { (← addScore danse i (copy fromCard.cards) t1 (some 1) tally) with swated := false }
      else if t1 < t2 then
        return { (← addScore danse i (copy toCard.cards) t2 (some (-1)) tally) with swat := false }
      else return tally
  else
    let com ← Lua.need .concatNil fromType
    let cardType := if com = 11 then 4 else com
    let res ← match compare cardType with
      | some fn => fn (rowStart i) (copy fromCard.cards) (copy toCard.cards)
      | none => pure none
    match res with
    | some true =>
        return { (← addScore danse i (copy fromCard.cards) com (some 1) tally) with swated :=
          false }
    | some false =>
        return { (← addScore danse i (copy toCard.cards) com (some (-1)) tally) with swat := false }
    | none => return { tally with swat := false, swated := false }

/-- `compare_score`: the score of `fromCard` against `toCard`, row by row. -/
def compareScore (danse : Bool) (fromCard toCard : CurCards) : Lua PairTally :=
  [1, 2, 3].foldlM (compareRow danse fromCard toCard) PairTally.start

structure Tally where
  userScores : LuaTable Seat (List Int) := ∅
  totalScore : Int := 0
  normalAdd : Int := 0
  specialAdd : Int := 0
  curSwat : Int := 1
  peopleNum : Nat := 0
  shootLen : List (Option Seat × Seat)
  clientTime : Nat

/-- Two players meet: everyone meets everyone, or only the banker when there is one. -/
def meets (banker : Option Uid) (k kk : Uid) : Bool :=
  kk ≠ k && (banker == none || banker == some kk || banker == some k)

/-- The body of the loop over the opponents of a player with an ordinary submission. -/
def scoreOrdinary (room : Room) (cards : LuaTable Uid Dealt) (k : Uid) (v : CurCards)
    (tally : Tally) (opponent : Uid × CurCards) : Lua Tally := do
  let (kk, vv) := opponent
  let tally := { tally with peopleNum := tally.peopleNum + 1 }
  if meets room.banker k kk then
    match vv.spType with
    | none => do
        let toUserCards ← Lua.need (.assertion "to_user_cards") (cards.get kk)
        let pair ← compareScore room.roomInfo.danse v vv
        let tally ←
          if pair.swat then do
            let fromUser ← Lua.need .indexNil (room.users.get k)
            pure { tally with
              clientTime := tally.clientTime + 2
              shootLen := tally.shootLen ++ [(fromUser.seat, toUserCards.seat)] }
          else pure { tally with curSwat := -1 }
        let curScore :=
          pair.totalScore + (if pair.swat then 3 else 0) - (if pair.swated then 3 else 0)
        return { tally with
          totalScore := tally.totalScore + curScore
          normalAdd := tally.normalAdd + curScore
          userScores := tally.userScores.set toUserCards.seat (pair.scoreArr.set 6 curScore) }
    | some spType => do
        let curScore ← Lua.need .arithmeticOnNil (getSpecialScoreSmall spType)
        let toUserCards ← Lua.need .indexNil (cards.get kk)
        return { tally with
          curSwat := -1
          totalScore := tally.totalScore - curScore
          specialAdd := tally.specialAdd - curScore
          userScores := tally.userScores.set toUserCards.seat [0, 0, 0, 0, 0, 0, -curScore] }
  else return tally

/-- The score of the special hand `x` against the submission with special type `y?`. -/
def specialScore (x : Int) (y? : Option Int) : Lua Int := do
  match y? with
  | none => Lua.need .arithmeticOnNil (getSpecialScoreSmall x)
  | some y =>
      if x = y then
        -- the six-of-a-kind tie-break reads the global `PokerUtils`, which is nil here
        if x < 0 then throw .indexNil else return 0
      else if x ≥ 12 ∧ x > y then Lua.need .arithmeticOnNil (getSpecialScoreSmall x)
      else if x > 0 ∧ y < 0 then return -(← Lua.need .arithmeticOnNil (getSpecialScoreSmall y))
      else if x < 0 ∧ x < y then Lua.need .arithmeticOnNil (getSpecialScoreSmall x)
      else if y ≥ 12 ∧ y > x then return -(← Lua.need .arithmeticOnNil (getSpecialScoreSmall y))
      else if y > 0 ∧ x < 0 then Lua.need .arithmeticOnNil (getSpecialScoreSmall x)
      else if y < 0 ∧ y < x then return -(← Lua.need .arithmeticOnNil (getSpecialScoreSmall y))
      else return 0

/-- The body of the loop over the opponents of a player with a special hand. -/
def scoreSpecial (room : Room) (cards : LuaTable Uid Dealt) (k : Uid) (x : Int)
    (tally : Tally) (opponent : Uid × CurCards) : Lua Tally := do
  let (kk, vv) := opponent
  if meets room.banker k kk then
    let toUserCards ← Lua.need (.assertion "to_user_cards") (cards.get kk)
    let curScore ← specialScore x vv.spType
    return { tally with
      totalScore := tally.totalScore + curScore
      specialAdd := tally.specialAdd + curScore
      userScores := tally.userScores.set toUserCards.seat [0, 0, 0, 0, 0, 0, curScore] }
  else return tally

/-- What the outer loop of `calculate_score` carries. -/
structure Board where
  datas : LuaTable Uid (LuaTable Seat (List Int)) := ∅
  totals : LuaTable Uid Totals := ∅
  shootLen : List (Option Seat × Seat) := []
  allSwat : Option Seat := some (-1)
  clientTime : Nat

/-- One player of `calculate_score`. -/
def scorePlayer (room : Room) (curCards : LuaTable Uid CurCards) (cards : LuaTable Uid Dealt)
    (board : Board) (player : Uid × CurCards) : Lua Board := do
  let (k, v) := player
  let (tally, allSwat) ← match v.spType with
    | none => do
        let tally ← curCards.entries.foldlM (scoreOrdinary room cards k v)
          { shootLen := board.shootLen, clientTime := board.clientTime }
        if tally.curSwat = 1 ∧ tally.peopleNum = room.roomInfo.minCount ∧ tally.peopleNum ≥ 3
            ∧ room.banker = none then
          let fromUser ← Lua.need .indexNil (room.users.get k)
          pure (tally, fromUser.seat)
        else pure (tally, board.allSwat)
    | some x => do
        let tally ← curCards.entries.foldlM (scoreSpecial room cards k x)
          { shootLen := board.shootLen, clientTime := board.clientTime + 5 }
        pure (tally, board.allSwat)
  return {
    datas := board.datas.set k tally.userScores
    totals := board.totals.set k ⟨tally.totalScore, tally.specialAdd, tally.normalAdd⟩
    shootLen := tally.shootLen
    allSwat := allSwat
    clientTime := tally.clientTime }

/-- `calculate_score`. The caller has set `g.client_time`. -/
def calculateScore (room : Room) (clientTime : Nat) : Lua (Scores × Nat) := do
  let curCards ← Lua.need .callNil room.curCards
  let cards := room.cards.getD ∅
  let board ← curCards.entries.foldlM (scorePlayer room curCards cards) { clientTime }
  return (⟨board.datas, board.shootLen, board.allSwat, board.totals⟩, board.clientTime)

end SdyServer.Daboluo
