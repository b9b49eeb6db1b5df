import SdyServer.Lib.LuaTable
import SdyServer.Lib.Lua
import SdyServer.Lib.Rounding
import SdyServer.User.Account

/-!
# The outcome of a pk10 round

A draw is ten numbers, dealt to two doors of five or to five doors of two. With a banker every other
door plays against his seat for its whole stake. Without one the doors play against each other: from
the highest door down, each takes from the lowest door that still has something, up to its own
stake. What a door wins or loses is then shared among the players on it.

Whole coins are Lua integers, which add exactly; they are taken below `2 ^ 53`, where a double holds
each. A share cut at cents is a double, and `round` is what becomes of a result that is not a whole
number.
-/

namespace SdyServer.Pk10

open Rounding

abbrev Uid := CustNo

/-- A `bet_type`: clients may send any integer. `%d` takes the text of one as well, which is then a
key of its own, as any integer is that no seat has. -/
abbrev Door := Int

abbrev Hao := List Char

/-- `g.room_info.gameRoomInfo.calculatedBits`: only `"72"` is told apart. -/
inductive CalculatedBits where
  | c72
  | other
deriving DecidableEq, Repr

/-- A drawn `kj`, split at its commas. -/
structure Draw where
  kjHaos : List Hao
  ten : kjHaos.length = 10
  numeric : ∀ hao ∈ kjHaos, hao ≠ [] ∧ ∀ c ∈ hao, c.isDigit
deriving DecidableEq, Repr

/-- `g.bet_door_data`: the bet of each player on each door. -/
abbrev BetDoorData := LuaTable Door (LuaTable Uid Int)

def getSeatCount (calculatedBits : CalculatedBits) : Nat :=
  10 / if calculatedBits = .c72 then 2 else 5

section Points

/-- `tonumber` of a text of digits. -/
def tonumber (hao : Hao) : Nat := hao.foldl (fun n c => 10 * n + (c.toNat - 48)) 0

def niuniu2paijiu (haos : List Hao) (type : Nat) : Nat :=
  let total := (haos.map tonumber).sum
  if total = 0 then 0
  else if total % 10 = 0 then if type = 1 then 0 else 10
  else total % 10

def getHaos (i : Nat) (kjHaos : List Hao) (type : Nat) : List Hao :=
  if type = 1 then (kjHaos.drop ((i - 1) * 2)).take 2 else (kjHaos.drop ((i - 1) * 5)).take 5

structure Info where
  door : Door
  point : Nat
  haoMax : Hao
  totalBet : Option Int
deriving DecidableEq, Repr

/-- The higher point wins, and on equal points the text that is later in the alphabet. -/
def comparePoint (a b : Info) : Bool :=
  if a.point > b.point then true
  else if a.point = b.point then decide (b.haoMax < a.haoMax)
  else false

def doorInfo (kj : Draw) (type : Nat) (totalBet : LuaTable Door Int) (i : Nat) : Info :=
  let haos := getHaos i kj.kjHaos type
  { door := i, point := niuniu2paijiu haos type,
    haoMax := (Lua.tableSort (fun a b => decide (b < a)) haos).headD [],
    totalBet := totalBet.get i }

/-- The doors `1` to `seat_count` with their points. -/
def doorInfos (calculatedBits : CalculatedBits) (totalBet : LuaTable Door Int) (kj : Draw) :
    List Info :=
  let seatCount := getSeatCount calculatedBits
  (List.range' 1 seatCount).map (doorInfo kj (if seatCount = 5 then 1 else 2) totalBet)

end Points

section Users

structure UserResult where
  coinChange : ℚ
  originalCoinChange : Option ℚ := none
  isBanker : Bool := false
deriving DecidableEq, Repr

structure Detail where
  coinChange : ℚ
  originalCoinChange : Option ℚ := none
  isBanker : Bool := false
  totalBet : Int
  door : LuaTable Door ℚ

structure Result where
  users : LuaTable Uid UserResult := ∅
  details : LuaTable Uid Detail := ∅

structure Share where
  uid : Uid
  betValue : Int
  coinChange : ℚ
deriving DecidableEq, Repr

def addUser (round : ℚ → ℚ) (users : LuaTable Uid UserResult) (share : Share) :
    LuaTable Uid UserResult :=
  users.set share.uid (match users.get share.uid with
    | some user => { user with coinChange := round (user.coinChange + share.coinChange) }
    | none => { coinChange := share.coinChange })

def addDetail (details : LuaTable Uid Detail) (coinChange : ℚ) (door : Door) (share : Share) :
    LuaTable Uid Detail :=
  details.set share.uid (match details.get share.uid with
    | some detail => { detail with
        coinChange, totalBet := detail.totalBet + share.betValue,
        door := detail.door.set door share.coinChange }
    | none => {
        coinChange, totalBet := share.betValue,
        door := (∅ : LuaTable Door ℚ).set door share.coinChange })

def Result.addShare (round : ℚ → ℚ) (door : Door) (result : Result) (share : Share) : Result :=
  let users := addUser round result.users share
  { users, details := addDetail result.details
      (((users.get share.uid).map UserResult.coinChange).getD 0) door share }

def Result.addDoor (round : ℚ → ℚ) (result : Result) (door : Door × List Share) : Result :=
  door.2.foldl (Result.addShare round door.1) result

def fillDoors (seatCount : Nat) (detail : Detail) : Detail :=
  { detail with
    door := (List.range' 1 seatCount).foldl (fun door (i : Nat) =>
      if (door.get (i : Door)).isSome then door else door.set (i : Door) 0) detail.door }

def Result.fill (seatCount : Nat) (result : Result) : Result :=
  { result with details := result.details.mapValues (fillDoors seatCount) }

end Users

section Banker

def bankerDoorChange (bankerInfo info : Info) : Int :=
  if comparePoint bankerInfo info then -info.totalBet.getD 0 else info.totalBet.getD 0

def bankerShares (coinChange : Int) (peopes : List (Uid × Int)) : List Share :=
  peopes.map fun entry =>
    ⟨entry.1, entry.2,
      if coinChange > 0 then entry.2 else if coinChange < 0 then -entry.2 else 0⟩

def peopes (betData : BetDoorData) (door : Door) : List (Uid × Int) :=
  ((betData.get door).getD ∅).entries

def bankerOutcome (betData : BetDoorData) (tmp : List Info) (bankerInfo : Info) (banker : Uid) :
    Result :=
  let doors := tmp.reverse.map fun info =>
    (info.door, bankerShares (bankerDoorChange bankerInfo info) (peopes betData info.door))
  let result := doors.foldl (Result.addDoor id) {}
  let coinChange : ℚ := -(tmp.reverse.map (bankerDoorChange bankerInfo)).sum
  let bankerDoor := (doors.filter fun door => door.2 ≠ []).foldl
    (fun (bankerDoor : LuaTable Door ℚ) door =>
      bankerDoor.set door.1 (-(door.2.map Share.coinChange).sum)) ∅
  { users := result.users.set banker { coinChange, isBanker := true },
    details := result.details.set banker
      { coinChange, isBanker := true, totalBet := 0, door := bankerDoor } }

end Banker

section Doors

/-- One door takes from the lower ones, the lowest first, as long as its own stake lasts: what it
wins, what is left of the stake, and what remains of theirs. -/
def takeLower : Int → List Int → Int × Int × List Int
  | totalBetChange, [] => (0, totalBetChange, [])
  | totalBetChange, remain :: remains =>
      if totalBetChange > 0 ∧ remain > 0 then
        if totalBetChange > remain then
          let (coinChange, rest, remains) := takeLower (totalBetChange - remain) remains
          (remain + coinChange, rest, 0 :: remains)
        else if totalBetChange < remain then
          (totalBetChange, 0, (remain - totalBetChange) :: remains)
        else (remain, 0, 0 :: remains)
      else
        let (coinChange, rest, remains) := takeLower totalBetChange remains
        (coinChange, rest, remain :: remains)

/-- The doors from the highest down, with what remains of each. A door that wins nothing loses what
the higher ones took. -/
def settleDoors : List Info → List Int → List (Info × Int)
  | info :: tmp, remain :: remains =>
      let (won, totalBetChange, lower) := takeLower (info.totalBet.getD 0) remains.reverse
      let coinChange :=
        if won = 0 then if remain = 0 then -totalBetChange else -(totalBetChange - remain) else won
      (info, coinChange) :: settleDoors tmp lower.reverse
  | _, _ => []

/-- Shares in proportion to the bets, cut to whole cents, the last player taking what is left. -/
def proportionalShares (round : ℚ → ℚ) (coinChange userTotalBet : Int) :
    ℚ → List (Uid × Int) → List Share
  | _, [] => []
  | betSum, [(uid, betValue)] => [⟨uid, betValue, round (coinChange - betSum)⟩]
  | betSum, (uid, betValue) :: peopes =>
      let part := round (coinChange * round (betValue / userTotalBet))
      let change := round (⌊round (part * 100)⌋ / 100)
      ⟨uid, betValue, change⟩ ::
        proportionalShares round coinChange userTotalBet (round (betSum + change)) peopes

/-- A door that wins more than its stake is called impossible, and stops the computation: the
assertion calls the local `type`, which is a number. -/
def doorShares (round : ℚ → ℚ) (coinChange : Int) (userTotalBet : Option Int)
    (peopes : List (Uid × Int)) : Lua (List Share) :=
  if peopes = [] then pure []
  else match userTotalBet with
    | none => throw .compareNil
    | some userTotalBet =>
        if userTotalBet = |coinChange| then
          pure (peopes.map fun entry =>
            ⟨entry.1, entry.2, if coinChange ≥ 0 then entry.2 else -entry.2⟩)
        else if userTotalBet > |coinChange| then
          pure (proportionalShares round coinChange userTotalBet 0 peopes)
        else if userTotalBet < coinChange then throw .callNumber
        else pure (peopes.map fun entry => ⟨entry.1, entry.2, 0⟩)

def doorsOutcome (round : ℚ → ℚ) (betData : BetDoorData) (tmp : List Info) : Lua Result := do
  let doors ← (settleDoors tmp (tmp.map fun info => info.totalBet.getD 0)).mapM fun door => do
    return (door.1.door, ← doorShares round door.2 door.1.totalBet (peopes betData door.1.door))
  return doors.foldl (Result.addDoor round) {}

def singleDoorOutcome (betData : BetDoorData) : Result where
  users := match betData.entries with
    | [] => ∅
    | (_, peopes) :: _ => LuaTable.ofKeys peopes.keys fun _ => { coinChange := 0 }

end Doors

/-- `g.kj_hao`: nil before the first draw, and an empty table after every round. -/
inductive KjHao where
  | nil
  | text (kj : Draw)
  | emptyTable
deriving DecidableEq, Repr

/-- The two modes of play. Without a banker a round counts from two doors on. -/
def outcome (betData : BetDoorData) (tmp : List Info) (bankerInfo : Option Info)
    (banker : Option Uid) : Lua Result :=
  match bankerInfo with
  | some bankerInfo => do
      let banker ← Lua.need .indexNil banker
      return bankerOutcome betData tmp bankerInfo banker
  | none =>
      if betData.size > 1 then doorsOutcome double betData tmp else pure (singleDoorOutcome betData)

/-- `getResult` of a draw. -/
def getDrawResult (calculatedBits : CalculatedBits) (betData : BetDoorData)
    (totalBet : LuaTable Door Int) (kj : Draw) (bankerTag : Option Door) (banker : Option Uid) :
    Lua Result := do
  let infos := doorInfos calculatedBits totalBet kj
  let result ← outcome betData
    (Lua.tableSort comparePoint (infos.filter fun info => some info.door ≠ bankerTag))
    (infos.find? fun info => some info.door = bankerTag) banker
  return result.fill (getSeatCount calculatedBits)

/-- `getResult`: splitting an empty table raises. -/
def getResult (calculatedBits : CalculatedBits) (betData : Option BetDoorData)
    (totalBet : Option (LuaTable Door Int)) (kj : KjHao) (bankerTag : Option Door)
    (banker : Option Uid) : Lua Result :=
  match kj with
  | .nil => pure {}
  | .text kj =>
      getDrawResult calculatedBits (betData.getD ∅) (totalBet.getD ∅) kj bankerTag banker
  | .emptyTable => throw .badArgument

end SdyServer.Pk10
