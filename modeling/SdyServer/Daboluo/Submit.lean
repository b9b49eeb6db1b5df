import SdyServer.Daboluo.Compare
import SdyServer.Daboluo.Groups
import SdyServer.Daboluo.Room

/-!
# Submitting a hand

A player submits three rows or a special hand. `choicePokerType` checks what the client sent, and
`choicePokerAuto` arranges the cards of a player who sent nothing.
-/

namespace SdyServer.Daboluo

/-- The table `PokerUtils.tGroup`. -/
def tGroup (n : Int) : Option (List Card → Lua (List Five)) :=
  match n with
  | 1 => some wutong
  | 2 => some tonghuashun
  | 3 => some sitiao
  | 4 => some fun cards => return hulu cards
  | 5 => some tonghua
  | 6 => some shunzi
  | 7 => some fun cards => return santiaoFive cards
  | 8 => some fun cards => return liangdui cards
  | 9 => some fun cards => return yiduiFive cards
  | 10 => some fun cards => return wulongFive cards
  | _ => none

/-- The table `PokerUtils.tGroupDanse`: four of a kind above the straight flush. -/
def tGroupDanse (n : Int) : Option (List Card → Lua (List Five)) :=
  if n = 2 then tGroup 3 else if n = 3 then tGroup 2 else tGroup n

def t3Group (k : Nat) : List Card → List Three :=
  if k = 1 then santiao else if k = 2 then yiduiThree else wulongThree

/-- One row of five against the type declared for it; a row of type 1 is not looked at. -/
def checkFive (type : Option Int) (curCard : List Card) : Lua Bool := do
  let curType := 11 - (← Lua.need .arithmeticOnNil type)
  if curType = 10 then return true
  return (← (← Lua.need .callNil (tGroup curType)) curCard).length ≠ 0

def checkThree (type : Option Int) (curCard : List Card) : Lua Bool := do
  let curType := if type = some 11 ∨ type = some 4 then some 3 else type
  if curType = some 1 then return true
  let group ← Lua.need .callNil (match curType with
    | some 2 => some yiduiThree
    | some 3 => some santiao
    | _ => none)
  return (group curCard).length ≠ 0

def checkPaiType (cards : Option (List Card)) (types : Option (List Int)) : Lua Bool := do
  let types ← Lua.need .indexNil types
  let cards ← Lua.need .indexNil cards
  if ← checkThree (Lua.nth types 3) ((cards.drop 10).take 3) then
    if ← checkFive (Lua.nth types 2) ((cards.drop 5).take 5) then
      checkFive (Lua.nth types 1) (cards.take 5)
    else return false
  else return false

/-- What a client sends to `choice_poker_type`. -/
structure ChoiceMsg where
  ctype : Option (List Int) := none
  arr : Option (List Int) := none
  sptype : Option Int := none
  leftCard : Option (List Int) := none
  varietyPos : Option (List (Int × Option Int)) := none
deriving DecidableEq, Repr

inductive Reply where
  | error (code : Int) (text : String)
  | isRightPokerType (seatid : Option Seat)
deriving DecidableEq, Repr

/-- The decoded cards, each row sorted from low to high; codes past the thirteenth are dropped. -/
def sortRows (cards : List Card) : List Card :=
  Lua.tableSort sortDescent (cards.take 5) ++
    Lua.tableSort sortDescent ((cards.drop 5).take 5) ++
      Lua.tableSort sortDescent ((cards.drop 10).take 3)

def ChoiceMsg.special (data : ChoiceMsg) : Option Int :=
  if data.sptype = some 0 then none else data.sptype

def ChoiceMsg.hand (data : ChoiceMsg) : Option (List Card) :=
  data.arr.map fun arr => sortRows (cardsDecode arr)

/-- The submitted cards that are found neither among the dealt ones nor in the message's own
`left_card`. -/
def ChoiceMsg.unmatched (data : ChoiceMsg) (dealt : List Card) : List Card :=
  let resCards := delCards data.hand (some dealt)
  match data.leftCard with
  | some leftCard => delCards (some resCards) (some (cardsDecode leftCard))
  | none => resCards

/-- The checks of `choice_poker_type`: the error a message is refused with, if it is. -/
def checkChoice (room : Room) (user : User) (data : ChoiceMsg) : Lua (Option (Int × String)) := do
  let cheating : Int × String := (-99, "检测到牌型异常玩家：" ++ user.userName)
  if data.sptype = none ∧
      (data.ctype = none ∨ data.ctype.map List.length ≠ some 3 ∨ data.arr = none) then
    return some (-1, "参数有错!")
  match (← Lua.need .indexNil room.cards).get user.id with
  | none => return some (-1, "玩家没有手牌!")
  | some userCards =>
      if data.special ≠ none ∧ data.special ≠ userCards.spType then return some cheating
      if room.roomInfo.variety = false ∧ (data.unmatched userCards.userCard).length > 0 then
        return some cheating
      if data.special = none then
        if ← checkPaiType data.hand data.ctype then return none else return some cheating
      return none

def choicePokerType (room : Room) (user : User) (data : ChoiceMsg) : Lua (Room × Reply) := do
  match ← checkChoice room user data with
  | some (code, text) => return (room, .error code text)
  | none =>
      let curCards ← Lua.need .indexNil room.curCards
      let entry := (curCards.get user.id).getD {}
      let entry := { entry with
        spType := data.special
        cType := data.ctype
        cards := data.hand
        leftCard := data.leftCard
        varietyPos := data.varietyPos }
      return ({ room with curCards := some (curCards.set user.id entry) },
        .isRightPokerType user.seat)

def happydogggySequence (room : Room) (user : User) (hpArr : Option (List Int)) : Lua Room := do
  let curCards ← Lua.need .indexNil room.curCards
  let entry := (curCards.get user.id).getD {}
  return { room with curCards := some (curCards.set user.id { entry with hparr := hpArr }) }

end SdyServer.Daboluo
