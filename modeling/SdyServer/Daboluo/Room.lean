import SdyServer.Daboluo.Card
import SdyServer.Lib.LuaTable

/-!
# The room

The fields of the agent's global `g` that the three-row game reads and writes. A field the source
clears to nil is an `Option`.
-/

namespace SdyServer.Daboluo

abbrev Uid := Nat

abbrev Seat := Int

/-- `Config_daboluo.step_*`. -/
inductive Step where
  | none
  | dealCard
  | compare
  | over
  | skip
deriving DecidableEq, Repr

structure RoomInfo where
  danse : Bool := false
  variety : Bool := false
  isPrivate : Bool := false
  cardNum : Nat := 17
  maxCount : Nat := 3
  minCount : Nat := 3
deriving DecidableEq, Repr

structure User where
  id : Uid
  userName : String := ""
  seat : Option Seat := none
  isRobot : Bool := false
  offline : Bool := false
  ready : Bool := false
deriving DecidableEq, Repr

/-- An entry of `g.cards`: what a user was dealt. -/
structure Dealt where
  userCard : List Card
  spType : Option Int
  spCards : Option (List Card)
  seat : Seat
deriving DecidableEq, Repr

/-- An entry of `g.cur_cards`: what a user submitted. -/
structure CurCards where
  spType : Option Int := none
  cType : Option (List Int) := none
  cards : Option (List Card) := none
  leftCard : Option (List Int) := none
  varietyPos : Option (List (Int × Option Int)) := none
  hparr : Option (List Int) := none
deriving DecidableEq, Repr

structure Totals where
  totalScore : Int
  specialAdd : Int
  normalAdd : Int
deriving DecidableEq, Repr

/-- `g.scores`. The score array of a pair has seven entries, the last one the pair's total. -/
structure Scores where
  datas : LuaTable Uid (LuaTable Seat (List Int))
  shootLen : List (Option Seat × Seat)
  allSwat : Option Seat
  totals : LuaTable Uid Totals

structure Room where
  roomInfo : RoomInfo
  gameStep : Step := .none
  gameTime : Nat := 0
  clientTime : Option Nat := none
  users : LuaTable Uid User := ∅
  seat : LuaTable Seat Uid := ∅
  cards : Option (LuaTable Uid Dealt) := none
  curCards : Option (LuaTable Uid CurCards) := none
  banker : Option Uid := none
  scores : Option Scores := none
  realUser : Int := 0
  robotUser : Int := 0
  round : Nat := 0

end SdyServer.Daboluo
