import SdyServer.Hongbao.Machine
import SdyServer.Hongbao.Split

/-!
# Controlled packets

With the control of a room switched on, the values of some packets are chosen: the banker's for its
point, and those of the bettors on size and parity so that they lose. What the chosen values leave
of the money is split at random among the others. When they leave nothing they are chosen once more,
and whatever is left then is used. What is left is computed in doubles, from the numbers that the
texts of the values stand for.
-/

namespace SdyServer.Hongbao.Cheat

open Rounding

section Values

/-- A whole number as it is joined to a text. -/
def numText (n : ℤ) : Value := (if n < 0 then ['-'] else []) ++ Nat.toDigits 10 n.natAbs

def getDot2 (point ge dot1 : ℤ) : ℤ :=
  if point < ge + dot1 then |ge + dot1 - 10 - point| else point - ge - dot1

/-- The index of the first weight above the rate, or of the weight that is met exactly. The loop
over the larger weights runs again for every weight below the rate. -/
def pointIndexFrom (rates : List ℤ) (rate : ℤ) : List (ℤ × ℕ) → ℕ → ℕ
  | [], point => point
  | (r1, i) :: rest, point =>
      if i = 1 ∧ rate < r1 then i
      else if r1 = rate then i
      else pointIndexFrom rates rate rest
        (((rates.zipIdx 1).find? fun r2 => 2 ≤ r2.2 ∧ rate < r2.1 ∧ rate > r1).elim point Prod.snd)

def getPointIndex (rates : List ℤ) : Roll ℕ := do
  let rate ← Roll.random 1 100
  return pointIndexFrom rates rate (rates.zipIdx 1) 0

/-- `get_normal_cow`: the digit before the point, two digits after it. -/
def getNormalCow (point : ℤ) (ge : Option ℤ) : Roll Value := do
  let random ← Roll.random 1 100
  let ge ← Roll.random (if random < 15 then 0 else 1) (ge.getD 3)
  let dot1 ← Roll.random 0 9
  if point = 10 ∧ ge = 0 ∧ dot1 = 0 then do
    let ran ← Roll.random 0 1
    if ran = 1 then do
      let ge ← Roll.random 1 3
      return numText ge ++ '.' :: (numText dot1 ++ numText (getDot2 point ge dot1))
    else do
      let dot1 ← Roll.random 1 3
      return numText ge ++ '.' :: (numText dot1 ++ numText (getDot2 point ge dot1))
  else return numText ge ++ '.' :: (numText dot1 ++ numText (getDot2 point ge dot1))

def drawFrom (cfg : List String) (lo hi : ℤ) : Roll (Option Value) := do
  let index ← Roll.random lo hi
  return (atInt cfg index).map String.toList

def getSpcialPoint : ℕ → Roll (Option Value)
  | 11 => drawFrom getJinniuCfg 1 getJinniuCfg.length
  | 12 => drawFrom getDuiziCfg 1 getDuiziCfg.length
  | 13 => drawFrom getZhengshunCfg 1 3
  | 14 => drawFrom getDaoshunCfg 6 7
  | 15 => drawFrom getManniuCfg 1 3
  | 16 => drawFrom getBaoziCfg 1 3
  | _ => pure none

/-- A class without any of the points that the bets cover, and zero where there is none. -/
def getIgnoreDxdsTag (bets : List Bet) : Roll ℕ := do
  let tags ← (ignoreDxdsTags bets : Lua (List ℕ))
  if tags = [] then return 0
  let index ← Roll.random 1 tags.length
  return (atInt tags index).getD 0

def getDxdsValue (tag : ℕ) (ge : Option ℤ) : Roll (Option Value) := do
  match dxdsCfg tag with
  | none => return none
  | some points =>
      let index ← Roll.random 1 points.length
      let point := (atInt points index).getD 0
      if tag = 9 then getSpcialPoint point
      else return some (← getNormalCow point (some (ge.getD 1)))

/-- The running sums of a list of weights. -/
def runningSums (weights : List ℤ) : List ℤ := (weights.scanl (· + ·) 0).tail

/-- `baner_event`. The rate that is drawn is overwritten. -/
def banerEvent (ge : Option ℤ) : Roll (Option Value) := do
  let _ ← Roll.random 1 100
  let rate : ℤ := 100
  let nRate := runningSums [15, 15, 17, 17, 18, 18]
  let mRate := runningSums [14, 14, 12, 12, 10, 10, 8, 8, 6, 6]
  if rate ≥ 45 then do
    let point := (← getPointIndex mRate) + nRate.length
    if point > 10 then getSpcialPoint point
    else return some (← getNormalCow point ge)
  else do
    let point ← getPointIndex nRate
    return some (← getNormalCow point ge)

/-- One turn of the loop over the bettors. -/
def useEventTurn (ge : Option ℤ) (chosen : LuaTable Uid Value × ℚ) (entry : Uid × List Bet) :
    Roll (LuaTable Uid Value × ℚ) :=
  match entry.2.head? with
  | none => pure chosen
  | some bet =>
      if bet.type = 3 then do
        let tag ← getIgnoreDxdsTag entry.2
        if tag > 0 then do
          let value ← getDxdsValue tag ge
          let value ← (Lua.need .arithmeticOnNil value : Lua Value)
          let coin ← (Lua.need .arithmeticOnNil (tonumber value) : Lua ℚ)
          return (chosen.1.set entry.1 value, double (chosen.2 + double coin))
        else return chosen
      else pure chosen

/-- `use_event`: the chosen packets and their sum. The rate that is drawn is overwritten. -/
def useEvent (betData : LuaTable Uid (List Bet)) (ge : Option ℤ) :
    Roll (LuaTable Uid Value × ℚ) := do
  let _ ← Roll.random 1 100
  betData.entries.foldlM (useEventTurn ge) (∅, 0)

end Values

section Packets

def newPacket (value : Option Value) : Packet := { value, opened := false }

/-- The players without a packet get the drawn values in turn. -/
def fillUp : List Uid → LuaTable Uid Packet → List Value → LuaTable Uid Packet
  | [], packets, _ => packets
  | uid :: players, packets, redpackets =>
      if (packets.get uid).isSome then fillUp players packets redpackets
      else fillUp players (packets.set uid (newPacket redpackets.head?)) redpackets.tail

/-- There is nothing to index when no packets were drawn at all. -/
def fillPlayers (players : List Uid) (packets : LuaTable Uid Packet) :
    Option (List Value) → Lua (LuaTable Uid Packet)
  | some redpackets => pure (fillUp players packets redpackets)
  | none =>
      if players.all fun uid => (packets.get uid).isSome then pure packets else throw .indexNil

def addPackets (packets : LuaTable Uid Packet) (users : LuaTable Uid Value) : LuaTable Uid Packet :=
  users.entries.foldl (fun packets entry => packets.set entry.1 (newPacket (some entry.2))) packets

/-- The values for a round of bets on size and parity alone, and what they leave. -/
def pickUsers (betData : LuaTable Uid (List Bet)) (money : ℤ) : Roll (LuaTable Uid Value × ℚ) := do
  let first ← useEvent betData (some 2)
  if double (money - first.2) ≤ 0 then do
    let second ← useEvent betData none
    return (second.1, double (money - second.2))
  else return (first.1, double (money - first.2))

def pickBanker (ge : Option ℤ) : Roll (Value × ℚ) := do
  let value ← (Lua.need .arithmeticOnNil (← banerEvent ge) : Lua Value)
  let coin ← (Lua.need .arithmeticOnNil (tonumber value) : Lua ℚ)
  return (value, double coin)

/-- The values for the banker and for the bettors on size and parity, and what they leave. -/
def pickBoth (betData : LuaTable Uid (List Bet)) (money : ℤ) :
    Roll (Value × LuaTable Uid Value × ℚ) := do
  let banker ← pickBanker (some 2)
  let users ← useEvent betData (some 2)
  if double (double (money - banker.2) - users.2) ≤ 0 then do
    let banker ← pickBanker (some 1)
    let users ← useEvent betData none
    return (banker.1, users.1, double (double (money - banker.2) - users.2))
  else return (banker.1, users.1, double (double (money - banker.2) - users.2))

/-- `cheat.assign_red_packet`. -/
def assignRedPacket (room : Room) (money : ℤ) (people : ℕ) : Roll (LuaTable Uid Packet) := do
  let betData ← (Lua.need .indexNil room.betData : Lua _)
  let players ← (Lua.need .indexNil room.players : Lua _)
  let ctBanker := room.bankerCt ≠ some 0
  let ctUser := room.userCt ≠ some 0
  if ctBanker ∧ ctUser then
    if allDxds betData then do
      let (users, off) ← pickUsers betData money
      let banker ← (Lua.need .indexNil room.banker : Lua _)
      return addPackets ((∅ : LuaTable Uid Packet).set banker (newPacket (format2 (toCents off))))
        users
    else do
      let (value, users, off) ← pickBoth betData money
      let redpackets ← randomRedPacket double off (people - users.size - 1)
      let banker ← (Lua.need .indexNil room.banker : Lua _)
      fillPlayers players
        (addPackets ((∅ : LuaTable Uid Packet).set banker (newPacket (some value))) users)
          redpackets
  else if ctBanker then do
    let (value, coin) ← pickBanker none
    let redpackets ← randomRedPacket double (double (money - coin)) (people - 1)
    let banker ← (Lua.need .indexNil room.banker : Lua _)
    fillPlayers players ((∅ : LuaTable Uid Packet).set banker (newPacket (some value))) redpackets
  else do
    let (users, cash) ← useEvent betData none
    let redpackets ← randomRedPacket double (double (money - cash)) (people - users.size)
    fillPlayers players (addPackets ∅ users) redpackets

end Packets

end SdyServer.Hongbao.Cheat
