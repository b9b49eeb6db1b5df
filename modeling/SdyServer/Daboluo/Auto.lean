import SdyServer.Daboluo.Submit

/-!
# The automatic submission

`happydoggyGroupCards` tries bottom, middle and top rows from the high types down and collects up to
six arrangements; `choicePokerAuto` takes one of the first three for a player who did not submit.
-/

namespace SdyServer.Daboluo

/-- `PokerUtils.isMessireThree`: the top row `b` does not beat the middle row `a`; `n` is the place
of their type in the generator table. -/
def isMessireThree (n : Nat) (a : Five) (b : Three) : Bool :=
  if n = 7 then !decide (a.c3.value < b.c3.value)
  else if n = 9 then
    if a.c1.value = b.c1.value then !decide (a.c3.value < b.c3.value)
    else !decide (a.c1.value < b.c1.value)
  else if n > 8 then
    if a.c1.value = b.c1.value then
      if a.c2.value = b.c2.value then !decide (a.c3.value < b.c3.value)
      else !decide (a.c2.value < b.c2.value)
    else !decide (a.c1.value < b.c1.value)
  else true

/-- An arrangement with the places of its three types in the generator tables. -/
structure Arrangement where
  i : Nat
  n : Nat
  k : Nat
  bottom : Five
  middle : Five
  top : Three
  rest : List Card
deriving DecidableEq, Repr

/-- The cards in the order they are submitted; three cards left over are appended. -/
def Arrangement.cards (arr : Arrangement) : List Card :=
  Lua.tableSort sortDescent arr.bottom.toList ++ Lua.tableSort sortDescent arr.middle.toList ++
    Lua.tableSort sortDescent arr.top.toList ++ (if arr.rest.length = 3 then arr.rest else [])

def sorted (cards : List Card) : List Card := Lua.tableSort sortRise cards

/-- The loop over the types of the top row: the first row that does not foul ends it. -/
def tryTops (i n : Nat) (bottom middle : Five) (sArr : List Card) (found : List Arrangement) :
    List Nat → List Arrangement
  | [] => found
  | k :: ks =>
      match t3Group k sArr with
      | [] => tryTops i n bottom middle sArr found ks
      | top :: _ =>
          let clash := (n = 7 ∧ k = 1) ∨ (n = 9 ∧ k = 2) ∨ (n = 10 ∧ k = 3)
          if clash ∧ isMessireThree n middle top = false then
            tryTops i n bottom middle sArr found ks
          else if found.any fun arr => arr.i = i ∧ arr.n = n ∧ arr.k = k then found
          else
            let rest := delCards (some (sorted sArr)) (some top.toList)
            found ++ [{ i, n, k, bottom, middle, top, rest }]

def tryMiddles (i n : Nat) (bottom : Five) (sArr : List Card) (found : List Arrangement) :
    List Five → Lua (List Arrangement)
  | [] => return found
  | middle :: rest => do
      if found.length > 5 then return found
      -- rows of one type: the bottom row has to be strictly better
      let fits ← if i = n then do
          pure ((← isMessireFive (11 - i) bottom.toList middle.toList) == some false)
        else pure true
      if fits then
        if i = 1 ∧ n = 3 ∧ bottom.c1.value = 8 then return found
        let sArr' := delCards (some (sorted sArr)) (some middle.toList)
        let ks := up (if n < 8 then 1 else if n < 10 then 2 else 3) 3
        tryMiddles i n bottom sArr (tryTops i n bottom middle sArr' found ks) rest
      else tryMiddles i n bottom sArr found rest

/-- The loop over the types of the middle row; a higher type than the bottom row's ends it and the
loop over the bottom rows as well. -/
def tryMiddleTypes (group : Int → Option (List Card → Lua (List Five))) (i : Nat) (bottom : Five)
    (ccArr : List Card) (found : List Arrangement) : List Nat → Lua (Bool × List Arrangement)
  | [] => return (false, found)
  | n :: ns => do
      if found.length > 5 then return (false, found)
      let sArr := delCards (some (sorted ccArr)) (some bottom.toList)
      let middles ← (← Lua.need .callNil (group n)) sArr
      if middles.length > 0 then
        if n < i then return (true, found)
        let found ← tryMiddles i n bottom sArr found middles
        tryMiddleTypes group i bottom ccArr found ns
      else tryMiddleTypes group i bottom ccArr found ns

def tryBottoms (group : Int → Option (List Card → Lua (List Five))) (i : Nat) (ccArr : List Card)
    (found : List Arrangement) : List Five → Lua (List Arrangement)
  | [] => return found
  | bottom :: rest => do
      let (breakFor, found) ← tryMiddleTypes group i bottom ccArr found (up 1 10)
      if breakFor then return found
      tryBottoms group i ccArr found rest

/-- `PokerUtils.happydoggyGroupCards`. The loops stop once six arrangements are found. -/
def happydoggyGroupCards (cardsArr : List Card) (danse : Bool) : Lua (List Arrangement) :=
  let group := if danse then tGroupDanse else tGroup
  let tryType (found : List Arrangement) (i : Nat) : Lua (List Arrangement) := do
    if found.length > 5 then return found
    tryBottoms group i cardsArr found (← (← Lua.need .callNil (group i)) cardsArr)
  (up 1 9).foldlM tryType []

def Arrangement.rank (arr : Arrangement) : Nat := arr.i + arr.n + arr.k

/-- The best of the first three arrangements; the first one on a tie. -/
def choose (first : Arrangement) (second third : Option Arrangement) : Arrangement :=
  let one := first.rank
  let two := (second.map Arrangement.rank).getD 99
  let three := (third.map Arrangement.rank).getD 99
  if two < one ∧ two < three then second.getD first
  else if three < one ∧ three < two then third.getD first
  else first

/-- The declared types of an arrangement, in the numbering of the rows. -/
def Arrangement.types (arr : Arrangement) (danse : Bool) : List Int :=
  let swap (t : Int) : Int := if danse then (if t = 9 then 8 else if t = 8 then 9 else t) else t
  [swap (11 - arr.i), swap (11 - arr.n), if arr.k = 1 then 4 else if arr.k = 3 then 1 else 2]

def getVarietyPos (cards : List Card) : List (Int × Option Int) :=
  cards.zipIdx.filterMap fun (c, i) => if c.type = 5 then some ((i : Int) + 1, c.old) else none

/-- `choice_poker_auto`: the entry recorded for a player who did not submit. -/
def choicePokerAuto (roomInfo : RoomInfo) (dealt : Dealt) : Lua CurCards := do
  match dealt.spType with
  | some spType => return { spType := some spType }
  | none =>
      let runResult ← happydoggyGroupCards dealt.userCard roomInfo.danse
      let first ← Lua.elem runResult 1
      let best := choose first (Lua.nth runResult 2) (Lua.nth runResult 3)
      let temp := best.cards
      return {
        cType := some (best.types roomInfo.danse)
        cards := some temp
        varietyPos := if roomInfo.variety then some (getVarietyPos temp) else none
        leftCard := if roomInfo.cardNum > 13 then
          some (cardsEncode (delCards (some dealt.userCard) (some temp))) else none }

end SdyServer.Daboluo
