import SdyServer.Daboluo.Card

/-!
# Comparing two rows of one type

`compare t index a b` is entry `t` of the source's table `PokerUtils.compare`: both submissions hold
a row of type `t` that starts at position `index` (1 bottom, 6 middle, 11 top). The answer is `true`
when `a` wins, `false` when `b` wins and nil on a tie.
-/

namespace SdyServer.Daboluo

/-- `cards[i].value`. -/
def valueAt (cards : List Card) (i : Nat) : Lua Int := do
  return (← Lua.elem cards i).value

/-- The positions of the row that starts at `index`, from the last one down. -/
def rowDown (index : Nat) : List Nat :=
  (List.range' index (if index = 11 then 3 else 5)).reverse

def findBigFrom (a b : List Card) : List Nat → Lua (Option Bool)
  | [] => return none
  | i :: rest => do
      let x ← valueAt a i
      let y ← valueAt b i
      if x > y then return some true
      else if x < y then return some false
      else findBigFrom a b rest

/-- `find_big`: the highest card that differs decides. The two assertions look at the start of the
whole submission, whatever the row. -/
def findBig (index : Nat) (a b : List Card) : Lua (Option Bool) := do
  unless (← valueAt a 1) ≤ (← valueAt a 2) do
    throw (.assertion "assertion failed!")
  unless (← valueAt b 1) ≤ (← valueAt b 2) do
    throw (.assertion "assertion failed!")
  findBigFrom a b (rowDown index)

/-- `x < y` on values that may be nil. -/
def lessThan (x y : Option Int) : Lua Bool := do
  return (← Lua.need .compareNil x) < (← Lua.need .compareNil y)

/-- The values of a row that occur at least twice, in the order met, and the values left over. -/
def splitPairs : List Int → List Int → List Int → List Int × List Int
  | [], dz, wl => (dz, wl)
  | x :: rest, dz, wl =>
      if rest.head? = some x ∨ dz.getLast? = some x then splitPairs rest (dz ++ [x]) wl
      else splitPairs rest dz (wl ++ [x])

/-- The first difference of two value lists decides, from the first position on. -/
def firstLess : List Int → List Int → Option Bool
  | x :: xs, y :: ys => if x = y then firstLess xs ys else some (x < y)
  | _, _ => none

/-- `PokerUtils.isMessireFive`: does row `b` beat row `a`, both of type `i`? It answers nil on a tie
for the types compared card by card (1, 5 and 9), and only for those. Every caller passes rows of
five cards. -/
def isMessireFive (i : Int) (a b : List Card) : Lua (Option Bool) := do
  let order : Card → Card → Bool :=
    if i = 6 then fun x y => x.value < y.value else fun x y => x.value > y.value
  let v := Lua.tableSort order (a.take 5)
  let s := Lua.tableSort order (b.take 5)
  if i = 10 ∨ i = 8 then
    return some ((← valueAt v 3) < (← valueAt s 3))
  else if i = 7 then
    let v1 ← valueAt v 1
    let v3 ← valueAt v 3
    let v4 ← valueAt v 4
    let v5 ← valueAt v 5
    let s1 ← valueAt s 1
    let s3 ← valueAt s 3
    let s4 ← valueAt s 4
    let s5 ← valueAt s 5
    if v3 = s3 then
      if v1 = v3 ∧ s1 = s3 then return some (v4 < s4)
      else if v1 = v3 ∧ s3 = s5 then return some (v4 < s1)
      else if v3 = v5 ∧ s1 = s3 then return some (v1 < s4)
      else if v3 = v5 ∧ s3 = s5 then return some (v1 < s1)
    return some (v3 < s3)
  else if i = 6 then
    -- `not nil` is true
    return some ((← findBig 1 v s) != some true)
  else if i = 9 ∨ i = 5 ∨ i = 1 then
    let vs ← [1, 2, 3, 4, 5].mapM (valueAt v)
    let ss ← [1, 2, 3, 4, 5].mapM (valueAt s)
    return firstLess vs ss
  else if i > 1 ∧ i < 5 then
    let vs ← [1, 2, 3, 4, 5].mapM (valueAt v)
    let ss ← [1, 2, 3, 4, 5].mapM (valueAt s)
    let (dz1, wl1) := splitPairs vs [] []
    let (dz2, wl2) := splitPairs ss [] []
    if Lua.nth dz1 1 = Lua.nth dz2 1 then
      if i = 4 then
        if Lua.nth wl1 1 = Lua.nth wl2 1 then
          return some (← lessThan (Lua.nth wl1 2) (Lua.nth wl2 2))
        return some (← lessThan (Lua.nth wl1 1) (Lua.nth wl2 1))
      else if i = 3 then
        if Lua.nth dz1 3 = Lua.nth dz2 3 then
          return some (← lessThan (Lua.nth wl1 1) (Lua.nth wl2 1))
        return some (← lessThan (Lua.nth dz1 3) (Lua.nth dz2 3))
      else
        if Lua.nth wl1 1 = Lua.nth wl2 1 then
          if Lua.nth wl1 2 = Lua.nth wl2 2 then
            return some (← lessThan (Lua.nth wl1 3) (Lua.nth wl2 3))
          return some (← lessThan (Lua.nth wl1 2) (Lua.nth wl2 2))
        return some (← lessThan (Lua.nth wl1 1) (Lua.nth wl2 1))
    else if dz1.length > 0 ∧ dz2.length > 0 then
      return some (← lessThan (Lua.nth dz1 1) (Lua.nth dz2 1))
    return some true
  else
    return some true

def compareWutong (index : Nat) (a b : List Card) : Lua (Option Bool) := do
  let x ← valueAt a (index + 2)
  let y ← valueAt b (index + 2)
  if x = y then return none else return some (x > y)

/-- A straight is compared through `isMessireFive`, which sorts the two rows itself. -/
def compareStraight (type : Int) (index : Nat) (a b : List Card) : Lua (Option Bool) := do
  let rec' ← isMessireFive type ((a.drop (index - 1)).take 5) ((b.drop (index - 1)).take 5)
  return rec'.map (!·)

def compareTonghuashun : Nat → List Card → List Card → Lua (Option Bool) := compareStraight 9

def compareSitiao : Nat → List Card → List Card → Lua (Option Bool) := compareWutong

def compareHulu (index : Nat) (a b : List Card) : Lua (Option Bool) := do
  let a3 ← valueAt a (index + 2)
  let b3 ← valueAt b (index + 2)
  if a3 = b3 then
    let a1 ← valueAt a index
    let b1 ← valueAt b index
    let a4 ← valueAt a (index + 3)
    let b4 ← valueAt b (index + 3)
    if a1 = b1 ∧ a4 = b4 then return none
    else if a1 ≠ b1 then return some (a1 > b1)
    else return some (a4 > b4)
  else return some (a3 > b3)

def compareTonghua : Nat → List Card → List Card → Lua (Option Bool) := findBig

def compareShunzi : Nat → List Card → List Card → Lua (Option Bool) := compareStraight 5

def compareSantiao (index : Nat) (a b : List Card) : Lua (Option Bool) := do
  let a3 ← valueAt a (index + 2)
  let b3 ← valueAt b (index + 2)
  if a3 = b3 then findBig index a b else return some (a3 > b3)

/-- The two pairs of a row, low and high, and its single card, found by where the single lies. -/
def twoPairs (index : Nat) (a : List Card) : Lua (Option (Int × Int × Int)) := do
  let v1 ← valueAt a index
  let v2 ← valueAt a (index + 1)
  let v3 ← valueAt a (index + 2)
  let v4 ← valueAt a (index + 3)
  let v5 ← valueAt a (index + 4)
  if v2 = v3 ∧ v4 = v5 then return some (v2, v4, v1)
  else if v1 = v2 ∧ v4 = v5 then return some (v1, v4, v3)
  else if v1 = v2 ∧ v3 = v4 then return some (v1, v3, v5)
  else return none

def compareLiangdui (index : Nat) (a b : List Card) : Lua (Option Bool) := do
  match ← twoPairs index a, ← twoPairs index b with
  | some (aDui1, aDui2, aS), some (bDui1, bDui2, bS) =>
      if aDui1 = bDui1 ∧ aDui2 = bDui2 ∧ aS = bS then return none
      else if aDui2 = bDui2 ∧ aDui1 = bDui1 then return some (aS > bS)
      else if aDui2 = bDui2 then return some (aDui1 > bDui1)
      else return some (aDui2 > bDui2)
  | _, _ => return none

def firstPair (a : List Card) : Option Int → List Nat → Lua (Option Int)
  | _, [] => return none
  | pre, i :: rest => do
      let x ← valueAt a i
      if pre = some x then return pre else firstPair a (some x) rest

def compareYidui (index : Nat) (a b : List Card) : Lua (Option Bool) := do
  let aD ← firstPair a none (rowDown index).reverse
  let bD ← firstPair b none (rowDown index).reverse
  if aD = bD then findBig index a b
  else return some (← lessThan bD aD)

def compareWulong : Nat → List Card → List Card → Lua (Option Bool) := findBig

/-- The table `PokerUtils.compare`. -/
def compare (t : Int) : Option (Nat → List Card → List Card → Lua (Option Bool)) :=
  match t with
  | 1 => some compareWulong
  | 2 => some compareYidui
  | 3 => some compareLiangdui
  | 4 => some compareSantiao
  | 5 => some compareShunzi
  | 6 => some compareTonghua
  | 7 => some compareHulu
  | 8 => some compareSitiao
  | 9 => some compareTonghuashun
  | 10 => some compareWutong
  | _ => none

end SdyServer.Daboluo
