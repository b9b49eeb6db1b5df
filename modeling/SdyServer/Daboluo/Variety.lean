import SdyServer.Daboluo.SpecialShown
import SdyServer.Lib.Weights

/-!
# Special hands with jokers

`checkSpecialVariety` looks for the patterns of special hands in a hand with jokers. Each pattern
counts in its own way what the jokers have to make up for. The order in which `pairs` visits a table
is a parameter.
-/

namespace SdyServer.Daboluo

open Blocks

section Code

/-- What the loop over the values counts. -/
structure JokerCounts where
  useSpNum : Int
  sanNum : Nat := 0
  realDuiNum : Nat := 0
  danNum : Nat := 0
  ssz : Bool := true
  liutong : Bool := false
  suangLiutong : Bool := false
deriving DecidableEq, Repr

/-- The loop body, at a value of `n` cards. -/
def JokerCounts.visit (s : JokerCounts) (n : Nat) : JokerCounts :=
  let s :=
    if n = 1 then { s with danNum := s.danNum + 1 }
    else if n = 2 then { s with realDuiNum := s.realDuiNum + 1 }
    else if n = 3 then { s with sanNum := s.sanNum + 1 }
    else if n = 4 ∨ n = 5 then
      let s := { s with sanNum := s.sanNum + 1 }
      if (n : Int) + s.useSpNum = 6 then
        let s := if s.liutong then { s with suangLiutong := true } else { s with liutong := true }
        { s with useSpNum := s.useSpNum - (6 - n) }
      else s
    else s
  if n > 3 then { s with ssz := false } else s

/-- How many values the suit `i` lacks for a dragon. -/
def qlNeed (noVarietyCards : List Card) (i : Int) : Int :=
  13 - (keys Card.value (noVarietyCards.filter fun v => v.type = i)).length

/-- The loop over the suits, while there are jokers left for them. -/
def sthFrom : Int → List (List Card) → Bool
  | _, [] => true
  | useSpNum, v :: rest =>
      if v.length = 1 ∧ useSpNum > 1 then sthFrom (useSpNum - 2) rest
      else if v.length = 2 ∧ useSpNum > 0 then sthFrom (useSpNum - 1) rest
      else if v.length = 4 ∧ useSpNum > 0 then sthFrom (useSpNum - 1) rest
      else if v.length = 6 ∧ useSpNum > 1 then sthFrom (useSpNum - 2) rest
      else if v.length = 7 ∧ useSpNum > 0 then sthFrom (useSpNum - 1) rest
      else if v.length = 9 ∧ useSpNum > 0 then sthFrom (useSpNum - 1) rest
      else false

def jokerSth (spNum : Int) (sSameTypes : List (List Card)) : Bool :=
  if sSameTypes.length = 2 ∨ sSameTypes.length = 3 then sthFrom spNum sSameTypes
  else decide (sSameTypes.length = 1)

/-- Are there four sets of three, with `spNum` jokers? -/
def jokerStst (sanNum realDuiNum spNum : Nat) : Bool :=
  if sanNum < 4 then
    if sanNum = 2 ∧ spNum > 1 then realDuiNum = 2
    else if sanNum = 3 then (spNum > 0 ∧ realDuiNum = 1) ∨ spNum > 1
    else false
  else true

/-- `PokerUtils.checkSpecial_variety`: the special type and the hand as it is shown. -/
def checkSpecialVariety (pairs : List (List Card) → List (List Card)) (hand : List Card) :
    Lua (Option (Int × List Card)) := do
  let cards := Lua.tableSort sortDescent hand
  let _ ← Lua.elem cards 1
  let varietyCards := cards.filter fun v => v.value > 13
  let noVarietyCards := cards.filter fun v => ¬v.value > 13
  let spNum := varietyCards.length
  if spNum = 0 then checkSpecialSmall pairs cards false
  else
    match ([1, 2, 3, 4] : List Int).find? fun i => spNum - qlNeed noVarietyCards i ≥ 0 with
    | some i => return some (13, (up 1 13).map fun j => { type := i, value := j })
    | none =>
        let sSameTypes := blocks Card.type noVarietyCards
        let sSameValues := blocks Card.value noVarietyCards
        if spNum + sSameValues.length = 13 then return some (12, cards)
        let sth := jokerSth spNum (pairs sSameTypes)
        let counts :=
          ((pairs sSameValues).map List.length).foldl JokerCounts.visit { useSpNum := spNum }
        if counts.suangLiutong then return some (-2, cards)
        if counts.liutong then return some (-1, cards)
        if jokerStst counts.sanNum counts.realDuiNum spNum then return some (5, cards)
        if ¬(counts.danNum : Int) - spNum > 1 then return some (3, cards)
        let straights ← if counts.ssz then threeStraights cards else pure none
        match straights with
        | some found => return some (2, found)
        | none =>
            -- the jokers are shown once for each suit
            return if sth then some (1, (pairs sSameTypes).flatMap fun v => v ++ varietyCards) else
              none

/-- `PokerUtils.checkSpecial`. -/
def checkSpecial (pairs : List (List Card) → List (List Card)) (cards : List Card)
    (danse variety : Bool) :
    Lua (Option (Int × List Card)) :=
  if variety then checkSpecialVariety pairs cards else checkSpecialSmall pairs cards danse

end Code

section Statement

def ordinary (hand : List Card) : List Card := hand.filter fun c => ¬c.value > 13

def jokersOf (hand : List Card) : List Card := hand.filter fun c => c.value > 13

/-- A card that jokers may stand for. -/
def Ordinary (c : Card) : Prop := Plain c ∧ 1 ≤ c.value ∧ c.value ≤ 13

def IsJoker (c : Card) : Prop := c.type = 5 ∧ (c.value = 15 ∨ c.value = 16)

/-- Thirteen cards, one or two of them jokers. -/
structure JokerHand (hand : List Card) : Prop where
  length : hand.length = 13
  cards : ∀ c ∈ hand, Ordinary c ∨ IsJoker c
  one : 1 ≤ (jokersOf hand).length
  two : (jokersOf hand).length ≤ 2

/-- The hand with ordinary cards in the place of its jokers. -/
def Replaces (hand hand' : List Card) : Prop :=
  ∃ js : List Card, js.length = (jokersOf hand).length ∧ (∀ c ∈ js, Ordinary c) ∧
    hand' = ordinary hand ++ js

/-- What `checkSpecialSmall` tests for each type. -/
inductive Follows (hand : List Card) : Int → Prop
  | oneSuit (hdragon : Dragon hand) (hflush : Flush hand) : Follows hand 13
  | dragon (hdragon : Dragon hand) : Follows hand 12
  | twoSixes (hsixes : TwoSixes hand) : Follows hand (-2)
  | six (hsix : SixOfAKind hand) : Follows hand (-1)
  | trips (htrips : 4 ≤ (valueCounts hand).sanNum) : Follows hand 5
  | pairs (hpairs : 6 ≤ (valueCounts hand).duiNum) : Follows hand 3
  | straights (hstraights : SplitsIntoStraights hand) : Follows hand 2
  | flushes (hflushes : SplitsIntoFlushes hand) : Follows hand 1

/-- A returned type is followed by the hand with some cards in the place of its jokers, and no such
hand is special when nothing is returned. -/
def JokersRight (hand : List Card) (result : Option (Int × List Card)) : Prop :=
  (∀ t shown, result = some (t, shown) → ∃ hand', Replaces hand hand' ∧ Follows hand' t) ∧
    (result = none → ∀ hand' t, Replaces hand hand' → ¬Follows hand' t)

end Statement

section Condition

/-- Weights of a value by how often it occurs. -/
def once (n : Nat) : Nat := if n = 1 then 1 else 0

def twice (n : Nat) : Nat := if n = 2 then 1 else 0

def threeToFive (n : Nat) : Nat := if 3 ≤ n ∧ n ≤ 5 then 1 else 0

def odd (n : Nat) : Nat := n % 2

/-- The cards that a suit of `n` cards lacks for the next size of one or two rows. -/
def lacks (n : Nat) : Nat :=
  if n = 0 ∨ n = 3 ∨ n = 5 ∨ n = 8 ∨ n = 10 then 0
  else if n = 2 ∨ n = 4 ∨ n = 7 ∨ n = 9 then 1
  else if n = 1 ∨ n = 6 then 2
  else 3

def HasStraight (vs : List Int) : Prop := ∃ s, Falls s ∧ s ⊆ vs

/-- There is no straight without jokers, and `k` of them make one with the values of `row`, between
which there are no others; the values `rest` are left. -/
structure Fills (k : Nat) (vs row rest : List Int) : Prop where
  none : ¬HasStraight vs
  perm : (row ++ rest).Perm vs
  size : row.length + k = 5
  rising : row.Pairwise (· < ·)
  between : ∀ v ∈ vs, ∀ a ∈ row, ∀ b ∈ row, a ≤ v → v ≤ b → v ∈ row
  fits : ∃ s, Falls s ∧ s ⊆ deckValues ∧ row ⊆ s

/-- A straight without jokers and one with all of them, or two with one each, leave a straight of
three values. -/
inductive Found (k : Nat) (vs : List Int) : Prop
  | later {a rest row last : List Int} (falls : Falls a) (perm : (a ++ rest).Perm vs)
      (fills : Fills k rest row last) (third : FallsThree (desc last))
  | both {row rest row' last : List Int} (two : k = 2) (first : Fills 1 vs row rest)
      (second : Fills 1 rest row' last) (third : FallsThree (desc last))

/-- The values are among those of three straights. -/
def AmongStraights (vs : List Int) : Prop :=
  ∃ a b c, Falls a ∧ Falls b ∧ FallsThree c ∧ a ++ b ++ c ⊆ deckValues ∧ vs.Subperm (a ++ b ++ c)

/-- The tests for four sets of three and for six pairs, on the values without the jokers. -/
def AsksTrips (k : Nat) (vs : List Int) : Prop :=
  jokerStst (Weights.total threeToFive vs) (Weights.total twice vs) k = true

def AsksPairs (k : Nat) (vs : List Int) : Prop := Weights.total once vs ≤ k + 1

/-- The values `vs` and suits `ts` of a hand without its `k` jokers, on which its type is told
right. -/
inductive ToldRight (k : Nat) (vs ts : List Int) : Prop
  /-- All values differ. -/
  | differ (h : vs.Nodup)
  /-- All jokers make six of a kind. -/
  | six (v : Int) (h : vs.count v = 4 ∨ vs.count v = 5) (hsix : vs.count v + k = 6)
  /-- The test for four sets of three is passed, and no value occurs five times. -/
  | trips (h : AsksTrips k vs) (hfive : ∀ v, vs.count v ≠ 5)
  /-- The test for six pairs is passed, no value occurs more than five times and at most one five
  times, and no more values occur an odd number of times than can be made up for. -/
  | pairs (h : ¬AsksTrips k vs) (h' : AsksPairs k vs) (hmany : ∀ v, vs.count v ≤ 5)
      (hfive : ∀ u v, vs.count u = 5 → vs.count v = 5 → u = v) (hodd : Weights.total odd vs ≤ k + 1)
  /-- Neither, and the search meets three straights. -/
  | straights (h : ¬AsksTrips k vs) (h' : ¬AsksPairs k vs) (hfound : Found k vs)
  /-- Neither, and two jokers are one card each for two suits. -/
  | flushes (h : ¬AsksTrips k vs) (h' : ¬AsksPairs k vs) (hk : k = 2) (htwo : ts.dedup.length = 2)
      (hlacks : ∀ t ∈ ts, lacks (ts.count t) = 1)
  /-- Neither, and no six of a kind, no three straights and no suits of rows can be made. -/
  | none (h : ¬AsksTrips k vs) (h' : ¬AsksPairs k vs) (hsuits : ts.dedup.length ≠ 1)
      (hsix : ∀ v, vs.count v ≤ 6 → vs.count v + k < 6) (hstraights : ¬AmongStraights vs)
      (hflushes : ts.dedup.length = 2 ∨ ts.dedup.length = 3 → k < Weights.total lacks ts)

end Condition

end SdyServer.Daboluo
