import SdyServer.Daboluo.Auto
import SdyServer.Lib.Blocks

/-!
# Special hands

A hand of thirteen that follows one of a few patterns is not arranged. `checkSpecialSmall` looks for
them in a hand without jokers, the best one first, and shows the hand in the order of its pattern.
The order in which `pairs` visits a table is a parameter.
-/

namespace SdyServer.Daboluo

open Blocks

/-- What the loop over the values of a hand counts. -/
structure ValueCounts where
  sanNum : Nat := 0
  duiNum : Nat := 0
  ssz : Bool := true
  liutong : Bool := false
  suangLiutong : Bool := false
deriving DecidableEq, Repr

/-- The loop body, at a value of `n` cards. -/
def ValueCounts.visit (s : ValueCounts) (n : Nat) : ValueCounts :=
  let s :=
    if n = 2 then { s with duiNum := s.duiNum + 1 }
    else if n = 3 then { s with sanNum := s.sanNum + 1, duiNum := s.duiNum + 1 }
    else if n = 4 ∨ n = 5 then { s with sanNum := s.sanNum + 1, duiNum := s.duiNum + 2 }
    else if n = 6 then
      if s.liutong then { s with suangLiutong := true } else { s with liutong := true }
    else s
  if n > 3 then { s with ssz := false } else s

/-- The last three cards, high to low, are a straight. -/
def lastThree : List Card → Bool
  | [a, b, c] =>
      (a.value = b.value + 1 ∧ b.value = c.value + 1) ∨ (a.value = 13 ∧ b.value = 2 ∧ c.value = 1)
  | _ => false

/-- The loop over the second straights. -/
def secondStraight (v : Five) (arr1 : List Card) : List Five → Option (List Card)
  | [] => none
  | vv :: rest =>
      let arr := delCards (some arr1) (some vv.toList)
      if lastThree arr then some (v.toList ++ vv.toList ++ arr) else secondStraight v arr1 rest

/-- The loop over the first straights. -/
def firstStraight (cards : List Card) : List Five → Lua (Option (List Card))
  | [] => return none
  | v :: rest => do
      let arr1 := delCards (some cards) (some v.toList)
      let array1 ← shunzi arr1
      -- `shunzi` has sorted the cards it was given
      match secondStraight v (sorted arr1) array1 with
      | some found => return some found
      | none => firstStraight cards rest

def threeStraights (cards : List Card) : Lua (Option (List Card)) := do
  firstStraight (sorted cards) (← shunzi cards)

/-- The suits as they are shown, a suit of three cards last. -/
def threeFlushes (suits : List (List Card)) : List Card :=
  (suits.filter fun v => v.length ≠ 3).flatten ++
    ((suits.filter fun v => v.length = 3).getLast?.getD [])

/-- The two flags of the loop over the sorted cards: one suit, and each value one above the last. -/
def isQys (cards : List Card) (sType : Int) : Bool := cards.all fun v => v.type = sType

def isYtl (cards : List Card) : Bool :=
  (cards.zip cards.tail).all fun (p, v) => v.value = p.value + 1

/-- The suits have the sizes of rows. -/
def isSth (sSameTypes : List (List Card)) : Bool :=
  (sSameTypes.length = 2 ∨ sSameTypes.length = 3) &&
    sSameTypes.all fun v => v.length = 3 ∨ v.length = 5 ∨ v.length = 8 ∨ v.length = 10

/-- `PokerUtils.checkSpecial_small`: the special type and the hand as it is shown. -/
def checkSpecialSmall (pairs : List (List Card) → List (List Card)) (hand : List Card)
    (danse : Bool) :
    Lua (Option (Int × List Card)) := do
  let cards := Lua.tableSort sortDescent hand
  let sType := (← Lua.elem cards 1).type
  let ytl := isYtl cards
  if isQys cards sType && ytl then return some (13, cards)
  if ytl then return some (12, cards)
  let sSameTypes := blocks Card.type cards
  let sth := !danse && isSth sSameTypes
  let counts := ((blocks Card.value cards).map List.length).foldl ValueCounts.visit {}
  if counts.suangLiutong then return some (-2, cards)
  if counts.liutong then return some (-1, cards)
  if ¬counts.sanNum < 4 then return some (5, cards)
  if ¬counts.duiNum < 6 then return some (3, cards)
  let straights ← if counts.ssz then threeStraights cards else pure none
  match straights with
  | some found => return some (2, found)
  | none => return if sth then some (1, threeFlushes (pairs sSameTypes)) else none

end SdyServer.Daboluo
