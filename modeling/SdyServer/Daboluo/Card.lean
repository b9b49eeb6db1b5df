import SdyServer.Lib.Lua

/-!
# Cards

A card is a suit (`type`: 1 diamonds, 2 clubs, 3 hearts, 4 spades, 5 joker) and a value (1 is the
two, 13 the ace). A joker that stands for an ordinary card carries the suit it stands in for and the
value it was dealt with.
-/

namespace SdyServer.Daboluo

structure Card where
  type : Int
  value : Int
  suit : Option Int := none
  old : Option Int := none
deriving DecidableEq, Repr

/-- `PokerUtils.sortDescent`, the order of a submitted row: low to high. -/
def sortDescent (a b : Card) : Bool :=
  if a.value = b.value then a.type < b.type else a.value < b.value

/-- `PokerUtils.sortRise`: high to low, suits still rising. -/
def sortRise (a b : Card) : Bool :=
  if a.value = b.value then a.type < b.type else a.value > b.value

theorem pairwise_sortDescent (cards : List Card) :
    (Lua.tableSort sortDescent cards).Pairwise fun a b =>
    a.value < b.value ∨ a.value = b.value ∧ a.type ≤ b.type := by
  have hle : ∀ a b, sortDescent b a = false ↔ a.value < b.value ∨ a.value = b.value ∧
      a.type ≤ b.type := by
    intro a b
    unfold sortDescent
    split_ifs with heq
    · simp [heq]
    · rw [decide_eq_false_iff_not]
      omega
  refine (Lua.pairwise_tableSort_of (fun a b => ?_) (fun a b c => ?_) cards).imp
    fun h => (hle _ _).1 h
  · rw [hle, hle]
    omega
  · rw [hle, hle, hle]
    omega

theorem pairwise_sortRise (cards : List Card) : (Lua.tableSort sortRise cards).Pairwise fun a b =>
    b.value < a.value ∨ a.value = b.value ∧ a.type ≤ b.type := by
  have hle : ∀ a b, sortRise b a = false ↔ b.value < a.value ∨ a.value = b.value ∧
      a.type ≤ b.type := by
    intro a b
    unfold sortRise
    split_ifs with heq
    · simp [heq]
    · rw [decide_eq_false_iff_not]
      omega
  refine (Lua.pairwise_tableSort_of (fun a b => ?_) (fun a b c => ?_) cards).imp
    fun h => (hle _ _).1 h
  · rw [hle, hle]
    omega
  · rw [hle, hle, hle]
    omega

/-- `PokerUtils.cardsDecode`: the two joker codes first, then suit in the high nibble. -/
def cardsDecode (cArr : List Int) : List Card :=
  cArr.map fun c =>
    if c = 97 then { type := 5, value := 16 }
    else if c = 96 then { type := 5, value := 15 }
    else { type := c / 16, value := c - c / 16 * 16 - 1 }

/-- `PokerUtils.cardsEncode`: a joker is sent as the card it stands for. -/
def cardsEncode (cArr : List Card) : List Int :=
  cArr.map fun c => (if c.type = 5 then c.suit.getD c.type else c.type) * 16 + c.value + 1

def copy (cArr : Option (List Card)) : List Card := cArr.getD []

/-- One deletion pass over `a`, read from its last card: a card leaves together with the first card
of `b` it matches. -/
def delPass (hit : Card → Card → Bool) : List Card → List Card → List Card × List Card
  | [], b => ([], b)
  | c :: rest, b =>
      if b.any (hit c) then delPass hit rest (b.eraseP (hit c))
      else
        let (kept, b') := delPass hit rest b
        (c :: kept, b')

/-- An ordinary card of `b` deletes the same card of `a`. -/
def sameCard (a b : Card) : Bool := b.type < 5 && a.value == b.value && a.type == b.type

/-- A joker of `b` deletes any joker of `a`. -/
def bothJokers (a b : Card) : Bool := a.type == 5 && b.type == 5

/-- `PokerUtils.delCards`: the cards of `a1` that are left after deleting those of `b1`. -/
def delCards (a1 b1 : Option (List Card)) : List Card :=
  let (a, b) := delPass sameCard (copy a1).reverse (copy b1)
  let (a, _) := if b.length > 0 then delPass bothJokers a b else (a, b)
  a.reverse

end SdyServer.Daboluo
