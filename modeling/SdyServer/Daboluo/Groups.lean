import SdyServer.Daboluo.Card

/-!
# Row generators

Each generator lists the rows of one type that a pile of cards allows. The lists are built by index
arithmetic on the sorted pile, so their order is part of the behaviour: the automatic submission
takes the first row that fits.
-/

namespace SdyServer.Daboluo

structure Five where
  c1 : Card
  c2 : Card
  c3 : Card
  c4 : Card
  c5 : Card
deriving DecidableEq, Repr

structure Three where
  c1 : Card
  c2 : Card
  c3 : Card
deriving DecidableEq, Repr

def Five.toList (row : Five) : List Card := [row.c1, row.c2, row.c3, row.c4, row.c5]

def Three.toList (row : Three) : List Card := [row.c1, row.c2, row.c3]

@[simp]
theorem Five.length_toList (row : Five) : row.toList.length = 5 := rfl

@[simp]
theorem Three.length_toList (row : Three) : row.toList.length = 3 := rfl

/-- `for i = high, low, -1`. -/
def down (high low : Nat) : List Nat := (List.range' low (high + 1 - low)).reverse

/-- `for i = low, high`. -/
def up (low high : Nat) : List Nat := List.range' low (high + 1 - low)

def five (l : List Card) (i1 i2 i3 i4 i5 : Nat) : Option Five := do
  return ⟨← Lua.nth l i1, ← Lua.nth l i2, ← Lua.nth l i3, ← Lua.nth l i4, ← Lua.nth l i5⟩

def three (l : List Card) (i1 i2 i3 : Nat) : Option Three := do
  return ⟨← Lua.nth l i1, ← Lua.nth l i2, ← Lua.nth l i3⟩

def joker (value : Int) (suit : Option Int) (old : Int) : Card :=
  { type := 5, value, suit, old := some old }

def gather {α β : Type} (l : List α) (body : α → Lua (List β)) : Lua (List β) := do
  return (← l.mapM body).flatten

/-- The suit a joker takes next to a card of suit `t`. -/
def otherSuit (t : Int) : Option Int := if t = 4 then some 3 else some 4

/-- `PokerUtils.getVariety`: the pile, sorted high to low, without and with its jokers. -/
def getVariety (cards : List Card) : List Card × List Card :=
  (Lua.tableSort sortRise cards).partition fun c => c.type ≠ 5

/-- `PokerUtils.getGroupCards`. -/
structure GroupCards where
  wlArr : List Card := []
  dzArr : List (Card × Card) := []
  stArr : List Three := []
  tzArr : List (Card × Card × Card × Card) := []
  szArr : List (List Card) := []
  vArr : List Card := []
  cardsArr : List Card := []
  wtArr : List Five := []
deriving DecidableEq, Repr

/-- The groups of one value, at the lowest-placed card `c` of it; `rest` are the cards above. -/
def GroupCards.collect (g : GroupCards) (c : Card) : List Card → GroupCards
  | [] => { g with wlArr := g.wlArr ++ [c] }
  | c1 :: rest1 =>
      if c.value = c1.value then
        match rest1 with
        | c2 :: rest2 =>
            if c.value = c2.value then
              match rest2 with
              | c3 :: c4 :: _ =>
                  if c.value = c4.value then { g with wtArr := g.wtArr ++ [⟨c, c1, c2, c3, c4⟩] }
                  else if c.value = c3.value then { g with tzArr := g.tzArr ++ [(c, c1, c2, c3)] }
                  else { g with stArr := g.stArr ++ [⟨c, c1, c2⟩] }
              | [c3] =>
                  if c.value = c3.value then { g with tzArr := g.tzArr ++ [(c, c1, c2, c3)] }
                  else { g with stArr := g.stArr ++ [⟨c, c1, c2⟩] }
              | [] => { g with stArr := g.stArr ++ [⟨c, c1, c2⟩] }
            else { g with dzArr := g.dzArr ++ [(c, c1)] }
        | [] => { g with dzArr := g.dzArr ++ [(c, c1)] }
      else { g with wlArr := g.wlArr ++ [c] }

/-- A finished run of consecutive values is kept when it is long enough for a straight. -/
def GroupCards.closeRun (g : GroupCards) (sArr : List Card) : GroupCards :=
  if sArr.length > 4 then { g with szArr := g.szArr ++ [sArr] } else g

/-- The loop of `getGroupCards`, from the low end of the pile; `sArr` is the current run. -/
def getGroupCardsFrom (g : GroupCards) (prev : Option Card) (sArr : List Card) :
    List Card → GroupCards
  | [] => g.closeRun sArr
  | c :: rest =>
      let (g, sArr) := match sArr.getLast? with
        | none => (g, sArr)
        | some last =>
            if last.value = c.value then (g, sArr.dropLast)
            else if last.value + 1 ≠ c.value then (g.closeRun sArr, [])
            else (g, sArr)
      let g := if prev.map Card.value = some c.value then g else g.collect c rest
      getGroupCardsFrom g (some c) (sArr ++ [c]) rest

def getGroupCards (cArr : List Card) : GroupCards :=
  let (cardsArr, vArr) := getVariety cArr
  getGroupCardsFrom { cardsArr, vArr } none [] cardsArr.reverse

def wulongThree (cards : List Card) : List Three :=
  if cards.length < 3 then []
  else
    let wlArr := (getGroupCards cards).wlArr
    (down wlArr.length 3).filterMap fun i => three wlArr i (i - 1) (i - 2)

def yiduiThree (cards : List Card) : List Three :=
  if cards.length < 3 then []
  else
    let (cardsArr, vArr) := getVariety cards
    let pokerLen := cardsArr.length
    let pairs := (up 1 (pokerLen - 1)).filterMap fun i => do
      let c ← Lua.nth cardsArr i
      let c' ← Lua.nth cardsArr (i + 1)
      if c.value = c'.value then
        return ⟨c, c', ← Lua.nth cardsArr (if i < pokerLen - 1 then i + 2 else 1)⟩
      else none
    let jokers := vArr.reverse.flatMap fun v =>
      (up 1 (pokerLen - 1)).filterMap fun j => do
        let c ← Lua.nth cardsArr j
        return ⟨c, joker c.value (otherSuit c.type) v.value, ← Lua.nth cardsArr (j + 1)⟩
    pairs ++ jokers

def santiao (cards : List Card) : List Three :=
  if cards.length < 3 then []
  else
    let (cardsArr, vArr) := getVariety cards
    let pokerLen := cardsArr.length
    let trips := (up 1 (pokerLen - 2)).filterMap fun i => do
      let row ← three cardsArr i (i + 1) (i + 2)
      if row.c1.value = row.c3.value then return row else none
    let jokers := match vArr with
      | [] => []
      | [v] =>
          (up 1 (pokerLen - 1)).filterMap fun j => do
            let c ← Lua.nth cardsArr j
            let c' ← Lua.nth cardsArr (j + 1)
            if c.value = c'.value then
              -- the card's `suit` is read here, not its `type`
              return ⟨c, c', joker c.value (if c.suit = some 4 then some 3 else some 4) v.value⟩
            else none
      | v1 :: v2 :: _ =>
          -- the same list once for every joker
          vArr.flatMap fun _ => cardsArr.map fun c =>
            ⟨c, joker c.value (some 4) v1.value, joker c.value (some 3) v2.value⟩
    trips ++ jokers

/-- `PokerUtils.wulongFive`: five singles of more than one suit. They stand from high to low, and
the test for straights looks for rising rows, so of all straights only the wheel is left out. -/
def wulongFive (cards : List Card) : List Five :=
  if cards.length < 5 then []
  else
    let wlArr := (getGroupCards cards).wlArr
    (down wlArr.length 5).filterMap fun i => do
      let row ← five wlArr i 4 3 2 1
      let arr := row.toList
      let mixed := (arr.zip arr.tail).any fun (a, b) => b.type ≠ a.type
      let broken := (arr.zip arr.tail).any fun (a, b) => b.value ≠ a.value + 1
      let wheel := arr.map Card.value = [13, 4, 3, 2, 1]
      if mixed && broken && !wheel then return row else none

def yiduiFive (cards : List Card) : List Five :=
  if cards.length < 5 then []
  else
    let g := getGroupCards cards
    if g.dzArr.length > 0 then
      if g.wlArr.length > 2 then
        g.dzArr.reverse.filterMap fun (c, c') => do
          return ⟨c, c', ← Lua.nth g.wlArr 3, ← Lua.nth g.wlArr 2, ← Lua.nth g.wlArr 1⟩
      else if g.dzArr.length > 3 then
        (down g.dzArr.length 4).filterMap fun i => do
          let (c, c') ← Lua.nth g.dzArr i
          return ⟨c, c', (← Lua.nth g.dzArr 3).1, (← Lua.nth g.dzArr 2).1, (← Lua.nth g.dzArr 1).1⟩
      else []
    else if g.vArr.length > 0 ∧ g.wlArr.length > 3 then
      (down g.wlArr.length 4).filterMap fun i => do
        let c ← Lua.nth g.wlArr i
        return ⟨c, joker c.value (some 4) (← Lua.nth g.vArr 1).value, ← Lua.nth g.wlArr (i - 1),
          ← Lua.nth g.wlArr (i - 2), ← Lua.nth g.wlArr (i - 3)⟩
    else []

def liangdui (cards : List Card) : List Five :=
  if cards.length < 5 then []
  else
    let g := getGroupCards cards
    if (g.dzArr.length > 1 ∧ g.wlArr.length > 0) ∨ g.dzArr.length > 2 then
      (down g.dzArr.length (if g.wlArr.length = 0 then 3 else 2)).filterMap fun l => do
        let (c, c') ← Lua.nth g.dzArr l
        let (d, d') ← Lua.nth g.dzArr 1
        let single ← if g.wlArr.length > 0 then Lua.nth g.wlArr 1
          else (Lua.nth g.dzArr 2).map Prod.fst
        return ⟨c, c', d, d', single⟩
    else []

def santiaoFive (cards : List Card) : List Five :=
  if cards.length < 5 then []
  else
    let g := getGroupCards cards
    if g.stArr.length > 0 then
      if g.wlArr.length > 1 then
        g.stArr.reverse.filterMap fun t => do
          return ⟨t.c1, t.c2, t.c3, ← Lua.nth g.wlArr 2, ← Lua.nth g.wlArr 1⟩
      else if g.dzArr.length > 1 then
        g.stArr.reverse.filterMap fun t => do
          return ⟨t.c1, t.c2, t.c3, (← Lua.nth g.dzArr 2).1, (← Lua.nth g.dzArr 1).1⟩
      else if g.stArr.length > 2 then
        (down g.stArr.length 3).filterMap fun i => do
          let t ← Lua.nth g.stArr i
          return ⟨t.c1, t.c2, t.c3, (← Lua.nth g.stArr 2).c1, (← Lua.nth g.stArr 1).c1⟩
      else []
    else if g.vArr.length > 0 ∧ g.dzArr.length > 0 ∧ g.wlArr.length > 1 then
      g.dzArr.reverse.filterMap fun (c, c') => do
        -- the pair's value is compared with the suit four
        return ⟨c, c', joker c.value (otherSuit c.value) (← Lua.nth g.vArr 1).value,
          ← Lua.nth g.wlArr 2, ← Lua.nth g.wlArr 1⟩
    else if g.vArr.length > 1 ∧ g.wlArr.length > 2 then
      (down g.wlArr.length 3).filterMap fun i => do
        let c ← Lua.nth g.wlArr i
        return ⟨c, joker c.value (some 4) (← Lua.nth g.vArr 1).value,
          joker c.value (some 3) (← Lua.nth g.vArr 2).value, ← Lua.nth g.wlArr (i - 1),
          ← Lua.nth g.wlArr (i - 2)⟩
    else []

/-- The window of values a straight with jokers is fitted into: its bounds, the jokers left, the
values already placed and the values jokers stand for. -/
structure Window where
  maxC : Int
  minC : Int
  c : Int
  a : List Int := []
  b : List Int := []
deriving DecidableEq, Repr

/-- The loop that widens the window, upwards first; a window that comes down to the five is turned
into the low straight with the ace. -/
def Window.widen (w : Window) : Nat → Option Window
  | 0 => some w
  | maxStep + 1 =>
      let wider : Option Window :=
        if w.maxC + 1 < 14 then some { w with maxC := w.maxC + 1 }
        else if w.minC - 1 > 0 then some { w with minC := w.minC - 1 }
        else none
      match wider with
      | none => none
      | some w =>
          if w.maxC = 5 ∧ w.minC - maxStep = 1 then
            let below := (up 1 (w.minC - 1).toNat).map Int.ofNat
            some {
              maxC := 4
              minC := w.minC - below.length
              c := w.c - 1 - below.length
              a := [13]
              b := 13 :: below }
          else w.widen maxStep

/-- The values of the window from the top, as long as cards and jokers last. -/
def Window.fill (o : List Int) : List Int → Window → Window
  | [], w => w
  | i :: rest, w =>
      if i ∈ o ∨ i ∈ w.b then fill o rest { w with a := w.a ++ [i] }
      else if w.c > 0 then fill o rest { w with a := w.a ++ [i], b := i :: w.b, c := w.c - 1 }
      else w

/-- `PokerUtils.getHappydoggyShunzi`: the values of the straight that the cards make with `c`
jokers, and which of them are jokers; no values when there is none. -/
def getHappydoggyShunzi (cardsArr : List Card) (c : Int) : Lua (List Int × List Int) := do
  if (cardsArr.length : Int) + c < 5 then return ([], [])
  let cArr := Lua.tableSort (fun a b => decide (a > b)) (cardsArr.map Card.value)
  let maxC ← Lua.need .arithmeticOnNil cArr.head?
  let minC ← Lua.need .arithmeticOnNil cArr.getLast?
  let window : Option Window :=
    if maxC = 13 ∧ (Lua.nth cArr 2).any (fun second => decide (second < 5)) then
      some { maxC := 4, minC := 1, c, a := [maxC] }
    else if maxC - minC > 4 ∨ 4 - (maxC - minC) > c then none
    else Window.widen { maxC, minC, c } (4 - (maxC - minC)).toNat
  match window with
  | none => return ([], [])
  | some w =>
      let values := (List.range (w.maxC - w.minC + 1).toNat).map fun (i : Nat) => w.maxC - i
      let w := w.fill cArr values
      match w.a with
      | a1 :: a2 :: a3 :: a4 :: a5 :: _ =>
          if [a1, a2, a3, a4, a5] = [13, 4, 3, 2, 1] ∨
              (a1 = a2 + 1 ∧ a2 = a3 + 1 ∧ a3 = a4 + 1 ∧ a4 = a5 + 1) then return (w.a, w.b)
          else return ([], [])
      | _ => return ([], [])

/-- `PokerUtils.getMinSuit`: eight suits for jokers, the more frequent ones of the cards first. -/
def getMinSuit (cards : List Card) : Lua (List Int) := do
  let count (suitArr : List Card) (c : Card) : Lua (List Card) :=
    if c.type = 5 then return suitArr
    else if 1 ≤ c.type ∧ c.type ≤ 4 then
      return suitArr.map fun s => if s.type = c.type then { s with value := s.value + 1 } else s
    else throw .indexNil
  let suitArr ← cards.foldlM count (([1, 2, 3, 4] : List Int).map fun type => { type, value := 0 })
  let turn (state : List Card × List Int) (i : Nat) : List Card × List Int :=
    let n := i % 4
    match state.1[n]? with
    | some s =>
        if s.value ≠ 2 then
          (state.1.set n { s with value := s.value + 1 }, state.2 ++ [s.type])
        else state
    | none => state
  return ((List.range 8).foldl turn (Lua.tableSort sortRise suitArr, [])).2

def oneOfEach (szCards : List Card) : List Card → List Card
  | [] => szCards
  | o :: rest =>
      if rest.head?.map Card.value = some o.value ∨ szCards.getLast?.map Card.value =
          some o.value then
        oneOfEach szCards rest
      else oneOfEach (szCards ++ [o]) rest

/-- The rows of five that end at each position of a run, from its high end. -/
def rowsOf (szArr : List Card) : List Five :=
  (down szArr.length 5).filterMap fun l => five szArr l (l - 1) (l - 2) (l - 3) (l - 4)

/-- The straight with the values `a`, where `cardOf n v` is the card of value `v` and the `n`th
joker is used for a value of `b`. -/
def straightOf (a b : List Int) (jokerOf : Nat → Int → Lua Card) (cardOf : Int → Lua Card) :
    Lua (List Five) := do
  let place (state : List Card × Nat) (v : Int) : Lua (List Card × Nat) := do
    if v ∈ b then return (state.1 ++ [← jokerOf state.2 v], state.2 + 1)
    else return (state.1 ++ [← cardOf v], state.2)
  let (arr, _) ← (a.take 5).foldlM place ([], 1)
  return (five arr 1 2 3 4 5).toList

def shunzi (cards : List Card) : Lua (List Five) := do
  if cards.length < 5 then return []
  let g := getGroupCards cards
  let szCards := oneOfEach [] g.cardsArr.reverse
  let vCards (v : Int) : Option Card := szCards.find? fun c => c.value = v
  let wheel : Option (List Card) := do
    return [← vCards 1, ← vCards 2, ← vCards 3, ← vCards 4, ← vCards 13]
  let szArr := g.szArr ++ wheel.toList
  if szArr.length > 0 then return szArr.reverse.flatMap rowsOf
  match g.vArr with
  | [] => return []
  | v1 :: _ =>
      gather ((down 4 1).filter fun i => 5 ≤ i + g.vArr.length) fun i =>
        gather (up 1 (szCards.length + 1 - i)) fun l => do
          let arr := (szCards.drop (l - 1)).take i
          let (a, b) ← getHappydoggyShunzi arr g.vArr.length
          if a.length = 5 then
            let minSuitArr ← getMinSuit arr
            straightOf a b
              (fun c v => return joker v (some ((Lua.nth minSuitArr c).getD 4)) v1.value)
              (fun v => do
                let c ← Lua.need .indexNil (arr.find? fun c => c.value = v)
                return { type := c.type, value := v })
          else return []

/-- `PokerUtils.getSuit`: the cards of each of the suits one to four. -/
def getSuit (cards : List Card) : Lua (Int → List Card) := do
  if cards.any fun c => decide (c.type < 1 ∨ 5 < c.type) then throw .indexNil
  return fun suit => cards.filter fun c => c.type = suit

def tonghua (cards : List Card) : Lua (List Five) := do
  if cards.length < 5 then return []
  let g := getGroupCards cards
  let suitArr ← getSuit g.cardsArr
  let flush (row? : Option Five) : Lua (List Five) := do
    match row? with
    | none => return []
    | some row =>
        let (a, _) ← getHappydoggyShunzi row.toList 0
        return if a.length ≠ 5 then [row] else []
  let plain ← gather [4, 3, 2, 1] fun i => do
    let sArr := suitArr i
    if sArr.length > 4 then
      let windows ← gather (up 1 (sArr.length - 4)) fun l =>
        flush (five sArr l (l + 1) (l + 2) (l + 3) (l + 4))
      if sArr.length > 5 then
        let others ← gather [five sArr 1 3 4 5 6, five sArr 1 2 4 5 6, five sArr 1 2 3 5 6,
          five sArr 1 2 3 4 6] flush
        return windows ++ others
      return windows
    return []
  if g.vArr.length = 0 ∨ g.vArr.length ≥ 3 then return plain
  let jokers := ([4, 3, 2, 1] : List Int).flatMap fun i =>
    let sArr := suitArr i
    if sArr.length < 5 ∧ sArr.length + g.vArr.length > 4 then
      (up 1 g.vArr.length).flatMap fun l => (up 1 (sArr.length + l - 4)).filterMap fun n => do
        let first ← Lua.nth sArr 1
        let c ← Lua.nth sArr n
        let c' ← Lua.nth sArr (n + 1)
        -- `old` is the value of a plain card here
        if l = 1 then
          return ⟨c, joker c.value (some first.type) first.value, c', ← Lua.nth sArr (n + 2),
            ← Lua.nth sArr (n + 3)⟩
        else
          return ⟨c, joker c.value (some first.type) first.value, c',
            joker c'.value (some first.type) (← Lua.nth sArr 2).value, ← Lua.nth sArr (n + 2)⟩
    else []
  return plain ++ jokers

def hulu (cards : List Card) : List Five :=
  if cards.length < 5 then []
  else
    let g := getGroupCards cards
    let plain :=
      match g.dzArr with
      | (d, d') :: _ => g.stArr.reverse.map fun t => ⟨t.c1, t.c2, t.c3, d, d'⟩
      | [] =>
          (down g.stArr.length 1).flatMap fun i => (up 1 (i - 1)).filterMap fun l => do
            let t ← Lua.nth g.stArr i
            let t' ← Lua.nth g.stArr l
            return ⟨t.c1, t.c2, t.c3, t'.c1, t'.c2⟩
    let jokers :=
      if g.vArr.length > 0 ∧ g.dzArr.length > 1 then
        (down g.dzArr.length 2).filterMap fun i => do
          let (c, c') ← Lua.nth g.dzArr i
          let (d, d') ← Lua.nth g.dzArr 1
          return ⟨c, c', joker c.value (otherSuit c.type) (← Lua.nth g.vArr 1).value, d, d'⟩
      else []
    plain ++ jokers

def sitiao (cards : List Card) : Lua (List Five) := do
  if cards.length < 5 then return []
  let g := getGroupCards cards
  let withFifth (fifth : Card) : List Five :=
    g.tzArr.reverse.map fun (c1, c2, c3, c4) => ⟨c1, c2, c3, c4, fifth⟩
  let plain : List Five :=
    match g.wlArr, g.dzArr, g.stArr with
    | w :: _, _, _ => withFifth w
    | [], (d, _) :: _, _ => withFifth d
    | [], [], t :: _ => withFifth t.c1
    | [], [], [] =>
        (down g.tzArr.length 2).filterMap fun i => do
          let (c1, c2, c3, c4) ← Lua.nth g.tzArr i
          return ⟨c1, c2, c3, c4, (← Lua.nth g.tzArr 1).1⟩
  -- the fifth card is the lowest single, or the last of the completed quads
  let finish (tzArr : List (Card × Card × Card × Card)) : List Five :=
    (up 1 (tzArr.length - if g.wlArr.length > 0 then 0 else 1)).filterMap fun l => do
      let (c1, c2, c3, c4) ← Lua.nth tzArr l
      let fifth ← if g.wlArr.length > 0 then Lua.nth g.wlArr 1
        else (Lua.nth tzArr tzArr.length).map Prod.fst
      return ⟨c1, c2, c3, c4, fifth⟩
  match g.vArr with
  | [] => return plain
  | v1 :: more => do
      let fromTrips ← g.stArr.reverse.mapM fun t => do
        let suitArr ← getMinSuit t.toList
        return (t.c1, t.c2, t.c3, joker t.c1.value (Lua.nth suitArr 1) v1.value)
      let fromPairs ← match more with
        | [] => pure []
        | v2 :: _ => g.dzArr.reverse.mapM fun (c, c') => do
            let suitArr ← getMinSuit [c, c']
            return (c, c', joker c.value (Lua.nth suitArr 1) v1.value,
              joker c.value (Lua.nth suitArr 2) v2.value)
      return plain ++ finish fromTrips ++ finish fromPairs

/-- `PokerUtils.delCountSame`: the first card of every value, low to high. -/
def delCountSame (cArr : List Card) : List Card :=
  let step (kept : List Card) (c : Card) : List Card :=
    if kept.any fun d => d.value = c.value then kept else kept ++ [c]
  Lua.tableSort sortDescent (cArr.foldl step [])

def tonghuashun (cards : List Card) : Lua (List Five) := do
  if cards.length < 5 then return []
  let g := getGroupCards cards
  let suitArr ← getSuit g.cardsArr
  let thsArr := ([4, 3, 2, 1] : List Int).map fun i =>
    let sArr := delCountSame (suitArr i)
    if sArr.length > 4 then Lua.tableSort sortRise sArr else sArr
  let plain := thsArr.flatMap fun sArr =>
    if sArr.length > 4 then
      let k := sArr.length
      -- the test for the royal flush asks one card for five values and never passes
      let royal := (five sArr 1 2 3 4 5).filter fun row =>
        [13, 12, 11, 10, 9].all fun v => row.c1.value = v
      let wheel := (five sArr 1 (k - 3) (k - 2) (k - 1) k).filter fun row =>
        row.toList.map Card.value = [13, 4, 3, 2, 1]
      let falling := (up 1 (k - 4)).filterMap fun l =>
        (five sArr l (l + 1) (l + 2) (l + 3) (l + 4)).filter fun row =>
          row.c1.value = row.c2.value + 1 ∧ row.c2.value = row.c3.value + 1 ∧
            row.c3.value = row.c4.value + 1 ∧ row.c4.value = row.c5.value + 1
      royal.toList ++ wheel.toList ++ falling
    else []
  if g.vArr.length = 0 then return plain
  let jokers ← gather [4, 3, 2] fun i => gather thsArr fun sArr => do
    if sArr.length + g.vArr.length > 4 then
      gather (up 1 (sArr.length + 1 - i)) fun n => do
        let arr := (sArr.drop (n - 1)).take i
        let suit := (← Lua.elem arr 1).type
        let (a, b) ← getHappydoggyShunzi arr g.vArr.length
        if a.length = 5 then
          straightOf a b (fun c v => return joker v (some suit) (← Lua.elem g.vArr c).value)
            (fun v => return { type := suit, value := v })
        else return []
    else return []
  return plain ++ jokers

def wutong (cards : List Card) : Lua (List Five) := do
  if cards.length < 5 then return []
  let g := getGroupCards cards
  let plain := g.wtArr.reverse
  match g.vArr with
  | [] => return plain
  | v1 :: more => do
      let fromTrips ← match more with
        | [] => pure []
        | v2 :: _ => g.stArr.reverse.mapM fun t => do
            let suitArr ← getMinSuit t.toList
            return ⟨t.c1, t.c2, t.c3, joker t.c1.value (Lua.nth suitArr 1) v1.value,
              joker t.c1.value (Lua.nth suitArr 2) v2.value⟩
      let fromQuads ← g.tzArr.reverse.mapM fun (c1, c2, c3, c4) => do
        let suitArr ← getMinSuit [c1, c2, c3, c4]
        return ⟨c1, c2, c3, c4, joker c1.value (Lua.nth suitArr 1) v1.value⟩
      return plain ++ fromTrips ++ fromQuads ++ (five g.vArr 1 2 3 4 5).toList

end SdyServer.Daboluo
