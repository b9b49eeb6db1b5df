import Mathlib.Data.List.Chain
import Mathlib.Tactic.IntervalCases
import SdyServer.Daboluo.Compare

/-!
# Comparing two rows from the other side

A pair of rows is compared once for each of its owners. On complete submissions every entry of
`compare` answers, and answers the opposite when the two rows change places.
-/

namespace SdyServer.Daboluo

/-- The two runs of a comparison end, in opposite answers or both in a tie. -/
def Swaps (x y : Lua (Option Bool)) : Prop := ∃ res, x = .ok res ∧ y = .ok (res.map (!·))

theorem swaps_tie : Swaps (.ok none) (.ok none) := ⟨none, rfl, rfl⟩

theorem swaps_of_ne {x y : Int} (hne : x ≠ y) :
    Swaps (.ok (some (decide (x > y)))) (.ok (some (decide (y > x)))) := by
  refine ⟨some (decide (x > y)), rfl, ?_⟩
  simp only [Option.map_some, Except.ok.injEq, Option.some.injEq]
  by_cases h : x > y
  · have : ¬ y > x := by omega
    simp [h, this]
  · have : y > x := by omega
    simp [h, this]

def val (cards : List Card) (i : Nat) : Int := (cards[i - 1]?.map Card.value).getD 0

theorem valueAt_eq {cards : List Card} {i : Nat} (hpos : 0 < i) (hle : i ≤ cards.length) :
    valueAt cards i = .ok (val cards i) := by
  have hlt : i - 1 < cards.length := by omega
  have hne : i ≠ 0 := by omega
  simp only [valueAt, Lua.elem, Lua.nth, val, if_neg hne, List.getElem?_eq_getElem hlt]
  rfl

section FindBig

variable {a b : List Card}

theorem findBigFrom_swaps {positions : List Nat} (hpos : ∀ i ∈ positions, 0 < i)
    (ha : ∀ i ∈ positions, i ≤ a.length) (hb : ∀ i ∈ positions, i ≤ b.length) :
    Swaps (findBigFrom a b positions) (findBigFrom b a positions) := by
  induction positions with
  | nil => exact swaps_tie
  | cons i rest ih =>
      have hi : i ∈ i :: rest := List.mem_cons_self ..
      have hrest := ih (fun j hj => hpos j (List.mem_cons_of_mem _ hj))
        (fun j hj => ha j (List.mem_cons_of_mem _ hj))
        (fun j hj => hb j (List.mem_cons_of_mem _ hj))
      have hx := valueAt_eq (hpos i hi) (ha i hi)
      have hy := valueAt_eq (hpos i hi) (hb i hi)
      simp only [findBigFrom, hx, hy, Lua.ok_bind, Lua.pure_eq_ok]
      by_cases hgt : val a i > val b i
      · have hnot : ¬ val b i > val a i := by omega
        rw [if_pos hgt, if_neg hnot, if_pos hgt]
        exact ⟨some true, rfl, rfl⟩
      · by_cases hlt : val a i < val b i
        · rw [if_neg hgt, if_pos hlt, if_pos hlt]
          exact ⟨some false, rfl, rfl⟩
        · rw [if_neg hgt, if_neg hlt, if_neg hlt, if_neg hgt]
          exact hrest

/-- A submission that `find_big` accepts: thirteen cards, the first two in order. -/
structure Complete (cards : List Card) : Prop where
  length : cards.length = 13
  first : val cards 1 ≤ val cards 2

theorem Complete.valueAt_eq (ha : Complete a) (i : Nat) (hpos : 0 < i) (hle : i ≤ 13) :
    valueAt a i = .ok (val a i) :=
  Daboluo.valueAt_eq hpos (by rw [ha.length]; exact hle)

theorem mem_rowDown {index i : Nat} (hindex : index = 1 ∨ index = 6 ∨ index = 11)
    (hi : i ∈ rowDown index) : 0 < i ∧ i ≤ 13 := by
  simp only [rowDown, List.mem_reverse, List.mem_range'_1] at hi
  split at hi <;> omega

theorem findBig_swaps {index : Nat} (hindex : index = 1 ∨ index = 6 ∨ index = 11)
    (ha : Complete a) (hb : Complete b) : Swaps (findBig index a b) (findBig index b a) := by
  have hrow : Swaps (findBigFrom a b (rowDown index)) (findBigFrom b a (rowDown index)) := by
    refine findBigFrom_swaps (fun i hi => (mem_rowDown hindex hi).1) ?_ ?_
    · intro i hi
      rw [ha.length]
      exact (mem_rowDown hindex hi).2
    · intro i hi
      rw [hb.length]
      exact (mem_rowDown hindex hi).2
  simp only [findBig, ha.valueAt_eq 1 (by decide) (by decide), ha.valueAt_eq 2 (by decide)
    (by decide),
    hb.valueAt_eq 1 (by decide) (by decide), hb.valueAt_eq 2 (by decide) (by decide), Lua.ok_bind,
    ha.first, hb.first, if_true]
  exact hrow

end FindBig

section Rows

variable {a b : List Card} {index : Nat}

theorem compareWutong_swaps (hindex : index + 2 ≤ 13) (ha : Complete a) (hb : Complete b) :
    Swaps (compareWutong index a b) (compareWutong index b a) := by
  simp only [compareWutong, ha.valueAt_eq (index + 2) (by omega) hindex,
    hb.valueAt_eq (index + 2) (by omega) hindex, Lua.ok_bind, Lua.pure_eq_ok]
  by_cases heq : val a (index + 2) = val b (index + 2)
  · rw [if_pos heq, if_pos heq.symm]
    exact swaps_tie
  · rw [if_neg heq, if_neg (Ne.symm heq)]
    exact swaps_of_ne heq

theorem firstLess_swap (xs ys : List Int) : firstLess ys xs = (firstLess xs ys).map (!·) := by
  induction xs generalizing ys with
  | nil => cases ys <;> rfl
  | cons x xs ih =>
      cases ys with
      | nil => rfl
      | cons y ys =>
          by_cases heq : x = y
          · simp [firstLess, heq, ih]
          · have hne : ¬ y = x := fun h => heq h.symm
            simp only [firstLess, if_neg heq, if_neg hne, Option.map_some, Option.some.injEq]
            by_cases hlt : x < y
            · have : ¬ y < x := by omega
              simp [hlt, this]
            · have : y < x := by omega
              simp [hlt, this]

theorem mapM_valueAt_eq {cards : List Card} {positions : List Nat}
    (hpos : ∀ i ∈ positions, 0 < i ∧ i ≤ cards.length) :
    positions.mapM (valueAt cards) = .ok (positions.map (val cards)) := by
  induction positions with
  | nil => rfl
  | cons i rest ih =>
      have hi := hpos i (List.mem_cons_self ..)
      rw [List.mapM_cons, valueAt_eq hi.1 hi.2,
        ih fun j hj => hpos j (List.mem_cons_of_mem _ hj)]
      rfl

theorem isMessireFive_straight_swaps {i : Int} (hi : i = 9 ∨ i = 5) (ha : 5 ≤ a.length)
    (hb : 5 ≤ b.length) : Swaps (isMessireFive i a b) (isMessireFive i b a) := by
  have hlen : ∀ {c : List Card} (lt : Card → Card → Bool), 5 ≤ c.length →
      ∀ j ∈ [1, 2, 3, 4, 5], 0 < j ∧ j ≤ (Lua.tableSort lt (c.take 5)).length := by
    intro c lt hc j hj
    simp only [Lua.tableSort, List.length_insertionSort, List.length_take, List.mem_cons,
      List.not_mem_nil, or_false] at hj ⊢
    omega
  have hsix : ¬ i = 6 := by omega
  have hten : ¬ (i = 10 ∨ i = 8) := by omega
  have hseven : ¬ i = 7 := by omega
  have hstraight : i = 9 ∨ i = 5 ∨ i = 1 := by omega
  simp only [isMessireFive, if_neg hsix, if_neg hten, if_neg hseven, if_pos hstraight,
    mapM_valueAt_eq (hlen _ ha), mapM_valueAt_eq (hlen _ hb), Lua.ok_bind, Lua.pure_eq_ok]
  exact ⟨_, rfl, congrArg Except.ok (firstLess_swap _ _)⟩

theorem compareStraight_swaps {type : Int} (htype : type = 9 ∨ type = 5)
    (hindex : index = 1 ∨ index = 6) (ha : Complete a) (hb : Complete b) :
    Swaps (compareStraight type index a b) (compareStraight type index b a) := by
  have hlen : ∀ {c : List Card}, Complete c → 5 ≤ ((c.drop (index - 1)).take 5).length := by
    intro c hc
    rw [List.length_take, List.length_drop, hc.length]
    omega
  obtain ⟨res, hab, hba⟩ := isMessireFive_straight_swaps htype (hlen ha) (hlen hb)
  exact ⟨res.map (!·), by simp [compareStraight, hab], by simp [compareStraight, hba]⟩

theorem compareHulu_swaps (hindex : 0 < index ∧ index + 3 ≤ 13) (ha : Complete a)
    (hb : Complete b) : Swaps (compareHulu index a b) (compareHulu index b a) := by
  obtain ⟨hpos, hle⟩ := hindex
  simp only [compareHulu, ha.valueAt_eq (index + 2) (by omega) (by omega),
    hb.valueAt_eq (index + 2) (by omega) (by omega), ha.valueAt_eq index hpos (by omega),
    hb.valueAt_eq index hpos (by omega), ha.valueAt_eq (index + 3) (by omega) hle,
    hb.valueAt_eq (index + 3) (by omega) hle, Lua.ok_bind, Lua.pure_eq_ok]
  by_cases hthree : val a (index + 2) = val b (index + 2)
  · rw [if_pos hthree, if_pos hthree.symm]
    by_cases hfirst : val a index = val b index
    · by_cases hlast : val a (index + 3) = val b (index + 3)
      · simp only [hfirst, hlast, and_self, if_true]
        exact swaps_tie
      · simp only [hfirst, hlast, Ne.symm hlast, and_false, if_false, ne_eq, not_true_eq_false]
        exact swaps_of_ne hlast
    · simp only [hfirst, Ne.symm hfirst, false_and, if_false, ne_eq, not_false_eq_true, if_true]
      exact swaps_of_ne hfirst
  · rw [if_neg hthree, if_neg (Ne.symm hthree)]
    exact swaps_of_ne hthree

theorem compareSantiao_swaps (hindex : index = 1 ∨ index = 6 ∨ index = 11) (ha : Complete a)
    (hb : Complete b) : Swaps (compareSantiao index a b) (compareSantiao index b a) := by
  simp only [compareSantiao, ha.valueAt_eq (index + 2) (by omega) (by omega),
    hb.valueAt_eq (index + 2) (by omega) (by omega), Lua.ok_bind, Lua.pure_eq_ok]
  by_cases heq : val a (index + 2) = val b (index + 2)
  · rw [if_pos heq, if_pos heq.symm]
    exact findBig_swaps hindex ha hb
  · rw [if_neg heq, if_neg (Ne.symm heq)]
    exact swaps_of_ne heq

theorem twoPairs_ok (hindex : 0 < index ∧ index + 4 ≤ 13) (ha : Complete a) :
    ∃ pairs, twoPairs index a = .ok pairs := by
  obtain ⟨hpos, hle⟩ := hindex
  simp only [twoPairs, ha.valueAt_eq index hpos (by omega),
    ha.valueAt_eq (index + 1) (by omega) (by omega),
      ha.valueAt_eq (index + 2) (by omega) (by omega),
    ha.valueAt_eq (index + 3) (by omega) (by omega), ha.valueAt_eq (index + 4) (by omega) hle,
    Lua.ok_bind, Lua.pure_eq_ok]
  split_ifs <;> exact ⟨_, rfl⟩

theorem compareLiangdui_swaps (hindex : 0 < index ∧ index + 4 ≤ 13) (ha : Complete a)
    (hb : Complete b) : Swaps (compareLiangdui index a b) (compareLiangdui index b a) := by
  obtain ⟨pairs, hpairs⟩ := twoPairs_ok hindex ha
  obtain ⟨pairs', hpairs'⟩ := twoPairs_ok hindex hb
  simp only [compareLiangdui, hpairs, hpairs', Lua.ok_bind, Lua.pure_eq_ok]
  rcases pairs with _ | ⟨low, high, single⟩
  · cases pairs' <;> exact swaps_tie
  rcases pairs' with _ | ⟨low', high', single'⟩
  · exact swaps_tie
  simp only
  by_cases hhigh : high = high'
  · by_cases hlow : low = low'
    · by_cases hsingle : single = single'
      · simp only [hhigh, hlow, hsingle, and_self, if_true]
        exact swaps_tie
      · simp only [hhigh, hlow, hsingle, Ne.symm hsingle, and_self, and_false, if_true, if_false]
        exact swaps_of_ne hsingle
    · simp only [hhigh, hlow, Ne.symm hlow, false_and, and_false, if_true, if_false]
      exact swaps_of_ne hlow
  · simp only [hhigh, Ne.symm hhigh, false_and, and_false, if_false]
    exact swaps_of_ne hhigh

theorem firstPair_ok {positions : List Nat} (hpos : ∀ i ∈ positions, 0 < i ∧ i ≤ a.length)
    (pre : Option Int) : ∃ pair, firstPair a pre positions = .ok pair := by
  induction positions generalizing pre with
  | nil => exact ⟨none, rfl⟩
  | cons i rest ih =>
      have hi := hpos i (List.mem_cons_self ..)
      simp only [firstPair, valueAt_eq hi.1 hi.2, Lua.ok_bind]
      split_ifs
      · exact ⟨pre, rfl⟩
      · exact ih (fun j hj => hpos j (List.mem_cons_of_mem _ hj)) _

/-- Where no value repeats the one before it, no two neighbours are equal. -/
theorem isChain_of_firstPair_none {positions : List Nat}
    (hpos : ∀ i ∈ positions, 0 < i ∧ i ≤ a.length) {pre : Option Int}
    (hnone : firstPair a pre positions = .ok none) :
    (pre.toList ++ positions.map (val a)).IsChain (· ≠ ·) := by
  induction positions generalizing pre with
  | nil => cases pre <;> simp
  | cons i rest ih =>
      have hi := hpos i (List.mem_cons_self ..)
      simp only [firstPair, valueAt_eq hi.1 hi.2, Lua.ok_bind] at hnone
      split_ifs at hnone with hpre
      · simp [hpre] at hnone
      · have hrest := ih (fun j hj => hpos j (List.mem_cons_of_mem _ hj)) hnone
        cases pre with
        | none => simpa using hrest
        | some x =>
            refine List.isChain_cons_cons.mpr ⟨fun h => hpre (congrArg some h), ?_⟩
            simpa using hrest

theorem isChain_lt_of_sorted {l : List Int} (hsorted : l.Pairwise (· ≤ ·))
    (hne : l.IsChain (· ≠ ·)) : l.IsChain (· < ·) := by
  induction l with
  | nil => exact .nil
  | cons x rest ih =>
      cases rest with
      | nil => exact .singleton x
      | cons y rest =>
          rw [List.isChain_cons_cons] at hne ⊢
          have hle : x ≤ y := List.rel_of_pairwise_cons hsorted (List.mem_cons_self ..)
          exact ⟨lt_of_le_of_ne hle hne.1, ih (List.pairwise_cons.mp hsorted).2 hne.2⟩

/-- The values of the row that starts at `index`. -/
def rowValues (index : Nat) (cards : List Card) : List Int :=
  ((cards.drop (index - 1)).take (if index = 11 then 3 else 5)).map Card.value

theorem map_val_rowDown (hindex : index = 1 ∨ index = 6 ∨ index = 11) (ha : Complete a) :
    (rowDown index).reverse.map (val a) = rowValues index a := by
  have hlen := ha.length
  clear ha
  match a, hlen with
  | [_, _, _, _, _, _, _, _, _, _, _, _, _], _ =>
      rcases hindex with rfl | rfl | rfl <;> rfl

/-- In a sorted row with two cards of one value the search for a pair finds one. -/
theorem firstPair_some (hindex : index = 1 ∨ index = 6 ∨ index = 11) (ha : Complete a)
    (hsorted : (rowValues index a).Pairwise (· ≤ ·)) (hpair : ¬ (rowValues index a).Nodup) :
    ∃ pair, firstPair a none (rowDown index).reverse = .ok (some pair) := by
  have hpos : ∀ i ∈ (rowDown index).reverse, 0 < i ∧ i ≤ a.length := by
    intro i hi
    rw [ha.length]
    exact mem_rowDown hindex (List.mem_reverse.mp hi)
  obtain ⟨pair, hok⟩ := firstPair_ok hpos none
  cases pair with
  | some pair => exact ⟨pair, hok⟩
  | none =>
      exfalso
      have hchain := isChain_of_firstPair_none hpos hok
      rw [Option.toList_none, List.nil_append, map_val_rowDown hindex ha] at hchain
      exact hpair (isChain_lt_of_sorted hsorted hchain).pairwise.nodup

theorem compareYidui_swaps (hindex : index = 1 ∨ index = 6 ∨ index = 11) (ha : Complete a)
    (hb : Complete b) (hsorted : (rowValues index a).Pairwise (· ≤ ·))
    (hsorted' : (rowValues index b).Pairwise (· ≤ ·)) (hpair : ¬ (rowValues index a).Nodup)
    (hpair' : ¬ (rowValues index b).Nodup) :
    Swaps (compareYidui index a b) (compareYidui index b a) := by
  obtain ⟨pair, hok⟩ := firstPair_some hindex ha hsorted hpair
  obtain ⟨pair', hok'⟩ := firstPair_some hindex hb hsorted' hpair'
  simp only [compareYidui, hok, hok', Lua.ok_bind, lessThan, Lua.need_some, Lua.pure_eq_ok,
    Option.some.injEq]
  by_cases heq : pair = pair'
  · rw [if_pos heq, if_pos heq.symm]
    exact findBig_swaps hindex ha hb
  · rw [if_neg heq, if_neg (Ne.symm heq)]
    exact swaps_of_ne heq

end Rows

/-- The row of `cards` at `index` fits the type declared for it, as far as a comparison looks at it:
the row is sorted, a top row is no five-card type, and a declared pair is there. -/
structure RowFits (index : Nat) (t : Int) (cards : List Card) : Prop where
  sorted : (rowValues index cards).Pairwise (· ≤ ·)
  known : 1 ≤ t ∧ t ≤ 11
  top : index = 11 → t = 1 ∨ t = 2 ∨ t = 4 ∨ t = 11
  pair : t = 2 → ¬ (rowValues index cards).Nodup

instance (index : Nat) (t : Int) (cards : List Card) : Decidable (RowFits index t cards) :=
  decidable_of_iff ((rowValues index cards).Pairwise (· ≤ ·) ∧ (1 ≤ t ∧ t ≤ 11) ∧
      (index = 11 → t = 1 ∨ t = 2 ∨ t = 4 ∨ t = 11) ∧ (t = 2 → ¬ (rowValues index cards).Nodup))
    ⟨fun ⟨hsorted, hknown, htop, hpair⟩ => ⟨hsorted, hknown, htop, hpair⟩,
      fun h => ⟨h.sorted, h.known, h.top, h.pair⟩⟩

/-- Every entry of `compare` answers on two rows of its type, and answers the opposite when they
change places. -/
theorem compare_swaps {a b : List Card} {index : Nat} {t : Int}
    {fn : Nat → List Card → List Card → Lua (Option Bool)}
    (hfn : compare (if t = 11 then 4 else t) = some fn)
    (hindex : index = 1 ∨ index = 6 ∨ index = 11) (ha : Complete a) (hb : Complete b)
    (hfit : RowFits index t a) (hfit' : RowFits index t b) :
    Swaps (fn index a b) (fn index b a) := by
  obtain ⟨hlow, hhigh⟩ := hfit.known
  have htop := hfit.top
  interval_cases t <;>
    simp only [compare, Option.some.injEq, if_true, if_false, Int.reduceEq] at hfn <;>
    subst hfn
  · exact findBig_swaps hindex ha hb
  · exact compareYidui_swaps hindex ha hb hfit.sorted hfit'.sorted (hfit.pair rfl) (hfit'.pair rfl)
  · exact compareLiangdui_swaps (by omega) ha hb
  · exact compareSantiao_swaps hindex ha hb
  · exact compareStraight_swaps (Or.inr rfl) (by omega) ha hb
  · exact findBig_swaps hindex ha hb
  · exact compareHulu_swaps (by omega) ha hb
  · exact compareWutong_swaps (by omega) ha hb
  · exact compareStraight_swaps (Or.inl rfl) (by omega) ha hb
  · exact compareWutong_swaps (by omega) ha hb
  · exact compareSantiao_swaps hindex ha hb

end SdyServer.Daboluo
