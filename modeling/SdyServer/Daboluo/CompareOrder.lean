import SdyServer.Lib.ThreeWay
import SdyServer.Daboluo.Category
import SdyServer.Daboluo.CompareSwap

/-!
# The order of the rows of one type

Every entry of `compare` compares a key of the two rows: the values it looks at, in the order in
which it looks at them. On rows of the type this is the order by the value that makes the type and
then by the other cards from high to low, except that of two fours of a kind the fifth cards are not
compared.
-/

namespace SdyServer.Daboluo

open ThreeWay

section Keys

/-- What rows of type `t` are ordered by. -/
def reference (t : Int) (vs : List Int) : List Int :=
  if t = 1 ∨ t = 6 then desc vs
  else if t = 5 ∨ t = 9 then [-(straights.idxOf (desc vs) : Int)]
  else groups vs

/-- What `compare` orders them by. -/
def rowKey (t : Int) (vs : List Int) : List Int :=
  if t = 8 then (reference t vs).take 1 else reference t vs

/-- A row of type `t`, at its place in a submission that `find_big` accepts. -/
structure PlacedRow (index : Nat) (t : Int) where
  cards : List Card
  enough : index - 1 + (if index = 11 then 3 else 5) ≤ cards.length
  first : val cards 1 ≤ val cards 2
  sorted : (rowValues index cards).Pairwise (· ≤ ·)
  isRow : IsRow t ((cards.drop (index - 1)).take (if index = 11 then 3 else 5))

def PlacedRow.values {index : Nat} {t : Int} (row : PlacedRow index t) : List Int :=
  rowValues index row.cards

end Keys

section Reading

variable {a b : List Card} {index : Nat}

theorem map_val_range' (hpos : 0 < index) {n : Nat} (hle : index - 1 + n ≤ a.length) :
    (List.range' index n).map (val a) = ((a.drop (index - 1)).take n).map Card.value := by
  refine List.ext_getElem (by simp; omega) fun j hj hj' => ?_
  have hlt : j < n := by simpa using hj
  have hsub : index + j - 1 = index - 1 + j := by omega
  have hlt' : index - 1 + j < a.length := by omega
  simp only [List.getElem_map, List.getElem_range', one_mul, List.getElem_take,
    List.getElem_drop, val, hsub,
    List.getElem?_eq_getElem hlt', Option.map_some, Option.getD_some]

theorem valueAt_row (hpos : 0 < index) {j : Nat} {x : Int} (hx : (rowValues index a)[j]? = some x) :
    valueAt a (index + j) = .ok x := by
  unfold rowValues at hx
  generalize (if index = 11 then 3 else 5) = size at hx
  rw [List.getElem?_map, Option.map_eq_some_iff] at hx
  obtain ⟨c, hc, rfl⟩ := hx
  rw [List.getElem?_take] at hc
  split_ifs at hc with hj
  rw [List.getElem?_drop] at hc
  have hne : index + j ≠ 0 := by omega
  have hsub : index + j - 1 = index - 1 + j := by omega
  simp only [valueAt, Lua.elem, Lua.nth, if_neg hne, hsub, hc]
  rfl

theorem findBigFrom_eq {positions : List Nat}
    (hpos : ∀ i ∈ positions, 0 < i ∧ i ≤ a.length ∧ i ≤ b.length) :
    findBigFrom a b positions = .ok (verdict (positions.map (val a)) (positions.map (val b))) := by
  induction positions with
  | nil => rfl
  | cons i rest ih =>
      obtain ⟨hi, ha, hb⟩ := hpos i List.mem_cons_self
      have hrest := ih fun j hj => hpos j (List.mem_cons_of_mem _ hj)
      simp only [findBigFrom, valueAt_eq hi ha, valueAt_eq hi hb, Lua.ok_bind, Lua.pure_eq_ok,
        List.map_cons, verdict_cons]
      split_ifs with hgt hlt heq heq
      · omega
      · simp [hgt]
      · omega
      · simp [hgt]
      · exact hrest
      · omega

variable {t : Int} (row other : PlacedRow index t)

theorem findBig_eq (hindex : index = 1 ∨ index = 6 ∨ index = 11) :
    findBig index row.cards other.cards = .ok (verdict (desc row.values) (desc other.values)) := by
  have hpos : 0 < index := by omega
  have htwo : ∀ row : PlacedRow index t, 2 ≤ row.cards.length := by
    intro row
    have := row.enough
    split_ifs at this <;> omega
  have hdesc : ∀ row : PlacedRow index t, (rowDown index).map (val row.cards) =
      desc row.values := by
    intro row
    unfold PlacedRow.values
    rw [desc_of_sorted row.sorted, rowDown, List.map_reverse, map_val_range' hpos row.enough]
    rfl
  have hpositions : ∀ i ∈ rowDown index, 0 < i ∧ i ≤ row.cards.length ∧ i ≤ other.cards.length := by
    intro i hi
    rw [rowDown, List.mem_reverse, List.mem_range'_1] at hi
    have := row.enough
    have := other.enough
    omega
  unfold findBig
  simp only [valueAt_eq (by omega) (show 1 ≤ row.cards.length from (htwo row).trans' (by omega)),
    valueAt_eq (by omega) (htwo row), valueAt_eq (by omega) (htwo other),
    valueAt_eq (by omega) (show 1 ≤ other.cards.length from (htwo other).trans' (by omega)),
    Lua.ok_bind, row.first, other.first, if_true]
  rw [← hdesc row, ← hdesc other]
  exact findBigFrom_eq hpositions

end Reading

section Comparators

variable {a b : List Card} {index : Nat}

theorem compareWutong_eq (hpos : 0 < index) {x y : Int} (hx : (rowValues index a)[2]? = some x)
    (hy : (rowValues index b)[2]? = some y) : compareWutong index a b = .ok (verdict [x] [y]) := by
  unfold compareWutong
  rw [valueAt_row hpos hx, valueAt_row hpos hy, Lua.ok_bind, Lua.ok_bind, verdict_cons]
  split_ifs <;> rfl

theorem compareHulu_eq (hpos : 0 < index) {x1 x3 x4 y1 y3 y4 : Int}
    (hx1 : (rowValues index a)[0]? = some x1) (hx3 : (rowValues index a)[2]? = some x3)
    (hx4 : (rowValues index a)[3]? = some x4) (hy1 : (rowValues index b)[0]? = some y1)
    (hy3 : (rowValues index b)[2]? = some y3) (hy4 : (rowValues index b)[3]? = some y4) :
    compareHulu index a b = .ok (verdict [x3, x1, x4] [y3, y1, y4]) := by
  have hx := valueAt_row hpos hx1
  have hy := valueAt_row hpos hy1
  rw [Nat.add_zero] at hx hy
  simp only [compareHulu, hx, hy, valueAt_row hpos hx3, valueAt_row hpos hx4, valueAt_row hpos hy3,
    valueAt_row hpos hy4, Lua.ok_bind, Lua.pure_eq_ok, verdict_cons, verdict_self]
  by_cases hthree : x3 = y3
  · by_cases hone : x1 = y1
    · by_cases hfour : x4 = y4
      · simp [hthree, hone, hfour]
      · simp [hthree, hone, hfour]
    · simp [hthree, hone]
  · simp [hthree]

theorem compareLiangdui_eq {low high single low' high' single' : Int}
    (ha : twoPairs index a = .ok (some (low, high, single)))
    (hb : twoPairs index b = .ok (some (low', high', single'))) :
    compareLiangdui index a b = .ok (verdict [high, low, single] [high', low', single']) := by
  simp only [compareLiangdui, ha, hb, Lua.ok_bind, Lua.pure_eq_ok, verdict_cons, verdict_self]
  by_cases hhigh : high = high'
  · by_cases hlow : low = low'
    · by_cases hsingle : single = single'
      · simp [hhigh, hlow, hsingle]
      · simp [hhigh, hlow, hsingle]
    · simp [hhigh, hlow]
  · simp [hhigh]

theorem compareSantiao_eq {t : Int} (row other : PlacedRow index t)
    (hindex : index = 1 ∨ index = 6 ∨ index = 11) {x y : Int} (hx : row.values[2]? = some x)
    (hy : other.values[2]? = some y) :
    compareSantiao index row.cards other.cards =
      .ok (verdict (x :: desc row.values) (y :: desc other.values)) := by
  have hpos : 0 < index := by omega
  unfold compareSantiao
  rw [valueAt_row hpos hx, valueAt_row hpos hy, Lua.ok_bind, Lua.ok_bind, verdict_cons]
  split_ifs
  · exact findBig_eq row other hindex
  · rfl

theorem compareYidui_eq {t : Int} (row other : PlacedRow index t)
    (hindex : index = 1 ∨ index = 6 ∨ index = 11) {x y : Int}
    (hx : firstPair row.cards none (rowDown index).reverse = .ok (some x))
    (hy : firstPair other.cards none (rowDown index).reverse = .ok (some y)) :
    compareYidui index row.cards other.cards =
      .ok (verdict (x :: desc row.values) (y :: desc other.values)) := by
  simp only [compareYidui, hx, hy, Lua.ok_bind, lessThan, Lua.need_some, Lua.pure_eq_ok,
    Option.some.injEq, verdict_cons]
  split_ifs
  · exact findBig_eq row other hindex
  · rfl

end Comparators

section Straights

variable {a b : List Card}

theorem firstLess_eq {xs ys : List Int} (hlength : xs.length = ys.length) :
    firstLess xs ys = (verdict xs ys).map (!·) := by
  induction xs generalizing ys with
  | nil =>
      rw [List.length_eq_zero_iff.1 hlength.symm, verdict_self]
      rfl
  | cons x xs ih =>
      match ys, hlength with
      | y :: ys, hlength =>
          rw [firstLess, verdict_cons]
          split_ifs with heq
          · exact ih (Nat.succ.inj hlength)
          · simp only [Option.map_some, Option.some.injEq]
            rw [← decide_not, decide_eq_decide, not_lt]
            omega

theorem map_value_tableSort (row : List Card) :
    (Lua.tableSort (fun x y => decide (x.value > y.value)) row).map Card.value = desc
    (values row) := by
  refine eq_desc ?_ ((Lua.tableSort_perm _ row).map Card.value)
  rw [List.pairwise_map]
  have hlt : ∀ x y : Card, decide (x.value > y.value) = true ↔ y.value < x.value :=
    fun x y => by simp
  exact Lua.pairwise_tableSort hlt row

theorem mapM_valueAt_five {v : List Card} (hlength : v.length = 5) :
    [1, 2, 3, 4, 5].mapM (valueAt v) = .ok (v.map Card.value) := by
  match v, hlength with
  | [_, _, _, _, _], _ => rfl

/-- The types compared card by card. -/
theorem isMessireFive_cards {i : Int} (hi : i = 9 ∨ i = 5 ∨ i = 1) (ha : a.length = 5)
    (hb : b.length = 5) :
    isMessireFive i a b = .ok ((verdict (desc (values a)) (desc (values b))).map (!·)) := by
  have hsix : ¬i = 6 := by omega
  have hten : ¬(i = 10 ∨ i = 8) := by omega
  have hseven : ¬i = 7 := by omega
  have htake : a.take 5 = a ∧ b.take 5 = b :=
    ⟨List.take_of_length_le ha.le, List.take_of_length_le hb.le⟩
  have hlength : (desc (values a)).length = (desc (values b)).length := by
    rw [(desc_perm _).length_eq, (desc_perm _).length_eq, values, values, List.length_map,
      List.length_map,
      ha, hb]
  simp only [isMessireFive, if_neg hsix, if_neg hten, if_neg hseven, if_pos hi, htake]
  rw [mapM_valueAt_five ((Lua.length_tableSort _ _).trans ha),
    mapM_valueAt_five ((Lua.length_tableSort _ _).trans hb), map_value_tableSort,
      map_value_tableSort,
    Lua.ok_bind, Lua.ok_bind, firstLess_eq hlength]
  rfl

theorem map_not_not (o : Option Bool) : (o.map (!·)).map (!·) = o := by
  cases o with
  | none => rfl
  | some b => simp

theorem compareStraight_eq {index : Nat} {t : Int} (row other : PlacedRow index t)
    (hindex : index = 1 ∨ index = 6) {type : Int} (htype : type = 9 ∨ type = 5) :
    compareStraight type index row.cards other.cards = .ok
    (verdict (desc row.values) (desc other.values)) := by
  have hne : index ≠ 11 := by omega
  have hlength : ∀ row : PlacedRow index t, ((row.cards.drop (index - 1)).take 5).length = 5 := by
    intro row
    have := row.enough
    rw [if_neg hne] at this
    rw [List.length_take, List.length_drop]
    omega
  have hvalues : ∀ row : PlacedRow index t,
      Daboluo.values ((row.cards.drop (index - 1)).take 5) = row.values := by
    intro row
    unfold PlacedRow.values rowValues
    rw [if_neg hne]
    rfl
  unfold compareStraight
  rw [isMessireFive_cards (by omega) (hlength row) (hlength other), hvalues, hvalues, Lua.ok_bind,
    map_not_not]
  rfl

end Straights

section Kickers

variable {vs ws : List Int}

theorem desc_eq_self (hsorted : vs.Pairwise (· ≥ ·)) : desc vs = vs :=
  (eq_desc hsorted (List.Perm.refl vs)).symm

/-- Values that both rows hold do not change how the rows compare. -/
theorem verdict_desc_append (hlength : vs.length = ws.length) (n : Nat) (a : Int) :
    verdict (desc (List.replicate n a ++ vs)) (desc (List.replicate n a ++ ws)) =
      verdict (desc vs) (desc ws) := by
  induction n with
  | zero => rfl
  | succ n ih =>
      rw [List.replicate_succ, List.cons_append, List.cons_append, ← ih]
      have hlength' : (desc (List.replicate n a ++ vs)).length =
          (desc (List.replicate n a ++ ws)).length := by
        rw [(desc_perm _).length_eq, (desc_perm _).length_eq, List.length_append,
          List.length_append, hlength]
      exact verdict_orderedInsert a hlength' (pairwise_desc _) (pairwise_desc _)

/-- Comparing the repeated value and then the whole rows compares the repeated value and the
kickers. -/
theorem verdict_groups {n k : Nat} (hvs : shape vs = n :: List.replicate k 1)
    (hws : shape ws = n :: List.replicate k 1) {a b : Int} (ha : (groups vs).head? = some a)
    (hb : (groups ws).head? = some b) :
    verdict (a :: desc vs) (b :: desc ws) = verdict (groups vs) (groups ws) := by
  obtain ⟨x, ks, hgroups, hk, -, hsorted, hperm⟩ := groups_kickers hvs
  obtain ⟨y, ls, hgroups', hl, -, hsorted', hperm'⟩ := groups_kickers hws
  rw [hgroups, List.head?_cons] at ha
  rw [hgroups', List.head?_cons] at hb
  cases ha
  cases hb
  rw [hgroups, hgroups', verdict_cons, verdict_cons]
  split_ifs with heq
  · rw [desc_eq_of_perm hperm, desc_eq_of_perm hperm', heq, verdict_desc_append (hk.trans hl.symm),
      desc_eq_self (hsorted.imp le_of_lt), desc_eq_self (hsorted'.imp le_of_lt)]
  · rfl

/-- Two values in order, one of which is the same, compare by the other one. -/
theorem verdict_min_max {a b c : Int} (hb : a ≠ b) (hc : a ≠ c) :
    verdict [min a b, max a b] [min a c, max a c] = verdict [b] [c] := by
  rcases hb.lt_or_gt with hb | hb <;> rcases hc.lt_or_gt with hc | hc
  · rw [min_eq_left hb.le, max_eq_right hb.le, min_eq_left hc.le, max_eq_right hc.le,
      verdict_cons_self]
  · rw [min_eq_left hb.le, max_eq_right hb.le, min_eq_right hc.le, max_eq_left hc.le,
      verdict_cons_of_ne hc.ne', verdict_cons_of_ne (hc.trans hb).ne', verdict_eq_true_iff.2 hc,
      verdict_eq_true_iff.2 (hc.trans hb)]
  · rw [min_eq_right hb.le, max_eq_left hb.le, min_eq_left hc.le, max_eq_right hc.le,
      verdict_cons_of_ne hb.ne, verdict_cons_of_ne (hb.trans hc).ne, verdict_eq_false_iff.2 hb,
      verdict_eq_false_iff.2 (hb.trans hc)]
  · rw [min_eq_right hb.le, max_eq_left hb.le, min_eq_right hc.le, max_eq_left hc.le, verdict_cons,
      verdict_cons b c, verdict_self, verdict_self]

theorem length_of_shape {n k : Nat} (hvs : shape vs = n :: List.replicate k 1) :
    vs.length = n + k := by
  obtain ⟨a, ks, -, hk, -, -, hperm⟩ := groups_kickers hvs
  rw [hperm.length_eq, List.length_append, List.length_replicate, hk]

theorem third_of_shape {n k : Nat} (hsorted : vs.Pairwise (· ≤ ·))
    (hvs : shape vs = n :: List.replicate k 1)
    (hn : 3 ≤ n) (hlength : vs.length = 3 ∨ vs.length = 5) : vs[2]? = (groups vs).head? := by
  obtain ⟨a, ks, hgroups, -, -, -, hperm⟩ := groups_kickers hvs
  rw [hgroups, List.head?_cons]
  refine third_eq hsorted hlength ?_
  rw [hperm.count_eq, List.count_append, List.count_replicate_self]
  omega

end Kickers

section Types

variable {index : Nat}

theorem PlacedRow.length_values {t : Int} (row : PlacedRow index t) :
    row.values.length = if index = 11 then 3 else 5 := by
  have := row.enough
  unfold values rowValues
  rw [List.length_map, List.length_take, List.length_drop]
  omega

theorem PlacedRow.length_cases {t : Int} (row : PlacedRow index t) :
    row.values.length = 3 ∨ row.values.length = 5 := by
  rw [row.length_values]
  split_ifs
  · exact Or.inl rfl
  · exact Or.inr rfl

theorem PlacedRow.values_eq {t : Int} (row : PlacedRow index t) {l : List Int}
    (hperm : row.values.Perm l)
    (hsorted : l.Pairwise (· ≤ ·)) : row.values = l :=
  hperm.eq_of_pairwise' row.sorted hsorted

theorem eq_of_length {t : Int} (row other : PlacedRow index t) :
    row.values.length = other.values.length := by
  rw [row.length_values, other.length_values]

theorem compareWutong_key (hpos : 0 < index) {t : Int} (row other : PlacedRow index t) {n k : Nat}
    (hn : 3 ≤ n) (hrow : shape row.values = n :: List.replicate k 1)
    (hother : shape other.values = n :: List.replicate k 1) :
    compareWutong index row.cards other.cards =
      .ok (verdict ((groups row.values).take 1) ((groups other.values).take 1)) := by
  have hx := third_of_shape row.sorted hrow hn row.length_cases
  have hy := third_of_shape other.sorted hother hn other.length_cases
  obtain ⟨a, ks, hgroups, -⟩ := groups_kickers hrow
  obtain ⟨b, ls, hgroups', -⟩ := groups_kickers hother
  have ha : (groups row.values).head? = some a := by rw [hgroups]; rfl
  have hb : (groups other.values).head? = some b := by rw [hgroups']; rfl
  rw [hgroups, hgroups']
  exact compareWutong_eq hpos (hx.trans ha) (hy.trans hb)

/-- Two rows of one place have as many kickers. -/
theorem exists_kickers {n : Nat} {t : Int}
    (hkickers : ∀ row : PlacedRow index t, ∃ k, shape row.values = n :: List.replicate k 1)
    (row other : PlacedRow index t) :
    ∃ k, shape row.values = n :: List.replicate k 1 ∧ shape other.values =
    n :: List.replicate k 1 := by
  obtain ⟨k, hrow⟩ := hkickers row
  obtain ⟨k', hother⟩ := hkickers other
  have hlength := eq_of_length row other
  rw [length_of_shape hrow, length_of_shape hother] at hlength
  obtain rfl : k = k' := by omega
  exact ⟨k, hrow, hother⟩

theorem compareSantiao_key (hindex : index = 1 ∨ index = 6 ∨ index = 11)
    (row other : PlacedRow index 4) :
    compareSantiao index row.cards other.cards = .ok
    (verdict (groups row.values) (groups other.values)) := by
  have hkickers : ∀ row : PlacedRow index 4, ∃ k, shape row.values = 3 :: List.replicate k 1 := by
    intro row
    rcases row.isRow with h | h
    · exact ⟨2, h⟩
    · exact ⟨0, h⟩
  obtain ⟨k, hrow, hother⟩ := exists_kickers hkickers row other
  have hx := third_of_shape row.sorted hrow le_rfl row.length_cases
  have hy := third_of_shape other.sorted hother le_rfl other.length_cases
  obtain ⟨a, ks, hgroups, -⟩ := groups_kickers hrow
  obtain ⟨b, ls, hgroups', -⟩ := groups_kickers hother
  have ha : (groups row.values).head? = some a := by rw [hgroups]; rfl
  have hb : (groups other.values).head? = some b := by rw [hgroups']; rfl
  rw [compareSantiao_eq row other hindex (hx.trans ha) (hy.trans hb),
    verdict_groups hrow hother ha hb]

theorem two_le_count_of_firstPair {cards : List Card} {positions : List Nat}
    (hpos : ∀ i ∈ positions, 0 < i ∧ i ≤ cards.length) {pre : Option Int} {pair : Int}
    (hpair : firstPair cards pre positions = .ok (some pair)) :
    2 ≤ (pre.toList ++ positions.map (val cards)).count pair := by
  induction positions generalizing pre with
  | nil => cases hpair
  | cons i rest ih =>
      have hi := hpos i List.mem_cons_self
      simp only [firstPair, valueAt_eq hi.1 hi.2, Lua.ok_bind] at hpair
      split_ifs at hpair with hpre
      · cases hpair
        have hval : val cards i = pair := (Option.some.inj hpre).symm
        simp [hval]
      · have hrest := ih (fun j hj => hpos j (List.mem_cons_of_mem _ hj)) hpair
        refine hrest.trans ?_
        rw [List.map_cons, ← List.singleton_append]
        exact (List.sublist_append_right _ _).count_le _

theorem firstPair_eq (hindex : index = 1 ∨ index = 6 ∨ index = 11)
    (row : PlacedRow index 2) {k : Nat}
    (hrow : shape row.values = 2 :: List.replicate k 1) :
    firstPair row.cards none (rowDown index).reverse = .ok (groups row.values).head? := by
  have hpositions : ∀ i ∈ (rowDown index).reverse, 0 < i ∧ i ≤ row.cards.length := by
    intro i hi
    rw [rowDown, List.reverse_reverse, List.mem_range'_1] at hi
    have := row.enough
    omega
  have hvalues : (rowDown index).reverse.map (val row.cards) = row.values := by
    rw [rowDown, List.reverse_reverse, map_val_range' (by omega) row.enough]
    rfl
  obtain ⟨a, ks, hgroups, -, hnotMem, hkickers, hperm⟩ := groups_kickers hrow
  obtain ⟨pair, hok⟩ := firstPair_ok hpositions none
  rw [hok, hgroups, List.head?_cons]
  cases pair with
  | none =>
      have hchain := isChain_of_firstPair_none hpositions hok
      rw [Option.toList_none, List.nil_append, hvalues] at hchain
      have hnodup : row.values.Nodup := (isChain_lt_of_sorted row.sorted hchain).pairwise.nodup
      rw [hperm.nodup_iff] at hnodup
      exact absurd hnodup (by simp)
  | some pair =>
      have hcount := two_le_count_of_firstPair hpositions hok
      rw [Option.toList_none, List.nil_append, hvalues, hperm.count_eq, List.count_append,
        List.count_replicate] at hcount
      have hsingle := List.nodup_iff_count_le_one.1 hkickers.nodup pair
      have heq : a = pair := by
        by_contra hne
        rw [if_neg (by simpa using hne)] at hcount
        omega
      rw [heq]

theorem compareYidui_key (hindex : index = 1 ∨ index = 6 ∨ index = 11)
    (row other : PlacedRow index 2) :
    compareYidui index row.cards other.cards = .ok
    (verdict (groups row.values) (groups other.values)) := by
  have hkickers : ∀ row : PlacedRow index 2, ∃ k, shape row.values = 2 :: List.replicate k 1 := by
    intro row
    rcases row.isRow with h | h
    · exact ⟨3, h⟩
    · exact ⟨1, h⟩
  obtain ⟨k, hrow, hother⟩ := exists_kickers hkickers row other
  have hx := firstPair_eq hindex row hrow
  have hy := firstPair_eq hindex other hother
  obtain ⟨a, ks, hgroups, -⟩ := groups_kickers hrow
  obtain ⟨b, ls, hgroups', -⟩ := groups_kickers hother
  have ha : (groups row.values).head? = some a := by rw [hgroups]; rfl
  have hb : (groups other.values).head? = some b := by rw [hgroups']; rfl
  rw [ha] at hx
  rw [hb] at hy
  rw [compareYidui_eq row other hindex hx hy, verdict_groups hrow hother ha hb]

theorem compareHulu_key (hpos : 0 < index) (row other : PlacedRow index 7) :
    compareHulu index row.cards other.cards = .ok
    (verdict (groups row.values) (groups other.values)) := by
  have hlayout : ∀ row : PlacedRow index 7, ∃ a b, groups row.values = [a, b] ∧ a ≠ b ∧
      row.values[0]? = some (min a b) ∧ row.values[2]? = some a ∧ row.values[3]? =
          some (max a b) := by
    intro row
    have hshape : shape row.values = [3, 2] := row.isRow
    obtain ⟨a, b, hgroups, hne, hperm⟩ := groups_hulu hshape
    refine ⟨a, b, hgroups, hne, ?_⟩
    rcases hne.lt_or_gt with hlt | hgt
    · rw [row.values_eq hperm (by simp [hlt.le]), min_eq_left hlt.le, max_eq_right hlt.le]
      exact ⟨rfl, rfl, rfl⟩
    · have hswap : [a, a, a, b, b].Perm [b, b, a, a, a] := @List.perm_append_comm _ [a, a, a] [b, b]
      rw [row.values_eq (hperm.trans hswap) (by simp [hgt.le]), min_eq_right hgt.le,
        max_eq_left hgt.le]
      exact ⟨rfl, rfl, rfl⟩
  obtain ⟨a, b, hgroups, hne, hx1, hx3, hx4⟩ := hlayout row
  obtain ⟨a', b', hgroups', hne', hy1, hy3, hy4⟩ := hlayout other
  rw [compareHulu_eq hpos hx1 hx3 hx4 hy1 hy3 hy4, hgroups, hgroups', verdict_cons,
    verdict_cons a a']
  split_ifs with heq
  · subst heq
    rw [verdict_min_max hne hne']
  · rfl

theorem compareLiangdui_key (hpos : 0 < index) (row other : PlacedRow index 3) :
    compareLiangdui index row.cards other.cards = .ok
    (verdict (groups row.values) (groups other.values)) := by
  have hlayout : ∀ row : PlacedRow index 3, ∃ high low single, groups row.values =
      [high, low, single] ∧
      twoPairs index row.cards = .ok (some (low, high, single)) := by
    intro row
    have hshape : shape row.values = [2, 2, 1] := row.isRow
    obtain ⟨high, low, single, hgroups, hlt, hhigh, hlow, hperm⟩ := groups_liangdui hshape
    refine ⟨high, low, single, hgroups, ?_⟩
    have hread : ∀ {x1 x2 x3 x4 x5 : Int}, row.values = [x1, x2, x3, x4, x5] →
        twoPairs index row.cards = .ok (
          if x2 = x3 ∧ x4 = x5 then some (x2, x4, x1)
          else if x1 = x2 ∧ x4 = x5 then some (x1, x4, x3)
          else if x1 = x2 ∧ x3 = x4 then some (x1, x3, x5)
          else none) := by
      intro x1 x2 x3 x4 x5 hvalues
      have hx : ∀ {j x}, [x1, x2, x3, x4, x5][j]? = some x →
          valueAt row.cards (index + j) = .ok x :=
        fun h => valueAt_row hpos (show row.values[_]? = _ by rw [hvalues]; exact h)
      have hx1 := hx (j := 0) (x := x1) rfl
      rw [Nat.add_zero] at hx1
      simp only [twoPairs, hx1, hx (j := 1) (x := x2) rfl, hx (j := 2) (x := x3) rfl,
        hx (j := 3) (x := x4) rfl, hx (j := 4) (x := x5) rfl, Lua.ok_bind, Lua.pure_eq_ok]
      split_ifs <;> rfl
    have hmove : ∀ l : List Int, (∀ v, l.count v = [high, high, low, low, single].count v) →
        l.Pairwise (· ≤ ·) → row.values = l := by
      intro l hcount hsorted
      exact row.values_eq (hperm.trans (List.perm_iff_count.2 fun v => (hcount v).symm)) hsorted
    -- the single card lies below, between or above the pairs
    rcases hlow.lt_or_gt with habove | hbelow
    · rcases hhigh.lt_or_gt with hover' | hbetween
      · have hvalues : row.values = [low, low, high, high, single] :=
          hmove _ (fun v => by simp only [List.count_cons]; omega)
            (by simp [hlt.le, habove.le, hover'.le])
        rw [hread hvalues]
        simp [hlt.ne]
      · have hvalues : row.values = [low, low, single, high, high] :=
          hmove _ (fun v => by simp only [List.count_cons]; omega)
            (by simp [hlt.le, habove.le, hbetween.le])
        rw [hread hvalues]
        simp [habove.ne]
    · have hvalues : row.values = [single, low, low, high, high] :=
        hmove _ (fun v => by simp only [List.count_cons]; omega)
          (by simp [hlt.le, hbelow.le, (hbelow.trans hlt).le])
      rw [hread hvalues]
      simp
  obtain ⟨a, b, c, hgroups, hpairs⟩ := hlayout row
  obtain ⟨a', b', c', hgroups', hpairs'⟩ := hlayout other
  rw [compareLiangdui_eq hpairs hpairs', hgroups, hgroups']

/-- The straights are listed from the best down. -/
theorem verdict_straights :
    ∀ xs ∈ straights, ∀ ys ∈ straights,
      verdict xs ys = verdict [-(straights.idxOf xs : Int)] [-(straights.idxOf ys : Int)] := by
  decide +kernel

theorem length_of_straight {vs : List Int} (hstraight : Straight vs) : vs.length = 5 := by
  have hfive : ∀ xs ∈ straights, xs.length = 5 := by decide
  rw [← (desc_perm vs).length_eq]
  exact hfive _ hstraight

theorem compareStraight_key {t : Int} (hindex : index = 1 ∨ index = 6 ∨ index = 11)
    (row other : PlacedRow index t) (hrow : Straight row.values) (hother : Straight other.values)
    {type : Int} (htype : type = 9 ∨ type = 5) :
    compareStraight type index row.cards other.cards =
      .ok (verdict [-(straights.idxOf (desc row.values) : Int)]
        [-(straights.idxOf (desc other.values) : Int)]) := by
  have hfive : index = 1 ∨ index = 6 := by
    have := row.length_values
    rw [length_of_straight hrow] at this
    split_ifs at this <;> omega
  rw [compareStraight_eq row other hfive htype, verdict_straights _ hrow _ hother]

/-- Each entry of `compare` compares the keys of the rows. -/
theorem compare_key {t : Int} (ht : 1 ≤ t ∧ t ≤ 10) (hindex : index = 1 ∨ index = 6 ∨ index = 11) :
    ∃ fn, compare t = some fn ∧ ∀ row other : PlacedRow index t,
      fn index row.cards other.cards = .ok
      (verdict (rowKey t row.values) (rowKey t other.values)) := by
  have hpos : 0 < index := by omega
  obtain ⟨hlow, hhigh⟩ := ht
  interval_cases t
  · exact ⟨_, rfl, fun row other => findBig_eq row other hindex⟩
  · exact ⟨_, rfl, compareYidui_key hindex⟩
  · exact ⟨_, rfl, compareLiangdui_key hpos⟩
  · exact ⟨_, rfl, compareSantiao_key hindex⟩
  · exact ⟨_, rfl, fun row other =>
      compareStraight_key hindex row other row.isRow other.isRow (Or.inr rfl)⟩
  · exact ⟨_, rfl, fun row other => findBig_eq row other hindex⟩
  · exact ⟨_, rfl, compareHulu_key hpos⟩
  · exact ⟨_, rfl, fun row other =>
      compareWutong_key (k := 1) hpos row other (by decide) row.isRow other.isRow⟩
  · exact ⟨_, rfl, fun row other =>
      compareStraight_key hindex row other row.isRow.2 other.isRow.2 (Or.inl rfl)⟩
  · refine ⟨_, rfl, fun row other => ?_⟩
    have hsingle : ∀ row : PlacedRow index 10, rowKey 10 row.values =
        (groups row.values).take 1 := by
      intro row
      have hshape : shape row.values = 5 :: List.replicate 0 1 := row.isRow
      obtain ⟨a, ks, hgroups, hlength, -⟩ := groups_kickers hshape
      rw [List.length_eq_zero_iff] at hlength
      show groups row.values = _
      rw [hgroups, hlength]
      rfl
    rw [hsingle, hsingle]
    exact compareWutong_key (k := 0) hpos row other (by decide) row.isRow other.isRow

end Types

section Order

/-- **Rows of one type are compared in a strict weak order**, by the value that makes the type and
then by the kickers, where four of a kind have none. -/
theorem compare_weakOrder {t : Int} (ht : 1 ≤ t ∧ t ≤ 10) {index : Nat}
    (hindex : index = 1 ∨ index = 6 ∨ index = 11) :
    ∃ fn, compare t = some fn ∧ ∃ f : PlacedRow index t → PlacedRow index t → Option Bool,
      (∀ row other, fn index row.cards other.cards = .ok (f row other)) ∧ WeakOrder f ∧
        ∀ row other, f row other = verdict (rowKey t row.values) (rowKey t other.values) := by
  obtain ⟨fn, hfn, hkey⟩ := compare_key ht hindex
  exact ⟨fn, hfn, fun row other => verdict (rowKey t row.values) (rowKey t other.values), hkey,
    WeakOrder.of_key (fun row => rowKey t row.values) fun _ _ => rfl, fun _ _ => rfl⟩

def fourThrees (kicker : Int) : List Card :=
  { type := 1, value := kicker } ::
    ([1, 2, 3, 4].map fun type => { type, value := 3 }) ++
      [5, 6, 8, 9, 10, 7, 11, 12].map fun value => { type := 2, value }

def lowKicker : PlacedRow 1 8 :=
  ⟨fourThrees 1, by decide, by decide, by decide +kernel, by decide +kernel⟩

def highKicker : PlacedRow 1 8 :=
  ⟨fourThrees 2, by decide, by decide, by decide +kernel, by decide +kernel⟩

theorem compare_weakOrder_middleTriple :
    ∃ fn, compare 4 = some fn ∧ ∃ f : PlacedRow 6 4 → PlacedRow 6 4 → Option Bool,
      (∀ row other, fn 6 row.cards other.cards = .ok (f row other)) ∧ WeakOrder f ∧
        ∀ row other, f row other = verdict (rowKey 4 row.values) (rowKey 4 other.values) :=
  compare_weakOrder (by decide) (by decide)

/-- The fifth card of four of a kind is not compared. -/
theorem compare_not_reference :
    compareSitiao 1 highKicker.cards lowKicker.cards = .ok none ∧
      ¬∀ (t : Int) (fn : Nat → List Card → List Card → Lua (Option Bool)), compare t = some fn →
        ∀ row other : PlacedRow 1 t, fn 1 row.cards other.cards =
          .ok (verdict (reference t row.values) (reference t other.values)) := by
  have htie : compareSitiao 1 highKicker.cards lowKicker.cards = .ok none := by decide +kernel
  refine ⟨htie, fun hall => ?_⟩
  have hwins := (hall 8 compareSitiao rfl highKicker lowKicker).symm.trans htie
  have hkeys : reference 8 highKicker.values = reference 8 lowKicker.values :=
    verdict_eq_none_iff.1 (Except.ok.inj hwins)
  exact absurd hkeys (by decide +kernel)

end Order

end SdyServer.Daboluo
