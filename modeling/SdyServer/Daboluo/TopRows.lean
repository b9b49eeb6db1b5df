import SdyServer.Daboluo.BlockRows

/-!
# Top rows

The generators of the three cards on top read them off the pile at neighbouring positions.
-/

namespace SdyServer.Daboluo

open Blocks

section Pairs

variable {cards : List Card} {row : Three}

theorem three_eq_some {l : List Card} {i1 i2 i3 : Nat} {row : Three} :
    three l i1 i2 i3 = some row ↔
      Lua.nth l i1 = some row.c1 ∧ Lua.nth l i2 = some row.c2 ∧ Lua.nth l i3 = some row.c3 := by
  unfold three
  simp only [Option.bind_eq_bind, Option.bind_eq_some_iff, Option.pure_def, Option.some.injEq]
  constructor
  · rintro ⟨c1, h1, c2, h2, c3, h3, rfl⟩
    exact ⟨h1, h2, h3⟩
  · rintro ⟨h1, h2, h3⟩
    exact ⟨_, h1, _, h2, _, h3, rfl⟩

theorem three_subperm {l : List Card} {i1 i2 i3 : Nat} (h1 : Lua.nth l i1 = some row.c1)
    (h2 : Lua.nth l i2 = some row.c2) (h3 : Lua.nth l i3 = some row.c3)
    (hnodup : [i1, i2, i3].Nodup) :
    row.toList.Subperm l :=
  Lua.subperm_of_nth hnodup (.cons h1 (.cons h2 (.cons h3 .nil)))

/-- A row with a pair in front. -/
theorem yiduiThree_sound (hplain : NoJokers cards) (hmem : row ∈ yiduiThree cards) :
    row.toList.Subperm cards ∧ row.c1.value = row.c2.value := by
  unfold yiduiThree at hmem
  by_cases hshort : cards.length < 3
  · rw [if_pos hshort] at hmem
    exact absurd hmem List.not_mem_nil
  rw [if_neg hshort, getVariety_eq hplain] at hmem
  simp only [List.reverse_nil, List.flatMap_nil, List.append_nil] at hmem
  obtain ⟨i, hi, hrow⟩ := List.mem_filterMap.1 hmem
  have hbounds := mem_up.1 hi
  have hlength := Lua.length_tableSort sortRise cards
  simp only [Option.bind_eq_bind, Option.bind_eq_some_iff] at hrow
  obtain ⟨c, hc, c', hc', hrow⟩ := hrow
  by_cases heq : c.value = c'.value
  · simp only [if_pos heq, Option.bind_eq_some_iff, Option.pure_def, Option.some.injEq] at hrow
    obtain ⟨d, hd, rfl⟩ := hrow
    refine ⟨(three_subperm hc hc' hd ?_).trans (Lua.tableSort_perm sortRise cards).subperm, heq⟩
    split_ifs
    · simp
    · simp
      omega
  · rw [if_neg heq] at hrow
    cases hrow

theorem pairwise_sorted (cards : List Card) :
    (Lua.tableSort sortRise cards).Pairwise fun a b => b.value ≤ a.value := by
  refine (pairwise_sortRise cards).imp ?_
  rintro a b (hlt | ⟨heq, -⟩)
  · exact hlt.le
  · exact heq.ge

/-- Without a pair the cards of a sorted pile fall. -/
theorem exists_pair (hpair : ¬(values cards).Nodup) : ∃ i c c', 1 ≤ i ∧ i + 1 ≤ cards.length ∧
    Lua.nth (Lua.tableSort sortRise cards) i = some c ∧
      Lua.nth (Lua.tableSort sortRise cards) (i + 1) = some c' ∧ c.value = c'.value := by
  by_contra hnone
  push Not at hnone
  apply hpair
  have hchain : (Lua.tableSort sortRise cards).IsChain fun a b => b.value < a.value := by
    rw [List.isChain_iff_getElem]
    intro i hi
    rw [Lua.length_tableSort] at hi
    refine lt_of_le_of_ne
      (List.pairwise_iff_getElem.1 (pairwise_sorted cards) _ _ _ _ (Nat.lt_succ_self i)) ?_
    exact (hnone (i + 1) _ _ (by omega) (by omega) (List.getElem?_eq_getElem _)
      (List.getElem?_eq_getElem _)).symm
  have htrans : Trans (fun a b : Card => b.value < a.value) (fun a b : Card => b.value < a.value)
      (fun a b : Card => b.value < a.value) := ⟨fun hab hbc => lt_trans hbc hab⟩
  have hfalls := List.isChain_iff_pairwise.1 hchain
  have hperm : (values (Lua.tableSort sortRise cards)).Perm (values cards) :=
    (Lua.tableSort_perm sortRise cards).map _
  rw [← hperm.nodup_iff]
  exact List.pairwise_map.2 (hfalls.imp fun h => h.ne')

theorem yiduiThree_ne_nil (hplain : NoJokers cards) (hlength : 3 ≤ cards.length)
    (hpair : ¬(values cards).Nodup) : yiduiThree cards ≠ [] := by
  obtain ⟨i, c, c', hlow, hhigh, hc, hc', heq⟩ := exists_pair hpair
  have hsize := Lua.length_tableSort sortRise cards
  obtain ⟨d, hd⟩ := @Lua.exists_nth _ (Lua.tableSort sortRise cards)
    (if i < (Lua.tableSort sortRise cards).length - 1 then i + 2 else 1) (by split_ifs <;> omega)
    (by split_ifs <;> omega)
  unfold yiduiThree
  rw [if_neg (by omega), getVariety_eq hplain]
  simp only [List.reverse_nil, List.flatMap_nil, List.append_nil]
  refine filterMap_ne_nil (mem_up.2 ⟨hlow, by omega⟩) (b := ⟨c, c', d⟩) ?_
  simp only [hc, hc', Option.bind_eq_bind, Option.bind_some, if_pos heq, hd, Option.pure_def]

end Pairs

section Trips

variable {cards : List Card} {row : Three}

theorem santiao_sound (hplain : NoJokers cards) (hmem : row ∈ santiao cards) :
    row.toList.Subperm cards ∧ row.c1.value = row.c2.value ∧ row.c2.value = row.c3.value := by
  unfold santiao at hmem
  by_cases hshort : cards.length < 3
  · rw [if_pos hshort] at hmem
    exact absurd hmem List.not_mem_nil
  rw [if_neg hshort, getVariety_eq hplain] at hmem
  simp only [List.append_nil] at hmem
  obtain ⟨i, hi, hrow⟩ := List.mem_filterMap.1 hmem
  simp only [Option.bind_eq_bind, Option.bind_eq_some_iff] at hrow
  obtain ⟨row', hthree, hrow⟩ := hrow
  split_ifs at hrow with heq
  rw [Option.pure_def, Option.some.injEq] at hrow
  subst hrow
  obtain ⟨h1, h2, h3⟩ := three_eq_some.1 hthree
  refine ⟨(three_subperm h1 h2 h3 (by simp)).trans (Lua.tableSort_perm sortRise cards).subperm, ?_⟩
  have h12 := Lua.rel_of_nth (pairwise_sorted cards) h1 h2 (by omega)
  have h23 := Lua.rel_of_nth (pairwise_sorted cards) h2 h3 (by omega)
  omega

/-- Three cards of one value are trips. -/
theorem santiao_ne_nil (hplain : NoJokers cards) (hlength : cards.length = 3)
    (htrips : ∀ c ∈ cards, ∀ d ∈ cards, c.value = d.value) : santiao cards ≠ [] := by
  have hsize := Lua.length_tableSort sortRise cards
  obtain ⟨c1, h1⟩ := @Lua.exists_nth _ (Lua.tableSort sortRise cards) 1 (by decide) (by omega)
  obtain ⟨c2, h2⟩ := @Lua.exists_nth _ (Lua.tableSort sortRise cards) 2 (by decide) (by omega)
  obtain ⟨c3, h3⟩ := @Lua.exists_nth _ (Lua.tableSort sortRise cards) 3 (by decide) (by omega)
  have heq : c1.value = c3.value := htrips c1 (Lua.mem_tableSort.1 (Lua.mem_of_nth h1)) c3
    (Lua.mem_tableSort.1 (Lua.mem_of_nth h3))
  have hrow := (@three_eq_some _ 1 2 3 ⟨c1, c2, c3⟩).2 ⟨h1, h2, h3⟩
  unfold santiao
  rw [if_neg (by omega), getVariety_eq hplain]
  simp only [List.append_nil]
  refine filterMap_ne_nil (mem_up.2 ⟨le_rfl, by omega⟩) (b := ⟨c1, c2, c3⟩) ?_
  simp only [hrow, Option.bind_eq_bind, Option.bind_some, if_pos heq, Option.pure_def]

end Trips

section Singles

variable {cards : List Card}

/-- The cards of a top row without a pair fall. -/
theorem wulongThree_parts (hplain : NoJokers cards) {row : Three} (hmem : row ∈ wulongThree cards) :
    Parts Card.value (pile cards) [[row.c1], [row.c2], [row.c3]] ∧
      row.c2.value < row.c1.value ∧ row.c3.value < row.c2.value := by
  unfold wulongThree at hmem
  by_cases hshort : cards.length < 3
  · rw [if_pos hshort] at hmem
    exact absurd hmem List.not_mem_nil
  rw [if_neg hshort] at hmem
  obtain ⟨i, hi, hrow⟩ := List.mem_filterMap.1 hmem
  have hlow := (mem_down.1 hi).1
  obtain ⟨h1, h2, h3⟩ := three_eq_some.1 hrow
  have h12 := wlArr_lt hplain h2 h1 (by omega)
  have h23 := wlArr_lt hplain h3 h2 (by omega)
  refine ⟨⟨[[row.c1], [row.c2], [row.c3]], ?_, ?_, by simp⟩, h12, h23⟩
  · simp [card_ne h12, card_ne h23, card_ne (h23.trans h12)]
  · simp [wlArr_block hplain (Lua.mem_of_nth h1), wlArr_block hplain (Lua.mem_of_nth h2),
      wlArr_block hplain (Lua.mem_of_nth h3)]

theorem wulongThree_ne_nil (hplain : NoJokers cards) (hlength : 3 ≤ cards.length)
    (hwl : 2 < times cards 1) : wulongThree cards ≠ [] := by
  obtain ⟨hwl', -⟩ := times_eq hplain
  obtain ⟨x, hx⟩ := @Lua.exists_nth _ (getGroupCards cards).wlArr 3 (by decide) (by omega)
  obtain ⟨y, hy⟩ := @Lua.exists_nth _ (getGroupCards cards).wlArr 2 (by decide) (by omega)
  obtain ⟨z, hz⟩ := @Lua.exists_nth _ (getGroupCards cards).wlArr 1 (by decide) (by omega)
  unfold wulongThree
  rw [if_neg (by omega)]
  exact filterMap_ne_nil (mem_down.2 ⟨le_rfl, by omega⟩)
    (@three_eq_some _ 3 2 1 ⟨x, y, z⟩ |>.2 ⟨hx, hy, hz⟩)

end Singles

end SdyServer.Daboluo
