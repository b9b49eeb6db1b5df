import SdyServer.Daboluo.Pile

/-!
# Rows made of blocks

The generators of pairs, trips, quads and five of a kind put whole blocks of a pile together with
low cards of other blocks. What they return is such a row, and how often the values of the pile
occur tells whether they return anything.
-/

namespace SdyServer.Daboluo

open Blocks

/-- How many values occur `n` times, where five stands for five and more. -/
def times (cards : List Card) (n : Nat) : Nat := (shape (values cards)).countP fun k => min k 5 = n

section Shapes

variable {vs : List Int}

theorem shape_perm (vs : List Int) : (shape vs).Perm (vs.dedup.map fun v => vs.count v) :=
  (groups_perm vs).map _

theorem pairwise_shape (vs : List Int) : (shape vs).Pairwise (· ≥ ·) := by
  unfold shape
  rw [List.pairwise_map]
  refine (pairwise_groups vs).imp ?_
  rintro x y (hlt | ⟨heq, -⟩)
  · exact hlt.le
  · exact heq.ge

theorem eq_shape {ns : List Nat} (hsorted : ns.Pairwise (· ≥ ·))
    (hperm : ns.Perm (vs.dedup.map fun v => vs.count v)) : ns = shape vs :=
  (hperm.trans (shape_perm vs).symm).eq_of_pairwise' hsorted (pairwise_shape vs)

theorem shape_pos {k : Nat} (hmem : k ∈ shape vs) : 0 < k := by
  obtain ⟨v, hv, rfl⟩ := List.mem_map.1 hmem
  exact List.count_pos_iff.2 (mem_groups.1 hv)

/-- The blocks of a pile have the sizes that its shape lists. -/
theorem length_blocks_pile (cards : List Card) :
    ((blocks Card.value (pile cards)).map List.length).Perm (shape (values cards)) := by
  have hperm := length_blocks_perm Card.value (pile cards)
  refine hperm.trans (List.Perm.trans ?_ (shape_perm (values cards)).symm)
  have hvalues : ((pile cards).map Card.value).Perm (values cards) := (pile_perm cards).map _
  refine (hvalues.dedup.map _).trans (List.Perm.of_eq (List.map_congr_left fun v _ => ?_))
  exact hvalues.count_eq v

/-- Parts of a pile that get smaller are its groups. -/
theorem shape_flatten {l : List Card} {parts : List (List Card)} (hparts : Parts Card.value l parts)
    (hsorted : (parts.map List.length).Pairwise (· ≥ ·)) :
    shape (values parts.flatten) = parts.map List.length := by
  have hperm := length_blocks_perm Card.value parts.flatten
  rw [hparts.blocks_flatten] at hperm
  exact (eq_shape hsorted hperm).symm

end Shapes

section Rows

variable {cards : List Card}

theorem length_rows (hplain : NoJokers cards) {n : Nat} (hn : 0 < n) :
    ((getGroupCards cards).rows n).length = times cards n := by
  rw [rows_getGroupCards hplain]
  unfold grouped times
  rw [List.length_map, ← List.countP_eq_length_filter, ← (length_blocks_pile cards).countP_eq,
    List.countP_map]
  refine List.countP_congr fun b _ => ?_
  simp [hn]

/-- A group of fewer than five cards is a whole block. -/
theorem rows_block (hplain : NoJokers cards) {n : Nat} (hn : n < 5) {p : List Card}
    (hmem : p ∈ (getGroupCards cards).rows n) : p ∈ blocks Card.value (pile cards) := by
  rw [rows_getGroupCards hplain, mem_grouped] at hmem
  obtain ⟨b, hb, ⟨-, hlength⟩, rfl⟩ := hmem
  rwa [List.take_of_length_le (by omega)]

theorem pairwise_rows (hplain : NoJokers cards) (n : Nat) :
    ((getGroupCards cards).rows n).Pairwise fun p q => ∀ x ∈ p, ∀ y ∈ q, x.value < y.value := by
  rw [rows_getGroupCards hplain]
  unfold grouped
  rw [List.pairwise_map]
  refine ((pairwise_blocks (pairwise_pile cards)).filter _).imp ?_
  intro p q hlt x hx y hy
  exact hlt x (List.mem_of_mem_take hx) y (List.mem_of_mem_take hy)

theorem wlArr_block (hplain : NoJokers cards) {c : Card} (hmem : c ∈ (getGroupCards cards).wlArr) :
    [c] ∈ blocks Card.value (pile cards) :=
  @rows_block _ hplain 1 (by decide) _ (List.mem_map_of_mem hmem)

theorem dzArr_block (hplain : NoJokers cards) {d : Card × Card}
    (hmem : d ∈ (getGroupCards cards).dzArr) :
    [d.1, d.2] ∈ blocks Card.value (pile cards) :=
  @rows_block _ hplain 2 (by decide) _ (List.mem_map.2 ⟨d, hmem, rfl⟩)

theorem stArr_block (hplain : NoJokers cards) {t : Three} (hmem : t ∈ (getGroupCards cards).stArr) :
    [t.c1, t.c2, t.c3] ∈ blocks Card.value (pile cards) :=
  @rows_block _ hplain 3 (by decide) _ (List.mem_map.2 ⟨t, hmem, rfl⟩)

theorem tzArr_block (hplain : NoJokers cards) {q : Card × Card × Card × Card}
    (hmem : q ∈ (getGroupCards cards).tzArr) :
    [q.1, q.2.1, q.2.2.1, q.2.2.2] ∈ blocks Card.value (pile cards) :=
  @rows_block _ hplain 4 (by decide) _ (List.mem_map.2 ⟨q, hmem, rfl⟩)

theorem pairwise_wlArr (hplain : NoJokers cards) :
    (getGroupCards cards).wlArr.Pairwise fun c d => c.value < d.value :=
  (List.pairwise_map.1 (pairwise_rows hplain 1)).imp fun h => h _ (by simp) _ (by simp)

theorem pairwise_dzArr (hplain : NoJokers cards) :
    (getGroupCards cards).dzArr.Pairwise fun d e => d.1.value < e.1.value :=
  (List.pairwise_map.1 (pairwise_rows hplain 2)).imp fun h => h _ (by simp) _ (by simp)

theorem pairwise_stArr (hplain : NoJokers cards) :
    (getGroupCards cards).stArr.Pairwise fun t u => t.c1.value < u.c1.value :=
  (List.pairwise_map.1 (pairwise_rows hplain 3)).imp fun h =>
    h _ (by simp [Three.toList]) _ (by simp [Three.toList])

theorem pairwise_tzArr (hplain : NoJokers cards) :
    (getGroupCards cards).tzArr.Pairwise fun q r => q.1.value < r.1.value :=
  (List.pairwise_map.1 (pairwise_rows hplain 4)).imp fun h => h _ (by simp) _ (by simp)

end Rows

section Positions

variable {i j : Nat}

theorem mem_down {high low : Nat} : i ∈ down high low ↔ low ≤ i ∧ i ≤ high := by
  unfold down
  rw [List.mem_reverse, List.mem_range'_1]
  omega

theorem mem_up {high low : Nat} : i ∈ up low high ↔ low ≤ i ∧ i ≤ high := by
  unfold up
  rw [List.mem_range'_1]
  omega

theorem five_eq_some {l : List Card} {i1 i2 i3 i4 i5 : Nat} {row : Five} :
    five l i1 i2 i3 i4 i5 = some row ↔
      Lua.nth l i1 = some row.c1 ∧ Lua.nth l i2 = some row.c2 ∧ Lua.nth l i3 = some row.c3 ∧
        Lua.nth l i4 = some row.c4 ∧ Lua.nth l i5 = some row.c5 := by
  unfold five
  simp only [Option.bind_eq_bind, Option.bind_eq_some_iff, Option.pure_def, Option.some.injEq]
  constructor
  · rintro ⟨c1, h1, c2, h2, c3, h3, c4, h4, c5, h5, rfl⟩
    exact ⟨h1, h2, h3, h4, h5⟩
  · rintro ⟨h1, h2, h3, h4, h5⟩
    exact ⟨_, h1, _, h2, _, h3, _, h4, _, h5, rfl⟩

theorem wlArr_lt {cards : List Card} (hplain : NoJokers cards) {c d : Card}
    (hc : Lua.nth (getGroupCards cards).wlArr i = some c)
    (hd : Lua.nth (getGroupCards cards).wlArr j = some d) (hij : i < j) : c.value < d.value :=
  Lua.rel_of_nth (r := fun c d => c.value < d.value) (pairwise_wlArr hplain) hc hd hij

theorem dzArr_lt {cards : List Card} (hplain : NoJokers cards) {d e : Card × Card}
    (hd : Lua.nth (getGroupCards cards).dzArr i = some d)
    (he : Lua.nth (getGroupCards cards).dzArr j = some e) (hij : i < j) : d.1.value < e.1.value :=
  Lua.rel_of_nth (r := fun d e => d.1.value < e.1.value) (pairwise_dzArr hplain) hd he hij

theorem stArr_lt {cards : List Card} (hplain : NoJokers cards) {t u : Three}
    (ht : Lua.nth (getGroupCards cards).stArr i = some t)
    (hu : Lua.nth (getGroupCards cards).stArr j = some u) (hij : i < j) : t.c1.value < u.c1.value :=
  Lua.rel_of_nth (r := fun t u => t.c1.value < u.c1.value) (pairwise_stArr hplain) ht hu hij

theorem tzArr_lt {cards : List Card} (hplain : NoJokers cards) {q r : Card × Card × Card × Card}
    (hq : Lua.nth (getGroupCards cards).tzArr i = some q)
    (hr : Lua.nth (getGroupCards cards).tzArr j = some r) (hij : i < j) : q.1.value < r.1.value :=
  Lua.rel_of_nth (r := fun q r => q.1.value < r.1.value) (pairwise_tzArr hplain) hq hr hij

end Positions

section Generators

variable {cards : List Card} {row : Five}

theorem card_ne {c d : Card} (hlt : c.value < d.value) : d ≠ c :=
  fun heq => hlt.ne (congrArg Card.value heq).symm

theorem santiaoFive_parts (hplain : NoJokers cards) (hmem : row ∈ santiaoFive cards) :
    Parts Card.value (pile cards) [[row.c1, row.c2, row.c3], [row.c4], [row.c5]] := by
  unfold santiaoFive at hmem
  simp only [(getGroupCards_piles hplain).2.1, List.length_nil, lt_irrefl, false_and,
    Nat.not_lt_zero,
    if_false] at hmem
  split_ifs at hmem with hshort hst hwl hdz hst3
  · exact absurd hmem List.not_mem_nil
  · obtain ⟨t, ht, hrow⟩ := List.mem_filterMap.1 hmem
    simp only [Option.bind_eq_bind, Option.bind_eq_some_iff, Option.pure_def,
      Option.some.injEq] at hrow
    obtain ⟨x, hx, y, hy, rfl⟩ := hrow
    have ht' := stArr_block hplain (List.mem_reverse.1 ht)
    have hx' := wlArr_block hplain (Lua.mem_of_nth hx)
    have hy' := wlArr_block hplain (Lua.mem_of_nth hy)
    have hne := card_ne (wlArr_lt hplain hy hx (by decide))
    exact ⟨[[t.c1, t.c2, t.c3], [x], [y]], by simp [hne], by simp [ht', hx', hy'], by simp⟩
  · obtain ⟨t, ht, hrow⟩ := List.mem_filterMap.1 hmem
    simp only [Option.bind_eq_bind, Option.bind_eq_some_iff, Option.pure_def,
      Option.some.injEq] at hrow
    obtain ⟨d, hd, e, he, rfl⟩ := hrow
    have ht' := stArr_block hplain (List.mem_reverse.1 ht)
    have hd' := dzArr_block hplain (Lua.mem_of_nth hd)
    have he' := dzArr_block hplain (Lua.mem_of_nth he)
    have hne := card_ne (dzArr_lt hplain he hd (by decide))
    exact ⟨[[t.c1, t.c2, t.c3], [d.1, d.2], [e.1, e.2]], by simp [hne], by simp [ht', hd',
      he'], by simp⟩
  · obtain ⟨i, hi, hrow⟩ := List.mem_filterMap.1 hmem
    simp only [Option.bind_eq_bind, Option.bind_eq_some_iff, Option.pure_def,
      Option.some.injEq] at hrow
    obtain ⟨t, ht, u, hu, w, hw, rfl⟩ := hrow
    have ht' := stArr_block hplain (Lua.mem_of_nth ht)
    have hu' := stArr_block hplain (Lua.mem_of_nth hu)
    have hw' := stArr_block hplain (Lua.mem_of_nth hw)
    have hlow := (mem_down.1 hi).1
    have htu := card_ne (stArr_lt hplain hu ht (by omega))
    have htw := card_ne (stArr_lt hplain hw ht (by omega))
    have huw := card_ne (stArr_lt hplain hw hu (by decide))
    exact ⟨[[t.c1, t.c2, t.c3], [u.c1, u.c2, u.c3], [w.c1, w.c2, w.c3]], by simp [htu, htw, huw],
      by simp [ht', hu', hw'], by simp⟩
  · exact absurd hmem List.not_mem_nil
  · exact absurd hmem List.not_mem_nil

theorem times_eq (hplain : NoJokers cards) :
    (getGroupCards cards).wlArr.length = times cards 1 ∧ (getGroupCards cards).dzArr.length =
    times cards 2 ∧
      (getGroupCards cards).stArr.length = times cards 3 ∧
        (getGroupCards cards).tzArr.length = times cards 4 ∧
          (getGroupCards cards).wtArr.length = times cards 5 := by
  have hrows := fun n hn => @length_rows cards hplain n hn
  refine ⟨?_, ?_, ?_, ?_, ?_⟩
  · exact (List.length_map _).symm.trans (hrows 1 (by decide))
  · exact (List.length_map _).symm.trans (hrows 2 (by decide))
  · exact (List.length_map _).symm.trans (hrows 3 (by decide))
  · exact (List.length_map _).symm.trans (hrows 4 (by decide))
  · exact (List.length_map _).symm.trans (hrows 5 (by decide))

/-- A loop over positions returns something when its body does at one of them. -/
theorem filterMap_ne_nil {α β : Type} {l : List α} {f : α → Option β} {a : α} {b : β} (ha : a ∈ l)
    (hf : f a = some b) : l.filterMap f ≠ [] :=
  List.ne_nil_of_mem (List.mem_filterMap.2 ⟨a, ha, hf⟩)

theorem santiaoFive_ne_nil (hplain : NoJokers cards) (hlength : 5 ≤ cards.length)
    (hst : 0 < times cards 3)
    (hkickers : 1 < times cards 1 ∨ 1 < times cards 2 ∨ 2 < times cards 3) :
    santiaoFive cards ≠ [] := by
  obtain ⟨hwl, hdz, hst', -, -⟩ := times_eq hplain
  rw [← hst'] at hst
  obtain ⟨t, ht⟩ := List.exists_mem_of_length_pos hst
  unfold santiaoFive
  rw [if_neg (by omega)]
  simp only [if_pos hst]
  split_ifs with h1 h2 h3
  · obtain ⟨x, hx⟩ := @Lua.exists_nth _ (getGroupCards cards).wlArr 2 (by decide) (by omega)
    obtain ⟨y, hy⟩ := @Lua.exists_nth _ (getGroupCards cards).wlArr 1 (by decide) (by omega)
    exact filterMap_ne_nil (List.mem_reverse.2 ht) (by rw [hx, hy]; rfl)
  · obtain ⟨x, hx⟩ := @Lua.exists_nth _ (getGroupCards cards).dzArr 2 (by decide) (by omega)
    obtain ⟨y, hy⟩ := @Lua.exists_nth _ (getGroupCards cards).dzArr 1 (by decide) (by omega)
    exact filterMap_ne_nil (List.mem_reverse.2 ht) (by rw [hx, hy]; rfl)
  · obtain ⟨z, hz⟩ := @Lua.exists_nth _ (getGroupCards cards).stArr 3 (by decide) (by omega)
    obtain ⟨x, hx⟩ := @Lua.exists_nth _ (getGroupCards cards).stArr 2 (by decide) (by omega)
    obtain ⟨y, hy⟩ := @Lua.exists_nth _ (getGroupCards cards).stArr 1 (by decide) (by omega)
    exact filterMap_ne_nil (mem_down.2 ⟨le_rfl, h3⟩) (by rw [hz, hx, hy]; rfl)
  · omega

theorem liangdui_parts (hplain : NoJokers cards) (hmem : row ∈ liangdui cards) :
    Parts Card.value (pile cards) [[row.c1, row.c2], [row.c3, row.c4], [row.c5]] := by
  unfold liangdui at hmem
  by_cases hshort : cards.length < 5
  · rw [if_pos hshort] at hmem
    exact absurd hmem List.not_mem_nil
  rw [if_neg hshort] at hmem
  dsimp only at hmem
  split at hmem
  · obtain ⟨l, hl, hrow⟩ := List.mem_filterMap.1 hmem
    have hlow := (mem_down.1 hl).1
    simp only [Option.bind_eq_bind, Option.bind_eq_some_iff] at hrow
    obtain ⟨d, hd, e, he, hrow⟩ := hrow
    have hd' := dzArr_block hplain (Lua.mem_of_nth hd)
    have he' := dzArr_block hplain (Lua.mem_of_nth he)
    have hde : d.1 ≠ e.1 := card_ne (dzArr_lt hplain he hd (by split_ifs at hlow <;> omega))
    split_ifs at hrow with hwl
    · simp only [Option.bind_eq_some_iff, Option.pure_def, Option.some.injEq] at hrow
      obtain ⟨z, hz, rfl⟩ := hrow
      have hz' := wlArr_block hplain (Lua.mem_of_nth hz)
      exact ⟨[[d.1, d.2], [e.1, e.2], [z]], by simp [hde], by simp [hd', he', hz'], by simp⟩
    · simp only [Option.bind_eq_some_iff, Option.map_eq_some_iff, Option.pure_def,
        Option.some.injEq] at hrow
      obtain ⟨z, ⟨f, hf, rfl⟩, rfl⟩ := hrow
      have hf' := dzArr_block hplain (Lua.mem_of_nth hf)
      have hfe := card_ne (dzArr_lt hplain he hf (by decide))
      rw [if_pos (by omega)] at hlow
      have hdf := card_ne (dzArr_lt hplain hf hd (by omega))
      exact ⟨[[d.1, d.2], [e.1, e.2], [f.1, f.2]], by simp [hde, hdf,
        hfe.symm], by simp [hd', he', hf'],
        by simp⟩
  · exact absurd hmem List.not_mem_nil

theorem liangdui_ne_nil (hplain : NoJokers cards) (hlength : 5 ≤ cards.length)
    (hsize : (1 < times cards 2 ∧ 0 < times cards 1) ∨ 2 < times cards 2) :
    liangdui cards ≠ [] := by
  obtain ⟨hwl, hdz, -⟩ := times_eq hplain
  unfold liangdui
  rw [if_neg (by omega)]
  simp only [hwl, hdz, gt_iff_lt]
  rw [if_pos hsize]
  obtain ⟨e, he⟩ := @Lua.exists_nth _ (getGroupCards cards).dzArr 1 (by decide) (by omega)
  obtain ⟨f, hf⟩ := @Lua.exists_nth _ (getGroupCards cards).dzArr 2 (by decide) (by omega)
  obtain ⟨d, hd⟩ :=
    @Lua.exists_nth _ (getGroupCards cards).dzArr (times cards 2) (by omega) (by omega)
  have hlast : times cards 2 ∈ down (times cards 2) (if times cards 1 = 0 then 3 else 2) := by
    rw [mem_down]
    split_ifs <;> omega
  by_cases hsingle : 0 < times cards 1
  · obtain ⟨x, hx⟩ := @Lua.exists_nth _ (getGroupCards cards).wlArr 1 (by decide) (by omega)
    exact filterMap_ne_nil hlast (by simp only [hd, he, hx, if_pos hsingle]; rfl)
  · exact filterMap_ne_nil hlast (by simp only [hd, he, hf, if_neg hsingle]; rfl)

/-- The single cards of a pair's row fall. -/
theorem yiduiFive_parts (hplain : NoJokers cards) (hmem : row ∈ yiduiFive cards) :
    Parts Card.value (pile cards) [[row.c1, row.c2], [row.c3], [row.c4], [row.c5]] ∧
      row.c4.value < row.c3.value ∧ row.c5.value < row.c4.value := by
  unfold yiduiFive at hmem
  simp only [(getGroupCards_piles hplain).2.1, List.length_nil, lt_irrefl, false_and,
    if_false] at hmem
  split_ifs at hmem with hshort hdz hwl hdz4
  · exact absurd hmem List.not_mem_nil
  · obtain ⟨d, hd, hrow⟩ := List.mem_filterMap.1 hmem
    simp only [Option.bind_eq_bind, Option.bind_eq_some_iff, Option.pure_def,
      Option.some.injEq] at hrow
    obtain ⟨x, hx, y, hy, z, hz, rfl⟩ := hrow
    have hd' := dzArr_block hplain (List.mem_reverse.1 hd)
    have hx' := wlArr_block hplain (Lua.mem_of_nth hx)
    have hy' := wlArr_block hplain (Lua.mem_of_nth hy)
    have hz' := wlArr_block hplain (Lua.mem_of_nth hz)
    have hyx := wlArr_lt hplain hy hx (by decide)
    have hzy := wlArr_lt hplain hz hy (by decide)
    refine ⟨⟨[[d.1, d.2], [x], [y], [z]], ?_, by simp [hd', hx', hy', hz'], by simp⟩, hyx, hzy⟩
    simp [card_ne hyx, card_ne hzy, card_ne (hzy.trans hyx)]
  · obtain ⟨i, hi, hrow⟩ := List.mem_filterMap.1 hmem
    simp only [Option.bind_eq_bind, Option.bind_eq_some_iff, Option.pure_def,
      Option.some.injEq] at hrow
    obtain ⟨d, hd, x, hx, y, hy, z, hz, rfl⟩ := hrow
    have hd' := dzArr_block hplain (Lua.mem_of_nth hd)
    have hx' := dzArr_block hplain (Lua.mem_of_nth hx)
    have hy' := dzArr_block hplain (Lua.mem_of_nth hy)
    have hz' := dzArr_block hplain (Lua.mem_of_nth hz)
    have hxd := dzArr_lt hplain hx hd (by have := (mem_down.1 hi).1; omega)
    have hyx := dzArr_lt hplain hy hx (by decide)
    have hzy := dzArr_lt hplain hz hy (by decide)
    refine ⟨⟨[[d.1, d.2], [x.1, x.2], [y.1, y.2], [z.1, z.2]],
      ?_, by simp [hd', hx', hy', hz'], by simp⟩,
      hyx, hzy⟩
    simp [card_ne hyx, card_ne hzy, card_ne (hzy.trans hyx), card_ne hxd, card_ne (hyx.trans hxd),
      card_ne (hzy.trans (hyx.trans hxd))]
  · exact absurd hmem List.not_mem_nil
  · exact absurd hmem List.not_mem_nil

theorem yiduiFive_ne_nil (hplain : NoJokers cards) (hlength : 5 ≤ cards.length)
    (hdz : 0 < times cards 2)
    (hwl : 2 < times cards 1) : yiduiFive cards ≠ [] := by
  obtain ⟨hwl', hdz', -⟩ := times_eq hplain
  rw [← hdz'] at hdz
  obtain ⟨d, hd⟩ := List.exists_mem_of_length_pos hdz
  obtain ⟨x, hx⟩ := @Lua.exists_nth _ (getGroupCards cards).wlArr 3 (by decide) (by omega)
  obtain ⟨y, hy⟩ := @Lua.exists_nth _ (getGroupCards cards).wlArr 2 (by decide) (by omega)
  obtain ⟨z, hz⟩ := @Lua.exists_nth _ (getGroupCards cards).wlArr 1 (by decide) (by omega)
  unfold yiduiFive
  rw [if_neg (by omega)]
  simp only [if_pos hdz]
  rw [if_pos (by omega)]
  exact filterMap_ne_nil (List.mem_reverse.2 hd) (by rw [hx, hy, hz]; rfl)

theorem hulu_parts (hplain : NoJokers cards) (hmem : row ∈ hulu cards) :
    Parts Card.value (pile cards) [[row.c1, row.c2, row.c3], [row.c4, row.c5]] := by
  unfold hulu at hmem
  simp only [(getGroupCards_piles hplain).2.1, List.length_nil, lt_irrefl, false_and, if_false,
    List.append_nil] at hmem
  split_ifs at hmem with hshort
  · exact absurd hmem List.not_mem_nil
  · split at hmem
    · rename_i d d' rest hdz
      obtain ⟨t, ht, rfl⟩ := List.mem_map.1 hmem
      have ht' := stArr_block hplain (List.mem_reverse.1 ht)
      have hd' := @dzArr_block _ hplain (d, d') (by rw [hdz]; exact List.mem_cons_self ..)
      exact ⟨[[t.c1, t.c2, t.c3], [d, d']], by simp, by simp [ht', hd'], by simp⟩
    · obtain ⟨i, hi, hmem⟩ := List.mem_flatMap.1 hmem
      obtain ⟨l, hl, hrow⟩ := List.mem_filterMap.1 hmem
      simp only [Option.bind_eq_bind, Option.bind_eq_some_iff, Option.pure_def,
        Option.some.injEq] at hrow
      obtain ⟨t, ht, u, hu, rfl⟩ := hrow
      have ht' := stArr_block hplain (Lua.mem_of_nth ht)
      have hu' := stArr_block hplain (Lua.mem_of_nth hu)
      have hlow := mem_up.1 hl
      have hhigh := mem_down.1 hi
      have hne := card_ne (stArr_lt hplain hu ht (by omega))
      exact ⟨[[t.c1, t.c2, t.c3], [u.c1, u.c2, u.c3]], by simp [hne], by simp [ht', hu'], by simp⟩

theorem hulu_ne_nil (hplain : NoJokers cards) (hlength : 5 ≤ cards.length)
    (hsize : (0 < times cards 3 ∧ 0 < times cards 2) ∨ 1 < times cards 3) : hulu cards ≠ [] := by
  obtain ⟨-, hdz, hst, -⟩ := times_eq hplain
  unfold hulu
  simp only [(getGroupCards_piles hplain).2.1, List.length_nil, lt_irrefl, false_and, if_false,
    List.append_nil]
  rw [if_neg (by omega)]
  split
  · obtain ⟨t, ht⟩ : ∃ t, t ∈ (getGroupCards cards).stArr :=
      List.exists_mem_of_length_pos (by omega)
    exact List.ne_nil_of_mem (List.mem_map_of_mem (List.mem_reverse.2 ht))
  · rename_i hempty
    rw [hempty, List.length_nil] at hdz
    obtain ⟨t, ht⟩ := @Lua.exists_nth _ (getGroupCards cards).stArr 2 (by decide) (by omega)
    obtain ⟨u, hu⟩ := @Lua.exists_nth _ (getGroupCards cards).stArr 1 (by decide) (by omega)
    refine @List.ne_nil_of_mem Five ⟨t.c1, t.c2, t.c3, u.c1, u.c2⟩ _
      (List.mem_flatMap.2 ⟨2, mem_down.2 ⟨by decide, by omega⟩, ?_⟩)
    exact List.mem_filterMap.2 ⟨1, mem_up.2 ⟨le_rfl, le_rfl⟩, by rw [ht, hu]; rfl⟩

/-- The quads of a pile from the highest down, each of them with the same fifth card. -/
def quadsWith (g : GroupCards) (fifth : Card) : List Five :=
  g.tzArr.reverse.map fun q => ⟨q.1, q.2.1, q.2.2.1, q.2.2.2, fifth⟩

theorem quadsWith_parts (hplain : NoJokers cards) {fifth : Card} {b : List Card}
    (hb : b ∈ blocks Card.value (pile cards)) (hfifth : [fifth].Sublist b) (hlength : b.length < 4)
    (hmem : row ∈ quadsWith (getGroupCards cards) fifth) :
    Parts Card.value (pile cards) [[row.c1, row.c2, row.c3, row.c4], [row.c5]] := by
  obtain ⟨q, hq, rfl⟩ := List.mem_map.1 hmem
  have hq' := tzArr_block hplain (List.mem_reverse.1 hq)
  refine ⟨[[q.1, q.2.1, q.2.2.1, q.2.2.2], b], ?_, by simp [hq', hb], by simpa using hfifth⟩
  rw [List.nodup_cons]
  refine ⟨fun hsame => ?_, by simp⟩
  rw [← List.mem_singleton.1 hsame] at hlength
  exact absurd hlength (by simp)

theorem quadsWith_head (hplain : NoJokers cards) {fifth : Card}
    (hhead : row ∈ (quadsWith (getGroupCards cards) fifth).head?) :
    ∀ q ∈ (getGroupCards cards).tzArr, q.1.value ≤ row.c1.value := by
  unfold quadsWith at hhead
  rw [List.head?_map, List.head?_reverse] at hhead
  obtain ⟨last, hlast, rfl⟩ := Option.map_eq_some_iff.1 hhead
  obtain ⟨init, hinit⟩ := List.getLast?_eq_some_iff.1 hlast
  have hpair := pairwise_tzArr hplain
  intro q hq
  rw [hinit] at hq hpair
  rcases List.mem_append.1 hq with hq | hq
  · exact ((List.pairwise_append.1 hpair).2.2 q hq last (List.mem_singleton_self _)).le
  · exact (congrArg (fun q => q.1.value) (List.mem_singleton.1 hq)).le

theorem quadsWith_ne_nil {g : GroupCards} (fifth : Card) (hlength : 0 < g.tzArr.length) :
    quadsWith g fifth ≠ [] := by
  unfold quadsWith
  rw [Ne, List.map_eq_nil_iff, List.reverse_eq_nil_iff]
  exact List.ne_nil_of_length_pos hlength

/-- The quads of a pile that has only quads, each of them with a card of the lowest one. -/
def quadsOnly (g : GroupCards) : List Five :=
  (down g.tzArr.length 2).filterMap fun i => do
    let q ← Lua.nth g.tzArr i
    return ⟨q.1, q.2.1, q.2.2.1, q.2.2.2, (← Lua.nth g.tzArr 1).1⟩

theorem quadsOnly_parts (hplain : NoJokers cards) (hmem : row ∈ quadsOnly (getGroupCards cards)) :
    Parts Card.value (pile cards) [[row.c1, row.c2, row.c3, row.c4], [row.c5]] := by
  obtain ⟨i, hi, hrow⟩ := List.mem_filterMap.1 hmem
  simp only [Option.bind_eq_bind, Option.bind_eq_some_iff, Option.pure_def,
    Option.some.injEq] at hrow
  obtain ⟨q, hq, r, hr, rfl⟩ := hrow
  have hq' := tzArr_block hplain (Lua.mem_of_nth hq)
  have hr' := tzArr_block hplain (Lua.mem_of_nth hr)
  have hne := card_ne (tzArr_lt hplain hr hq (by have := (mem_down.1 hi).1; omega))
  exact ⟨[[q.1, q.2.1, q.2.2.1, q.2.2.2], [r.1, r.2.1, r.2.2.1, r.2.2.2]], by simp [hne],
    by simp [hq', hr'], by simp⟩

theorem sitiao_eq (hplain : NoJokers cards) (hlength : 5 ≤ cards.length) :
    sitiao cards = .ok (match (getGroupCards cards).wlArr, (getGroupCards cards).dzArr,
        (getGroupCards cards).stArr with
      | w :: _, _, _ => quadsWith (getGroupCards cards) w
      | [], d :: _, _ => quadsWith (getGroupCards cards) d.1
      | [], [], t :: _ => quadsWith (getGroupCards cards) t.c1
      | [], [], [] => quadsOnly (getGroupCards cards)) := by
  unfold sitiao quadsOnly quadsWith
  simp only [(getGroupCards_piles hplain).2.1]
  rw [if_neg (by omega)]
  rcases (getGroupCards cards).wlArr with _ | ⟨w, _⟩
  · rcases (getGroupCards cards).dzArr with _ | ⟨d, _⟩
    · rcases (getGroupCards cards).stArr with _ | ⟨t, _⟩
      · rfl
      · rfl
    · rfl
  · rfl

theorem sitiao_ok (hplain : NoJokers cards) : ∃ rows, sitiao cards = .ok rows := by
  by_cases hshort : cards.length < 5
  · exact ⟨[], by unfold sitiao; rw [if_pos hshort]; rfl⟩
  · exact ⟨_, sitiao_eq hplain (by omega)⟩

theorem sitiao_parts (hplain : NoJokers cards) {rows : List Five} (hrows : sitiao cards = .ok rows)
    (hmem : row ∈ rows) :
    Parts Card.value (pile cards) [[row.c1, row.c2, row.c3, row.c4], [row.c5]] := by
  by_cases hshort : cards.length < 5
  · unfold sitiao at hrows
    rw [if_pos hshort] at hrows
    cases hrows
    exact absurd hmem List.not_mem_nil
  rw [sitiao_eq hplain (by omega), Except.ok.injEq] at hrows
  subst hrows
  split at hmem
  · rename_i w _ hwl
    have hw := @wlArr_block _ hplain w (by rw [hwl]; exact List.mem_cons_self ..)
    exact quadsWith_parts hplain hw (by simp) (by simp) hmem
  · rename_i d _ _ hdz
    have hd := @dzArr_block _ hplain d (by rw [hdz]; exact List.mem_cons_self ..)
    exact quadsWith_parts hplain hd (by simp) (by simp) hmem
  · rename_i t _ _ _ hst
    have ht := @stArr_block _ hplain t (by rw [hst]; exact List.mem_cons_self ..)
    exact quadsWith_parts hplain ht (by simp) (by simp) hmem
  · exact quadsOnly_parts hplain hmem

theorem sitiao_ne_nil (hplain : NoJokers cards) {rows : List Five} (hrows : sitiao cards = .ok rows)
    (hlength : 5 ≤ cards.length) (htz : 0 < times cards 4)
    (hkickers : 0 < times cards 1 ∨ 0 < times cards 2 ∨ 0 < times cards 3 ∨ 1 < times cards 4) :
    rows ≠ [] := by
  obtain ⟨hwl, hdz, hst, htz', -⟩ := times_eq hplain
  rw [sitiao_eq hplain hlength, Except.ok.injEq] at hrows
  subst hrows
  split
  · exact quadsWith_ne_nil _ (by omega)
  · exact quadsWith_ne_nil _ (by omega)
  · exact quadsWith_ne_nil _ (by omega)
  · rename_i hwl' hdz' hst'
    rw [hwl', List.length_nil] at hwl
    rw [hdz', List.length_nil] at hdz
    rw [hst', List.length_nil] at hst
    obtain ⟨q, hq⟩ := @Lua.exists_nth _ (getGroupCards cards).tzArr 2 (by decide) (by omega)
    obtain ⟨r, hr⟩ := @Lua.exists_nth _ (getGroupCards cards).tzArr 1 (by decide) (by omega)
    exact filterMap_ne_nil (mem_down.2 ⟨le_rfl, by omega⟩) (by rw [hq, hr]; rfl)

/-- The first row has the highest quad of a pile that has other cards as well. -/
theorem sitiao_head (hplain : NoJokers cards) {rows : List Five} (hrows : sitiao cards = .ok rows)
    (hlength : 5 ≤ cards.length)
    (hkickers : 0 < times cards 1 ∨ 0 < times cards 2 ∨ 0 < times cards 3)
    (hhead : row ∈ rows.head?) :
    ∀ q ∈ (getGroupCards cards).tzArr, q.1.value ≤ row.c1.value := by
  obtain ⟨hwl, hdz, hst, -⟩ := times_eq hplain
  rw [sitiao_eq hplain hlength, Except.ok.injEq] at hrows
  subst hrows
  split at hhead
  · exact quadsWith_head hplain hhead
  · exact quadsWith_head hplain hhead
  · exact quadsWith_head hplain hhead
  · rename_i hwl' hdz' hst'
    rw [hwl', List.length_nil] at hwl
    rw [hdz', List.length_nil] at hdz
    rw [hst', List.length_nil] at hst
    omega

theorem wutong_eq (hplain : NoJokers cards) (hlength : 5 ≤ cards.length) :
    wutong cards = .ok (getGroupCards cards).wtArr.reverse := by
  unfold wutong
  simp only [(getGroupCards_piles hplain).2.1]
  rw [if_neg (by omega)]
  rfl

theorem wutong_ok (hplain : NoJokers cards) : ∃ rows, wutong cards = .ok rows := by
  by_cases hshort : cards.length < 5
  · exact ⟨[], by unfold wutong; rw [if_pos hshort]; rfl⟩
  · exact ⟨_, wutong_eq hplain (by omega)⟩

theorem wutong_parts (hplain : NoJokers cards) (hmem : row ∈ (getGroupCards cards).wtArr) :
    Parts Card.value (pile cards) [row.toList] := by
  have hrow : row.toList ∈ (getGroupCards cards).rows 5 := List.mem_map_of_mem hmem
  rw [rows_getGroupCards hplain, mem_grouped] at hrow
  obtain ⟨b, hb, -, htake⟩ := hrow
  refine ⟨[b], by simp, by simpa using hb, .cons ⟨by simp [Five.toList], ?_⟩ .nil⟩
  exact htake ▸ List.take_sublist 5 b

/-- The cards of a row without a pair fall, and they are not all of one suit. -/
theorem wulongFive_parts (hplain : NoJokers cards) (hmem : row ∈ wulongFive cards) :
    Parts Card.value (pile cards) [[row.c1], [row.c2], [row.c3], [row.c4], [row.c5]] ∧
      row.toList.Pairwise (fun c d => d.value < c.value) ∧ ¬Flush row.toList := by
  unfold wulongFive at hmem
  by_cases hshort : cards.length < 5
  · rw [if_pos hshort] at hmem
    exact absurd hmem List.not_mem_nil
  rw [if_neg hshort] at hmem
  obtain ⟨i, hi, hrow⟩ := List.mem_filterMap.1 hmem
  have hlow := (mem_down.1 hi).1
  simp only [Option.bind_eq_bind, Option.bind_eq_some_iff, Option.pure_def] at hrow
  obtain ⟨row', hfive, hrow⟩ := hrow
  split_ifs at hrow with hmixed
  rw [Option.some.injEq] at hrow
  subst hrow
  obtain ⟨h1, h2, h3, h4, h5⟩ := five_eq_some.1 hfive
  have h12 := wlArr_lt hplain h2 h1 (by omega)
  have h23 := wlArr_lt hplain h3 h2 (by decide)
  have h34 := wlArr_lt hplain h4 h3 (by decide)
  have h45 := wlArr_lt hplain h5 h4 (by decide)
  have hfalls : row'.toList.Pairwise fun c d => d.value < c.value := by
    simp only [Five.toList, List.pairwise_cons, List.mem_cons, List.not_mem_nil, or_false,
      forall_eq_or_imp, forall_eq, List.Pairwise.nil, and_true, false_imp_iff, implies_true]
    omega
  refine ⟨⟨[[row'.c1], [row'.c2], [row'.c3], [row'.c4], [row'.c5]], ?_, ?_, by simp⟩, hfalls, ?_⟩
  · simp [card_ne h12, card_ne h23, card_ne h34, card_ne h45, card_ne (h23.trans h12),
      card_ne (h34.trans h23), card_ne (h45.trans h34), card_ne (h34.trans (h23.trans h12)),
      card_ne (h45.trans (h34.trans h23)), card_ne (h45.trans (h34.trans (h23.trans h12)))]
  · simp [wlArr_block hplain (Lua.mem_of_nth h1), wlArr_block hplain (Lua.mem_of_nth h2),
      wlArr_block hplain (Lua.mem_of_nth h3), wlArr_block hplain (Lua.mem_of_nth h4),
      wlArr_block hplain (Lua.mem_of_nth h5)]
  · intro hflush
    simp only [Five.toList, Bool.and_eq_true] at hmixed
    obtain ⟨⟨hmixed, -⟩, -⟩ := hmixed
    obtain ⟨p, hp, hne⟩ := List.any_eq_true.1 hmixed
    obtain ⟨ha, hb⟩ := List.of_mem_zip hp
    exact of_decide_eq_true hne (hflush _ (List.mem_of_mem_tail hb) _ ha)

end Generators

end SdyServer.Daboluo
