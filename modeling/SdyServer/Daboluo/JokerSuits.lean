import SdyServer.Daboluo.Variety

/-!
# Suits of rows with jokers

Jokers come in as cards of the four suits. They make the suits of a hand as large as rows when the
suits lack no more cards than there are jokers. The test of `checkSpecialVariety` is passed by two
suits of one card short each, and by a single suit.
-/

namespace SdyServer.Daboluo

open Blocks Weights

def RowSize (n : Nat) : Prop := n = 3 ∨ n = 5 ∨ n = 8 ∨ n = 10

instance (n : Nat) : Decidable (RowSize n) := inferInstanceAs (Decidable (_ ∨ _ ∨ _ ∨ _))

/-- The suits of the cards of three flushes. -/
structure SuitsOfRows (ts : List Int) : Prop where
  kinds : ts.dedup.length = 2 ∨ ts.dedup.length = 3
  sizes : ∀ t ∈ ts, RowSize (ts.count t)

/-- Some `k` suits that come in make suits of rows. -/
def MakesRows (k : Nat) (ts : List Int) : Prop :=
  ∃ us : List Int, us.length = k ∧ us ⊆ [1, 2, 3, 4] ∧ SuitsOfRows (us ++ ts)

section Suits

variable {k : Nat} {ts us : List Int} {hand : List Card}

theorem length_blocks_type (hand : List Card) :
    (blocks Card.type hand).length = (hand.map Card.type).dedup.length := by
  unfold blocks
  rw [List.length_map, (keys_perm Card.type hand).length_eq]

theorem splitsIntoFlushes_iff (hlength : hand.length = 13) :
    SplitsIntoFlushes hand ↔ SuitsOfRows (hand.map Card.type) := by
  rw [← isSth_blocks_iff (List.Perm.refl hand) hlength, isSth_iff, length_blocks_type]
  constructor
  · rintro ⟨hkinds, hsizes⟩
    refine ⟨hkinds, fun t ht => ?_⟩
    obtain ⟨c, hc, rfl⟩ := List.mem_map.1 ht
    rw [← length_block]
    exact hsizes _ (block_mem_blocks hc)
  · rintro ⟨hkinds, hsizes⟩
    refine ⟨hkinds, fun g hg => ?_⟩
    obtain ⟨t, ht, rfl⟩ := mem_blocks.1 hg
    obtain ⟨c, hc, rfl⟩ := mem_keys.1 ht
    rw [length_block]
    exact hsizes _ (List.mem_map_of_mem hc)

theorem length_dedup_append (hsub : us ⊆ ts) : (us ++ ts).dedup.length = ts.dedup.length := by
  rw [← List.card_toFinset, ← List.card_toFinset, List.toFinset_append,
    Finset.union_eq_right.2 (fun t ht => List.mem_toFinset.2 (hsub (List.mem_toFinset.1 ht)))]

/-- What a suit lacks comes in when it gets the size of a row or two. -/
theorem lacks_le : ∀ n ≤ 13, ∀ m ≤ 2, RowSize (m + n) → lacks n ≤ m := by
  decide

theorem total_lacks_le (hlength : k + ts.length = 13) (hk : k = 1 ∨ k = 2)
    (hmakes : MakesRows k ts) :
    (ts.dedup.length = 2 ∨ ts.dedup.length = 3) ∧ total lacks ts ≤ k := by
  obtain ⟨us, rfl, -, hkinds, hsizes⟩ := hmakes
  have hcount : ∀ t, us.count t ≤ us.length := fun t => List.count_le_length
  have hsub : us ⊆ ts := by
    intro t ht
    have hsize := hsizes t (List.mem_append_left _ ht)
    rw [List.count_append] at hsize
    have hle := hcount t
    refine List.count_pos_iff.1 ?_
    unfold RowSize at hsize
    omega
  refine ⟨length_dedup_append hsub ▸ hkinds, ?_⟩
  calc total lacks ts
      = (ts.dedup.map fun t => lacks (ts.count t)).sum := total_eq_sum (List.Perm.refl _)
    _ ≤ (ts.dedup.map fun t => us.count t).sum := by
        refine List.sum_le_sum fun t ht => ?_
        have hsize := hsizes t (List.mem_append_right _ (List.mem_dedup.1 ht))
        rw [List.count_append] at hsize
        have hle := List.count_le_length (a := t) (l := ts)
        have hle' := hcount t
        exact lacks_le _ (by omega) _ (by omega) hsize
    _ = us.length :=
      sum_count_eq_length (List.nodup_dedup ts) fun t ht => List.mem_dedup.2 (hsub ht)

/-- How the jokers are shared by two suits, and by three. -/
theorem exists_share_two :
    ∀ k ∈ [1, 2], ∀ a ∈ List.range 14, ∀ b ∈ List.range 14, k + (a + b) = 13 →
    lacks a + lacks b ≤ k → ∃ x ∈ List.range (k + 1), RowSize (x + a) ∧ RowSize (k - x + b) := by
  decide +kernel

theorem exists_share_three :
    ∀ k ∈ [1, 2], ∀ a ∈ List.range 14, ∀ b ∈ List.range 14, ∀ c ∈ List.range 14,
    0 < a → 0 < b → 0 < c → k + (a + (b + c)) = 13 → lacks a + (lacks b + lacks c) ≤ k →
      ∃ x ∈ List.range (k + 1), ∃ y ∈ List.range (k - x + 1),
        RowSize (x + a) ∧ RowSize (y + b) ∧ RowSize (k - x - y + c) := by
  decide +kernel

/-- Suits that come in where others are. -/
theorem suitsOfRows_append (hkinds : ts.dedup.length = 2 ∨ ts.dedup.length = 3) (hsub : us ⊆ ts)
    (hsizes : ∀ t ∈ ts.dedup, RowSize (us.count t + ts.count t)) : SuitsOfRows (us ++ ts) := by
  refine ⟨(length_dedup_append hsub).symm ▸ hkinds, fun t ht => ?_⟩
  have hmem : t ∈ ts := (List.mem_append.1 ht).elim (fun h => hsub h) fun h => h
  rw [List.count_append]
  exact hsizes t (List.mem_dedup.2 hmem)

/-- Suits of rows can be made where there are two or three suits and they lack no more cards than
there are jokers. -/
theorem makesRows_iff (hlength : k + ts.length = 13)
    (hk : k = 1 ∨ k = 2) (hts : ts ⊆ [1, 2, 3, 4]) :
    MakesRows k ts ↔ (ts.dedup.length = 2 ∨ ts.dedup.length = 3) ∧ total lacks ts ≤ k := by
  refine ⟨total_lacks_le hlength hk, ?_⟩
  rintro ⟨hkinds, hlacks⟩
  have hsize : total (fun n => n) ts = ts.length := total_self ts
  have hle : ∀ t, ts.count t ∈ List.range 14 := fun t => by
    have hcount := List.count_le_length (a := t) (l := ts)
    rw [List.mem_range]
    omega
  have hmem : k ∈ [1, 2] := by
    rcases hk with rfl | rfl
    · decide
    · decide
  have hpos : ∀ t ∈ ts.dedup, 0 < ts.count t :=
    fun t ht => List.count_pos_iff.2 (List.mem_dedup.1 ht)
  have hnodup := List.nodup_dedup ts
  rw [total_eq_sum (List.Perm.refl _)] at hlacks hsize
  rcases hkinds with htwo | hthree
  · obtain ⟨s, t, hst⟩ := List.length_eq_two.1 htwo
    rw [hst] at hlacks hsize hpos hnodup
    simp only [List.map_cons, List.map_nil, List.sum_cons, List.sum_nil, Nat.add_zero]
      at hlacks hsize
    obtain ⟨x, hx, hs, ht⟩ := exists_share_two k hmem (ts.count s) (hle s) (ts.count t) (hle t)
      (by omega) hlacks
    rw [List.mem_range] at hx
    have hne : t ≠ s := by
      rintro rfl
      simp at hnodup
    have hsub : List.replicate x s ++ List.replicate (k - x) t ⊆ ts := by
      intro r hr
      refine List.mem_dedup.1 ?_
      rw [hst]
      rcases List.mem_append.1 hr with hr | hr
      · simp [(List.mem_replicate.1 hr).2]
      · simp [(List.mem_replicate.1 hr).2]
    refine ⟨List.replicate x s ++
      List.replicate (k - x) t, by simp; omega, fun u hu => hts (hsub hu),
      suitsOfRows_append (.inl htwo) hsub ?_⟩
    rw [hst]
    simp only [List.forall_mem_cons, List.count_append, List.count_replicate, beq_iff_eq,
      hne, hne.symm]
    simpa using ⟨hs, ht⟩
  · obtain ⟨r, s, t, hrst⟩ := List.length_eq_three.1 hthree
    rw [hrst] at hlacks hsize hpos hnodup
    simp only [List.map_cons, List.map_nil, List.sum_cons, List.sum_nil, Nat.add_zero]
      at hlacks hsize
    simp only [List.forall_mem_cons] at hpos
    obtain ⟨x, hx, y, hy, hr, hs, ht⟩ := exists_share_three k hmem (ts.count r) (hle r) (ts.count s)
      (hle s) (ts.count t) (hle t) hpos.1 hpos.2.1 hpos.2.2.1 (by omega) hlacks
    rw [List.mem_range] at hx hy
    simp only [List.nodup_cons, List.mem_cons, List.not_mem_nil, or_false, not_or] at hnodup
    obtain ⟨⟨hrs, hrt⟩, hst, -⟩ := hnodup
    have hsub : List.replicate x r ++
        (List.replicate y s ++ List.replicate (k - x - y) t) ⊆ ts := by
      intro q hq
      refine List.mem_dedup.1 ?_
      rw [hrst]
      rcases List.mem_append.1 hq with hq | hq
      · simp [(List.mem_replicate.1 hq).2]
      · rcases List.mem_append.1 hq with hq | hq
        · simp [(List.mem_replicate.1 hq).2]
        · simp [(List.mem_replicate.1 hq).2]
    refine ⟨List.replicate x r ++
      (List.replicate y s ++ List.replicate (k - x - y) t), by simp; omega,
      fun u hu => hts (hsub hu), suitsOfRows_append (.inr hthree) hsub ?_⟩
    rw [hrst]
    simp only [List.forall_mem_cons, List.count_append, List.count_replicate, beq_iff_eq,
      hrs, hrt, hst,
      Ne.symm hrs, Ne.symm hrt, Ne.symm hst]
    simpa using ⟨hr, hs, ht⟩

end Suits

section Test

variable {k : Nat} {gs : List (List Card)}

/-- A suit takes as many jokers as it lacks cards, one or two of them. -/
theorem sthFrom_cons {useSpNum : Int} {v : List Card} {rest : List (List Card)} (hne : v ≠ []) :
    sthFrom useSpNum (v :: rest) =
      if (lacks v.length = 1 ∨ lacks v.length = 2) ∧ (lacks v.length : Int) ≤ useSpNum then
        sthFrom (useSpNum - lacks v.length) rest
      else false := by
  have hlong := List.length_pos_of_ne_nil hne
  rw [sthFrom]
  generalize v.length = n at hlong
  have hone : 1 ≤ useSpNum ↔ 0 < useSpNum := by omega
  have htwo : 2 ≤ useSpNum ↔ 1 < useSpNum := by omega
  have hcases : n = 1 ∨ n = 2 ∨ n = 4 ∨ n = 6 ∨ n = 7 ∨ n = 9 ∨
      ¬(n = 1 ∨ n = 2 ∨ n = 4 ∨ n = 6 ∨ n = 7 ∨ n = 9) := by omega
  rcases hcases with rfl | rfl | rfl | rfl | rfl | rfl | hother
  · simp [lacks, htwo]
  · simp [lacks, hone]
  · simp [lacks, hone]
  · simp [lacks, htwo]
  · simp [lacks, hone]
  · simp [lacks, hone]
  · simp only [not_or] at hother
    obtain ⟨h1, h2, h4, h6, h7, h9⟩ := hother
    have hlacks : ¬(lacks n = 1 ∨ lacks n = 2) := by
      have hmany : lacks n = 0 ∨ lacks n = 3 := by
        unfold lacks
        split_ifs <;> omega
      omega
    rw [if_neg fun h => h1 h.1, if_neg fun h => h2 h.1, if_neg fun h => h4 h.1,
      if_neg fun h => h6 h.1,
      if_neg fun h => h7 h.1, if_neg fun h => h9 h.1, if_neg fun h => hlacks h.1]

/-- The loop over the suits asks each of them to lack one or two cards, and all together no more
cards than there are jokers. -/
theorem sthFrom_iff {useSpNum : Int} (hpos : 0 ≤ useSpNum) (hne : ∀ g ∈ gs, g ≠ []) :
    sthFrom useSpNum gs = true ↔ (∀ g ∈ gs, lacks g.length = 1 ∨ lacks g.length = 2) ∧
      (((gs.map fun g => lacks g.length).sum : Nat) : Int) ≤ useSpNum := by
  induction gs generalizing useSpNum with
  | nil => simp [sthFrom, hpos]
  | cons v rest ih =>
      rw [List.forall_mem_cons] at hne
      rw [List.forall_mem_cons, List.map_cons, List.sum_cons, Nat.cast_add, sthFrom_cons hne.1]
      by_cases hv : (lacks v.length = 1 ∨ lacks v.length = 2) ∧ (lacks v.length : Int) ≤ useSpNum
      · rw [if_pos hv, ih (by omega) hne.2]
        constructor
        · rintro ⟨hrest, hsum⟩
          exact ⟨⟨hv.1, hrest⟩, by omega⟩
        · rintro ⟨⟨-, hrest⟩, hsum⟩
          exact ⟨hrest, by omega⟩
      · rw [if_neg hv]
        constructor
        · intro h
          cases h
        · rintro ⟨⟨hone, -⟩, hsum⟩
          exact absurd ⟨hone, by omega⟩ hv

/-- Two jokers are as many as two suits lack, of three suits each would lack one. -/
theorem jokerSth_iff (hne : ∀ g ∈ gs, g ≠ []) (hk : k = 1 ∨ k = 2) :
    jokerSth k gs = true ↔ gs.length = 1 ∨
    (k = 2 ∧ gs.length = 2 ∧ ∀ g ∈ gs, lacks g.length = 1) := by
  have hfrom := @sthFrom_iff gs (k : Int) (by omega) hne
  unfold jokerSth
  split_ifs with hlength
  · rw [hfrom]
    rcases hlength with htwo | hthree
    · obtain ⟨g, h, rfl⟩ := List.length_eq_two.1 htwo
      simp only [List.forall_mem_cons, List.map_cons, List.map_nil, List.sum_cons, List.sum_nil,
        List.length_cons, List.length_nil, List.not_mem_nil, false_imp_iff, implies_true, and_true,
        true_and, Nat.add_zero]
      omega
    · obtain ⟨f, g, h, rfl⟩ := List.length_eq_three.1 hthree
      simp only [List.forall_mem_cons, List.map_cons, List.map_nil, List.sum_cons, List.sum_nil,
        List.length_cons, List.length_nil, List.not_mem_nil, false_imp_iff, implies_true, and_true,
        Nat.add_zero]
      omega
  · rw [decide_eq_true_eq]
    omega

end Test

end SdyServer.Daboluo
