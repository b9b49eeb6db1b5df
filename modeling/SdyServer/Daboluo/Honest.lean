import SdyServer.Daboluo.Arranged

/-!
# The names of an automatic arrangement

The rows of an arrangement are of the types it names, although they may be of better ones as well:
`shunzi` does not look at suits, and a pair on top may be trips. In the order of the named types no
row beats the one below it.
-/

namespace SdyServer.Daboluo

open Blocks

section Statement

/-- The type a top row is submitted as. -/
def topType (k : Nat) : Int := if k = 1 then 4 else if k = 3 then 1 else 2

/-- The rows are of the types they are named after. -/
structure Named (danse : Bool) (arr : Arrangement) : Prop where
  bottom : IsRow (11 - place danse arr.i) arr.bottom.toList
  middle : IsRow (11 - place danse arr.n) arr.middle.toList
  singles : arr.n = 10 → (values arr.middle.toList).Nodup ∧ ¬Flush arr.middle.toList
  top : TopRow (topType arr.k) arr.top.toList
  topSingles : arr.k = 3 → (values arr.top.toList).Nodup

/-- No better type than the named one. -/
def Best (t : Int) (row : List Card) : Prop := IsRow t row ∧ ∀ u, t < u → ¬IsRow u row

/-- The rows are of no better types than they are named after. -/
structure Honest (danse : Bool) (arr : Arrangement) : Prop where
  bottom : Best (11 - place danse arr.i) arr.bottom.toList
  middle : Best (11 - place danse arr.n) arr.middle.toList
  top : TopRow (topType arr.k) arr.top.toList ∧
    ∀ t, t = 2 ∨ t = 4 → topType arr.k < t → ¬TopRow t arr.top.toList

/-- The named types do not rise from the bottom to the top. -/
def TypesFall (arr : Arrangement) : Prop := arr.i ≤ arr.n ∧ topType arr.k ≤ 11 - arr.n

/-- Of two rows of one type the middle one does not beat the bottom one. -/
def BottomHolds (danse : Bool) (arr : Arrangement) : Prop :=
  arr.i = arr.n → ∀ fn, compare (11 - place danse arr.i) = some fn →
    ¬Beaten fn arr.bottom.toList arr.middle.toList

/-- Under one type the values of the top row, the more frequent and then the higher ones first, are
not above those of the middle row. -/
def TopHolds (arr : Arrangement) : Prop :=
  topType arr.k = 11 - arr.n → ¬groups (values arr.middle.toList) < groups (values arr.top.toList)

theorem types_eq (arr : Arrangement) (danse : Bool) :
    arr.types danse = [11 - place danse arr.i, 11 - place danse arr.n, topType arr.k] := by
  have hswap : ∀ n : Nat, (if danse then
      (if (11 - n : Int) = 9 then 8 else if (11 - n : Int) = 8 then 9 else (11 - n : Int))
        else (11 - n : Int)) = 11 - place danse n := by
    intro n
    unfold place
    split_ifs <;> omega
  unfold Arrangement.types
  simp only [hswap]
  rfl

end Statement

section Groups

variable {vs gs : List Int}

theorem eq_groups (hperm : gs.Perm vs.dedup) (hsorted : gs.Pairwise (Precedes vs)) :
    gs = groups vs :=
  (hperm.trans (groups_perm vs).symm).eq_of_pairwise' hsorted (pairwise_groups vs)

/-- Falling values are their own groups. -/
theorem groups_of_falls (hfalls : vs.Pairwise (· > ·)) : groups vs = vs := by
  have hnodup : vs.Nodup := hfalls.imp fun h => h.ne'
  refine (eq_groups (List.Perm.of_eq hnodup.dedup.symm) ?_).symm
  have hboth := hfalls.and (List.pairwise_of_forall_mem_list (r := fun x y => x ∈ vs ∧ y ∈ vs)
    fun x hx y hy => ⟨hx, hy⟩)
  refine hboth.imp ?_
  rintro x y ⟨hlt, hx, hy⟩
  exact .inr
    ⟨by rw [List.count_eq_one_of_mem hnodup hx, List.count_eq_one_of_mem hnodup hy], hlt.le⟩

theorem groups_pair {p a b c : Int} (hab : b < a) (hbc : c < b) (ha : p ≠ a) (hb : p ≠ b)
    (hc : p ≠ c) :
    groups [p, p, a, b, c] = [p, a, b, c] := by
  have hac : c < a := hbc.trans hab
  refine (eq_groups ?_ ?_).symm
  · simp [List.dedup_cons_of_mem, List.dedup_cons_of_notMem, ha, hb, hc, hab.ne', hbc.ne', hac.ne']
  · simp [Precedes, List.count_cons, ha, hb, hc, ha.symm, hb.symm, hc.symm, hab.ne',
      hbc.ne', hac.ne',
      hab.ne, hbc.ne, hac.ne, hab.le, hbc.le, hac.le]

theorem groups_pair_top {q r : Int} (hne : q ≠ r) : groups [q, q, r] = [q, r] := by
  refine (eq_groups ?_ ?_).symm
  · simp [List.dedup_cons_of_mem, List.dedup_cons_of_notMem, hne]
  · simp [Precedes, List.count_cons, hne, hne.symm]

theorem groups_same_top (q : Int) : groups [q, q, q] = [q] := by
  refine (eq_groups ?_ ?_).symm
  · simp [List.dedup_cons_of_mem, List.dedup_cons_of_notMem]
  · simp

theorem groups_trips {x a b : Int} (ha : x ≠ a) (hb : x ≠ b) (hab : a ≠ b) :
    ∃ ks, groups [x, x, x, a, b] = x :: ks := by
  have hperm : ([x, x, x, a, b] : List Int).dedup = [x, a, b] := by
    simp [List.dedup_cons_of_mem, List.dedup_cons_of_notMem, ha, hb, hab]
  rcases hab.lt_or_gt with hlt | hgt
  · refine ⟨[b, a], (eq_groups ?_ ?_).symm⟩
    · rw [hperm]
      exact (List.Perm.swap a b []).cons x
    · simp [Precedes, List.count_cons, ha, hb, hab, ha.symm, hb.symm, hab.symm, hlt.le]
  · refine ⟨[a, b], (eq_groups (List.Perm.of_eq hperm.symm) ?_).symm⟩
    simp [Precedes, List.count_cons, ha, hb, hab, ha.symm, hb.symm, hab.symm, hgt.le]

end Groups

section Rows

variable {cards : List Card} {danse : Bool} {arr : Arrangement}

theorem range_without (hplain : ∀ c ∈ cards, Plain c) (hrange : ∀ v ∈ values cards, 1 ≤ v ∧ v ≤ 13)
    {row : List Card} (hsub : row.Subperm cards) :
    ∀ v ∈ values (without cards row), 1 ≤ v ∧ v ≤ 13 := fun v hv => by
  have hsubset : without cards row ⊆ cards := fun c hc =>
    (without_perm hplain hsub).subset (List.mem_append_right _ hc)
  exact hrange v (List.map_subset _ hsubset hv)

theorem place_eq {n : Nat} (husual : ¬(danse = true ∧ (n = 2 ∨ n = 3))) : place danse n = n := by
  unfold place
  cases danse with
  | false => rfl
  | true => rw [if_pos rfl, if_neg (by simp_all), if_neg (by simp_all)]

/-- The generators that return lists and that every room has in the same place. -/
theorem Produces.mem {n : Nat} {row : Five} (hrow : Produces (groupTable danse) n cards row)
    (hn : ¬(danse = true ∧ (n = 2 ∨ n = 3))) {generator : List Card → List Five}
    (hgenerator : tGroup n = some fun cards => .ok (generator cards)) : row ∈ generator cards := by
  obtain ⟨generator', rows, hgenerator', hrows, hmem⟩ := hrow
  rw [groupTable_eq, place_eq hn, hgenerator, Option.some.injEq] at hgenerator'
  rw [← hgenerator', Except.ok.injEq] at hrows
  exact hrows ▸ hmem

theorem t3Group_one : t3Group 1 = santiao := rfl

theorem t3Group_two : t3Group 2 = yiduiThree := rfl

theorem t3Group_three : t3Group 3 = wulongThree := rfl

theorem Tried.named (hplain : ∀ c ∈ cards, Plain c) (hrange : ∀ v ∈ values cards, 1 ≤ v ∧ v ≤ 13)
    (htried : Tried (groupTable danse) cards arr) : Named danse arr := by
  have hi := htried.place_i
  have hn := htried.place_n
  obtain ⟨hbottom, hrow⟩ := htried.bottom.sound (suited_of_plain hplain) (by omega)
  have hplain' := plain_without hplain hbottom
  obtain ⟨hmiddle, hrow'⟩ := htried.middle.sound (suited_of_plain hplain') (by omega)
  have hjokers := (suited_of_plain (plain_without hplain' hmiddle)).noJokers
  have htop := htried.top
  refine ⟨hrow hrange, hrow' (range_without hplain hrange hbottom), fun hten => ?_, ?_,
    fun hk => ?_⟩
  · have hmem : arr.middle ∈ wulongFive (without cards arr.bottom.toList) :=
      htried.middle.mem (by omega) (by rw [hten]; rfl)
    obtain ⟨-, hfalls, hflush⟩ := wulongFive_parts (suited_of_plain hplain').noJokers hmem
    exact ⟨List.pairwise_map.2 (hfalls.imp fun h => h.ne'), hflush⟩
  · have hk := htried.place_k
    have hk' : arr.k = 1 ∨ arr.k = 2 ∨ arr.k = 3 := by
      split_ifs at hk <;> omega
    rcases hk' with hk' | hk' | hk'
    · rw [hk', t3Group_one] at htop
      obtain ⟨-, h12, h23⟩ := santiao_sound hjokers htop
      rw [hk']
      simp [topType, TopRow, Three.toList, h12, h23]
    · rw [hk', t3Group_two] at htop
      obtain ⟨-, h12⟩ := yiduiThree_sound hjokers htop
      rw [hk']
      simp [topType, TopRow, values, Three.toList, h12]
    · rw [hk']
      simp [topType, TopRow]
  · rw [hk, t3Group_three] at htop
    obtain ⟨-, h12, h23⟩ := wulongThree_parts hjokers htop
    simp [values, Three.toList, h12.ne', h23.ne', (h23.trans h12).ne']

theorem Tried.bottomHolds (hplain : ∀ c ∈ cards, Plain c)
    (hrange : ∀ v ∈ values cards, 1 ≤ v ∧ v ≤ 13)
    (htried : Tried (groupTable danse) cards arr)
    (husual : ¬(danse = true ∧ (arr.i = 2 ∨ arr.i = 3))) :
    BottomHolds danse arr := by
  intro hin
  have hi := htried.place_i
  have hnamed := htried.named hplain hrange
  have hplace : place danse arr.i = arr.i := place_eq husual
  have hbottom := hnamed.bottom
  have hmiddle := hnamed.middle
  rw [← hin, hplace] at hmiddle
  rw [hplace] at hbottom ⊢
  exact not_beaten (by omega) ⟨rfl, hbottom⟩ ⟨rfl, hmiddle⟩ (htried.clean hin)

theorem Tried.typesFall (htried : Tried (groupTable danse) cards arr) : TypesFall arr := by
  have hi := htried.place_i
  have hn := htried.place_n
  have hk := htried.place_k
  refine ⟨hn.1, ?_⟩
  unfold topType
  split_ifs at hk ⊢ <;> omega

/-- Trips on top of trips. -/
theorem topHolds_santiao {pile' : List Card} {middle : Five} {top : Three}
    (hparts : Parts Card.value pile' [[middle.c1, middle.c2, middle.c3], [middle.c4], [middle.c5]])
    (h12 : top.c1.value = top.c2.value) (h23 : top.c2.value = top.c3.value)
    (hfits : isMessireThree 7 middle top = true) :
    ¬groups (values middle.toList) < groups (values top.toList) := by
  have hkey := hparts.key_eq
  have hpair := hparts.pairwise
  simp only [List.pairwise_cons, List.mem_cons, List.not_mem_nil, or_false,
    forall_eq_or_imp, forall_eq,
    false_imp_iff, implies_true, and_true, List.Pairwise.nil] at hkey hpair
  have hle : top.c3.value ≤ middle.c3.value := by simpa [isMessireThree] using hfits
  have hmiddle : values middle.toList =
      [middle.c3.value, middle.c3.value, middle.c3.value, middle.c4.value, middle.c5.value] := by
    simp only [values, Five.toList, List.map_cons, List.map_nil, List.cons.injEq, and_true]
    omega
  have htop : values top.toList = [top.c3.value, top.c3.value, top.c3.value] := by
    simp only [values, Three.toList, List.map_cons, List.map_nil, List.cons.injEq, and_true]
    omega
  obtain ⟨ks, hks⟩ :=
    @groups_trips middle.c3.value middle.c4.value middle.c5.value (by omega) (by omega)
    (by omega)
  rw [hmiddle, htop, hks, groups_same_top, List.cons_lt_cons_iff]
  rintro (hlt | ⟨-, hlt⟩)
  · omega
  · exact List.not_lt_nil _ hlt

/-- A pair on top of a pair. -/
theorem topHolds_yidui {pile' : List Card} {middle : Five} {top : Three}
    (hparts : Parts Card.value pile' [[middle.c1, middle.c2], [middle.c3], [middle.c4],
      [middle.c5]])
    (h34 : middle.c4.value < middle.c3.value) (h45 : middle.c5.value < middle.c4.value)
    (h12 : top.c1.value = top.c2.value) (hfits : isMessireThree 9 middle top = true) :
    ¬groups (values middle.toList) < groups (values top.toList) := by
  have hkey := hparts.key_eq
  have hpair := hparts.pairwise
  simp only [List.pairwise_cons, List.mem_cons, List.not_mem_nil, or_false,
    forall_eq_or_imp, forall_eq,
    false_imp_iff, implies_true, and_true, List.Pairwise.nil] at hkey hpair
  have hle : top.c1.value < middle.c1.value ∨
      middle.c1.value = top.c1.value ∧ top.c3.value ≤ middle.c3.value := by
    unfold isMessireThree at hfits
    rw [if_neg (by decide), if_pos rfl] at hfits
    split_ifs at hfits
    · simp at hfits
      omega
    · simp at hfits
      omega
  have hmiddle : values middle.toList =
      [middle.c1.value, middle.c1.value, middle.c3.value, middle.c4.value, middle.c5.value] := by
    simp only [values, Five.toList, List.map_cons, List.map_nil, List.cons.injEq,
      and_true, true_and]
    omega
  have htop : values top.toList = [top.c1.value, top.c1.value, top.c3.value] := by
    simp only [values, Three.toList, List.map_cons, List.map_nil, List.cons.injEq,
      and_true, true_and]
    omega
  rw [hmiddle, htop, groups_pair h34 h45 (by omega) (by omega) (by omega)]
  by_cases hsame : top.c1.value = top.c3.value
  · rw [← hsame, groups_same_top, List.cons_lt_cons_iff]
    rintro (hlt | ⟨-, hlt⟩)
    · omega
    · exact List.not_lt_nil _ hlt
  · rw [groups_pair_top hsame, List.cons_lt_cons_iff, List.cons_lt_cons_iff]
    rintro (hlt | ⟨heq, hlt | ⟨-, hlt⟩⟩)
    · omega
    · omega
    · exact List.not_lt_nil _ hlt

/-- Single cards on top of single cards. -/
theorem topHolds_wulong {middle : Five} {top : Three}
    (hmiddle : middle.toList.Pairwise fun c d => d.value < c.value)
    (h12 : top.c2.value < top.c1.value)
    (h23 : top.c3.value < top.c2.value) (hfits : isMessireThree 10 middle top = true) :
    ¬groups (values middle.toList) < groups (values top.toList) := by
  have htop : (values top.toList).Pairwise (· > ·) := by
    simp [values, Three.toList, h12, h23, h23.trans h12]
  have hmiddle' : (values middle.toList).Pairwise (· > ·) := List.pairwise_map.2 hmiddle
  rw [groups_of_falls hmiddle', groups_of_falls htop]
  simp only [values, Five.toList, Three.toList, List.map_cons, List.map_nil, List.cons_lt_cons_iff]
  unfold isMessireThree at hfits
  rw [if_neg (by decide), if_neg (by decide), if_pos (by decide)] at hfits
  rintro (hlt | ⟨h1, hlt | ⟨h2, hlt | ⟨h3, hlt⟩⟩⟩)
  · rw [if_neg (by omega)] at hfits
    simp at hfits
    omega
  · rw [if_pos h1, if_neg (by omega)] at hfits
    simp at hfits
    omega
  · rw [if_pos h1, if_pos h2] at hfits
    simp at hfits
    omega
  · exact List.not_lt_nil _ hlt

theorem Tried.topHolds (hplain : ∀ c ∈ cards, Plain c)
    (htried : Tried (groupTable danse) cards arr) : TopHolds arr := by
  intro htype
  have hi := htried.place_i
  have hk := htried.place_k
  have hbottom := (htried.bottom.sound (suited_of_plain hplain) (by omega)).1
  have hplain' := plain_without hplain hbottom
  have hmiddle :=
    (htried.middle.sound (suited_of_plain hplain') (by have := htried.place_n; omega)).1
  have hjokers := (suited_of_plain hplain').noJokers
  have hjokers' := (suited_of_plain (plain_without hplain' hmiddle)).noJokers
  have htop := htried.top
  have hcases : arr.k = 1 ∧ arr.n = 7 ∨ arr.k = 2 ∧ arr.n = 9 ∨ arr.k = 3 ∧ arr.n = 10 := by
    unfold topType at htype
    split_ifs at hk htype <;> omega
  rcases hcases with ⟨hk, hn⟩ | ⟨hk, hn⟩ | ⟨hk, hn⟩
  · have hfits := htried.fits (.inl ⟨hn, hk⟩)
    rw [hk, t3Group_one] at htop
    rw [hn] at hfits
    obtain ⟨-, h12, h23⟩ := santiao_sound hjokers' htop
    have hmem : arr.middle ∈ santiaoFive (without cards arr.bottom.toList) :=
      htried.middle.mem (by omega) (by rw [hn]; rfl)
    exact topHolds_santiao (santiaoFive_parts hjokers hmem) h12 h23 hfits
  · have hfits := htried.fits (.inr (.inl ⟨hn, hk⟩))
    rw [hk, t3Group_two] at htop
    rw [hn] at hfits
    have hmem : arr.middle ∈ yiduiFive (without cards arr.bottom.toList) :=
      htried.middle.mem (by omega) (by rw [hn]; rfl)
    obtain ⟨hparts, h34, h45⟩ := yiduiFive_parts hjokers hmem
    exact topHolds_yidui hparts h34 h45 (yiduiThree_sound hjokers' htop).2 hfits
  · have hfits := htried.fits (.inr (.inr ⟨hn, hk⟩))
    rw [hk, t3Group_three] at htop
    rw [hn] at hfits
    have hmem : arr.middle ∈ wulongFive (without cards arr.bottom.toList) :=
      htried.middle.mem (by omega) (by rw [hn]; rfl)
    obtain ⟨-, h12, h23⟩ := wulongThree_parts hjokers' htop
    exact topHolds_wulong (wulongFive_parts hjokers hmem).2.1 h12 h23 hfits

end Rows

section Result

variable {cards : List Card} {danse : Bool}

/-- **The names of an arrangement hold**, and in their order no row beats the one below it. Where a
room ranks four of a kind above the straight flush, two rows of one of these types are left out. -/
theorem happydoggyGroupCards_named {arrs : List Arrangement} (hplain : ∀ c ∈ cards, Plain c)
    (hrange : ∀ c ∈ cards, 1 ≤ c.value ∧ c.value ≤ 13)
    (hrun : happydoggyGroupCards cards danse = .ok arrs) :
    ∀ arr ∈ arrs, Named danse arr ∧ TypesFall arr ∧
      (¬(danse = true ∧ (arr.i = 2 ∨ arr.i = 3)) → BottomHolds danse arr) ∧ TopHolds arr := by
  intro arr harr
  have htried := happydoggyGroupCards_tried hrun arr harr
  have hvalues : ∀ v ∈ values cards, 1 ≤ v ∧ v ≤ 13 := by
    intro v hv
    obtain ⟨c, hc, rfl⟩ := List.mem_map.1 hv
    exact hrange c hc
  exact ⟨htried.named hplain hvalues, htried.typesFall, htried.bottomHolds hplain hvalues,
    htried.topHolds hplain⟩

theorem happydoggyGroupCards_named_twoQuads :
    Named false twoQuadsRows ∧ TypesFall twoQuadsRows ∧
      (¬(false = true ∧ (twoQuadsRows.i = 2 ∨ twoQuadsRows.i = 3)) →
        BottomHolds false twoQuadsRows) ∧
      TopHolds twoQuadsRows :=
  happydoggyGroupCards_named (by decide) (by decide) happydoggyGroupCards_twoQuads twoQuadsRows
    (by simp)

/-- A hand with a straight flush from the two to the six. -/
def lowStraightFlush : List Card :=
  [⟨4, 1, none, none⟩, ⟨4, 2, none, none⟩, ⟨4, 3, none, none⟩, ⟨4, 4, none, none⟩,
    ⟨4, 5, none, none⟩,
    ⟨1, 7, none, none⟩, ⟨2, 7, none, none⟩, ⟨3, 9, none, none⟩, ⟨1, 11, none, none⟩,
      ⟨2, 12, none, none⟩,
    ⟨3, 12, none, none⟩, ⟨1, 9, none, none⟩, ⟨2, 10, none, none⟩]

/-- The arrangements of a hand; none when the search raises. -/
def returned (cards : List Card) (danse : Bool) : List Arrangement :=
  match happydoggyGroupCards cards danse with
  | .ok arrs => arrs
  | .error _ => []

/-- One of its arrangements names the straight flush a straight. -/
theorem happydoggyGroupCards_not_honest :
    ¬∀ (cards : List Card) (danse : Bool) (arrs : List Arrangement), (∀ c ∈ cards, Plain c) →
      (∀ c ∈ cards, 1 ≤ c.value ∧ c.value ≤ 13) → cards.length = 13 ∨ cards.length = 17 →
        happydoggyGroupCards cards danse = .ok arrs →
          ∀ arr ∈ arrs, Honest danse arr ∧ TypesFall arr ∧ BottomHolds danse arr ∧
          TopHolds arr := by
  intro hall
  have hrun : happydoggyGroupCards lowStraightFlush false =
      .ok (returned lowStraightFlush false) := by
    decide +kernel
  have hstraight : ∃ arr ∈ returned lowStraightFlush false, arr.i = 6 ∧
      IsRow 9 arr.bottom.toList := by
    decide +kernel
  obtain ⟨arr, harr, hi, hflush⟩ := hstraight
  have hhonest := (hall lowStraightFlush false _ (by decide) (by decide) (.inl rfl) hrun arr harr).1
  refine hhonest.bottom.2 9 ?_ hflush
  rw [hi]
  decide

end Result

end SdyServer.Daboluo
