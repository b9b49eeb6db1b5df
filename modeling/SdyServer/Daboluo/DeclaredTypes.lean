import SdyServer.Daboluo.FlushRows
import SdyServer.Daboluo.FoulFive
import SdyServer.Daboluo.Submit
import SdyServer.Daboluo.TopRows

/-!
# The check of declared types

A submitted row is put to the generator of the type it is declared to have. On exactly five cards a
generator returns something precisely when they are a row of its type.
-/

namespace SdyServer.Daboluo

open Blocks

/-- A card of an ordinary deck. -/
def InDeck (c : Card) : Prop := (1 ≤ c.type ∧ c.type ≤ 4) ∧ 1 ≤ c.value ∧ c.value ≤ 13

instance (c : Card) : Decidable (InDeck c) := inferInstanceAs (Decidable (_ ∧ _ ∧ _))

section Statement

/-- What a top row declared as `t` has to be. -/
def TopRow (t : Int) (row : List Card) : Prop :=
  if t = 4 ∨ t = 11 then ∀ c ∈ row, ∀ d ∈ row, c.value = d.value
  else t = 2 → ¬(values row).Nodup

instance (t : Int) (row : List Card) : Decidable (TopRow t row) := by
  unfold TopRow
  infer_instance

end Statement

section Rows

variable {cards : List Card} {row : Five}

theorem suited_of_inDeck (hdeck : ∀ c ∈ cards, InDeck c) : Suited cards :=
  fun c hc => (hdeck c hc).1

theorem noJokers_of_inDeck (hdeck : ∀ c ∈ cards, InDeck c) : NoJokers cards :=
  (suited_of_inDeck hdeck).noJokers

theorem range_of_inDeck (hdeck : ∀ c ∈ cards, InDeck c) : ∀ v ∈ values cards, 1 ≤ v ∧ v ≤ 13 := by
  intro v hv
  obtain ⟨c, hc, rfl⟩ := List.mem_map.1 hv
  exact (hdeck c hc).2

/-- The type of a row made of parts of a pile. -/
theorem isRow_of_parts {parts : List (List Card)} (hparts : Parts Card.value (pile cards) parts)
    (hrow : parts.flatten = row.toList) (hsorted : (parts.map List.length).Pairwise (· ≥ ·)) :
    shape (values row.toList) = parts.map List.length ∧ row.toList.Subperm cards := by
  rw [← hrow]
  exact ⟨shape_flatten hparts hsorted, hparts.subperm.trans (pile_perm cards).subperm⟩

/-- A row of distinct values. -/
theorem subperm_of_falls (hfalls : Falls (values row.toList)) (hsubset : row.toList ⊆ cards) :
    row.toList.Subperm cards := by
  have hnodup : (values row.toList).Nodup := hfalls.pairwise.imp fun h => h.ne'
  exact (List.Nodup.of_map _ hnodup).subperm hsubset

theorem exists_tGroup {n : Int} (hn : 1 ≤ n ∧ n ≤ 10) : ∃ group, tGroup n = some group := by
  obtain ⟨hlow, hhigh⟩ := hn
  interval_cases n <;> exact ⟨_, rfl⟩

/-- What a generator returns is a row out of the pile, and of its type when the values are those of
a deck. -/
theorem generator_sound (hsuited : Suited cards) {n : Int} (hn : 1 ≤ n ∧ n ≤ 10)
    {group : List Card → Lua (List Five)} (hgroup : tGroup n = some group) {rows : List Five}
    (hrows : group cards = .ok rows) (hmem : row ∈ rows) :
    row.toList.Subperm cards ∧
      ((∀ v ∈ values cards, 1 ≤ v ∧ v ≤ 13) → IsRow (11 - n) row.toList) := by
  have hplain := hsuited.noJokers
  have hrange : row.toList ⊆ cards → (∀ v ∈ values cards, 1 ≤ v ∧ v ≤ 13) →
      ∀ v ∈ values row.toList, 1 ≤ v ∧ v ≤ 13 := fun hsubset hcards v hv =>
    hcards v (List.map_subset _ hsubset hv)
  obtain ⟨hlow, hhigh⟩ := hn
  interval_cases n
  · cases hgroup
    by_cases hshort : cards.length < 5
    · unfold wutong at hrows
      rw [if_pos hshort] at hrows
      cases hrows
      exact absurd hmem List.not_mem_nil
    rw [wutong_eq hplain (by omega), Except.ok.injEq] at hrows
    subst hrows
    have hparts := wutong_parts hplain (List.mem_reverse.1 hmem)
    obtain ⟨hshape, hsub⟩ := isRow_of_parts hparts (List.append_nil _) (by simp)
    exact ⟨hsub, fun _ => hshape⟩
  · cases hgroup
    obtain ⟨hfalls, hsubset, hflush⟩ := tonghuashun_sound hsuited hrows hmem
    exact ⟨subperm_of_falls hfalls hsubset,
      fun hcards => ⟨hflush, hfalls.straight (hrange hsubset hcards)⟩⟩
  · cases hgroup
    obtain ⟨hshape, hsub⟩ := isRow_of_parts (sitiao_parts hplain hrows hmem) rfl (by simp)
    exact ⟨hsub, fun _ => hshape⟩
  · cases hgroup
    cases hrows
    obtain ⟨hshape, hsub⟩ := isRow_of_parts (hulu_parts hplain hmem) rfl (by simp)
    exact ⟨hsub, fun _ => hshape⟩
  · cases hgroup
    obtain ⟨hsub, hflush, hnot⟩ := tonghua_sound hsuited hrows hmem
    exact ⟨hsub, fun hcards => ⟨hflush, fun hstraight =>
      hnot ((straight_iff (hrange hsub.subset hcards)).1 hstraight)⟩⟩
  · cases hgroup
    obtain ⟨hfalls, hsubset⟩ := shunzi_sound hplain hrows hmem
    exact ⟨subperm_of_falls hfalls hsubset, fun hcards => hfalls.straight (hrange hsubset hcards)⟩
  · cases hgroup
    cases hrows
    obtain ⟨hshape, hsub⟩ := isRow_of_parts (santiaoFive_parts hplain hmem) rfl (by simp)
    exact ⟨hsub, fun _ => .inl hshape⟩
  · cases hgroup
    cases hrows
    obtain ⟨hshape, hsub⟩ := isRow_of_parts (liangdui_parts hplain hmem) rfl (by simp)
    exact ⟨hsub, fun _ => hshape⟩
  · cases hgroup
    cases hrows
    obtain ⟨hshape, hsub⟩ := isRow_of_parts (yiduiFive_parts hplain hmem).1 rfl (by simp)
    exact ⟨hsub, fun _ => .inl hshape⟩
  · cases hgroup
    cases hrows
    exact ⟨(isRow_of_parts (wulongFive_parts hplain hmem).1 rfl (by simp)).2, fun _ => trivial⟩

theorem generator_ok (hsuited : Suited cards) {n : Int} (hn : 1 ≤ n ∧ n ≤ 10)
    {group : List Card → Lua (List Five)} (hgroup : tGroup n = some group) :
    ∃ rows, group cards = .ok rows := by
  have hplain := hsuited.noJokers
  obtain ⟨hlow, hhigh⟩ := hn
  interval_cases n
  · cases hgroup
    exact wutong_ok hplain
  · cases hgroup
    exact tonghuashun_ok hsuited
  · cases hgroup
    exact sitiao_ok hplain
  · cases hgroup
    exact ⟨_, rfl⟩
  · cases hgroup
    exact tonghua_ok hsuited
  · cases hgroup
    exact shunzi_ok hplain
  · cases hgroup
    exact ⟨_, rfl⟩
  · cases hgroup
    exact ⟨_, rfl⟩
  · cases hgroup
    exact ⟨_, rfl⟩
  · cases hgroup
    exact ⟨_, rfl⟩

theorem times_of_shape {ns : List Nat} (hshape : shape (values cards) = ns) (n : Nat) :
    times cards n = ns.countP fun k => min k 5 = n := by
  unfold times
  rw [hshape]

theorem suitOf_of_flush (hflush : Flush cards) {c : Card} (hc : c ∈ cards) :
    (suitOf cards c.type).Perm cards := by
  unfold suitOf
  rw [List.filter_eq_self.2 fun d hd => decide_eq_true (hflush d (Lua.mem_tableSort.1 hd) c hc)]
  exact Lua.tableSort_perm sortRise cards

/-- On exactly five cards that are a row of its type a generator returns something. -/
theorem generator_complete (hdeck : ∀ c ∈ cards, InDeck c) (hlength : cards.length = 5) {n : Int}
    (hn : 1 ≤ n ∧ n ≤ 9) {group : List Card → Lua (List Five)} (hgroup : tGroup n = some group)
    {rows : List Five} (hrows : group cards = .ok rows) (hrow : IsRow (11 - n) cards) :
    rows ≠ [] := by
  have hsuited := suited_of_inDeck hdeck
  have hplain := noJokers_of_inDeck hdeck
  have hrange := range_of_inDeck hdeck
  have hlong := hlength.ge
  obtain ⟨first, hfirst⟩ : ∃ c, c ∈ cards := List.exists_mem_of_length_pos (by omega)
  obtain ⟨hlow, hhigh⟩ := hn
  interval_cases n
  · cases hgroup
    have hcount := times_of_shape hrow
    rw [wutong_eq hplain hlong, Except.ok.injEq] at hrows
    subst hrows
    have hsize := (times_eq hplain).2.2.2.2
    rw [hcount] at hsize
    rw [Ne, List.reverse_eq_nil_iff]
    exact List.ne_nil_of_length_pos (by rw [hsize]; decide)
  · cases hgroup
    obtain ⟨hflush, hstraight⟩ := hrow
    have hfalls := (straight_iff hrange).1 hstraight
    refine tonghuashun_ne_nil hsuited (fun c hc => (hdeck c hc).2) hlong hrows
      (hdeck first hfirst).1 hfalls ?_
    have hperm : (values (suitOf cards first.type)).Perm (values cards) :=
      (suitOf_of_flush hflush hfirst).map _
    exact ((desc_perm _).trans hperm.symm).subset
  · cases hgroup
    have hcount := times_of_shape hrow
    exact sitiao_ne_nil hplain hrows hlong (by rw [hcount]; decide) (by simp only [hcount]; decide)
  · cases hgroup
    cases hrows
    have hcount := times_of_shape hrow
    exact hulu_ne_nil hplain hlong (by simp only [hcount]; decide)
  · cases hgroup
    obtain ⟨hflush, hstraight⟩ := hrow
    have hperm := suitOf_of_flush hflush hfirst
    have hperm' : (values (suitOf cards first.type)).Perm (values cards) := hperm.map _
    refine tonghua_ne_nil hsuited hlong hrows (hdeck first hfirst).1
      (by rw [hperm.length_eq]; exact hlong) ?_
    rw [List.take_of_length_le (by rw [hperm.length_eq, hlength]), desc_eq_of_perm hperm']
    exact fun hfalls => hstraight ((straight_iff hrange).2 hfalls)
  · cases hgroup
    have hfalls := (straight_iff hrange).1 hrow
    obtain ⟨rows', hrows', row, hmem, -⟩ := shunzi_complete hplain hlong hfalls (desc_perm _).subset
    rw [hrows, Except.ok.injEq] at hrows'
    exact hrows' ▸ List.ne_nil_of_mem hmem
  · cases hgroup
    cases hrows
    rcases hrow with hrow | hrow
    · have hcount := times_of_shape hrow
      exact santiaoFive_ne_nil hplain hlong (by rw [hcount]; decide) (by simp only [hcount]; decide)
    · have hthree := @length_of_shape _ 3 0 hrow
      rw [values, List.length_map] at hthree
      omega
  · cases hgroup
    cases hrows
    have hcount := times_of_shape hrow
    exact liangdui_ne_nil hplain hlong (by simp only [hcount]; decide)
  · cases hgroup
    cases hrows
    rcases hrow with hrow | hrow
    · have hcount := times_of_shape hrow
      exact yiduiFive_ne_nil hplain hlong (by rw [hcount]; decide) (by rw [hcount]; decide)
    · have hthree := @length_of_shape _ 2 1 hrow
      rw [values, List.length_map] at hthree
      omega

end Rows

section Check

variable {cards : List Card}

theorem checkFive_eq (hdeck : ∀ c ∈ cards, InDeck c) (hlength : cards.length = 5) {t : Int}
    (ht : 1 ≤ t ∧ t ≤ 10) : checkFive (some t) cards = .ok (decide (IsRow t cards)) := by
  unfold checkFive
  rw [Lua.need_some, Lua.ok_bind]
  by_cases hany : t = 1
  · subst hany
    rfl
  · rw [if_neg (by omega)]
    obtain ⟨group, hgroup⟩ := @exists_tGroup (11 - t) (by omega)
    obtain ⟨rows, hrows⟩ := generator_ok (suited_of_inDeck hdeck) (by omega) hgroup
    rw [hgroup, Lua.need_some, Lua.ok_bind, hrows, Lua.ok_bind, Lua.pure_eq_ok, Except.ok.injEq,
      decide_eq_decide, Ne, List.length_eq_zero_iff]
    constructor
    · intro hne
      obtain ⟨row, hmem⟩ := List.exists_mem_of_ne_nil rows hne
      obtain ⟨hsub, hrow⟩ := generator_sound (suited_of_inDeck hdeck) (by omega) hgroup hrows hmem
      have hperm : row.toList.Perm cards := hsub.perm_of_length_le (by rw [hlength]; rfl)
      have hrow' := hrow (range_of_inDeck hdeck)
      rw [show 11 - (11 - t) = t by omega] at hrow'
      exact isRow_of_perm hperm hrow'
    · intro hrow
      refine generator_complete hdeck hlength (by omega) hgroup hrows ?_
      rwa [show 11 - (11 - t) = t by omega]

theorem checkThree_eq (hplain : NoJokers cards) (hlength : cards.length = 3) {t : Int}
    (ht : t = 1 ∨ t = 2 ∨ t = 4 ∨ t = 11) :
    checkThree (some t) cards = .ok (decide (TopRow t cards)) := by
  have htrips : decide ((santiao cards).length ≠ 0) =
      decide (∀ c ∈ cards, ∀ d ∈ cards, c.value = d.value) := by
    rw [decide_eq_decide, Ne, List.length_eq_zero_iff]
    refine ⟨fun hne => ?_, santiao_ne_nil hplain hlength⟩
    obtain ⟨row, hmem⟩ := List.exists_mem_of_ne_nil _ hne
    obtain ⟨hsub, h12, h23⟩ := santiao_sound hplain hmem
    have hperm : row.toList.Perm cards := hsub.perm_of_length_le (by rw [hlength]; rfl)
    have hvalue : ∀ c ∈ cards, c.value = row.c1.value := by
      intro c hc
      have hrow := hperm.mem_iff.2 hc
      simp only [Three.toList, List.mem_cons, List.not_mem_nil, or_false] at hrow
      rcases hrow with rfl | rfl | rfl
      · rfl
      · exact h12.symm
      · exact (h12.trans h23).symm
    exact fun c hc d hd => (hvalue c hc).trans (hvalue d hd).symm
  rcases ht with rfl | rfl | rfl | rfl
  · exact congrArg Except.ok (decide_eq_true (by simp [TopRow])).symm
  · have hpair : decide ((yiduiThree cards).length ≠ 0) = decide (¬(values cards).Nodup) := by
      rw [decide_eq_decide, Ne, List.length_eq_zero_iff]
      refine ⟨fun hne hnodup => ?_, yiduiThree_ne_nil hplain hlength.ge⟩
      obtain ⟨row, hmem⟩ := List.exists_mem_of_ne_nil _ hne
      obtain ⟨hsub, heq⟩ := yiduiThree_sound hplain hmem
      have hperm : (values row.toList).Perm (values cards) :=
        (hsub.perm_of_length_le (by rw [hlength]; rfl)).map _
      have hdistinct := hperm.nodup_iff.2 hnodup
      simp [values, Three.toList, heq] at hdistinct
    have htop : TopRow 2 cards ↔ ¬(values cards).Nodup := by
      simp [TopRow]
    rw [decide_eq_decide.2 htop, ← hpair]
    rfl
  · rw [show decide (TopRow 4 cards) = _ from htrips.symm]
    rfl
  · rw [show decide (TopRow 11 cards) = _ from htrips.symm]
    rfl

/-- `check_pai_type` accepts exactly the hands whose rows are what they are declared to be. -/
theorem checkPaiType_exact (hdeck : ∀ c ∈ cards, InDeck c) (hlength : cards.length = 13)
    {t1 t2 t3 : Int}
    (h1 : 1 ≤ t1 ∧ t1 ≤ 10) (h2 : 1 ≤ t2 ∧ t2 ≤ 10) (h3 : t3 = 1 ∨ t3 = 2 ∨ t3 = 4 ∨ t3 = 11) :
    checkPaiType (some cards) (some [t1, t2, t3]) =
      .ok (decide (IsRow t1 (cards.take 5) ∧ IsRow t2 ((cards.drop 5).take 5) ∧
        TopRow t3 ((cards.drop 10).take 3))) := by
  have hbottom := @checkFive_eq (cards.take 5) (fun c hc => hdeck c (List.mem_of_mem_take hc))
    (by rw [List.length_take]; omega) t1 h1
  have hmiddle := @checkFive_eq ((cards.drop 5).take 5)
    (fun c hc => hdeck c (List.mem_of_mem_drop (List.mem_of_mem_take hc)))
    (by rw [List.length_take, List.length_drop]; omega) t2 h2
  have htop := @checkThree_eq ((cards.drop 10).take 3)
    (fun c hc => noJokers_of_inDeck hdeck c (List.mem_of_mem_drop (List.mem_of_mem_take hc)))
    (by rw [List.length_take, List.length_drop]; omega) t3 h3
  unfold checkPaiType
  simp only [Lua.need_some, Lua.ok_bind]
  rw [show Lua.nth [t1, t2, t3] 3 = some t3 from rfl, show Lua.nth [t1, t2, t3] 2 =
    some t2 from rfl,
    show Lua.nth [t1, t2, t3] 1 = some t1 from rfl, htop, hmiddle, hbottom]
  by_cases hthree : TopRow t3 ((cards.drop 10).take 3)
  · by_cases hmid : IsRow t2 ((cards.drop 5).take 5)
    · simp [hthree, hmid]
    · simp [hthree, hmid]
  · simp [hthree]

/-- A full house, a flush and a pair on top. -/
def threeRows : List Card :=
  [⟨1, 5, none, none⟩, ⟨2, 5, none, none⟩, ⟨3, 5, none, none⟩, ⟨1, 9, none, none⟩,
    ⟨2, 9, none, none⟩,
    ⟨4, 2, none, none⟩, ⟨4, 6, none, none⟩, ⟨4, 7, none, none⟩, ⟨4, 11, none, none⟩,
      ⟨4, 13, none, none⟩,
    ⟨1, 3, none, none⟩, ⟨2, 3, none, none⟩, ⟨3, 8, none, none⟩]

theorem checkPaiType_exact_threeRows : checkPaiType (some threeRows) (some [7, 6, 2]) = .ok true :=
  (checkPaiType_exact (by decide) rfl (by decide) (by decide) (by decide)).trans
    (congrArg Except.ok (decide_eq_true (by decide)))

end Check

end SdyServer.Daboluo
