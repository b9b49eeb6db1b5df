import SdyServer.Daboluo.SpecialExact

/-!
# How special hands are shown

The hand that is shown for a special type is the dealt one. Three straights are shown one after the
other; so are three flushes, unless a suit of eight cards is visited before the other suit of five.
-/

namespace SdyServer.Daboluo

open Blocks

section Statement

/-- The shown hand is the dealt one, in the rows of its type. -/
def ShownWell (hand : List Card) (result : Option (Int × List Card)) : Prop :=
  ∀ t shown, result = some (t, shown) → shown.Perm hand ∧
    (t = 1 → Flush (shown.take 5) ∧ Flush ((shown.drop 5).take 5) ∧ Flush (shown.drop 10)) ∧
      (t = 2 → Falls (values (shown.take 5)) ∧ Falls (values ((shown.drop 5).take 5)) ∧
        FallsThree (values (shown.drop 10)))

/-- How many values occur three to five times. -/
def tripValues (hand : List Card) : Nat :=
  (values hand).dedup.countP fun v => 3 ≤ (values hand).count v ∧ (values hand).count v ≤ 5

/-- How many pairs the values have that occur at most five times. -/
def pairsOfValues (hand : List Card) : Nat :=
  (values hand).dedup.countP (fun v => 2 ≤ (values hand).count v ∧ (values hand).count v ≤ 3) +
    2 * (values hand).dedup.countP (fun v => 4 ≤ (values hand).count v ∧ (values hand).count v ≤ 5)

/-- The sizes of the suits in the order in which they are visited. -/
def visitedSizes (pairs : List (List Card) → List (List Card)) (hand : List Card) : List Nat :=
  (pairs (blocks Card.type (Lua.tableSort sortDescent hand))).map List.length

end Statement

section Counts

theorem foldl_visit_counts {ns : List Nat} (s : ValueCounts) :
    (ns.foldl ValueCounts.visit s).sanNum = s.sanNum + ns.countP (fun n => 3 ≤ n ∧ n ≤ 5) ∧
      (ns.foldl ValueCounts.visit s).duiNum = s.duiNum + (ns.countP (fun n => 2 ≤ n ∧ n ≤ 3) +
        2 * ns.countP (fun n => 4 ≤ n ∧ n ≤ 5)) := by
  induction ns generalizing s with
  | nil => simp
  | cons n ns ih =>
      obtain ⟨hsan, hdui⟩ := ih (s.visit n)
      have hvisit : (s.visit n).sanNum = s.sanNum + (if 3 ≤ n ∧ n ≤ 5 then 1 else 0) ∧
          (s.visit n).duiNum = s.duiNum + ((if 2 ≤ n ∧ n ≤ 3 then 1 else 0) +
            2 * if 4 ≤ n ∧ n ≤ 5 then 1 else 0) := by
        by_cases hn : 2 ≤ n ∧ n ≤ 5
        · have hcases : n = 2 ∨ n = 3 ∨ n = 4 ∨ n = 5 := by omega
          rcases hcases with rfl | rfl | rfl | rfl <;> exact ⟨rfl, rfl⟩
        · have hsame : (s.visit n).sanNum = s.sanNum ∧ (s.visit n).duiNum = s.duiNum := by
            have h2 : ¬n = 2 := by omega
            have h3 : ¬n = 3 := by omega
            have h45 : ¬(n = 4 ∨ n = 5) := by omega
            unfold ValueCounts.visit
            simp only [if_neg h2, if_neg h3, if_neg h45]
            split_ifs <;> exact ⟨rfl, rfl⟩
          rw [if_neg (by omega), if_neg (by omega), if_neg (by omega)]
          exact hsame
      rw [List.foldl_cons, hsan, hdui, hvisit.1, hvisit.2, List.countP_cons, List.countP_cons,
        List.countP_cons]
      simp only [decide_eq_true_eq]
      omega

theorem valueCounts_eq (hand : List Card) :
    (valueCounts hand).sanNum = tripValues hand ∧ (valueCounts hand).duiNum =
    pairsOfValues hand := by
  obtain ⟨hsan, hdui⟩ :=
    @foldl_visit_counts ((blocks Card.value (Lua.tableSort sortDescent hand)).map List.length) {}
  have hperm := valueSizes_perm hand
  unfold valueCounts tripValues pairsOfValues
  rw [hsan, hdui, hperm.countP_eq, hperm.countP_eq, hperm.countP_eq, List.countP_map,
    List.countP_map,
    List.countP_map, Nat.zero_add, Nat.zero_add]
  exact ⟨rfl, rfl⟩

end Counts

section Shown

variable {pairs : List (List Card) → List (List Card)} {hand : List Card} {danse : Bool}

theorem isSth_of_perm {gs hs : List (List Card)} (hperm : gs.Perm hs) (hsth : isSth gs = true) :
    isSth hs = true := by
  obtain ⟨hlength, hsizes⟩ := isSth_iff.1 hsth
  exact isSth_iff.2 ⟨hperm.length_eq ▸ hlength, fun g hg => hsizes g (hperm.mem_iff.2 hg)⟩

/-- A suit of eight and a suit of five do not have five of one suit in the middle. -/
theorem not_flush_of_eightFive {gs : List (List Card)} {cards : List Card}
    (hperm : gs.Perm (blocks Card.type cards)) (hsizes : gs.map List.length = [8, 5]) :
    ¬Flush (((threeFlushes gs).drop 5).take 5) := by
  obtain ⟨g, h, rfl⟩ : ∃ g h, gs = [g, h] := by
    rw [← List.length_eq_two, ← List.length_map List.length, hsizes]
    rfl
  simp only [List.map_cons, List.map_nil, List.cons.injEq, and_true] at hsizes
  obtain ⟨hg, hh⟩ := hsizes
  have hmem : ∀ f ∈ [g, h], f ∈ blocks Card.type cards := fun f hf => hperm.mem_iff.1 hf
  rw [List.forall_mem_cons, List.forall_mem_singleton] at hmem
  have hne : g ≠ h := fun heq => by
    rw [heq, hh] at hg
    cases hg
  have hshown : ((threeFlushes [g, h]).drop 5).take 5 = g.drop 5 ++ h.take 2 := by
    simp [threeFlushes, hg, hh, List.drop_append, List.take_append]
  obtain ⟨x, hx⟩ := List.exists_mem_of_length_pos (l := g.drop 5) (by simp [hg])
  obtain ⟨y, hy⟩ := List.exists_mem_of_length_pos (l := h.take 2) (by simp [hh])
  intro hflush
  rw [hshown] at hflush
  refine key_ne_of_mem_blocks hmem.1 hmem.2 hne (List.mem_of_mem_drop hx)
    (List.mem_of_mem_take hy) ?_
  exact hflush x (List.mem_append_left _ hx) y (List.mem_append_right _ hy)

/-- The suits that are shown as three flushes. -/
theorem shown_of_flushes (hpairs : ∀ l, (pairs l).Perm l) (hlength : hand.length = 13)
    (hflushes : SplitsIntoFlushes hand) (horder : visitedSizes pairs hand ≠ [8, 5]) :
    ShownFlushes hand
    (threeFlushes (pairs (blocks Card.type (Lua.tableSort sortDescent hand)))) := by
  have hperm := Lua.tableSort_perm sortDescent hand
  have hvisited := hpairs (blocks Card.type (Lua.tableSort sortDescent hand))
  have hall := hvisited.flatten.trans ((flatten_blocks_perm Card.type _).trans hperm)
  have hsth := isSth_of_perm hvisited.symm ((isSth_blocks_iff hperm hlength).2 hflushes)
  obtain ⟨hshown, hfirst, hsecond, hthird⟩ := threeFlushes_shown
    (suitSizes_of_isSth hsth (hall.length_eq.trans hlength))
    (fun g hg => flush_of_mem_blocks (hvisited.mem_iff.1 hg)) horder
  exact ⟨hshown.trans hall, hfirst, hsecond, hthird⟩

/-- **The shown hand is in order exactly when** three flushes are not shown from a suit of eight
cards and then one of five. -/
theorem checkSpecialSmall_shown_iff (hpairs : ∀ l, (pairs l).Perm l) (hplain : ∀ c ∈ hand, Plain c)
    (hrange : ∀ c ∈ hand, 1 ≤ c.value ∧ c.value ≤ 13) (hlength : hand.length = 13) :
    (∃ result, checkSpecialSmall pairs hand danse = .ok result ∧ ShownWell hand result) ↔
      visitedSizes pairs hand ≠ [8, 5] ∨ danse = true ∨ Dragon hand ∨ SixOfAKind hand ∨
      4 ≤ tripValues hand ∨
        6 ≤ pairsOfValues hand ∨ SplitsIntoStraights hand := by
  have hvalues : ∀ v ∈ values hand, 1 ≤ v ∧ v ≤ 13 := by
    intro v hv
    obtain ⟨c, hc, rfl⟩ := List.mem_map.1 hv
    exact hrange c hc
  have hperm := Lua.tableSort_perm sortDescent hand
  obtain ⟨hsan, hdui⟩ := valueCounts_eq hand
  obtain ⟨result, hresult, houtcome⟩ :=
    @checkSpecialSmall_outcome pairs hand danse hplain hvalues hlength
  have hsorted : ∀ t, t ≠ 1 → t ≠ 2 →
      ShownWell hand (some (t, Lua.tableSort sortDescent hand)) := by
    intro t h1 h2 t' shown heq
    simp only [Option.some.injEq, Prod.mk.injEq] at heq
    obtain ⟨rfl, rfl⟩ := heq
    exact ⟨hperm, fun h => absurd h h1, fun h => absurd h h2⟩
  constructor
  · rintro ⟨result', hresult', hshown⟩
    obtain rfl : result = result' := Except.ok.inj (hresult.symm.trans hresult')
    by_contra hnot
    simp only [not_or, not_not] at hnot
    obtain ⟨hsizes, hdanse, hdragon, hsix, htrips, hpairs', hstraights⟩ := hnot
    have hvisited := hpairs (blocks Card.type (Lua.tableSort sortDescent hand))
    have hflushes : SplitsIntoFlushes hand := by
      refine (isSth_blocks_iff hperm hlength).1 (isSth_of_perm hvisited (isSth_iff.2 ?_))
      have hlong : (pairs (blocks Card.type (Lua.tableSort sortDescent hand))).length = 2 := by
        rw [← List.length_map (f := List.length)]
        exact congrArg List.length hsizes
      refine ⟨.inl hlong, fun g hg => ?_⟩
      have hmem : g.length ∈ visitedSizes pairs hand := List.mem_map_of_mem hg
      rw [hsizes] at hmem
      simp only [List.mem_cons, List.not_mem_nil, or_false] at hmem
      omega
    cases houtcome with
    | oneSuit h _ | dragon h _ => exact hdragon h
    | twoSixes _ h => exact hsix h.six
    | six _ _ h => exact hsix h
    | trips _ _ h => exact htrips (hsan ▸ h)
    | sixPairs _ _ _ h => exact hpairs' (hdui ▸ h)
    | straights _ _ _ _ h => exact hstraights h.splits
    | flushes _ _ _ _ _ _ _ =>
        exact not_flush_of_eightFive hvisited hsizes ((hshown 1 _ rfl).2.1 rfl).2.1
    | plain _ _ _ _ _ h => exact h ⟨by simpa using hdanse, hflushes⟩
  · intro hcond
    refine ⟨result, hresult, ?_⟩
    cases houtcome with
    | oneSuit | dragon | twoSixes | six | trips | sixPairs =>
        exact hsorted _ (by decide) (by decide)
    | @straights _ _ _ _ shown h =>
        intro t shown' heq
        simp only [Option.some.injEq, Prod.mk.injEq] at heq
        obtain ⟨rfl, rfl⟩ := heq
        exact ⟨h.perm, fun h1 => absurd h1 (by decide), fun _ => ⟨h.first, h.second, h.third⟩⟩
    | flushes hdragon hsix htrips hpairs' hstraights hdanse hflushes =>
        have horder : visitedSizes pairs hand ≠ [8, 5] := by
          rcases hcond with h | h | h | h | h | h | h
          · exact h
          · rw [hdanse] at h
            cases h
          · exact absurd h hdragon
          · exact absurd h hsix
          · exact absurd (hsan ▸ h) htrips
          · exact absurd (hdui ▸ h) hpairs'
          · exact absurd h hstraights
        obtain ⟨hshown, hfirst, hsecond, hthird⟩ := shown_of_flushes hpairs hlength hflushes horder
        intro t shown heq
        simp only [Option.some.injEq, Prod.mk.injEq] at heq
        obtain ⟨rfl, rfl⟩ := heq
        exact ⟨hshown, fun _ => ⟨hfirst, hsecond, hthird⟩, fun h2 => absurd h2 (by decide)⟩
    | plain =>
        intro t shown heq
        cases heq

/-- A hand of three flushes: eight diamonds, one of them the lowest card, and five clubs. -/
def eightAndFive : List Card :=
  [⟨1, 1, none, none⟩, ⟨1, 2, none, none⟩, ⟨1, 4, none, none⟩, ⟨1, 5, none, none⟩,
    ⟨1, 7, none, none⟩,
    ⟨1, 8, none, none⟩, ⟨1, 10, none, none⟩, ⟨1, 11, none, none⟩, ⟨2, 1, none, none⟩,
      ⟨2, 2, none, none⟩,
    ⟨2, 4, none, none⟩, ⟨2, 10, none, none⟩, ⟨2, 13, none, none⟩]

theorem checkSpecialSmall_shown_iff_reverse :
    (∃ result, checkSpecialSmall List.reverse eightAndFive false = .ok result ∧
      ShownWell eightAndFive result) :=
  (checkSpecialSmall_shown_iff List.reverse_perm (by decide) (by decide) rfl).2
    (.inl (by decide +kernel))

/-- When the suit of eight is visited first, the middle row has two suits. -/
theorem checkSpecialSmall_not_shown :
    ¬∀ (pairs : List (List Card) → List (List Card)) (hand : List Card) (danse : Bool),
      (∀ l, (pairs l).Perm l) → (∀ c ∈ hand, Plain c) → (∀ c ∈ hand, 1 ≤ c.value ∧ c.value ≤ 13) →
        hand.length = 13 →
          ∃ result, checkSpecialSmall pairs hand danse = .ok result ∧ ShownWell hand result := by
  intro hall
  obtain ⟨result, hresult, hshown⟩ :=
    hall id eightAndFive false List.Perm.refl (by decide) (by decide) rfl
  have hrun : (checkSpecialSmall id eightAndFive false).toOption.bind (fun r => r) =
      some (1, threeFlushes (blocks Card.type (Lua.tableSort sortDescent eightAndFive))) := by
    decide +kernel
  rw [hresult] at hrun
  have hflush := ((hshown _ _ hrun).2.1 rfl).2.1
  revert hflush
  decide +kernel

end Shown

end SdyServer.Daboluo
