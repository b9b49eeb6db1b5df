import SdyServer.Daboluo.DelCards
import SdyServer.Daboluo.GroupsExact
import SdyServer.Daboluo.Variety

/-!
# Piles with jokers

A pile of ordinary cards and jokers is sorted, grouped and deleted from in its two parts: the
ordinary cards as they would be without the jokers, and the jokers by their number.
-/

namespace SdyServer.Daboluo

def Mixed (cards : List Card) : Prop := ∀ c ∈ cards, Ordinary c ∨ IsJoker c

/-- The ordinary cards of a row, next to jokers that stand for others. -/
def rowCards (row : List Card) : List Card := row.filter fun c => c.type < 5

section Parts

variable {cards : List Card} {c : Card}

/-- A plain card is told by its suit and its value. -/
theorem Plain.eq_of_kind {d : Card} (hc : Plain c) (hd : Plain d) (htype : c.type = d.type)
    (hvalue : c.value = d.value) : c = d := by
  obtain ⟨-, -, hsuit, hold⟩ := hc
  obtain ⟨-, -, hsuit', hold'⟩ := hd
  obtain ⟨type, value, suit, old⟩ := c
  obtain ⟨type', value', suit', old'⟩ := d
  exact Card.mk.injEq .. ▸ ⟨htype, hvalue, hsuit.trans hsuit'.symm, hold.trans hold'.symm⟩

theorem mem_ordinary : c ∈ ordinary cards ↔ c ∈ cards ∧ ¬c.value > 13 := by
  unfold ordinary
  rw [List.mem_filter, decide_eq_true_eq]

theorem mem_jokersOf : c ∈ jokersOf cards ↔ c ∈ cards ∧ c.value > 13 := by
  unfold jokersOf
  rw [List.mem_filter, decide_eq_true_eq]

theorem length_parts (cards : List Card) :
    (ordinary cards).length + (jokersOf cards).length = cards.length := by
  have hsplit := (List.filter_append_perm (fun c => decide (¬c.value > 13)) cards).length_eq
  rw [List.length_append] at hsplit
  unfold ordinary jokersOf
  simpa only [decide_not, Bool.not_not] using hsplit

theorem Mixed.of_subset {cards' : List Card} (hmixed : Mixed cards) (hsub : cards' ⊆ cards) :
    Mixed cards' :=
  fun c hc => hmixed c (hsub hc)

theorem Mixed.mem_ordinary (hmixed : Mixed cards) : ∀ c ∈ ordinary cards, Ordinary c := by
  intro c hc
  obtain ⟨hmem, hvalue⟩ := Daboluo.mem_ordinary.1 hc
  refine (hmixed c hmem).resolve_right ?_
  rintro ⟨-, h⟩
  omega

theorem Mixed.plain (hmixed : Mixed cards) : ∀ c ∈ ordinary cards, Plain c := fun c hc =>
  (hmixed.mem_ordinary c hc).1

theorem Mixed.noJokers (hmixed : Mixed cards) : NoJokers (ordinary cards) :=
  (suited_of_plain hmixed.plain).noJokers

theorem Mixed.values_mem (hmixed : Mixed cards) :
    ∀ v ∈ values (ordinary cards), 1 ≤ v ∧ v ≤ 13 := by
  intro v hv
  obtain ⟨c, hc, rfl⟩ := List.mem_map.1 hv
  exact (hmixed.mem_ordinary c hc).2

/-- The two parts are told apart by the suit as well. -/
theorem Mixed.type_iff (hmixed : Mixed cards) (hc : c ∈ cards) : c.type ≠ 5 ↔ ¬c.value > 13 := by
  rcases hmixed c hc with ⟨⟨-, htype, -⟩, -, hvalue⟩ | ⟨htype, hvalue⟩
  · omega
  · omega

theorem Mixed.filter_isOrdinary (hmixed : Mixed cards) : cards.filter isOrdinary = ordinary cards :=
  List.filter_congr fun _ hc => decide_eq_decide.2 (hmixed.type_iff hc)

/-- The sorted ordinary cards do not depend on the jokers they are sorted with. -/
theorem Mixed.ordinary_sorted (hmixed : Mixed cards) :
    ordinary (sorted cards) = sorted (ordinary cards) := by
  have hperm : (ordinary (sorted cards)).Perm (sorted (ordinary cards)) :=
    ((Lua.tableSort_perm sortRise cards).filter _).trans (Lua.tableSort_perm sortRise _).symm
  refine List.Perm.eq_of_pairwise (fun c d hc hd hcd hdc => ?_) ((pairwise_sortRise cards).filter _)
    (pairwise_sortRise (ordinary cards)) hperm
  have hplain := hmixed.plain c (Lua.mem_tableSort.1 (hperm.subset hc))
  exact hplain.eq_of_kind (hmixed.plain d (Lua.mem_tableSort.1 hd)) (by omega) (by omega)

theorem Mixed.sorted (hmixed : Mixed cards) : Mixed (sorted cards) :=
  hmixed.of_subset fun _ hc => Lua.mem_tableSort.1 hc

theorem Mixed.getVariety_eq (hmixed : Mixed cards) :
    getVariety cards = (Daboluo.sorted (ordinary cards), jokersOf (Daboluo.sorted cards)) := by
  unfold getVariety
  rw [List.partition_eq_filter_filter]
  have hjokers : (Daboluo.sorted cards).filter (not ∘ fun c => decide (c.type ≠ 5)) =
      jokersOf (Daboluo.sorted cards) := by
    refine List.filter_congr fun c hc => ?_
    rw [Function.comp_apply, ← decide_not, decide_eq_decide, hmixed.sorted.type_iff hc, not_not]
  have hordinary := hmixed.sorted.filter_isOrdinary
  rw [hmixed.ordinary_sorted] at hordinary
  exact Prod.ext hordinary hjokers

/-- The walk of `getGroupCards` is the one over the ordinary cards. -/
theorem Mixed.ordinaryPile_eq (hmixed : Mixed cards) :
    ordinaryPile cards = pile (ordinary cards) := by
  have hsorted : (Daboluo.sorted cards).filter isOrdinary = Daboluo.sorted (ordinary cards) := by
    rw [hmixed.sorted.filter_isOrdinary, hmixed.ordinary_sorted]
  unfold ordinaryPile pile
  rw [List.filter_reverse]
  exact congrArg List.reverse hsorted

/-- What `getGroupCards` gives to `shunzi`. -/
theorem Mixed.getGroupCards_piles (hmixed : Mixed cards) :
    (getGroupCards cards).szArr = runsFrom [] (pile (ordinary cards)) ∧
      (getGroupCards cards).vArr = jokersOf (Daboluo.sorted cards) ∧
        (getGroupCards cards).cardsArr = Daboluo.sorted (ordinary cards) := by
  have hpiles := getGroupCards_piles_any cards
  rwa [hmixed.ordinaryPile_eq, hmixed.getVariety_eq] at hpiles

theorem length_jokersOf_sorted (cards : List Card) :
    (jokersOf (sorted cards)).length = (jokersOf cards).length :=
  ((Lua.tableSort_perm sortRise cards).filter _).length_eq

end Parts

section Deleting

variable {cards row : List Card} {c : Card}

/-- An ordinary card is counted by its kind. -/
theorem Mixed.count_ordinary (hmixed : Mixed cards) (hc : Ordinary c) :
    (ordinary cards).count c = cards.countP (isKind c.type c.value) := by
  unfold ordinary
  rw [List.count, List.countP_filter]
  refine List.countP_congr fun d hd => ?_
  rw [Bool.and_eq_true, beq_iff_eq, decide_eq_true_eq, isKind, decide_eq_true_eq]
  constructor
  · rintro ⟨rfl, -⟩
    exact ⟨rfl, rfl⟩
  · rintro ⟨htype, hvalue⟩
    obtain ⟨hplain, -, hle⟩ := hc
    rcases hmixed d hd with ⟨hplain', -, -⟩ | ⟨h, -⟩
    · exact ⟨hplain'.eq_of_kind hplain htype hvalue, by omega⟩
    · have := hplain.2.1
      omega

theorem Mixed.length_jokersOf (hmixed : Mixed cards) :
    (jokersOf cards).length = cards.countP isJoker := by
  unfold jokersOf
  rw [← List.countP_eq_length_filter]
  refine List.countP_congr fun c hc => ?_
  have htype := hmixed.type_iff hc
  rw [decide_eq_true_eq, isJoker, decide_eq_true_eq]
  omega

/-- The cards of a row, which may have jokers in the place of others. -/
def RowOf (cards row : List Card) : Prop :=
  (∀ c ∈ row, Plain c ∨ c.type = 5) ∧ (rowCards row).Subperm (ordinary cards)

theorem count_rowCards (hrow : ∀ c ∈ row, Plain c ∨ c.type = 5) (hc : Plain c) :
    (rowCards row).count c = row.countP (isKind c.type c.value) := by
  unfold rowCards
  rw [List.count, List.countP_filter]
  refine List.countP_congr fun d hd => ?_
  rw [Bool.and_eq_true, beq_iff_eq, decide_eq_true_eq, isKind, decide_eq_true_eq]
  have hsuit := hc.2.1
  constructor
  · rintro ⟨rfl, -⟩
    exact ⟨rfl, rfl⟩
  · rintro ⟨htype, hvalue⟩
    rcases hrow d hd with hplain | h
    · exact ⟨hplain.eq_of_kind hc htype hvalue, by omega⟩
    · omega

theorem Mixed.without (hmixed : Mixed cards) (row : List Card) : Mixed (without cards row) :=
  hmixed.of_subset fun _ hc => Lua.mem_tableSort.1 ((delCards_sublist _ _).subset hc)

/-- The cards of a row are deleted, and one joker for each joker of the row. -/
theorem Mixed.without_perm (hmixed : Mixed cards) (hrow : RowOf cards row) :
    (rowCards row ++ ordinary (Daboluo.without cards row)).Perm (ordinary cards) ∧
      (jokersOf (Daboluo.without cards row)).length = (jokersOf cards).length -
      row.countP isJoker := by
  have hperm : (Daboluo.sorted cards).Perm cards := Lua.tableSort_perm sortRise cards
  constructor
  · rw [List.perm_iff_count]
    intro c
    rw [List.count_append]
    by_cases hc : Ordinary c
    · have hle := hrow.2.count_le c
      rw [count_rowCards hrow.1 hc.1, hmixed.count_ordinary hc] at hle
      rw [count_rowCards hrow.1 hc.1, hmixed.count_ordinary hc,
        (hmixed.without row).count_ordinary hc,
        Daboluo.without, countP_delCards (by have := hc.1.2.1; omega), hperm.countP_eq]
      omega
    · have hnone : ∀ l : List Card, (∀ d ∈ l, Ordinary d) → l.count c = 0 := fun l hl =>
        List.count_eq_zero_of_not_mem fun hmem => hc (hl c hmem)
      have hrowCards : ∀ d ∈ rowCards row, Ordinary d := fun d hd =>
        hmixed.mem_ordinary d (hrow.2.subset hd)
      rw [hnone _ hrowCards, hnone _ (hmixed.without row).mem_ordinary, hnone _ hmixed.mem_ordinary]
  · rw [(hmixed.without row).length_jokersOf, hmixed.length_jokersOf, Daboluo.without,
      countP_delCards_jokers,
      hperm.countP_eq]

end Deleting

end SdyServer.Daboluo
