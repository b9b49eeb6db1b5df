import SdyServer.Daboluo.JokerPile
import SdyServer.Daboluo.JokerSets
import SdyServer.Daboluo.JokerSuits

/-!
# The hands that jokers make

Which patterns a hand follows with some cards in the place of its jokers is told by the values and
the suits of its ordinary cards.
-/

namespace SdyServer.Daboluo

open Blocks Weights

section Replacing

variable {hand hand' : List Card} {P : List Int → Prop}

theorem JokerHand.mixed (hhand : JokerHand hand) : Mixed hand := hhand.cards

theorem JokerHand.jokers (hhand : JokerHand hand) :
    (jokersOf hand).length = 1 ∨ (jokersOf hand).length = 2 := by
  have hone := hhand.one
  have htwo := hhand.two
  omega

theorem JokerHand.length_ordinary (hhand : JokerHand hand) :
    (jokersOf hand).length + (ordinary hand).length = 13 := by
  rw [Nat.add_comm, length_parts, hhand.length]

theorem JokerHand.length_values (hhand : JokerHand hand) :
    (jokersOf hand).length + (values (ordinary hand)).length = 13 := by
  unfold values
  rw [List.length_map, hhand.length_ordinary]

theorem JokerHand.length_types (hhand : JokerHand hand) :
    (jokersOf hand).length + ((ordinary hand).map Card.type).length = 13 := by
  rw [List.length_map, hhand.length_ordinary]

theorem JokerHand.values_subset (hhand : JokerHand hand) : values (ordinary hand) ⊆ deckValues :=
  fun v hv =>
  mem_deckValues (hhand.mixed.values_mem v hv)

theorem JokerHand.types_subset (hhand : JokerHand hand) :
    (ordinary hand).map Card.type ⊆ [1, 2, 3, 4] := by
  intro t ht
  obtain ⟨c, hc, rfl⟩ := List.mem_map.1 ht
  obtain ⟨hlow, hhigh, -⟩ := hhand.mixed.plain c hc
  simp only [List.mem_cons, List.not_mem_nil, or_false]
  omega

theorem Replaces.length (hreplaces : Replaces hand hand') : hand'.length = hand.length := by
  obtain ⟨js, hlength, -, rfl⟩ := hreplaces
  rw [List.length_append, hlength, length_parts]

/-- Cards that are made for keys replace the jokers. -/
theorem replaces_made {make : Int → Card} {ws : List Int}
    (hlength : ws.length = (jokersOf hand).length)
    (hmake : ∀ v ∈ ws, Ordinary (make v)) : Replaces hand (ordinary hand ++ ws.map make) := by
  refine ⟨ws.map make, by rw [List.length_map, hlength], fun c hc => ?_, rfl⟩
  obtain ⟨v, hv, rfl⟩ := List.mem_map.1 hc
  exact hmake v hv

theorem map_made {key : Card → Int} {make : Int → Card} (hback : ∀ v, key (make v) = v)
    (ws : List Int) :
    (ordinary hand ++ ws.map make).map key = (ordinary hand).map key ++ ws := by
  have hid : key ∘ make = id := funext hback
  rw [List.map_append, List.map_map, hid, List.map_id]

/-- The keys of the cards that replace jokers are any keys `ks` of ordinary cards. -/
theorem replaces_iff {key : Card → Int} {make : Int → Card} {ks : List Int}
    (hkey : ∀ c, Ordinary c → key c ∈ ks) (hmake : ∀ v ∈ ks, Ordinary (make v))
    (hback : ∀ v, key (make v) = v) (hP : ∀ l l', l.Perm l' → P l → P l') :
    (∃ hand', Replaces hand hand' ∧ P (hand'.map key)) ↔
      ∃ ws : List Int, ws.length = (jokersOf hand).length ∧ ws ⊆ ks ∧
      P (ws ++ (ordinary hand).map key) := by
  constructor
  · rintro ⟨hand', ⟨js, hlength, hjs, rfl⟩, hkeys⟩
    refine ⟨js.map key, by rw [List.length_map, hlength], fun v hv => ?_, hP _ _ ?_ hkeys⟩
    · obtain ⟨c, hc, rfl⟩ := List.mem_map.1 hv
      exact hkey c (hjs c hc)
    · rw [List.map_append]
      exact List.perm_append_comm
  · rintro ⟨ws, hlength, hks, hkeys⟩
    refine ⟨_, replaces_made hlength fun v hv => hmake v (hks hv), ?_⟩
    rw [map_made hback]
    exact hP _ _ List.perm_append_comm hkeys

theorem ordinary_of_value {i : Int} (hi : 1 ≤ i ∧ i ≤ 4) :
    ∀ v ∈ deckValues, Ordinary { type := i, value := v } := by
  intro v hv
  have hrange : ∀ v ∈ deckValues, 1 ≤ v ∧ v ≤ 13 := by decide
  exact ⟨⟨hi.1, hi.2, rfl, rfl⟩, hrange v hv⟩

/-- The values of the cards that replace jokers are any values of a deck. -/
theorem replaces_values_iff (hP : ∀ l l', l.Perm l' → P l → P l') :
    (∃ hand', Replaces hand hand' ∧ P (values hand')) ↔
      Makes (jokersOf hand).length (values (ordinary hand)) P :=
  replaces_iff (fun _ hc => mem_deckValues hc.2) (ordinary_of_value (i := 1) (by decide))
    (fun _ => rfl) hP

theorem SuitsOfRows.of_perm {ts ts' : List Int} (hrows : SuitsOfRows ts) (hperm : ts.Perm ts') :
    SuitsOfRows ts' := by
  refine ⟨hperm.dedup.length_eq ▸ hrows.kinds, fun t ht => ?_⟩
  rw [← hperm.count_eq]
  exact hrows.sizes t (hperm.mem_iff.2 ht)

/-- The suits of the cards that replace jokers are any suits. -/
theorem replaces_types_iff :
    (∃ hand', Replaces hand hand' ∧ SuitsOfRows (hand'.map Card.type)) ↔
      MakesRows (jokersOf hand).length ((ordinary hand).map Card.type) := by
  refine @replaces_iff _ _ Card.type (fun t => { type := t, value := 1 }) _ (fun c hc => ?_)
    (fun t ht => ?_)
    (fun _ => rfl) fun l l' hperm h => h.of_perm hperm
  · obtain ⟨hlow, hhigh, -⟩ := hc.1
    simp only [List.mem_cons, List.not_mem_nil, or_false]
    omega
  · have hrange : ∀ t ∈ ([1, 2, 3, 4] : List Int), 1 ≤ t ∧ t ≤ 4 := by decide
    obtain ⟨hlow, hhigh⟩ := hrange t ht
    exact ⟨⟨hlow, hhigh, rfl, rfl⟩, le_refl (1 : Int), (by decide : (1 : Int) ≤ 13)⟩

end Replacing

section Counting

variable {hand : List Card} {ns : List Nat}

theorem foldl_visit_sets (s : ValueCounts) :
    (ns.foldl ValueCounts.visit s).sanNum = s.sanNum + (ns.map threeToFive).sum ∧
      (ns.foldl ValueCounts.visit s).duiNum = s.duiNum + (ns.map pairsIn).sum := by
  induction ns generalizing s with
  | nil => simp
  | cons n ns ih =>
      obtain ⟨hsan, hdui⟩ := ih (s.visit n)
      have hvisit : (s.visit n).sanNum = s.sanNum + threeToFive n ∧ (s.visit n).duiNum =
          s.duiNum + pairsIn n := by
        unfold ValueCounts.visit threeToFive pairsIn
        grind
      rw [List.foldl_cons, hsan, hdui, hvisit.1, hvisit.2, List.map_cons, List.map_cons,
        List.sum_cons,
        List.sum_cons, Nat.add_assoc, Nat.add_assoc]
      exact ⟨rfl, rfl⟩

/-- The counted sets are the weights of the values. -/
theorem valueCounts_sets (hand : List Card) :
    (valueCounts hand).sanNum = total threeToFive (values hand) ∧
      (valueCounts hand).duiNum = total pairsIn (values hand) := by
  obtain ⟨hsan, hdui⟩ :=
    @foldl_visit_sets ((blocks Card.value (Lua.tableSort sortDescent hand)).map List.length) {}
  have hsum : ∀ w : Nat → Nat,
      (((blocks Card.value (Lua.tableSort sortDescent hand)).map List.length).map w).sum =
          total w (values hand) := by
    intro w
    rw [total_eq_sum (List.Perm.refl _), ((valueSizes_perm hand).map w).sum_eq, List.map_map]
    rfl
  unfold valueCounts
  rw [hsan, hdui, hsum, hsum]
  exact ⟨Nat.zero_add _, Nat.zero_add _⟩

end Counting

section Following

variable {hand : List Card}

theorem exists_dragon_iff (hhand : JokerHand hand) :
    (∃ hand', Replaces hand hand' ∧ Dragon hand') ↔ (values (ordinary hand)).Nodup := by
  rw [← makes_dragon_iff hhand.length_values hhand.values_subset]
  exact replaces_values_iff (P := fun l => l.Perm deckValues) fun l l' hperm h => hperm.symm.trans h

theorem exists_six_iff (hhand : JokerHand hand) :
    (∃ hand', Replaces hand hand' ∧ SixOfAKind hand') ↔
      ∃ v, (values (ordinary hand)).count v ≤ 6 ∧ 6 ≤ (values (ordinary hand)).count v +
      (jokersOf hand).length := by
  rw [← makes_six_iff hhand.jokers hhand.values_subset]
  refine replaces_values_iff (P := fun l => ∃ v, l.count v = 6) fun l l' hperm h => ?_
  obtain ⟨v, hv⟩ := h
  exact ⟨v, hperm.count_eq v ▸ hv⟩

theorem exists_trips_iff (hand : List Card) :
    (∃ hand', Replaces hand hand' ∧ 4 ≤ (valueCounts hand').sanNum) ↔
      Makes (jokersOf hand).length (values (ordinary hand)) fun l => 4 ≤ total threeToFive l := by
  simp only [(valueCounts_sets _).1]
  exact replaces_values_iff (P := fun l => 4 ≤ total threeToFive l)
    fun l l' hperm h => total_perm hperm ▸ h

theorem exists_pairs_iff (hand : List Card) :
    (∃ hand', Replaces hand hand' ∧ 6 ≤ (valueCounts hand').duiNum) ↔
      Makes (jokersOf hand).length (values (ordinary hand)) fun l => 6 ≤ total pairsIn l := by
  simp only [(valueCounts_sets _).2]
  exact replaces_values_iff (P := fun l => 6 ≤ total pairsIn l)
    fun l l' hperm h => total_perm hperm ▸ h

theorem exists_straights_iff (hhand : JokerHand hand) :
    (∃ hand', Replaces hand hand' ∧ SplitsIntoStraights hand') ↔ AmongStraights
    (values (ordinary hand)) := by
  rw [← makes_straights_iff hhand.length_values hhand.values_subset]
  refine replaces_values_iff (P := fun l => ∃ a b c, Falls a ∧ Falls b ∧ FallsThree c ∧
    (a ++ b ++ c).Perm l)
    fun l l' hperm h => ?_
  obtain ⟨a, b, c, ha, hb, hc, hall⟩ := h
  exact ⟨a, b, c, ha, hb, hc, hall.trans hperm⟩

theorem exists_flushes_iff (hhand : JokerHand hand) :
    (∃ hand', Replaces hand hand' ∧ SplitsIntoFlushes hand') ↔
      (((ordinary hand).map Card.type).dedup.length = 2 ∨
        ((ordinary hand).map Card.type).dedup.length = 3) ∧
        total lacks ((ordinary hand).map Card.type) ≤ (jokersOf hand).length := by
  rw [← makesRows_iff hhand.length_types hhand.jokers hhand.types_subset, ← replaces_types_iff]
  refine exists_congr fun hand' => and_congr_right fun hreplaces => ?_
  exact splitsIntoFlushes_iff (hreplaces.length.trans hhand.length)

end Following

end SdyServer.Daboluo
