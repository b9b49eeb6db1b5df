import SdyServer.Daboluo.DeclaredTypes
import SdyServer.Daboluo.SubmitSound

/-!
# Hands from one deck

Of one deck every value occurs at most four times. How many values occur once, twice, three and four
times gives the size of a hand and the number of its values.
-/

namespace SdyServer.Daboluo

open Blocks

/-- Different ordinary cards. -/
structure OneDeck (cards : List Card) : Prop where
  plain : ∀ c ∈ cards, Plain c
  range : ∀ v ∈ values cards, 1 ≤ v ∧ v ≤ 13
  nodup : cards.Nodup

section Counts

variable {cards : List Card}

theorem OneDeck.of_subperm (hdeck : OneDeck cards) {row : List Card} (hsub : row.Subperm cards) :
    OneDeck row where
  plain c hc := hdeck.plain c (hsub.subset hc)
  range v hv := hdeck.range v (List.map_subset _ hsub.subset hv)
  nodup := by
    obtain ⟨l, hperm, hl⟩ := hsub
    exact hperm.nodup_iff.1 (hdeck.nodup.sublist hl)

theorem OneDeck.suited (hdeck : OneDeck cards) : Suited cards := fun c hc =>
  ⟨(hdeck.plain c hc).1, (hdeck.plain c hc).2.1⟩

/-- The cards of one value have different suits. -/
theorem OneDeck.count_le (hdeck : OneDeck cards) (v : Int) : (values cards).count v ≤ 4 := by
  unfold values
  rw [← length_block]
  have hnodup : ((block Card.value cards v).map Card.type).Nodup := by
    refine (hdeck.nodup.filter _).map_on fun c hc d hd htype => ?_
    obtain ⟨hc, hvalue⟩ := mem_block.1 hc
    obtain ⟨hd, hvalue'⟩ := mem_block.1 hd
    obtain ⟨-, -, hsuit, hold⟩ := hdeck.plain c hc
    obtain ⟨-, -, hsuit', hold'⟩ := hdeck.plain d hd
    obtain ⟨type, value, suit, old⟩ := c
    obtain ⟨type', value', suit', old'⟩ := d
    simp_all
  have hsubset : (block Card.value cards v).map Card.type ⊆ [1, 2, 3, 4] := by
    intro t ht
    obtain ⟨c, hc, rfl⟩ := List.mem_map.1 ht
    have hsuit := hdeck.suited c (mem_block.1 hc).1
    simp only [List.mem_cons, List.not_mem_nil, or_false]
    omega
  have hle := (hnodup.subperm hsubset).length_le
  rwa [List.length_map] at hle

theorem times_eq_length (cards : List Card) (n : Nat) :
    times cards n =
      ((values cards).dedup.filter fun v => min ((values cards).count v) 5 = n).length := by
  unfold times
  rw [(shape_perm (values cards)).countP_eq, List.countP_map, List.countP_eq_length_filter]
  rfl

theorem times_pos {n : Nat} {v : Int} (hn : 0 < n) (hcount : min ((values cards).count v) 5 = n) :
    0 < times cards n := by
  rw [times_eq_length]
  refine List.length_pos_of_mem (a := v) (List.mem_filter.2 ⟨?_, decide_eq_true hcount⟩)
  exact List.mem_dedup.2 (List.count_pos_iff.1 (by omega))

/-- Two values that occur equally often. -/
theorem one_lt_times {n : Nat} {u v : Int} (hn : 0 < n) (hne : u ≠ v)
    (hu : min ((values cards).count u) 5 = n) (hv : min ((values cards).count v) 5 = n) :
    1 < times cards n := by
  rw [times_eq_length]
  have hnodup : [u, v].Nodup := by simp [hne]
  refine (hnodup.subperm ?_).length_le
  intro w hw
  simp only [List.mem_cons, List.not_mem_nil, or_false] at hw
  rcases hw with rfl | rfl
  · exact List.mem_filter.2 ⟨List.mem_dedup.2 (List.count_pos_iff.1 (by omega)), decide_eq_true hu⟩
  · exact List.mem_filter.2 ⟨List.mem_dedup.2 (List.count_pos_iff.1 (by omega)), decide_eq_true hv⟩

theorem sum_countP {ns : List Nat} (hsmall : ∀ k ∈ ns, 0 < k ∧ k ≤ 4) :
    ns.countP (fun k => min k 5 = 1) + 2 * ns.countP (fun k => min k 5 = 2) +
        3 * ns.countP (fun k => min k 5 = 3) + 4 * ns.countP (fun k => min k 5 = 4) = ns.sum ∧
      ns.countP (fun k => min k 5 = 1) + ns.countP (fun k => min k 5 = 2) +
        ns.countP (fun k => min k 5 = 3) + ns.countP (fun k => min k 5 = 4) = ns.length := by
  induction ns with
  | nil => exact ⟨rfl, rfl⟩
  | cons k ns ih =>
      rw [List.forall_mem_cons] at hsmall
      obtain ⟨hsum, hlength⟩ := ih hsmall.2
      have hk : k = 1 ∨ k = 2 ∨ k = 3 ∨ k = 4 := by omega
      simp only [List.countP_cons, List.sum_cons, List.length_cons]
      rcases hk with rfl | rfl | rfl | rfl
      · simp
        omega
      · simp
        omega
      · simp
        omega
      · simp
        omega

/-- How the values of a hand occur. -/
structure Counted (cards : List Card) : Prop where
  fives : times cards 5 = 0
  size : times cards 1 + 2 * times cards 2 + 3 * times cards 3 + 4 * times cards 4 = cards.length
  kinds : times cards 1 + times cards 2 + times cards 3 + times cards 4 =
    (values cards).dedup.length

theorem OneDeck.counted (hdeck : OneDeck cards) : Counted cards := by
  have hmem : ∀ k ∈ shape (values cards), 0 < k ∧ k ≤ 4 := by
    intro k hk
    refine ⟨shape_pos hk, ?_⟩
    obtain ⟨v, -, rfl⟩ := List.mem_map.1 hk
    exact hdeck.count_le v
  obtain ⟨hsum, hlength⟩ := sum_countP hmem
  have hsize : (shape (values cards)).sum = cards.length := by
    rw [← (length_blocks_pile cards).sum_eq, sum_length_blocks, (pile_perm cards).length_eq]
  refine ⟨?_, hsum.trans hsize, hlength.trans ?_⟩
  · unfold times
    rw [List.countP_eq_zero]
    intro k hk
    have := hmem k hk
    simp
    omega
  · rw [(shape_perm (values cards)).length_eq, List.length_map]

/-- Values of a deck that lie in a list without repetitions. -/
theorem length_dedup_le {vs : List Int} (hsubset : values cards ⊆ vs) :
    (values cards).dedup.length ≤ vs.length :=
  (List.Nodup.subperm (List.nodup_dedup _) fun _ hv => hsubset (List.mem_dedup.1 hv)).length_le

/-- The values from the two to the ace. -/
def deckValues : List Int := [1, 2, 3, 4, 5, 6, 7, 8, 9, 10, 11, 12, 13]

theorem mem_deckValues {v : Int} (hv : 1 ≤ v ∧ v ≤ 13) : v ∈ deckValues := by
  simp only [deckValues, List.mem_cons, List.not_mem_nil, or_false]
  omega

theorem exists_missing {vs ws : List Int} (hnot : ¬vs ⊆ ws) : ∃ v ∈ vs, v ∉ ws := by
  by_contra hall
  push Not at hall
  exact hnot hall

/-- Twelve of the thirteen values have a straight. -/
theorem OneDeck.exists_falls (hdeck : OneDeck cards) (hmany : 12 ≤ (values cards).dedup.length) :
    ∃ vs, Falls vs ∧ vs ⊆ values cards := by
  by_contra hnone
  push Not at hnone
  obtain ⟨u, hu, hmissing⟩ := exists_missing (hnone [5, 4, 3, 2, 1] (.inr ⟨1, rfl⟩))
  obtain ⟨v, hv, hmissing'⟩ := exists_missing (hnone [10, 9, 8, 7, 6] (.inr ⟨6, rfl⟩))
  have hsubset : values cards ⊆ (deckValues.erase u).erase v := by
    intro w hw
    have hwu : w ≠ u := fun heq => hmissing (heq ▸ hw)
    have hwv : w ≠ v := fun heq => hmissing' (heq ▸ hw)
    exact (List.mem_erase_of_ne hwv).2
      ((List.mem_erase_of_ne hwu).2 (mem_deckValues (hdeck.range w hw)))
  have hle := length_dedup_le hsubset
  simp only [List.mem_cons, List.not_mem_nil, or_false] at hu hv
  have huv : u ≠ v := by omega
  rw [List.length_erase_of_mem ((List.mem_erase_of_ne huv.symm).2 (mem_deckValues (by omega))),
    List.length_erase_of_mem (mem_deckValues (by omega))] at hle
  simp only [deckValues, List.length_cons, List.length_nil] at hle
  omega

/-- The suits share out the cards. -/
theorem length_suitOf (hsuited : Suited cards) :
    (suitOf cards 1).length + (suitOf cards 2).length + (suitOf cards 3).length +
    (suitOf cards 4).length =
      cards.length := by
  have hlength : ∀ i, (suitOf cards i).length = cards.countP fun c => c.type = i := by
    intro i
    unfold suitOf
    rw [← List.countP_eq_length_filter, (Lua.tableSort_perm sortRise cards).countP_eq]
  simp only [hlength]
  clear hlength
  induction cards with
  | nil => rfl
  | cons c rest ih =>
      have hrest := ih fun d hd => hsuited d (List.mem_cons_of_mem _ hd)
      have hc := hsuited c (List.mem_cons_self ..)
      have hsuit : c.type = 1 ∨ c.type = 2 ∨ c.type = 3 ∨ c.type = 4 := by omega
      simp only [List.countP_cons, List.length_cons]
      rcases hsuit with h | h | h | h
      · simp [h]
        omega
      · simp [h]
        omega
      · simp [h]
        omega
      · simp [h]
        omega

end Counts

end SdyServer.Daboluo
