import SdyServer.Daboluo.Variety

/-!
# Sets of equal values with jokers

Jokers come in as values of a deck. Which of the patterns of equal values they can make is told by
how often the values without them occur.
-/

namespace SdyServer.Daboluo

open Weights

/-- Some `k` values that come in make the values follow the pattern `P`. -/
def Makes (k : Nat) (vs : List Int) (P : List Int → Prop) : Prop :=
  ∃ ws : List Int, ws.length = k ∧ ws ⊆ deckValues ∧ P (ws ++ vs)

/-- The pairs that a value has when it occurs `n` times. -/
def pairsIn (n : Nat) : Nat := if n = 2 ∨ n = 3 then 1 else if n = 4 ∨ n = 5 then 2 else 0

/-- A joker for a value of the hand, then one for a value of what that makes. -/
theorem makes_two {vs : List Int} {P : List Int → Prop} (hvs : vs ⊆ deckValues) {u v : Int}
    (hu : u ∈ vs) (hv : v ∈ u :: vs) (hmade : P (v :: u :: vs)) : Makes 2 vs P := by
  have hv' : v ∈ vs := by
    rcases List.mem_cons.1 hv with rfl | hv
    · exact hu
    · exact hv
  have hdeck : [v, u] ⊆ deckValues :=
    List.cons_subset.2 ⟨hvs hv', List.cons_subset.2 ⟨hvs hu, List.nil_subset _⟩⟩
  exact ⟨[v, u], rfl, hdeck, hmade⟩

section Trips

variable {k : Nat} {vs l : List Int} {u v : Int}

theorem trips_le (l : List Int) :
    3 * total threeToFive l + 2 * total twice l + total once l ≤ l.length := by
  rw [← total_mul, ← total_mul, ← total_add, ← total_add, ← total_self l]
  refine total_mono fun n => ?_
  unfold threeToFive twice once
  split_ifs <;> omega

/-- A value that comes in makes one set of three more only of a pair. -/
theorem trips_cons (v : Int) (l : List Int) :
    (0 < total twice l ∧ total threeToFive (v :: l) = total threeToFive l + 1 ∧
      total twice (v :: l) + 1 = total twice l) ∨ total threeToFive (v :: l) ≤
        total threeToFive l := by
  have htrips := total_cons (w := threeToFive) rfl v l
  have htwice := total_cons (w := twice) rfl v l
  by_cases hv : l.count v = 2
  · rw [hv] at htrips htwice
    have hpair : total threeToFive (v :: l) = total threeToFive l + 1 := htrips
    have hleft : total twice (v :: l) + 1 = total twice l := htwice
    exact .inl ⟨by omega, hpair, hleft⟩
  · have hle : threeToFive (l.count v + 1) ≤ threeToFive (l.count v) := by
      unfold threeToFive
      split_ifs <;> omega
    exact .inr (by omega)

/-- No set of three gets lost but one of five. -/
theorem le_trips_cons (hv : l.count v ≠ 5) : total threeToFive l ≤ total threeToFive (v :: l) := by
  have htrips := total_cons (w := threeToFive) rfl v l
  have hle : threeToFive (l.count v) ≤ threeToFive (l.count v + 1) := by
    unfold threeToFive
    split_ifs <;> omega
  omega

theorem trips_cons_of_two (hv : l.count v = 2) :
    total threeToFive (v :: l) = total threeToFive l + 1 := by
  have htrips := total_cons (w := threeToFive) rfl v l
  rw [hv] at htrips
  exact htrips

/-- Two jokers make one more set of three of a single card, and of a pair. -/
theorem trips_cons_twice (hv : l.count v = 1 ∨ l.count v = 2) :
    total threeToFive (v :: v :: l) = total threeToFive l + 1 := by
  have hfirst := total_cons (w := threeToFive) rfl v l
  have hsecond := total_cons (w := threeToFive) rfl v (v :: l)
  have hboth : threeToFive (l.count v + 1 + 1) = threeToFive (l.count v) + 1 := by
    rcases hv with h | h
    · rw [h]
      decide
    · rw [h]
      decide
  rw [List.count_cons_self] at hsecond
  omega

theorem exists_of_twice (hpos : 0 < total twice l) : ∃ v ∈ l, l.count v = 2 := by
  obtain ⟨v, hv, hweight⟩ := exists_of_total_pos hpos
  refine ⟨v, hv, ?_⟩
  by_contra hne
  rw [twice, if_neg hne] at hweight
  cases hweight

theorem three_mul_threeToFive_le (n : Nat) : 3 * threeToFive n ≤ n := by
  unfold threeToFive
  split_ifs <;> omega

/-- Thirteen cards with four sets of three have no value five times. -/
theorem count_le_four (hlength : l.length = 13) (htrips : 4 ≤ total threeToFive l) (v : Int) :
    l.count v ≤ 4 := by
  by_contra hmany
  have hle :=
    total_add_le_length three_mul_threeToFive_le (List.count_pos_iff.1 (by omega : 0 < l.count v))
  have hspare : 2 ≤ l.count v - 3 * threeToFive (l.count v) := by
    unfold threeToFive
    split_ifs <;> omega
  rw [total_mul] at hle
  omega

theorem asksTrips_iff (hk : k = 1 ∨ k = 2) :
    AsksTrips k vs ↔ 4 ≤ total threeToFive vs ∨
      (total threeToFive vs = 3 ∧ (k = 2 ∨ total twice vs = 1)) ∨
        (total threeToFive vs = 2 ∧ k = 2 ∧ total twice vs = 2) := by
  unfold AsksTrips jokerStst
  split_ifs with hfew h2 h3
  · rw [decide_eq_true_eq]
    omega
  · simp only [Bool.decide_or, Bool.decide_and, Bool.or_eq_true, Bool.and_eq_true,
      decide_eq_true_eq]
    omega
  · simp only [false_iff]
    omega
  · simp only [true_iff]
    omega

/-- Four sets of three that can be made are asked for. -/
theorem asksTrips_of_makes (hlength : k + vs.length = 13) (hk : k = 1 ∨ k = 2)
    (hmakes : Makes k vs fun l => 4 ≤ total threeToFive l) : AsksTrips k vs := by
  obtain ⟨ws, hws, -, htrips⟩ := hmakes
  have hle := trips_le vs
  rw [asksTrips_iff hk]
  rcases hk with rfl | rfl
  · obtain ⟨v, rfl⟩ := List.length_eq_one_iff.1 hws
    rw [List.cons_append, List.nil_append] at htrips
    have hv := trips_cons v vs
    omega
  · obtain ⟨u, v, rfl⟩ := List.length_eq_two.1 hws
    simp only [List.cons_append, List.nil_append] at htrips
    have hu := trips_cons u (v :: vs)
    have hv := trips_cons v vs
    omega

/-- Eleven cards with three sets of three and no pair have a single card, unless a value occurs four
or five times. -/
theorem exists_single (hlength : vs.length = 11) (hfour : ∀ v, vs.count v ≠ 4)
    (hfive : ∀ v, vs.count v ≠ 5)
    (htrips : total threeToFive vs = 3) (hpairs : total twice vs = 0) :
    ∃ v ∈ vs, vs.count v = 1 := by
  by_contra hnone
  push Not at hnone
  have hmany : ∀ v ∈ vs, vs.count v ≤ 5 := by
    intro v hv
    by_contra hsix
    have hle := total_add_le_length three_mul_threeToFive_le hv
    rw [total_mul, threeToFive, if_neg (by omega)] at hle
    omega
  have hthree : total (fun n => n) vs ≤ total (fun n => 3 * threeToFive n) vs := by
    refine total_mono_of_mem fun v hv => ?_
    have hpos := List.count_pos_iff.2 hv
    have h1 := hnone v hv
    have h2 : vs.count v ≠ 2 := fun htwo => by
      have hweight : twice (vs.count v) ≤ total twice vs := le_total hv
      rw [htwo, hpairs] at hweight
      exact absurd hweight (by decide)
    have h4 := hfour v
    have h5 := hfive v
    have hle := hmany v hv
    have hcount : vs.count v = 3 := by omega
    rw [hcount]
    decide
  rw [total_self, total_mul] at hthree
  omega

/-- Without a value that all jokers make six of, four sets of three that are asked for can be made
unless a value occurs five times. -/
theorem makes_trips_iff (hlength : k + vs.length = 13) (hk : k = 1 ∨ k = 2)
    (hsix : ∀ v, vs.count v = 4 ∨ vs.count v = 5 → vs.count v + k ≠ 6) (hvs : vs ⊆ deckValues)
    (hasks : AsksTrips k vs) :
    Makes k vs (fun l => 4 ≤ total threeToFive l) ↔ ∀ v, vs.count v ≠ 5 := by
  constructor
  · rintro ⟨ws, hws, -, htrips⟩ v hfive
    have hle := count_le_four (by rw [List.length_append]; omega) htrips v
    rw [List.count_append] at hle
    omega
  · intro hfive
    have hle := trips_le vs
    rw [asksTrips_iff hk] at hasks
    rcases hk with rfl | rfl
    · by_cases hfour : 4 ≤ total threeToFive vs
      · exact ⟨[1], rfl, by decide, hfour.trans (le_trips_cons (hfive 1))⟩
      · obtain ⟨v, hv, htwo⟩ := exists_of_twice (l := vs) (by omega)
        have hmore := trips_cons_of_two htwo
        exact ⟨[v], rfl,
          List.cons_subset.2 ⟨hvs hv, List.nil_subset _⟩, by rw [List.singleton_append]; omega⟩
    · have hagain : ∀ v ∈ vs, vs.count v = 1 ∨ vs.count v = 2 → 3 ≤ total threeToFive vs →
          Makes 2 vs fun l => 4 ≤ total threeToFive l := by
        intro v hv hcount htrips
        refine ⟨[v, v], rfl, by simp [hvs hv], ?_⟩
        have hmore := trips_cons_twice hcount
        simp only [List.cons_append, List.nil_append]
        omega
      have hfour : ∀ v, vs.count v ≠ 4 := fun v h => hsix v (.inl h) (by omega)
      by_cases hthree : total threeToFive vs = 3
      · by_cases hpair : 0 < total twice vs
        · obtain ⟨v, hv, htwo⟩ := exists_of_twice hpair
          exact hagain v hv (.inr htwo) hthree.ge
        · obtain ⟨v, hv, hone⟩ := exists_single (by omega) hfour hfive hthree (by omega)
          exact hagain v hv (.inl hone) hthree.ge
      -- two pairs, one joker for each
      · obtain ⟨u, hu, htwo⟩ := exists_of_twice (l := vs) (by omega)
        have hmore := trips_cons_of_two htwo
        have hpairs := total_cons (w := twice) rfl u vs
        rw [htwo] at hpairs
        have hleft : total twice (u :: vs) + 1 = total twice vs := hpairs
        obtain ⟨v, hv, htwo'⟩ := exists_of_twice (l := u :: vs) (by omega)
        have hmore' := trips_cons_of_two htwo'
        exact makes_two hvs hu hv (by omega)

end Trips

section Pairs

variable {k : Nat} {vs l : List Int} {u v : Int}

/-- An odd number of cards that one more makes a pair of. -/
def single (n : Nat) : Nat := if n = 1 ∨ n = 3 then 1 else 0

theorem two_mul_pairsIn_le (n : Nat) : 2 * pairsIn n ≤ n := by
  unfold pairsIn
  split_ifs <;> omega

/-- One more pair for a value that makes one, and one such value less. -/
theorem pairs_cons (hv : l.count v = 1 ∨ l.count v = 3) :
    total pairsIn (v :: l) = total pairsIn l + 1 ∧ total single (v :: l) + 1 = total single l := by
  have hpairs := total_cons (w := pairsIn) rfl v l
  have hsingle := total_cons (w := single) rfl v l
  rcases hv with h | h
  · rw [h] at hpairs hsingle
    have hmore : total pairsIn (v :: l) = total pairsIn l + 1 := hpairs
    have hless : total single (v :: l) + 1 = total single l := hsingle
    exact ⟨hmore, hless⟩
  · rw [h] at hpairs hsingle
    have hmore : total pairsIn (v :: l) + 1 = total pairsIn l + 2 := hpairs
    have hless : total single (v :: l) + 1 = total single l := hsingle
    exact ⟨by omega, hless⟩

theorem le_pairs_cons (hv : l.count v ≠ 5) : total pairsIn l ≤ total pairsIn (v :: l) := by
  have hpairs := total_cons (w := pairsIn) rfl v l
  have hle : pairsIn (l.count v) ≤ pairsIn (l.count v + 1) := by
    unfold pairsIn
    split_ifs <;> omega
  omega

/-- Two jokers make a pair with each other. -/
theorem pairs_cons_twice (hv : l.count v ≤ 3) :
    total pairsIn (v :: v :: l) = total pairsIn l + 1 := by
  have hfirst := total_cons (w := pairsIn) rfl v l
  have hsecond := total_cons (w := pairsIn) rfl v (v :: l)
  have hboth : pairsIn (l.count v + 1 + 1) = pairsIn (l.count v) + 1 :=
    (by decide : ∀ n ≤ 3, pairsIn (n + 1 + 1) = pairsIn n + 1) _ hv
  rw [List.count_cons_self] at hsecond
  omega

theorem exists_of_single (hpos : 0 < total single l) : ∃ v ∈ l, l.count v = 1 ∨ l.count v = 3 := by
  obtain ⟨v, hv, hweight⟩ := exists_of_total_pos hpos
  refine ⟨v, hv, ?_⟩
  by_contra hne
  rw [single, if_neg hne] at hweight
  cases hweight

theorem odd_cons_le (v : Int) (l : List Int) : total odd l ≤ total odd (v :: l) + 1 := by
  have hodd := total_cons (w := odd) rfl v l
  unfold odd at hodd ⊢
  omega

/-- Where no value occurs more than five times, the pairs and the odd cards are all there is. -/
theorem pairs_add_odd (hmany : ∀ v, l.count v ≤ 5) :
    2 * total pairsIn l + total odd l = l.length := by
  have hall : total (fun n => 2 * pairsIn n + odd n) l = total (fun n => n) l :=
    Finset.sum_congr rfl fun v _ =>
      (by decide : ∀ n ≤ 5, 2 * pairsIn n + odd n = n) _ (hmany v)
  rw [total_add, total_mul, total_self] at hall
  exact hall

/-- Thirteen cards with six pairs have at most one odd card, and no value six times. -/
theorem odd_le_one (hlength : l.length = 13) (hpairs : 6 ≤ total pairsIn l) :
    (∀ v, l.count v ≤ 5) ∧ total odd l ≤ 1 := by
  have hmany : ∀ v, l.count v ≤ 5 := by
    intro v
    by_contra hsix
    have hle :=
      total_add_le_length two_mul_pairsIn_le (List.count_pos_iff.1 (by omega : 0 < l.count v))
    have hspare : pairsIn (l.count v) = 0 := by
      unfold pairsIn
      split_ifs <;> omega
    rw [total_mul, hspare] at hle
    omega
  have hall := pairs_add_odd hmany
  exact ⟨hmany, by omega⟩

/-- Six pairs that can be made are asked for. -/
theorem odd_of_makes (hlength : k + vs.length = 13) (hk : k = 1 ∨ k = 2)
    (hmakes : Makes k vs fun l => 6 ≤ total pairsIn l) :
    (∀ v, vs.count v ≤ 5) ∧ (∀ u v, vs.count u = 5 → vs.count v = 5 → u = v) ∧
    total odd vs ≤ k + 1 := by
  obtain ⟨ws, hws, -, hpairs⟩ := hmakes
  obtain ⟨hmany, hodd⟩ := odd_le_one (by rw [List.length_append]; omega) hpairs
  have hcount : ∀ v, (ws ++ vs).count v = ws.count v + vs.count v := fun v => List.count_append
  refine ⟨fun v => ?_, fun u v hu hv => ?_, ?_⟩
  · have hle := hmany v
    have hv := hcount v
    omega
  · by_contra hne
    have hu' : (ws ++ vs).count u = 5 := by
      have hle := hmany u
      have hu := hcount u
      omega
    have hv' : (ws ++ vs).count v = 5 := by
      have hle := hmany v
      have hv := hcount v
      omega
    have htwo : odd ((ws ++ vs).count u) + odd ((ws ++ vs).count v) ≤ total odd (ws ++ vs) :=
      add_le_total hne (List.count_pos_iff.1 (by omega)) (List.count_pos_iff.1 (by omega))
    rw [hu', hv'] at htwo
    have hsum : odd 5 + odd 5 = 2 := rfl
    omega
  · rcases hk with rfl | rfl
    · obtain ⟨v, rfl⟩ := List.length_eq_one_iff.1 hws
      rw [List.cons_append, List.nil_append] at hodd
      have hv := odd_cons_le v vs
      omega
    · obtain ⟨u, v, rfl⟩ := List.length_eq_two.1 hws
      simp only [List.cons_append, List.nil_append] at hodd
      have hu := odd_cons_le u (v :: vs)
      have hv := odd_cons_le v vs
      omega

theorem asksPairs_of_odd (hodd : total odd vs ≤ k + 1) : AsksPairs k vs := by
  have hle : total once vs ≤ total odd vs := by
    refine total_mono fun n => ?_
    unfold once odd
    split_ifs <;> omega
  exact hle.trans hodd

/-- Values that occur an odd number of times, except for those that occur five times. -/
theorem odd_le_single (hmany : ∀ v, l.count v ≤ 5)
    (hfive : ∀ u v, l.count u = 5 → l.count v = 5 → u = v) :
    total odd l ≤ total single l + 1 := by
  have hone : total (fun n => if n = 5 then 1 else 0) l ≤ 1 := by
    refine total_le_one (fun n => by split_ifs <;> omega) fun u _ v _ hu hv => ?_
    split_ifs at hu hv with hu' hv'
    · exact hfive u v hu' hv'
    · cases hv
    · cases hu
    · cases hu
  have hle : total odd l ≤ total (fun n => single n + if n = 5 then 1 else 0) l :=
    total_mono_of_mem fun v _ =>
      (by decide : ∀ n ≤ 5, odd n ≤ single n + if n = 5 then 1 else 0) _ (hmany v)
  rw [total_add] at hle
  omega

theorem odd_eq_single (hmany : ∀ v, l.count v ≤ 5) (hfive : ∀ v, l.count v ≠ 5) :
    total odd l = total single l :=
  Finset.sum_congr rfl fun v _ =>
    (by decide : ∀ n ≤ 5, n ≠ 5 → odd n = single n) _ (hmany v) (hfive v)

/-- The six pairs that can be made without a value that all jokers make six of. -/
theorem makes_pairs_iff (hlength : k + vs.length = 13) (hk : k = 1 ∨ k = 2)
    (hsix : ∀ v, vs.count v = 4 ∨ vs.count v = 5 → vs.count v + k ≠ 6) (hvs : vs ⊆ deckValues) :
    Makes k vs (fun l => 6 ≤ total pairsIn l) ↔ (∀ v, vs.count v ≤ 5) ∧
      (∀ u v, vs.count u = 5 → vs.count v = 5 → u = v) ∧ total odd vs ≤ k + 1 := by
  refine ⟨odd_of_makes hlength hk, ?_⟩
  rintro ⟨hmany, hfive, hodd⟩
  have hall := pairs_add_odd hmany
  rcases hk with rfl | rfl
  · have hnofive : ∀ v, vs.count v ≠ 5 := fun v h => hsix v (.inr h) (by omega)
    by_cases hfull : 6 ≤ total pairsIn vs
    · exact ⟨[1], rfl, by decide, hfull.trans (le_pairs_cons (hnofive 1))⟩
    · have hsingle := odd_eq_single hmany hnofive
      obtain ⟨v, hv, hcount⟩ := exists_of_single (l := vs) (by omega)
      have hmore := (pairs_cons hcount).1
      exact ⟨[v], rfl,
        List.cons_subset.2 ⟨hvs hv, List.nil_subset _⟩, by rw [List.singleton_append]; omega⟩
  · have hnofour : ∀ v, vs.count v ≠ 4 := fun v h => hsix v (.inl h) (by omega)
    by_cases hfull : 5 ≤ total pairsIn vs
    · obtain ⟨v, hv, hfew⟩ : ∃ v ∈ deckValues, vs.count v ≤ 3 := by
        by_cases h1 : vs.count 1 = 5
        · have hne : vs.count 2 ≠ 5 := fun h2 => absurd (hfive 1 2 h1 h2) (by decide)
          have hle := hmany 2
          have hfour := hnofour 2
          exact ⟨2, by decide, by omega⟩
        · have hle := hmany 1
          have hfour := hnofour 1
          exact ⟨1, by decide, by omega⟩
      have hmore := pairs_cons_twice hfew
      refine ⟨[v, v], rfl, by simp [hv], ?_⟩
      simp only [List.cons_append, List.nil_append]
      omega
    -- two odd values that do not occur five times, one joker for each
    · have hsingle := odd_le_single hmany hfive
      obtain ⟨u, hu, hcount⟩ := exists_of_single (l := vs) (by omega)
      obtain ⟨hmore, hless⟩ := pairs_cons hcount
      obtain ⟨v, hv, hcount'⟩ := exists_of_single (l := u :: vs) (by omega)
      have hmore' := (pairs_cons hcount').1
      exact makes_two hvs hu hv (by omega)

end Pairs

section Sixes

variable {k : Nat} {vs : List Int}

/-- Six of a kind are made of a value to which jokers come in, up to six. -/
theorem makes_six_iff (hk : k = 1 ∨ k = 2) (hvs : vs ⊆ deckValues) :
    Makes k vs (fun l => ∃ v, l.count v = 6) ↔ ∃ v, vs.count v ≤ 6 ∧ 6 ≤ vs.count v + k := by
  constructor
  · rintro ⟨ws, rfl, -, v, hsix⟩
    rw [List.count_append] at hsix
    have hle := List.count_le_length (a := v) (l := ws)
    exact ⟨v, by omega, by omega⟩
  · rintro ⟨v, hle, hsix⟩
    have hv : v ∈ deckValues := hvs (List.count_pos_iff.1 (by omega))
    obtain ⟨u, hu, hne⟩ : ∃ u ∈ deckValues, u ≠ v := by
      by_cases h1 : v = 1
      · exact ⟨2, by decide, by omega⟩
      · exact ⟨1, by decide, Ne.symm h1⟩
    refine ⟨List.replicate (6 - vs.count v) v ++ List.replicate (k - (6 - vs.count v)) u,
      ?_, ?_, v, ?_⟩
    · simp
      omega
    · refine List.append_subset.2 ⟨fun x hx => ?_, fun x hx => ?_⟩
      · rwa [(List.mem_replicate.1 hx).2]
      · rwa [(List.mem_replicate.1 hx).2]
    · rw [List.count_append, List.count_append, List.count_replicate_self, List.count_replicate,
        if_neg (by simpa using hne)]
      omega

/-- The jokers are what is missing. -/
theorem makes_of_subperm {l : List Int} (hlength : k + vs.length = l.length) (hl : l ⊆ deckValues)
    (hsub : vs.Subperm l) : Makes k vs fun l' => l'.Perm l := by
  obtain ⟨vs', hperm, hsublist⟩ := hsub
  obtain ⟨ws, hws⟩ := hsublist.exists_perm_append
  have hall : (ws ++ vs).Perm l :=
    List.perm_append_comm.trans ((hperm.symm.append_right ws).trans hws.symm)
  refine ⟨ws, ?_, fun w hw => hl (hall.subset (List.mem_append_left _ hw)), hall⟩
  have hsize := hall.length_eq
  rw [List.length_append] at hsize
  omega

/-- All values of a deck are made of values that differ. -/
theorem makes_dragon_iff (hlength : k + vs.length = 13) (hvs : vs ⊆ deckValues) :
    Makes k vs (fun l => l.Perm deckValues) ↔ vs.Nodup := by
  constructor
  · rintro ⟨ws, -, -, hperm⟩
    have hnodup : (ws ++ vs).Nodup := hperm.nodup_iff.2 (by decide)
    exact hnodup.of_append_right
  · exact fun hnodup => makes_of_subperm hlength (List.Subset.refl _) (hnodup.subperm hvs)

theorem Falls.length {a : List Int} (hfalls : Falls a) : a.length = 5 := by
  rcases hfalls with rfl | ⟨w, rfl⟩
  · rfl
  · rfl

theorem FallsThree.length {a : List Int} (hfalls : FallsThree a) : a.length = 3 := by
  rcases hfalls with rfl | ⟨w, rfl⟩
  · rfl
  · rfl

/-- The values of three straights are made of some of them. -/
theorem makes_straights_iff (hlength : k + vs.length = 13) (hvs : vs ⊆ deckValues) :
    Makes k vs (fun l => ∃ a b c, Falls a ∧ Falls b ∧ FallsThree c ∧ (a ++ b ++ c).Perm l) ↔
      AmongStraights vs := by
  constructor
  · rintro ⟨ws, -, hws, a, b, c, ha, hb, hc, hperm⟩
    refine ⟨a, b, c, ha, hb, hc, fun v hv => ?_, ?_⟩
    · rcases List.mem_append.1 (hperm.subset hv) with hv | hv
      · exact hws hv
      · exact hvs hv
    · exact (List.sublist_append_right ws vs).subperm.trans hperm.symm.subperm
  · rintro ⟨a, b, c, ha, hb, hc, hdeck, hsub⟩
    have hsize : (a ++ b ++ c).length = 13 := by
      rw [List.length_append, List.length_append, ha.length, hb.length, hc.length]
    obtain ⟨ws, hws, hwsdeck, hperm⟩ := makes_of_subperm (hlength.trans hsize.symm) hdeck hsub
    exact ⟨ws, hws, hwsdeck, a, b, c, ha, hb, hc, hperm.symm⟩

end Sixes

end SdyServer.Daboluo
