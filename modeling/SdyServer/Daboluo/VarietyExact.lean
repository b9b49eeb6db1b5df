import SdyServer.Daboluo.JokerHands
import SdyServer.Daboluo.JokerSearch

/-!
# Which hands with jokers are told right

`checkSpecialVariety` returns the first pattern whose test is passed. Some tests ask for less than
the jokers can make, and some for more, so the type of a hand is told right on a condition.
-/

namespace SdyServer.Daboluo

open Blocks Weights

section Counting

variable {ns : List Nat} {k : Nat} {s : JokerCounts}

theorem foldl_joker_sets (s : JokerCounts) :
    (ns.foldl JokerCounts.visit s).sanNum = s.sanNum + (ns.map threeToFive).sum ∧
      (ns.foldl JokerCounts.visit s).realDuiNum = s.realDuiNum + (ns.map twice).sum ∧
        (ns.foldl JokerCounts.visit s).danNum = s.danNum + (ns.map once).sum := by
  induction ns generalizing s with
  | nil => simp
  | cons n ns ih =>
      obtain ⟨hsan, hdui, hdan⟩ := ih (s.visit n)
      have hvisit : (s.visit n).sanNum = s.sanNum + threeToFive n ∧
          (s.visit n).realDuiNum = s.realDuiNum + twice n ∧ (s.visit n).danNum =
              s.danNum + once n := by
        unfold JokerCounts.visit threeToFive twice once
        grind
      rw [List.foldl_cons, hsan, hdui, hdan, hvisit.1, hvisit.2.1, hvisit.2.2]
      simp only [List.map_cons, List.sum_cons, Nat.add_assoc]
      exact ⟨trivial, trivial, trivial⟩

theorem foldl_joker_ssz (s : JokerCounts) :
    (ns.foldl JokerCounts.visit s).ssz = true ↔ s.ssz = true ∧ ∀ n ∈ ns, n ≤ 3 := by
  induction ns generalizing s with
  | nil => simp
  | cons n ns ih =>
      have hvisit : (s.visit n).ssz = if n > 3 then false else s.ssz := by
        unfold JokerCounts.visit
        grind
      rw [List.foldl_cons, ih, List.forall_mem_cons, ← and_assoc, hvisit]
      refine and_congr_left' ?_
      split_ifs with hmany
      · simp
        omega
      · simp
        omega

/-- The jokers are used for one value, all of them or none. -/
structure SixState (k : Nat) (s : JokerCounts) : Prop where
  once : s.suangLiutong = false
  jokers : s.useSpNum = if s.liutong then 0 else k

/-- All jokers make six of a value of `n` cards. -/
def Completed (k n : Nat) : Prop := (n = 4 ∨ n = 5) ∧ n + k = 6

theorem SixState.visit (hs : SixState k s) (n : Nat) :
    SixState k (s.visit n) ∧ ((s.visit n).liutong = true ↔ s.liutong = true ∨ Completed k n) := by
  obtain ⟨honce, hjokers⟩ := hs
  unfold Completed
  refine ⟨⟨?_, ?_⟩, ?_⟩
  · unfold JokerCounts.visit
    grind
  · unfold JokerCounts.visit
    grind
  · unfold JokerCounts.visit
    grind

theorem SixState.foldl (hs : SixState k s) :
    SixState k (ns.foldl JokerCounts.visit s) ∧
      ((ns.foldl JokerCounts.visit s).liutong = true ↔ s.liutong = true ∨
        ∃ n ∈ ns, Completed k n) := by
  induction ns generalizing s with
  | nil => exact ⟨hs, by simp⟩
  | cons n ns ih =>
      obtain ⟨hvisit, hliutong⟩ := hs.visit n
      obtain ⟨hfold, hliutong'⟩ := ih hvisit
      refine ⟨hfold, hliutong'.trans ?_⟩
      rw [hliutong, or_assoc, List.exists_mem_cons_iff]

end Counting

section Sorted

variable {pairs : List (List Card) → List (List Card)} {hand cards os : List Card} {k : Nat}

/-- The counts of the ordinary cards, in the order in which their values are visited. -/
def jokerCounts (pairs : List (List Card) → List (List Card)) (os : List Card) (k : Nat) :
    JokerCounts :=
  ((pairs (blocks Card.value os)).map List.length).foldl JokerCounts.visit { useSpNum := k }

theorem visited_perm (hpairs : ∀ l, (pairs l).Perm l) (os : List Card) :
    ((pairs (blocks Card.value os)).map List.length).Perm
      ((values os).dedup.map fun v => (values os).count v) :=
  ((hpairs _).map _).trans (length_blocks_perm Card.value os)

theorem jokerCounts_sets (hpairs : ∀ l, (pairs l).Perm l) (os : List Card) (k : Nat) :
    (jokerCounts pairs os k).sanNum = total threeToFive (values os) ∧
      (jokerCounts pairs os k).realDuiNum = total twice (values os) ∧
        (jokerCounts pairs os k).danNum = total once (values os) := by
  obtain ⟨hsan, hdui, hdan⟩ :=
    @foldl_joker_sets ((pairs (blocks Card.value os)).map List.length) { useSpNum := k }
  have hsum : ∀ w : Nat → Nat,
      (((pairs (blocks Card.value os)).map List.length).map w).sum = total w (values os) := by
    intro w
    rw [total_eq_sum (List.Perm.refl _), ((visited_perm hpairs os).map w).sum_eq, List.map_map]
    rfl
  unfold jokerCounts
  rw [hsan, hdui, hdan, hsum, hsum, hsum]
  exact ⟨Nat.zero_add _, Nat.zero_add _, Nat.zero_add _⟩

theorem jokerCounts_ssz (hpairs : ∀ l, (pairs l).Perm l) (os : List Card) (k : Nat) :
    (jokerCounts pairs os k).ssz = true ↔ ∀ v ∈ values os, (values os).count v ≤ 3 := by
  unfold jokerCounts
  rw [foldl_joker_ssz]
  simp only [(visited_perm hpairs os).mem_iff, List.mem_map, List.mem_dedup, true_and]
  constructor
  · intro h v hv
    exact h _ ⟨v, hv, rfl⟩
  · rintro h n ⟨v, hv, rfl⟩
    exact h v hv

theorem jokerCounts_six (hpairs : ∀ l, (pairs l).Perm l) (os : List Card) (k : Nat) :
    (jokerCounts pairs os k).suangLiutong = false ∧
      ((jokerCounts pairs os k).liutong = true ↔ ∃ v, Completed k ((values os).count v)) := by
  obtain ⟨hstate, hliutong⟩ := @SixState.foldl ((pairs (blocks Card.value os)).map List.length) k
    { useSpNum := k } ⟨rfl, rfl⟩
  refine ⟨hstate.once, hliutong.trans ?_⟩
  simp only [(visited_perm hpairs os).mem_iff, List.mem_map, List.mem_dedup,
    Bool.false_eq_true, false_or]
  constructor
  · rintro ⟨n, ⟨v, -, rfl⟩, hn⟩
    exact ⟨v, hn⟩
  · rintro ⟨v, hv⟩
    have hmem : v ∈ values os := List.count_pos_iff.1 (by unfold Completed at hv; omega)
    exact ⟨_, ⟨v, hmem, rfl⟩, hv⟩

theorem length_blocks_value (os : List Card) :
    (blocks Card.value os).length = (values os).dedup.length := by
  unfold blocks
  rw [List.length_map, (keys_perm Card.value os).length_eq]
  rfl

theorem length_dedup_eq_iff {vs : List Int} : vs.dedup.length = vs.length ↔ vs.Nodup := by
  constructor
  · intro hlength
    rw [← (List.dedup_sublist vs).eq_of_length hlength]
    exact List.nodup_dedup vs
  · intro hnodup
    rw [List.dedup_eq_self.2 hnodup]

/-- A suit that the jokers complete has all the ordinary cards, and their values differ. -/
theorem oneSuit_of_need (hlength : k + os.length = 13) {i : Int}
    (hneed : (k : Int) - qlNeed os i ≥ 0) :
    (values os).Nodup ∧ ∀ c ∈ os, c.type = i := by
  have hkeys := (keys_perm Card.value (os.filter fun v => v.type = i)).length_eq
  have hdedup := (List.dedup_sublist ((os.filter fun v => v.type = i).map Card.value)).length_le
  have hfilter := List.length_filter_le (fun v : Card => decide (v.type = i)) os
  rw [List.length_map] at hdedup
  unfold qlNeed at hneed
  have hall : (os.filter fun v => v.type = i) = os := List.filter_sublist.eq_of_length (by omega)
  constructor
  · rw [← length_dedup_eq_iff]
    rw [hall] at hkeys hdedup hneed
    unfold values
    rw [List.length_map]
    omega
  · intro c hc
    rw [← hall, List.mem_filter, decide_eq_true_eq] at hc
    exact hc.2

end Sorted

section Outcome

variable {pairs : List (List Card) → List (List Card)} {hand cards : List Card}

/-- Two jokers that two suits lack, or a single suit. -/
def AsksFlushes (k : Nat) (ts : List Int) : Prop :=
  ts.dedup.length = 1 ∨ (k = 2 ∧ ts.dedup.length = 2 ∧ ∀ t ∈ ts, lacks (ts.count t) = 1)

/-- The ways in which `checkSpecialVariety` returns, for `k` jokers next to ordinary cards of the
values `vs` and the suits `ts`. -/
inductive Told (k : Nat) (vs ts : List Int) : Option (Int × List Card) → Prop
  | oneSuit {i : Int} {shown : List Card} (hi : 1 ≤ i ∧ i ≤ 4) (hdiffer : vs.Nodup)
      (hsuit : ∀ t ∈ ts, t = i) :
      Told k vs ts (some (13, shown))
  | differ {shown : List Card} (hdiffer : vs.Nodup) : Told k vs ts (some (12, shown))
  | six {shown : List Card} (hdiffer : ¬vs.Nodup) {v : Int} (hsix : Completed k (vs.count v)) :
      Told k vs ts (some (-1, shown))
  | trips {shown : List Card} (hdiffer : ¬vs.Nodup) (hsix : ∀ v, ¬Completed k (vs.count v))
      (htrips : AsksTrips k vs) : Told k vs ts (some (5, shown))
  | pairs {shown : List Card} (hdiffer : ¬vs.Nodup) (hsix : ∀ v, ¬Completed k (vs.count v))
      (htrips : ¬AsksTrips k vs) (hpairs : AsksPairs k vs) : Told k vs ts (some (3, shown))
  | straights {shown : List Card} (hdiffer : ¬vs.Nodup) (hsix : ∀ v, ¬Completed k (vs.count v))
      (htrips : ¬AsksTrips k vs) (hpairs : ¬AsksPairs k vs) (hfound : Found k vs) :
      Told k vs ts (some (2, shown))
  | flushes {shown : List Card} (hdiffer : ¬vs.Nodup) (hsix : ∀ v, ¬Completed k (vs.count v))
      (htrips : ¬AsksTrips k vs) (hpairs : ¬AsksPairs k vs) (hfound : ¬Found k vs)
      (hflushes : AsksFlushes k ts) : Told k vs ts (some (1, shown))
  | none (hdiffer : ¬vs.Nodup) (hsix : ∀ v, ¬Completed k (vs.count v)) (htrips : ¬AsksTrips k vs)
      (hpairs : ¬AsksPairs k vs) (hfound : ¬Found k vs) (hflushes : ¬AsksFlushes k ts) :
        Told k vs ts none

/-- What is returned after the search for straights. -/
def varietyAfterStraights (pairs : List (List Card) → List (List Card)) (cards : List Card)
    (straights : Option (List Card)) : Option (Int × List Card) :=
  match straights with
  | some found => some (2, found)
  | none =>
      if jokerSth (jokersOf cards).length (pairs (blocks Card.type (ordinary cards))) then
        some (1, (pairs (blocks Card.type (ordinary cards))).flatMap fun v => v ++ jokersOf cards)
      else none

/-- What is returned when no suit has all the ordinary cards. -/
def varietyOfCounts (pairs : List (List Card) → List (List Card)) (cards : List Card)
    (counts : JokerCounts) :
    Lua (Option (Int × List Card)) :=
  if (jokersOf cards).length + (blocks Card.value (ordinary cards)).length =
    13 then .ok (some (12, cards))
  else if counts.suangLiutong then .ok (some (-2, cards))
  else if counts.liutong then .ok (some (-1, cards))
  else if jokerStst counts.sanNum counts.realDuiNum (jokersOf cards).length then .ok
    (some (5, cards))
  else if ¬(counts.danNum : Int) - (jokersOf cards).length > 1 then .ok (some (3, cards))
  else (if counts.ssz then threeStraights cards else pure none) >>= fun straights =>
    .ok (varietyAfterStraights pairs cards straights)

theorem checkSpecialVariety_eq (hcards : Lua.tableSort sortDescent hand = cards) {first : Card}
    (hfirst : Lua.nth cards 1 = some first) (hjokers : (jokersOf cards).length ≠ 0)
    (hnone : ([1, 2, 3, 4] : List Int).find?
      (fun i => decide (((jokersOf cards).length : Int) - qlNeed (ordinary cards) i ≥ 0)) = none) :
    checkSpecialVariety pairs hand =
      varietyOfCounts pairs cards (jokerCounts pairs (ordinary cards) (jokersOf cards).length) := by
  have hlast : ∀ straights : Option (List Card), (match straights with
      | some found => pure (some (2, found))
      | none =>
          pure (if jokerSth (jokersOf cards).length (pairs (blocks Card.type (ordinary cards))) then
          some (1, (pairs (blocks Card.type (ordinary cards))).flatMap fun v => v ++ jokersOf cards)
            else none) :
      Lua (Option (Int × List Card))) = .ok (varietyAfterStraights pairs cards straights) := by
    rintro (_ | found)
    · rfl
    · rfl
  unfold checkSpecialVariety varietyOfCounts jokerCounts
  rw [hcards]
  simp only [Lua.elem, hfirst, Lua.need_some, Lua.ok_bind]
  refine (if_neg hjokers).trans ?_
  unfold jokersOf ordinary at *
  rw [hnone]
  dsimp only
  generalize (List.map List.length _).foldl JokerCounts.visit _ = counts
  iterate 5 refine ite_congr rfl (fun _ => rfl) fun _ => ?_
  cases counts.ssz with
  | true => exact bind_congr hlast
  | false => exact hlast none

theorem checkSpecialVariety_eq_oneSuit (hcards : Lua.tableSort sortDescent hand = cards)
    {first : Card}
    (hfirst : Lua.nth cards 1 = some first) (hjokers : (jokersOf cards).length ≠ 0) {i : Int}
    (hsome : ([1, 2, 3, 4] : List Int).find?
      (fun i => decide (((jokersOf cards).length : Int) - qlNeed (ordinary cards) i ≥ 0)) =
      some i) :
    ∃ shown, checkSpecialVariety pairs hand = .ok (some (13, shown)) := by
  unfold checkSpecialVariety
  rw [hcards]
  simp only [Lua.elem, hfirst, Lua.need_some, Lua.ok_bind]
  unfold jokersOf ordinary at *
  rw [if_neg hjokers, hsome]
  exact ⟨_, rfl⟩

/-- What is known of the sorted hand. -/
structure SortedHand (hand cards : List Card) : Prop where
  eq : Lua.tableSort sortDescent hand = cards
  mixed : Mixed cards
  jokers : (jokersOf cards).length = (jokersOf hand).length
  valuesPerm : (values (ordinary cards)).Perm (values (ordinary hand))
  types : ((ordinary cards).map Card.type).Perm ((ordinary hand).map Card.type)

theorem sortedHand (hhand : JokerHand hand) : SortedHand hand (Lua.tableSort sortDescent hand) := by
  have hperm := Lua.tableSort_perm sortDescent hand
  refine ⟨rfl, hhand.mixed.of_subset hperm.subset, (hperm.filter _).length_eq,
    (hperm.filter _).map _,
    (hperm.filter _).map _⟩

/-- The test for suits of rows, on the sizes of the suits. -/
theorem SortedHand.asksFlushes_iff (hsorted : SortedHand hand cards)
    (hpairs : ∀ l, (pairs l).Perm l)
    (hk : (jokersOf hand).length = 1 ∨ (jokersOf hand).length = 2) :
    jokerSth (jokersOf cards).length (pairs (blocks Card.type (ordinary cards))) = true ↔
      AsksFlushes (jokersOf hand).length ((ordinary hand).map Card.type) := by
  have hblocks := hpairs (blocks Card.type (ordinary cards))
  have hne : ∀ g ∈ pairs (blocks Card.type (ordinary cards)), g ≠ [] := fun g hg =>
    ne_nil_of_mem_blocks (hblocks.subset hg)
  have hlacks : (∀ g ∈ pairs (blocks Card.type (ordinary cards)), lacks g.length = 1) ↔
      ∀ t ∈ (ordinary hand).map Card.type, lacks (((ordinary hand).map Card.type).count t) = 1 := by
    simp only [hblocks.mem_iff, ← hsorted.types.mem_iff, ← hsorted.types.count_eq]
    constructor
    · intro h t ht
      obtain ⟨c, hc, rfl⟩ := List.mem_map.1 ht
      rw [← length_block]
      exact h _ (block_mem_blocks hc)
    · intro h g hg
      obtain ⟨t, ht, rfl⟩ := mem_blocks.1 hg
      obtain ⟨c, hc, rfl⟩ := mem_keys.1 ht
      rw [length_block]
      exact h _ (List.mem_map_of_mem hc)
  unfold AsksFlushes
  rw [hsorted.jokers, jokerSth_iff hne hk, hlacks, hblocks.length_eq, length_blocks_type,
    hsorted.types.dedup.length_eq]

/-- The search for straights, when it is made at all, finds what `Found` says. -/
theorem SortedHand.straights_ok (hsorted : SortedHand hand cards) (hpairs : ∀ l, (pairs l).Perm l)
    (hhand : JokerHand hand) :
    ∃ r, (if (jokerCounts pairs (ordinary cards) (jokersOf cards).length).ssz then
      threeStraights cards
        else pure none) = .ok r ∧
          (r ≠ none ↔ Found (jokersOf hand).length (values (ordinary hand))) := by
  have hssz := jokerCounts_ssz hpairs (ordinary cards) (jokersOf cards).length
  by_cases hsearch : (jokerCounts pairs (ordinary cards) (jokersOf cards).length).ssz = true
  · rw [if_pos hsearch]
    obtain ⟨r, hr, hfound⟩ :=
      hsorted.mixed.threeStraights_ok (by rw [hsorted.jokers]; exact hhand.jokers)
    rw [hsorted.jokers] at hfound
    refine ⟨r, hr, hfound.trans ⟨fun h => h.of_perm hhand.jokers hsorted.valuesPerm, fun h => ?_⟩⟩
    exact h.of_perm hhand.jokers hsorted.valuesPerm.symm
  · rw [if_neg hsearch]
    refine ⟨none, rfl, fun h => absurd rfl h, fun hfound _ => hsearch (hssz.2 fun v _ => ?_)⟩
    rw [hsorted.valuesPerm.count_eq]
    exact (hfound.amongStraights hhand.jokers hhand.values_subset).count_le v

theorem checkSpecialVariety_told (hhand : JokerHand hand) (hpairs : ∀ l, (pairs l).Perm l) :
    ∃ r, checkSpecialVariety pairs hand = .ok r ∧
      Told (jokersOf hand).length (values (ordinary hand)) ((ordinary hand).map Card.type) r := by
  have hsorted := sortedHand hhand
  obtain ⟨cards, hcards⟩ : ∃ cards, Lua.tableSort sortDescent hand = cards := ⟨_, rfl⟩
  rw [hcards] at hsorted
  have hk := hhand.jokers
  have hlength : (jokersOf cards).length + (ordinary cards).length = 13 := by
    rw [Nat.add_comm, length_parts, ← hcards, (Lua.tableSort_perm sortDescent hand).length_eq,
      hhand.length]
  obtain ⟨first, hfirst⟩ :=
    @Lua.exists_nth _ cards 1 (by decide) (by have := length_parts cards; omega)
  have hjokers : (jokersOf cards).length ≠ 0 := by
    rw [hsorted.jokers]
    omega
  cases hfind : ([1, 2, 3, 4] : List Int).find?
      fun i => decide (((jokersOf cards).length : Int) - qlNeed (ordinary cards) i ≥ 0) with
  | some i =>
      obtain ⟨shown, hshown⟩ :=
        @checkSpecialVariety_eq_oneSuit pairs _ _ hcards _ hfirst hjokers _ hfind
      have hneed := List.find?_some hfind
      have hi := List.mem_of_find?_eq_some hfind
      simp only [List.mem_cons, List.not_mem_nil, or_false] at hi
      rw [decide_eq_true_eq] at hneed
      obtain ⟨hdiffer, hsuit⟩ := oneSuit_of_need hlength hneed
      refine ⟨_, hshown, Told.oneSuit (i := i) (by omega) (hsorted.valuesPerm.nodup_iff.1 hdiffer)
        fun t ht => ?_⟩
      obtain ⟨c, hc, rfl⟩ := List.mem_map.1 (hsorted.types.mem_iff.2 ht)
      exact hsuit c hc
  | none =>
      rw [checkSpecialVariety_eq hcards hfirst hjokers hfind]
      obtain ⟨hsan, hdui, hdan⟩ := jokerCounts_sets hpairs (ordinary cards) (jokersOf cards).length
      obtain ⟨hsuang, hliutong⟩ := jokerCounts_six hpairs (ordinary cards) (jokersOf cards).length
      obtain ⟨r, hr, hfound⟩ := hsorted.straights_ok hpairs hhand
      have hflushes := hsorted.asksFlushes_iff hpairs hk
      have hdiffer : (jokersOf cards).length + (blocks Card.value (ordinary cards)).length = 13 ↔
          (values (ordinary hand)).Nodup := by
        rw [← hsorted.valuesPerm.nodup_iff, ← length_dedup_eq_iff, length_blocks_value]
        unfold values
        rw [List.length_map]
        omega
      unfold varietyOfCounts
      rw [hr, Lua.ok_bind, hsan, hdui, hdan, hsuang, total_perm hsorted.valuesPerm,
        total_perm hsorted.valuesPerm,
        total_perm hsorted.valuesPerm, hsorted.jokers, if_neg Bool.false_ne_true]
      rw [hsorted.jokers] at hdiffer hliutong hflushes
      simp only [hsorted.valuesPerm.count_eq] at hliutong
      by_cases hnodup : (values (ordinary hand)).Nodup
      · rw [if_pos (hdiffer.2 hnodup)]
        exact ⟨_, rfl, .differ hnodup⟩
      rw [if_neg (mt hdiffer.1 hnodup)]
      by_cases hsix : ∃ v, Completed (jokersOf hand).length ((values (ordinary hand)).count v)
      · rw [if_pos (hliutong.2 hsix)]
        obtain ⟨v, hv⟩ := hsix
        exact ⟨_, rfl, .six hnodup hv⟩
      rw [if_neg (mt hliutong.1 hsix)]
      have hsix' := not_exists.1 hsix
      have hasksTrips : jokerStst (total threeToFive (values (ordinary hand)))
          (total twice (values (ordinary hand))) (jokersOf hand).length = true ↔
            AsksTrips (jokersOf hand).length (values (ordinary hand)) := Iff.rfl
      by_cases htrips : AsksTrips (jokersOf hand).length (values (ordinary hand))
      · rw [if_pos (hasksTrips.2 htrips)]
        exact ⟨_, rfl, .trips hnodup hsix' htrips⟩
      rw [if_neg (mt hasksTrips.1 htrips)]
      have hasks : ¬(total once (values (ordinary hand)) : Int) - (jokersOf hand).length > 1 ↔
          AsksPairs (jokersOf hand).length (values (ordinary hand)) := by
        unfold AsksPairs
        omega
      by_cases hpairs' : AsksPairs (jokersOf hand).length (values (ordinary hand))
      · rw [if_pos (hasks.2 hpairs')]
        exact ⟨_, rfl, .pairs hnodup hsix' htrips hpairs'⟩
      rw [if_neg (mt hasks.1 hpairs')]
      cases r with
      | some found =>
          exact ⟨_, rfl,
            .straights hnodup hsix' htrips hpairs' (hfound.1 (Option.some_ne_none found))⟩
      | none =>
          have hsearch : ¬Found (jokersOf hand).length (values (ordinary hand)) :=
            fun h => hfound.2 h rfl
          unfold varietyAfterStraights
          rw [hsorted.jokers]
          by_cases hasked : AsksFlushes (jokersOf hand).length ((ordinary hand).map Card.type)
          · rw [if_pos (hflushes.2 hasked)]
            exact ⟨_, rfl, .flushes hnodup hsix' htrips hpairs' hsearch hasked⟩
          · rw [if_neg (mt hflushes.1 hasked)]
            exact ⟨_, rfl, .none hnodup hsix' htrips hpairs' hsearch hasked⟩

end Outcome

section Right

variable {hand : List Card} {t : Int} {shown : List Card}

theorem follows_iff : Follows hand t ↔ (t = 13 ∧ Dragon hand ∧ Flush hand) ∨
    (t = 12 ∧ Dragon hand) ∨
    (t = -2 ∧ TwoSixes hand) ∨ (t = -1 ∧ SixOfAKind hand) ∨
    (t = 5 ∧ 4 ≤ (valueCounts hand).sanNum) ∨
      (t = 3 ∧ 6 ≤ (valueCounts hand).duiNum) ∨ (t = 2 ∧ SplitsIntoStraights hand) ∨
        (t = 1 ∧ SplitsIntoFlushes hand) := by
  constructor
  · intro h
    cases h with
    | oneSuit hdragon hflush => exact .inl ⟨rfl, hdragon, hflush⟩
    | dragon hdragon => exact .inr (.inl ⟨rfl, hdragon⟩)
    | twoSixes hsixes => exact .inr (.inr (.inl ⟨rfl, hsixes⟩))
    | six hsix => exact .inr (.inr (.inr (.inl ⟨rfl, hsix⟩)))
    | trips htrips => exact .inr (.inr (.inr (.inr (.inl ⟨rfl, htrips⟩))))
    | pairs hpairs => exact .inr (.inr (.inr (.inr (.inr (.inl ⟨rfl, hpairs⟩)))))
    | straights hstraights => exact .inr (.inr (.inr (.inr (.inr (.inr (.inl ⟨rfl, hstraights⟩))))))
    | flushes hflushes => exact .inr (.inr (.inr (.inr (.inr (.inr (.inr ⟨rfl, hflushes⟩))))))
  · rintro (⟨rfl, hdragon, hflush⟩ | ⟨rfl, hdragon⟩ | ⟨rfl, hsixes⟩ | ⟨rfl, hsix⟩ | ⟨rfl, htrips⟩
      | ⟨rfl, hpairs⟩ |
      ⟨rfl, hstraights⟩ | ⟨rfl, hflushes⟩)
    · exact .oneSuit hdragon hflush
    · exact .dragon hdragon
    · exact .twoSixes hsixes
    · exact .six hsix
    · exact .trips htrips
    · exact .pairs hpairs
    · exact .straights hstraights
    · exact .flushes hflushes

theorem follows_trips_iff : Follows hand 5 ↔ 4 ≤ (valueCounts hand).sanNum := by
  rw [follows_iff]
  simp

theorem follows_pairs_iff : Follows hand 3 ↔ 6 ≤ (valueCounts hand).duiNum := by
  rw [follows_iff]
  simp

theorem follows_flushes_iff : Follows hand 1 ↔ SplitsIntoFlushes hand := by
  rw [follows_iff]
  simp

theorem jokersRight_some_iff :
    JokersRight hand (some (t, shown)) ↔ ∃ hand', Replaces hand hand' ∧ Follows hand' t := by
  constructor
  · exact fun h => h.1 t shown rfl
  · rintro ⟨hand', hreplaces, hfollows⟩
    refine ⟨fun t' shown' heq => ?_, fun heq => absurd heq (Option.some_ne_none _)⟩
    rw [Option.some.injEq, Prod.mk.injEq] at heq
    exact ⟨hand', hreplaces, heq.1 ▸ hfollows⟩

theorem jokersRight_none_iff : JokersRight hand none ↔ ∀ hand' t, Replaces hand hand' →
    ¬Follows hand' t :=
  ⟨fun h => h.2 rfl, fun h => ⟨fun _ _ heq => absurd heq.symm (Option.some_ne_none _), fun _ => h⟩⟩

/-- The dragon of one suit that the jokers make. -/
theorem exists_oneSuit (hhand : JokerHand hand) {i : Int} (hi : 1 ≤ i ∧ i ≤ 4)
    (hdiffer : (values (ordinary hand)).Nodup)
    (hsuit : ∀ t ∈ (ordinary hand).map Card.type, t = i) :
    ∃ hand', Replaces hand hand' ∧ Dragon hand' ∧ Flush hand' := by
  obtain ⟨ws, hlength, hdeck, hperm⟩ :=
    (makes_dragon_iff hhand.length_values hhand.values_subset).2 hdiffer
  have htypes : ∀ c ∈ ordinary hand ++ ws.map fun v => { type := i, value := v }, c.type = i := by
    intro c hc
    rcases List.mem_append.1 hc with hc | hc
    · exact hsuit _ (List.mem_map_of_mem hc)
    · obtain ⟨v, -, rfl⟩ := List.mem_map.1 hc
      rfl
  refine ⟨_, replaces_made hlength fun v hv => ordinary_of_value hi v (hdeck hv), ?_,
    fun c hc d hd => ?_⟩
  · unfold Dragon values
    rw [map_made fun _ => rfl]
    exact List.perm_append_comm.trans hperm
  · rw [htypes c hc, htypes d hd]

/-- Without a pattern that jokers make there is no special hand. -/
theorem not_follows (hhand : JokerHand hand) (hdiffer : ¬(values (ordinary hand)).Nodup)
    (htrips : ¬AsksTrips (jokersOf hand).length (values (ordinary hand)))
    (hpairs : ¬AsksPairs (jokersOf hand).length (values (ordinary hand)))
    (hsix : ∀ v, (values (ordinary hand)).count v ≤ 6 →
      (values (ordinary hand)).count v + (jokersOf hand).length < 6)
    (hstraights : ¬AmongStraights (values (ordinary hand)))
    (hflushes : ((ordinary hand).map Card.type).dedup.length = 2 ∨
        ((ordinary hand).map Card.type).dedup.length = 3 →
      (jokersOf hand).length < total lacks ((ordinary hand).map Card.type))
    (hand' : List Card) (t : Int) (hreplaces : Replaces hand hand') : ¬Follows hand' t := by
  have hnosix : ¬SixOfAKind hand' := by
    intro h
    obtain ⟨v, hle, hmany⟩ := (exists_six_iff hhand).1 ⟨hand', hreplaces, h⟩
    have := hsix v hle
    omega
  intro hfollows
  cases hfollows with
  | oneSuit hdragon hflush =>
      exact hdiffer ((exists_dragon_iff hhand).1 ⟨hand', hreplaces, hdragon⟩)
  | dragon hdragon => exact hdiffer ((exists_dragon_iff hhand).1 ⟨hand', hreplaces, hdragon⟩)
  | twoSixes hsixes => exact hnosix hsixes.six
  | six h => exact hnosix h
  | trips h =>
      refine htrips (asksTrips_of_makes hhand.length_values hhand.jokers ?_)
      exact (exists_trips_iff hand).1 ⟨hand', hreplaces, h⟩
  | pairs h =>
      have hmakes := (exists_pairs_iff hand).1 ⟨hand', hreplaces, h⟩
      exact hpairs (asksPairs_of_odd (odd_of_makes hhand.length_values hhand.jokers hmakes).2.2)
  | straights h => exact hstraights ((exists_straights_iff hhand).1 ⟨hand', hreplaces, h⟩)
  | flushes h =>
      obtain ⟨hkinds, hlacks⟩ := (exists_flushes_iff hhand).1 ⟨hand', hreplaces, h⟩
      have := hflushes hkinds
      omega

section Condition

variable {k : Nat} {vs ts : List Int}

theorem toldRight_trips_iff (hdiffer : ¬vs.Nodup) (hsix : ∀ v, ¬Completed k (vs.count v))
    (htrips : AsksTrips k vs) : ToldRight k vs ts ↔ ∀ v, vs.count v ≠ 5 := by
  constructor
  · intro h
    cases h with
    | differ h => exact absurd h hdiffer
    | six v h hsum => exact absurd ⟨h, hsum⟩ (hsix v)
    | trips h hfive => exact hfive
    | pairs h => exact absurd htrips h
    | straights h => exact absurd htrips h
    | flushes h => exact absurd htrips h
    | none h => exact absurd htrips h
  · exact .trips htrips

theorem toldRight_pairs_iff (hdiffer : ¬vs.Nodup) (hsix : ∀ v, ¬Completed k (vs.count v))
    (htrips : ¬AsksTrips k vs) (hpairs : AsksPairs k vs) :
    ToldRight k vs ts ↔ (∀ v, vs.count v ≤ 5) ∧ (∀ u v, vs.count u = 5 → vs.count v = 5 → u = v) ∧
      total odd vs ≤ k + 1 := by
  constructor
  · intro h
    cases h with
    | differ h => exact absurd h hdiffer
    | six v h hsum => exact absurd ⟨h, hsum⟩ (hsix v)
    | trips h => exact absurd h htrips
    | pairs _ _ hmany hfive hodd => exact ⟨hmany, hfive, hodd⟩
    | straights _ h => exact absurd hpairs h
    | flushes _ h => exact absurd hpairs h
    | none _ h => exact absurd hpairs h
  · rintro ⟨hmany, hfive, hodd⟩
    exact .pairs htrips hpairs hmany hfive hodd

/-- After the tests of equal values and of straights, suits are told right when there are two of
them that lack one card each, and when the jokers make nothing. -/
theorem toldRight_rest_iff (hdiffer : ¬vs.Nodup) (hsix : ∀ v, ¬Completed k (vs.count v))
    (htrips : ¬AsksTrips k vs) (hpairs : ¬AsksPairs k vs) (hfound : ¬Found k vs) :
    ToldRight k vs ts ↔ (k = 2 ∧ ts.dedup.length = 2 ∧ ∀ t ∈ ts, lacks (ts.count t) = 1) ∨
      (ts.dedup.length ≠ 1 ∧ (∀ v, vs.count v ≤ 6 → vs.count v + k < 6) ∧ ¬AmongStraights vs ∧
        (ts.dedup.length = 2 ∨ ts.dedup.length = 3 → k < total lacks ts)) := by
  constructor
  · intro h
    cases h with
    | differ h => exact absurd h hdiffer
    | six v h hsum => exact absurd ⟨h, hsum⟩ (hsix v)
    | trips h => exact absurd h htrips
    | pairs _ h => exact absurd h hpairs
    | straights _ _ h => exact absurd h hfound
    | flushes _ _ hk htwo hlacks => exact .inl ⟨hk, htwo, hlacks⟩
    | none _ _ hsuits hsix hstraights hflushes => exact .inr ⟨hsuits, hsix, hstraights, hflushes⟩
  · rintro (⟨hk, htwo, hlacks⟩ | ⟨hsuits, hsix, hstraights, hflushes⟩)
    · exact .flushes htrips hpairs hk htwo hlacks
    · exact .none htrips hpairs hsuits hsix hstraights hflushes

/-- Two suits that lack one card each lack two. -/
theorem total_lacks_eq_two (htwo : ts.dedup.length = 2)
    (hlacks : ∀ t ∈ ts, lacks (ts.count t) = 1) :
    total lacks ts = 2 := by
  have hone : (ts.dedup.map fun t => lacks (ts.count t)) = ts.dedup.map fun _ => 1 :=
    List.map_congr_left fun t ht => hlacks t (List.mem_dedup.1 ht)
  rw [total_eq_sum (List.Perm.refl _), hone]
  simp [htwo]

end Condition

/-- What is returned is right on the condition. -/
theorem Told.right_iff (hhand : JokerHand hand) {r : Option (Int × List Card)}
    (htold : Told (jokersOf hand).length (values (ordinary hand))
      ((ordinary hand).map Card.type) r) :
    JokersRight hand r ↔
      ToldRight (jokersOf hand).length (values (ordinary hand))
      ((ordinary hand).map Card.type) := by
  have hk := hhand.jokers
  cases htold with
  | oneSuit hi hdiffer hsuit =>
      obtain ⟨hand', hreplaces, hdragon, hflush⟩ := exists_oneSuit hhand hi hdiffer hsuit
      exact iff_of_true (jokersRight_some_iff.2 ⟨hand', hreplaces, .oneSuit hdragon hflush⟩)
        (.differ hdiffer)
  | differ hdiffer =>
      obtain ⟨hand', hreplaces, hdragon⟩ := (exists_dragon_iff hhand).2 hdiffer
      exact iff_of_true (jokersRight_some_iff.2 ⟨hand', hreplaces, .dragon hdragon⟩)
        (.differ hdiffer)
  | @six _ hdiffer v hsix =>
      obtain ⟨hcount, hsum⟩ := hsix
      obtain ⟨hand', hreplaces, h⟩ := (exists_six_iff hhand).2 ⟨v, by omega, by omega⟩
      exact iff_of_true (jokersRight_some_iff.2 ⟨hand', hreplaces, .six h⟩) (.six v hcount hsum)
  | trips hdiffer hsix htrips =>
      have hmakes := makes_trips_iff hhand.length_values hk (fun v hv hsum => hsix v ⟨hv, hsum⟩)
        hhand.values_subset htrips
      rw [jokersRight_some_iff,
        toldRight_trips_iff hdiffer hsix htrips, ← hmakes, ← exists_trips_iff]
      simp only [follows_trips_iff]
  | pairs hdiffer hsix htrips hpairs =>
      have hmakes := makes_pairs_iff hhand.length_values hk (fun v hv hsum => hsix v ⟨hv, hsum⟩)
        hhand.values_subset
      rw [jokersRight_some_iff,
        toldRight_pairs_iff hdiffer hsix htrips hpairs, ← hmakes, ← exists_pairs_iff]
      simp only [follows_pairs_iff]
  | straights hdiffer hsix htrips hpairs hfound =>
      have hamong := hfound.amongStraights hk hhand.values_subset
      obtain ⟨hand', hreplaces, h⟩ := (exists_straights_iff hhand).2 hamong
      exact iff_of_true (jokersRight_some_iff.2 ⟨hand', hreplaces, .straights h⟩)
        (.straights htrips hpairs hfound)
  | flushes hdiffer hsix htrips hpairs hfound hflushes =>
      rw [jokersRight_some_iff, toldRight_rest_iff hdiffer hsix htrips hpairs hfound]
      simp only [follows_flushes_iff]
      rw [exists_flushes_iff hhand]
      rcases hflushes with hone | ⟨htwo, hsuits, hlacks⟩
      · omega
      · have htotal := total_lacks_eq_two hsuits hlacks
        exact iff_of_true ⟨.inl hsuits, by omega⟩ (.inl ⟨htwo, hsuits, hlacks⟩)
  | none hdiffer hsix htrips hpairs hfound hflushes =>
      rw [jokersRight_none_iff, toldRight_rest_iff hdiffer hsix htrips hpairs hfound]
      constructor
      · intro hnone
        refine .inr ⟨fun hone => hflushes (.inl hone), fun v hle => ?_, fun hamong => ?_,
          fun hkinds => ?_⟩
        · by_contra hmany
          obtain ⟨hand', hreplaces, h⟩ := (exists_six_iff hhand).2 ⟨v, hle, by omega⟩
          exact hnone hand' _ hreplaces (.six h)
        · obtain ⟨hand', hreplaces, h⟩ := (exists_straights_iff hhand).2 hamong
          exact hnone hand' _ hreplaces (.straights h)
        · by_contra hfew
          obtain ⟨hand', hreplaces, h⟩ := (exists_flushes_iff hhand).2 ⟨hkinds, by omega⟩
          exact hnone hand' _ hreplaces (.flushes h)
      · rintro (hasks | ⟨hsuits, hsix', hstraights, hlacks⟩)
        · exact absurd (.inr hasks) hflushes
        · exact not_follows hhand hdiffer htrips hpairs hsix' hstraights hlacks

/-- **Which hands with jokers are told right.** The type of a hand with one or two jokers is one
that the jokers can make, and there is none only when they make nothing, exactly when the ordinary
cards meet the condition. -/
theorem checkSpecialVariety_right_iff {pairs : List (List Card) → List (List Card)}
    (hhand : JokerHand hand)
    (hpairs : ∀ l, (pairs l).Perm l) :
    ∃ result, checkSpecialVariety pairs hand = .ok result ∧ (JokersRight hand result ↔
      ToldRight (jokersOf hand).length (values (ordinary hand))
      ((ordinary hand).map Card.type)) := by
  obtain ⟨result, hresult, htold⟩ := checkSpecialVariety_told hhand hpairs
  exact ⟨result, hresult, htold.right_iff hhand⟩

/-- Two threes, two pairs, two single cards and a joker. -/
def fourPairsHand : List Card :=
  [⟨1, 1, none, none⟩, ⟨2, 1, none, none⟩, ⟨3, 1, none, none⟩, ⟨1, 2, none, none⟩,
    ⟨2, 2, none, none⟩,
    ⟨3, 2, none, none⟩, ⟨1, 5, none, none⟩, ⟨2, 5, none, none⟩, ⟨1, 8, none, none⟩,
      ⟨2, 8, none, none⟩,
    ⟨3, 11, none, none⟩, ⟨4, 13, none, none⟩, ⟨5, 15, none, none⟩]

theorem fourPairsHand_joker : JokerHand fourPairsHand := by
  refine ⟨rfl, ?_, by decide, by decide⟩
  unfold Ordinary IsJoker
  decide

theorem checkSpecialVariety_right_iff_fourPairsHand :
    ∃ result, checkSpecialVariety id fourPairsHand = .ok result ∧
    (JokersRight fourPairsHand result ↔
      ToldRight (jokersOf fourPairsHand).length (values (ordinary fourPairsHand))
        ((ordinary fourPairsHand).map Card.type)) :=
  checkSpecialVariety_right_iff fourPairsHand_joker fun l => List.Perm.refl l

/-- The hand passes the test for six pairs, and no card in the place of its joker makes six pairs of
it. -/
theorem checkSpecialVariety_wrong :
    JokerHand fourPairsHand ∧ ∃ shown, checkSpecialVariety id fourPairsHand = .ok
    (some (3, shown)) ∧
      ¬JokersRight fourPairsHand (some (3, shown)) := by
  refine ⟨fourPairsHand_joker, Lua.tableSort sortDescent fourPairsHand, rfl, fun hright => ?_⟩
  rw [jokersRight_some_iff] at hright
  simp only [follows_pairs_iff] at hright
  have hmakes := (exists_pairs_iff fourPairsHand).1 hright
  have hodd :=
    (odd_of_makes fourPairsHand_joker.length_values fourPairsHand_joker.jokers hmakes).2.2
  exact absurd hodd (by decide)

end Right

end SdyServer.Daboluo
