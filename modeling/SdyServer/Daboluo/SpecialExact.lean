import SdyServer.Daboluo.Arranged
import SdyServer.Daboluo.OneDeck
import SdyServer.Daboluo.Special

/-!
# Which hands are special

`checkSpecialSmall` returns the first pattern that a hand of thirteen cards without jokers follows.
The patterns of equal values are told by how often the values occur, the three flushes by the sizes
of the suits, and the three straights by a search that takes one straight after the other.
-/

namespace SdyServer.Daboluo

open Blocks

section Statement

def FallsThree (vs : List Int) : Prop := vs = [13, 2, 1] ∨ ∃ w, vs = [w + 2, w + 1, w]

def Dragon (hand : List Card) : Prop := (values hand).Perm deckValues

/-- Some value occurs six times, and in the second pattern two values do. -/
def SixOfAKind (hand : List Card) : Prop := ∃ v, (values hand).count v = 6

def TwoSixes (hand : List Card) : Prop :=
  ∃ u v, u ≠ v ∧ (values hand).count u = 6 ∧ (values hand).count v = 6

/-- The hand has `m` sets of `k` cards of one value. -/
def HasSets (m k : Nat) (hand : List Card) : Prop :=
  ∃ vs : List Int, vs.length = m ∧ (vs.flatMap (List.replicate k)).Subperm (values hand)

def SplitsIntoStraights (hand : List Card) : Prop :=
  ∃ a b c, Falls a ∧ Falls b ∧ FallsThree c ∧ (a ++ b ++ c).Perm (values hand)

/-- The hand has cards of two or three suits, and is made of flushes of five, five and three. -/
def SplitsIntoFlushes (hand : List Card) : Prop :=
  ((hand.map Card.type).dedup.length = 2 ∨ (hand.map Card.type).dedup.length = 3) ∧
    ∃ a b c : List Card, (a.length = 5 ∧ b.length = 5 ∧ c.length = 3) ∧ Flush a ∧
      Flush b ∧ Flush c ∧
      (a ++ b ++ c).Perm hand

/-- The special types and what they ask of a hand, the best one first. -/
def patterns (danse : Bool) (hand : List Card) : List (Int × Prop) :=
  [(13, Dragon hand ∧ ∀ c ∈ hand, ∀ d ∈ hand, c.type = d.type), (12, Dragon hand),
    (-2, TwoSixes hand),
    (-1, SixOfAKind hand), (5, HasSets 4 3 hand), (3, HasSets 6 2 hand),
      (2, SplitsIntoStraights hand),
    (1, danse = false ∧ SplitsIntoFlushes hand)]

/-- The result names the first pattern that holds, and nothing when none does. -/
def FirstOf : List (Int × Prop) → Option Int → Prop
  | [], result => result = none
  | (t, pattern) :: rest, result => (pattern ∧ result = some t) ∨ (¬pattern ∧ FirstOf rest result)

end Statement

section Straights

variable {cards arr1 : List Card} {v : Five} {rows : List Five}

theorem lastThree_iff (arr : List Card) : lastThree arr = true ↔ FallsThree (values arr) := by
  unfold FallsThree values
  match arr with
  | [a, b, c] =>
      simp only [lastThree, decide_eq_true_eq, List.map_cons, List.map_nil,
        List.cons.injEq, and_true]
      constructor
      · rintro (⟨hab, hbc⟩ | h)
        · exact .inr ⟨c.value, by omega⟩
        · exact .inl h
      · rintro (h | ⟨w, h⟩)
        · exact .inr h
        · exact .inl (by omega)
  | [] | [_] | [_, _] | _ :: _ :: _ :: _ :: _ => simp [lastThree]

theorem delPass_sublist (hit : Card → Card → Bool) (a b : List Card) :
    (delPass hit a b).1.Sublist a := by
  induction a generalizing b with
  | nil => exact List.Sublist.refl _
  | cons c rest ih =>
      rw [delPass]
      split_ifs
      · exact (ih _).cons c
      · exact (ih b).cons_cons c

/-- What is left of a list keeps its order. -/
theorem delCards_sublist (a b : List Card) : (delCards (some a) (some b)).Sublist a := by
  have hfirst := delPass_sublist sameCard a.reverse b
  have hboth : (delPass bothJokers (delPass sameCard a.reverse b).1
      (delPass sameCard a.reverse b).2).1.Sublist
      a.reverse := (delPass_sublist _ _ _).trans hfirst
  unfold delCards
  rw [← List.reverse_sublist, List.reverse_reverse]
  show (if (delPass sameCard a.reverse b).2.length > 0 then
      delPass bothJokers (delPass sameCard a.reverse b).1 (delPass sameCard a.reverse b).2
    else delPass sameCard a.reverse b).1.Sublist a.reverse
  split_ifs
  · exact hboth
  · exact hfirst

theorem pairwise_without (cards row : List Card) :
    (values (without cards row)).Pairwise (· ≥ ·) :=
  List.pairwise_map.2 ((pairwise_sorted cards).sublist (delCards_sublist _ _))

theorem secondStraight_eq_some {found : List Card}
    (hfound : secondStraight v (sorted arr1) rows = some found) :
    ∃ vv ∈ rows, FallsThree (values (without arr1 vv.toList)) ∧
      found = v.toList ++ vv.toList ++ without arr1 vv.toList := by
  induction rows with
  | nil => simp [secondStraight] at hfound
  | cons vv rest ih =>
      rw [secondStraight] at hfound
      by_cases hlast : lastThree (delCards (some (sorted arr1)) (some vv.toList)) = true
      · rw [if_pos hlast, Option.some.injEq] at hfound
        exact ⟨vv, List.mem_cons_self .., (lastThree_iff _).1 hlast, hfound.symm⟩
      · rw [if_neg hlast] at hfound
        obtain ⟨vv', hmem, hfalls, heq⟩ := ih hfound
        exact ⟨vv', List.mem_cons_of_mem _ hmem, hfalls, heq⟩

theorem secondStraight_eq_none (hnone : secondStraight v (sorted arr1) rows = none) :
    ∀ vv ∈ rows, ¬FallsThree (values (without arr1 vv.toList)) := by
  induction rows with
  | nil => simp
  | cons vv rest ih =>
      rw [secondStraight] at hnone
      by_cases hlast : lastThree (delCards (some (sorted arr1)) (some vv.toList)) = true
      · rw [if_pos hlast] at hnone
        cases hnone
      · rw [if_neg hlast] at hnone
        exact List.forall_mem_cons.2 ⟨fun hfalls => hlast ((lastThree_iff _).2 hfalls), ih hnone⟩

/-- The search raises nowhere; it ends at the first pair of straights that leaves one of three
cards. -/
theorem firstStraight_ok
    (hshunzi : ∀ v ∈ rows, ∃ rows', shunzi (without cards v.toList) = .ok rows') :
    ∃ r, firstStraight (sorted cards) rows = .ok r ∧
      (∀ found, r = some found → ∃ v ∈ rows, ∃ rows', shunzi (without cards v.toList) = .ok rows' ∧
        secondStraight v (sorted (without cards v.toList)) rows' = some found) ∧
      (r = none → ∀ v ∈ rows, ∃ rows', shunzi (without cards v.toList) = .ok rows' ∧
        secondStraight v (sorted (without cards v.toList)) rows' = none) := by
  induction rows with
  | nil => exact ⟨none, rfl, by simp, by simp⟩
  | cons v rest ih =>
      rw [List.forall_mem_cons] at hshunzi
      obtain ⟨rows', hrows'⟩ := hshunzi.1
      have hleft : delCards (some (sorted cards)) (some v.toList) = without cards v.toList := rfl
      rw [firstStraight, hleft, hrows', Lua.ok_bind]
      cases hsecond : secondStraight v (sorted (without cards v.toList)) rows' with
      | some found =>
          refine ⟨some found, rfl, fun found' heq => ?_, by simp⟩
          rw [Option.some.injEq] at heq
          exact ⟨v, List.mem_cons_self .., rows', hrows', heq ▸ hsecond⟩
      | none =>
          obtain ⟨r, hr, hsome, hnone⟩ := ih hshunzi.2
          refine ⟨r, hr, fun found heq => ?_, fun heq => ?_⟩
          · obtain ⟨v', hmem, hrest⟩ := hsome found heq
            exact ⟨v', List.mem_cons_of_mem _ hmem, hrest⟩
          · exact List.forall_mem_cons.2 ⟨⟨rows', hrows', hsecond⟩, hnone heq⟩

/-- A row that was taken leaves the rest of the values. -/
theorem values_without (hplain : ∀ c ∈ cards, Plain c) (hsub : v.toList.Subperm cards)
    {a rest : List Int}
    (hvalues : values v.toList = a) (hperm : (a ++ rest).Perm (values cards)) :
    (values (without cards v.toList)).Perm rest := by
  have hall : (values v.toList ++ values (without cards v.toList)).Perm (values cards) := by
    unfold values
    rw [← List.map_append]
    exact (without_perm hplain hsub).map _
  rw [hvalues] at hall
  exact (List.perm_append_left_iff a).1 (hall.trans hperm.symm)

theorem FallsThree.pairwise {vs : List Int} (hfalls : FallsThree vs) : vs.Pairwise (· > ·) := by
  rcases hfalls with rfl | ⟨w, rfl⟩
  · decide
  · simp

/-- What the cards are put together to. -/
structure ShownStraights (hand shown : List Card) : Prop where
  perm : shown.Perm hand
  first : Falls (values (shown.take 5))
  second : Falls (values ((shown.drop 5).take 5))
  third : FallsThree (values (shown.drop 10))

theorem ShownStraights.splits {hand shown : List Card} (hshown : ShownStraights hand shown) :
    SplitsIntoStraights hand := by
  refine ⟨_, _, _, hshown.first, hshown.second, hshown.third, ?_⟩
  unfold values
  rw [← List.map_append, ← List.map_append, List.append_assoc, show 10 = 5 + 5 from
    rfl, ← List.drop_drop,
    List.take_append_drop, List.take_append_drop]
  exact hshown.perm.map _

/-- **The search for three straights is exact.** -/
theorem threeStraights_ok (hplain : ∀ c ∈ cards, Plain c) (hlength : cards.length = 13) :
    ∃ r, threeStraights cards = .ok r ∧ (∀ shown, r = some shown → ShownStraights cards shown) ∧
      (r = none → ¬SplitsIntoStraights cards) := by
  have hjokers := (suited_of_plain hplain).noJokers
  obtain ⟨rows, hrows⟩ := shunzi_ok hjokers
  have hsub : ∀ v ∈ rows, v.toList.Subperm cards := fun v hv => by
    obtain ⟨hfalls, hsubset⟩ := shunzi_sound hjokers hrows hv
    exact subperm_of_falls hfalls hsubset
  have hplain' := fun v hv => plain_without hplain (hsub v hv)
  obtain ⟨r, hr, hsome, hnone⟩ := @firstStraight_ok cards rows fun v hv =>
    shunzi_ok (suited_of_plain (hplain' v hv)).noJokers
  refine ⟨r, ?_, fun shown heq => ?_, fun heq => ?_⟩
  · unfold threeStraights
    rw [hrows]
    exact hr
  · obtain ⟨v, hv, rows', hrows', hsecond⟩ := hsome shown heq
    obtain ⟨vv, hvv, hthird, rfl⟩ := secondStraight_eq_some hsecond
    have hjokers' := (suited_of_plain (hplain' v hv)).noJokers
    obtain ⟨hfalls', hsubset'⟩ := shunzi_sound hjokers' hrows' hvv
    have hsub' := subperm_of_falls hfalls' hsubset'
    rw [List.append_assoc]
    refine ⟨?_, ?_, ?_, ?_⟩
    · exact ((without_perm (hplain' v hv) hsub').append_left _).trans
        (without_perm hplain (hsub v hv))
    · rw [List.take_left' v.length_toList]
      exact (shunzi_sound hjokers hrows hv).1
    · rw [List.drop_left' v.length_toList, List.take_left' vv.length_toList]
      exact hfalls'
    · rw [show 10 = 5 + 5 from rfl, ← List.drop_drop, List.drop_left' v.length_toList,
        List.drop_left' vv.length_toList]
      exact hthird
  · rintro ⟨a, b, c, ha, hb, hc, hperm⟩
    rw [List.append_assoc] at hperm
    have ha' : a ⊆ values cards := fun x hx => hperm.subset (List.mem_append_left _ hx)
    obtain ⟨rows₁, hrows₁, v, hv, hvalues⟩ := shunzi_complete hjokers (by omega) ha ha'
    obtain rfl : rows = rows₁ := Except.ok.inj (hrows.symm.trans hrows₁)
    have hrest := values_without hplain (hsub v hv) hvalues hperm
    have hlong : (without cards v.toList).length = 8 := by
      have hsize := (without_perm hplain (hsub v hv)).length_eq
      rw [List.length_append, Five.length_toList] at hsize
      omega
    have hjokers' := (suited_of_plain (hplain' v hv)).noJokers
    have hb' : b ⊆ values (without cards v.toList) := fun x hx =>
      hrest.symm.subset (List.mem_append_left _ hx)
    obtain ⟨rows', hrows', vv, hvv, hvalues'⟩ := shunzi_complete hjokers' (by omega) hb hb'
    obtain ⟨hfalls', hsubset'⟩ := shunzi_sound hjokers' hrows' hvv
    have hlast :=
      values_without (hplain' v hv) (subperm_of_falls hfalls' hsubset') hvalues' hrest.symm
    obtain ⟨rows₂, hrows₂, hsecond⟩ := hnone heq v hv
    obtain rfl : rows' = rows₂ := Except.ok.inj (hrows'.symm.trans hrows₂)
    refine secondStraight_eq_none hsecond vv hvv ?_
    have hsame := hlast.eq_of_pairwise' (pairwise_without _ _) (hc.pairwise.imp fun h => h.le)
    exact hsame ▸ hc

/-- Of three straights no value occurs four times. -/
theorem SplitsIntoStraights.count_le {hand : List Card}
    (hsplits : SplitsIntoStraights hand) (v : Int) :
    (values hand).count v ≤ 3 := by
  obtain ⟨a, b, c, ha, hb, hc, hperm⟩ := hsplits
  rw [← hperm.count_eq, List.count_append, List.count_append]
  have hone : ∀ {vs : List Int}, vs.Pairwise (· > ·) → vs.count v ≤ 1 := fun hfalls =>
    List.nodup_iff_count_le_one.1 (hfalls.imp fun h => h.ne') v
  have h1 := hone ha.pairwise
  have h2 := hone hb.pairwise
  have h3 := hone hc.pairwise
  omega

end Straights

section Dragons

variable {hand cards : List Card}

theorem isYtl_iff (cards : List Card) :
    isYtl cards = true ↔ (values cards).IsChain fun p v => v = p + 1 := by
  unfold isYtl values
  induction cards with
  | nil => simp
  | cons c rest ih =>
      cases rest with
      | nil => simp
      | cons d rest =>
          rw [List.tail_cons, List.zip_cons_cons, List.all_cons, Bool.and_eq_true,
            decide_eq_true_eq]
          rw [List.tail_cons] at ih
          rw [ih]
          simp only [List.map_cons, List.isChain_cons_cons]

theorem values_sortDescent (hand : List Card) :
    (values (Lua.tableSort sortDescent hand)).Pairwise (· ≤ ·) ∧
      (values (Lua.tableSort sortDescent hand)).Perm (values hand) := by
  refine ⟨List.pairwise_map.2 ((pairwise_sortDescent hand).imp ?_), (Lua.tableSort_perm _ _).map _⟩
  rintro a b (hlt | ⟨heq, -⟩)
  · exact hlt.le
  · exact heq.le

/-- Thirteen sorted values that rise one by one are all the values of a deck. -/
theorem isYtl_sorted_iff (hrange : ∀ v ∈ values hand, 1 ≤ v ∧ v ≤ 13) (hlength : hand.length = 13) :
    isYtl (Lua.tableSort sortDescent hand) = true ↔ Dragon hand := by
  obtain ⟨hsorted, hperm⟩ := values_sortDescent hand
  rw [isYtl_iff]
  constructor
  · intro hchain
    have htrans : Trans (fun a b : Int => a < b) (fun a b : Int => a < b)
        (fun a b : Int => a < b) :=
      ⟨lt_trans⟩
    have hrises :=
      List.isChain_iff_pairwise.1 (hchain.imp fun a b (h : b = a + 1) => (by omega : a < b))
    have hnodup : (values hand).Nodup := hperm.nodup_iff.1 (hrises.imp fun h => h.ne)
    have hsub := hnodup.subperm fun v hv => mem_deckValues (hrange v hv)
    exact hsub.perm_of_length_le (by rw [values, List.length_map, hlength]; rfl)
  · intro hdragon
    have hdeck : deckValues.Pairwise (· ≤ ·) := by decide
    rw [(hperm.trans hdragon).eq_of_pairwise' hsorted hdeck]
    decide

theorem isQys_iff {c : Card} (hc : c ∈ hand) (hperm : cards.Perm hand) :
    isQys cards c.type = true ↔ Flush hand := by
  unfold isQys
  rw [List.all_eq_true]
  constructor
  · intro hall x hx y hy
    rw [of_decide_eq_true (hall x (hperm.mem_iff.2 hx)),
      of_decide_eq_true (hall y (hperm.mem_iff.2 hy))]
  · exact fun hflush x hx => decide_eq_true (hflush x (hperm.mem_iff.1 hx) c hc)

end Dragons

section Counts

variable {hand : List Card} {ns : List Nat}

/-- How the values of a hand are found in its sorted blocks. -/
theorem valueSizes_perm (hand : List Card) :
    ((blocks Card.value (Lua.tableSort sortDescent hand)).map List.length).Perm
      ((values hand).dedup.map fun v => (values hand).count v) := by
  have hperm := (values_sortDescent hand).2
  refine (length_blocks_perm Card.value _).trans ?_
  refine (hperm.dedup.map _).trans (List.Perm.of_eq (List.map_congr_left fun v _ => ?_))
  exact hperm.count_eq v

/-- What the loop has counted about sixes. -/
theorem foldl_visit_six (s : ValueCounts) :
    ((ns.foldl ValueCounts.visit s).liutong = true ↔ s.liutong = true ∨ 0 < ns.countP (· = 6)) ∧
      ((ns.foldl ValueCounts.visit s).suangLiutong = true ↔ s.suangLiutong = true ∨
        1 < ns.countP (· = 6) ∨ s.liutong = true ∧ 0 < ns.countP (· = 6)) := by
  induction ns generalizing s with
  | nil => simp
  | cons n ns ih =>
      obtain ⟨hliutong, hsuang⟩ := ih (s.visit n)
      rw [List.foldl_cons, hliutong, hsuang, List.countP_cons]
      by_cases hsix : n = 6
      · subst hsix
        cases hs : s.liutong with
        | true => simp [ValueCounts.visit, hs]
        | false =>
            have hmore : 1 < ns.countP (· = 6) → 6 ∈ ns := fun h => by
              obtain ⟨n, hn, heq⟩ := List.countP_pos_iff.1 (by omega : 0 < ns.countP (· = 6))
              exact of_decide_eq_true heq ▸ hn
            simp [ValueCounts.visit, hs]
            tauto
      · have hvisit : (s.visit n).liutong = s.liutong ∧ (s.visit n).suangLiutong =
            s.suangLiutong := by
          unfold ValueCounts.visit
          split_ifs <;> exact ⟨rfl, rfl⟩
        simp [hvisit, hsix]

/-- What the loop has counted when no value occurs more than five times. -/
theorem foldl_visit_small (s : ValueCounts) (hsmall : ∀ n ∈ ns, n ≤ 5) :
    (ns.foldl ValueCounts.visit s).sanNum = s.sanNum + (ns.map (· / 3)).sum ∧
      (ns.foldl ValueCounts.visit s).duiNum = s.duiNum + (ns.map (· / 2)).sum := by
  induction ns generalizing s with
  | nil => simp
  | cons n ns ih =>
      rw [List.forall_mem_cons] at hsmall
      obtain ⟨hsan, hdui⟩ := ih (s.visit n) hsmall.2
      rw [List.foldl_cons, hsan, hdui, List.map_cons, List.map_cons, List.sum_cons, List.sum_cons,
        ← Nat.add_assoc, ← Nat.add_assoc]
      have hn : n = 0 ∨ n = 1 ∨ n = 2 ∨ n = 3 ∨ n = 4 ∨ n = 5 := by omega
      rcases hn with rfl | rfl | rfl | rfl | rfl | rfl <;> exact ⟨rfl, rfl⟩

theorem foldl_visit_ssz (s : ValueCounts) :
    (ns.foldl ValueCounts.visit s).ssz = true ↔ s.ssz = true ∧ ∀ n ∈ ns, n ≤ 3 := by
  induction ns generalizing s with
  | nil => simp
  | cons n ns ih =>
      rw [List.foldl_cons, ih, List.forall_mem_cons, ← and_assoc]
      refine and_congr_left' ?_
      have hvisit : (s.visit n).ssz = if n > 3 then false else s.ssz := by
        unfold ValueCounts.visit
        split_ifs <;> rfl
      rw [hvisit]
      split_ifs with hmany
      · simp
        omega
      · simp
        omega

/-- The counts of the hand's values. -/
def valueCounts (hand : List Card) : ValueCounts :=
  ((blocks Card.value (Lua.tableSort sortDescent hand)).map List.length).foldl ValueCounts.visit {}

theorem liutong_iff (hand : List Card) : (valueCounts hand).liutong = true ↔ SixOfAKind hand := by
  unfold valueCounts SixOfAKind
  rw [(foldl_visit_six {}).1, (valueSizes_perm hand).countP_eq, List.countP_map,
    List.countP_pos_iff]
  simp only [Bool.false_eq_true, false_or, Function.comp_apply, decide_eq_true_eq]
  constructor
  · rintro ⟨v, -, hv⟩
    exact ⟨v, hv⟩
  · rintro ⟨v, hv⟩
    exact ⟨v, List.mem_dedup.2 (List.count_pos_iff.1 (by omega)), hv⟩

theorem suangLiutong_iff (hand : List Card) : (valueCounts hand).suangLiutong = true ↔
    TwoSixes hand := by
  unfold valueCounts TwoSixes
  rw [(foldl_visit_six {}).2, (valueSizes_perm hand).countP_eq, List.countP_map,
    List.countP_eq_length_filter]
  simp only [Bool.false_eq_true, false_or, false_and, or_false]
  have hnodup : ((values hand).dedup.filter fun v => (values hand).count v = 6).Nodup :=
    (List.nodup_dedup _).filter _
  have hmem : ∀ v, v ∈ ((values hand).dedup.filter fun v => (values hand).count v = 6) ↔
      (values hand).count v = 6 := by
    intro v
    rw [List.mem_filter, List.mem_dedup, decide_eq_true_eq]
    exact ⟨fun h => h.2, fun h => ⟨List.count_pos_iff.1 (by omega), h⟩⟩
  show 1 < ((values hand).dedup.filter fun v => (values hand).count v = 6).length ↔ _
  constructor
  · intro htwo
    match hsixes : (values hand).dedup.filter fun v => (values hand).count v = 6, htwo with
    | u :: v :: rest, _ =>
        rw [hsixes] at hnodup hmem
        refine ⟨u, v, fun heq => ?_, (hmem u).1 (by simp), (hmem v).1 (by simp)⟩
        exact (List.nodup_cons.1 hnodup).1 (heq ▸ List.mem_cons_self ..)
  · rintro ⟨u, v, hne, hu, hv⟩
    have hpair : [u, v].Nodup := by simp [hne]
    refine (hpair.subperm fun w hw => ?_).length_le
    simp only [List.mem_cons, List.not_mem_nil, or_false] at hw
    rcases hw with rfl | rfl
    · exact (hmem w).2 hu
    · exact (hmem w).2 hv

/-- Without sixes the sets of two and three cards are counted right. -/
theorem sets_iff (hsix : ∀ v, (values hand).count v ≤ 6) (hnone : ¬SixOfAKind hand) :
    (∀ m, m ≤ (valueCounts hand).sanNum ↔ HasSets m 3 hand) ∧
      ∀ m, m ≤ (valueCounts hand).duiNum ↔ HasSets m 2 hand := by
  have hperm := valueSizes_perm hand
  have hsmall : ∀ n ∈ (blocks Card.value (Lua.tableSort sortDescent hand)).map List.length, n ≤
      5 := by
    intro n hn
    obtain ⟨v, -, rfl⟩ := List.mem_map.1 (hperm.mem_iff.1 hn)
    have hle := hsix v
    have hne : (values hand).count v ≠ 6 := fun heq => hnone ⟨v, heq⟩
    omega
  obtain ⟨hsan, hdui⟩ := foldl_visit_small {} hsmall
  unfold valueCounts HasSets
  rw [hsan, hdui, (hperm.map _).sum_eq, (hperm.map _).sum_eq, List.map_map, List.map_map]
  constructor
  · intro m
    rw [exists_sets_iff (by decide), Nat.zero_add]
    rfl
  · intro m
    rw [exists_sets_iff (by decide), Nat.zero_add]
    rfl

theorem ssz_of_splits (hsplits : SplitsIntoStraights hand) : (valueCounts hand).ssz = true := by
  refine (foldl_visit_ssz {}).2 ⟨rfl, fun n hn => ?_⟩
  obtain ⟨v, -, rfl⟩ := List.mem_map.1 ((valueSizes_perm hand).mem_iff.1 hn)
  exact hsplits.count_le v

end Counts

section Flushes

variable {hand cards : List Card} {gs : List (List Card)}

theorem Flush.of_subset {row row' : List Card} (hflush : Flush row) (hsubset : row' ⊆ row) :
    Flush row' :=
  fun c hc d hd => hflush c (hsubset hc) d (hsubset hd)

theorem isSth_iff : isSth gs = true ↔ (gs.length = 2 ∨ gs.length = 3) ∧
    ∀ g ∈ gs, g.length = 3 ∨ g.length = 5 ∨ g.length = 8 ∨ g.length = 10 := by
  unfold isSth
  rw [Bool.and_eq_true, decide_eq_true_eq, List.all_eq_true]
  simp only [decide_eq_true_eq]

/-- Suits that have the sizes of rows, in the order in which they are visited. -/
inductive SuitSizes : List (List Card) → Prop
  | tenThree {g h : List Card} (hg : g.length = 10) (hh : h.length = 3) : SuitSizes [g, h]
  | threeTen {g h : List Card} (hg : g.length = 10) (hh : h.length = 3) : SuitSizes [h, g]
  | fiveEight {g h : List Card} (hg : g.length = 5) (hh : h.length = 8) : SuitSizes [g, h]
  | eightFive {g h : List Card} (hg : g.length = 8) (hh : h.length = 5) : SuitSizes [g, h]
  | first {f g h : List Card} (hf : f.length = 5) (hg : g.length = 5) (hh : h.length = 3) :
    SuitSizes [h, f, g]
  | second {f g h : List Card} (hf : f.length = 5) (hg : g.length = 5) (hh : h.length = 3) :
    SuitSizes [f, h, g]
  | third {f g h : List Card} (hf : f.length = 5) (hg : g.length = 5) (hh : h.length = 3) :
    SuitSizes [f, g, h]

theorem suitSizes_of_isSth (hsth : isSth gs = true) (hlength : gs.flatten.length = 13) :
    SuitSizes gs := by
  obtain ⟨hsuits, hsizes⟩ := isSth_iff.1 hsth
  match gs, hsuits with
  | [g, h], _ =>
      simp only [List.forall_mem_cons, List.not_mem_nil, false_imp_iff, implies_true,
        and_true] at hsizes
      simp only [List.flatten_cons, List.flatten_nil, List.length_append,
        List.length_nil] at hlength
      have hcases : g.length = 10 ∧ h.length = 3 ∨ h.length = 10 ∧ g.length = 3 ∨
          g.length = 5 ∧ h.length = 8 ∨ g.length = 8 ∧ h.length = 5 := by omega
      rcases hcases with ⟨hg, hh⟩ | ⟨hg, hh⟩ | ⟨hg, hh⟩ | ⟨hg, hh⟩
      · exact .tenThree hg hh
      · exact .threeTen hg hh
      · exact .fiveEight hg hh
      · exact .eightFive hg hh
  | [f, g, h], _ =>
      simp only [List.forall_mem_cons, List.not_mem_nil, false_imp_iff, implies_true,
        and_true] at hsizes
      simp only [List.flatten_cons, List.flatten_nil, List.length_append,
        List.length_nil] at hlength
      have hcases : f.length = 3 ∧ g.length = 5 ∧ h.length = 5 ∨ f.length = 5 ∧ g.length = 3 ∧
          h.length = 5 ∨
          f.length = 5 ∧ g.length = 5 ∧ h.length = 3 := by omega
      rcases hcases with ⟨hf, hg, hh⟩ | ⟨hf, hg, hh⟩ | ⟨hf, hg, hh⟩
      · exact .first hg hh hf
      · exact .second hf hh hg
      · exact .third hf hg hh

/-- What the suits are put together to. -/
structure ShownFlushes (hand shown : List Card) : Prop where
  perm : shown.Perm hand
  first : Flush (shown.take 5)
  second : Flush ((shown.drop 5).take 5)
  third : Flush (shown.drop 10)

theorem shownFlushes_of_rows {a b c : List Card} (ha : a.length = 5) (hb : b.length = 5)
    (hfa : Flush a)
    (hfb : Flush b) (hfc : Flush c) (hperm : (a ++ b ++ c).Perm hand) :
    ShownFlushes hand (a ++ b ++ c) := by
  rw [List.append_assoc] at hperm ⊢
  refine ⟨hperm, ?_, ?_, ?_⟩
  · rwa [List.take_left' ha]
  · rwa [List.drop_left' ha, List.take_left' hb]
  · rwa [show 10 = 5 + 5 from rfl, ← List.drop_drop, List.drop_left' ha, List.drop_left' hb]

theorem threeFlushes_perm (hsizes : SuitSizes gs) : (threeFlushes gs).Perm gs.flatten := by
  cases hsizes with
  | tenThree hg hh => simp [threeFlushes, hg, hh]
  | threeTen hg hh => simpa [threeFlushes, hg, hh] using List.perm_append_comm
  | fiveEight hg hh => simp [threeFlushes, hg, hh]
  | eightFive hg hh => simp [threeFlushes, hg, hh]
  | @first f g h hf hg hh =>
      have hshown : threeFlushes [h, f, g] = f ++ g ++ h := by simp [threeFlushes, hf, hg, hh]
      rw [hshown]
      simpa using (List.perm_append_comm : (f ++ g ++ h).Perm (h ++ (f ++ g)))
  | @second f g h hf hg hh =>
      have hshown : threeFlushes [f, h, g] = f ++ (g ++ h) := by simp [threeFlushes, hf, hg, hh]
      rw [hshown]
      simpa using List.perm_append_comm.append_left f
  | third hf hg hh => simp [threeFlushes, hf, hg, hh]

/-- A suit of eight cards that is visited before one of five is torn apart; all other suits are
shown in rows. -/
theorem threeFlushes_shown (hsizes : SuitSizes gs) (hflush : ∀ g ∈ gs, Flush g)
    (horder : gs.map List.length ≠ [8, 5]) : ShownFlushes gs.flatten (threeFlushes gs) := by
  have hperm := threeFlushes_perm hsizes
  have hhalf : ∀ {g : List Card}, Flush g → Flush (g.take 5) ∧ Flush (g.drop 5) := fun hg =>
    ⟨hg.of_subset (List.take_subset _ _), hg.of_subset (List.drop_subset _ _)⟩
  cases hsizes with
  | @tenThree g h hg hh =>
      simp only [List.forall_mem_cons] at hflush
      have hshown : threeFlushes [g, h] = g.take 5 ++ g.drop 5 ++ h := by
        simp [threeFlushes, hg, hh]
      rw [hshown] at hperm ⊢
      exact shownFlushes_of_rows (by simp [hg]) (by simp [hg]) (hhalf hflush.1).1 (hhalf hflush.1).2
        hflush.2.1 hperm
  | @threeTen g h hg hh =>
      simp only [List.forall_mem_cons] at hflush
      have hshown : threeFlushes [h, g] = g.take 5 ++ g.drop 5 ++ h := by
        simp [threeFlushes, hg, hh]
      rw [hshown] at hperm ⊢
      exact shownFlushes_of_rows (by simp [hg])
        (by simp [hg]) (hhalf hflush.2.1).1 (hhalf hflush.2.1).2
        hflush.1 hperm
  | @fiveEight g h hg hh =>
      simp only [List.forall_mem_cons] at hflush
      have hshown : threeFlushes [g, h] = g ++ h.take 5 ++ h.drop 5 := by
        simp [threeFlushes, hg, hh]
      rw [hshown] at hperm ⊢
      exact shownFlushes_of_rows hg (by simp [hh]) hflush.1 (hhalf hflush.2.1).1
        (hhalf hflush.2.1).2 hperm
  | @eightFive g h hg hh => exact absurd (by simp [hg, hh]) horder
  | @first f g h hf hg hh =>
      simp only [List.forall_mem_cons] at hflush
      have hshown : threeFlushes [h, f, g] = f ++ g ++ h := by simp [threeFlushes, hf, hg, hh]
      rw [hshown] at hperm ⊢
      exact shownFlushes_of_rows hf hg hflush.2.1 hflush.2.2.1 hflush.1 hperm
  | @second f g h hf hg hh =>
      simp only [List.forall_mem_cons] at hflush
      have hshown : threeFlushes [f, h, g] = f ++ g ++ h := by simp [threeFlushes, hf, hg, hh]
      rw [hshown] at hperm ⊢
      exact shownFlushes_of_rows hf hg hflush.1 hflush.2.2.1 hflush.2.1 hperm
  | @third f g h hf hg hh =>
      simp only [List.forall_mem_cons] at hflush
      have hshown : threeFlushes [f, g, h] = f ++ g ++ h := by simp [threeFlushes, hf, hg, hh]
      rw [hshown] at hperm ⊢
      exact shownFlushes_of_rows hf hg hflush.1 hflush.2.1 hflush.2.2.1 hperm

theorem exists_shownFlushes (hsizes : SuitSizes gs) (hflush : ∀ g ∈ gs, Flush g) :
    ∃ shown, ShownFlushes gs.flatten shown := by
  by_cases horder : gs.map List.length = [8, 5]
  · cases hsizes with
    | @eightFive g h hg hh =>
        simp only [List.forall_mem_cons] at hflush
        refine ⟨_, @shownFlushes_of_rows _ h (g.take 5) (g.drop 5) hh (by simp [hg]) hflush.2.1
          (hflush.1.of_subset (List.take_subset _ _)) (hflush.1.of_subset (List.drop_subset _ _))
            ?_⟩
        rw [List.append_assoc, List.take_append_drop]
        simpa using List.perm_append_comm
    | tenThree hg hh | threeTen hg hh | fiveEight hg hh => simp [hg, hh] at horder
    | first hf hg hh | second hf hg hh | third hf hg hh => simp at horder
  · exact ⟨_, threeFlushes_shown hsizes hflush horder⟩

/-- A row of one suit has all or none of its cards in a given one. -/
theorem Flush.count_type {row : List Card} (hflush : Flush row) (t : Int) :
    (row.map Card.type).count t = 0 ∨ (row.map Card.type).count t = row.length := by
  match row with
  | [] => exact .inl rfl
  | c :: rest =>
      by_cases hc : c.type = t
      · refine .inr ?_
        rw [← List.length_map (f := Card.type), List.count_eq_length]
        intro s hs
        obtain ⟨d, hd, rfl⟩ := List.mem_map.1 hs
        rw [← hc]
        exact hflush c (List.mem_cons_self ..) d hd
      · refine .inl (List.count_eq_zero.2 fun hmem => hc ?_)
        obtain ⟨d, hd, rfl⟩ := List.mem_map.1 hmem
        exact hflush c (List.mem_cons_self ..) d hd

theorem flush_of_mem_blocks {g : List Card} (hg : g ∈ blocks Card.type cards) : Flush g :=
  fun _ hc _ hd => key_eq_of_mem_blocks hg hc hd

/-- The sizes of the suits tell whether a hand is made of three flushes. -/
theorem isSth_blocks_iff (hperm : cards.Perm hand) (hlength : hand.length = 13) :
    isSth (blocks Card.type cards) = true ↔ SplitsIntoFlushes hand := by
  have hflat := flatten_blocks_perm Card.type cards
  have hkinds : (blocks Card.type cards).length = (hand.map Card.type).dedup.length := by
    unfold blocks
    rw [List.length_map, (keys_perm Card.type cards).length_eq]
    exact ((hperm.map Card.type).dedup).length_eq
  constructor
  · intro hsth
    have hsizes := suitSizes_of_isSth hsth (by rw [hflat.length_eq, hperm.length_eq, hlength])
    refine ⟨hkinds ▸ (isSth_iff.1 hsth).1, ?_⟩
    have hflush : ∀ g ∈ blocks Card.type cards, Flush g := fun g hg => flush_of_mem_blocks hg
    obtain ⟨shown, hshown⟩ := exists_shownFlushes hsizes hflush
    have hall := hshown.perm.trans (hflat.trans hperm)
    have hsize := hall.length_eq
    rw [hlength] at hsize
    refine ⟨shown.take 5, (shown.drop 5).take 5, shown.drop 10,
      ⟨by simp; omega, by simp; omega, by simp; omega⟩,
      hshown.first, hshown.second, hshown.third, ?_⟩
    rw [List.append_assoc, show 10 = 5 + 5 from rfl, ← List.drop_drop, List.take_append_drop,
      List.take_append_drop]
    exact hall
  · rintro ⟨hsuits, a, b, c, ⟨ha, hb, hc⟩, hfa, hfb, hfc, hrows⟩
    refine isSth_iff.2 ⟨hkinds ▸ hsuits, fun g hg => ?_⟩
    have hpos := List.length_pos_of_ne_nil (ne_nil_of_mem_blocks hg)
    obtain ⟨t, -, rfl⟩ := mem_blocks.1 hg
    rw [length_block, (hperm.map Card.type).count_eq] at hpos ⊢
    have hcount : (hand.map Card.type).count t =
        (a.map Card.type).count t + (b.map Card.type).count t + (c.map Card.type).count t := by
      rw [← (hrows.map Card.type).count_eq, List.map_append, List.map_append, List.count_append,
        List.count_append]
    have hmixed : (hand.map Card.type).count t ≠ 13 := by
      intro hall
      rw [← hlength, ← List.length_map (f := Card.type), List.count_eq_length] at hall
      have hone : (hand.map Card.type).dedup ⊆ [t] := fun s hs =>
        List.mem_singleton.2 (hall s (List.mem_dedup.1 hs)).symm
      have hle := ((List.nodup_dedup _).subperm hone).length_le
      rw [List.length_singleton] at hle
      omega
    have h1 := hfa.count_type t
    have h2 := hfb.count_type t
    have h3 := hfc.count_type t
    omega

end Flushes

section Outcome

variable {pairs : List (List Card) → List (List Card)} {hand : List Card} {danse : Bool}

/-- The ways in which `checkSpecialSmall` returns. -/
inductive Outcome (pairs : List (List Card) → List (List Card)) (hand : List Card) (danse : Bool) :
    Option (Int × List Card) → Prop
  | oneSuit (hdragon : Dragon hand) (hflush : Flush hand) :
      Outcome pairs hand danse (some (13, Lua.tableSort sortDescent hand))
  | dragon (hdragon : Dragon hand) (hflush : ¬Flush hand) :
      Outcome pairs hand danse (some (12, Lua.tableSort sortDescent hand))
  | twoSixes (hdragon : ¬Dragon hand) (hsixes : TwoSixes hand) :
      Outcome pairs hand danse (some (-2, Lua.tableSort sortDescent hand))
  | six (hdragon : ¬Dragon hand) (hsixes : ¬TwoSixes hand) (hsix : SixOfAKind hand) :
      Outcome pairs hand danse (some (-1, Lua.tableSort sortDescent hand))
  | trips (hdragon : ¬Dragon hand) (hsix : ¬SixOfAKind hand)
      (htrips : 4 ≤ (valueCounts hand).sanNum) :
      Outcome pairs hand danse (some (5, Lua.tableSort sortDescent hand))
  | sixPairs (hdragon : ¬Dragon hand) (hsix : ¬SixOfAKind hand)
      (htrips : ¬4 ≤ (valueCounts hand).sanNum)
      (hpairs : 6 ≤ (valueCounts hand).duiNum) :
      Outcome pairs hand danse (some (3, Lua.tableSort sortDescent hand))
  | straights (hdragon : ¬Dragon hand) (hsix : ¬SixOfAKind hand)
      (htrips : ¬4 ≤ (valueCounts hand).sanNum)
      (hpairs : ¬6 ≤ (valueCounts hand).duiNum) {shown : List Card}
        (hshown : ShownStraights hand shown) :
      Outcome pairs hand danse (some (2, shown))
  | flushes (hdragon : ¬Dragon hand) (hsix : ¬SixOfAKind hand)
      (htrips : ¬4 ≤ (valueCounts hand).sanNum)
      (hpairs : ¬6 ≤ (valueCounts hand).duiNum) (hstraights : ¬SplitsIntoStraights hand)
      (hdanse : danse = false) (hflushes : SplitsIntoFlushes hand) :
      Outcome pairs hand danse
        (some (1, threeFlushes (pairs (blocks Card.type (Lua.tableSort sortDescent hand)))))
  | plain (hdragon : ¬Dragon hand) (hsix : ¬SixOfAKind hand)
      (htrips : ¬4 ≤ (valueCounts hand).sanNum)
      (hpairs : ¬6 ≤ (valueCounts hand).duiNum) (hstraights : ¬SplitsIntoStraights hand)
      (hflushes : ¬(danse = false ∧ SplitsIntoFlushes hand)) : Outcome pairs hand danse none

theorem TwoSixes.six (hsixes : TwoSixes hand) : SixOfAKind hand := by
  obtain ⟨u, -, -, hu, -⟩ := hsixes
  exact ⟨u, hu⟩

/-- The search for straights, when it is made at all, is exact on the sorted hand. -/
theorem straights_ok (hplain : ∀ c ∈ hand, Plain c) (hlength : hand.length = 13) :
    ∃ r, (if (valueCounts hand).ssz then threeStraights (Lua.tableSort sortDescent hand) else pure
      none) = .ok r ∧
      (∀ shown, r = some shown → ShownStraights hand shown) ∧
      (r = none → ¬SplitsIntoStraights hand) := by
  have hperm := Lua.tableSort_perm sortDescent hand
  by_cases hssz : (valueCounts hand).ssz = true
  · rw [if_pos hssz]
    obtain ⟨r, hr, hsome, hnone⟩ := @threeStraights_ok (Lua.tableSort sortDescent hand)
      (fun c hc => hplain c (hperm.subset hc)) (by rw [hperm.length_eq, hlength])
    refine ⟨r, hr, fun shown heq => ?_, fun heq hsplits => hnone heq ?_⟩
    · obtain ⟨hshown, hfirst, hsecond, hthird⟩ := hsome shown heq
      exact ⟨hshown.trans hperm, hfirst, hsecond, hthird⟩
    · obtain ⟨a, b, c, ha, hb, hc, habc⟩ := hsplits
      exact ⟨a, b, c, ha, hb, hc, habc.trans (values_sortDescent hand).2.symm⟩
  · rw [if_neg hssz]
    exact ⟨none, rfl, by simp, fun _ hsplits => hssz (ssz_of_splits hsplits)⟩

/-- What is returned after the search for straights. -/
def afterStraights (pairs : List (List Card) → List (List Card)) (hand : List Card) (danse : Bool)
    (straights : Option (List Card)) : Option (Int × List Card) :=
  match straights with
  | some found => some (2, found)
  | none =>
      if !danse && isSth (blocks Card.type (Lua.tableSort sortDescent hand)) then
        some (1, threeFlushes (pairs (blocks Card.type (Lua.tableSort sortDescent hand))))
      else none

theorem checkSpecialSmall_eq {first : Card}
    (hfirst : Lua.nth (Lua.tableSort sortDescent hand) 1 = some first) :
    checkSpecialSmall pairs hand danse =
      if isQys (Lua.tableSort sortDescent hand) first.type && isYtl
      (Lua.tableSort sortDescent hand) then
        .ok (some (13, Lua.tableSort sortDescent hand))
      else if isYtl (Lua.tableSort sortDescent hand) then .ok
      (some (12, Lua.tableSort sortDescent hand))
      else if (valueCounts hand).suangLiutong then .ok (some (-2, Lua.tableSort sortDescent hand))
      else if (valueCounts hand).liutong then .ok (some (-1, Lua.tableSort sortDescent hand))
      else if ¬(valueCounts hand).sanNum < 4 then .ok (some (5, Lua.tableSort sortDescent hand))
      else if ¬(valueCounts hand).duiNum < 6 then .ok (some (3, Lua.tableSort sortDescent hand))
      else (if (valueCounts hand).ssz then threeStraights (Lua.tableSort sortDescent hand) else
        pure none) >>=
        fun straights => .ok (afterStraights pairs hand danse straights) := by
  have hlast : ∀ straights : Option (List Card), (match straights with
      | some found => pure (some (2, found))
      | none => pure (if !danse && isSth (blocks Card.type (Lua.tableSort sortDescent hand)) then
          some (1, threeFlushes (pairs (blocks Card.type (Lua.tableSort sortDescent hand))))
            else none) :
      Lua (Option (Int × List Card))) = .ok (afterStraights pairs hand danse straights) := by
    rintro (_ | found)
    · rfl
    · rfl
  unfold checkSpecialSmall valueCounts
  simp only [Lua.elem, hfirst, Lua.need_some, Lua.ok_bind]
  generalize ((blocks Card.value (Lua.tableSort sortDescent hand)).map List.length).foldl
    ValueCounts.visit {} =
    counts
  iterate 6 refine ite_congr rfl (fun _ => rfl) fun _ => ?_
  cases counts.ssz with
  | true => exact bind_congr hlast
  | false => exact hlast none

theorem checkSpecialSmall_outcome (hplain : ∀ c ∈ hand, Plain c)
    (hrange : ∀ v ∈ values hand, 1 ≤ v ∧ v ≤ 13) (hlength : hand.length = 13) :
    ∃ r, checkSpecialSmall pairs hand danse = .ok r ∧ Outcome pairs hand danse r := by
  have hperm := Lua.tableSort_perm sortDescent hand
  obtain ⟨first, hfirst⟩ := @Lua.exists_nth _ (Lua.tableSort sortDescent hand) 1 (by decide)
    (by rw [hperm.length_eq]; omega)
  have hytl := isYtl_sorted_iff hrange hlength
  have hqys := @isQys_iff hand _ first (hperm.subset (Lua.mem_of_nth hfirst)) hperm
  have hsth := @isSth_blocks_iff hand _ hperm hlength
  have hliutong := liutong_iff hand
  have hsuang := suangLiutong_iff hand
  obtain ⟨r, hr, hsome, hnone⟩ := straights_ok hplain hlength
  have hboth : (isQys (Lua.tableSort sortDescent hand) first.type &&
      isYtl (Lua.tableSort sortDescent hand)) =
      true ↔ Flush hand ∧ Dragon hand := by
    rw [Bool.and_eq_true, hqys, hytl]
  rw [checkSpecialSmall_eq hfirst, hr, Lua.ok_bind]
  by_cases hdragon : Dragon hand
  · have hrises := hytl.2 hdragon
    by_cases hflush : Flush hand
    · rw [if_pos (hboth.2 ⟨hflush, hdragon⟩)]
      exact ⟨_, rfl, .oneSuit hdragon hflush⟩
    · rw [if_neg fun h => hflush (hboth.1 h).1, if_pos hrises]
      exact ⟨_, rfl, .dragon hdragon hflush⟩
  rw [if_neg fun h => hdragon (hboth.1 h).2, if_neg fun h => hdragon (hytl.1 h)]
  by_cases hsixes : TwoSixes hand
  · rw [if_pos (hsuang.2 hsixes)]
    exact ⟨_, rfl, .twoSixes hdragon hsixes⟩
  rw [if_neg fun h => hsixes (hsuang.1 h)]
  by_cases hsix : SixOfAKind hand
  · rw [if_pos (hliutong.2 hsix)]
    exact ⟨_, rfl, .six hdragon hsixes hsix⟩
  rw [if_neg fun h => hsix (hliutong.1 h)]
  by_cases htrips : 4 ≤ (valueCounts hand).sanNum
  · rw [if_pos (not_lt.2 htrips)]
    exact ⟨_, rfl, .trips hdragon hsix htrips⟩
  rw [if_neg (not_not.2 (not_le.1 htrips))]
  by_cases hpairs : 6 ≤ (valueCounts hand).duiNum
  · rw [if_pos (not_lt.2 hpairs)]
    exact ⟨_, rfl, .sixPairs hdragon hsix htrips hpairs⟩
  rw [if_neg (not_not.2 (not_le.1 hpairs))]
  cases r with
  | some shown => exact ⟨_, rfl, .straights hdragon hsix htrips hpairs (hsome shown rfl)⟩
  | none =>
      have hstraights := hnone rfl
      by_cases hflushes : danse = false ∧ SplitsIntoFlushes hand
      · obtain ⟨rfl, hflushes⟩ := hflushes
        refine ⟨_, ?_, .flushes hdragon hsix htrips hpairs hstraights rfl hflushes⟩
        unfold afterStraights
        rw [hsth.2 hflushes]
        rfl
      · refine ⟨none, ?_, .plain hdragon hsix htrips hpairs hstraights hflushes⟩
        have hnot : (!danse && isSth (blocks Card.type (Lua.tableSort sortDescent hand))) =
            false := by
          rw [Bool.and_eq_false_iff, Bool.not_eq_false', ← Bool.not_eq_true, hsth]
          by_contra hboth
          push Not at hboth
          exact hflushes ⟨by simpa using hboth.1, hboth.2⟩
        unfold afterStraights
        rw [hnot]
        rfl

/-- **`checkSpecialSmall` returns the first pattern that a hand follows**, and nothing when it
follows none. -/
theorem checkSpecialSmall_exact (hplain : ∀ c ∈ hand, Plain c)
    (hrange : ∀ c ∈ hand, 1 ≤ c.value ∧ c.value ≤ 13) (hlength : hand.length = 13)
    (hsix : ∀ v, (values hand).count v ≤ 6) :
    ∃ r, checkSpecialSmall pairs hand danse = .ok r ∧ FirstOf (patterns danse hand)
    (r.map Prod.fst) := by
  have hvalues : ∀ v ∈ values hand, 1 ≤ v ∧ v ≤ 13 := by
    intro v hv
    obtain ⟨c, hc, rfl⟩ := List.mem_map.1 hv
    exact hrange c hc
  obtain ⟨r, hr, houtcome⟩ := @checkSpecialSmall_outcome pairs hand danse hplain hvalues hlength
  refine ⟨r, hr, ?_⟩
  simp only [patterns, FirstOf]
  cases houtcome with
  | oneSuit hdragon hflush => exact .inl ⟨⟨hdragon, hflush⟩, rfl⟩
  | dragon hdragon hflush => exact .inr ⟨fun h => hflush h.2, .inl ⟨hdragon, rfl⟩⟩
  | twoSixes hdragon hsixes => exact .inr ⟨fun h => hdragon h.1, .inr ⟨hdragon, .inl ⟨hsixes, rfl⟩⟩⟩
  | six hdragon hsixes hsix' =>
      exact .inr ⟨fun h => hdragon h.1, .inr ⟨hdragon, .inr ⟨hsixes, .inl ⟨hsix', rfl⟩⟩⟩⟩
  | trips hdragon hnone htrips =>
      refine .inr ⟨fun h => hdragon h.1,
        .inr ⟨hdragon, .inr ⟨fun h => hnone h.six, .inr ⟨hnone, .inl ⟨?_, rfl⟩⟩⟩⟩⟩
      exact ((sets_iff hsix hnone).1 4).1 htrips
  | sixPairs hdragon hnone htrips hpairs =>
      obtain ⟨hthree, htwo⟩ := sets_iff hsix hnone
      exact .inr ⟨fun h => hdragon h.1, .inr ⟨hdragon, .inr ⟨fun h => hnone h.six, .inr ⟨hnone,
        .inr ⟨fun h => htrips ((hthree 4).2 h), .inl ⟨(htwo 6).1 hpairs, rfl⟩⟩⟩⟩⟩⟩
  | straights hdragon hnone htrips hpairs hshown =>
      obtain ⟨hthree, htwo⟩ := sets_iff hsix hnone
      exact .inr ⟨fun h => hdragon h.1, .inr ⟨hdragon, .inr ⟨fun h => hnone h.six, .inr ⟨hnone,
        .inr ⟨fun h => htrips ((hthree 4).2 h), .inr ⟨fun h => hpairs ((htwo 6).2 h),
          .inl ⟨hshown.splits, rfl⟩⟩⟩⟩⟩⟩⟩
  | flushes hdragon hnone htrips hpairs hstraights hdanse hflushes =>
      obtain ⟨hthree, htwo⟩ := sets_iff hsix hnone
      exact .inr ⟨fun h => hdragon h.1, .inr ⟨hdragon, .inr ⟨fun h => hnone h.six, .inr ⟨hnone,
        .inr ⟨fun h => htrips ((hthree 4).2 h), .inr ⟨fun h => hpairs ((htwo 6).2 h),
          .inr ⟨hstraights, .inl ⟨⟨hdanse, hflushes⟩, rfl⟩⟩⟩⟩⟩⟩⟩⟩
  | plain hdragon hnone htrips hpairs hstraights hflushes =>
      obtain ⟨hthree, htwo⟩ := sets_iff hsix hnone
      exact .inr ⟨fun h => hdragon h.1, .inr ⟨hdragon, .inr ⟨fun h => hnone h.six, .inr ⟨hnone,
        .inr ⟨fun h => htrips ((hthree 4).2 h), .inr ⟨fun h => hpairs ((htwo 6).2 h),
          .inr ⟨hstraights, .inr ⟨hflushes, rfl⟩⟩⟩⟩⟩⟩⟩⟩

/-- A hand with six pairs, two of them of one value. -/
def sixPairsHand : List Card :=
  [⟨4, 13, none, none⟩, ⟨4, 4, none, none⟩, ⟨4, 1, none, none⟩, ⟨2, 11, none, none⟩,
    ⟨4, 4, none, none⟩,
    ⟨3, 4, none, none⟩, ⟨3, 7, none, none⟩, ⟨4, 11, none, none⟩, ⟨3, 4, none, none⟩,
      ⟨4, 1, none, none⟩,
    ⟨2, 13, none, none⟩, ⟨1, 7, none, none⟩, ⟨1, 4, none, none⟩]

theorem checkSpecialSmall_exact_sixPairsHand :
    ∃ r, checkSpecialSmall id sixPairsHand false = .ok r ∧
      FirstOf (patterns false sixPairsHand) (r.map Prod.fst) := by
  refine checkSpecialSmall_exact (by decide) (by decide) rfl fun v => ?_
  by_cases hv : v ∈ values sixPairsHand
  · exact (by decide : ∀ v ∈ values sixPairsHand, (values sixPairsHand).count v ≤ 6) v hv
  · rw [List.count_eq_zero.2 hv]
    decide

end Outcome

end SdyServer.Daboluo
