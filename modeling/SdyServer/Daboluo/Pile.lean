import SdyServer.Daboluo.Category
import SdyServer.Daboluo.Groups
import SdyServer.Lib.Blocks

/-!
# What is in a pile

`getGroupCards` walks a pile from its low end. Without jokers it collects the blocks of equal values
by their size, and the runs of consecutive values that are long enough for a straight.
-/

namespace SdyServer.Daboluo

open Blocks

/-- The cards in the order of the walk. -/
def pile (cards : List Card) : List Card := (Lua.tableSort sortRise cards).reverse

def NoJokers (cards : List Card) : Prop := ∀ c ∈ cards, c.type ≠ 5

/-- The groups of `n` cards, where five stands for five and more. -/
def GroupCards.rows (g : GroupCards) (n : Nat) : List (List Card) :=
  match n with
  | 1 => g.wlArr.map fun c => [c]
  | 2 => g.dzArr.map fun d => [d.1, d.2]
  | 3 => g.stArr.map Three.toList
  | 4 => g.tzArr.map fun q => [q.1, q.2.1, q.2.2.1, q.2.2.2]
  | 5 => g.wtArr.map Five.toList
  | _ => []

/-- What is kept of blocks as groups of `n` cards. -/
def grouped (bs : List (List Card)) (n : Nat) : List (List Card) :=
  (bs.filter fun b => 0 < n ∧ min b.length 5 = n).map (List.take 5)

theorem mem_grouped {bs : List (List Card)} {n : Nat} {p : List Card} :
    p ∈ grouped bs n ↔ ∃ b ∈ bs, (0 < n ∧ min b.length 5 = n) ∧ b.take 5 = p := by
  unfold grouped
  simp only [List.mem_map, List.mem_filter, decide_eq_true_eq, and_assoc]

section Walk

variable {cards l : List Card}

theorem pile_perm (cards : List Card) : (pile cards).Perm cards :=
  (List.reverse_perm _).trans (Lua.tableSort_perm _ _)

theorem mem_pile {c : Card} : c ∈ pile cards ↔ c ∈ cards := (pile_perm cards).mem_iff

theorem pairwise_pile (cards : List Card) : (pile cards).Pairwise fun a b => a.value ≤ b.value := by
  unfold pile
  rw [List.pairwise_reverse]
  refine (pairwise_sortRise cards).imp ?_
  rintro a b (hlt | ⟨heq, -⟩)
  · exact hlt.le
  · exact heq.ge

theorem NoJokers.subset {cards' : List Card} (hplain : NoJokers cards) (hsubset : cards' ⊆ cards) :
    NoJokers cards' := fun c hc => hplain c (hsubset hc)

def isOrdinary (c : Card) : Bool := c.type ≠ 5

/-- The cards of the walk. -/
def ordinaryPile (cards : List Card) : List Card := (pile cards).filter isOrdinary

theorem getVariety_fst (cards : List Card) : (getVariety cards).1.reverse = ordinaryPile cards := by
  unfold getVariety ordinaryPile pile
  rw [List.partition_eq_filter_filter, List.filter_reverse]
  rfl

theorem pairwise_ordinaryPile (cards : List Card) :
    (ordinaryPile cards).Pairwise fun a b => a.value ≤ b.value :=
  (pairwise_pile cards).filter _

theorem NoJokers.ordinaryPile_eq (hplain : NoJokers cards) : ordinaryPile cards = pile cards :=
  List.filter_eq_self.2 fun c hc => decide_eq_true (hplain c (mem_pile.1 hc))

theorem getVariety_eq (hplain : NoJokers cards) :
    getVariety cards = (Lua.tableSort sortRise cards, []) := by
  unfold getVariety
  rw [List.partition_eq_filter_filter]
  congr 1
  · exact List.filter_eq_self.2 fun c hc => decide_eq_true (hplain c (Lua.mem_tableSort.1 hc))
  · refine List.filter_eq_nil_iff.2 fun c hc => ?_
    simp [hplain c (Lua.mem_tableSort.1 hc)]

/-- What the walk does to the current run at the card `c`. -/
def turn (g : GroupCards) (sArr : List Card) (c : Card) : GroupCards × List Card :=
  match sArr.getLast? with
  | none => (g, sArr)
  | some last =>
      if last.value = c.value then (g, sArr.dropLast)
      else if last.value + 1 ≠ c.value then (g.closeRun sArr, [])
      else (g, sArr)

theorem getGroupCardsFrom_cons (g : GroupCards) (prev : Option Card) (sArr : List Card) (c : Card)
    (rest : List Card) :
    getGroupCardsFrom g prev sArr (c :: rest) =
      getGroupCardsFrom
        (if prev.map Card.value = some c.value then (turn g sArr c).1
          else (turn g sArr c).1.collect c rest)
        (some c) ((turn g sArr c).2 ++ [c]) rest := by
  rw [getGroupCardsFrom]
  rfl

theorem GroupCards.rows_closeRun (g : GroupCards) (sArr : List Card) (n : Nat) :
    (g.closeRun sArr).rows n = g.rows n := by
  unfold GroupCards.closeRun
  split_ifs <;> rfl

theorem rows_turn (g : GroupCards) (sArr : List Card) (c : Card) (n : Nat) :
    (turn g sArr c).1.rows n = g.rows n := by
  unfold turn
  split
  · rfl
  · split_ifs
    · rfl
    · exact g.rows_closeRun sArr n
    · rfl

theorem block_cons_of_lt {c : Card} {rest : List Card} (hlt : ∀ d ∈ rest, c.value < d.value) :
    block Card.value (c :: rest) c.value = [c] := by
  unfold block
  rw [List.filter_cons_of_pos (by simp)]
  congr 1
  refine List.filter_eq_nil_iff.2 fun d hd => ?_
  simpa using (hlt d hd).ne'

theorem block_cons_of_eq {c d : Card} {rest : List Card} (heq : c.value = d.value) :
    block Card.value (c :: d :: rest) c.value = c :: block Card.value (d :: rest) d.value := by
  unfold block
  rw [List.filter_cons_of_pos (by simp), heq]

theorem lt_of_sorted {c d : Card} {rest : List Card}
    (hsorted : (c :: d :: rest).Pairwise fun a b => a.value ≤ b.value) (hne : c.value ≠ d.value) :
    ∀ x ∈ d :: rest, c.value < x.value := by
  obtain ⟨hle, hrest⟩ := List.pairwise_cons.1 hsorted
  have hlt : c.value < d.value := lt_of_le_of_ne (hle d (List.mem_cons_self ..)) hne
  refine List.forall_mem_cons.2 ⟨hlt, fun x hx => ?_⟩
  exact hlt.trans_le ((List.pairwise_cons.1 hrest).1 x hx)

/-- At the lowest card of a value the walk keeps the block of that value, by its size. -/
theorem GroupCards.rows_collect (g : GroupCards) {c : Card} {rest : List Card}
    (hsorted : (c :: rest).Pairwise fun a b => a.value ≤ b.value) (n : Nat) :
    (g.collect c rest).rows n =
      g.rows n ++ grouped [block Card.value (c :: rest) c.value] n := by
  have hnil : ∀ d : Card, block Card.value [d] d.value = [d] := fun d =>
    block_cons_of_lt fun x hx => absurd hx List.not_mem_nil
  -- the cases follow the cards that have the value of the first one
  match rest, hsorted with
  | [], _ =>
      rw [hnil]
      match n with
      | 0 | 1 | 2 | 3 | 4 | 5 | n + 6 => simp [GroupCards.collect, GroupCards.rows, grouped]
  | c1 :: rest1, hsorted =>
      by_cases h1 : c.value = c1.value
      · have hsorted1 := (List.pairwise_cons.1 hsorted).2
        rw [block_cons_of_eq h1]
        match rest1, hsorted1 with
        | [], _ =>
            rw [hnil]
            match n with
            | 0 | 1 | 2 | 3 | 4 | 5 | n + 6 =>
                simp [GroupCards.collect, h1, GroupCards.rows, grouped]
        | c2 :: rest2, hsorted1 =>
            by_cases h2 : c1.value = c2.value
            · have hsorted2 := (List.pairwise_cons.1 hsorted1).2
              rw [block_cons_of_eq h2]
              match rest2, hsorted2 with
              | [], _ =>
                  rw [hnil]
                  match n with
                  | 0 | 1 | 2 | 3 | 4 | 5 | n + 6 =>
                      simp [GroupCards.collect, h1, h2, GroupCards.rows, grouped, Three.toList]
              | c3 :: rest3, hsorted2 =>
                  by_cases h3 : c2.value = c3.value
                  · have hsorted3 := (List.pairwise_cons.1 hsorted2).2
                    rw [block_cons_of_eq h3]
                    match rest3, hsorted3 with
                    | [], _ =>
                        rw [hnil]
                        match n with
                        | 0 | 1 | 2 | 3 | 4 | 5 | n + 6 =>
                            simp [GroupCards.collect, h1, h2, h3, GroupCards.rows, grouped]
                    | c4 :: rest4, hsorted3 =>
                        by_cases h4 : c3.value = c4.value
                        · have hblock : block Card.value (c4 :: rest4) c4.value =
                              c4 :: rest4.filter fun d => d.value = c4.value :=
                            List.filter_cons_of_pos (by simp)
                          rw [block_cons_of_eq h4, hblock]
                          match n with
                          | 0 | 1 | 2 | 3 | 4 | 5 | n + 6 =>
                              simp [GroupCards.collect, h1, h2, h3, h4, GroupCards.rows, grouped,
                                Five.toList]
                        · rw [block_cons_of_lt (lt_of_sorted hsorted3 h4)]
                          match n with
                          | 0 | 1 | 2 | 3 | 4 | 5 | n + 6 =>
                              simp [GroupCards.collect, h1, h2, h3, h4, GroupCards.rows, grouped]
                  · rw [block_cons_of_lt (lt_of_sorted hsorted2 h3)]
                    match rest3, hsorted2 with
                    | [], _ =>
                        match n with
                        | 0 | 1 | 2 | 3 | 4 | 5 | n + 6 =>
                            simp [GroupCards.collect, h1, h2, h3, GroupCards.rows, grouped,
                              Three.toList]
                    | d :: _, hsorted2 =>
                        have hne : c2.value ≠ d.value := (lt_of_sorted hsorted2 h3 d (by simp)).ne
                        match n with
                        | 0 | 1 | 2 | 3 | 4 | 5 | n + 6 =>
                            simp [GroupCards.collect, h1, h2, h3, hne, GroupCards.rows, grouped,
                              Three.toList]
            · rw [block_cons_of_lt (lt_of_sorted hsorted1 h2)]
              match n with
              | 0 | 1 | 2 | 3 | 4 | 5 | n + 6 =>
                  simp [GroupCards.collect, h1, h2, GroupCards.rows, grouped]
      · rw [block_cons_of_lt (lt_of_sorted hsorted h1)]
        match n with
        | 0 | 1 | 2 | 3 | 4 | 5 | n + 6 => simp [GroupCards.collect, h1, GroupCards.rows, grouped]

theorem rows_getGroupCardsFrom {g : GroupCards} {prev : Option Card} {sArr : List Card}
    (hsorted : l.Pairwise fun a b => a.value ≤ b.value)
    (hprev : ∀ p ∈ prev, ∀ d ∈ l, p.value ≤ d.value) (n : Nat) :
    (getGroupCardsFrom g prev sArr l).rows n =
      g.rows n ++ grouped
      (blocks Card.value (l.filter fun d => prev.map Card.value ≠ some d.value)) n := by
  induction l generalizing g prev sArr with
  | nil =>
      rw [getGroupCardsFrom, g.rows_closeRun]
      exact (List.append_nil _).symm
  | cons c rest ih =>
      obtain ⟨hle, hrest⟩ := List.pairwise_cons.1 hsorted
      have hafter : (rest.filter fun d => (some c).map Card.value ≠ some d.value) =
          rest.filter fun d => d.value ≠ c.value :=
        List.filter_congr fun d _ => by simp [eq_comm]
      rw [getGroupCardsFrom_cons, ih hrest fun p hp d hd => by
        rw [Option.mem_some_iff] at hp
        exact hp ▸ hle d hd, hafter]
      split_ifs with heq
      · -- a card of the value before it
        rw [rows_turn, List.filter_cons_of_neg (by simp [heq]), heq]
        simp only [ne_eq, Option.some.injEq, eq_comm]
      · have hkeep : ((c :: rest).filter fun d => prev.map Card.value ≠ some d.value) =
            c :: rest := by
          refine List.filter_eq_self.2 fun d hd => decide_eq_true fun hsame => heq ?_
          obtain ⟨p, hp, hvalue⟩ := Option.map_eq_some_iff.1 hsame
          have hpc := hprev p hp c (List.mem_cons_self ..)
          have hcd : c.value ≤ d.value := by
            rcases List.mem_cons.1 hd with rfl | hd
            · exact le_rfl
            · exact hle d hd
          rw [hp]
          exact congrArg some (by omega)
        rw [hkeep, GroupCards.rows_collect _ hsorted, rows_turn, blocks_cons, List.append_assoc]
        congr 1
        unfold grouped
        rw [← List.map_append, ← List.filter_append]
        rfl

theorem rows_getGroupCards_any (cards : List Card) (n : Nat) :
    (getGroupCards cards).rows n = grouped (blocks Card.value (ordinaryPile cards)) n := by
  show (getGroupCardsFrom _ none [] (getVariety cards).1.reverse).rows n = _
  rw [getVariety_fst, rows_getGroupCardsFrom (pairwise_ordinaryPile cards) (by simp)]
  have hempty : ∀ cardsArr vArr, ({ cardsArr, vArr } : GroupCards).rows n = [] := by
    intro cardsArr vArr
    match n with
    | 0 | 1 | 2 | 3 | 4 | 5 | n + 6 => rfl
  rw [hempty, List.nil_append]
  congr 2
  exact List.filter_eq_self.2 fun d _ => by simp

theorem rows_getGroupCards (hplain : NoJokers cards) (n : Nat) :
    (getGroupCards cards).rows n = grouped (blocks Card.value (pile cards)) n := by
  rw [rows_getGroupCards_any, hplain.ordinaryPile_eq]

theorem collect_piles (g : GroupCards) (c : Card) (rest : List Card) :
    (g.collect c rest).szArr = g.szArr ∧ (g.collect c rest).vArr = g.vArr ∧
      (g.collect c rest).cardsArr = g.cardsArr := by
  unfold GroupCards.collect
  split
  · exact ⟨rfl, rfl, rfl⟩
  · split_ifs
    · split
      · split_ifs
        · split
          · split_ifs <;> exact ⟨rfl, rfl, rfl⟩
          · split_ifs <;> exact ⟨rfl, rfl, rfl⟩
          · exact ⟨rfl, rfl, rfl⟩
        · exact ⟨rfl, rfl, rfl⟩
      · exact ⟨rfl, rfl, rfl⟩
    · exact ⟨rfl, rfl, rfl⟩

/-- A run that is kept. -/
def kept (sArr : List Card) : List (List Card) := if sArr.length > 4 then [sArr] else []

/-- The runs of the walk. -/
def runsFrom (sArr : List Card) : List Card → List (List Card)
  | [] => kept sArr
  | c :: rest => (turn {} sArr c).1.szArr ++ runsFrom ((turn {} sArr c).2 ++ [c]) rest

theorem closeRun_piles (g : GroupCards) (sArr : List Card) :
    (g.closeRun sArr).szArr = g.szArr ++ kept sArr ∧ (g.closeRun sArr).vArr = g.vArr ∧
      (g.closeRun sArr).cardsArr = g.cardsArr := by
  unfold GroupCards.closeRun kept
  split_ifs
  · exact ⟨rfl, rfl, rfl⟩
  · exact ⟨(List.append_nil _).symm, rfl, rfl⟩

theorem turn_piles (g : GroupCards) (sArr : List Card) (c : Card) :
    (turn g sArr c).1.szArr = g.szArr ++ (turn {} sArr c).1.szArr ∧
    (turn g sArr c).1.vArr = g.vArr ∧
      (turn g sArr c).1.cardsArr = g.cardsArr ∧ (turn g sArr c).2 = (turn {} sArr c).2 := by
  unfold turn
  split
  · exact ⟨(List.append_nil _).symm, rfl, rfl, rfl⟩
  · split_ifs
    · exact ⟨(List.append_nil _).symm, rfl, rfl, rfl⟩
    · obtain ⟨hruns, hvArr, hcards⟩ := closeRun_piles g sArr
      refine ⟨?_, hvArr, hcards, rfl⟩
      rw [hruns, (closeRun_piles {} sArr).1]
      rfl
    · exact ⟨(List.append_nil _).symm, rfl, rfl, rfl⟩

theorem getGroupCardsFrom_piles (g : GroupCards) (prev : Option Card) (sArr : List Card) :
    (getGroupCardsFrom g prev sArr l).szArr = g.szArr ++ runsFrom sArr l ∧
      (getGroupCardsFrom g prev sArr l).vArr = g.vArr ∧
        (getGroupCardsFrom g prev sArr l).cardsArr = g.cardsArr := by
  induction l generalizing g prev sArr with
  | nil => exact closeRun_piles g sArr
  | cons c rest ih =>
      obtain ⟨hruns, hvArr, hcards, hrun⟩ := turn_piles g sArr c
      rw [getGroupCardsFrom_cons]
      set g' := if prev.map Card.value = some c.value then (turn g sArr c).1
        else (turn g sArr c).1.collect c rest with hg'
      have hg : g'.szArr = (turn g sArr c).1.szArr ∧ g'.vArr = (turn g sArr c).1.vArr ∧
          g'.cardsArr = (turn g sArr c).1.cardsArr := by
        rw [hg']
        split_ifs
        · exact ⟨rfl, rfl, rfl⟩
        · exact collect_piles _ c rest
      obtain ⟨hruns', hvArr', hcards'⟩ := ih g' (some c) ((turn g sArr c).2 ++ [c])
      refine ⟨?_, ?_, ?_⟩
      · rw [hruns', hg.1, hruns, hrun, runsFrom, List.append_assoc]
      · rw [hvArr', hg.2.1, hvArr]
      · rw [hcards', hg.2.2, hcards]

theorem getGroupCards_piles_any (cards : List Card) :
    (getGroupCards cards).szArr = runsFrom [] (ordinaryPile cards) ∧
      (getGroupCards cards).vArr = (getVariety cards).2 ∧ (getGroupCards cards).cardsArr =
      (getVariety cards).1 := by
  rw [← getVariety_fst]
  exact getGroupCardsFrom_piles _ none []

theorem getGroupCards_piles (hplain : NoJokers cards) :
    (getGroupCards cards).szArr = runsFrom [] (pile cards) ∧ (getGroupCards cards).vArr = [] ∧
      (getGroupCards cards).cardsArr = Lua.tableSort sortRise cards := by
  have hpiles := getGroupCards_piles_any cards
  rwa [hplain.ordinaryPile_eq, getVariety_eq hplain] at hpiles

end Walk

section Runs

variable {l : List Card}

/-- Cards of consecutive values, the lowest one of value `b`. -/
def Run (b : Int) (s : List Card) : Prop :=
  values s = (List.range s.length).map fun (i : Nat) => b + i

theorem Run.concat_iff {b : Int} {s : List Card} {c : Card} :
    Run b (s ++ [c]) ↔ Run b s ∧ c.value = b + s.length := by
  unfold Run values
  rw [List.length_append, List.length_singleton, List.range_succ, List.map_append, List.map_append]
  constructor
  · intro h
    obtain ⟨hs, hc⟩ := List.append_inj h (by simp)
    exact ⟨hs, by simpa using hc⟩
  · rintro ⟨hs, hc⟩
    rw [hs, List.map_singleton, List.map_singleton, hc]

theorem Run.mem_values {b : Int} {s : List Card} (hrun : Run b s) {v : Int} :
    v ∈ values s ↔ b ≤ v ∧ v < b + s.length := by
  rw [hrun, List.mem_map]
  constructor
  · rintro ⟨i, hi, rfl⟩
    have := List.mem_range.1 hi
    omega
  · rintro ⟨hle, hlt⟩
    exact ⟨(v - b).toNat, List.mem_range.2 (by omega), by omega⟩

/-- What the walk makes of the run `s ++ [last]` at the next card. -/
theorem turn_concat (s : List Card) (last c : Card) :
    turn {} (s ++ [last]) c =
      if last.value = c.value then ({}, s)
      else if last.value + 1 ≠ c.value then (({} : GroupCards).closeRun (s ++ [last]), [])
      else ({}, s ++ [last]) := by
  unfold turn
  rw [List.getLast?_concat, List.dropLast_concat]

/-- The next card goes on with the run, or it lies behind a gap. -/
theorem runsFrom_cons {s : List Card} {b : Int} (hrun : Run b s) (c : Card) (rest : List Card) :
    (∃ b' s', s'.Sublist s ∧ Run b' (s' ++ [c]) ∧
      (∀ v ∈ values s, v ∈ values (s' ++ [c])) ∧
        runsFrom s (c :: rest) = runsFrom (s' ++ [c]) rest) ∨
    ∃ last ∈ s, last.value + 1 = b + s.length ∧ last.value ≠ c.value ∧ last.value + 1 ≠ c.value ∧
      runsFrom s (c :: rest) = kept s ++ runsFrom [c] rest := by
  rcases List.eq_nil_or_concat s with rfl | ⟨s', last, rfl⟩
  · refine .inl ⟨c.value, [], List.Sublist.refl _, ?_, by simp [values], rfl⟩
    unfold Run values
    simp
  · rw [List.concat_eq_append] at hrun ⊢
    obtain ⟨hrun', hlast⟩ := Run.concat_iff.1 hrun
    rw [runsFrom, turn_concat]
    split_ifs with heq hgap
    · refine .inl ⟨b, s', List.sublist_append_left .., Run.concat_iff.2 ⟨hrun', heq ▸ hlast⟩, ?_,
        rfl⟩
      intro v hv
      simpa [values, heq] using hv
    · refine .inr ⟨last, by simp, ?_, heq, hgap, ?_⟩
      · rw [List.length_append, List.length_singleton, hlast]
        push_cast
        omega
      · rw [(closeRun_piles {} (s' ++ [last])).1]
        rfl
    · refine .inl ⟨b, s' ++ [last], List.Sublist.refl _, ?_, ?_, rfl⟩
      · rw [Run.concat_iff, List.length_append, List.length_singleton]
        push_cast
        exact ⟨hrun, by omega⟩
      · intro v hv
        unfold values at hv ⊢
        rw [List.map_append]
        exact List.mem_append_left _ hv

theorem mem_kept {s run : List Card} : run ∈ kept s ↔ run = s ∧ 4 < s.length := by
  unfold kept
  split_ifs with hlong
  · simp [hlong]
  · simp [hlong]

theorem run_singleton (c : Card) : Run c.value [c] := by
  unfold Run values
  simp

/-- Every run that is kept has consecutive values. -/
theorem runsFrom_sound {s : List Card} {b : Int} (hrun : Run b s) {run : List Card}
    (hmem : run ∈ runsFrom s l) : (∃ b, Run b run) ∧ 4 < run.length ∧ ∀ x ∈ run, x ∈ s ∨ x ∈ l := by
  induction l generalizing s b with
  | nil =>
      obtain ⟨rfl, hlong⟩ := mem_kept.1 hmem
      exact ⟨⟨b, hrun⟩, hlong, fun x hx => .inl hx⟩
  | cons c rest ih =>
      rcases runsFrom_cons hrun c rest with ⟨b', s', hsub, hrun', -, heq⟩ | ⟨last, -, -, -, -, heq⟩
      · rw [heq] at hmem
        obtain ⟨hconsec, hlong, hfrom⟩ := ih hrun' hmem
        refine ⟨hconsec, hlong, fun x hx => ?_⟩
        rcases hfrom x hx with hx | hx
        · rcases List.mem_append.1 hx with hx | hx
          · exact .inl (hsub.subset hx)
          · exact .inr (List.mem_singleton.1 hx ▸ List.mem_cons_self ..)
        · exact .inr (List.mem_cons_of_mem _ hx)
      · rw [heq, List.mem_append] at hmem
        rcases hmem with hmem | hmem
        · obtain ⟨rfl, hlong⟩ := mem_kept.1 hmem
          exact ⟨⟨b, hrun⟩, hlong, fun x hx => .inl hx⟩
        · obtain ⟨hconsec, hlong, hfrom⟩ := ih (run_singleton c) hmem
          refine ⟨hconsec, hlong, fun x hx => .inr ?_⟩
          rcases hfrom x hx with hx | hx
          · exact List.mem_singleton.1 hx ▸ List.mem_cons_self ..
          · exact List.mem_cons_of_mem _ hx

theorem Run.long {s : List Card} {b w : Int} (hrun : Run b s) (hlow : w ∈ values s)
    (hhigh : w + 4 ∈ values s) : 4 < s.length := by
  have := hrun.mem_values.1 hlow
  have := hrun.mem_values.1 hhigh
  omega

/-- Five consecutive values that occur lie in one run. -/
theorem runsFrom_complete {s : List Card} {b : Int} (hrun : Run b s)
    (hsorted : (s ++ l).Pairwise fun a b => a.value ≤ b.value) {w : Int}
    (hmem : ∀ v, w ≤ v → v ≤ w + 4 → v ∈ values (s ++ l)) :
    ∃ run ∈ runsFrom s l, ∀ v, w ≤ v → v ≤ w + 4 → v ∈ values run := by
  induction l generalizing s b with
  | nil =>
      rw [List.append_nil] at hmem
      have hlong := hrun.long (hmem w (by omega) (by omega)) (hmem (w + 4) (by omega) (by omega))
      exact ⟨s, mem_kept.2 ⟨rfl, hlong⟩, hmem⟩
  | cons c rest ih =>
      rcases runsFrom_cons hrun c rest with
        ⟨b', s', hsub, hrun', hvalues, heq⟩ | ⟨last, hlast, hend, hne, hgap, heq⟩
      · rw [heq]
        refine ih hrun' ?_ fun v hlow hhigh => ?_
        · rw [List.append_assoc]
          exact hsorted.sublist (hsub.append_right _)
        · have hv := hmem v hlow hhigh
          unfold values at hv hvalues ⊢
          rw [List.map_append, List.mem_append, List.map_cons, List.mem_cons] at hv
          rw [List.map_append, List.mem_append]
          rcases hv with hv | rfl | hv
          · exact .inl (hvalues v hv)
          · exact .inl (by simp)
          · exact .inr hv
      · rw [heq]
        obtain ⟨-, hrest, hcross⟩ := List.pairwise_append.1 hsorted
        have hlow_c : last.value ≤ c.value := hcross last hlast c (List.mem_cons_self ..)
        have habove : ∀ v ∈ values (c :: rest), c.value ≤ v := by
          intro v hv
          obtain ⟨x, hx, rfl⟩ := List.mem_map.1 hv
          rcases List.mem_cons.1 hx with rfl | hx
          · exact le_rfl
          · exact (List.pairwise_cons.1 hrest).1 x hx
        have hbelow : ∀ v ∈ values s, v ≤ last.value := by
          intro v hv
          have := hrun.mem_values.1 hv
          omega
        have hside : ∀ v, w ≤ v → v ≤ w + 4 → v ∈ values s ∨ v ∈ values (c :: rest) := by
          intro v hlow hhigh
          have hv := hmem v hlow hhigh
          unfold values at hv
          rwa [List.map_append, List.mem_append] at hv
        by_cases hw : w ≤ last.value
        · -- the value behind the run is missing, so all five lie in the run
          have hin : w + 4 ≤ last.value := by
            by_contra hover
            rcases hside (last.value + 1) (by omega) (by omega) with hv | hv
            · have := hbelow _ hv
              omega
            · have := habove _ hv
              omega
          have hfive : ∀ v, w ≤ v → v ≤ w + 4 → v ∈ values s := by
            intro v hlow hhigh
            refine (hside v hlow hhigh).resolve_right fun hv => ?_
            have := habove v hv
            omega
          have hlong :=
            hrun.long (hfive w (by omega) (by omega)) (hfive (w + 4) (by omega) (by omega))
          exact ⟨s, List.mem_append_left _ (mem_kept.2 ⟨rfl, hlong⟩), hfive⟩
        · obtain ⟨run, hmemrun, hvalues⟩ := ih (run_singleton c) hrest fun v hlow hhigh =>
            (hside v hlow hhigh).resolve_left fun hv => by
              have := hbelow v hv
              omega
          exact ⟨run, List.mem_append_right _ hmemrun, hvalues⟩

end Runs

end SdyServer.Daboluo
