import SdyServer.Daboluo.Auto
import SdyServer.Daboluo.DeclaredTypes
import SdyServer.Daboluo.SubmitSound

/-!
# What an automatic arrangement is made of

Every arrangement that `happydoggyGroupCards` returns has passed the tests of the search: its rows
come from the generators of its types, each applied to what the rows before it left.
-/

namespace SdyServer.Daboluo

section Statement

def Produces (group : Int → Option (List Card → Lua (List Five))) (n : Nat) (cards : List Card)
    (row : Five) : Prop :=
  ∃ generator rows, group n = some generator ∧ generator cards = .ok rows ∧ row ∈ rows

/-- The generator table of a room. -/
def groupTable (danse : Bool) : Int → Option (List Card → Lua (List Five)) :=
  if danse then tGroupDanse else tGroup

/-- The cards that are left when a row is taken. -/
def without (cards : List Card) (row : List Card) : List Card :=
  delCards (some (sorted cards)) (some row)

/-- The types after which the top row is compared with the middle one. -/
def Clash (n k : Nat) : Prop := (n = 7 ∧ k = 1) ∨ (n = 9 ∧ k = 2) ∨ (n = 10 ∧ k = 3)

/-- The tests an arrangement has passed in the search. -/
structure Tried (group : Int → Option (List Card → Lua (List Five))) (cards : List Card)
    (arr : Arrangement) : Prop where
  place_i : 1 ≤ arr.i ∧ arr.i ≤ 9
  place_n : arr.i ≤ arr.n ∧ arr.n ≤ 10
  place_k : (if arr.n < 8 then 1 else if arr.n < 10 then 2 else 3) ≤ arr.k ∧ arr.k ≤ 3
  bottom : Produces group arr.i cards arr.bottom
  middle : Produces group arr.n (without cards arr.bottom.toList) arr.middle
  clean : arr.i = arr.n →
    isMessireFive (11 - arr.i) arr.bottom.toList arr.middle.toList = .ok (some false)
  top : arr.top ∈ t3Group arr.k (without (without cards arr.bottom.toList) arr.middle.toList)
  fits : Clash arr.n arr.k → isMessireThree arr.n arr.middle arr.top = true
  rest : arr.rest =
    without (without (without cards arr.bottom.toList) arr.middle.toList) arr.top.toList

end Statement

section Search

variable {group : Int → Option (List Card → Lua (List Five))} {cards : List Card}
  {found result : List Arrangement}

theorem tryTops_tried {i n : Nat} {bottom middle : Five} {ks : List Nat}
    (hfound : ∀ arr ∈ found, Tried group cards arr)
    (hnew : ∀ k ∈ ks, ∀ top ∈ t3Group k (without (without cards bottom.toList) middle.toList),
      (Clash n k → isMessireThree n middle top = true) →
        Tried group cards ⟨i, n, k, bottom, middle, top,
          without (without (without cards bottom.toList) middle.toList) top.toList⟩) :
    ∀ arr ∈ tryTops i n bottom middle (without (without cards bottom.toList)
      middle.toList) found ks,
      Tried group cards arr := by
  induction ks with
  | nil => exact hfound
  | cons k ks ih =>
      have hrest := ih fun k hk => hnew k (List.mem_cons_of_mem _ hk)
      rw [tryTops]
      split
      · exact hrest
      · rename_i top _ hgroup
        dsimp only
        split_ifs with hclash
        · exact hrest
        · exact hfound
        · intro arr harr
          rcases List.mem_append.1 harr with harr | harr
          · exact hfound arr harr
          · rw [List.mem_singleton] at harr
            subst harr
            refine hnew k (List.mem_cons_self ..) top (hgroup ▸ List.mem_cons_self ..) fun hc => ?_
            by_contra hfoul
            exact hclash ⟨hc, by simpa using hfoul⟩

/-- Rows of one type: the bottom row has to be strictly better. -/
def fits (i n : Nat) (bottom middle : Five) : Lua Bool :=
  if i = n then do
    return (← isMessireFive (11 - i) bottom.toList middle.toList) == some false
  else return true

theorem fits_true {i n : Nat} {bottom middle : Five} (hfits : fits i n bottom middle = .ok true)
    (hin : i = n) : isMessireFive (11 - i) bottom.toList middle.toList = .ok (some false) := by
  unfold fits at hfits
  rw [if_pos hin] at hfits
  obtain ⟨answer, hanswer, heq⟩ := Lua.bind_eq_ok.1 hfits
  rw [Lua.pure_eq_ok, Except.ok.injEq, beq_iff_eq] at heq
  rw [hanswer, heq]

theorem tryMiddles_cons (i n : Nat) (bottom : Five) (sArr : List Card) (found : List Arrangement)
    (middle : Five) (rest : List Five) :
    tryMiddles i n bottom sArr found (middle :: rest) =
      if found.length > 5 then .ok found
      else fits i n bottom middle >>= fun good =>
        if good then
          if i = 1 ∧ n = 3 ∧ bottom.c1.value = 8 then .ok found
          else tryMiddles i n bottom sArr
          (tryTops i n bottom middle (without sArr middle.toList) found
            (up (if n < 8 then 1 else if n < 10 then 2 else 3) 3)) rest
        else tryMiddles i n bottom sArr found rest := by
  rw [tryMiddles]
  unfold fits
  by_cases hin : i = n
  · simp only [if_pos hin]
    rcases isMessireFive (11 - (i : Int)) bottom.toList middle.toList with error | answer
    · rfl
    · rfl
  · simp only [if_neg hin]
    rfl

theorem tryMiddles_tried {i n : Nat} {bottom : Five} {middles : List Five} (hi : 1 ≤ i ∧ i ≤ 9)
    (hn : i ≤ n ∧ n ≤ 10) (hbottom : Produces group i cards bottom)
    (hmiddles : ∀ middle ∈ middles, Produces group n (without cards bottom.toList) middle)
    (hfound : ∀ arr ∈ found, Tried group cards arr)
    (hrun : tryMiddles i n bottom (without cards bottom.toList) found middles = .ok result) :
    ∀ arr ∈ result, Tried group cards arr := by
  induction middles generalizing found with
  | nil =>
      rw [tryMiddles] at hrun
      cases hrun
      exact hfound
  | cons middle rest ih =>
      rw [List.forall_mem_cons] at hmiddles
      rw [tryMiddles_cons] at hrun
      by_cases henough : found.length > 5
      · rw [if_pos henough] at hrun
        cases hrun
        exact hfound
      rw [if_neg henough] at hrun
      obtain ⟨good, hfits, hrun⟩ := Lua.bind_eq_ok.1 hrun
      cases good with
      | false => exact ih hmiddles.2 hfound hrun
      | true =>
          rw [if_pos rfl] at hrun
          by_cases hstop : i = 1 ∧ n = 3 ∧ bottom.c1.value = 8
          · rw [if_pos hstop] at hrun
            cases hrun
            exact hfound
          rw [if_neg hstop] at hrun
          have htops : ∀ arr ∈ tryTops i n bottom middle
              (without (without cards bottom.toList) middle.toList) found
              (up (if n < 8 then 1 else if n < 10 then 2 else 3) 3), Tried group cards arr := by
            refine tryTops_tried hfound fun k hk top htop hclash => ?_
            exact ⟨hi, hn, mem_up.1 hk, hbottom, hmiddles.1, fits_true hfits, htop,
              hclash, by dsimp only⟩
          exact ih hmiddles.2 htops hrun

theorem tryMiddleTypes_tried {i : Nat} {bottom : Five} {ns : List Nat} {breakFor : Bool}
    (hi : 1 ≤ i ∧ i ≤ 9) (hns : ∀ n ∈ ns, n ≤ 10) (hbottom : Produces group i cards bottom)
    (hfound : ∀ arr ∈ found, Tried group cards arr)
    (hrun : tryMiddleTypes group i bottom cards found ns = .ok (breakFor, result)) :
    ∀ arr ∈ result, Tried group cards arr := by
  induction ns generalizing found with
  | nil =>
      rw [tryMiddleTypes] at hrun
      cases hrun
      exact hfound
  | cons n ns ih =>
      rw [List.forall_mem_cons] at hns
      rw [tryMiddleTypes] at hrun
      by_cases henough : found.length > 5
      · rw [if_pos henough] at hrun
        cases hrun
        exact hfound
      rw [if_neg henough] at hrun
      obtain ⟨generator, hgenerator, hrun⟩ := Lua.bind_eq_ok.1 hrun
      obtain ⟨middles, hmiddles, hrun⟩ := Lua.bind_eq_ok.1 hrun
      by_cases hany : middles.length > 0
      · rw [if_pos hany] at hrun
        by_cases hbetter : n < i
        · rw [if_pos hbetter] at hrun
          cases hrun
          exact hfound
        rw [if_neg hbetter] at hrun
        obtain ⟨found', hfound', hrun⟩ := Lua.bind_eq_ok.1 hrun
        refine ih hns.2 (tryMiddles_tried hi ⟨by omega, hns.1⟩ hbottom
          (fun middle hmem => ?_) hfound hfound') hrun
        exact ⟨generator, middles, Lua.need_eq_ok.1 hgenerator, hmiddles, hmem⟩
      · rw [if_neg hany] at hrun
        exact ih hns.2 hfound hrun

theorem tryBottoms_tried {i : Nat} {bottoms : List Five} (hi : 1 ≤ i ∧ i ≤ 9)
    (hbottoms : ∀ bottom ∈ bottoms, Produces group i cards bottom)
    (hfound : ∀ arr ∈ found, Tried group cards arr)
    (hrun : tryBottoms group i cards found bottoms = .ok result) :
    ∀ arr ∈ result, Tried group cards arr := by
  induction bottoms generalizing found with
  | nil =>
      rw [tryBottoms] at hrun
      cases hrun
      exact hfound
  | cons bottom rest ih =>
      rw [List.forall_mem_cons] at hbottoms
      rw [tryBottoms] at hrun
      obtain ⟨⟨breakFor, found'⟩, hfound', hrun⟩ := Lua.bind_eq_ok.1 hrun
      have htried := tryMiddleTypes_tried hi (fun n hn => (mem_up.1 hn).2) hbottoms.1 hfound hfound'
      cases breakFor with
      | true =>
          cases hrun
          exact htried
      | false => exact ih hbottoms.2 htried hrun

/-- The bottom rows of type `i`. -/
def tryType (group : Int → Option (List Card → Lua (List Five))) (cards : List Card)
    (found : List Arrangement) (i : Nat) : Lua (List Arrangement) := do
  if found.length > 5 then return found
  tryBottoms group i cards found (← (← Lua.need .callNil (group i)) cards)

theorem happydoggyGroupCards_eq (cards : List Card) (danse : Bool) :
    happydoggyGroupCards cards danse = (up 1 9).foldlM (tryType (groupTable danse) cards) [] := rfl

/-- Every arrangement that is returned has passed the tests. -/
theorem happydoggyGroupCards_tried {danse : Bool}
    (hrun : happydoggyGroupCards cards danse = .ok result) :
    ∀ arr ∈ result, Tried (groupTable danse) cards arr := by
  rw [happydoggyGroupCards_eq] at hrun
  refine Lua.foldlM_ok_invariant
    (P := fun found => ∀ arr ∈ found, Tried (groupTable danse) cards arr)
    (fun i hi found found' hfound hstep => ?_) (by simp) hrun
  unfold tryType at hstep
  by_cases henough : found.length > 5
  · rw [if_pos henough] at hstep
    cases hstep
    exact hfound
  rw [if_neg henough] at hstep
  obtain ⟨generator, hgenerator, hstep⟩ := Lua.bind_eq_ok.1 hstep
  obtain ⟨rows, hrows, hstep⟩ := Lua.bind_eq_ok.1 hstep
  refine tryBottoms_tried (mem_up.1 hi) (fun row hrow => ?_) hfound hstep
  exact ⟨generator, rows, Lua.need_eq_ok.1 hgenerator, hrows, hrow⟩

end Search

section Hand

variable {cards : List Card} {danse : Bool}

/-- Where the `n`th generator of a room stands in the usual table. -/
def place (danse : Bool) (n : Nat) : Int :=
  if danse then if n = 2 then 3 else if n = 3 then 2 else n else n

theorem groupTable_eq (danse : Bool) (n : Nat) : groupTable danse n = tGroup (place danse n) := by
  unfold groupTable place tGroupDanse
  cases danse with
  | false => rfl
  | true =>
      by_cases h2 : n = 2
      · subst h2
        rfl
      · by_cases h3 : n = 3
        · subst h3
          rfl
        · rw [if_pos rfl, if_neg (by omega), if_neg (by omega), if_pos rfl, if_neg h2, if_neg h3]

theorem place_bounds {n : Nat} (hn : 1 ≤ n ∧ n ≤ 10) : 1 ≤ place danse n ∧ place danse n ≤ 10 := by
  unfold place
  split_ifs <;> omega

theorem suited_of_plain (hplain : ∀ c ∈ cards, Plain c) : Suited cards := fun c hc =>
  ⟨(hplain c hc).1, (hplain c hc).2.1⟩

theorem Produces.sound (hsuited : Suited cards) {n : Nat} (hn : 1 ≤ n ∧ n ≤ 10) {row : Five}
    (hrow : Produces (groupTable danse) n cards row) :
    row.toList.Subperm cards ∧
      ((∀ v ∈ values cards, 1 ≤ v ∧ v ≤ 13) → IsRow (11 - place danse n) row.toList) := by
  obtain ⟨generator, rows, hgenerator, hrows, hmem⟩ := hrow
  rw [groupTable_eq] at hgenerator
  exact generator_sound hsuited (place_bounds hn) hgenerator hrows hmem

theorem t3Group_subperm (hplain : NoJokers cards) {k : Nat} {row : Three}
    (hmem : row ∈ t3Group k cards) :
    row.toList.Subperm cards := by
  unfold t3Group at hmem
  split_ifs at hmem
  · exact (santiao_sound hplain hmem).1
  · exact (yiduiThree_sound hplain hmem).1
  · exact ((wulongThree_parts hplain hmem).1.subperm).trans (pile_perm cards).subperm

theorem without_perm (hplain : ∀ c ∈ cards, Plain c) {row : List Card} (hsub : row.Subperm cards) :
    (row ++ without cards row).Perm cards := by
  have hperm : (sorted cards).Perm cards := Lua.tableSort_perm sortRise cards
  exact (delCards_perm (fun c hc => hplain c (hperm.subset hc))
    (hperm.symm.subperm_left.1 hsub)).trans hperm

theorem plain_without (hplain : ∀ c ∈ cards, Plain c) {row : List Card} (hsub : row.Subperm cards) :
    ∀ c ∈ without cards row, Plain c := fun c hc =>
  hplain c ((without_perm hplain hsub).subset (List.mem_append_right _ hc))

/-- The rows of an arrangement and the cards it leaves are the hand. -/
structure Split (cards : List Card) (arr : Arrangement) : Prop where
  bottom : (arr.bottom.toList ++ without cards arr.bottom.toList).Perm cards
  middle : (arr.middle.toList ++ without (without cards arr.bottom.toList) arr.middle.toList).Perm
    (without cards arr.bottom.toList)
  top : (arr.top.toList ++ arr.rest).Perm
    (without (without cards arr.bottom.toList) arr.middle.toList)

theorem Tried.split (hplain : ∀ c ∈ cards, Plain c) {arr : Arrangement}
    (htried : Tried (groupTable danse) cards arr) : Split cards arr := by
  have hi := htried.place_i
  have hn := htried.place_n
  have hbottom := (htried.bottom.sound (suited_of_plain hplain) (by omega)).1
  have hplain' := plain_without hplain hbottom
  have hmiddle := (htried.middle.sound (suited_of_plain hplain') (by omega)).1
  have hplain'' := plain_without hplain' hmiddle
  have htop := t3Group_subperm (suited_of_plain hplain'').noJokers htried.top
  refine ⟨without_perm hplain hbottom, without_perm hplain' hmiddle, ?_⟩
  rw [htried.rest]
  exact without_perm hplain'' htop

theorem Split.perm {arr : Arrangement} (hsplit : Split cards arr) :
    (arr.bottom.toList ++ arr.middle.toList ++ arr.top.toList ++ arr.rest).Perm cards := by
  rw [List.append_assoc, List.append_assoc]
  refine List.Perm.trans ?_ hsplit.bottom
  refine (List.Perm.trans ?_ hsplit.middle).append_left _
  exact hsplit.top.append_left _

/-- The three rows of a hand run from low to high. -/
def RowsSorted (cards : List Card) : Prop :=
  (cards.take 5).Pairwise (fun a b => sortDescent b a = false) ∧
    ((cards.drop 5).take 5).Pairwise (fun a b => sortDescent b a = false) ∧
      ((cards.drop 10).take 3).Pairwise fun a b => sortDescent b a = false

theorem sorted_sortDescent (cards : List Card) :
    (Lua.tableSort sortDescent cards).Pairwise fun a b => sortDescent b a = false := by
  refine (pairwise_sortDescent cards).imp ?_
  intro a b h
  unfold sortDescent
  split_ifs
  · rw [decide_eq_false_iff_not]
    omega
  · rw [decide_eq_false_iff_not]
    omega

theorem rows_of_arrangement (arr : Arrangement) :
    arr.cards.take 13 = Lua.tableSort sortDescent arr.bottom.toList ++
        Lua.tableSort sortDescent arr.middle.toList ++ Lua.tableSort sortDescent arr.top.toList ∧
      arr.cards.drop 13 = if arr.rest.length = 3 then arr.rest else [] := by
  have hlength : (Lua.tableSort sortDescent arr.bottom.toList ++
      Lua.tableSort sortDescent arr.middle.toList ++
          Lua.tableSort sortDescent arr.top.toList).length = 13 := by
    simp [Lua.length_tableSort]
  unfold Arrangement.cards
  exact ⟨List.take_left' hlength, List.drop_left' hlength⟩

theorem rowsSorted_of_arrangement (arr : Arrangement) : RowsSorted arr.cards := by
  have hbottom :=
    (Lua.length_tableSort sortDescent arr.bottom.toList).trans arr.bottom.length_toList
  have hmiddle :=
    (Lua.length_tableSort sortDescent arr.middle.toList).trans arr.middle.length_toList
  have htop := (Lua.length_tableSort sortDescent arr.top.toList).trans arr.top.length_toList
  unfold RowsSorted Arrangement.cards
  rw [List.append_assoc, List.append_assoc, show 10 = 5 + 5 from rfl, ← List.drop_drop,
    List.take_left' hbottom, List.drop_left' hbottom, List.take_left' hmiddle,
      List.drop_left' hmiddle,
    List.take_left' htop]
  exact ⟨sorted_sortDescent _, sorted_sortDescent _, sorted_sortDescent _⟩

/-- The automatic arrangement takes every card of the hand at most once, sorts its rows, and appends
the cards that are left when there are three of them. -/
theorem happydoggyGroupCards_hand {arrs : List Arrangement} (hplain : ∀ c ∈ cards, Plain c)
    (hrun : happydoggyGroupCards cards danse = .ok arrs) :
    ∀ arr ∈ arrs, (arr.cards.take 13).Subperm cards ∧ RowsSorted arr.cards ∧
      (cards.length = 16 → arr.cards.Perm cards) ∧
      (cards.length ≠ 16 → arr.cards.drop 13 = []) := by
  intro arr harr
  have hperm := ((happydoggyGroupCards_tried hrun arr harr).split hplain).perm
  have hsize : arr.rest.length + 13 = cards.length := by
    rw [← hperm.length_eq]
    simp only [List.length_append, Five.length_toList, Three.length_toList]
    omega
  obtain ⟨hrows, hmore⟩ := rows_of_arrangement arr
  have hsorted : (arr.cards.take 13).Perm
      (arr.bottom.toList ++ arr.middle.toList ++ arr.top.toList) := by
    rw [hrows]
    exact ((Lua.tableSort_perm _ _).append (Lua.tableSort_perm _ _)).append (Lua.tableSort_perm _ _)
  refine ⟨?_, rowsSorted_of_arrangement arr, fun hlength => ?_, fun hlength => ?_⟩
  · exact hsorted.subperm.trans ((List.sublist_append_left _ _).subperm.trans hperm.subperm)
  · rw [if_pos (by omega)] at hmore
    rw [← List.take_append_drop 13 arr.cards, hmore]
    exact (hsorted.append_right _).trans hperm
  · rw [hmore, if_neg (by omega)]

/-- A hand with two quads, which has one arrangement. -/
def twoQuads : List Card :=
  [⟨1, 1, none, none⟩, ⟨2, 1, none, none⟩, ⟨3, 1, none, none⟩, ⟨4, 1, none, none⟩,
    ⟨2, 2, none, none⟩,
    ⟨1, 3, none, none⟩, ⟨2, 3, none, none⟩, ⟨3, 3, none, none⟩, ⟨4, 3, none, none⟩,
      ⟨2, 4, none, none⟩,
    ⟨1, 5, none, none⟩, ⟨2, 7, none, none⟩, ⟨3, 8, none, none⟩]

def twoQuadsRows : Arrangement where
  i := 3
  n := 3
  k := 3
  bottom := ⟨⟨4, 3, none, none⟩, ⟨3, 3, none, none⟩, ⟨2, 3, none, none⟩, ⟨1, 3, none, none⟩,
    ⟨2, 2, none, none⟩⟩
  middle := ⟨⟨4, 1, none, none⟩, ⟨3, 1, none, none⟩, ⟨2, 1, none, none⟩, ⟨1, 1, none, none⟩,
    ⟨2, 4, none, none⟩⟩
  top := ⟨⟨3, 8, none, none⟩, ⟨2, 7, none, none⟩, ⟨1, 5, none, none⟩⟩
  rest := []

theorem happydoggyGroupCards_twoQuads :
    happydoggyGroupCards twoQuads false = .ok [twoQuadsRows] := by
  decide +kernel

theorem happydoggyGroupCards_hand_twoQuads :
    (twoQuadsRows.cards.take 13).Subperm twoQuads ∧ RowsSorted twoQuadsRows.cards ∧
      (twoQuads.length = 16 → twoQuadsRows.cards.Perm twoQuads) ∧
        (twoQuads.length ≠ 16 → twoQuadsRows.cards.drop 13 = []) :=
  happydoggyGroupCards_hand (by decide) happydoggyGroupCards_twoQuads twoQuadsRows (by simp)

end Hand

end SdyServer.Daboluo
