import SdyServer.Daboluo.BlockRows

/-!
# Straights in a pile

`shunzi` reads the straights off the runs of a pile, from their high ends, and adds the one from the
ace to the five. It finds a row for every straight whose values all occur.
-/

namespace SdyServer.Daboluo

open Blocks

/-- Five falling values in a row, or the ace above the low four. -/
def Falls (vs : List Int) : Prop :=
  vs = [13, 4, 3, 2, 1] ∨ ∃ w, vs = [w + 4, w + 3, w + 2, w + 1, w]

section Windows

variable {s : List Card} {row : Five} {b w : Int}

theorem Run.value_of_nth (hrun : Run b s) {i : Nat} {c : Card} (hc : Lua.nth s i = some c) :
    c.value = b + i - 1 := by
  have hbounds := Lua.nth_bounds hc
  unfold Lua.nth at hc
  rw [if_neg (by omega)] at hc
  have hvalue : (values s)[i - 1]? = some c.value := by
    unfold values
    rw [List.getElem?_map, hc]
    rfl
  rw [hrun, List.getElem?_map, List.getElem?_range (by omega), Option.map_some,
    Option.some.injEq] at hvalue
  omega

theorem mem_rowsOf : row ∈ rowsOf s ↔
    ∃ l, (5 ≤ l ∧ l ≤ s.length) ∧ five s l (l - 1) (l - 2) (l - 3) (l - 4) = some row := by
  unfold rowsOf
  simp only [List.mem_filterMap, mem_down]

theorem rowsOf_sound (hrun : Run b s) (hmem : row ∈ rowsOf s) :
    Falls (values row.toList) ∧ row.toList ⊆ s := by
  obtain ⟨l, hl, hrow⟩ := mem_rowsOf.1 hmem
  obtain ⟨h1, h2, h3, h4, h5⟩ := five_eq_some.1 hrow
  constructor
  · refine .inr ⟨b + l - 5, ?_⟩
    simp only [values, Five.toList, List.map_cons, List.map_nil, List.cons.injEq, and_true]
    rw [hrun.value_of_nth h1, hrun.value_of_nth h2, hrun.value_of_nth h3, hrun.value_of_nth h4,
      hrun.value_of_nth h5]
    omega
  · simp [Five.toList, Lua.mem_of_nth h1, Lua.mem_of_nth h2, Lua.mem_of_nth h3, Lua.mem_of_nth h4,
      Lua.mem_of_nth h5]

theorem rowsOf_complete (hrun : Run b s) (hlow : w ∈ values s) (hhigh : w + 4 ∈ values s) :
    ∃ row ∈ rowsOf s, values row.toList = [w + 4, w + 3, w + 2, w + 1, w] := by
  have hb := hrun.mem_values.1 hlow
  have he := hrun.mem_values.1 hhigh
  have hread : ∀ i : Nat, i < 5 → ∃ c, Lua.nth s ((w - b).toNat + 5 - i) = some c := fun i hi =>
    Lua.exists_nth (by omega) (by omega)
  obtain ⟨c1, h1⟩ := hread 0 (by decide)
  obtain ⟨c2, h2⟩ := hread 1 (by decide)
  obtain ⟨c3, h3⟩ := hread 2 (by decide)
  obtain ⟨c4, h4⟩ := hread 3 (by decide)
  obtain ⟨c5, h5⟩ := hread 4 (by decide)
  refine ⟨⟨c1, c2, c3, c4, c5⟩,
    mem_rowsOf.2 ⟨(w - b).toNat + 5, by omega, five_eq_some.2 ⟨h1, h2, h3, h4, h5⟩⟩, ?_⟩
  simp only [values, Five.toList, List.map_cons, List.map_nil, List.cons.injEq, and_true]
  rw [hrun.value_of_nth h1, hrun.value_of_nth h2, hrun.value_of_nth h3, hrun.value_of_nth h4,
    hrun.value_of_nth h5]
  omega

end Windows

section OneOfEach

variable {l szCards : List Card}

theorem mem_oneOfEach {c : Card} (hmem : c ∈ oneOfEach szCards l) : c ∈ szCards ∨ c ∈ l := by
  induction l generalizing szCards with
  | nil => exact .inl hmem
  | cons o rest ih =>
      rw [oneOfEach] at hmem
      split_ifs at hmem
      · exact (ih hmem).imp_right (List.mem_cons_of_mem _)
      · rcases ih hmem with hmem | hmem
        · rcases List.mem_append.1 hmem with hmem | hmem
          · exact .inl hmem
          · exact .inr (List.mem_singleton.1 hmem ▸ List.mem_cons_self ..)
        · exact .inr (List.mem_cons_of_mem _ hmem)

/-- No value gets lost. -/
theorem values_oneOfEach {v : Int} (hmem : v ∈ values (szCards ++ l)) :
    v ∈ values (oneOfEach szCards l) := by
  induction l generalizing szCards with
  | nil => rwa [List.append_nil] at hmem
  | cons o rest ih =>
      rw [oneOfEach]
      split_ifs with hskip
      · refine ih ?_
        unfold values at hmem ⊢
        rw [List.map_append, List.mem_append, List.map_cons, List.mem_cons] at hmem
        rw [List.map_append, List.mem_append]
        rcases hmem with hmem | rfl | hmem
        · exact .inl hmem
        · rcases hskip with hnext | hlast
          · obtain ⟨d, hd, hvalue⟩ := Option.map_eq_some_iff.1 hnext
            exact .inr (List.mem_map.2 ⟨d, List.mem_of_mem_head? hd, hvalue⟩)
          · obtain ⟨d, hd, hvalue⟩ := Option.map_eq_some_iff.1 hlast
            exact .inl (List.mem_map.2 ⟨d, List.mem_of_getLast? hd, hvalue⟩)
        · exact .inr hmem
      · refine ih ?_
        rw [List.append_assoc]
        exact hmem

end OneOfEach

section Shunzi

variable {cards : List Card}

/-- The ace and the low four, when all of them occur. -/
def wheelOf (szCards : List Card) : Option (List Card) := do
  let vCards (v : Int) : Option Card := szCards.find? fun c => c.value = v
  return [← vCards 1, ← vCards 2, ← vCards 3, ← vCards 4, ← vCards 13]

theorem wheelOf_sound {szCards wheel : List Card} (hwheel : wheelOf szCards = some wheel) :
    ∃ c1 c2 c3 c4 c5, wheel = [c1, c2, c3, c4, c5] ∧ values wheel = [1, 2, 3, 4, 13] ∧
    wheel ⊆ szCards := by
  unfold wheelOf at hwheel
  simp only [Option.bind_eq_bind, Option.bind_eq_some_iff, Option.pure_def,
    Option.some.injEq] at hwheel
  obtain ⟨c1, h1, c2, h2, c3, h3, c4, h4, c5, h5, rfl⟩ := hwheel
  have hvalue : ∀ {v : Int} {c : Card}, (szCards.find? fun c => c.value = v) = some c →
      c.value = v := by
    intro v c hfind
    simpa using List.find?_some hfind
  refine ⟨c1, c2, c3, c4, c5, rfl, ?_, ?_⟩
  · simp [values, hvalue h1, hvalue h2, hvalue h3, hvalue h4, hvalue h5]
  · simp [List.mem_of_find?_eq_some h1, List.mem_of_find?_eq_some h2, List.mem_of_find?_eq_some h3,
      List.mem_of_find?_eq_some h4, List.mem_of_find?_eq_some h5]

theorem wheelOf_complete {szCards : List Card} (hmem : [13, 4, 3, 2, 1] ⊆ values szCards) :
    ∃ wheel, wheelOf szCards = some wheel := by
  have hfind : ∀ v ∈ [13, 4, 3, 2, 1], ∃ c, (szCards.find? fun c => c.value = v) = some c := by
    intro v hv
    obtain ⟨c, hc, hvalue⟩ := List.mem_map.1 (hmem hv)
    exact Option.isSome_iff_exists.1 (List.find?_isSome.2 ⟨c, hc, decide_eq_true hvalue⟩)
  obtain ⟨c1, h1⟩ := hfind 1 (by decide)
  obtain ⟨c2, h2⟩ := hfind 2 (by decide)
  obtain ⟨c3, h3⟩ := hfind 3 (by decide)
  obtain ⟨c4, h4⟩ := hfind 4 (by decide)
  obtain ⟨c5, h5⟩ := hfind 13 (by decide)
  refine ⟨[c1, c2, c3, c4, c5], ?_⟩
  unfold wheelOf
  simp only [h1, h2, h3, h4, h5]
  rfl

/-- The runs of a pile, and the straight from the ace to the five. -/
def plainRuns (cards : List Card) : List (List Card) :=
  runsFrom [] (pile cards) ++ (wheelOf (oneOfEach [] (pile cards))).toList

theorem shunzi_eq (hplain : NoJokers cards) (hlength : 5 ≤ cards.length) :
    shunzi cards = .ok ((plainRuns cards).reverse.flatMap rowsOf) := by
  obtain ⟨hruns, hjokers, hcards⟩ := getGroupCards_piles hplain
  unfold shunzi plainRuns
  rw [if_neg (by omega)]
  simp only [hruns, hjokers, hcards]
  by_cases hany : (runsFrom [] (pile cards) ++ (wheelOf (oneOfEach [] (pile cards))).toList).length
    > 0
  · exact if_pos hany
  · refine (if_neg hany).trans ?_
    rw [List.length_eq_zero_iff.1 (Nat.eq_zero_of_not_pos hany)]
    rfl

theorem run_nil (b : Int) : Run b [] := rfl

theorem shunzi_ok (hplain : NoJokers cards) : ∃ rows, shunzi cards = .ok rows := by
  by_cases hshort : cards.length < 5
  · exact ⟨[], by unfold shunzi; rw [if_pos hshort]; rfl⟩
  · exact ⟨_, shunzi_eq hplain (by omega)⟩

/-- Every row of a run is a straight of the pile. -/
theorem plainRuns_sound {run : List Card} (hrun : run ∈ plainRuns cards) {row : Five}
    (hrow : row ∈ rowsOf run) :
    Falls (values row.toList) ∧ row.toList ⊆ cards := by
  rcases List.mem_append.1 hrun with hrun | hrun
  · obtain ⟨⟨b, hconsec⟩, -, hfrom⟩ := runsFrom_sound (run_nil 0) hrun
    obtain ⟨hfalls, hsubset⟩ := rowsOf_sound hconsec hrow
    refine ⟨hfalls, fun c hc => ?_⟩
    exact mem_pile.1 ((hfrom c (hsubset hc)).resolve_left List.not_mem_nil)
  · obtain ⟨c1, c2, c3, c4, c5, rfl, hvalues, hsubset⟩ := wheelOf_sound (Option.mem_toList.1 hrun)
    obtain ⟨l, ⟨hlow, hhigh⟩, hfive⟩ := mem_rowsOf.1 hrow
    obtain rfl : l = 5 := le_antisymm hhigh hlow
    obtain rfl : (⟨c5, c4, c3, c2, c1⟩ : Five) = row := Option.some.inj hfive
    simp only [values, List.map_cons, List.map_nil, List.cons.injEq, and_true] at hvalues
    obtain ⟨h1, h2, h3, h4, h5⟩ := hvalues
    constructor
    · exact .inl (by simp [values, Five.toList, h1, h2, h3, h4, h5])
    · intro c hc
      have hwheel : c ∈ [c1, c2, c3, c4, c5] := by
        simp only [Five.toList, List.mem_cons, List.not_mem_nil, or_false] at hc ⊢
        tauto
      exact mem_pile.1 ((mem_oneOfEach (hsubset hwheel)).resolve_left List.not_mem_nil)

/-- Every run has a row. -/
theorem exists_row_of_plainRuns {run : List Card} (hrun : run ∈ plainRuns cards) :
    ∃ row, row ∈ rowsOf run := by
  have hlong : 5 ≤ run.length := by
    rcases List.mem_append.1 hrun with hrun | hrun
    · obtain ⟨-, hlong, -⟩ := runsFrom_sound (run_nil 0) hrun
      exact hlong
    · obtain ⟨c1, c2, c3, c4, c5, rfl, -, -⟩ := wheelOf_sound (Option.mem_toList.1 hrun)
      exact le_refl 5
  have hread : ∀ i, 1 ≤ i → i ≤ 5 → ∃ c, Lua.nth run i = some c := fun i hpos hle =>
    Lua.exists_nth hpos (hle.trans hlong)
  obtain ⟨c1, h1⟩ := hread 5 (by decide) (by decide)
  obtain ⟨c2, h2⟩ := hread 4 (by decide) (by decide)
  obtain ⟨c3, h3⟩ := hread 3 (by decide) (by decide)
  obtain ⟨c4, h4⟩ := hread 2 (by decide) (by decide)
  obtain ⟨c5, h5⟩ := hread 1 (by decide) (by decide)
  exact ⟨⟨c1, c2, c3, c4, c5⟩,
    mem_rowsOf.2 ⟨5, ⟨le_rfl, hlong⟩, five_eq_some.2 ⟨h1, h2, h3, h4, h5⟩⟩⟩

/-- Every row of `shunzi` is a straight of the pile. -/
theorem shunzi_sound (hplain : NoJokers cards) {rows : List Five} (hrows : shunzi cards = .ok rows)
    {row : Five} (hmem : row ∈ rows) : Falls (values row.toList) ∧ row.toList ⊆ cards := by
  by_cases hshort : cards.length < 5
  · unfold shunzi at hrows
    rw [if_pos hshort] at hrows
    cases hrows
    exact absurd hmem List.not_mem_nil
  rw [shunzi_eq hplain (by omega), Except.ok.injEq] at hrows
  subst hrows
  obtain ⟨run, hrun, hrow⟩ := List.mem_flatMap.1 hmem
  exact plainRuns_sound (List.mem_reverse.1 hrun) hrow

/-- Whenever the values of a straight occur, a run has a row of these values. -/
theorem plainRuns_complete {vs : List Int} (hfalls : Falls vs) (hmem : vs ⊆ values cards) :
    ∃ run ∈ plainRuns cards, ∃ row ∈ rowsOf run, values row.toList = vs := by
  have hpile : ∀ v ∈ vs, v ∈ values (pile cards) := by
    intro v hv
    obtain ⟨c, hc, hvalue⟩ := List.mem_map.1 (hmem hv)
    exact List.mem_map.2 ⟨c, mem_pile.2 hc, hvalue⟩
  rcases hfalls with rfl | ⟨w, rfl⟩
  · obtain ⟨wheel, hwheel⟩ := @wheelOf_complete (oneOfEach [] (pile cards)) fun v hv =>
      values_oneOfEach (hpile v hv)
    obtain ⟨c1, c2, c3, c4, c5, rfl, hvalues, -⟩ := wheelOf_sound hwheel
    simp only [values, List.map_cons, List.map_nil, List.cons.injEq, and_true] at hvalues
    obtain ⟨h1, h2, h3, h4, h5⟩ := hvalues
    refine ⟨[c1, c2, c3, c4, c5], List.mem_append_right _ (Option.mem_toList.2 hwheel),
      ⟨c5, c4, c3, c2, c1⟩, mem_rowsOf.2 ⟨5, ⟨le_rfl, le_rfl⟩, rfl⟩, ?_⟩
    simp [values, Five.toList, h1, h2, h3, h4, h5]
  · have hall : ∀ v, w ≤ v → v ≤ w + 4 → v ∈ values (pile cards) := by
      intro v hlow hhigh
      refine hpile v ?_
      simp only [List.mem_cons, List.not_mem_nil, or_false]
      omega
    obtain ⟨run, hrun, hvalues⟩ := @runsFrom_complete (pile cards) [] 0 (run_nil 0)
      (pairwise_pile cards) w hall
    obtain ⟨⟨b, hconsec⟩, -⟩ := runsFrom_sound (run_nil 0) hrun
    obtain ⟨row, hrow, heq⟩ := rowsOf_complete hconsec (hvalues w (by omega) (by omega))
      (hvalues (w + 4) (by omega) (by omega))
    exact ⟨run, List.mem_append_left _ hrun, row, hrow, heq⟩

theorem shunzi_complete (hplain : NoJokers cards) (hlength : 5 ≤ cards.length) {vs : List Int}
    (hfalls : Falls vs) (hmem : vs ⊆ values cards) :
    ∃ rows, shunzi cards = .ok rows ∧ ∃ row ∈ rows, values row.toList = vs := by
  obtain ⟨run, hrun, row, hrow, hvalues⟩ := plainRuns_complete hfalls hmem
  exact ⟨_, shunzi_eq hplain hlength, row, List.mem_flatMap.2 ⟨run, List.mem_reverse.2 hrun, hrow⟩,
    hvalues⟩

end Shunzi

end SdyServer.Daboluo
