import SdyServer.Daboluo.Pile

/-!
# The groups are exact

Jokers are set aside before the walk of `getGroupCards`. Of the cards that are left it keeps one
group for every value, in the list for the number of cards of that value, and one run for every
stretch of five and more consecutive values that cannot be made longer.
-/

namespace SdyServer.Daboluo

open Blocks

/-- How many cards of value `v` there are, jokers aside. -/
def ordinaryCount (cards : List Card) (v : Int) : Nat :=
  cards.countP fun c => isOrdinary c && c.value == v

/-- The list that the groups of value `v` belong to. -/
def Occurs (cards : List Card) (n : Nat) (v : Int) : Prop :=
  if n = 5 then 5 ≤ ordinaryCount cards v else ordinaryCount cards v = n

/-- One group of `n` cards for every value that occurs `n` times, the values rising. -/
structure Groups (cards : List Card) (n : Nat) (rows : List (List Card)) : Prop where
  rising : rows.Pairwise fun a b => ∀ x ∈ a, ∀ y ∈ b, x.value < y.value
  group : ∀ row ∈ rows, row.length = n ∧
    ∃ v, row.Subperm (cards.filter fun c => isOrdinary c && c.value == v)
  exact : ∀ v, (∃ row ∈ rows, ∀ c ∈ row, c.value = v) ↔ Occurs cards n v

/-- At least five consecutive values that occur, where neither the one below nor the one above
does. -/
structure MaximalRun (cards : List Card) (b : Int) (m : Nat) : Prop where
  long : 5 ≤ m
  occurs : ∀ i < m, 0 < ordinaryCount cards (b + i)
  below : ordinaryCount cards (b - 1) = 0
  above : ordinaryCount cards (b + m) = 0

/-- One row for every maximal run, with one card for each of its values, the values rising. -/
structure MaximalRuns (cards : List Card) (runs : List (List Card)) : Prop where
  rising : runs.Pairwise fun r r' => ∀ x ∈ r, ∀ y ∈ r', x.value < y.value
  run : ∀ r ∈ runs, r ⊆ cards.filter isOrdinary ∧ ∃ b, Run b r ∧ MaximalRun cards b r.length
  exact : ∀ b m, MaximalRun cards b m → ∃ r ∈ runs, Run b r ∧ r.length = m

section Pile

variable {cards : List Card}

theorem ordinaryPile_perm (cards : List Card) :
    (ordinaryPile cards).Perm (cards.filter isOrdinary) :=
  (pile_perm cards).filter _

theorem block_ordinaryPile_perm (cards : List Card) (v : Int) :
    (block Card.value (ordinaryPile cards) v).Perm
    (cards.filter fun c => isOrdinary c && c.value == v) := by
  have hsplit : (cards.filter fun c => isOrdinary c && c.value == v) =
      (cards.filter isOrdinary).filter fun c => c.value = v := by
    rw [List.filter_filter]
    refine List.filter_congr fun c _ => ?_
    rw [Bool.and_comm]
    rfl
  rw [hsplit]
  exact (ordinaryPile_perm cards).filter _

theorem length_block_ordinaryPile (cards : List Card) (v : Int) :
    (block Card.value (ordinaryPile cards) v).length = ordinaryCount cards v := by
  rw [(block_ordinaryPile_perm cards v).length_eq, ordinaryCount, List.countP_eq_length_filter]

theorem mem_values_ordinaryPile {v : Int} :
    v ∈ values (ordinaryPile cards) ↔ 0 < ordinaryCount cards v := by
  rw [← length_block_ordinaryPile, List.length_pos_iff_exists_mem]
  unfold values
  rw [List.mem_map]
  simp only [mem_block]

end Pile

section Groups

variable {cards : List Card} {n : Nat}

theorem occurs_iff (hn : n ≤ 5) {v : Int} :
    Occurs cards n v ↔ min (ordinaryCount cards v) 5 = n := by
  unfold Occurs
  split_ifs <;> omega

/-- **The groups of a list are the values that occur as often.** -/
theorem groups_getGroupCards (cards : List Card) (hpos : 0 < n) (hn : n ≤ 5) :
    Groups cards n ((getGroupCards cards).rows n) := by
  rw [rows_getGroupCards_any]
  refine ⟨?_, fun row hrow => ?_, fun v => ?_⟩
  · unfold grouped
    rw [List.pairwise_map]
    refine ((pairwise_blocks (pairwise_ordinaryPile cards)).filter _).imp fun hlt x hx y hy => ?_
    exact hlt x (List.mem_of_mem_take hx) y (List.mem_of_mem_take hy)
  · obtain ⟨b, hb, ⟨-, hlength⟩, rfl⟩ := mem_grouped.1 hrow
    obtain ⟨v, -, rfl⟩ := mem_blocks.1 hb
    refine ⟨by rw [List.length_take, Nat.min_comm, hlength], v, ?_⟩
    exact (List.take_sublist 5 _).subperm.trans (block_ordinaryPile_perm cards v).subperm
  · rw [occurs_iff hn, ← length_block_ordinaryPile]
    constructor
    · rintro ⟨row, hrow, hvalue⟩
      obtain ⟨b, hb, ⟨-, hlength⟩, rfl⟩ := mem_grouped.1 hrow
      obtain ⟨x, hx⟩ : ∃ x, x ∈ b.take 5 := by
        rw [← List.length_pos_iff_exists_mem, List.length_take]
        omega
      rw [← hvalue x hx, ← eq_block hb (List.mem_of_mem_take hx)]
      exact hlength
    · intro hlength
      obtain ⟨x, hx⟩ : ∃ x, x ∈ block Card.value (ordinaryPile cards) v := by
        rw [← List.length_pos_iff_exists_mem]
        omega
      obtain ⟨hmem, rfl⟩ := mem_block.1 hx
      refine ⟨_, mem_grouped.2 ⟨_, block_mem_blocks hmem, ⟨hpos, hlength⟩, rfl⟩, fun c hc => ?_⟩
      exact (mem_block.1 (List.mem_of_mem_take hc)).2

end Groups

section Runs

variable {V : Int → Prop} {s l : List Card} {b : Int}

/-- Where the walk stands with a run `s` and the cards `l` before it, when the values of all cards
are `V`. -/
structure Reached (V : Int → Prop) (b : Int) (s l : List Card) : Prop where
  run : Run b s
  started : s ≠ []
  below : ¬V (b - 1)
  ahead : ∀ x ∈ l, b + s.length ≤ x.value + 1
  seen : ∀ v, V v → v ∈ values l ∨ v < b + s.length

theorem value_le_of_mem {c : Card} {rest : List Card}
    (hsorted : (c :: rest).Pairwise fun a b => a.value ≤ b.value)
    {v : Int} (hv : v ∈ values (c :: rest)) : v = c.value ∨ v ∈ values rest ∧ c.value ≤ v := by
  unfold values at hv ⊢
  rw [List.map_cons, List.mem_cons] at hv
  refine hv.imp_right fun hv => ⟨hv, ?_⟩
  obtain ⟨x, hx, rfl⟩ := List.mem_map.1 hv
  exact (List.pairwise_cons.1 hsorted).1 x hx

/-- A new run starts behind a gap. -/
theorem reached_singleton {c : Card} {rest : List Card}
    (hsorted : (c :: rest).Pairwise fun a b => a.value ≤ b.value) {top : Int}
    (hgap : top + 1 < c.value)
    (hseen : ∀ v, V v → v ∈ values (c :: rest) ∨ v ≤ top) : Reached V c.value [c] rest := by
  refine ⟨run_singleton c, List.cons_ne_nil _ _, fun hV => ?_, fun x hx => ?_, fun v hV => ?_⟩
  · rcases hseen _ hV with hv | hv
    · rcases value_le_of_mem hsorted hv with hv | ⟨-, hv⟩ <;> omega
    · omega
  · have := (List.pairwise_cons.1 hsorted).1 x hx
    rw [List.length_singleton]
    push_cast
    omega
  · rw [List.length_singleton]
    push_cast
    rcases hseen _ hV with hv | hv
    · rcases value_le_of_mem hsorted hv with hv | ⟨hv, -⟩
      · exact .inr (by omega)
      · exact .inl hv
    · exact .inr (by omega)

/-- The run goes on, or it is maximal and the next card starts another one. -/
theorem Reached.next {c : Card} {rest : List Card} (hreached : Reached V b s (c :: rest))
    (hsorted : (c :: rest).Pairwise fun a b => a.value ≤ b.value) :
    (∃ s', Reached V b s' rest ∧ runsFrom s (c :: rest) = runsFrom s' rest) ∨
      ¬V (b + s.length) ∧ Reached V c.value [c] rest ∧ (∀ x ∈ s, x.value < c.value) ∧
        runsFrom s (c :: rest) = kept s ++ runsFrom [c] rest := by
  obtain ⟨hrun, hstarted, hbelow, hahead, hseen⟩ := hreached
  have hc := hahead c (List.mem_cons_self ..)
  have hlow : b ∈ values s := by
    have := List.length_pos_of_ne_nil hstarted
    exact hrun.mem_values.2 ⟨le_refl _, by omega⟩
  rcases runsFrom_cons hrun c rest with
    ⟨b', s', hsub, hrun', hvalues, heq⟩ | ⟨last, -, hend, hne, hgap, heq⟩
  · have hlast := (Run.concat_iff.1 hrun').2
    have hlength : (s' ++ [c]).length = s'.length + 1 := by simp
    -- the run keeps its low end
    obtain rfl : b' = b := by
      have hle := (hrun'.mem_values.1 (hvalues b hlow)).1
      have hlow' : b' ∈ values (s' ++ [c]) := hrun'.mem_values.2 ⟨le_refl _, by omega⟩
      unfold values at hlow'
      rw [List.map_append, List.mem_append] at hlow'
      rcases hlow' with hmem | hmem
      · have := (hrun.mem_values.1 ((hsub.map _).subset hmem)).1
        omega
      · have := (hrun.mem_values.1 hlow).2
        rw [List.map_singleton, List.mem_singleton] at hmem
        omega
    refine .inl ⟨s' ++ [c], ⟨hrun', by simp, hbelow, fun x hx => ?_, fun v hV => ?_⟩, heq⟩
    · have := (List.pairwise_cons.1 hsorted).1 x hx
      rw [hlength]
      push_cast
      omega
    · rw [hlength]
      push_cast
      rcases hseen v hV with hv | hv
      · rcases value_le_of_mem hsorted hv with hv | ⟨hv, -⟩
        · exact .inr (by omega)
        · exact .inl hv
      · exact .inr (by omega)
  · refine .inr ⟨fun hV => ?_, @reached_singleton V _ _ hsorted last.value (by omega)
      fun v hV => ?_,
      fun x hx => ?_, heq⟩
    · rcases hseen _ hV with hv | hv
      · rcases value_le_of_mem hsorted hv with hv | ⟨-, hv⟩ <;> omega
      · omega
    · refine (hseen v hV).imp_right fun hv => ?_
      omega
    · have := (hrun.mem_values.1 (List.mem_map_of_mem hx)).2
      omega

/-- Every run that is kept is maximal. -/
theorem runsFrom_maximal (hreached : Reached V b s l)
    (hsorted : l.Pairwise fun a b => a.value ≤ b.value)
    {r : List Card} (hr : r ∈ runsFrom s l) : ∃ b, Run b r ∧ ¬V (b - 1) ∧ ¬V (b + r.length) := by
  induction l generalizing s b with
  | nil =>
      obtain ⟨rfl, -⟩ := mem_kept.1 hr
      refine ⟨b, hreached.run, hreached.below, fun hV => ?_⟩
      rcases hreached.seen _ hV with hv | hv
      · exact List.not_mem_nil hv
      · omega
  | cons c rest ih =>
      have hrest := (List.pairwise_cons.1 hsorted).2
      rcases hreached.next hsorted with ⟨s', hreached', heq⟩ | ⟨habove, hreached', -, heq⟩
      · rw [heq] at hr
        exact ih hreached' hrest hr
      · rw [heq, List.mem_append] at hr
        rcases hr with hr | hr
        · obtain ⟨rfl, -⟩ := mem_kept.1 hr
          exact ⟨b, hreached.run, hreached.below, habove⟩
        · exact ih hreached' hrest hr

theorem runsFrom_rising (hreached : Reached V b s l)
    (hsorted : l.Pairwise fun a b => a.value ≤ b.value) :
    (runsFrom s l).Pairwise fun r r' => ∀ x ∈ r, ∀ y ∈ r', x.value < y.value := by
  induction l generalizing s b with
  | nil =>
      show (kept s).Pairwise _
      unfold kept
      split_ifs
      · exact List.pairwise_singleton ..
      · exact List.Pairwise.nil
  | cons c rest ih =>
      obtain ⟨hle, hrest⟩ := List.pairwise_cons.1 hsorted
      rcases hreached.next hsorted with ⟨s', hreached', heq⟩ | ⟨-, hreached', hlt, heq⟩
      · rw [heq]
        exact ih hreached' hrest
      · rw [heq, List.pairwise_append]
        refine ⟨?_, ih hreached' hrest, fun r hr r' hr' x hx y hy => ?_⟩
        · unfold kept
          split_ifs
          · exact List.pairwise_singleton ..
          · exact List.Pairwise.nil
        · obtain ⟨rfl, -⟩ := mem_kept.1 hr
          have hxc := hlt x hx
          obtain ⟨-, -, hfrom⟩ := runsFrom_sound (run_singleton c) hr'
          rcases hfrom y hy with hy | hy
          · rwa [List.mem_singleton.1 hy]
          · exact hxc.trans_le (hle y hy)

end Runs

section Straights

variable {cards : List Card}

theorem Run.unique {s : List Card} {b b' : Int} (hrun : Run b s) (hrun' : Run b' s) (hne : s ≠ []) :
    b = b' := by
  have hpos := List.length_pos_of_ne_nil hne
  have hle := (hrun'.mem_values.1 (hrun.mem_values.2 ⟨le_refl b, by omega⟩)).1
  have hge := (hrun.mem_values.1 (hrun'.mem_values.2 ⟨le_refl b', by omega⟩)).1
  omega

/-- Two maximal runs with a common value are one. -/
theorem MaximalRun.eq_of_mem {b b' v : Int} {m m' : Nat} (h : MaximalRun cards b m)
    (h' : MaximalRun cards b' m')
    (hv : b ≤ v ∧ v < b + m) (hv' : b' ≤ v ∧ v < b' + m') : b = b' ∧ m = m' := by
  have hin : ∀ w, b ≤ w → w < b + m → 0 < ordinaryCount cards w := by
    intro w hlow hhigh
    obtain ⟨i, rfl⟩ : ∃ i : Nat, w = b + i := ⟨(w - b).toNat, by omega⟩
    exact h.occurs i (by omega)
  have hin' : ∀ w, b' ≤ w → w < b' + m' → 0 < ordinaryCount cards w := by
    intro w hlow hhigh
    obtain ⟨i, rfl⟩ : ∃ i : Nat, w = b' + i := ⟨(w - b').toNat, by omega⟩
    exact h'.occurs i (by omega)
  have hbelow := h.below
  have hbelow' := h'.below
  have habove := h.above
  have habove' := h'.above
  have hb : b = b' := by
    rcases lt_trichotomy b b' with hlt | heq | hlt
    · have := hin (b' - 1) (by omega) (by omega)
      omega
    · exact heq
    · have := hin' (b - 1) (by omega) (by omega)
      omega
  subst hb
  refine ⟨rfl, ?_⟩
  rcases lt_trichotomy m m' with hlt | heq | hlt
  · have := hin' (b + m) (by omega) (by omega)
    omega
  · exact heq
  · have := hin (b + m') (by omega) (by omega)
    omega

/-- **The straights of a list are its maximal runs.** -/
theorem maximalRuns_getGroupCards (cards : List Card) :
    MaximalRuns cards (getGroupCards cards).szArr := by
  rw [(getGroupCards_piles_any cards).1]
  have hsorted := pairwise_ordinaryPile cards
  have hsub : ∀ r ∈ runsFrom [] (ordinaryPile cards), r ⊆ ordinaryPile cards := by
    intro r hr x hx
    obtain ⟨-, -, hfrom⟩ := @runsFrom_sound (ordinaryPile cards) [] 0 rfl r hr
    exact (hfrom x hx).resolve_left List.not_mem_nil
  have hmax : (∀ r ∈ runsFrom [] (ordinaryPile cards), ∃ b, Run b r ∧
      ¬0 < ordinaryCount cards (b - 1) ∧ ¬0 < ordinaryCount cards (b + r.length)) ∧
      (runsFrom [] (ordinaryPile cards)).Pairwise fun r r' => ∀ x ∈ r, ∀ y ∈ r', x.value <
          y.value := by
    have hall : ∀ v, 0 < ordinaryCount cards v → v ∈ values (ordinaryPile cards) := fun v =>
      mem_values_ordinaryPile.2
    match ordinaryPile cards, hsorted, hall with
    | [], _, _ => exact ⟨fun r hr => absurd hr List.not_mem_nil, List.Pairwise.nil⟩
    | c :: rest, hsorted, hall =>
        have hreached : Reached (fun v => 0 < ordinaryCount cards v) c.value [c] rest :=
          @reached_singleton _ _ _ hsorted (c.value - 2) (by omega) fun v hV => .inl (hall v hV)
        have hrest := (List.pairwise_cons.1 hsorted).2
        have hfirst : runsFrom [] (c :: rest) = runsFrom [c] rest := rfl
        rw [hfirst]
        exact ⟨fun r hr => runsFrom_maximal hreached hrest hr, runsFrom_rising hreached hrest⟩
  have hrun : ∀ r ∈ runsFrom [] (ordinaryPile cards), ∃ b, Run b r ∧
      MaximalRun cards b r.length := by
    intro r hr
    obtain ⟨b, hrun, hbelow, habove⟩ := hmax.1 r hr
    obtain ⟨-, hlong, -⟩ := @runsFrom_sound (ordinaryPile cards) [] 0 rfl r hr
    refine ⟨b, hrun, hlong, fun i hi => ?_, by omega, by omega⟩
    have hmem :=
      hrun.mem_values.2 ⟨(by omega : b ≤ b + i), (by omega : b + (i : Int) < b + r.length)⟩
    exact mem_values_ordinaryPile.1 (List.map_subset _ (hsub r hr) hmem)
  refine ⟨hmax.2,
    fun r hr => ⟨fun x hx => (ordinaryPile_perm cards).subset (hsub r hr hx), hrun r hr⟩, ?_⟩
  intro b m hmaximal
  have hlong := hmaximal.long
  obtain ⟨r, hr, hvalues⟩ :=
    @runsFrom_complete (ordinaryPile cards) [] 0 rfl hsorted b fun v hlow hhigh => by
    obtain ⟨i, rfl⟩ : ∃ i : Nat, v = b + i := ⟨(v - b).toNat, by omega⟩
    exact mem_values_ordinaryPile.2 (hmaximal.occurs i (by omega))
  obtain ⟨b', hrun', hmaximal'⟩ := hrun r hr
  obtain ⟨rfl, rfl⟩ := hmaximal.eq_of_mem hmaximal' ⟨le_refl b, by omega⟩
    (hrun'.mem_values.1 (hvalues b (le_refl b) (by omega)))
  exact ⟨r, hr, hrun', rfl⟩

/-- **`getGroupCards` groups exactly.** -/
theorem getGroupCards_exact (cards : List Card) :
    Groups cards 1 ((getGroupCards cards).wlArr.map fun c => [c]) ∧
      Groups cards 2 ((getGroupCards cards).dzArr.map fun d => [d.1, d.2]) ∧
        Groups cards 3 ((getGroupCards cards).stArr.map Three.toList) ∧
          Groups cards 4 ((getGroupCards cards).tzArr.map fun q => [q.1, q.2.1, q.2.2.1, q.2.2.2]) ∧
            Groups cards 5 ((getGroupCards cards).wtArr.map Five.toList) ∧
              MaximalRuns cards (getGroupCards cards).szArr :=
  ⟨groups_getGroupCards cards (by decide) (by decide), groups_getGroupCards cards (by decide)
    (by decide),
    groups_getGroupCards cards (by decide) (by decide), groups_getGroupCards cards (by decide)
      (by decide),
    groups_getGroupCards cards (by decide) (by decide), maximalRuns_getGroupCards cards⟩

end Straights

end SdyServer.Daboluo
