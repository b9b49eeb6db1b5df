import SdyServer.Daboluo.JokerStraights

/-!
# The search for three straights with jokers

The search takes two straights one after the other, with jokers where it has to, and asks of the
last three cards that they are a straight without any. Which values it succeeds on is told without
the cards.
-/

namespace SdyServer.Daboluo

/-- Two straights that take all jokers, and leave a straight of three values. -/
structure ThreeTaken (k : Nat) (vs : List Int) (j : Nat) (ws rest : List Int) (j' : Nat)
    (ws' last : List Int) :
    Prop where
  first : Next k vs j ws rest
  second : Next (k - j) rest j' ws' last
  all : j + j' = k
  third : FallsThree (desc last)

section Values

variable {k j j' : Nat} {vs vs' ws ws' rest last : List Int}

theorem HasStraight.mono (hstraight : HasStraight vs) (hsub : vs ⊆ vs') : HasStraight vs' := by
  obtain ⟨s, hfalls, hs⟩ := hstraight
  exact ⟨s, hfalls, fun v hv => hsub (hs hv)⟩

/-- The order of the values is of no account. -/
theorem Next.of_perm (hnext : Next k vs j ws rest) (hperm : vs.Perm vs') :
    Next k vs' j ws rest := by
  cases hnext with
  | straight falls perm => exact .straight falls (perm.trans hperm)
  | filled pos le fills =>
      refine .filled pos le ⟨fun h => fills.none (h.mono hperm.symm.subset),
        fills.perm.trans hperm, fills.size,
        fills.rising, fun v hv => fills.between v (hperm.mem_iff.2 hv), fills.fits⟩

/-- What the search finds: all jokers in the second straight, or one in each of the two. -/
theorem found_iff (hk : k = 1 ∨ k = 2) :
    Found k vs ↔ ∃ j ws rest j' ws' last, ThreeTaken k vs j ws rest j' ws' last := by
  constructor
  · intro hfound
    cases hfound with
    | later falls perm fills third =>
        exact ⟨0, _, _, k, _, _, .straight falls perm, .filled (by omega) le_rfl fills,
          Nat.zero_add k, third⟩
    | both two first second third =>
        refine ⟨1, _, _, 1, _, _, .filled le_rfl (by omega) first,
          .filled le_rfl (by omega) second, two.symm,
          third⟩
  · rintro ⟨j, ws, rest, j', ws', last, hfirst, hsecond, hall, hthird⟩
    cases hfirst with
    | straight falls perm =>
        cases hsecond with
        | straight falls' perm' => omega
        | filled pos le fills =>
            obtain rfl : j' = k := by omega
            exact .later falls perm fills hthird
    | filled pos le fills =>
        cases hsecond with
        | straight falls' perm' =>
            have hrest : rest ⊆ vs := fun v hv => fills.perm.subset (List.mem_append_right _ hv)
            refine absurd ⟨ws', falls', fun v hv => hrest ?_⟩ fills.none
            exact perm'.subset (List.mem_append_left _ hv)
        | filled pos' le' fills' =>
            obtain rfl : j = 1 := by omega
            obtain rfl : j' = 1 := by omega
            exact .both (by omega) fills fills' hthird

theorem Found.of_perm (hk : k = 1 ∨ k = 2) (hfound : Found k vs) (hperm : vs.Perm vs') :
    Found k vs' := by
  obtain ⟨j, ws, rest, j', ws', last, hfirst, hsecond, hall, hthird⟩ := (found_iff hk).1 hfound
  exact (found_iff hk).2 ⟨j, ws, rest, j', ws', last, hfirst.of_perm hperm, hsecond, hall, hthird⟩

/-- The straight that a next one is, or that jokers make of it. -/
theorem Next.exists_straight (hnext : Next k vs j ws rest) (hvs : vs ⊆ deckValues) :
    ∃ s, Falls s ∧ s ⊆ deckValues ∧ ws.Nodup ∧ ws ⊆ s := by
  cases hnext with
  | straight falls perm =>
      refine ⟨ws, falls, fun v hv => hvs (perm.subset (List.mem_append_left _ hv)), ?_,
        List.Subset.refl ws⟩
      exact falls.pairwise.imp fun h => h.ne'
  | filled pos le fills =>
      obtain ⟨s, hfalls, hdeck, hsub⟩ := fills.fits
      exact ⟨s, hfalls, hdeck, fills.rising.imp fun h => h.ne, hsub⟩

/-- What is found is among three straights. -/
theorem Found.amongStraights (hk : k = 1 ∨ k = 2) (hfound : Found k vs) (hvs : vs ⊆ deckValues) :
    AmongStraights vs := by
  obtain ⟨j, ws, rest, j', ws', last, hfirst, hsecond, -, hthird⟩ := (found_iff hk).1 hfound
  have hrest : rest ⊆ deckValues :=
    fun v hv => hvs (hfirst.perm.subset (List.mem_append_right _ hv))
  have hlast : last ⊆ deckValues :=
    fun v hv => hrest (hsecond.perm.subset (List.mem_append_right _ hv))
  obtain ⟨s, hs, hsdeck, hnodup, hsub⟩ := hfirst.exists_straight hvs
  obtain ⟨s', hs', hsdeck', hnodup', hsub'⟩ := hsecond.exists_straight hrest
  refine ⟨s, s', desc last, hs, hs', hthird, ?_, ?_⟩
  · refine List.append_subset.2 ⟨List.append_subset.2 ⟨hsdeck, hsdeck'⟩, fun v hv => ?_⟩
    exact hlast ((desc_perm last).subset hv)
  · have hparts : (ws ++ (ws' ++ last)).Perm vs := (hsecond.perm.append_left ws).trans hfirst.perm
    have hthree : (ws ++ (ws' ++ last)).Subperm (s ++ (s' ++ desc last)) :=
      (hnodup.subperm hsub).append ((hnodup'.subperm hsub').append (desc_perm last).symm.subperm)
    rw [List.append_assoc]
    exact hparts.symm.subperm.trans hthree

/-- Among three straights no value occurs four times. -/
theorem AmongStraights.count_le (hamong : AmongStraights vs) (v : Int) : vs.count v ≤ 3 := by
  obtain ⟨a, b, c, ha, hb, hc, -, hsub⟩ := hamong
  have hone : ∀ {l : List Int}, l.Pairwise (· > ·) → l.count v ≤ 1 := fun hfalls =>
    List.nodup_iff_count_le_one.1 (hfalls.imp fun h => h.ne') v
  calc vs.count v
      ≤ (a ++ b ++ c).count v := hsub.count_le v
    _ = a.count v + b.count v + c.count v := by rw [List.count_append, List.count_append]
    _ ≤ 1 + 1 + 1 := by
        gcongr
        · exact hone ha.pairwise
        · exact hone hb.pairwise
        · exact hone hc.pairwise

end Values

section Search

variable {cards left : List Card} {ws rest : List Int} {j k : Nat} {v : Five}

/-- What a row leaves of the values and of the jokers. -/
theorem Mixed.left_of_taken (hmixed : Mixed cards) (htaken : Taken cards j ws v) :
    (ws ++ values (ordinary (Daboluo.without cards v.toList))).Perm (values (ordinary cards)) ∧
      (jokersOf (Daboluo.without cards v.toList)).length = (jokersOf cards).length - j := by
  obtain ⟨hperm, hjokers⟩ := hmixed.without_perm htaken.isRow
  rw [htaken.jokers] at hjokers
  refine ⟨?_, hjokers⟩
  refine (htaken.values.symm.append_right _).trans ?_
  unfold values
  rw [← List.map_append]
  exact hperm.map _

/-- The last three cards are a straight only without jokers. -/
theorem Mixed.fallsThree_iff (hmixed : Mixed left) (hsorted : (values left).Pairwise (· ≥ ·)) :
    FallsThree (values left) ↔ (jokersOf left).length = 0 ∧
    FallsThree (desc (values (ordinary left))) := by
  have hnone : (jokersOf left).length = 0 → values left = desc (values (ordinary left)) := by
    intro hzero
    have hall : ordinary left = left := by
      refine List.filter_eq_self.2 fun c hc => decide_eq_true fun hvalue => ?_
      have hmem : c ∈ jokersOf left := mem_jokersOf.2 ⟨hc, hvalue⟩
      rw [List.length_eq_zero_iff.1 hzero] at hmem
      exact List.not_mem_nil hmem
    rw [hall]
    exact eq_desc hsorted (List.Perm.refl _)
  constructor
  · intro hfalls
    have hzero : (jokersOf left).length = 0 := by
      rw [List.length_eq_zero_iff, List.eq_nil_iff_forall_not_mem]
      intro c hc
      obtain ⟨hmem, hvalue⟩ := mem_jokersOf.1 hc
      have hall : ∀ v ∈ values left, v ≤ 13 ∨ v = 15 ∨ v = 16 := by
        intro v hv
        obtain ⟨d, hd, rfl⟩ := List.mem_map.1 hv
        rcases hmixed d hd with ⟨-, -, hle⟩ | ⟨-, hjoker⟩
        · exact .inl hle
        · exact .inr hjoker
      have hc' : c.value ∈ values left := List.mem_map_of_mem hmem
      rcases hfalls with heq | ⟨w, heq⟩
      · rw [heq] at hc'
        simp only [List.mem_cons, List.not_mem_nil, or_false] at hc'
        omega
      · rw [heq] at hall hc'
        simp only [List.forall_mem_cons] at hall
        simp only [List.mem_cons, List.not_mem_nil, or_false] at hc'
        omega
    exact ⟨hzero, hnone hzero ▸ hfalls⟩
  · rintro ⟨hzero, hfalls⟩
    rw [hnone hzero]
    exact hfalls

/-- The second straights, and what they leave. -/
theorem Mixed.second_ok (hmixed : Mixed cards) (hk : (jokersOf cards).length ≤ 2) :
    ∃ rows, shunzi cards = .ok rows ∧
      ((∃ vv ∈ rows, FallsThree (values (Daboluo.without cards vv.toList))) ↔
        ∃ j ws last, Next (jokersOf cards).length (values (ordinary cards)) j ws last ∧
          j = (jokersOf cards).length ∧ FallsThree (desc last)) := by
  obtain ⟨rows, hrows, hsound, hcomplete⟩ := hmixed.shunzi_exact hk
  have hthird : ∀ vv : Five, FallsThree (values (Daboluo.without cards vv.toList)) ↔
      (jokersOf (Daboluo.without cards vv.toList)).length = 0 ∧
        FallsThree (desc (values (ordinary (Daboluo.without cards vv.toList)))) := fun vv =>
    (hmixed.without vv.toList).fallsThree_iff (pairwise_without _ _)
  have hlast : ∀ {j ws last vv}, Next (jokersOf cards).length (values (ordinary cards)) j ws last →
      Taken cards j ws vv → desc (values (ordinary (Daboluo.without cards vv.toList))) =
          desc last := by
    intro j ws last vv hnext htaken
    refine desc_eq_of_perm ((List.perm_append_left_iff ws).1 ?_)
    exact (hmixed.left_of_taken htaken).1.trans hnext.perm.symm
  refine ⟨rows, hrows, ?_, ?_⟩
  · rintro ⟨vv, hvv, hfalls⟩
    obtain ⟨j, ws, last, hnext, htaken⟩ := hsound vv hvv
    obtain ⟨hzero, hfalls'⟩ := (hthird vv).1 hfalls
    rw [(hmixed.left_of_taken htaken).2] at hzero
    have hle := hnext.le
    exact ⟨j, ws, last, hnext, by omega, hlast hnext htaken ▸ hfalls'⟩
  · rintro ⟨j, ws, last, hnext, hall, hfalls⟩
    obtain ⟨vv, hvv, htaken⟩ := hcomplete j ws last hnext
    refine ⟨vv, hvv, (hthird vv).2 ⟨?_, hlast hnext htaken ▸ hfalls⟩⟩
    rw [(hmixed.left_of_taken htaken).2]
    omega

/-- **The search for three straights with jokers** raises nowhere, and finds what `Found` says. -/
theorem Mixed.threeStraights_ok (hmixed : Mixed cards)
    (hk : (jokersOf cards).length = 1 ∨ (jokersOf cards).length = 2) :
    ∃ r, threeStraights cards = .ok r ∧
      (r ≠ none ↔ Found (jokersOf cards).length (values (ordinary cards))) := by
  obtain ⟨rows, hrows, hsound, hcomplete⟩ := hmixed.shunzi_exact (by omega)
  have hsecond : ∀ v ∈ rows, ∃ rows', shunzi (Daboluo.without cards v.toList) = .ok rows' := by
    intro v hv
    obtain ⟨j, ws, rest, -, htaken⟩ := hsound v hv
    have hle := (hmixed.left_of_taken htaken).2
    obtain ⟨rows', hrows', -⟩ := (hmixed.without v.toList).second_ok (by omega)
    exact ⟨rows', hrows'⟩
  -- the steps of the values after a row
  have hsteps : ∀ {j ws rest v rows'}, Next (jokersOf cards).length
      (values (ordinary cards)) j ws rest →
      Taken cards j ws v → shunzi (Daboluo.without cards v.toList) = .ok rows' →
      ((∃ vv ∈ rows', FallsThree
        (values (Daboluo.without (Daboluo.without cards v.toList) vv.toList))) ↔
        ∃ j' ws' last, ThreeTaken (jokersOf cards).length (values (ordinary cards)) j ws rest j'
            ws' last) := by
    intro j ws rest v rows' hnext htaken hrows'
    obtain ⟨hleft, hjokers⟩ := hmixed.left_of_taken htaken
    have hrest : rest.Perm (values (ordinary (Daboluo.without cards v.toList))) :=
      (List.perm_append_left_iff ws).1 (hnext.perm.trans hleft.symm)
    have hle := hnext.le
    obtain ⟨rows₁, hrows₁, hiff⟩ := (hmixed.without v.toList).second_ok (by omega)
    obtain rfl : rows' = rows₁ := Except.ok.inj (hrows'.symm.trans hrows₁)
    rw [hiff, hjokers]
    constructor
    · rintro ⟨j', ws', last, hnext', hall, hthird⟩
      refine ⟨j', ws', last, hnext, hnext'.of_perm hrest.symm, ?_, hthird⟩
      rw [hall]
      exact Nat.add_sub_of_le hle
    · rintro ⟨j', ws', last, -, hnext', hall, hthird⟩
      refine ⟨j', ws', last, hnext'.of_perm hrest, ?_, hthird⟩
      rw [← hall]
      exact (Nat.add_sub_cancel_left ..).symm
  obtain ⟨r, hr, hsome, hnone⟩ := firstStraight_ok hsecond
  refine ⟨r, ?_, ?_⟩
  · unfold threeStraights
    rw [hrows]
    exact hr
  · rw [found_iff hk]
    constructor
    · intro hne
      obtain ⟨found, hfound⟩ := Option.ne_none_iff_exists'.1 hne
      obtain ⟨v, hv, rows', hrows', hfoundv⟩ := hsome found hfound
      obtain ⟨j, ws, rest, hnext, htaken⟩ := hsound v hv
      obtain ⟨vv, hvv, hthird, -⟩ := secondStraight_eq_some hfoundv
      exact ⟨j, ws, rest, (hsteps hnext htaken hrows').1 ⟨vv, hvv, hthird⟩⟩
    · rintro ⟨j, ws, rest, hthree⟩ hnil
      obtain ⟨j', ws', last, hthree'⟩ := hthree
      obtain ⟨v, hv, htaken⟩ := hcomplete j ws rest hthree'.first
      obtain ⟨rows', hrows', hmiss⟩ := hnone hnil v hv
      obtain ⟨vv, hvv, hthird⟩ := (hsteps hthree'.first htaken hrows').2 ⟨j', ws', last, hthree'⟩
      exact secondStraight_eq_none hmiss vv hvv hthird

end Search

end SdyServer.Daboluo
