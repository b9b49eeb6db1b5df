import SdyServer.Daboluo.Honest
import SdyServer.Daboluo.Machine
import SdyServer.Daboluo.OneDeck

/-!
# Automatic play finds an arrangement

Every hand of seventeen cards from one deck has an arrangement. The best bottom row of the first
type that the hand has leaves twelve cards, in which the search finds a middle row that it lets
stand, and of the seven cards after it a top row.
-/

namespace SdyServer.Daboluo

open Blocks

section Growth

variable {group : Int → Option (List Card → Lua (List Five))} {cards : List Card}
  {found : List Arrangement} {i : Nat} {bottom : Five}

/-- The generator of type `n` and the foul tests of its rows answer on what is left. -/
def Answers (group : Int → Option (List Card → Lua (List Five))) (sArr : List Card) (i : Nat)
    (bottom : Five) (n : Nat) : Prop :=
  ∃ generator middles, group n = some generator ∧ generator sArr = .ok middles ∧
    ∀ middle ∈ middles, ∃ b, fits i n bottom middle = .ok b

theorem tryTops_grows {n : Nat} {middle : Five} {sArr : List Card} {ks : List Nat}
    (hfound : found ≠ []) :
    tryTops i n bottom middle sArr found ks ≠ [] := by
  induction ks with
  | nil => exact hfound
  | cons k ks ih =>
      rw [tryTops]
      split
      · exact ih
      · dsimp only
        split_ifs
        · exact ih
        · exact hfound
        · simp

/-- A top row of a type that is not compared with the middle row ends the loop. -/
theorem tryTops_finds {n k : Nat} {middle : Five} {sArr : List Card} {ks : List Nat} (hk : k ∈ ks)
    (htop : t3Group k sArr ≠ []) (hclash : ¬Clash n k) :
    tryTops i n bottom middle sArr found ks ≠ [] := by
  induction ks with
  | nil => exact absurd hk List.not_mem_nil
  | cons k' ks ih =>
      rw [tryTops]
      rcases List.mem_cons.1 hk with rfl | hk
      · split
        · rename_i hnone
          exact absurd hnone htop
        · dsimp only
          rw [if_neg fun h => hclash h.1]
          split_ifs with hknown
          · obtain ⟨arr, harr, -⟩ := List.any_eq_true.1 hknown
            exact List.ne_nil_of_mem harr
          · simp
      · split
        · exact ih hk
        · dsimp only
          split_ifs with hfoul hknown
          · exact ih hk
          · obtain ⟨arr, harr, -⟩ := List.any_eq_true.1 hknown
            exact List.ne_nil_of_mem harr
          · simp

theorem tryMiddles_ok {n : Nat} {sArr : List Card} {middles : List Five}
    (hfits : ∀ middle ∈ middles, ∃ b, fits i n bottom middle = .ok b) :
    ∃ result, tryMiddles i n bottom sArr found middles = .ok result ∧
    (found ≠ [] → result ≠ []) := by
  induction middles generalizing found with
  | nil => exact ⟨found, rfl, id⟩
  | cons middle rest ih =>
      rw [List.forall_mem_cons] at hfits
      obtain ⟨b, hb⟩ := hfits.1
      rw [tryMiddles_cons]
      by_cases henough : found.length > 5
      · rw [if_pos henough]
        exact ⟨found, rfl, id⟩
      rw [if_neg henough, hb, Lua.ok_bind]
      cases b with
      | false => exact ih hfits.2
      | true =>
          rw [if_pos rfl]
          by_cases hstop : i = 1 ∧ n = 3 ∧ bottom.c1.value = 8
          · rw [if_pos hstop]
            exact ⟨found, rfl, id⟩
          rw [if_neg hstop]
          obtain ⟨result, hresult, hgrows⟩ :=
            @ih (tryTops i n bottom middle (without sArr middle.toList)
            found (up (if n < 8 then 1 else if n < 10 then 2 else 3) 3)) hfits.2
          exact ⟨result, hresult, fun hfound => hgrows (tryTops_grows hfound)⟩

theorem tryMiddleTypes_cons {n : Nat} {ns : List Nat} {generator : List Card → Lua (List Five)}
    {middles : List Five} (hgenerator : group n = some generator)
    (hmiddles : generator (without cards bottom.toList) = .ok middles) :
    tryMiddleTypes group i bottom cards found (n :: ns) =
      if found.length > 5 then .ok (false, found)
      else if middles.length > 0 then
        if n < i then .ok (true, found)
        else tryMiddles i n bottom (without cards bottom.toList) found middles >>= fun found' =>
          tryMiddleTypes group i bottom cards found' ns
      else tryMiddleTypes group i bottom cards found ns := by
  have hmiddles' : generator (delCards (some (sorted cards)) (some bottom.toList)) = .ok middles :=
    hmiddles
  rw [tryMiddleTypes, hgenerator, Lua.need_some, Lua.ok_bind]
  simp only [hmiddles', Lua.ok_bind]
  rfl

theorem tryMiddleTypes_ok {ns : List Nat}
    (hanswers : ∀ n ∈ ns, Answers group (without cards bottom.toList) i bottom n) :
    ∃ breakFor result, tryMiddleTypes group i bottom cards found ns = .ok (breakFor, result) ∧
      (found ≠ [] → result ≠ []) := by
  induction ns generalizing found with
  | nil => exact ⟨false, found, rfl, id⟩
  | cons n ns ih =>
      rw [List.forall_mem_cons] at hanswers
      obtain ⟨generator, middles, hgenerator, hmiddles, hfits⟩ := hanswers.1
      rw [tryMiddleTypes_cons hgenerator hmiddles]
      by_cases henough : found.length > 5
      · rw [if_pos henough]
        exact ⟨false, found, rfl, id⟩
      rw [if_neg henough]
      by_cases hany : middles.length > 0
      · rw [if_pos hany]
        by_cases hbetter : n < i
        · rw [if_pos hbetter]
          exact ⟨true, found, rfl, id⟩
        rw [if_neg hbetter]
        obtain ⟨found', hfound', hgrows⟩ :=
          @tryMiddles_ok found i bottom n (without cards bottom.toList)
          middles hfits
        obtain ⟨breakFor, result, hresult, hgrows'⟩ := @ih found' hanswers.2
        rw [hfound', Lua.ok_bind]
        exact ⟨breakFor, result, hresult, fun hfound => hgrows' (hgrows hfound)⟩
      · rw [if_neg hany]
        exact ih hanswers.2

theorem tryBottoms_ok {bottoms : List Five}
    (hanswers : ∀ bottom ∈ bottoms, ∀ n ∈ up 1 10, Answers group (without cards bottom.toList)
      i bottom n) :
    ∃ result, tryBottoms group i cards found bottoms = .ok result ∧ (found ≠ [] → result ≠ []) := by
  induction bottoms generalizing found with
  | nil => exact ⟨found, rfl, id⟩
  | cons bottom rest ih =>
      rw [List.forall_mem_cons] at hanswers
      obtain ⟨breakFor, found', hfound', hgrows⟩ :=
        @tryMiddleTypes_ok group cards found i bottom (up 1 10)
        hanswers.1
      rw [tryBottoms, hfound', Lua.ok_bind]
      cases breakFor with
      | true => exact ⟨found', rfl, hgrows⟩
      | false =>
          obtain ⟨result, hresult, hgrows'⟩ := @ih found' hanswers.2
          exact ⟨result, hresult, fun hfound => hgrows' (hgrows hfound)⟩

/-- The first middle row of type `n` stands, and a top row fits above it. -/
structure FirstFits (group : Int → Option (List Card → Lua (List Five)))
    (sArr : List Card) (i : Nat)
    (bottom : Five) (n : Nat) : Prop where
  order : i ≤ n
  counts : ¬(i = 1 ∧ n = 3 ∧ bottom.c1.value = 8)
  found : ∃ generator middle rest, group n = some generator ∧ generator sArr =
    .ok (middle :: rest) ∧
    fits i n bottom middle = .ok true ∧
      ∃ k ∈ up (if n < 8 then 1 else if n < 10 then 2 else 3) 3,
        t3Group k (without sArr middle.toList) ≠ [] ∧ ¬Clash n k

theorem tryMiddles_finds {n : Nat} {sArr : List Card} {middle : Five} {rest : List Five}
    (hcounts : ¬(i = 1 ∧ n = 3 ∧ bottom.c1.value = 8)) (hfirst : fits i n bottom middle = .ok true)
    {k : Nat}
    (hk : k ∈ up (if n < 8 then 1 else if n < 10 then 2 else 3) 3)
    (htop : t3Group k (without sArr middle.toList) ≠ []) (hclash : ¬Clash n k)
    (hfits : ∀ middle' ∈ middle :: rest, ∃ b, fits i n bottom middle' = .ok b) :
    ∃ result, tryMiddles i n bottom sArr found (middle :: rest) = .ok result ∧ result ≠ [] := by
  rw [List.forall_mem_cons] at hfits
  rw [tryMiddles_cons]
  by_cases henough : found.length > 5
  · rw [if_pos henough]
    exact ⟨found, rfl, List.ne_nil_of_length_pos (by omega)⟩
  rw [if_neg henough, hfirst, Lua.ok_bind, if_pos rfl, if_neg hcounts]
  obtain ⟨result, hresult, hgrows⟩ :=
    @tryMiddles_ok (tryTops i n bottom middle (without sArr middle.toList)
    found (up (if n < 8 then 1 else if n < 10 then 2 else 3) 3)) i bottom n sArr rest hfits.2
  exact ⟨result, hresult, hgrows (tryTops_finds hk htop hclash)⟩

/-- A type whose first row fits is reached unless a type better than the bottom row's ends the
loop. -/
theorem tryMiddleTypes_finds {ns : List Nat} {n : Nat}
    (hanswers : ∀ n ∈ ns, Answers group (without cards bottom.toList) i bottom n)
    (hclear : ∀ m ∈ ns, m < i → ∃ generator, group m = some generator ∧
      generator (without cards bottom.toList) = .ok [])
    (hn : n ∈ ns) (hfits : FirstFits group (without cards bottom.toList) i bottom n) :
    ∃ breakFor result, tryMiddleTypes group i bottom cards found ns = .ok (breakFor, result) ∧
      result ≠ [] := by
  induction ns generalizing found with
  | nil => exact absurd hn List.not_mem_nil
  | cons m ns ih =>
      have hanswers' := fun n hn => hanswers n (List.mem_cons_of_mem m hn)
      have hclear' := fun n hn => hclear n (List.mem_cons_of_mem m hn)
      obtain ⟨generator, middles, hgenerator, hmiddles, hall⟩ := hanswers m (List.mem_cons_self ..)
      rw [tryMiddleTypes_cons hgenerator hmiddles]
      by_cases henough : found.length > 5
      · rw [if_pos henough]
        exact ⟨false, found, rfl, List.ne_nil_of_length_pos (by omega)⟩
      rw [if_neg henough]
      rcases List.mem_cons.1 hn with rfl | hn
      · obtain ⟨generator', middle, rest, hgenerator', hmiddles', hfirst, k, hk, htop, hclash⟩ :=
          hfits.found
        rw [hgenerator, Option.some.injEq] at hgenerator'
        subst hgenerator'
        rw [hmiddles, Except.ok.injEq] at hmiddles'
        subst hmiddles'
        rw [if_pos (show (middle :: rest).length > 0 from Nat.zero_lt_succ _),
          if_neg (not_lt.2 hfits.order)]
        obtain ⟨found', hfound', hne⟩ :=
          @tryMiddles_finds found i bottom n _ middle rest hfits.counts hfirst k
          hk htop hclash hall
        obtain ⟨breakFor, result, hresult, hgrows⟩ :=
          @tryMiddleTypes_ok group cards found' i bottom ns hanswers'
        rw [hfound', Lua.ok_bind]
        exact ⟨breakFor, result, hresult, hgrows hne⟩
      · by_cases hany : middles.length > 0
        · rw [if_pos hany]
          by_cases hbetter : m < i
          · obtain ⟨generator', hgenerator', hnone⟩ := hclear m (List.mem_cons_self ..) hbetter
            rw [hgenerator, Option.some.injEq] at hgenerator'
            subst hgenerator'
            rw [hmiddles, Except.ok.injEq] at hnone
            subst hnone
            exact absurd hany (lt_irrefl 0)
          rw [if_neg hbetter]
          obtain ⟨found', hfound', -⟩ :=
            @tryMiddles_ok found i bottom m (without cards bottom.toList)
            middles hall
          rw [hfound', Lua.ok_bind]
          exact ih hanswers' hclear' hn
        · rw [if_neg hany]
          exact ih hanswers' hclear' hn

end Growth

section Generators

variable {cards : List Card}

theorem generator_answers (hsuited : Suited cards) {n : Nat} (hn : 1 ≤ n ∧ n ≤ 10) :
    ∃ generator rows, groupTable false n = some generator ∧ generator cards = .ok rows ∧
      ∀ row ∈ rows, Produces (groupTable false) n cards row := by
  obtain ⟨generator, hgenerator⟩ := @exists_tGroup n (by omega)
  obtain ⟨rows, hrows⟩ := generator_ok hsuited (by omega) hgenerator
  exact ⟨generator, rows, hgenerator, hrows,
    fun row hrow => ⟨generator, rows, hgenerator, hrows, hrow⟩⟩

theorem OneDeck.sound (hdeck : OneDeck cards) {n : Nat} (hn : 1 ≤ n ∧ n ≤ 10) {row : Five}
    (hrow : Produces (groupTable false) n cards row) :
    row.toList.Subperm cards ∧ RowOfFive (11 - n) row.toList := by
  obtain ⟨hsub, hrow⟩ := hrow.sound hdeck.suited hn
  refine ⟨hsub, rfl, ?_⟩
  have hrow := hrow hdeck.range
  rwa [place_eq (by simp)] at hrow

theorem OneDeck.rest (hdeck : OneDeck cards) {row : List Card} (hsub : row.Subperm cards) :
    OneDeck (without cards row) :=
  hdeck.of_subperm
    ((List.sublist_append_right _ _).subperm.trans (without_perm hdeck.plain hsub).subperm)

theorem length_without (hdeck : OneDeck cards) {row : Five} (hsub : row.toList.Subperm cards) :
    (without cards row.toList).length + 5 = cards.length := by
  rw [← (without_perm hdeck.plain hsub).length_eq, List.length_append, Five.length_toList,
    Nat.add_comm]

theorem OneDeck.answers (hdeck : OneDeck cards) {i n : Nat} (hi : 1 ≤ i ∧ i ≤ 10)
    (hn : 1 ≤ n ∧ n ≤ 10)
    {bottom : Five} (hbottom : Produces (groupTable false) i cards bottom) :
    Answers (groupTable false) (without cards bottom.toList) i bottom n := by
  obtain ⟨hsub, hrow⟩ := hdeck.sound hi hbottom
  have hdeck' := hdeck.rest hsub
  obtain ⟨generator, middles, hgenerator, hmiddles, hproduces⟩ := generator_answers hdeck'.suited hn
  refine ⟨generator, middles, hgenerator, hmiddles, fun middle hmem => ?_⟩
  unfold fits
  by_cases hin : i = n
  · subst hin
    obtain ⟨answer, hanswer⟩ :=
      isMessireFive_ok (by omega) hrow (hdeck'.sound hn (hproduces middle hmem)).2
    exact ⟨answer == some false, by rw [if_pos rfl, hanswer]; rfl⟩
  · exact ⟨true, if_neg hin⟩

/-- Seven cards have a pair, or three single cards. -/
theorem OneDeck.exists_top (hdeck : OneDeck cards) (hlength : cards.length = 7) :
    (¬(values cards).Nodup → t3Group 2 cards ≠ []) ∧
    ((values cards).Nodup → t3Group 3 cards ≠ []) := by
  have hplain := hdeck.suited.noJokers
  refine ⟨fun hpair => ?_, fun hnodup => ?_⟩
  · rw [t3Group_two]
    exact yiduiThree_ne_nil hplain (by omega) hpair
  · rw [t3Group_three]
    obtain ⟨-, hsize, hkinds⟩ := hdeck.counted
    rw [hnodup.dedup, values, List.length_map] at hkinds
    exact wulongThree_ne_nil hplain (by omega) (by omega)

/-- Every row of a type up to two pairs leaves a top row. -/
theorem OneDeck.firstFits (hdeck : OneDeck cards) (hlength : cards.length = 12) {i n : Nat}
    {bottom : Five}
    (hi : 2 ≤ i) (hin : i ≤ n) (hn : n ≤ 8) {generator : List Card → Lua (List Five)}
    {rows : List Five}
    (hgenerator : groupTable false n = some generator) (hrows : generator cards = .ok rows)
    (hne : rows ≠ [])
    (hfits : i = n → ∀ middle ∈ rows.head?, fits i n bottom middle = .ok true) :
    FirstFits (groupTable false) cards i bottom n := by
  match rows, hne with
  | middle :: rest, _ =>
      have hproduces : Produces (groupTable false) n cards middle :=
        ⟨generator, _, hgenerator, hrows, List.mem_cons_self ..⟩
      have hsub := (hdeck.sound (by omega) hproduces).1
      obtain ⟨hpair, hsingles⟩ := (hdeck.rest hsub).exists_top (by
        have := length_without hdeck hsub
        omega)
      refine ⟨hin, by omega, generator, middle, rest, hgenerator, hrows, ?_, ?_⟩
      · by_cases heq : i = n
        · exact hfits heq middle rfl
        · exact if_neg heq
      · by_cases hnodup : (values (without cards middle.toList)).Nodup
        · refine ⟨3, mem_up.2 ⟨?_, le_rfl⟩, hsingles hnodup, by unfold Clash; omega⟩
          split_ifs <;> omega
        · refine ⟨2, mem_up.2 ⟨?_, by decide⟩, hpair hnodup, by unfold Clash; omega⟩
          split_ifs <;> omega

theorem count_le_of_subperm {row : List Card} (hsub : row.Subperm cards) (v : Int) :
    (values row).count v ≤ (values cards).count v := by
  obtain ⟨l, hperm, hl⟩ := hsub
  have hcount : (values row).count v = (values l).count v :=
    ((hperm.map Card.value).count_eq v).symm
  rw [hcount]
  exact (hl.map Card.value).count_le v

theorem exists_of_times_pos {n : Nat} (hpos : 0 < times cards n) :
    ∃ v, min ((values cards).count v) 5 = n := by
  rw [times_eq_length] at hpos
  obtain ⟨v, hv⟩ := List.exists_mem_of_length_pos hpos
  exact ⟨v, of_decide_eq_true (List.mem_filter.1 hv).2⟩

/-- A row with a block of `n` cards in front takes `n` cards of a value. -/
theorem le_count_of_block {row : Five} {n : Nat} {v : Int}
    (hblock : (List.replicate n v).Sublist (values row.toList))
    (hsub : row.toList.Subperm cards) : n ≤ (values cards).count v := by
  have hle := hblock.count_le v
  rw [List.count_replicate_self] at hle
  exact hle.trans (count_le_of_subperm hsub v)

theorem sitiao_count (hplain : NoJokers cards) {row : Five} {rows : List Five}
    (hrows : sitiao cards = .ok rows) (hmem : row ∈ rows) :
    values row.toList = [row.c1.value, row.c1.value, row.c1.value, row.c1.value, row.c5.value] ∧
      row.c1.value ≠ row.c5.value := by
  have hparts := sitiao_parts hplain hrows hmem
  have hkey := hparts.key_eq
  have hpair := hparts.pairwise
  simp only [List.pairwise_cons, List.mem_cons, List.not_mem_nil, or_false,
    forall_eq_or_imp, forall_eq,
    false_imp_iff, implies_true, and_true, List.Pairwise.nil] at hkey hpair
  refine ⟨?_, hpair.1⟩
  simp only [values, Five.toList, List.map_cons, List.map_nil, List.cons.injEq, and_true, true_and]
  omega

theorem groups_quad {x y : Int} (hne : x ≠ y) : groups [x, x, x, x, y] = [x, y] := by
  refine (eq_groups ?_ ?_).symm
  · simp [List.dedup_cons_of_mem, List.dedup_cons_of_notMem, hne]
  · simp [Precedes, List.count_cons, hne, hne.symm]

/-- Of two quads the higher one stands below. -/
theorem fits_quads {bottom middle : Five} (hbottom : RowOfFive 8 bottom.toList)
    (hmiddle : RowOfFive 8 middle.toList) {x y x' y' : Int}
    (hvalues : values bottom.toList = [x, x, x, x, y])
    (hvalues' : values middle.toList = [x', x', x', x', y']) (hne : x ≠ y) (hne' : x' ≠ y')
    (hlt : x' < x) :
    fits 3 3 bottom middle = .ok true := by
  have hgroups : isMessireFive 8 bottom.toList middle.toList = .ok (some false) := by
    rw [isMessireFive_groups (by decide) hbottom hmiddle, hvalues, hvalues']
    have hkey : rowKey 8 [x, x, x, x, y] = [x] ∧ rowKey 8 [x', x', x', x', y'] = [x'] := by
      unfold rowKey reference
      rw [if_pos rfl, if_pos rfl, if_neg (by decide), if_neg (by decide), groups_quad hne,
        groups_quad hne']
      exact ⟨rfl, rfl⟩
    rw [hkey.1, hkey.2, ThreeWay.verdict_eq_true_iff.2 (ThreeWay.cons_lt_cons_iff.2 (.inl hlt))]
    rfl
  unfold fits
  rw [if_pos rfl]
  exact congrArg (fun r => r >>= fun a => pure (a == some false)) hgroups

/-- A value of which a hand has four cards is one of its quads. -/
theorem exists_quad (hplain : NoJokers cards) {v : Int} (hcount : (values cards).count v = 4) :
    ∃ q ∈ (getGroupCards cards).tzArr, q.1.value = v := by
  obtain ⟨c, hc, rfl⟩ :=
    List.mem_map.1 (List.count_pos_iff.1 (by omega : 0 < (values cards).count v))
  have hlength : (block Card.value (pile cards) c.value).length = 4 := by
    rw [length_block, ← hcount]
    exact ((pile_perm cards).map Card.value).count_eq _
  have hmem : block Card.value (pile cards) c.value ∈ (getGroupCards cards).rows 4 := by
    rw [rows_getGroupCards hplain, mem_grouped]
    refine ⟨_, block_mem_blocks (mem_pile.2 hc), ⟨by decide, by rw [hlength]; rfl⟩, ?_⟩
    exact List.take_of_length_le (by omega)
  obtain ⟨q, hq, heq⟩ := List.mem_map.1 hmem
  refine ⟨q, hq, ?_⟩
  have hfirst : q.1 ∈ block Card.value (pile cards) c.value := heq ▸ List.mem_cons_self ..
  exact (mem_block.1 hfirst).2

end Generators

section Middles

variable {cards sArr : List Card}

/-- The rows of the types before two pairs, by their generators. -/
theorem groupTable_best : groupTable false 1 = some wutong ∧ groupTable false 2 = some tonghuashun ∧
    groupTable false 3 = some sitiao ∧ groupTable false 4 = some fun cards => .ok (hulu cards) :=
  ⟨rfl, rfl, rfl, rfl⟩

theorem OneDeck.wutong_eq_nil (hdeck : OneDeck cards) {rows : List Five}
    (hrows : wutong cards = .ok rows) :
    rows = [] := by
  by_cases hshort : cards.length < 5
  · unfold wutong at hrows
    rw [if_pos hshort] at hrows
    cases hrows
    rfl
  rw [wutong_eq hdeck.suited.noJokers (by omega), Except.ok.injEq] at hrows
  subst hrows
  have hlength := (times_eq hdeck.suited.noJokers).2.2.2.2
  rw [hdeck.counted.fives] at hlength
  rw [List.length_eq_zero_iff.1 hlength]
  rfl

/-- A quad among seventeen cards is a row of four. -/
theorem OneDeck.sitiao_rows (hdeck : OneDeck cards) (hlength : cards.length = 17) {v : Int}
    (hcount : 4 ≤ (values cards).count v) {rows : List Five} (hrows : sitiao cards = .ok rows) :
    rows ≠ [] := by
  have hfour := hdeck.count_le v
  have htz : 0 < times cards 4 := times_pos (v := v) (by decide) (by omega)
  have hsize := hdeck.counted.size
  exact sitiao_ne_nil hdeck.suited.noJokers hrows (by omega) htz (by omega)

/-- Trips and a pair among seventeen cards without quads are a full house. -/
theorem OneDeck.hulu_rows (hdeck : OneDeck cards) (hlength : cards.length = 17)
    (hquads : ∀ v, (values cards).count v < 4) {u v : Int} (hne : u ≠ v)
    (hu : 3 ≤ (values cards).count u) (hv : 2 ≤ (values cards).count v) : hulu cards ≠ [] := by
  have hu' := hquads u
  have hv' := hquads v
  refine hulu_ne_nil hdeck.suited.noJokers (by omega) ?_
  have hst : 0 < times cards 3 := times_pos (v := u) (by decide) (by omega)
  by_cases hpair : (values cards).count v = 2
  · exact .inl ⟨hst, times_pos (v := v) (by decide) (by omega)⟩
  · exact .inr (one_lt_times (by decide) hne (by omega) (by omega))

theorem produces_of_ne_nil {n : Nat} {generator : List Card → Lua (List Five)} {rows : List Five}
    (hgenerator : groupTable false n = some generator) (hrows : generator cards = .ok rows)
    (hne : rows ≠ []) : ∃ row, Produces (groupTable false) n cards row := by
  obtain ⟨row, hrow⟩ := List.exists_mem_of_ne_nil rows hne
  exact ⟨row, generator, rows, hgenerator, hrows, hrow⟩

theorem sitiao_block {row : Five} {x y : Int} (hvalues : values row.toList = [x, x, x, x, y]) :
    (List.replicate 4 x).Sublist (values row.toList) := by
  rw [hvalues]
  exact List.sublist_append_left [x, x, x, x] [y]

/-- When some cards have a row of a type before the flush, the hand has one of that type or a better
one. -/
theorem OneDeck.best_of_left (hdeck : OneDeck cards) (hlength : cards.length = 17)
    (hsub : sArr.Subperm cards)
    {m : Nat} (hm : 1 ≤ m ∧ m ≤ 4) {row : Five} (hrow : Produces (groupTable false) m sArr row) :
    ∃ m' row', (1 ≤ m' ∧ m' ≤ m) ∧ Produces (groupTable false) m' cards row' := by
  have hdeck' := hdeck.of_subperm hsub
  have hplain := hdeck.suited.noJokers
  obtain ⟨hwutong, htonghuashun, hsitiao, hhulu⟩ := groupTable_best
  obtain ⟨generator, rows, hgenerator, hrows, hmem⟩ := hrow
  have hquad : ∀ v, 4 ≤ (values cards).count v →
      ∃ row', Produces (groupTable false) 3 cards row' := by
    intro v hcount
    obtain ⟨rows, hrows⟩ := sitiao_ok hplain
    exact produces_of_ne_nil hsitiao hrows (hdeck.sitiao_rows hlength hcount hrows)
  have hcases : m = 1 ∨ m = 2 ∨ m = 3 ∨ m = 4 := by omega
  rcases hcases with rfl | rfl | rfl | rfl
  · obtain rfl : wutong = generator := Option.some.inj (hwutong.symm.trans hgenerator)
    rw [hdeck'.wutong_eq_nil hrows] at hmem
    exact absurd hmem List.not_mem_nil
  · obtain rfl : tonghuashun = generator := Option.some.inj (htonghuashun.symm.trans hgenerator)
    obtain ⟨hfalls, hsubset, hflush⟩ := tonghuashun_sound hdeck'.suited hrows hmem
    obtain ⟨rows', hrows'⟩ := tonghuashun_ok hdeck.suited
    have hsuit : values row.toList ⊆ values (suitOf cards row.c1.type) := by
      refine List.map_subset _ fun c hc => mem_suitOf.2 ⟨hsub.subset (hsubset hc), ?_⟩
      exact hflush c hc row.c1 (List.mem_cons_self ..)
    have hne := tonghuashun_ne_nil hdeck.suited
      (fun c hc => hdeck.range c.value (List.mem_map_of_mem hc)) (by omega) hrows'
      (hdeck'.suited row.c1 (hsubset (List.mem_cons_self ..))) hfalls hsuit
    obtain ⟨row', hrow'⟩ := produces_of_ne_nil htonghuashun hrows' hne
    exact ⟨2, row', by decide, hrow'⟩
  · obtain rfl : sitiao = generator := Option.some.inj (hsitiao.symm.trans hgenerator)
    have hrow : row.toList.Subperm cards :=
      ((hdeck'.sound (by decide) ⟨_, rows, hsitiao, hrows, hmem⟩).1).trans hsub
    have hvalues := (sitiao_count hdeck'.suited.noJokers hrows hmem).1
    obtain ⟨row', hrow'⟩ := hquad row.c1.value (le_count_of_block (sitiao_block hvalues) hrow)
    exact ⟨3, row', by decide, hrow'⟩
  · by_cases hsome : ∃ v, 4 ≤ (values cards).count v
    · obtain ⟨v, hcount⟩ := hsome
      obtain ⟨row', hrow'⟩ := hquad v hcount
      exact ⟨3, row', by decide, hrow'⟩
    · push Not at hsome
      have hrow : row.toList.Subperm cards :=
        ((hdeck'.sound (by decide) ⟨generator, rows, hgenerator, hrows, hmem⟩).1).trans hsub
      obtain rfl : (fun cards => .ok (hulu cards)) = generator :=
        Option.some.inj (hhulu.symm.trans hgenerator)
      rw [Except.ok.injEq] at hrows
      subst hrows
      have hparts := hulu_parts hdeck'.suited.noJokers hmem
      have hkey := hparts.key_eq
      have hpair := hparts.pairwise
      simp only [List.pairwise_cons, List.mem_cons, List.not_mem_nil, or_false,
        forall_eq_or_imp, forall_eq,
        false_imp_iff, implies_true, and_true, List.Pairwise.nil] at hkey hpair
      have hvalues : values row.toList =
          [row.c1.value, row.c1.value, row.c1.value, row.c4.value, row.c4.value] := by
        simp only [values, Five.toList, List.map_cons, List.map_nil, List.cons.injEq,
          and_true, true_and]
        omega
      have hthree : 3 ≤ (values cards).count row.c1.value := by
        refine le_count_of_block ?_ hrow
        rw [hvalues]
        exact List.sublist_append_left [_, _, _] [_, _]
      have htwo : 2 ≤ (values cards).count row.c4.value := by
        refine le_count_of_block ?_ hrow
        rw [hvalues]
        exact List.sublist_append_right [_, _, _] [_, _]
      have hne := hdeck.hulu_rows hlength hsome hpair.1.1 hthree htwo
      obtain ⟨row', hrow'⟩ := produces_of_ne_nil hhulu rfl hne
      exact ⟨4, row', by decide, hrow'⟩

/-- Seventeen cards have five of one suit. -/
theorem OneDeck.exists_flush (hdeck : OneDeck cards) (hlength : cards.length = 17) :
    ∃ m row, (m = 2 ∨ m = 5) ∧ Produces (groupTable false) m cards row := by
  have hsum := length_suitOf hdeck.suited
  obtain ⟨i, hi, hlong⟩ : ∃ i : Int, (1 ≤ i ∧ i ≤ 4) ∧ 5 ≤ (suitOf cards i).length := by
    by_contra hnone
    push Not at hnone
    have h1 := hnone 1 (by decide)
    have h2 := hnone 2 (by decide)
    have h3 := hnone 3 (by decide)
    have h4 := hnone 4 (by decide)
    omega
  by_cases hfalls : Falls (desc (values ((suitOf cards i).take 5)))
  · obtain ⟨rows, hrows⟩ := tonghuashun_ok hdeck.suited
    have hsubset : desc (values ((suitOf cards i).take 5)) ⊆ values (suitOf cards i) := fun v hv =>
      List.map_subset _ (List.take_subset _ _) ((desc_perm _).subset hv)
    have hne := tonghuashun_ne_nil hdeck.suited
      (fun c hc => hdeck.range c.value (List.mem_map_of_mem hc)) (by omega) hrows hi hfalls hsubset
    obtain ⟨row, hrow⟩ := produces_of_ne_nil groupTable_best.2.1 hrows hne
    exact ⟨2, row, .inl rfl, hrow⟩
  · obtain ⟨rows, hrows⟩ := tonghua_ok hdeck.suited
    have hne := tonghua_ne_nil hdeck.suited (by omega) hrows hi hlong hfalls
    obtain ⟨row, hrow⟩ := @produces_of_ne_nil cards 5 tonghua rows rfl hrows hne
    exact ⟨5, row, .inr rfl, hrow⟩

/-- The highest quad of the hand is the bottom row, or the bottom row is better than quads. -/
theorem OneDeck.quads_fit (hdeck : OneDeck cards) (hlength : cards.length = 17) {i : Nat}
    (hi : 2 ≤ i ∧ i ≤ 5) {generator : List Card → Lua (List Five)} {bottom : Five}
    {rest : List Five}
    (hgenerator : groupTable false i = some generator)
    (hrows : generator cards = .ok (bottom :: rest))
    (hbest : ∀ m, 1 ≤ m → m < i → ∀ row, ¬Produces (groupTable false) m cards row)
    (hquads : 0 < times (without cards bottom.toList) 4)
    (hkickers : 0 < times (without cards bottom.toList) 1 ∨
      0 < times (without cards bottom.toList) 2 ∨
      0 < times (without cards bottom.toList) 3 ∨ 1 < times (without cards bottom.toList) 4) :
    FirstFits (groupTable false) (without cards bottom.toList) i bottom 3 := by
  have hplain := hdeck.suited.noJokers
  have hbottom : Produces (groupTable false) i cards bottom :=
    ⟨generator, _, hgenerator, hrows, List.mem_cons_self ..⟩
  obtain ⟨hsub, hrow⟩ := hdeck.sound (by omega) hbottom
  have hdeck' := hdeck.rest hsub
  have hleft := length_without hdeck hsub
  have hperm := without_perm hdeck.plain hsub
  have hcounts : ∀ v, (values bottom.toList).count v +
      (values (without cards bottom.toList)).count v =
      (values cards).count v := by
    intro v
    have hvalues : (values bottom.toList ++ values (without cards bottom.toList)).Perm
        (values cards) := by
      unfold values
      rw [← List.map_append]
      exact hperm.map _
    rw [← hvalues.count_eq, List.count_append]
  obtain ⟨rows, hrows'⟩ := sitiao_ok hdeck'.suited.noJokers
  have hne := sitiao_ne_nil hdeck'.suited.noJokers hrows' (by omega) hquads hkickers
  -- quads in the hand come before the full house and the flush
  have hfirst : i ≤ 3 := by
    by_contra hlate
    obtain ⟨v, hv⟩ := exists_of_times_pos hquads
    have hcount := hcounts v
    obtain ⟨rows, hrows⟩ := sitiao_ok hplain
    obtain ⟨row, hrow⟩ := produces_of_ne_nil groupTable_best.2.2.1 hrows
      (hdeck.sitiao_rows hlength (v := v) (by omega) hrows)
    exact hbest 3 (by decide) (by omega) row hrow
  refine hdeck'.firstFits (by omega) hi.1 hfirst (by decide) rfl hrows' hne
    fun heq middle hmiddle => ?_
  subst heq
  obtain rfl : sitiao = generator := Option.some.inj (groupTable_best.2.2.1.symm.trans hgenerator)
  obtain ⟨hvalues, hdistinct⟩ := sitiao_count hplain hrows (List.mem_cons_self ..)
  have hmem := List.mem_of_mem_head? hmiddle
  obtain ⟨hvalues', hdistinct'⟩ := sitiao_count hdeck'.suited.noJokers hrows' hmem
  obtain ⟨hsub', hrow'⟩ := hdeck'.sound (n := 3) (by decide) ⟨sitiao, rows, rfl, hrows', hmem⟩
  refine fits_quads hrow hrow' hvalues hvalues' hdistinct hdistinct' ?_
  have hlow := le_count_of_block (sitiao_block hvalues') hsub'
  have hhigh := (sitiao_block hvalues).count_le bottom.c1.value
  rw [List.count_replicate_self] at hhigh
  have hcount := hcounts middle.c1.value
  have hcount' := hcounts bottom.c1.value
  have hfour := hdeck.count_le middle.c1.value
  have hfour' := hdeck.count_le bottom.c1.value
  obtain ⟨q, hq, hvalue⟩ := exists_quad hplain (v := middle.c1.value) (by omega)
  have hsize := hdeck.counted.size
  have hle := @sitiao_head _ bottom hplain _ hrows (by omega) (by omega) rfl q hq
  rw [hvalue] at hle
  refine lt_of_le_of_ne hle fun heq => ?_
  rw [heq] at hlow
  omega

/-- The cards above the only pair are single ones. -/
theorem OneDeck.pair_fits (hdeck : OneDeck cards) (hlength : cards.length = 12) {i : Nat}
    (hi : 2 ≤ i ∧ i ≤ 5)
    {bottom : Five} (hsingles : times cards 1 = 10) (hpair : times cards 2 = 1)
    (hkinds : (values cards).dedup.length = 11) :
    FirstFits (groupTable false) cards i bottom 9 := by
  have hplain := hdeck.suited.noJokers
  have hne := yiduiFive_ne_nil hplain (by omega) (by omega) (by omega)
  match hrows : yiduiFive cards, hne with
  | middle :: rest, _ =>
      have hmem : middle ∈ yiduiFive cards := hrows ▸ List.mem_cons_self ..
      have hkey := (yiduiFive_parts hplain hmem).1.key_eq
      simp only [List.mem_cons, List.not_mem_nil, or_false, forall_eq_or_imp, forall_eq,
        and_true] at hkey
      have hsub := (hdeck.sound (n := 9) (by decide) ⟨_, _, rfl, rfl, hmem⟩).1
      have hleft := length_without hdeck hsub
      have hperm : (values middle.toList ++ values (without cards middle.toList)).Perm
          (values cards) := by
        unfold values
        rw [← List.map_append]
        exact (without_perm hdeck.plain hsub).map _
      have hnodup : (values (without cards middle.toList)).Nodup := by
        obtain ⟨T, hT⟩ : ∃ T, values middle.toList = middle.c1.value :: middle.c1.value :: T := by
          refine ⟨[middle.c3.value, middle.c4.value, middle.c5.value], ?_⟩
          simp only [values, Five.toList, List.map_cons, List.map_nil, List.cons.injEq,
            and_true, true_and]
          omega
        rw [hT, List.cons_append, List.cons_append] at hperm
        have hdedup := hperm.dedup.length_eq
        rw [List.dedup_cons_of_mem (List.mem_cons_self ..), hkinds] at hdedup
        have hlong := hperm.length_eq
        rw [List.length_cons, show (values cards).length = 12 from
          (List.length_map _).trans hlength] at hlong
        have hself := (List.dedup_sublist _).eq_of_length (hdedup.trans (by omega))
        have hall :=
          hself ▸ List.nodup_dedup (middle.c1.value :: (T ++ values (without cards middle.toList)))
        exact (List.nodup_cons.1 hall).2.of_append_right
      refine ⟨by omega, by omega, _, middle, rest, rfl, congrArg Except.ok hrows,
        if_neg (by omega), 3,
        mem_up.2 ⟨by decide, le_rfl⟩, ?_, by unfold Clash; omega⟩
      exact ((hdeck.rest hsub).exists_top (by omega)).2 hnodup

/-- Below the best bottom row the search finds a middle row. -/
theorem OneDeck.exists_firstFits (hdeck : OneDeck cards) (hlength : cards.length = 17) {i : Nat}
    (hi : 2 ≤ i ∧ i ≤ 5) {generator : List Card → Lua (List Five)} {bottom : Five}
    {rest : List Five}
    (hgenerator : groupTable false i = some generator)
    (hrows : generator cards = .ok (bottom :: rest))
    (hbest : ∀ m, 1 ≤ m → m < i → ∀ row, ¬Produces (groupTable false) m cards row) :
    ∃ n, (1 ≤ n ∧ n ≤ 10) ∧ FirstFits (groupTable false)
    (without cards bottom.toList) i bottom n := by
  have hbottom : Produces (groupTable false) i cards bottom :=
    ⟨generator, _, hgenerator, hrows, List.mem_cons_self ..⟩
  obtain ⟨hsub, hrow⟩ := hdeck.sound (by omega) hbottom
  have hdeck' := hdeck.rest hsub
  have hleft := length_without hdeck hsub
  have hlength' : (without cards bottom.toList).length = 12 := by omega
  have hperm := without_perm hdeck.plain hsub
  have hsub' : (without cards bottom.toList).Subperm cards :=
    (List.sublist_append_right _ _).subperm.trans hperm.subperm
  have hplain := hdeck'.suited.noJokers
  obtain ⟨hfives, hsize, hkinds⟩ := hdeck'.counted
  -- the types after the flush, from the straight down
  by_cases hstraight : ∃ vs, Falls vs ∧ vs ⊆ values (without cards bottom.toList)
  · obtain ⟨vs, hfalls, hsubset⟩ := hstraight
    obtain ⟨rows, hrows', row, hmem, -⟩ := shunzi_complete hplain (by omega) hfalls hsubset
    exact ⟨6, by decide, hdeck'.firstFits hlength' hi.1 (by omega) (by decide) rfl hrows'
      (List.ne_nil_of_mem hmem) fun heq => by omega⟩
  by_cases htrips : 0 < times (without cards bottom.toList) 3 ∧
      (1 < times (without cards bottom.toList) 1 ∨
      1 < times (without cards bottom.toList) 2 ∨ 2 < times (without cards bottom.toList) 3)
  · exact ⟨7, by decide, hdeck'.firstFits hlength' hi.1 (by omega) (by decide) rfl rfl
      (santiaoFive_ne_nil hplain (by omega) htrips.1 htrips.2) fun heq => by omega⟩
  by_cases hpairs : (1 < times (without cards bottom.toList) 2 ∧
      0 < times (without cards bottom.toList) 1) ∨
      2 < times (without cards bottom.toList) 2
  · exact ⟨8, by decide, hdeck'.firstFits hlength' hi.1 (by omega) (by decide) rfl rfl
      (liangdui_ne_nil hplain (by omega) hpairs) fun heq => by omega⟩
  by_cases hquads : 0 < times (without cards bottom.toList) 4
  · exact ⟨3, by decide, hdeck.quads_fit hlength hi hgenerator hrows hbest hquads (by omega)⟩
  · have hsingles : times (without cards bottom.toList) 1 = 12 ∨
        times (without cards bottom.toList) 1 = 10 ∧ times (without cards bottom.toList) 2 = 1 := by
      omega
    rcases hsingles with hsingles | ⟨hsingles, hpair⟩
    · exact absurd (hdeck'.exists_falls (by omega)) hstraight
    · exact ⟨9, by decide, hdeck'.pair_fits hlength' hi hsingles hpair (by omega)⟩

/-- The best bottom row is arranged. -/
theorem OneDeck.tryBottoms_finds (hdeck : OneDeck cards) (hlength : cards.length = 17) {i : Nat}
    (hi : 2 ≤ i ∧ i ≤ 5) {generator : List Card → Lua (List Five)} {bottom : Five}
    {rest : List Five}
    (hgenerator : groupTable false i = some generator)
    (hrows : generator cards = .ok (bottom :: rest))
    (hbest : ∀ m, 1 ≤ m → m < i → ∀ row, ¬Produces (groupTable false) m cards row)
    (found : List Arrangement) :
    ∃ result, tryBottoms (groupTable false) i cards found (bottom :: rest) = .ok result ∧
    result ≠ [] := by
  have hproduces : ∀ bottom' ∈ bottom :: rest, Produces (groupTable false) i cards bottom' :=
    fun bottom' hbottom => ⟨generator, _, hgenerator, hrows, hbottom⟩
  have hanswers : ∀ bottom' ∈ bottom :: rest, ∀ n ∈ up 1 10,
      Answers (groupTable false) (without cards bottom'.toList) i bottom' n :=
    fun bottom' hbottom n hn => hdeck.answers (by omega) (mem_up.1 hn) (hproduces bottom' hbottom)
  rw [List.forall_mem_cons] at hanswers
  have hsub := (hdeck.sound (by omega) (hproduces bottom (List.mem_cons_self ..))).1
  have hleft : (without cards bottom.toList).Subperm cards :=
    (List.sublist_append_right _ _).subperm.trans (without_perm hdeck.plain hsub).subperm
  obtain ⟨n, hn, hfits⟩ := hdeck.exists_firstFits hlength hi hgenerator hrows hbest
  have hclear : ∀ m ∈ up 1 10, m < i → ∃ generator, groupTable false m = some generator ∧
      generator (without cards bottom.toList) = .ok [] := by
    intro m hm hlt
    have hm := mem_up.1 hm
    obtain ⟨generator', rows', hgenerator', hrows', hproduces'⟩ :=
      generator_answers (hdeck.rest hsub).suited (n := m) hm
    refine ⟨generator', hgenerator', ?_⟩
    match rows' with
    | [] => exact hrows'
    | row :: _ =>
        obtain ⟨m', row', hm', hrow'⟩ := hdeck.best_of_left hlength hleft (by omega)
          (hproduces' row (List.mem_cons_self ..))
        exact absurd hrow' (hbest m' hm'.1 (by omega) row')
  obtain ⟨breakFor, found', hfound', hne⟩ :=
    @tryMiddleTypes_finds (groupTable false) cards found i bottom
    (up 1 10) n hanswers.1 hclear (mem_up.2 hn) hfits
  rw [tryBottoms, hfound', Lua.ok_bind]
  cases breakFor with
  | true => exact ⟨found', rfl, hne⟩
  | false =>
      obtain ⟨result, hresult, hgrows⟩ :=
        @tryBottoms_ok (groupTable false) cards found' i rest hanswers.2
      exact ⟨result, hresult, hgrows hne⟩

theorem OneDeck.tryType_ok (hdeck : OneDeck cards) {i : Nat} (hi : 1 ≤ i ∧ i ≤ 9)
    (found : List Arrangement) :
    ∃ result, tryType (groupTable false) cards found i = .ok result ∧
    (found ≠ [] → result ≠ []) := by
  unfold tryType
  by_cases henough : found.length > 5
  · exact ⟨found, if_pos henough, id⟩
  rw [if_neg henough]
  obtain ⟨generator, rows, hgenerator, hrows, hproduces⟩ :=
    generator_answers hdeck.suited (n := i) (by omega)
  rw [hgenerator, Lua.need_some, Lua.ok_bind, hrows, Lua.ok_bind]
  exact tryBottoms_ok fun bottom hbottom n hn =>
    hdeck.answers (by omega) (mem_up.1 hn) (hproduces bottom hbottom)

/-- The best type of which the hand has a row. -/
theorem OneDeck.exists_best (hdeck : OneDeck cards) (hlength : cards.length = 17) :
    ∃ i row, (2 ≤ i ∧ i ≤ 5) ∧ Produces (groupTable false) i cards row ∧
      ∀ m, 1 ≤ m → m < i → ∀ row, ¬Produces (groupTable false) m cards row := by
  obtain ⟨m, row, hm, hrow⟩ := hdeck.exists_flush hlength
  have hsome : ∃ i, 1 ≤ i ∧ ∃ row, Produces (groupTable false) i cards row :=
    ⟨m, by omega, row, hrow⟩
  classical
  obtain ⟨hi, row', hrow'⟩ := Nat.find_spec hsome
  have hle : Nat.find hsome ≤ m := Nat.find_le ⟨by omega, row, hrow⟩
  refine ⟨Nat.find hsome, row', ⟨?_, by omega⟩, hrow', fun m hm hlt row hrow =>
    Nat.find_min hsome hlt ⟨hm, row, hrow⟩⟩
  rcases Nat.lt_or_eq_of_le hi with hlt | hone
  · exact hlt
  · rw [← hone] at hrow'
    obtain ⟨generator, rows, hgenerator, hrows, hmem⟩ := hrow'
    obtain rfl : wutong = generator := Option.some.inj (groupTable_best.1.symm.trans hgenerator)
    rw [hdeck.wutong_eq_nil hrows] at hmem
    exact absurd hmem List.not_mem_nil

theorem OneDeck.happydoggyGroupCards_ne_nil (hdeck : OneDeck cards) (hlength : cards.length = 17) :
    ∃ arrs, happydoggyGroupCards cards false = .ok arrs ∧ arrs ≠ [] := by
  rw [happydoggyGroupCards_eq]
  obtain ⟨i, row, hi, ⟨generator, rows, hgenerator, hrows, hmem⟩, hbest⟩ :=
    hdeck.exists_best hlength
  refine Lua.foldlM_ok_reaches (P := fun found => found ≠ [])
    (fun n hn found => hdeck.tryType_ok (mem_up.1 hn) found)
    (.inr ⟨i, mem_up.2 (by omega), fun found result hrun => ?_⟩)
  unfold tryType at hrun
  by_cases henough : found.length > 5
  · rw [if_pos henough] at hrun
    cases hrun
    exact List.ne_nil_of_length_pos (by omega)
  rw [if_neg henough, hgenerator, Lua.need_some, Lua.ok_bind, hrows, Lua.ok_bind] at hrun
  match rows, List.ne_nil_of_mem hmem with
  | bottom :: rest, _ =>
      obtain ⟨result', hresult', hne⟩ :=
        hdeck.tryBottoms_finds hlength hi hgenerator hrows hbest found
      rw [hresult', Except.ok.injEq] at hrun
      exact hrun ▸ hne

end Middles

section AutoPlay

variable {cards : List Card}

/-- Automatic play submits something when the search returns something. -/
theorem choicePokerAuto_ok {roomInfo : RoomInfo} {dealt : Dealt} {arrs : List Arrangement}
    (hrun : happydoggyGroupCards dealt.userCard roomInfo.danse = .ok arrs) (hne : arrs ≠ []) :
    ∃ entry, choicePokerAuto roomInfo dealt = .ok entry := by
  unfold choicePokerAuto
  cases dealt.spType with
  | some spType => exact ⟨_, rfl⟩
  | none =>
      match arrs, hne with
      | first :: rest, _ =>
          have hfirst : Lua.elem (first :: rest) 1 = .ok first := rfl
          simp only [hrun, Lua.ok_bind, hfirst]
          exact ⟨_, rfl⟩

/-- **Automatic play finds an arrangement** of every seventeen cards of one deck, and the deal step
does not get stuck on their owner. -/
theorem happydoggyGroupCards_finds (hdeck : OneDeck cards) (hlength : cards.length = 17) :
    (∃ arrs, happydoggyGroupCards cards false = .ok arrs ∧ arrs ≠ []) ∧
      ∀ (room : Room) (dealt : Dealt), room.roomInfo.danse = false → dealt.userCard = cards →
        (∃ entry, choicePokerAuto room.roomInfo dealt = .ok entry) ∧
          ∀ (curCards : LuaTable Uid CurCards) (robotDraw : Uid → Nat) (hasNil : Bool) (uid : Uid)
            (rest : List (Uid × Dealt)), (room.users.get uid).isSome →
              (∃ entry, dealLoop room curCards robotDraw hasNil ((uid, dealt) :: rest) =
                .submitted uid entry) ∨
                dealLoop room curCards robotDraw hasNil ((uid, dealt) :: rest) =
                  dealLoop room curCards robotDraw (hasNil || (curCards.get uid).isNone) rest := by
  obtain ⟨arrs, hrun, hne⟩ := hdeck.happydoggyGroupCards_ne_nil hlength
  refine ⟨⟨arrs, hrun, hne⟩, fun room dealt hdanse hcards => ?_⟩
  obtain ⟨entry, hentry⟩ :=
    @choicePokerAuto_ok room.roomInfo dealt arrs (by rw [hcards, hdanse, hrun]) hne
  refine ⟨⟨entry, hentry⟩, fun curCards robotDraw hasNil uid rest huser => ?_⟩
  obtain ⟨user, huser⟩ := Option.isSome_iff_exists.1 huser
  rw [dealLoop, huser]
  simp only [hentry]
  split_ifs
  · exact .inl ⟨entry, rfl⟩
  · exact .inr rfl

/-- The lower cards of four suits, with a quad. -/
def seventeenCards : List Card :=
  [⟨1, 1, none, none⟩, ⟨2, 1, none, none⟩, ⟨3, 1, none, none⟩, ⟨4, 1, none, none⟩,
    ⟨1, 2, none, none⟩,
    ⟨2, 2, none, none⟩, ⟨3, 3, none, none⟩, ⟨4, 4, none, none⟩, ⟨1, 5, none, none⟩,
      ⟨2, 6, none, none⟩,
    ⟨3, 7, none, none⟩, ⟨4, 8, none, none⟩, ⟨1, 9, none, none⟩, ⟨2, 10, none, none⟩,
      ⟨3, 11, none, none⟩,
    ⟨4, 12, none, none⟩, ⟨1, 13, none, none⟩]

theorem happydoggyGroupCards_finds_seventeenCards :
    ∃ arrs, happydoggyGroupCards seventeenCards false = .ok arrs ∧ arrs ≠ [] :=
  (happydoggyGroupCards_finds ⟨by decide, by decide, by decide⟩ rfl).1

end AutoPlay

end SdyServer.Daboluo
