import SdyServer.Daboluo.Completions
import SdyServer.Daboluo.JokerPile
import SdyServer.Daboluo.JokerSets
import SdyServer.Lib.Windows

/-!
# Straights in a pile with jokers

`shunzi` leaves jokers aside as long as there are straights without them. When there are none it
fills the windows of three and four different values that lie in a straight, one row for each of
them.
-/

namespace SdyServer.Daboluo

open Windows

section OneOfEach

variable {l szCards : List Card}

/-- The cards that are kept have different values. -/
theorem rising_oneOfEach (hkept : (values szCards).Pairwise (· < ·))
    (hl : l.Pairwise fun a b => a.value ≤ b.value)
    (hcross : ∀ a ∈ szCards, ∀ b ∈ l, a.value ≤ b.value) :
    (values (oneOfEach szCards l)).Pairwise (· < ·) := by
  induction l generalizing szCards with
  | nil => exact hkept
  | cons o rest ih =>
      obtain ⟨ho, hrest⟩ := List.pairwise_cons.1 hl
      rw [oneOfEach]
      split_ifs with hskip
      · exact ih hkept hrest fun a ha b hb => hcross a ha b (List.mem_cons_of_mem _ hb)
      · have habove : ∀ a ∈ szCards, a.value < o.value := by
          intro a ha
          refine lt_of_le_of_ne (hcross a ha o (List.mem_cons_self ..)) fun heq => hskip (.inr ?_)
          obtain ⟨before, last, rfl⟩ :=
            (List.eq_nil_or_concat szCards).resolve_left (List.ne_nil_of_mem ha)
          rw [List.concat_eq_append] at *
          rw [List.getLast?_concat, Option.map_some, Option.some.injEq]
          have hlast := hcross last (by simp) o (List.mem_cons_self ..)
          have hle : a.value ≤ last.value := by
            rcases List.mem_append.1 ha with ha | ha
            · unfold values at hkept
              rw [List.map_append, List.pairwise_append] at hkept
              exact (hkept.2.2 _ (List.mem_map_of_mem ha) _ (by simp)).le
            · rw [List.mem_singleton.1 ha]
          omega
        refine ih ?_ hrest fun a ha b hb => ?_
        · unfold values at hkept ⊢
          rw [List.map_append, List.pairwise_append]
          refine ⟨hkept, List.pairwise_singleton .., fun v hv w hw => ?_⟩
          obtain ⟨a, ha, rfl⟩ := List.mem_map.1 hv
          rw [List.map_singleton, List.mem_singleton] at hw
          exact hw ▸ habove a ha
        · rcases List.mem_append.1 ha with ha | ha
          · exact hcross a ha b (List.mem_cons_of_mem _ hb)
          · exact List.mem_singleton.1 ha ▸ ho b hb

/-- One card for each value of a pile. -/
theorem rising_oneOfEach_pile (cards : List Card) :
    (values (oneOfEach [] (pile cards))).Pairwise (· < ·) :=
  rising_oneOfEach List.Pairwise.nil (pairwise_pile cards) fun _ ha => absurd ha List.not_mem_nil

theorem oneOfEach_pile_subset (cards : List Card) : oneOfEach [] (pile cards) ⊆ cards := fun _ hc =>
  mem_pile.1 ((mem_oneOfEach hc).resolve_left List.not_mem_nil)

theorem mem_values_oneOfEach_pile {cards : List Card} {v : Int} :
    v ∈ values (oneOfEach [] (pile cards)) ↔ v ∈ values cards := by
  constructor
  · intro hv
    obtain ⟨c, hc, rfl⟩ := List.mem_map.1 hv
    exact List.mem_map_of_mem (oneOfEach_pile_subset cards hc)
  · intro hv
    obtain ⟨c, hc, rfl⟩ := List.mem_map.1 hv
    exact values_oneOfEach (List.mem_map_of_mem (mem_pile.2 hc))

end OneOfEach

section Filling

variable {a b : List Int} {cs : List Card} {C : Int → Card} {jokerOf : Nat → Int → Lua Card}
  {cardOf : Int → Lua Card}

/-- The cards that are placed for the values `a`: jokers for those of `b`, and `C v` for another
value `v`. -/
def Placed (b : List Int) (C : Int → Card) (a : List Int) (cs : List Card) : Prop :=
  List.Forall₂ (fun v c => if v ∈ b then c.type = 5 else c = C v) a cs

/-- The loop body of `straightOf`. -/
def placeCard (b : List Int) (jokerOf : Nat → Int → Lua Card) (cardOf : Int → Lua Card)
    (state : List Card × Nat) (v : Int) : Lua (List Card × Nat) := do
  if v ∈ b then return (state.1 ++ [← jokerOf state.2 v], state.2 + 1)
  else return (state.1 ++ [← cardOf v], state.2)

theorem foldlM_placeCard (hjoker : ∀ n v, ∃ c, jokerOf n v = .ok c ∧ c.type = 5)
    (hcard : ∀ v ∈ a, v ∉ b → cardOf v = .ok (C v)) (arr : List Card) (n : Nat) :
    ∃ cs n', a.foldlM (placeCard b jokerOf cardOf) (arr, n) = .ok (arr ++ cs, n') ∧
    Placed b C a cs := by
  induction a generalizing arr n with
  | nil =>
      refine ⟨[], n, ?_, List.Forall₂.nil⟩
      rw [List.append_nil]
      rfl
  | cons v rest ih =>
      rw [List.forall_mem_cons] at hcard
      rw [List.foldlM_cons]
      by_cases hv : v ∈ b
      · obtain ⟨c, hc, htype⟩ := hjoker n v
        obtain ⟨cs, n', hfold, hplaced⟩ := ih hcard.2 (arr ++ [c]) (n + 1)
        have hstep : placeCard b jokerOf cardOf (arr, n) v = .ok (arr ++ [c], n + 1) := by
          unfold placeCard
          rw [if_pos hv, hc]
          rfl
        refine ⟨c :: cs, n', ?_, List.Forall₂.cons ?_ hplaced⟩
        · rw [hstep, Lua.ok_bind, hfold, List.append_assoc]
          rfl
        · rw [if_pos hv]
          exact htype
      · obtain ⟨cs, n', hfold, hplaced⟩ := ih hcard.2 (arr ++ [C v]) n
        have hstep : placeCard b jokerOf cardOf (arr, n) v = .ok (arr ++ [C v], n) := by
          unfold placeCard
          rw [if_neg hv, hcard.1 hv]
          rfl
        refine ⟨C v :: cs, n', ?_, List.Forall₂.cons ?_ hplaced⟩
        · rw [hstep, Lua.ok_bind, hfold, List.append_assoc]
          rfl
        · rw [if_neg hv]

/-- The row of a straight whose cards are all found. -/
theorem straightOf_ok (hlength : a.length = 5)
    (hjoker : ∀ n v, ∃ c, jokerOf n v = .ok c ∧ c.type = 5)
    (hcard : ∀ v ∈ a, v ∉ b → cardOf v = .ok (C v)) :
    ∃ row : Five, straightOf a b jokerOf cardOf = .ok [row] ∧ Placed b C a row.toList := by
  obtain ⟨cs, n, hfold, hplaced⟩ := foldlM_placeCard hjoker hcard [] 1
  have hsize := hplaced.length_eq
  have hstart : straightOf a b jokerOf cardOf =
      (a.take 5).foldlM (placeCard b jokerOf cardOf) ([], 1) >>= fun state =>
        .ok (five state.1 1 2 3 4 5).toList := rfl
  rw [hstart, List.take_of_length_le hlength.le, hfold, Lua.ok_bind]
  match cs, hsize, hplaced with
  | [c1, c2, c3, c4, c5], _, hplaced => exact ⟨⟨c1, c2, c3, c4, c5⟩, rfl, hplaced⟩
  | [], hsize, _ | [_], hsize, _ | [_, _], hsize, _ | [_, _, _], hsize, _ | [_, _, _, _], hsize, _
  | _ :: _ :: _ :: _ :: _ :: _ :: _, hsize, _ => simp [hlength] at hsize

/-- The ordinary cards that are placed, and the jokers. -/
theorem Placed.parts (hplaced : Placed b C a cs) (hC : ∀ v ∈ a, v ∉ b → (C v).type < 5) :
    rowCards cs = (a.filter fun v => v ∉ b).map C ∧ cs.countP isJoker =
    (a.filter fun v => v ∈ b).length := by
  induction hplaced with
  | nil => exact ⟨rfl, rfl⟩
  | @cons v c a cs hc hplaced ih =>
      rw [List.forall_mem_cons] at hC
      obtain ⟨hcards, hjokers⟩ := ih hC.2
      unfold rowCards at hcards ⊢
      by_cases hv : v ∈ b
      · rw [if_pos hv] at hc
        rw [List.filter_cons_of_neg (by simp [hc]), List.filter_cons_of_neg (by simpa using hv),
          List.filter_cons_of_pos (by simpa using hv),
            List.countP_cons_of_pos (by simp [isJoker, hc]), hjokers]
        exact ⟨hcards, rfl⟩
      · rw [if_neg hv] at hc
        have htype := hC.1 hv
        rw [hc, List.filter_cons_of_pos (by simpa using htype),
          List.filter_cons_of_pos (by simpa using hv),
          List.filter_cons_of_neg (by simpa using hv),
          List.countP_cons_of_neg (by simp only [isJoker, decide_eq_true_eq]; omega), hcards]
        exact ⟨rfl, hjokers⟩

/-- Every card that is placed is a joker or stands for its value. -/
theorem Placed.mem (hplaced : Placed b C a cs) : ∀ c ∈ cs, c.type = 5 ∨ ∃ v ∈ a, v ∉ b ∧
    c = C v := by
  induction hplaced with
  | nil => simp
  | @cons v c a cs hc hplaced ih =>
      refine List.forall_mem_cons.2 ⟨?_, fun d hd => (ih d hd).imp_right ?_⟩
      · by_cases hv : v ∈ b
        · rw [if_pos hv] at hc
          exact .inl hc
        · rw [if_neg hv] at hc
          exact .inr ⟨v, List.mem_cons_self .., hv, hc⟩
      · rintro ⟨w, hw, hrest⟩
        exact ⟨w, List.mem_cons_of_mem _ hw, hrest⟩

end Filling

section Window

variable {arr : List Card} {c v1 : Card} {j k : Nat}

/-- Ordinary cards have suits that are counted. -/
theorem getMinSuit_ok (hplain : ∀ c ∈ arr, Plain c) : ∃ suits, getMinSuit arr = .ok suits := by
  have hcount : ∀ c ∈ arr, ∀ suitArr : List Card, ∃ suitArr',
      (if c.type = 5 then (pure suitArr : Lua (List Card))
        else if 1 ≤ c.type ∧ c.type ≤ 4 then
          pure (suitArr.map fun s => if s.type = c.type then { s with value := s.value + 1 } else s)
        else throw .indexNil) = .ok suitArr' := by
    intro c hc suitArr
    obtain ⟨hlow, hhigh, -⟩ := hplain c hc
    rw [if_neg (by omega), if_pos ⟨hlow, by omega⟩]
    exact ⟨_, rfl⟩
  obtain ⟨suitArr, hfold⟩ := Lua.foldlM_ok_of_body hcount
    (([1, 2, 3, 4] : List Int).map fun type => { type, value := 0 })
  unfold getMinSuit
  dsimp only
  rw [hfold]
  exact ⟨_, rfl⟩

/-- The row that jokers make of the cards of a window. -/
def jokerRow (v1 : Card) (k : Nat) (arr : List Card) : Lua (List Five) := do
  let (a, b) ← getHappydoggyShunzi arr k
  if a.length = 5 then
    let minSuitArr ← getMinSuit arr
    straightOf a b
      (fun c v => return joker v (some ((Lua.nth minSuitArr c).getD 4)) v1.value)
      (fun v => do
        let c ← Lua.need .indexNil (arr.find? fun c => c.value = v)
        return { type := c.type, value := v })
  else return []

/-- Cards of different values are found by their values. -/
theorem find_value (hnodup : (values arr).Nodup) (hc : c ∈ arr) :
    (arr.find? fun d => d.value = c.value) = some c := by
  have hfound : (arr.find? fun d => d.value = c.value).isSome = true :=
    List.find?_isSome.2 ⟨c, hc, decide_eq_true rfl⟩
  obtain ⟨d, hd⟩ := Option.isSome_iff_exists.1 hfound
  have hvalue := List.find?_some hd
  rw [decide_eq_true_eq] at hvalue
  rw [hd, List.inj_on_of_nodup_map hnodup (List.mem_of_find?_eq_some hd) hc hvalue]

/-- The card of value `v` in a window. -/
def cardAt (arr : List Card) (v : Int) : Card :=
  { type := ((arr.find? fun c => c.value = v).map Card.type).getD 0, value := v }

theorem cardAt_value (hplain : ∀ c ∈ arr, Plain c) (hnodup : (values arr).Nodup) (hc : c ∈ arr) :
    cardAt arr c.value = c := by
  obtain ⟨-, -, hsuit, hold⟩ := hplain c hc
  unfold cardAt
  rw [find_value hnodup hc]
  obtain ⟨type, value, suit, old⟩ := c
  dsimp only at hsuit hold
  rw [hsuit, hold]
  rfl

/-- The row of a window: its cards, and a joker for each value that they lack. -/
structure JokerRow (arr : List Card) (j : Nat) (row : Five) : Prop where
  cards : (rowCards row.toList).Perm arr
  jokers : row.toList.countP isJoker = j
  plain : ∀ c ∈ row.toList, Plain c ∨ c.type = 5

/-- A window has a row when its values lie in a straight. -/
theorem jokerRow_ok (hordinary : ∀ c ∈ arr, Ordinary c) (hnodup : (values arr).Nodup)
    (hne : arr ≠ [])
    (hsize : arr.length + j = 5) (hj : j ≤ k) :
    ∃ rows, jokerRow v1 k arr = .ok rows ∧ (rows ≠ [] ↔ ∃ s ∈ straights, values arr ⊆ s) ∧
      ∀ row ∈ rows, JokerRow arr j row := by
  have hplain : ∀ c ∈ arr, Plain c := fun c hc => (hordinary c hc).1
  have hrange : ∀ v ∈ values arr, 1 ≤ v ∧ v ≤ 13 := by
    intro v hv
    obtain ⟨c, hc, rfl⟩ := List.mem_map.1 hv
    exact (hordinary c hc).2
  have hlength : (values arr).length = arr.length := List.length_map _
  obtain ⟨b, hshunzi, hperm⟩ := getHappydoggyShunzi_completion hne hnodup hrange k
  have hstart : jokerRow v1 k arr = getHappydoggyShunzi arr k >>= fun ab =>
      if ab.1.length = 5 then getMinSuit arr >>= fun minSuitArr =>
        straightOf ab.1 ab.2
          (fun c v => pure (joker v (some ((Lua.nth minSuitArr c).getD 4)) v1.value))
          fun v => Lua.need .indexNil (arr.find? fun c => c.value = v) >>= fun c =>
            pure { type := c.type, value := v }
      else pure [] := rfl
  rw [completion_of_enough hnodup (by omega)] at hshunzi hperm
  rw [hstart, hshunzi, Lua.ok_bind]
  cases hfound : straights.find? fun s => values arr ⊆ s with
  | none =>
      refine ⟨[], rfl, ⟨fun h => absurd rfl h, ?_⟩, fun row hrow => absurd hrow List.not_mem_nil⟩
      rintro ⟨s, hs, hsub⟩
      exact absurd (decide_eq_true hsub) (List.find?_eq_none.1 hfound s hs)
  | some s =>
      rw [hfound, Option.getD_some] at hperm
      have hs := List.mem_of_find?_eq_some hfound
      have hsub : values arr ⊆ s := by simpa using List.find?_some hfound
      have hfive : ∀ s ∈ straights, s.Nodup ∧ s.length = 5 := by decide
      obtain ⟨hsnodup, hslength⟩ := hfive s hs
      have hmissing := length_missing hnodup hsnodup hsub
      have hmem : ∀ v ∈ s, (v ∉ b ↔ v ∈ values arr) := by
        intro v hv
        rw [hperm.mem_iff, missing, List.mem_filter, decide_eq_true_eq]
        tauto
      obtain ⟨minSuitArr, hsuits⟩ := getMinSuit_ok hplain
      have hcard : ∀ v ∈ s, v ∉ b →
          (Lua.need .indexNil (arr.find? fun c => c.value = v) >>= fun c =>
          pure { type := c.type, value := v }) = Except.ok (cardAt arr v) := by
        intro v hv hb
        obtain ⟨c, hc, rfl⟩ := List.mem_map.1 ((hmem v hv).1 hb)
        unfold cardAt
        rw [find_value hnodup hc]
        rfl
      obtain ⟨row, hrow, hplaced⟩ := straightOf_ok hslength
        (fun n v => ⟨joker v (some ((Lua.nth minSuitArr n).getD 4)) v1.value, rfl, rfl⟩) hcard
      rw [Option.getD_some, if_pos hslength, hsuits, Lua.ok_bind]
      refine ⟨[row], hrow, ⟨fun _ => ⟨s, hs, hsub⟩, fun _ => List.cons_ne_nil _ _⟩,
        fun row' hrow' => ?_⟩
      rw [List.mem_singleton.1 hrow']
      have hC : ∀ v ∈ s, v ∉ b → cardAt arr v ∈ arr := by
        intro v hv hb
        obtain ⟨c, hc, rfl⟩ := List.mem_map.1 ((hmem v hv).1 hb)
        rw [cardAt_value hplain hnodup hc]
        exact hc
      obtain ⟨hcards, hjokers⟩ := hplaced.parts fun v hv hb => by
        have := (hplain _ (hC v hv hb)).2.1
        omega
      refine ⟨?_, ?_, fun c hc => ?_⟩
      · have hvalues : (s.filter fun v => v ∉ b).Perm (values arr) := by
          rw [List.perm_ext_iff_of_nodup (hsnodup.filter _) hnodup]
          intro v
          rw [List.mem_filter, decide_eq_true_eq]
          exact ⟨fun h => (hmem v h.1).1 h.2, fun hv => ⟨hsub hv, (hmem v (hsub hv)).2 hv⟩⟩
        have hback : (values arr).map (cardAt arr) = arr := by
          unfold values
          rw [List.map_map]
          exact (List.map_congr_left fun c hc => cardAt_value hplain hnodup hc).trans
            (List.map_id _)
        rw [hcards]
        exact (hvalues.map _).trans (List.Perm.of_eq hback)
      · have hjokers' : (s.filter fun v => v ∈ b) = missing (values arr) s := by
          refine List.filter_congr fun v hv => decide_eq_decide.2 ?_
          rw [← not_iff_not, hmem v hv, not_not]
        rw [hjokers, hjokers']
        omega
      · rcases hplaced.mem c hc with htype | ⟨v, hv, hb, rfl⟩
        · exact .inr htype
        · exact .inl (hplain _ (hC v hv hb))

/-- The rows of all windows that the jokers are enough for. -/
def windowRows (szCards : List Card) (v1 : Card) (k : Nat) : Lua (List Five) :=
  gather ((down 4 1).filter fun i => 5 ≤ i + k) fun i =>
    gather (up 1 (szCards.length + 1 - i)) fun l => jokerRow v1 k ((szCards.drop (l - 1)).take i)

/-- A window of `szCards` that `j` jokers fill. -/
structure Fillable (szCards arr : List Card) (j : Nat) : Prop where
  window : arr <:+: szCards
  size : arr.length + j = 5
  fits : ∃ s ∈ straights, values arr ⊆ s

/-- The rows are those of the windows that can be filled. -/
theorem windowRows_ok {szCards : List Card} (hordinary : ∀ c ∈ szCards, Ordinary c)
    (hrising : (values szCards).Pairwise (· < ·)) (hk : k ≤ 2) :
    ∃ rows, windowRows szCards v1 k = .ok rows ∧
      (∀ row ∈ rows, ∃ j arr, (1 ≤ j ∧ j ≤ k) ∧ Fillable szCards arr j ∧ JokerRow arr j row) ∧
        ∀ j arr, 1 ≤ j → j ≤ k → Fillable szCards arr j → ∃ row ∈ rows, JokerRow arr j row := by
  have hrow : ∀ j arr, j ≤ k → arr <:+: szCards → arr.length + j = 5 →
      ∃ rows, jokerRow v1 k arr = .ok rows ∧ (rows ≠ [] ↔ ∃ s ∈ straights, values arr ⊆ s) ∧
        ∀ row ∈ rows, JokerRow arr j row := by
    intro j arr hj hwindow hsize
    have hnodup : (values arr).Nodup := (hrising.imp fun h => h.ne).sublist (hwindow.sublist.map _)
    have hne : arr ≠ [] := by
      rintro rfl
      simp at hsize
      omega
    exact jokerRow_ok (fun c hc => hordinary c (hwindow.subset hc)) hnodup hne hsize hj
  have hread : ∀ i l, l ∈ up 1 (szCards.length + 1 - i) →
      (szCards.drop (l - 1)).take i <:+: szCards ∧ ((szCards.drop (l - 1)).take i).length = i := by
    intro i l hl
    have hbounds := mem_up.1 hl
    exact window_iff_take_drop.2 ⟨l - 1, by omega, rfl⟩
  have hmem : ∀ i, i ∈ (down 4 1).filter (fun i => decide (5 ≤ i + k)) ↔ (1 ≤ i ∧ i ≤ 4) ∧
      5 ≤ i + k := by
    intro i
    rw [List.mem_filter, mem_down, decide_eq_true_eq]
  have hinner : ∀ i ∈ (down 4 1).filter (fun i => decide (5 ≤ i + k)),
      ∃ rows, (gather (up 1 (szCards.length + 1 - i))
        fun l => jokerRow v1 k ((szCards.drop (l - 1)).take i)) =
        .ok rows ∧ ∀ row, row ∈ rows ↔ ∃ l ∈ up 1 (szCards.length + 1 - i), ∃ bs,
          jokerRow v1 k ((szCards.drop (l - 1)).take i) = .ok bs ∧ row ∈ bs := by
    intro i hi
    obtain ⟨hbounds, henough⟩ := (hmem i).1 hi
    refine gather_ok fun l hl => ?_
    obtain ⟨hwindow, hlength⟩ := hread i l hl
    obtain ⟨rows, hrows, -⟩ := hrow (5 - i) _ (by omega) hwindow (by omega)
    exact ⟨rows, hrows⟩
  obtain ⟨rows, hrows, hall⟩ := gather_ok fun i hi => (hinner i hi).imp fun _ h => h.1
  refine ⟨rows, hrows, fun row hmemrow => ?_, fun j arr hpos hj hfill => ?_⟩
  · obtain ⟨i, hi, bs, hbs, hrowbs⟩ := (hall row).1 hmemrow
    obtain ⟨hbounds, henough⟩ := (hmem i).1 hi
    obtain ⟨bs', hbs', hwindows⟩ := hinner i hi
    obtain rfl : bs = bs' := Except.ok.inj (hbs.symm.trans hbs')
    obtain ⟨l, hl, found, hfound, hrowfound⟩ := (hwindows row).1 hrowbs
    obtain ⟨hwindow, hlength⟩ := hread i l hl
    obtain ⟨found', hfound', hfits, hparts⟩ := hrow (5 - i) _ (by omega) hwindow (by omega)
    obtain rfl : found = found' := Except.ok.inj (hfound.symm.trans hfound')
    exact ⟨5 - i, _, ⟨by omega, by omega⟩,
      ⟨hwindow, by omega, hfits.1 (List.ne_nil_of_mem hrowfound)⟩,
      hparts row hrowfound⟩
  · obtain ⟨start, hstart, harr⟩ := window_iff_take_drop.1 ⟨hfill.window, rfl⟩
    have hsize := hfill.size
    obtain ⟨found, hfound, hfits, hparts⟩ := hrow j arr hj hfill.window hsize
    obtain ⟨row, hrowfound⟩ := List.exists_mem_of_ne_nil _ (hfits.2 hfill.fits)
    have hi : arr.length ∈ (down 4 1).filter (fun i => decide (5 ≤ i + k)) := (hmem _).2 (by omega)
    obtain ⟨bs, hbs, hwindows⟩ := hinner arr.length hi
    refine ⟨row, (hall row).2 ⟨arr.length, hi, bs, hbs,
      (hwindows row).2 ⟨start + 1, ?_, found, ?_, hrowfound⟩⟩,
      hparts row hrowfound⟩
    · exact mem_up.2 (by omega)
    · rw [Nat.add_sub_cancel, ← harr]
      exact hfound

end Window

section Shunzi

variable {cards : List Card} {vs ws rest : List Int} {v1 : Card} {j k : Nat}

theorem hasStraight_iff (cards : List Card) :
    HasStraight (values cards) ↔ 0 < (plainRuns cards).length := by
  rw [List.length_pos_iff_exists_mem]
  constructor
  · rintro ⟨s, hfalls, hsub⟩
    obtain ⟨run, hrun, -⟩ := plainRuns_complete hfalls hsub
    exact ⟨run, hrun⟩
  · rintro ⟨run, hrun⟩
    obtain ⟨row, hrow⟩ := exists_row_of_plainRuns hrun
    obtain ⟨hfalls, hsub⟩ := plainRuns_sound hrun hrow
    exact ⟨_, hfalls, List.map_subset _ hsub⟩

/-- The rows when there is no straight without jokers. -/
def jokerRows (szCards : List Card) : List Card → Lua (List Five)
  | [] => return []
  | v1 :: more => windowRows szCards v1 (v1 :: more).length

/-- No joker is used as long as there is a straight without them. -/
theorem Mixed.shunzi_eq (hmixed : Mixed cards) (hlength : 5 ≤ cards.length) :
    shunzi cards =
      if (plainRuns (ordinary cards)).length > 0 then .ok
      ((plainRuns (ordinary cards)).reverse.flatMap rowsOf)
      else jokerRows (oneOfEach [] (pile (ordinary cards))) (jokersOf (Daboluo.sorted cards)) := by
  obtain ⟨hruns, hjokers, hcards⟩ := hmixed.getGroupCards_piles
  unfold plainRuns pile at *
  unfold shunzi
  rw [if_neg (by omega)]
  simp only [hruns, hjokers, hcards]
  refine ite_congr rfl (fun _ => rfl) fun _ => ?_
  cases jokersOf (Daboluo.sorted cards) with
  | nil => rfl
  | cons v1 more => rfl

/-- The straights that `shunzi` takes next from the values `vs` with `k` jokers: `ws` and `j`
jokers, which leave the values `rest`. -/
inductive Next (k : Nat) (vs : List Int) : Nat → List Int → List Int → Prop
  | straight {ws rest : List Int} (falls : Falls ws) (perm : (ws ++ rest).Perm vs) :
    Next k vs 0 ws rest
  | filled {j : Nat} {ws rest : List Int} (pos : 1 ≤ j) (le : j ≤ k) (fills : Fills j vs ws rest) :
      Next k vs j ws rest

/-- A row of `j` jokers and of ordinary cards of the values `ws`. -/
structure Taken (cards : List Card) (j : Nat) (ws : List Int) (row : Five) : Prop where
  isRow : RowOf cards row.toList
  jokers : row.toList.countP isJoker = j
  values : (values (rowCards row.toList)).Perm ws

theorem Next.perm (hnext : Next k vs j ws rest) : (ws ++ rest).Perm vs := by
  cases hnext with
  | straight falls perm => exact perm
  | filled pos le fills => exact fills.perm

theorem Next.size (hnext : Next k vs j ws rest) : ws.length + j = 5 := by
  cases hnext with
  | straight falls perm => exact falls.length
  | filled pos le fills => exact fills.size

theorem Next.le (hnext : Next k vs j ws rest) : j ≤ k := by
  cases hnext with
  | straight falls perm => exact Nat.zero_le k
  | filled pos le fills => exact le

theorem exists_rest (hnodup : ws.Nodup) (hsub : ws ⊆ vs) : ∃ rest, (ws ++ rest).Perm vs := by
  obtain ⟨ws', hperm, hsublist⟩ := hnodup.subperm hsub
  obtain ⟨rest, hrest⟩ := hsublist.exists_perm_append
  exact ⟨rest, (hperm.symm.append_right rest).trans hrest.symm⟩

/-- The windows that jokers fill, as they are told by the values. -/
theorem fills_of_fillable {os arr : List Card} (hnone : ¬HasStraight (values os))
    (hfill : Fillable (oneOfEach [] (pile os)) arr j) :
    ∃ rest, Fills j (values os) (values arr) rest := by
  have hrising := rising_oneOfEach_pile os
  have hwindow : values arr <:+: values (oneOfEach [] (pile os)) := hfill.window.map _
  have hsub : values arr ⊆ values os := fun v hv => mem_values_oneOfEach_pile.1 (hwindow.subset hv)
  have hrising' := hrising.sublist hwindow.sublist
  obtain ⟨rest, hperm⟩ := exists_rest (hrising'.imp fun h => h.ne) hsub
  obtain ⟨s, hs, hsubs⟩ := hfill.fits
  refine ⟨rest, hnone, hperm, by rw [values, List.length_map]; exact hfill.size, hrising', ?_, s,
    falls_of_mem_straights hs, ?_, hsubs⟩
  · intro v hv a ha b hb hav hvb
    exact between_of_window hrising hwindow (mem_values_oneOfEach_pile.2 hv) ha hb hav hvb
  · have hdeck : ∀ s ∈ straights, s ⊆ deckValues := by decide
    exact hdeck s hs

theorem fillable_of_fills {os : List Card} (hfills : Fills j (values os) ws rest) :
    ∃ arr, values arr = ws ∧ Fillable (oneOfEach [] (pile os)) arr j := by
  have hrising := rising_oneOfEach_pile os
  have hwindow : ws <:+: values (oneOfEach [] (pile os)) := by
    refine (window_iff hrising).2 ⟨hfills.rising, fun v hv => ?_, fun v hv => ?_⟩
    · exact mem_values_oneOfEach_pile.2 (hfills.perm.subset (List.mem_append_left _ hv))
    · exact hfills.between v (mem_values_oneOfEach_pile.1 hv)
  obtain ⟨arr, harr, rfl⟩ := List.infix_map_iff.1 hwindow
  obtain ⟨s, hfalls, hdeck, hsub⟩ := hfills.fits
  have hsize := hfills.size
  rw [List.length_map] at hsize
  refine ⟨arr, rfl, harr, hsize, s, hfalls.mem_straights fun v hv => ?_, hsub⟩
  have hmem := hdeck hv
  simp only [deckValues, List.mem_cons, List.not_mem_nil, or_false] at hmem
  omega

/-- The row of a filled window is taken from the cards. -/
theorem taken_of_jokerRow {arr : List Card} {row : Five}
    (hfill : Fillable (oneOfEach [] (pile (ordinary cards))) arr j) (hrow : JokerRow arr j row) :
    Taken cards j (values arr) row := by
  have hrising :=
    (rising_oneOfEach_pile (ordinary cards)).sublist (hfill.window.map Card.value).sublist
  have hnodup : arr.Nodup := List.Nodup.of_map _ (hrising.imp fun h => h.ne)
  have hsub : arr ⊆ ordinary cards := fun c hc => oneOfEach_pile_subset _ (hfill.window.subset hc)
  refine ⟨⟨hrow.plain, ?_⟩, hrow.jokers, hrow.cards.map _⟩
  exact hrow.cards.subperm.trans (hnodup.subperm hsub)

theorem taken_of_plainRuns (hplain : ∀ c ∈ ordinary cards, Plain c) {row : Five}
    (hfalls : Falls (values row.toList)) (hsub : row.toList ⊆ ordinary cards) :
    Taken cards 0 (values row.toList) row := by
  have hsuits : ∀ c ∈ row.toList, c.type < 5 := fun c hc => by
    have := (hplain c (hsub hc)).2.1
    omega
  have hcards : rowCards row.toList = row.toList :=
    List.filter_eq_self.2 fun c hc => decide_eq_true (hsuits c hc)
  refine ⟨⟨fun c hc => .inl (hplain c (hsub hc)), ?_⟩, ?_, ?_⟩
  · rw [hcards]
    exact subperm_of_falls hfalls hsub
  · refine List.countP_eq_zero.2 fun c hc => ?_
    have := hsuits c hc
    simp only [isJoker, decide_eq_true_eq]
    omega
  · rw [hcards]

/-- **`shunzi` finds the next straights** of a pile with jokers, and no others. -/
theorem Mixed.shunzi_exact (hmixed : Mixed cards) (hk : (jokersOf cards).length ≤ 2) :
    ∃ rows, shunzi cards = .ok rows ∧
      (∀ row ∈ rows, ∃ j ws rest, Next (jokersOf cards).length (values (ordinary cards)) j ws rest ∧
        Taken cards j ws row) ∧
      ∀ j ws rest, Next (jokersOf cards).length (values (ordinary cards)) j ws rest →
        ∃ row ∈ rows, Taken cards j ws row := by
  have hparts := length_parts cards
  have hvalues : (values (ordinary cards)).length = (ordinary cards).length := List.length_map _
  -- there are enough cards for every straight that comes next
  have henough : ∀ {j ws rest}, Next (jokersOf cards).length (values (ordinary cards)) j ws rest →
      5 ≤ cards.length := by
    intro j ws rest hnext
    have hperm := hnext.perm.length_eq
    rw [List.length_append] at hperm
    have hsize := hnext.size
    have hle := hnext.le
    omega
  by_cases hstraight : HasStraight (values (ordinary cards))
  · obtain ⟨s, hfalls, hsub⟩ := hstraight
    obtain ⟨rest, hperm⟩ := exists_rest (hfalls.pairwise.imp fun h => h.ne') hsub
    have hany := (hasStraight_iff (ordinary cards)).1 ⟨s, hfalls, hsub⟩
    refine ⟨_, (hmixed.shunzi_eq (henough (.straight hfalls hperm))).trans (if_pos hany),
      fun row hrow => ?_,
      fun j ws rest hnext => ?_⟩
    · obtain ⟨run, hrun, hrow⟩ := List.mem_flatMap.1 hrow
      obtain ⟨hfalls', hsub'⟩ := plainRuns_sound (List.mem_reverse.1 hrun) hrow
      obtain ⟨rest', hperm'⟩ :=
        exists_rest (hfalls'.pairwise.imp fun h => h.ne') (List.map_subset Card.value hsub')
      exact ⟨0, _, rest', .straight hfalls' hperm', taken_of_plainRuns hmixed.plain hfalls' hsub'⟩
    · cases hnext with
      | filled pos le fills => exact absurd ⟨s, hfalls, hsub⟩ fills.none
      | straight falls perm =>
          have hsub' : ws ⊆ values (ordinary cards) :=
            fun v hv => perm.subset (List.mem_append_left _ hv)
          obtain ⟨run, hrun, row, hrow, rfl⟩ := plainRuns_complete falls hsub'
          refine ⟨row, List.mem_flatMap.2 ⟨run, List.mem_reverse.2 hrun, hrow⟩, ?_⟩
          exact taken_of_plainRuns hmixed.plain falls (plainRuns_sound hrun hrow).2
  · have hfilled : ∀ {j ws rest}, Next (jokersOf cards).length (values (ordinary cards)) j ws rest →
        (1 ≤ j ∧ j ≤ (jokersOf cards).length) ∧ Fills j (values (ordinary cards)) ws rest := by
      intro j ws rest hnext
      cases hnext with
      | straight falls perm =>
          exact absurd ⟨ws, falls, fun v hv => perm.subset (List.mem_append_left _ hv)⟩ hstraight
      | filled pos le fills => exact ⟨⟨pos, le⟩, fills⟩
    by_cases hshort : cards.length < 5
    · refine ⟨[], ?_, fun row hrow => absurd hrow List.not_mem_nil, fun j ws rest hnext => ?_⟩
      · unfold shunzi
        exact if_pos hshort
      · exact absurd (henough hnext) (by omega)
    have hrows := hmixed.shunzi_eq (by omega)
    rw [if_neg fun hany => hstraight ((hasStraight_iff _).2 hany)] at hrows
    have hlength := length_jokersOf_sorted cards
    cases hcons : jokersOf (Daboluo.sorted cards) with
    | nil =>
        rw [hcons] at hrows hlength
        refine ⟨[], hrows, fun row hrow => absurd hrow List.not_mem_nil, fun j ws rest hnext => ?_⟩
        rw [List.length_nil] at hlength
        have hbounds := (hfilled hnext).1
        omega
    | cons v1 more =>
        rw [hcons] at hrows hlength
        obtain ⟨rows, hwindows, hsound, hcomplete⟩ :=
          @windowRows_ok v1 _ (oneOfEach [] (pile (ordinary cards)))
          (fun c hc => hmixed.mem_ordinary c (oneOfEach_pile_subset _ hc))
            (rising_oneOfEach_pile _) hk
        rw [← hlength] at hwindows
        refine ⟨rows, hrows.trans hwindows, fun row hrow => ?_, fun j ws rest hnext => ?_⟩
        · obtain ⟨j, arr, ⟨hpos, hle⟩, hfill, hjoker⟩ := hsound row hrow
          obtain ⟨rest, hfills⟩ := fills_of_fillable hstraight hfill
          exact ⟨j, values arr, rest, .filled hpos hle hfills, taken_of_jokerRow hfill hjoker⟩
        · obtain ⟨⟨hpos, hle⟩, hfills⟩ := hfilled hnext
          obtain ⟨arr, rfl, hfill⟩ := fillable_of_fills hfills
          obtain ⟨row, hrow, hjoker⟩ := hcomplete j arr hpos hle hfill
          exact ⟨row, hrow, taken_of_jokerRow hfill hjoker⟩

end Shunzi

end SdyServer.Daboluo
