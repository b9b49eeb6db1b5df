import Mathlib.Data.List.TakeWhile
import SdyServer.Daboluo.StraightRows

/-!
# Flushes in a pile

`tonghua` takes windows of the cards of a suit that are no straights, `tonghuashun` the straights
among the cards of a suit.
-/

namespace SdyServer.Daboluo

section Falling

variable {vs ws : List Int}

theorem Falls.pairwise (hfalls : Falls vs) : vs.Pairwise (· > ·) := by
  rcases hfalls with rfl | ⟨w, rfl⟩
  · decide
  · simp

theorem falls_of_mem_straights (hmem : vs ∈ straights) : Falls vs := by
  simp only [straights, List.mem_cons, List.not_mem_nil, or_false] at hmem
  rcases hmem with rfl | rfl | rfl | rfl | rfl | rfl | rfl | rfl | rfl | rfl
  · exact .inr ⟨9, rfl⟩
  · exact .inl rfl
  · exact .inr ⟨8, rfl⟩
  · exact .inr ⟨7, rfl⟩
  · exact .inr ⟨6, rfl⟩
  · exact .inr ⟨5, rfl⟩
  · exact .inr ⟨4, rfl⟩
  · exact .inr ⟨3, rfl⟩
  · exact .inr ⟨2, rfl⟩
  · exact .inr ⟨1, rfl⟩

theorem Falls.mem_straights (hfalls : Falls vs) (hrange : ∀ v ∈ vs, 1 ≤ v ∧ v ≤ 13) :
    vs ∈ straights := by
  rcases hfalls with rfl | ⟨w, rfl⟩
  · decide
  · have hlow := (hrange w (by simp)).1
    have hhigh := (hrange (w + 4) (by simp)).2
    have hw : w ∈ [1, 2, 3, 4, 5, 6, 7, 8, 9] := by
      simp only [List.mem_cons, List.not_mem_nil, or_false]
      omega
    simp only [List.mem_cons, List.not_mem_nil, or_false] at hw
    rcases hw with rfl | rfl | rfl | rfl | rfl | rfl | rfl | rfl | rfl <;> decide

/-- Among cards of a deck the straights are the rows whose values fall one by one, the low one
apart. -/
theorem straight_iff (hrange : ∀ v ∈ vs, 1 ≤ v ∧ v ≤ 13) : Straight vs ↔ Falls (desc vs) := by
  refine ⟨falls_of_mem_straights, fun hfalls => hfalls.mem_straights fun v hv => ?_⟩
  exact hrange v ((desc_perm vs).mem_iff.1 hv)

theorem Falls.straight (hfalls : Falls vs) (hrange : ∀ v ∈ vs, 1 ≤ v ∧ v ≤ 13) : Straight vs := by
  rw [straight_iff hrange, ← eq_desc (hfalls.pairwise.imp fun h => h.le) (List.Perm.refl vs)]
  exact hfalls

/-- Falling values that all occur in a list as long as theirs are that list, sorted. -/
theorem eq_of_subset (hfalls : vs.Pairwise (· > ·)) (hsorted : ws.Pairwise (· ≥ ·))
    (hsubset : vs ⊆ ws)
    (hlength : ws.length ≤ vs.length) : vs = ws := by
  have hnodup : vs.Nodup := hfalls.imp fun h => h.ne'
  have hperm : vs.Perm ws := (hnodup.subperm hsubset).perm_of_length_le hlength
  exact hperm.eq_of_pairwise' (hfalls.imp fun h => h.le) hsorted

end Falling

section Straights

theorem fill_no_jokers {o vs : List Int} {w : Window} (hc : w.c = 0) (hb : w.b = []) :
    (w.fill o vs).a = w.a ++ vs.takeWhile (fun i => decide (i ∈ o)) ∧ (w.fill o vs).b = [] := by
  induction vs generalizing w with
  | nil => exact ⟨(List.append_nil _).symm, hb⟩
  | cons i rest ih =>
      rw [Window.fill, hb]
      by_cases hi : i ∈ o
      · rw [if_pos (.inl hi)]
        obtain ⟨ha, hb'⟩ := @ih { w with a := w.a ++ [i], b := [] } hc rfl
        refine ⟨?_, hb'⟩
        rw [ha, List.takeWhile_cons, decide_eq_true hi, List.append_assoc]
        rfl
      · rw [if_neg (by simp [hi]), if_neg (by omega), List.takeWhile_cons, decide_eq_false hi]
        exact ⟨(List.append_nil _).symm, hb⟩

theorem tableSort_desc (vs : List Int) :
    Lua.tableSort (fun a b => decide (a > b)) vs = desc vs := by
  refine eq_desc ?_ (Lua.tableSort_perm _ vs)
  exact @Lua.pairwise_tableSort Int Int _ _ (fun v => v) (by simp) vs

/-- The last test of `getHappydoggyShunzi`, on at most five values. -/
theorem check_falls {a b : List Int} (hlength : a.length ≤ 5) :
    ∃ a' b', (match a with
      | a1 :: a2 :: a3 :: a4 :: a5 :: _ =>
          if [a1, a2, a3, a4, a5] = [13, 4, 3, 2, 1] ∨
              (a1 = a2 + 1 ∧ a2 = a3 + 1 ∧ a3 = a4 + 1 ∧ a4 = a5 + 1) then return (a, b)
          else return ([], [])
      | _ => return ([], []) : Lua (List Int × List Int)) = .ok (a', b') ∧
        (a'.length = 5 ↔ a.length = 5 ∧ Falls a) := by
  match a, hlength with
  | [a1, a2, a3, a4, a5], _ =>
      have hfalls : ([a1, a2, a3, a4, a5] = [13, 4, 3, 2, 1] ∨
          (a1 = a2 + 1 ∧ a2 = a3 + 1 ∧ a3 = a4 + 1 ∧ a4 = a5 + 1)) ↔
              Falls [a1, a2, a3, a4, a5] := by
        refine or_congr_right ⟨fun h => ⟨a5, ?_⟩, ?_⟩
        · simp only [List.cons.injEq, and_true]
          omega
        · rintro ⟨w, hw⟩
          simp only [List.cons.injEq, and_true] at hw
          omega
      by_cases h : Falls [a1, a2, a3, a4, a5]
      · exact ⟨_, _, if_pos (hfalls.2 h), by simp [h]⟩
      · exact ⟨_, _, if_neg fun hcond => h (hfalls.1 hcond), by simp [h]⟩
  | [], _ | [_], _ | [_, _], _ | [_, _, _], _ | [_, _, _, _], _ => exact ⟨_, _, rfl, by simp⟩

theorem length_takeWhile_mem {o vs : List Int} :
    (vs.takeWhile fun i => decide (i ∈ o)).length = vs.length ↔ vs ⊆ o := by
  constructor
  · intro hlength
    have hall := (List.takeWhile_prefix _).eq_of_length hlength
    exact fun v hv => of_decide_eq_true (List.takeWhile_eq_self_iff.1 hall v hv)
  · intro hsubset
    rw [List.takeWhile_eq_self_iff.2 fun v hv => decide_eq_true (hsubset hv)]

/-- The window is filled when its values are those of the cards. -/
theorem window_falls {o pre vs : List Int} (hwindow : Falls (pre ++ vs))
    (hsorted : o.Pairwise (· ≥ ·))
    (hlength : o.length = 5) (hpre : pre ⊆ o) (honly : Falls o → o = pre ++ vs) :
    (pre ++ vs.takeWhile fun i => decide (i ∈ o)).length ≤ 5 ∧
      ((pre ++ vs.takeWhile fun i => decide (i ∈ o)).length = 5 ∧
        Falls (pre ++ vs.takeWhile fun i => decide (i ∈ o)) ↔ Falls o) := by
  have hfive : (pre ++ vs).length = 5 := by
    rcases hwindow with h | ⟨w, h⟩
    · rw [h]
      rfl
    · rw [h]
      rfl
  rw [List.length_append] at hfive ⊢
  have hshort := (List.takeWhile_prefix (l := vs) fun i => decide (i ∈ o)).length_le
  refine ⟨by omega, ?_, ?_⟩
  · rintro ⟨hfull, -⟩
    have hsubset : vs ⊆ o := length_takeWhile_mem.1 (by omega)
    rw [← eq_of_subset hwindow.pairwise hsorted (List.append_subset.2 ⟨hpre, hsubset⟩)
      (by rw [List.length_append]; omega)]
    exact hwindow
  · intro hfalls
    have hsubset : vs ⊆ o := fun v hv => honly hfalls ▸ List.mem_append_right _ hv
    have hall := length_takeWhile_mem.2 hsubset
    refine ⟨by omega, ?_⟩
    rwa [(List.takeWhile_prefix _).eq_of_length hall]

/-- Five cards without jokers make a straight when their values fall one by one. -/
theorem getHappydoggyShunzi_five {row : List Card} (hlength : row.length = 5) :
    ∃ a b, getHappydoggyShunzi row 0 = .ok (a, b) ∧ (a.length = 5 ↔ Falls (desc (values row))) := by
  have hsorted := pairwise_desc (values row)
  have hfive : (desc (values row)).length = 5 := by
    rw [(desc_perm _).length_eq]
    exact (List.length_map _).trans hlength
  obtain ⟨x1, x2, x3, x4, x5, hdesc⟩ : ∃ x1 x2 x3 x4 x5, desc (values row) =
      [x1, x2, x3, x4, x5] := by
    match desc (values row), hfive with
    | [x1, x2, x3, x4, x5], _ => exact ⟨x1, x2, x3, x4, x5, rfl⟩
  have hvalues : Lua.tableSort (fun a b => decide (a > b)) (row.map Card.value) =
      [x1, x2, x3, x4, x5] := by
    rw [tableSort_desc]
    exact hdesc
  rw [hdesc] at hsorted ⊢
  unfold getHappydoggyShunzi
  rw [if_neg (by omega), hvalues]
  simp only [List.head?_cons, List.getLast?_cons_cons, List.getLast?_singleton, Lua.need_some,
    Lua.ok_bind]
  split_ifs with hwheel hgap
  · obtain ⟨rfl, hsecond⟩ := hwheel
    obtain ⟨ha, -⟩ := @fill_no_jokers [13, x2, x3, x4, x5]
      ((List.range ((4 : Int) - 1 + 1).toNat).map fun (i : Nat) => 4 - (i : Int))
      { maxC := 4, minC := 1, c := 0, a := [13] } rfl rfl
    have hlow : x2 < 5 := by simpa [Lua.nth] using hsecond
    obtain ⟨hshort, hiff⟩ :=
      @window_falls [13, x2, x3, x4, x5] [13] [4, 3, 2, 1] (.inl rfl) hsorted rfl
      (by simp) fun hfalls => by
        rcases hfalls with h | ⟨w, h⟩
        · exact h
        · simp only [List.cons.injEq, and_true] at h
          omega
    have hvs : ((List.range ((4 : Int) - 1 + 1).toNat).map fun (i : Nat) => 4 - (i : Int)) =
        [4, 3, 2, 1] := by
      decide
    rw [hvs] at ha
    obtain ⟨a', b', heq, hlen⟩ := @check_falls _ (Window.fill [13, x2, x3, x4, x5] [4, 3, 2, 1]
      { maxC := 4, minC := 1, c := 0, a := [13] }).b (ha ▸ hshort)
    refine ⟨a', b', ?_, hlen.trans (by rw [ha]; exact hiff)⟩
    simp only [hvs]
    exact heq
  · have hnot : ¬Falls [x1, x2, x3, x4, x5] := by
      rintro (h | ⟨w, h⟩)
      · simp only [List.cons.injEq, and_true] at h
        exact hwheel ⟨h.1, by simp [Lua.nth, h.2.1]⟩
      · simp only [List.cons.injEq, and_true] at h
        omega
    exact ⟨[], [], rfl, by simp [hnot]⟩
  · have hspan : x1 = x5 + 4 := by omega
    subst hspan
    have hstep : (4 - (x5 + 4 - x5)).toNat = 0 := by omega
    have hvs : ((List.range (x5 + 4 - x5 + 1).toNat).map fun (i : Nat) => x5 + 4 - (i : Int)) =
        [x5 + 4, x5 + 3, x5 + 2, x5 + 1, x5] := by
      rw [show (x5 + 4 - x5 + 1).toNat = 5 by omega]
      simp only [List.range_succ, List.range_zero, List.map_cons, List.map_nil,
        List.nil_append, List.cons_append, List.cons.injEq, and_true]
      omega
    obtain ⟨ha, -⟩ := @fill_no_jokers [x5 + 4, x2, x3, x4, x5] [x5 + 4, x5 + 3, x5 + 2, x5 + 1, x5]
      { maxC := x5 + 4, minC := x5, c := 0 } rfl rfl
    obtain ⟨hshort, hiff⟩ := @window_falls [x5 + 4, x2, x3, x4, x5] []
      [x5 + 4, x5 + 3, x5 + 2, x5 + 1, x5] (.inr ⟨x5, rfl⟩) hsorted rfl (List.nil_subset _)
          fun hfalls => by
        rcases hfalls with h | ⟨w, h⟩
        · simp only [List.cons.injEq, and_true] at h
          omega
        · simp only [List.nil_append, List.cons.injEq, and_true, true_and] at h ⊢
          omega
    obtain ⟨a', b', heq, hlen⟩ := @check_falls _ (Window.fill [x5 + 4, x2, x3, x4, x5]
      [x5 + 4, x5 + 3, x5 + 2, x5 + 1, x5] { maxC := x5 + 4, minC := x5, c := 0 }).b (ha ▸ hshort)
    refine ⟨a', b', ?_, hlen.trans (by rw [ha]; exact hiff)⟩
    simp only [hstep, Window.widen, hvs]
    exact heq

end Straights

section Flushes

variable {cards : List Card} {row : Five}

def Suited (cards : List Card) : Prop := ∀ c ∈ cards, 1 ≤ c.type ∧ c.type ≤ 4

theorem Suited.noJokers (hsuited : Suited cards) : NoJokers cards := fun c hc => by
  have := hsuited c hc
  omega

theorem Suited.subset {cards' : List Card} (hsuited : Suited cards) (hsubset : cards' ⊆ cards) :
    Suited cards' := fun c hc => hsuited c (hsubset hc)

/-- The cards of a suit, high to low. -/
def suitOf (cards : List Card) (i : Int) : List Card :=
  (Lua.tableSort sortRise cards).filter fun c => c.type = i

theorem mem_suitOf {i : Int} {c : Card} : c ∈ suitOf cards i ↔ c ∈ cards ∧ c.type = i := by
  unfold suitOf
  rw [List.mem_filter, Lua.mem_tableSort, decide_eq_true_eq]

theorem suitOf_subperm (cards : List Card) (i : Int) : (suitOf cards i).Subperm cards :=
  List.filter_sublist.subperm.trans (Lua.tableSort_perm sortRise cards).subperm

theorem getSuit_eq (hsuited : Suited cards) :
    getSuit (Lua.tableSort sortRise cards) = .ok (suitOf cards) := by
  unfold getSuit
  have hnone : ((Lua.tableSort sortRise cards).any fun c => decide (c.type < 1 ∨ 5 < c.type)) =
      false := by
    rw [List.any_eq_false]
    intro c hc
    have := hsuited c (Lua.mem_tableSort.1 hc)
    simp
    omega
  rw [hnone]
  rfl

theorem gather_ok {α β : Type} {l : List α} {body : α → Lua (List β)}
    (hbody : ∀ a ∈ l, ∃ bs, body a = .ok bs) :
    ∃ r, gather l body = .ok r ∧ ∀ b, b ∈ r ↔ ∃ a ∈ l, ∃ bs, body a = .ok bs ∧ b ∈ bs := by
  obtain ⟨rs, hrs⟩ := Lua.mapM_ok_of_body hbody
  refine ⟨rs.flatten, by unfold gather; rw [hrs]; rfl, fun b => ?_⟩
  rw [List.mem_flatten]
  constructor
  · rintro ⟨bs, hbs, hb⟩
    obtain ⟨a, ha, heq⟩ := (Lua.mem_of_mapM_ok hrs bs).1 hbs
    exact ⟨a, ha, bs, heq, hb⟩
  · rintro ⟨a, ha, bs, heq, hb⟩
    exact ⟨bs, (Lua.mem_of_mapM_ok hrs bs).2 ⟨a, ha, heq⟩, hb⟩

/-- A window of a suit, unless it is a straight. -/
def flushOf (row? : Option Five) : Lua (List Five) := do
  match row? with
  | none => return []
  | some row =>
      let (a, _) ← getHappydoggyShunzi row.toList 0
      return if a.length ≠ 5 then [row] else []

theorem flushOf_ok (row? : Option Five) :
    ∃ rows, flushOf row? = .ok rows ∧
      ∀ row, row ∈ rows ↔ row? = some row ∧ ¬Falls (desc (values row.toList)) := by
  match row? with
  | none => exact ⟨[], rfl, by simp⟩
  | some row =>
      obtain ⟨a, b, heq, hiff⟩ := getHappydoggyShunzi_five row.length_toList
      refine ⟨if a.length ≠ 5 then [row] else [], ?_, fun row' => ?_⟩
      · unfold flushOf
        simp only [heq]
        rfl
      · by_cases hfive : a.length = 5
        · have hfalls := hiff.1 hfive
          rw [if_neg (not_not.2 hfive)]
          constructor
          · exact fun h => absurd h List.not_mem_nil
          · rintro ⟨h, hnot⟩
            rw [Option.some.injEq] at h
            exact absurd (h ▸ hfalls) hnot
        · rw [if_pos hfive, List.mem_singleton, Option.some.injEq]
          refine ⟨?_, fun h => h.1.symm⟩
          rintro rfl
          exact ⟨rfl, fun hfalls => hfive (hiff.2 hfalls)⟩

/-- The windows of five cards of a suit. -/
def suitWindows (sArr : List Card) : List (Option Five) :=
  ((up 1 (sArr.length - 4)).map fun l => five sArr l (l + 1) (l + 2) (l + 3) (l + 4)) ++
    if sArr.length > 5 then
      [five sArr 1 3 4 5 6, five sArr 1 2 4 5 6, five sArr 1 2 3 5 6, five sArr 1 2 3 4 6]
    else []

/-- The loop body of `tonghua`. -/
def suitFlushes (sArr : List Card) : Lua (List Five) := do
  if sArr.length > 4 then
    let windows ← gather (up 1 (sArr.length - 4)) fun l =>
      flushOf (five sArr l (l + 1) (l + 2) (l + 3) (l + 4))
    if sArr.length > 5 then
      let others ← gather [five sArr 1 3 4 5 6, five sArr 1 2 4 5 6, five sArr 1 2 3 5 6,
        five sArr 1 2 3 4 6] flushOf
      return windows ++ others
    return windows
  return []

theorem tonghua_eq (hsuited : Suited cards) (hlength : 5 ≤ cards.length) :
    tonghua cards = gather [4, 3, 2, 1] fun i => suitFlushes (suitOf cards i) := by
  obtain ⟨-, hjokers, hcards⟩ := getGroupCards_piles hsuited.noJokers
  unfold tonghua suitFlushes
  rw [if_neg (by omega)]
  simp only [hjokers, hcards, getSuit_eq hsuited, Lua.ok_bind]
  refine Eq.trans (bind_congr fun plain => if_pos (.inl rfl)) (bind_pure _)

theorem suitFlushes_ok (sArr : List Card) :
    ∃ rows, suitFlushes sArr = .ok rows ∧ ∀ row, row ∈ rows ↔
      4 < sArr.length ∧ some row ∈ suitWindows sArr ∧ ¬Falls (desc (values row.toList)) := by
  obtain ⟨windows, hwindows, hmem⟩ := @gather_ok _ _ (up 1 (sArr.length - 4))
    (fun l => flushOf (five sArr l (l + 1) (l + 2) (l + 3) (l + 4)))
    fun l _ => ⟨_, (flushOf_ok _).choose_spec.1⟩
  obtain ⟨others, hothers, hmem'⟩ := @gather_ok _ _ [five sArr 1 3 4 5 6, five sArr 1 2 4 5 6,
    five sArr 1 2 3 5 6, five sArr 1 2 3 4 6] flushOf
      fun row? _ => ⟨_, (flushOf_ok row?).choose_spec.1⟩
  have hflush : ∀ row? row, (∃ rows, flushOf row? = .ok rows ∧ row ∈ rows) ↔
      row? = some row ∧ ¬Falls (desc (values row.toList)) := by
    intro row? row
    obtain ⟨rows, hrows, hiff⟩ := flushOf_ok row?
    rw [← hiff row]
    constructor
    · rintro ⟨rows', hrows', hrow⟩
      rw [hrows, Except.ok.injEq] at hrows'
      exact hrows' ▸ hrow
    · exact fun hrow => ⟨rows, hrows, hrow⟩
  simp only [hflush] at hmem hmem'
  unfold suitFlushes suitWindows
  by_cases hlong : sArr.length > 4
  · by_cases hmore : sArr.length > 5
    · refine ⟨windows ++ others, ?_, fun row => ?_⟩
      · rw [if_pos hlong, hwindows, Lua.ok_bind, if_pos hmore, hothers]
        rfl
      · rw [List.mem_append, hmem, hmem', if_pos hmore, List.mem_append, List.mem_map]
        constructor
        · rintro (⟨l, hl, hrow, hnot⟩ | ⟨row?, hr, rfl, hnot⟩)
          · exact ⟨hlong, .inl ⟨l, hl, hrow⟩, hnot⟩
          · exact ⟨hlong, .inr hr, hnot⟩
        · rintro ⟨-, ⟨l, hl, hrow⟩ | hr, hnot⟩
          · exact .inl ⟨l, hl, hrow, hnot⟩
          · exact .inr ⟨_, hr, rfl, hnot⟩
    · refine ⟨windows, ?_, fun row => ?_⟩
      · rw [if_pos hlong, hwindows, Lua.ok_bind, if_neg hmore]
        rfl
      · rw [hmem, if_neg hmore, List.append_nil, List.mem_map]
        constructor
        · rintro ⟨l, hl, hrow, hnot⟩
          exact ⟨hlong, ⟨l, hl, hrow⟩, hnot⟩
        · rintro ⟨-, ⟨l, hl, hrow⟩, hnot⟩
          exact ⟨l, hl, hrow, hnot⟩
  · refine ⟨[], by rw [if_neg hlong]; rfl, fun row => ?_⟩
    simp [hlong]

theorem five_subperm {l : List Card} {i1 i2 i3 i4 i5 : Nat}
    (hrow : five l i1 i2 i3 i4 i5 = some row)
    (hnodup : [i1, i2, i3, i4, i5].Nodup) : row.toList.Subperm l := by
  obtain ⟨h1, h2, h3, h4, h5⟩ := five_eq_some.1 hrow
  exact Lua.subperm_of_nth hnodup (.cons h1 (.cons h2 (.cons h3 (.cons h4 (.cons h5 .nil)))))

theorem suitWindows_subperm {sArr : List Card} (hmem : some row ∈ suitWindows sArr) :
    row.toList.Subperm sArr := by
  unfold suitWindows at hmem
  rcases List.mem_append.1 hmem with hmem | hmem
  · obtain ⟨l, -, hrow⟩ := List.mem_map.1 hmem
    exact five_subperm hrow (by simp)
  · split_ifs at hmem
    · simp only [List.mem_cons, List.not_mem_nil, or_false] at hmem
      rcases hmem with hrow | hrow | hrow | hrow <;> exact five_subperm hrow.symm (by decide)
    · exact absurd hmem List.not_mem_nil

theorem flush_of_subset {i : Int} {l : List Card} (hsubset : l ⊆ suitOf cards i) : Flush l := by
  intro c hc d hd
  rw [(mem_suitOf.1 (hsubset hc)).2, (mem_suitOf.1 (hsubset hd)).2]

theorem tonghua_ok (hsuited : Suited cards) : ∃ rows, tonghua cards = .ok rows := by
  by_cases hshort : cards.length < 5
  · exact ⟨[], by unfold tonghua; rw [if_pos hshort]; rfl⟩
  · obtain ⟨rows, hrows, -⟩ := @gather_ok _ _ [4, 3, 2, 1] (fun i => suitFlushes (suitOf cards i))
      fun i _ => ⟨_, (suitFlushes_ok _).choose_spec.1⟩
    exact ⟨rows, by rw [tonghua_eq hsuited (by omega), hrows]⟩

theorem mem_tonghua (hsuited : Suited cards) (hlength : 5 ≤ cards.length) {rows : List Five}
    (hrows : tonghua cards = .ok rows) :
    row ∈ rows ↔ ∃ i, (1 ≤ i ∧ i ≤ 4) ∧ 4 < (suitOf cards i).length ∧
      some row ∈ suitWindows (suitOf cards i) ∧ ¬Falls (desc (values row.toList)) := by
  obtain ⟨rows', hrows', hmem⟩ :=
    @gather_ok _ _ [4, 3, 2, 1] (fun i => suitFlushes (suitOf cards i))
    fun i _ => ⟨_, (suitFlushes_ok _).choose_spec.1⟩
  rw [tonghua_eq hsuited hlength, hrows', Except.ok.injEq] at hrows
  subst hrows
  rw [hmem]
  constructor
  · rintro ⟨i, hi, rows, hrows, hrow⟩
    obtain ⟨rows', hrows', hiff⟩ := suitFlushes_ok (suitOf cards i)
    rw [hrows, Except.ok.injEq] at hrows'
    subst hrows'
    refine ⟨i, ?_, (hiff row).1 hrow⟩
    simp only [List.mem_cons, List.not_mem_nil, or_false] at hi
    omega
  · rintro ⟨i, hi, hrow⟩
    obtain ⟨rows, hrows, hiff⟩ := suitFlushes_ok (suitOf cards i)
    refine ⟨i, ?_, rows, hrows, (hiff row).2 hrow⟩
    simp only [List.mem_cons, List.not_mem_nil, or_false]
    omega

/-- Every row of `tonghua` has one suit and is no straight. -/
theorem tonghua_sound (hsuited : Suited cards) {rows : List Five} (hrows : tonghua cards = .ok rows)
    (hmem : row ∈ rows) :
    row.toList.Subperm cards ∧ Flush row.toList ∧ ¬Falls (desc (values row.toList)) := by
  by_cases hshort : cards.length < 5
  · unfold tonghua at hrows
    rw [if_pos hshort] at hrows
    cases hrows
    exact absurd hmem List.not_mem_nil
  obtain ⟨i, -, -, hwindow, hnot⟩ := (mem_tonghua hsuited (by omega) hrows).1 hmem
  have hsub := suitWindows_subperm hwindow
  exact ⟨hsub.trans (suitOf_subperm cards i), flush_of_subset hsub.subset, hnot⟩

/-- The first window of a suit of five cards or more. -/
theorem exists_window {sArr : List Card} (hlong : 5 ≤ sArr.length) :
    ∃ row, some row ∈ suitWindows sArr ∧ row.toList = sArr.take 5 := by
  match sArr, hlong with
  | c1 :: c2 :: c3 :: c4 :: c5 :: rest, _ =>
      refine ⟨⟨c1, c2, c3, c4, c5⟩,
        List.mem_append_left _ (List.mem_map.2 ⟨1, mem_up.2 ⟨le_rfl, ?_⟩, rfl⟩), rfl⟩
      simp

/-- A suit of five cards or more whose first window is no straight has a row. -/
theorem tonghua_ne_nil (hsuited : Suited cards) (hlength : 5 ≤ cards.length) {rows : List Five}
    (hrows : tonghua cards = .ok rows) {i : Int} (hi : 1 ≤ i ∧ i ≤ 4)
    (hlong : 5 ≤ (suitOf cards i).length)
    (hnot : ¬Falls (desc (values ((suitOf cards i).take 5)))) : rows ≠ [] := by
  obtain ⟨row, hwindow, htake⟩ := exists_window hlong
  rw [← htake] at hnot
  exact List.ne_nil_of_mem ((mem_tonghua hsuited hlength hrows).2 ⟨i, hi, hlong, hwindow, hnot⟩)

end Flushes

section Falling

variable {s : List Card} {c d : Card} {w : Int}

/-- Among falling cards the next lower value comes next. -/
theorem nth_next (hfalls : s.Pairwise fun c d => d.value < c.value) {i : Nat}
    (hc : Lua.nth s i = some c)
    (hd : d ∈ s) (hvalue : d.value = c.value - 1) : Lua.nth s (i + 1) = some d := by
  obtain ⟨j, hj⟩ := Lua.exists_nth_of_mem hd
  rcases lt_trichotomy j (i + 1) with hlt | rfl | hgt
  · exfalso
    rcases Nat.lt_succ_iff_lt_or_eq.1 hlt with hlt | rfl
    · have := Lua.rel_of_nth hfalls hj hc hlt
      omega
    · rw [hc, Option.some.injEq] at hj
      subst hj
      omega
  · exact hj
  · obtain ⟨e, he⟩ := @Lua.exists_nth _ s (i + 1) (by omega) (by have := Lua.nth_bounds hj; omega)
    have hce := Lua.rel_of_nth hfalls hc he (Nat.lt_succ_self i)
    have hed := Lua.rel_of_nth hfalls he hj hgt
    omega

/-- The straights among the falling cards of a suit. -/
def straightsOf (sArr : List Card) : List Five :=
  if sArr.length > 4 then
    let k := sArr.length
    let royal := (five sArr 1 2 3 4 5).filter fun row =>
      [13, 12, 11, 10, 9].all fun v => row.c1.value = v
    let wheel := (five sArr 1 (k - 3) (k - 2) (k - 1) k).filter fun row =>
      row.toList.map Card.value = [13, 4, 3, 2, 1]
    let falling := (up 1 (k - 4)).filterMap fun l =>
      (five sArr l (l + 1) (l + 2) (l + 3) (l + 4)).filter fun row =>
        row.c1.value = row.c2.value + 1 ∧ row.c2.value = row.c3.value + 1 ∧
          row.c3.value = row.c4.value + 1 ∧ row.c4.value = row.c5.value + 1
    royal.toList ++ wheel.toList ++ falling
  else []

variable {row : Five}

theorem five_subset {l : List Card} {i1 i2 i3 i4 i5 : Nat}
    (hrow : five l i1 i2 i3 i4 i5 = some row) :
    row.toList ⊆ l := by
  obtain ⟨h1, h2, h3, h4, h5⟩ := five_eq_some.1 hrow
  simp [Five.toList, Lua.mem_of_nth h1, Lua.mem_of_nth h2, Lua.mem_of_nth h3, Lua.mem_of_nth h4,
    Lua.mem_of_nth h5]

theorem straightsOf_sound (hmem : row ∈ straightsOf s) :
    Falls (values row.toList) ∧ row.toList ⊆ s := by
  unfold straightsOf at hmem
  split_ifs at hmem with hlong
  · rcases List.mem_append.1 hmem with hmem | hmem
    · rcases List.mem_append.1 hmem with hmem | hmem
      · -- one value is asked to be five different ones
        obtain ⟨-, hroyal⟩ := Option.filter_eq_some_iff.1 (Option.mem_toList.1 hmem)
        simp only [List.all_cons, List.all_nil, Bool.and_eq_true, decide_eq_true_eq] at hroyal
        omega
      · obtain ⟨hrow, hwheel⟩ := Option.filter_eq_some_iff.1 (Option.mem_toList.1 hmem)
        exact ⟨.inl (of_decide_eq_true hwheel), five_subset hrow⟩
    · obtain ⟨l, -, hrow⟩ := List.mem_filterMap.1 hmem
      obtain ⟨hrow, hfalling⟩ := Option.filter_eq_some_iff.1 hrow
      have hsteps := of_decide_eq_true hfalling
      refine ⟨.inr ⟨row.c5.value, ?_⟩, five_subset hrow⟩
      simp only [values, Five.toList, List.map_cons, List.map_nil, List.cons.injEq, and_true]
      omega
  · exact absurd hmem List.not_mem_nil

theorem straightsOf_complete (hfalls : s.Pairwise fun c d => d.value < c.value)
    (hrange : ∀ c ∈ s, 1 ≤ c.value ∧ c.value ≤ 13) {vs : List Int} (hvs : Falls vs)
    (hmem : vs ⊆ values s) : ∃ row ∈ straightsOf s, values row.toList = vs := by
  have hcard : ∀ v ∈ vs, ∃ c ∈ s, c.value = v := fun v hv => List.mem_map.1 (hmem hv)
  unfold straightsOf
  rcases hvs with rfl | ⟨w, rfl⟩
  · obtain ⟨c1, hc1, h1⟩ := hcard 13 (by simp)
    obtain ⟨c2, hc2, h2⟩ := hcard 4 (by simp)
    obtain ⟨c3, hc3, h3⟩ := hcard 3 (by simp)
    obtain ⟨c4, hc4, h4⟩ := hcard 2 (by simp)
    obtain ⟨c5, hc5, h5⟩ := hcard 1 (by simp)
    obtain ⟨i, hi⟩ := Lua.exists_nth_of_mem hc2
    have hi3 := nth_next hfalls hi hc3 (by omega)
    have hi4 := nth_next hfalls hi3 hc4 (by omega)
    have hi5 := nth_next hfalls hi4 hc5 (by omega)
    obtain ⟨j, hj⟩ := Lua.exists_nth_of_mem hc1
    have hjpos := Lua.nth_bounds hj
    have hend := Lua.nth_bounds hi5
    -- nothing lies above the ace or below the two
    have hfirst : j = 1 := by
      by_contra hne
      obtain ⟨e, he⟩ := @Lua.exists_nth _ s 1 (by decide) (by omega)
      have hlt := Lua.rel_of_nth hfalls he hj (by omega)
      have hle := hrange e (Lua.mem_of_nth he)
      omega
    have hlast : i + 1 + 1 + 1 = s.length := by
      by_contra hne
      obtain ⟨e, he⟩ := @Lua.exists_nth _ s s.length (by omega) le_rfl
      have hlt := Lua.rel_of_nth hfalls hi5 he (by omega)
      have hle := hrange e (Lua.mem_of_nth he)
      omega
    have hij : j < i := by
      by_contra hge
      rcases Nat.lt_or_eq_of_le (not_lt.1 hge) with hlt | rfl
      · have := Lua.rel_of_nth hfalls hi hj hlt
        omega
      · rw [hi, Option.some.injEq] at hj
        subst hj
        omega
    subst hfirst
    have hrow : five s 1 (s.length - 3) (s.length - 2) (s.length - 1) s.length =
        some ⟨c1, c2, c3, c4, c5⟩ := by
      rw [← hlast]
      exact five_eq_some.2 ⟨hj, hi, hi3, hi4, hi5⟩
    refine ⟨⟨c1, c2, c3, c4, c5⟩, ?_, by simp [values, Five.toList, h1, h2, h3, h4, h5]⟩
    rw [if_pos (by omega)]
    refine List.mem_append_left _ (List.mem_append_right _ (Option.mem_toList.2 ?_))
    exact Option.filter_eq_some_iff.2 ⟨hrow, by simp [Five.toList, h1, h2, h3, h4, h5]⟩
  · obtain ⟨c1, hc1, h1⟩ := hcard (w + 4) (by simp)
    obtain ⟨c2, hc2, h2⟩ := hcard (w + 3) (by simp)
    obtain ⟨c3, hc3, h3⟩ := hcard (w + 2) (by simp)
    obtain ⟨c4, hc4, h4⟩ := hcard (w + 1) (by simp)
    obtain ⟨c5, hc5, h5⟩ := hcard w (by simp)
    obtain ⟨i, hi⟩ := Lua.exists_nth_of_mem hc1
    have hi2 := nth_next hfalls hi hc2 (by omega)
    have hi3 := nth_next hfalls hi2 hc3 (by omega)
    have hi4 := nth_next hfalls hi3 hc4 (by omega)
    have hi5 := nth_next hfalls hi4 hc5 (by omega)
    have hpos := Lua.nth_bounds hi
    have hend := Lua.nth_bounds hi5
    have hrow : five s i (i + 1) (i + 2) (i + 3) (i + 4) = some ⟨c1, c2, c3, c4, c5⟩ :=
      five_eq_some.2 ⟨hi, hi2, hi3, hi4, hi5⟩
    refine ⟨⟨c1, c2, c3, c4, c5⟩, ?_, by simp [values, Five.toList, h1, h2, h3, h4, h5]⟩
    rw [if_pos (by omega)]
    refine List.mem_append_right _ (List.mem_filterMap.2 ⟨i, mem_up.2 (by omega), ?_⟩)
    refine Option.filter_eq_some_iff.2 ⟨hrow, decide_eq_true ?_⟩
    show c1.value = c2.value + 1 ∧ c2.value = c3.value + 1 ∧ c3.value = c4.value + 1 ∧
      c4.value = c5.value + 1
    omega

end Falling

section Tonghuashun

variable {cards : List Card} {row : Five}

/-- One step of `delCountSame`: a card of a new value is kept. -/
def keepNew (kept : List Card) (c : Card) : List Card :=
  if kept.any fun d => d.value = c.value then kept else kept ++ [c]

theorem foldl_keepNew {kept l : List Card} (hnodup : (values kept).Nodup) :
    (values (l.foldl keepNew kept)).Nodup ∧ l.foldl keepNew kept ⊆ kept ++ l ∧
      values (kept ++ l) ⊆ values (l.foldl keepNew kept) := by
  induction l generalizing kept with
  | nil =>
      rw [List.append_nil]
      exact ⟨hnodup, List.Subset.refl _, List.Subset.refl _⟩
  | cons c rest ih =>
      rw [List.foldl_cons]
      by_cases hold : c.value ∈ values kept
      · obtain ⟨d, hd, hvalue⟩ := List.mem_map.1 hold
        have hkeep : keepNew kept c = kept :=
          if_pos (List.any_eq_true.2 ⟨d, hd, decide_eq_true hvalue⟩)
        obtain ⟨hnodup', hsubset, hvalues⟩ := ih hnodup
        rw [hkeep]
        refine ⟨hnodup', fun x hx => ?_, fun v hv => hvalues ?_⟩
        · rcases List.mem_append.1 (hsubset hx) with hx | hx
          · exact List.mem_append_left _ hx
          · exact List.mem_append_right _ (List.mem_cons_of_mem _ hx)
        · unfold values at hv hold ⊢
          rw [List.map_append, List.mem_append, List.map_cons, List.mem_cons] at hv
          rw [List.map_append, List.mem_append]
          rcases hv with hv | rfl | hv
          · exact .inl hv
          · exact .inl hold
          · exact .inr hv
      · have hkeep : keepNew kept c = kept ++ [c] := by
          refine if_neg fun hany => hold ?_
          obtain ⟨d, hd, hvalue⟩ := List.any_eq_true.1 hany
          exact List.mem_map.2 ⟨d, hd, of_decide_eq_true hvalue⟩
        have hnodup' : (values (kept ++ [c])).Nodup := by
          unfold values at hold hnodup ⊢
          rw [List.map_append, List.nodup_append_comm]
          exact List.nodup_cons.2 ⟨hold, hnodup⟩
        have hrest := ih hnodup'
        rwa [List.append_assoc, List.singleton_append, ← hkeep] at hrest

theorem delCountSame_spec (l : List Card) :
    (values (delCountSame l)).Nodup ∧ delCountSame l ⊆ l ∧ values l ⊆ values (delCountSame l) := by
  obtain ⟨hnodup, hsubset, hvalues⟩ := @foldl_keepNew [] l List.nodup_nil
  have hperm : (delCountSame l).Perm (l.foldl keepNew []) := Lua.tableSort_perm sortDescent _
  have hperm' : (values (delCountSame l)).Perm (values (l.foldl keepNew [])) := hperm.map _
  exact ⟨hperm'.nodup_iff.2 hnodup, List.Subset.trans hperm.subset hsubset,
    List.Subset.trans hvalues hperm'.symm.subset⟩

/-- The cards of a suit, each value once, as `tonghuashun` looks at them. -/
def suitValues (cards : List Card) (i : Int) : List Card :=
  if (delCountSame (suitOf cards i)).length > 4 then
    Lua.tableSort sortRise (delCountSame (suitOf cards i))
  else delCountSame (suitOf cards i)

theorem tonghuashun_eq (hsuited : Suited cards) (hlength : 5 ≤ cards.length) :
    tonghuashun cards = .ok
    (([4, 3, 2, 1] : List Int).flatMap fun i => straightsOf (suitValues cards i)) := by
  obtain ⟨-, hjokers, hcards⟩ := getGroupCards_piles hsuited.noJokers
  unfold tonghuashun
  rw [if_neg (by omega)]
  simp only [hjokers, hcards, getSuit_eq hsuited, Lua.ok_bind]
  rfl

theorem suitValues_perm (cards : List Card) (i : Int) :
    (suitValues cards i).Perm (delCountSame (suitOf cards i)) := by
  unfold suitValues
  split_ifs
  · exact Lua.tableSort_perm _ _
  · exact List.Perm.refl _

theorem suitValues_falls {i : Int} (hlong : 4 < (suitValues cards i).length) :
    (suitValues cards i).Pairwise fun c d => d.value < c.value := by
  rw [(suitValues_perm cards i).length_eq] at hlong
  unfold suitValues
  rw [if_pos hlong]
  have hperm : (values (Lua.tableSort sortRise (delCountSame (suitOf cards i)))).Perm
      (values (delCountSame (suitOf cards i))) := (Lua.tableSort_perm sortRise _).map _
  have hnodup := hperm.nodup_iff.2 (delCountSame_spec (suitOf cards i)).1
  refine ((pairwise_sortRise _).and (List.pairwise_map.1 hnodup)).imp ?_
  rintro c d ⟨hlt | ⟨heq, -⟩, hne⟩
  · exact hlt
  · exact absurd heq hne

theorem tonghuashun_ok (hsuited : Suited cards) : ∃ rows, tonghuashun cards = .ok rows := by
  by_cases hshort : cards.length < 5
  · exact ⟨[], by unfold tonghuashun; rw [if_pos hshort]; rfl⟩
  · exact ⟨_, tonghuashun_eq hsuited (by omega)⟩

/-- Every row of `tonghuashun` is a straight of one suit. -/
theorem tonghuashun_sound (hsuited : Suited cards) {rows : List Five}
    (hrows : tonghuashun cards = .ok rows)
    (hmem : row ∈ rows) : Falls (values row.toList) ∧ row.toList ⊆ cards ∧ Flush row.toList := by
  by_cases hshort : cards.length < 5
  · unfold tonghuashun at hrows
    rw [if_pos hshort] at hrows
    cases hrows
    exact absurd hmem List.not_mem_nil
  rw [tonghuashun_eq hsuited (by omega), Except.ok.injEq] at hrows
  subst hrows
  obtain ⟨i, -, hrow⟩ := List.mem_flatMap.1 hmem
  obtain ⟨hfalls, hsubset⟩ := straightsOf_sound hrow
  have hsuit : row.toList ⊆ suitOf cards i :=
    List.Subset.trans hsubset
      (List.Subset.trans (suitValues_perm cards i).subset (delCountSame_spec _).2.1)
  exact ⟨hfalls, List.Subset.trans hsuit (suitOf_subperm cards i).subset, flush_of_subset hsuit⟩

/-- Whenever the values of a straight occur in a suit, `tonghuashun` has a row. -/
theorem tonghuashun_ne_nil (hsuited : Suited cards)
    (hrange : ∀ c ∈ cards, 1 ≤ c.value ∧ c.value ≤ 13)
    (hlength : 5 ≤ cards.length) {rows : List Five} (hrows : tonghuashun cards = .ok rows) {i : Int}
    (hi : 1 ≤ i ∧ i ≤ 4) {vs : List Int} (hfalls : Falls vs) (hmem : vs ⊆ values (suitOf cards i)) :
    rows ≠ [] := by
  rw [tonghuashun_eq hsuited hlength, Except.ok.injEq] at hrows
  subst hrows
  have hvs : vs ⊆ values (suitValues cards i) := fun v hv => by
    have hperm : (values (suitValues cards i)).Perm (values (delCountSame (suitOf cards i))) :=
      (suitValues_perm cards i).map _
    exact hperm.symm.subset ((delCountSame_spec _).2.2 (hmem hv))
  have hlong : 4 < (suitValues cards i).length := by
    have hnodup : vs.Nodup := hfalls.pairwise.imp fun h => h.ne'
    have hle := (hnodup.subperm hvs).length_le
    have hfive : vs.length = 5 := by
      rcases hfalls with rfl | ⟨w, rfl⟩ <;> rfl
    rw [values, List.length_map] at hle
    omega
  have hrange' : ∀ c ∈ suitValues cards i, 1 ≤ c.value ∧ c.value ≤ 13 := fun c hc =>
    hrange c (mem_suitOf.1 ((delCountSame_spec _).2.1 ((suitValues_perm cards i).subset hc))).1
  obtain ⟨row, hrow, -⟩ := straightsOf_complete (suitValues_falls hlong) hrange' hfalls hvs
  refine List.ne_nil_of_mem (List.mem_flatMap.2 ⟨i, ?_, hrow⟩)
  simp only [List.mem_cons, List.not_mem_nil, or_false]
  omega

end Tonghuashun

end SdyServer.Daboluo
