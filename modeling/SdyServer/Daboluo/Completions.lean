import Mathlib.Data.Int.Interval
import Mathlib.Tactic.IntervalCases
import SdyServer.Daboluo.FlushRows

/-!
# Straights completed with jokers

`getHappydoggyShunzi` widens a window around the values it is given, upwards as far as it can, and
fills it with jokers. With five cards and jokers together it comes to the best straight that has all
the values, and when there are fewer, or when no straight has them, it returns nothing.
-/

namespace SdyServer.Daboluo

/-- The values of a straight that jokers have to stand for. -/
def missing (vs s : List Int) : List Int := s.filter fun v => v ∉ vs

/-- A straight that `c` jokers make of the values. -/
def Completes (vs : List Int) (c : Nat) (s : List Int) : Prop := vs ⊆ s ∧ (missing vs s).length ≤ c

instance (vs : List Int) (c : Nat) (s : List Int) : Decidable (Completes vs c s) :=
  inferInstanceAs (Decidable (_ ∧ _))

/-- The best of the straights that `c` jokers make of the values. -/
def completion (vs : List Int) (c : Nat) : Option (List Int) :=
  straights.find? fun s => Completes vs c s

section Missing

variable {vs s : List Int}

theorem length_missing (hnodup : vs.Nodup) (hs : s.Nodup) (hsub : vs ⊆ s) :
    (missing vs s).length + vs.length = s.length := by
  have hperm : (s.filter fun v => v ∈ vs).Perm vs := by
    rw [List.perm_ext_iff_of_nodup (hs.filter _) hnodup]
    intro v
    rw [List.mem_filter, decide_eq_true_eq]
    exact ⟨fun h => h.2, fun hv => ⟨hsub hv, hv⟩⟩
  have hsplit := (List.filter_append_perm (fun v => decide (v ∈ vs)) s).length_eq
  rw [List.length_append, hperm.length_eq] at hsplit
  unfold missing
  simp only [decide_not]
  omega

theorem length_missing_straight (hnodup : vs.Nodup) (hs : s ∈ straights) (hsub : vs ⊆ s) :
    (missing vs s).length + vs.length = 5 := by
  have hfive : ∀ s ∈ straights, s.Nodup ∧ s.length = 5 := by decide
  obtain ⟨hs', hlength⟩ := hfive s hs
  rw [length_missing hnodup hs' hsub, hlength]

/-- Few cards and jokers complete nothing. -/
theorem completion_of_few {c : Nat} (hnodup : vs.Nodup) (hfew : vs.length + c < 5) :
    completion vs c = none := by
  refine List.find?_eq_none.2 fun s hs hc => ?_
  obtain ⟨hsub, hle⟩ := of_decide_eq_true hc
  have := length_missing_straight hnodup hs hsub
  omega

/-- With enough jokers every straight will do that has the values. -/
theorem completion_of_enough {c : Nat} (hnodup : vs.Nodup) (henough : 5 ≤ vs.length + c) :
    completion vs c = straights.find? fun s => vs ⊆ s := by
  unfold completion
  rw [← List.head?_filter, ← List.head?_filter]
  congr 1
  refine List.filter_congr fun s hs => decide_eq_decide.2 ⟨fun h => h.1, fun hsub => ⟨hsub, ?_⟩⟩
  have := length_missing_straight hnodup hs hsub
  omega

end Missing

section Best

variable {vs : List Int} {lo hi : Int}

def falling (t : Int) : List Int := [t, t - 1, t - 2, t - 3, t - 4]

def wheel : List Int := [13, 4, 3, 2, 1]

/-- The lowest and the highest value. -/
structure Bounds (vs : List Int) (lo hi : Int) : Prop where
  lo_mem : lo ∈ vs
  hi_mem : hi ∈ vs
  between : ∀ v ∈ vs, lo ≤ v ∧ v ≤ hi

theorem mem_falling {t v : Int} : v ∈ falling t ↔ t - 4 ≤ v ∧ v ≤ t := by
  simp only [falling, List.mem_cons, List.not_mem_nil, or_false]
  omega

theorem nodup_falling (t : Int) : (falling t).Nodup := by
  have hpair : (falling t).Pairwise fun a b => b < a := by
    simp only [falling, List.pairwise_cons, List.mem_cons, List.not_mem_nil, or_false]
    simp
  exact hpair.imp fun h => h.ne'

theorem mem_wheel {v : Int} : v ∈ wheel ↔ v = 13 ∨ 1 ≤ v ∧ v ≤ 4 := by
  simp only [wheel, List.mem_cons, List.not_mem_nil, or_false]
  omega

theorem Bounds.subset_falling (hbounds : Bounds vs lo hi) (t : Int) :
    vs ⊆ falling t ↔ t - 4 ≤ lo ∧ hi ≤ t := by
  constructor
  · intro hsub
    have hlow := mem_falling.1 (hsub hbounds.lo_mem)
    have hhigh := mem_falling.1 (hsub hbounds.hi_mem)
    exact ⟨hlow.1, hhigh.2⟩
  · rintro ⟨hlow, hhigh⟩ v hv
    have := hbounds.between v hv
    exact mem_falling.2 (by omega)

theorem straights_eq :
    straights = falling 13 :: wheel :: ([12, 11, 10, 9, 8, 7, 6, 5] : List Int).map falling := rfl

theorem find_highest (hlo : 1 ≤ lo) (hlo' : lo ≤ 8) (hspan : hi ≤ lo + 4) :
    ([12, 11, 10, 9, 8, 7, 6, 5] : List Int).find? (fun t => decide (t - 4 ≤ lo ∧ hi ≤ t)) =
    some (lo + 4) := by
  interval_cases lo <;> norm_num at hspan <;> simp [hspan]

/-- Values in reach of each other make the straight that is as high as it can be. -/
theorem Bounds.best_falling (hbounds : Bounds vs lo hi) (hlo : 1 ≤ lo) (hhi : hi ≤ 13)
    (hspan : hi ≤ lo + 4)
    (hwheel : 9 ≤ lo ∨ ¬vs ⊆ wheel) :
    (straights.find? fun s => vs ⊆ s) = some (falling (min 13 (lo + 4))) := by
  rw [straights_eq]
  by_cases htop : 9 ≤ lo
  · have hsub : vs ⊆ falling 13 := (hbounds.subset_falling 13).2 ⟨by omega, hhi⟩
    rw [List.find?_cons_of_pos (by simpa using hsub), min_eq_left (by omega)]
  · have hsub : ¬vs ⊆ falling 13 :=
      fun hsub => htop (by have := ((hbounds.subset_falling 13).1 hsub).1; omega)
    rw [List.find?_cons_of_neg (by simpa using hsub),
      List.find?_cons_of_neg (by simpa using hwheel.resolve_left htop), List.find?_map,
        min_eq_right (by omega)]
    have hpred : (fun s => decide (vs ⊆ s)) ∘ falling = fun t => decide (t - 4 ≤ lo ∧ hi ≤ t) :=
      funext fun t => decide_eq_decide.2 (hbounds.subset_falling t)
    rw [hpred, find_highest hlo (by omega) hspan]
    rfl

/-- Values that are out of reach of each other are only found in the straight from the ace to the
five. -/
theorem Bounds.no_straight (hbounds : Bounds vs lo hi) (hspan : lo + 4 < hi)
    (hwheel : ¬vs ⊆ wheel) :
    (straights.find? fun s => vs ⊆ s) = none := by
  have hnot : ∀ t, ¬vs ⊆ falling t := by
    intro t hsub
    have := (hbounds.subset_falling t).1 hsub
    omega
  refine List.find?_eq_none.2 fun s hs => ?_
  rw [straights_eq, List.mem_cons, List.mem_cons, List.mem_map] at hs
  rcases hs with rfl | rfl | ⟨t, -, rfl⟩
  · simpa using hnot 13
  · simpa using hwheel
  · simpa using hnot t

theorem Bounds.best_wheel (hbounds : Bounds vs lo hi) (hlow : lo ≤ 4) (hwheel : vs ⊆ wheel) :
    (straights.find? fun s => vs ⊆ s) = some wheel := by
  have hnot : ¬vs ⊆ falling 13 := by
    intro hsub
    have := (hbounds.subset_falling 13).1 hsub
    omega
  rw [straights_eq, List.find?_cons_of_neg (by simpa using hnot),
    List.find?_cons_of_pos (by simpa using hwheel)]

end Best

section Window

variable {w : Window} {o is : List Int} {n : Nat}

/-- A window is filled as long as there are jokers for what is missing. -/
theorem fill_eq (his : is.Nodup) (hc : ((is.filter fun i => i ∉ o ∧ i ∉ w.b).length : Int) ≤ w.c) :
    (w.fill o is).a = w.a ++ is ∧ (w.fill o is).b =
    (is.filter fun i => i ∉ o ∧ i ∉ w.b).reverse ++ w.b := by
  induction is generalizing w with
  | nil => exact ⟨(List.append_nil _).symm, rfl⟩
  | cons i rest ih =>
      obtain ⟨hi, hrest⟩ := List.nodup_cons.1 his
      rw [Window.fill]
      by_cases hmem : i ∈ o ∨ i ∈ w.b
      · have hdrop : ((i :: rest).filter fun i => i ∉ o ∧ i ∉ w.b) = rest.filter fun i => i ∉ o ∧
            i ∉ w.b :=
          List.filter_cons_of_neg (by simpa using or_iff_not_imp_left.1 hmem)
        rw [hdrop] at hc ⊢
        rw [if_pos hmem]
        obtain ⟨ha, hb⟩ := @ih { w with a := w.a ++ [i] } hrest hc
        exact ⟨by rw [ha, List.append_assoc]; rfl, hb⟩
      · have hkeep : ((i :: rest).filter fun i => i ∉ o ∧ i ∉ w.b) =
            i :: rest.filter fun i => i ∉ o ∧ i ∉ w.b :=
          List.filter_cons_of_pos (by simpa [not_or] using hmem)
        have hsame : (rest.filter fun j => j ∉ o ∧ j ∉ i :: w.b) = rest.filter fun j => j ∉ o ∧
            j ∉ w.b := by
          refine List.filter_congr fun j hj => ?_
          have hne : j ≠ i := fun heq => hi (heq ▸ hj)
          simp [hne]
        rw [hkeep, List.length_cons] at hc
        rw [hkeep, if_neg hmem, if_pos (by omega)]
        obtain ⟨ha, hb⟩ := @ih { w with a := w.a ++ [i], b := i :: w.b, c := w.c - 1 } hrest (by
          rw [hsame]
          push_cast at hc ⊢
          omega)
        refine ⟨by rw [ha, List.append_assoc]; rfl, ?_⟩
        rw [hb, hsame, List.reverse_cons, List.append_assoc]
        rfl

/-- From a window above the five the straight goes as high as it can. -/
theorem widen_high (hspan : w.maxC - w.minC + n = 4) (hhigh : 5 ≤ w.maxC) (hmax : w.maxC ≤ 13) :
    w.widen n = some { w with maxC := min 13 (w.minC + 4), minC := min 9 w.minC } := by
  induction n generalizing w with
  | zero =>
      rw [Window.widen, min_eq_right (by omega), min_eq_right (by omega)]
      have hmaxC : w.minC + 4 = w.maxC := by omega
      rw [hmaxC]
  | succ n ih =>
      rw [Window.widen]
      by_cases hup : w.maxC + 1 < 14
      · simp only [if_pos hup]
        rw [if_neg (by omega), @ih { w with maxC := w.maxC + 1 }
            (by push_cast at hspan ⊢; omega) (by
          show 5 ≤ w.maxC + 1
          omega) (by
          show w.maxC + 1 ≤ 13
          omega)]
      · simp only [if_neg hup, if_pos (show w.minC - 1 > 0 by push_cast at hspan; omega)]
        rw [if_neg (by omega), @ih { w with minC := w.minC - 1 }
          (by push_cast at hspan ⊢; omega) hhigh hmax]
        push_cast at hspan
        dsimp only
        congr 2 <;> omega

/-- A window below the five is turned into the straight from the ace to the five. -/
theorem widen_low (hspan : w.maxC - w.minC + n = 4) (hlow : w.maxC ≤ 4) (hmin : 1 ≤ w.minC) :
    w.widen n = some { maxC := 4, minC := 1, c := w.c - w.minC, a := [13],
                       b := 13 :: (up 1 (w.minC - 1).toNat).map Int.ofNat } := by
  induction n generalizing w with
  | zero => omega
  | succ n ih =>
      rw [Window.widen]
      simp only [if_pos (show w.maxC + 1 < 14 by omega)]
      push_cast at hspan
      by_cases hfive : w.maxC + 1 = 5
      · rw [if_pos ⟨hfive, by omega⟩]
        have hlength : (((up 1 (w.minC - 1).toNat).map Int.ofNat).length : Int) = w.minC - 1 := by
          rw [List.length_map, up, List.length_range']
          omega
        simp only [hlength]
        congr 2 <;> omega
      · rw [if_neg (fun h => hfive h.1), @ih { w with maxC := w.maxC + 1 } (by
          show w.maxC + 1 - w.minC + n = 4
          omega) (by
          show w.maxC + 1 ≤ 4
          omega) hmin]

end Window

section Code

variable {cards : List Card} {cArr vs : List Int} {lo hi : Int} {c : Nat} {w : Window}

/-- The window that `getHappydoggyShunzi` fills. -/
def shunziWindow (cArr : List Int) (maxC minC c : Int) : Option Window :=
  if maxC = 13 ∧ (Lua.nth cArr 2).any (fun second => decide (second < 5)) then
    some { maxC := 4, minC := 1, c, a := [maxC] }
  else if maxC - minC > 4 ∨ 4 - (maxC - minC) > c then none
  else Window.widen { maxC, minC, c } (4 - (maxC - minC)).toNat

def windowValues (w : Window) : List Int :=
  (List.range (w.maxC - w.minC + 1).toNat).map fun (i : Nat) => w.maxC - i

/-- The row that a filled window makes. -/
def shunziRow (cArr : List Int) (window : Option Window) : Lua (List Int × List Int) :=
  match window with
  | none => return ([], [])
  | some w =>
      match (w.fill cArr (windowValues w)).a with
      | a1 :: a2 :: a3 :: a4 :: a5 :: _ =>
          if [a1, a2, a3, a4, a5] = [13, 4, 3, 2, 1] ∨
              (a1 = a2 + 1 ∧ a2 = a3 + 1 ∧ a3 = a4 + 1 ∧ a4 = a5 + 1) then
            return ((w.fill cArr (windowValues w)).a, (w.fill cArr (windowValues w)).b)
          else return ([], [])
      | _ => return ([], [])

theorem getHappydoggyShunzi_eq {c : Int} (hhead : (desc (values cards)).head? = some hi)
    (hlast : (desc (values cards)).getLast? = some lo) (henough : 5 ≤ cards.length + c) :
    getHappydoggyShunzi cards c =
      shunziRow (desc (values cards)) (shunziWindow (desc (values cards)) hi lo c) := by
  have hvalues : Lua.tableSort (fun a b => decide (a > b)) (cards.map Card.value) =
      desc (values cards) :=
    tableSort_desc _
  unfold getHappydoggyShunzi
  rw [if_neg (by omega), hvalues]
  dsimp only
  rw [hhead, hlast]
  rfl

theorem exists_bounds (hne : vs ≠ []) :
    ∃ lo hi, Bounds vs lo hi ∧ (desc vs).head? = some hi ∧ (desc vs).getLast? = some lo := by
  have hne' : desc vs ≠ [] := fun hnil => hne ((desc_perm vs).symm.trans (by rw [hnil])).eq_nil
  refine ⟨_, _, ⟨?_, ?_, fun v hv => ⟨?_, ?_⟩⟩, List.head?_eq_some_head hne',
    List.getLast?_eq_some_getLast hne'⟩
  · exact (desc_perm vs).subset (List.getLast_mem hne')
  · exact (desc_perm vs).subset (List.head_mem hne')
  · exact (pairwise_desc vs).rel_getLast ((desc_perm vs).mem_iff.2 hv)
  · exact (pairwise_desc vs).rel_head ((desc_perm vs).mem_iff.2 hv)

/-- The second value decides whether all the others lie below the five. -/
theorem second_low_iff (hnodup : vs.Nodup) (hhead : (desc vs).head? = some hi) :
    ((Lua.nth (desc vs) 2).any fun second => decide (second < 5)) = true ↔
      1 < vs.length ∧ ∀ v ∈ vs, v = hi ∨ v < 5 := by
  have hperm := desc_perm vs
  have hsorted := pairwise_desc vs
  have hnodup' : (desc vs).Nodup := hperm.nodup_iff.2 hnodup
  rw [← hperm.length_eq]
  simp only [← hperm.mem_iff]
  match desc vs, hhead, hsorted, hnodup' with
  | [_], _, _, _ => simp [Lua.nth]
  | x :: y :: rest, hhead, hsorted, hnodup' =>
      obtain rfl : x = hi := Option.some.inj hhead
      have hnth : Lua.nth (x :: y :: rest) 2 = some y := rfl
      rw [hnth, Option.any_some, decide_eq_true_eq]
      constructor
      · intro hlow
        refine ⟨by simp, fun v hv => ?_⟩
        rw [List.mem_cons, List.mem_cons] at hv
        rcases hv with rfl | rfl | hv
        · exact .inl rfl
        · exact .inr hlow
        · have := (List.pairwise_cons.1 (List.pairwise_cons.1 hsorted).2).1 v hv
          exact .inr (by omega)
      · rintro ⟨-, hall⟩
        refine (hall y (by simp)).resolve_left fun heq => ?_
        exact (List.nodup_cons.1 hnodup').1 (heq ▸ List.mem_cons_self ..)

/-- A window is filled to a straight. -/
theorem shunziRow_of_fill {s : List Int} (hs : s = wheel ∨ ∃ t, s = falling t)
    (hw : w.a ++ windowValues w = s)
    (hc : (((windowValues w).filter fun i => i ∉ cArr ∧ i ∉ w.b).length : Int) ≤ w.c) :
    shunziRow cArr (some w) =
      .ok (s, ((windowValues w).filter fun i => i ∉ cArr ∧ i ∉ w.b).reverse ++ w.b) := by
  have hnodup : (windowValues w).Nodup := by
    have hs' : s.Nodup := by
      rcases hs with rfl | ⟨t, rfl⟩
      · decide
      · exact nodup_falling t
    rw [← hw] at hs'
    exact hs'.of_append_right
  obtain ⟨ha, hb⟩ := fill_eq hnodup hc
  unfold shunziRow
  dsimp only
  rw [ha, hb, hw]
  rcases hs with rfl | ⟨t, rfl⟩
  · rfl
  · exact if_pos (.inr (by omega))

end Code

section Main

variable {cards : List Card} {vs : List Int} {lo hi : Int} {c : Nat}

theorem filter_desc (vs is : List Int) :
    (is.filter fun i => i ∉ desc vs ∧ i ∉ ([] : List Int)) = missing vs is := by
  refine List.filter_congr fun i _ => ?_
  simp [(desc_perm vs).mem_iff]

theorem windowValues_falling {w : Window} {t : Int} (hmax : w.maxC = t) (hmin : w.minC = t - 4) :
    windowValues w = falling t := by
  unfold windowValues
  rw [hmax, hmin, show (t - (t - 4) + 1).toNat = 5 by omega]
  simp [falling, List.range_succ]

theorem falling_mem_straights {t : Int} (hlow : 5 ≤ t) (hhigh : t ≤ 13) :
    falling t ∈ straights := by
  interval_cases t <;> decide

/-- Distinct values in reach of each other are not more than their span. -/
theorem Bounds.length_le (hbounds : Bounds vs lo hi) (hnodup : vs.Nodup) :
    (vs.length : Int) ≤ hi - lo + 1 := by
  have hsub : vs.toFinset ⊆ Finset.Icc lo hi := by
    intro v hv
    exact Finset.mem_Icc.2 (hbounds.between v (List.mem_toFinset.1 hv))
  have hcard := Finset.card_le_card hsub
  rw [List.toFinset_card_of_nodup hnodup, Int.card_Icc] at hcard
  have := hbounds.between lo hbounds.lo_mem
  omega

/-- The ace above values below the five: the straight from the ace to the five. -/
theorem shunziRow_ace (hnodup : vs.Nodup) (hace : (13 : Int) ∈ vs) (hsub : vs ⊆ wheel)
    (henough : 5 ≤ vs.length + c) :
    shunziRow (desc vs) (some { maxC := 4, minC := 1, c, a := [13] }) =
      .ok (wheel, (missing vs wheel).reverse) := by
  have hmissing : missing vs wheel = missing vs [4, 3, 2, 1] :=
    List.filter_cons_of_neg (by simpa using hace)
  have hlength := length_missing_straight hnodup (by decide) hsub
  have hvalues : windowValues { maxC := 4, minC := 1, c, a := [13] } = [4, 3, 2, 1] := by
    simp [windowValues, List.range_succ]
  have hrow := @shunziRow_of_fill (desc vs) { maxC := 4, minC := 1, c, a := [13] } wheel (.inl rfl)
  rw [hvalues, filter_desc, ← hmissing] at hrow
  rw [hrow rfl (by dsimp only; omega), List.append_nil]

/-- Values below the five alone: the ace and the values below them are filled at once, the others
with the window. -/
theorem shunziRow_low (hnodup : vs.Nodup) (hbounds : Bounds vs lo hi) (hlo : 1 ≤ lo) (hhi : hi ≤ 4)
    (henough : 5 ≤ vs.length + c) :
    ∃ b, shunziRow (desc vs) (some { maxC := 4, minC := 1, c := c - lo, a := [13],
                                     b := 13 :: (up 1 (lo - 1).toNat).map Int.ofNat }) =
                                       .ok (wheel, b) ∧
      b.Perm (missing vs wheel) := by
  have hle := (hbounds.between lo hbounds.lo_mem).2
  obtain ⟨below, hbelow⟩ : ∃ below, (up 1 (lo - 1).toNat).map Int.ofNat = below := ⟨_, rfl⟩
  have hmem : ∀ v, v ∈ below ↔ 1 ≤ v ∧ v < lo := by
    intro v
    rw [← hbelow, List.mem_map]
    constructor
    · rintro ⟨i, hi, rfl⟩
      have := mem_up.1 hi
      rw [Int.ofNat_eq_natCast]
      omega
    · rintro ⟨hv, hlt⟩
      exact ⟨v.toNat, mem_up.2 (by omega), Int.toNat_of_nonneg (by omega)⟩
  have hnodup' : (13 :: below).Nodup := by
    rw [List.nodup_cons, hmem]
    refine ⟨by omega, ?_⟩
    rw [← hbelow]
    exact (List.nodup_range' _).map fun _ _ h => Int.ofNat.inj h
  have hlength : (below.length : Int) = lo - 1 := by
    rw [← hbelow, List.length_map, up, List.length_range']
    omega
  have hsub : vs ⊆ wheel := by
    intro v hv
    have := hbounds.between v hv
    exact mem_wheel.2 (by omega)
  obtain ⟨gaps, hgaps⟩ : ∃ gaps, ([4, 3, 2, 1] : List Int).filter
      (fun i => i ∉ desc vs ∧ i ∉ 13 :: below) = gaps :=
    ⟨_, rfl⟩
  have hmemgaps : ∀ v, v ∈ gaps ↔ (1 ≤ v ∧ v ≤ 4) ∧ v ∉ vs ∧ v ∉ 13 :: below := by
    intro v
    rw [← hgaps, List.mem_filter, decide_eq_true_eq, (desc_perm vs).mem_iff]
    refine and_congr_left fun _ => ?_
    simp only [List.mem_cons, List.not_mem_nil, or_false]
    omega
  have hperm : (gaps.reverse ++ 13 :: below).Perm (missing vs wheel) := by
    have hgapsnodup : gaps.Nodup := hgaps ▸ List.Nodup.filter _ (by decide)
    have hwheelnodup : (missing vs wheel).Nodup := List.Nodup.filter _ (by decide)
    rw [List.perm_ext_iff_of_nodup _ hwheelnodup]
    · intro v
      rw [List.mem_append, List.mem_reverse, hmemgaps, missing, List.mem_filter,
        decide_eq_true_eq, mem_wheel,
        List.mem_cons, hmem]
      have hout : v ∈ vs → lo ≤ v ∧ v ≤ hi := hbounds.between v
      constructor
      · rintro (⟨hv, hnot, -⟩ | rfl | hv)
        · exact ⟨.inr hv, hnot⟩
        · exact ⟨.inl rfl, fun hv => by have := hout hv; omega⟩
        · exact ⟨.inr (by omega), fun hv' => by have := hout hv'; omega⟩
      · rintro ⟨hv, hnot⟩
        by_cases hbelow' : v = 13 ∨ 1 ≤ v ∧ v < lo
        · exact .inr hbelow'
        · exact .inl ⟨by omega, hnot, hbelow'⟩
    · rw [List.nodup_append, List.nodup_reverse]
      refine ⟨hgapsnodup, hnodup', fun v hv w hw heq => ?_⟩
      exact ((hmemgaps v).1 (List.mem_reverse.1 hv)).2.2 (heq ▸ hw)
  have hcount := hperm.length_eq
  rw [List.length_append, List.length_reverse, List.length_cons] at hcount
  have hfive := length_missing_straight hnodup (by decide) hsub
  have hvalues : windowValues { maxC := 4, minC := 1, c := c - lo, a := [13], b := 13 :: below } =
      [4, 3, 2, 1] := by
    simp [windowValues, List.range_succ]
  have hrow := @shunziRow_of_fill (desc vs)
    { maxC := 4, minC := 1, c := c - lo, a := [13], b := 13 :: below } wheel (.inl rfl)
  rw [hvalues, hgaps] at hrow
  rw [hbelow]
  exact ⟨_, hrow rfl (by dsimp only; omega), hperm⟩

/-- All other values in reach of each other: the straight that is as high as it can be. -/
theorem shunziRow_high (hnodup : vs.Nodup) (hbounds : Bounds vs lo hi) (hlo : 1 ≤ lo)
    (hhi : hi ≤ 13)
    (hspan : hi ≤ lo + 4) (henough : 5 ≤ vs.length + c) :
    shunziRow (desc vs) (some { maxC := min 13 (lo + 4), minC := min 9 lo, c }) =
      .ok (falling (min 13 (lo + 4)), (missing vs (falling (min 13 (lo + 4)))).reverse) := by
  have hsub : vs ⊆ falling (min 13 (lo + 4)) := (hbounds.subset_falling _).2 ⟨by omega, by omega⟩
  have hlength := length_missing_straight hnodup (falling_mem_straights (by omega) (by omega)) hsub
  have hvalues : windowValues { maxC := min 13 (lo + 4), minC := min 9 lo, c } =
      falling (min 13 (lo + 4)) :=
    windowValues_falling rfl (by dsimp only; omega)
  have hrow := @shunziRow_of_fill (desc vs) { maxC := min 13 (lo + 4), minC := min 9 lo, c }
    (falling (min 13 (lo + 4))) (.inr ⟨min 13 (lo + 4), rfl⟩)
  rw [hvalues, filter_desc] at hrow
  rw [hrow rfl (by dsimp only; omega), List.append_nil]

/-- The row of the window, when cards and jokers are enough. -/
theorem shunziRow_window (hnodup : vs.Nodup) (hbounds : Bounds vs lo hi)
    (hhead : (desc vs).head? = some hi)
    (hlo : 1 ≤ lo) (hhi : hi ≤ 13) (henough : 5 ≤ vs.length + c) :
    ∃ b, shunziRow (desc vs) (shunziWindow (desc vs) hi lo c) =
        .ok ((straights.find? fun s => vs ⊆ s).getD [], b) ∧
      b.Perm (missing vs ((straights.find? fun s => vs ⊆ s).getD [])) := by
  have hle := (hbounds.between lo hbounds.lo_mem).2
  have hwheel : vs ⊆ wheel ↔ ∀ v ∈ vs, v = 13 ∨ v < 5 := by
    refine forall₂_congr fun v hv => ?_
    have := hbounds.between v hv
    rw [mem_wheel]
    omega
  unfold shunziWindow
  split_ifs with hlow hfar
  · -- the ace, and others below the five
    obtain ⟨rfl, hsecond⟩ := hlow
    obtain ⟨hmore, hothers⟩ := (second_low_iff hnodup hhead).1 hsecond
    have hsub := hwheel.2 hothers
    have hlo4 : lo ≤ 4 := by
      have := hbounds.length_le hnodup
      rcases hothers lo hbounds.lo_mem with heq | hlt <;> omega
    rw [hbounds.best_wheel hlo4 hsub]
    exact ⟨_, shunziRow_ace hnodup hbounds.hi_mem hsub henough, List.reverse_perm _⟩
  · -- values out of reach
    have hlength := hbounds.length_le hnodup
    have hspan : lo + 4 < hi := by omega
    have hnot : ¬vs ⊆ wheel := by
      intro hsub
      have hothers := hwheel.1 hsub
      obtain rfl : hi = 13 := (hothers hi hbounds.hi_mem).resolve_right (by omega)
      refine hlow ⟨rfl, (second_low_iff hnodup hhead).2 ⟨?_, hothers⟩⟩
      have hpos := List.length_pos_of_mem hbounds.lo_mem
      by_contra hone
      obtain ⟨v, rfl⟩ : ∃ v, vs = [v] := List.length_eq_one_iff.1 (by omega)
      have := List.mem_singleton.1 hbounds.lo_mem
      have := List.mem_singleton.1 hbounds.hi_mem
      omega
    rw [hbounds.no_straight hspan hnot]
    exact ⟨[], rfl, List.Perm.nil⟩
  · -- a window that is widened
    have hspan : hi ≤ lo + 4 := by omega
    have hsteps : hi - lo + ((4 - (hi - lo)).toNat : Int) = 4 := by omega
    by_cases hfour : hi ≤ 4
    · have hsub : vs ⊆ wheel := by
        intro v hv
        have := hbounds.between v hv
        exact mem_wheel.2 (by omega)
      rw [@widen_low { maxC := hi, minC := lo, c } _ hsteps hfour hlo,
        hbounds.best_wheel (by omega) hsub]
      exact shunziRow_low hnodup hbounds hlo hfour henough
    · have hbest : 9 ≤ lo ∨ ¬vs ⊆ wheel := by
        by_contra! hboth
        obtain ⟨hlo9, hsub⟩ := hboth
        have hhi13 := hwheel.1 hsub hi hbounds.hi_mem
        have hlo13 := hwheel.1 hsub lo hbounds.lo_mem
        omega
      rw [@widen_high { maxC := hi, minC := lo, c } _ hsteps (by dsimp only; omega) hhi,
        hbounds.best_falling hlo hhi hspan hbest]
      exact ⟨_, shunziRow_high hnodup hbounds hlo hhi hspan henough, List.reverse_perm _⟩

/-- The straight that is returned, and the values that jokers stand for. -/
theorem getHappydoggyShunzi_completion {cards : List Card} (hne : cards ≠ [])
    (hnodup : (values cards).Nodup)
    (hrange : ∀ v ∈ values cards, 1 ≤ v ∧ v ≤ 13) (c : Nat) :
    ∃ b, getHappydoggyShunzi cards c = .ok ((completion (values cards) c).getD [], b) ∧
      b.Perm (missing (values cards) ((completion (values cards) c).getD [])) := by
  have hlength : (values cards).length = cards.length := List.length_map _
  by_cases hfew : (values cards).length + c < 5
  · rw [completion_of_few hnodup hfew]
    refine ⟨[], ?_, List.Perm.nil⟩
    unfold getHappydoggyShunzi
    rw [if_pos (by omega)]
    rfl
  · have henough : 5 ≤ (values cards).length + c := Nat.le_of_not_lt hfew
    obtain ⟨lo, hi, hbounds, hhead, hlast⟩ := exists_bounds (mt List.map_eq_nil_iff.1 hne)
    rw [completion_of_enough hnodup henough, getHappydoggyShunzi_eq hhead hlast (by omega)]
    exact shunziRow_window hnodup hbounds hhead (hrange lo hbounds.lo_mem).1
      (hrange hi hbounds.hi_mem).2 henough

/-- **`getHappydoggyShunzi` finds the best straight.** Of the straights from the best down it
returns the first that contains all the values and that the jokers complete, if there is one, and
marks the values that jokers stand for. -/
theorem getHappydoggyShunzi_best {cards : List Card} (hne : cards ≠ [])
    (hnodup : (values cards).Nodup)
    (hrange : ∀ v ∈ values cards, 1 ≤ v ∧ v ≤ 13) (c : Nat) :
    ∃ a b, getHappydoggyShunzi cards c = .ok (a, b) ∧ a = (completion (values cards) c).getD [] ∧
      (∀ v, v ∈ b ↔ v ∈ a ∧ v ∉ values cards) ∧ b.Nodup ∧ b.length ≤ c := by
  obtain ⟨b, hshunzi, hperm⟩ := getHappydoggyShunzi_completion hne hnodup hrange c
  have hfive : ((completion (values cards) c).getD []).Nodup ∧
      (missing (values cards) ((completion (values cards) c).getD [])).length ≤ c := by
    cases hfound : completion (values cards) c with
    | none => exact ⟨List.nodup_nil, Nat.zero_le c⟩
    | some s =>
        have hstraights : ∀ s ∈ straights, s.Nodup := by decide
        have hcompletes : Completes (values cards) c s := by simpa using List.find?_some (id hfound)
        exact ⟨hstraights s (List.mem_of_find?_eq_some hfound), hcompletes.2⟩
  refine ⟨_, b, hshunzi, rfl, fun v => ?_, ?_, ?_⟩
  · rw [hperm.mem_iff, missing, List.mem_filter, decide_eq_true_eq]
  · exact hperm.nodup_iff.2 (hfive.1.filter _)
  · rw [hperm.length_eq]
    exact hfive.2

theorem getHappydoggyShunzi_best_three :
    getHappydoggyShunzi [⟨1, 2, none, none⟩, ⟨2, 4, none, none⟩, ⟨1, 3, none, none⟩] 2 =
        .ok ([13, 4, 3, 2, 1], [13, 1]) ∧
      ∃ a b, getHappydoggyShunzi [⟨1, 2, none, none⟩, ⟨2, 4, none, none⟩, ⟨1, 3, none, none⟩]
      (2 : Nat) =
          .ok (a, b) ∧
        a = (completion (values [⟨1, 2, none, none⟩, ⟨2, 4, none, none⟩, ⟨1, 3, none, none⟩])
          2).getD [] ∧
          (∀ v, v ∈ b ↔ v ∈ a ∧
            v ∉ values [⟨1, 2, none, none⟩, ⟨2, 4, none, none⟩, ⟨1, 3, none, none⟩]) ∧
            b.Nodup ∧ b.length ≤ 2 :=
  ⟨by decide, getHappydoggyShunzi_best (by decide) (by decide) (by decide) 2⟩

end Main

end SdyServer.Daboluo
