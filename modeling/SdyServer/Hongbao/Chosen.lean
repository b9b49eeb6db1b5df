import Mathlib.Tactic.IntervalCases
import SdyServer.Hongbao.Cheat

/-!
# The chosen values

Which values can be chosen, in cents: for a point, for a class of size and parity and for the
banker. All of them are positive. The most that a bettor on size and parity can be given is 4.32,
unless he betted on the special points: then it is 3.07. The banker can be given 4.32 as well.
-/

namespace SdyServer.Hongbao.Cheat

open Rounding

section Cow

/-- Three digits around a point are an amount. -/
theorem numText_eq_format2 {ge dot1 dot2 : ℤ} (hge : 0 ≤ ge) (hdot1 : 0 ≤ dot1) (hdot1' : dot1 ≤ 9)
    (hdot2 : 0 ≤ dot2) (hdot2' : dot2 ≤ 9) :
    numText ge ++ '.' :: (numText dot1 ++ numText dot2) = format2
    (100 * ge + 10 * dot1 + dot2) := by
  obtain ⟨ge, rfl⟩ := Int.eq_ofNat_of_zero_le hge
  obtain ⟨dot1, rfl⟩ := Int.eq_ofNat_of_zero_le hdot1
  obtain ⟨dot2, rfl⟩ := Int.eq_ofNat_of_zero_le hdot2
  have hcents : (100 * (ge : ℤ) + 10 * dot1 + dot2).natAbs = 100 * ge + 10 * dot1 + dot2 := by omega
  have hwhole : (100 * ge + 10 * dot1 + dot2) / 100 = ge := by omega
  have htenth : (100 * ge + 10 * dot1 + dot2) / 10 % 10 = dot1 := by omega
  have hlast : (100 * ge + 10 * dot1 + dot2) % 10 = dot2 := by omega
  unfold numText format2
  rw [if_neg (by omega), if_neg (by omega), if_neg (by omega), if_neg (by omega), hcents, hwhole,
    htenth, hlast]
  simp only [Int.natAbs_natCast, List.nil_append]
  rw [Nat.toDigits_of_lt_base (by omega : dot1 < 10),
    Nat.toDigits_of_lt_base (by omega : dot2 < 10)]
  rfl

/-- The last digit is a digit, and it is not zero where the others are. -/
theorem getDot2_spec {point ge dot1 : ℤ} (hpoint : 1 ≤ point) (hpoint' : point ≤ 10) (hge : 0 ≤ ge)
    (hge' : ge ≤ 3) (hdot1 : 0 ≤ dot1) (hdot1' : dot1 ≤ 9)
    (hzero : ¬(point = 10 ∧ ge = 0 ∧ dot1 = 0)) :
    0 ≤ getDot2 point ge dot1 ∧ getDot2 point ge dot1 ≤ 9 ∧
      1 ≤ 100 * ge + 10 * dot1 + getDot2 point ge dot1 := by
  unfold getDot2
  split_ifs with hless
  · refine ⟨abs_nonneg _, abs_le.mpr ⟨by omega, by omega⟩, ?_⟩
    have := abs_nonneg (ge + dot1 - 10 - point)
    omega
  · omega

/-- The cents of a normal cow: the first digit goes up to `most`, but up to three where a ten has
drawn nothing but zeros. -/
def Cow (point most cents : ℤ) : Prop :=
  ∃ ge dot1, 0 ≤ ge ∧ 0 ≤ dot1 ∧ dot1 ≤ 9 ∧ (ge ≤ most ∨ point = 10 ∧ dot1 = 0 ∧ ge ≤ 3) ∧
    ¬(point = 10 ∧ ge = 0 ∧ dot1 = 0) ∧ cents = 100 * ge + 10 * dot1 + getDot2 point ge dot1

theorem Cow.bounds {point most cents : ℤ} (hcow : Cow point most cents) (hpoint : 1 ≤ point)
    (hpoint' : point ≤ 10) (hmost : most ≤ 3) {hi : ℤ} (hhi : 100 * most + 99 ≤ hi)
    (hhi' : 307 ≤ hi) :
    1 ≤ cents ∧ cents ≤ hi := by
  obtain ⟨ge, dot1, hge, hdot1, hdot1', hup, hzero, rfl⟩ := hcow
  have hge' : ge ≤ 3 := by omega
  obtain ⟨-, hdot2, hpos⟩ := getDot2_spec hpoint hpoint' hge hge' hdot1 hdot1' hzero
  refine ⟨hpos, ?_⟩
  rcases hup with hup | ⟨hten, hnone, -⟩
  · omega
  · have hlast : getDot2 point ge dot1 = 10 - ge := by
      unfold getDot2
      rw [if_neg (by omega)]
      omega
    omega

/-- The largest cow: a ten whose first draw has nothing but zeros. -/
theorem cow_largest (most : ℤ) : Cow 10 most 307 :=
  ⟨3, 0, by norm_num, le_rfl, by norm_num, .inr ⟨rfl, rfl, le_rfl⟩, by norm_num, by decide⟩

theorem getNormalCow_spec {point : ℤ} (hpoint : 1 ≤ point) (hpoint' : point ≤ 10) {ge : Option ℤ}
    (hge : 1 ≤ ge.getD 3) (hge' : ge.getD 3 ≤ 3) :
    Roll.Always (getNormalCow point ge) fun value => ∃ cents, Cow point (ge.getD 3) cents ∧
      value = format2 cents := by
  have hcow : ∀ g d : ℤ, 0 ≤ g → g ≤ 3 → 0 ≤ d → d ≤ 9 → ¬(point = 10 ∧ g = 0 ∧ d = 0) →
      (g ≤ ge.getD 3 ∨ point = 10 ∧ d = 0 ∧ g ≤ 3) → ∃ cents, Cow point (ge.getD 3) cents ∧
        numText g ++ '.' :: (numText d ++ numText (getDot2 point g d)) = format2 cents := by
    intro g d hg hg' hd hd' hzero hup
    obtain ⟨hlow, hhigh, -⟩ := getDot2_spec hpoint hpoint' hg hg' hd hd' hzero
    exact ⟨_, ⟨g, d, hg, hd, hd', hup, hzero, rfl⟩, numText_eq_format2 hg hd hd' hlow hhigh⟩
  refine (Roll.Always.random (by norm_num)).bind fun random _ => ?_
  have hstart : (if random < 15 then (0 : ℤ) else 1) ≤ ge.getD 3 := by split_ifs <;> omega
  refine (Roll.Always.random hstart).bind fun g ⟨hg, hg'⟩ => ?_
  have hg0 : 0 ≤ g := by split_ifs at hg <;> omega
  refine (Roll.Always.random (by norm_num)).bind fun dot1 ⟨hdot1, hdot1'⟩ => ?_
  split_ifs with hzero
  · refine (Roll.Always.random (by norm_num)).bind fun ran _ => ?_
    split_ifs
    · exact (Roll.Always.random (by norm_num)).bind fun g' ⟨hlow, hhigh⟩ =>
        .pure (hcow g' dot1 (by omega) hhigh hdot1 hdot1'
          (by omega) (.inr ⟨hzero.1, hzero.2.2, hhigh⟩))
    · exact (Roll.Always.random (by norm_num)).bind fun d ⟨hlow, hhigh⟩ =>
        .pure (hcow g d hg0 (by omega) (by omega) (by omega) (by omega) (.inl hg'))
  · exact .pure (hcow g dot1 hg0 (by omega) hdot1 hdot1' hzero (.inl hg'))

theorem can_getNormalCow {point cents : ℤ} (hpoint : 1 ≤ point) (hpoint' : point ≤ 10)
    {ge : Option ℤ}
    (hge : 0 ≤ ge.getD 3) (hge' : ge.getD 3 ≤ 3) (hcow : Cow point (ge.getD 3) cents) :
    Roll.Can (getNormalCow point ge) (format2 cents) := by
  obtain ⟨g, d, hg, hd, hd', hup, hzero, rfl⟩ := hcow
  obtain ⟨hlow, hhigh, -⟩ := getDot2_spec hpoint hpoint' hg (by omega) hd hd' hzero
  rw [← numText_eq_format2 hg hd hd' hlow hhigh]
  refine (Roll.Can.random (v := 1) (by norm_num) (by norm_num)).bind ?_
  by_cases hle : g ≤ ge.getD 3
  · refine (Roll.Can.random (v := g) (by rw [if_pos (by norm_num)]; exact hg) hle).bind ?_
    refine (Roll.Can.random hd hd').bind ?_
    rw [if_neg hzero]
    exact .pure _
  · -- the first draw has nothing but zeros, and the second one changes the first digit
    obtain ⟨rfl, rfl, hg'⟩ := hup.resolve_left hle
    refine (Roll.Can.random (v := 0) (by norm_num) hge).bind ?_
    refine (Roll.Can.random (v := 0) le_rfl (by norm_num)).bind ?_
    rw [if_pos ⟨rfl, rfl, rfl⟩]
    refine (Roll.Can.random (v := 1) (by norm_num) le_rfl).bind ?_
    rw [if_pos rfl]
    exact (Roll.Can.random (by omega) hg').bind (.pure _)

end Cow

section Special

theorem atInt_map {α β : Type} (f : α → β) (l : List α) (i : ℤ) :
    atInt (l.map f) i = (atInt l i).map f := by
  unfold atInt Lua.nth
  split_ifs <;> simp

/-- The special values that are drawn for a point: of most kinds the cheap ones alone. -/
def specialValues : ℕ → List ℤ
  | 11 => [10, 20, 30, 40, 50, 60, 70, 80, 90]
  | 12 => [11, 22, 33, 44, 55, 66, 77, 88, 99]
  | 13 => [123, 234, 345]
  | 14 => [432, 321]
  | 15 => [100, 200, 300]
  | 16 => [111, 222, 333]
  | _ => []

theorem specialValues_spec {point : ℕ} {cents : ℤ} (hcents : cents ∈ specialValues point) :
    (11 ≤ point ∧ point ≤ 16) ∧ 1 ≤ cents ∧ cents ≤ 432 := by
  have hall : ∀ point < 17, ∀ cents ∈ specialValues point, 11 ≤ point ∧ 1 ≤ cents ∧
      cents ≤ 432 := by
    decide
  by_cases hpoint : point < 17
  · obtain ⟨hlow, hbounds⟩ := hall point hpoint cents hcents
    exact ⟨⟨hlow, by omega⟩, hbounds⟩
  · obtain ⟨n, rfl⟩ : ∃ n, point = n + 17 := ⟨point - 17, by omega⟩
    exact absurd hcents List.not_mem_nil

/-- The values at some places of a table, which are those that can be drawn. -/
structure Draws (draw : Roll (Option Value)) (chosen : List ℤ) : Prop where
  always : Roll.Always draw fun value? => ∃ c ∈ chosen, value? = some (format2 c)
  can : ∀ c ∈ chosen, Roll.Can draw (some (format2 c))

theorem draws_drawFrom {cfg : List String} {values chosen : List ℤ} {lo hi : ℤ} {n : ℕ}
    (hcfg : cfg.map String.toList = values.map format2) (hn : 1 ≤ n) (hhi : hi = lo + n - 1)
    (hchosen : (List.range n).map (fun k => atInt values (lo + (k : ℕ))) = chosen.map some) :
    Draws (drawFrom cfg lo hi) chosen := by
  have htext : ∀ i c, atInt values i = some c →
      (atInt cfg i).map String.toList = some (format2 c) := by
    intro i c hat
    rw [← atInt_map, hcfg, atInt_map, hat]
    rfl
  constructor
  · refine (Roll.Always.random (by omega)).bind fun i ⟨hlow, hhigh⟩ => .pure ?_
    have hmem : atInt values i ∈ chosen.map some := by
      rw [← hchosen, List.mem_map]
      refine ⟨(i - lo).toNat, List.mem_range.mpr (by omega), ?_⟩
      rw [Int.toNat_of_nonneg (by omega), add_sub_cancel]
    obtain ⟨c, hc, hat⟩ := List.mem_map.mp hmem
    exact ⟨c, hc, htext i c hat.symm⟩
  · intro c hc
    have hmem : some c ∈ (List.range n).map (fun k => atInt values (lo + (k : ℕ))) := by
      rw [hchosen]
      exact List.mem_map_of_mem hc
    obtain ⟨k, hk, hat⟩ := List.mem_map.mp hmem
    rw [List.mem_range] at hk
    refine (Roll.Can.random (v := lo + k) (by omega) (by omega)).bind ?_
    rw [htext _ c hat]
    exact .pure _

theorem draws_getSpcialPoint {point : ℕ} (hpoint : 11 ≤ point) (hpoint' : point ≤ 16) :
    Draws (getSpcialPoint point) (specialValues point) := by
  interval_cases point
  · exact @draws_drawFrom _ [10, 20, 30, 40, 50, 60, 70, 80, 90] _ _ _ 9 (by decide +kernel)
      (by decide) rfl (by decide)
  · exact @draws_drawFrom _ [11, 22, 33, 44, 55, 66, 77, 88, 99] _ _ _ 9 (by decide +kernel)
      (by decide) rfl (by decide)
  · exact @draws_drawFrom _ [123, 234, 345, 456, 567, 678, 789] _ _ _ 3 (by decide +kernel)
      (by decide) rfl (by decide)
  · exact @draws_drawFrom _ [987, 876, 765, 654, 543, 432, 321] _ _ _ 2 (by decide +kernel)
      (by decide) rfl (by decide)
  · exact @draws_drawFrom _ [100, 200, 300, 400, 500, 600, 700, 800, 900] _ _ _ 3
      (by decide +kernel) (by decide) rfl (by decide)
  · exact @draws_drawFrom _ [111, 222, 333, 444, 555, 666, 777, 888, 999] _ _ _ 3
      (by decide +kernel) (by decide) rfl (by decide)

end Special

section Banker

theorem need_tonumber (c : ℤ) : Lua.need .arithmeticOnNil (tonumber (format2 c)) = .ok
    ((c : ℚ) / 100) := by
  rw [tonumber_format2]
  exact Lua.need_some ..

/-- The cents of a value that the banker can be given. -/
def BankerValue (most cents : ℤ) : Prop :=
  ∃ point : ℕ, 7 ≤ point ∧ point ≤ 16 ∧
    if 10 < point then cents ∈ specialValues point else Cow point most cents

theorem BankerValue.bounds {most cents : ℤ} (hvalue : BankerValue most cents) (hmost : most ≤ 3) :
    1 ≤ cents ∧ cents ≤ 432 := by
  obtain ⟨point, hlow, hhigh, hvalue⟩ := hvalue
  split_ifs at hvalue with hspecial
  · exact (specialValues_spec hvalue).2
  · exact hvalue.bounds (by omega) (by omega) hmost (by omega) (by norm_num)

theorem BankerValue.ne_zero {most cents : ℤ} (hvalue : BankerValue most cents) (hmost : most ≤ 3) :
    cents ≠ 0 := by
  have hlow := (hvalue.bounds hmost).1
  omega

theorem bankerValue_largest (most : ℤ) : BankerValue most 432 := by
  refine ⟨14, by norm_num, by norm_num, ?_⟩
  rw [if_pos (by norm_num)]
  decide

theorem pointIndexFrom_banker : ∀ rate < 101, 1 ≤ rate →
    1 ≤ pointIndexFrom (runningSums [14, 14, 12, 12, 10, 10, 8, 8, 6, 6]) (rate : ℕ)
        ((runningSums [14, 14, 12, 12, 10, 10, 8, 8, 6, 6]).zipIdx 1) 0 ∧
      pointIndexFrom (runningSums [14, 14, 12, 12, 10, 10, 8, 8, 6, 6]) (rate : ℕ)
        ((runningSums [14, 14, 12, 12, 10, 10, 8, 8, 6, 6]).zipIdx 1) 0 ≤ 10 := by
  decide +kernel

theorem exists_pointIndexFrom : ∀ index < 11, 1 ≤ index → ∃ rate < 101, 1 ≤ rate ∧
    pointIndexFrom (runningSums [14, 14, 12, 12, 10, 10, 8, 8, 6, 6]) (rate : ℕ)
      ((runningSums [14, 14, 12, 12, 10, 10, 8, 8, 6, 6]).zipIdx 1) 0 = index := by
  decide +kernel

theorem banerEvent_spec {ge : Option ℤ} (hge : 1 ≤ ge.getD 3) (hge' : ge.getD 3 ≤ 3) :
    Roll.Always (banerEvent ge) fun value? =>
      ∃ c, BankerValue (ge.getD 3) c ∧ value? = some (format2 c) := by
  unfold banerEvent
  refine (Roll.Always.random (by norm_num)).bind fun _ _ => ?_
  rw [if_pos (by norm_num)]
  refine Roll.Always.bind (P := fun point => 1 ≤ point ∧ point ≤ 10) ?_
    fun point ⟨hlow, hhigh⟩ => ?_
  · refine (Roll.Always.random (by norm_num)).bind fun rate ⟨hrate, hrate'⟩ => .pure ?_
    obtain ⟨n, rfl⟩ := Int.eq_ofNat_of_zero_le (by omega : 0 ≤ rate)
    exact pointIndexFrom_banker n (by omega) (by omega)
  · have hlength : (runningSums [15, 15, 17, 17, 18, 18]).length = 6 := rfl
    rw [hlength]
    dsimp only
    split_ifs with hspecial
    · refine (draws_getSpcialPoint (by omega) (by omega)).always.mono fun value? ⟨c, hc, hvalue⟩ =>
        ⟨c, ⟨point + 6, by omega, by omega, ?_⟩, hvalue⟩
      rwa [if_pos (by omega)]
    · refine (getNormalCow_spec (by omega) (by omega) hge hge').bind fun value ⟨c, hc, hvalue⟩ =>
        .pure ⟨c, ⟨point + 6, by omega, by omega, ?_⟩, congrArg some hvalue⟩
      rwa [if_neg (by omega)]

theorem can_banerEvent {ge : Option ℤ} (hge : 0 ≤ ge.getD 3) (hge' : ge.getD 3 ≤ 3) {c : ℤ}
    (hc : BankerValue (ge.getD 3) c) : Roll.Can (banerEvent ge) (some (format2 c)) := by
  obtain ⟨point, hlow, hhigh, hvalue⟩ := hc
  obtain ⟨index, rfl⟩ : ∃ index, point = index + 6 := ⟨point - 6, by omega⟩
  obtain ⟨rate, hrate, hrate', hindex⟩ := exists_pointIndexFrom index (by omega) (by omega)
  unfold banerEvent
  refine (Roll.Can.random (v := 1) (by norm_num) (by norm_num)).bind ?_
  rw [if_pos (by norm_num)]
  refine Roll.Can.bind (a := index) ?_ ?_
  · refine (Roll.Can.random (v := rate) (by omega) (by omega)).bind ?_
    rw [hindex]
    exact .pure _
  · have hlength : (runningSums [15, 15, 17, 17, 18, 18]).length = 6 := rfl
    rw [hlength]
    dsimp only
    split_ifs at hvalue ⊢ with hspecial
    · exact (draws_getSpcialPoint (by omega) (by omega)).can c hvalue
    · exact (can_getNormalCow (by omega) (by omega) hge hge' hvalue).bind (.pure _)

theorem pickBanker_spec {ge : Option ℤ} (hge : 1 ≤ ge.getD 3) (hge' : ge.getD 3 ≤ 3) :
    Roll.Always (pickBanker ge) fun banker => ∃ c, BankerValue (ge.getD 3) c ∧
      banker = (format2 c, double (c / 100)) := by
  unfold pickBanker
  refine (banerEvent_spec hge hge').bind fun value? ⟨c, hc, hvalue⟩ => ?_
  subst hvalue
  refine (Roll.Always.lift (P := (· = format2 c)) (Lua.need_some ..) rfl).bind
    fun value hvalue => ?_
  subst hvalue
  refine (Roll.Always.lift (P := (· = (c : ℚ) / 100)) (need_tonumber c) rfl).bind
    fun coin hcoin => .pure ?_
  exact ⟨c, hc, by rw [hcoin]⟩

theorem can_pickBanker {ge : Option ℤ} (hge : 0 ≤ ge.getD 3) (hge' : ge.getD 3 ≤ 3) {c : ℤ}
    (hc : BankerValue (ge.getD 3) c) :
    Roll.Can (pickBanker ge) (format2 c, double ((c : ℚ) / 100)) := by
  unfold pickBanker
  refine (can_banerEvent hge hge' hc).bind ((Roll.Can.lift (Lua.need_some ..)).bind ?_)
  exact Roll.Can.bind (Roll.Can.lift (need_tonumber c)) (.pure _)

end Banker

section Bettors

/-- A random element of a list. -/
theorem atInt_of_mem {l : List ℕ} {i : ℤ} (hlo : 1 ≤ i) (hhi : i ≤ l.length) :
    (atInt l i).getD 0 ∈ l := by
  obtain ⟨n, rfl⟩ := Int.eq_ofNat_of_zero_le (by omega : 0 ≤ i)
  have hn : n - 1 < l.length := by omega
  have hget : atInt l n = some l[n - 1] := by
    unfold atInt Lua.nth
    rw [if_neg (by omega), Int.toNat_natCast, if_neg (by omega), List.getElem?_eq_getElem hn]
  rw [hget]
  exact List.getElem_mem hn

theorem exists_atInt {l : List ℕ} {t : ℕ} (ht : t ∈ l) :
    ∃ i : ℤ, 1 ≤ i ∧ i ≤ l.length ∧ (atInt l i).getD 0 = t := by
  obtain ⟨n, hn, rfl⟩ := List.mem_iff_getElem.mp ht
  refine ⟨n + 1, by omega, by omega, ?_⟩
  unfold atInt Lua.nth
  rw [if_neg (by omega), if_neg (by omega)]
  have hindex : ((n : ℤ) + 1).toNat - 1 = n := by omega
  rw [hindex, List.getElem?_eq_getElem hn]
  rfl

/-- The classes that a bet on the class `s` leaves. -/
def openTags (s : ℤ) : List ℕ :=
  (List.range' 1 9).filter fun tag =>
    ((dxdsCfg tag).getD []).all fun point => !((dxdsCfg s).getD []).contains point

theorem ignoreDxdsTags_single {bet : Bet} {s : ℤ} (hsub : bet.subType = some s) (hs : 1 ≤ s)
    (hs' : s ≤ 9) : ignoreDxdsTags [bet] = .ok (openTags s) := by
  have hcfg : ∃ points, dxdsCfg s = some points := by
    interval_cases s <;> exact ⟨_, rfl⟩
  obtain ⟨points, hpoints⟩ := hcfg
  unfold ignoreDxdsTags openTags
  rw [List.mapM_cons, List.mapM_nil, hsub, Option.bind_some, hpoints, Lua.need_some]
  simp

theorem openTags_spec {s : ℤ} (hs : 1 ≤ s) (hs' : s ≤ 9) :
    (∀ tag ∈ openTags s, 1 ≤ tag ∧ tag ≤ if s = 9 then 8 else 9) ∧
      (if s = 9 then 2 else 9) ∈ openTags s := by
  interval_cases s <;> decide +kernel

/-- A bettor on size and parity has one bet, on one of the nine classes. -/
def DxdsBet (bets : List Bet) (s : ℤ) : Prop :=
  ∃ bet : Bet, bets = [bet] ∧ bet.type = 3 ∧ bet.subType = some s ∧ 1 ≤ s ∧ s ≤ 9

theorem getIgnoreDxdsTag_spec {bets : List Bet} {s : ℤ} (hbets : DxdsBet bets s) :
    Roll.Always (getIgnoreDxdsTag bets) (· ∈ openTags s) := by
  obtain ⟨bet, rfl, -, hsub, hs, hs'⟩ := hbets
  obtain ⟨-, hmem⟩ := openTags_spec hs hs'
  have hne : openTags s ≠ [] := List.ne_nil_of_mem hmem
  unfold getIgnoreDxdsTag
  refine (Roll.Always.lift (P := (· = openTags s)) (ignoreDxdsTags_single hsub hs hs') rfl).bind ?_
  rintro tags rfl
  rw [if_neg hne]
  have hlength : 1 ≤ (openTags s).length := List.length_pos_of_ne_nil hne
  exact (Roll.Always.random (by omega)).bind fun i ⟨hlo, hhi⟩ => .pure (atInt_of_mem hlo hhi)

theorem can_getIgnoreDxdsTag {bets : List Bet} {s : ℤ} (hbets : DxdsBet bets s) {tag : ℕ}
    (htag : tag ∈ openTags s) : Roll.Can (getIgnoreDxdsTag bets) tag := by
  obtain ⟨bet, rfl, -, hsub, hs, hs'⟩ := hbets
  obtain ⟨i, hlo, hhi, hget⟩ := exists_atInt htag
  unfold getIgnoreDxdsTag
  refine (Roll.Can.lift (ignoreDxdsTags_single hsub hs hs')).bind ?_
  rw [if_neg (List.ne_nil_of_mem htag)]
  refine (Roll.Can.random hlo hhi).bind ?_
  rw [hget]
  exact .pure _

/-- The cents of a value of one of the points of a class. -/
def TagValue (tag : ℕ) (most cents : ℤ) : Prop :=
  ∃ point ∈ (dxdsCfg tag).getD [],
    if tag = 9 then cents ∈ specialValues point else Cow point most cents

/-- The points of a class: the ordinary ones, and the special ones for the last class. -/
theorem dxdsCfg_spec {tag : ℕ} (htag : 1 ≤ tag) (htag' : tag ≤ 9) :
    ∃ points, dxdsCfg tag = some points ∧ points ≠ [] ∧
      ∀ point ∈ points, if tag = 9 then 11 ≤ point ∧ point ≤ 16 else 1 ≤ point ∧ point ≤ 10 := by
  interval_cases tag <;> exact ⟨_, rfl, by decide, by decide⟩

theorem getDxdsValue_spec {tag : ℕ} (htag : 1 ≤ tag) (htag' : tag ≤ 9) {ge : Option ℤ}
    (hge : 1 ≤ ge.getD 1) (hge' : ge.getD 1 ≤ 3) :
    Roll.Always (getDxdsValue tag ge) fun value? =>
      ∃ c, TagValue tag (ge.getD 1) c ∧ value? = some (format2 c) := by
  obtain ⟨points, hcfg, hne, hall⟩ := dxdsCfg_spec htag htag'
  have hlength : 1 ≤ points.length := List.length_pos_of_ne_nil hne
  unfold getDxdsValue TagValue
  rw [hcfg, Option.getD_some]
  refine (Roll.Always.random (by omega)).bind fun i ⟨hlo, hhi⟩ => ?_
  have hmem := atInt_of_mem hlo hhi
  have hpoint := hall _ hmem
  dsimp only
  split_ifs at hpoint ⊢ with hnine
  · exact (draws_getSpcialPoint hpoint.1 hpoint.2).always.mono fun value? ⟨c, hc, hvalue⟩ =>
      ⟨c, ⟨_, hmem, hc⟩, hvalue⟩
  · exact (getNormalCow_spec (by omega) (by omega) hge hge').bind fun value ⟨c, hc, hvalue⟩ =>
      .pure ⟨c, ⟨_, hmem, hc⟩, congrArg some hvalue⟩

theorem can_getDxdsValue {tag : ℕ} (htag : 1 ≤ tag) (htag' : tag ≤ 9) {ge : Option ℤ}
    (hge : 0 ≤ ge.getD 1) (hge' : ge.getD 1 ≤ 3) {c : ℤ} (hc : TagValue tag (ge.getD 1) c) :
    Roll.Can (getDxdsValue tag ge) (some (format2 c)) := by
  obtain ⟨points, hcfg, -, hall⟩ := dxdsCfg_spec htag htag'
  obtain ⟨point, hmem, hvalue⟩ := hc
  rw [hcfg, Option.getD_some] at hmem
  obtain ⟨i, hlo, hhi, hget⟩ := exists_atInt hmem
  have hpoint := hall point hmem
  unfold getDxdsValue
  rw [hcfg]
  refine (Roll.Can.random hlo hhi).bind ?_
  dsimp only
  rw [hget]
  split_ifs at hpoint hvalue ⊢ with hnine
  · exact (draws_getSpcialPoint hpoint.1 hpoint.2).can c hvalue
  · have hcow := @can_getNormalCow _ _ (by omega) (by omega) (some (ge.getD 1)) hge hge' hvalue
    exact hcow.bind (.pure _)

/-- The cents of a value that a bettor on the class `s` can be given. -/
def DxdsValue (s most cents : ℤ) : Prop := ∃ tag ∈ openTags s, TagValue tag most cents

/-- The most that a bettor on the class `s` can be given. -/
def mostFor (s : ℤ) : ℤ := if s = 9 then 307 else 432

theorem DxdsValue.bounds {s most cents : ℤ} (hs : 1 ≤ s) (hs' : s ≤ 9)
    (hvalue : DxdsValue s most cents) (hmost : most ≤ 2) : 1 ≤ cents ∧ cents ≤ mostFor s := by
  obtain ⟨tag, htag, point, hpoint, hvalue⟩ := hvalue
  obtain ⟨hlow, hhigh⟩ := (openTags_spec hs hs').1 tag htag
  obtain ⟨points, hcfg, -, hall⟩ := dxdsCfg_spec hlow (by split_ifs at hhigh <;> omega)
  rw [hcfg, Option.getD_some] at hpoint
  have hkind := hall point hpoint
  have hleast : 307 ≤ mostFor s := by unfold mostFor; split_ifs <;> norm_num
  split_ifs at hvalue hkind with hnine
  · have hs9 : s ≠ 9 := by
      intro hs9
      rw [if_pos hs9] at hhigh
      omega
    rw [mostFor, if_neg hs9]
    exact (specialValues_spec hvalue).2
  · exact hvalue.bounds (by omega) (by omega) (by omega) (by omega) hleast

theorem dxdsValue_largest {s : ℤ} (hs : 1 ≤ s) (hs' : s ≤ 9) (most : ℤ) :
    DxdsValue s most (mostFor s) := by
  refine ⟨_, (openTags_spec hs hs').2, ?_⟩
  by_cases hs9 : s = 9
  · rw [mostFor, if_pos hs9, if_pos hs9]
    exact ⟨10, by decide, cow_largest most⟩
  · rw [mostFor, if_neg hs9, if_neg hs9]
    exact ⟨14, by decide, by rw [if_pos rfl]; decide⟩

end Bettors

end SdyServer.Hongbao.Cheat
