import SdyServer.Hongbao.Split

/-!
# When an amount can be split

What is left of the money after some values have been chosen is a whole number of cents, but for a
rounding. A little more than that cannot be split for certain: less than a cent is left over in the
end, and as it is not zero nothing is taken back. Whole cents can be split when they average more
than a yuan a packet. A little less than whole cents can be split when there is a cent for every
packet: then no draw takes all that is left.
-/

namespace SdyServer.Hongbao

open Rounding

section Draws

theorem can_drawMoney {round : ℚ → ℚ} (remainMoney : ℚ) (remainSize : ℕ) {up down : ℤ}
    (hup1 : 100 ≤ up) (hup2 : up ≤ 200) (hdown1 : 50 ≤ down) (hdown2 : down ≤ 100) {floor : ℤ}
    (hfloor : ⌊round (round (down / 100) *
      round (round (round (remainMoney / remainSize) * up) / 100))⌋ = floor) :
    Roll.Can (drawMoney round remainMoney remainSize) (if floor ≤ 1 then 1 else floor) := by
  subst hfloor
  exact (Roll.Can.random hup1 hup2).bind ((Roll.Can.random hdown1 hdown2).bind (.pure _))

theorem double_double (x : ℚ) : double (double x) = double x :=
  double_of_hasDigits (hasDigits_toDigits one_lt_two (by norm_num) x)

theorem double_zero : double 0 = 0 := double_eq_zero_iff.2 rfl

theorem double_nonpos {x : ℚ} (hx : x ≤ 0) : double x ≤ 0 :=
  (double_mono hx).trans_eq double_zero

/-- The share of the average that is drawn, as it is computed. -/
def share (remainMoney : ℚ) (remainSize : ℕ) (up : ℚ) : ℚ :=
  double (double (double (remainMoney / remainSize) * up) / 100)

theorem share_mono {remainMoney remainMoney' up up' : ℚ} {remainSize : ℕ}
    (hremain : remainMoney ≤ remainMoney') (hnonneg : 0 ≤ remainMoney') (hup : 0 ≤ up)
    (hle : up ≤ up') : share remainMoney remainSize up ≤ share remainMoney' remainSize up' := by
  have haverage : double (remainMoney / remainSize) ≤ double (remainMoney' / remainSize) :=
    double_mono (by gcongr)
  have haverage' : 0 ≤ double (remainMoney' / remainSize) := double_nonneg (by positivity)
  refine double_mono ?_
  have hmany : double (double (remainMoney / remainSize) * up) ≤
      double (double (remainMoney' / remainSize) * up') := double_mono (by gcongr)
  gcongr

/-- With nothing taken off, a draw is a share of the average. -/
theorem can_drawMoney_share (remainMoney : ℚ) (remainSize : ℕ) {up : ℤ} (hup1 : 100 ≤ up)
    (hup2 : up ≤ 200) {floor : ℤ} (hfloor : ⌊share remainMoney remainSize up⌋ = floor) :
    Roll.Can (drawMoney double remainMoney remainSize) (if floor ≤ 1 then 1 else floor) := by
  apply can_drawMoney _ _ hup1 hup2 (by norm_num : (50 : ℤ) ≤ 100) le_rfl
  have hone : double ((100 : ℤ) / 100) = 1 := by
    have h := double_intCast (n := 1) (by norm_num)
    norm_num at h ⊢
    exact h
  rw [hone, one_mul, double_double]
  exact hfloor

/-- A draw is a cent or at most a share of twice the average. -/
theorem drawMoney_le {remainMoney : ℚ} (hremain : 0 ≤ remainMoney) (remainSize : ℕ) :
    Roll.Always (drawMoney double remainMoney remainSize) fun money =>
      1 ≤ money ∧ (money = 1 ∨ money ≤ ⌊share remainMoney remainSize 200⌋) := by
  refine (Roll.Always.random (by norm_num)).bind fun up ⟨hup1, hup2⟩ =>
    (Roll.Always.random (by norm_num)).bind fun down ⟨hdown1, hdown2⟩ => .pure ?_
  have hup1' : (0 : ℚ) ≤ up := by exact_mod_cast (by omega : (0 : ℤ) ≤ up)
  have hup2' : (up : ℚ) ≤ 200 := by exact_mod_cast hup2
  have hdown2' : (down : ℚ) ≤ 100 := by exact_mod_cast hdown2
  have hshare : share remainMoney remainSize up ≤ share remainMoney remainSize 200 :=
    share_mono le_rfl hremain hup1' hup2'
  have hnonneg : 0 ≤ share remainMoney remainSize up :=
    double_nonneg (div_nonneg (double_nonneg (mul_nonneg (double_nonneg (by positivity)) hup1'))
      (by norm_num))
  have hpart : double (down / 100) ≤ ((1 : ℤ) : ℚ) := by
    apply double_le_intCast (by norm_num)
    rwa [Int.cast_one, div_le_one (by norm_num)]
  rw [Int.cast_one] at hpart
  have hle : double (double (down / 100) * share remainMoney remainSize up) ≤
      share remainMoney remainSize 200 := by
    refine le_trans ?_ hshare
    have hmono := double_mono (mul_le_of_le_one_left hnonneg hpart)
    rwa [share, double_double] at hmono
  have hfloor := Int.floor_le_floor hle
  unfold share at hfloor ⊢
  split_ifs with hsmall
  · exact ⟨le_rfl, .inl rfl⟩
  · exact ⟨by omega, .inr hfloor⟩

/-- Three operations leave a share where it is, but for a rounding. -/
theorem share_near {remainMoney up : ℚ} (hremain : 0 ≤ remainMoney) (hup : 0 ≤ up)
    (remainSize : ℕ) :
    |share remainMoney remainSize up - remainMoney / remainSize * up / 100| ≤
      remainMoney / remainSize * up / 100 / 2 ^ 51 := by
  have hq : 0 ≤ remainMoney / remainSize := by positivity
  unfold share
  generalize remainMoney / (remainSize : ℚ) = q at hq ⊢
  have hfirst := abs_double_sub_le_of_nonneg hq
  have hq' := double_nonneg hq
  have hsecond := abs_double_sub_le_of_nonneg (mul_nonneg hq' hup)
  have hthird := abs_double_sub_le_of_nonneg
    (div_nonneg (double_nonneg (mul_nonneg hq' hup)) (by norm_num : (0 : ℚ) ≤ 100))
  have hscaled : |double q * up - q * up| ≤ q * up / 2 ^ 53 := by
    rw [← sub_mul, abs_mul, abs_of_nonneg hup, mul_div_right_comm]
    exact mul_le_mul_of_nonneg_right hfirst hup
  have hqr : 0 ≤ q * up := mul_nonneg hq hup
  rw [abs_le] at hsecond hthird hscaled ⊢
  constructor <;> linarith

end Draws

section Fails

/-- Some draws leave a packet without a cent. -/
def Fails (remainSize : ℕ) (remainMoney : ℚ) (redPackes : List ℤ) : Prop :=
  ∃ packets, Roll.Can (splitLoop double remainSize remainMoney redPackes) (some packets) ∧
    packets.length = remainSize + redPackes.length ∧ ∃ v ∈ packets, v ≤ 0

/-- A draw, and what it leaves when something has been taken back. -/
theorem Fails.of_refill {remainSize : ℕ} {remainMoney remainMoney' : ℚ}
    {redPackes redPackes' : List ℤ}
    {money : ℤ} (hdraw : Roll.Can (drawMoney double remainMoney (remainSize + 2)) money)
    (hrefill : Roll.Can (refill (double (remainMoney - money)) (redPackes ++ [money]))
      (remainMoney', redPackes')) (hlength : redPackes'.length = redPackes.length + 1)
    (hfails : Fails (remainSize + 1) remainMoney' redPackes') :
    Fails (remainSize + 2) remainMoney redPackes := by
  obtain ⟨packets, hcan, hpackets, hbad⟩ := hfails
  exact ⟨packets, hdraw.bind (hrefill.bind hcan), by omega, hbad⟩

/-- A draw after which something is left, or owed. -/
theorem Fails.of_draw {remainSize : ℕ} {remainMoney : ℚ} {redPackes : List ℤ} {money : ℤ}
    (hdraw : Roll.Can (drawMoney double remainMoney (remainSize + 2)) money)
    (hne : double (remainMoney - money) ≠ 0)
    (hfails : Fails (remainSize + 1) (double (remainMoney - money)) (redPackes ++ [money])) :
    Fails (remainSize + 2) remainMoney redPackes := by
  refine Fails.of_refill hdraw ?_ (by simp) hfails
  rw [refill, if_neg hne]
  exact .pure _

/-- The last packet holds the whole number of cents. -/
theorem toCents_last {remainMoney : ℚ} {cents : ℤ} (hnear : |remainMoney - cents| ≤ 1 / 4)
    (hsmall : |remainMoney| ≤ 2 ^ 50) : toCents (double (remainMoney / 100)) = cents := by
  apply toCents_near
  have hround := abs_double_sub_le (remainMoney / 100)
  rw [abs_div, abs_of_pos (by norm_num : (0 : ℚ) < 100)] at hround
  have hdiff : double (remainMoney / 100) - cents / 100 =
      (double (remainMoney / 100) - remainMoney / 100) + (remainMoney - cents) / 100 := by ring
  have hscaled : |(remainMoney - cents) / 100| ≤ 1 / 400 := by
    rw [abs_div, abs_of_pos (by norm_num : (0 : ℚ) < 100)]
    linarith
  rw [hdiff]
  refine (abs_add_le _ _).trans_lt ?_
  have hlast : |remainMoney| / 100 / 2 ^ 53 ≤ 1 / 800 := by
    rw [div_div, div_le_iff₀ (by norm_num)]
    linarith
  linarith

theorem Fails.last {remainMoney : ℚ} (redPackes : List ℤ)
    (hcents : toCents (double (remainMoney / 100)) ≤ 0) : Fails 1 remainMoney redPackes :=
  ⟨_,
    .pure _, by simp [Nat.add_comm], _, List.mem_append_right _ (List.mem_singleton_self _), hcents⟩

/-- Where the share is no more than a cent a cent can be drawn. -/
theorem can_draw_one {remainMoney : ℚ} {remainSize : ℕ} (hle : remainMoney ≤ remainSize) :
    Roll.Can (drawMoney double remainMoney remainSize) 1 := by
  have haverage : double (remainMoney / remainSize) ≤ ((1 : ℤ) : ℚ) :=
    double_le_intCast (by norm_num) (by
      rw [Int.cast_one]
      exact div_le_one_of_le₀ hle (Nat.cast_nonneg _))
  have hmany : double (double (remainMoney / remainSize) * (100 : ℤ)) ≤ ((100 : ℤ) : ℚ) := by
    apply double_le_intCast (by norm_num)
    push_cast at haverage ⊢
    linarith
  have hshare : share remainMoney remainSize (100 : ℤ) ≤ ((1 : ℤ) : ℚ) := by
    apply double_le_intCast (by norm_num)
    push_cast at hmany ⊢
    linarith
  have hfloor := Int.floor_le_floor hshare
  rw [Int.floor_intCast] at hfloor
  have hdraw := can_drawMoney_share remainMoney remainSize (by norm_num : (100 : ℤ) ≤ 100)
    (by norm_num) rfl
  rwa [if_pos hfloor] at hdraw

/-- Once nothing is left, every packet to come takes a cent, and the last one is not positive. -/
theorem Fails.of_nonpos {remainSize : ℕ} (hsize : 1 ≤ remainSize) {remainMoney : ℚ}
    (hremain : remainMoney ≤ 0) (redPackes : List ℤ) : Fails remainSize remainMoney redPackes := by
  induction remainSize generalizing remainMoney redPackes with
  | zero => omega
  | succ remainSize ih =>
      cases remainSize with
      | zero =>
          have hlast : double (remainMoney / 100) ≤ ((0 : ℤ) : ℚ) / 100 := by
            rw [Int.cast_zero, zero_div]
            exact double_nonpos (by linarith)
          exact .last _ ((toCents_mono hlast).trans (toCents_div 0).le)
      | succ remainSize =>
          have hneg : remainMoney - ((1 : ℤ) : ℚ) < 0 := by
            rw [Int.cast_one]
            linarith
          refine .of_draw (can_draw_one (hremain.trans (Nat.cast_nonneg _)))
            (fun h => hneg.ne (double_eq_zero_iff.1 h)) (ih (by omega) (double_nonpos hneg.le) _)

end Fails

section TooLittle

variable {remainMoney : ℚ} {cents : ℤ}

/-- A whole number of cents that is taken off leaves no rounding. -/
theorem double_sub (hdigits : HasDigits 2 53 remainMoney)
    (hsmall : remainMoney ≤ 2 ^ 45) {money : ℤ}
    (hmoney : 0 ≤ money) (hle : money ≤ remainMoney) :
    double (remainMoney - money) = remainMoney - money ∧ HasDigits 2 53 (remainMoney - money) := by
  have hdiff := hdigits.sub_intCast one_lt_two (by push_cast; linarith) hmoney hle
  exact ⟨double_of_hasDigits hdiff, hdiff⟩

/-- Of two packets the first one may take everything. -/
theorem share_two (hcents : 0 ≤ cents) (htop : cents ≤ 2 ^ 45) : share cents 2 200 = cents := by
  have hround : Rounds double (2 ^ 45) := rounds_double le_rfl
  have hmany : (cents : ℚ) / 2 * 200 = ((100 * cents : ℤ) : ℚ) := by
    push_cast
    ring
  have hback : ((100 * cents : ℤ) : ℚ) / 100 = cents := by
    push_cast
    ring
  rw [share, Nat.cast_ofNat, hround.half hcents htop, hmany,
    hround.whole (by omega) (by omega), hback,
    hround.whole (by omega) (by omega)]

/-- Of two packets the first one may take all the cents of a little more. -/
theorem floor_share_two (hcents : 1 ≤ cents) (hlt : cents < remainMoney)
    (hnear : remainMoney ≤ cents + 1 / 4) (hsmall : remainMoney ≤ 2 ^ 45) :
    ⌊share remainMoney 2 ((200 : ℤ) : ℚ)⌋ = cents := by
  have hcents' : (1 : ℚ) ≤ cents := by exact_mod_cast hcents
  have htop : (cents : ℚ) ≤ 2 ^ 45 := hlt.le.trans hsmall
  have htop' : cents ≤ 2 ^ 45 := by exact_mod_cast htop
  have hlow : (cents : ℚ) ≤ share remainMoney 2 200 := by
    rw [← share_two (by omega : 0 ≤ cents) htop']
    exact share_mono hlt.le (by linarith) (by norm_num) le_rfl
  have hround := (abs_le.1 (share_near (by linarith : 0 ≤ remainMoney)
    (by norm_num : (0 : ℚ) ≤ 200) 2)).2
  have hback : remainMoney / ((2 : ℕ) : ℚ) * 200 / 100 = remainMoney := by
    push_cast
    ring
  rw [hback] at hround
  have hulp : remainMoney / 2 ^ 51 ≤ 1 / 64 := by
    rw [div_le_iff₀ (by norm_num)]
    linarith
  rw [Int.cast_ofNat, Int.floor_eq_iff]
  exact ⟨hlow, by linarith⟩

/-- Of three packets or more, the first one may take no more than the cents of a little more. -/
theorem exists_draw_le (remainSize : ℕ) (hcents : 1 ≤ cents) (hlt : cents < remainMoney)
    (hnear : remainMoney ≤ cents + 1 / 4) :
    ∃ money : ℤ, Roll.Can (drawMoney double remainMoney (remainSize + 3)) money ∧ 1 ≤ money ∧
      money ≤ cents := by
  have hcents' : (1 : ℚ) ≤ cents := by exact_mod_cast hcents
  have hsize : (3 : ℚ) ≤ ((remainSize + 3 : ℕ) : ℚ) := by
    push_cast
    linarith [(Nat.cast_nonneg remainSize : (0 : ℚ) ≤ remainSize)]
  have haverage : remainMoney / ((remainSize + 3 : ℕ) : ℚ) ≤ remainMoney / 3 :=
    div_le_div_of_nonneg_left (by linarith) (by norm_num) hsize
  have hround := (abs_le.1 (share_near (by linarith : 0 ≤ remainMoney)
    (by norm_num : (0 : ℚ) ≤ (100 : ℤ)) (remainSize + 3))).2
  have hback : remainMoney / ((remainSize + 3 : ℕ) : ℚ) * ((100 : ℤ) : ℚ) / 100 =
      remainMoney / ((remainSize + 3 : ℕ) : ℚ) := by
    push_cast
    ring
  have hpos : 0 ≤ remainMoney / ((remainSize + 3 : ℕ) : ℚ) :=
    div_nonneg (by linarith) (Nat.cast_nonneg _)
  rw [hback] at hround
  generalize remainMoney / ((remainSize + 3 : ℕ) : ℚ) = average at hround haverage hpos
  have hulp : average / 2 ^ 51 ≤ average := div_le_self hpos (by norm_num)
  have hshare : share remainMoney (remainSize + 3) ((100 : ℤ) : ℚ) ≤ cents :=
    (sub_le_iff_le_add.1 hround).trans (by linarith)
  have hfloor := Int.floor_le_floor hshare
  rw [Int.floor_intCast] at hfloor
  have hdraw := can_drawMoney_share remainMoney (remainSize + 3) (by norm_num : (100 : ℤ) ≤ 100)
    (by norm_num) rfl
  exact ⟨_, hdraw, by split_ifs <;> omega, by split_ifs <;> omega⟩

/-- **Less than a cent**: a cent is drawn though there is none. -/
theorem Fails.of_lt_one {remainSize : ℕ} (hlt : remainMoney < 1) (redPackes : List ℤ) :
    Fails (remainSize + 2) remainMoney redPackes := by
  have hneg : remainMoney - ((1 : ℤ) : ℚ) < 0 := by
    rw [Int.cast_one]
    linarith
  refine .of_draw (can_draw_one ?_) (fun h => hneg.ne (double_eq_zero_iff.1 h))
    (.of_nonpos (by omega) (double_nonpos hneg.le) _)
  push_cast
  linarith [(Nat.cast_nonneg remainSize : (0 : ℚ) ≤ remainSize)]

/-- **A little more than whole cents**: some draws take all the cents, and what is left is neither
zero nor a cent. -/
theorem Fails.of_excess {remainSize : ℕ} (hdigits : HasDigits 2 53 remainMoney)
    (hlt : cents < remainMoney) (hnear : remainMoney ≤ cents + 1 / 4)
    (hsmall : remainMoney ≤ 2 ^ 45)
    (redPackes : List ℤ) : Fails (remainSize + 2) remainMoney redPackes := by
  induction remainSize generalizing remainMoney cents redPackes with
  | zero =>
      by_cases hcents : 1 ≤ cents
      · -- twice the average, and less than a cent is left
        have hdraw := can_drawMoney_share remainMoney 2 (by norm_num) le_rfl
          (floor_share_two hcents hlt hnear hsmall)
        have hmoney : (if cents ≤ 1 then 1 else cents) = cents := by split_ifs <;> omega
        rw [hmoney] at hdraw
        obtain ⟨hleft, -⟩ := double_sub hdigits hsmall (by omega : 0 ≤ cents) hlt.le
        refine .of_draw hdraw (by rw [hleft]; linarith) (.last _ ?_)
        rw [hleft]
        refine (@toCents_last _ 0 ?_ ?_).le
        · rw [Int.cast_zero, sub_zero, abs_le]
          constructor <;> linarith
        · rw [abs_le]
          constructor <;> linarith
      · have hcents' : (cents : ℚ) ≤ 0 := by exact_mod_cast (by omega : cents ≤ 0)
        exact .of_lt_one (by linarith) redPackes
  | succ remainSize ih =>
      by_cases hcents : 1 ≤ cents
      · obtain ⟨money, hmoney, hone, hle⟩ := exists_draw_le remainSize hcents hlt hnear
        have hle' : (money : ℚ) ≤ cents := by exact_mod_cast hle
        obtain ⟨hleft, hdigits'⟩ :=
          double_sub hdigits hsmall (by omega : 0 ≤ money) (hle'.trans hlt.le)
        have hone' : (1 : ℚ) ≤ money := by exact_mod_cast hone
        refine .of_draw hmoney (by rw [hleft]; linarith) ?_
        rw [hleft]
        refine @ih _ (cents - money) hdigits' ?_ ?_ (by linarith) _
        · push_cast
          linarith
        · push_cast
          linarith
      · have hcents' : (cents : ℚ) ≤ 0 := by exact_mod_cast (by omega : cents ≤ 0)
        exact .of_lt_one (by linarith) redPackes

/-- **Less than a cent for every packet**: whole cents are drawn until less than nothing is left. -/
theorem Fails.of_short {remainSize : ℕ} (hdigits : HasDigits 2 53 remainMoney)
    (hlt : remainMoney < cents) (hnear : cents ≤ remainMoney + 1 / 4)
    (hsmall : remainMoney ≤ 2 ^ 45)
    (hfew : cents ≤ remainSize + 1)
    (redPackes : List ℤ) : Fails (remainSize + 2) remainMoney redPackes := by
  induction remainSize generalizing remainMoney cents redPackes with
  | zero =>
      have hfew' : (cents : ℚ) ≤ 1 := by exact_mod_cast hfew
      exact .of_lt_one (by linarith) redPackes
  | succ remainSize ih =>
      have hfew' : (cents : ℚ) ≤ remainSize + 2 := by exact_mod_cast hfew
      have hdraw : Roll.Can (drawMoney double remainMoney (remainSize + 1 + 2)) 1 :=
        can_draw_one (by push_cast; linarith)
      by_cases hone : ((1 : ℤ) : ℚ) ≤ remainMoney
      · obtain ⟨hleft, hdigits'⟩ := double_sub hdigits hsmall zero_le_one hone
        refine .of_draw hdraw ?_ ?_
        · -- the amount is not whole
          rw [hleft, sub_ne_zero]
          rintro rfl
          rw [Int.cast_lt] at hlt
          have hle : (cents : ℚ) < ((2 : ℤ) : ℚ) := by
            push_cast at hnear ⊢
            linarith
          rw [Int.cast_lt] at hle
          omega
        · rw [hleft]
          apply @ih _ (cents - 1) hdigits'
          · push_cast
            linarith
          · push_cast
            linarith
          · push_cast at hone ⊢
            linarith
          · push_cast at hfew
            omega
      · rw [Int.cast_one, not_le] at hone
        exact .of_lt_one hone redPackes

/-- Nothing is taken back from packets of a yuan or less. -/
theorem takeBack_of_small {redPackes : List ℤ} (hsmall : ∀ v ∈ redPackes, v ≤ 100) :
    Roll.Can (takeBack redPackes) (0, redPackes) := by
  induction redPackes with
  | nil => exact .pure _
  | cons v redPackes ih =>
      rw [List.forall_mem_cons] at hsmall
      unfold takeBack
      rw [if_neg (by omega), if_neg (by omega), if_neg (by omega)]
      exact (ih hsmall.2).bind (.pure _)

/-- The factor that brings the average just above a yuan. -/
theorem exists_up {remainSize : ℕ} (hmany : 50 * (remainSize : ℤ) < cents)
    (hfew : cents ≤ 100 * ((remainSize : ℤ) - 1)) :
    ∃ up : ℤ, 100 ≤ up ∧ up ≤ 200 ∧ 10000 * (remainSize : ℤ) < cents * up ∧
      cents * (up - 1) ≤ 10000 * (remainSize : ℤ) := by
  have hpos : 0 < cents := by omega
  have hlow : 10000 * (remainSize : ℤ) < cents * (10000 * (remainSize : ℤ) / cents + 1) := by
    rw [mul_comm cents]
    exact Int.lt_ediv_add_one_mul_self _ hpos
  have hhigh : cents * (10000 * (remainSize : ℤ) / cents) ≤ 10000 * (remainSize : ℤ) :=
    Int.mul_ediv_self_le hpos.ne'
  obtain ⟨up, hup⟩ : ∃ up, up = 10000 * (remainSize : ℤ) / cents + 1 := ⟨_, rfl⟩
  have hquotient : 10000 * (remainSize : ℤ) / cents = up - 1 := by omega
  rw [← hup] at hlow
  rw [hquotient] at hhigh
  have hup1 : 100 ≤ up := by
    by_contra! hlt
    nlinarith
  have hup2 : up ≤ 200 := by
    by_contra! hlt
    nlinarith
  exact ⟨up, hup1, hup2, hlow, hhigh⟩

/-- A share of the average between a yuan and a little more. -/
theorem exists_yuan {remainSize : ℕ} (hsize : 1 ≤ remainSize) (htop : remainSize ≤ 2 ^ 21)
    (hmany : 50 * (remainSize : ℤ) < cents) (hfew : cents ≤ 100 * ((remainSize : ℤ) - 1)) :
    ∃ up : ℤ, 100 ≤ up ∧ up ≤ 200 ∧ ⌊share cents remainSize up⌋ = 100 := by
  obtain ⟨up, hup1, hup2, hlow, hhigh⟩ := exists_up hmany hfew
  refine ⟨up, hup1, hup2, ?_⟩
  have hsize' : (0 : ℚ) < remainSize := by exact_mod_cast hsize
  have htop' : (remainSize : ℚ) ≤ 2 ^ 21 := by exact_mod_cast htop
  have hup' : (0 : ℚ) ≤ up := by exact_mod_cast (by omega : 0 ≤ up)
  have hcents : (0 : ℚ) ≤ cents := by exact_mod_cast (by omega : 0 ≤ cents)
  have hround := abs_le.1 (share_near hcents hup' remainSize)
  have hexact : (cents : ℚ) / remainSize * up / 100 = ((cents * up : ℤ) : ℚ) /
      (100 * remainSize) := by
    push_cast
    field_simp
  -- more than a yuan by a hundredth of a packet's part, which no rounding reaches
  have hover : 100 + 1 / (100 * (remainSize : ℚ)) ≤ (cents : ℚ) / remainSize * up / 100 := by
    rw [hexact, le_div_iff₀ (by positivity)]
    have hlow' : ((10000 * (remainSize : ℤ) + 1 : ℤ) : ℚ) ≤ ((cents * up : ℤ) : ℚ) := by
      exact_mod_cast hlow
    refine le_trans (le_of_eq ?_) hlow'
    push_cast
    field_simp
    ring
  have hunder : (cents : ℚ) / remainSize * up / 100 ≤ 101 - 1 / (remainSize : ℚ) := by
    rw [hexact, div_le_iff₀ (by positivity)]
    have hhigh' : ((cents * up : ℤ) : ℚ) ≤ ((10100 * (remainSize : ℤ) - 100 : ℤ) : ℚ) := by
      exact_mod_cast (by linarith : cents * up ≤ 10100 * (remainSize : ℤ) - 100)
    refine hhigh'.trans (le_of_eq ?_)
    push_cast
    field_simp
    ring
  have hpart : 1 / 2 ^ 28 ≤ 1 / (100 * (remainSize : ℚ)) := by
    apply one_div_le_one_div_of_le (by positivity)
    linarith
  have hpart' : 1 / (100 * (remainSize : ℚ)) ≤ 1 / remainSize := by
    apply one_div_le_one_div_of_le hsize'
    linarith
  generalize (cents : ℚ) / remainSize * up / 100 = exact at hround hover hunder
  have hulp : exact / 2 ^ 51 ≤ 1 / 2 ^ 40 := by
    rw [div_le_iff₀ (by norm_num)]
    linarith
  rw [Int.floor_eq_iff]
  constructor
  · push_cast
    linarith [hround.1]
  · push_cast
    linarith [hround.2]

theorem average_le_half_yuan {remainSize : ℕ} (hsmall : cents ≤ 50 * ((remainSize : ℤ) + 2)) :
    (cents : ℚ) / ((remainSize + 2 : ℕ) : ℚ) ≤ ((50 : ℤ) : ℚ) := by
  rw [div_le_iff₀ (by positivity)]
  exact_mod_cast hsmall

/-- Twice the average is at most a yuan. -/
theorem share_le_yuan {remainSize : ℕ} (hsmall : cents ≤ 50 * ((remainSize : ℤ) + 2)) :
    share cents (remainSize + 2) 200 ≤ ((100 : ℤ) : ℚ) := by
  have hfirst := double_le_intCast (by norm_num) (average_le_half_yuan hsmall)
  have hmany : double (double (cents / ((remainSize + 2 : ℕ) : ℚ)) * 200) ≤ ((10000 : ℤ) : ℚ) := by
    apply double_le_intCast (by norm_num)
    push_cast at hfirst ⊢
    linarith
  apply double_le_intCast (by norm_num)
  push_cast at hmany ⊢
  linarith

/-- What twice the average leaves is at most a yuan for each of the others but one. -/
theorem sub_floor_share_le {remainSize : ℕ} (hcents : 1 ≤ cents) (htop : cents ≤ 2 ^ 45)
    (hsmall : cents ≤ 50 * ((remainSize : ℤ) + 2)) :
    cents - ⌊share cents (remainSize + 2) 200⌋ ≤ 100 * remainSize := by
  cases remainSize with
  | zero =>
      rw [share_two (by omega) htop, Int.floor_intCast]
      omega
  | succ remainSize =>
      -- the share is less than twice the average by at most two cents
      have hcents' : (0 : ℚ) ≤ cents := by exact_mod_cast (by omega : 0 ≤ cents)
      have hsize : (0 : ℚ) < ((remainSize + 1 + 2 : ℕ) : ℚ) := by positivity
      have haverage := average_le_half_yuan hsmall
      have hnear := abs_le.1 (share_near hcents' (by norm_num : (0 : ℚ) ≤ 200) (remainSize + 1 + 2))
      have htwice : (cents : ℚ) / ((remainSize + 1 + 2 : ℕ) : ℚ) * 200 / 100 =
          2 * (cents / ((remainSize + 1 + 2 : ℕ) : ℚ)) := by ring
      have hexact := div_mul_cancel₀ (cents : ℚ) hsize.ne'
      have hpos : 0 ≤ (cents : ℚ) / ((remainSize + 1 + 2 : ℕ) : ℚ) := by positivity
      rw [htwice] at hnear
      generalize (cents : ℚ) / ((remainSize + 1 + 2 : ℕ) : ℚ) =
        average at hexact haverage hnear hpos
      have hulp : 2 * average / 2 ^ 51 ≤ 1 := by
        rw [div_le_one (by norm_num)]
        push_cast at haverage
        linarith
      have hlast := Int.lt_floor_add_one (share cents (remainSize + 1 + 2) 200)
      have hmany : average * ((remainSize : ℚ) + 1) ≤ 50 * ((remainSize : ℚ) + 1) := by
        push_cast at haverage
        gcongr
      have hrest : ((cents - ⌊share cents (remainSize + 1 + 2) 200⌋ : ℤ) : ℚ) ≤
          ((100 * ((remainSize : ℤ) + 1) : ℤ) : ℚ) := by
        push_cast at hexact ⊢
        linarith [hnear.1, (Nat.cast_nonneg remainSize : (0 : ℚ) ≤ remainSize)]
      exact_mod_cast hrest

/-- A draw of at most a yuan that leaves at most a yuan for each of the others but one. -/
theorem exists_small_draw {remainSize : ℕ} (htop : remainSize + 2 ≤ 2 ^ 21) (hcents : 1 ≤ cents)
    (hfew : cents ≤ 100 * ((remainSize : ℤ) + 1)) :
    ∃ money, Roll.Can (drawMoney double cents (remainSize + 2)) money ∧ 1 ≤ money ∧ money ≤ 100 ∧
      money ≤ cents ∧ cents - money ≤ 100 * remainSize := by
  have htop' : cents ≤ 2 ^ 45 := by omega
  by_cases hsmall : cents ≤ 50 * ((remainSize : ℤ) + 2)
  · have hcents' : (0 : ℚ) ≤ cents := by exact_mod_cast (by omega : 0 ≤ cents)
    have hfloor := Int.floor_le_floor (share_le_yuan hsmall)
    rw [Int.floor_intCast] at hfloor
    have hdraw := @can_drawMoney_share cents (remainSize + 2) 200 (by norm_num) le_rfl _ rfl
    rw [Int.cast_ofNat] at hdraw
    obtain ⟨hone, hle⟩ :=
      hdraw.of_always (drawMoney_spec (rounds_double le_rfl) hcents htop' remainSize)
    refine ⟨_, hdraw, hone, by split_ifs <;> omega, hle, ?_⟩
    have hrest := sub_floor_share_le hcents htop' hsmall
    split_ifs <;> omega
  · have hmany : 50 * ((remainSize + 2 : ℕ) : ℤ) < cents := by
      push_cast
      omega
    have hfew : cents ≤ 100 * (((remainSize + 2 : ℕ) : ℤ) - 1) := by
      push_cast
      omega
    obtain ⟨up, hup1, hup2, hfloor⟩ := exists_yuan (by omega) htop hmany hfew
    have hdraw := can_drawMoney_share _ _ hup1 hup2 hfloor
    rw [if_neg (by norm_num)] at hdraw
    exact ⟨100, hdraw, by norm_num, le_rfl, by omega, by omega⟩

/-- **No more than a yuan a packet**: some draws leave nothing, and nothing to take it back from. -/
theorem Fails.of_few {remainSize : ℕ} {redPackes : List ℤ} (hsize : 1 ≤ remainSize)
    (htop : remainSize ≤ 2 ^ 21) (hsmall : ∀ v ∈ redPackes, v ≤ 100)
    (hfew : cents ≤ 100 * ((remainSize : ℤ) - 1)) : Fails remainSize cents redPackes := by
  by_cases hcents : cents ≤ 0
  · exact .of_nonpos hsize (by exact_mod_cast hcents) redPackes
  induction remainSize generalizing cents redPackes with
  | zero => omega
  | succ remainSize ih =>
      cases remainSize with
      | zero => exact absurd hfew (by push_cast; omega)
      | succ remainSize =>
          push_cast at hfew
          obtain ⟨money, hdraw, hone, hyuan, hle, hrest⟩ := exists_small_draw htop
            (by omega : 1 ≤ cents) (by omega)
          have hsmall' := forall_mem_concat (P := (· ≤ 100)) hsmall hyuan
          have hleft : double (cents - money) = ((cents - money : ℤ) : ℚ) := by
            rw [← Int.cast_sub]
            exact double_intCast (by rw [abs_of_nonneg (by omega)]; omega)
          by_cases hzero : cents - money = 0
          · have hrefill : Roll.Can (refill (double ((cents : ℚ) - money)) (redPackes ++ [money]))
                (0, redPackes ++ [money]) := by
              rw [hleft, hzero, refill, if_pos Int.cast_zero]
              exact (takeBack_of_small hsmall').bind (.pure _)
            exact .of_refill hdraw hrefill (by simp) (.of_nonpos (by omega) le_rfl _)
          · refine .of_draw hdraw ?_ ?_
            · rw [hleft]
              exact_mod_cast hzero
            · rw [hleft]
              exact ih (by omega) (by omega) hsmall' (by push_cast; omega) (by omega)

end TooLittle

section Short

variable {remainMoney : ℚ} {cents : ℤ}

/-- An amount as it is left over, below a whole number of cents. -/
structure Short (remainMoney : ℚ) (cents : ℤ) : Prop where
  digits : HasDigits 2 53 remainMoney
  lt : remainMoney < cents
  near : cents ≤ remainMoney + 1 / 4
  small : remainMoney < 2 ^ 45

/-- The amount in units of its last digit, of which a cent holds many. -/
theorem Short.exists_unit (hshort : Short remainMoney cents) (hcents : 1 ≤ cents) :
    ∃ (e : ℕ) (m : ℤ), 8 ≤ e ∧ remainMoney = m / 2 ^ e ∧ 0 < m ∧ m + 1 ≤ cents * 2 ^ e ∧
      cents * 2 ^ e ≤ 2 ^ 53 := by
  have hcents' : (1 : ℚ) ≤ cents := by exact_mod_cast hcents
  have hpos : 0 < remainMoney := by linarith [hshort.near]
  obtain ⟨e, m, he, hm, hlt⟩ := hshort.digits.exists_unit one_lt_two hpos.ne' (k := 8)
    (by rw [abs_of_pos hpos]; exact hshort.small.trans_le (by norm_num))
  rw [Nat.cast_ofNat] at hm
  rw [Nat.cast_ofNat] at hlt
  have hpow : (0 : ℚ) < 2 ^ e := by positivity
  have hm0 : 0 < m := by
    rw [hm] at hpos
    have := (div_pos_iff_of_pos_right hpow).1 hpos
    exact_mod_cast this
  refine ⟨e, m, he, hm, hm0, ?_, ?_⟩
  · have hlow := hshort.lt
    rw [hm, div_lt_iff₀ hpow] at hlow
    have hlow' : m < cents * 2 ^ e := by exact_mod_cast hlow
    omega
  · have hhigh : ((cents - 1 : ℤ) : ℚ) * 2 ^ e < m := by
      rw [← lt_div_iff₀ hpow, ← hm]
      push_cast
      linarith [hshort.near]
    have hhigh' : (cents - 1) * 2 ^ e < m := by exact_mod_cast hhigh
    have hmost := (abs_lt.1 hlt).2
    have hwhole : (3 : ℚ) * 2 ^ e ≤ 4 * m := by
      rw [← sub_nonneg]
      have hquarter : (3 : ℚ) / 4 ≤ m / 2 ^ e := by
        rw [← hm]
        linarith [hshort.near]
      rw [le_div_iff₀ hpow] at hquarter
      linarith
    have hwhole' : 3 * (2 : ℤ) ^ e ≤ 4 * m := by exact_mod_cast hwhole
    -- the power above the amount is a whole number of cents
    have he' : e ≤ 53 := by
      by_contra! hgt
      have hpow' : (2 : ℤ) ^ 54 ≤ 2 ^ e := pow_le_pow_right₀ (by norm_num) hgt
      omega
    have hsplit : (2 : ℤ) ^ 53 = 2 ^ (53 - e) * 2 ^ e := by rw [← pow_add, Nat.sub_add_cancel he']
    have hpowInt : (0 : ℤ) < 2 ^ e := by positivity
    rw [hsplit] at hmost ⊢
    have hcount : cents - 1 < 2 ^ (53 - e) := lt_of_mul_lt_mul_right (hhigh'.trans hmost) hpowInt.le
    exact mul_le_mul_of_nonneg_right (by omega) hpowInt.le

/-- A double that lies a power of two below a multiple of the cents. -/
theorem hasDigits_below {a : ℤ} {e j : ℕ} (ha : 1 ≤ a) (ha' : a ≤ 2 ^ j) (hj : j ≤ e)
    (hcents : 1 ≤ cents) (hle : cents * 2 ^ e ≤ 2 ^ 53) :
    HasDigits 2 53 ((a : ℚ) * cents - 2 ^ j / 2 ^ e) := by
  obtain ⟨f, rfl⟩ : ∃ f, e = f + j := ⟨e - j, by omega⟩
  have hscale : ((a : ℚ) * cents - 2 ^ j / 2 ^ (f + j) : ℚ) =
      ((a * (cents * 2 ^ f) - 1 : ℤ) : ℚ) / (2 : ℕ) ^ f := by
    push_cast
    rw [pow_add]
    field_simp
  have hunits : 0 < cents * 2 ^ f := mul_pos (by omega) (by positivity)
  have hmany : a * (cents * 2 ^ f) ≤ 2 ^ j * (cents * 2 ^ f) :=
    mul_le_mul_of_nonneg_right ha' hunits.le
  have hsplit : (2 : ℤ) ^ j * (cents * 2 ^ f) = cents * 2 ^ (f + j) := by ring
  have hpos : 1 * 1 ≤ a * (cents * 2 ^ f) := mul_le_mul ha hunits zero_le_one (by omega)
  rw [hscale]
  refine hasDigits_div_pow ?_ f
  rw [abs_of_nonneg (by omega)]
  push_cast
  omega

/-- Of two packets the first one never takes all of it: there is a double between the amount and the
cents in each of the two operations that could reach them. -/
theorem Short.share_two_lt (hshort : Short remainMoney cents) (hcents : 1 ≤ cents) :
    share remainMoney 2 200 < cents := by
  obtain ⟨e, m, he, rfl, hm, hlt, hle⟩ := hshort.exists_unit hcents
  have hpow : (0 : ℚ) < 2 ^ e := by positivity
  have hunit : (1 : ℚ) / 2 ^ e ≤ cents - m / 2 ^ e := by
    have hlt' : (m : ℚ) + 1 ≤ cents * 2 ^ e := by exact_mod_cast hlt
    rw [le_sub_iff_add_le, ← add_div, add_comm, div_le_iff₀ hpow]
    exact hlt'
  have hhalf : double ((m : ℚ) / 2 ^ e / 2) = m / 2 ^ e / 2 := by
    have hdigits : HasDigits 2 53 ((m : ℚ) / (2 : ℕ) ^ (e + 1)) :=
      hasDigits_div_pow (by rw [abs_of_pos hm]; push_cast; omega) _
    rw [Nat.cast_ofNat, pow_succ, ← div_div] at hdigits
    exact double_of_hasDigits hdigits
  have hmany : (m : ℚ) / 2 ^ e / 2 * 200 = 100 * (m / 2 ^ e) := by ring
  -- 128 units below a hundred times the cents, and one unit below the cents
  have hbelow := hasDigits_below (a := 100) (j := 7) (by norm_num) (by norm_num) (by omega)
    hcents hle
  have hbelow' := hasDigits_below (a := 1) (j := 0) le_rfl (by norm_num) (Nat.zero_le e) hcents hle
  have hfirst :=
    abs_toDigits_sub_le_of_hasDigits one_lt_two (by norm_num) hbelow (100 * (m / 2 ^ e))
  have hsecond := abs_toDigits_sub_le_of_hasDigits one_lt_two (by norm_num) hbelow'
    (double (100 * (m / 2 ^ e)) / 100)
  rw [share, Nat.cast_ofNat, hhalf, hmany]
  unfold double at hsecond ⊢
  generalize toDigits 2 53 (100 * ((m : ℚ) / 2 ^ e)) = many at hfirst hsecond ⊢
  generalize toDigits 2 53 (many / 100) = drawn at hsecond ⊢
  generalize (m : ℚ) / 2 ^ e = remainMoney at hunit hfirst hsecond
  have hscaled : (2 : ℚ) ^ 7 / 2 ^ e = 128 * (1 / 2 ^ e) := by ring
  have hpos : 0 < (1 : ℚ) / 2 ^ e := by positivity
  rw [hscaled, Int.cast_ofNat] at hfirst
  rw [Int.cast_one, one_mul, pow_zero] at hsecond
  generalize (1 : ℚ) / 2 ^ e = unit at hunit hpos hfirst hsecond
  have hmany' : many ≤ 100 * cents - 72 * unit := by
    have hle := (abs_le.1 hfirst).2
    rcases abs_cases (100 * (cents : ℚ) - 128 * unit - 100 * remainMoney) with ⟨habs, -⟩
      | ⟨habs, -⟩ <;>
      rw [habs] at hle <;> linarith
  by_contra! hall
  have hge := (le_abs_self _).trans hsecond
  rcases abs_cases ((cents : ℚ) - unit - many / 100) with ⟨habs, -⟩ | ⟨habs, -⟩ <;>
    rw [habs] at hge <;> linarith

/-- Where there is just a cent for every packet, the share is less than two. -/
theorem Short.share_lt_two (hshort : Short remainMoney cents) {remainSize : ℕ}
    (hsize : 1 ≤ remainSize)
    (hcents : cents = remainSize) : share remainMoney remainSize 200 < 2 := by
  have hsize' : (0 : ℚ) < remainSize := by exact_mod_cast hsize
  -- the largest double below one
  have hbelow : HasDigits 2 53 (1 - 1 / 2 ^ 53) := by
    have hdigits := hasDigits_div_pow (b := 2) (p := 53) (n := 2 ^ 53 - 1) (by norm_num) 53
    norm_num at hdigits ⊢
    exact hdigits
  have haverage : remainMoney / remainSize ≤ 1 - 1 / 2 ^ 53 := by
    obtain ⟨e, m, -, rfl, -, hlt, hle⟩ := hshort.exists_unit (by omega)
    have hpow : (0 : ℚ) < 2 ^ e := by positivity
    have hlt' : (m : ℚ) + 1 ≤ remainSize * 2 ^ e := by
      rw [hcents] at hlt
      exact_mod_cast hlt
    have hle' : (remainSize : ℚ) * 2 ^ e ≤ 2 ^ 53 := by
      rw [hcents] at hle
      exact_mod_cast hle
    have hwhole : (remainSize : ℚ) * 2 ^ e / 2 ^ 53 ≤ 1 := by rwa [div_le_one (by norm_num)]
    rw [div_div, div_le_iff₀ (by positivity), mul_comm (2 ^ e : ℚ), sub_mul, one_mul,
      one_div_mul_eq_div]
    linarith
  have hfirst : double (remainMoney / remainSize) ≤ 1 - 1 / 2 ^ 53 :=
    (double_mono haverage).trans_eq (double_of_hasDigits hbelow)
  have hlast : double (double ((1 - 1 / 2 ^ 53) * 200) / 100) < 2 := by decide +kernel
  refine lt_of_le_of_lt (double_mono ?_) hlast
  have hmany : double (double (remainMoney / remainSize) * 200) ≤ double ((1 - 1 / 2 ^ 53) * 200) :=
    double_mono (by linarith)
  linarith

/-- A draw leaves a cent for each of the others. -/
theorem Short.floor_share_le (hshort : Short remainMoney cents) {remainSize : ℕ}
    (hmany : (remainSize : ℤ) + 2 ≤ cents) :
    ⌊share remainMoney (remainSize + 2) 200⌋ ≤ cents - (remainSize + 1) := by
  cases remainSize with
  | zero =>
      have hlt := Int.floor_lt.2 (hshort.share_two_lt (by omega))
      rw [Nat.cast_zero, zero_add, zero_add]
      omega
  | succ remainSize =>
      rcases hmany.eq_or_lt with heq | hlt
      · have hcents : cents = (remainSize + 1 + 2 : ℕ) := by
          push_cast at heq ⊢
          omega
        have htwo := hshort.share_lt_two (by omega) hcents
        have hfloor : ⌊share remainMoney (remainSize + 1 + 2) 200⌋ < 2 :=
          Int.floor_lt.2 (by exact_mod_cast htwo)
        omega
      · -- a third of what goes beyond a cent for each
        have hpos : (0 : ℚ) ≤ remainSize := Nat.cast_nonneg _
        have hover : (remainSize : ℚ) + 4 ≤ cents := by exact_mod_cast (by push_cast at hlt; omega)
        have hnonneg : 0 ≤ remainMoney := by linarith [hshort.near]
        have hnear := (abs_le.1 (share_near hnonneg (by norm_num : (0 : ℚ) ≤ 200)
          (remainSize + 1 + 2))).2
        have hexact : remainMoney / ((remainSize + 1 + 2 : ℕ) : ℚ) * (remainSize + 3) =
            remainMoney := by
          push_cast
          field_simp
          ring
        have haverage : 0 ≤ remainMoney / ((remainSize + 1 + 2 : ℕ) : ℚ) := by positivity
        generalize remainMoney / ((remainSize + 1 + 2 : ℕ) : ℚ) = average at hnear hexact haverage
        have hulp : average * 200 / 100 / 2 ^ 51 ≤ 1 / 16 := by
          rw [div_le_iff₀ (by norm_num)]
          nlinarith [hshort.small]
        have hthird : 3 * (average - 1) ≤ cents - remainSize - 3 := by
          by_contra! hgt
          nlinarith [hshort.lt]
        have hshare : share remainMoney (remainSize + 1 + 2) 200 <
            ((cents - (remainSize + 1) : ℤ) : ℚ) := by
          refine (sub_le_iff_le_add.1 hnear).trans_lt ?_
          push_cast
          linarith
        have hfloor := Int.floor_lt.2 hshare
        push_cast
        omega

/-- **A cent for every packet** is enough when the amount is a little less than whole cents. -/
theorem Short.splitLoop_spec {remainSize : ℕ} (hshort : Short remainMoney cents)
    {redPackes : List ℤ} (hsize : 1 ≤ remainSize) (hmany : remainSize ≤ cents)
    (hpos : ∀ v ∈ redPackes, 1 ≤ v) :
    Roll.Always (splitLoop double remainSize remainMoney redPackes) fun packets => ∃ values,
      packets = some values ∧
        Splits (cents + redPackes.sum) (remainSize + redPackes.length) values := by
  induction remainSize generalizing remainMoney cents redPackes with
  | zero => omega
  | succ remainSize ih =>
      have hnonneg : 0 ≤ remainMoney := by
        have hcents : (1 : ℚ) ≤ cents := by exact_mod_cast (by omega : 1 ≤ cents)
        linarith [hshort.near]
      cases remainSize with
      | zero =>
          have hlast : toCents (double (remainMoney / 100)) = cents := by
            refine toCents_last ?_ ?_
            · rw [abs_le]
              constructor <;> linarith [hshort.lt, hshort.near]
            · rw [abs_of_nonneg hnonneg]
              linarith [hshort.small]
          refine .pure ⟨_, rfl, ?_, forall_mem_concat hpos ?_, ?_⟩
          · rw [List.length_append, List.length_singleton, Nat.add_comm]
          · rw [hlast]
            omega
          · rw [List.sum_append, List.sum_singleton, hlast, add_comm]
      | succ remainSize =>
          have htwo : (remainSize : ℤ) + 2 ≤ cents := by
            push_cast at hmany
            omega
          have hfloor := hshort.floor_share_le htwo
          refine (drawMoney_le hnonneg (remainSize + 2)).bind fun money ⟨hone, hle⟩ => ?_
          have hleft : money ≤ cents - (remainSize + 1) := by
            push_cast at hmany
            omega
          have hmoney : ((money + (remainSize + 1) : ℤ) : ℚ) ≤ cents := by exact_mod_cast (by omega)
          push_cast at hmoney
          have hsize' := (Nat.cast_nonneg remainSize : (0 : ℚ) ≤ remainSize)
          obtain ⟨hexact, hdigits⟩ :=
            double_sub hshort.digits hshort.small.le (by omega : 0 ≤ money)
            (by linarith [hshort.near])
          have hrest : refill (double (remainMoney - money)) (redPackes ++ [money]) =
              pure (remainMoney - money, redPackes ++ [money]) := by
            rw [hexact, refill, if_neg]
            intro hzero
            linarith [hshort.near]
          rw [hrest, pure_bind]
          have hshort' : Short (remainMoney - money) (cents - money) := by
            have hone' : (1 : ℚ) ≤ money := by exact_mod_cast hone
            refine ⟨hdigits, ?_, ?_, ?_⟩
            · push_cast
              linarith [hshort.lt]
            · push_cast
              linarith [hshort.near]
            · linarith [hshort.small]
          refine (ih hshort' (by omega) (by push_cast; omega) (forall_mem_concat hpos hone)).mono ?_
          rintro packets ⟨values, hvalues, hsplits⟩
          refine ⟨values, hvalues, ?_, hsplits.positive, ?_⟩
          · rw [hsplits.length, List.length_append, List.length_singleton]
            omega
          · rw [hsplits.sum, List.sum_append, List.sum_singleton]
            ring

end Short

section Statement

variable {totalMoney : ℚ} {cents : ℤ} {size : ℕ}

/-- What is left is enough for so many packets. -/
def Enough (remainMoney : ℚ) (cents : ℤ) (size : ℕ) : Prop :=
  (remainMoney ≤ cents ∨ size = 1) ∧
    if remainMoney = cents then 100 * ((size : ℤ) - 1) < cents else (size : ℤ) ≤ cents

/-- An amount of so many cents, but for a rounding. -/
structure About (totalMoney : ℚ) (cents : ℤ) : Prop where
  near : |double (totalMoney * 100) - cents| ≤ 1 / 4
  small : |cents| ≤ 2 ^ 40

theorem About.bounds (habout : About totalMoney cents) :
    double (totalMoney * 100) ≤ cents + 1 / 4 ∧ cents ≤ double (totalMoney * 100) + 1 / 4 ∧
      |double (totalMoney * 100)| ≤ 2 ^ 41 := by
  have hnear := abs_le.1 habout.near
  have hsmall : |(cents : ℚ)| ≤ 2 ^ 40 := by exact_mod_cast habout.small
  rw [abs_le] at hsmall ⊢
  exact ⟨by linarith, by linarith, by linarith, by linarith⟩

theorem About.digits (totalMoney : ℚ) : HasDigits 2 53 (double (totalMoney * 100)) :=
  hasDigits_toDigits one_lt_two (by norm_num) _

theorem Enough.pos {remainMoney : ℚ} {cents : ℤ} {size : ℕ}
    (henough : Enough remainMoney cents size)
    (hsize : 1 ≤ size) : 1 ≤ cents := by
  have hmany := henough.2
  split_ifs at hmany <;> omega

/-- Nothing is left exactly where there are no cents. -/
theorem About.nonpos {totalMoney : ℚ} {cents : ℤ} (habout : About totalMoney cents)
    (hnone : totalMoney ≤ 0) : cents ≤ 0 := by
  have hle : double (totalMoney * 100) ≤ 0 := double_nonpos (by linarith)
  have hlt : (cents : ℚ) < ((1 : ℤ) : ℚ) := by
    rw [Int.cast_one]
    linarith [habout.bounds.2.1]
  rw [Int.cast_lt] at hlt
  omega

/-- The text of what is left shows the cents. -/
theorem About.toCents_eq {totalMoney : ℚ} {cents : ℤ} (habout : About totalMoney cents) :
    toCents totalMoney = cents := by
  obtain ⟨-, -, hsmall⟩ := habout.bounds
  have hround := abs_double_sub_le (totalMoney * 100)
  have hnear := habout.near
  have hle : |totalMoney * 100| ≤ 2 ^ 42 := by
    have htriangle : |totalMoney * 100| ≤
        |double (totalMoney * 100) - totalMoney * 100| + |double (totalMoney * 100)| := by
      have h := abs_sub_abs_le_abs_sub (totalMoney * 100) (double (totalMoney * 100))
      rw [abs_sub_comm] at h
      linarith
    linarith
  refine nearestInt_eq ?_
  have hsplit : totalMoney * 100 - cents =
      (double (totalMoney * 100) - cents) - (double (totalMoney * 100) - totalMoney * 100) := by
        ring
  rw [hsplit]
  refine (abs_sub _ _).trans_lt ?_
  linarith

/-- The one packet holds all the cents. -/
theorem About.splitLoop_one (habout : About totalMoney cents) :
    splitLoop double 1 (double (totalMoney * 100)) [] = pure (some [cents]) := by
  have hlast := toCents_last habout.near (habout.bounds.2.2.trans (by norm_num))
  rw [splitLoop, hlast, List.nil_append]

/-- **Enough is split**, whatever is drawn. -/
theorem About.randomRedPacket_spec (habout : About totalMoney cents) (hsize : 1 ≤ size)
    (henough : Enough (double (totalMoney * 100)) cents size) :
    Roll.Always (randomRedPacket double totalMoney size) fun packets => ∃ values : List ℤ,
      packets = some (values.map format2) ∧ Splits cents size values := by
  have hempty : ∀ v ∈ ([] : List ℤ), 1 ≤ v := by simp
  have hsmall := abs_le.1 habout.small
  obtain ⟨-, hnear, htop⟩ := habout.bounds
  obtain ⟨hle, hmany⟩ := henough
  suffices hsplit : Roll.Always (splitLoop double size (double (totalMoney * 100)) [])
      fun packets =>
      ∃ values, packets = some values ∧ Splits cents size values by
    refine hsplit.bind ?_
    rintro packets ⟨values, rfl, hsplits⟩
    exact .pure ⟨values, rfl, hsplits⟩
  by_cases hexact : double (totalMoney * 100) = cents
  · rw [if_pos hexact] at hmany
    rw [hexact]
    have hround : Rounds double (2 ^ 45) := rounds_double le_rfl
    simpa using splitLoop_spec hround hsize (by omega) hempty (by simp; omega)
      (by simpa using hmany)
  · rw [if_neg hexact] at hmany
    by_cases hone : size = 1
    · subst hone
      rw [habout.splitLoop_one]
      refine .pure ⟨_, rfl, rfl, ?_, List.sum_singleton⟩
      rw [List.forall_mem_singleton]
      omega
    · have hshort : Short (double (totalMoney * 100)) cents :=
        ⟨About.digits _, lt_of_le_of_ne (hle.resolve_right hone) hexact, hnear,
          (le_abs_self _).trans_lt (htop.trans_lt (by norm_num))⟩
      simpa using hshort.splitLoop_spec hsize hmany hempty

/-- **Too little, or a little too much, is not**: some draws leave a packet without a cent. -/
theorem About.randomRedPacket_fails (habout : About totalMoney cents) (hsize : 1 ≤ size)
    (htop : size ≤ 2 ^ 21) (hfew : ¬Enough (double (totalMoney * 100)) cents size) :
    ∃ values : List ℤ, Roll.Can (randomRedPacket double totalMoney size)
    (some (values.map format2)) ∧
      values.length = size ∧ ∃ v ∈ values, v ≤ 0 := by
  suffices hfails : Fails size (double (totalMoney * 100)) [] by
    obtain ⟨values, hcan, hlength, hbad⟩ := hfails
    exact ⟨values, Roll.Can.bind hcan (.pure _), by simpa using hlength, hbad⟩
  obtain ⟨hnear, hnear', hsmall⟩ := habout.bounds
  have hsmall' : double (totalMoney * 100) ≤ 2 ^ 45 :=
    (le_abs_self _).trans (hsmall.trans (by norm_num))
  unfold Enough at hfew
  by_cases hexact : double (totalMoney * 100) = cents
  · rw [if_pos hexact] at hfew
    rw [hexact]
    exact .of_few hsize htop (by simp) (not_lt.1 fun hlt => hfew ⟨.inl hexact.le, hlt⟩)
  rw [if_neg hexact] at hfew
  obtain _ | _ | size := size
  · omega
  · refine ⟨[cents], ?_, rfl, cents, List.mem_singleton_self _, ?_⟩
    · rw [habout.splitLoop_one]
      exact .pure _
    · exact not_lt.1 fun hlt => hfew ⟨.inr rfl, by push_cast; omega⟩
  · rcases lt_or_gt_of_ne hexact with hlt | hgt
    · refine .of_short (About.digits _) hlt hnear' hsmall' ?_ []
      by_contra! hmany
      exact hfew ⟨.inl hlt.le, by push_cast; omega⟩
    · exact .of_excess (About.digits _) hgt hnear hsmall' []

end Statement

end SdyServer.Hongbao
