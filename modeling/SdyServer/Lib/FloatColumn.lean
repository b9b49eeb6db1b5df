import Mathlib.Data.Int.GCD
import Mathlib.Tactic.FieldSimp
import SdyServer.Lib.Rounding

/-!
# Columns of single precision

A column `FLOAT(M, d)` of MySQL rounds a number to `d` decimals, in doubles, and holds the nearest
number of single precision; it is shown with `d` decimals. An amount in cents is what such a column
shows when the single-precision number next to it is less than half a cent away, however the amount
was rounded before it was stored: a midpoint of two such numbers is an amount in cents only where
they lie far apart.
-/

namespace Rounding

section Store

/-- The number before it is cut to single precision. -/
def truncate (d : ℕ) (x : ℚ) : ℚ :=
  let nr := double x
  double (⌊nr⌋ + double (nearestInt (double (double (nr - ⌊nr⌋) * 10 ^ d)) / 10 ^ d))

/-- What a column `FLOAT(M, d)` holds when `x` is stored in it. -/
def store (d : ℕ) (x : ℚ) : ℚ := single (truncate d x)

/-- An amount that a column `FLOAT(M, 2)` shows as it is. -/
def Keeps (x : ℚ) : Prop := fixed 2 (single x) = x

instance (x : ℚ) : Decidable (Keeps x) := inferInstanceAs (Decidable (_ = _))

end Store

section Cents

variable {c : ℤ} {x y : ℚ}

theorem eq_of_cents {c' : ℤ} (h : |(c : ℚ) / 100 - c' / 100| < 1 / 100) : c = c' := by
  rw [← sub_div, abs_div, abs_of_pos (by norm_num : (0 : ℚ) < 100), div_lt_div_iff_of_pos_right
    (by norm_num),
    ← Int.cast_sub, ← Int.cast_abs] at h
  exact sub_eq_zero.1 (Int.abs_lt_one_iff.1 (by exact_mod_cast h))

theorem fixed_eq_cents (h : |y - c / 100| < 1 / 200) : fixed 2 y = c / 100 := by
  have hnear := nearest_eq (u := 1 / 10 ^ 2) (x := y) (n := c) (by norm_num)
    (by rw [mul_one_div]; norm_num at h ⊢; exact h)
  rw [fixed, hnear]
  ring

theorem abs_sub_le_of_fixed (h : fixed 2 y = c / 100) : |y - c / 100| ≤ 1 / 200 := by
  have hnear := abs_nearest_sub_le (u := 1 / 10 ^ 2) (by norm_num) y
  rw [fixed] at h
  rw [h, abs_sub_comm] at hnear
  exact hnear.trans (by norm_num)

/-- A midpoint of two numbers of single precision that is nearly an amount in cents is that amount,
and it has few digits. -/
theorem hasDigits_of_midpoint {j : ℕ} {n : ℤ} (hc : 0 ≤ c) (hlt : (c : ℚ) / 100 < 2 ^ 18)
    (hmid : |2 * ((c : ℚ) / 100) - n / 2 ^ j| < 1 / 2 ^ (j + 14)) : HasDigits 2 24
    ((c : ℚ) / 100) := by
  have hpow : (0 : ℚ) < 2 ^ j := by positivity
  have heq : c * 2 ^ j = 50 * n := by
    have hscale : ((c * 2 ^ j - 50 * n : ℤ) : ℚ) =
        50 * 2 ^ j * (2 * ((c : ℚ) / 100) - n / 2 ^ j) := by
      push_cast
      field_simp
      ring
    have hsmall : |((c * 2 ^ j - 50 * n : ℤ) : ℚ)| < 1 := by
      rw [hscale, abs_mul, abs_of_pos (by positivity)]
      calc 50 * 2 ^ j * |2 * ((c : ℚ) / 100) - n / 2 ^ j| <
        50 * 2 ^ j * (1 / 2 ^ (j + 14)) := by gcongr
        _ = 50 / 2 ^ 14 := by rw [pow_add]; field_simp
        _ < 1 := by norm_num
    rw [← Int.cast_abs] at hsmall
    exact sub_eq_zero.1 (Int.abs_lt_one_iff.1 (by exact_mod_cast hsmall))
  have hdvd : (25 : ℤ) ∣ c := by
    have h25 : (25 : ℤ) ∣ 2 ^ j * c := ⟨2 * n, by rw [mul_comm, heq]; ring⟩
    have hgcd : Int.gcd 25 (2 ^ j) = 1 := by
      rw [Int.gcd, Int.natAbs_pow]
      exact Nat.Coprime.pow_right j (by decide)
    exact Int.dvd_of_dvd_mul_right_of_gcd_one h25 hgcd
  obtain ⟨q, rfl⟩ := hdvd
  refine ⟨q, -2, ?_, ?_⟩
  · have hq : (q : ℚ) < 2 ^ 24 := by
      push_cast at hlt
      linarith
    rw [abs_of_nonneg (by omega)]
    exact_mod_cast hq
  · push_cast
    rw [zpow_neg]
    norm_num
    ring

/-- Two numbers with `p` digits are multiples of one unit, which is not far below either. -/
theorem HasDigits.common_unit {p : ℕ} {f g : ℚ} (hf : HasDigits 2 p f) (hg : HasDigits 2 p g)
    (hf0 : 0 < f)
    (hg0 : 0 < g) : ∃ e n m : ℤ, f = n * (2 : ℚ) ^ e ∧ g = m * (2 : ℚ) ^ e ∧
      min f g < 2 ^ p * (2 : ℚ) ^ e := by
  have hlog : ∀ x : ℚ, 0 < x → x < 2 ^ p * (2 : ℚ) ^ (Int.log 2 |x| + 1 - p) := fun x hx => by
    have h := abs_lt_pow_mul_lastDigit (p := p) one_lt_two x
    rw [lastDigit, Nat.cast_ofNat] at h
    exact (le_abs_self x).trans_lt h
  rcases le_total (Int.log 2 |f|) (Int.log 2 |g|) with hle | hle
  · obtain ⟨n, hn⟩ := hf.exists_mul one_lt_two hf0.ne' le_rfl
    obtain ⟨m, hm⟩ := hg.exists_mul one_lt_two hg0.ne' (e := Int.log 2 |f| + 1 - p) (by omega)
    exact ⟨_, n, m, hn, hm, (min_le_left f g).trans_lt (hlog f hf0)⟩
  · obtain ⟨n, hn⟩ := hf.exists_mul one_lt_two hf0.ne' (e := Int.log 2 |g| + 1 - p) (by omega)
    obtain ⟨m, hm⟩ := hg.exists_mul one_lt_two hg0.ne' le_rfl
    exact ⟨_, n, m, hn, hm, (min_le_right f g).trans_lt (hlog g hg0)⟩

/-- Different multiples of a unit are a unit apart. -/
theorem zpow_le_abs_sub {f g : ℚ} {e n m : ℤ} (hn : f = n * (2 : ℚ) ^ e) (hm : g = m * (2 : ℚ) ^ e)
    (hne : f ≠ g) : (2 : ℚ) ^ e ≤ |f - g| := by
  have hunit : (0 : ℚ) < 2 ^ e := by positivity
  have hdiff : f - g = (n - m : ℤ) * (2 : ℚ) ^ e := by
    rw [hn, hm]
    push_cast
    ring
  have hone : (1 : ℚ) ≤ |((n - m : ℤ) : ℚ)| := by
    have hnm : n - m ≠ 0 := by
      rintro h
      rw [hn, hm, sub_eq_zero.1 h] at hne
      exact hne rfl
    exact_mod_cast Int.one_le_abs hnm
  rw [hdiff, abs_mul, abs_of_pos hunit]
  exact le_mul_of_one_le_left hunit.le hone

section Midpoint

variable {f g T y : ℚ}

/-- The middle of two numbers, of which one is nearest to `T` and the other one to `y`, lies between
`T` and `y`. -/
theorem abs_two_mul_sub_le (hne : f ≠ g) (hfT : |f - T| ≤ |g - T|) (hgy : |g - y| ≤ |f - y|) :
    |2 * T - (f + g)| ≤ 2 * |y - T| := by
  have hsqT := sq_le_sq.2 hfT
  have hsqy := sq_le_sq.2 hgy
  have hy := abs_le.1 (le_refl |y - T|)
  rcases hne.lt_or_gt with hlt | hlt
  · have hlow : 2 * T ≤ f + g := by nlinarith
    have hhigh : f + g ≤ 2 * y := by nlinarith
    rw [abs_le]
    constructor <;> linarith
  · have hlow : f + g ≤ 2 * T := by nlinarith
    have hhigh : 2 * y ≤ f + g := by nlinarith
    rw [abs_le]
    constructor <;> linarith

/-- Both are half of their distance away, but for what `T` and `y` are apart. -/
theorem half_abs_sub_le (hgy : |g - y| ≤ |f - y|) : |f - g| / 2 - |y - T| ≤ |f - T| := by
  have hfg := abs_sub_le f T g
  have hgT := abs_sub_le g y T
  have hfy := abs_sub_le f T y
  rw [abs_sub_comm T g] at hfg
  rw [abs_sub_comm T y] at hfy
  linarith

end Midpoint

/-- **Near an amount in cents there is one number of single precision**, or both that come into
question are more than half a cent away. -/
theorem single_of_near (hc : 0 ≤ c) (hy : |y - c / 100| ≤ c / 100 / 2 ^ 40) :
    single y = single (c / 100) ∨
      1 / 200 < |single y - c / 100| ∧ 1 / 200 < |single (c / 100) - c / 100| := by
  rcases hc.eq_or_lt with rfl | hpos
  · left
    rw [Int.cast_zero, zero_div, zero_div, sub_zero] at hy
    rw [Int.cast_zero, zero_div, abs_nonpos_iff.1 hy]
  have hT : (0 : ℚ) < c / 100 := by positivity
  have hmid := fun j n => hasDigits_of_midpoint (j := j) (n := n) hc
  have hf := hasDigits_toDigits (b := 2) (p := 24) one_lt_two (by norm_num) ((c : ℚ) / 100)
  have hg := hasDigits_toDigits (b := 2) (p := 24) one_lt_two (by norm_num) y
  have hfg := abs_toDigits_sub_le_of_hasDigits one_lt_two (by norm_num) hg ((c : ℚ) / 100)
  have hgf := abs_toDigits_sub_le_of_hasDigits one_lt_two (by norm_num) hf y
  have hfT := abs_single_sub_le ((c : ℚ) / 100)
  have hgy := abs_single_sub_le y
  have hexact : HasDigits 2 24 ((c : ℚ) / 100) → single (c / 100) = c / 100 := fun h =>
    h.toDigits_eq one_lt_two
  change HasDigits 2 24 (single (c / 100)) at hf
  change HasDigits 2 24 (single y) at hg
  change |single (c / 100) - c / 100| ≤ |single y - c / 100| at hfg
  change |single y - y| ≤ |single (c / 100) - y| at hgf
  generalize (c : ℚ) / 100 = T at *
  generalize single T = f at *
  generalize single y = g at *
  rw [abs_of_pos hT] at hfT
  have hyT : |y| ≤ T + T / 2 ^ 40 := by
    have := abs_sub_abs_le_abs_sub y T
    rw [abs_of_pos hT] at this
    linarith
  have hf0 : T - T / 2 ^ 24 ≤ f := by linarith [(abs_le.1 hfT).1]
  have hg0 : T - T / 2 ^ 22 ≤ g := by linarith [(abs_le.1 hgy).1, (abs_le.1 hy).1]
  refine or_iff_not_imp_left.2 fun hne => ?_
  obtain ⟨e, n, m, hn, hm, hmin⟩ := hf.common_unit hg (by linarith) (by linarith)
  have hTunit : T < 2 ^ 25 * (2 : ℚ) ^ e := by
    have : T - T / 2 ^ 22 ≤ min f g := le_min (by linarith) hg0
    linarith
  have hgap := zpow_le_abs_sub hn hm (Ne.symm hne)
  have hhalf : (2 : ℚ) ^ e / 2 - T / 2 ^ 40 ≤ |f - T| := by
    linarith [half_abs_sub_le (T := T) hgf]
  by_cases hlarge : (1 : ℚ) / 64 ≤ 2 ^ e
  · constructor <;> linarith
  -- two such numbers in units below a cent have the amount itself between them
  exfalso
  have hneg : e ≤ -7 := by
    by_contra! h
    have := zpow_le_zpow_right₀ (one_le_two : (1 : ℚ) ≤ 2) (show (-6 : ℤ) ≤ e by omega)
    norm_num at this
    exact hlarge (by linarith)
  obtain ⟨j, rfl⟩ : ∃ j : ℕ, e = -j := ⟨(-e).toNat, by omega⟩
  rw [zpow_neg, zpow_natCast] at hn hm hTunit hhalf
  have hsmall : (2 : ℚ) ^ 7 ≤ 2 ^ j := pow_le_pow_right₀ one_le_two (by omega)
  have hinv : ((2 : ℚ) ^ j)⁻¹ ≤ ((2 : ℚ) ^ 7)⁻¹ := inv_anti₀ (by norm_num) hsmall
  have hdigits := hmid j (n + m) (by linarith) ?_
  · rw [hexact hdigits, sub_self, abs_zero] at hhalf
    linarith
  · have hsum : ((n + m : ℤ) : ℚ) / 2 ^ j = f + g := by
      rw [hn, hm]
      push_cast
      ring
    have hunit' : (1 : ℚ) / 2 ^ (j + 14) = ((2 : ℚ) ^ j)⁻¹ / 2 ^ 14 := by
      rw [pow_add, one_div, mul_inv, div_eq_mul_inv]
    have hboth := abs_two_mul_sub_le (Ne.symm hne) hfg hgf
    rw [hsum, hunit']
    linarith

/-- The rounding to cents: its result is a whole number of cents, and not further away than half a
cent, but for the error of the doubles. -/
theorem truncate_spec (hx : 0 ≤ double x) :
    ∃ k : ℤ, 0 ≤ k ∧ |(k : ℚ) / 100 - double x| ≤ 1 / 200 + 1 / 2 ^ 45 ∧
    |truncate 2 x - k / 100| ≤ k / 100 / 2 ^ 51 := by
  have hfloor := Int.floor_le (double x)
  have hlt := Int.lt_floor_add_one (double x)
  have hn : 0 ≤ ⌊double x⌋ := Int.floor_nonneg.2 hx
  have hn' : (0 : ℚ) ≤ ⌊double x⌋ := by exact_mod_cast hn
  unfold truncate
  dsimp only
  generalize double x = r at *
  generalize ⌊r⌋ = n at *
  have hsub := abs_double_sub_le_of_nonneg (sub_nonneg.2 hfloor)
  have hrest : 0 ≤ double (r - n) := double_nonneg (sub_nonneg.2 hfloor)
  generalize double (r - n) = d at *
  have hfrac := abs_double_sub_le_of_nonneg (x := d * 10 ^ 2) (by positivity)
  have hq : 0 ≤ double (d * 10 ^ 2) := double_nonneg (by positivity)
  generalize double (d * 10 ^ 2) = q at *
  have hk := abs_nearestInt_sub_le q
  have hk0 : 0 ≤ nearestInt q := by
    have := nearestInt_mono hq
    rwa [← Int.cast_zero, nearestInt_intCast] at this
  have hk0' : (0 : ℚ) ≤ nearestInt q := by exact_mod_cast hk0
  generalize nearestInt q = k at *
  have hw := abs_double_sub_le_of_nonneg (x := (k : ℚ) / 10 ^ 2) (by positivity)
  have hw0 : 0 ≤ double ((k : ℚ) / 10 ^ 2) := double_nonneg (by positivity)
  generalize double ((k : ℚ) / 10 ^ 2) = w at *
  have hsum := abs_double_sub_le_of_nonneg (x := n + w) (by linarith)
  generalize double (n + w) = v at *
  refine ⟨100 * n + k, by omega, ?_, ?_⟩
  · push_cast
    rw [abs_le] at *
    constructor <;> linarith
  · push_cast
    rw [abs_le] at *
    constructor <;> linarith

/-- What is nearly an amount in cents is nearly that amount when it has been rounded to cents. -/
theorem truncate_near (hc : 0 ≤ c) (hx : |x - c / 100| ≤ c / 100 / 2 ^ 44) :
    |truncate 2 x - c / 100| ≤ c / 100 / 2 ^ 40 := by
  have hT : (0 : ℚ) ≤ c / 100 := by positivity
  have hdouble := abs_double_sub_le x
  have hx' : |x| ≤ c / 100 + c / 100 / 2 ^ 44 := by
    have := abs_sub_abs_le_abs_sub x (c / 100)
    rw [abs_of_nonneg hT] at this
    linarith
  have hnear : |double x - c / 100| ≤ c / 100 / 2 ^ 43 := by
    have := abs_sub_le (double x) x (c / 100)
    linarith
  obtain ⟨k, hk, hround, htruncate⟩ := truncate_spec (x := x) (by linarith [(abs_le.1 hnear).1])
  by_cases hlarge : (c : ℚ) / 100 < 2 ^ 33
  · -- the same cents
    obtain rfl : k = c := by
      refine eq_of_cents ?_
      have := abs_sub_le ((k : ℚ) / 100) (double x) (c / 100)
      linarith
    linarith
  · have htri := abs_sub_le (truncate 2 x) (k / 100) (c / 100)
    have htri' := abs_sub_le ((k : ℚ) / 100) (double x) (c / 100)
    have hk' : (k : ℚ) / 100 ≤ 2 * (c / 100) := by
      have := (abs_le.1 hround).2
      have := (abs_le.1 hnear).2
      linarith
    linarith

/-- **An amount in cents that is stored, however it was rounded before**: where the column shows it
as it is, it holds the nearest number of single precision; elsewhere it shows something else. -/
theorem store_near (hc : 0 ≤ c) (hx : |x - c / 100| ≤ c / 100 / 2 ^ 44) :
    fixed 2 (store 2 x) = c / 100 ∧ store 2 x = single (c / 100) ∧ Keeps (c / 100) ∨
      fixed 2 (store 2 x) ≠ c / 100 ∧ ¬Keeps (c / 100) := by
  unfold store Keeps
  rcases single_of_near hc (truncate_near hc hx) with heq | ⟨hfar, hfar'⟩
  · rw [heq]
    by_cases hkeeps : fixed 2 (single (c / 100)) = c / 100
    · exact .inl ⟨hkeeps, rfl, hkeeps⟩
    · exact .inr ⟨hkeeps, hkeeps⟩
  · exact .inr ⟨fun h => absurd (abs_sub_le_of_fixed h) (not_le.2 hfar),
      fun h => absurd (abs_sub_le_of_fixed h) (not_le.2 hfar')⟩

/-- All amounts below 131072 are kept. -/
theorem keeps_of_lt (hc : 0 ≤ c) (hlt : (c : ℚ) / 100 < 2 ^ 17) : Keeps (c / 100) := by
  refine fixed_eq_cents ?_
  by_cases hzero : (c : ℚ) / 100 = 0
  · rw [hzero, single, toDigits_zero, sub_zero, abs_zero]
    norm_num
  have herror := abs_toDigits_sub_le (b := 2) (p := 24) one_lt_two ((c : ℚ) / 100)
  have hunit := lastDigit_le_of_abs_lt (p := 24) (k := 17) one_lt_two hzero
    (by rw [abs_of_nonneg (by positivity)]; exact_mod_cast hlt)
  norm_num at hunit
  change |single (c / 100) - c / 100| ≤ _ at herror
  linarith

end Cents

end Rounding
