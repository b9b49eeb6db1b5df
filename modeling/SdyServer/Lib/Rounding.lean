import Mathlib.Algebra.Order.Field.Power
import Mathlib.Algebra.Order.Floor.Ring
import Mathlib.Data.Int.Log
import Mathlib.Data.Rat.Floor
import Mathlib.Tactic.Linarith
import Mathlib.Tactic.Positivity
import Mathlib.Tactic.Ring

/-!
# Rounding to nearest

A number is rounded to the nearest multiple of a unit, and of two that are equally near to the even
one. Numbers with a fixed count of digits round with a unit that goes with the leading digit:
doubles have 53 binary digits, and `%.14g` prints 14 decimal ones. Overflow and underflow are left
out.
-/

namespace Rounding

section Whole

/-- The nearest whole number, the even one of two. -/
def nearestInt (x : ℚ) : ℤ :=
  if x - ⌊x⌋ < 1 / 2 ∨ x - ⌊x⌋ = 1 / 2 ∧ ⌊x⌋ % 2 = 0 then ⌊x⌋ else ⌊x⌋ + 1

variable {x y : ℚ} {n : ℤ}

theorem abs_nearestInt_sub_le (x : ℚ) : |nearestInt x - x| ≤ 1 / 2 := by
  have hfloor := Int.floor_le x
  have hlt := Int.lt_floor_add_one x
  unfold nearestInt
  split_ifs with hdown
  · rw [abs_le]
    rcases hdown with hdown | ⟨hdown, -⟩ <;> constructor <;> linarith
  · rw [not_or, not_lt] at hdown
    push_cast
    rw [abs_le]
    constructor <;> linarith [hdown.1]

theorem nearestInt_eq (h : |x - n| < 1 / 2) : nearestInt x = n := by
  have hnear := abs_nearestInt_sub_le x
  have hlt : |(nearestInt x : ℚ) - n| < 1 := by
    calc |(nearestInt x : ℚ) - n| = |(nearestInt x - x) + (x - n)| := by rw [sub_add_sub_cancel]
      _ ≤ |nearestInt x - x| + |x - n| := abs_add_le _ _
      _ < 1 := by linarith
  rw [← Int.cast_sub, ← Int.cast_abs] at hlt
  have hzero : |nearestInt x - n| < 1 := by exact_mod_cast hlt
  exact sub_eq_zero.1 (Int.abs_lt_one_iff.1 hzero)

@[simp]
theorem nearestInt_intCast (n : ℤ) : nearestInt n = n :=
  nearestInt_eq (by rw [sub_self, abs_zero]; norm_num)

theorem nearestInt_mono (h : x ≤ y) : nearestInt x ≤ nearestInt y := by
  have hfloor := Int.floor_le_floor h
  rcases hfloor.lt_or_eq with hlt | heq
  · -- a step of the floor is as much as rounding can add
    have hx : nearestInt x ≤ ⌊x⌋ + 1 := by unfold nearestInt; split_ifs <;> omega
    have hy : ⌊y⌋ ≤ nearestInt y := by unfold nearestInt; split_ifs <;> omega
    omega
  · unfold nearestInt
    rw [heq]
    split_ifs with hx hy hy
    · exact le_rfl
    · omega
    · rw [not_or, not_lt, not_and'] at hx
      rcases hy with hy | ⟨hy, heven⟩
      · linarith [hx.1]
      · exact absurd (le_antisymm (by linarith) hx.1) (hx.2 heven)
    · exact le_rfl

theorem nearestInt_neg (x : ℚ) : nearestInt (-x) = -nearestInt x := by
  rcases eq_or_ne x ⌊x⌋ with hx | hx
  · rw [hx, ← Int.cast_neg, nearestInt_intCast, nearestInt_intCast]
  have hlt : (⌊x⌋ : ℚ) < x := lt_of_le_of_ne (Int.floor_le x) (Ne.symm hx)
  have hhigh := Int.lt_floor_add_one x
  have hfloor : ⌊-x⌋ = -⌊x⌋ - 1 := by
    rw [Int.floor_eq_iff]
    push_cast
    constructor <;> linarith
  have hrest : -x - ((-⌊x⌋ - 1 : ℤ) : ℚ) = 1 - (x - ⌊x⌋) := by
    push_cast
    ring
  unfold nearestInt
  rw [hfloor, hrest]
  generalize x - (⌊x⌋ : ℚ) = rest
  rcases lt_trichotomy rest (1 / 2) with h | rfl | h
  · rw [if_neg (by rintro (h' | ⟨h', -⟩) <;> linarith), if_pos (Or.inl h)]
    ring
  · by_cases heven : ⌊x⌋ % 2 = 0
    · rw [if_neg (by norm_num; omega), if_pos (Or.inr ⟨rfl, heven⟩)]
      ring
    · rw [if_pos (Or.inr ⟨by norm_num, by omega⟩), if_neg (by norm_num; omega)]
      ring
  · rw [if_pos (Or.inl (by linarith)), if_neg (by rintro (h' | ⟨h', -⟩) <;> linarith)]
    ring

end Whole

section Unit

variable {u x y z : ℚ} {n : ℤ}

/-- The nearest multiple of `u`. -/
def nearest (u x : ℚ) : ℚ := nearestInt (x / u) * u

theorem abs_nearest_sub_le (hu : 0 < u) (x : ℚ) : |nearest u x - x| ≤ u / 2 := by
  have hscale : nearest u x - x = (nearestInt (x / u) - x / u) * u := by
    rw [sub_mul, div_mul_cancel₀ x hu.ne', nearest]
  rw [hscale, abs_mul, abs_of_pos hu]
  calc |nearestInt (x / u) - x / u| * u ≤ 1 / 2 * u :=
        mul_le_mul_of_nonneg_right (abs_nearestInt_sub_le _) hu.le
    _ = u / 2 := by ring

/-- What is nearer to a multiple than half a unit is rounded to it. -/
theorem nearest_eq (hu : 0 < u) (h : |x - n * u| < u / 2) : nearest u x = n * u := by
  have hscale : x / u - n = (x - n * u) / u := by rw [sub_div, mul_div_cancel_right₀ _ hu.ne']
  rw [nearest, nearestInt_eq]
  rw [hscale, abs_div, abs_of_pos hu, div_lt_iff₀ hu]
  linarith

theorem nearest_mul (hu : 0 < u) (n : ℤ) : nearest u (n * u) = n * u :=
  nearest_eq hu (by rw [sub_self, abs_zero]; linarith)

/-- No multiple is nearer. -/
theorem abs_nearest_sub_le_of_mul (hu : 0 < u) (x : ℚ) (n : ℤ) :
    |nearest u x - x| ≤ |n * u - x| := by
  by_contra! hlt
  have hle := abs_nearest_sub_le hu x
  have heq : nearest u x = n * u := nearest_eq hu (by rw [abs_sub_comm]; linarith)
  rw [heq] at hlt
  exact lt_irrefl _ hlt

end Unit

section Digits

variable {b p : ℕ} {x y : ℚ}

/-- The unit of the last of `p` digits to base `b`. -/
def lastDigit (b p : ℕ) (x : ℚ) : ℚ := (b : ℚ) ^ (Int.log b |x| + 1 - p)

/-- The nearest number with `p` digits to base `b`. -/
def toDigits (b p : ℕ) (x : ℚ) : ℚ := nearest (lastDigit b p x) x

theorem lastDigit_pos (hb : 1 < b) (x : ℚ) : 0 < lastDigit b p x :=
  zpow_pos (by exact_mod_cast (Nat.zero_lt_one.trans hb)) _

theorem base_pos (hb : 1 < b) : (0 : ℚ) < b := by exact_mod_cast (Nat.zero_lt_one.trans hb)

theorem pow_mul_lastDigit (hb : 1 < b) (x : ℚ) :
    (b : ℚ) ^ p * lastDigit b p x = (b : ℚ) ^ (Int.log b |x| + 1) := by
  rw [lastDigit, ← zpow_natCast, ← zpow_add₀ (base_pos hb).ne']
  congr 1
  ring

theorem abs_lt_pow_mul_lastDigit (hb : 1 < b) (x : ℚ) : |x| < (b : ℚ) ^ p * lastDigit b p x := by
  rw [pow_mul_lastDigit hb]
  exact Int.lt_zpow_succ_log_self hb _

theorem pow_mul_lastDigit_le (hb : 1 < b) (hx : x ≠ 0) :
    (b : ℚ) ^ p * lastDigit b p x ≤ b * |x| := by
  rw [pow_mul_lastDigit hb, zpow_add_one₀ (base_pos hb).ne', mul_comm]
  have hlog := Int.zpow_log_le_self hb (abs_pos.2 hx)
  have := base_pos hb
  gcongr

@[simp]
theorem toDigits_zero (b p : ℕ) : toDigits b p 0 = 0 := by
  have h : nearestInt (0 / lastDigit b p 0) = 0 := by
    rw [zero_div]
    exact nearestInt_intCast 0
  rw [toDigits, nearest, h, Int.cast_zero, zero_mul]

theorem abs_toDigits_sub_le (hb : 1 < b) (x : ℚ) : |toDigits b p x - x| ≤ lastDigit b p x / 2 :=
  abs_nearest_sub_le (lastDigit_pos hb x) x

/-- The error is at most half a unit of the last digit of `1`, relative to the number. -/
theorem abs_toDigits_sub_le_mul (hb : 1 < b) (x : ℚ) :
    |toDigits b p x - x| ≤ b * |x| / (2 * (b : ℚ) ^ p) := by
  by_cases hx : x = 0
  · simp [hx]
  have hpow : (0 : ℚ) < (b : ℚ) ^ p := pow_pos (base_pos hb) p
  calc |toDigits b p x - x| ≤ lastDigit b p x / 2 := abs_toDigits_sub_le hb x
    _ = (b : ℚ) ^ p * lastDigit b p x / (2 * (b : ℚ) ^ p) := by
        rw [mul_comm 2, mul_div_mul_left _ _ hpow.ne']
    _ ≤ b * |x| / (2 * (b : ℚ) ^ p) := by
        have := pow_mul_lastDigit_le (p := p) hb hx
        gcongr

theorem lastDigit_le_of_abs_lt (hb : 1 < b) (hx : x ≠ 0) {k : ℤ} (h : |x| < (b : ℚ) ^ k) :
    lastDigit b p x ≤ (b : ℚ) ^ (k - p) := by
  have hlog := (Int.lt_zpow_iff_log_lt hb (abs_pos.2 hx)).1 h
  exact zpow_le_zpow_right₀ (by exact_mod_cast hb.le) (by omega)

/-- A number has `p` digits. -/
def HasDigits (b p : ℕ) (x : ℚ) : Prop := ∃ (m k : ℤ), |m| < (b : ℤ) ^ p ∧ x = m * (b : ℚ) ^ k

theorem mul_zpow_of_le (hb : 1 < b) (m : ℤ) {e k : ℤ} (he : e ≤ k) :
    ∃ n : ℤ, (m : ℚ) * (b : ℚ) ^ k = n * (b : ℚ) ^ e := by
  refine ⟨m * (b : ℤ) ^ (k - e).toNat, ?_⟩
  push_cast
  rw [mul_assoc, ← zpow_natCast, ← zpow_add₀ (base_pos hb).ne', Int.toNat_of_nonneg (by omega),
    sub_add_cancel]

/-- A number that has `p` digits is a multiple of its last one. -/
theorem HasDigits.exists_mul (hb : 1 < b) (h : HasDigits b p x) (hx : x ≠ 0) {e : ℤ}
    (he : e ≤ Int.log b |x| + 1 - p) : ∃ n : ℤ, x = n * (b : ℚ) ^ e := by
  obtain ⟨m, k, hm, rfl⟩ := h
  have hb0 := base_pos hb
  have hlt : |(m : ℚ) * (b : ℚ) ^ k| < (b : ℚ) ^ (p + k : ℤ) := by
    rw [abs_mul, abs_of_pos (zpow_pos hb0 k), zpow_add₀ hb0.ne', zpow_natCast]
    have hcast : |(m : ℚ)| < (b : ℚ) ^ p := by exact_mod_cast hm
    exact mul_lt_mul_of_pos_right hcast (zpow_pos hb0 k)
  have hlog := (Int.lt_zpow_iff_log_lt hb (abs_pos.2 hx)).1 hlt
  exact mul_zpow_of_le hb m (by omega)

/-- A number that has `p` digits is not rounded. -/
theorem HasDigits.toDigits_eq (hb : 1 < b) (h : HasDigits b p x) : toDigits b p x = x := by
  by_cases hx : x = 0
  · rw [hx, toDigits_zero]
  obtain ⟨n, hn⟩ := h.exists_mul hb hx le_rfl
  have hnearest := nearest_mul (lastDigit_pos (p := p) hb x) n
  rwa [lastDigit, ← hn] at hnearest

theorem hasDigits_zpow (hb : 1 < b) (hp : p ≠ 0) (k : ℤ) : HasDigits b p ((b : ℚ) ^ k) :=
  ⟨1, k, by rw [abs_one]; exact_mod_cast Nat.one_lt_pow hp hb, by rw [Int.cast_one, one_mul]⟩

theorem HasDigits.neg (h : HasDigits b p x) : HasDigits b p (-x) := by
  obtain ⟨m, k, hm, rfl⟩ := h
  exact ⟨-m, k, by rwa [abs_neg], by push_cast; ring⟩

theorem abs_nearestInt_le {n : ℕ} (h : |x| ≤ n) : |nearestInt x| ≤ n := by
  obtain ⟨hlow, hhigh⟩ := abs_le.1 h
  have hle := nearestInt_mono hhigh
  have hge := nearestInt_mono hlow
  rw [← Int.cast_natCast, nearestInt_intCast] at hle
  rw [← Int.cast_natCast, ← Int.cast_neg, nearestInt_intCast] at hge
  exact abs_le.2 ⟨hge, hle⟩

/-- What is rounded to `p` digits has them. -/
theorem hasDigits_toDigits (hb : 1 < b) (hp : p ≠ 0) (x : ℚ) : HasDigits b p (toDigits b p x) := by
  have hunit := lastDigit_pos (p := p) hb x
  have hsmall : |x / lastDigit b p x| ≤ (b ^ p : ℕ) := by
    rw [abs_div, abs_of_pos hunit, div_le_iff₀ hunit, Nat.cast_pow]
    exact (abs_lt_pow_mul_lastDigit hb x).le
  have hle := abs_nearestInt_le hsmall
  rw [Nat.cast_pow] at hle
  rcases hle.lt_or_eq with hlt | heq
  · exact ⟨_, _, hlt, rfl⟩
  · -- a power of the base has one digit
    have hpower : (b : ℚ) ^ p * lastDigit b p x = (b : ℚ) ^ (Int.log b |x| + 1) :=
      pow_mul_lastDigit hb x
    have hone := hasDigits_zpow hb hp (Int.log b |x| + 1)
    rcases (abs_eq (by positivity)).1 heq with h | h
    · rw [toDigits, nearest, h]
      push_cast
      rwa [hpower]
    · rw [toDigits, nearest, h]
      push_cast
      rw [neg_mul, hpower]
      exact hone.neg

/-- **No number with `p` digits is nearer.** -/
theorem abs_toDigits_sub_le_of_hasDigits (hb : 1 < b) (hp : p ≠ 0) (hy : HasDigits b p y) (x : ℚ) :
    |toDigits b p x - x| ≤ |y - x| := by
  by_cases hx : x = 0
  · simp [hx]
  have hb0 := base_pos hb
  by_cases hsmall : |y| < (b : ℚ) ^ Int.log b |x|
  · -- the power in between is a multiple of the unit of `x`
    have hlog := Int.zpow_log_le_self hb (abs_pos.2 hx)
    have hpower : ∃ n : ℤ, n * lastDigit b p x = (b : ℚ) ^ Int.log b |x| := by
      obtain ⟨n, hn⟩ := mul_zpow_of_le hb 1 (show Int.log b |x| + 1 - p ≤ Int.log b |x| by omega)
      exact ⟨n, by rw [lastDigit, ← hn, Int.cast_one, one_mul]⟩
    obtain ⟨n, hn⟩ := hpower
    have hnear : ∃ m : ℤ, |m * lastDigit b p x - x| = |x| - (b : ℚ) ^ Int.log b |x| := by
      rcases abs_cases x with ⟨habs, -⟩ | ⟨habs, -⟩
      · exact ⟨n, by rw [hn, abs_sub_comm, abs_of_nonneg (by linarith), habs]⟩
      · refine ⟨-n, ?_⟩
        rw [Int.cast_neg, neg_mul, hn, abs_of_nonneg (by linarith)]
        linarith
    obtain ⟨m, hm⟩ := hnear
    calc |toDigits b p x - x| ≤ |m * lastDigit b p x - x| :=
          abs_nearest_sub_le_of_mul (lastDigit_pos hb x) x m
      _ ≤ |x| - |y| := by rw [hm]; linarith
      _ ≤ |y - x| := by rw [abs_sub_comm]; exact abs_sub_abs_le_abs_sub x y
  · rw [not_lt] at hsmall
    have hy0 : y ≠ 0 := by
      rintro rfl
      rw [abs_zero] at hsmall
      exact absurd hsmall (not_le.2 (zpow_pos hb0 _))
    have hlog := (Int.zpow_le_iff_le_log hb (abs_pos.2 hy0)).1 hsmall
    obtain ⟨n, hn⟩ :=
      hy.exists_mul hb hy0 (show Int.log b |x| + 1 - p ≤ Int.log b |y| + 1 - p by omega)
    rw [hn]
    exact abs_nearest_sub_le_of_mul (lastDigit_pos hb x) x n

variable {z z' : ℚ}

theorem le_middle (hlt : z < z') (h : |z' - x| ≤ |z - x|) : z + z' ≤ 2 * x := by
  have hsquare := sq_le_sq.2 h
  by_contra! hmiddle
  nlinarith [mul_pos (sub_pos.2 hlt) (sub_pos.2 hmiddle)]

/-- **Rounding keeps the order.** -/
theorem toDigits_mono (hb : 1 < b) (hp : p ≠ 0) (h : x ≤ y) : toDigits b p x ≤ toDigits b p y := by
  by_contra! hlt
  -- each would be as near to what the other one is rounded to, so both would lie in the middle
  have hx := le_middle hlt (abs_toDigits_sub_le_of_hasDigits hb hp (hasDigits_toDigits hb hp y) x)
  have hy := abs_toDigits_sub_le_of_hasDigits hb hp (hasDigits_toDigits hb hp x) y
  have hy' : -toDigits b p x + -toDigits b p y ≤ 2 * -y := by
    refine le_middle (neg_lt_neg hlt) ?_
    rwa [neg_sub_neg, neg_sub_neg, abs_sub_comm y, abs_sub_comm y]
  have hsame : x = y := by linarith
  rw [hsame] at hlt
  exact lt_irrefl _ hlt

theorem hasDigits_intCast {n : ℤ} (hn : |n| < (b : ℤ) ^ p) : HasDigits b p n :=
  ⟨n, 0, hn, by rw [zpow_zero, mul_one]⟩

theorem hasDigits_div_pow {n : ℤ} (hn : |n| < (b : ℤ) ^ p) (k : ℕ) :
    HasDigits b p (n / (b : ℚ) ^ k) :=
  ⟨n, -k, hn, by rw [zpow_neg, zpow_natCast, div_eq_mul_inv]⟩

/-- A number with `p` digits that is small enough is a count of a small unit. -/
theorem HasDigits.exists_unit (hb : 1 < b) (h : HasDigits b p x) (hx : x ≠ 0) {k : ℕ}
    (hlt : |x| < (b : ℚ) ^ ((p : ℤ) - k)) :
    ∃ (e : ℕ) (m : ℤ), k ≤ e ∧ x = m / (b : ℚ) ^ e ∧ |m| < (b : ℤ) ^ p := by
  have hlog := (Int.lt_zpow_iff_log_lt hb (abs_pos.2 hx)).1 hlt
  have hpow : (b : ℚ) ^ (Int.log b |x| + 1 - p) = 1 / (b : ℚ) ^ (p - 1 - Int.log b |x|).toNat := by
    rw [one_div, ← zpow_natCast, ← zpow_neg, Int.toNat_of_nonneg (by omega)]
    congr 1
    ring
  obtain ⟨m, hm⟩ := h.exists_mul hb hx le_rfl
  have hsize := abs_lt_pow_mul_lastDigit (p := p) hb x
  have hunit := lastDigit_pos (p := p) hb x
  have habs : |x| = |(m : ℚ)| * lastDigit b p x := by
    rw [← abs_of_pos hunit, ← abs_mul]
    exact congrArg abs hm
  refine ⟨(p - 1 - Int.log b |x|).toNat, m, by omega, ?_, ?_⟩
  · rw [← mul_one_div, ← hpow]
    exact hm
  · rw [habs] at hsize
    have hcast := lt_of_mul_lt_mul_right hsize hunit.le
    exact_mod_cast hcast

/-- Taking off a whole number leaves the digits. -/
theorem HasDigits.sub_intCast (hb : 1 < b) (h : HasDigits b p x)
    (hx : x < (b : ℚ) ^ (p : ℤ)) {n : ℤ}
    (hn : 0 ≤ n) (hle : n ≤ x) : HasDigits b p (x - n) := by
  have hn' : (0 : ℚ) ≤ n := by exact_mod_cast hn
  have hnonneg : 0 ≤ x := hn'.trans hle
  by_cases hzero : x = 0
  · have hnzero : (n : ℚ) = 0 := le_antisymm (hzero ▸ hle) hn'
    rwa [hnzero, sub_zero]
  obtain ⟨e, m, -, rfl, hm⟩ := h.exists_unit hb hzero (k := 0)
    (by rwa [Nat.cast_zero, sub_zero, abs_of_nonneg hnonneg])
  have hpow : (0 : ℚ) < (b : ℚ) ^ e := pow_pos (base_pos hb) e
  have hdiff : (m : ℚ) / (b : ℚ) ^ e - n = ((m - n * (b : ℤ) ^ e : ℤ) : ℚ) / (b : ℚ) ^ e := by
    push_cast
    rw [sub_div, mul_div_cancel_right₀ _ hpow.ne']
  have hpowInt : (0 : ℤ) ≤ (b : ℤ) ^ e := by positivity
  have hlow : n * (b : ℤ) ^ e ≤ m := by
    rw [le_div_iff₀ hpow] at hle
    exact_mod_cast hle
  rw [hdiff]
  refine hasDigits_div_pow ?_ e
  have := mul_nonneg hn hpowInt
  rw [abs_lt] at hm ⊢
  omega

end Digits

section Formats

/-- A number as a double holds it. -/
def double (x : ℚ) : ℚ := toDigits 2 53 x

/-- A number in single precision. -/
def single (x : ℚ) : ℚ := toDigits 2 24 x

/-- `%.14g`, as a number. -/
def general (x : ℚ) : ℚ := toDigits 10 14 x

/-- `%.df`, as a number. -/
def fixed (d : ℕ) (x : ℚ) : ℚ := nearest (1 / 10 ^ d) x

theorem abs_double_sub_le (x : ℚ) : |double x - x| ≤ |x| / 2 ^ 53 := by
  have h := abs_toDigits_sub_le_mul (b := 2) (p := 53) one_lt_two x
  rwa [Nat.cast_ofNat, mul_div_mul_left _ _ two_ne_zero] at h

theorem abs_double_sub_le_of_nonneg {x : ℚ} (hx : 0 ≤ x) : |double x - x| ≤ x / 2 ^ 53 := by
  have h := abs_double_sub_le x
  rwa [abs_of_nonneg hx] at h

theorem double_mono {x y : ℚ} (h : x ≤ y) : double x ≤ double y :=
  toDigits_mono one_lt_two (by norm_num) h

theorem double_of_hasDigits {x : ℚ} (hx : HasDigits 2 53 x) : double x = x :=
  hx.toDigits_eq one_lt_two

theorem double_intCast {n : ℤ} (hn : |n| < 2 ^ 53) : double n = n :=
  double_of_hasDigits (hasDigits_intCast (b := 2) hn)

theorem double_le_intCast {x : ℚ} {n : ℤ} (hn : |n| < 2 ^ 53) (h : x ≤ n) : double x ≤ n :=
  (double_mono h).trans_eq (double_intCast hn)

theorem double_eq_zero_iff {x : ℚ} : double x = 0 ↔ x = 0 := by
  constructor
  · intro hzero
    have hnear := abs_double_sub_le x
    rw [hzero, zero_sub, abs_neg] at hnear
    have hnonneg := abs_nonneg x
    exact abs_eq_zero.1 (by linarith)
  · rintro rfl
    exact toDigits_zero 2 53

theorem double_nonneg {x : ℚ} (hx : 0 ≤ x) : 0 ≤ double x := by
  have := (abs_le.1 (abs_double_sub_le_of_nonneg hx)).1
  linarith

theorem abs_single_sub_le (x : ℚ) : |single x - x| ≤ |x| / 2 ^ 24 := by
  have h := abs_toDigits_sub_le_mul (b := 2) (p := 24) one_lt_two x
  rwa [Nat.cast_ofNat, mul_div_mul_left _ _ two_ne_zero] at h

theorem abs_general_sub_le (x : ℚ) : |general x - x| ≤ |x| / (2 * 10 ^ 13) := by
  have h := abs_toDigits_sub_le_mul (b := 10) (p := 14) (by norm_num) x
  have hunit : ((10 : ℕ) : ℚ) * |x| / (2 * ((10 : ℕ) : ℚ) ^ 14) = |x| / (2 * 10 ^ 13) := by
    rw [Nat.cast_ofNat, pow_succ, ← mul_assoc, mul_comm _ (10 : ℚ),
      mul_div_mul_left _ _ (by norm_num)]
  rwa [hunit] at h

end Formats

section Cents

variable {x y : ℚ}

/-- The cents of `%.2f`. -/
def toCents (x : ℚ) : ℤ := nearestInt (x * 100)

theorem toCents_div (n : ℤ) : toCents (n / 100) = n := by
  rw [toCents, div_mul_cancel₀ _ (by norm_num)]
  exact nearestInt_intCast n

theorem toCents_near {n : ℤ} (h : |x - n / 100| < 1 / 200) : toCents x = n := by
  have hscale : x * 100 - n = (x - n / 100) * 100 := by ring
  rw [toCents, nearestInt_eq]
  rw [hscale, abs_mul, abs_of_pos (by norm_num : (0 : ℚ) < 100)]
  linarith

theorem toCents_neg (x : ℚ) : toCents (-x) = -toCents x := by
  rw [toCents, neg_mul, nearestInt_neg, toCents]

theorem toCents_mono (h : x ≤ y) : toCents x ≤ toCents y := nearestInt_mono (by linarith)

theorem abs_sub_toCents_le (x : ℚ) : |x - toCents x / 100| ≤ 1 / 200 := by
  have h := abs_nearestInt_sub_le (x * 100)
  have hscale : x - toCents x / 100 = -(toCents x - x * 100) / 100 := by ring
  rw [hscale, abs_div, abs_neg, abs_of_pos (by norm_num : (0 : ℚ) < 100), toCents]
  linarith

/-- An amount that is whole cents up to an error, and bounded. -/
structure NearCents (err size x : ℚ) : Prop where
  near : |x - toCents x / 100| ≤ err
  size : |x| ≤ size

variable {err err' size size' : ℚ}

theorem NearCents.of_near {n : ℤ} (hnear : |x - n / 100| ≤ err) (herr : err < 1 / 200)
    (hsize : |x| ≤ size) : toCents x = n ∧ NearCents err size x := by
  have hcents : toCents x = n := toCents_near (hnear.trans_lt herr)
  exact ⟨hcents, by rwa [hcents], hsize⟩

theorem NearCents.mono (h : NearCents err size x) (herr : err ≤ err') (hsize : size ≤ size') :
    NearCents err' size' x := ⟨h.near.trans herr, h.size.trans hsize⟩

theorem NearCents.intCast {n : ℤ} (herr : 0 ≤ err) (hsize : |(n : ℚ)| ≤ size) :
    toCents n = 100 * n ∧ NearCents err size n := by
  have hscale : ((100 * n : ℤ) : ℚ) / 100 = n := by push_cast; ring
  have hcents : toCents n = 100 * n := by
    conv_lhs => rw [← hscale]
    exact toCents_div _
  exact ⟨hcents, by rw [hcents, hscale, sub_self, abs_zero]; exact herr, hsize⟩

/-- The cents of two amounts add up, as long as the errors stay small. -/
theorem NearCents.add {round : ℚ → ℚ} (hround : ∀ x, |round x - x| ≤ |x| / 2 ^ 53)
    (hx : NearCents err size x) (hy : NearCents err' size' y)
    (herr : err + err' + (size + size') / 2 ^ 53 < 1 / 200) :
    toCents (round (x + y)) = toCents x + toCents y ∧
      NearCents (err + err' + (size + size') / 2 ^ 53) (size + size' + (size + size') / 2 ^ 53)
        (round (x + y)) := by
  have hsum : |x + y| ≤ size + size' := (abs_add_le x y).trans (add_le_add hx.size hy.size)
  have hrounded : |round (x + y) - (x + y)| ≤ (size + size') / 2 ^ 53 :=
    (hround _).trans (by gcongr)
  refine NearCents.of_near ?_ herr ?_
  · have hsplit : round (x + y) - (toCents x + toCents y : ℤ) / 100 =
        (x - toCents x / 100) + (y - toCents y / 100) + (round (x + y) - (x + y)) := by
      push_cast
      ring
    rw [hsplit]
    exact (abs_add_three _ _ _).trans (add_le_add (add_le_add hx.near hy.near) hrounded)
  · calc |round (x + y)| = |(x + y) + (round (x + y) - (x + y))| := by ring_nf
      _ ≤ |x + y| + |round (x + y) - (x + y)| := abs_add_le _ _
      _ ≤ _ := add_le_add hsum hrounded

end Cents

end Rounding
