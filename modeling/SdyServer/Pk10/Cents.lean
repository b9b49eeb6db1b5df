import SdyServer.Pk10.ResultSum
import SdyServer.User.Booking

/-!
# Shares and commissions in doubles

The shares of a door are cut at cents, added up and handed on as doubles. As long as the number of
bets times the coins at stake stays far below `2 ^ 53`, every amount is so near to whole cents that
the cents add up as if the arithmetic was exact.

A commission of a twentieth and what is left of the win round to cents that add up to the win,
unless the win is an odd number of ten cents. Then both lie in the middle of two cents, and the last
digits of the doubles decide which way each is rounded.
-/

namespace SdyServer.Pk10

open Rounding

section Shares

variable {coinChange userTotalBet stake : ℤ} {bets : ℕ}

/-- What a player is given on one door, out of `bets` bets of at most `stake` coins together. -/
abbrev NearShare (bets : ℕ) (stake : ℤ) (x : ℚ) : Prop :=
  NearCents (bets * (6 * stake / 2 ^ 53)) (5 * stake) x

def sumCents (shares : List Share) : ℤ := (shares.map fun share => toCents share.coinChange).sum

def staked (people : List (Uid × Int)) : ℤ := (people.map fun entry => |entry.2|).sum

theorem staked_cons (entry : Uid × Int) (people : List (Uid × Int)) :
    staked (entry :: people) = |entry.2| + staked people := List.sum_cons

theorem staked_nonneg (people : List (Uid × Int)) : 0 ≤ staked people :=
  List.sum_nonneg (List.forall_mem_map.mpr fun entry _ => abs_nonneg entry.2)

theorem abs_sum_le_staked (people : List (Uid × Int)) :
    |(people.map Prod.snd).sum| ≤ staked people := by
  induction people with
  | nil => exact le_rfl
  | cons entry people ih =>
      rw [List.map_cons, List.sum_cons, staked_cons]
      exact (abs_add_le _ _).trans (by omega)

theorem abs_double_le (x : ℚ) : |double x| ≤ 11 / 10 * |x| := by
  have hnear := abs_double_sub_le x
  have hsize : |double x| ≤ |double x - x| + |x| := by
    have h := abs_add_le (double x - x) x
    rwa [sub_add_cancel] at h
  have hnonneg := abs_nonneg x
  linarith

/-- A share that is cut at cents is at most twice the bet. -/
theorem abs_floor_part_le (hwithin : |coinChange| ≤ userTotalBet) (hpos : 0 < userTotalBet)
    (betValue : ℤ) :
    |⌊double (double (coinChange * double (betValue / userTotalBet)) * 100)⌋| ≤
    200 * |betValue| := by
  have hpos' : (0 : ℚ) < userTotalBet := by exact_mod_cast hpos
  have hwithin' : |(coinChange : ℚ)| ≤ userTotalBet := by exact_mod_cast hwithin
  have hratio := abs_double_le (betValue / userTotalBet)
  have hpart := abs_double_le (coinChange * double (betValue / userTotalBet))
  have hcents := abs_double_le (double (coinChange * double (betValue / userTotalBet)) * 100)
  rw [abs_div, abs_of_pos hpos'] at hratio
  rw [abs_mul] at hpart hcents
  rw [abs_of_pos (by norm_num : (0 : ℚ) < 100)] at hcents
  have hproduct : |(coinChange : ℚ)| * |double (betValue / userTotalBet)| ≤
      11 / 10 * |(betValue : ℚ)| := by
    calc |(coinChange : ℚ)| * |double (betValue / userTotalBet)|
        ≤ userTotalBet * (11 / 10 * (|(betValue : ℚ)| / userTotalBet)) := by gcongr
      _ = 11 / 10 * |(betValue : ℚ)| := by
          rw [mul_left_comm, mul_div_cancel₀ _ hpos'.ne']
  generalize double (double (coinChange * double (betValue / userTotalBet)) * 100) = x at hcents ⊢
  have hsize : |x| ≤ 150 * |(betValue : ℚ)| := by
    have hnonneg := abs_nonneg (betValue : ℚ)
    linarith
  by_cases hzero : betValue = 0
  · rw [hzero, Int.cast_zero, abs_zero, mul_zero] at hsize
    simp [abs_nonpos_iff.mp hsize, hzero]
  · have hone : (1 : ℚ) ≤ |(betValue : ℚ)| := by exact_mod_cast Int.one_le_abs hzero
    have hlow := Int.floor_le x
    have hhigh := Int.lt_floor_add_one x
    obtain ⟨hxlow, hxhigh⟩ := abs_le.mp hsize
    have hfloor : |(⌊x⌋ : ℚ)| ≤ 200 * |(betValue : ℚ)| := abs_le.mpr ⟨by linarith, by linarith⟩
    exact_mod_cast hfloor

/-- A number of cents as a double. -/
theorem double_cents {n : ℤ} (hn : |(n : ℚ)| ≤ 200 * 2 ^ 34) :
    toCents (double (n / 100)) = n ∧ |double (n / 100) - n / 100| ≤ |(n : ℚ)| / 100 / 2 ^ 53 := by
  have hnear := abs_double_sub_le ((n : ℚ) / 100)
  rw [abs_div, abs_of_pos (by norm_num : (0 : ℚ) < 100)] at hnear
  refine ⟨toCents_near (hnear.trans_lt ?_), hnear⟩
  calc |(n : ℚ)| / 100 / 2 ^ 53 ≤ 200 * 2 ^ 34 / 100 / 2 ^ 53 := by gcongr
    _ < 1 / 200 := by norm_num

/-- So few bets and coins that doubles keep the cents. -/
structure Moderate (bets : ℕ) (stake : ℤ) : Prop where
  one : 1 ≤ stake
  large : stake ≤ 2 ^ 34
  product : bets * stake ≤ 2 ^ 34

theorem Moderate.error_le (hmoderate : Moderate bets stake) {i : ℕ} (hi : i ≤ bets) :
    (i : ℚ) * (6 * stake / 2 ^ 53) ≤ bets * (6 * stake / 2 ^ 53) ∧
      (bets : ℚ) * (6 * stake / 2 ^ 53) ≤ 1 / 80000 := by
  have hone : (1 : ℚ) ≤ stake := by exact_mod_cast hmoderate.one
  have hproduct : (bets : ℚ) * stake ≤ 2 ^ 34 := by exact_mod_cast hmoderate.product
  have hi' : (i : ℚ) ≤ bets := by exact_mod_cast hi
  refine ⟨by gcongr, ?_⟩
  calc (bets : ℚ) * (6 * stake / 2 ^ 53) = bets * stake * (6 / 2 ^ 53) := by ring
    _ ≤ 2 ^ 34 * (6 / 2 ^ 53) := by gcongr
    _ ≤ 1 / 80000 := by norm_num

/-- What `i` players of a door were given, who have bet `size` coins: the sum in doubles, and its
cents. -/
structure Paid (stake : ℤ) (i : ℕ) (size paid : ℤ) (betSum : ℚ) : Prop where
  near : |betSum - paid / 100| ≤ i * (6 * stake / 2 ^ 53)
  cents : |paid| ≤ 200 * size

theorem Paid.abs_le {i : ℕ} {size paid : ℤ} {betSum : ℚ} (hpaid : Paid stake i size paid betSum)
    (hmoderate : Moderate bets stake) (hi : i ≤ bets) : |betSum| ≤ 2 * size + 1 / 80000 := by
  obtain ⟨herror, hsmall⟩ := hmoderate.error_le hi
  have hnear := hpaid.near
  have hcents : |(paid : ℚ)| ≤ 200 * size := by exact_mod_cast hpaid.cents
  have h := abs_add_le (betSum - paid / 100) (paid / 100)
  rw [sub_add_cancel, abs_div, abs_of_pos (by norm_num : (0 : ℚ) < 100)] at h
  linarith

theorem Paid.next {i : ℕ} {size paid : ℤ} {betSum : ℚ} (hpaid : Paid stake i size paid betSum)
    (hmoderate : Moderate bets stake) (hi : i + 1 ≤ bets) {betValue cents : ℤ}
    (hcents : |cents| ≤ 200 * |betValue|) (hsize : size + |betValue| ≤ stake) (hnonneg : 0 ≤ size) :
    Paid stake (i + 1) (size + |betValue|) (paid + cents) (double (betSum + double (cents / 100))) ∧
      toCents (double (cents / 100)) = cents ∧ NearShare bets stake (double (cents / 100)) := by
  obtain ⟨herror, hsmall⟩ := hmoderate.error_le hi
  have hstake : (1 : ℚ) ≤ stake := by exact_mod_cast hmoderate.one
  have hsize' : (size : ℚ) + |(betValue : ℚ)| ≤ stake := by exact_mod_cast hsize
  have hnonneg' : (0 : ℚ) ≤ size := by exact_mod_cast hnonneg
  have hcents' : |(cents : ℚ)| ≤ 200 * |(betValue : ℚ)| := by exact_mod_cast hcents
  have hlarge : (stake : ℚ) ≤ 2 ^ 34 := by exact_mod_cast hmoderate.large
  obtain ⟨hchange, hnear⟩ := double_cents (n := cents) (by linarith)
  have hunit : 0 ≤ (i : ℚ) * (6 * stake / 2 ^ 53) := by positivity
  rw [Nat.cast_add, Nat.cast_one, add_mul, one_mul] at herror
  have hbet := abs_nonneg (betValue : ℚ)
  have hshare : |double (cents / 100)| ≤ 2 * |(betValue : ℚ)| + 1 / 1000 := by
    have h := abs_add_le (double (cents / 100) - cents / 100) (cents / 100)
    rw [sub_add_cancel, abs_div, abs_of_pos (by norm_num : (0 : ℚ) < 100)] at h
    linarith
  refine ⟨⟨?_, ?_⟩, hchange, by rw [hchange]; linarith, by linarith⟩
  · have hsum := hpaid.abs_le hmoderate (Nat.le_of_succ_le hi)
    have hbefore := hpaid.near
    have htotal := abs_add_le betSum (double (cents / 100))
    have hrounded := abs_double_sub_le (betSum + double (cents / 100))
    have hsplit : double (betSum + double (cents / 100)) - (paid + cents : ℤ) / 100 =
        (double (betSum + double (cents / 100)) - (betSum + double (cents / 100))) +
          (betSum - paid / 100) + (double (cents / 100) - cents / 100) := by
      push_cast
      ring
    have h := abs_add_three (double (betSum + double (cents / 100)) -
      (betSum + double (cents / 100))) (betSum - paid / 100) (double (cents / 100) - cents / 100)
    rw [hsplit, Nat.cast_add, Nat.cast_one, add_mul, one_mul]
    linarith
  · have h := abs_add_le paid cents
    have := hpaid.cents
    linarith

/-- The last player takes what is left. -/
theorem Paid.last {i : ℕ} {size paid : ℤ} {betSum : ℚ} (hpaid : Paid stake i size paid betSum)
    (hmoderate : Moderate bets stake) (hi : i + 1 ≤ bets) (hchange : |coinChange| ≤ stake)
    (hsize : size ≤ stake) :
    toCents (double (coinChange - betSum)) = 100 * coinChange - paid ∧
      NearShare bets stake (double (coinChange - betSum)) := by
  obtain ⟨herror, hsmall⟩ := hmoderate.error_le hi
  rw [Nat.cast_add, Nat.cast_one, add_mul, one_mul] at herror
  have hone : (1 : ℚ) ≤ stake := by exact_mod_cast hmoderate.one
  have hchange' : |(coinChange : ℚ)| ≤ stake := by exact_mod_cast hchange
  have hsize' : (size : ℚ) ≤ stake := by exact_mod_cast hsize
  have hbefore := hpaid.near
  have hsum := hpaid.abs_le hmoderate (Nat.le_of_succ_le hi)
  have hleft : |(coinChange : ℚ) - betSum| ≤ 4 * stake := by
    have h := abs_sub (coinChange : ℚ) betSum
    linarith
  have hrounded := abs_double_sub_le ((coinChange : ℚ) - betSum)
  refine NearCents.of_near ?_ (by linarith) ?_
  · have hsplit : double (coinChange - betSum) - (100 * coinChange - paid : ℤ) / 100 =
        (double (coinChange - betSum) - (coinChange - betSum)) - (betSum - paid / 100) := by
      push_cast
      ring
    have h := abs_sub (double (coinChange - betSum) - (coinChange - betSum)) (betSum - paid / 100)
    rw [← hsplit] at h
    linarith
  · have h := abs_double_le ((coinChange : ℚ) - betSum)
    linarith

theorem proportionalShares_cons_cons (round : ℚ → ℚ) (betSum : ℚ) (entry next : Uid × Int)
    (people : List (Uid × Int)) :
    proportionalShares round coinChange userTotalBet betSum (entry :: next :: people) =
      let change := round
        (⌊round (round (coinChange * round (entry.2 / userTotalBet)) * 100)⌋ / 100)
      ⟨entry.1, entry.2, change⟩ ::
        proportionalShares round coinChange userTotalBet (round (betSum + change))
            (next :: people) :=
  rfl

/-- **The shares of a door in doubles.** Their cents add up to the change, and each is nearly whole
cents. -/
theorem proportionalShares_cents (hwithin : |coinChange| ≤ userTotalBet) (hpos : 0 < userTotalBet)
    (hmoderate : Moderate bets stake) (hchange : |coinChange| ≤ stake) {people : List (Uid × Int)}
    (hne : people ≠ []) {i : ℕ} {size paid : ℤ} {betSum : ℚ} (hpaid : Paid stake i size paid betSum)
    (hnonneg : 0 ≤ size) (hsize : size + staked people ≤ stake)
    (hcount : i + people.length ≤ bets) :
    sumCents (proportionalShares double coinChange userTotalBet betSum people) =
        100 * coinChange - paid ∧
      ∀ share ∈ proportionalShares double coinChange userTotalBet betSum people,
        NearShare bets stake share.coinChange := by
  induction people generalizing i size paid betSum with
  | nil => exact absurd rfl hne
  | cons entry people ih =>
      rw [staked_cons] at hsize
      rw [List.length_cons] at hcount
      have hbet := abs_nonneg entry.2
      have hrest := staked_nonneg people
      cases people with
      | nil =>
          obtain ⟨hcents, hshare⟩ := hpaid.last hmoderate (by omega) hchange (by omega)
          refine ⟨by simpa [proportionalShares, sumCents] using hcents, fun share hmem => ?_⟩
          rw [proportionalShares, List.mem_singleton] at hmem
          rw [hmem]
          exact hshare
      | cons next people =>
          obtain ⟨hnext, hcents, hshare⟩ := hpaid.next hmoderate (by omega)
            (abs_floor_part_le hwithin hpos entry.2) (by omega) hnonneg
          obtain ⟨hsum, hall⟩ := ih (List.cons_ne_nil _ _) hnext (by omega) (by omega) (by omega)
          rw [proportionalShares_cons_cons]
          refine ⟨?_, List.forall_mem_cons.mpr ⟨hshare, hall⟩⟩
          rw [sumCents, List.map_cons, List.sum_cons, ← sumCents, hsum, hcents]
          ring

/-- What the players of a door are given. -/
structure DoorPaid (bets : ℕ) (stake coinChange : ℤ) (people : List (Uid × Int))
    (shares : List Share) : Prop where
  uids : shares.map Share.uid = people.map Prod.fst
  sum : sumCents shares = 100 * coinChange
  near : ∀ share ∈ shares, NearShare bets stake share.coinChange

theorem map_uid_proportionalShares (round : ℚ → ℚ) (betSum : ℚ) (people : List (Uid × Int)) :
    (proportionalShares round coinChange userTotalBet betSum people).map Share.uid =
      people.map Prod.fst := by
  fun_induction proportionalShares round coinChange userTotalBet betSum people with
  | case1 => rfl
  | case2 => rfl
  | case3 _ uid _ people _ part change ih => rw [List.map_cons, List.map_cons, ih]

/-- Whole bets are whole coins. -/
theorem doorPaid_map {people : List (Uid × Int)} {f : Int → Int} (hmoderate : Moderate bets stake)
    (hsize : staked people ≤ stake) (hf : ∀ bet, |f bet| ≤ |bet|)
    (hsum : (people.map fun entry => f entry.2).sum = coinChange) :
    DoorPaid bets stake coinChange people
    (people.map fun entry => ⟨entry.1, entry.2, f entry.2⟩) := by
  have hone := hmoderate.one
  have hunit : (0 : ℚ) ≤ bets * (6 * stake / 2 ^ 53) := by
    have : (1 : ℚ) ≤ stake := by exact_mod_cast hone
    positivity
  have hcents : ∀ n : Int, toCents n = 100 * n := fun n => (NearCents.intCast le_rfl le_rfl).1
  refine ⟨?_, ?_, List.forall_mem_map.mpr fun entry hentry => ?_⟩
  · rw [List.map_map]
    rfl
  · rw [sumCents, List.map_map, ← hsum, ← List.sum_map_mul_left]
    simp only [Function.comp_def, hcents]
  · refine (NearCents.intCast hunit ?_).2
    have hle : |entry.2| ≤ staked people :=
      List.single_le_sum (List.forall_mem_map.mpr fun e _ => abs_nonneg e.2) _
        (List.mem_map_of_mem (f := fun entry : Uid × Int => |entry.2|) hentry)
    have hbound : |f entry.2| ≤ 5 * stake := by
      have := hf entry.2
      omega
    exact_mod_cast hbound

theorem doorPaid_whole {people : List (Uid × Int)} {total : Int} (hmoderate : Moderate bets stake)
    (hsize : staked people ≤ stake) (htotal : (people.map Prod.snd).sum = total)
    (hall : total = |coinChange|) :
    DoorPaid bets stake coinChange people (people.map fun entry =>
      ⟨entry.1, entry.2, if coinChange ≥ 0 then entry.2 else -entry.2⟩) := by
  have hwhole := @doorPaid_map coinChange _ _ people
    (fun bet => if coinChange ≥ 0 then bet else -bet) hmoderate hsize (fun bet => ?_) ?_
  · simpa only [Int.cast_ite, Int.cast_neg] using hwhole
  · split_ifs
    · exact le_rfl
    · exact (abs_neg bet).le
  · split_ifs with hsign
    · rw [htotal, hall, abs_of_nonneg hsign]
    · rw [sum_map_neg Prod.snd, htotal, hall, abs_of_neg (not_le.mp hsign), neg_neg]

/-- **The players of a door share what the door wins or loses**, in doubles as well. -/
theorem doorShares_paid {info : Info} {people : List (Uid × Int)} {shares : List Share}
    (hok : doorShares double coinChange info.totalBet people = .ok shares)
    (hbounded : Bounded (info, coinChange))
    (hsync : (people.map Prod.snd).sum = info.totalBet.getD 0) (hmoderate : Moderate bets stake)
    (hsize : staked people ≤ stake) (hcount : people.length ≤ bets) :
    DoorPaid bets stake coinChange people shares := by
  obtain ⟨hwithin, hnegative⟩ := hbounded
  simp only at hwithin hnegative
  by_cases hempty : people = []
  · simp only [doorShares, if_pos hempty] at hok
    cases hok
    rw [hempty] at hsync
    have hzero : coinChange = 0 := by
      rw [← hsync] at hwithin
      exact abs_nonpos_iff.mp (hwithin (le_refl _))
    exact ⟨by rw [hempty]; rfl, by rw [hzero]; rfl,
      fun share hshare => absurd hshare List.not_mem_nil⟩
  · cases htotal : info.totalBet with
    | none => simp [doorShares, hempty, htotal] at hok
    | some total =>
        simp only [htotal, Option.getD_some] at hsync hwithin hnegative
        simp only [doorShares, if_neg hempty, htotal] at hok
        by_cases hall : total = |coinChange|
        · rw [if_pos hall] at hok
          cases hok
          exact doorPaid_whole hmoderate hsize hsync hall
        · rw [if_neg hall] at hok
          have hmore : total > |coinChange| := by
            -- No door exceeds its stake, so what would be left is a stake below zero.
            by_contra hnot
            rcases le_or_gt 0 total with hpos | hneg
            · exact absurd (hwithin hpos) (by omega)
            · have hzero := hnegative hneg
              rw [if_neg hnot, if_pos (by omega)] at hok
              cases hok
          rw [if_pos hmore] at hok
          cases hok
          have htotal : total ≤ staked people := by
            rw [← hsync]
            exact (le_abs_self _).trans (abs_sum_le_staked people)
          have hfirst : Paid stake 0 0 0 0 := ⟨by simp, by simp⟩
          have hchange := abs_nonneg coinChange
          obtain ⟨hsum, hnear⟩ := proportionalShares_cents hmore.le (by omega) hmoderate (by omega)
            hempty hfirst le_rfl (by omega) (by omega)
          exact ⟨map_uid_proportionalShares _ _ _, by rw [hsum, sub_zero], hnear⟩

end Shares

section Users

variable {stake : ℤ} {bets : ℕ} {round : ℚ → ℚ}

/-- The change of a player who has been given something on `n` doors. -/
abbrev Held (bets : ℕ) (stake : ℤ) (n : ℕ) (x : ℚ) : Prop :=
  NearCents (n * (bets * (36 * stake / 2 ^ 53))) (6 * n * stake) x

/-- The cents of all players. -/
def userCents (users : LuaTable Uid UserResult) : ℤ :=
  (users.entries.map fun entry => toCents entry.2.coinChange).sum

theorem toCents_zero : toCents 0 = 0 := by
  have h := toCents_div 0
  rwa [Int.cast_zero, zero_div] at h

/-- A player is given something on one more door. -/
theorem Held.add (hround : ∀ x, |round x - x| ≤ |x| / 2 ^ 53) (hmoderate : Moderate bets stake)
    (hbets : 1 ≤ bets) {n : ℕ} (hn : n ≤ 4) {x y : ℚ} (hx : Held bets stake n x)
    (hy : NearShare bets stake y) :
    toCents (round (x + y)) = toCents x + toCents y ∧ Held bets stake (n + 1) (round (x + y)) := by
  have hone : (1 : ℚ) ≤ stake := by exact_mod_cast hmoderate.one
  have hn' : (n : ℚ) ≤ 4 := by exact_mod_cast hn
  obtain ⟨hunit, hsmall⟩ := hmoderate.error_le hbets
  rw [Nat.cast_one, one_mul] at hunit
  have hscale : (bets : ℚ) * (36 * stake / 2 ^ 53) = 6 * (bets * (6 * stake / 2 ^ 53)) := by ring
  have hsizes : (6 * n * stake + 5 * stake : ℚ) ≤ 29 * stake := by
    have h := mul_le_mul_of_nonneg_right hn' (by linarith : (0 : ℚ) ≤ stake)
    linarith
  have herrors : (n : ℚ) * (bets * (36 * stake / 2 ^ 53)) ≤ 24 * (bets * (6 * stake / 2 ^ 53)) := by
    rw [hscale]
    have h := mul_le_mul_of_nonneg_right hn' (by linarith : (0 : ℚ) ≤ bets * (6 * stake / 2 ^ 53))
    linarith
  obtain ⟨hcents, hheld⟩ := NearCents.add hround hx hy (by linarith)
  refine ⟨hcents, hheld.mono ?_ ?_⟩
  · rw [Nat.cast_add, Nat.cast_one, add_mul, one_mul, hscale]
    linarith
  · rw [Nat.cast_add, Nat.cast_one]
    linarith

theorem held_of_nearShare {y : ℚ} (hy : NearShare bets stake y) (hmoderate : Moderate bets stake)
    (n : ℕ) : Held bets stake (n + 1) y := by
  have hone : (1 : ℚ) ≤ stake := by exact_mod_cast hmoderate.one
  have hn : (0 : ℚ) ≤ n := Nat.cast_nonneg n
  have hunit : (0 : ℚ) ≤ bets * (6 * stake / 2 ^ 53) := by positivity
  have hscale : (bets : ℚ) * (36 * stake / 2 ^ 53) = 6 * (bets * (6 * stake / 2 ^ 53)) := by ring
  refine hy.mono ?_ ?_
  · have h := mul_nonneg hn hunit
    rw [Nat.cast_add, Nat.cast_one, add_mul, one_mul, hscale]
    linarith
  · have h := mul_nonneg hn (by linarith : (0 : ℚ) ≤ stake)
    rw [Nat.cast_add, Nat.cast_one]
    linarith

theorem changeOf_addUser_self {users : LuaTable Uid UserResult} {share : Share} {user : UserResult}
    (huser : users.get share.uid = some user) :
    changeOf (addUser round users share) share.uid = round
    (user.coinChange + share.coinChange) := by
  rw [changeOf, addUser, LuaTable.get_set_self, huser]
  rfl

theorem changeOf_addUser_new {users : LuaTable Uid UserResult} {share : Share}
    (hnone : users.get share.uid = none) :
    changeOf (addUser round users share) share.uid = share.coinChange := by
  rw [changeOf, addUser, LuaTable.get_set_self, hnone]
  rfl

theorem changeOf_addUser_of_ne (users : LuaTable Uid UserResult) {share : Share} {uid : Uid}
    (hne : share.uid ≠ uid) : changeOf (addUser round users share) uid = changeOf users uid := by
  rw [changeOf, addUser, LuaTable.get_set_of_ne users _ hne, changeOf]

theorem userCents_set (users : LuaTable Uid UserResult) (uid : Uid) (user : UserResult) :
    userCents (users.set uid user) =
      userCents users - toCents (changeOf users uid) + toCents user.coinChange := by
  have h := LuaTable.sum_entries_set
    (fun entry : Uid × UserResult => toCents entry.2.coinChange) users uid user
  rw [userCents, h, changeOf]
  cases users.get uid with
  | none => simp [toCents_zero, userCents]
  | some user => rfl

theorem userCents_addUser (users : LuaTable Uid UserResult) (share : Share) :
    userCents (addUser round users share) = userCents users - toCents (changeOf users share.uid) +
      toCents (changeOf (addUser round users share) share.uid) := by
  rw [addUser, userCents_set, changeOf.eq_def (users.set ..), LuaTable.get_set_self]
  rfl

theorem addUser_cents (hround : ∀ x, |round x - x| ≤ |x| / 2 ^ 53) (hmoderate : Moderate bets stake)
    (hbets : 1 ≤ bets) {n : ℕ} (hn : n ≤ 4) {users : LuaTable Uid UserResult} {share : Share}
    (hheld : Held bets stake n (changeOf users share.uid))
    (hshare : NearShare bets stake share.coinChange) :
    userCents (addUser round users share) = userCents users + toCents share.coinChange ∧
      Held bets stake (n + 1) (changeOf (addUser round users share) share.uid) := by
  have hnew : toCents (changeOf (addUser round users share) share.uid) =
        toCents (changeOf users share.uid) + toCents share.coinChange ∧
      Held bets stake (n + 1) (changeOf (addUser round users share) share.uid) := by
    cases huser : users.get share.uid with
    | some user =>
        rw [changeOf_addUser_self huser, changeOf, huser]
        rw [changeOf, huser] at hheld
        exact hheld.add hround hmoderate hbets hn hshare
    | none =>
        rw [changeOf_addUser_new huser, changeOf, huser, Option.map_none, Option.getD_none,
          toCents_zero, zero_add]
        exact ⟨rfl, held_of_nearShare hshare hmoderate n⟩
  refine ⟨?_, hnew.2⟩
  rw [userCents_addUser, hnew.1]
  ring

/-- **The changes of the players in doubles.** Their cents are those of the shares, as long as
nobody is given something on more than five doors. -/
theorem foldl_addUser_cents (hround : ∀ x, |round x - x| ≤ |x| / 2 ^ 53)
    (hmoderate : Moderate bets stake) {shares : List Share} (hbets : shares ≠ [] → 1 ≤ bets)
    (hshares : ∀ share ∈ shares, NearShare bets stake share.coinChange)
    {users : LuaTable Uid UserResult} {count : Uid → ℕ}
    (hcount : ∀ uid, count uid + (shares.filter fun share => share.uid = uid).length ≤ 5)
    (hheld : ∀ uid, Held bets stake (count uid) (changeOf users uid)) :
    userCents (shares.foldl (addUser round) users) = userCents users + sumCents shares ∧
      ∀ uid, ∃ n ≤ 5, Held bets stake n (changeOf (shares.foldl (addUser round) users) uid) := by
  induction shares generalizing users count with
  | nil => exact ⟨(add_zero _).symm, fun uid => ⟨count uid, hcount uid, hheld uid⟩⟩
  | cons share shares ih =>
      obtain ⟨hfirst, hrest⟩ := List.forall_mem_cons.mp hshares
      have hown := hcount share.uid
      simp only [List.filter_cons_of_pos, decide_true, List.length_cons] at hown
      have hbets := hbets (List.cons_ne_nil share shares)
      obtain ⟨hcents, hself⟩ :=
        addUser_cents hround hmoderate hbets (by omega) (hheld share.uid) hfirst
      have hcount' : ∀ uid, (if share.uid = uid then count uid + 1 else count uid) +
          (shares.filter fun share => share.uid = uid).length ≤ 5 := by
        intro uid
        have h := hcount uid
        rw [List.filter_cons] at h
        split_ifs with huid
        · rw [if_pos (by simpa using huid), List.length_cons] at h
          omega
        · rwa [if_neg (by simpa using huid)] at h
      have hheld' : ∀ uid, Held bets stake (if share.uid = uid then count uid + 1 else count uid)
          (changeOf (addUser round users share) uid) := by
        intro uid
        split_ifs with huid
        · rw [← huid]
          exact hself
        · rw [changeOf_addUser_of_ne users huid]
          exact hheld uid
      obtain ⟨hsum, hall⟩ := ih (fun _ => hbets) hrest hcount' hheld'
      rw [List.foldl_cons]
      refine ⟨?_, hall⟩
      rw [hsum, hcents, sumCents, sumCents, List.map_cons, List.sum_cons, add_assoc]

theorem userCents_of_whole {users : LuaTable Uid UserResult} (hwhole : WholeCoins users) :
    (userCents users : ℚ) = 100 * sumUsers users := by
  rw [userCents, sumUsers, Int.cast_list_sum, List.map_map, ← List.sum_map_mul_left]
  congr 1
  refine List.map_congr_left fun entry hentry => ?_
  obtain ⟨n, hn⟩ := hwhole entry.1 entry.2 ((LuaTable.get_eq_some_iff _).mpr hentry)
  have hcents := (NearCents.intCast (n := n) le_rfl le_rfl).1
  rw [Function.comp_apply, hn, hcents]
  push_cast
  rfl

/-- A change that doubles hold well enough for the commission. -/
structure Certain (x : ℚ) : Prop where
  near : |x - toCents x / 100| ≤ 1 / 2500
  size : |x| ≤ 2 ^ 39

theorem certain_of_held (hmoderate : Moderate bets stake) {n : ℕ} (hn : n ≤ 5) {x : ℚ}
    (hheld : Held bets stake n x) : Certain x := by
  have hone : (1 : ℚ) ≤ stake := by exact_mod_cast hmoderate.one
  have hlarge : (stake : ℚ) ≤ 2 ^ 34 := by exact_mod_cast hmoderate.large
  have hn' : (n : ℚ) ≤ 5 := by exact_mod_cast hn
  have hsmall := (hmoderate.error_le le_rfl).2
  have hscale : (bets : ℚ) * (36 * stake / 2 ^ 53) = 6 * (bets * (6 * stake / 2 ^ 53)) := by ring
  have hunit : (0 : ℚ) ≤ bets * (36 * stake / 2 ^ 53) := by positivity
  have herror := mul_le_mul_of_nonneg_right hn' hunit
  have hsize := mul_le_mul_of_nonneg_right hn' (by linarith : (0 : ℚ) ≤ stake)
  exact ⟨hheld.near.trans (by linarith), hheld.size.trans (by linarith)⟩

theorem certain_intCast {n : ℤ} (hn : |n| ≤ 2 ^ 39) : Certain n := by
  have hn' : |(n : ℚ)| ≤ 2 ^ 39 := by exact_mod_cast hn
  have h := (NearCents.intCast (by norm_num : (0 : ℚ) ≤ 1 / 2500) hn').2
  exact ⟨h.near, h.size⟩

theorem length_filter_uid_le {shared : List (Door × List Share)}
    (hnodup : ∀ paid ∈ shared, (paid.2.map Share.uid).Nodup) (uid : Uid) :
    ((shared.flatMap Prod.snd).filter fun share => share.uid = uid).length ≤ shared.length := by
  induction shared with
  | nil => exact le_rfl
  | cons paid shared ih =>
      obtain ⟨hfirst, hrest⟩ := List.forall_mem_cons.mp hnodup
      have hone : (paid.2.filter fun share => share.uid = uid).length ≤ 1 := by
        have h := List.nodup_iff_count_le_one.mp hfirst uid
        rwa [List.count, List.countP_map, List.countP_eq_length_filter] at h
      rw [List.flatMap_cons, List.filter_append, List.length_append, List.length_cons]
      have := ih hrest
      omega

theorem sumCents_flatMap (shared : List (Door × List Share)) :
    sumCents (shared.flatMap Prod.snd) = (shared.map fun paid => sumCents paid.2).sum := by
  induction shared with
  | nil => rfl
  | cons paid shared ih =>
      rw [List.map_cons, List.sum_cons, ← ih, List.flatMap_cons, sumCents, List.map_append,
        List.sum_append]
      rfl

/-- What the players of up to five doors are given, as entries of the result. -/
theorem foldl_addDoor_cents (hround : ∀ x, |round x - x| ≤ |x| / 2 ^ 53)
    (hmoderate : Moderate bets stake) {shared : List (Door × List Share)}
    (hfive : shared.length ≤ 5)
    (hpaid : ∀ paid ∈ shared, ∃ change people, (people.map Prod.fst).Nodup ∧
      people.length ≤ bets ∧ DoorPaid bets stake change people paid.2) :
    userCents (shared.foldl (Result.addDoor round) {}).users =
        (shared.map fun paid => sumCents paid.2).sum ∧
      ∀ uid, Certain (changeOf (shared.foldl (Result.addDoor round) {}).users uid) := by
  have hbets : shared.flatMap Prod.snd ≠ [] → 1 ≤ bets := by
    intro hne
    obtain ⟨share, hshare⟩ := List.exists_mem_of_ne_nil _ hne
    obtain ⟨paid, hmem, hshare⟩ := List.mem_flatMap.mp hshare
    obtain ⟨change, people, -, hcount, hdoor⟩ := hpaid paid hmem
    have hlength : paid.2.length = people.length := by
      rw [← List.length_map (f := Share.uid), hdoor.uids, List.length_map]
    exact (List.length_pos_of_mem hshare).trans_le (hlength.trans_le hcount)
  have hall : ∀ share ∈ shared.flatMap Prod.snd, NearShare bets stake share.coinChange := by
    intro share hshare
    obtain ⟨paid, hmem, hshare⟩ := List.mem_flatMap.mp hshare
    obtain ⟨change, people, -, -, hdoor⟩ := hpaid paid hmem
    exact hdoor.near share hshare
  have hnodup : ∀ paid ∈ shared, (paid.2.map Share.uid).Nodup := by
    intro paid hmem
    obtain ⟨change, people, hnodup, -, hdoor⟩ := hpaid paid hmem
    rwa [hdoor.uids]
  have hown : ∀ uid, 0 + ((shared.flatMap Prod.snd).filter fun share => share.uid = uid).length ≤
      5 := by
    intro uid
    rw [zero_add]
    exact (length_filter_uid_le hnodup uid).trans hfive
  have hfirst : ∀ uid, Held bets stake 0 (changeOf ∅ uid) := by
    intro uid
    have hzero : changeOf ∅ uid = 0 := rfl
    rw [hzero]
    exact ⟨by simp [toCents_zero], by simp⟩
  obtain ⟨hsum, hheld⟩ := foldl_addUser_cents hround hmoderate hbets hall hown hfirst
  rw [foldl_addDoor_users]
  refine ⟨?_, fun uid => ?_⟩
  · rw [hsum, sumCents_flatMap]
    exact zero_add _
  · obtain ⟨n, hn, hheld⟩ := hheld uid
    exact certain_of_held hmoderate hn hheld

end Users

section Commission

/-- What is charged of a win, and what is left of it. -/
def charge (x : ℚ) : ℚ := double (x * double (5 / 100))

def left (x : ℚ) : ℚ := double (x - charge x)

/-- An odd number of ten cents is parted well if only one of its two parts is rounded up. -/
def Parted (x : ℚ) : Prop :=
  toCents x % 20 = 10 → (charge x < round2 (charge x) ↔ ¬left x < round2 (left x))

instance (x : ℚ) : Decidable (Parted x) := inferInstanceAs (Decidable (_ → _))

/-- Ten cents are charged a cent of which nothing is taken, and fifty are parted well. -/
example : ¬Parted (double (10 / 100)) ∧ Parted (double (50 / 100)) := by decide +kernel

theorem round2_eq_toCents (x : ℚ) : round2 x = toCents x / 100 := by
  have hunit : x / (1 / 10 ^ 2) = x * 100 := by rw [div_div_eq_mul_div, div_one]; norm_num
  rw [round2_eq_fixed, fixed, nearest, hunit, toCents]
  ring

variable {x : ℚ}

theorem abs_charge_sub_le (x : ℚ) : |charge x - x / 20| ≤ |x| / 5 / 2 ^ 53 := by
  have hnonneg := abs_nonneg x
  have hrate := abs_double_sub_le (5 / 100)
  rw [abs_of_pos (by norm_num : (0 : ℚ) < 5 / 100)] at hrate
  have hfactor : |double (5 / 100)| ≤ 1 / 10 := by
    have h := abs_double_le (5 / 100)
    rw [abs_of_pos (by norm_num : (0 : ℚ) < 5 / 100)] at h
    linarith
  have hproduct : |x * double (5 / 100)| ≤ |x| / 10 := by
    have h := mul_le_mul_of_nonneg_left hfactor hnonneg
    rw [abs_mul]
    linarith
  have herror : |x * (double (5 / 100) - 5 / 100)| ≤ |x| * (5 / 100 / 2 ^ 53) := by
    rw [abs_mul]
    gcongr
  have hrounded := abs_double_sub_le (x * double (5 / 100))
  have hsplit : charge x - x / 20 =
      (double (x * double (5 / 100)) - x * double (5 / 100)) +
        x * (double (5 / 100) - 5 / 100) := by
    rw [charge]
    ring
  have h := abs_add_le (double (x * double (5 / 100)) - x * double (5 / 100))
    (x * (double (5 / 100) - 5 / 100))
  rw [hsplit]
  linarith

theorem abs_left_sub_le (x : ℚ) : |left x - 19 * x / 20| ≤ 3 / 2 * |x| / 2 ^ 53 := by
  have hnonneg := abs_nonneg x
  have hcharge := abs_charge_sub_le x
  have hrest : |x - charge x| ≤ 11 / 10 * |x| := by
    have h := abs_sub (19 * x / 20) (charge x - x / 20)
    have hsplit : 19 * x / 20 - (charge x - x / 20) = x - charge x := by ring
    rw [hsplit, abs_div, abs_mul, abs_of_pos (by norm_num : (0 : ℚ) < 19),
      abs_of_pos (by norm_num : (0 : ℚ) < 20)] at h
    linarith
  have hrounded := abs_double_sub_le (x - charge x)
  have h := abs_sub (double (x - charge x) - (x - charge x)) (charge x - x / 20)
  have hsplit : double (x - charge x) - (x - charge x) - (charge x - x / 20) =
      left x - 19 * x / 20 := by
    rw [left]
    ring
  rw [hsplit] at h
  linarith

theorem abs_left_le (hcertain : Certain x) : |left x| ≤ 2 ^ 40 := by
  have hsize := hcertain.size
  have hnear := abs_left_sub_le x
  have h := abs_add_le (left x - 19 * x / 20) (19 * x / 20)
  rw [sub_add_cancel, abs_div, abs_mul, abs_of_pos (by norm_num : (0 : ℚ) < 19),
    abs_of_pos (by norm_num : (0 : ℚ) < 20)] at h
  linarith

theorem round2_double_round2 (hsize : |x| ≤ 2 ^ 40) : round2 (double (round2 x)) = round2 x := by
  have hround := abs_sub_toCents_le x
  have hcents : |(toCents x : ℚ) / 100| ≤ 2 ^ 41 := by
    have h := abs_sub x (x - toCents x / 100)
    rw [sub_sub_cancel] at h
    linarith
  have hnear := abs_double_sub_le ((toCents x : ℚ) / 100)
  rw [round2_eq_toCents x, round2_eq_toCents, toCents_near (n := toCents x) (by linarith)]

/-- Near the middle of two cents, either may be next. -/
theorem toCents_middle {m : ℤ} (hmiddle : |x * 100 - (m + 1 / 2)| ≤ 1 / 4) :
    (toCents x = m ∨ toCents x = m + 1) ∧ (x < round2 x ↔ toCents x = m + 1) := by
  obtain ⟨hlow, hhigh⟩ := abs_le.mp hmiddle
  obtain ⟨hbelow, habove⟩ := abs_le.mp (abs_nearestInt_sub_le (x * 100))
  rw [← toCents] at hbelow habove
  have hge : m ≤ toCents x := by
    have h : ((m - 1 : ℤ) : ℚ) < toCents x := by push_cast; linarith
    exact Int.le_of_sub_one_lt (Int.cast_lt.mp h)
  have hle : toCents x ≤ m + 1 := by
    have h : (toCents x : ℚ) < ((m + 2 : ℤ) : ℚ) := by push_cast; linarith
    have := Int.cast_lt.mp h
    omega
  have heither : toCents x = m ∨ toCents x = m + 1 := by omega
  refine ⟨heither, ?_⟩
  rw [round2_eq_toCents, lt_div_iff₀ (by norm_num)]
  rcases heither with heq | heq
  · rw [heq]
    refine iff_of_false (not_lt.mpr (by linarith)) (by omega)
  · rw [heq]
    refine iff_of_true ?_ rfl
    push_cast
    linarith

/-- **The commission and the rest** make up a win exactly if it is parted. -/
theorem parted_iff (hcertain : Certain x) :
    toCents (left x) = toCents x - toCents (charge x) ↔ Parted x := by
  obtain ⟨hnear, hsize⟩ := hcertain
  obtain ⟨q, r, hr0, hr20, hn⟩ : ∃ q r : ℤ, 0 ≤ r ∧ r < 20 ∧ toCents x = 20 * q + r :=
    ⟨toCents x / 20, toCents x % 20, by omega, by omega, by omega⟩
  unfold Parted
  rw [hn] at hnear ⊢
  push_cast at hnear
  obtain ⟨hxlow, hxhigh⟩ := abs_le.mp hnear
  obtain ⟨hclow, hchigh⟩ := abs_le.mp (abs_charge_sub_le x)
  obtain ⟨hllow, hlhigh⟩ := abs_le.mp (abs_left_sub_le x)
  have hr0' : (0 : ℚ) ≤ r := by exact_mod_cast hr0
  have hr20' : (r : ℚ) ≤ 19 := by exact_mod_cast (by omega : r ≤ 19)
  have htie : (20 * q + r) % 20 = 10 ↔ r = 10 := by omega
  rw [htie]
  rcases lt_trichotomy r 10 with hlt | heq | hgt
  · have hlt' : (r : ℚ) ≤ 9 := by exact_mod_cast (by omega : r ≤ 9)
    have hcharge : toCents (charge x) = q := nearestInt_eq (abs_lt.mpr ⟨by linarith, by linarith⟩)
    have hleft : toCents (left x) = 19 * q + r :=
      nearestInt_eq (abs_lt.mpr ⟨by push_cast; linarith, by push_cast; linarith⟩)
    rw [hcharge, hleft]
    exact iff_of_true (by ring) fun h => absurd h (by omega)
  · subst heq
    obtain ⟨hcharge, hup⟩ := toCents_middle (x := charge x) (m := q)
      (abs_le.mpr ⟨by linarith, by linarith⟩)
    obtain ⟨hleft, hup'⟩ := toCents_middle (x := left x) (m := 19 * q + 9)
      (abs_le.mpr ⟨by push_cast; linarith, by push_cast; linarith⟩)
    rw [hup, hup']
    rcases hcharge with hcharge | hcharge <;> rcases hleft with hleft | hleft <;>
      rw [hcharge, hleft] <;> simp <;> omega
  · have hgt' : (11 : ℚ) ≤ r := by exact_mod_cast (by omega : 11 ≤ r)
    have hcharge : toCents (charge x) = q + 1 :=
      nearestInt_eq (abs_lt.mpr ⟨by push_cast; linarith, by push_cast; linarith⟩)
    have hleft : toCents (left x) = 19 * q + r - 1 :=
      nearestInt_eq (abs_lt.mpr ⟨by push_cast; linarith, by push_cast; linarith⟩)
    rw [hcharge, hleft]
    exact iff_of_true (by ring) fun h => absurd h (by omega)

end Commission

end SdyServer.Pk10
