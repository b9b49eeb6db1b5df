import Mathlib.Tactic.GCongr
import Mathlib.Tactic.Positivity
import Mathlib.Tactic.FieldSimp
import SdyServer.Hongbao.Points
import SdyServer.Lib.Roll
import SdyServer.Lib.Rounding

/-!
# Splitting money at random

`randomRedPacket` draws one packet after the other, each at most twice the average of what is left,
and the last one takes the rest. When nothing is left too early it takes something back from the
first packet of more than a yuan. There is one as long as the packets average more than a yuan, so
that every packet keeps at least a cent.
-/

namespace SdyServer.Hongbao

open Rounding

section Split

variable (round : ℚ → ℚ)

/-- What is taken back from the packets when nothing is left, from the first one above a yuan. -/
def takeBack : List ℤ → Roll (ℤ × List ℤ)
  | [] => pure (0, [])
  | v :: redPackes =>
      if v > 300 then do
        let remainMoney ← Roll.random 100 200
        return (remainMoney, (v - remainMoney) :: redPackes)
      else if v > 200 then do
        let remainMoney ← Roll.random 50 100
        return (remainMoney, (v - remainMoney) :: redPackes)
      else if v > 100 then do
        let remainMoney ← Roll.random 1 100
        return (remainMoney, (v - remainMoney) :: redPackes)
      else do
        let (remainMoney, redPackes) ← takeBack redPackes
        return (remainMoney, v :: redPackes)

def refill (remainMoney : ℚ) (redPackes : List ℤ) : Roll (ℚ × List ℤ) :=
  if remainMoney = 0 then do
    let (remainMoney, redPackes) ← takeBack redPackes
    return ((remainMoney : ℚ), redPackes)
  else pure (remainMoney, redPackes)

/-- The cents of a packet drawn while `remainSize` are to come, where every operation is rounded. -/
def drawMoney (remainMoney : ℚ) (remainSize : ℕ) : Roll ℤ := do
  let random ← Roll.random 100 200
  let max := round (round (round (remainMoney / remainSize) * random) / 100)
  let random ← Roll.random 50 100
  let money := ⌊round (round (random / 100) * max)⌋
  return if money ≤ 1 then 1 else money

/-- The loop, with the packets in cents. Of no packets there is no list. -/
def splitLoop : ℕ → ℚ → List ℤ → Roll (Option (List ℤ))
  | 0, _, _ => pure none
  | 1, remainMoney, redPackes => pure (some (redPackes ++ [toCents (round (remainMoney / 100))]))
  | remainSize + 2, remainMoney, redPackes => do
      let money ← drawMoney round remainMoney (remainSize + 2)
      let (remainMoney, redPackes) ← refill (round (remainMoney - money)) (redPackes ++ [money])
      splitLoop (remainSize + 1) remainMoney redPackes

/-- `randomRedPacket`, with the arithmetic that `round` stands for. -/
def randomRedPacket (totalMoney : ℚ) (size : ℕ) : Roll (Option (List Value)) := do
  let redPackes ← splitLoop round size (round (totalMoney * 100)) []
  return redPackes.map fun redPackes => redPackes.map format2

end Split

section Spec

theorem exists_gt_of_sum_gt {l : List ℤ} {bound : ℤ} (hsum : bound * l.length < l.sum) :
    ∃ v ∈ l, bound < v := by
  by_contra hnone
  push Not at hnone
  have hle := List.sum_le_card_nsmul l bound hnone
  rw [nsmul_eq_mul, mul_comm] at hle
  omega

theorem forall_mem_concat {P : ℤ → Prop} {l : List ℤ} {v : ℤ} (hl : ∀ w ∈ l, P w) (hv : P v) :
    ∀ w ∈ l ++ [v], P w := by
  intro w hw
  obtain hw | hw := List.mem_append.mp hw
  · exact hl w hw
  · rw [List.mem_singleton.mp hw]
    exact hv

/-- What is taken back, and the packets it is taken from. -/
structure TakenBack (redPackes : List ℤ) (taken : ℤ × List ℤ) : Prop where
  positive : 1 ≤ taken.1
  length : taken.2.length = redPackes.length
  packets : ∀ v ∈ taken.2, 1 ≤ v
  sum : taken.1 + taken.2.sum = redPackes.sum

/-- What is taken back leaves every packet at least a cent. -/
theorem takeBack_spec {redPackes : List ℤ} (hpos : ∀ v ∈ redPackes, 1 ≤ v)
    (hbig : ∃ v ∈ redPackes, 100 < v) : Roll.Always (takeBack redPackes) (TakenBack redPackes) := by
  induction redPackes with
  | nil =>
      obtain ⟨v, hv, -⟩ := hbig
      exact absurd hv List.not_mem_nil
  | cons v redPackes ih =>
      rw [List.forall_mem_cons] at hpos
      have htake : ∀ lo hi : ℤ, 1 ≤ lo → lo ≤ hi → hi < v →
          Roll.Always (do
            let remainMoney ← Roll.random lo hi
            return (remainMoney, (v - remainMoney) :: redPackes) : Roll (ℤ × List ℤ))
            (TakenBack (v :: redPackes)) := by
        intro lo hi hlo hle hhi
        refine (Roll.Always.random hle).bind fun remainMoney ⟨hge, hle'⟩ => .pure ?_
        refine ⟨by omega, rfl, ?_, ?_⟩
        · rw [List.forall_mem_cons]
          exact ⟨by omega, hpos.2⟩
        · rw [List.sum_cons, List.sum_cons]
          ring
      unfold takeBack
      split_ifs with h300 h200 h100
      · exact htake 100 200 (by norm_num) (by norm_num) (by omega)
      · exact htake 50 100 (by norm_num) (by norm_num) (by omega)
      · exact htake 1 100 (by norm_num) (by norm_num) (by omega)
      · have hrest : ∃ v ∈ redPackes, 100 < v := by
          obtain ⟨w, hw, hgt⟩ := hbig
          obtain rfl | hw := List.mem_cons.mp hw
          · omega
          · exact ⟨w, hw, hgt⟩
        refine (ih hpos.2 hrest).bind fun taken htaken => .pure ⟨htaken.positive, ?_, ?_, ?_⟩
        · rw [List.length_cons, List.length_cons, htaken.length]
        · rw [List.forall_mem_cons]
          exact ⟨hpos.1, htaken.packets⟩
        · rw [List.sum_cons, List.sum_cons, ← htaken.sum]
          ring

/-- What the split relies on: the arithmetic is exact for whole and half amounts and for the text of
an amount, up to `top`. -/
structure Rounds (round : ℚ → ℚ) (top : ℤ) : Prop where
  mono : ∀ {x y : ℚ}, x ≤ y → round x ≤ round y
  whole : ∀ {n : ℤ}, 0 ≤ n → n ≤ 100 * top → round n = n
  half : ∀ {n : ℤ}, 0 ≤ n → n ≤ top → round (n / 2) = n / 2
  cents : ∀ {n : ℤ}, 0 ≤ n → n ≤ top → toCents (round (n / 100)) = n

/-- Exact arithmetic. -/
theorem rounds_id (top : ℤ) : Rounds id top :=
  ⟨id, fun _ _ => rfl, fun _ _ => rfl, fun _ _ => toCents_div _⟩

/-- Doubles. -/
theorem rounds_double {top : ℤ} (htop : top ≤ 2 ^ 45) : Rounds double top := by
  refine ⟨fun h => double_mono h, fun {n} hn hle => ?_, fun {n} hn hle => ?_, fun {n} hn hle => ?_⟩
  · exact double_intCast (by rw [abs_of_nonneg hn]; omega)
  · have hdigits : HasDigits 2 53 (n / (2 : ℕ) ^ 1) :=
      hasDigits_div_pow (by rw [abs_of_nonneg hn]; push_cast; omega) 1
    rw [pow_one, Nat.cast_ofNat] at hdigits
    exact double_of_hasDigits hdigits
  · apply toCents_near
    have hle' : (n : ℚ) ≤ 2 ^ 45 := by exact_mod_cast hle.trans htop
    have hnonneg : (0 : ℚ) ≤ n / 100 := by
      have : (0 : ℚ) ≤ n := by exact_mod_cast hn
      positivity
    calc |double (n / 100) - n / 100| ≤ n / 100 / 2 ^ 53 := abs_double_sub_le_of_nonneg hnonneg
      _ ≤ 2 ^ 45 / 100 / 2 ^ 53 := by gcongr
      _ < 1 / 200 := by norm_num

theorem Rounds.nonneg {round : ℚ → ℚ} {top : ℤ} (hround : Rounds round top) (htop : 0 ≤ top) {x : ℚ}
    (hx : 0 ≤ x) : 0 ≤ round x := by
  have hzero : round ((0 : ℤ) : ℚ) = ((0 : ℤ) : ℚ) := hround.whole le_rfl (by omega)
  rw [Int.cast_zero] at hzero
  rw [← hzero]
  exact hround.mono hx

/-- A draw takes at most twice the average, so never more than what is left. -/
theorem drawMoney_spec {round : ℚ → ℚ} {top : ℤ} (hround : Rounds round top) {remainMoney : ℤ}
    (hremain : 1 ≤ remainMoney) (htop : remainMoney ≤ top) (remainSize : ℕ) :
    Roll.Always (drawMoney round remainMoney (remainSize + 2)) fun money =>
      1 ≤ money ∧ money ≤ remainMoney := by
  refine (Roll.Always.random (by norm_num)).bind fun up ⟨hup1, hup2⟩ =>
    (Roll.Always.random (by norm_num)).bind fun down ⟨hdown1, hdown2⟩ => .pure ⟨?_, ?_⟩
  · split_ifs <;> omega
  · have hup2' : (up : ℚ) ≤ 200 := by exact_mod_cast hup2
    have hup1' : (0 : ℚ) ≤ up := by exact_mod_cast (by omega : (0 : ℤ) ≤ up)
    have hdown2' : (down : ℚ) ≤ 100 := by exact_mod_cast hdown2
    have hdown1' : (0 : ℚ) ≤ down := by exact_mod_cast (by omega : (0 : ℤ) ≤ down)
    have hremain' : (0 : ℚ) ≤ remainMoney := by exact_mod_cast (by omega : (0 : ℤ) ≤ remainMoney)
    have hsize : (2 : ℚ) ≤ ((remainSize + 2 : ℕ) : ℚ) := by
      push_cast
      linarith [(Nat.cast_nonneg remainSize : (0 : ℚ) ≤ remainSize)]
    have hshare : round (remainMoney / ((remainSize + 2 : ℕ) : ℚ)) ≤ remainMoney / 2 := by
      rw [← hround.half (by omega) htop]
      exact hround.mono (by gcongr)
    have hnonneg := hround.nonneg (by omega) (x := remainMoney / ((remainSize + 2 : ℕ) : ℚ))
      (by positivity)
    have hmany : round (round (remainMoney / ((remainSize + 2 : ℕ) : ℚ)) * up) ≤
        ((100 * remainMoney : ℤ) : ℚ) := by
      rw [← hround.whole (n := 100 * remainMoney) (by omega) (by omega)]
      apply hround.mono
      calc round (remainMoney / ((remainSize + 2 : ℕ) : ℚ)) * up ≤ remainMoney / 2 *
        200 := by gcongr
        _ = ((100 * remainMoney : ℤ) : ℚ) := by push_cast; ring
    have hmax : round (round (round (remainMoney / ((remainSize + 2 : ℕ) : ℚ)) * up) / 100) ≤
        remainMoney := by
      rw [← hround.whole (n := remainMoney) (by omega) (by omega)]
      apply hround.mono
      rw [hround.whole (by omega) (by omega), div_le_iff₀ (by norm_num)]
      calc _ ≤ ((100 * remainMoney : ℤ) : ℚ) := hmany
        _ = remainMoney * 100 := by push_cast; ring
    have hmaxNonneg : 0 ≤
        round (round (round (remainMoney / ((remainSize + 2 : ℕ) : ℚ)) * up) / 100) :=
      hround.nonneg (by omega) (div_nonneg (hround.nonneg (by omega) (by positivity)) (by norm_num))
    have hpart : round (down / 100) ≤ 1 := by
      have hone : round ((1 : ℤ) : ℚ) = ((1 : ℤ) : ℚ) := hround.whole (by omega) (by omega)
      rw [Int.cast_one] at hone
      rw [← hone]
      exact hround.mono (by rw [div_le_one (by norm_num)]; exact hdown2')
    have hle : round (round (down / 100) *
        round (round (round (remainMoney / ((remainSize + 2 : ℕ) : ℚ)) * up) / 100)) ≤
            remainMoney := by
      rw [← hround.whole (n := remainMoney) (by omega) (by omega)]
      apply hround.mono
      rw [hround.whole (by omega) (by omega)]
      calc _ ≤ 1 * (remainMoney : ℚ) := by gcongr
        _ = remainMoney := one_mul _
    have hfloor := Int.floor_le_floor hle
    rw [Int.floor_intCast] at hfloor
    split_ifs
    · exact hremain
    · exact hfloor

/-- So many packets, each of at least a cent, that sum to the amount. -/
structure Splits (cents : ℤ) (size : ℕ) (packets : List ℤ) : Prop where
  length : packets.length = size
  positive : ∀ v ∈ packets, 1 ≤ v
  sum : packets.sum = cents

/-- **The packets of the loop** split the amount, as long as they average more than a yuan. -/
theorem splitLoop_spec {round : ℚ → ℚ} {top : ℤ} (hround : Rounds round top) {remainSize : ℕ}
    {remainMoney : ℤ} {redPackes : List ℤ} (hsize : 1 ≤ remainSize) (hremain : 1 ≤ remainMoney)
    (hpos : ∀ v ∈ redPackes, 1 ≤ v) (htop : remainMoney + redPackes.sum ≤ top)
    (hmany : 100 * ((remainSize : ℤ) + redPackes.length - 1) < remainMoney + redPackes.sum) :
    Roll.Always (splitLoop round remainSize remainMoney redPackes) fun packets => ∃ values,
      packets = some values ∧
        Splits (remainMoney + redPackes.sum) (remainSize + redPackes.length) values := by
  have hle : ∀ {remain : ℤ} {l : List ℤ}, (∀ v ∈ l, 1 ≤ v) → remain + l.sum ≤ top →
      remain ≤ top := by
    intro remain l hl hsum
    have := List.sum_nonneg fun v hv => (zero_le_one (α := ℤ)).trans (hl v hv)
    omega
  induction remainSize generalizing remainMoney redPackes with
  | zero => omega
  | succ remainSize ih =>
      cases remainSize with
      | zero =>
          refine .pure ⟨_, rfl, ?_, forall_mem_concat hpos ?_, ?_⟩
          · rw [List.length_append, List.length_singleton, Nat.add_comm]
          · rw [hround.cents (by omega) (hle hpos htop)]
            exact hremain
          · rw [List.sum_append, List.sum_singleton, hround.cents (by omega) (hle hpos htop),
              add_comm]
      | succ remainSize =>
          refine (drawMoney_spec hround hremain (hle hpos htop) remainSize).bind
            fun money ⟨hmoney1, hmoney2⟩ => ?_
          have hpos' := forall_mem_concat hpos hmoney1
          have hlength : (redPackes ++ [money]).length = redPackes.length + 1 := by simp
          have hsum : (redPackes ++ [money]).sum = redPackes.sum + money := by simp
          have hle' := hle hpos htop
          have hrest : round (remainMoney - money) = ((remainMoney - money : ℤ) : ℚ) := by
            rw [← Int.cast_sub]
            exact hround.whole (by omega) (by omega)
          rw [hrest]
          push_cast at hmany
          -- What is left at the next turn is whole and positive, and nothing has been lost.
          refine Roll.Always.bind (P := fun next : ℚ × List ℤ => ∃ remain : ℤ, next.1 = remain ∧
            1 ≤ remain ∧ next.2.length = redPackes.length + 1 ∧ (∀ v ∈ next.2, 1 ≤ v) ∧
            remain + next.2.sum = remainMoney + redPackes.sum) ?_ ?_
          · unfold refill
            split_ifs with hzero
            · have hzero' : remainMoney - money = 0 := by exact_mod_cast hzero
              have hbig : ∃ v ∈ redPackes ++ [money], 100 < v := by
                apply exists_gt_of_sum_gt
                rw [hlength, hsum]
                push_cast
                omega
              refine (takeBack_spec hpos' hbig).bind fun taken htaken => .pure
                ⟨taken.1, rfl, htaken.positive, htaken.length.trans hlength, htaken.packets, ?_⟩
              rw [htaken.sum, hsum]
              omega
            · have hne : remainMoney - money ≠ 0 := fun h => hzero (by rw [h, Int.cast_zero])
              refine .pure ⟨_, rfl, by omega, hlength, hpos', ?_⟩
              rw [hsum]
              ring
          · rintro ⟨_, redPackes'⟩ ⟨remain, rfl, hremain', hlength', hpos'', hsum'⟩
            dsimp only at hlength' hpos'' hsum'
            refine (ih (by omega) hremain' hpos'' (by omega) ?_).mono ?_
            · rw [hlength', hsum']
              push_cast
              omega
            · rintro packets ⟨values, hvalues, hsplits⟩
              refine ⟨values, hvalues, ?_, hsplits.positive, ?_⟩
              · rw [hsplits.length, hlength']
                omega
              · rw [hsplits.sum, hsum']

end Spec

section Statement

theorem randomRedPacket_spec {round : ℚ → ℚ} {top : ℤ} (hround : Rounds round top) {totalMoney : ℚ}
    {cents : ℤ} {size : ℕ} (hmoney : round (totalMoney * 100) = cents) (hsize : 1 ≤ size)
    (hcents : 1 ≤ cents) (htop : cents ≤ top) (hmany : 100 * ((size : ℤ) - 1) < cents) :
    Roll.Always (randomRedPacket round totalMoney size) fun packets => ∃ values : List ℤ,
      packets = some (values.map format2) ∧ Splits cents size values := by
  have hempty : ∀ v ∈ ([] : List ℤ), 1 ≤ v := by simp
  unfold randomRedPacket
  rw [hmoney]
  refine (splitLoop_spec hround hsize hcents hempty (by simpa using htop)
    (by simpa using hmany)).bind ?_
  rintro packets ⟨values, rfl, hsplits⟩
  exact .pure ⟨values, rfl, by simpa using hsplits⟩

/-- **Two yuan for each are split into so many packets**, whatever is drawn: in exact arithmetic,
and in doubles as far as their whole numbers go. -/
theorem randomRedPacket_splits (n : ℕ) (hn : 1 ≤ n) :
    (Roll.Always (randomRedPacket id (2 * n) n) fun packets => ∃ values : List ℤ,
        packets = some (values.map format2) ∧ Splits (100 * (2 * n)) n values) ∧
      (n ≤ 2 ^ 37 → Roll.Always (randomRedPacket double (2 * n) n) fun packets =>
        ∃ values : List ℤ,
          packets = some (values.map format2) ∧ Splits (100 * (2 * n)) n values) := by
  have hmoney : (2 * n : ℚ) * 100 = ((100 * (2 * n) : ℤ) : ℚ) := by
    push_cast
    ring
  refine ⟨?_, fun hle => ?_⟩
  · exact randomRedPacket_spec (rounds_id (100 * (2 * n))) hmoney hn (by omega) le_rfl (by omega)
  · have hround : Rounds double (100 * (2 * n)) := rounds_double (by omega)
    refine randomRedPacket_spec hround ?_ hn (by omega) le_rfl (by omega)
    rw [hmoney]
    exact double_intCast (by rw [abs_of_nonneg (by omega)]; omega)

theorem splits_three : Roll.Always (randomRedPacket double (2 * (3 : ℕ)) 3) fun packets =>
    ∃ values : List ℤ,
      packets = some (values.map format2) ∧ Splits (100 * (2 * (3 : ℕ))) 3 values :=
  (randomRedPacket_splits 3 (by norm_num)).2 (by norm_num)

end Statement

end SdyServer.Hongbao
