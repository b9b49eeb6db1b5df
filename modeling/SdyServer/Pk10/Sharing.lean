import Mathlib.Algebra.Order.Field.Rat
import Mathlib.Tactic.FieldSimp
import Mathlib.Tactic.Positivity
import SdyServer.Pk10.ResultSum

/-!
# Sharing a door's change

Every share but the last is cut down to whole cents, and the last player takes what is left: his own
share and all that was cut from the others. That is more than his stake, or a gain out of a loss,
when the cuts are more than what his own share leaves him. The arithmetic is exact here; what
becomes of it in doubles is looked at with the settlement.
-/

namespace SdyServer.Pk10

section Statement

/-- A player's share before it is cut. -/
def share (coinChange userTotalBet : Int) (entry : Uid × Int) : ℚ :=
  coinChange * ((entry.2 : ℚ) / userTotalBet)

/-- What is cut from the shares of some players. -/
def cut (coinChange userTotalBet : Int) (peopes : List (Uid × Int)) : ℚ :=
  (peopes.map fun entry => Int.fract (share coinChange userTotalBet entry * 100) / 100).sum

/-- The cuts of the others fit between the last player's share and his stake, or nothing, where the
door loses. -/
def LastFits (coinChange userTotalBet : Int) (peopes : List (Uid × Int)) : Prop :=
  ∀ last ∈ peopes.getLast?, cut coinChange userTotalBet peopes.dropLast ≤
    last.2 * ((if coinChange ≥ 0 then userTotalBet - coinChange else -coinChange : Int) : ℚ) /
      userTotalBet

/-- Every player of a door has a share, in the direction of the door's change and within his
stake. -/
structure WellShared (coinChange : Int) (peopes : List (Uid × Int)) (shares : List Share) :
    Prop where
  all : shares.map (fun share => (share.uid, share.betValue)) = peopes
  sum : sumShares shares = coinChange
  gain : 0 ≤ coinChange → ∀ share ∈ shares, 0 ≤ share.coinChange
  loss : coinChange ≤ 0 → ∀ share ∈ shares, share.coinChange ≤ 0
  within : ∀ share ∈ shares, |share.coinChange| ≤ share.betValue

end Statement

section Cuts

variable {coinChange userTotalBet : Int}

/-- The shares one by one, the last apart. -/
theorem proportionalShares_append (betSum : ℚ) (init : List (Uid × Int)) (last : Uid × Int) :
    proportionalShares id coinChange userTotalBet betSum (init ++ [last]) =
      init.map (fun entry => ⟨entry.1, entry.2,
        ⌊share coinChange userTotalBet entry * 100⌋ / 100⟩) ++
      [⟨last.1, last.2, coinChange - betSum -
        (init.map fun entry => (⌊share coinChange userTotalBet entry * 100⌋ : ℚ) / 100).sum⟩] := by
  induction init generalizing betSum with
  | nil => simp [proportionalShares]
  | cons entry init ih =>
      rw [List.cons_append, proportionalShares, ih]
      · simp only [List.map_cons, List.cons_append, List.sum_cons, share, id_eq]
        congr 4
        ring
      · simp

theorem cut_nonneg (coinChange userTotalBet : Int) (peopes : List (Uid × Int)) :
    0 ≤ cut coinChange userTotalBet peopes := by
  refine List.sum_nonneg (List.forall_mem_map.mpr fun entry _ => ?_)
  exact div_nonneg (Int.fract_nonneg _) (by norm_num)

/-- A cut share and what is cut from it. -/
theorem floor_add_cut (coinChange userTotalBet : Int) (peopes : List (Uid × Int)) :
    (peopes.map fun entry => (⌊share coinChange userTotalBet entry * 100⌋ : ℚ) / 100).sum +
      cut coinChange userTotalBet peopes = (peopes.map (share coinChange userTotalBet)).sum := by
  rw [cut, ← List.sum_map_add]
  congr 1
  refine List.map_congr_left fun entry _ => ?_
  rw [← add_div, Int.floor_add_fract]
  ring

theorem sum_share (peopes : List (Uid × Int)) :
    (peopes.map (share coinChange userTotalBet)).sum =
      share coinChange userTotalBet (0, (peopes.map Prod.snd).sum) := by
  induction peopes with
  | nil => simp [share]
  | cons entry peopes ih =>
      rw [List.map_cons, List.sum_cons, ih, List.map_cons, List.sum_cons]
      simp only [share]
      push_cast
      ring

/-- The last player is left his own share and all that was cut. -/
theorem last_eq {init : List (Uid × Int)} {last : Uid × Int}
    (htotal : ((init ++ [last]).map Prod.snd).sum = userTotalBet) (hpos : 0 < userTotalBet) :
    (coinChange : ℚ) - 0 -
        (init.map fun entry => (⌊share coinChange userTotalBet entry * 100⌋ : ℚ) / 100).sum =
      share coinChange userTotalBet last + cut coinChange userTotalBet init := by
  have hcut := floor_add_cut coinChange userTotalBet init
  have hwhole : share coinChange userTotalBet (0, ((init ++ [last]).map Prod.snd).sum) =
      coinChange := by
    have hne : (userTotalBet : ℚ) ≠ 0 := by exact_mod_cast hpos.ne'
    rw [htotal, share, div_self hne, mul_one]
  rw [← sum_share, List.map_append, List.sum_append, List.map_singleton,
    List.sum_singleton] at hwhole
  linarith

/-- A share before it is cut is within the stake and goes the way of the door. -/
theorem share_bounds {entry : Uid × Int} (hstake : 0 < entry.2)
    (hwithin : |coinChange| ≤ userTotalBet)
    (hpos : 0 < userTotalBet) :
    |share coinChange userTotalBet entry| ≤ entry.2 ∧
      (0 ≤ coinChange → 0 ≤ share coinChange userTotalBet entry) ∧
        (coinChange ≤ 0 → share coinChange userTotalBet entry ≤ 0) := by
  have hstake' : (0 : ℚ) < entry.2 := by exact_mod_cast hstake
  have hpos' : (0 : ℚ) < userTotalBet := by exact_mod_cast hpos
  have hratio : 0 < (entry.2 : ℚ) / userTotalBet := div_pos hstake' hpos'
  refine ⟨?_, fun h => ?_, fun h => ?_⟩
  · have hwithin' : |(coinChange : ℚ)| ≤ userTotalBet := by exact_mod_cast hwithin
    calc |share coinChange userTotalBet entry|
        = |(coinChange : ℚ)| * ((entry.2 : ℚ) / userTotalBet) := by
          rw [share, abs_mul, abs_of_pos hratio]
      _ ≤ userTotalBet * ((entry.2 : ℚ) / userTotalBet) := by gcongr
      _ = entry.2 := mul_div_cancel₀ _ hpos'.ne'
  · exact mul_nonneg (by exact_mod_cast h) hratio.le
  · exact mul_nonpos_of_nonpos_of_nonneg (by exact_mod_cast h) hratio.le

/-- Cutting keeps a share within the stake, which is whole cents, and in its direction. -/
theorem floor_bounds {s : ℚ} {stake : Int} (hwithin : |s| ≤ stake) :
    |(⌊s * 100⌋ : ℚ) / 100| ≤ stake ∧ (0 ≤ s → 0 ≤ (⌊s * 100⌋ : ℚ) / 100) ∧
      (s ≤ 0 → (⌊s * 100⌋ : ℚ) / 100 ≤ 0) := by
  obtain ⟨hlow, hhigh⟩ := abs_le.mp hwithin
  have hfloor := Int.floor_le (s * 100)
  have hstake : (-stake * 100 : Int) ≤ ⌊s * 100⌋ := Int.le_floor.mpr (by push_cast; linarith)
  have hstake' : (-stake * 100 : ℚ) ≤ ⌊s * 100⌋ := by exact_mod_cast hstake
  refine ⟨abs_le.mpr ⟨by linarith, by linarith⟩, fun h => ?_, fun h => by linarith⟩
  have hzero : 0 ≤ ⌊s * 100⌋ := Int.floor_nonneg.mpr (by linarith)
  have hzero' : (0 : ℚ) ≤ ⌊s * 100⌋ := by exact_mod_cast hzero
  positivity

end Cuts

section Main

variable {coinChange userTotalBet : Int}

/-- All but the last are within their stakes anyway. -/
theorem proportionalShares_wellShared_iff {init : List (Uid × Int)} {last : Uid × Int}
    (hpositive : ∀ entry ∈ init ++ [last], 0 < entry.2)
    (htotal : ((init ++ [last]).map Prod.snd).sum = userTotalBet)
    (hwithin : |coinChange| ≤ userTotalBet) (hpos : 0 < userTotalBet) :
    WellShared coinChange (init ++ [last])
        (proportionalShares id coinChange userTotalBet 0 (init ++ [last])) ↔
      LastFits coinChange userTotalBet (init ++ [last]) := by
  have hfits : LastFits coinChange userTotalBet (init ++ [last]) ↔
      cut coinChange userTotalBet init ≤ last.2 *
        ((if coinChange ≥ 0 then userTotalBet - coinChange else -coinChange : Int) : ℚ) /
          userTotalBet := by
    simp [LastFits]
  have hne : (userTotalBet : ℚ) ≠ 0 := by exact_mod_cast hpos.ne'
  have hlast : ∀ entry ∈ init, 0 < entry.2 := fun entry hentry =>
    hpositive entry (List.mem_append_left _ hentry)
  have hstake : 0 < last.2 := hpositive last (by simp)
  have hstake' : (0 : ℚ) < last.2 := by exact_mod_cast hstake
  obtain ⟨hown, hup, hdown⟩ := share_bounds hstake hwithin hpos
  obtain ⟨hlow, hhigh⟩ := abs_le.mp hown
  have hcut := cut_nonneg coinChange userTotalBet init
  -- What the last player is left, against what his share leaves him.
  have hleft : LastFits coinChange userTotalBet (init ++ [last]) ↔
      |share coinChange userTotalBet last + cut coinChange userTotalBet init| ≤ last.2 ∧
        (coinChange ≤ 0 →
          share coinChange userTotalBet last + cut coinChange userTotalBet init ≤ 0) := by
    rw [hfits, abs_le]
    split_ifs with hsign
    · have hroom : (last.2 : ℚ) * ((userTotalBet - coinChange : Int) : ℚ) / userTotalBet =
          last.2 - share coinChange userTotalBet last := by
        rw [share]
        push_cast
        field_simp
      rw [hroom]
      have hgain := hup hsign
      refine ⟨fun h => ⟨⟨by linarith, by linarith⟩, fun hzero => ?_⟩, fun h => by linarith [h.1.2]⟩
      obtain rfl : coinChange = 0 := le_antisymm hzero hsign
      simp [share, cut]
    · have hroom : (last.2 : ℚ) * ((-coinChange : Int) : ℚ) / userTotalBet =
          -share coinChange userTotalBet last := by
        rw [share]
        push_cast
        field_simp
      rw [hroom]
      have hneg : coinChange ≤ 0 := by omega
      exact ⟨fun h => ⟨⟨by linarith, by linarith⟩, fun _ => by linarith⟩,
        fun h => by linarith [h.2 hneg]⟩
  rw [hleft, proportionalShares_append, last_eq htotal hpos]
  constructor
  · intro h
    have hwithin' := h.within _ (List.mem_append_right _ (List.mem_singleton_self _))
    have hloss := fun hneg => h.loss hneg _ (List.mem_append_right _ (List.mem_singleton_self _))
    exact ⟨hwithin', hloss⟩
  · rintro ⟨hwithin', hloss⟩
    have hinit := fun (entry : Uid × Int) (hentry : entry ∈ init) =>
      share_bounds (hlast entry hentry) hwithin hpos
    refine ⟨?_, ?_, fun h => ?_, fun h => ?_, ?_⟩
    · rw [List.map_append, List.map_map]
      simp [Function.comp_def]
    · have hrest := @last_eq coinChange _ _ _ htotal hpos
      simp only [sumShares, List.map_append, List.map_map, List.map_singleton, List.sum_append,
        List.sum_singleton, Function.comp_def]
      linarith
    · rw [List.forall_mem_append, List.forall_mem_map, List.forall_mem_singleton]
      exact ⟨fun entry hentry => (floor_bounds (hinit entry hentry).1).2.1
        ((hinit entry hentry).2.1 h),
        add_nonneg (hup h) hcut⟩
    · rw [List.forall_mem_append, List.forall_mem_map, List.forall_mem_singleton]
      exact ⟨fun entry hentry => (floor_bounds (hinit entry hentry).1).2.2
        ((hinit entry hentry).2.2 h),
        hloss h⟩
    · rw [List.forall_mem_append, List.forall_mem_map, List.forall_mem_singleton]
      exact ⟨fun entry hentry => (floor_bounds (hinit entry hentry).1).1, hwithin'⟩

/-- Nothing is cut when the whole stakes are won or lost. -/
theorem lastFits_of_whole {peopes : List (Uid × Int)} (hpositive : ∀ entry ∈ peopes, 0 < entry.2)
    (hpos : 0 < userTotalBet) (hall : userTotalBet = |coinChange|) :
    LastFits coinChange userTotalBet peopes := by
  have hne : (userTotalBet : ℚ) ≠ 0 := by exact_mod_cast hpos.ne'
  have hpos' : (0 : ℚ) < userTotalBet := by exact_mod_cast hpos
  have hwhole : ∀ entry, ∃ n : ℤ, share coinChange userTotalBet entry * 100 = n := by
    intro entry
    obtain hsign | hsign : coinChange = userTotalBet ∨ coinChange = -userTotalBet := by
      obtain h | h := abs_choice coinChange <;> omega
    · refine ⟨entry.2 * 100, ?_⟩
      rw [share, hsign]
      push_cast
      field_simp
    · refine ⟨-entry.2 * 100, ?_⟩
      rw [share, hsign]
      push_cast
      field_simp
  have hnone : ∀ peopes, cut coinChange userTotalBet peopes = 0 := by
    intro peopes
    refine List.sum_eq_zero (List.forall_mem_map.mpr fun entry _ => ?_)
    obtain ⟨n, hn⟩ := hwhole entry
    rw [hn, Int.fract_intCast, zero_div]
  intro last hlast
  have hstake : (0 : ℚ) < last.2 := by
    exact_mod_cast hpositive last (List.mem_of_getLast? hlast)
  have hroom : (0 : ℚ) ≤
      ((if coinChange ≥ 0 then userTotalBet - coinChange else -coinChange : Int) : ℚ) := by
    have hroom' : 0 ≤ if coinChange ≥ 0 then userTotalBet - coinChange else -coinChange := by
      split_ifs with hsign
      · rw [hall, abs_of_nonneg hsign, sub_self]
      · omega
    exact_mod_cast hroom'
  rw [hnone]
  positivity

theorem wellShared_of_whole {peopes : List (Uid × Int)} (hpositive : ∀ entry ∈ peopes, 0 < entry.2)
    (htotal : (peopes.map Prod.snd).sum = userTotalBet) (hpos : 0 < userTotalBet)
    (hall : userTotalBet = |coinChange|) :
    WellShared coinChange peopes (peopes.map fun entry =>
      ⟨entry.1, entry.2, if coinChange ≥ 0 then entry.2 else -entry.2⟩) := by
  have hstake : ∀ entry ∈ peopes, (0 : ℚ) < entry.2 := fun entry hentry => by
    exact_mod_cast hpositive entry hentry
  refine ⟨?_, ?_, fun h => ?_, fun h => ?_, ?_⟩
  · rw [List.map_map]
    simp [Function.comp_def]
  · exact sumShares_whole htotal hall
  · rw [List.forall_mem_map]
    intro entry hentry
    rw [if_pos h]
    exact (hstake entry hentry).le
  · rw [List.forall_mem_map]
    intro entry hentry
    have hneg : ¬coinChange ≥ 0 := fun hnonneg => by
      rw [le_antisymm h hnonneg, abs_zero] at hall
      omega
    rw [if_neg hneg]
    exact neg_nonpos.mpr (hstake entry hentry).le
  · rw [List.forall_mem_map]
    intro entry hentry
    have habs := abs_of_pos (hstake entry hentry)
    split_ifs
    · exact habs.le
    · rw [abs_neg]
      exact habs.le

/-- **A door's change is shared well** exactly if what was cut fits. The players come in any
order. -/
theorem doorShares_wellShared_iff (coinChange userTotalBet : Int) (peopes : List (Uid × Int))
    (hpositive : ∀ entry ∈ peopes, 0 < entry.2) (htotal : (peopes.map Prod.snd).sum = userTotalBet)
    (hwithin : |coinChange| ≤ userTotalBet) :
    (∃ shares, doorShares id coinChange (some userTotalBet) peopes = .ok shares ∧
        WellShared coinChange peopes shares) ↔
      LastFits coinChange userTotalBet peopes := by
  obtain rfl | ⟨init, last, rfl⟩ := List.eq_nil_or_concat' peopes
  · obtain rfl : coinChange = 0 := by
      rw [← htotal] at hwithin
      exact abs_nonpos_iff.mp hwithin
    refine iff_of_true ⟨[], rfl, ⟨rfl, by simp [sumShares], ?_, ?_, ?_⟩⟩ (by simp [LastFits])
    all_goals simp
  · have hne : init ++ [last] ≠ [] :=
      List.append_ne_nil_of_right_ne_nil init (List.cons_ne_nil last [])
    have hpos : 0 < userTotalBet := by
      rw [← htotal]
      refine List.sum_pos _ (List.forall_mem_map.mpr hpositive) ?_
      simp
    unfold doorShares
    rw [if_neg hne]
    dsimp only
    by_cases hall : userTotalBet = |coinChange|
    · rw [if_pos hall]
      exact iff_of_true ⟨_, rfl, wellShared_of_whole hpositive htotal hpos hall⟩
        (lastFits_of_whole hpositive hpos hall)
    · have hless : |coinChange| < userTotalBet := lt_of_le_of_ne hwithin fun h => hall h.symm
      rw [if_neg hall, if_pos hless, ← proportionalShares_wellShared_iff hpositive htotal
        hwithin hpos]
      constructor
      · rintro ⟨shares, hok, h⟩
        exact Except.ok.inj hok ▸ h
      · intro h
        exact ⟨_, rfl, h⟩

theorem wellShared_two : ∃ shares, doorShares id (-7) (some 15) [(1, 10), (2, 5)] = .ok shares ∧
    WellShared (-7) [(1, 10), (2, 5)] shares := by
  refine (doorShares_wellShared_iff (-7) 15 [(1, 10), (2, 5)] (by decide) rfl (by decide)).mpr ?_
  unfold LastFits
  decide +kernel

/-- Three stakes of 333 and one of a single coin, of which all but one coin is won: the last player
wins 1.02. -/
theorem not_wellShared_last :
    ¬∃ shares, doorShares id 999 (some 1000) [(1, 333), (2, 333), (3, 333), (4, 1)] = .ok shares ∧
      WellShared 999 [(1, 333), (2, 333), (3, 333), (4, 1)] shares := by
  rintro ⟨shares, hok, h⟩
  have hshares : doorShares id 999 (some 1000) [(1, 333), (2, 333), (3, 333), (4, 1)] =
      .ok [⟨1, 333, 33266 / 100⟩, ⟨2, 333, 33266 / 100⟩, ⟨3, 333, 33266 / 100⟩,
        ⟨4, 1, 102 / 100⟩] := by decide +kernel
  rw [hok, Except.ok.injEq] at hshares
  subst hshares
  have hlast := h.within ⟨4, 1, 102 / 100⟩ (by simp)
  norm_num at hlast

end Main

end SdyServer.Pk10
