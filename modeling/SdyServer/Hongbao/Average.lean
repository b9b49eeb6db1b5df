import Mathlib.Data.Rat.Floor
import Mathlib.Data.List.Induction
import Mathlib.Algebra.BigOperators.Group.List.Basic
import Mathlib.Tactic.Ring
import Mathlib.Tactic.Linarith

/-!
# The average bet

A reward depends on the average of what a user bet in the rounds it is for. One fold over the rows
of `t_ct_hb_result` is copied to the places that pay the reward and to those that show the average.
Its second sum starts again from the first one at every row.
-/

namespace SdyServer.Hongbao

section Rows

/-- The fields of a row of `t_ct_hb_result` that are read here. -/
structure ResultRow where
  betType : Int
  totalBetValue : ℚ
deriving DecidableEq, Repr

/-- `total.S1` or `total.S2`. -/
structure BetTotal where
  ju : Nat := 0
  betType : Option Int := none
  betValue : Option ℚ := none

/-- `S1` is for `niuniu`, `S2` for the other bets. -/
structure Total where
  s1 : BetTotal := {}
  s2 : BetTotal := {}

/-- The body of the loop. Both branches read the value of `S1`. -/
def Total.add (total : Total) (data : ResultRow) : Total :=
  if data.betType = 1 then
    { total with s1 :=
        { ju := total.s1.ju + 1
          betType := some data.betType
          betValue := some (total.s1.betValue.getD 0 + data.totalBetValue) } }
  else
    { total with s2 :=
        { ju := total.s2.ju + 1
          betType := some data.betType
          betValue := some (total.s1.betValue.getD 0 + data.totalBetValue) } }

def betTotal (res : List ResultRow) : Total := res.foldl Total.add {}

/-- `(M1 + M2/10)/count`. -/
def Total.average (total : Total) (count : Nat) : ℚ :=
  (total.s1.betValue.getD 0 + total.s2.betValue.getD 0 / 10) / count

/-- In `WinningStreakResult`. -/
def winningStreakAverage (res : List ResultRow) (winCount : Nat) : ℚ :=
  (betTotal res).average winCount

/-- In `handleUserTidyTogether`. -/
def handleTidyTogetherAverage (res : List ResultRow) (tidyTogetherNum : Nat) : ℚ :=
  (betTotal res).average tidyTogetherNum

/-- `tidy_together_average` before its last `math.floor`. -/
def tidyTogetherAverage (res : List ResultRow) : ℚ :=
  (betTotal res).average ((betTotal res).s1.ju + (betTotal res).s2.ju)

/-- `winning_steak_averages`: an average after every row. -/
def winningSteakAverages (res : List ResultRow) : List ℤ :=
  (res.foldl (fun (state : Total × List ℤ) data =>
    let total := state.1.add data
    (total, state.2 ++ [⌊total.average (total.s1.ju + total.s2.ju)⌋])) ({}, [])).2

end Rows

section Sums

variable {res before after : List ResultRow} {data : ResultRow}

/-- What was bet on `niuniu`. -/
def niuniuBets (res : List ResultRow) : ℚ :=
  (res.map fun data => if data.betType = 1 then data.totalBetValue else 0).sum

/-- What was bet on anything else. -/
def otherBets (res : List ResultRow) : ℚ :=
  (res.map fun data => if data.betType = 1 then 0 else data.totalBetValue).sum

/-- The average that the rewards are meant for. -/
def meanBet (res : List ResultRow) (count : Nat) : ℚ :=
  (niuniuBets res + otherBets res / 10) / count

theorem niuniuBets_append (res res' : List ResultRow) :
    niuniuBets (res ++ res') = niuniuBets res + niuniuBets res' := by simp [niuniuBets]

theorem otherBets_append (res res' : List ResultRow) :
    otherBets (res ++ res') = otherBets res + otherBets res' := by simp [otherBets]

theorem otherBets_perm {res res' : List ResultRow} (hperm : res.Perm res') :
    otherBets res = otherBets res' := (hperm.map _).sum_eq

theorem betTotal_concat (res : List ResultRow) (data : ResultRow) :
    betTotal (res ++ [data]) = (betTotal res).add data := by simp [betTotal]

theorem betTotal_ju (res : List ResultRow) :
    (betTotal res).s1.ju + (betTotal res).s2.ju = res.length := by
  induction res using List.reverseRecOn with
  | nil => rfl
  | append_singleton res data ih =>
      rw [betTotal_concat, List.length_append, List.length_singleton, ← ih]
      unfold Total.add
      split_ifs
      · exact Nat.add_right_comm ..
      · rfl

theorem betTotal_s1 (res : List ResultRow) :
    (betTotal res).s1.betValue.getD 0 = niuniuBets res := by
  induction res using List.reverseRecOn with
  | nil => rfl
  | append_singleton res data ih =>
      rw [betTotal_concat, niuniuBets_append, ← ih]
      unfold Total.add
      split_ifs with htype <;> simp [niuniuBets, htype]

/-- The second sum is what the last row of its kind made of the first one. -/
theorem betTotal_s2 (hdata : data.betType ≠ 1) (hafter : ∀ row ∈ after, row.betType = 1) :
    (betTotal (before ++ data :: after)).s2.betValue.getD 0 = niuniuBets before +
    data.totalBetValue := by
  induction after using List.reverseRecOn with
  | nil =>
      rw [betTotal_concat, ← betTotal_s1]
      simp [Total.add, hdata]
  | append_singleton after row ih =>
      rw [List.forall_mem_append, List.forall_mem_singleton] at hafter
      rw [← List.cons_append, ← List.append_assoc, betTotal_concat, ← ih hafter.1]
      simp [Total.add, hafter.2]

theorem betTotal_s2_of_niuniu (hres : ∀ row ∈ res, row.betType = 1) :
    (betTotal res).s2.betValue.getD 0 = 0 := by
  induction res using List.reverseRecOn with
  | nil => rfl
  | append_singleton res row ih =>
      rw [List.forall_mem_append, List.forall_mem_singleton] at hres
      have hsame : ((betTotal res).add row).s2 = (betTotal res).s2 := by simp [Total.add, hres.2]
      rw [betTotal_concat, hsame]
      exact ih hres.1

theorem otherBets_of_niuniu (hres : ∀ row ∈ res, row.betType = 1) : otherBets res = 0 := by
  apply List.sum_eq_zero
  intro x hx
  obtain ⟨row, hrow, rfl⟩ := List.mem_map.1 hx
  exact if_pos (hres row hrow)

/-- The last row that is not for `niuniu`. -/
theorem exists_last_other (hres : ¬∀ row ∈ res, row.betType = 1) : ∃ before data after,
    res = before ++ data :: after ∧ data.betType ≠ 1 ∧ ∀ row ∈ after, row.betType = 1 := by
  induction res using List.reverseRecOn with
  | nil => simp at hres
  | append_singleton res row ih =>
      by_cases hrow : row.betType = 1
      · obtain ⟨before, data, after, rfl, hdata, hafter⟩ := ih fun hall => hres (by
          rw [List.forall_mem_append, List.forall_mem_singleton]
          exact ⟨hall, hrow⟩)
        refine ⟨before, data, after ++ [row], by simp, hdata, ?_⟩
        rw [List.forall_mem_append, List.forall_mem_singleton]
        exact ⟨hafter, hrow⟩
      · exact ⟨res, row, [], rfl, hrow, by simp⟩

/-- Before the last row that is not for `niuniu`, as much was bet on `niuniu` as on anything
else. -/
def Balanced (res : List ResultRow) : Prop :=
  ∀ before data after, res = before ++ data :: after → data.betType ≠ 1 →
    (∀ row ∈ after, row.betType = 1) → niuniuBets before = otherBets before

theorem betTotal_s2_iff (res : List ResultRow) :
    (betTotal res).s2.betValue.getD 0 = otherBets res ↔ Balanced res := by
  have hsplit : ∀ before data after, data.betType ≠ 1 → (∀ row ∈ after, row.betType = 1) →
      ((betTotal (before ++ data :: after)).s2.betValue.getD 0 =
        otherBets (before ++ data :: after) ↔
        niuniuBets before = otherBets before) := by
    intro before data after hdata hafter
    have hone : otherBets [data] = data.totalBetValue := by simp [otherBets, hdata]
    rw [betTotal_s2 hdata hafter, ← List.singleton_append, otherBets_append, otherBets_append, hone,
      otherBets_of_niuniu hafter, add_zero]
    exact add_left_inj _
  constructor
  · rintro hsum before data after rfl hdata hafter
    exact (hsplit before data after hdata hafter).1 hsum
  · intro hbalanced
    by_cases hres : ∀ row ∈ res, row.betType = 1
    · rw [betTotal_s2_of_niuniu hres, otherBets_of_niuniu hres]
    · obtain ⟨before, data, after, rfl, hdata, hafter⟩ := exists_last_other hres
      exact (hsplit before data after hdata hafter).2 (hbalanced before data after rfl hdata hafter)

theorem average_iff (res : List ResultRow) {count : Nat} (hcount : 0 < count) :
    (betTotal res).average count = meanBet res count ↔ Balanced res := by
  have hne : (count : ℚ) ≠ 0 := by exact_mod_cast hcount.ne'
  rw [← betTotal_s2_iff, Total.average, meanBet, betTotal_s1, div_left_inj' hne, add_right_inj,
    div_left_inj' (by norm_num)]

end Sums

section Orders

variable {res : List ResultRow} {data row : ResultRow}

theorem balanced_concat (hdata : data.betType ≠ 1) {before after : List ResultRow}
    (hafter : ∀ row ∈ after, row.betType = 1) (hbalanced : Balanced (before ++ data :: after)) :
    niuniuBets before = otherBets before :=
  hbalanced before data after rfl hdata hafter

theorem otherBets_filter (res : List ResultRow) :
    otherBets (res.filter fun row => row.betType ≠ 1) = otherBets res := by
  have hsplit :=
    otherBets_perm (List.filter_append_perm (fun row : ResultRow => decide (row.betType ≠ 1)) res)
  have hrest : otherBets (res.filter fun row => !decide (row.betType ≠ 1)) = 0 :=
    otherBets_of_niuniu fun row hrow => by simpa using (List.mem_filter.1 hrow).2
  rwa [otherBets_append, hrest, add_zero] at hsplit

theorem niuniuBets_of_other (hres : ∀ row ∈ res, row.betType ≠ 1) : niuniuBets res = 0 := by
  apply List.sum_eq_zero
  intro x hx
  obtain ⟨row, hrow, rfl⟩ := List.mem_map.1 hx
  exact if_neg (hres row hrow)

/-- The rows can be put in an order in which a row that is not for `niuniu` stands last of its kind,
after some of the others. -/
theorem otherBets_eq_zero_of_orders (horders : ∀ res', res'.Perm res → Balanced res')
    {rest : List ResultRow}
    (hdata : data.betType ≠ 1) (hperm : (data :: rest).Perm res) : otherBets rest = 0 := by
  set others := rest.filter fun row => row.betType ≠ 1 with hothers
  set niuniu := rest.filter fun row => !decide (row.betType ≠ 1) with hniuniu
  have hsplit : (others ++ data :: niuniu).Perm res :=
    List.perm_middle.trans ((List.filter_append_perm _ rest).cons data |>.trans hperm)
  have hbalanced :=
    balanced_concat hdata (fun row hrow => by simpa [hniuniu] using (List.mem_filter.1 hrow).2)
    (horders _ hsplit)
  rw [niuniuBets_of_other fun row hrow => by simpa [hothers] using (List.mem_filter.1 hrow).2,
    hothers, otherBets_filter] at hbalanced
  exact hbalanced.symm

theorem otherBets_cons (hdata : data.betType ≠ 1) (res : List ResultRow) :
    otherBets (data :: res) = data.totalBetValue + otherBets res := by simp [otherBets, hdata]

/-- Rows with one value add up to a multiple of it. -/
theorem exists_otherBets_eq_mul {value : ℚ}
    (hres : ∀ row ∈ res, row.betType ≠ 1 → row.totalBetValue = value) :
    ∃ m : ℕ, otherBets res = m * value := by
  induction res with
  | nil => exact ⟨0, by simp [otherBets]⟩
  | cons row res ih =>
      rw [List.forall_mem_cons] at hres
      obtain ⟨m, hm⟩ := ih hres.2
      by_cases hrow : row.betType = 1
      · exact ⟨m, by rw [← hm]; simp [otherBets, hrow]⟩
      · refine ⟨m + 1, ?_⟩
        rw [otherBets_cons hrow, hm, hres.1 hrow]
        push_cast
        ring

/-- Next to a bet that is not on `niuniu` nothing was bet. -/
def OneBet (res : List ResultRow) : Prop :=
  ∀ data ∈ res, data.betType ≠ 1 → ∀ row ∈ res.erase data, row.totalBetValue = 0

theorem balanced_orders_iff (res : List ResultRow) :
    (∀ res', res'.Perm res → Balanced res') ↔ OneBet res := by
  constructor
  · intro horders data hmem hdata row hrow
    have hperm : (data :: row :: (res.erase data).erase row).Perm res :=
      ((List.perm_cons_erase hrow).symm.cons data).trans (List.perm_cons_erase hmem).symm
    set rest := (res.erase data).erase row
    have hzero := otherBets_eq_zero_of_orders horders hdata hperm
    by_cases hniuniu : row.betType = 1
    · -- the row can stand before the last bet of the other kind, the rest of its kind after it
      have horder : ((rest.filter fun row => row.betType ≠ 1) ++ [row] ++
          data :: rest.filter fun row => !decide (row.betType ≠ 1)).Perm res := by
        refine List.perm_middle.trans (List.Perm.trans (List.Perm.cons data ?_) hperm)
        rw [List.append_assoc, List.singleton_append]
        exact List.perm_middle.trans ((List.filter_append_perm _ rest).cons row)
      have hbalanced := balanced_concat hdata
        (fun row hrow => by simpa using (List.mem_filter.1 hrow).2) (horders _ horder)
      have hrest : otherBets (row :: rest) = otherBets rest := by simp [otherBets, hniuniu]
      have hone : niuniuBets [row] = row.totalBetValue := by simp [niuniuBets, hniuniu]
      rw [niuniuBets_append, otherBets_append, otherBets_filter, ← hrest, hzero, zero_add, hone,
        niuniuBets_of_other fun row hrow => by simpa using (List.mem_filter.1 hrow).2, zero_add]
          at hbalanced
      rw [hbalanced]
      exact otherBets_of_niuniu (by simpa using hniuniu)
    · -- every bet of the other kind is all that was bet, the two of them together as well
      have hall : ∀ other ∈ rest, other.betType ≠ 1 → other.totalBetValue = row.totalBetValue := by
        intro other hother htype
        have hmem' : other ∈ res :=
          hperm.mem_iff.1 (List.mem_cons_of_mem _ (List.mem_cons_of_mem _ hother))
        have h1 := otherBets_eq_zero_of_orders horders htype (List.perm_cons_erase hmem').symm
        have h2 := otherBets_eq_zero_of_orders horders hniuniu ((List.Perm.swap _ _ _).trans hperm)
        have h1' := otherBets_perm (List.perm_cons_erase hmem')
        have h2' := otherBets_perm ((List.Perm.swap _ _ _).trans hperm)
        rw [otherBets_cons htype, h1] at h1'
        rw [otherBets_cons hniuniu, h2] at h2'
        linarith
      obtain ⟨m, hm⟩ := exists_otherBets_eq_mul hall
      rw [otherBets_cons hniuniu, hm] at hzero
      have hmul : ((m : ℚ) + 1) * row.totalBetValue = 0 := by linarith
      have hpos : (m : ℚ) + 1 ≠ 0 := by positivity
      exact (mul_eq_zero.1 hmul).resolve_left hpos
  · rintro hone res' hperm before data after rfl hdata hafter
    have hmem : data ∈ res := hperm.mem_iff.1 (by simp)
    have hrest : (before ++ after).Perm (res.erase data) :=
      (List.cons_perm_iff_perm_erase.1 (List.perm_middle.symm.trans hperm)).2
    have hzero : ∀ row ∈ before, row.totalBetValue = 0 := fun row hrow =>
      hone data hmem hdata row (hrest.mem_iff.1 (List.mem_append_left _ hrow))
    have hleft : niuniuBets before = 0 := List.sum_eq_zero fun x hx => by
      obtain ⟨row, hrow, rfl⟩ := List.mem_map.1 hx
      simp [hzero row hrow]
    have hright : otherBets before = 0 := List.sum_eq_zero fun x hx => by
      obtain ⟨row, hrow, rfl⟩ := List.mem_map.1 hx
      simp [hzero row hrow]
    rw [hleft, hright]

end Orders

section Averages

/-- The three averages are the one that the rewards are meant for. -/
structure AveragesRight (res : List ResultRow) (winCount tidyTogetherNum : Nat) : Prop where
  winningStreak : winningStreakAverage res winCount = meanBet res winCount
  handleTidyTogether : handleTidyTogetherAverage res tidyTogetherNum = meanBet res tidyTogetherNum
  tidyTogether : tidyTogetherAverage res = meanBet res res.length

theorem averagesRight_iff_balanced {res : List ResultRow} (hres : res ≠ [])
    {winCount tidyTogetherNum : Nat}
    (hwin : 0 < winCount) (htidy : 0 < tidyTogetherNum) :
    AveragesRight res winCount tidyTogetherNum ↔ Balanced res := by
  constructor
  · intro h
    exact (average_iff res hwin).1 h.winningStreak
  · intro h
    refine ⟨(average_iff res hwin).2 h, (average_iff res htidy).2 h, ?_⟩
    rw [tidyTogetherAverage, betTotal_ju]
    exact (average_iff res (List.length_pos_of_ne_nil hres)).2 h

/-- The averages that are paid for and shown agree, right or wrong, where the counts do. -/
theorem winningStreakAverage_eq_tidyTogether (res : List ResultRow) :
    winningStreakAverage res res.length = tidyTogetherAverage res := by
  rw [tidyTogetherAverage, betTotal_ju]
  rfl

theorem winningSteakAverages_concat (res : List ResultRow) (data : ResultRow) :
    winningSteakAverages (res ++ [data]) =
      winningSteakAverages res ++ [⌊tidyTogetherAverage (res ++ [data])⌋] := by
  have hstate : ∀ res : List ResultRow, (res.foldl (fun (state : Total × List ℤ) data =>
      (state.1.add data, state.2 ++
        [⌊(state.1.add data).average ((state.1.add data).s1.ju + (state.1.add data).s2.ju)⌋]))
        ({}, [])).1 = betTotal res := by
    intro res
    induction res using List.reverseRecOn with
    | nil => rfl
    | append_singleton res row ih =>
        rw [List.foldl_append, List.foldl_cons, List.foldl_nil, ih, betTotal_concat]
  rw [winningSteakAverages, List.foldl_append, List.foldl_cons, List.foldl_nil, hstate,
    tidyTogetherAverage,
    betTotal_concat]
  rfl

/-- **The averages are right when the rows before the last bet that is not on `niuniu` balance**, as
much on `niuniu` as on the others. They are right in every order of the rows when such a bet stands
alone. -/
theorem averages_right_iff {res : List ResultRow} (hres : res ≠ []) {winCount tidyTogetherNum : Nat}
    (hwin : 0 < winCount) (htidy : 0 < tidyTogetherNum) :
    (AveragesRight res winCount tidyTogetherNum ↔ Balanced res) ∧
      ((∀ res', res'.Perm res → AveragesRight res' winCount tidyTogetherNum) ↔ OneBet res) := by
  refine ⟨averagesRight_iff_balanced hres hwin htidy, ?_⟩
  rw [← balanced_orders_iff]
  refine forall₂_congr fun res' hperm => averagesRight_iff_balanced ?_ hwin htidy
  rintro rfl
  exact hres hperm.nil_eq.symm

theorem averages_right_iff_sixBets :
    (AveragesRight (List.replicate 6 ⟨1, 60⟩) 6 1 ↔ Balanced (List.replicate 6 ⟨1, 60⟩)) ∧
      ((∀ res', res'.Perm (List.replicate 6 ⟨1, 60⟩) → AveragesRight res' 6 1) ↔
        OneBet (List.replicate 6 ⟨1, 60⟩)) :=
  averages_right_iff (by decide) (by decide) (by decide)

theorem averages_not_right :
    ¬∀ (res : List ResultRow) (winCount tidyTogetherNum : Nat), res ≠ [] → 0 < winCount →
      0 < tidyTogetherNum → AveragesRight res winCount tidyTogetherNum := by
  intro h
  have hright :=
    (h (List.replicate 6 ⟨2, 600⟩) 6 6 (by decide) (by decide) (by decide)).winningStreak
  norm_num [winningStreakAverage, betTotal, Total.add, Total.average, meanBet,
    niuniuBets, otherBets,
    List.replicate] at hright

end Averages

end SdyServer.Hongbao
