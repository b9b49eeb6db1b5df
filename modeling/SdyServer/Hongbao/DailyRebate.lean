import Mathlib.Algebra.Group.Submonoid.BigOperators
import Mathlib.Algebra.Order.BigOperators.Group.List
import Mathlib.Data.List.Induction
import SdyServer.Hongbao.Room
import SdyServer.Lib.FloatColumn
import SdyServer.User.Booking

/-!
# The row of the daily rebate

The first round of a user after noon inserts a row of `t_ct_hb_daily_rebate`, and each further one
until the next noon updates it. What is added up is the change before the commission without its
sign, and the update computes the rebate from the amount that it is about to replace.

The numbers of the code are doubles, and the columns are of single precision: `FLOAT(20,2)`, and
`FLOAT(10,4)` for the rate. The amounts stay below the limit of such a column.
-/

namespace SdyServer.Hongbao.DailyRebate

open Rounding

section Model

/-- A row of `t_ct_hb_daily_rebate`, with what its columns hold. -/
structure RebateRow where
  roomId : Nat
  uid : Uid
  time : Int
  returnTime : Int
  coinChange : ℚ
  totalAmount : ℚ
  rateValue : ℚ
  rebateValue : ℚ
deriving DecidableEq, Repr

/-- `Config.hongbao_rate`. -/
def hongbaoRate : ℚ := 3 / 1000

/-- What a round brings a user: his net change, which the code has as a double, `resultData.time`,
the two times that are read while the row is written, and the noon of their day. -/
structure UserRound where
  isBanker : Bool
  coinChange : ℚ
  resultTime : Int
  now : Int
  noon : Int
  curTime : Int
deriving DecidableEq, Repr

/-- The loop of `game_result` over the result: `originalCoinChange`, and `coinChange` as it is after
the commission. -/
def UserRound.changes (round : UserRound) : ℚ × ℚ :=
  let coin := |double round.coinChange|
  if double round.coinChange > 0 then
    if round.isBanker then
      let pump := double (coin * double hbBankerWinPumpRate)
      (coin, double (round2 (double (coin - pump))))
    else
      let pump := double (coin * double hbUserWinPumpRate)
      (coin, double (round2 (double (coin - pump))))
  else (coin, double round.coinChange)

def UserRound.originalCoinChange (round : UserRound) : ℚ := round.changes.1

/-- `startTime` and `endTime` of `get_is_can_add`. -/
def UserRound.window (round : UserRound) : Option (Int × Int) :=
  if round.now ≤ round.noon ∧
    round.now > round.noon - 86400 then some (round.noon - 86400, round.noon)
  else if round.now > round.noon ∧ round.now ≤ round.noon + 86400 then
    some (round.noon, round.noon + 86400)
  else none

/-- `WHERE %d<time and time<=%d and room_id=%s and uid=%s`. -/
def RebateRow.listed (window : Int × Int) (roomId : Nat) (uid : Uid) (row : RebateRow) : Bool :=
  window.1 < row.time && row.time ≤ window.2 && row.roomId = roomId && row.uid = uid

/-- `SET coin_change=.., rebate_value=total_amount*rate_value, total_amount=.., time=..,
return_time=..`, from left to right: the rebate is that of the old amount. The two sums are texts of
14 digits. -/
def RebateRow.update (coinChange totalAmount : ℚ) (curTime : Int) (row : RebateRow) : RebateRow :=
  let row := { row with coinChange := store 2 (general coinChange) }
  let row := { row with rebateValue := store 2 (double (row.totalAmount * row.rateValue)) }
  let row := { row with totalAmount := store 2 (general totalAmount) }
  { row with time := curTime, returnTime := curTime + 86400 }

/-- The `sqlData` of a new row, as it is stored. -/
def UserRound.row (round : UserRound) (roomId : Nat) (uid : Uid) : RebateRow :=
  let totalAmount := |round.originalCoinChange|
  { roomId
    uid
    time := round.resultTime
    returnTime := round.resultTime + 86400
    coinChange := store 2 (general round.originalCoinChange)
    totalAmount := store 2 (general totalAmount)
    rateValue := store 4 (general (double hongbaoRate))
    rebateValue := store 2 (round2 (double (totalAmount * double hongbaoRate))) }

/-- `addDailyRebate`, for one user of the result. -/
def addDailyRebate (roomId : Nat) (uid : Uid) (table : List RebateRow) (round : UserRound) :
    Lua (List RebateRow) := do
  let window ← Lua.need .indexNil round.window
  match table.find? (RebateRow.listed window roomId uid) with
  | some sqlData =>
      let coinChange := double (double (fixed 2 sqlData.coinChange) + round.originalCoinChange)
      let totalAmount := double (double (fixed 2 sqlData.totalAmount) + |round.originalCoinChange|)
      return table.map fun row =>
        if row.listed window roomId uid then row.update coinChange totalAmount
          round.curTime else row
  | none => return table ++ [round.row roomId uid]

/-- The rounds of a user, one after the other. -/
def addRounds (roomId : Nat) (uid : Uid) (table : List RebateRow) (rounds : List UserRound) :
    Lua (List RebateRow) :=
  rounds.foldlM (addDailyRebate roomId uid) table

end Model

section Rounds

variable {round : UserRound} {rounds : List UserRound} {roomId : Nat} {uid : Uid} {start : Int}
  {table table' : List RebateRow}

theorem originalCoinChange_eq (round : UserRound) :
    round.originalCoinChange = |double round.coinChange| := by
  unfold UserRound.originalCoinChange UserRound.changes
  dsimp only
  split_ifs <;> rfl

/-- All times of the round are in the window that starts at a noon. -/
structure UserRound.Within (start : Int) (round : UserRound) : Prop where
  window : round.window = some (start, start + 86400)
  resultTime : start < round.resultTime ∧ round.resultTime ≤ start + 86400
  curTime : start < round.curTime ∧ round.curTime ≤ start + 86400

def signedTotal (rounds : List UserRound) : ℚ := (rounds.map UserRound.coinChange).sum

def absTotal (rounds : List UserRound) : ℚ := (rounds.map fun round => |round.coinChange|).sum

theorem signedTotal_concat (rounds : List UserRound) (round : UserRound) :
    signedTotal (rounds ++ [round]) = signedTotal rounds + round.coinChange := by simp [signedTotal]

theorem absTotal_concat (rounds : List UserRound) (round : UserRound) :
    absTotal (rounds ++ [round]) = absTotal rounds + |round.coinChange| := by simp [absTotal]

theorem absTotal_mem (hcents : ∀ round ∈ rounds, round.coinChange ∈ wholeCents) :
    absTotal rounds ∈ wholeCents := by
  refine list_sum_mem fun x hx => ?_
  obtain ⟨round, hround, rfl⟩ := List.mem_map.1 hx
  exact abs_mem_wholeCents (hcents round hround)

/-- The signs were dropped for nothing exactly when no round was lost. -/
theorem absTotal_eq_signedTotal_iff (rounds : List UserRound) :
    absTotal rounds = signedTotal rounds ↔ ∀ round ∈ rounds, 0 ≤ round.coinChange := by
  induction rounds using List.reverseRecOn with
  | nil => simp [absTotal, signedTotal]
  | append_singleton rounds round ih =>
      have hle : signedTotal rounds ≤ absTotal rounds :=
        List.sum_le_sum fun round _ => le_abs_self round.coinChange
      rw [List.forall_mem_append, List.forall_mem_singleton, ← ih, absTotal_concat,
        signedTotal_concat]
      have habs := le_abs_self round.coinChange
      constructor
      · intro h
        refine ⟨by linarith, abs_eq_self.1 (by linarith)⟩
      · rintro ⟨h, hround⟩
        rw [h, abs_of_nonneg hround]

/-- What is stored as the rebate behind some rounds: in the first round the insert's, of the new
amount, and then the update's, of the amount before, as its column holds it. -/
def lastRebate (before : List UserRound) (coin : ℚ) : ℚ :=
  if before = [] then round2 (double (coin * double hongbaoRate))
  else double (single (absTotal before) * single hongbaoRate)

/-- The row after some rounds. Its sums are without signs. -/
structure RowOf (start : Int) (before : List UserRound) (round : UserRound) (row : RebateRow) :
    Prop where
  time : start < row.time ∧ row.time ≤ start + 86400
  sums : ∃ x, |x - absTotal (before ++ [round])| ≤ absTotal (before ++ [round]) / 2 ^ 44 ∧
    row.coinChange = store 2 x ∧ row.totalAmount = store 2 x
  rateValue : row.rateValue = single hongbaoRate
  rebateValue : row.rebateValue = store 2 (lastRebate before |double round.coinChange|)

theorem absTotal_nonneg (rounds : List UserRound) : 0 ≤ absTotal rounds :=
  List.sum_nonneg fun x hx => by
    obtain ⟨round, -, rfl⟩ := List.mem_map.1 hx
    exact abs_nonneg _

/-- The text of a sum is nearly the sum. -/
theorem general_near {s total : ℚ} (htotal : 0 ≤ total) (hs : |s - total| ≤ total / 2 ^ 51) :
    |general s - total| ≤ total / 2 ^ 44 := by
  have hgeneral := abs_general_sub_le s
  have hs' : |s| ≤ total + total / 2 ^ 51 := by
    have := abs_sub_abs_le_abs_sub s total
    rw [abs_of_nonneg htotal] at this
    linarith
  have htri := abs_sub_le (general s) s total
  linarith

theorem abs_double_near (x : ℚ) : abs (|double x| - |x|) ≤ |x| / 2 ^ 53 :=
  (abs_abs_sub_abs_le _ _).trans (abs_double_sub_le x)

/-- A change that is added to a sum, in doubles. -/
theorem double_add_near {sum coin total : ℚ} (hsum : 0 ≤ sum)
    (hcoin : |coin - total| ≤ total / 2 ^ 53)
    (htotal : 0 ≤ total) :
    |double (double sum + coin) - (sum + total)| ≤ (sum + total) / 2 ^ 51 := by
  have hdouble := abs_double_sub_le_of_nonneg hsum
  have hadd := abs_double_sub_le_of_nonneg (x := double sum + coin) (by
    have := double_nonneg hsum
    have := (abs_le.1 hcoin).1
    linarith)
  rw [abs_le] at *
  constructor <;> linarith

theorem addRounds_concat (before : List UserRound) (round : UserRound) :
    addRounds roomId uid table (before ++ [round]) =
      addRounds roomId uid table before >>= fun table => addDailyRebate roomId uid table round := by
  rw [addRounds, List.foldlM_append]
  refine bind_congr fun table => ?_
  simp only [List.foldlM_cons, List.foldlM_nil, bind_pure]

theorem rateColumn_eq : store 4 (general (double hongbaoRate)) = single hongbaoRate := by
  decide +kernel

/-- The first round of a window inserts its row. -/
theorem addDailyRebate_insert
    (hfree : ∀ row ∈ table, row.listed (start, start + 86400) roomId uid = false)
    (hwithin : round.Within start) :
    ∃ table' row, addDailyRebate roomId uid table round = .ok table' ∧
      table'.filter (RebateRow.listed (start, start + 86400) roomId uid) = [row] ∧
      RowOf start [] round row := by
  have hnone : table.find? (RebateRow.listed (start, start + 86400) roomId uid) = none :=
    List.find?_eq_none.2 fun row hrow => by simp [hfree row hrow]
  have hold : table.filter (RebateRow.listed (start, start + 86400) roomId uid) = [] :=
    List.filter_eq_nil_iff.2 fun row hrow => by simp [hfree row hrow]
  have htotal : absTotal ([] ++ [round]) = |round.coinChange| := by simp [absTotal]
  unfold addDailyRebate
  rw [hwithin.window, Lua.need_some, Lua.ok_bind, hnone]
  refine ⟨_, round.row roomId uid, rfl, ?_, hwithin.resultTime, ?_, rateColumn_eq, ?_⟩
  · rw [List.filter_append, hold, List.nil_append]
    exact List.filter_cons_of_pos (by simp [RebateRow.listed, UserRound.row, hwithin.resultTime])
  · refine ⟨general |double round.coinChange|, ?_, ?_, ?_⟩
    · rw [htotal]
      refine general_near (abs_nonneg _) ((abs_double_near _).trans ?_)
      have := abs_nonneg round.coinChange
      linarith
    · rw [← originalCoinChange_eq]
      rfl
    · rw [← abs_abs (double round.coinChange), ← originalCoinChange_eq]
      rfl
  · rw [lastRebate, if_pos rfl, ← abs_abs (double round.coinChange), ← originalCoinChange_eq]
    rfl

/-- A further round updates it. -/
theorem addDailyRebate_update {before : List UserRound} {last : UserRound} {row : RebateRow}
    (hone : table.filter (RebateRow.listed (start, start + 86400) roomId uid) = [row])
    (hkeeps : Keeps (absTotal (before ++ [last]))) (hwithin : round.Within start)
    (hcoin : row.coinChange = single (absTotal (before ++ [last])))
    (hamount : row.totalAmount = single (absTotal (before ++ [last])))
    (hrate : row.rateValue = single hongbaoRate) :
    ∃ table' row', addDailyRebate roomId uid table round = .ok table' ∧
      table'.filter (RebateRow.listed (start, start + 86400) roomId uid) = [row'] ∧
      RowOf start (before ++ [last]) round row' := by
  have hfind : table.find? (RebateRow.listed (start, start + 86400) roomId uid) = some row := by
    rw [← List.head?_filter, hone]
    rfl
  unfold addDailyRebate
  rw [hwithin.window, Lua.need_some, Lua.ok_bind, hfind]
  dsimp only
  rw [originalCoinChange_eq, abs_abs, hcoin, hamount, hkeeps]
  refine ⟨_, row.update (double (double (absTotal (before ++ [last])) + |double round.coinChange|))
    (double (double (absTotal (before ++ [last])) + |double round.coinChange|)) round.curTime, rfl,
    ?_, hwithin.curTime, ?_, hrate, ?_⟩
  · -- an updated row stays in the window, and no other one gets into it
    have hlisted : ∀ (coin : ℚ) (row : RebateRow), RebateRow.listed
        (start, start + 86400) roomId uid
        (if row.listed (start, start + 86400) roomId uid then row.update coin coin round.curTime
          else row) = row.listed (start, start + 86400) roomId uid := by
      intro coin row
      by_cases hrow : row.listed (start, start + 86400) roomId uid = true
      · rw [if_pos hrow, hrow]
        simp only [RebateRow.listed, Bool.and_eq_true, decide_eq_true_eq] at hrow
        simp [RebateRow.listed, RebateRow.update, hwithin.curTime, hrow.1.2, hrow.2]
      · rw [if_neg hrow]
    have hmem := List.mem_filter.1 (hone ▸ List.mem_singleton_self row)
    rw [List.filter_map]
    simp only [Function.comp_def, hlisted]
    rw [hone, List.map_singleton, if_pos hmem.2]
  · refine ⟨_, ?_, rfl, rfl⟩
    rw [absTotal_concat (before ++ [last]) round]
    exact general_near
      (add_nonneg (absTotal_nonneg (before ++ [last])) (abs_nonneg round.coinChange))
      (double_add_near (absTotal_nonneg _) (abs_double_near _) (abs_nonneg _))
  · rw [lastRebate, if_neg (by simp), ← hamount, ← hrate]
    rfl

end Rounds

section Rebates

variable {roomId : Nat} {uid : Uid} {start : Int} {table : List RebateRow} {rounds : List UserRound}
  {tolerance : ℚ}

/-- The row of the user in a window shows the sums of his rounds, and a rebate that is as near to
`total_amount * rate_value` as is asked for. -/
structure RebateRight (start : Int) (roomId : Nat) (uid : Uid) (rounds : List UserRound)
    (tolerance : ℚ) (table : List RebateRow) : Prop where
  right : ∃ row, table.filter (RebateRow.listed (start, start + 86400) roomId uid) = [row] ∧
    fixed 2 row.coinChange = signedTotal rounds ∧ fixed 2 row.totalAmount = absTotal rounds ∧
    fixed 4 row.rateValue = hongbaoRate ∧
    |fixed 2 row.rebateValue - fixed 2 row.totalAmount * fixed 4 row.rateValue| ≤ tolerance

/-- A round behind which the row is right, when it was right before: it is not lost, the new amount
is one that the column keeps, and the rebate that is stored is near enough to that of the new
amount. -/
structure UserRound.Fits (tolerance : ℚ) (before : List UserRound) (round : UserRound) : Prop where
  won : 0 ≤ round.coinChange
  kept : Keeps (absTotal (before ++ [round]))
  rebate : |fixed 2 (store 2 (lastRebate before (double round.coinChange))) -
    absTotal (before ++ [round]) * hongbaoRate| ≤ tolerance

theorem rate_shown : fixed 4 (single hongbaoRate) = hongbaoRate := by decide +kernel

theorem store_total {before : List UserRound} {round : UserRound}
    (hcents : ∀ r ∈ before ++ [round], r.coinChange ∈ wholeCents) {x : ℚ}
    (hx : |x - absTotal (before ++ [round])| ≤ absTotal (before ++ [round]) / 2 ^ 44) :
    fixed 2 (store 2 x) = absTotal (before ++ [round]) ∧
        store 2 x = single (absTotal (before ++ [round])) ∧ Keeps (absTotal (before ++ [round])) ∨
      fixed 2 (store 2 x) ≠ absTotal (before ++ [round]) ∧
      ¬Keeps (absTotal (before ++ [round])) := by
  obtain ⟨c, hc⟩ := mem_wholeCents_iff.1 (absTotal_mem hcents)
  have hpos := absTotal_nonneg (before ++ [round])
  rw [hc] at hx hpos ⊢
  have hc0 : (0 : ℚ) ≤ c := by linarith
  exact store_near (by exact_mod_cast hc0) hx

/-- Behind rounds that were not lost, a row is right just when the round fits. -/
theorem RowOf.right_iff {before : List UserRound} {round : UserRound} {row : RebateRow}
    (hrow : RowOf start before round row)
    (hone : table.filter (RebateRow.listed (start, start + 86400) roomId uid) = [row])
    (hcents : ∀ r ∈ before ++ [round], r.coinChange ∈ wholeCents)
    (hwon : ∀ r ∈ before, 0 ≤ r.coinChange) :
    RebateRight start roomId uid (before ++ [round]) tolerance table ↔
    round.Fits tolerance before := by
  obtain ⟨x, hx, hcoin, hamount⟩ := hrow.sums
  have hsigned : absTotal (before ++ [round]) = signedTotal (before ++ [round]) ↔
      0 ≤ round.coinChange := by
    rw [absTotal_eq_signedTotal_iff, List.forall_mem_append, List.forall_mem_singleton]
    exact and_iff_right hwon
  have hstore := store_total hcents hx
  constructor
  · rintro ⟨row', hone', hcoin', hamount', hrate', hrebate'⟩
    obtain rfl : row = row' := by simpa [hone] using hone'
    rw [hcoin] at hcoin'
    rw [hrate', hamount', hrow.rebateValue] at hrebate'
    rw [hamount] at hamount'
    have hround := hsigned.1 (hamount'.symm.trans hcoin')
    rw [abs_of_nonneg (double_nonneg hround)] at hrebate'
    rcases hstore with ⟨-, -, hkeeps⟩ | ⟨hne, -⟩
    · exact ⟨hround, hkeeps, hrebate'⟩
    · exact absurd hamount' hne
  · rintro ⟨hround, hkeeps, hrebate⟩
    rcases hstore with ⟨hshown, -, -⟩ | ⟨-, hnot⟩
    · refine ⟨row, hone, ?_, ?_, ?_, ?_⟩
      · rw [hcoin, hshown, hsigned.2 hround]
      · rw [hamount, hshown]
      · rw [hrow.rateValue, rate_shown]
      · rw [hamount, hshown, hrow.rateValue, rate_shown, hrow.rebateValue,
          abs_of_nonneg (double_nonneg hround)]
        exact hrebate
    · exact absurd hkeeps hnot

/-- The rounds of a window have left one row in it, when the amounts before the last one were
kept. -/
theorem addRounds_spec
    (hfree : ∀ row ∈ table, row.listed (start, start + 86400) roomId uid = false)
    (before : List UserRound) (round : UserRound)
    (hwithin : ∀ r ∈ before ++ [round], r.Within start)
    (hcents : ∀ r ∈ before ++ [round], r.coinChange ∈ wholeCents)
    (hkept : ∀ earlier last, earlier ++ [last] <+: before → Keeps (absTotal (earlier ++ [last]))) :
    ∃ table' row, addRounds roomId uid table (before ++ [round]) = .ok table' ∧
      table'.filter (RebateRow.listed (start, start + 86400) roomId uid) = [row] ∧
      RowOf start before round row := by
  induction before using List.reverseRecOn generalizing round with
  | nil =>
      rw [addRounds_concat]
      exact addDailyRebate_insert hfree (hwithin round (by simp))
  | append_singleton before last ih =>
      have hbefore : ∀ r ∈ before ++ [last], r.coinChange ∈ wholeCents := fun r hr =>
        hcents r (List.mem_append_left _ hr)
      obtain ⟨table', row, htable', hone, hrow⟩ := ih last
        (fun r hr => hwithin r (List.mem_append_left _ hr)) hbefore
        fun earlier r hbegin => hkept earlier r (hbegin.trans (List.prefix_append _ _))
      have hkeeps := hkept before last List.prefix_rfl
      obtain ⟨x, hx, hcoin, hamount⟩ := hrow.sums
      rcases store_total hbefore hx with ⟨-, hsingle, -⟩ | ⟨-, hnot⟩
      · rw [addRounds_concat, htable', Lua.ok_bind]
        exact addDailyRebate_update hone hkeeps (hwithin round (by simp)) (hcoin.trans hsingle)
          (hamount.trans hsingle) hrow.rateValue
      · exact absurd hkeeps hnot

/-- Behind rounds that fit, the row is right just when the next one fits too. -/
theorem addRounds_right_iff
    (hfree : ∀ row ∈ table, row.listed (start, start + 86400) roomId uid = false)
    (before : List UserRound) (round : UserRound)
    (hwithin : ∀ r ∈ before ++ [round], r.Within start)
    (hcents : ∀ r ∈ before ++ [round], r.coinChange ∈ wholeCents)
    (hfits : ∀ earlier last, earlier ++ [last] <+: before → last.Fits tolerance earlier) :
    (∃ table', addRounds roomId uid table (before ++ [round]) = .ok table' ∧
      RebateRight start roomId uid (before ++ [round]) tolerance table') ↔
        round.Fits tolerance before := by
  obtain ⟨table', row, htable', hone, hrow⟩ := addRounds_spec hfree before round hwithin hcents
    fun earlier last hbegin => (hfits earlier last hbegin).kept
  have hwon : ∀ r ∈ before, 0 ≤ r.coinChange := fun r hr => by
    obtain ⟨earlier, later, rfl⟩ := List.append_of_mem hr
    exact (hfits earlier r ⟨later, by simp⟩).won
  rw [← hrow.right_iff hone hcents hwon]
  constructor
  · rintro ⟨table'', htable'', hright⟩
    rw [htable'] at htable''
    cases htable''
    exact hright
  · exact fun hright => ⟨table', htable', hright⟩

/-- **The row of the daily rebate is right after each round just when all rounds fit**, whatever the
rebate is asked to keep to: half a cent, or nothing at all. -/
theorem dailyRebate_right_iff
    (hfree : ∀ row ∈ table, row.listed (start, start + 86400) roomId uid = false)
    (hwithin : ∀ r ∈ rounds, r.Within start) (hcents : ∀ r ∈ rounds, r.coinChange ∈ wholeCents)
    (tolerance : ℚ) :
    (∀ before round, before ++ [round] <+: rounds →
      ∃ table', addRounds roomId uid table (before ++ [round]) = .ok table' ∧
        RebateRight start roomId uid (before ++ [round]) tolerance table') ↔
      ∀ before round, before ++ [round] <+: rounds → round.Fits tolerance before := by
  have hstep : ∀ before round, before ++ [round] <+: rounds →
      (∀ earlier last, earlier ++ [last] <+: before → last.Fits tolerance earlier) →
        ((∃ table', addRounds roomId uid table (before ++ [round]) = .ok table' ∧
          RebateRight start roomId uid (before ++ [round]) tolerance table') ↔
            round.Fits tolerance before) := fun before round hbegin hfits =>
    addRounds_right_iff hfree before round (fun r hr => hwithin r (hbegin.subset hr))
      (fun r hr => hcents r (hbegin.subset hr)) hfits
  refine ⟨fun hright before => ?_, fun hfits before round hbegin => ?_⟩
  · induction hlength : before.length using Nat.strong_induction_on generalizing before with
    | h n ih =>
        intro round hbegin
        refine (hstep before round hbegin fun earlier last h => ?_).1 (hright before round hbegin)
        have hshorter := h.length_le
        rw [List.length_append, List.length_singleton] at hshorter
        exact ih earlier.length (by omega) earlier rfl last
          (h.trans ((List.prefix_append before [round]).trans hbegin))
  · exact (hstep before round hbegin fun earlier last h => hfits earlier last
      (h.trans ((List.prefix_append before [round]).trans hbegin))).2 (hfits before round hbegin)

/-- The insert's rebate is a nearest cent of `total_amount * rate_value`, for amounts below
131072. -/
theorem insert_rebate {c : ℤ} (hc : 0 ≤ c) (hlt : (c : ℚ) / 100 < 2 ^ 17) :
    |fixed 2 (store 2 (round2 (double (double (c / 100) * double hongbaoRate)))) -
      c / 100 * hongbaoRate| ≤ 1 / 200 := by
  have hT : (0 : ℚ) ≤ c / 100 := by positivity
  have hamount := abs_double_sub_le_of_nonneg hT
  have hamount0 := double_nonneg hT
  have hrate : |double hongbaoRate - hongbaoRate| ≤ 1 / 2 ^ 60 := by decide +kernel
  have hrate0 : hongbaoRate = 3 / 1000 := rfl
  generalize double hongbaoRate = r at *
  generalize double ((c : ℚ) / 100) = a at *
  have hproduct : |a * r - c / 100 * hongbaoRate| ≤ 1 / 2 ^ 40 := by
    have hsplit : a * r - c / 100 * hongbaoRate =
        (a - c / 100) * r + c / 100 * (r - hongbaoRate) := by ring
    rw [abs_le] at hamount hrate
    have hr : 0 ≤ r ∧ r ≤ 1 := by constructor <;> linarith
    rw [hsplit, abs_le]
    constructor <;> nlinarith
  have hproduct0 : 0 ≤ a * r := mul_nonneg hamount0 (by linarith [(abs_le.1 hrate).1])
  rw [hrate0] at hproduct ⊢
  have hdouble := abs_double_sub_le_of_nonneg hproduct0
  have hround := abs_round2_sub_le (double (a * r))
  obtain ⟨k, hk⟩ := mem_wholeCents_iff.1 (round2_mem (double (a * r)))
  have hnear : |(k : ℚ) / 100 - c / 100 * (3 / 1000)| ≤ 1 / 200 + 1 / 2 ^ 30 := by
    rw [hk] at hround
    rw [abs_le] at *
    constructor <;> linarith
  have hk0 : 0 ≤ k := by
    by_contra! hneg
    have : (k : ℚ) ≤ -1 := by exact_mod_cast Int.le_sub_one_of_lt hneg
    linarith [(abs_le.1 hnear).1]
  have hklt : (k : ℚ) / 100 < 2 ^ 17 := by linarith [(abs_le.1 hnear).2]
  have hshown : fixed 2 (store 2 ((k : ℚ) / 100)) = k / 100 := by
    rcases store_near (x := (k : ℚ) / 100) hk0 (by rw [sub_self, abs_zero]; positivity) with h | h
    · exact h.1
    · exact absurd (keeps_of_lt hk0 hklt) h.2
  rw [hk, hshown]
  -- both are whole thousandths of a cent
  have hscale : (k : ℚ) / 100 - c / 100 * (3 / 1000) = ((1000 * k - 3 * c : ℤ) : ℚ) / 100000 := by
    push_cast
    ring
  rw [hscale, abs_div, abs_of_pos (by norm_num : (0 : ℚ) < 100000)] at hnear ⊢
  rw [← Int.cast_abs] at hnear ⊢
  have hint : |1000 * k - 3 * c| < 501 := by
    have : ((|1000 * k - 3 * c| : ℤ) : ℚ) < 501 := by linarith
    exact_mod_cast this
  have hle : ((|1000 * k - 3 * c| : ℤ) : ℚ) ≤ 500 := by exact_mod_cast Int.lt_add_one_iff.1 hint
  linarith

/-- A first round that is won fits to the cent, for amounts below 131072. -/
theorem fits_first {round : UserRound} (hcents : round.coinChange ∈ wholeCents)
    (hwon : 0 ≤ round.coinChange) (hlt : round.coinChange < 2 ^ 17) :
    round.Fits (1 / 200) [] := by
  obtain ⟨c, hc⟩ := mem_wholeCents_iff.1 hcents
  have htotal : absTotal ([] ++ [round]) = c / 100 := by
    rw [← hc, ← abs_of_nonneg hwon]
    simp [absTotal]
  rw [hc] at hwon hlt
  have hc0 : 0 ≤ c := by
    have : (0 : ℚ) ≤ c := by linarith
    exact_mod_cast this
  refine ⟨hc ▸ hwon, ?_, ?_⟩
  · rw [htotal]
    exact keeps_of_lt hc0 hlt
  · rw [htotal, lastRebate, if_pos rfl, hc]
    exact insert_rebate hc0 hlt

/-- A round of an afternoon. -/
def afternoonRound (coinChange : ℚ) (now : Int) : UserRound :=
  { isBanker := false, coinChange, resultTime := now, now, noon := 0, curTime := now }

theorem afternoonRound_within (coinChange : ℚ) {now : Int} (hnow : 0 < now ∧ now ≤ 86400) :
    (afternoonRound coinChange now).Within 0 := by
  refine ⟨?_, by simpa [afternoonRound] using hnow, by simpa [afternoonRound] using hnow⟩
  have hafter : ¬(now ≤ 0 ∧ now > 0 - 86400) := by omega
  have hbefore : now > 0 ∧ now ≤ 0 + 86400 := by omega
  rw [UserRound.window]
  show (if now ≤ 0 ∧ now > 0 - 86400 then _ else if now > 0 ∧ now ≤ 0 + 86400 then _ else _) = _
  rw [if_neg hafter, if_pos hbefore]
  rfl

theorem afternoonRounds_within {first second : ℚ} :
    ∀ r ∈ [afternoonRound first 60, afternoonRound second 120], r.Within 0 := by
  simp only [List.forall_mem_cons]
  exact ⟨afternoonRound_within _ (by norm_num), afternoonRound_within _ (by norm_num), by simp⟩

theorem afternoonRounds_cents (first second : ℤ) :
    ∀ r ∈ [afternoonRound first 60, afternoonRound second 120], r.coinChange ∈ wholeCents := by
  simp only [List.forall_mem_cons]
  exact ⟨intCast_mem_wholeCents first, intCast_mem_wholeCents second, by simp⟩

/-- A hundred and then one: the rebate of the first amount is the nearest cent for both. -/
theorem dailyRebate_right_iff_smallRound :
    ∃ table', addRounds 5 7 [] [afternoonRound (100 : ℤ) 60, afternoonRound (1 : ℤ) 120] =
        .ok table' ∧
      RebateRight 0 5 7 [afternoonRound (100 : ℤ) 60, afternoonRound (1 : ℤ) 120] (1 / 200)
        table' := by
  refine (dailyRebate_right_iff (by simp) afternoonRounds_within (afternoonRounds_cents 100 1)
    (1 / 200)).2 (fun before round hbegin => ?_) [afternoonRound (100 : ℤ) 60]
      (afternoonRound (1 : ℤ) 120) (List.prefix_refl _)
  have hsplit : before = [] ∧ round = afternoonRound (100 : ℤ) 60 ∨
      before = [afternoonRound (100 : ℤ) 60] ∧ round = afternoonRound (1 : ℤ) 120 := by
    rcases before with - | ⟨first, - | ⟨second, rest⟩⟩
    · simp at hbegin
      exact .inl ⟨rfl, by simp [hbegin]⟩
    · simp at hbegin
      exact .inr ⟨by simp [hbegin.1], by simp [hbegin.2]⟩
    · have := hbegin.length_le
      simp at this
  rcases hsplit with ⟨rfl, rfl⟩ | ⟨rfl, rfl⟩
  · exact fits_first (intCast_mem_wholeCents 100) (by decide +kernel) (by decide +kernel)
  · exact ⟨by decide +kernel, by decide +kernel, by decide +kernel⟩

/-- A lost round leaves the row wrong, whatever the rebate is asked to keep to. -/
theorem dailyRebate_not_right_of_lost (tolerance : ℚ) :
    ¬∀ before round,
      before ++ [round] <+: [afternoonRound (100 : ℤ) 60, afternoonRound (-100 : ℤ) 120] →
        ∃ table', addRounds 5 7 [] (before ++ [round]) = .ok table' ∧
          RebateRight 0 5 7 (before ++ [round]) tolerance table' := by
  intro hright
  have hiff := fun (before : List UserRound) (round : UserRound)
      (hwithin : ∀ r ∈ before ++ [round], r.Within 0)
      (hcents : ∀ r ∈ before ++ [round], r.coinChange ∈ wholeCents) =>
    @addRounds_right_iff 5 7 _ [] tolerance (by simp) before round hwithin hcents
  have hwithin := @afternoonRounds_within (100 : ℤ) (-100 : ℤ)
  have hcents := afternoonRounds_cents 100 (-100)
  have hfirst := (hiff [] (afternoonRound (100 : ℤ) 60) (fun r hr => hwithin r (by simp_all))
    (fun r hr => hcents r (by simp_all)) (fun earlier last h => by simp at h)).1
    (hright _ _ (by simp))
  have hsecond := (hiff [afternoonRound (100 : ℤ) 60] (afternoonRound (-100 : ℤ) 120) hwithin hcents
    fun earlier last h => by
      obtain ⟨rfl, rfl⟩ : earlier = [] ∧ last = afternoonRound (100 : ℤ) 60 := by
        rcases earlier with - | ⟨r, rest⟩
        · simpa using h
        · have := h.length_le
          simp at this
      exact hfirst).1 (hright _ _ List.prefix_rfl)
  exact absurd hsecond.won (by decide +kernel)

/-- A round that is won and one that is lost, read to the cent and exactly. -/
theorem dailyRebate_not_right :
    (¬∀ before round,
      before ++ [round] <+: [afternoonRound (100 : ℤ) 60, afternoonRound (-100 : ℤ) 120] →
        ∃ table', addRounds 5 7 [] (before ++ [round]) = .ok table' ∧
          RebateRight 0 5 7 (before ++ [round]) (1 / 200) table') ∧
    ¬∀ before round,
      before ++ [round] <+: [afternoonRound (100 : ℤ) 60, afternoonRound (-100 : ℤ) 120] →
        ∃ table', addRounds 5 7 [] (before ++ [round]) = .ok table' ∧
          RebateRight 0 5 7 (before ++ [round]) 0 table' :=
  ⟨dailyRebate_not_right_of_lost (1 / 200), dailyRebate_not_right_of_lost 0⟩

end Rebates

end SdyServer.Hongbao.DailyRebate
