import Mathlib.Algebra.BigOperators.Ring.List
import SdyServer.Pk10.Cents
import SdyServer.Pk10.Machine

/-!
# The settlement and the computed result

`getResult` and `logic.result` decide on their own when a round counts. Without a banker they agree:
both ask for bets on two doors. With a banker `getResult` counts every round, while `logic.result`
books none with bets on a single door. On several doors the books close exactly when the banker
takes what the players lose, which fails for a door whose total is below zero and for a banker who
has bet himself. Besides, an amount that a client has sent as a text stops the settlement where it
is the change of its player, and a commission that ends in half a cent is charged and left out at
different cents.
-/

namespace SdyServer.Pk10

open Rounding

section Statement

def sumPeople (people : LuaTable Uid Int) : Int := (people.entries.map Prod.snd).sum

def Synced (betData : BetDoorData) (totals : LuaTable Door Int) : Prop :=
  ∀ door, totals.get door = (betData.get door).map sumPeople

structure Round where
  room : Room
  kj : Draw
  drawn : room.kjHao = .text kj
  synced : Synced (room.betDoorData.getD ∅) (room.totalBetValueList.getD ∅)

/-- What the comparison leaves behind. -/
def Room.withResult (room : Room) (computed : Result) : Room :=
  { room with result := some computed, resultTexts := room.changeTexts }

/-- The batch that a settlement hands to the account service. -/
def sentAccts : Slice → List UserAcct
  | (_, .call (.result userAccts)) => userAccts
  | _ => []

/-- The settlement of a room against the result that was computed for it: the wins and losses handed
over for each player, the amounts stored afterwards, and the sum of the batch, the last two in
cents. -/
structure Agrees (room : Room) (computed : Result) : Prop where
  net : ∀ uid, sumFor uid UserAcct.winLoss (sentAccts (result (room.withResult computed))) =
    changeOf computed.users uid
  details : ∀ settled uid detail, (result (room.withResult computed)).1.result = some settled →
    settled.details.get uid = some detail →
    round2 detail.coinChange = round2 (changeOf computed.users uid) -
      sumFor uid UserAcct.commission (sentAccts (result (room.withResult computed)))
  sum : batchWinLoss (sentAccts (result (room.withResult computed))) = 0

def Round.Agrees (round : Round) : Prop :=
  round.room.comparesText = false →
    ∀ computed, round.room.computed = .ok computed → Pk10.Agrees round.room computed

/-- The number of bets on record, those of a player on one door counted as one. -/
def betCount (betData : BetDoorData) : ℕ := (betData.entries.map fun entry => entry.2.size).sum

def totalStake (betData : BetDoorData) : ℤ :=
  (betData.entries.map fun entry => staked entry.2.entries).sum

/-- The bets leave room for the cents in a double. -/
def Round.Small (round : Round) : Prop :=
  Moderate (betCount (round.room.betDoorData.getD ∅))
    (totalStake (round.room.betDoorData.getD ∅) + 1)

def Round.doors (round : Round) : List Info :=
  doorInfos round.room.info.calculatedBits (round.room.totalBetValueList.getD ∅) round.kj

def Round.others (round : Round) : List Info :=
  round.doors.filter fun info => some info.door ≠ round.room.bankerSeat

def Round.bankerInfo (round : Round) : Option Info :=
  round.doors.find? fun info => some info.door = round.room.bankerSeat

def ownBet (betData : BetDoorData) (banker : Uid) (door : Door) : Int :=
  (((betData.get door).getD ∅).get banker).getD 0

/-- What a door brings out of balance: its outcome twice where the total is below zero, and the
banker's own bet on it, with the sign of the outcome. -/
def misbooked (betData : BetDoorData) (banker : Uid) (bankerInfo info : Info) : Int :=
  (if info.totalBet.getD 0 < 0 then 2 * bankerDoorChange bankerInfo info else 0) +
    (bankerDoorChange bankerInfo info).sign * ownBet betData banker info.door

/-- With a banker, bets on at most one door have to add up to nothing, and on several doors the
misbooked amounts have to cancel. -/
def Round.Balanced (round : Round) : Prop :=
  match round.bankerInfo, round.room.banker with
  | some bankerInfo, some banker =>
      if round.room.betDoors ≤ 1 then ∀ info ∈ round.others, info.totalBet.getD 0 = 0
      else (round.others.map
        (misbooked (round.room.betDoorData.getD ∅) banker bankerInfo)).sum = 0
  | _, _ => True

/-- `g.result` can be booked: a change that is a text is zero, and every win can be parted. -/
structure Bookable (room : Room) (computed : Result) : Prop where
  numbers : ∀ uid user, computed.users.get uid = some user → uid ∈ room.changeTexts →
    user.coinChange = 0
  parted : ∀ uid user, computed.users.get uid = some user → 0 < user.coinChange →
    Parted user.coinChange

def Round.Bookable (round : Round) : Prop :=
  round.room.betDoors > 1 →
    ∀ computed, round.room.computed = .ok computed → Pk10.Bookable round.room computed

end Statement

section Batch

theorem winLoss_winLoseAccts (uid : Uid) (entry : Uid × UserResult) :
    sumFor uid UserAcct.winLoss (winLoseAccts entry) =
      if entry.1 = uid then entry.2.coinChange else 0 := by
  rcases lt_trichotomy entry.2.coinChange 0 with hneg | hzero | hpos
  · simp [winLoseAccts, not_lt.mpr hneg.le, hneg, sumFor, UserAcct.winLoss, abs_of_neg hneg]
  · simp [winLoseAccts, hzero, sumFor]
  · simp [winLoseAccts, hpos, sumFor, UserAcct.winLoss, abs_of_pos hpos]

theorem batchWinLoss_winLoseAccts (entry : Uid × UserResult) :
    batchWinLoss (winLoseAccts entry) = toCents entry.2.coinChange / 100 := by
  unfold winLoseAccts
  split_ifs with hpos hneg
  · simp [batchWinLoss, UserAcct.booked, abs_of_pos hpos, round2_eq_toCents]
  · simp [batchWinLoss, UserAcct.booked, abs_of_neg hneg, round2_eq_toCents, toCents_neg, neg_div]
  · have hzero : entry.2.coinChange = 0 := le_antisymm (not_lt.mp hpos) (not_lt.mp hneg)
    simp [batchWinLoss, hzero, toCents_zero]

def pumpCharged (user : UserResult) : ℚ := ((pumpOf user).map round2).getD 0

theorem commission_pumpAccts (gameOwner uid : Uid) (entry : Uid × UserResult) :
    sumFor uid UserAcct.commission (pumpAccts gameOwner entry) =
      if entry.1 = uid then pumpCharged entry.2 else 0 := by
  unfold pumpAccts pumpCharged
  cases pumpOf entry.2 with
  | none => simp [sumFor]
  | some pump => simp [sumFor, UserAcct.commission]

theorem sumFor_flatMap (uid : Uid) (f : UserAcct → ℚ) (g : Uid × UserResult → List UserAcct)
    (entries : List (Uid × UserResult)) :
    sumFor uid f (entries.flatMap g) = (entries.map fun entry => sumFor uid f (g entry)).sum := by
  induction entries with
  | nil => rfl
  | cons entry entries ih =>
      rw [List.flatMap_cons, sumFor_append, ih, List.map_cons, List.sum_cons]

theorem batchWinLoss_flatMap (g : Uid × UserResult → List UserAcct)
    (entries : List (Uid × UserResult)) :
    batchWinLoss (entries.flatMap g) = (entries.map fun entry => batchWinLoss (g entry)).sum := by
  induction entries with
  | nil => rfl
  | cons entry entries ih =>
      rw [List.flatMap_cons, batchWinLoss_append, ih, List.map_cons, List.sum_cons]

/-- The entries that only move stakes, and those of the commission, decide nothing. -/
theorem stake_accts (room : Room) (type : AcctType) (coin : ℚ)
    (htype : type = .giveBack ∨ type = .freeze) :
    ∀ acct ∈ bankerAccts room type coin ++ betBackAccts room,
      acct.winLoss = 0 ∧ acct.commission = 0 ∧ acct.booked = 0 := by
  intro acct hacct
  rcases List.mem_append.mp hacct with hacct | hacct
  · unfold bankerAccts at hacct
    cases hbanker : room.banker with
    | none => simp [hbanker] at hacct
    | some banker =>
        rw [hbanker] at hacct
        rw [List.mem_singleton.mp hacct]
        rcases htype with rfl | rfl
        · exact ⟨rfl, rfl, rfl⟩
        · exact ⟨rfl, rfl, rfl⟩
  · obtain ⟨entry, -, rfl⟩ := List.mem_map.mp hacct
    exact ⟨rfl, rfl, rfl⟩

theorem winLoss_of_mem_pumpAccts {gameOwner : Uid} {entry : Uid × UserResult} {acct : UserAcct}
    (hacct : acct ∈ pumpAccts gameOwner entry) : acct.winLoss = 0 ∧ acct.booked = 0 := by
  unfold pumpAccts at hacct
  cases hpump : pumpOf entry.2 with
  | none => simp [hpump] at hacct
  | some pump =>
      simp only [hpump, List.mem_cons, List.not_mem_nil, or_false] at hacct
      rcases hacct with rfl | rfl
      · exact ⟨rfl, rfl⟩
      · exact ⟨rfl, rfl⟩

theorem commission_of_mem_winLoseAccts {entry : Uid × UserResult} {acct : UserAcct}
    (hacct : acct ∈ winLoseAccts entry) : acct.commission = 0 := by
  unfold winLoseAccts at hacct
  split_ifs at hacct
  · rw [List.mem_singleton.mp hacct]
    rfl
  · rw [List.mem_singleton.mp hacct]
    rfl
  · exact absurd hacct List.not_mem_nil

theorem winLoss_resultAccts (room : Room) (uid : Uid) :
    sumFor uid UserAcct.winLoss (resultAccts room) =
      (room.paidUsers.map fun entry => if entry.1 = uid then entry.2.coinChange else 0).sum := by
  have hpump : sumFor uid UserAcct.winLoss
      (room.paidUsers.flatMap (pumpAccts room.info.gameOwner)) = 0 := by
    apply sumFor_eq_zero
    intro acct hacct
    obtain ⟨entry, -, hacct⟩ := List.mem_flatMap.mp hacct
    exact (winLoss_of_mem_pumpAccts hacct).1
  have hback := fun acct h => (stake_accts room .giveBack room.bankerGameCoin (.inl rfl) acct h).1
  have hfreeze := fun acct (h : acct ∈ bankerAccts room .freeze room.newBankerCoin) =>
    (stake_accts room .freeze room.newBankerCoin (.inr rfl) acct (List.mem_append_left _ h)).1
  rw [resultAccts, sumFor_append, sumFor_append, sumFor_append, hpump, sumFor_eq_zero hback,
    sumFor_eq_zero hfreeze, sumFor_flatMap, zero_add, add_zero, add_zero]
  simp only [winLoss_winLoseAccts]

theorem commission_resultAccts (room : Room) (uid : Uid) :
    sumFor uid UserAcct.commission (resultAccts room) =
      (room.paidUsers.map fun entry => if entry.1 = uid then pumpCharged entry.2 else 0).sum := by
  have hwin : sumFor uid UserAcct.commission (room.paidUsers.flatMap winLoseAccts) = 0 := by
    apply sumFor_eq_zero
    intro acct hacct
    obtain ⟨entry, -, hacct⟩ := List.mem_flatMap.mp hacct
    exact commission_of_mem_winLoseAccts hacct
  have hback := fun acct h => (stake_accts room .giveBack room.bankerGameCoin (.inl rfl) acct h).2.1
  have hfreeze := fun acct (h : acct ∈ bankerAccts room .freeze room.newBankerCoin) =>
    (stake_accts room .freeze room.newBankerCoin (.inr rfl) acct (List.mem_append_left _ h)).2.1
  rw [resultAccts, sumFor_append, sumFor_append, sumFor_append, hwin, sumFor_eq_zero hback,
    sumFor_eq_zero hfreeze, sumFor_flatMap, zero_add, zero_add, add_zero]
  simp only [commission_pumpAccts]

theorem batchWinLoss_resultAccts (room : Room) :
    batchWinLoss (resultAccts room) =
      ((room.paidUsers.map fun entry => toCents entry.2.coinChange).sum : ℤ) / 100 := by
  have hpump : batchWinLoss (room.paidUsers.flatMap (pumpAccts room.info.gameOwner)) = 0 := by
    apply batchWinLoss_eq_zero
    intro acct hacct
    obtain ⟨entry, -, hacct⟩ := List.mem_flatMap.mp hacct
    exact (winLoss_of_mem_pumpAccts hacct).2
  have hback := fun acct h => (stake_accts room .giveBack room.bankerGameCoin (.inl rfl) acct h).2.2
  have hfreeze := fun acct (h : acct ∈ bankerAccts room .freeze room.newBankerCoin) =>
    (stake_accts room .freeze room.newBankerCoin (.inr rfl) acct (List.mem_append_left _ h)).2.2
  rw [resultAccts, batchWinLoss_append, batchWinLoss_append, batchWinLoss_append, hpump,
    batchWinLoss_eq_zero hback, batchWinLoss_eq_zero hfreeze, batchWinLoss_flatMap, zero_add,
    add_zero, add_zero]
  simp only [batchWinLoss_winLoseAccts]
  induction room.paidUsers with
  | nil => simp
  | cons entry entries ih =>
      rw [List.map_cons, List.sum_cons, ih, List.map_cons, List.sum_cons, Int.cast_add, add_div]

end Batch

section Settled

theorem pumpOf_eq (user : UserResult) :
    pumpOf user = if user.coinChange > 0 then some (charge user.coinChange) else none := by
  have hrate : (if user.isBanker then pkBankerWinPumpRate else pkUserWinPumpRate) = 5 / 100 := by
    cases user.isBanker <;> rfl
  rw [pumpOf, hrate]
  rfl

theorem settledUser_coinChange (user : UserResult) : (settledUser user).coinChange =
    if user.coinChange > 0 then double (round2 (left user.coinChange)) else user.coinChange := by
  rw [settledUser, pumpOf_eq]
  split_ifs <;> rfl

/-- What is left after the commission, in cents. -/
theorem settledUser_cents_iff {user : UserResult} (hcertain : Certain user.coinChange) :
    round2 (settledUser user).coinChange = round2 user.coinChange - pumpCharged user ↔
      (0 < user.coinChange → Parted user.coinChange) := by
  rw [settledUser_coinChange, pumpCharged, pumpOf_eq]
  by_cases hpos : user.coinChange > 0
  · rw [if_pos hpos, if_pos hpos, Option.map_some, Option.getD_some, forall_prop_of_true hpos,
      ← parted_iff hcertain, round2_double_round2 (abs_left_le hcertain), round2_eq_toCents,
      round2_eq_toCents, round2_eq_toCents, ← sub_div, div_left_inj' (by norm_num), ← Int.cast_sub,
      Int.cast_inj]
  · rw [if_neg hpos, if_neg hpos]
    exact iff_of_true (sub_zero _).symm fun h => absurd h hpos

theorem get_refreshDetail (details : LuaTable Uid Detail) (entry : Uid × UserResult) (uid : Uid) :
    (refreshDetail details entry).get uid =
      if entry.1 = uid then (details.get uid).map
      (Detail.refresh entry.2) else details.get uid := by
  unfold refreshDetail
  split_ifs with huid
  · subst huid
    cases hdetail : details.get entry.1 with
    | none => simp [hdetail]
    | some detail => simp
  · cases details.get entry.1 with
    | none => rfl
    | some detail => exact LuaTable.get_set_of_ne details _ huid

theorem get_foldl_refreshDetail {entries : List (Uid × UserResult)}
    (hnodup : (entries.map Prod.fst).Nodup) {uid : Uid} {user : UserResult}
    (huser : LuaTable.getEntry uid entries = some user) (details : LuaTable Uid Detail) :
    (entries.foldl refreshDetail details).get uid =
      (details.get uid).map (Detail.refresh user) := by
  induction entries generalizing details with
  | nil => cases huser
  | cons entry entries ih =>
      rw [List.map_cons, List.nodup_cons] at hnodup
      rw [List.foldl_cons]
      by_cases huid : entry.1 = uid
      · -- The rest of the loop does not come back to this user.
        subst huid
        have heq : entry.2 = user := by simpa [LuaTable.getEntry] using huser
        have hrest : ∀ (entries : List (Uid × UserResult)) (details : LuaTable Uid Detail),
            entry.1 ∉ entries.map Prod.fst →
            (entries.foldl refreshDetail details).get entry.1 = details.get entry.1 := by
          intro entries
          induction entries with
          | nil => intro details _; rfl
          | cons head entries ih =>
              intro details hnot
              rw [List.map_cons, List.mem_cons, not_or] at hnot
              rw [List.foldl_cons, ih _ hnot.2, get_refreshDetail, if_neg (Ne.symm hnot.1)]
        rw [hrest entries _ hnodup.1, get_refreshDetail, if_pos rfl, heq]
      · have huser' : LuaTable.getEntry uid entries = some user := by
          simpa [LuaTable.getEntry, huid] using huser
        rw [ih hnodup.2 huser', get_refreshDetail, if_neg huid]

theorem mem_keys_refreshDetail {details : LuaTable Uid Detail} {entries : List (Uid × UserResult)}
    {uid : Uid} (huid : uid ∈ (entries.foldl refreshDetail details).keys) : uid ∈ details.keys := by
  induction entries generalizing details with
  | nil => exact huid
  | cons entry entries ih =>
      have hmem := ih huid
      rw [LuaTable.mem_keys_iff, get_refreshDetail] at hmem
      obtain ⟨detail, hdetail⟩ := hmem
      rw [LuaTable.mem_keys_iff]
      split_ifs at hdetail
      · obtain ⟨old, hold, -⟩ := Option.map_eq_some_iff.mp hdetail
        exact ⟨old, hold⟩
      · exact ⟨detail, hdetail⟩

/-- What is stored for a player is what his entry in `g.result.users` ends with. -/
theorem get_refreshDetails {users : LuaTable Uid UserResult} {uid : Uid} {user : UserResult}
    (huser : users.get uid = some user) (details : LuaTable Uid Detail) :
    (refreshDetails users details).get uid = (details.get uid).map (Detail.refresh user) :=
  get_foldl_refreshDetail users.nodupKeys huser details

/-- A player with a detail is one of the users. -/
theorem exists_user {users : LuaTable Uid UserResult} {details : LuaTable Uid Detail}
    (hkeys : ∀ uid ∈ details.keys, uid ∈ users.keys) {uid : Uid} {detail : Detail}
    (hdetail : (refreshDetails users details).get uid = some detail) :
    ∃ user, users.get uid = some user ∧ detail.coinChange = user.coinChange := by
  have hmem : uid ∈ (refreshDetails users details).keys :=
    (LuaTable.mem_keys_iff _).mpr ⟨detail, hdetail⟩
  obtain ⟨user, huser⟩ := (LuaTable.mem_keys_iff _).mp (hkeys uid (mem_keys_refreshDetail hmem))
  rw [get_refreshDetails huser] at hdetail
  obtain ⟨old, -, rfl⟩ := Option.map_eq_some_iff.mp hdetail
  exact ⟨user, huser, rfl⟩

theorem mem_keys_mapValues (users : LuaTable Uid UserResult) (uid : Uid) :
    uid ∈ (users.mapValues settledUser).keys ↔ uid ∈ users.keys := by
  simp [LuaTable.keys, LuaTable.mapValues]

theorem settledResult_withResult (room : Room) (computed : Result) :
    (room.withResult computed).settledResult =
      let users := if room.betDoors > 1 then computed.users.mapValues settledUser
        else computed.users
      some ⟨users, refreshDetails users computed.details⟩ := rfl

theorem resultPaid_call (room : Room) (userAccts : List UserAcct) :
    (resultPaid room).2 ≠ .call (.result userAccts) := by
  unfold resultPaid resultStored
  split_ifs
  · simp
  · cases room.banker with
    | none => simp
    | some banker =>
        dsimp only
        split_ifs <;> simp

theorem result_resultPaid (room : Room) : (resultPaid room).1.result = room.result := by
  unfold resultPaid resultStored
  split_ifs
  · rfl
  · cases room.banker with
    | none => rfl
    | some banker =>
        dsimp only
        split_ifs <;> rfl

theorem sentAccts_eq_nil {slice : Slice} (h : ∀ userAccts, slice.2 ≠ .call (.result userAccts)) :
    sentAccts slice = [] := by
  unfold sentAccts
  split
  · exact absurd rfl (h _)
  · rfl

theorem sentAccts_result {room : Room} (hgoes : ¬room.paidUsers.any room.stopsAt) :
    sentAccts (result room) = resultAccts room ∧ (result room).1.result = room.settledResult := by
  rw [result, if_neg hgoes]
  dsimp only
  by_cases hnone : resultAccts room = []
  · rw [if_pos hnone, hnone, result_resultPaid]
    exact ⟨sentAccts_eq_nil (resultPaid_call _), rfl⟩
  · rw [if_neg hnone]
    exact ⟨rfl, rfl⟩

variable {room : Room} {computed : Result}

/-- A text stops the settlement before anything is handed over. -/
theorem not_agrees_of_stops {entry : Uid × UserResult}
    (hentry : entry ∈ (room.withResult computed).paidUsers)
    (hstops : (room.withResult computed).stopsAt entry = true) (hdoors : room.betDoors > 1) :
    ¬Agrees room computed := by
  intro h
  have hany : (room.withResult computed).paidUsers.any (room.withResult computed).stopsAt :=
    List.any_eq_true.mpr ⟨entry, hentry, hstops⟩
  have hnone : sentAccts (result (room.withResult computed)) = [] := by
    rw [result, if_pos hany]
    rfl
  have hpaid : (room.withResult computed).paidUsers = computed.users.entries := if_pos hdoors
  have hnet := h.net entry.1
  rw [hpaid] at hentry
  rw [hnone, changeOf, (LuaTable.get_eq_some_iff _).mpr hentry] at hnet
  simp only [Room.stopsAt, Bool.and_eq_true, decide_eq_true_eq] at hstops
  exact hstops.2 hnet.symm

/-- On several doors the batch follows the result. What is open is the sum, the texts and the
parts. -/
theorem agrees_iff_of_several (hdoors : room.betDoors > 1) (hdetails : DetailsOk computed)
    (hcertain : ∀ uid user, computed.users.get uid = some user → Certain user.coinChange) :
    Agrees room computed ↔ userCents computed.users = 0 ∧ Bookable room computed := by
  have hpaid : (room.withResult computed).paidUsers = computed.users.entries :=
    if_pos hdoors
  by_cases hstops : (room.withResult computed).paidUsers.any (room.withResult computed).stopsAt
  · obtain ⟨entry, hentry, hstop⟩ := List.any_eq_true.mp hstops
    refine iff_of_false (not_agrees_of_stops hentry hstop hdoors) fun h => ?_
    rw [hpaid] at hentry
    simp only [Room.stopsAt, Bool.and_eq_true, decide_eq_true_eq] at hstop
    exact hstop.2 (h.2.numbers entry.1 entry.2 ((LuaTable.get_eq_some_iff _).mpr hentry) hstop.1)
  obtain ⟨hsent, hresult⟩ := sentAccts_result hstops
  have hnumbers : ∀ uid user, computed.users.get uid = some user → uid ∈ room.changeTexts →
      user.coinChange = 0 := by
    intro uid user huser htext
    by_contra hne
    refine hstops (List.any_eq_true.mpr ⟨(uid, user), ?_, ?_⟩)
    · rw [hpaid]
      exact (LuaTable.get_eq_some_iff _).mp huser
    · simp only [Room.stopsAt, Bool.and_eq_true, decide_eq_true_eq]
      exact ⟨htext, hne⟩
  have hcommission : ∀ uid user, computed.users.get uid = some user →
      sumFor uid UserAcct.commission (resultAccts (room.withResult computed)) =
        pumpCharged user := by
    intro uid user huser
    rw [commission_resultAccts, hpaid]
    have h := LuaTable.sum_entries_key (fun entry : Uid × UserResult => pumpCharged entry.2)
      computed.users uid
    rwa [huser] at h
  have hsum := batchWinLoss_resultAccts (room.withResult computed)
  rw [hpaid] at hsum
  have hsettled : (room.withResult computed).settledResult =
      some ⟨computed.users.mapValues settledUser,
        refreshDetails (computed.users.mapValues settledUser) computed.details⟩ := by
    rw [settledResult_withResult, if_pos hdoors]
  have huserOf : ∀ uid user, computed.users.get uid = some user →
      (computed.users.mapValues settledUser).get uid = some (settledUser user) := by
    intro uid user huser
    rw [LuaTable.get_mapValues, huser]
    rfl
  constructor
  · intro h
    refine ⟨?_, hnumbers, fun uid user huser => ?_⟩
    · have hzero := h.sum
      rw [hsent, hsum, div_eq_zero_iff] at hzero
      exact Int.cast_eq_zero.mp (hzero.resolve_right (by norm_num))
    · obtain ⟨detail, hdetail⟩ := (LuaTable.mem_keys_iff _).mp
        ((hdetails uid).mpr ((LuaTable.mem_keys_iff _).mpr ⟨user, huser⟩))
      have hstored := h.details _ uid (detail.refresh (settledUser user)) (hresult.trans hsettled)
        (by rw [get_refreshDetails (huserOf uid user huser), hdetail]; rfl)
      rw [hsent, hcommission uid user huser, changeOf, huser] at hstored
      exact (settledUser_cents_iff (hcertain uid user huser)).mp hstored
  · rintro ⟨hzero, hbookable⟩
    refine ⟨fun uid => ?_, fun settled uid detail hsettled' hdetail => ?_, ?_⟩
    · rw [hsent, winLoss_resultAccts, hpaid]
      exact LuaTable.sum_entries_key (fun entry : Uid × UserResult => entry.2.coinChange)
        computed.users uid
    · rw [hresult, hsettled] at hsettled'
      cases hsettled'
      obtain ⟨user, huser, hchange⟩ := exists_user
        (fun uid huid => (mem_keys_mapValues computed.users uid).mpr ((hdetails uid).mp huid))
          hdetail
      rw [LuaTable.get_mapValues] at huser
      obtain ⟨old, hold, rfl⟩ := Option.map_eq_some_iff.mp huser
      rw [hchange, hsent, hcommission uid old hold, changeOf, hold]
      exact (settledUser_cents_iff (hcertain uid old hold)).mpr (hbookable.parted uid old hold)
    · rw [hsent, hsum, ← userCents, hzero]
      simp

/-- On a single door nothing is booked. -/
theorem agrees_iff_of_single (hdoors : ¬room.betDoors > 1)
    (hdetails : ∀ uid ∈ computed.details.keys, uid ∈ computed.users.keys) :
    Agrees room computed ↔ ∀ uid, changeOf computed.users uid = 0 := by
  have hpaid : (room.withResult computed).paidUsers = [] := if_neg hdoors
  have hgoes : ¬(room.withResult computed).paidUsers.any (room.withResult computed).stopsAt := by
    simp [hpaid]
  obtain ⟨hsent, hresult⟩ := sentAccts_result hgoes
  refine ⟨fun h uid => ?_, fun hzero => ⟨fun uid => ?_, ?_, ?_⟩⟩
  · rw [← h.net uid, hsent, winLoss_resultAccts, hpaid]
    rfl
  · rw [hsent, winLoss_resultAccts, hpaid, hzero uid]
    rfl
  · intro settled uid detail hsettled hdetail
    rw [hresult, settledResult_withResult, if_neg hdoors] at hsettled
    cases hsettled
    obtain ⟨user, huser, hchange⟩ := exists_user hdetails hdetail
    rw [hchange, hsent, changeOf, huser, commission_resultAccts, hpaid]
    simp
  · rw [hsent, batchWinLoss_resultAccts, hpaid]
    simp

end Settled

section Doors

variable {betData : BetDoorData} {totals : LuaTable Door Int}

theorem sum_peopes (hsynced : Synced betData totals) (door : Door) :
    ((peopes betData door).map Prod.snd).sum = (totals.get door).getD 0 := by
  rw [hsynced door, peopes]
  cases betData.get door with
  | none => rfl
  | some people => rfl

theorem totalBet_of_mem_doorInfos {calculatedBits : CalculatedBits} {kj : Draw} {info : Info}
    (hinfo : info ∈ doorInfos calculatedBits totals kj) : info.totalBet = totals.get info.door := by
  obtain ⟨i, -, rfl⟩ := List.mem_map.mp hinfo
  rfl

theorem length_peopes_le (betData : BetDoorData) (door : Door) :
    (peopes betData door).length ≤ betCount betData := by
  rw [peopes]
  cases hpeople : betData.get door with
  | none => exact Nat.zero_le _
  | some people =>
      exact List.single_le_sum (fun _ _ => Nat.zero_le _) _
        (List.mem_map_of_mem (f := fun entry : Door × LuaTable Uid Int => entry.2.size)
          ((LuaTable.get_eq_some_iff _).mp hpeople))

theorem staked_peopes_le (betData : BetDoorData) (door : Door) :
    staked (peopes betData door) ≤ totalStake betData := by
  have hnonneg : ∀ x ∈ betData.entries.map fun entry => staked entry.2.entries, 0 ≤ x :=
    List.forall_mem_map.mpr fun entry _ => staked_nonneg entry.2.entries
  rw [peopes]
  cases hpeople : betData.get door with
  | none => exact List.sum_nonneg hnonneg
  | some people =>
      exact List.single_le_sum hnonneg _
        (List.mem_map_of_mem (f := fun entry : Door × LuaTable Uid Int => staked entry.2.entries)
          ((LuaTable.get_eq_some_iff _).mp hpeople))

theorem nodup_peopes (betData : BetDoorData) (door : Door) :
    ((peopes betData door).map Prod.fst).Nodup := ((betData.get door).getD ∅).nodupKeys

variable {bets : ℕ} {stake : ℤ}

theorem sum_shared {doors : List (Info × Int)} {shared : List (Door × List Share)}
    (hshared : List.Forall₂ (fun (door : Info × Int) (paid : Door × List Share) =>
      doorShares double door.2 door.1.totalBet (peopes betData door.1.door) = .ok paid.2)
        doors shared)
    (hbounded : ∀ door ∈ doors, Bounded door)
    (hsync : ∀ door ∈ doors,
      ((peopes betData door.1.door).map Prod.snd).sum = door.1.totalBet.getD 0)
    (hmoderate : Moderate bets stake) (hsize : ∀ door, staked (peopes betData door) ≤ stake)
    (hcount : ∀ door, (peopes betData door).length ≤ bets) :
    (shared.map fun paid => sumCents paid.2).sum = 100 * (doors.map Prod.snd).sum ∧
      ∀ paid ∈ shared, ∃ change door,
        DoorPaid bets stake change (peopes betData door) paid.2 := by
  induction hshared with
  | nil => exact ⟨rfl, fun paid hpaid => absurd hpaid List.not_mem_nil⟩
  | @cons door paid doors shared hdoor _ ih =>
      obtain ⟨hbound, hbounds⟩ := List.forall_mem_cons.mp hbounded
      obtain ⟨hfirst, hrest⟩ := List.forall_mem_cons.mp hsync
      obtain ⟨hsum, hall⟩ := ih hbounds hrest
      have hpaid := doorShares_paid hdoor hbound hfirst hmoderate (hsize _) (hcount _)
      refine ⟨?_, List.forall_mem_cons.mpr ⟨⟨_, _, hpaid⟩, hall⟩⟩
      rw [List.map_cons, List.sum_cons, List.map_cons, List.sum_cons, hpaid.sum, hsum]
      ring

theorem doorsOutcome_spec {tmp : List Info} {result : Result}
    (hok : doorsOutcome double betData tmp = .ok result)
    (hsync : ∀ info ∈ tmp,
      ((peopes betData info.door).map Prod.snd).sum = info.totalBet.getD 0)
    (hfive : tmp.length ≤ 5) (hmoderate : Moderate (betCount betData) (totalStake betData + 1)) :
    userCents result.users = 0 ∧ (∀ uid, Certain (changeOf result.users uid)) ∧
    DetailsOk result := by
  obtain ⟨shared, hmap, hresult⟩ := Lua.bind_eq_ok.mp hok
  cases hresult
  obtain ⟨hfst, hbounded, hzero⟩ := settleDoors_fresh tmp
  have hshared : List.Forall₂ (fun (door : Info × Int) (paid : Door × List Share) =>
      doorShares double door.2 door.1.totalBet (peopes betData door.1.door) = .ok paid.2)
      (settleDoors tmp (tmp.map fun info => info.totalBet.getD 0)) shared := by
    refine (Lua.mapM_ok_forall₂ hmap).imp fun door paid h => ?_
    obtain ⟨shares, hshares, hpaid⟩ := Lua.bind_eq_ok.mp h
    cases hpaid
    exact hshares
  have hlength : shared.length ≤ 5 := by
    rw [← hshared.length_eq, ← List.length_map (f := Prod.fst), hfst]
    exact hfive
  have hsize : ∀ door, staked (peopes betData door) ≤ totalStake betData + 1 := fun door => by
    have := staked_peopes_le betData door
    omega
  obtain ⟨hsum, hall⟩ := sum_shared hshared hbounded
    (fun door hdoor => hsync door.1 (hfst ▸ List.mem_map_of_mem hdoor)) hmoderate hsize
    (length_peopes_le betData)
  obtain ⟨hcents, hcertain⟩ := foldl_addDoor_cents abs_double_sub_le hmoderate hlength
    fun paid hpaid => by
      obtain ⟨change, door, hdoor⟩ := hall paid hpaid
      exact ⟨change, _, nodup_peopes betData door, length_peopes_le betData door, hdoor⟩
  refine ⟨?_, hcertain, foldl_addDoor_details double shared fun uid => Iff.rfl⟩
  rw [hcents, hsum, hzero, mul_zero]

theorem changeOf_singleDoorOutcome (betData : BetDoorData) (uid : Uid) :
    changeOf (singleDoorOutcome betData).users uid = 0 := by
  have hzero : ∀ (keys : List Uid) (users : LuaTable Uid UserResult),
      changeOf users uid = 0 →
      changeOf (keys.foldl (fun t key => t.set key { coinChange := 0 }) users) uid = 0 := by
    intro keys
    induction keys with
    | nil => intro users h; exact h
    | cons key keys ih =>
        intro users h
        rw [List.foldl_cons]
        apply ih
        rw [changeOf, LuaTable.get_set]
        split_ifs
        · rfl
        · exact h
  unfold singleDoorOutcome
  cases betData.entries with
  | nil => rfl
  | cons entry rest => exact hzero entry.2.keys ∅ rfl

end Doors

section Banker

variable {betData : BetDoorData} {totals : LuaTable Door Int}

theorem signed_eq (c bet : Int) :
    (if c > 0 then bet else if c < 0 then -bet else 0) = c.sign * bet := by
  rcases lt_trichotomy c 0 with h | h | h
  · simp [Int.sign_eq_neg_one_of_neg h, h, not_lt.mpr h.le]
  · simp [h]
  · simp [Int.sign_eq_one_of_pos h, h]

theorem bankerShares_eq (c : Int) (people : List (Uid × Int)) :
    bankerShares c people =
      people.map fun entry => ⟨entry.1, entry.2, ((c.sign * entry.2 : Int) : ℚ)⟩ := by
  unfold bankerShares
  apply List.map_congr_left
  intro entry _
  congr 1
  rw [← signed_eq]
  split_ifs <;> push_cast <;> rfl

theorem sumShares_bankerShares (c : Int) (people : LuaTable Uid Int) :
    sumShares (bankerShares c people.entries) = ((c.sign * sumPeople people : Int) : ℚ) := by
  rw [bankerShares_eq, sumShares_map people.entries fun bet => c.sign * bet, sumPeople,
    ← List.sum_map_mul_left]

theorem ownShares_bankerShares (c : Int) (people : LuaTable Uid Int) (uid : Uid) :
    ownShares uid (bankerShares c people.entries) =
      ((c.sign * (people.get uid).getD 0 : Int) : ℚ) := by
  have hfilter : ∀ entries : List (Uid × Int), ownShares uid (bankerShares c entries) =
      (entries.map fun entry => if entry.1 =
          uid then ((c.sign * entry.2 : Int) : ℚ) else 0).sum := by
    intro entries
    rw [bankerShares_eq]
    induction entries with
    | nil => rfl
    | cons entry entries ih =>
        rw [List.map_cons, List.map_cons, List.sum_cons, ← ih]
        by_cases huid : entry.1 = uid
        · simp [ownShares, sumShares, huid]
        · simp [ownShares, huid]
  rw [hfilter, LuaTable.sum_entries_key
    (fun entry : Uid × Int => ((c.sign * entry.2 : Int) : ℚ)) people uid]
  cases people.get uid with
  | none => simp
  | some bet => rfl

theorem sign_mul_total (bankerInfo info : Info) :
    (bankerDoorChange bankerInfo info).sign * info.totalBet.getD 0 -
    bankerDoorChange bankerInfo info =
      -(if info.totalBet.getD 0 < 0 then 2 * bankerDoorChange bankerInfo info else 0) := by
  unfold bankerDoorChange
  generalize info.totalBet.getD 0 = total
  rcases lt_trichotomy total 0 with h | h | h
  · cases comparePoint bankerInfo info with
    | true => simp [Int.sign_neg, Int.sign_eq_neg_one_of_neg h, h]; ring
    | false => simp [Int.sign_eq_neg_one_of_neg h, h]; ring
  · simp [h]
  · cases comparePoint bankerInfo info with
    | true => simp [Int.sign_neg, Int.sign_eq_one_of_pos h, not_lt.mpr h.le]
    | false => simp [Int.sign_eq_one_of_pos h, not_lt.mpr h.le]

theorem sum_flatMap_bankerShares (betData : BetDoorData) (f : List Share → ℚ) (hnil : f [] = 0)
    (happend : ∀ shares shares', f (shares ++ shares') = f shares + f shares')
    (bankerInfo : Info) (tmp : List Info) :
    f ((tmp.map fun info => (info.door, bankerShares (bankerDoorChange bankerInfo info)
      (peopes betData info.door))).flatMap Prod.snd) =
      (tmp.map fun info => f (bankerShares (bankerDoorChange bankerInfo info)
        (peopes betData info.door))).sum := by
  induction tmp with
  | nil => exact hnil
  | cons info tmp ih =>
      rw [List.map_cons, List.flatMap_cons, happend, ih, List.map_cons, List.sum_cons]

theorem ownShares_append (uid : Uid) (shares shares' : List Share) :
    ownShares uid (shares ++ shares') = ownShares uid shares + ownShares uid shares' := by
  simp [ownShares, sumShares]

theorem sum_map_cast_sub (tmp : List Info) (f g h : Info → Int) :
    (tmp.map fun info => (f info : ℚ)).sum - (tmp.map fun info => (g info : ℚ)).sum +
      -((tmp.map h).sum : Int) = ((tmp.map fun info => f info - g info - h info).sum : Int) := by
  induction tmp with
  | nil => simp
  | cons info tmp ih =>
      simp only [List.map_cons, List.sum_cons, Int.cast_add, Int.cast_sub] at ih ⊢
      rw [← ih]
      ring

theorem bankerOutcome_whole (betData : BetDoorData) (tmp : List Info) (bankerInfo : Info)
    (banker : Uid) : WholeCoins (bankerOutcome betData tmp bankerInfo banker).users := by
  have hnobody : WholeCoins (∅ : LuaTable Uid UserResult) := fun uid user huser => by cases huser
  unfold bankerOutcome
  apply WholeCoins.set
  · rw [foldl_addDoor_users]
    apply hnobody.foldl
    intro share hshare
    obtain ⟨door, hdoor, hshare⟩ := List.mem_flatMap.mp hshare
    obtain ⟨info, -, rfl⟩ := List.mem_map.mp hdoor
    rw [bankerShares_eq] at hshare
    obtain ⟨entry, -, rfl⟩ := List.mem_map.mp hshare
    exact ⟨_, rfl⟩
  · exact ⟨-(tmp.reverse.map (bankerDoorChange bankerInfo)).sum, by push_cast; rfl⟩

theorem bankerOutcome_details (betData : BetDoorData) (tmp : List Info) (bankerInfo : Info)
    (banker : Uid) :
    DetailsOk (bankerOutcome betData tmp bankerInfo banker) := by
  intro uid
  simp only [bankerOutcome, LuaTable.mem_keys_set]
  exact or_congr_right (foldl_addDoor_details id _ (fun uid => Iff.rfl) uid)

theorem abs_bankerDoorChange (bankerInfo info : Info) :
    |bankerDoorChange bankerInfo info| = |info.totalBet.getD 0| := by
  unfold bankerDoorChange
  split_ifs
  · exact abs_neg _
  · rfl

theorem abs_sum_le {l : List ℤ} {bound : ℤ} (h : ∀ x ∈ l, |x| ≤ bound) :
    |l.sum| ≤ l.length * bound := by
  induction l with
  | nil => simp
  | cons x l ih =>
      obtain ⟨hfirst, hrest⟩ := List.forall_mem_cons.mp h
      rw [List.sum_cons, List.length_cons, Nat.cast_add, Nat.cast_one, add_mul, one_mul]
      exact (abs_add_le x l.sum).trans (by linarith [ih hrest])

theorem bankerShares_paid (bankerInfo : Info) {tmp : List Info}
    (hmoderate : Moderate (betCount betData) (totalStake betData + 1)) :
    ∀ paid ∈ tmp.map (fun info =>
        (info.door, bankerShares (bankerDoorChange bankerInfo info) (peopes betData info.door))),
      ∃ change people, (people.map Prod.fst).Nodup ∧ people.length ≤ betCount betData ∧
        DoorPaid (betCount betData) (totalStake betData + 1) change people paid.2 := by
  rw [List.forall_mem_map]
  intro info _
  have hsize : staked (peopes betData info.door) ≤ totalStake betData + 1 :=
    (staked_peopes_le betData info.door).trans (by omega)
  have hsign : ∀ bet : Int, |(bankerDoorChange bankerInfo info).sign * bet| ≤ |bet| := by
    intro bet
    rcases lt_trichotomy (bankerDoorChange bankerInfo info) 0 with h | h | h
    · simp [Int.sign_eq_neg_one_of_neg h]
    · simp [h]
    · simp [Int.sign_eq_one_of_pos h]
  have hdoor := @doorPaid_map _ _ (betCount betData) _ _ hmoderate hsize hsign rfl
  rw [← bankerShares_eq] at hdoor
  exact ⟨_, _, nodup_peopes betData info.door, length_peopes_le betData info.door, hdoor⟩

/-- Whole coins are certain, the banker's as well. -/
theorem bankerOutcome_certain {tmp : List Info} (bankerInfo : Info) (banker : Uid)
    (hsync : ∀ info ∈ tmp,
      ((peopes betData info.door).map Prod.snd).sum = info.totalBet.getD 0)
    (hfive : tmp.length ≤ 5) (hmoderate : Moderate (betCount betData) (totalStake betData + 1))
    {uid : Uid} {user : UserResult}
    (huser : (bankerOutcome betData tmp bankerInfo banker).users.get uid = some user) :
    Certain user.coinChange := by
  have hbet : ∀ info ∈ tmp, |bankerDoorChange bankerInfo info| ≤ totalStake betData := by
    intro info hinfo
    rw [abs_bankerDoorChange, ← hsync info hinfo]
    exact (abs_sum_le_staked _).trans (staked_peopes_le betData info.door)
  have hlarge := hmoderate.large
  have hone := hmoderate.one
  simp only [bankerOutcome] at huser
  rw [LuaTable.get_set] at huser
  split_ifs at huser with huid
  · cases huser
    have hchange : ∀ x ∈ tmp.reverse.map (bankerDoorChange bankerInfo), |x| ≤
        totalStake betData := by
      intro x hx
      obtain ⟨info, hinfo, rfl⟩ := List.mem_map.mp hx
      exact hbet info (List.mem_reverse.mp hinfo)
    have hsum := abs_sum_le hchange
    rw [List.length_map, List.length_reverse] at hsum
    have hfive' : (tmp.length : ℤ) * totalStake betData ≤ 5 * totalStake betData :=
      mul_le_mul_of_nonneg_right (by exact_mod_cast hfive) (by omega)
    have hcertain := certain_intCast (n := -(tmp.reverse.map (bankerDoorChange bankerInfo)).sum)
      (by rw [abs_neg]; omega)
    simpa only [Int.cast_neg] using hcertain
  · have hround : ∀ x : ℚ, |id x - x| ≤ |x| / 2 ^ 53 := by
      intro x
      rw [id, sub_self, abs_zero]
      positivity
    obtain ⟨-, hcertain⟩ := foldl_addDoor_cents hround hmoderate
      (by rwa [List.length_map, List.length_reverse]) (bankerShares_paid bankerInfo hmoderate)
    have h := hcertain uid
    rwa [changeOf, huser] at h

/-- What the players and the banker win together: nothing but the misbooked amounts. -/
theorem sumUsers_bankerOutcome (tmp : List Info) (bankerInfo : Info) (banker : Uid)
    (hsync : ∀ info ∈ tmp, sumPeople ((betData.get info.door).getD ∅) = info.totalBet.getD 0) :
    sumUsers (bankerOutcome betData tmp bankerInfo banker).users =
      -((tmp.map (misbooked betData banker bankerInfo)).sum : Int) := by
  have hall := sum_flatMap_bankerShares betData sumShares rfl sumShares_append bankerInfo
    tmp.reverse
  have hown := sum_flatMap_bankerShares betData (ownShares banker) rfl (ownShares_append banker)
    bankerInfo tmp.reverse
  simp only [bankerOutcome]
  rw [sumUsers_set, foldl_addDoor_users, sumUsers_foldl, changeOf_foldl, hall, hown]
  simp only [peopes, sumShares_bankerShares, ownShares_bankerShares]
  have hempty : sumUsers (∅ : LuaTable Uid UserResult) = 0 := rfl
  have hnobody : changeOf (∅ : LuaTable Uid UserResult) banker = 0 := rfl
  have hterms : tmp.reverse.map (fun info =>
      (bankerDoorChange bankerInfo info).sign * sumPeople ((betData.get info.door).getD ∅) -
        (bankerDoorChange bankerInfo info).sign *
          (((betData.get info.door).getD ∅).get banker).getD 0 - bankerDoorChange bankerInfo info) =
      (tmp.map fun info => -misbooked betData banker bankerInfo info).reverse := by
    rw [← List.map_reverse]
    apply List.map_congr_left
    intro info hinfo
    have h := sign_mul_total bankerInfo info
    rw [hsync info (List.mem_reverse.mp hinfo), misbooked, ownBet]
    linarith
  rw [hempty, hnobody, zero_add, zero_add, sum_map_cast_sub, hterms, List.sum_reverse, sum_map_neg]
  push_cast
  rfl

theorem changeOf_bankerOutcome_banker (tmp : List Info) (bankerInfo : Info) (banker : Uid) :
    changeOf (bankerOutcome betData tmp bankerInfo banker).users banker =
      -((tmp.map (bankerDoorChange bankerInfo)).sum : Int) := by
  simp [bankerOutcome, changeOf]

theorem changeOf_bankerOutcome_eq_zero (tmp : List Info) (bankerInfo : Info) (banker uid : Uid)
    (hzero : ∀ info ∈ tmp, info.totalBet.getD 0 = 0) :
    changeOf (bankerOutcome betData tmp bankerInfo banker).users uid = 0 := by
  have hchange : ∀ info ∈ tmp, bankerDoorChange bankerInfo info = 0 := by
    intro info hinfo
    simp [bankerDoorChange, hzero info hinfo]
  have hsum : (tmp.map (bankerDoorChange bankerInfo)).sum = 0 := by
    apply List.sum_eq_zero
    intro x hx
    obtain ⟨info, hinfo, rfl⟩ := List.mem_map.mp hx
    exact hchange info hinfo
  have hshares : ownShares uid ((tmp.reverse.map fun info =>
      (info.door, bankerShares (bankerDoorChange bankerInfo info)
        (peopes betData info.door))).flatMap Prod.snd) = 0 := by
    rw [sum_flatMap_bankerShares betData (ownShares uid) rfl (ownShares_append uid)]
    apply List.sum_eq_zero
    intro x hx
    obtain ⟨info, hinfo, rfl⟩ := List.mem_map.mp hx
    rw [hchange info (List.mem_reverse.mp hinfo), peopes, ownShares_bankerShares]
    simp
  simp only [bankerOutcome]
  rw [changeOf, LuaTable.get_set]
  split_ifs
  · simp [hsum]
  · rw [foldl_addDoor_users]
    have h := changeOf_foldl ((tmp.reverse.map fun info =>
      (info.door, bankerShares (bankerDoorChange bankerInfo info)
        (peopes betData info.door))).flatMap Prod.snd) ∅ uid
    rw [hshares] at h
    rw [← changeOf, h, add_zero]
    rfl

end Banker

section Main

namespace Round

variable (round : Round)

def tmp : List Info := Lua.tableSort comparePoint round.others

theorem tmp_perm : round.tmp.Perm round.others := List.perm_insertionSort _ _

theorem computed_eq : round.room.computed =
    getDrawResult round.room.info.calculatedBits (round.room.betDoorData.getD ∅)
      (round.room.totalBetValueList.getD ∅) round.kj round.room.bankerSeat round.room.banker := by
  rw [Room.computed, round.drawn]
  rfl

theorem sync_of_mem {info : Info} (hinfo : info ∈ round.tmp) :
    ((peopes (round.room.betDoorData.getD ∅) info.door).map Prod.snd).sum =
      info.totalBet.getD 0 := by
  have hmem := List.mem_of_mem_filter (round.tmp_perm.mem_iff.mp hinfo)
  rw [sum_peopes round.synced, totalBet_of_mem_doorInfos hmem]

theorem detailsOk_fill {result : Result} (hok : DetailsOk result) (seatCount : Nat) :
    DetailsOk (result.fill seatCount) := by
  intro uid
  have h := hok uid
  simpa [Result.fill, LuaTable.keys, LuaTable.mapValues] using h

theorem exists_outcome {computed : Result} (hcomputed : round.room.computed = .ok computed) :
    ∃ result, outcome (round.room.betDoorData.getD ∅) round.tmp round.bankerInfo
        round.room.banker = .ok result ∧
      computed = result.fill (getSeatCount round.room.info.calculatedBits) := by
  rw [computed_eq] at hcomputed
  obtain ⟨result, hresult, hcomputed⟩ := Lua.bind_eq_ok.mp hcomputed
  cases hcomputed
  exact ⟨result, hresult, rfl⟩

theorem length_tmp_le : round.tmp.length ≤ 5 := by
  rw [round.tmp_perm.length_eq]
  refine (List.length_filter_le _ _).trans ?_
  rw [Round.doors, doorInfos, List.length_map, List.length_range', getSeatCount]
  split_ifs <;> decide

variable {computed : Result}

theorem agrees_iff_of_computed (htext : round.room.comparesText = false)
    (hcomputed : round.room.computed = .ok computed) :
    round.Agrees ↔ Pk10.Agrees round.room computed := by
  refine ⟨fun h => h htext computed hcomputed, fun h _ computed' hcomputed' => ?_⟩
  rw [hcomputed] at hcomputed'
  cases hcomputed'
  exact h

theorem bookable_iff_of_computed (hdoors : round.room.betDoors > 1)
    (hcomputed : round.room.computed = .ok computed) :
    round.Bookable ↔ Pk10.Bookable round.room computed := by
  refine ⟨fun h => h hdoors computed hcomputed, fun h _ computed' hcomputed' => ?_⟩
  rw [hcomputed] at hcomputed'
  cases hcomputed'
  exact h

theorem agrees_noBanker_iff (hsmall : round.Small) (htext : round.room.comparesText = false)
    (hbanker : round.bankerInfo = none) : round.Agrees ↔ round.Bookable := by
  cases hcomputed : round.room.computed with
  | error error =>
      refine iff_of_true (fun _ computed h => ?_) fun _ computed h => ?_
      all_goals
        rw [hcomputed] at h
        cases h
  | ok computed =>
      rw [round.agrees_iff_of_computed htext hcomputed]
      obtain ⟨result, hresult, rfl⟩ := round.exists_outcome hcomputed
      rw [hbanker] at hresult
      by_cases hdoors : round.room.betDoors > 1
      · have hresult' : doorsOutcome double (round.room.betDoorData.getD ∅) round.tmp =
            .ok result :=
          (if_pos hdoors).symm.trans hresult
        obtain ⟨hsum, hcertain, hdetails⟩ := doorsOutcome_spec hresult'
          (fun info hinfo => round.sync_of_mem hinfo) round.length_tmp_le hsmall
        have hfilled := detailsOk_fill hdetails (getSeatCount round.room.info.calculatedBits)
        rw [round.bookable_iff_of_computed hdoors hcomputed,
          agrees_iff_of_several hdoors hfilled fun uid user huser => ?_]
        · exact and_iff_right hsum
        · have h := hcertain uid
          rw [changeOf] at h
          rw [Result.fill] at huser
          dsimp only at huser
          rwa [huser] at h
      · have hresult' : (pure (singleDoorOutcome (round.room.betDoorData.getD ∅)) : Lua Result) =
            .ok result := (if_neg hdoors).symm.trans hresult
        cases hresult'
        refine iff_of_true ((agrees_iff_of_single hdoors ?_).mpr (changeOf_singleDoorOutcome _))
          fun h => absurd h hdoors
        intro uid huid
        simp [Result.fill, LuaTable.keys, LuaTable.mapValues, singleDoorOutcome] at huid

theorem nodup_doors : (round.tmp.map Info.door).Nodup := by
  have hall : (round.doors.map Info.door).Nodup := by
    have hdoor : round.doors.map Info.door =
        (List.range' 1 (getSeatCount round.room.info.calculatedBits)).map
          fun (i : Nat) => (i : Door) := by
      simp only [Round.doors, doorInfos, List.map_map]
      rfl
    rw [hdoor]
    exact (List.nodup_range' ..).map Nat.cast_injective
  have hothers : (round.others.map Info.door).Nodup :=
    hall.sublist (List.Sublist.map _ List.filter_sublist)
  exact ((round.tmp_perm.map Info.door).nodup_iff).mpr hothers

theorem mem_keys_of_total {info : Info} (hinfo : info ∈ round.tmp)
    (htotal : info.totalBet.getD 0 ≠ 0) : info.door ∈ (round.room.betDoorData.getD ∅).keys := by
  have hmem := List.mem_of_mem_filter (round.tmp_perm.mem_iff.mp hinfo)
  rw [totalBet_of_mem_doorInfos hmem, round.synced] at htotal
  by_contra hnot
  rw [(LuaTable.get_eq_none_iff _).mpr hnot] at htotal
  exact htotal rfl

/-- With bets on at most one door, what the banker wins is the total of that door. -/
theorem totals_eq_zero {bankerInfo : Info} (hdoors : ¬round.room.betDoors > 1)
    (hsum : (round.tmp.map (bankerDoorChange bankerInfo)).sum = 0) :
    ∀ info ∈ round.tmp, info.totalBet.getD 0 = 0 := by
  by_contra hnot
  push Not at hnot
  obtain ⟨info, hinfo, htotal⟩ := hnot
  have hperm := List.perm_cons_erase hinfo
  have hnodup : ((info :: round.tmp.erase info).map Info.door).Nodup :=
    ((hperm.map Info.door).nodup_iff).mp round.nodup_doors
  have hlength : (round.room.betDoorData.getD ∅).keys.length ≤ 1 := by
    rw [LuaTable.length_keys]
    exact not_lt.mp hdoors
  have hrest : ((round.tmp.erase info).map (bankerDoorChange bankerInfo)).sum = 0 := by
    apply List.sum_eq_zero
    intro x hx
    obtain ⟨other, hother, rfl⟩ := List.mem_map.mp hx
    have hzero : other.totalBet.getD 0 = 0 := by
      by_contra hne
      have hfirst := round.mem_keys_of_total hinfo htotal
      have hsecond := round.mem_keys_of_total (List.mem_of_mem_erase hother) hne
      have heq : other.door = info.door := by
        obtain ⟨key, hkey⟩ | hnil : (∃ key, (round.room.betDoorData.getD ∅).keys = [key]) ∨
            (round.room.betDoorData.getD ∅).keys = [] := by
          cases hkeys : (round.room.betDoorData.getD ∅).keys with
          | nil => exact Or.inr rfl
          | cons key rest =>
              rw [hkeys] at hlength
              exact Or.inl ⟨key, by simpa using hlength⟩
        · rw [hkey, List.mem_singleton] at hfirst hsecond
          rw [hfirst, hsecond]
        · rw [hnil] at hfirst
          exact absurd hfirst List.not_mem_nil
      rw [List.map_cons, List.nodup_cons] at hnodup
      exact hnodup.1 (heq ▸ List.mem_map_of_mem hother)
    simp [bankerDoorChange, hzero]
  rw [(hperm.map (bankerDoorChange bankerInfo)).sum_eq, List.map_cons, List.sum_cons, hrest,
    add_zero] at hsum
  unfold bankerDoorChange at hsum
  split_ifs at hsum
  · exact htotal (neg_eq_zero.mp hsum)
  · exact htotal hsum

theorem agrees_banker_iff (hsmall : round.Small) (htext : round.room.comparesText = false)
    {bankerInfo : Info} {banker : Uid} (hinfo : round.bankerInfo = some bankerInfo)
    (hbanker : round.room.banker = some banker) :
    round.Agrees ↔
      (if round.room.betDoors ≤ 1 then ∀ info ∈ round.others, info.totalBet.getD 0 = 0
      else (round.others.map
        (misbooked (round.room.betDoorData.getD ∅) banker bankerInfo)).sum = 0) ∧
        round.Bookable := by
  have hcomputed : round.room.computed = .ok
      ((bankerOutcome (round.room.betDoorData.getD ∅) round.tmp bankerInfo banker).fill
        (getSeatCount round.room.info.calculatedBits)) := by
    rw [computed_eq]
    have houtcome : outcome (round.room.betDoorData.getD ∅) round.tmp round.bankerInfo
        round.room.banker =
          .ok (bankerOutcome (round.room.betDoorData.getD ∅) round.tmp bankerInfo banker) := by
      rw [hinfo, hbanker]
      rfl
    exact Lua.bind_eq_ok.mpr ⟨_, houtcome, rfl⟩
  rw [round.agrees_iff_of_computed htext hcomputed]
  have hdetails := detailsOk_fill
    (bankerOutcome_details (round.room.betDoorData.getD ∅) round.tmp bankerInfo banker)
    (getSeatCount round.room.info.calculatedBits)
  by_cases hdoors : round.room.betDoors > 1
  · have hsync := fun info (hmem : info ∈ round.tmp) => round.sync_of_mem hmem
    have hsum := sumUsers_bankerOutcome round.tmp bankerInfo banker hsync
    have hcents := userCents_of_whole
      (bankerOutcome_whole (round.room.betDoorData.getD ∅) round.tmp bankerInfo banker)
    have hperm := round.tmp_perm.map (misbooked (round.room.betDoorData.getD ∅) banker bankerInfo)
    rw [hsum, hperm.sum_eq] at hcents
    have hcents' : userCents
        (bankerOutcome (round.room.betDoorData.getD ∅) round.tmp bankerInfo banker).users =
          -100 * (round.others.map
            (misbooked (round.room.betDoorData.getD ∅) banker bankerInfo)).sum := by
      rw [← Int.cast_inj (α := ℚ), hcents]
      push_cast
      ring
    rw [if_neg (not_le.mpr hdoors), round.bookable_iff_of_computed hdoors hcomputed,
      agrees_iff_of_several hdoors hdetails fun uid user huser =>
        bankerOutcome_certain bankerInfo banker hsync round.length_tmp_le hsmall huser,
      Result.fill, hcents', mul_eq_zero]
    simp only [neg_eq_zero, OfNat.ofNat_ne_zero, false_or]
  · have hbookable : round.Bookable := fun h => absurd h hdoors
    rw [if_pos (not_lt.mp hdoors), agrees_iff_of_single hdoors fun uid => (hdetails uid).mp,
      and_iff_left hbookable]
    constructor
    · intro hzero info hmem
      have hsum := hzero banker
      rw [Result.fill, changeOf_bankerOutcome_banker, neg_eq_zero, Int.cast_eq_zero] at hsum
      exact round.totals_eq_zero hdoors hsum info (round.tmp_perm.mem_iff.mpr hmem)
    · intro hzero uid
      exact changeOf_bankerOutcome_eq_zero round.tmp bankerInfo banker uid fun info hmem =>
        hzero info (round.tmp_perm.mem_iff.mp hmem)

end Round

def firstDraw : Draw where
  kjHaos := ["01", "02", "03", "04", "05", "06", "07", "08", "09", "10"].map String.toList
  ten := by decide
  numeric := by simp [Char.isDigit]

/-- Two players on the second door win the coin that is on the first one. -/
def sharedRound : Round where
  room :=
    { info := {}, kjHao := .text firstDraw,
      totalBetValueList := some (addTotal (addTotal (addTotal ∅ 2 1) 2 2) 1 1),
      betDoorData := some (addDoorBet (addDoorBet (addDoorBet ∅ 2 7 1) 2 8 2) 1 9 1),
      betData := some ((((∅ : LuaTable Uid (List Bet)).set 7 [⟨2, 1⟩]).set 8 [⟨2, 2⟩]).set 9
        [⟨1, 1⟩]) }
  kj := firstDraw
  drawn := rfl
  synced := by
    intro door
    by_cases hone : (1 : Door) = door
    · subst hone
      rfl
    · by_cases htwo : (2 : Door) = door
      · subst htwo
        rfl
      · simp [addTotal, addDoorBet, LuaTable.get_set, hone, htwo]

/-- A banker on the first of two doors, and one bet of a hundred coins on the second. -/
def singleDoorRound : Round where
  room :=
    { info := {}, banker := some 9, bankerSeat := some 1, bankerGameCoin := 20000,
      players := some [9], kjHao := .text firstDraw,
      totalBetValueList := some (addTotal ∅ 2 100),
      betDoorData := some (addDoorBet ∅ 2 7 100),
      betData := some ((∅ : LuaTable Uid (List Bet)).set 7 [⟨2, 100⟩]) }
  kj := firstDraw
  drawn := rfl
  synced := by
    intro door
    by_cases hdoor : (2 : Door) = door
    · subst hdoor
      rfl
    · simp [addTotal, addDoorBet, LuaTable.get_set, hdoor]

end Main

end SdyServer.Pk10
