import Mathlib.Data.List.TakeWhile
import SdyServer.Hongbao.WinningStreak

/-!
# The streaks of a room

The streak of a user is read off the rounds of the room, the last one first. What a row says about
it is an invariant of the logins and the rounds, and every round settles the streaks that it ends.
-/

namespace SdyServer.Hongbao.Streaks

section Ids

theorem comma_notMem_roundText (roundId : Nat) : ',' ∉ roundText roundId := by
  intro hmem
  exact absurd (Nat.isDigit_of_mem_toDigits (by decide) (by decide) hmem) (by decide)

theorem idsOf_nextIds (ids : List Char) (roundId : Nat) :
    idsOf (nextIds ids roundId) = idsOf ids ++ [roundText roundId] := by
  have hone : (roundText roundId).splitOn ',' = [roundText roundId] :=
    List.splitOn_eq_singleton (comma_notMem_roundText roundId)
  have hne : roundText roundId ≠ [] := Nat.toDigits_ne_nil
  by_cases hids : ids = []
  · rw [nextIds, if_pos hids, idsOf, if_neg hne, hone, idsOf, if_pos hids]
    rfl
  · rw [nextIds, if_neg hids, idsOf, if_neg (by simp), List.splitOn_append_cons_self, hone, idsOf,
      if_neg hids]

end Ids

section History

variable {history : List Round} {round : Round} {uid : Uid}

/-- The user has bet and won. -/
def Round.wins (round : Round) (uid : Uid) : Bool := (round.result.get uid).any BetResult.won

/-- The most recent rounds in which the user has bet and won, the last one first. -/
def streakRounds (history : List Round) (uid : Uid) : List Round :=
  history.takeWhile fun round => round.wins uid

def streak (history : List Round) (uid : Uid) : Nat := (streakRounds history uid).length

theorem streakRounds_wins (hwins : round.wins uid = true) :
    streakRounds (round :: history) uid = round :: streakRounds history uid :=
  List.takeWhile_cons_of_pos hwins

theorem streakRounds_ends (hends : ¬round.wins uid = true) :
    streakRounds (round :: history) uid = [] :=
  List.takeWhile_cons_of_neg hends

theorem mem_bettors_iff : uid ∈ round.bettors ↔ ∃ user, round.result.get uid = some user ∧
    user.isBanker = false := by
  simp only [Round.bettors, List.mem_map, List.mem_filter, Bool.not_eq_true', Prod.exists]
  constructor
  · rintro ⟨uid', user, ⟨hmem, hbanker⟩, rfl⟩
    exact ⟨user, (LuaTable.get_eq_some_iff _).2 hmem, hbanker⟩
  · rintro ⟨user, hget, hbanker⟩
    exact ⟨uid, user, ⟨(LuaTable.get_eq_some_iff _).1 hget, hbanker⟩, rfl⟩

theorem mem_bettors_of_wins (hwins : round.wins uid = true) : uid ∈ round.bettors := by
  rw [Round.wins, Option.any_eq_true] at hwins
  obtain ⟨user, hget, hwon⟩ := hwins
  simp only [BetResult.won, Bool.and_eq_true, Bool.not_eq_true'] at hwon
  exact mem_bettors_iff.2 ⟨user, hget, hwon.2⟩

end History

section Runs

structure World where
  db : Db := {}
  history : List Round := []

inductive Event where
  | login (uid : Uid)
  | settle (round : Round)

def World.step (strict : Bool) (world : World) : Event → World
  | .login uid => { world with db := handleRoomUser world.db uid }
  | .settle round => ⟨(settleRound strict world.db round).1, round :: world.history⟩

/-- A round has a bettor, and its users have logged in. -/
def World.played (world : World) : Event → Bool
  | .login _ => true
  | .settle round =>
      !round.bettors.isEmpty && round.result.keys.all fun uid => (world.db.roomUsers.get uid).isSome

/-- The ids of the streaks that go on fit into their column, and the average bet of a streak of more
than twenty rounds is below fifty when it ends. -/
def World.fits (world : World) : Event → Bool
  | .login _ => true
  | .settle round =>
      (round.result.entries.all fun entry => !entry.2.won ||
          (world.db.roomUsers.get entry.1).all fun user =>
        (nextIds user.winningSteakRoundIds round.roundId).length ≤ idsWidth) &&
      world.db.roomUsers.entries.all fun entry => round.wins entry.1 ||
        decide (entry.2.winningSteakCount ≤ 20) ||
        decide (winningStreakAverage
          (selectResults (addResultLog world.db round) entry.1 entry.2.winningSteakRoundIds)
          entry.2.winningSteakCount < 50)

/-- What a round leaves: it did not raise, the rows hold the streaks, and each streak of six rounds
or more that it ends was settled once. -/
structure RoundRight (strict : Bool) (world : World) (round : Round) : Prop where
  ok : (settleRound strict world.db round).2 = none
  kept : ∀ uid user, (settleRound strict world.db round).1.roomUsers.get uid = some user →
    user.winningSteakCount = streak (round :: world.history) uid ∧
      (idsOf user.winningSteakRoundIds).length = user.winningSteakCount
  settled : ∃ new, (settleRound strict world.db round).1.rewards = world.db.rewards ++ new ∧
    ∀ uid, (new.filter fun reward => reward.uid = uid).map Reward.winCount =
      if 6 ≤ streak world.history uid ∧ ¬round.wins uid =
        true then [streak world.history uid] else []

/-- The rows hold the streaks, and the results of their rounds are stored. -/
structure World.Kept (world : World) : Prop where
  users : ∀ uid user, world.db.roomUsers.get uid = some user →
    user.winningSteakCount = streak world.history uid ∧ idsOf user.winningSteakRoundIds =
      (streakRounds world.history uid).reverse.map fun round => roundText round.roundId
  others : ∀ uid, world.db.roomUsers.get uid = none → streakRounds world.history uid = []
  results : ∀ round ∈ world.history, ∀ uid user, round.result.get uid = some user →
    ∃ row, ⟨uid, round.roundId, row⟩ ∈ world.db.results

end Runs

section Settling

variable {db db' : Db} {uid : Uid} {user : RoomUser}

theorem streakCoin_ok {average : ℚ} {winCount : Nat} (hsix : 6 ≤ winCount)
    (hfits : winCount ≤ 20 ∨ average < 50) : ∃ coin, streakCoin average winCount = .ok coin := by
  unfold streakCoin
  by_cases hlow : average < 50
  · exact ⟨0, if_pos hlow⟩
  · have hall : ∀ n ≤ 20, 6 ≤ n → (hbWinningStreakConfig n).isSome = true := by decide
    obtain ⟨config, hconfig⟩ :=
      Option.isSome_iff_exists.1 (hall winCount (hfits.resolve_right hlow) hsix)
    rw [if_neg hlow, hconfig]
    exact ⟨_, rfl⟩

/-- A streak of six rounds or more is settled where its average is in the table. -/
theorem winningStreakResult_ok
    (hres : 6 ≤ user.winningSteakCount → selectResults db uid user.winningSteakRoundIds ≠ [])
    (hfits : user.winningSteakCount ≤ 20 ∨ winningStreakAverage
      (selectResults db uid user.winningSteakRoundIds) user.winningSteakCount < 50) :
    ∃ reward, winningStreakResult db uid user = .ok reward ∧
      reward.map Reward.winCount = if 6 ≤ user.winningSteakCount then some user.winningSteakCount
      else none := by
  unfold winningStreakResult
  by_cases hsix : 6 ≤ user.winningSteakCount
  · obtain ⟨coin, hcoin⟩ := streakCoin_ok hsix hfits
    rw [if_pos hsix, if_pos hsix]
    dsimp only
    rw [if_neg (by simpa using hres hsix), hcoin]
    exact ⟨_, rfl, rfl⟩
  · rw [if_neg hsix, if_neg hsix]
    exact ⟨none, rfl, rfl⟩

theorem winningStreakResult_congr (hresults : db.results = db'.results) :
    winningStreakResult db uid user = winningStreakResult db' uid user := by
  have hselect : selectResults db uid user.winningSteakRoundIds =
      selectResults db' uid user.winningSteakRoundIds := by
    unfold selectResults
    rw [hresults]
  unfold winningStreakResult
  rw [hselect]

/-- What is settled for a row. -/
def rewardOf (db : Db) (entry : Uid × RoomUser) : Option Reward :=
  (winningStreakResult db entry.1 entry.2).toOption.join

theorem rewardOf_uid (db : Db) (entry : Uid × RoomUser) (reward : Reward)
    (hreward : rewardOf db entry = some reward) : reward.uid = entry.1 := by
  unfold rewardOf winningStreakResult at hreward
  dsimp only at hreward
  split_ifs at hreward
  · cases hreward
  · cases hcoin :
      streakCoin (winningStreakAverage (selectResults db entry.1 entry.2.winningSteakRoundIds)
      entry.2.winningSteakCount) entry.2.winningSteakCount with
    | error e =>
        rw [hcoin] at hreward
        cases hreward
    | ok coin =>
        rw [hcoin] at hreward
        cases hreward
        rfl
  · cases hreward

theorem rewardOf_of_lt {db : Db} {entry : Uid × RoomUser} (hlt : entry.2.winningSteakCount < 6) :
    rewardOf db entry = none := by
  unfold rewardOf winningStreakResult
  rw [if_neg (by omega)]
  rfl

/-- The streak of the row can be settled. -/
structure Settles (db : Db) (entry : Uid × RoomUser) : Prop where
  ok : winningStreakResult db entry.1 entry.2 = .ok (rewardOf db entry)
  winCount : (rewardOf db entry).map Reward.winCount =
    if 6 ≤ entry.2.winningSteakCount then some entry.2.winningSteakCount else none

theorem settles_of_fits
    (hres : 6 ≤ user.winningSteakCount → selectResults db uid user.winningSteakRoundIds ≠ [])
    (hfits : user.winningSteakCount ≤ 20 ∨ winningStreakAverage
      (selectResults db uid user.winningSteakRoundIds) user.winningSteakCount < 50) :
    Settles db (uid, user) := by
  obtain ⟨reward, hreward, hcount⟩ := winningStreakResult_ok hres hfits
  have hof : rewardOf db (uid, user) = reward := by
    unfold rewardOf
    rw [hreward]
    rfl
  exact ⟨hof ▸ hreward, hof ▸ hcount⟩

theorem settleStreak_eq {entry : Uid × RoomUser} (hsettles : Settles db entry)
    (hresults : db'.results = db.results) :
    settleStreak db' entry =
    ({ db' with rewards := db'.rewards ++ (rewardOf db entry).toList }, none) := by
  rw [settleStreak, winningStreakResult_congr hresults, hsettles.ok]

end Settling

section Passes

variable {strict : Bool} {world : World} {round : Round} {uid : Uid} {user : RoomUser}

/-- The rounds of a streak have left results. -/
theorem World.Kept.selectResults_ne_nil (hkept : world.Kept)
    (hget : world.db.roomUsers.get uid = some user)
    (hpos : 0 < user.winningSteakCount) :
    selectResults (addResultLog world.db round) uid user.winningSteakRoundIds ≠ [] := by
  obtain ⟨hcount, hids⟩ := hkept.users uid user hget
  rw [hcount, streak] at hpos
  obtain ⟨last, hlast⟩ := List.exists_mem_of_length_pos hpos
  have hwins : last.wins uid = true :=
    List.mem_takeWhile_imp (p := fun round => Round.wins round uid) hlast
  rw [Round.wins, Option.any_eq_true] at hwins
  obtain ⟨bet, hbet, -⟩ := hwins
  obtain ⟨row, hrow⟩ := hkept.results last ((List.takeWhile_sublist _).mem hlast) uid bet hbet
  have htext : roundText last.roundId ∈ idsOf user.winningSteakRoundIds := by
    rw [hids]
    exact List.mem_map_of_mem (List.mem_reverse.2 hlast)
  have hsplit : roundText last.roundId ∈ user.winningSteakRoundIds.splitOn ',' := by
    by_cases hnil : user.winningSteakRoundIds = []
    · rw [idsOf, if_pos hnil] at htext
      exact absurd htext List.not_mem_nil
    · rwa [idsOf, if_neg hnil] at htext
  refine List.ne_nil_of_mem
    (List.mem_map.2 ⟨⟨uid, last.roundId, row⟩, List.mem_filter.2 ⟨?_, ?_⟩, rfl⟩)
  · exact List.mem_append_left _ hrow
  · exact decide_eq_true ⟨rfl, hsplit⟩

/-- A streak that a round ends can be settled. -/
theorem World.Kept.settles (hkept : world.Kept) (hfits : world.fits (.settle round) = true)
    (hget : world.db.roomUsers.get uid = some user) (hends : ¬round.wins uid = true) :
    Settles (addResultLog world.db round) (uid, user) := by
  simp only [World.fits, Bool.and_eq_true, List.all_eq_true, Bool.or_eq_true,
    decide_eq_true_eq] at hfits
  have hlookup := hfits.2 (uid, user) ((LuaTable.get_eq_some_iff _).1 hget)
  refine settles_of_fits (fun hsix => hkept.selectResults_ne_nil hget (by omega)) ?_
  exact (or_assoc.1 hlookup).resolve_left hends

/-- The row of a user who has bet or was banker. -/
def handledRow (roundId : Nat) (row : RoomUser) (bet : BetResult) : RoomUser :=
  if bet.won then ⟨row.winningSteakCount + 1, nextIds row.winningSteakRoundIds roundId⟩ else {}

/-- What is settled for a user of the result. -/
def handledReward (db : Db) (entry : Uid × BetResult) : Option Reward :=
  if entry.2.won then none else (db.roomUsers.get entry.1).bind
    fun row => rewardOf db (entry.1, row)

/-- What the pass over the result has done. -/
structure Handled (roundId : Nat) (db : Db) (seen : List (Uid × BetResult)) (db' : Db) : Prop where
  results : db'.results = db.results
  users : ∀ uid, db'.roomUsers.get uid = (db.roomUsers.get uid).map fun row =>
    (LuaTable.getEntry uid seen).elim row (handledRow roundId row)
  rewards : db'.rewards = db.rewards ++ seen.filterMap (handledReward db)

theorem Handled.start (roundId : Nat) (db : Db) : Handled roundId db [] db :=
  ⟨rfl, fun uid => by simp [LuaTable.getEntry], by simp⟩

variable {db db' : Db} {seen : List (Uid × BetResult)} {entry : Uid × BetResult}

/-- The row that a turn of the pass writes. -/
theorem Handled.write {roundId : Nat} (hhandled : Handled roundId db seen db')
    (hnew : entry.1 ∉ seen.map Prod.fst)
    {row : RoomUser} (hrow : db.roomUsers.get entry.1 = some row) {next : Db}
    {reward : Option Reward}
    (hresults : next.results = db'.results)
    (husers : next.roomUsers = db'.roomUsers.set entry.1 (handledRow roundId row entry.2))
    (hrewards : next.rewards = db'.rewards ++ reward.toList)
    (hreward : handledReward db entry = reward) :
    Handled roundId db (seen ++ [entry]) next := by
  refine ⟨hresults.trans hhandled.results, fun uid => ?_, ?_⟩
  · rw [husers, LuaTable.get_set, LuaTable.getEntry_concat hnew, hhandled.users]
    by_cases huid : entry.1 = uid
    · subst huid
      simp [hrow]
    · simp [huid]
  · rw [hrewards, hhandled.rewards, List.filterMap_append, List.append_assoc, ← hreward]
    cases hcase : handledReward db entry <;> simp [hcase]

theorem Handled.step {roundId : Nat} (hhandled : Handled roundId db seen db')
    (hnew : entry.1 ∉ seen.map Prod.fst) {row : RoomUser}
    (hrow : db.roomUsers.get entry.1 = some row)
    (hids : entry.2.won = true → (nextIds row.winningSteakRoundIds roundId).length ≤ idsWidth)
    (hsettles : ¬entry.2.won = true → Settles db (entry.1, row)) :
    (handleUserWinningStreak strict roundId db' entry).2 = none ∧
      Handled roundId db (seen ++ [entry])
      (handleUserWinningStreak strict roundId db' entry).1 := by
  have hrow' : db'.roomUsers.get entry.1 = some row := by
    rw [hhandled.users, hrow, LuaTable.getEntry_eq_none_iff.2 hnew]
    rfl
  by_cases hwon : entry.2.won = true
  · have hstep : handleUserWinningStreak strict roundId db' entry =
        ({ db' with roomUsers := db'.roomUsers.set entry.1 (handledRow roundId row entry.2) },
            none) := by
      simp only [handleUserWinningStreak, hrow', if_pos hwon, updateStreak,
        if_pos (hids hwon), handledRow]
    rw [hstep]
    have hreward : handledReward db entry = none := if_pos hwon
    exact ⟨rfl, hhandled.write hnew hrow rfl rfl (by simp) hreward⟩
  · have hstep : handleUserWinningStreak strict roundId db' entry =
        ({ db' with
            roomUsers := db'.roomUsers.set entry.1 (handledRow roundId row entry.2)
            rewards := db'.rewards ++ (rewardOf db (entry.1, row)).toList }, none) := by
      simp only [handleUserWinningStreak, hrow', if_neg hwon,
        settleStreak_eq (hsettles hwon) hhandled.results,
        handledRow]
      rfl
    rw [hstep]
    refine ⟨rfl, hhandled.write hnew hrow rfl rfl rfl ?_⟩
    rw [handledReward, if_neg hwon, hrow]
    rfl

/-- The pass over the streaks of the users that did not bet. -/
theorem each_settleStreak {rows : List (Uid × RoomUser)} (hresults : db'.results = db.results)
    (hsettles : ∀ entry ∈ rows, Settles db entry) :
    Lua.each settleStreak db' rows =
    ({ db' with rewards := db'.rewards ++ rows.filterMap (rewardOf db) }, none) := by
  induction rows generalizing db' with
  | nil => simp [Lua.each]
  | cons entry rest ih =>
      rw [List.forall_mem_cons] at hsettles
      have hrest :=
        @ih { db' with rewards := db'.rewards ++ (rewardOf db entry).toList } hresults hsettles.2
      simp only [Lua.each, settleStreak_eq hsettles.1 hresults, hrest]
      cases hcase : rewardOf db entry <;> simp [hcase]

theorem get_resetOthers (db : Db) (userIds : List Uid) (uid : Uid) :
    (resetOthers db userIds).roomUsers.get uid =
      (db.roomUsers.get uid).map fun row => if uid ∉ userIds then {} else row :=
  LuaTable.getEntry_map_key (fun uid row => if uid ∉ userIds then ({} : RoomUser) else row) uid
    db.roomUsers.entries

/-- What a round does that has a bettor and whose ended streaks can be settled. -/
theorem World.Kept.settleRound_spec (hkept : world.Kept)
    (hplayed : world.played (.settle round) = true)
    (hfits : world.fits (.settle round) = true) : ∃ handled,
      Handled round.roundId (addResultLog world.db round) round.result.entries handled ∧
      settleRound strict world.db round = (resetOthers { handled with
        rewards := handled.rewards ++ (getRoomUserinfos handled round.bettors).filterMap
          (rewardOf (addResultLog world.db round)) } round.bettors, none) := by
  have hplayed' := hplayed
  simp only [World.played, Bool.and_eq_true, Bool.not_eq_true', List.isEmpty_eq_false_iff,
    List.all_eq_true]
    at hplayed'
  obtain ⟨hbettors, hrows⟩ := hplayed'
  have hfits' := hfits
  simp only [World.fits, Bool.and_eq_true, List.all_eq_true, Bool.or_eq_true, Bool.not_eq_true',
    decide_eq_true_eq] at hfits'
  have hpass := Lua.each_ok (f := handleUserWinningStreak strict round.roundId)
    (Handled round.roundId (addResultLog world.db round)) (l := round.result.entries)
    (fun seen entry rest hsplit db' hhandled => by
      have hmem : entry ∈ round.result.entries := by simp [hsplit]
      have hbet : round.result.get entry.1 = some entry.2 := (LuaTable.get_eq_some_iff _).2 hmem
      have hnew : entry.1 ∉ seen.map Prod.fst := by
        have hnodup := round.result.nodupKeys
        rw [hsplit, List.map_append, List.map_cons, List.nodup_append] at hnodup
        exact fun h => hnodup.2.2 _ h _ (List.mem_cons_self ..) rfl
      obtain ⟨row, hrow⟩ := Option.isSome_iff_exists.1 (hrows entry.1 (List.mem_map_of_mem hmem))
      refine hhandled.step hnew hrow (fun hwon => ?_) fun hlost => ?_
      · have hids := (hfits'.1 entry hmem).resolve_left (by simp [hwon])
        rw [hrow] at hids
        exact of_decide_eq_true hids
      · refine hkept.settles hfits hrow fun hwins => hlost ?_
        rwa [Round.wins, hbet] at hwins)
    (Handled.start _ _)
  obtain ⟨hok, hhandled⟩ := hpass
  refine ⟨_, hhandled, ?_⟩
  have hended : ∀ entry ∈ getRoomUserinfos
      (Lua.each (handleUserWinningStreak strict round.roundId) (addResultLog world.db round)
        round.result.entries).1 round.bettors, Settles (addResultLog world.db round) entry := by
    rintro ⟨uid, row⟩ hmem
    simp only [getRoomUserinfos, List.mem_filter, decide_eq_true_eq] at hmem
    obtain ⟨hentry, hpos, hbettor⟩ := hmem
    have hget := (LuaTable.get_eq_some_iff _).2 hentry
    rw [hhandled.users, Option.map_eq_some_iff] at hget
    obtain ⟨row', hrow', hrow⟩ := hget
    have hends : ¬round.wins uid = true := fun hwins => hbettor (mem_bettors_of_wins hwins)
    cases hbet : LuaTable.getEntry uid round.result.entries with
    | none =>
        rw [hbet] at hrow
        subst hrow
        exact hkept.settles hfits hrow' hends
    | some bet =>
        have hlost : ¬bet.won = true := fun hwon => hends (by
          rw [Round.wins, show round.result.get uid = some bet from hbet]
          exact hwon)
        rw [hbet, Option.elim_some, handledRow, if_neg hlost] at hrow
        subst hrow
        exact absurd hpos (by simp)
  simp only [settleRound, addWinningStreak, hok, if_neg hbettors,
    each_settleStreak hhandled.results hended]

/-- The row of a user after a round, whether he has bet, was banker or stayed away. -/
theorem roundRow_eq (round : Round) (uid : Uid) (row : RoomUser) :
    (if uid ∉ round.bettors then {} else
        (LuaTable.getEntry uid round.result.entries).elim row (handledRow round.roundId row)) =
      if round.wins uid = true then
        ⟨row.winningSteakCount + 1, nextIds row.winningSteakRoundIds round.roundId⟩
      else ({} : RoomUser) := by
  by_cases hwins : round.wins uid = true
  · rw [if_neg (not_not.2 (mem_bettors_of_wins hwins)), if_pos hwins]
    rw [Round.wins, Option.any_eq_true] at hwins
    obtain ⟨bet, hbet, hwon⟩ := hwins
    rw [show LuaTable.getEntry uid round.result.entries = some bet from hbet,
      Option.elim_some, handledRow,
      if_pos hwon]
  · rw [if_neg hwins]
    by_cases hbettor : uid ∈ round.bettors
    · obtain ⟨bet, hbet, -⟩ := mem_bettors_iff.1 hbettor
      have hlost : ¬bet.won = true := fun hwon => hwins (by
        rw [Round.wins, hbet]
        exact hwon)
      rw [if_neg (not_not.2 hbettor), show LuaTable.getEntry uid round.result.entries =
        some bet from hbet,
        Option.elim_some, handledRow, if_neg hlost]
    · rw [if_pos hbettor]

/-- What both passes settle for a user. -/
theorem Handled.settled_filter (hhandled : Handled round.roundId db round.result.entries db')
    (uid : Uid) :
    (round.result.entries.filterMap (handledReward db) ++
        (getRoomUserinfos db' round.bettors).filterMap (rewardOf db)).filter
          (fun reward => reward.uid = uid) =
      if round.wins uid = true then [] else
      ((db.roomUsers.get uid).bind fun row => rewardOf db (uid, row)).toList := by
  have hfirst := LuaTable.filter_filterMap_entries (f := handledReward db) (g := Reward.uid)
    (fun entry reward hreward => by
      rw [handledReward] at hreward
      split_ifs at hreward
      obtain ⟨row, -, hrow⟩ := Option.bind_eq_some_iff.1 hreward
      exact rewardOf_uid db _ reward hrow) round.result uid
  have hsecond := LuaTable.filter_filterMap_entries (g := Reward.uid)
    (f := fun entry : Uid × RoomUser => if decide (entry.2.winningSteakCount > 0 ∧
      entry.1 ∉ round.bettors) = true
      then rewardOf db entry else none)
    (fun entry reward hreward => by
      split_ifs at hreward
      exact rewardOf_uid db _ reward hreward) db'.roomUsers uid
  rw [List.filter_append, hfirst, getRoomUserinfos, List.filterMap_filter, hsecond, hhandled.users]
  by_cases hwins : round.wins uid = true
  · have hbettor := mem_bettors_of_wins hwins
    have hguard : ∀ row : RoomUser, ¬(row.winningSteakCount > 0 ∧ uid ∉ round.bettors) :=
      fun row h => h.2 hbettor
    rw [if_pos hwins]
    rw [Round.wins, Option.any_eq_true] at hwins
    obtain ⟨bet, hbet, hwon⟩ := hwins
    simp [hbet, handledReward, hwon, hguard]
  · rw [if_neg hwins]
    cases hbet : round.result.get uid with
    | none =>
        have hbettor : uid ∉ round.bettors := fun hmem => by
          obtain ⟨bet, hget, -⟩ := mem_bettors_iff.1 hmem
          rw [hbet] at hget
          cases hget
        rw [show LuaTable.getEntry uid round.result.entries = none from hbet]
        cases db.roomUsers.get uid with
        | none => rfl
        | some row =>
            by_cases hpos : row.winningSteakCount > 0
            · simp [hpos, hbettor]
            · simp [hpos, @rewardOf_of_lt db (uid, row) (by simp; omega)]
    | some bet =>
        have hlost : ¬bet.won = true := fun hwon => hwins (by
          rw [Round.wins, hbet]
          exact hwon)
        rw [show LuaTable.getEntry uid round.result.entries = some bet from hbet]
        cases hrow : db.roomUsers.get uid with
        | none => simp [handledReward, hrow]
        | some row => simp [handledReward, hrow, handledRow, hlost]

end Passes

section Invariant

variable {strict : Bool} {world : World}

/-- The rows after a round. -/
theorem Handled.rows {round : Round} {handled : Db}
    (hhandled : Handled round.roundId (addResultLog world.db round) round.result.entries handled)
    (uid : Uid) :
    (resetOthers handled round.bettors).roomUsers.get uid =
      (world.db.roomUsers.get uid).map fun row => if round.wins uid = true then
          ⟨row.winningSteakCount + 1, nextIds row.winningSteakRoundIds round.roundId⟩
        else ({} : RoomUser) := by
  rw [get_resetOthers, hhandled.users, Option.map_map]
  exact congrArg (fun f => Option.map f _) (funext fun row => roundRow_eq round uid row)

theorem World.Kept.settle (hkept : world.Kept) {round : Round}
    (hplayed : world.played (.settle round) = true) {db : Db}
    (hrows : ∀ uid, db.roomUsers.get uid = (world.db.roomUsers.get uid).map fun row =>
      if round.wins uid = true then
        ⟨row.winningSteakCount + 1, nextIds row.winningSteakRoundIds round.roundId⟩
      else ({} : RoomUser))
    (hresults : db.results = (addResultLog world.db round).results) :
    World.Kept ⟨db, round :: world.history⟩ := by
  refine ⟨fun uid user hget => ?_, fun uid hget => ?_, fun old hold uid bet hbet => ?_⟩
  · change db.roomUsers.get uid = some user at hget
    rw [hrows, Option.map_eq_some_iff] at hget
    obtain ⟨row, hrow, rfl⟩ := hget
    obtain ⟨hcount, hids⟩ := hkept.users uid row hrow
    change _ = streak (round :: world.history) uid ∧
      _ = (streakRounds (round :: world.history) uid).reverse.map _
    by_cases hwins : round.wins uid = true
    · rw [if_pos hwins, streak, streakRounds_wins hwins, List.length_cons, hcount,
        idsOf_nextIds, hids]
      simp [streak]
    · rw [if_neg hwins, streak, streakRounds_ends hwins]
      exact ⟨rfl, rfl⟩
  · change db.roomUsers.get uid = none at hget
    rw [hrows, Option.map_eq_none_iff] at hget
    -- who wins is in the result, and who is in the result has a row
    refine streakRounds_ends fun hwins => ?_
    rw [Round.wins, Option.any_eq_true] at hwins
    obtain ⟨bet, hbet, -⟩ := hwins
    simp only [World.played, Bool.and_eq_true, List.all_eq_true] at hplayed
    have hsome := hplayed.2 uid ((LuaTable.mem_keys_iff _).2 ⟨bet, hbet⟩)
    rw [hget] at hsome
    cases hsome
  · show ∃ row, _ ∈ db.results
    rw [hresults]
    rcases List.mem_cons.1 hold with rfl | hold
    · exact ⟨_, List.mem_append_right _ (List.mem_map_of_mem ((LuaTable.get_eq_some_iff _).1 hbet))⟩
    · obtain ⟨row, hrow⟩ := hkept.results old hold uid bet hbet
      exact ⟨row, List.mem_append_left _ hrow⟩

/-- What is settled for a user is the streak that the round ends. -/
theorem World.Kept.winCounts (hkept : world.Kept) {round : Round}
    (hfits : world.fits (.settle round) = true)
    (uid : Uid) :
    (if round.wins uid = true then [] else ((world.db.roomUsers.get uid).bind fun row =>
        rewardOf (addResultLog world.db round) (uid, row)).toList).map Reward.winCount =
      if 6 ≤ streak world.history uid ∧ ¬round.wins uid = true then
      [streak world.history uid] else [] := by
  by_cases hwins : round.wins uid = true
  · rw [if_pos hwins, if_neg fun h => h.2 hwins]
    rfl
  · rw [if_neg hwins]
    cases hrow : world.db.roomUsers.get uid with
    | none =>
        have hzero : streak world.history uid = 0 := by
          rw [streak, hkept.others uid hrow]
          rfl
        rw [hzero, if_neg (by omega)]
        rfl
    | some row =>
        have hcount := (hkept.settles hfits hrow hwins).winCount
        rw [(hkept.users uid row hrow).1] at hcount
        rw [Option.bind_some, ← Option.toList_map, hcount]
        by_cases hsix : 6 ≤ streak world.history uid
        · rw [if_pos hsix, if_pos ⟨hsix, hwins⟩]
          rfl
        · rw [if_neg hsix, if_neg fun h => hsix h.1]
          rfl

/-- **A round is settled right** where the ids fit and the ended streaks are in the table. -/
theorem World.Kept.roundRight (hkept : world.Kept) {round : Round}
    (hplayed : world.played (.settle round) = true) (hfits : world.fits (.settle round) = true) :
    RoundRight strict world round ∧ (world.step strict (.settle round)).Kept := by
  obtain ⟨handled, hhandled, hround⟩ := @World.Kept.settleRound_spec strict _ _ hkept hplayed hfits
  have hnext : (world.step strict (.settle round)).Kept := by
    rw [World.step, hround]
    exact hkept.settle hplayed hhandled.rows hhandled.results
  refine ⟨⟨by rw [hround], fun uid user hget => ?_, ?_⟩, hnext⟩
  · obtain ⟨hcount, hids⟩ := hnext.users uid user hget
    refine ⟨hcount, ?_⟩
    rw [hids, List.length_map, List.length_reverse, hcount]
    rfl
  · refine ⟨round.result.entries.filterMap (handledReward (addResultLog world.db round)) ++
      (getRoomUserinfos handled round.bettors).filterMap (rewardOf (addResultLog world.db round)),
      ?_, fun uid => ?_⟩
    · rw [hround]
      show handled.rewards ++ _ = _
      rw [hhandled.rewards, List.append_assoc]
      rfl
    · rw [hhandled.settled_filter uid]
      exact hkept.winCounts hfits uid

theorem World.Kept.login (hkept : world.Kept) (uid : Uid) :
    (world.step strict (.login uid)).Kept := by
  show World.Kept ⟨handleRoomUser world.db uid, world.history⟩
  unfold handleRoomUser
  split_ifs with hrow
  · exact hkept
  · rw [Option.not_isSome_iff_eq_none] at hrow
    refine ⟨fun uid' user hget => ?_, fun uid' hget => ?_, hkept.results⟩
    · change (world.db.roomUsers.set uid {}).get uid' = some user at hget
      rw [LuaTable.get_set] at hget
      split_ifs at hget with huid
      · cases hget
        subst huid
        have hnone : streakRounds world.history uid = [] := hkept.others uid hrow
        show 0 = streak world.history uid ∧ idsOf [] = _
        rw [streak, hnone]
        exact ⟨rfl, rfl⟩
      · exact hkept.users uid' user hget
    · change (world.db.roomUsers.set uid {}).get uid' = none at hget
      rw [LuaTable.get_set] at hget
      split_ifs at hget with huid
      exact hkept.others uid' hget

theorem World.kept_start : World.Kept {} :=
  ⟨fun _ _ hget => absurd hget (by simp), fun _ _ => rfl,
    fun _ hmem => absurd hmem List.not_mem_nil⟩

end Invariant

section Rounds

/-- **Streaks are kept and settled in runs whose streaks fit.** After every round the rows hold the
streaks, and each one of six rounds or more is settled once, in the round that ends it. -/
theorem streaks_settled (strict : Bool) (events : List Event)
    (hplayed : Run.Along (World.step strict)
      (fun world event => world.played event = true) {} events)
    (hfits : Run.Along (World.step strict) (fun world event => world.fits event = true) {} events)
    (n : Nat) (round : Round) (hround : events[n]? = some (.settle round)) :
    RoundRight strict (Run.exec (World.step strict) {} (events.take n)) round := by
  have hboth := hplayed.and hfits
  have hkept := Run.invariant (fun world event (hkept : World.Kept world) hcond => by
    cases event with
    | login uid => exact hkept.login uid
    | settle round => exact (hkept.roundRight hcond.1 hcond.2).2) (events.take n) {}
      World.kept_start
      (hboth.take n)
  have hcond := hboth.at_index hround
  exact (hkept.roundRight hcond.1 hcond.2).1

/-- A round of banker 6 that the users 2 to 5 lose, with what it brings user 1. -/
def soloRound (roundId : Nat) (coinChange : ℚ) : Round where
  roundId
  result :=
    ⟨[(1, ⟨coinChange, false, 1, 100⟩), (2, ⟨-100, false, 1, 100⟩), (3, ⟨-100, false, 1, 100⟩),
    (4, ⟨-100, false, 1, 100⟩), (5, ⟨-100, false, 1, 100⟩), (6, ⟨400 - coinChange, true, 0, 0⟩)],
    (by decide : [1, 2, 3, 4, 5, 6].Nodup)⟩

/-- Six users log in, user 1 wins some rounds and then loses one. -/
def soloRun (wins : Nat) : List Event :=
  (List.range 6).map (fun i => .login (i + 1)) ++
    (List.range wins).map (fun i => .settle (soloRound (1514201855 + 60 * i) 100)) ++
    [.settle (soloRound (1514201855 + 60 * wins) (-100))]

theorem streaks_settled_sixWins :
    RoundRight true (Run.exec (World.step true) {} ((soloRun 6).take 12))
    (soloRound 1514202215 (-100)) :=
  streaks_settled true (soloRun 6) (by decide +kernel) (by decide +kernel) 12 _ rfl

/-- The reward of a streak of twenty-one rounds is looked up in a table that ends at twenty. -/
theorem streaks_not_settled :
    ¬∀ (strict : Bool) (events : List Event),
      Run.Along (World.step strict) (fun world event => world.played event = true) {} events →
        ∀ n round, events[n]? = some (.settle round) →
          RoundRight strict (Run.exec (World.step strict) {} (events.take n)) round := by
  intro h
  have hright := h true (soloRun 21) (by decide +kernel) 27 (soloRound 1514203115 (-100)) rfl
  have hraised : (settleRound true (Run.exec (World.step true) {} ((soloRun 21).take 27)).db
      (soloRound 1514203115 (-100))).2 = some .indexNil := by decide +kernel
  rw [hright.ok] at hraised
  cases hraised

end Rounds

end SdyServer.Hongbao.Streaks
