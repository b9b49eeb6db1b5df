import SdyServer.Hongbao.Serial

/-!
# What a settlement moves

The batch of `game_result` returns to every bettor the coins of his bets, returns the banker's stake
and freezes his new one. Wins, losses and commissions move no frozen coins.
-/

namespace SdyServer.Hongbao

section Result

theorem userResult_spec {hongbao : LuaTable Uid Packet} {playes : List Uid} {banker : Point}
    {entry : Uid × List TotalBet} {people : PlayerResult}
    (h : userResult hongbao playes banker entry = .ok people) :
    people.uid = entry.1 ∧ people.isBanker = false := by
  unfold userResult at h
  obtain ⟨packet, -, h⟩ := Lua.bind_eq_ok.mp h
  obtain ⟨⟨userDxds, userCow⟩, -, h⟩ := Lua.bind_eq_ok.mp h
  obtain ⟨userCow', -, h⟩ := Lua.bind_eq_ok.mp h
  obtain ⟨maxUserCow, -, h⟩ := Lua.bind_eq_ok.mp h
  obtain ⟨⟨coinChange, totalBetValue⟩, -, h⟩ := Lua.bind_eq_ok.mp h
  dsimp only at h
  split at h
  · cases h
  · cases h
    exact ⟨rfl, rfl⟩

theorem userResults_spec {hongbao : LuaTable Uid Packet} {playes : List Uid} {banker : Point}
    {table : LuaTable Uid (List TotalBet)} {peoples : List PlayerResult}
    (h : (table.entries.mapM fun entry => userResult hongbao playes banker entry) = .ok peoples) :
    peoples.map PlayerResult.uid = table.keys ∧ ∀ people ∈ peoples, people.isBanker = false := by
  have huids := Lua.mapM_ok_map (g := PlayerResult.uid) (h := Prod.fst)
    (fun _ _ hok => (userResult_spec hok).1) h
  have hbankers := Lua.mapM_ok_map (g := PlayerResult.isBanker) (h := fun _ => false)
    (fun _ _ hok => (userResult_spec hok).2) h
  refine ⟨huids, fun people hmem => ?_⟩
  have hmap : people.isBanker ∈ peoples.map PlayerResult.isBanker := List.mem_map_of_mem hmem
  rw [hbankers] at hmap
  exact (List.mem_map.mp hmap).choose_spec.2.symm

/-- A result has one entry for the banker, who takes what the others lose, and one for every other
bettor. -/
theorem getResult_spec {bankerId : Option Uid} {hongbao : Option (LuaTable Uid Packet)}
    {betData : Option (LuaTable Uid (List TotalBet))} {playes : Option (List Uid)}
    {result : List PlayerResult} (h : getResult bankerId hongbao betData playes = .ok result) :
    ∃ (banker : Uid) (table : LuaTable Uid (List TotalBet)) (packets : LuaTable Uid Packet)
        (players : List Uid) (point : Point) (peoples : List PlayerResult) (total : Int),
      bankerId = some banker ∧ betData = some table ∧
      (table.entries.mapM fun entry => userResult packets players point entry) = .ok peoples ∧
      result = (peoples.filter fun people => people.uid ≠ banker) ++
        [⟨banker, true, -(peoples.map PlayerResult.coinChange).sum, total⟩] := by
  unfold getResult at h
  obtain ⟨banker, hbanker, h⟩ := Lua.bind_eq_ok.mp h
  obtain ⟨packets, -, h⟩ := Lua.bind_eq_ok.mp h
  obtain ⟨packet, -, h⟩ := Lua.bind_eq_ok.mp h
  obtain ⟨⟨dxds, bankerCow⟩, -, h⟩ := Lua.bind_eq_ok.mp h
  obtain ⟨bankerCow', -, h⟩ := Lua.bind_eq_ok.mp h
  obtain ⟨point, -, h⟩ := Lua.bind_eq_ok.mp h
  obtain ⟨table, htable, h⟩ := Lua.bind_eq_ok.mp h
  obtain ⟨players, -, h⟩ := Lua.bind_eq_ok.mp h
  obtain ⟨peoples, hpeoples, h⟩ := Lua.bind_eq_ok.mp h
  rw [Lua.need_eq_ok] at hbanker htable
  split at h
  · cases h
  · cases h
    exact ⟨banker, table, packets, players, point, peoples, _, hbanker, htable, hpeoples, rfl⟩

end Result

section Batch

theorem winLoseAcct_moves_nothing (v : PlayerResult) :
    (winLoseAcct v).type ≠ some .freeze ∧ (winLoseAcct v).type ≠ some .giveBack := by
  unfold winLoseAcct
  constructor <;> dsimp only <;> split_ifs <;> simp

theorem pumpAccts_move_nothing (owner : Uid) (v : PlayerResult) :
    ∀ acct ∈ pumpAccts owner v, acct.type ≠ some .freeze ∧ acct.type ≠ some .giveBack := by
  intro acct hacct
  unfold pumpAccts at hacct
  split at hacct
  · simp at hacct
  · simp only [List.mem_cons, List.not_mem_nil, or_false] at hacct
    rcases hacct with rfl | rfl <;> simp

/-- Each bettor of a list gets his own coins back, and nobody else does. -/
theorem batchHeld_giveBackAcct (room : Room) {peoples : List PlayerResult}
    (hnodup : (peoples.map PlayerResult.uid).Nodup)
    (hplain : ∀ people ∈ peoples, people.isBanker = false) (uid : Uid) :
    batchHeld uid (peoples.map (giveBackAcct room)) =
      if uid ∈ peoples.map PlayerResult.uid then -room.betCoin uid else 0 := by
  induction peoples with
  | nil => rfl
  | cons people rest ih =>
      rw [List.map_cons, List.nodup_cons] at hnodup
      have hrest := ih hnodup.2 fun v hv => hplain v (List.mem_cons_of_mem _ hv)
      have hbanker := hplain people (List.mem_cons_self ..)
      rw [List.map_cons, batchHeld_cons, hrest]
      by_cases huid : people.uid = uid
      · subst huid
        simp [giveBackAcct, hbanker, hnodup.1]
      · have huid' : ¬ uid = people.uid := fun h => huid h.symm
        simp [giveBackAcct, huid, huid']

theorem betCoin_of_notMem {room : Room} {uid : Uid}
    (huid : uid ∉ (room.totalBetData.getD ∅).keys) : room.betCoin uid = 0 := by
  rw [Room.betCoin, (LuaTable.get_eq_none_iff _).mpr huid]
  rfl

/-- **The batch of a settlement** takes a bettor's coins out of the game and changes the banker's
stake to the new one. -/
theorem batchHeld_resultAccts (room : Room) {banker : Uid} {table : LuaTable Uid (List TotalBet)}
    {change : ℚ} {total : Int} {peoples : List PlayerResult} (robPump newCoin : ℚ)
    (htable : room.totalBetData = some table) (huids : peoples.map PlayerResult.uid = table.keys)
    (hplain : ∀ people ∈ peoples, people.isBanker = false) (uid : Uid) :
    batchHeld uid (resultAccts room banker ((peoples.filter fun people => people.uid ≠ banker) ++
        [⟨banker, true, change, total⟩]) robPump newCoin) =
      if banker = uid then newCoin - room.bankerGameCoin else -room.betCoin uid := by
  have hwins : ∀ result : List PlayerResult, batchHeld uid (result.map winLoseAcct) = 0 := by
    intro result
    apply batchHeld_eq_zero
    intro acct hacct
    obtain ⟨v, -, rfl⟩ := List.mem_map.mp hacct
    exact winLoseAcct_moves_nothing v
  have hpumps : ∀ result : List PlayerResult,
      batchHeld uid (result.flatMap (pumpAccts room.info.gameOwner)) = 0 := by
    intro result
    apply batchHeld_eq_zero
    intro acct hacct
    obtain ⟨v, -, hv⟩ := List.mem_flatMap.mp hacct
    exact pumpAccts_move_nothing _ v acct hv
  have hothers :
      ((peoples.filter fun people => people.uid ≠ banker).map PlayerResult.uid).Nodup := by
    have : (peoples.map PlayerResult.uid).Nodup := huids ▸ table.nodup_keys
    exact this.sublist (List.Sublist.map _ List.filter_sublist)
  have hback := batchHeld_giveBackAcct room hothers
    (fun v hv => hplain v (List.mem_of_mem_filter hv)) uid
  have hmem : uid ∈ (peoples.filter fun people => people.uid ≠ banker).map PlayerResult.uid ↔
      uid ∈ table.keys ∧ uid ≠ banker := by
    rw [← huids]
    simp only [List.mem_map, List.mem_filter]
    grind
  rw [resultAccts, batchHeld_append, batchHeld_append, batchHeld_append, hwins, hpumps,
    List.map_append, batchHeld_append, hback]
  simp only [hmem]
  by_cases huid : banker = uid
  · subst huid
    simp [giveBackAcct, UserAcct.held]
    ring
  · have huid' : uid ≠ banker := fun h => huid h.symm
    by_cases htab : uid ∈ table.keys
    · simp [htab, giveBackAcct, UserAcct.held, huid, huid']
    · have hzero : room.betCoin uid = 0 := betCoin_of_notMem (by rwa [htable])
      simp [htab, giveBackAcct, UserAcct.held, huid, hzero]

theorem settle_spec {room room' : Room} {settlement : Settlement}
    (h : settle room = .ok (room', settlement)) :
    room.banker = some settlement.user ∧
      (∃ coin, room' = { room with bankerGameCoin := coin }) ∧
      ∀ uid, batchHeld uid settlement.userAccts =
        if room.banker = some uid then settlement.bankerGameCoin - room.bankerGameCoin
        else -room.betCoin uid := by
  unfold settle at h
  obtain ⟨result, hresult, h⟩ := Lua.bind_eq_ok.mp h
  obtain ⟨bankerId, hbankerId, h⟩ := Lua.bind_eq_ok.mp h
  obtain ⟨banker, table, packets, players, point, peoples, total, hbanker, htable, hpeoples, rfl⟩ :=
    getResult_spec hresult
  obtain ⟨huids, hplain⟩ := userResults_spec hpeoples
  rw [hbanker, Lua.need_some] at hbankerId
  cases hbankerId
  cases h
  refine ⟨hbanker, ⟨_, rfl⟩, fun uid => ?_⟩
  rw [hbanker, batchHeld_resultAccts room _ _ htable huids hplain uid]
  simp

theorem settle_isOk (room : Room) (h : room.settles = true) :
    ∃ room' settlement, settle room = .ok (room', settlement) := by
  unfold Room.settles at h
  cases hresult : getResult room.banker room.packets room.totalBetData room.players with
  | error error =>
      rw [hresult] at h
      cases h
  | ok result =>
      obtain ⟨banker, -, -, -, -, -, -, hbanker, -⟩ := getResult_spec hresult
      rw [settle, hresult, hbanker]
      exact ⟨_, _, rfl⟩

end Batch

end SdyServer.Hongbao
