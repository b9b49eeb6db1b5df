import Mathlib.Algebra.Group.Submonoid.BigOperators
import SdyServer.Hongbao.Solvency
import SdyServer.User.Booking

/-!
# A settlement makes no coins

Bets are whole coins and all rates are whole halves, so wins and losses are whole cents and rounding
does not change them: what the banker is booked is what the others lose. A commission is rounded in
the same way where it is taken and where it is given.
-/

namespace SdyServer.Hongbao

section Changes

theorem rate_mem {betType : Int} {pointType : Option Int} {rate : ℚ}
    (h : getRate betType pointType = .ok (some rate)) : rate ∈ wholeCents := by
  obtain ⟨config, hconfig, hmem⟩ := mem_of_getRate h
  have hhalves : ∀ rate ∈ config, (rate * 2).den = 1 := by
    unfold getCategoryRate at hconfig
    split at hconfig
    all_goals cases hconfig
    all_goals decide +kernel
  refine mem_wholeCents_iff.mpr ⟨(rate * 2).num * 50, ?_⟩
  have hnum : ((rate * 2).num : ℚ) = rate * 2 := Rat.den_eq_one_iff _ |>.mp (hhalves rate hmem)
  rw [Int.cast_mul, hnum]
  push_cast
  ring

theorem cowChange_mem {v : TotalBet} {banker user : Point} {change : ℚ}
    (h : cowChange v banker user = .ok change) : change ∈ wholeCents := by
  obtain rfl | ⟨pointType, rate, hrate, rfl | rfl⟩ := cowChange_cases h
  · exact zero_mem _
  · exact mul_intCast_mem_wholeCents (rate_mem hrate) v.value
  · exact neg_mem (mul_intCast_mem_wholeCents (rate_mem hrate) v.value)

theorem hits_mem {rate : ℚ} (hrate : rate ∈ wholeCents) (hits : ℕ) (value : Int) :
    (hits : ℚ) * (rate * value) ∈ wholeCents := by
  rw [← nsmul_eq_mul]
  exact nsmul_mem (mul_intCast_mem_wholeCents hrate value) hits

theorem specialPointChange_mem {cow : List Point} {point : Point} {v : TotalBet} {change : ℚ}
    (h : specialPointChange cow point v = .ok change) : change ∈ wholeCents := by
  obtain ⟨hits, rate, -, hrate, rfl⟩ := specialPointChange_cases h
  split_ifs
  · exact neg_mem (intCast_mem_wholeCents v.value)
  · exact hits_mem (rate_mem hrate) hits v.value

theorem dxdsChange_mem {dxds : List Nat} {v : TotalBet} {isFirst : Bool} {change : ℚ}
    (h : dxdsChange dxds v isFirst = .ok change) : change ∈ wholeCents := by
  obtain ⟨maxDxds, hits, -, -, ⟨-, rfl | rfl⟩ | ⟨-, rate, hrate, rfl⟩⟩ := dxdsChange_cases h
  · have hhalf : (1 / 2 : ℚ) ∈ wholeCents := mem_wholeCents_iff.mpr ⟨50, by norm_num⟩
    rw [neg_mul, mul_comm]
    exact neg_mem (mul_intCast_mem_wholeCents hhalf v.value)
  · exact neg_mem (intCast_mem_wholeCents v.value)
  · exact hits_mem (rate_mem hrate) hits v.value

theorem sum_changes_mem {f : TotalBet → Lua ℚ}
    (hf : ∀ v change, f v = .ok change → change ∈ wholeCents)
    {bets : List TotalBet} {changes : List ℚ} (h : bets.mapM f = .ok changes) :
    changes.sum ∈ wholeCents := by
  refine list_sum_mem fun change hchange => ?_
  obtain ⟨v, -, hv⟩ := (Lua.mem_of_mapM_ok h change).mp hchange
  exact hf v change hv

/-- What a bettor wins or loses is whole cents, whatever he has betted on. -/
theorem userChange_mem {banker point : Point} {dxds : List Nat} {cow : List Point}
    {bets : List TotalBet} {change : ℚ} {total : Int}
    (h : userChange banker dxds cow point bets = .ok (change, total)) : change ∈ wholeCents := by
  unfold userChange at h
  obtain ⟨first, -, h⟩ := Lua.bind_eq_ok.mp h
  split_ifs at h
  · obtain ⟨change', hchange, h⟩ := Lua.bind_eq_ok.mp h
    cases h
    exact cowChange_mem hchange
  · obtain ⟨changes, hchanges, h⟩ := Lua.bind_eq_ok.mp h
    cases h
    exact sum_changes_mem (fun _ _ => specialPointChange_mem) hchanges
  · obtain ⟨head, hhead, h⟩ := Lua.bind_eq_ok.mp h
    obtain ⟨rest, hrest, h⟩ := Lua.bind_eq_ok.mp h
    cases h
    exact add_mem (dxdsChange_mem hhead) (sum_changes_mem (fun _ _ => dxdsChange_mem) hrest)
  · cases h
    exact zero_mem _

theorem userResult_mem {hongbao : LuaTable Uid Packet} {playes : List Uid} {banker : Point}
    {entry : Uid × List TotalBet} {people : PlayerResult}
    (h : userResult hongbao playes banker entry = .ok people) : people.coinChange ∈ wholeCents := by
  unfold userResult at h
  obtain ⟨packet, -, h⟩ := Lua.bind_eq_ok.mp h
  obtain ⟨⟨userDxds, userCow⟩, -, h⟩ := Lua.bind_eq_ok.mp h
  obtain ⟨userCow', -, h⟩ := Lua.bind_eq_ok.mp h
  obtain ⟨maxUserCow, -, h⟩ := Lua.bind_eq_ok.mp h
  obtain ⟨⟨coinChange, totalBetValue⟩, hchange, h⟩ := Lua.bind_eq_ok.mp h
  dsimp only at h
  split at h
  · cases h
  · cases h
    exact userChange_mem hchange

end Changes

section Batch

/-- Wins and losses are booked to the cent, and a change of nothing is not booked. -/
theorem winLoseAcct_net {v : PlayerResult} (hv : v.coinChange ∈ wholeCents) :
    (winLoseAcct v).net = v.coinChange := by
  obtain hlt | heq | hgt := lt_trichotomy v.coinChange 0
  · simp [winLoseAcct, UserAcct.net, hlt, hlt.not_gt, abs_of_neg hlt, round2_of_mem (neg_mem hv)]
  · simp [winLoseAcct, UserAcct.net, heq]
  · simp [winLoseAcct, UserAcct.net, hgt, abs_of_pos hgt, round2_of_mem hv]

theorem pumpAccts_net (owner : Uid) (v : PlayerResult) :
    ((pumpAccts owner v).map UserAcct.net).sum = 0 := by
  unfold pumpAccts
  split
  · rfl
  · simp [UserAcct.net]

/-- Over the whole batch only the wins and losses are left. -/
theorem resultAccts_net (room : Room) (banker : Uid) {result : List PlayerResult}
    (robPump newCoin : ℚ)
    (hresult : ∀ v ∈ result, v.coinChange ∈ wholeCents) :
    ((resultAccts room banker result robPump newCoin).map UserAcct.net).sum =
      (result.map PlayerResult.coinChange).sum := by
  have hback : ((result.map (giveBackAcct room)).map UserAcct.net).sum = 0 := by
    apply List.sum_eq_zero
    simp [giveBackAcct, UserAcct.net]
  have hwins : (result.map winLoseAcct).map UserAcct.net = result.map PlayerResult.coinChange := by
    rw [List.map_map]
    exact List.map_congr_left fun v hv => winLoseAcct_net (hresult v hv)
  have hpumps : ((result.flatMap (pumpAccts room.info.gameOwner)).map UserAcct.net).sum = 0 := by
    clear hresult hback hwins
    induction result with
    | nil => rfl
    | cons v result ih =>
        rw [List.flatMap_cons, List.map_append, List.sum_append, ih, pumpAccts_net, add_zero]
  have hrest : (([⟨some .defray, robPump, some banker⟩,
      ⟨some .profit, robPump, some room.info.gameOwner⟩, ⟨some .freeze, newCoin, some banker⟩] :
        List UserAcct).map UserAcct.net).sum = 0 := by
    simp [UserAcct.net]
  rw [resultAccts, List.map_append, List.map_append, List.map_append, List.sum_append,
    List.sum_append, List.sum_append, hback, hwins, hpumps, hrest]
  ring

/-- Rounding the entries only rounds the stake that is given back, where the frozen coins are whole
cents. -/
theorem batchHeld_rounded (room : Room) (banker : Uid) {result : List PlayerResult} (robPump : ℚ)
    {newCoin : ℚ} (hfrozen : ∀ uid, room.betCoin uid ∈ wholeCents) (hnew : round2 newCoin = newCoin)
    (uid : Uid) :
    batchHeld uid ((resultAccts room banker result robPump newCoin).map UserAcct.rounded) =
      batchHeld uid (resultAccts { room with bankerGameCoin := round2 room.bankerGameCoin } banker
        result robPump newCoin) := by
  have hback : (result.map (giveBackAcct room)).map UserAcct.rounded =
      result.map (giveBackAcct { room with bankerGameCoin := round2 room.bankerGameCoin }) := by
    rw [List.map_map]
    refine List.map_congr_left fun v _ => ?_
    have hcoin : round2 (if v.isBanker then room.bankerGameCoin else room.betCoin v.uid) =
        if v.isBanker then round2 room.bankerGameCoin else room.betCoin v.uid := by
      split_ifs
      · rfl
      · exact round2_of_mem (hfrozen v.uid)
    simp only [Function.comp, giveBackAcct, UserAcct.rounded, hcoin]
    rfl
  have hstill : ∀ accts : List UserAcct,
      (∀ acct ∈ accts, acct.type ≠ some .freeze ∧ acct.type ≠ some .giveBack) →
      batchHeld uid (accts.map UserAcct.rounded) = batchHeld uid accts := by
    intro accts haccts
    rw [batchHeld_eq_zero haccts, batchHeld_eq_zero]
    exact List.forall_mem_map.mpr haccts
  simp only [resultAccts, List.map_append, batchHeld_append, hback]
  congr 1
  · congr 1
    · congr 1
      exact hstill _ (List.forall_mem_map.mpr fun v _ => winLoseAcct_moves_nothing v)
    · refine hstill _ fun acct hacct => ?_
      obtain ⟨v, -, hv⟩ := List.mem_flatMap.mp hacct
      exact pumpAccts_move_nothing _ v acct hv
  · simp [UserAcct.rounded, UserAcct.held, hnew]

/-- What the entries of a settlement freeze, give back and add, when the banker has no bets. -/
theorem settle_books {room room' : Room} {settlement : Settlement}
    (h : settle room = .ok (room', settlement)) {banker : Uid} (hbanker : room.banker = some banker)
    (hapart : banker ∉ (room.totalBetData.getD ∅).keys)
    (hfrozen : ∀ uid, room.betCoin uid ∈ wholeCents) :
    (settlement.userAccts.map UserAcct.net).sum = 0 ∧
      ∀ uid, batchHeld uid (settlement.userAccts.map UserAcct.rounded) =
        if banker = uid then settlement.bankerGameCoin - round2 room.bankerGameCoin
        else -room.betCoin uid := by
  unfold settle at h
  obtain ⟨result, hresult, h⟩ := Lua.bind_eq_ok.mp h
  obtain ⟨bankerId, hbankerId, h⟩ := Lua.bind_eq_ok.mp h
  obtain ⟨bankerId', table, dealt, playes, point, peoples, total, hbanker', htable,
      hpeoples, rfl⟩ :=
    getResult_spec hresult
  obtain ⟨huids, hplain⟩ := userResults_spec hpeoples
  rw [hbanker, Option.some.injEq] at hbanker'
  rw [hbanker, Lua.need_some] at hbankerId
  cases hbankerId
  subst hbanker'
  cases h
  have hcents : ∀ people ∈ peoples, people.coinChange ∈ wholeCents := by
    intro people hmem
    obtain ⟨entry, -, hentry⟩ := (Lua.mem_of_mapM_ok hpeoples people).mp hmem
    exact userResult_mem hentry
  have hall : (peoples.filter fun people => people.uid ≠ banker) = peoples := by
    refine List.filter_eq_self.mpr fun people hmem => decide_eq_true fun heq => hapart ?_
    rw [htable, Option.getD_some, ← huids, ← heq]
    exact List.mem_map_of_mem hmem
  constructor
  · rw [resultAccts_net, hall]
    · simp
    · rw [hall, List.forall_mem_append, List.forall_mem_singleton]
      exact ⟨hcents, neg_mem (list_sum_mem (List.forall_mem_map.mpr hcents))⟩
  · intro uid
    rw [batchHeld_rounded _ _ _ hfrozen (round2_of_mem (round2_mem _))]
    exact batchHeld_resultAccts { room with bankerGameCoin := round2 room.bankerGameCoin } _ _
      htable
      huids hplain uid

end Batch

section Main

/-- The banker has no bets of his own. -/
theorem Room.book_apart {room : Room} {banker : Uid} (hbanker : room.banker = some banker)
    {requests : List (BetRequest × Answer)}
    (hothers : ∀ request ∈ requests, request.1.uid ≠ banker) :
    (room.book requests).room.banker = some banker ∧
      banker ∉ ((room.book requests).room.totalBetData.getD ∅).keys := by
  refine room.book_induction (P := fun book => book.room.banker = some banker ∧
    banker ∉ (book.room.totalBetData.getD ∅).keys) ⟨hbanker, List.not_mem_nil⟩ (fun _ h => h)
    fun book bet hbet _ h => ⟨h.1, ?_⟩
  obtain ⟨request, hrequest, hsame⟩ := List.mem_map.mp hbet
  simp only [recordBet, Option.getD_some, LuaTable.mem_keys_set, not_or]
  exact ⟨fun heq => hothers request hrequest (by rw [hsame, heq]), h.2⟩

theorem gameCoin_mem {bet : BetCall} (hpriced : Priced bet) : bet.gameCoin ∈ wholeCents := by
  have hvalue := intCast_mem_wholeCents bet.betValue
  obtain ⟨-, -, h⟩ | ⟨-, -, h⟩ | ⟨-, -, h⟩ | ⟨-, h, -⟩ := hpriced.price
  · rw [h]
    exact_mod_cast intCast_mem_wholeCents (16 * bet.betValue)
  · rwa [h]
  · rwa [h]
  · rwa [h]

/-- The coins of a bettor are those of his accepted bets. -/
theorem BookInv.betCoin {room : Room} {book : Book} (hinv : BookInv room book) (uid : Uid) :
    book.room.betCoin uid = book.frozen uid := by
  rw [Room.betCoin, hinv.totals, Book.frozen, sumGameCoin, List.map_map]
  rfl

theorem BookInv.betCoin_mem {room : Room} {book : Book} (hinv : BookInv room book) (uid : Uid) :
    book.room.betCoin uid ∈ wholeCents := by
  rw [hinv.betCoin, Book.frozen]
  refine list_sum_mem (List.forall_mem_map.mpr fun bet hbet => ?_)
  exact gameCoin_mem (hinv.priced bet (List.mem_of_mem_filter hbet))

/-- What the batch of a settlement does to the customers: nothing to all that they have together, a
bettor's frozen coins leave the games, and of the banker's the new stake is in the place of the old
one, beside what he has in other games. -/
structure Conserves (book : Book) (banker : Uid) (settlement : Settlement)
    (accounts : CustNo → Account) (customers : Finset CustNo) : Prop where
  total : ∑ uid ∈ customers, (bookAccts accounts settlement.userAccts uid).total =
    ∑ uid ∈ customers, (accounts uid).total
  bettors : ∀ uid, uid ≠ banker → (bookAccts accounts settlement.userAccts uid).game =
    (accounts uid).game - book.frozen uid
  stake : ∀ elsewhere, (accounts banker).game = elsewhere + round2 book.room.bankerGameCoin →
    (bookAccts accounts settlement.userAccts banker).game = elsewhere + settlement.bankerGameCoin

/-- **A settlement conserves coins**, whatever packets are dealt and whoever plays. -/
theorem settle_conserves (room : Room) (banker : Uid) (hbanker : room.banker = some banker)
    (requests : List (BetRequest × Answer)) (hothers : ∀ request ∈ requests, request.1.uid ≠ banker)
    (packets : Option (LuaTable Uid Packet)) (players : Option (List Uid)) (room' : Room)
    (settlement : Settlement)
    (hsettle : settle { (room.book requests).room with packets, players } = .ok (room', settlement))
    (accounts : CustNo → Account) (customers : Finset CustNo)
    (hcustomers : ∀ acct ∈ settlement.userAccts, ∃ uid ∈ customers, acct.custNo = some uid) :
    Conserves (room.book requests) banker settlement accounts customers := by
  have hinv := room.book_inv requests
  obtain ⟨hsame, hapart⟩ := room.book_apart hbanker hothers
  obtain ⟨hnet, hheld⟩ := settle_books hsettle hsame hapart hinv.betCoin_mem
  refine ⟨?_, fun uid huid => ?_, fun elsewhere hgame => ?_⟩
  · rw [bookAccts_total accounts hcustomers, hnet, add_zero]
  · rw [bookAccts_game, hheld, if_neg huid.symm, ← hinv.betCoin]
    exact (sub_eq_add_neg ..).symm
  · rw [bookAccts_game, hheld, if_pos rfl, hgame]
    ring

/-- A round of two bettors, the one against the banker, the other on size and parity. -/
def closedRoom : Room :=
  { info := { gameOwner := 9 }, banker := some 0, bankerGameCoin := 1000, bankerSurplusCoin := 1000,
    players := some [0] }

def closedRequests : List (BetRequest × Answer) :=
  [(bankerBet 1, .ok), (dxdsBet 2, .ok)]

def closedPackets : LuaTable Uid Packet :=
  LuaTable.ofKeys [0, 1, 2] fun uid =>
    { value := some (if uid = 0 then "1.23".toList else "2.57".toList) }

theorem conserves_closedRoom : ∃ room' settlement,
    settle { (closedRoom.book closedRequests).room with
      packets := some closedPackets, players := some [0, 1, 2] } = .ok (room', settlement) ∧
    Conserves (closedRoom.book closedRequests) 0 settlement
      (fun uid => ⟨100, (closedRoom.book closedRequests).frozen uid⟩) {0, 1, 2, 9} := by
  obtain ⟨room', settlement, hsettle⟩ := settle_isOk { (closedRoom.book closedRequests).room with
    packets := some closedPackets, players := some [0, 1, 2] } (by decide +kernel)
  refine ⟨room', settlement, hsettle, settle_conserves closedRoom 0 rfl closedRequests (by decide)
    (some closedPackets) (some [0, 1, 2]) room' settlement hsettle _ _ ?_⟩
  have hcustomers : ((settle { (closedRoom.book closedRequests).room with
      packets := some closedPackets, players := some [0, 1, 2] }).toOption.map fun settled =>
        settled.2.userAccts.map UserAcct.custNo) =
      some (([1, 2, 0, 1, 2, 0, 2, 9, 0, 9, 0] : List CustNo).map some) := by decide +kernel
  rw [hsettle, Except.toOption, Option.map_some, Option.some.injEq] at hcustomers
  intro acct hacct
  have hmem := List.mem_map_of_mem (f := UserAcct.custNo) hacct
  rw [hcustomers] at hmem
  obtain ⟨uid, huid, heq⟩ := List.mem_map.mp hmem
  have hlisted : ∀ uid ∈ ([1, 2, 0, 1, 2, 0, 2, 9, 0, 9, 0] : List CustNo),
      uid ∈ ({0, 1, 2, 9} : Finset CustNo) := by decide
  exact ⟨uid, hlisted uid huid, heq.symm⟩

end Main

end SdyServer.Hongbao
