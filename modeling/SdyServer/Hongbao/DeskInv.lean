import SdyServer.Hongbao.Desk

/-!
# What every desk keeps

Whatever the account service answers, a desk that is moved one handler at a time knows who takes
part: the players are the banker and the bettors, a frame waits only in a step that fits it, and
bets are under way only while betting is open.
-/

namespace SdyServer.Hongbao.Desk

variable {F : Faults} {d d' : Desk}

def Waits (d : Desk) : Frame → Prop
  | .robFreeze .. => d.Idle ∧ d.banker = none
  | .robCoin .. => d.Idle ∧ d.banker = none
  | .startFreeze => d.Idle ∧ ∃ banker, d.banker = some banker ∧ d.players = some [banker]
  | .down uid coin _ => d.Idle ∧ d.banker = some uid ∧ coin = d.coin
  | .biaoFreeze uid _ => d.step = .biao ∧ d.banker ≠ some uid
  | .biaoReturn uid _ banker bankerCoin =>
      d.step = .biao ∧ d.banker ≠ some uid ∧ banker = d.banker ∧ bankerCoin = d.coin
  | .biaoTopUp uid coin offsetCoin =>
      d.step = .biao ∧ d.banker = some uid ∧ offsetCoin = coin - d.coin
  | .resultReduce settlement => d.step = .result ∧ d.banker = some settlement.user
  | .resultCoin settlement => d.step = .result ∧ d.banker = some settlement.user
  | .reward user .. => d.step = .result ∧ d.banker = some user
  | .flowReturn user => d.step = .result ∧ d.banker = user ∧ user ≠ none
  | .flowCoin user userAccts =>
      d.step = .result ∧ d.banker = some user ∧ userAccts = d.flowAccts

def WellFormed (bets : List Bet) : Prop :=
  bets ≠ [] ∧ ∀ bet ∈ bets, bet.type = 3 → bets = [bet] ∧ bet.subType.any dxdsNamed

structure Inv (d : Desk) : Prop where
  betting : d.bet ≠ none ∨ d.queue ≠ [] → d.step = .bet
  waits : ∀ frame, d.frame = some frame → d.Waits frame
  seated : ∀ uid, d.banker = some uid → uid ∈ d.players.getD []
  unseated : d.banker = none → d.players = none
  banked : d.banker = none → d.Idle
  alone : d.step = .biao ∨ d.step = .biaoEnd → ∀ uid, d.banker = some uid → d.players = some [uid]
  players : betsOpen d.step → ∀ uid,
    uid ∈ d.players.getD [] ↔ d.banker = some uid ∨ uid ∈ d.bets.keys
  bettors : betsOpen d.step → ∀ uid ∈ d.bets.keys, d.banker ≠ some uid
  totals : betsOpen d.step → d.totals.keys = d.bets.keys
  entries : betsOpen d.step → ∀ uid,
    ((d.totals.get uid).getD []).map TotalBet.toBet = (d.bets.get uid).getD []
  pending : ∀ bet, d.bet = some bet → d.banker ≠ some bet.uid ∧ d.Admits bet
  queued : ∀ req ∈ d.queue, d.banker ≠ some req.uid
  records : ∀ uid bets, d.bets.get uid = some bets → WellFormed bets
  dealt : d.step = .qiang ∨ d.step = .waitResult → ∃ keys, d.packets = some keys ∧ keys.Nodup ∧
    ∀ uid, uid ∈ keys ↔ d.banker = some uid ∨ uid ∈ d.totals.keys

theorem Idle.betsOpen_eq (hidle : d.Idle) : betsOpen d.step = false := by
  rcases hidle with h | h <;> rw [h] <;> rfl

theorem Idle.ne_bet (hidle : d.Idle) : d.step ≠ .bet := by
  rcases hidle with h | h <;> rw [h] <;> decide

section Frames

theorem Waits.ne_bet {frame : Frame} (hwaits : d.Waits frame) : d.step ≠ .bet := by
  cases frame <;> simp only [Waits] at hwaits
  case robFreeze | robCoin | startFreeze | down => exact hwaits.1.ne_bet
  all_goals
    rw [hwaits.1]
    decide

theorem Inv.frame_eq_none (hinv : d.Inv) (hstep : d.step = .bet) : d.frame = none := by
  cases hframe : d.frame with
  | none => rfl
  | some frame => exact absurd hstep (hinv.waits frame hframe).ne_bet

theorem Inv.bet_eq_none (hinv : d.Inv) (hstep : d.step ≠ .bet) : d.bet = none := by
  by_contra h
  exact hstep (hinv.betting (.inl h))

theorem Inv.queue_eq_nil (hinv : d.Inv) (hstep : d.step ≠ .bet) : d.queue = [] := by
  by_contra h
  exact hstep (hinv.betting (.inr h))

theorem Inv.banker_isSome (hinv : d.Inv) (hround : ¬d.Idle) : ∃ banker, d.banker = some banker := by
  cases h : d.banker with
  | some banker => exact ⟨banker, rfl⟩
  | none => exact absurd (hinv.banked h) hround

/-- Another frame, and nothing else but the log, is as good as the one before. -/
theorem Inv.reframe (hinv : d.Inv) (frame : Option Frame) (log : List ServiceCall)
    (hwaits : ∀ f, frame = some f → d.Waits f) : { d with frame, log }.Inv :=
  { hinv with
    waits := hwaits }

theorem Closing.waits {user : Uid} {coin : ℚ} {frame : Option Frame}
    (hclosing : Closing user coin frame) (hstep : d.step = .result)
    (hbanker : d.banker = some user) (hcoin : coin = d.coin) :
    ∀ f, frame = some f → d.Waits f := by
  intro f hf
  cases hclosing with
  | stays => cases hf
  | rewards uid reward rest =>
      cases hf
      exact ⟨hstep, hbanker⟩
  | downs =>
      cases hf
      exact ⟨.inr hstep, hbanker, hcoin⟩

end Frames

section Rounds

/-- A desk between rounds: everything that is asked of open bets is asked of nothing. -/
theorem Inv.of_idle (hidle : d.Idle) (hbet : d.bet = none) (hqueue : d.queue = [])
    (hwaits : ∀ frame, d.frame = some frame → d.Waits frame)
    (hseated : ∀ uid, d.banker = some uid → uid ∈ d.players.getD [])
    (hunseated : d.banker = none → d.players = none)
    (hrecords : ∀ uid bets, d.bets.get uid = some bets → WellFormed bets) : d.Inv where
  betting := by simp [hbet, hqueue]
  waits := hwaits
  seated := hseated
  unseated := hunseated
  banked _ := hidle
  alone hstep := by rcases hidle with h | h <;> simp [h] at hstep
  players hopen := by simp [hidle.betsOpen_eq] at hopen
  bettors hopen := by simp [hidle.betsOpen_eq] at hopen
  totals hopen := by simp [hidle.betsOpen_eq] at hopen
  entries hopen := by simp [hidle.betsOpen_eq] at hopen
  pending := by simp [hbet]
  queued := by simp [hqueue]
  records := hrecords
  dealt hstep := by rcases hidle with h | h <;> simp [h] at hstep

theorem Inv.of_biao (hinv : d.Inv) {step : GameStep} (hstep : step = .biao ∨ step = .biaoEnd)
    (hnot : d.step ≠ .bet) (banker : Uid) (coin : ℚ) (log : List ServiceCall) :
    { d with
      step, banker := some banker, coin, players := some [banker], frame := none, log }.Inv where
  betting := by simp [hinv.bet_eq_none hnot, hinv.queue_eq_nil hnot]
  waits := by simp
  seated := by simp
  unseated := by simp
  banked := by simp
  alone := by simp
  players hopen := by rcases hstep with rfl | rfl <;> simp [betsOpen] at hopen
  bettors hopen := by rcases hstep with rfl | rfl <;> simp [betsOpen] at hopen
  totals hopen := by rcases hstep with rfl | rfl <;> simp [betsOpen] at hopen
  entries hopen := by rcases hstep with rfl | rfl <;> simp [betsOpen] at hopen
  pending := by simp [hinv.bet_eq_none hnot]
  queued := by simp [hinv.queue_eq_nil hnot]
  records := hinv.records
  dealt h := by rcases hstep with rfl | rfl <;> simp at h

theorem Inv.of_open (hinv : d.Inv) (hnot : d.step ≠ .bet) {banker : Uid}
    (hbanker : d.banker = some banker) (hplayers : d.players = some [banker])
    (log : List ServiceCall) :
    { d with frame := none, step := .bet, bets := ∅, totals := ∅, log }.Inv where
  betting := by simp
  waits := by simp
  seated := hinv.seated
  unseated := hinv.unseated
  banked := by simp [hbanker]
  alone := by simp
  players _ uid := by simp [hbanker, hplayers, eq_comm]
  bettors := by simp
  totals := by simp
  entries := by simp
  pending := by simp [hinv.bet_eq_none hnot]
  queued := by simp [hinv.queue_eq_nil hnot]
  records := by simp
  dealt := by simp

theorem Inv.of_advance (hinv : d.Inv) {step : GameStep} (hframe : d.frame = none)
    (hstep : follows d.step step = true) (hclosed : d.step = .bet → d.bet = none ∧ d.queue = []) :
    { d with step }.Inv := by
  have hbet : d.bet = none ∧ d.queue = [] := by
    by_cases h : d.step = .bet
    · exact hclosed h
    · exact ⟨hinv.bet_eq_none h, hinv.queue_eq_nil h⟩
  have hopen : betsOpen step = true → betsOpen d.step = true := by
    revert hstep
    cases d.step <;> cases step <;> simp [follows, betsOpen]
  have halone : step = .biao ∨ step = .biaoEnd → d.step = .biao ∨ d.step = .biaoEnd := by
    revert hstep
    cases d.step <;> cases step <;> simp [follows]
  have hdealt : step = .qiang ∨ step = .waitResult → d.step = .qiang ∨ d.step = .waitResult := by
    revert hstep
    cases d.step <;> cases step <;> simp [follows]
  have hbanker : d.banker ≠ none := by
    intro h
    have hidle := hinv.banked h
    revert hstep
    rcases hidle with h | h <;> rw [h] <;> cases step <;> simp [follows]
  exact { hinv with
    betting := by simp [hbet]
    waits := by simp [hframe]
    banked := fun h => absurd h hbanker
    alone := fun h => hinv.alone (halone h)
    players := fun h => hinv.players (hopen h)
    bettors := fun h => hinv.bettors (hopen h)
    totals := fun h => hinv.totals (hopen h)
    entries := fun h => hinv.entries (hopen h)
    dealt := fun h => hinv.dealt (hdealt h) }

theorem Inv.of_dealt (hinv : d.Inv) {keys : List Uid} (hframe : d.frame = none)
    (hstep : d.step = .send) (hnodup : keys.Nodup)
    (hkeys : ∀ uid, uid ∈ keys ↔ d.banker = some uid ∨ uid ∈ d.totals.keys) :
    { d with step := .qiang, packets := some keys }.Inv := by
  have hopen : betsOpen d.step = true := by rw [hstep]; rfl
  have hnot : d.step ≠ .bet := by rw [hstep]; decide
  have hbanker : d.banker ≠ none := by
    intro h
    rcases hinv.banked h with h | h <;> simp [hstep] at h
  exact { hinv with
    betting := by simp [hinv.bet_eq_none hnot, hinv.queue_eq_nil hnot]
    waits := by simp [hframe]
    banked := fun h => absurd h hbanker
    alone := by simp
    players := fun _ => hinv.players hopen
    bettors := fun _ => hinv.bettors hopen
    totals := fun _ => hinv.totals hopen
    entries := fun _ => hinv.entries hopen
    dealt := fun _ => ⟨keys, rfl, hnodup, hkeys⟩ }

end Rounds

section Bets

theorem WellFormed.append_bet {bets : List Bet} {bet : BetCall}
    (hwell : bets ≠ [] → WellFormed bets)
    (hadmits : ∀ v ∈ bets, v.type = 4 ∧ bet.betType = 4 ∧ v.subType ≠ bet.betSubType)
    (hdxds : bet.betType = 3 → bet.betSubType.any dxdsNamed) :
    WellFormed (bets ++ [⟨bet.betType, bet.betSubType, bet.betValue⟩]) := by
  refine ⟨by simp, ?_⟩
  intro v hv htype
  cases bets with
  | nil =>
      simp only [List.nil_append, List.mem_singleton] at hv
      subst hv
      exact ⟨rfl, hdxds htype⟩
  | cons head rest =>
      -- a user who already has a bet can only add another bet on a point
      have hfour := (hadmits head (List.mem_cons_self ..)).2.1
      rcases List.mem_append.mp hv with hv | hv
      · have := (hadmits v hv).1
        omega
      · rw [List.mem_singleton] at hv
        subst hv
        simp only at htype
        omega

theorem addTotalBet_eq_append {bet : BetCall} {total : List TotalBet}
    (hfresh : ∀ v ∈ total, ¬(v.type = bet.betType ∧ v.subType = bet.betSubType)) :
    addTotalBet bet total =
      total ++ [{ type := bet.betType, subType := bet.betSubType, value := bet.betValue,
                  gameCoin := bet.gameCoin }] := by
  have hany : (total.any fun v => v.type = bet.betType ∧ v.subType = bet.betSubType) = false := by
    rw [List.any_eq_false]
    intro v hv
    simpa using hfresh v hv
  have hmap : total.map (fun v => if v.type = bet.betType ∧ v.subType = bet.betSubType then
      { v with value := v.value + bet.betValue, gameCoin := v.gameCoin + bet.gameCoin }
      else v) = total := by
    conv_rhs => rw [← List.map_id total]
    apply List.map_congr_left
    intro v hv
    exact if_neg (hfresh v hv)
  simp only [addTotalBet, hany, hmap, Bool.false_eq_true, if_false]

theorem Inv.fresh_entry (hinv : d.Inv) (hopen : betsOpen d.step = true) {bet : BetCall}
    (hadmits : ∀ v ∈ (d.bets.get bet.uid).getD [],
      v.type = 4 ∧ bet.betType = 4 ∧ v.subType ≠ bet.betSubType) :
    ∀ v ∈ (d.totals.get bet.uid).getD [],
      ¬(v.type = bet.betType ∧ v.subType = bet.betSubType) := by
  intro v hv hsame
  have hmem : v.toBet ∈ (d.bets.get bet.uid).getD [] := by
    rw [← hinv.entries hopen]
    exact List.mem_map_of_mem hv
  exact (hadmits v.toBet hmem).2.2 hsame.2

theorem Inv.of_record (hinv : d.Inv) {bet : BetCall} (hbet : d.bet = some bet) :
    (d.record bet).Inv := by
  have hstep : d.step = .bet := hinv.betting (.inl (by simp [hbet]))
  have hopen : betsOpen d.step = true := by rw [hstep]; rfl
  obtain ⟨hbanker, hadmits, hdxds⟩ := hinv.pending bet hbet
  refine
    { hinv with
      betting := fun _ => hstep
      waits := fun frame h => absurd h (by simp [record, hinv.frame_eq_none hstep])
      seated := fun uid h => by simp [record, hinv.seated uid h]
      unseated := fun h => absurd (hinv.banked h) (fun hidle => hidle.ne_bet hstep)
      alone := fun h => by simp [record, hstep] at h
      players := fun _ uid => ?_
      bettors := fun _ uid huid => ?_
      totals := fun _ => ?_
      entries := fun _ uid => ?_
      pending := by simp [record]
      records := fun uid bets h => ?_
      dealt := fun h => by simp [record, hstep] at h }
  · have := hinv.players hopen uid
    simp only [record, Option.getD_some, List.mem_insert_iff, LuaTable.mem_keys_set]
    tauto
  · rcases (LuaTable.mem_keys_set ..).mp huid with rfl | h
    · exact hbanker
    · exact hinv.bettors hopen uid h
  · simp only [record, LuaTable.keys_set, hinv.totals hopen]
  · simp only [record, LuaTable.get_set]
    split
    case isTrue heq =>
      subst heq
      simp [addTotalBet_eq_append (hinv.fresh_entry hopen hadmits), hinv.entries hopen]
    case isFalse => exact hinv.entries hopen uid
  · simp only [record, LuaTable.get_set] at h
    split at h
    case isTrue heq =>
      subst heq
      cases h
      refine WellFormed.append_bet (fun hne => ?_) hadmits hdxds
      cases hget : d.bets.get bet.uid with
      | none => simp [hget] at hne
      | some bets => exact hinv.records _ bets hget
    case isFalse => exact hinv.records uid bets h

theorem Inv.of_tried (hinv : d.Inv) {req : BetRequest} {queue : List BetRequest}
    {next : Option BetCall}
    (hreq : (d.step = .bet ∧ d.banker ≠ some req.uid ∧ queue = d.queue) ∨ d.queue = req :: queue)
    (hnext : ∀ bet ∈ next, bet.uid = req.uid ∧ d.Admits bet) :
    { d with bet := next, queue }.Inv := by
  have hstep : d.step = .bet := by
    rcases hreq with ⟨h, -⟩ | h
    · exact h
    · exact hinv.betting (.inr (by simp [h]))
  have hbanker : d.banker ≠ some req.uid := by
    rcases hreq with ⟨-, h, -⟩ | h
    · exact h
    · exact hinv.queued req (by simp [h])
  have hsub : ∀ r ∈ queue, r ∈ d.queue := by
    rcases hreq with ⟨-, -, rfl⟩ | h
    · exact fun _ hr => hr
    · simp +contextual [h]
  exact { hinv with
    betting := fun _ => hstep
    pending := fun bet h => by
      obtain ⟨huid, hadmits⟩ := hnext bet h
      exact ⟨by rwa [huid], hadmits⟩
    queued := fun r hr => hinv.queued r (hsub r hr) }

end Bets

section Moves

theorem Inv.of_left (hinv : d.Inv) {step : GameStep} (hnot : d.step ≠ .bet)
    (hstep : step = .none ∨ step = .result) (log : List ServiceCall) :
    { d with frame := none, banker := none, coin := 0, players := none, step, log }.Inv :=
  .of_idle hstep (hinv.bet_eq_none hnot) (hinv.queue_eq_nil hnot) (by simp) (by simp) (by simp)
    hinv.records

theorem Inv.of_over (hinv : d.Inv) {players : Option (List Uid)} {frame : Option Frame}
    (hstep : d.step = .result) (hbanker : ∀ uid, d.banker = some uid → uid ∈ players.getD [])
    (hnone : d.banker = none → players = none)
    (hwaits : ∀ f, frame = some f →
      { d with frame, players, bets := ∅, totals := ∅, packets := none }.Waits f) :
    { d with frame, players, bets := ∅, totals := ∅, packets := none }.Inv := by
  have hnot : d.step ≠ .bet := by rw [hstep]; decide
  exact .of_idle (.inr hstep) (hinv.bet_eq_none hnot) (hinv.queue_eq_nil hnot) hwaits hbanker hnone
    (by simp)

theorem Inv.of_result (hinv : d.Inv) (frame : Option Frame) (coin : ℚ) (hnot : d.step ≠ .bet)
    (hwaits : ∀ f, frame = some f → { d with frame, step := .result, coin }.Waits f) :
    { d with frame, step := .result, coin }.Inv :=
  .of_idle (.inr rfl) (hinv.bet_eq_none hnot) (hinv.queue_eq_nil hnot) hwaits hinv.seated
    hinv.unseated hinv.records

theorem Inv.robbed_players (hinv : d.Inv) (hbanker : d.banker = none) (uid : Uid) :
    (d.players.getD []).insert uid = [uid] := by
  simp [hinv.unseated hbanker]

/-- **Every move keeps the invariant.** -/
theorem Inv.move (hinv : d.Inv) (hmove : Move F d d') : d'.Inv := by
  cases hmove with
  | stay => exact hinv
  | robAsked uid coin hframe hbanker =>
      exact hinv.reframe _ _ (by rintro f ⟨⟩; exact ⟨hinv.banked hbanker, hbanker⟩)
  | robFrozen uid coin hframe =>
      obtain ⟨hidle, hbanker⟩ := hinv.waits _ hframe
      exact hinv.reframe _ _ (by rintro f ⟨⟩; exact ⟨hidle, hbanker⟩)
  | robbed uid coin owner hframe =>
      obtain ⟨hidle, hbanker⟩ := hinv.waits _ hframe
      rw [hinv.robbed_players hbanker]
      exact hinv.of_biao (.inl rfl) hidle.ne_bet uid coin _
  | robStarted uid coin owner hfault hframe =>
      obtain ⟨hidle, hbanker⟩ := hinv.waits _ hframe
      rw [hinv.robbed_players hbanker]
      refine .of_idle hidle (hinv.bet_eq_none hidle.ne_bet) (hinv.queue_eq_nil hidle.ne_bet)
        ?_ (by simp) (by simp) hinv.records
      rintro f ⟨⟩
      exact ⟨hidle, uid, rfl, rfl⟩
  | biaoAsked uid coin hframe hstep hbanker =>
      exact hinv.reframe _ _ (by rintro f ⟨⟩; exact ⟨hstep, hbanker⟩)
  | biaoFrozen uid coin owner hframe =>
      obtain ⟨hstep, hbanker⟩ := hinv.waits _ hframe
      exact hinv.reframe _ _ (by rintro f ⟨⟩; exact ⟨hstep, hbanker, rfl, rfl⟩)
  | biaoDone uid coin banker bankerCoin owner hframe =>
      have hstep := (hinv.waits _ hframe).1
      exact hinv.of_biao (.inl hstep) (hinv.waits _ hframe).ne_bet uid coin _
  | topUpAsked uid coin hframe hstep hbanker =>
      exact hinv.reframe _ _ (by rintro f ⟨⟩; exact ⟨hstep, hbanker, rfl⟩)
  | toppedUp uid coin offsetCoin owner hframe =>
      have hstep := (hinv.waits _ hframe).1
      exact hinv.of_biao (.inl hstep) (hinv.waits _ hframe).ne_bet uid coin _
  | downAsked uid hframe hidle hbanker =>
      exact hinv.reframe _ _ (by rintro f ⟨⟩; exact ⟨hidle, hbanker, rfl⟩)
  | downed uid coin startFailed owner hframe =>
      obtain ⟨hidle, -⟩ := hinv.waits _ hframe
      refine hinv.of_left hidle.ne_bet ?_ _
      cases startFailed
      · exact hidle
      · exact .inl rfl
  | failed frame hfault hframe => exact hinv.reframe none d.log (by simp)
  | downFailed uid coin hfault hframe =>
      obtain ⟨hidle, -⟩ := hinv.waits _ hframe
      exact .of_idle (.inl rfl) (hinv.bet_eq_none hidle.ne_bet) (hinv.queue_eq_nil hidle.ne_bet)
        (by simp) hinv.seated hinv.unseated hinv.records
  | startFailed banker hfault hframe hbanker =>
      obtain ⟨hidle, -⟩ := hinv.waits _ hframe
      exact hinv.reframe _ d.log (by rintro f ⟨⟩; exact ⟨hidle, hbanker, rfl⟩)
  | started hframe =>
      obtain ⟨hidle, banker, hbanker, hplayers⟩ := hinv.waits _ hframe
      exact hinv.of_open hidle.ne_bet hbanker hplayers _
  | opened hframe hstep =>
      have hnot : d.step ≠ .bet := by rw [hstep]; decide
      obtain ⟨banker, hbanker⟩ := hinv.banker_isSome (by simp [Idle, hstep])
      have := hinv.of_open hnot hbanker (hinv.alone (.inr hstep) banker hbanker) d.log
      rwa [← hframe] at this
  | advanced step hframe hstep hclosed => exact hinv.of_advance hframe hstep hclosed
  | dealt keys hframe hstep hnodup hkeys => exact hinv.of_dealt hframe hstep hnodup hkeys
  | queued req hstep hbanker =>
      exact { hinv with
        betting := fun _ => hstep
        queued := fun r hr => by
          rcases List.mem_append.mp hr with h | h
          · exact hinv.queued r h
          · rw [List.mem_singleton] at h
            rwa [h] }
  | betTried req queue next hfree hreq hnext => exact hinv.of_tried hreq hnext
  | betFailed bet hbet =>
      exact { hinv with
        betting := fun _ => hinv.betting (.inl (by simp [hbet]))
        pending := by simp }
  | betDone bet hbet => exact hinv.of_record hbet
  | settling settlement coin hframe hstep huser hbatch =>
      refine hinv.of_result _ _ (by simp [hstep]) ?_
      rintro f ⟨⟩
      exact ⟨rfl, huser⟩
  | settleRaised hfault hframe hstep =>
      have := hinv.of_result none d.coin (by simp [hstep]) (by simp)
      rwa [← hframe] at this
  | reduced settlement hframe =>
      obtain ⟨hstep, hbanker⟩ := hinv.waits _ hframe
      exact hinv.reframe _ _ (by rintro f ⟨⟩; exact ⟨hstep, hbanker⟩)
  | settled settlement frame hframe hnext =>
      obtain ⟨hstep, hbanker⟩ := hinv.waits _ hframe
      have hresult := hinv.of_result none settlement.bankerGameCoin
        (by simp [hstep]) (by simp)
      rw [← hstep] at hresult
      exact hresult.reframe frame _ (hnext.waits hstep hbanker rfl)
  | rewarded user uid reward rest frame log hframe hnext hheld hescrow =>
      obtain ⟨hstep, hbanker⟩ := hinv.waits _ hframe
      exact hinv.reframe _ _ (hnext.waits hstep hbanker rfl)
  | flowing hframe hstep =>
      refine hinv.of_result _ d.coin (by simp [hstep]) ?_
      rintro f ⟨⟩
      refine ⟨rfl, rfl, fun h => ?_⟩
      rcases hinv.banked h with h | h <;> simp [hstep] at h
  | flowReturned user hframe =>
      obtain ⟨hstep, hbanker, -⟩ := hinv.waits _ hframe
      refine hinv.reframe _ _ ?_
      intro f hf
      split at hf
      · cases hf
      · cases hf
        exact ⟨hstep, hbanker, rfl⟩
  | flowed user userAccts frame hframe hnext =>
      obtain ⟨hstep, hbanker, -⟩ := hinv.waits _ hframe
      exact hinv.reframe _ _ (hnext.waits hstep hbanker rfl)
  | roundOver hframe hstep hbanker =>
      have hnot : d.step ≠ .bet := by rw [hstep]; decide
      exact .of_idle (.inl rfl) (hinv.bet_eq_none hnot) (hinv.queue_eq_nil hnot) (by simp [hframe])
        (by simp [hbanker]) (by simp) (by simp)
  | overDown banker hframe hstep hbanker =>
      refine hinv.of_over hstep hinv.seated hinv.unseated ?_
      rintro f ⟨⟩
      exact ⟨.inr hstep, hbanker, rfl⟩
  | overStart banker hframe hstep hbanker =>
      refine hinv.of_over hstep (by simp [hbanker]) (by simp [hbanker]) ?_
      rintro f ⟨⟩
      exact ⟨.inr hstep, banker, hbanker, rfl⟩

end Moves

end SdyServer.Hongbao.Desk
