import SdyServer.Hongbao.SerialRun

/-!
# The coins of a desk

What a customer has frozen is his stake as banker and, while the bets of the round are open, the
coins of his bets. A handler that waits between two bookings adds what it has booked already: a
challenger's coins while the old banker's are still to be returned, and a settlement that is on its
way.
-/

namespace SdyServer.Hongbao.Desk

variable {F : Faults} {d d' : Desk}

def holds (d : Desk) (uid : Uid) : ℚ :=
  d.bankerCoin uid + if betsOpen d.step then d.betCoin uid else 0

def expected (d : Desk) (uid : Uid) : ℚ :=
  match d.frame with
  | some (.biaoReturn challenger coin _ _) => d.holds uid + if challenger = uid then coin else 0
  | some (.resultReduce settlement) | some (.resultCoin settlement) =>
      (if d.banker = some uid then settlement.bankerGameCoin else 0) -
        batchHeld uid settlement.userAccts
  | some (.flowReturn _) | some (.flowCoin ..) => d.bankerCoin uid + d.betCoin uid
  | _ => d.holds uid

def Balanced (d : Desk) : Prop := ∀ uid, heldBy d.log uid = d.expected uid

/-- A failure between two bookings of one handler leaves the books half way. -/
def halfBooked : Frame → Bool
  | .biaoReturn .. | .resultReduce _ | .resultCoin _ | .flowReturn _ | .flowCoin .. => true
  | _ => false

def ledgerFaults : Faults where
  fail frame := halfBooked frame = false
  raise := False
  robStart := True

instance (frame : Frame) : Decidable (ledgerFaults.fail frame) :=
  inferInstanceAs (Decidable (halfBooked frame = false))

instance : Decidable ledgerFaults.raise := inferInstanceAs (Decidable False)

instance : Decidable ledgerFaults.robStart := inferInstanceAs (Decidable True)

section Amounts

theorem sumGameCoin_append (bets : List TotalBet) (bet : TotalBet) :
    sumGameCoin (bets ++ [bet]) = sumGameCoin bets + bet.gameCoin := by
  simp [sumGameCoin]

/-- Returning every bet returns to each customer the coins of his own. -/
theorem batchHeld_giveBack {entries : List (Uid × List TotalBet)}
    (hnodup : (entries.map Prod.fst).Nodup) (uid : Uid) :
    batchHeld uid (entries.map fun entry => ⟨some .giveBack, sumGameCoin entry.2, some entry.1⟩) =
      -sumGameCoin ((LuaTable.getEntry uid entries).getD []) := by
  induction entries with
  | nil => simp [LuaTable.getEntry, sumGameCoin]
  | cons entry rest ih =>
      obtain ⟨k, bets⟩ := entry
      rw [List.map_cons, List.nodup_cons] at hnodup
      rw [List.map_cons, batchHeld_cons, ih hnodup.2]
      by_cases hk : k = uid
      · subst hk
        have hnone : LuaTable.getEntry k rest = none := LuaTable.getEntry_eq_none_iff.mpr hnodup.1
        simp [UserAcct.held, LuaTable.getEntry, hnone, sumGameCoin]
      · simp [UserAcct.held, LuaTable.getEntry, hk]

theorem batchHeld_flowAccts (d : Desk) (uid : Uid) :
    batchHeld uid d.flowAccts = -d.betCoin uid :=
  batchHeld_giveBack d.totals.nodupKeys uid

theorem betCoin_eq_zero (htotals : d.flowAccts = []) (uid : Uid) : d.betCoin uid = 0 := by
  have := batchHeld_flowAccts d uid
  rw [htotals, batchHeld_nil] at this
  linarith

end Amounts

section Idle

theorem Idle.holds_eq (hidle : d.Idle) (uid : Uid) : d.holds uid = d.bankerCoin uid := by
  simp [holds, hidle.betsOpen_eq]

theorem holds_of_biao (hstep : d.step = .biao) (uid : Uid) : d.holds uid = d.bankerCoin uid := by
  simp [holds, hstep, betsOpen]

theorem Balanced.reframe (hbal : d.Balanced) {frame : Option Frame} {log : List ServiceCall}
    (hlog : ∀ uid, heldBy log uid - heldBy d.log uid =
      { d with frame, log }.expected uid - d.expected uid) : { d with frame, log }.Balanced := by
  intro uid
  have := hlog uid
  have := hbal uid
  show heldBy log uid = _
  linarith

theorem expected_of_closing {user : Uid} {coin : ℚ} (hclosing : Closing user coin d.frame)
    (uid : Uid) : d.expected uid = d.holds uid := by
  unfold expected
  cases hframe : d.frame with
  | none => rfl
  | some frame =>
      rw [hframe] at hclosing
      cases hclosing <;> rfl

end Idle

theorem betCoin_record (hinv : d.Inv) {bet : BetCall} (hbet : d.bet = some bet) (uid : Uid) :
    (d.record bet).betCoin uid = d.betCoin uid + if bet.uid = uid then bet.gameCoin else 0 := by
  have hstep : d.step = .bet := hinv.betting (.inl (by simp [hbet]))
  have hopen : betsOpen d.step = true := by rw [hstep]; rfl
  obtain ⟨-, hadmits, -⟩ := hinv.pending bet hbet
  simp only [betCoin, record, LuaTable.get_set]
  by_cases huid : bet.uid = uid
  · subst huid
    rw [if_pos rfl, if_pos rfl, Option.getD_some,
      addTotalBet_eq_append (hinv.fresh_entry hopen hadmits), sumGameCoin_append]
  · rw [if_neg huid, if_neg huid, add_zero]

theorem Balanced.of_record (hbal : d.Balanced) (hinv : d.Inv) {bet : BetCall}
    (hbet : d.bet = some bet) : (d.record bet).Balanced := by
  have hstep : d.step = .bet := hinv.betting (.inl (by simp [hbet]))
  have hframe := hinv.frame_eq_none hstep
  intro uid
  have hold : heldBy d.log uid = d.bankerCoin uid + d.betCoin uid := by
    rw [hbal uid]
    simp [expected, hframe, holds, hstep, betsOpen]
  have hnew : (d.record bet).expected uid = d.bankerCoin uid + (d.record bet).betCoin uid := by
    simp [expected, holds, betsOpen, hframe, hstep, record, bankerCoin]
  rw [hnew, betCoin_record hinv hbet]
  show heldBy (d.log ++ [bet.call]) uid = _
  rw [heldBy_append_singleton, hold]
  simp [BetCall.call, ServiceCall.held, add_assoc]

section Moves

variable {uid : Uid} {coin : ℚ}

/-- What the calls add to the books is what the desk expects besides. -/
theorem Balanced.robbed (hbal : d.Balanced) (hidle : d.Idle) (hbanker : d.banker = none)
    (hframe : d.frame = some (.robCoin uid coin)) {frame : Option Frame} {step : GameStep}
    (hnext : frame = none ∨ frame = some .startFreeze) (hclosed : betsOpen step = false)
    (players : Option (List Uid)) (owner : Uid) :
    { d with
      frame, banker := some uid, coin, players, step,
      log := d.log ++ [(Frame.robCoin uid coin).call owner] }.Balanced := by
  intro u
  have := hbal u
  simp only [expected, hframe, hidle.holds_eq, bankerCoin, hbanker] at this
  rcases hnext with rfl | rfl
  · simp [expected, holds, hclosed, bankerCoin, Frame.call, ServiceCall.held, this]
  · simp [expected, holds, hclosed, bankerCoin, Frame.call, ServiceCall.held, this]

theorem Balanced.biaoDone (hbal : d.Balanced) (hstep : d.step = .biao) (hne : d.banker ≠ some uid)
    (hframe : d.frame = some (.biaoReturn uid coin d.banker d.coin)) (owner : Uid) :
    { d with
      frame := none, banker := some uid, coin, players := some [uid],
      log := d.log ++ [(Frame.biaoReturn uid coin d.banker d.coin).call owner] }.Balanced := by
  intro u
  have := hbal u
  simp only [expected, hframe, holds_of_biao hstep, Desk.bankerCoin] at this
  simp only [expected, holds, hstep, betsOpen, Desk.bankerCoin, Frame.call, heldBy_append_singleton,
    ServiceCall.held, batchHeld_cons, batchHeld_nil, UserAcct.held_giveBack, this]
  by_cases hu : d.banker = some u
  · have : uid ≠ u := fun h => hne (h ▸ hu)
    simp [hu, this]
  · simp [hu]

theorem Balanced.toppedUp (hbal : d.Balanced) (hstep : d.step = .biao)
    (hbanker : d.banker = some uid)
    (hframe : d.frame = some (.biaoTopUp uid coin (coin - d.coin))) (owner : Uid) :
    { d with
      frame := none, banker := some uid, coin, players := some [uid],
      log := d.log ++ [(Frame.biaoTopUp uid coin (coin - d.coin)).call owner] }.Balanced := by
  intro u
  have := hbal u
  simp only [expected, hframe, holds_of_biao hstep, bankerCoin, hbanker] at this
  simp only [expected, holds, hstep, betsOpen, bankerCoin, Frame.call, heldBy_append_singleton,
    ServiceCall.held, batchHeld_cons, batchHeld_nil, UserAcct.held_freeze, this]
  by_cases hu : uid = u <;> simp [hu]

theorem Balanced.downed (hbal : d.Balanced) (hidle : d.Idle) (hbanker : d.banker = some uid)
    {startFailed : Bool} (hframe : d.frame = some (.down uid d.coin startFailed)) (owner : Uid) :
    { d with
      frame := none, banker := none, coin := 0, players := none,
      step := if startFailed then .none else d.step,
      log := d.log ++ [(Frame.down uid d.coin startFailed).call owner] }.Balanced := by
  intro u
  have := hbal u
  simp only [expected, hframe, hidle.holds_eq, bankerCoin, hbanker] at this
  have hclosed : betsOpen (if startFailed then GameStep.none else d.step) = false := by
    cases startFailed
    · exact hidle.betsOpen_eq
    · rfl
  simp only [expected, holds, hclosed, bankerCoin, Frame.call, heldBy_append_singleton,
    ServiceCall.held, batchHeld_cons, batchHeld_nil, UserAcct.held_giveBack, this]
  by_cases hu : uid = u <;> simp [hu]

/-- A settlement returns the bets and the stake, and freezes what the banker has then. -/
theorem Balanced.settling (hbal : d.Balanced) (hinv : d.Inv) (hframe : d.frame = none)
    (hstep : d.step = .waitResult) {settlement : Settlement}
    (hbatch : ∀ uid, batchHeld uid settlement.userAccts =
      if d.banker = some uid then settlement.bankerGameCoin - d.coin else -d.betCoin uid) :
    { d with frame := some (.resultReduce settlement), step := .result, coin }.Balanced := by
  intro u
  have := hbal u
  simp only [expected, hframe, holds, hstep, betsOpen, bankerCoin] at this
  simp only [expected, hbatch u, this]
  by_cases hu : d.banker = some u
  · have hopen : betsOpen d.step = true := by rw [hstep]; rfl
    have hnot : u ∉ d.totals.keys := by
      rw [hinv.totals hopen]
      exact fun h => hinv.bettors hopen u h hu
    have hzero : d.betCoin u = 0 := by
      simp [betCoin, (LuaTable.get_eq_none_iff _).mpr hnot, sumGameCoin]
    simp [hu, hzero]
  · simp [hu]

theorem Balanced.settled (hbal : d.Balanced) (hstep : d.step = .result) {settlement : Settlement}
    (hframe : d.frame = some (.resultCoin settlement)) {frame : Option Frame}
    (hnext : Closing settlement.user settlement.bankerGameCoin frame) :
    { d with
      frame, coin := settlement.bankerGameCoin,
      log := d.log ++ [ServiceCall.operatGameResultAcct settlement.userAccts] }.Balanced := by
  intro u
  have := hbal u
  simp only [expected, hframe] at this
  rw [expected_of_closing hnext]
  simp [holds, hstep, betsOpen, bankerCoin, ServiceCall.held, this]

theorem Balanced.flowReturned (hbal : d.Balanced) (hstep : d.step = .result)
    (hframe : d.frame = some (.flowReturn (some uid))) :
    { d with
      frame := if d.flowAccts = [] then none else some (.flowCoin uid d.flowAccts),
      log := d.log ++ [ServiceCall.returnRoomGold] }.Balanced := by
  refine hbal.reframe fun u => ?_
  by_cases haccts : d.flowAccts = []
  · have := betCoin_eq_zero haccts u
    simp [expected, hframe, haccts, ServiceCall.held, holds, hstep, betsOpen, bankerCoin, this]
  · simp [expected, hframe, haccts, ServiceCall.held, bankerCoin, betCoin]

theorem Balanced.flowed (hbal : d.Balanced) (hstep : d.step = .result)
    (hframe : d.frame = some (.flowCoin uid d.flowAccts)) {frame : Option Frame}
    (hnext : Closing uid d.coin frame) :
    { d with frame, log := d.log ++ [ServiceCall.operatGameResultAcct d.flowAccts] }.Balanced := by
  refine hbal.reframe fun u => ?_
  rw [expected_of_closing hnext]
  simp [expected, hframe, ServiceCall.held, batchHeld_flowAccts, holds, hstep, betsOpen, bankerCoin]

/-- Bets begin from nothing. -/
theorem Balanced.started (hbal : d.Balanced) (hidle : d.Idle)
    (hframe : d.frame = some .startFreeze) :
    { d with
      frame := none, step := .bet, bets := ∅, totals := ∅,
      log := d.log ++ [ServiceCall.freezeRoomGold] }.Balanced := by
  intro u
  have := hbal u
  simp only [expected, hframe, hidle.holds_eq, bankerCoin] at this
  simp [expected, holds, betsOpen, bankerCoin, betCoin, sumGameCoin, ServiceCall.held, this]

theorem Balanced.opened (hbal : d.Balanced) (hframe : d.frame = none) (hstep : d.step = .biaoEnd) :
    { d with step := .bet, bets := ∅, totals := ∅ }.Balanced := by
  intro u
  have := hbal u
  simp only [expected, hframe, holds, hstep, betsOpen, bankerCoin] at this
  simpa [expected, hframe, holds, betsOpen, bankerCoin, betCoin, sumGameCoin] using this

theorem Balanced.advanced (hbal : d.Balanced) (hframe : d.frame = none) {step : GameStep}
    (hsame : betsOpen step = betsOpen d.step) : { d with step }.Balanced := by
  intro u
  have := hbal u
  simpa [expected, hframe, holds, hsame, bankerCoin, betCoin] using this

theorem betsOpen_of_follows {step step' : GameStep} (h : follows step step' = true) :
    betsOpen step' = betsOpen step := by
  revert h
  cases step <;> cases step' <;> simp [follows, betsOpen]

theorem Balanced.downFailed (hbal : d.Balanced) (hidle : d.Idle)
    (hframe : d.frame = some (.down uid coin true)) :
    { d with frame := none, step := .none }.Balanced := by
  intro u
  have := hbal u
  simp only [expected, hframe, hidle.holds_eq, bankerCoin] at this
  simp [expected, holds, betsOpen, bankerCoin, this]

/-- The end of a round takes away what nobody has frozen any more. -/
theorem Balanced.ended (hbal : d.Balanced) (hframe : d.frame = none) (hstep : d.step = .result)
    {frame : Option Frame} {step : GameStep} (hclosed : betsOpen step = false)
    (hnext : ∀ d : Desk, d.frame = frame → d.expected = d.holds) (players : Option (List Uid)) :
    { d with frame, step, players, bets := ∅, totals := ∅, packets := none }.Balanced := by
  intro u
  have hold : heldBy d.log u = d.bankerCoin u := by
    have := hbal u
    simpa [expected, hframe, holds, hstep, betsOpen] using this
  rw [hnext _ rfl, holds, hclosed, if_neg Bool.false_ne_true, add_zero]
  exact hold

/-- **Every move keeps the books.** -/
theorem Balanced.move (hbal : d.Balanced) (hinv : d.Inv) (hmove : Move ledgerFaults d d') :
    d'.Balanced := by
  cases hmove with
  | stay => exact hbal
  | robAsked uid coin hframe hbanker =>
      refine hbal.reframe fun u => ?_
      simp [expected, hframe, holds, bankerCoin, betCoin]
  | robFrozen uid coin hframe =>
      refine hbal.reframe fun u => ?_
      simp [expected, hframe, ServiceCall.held, holds, bankerCoin, betCoin]
  | robbed uid coin owner hframe =>
      obtain ⟨hidle, hbanker⟩ := hinv.waits _ hframe
      exact hbal.robbed hidle hbanker hframe (.inl rfl) rfl _ owner
  | robStarted uid coin owner hfault hframe =>
      obtain ⟨hidle, hbanker⟩ := hinv.waits _ hframe
      exact hbal.robbed hidle hbanker hframe (.inr rfl) hidle.betsOpen_eq _ owner
  | biaoAsked uid coin hframe hstep hbanker =>
      refine hbal.reframe fun u => ?_
      simp [expected, hframe, holds, bankerCoin, betCoin]
  | biaoFrozen uid coin owner hframe =>
      refine hbal.reframe fun u => ?_
      simp [expected, hframe, Frame.call, ServiceCall.held, holds, bankerCoin, betCoin]
  | biaoDone uid coin banker bankerCoin owner hframe =>
      obtain ⟨hstep, hne, rfl, rfl⟩ := hinv.waits _ hframe
      exact hbal.biaoDone hstep hne hframe owner
  | topUpAsked uid coin hframe hstep hbanker =>
      refine hbal.reframe fun u => ?_
      simp [expected, hframe, holds, bankerCoin, betCoin]
  | toppedUp uid coin offsetCoin owner hframe =>
      obtain ⟨hstep, hbanker, rfl⟩ := hinv.waits _ hframe
      exact hbal.toppedUp hstep hbanker hframe owner
  | downAsked uid hframe hidle hbanker =>
      refine hbal.reframe fun u => ?_
      simp [expected, hframe, holds, bankerCoin, betCoin]
  | downed uid coin startFailed owner hframe =>
      obtain ⟨hidle, hbanker, rfl⟩ := hinv.waits _ hframe
      exact hbal.downed hidle hbanker hframe owner
  | failed frame hfault hframe =>
      refine hbal.reframe fun u => ?_
      cases frame <;> simp_all [expected, holds, bankerCoin, betCoin, ledgerFaults, halfBooked]
  | downFailed uid coin hfault hframe => exact hbal.downFailed (hinv.waits _ hframe).1 hframe
  | startFailed banker hfault hframe hbanker =>
      refine hbal.reframe fun u => ?_
      simp [expected, hframe, holds, bankerCoin, betCoin]
  | started hframe => exact hbal.started (hinv.waits _ hframe).1 hframe
  | opened hframe hstep => exact hbal.opened hframe hstep
  | advanced step hframe hstep hclosed => exact hbal.advanced hframe (betsOpen_of_follows hstep)
  | dealt keys hframe hstep hnodup hkeys =>
      intro u
      have := hbal u
      simpa [expected, hframe, holds, hstep, betsOpen, bankerCoin, betCoin] using this
  | queued req hstep hbanker => exact hbal
  | betTried req queue next hfree hreq hnext => exact hbal
  | betFailed bet hbet => exact hbal
  | betDone bet hbet => exact hbal.of_record hinv hbet
  | settling settlement coin hframe hstep huser hbatch =>
      exact hbal.settling hinv hframe hstep hbatch
  | settleRaised hfault hframe hstep => exact hfault.elim
  | reduced settlement hframe =>
      refine hbal.reframe fun u => ?_
      simp [expected, hframe, ServiceCall.held]
  | settled settlement frame hframe hnext => exact hbal.settled (hinv.waits _ hframe).1 hframe hnext
  | rewarded user uid reward rest frame log hframe hnext hheld hescrow =>
      refine hbal.reframe fun u => ?_
      rw [hheld, expected_of_closing hnext]
      simp [expected, hframe, holds, bankerCoin, betCoin]
  | flowing hframe hstep =>
      intro u
      have := hbal u
      simpa [expected, hframe, holds, hstep, betsOpen, bankerCoin, betCoin] using this
  | flowReturned user hframe => exact hbal.flowReturned (hinv.waits _ hframe).1 hframe
  | flowed user userAccts frame hframe hnext =>
      obtain ⟨hstep, -, rfl⟩ := hinv.waits _ hframe
      exact hbal.flowed hstep hframe hnext
  | roundOver hframe hstep hbanker =>
      exact hbal.ended hframe hstep rfl (fun e h => by funext u; simp [expected, h, hframe]) none
  | overDown banker hframe hstep hbanker =>
      exact hbal.ended hframe hstep (by rw [hstep]; rfl)
        (fun d h => by funext u; simp [expected, h]) _
  | overStart banker hframe hstep hbanker =>
      exact hbal.ended hframe hstep (by rw [hstep]; rfl)
        (fun d h => by funext u; simp [expected, h]) _

end Moves

end SdyServer.Hongbao.Desk

namespace SdyServer.Hongbao

def World.Quiet (world : World) : Prop :=
  world.frames = [] ∧ world.bet = none ∧ world.queue = []

instance (world : World) : Decidable world.Quiet :=
  inferInstanceAs (Decidable (_ ∧ _ ∧ _))

section Runs

theorem fresh_balanced (info : RoomInfo) : (World.fresh info).desk.Balanced := by
  intro uid
  simp [World.fresh, World.desk, Room.desk, Desk.expected, Desk.holds, Desk.bankerCoin,
    Desk.betsOpen]

/-- **The coin ledger.** In a serial run in which no handler is left half booked and no settlement
raises, whenever no handler is suspended the books show for every customer his stake as banker and,
while the bets of the round are open, the coins of his bets. -/
theorem coins_balanced (info : RoomInfo) (events : List Event)
    (halong : Run.Along step (fun w e => Serial w e ∧ Permits Desk.ledgerFaults w e)
      (World.fresh info) events)
    (hquiet : (Run.exec step (World.fresh info) events).frames = []) (uid : Uid) :
    heldBy (Run.exec step (World.fresh info) events).log uid =
      (Run.exec step (World.fresh info) events).room.bankerCoin uid +
        if Desk.betsOpen (Run.exec step (World.fresh info) events).room.gameStep then
          (Run.exec step (World.fresh info) events).room.betCoin uid
        else 0 := by
  obtain ⟨-, hbal⟩ := serial_invariant Desk.ledgerFaults fresh_balanced
    (fun d d' hinv hmove hbal => Desk.Balanced.move hbal hinv hmove) info events halong
  have hbooks := hbal uid
  rw [World.desk_of_idle hquiet] at hbooks
  exact hbooks

def countDown (n : Nat) : List Event := List.replicate n (.tick fun _ => some "1.23".toList)

/-- A rob, the phase in which the banker can be challenged, and one bet. -/
def openingRun : List Event :=
  [.setBankerType (some 1), .robBanker 1 1000, .resume 0 .ok [], .resume 0 .ok []] ++
    countDown 11 ++ [.betting 2 ⟨some 2, none, some 10⟩, .resumeBet .ok]

theorem coins_balanced_openingRun :
    (Run.Along step (fun w e => Serial w e ∧ Permits Desk.ledgerFaults w e) (World.fresh {})
      openingRun ∧ (Run.exec step (World.fresh {}) openingRun).frames = []) ∧
    heldBy (Run.exec step (World.fresh {}) openingRun).log 2 =
      (Run.exec step (World.fresh {}) openingRun).room.bankerCoin 2 +
        if Desk.betsOpen (Run.exec step (World.fresh {}) openingRun).room.gameStep then
          (Run.exec step (World.fresh {}) openingRun).room.betCoin 2
        else 0 := by
  have halong : Run.Along step (fun w e => Serial w e ∧ Permits Desk.ledgerFaults w e)
      (World.fresh {}) openingRun := by decide +kernel
  have hquiet : (Run.exec step (World.fresh {}) openingRun).frames = [] := by decide +kernel
  exact ⟨⟨halong, hquiet⟩, coins_balanced {} openingRun halong hquiet 2⟩

/-- Two users rob at the same time, and both pass the check before either is banker. -/
def robRace : List Event :=
  [.setBankerType (some 1), .robBanker 1 100, .robBanker 2 200,
    .resume 0 .ok [], .resume 0 .ok [], .resume 0 .ok [], .resume 0 .ok []]

/-- A round with five bettors that is settled, and whose banker steps down. -/
def settledRun : List Event :=
  [.setBankerType (some 1), .robBanker 1 100000, .resume 0 .ok [], .resume 0 .ok []] ++
    countDown 11 ++
    (List.range 5).flatMap (fun u => [.betting (u + 2) ⟨some 2, none, some 10⟩, .resumeBet .ok]) ++
    countDown 117 ++ List.replicate 3 (.resume 0 .ok [])

/-- With two robs under way the coins of the first are frozen and held by nobody; and after a
settlement the records of the round still stand although their coins have been returned. -/
theorem coins_not_balanced :
    ((Run.exec step (World.fresh {}) robRace).Quiet ∧
      heldBy (Run.exec step (World.fresh {}) robRace).log 1 ≠
        (Run.exec step (World.fresh {}) robRace).room.bankerCoin 1 +
          (Run.exec step (World.fresh {}) robRace).room.betCoin 1) ∧
    ((Run.exec step (World.fresh {}) settledRun).Quiet ∧
      heldBy (Run.exec step (World.fresh {}) settledRun).log 2 ≠
        (Run.exec step (World.fresh {}) settledRun).room.bankerCoin 2 +
          (Run.exec step (World.fresh {}) settledRun).room.betCoin 2) := by
  decide +kernel

end Runs

end SdyServer.Hongbao
