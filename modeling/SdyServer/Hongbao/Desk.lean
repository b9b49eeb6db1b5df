import SdyServer.Hongbao.Machine
import Mathlib.Data.List.Nodup

/-!
# The room with one handler at a time

The desk is what remains of the room when at most one handler besides the bets is suspended: the
step, the banker and his stake, who takes part, the bets, and the one frame. A move is what may
happen to a desk in one event. The faults a run may show are a parameter of the moves: which frames
may be answered with a failure, whether a settlement may raise, and whether a rob may start a round
without the phase in which the banker can be challenged.
-/

namespace SdyServer.Hongbao

structure Desk where
  step : GameStep
  banker : Option Uid
  coin : ℚ
  players : Option (List Uid)
  bets : LuaTable Uid (List Bet)
  totals : LuaTable Uid (List TotalBet)
  packets : Option (List Uid)
  frame : Option Frame
  bet : Option BetCall
  queue : List BetRequest
  log : List ServiceCall

structure Faults where
  fail : Frame → Prop
  raise : Prop
  robStart : Prop

namespace Desk

def Idle (d : Desk) : Prop := d.step = .none ∨ d.step = .result

def betsOpen : GameStep → Bool
  | .bet | .betEnd | .send | .qiang | .waitResult | .flow => true
  | _ => false

def betCoin (d : Desk) (uid : Uid) : ℚ := sumGameCoin ((d.totals.get uid).getD [])

def bankerCoin (d : Desk) (uid : Uid) : ℚ := if d.banker = some uid then d.coin else 0

def flowAccts (d : Desk) : List UserAcct :=
  d.totals.entries.map fun entry => ⟨some .giveBack, sumGameCoin entry.2, some entry.1⟩

def Admits (d : Desk) (bet : BetCall) : Prop :=
  (∀ v ∈ (d.bets.get bet.uid).getD [],
    v.type = 4 ∧ bet.betType = 4 ∧ v.subType ≠ bet.betSubType) ∧
    (bet.betType = 3 → bet.betSubType.any dxdsNamed)

def record (d : Desk) (bet : BetCall) : Desk :=
  { d with
    bets := d.bets.set bet.uid
      (((d.bets.get bet.uid).getD []) ++ [⟨bet.betType, bet.betSubType, bet.betValue⟩]),
    totals := d.totals.set bet.uid (addTotalBet bet ((d.totals.get bet.uid).getD [])),
    players := some ((d.players.getD []).insert bet.uid),
    bet := none,
    log := d.log ++ [bet.call] }

inductive Closing (user : Uid) (coin : ℚ) : Option Frame → Prop
  | stays : Closing user coin none
  | rewards (uid : Uid) (reward : ℚ) (rest : List (Uid × ℚ)) :
      Closing user coin (some (.reward user uid reward rest))
  | downs : Closing user coin (some (.down user coin false))

def follows : GameStep → GameStep → Bool
  | .biao, .biaoEnd => true
  | .bet, .betEnd => true
  | .betEnd, .flow => true
  | .betEnd, .send => true
  | .qiang, .waitResult => true
  | _, _ => false

inductive Move (F : Faults) (d : Desk) : Desk → Prop
  | stay : Move F d d
  -- becoming banker
  | robAsked (uid : Uid) (coin : ℚ) (hframe : d.frame = none) (hbanker : d.banker = none) :
      Move F d { d with frame := some (.robFreeze uid coin) }
  | robFrozen (uid : Uid) (coin : ℚ) (hframe : d.frame = some (.robFreeze uid coin)) :
      Move F d { d with
        frame := some (.robCoin uid coin), log := d.log ++ [.freezeRoomGold] }
  | robbed (uid : Uid) (coin : ℚ) (owner : Uid) (hframe : d.frame = some (.robCoin uid coin)) :
      Move F d { d with
        frame := none, banker := some uid, coin,
        players := some ((d.players.getD []).insert uid), step := .biao,
        log := d.log ++ [(Frame.robCoin uid coin).call owner] }
  | robStarted (uid : Uid) (coin : ℚ) (owner : Uid) (hfault : F.robStart)
      (hframe : d.frame = some (.robCoin uid coin)) :
      Move F d { d with
        frame := some .startFreeze, banker := some uid, coin,
        players := some ((d.players.getD []).insert uid),
        log := d.log ++ [(Frame.robCoin uid coin).call owner] }
  | biaoAsked (uid : Uid) (coin : ℚ) (hframe : d.frame = none) (hstep : d.step = .biao)
      (hbanker : d.banker ≠ some uid) :
      Move F d { d with frame := some (.biaoFreeze uid coin) }
  | biaoFrozen (uid : Uid) (coin : ℚ) (owner : Uid)
      (hframe : d.frame = some (.biaoFreeze uid coin)) :
      Move F d { d with
        frame := some (.biaoReturn uid coin d.banker d.coin),
        log := d.log ++ [(Frame.biaoFreeze uid coin).call owner] }
  | biaoDone (uid : Uid) (coin : ℚ) (banker : Option Uid) (bankerCoin : ℚ) (owner : Uid)
      (hframe : d.frame = some (.biaoReturn uid coin banker bankerCoin)) :
      Move F d { d with
        frame := none, banker := some uid, coin, players := some [uid],
        log := d.log ++ [(Frame.biaoReturn uid coin banker bankerCoin).call owner] }
  | topUpAsked (uid : Uid) (coin : ℚ) (hframe : d.frame = none) (hstep : d.step = .biao)
      (hbanker : d.banker = some uid) :
      Move F d { d with frame := some (.biaoTopUp uid coin (coin - d.coin)) }
  | toppedUp (uid : Uid) (coin offsetCoin : ℚ) (owner : Uid)
      (hframe : d.frame = some (.biaoTopUp uid coin offsetCoin)) :
      Move F d { d with
        frame := none, banker := some uid, coin, players := some [uid],
        log := d.log ++ [(Frame.biaoTopUp uid coin offsetCoin).call owner] }
  -- stepping down
  | downAsked (uid : Uid) (hframe : d.frame = none) (hidle : d.Idle)
      (hbanker : d.banker = some uid) :
      Move F d { d with frame := some (.down uid d.coin false) }
  | downed (uid : Uid) (coin : ℚ) (startFailed : Bool) (owner : Uid)
      (hframe : d.frame = some (.down uid coin startFailed)) :
      Move F d { d with
        frame := none, banker := none, coin := 0, players := none,
        step := if startFailed then .none else d.step,
        log := d.log ++ [(Frame.down uid coin startFailed).call owner] }
  -- a call that fails
  | failed (frame : Frame) (hfault : F.fail frame) (hframe : d.frame = some frame) :
      Move F d { d with frame := none }
  | downFailed (uid : Uid) (coin : ℚ) (hfault : F.fail (.down uid coin true))
      (hframe : d.frame = some (.down uid coin true)) :
      Move F d { d with frame := none, step := .none }
  | startFailed (banker : Uid) (hfault : F.fail .startFreeze)
      (hframe : d.frame = some .startFreeze) (hbanker : d.banker = some banker) :
      Move F d { d with frame := some (.down banker d.coin true) }
  -- the round
  | started (hframe : d.frame = some .startFreeze) :
      Move F d { d with
        frame := none, step := .bet, bets := ∅, totals := ∅,
        log := d.log ++ [.freezeRoomGold] }
  | opened (hframe : d.frame = none) (hstep : d.step = .biaoEnd) :
      Move F d { d with step := .bet, bets := ∅, totals := ∅ }
  | advanced (step : GameStep) (hframe : d.frame = none) (hstep : follows d.step step = true)
      (hclosed : d.step = .bet → d.bet = none ∧ d.queue = []) :
      Move F d { d with step }
  | dealt (keys : List Uid) (hframe : d.frame = none) (hstep : d.step = .send)
      (hnodup : keys.Nodup)
      (hkeys : ∀ uid, uid ∈ keys ↔ d.banker = some uid ∨ uid ∈ d.totals.keys) :
      Move F d { d with step := .qiang, packets := some keys }
  -- bets
  | queued (req : BetRequest) (hstep : d.step = .bet) (hbanker : d.banker ≠ some req.uid) :
      Move F d { d with queue := d.queue ++ [req] }
  | betTried (req : BetRequest) (queue : List BetRequest) (next : Option BetCall)
      (hfree : d.bet = none)
      (hreq : (d.step = .bet ∧ d.banker ≠ some req.uid ∧ queue = d.queue) ∨ d.queue = req :: queue)
      (hnext : ∀ bet ∈ next, bet.uid = req.uid ∧ d.Admits bet) :
      Move F d { d with bet := next, queue }
  | betFailed (bet : BetCall) (hbet : d.bet = some bet) : Move F d { d with bet := none }
  | betDone (bet : BetCall) (hbet : d.bet = some bet) : Move F d (d.record bet)
  -- settlement
  | settling (settlement : Settlement) (coin : ℚ) (hframe : d.frame = none)
      (hstep : d.step = .waitResult) (huser : d.banker = some settlement.user)
      (hbatch : ∀ uid, batchHeld uid settlement.userAccts =
        if d.banker = some uid then settlement.bankerGameCoin - d.coin else -d.betCoin uid) :
      Move F d { d with frame := some (.resultReduce settlement), step := .result, coin }
  | settleRaised (hfault : F.raise) (hframe : d.frame = none) (hstep : d.step = .waitResult) :
      Move F d { d with step := .result }
  | reduced (settlement : Settlement) (hframe : d.frame = some (.resultReduce settlement)) :
      Move F d { d with
        frame := some (.resultCoin settlement), log := d.log ++ [.reduceRoomGold] }
  | settled (settlement : Settlement) (frame : Option Frame)
      (hframe : d.frame = some (.resultCoin settlement))
      (hnext : Closing settlement.user settlement.bankerGameCoin frame) :
      Move F d { d with
        frame, coin := settlement.bankerGameCoin,
        log := d.log ++ [.operatGameResultAcct settlement.userAccts] }
  | rewarded (user uid : Uid) (reward : ℚ) (rest : List (Uid × ℚ)) (frame : Option Frame)
      (log : List ServiceCall) (hframe : d.frame = some (.reward user uid reward rest))
      (hnext : Closing user d.coin frame)
      (hheld : ∀ uid, heldBy log uid = heldBy d.log uid)
      (hescrow : openEscrow log = openEscrow d.log) :
      Move F d { d with frame, log }
  | flowing (hframe : d.frame = none) (hstep : d.step = .flow) :
      Move F d { d with frame := some (.flowReturn d.banker), step := .result }
  | flowReturned (user : Uid) (hframe : d.frame = some (.flowReturn (some user))) :
      Move F d { d with
        frame := if d.flowAccts = [] then none else some (.flowCoin user d.flowAccts),
        log := d.log ++ [.returnRoomGold] }
  | flowed (user : Uid) (userAccts : List UserAcct) (frame : Option Frame)
      (hframe : d.frame = some (.flowCoin user userAccts)) (hnext : Closing user d.coin frame) :
      Move F d { d with frame, log := d.log ++ [.operatGameResultAcct userAccts] }
  -- the end of the round
  | roundOver (hframe : d.frame = none) (hstep : d.step = .result) (hbanker : d.banker = none) :
      Move F d { d with
        step := .none, players := none, bets := ∅, totals := ∅, packets := none }
  | overDown (banker : Uid) (hframe : d.frame = none) (hstep : d.step = .result)
      (hbanker : d.banker = some banker) :
      Move F d { d with
        frame := some (.down banker d.coin false), bets := ∅, totals := ∅, packets := none }
  | overStart (banker : Uid) (hframe : d.frame = none) (hstep : d.step = .result)
      (hbanker : d.banker = some banker) :
      Move F d { d with
        frame := some .startFreeze, players := some [banker],
        bets := ∅, totals := ∅, packets := none }

end Desk

end SdyServer.Hongbao
