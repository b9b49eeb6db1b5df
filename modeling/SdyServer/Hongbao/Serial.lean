import SdyServer.Hongbao.DeskInv

/-!
# Runs with one handler at a time

A run is serial when no handler is let in and no step of the machine ends while another handler
waits for the account service, and betting does not close over a bet that is under way or queued.
Ticks that only count, refused requests, bets among each other and answers come at any time. The
code then does no more than the moves of the desk allow.
-/

namespace SdyServer.Hongbao

section Condition

def Serial (world : World) : Event → Prop
  | .robBanker uid coin => (robBanker world.room uid coin).2.frame? ≠ none → world.frames = []
  | .biaoBanker uid coin => (biaoBanker world.room uid coin).2.frame? ≠ none → world.frames = []
  | .downBanker uid => (downBankerCmd world.room uid).2.frame? ≠ none → world.frames = []
  | .tick _ => world.room.due = true →
      world.frames = [] ∧ (world.room.gameStep = .bet → world.bet = none ∧ world.queue = [])
  | _ => True

instance : ∀ (world : World) (event : Event), Decidable (Serial world event)
  | world, .robBanker uid coin =>
      inferInstanceAs
        (Decidable ((robBanker world.room uid coin).2.frame? ≠ none → world.frames = []))
  | world, .biaoBanker uid coin =>
      inferInstanceAs
        (Decidable ((biaoBanker world.room uid coin).2.frame? ≠ none → world.frames = []))
  | world, .downBanker uid =>
      inferInstanceAs
        (Decidable ((downBankerCmd world.room uid).2.frame? ≠ none → world.frames = []))
  | world, .tick _ =>
      inferInstanceAs (Decidable (world.room.due = true → world.frames = [] ∧
        (world.room.gameStep = .bet → world.bet = none ∧ world.queue = [])))
  | _, .betting .. | _, .dequeue | _, .resume .. | _, .resumeBet _ | _, .openRedPacket _
  | _, .setOffline .. | _, .setBankerType _ | _, .setZhuangxian .. => isTrue trivial

/-- Whether `getResult` goes through on the room as it stands. -/
def Room.settles (room : Room) : Bool :=
  (getResult room.banker room.packets room.totalBetData room.players).isOk

def startsDirectly (room : Room) : Frame → Bool
  | .robCoin .. => room.bankerType = some 2
  | _ => false

def Permits (F : Faults) (world : World) : Event → Prop
  | .resume index answer _ => ∀ frame ∈ world.frames[index]?.toList,
      (answer ≠ .ok → F.fail frame) ∧
        (answer = .ok → startsDirectly world.room frame = true → F.robStart)
  | .tick _ => world.room.due = true → world.room.gameStep = .waitResult →
      world.room.settles = false → F.raise
  | _ => True

instance (F : Faults) [∀ frame, Decidable (F.fail frame)] [Decidable F.raise]
    [Decidable F.robStart] : ∀ (world : World) (event : Event), Decidable (Permits F world event)
  | world, .resume index answer _ =>
      inferInstanceAs (Decidable (∀ frame ∈ world.frames[index]?.toList,
        (answer ≠ .ok → F.fail frame) ∧
          (answer = .ok → startsDirectly world.room frame = true → F.robStart)))
  | world, .tick _ =>
      inferInstanceAs (Decidable (world.room.due = true → world.room.gameStep = .waitResult →
        world.room.settles = false → F.raise))
  | _, .robBanker .. | _, .biaoBanker .. | _, .downBanker _ | _, .betting .. | _, .dequeue
  | _, .resumeBet _ | _, .openRedPacket _ | _, .setOffline .. | _, .setBankerType _
  | _, .setZhuangxian .. => isTrue trivial

end Condition

section View

def Room.desk (room : Room) (frame : Option Frame) (bet : Option BetCall)
    (queue : List BetRequest) (log : List ServiceCall) : Desk where
  step := room.gameStep
  banker := room.banker
  coin := room.bankerGameCoin
  players := room.players
  bets := room.betData.getD ∅
  totals := room.totalBetData.getD ∅
  packets := room.packets.map LuaTable.keys
  frame := frame
  bet := bet
  queue := queue
  log := log

def World.desk (world : World) : Desk :=
  world.room.desk world.frames.head? world.bet world.queue world.log

def sliceDesk (slice : Slice) (bet : Option BetCall) (queue : List BetRequest)
    (log : List ServiceCall) : Desk :=
  slice.1.desk slice.2.frame? bet queue log

/-- One handler besides the bets, and a bet under way finds the table it looked at. -/
structure World.Tidy (world : World) : Prop where
  single : world.frames.length ≤ 1
  betData : world.bet ≠ none → world.room.betData ≠ none

def bookLog (log : List ServiceCall) (answer : Answer) (call : ServiceCall) : List ServiceCall :=
  match answer with
  | .ok => log ++ [call]
  | _ => log

theorem World.book_eq (world : World) (answer : Answer) (call : ServiceCall) :
    world.book answer call = { world with log := bookLog world.log answer call } := by
  cases answer <;> rfl

end View

variable {F : Faults} {room : Room} {bet : Option BetCall} {queue : List BetRequest}
  {log : List ServiceCall}

open Desk

section Requests

theorem robBanker_eq (uid : Uid) (coin : ℚ) :
    (∃ next, robBanker room uid coin = (room, next) ∧ next.frame? = none) ∨
      robBanker room uid coin = (room, .call (.robFreeze uid coin)) ∧ room.banker = none := by
  simp only [robBanker]
  split_ifs with hbanker h2 h3 h4
  case neg => exact .inr ⟨rfl, by simpa using hbanker⟩
  all_goals exact .inl ⟨_, rfl, rfl⟩

theorem biaoBanker_eq (uid : Uid) (coin : ℚ) :
    (∃ next, biaoBanker room uid coin = (room, next) ∧ next.frame? = none) ∨
      room.gameStep = .biao ∧
        ((room.banker ≠ some uid ∧
            biaoBanker room uid coin = (room, .call (.biaoFreeze uid coin))) ∨
          (room.banker = some uid ∧ biaoBanker room uid coin =
            (room, .call (.biaoTopUp uid coin (coin - room.bankerGameCoin))))) := by
  simp only [biaoBanker]
  by_cases hstep : room.gameStep = .biao
  · simp only [hstep, ne_eq, not_true_eq_false, if_false, true_and]
    by_cases hbanker : room.banker = some uid
    · simp only [hbanker, not_true_eq_false, if_false, true_and]
      split_ifs
      case neg => exact .inr (.inr rfl)
      all_goals exact .inl ⟨_, rfl, rfl⟩
    · simp only [hbanker, not_false_eq_true, if_true, true_and]
      split_ifs
      case neg => exact .inr (.inl rfl)
      all_goals exact .inl ⟨_, rfl, rfl⟩
  · rw [if_pos hstep]
    exact .inl ⟨_, rfl, rfl⟩

theorem downBankerCmd_eq (uid : Uid) :
    (∃ next, downBankerCmd room uid = (room, next) ∧ next.frame? = none) ∨
      room.banker = some uid ∧ (room.gameStep = .none ∨ room.gameStep = .result) ∧
        downBankerCmd room uid = (room, .call (.down uid room.bankerGameCoin false)) := by
  simp only [downBankerCmd]
  split_ifs with hbanker hstep
  · exact .inl ⟨_, rfl, rfl⟩
  · exact .inl ⟨_, rfl, rfl⟩
  · rw [not_and_or, not_not, not_not] at hstep
    exact .inr ⟨by simpa using hbanker, hstep, rfl⟩

theorem sliceDesk_of_refused {slice : Slice} {next : Next Frame} (hslice : slice = (room, next))
    (hnext : next.frame? = none) :
    sliceDesk slice bet queue log = room.desk none bet queue log := by
  rw [hslice, sliceDesk, hnext]

theorem robBanker_move (uid : Uid) (coin : ℚ) :
    Move F (room.desk none bet queue log) (sliceDesk (robBanker room uid coin) bet queue log) := by
  rcases robBanker_eq uid coin with ⟨next, heq, hnext⟩ | ⟨heq, hbanker⟩
  · rw [sliceDesk_of_refused heq hnext]
    exact .stay
  · rw [heq]
    exact Move.robAsked (d := room.desk none bet queue log) uid coin rfl hbanker

theorem biaoBanker_move (uid : Uid) (coin : ℚ) :
    Move F (room.desk none bet queue log) (sliceDesk (biaoBanker room uid coin) bet queue log) := by
  rcases biaoBanker_eq uid coin with ⟨next, heq, hnext⟩ | ⟨hstep, ⟨hbanker, heq⟩ | ⟨hbanker, heq⟩⟩
  · rw [sliceDesk_of_refused heq hnext]
    exact .stay
  · rw [heq]
    exact Move.biaoAsked (d := room.desk none bet queue log) uid coin rfl hstep hbanker
  · rw [heq]
    exact Move.topUpAsked (d := room.desk none bet queue log) uid coin rfl hstep hbanker

theorem downBankerCmd_move (uid : Uid) :
    Move F (room.desk none bet queue log) (sliceDesk (downBankerCmd room uid) bet queue log) := by
  rcases downBankerCmd_eq uid with ⟨next, heq, hnext⟩ | ⟨hbanker, hstep, heq⟩
  · rw [sliceDesk_of_refused heq hnext]
    exact .stay
  · rw [heq]
    exact Move.downAsked (d := room.desk none bet queue log) uid rfl hstep hbanker

end Requests

section Answers

theorem resultEnd_closing (room : Room) (user : Uid) :
    (resultEnd room user).1 = room ∧
      Closing user room.bankerGameCoin (resultEnd room user).2.frame? := by
  unfold resultEnd
  split_ifs with hstays hoffline
  · exact ⟨rfl, .downs⟩
  · cases room.info.gameBankerLimitAmt with
    | none => exact ⟨rfl, .stays⟩
    | some limit =>
        dsimp only
        split_ifs
        · exact ⟨rfl, .downs⟩
        · exact ⟨rfl, .stays⟩
  · exact ⟨rfl, .downs⟩

theorem payRewards_closing (room : Room) (user : Uid) (rewards : List (Uid × ℚ)) :
    (payRewards room user rewards).1 = room ∧
      Closing user room.bankerGameCoin (payRewards room user rewards).2.frame? := by
  cases rewards with
  | nil => exact resultEnd_closing room user
  | cons reward rest => exact ⟨rfl, .rewards ..⟩

theorem flowCoinAnswered_closing (room : Room) (user : Uid) :
    (flowCoinAnswered room user .ok).1 = room ∧
      Closing user room.bankerGameCoin (flowCoinAnswered room user .ok).2.frame? := by
  unfold flowCoinAnswered
  split_ifs
  · exact ⟨rfl, .downs⟩
  · exact ⟨rfl, .stays⟩

theorem bookLog_reward (answer : Answer) (owner user uid : Uid) (coin : ℚ)
    (rest : List (Uid × ℚ)) (custNo : Uid) :
    heldBy (bookLog log answer ((Frame.reward user uid coin rest).call owner)) custNo =
      heldBy log custNo := by
  cases answer with
  | ok => simp [bookLog, Frame.call, ServiceCall.held, UserAcct.held]
  | b002 dec => rfl
  | error dec => rfl

theorem bookLog_reward_escrow (answer : Answer) (owner user uid : Uid) (coin : ℚ)
    (rest : List (Uid × ℚ)) :
    openEscrow (bookLog log answer ((Frame.reward user uid coin rest).call owner)) =
      openEscrow log := by
  cases answer with
  | ok => simp [bookLog, Frame.call, ServiceCall.escrow]
  | b002 dec => rfl
  | error dec => rfl

/-- What a failed call leaves: usually nothing but the end of the handler. -/
theorem resume_failed_move {frame : Frame} {answer : Answer} (rewards : List (Uid × ℚ))
    (hanswer : answer ≠ .ok) (hfault : F.fail frame)
    (hreward : ∀ user uid coin rest, frame ≠ .reward user uid coin rest) :
    Move F (room.desk (some frame) bet queue log)
      (sliceDesk (resume room answer rewards frame) bet queue log) := by
  have hfailed : Move F (room.desk (some frame) bet queue log) (room.desk none bet queue log) :=
    Move.failed (d := room.desk (some frame) bet queue log) frame hfault rfl
  cases frame with
  | startFreeze =>
      simp only [resume, gameStartAnswered]
      cases answer with
      | ok => exact absurd rfl hanswer
      | error dec =>
          cases hbanker : room.banker with
          | none => exact hfailed
          | some banker =>
              dsimp only
              split <;> exact hfailed
      | b002 dec =>
          cases hbanker : room.banker with
          | none => exact hfailed
          | some banker =>
              dsimp only
              split
              · exact hfailed
              · exact Move.startFailed (d := room.desk (some .startFreeze) bet queue log) banker
                  hfault rfl hbanker
  | down uid coin startFailed =>
      cases startFailed with
      | false =>
          cases answer with
          | ok => exact absurd rfl hanswer
          | b002 dec => exact hfailed
          | error dec => exact hfailed
      | true =>
          have hdown := Move.downFailed (d := room.desk (some (.down uid coin true)) bet queue log)
            uid coin hfault rfl
          cases answer with
          | ok => exact absurd rfl hanswer
          | b002 dec => exact hdown
          | error dec => exact hdown
  | reward user uid coin rest => exact absurd rfl (hreward user uid coin rest)
  | flowReturn user =>
      cases answer with
      | ok => exact absurd rfl hanswer
      | b002 dec => cases user <;> exact hfailed
      | error dec => cases user <;> exact hfailed
  | robFreeze | robCoin | biaoFreeze | biaoReturn | biaoTopUp | resultReduce | resultCoin
  | flowCoin =>
      cases answer with
      | ok => exact absurd rfl hanswer
      | b002 dec => exact hfailed
      | error dec => exact hfailed

theorem sliceDesk_eq {slice : Slice} {room' : Room} {frame : Option Frame}
    (hroom : slice.1 = room') (hframe : slice.2.frame? = frame) :
    sliceDesk slice bet queue log = room'.desk frame bet queue log := by
  rw [sliceDesk, hroom, hframe]

theorem robCoin_ok_move {uid : Uid} {coin : ℚ} (owner : Uid)
    (hdirect : room.bankerType = some 2 → F.robStart) :
    Move F (room.desk (some (.robCoin uid coin)) bet queue log)
      (sliceDesk (robCoinAnswered room uid coin .ok) bet queue
        (log ++ [(Frame.robCoin uid coin).call owner])) := by
  by_cases htype : room.bankerType = some 2
  · have hslice : robCoinAnswered room uid coin .ok =
        ({ room with
            banker := some uid, bankerGameCoin := coin, bankerSurplusCoin := coin,
            players := some ((room.players.getD []).insert uid) }, .call .startFreeze) := by
      simp [robCoinAnswered, gameStart, htype]
    rw [hslice]
    exact Move.robStarted (d := room.desk (some (.robCoin uid coin)) bet queue log) uid coin owner
      (hdirect htype) rfl
  · have hslice : robCoinAnswered room uid coin .ok =
        ({ room with
            banker := some uid, bankerGameCoin := coin, bankerSurplusCoin := coin,
            players := some ((room.players.getD []).insert uid),
            gameTime := 0, gameStep := .biao }, .done) := by
      simp [robCoinAnswered, gameStart, htype]
    rw [hslice]
    exact Move.robbed (d := room.desk (some (.robCoin uid coin)) bet queue log) uid coin owner rfl

theorem resultCoin_ok_move {settlement : Settlement} (rewards : List (Uid × ℚ)) :
    Move F (room.desk (some (.resultCoin settlement)) bet queue log)
      (sliceDesk (resultCoinAnswered room settlement rewards .ok) bet queue
        (log ++ [.operatGameResultAcct settlement.userAccts])) := by
  have hclosing := payRewards_closing { room with
    bankerGameCoin := settlement.bankerGameCoin,
    bankerSurplusCoin := settlement.bankerGameCoin } settlement.user rewards
  have hroom : (resultCoinAnswered room settlement rewards .ok).1 = { room with
      bankerGameCoin := settlement.bankerGameCoin,
      bankerSurplusCoin := settlement.bankerGameCoin } := hclosing.1
  rw [sliceDesk_eq hroom rfl]
  exact Move.settled (d := room.desk (some (.resultCoin settlement)) bet queue log) settlement _ rfl
    hclosing.2

theorem flowReturn_ok_move {user : Uid} :
    Move F (room.desk (some (.flowReturn (some user))) bet queue log)
      (sliceDesk (flowReturnAnswered room (some user) .ok) bet queue
        (log ++ [.returnRoomGold])) := by
  have hmove := Move.flowReturned (F := F)
    (d := room.desk (some (.flowReturn (some user))) bet queue log) user rfl
  have haccts : (room.desk (some (.flowReturn (some user))) bet queue log).flowAccts =
      flowAccts room := rfl
  rw [haccts] at hmove
  by_cases hnil : flowAccts room = []
  · have hslice : flowReturnAnswered room (some user) .ok =
        ({ room with bankerSurplusCoin := room.bankerGameCoin }, .done) := if_pos hnil
    rw [if_pos hnil] at hmove
    rw [hslice]
    exact hmove
  · have hslice : flowReturnAnswered room (some user) .ok =
        ({ room with bankerSurplusCoin := room.bankerGameCoin },
          .call (.flowCoin user (flowAccts room))) := if_neg hnil
    rw [if_neg hnil] at hmove
    rw [hslice]
    exact hmove

theorem resume_ok_move {frame : Frame} (rewards : List (Uid × ℚ)) (owner : Uid)
    (hinv : (room.desk (some frame) bet queue log).Inv)
    (hdirect : startsDirectly room frame = true → F.robStart)
    (hreward : ∀ user uid coin rest, frame ≠ .reward user uid coin rest) :
    Move F (room.desk (some frame) bet queue log)
      (sliceDesk (resume room .ok rewards frame) bet queue (log ++ [frame.call owner])) := by
  cases frame with
  | robFreeze uid coin =>
      exact Move.robFrozen (d := room.desk (some (.robFreeze uid coin)) bet queue log) uid coin rfl
  | robCoin uid coin =>
      exact robCoin_ok_move owner fun htype => hdirect (by simp [startsDirectly, htype])
  | startFreeze => exact Move.started (d := room.desk (some .startFreeze) bet queue log) rfl
  | down uid coin startFailed =>
      have hmove := Move.downed (F := F)
        (d := room.desk (some (.down uid coin startFailed)) bet queue log) uid coin startFailed
        owner rfl
      cases startFailed <;> exact hmove
  | biaoFreeze uid coin =>
      exact Move.biaoFrozen (d := room.desk (some (.biaoFreeze uid coin)) bet queue log) uid coin
        owner rfl
  | biaoReturn uid coin banker bankerCoin =>
      exact Move.biaoDone
        (d := room.desk (some (.biaoReturn uid coin banker bankerCoin)) bet queue log) uid coin
        banker bankerCoin owner rfl
  | biaoTopUp uid coin offsetCoin =>
      exact Move.toppedUp (d := room.desk (some (.biaoTopUp uid coin offsetCoin)) bet queue log)
        uid coin offsetCoin owner rfl
  | resultReduce settlement =>
      exact Move.reduced (d := room.desk (some (.resultReduce settlement)) bet queue log)
        settlement rfl
  | resultCoin settlement => exact resultCoin_ok_move rewards
  | reward user uid coin rest => exact absurd rfl (hreward user uid coin rest)
  | flowReturn user =>
      obtain ⟨-, -, huser⟩ := hinv.waits _ rfl
      obtain ⟨user, rfl⟩ := Option.ne_none_iff_exists'.mp huser
      exact flowReturn_ok_move
  | flowCoin user userAccts =>
      have hclosing := flowCoinAnswered_closing room user
      show Move F _ (sliceDesk (flowCoinAnswered room user .ok) bet queue _)
      rw [Frame.call, sliceDesk_eq hclosing.1 rfl]
      exact Move.flowed (d := room.desk (some (.flowCoin user userAccts)) bet queue log) user
        userAccts _ rfl hclosing.2

theorem reward_move {user uid : Uid} {coin : ℚ} {rest : List (Uid × ℚ)} (answer : Answer)
    (owner : Uid) :
    Move F (room.desk (some (.reward user uid coin rest)) bet queue log)
      (sliceDesk (payRewards room user rest) bet queue
        (bookLog log answer ((Frame.reward user uid coin rest).call owner))) := by
  have hclosing := payRewards_closing room user rest
  rw [sliceDesk_eq hclosing.1 rfl]
  exact Move.rewarded (d := room.desk (some (.reward user uid coin rest)) bet queue log) user uid
    coin rest _ _ rfl hclosing.2 (bookLog_reward answer owner user uid coin rest)
    (bookLog_reward_escrow answer owner user uid coin rest)

/-- **An answer is a move.** -/
theorem resume_move {frame : Frame} {answer : Answer} (rewards : List (Uid × ℚ)) (owner : Uid)
    (hinv : (room.desk (some frame) bet queue log).Inv)
    (hfail : answer ≠ .ok → F.fail frame)
    (hdirect : answer = .ok → startsDirectly room frame = true → F.robStart) :
    Move F (room.desk (some frame) bet queue log)
      (sliceDesk (resume room answer rewards frame) bet queue
        (bookLog log answer (frame.call owner))) := by
  by_cases hreward : ∃ user uid coin rest, frame = .reward user uid coin rest
  · obtain ⟨user, uid, coin, rest, rfl⟩ := hreward
    exact reward_move answer owner
  · have hreward : ∀ user uid coin rest, frame ≠ .reward user uid coin rest :=
      fun user uid coin rest h => hreward ⟨user, uid, coin, rest, h⟩
    by_cases hanswer : answer = .ok
    · subst hanswer
      exact resume_ok_move rewards owner hinv (hdirect rfl) hreward
    · have hlog : bookLog log answer (frame.call owner) = log := by
        cases answer with
        | ok => exact absurd rfl hanswer
        | b002 dec => rfl
        | error dec => rfl
      rw [hlog]
      exact resume_failed_move rewards hanswer (hfail hanswer) hreward

end Answers

end SdyServer.Hongbao
