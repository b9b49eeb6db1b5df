import SdyServer.Hongbao.Serial

/-!
# Bids that are refused

`rob_banker` and `biao_banker` ask the account service twice, and give up where it refuses. Neither
takes back what the first call has done when the second one is refused, and a rob that starts its
round at once makes further calls when the user is banker already.
-/

namespace SdyServer.Hongbao

section Statement

inductive Bid where
  | rob (uid : Uid) (coin : ℚ)
  | biao (uid : Uid) (coin : ℚ)

def Bid.uid : Bid → Uid
  | .rob uid _ => uid
  | .biao uid _ => uid

def Bid.handle (room : Room) : Bid → Slice
  | .rob uid coin => robBanker room uid coin
  | .biao uid coin => biaoBanker room uid coin

/-- The pieces of a handler, each as the room it found and the room it left, the calls that were
accepted, and how the last piece ended. -/
structure Handled where
  pieces : List (Room × Room)
  log : List ServiceCall
  last : Next Frame

/-- A handler from the end of a piece on. Every answer comes with the room that it finds, which
other handlers may have changed in the meantime. -/
def serve : Next Frame → List (Answer × Room) → Handled
  | .call frame, (answer, room) :: answers =>
      let slice := resume room answer [] frame
      let rest := serve slice.2 answers
      { pieces := (room, slice.1) :: rest.pieces
        log := bookLog [] answer (frame.call room.info.gameOwner) ++ rest.log
        last := rest.last }
  | last, _ => { pieces := [], log := [], last }

def Bid.served (bid : Bid) (room : Room) (answers : List (Answer × Room)) : Handled :=
  let slice := bid.handle room
  let rest := serve slice.2 answers
  { rest with pieces := (room, slice.1) :: rest.pieces }

def SameStake (room room' : Room) : Prop :=
  room'.banker = room.banker ∧ room'.bankerGameCoin = room.bankerGameCoin ∧
    room'.bankerSurplusCoin = room.bankerSurplusCoin

/-- The bid has left nothing behind: no coins of the caller and no room diamonds are frozen, and the
banker and his stake are as every piece found them. -/
structure Refunded (uid : Uid) (handled : Handled) : Prop where
  coins : heldBy handled.log uid ≤ 0
  diamonds : openEscrow handled.log ≤ 0
  stake : ∀ piece ∈ handled.pieces, SameStake piece.1 piece.2

/-- What is looked at before the account service is asked. -/
def Bid.Passes (room : Room) : Bid → Prop
  | .rob _ coin => room.banker = none ∧ coin ≤ 10000000 ∧
      room.info.gameBankerLimitAmt.getD 0 / 100 ≤ coin ∧
      (0 < room.info.gameBankerMaxLimitAmt.getD 0 →
        coin ≤ room.info.gameBankerMaxLimitAmt.getD 0 / 100)
  | .biao _ coin => room.gameStep = .biao ∧ coin ≤ 10000000 ∧
      (0 < room.info.gameBankerMaxLimitAmt.getD 0 →
        coin ≤ room.info.gameBankerMaxLimitAmt.getD 0 / 100) ∧
      room.bankerGameCoin < coin

/-- A challenge with no coins, against a stake below zero, has nothing to freeze. -/
def Bid.Costless : Bid → Prop
  | .rob .. => False
  | .biao _ coin => coin ≤ 0

end Statement

section Pieces

variable {room : Room} {uid : Uid} {coin : ℚ} {answers : List (Answer × Room)} {text msgId : String}

theorem SameStake.refl (room : Room) : SameStake room room := ⟨rfl, rfl, rfl⟩

theorem serve_of_frame? {next : Next Frame} (hnone : next.frame? = none) :
    serve next answers = { pieces := [], log := [], last := next } := by
  cases next with
  | call frame => cases hnone
  | done => cases answers <;> rfl
  | raised error => cases answers <;> rfl
  | refused text msgId => cases answers <;> rfl

theorem robBanker_of_passes (h : (Bid.rob uid coin).Passes room) :
    robBanker room uid coin = (room, .call (.robFreeze uid coin)) := by
  obtain ⟨hbanker, hhigh, hlow, hmax⟩ := h
  simp only [robBanker]
  rw [if_neg (by simp [hbanker]), if_neg (not_lt.mpr hhigh), if_neg (not_lt.mpr hlow),
    if_neg fun h => absurd (hmax h.1) (not_le.mpr h.2)]

theorem biaoBanker_of_passes (h : (Bid.biao uid coin).Passes room) :
    biaoBanker room uid coin = (room, if room.banker ≠ some uid then .call (.biaoFreeze uid coin)
      else .call (.biaoTopUp uid coin (coin - room.bankerGameCoin))) := by
  obtain ⟨hstep, hhigh, hmax, hcoin⟩ := h
  simp only [biaoBanker]
  rw [if_neg (not_not.mpr hstep), if_neg (not_lt.mpr hhigh),
    if_neg fun h => absurd (hmax h.1) (not_le.mpr h.2), if_neg (not_le.mpr hcoin)]
  split_ifs <;> rfl

theorem Bid.handle_of_not_passes {bid : Bid} (h : ¬bid.Passes room) :
    ∃ next, bid.handle room = (room, next) ∧ next.frame? = none := by
  cases bid with
  | rob uid coin =>
      simp only [Bid.handle, robBanker]
      split_ifs with hbanker hhigh hlow hmax
      case neg =>
        rw [not_and] at hmax
        exact absurd ⟨by simpa using hbanker, not_lt.mp hhigh, not_lt.mp hlow,
          fun h => not_lt.mp (hmax h)⟩ h
      all_goals exact ⟨_, rfl, rfl⟩
  | biao uid coin =>
      simp only [Bid.handle, biaoBanker]
      by_cases hstep : room.gameStep ≠ .biao
      · exact ⟨_, if_pos hstep, rfl⟩
      by_cases hhigh : coin > 10000000
      · rw [if_neg hstep]
        exact ⟨_, if_pos hhigh, rfl⟩
      by_cases hmax : room.info.gameBankerMaxLimitAmt.getD 0 > 0 ∧
          coin > room.info.gameBankerMaxLimitAmt.getD 0 / 100
      · rw [if_neg hstep, if_neg hhigh]
        exact ⟨_, if_pos hmax, rfl⟩
      by_cases hcoin : room.bankerGameCoin ≥ coin
      · rw [if_neg hstep, if_neg hhigh, if_neg hmax]
        exact ⟨_, if_pos hcoin, rfl⟩
      rw [not_and] at hmax
      exact absurd ⟨not_not.mp hstep, not_lt.mp hhigh, fun h => not_lt.mp (hmax h),
        not_le.mp hcoin⟩ h

end Pieces

section Rest

variable {room : Room} {uid : Uid} {coin : ℚ} {answers : List (Answer × Room)} {text msgId : String}

theorem last_of_frame? {next : Next Frame} (hnone : next.frame? = none) :
    (serve next answers).last = next := by
  rw [serve_of_frame? hnone]

theorem log_of_frame? {next : Next Frame} (hnone : next.frame? = none) :
    (serve next answers).log = [] := by
  rw [serve_of_frame? hnone]

theorem serve_cons (frame : Frame) (answer : Answer) (room : Room)
    (answers : List (Answer × Room)) :
    serve (.call frame) ((answer, room) :: answers) =
      { pieces := (room, (resume room answer [] frame).1) ::
          (serve (resume room answer [] frame).2 answers).pieces
        log := bookLog [] answer (frame.call room.info.gameOwner) ++
          (serve (resume room answer [] frame).2 answers).log
        last := (serve (resume room answer [] frame).2 answers).last } := rfl

theorem bookLog_of_ne_ok {answer : Answer} (hanswer : answer ≠ .ok) (call : ServiceCall) :
    bookLog [] answer call = [] := by
  cases answer with
  | ok => exact absurd rfl hanswer
  | b002 dec => rfl
  | error dec => rfl

/-- What a step-down that is refused has booked: nothing. -/
theorem log_of_refused_down {startFailed : Bool}
    (h : (serve (.call (.down uid coin startFailed)) answers).last = .refused text msgId) :
    (serve (.call (.down uid coin startFailed)) answers).log = [] := by
  rcases answers with _ | ⟨⟨answer, found⟩, rest⟩
  · cases h
  · have hnone : (resume found answer [] (.down uid coin startFailed)).2.frame? = none := by
      cases answer <;> rfl
    rw [serve_cons, last_of_frame? hnone] at h
    rw [serve_cons, log_of_frame? hnone, List.append_nil]
    refine bookLog_of_ne_ok (fun hok => ?_) _
    rw [hok] at h
    cases h

/-- What the start of a round that ends in a refusal has booked: nothing. -/
theorem log_of_refused_start (h : (serve (.call .startFreeze) answers).last = .refused text msgId) :
    (serve (.call .startFreeze) answers).log = [] := by
  rcases answers with _ | ⟨⟨answer, found⟩, rest⟩
  · cases h
  rw [serve_cons] at h ⊢
  dsimp only at h ⊢
  by_cases hanswer : answer = .ok
  · rw [hanswer, last_of_frame? rfl] at h
    cases h
  rw [bookLog_of_ne_ok hanswer, List.nil_append]
  -- a refusal ends the handler, except that an empty room account makes the banker step down
  by_cases hdown : ∃ banker, resume found answer [] .startFreeze = downBanker found banker true
  · obtain ⟨banker, hdown⟩ := hdown
    rw [hdown] at h ⊢
    exact log_of_refused_down h
  · refine log_of_frame? ?_
    simp only [resume, gameStartAnswered] at hdown ⊢
    cases answer with
    | ok => exact absurd rfl hanswer
    | error dec =>
        cases found.banker with
        | none => rfl
        | some banker =>
            dsimp only
            split <;> rfl
    | b002 dec =>
        cases hbanker : found.banker with
        | none => rfl
        | some banker =>
            rw [hbanker] at hdown
            dsimp only at hdown ⊢
            split at hdown
            · rw [if_pos ‹_›]
              rfl
            · exact absurd ⟨banker, rfl⟩ hdown

/-- A rob whose coins are refused, or whose round does not start, has not moved the room diamonds
again. -/
theorem openEscrow_of_refused_rob
    (h : (serve (.call (.robCoin uid coin)) answers).last = .refused text msgId) :
    openEscrow (serve (.call (.robCoin uid coin)) answers).log = 0 := by
  rcases answers with _ | ⟨⟨answer, found⟩, rest⟩
  · cases h
  rw [serve_cons] at h ⊢
  dsimp only at h ⊢
  cases answer with
  | ok =>
      by_cases htype : found.bankerType ≠ some 2
      · have hdone : (resume found .ok [] (.robCoin uid coin)).2 = .done := by
          simp [resume, robCoinAnswered, gameStart, htype]
        rw [hdone, last_of_frame? rfl] at h
        cases h
      · have hstart : (resume found .ok [] (.robCoin uid coin)).2 = .call .startFreeze := by
          simp only [resume, robCoinAnswered, gameStart]
          rw [if_neg (by simpa using htype)]
        rw [hstart] at h ⊢
        rw [log_of_refused_start h]
        rfl
  | b002 dec =>
      rw [log_of_frame? rfl]
      rfl
  | error dec =>
      rw [log_of_frame? rfl]
      rfl

end Rest

section Exactly

variable {room : Room} {bid : Bid} {answers : List (Answer × Room)} {text msgId : String}

theorem served_of_handle {next : Next Frame} (h : bid.handle room = (room, next)) :
    bid.served room answers =
      { serve next answers with pieces := (room, room) :: (serve next answers).pieces } := by
  simp only [Bid.served, h]

theorem Refunded.of_nothing {uid : Uid} {handled : Handled} (hlog : handled.log = [])
    (hpieces : ∀ piece ∈ handled.pieces, piece.1 = piece.2) : Refunded uid handled := by
  refine ⟨?_, ?_, fun piece hmem => ?_⟩
  · rw [hlog]
    exact le_refl _
  · rw [hlog]
    exact le_refl _
  · rw [hpieces piece hmem]
    exact .refl _

/-- A first call that is refused ends the handler, with nothing booked and nothing changed. -/
theorem refunded_of_first_refused {uid : Uid} {frame : Frame} {answer : Answer} {found : Room}
    {next : Next Frame} (hhandle : bid.handle room = (room, .call frame)) (hanswer : answer ≠ .ok)
    (hresume : resume found answer [] frame = (found, next)) (hnone : next.frame? = none) :
    Refunded uid (bid.served room ((answer, found) :: answers)) := by
  rw [served_of_handle hhandle, serve_cons, hresume, bookLog_of_ne_ok hanswer,
    serve_of_frame? hnone]
  refine .of_nothing rfl ?_
  simp

/-- **What a refused rob leaves behind.** -/
theorem rob_refunded_iff {uid : Uid} {coin : ℚ} (hpass : (Bid.rob uid coin).Passes room)
    (hrefused : ((Bid.rob uid coin).served room answers).last = .refused text msgId) :
    Refunded uid ((Bid.rob uid coin).served room answers) ↔ answers.head?.map Prod.fst ≠
    some .ok := by
  have hhandle : (Bid.rob uid coin).handle room = (room, .call (.robFreeze uid coin)) :=
    robBanker_of_passes hpass
  rcases answers with _ | ⟨⟨answer, found⟩, rest⟩
  · rw [served_of_handle hhandle] at hrefused
    cases hrefused
  by_cases hanswer : answer = .ok
  · subst hanswer
    refine iff_of_false (fun hrefunded => ?_) (by simp)
    rw [served_of_handle hhandle, serve_cons] at hrefused hrefunded
    have hdiamonds := hrefunded.diamonds
    have hopen : openEscrow (serve (.call (.robCoin uid coin)) rest).log = 0 :=
      openEscrow_of_refused_rob hrefused
    have hsum : openEscrow (.freezeRoomGold :: (serve (.call (.robCoin uid coin)) rest).log) =
        1 := by
      rw [openEscrow, List.map_cons, List.sum_cons]
      exact congrArg (1 + ·) hopen
    exact absurd (hsum.symm.trans_le hdiamonds) (by decide)
  · have hrefuse : resume found answer [] (.robFreeze uid coin) =
        (found, .refused (failText "房间钻石不足" answer) "someone_rob_banker_fail") := by
      cases answer with
      | ok => exact absurd rfl hanswer
      | b002 dec => rfl
      | error dec => rfl
    exact iff_of_true (refunded_of_first_refused hhandle hanswer hrefuse rfl)
      (by simpa using hanswer)

/-- **What a refused challenge leaves behind.** -/
theorem biao_refunded_iff {uid : Uid} {coin : ℚ} (hpass : (Bid.biao uid coin).Passes room)
    (hrefused : ((Bid.biao uid coin).served room answers).last = .refused text msgId) :
    Refunded uid ((Bid.biao uid coin).served room answers) ↔
      (answers.head?.map Prod.fst ≠ some .ok ∨ coin ≤ 0) := by
  have hhandle := biaoBanker_of_passes hpass
  by_cases hbanker : room.banker = some uid
  · rw [if_neg (not_not.mpr hbanker)] at hhandle
    have hhandle' : (Bid.biao uid coin).handle room =
        (room, .call (.biaoTopUp uid coin (coin - room.bankerGameCoin))) := hhandle
    rcases answers with _ | ⟨⟨answer, found⟩, rest⟩
    · rw [served_of_handle hhandle'] at hrefused
      cases hrefused
    cases answer with
    | ok =>
        rw [served_of_handle hhandle', serve_cons, serve_of_frame? rfl] at hrefused
        cases hrefused
    | b002 dec =>
        exact iff_of_true (refunded_of_first_refused hhandle' (by simp) rfl rfl) (Or.inl (by simp))
    | error dec =>
        exact iff_of_true (refunded_of_first_refused hhandle' (by simp) rfl rfl) (Or.inl (by simp))
  · rw [if_pos hbanker] at hhandle
    have hhandle' : (Bid.biao uid coin).handle room = (room, .call (.biaoFreeze uid coin)) :=
      hhandle
    rcases answers with _ | ⟨⟨answer, found⟩, rest⟩
    · rw [served_of_handle hhandle'] at hrefused
      cases hrefused
    cases answer with
    | b002 dec =>
        exact iff_of_true (refunded_of_first_refused hhandle' (by simp) rfl rfl) (Or.inl (by simp))
    | error dec =>
        exact iff_of_true (refunded_of_first_refused hhandle' (by simp) rfl rfl) (Or.inl (by simp))
    | ok =>
        rw [served_of_handle hhandle', serve_cons] at hrefused ⊢
        have hsecond : (resume found .ok [] (.biaoFreeze uid coin)).2 =
            .call (.biaoReturn uid coin found.banker found.bankerGameCoin) := rfl
        rw [hsecond] at hrefused ⊢
        rcases rest with _ | ⟨⟨answer, found'⟩, rest⟩
        · cases hrefused
        rw [serve_cons] at hrefused ⊢
        have hanswer : answer ≠ .ok := by
          rintro rfl
          rw [serve_of_frame? rfl] at hrefused
          cases hrefused
        have hlast :
            resume found' answer [] (.biaoReturn uid coin found.banker found.bankerGameCoin) =
            (found', .refused answer.dec "someone_biao_banker_fail") := by
          cases answer with
          | ok => exact absurd rfl hanswer
          | b002 dec => rfl
          | error dec => rfl
        rw [hlast, serve_of_frame? rfl, bookLog_of_ne_ok hanswer]
        have hheld : heldBy [.operatGameResultAcct [⟨some .freeze, coin, some uid⟩]] uid =
            coin := by
          simp [heldBy, ServiceCall.held]
        constructor
        · intro hrefunded
          exact Or.inr (hheld.symm.trans_le hrefunded.coins)
        · intro hcoin
          refine ⟨hheld.trans_le (hcoin.resolve_left (by simp)), le_refl _, ?_⟩
          intro piece hmem
          have hsame : piece.1 = piece.2 := by
            simp only [List.mem_cons, List.not_mem_nil, or_false] at hmem
            rcases hmem with rfl | rfl | rfl <;> rfl
          rw [hsame]
          exact .refl _

/-- **What a refused bid leaves behind.** Nothing, exactly when the account service was not asked,
has refused its first call, or was asked for no coins. -/
theorem refused_bid_refunded_iff (room : Room) (bid : Bid) (answers : List (Answer × Room))
    {text msgId : String} (hrefused : (bid.served room answers).last = .refused text msgId) :
    Refunded bid.uid (bid.served room answers) ↔
      (bid.Passes room → answers.head?.map Prod.fst ≠ some .ok ∨ bid.Costless) := by
  by_cases hpass : bid.Passes room
  · rw [forall_prop_of_true hpass]
    cases bid with
    | rob uid coin => exact (rob_refunded_iff hpass hrefused).trans (or_iff_left id).symm
    | biao uid coin => exact biao_refunded_iff hpass hrefused
  · refine iff_of_true ?_ fun h => absurd h hpass
    obtain ⟨next, hhandle, hnone⟩ := Bid.handle_of_not_passes hpass
    rw [served_of_handle hhandle, serve_of_frame? hnone]
    refine .of_nothing rfl ?_
    simp

/-- A room in which user 1 can be challenged for a hundred coins. -/
def biaoRoom : Room :=
  { info := {}, banker := some 1, bankerGameCoin := 100, bankerSurplusCoin := 100,
    players := some [1], gameStep := .biao }

theorem refused_bid_refunded_biaoRoom :
    Refunded 2 ((Bid.biao 2 200).served biaoRoom [(.error "", biaoRoom)]) :=
  (refused_bid_refunded_iff biaoRoom (.biao 2 200) [(.error "", biaoRoom)] rfl).mpr
    fun _ => Or.inl (by simp)

/-- The coins of a rob are refused after the room diamonds are frozen, and the return of the
banker's coins after those of the challenger are. -/
theorem refused_bids_not_refunded :
    (((Bid.rob 1 100).served { info := {} } [(.ok, { info := {} }),
      (.error "", { info := {} })]).last =
        .refused "" "someone_rob_banker_fail" ∧
      ¬Refunded 1 ((Bid.rob 1 100).served { info := {} }
        [(.ok, { info := {} }), (.error "", { info := {} })])) ∧
    (((Bid.biao 2 200).served biaoRoom [(.ok, biaoRoom), (.error "", biaoRoom)]).last =
        .refused "" "someone_biao_banker_fail" ∧
      ¬Refunded 2 ((Bid.biao 2 200).served biaoRoom [(.ok, biaoRoom), (.error "", biaoRoom)])) := by
  have hpass : (Bid.rob 1 100).Passes { info := {} } := by norm_num [Bid.Passes]
  have hhandle : (Bid.rob 1 100).handle { info := {} } =
      ({ info := {} }, .call (.robFreeze 1 100)) :=
    robBanker_of_passes hpass
  refine ⟨⟨?_, fun h => ?_⟩, rfl, fun h => ?_⟩
  · rw [served_of_handle hhandle]
    rfl
  · exact absurd h.diamonds (by decide +kernel)
  · exact absurd h.coins (by decide +kernel)

end Exactly

end SdyServer.Hongbao
