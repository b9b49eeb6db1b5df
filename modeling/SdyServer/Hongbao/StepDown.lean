import SdyServer.Hongbao.Stored

/-!
# Rooms in which every round has a new banker

In a room of the first type the banker steps down at the end of `game_result` and at the end of
`game_flow_bureau`. The second end is not reached without bets, and `game_over` then goes on with
the banker of the round before. A handler that is held for too long, at the account service or at
the database, lets `game_over` come first as well.
-/

namespace SdyServer.Hongbao

namespace EveryRound

open Stored (Wait Query Piece piece hold holdRun queried)

section Statement

/-- A room of the first type. -/
def start (info : RoomInfo) : Stored.World := { room := { info, bankerType := some 1 } }

/-- What a handler waits for that ends with the banker's step-down. -/
def closes : Wait → Bool
  | .service (.resultReduce _) | .service (.resultCoin _) | .service (.reward ..)
  | .service (.flowCoin ..) | .service (.down ..) => true
  | .service (.flowReturn user) => user.isSome
  | .query (.down _) | .query (.resultLog _) | .query (.booked _) | .query (.handleResult ..)
  | .query (.flowPaid _) => true
  | .query (.flow user) => user.isSome
  | _ => false

/-- Nothing is waited for, a round with a banker is called off over bets, and its settlement does
not raise. -/
def Ready (world : Stored.World) : Prop :=
  world.frames = [] ∧ world.held = [] ∧ (world.room.banker ≠ none →
    (world.room.gameStep = .waitResult → world.room.settles = true) ∧
      (world.room.gameStep = .flow → flowAccts world.room ≠ []))

instance (world : Stored.World) : Decidable (Ready world) := inferInstanceAs (Decidable (_ ∧ _ ∧ _))

/-- All calls succeed, no step of the machine is due while a handler waits, packets are dealt in the
step in which the database was asked, and the database raises in no other handler than their
dealing. -/
def Undisturbed (world : Stored.World) : Stored.Event → Prop
  | .base (.resume _ answer _) => answer = .ok
  | .base (.setBankerType bankerType) => bankerType = some 1
  | .base (.tick _) | .heldTick => world.room.due = true → Ready world
  | .queried index _ _ =>
      world.held[index]? = some .zhuangxian ∨ world.held[index]? = some .sent →
        world.room.gameStep = .send
  | .raised index => ∀ query ∈ world.held[index]?, query = .zhuangxian ∨ query = .sent
  | _ => True

instance : ∀ (world : Stored.World) (event : Stored.Event), Decidable (Undisturbed world event)
  | _, .base (.resume _ answer _) => inferInstanceAs (Decidable (answer = .ok))
  | _, .base (.setBankerType bankerType) => inferInstanceAs (Decidable (bankerType = some 1))
  | world, .base (.tick _) | world, .heldTick =>
      inferInstanceAs (Decidable (world.room.due = true → Ready world))
  | _, .queried .. => inferInstanceAs (Decidable (_ ∨ _ → _))
  | world, .raised index =>
      inferInstanceAs
        (Decidable (∀ query ∈ world.held[index]?, query = .zhuangxian ∨ query = .sent))
  | _, .base (.robBanker ..) | _, .base (.biaoBanker ..) | _, .base (.downBanker _)
  | _, .base (.betting ..) | _, .base .dequeue | _, .base (.resumeBet _)
  | _, .base (.openRedPacket _) | _, .base (.setOffline ..) | _, .base (.setZhuangxian ..)
  | _, .held _ => isTrue trivial

/-- A step-down that the account service has accepted. -/
def SteppedDown (log : List ServiceCall) : Prop :=
  ∃ uid coin, .operatGameResultAcct [⟨some .giveBack, coin, some uid⟩] ∈ log

end Statement

section Invariant

variable {room room' : Room} {wait : Wait}

/-- What may be waited for. A round is started by a rob only, so no start waits for the room
diamonds. -/
def Fits (room : Room) : Wait → Prop
  | .service .startFreeze => False
  | .service (.down _ _ startFailed) => startFailed = false
  | .service (.biaoFreeze ..) | .service (.biaoReturn ..) | .service (.biaoTopUp ..) =>
      room.gameStep = .biao
  | .service (.flowReturn user) => user ≠ none → flowAccts room ≠ []
  | .query (.down startFailed) => startFailed = false
  | .query (.flow user) => user ≠ none → flowAccts room ≠ []
  | _ => True

/-- What a rob waits for. -/
def robs : Wait → Bool
  | .service (.robFreeze ..) | .service (.robCoin ..) | .query .robbed => true
  | _ => false

/-- What a step-down waits for. -/
def downs : Wait → Bool
  | .service (.down ..) | .query (.down _) => true
  | _ => false

/-- A banker who is about to step down, or who has only just come. -/
def Passing (wait : Wait) : Prop := closes wait = true ∨ wait = .query .robbed

structure Inv (room : Room) (waits : List Wait) : Prop where
  bankerType : room.bankerType = some 1
  seated : ∀ uid, room.banker = some uid → room.isPlayer uid = true
  fits : ∀ wait ∈ waits, Fits room wait
  closing : room.gameStep = .result → room.banker = none ∨ ∃ wait ∈ waits, Passing wait

/-- What those that wait on may rely on. -/
structure Keeps (room room' : Room) : Prop where
  bankerType : room.bankerType = some 1 → room'.bankerType = some 1
  seated : (∀ uid, room.banker = some uid → room.isPlayer uid = true) →
    ∀ uid, room'.banker = some uid → room'.isPlayer uid = true
  biao : room.gameStep = .biao → room'.gameStep = .biao
  flow : flowAccts room ≠ [] → flowAccts room' ≠ []

theorem Keeps.refl (room : Room) : Keeps room room := ⟨id, id, id, id⟩

theorem Fits.mono (hfits : Fits room wait) (hkeeps : Keeps room room') : Fits room' wait := by
  cases wait with
  | service frame =>
      cases frame with
      | biaoFreeze uid coin => exact hkeeps.biao hfits
      | biaoReturn uid coin banker bankerCoin => exact hkeeps.biao hfits
      | biaoTopUp uid coin offsetCoin => exact hkeeps.biao hfits
      | flowReturn user => exact fun huser => hkeeps.flow (hfits huser)
      | startFreeze => exact hfits
      | down uid coin startFailed => exact hfits
      | robFreeze | robCoin | resultReduce | resultCoin | reward | flowCoin => trivial
  | query query =>
      cases query with
      | flow user => exact fun huser => hkeeps.flow (hfits huser)
      | down startFailed => exact hfits
      | robbed | zhuangxian | sent | resultLog | booked | handleResult | flowPaid => trivial

/-- What a piece of a handler does that was waiting: the step-down is passed on to the next piece
until the banker is gone, only a step-down takes him away, and only a rob brings a banker or a new
round. -/
structure Answered (room : Room) (wait : Wait) (piece : Piece) : Prop where
  keeps : Keeps room piece.1
  fits : ∀ next, piece.2 = some next → Fits piece.1 next
  passes : closes wait = true →
    piece.1.banker = none ∨ ∃ next, piece.2 = some next ∧ closes next = true
  ended : piece.1.gameStep = .result → room.gameStep = .result
  closing : piece.1.gameStep = .result → piece.1.banker = none ∨ piece.2 = some (.query .robbed) ∨
    piece.1.banker = room.banker ∧ wait ≠ .query .robbed
  result : robs wait = false → room.gameStep = .result → piece.1.gameStep = .result
  robs : robs wait = false → ∀ next, piece.2 = some next → robs next = false
  leaves : room.banker ≠ none → piece.1.banker = none → downs wait = true
  held : ∀ startFailed, piece.2 = some (.query (.down startFailed)) →
    ∃ uid coin, wait = .service (.down uid coin startFailed)

theorem flowAccts_congr (h : room'.totalBetData = room.totalBetData) :
    flowAccts room' = flowAccts room := by
  rw [flowAccts, flowAccts, h]

/-- A change of the times, of the packets or of the coins. -/
theorem Keeps.of_eq (htype : room'.bankerType = room.bankerType)
    (hbanker : room'.banker = room.banker)
    (hplayers : room'.players = room.players) (hstep : room'.gameStep = room.gameStep)
    (htotals : room'.totalBetData = room.totalBetData) : Keeps room room' := by
  refine ⟨htype.trans, fun h uid huid => ?_, hstep.trans, fun h => ?_⟩
  · rw [Room.isPlayer, hplayers]
    exact h uid (hbanker.symm.trans huid)
  · rwa [flowAccts_congr htotals]

/-- A piece that leaves the step and the banker as they are, and goes on to wait. -/
theorem Answered.of_next {next : Wait} (hkeeps : Keeps room room')
    (hstep : room'.gameStep = room.gameStep) (hbanker : room'.banker = room.banker)
    (hwait : wait ≠ .query .robbed) (hfits : Fits room' next)
    (hpasses : closes wait = true → closes next = true)
    (hrobs : EveryRound.robs wait = false → EveryRound.robs next = false)
    (hheld : ∀ startFailed, next = .query (.down startFailed) →
      ∃ uid coin, wait = .service (.down uid coin startFailed)) :
    Answered room wait (room', some next) where
  keeps := hkeeps
  fits := fun _ hnext => Option.some.inj hnext ▸ hfits
  passes := fun h => Or.inr ⟨next, rfl, hpasses h⟩
  ended := fun h => hstep.symm.trans h
  closing := fun _ => Or.inr (Or.inr ⟨hbanker, hwait⟩)
  result := fun _ h => hstep.trans h
  robs := fun h _ hnext => Option.some.inj hnext ▸ hrobs h
  leaves := fun h hnone => absurd (hbanker.symm.trans hnone) h
  held := fun startFailed hnext => hheld startFailed (Option.some.inj hnext)

theorem robs_of_closes (h : closes wait = true) : robs wait = false := by
  cases wait with
  | service frame =>
      cases frame with
      | robFreeze uid coin => cases h
      | robCoin uid coin => cases h
      | _ => rfl
  | query query =>
      cases query with
      | robbed => cases h
      | _ => rfl

/-- A piece that goes on to wait for what ends with the step-down. -/
theorem Answered.passes_on {next : Wait} (hkeeps : Keeps room room')
    (hstep : room'.gameStep = room.gameStep) (hbanker : room'.banker = room.banker)
    (hwait : wait ≠ .query .robbed) (hfits : Fits room' next) (hcloses : closes next = true)
    (hheld : ∀ startFailed, next = .query (.down startFailed) →
      ∃ uid coin, wait = .service (.down uid coin startFailed)) :
    Answered room wait (room', some next) :=
  .of_next hkeeps hstep hbanker hwait hfits (fun _ => hcloses)
    (fun _ => robs_of_closes hcloses) hheld

/-- A piece that ends its handler. -/
theorem Answered.of_end (hkeeps : Keeps room room') (hstep : room'.gameStep = room.gameStep)
    (hbanker : room'.banker = room.banker) (hwait : wait ≠ .query .robbed)
    (hcloses : closes wait = false) : Answered room wait (room', none) where
  keeps := hkeeps
  fits := fun _ hnext => (by cases hnext)
  passes := fun h => absurd h (by simp [hcloses])
  ended := fun h => hstep.symm.trans h
  closing := fun _ => Or.inr (Or.inr ⟨hbanker, hwait⟩)
  result := fun _ h => hstep.trans h
  robs := fun _ _ hnext => (by cases hnext)
  leaves := fun h hnone => absurd (hbanker.symm.trans hnone) h
  held := fun _ hnext => (by cases hnext)

/-- A bid that is accepted makes its caller the banker, while bankers are challenged. -/
theorem answered_bid {piece : Piece} (uid : Uid) (htype : piece.1.bankerType = room.bankerType)
    (hbanker : piece.1.banker = some uid) (hplayer : piece.1.isPlayer uid = true)
    (hstep : piece.1.gameStep = .biao) (htotals : piece.1.totalBetData = room.totalBetData)
    (hwait : closes wait = false) (hrob : robs wait = true ∨ room.gameStep = .biao)
    (hnext : piece.2 = none) : Answered room wait piece where
  keeps := ⟨fun h => htype.trans h, fun _ uid' huid' => by
      obtain rfl : uid = uid' := Option.some.inj (hbanker.symm.trans huid')
      exact hplayer,
    fun _ => hstep, fun h => by rwa [flowAccts_congr htotals]⟩
  fits := fun next h => by
    rw [hnext] at h
    cases h
  passes := fun h => by
    rw [hwait] at h
    cases h
  ended := fun h => by
    rw [hstep] at h
    cases h
  closing := fun h => by
    rw [hstep] at h
    cases h
  result := fun hnot h => by
    rcases hrob with hrob | hbiao
    · rw [hrob] at hnot
      cases hnot
    · rw [hbiao] at h
      cases h
  robs := fun _ next h => by
    rw [hnext] at h
    cases h
  leaves := fun _ h => by
    rw [hbanker] at h
    cases h
  held := fun _ h => by
    rw [hnext] at h
    cases h

theorem Keeps.trans {room'' : Room} (h : Keeps room room') (h' : Keeps room' room'') :
    Keeps room room'' :=
  ⟨fun ht => h'.bankerType (h.bankerType ht), fun hs => h'.seated (h.seated hs),
    fun hb => h'.biao (h.biao hb), fun hf => h'.flow (h.flow hf)⟩

/-- The banker is gone. -/
theorem answered_down (room : Room) (hwait : downs wait = true) :
    Answered room wait (piece (downBankerAnswered room false .ok)) where
  keeps := ⟨id, fun _ _ huid => (by cases huid), id, id⟩
  fits := fun next h => by cases h
  passes := fun _ => Or.inl rfl
  ended := id
  closing := fun _ => Or.inl rfl
  result := fun _ => id
  robs := fun _ next h => by cases h
  leaves := fun _ _ => hwait
  held := fun _ h => by cases h

theorem resultEnd_answered (htype : room.bankerType = some 1) (user : Uid) :
    resultEnd room user = downBanker room user false := by
  unfold resultEnd
  rw [if_neg]
  rw [htype]
  simp

/-- What pays rewards, or ends a settlement, passes the step-down on. -/
theorem payRewards_answered (htype : room.bankerType = some 1) (user : Uid)
    (rewards : List (Uid × ℚ)) (hwait : wait ≠ .query .robbed) :
    Answered room wait (piece (payRewards room user rewards)) := by
  cases rewards with
  | nil =>
      rw [payRewards, resultEnd_answered htype]
      exact .passes_on (.refl _) rfl rfl hwait rfl rfl (by simp)
  | cons reward rest =>
      exact .passes_on (.refl _) rfl rfl hwait trivial rfl (by simp)

theorem flowReturn_answered {user : Option Uid} (hflow : user ≠ none → flowAccts room ≠ [])
    (hwait : wait ≠ .query .robbed) (hcloses : closes wait = user.isSome) :
    Answered room wait (piece (flowReturnAnswered room user .ok)) := by
  cases user with
  | none => exact .of_end (.refl _) rfl rfl hwait hcloses
  | some user =>
      have hslice : flowReturnAnswered room (some user) .ok =
          ({ room with bankerSurplusCoin := room.bankerGameCoin },
            .call (.flowCoin user (flowAccts room))) := if_neg (hflow (by simp))
      rw [hslice]
      exact .passes_on (.of_eq rfl rfl rfl rfl rfl) rfl rfl hwait trivial rfl (by simp)

theorem flowCoin_answered (htype : room.bankerType = some 1) (user : Uid)
    (hwait : wait ≠ .query .robbed) :
    Answered room wait (piece (flowCoinAnswered room user .ok)) := by
  have hslice : flowCoinAnswered room user .ok = downBanker room user false := if_pos htype
  rw [hslice]
  exact .passes_on (.refl _) rfl rfl hwait rfl rfl (by simp)

/-- **What an accepted call does to the handler that waited for it.** -/
theorem resume_answered {frame : Frame} (htype : room.bankerType = some 1)
    (hfits : Fits room (.service frame)) (rewards : List (Uid × ℚ)) :
    Answered room (.service frame) (piece (resume room .ok rewards frame)) := by
  cases frame with
  | robFreeze uid coin =>
      exact .of_next (.refl _) rfl rfl (by simp) trivial (fun h => by cases h)
        (fun h => by cases h) (by simp)
  | robCoin uid coin =>
      have hslice : resume room .ok rewards (.robCoin uid coin) =
          ({ room with
              banker := some uid, bankerGameCoin := coin, bankerSurplusCoin := coin,
              players := some ((room.players.getD []).insert uid),
              gameTime := 0, gameStep := .biao }, .done) := by
        simp [resume, robCoinAnswered, gameStart, htype]
      rw [hslice]
      exact answered_bid uid rfl rfl (by simp [piece, Room.isPlayer]) rfl rfl rfl (Or.inl rfl) rfl
  | startFreeze => exact hfits.elim
  | down uid coin startFailed =>
      have hfalse : startFailed = false := hfits
      subst hfalse
      exact answered_down room rfl
  | biaoFreeze uid coin =>
      exact .of_next (.refl _) rfl rfl (by simp) hfits (fun h => by cases h)
        (fun _ => rfl) (by simp)
  | biaoReturn uid coin banker bankerCoin =>
      exact answered_bid uid rfl rfl (by simp [piece, resume, biaoAnswered, Room.isPlayer]) hfits
        rfl
        rfl (Or.inr hfits) rfl
  | biaoTopUp uid coin offsetCoin =>
      exact answered_bid uid rfl rfl (by simp [piece, resume, biaoAnswered, Room.isPlayer]) hfits
        rfl
        rfl (Or.inr hfits) rfl
  | resultReduce settlement =>
      exact .passes_on (.refl _) rfl rfl (by simp) trivial rfl (by simp)
  | resultCoin settlement =>
      let booked : Room := { room with
        bankerGameCoin := settlement.bankerGameCoin
        bankerSurplusCoin := settlement.bankerGameCoin }
      have hpaid : Answered booked (.service (.resultCoin settlement))
          (piece (payRewards booked settlement.user rewards)) :=
        @payRewards_answered booked _ htype settlement.user rewards (by simp)
      have hkeeps : Keeps room booked := .of_eq rfl rfl rfl rfl rfl
      exact { hpaid with keeps := hkeeps.trans hpaid.keeps }
  | reward user uid coin rest => exact payRewards_answered htype user rest (by simp)
  | flowReturn user => exact flowReturn_answered hfits (by simp) rfl
  | flowCoin user userAccts => exact flowCoin_answered htype user (by simp)

/-- **What it does before the database holds the handler.** -/
theorem hold_answered {frame : Frame} {query : Query} (hfits : Fits room (.service frame))
    (hhold : hold room frame = some (room', query)) :
    Answered room (.service frame) (room', some (.query query)) := by
  cases frame with
  | robCoin uid coin =>
      cases hhold
      exact {
        keeps := ⟨id, fun _ uid' huid' => (by cases huid'; simp [Room.isPlayer]), id, id⟩
        fits := fun next hnext => (by cases hnext; trivial)
        passes := fun h => (by cases h)
        ended := id
        closing := fun _ => Or.inr (Or.inl rfl)
        result := fun h => (by cases h)
        robs := fun h => (by cases h)
        leaves := fun _ h => (by cases h)
        held := fun _ h => (by cases h) }
  | down uid coin startFailed =>
      cases hhold
      refine .passes_on (.refl _) rfl rfl (by simp) hfits rfl fun startFailed' h => ?_
      cases h
      exact ⟨uid, coin, rfl⟩
  | resultCoin settlement =>
      cases hhold
      exact .passes_on (.refl _) rfl rfl (by simp) trivial rfl (by simp)
  | reward user uid coin rest =>
      cases hhold
      exact .passes_on (.refl _) rfl rfl (by simp) trivial rfl (by simp)
  | flowReturn user =>
      cases hhold
      exact .of_next (.refl _) rfl rfl (by simp) hfits id (fun _ => rfl) (by simp)
  | flowCoin user userAccts =>
      cases hhold
      exact .passes_on (.refl _) rfl rfl (by simp) trivial rfl (by simp)
  | robFreeze | startFreeze | biaoFreeze | biaoReturn | biaoTopUp | resultReduce => cases hhold

theorem sendPacket_packets {values : Uid → Option Value}
    (h : sendPacket room values = .ok room') : ∃ packets, room' = { room with packets } := by
  unfold sendPacket at h
  obtain ⟨players, -, h⟩ := Lua.bind_eq_ok.mp h
  obtain ⟨keys, -, h⟩ := Lua.bind_eq_ok.mp h
  cases h
  exact ⟨_, rfl⟩

/-- **What the answer of the database does.** -/
theorem queried_answered {query : Query} (htype : room.bankerType = some 1)
    (hfits : Fits room (.query query))
    (hsend : query = .zhuangxian ∨ query = .sent → room.gameStep = .send)
    (values : Uid → Option Value) (rewards : List (Uid × ℚ)) :
    Answered room (.query query) (queried room values rewards query) := by
  cases query with
  | robbed =>
      have hslice : queried room values rewards .robbed =
          ({ room with gameTime := 0, gameStep := .biao }, none) := by
        simp [queried, piece, gameStart, htype, Next.frame?]
      rw [hslice]
      exact {
        keeps := ⟨id, fun h => h, fun _ => rfl, fun h => h⟩
        fits := fun next hnext => (by cases hnext)
        passes := fun h => (by cases h)
        ended := fun h => (by cases h)
        closing := fun h => (by cases h)
        result := fun h => (by cases h)
        robs := fun h => (by cases h)
        leaves := fun h hnone => absurd hnone h
        held := fun _ h => (by cases h) }
  | down startFailed =>
      have hfalse : startFailed = false := hfits
      subst hfalse
      exact answered_down room rfl
  | zhuangxian =>
      simp only [queried]
      split
      next room' hpacket =>
        obtain ⟨packets, rfl⟩ := sendPacket_packets hpacket
        split_ifs
        · exact .of_next (.of_eq rfl rfl rfl rfl rfl) rfl rfl (by simp) trivial
            (fun h => by cases h) (fun _ => rfl) (by simp)
        · exact .of_end (.of_eq rfl rfl rfl rfl rfl) rfl rfl (by simp) rfl
      next => exact .of_end (.refl _) rfl rfl (by simp) rfl
  | sent =>
      have hstep := hsend (Or.inr rfl)
      exact {
        keeps := ⟨id, fun h => h, fun h => (by rw [hstep] at h; cases h), fun h => h⟩
        fits := fun next hnext => (by cases hnext)
        passes := fun h => (by cases h)
        ended := fun h => (by cases h)
        closing := fun h => (by cases h)
        result := fun _ h => (by rw [hstep] at h; cases h)
        robs := fun _ next hnext => (by cases hnext)
        leaves := fun h hnone => absurd hnone h
        held := fun _ h => (by cases h) }
  | resultLog settlement =>
      exact .passes_on (.refl _) rfl rfl (by simp) trivial rfl (by simp)
  | booked settlement =>
      exact .passes_on (.of_eq rfl rfl rfl rfl rfl) rfl rfl (by simp) trivial rfl (by simp)
  | handleResult user rest => exact payRewards_answered htype user (rest ++ rewards) (by simp)
  | flow user => exact flowReturn_answered hfits (by simp) rfl
  | flowPaid user => exact flowCoin_answered htype user (by simp)

end Invariant

section Step

variable {world world' : Stored.World} {event : Stored.Event}

def waits (world : Stored.World) : List Wait :=
  world.frames.map .service ++ world.held.map .query

theorem mem_waits {wait : Wait} : wait ∈ waits world ↔
    (∃ frame ∈ world.frames, wait = .service frame) ∨ ∃ query ∈ world.held, wait =
    .query query := by
  simp only [waits, List.mem_append, List.mem_map, eq_comm]

theorem mem_waits_apply (world : Stored.World) (piece : Piece) (wait : Wait) :
    wait ∈ waits (world.apply piece) ↔ wait ∈ waits world ∨ piece.2 = some wait := by
  obtain ⟨room, next⟩ := piece
  cases next with
  | none => simp [Stored.World.apply, waits]
  | some next =>
      cases next with
      | service frame =>
          simp only [Stored.World.apply, waits, List.map_append, List.map_cons, List.map_nil,
            List.mem_append, List.mem_singleton, Option.some.injEq, eq_comm]
          tauto
      | query query =>
          simp only [Stored.World.apply, waits, List.map_append, List.map_cons, List.map_nil,
            List.mem_append, List.mem_singleton, Option.some.injEq, eq_comm]
          tauto

@[simp]
theorem room_apply (world : Stored.World) (piece : Piece) : (world.apply piece).room = piece.1 := by
  obtain ⟨room, next⟩ := piece
  rcases next with _ | _ | _ <;> rfl

@[simp]
theorem log_apply (world : Stored.World) (piece : Piece) : (world.apply piece).log = world.log := by
  obtain ⟨room, next⟩ := piece
  rcases next with _ | _ | _ <;> rfl

/-- The step is due, and this is what its handler does first. -/
structure Stepped (room : Room) (piece : Piece) : Prop where
  bankerType : piece.1.bankerType = some 1
  seated : ∀ uid, piece.1.banker = some uid → piece.1.isPlayer uid = true
  fits : ∀ next, piece.2 = some next → Fits piece.1 next
  closing : piece.1.gameStep = .result →
    piece.1.banker = none ∨ ∃ next, piece.2 = some next ∧ closes next = true
  banker : piece.1.banker = room.banker
  held : ∀ startFailed, piece.2 ≠ some (.query (.down startFailed))

/-- **What an event does.** It leaves the step and the banker alone and may begin to wait, it is an
answer to what is waited for, it is a step of the machine while nothing is, or a query raises. -/
inductive Moves (world world' : Stored.World) : Prop where
  | quiet (next : Option Wait) (keeps : Keeps world.room world'.room)
      (step : world'.room.gameStep = world.room.gameStep)
      (banker : world'.room.banker = world.room.banker)
      (waits : ∀ wait, wait ∈ waits world' ↔ wait ∈ waits world ∨ next = some wait)
      (fits : ∀ wait, next = some wait → Fits world.room wait)
      (robs : world.room.banker ≠ none → ∀ wait, next = some wait → robs wait = false)
      (held : ∀ startFailed, next ≠ some (.query (.down startFailed)))
      (log : world.log <+: world'.log)
  | answered (wait : Wait) (piece : Piece) (mem : wait ∈ waits world)
      (answered : Answered world.room wait piece) (room : world'.room = piece.1)
      (kept : ∀ other ∈ waits world, other = wait ∨ other ∈ waits world')
      (waits : ∀ other ∈ waits world', other ∈ waits world ∨ piece.2 = some other)
      (next : ∀ other, piece.2 = some other → other ∈ EveryRound.waits world')
      (log : world.log <+: world'.log)
      (down : ∀ uid coin startFailed, wait = .service (.down uid coin startFailed) →
        SteppedDown (world'.log.drop world.log.length))
  | ticked (piece : Piece) (none : waits world = []) (stepped : Stepped world.room piece)
      (room : world'.room = piece.1)
      (waits : ∀ other, other ∈ waits world' ↔ piece.2 = some other)
      (log : world'.log = world.log)
  | raised (room : world'.room = world.room) (waits : ∀ other ∈ waits world', other ∈ waits world)
      (kept : ∀ other ∈ EveryRound.waits world, Passing other → other ∈ EveryRound.waits world')
      (log : world'.log = world.log)

theorem mem_of_eraseIdx {α : Type} {l : List α} {index : Nat} {a : α} (h : l[index]? = some a) :
    (∀ b ∈ l, b = a ∨ b ∈ l.eraseIdx index) ∧ ∀ b ∈ l.eraseIdx index, b ∈ l := by
  obtain ⟨hlt, hget⟩ := List.getElem?_eq_some_iff.mp h
  have hperm : (a :: l.eraseIdx index).Perm l := by
    rw [← hget]
    exact List.getElem_cons_eraseIdx_perm hlt
  exact ⟨fun b hb => List.mem_cons.mp (hperm.mem_iff.mpr hb),
    fun b hb => hperm.mem_iff.mp (List.mem_cons_of_mem _ hb)⟩

/-- A change of the room in which no handler begins or goes on. -/
theorem Moves.of_room {base : Hongbao.World} (hframes : base.frames = world.frames)
    (hkeeps : Keeps world.room base.room) (hstep : base.room.gameStep = world.room.gameStep)
    (hbanker : base.room.banker = world.room.banker) (hlog : world.log <+: base.log) :
    Moves world { world with toWorld := base } := by
  refine .quiet none hkeeps hstep hbanker (fun wait => ?_) (fun _ h => (by cases h))
    (fun _ _ h => (by cases h)) (fun _ h => by cases h) hlog
  simp only [waits, hframes, reduceCtorEq, or_false]

theorem Moves.refl (world : Stored.World) : Moves world world :=
  .of_room rfl (.refl _) rfl rfl (List.prefix_refl _)

/-- A request is refused, or begins to wait. -/
theorem Moves.request {slice : Slice} {next : Next Frame} (heq : slice = (world.room, next))
    (hfits : ∀ frame, next.frame? = some frame → Fits world.room (.service frame))
    (hrobs : world.room.banker ≠ none → ∀ frame, next.frame? = some frame →
      robs (.service frame) = false) :
    Moves world { world with toWorld := world.toWorld.apply slice } := by
  subst heq
  refine .quiet (next.frame?.map .service) (.refl _) rfl rfl (fun wait => ?_) (fun wait h => ?_)
    (fun hbanker wait h => ?_) (fun startFailed h => ?_) (List.prefix_refl _)
  · simp only [mem_waits, World.apply, List.mem_append, Option.mem_toList, Option.map_eq_some_iff]
    constructor
    · rintro (⟨frame, hmem | hnew, rfl⟩ | hquery)
      · exact Or.inl (Or.inl ⟨frame, hmem, rfl⟩)
      · exact Or.inr ⟨frame, hnew, rfl⟩
      · exact Or.inl (Or.inr hquery)
    · rintro ((⟨frame, hmem, rfl⟩ | hquery) | ⟨frame, hnew, rfl⟩)
      · exact Or.inl ⟨frame, Or.inl hmem, rfl⟩
      · exact Or.inr hquery
      · exact Or.inl ⟨frame, Or.inr hnew, rfl⟩
  · obtain ⟨frame, hframe, rfl⟩ := Option.map_eq_some_iff.mp h
    exact hfits frame hframe
  · obtain ⟨frame, hframe, rfl⟩ := Option.map_eq_some_iff.mp h
    exact hrobs hbanker frame hframe
  · obtain ⟨frame, -, hframe⟩ := Option.map_eq_some_iff.mp h
    cases hframe

theorem Moves.refused {slice : Slice} {next : Next Frame} (heq : slice = (world.room, next))
    (hnone : next.frame? = none) :
    Moves world { world with toWorld := world.toWorld.apply slice } := by
  refine .request heq (fun frame h => ?_) fun _ frame h => ?_
  · rw [hnone] at h
    cases h
  · rw [hnone] at h
    cases h

theorem Moves.asks {slice : Slice} {frame : Frame} (heq : slice = (world.room, .call frame))
    (hfits : Fits world.room (.service frame))
    (hrobs : world.room.banker ≠ none → robs (.service frame) = false) :
    Moves world { world with toWorld := world.toWorld.apply slice } := by
  refine .request heq (fun next h => ?_) fun hbanker next h => ?_
  · obtain rfl : frame = next := Option.some.inj h
    exact hfits
  · obtain rfl : frame = next := Option.some.inj h
    exact hrobs hbanker

/-- What was waited for at an index goes on, in a world that has dropped it. -/
theorem Moves.of_answered {wait : Wait} {piece : Piece} (hmem : wait ∈ waits world)
    (hanswered : Answered world.room wait piece) {dropped : Stored.World}
    (hrest : ∀ other ∈ waits world, other = wait ∨ other ∈ waits dropped)
    (hsub : ∀ other ∈ waits dropped, other ∈ waits world) (hlog : world.log <+: dropped.log)
    (hdown : ∀ uid coin startFailed, wait = .service (.down uid coin startFailed) →
      SteppedDown (dropped.log.drop world.log.length)) : Moves world (dropped.apply piece) := by
  refine .answered wait piece hmem hanswered (room_apply ..) (fun other h => ?_) (fun other h => ?_)
    (fun other h => ?_) (by rwa [log_apply]) fun uid coin startFailed h => ?_
  · exact (hrest other h).imp_right fun h => (mem_waits_apply ..).mpr (Or.inl h)
  · exact ((mem_waits_apply ..).mp h).imp_left (hsub other)
  · exact (mem_waits_apply ..).mpr (Or.inr h)
  · rw [log_apply]
    exact hdown uid coin startFailed h

/-- The waits of a world whose frame at an index has been answered. -/
theorem Moves.of_frame {index : Nat} {frame : Frame} {piece : Piece}
    (hframe : world.frames[index]? = some frame)
    (hanswered : Answered world.room (.service frame) piece) :
    Moves world ({ world with
      frames := world.frames.eraseIdx index
      log := world.log ++ [frame.call world.room.info.gameOwner] : Stored.World }.apply piece) := by
  obtain ⟨hrest, hsub⟩ := mem_of_eraseIdx hframe
  refine .of_answered (mem_waits.mpr (Or.inl ⟨frame, List.mem_of_getElem? hframe, rfl⟩)) hanswered
    (fun other h => ?_) (fun other h => ?_) (List.prefix_append ..) fun uid coin startFailed h => ?_
  · rcases mem_waits.mp h with ⟨other, hother, rfl⟩ | hquery
    · rcases hrest other hother with rfl | hkept
      · exact Or.inl rfl
      · exact Or.inr (mem_waits.mpr (Or.inl ⟨other, hkept, rfl⟩))
    · exact Or.inr (mem_waits.mpr (Or.inr hquery))
  · rcases mem_waits.mp h with ⟨other, hother, rfl⟩ | hquery
    · exact mem_waits.mpr (Or.inl ⟨other, hsub other hother, rfl⟩)
    · exact mem_waits.mpr (Or.inr hquery)
  · cases h
    refine ⟨uid, coin, ?_⟩
    rw [List.drop_left]
    exact List.mem_singleton_self _

theorem Moves.of_query {index : Nat} {query : Query} {piece : Piece}
    (hquery : world.held[index]? = some query)
    (hanswered : Answered world.room (.query query) piece) :
    Moves world ({ world with held := world.held.eraseIdx index : Stored.World }.apply piece) := by
  obtain ⟨hrest, hsub⟩ := mem_of_eraseIdx hquery
  refine .of_answered (mem_waits.mpr (Or.inr ⟨query, List.mem_of_getElem? hquery, rfl⟩)) hanswered
    (fun other h => ?_) (fun other h => ?_) (List.prefix_refl _) fun uid coin startFailed h => by
      cases h
  · rcases mem_waits.mp h with hframe | ⟨other, hother, rfl⟩
    · exact Or.inr (mem_waits.mpr (Or.inl hframe))
    · rcases hrest other hother with rfl | hkept
      · exact Or.inl rfl
      · exact Or.inr (mem_waits.mpr (Or.inr ⟨other, hkept, rfl⟩))
  · rcases mem_waits.mp h with hframe | ⟨other, hother, rfl⟩
    · exact mem_waits.mpr (Or.inl hframe)
    · exact mem_waits.mpr (Or.inr ⟨other, hsub other hother, rfl⟩)

/-- A step that only goes on to another one, which is not the result. -/
theorem Stepped.of_done {room room' : Room} {next : Option Wait} (htype : room.bankerType = some 1)
    (hseated : ∀ uid, room.banker = some uid → room.isPlayer uid = true)
    (htype' : room'.bankerType = room.bankerType) (hbanker : room'.banker = room.banker)
    (hplayers : room'.players = room.players) (hstep : room'.gameStep ≠ .result)
    (hnext : next = none ∨ next = some (.query .zhuangxian)) : Stepped room (room', next) where
  bankerType := htype'.trans htype
  seated := fun uid huid => by
    show room'.isPlayer uid = true
    rw [Room.isPlayer, hplayers]
    exact hseated uid (hbanker.symm.trans huid)
  fits := fun wait h => by
    rcases hnext with rfl | rfl
    · cases h
    · cases h
      trivial
  closing := fun h => absurd h hstep
  banker := hbanker
  held := fun startFailed h => by
    rcases hnext with rfl | rfl
    · cases h
    · cases h

/-- The step goes on to the result, and to wait for what ends with the step-down. -/
theorem Stepped.of_closes {room room' : Room} {next : Wait} (htype : room.bankerType = some 1)
    (hseated : ∀ uid, room.banker = some uid → room.isPlayer uid = true)
    (htype' : room'.bankerType = room.bankerType) (hbanker : room'.banker = room.banker)
    (hplayers : room'.players = room.players) (hfits : Fits room' next)
    (hcloses : room.banker = none ∨ closes next = true)
    (hheld : ∀ startFailed, next ≠ .query (.down startFailed)) :
    Stepped room (room', some next) where
  bankerType := htype'.trans htype
  seated := fun uid huid => by
    show room'.isPlayer uid = true
    rw [Room.isPlayer, hplayers]
    exact hseated uid (hbanker.symm.trans huid)
  fits := fun wait h => Option.some.inj h ▸ hfits
  closing := fun _ => hcloses.imp (fun h => hbanker.trans h) fun h => ⟨next, rfl, h⟩
  banker := hbanker
  held := fun startFailed h => hheld startFailed (Option.some.inj h)

theorem settles_of_error {room : Room} {error : LuaError}
    (hsettles : room.banker ≠ none → room.settles = true)
    (hsettle : settle { room with gameTime := 0, gameStep := .result } = .error error) :
    room.banker = none := by
  by_contra hbanker
  obtain ⟨room', settlement, hok⟩ := settle_isOk
    { room with gameTime := 0, gameStep := .result } (hsettles hbanker)
  rw [hok] at hsettle
  cases hsettle

theorem stepped_gotoResult {room : Room} (htype : room.bankerType = some 1)
    (hseated : ∀ uid, room.banker = some uid → room.isPlayer uid = true)
    (hsettles : room.banker ≠ none → room.settles = true) :
    Stepped room (piece (gotoResult room)) := by
  unfold gotoResult
  dsimp only
  split
  next room' settlement hsettle =>
    obtain ⟨-, ⟨coin, rfl⟩, -⟩ := settle_spec hsettle
    exact .of_closes htype hseated rfl rfl rfl trivial (Or.inr rfl) (by simp)
  next error hsettle =>
    exact ⟨htype, hseated, fun _ h => (by cases h),
      fun _ => Or.inl (settles_of_error hsettles hsettle), rfl, fun _ h => by cases h⟩

theorem stepped_gameFlowBureau {room : Room} (htype : room.bankerType = some 1)
    (hseated : ∀ uid, room.banker = some uid → room.isPlayer uid = true)
    (hflow : room.banker ≠ none → flowAccts room ≠ []) :
    Stepped room (piece (gameFlowBureau room)) := by
  unfold gameFlowBureau
  dsimp only
  split
  next hplayers =>
    refine ⟨htype, hseated, fun _ h => (by cases h), fun _ => Or.inl ?_, rfl, fun _ h => by cases h⟩
    rw [Option.eq_none_iff_forall_ne_some]
    intro uid huid
    have hplayer := hseated uid huid
    rw [Room.isPlayer, hplayers] at hplayer
    cases hplayer
  next players hplayers =>
    refine .of_closes htype hseated rfl rfl rfl (fun huser => hflow fun hnone => huser ?_) ?_
      (by simp)
    · show Option.filter _ room.banker = none
      rw [hnone]
      rfl
    · cases hbanker : room.banker with
      | none => exact Or.inl rfl
      | some banker =>
          have hplayer := hseated banker hbanker
          right
          show (Option.filter _ (some banker)).isSome = true
          rw [Option.filter_some]
          exact congrArg Option.isSome (if_pos hplayer)

theorem stepped_stepRun {room : Room} (htype : room.bankerType = some 1)
    (hseated : ∀ uid, room.banker = some uid → room.isPlayer uid = true)
    (hresult : room.gameStep = .result → room.banker = none)
    (hround : room.banker ≠ none → (room.gameStep = .waitResult → room.settles = true) ∧
      (room.gameStep = .flow → flowAccts room ≠ [])) (values : Uid → Option Value) :
    Stepped room (piece (stepRun room values)) := by
  unfold stepRun
  cases hstep : room.gameStep with
  | none => exact .of_done htype hseated rfl rfl rfl (by simp [hstep]) (Or.inl rfl)
  | biao => exact .of_done htype hseated rfl rfl rfl (by simp) (Or.inl rfl)
  | biaoEnd => exact .of_done htype hseated rfl rfl rfl (by simp [beterStart]) (Or.inl rfl)
  | bet => exact .of_done htype hseated rfl rfl rfl (by simp) (Or.inl rfl)
  | betEnd =>
      dsimp only
      split_ifs
      · exact .of_done htype hseated rfl rfl rfl (by simp) (Or.inl rfl)
      · exact .of_done htype hseated rfl rfl rfl (by simp) (Or.inl rfl)
  | send =>
      dsimp only
      split
      next room' hsend =>
        obtain ⟨packets, rfl⟩ := sendPacket_packets hsend
        dsimp only
        split_ifs
        · exact .of_done htype hseated rfl rfl rfl (by simp) (Or.inl rfl)
        · exact .of_done htype hseated rfl rfl rfl (by simp [hstep]) (Or.inl rfl)
      next => exact .of_done htype hseated rfl rfl rfl (by simp [hstep]) (Or.inl rfl)
  | qiang =>
      dsimp only
      split
      next room' hwait =>
        obtain ⟨packets, packets', -, rfl, -⟩ := waitGameResult_spec hwait
        exact .of_done htype hseated rfl rfl rfl (by simp) (Or.inl rfl)
      next => exact .of_done htype hseated rfl rfl rfl (by simp [hstep]) (Or.inl rfl)
  | waitResult => exact stepped_gotoResult htype hseated fun hbanker => (hround hbanker).1 hstep
  | flow => exact stepped_gameFlowBureau htype hseated fun hbanker => (hround hbanker).2 hstep
  | result =>
      have hnone := hresult hstep
      have hover : gameOver room = ({ room with
          packets := none, betData := none, totalBetData := none, totalBetValue := none
          players := none, gameStep := .none, gameTime := 0 }, .done) := by
        simp only [gameOver, hnone]
      dsimp only
      rw [hover]
      refine ⟨htype, fun uid huid => ?_, fun _ h => (by cases h), fun h => (by cases h), rfl,
        fun _ h => by cases h⟩
      cases hnone.symm.trans huid

theorem stepped_holdRun {room room' : Room} {query : Query} (htype : room.bankerType = some 1)
    (hseated : ∀ uid, room.banker = some uid → room.isPlayer uid = true)
    (hhold : holdRun room = some (room', query)) :
    Stepped room (room', some (.query query)) := by
  unfold holdRun at hhold
  split at hhold
  next hstep =>
    cases hhold
    exact .of_done htype hseated rfl rfl rfl (by simp [hstep]) (Or.inr rfl)
  next hstep =>
    split at hhold
    next settled settlement hsettle =>
      cases hhold
      obtain ⟨-, ⟨coin, rfl⟩, -⟩ := settle_spec hsettle
      exact .of_closes htype hseated rfl rfl rfl trivial (Or.inr rfl) (by simp)
    next => cases hhold
  next => cases hhold

theorem waits_of_ready (hready : Ready world) : waits world = [] := by
  simp [waits, hready.1, hready.2.1]

theorem Inv.banker_of_ready (hinv : Inv world.room (waits world)) (hready : Ready world)
    (hresult : world.room.gameStep = .result) : world.room.banker = none := by
  refine (hinv.closing hresult).resolve_right ?_
  rw [waits_of_ready hready]
  rintro ⟨wait, hmem, -⟩
  cases hmem

theorem Moves.of_stepped {piece : Piece} (hready : Ready world)
    (hstepped : Stepped world.room piece) :
    Moves world (world.apply piece) := by
  refine .ticked piece (waits_of_ready hready) hstepped (room_apply ..)
    (fun wait => ?_) (log_apply ..)
  rw [mem_waits_apply, waits_of_ready hready]
  simp

theorem apply_piece (slice : Slice) :
    { world with toWorld := world.toWorld.apply slice } = world.apply (piece slice) := by
  obtain ⟨room, next⟩ := slice
  cases next with
  | call frame => rfl
  | done | raised error | refused text msgId =>
      simp [World.apply, piece, Next.frame?, Stored.World.apply]

theorem moves_tick (hinv : Inv world.room (waits world)) {values : Uid → Option Value}
    (hcond : Undisturbed world (.base (.tick values))) :
    Moves world (Stored.step world (.base (.tick values))) := by
  cases hdue : world.room.due with
  | false =>
      have hsame : Hongbao.step world.toWorld (.tick values) = { world.toWorld with
          room := { world.room with gameTime := world.room.gameTime + 1 } } := by
        simp [Hongbao.step, run, hdue, World.apply, Next.frame?]
      rw [Stored.step, hsame]
      exact .of_room rfl (.of_eq rfl rfl rfl rfl rfl) rfl rfl (List.prefix_refl _)
  | true =>
      have hready := hcond hdue
      rw [Stored.step, step_tick_due hdue, apply_piece]
      have hstepped := @stepped_stepRun { world.room with gameTime := world.room.gameTime + 1 }
        hinv.bankerType hinv.seated (hinv.banker_of_ready hready) hready.2.2 values
      exact .of_stepped hready ⟨hstepped.bankerType, hstepped.seated, hstepped.fits,
        hstepped.closing,
        hstepped.banker, hstepped.held⟩

theorem moves_heldTick (hinv : Inv world.room (waits world)) (hcond : Undisturbed world .heldTick) :
    Moves world (Stored.step world .heldTick) := by
  simp only [Stored.step]
  split_ifs with hdue
  · split
    next => exact .refl world
    next room query hhold =>
      have hstepped := @stepped_holdRun { world.room with gameTime := world.room.gameTime + 1 } _ _
        hinv.bankerType hinv.seated hhold
      exact .of_stepped (hcond hdue) ⟨hstepped.bankerType, hstepped.seated, hstepped.fits,
        hstepped.closing, hstepped.banker, hstepped.held⟩
  · exact .refl world

/-- A recorded bet makes its bettor a player, and there is something to return. -/
theorem keeps_recordBet (room : Room) (betData : LuaTable Uid (List Bet)) (bet : BetCall) :
    Keeps room (recordBet room betData bet) := by
  refine ⟨id, fun h uid huid => ?_, id, fun _ => ?_⟩
  · have hplayer := h uid huid
    simp only [Room.isPlayer, List.contains_iff_mem] at hplayer ⊢
    simp [recordBet, hplayer]
  · intro hnil
    have hkeys : (flowAccts (recordBet room betData bet)).map UserAcct.custNo =
        (((room.totalBetData.getD ∅).set bet.uid
          (addTotalBet bet (((room.totalBetData.getD ∅).get bet.uid).getD []))).keys.map some) := by
      simp [flowAccts, recordBet, LuaTable.keys]
    have hmem : bet.uid ∈ ((room.totalBetData.getD ∅).set bet.uid
        (addTotalBet bet (((room.totalBetData.getD ∅).get bet.uid).getD []))).keys :=
      (LuaTable.mem_keys_set ..).mpr (Or.inl rfl)
    rw [hnil, List.map_nil] at hkeys
    rw [(List.map_eq_nil_iff.mp hkeys.symm)] at hmem
    exact absurd hmem List.not_mem_nil

theorem moves_startBet (queue : List BetRequest) (req : BetRequest) :
    Moves world { world with toWorld := World.startBet { world.toWorld with queue } req } := by
  have hroom : (World.startBet { world.toWorld with queue } req).room =
      { world.room with betData := some (world.room.betData.getD ∅) } :=
        (beter_spec world.room req).1
  refine .of_room rfl ?_ ?_ ?_ (List.prefix_refl _)
  · rw [hroom]
    exact .of_eq rfl rfl rfl rfl rfl
  · rw [hroom]
  · rw [hroom]

theorem prefix_bookLog (log : List ServiceCall) (answer : Answer) (call : ServiceCall) :
    log <+: bookLog log answer call := by
  cases answer with
  | ok => exact List.prefix_append ..
  | b002 dec => exact List.prefix_refl _
  | error dec => exact List.prefix_refl _

theorem moves_resumeBet (answer : Answer) :
    Moves world (Stored.step world (.base (.resumeBet answer))) := by
  simp only [Stored.step, Hongbao.step]
  cases world.bet with
  | none => exact .refl world
  | some bet =>
      dsimp only
      rw [World.book_eq]
      have hlog : ∀ answer, world.log <+: bookLog world.log answer bet.call := fun answer =>
        prefix_bookLog world.log answer bet.call
      cases answer with
      | ok =>
          cases hbets : world.room.betData with
          | none =>
              simp only [beterAnswered, hbets]
              exact .of_room rfl (.refl _) rfl rfl (hlog .ok)
          | some betData =>
              have hroom : (beterAnswered world.room bet .ok).1 =
                  recordBet world.room betData bet := by
                simp only [beterAnswered, hbets]
                split <;> rfl
              rw [hroom]
              exact .of_room rfl (keeps_recordBet _ _ _) rfl rfl (hlog .ok)
      | b002 dec => exact .of_room rfl (.refl _) rfl rfl (hlog (.b002 dec))
      | error dec => exact .of_room rfl (.refl _) rfl rfl (hlog (.error dec))

theorem openRedPacket_eq (room : Room) (uid : Uid) :
    ∃ packets, openRedPacket room uid = { room with packets } := by
  unfold openRedPacket
  split
  · exact ⟨room.packets, rfl⟩
  · split_ifs
    · exact ⟨room.packets, rfl⟩
    · exact ⟨room.packets, rfl⟩
    · split
      · exact ⟨room.packets, rfl⟩
      · exact ⟨_, rfl⟩

theorem moves_resume (hinv : Inv world.room (waits world)) (index : Nat)
    (rewards : List (Uid × ℚ)) :
    Moves world (Stored.step world (.base (.resume index .ok rewards))) := by
  simp only [Stored.step, Hongbao.step]
  cases hframe : world.frames[index]? with
  | none => exact .refl world
  | some frame =>
      have hfits := hinv.fits _ (mem_waits.mpr (Or.inl ⟨frame, List.mem_of_getElem? hframe, rfl⟩))
      have hmoves := Moves.of_frame hframe (resume_answered hinv.bankerType hfits rewards)
      rw [← apply_piece] at hmoves
      exact hmoves

theorem moves_base (hinv : Inv world.room (waits world)) {event : Hongbao.Event}
    (hcond : Undisturbed world (.base event)) : Moves world (Stored.step world (.base event)) := by
  cases event with
  | robBanker uid coin =>
      rcases robBanker_eq uid coin with ⟨next, heq, hnone⟩ | ⟨heq, hbanker⟩
      · exact .refused heq hnone
      · exact .asks heq trivial fun h => absurd hbanker h
  | biaoBanker uid coin =>
      rcases biaoBanker_eq uid coin with ⟨next, heq, hnone⟩ | ⟨hbiao, ⟨-, heq⟩ | ⟨-, heq⟩⟩
      · exact .refused heq hnone
      · exact .asks heq hbiao fun _ => rfl
      · exact .asks heq hbiao fun _ => rfl
  | downBanker uid =>
      rcases downBankerCmd_eq uid with ⟨next, heq, hnone⟩ | ⟨-, -, heq⟩
      · exact .refused heq hnone
      · exact .asks heq rfl fun _ => rfl
  | betting uid data =>
      simp only [Stored.step, Hongbao.step]
      cases betting world.room uid data with
      | error reply => exact .refl world
      | ok req =>
          dsimp only
          split
          · exact .of_room rfl (.refl _) rfl rfl (List.prefix_refl _)
          · exact moves_startBet world.queue req
  | dequeue =>
      simp only [Stored.step, Hongbao.step]
      split
      next req rest hfree hqueue => exact moves_startBet rest req
      next => exact .refl world
  | resume index answer rewards =>
      have hok : answer = .ok := hcond
      subst hok
      exact moves_resume hinv index rewards
  | resumeBet answer => exact moves_resumeBet answer
  | tick values => exact moves_tick hinv hcond
  | openRedPacket uid =>
      obtain ⟨packets, hroom⟩ := openRedPacket_eq world.room uid
      simp only [Stored.step, Hongbao.step, hroom]
      exact .of_room rfl (.of_eq rfl rfl rfl rfl rfl) rfl rfl (List.prefix_refl _)
  | setOffline uid isOffline =>
      exact .of_room rfl (.of_eq rfl rfl rfl rfl rfl) rfl rfl (List.prefix_refl _)
  | setBankerType bankerType =>
      have htype : bankerType = some 1 := hcond
      exact .of_room rfl ⟨fun _ => htype, id, id, id⟩ rfl rfl (List.prefix_refl _)
  | setZhuangxian bankerCt userCt =>
      exact .of_room rfl (.of_eq rfl rfl rfl rfl rfl) rfl rfl (List.prefix_refl _)

/-- **What an event does.** -/
theorem step_moves (hinv : Inv world.room (waits world)) (hcond : Undisturbed world event) :
    Moves world (Stored.step world event) := by
  cases event with
  | base event => exact moves_base hinv hcond
  | held index =>
      simp only [Stored.step]
      split
      next => exact .refl world
      next frame hframe =>
        split
        next => exact .refl world
        next room query hhold =>
          have hfits :=
            hinv.fits _ (mem_waits.mpr (Or.inl ⟨frame, List.mem_of_getElem? hframe, rfl⟩))
          exact .of_frame hframe (hold_answered hfits hhold)
  | heldTick => exact moves_heldTick hinv hcond
  | queried index values rewards =>
      simp only [Stored.step]
      split
      next => exact .refl world
      next query hquery =>
        have hfits := hinv.fits _ (mem_waits.mpr (Or.inr ⟨query, List.mem_of_getElem? hquery, rfl⟩))
        refine .of_query hquery (queried_answered hinv.bankerType hfits
          (fun h => hcond ?_) values rewards)
        rw [hquery]
        exact h.imp (congrArg some) (congrArg some)
  | raised index =>
      simp only [Stored.step]
      cases hquery : world.held[index]? with
      | none =>
          rw [List.eraseIdx_of_length_le (List.getElem?_eq_none_iff.mp hquery)]
          exact .refl world
      | some query =>
          obtain ⟨hrest, hsub⟩ := mem_of_eraseIdx hquery
          refine .raised rfl (fun other h => ?_) (fun other h hpassing => ?_) rfl
          · rcases mem_waits.mp h with hframe | ⟨other, hother, rfl⟩
            · exact mem_waits.mpr (Or.inl hframe)
            · exact mem_waits.mpr (Or.inr ⟨other, hsub other hother, rfl⟩)
          · rcases mem_waits.mp h with hframe | ⟨other, hother, rfl⟩
            · exact mem_waits.mpr (Or.inl hframe)
            · rcases hrest other hother with rfl | hkept
              · rcases hcond _ hquery with rfl | rfl
                · rcases hpassing with h | h <;> cases h
                · rcases hpassing with h | h <;> cases h
              · exact mem_waits.mpr (Or.inr ⟨other, hkept, rfl⟩)

theorem Moves.inv (hmoves : Moves world world') (hinv : Inv world.room (waits world)) :
    Inv world'.room (waits world') := by
  cases hmoves with
  | quiet next keeps step banker waits fits _ _ _ =>
      refine ⟨keeps.bankerType hinv.bankerType, keeps.seated hinv.seated, fun wait h => ?_,
        fun h => ?_⟩
      · rcases (waits wait).mp h with hold | hnew
        · exact (hinv.fits wait hold).mono keeps
        · exact (fits wait hnew).mono keeps
      · rw [banker]
        refine (hinv.closing (step.symm.trans h)).imp_right fun ⟨wait, hmem, hpassing⟩ => ?_
        exact ⟨wait, (waits wait).mpr (Or.inl hmem), hpassing⟩
  | answered wait piece mem answered room kept waits next _ _ =>
      rw [room]
      refine ⟨answered.keeps.bankerType hinv.bankerType, answered.keeps.seated hinv.seated,
        fun other h => ?_, fun h => ?_⟩
      · rcases waits other h with hold | hnew
        · exact (hinv.fits other hold).mono answered.keeps
        · exact answered.fits other hnew
      · rcases answered.closing h with hnone | hrobbed | ⟨hbanker, hwait⟩
        · exact Or.inl hnone
        · exact Or.inr ⟨_, next _ hrobbed, Or.inr rfl⟩
        rcases hinv.closing (answered.ended h) with hnone | ⟨other, hmem, hpassing⟩
        · exact Or.inl (hbanker.trans hnone)
        rcases kept other hmem with rfl | hkept
        · have hcloses := hpassing.resolve_right hwait
          refine (answered.passes hcloses).imp_right fun ⟨other, hother, hcloses'⟩ => ?_
          exact ⟨other, next other hother, Or.inl hcloses'⟩
        · exact Or.inr ⟨other, hkept, hpassing⟩
  | ticked piece none stepped room waits _ =>
      rw [room]
      refine ⟨stepped.bankerType, stepped.seated,
        fun other h => stepped.fits other ((waits other).mp h),
        fun h => (stepped.closing h).imp_right fun ⟨other, hother, hcloses⟩ => ?_⟩
      exact ⟨other, (waits other).mpr hother, Or.inl hcloses⟩
  | raised room waits kept _ =>
      rw [room]
      refine ⟨hinv.bankerType, hinv.seated, fun other h => hinv.fits other (waits other h),
        fun h => ?_⟩
      refine (hinv.closing h).imp_right fun ⟨other, hmem, hpassing⟩ => ?_
      exact ⟨other, kept other hmem hpassing, hpassing⟩

theorem Inv.step (hinv : Inv world.room (waits world)) (hcond : Undisturbed world event) :
    Inv (Stored.step world event).room (waits (Stored.step world event)) :=
  (step_moves hinv hcond).inv hinv

theorem Inv.start (info : RoomInfo) : Inv (start info).room (waits (start info)) := by
  refine ⟨rfl, fun _ huid => (by cases huid), fun wait hmem => ?_, fun h => (by cases h)⟩
  exact absurd hmem List.not_mem_nil

end Step

section Runs

variable {world world' : Stored.World} {event : Stored.Event} {called : Nat}

/-- A round has ended, and its banker has not stepped down yet. A step-down that the database holds
was accepted since. -/
structure Leaving (called : Nat) (world : Stored.World) : Prop where
  result : world.room.gameStep = .result
  closing : ∃ wait ∈ waits world, closes wait = true
  robs : ∀ wait ∈ waits world, robs wait = false
  held : ∀ startFailed, .query (.down startFailed) ∈ waits world →
    SteppedDown (world.log.drop called)
  called : called ≤ world.log.length

theorem SteppedDown.mono {log log' : List ServiceCall} (hdown : SteppedDown (log.drop called))
    (hcalled : called ≤ log.length) (hlog : log <+: log') : SteppedDown (log'.drop called) := by
  obtain ⟨more, rfl⟩ := hlog
  obtain ⟨uid, coin, hmem⟩ := hdown
  refine ⟨uid, coin, ?_⟩
  rw [List.drop_append_of_le_length hcalled]
  exact List.mem_append_left _ hmem

theorem SteppedDown.of_drop {log : List ServiceCall} {n : Nat} (hcalled : called ≤ n)
    (hdown : SteppedDown (log.drop n)) : SteppedDown (log.drop called) := by
  obtain ⟨uid, coin, hmem⟩ := hdown
  exact ⟨uid, coin, List.drop_subset_drop_left _ hcalled hmem⟩

/-- A round ends with a step of the machine, for which nothing was waited for. -/
theorem Moves.ends (hmoves : Moves world world') (hround : world.room.gameStep ≠ .result)
    (hended : world'.room.gameStep = .result) (hbanker : world'.room.banker ≠ none) :
    Leaving world'.log.length world' := by
  cases hmoves with
  | quiet next keeps step => exact absurd (step.symm.trans hended) hround
  | answered wait piece mem answered room =>
      exact absurd (answered.ended (room ▸ hended)) hround
  | ticked piece none stepped room waits log =>
      rw [room] at hended hbanker
      obtain ⟨wait, hwait, hcloses⟩ := (stepped.closing hended).resolve_left hbanker
      have honly : ∀ other ∈ EveryRound.waits world', other = wait := fun other h =>
        Option.some.inj (((waits other).mp h).symm.trans hwait)
      refine ⟨room ▸ hended, ⟨wait, (waits wait).mpr hwait, hcloses⟩, fun other h => ?_,
        fun startFailed h => ?_, le_refl _⟩
      · rw [honly other h]
        exact robs_of_closes hcloses
      · exact absurd ((waits _).mp h) (stepped.held startFailed)
  | raised room => exact absurd (room ▸ hended) hround

/-- **The banker goes on leaving until he is gone.** -/
theorem Moves.leaving (hmoves : Moves world world') (hleaving : Leaving called world)
    (hbanker : world.room.banker ≠ none) : world'.room.banker = none ∨ Leaving called world' := by
  cases hmoves with
  | quiet next keeps step banker waits fits robs held log =>
      obtain ⟨wait, hmem, hcloses⟩ := hleaving.closing
      refine Or.inr ⟨step.trans hleaving.result, ⟨wait, (waits wait).mpr (Or.inl hmem), hcloses⟩,
        fun other h => ?_, fun startFailed h => ?_, hleaving.called.trans log.length_le⟩
      · rcases (waits other).mp h with hold | hnew
        · exact hleaving.robs other hold
        · exact robs hbanker other hnew
      · have hold := ((waits _).mp h).resolve_right (held startFailed)
        exact (hleaving.held startFailed hold).mono hleaving.called log
  | answered wait piece mem answered room kept waits next log down =>
      have hrobs := hleaving.robs wait mem
      rw [room]
      by_cases hnone : piece.1.banker = none
      · exact Or.inl hnone
      right
      refine ⟨?_, ?_, fun other h => ?_, fun startFailed h => ?_,
        hleaving.called.trans log.length_le⟩
      · rw [room]
        exact answered.result hrobs hleaving.result
      · obtain ⟨other, hmem, hcloses⟩ := hleaving.closing
        rcases kept other hmem with rfl | hkept
        · obtain ⟨other, hother, hcloses'⟩ := (answered.passes hcloses).resolve_left hnone
          exact ⟨other, next other hother, hcloses'⟩
        · exact ⟨other, hkept, hcloses⟩
      · rcases waits other h with hold | hnew
        · exact hleaving.robs other hold
        · exact answered.robs hrobs other hnew
      · rcases waits _ h with hold | hnew
        · exact (hleaving.held startFailed hold).mono hleaving.called log
        · obtain ⟨uid, coin, hwait⟩ := answered.held startFailed hnew
          exact (down uid coin startFailed hwait).of_drop hleaving.called
  | ticked piece none =>
      obtain ⟨wait, hmem, -⟩ := hleaving.closing
      rw [none] at hmem
      cases hmem
  | raised room waits kept log =>
      obtain ⟨wait, hmem, hcloses⟩ := hleaving.closing
      refine Or.inr ⟨room ▸ hleaving.result, ⟨wait, kept wait hmem (Or.inl hcloses), hcloses⟩,
        fun other h => hleaving.robs other (waits other h), fun startFailed h => ?_, ?_⟩
      · rw [log]
        exact hleaving.held startFailed (waits _ h)
      · rw [log]
        exact hleaving.called

/-- Only a step-down takes the banker away. -/
theorem Moves.steppedDown (hmoves : Moves world world') (hleaving : Leaving called world)
    (hbanker : world.room.banker ≠ none) (hnone : world'.room.banker = none) :
    SteppedDown (world'.log.drop called) := by
  cases hmoves with
  | quiet next keeps step banker => exact absurd (banker.symm.trans hnone) hbanker
  | answered wait piece mem answered room kept waits next log down =>
      have hdowns := answered.leaves hbanker (room ▸ hnone)
      cases wait with
      | service frame =>
          cases frame with
          | down uid coin startFailed =>
              exact (down uid coin startFailed rfl).of_drop hleaving.called
          | _ => cases hdowns
      | query query =>
          cases query with
          | down startFailed => exact (hleaving.held startFailed mem).mono hleaving.called log
          | _ => cases hdowns
  | ticked piece none stepped room =>
      exact absurd (stepped.banker.symm.trans (room ▸ hnone)) hbanker
  | raised room => exact absurd (room ▸ hnone) hbanker

theorem Leaving.steps_down (later : List Stored.Event) :
    ∀ world, Inv world.room (waits world) → Leaving called world → world.room.banker ≠ none →
      Run.Along Stored.step Undisturbed world later →
      (Run.exec Stored.step world later).room.gameStep = .bet →
      ∃ n, (Run.exec Stored.step world (later.take n)).room.banker = none ∧
        SteppedDown ((Run.exec Stored.step world (later.take n)).log.drop called) := by
  induction later with
  | nil =>
      intro world hinv hleaving _ _ hbet
      exact absurd (hleaving.result.symm.trans hbet) (by simp)
  | cons event later ih =>
      intro world hinv hleaving hbanker halong hbet
      have hmoves := step_moves hinv halong.1
      by_cases hnone : (Stored.step world event).room.banker = none
      · exact ⟨1, hnone, hmoves.steppedDown hleaving hbanker hnone⟩
      · obtain ⟨n, hgone, hdown⟩ := ih (Stored.step world event) (hinv.step halong.1)
          ((hmoves.leaving hleaving hbanker).resolve_left hnone) hnone halong.2 hbet
        exact ⟨n + 1, hgone, hdown⟩

/-- **No banker stays on.** In a room of the first type in which all calls succeed and no handler
waits for longer than a step lasts, the banker steps down between the end of a round and the next
bets. -/
theorem banker_steps_down (info : RoomInfo) (events later : List Stored.Event)
    (ending : Stored.Event)
    (halong : Run.Along Stored.step Undisturbed (start info) (events ++ ending :: later))
    (hround : (Run.exec Stored.step (start info) events).room.gameStep ≠ .result)
    (hended : (Run.exec Stored.step (start info) (events ++ [ending])).room.gameStep = .result)
    (hbet : (Run.exec Stored.step (start info) (events ++ ending :: later)).room.gameStep = .bet) :
    ∃ n, (Run.exec Stored.step (start info) (events ++ ending :: later.take n)).room.banker = none ∧
      ((Run.exec Stored.step (start info) (events ++ [ending])).room.banker ≠ none →
        SteppedDown ((Run.exec Stored.step (start info) (events ++ ending :: later.take n)).log.drop
          (Run.exec Stored.step (start info) (events ++ [ending])).log.length)) := by
  have hinv : Inv (Run.exec Stored.step (start info) events).room
      (waits (Run.exec Stored.step (start info) events)) :=
    @Run.invariant _ _ Stored.step Undisturbed (fun world => Inv world.room (waits world))
      (fun _ _ hinv hcond => hinv.step hcond) events (start info) (Inv.start info) halong.of_append
  simp only [Run.exec_append, Run.exec_cons, Run.exec_nil] at hended hbet ⊢
  have hnext := halong.of_append_right
  by_cases hbanker : (Stored.step (Run.exec Stored.step (start info) events) ending).room.banker =
    none
  · exact ⟨0, hbanker, fun h => absurd hbanker h⟩
  · have hmoves := step_moves hinv hnext.1
    obtain ⟨n, hgone, hdown⟩ := (hmoves.ends hround hended hbanker).steps_down later _
      (hinv.step hnext.1) hbanker hnext.2 hbet
    exact ⟨n, hgone, fun _ => hdown⟩

def ticks (n : Nat) : List Stored.Event := (countDown n).map .base

/-- A round with five bettors, up to its settlement. -/
def playedRound : List Stored.Event :=
  [.base (.robBanker 1 100000), .base (.resume 0 .ok []), .held 0, .queried 0 (fun _ => none) []] ++
    ticks 11 ++
    (List.range 5).flatMap (fun u =>
      [.base (.betting (u + 2) ⟨some 2, none, some 10⟩), .base (.resumeBet .ok)]) ++ ticks 116

/-- The settlement, with all its answers from the database late, a new banker and the next bets. -/
def nextRound : List Stored.Event :=
  [.queried 0 (fun _ => none) [], .base (.resume 0 .ok []), .held 0,
      .queried 0 (fun _ => none) []] ++
    ticks 3 ++ [.queried 0 (fun _ => none) [(2, 5)], .held 0, .queried 0 (fun _ => none) []] ++
    [.held 0, .queried 0 (fun _ => none) [], .base (.robBanker 2 100), .base (.resume 0 .ok []),
      .held 0, .queried 0 (fun _ => none) []] ++ ticks 11

theorem banker_steps_down_playedRound :
    ∃ n, (Run.exec Stored.step (start {})
        (playedRound ++ .heldTick :: nextRound.take n)).room.banker = none ∧
      ((Run.exec Stored.step (start {}) (playedRound ++ [.heldTick])).room.banker ≠ none →
        SteppedDown ((Run.exec Stored.step (start {})
          (playedRound ++ .heldTick :: nextRound.take n)).log.drop
            (Run.exec Stored.step (start {}) (playedRound ++ [.heldTick])).log.length)) :=
  banker_steps_down {} playedRound nextRound .heldTick (by decide +kernel) (by decide +kernel)
    (by decide +kernel) (by decide +kernel)

/-- A round in which nobody bets, up to the moment when it is called off. -/
def emptyRound : List Stored.Event :=
  [.base (.robBanker 1 1000), .base (.resume 0 .ok []), .base (.resume 0 .ok [])] ++ ticks 73

/-- The room diamonds are returned, and twenty-one seconds later they are frozen again. -/
def sameBanker : List Stored.Event :=
  [.base (.resume 0 .ok [])] ++ ticks 21 ++ [.base (.resume 0 .ok [])]

/-- **After a round without bets the banker stays on.** -/
theorem banker_stays_on :
    (Run.exec Stored.step (start {}) emptyRound).room.gameStep = .result ∧
      (Run.exec Stored.step (start {}) (emptyRound ++ sameBanker)).room.gameStep = .bet ∧
      ∀ n ≤ sameBanker.length,
        (Run.exec Stored.step (start {}) (emptyRound ++ sameBanker.take n)).room.banker =
        some 1 := by
  decide +kernel

end Runs

end EveryRound

end SdyServer.Hongbao
