import Mathlib.Tactic.IntervalCases
import SdyServer.Hongbao.Settle

/-!
# Every serial event is a move

Ticks and bets join the requests and answers, and a whole serial run of the code is a run of moves.
-/

namespace SdyServer.Hongbao

variable {F : Faults} {room : Room} {bet : Option BetCall} {queue : List BetRequest}
  {log : List ServiceCall}

open Desk

section Packets

/-- A class that a single bet covers leaves another one to draw from. -/
theorem ignoreDxdsTags_ne_nil {v : Bet} (hnamed : v.subType.any dxdsNamed) :
    ∃ tags, ignoreDxdsTags [v] = .ok tags ∧ tags ≠ [] := by
  obtain ⟨type, subType, value⟩ := v
  cases subType with
  | none => simp at hnamed
  | some tag =>
      simp only [Option.any_some, dxdsNamed, Bool.and_eq_true, decide_eq_true_eq] at hnamed
      obtain ⟨hlow, hhigh⟩ := hnamed
      interval_cases tag <;> exact ⟨_, rfl, by decide⟩

theorem useEvent_sub {betData : LuaTable Uid (List Bet)} {users : List Uid}
    (h : useEvent betData = .ok users) : ∀ uid ∈ users, uid ∈ betData.keys := by
  unfold useEvent at h
  obtain ⟨picked, hpicked, h⟩ := Lua.bind_eq_ok.mp h
  cases h
  intro uid huid
  obtain ⟨out, hout, huid⟩ := List.mem_flatten.mp huid
  obtain ⟨entry, hentry, hf⟩ := (Lua.mem_of_mapM_ok hpicked out).mp hout
  have hsub : out = [] ∨ out = [entry.1] := by
    split at hf
    · split at hf
      · obtain ⟨tags, -, hf⟩ := Lua.bind_eq_ok.mp hf
        cases hf
        split
        · exact .inl rfl
        · exact .inr rfl
      · cases hf
        exact .inl rfl
    · cases hf
      exact .inl rfl
  rcases hsub with rfl | rfl
  · simp at huid
  · rw [List.mem_singleton] at huid
    rw [huid]
    exact List.mem_map_of_mem hentry

theorem mem_useEvent {betData : LuaTable Uid (List Bet)} {users : List Uid}
    (h : useEvent betData = .ok users) (hall : allDxds betData = true)
    (hwell : ∀ uid bets, betData.get uid = some bets → WellFormed bets) :
    ∀ uid ∈ betData.keys, uid ∈ users := by
  unfold useEvent at h
  obtain ⟨picked, hpicked, h⟩ := Lua.bind_eq_ok.mp h
  cases h
  intro uid huid
  obtain ⟨bets, hbets⟩ := betData.mem_keys_iff.mp huid
  have hentry := betData.get_eq_some_iff.mp hbets
  have hhead := List.all_eq_true.mp hall _ hentry
  rw [decide_eq_true_eq, Option.map_eq_some_iff] at hhead
  obtain ⟨first, hfirst, htype⟩ := hhead
  obtain ⟨hsingle, hnamed⟩ := (hwell uid bets hbets).2 first (List.mem_of_mem_head? hfirst) htype
  obtain ⟨tags, htags, hne⟩ := ignoreDxdsTags_ne_nil hnamed
  refine List.mem_flatten.mpr ⟨[uid], (Lua.mem_of_mapM_ok hpicked _).mpr ⟨_, hentry, ?_⟩, by simp⟩
  simp only [hsingle, List.head?_cons, htype, if_true, htags, Lua.ok_bind, hne, if_false]
  rfl

/-- In every mode packets go to the banker and the bettors, and to nobody else. -/
theorem packetKeys_spec {players keys : List Uid}
    (hplayers : ∀ uid, uid ∈ players ↔ room.banker = some uid ∨ uid ∈ (room.betData.getD ∅).keys)
    (hwell : ∀ uid bets, (room.betData.getD ∅).get uid = some bets → WellFormed bets)
    (h : packetKeys room players = .ok keys) (uid : Uid) :
    uid ∈ keys ↔ room.banker = some uid ∨ uid ∈ (room.betData.getD ∅).keys := by
  rw [← hplayers]
  unfold packetKeys at h
  split at h
  case isFalse =>
    cases h
    rfl
  unfold cheatKeys at h
  dsimp only at h
  split at h
  · obtain ⟨betData, hbets, h⟩ := Lua.bind_eq_ok.mp h
    obtain ⟨users, husers, h⟩ := Lua.bind_eq_ok.mp h
    obtain ⟨banker, hbanker, h⟩ := Lua.bind_eq_ok.mp h
    rw [Lua.need_eq_ok] at hbets hbanker
    have hsub := useEvent_sub husers uid
    have hplayer := hplayers uid
    simp only [hbets, hbanker, Option.getD_some, Option.some.injEq] at hplayer
    cases h
    split
    case isTrue hall =>
      have hmem := mem_useEvent husers hall (by simpa [hbets] using hwell) uid
      rw [List.mem_cons]
      grind
    case isFalse =>
      rw [List.cons_append, List.mem_cons, List.mem_append]
      grind
  · split at h
    · obtain ⟨banker, hbanker, h⟩ := Lua.bind_eq_ok.mp h
      rw [Lua.need_eq_ok] at hbanker
      have hplayer := hplayers uid
      cases h
      rw [List.mem_cons]
      grind
    · obtain ⟨betData, hbets, h⟩ := Lua.bind_eq_ok.mp h
      obtain ⟨users, husers, h⟩ := Lua.bind_eq_ok.mp h
      rw [Lua.need_eq_ok] at hbets
      have hsub := useEvent_sub husers uid
      have hplayer := hplayers uid
      simp only [hbets, Option.getD_some] at hplayer
      cases h
      rw [List.mem_append]
      grind

/-- **The packets of a round**: the banker and the bettors have one each. -/
theorem sendPacket_spec {room' : Room} {values : Uid → Option Value}
    (hinv : (room.desk none bet queue log).Inv) (hstep : room.gameStep = .send)
    (h : sendPacket room values = .ok room') :
    ∃ packets, room' = { room with packets := some packets } ∧
      ∀ uid, uid ∈ packets.keys ↔ room.banker = some uid ∨
          uid ∈ (room.totalBetData.getD ∅).keys := by
  have hopen : betsOpen room.gameStep = true := by rw [hstep]; rfl
  have hplayers : ∀ uid, uid ∈ room.players.getD [] ↔
      room.banker = some uid ∨ uid ∈ (room.betData.getD ∅).keys := hinv.players hopen
  have htotals : (room.totalBetData.getD ∅).keys = (room.betData.getD ∅).keys := hinv.totals hopen
  unfold sendPacket at h
  obtain ⟨players, hsome, h⟩ := Lua.bind_eq_ok.mp h
  obtain ⟨keys, hkeys, h⟩ := Lua.bind_eq_ok.mp h
  cases h
  refine ⟨_, rfl, fun uid => ?_⟩
  rw [Lua.need_eq_ok] at hsome
  rw [hsome, Option.getD_some] at hplayers
  rw [LuaTable.mem_keys_ofKeys, htotals]
  have hrecords : ∀ uid bets, (room.betData.getD ∅).get uid = some bets → WellFormed bets :=
    hinv.records
  exact packetKeys_spec hplayers hrecords hkeys uid

end Packets

section Ticks

theorem waitGameResult_spec {room' : Room} (h : waitGameResult room = .ok room') :
    ∃ packets packets', room.packets = some packets ∧
      room' = { room with packets := some packets' } ∧ packets'.keys = packets.keys := by
  unfold waitGameResult at h
  obtain ⟨packets, hpackets, h⟩ := Lua.bind_eq_ok.mp h
  rw [Lua.need_eq_ok] at hpackets
  dsimp only at h
  split at h
  · cases h
  · cases h
    exact ⟨packets, _, hpackets, rfl, by simp [LuaTable.keys, Function.comp_def]⟩

theorem gotoResult_move (hstep : room.gameStep = .waitResult)
    (hraise : room.settles = false → F.raise) :
    Move F (room.desk none bet queue log) (sliceDesk (gotoResult room) bet queue log) := by
  unfold gotoResult
  dsimp only
  split
  case h_1 room' settlement hsettle =>
    obtain ⟨huser, ⟨coin, rfl⟩, hbatch⟩ := settle_spec hsettle
    exact Move.settling (d := room.desk none bet queue log) settlement coin rfl hstep huser hbatch
  case h_2 error hsettle =>
    refine Move.settleRaised (d := room.desk none bet queue log) (hraise ?_) rfl hstep
    by_contra hok
    have hsettles : Room.settles { room with gameTime := 0, gameStep := .result } = true := by
      simpa [Room.settles] using hok
    obtain ⟨room', settlement, hok⟩ := settle_isOk _ hsettles
    rw [hok] at hsettle
    cases hsettle

theorem isPlayer_of_seated (hinv : (room.desk none bet queue log).Inv) {banker : Uid}
    (hbanker : room.banker = some banker) : room.isPlayer banker = true := by
  have hseated : banker ∈ room.players.getD [] := hinv.seated banker hbanker
  simpa [Room.isPlayer] using hseated

theorem gameFlowBureau_move (hinv : (room.desk none bet queue log).Inv)
    (hstep : room.gameStep = .flow) :
    Move F (room.desk none bet queue log) (sliceDesk (gameFlowBureau room) bet queue log) := by
  obtain ⟨banker, hbanker⟩ := hinv.banker_isSome (by simp [Room.desk, hstep, Idle])
  have hplayer := isPlayer_of_seated hinv hbanker
  have hslice : gameFlowBureau room =
      ({ room with gameStep := .result, gameTime := 0 }, .call (.flowReturn room.banker)) := by
    cases hplayers : room.players with
    | none => simp [Room.isPlayer, hplayers] at hplayer
    | some players =>
        have hfilter : room.banker.filter (Room.isPlayer
            { room with gameStep := .result, gameTime := 0 }) = room.banker := by
          rw [show room.banker = some banker from hbanker, Option.filter_some_pos]
          exact hplayer
        simp only [gameFlowBureau, hplayers]
        rw [← hplayers, hfilter]
  rw [hslice]
  exact Move.flowing (d := room.desk none bet queue log) rfl hstep

theorem gameOver_move (hinv : (room.desk none bet queue log).Inv)
    (hstep : room.gameStep = .result) :
    Move F (room.desk none bet queue log) (sliceDesk (gameOver room) bet queue log) := by
  unfold gameOver
  dsimp only
  split
  case h_1 banker hbanker =>
    have hplayer : Room.isPlayer { room with
        gameTime := 0, packets := none, betData := none, totalBetData := none,
        totalBetValue := none } banker = true := isPlayer_of_seated hinv hbanker
    rw [hplayer]
    by_cases hoffline : banker ∈ room.offline
    · simp only [Bool.not_true, Bool.false_eq_true, if_false, if_pos hoffline]
      exact Move.overDown (d := room.desk none bet queue log) banker rfl hstep hbanker
    · simp only [Bool.not_true, Bool.false_eq_true, if_false, if_neg hoffline]
      exact Move.overStart (d := room.desk none bet queue log) banker rfl hstep hbanker
  case h_2 hbanker => exact Move.roundOver (d := room.desk none bet queue log) rfl hstep hbanker

/-- **A tick that is due is a move.** -/
theorem stepRun_move (room : Room) (values : Uid → Option Value)
    (hinv : (room.desk none bet queue log).Inv)
    (hclosed : room.gameStep = .bet → bet = none ∧ queue = [])
    (hraise : room.gameStep = .waitResult → room.settles = false → F.raise) :
    Move F (room.desk none bet queue log) (sliceDesk (stepRun room values) bet queue log) := by
  have hadvance : ∀ step, follows room.gameStep step = true → ∀ time, Move F
      (room.desk none bet queue log)
      (({ room with gameTime := time, gameStep := step } : Room).desk none bet queue log) :=
    fun step hstep time =>
      Move.advanced (d := room.desk none bet queue log) step rfl hstep hclosed
  unfold stepRun
  cases hstep : room.gameStep with
  | none => exact .stay
  | biao => exact hadvance .biaoEnd (by rw [hstep]; rfl) 0
  | biaoEnd => exact Move.opened (d := room.desk none bet queue log) rfl hstep
  | bet => exact hadvance .betEnd (by rw [hstep]; rfl) 0
  | betEnd =>
      dsimp only
      split
      · exact hadvance .flow (by rw [hstep]; rfl) 0
      · exact hadvance .send (by rw [hstep]; rfl) 0
  | send =>
      dsimp only
      split
      case h_1 room' hsend =>
        obtain ⟨packets, rfl, hkeys⟩ := sendPacket_spec hinv hstep hsend
        obtain ⟨banker, hbanker⟩ := hinv.banker_isSome (by simp [Room.desk, hstep, Idle])
        have hplayer : Option.any (Room.isPlayer { room with packets := some packets })
            room.banker = true := by
          rw [show room.banker = some banker from hbanker]
          exact isPlayer_of_seated hinv hbanker
        rw [if_pos hplayer]
        exact Move.dealt (d := room.desk none bet queue log) packets.keys rfl hstep
          packets.nodup_keys hkeys
      case h_2 error hsend => exact .stay
  | qiang =>
      dsimp only
      split
      case h_1 room' hwait =>
        obtain ⟨packets, packets', hpackets, rfl, hkeys⟩ := waitGameResult_spec hwait
        have hmove := hadvance .waitResult (by rw [hstep]; rfl) 0
        have hsame : (({ room with gameTime := 0, gameStep := .waitResult } : Room).desk none bet
            queue log) = (({ room with
              packets := some packets', gameTime := 0, gameStep := .waitResult } : Room).desk none
                bet queue log) := by
          simp only [Room.desk, hpackets, Option.map_some, hkeys]
        rw [hsame] at hmove
        exact hmove
      case h_2 error hwait => exact .stay
  | waitResult => exact gotoResult_move hstep (hraise hstep)
  | result => exact gameOver_move hinv hstep
  | flow => exact gameFlowBureau_move hinv hstep

end Ticks

section Bets

theorem betConflict_eq_none {req : BetRequest} {v : Bet} (h : betConflict req v = none) :
    v.type = 4 ∧ req.betType = 4 ∧ v.subType ≠ req.betSubType := by
  unfold betConflict at h
  split_ifs at h with htype hfour hsub
  rw [ne_eq, not_not] at htype
  exact ⟨hfour, htype ▸ hfour, hsub⟩

/-- A bet on size and parity has a rate only on a class that there is. -/
theorem dxdsNamed_of_rate {req : BetRequest} {coin : ℚ} (h : bankerReduceCoin req = .ok coin)
    (htype : req.betType = 3) : req.betSubType.any dxdsNamed := by
  obtain ⟨tag, htag⟩ : ∃ tag, req.betSubType = some tag := by
    cases hsub : req.betSubType with
    | some tag => exact ⟨tag, rfl⟩
    | none => exact absurd ⟨.inl htype, hsub⟩ req.subTyped
  have hrate : ∃ rate, atInt [(1 : ℚ), 1, 1, 1, 2, 4, 4, 2, 5] tag = some rate := by
    simp only [bankerReduceCoin, htype, htag, getRate, getCategoryRate] at h
    norm_num at h
    cases hat : atInt [(1 : ℚ), 1, 1, 1, 2, 4, 4, 2, 5] tag with
    | some rate => exact ⟨rate, rfl⟩
    | none => simp [hat] at h
  obtain ⟨rate, hrate⟩ := hrate
  unfold atInt Lua.nth at hrate
  split_ifs at hrate with hneg hzero
  have hlt := (List.getElem?_eq_some_iff.mp hrate).1
  simp only [List.length_cons, List.length_nil] at hlt
  simp only [htag, Option.any_some, dxdsNamed, Bool.and_eq_true, decide_eq_true_eq]
  omega

theorem beterCheck_call {betData : LuaTable Uid (List Bet)} {req : BetRequest} {call : BetCall}
    (h : beterCheck room betData req = .ok (.call call)) :
    call.toBetRequest = req ∧
      (∀ v ∈ (betData.get req.uid).getD [], betConflict req v = none) ∧
      ∃ coin, bankerReduceCoin req = .ok coin := by
  unfold beterCheck at h
  split at h
  case h_1 => cases h
  case h_2 hfree =>
    obtain ⟨⟨low, high⟩, -, h⟩ := Lua.bind_eq_ok.mp h
    dsimp only at h
    split at h
    · cases h
    · obtain ⟨coin, hcoin, h⟩ := Lua.bind_eq_ok.mp h
      split at h
      · cases h
      · obtain ⟨gameCoin, -, h⟩ := Lua.bind_eq_ok.mp h
        cases h
        refine ⟨rfl, fun v hv => ?_, coin, hcoin⟩
        have hnone : ((betData.get req.uid).getD []).findSome? (betConflict req) = none := by
          cases hfound : ((betData.get req.uid).getD []).findSome? (betConflict req) with
          | none => rfl
          | some text => exact absurd hfound (hfree text)
        exact List.findSome?_eq_none_iff.mp hnone v hv

theorem beter_spec (room : Room) (req : BetRequest) :
    (beter room req).1 = { room with betData := some (room.betData.getD ∅) } ∧
      ∀ call, (beter room req).2.frame? = some call → call.uid = req.uid ∧
        ∀ d : Desk, d.bets = room.betData.getD ∅ → d.Admits call := by
  unfold beter
  dsimp only
  split
  case h_1 next hcheck =>
    refine ⟨rfl, fun call hcall => ?_⟩
    cases next with
    | done => cases hcall
    | raised error => cases hcall
    | refused text msgId => cases hcall
    | call frame =>
        cases hcall
        obtain ⟨hreq, hfree, coin, hcoin⟩ := beterCheck_call hcheck
        subst hreq
        refine ⟨rfl, fun d hd => ⟨fun v hv => ?_, dxdsNamed_of_rate hcoin⟩⟩
        rw [hd] at hv
        exact betConflict_eq_none (hfree v hv)
  case h_2 => exact ⟨rfl, fun call hcall => by cases hcall⟩

theorem betting_spec {uid : Uid} {data : BetMsg} {req : BetRequest}
    (h : betting room uid data = .ok req) :
    room.gameStep = .bet ∧ room.banker ≠ some req.uid := by
  unfold betting at h
  split_ifs at h with hstep hbanker
  split at h
  case h_1 => cases h
  case h_2 => cases h
  case h_3 =>
    split_ifs at h
    cases h
    exact ⟨not_not.mp hstep, hbanker⟩

end Bets

section Step

variable {world : World} {event : Event}

theorem World.apply_desk (hframes : world.frames = []) (slice : Slice) :
    (world.apply slice).desk = sliceDesk slice world.bet world.queue world.log := by
  simp [World.apply, World.desk, sliceDesk, hframes, Option.head?_toList]

theorem World.desk_of_idle (hframes : world.frames = []) :
    world.desk = world.room.desk none world.bet world.queue world.log := by
  simp [World.desk, hframes]

theorem World.Tidy.apply (hframes : world.frames = []) {slice : Slice}
    (hbet : world.bet ≠ none → slice.1.betData ≠ none) : (world.apply slice).Tidy where
  single := by
    simp only [World.apply, hframes, List.nil_append]
    cases slice.2.frame? <;> simp
  betData := hbet

/-- A request either is refused, or is let in where no handler waits. -/
theorem request_move {slice : Slice} (htidy : world.Tidy) (hroom : slice.1 = world.room)
    (hserial : slice.2.frame? ≠ none → world.frames = [])
    (hmove : Move F (world.room.desk none world.bet world.queue world.log)
      (sliceDesk slice world.bet world.queue world.log)) :
    (world.apply slice).Tidy ∧ Move F world.desk (world.apply slice).desk := by
  by_cases hnext : slice.2.frame? = none
  · have hsame : world.apply slice = world := by
      simp [World.apply, hnext, hroom]
    rw [hsame]
    exact ⟨htidy, .stay⟩
  · have hframes := hserial hnext
    refine ⟨.apply hframes fun h => hroom ▸ htidy.betData h, ?_⟩
    rw [World.apply_desk hframes, World.desk_of_idle hframes]
    exact hmove

theorem tick_move (htidy : world.Tidy) (hinv : world.desk.Inv) (values : Uid → Option Value)
    (hserial : Serial world (.tick values)) (hpermits : Permits F world (.tick values)) :
    (step world (.tick values)).Tidy ∧ Move F world.desk (step world (.tick values)).desk := by
  show (world.apply (run world.room values)).Tidy ∧
    Move F world.desk (world.apply (run world.room values)).desk
  cases hdue : world.room.due with
  | false =>
      have hrun : run world.room values =
          ({ world.room with gameTime := world.room.gameTime + 1 }, .done) := by
        simp [run, hdue]
      have hsame : world.apply (run world.room values) = { world with
          room := { world.room with gameTime := world.room.gameTime + 1 } } := by
        simp [World.apply, hrun, Next.frame?]
      rw [hsame]
      exact ⟨⟨htidy.single, htidy.betData⟩, .stay⟩
  | true =>
      obtain ⟨hframes, hclosed⟩ := hserial hdue
      have hrun : run world.room values =
          stepRun { world.room with gameTime := world.room.gameTime + 1 } values := by
        simp [run, hdue]
      rw [hrun, World.apply_desk hframes, World.desk_of_idle hframes]
      rw [World.desk_of_idle hframes] at hinv
      refine ⟨.apply hframes fun hbet => ?_, ?_⟩
      · have hstep : world.room.gameStep = .bet := hinv.betting (.inl hbet)
        exact absurd (hclosed hstep).1 hbet
      · exact stepRun_move { world.room with gameTime := world.room.gameTime + 1 } values hinv
          hclosed (hpermits hdue)

theorem answer_move (hinv : world.desk.Inv) {frame : Frame} {answer : Answer}
    (rewards : List (Uid × ℚ)) (hframes : world.frames = [frame])
    (hfail : answer ≠ .ok → F.fail frame)
    (hdirect : answer = .ok → startsDirectly world.room frame = true → F.robStart) :
    (step world (.resume 0 answer rewards)).Tidy ∧
      Move F world.desk (step world (.resume 0 answer rewards)).desk := by
  have hdesk : world.desk =
      world.room.desk (some frame) world.bet world.queue world.log := by
    simp [World.desk, hframes]
  have hstep : step world (.resume 0 answer rewards) = World.apply { world with
      frames := [],
      log := bookLog world.log answer (frame.call world.room.info.gameOwner) }
      (resume world.room answer rewards frame) := by
    simp [step, hframes, World.book_eq]
  rw [hdesk] at hinv
  rw [hstep, hdesk, World.apply_desk rfl]
  refine ⟨.apply rfl fun hbet => ?_, resume_move rewards _ hinv hfail hdirect⟩
  exact absurd (hinv.bet_eq_none (hinv.waits frame rfl).ne_bet) hbet

/-- A bet that takes the queue, from the client or from the queue itself. -/
theorem startBet_move {req : BetRequest} {rest : List BetRequest} (htidy : world.Tidy)
    (hfree : world.bet = none)
    (hreq : (world.room.gameStep = .bet ∧ world.room.banker ≠ some req.uid ∧ rest = world.queue) ∨
      world.queue = req :: rest) :
    ({ world with queue := rest }.startBet req).Tidy ∧
      Move F world.desk ({ world with queue := rest }.startBet req).desk := by
  obtain ⟨hroom, hnext⟩ := beter_spec world.room req
  have hstart : { world with queue := rest }.startBet req = { world with
      room := { world.room with betData := some (world.room.betData.getD ∅) },
      bet := (beter world.room req).2.frame?, queue := rest } := by
    rw [← hroom]
    rfl
  rw [hstart]
  refine ⟨⟨htidy.single, by simp⟩, ?_⟩
  refine Move.betTried (d := world.desk) req rest _ hfree hreq fun call hcall => ?_
  obtain ⟨huid, hadmits⟩ := hnext call hcall
  exact ⟨huid, hadmits world.desk rfl⟩

theorem betting_move (htidy : world.Tidy) (uid : Uid) (data : BetMsg) :
    (step world (.betting uid data)).Tidy ∧
      Move F world.desk (step world (.betting uid data)).desk := by
  simp only [step]
  cases hbet : betting world.room uid data with
  | error reply => exact ⟨htidy, .stay⟩
  | ok req =>
      obtain ⟨hstep, hbanker⟩ := betting_spec hbet
      dsimp only
      split
      case isTrue =>
        exact ⟨⟨htidy.single, htidy.betData⟩,
          Move.queued (d := world.desk) req hstep hbanker⟩
      case isFalse hbusy =>
        rw [not_or, Option.not_isSome_iff_eq_none] at hbusy
        exact startBet_move htidy hbusy.1 (.inl ⟨hstep, hbanker, rfl⟩)

theorem dequeue_move (htidy : world.Tidy) :
    (step world .dequeue).Tidy ∧ Move F world.desk (step world .dequeue).desk := by
  simp only [step]
  split
  case h_1 req rest hfree hqueue => exact startBet_move htidy hfree (.inr hqueue)
  case h_2 => exact ⟨htidy, .stay⟩

theorem resumeBet_move (htidy : world.Tidy) (answer : Answer) :
    (step world (.resumeBet answer)).Tidy ∧
      Move F world.desk (step world (.resumeBet answer)).desk := by
  simp only [step]
  cases hbet : world.bet with
  | none => exact ⟨htidy, .stay⟩
  | some bet =>
      obtain ⟨betData, hbets⟩ := Option.ne_none_iff_exists'.mp (htidy.betData (by simp [hbet]))
      dsimp only
      rw [World.book_eq]
      refine ⟨⟨htidy.single, by simp⟩, ?_⟩
      cases answer with
      | ok =>
          have hroom : (beterAnswered world.room bet .ok).1 = recordBet world.room betData bet := by
            simp only [beterAnswered, hbets]
            split <;> rfl
          have hmove := Move.betDone (F := F) (d := world.desk) bet hbet
          simp only [Desk.record, World.desk, Room.desk, hbets, Option.getD_some] at hmove
          simpa only [World.desk, Room.desk, hroom, hbets, recordBet, Option.getD_some, bookLog]
            using hmove
      | b002 dec => exact Move.betFailed (d := world.desk) bet hbet
      | error dec => exact Move.betFailed (d := world.desk) bet hbet

theorem openRedPacket_move (htidy : world.Tidy) (uid : Uid) :
    (step world (.openRedPacket uid)).Tidy ∧
      Move F world.desk (step world (.openRedPacket uid)).desk := by
  have hkeys : ∃ packets, openRedPacket world.room uid = { world.room with packets } ∧
      packets.map LuaTable.keys = world.room.packets.map LuaTable.keys := by
    unfold openRedPacket
    split
    case h_1 hnone => exact ⟨none, by rw [← hnone], by rw [hnone]⟩
    case h_2 packets hsome =>
      split_ifs
      · exact ⟨_, rfl, rfl⟩
      · exact ⟨_, rfl, rfl⟩
      · split
        case h_1 => exact ⟨_, rfl, rfl⟩
        case h_2 packet hget =>
          have hmem : uid ∈ packets.keys := packets.mem_keys_iff.mpr ⟨packet, hget⟩
          exact ⟨_, rfl, by simp [hsome, LuaTable.keys_set, hmem]⟩
  obtain ⟨packets, hroom, hkeys⟩ := hkeys
  have hsame : (step world (.openRedPacket uid)).desk = world.desk := by
    simp only [step, World.desk, hroom, Room.desk, hkeys]
  rw [hsame]
  refine ⟨⟨htidy.single, ?_⟩, .stay⟩
  simpa [step, hroom] using htidy.betData

/-- **One serial event of the code is one move of the desk.** -/
theorem step_move (htidy : world.Tidy) (hinv : world.desk.Inv) (hserial : Serial world event)
    (hpermits : Permits F world event) :
    (step world event).Tidy ∧ Move F world.desk (step world event).desk := by
  cases event with
  | robBanker uid coin =>
      have hroom : (robBanker world.room uid coin).1 = world.room := by
        rcases robBanker_eq uid coin with ⟨next, heq, -⟩ | ⟨heq, -⟩ <;> rw [heq]
      exact request_move htidy hroom hserial (robBanker_move uid coin)
  | biaoBanker uid coin =>
      have hroom : (biaoBanker world.room uid coin).1 = world.room := by
        rcases biaoBanker_eq uid coin with ⟨next, heq, -⟩ | ⟨-, ⟨-, heq⟩ | ⟨-, heq⟩⟩ <;> rw [heq]
      exact request_move htidy hroom hserial (biaoBanker_move uid coin)
  | downBanker uid =>
      have hroom : (downBankerCmd world.room uid).1 = world.room := by
        rcases downBankerCmd_eq uid with ⟨next, heq, -⟩ | ⟨-, -, heq⟩ <;> rw [heq]
      exact request_move htidy hroom hserial (downBankerCmd_move uid)
  | betting uid data => exact betting_move htidy uid data
  | dequeue => exact dequeue_move htidy
  | resume index answer rewards =>
      cases hframe : world.frames[index]? with
      | none =>
          have hsame : step world (.resume index answer rewards) = world := by
            simp [step, hframe]
          rw [hsame]
          exact ⟨htidy, .stay⟩
      | some frame =>
          -- one frame at most: the one that is answered
          obtain ⟨hlt, hget⟩ := List.getElem?_eq_some_iff.mp hframe
          obtain ⟨only, hframes⟩ := List.length_eq_one_iff.mp
            (Nat.le_antisymm htidy.single (by omega))
          obtain rfl : index = 0 := by
            rw [hframes, List.length_singleton] at hlt
            omega
          obtain rfl : only = frame := by simpa [hframes] using hframe
          obtain ⟨hfail, hdirect⟩ := hpermits only (by simp [hframes])
          exact answer_move hinv rewards hframes hfail hdirect
  | resumeBet answer => exact resumeBet_move htidy answer
  | tick values => exact tick_move htidy hinv values hserial hpermits
  | openRedPacket uid => exact openRedPacket_move htidy uid
  | setOffline uid isOffline => exact ⟨⟨htidy.single, htidy.betData⟩, .stay⟩
  | setBankerType bankerType => exact ⟨⟨htidy.single, htidy.betData⟩, .stay⟩
  | setZhuangxian bankerCt userCt => exact ⟨⟨htidy.single, htidy.betData⟩, .stay⟩

theorem World.fresh_inv (info : RoomInfo) : (World.fresh info).Tidy ∧ (World.fresh info).desk.Inv :=
  ⟨⟨Nat.zero_le _, by simp [World.fresh]⟩,
    .of_idle (.inl rfl) rfl rfl (by simp [World.fresh, World.desk, Room.desk])
      (by simp [World.fresh, World.desk, Room.desk]) (fun _ => rfl)
      (by simp [World.fresh, World.desk, Room.desk])⟩

structure World.Sound (world : World) : Prop where
  tidy : world.Tidy
  inv : world.desk.Inv

/-- **The run rule**: what holds of a fresh desk and is kept by every move that the permitted faults
allow holds of the desk of every serial run. -/
theorem serial_invariant (F : Faults) {P : Desk → Prop}
    (hfresh : ∀ info, P (World.fresh info).desk)
    (hmove : ∀ d d', d.Inv → Move F d d' → P d → P d') (info : RoomInfo) (events : List Event)
    (halong : Run.Along step (fun w e => Serial w e ∧ Permits F w e) (World.fresh info) events) :
    (Run.exec step (World.fresh info) events).Sound ∧
      P (Run.exec step (World.fresh info) events).desk := by
  have hinit : (World.fresh info).Sound ∧ P (World.fresh info).desk :=
    ⟨⟨(World.fresh_inv info).1, (World.fresh_inv info).2⟩, hfresh info⟩
  have hkeeps : ∀ w e, (w.Sound ∧ P w.desk) → (Serial w e ∧ Permits F w e) →
      ((step w e).Sound ∧ P (step w e).desk) := by
    rintro w e ⟨hsound, hP⟩ ⟨hserial, hpermits⟩
    obtain ⟨htidy, hstep⟩ := step_move hsound.tidy hsound.inv hserial hpermits
    exact ⟨⟨htidy, hsound.inv.move hstep⟩, hmove _ _ hsound.inv hstep hP⟩
  exact Run.invariant hkeeps events (World.fresh info) hinit halong

end Step

end SdyServer.Hongbao
