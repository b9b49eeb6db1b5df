import SdyServer.Hongbao.Ledger

/-!
# A settlement that fails

`game_result` and `game_flow_bureau` set the step to the result before they call the account
service, `game_result` changes the banker's coins before that too, and neither takes anything back
when a call is refused. The step machine goes on: when the time of the result is over, `game_over`
clears the records of the round.
-/

namespace SdyServer.Hongbao

section Statement

def Room.recorded (room : Room) : List Uid :=
  (room.betData.getD ∅).keys ++ (room.totalBetData.getD ∅).keys

def returnsAll (before : Room) : ServiceCall → Prop
  | .operatGameResultAcct userAccts =>
      ∀ uid ∈ before.recorded, ⟨some .giveBack, before.betCoin uid, some uid⟩ ∈ userAccts
  | _ => False

/-- A failed settlement leaves the banker's coins as they were before it, and whatever happens then,
the records stay until the coins of all bettors have been given back. -/
structure LosesNothing (before : Room) (world : World) : Prop where
  coin : world.room.bankerGameCoin = before.bankerGameCoin
  kept : ∀ events, (∀ uid ∈ before.recorded, uid ∈ (Run.exec step world events).room.recorded) ∨
    ∃ call ∈ (Run.exec step world events).log.drop world.log.length, returnsAll before call

/-- The tick that settles, and the first call accepted if it is the second one that is refused. -/
def underWay (world : World) (values : Uid → Option Value) (second : Bool) : World :=
  let called := step world (.tick values)
  if second then step called (.resume world.frames.length .ok []) else called

def Waits (world : World) (values : Uid → Option Value) (second : Bool) : Prop :=
  ∃ frame, (underWay world values second).frames[world.frames.length]? = some frame

def refused (world : World) (values : Uid → Option Value) (second : Bool) (answer : Answer) :
    World :=
  step (underWay world values second) (.resume world.frames.length answer [])

end Statement

section Clearing

variable {world : World} {values : Uid → Option Value}

theorem recorded_eq_nil_iff (room : Room) :
    room.recorded = [] ↔ (room.betData.getD ∅).entries = [] ∧
    (room.totalBetData.getD ∅).entries = [] := by
  rw [Room.recorded, List.append_eq_nil_iff, LuaTable.keys, LuaTable.keys, List.map_eq_nil_iff,
    List.map_eq_nil_iff]

theorem exec_countDown (world : World) (hstep : world.room.gameStep = .result) (n : Nat)
    (htime : world.room.gameTime + n ≤ hbReusltTime) :
    (Run.exec step world (countDown n)).room =
        { world.room with gameTime := world.room.gameTime + n } ∧
      (Run.exec step world (countDown n)).log = world.log := by
  induction n generalizing world with
  | zero => exact ⟨rfl, rfl⟩
  | succ n ih =>
      have hdue : world.room.due = false := by
        simp only [Room.due, hstep]
        exact decide_eq_false (by omega)
      have hrun : run world.room (fun _ => some "1.23".toList) =
          ({ world.room with gameTime := world.room.gameTime + 1 }, .done) := by
        rw [run, hdue]
        rfl
      have hticked : (step world (.tick fun _ => some "1.23".toList)).room =
          { world.room with gameTime := world.room.gameTime + 1 } := by
        show (run world.room _).1 = _
        rw [hrun]
      have hnext := ih (step world (.tick fun _ => some "1.23".toList))
        (by rw [hticked]; exact hstep) (by rw [hticked]; dsimp only; omega)
      rw [hticked] at hnext
      refine ⟨hnext.1.trans ?_, hnext.2⟩
      dsimp only
      rw [Nat.add_right_comm, Nat.add_assoc]

theorem gameOver_recorded (room : Room) : (gameOver room).1.recorded = [] := by
  unfold gameOver
  dsimp only
  cases room.banker with
  | none => rfl
  | some banker =>
      dsimp only
      split_ifs <;> rfl

theorem cleared_of_result (hstep : world.room.gameStep = .result)
    (htime : world.room.gameTime = 0) :
    (Run.exec step world (countDown 20 ++ countDown 1)).room.recorded = [] ∧
      (Run.exec step world (countDown 20 ++ countDown 1)).log = world.log := by
  obtain ⟨hroom, hlog⟩ := exec_countDown world hstep 20 (by rw [htime]; decide)
  rw [htime] at hroom
  rw [Run.exec_append]
  generalize Run.exec step world (countDown 20) = waited at hroom hlog
  have hdue : waited.room.due = true := by
    simp only [hroom, Room.due, hstep]
    decide
  have hrun : run waited.room (fun _ => some "1.23".toList) =
      gameOver { waited.room with gameTime := waited.room.gameTime + 1 } := by
    rw [run, if_pos hdue, stepRun]
    simp only [hroom, hstep]
  refine ⟨?_, hlog⟩
  show (run waited.room _).1.recorded = []
  rw [hrun]
  exact gameOver_recorded _

theorem recorded_of_losesNothing {before : Room} (hstep : world.room.gameStep = .result)
    (htime : world.room.gameTime = 0) (hloses : LosesNothing before world) :
    before.recorded = [] := by
  obtain ⟨hcleared, hlog⟩ := cleared_of_result hstep htime
  rcases hloses.kept (countDown 20 ++ countDown 1) with hkept | ⟨call, hcall, -⟩
  · rw [hcleared] at hkept
    exact List.eq_nil_iff_forall_not_mem.2 fun uid hmem => absurd (hkept uid hmem) List.not_mem_nil
  · rw [hlog, List.drop_length] at hcall
    exact absurd hcall List.not_mem_nil

end Clearing

section Refused

variable {world : World} {values : Uid → Option Value} {answer : Answer}

theorem step_tick_due (hdue : world.room.due = true) :
    step world (.tick values) =
      world.apply (stepRun { world.room with gameTime := world.room.gameTime + 1 } values) := by
  show world.apply (run world.room values) = _
  rw [run, if_pos hdue]

theorem step_resume_last (world : World) (room : Room) (frame : Frame) (answer : Answer) :
    step (world.apply (room, .call frame)) (.resume world.frames.length answer []) =
      ({ world with room }.book answer (frame.call room.info.gameOwner)).apply
        (resume room answer [] frame) := by
  have hget : (world.apply (room, .call frame)).frames[world.frames.length]? = some frame := by
    simp [World.apply, Next.frame?]
  have herase : (world.frames ++ [frame]).eraseIdx world.frames.length = world.frames := by
    rw [List.eraseIdx_append_of_length_le (le_refl _)]
    simp
  dsimp only [step]
  rw [hget]
  dsimp only [World.apply, Next.frame?, Option.toList]
  rw [herase]

theorem getElem?_apply_of_done (world world' : World) (hframes : world'.frames = world.frames)
    {slice : Slice} (hnone : slice.2.frame? = none) :
    (world'.apply slice).frames[world.frames.length]? = none := by
  simp [World.apply, hnone, hframes]

theorem not_waits_of_done {slice : Slice} (htick : step world (.tick values) = world.apply slice)
    (hnone : slice.2.frame? = none) (second : Bool) : ¬Waits world values second := by
  have hget : (world.apply slice).frames[world.frames.length]? = none :=
    getElem?_apply_of_done world world rfl hnone
  rintro ⟨frame, hframe⟩
  unfold underWay at hframe
  dsimp only at hframe
  rw [htick] at hframe
  cases second with
  | false => exact absurd (hget.symm.trans hframe) (by simp)
  | true =>
      rw [if_pos rfl] at hframe
      dsimp only [step] at hframe
      rw [hget] at hframe
      exact absurd (hget.symm.trans hframe) (by simp)

/-- What is left of a `game_result` whose first or second call is refused. -/
theorem room_of_refused_result (hstep : world.room.gameStep = .waitResult)
    (hdue : world.room.due = true)
    {second : Bool} (hwaits : Waits world values second) (hanswer : answer ≠ .ok) :
    ∃ room settlement, settle { world.room with gameTime := 0, gameStep := .result } = .ok
    (room, settlement) ∧
      (refused world values second answer).room = room := by
  have htick : step world (.tick values) =
      world.apply (gotoResult { world.room with gameTime := world.room.gameTime + 1 }) := by
    rw [step_tick_due hdue]
    simp only [stepRun, hstep]
  cases hsettle : settle { world.room with gameTime := 0, gameStep := .result } with
  | error error =>
      refine absurd hwaits (not_waits_of_done htick ?_ second)
      simp only [gotoResult, hsettle]
      rfl
  | ok pair =>
      obtain ⟨room, settlement⟩ := pair
      refine ⟨room, settlement, rfl, ?_⟩
      have hcalled : step world (.tick values) =
          world.apply (room, .call (.resultReduce settlement)) := by
        rw [htick]
        simp only [gotoResult, hsettle]
      unfold refused underWay
      rw [hcalled]
      cases second with
      | false =>
          rw [if_neg (by simp), step_resume_last]
          show (resultReduceAnswered room settlement answer).1 = room
          cases answer with
          | ok => exact absurd rfl hanswer
          | b002 dec => rfl
          | error dec => rfl
      | true =>
          rw [if_pos rfl, step_resume_last]
          have hlast := step_resume_last ({ world with room }.book .ok
            ((Frame.resultReduce settlement).call room.info.gameOwner)) room
              (.resultCoin settlement) answer
          refine (congrArg World.room hlast).trans ?_
          show (resultCoinAnswered room settlement [] answer).1 = room
          cases answer with
          | ok => exact absurd rfl hanswer
          | b002 dec => rfl
          | error dec => rfl

theorem gameFlowBureau_cases (room : Room) :
    (gameFlowBureau room).2.frame? = none ∨
      ∃ user, gameFlowBureau room =
        ({ room with gameStep := .result, gameTime := 0 }, .call (.flowReturn user)) := by
  unfold gameFlowBureau
  dsimp only
  split
  · exact Or.inl rfl
  · exact Or.inr ⟨_, rfl⟩

theorem flowReturnAnswered_cases (room : Room) (user : Option Uid) :
    (flowReturnAnswered room user .ok).2.frame? = none ∨
      ∃ banker userAccts, flowReturnAnswered room user .ok =
        ({ room with bankerSurplusCoin := room.bankerGameCoin },
          .call (.flowCoin banker userAccts)) := by
  cases user with
  | none => exact Or.inl rfl
  | some user =>
      dsimp only [flowReturnAnswered]
      split_ifs
      · exact Or.inl rfl
      · exact Or.inr ⟨user, _, rfl⟩

/-- What is left of a `game_flow_bureau` whose first or second call is refused. -/
theorem room_of_refused_flow (hstep : world.room.gameStep = .flow) {second : Bool}
    (hwaits : Waits world values second) (hanswer : answer ≠ .ok) :
    ∃ bankerSurplusCoin, (refused world values second answer).room =
      { world.room with gameStep := .result, gameTime := 0, bankerSurplusCoin } := by
  have hdue : world.room.due = true := by
    simp only [Room.due, hstep]
  have htick : step world (.tick values) =
      world.apply (gameFlowBureau { world.room with gameTime := world.room.gameTime + 1 }) := by
    rw [step_tick_due hdue]
    simp only [stepRun, hstep]
  rcases gameFlowBureau_cases { world.room with gameTime := world.room.gameTime + 1 } with
    hnone | ⟨user, hflow⟩
  · exact absurd hwaits (not_waits_of_done htick hnone second)
  · rw [hflow] at htick
    dsimp only at htick
    cases second with
    | false =>
        refine ⟨world.room.bankerSurplusCoin, ?_⟩
        unfold refused underWay
        rw [htick, if_neg (by simp), step_resume_last]
        show (flowReturnAnswered _ user answer).1 = _
        cases user with
        | none => rfl
        | some user =>
            cases answer with
            | ok => exact absurd rfl hanswer
            | b002 dec => rfl
            | error dec => rfl
    | true =>
        refine ⟨world.room.bankerGameCoin, ?_⟩
        let room : Room := { world.room with gameStep := .result, gameTime := 0 }
        let booked :=
          { world with room }.book .ok ((Frame.flowReturn user).call room.info.gameOwner)
        have hwaiting : underWay world values true =
            booked.apply (flowReturnAnswered room user .ok) := by
          unfold underWay
          rw [htick, if_pos rfl, step_resume_last]
          rfl
        rcases flowReturnAnswered_cases room user with hnone | ⟨user', userAccts, hcall⟩
        · obtain ⟨frame, hframe⟩ := hwaits
          have hget := getElem?_apply_of_done world booked rfl hnone
          rw [hwaiting, hget] at hframe
          exact absurd hframe (by simp)
        · unfold refused
          rw [hwaiting, hcall]
          have hlast :=
            step_resume_last booked { room with bankerSurplusCoin := room.bankerGameCoin }
            (.flowCoin user' userAccts) answer
          refine (congrArg World.room hlast).trans ?_
          show (flowCoinAnswered _ user' answer).1 = _
          cases answer with
          | ok => exact absurd rfl hanswer
          | b002 dec => rfl
          | error dec => rfl

end Refused

section Exactly

variable {world : World} {values : Uid → Option Value} {answer : Answer} {second : Bool}

/-- With nothing on record there is nothing to lose but the banker's coins. -/
theorem losesNothing_of_recorded {before : Room} (hnone : before.recorded = [])
    (hcoin : world.room.bankerGameCoin = before.bankerGameCoin) : LosesNothing before world := by
  refine ⟨hcoin, fun events => Or.inl fun uid hmem => ?_⟩
  rw [hnone] at hmem
  exact absurd hmem List.not_mem_nil

theorem settle_coin_of_recorded {room room' : Room} {settlement : Settlement}
    (hsettle : settle room = .ok (room', settlement)) (hnone : room.recorded = []) :
    room'.bankerGameCoin = round2 room.bankerGameCoin := by
  unfold settle at hsettle
  obtain ⟨result, hresult, hsettle⟩ := Lua.bind_eq_ok.mp hsettle
  obtain ⟨bankerId, -, hsettle⟩ := Lua.bind_eq_ok.mp hsettle
  cases hsettle
  obtain ⟨banker, table, packets, players, point, peoples, total, -, htable, hpeoples, rfl⟩ :=
    getResult_spec hresult
  have hentries : table.entries = [] := by
    have h := ((recorded_eq_nil_iff room).1 hnone).2
    rwa [htable] at h
  have hpeoples' : peoples = [] := by
    rw [hentries] at hpeoples
    cases hpeoples
    rfl
  subst hpeoples'
  simp [bankerCoinAfter, pumpOf]

theorem settle_room {room room' : Room} {settlement : Settlement}
    (hsettle : settle room = .ok (room', settlement)) :
    room'.gameStep = room.gameStep ∧ room'.gameTime = room.gameTime := by
  unfold settle at hsettle
  obtain ⟨result, -, hsettle⟩ := Lua.bind_eq_ok.mp hsettle
  obtain ⟨bankerId, -, hsettle⟩ := Lua.bind_eq_ok.mp hsettle
  cases hsettle
  exact ⟨rfl, rfl⟩

theorem losesNothing_result_iff (hstep : world.room.gameStep = .waitResult)
    (hdue : world.room.due = true)
    (hwaits : Waits world values second) (hanswer : answer ≠ .ok) :
    LosesNothing world.room (refused world values second answer) ↔
      world.room.recorded = [] ∧ round2 world.room.bankerGameCoin = world.room.bankerGameCoin := by
  obtain ⟨room, settlement, hsettle, hroom⟩ := room_of_refused_result hstep hdue hwaits hanswer
  obtain ⟨hresult, htime⟩ := settle_room hsettle
  constructor
  · intro hloses
    have hnone : world.room.recorded = [] :=
      recorded_of_losesNothing (by rw [hroom, hresult]) (by rw [hroom, htime]) hloses
    refine ⟨hnone, ?_⟩
    rw [← settle_coin_of_recorded hsettle hnone, ← hroom]
    exact hloses.coin
  · rintro ⟨hnone, hcents⟩
    refine losesNothing_of_recorded hnone ?_
    rw [hroom, settle_coin_of_recorded hsettle hnone]
    exact hcents

theorem losesNothing_flow_iff (hstep : world.room.gameStep = .flow)
    (hwaits : Waits world values second) (hanswer : answer ≠ .ok) :
    LosesNothing world.room (refused world values second answer) ↔ world.room.recorded = [] := by
  obtain ⟨surplus, hroom⟩ := room_of_refused_flow hstep hwaits hanswer
  constructor
  · exact recorded_of_losesNothing (by rw [hroom]) (by rw [hroom])
  · intro hnone
    refine losesNothing_of_recorded hnone ?_
    rw [hroom]

end Exactly

end SdyServer.Hongbao
