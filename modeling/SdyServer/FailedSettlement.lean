import SdyServer.Hongbao.Failure
import SdyServer.Pk10.Rounds

/-!
# Failed settlements of both games

A pk10 settlement changes the banker's coins before its call as well, and the round is over after it
whatever the answer. Together with the red-packet rooms: a settlement that fails loses nothing
exactly when there was nothing on record.
-/

namespace SdyServer

namespace Pk10

def Room.bettors (room : Room) : List Uid := (room.betData.getD ∅).keys

def Room.doors (room : Room) : List Door := (room.betDoorData.getD ∅).keys

def returnsAll (before : Room) : ServiceCall → Prop
  | .operatGameResultAcct userAccts => ∀ acct ∈ betBackAccts before, acct ∈ userAccts
  | _ => False

/-- A failed settlement leaves the banker's coins as they were before it, and whatever happens then,
the records stay until the coins of all bettors have been given back. -/
structure LosesNothing (before : Room) (world : World) : Prop where
  coin : world.room.bankerGameCoin = before.bankerGameCoin
  kept : ∀ events, (∀ uid ∈ before.bettors, uid ∈ (Run.exec step world events).room.bettors) ∧
      (∀ door ∈ before.doors, door ∈ (Run.exec step world events).room.doors) ∨
    ∃ call ∈ (Run.exec step world events).log.drop world.log.length, returnsAll before call

/-- The settlement of a round has begun and waits for the answer to its call. -/
def Waits (world : World) (round : Nat) : Prop :=
  ∃ frame, (step world (.enter round .result)).frames[world.frames.length]? = some frame

def refused (world : World) (round : Nat) (answer : Answer) : World :=
  step (step world (.enter round .result)) (.resume world.frames.length answer)

section Refused

variable {world : World} {round : Nat} {answer : Answer}

theorem resultPaid_of_resultAccts {room room' : Room} (hnone : resultAccts room = [])
    (hbanker : room'.banker = room.banker) : (resultPaid room').2.frame? = none := by
  have hnobody : room'.banker = none := by
    rw [hbanker]
    cases h : room.banker with
    | none => rfl
    | some banker =>
        simp [resultAccts, bankerAccts, h] at hnone
  unfold resultPaid resultStored
  split_ifs
  · rfl
  · rw [hnobody]
    rfl

theorem room_of_refused (hstep : world.room.gameStep ≠ .result) (hwaits : Waits world round)
    (hanswer : answer ≠ .ok) :
    ∃ result, (refused world round answer).room =
        gameRoundOver { world.room with
          gameStep := .result, bankerGameCoin := world.room.newBankerCoin, result } := by
  let room : Room := { world.room with gameStep := .result }
  let settled : Room :=
    { room with bankerGameCoin := room.newBankerCoin, result := room.settledResult }
  have henter : enter world.room .result = result room := by
    rw [enter, if_neg hstep]
    rfl
  have hframes : (step world (.enter round .result)).frames =
      world.frames ++ (result room).2.frame?.toList := by
    show (world.apply (enter world.room .result)).frames = _
    rw [henter]
    rfl
  have hroom : (step world (.enter round .result)).room = (result room).1 := by
    show (world.apply (enter world.room .result)).room = _
    rw [henter]
    rfl
  have hcall : result room = (settled, .call (.result (resultAccts room))) := by
    have hgoes : ¬room.paidUsers.any room.stopsAt := by
      intro hstops
      obtain ⟨frame, hframe⟩ := hwaits
      rw [hframes, result, if_pos hstops] at hframe
      simp [Next.frame?] at hframe
    by_cases hnone : resultAccts room = []
    · have hresult : result room = resultPaid settled := result_eq_resultPaid hgoes hnone
      have hdone : (resultPaid settled).2.frame? = none := resultPaid_of_resultAccts hnone rfl
      obtain ⟨frame, hframe⟩ := hwaits
      rw [hframes, hresult, hdone] at hframe
      simp at hframe
    · rw [result, if_neg hgoes]
      exact if_neg hnone
  rw [hcall] at hframes hroom
  have hget : (step world (.enter round .result)).frames[world.frames.length]? =
      some (.result (resultAccts room)) := by
    rw [hframes]
    simp [Next.frame?]
  refine ⟨room.settledResult, ?_⟩
  unfold refused
  generalize step world (.enter round .result) = called at hget hroom
  dsimp only [step]
  rw [hget]
  show (resultAnswered called.room answer).1 = _
  rw [hroom]
  cases answer with
  | ok => exact absurd rfl hanswer
  | b002 dec => rfl
  | error dec => rfl

theorem losesNothing_iff (hstep : world.room.gameStep ≠ .result) (hwaits : Waits world round)
    (hanswer : answer ≠ .ok) :
    LosesNothing world.room (refused world round answer) ↔
      world.room.bettors = [] ∧ world.room.doors = [] := by
  obtain ⟨result, hroom⟩ := room_of_refused hstep hwaits hanswer
  constructor
  · intro hloses
    rcases hloses.kept [] with ⟨hbettors, hdoors⟩ | ⟨call, hcall, -⟩
    · rw [Run.exec_nil, hroom] at hbettors hdoors
      exact ⟨List.eq_nil_iff_forall_not_mem.2 fun uid hmem => absurd (hbettors uid hmem)
        List.not_mem_nil,
        List.eq_nil_iff_forall_not_mem.2 fun door hmem => absurd (hdoors door hmem)
          List.not_mem_nil⟩
    · rw [Run.exec_nil, List.drop_length] at hcall
      exact absurd hcall List.not_mem_nil
  · rintro ⟨hbettors, hdoors⟩
    refine ⟨?_, fun events => Or.inl ⟨fun uid hmem => ?_, fun door hmem => ?_⟩⟩
    · have hsize : world.room.betDoors = 0 := by
        rw [Room.betDoors, ← LuaTable.length_keys]
        exact congrArg List.length hdoors
      have hpaid : world.room.paidUsers = [] := by
        unfold Room.paidUsers
        cases world.room.result with
        | none => rfl
        | some result =>
            dsimp only
            rw [hsize]
            rfl
      rw [hroom]
      show world.room.newBankerCoin = _
      rw [Room.newBankerCoin, hpaid]
      rfl
    · rw [hbettors] at hmem
      exact absurd hmem List.not_mem_nil
    · rw [hdoors] at hmem
      exact absurd hmem List.not_mem_nil

end Refused

end Pk10

/-- **A settlement that fails loses nothing exactly when there is nothing on record.** A
`game_result` also rounds the coins of the banker. -/
theorem losesNothing_iff_nothing_recorded (answer : Answer) (hanswer : answer ≠ .ok) :
    (∀ (world : Hongbao.World) (values : Hongbao.Uid → Option Hongbao.Value) (second : Bool),
      world.room.gameStep = .waitResult → world.room.due = true →
      Hongbao.Waits world values second →
      (Hongbao.LosesNothing world.room (Hongbao.refused world values second answer) ↔
        world.room.recorded = [] ∧ round2 world.room.bankerGameCoin = world.room.bankerGameCoin)) ∧
    (∀ (world : Hongbao.World) (values : Hongbao.Uid → Option Hongbao.Value) (second : Bool),
      world.room.gameStep = .flow → Hongbao.Waits world values second →
      (Hongbao.LosesNothing world.room (Hongbao.refused world values second answer) ↔
        world.room.recorded = [])) ∧
    ∀ (world : Pk10.World) (round : Nat), world.room.gameStep ≠ .result →
      Pk10.Waits world round →
      (Pk10.LosesNothing world.room (Pk10.refused world round answer) ↔
        world.room.bettors = [] ∧ world.room.doors = []) := by
  refine ⟨?_, ?_, ?_⟩
  · intro world values second hstep hdue hwaits
    exact Hongbao.losesNothing_result_iff hstep hdue hwaits hanswer
  · intro world values second hstep hwaits
    exact Hongbao.losesNothing_flow_iff hstep hwaits hanswer
  · intro world round hstep hwaits
    exact Pk10.losesNothing_iff hstep hwaits hanswer

/-- A round with five bettors who all win, up to the moment it is settled. -/
def decidedRun : List Hongbao.Event :=
  [.setBankerType (some 1), .robBanker 1 100000, .resume 0 .ok [], .resume 0 .ok []] ++
    Hongbao.countDown 11 ++
    (List.range 5).flatMap (fun u => [.betting (u + 2) ⟨some 2, none, some 10⟩, .resumeBet .ok]) ++
    List.replicate 116 (.tick fun uid => some (if uid = 1 then "1.23" else "1.11").toList)

def flowRun : List Hongbao.Event :=
  [.setBankerType (some 1), .robBanker 1 100000, .resume 0 .ok [], .resume 0 .ok []] ++
    Hongbao.countDown 11 ++ [.betting 2 ⟨some 2, none, some 10⟩, .resumeBet .ok] ++
      Hongbao.countDown 61

theorem not_losesNothing_recorded :
    ¬Hongbao.LosesNothing (Run.exec Hongbao.step (.fresh {}) decidedRun).room
        (Hongbao.refused (Run.exec Hongbao.step (.fresh {}) decidedRun) (fun _ => none) true
          (.error "")) ∧
      ¬Hongbao.LosesNothing (Run.exec Hongbao.step (.fresh {}) flowRun).room
        (Hongbao.refused (Run.exec Hongbao.step (.fresh {}) flowRun)
          (fun _ => none) false (.b002 "")) ∧
      ¬Pk10.LosesNothing (Run.exec Pk10.step (.fresh {}) Pk10.firstRound).room
        (Pk10.refused (Run.exec Pk10.step (.fresh {}) Pk10.firstRound) 1 (.error "")) := by
  refine ⟨fun hloses => ?_, fun hloses => ?_, fun hloses => ?_⟩
  · have hwaits : Hongbao.Waits (Run.exec Hongbao.step (.fresh {}) decidedRun)
        (fun _ => none) true :=
      Option.isSome_iff_exists.1 (by decide +kernel)
    have hnone :=
      ((losesNothing_iff_nothing_recorded (.error "") (by simp)).1 _ _ _ (by decide +kernel)
      (by decide +kernel) hwaits).1 hloses
    exact absurd hnone.1 (by decide +kernel)
  · have hwaits : Hongbao.Waits (Run.exec Hongbao.step (.fresh {}) flowRun) (fun _ => none) false :=
      Option.isSome_iff_exists.1 (by decide +kernel)
    have hnone :=
      ((losesNothing_iff_nothing_recorded (.b002 "") (by simp)).2.1 _ _ _ (by decide +kernel)
      hwaits).1 hloses
    exact absurd hnone (by decide +kernel)
  · have hwaits : Pk10.Waits (Run.exec Pk10.step (.fresh {}) Pk10.firstRound) 1 :=
      Option.isSome_iff_exists.1 (by decide +kernel)
    have hnone :=
      ((losesNothing_iff_nothing_recorded (.error "") (by simp)).2.2 _ _ (by decide +kernel)
      hwaits).1 hloses
    exact absurd hnone.1 (by decide +kernel)

/-- The second call of a settlement is refused: the banker's coins have changed, and twenty-one
ticks later the bets are gone. -/
theorem loses_bets_decidedRun :
    (Run.exec Hongbao.step (.fresh {}) decidedRun).room.bankerGameCoin = 100000 ∧
      (Hongbao.refused (Run.exec Hongbao.step (.fresh {}) decidedRun) (fun _ => none) true
        (.error "")).room.bankerGameCoin = 99950 ∧
      (Run.exec Hongbao.step (Hongbao.refused (Run.exec Hongbao.step (.fresh {}) decidedRun)
        (fun _ => none) true (.error "")) (Hongbao.countDown 21)).room.recorded = [] ∧
      ¬∀ (info : Hongbao.RoomInfo) (events : List Hongbao.Event)
          (values : Hongbao.Uid → Option Hongbao.Value) (second : Bool) (answer : Answer),
        (Run.exec Hongbao.step (.fresh info) events).room.gameStep = .waitResult →
        (Run.exec Hongbao.step (.fresh info) events).room.due = true →
        Hongbao.Waits (Run.exec Hongbao.step (.fresh info) events) values second → answer ≠ .ok →
        Hongbao.LosesNothing (Run.exec Hongbao.step (.fresh info) events).room
          (Hongbao.refused (Run.exec Hongbao.step (.fresh info) events) values second answer) := by
  have hbefore : (Run.exec Hongbao.step (.fresh {}) decidedRun).room.bankerGameCoin = 100000 := by
    decide +kernel
  have hafter : (Hongbao.refused (Run.exec Hongbao.step (.fresh {}) decidedRun) (fun _ => none) true
      (.error "")).room.bankerGameCoin = 99950 := by
    decide +kernel
  have hwaits : Hongbao.Waits (Run.exec Hongbao.step (.fresh {}) decidedRun) (fun _ => none) true :=
    Option.isSome_iff_exists.1 (by decide +kernel)
  refine ⟨hbefore, hafter, by decide +kernel, fun hall => ?_⟩
  have hloses := hall {} decidedRun (fun _ => none) true (.error "") (by decide +kernel)
    (by decide +kernel) hwaits (by simp)
  have hcoin := hloses.coin
  rw [hbefore, hafter] at hcoin
  exact absurd hcoin (by norm_num)

end SdyServer
