import SdyServer.Pk10.Agreement

/-!
# Whose result is paid

`g.result` is never reset, so a settlement pays whatever result is there. It is the round's own when
the timer goes through the phases: the draw comes while the cars race, the comparison follows it,
and the settlement follows the comparison. A draw that is late, a comparison that is missed and one
that raises all leave the result of an earlier round in its place.
-/

namespace SdyServer.Pk10

section Statement

def doorData (placed : List Placed) : BetDoorData :=
  placed.foldl (fun data bet => addDoorBet data bet.door bet.uid bet.value) ∅

def doorTotals (placed : List Placed) : LuaTable Door Int :=
  placed.foldl (fun totals bet => addTotal totals bet.door bet.value) ∅

/-- `getResult` of what is remembered. -/
def Source.computed (info : RoomInfo) (source : Source) : Lua Result :=
  getResult info.calculatedBits (some (doorData source.placed)) (some (doorTotals source.placed))
    source.kjHao source.bankerSeat source.banker

structure Source.Fresh (source : Source) (round : Nat) : Prop where
  placed : ∀ bet ∈ source.placed, bet.round = round
  drawn : source.drawn = some round
  text : ∃ kj, source.kjHao = .text kj

/-- A settlement that books a win or a loss books a result computed from the bets of its round and
from a draw received in its round. -/
def PaysOwnRound (world : World) : Event → Prop
  | .enter round .result =>
      world.room.gameStep ≠ .result → (∃ acct ∈ resultAccts world.room, acct.winLoss ≠ 0) →
        ∃ source computed, world.source = some source ∧
          source.computed world.room.info = .ok computed ∧ world.room.result = some computed ∧
          source.Fresh round
  | _ => True

/-- Whether the comparison can be computed: it comes to no total that is a text, and without a
banker and with bets on several doors no total is below zero. -/
structure Room.comparable (room : Room) : Prop where
  number : room.comparesText = false
  total : room.bankerSeat.isSome ∨ room.betDoors ≤ 1 ∨
    ∀ total ∈ (room.totalBetValueList.getD ∅).entries.map Prod.snd, 0 ≤ total

/-- What a new round may find: no bet on its way and none left over, except that `bet_start` clears
what is left. -/
def World.cleared (world : World) (status : GameStep) : Prop :=
  (∀ job ∈ world.job.toList ++ world.queue, job.isBet = false) ∧
    (world.room.betDoors = 0 ∨ status = .betStart ∧ world.room.gameStep ≠ .betStart)

/-- The timer goes through the phases: a round begins without bets of another one, the race begins
without an old draw, the comparison follows the draw of its round, and a settlement of several doors
follows the comparison. A reconnection finds the phase the timer is in. -/
def Orderly (world : World) : Event → Prop
  | .enter round status =>
      (round = world.clock ∨ world.cleared status) ∧
      (status = .kaijiang →
        (world.room.gameStep = .kaijiang ∧ round = world.clock) ∨ world.room.isKj = false) ∧
      (status = .bipai → round = world.clock ∧
        (world.room.gameStep = .bipai ∨
          world.room.gameStep = .kaijiang ∧ world.room.isKj = true ∧
            world.room.kjHao ≠ .emptyTable ∧ world.room.comparable)) ∧
      (status = .result →
        world.room.gameStep = .result ∨ world.room.betDoors ≤ 1 ∨
          world.room.gameStep = .bipai ∧ round = world.clock)
  | .reconn status _ => status = world.room.gameStep
  | _ => True

instance (room : Room) : Decidable room.comparable :=
  decidable_of_iff (_ ∧ (_ ∨ _ ∨ _)) ⟨fun h => ⟨h.1, h.2⟩, fun h => ⟨h.number, h.total⟩⟩

instance (world : World) (status : GameStep) : Decidable (world.cleared status) :=
  inferInstanceAs (Decidable (_ ∧ _))

instance decidableOrderly (world : World) : ∀ event, Decidable (Orderly world event)
  | .enter _ _ => inferInstanceAs (Decidable (_ ∧ _ ∧ _ ∧ _))
  | .reconn _ _ => inferInstanceAs (Decidable (_ = _))
  | .poll _ | .robBanker _ _ | .downBanker _ | .betting _ _ _ | .dequeue | .resumeJob _ _
  | .resume _ _ | .setOffline _ _ => isTrue trivial

end Statement

section Bets

theorem addDoorBet_synced {data : BetDoorData} {totals : LuaTable Door Int}
    (hsynced : Synced data totals) (door : Door) (uid : Uid) (value : Int) :
    Synced (addDoorBet data door uid value) (addTotal totals door value) := by
  intro door'
  simp only [addDoorBet, addTotal, LuaTable.get_set]
  split_ifs with hdoor
  · subst hdoor
    have hsum : sumPeople (((data.get door).getD ∅).set uid
        ((((data.get door).getD ∅).get uid).getD 0 + value)) =
          sumPeople ((data.get door).getD ∅) + value := by
      rw [sumPeople, LuaTable.sum_entries_set Prod.snd, sumPeople]
      cases ((data.get door).getD ∅).get uid with
      | none => simp
      | some bet => simp; ring
    rw [Option.map_some, hsum, hsynced door]
    cases data.get door with
    | none => rfl
    | some people => rfl
  · exact hsynced door'

theorem synced_foldl (placed : List Placed) {data : BetDoorData} {totals : LuaTable Door Int}
    (hsynced : Synced data totals) :
    Synced (placed.foldl (fun data bet => addDoorBet data bet.door bet.uid bet.value) data)
      (placed.foldl (fun totals bet => addTotal totals bet.door bet.value) totals) := by
  induction placed generalizing data totals with
  | nil => exact hsynced
  | cons bet placed ih => exact ih (addDoorBet_synced hsynced bet.door bet.uid bet.value)

theorem synced_placed (placed : List Placed) : Synced (doorData placed) (doorTotals placed) :=
  synced_foldl placed fun _ => rfl

theorem keys_foldl_ne_nil (placed : List Placed) {data : BetDoorData} (hdata : data.keys ≠ []) :
    (placed.foldl (fun data bet => addDoorBet data bet.door bet.uid bet.value) data).keys ≠ [] := by
  induction placed generalizing data with
  | nil => exact hdata
  | cons bet placed ih =>
      apply ih
      apply List.ne_nil_of_mem (a := bet.door)
      exact (LuaTable.mem_keys_set ..).mpr (Or.inl rfl)

theorem placed_eq_nil {placed : List Placed} (hsize : (doorData placed).size = 0) :
    placed = [] := by
  cases placed with
  | nil => rfl
  | cons bet placed =>
      have hkeys : (addDoorBet ∅ bet.door bet.uid bet.value).keys ≠ [] := by
        apply List.ne_nil_of_mem (a := bet.door)
        exact (LuaTable.mem_keys_set ..).mpr (Or.inl rfl)
      have hne := keys_foldl_ne_nil placed hkeys
      rw [← LuaTable.length_keys, List.length_eq_zero_iff] at hsize
      exact absurd hsize hne

end Bets

section Computed

theorem exists_doorShares {round : ℚ → ℚ} {coinChange total : Int} {people : List (Uid × Int)}
    (hwithin : |coinChange| ≤ total) :
    ∃ shares, doorShares round coinChange (some total) people = .ok shares := by
  by_cases hempty : people = []
  · exact ⟨[], by simp only [doorShares, if_pos hempty]; rfl⟩
  · simp only [doorShares, if_neg hempty]
    by_cases hall : total = |coinChange|
    · rw [if_pos hall]
      exact ⟨_, rfl⟩
    · rw [if_neg hall, if_pos (lt_of_le_of_ne hwithin (Ne.symm hall))]
      exact ⟨_, rfl⟩

theorem exists_mapM {α β : Type} {f : α → Lua β} {l : List α}
    (hf : ∀ a ∈ l, ∃ b, f a = .ok b) : ∃ r, l.mapM f = .ok r := by
  induction l with
  | nil => exact ⟨[], rfl⟩
  | cons a l ih =>
      obtain ⟨b, hb⟩ := hf a (List.mem_cons_self ..)
      obtain ⟨r, hr⟩ := ih fun x hx => hf x (List.mem_cons_of_mem _ hx)
      exact ⟨b :: r, by rw [List.mapM_cons, hb, Lua.ok_bind, hr, Lua.ok_bind]; rfl⟩

theorem exists_doorsOutcome {round : ℚ → ℚ} {betData : BetDoorData} {totals : LuaTable Door Int}
    {tmp : List Info}
    (hsynced : Synced betData totals) (htmp : ∀ info ∈ tmp, info.totalBet = totals.get info.door)
    (hpos : ∀ info ∈ tmp, 0 ≤ info.totalBet.getD 0) :
    ∃ result, doorsOutcome round betData tmp = .ok result := by
  obtain ⟨hfst, hbounded, -⟩ := settleDoors_fresh tmp
  have hdoors : ∃ doors, (settleDoors tmp (tmp.map fun info => info.totalBet.getD 0)).mapM
      (fun door => do
        return (door.1.door, ← doorShares round door.2 door.1.totalBet
          (peopes betData door.1.door))) =
      (.ok doors : Lua (List (Door × List Share))) := by
    apply exists_mapM
    intro door hdoor
    have hmem : door.1 ∈ tmp := by
      rw [← hfst]
      exact List.mem_map_of_mem hdoor
    have hwithin := (hbounded door hdoor).1 (hpos door.1 hmem)
    obtain ⟨shares, hshares⟩ : ∃ shares,
        doorShares round door.2 door.1.totalBet (peopes betData door.1.door) = .ok shares := by
      cases htotal : door.1.totalBet with
      | none =>
          have hnone : betData.get door.1.door = none := by
            rw [htmp door.1 hmem, hsynced] at htotal
            exact Option.map_eq_none_iff.mp htotal
          refine ⟨[], ?_⟩
          have hempty : peopes betData door.1.door = [] := by simp [peopes, hnone]
          simp only [doorShares, if_pos hempty]
          rfl
      | some total =>
          rw [htotal] at hwithin
          exact exists_doorShares hwithin
    exact ⟨_, by rw [hshares]; rfl⟩
  obtain ⟨doors, hdoors⟩ := hdoors
  exact ⟨_, Lua.bind_eq_ok.mpr ⟨doors, hdoors, rfl⟩⟩

def Room.seated (room : Room) : Prop :=
  ∀ seat, room.bankerSeat = some seat → room.banker.isSome ∧
    ∃ i ∈ List.range' 1 (getSeatCount room.info.calculatedBits), seat = (i : Door)

theorem exists_computed {room : Room} {kj : Draw} (hkj : room.kjHao = .text kj)
    (hsynced : Synced (room.betDoorData.getD ∅) (room.totalBetValueList.getD ∅))
    (hseated : room.seated)
    (htotal : room.bankerSeat.isSome ∨ room.betDoors ≤ 1 ∨
      ∀ total ∈ (room.totalBetValueList.getD ∅).entries.map Prod.snd, 0 ≤ total) :
    ∃ computed, room.computed = .ok computed := by
  let round : Round := ⟨room, kj, hkj, hsynced⟩
  suffices houtcome : ∃ result, outcome (room.betDoorData.getD ∅) round.tmp round.bankerInfo
      room.banker = .ok result by
    obtain ⟨result, hresult⟩ := houtcome
    have heq : room.computed = _ := round.computed_eq
    rw [heq]
    exact ⟨_, Lua.bind_eq_ok.mpr ⟨result, hresult, rfl⟩⟩
  cases hseat : room.bankerSeat with
  | some seat =>
      obtain ⟨hbanker, i, hi, hdoor⟩ := hseated seat hseat
      have hinfo : round.bankerInfo.isSome := by
        rw [Round.bankerInfo, List.find?_isSome]
        exact ⟨_, List.mem_map_of_mem hi, by simp [round, hseat, hdoor, doorInfo]⟩
      obtain ⟨bankerInfo, hinfo⟩ := Option.isSome_iff_exists.mp hinfo
      obtain ⟨banker, hbanker⟩ := Option.isSome_iff_exists.mp hbanker
      exact ⟨_, by rw [hinfo, hbanker]; rfl⟩
  | none =>
      have hinfo : round.bankerInfo = none := by
        rw [Round.bankerInfo, List.find?_eq_none]
        intro info _
        simp [round, hseat]
      rw [hinfo]
      by_cases hdoors : (room.betDoorData.getD ∅).size > 1
      · have htotals : ∀ total ∈ (room.totalBetValueList.getD ∅).entries.map Prod.snd, 0 ≤
            total := by
          rcases htotal with h | h | h
          · rw [hseat] at h
            cases h
          · exact absurd hdoors (not_lt.mpr h)
          · exact h
        have hmem : ∀ info ∈ round.tmp,
            info.totalBet = (room.totalBetValueList.getD ∅).get info.door := fun info h =>
          totalBet_of_mem_doorInfos (List.mem_of_mem_filter (round.tmp_perm.mem_iff.mp h))
        have hpos : ∀ info ∈ round.tmp, 0 ≤ info.totalBet.getD 0 := by
          intro info h
          rw [hmem info h]
          cases htotal : (room.totalBetValueList.getD ∅).get info.door with
          | none => exact le_refl 0
          | some total =>
              exact htotals total
                (List.mem_map_of_mem ((LuaTable.get_eq_some_iff _).mp htotal))
        obtain ⟨result, hresult⟩ := exists_doorsOutcome hsynced hmem hpos
        exact ⟨result, by rw [outcome, if_pos hdoors]; exact hresult⟩
      · exact ⟨_, if_neg hdoors⟩

end Computed

section Invariant

/-- The records are the remembered bets, all of the clock's round, as are the bets on their way. A
draw taken in the race is of the round, and so is the result once the comparison is entered. -/
structure Inv (world : World) : Prop where
  doors : world.room.betDoorData.getD ∅ = doorData world.placed
  totals : world.room.totalBetValueList.getD ∅ = doorTotals world.placed
  tags : ∀ bet ∈ world.placed, bet.round = world.clock
  jobs : ∀ job ∈ world.job.toList ++ world.queue, ∀ req round, job = .bet req round →
    round = world.clock
  drawn : world.room.gameStep = .kaijiang → world.room.isKj = true →
    world.drawn = some world.clock ∧ world.room.kjHao ≠ .nil
  result : world.room.gameStep = .bipai → ∃ source computed, world.source = some source ∧
    source.computed world.room.info = .ok computed ∧ world.room.result = some computed ∧
    source.Fresh world.clock
  seated : world.room.seated

theorem Inv.fresh (info : RoomInfo) : Inv (World.fresh info) where
  doors := rfl
  totals := rfl
  tags := fun bet hbet => absurd hbet List.not_mem_nil
  jobs := fun job hjob => absurd hjob List.not_mem_nil
  drawn := fun h => by cases h
  result := fun h => by cases h
  seated := fun seat h => by cases h

/-- The records of the round are as they were, or all of them are gone. -/
def KeepsBets (room room' : Room) : Prop :=
  (room'.betDoorData = room.betDoorData ∧
    room'.totalBetValueList.getD ∅ = room.totalBetValueList.getD ∅) ∨
  (room'.betDoorData = none ∧ room'.totalBetValueList.getD ∅ = ∅)

structure Outside (room room' : Room) : Prop where
  info : room'.info = room.info
  gameStep : room'.gameStep = room.gameStep
  isKj : room'.isKj = room.isKj
  kjHao : room'.kjHao = room.kjHao ∨ room'.kjHao = .emptyTable
  result : room'.result = room.result
  seated : room.seated → room'.seated
  bets : KeepsBets room room'

theorem Outside.refl (room : Room) : Outside room room :=
  ⟨rfl, rfl, rfl, Or.inl rfl, rfl, id, Or.inl ⟨rfl, rfl⟩⟩

theorem setRoom_bets {world : World} (hinv : Inv world) {room : Room}
    (hbets : KeepsBets world.room room) :
    room.betDoorData.getD ∅ = doorData (world.setRoom room).placed ∧
      room.totalBetValueList.getD ∅ = doorTotals (world.setRoom room).placed ∧
      ∀ bet ∈ (world.setRoom room).placed, bet ∈ world.placed := by
  rcases hbets with ⟨hdoors, htotals⟩ | ⟨hdoors, htotals⟩
  · by_cases hnone : room.betDoorData.isNone
    · -- Without records there was nothing to remember.
      have hempty : world.placed = [] := by
        apply placed_eq_nil
        rw [← hinv.doors, ← hdoors, Option.isNone_iff_eq_none.mp hnone]
        rfl
      simp only [World.setRoom, hnone, if_true]
      refine ⟨?_, ?_, fun bet hbet => absurd hbet List.not_mem_nil⟩
      · rw [hdoors, hinv.doors, hempty]
      · rw [htotals, hinv.totals, hempty]
    · have hplaced : (world.setRoom room).placed = world.placed := if_neg hnone
      rw [hplaced]
      exact ⟨by rw [hdoors, hinv.doors], by rw [htotals, hinv.totals], fun bet hbet => hbet⟩
  · simp only [World.setRoom, hdoors, htotals, Option.isNone_none, if_true]
    exact ⟨rfl, rfl, fun bet hbet => absurd hbet List.not_mem_nil⟩

theorem Inv.setRoom {world : World} (hinv : Inv world) {room : Room}
    (houtside : Outside world.room room) : Inv (world.setRoom room) := by
  obtain ⟨hdoors, htotals, hplaced⟩ := setRoom_bets hinv houtside.bets
  refine ⟨hdoors, htotals, fun bet hbet => hinv.tags bet (hplaced bet hbet), hinv.jobs, ?_, ?_,
    houtside.seated hinv.seated⟩
  · intro hstep hkj
    obtain ⟨hdrawn, hkjHao⟩ := hinv.drawn (houtside.gameStep.symm.trans hstep)
      (houtside.isKj.symm.trans hkj)
    refine ⟨hdrawn, ?_⟩
    show room.kjHao ≠ .nil
    rcases houtside.kjHao with h | h
    · rwa [h]
    · simp [h]
  · intro hstep
    obtain ⟨source, computed, hsource, hcomputed, hresult, hfresh⟩ :=
      hinv.result (houtside.gameStep.symm.trans hstep)
    refine ⟨source, computed, hsource, ?_, houtside.result.trans hresult, hfresh⟩
    show source.computed room.info = .ok computed
    rwa [houtside.info]

theorem Inv.of_frames {world : World} (hinv : Inv world) (frames : List Frame)
    (log : List ServiceCall) : Inv { world with frames, log } :=
  { hinv with }

theorem Inv.apply {world : World} (hinv : Inv world) {slice : Slice}
    (houtside : Outside world.room slice.1) : Inv (world.apply slice) :=
  (hinv.setRoom houtside).of_frames _ _

theorem Inv.book {world : World} (hinv : Inv world) (answer : Answer) (call : ServiceCall) :
    Inv (world.book answer call) := by
  cases answer with
  | ok => exact hinv.of_frames world.frames _
  | b002 dec => exact hinv
  | error dec => exact hinv

end Invariant

section Handlers

theorem outside_clearBets (room : Room) (kjHao : KjHao)
    (hkj : kjHao = room.kjHao ∨ kjHao = .emptyTable) :
    Outside room { clearBets room with kjHao } :=
  ⟨rfl, rfl, rfl, hkj, rfl, fun hseated => hseated, Or.inr ⟨rfl, rfl⟩⟩

theorem outside_gameRoundOver (room : Room) : Outside room (gameRoundOver room) :=
  outside_clearBets room .emptyTable (Or.inr rfl)

theorem outside_downBankerAnswered (room : Room) (answer : Answer) :
    Outside room (downBankerAnswered room answer) := by
  cases answer with
  | ok => exact ⟨rfl, rfl, rfl, Or.inl rfl, rfl, fun _ seat h => (by cases h), Or.inl ⟨rfl, rfl⟩⟩
  | b002 dec => exact Outside.refl room
  | error dec => exact Outside.refl room

theorem Outside.trans {room room' room'' : Room} (h : Outside room room')
    (h' : Outside room' room'') : Outside room room'' where
  info := h'.info.trans h.info
  gameStep := h'.gameStep.trans h.gameStep
  isKj := h'.isKj.trans h.isKj
  kjHao := by
    rcases h'.kjHao with hkj | hkj
    · exact h.kjHao.imp (hkj.trans ·) (hkj.trans ·)
    · exact Or.inr hkj
  result := h'.result.trans h.result
  seated := fun hseated => h'.seated (h.seated hseated)
  bets := by
    rcases h'.bets with ⟨hdoors, htotals⟩ | hnone
    · rcases h.bets with ⟨hdoors', htotals'⟩ | ⟨hdoors', htotals'⟩
      · exact Or.inl ⟨hdoors.trans hdoors', htotals.trans htotals'⟩
      · exact Or.inr ⟨hdoors.trans hdoors', htotals.trans htotals'⟩
    · exact Or.inr hnone

theorem outside_resultStored (room : Room) : Outside room (resultStored room).1 := by
  unfold resultStored
  cases room.banker with
  | none => exact outside_gameRoundOver room
  | some banker =>
      simp only
      split_ifs
      · exact Outside.refl room
      · exact outside_gameRoundOver room
      · exact Outside.refl room

theorem outside_resultPaid (room : Room) : Outside room (resultPaid room).1 := by
  unfold resultPaid
  split_ifs
  · exact Outside.refl room
  · exact outside_resultStored room

theorem outside_resume (room : Room) (answer : Answer) (frame : Frame) :
    Outside room (resume room answer frame).1 := by
  cases frame with
  | down uid coin => exact outside_downBankerAnswered room answer
  | result userAccts =>
      cases answer with
      | ok => exact outside_resultPaid room
      | b002 dec => exact outside_gameRoundOver room
      | error dec => exact outside_gameRoundOver room
  | resultDown uid coin =>
      exact (outside_downBankerAnswered room answer).trans (outside_gameRoundOver _)

/-- The answer of the cache is taken, with its data, or changes nothing. -/
theorem updateCjAnswered_cases (room : Room) (cj : CjData) :
    (room.takesDraw cj = true ∧ ∃ data, updateCjAnswered room cj =
        { room with isKj := true, kjHao := .text data, round := some cj.number }) ∨
      (room.takesDraw cj = false ∧ updateCjAnswered room cj = room) := by
  unfold Room.takesDraw updateCjAnswered
  cases cj.data with
  | none => exact Or.inr ⟨rfl, rfl⟩
  | some data =>
      by_cases hnew : room.round ≠ some cj.number ∧ room.isKj = false
      · exact Or.inl ⟨by simp [hnew], data, by simp [hnew]⟩
      · refine Or.inr ⟨by simpa using hnew, ?_⟩
        simp only
        rw [if_neg hnew]

theorem Inv.drawAnswered {world : World} (hinv : Inv world) (cj : CjData) :
    Inv (world.drawAnswered cj) := by
  rcases updateCjAnswered_cases world.room cj with ⟨htakes, data, hroom⟩ | ⟨htakes, hroom⟩
  · simp only [World.drawAnswered, htakes, if_true, hroom]
    exact { hinv with drawn := fun hstep _ => ⟨if_pos hstep, by simp⟩ }
  · simp only [World.drawAnswered, htakes, hroom]
    exact hinv

theorem poll_of_kaijiang {world : World} (hstep : world.room.gameStep = .kaijiang) (cj : CjData) :
    step world (.poll cj) = world.drawAnswered cj := by
  simp [step, World.drawAnswered, updateCjData, hstep]

theorem poll_of_ne {world : World} (hstep : world.room.gameStep ≠ .kaijiang) (cj : CjData) :
    step world (.poll cj) = { world with room := { world.room with isKj := false } } := by
  simp [step, updateCjData, hstep]

theorem Inv.poll {world : World} (hinv : Inv world) (cj : CjData) :
    Inv (step world (.poll cj)) := by
  by_cases hstep : world.room.gameStep = .kaijiang
  · rw [poll_of_kaijiang hstep]
    exact hinv.drawAnswered cj
  · rw [poll_of_ne hstep]
    exact { hinv with drawn := fun h => absurd h hstep }

/-- Handing a job to the queue, or letting it run up to its call, writes no record. -/
theorem outside_startJob (room : Room) (job : Job) :
    Outside room (startJob room job).1 ∧
      (startJob room job).1.betDoorData = room.betDoorData ∧
      ∀ job', (startJob room job).2 = some job' → ∀ req round, job' = .bet req round →
        ∃ req', job = .bet req' round := by
  cases job with
  | rob uid coin =>
      refine ⟨Outside.refl room, rfl, fun job' hjob req round hbet => ?_⟩
      simp only [startJob] at hjob
      split_ifs at hjob
      cases hjob
      cases hbet
  | bet req round =>
      have hbeter : Outside room (beter room req).1 ∧
          (beter room req).1.betDoorData = room.betDoorData := by
        have hset : Outside room { room with betData := some (room.betData.getD ∅) } :=
          ⟨rfl, rfl, rfl, Or.inl rfl, rfl, fun hseated => hseated, Or.inl ⟨rfl, rfl⟩⟩
        simp only [beter]
        split_ifs
        · exact ⟨hset, rfl⟩
        · exact ⟨hset, rfl⟩
        · split
          · exact ⟨hset, rfl⟩
          · split_ifs
            · exact ⟨hset, rfl⟩
            · exact ⟨hset, rfl⟩
      simp only [startJob]
      split_ifs
      · exact ⟨Outside.refl room, rfl, fun job' hjob => by cases hjob⟩
      · refine ⟨hbeter.1, hbeter.2, fun job' hjob req' round' hbet => ?_⟩
        obtain ⟨req'', -, rfl⟩ := Option.map_eq_some_iff.mp hjob
        cases hbet
        exact ⟨req, rfl⟩

theorem setRoom_eq {world : World} (hinv : Inv world) {room : Room}
    (hdoors : room.betDoorData = world.room.betDoorData) :
    world.setRoom room = { world with room } := by
  unfold World.setRoom
  congr 1
  split_ifs with hnone
  · rw [hdoors] at hnone
    symm
    apply placed_eq_nil
    rw [← hinv.doors, Option.isNone_iff_eq_none.mp hnone]
    rfl
  · rfl

/-- The job that holds the queue was sent in the clock's round if it is a bet. -/
theorem Inv.start {world : World} (hinv : Inv world) {job : Job}
    (hjob : ∀ req round, job = .bet req round → round = world.clock) :
    Inv (world.start job) := by
  obtain ⟨houtside, hdoors, hbet⟩ := outside_startJob world.room job
  have hroom := hinv.setRoom houtside
  rw [setRoom_eq hinv hdoors] at hroom
  refine { hroom with jobs := ?_ }
  intro job' hmem req round hreq
  rcases List.mem_append.mp hmem with hmem | hmem
  · obtain ⟨req', heq⟩ := hbet job' (Option.mem_toList.mp hmem) req round hreq
    exact hjob req' round heq
  · exact hinv.jobs job' (List.mem_append_right _ hmem) req round hreq

theorem Inv.enqueue {world : World} (hinv : Inv world) {job : Job}
    (hjob : ∀ req round, job = .bet req round → round = world.clock) :
    Inv (world.enqueue job) := by
  unfold World.enqueue
  split_ifs
  · refine { hinv with jobs := ?_ }
    intro job' hmem req round hreq
    rw [← List.append_assoc, List.mem_append] at hmem
    rcases hmem with hmem | hmem
    · exact hinv.jobs job' hmem req round hreq
    · rw [List.mem_singleton.mp hmem] at hreq
      exact hjob req round hreq
  · exact hinv.start hjob

theorem Inv.dropJob {world : World} (hinv : Inv world) : Inv { world with job := none } :=
  { hinv with jobs := fun job hmem => hinv.jobs job (List.mem_append_right _ hmem) }

/-- The dice choose one of the doors. -/
theorem exists_getBankerSeat (calculatedBits : CalculatedBits) (saizi : Nat × Nat) :
    ∃ i ∈ List.range' 1 (getSeatCount calculatedBits), getBankerSeat calculatedBits saizi =
    (i : Door) := by
  have hcount : 0 < getSeatCount calculatedBits := by
    cases calculatedBits <;> decide
  simp only [getBankerSeat]
  split_ifs
  · exact ⟨_, List.mem_range'_1.mpr ⟨by omega, by omega⟩, rfl⟩
  · have hlt := Nat.mod_lt (saizi.1 + saizi.2) hcount
    exact ⟨_, List.mem_range'_1.mpr ⟨by omega, by omega⟩, rfl⟩

theorem seated_robBanker {room : Room} (hseated : room.seated) (uid : Uid) (coin : ℚ)
    (saizi : Nat × Nat) (answer : Answer) :
    (robBankerAnswered room uid coin saizi answer).seated := by
  cases answer with
  | ok =>
      intro seat hseat
      cases hseat
      exact ⟨rfl, exists_getBankerSeat room.info.calculatedBits saizi⟩
  | b002 dec => exact hseated
  | error dec => exact hseated

theorem beterAnswered_cases (room : Room) (req : BetRequest) (answer : Answer) :
    (Outside room (beterAnswered room req answer).1 ∧
      (beterAnswered room req answer).1.betDoorData = room.betDoorData ∧
      (beterAnswered room req answer).2 ≠ .done) ∨
    ∃ kept betData door, Outside room kept ∧ kept.betDoorData = room.betDoorData ∧
      kept.totalBetValueList = room.totalBetValueList ∧ req.betType = some door ∧
      beterAnswered room req answer =
        (recordBet kept betData req.uid door req.betValue req.isText, .done) := by
  cases answer with
  | b002 dec => exact Or.inl ⟨Outside.refl room, rfl, by simp [beterAnswered]⟩
  | error dec => exact Or.inl ⟨Outside.refl room, rfl, by simp [beterAnswered]⟩
  | ok =>
      cases hdata : room.betData with
      | none => exact Or.inl (by simp [beterAnswered, hdata, Outside.refl])
      | some betData =>
          have hset : ∀ betData', Outside room { room with betData := some betData' } := fun _ =>
            ⟨rfl, rfl, rfl, Or.inl rfl, rfl, fun hseated => hseated, Or.inl ⟨rfl, rfl⟩⟩
          simp only [beterAnswered, hdata]
          split
          next error hreduce => exact Or.inl ⟨hset _, rfl, by simp⟩
          next kept hreduce =>
              have hkept : Outside room kept ∧ kept.betDoorData = room.betDoorData ∧
                  kept.totalBetValueList = room.totalBetValueList := by
                unfold reduceSurplus at hreduce
                split_ifs at hreduce
                · cases hreduce
                  exact ⟨hset _, rfl, rfl⟩
                · obtain ⟨⟨list, surplus⟩, -, hreduce⟩ := Lua.bind_eq_ok.mp hreduce
                  obtain ⟨door, -, hreduce⟩ := Lua.bind_eq_ok.mp hreduce
                  cases hreduce
                  exact ⟨⟨rfl, rfl, rfl, Or.inl rfl, rfl, fun hseated => hseated,
                    Or.inl ⟨rfl, rfl⟩⟩, rfl, rfl⟩
              obtain ⟨houtside, hdoors, htotals⟩ := hkept
              split
              next hdoor =>
                  refine Or.inl ⟨?_, hdoors, by simp⟩
                  exact { houtside with bets := Or.inl ⟨hdoors, by simp [htotals]⟩ }
              next door hdoor => exact Or.inr ⟨kept, _, door, houtside, hdoors, htotals, hdoor, rfl⟩

theorem doorData_append (placed : List Placed) (bet : Placed) :
    doorData (placed ++ [bet]) = addDoorBet (doorData placed) bet.door bet.uid bet.value := by
  simp [doorData]

theorem doorTotals_append (placed : List Placed) (bet : Placed) :
    doorTotals (placed ++ [bet]) = addTotal (doorTotals placed) bet.door bet.value := by
  simp [doorTotals]

theorem Inv.finish {world : World} (hinv : Inv world) {job : Job} (hjob : world.job = some job)
    (answer : Answer) (saizi : Nat × Nat) : Inv (world.finish answer saizi job) := by
  cases job with
  | rob uid coin =>
      have hroom : Outside world.room (robBankerAnswered world.room uid coin saizi answer) ∧
          (robBankerAnswered world.room uid coin saizi answer).betDoorData =
            world.room.betDoorData := by
        cases answer with
        | ok =>
            exact ⟨⟨rfl, rfl, rfl, Or.inl rfl, rfl,
              fun hseated => seated_robBanker hseated uid coin saizi .ok, Or.inl ⟨rfl, rfl⟩⟩, rfl⟩
        | b002 dec => exact ⟨Outside.refl _, rfl⟩
        | error dec => exact ⟨Outside.refl _, rfl⟩
      have hset := hinv.setRoom hroom.1
      rw [setRoom_eq hinv hroom.2] at hset
      exact hset.dropJob
  | bet req round =>
      have hround : round = world.clock :=
        hinv.jobs _ (List.mem_append_left _ (Option.mem_toList.mpr hjob)) req round rfl
      rcases beterAnswered_cases world.room req answer with
        ⟨houtside, hdoors, hdone⟩ | ⟨kept, betData, door, houtside, hdoors, htotals, hdoor, heq⟩
      · have hplaced : placedBy req round (beterAnswered world.room req answer).2 = [] := by
          cases hnext : (beterAnswered world.room req answer).2 with
          | done => exact absurd hnext hdone
          | raised error => rfl
          | refused text msgId => rfl
          | call frame => rfl
        have hset := hinv.setRoom houtside
        rw [setRoom_eq hinv hdoors] at hset
        simp only [World.finish, hplaced, List.append_nil]
        exact hset.dropJob
      · -- The bet is recorded and remembered at once.
        have hset := hinv.setRoom houtside
        rw [setRoom_eq hinv hdoors] at hset
        simp only [World.finish, heq, placedBy, hdoor, Option.map_some, Option.toList_some]
        refine { hset.dropJob with doors := ?_, totals := ?_, tags := ?_ }
        · rw [doorData_append, ← hset.doors]
          rfl
        · rw [doorTotals_append, ← hset.totals]
          rfl
        · intro bet hbet
          rcases List.mem_append.mp hbet with hbet | hbet
          · exact hinv.tags bet hbet
          · rw [List.mem_singleton.mp hbet]
            exact hround

end Handlers

section Timer

theorem enter_bets (room : Room) (status : GameStep) :
    (enter room status).1.info = room.info ∧ (enter room status).1.gameStep = status ∧
      (enter room status).1.isKj = room.isKj ∧ KeepsBets room (enter room status).1 ∧
      (room.seated → (enter room status).1.seated) := by
  unfold enter
  split_ifs with hsame
  · exact ⟨rfl, hsame, rfl, Or.inl ⟨rfl, rfl⟩, id⟩
  · cases status with
    | none => exact ⟨rfl, rfl, rfl, Or.inl ⟨rfl, rfl⟩, fun h => h⟩
    | betStart => exact ⟨rfl, rfl, rfl, Or.inr ⟨rfl, rfl⟩, fun h => h⟩
    | stepBet => exact ⟨rfl, rfl, rfl, Or.inl ⟨rfl, rfl⟩, fun h => h⟩
    | betEnd => exact ⟨rfl, rfl, rfl, Or.inl ⟨rfl, rfl⟩, fun h => h⟩
    | waitKaijiang => exact ⟨rfl, rfl, rfl, Or.inl ⟨rfl, rfl⟩, fun h => h⟩
    | kaijiang =>
        simp only [stepRun]
        split
        · exact ⟨rfl, rfl, rfl, Or.inl ⟨rfl, rfl⟩, fun h => h⟩
        · exact ⟨rfl, rfl, rfl, Or.inl ⟨rfl, rfl⟩, fun h => h⟩
    | bipai =>
        simp only [stepRun, bipai]
        split_ifs
        · exact ⟨rfl, rfl, rfl, Or.inl ⟨rfl, rfl⟩, fun h => h⟩
        · split
          · exact ⟨rfl, rfl, rfl, Or.inl ⟨rfl, rfl⟩, fun h => h⟩
          · exact ⟨rfl, rfl, rfl, Or.inl ⟨rfl, rfl⟩, fun h => h⟩
    | result =>
        simp only [stepRun, result]
        split_ifs
        · exact ⟨rfl, rfl, rfl, Or.inl ⟨rfl, rfl⟩, fun h => h⟩
        · have h := outside_resultPaid
            { room with
              gameStep := .result,
              bankerGameCoin := Room.newBankerCoin { room with gameStep := .result },
              result := Room.settledResult { room with gameStep := .result } }
          exact ⟨h.info, h.gameStep, h.isKj, h.bets, fun hseated => h.seated hseated⟩
        · exact ⟨rfl, rfl, rfl, Or.inl ⟨rfl, rfl⟩, fun h => h⟩

theorem placed_of_cleared {world : World} (hinv : Inv world) {status : GameStep}
    (hcleared : world.cleared status) :
    (world.setRoom (enter world.room status).1).placed = [] := by
  obtain ⟨-, hnone | ⟨rfl, hstep⟩⟩ := hcleared
  · have hplaced : world.placed = [] := by
      apply placed_eq_nil
      rw [← hinv.doors]
      exact hnone
    unfold World.setRoom
    split_ifs
    · rfl
    · exact hplaced
  · simp [World.setRoom, enter, hstep, stepRun, beterStart, clearBets]

/-- A bet on its way belongs to the round that the clock goes on with. -/
theorem Inv.jobs_of_enter {world : World} (hinv : Inv world) {round : Nat} {status : GameStep}
    (hround : round = world.clock ∨ world.cleared status) :
    ∀ job ∈ world.job.toList ++ world.queue, ∀ req round', job = .bet req round' →
      round' = round := by
  intro job hmem req round' hreq
  rcases hround with heq | hcleared
  · exact (hinv.jobs job hmem req round' hreq).trans heq.symm
  · have hbet := hcleared.1 job hmem
    rw [hreq] at hbet
    cases hbet

theorem Inv.enter {world : World} (hinv : Inv world) {round : Nat} {status : GameStep}
    (hcond : Orderly world (.enter round status)) : Inv (step world (.enter round status)) := by
  obtain ⟨hround, hkaijiang, hbipai, -⟩ := hcond
  obtain ⟨hinfo, hstep, hkj, hbets, hseated⟩ := enter_bets world.room status
  obtain ⟨hdoors, htotals, hplaced⟩ := setRoom_bets hinv hbets
  refine ⟨hdoors, htotals, ?_, hinv.jobs_of_enter hround, ?_, ?_, hseated hinv.seated⟩
  · intro bet hbet
    rcases hround with heq | hcleared
    · exact (hinv.tags bet (hplaced bet hbet)).trans heq.symm
    · have hnil := placed_of_cleared hinv hcleared
      exact absurd (hnil ▸ hbet : bet ∈ []) List.not_mem_nil
  · intro hstep' hkj'
    have hstatus : status = .kaijiang := hstep.symm.trans hstep'
    have hkj'' : world.room.isKj = true := hkj.symm.trans hkj'
    rcases hkaijiang hstatus with ⟨hsame, heq⟩ | hfalse
    · obtain ⟨hdrawn, hnil⟩ := hinv.drawn hsame hkj''
      refine ⟨hdrawn.trans (congrArg some heq.symm), ?_⟩
      simpa [step, World.apply, World.setRoom, Pk10.enter, hsame, hstatus] using hnil
    · rw [hfalse] at hkj''
      cases hkj''
  · intro hstep'
    have hstatus : status = .bipai := hstep.symm.trans hstep'
    obtain ⟨heq, hsame | ⟨hrace, hkj', hempty, hcomparable⟩⟩ := hbipai hstatus
    · -- The comparison has already been entered.
      obtain ⟨source, computed, hsource, hcomputed, hresult, hfresh⟩ := hinv.result hsame
      have hcomputes : world.room.computes status = false := by simp [Room.computes, hsame]
      refine ⟨source, computed, ?_, ?_, ?_, heq ▸ hfresh⟩
      · simpa [step, hcomputes] using hsource
      · rw [← hcomputed]
        exact congrArg (source.computed ·) hinfo
      · simpa [step, World.apply, World.setRoom, Pk10.enter, hsame, hstatus] using hresult
    · -- The draw of the round is there, and the result is computed from it.
      obtain ⟨hdrawn, hnil⟩ := hinv.drawn hrace hkj'
      obtain ⟨kj, htext⟩ : ∃ kj, world.room.kjHao = .text kj := by
        cases hcase : world.room.kjHao with
        | nil => exact absurd hcase hnil
        | text kj => exact ⟨kj, rfl⟩
        | emptyTable => exact absurd hcase hempty
      have hsynced : Synced (world.room.betDoorData.getD ∅)
          (world.room.totalBetValueList.getD ∅) := by
        rw [hinv.doors, hinv.totals]
        exact synced_placed world.placed
      obtain ⟨computed, hcomputed⟩ := exists_computed htext hsynced hinv.seated hcomparable.total
      have hcomputes : world.room.computes status = true := by
        simp [Room.computes, hstatus, hrace, hcomparable.number, hcomputed, Except.isOk,
          Except.toBool]
      refine ⟨world.sources, computed, ?_, ?_, ?_, ?_⟩
      · simp [step, hcomputes]
      · have hsource : world.sources.computed world.room.info = .ok computed := by
          rw [← hcomputed]
          simp only [Room.computed, Source.computed, getResult, World.sources, htext,
            Option.getD_some, hinv.doors, hinv.totals]
        rw [← hsource]
        exact congrArg (world.sources.computed ·) hinfo
      · have hne : world.room.gameStep ≠ .bipai := by simp [hrace]
        have hroom : Room.computed { world.room with gameStep := .bipai } = .ok computed :=
          hcomputed
        have hnumbers : Room.comparesText { world.room with gameStep := .bipai } = false :=
          hcomparable.number
        simp [step, World.apply, World.setRoom, Pk10.enter, hne, hstatus, stepRun, bipai, hroom,
          hnumbers]
      · exact ⟨fun bet hbet => (hinv.tags bet hbet).trans heq.symm,
          hdrawn.trans (congrArg some heq.symm), kj, htext⟩

theorem Inv.step {world : World} {event : Event} (hinv : Inv world) (hcond : Orderly world event) :
    Inv (step world event) := by
  cases event with
  | poll cj => exact hinv.poll cj
  | enter round status => exact hinv.enter hcond
  | reconn status number =>
      have hstatus : status = world.room.gameStep := hcond
      subst hstatus
      exact { hinv with }
  | robBanker uid coin =>
      simp only [Pk10.step]
      split_ifs
      · exact hinv.enqueue fun req round h => by cases h
      · exact hinv
  | downBanker uid =>
      apply hinv.apply
      unfold downBankerCmd
      split_ifs
      · exact Outside.refl _
      · exact Outside.refl _
      · exact Outside.refl _
  | betting uid betType betValue =>
      simp only [Pk10.step]
      split
      · exact hinv
      · exact hinv.enqueue fun req round h => by cases h; rfl
  | dequeue =>
      simp only [Pk10.step]
      split
      next job queue hjob hqueue =>
          have hdrop : Inv { world with queue } :=
            { hinv with jobs := fun job' hmem => hinv.jobs job' (by
                rcases List.mem_append.mp hmem with hmem | hmem
                · exact List.mem_append_left _ hmem
                · exact List.mem_append_right _ (hqueue ▸ List.mem_cons_of_mem _ hmem)) }
          apply hdrop.start
          exact hinv.jobs job (List.mem_append_right _ (hqueue ▸ List.mem_cons_self ..))
      next => exact hinv
  | resumeJob answer saizi =>
      simp only [Pk10.step]
      split
      · exact hinv
      next job hjob => exact (hinv.finish hjob answer saizi).book answer job.call
  | resume index answer =>
      simp only [Pk10.step]
      split
      · exact hinv
      next frame hframe =>
          have hdrop : Inv { world with frames := world.frames.eraseIdx index } :=
            hinv.of_frames _ world.log
          apply (hdrop.book answer frame.call).apply
          cases answer with
          | ok => exact outside_resume world.room _ frame
          | b002 dec => exact outside_resume world.room _ frame
          | error dec => exact outside_resume world.room _ frame
  | setOffline uid isOffline => exact { hinv with }

/-- A settlement without a batch goes on at once. -/
theorem result_eq_resultPaid {room : Room} (hgoes : ¬room.paidUsers.any room.stopsAt)
    (hnone : resultAccts room = []) :
    result room = resultPaid { room with
      bankerGameCoin := room.newBankerCoin, result := room.settledResult } := by
  rw [result, if_neg hgoes]
  exact if_pos hnone

theorem winLoss_of_single {room : Room} (hdoors : ¬room.betDoors > 1) {acct : UserAcct}
    (hacct : acct ∈ resultAccts room) : acct.winLoss = 0 := by
  have hpaid : room.paidUsers = [] := by
    unfold Room.paidUsers
    cases room.result with
    | none => rfl
    | some result => exact if_neg hdoors
  rw [resultAccts, hpaid, List.flatMap_nil, List.flatMap_nil, List.append_nil,
    List.append_nil] at hacct
  rcases List.mem_append.mp hacct with hacct | hacct
  · exact (stake_accts room .giveBack room.bankerGameCoin (Or.inl rfl) acct hacct).1
  · exact (stake_accts room .freeze room.newBankerCoin (Or.inr rfl) acct
      (List.mem_append_left _ hacct)).1

/-- A settlement that a permitted tick begins pays its own round. -/
theorem Inv.paysOwnRound {world : World} {event : Event} (hinv : Inv world)
    (hcond : Orderly world event) : PaysOwnRound world event := by
  cases event with
  | enter round status =>
      cases status with
      | result =>
          intro hstep ⟨acct, hacct, hpaid⟩
          obtain ⟨-, -, -, hresult⟩ := hcond
          rcases hresult rfl with h | hdoors | ⟨hbipai, heq⟩
          · exact absurd h hstep
          · exact absurd (winLoss_of_single (not_lt.mpr hdoors) hacct) hpaid
          · obtain ⟨source, computed, hsource, hcomputed, hres, hfresh⟩ := hinv.result hbipai
            exact ⟨source, computed, hsource, hcomputed, hres, heq ▸ hfresh⟩
      | _ => trivial
  | _ => trivial

end Timer

section Runs

def twoBets (first second : Uid) : List Event :=
  [.betting first (some 1) (some ⟨100, false⟩), .resumeJob .ok (1, 1),
    .betting second (some 2) (some ⟨50, false⟩), .resumeJob .ok (1, 1)]

def firstRound : List Event :=
  .enter 1 .betStart :: twoBets 2 3 ++
    [.enter 1 .waitKaijiang, .enter 1 .kaijiang, .poll ⟨some firstDraw, 100⟩, .enter 1 .bipai]

end Runs

end SdyServer.Pk10
