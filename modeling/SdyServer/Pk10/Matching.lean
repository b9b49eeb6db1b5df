import Mathlib.Algebra.Order.BigOperators.Group.List
import SdyServer.Pk10.Agreement
import SdyServer.Pk10.Ranking

/-!
# Doors against doors

Without a banker the doors play for their stakes: what one wins the others lose, nobody's change is
more than his stake, coins move only from a door to one that beats it, and the log of the transfers
adds up to the changes.
-/

namespace SdyServer.Pk10

section Statement

/-- A round that is played: bets of players on two doors or more, all positive, with the total of
each door. -/
structure Assigned (betData : BetDoorData) (totalBet : LuaTable Door Int) : Prop where
  two : 2 ≤ betData.size
  players : ∀ door people, betData.get door = some people → people.entries ≠ []
  positive : ∀ door people, betData.get door = some people → ∀ entry ∈ people.entries, 0 < entry.2
  totals : ∀ door, totalBet.get door =
    (betData.get door).map fun people => (people.entries.map Prod.snd).sum

def haoType (calculatedBits : CalculatedBits) : ℕ :=
  if getSeatCount calculatedBits = 5 then 1 else 2

/-- `result.doors` and `result.log` of `getResult`. -/
def drawDoors (calculatedBits : CalculatedBits) (betData : BetDoorData)
    (totalBet : LuaTable Door Int)
    (kj : Draw) : List (Info × Option Int) × List Transfer :=
  doorsLog betData (Lua.tableSort comparePoint (doorInfos calculatedBits totalBet kj))

/-- The changes of the doors and the log of a round, for every door once. -/
structure Fair (calculatedBits : CalculatedBits) (totalBet : LuaTable Door Int) (kj : Draw)
    (doors : List (Info × Int)) (log : List Transfer) : Prop where
  all : (doors.map Prod.fst).Perm (doorInfos calculatedBits totalBet kj)
  zero : (doors.map Prod.snd).sum = 0
  within : ∀ door ∈ doors, |door.2| ≤ (totalBet.get door.1.door).getD 0
  fromWeaker : ∀ t ∈ log, t.change ≠ 0 → 0 < t.change ∧ ∃ winner loser : ℕ,
    t.endDoor = winner ∧ t.startDoor = loser ∧ Beats kj (haoType calculatedBits) winner loser
  booked : ∀ door ∈ doors, incoming door.1.door log - outgoing door.1.door log = door.2

end Statement

section Draws

variable {calculatedBits : CalculatedBits} {betData : BetDoorData} {totalBet : LuaTable Door Int}
  {kj : Draw} {width : ℕ}

theorem doorInfos_eq (calculatedBits : CalculatedBits) (totalBet : LuaTable Door Int) (kj : Draw) :
    doorInfos calculatedBits totalBet kj =
      (List.range' 1 (getSeatCount calculatedBits)).map
        (doorInfo kj (haoType calculatedBits) totalBet) := rfl

theorem getHaos_ne_nil {i : ℕ} (hi : i ∈ List.range' 1 (getSeatCount calculatedBits)) :
    getHaos i kj.kjHaos (haoType calculatedBits) ≠ [] := by
  obtain ⟨size, hsize, hhaos⟩ := exists_getHaos kj.kjHaos (haoType calculatedBits)
  rw [List.mem_range'_1] at hi
  have hten := kj.ten
  rw [hhaos, ← List.length_pos_iff, List.length_take, List.length_drop, hten]
  cases calculatedBits with
  | c72 =>
      have hsize' : size = 2 := hsize
      have hi' : i < 6 := hi.2
      subst hsize'
      omega
  | other =>
      have hsize' : size = 5 := hsize
      have hi' : i < 3 := hi.2
      subst hsize'
      omega

theorem tmp_perm (calculatedBits : CalculatedBits) (totalBet : LuaTable Door Int) (kj : Draw) :
    (Lua.tableSort comparePoint (doorInfos calculatedBits totalBet kj)).Perm
      (doorInfos calculatedBits totalBet kj) := List.perm_insertionSort _ _

theorem tmp_nodup (calculatedBits : CalculatedBits) (totalBet : LuaTable Door Int) (kj : Draw) :
    ((Lua.tableSort comparePoint (doorInfos calculatedBits totalBet kj)).map Info.door).Nodup := by
  rw [((tmp_perm calculatedBits totalBet kj).map Info.door).nodup_iff, doorInfos_eq, List.map_map]
  exact List.Nodup.map (fun i j h => Int.ofNat.inj h) (List.nodup_range' 1)

/-- In a sorted draw an earlier door beats a later one. -/
theorem beats_of_sublist (hdistinct : kj.kjHaos.Nodup)
    (hpadded : ∀ hao ∈ kj.kjHaos, hao.length = width)
    {winner loser : Info}
    (hsub : [winner, loser].Sublist
      (Lua.tableSort comparePoint (doorInfos calculatedBits totalBet kj))) :
    ∃ i j : ℕ, winner.door = i ∧ loser.door = j ∧ Beats kj (haoType calculatedBits) i j := by
  have hperm := tmp_perm calculatedBits totalBet kj
  have hwinner := hperm.subset (hsub.subset (List.mem_cons_self ..))
  have hloser := hperm.subset (hsub.subset (by simp : loser ∈ [winner, loser]))
  rw [doorInfos_eq, List.mem_map] at hwinner hloser
  obtain ⟨i, hi, rfl⟩ := hwinner
  obtain ⟨j, hj, rfl⟩ := hloser
  suffices hbetter : comparePoint (doorInfo kj (haoType calculatedBits) totalBet i)
      (doorInfo kj (haoType calculatedBits) totalBet j) = true from
    ⟨i, j, rfl, rfl, beats_of_comparePoint hpadded (getHaos_ne_nil hi) (getHaos_ne_nil hj) hbetter⟩
  have hle := List.pairwise_iff_forall_sublist.mp (Lua.pairwise_tableSort comparePoint_iff _) hsub
  rw [comparePoint_iff]
  refine lt_of_le_of_ne hle fun hkeys => ?_
  have hmax : (doorInfo kj (haoType calculatedBits) totalBet j).haoMax =
      (doorInfo kj (haoType calculatedBits) totalBet i).haoMax := (Prod.ext_iff.mp hkeys).2
  -- Two doors with the same highest number are one door.
  have hne : i ≠ j := by
    rintro rfl
    have hnodup := hsub.nodup ((tmp_nodup calculatedBits totalBet kj).of_map)
    simp at hnodup
  have hmem : (doorInfo kj (haoType calculatedBits) totalBet i).haoMax ∈
      getHaos i kj.kjHaos (haoType calculatedBits) := (headD_tableSort (getHaos_ne_nil hi)).1
  have hmem' : (doorInfo kj (haoType calculatedBits) totalBet j).haoMax ∈
      getHaos j kj.kjHaos (haoType calculatedBits) := (headD_tableSort (getHaos_ne_nil hj)).1
  rw [hmax] at hmem'
  rw [List.mem_range'_1] at hi hj
  obtain hlt | hgt := Nat.lt_or_gt_of_ne hne
  · exact getHaos_disjoint hdistinct hi.1 hlt hmem hmem'
  · exact getHaos_disjoint hdistinct hj.1 hgt hmem' hmem

/-- A stake is what the players of the door have betted, and there is none without players. -/
theorem Assigned.stake (hassigned : Assigned betData totalBet) (door : Door) :
    0 ≤ (totalBet.get door).getD 0 := by
  rw [hassigned.totals]
  cases hpeople : betData.get door with
  | none => exact le_rfl
  | some people =>
      exact List.sum_nonneg (List.forall_mem_map.mpr fun entry hentry =>
        (hassigned.positive door people hpeople entry hentry).le)

/-- A door's change within its stake is shared out without an error. -/
theorem doorShares_isOk {round : ℚ → ℚ} {coinChange : Int} {totalBet : Option Int}
    {people : List (Uid × Int)}
    (htotal : people ≠ [] → totalBet.isSome) (hwithin : |coinChange| ≤ totalBet.getD 0) :
    ∃ shares, doorShares round coinChange totalBet people = .ok shares := by
  unfold doorShares
  by_cases hempty : people = []
  · rw [if_pos hempty]
    exact ⟨_, rfl⟩
  · rw [if_neg hempty]
    obtain ⟨total, rfl⟩ := Option.isSome_iff_exists.mp (htotal hempty)
    dsimp only
    by_cases hall : total = |coinChange|
    · rw [if_pos hall]
      exact ⟨_, rfl⟩
    · have hless : |coinChange| < total := lt_of_le_of_ne hwithin fun h => hall h.symm
      rw [if_neg hall, if_pos hless]
      exact ⟨_, rfl⟩

theorem mem_tmp_totalBet {info : Info}
    (hinfo : info ∈ Lua.tableSort comparePoint (doorInfos calculatedBits totalBet kj)) :
    info.totalBet = totalBet.get info.door :=
  totalBet_of_mem_doorInfos ((tmp_perm calculatedBits totalBet kj).subset hinfo)

end Draws

section Main

/-- The changes that `getResult` shares among the players are those it keeps with the log. -/
theorem drawDoors_eq (calculatedBits : CalculatedBits) {betData : BetDoorData}
    (totalBet : LuaTable Door Int) (kj : Draw) (htwo : 2 ≤ betData.size) {tmp : List Info}
    (htmp : tmp = Lua.tableSort comparePoint (doorInfos calculatedBits totalBet kj)) :
    drawDoors calculatedBits betData totalBet kj =
      ((settleDoors tmp (tmp.map fun info => info.totalBet.getD 0)).map
        fun door => (door.1, some door.2),
      sumResultLog ((settleDoorsLog tmp (tmp.map fun info => info.totalBet.getD 0)).2 ++
        [⟨0, 0, 0⟩])) := by
  rw [← settleDoorsLog_forget (List.length_map _).symm, drawDoors, doorsLog, htmp]
  exact if_pos htwo

theorem getDrawResult_isOk (calculatedBits : CalculatedBits) {betData : BetDoorData}
    {totalBet : LuaTable Door Int} (kj : Draw) (hassigned : Assigned betData totalBet) :
    ∃ result, getDrawResult calculatedBits betData totalBet kj none none = .ok result := by
  obtain ⟨hfst, hbounded, -⟩ := settleDoors_fresh
    (Lua.tableSort comparePoint (doorInfos calculatedBits totalBet kj))
  have hall : (doorInfos calculatedBits totalBet kj).filter
      (fun info => some info.door ≠ none) = doorInfos calculatedBits totalBet kj :=
    List.filter_eq_self.mpr fun info _ => by simp
  have hnone : (doorInfos calculatedBits totalBet kj).find? (fun info => some info.door = none) =
      none := List.find?_eq_none.mpr fun info _ => by simp
  unfold getDrawResult
  dsimp only
  rw [hall, hnone]
  unfold outcome
  dsimp only
  rw [if_pos (show betData.size > 1 from hassigned.two)]
  unfold doorsOutcome
  obtain ⟨shared, hshared⟩ := Lua.mapM_ok_of_body (f := fun door : Info × Int => do
    return (door.1.door, ← doorShares Rounding.double door.2 door.1.totalBet
      (peopes betData door.1.door)))
    (l := settleDoors (Lua.tableSort comparePoint (doorInfos calculatedBits totalBet kj))
      ((Lua.tableSort comparePoint (doorInfos calculatedBits totalBet kj)).map
        fun info => info.totalBet.getD 0)) fun door hdoor => by
    have hmem : door.1 ∈ Lua.tableSort comparePoint (doorInfos calculatedBits totalBet kj) :=
      hfst ▸ List.mem_map_of_mem hdoor
    have hstake := mem_tmp_totalBet hmem
    have htotal : peopes betData door.1.door ≠ [] → door.1.totalBet.isSome := by
      intro hpeople
      rw [hstake, hassigned.totals]
      cases hget : betData.get door.1.door with
      | some people => rfl
      | none =>
          rw [peopes, hget] at hpeople
          exact absurd rfl hpeople
    have hwithin := (hbounded door hdoor).1 (hstake ▸ hassigned.stake door.1.door)
    obtain ⟨shares, hshares⟩ := doorShares_isOk htotal hwithin
    exact ⟨(door.1.door, shares), by rw [hshares]; rfl⟩
  rw [hshared]
  exact ⟨_, rfl⟩

/-- **The doors play for their stakes**: `getResult` goes through, and its door changes and its log
belong together. -/
theorem getResult_fair (calculatedBits : CalculatedBits) (betData : BetDoorData)
    (totalBet : LuaTable Door Int) (kj : Draw) (width : ℕ) (hdistinct : kj.kjHaos.Nodup)
    (hpadded : ∀ hao ∈ kj.kjHaos, hao.length = width) (hassigned : Assigned betData totalBet) :
    (∃ result, getDrawResult calculatedBits betData totalBet kj none none = .ok result) ∧
      ∃ doors, (drawDoors calculatedBits betData totalBet kj).1 =
          doors.map (fun door => (door.1, some door.2)) ∧
        Fair calculatedBits totalBet kj doors (drawDoors calculatedBits betData totalBet kj).2 := by
  refine ⟨getDrawResult_isOk calculatedBits kj hassigned, ?_⟩
  obtain ⟨tmp, htmp⟩ : ∃ tmp, tmp =
    Lua.tableSort comparePoint (doorInfos calculatedBits totalBet kj) := ⟨_, rfl⟩
  rw [drawDoors_eq calculatedBits totalBet kj hassigned.two htmp]
  refine ⟨_, rfl, ?_⟩
  obtain ⟨hfst, hbounded, hsum⟩ := settleDoors_fresh tmp
  have hnodup : (tmp.map Info.door).Nodup := htmp ▸ tmp_nodup calculatedBits totalBet kj
  have hperm : tmp.Perm (doorInfos calculatedBits totalBet kj) :=
    htmp ▸ tmp_perm calculatedBits totalBet kj
  have hstakes : ∀ info ∈ tmp, info.totalBet = totalBet.get info.door :=
    fun info hinfo => mem_tmp_totalBet (htmp ▸ hinfo)
  have hdoors : ∀ door ∈ settleDoors tmp (tmp.map fun info => info.totalBet.getD 0),
      door.1 ∈ tmp := fun door hdoor => hfst ▸ List.mem_map_of_mem hdoor
  have hremain : (tmp.map fun info => (totalBet.get info.door).getD 0) =
      tmp.map fun info => info.totalBet.getD 0 :=
    List.map_congr_left fun info hinfo => by rw [hstakes info hinfo]
  have hbooked := @settleDoorsLog_booked tmp hnodup (fun door => (totalBet.get door).getD 0)
    (by rw [hremain]; exact stacked_self _)
  rw [hremain] at hbooked
  refine ⟨hfst.symm ▸ hperm, hsum, fun door hdoor => ?_, ?_, fun door hdoor => ?_⟩
  · rw [← hstakes door.1 (hdoors door hdoor)]
    refine (hbounded door hdoor).1 ?_
    rw [hstakes door.1 (hdoors door hdoor)]
    exact hassigned.stake door.1.door
  · have hmoves : ∀ t ∈ (settleDoorsLog tmp (tmp.map fun info => info.totalBet.getD 0)).2 ++
        [⟨0, 0, 0⟩], Moves (fun endDoor startDoor => ∃ winner loser : ℕ, endDoor = winner ∧
          startDoor = loser ∧ Beats kj (haoType calculatedBits) winner loser) t := by
      rw [List.forall_mem_append, List.forall_mem_singleton]
      refine ⟨fun t ht => ?_, le_rfl, fun h => absurd rfl h⟩
      obtain ⟨hchange, winner, loser, hsub, hend, hstart⟩ := hbooked.entries t ht
      obtain ⟨i, j, hi, hj, hbeats⟩ := beats_of_sublist hdistinct hpadded (htmp ▸ hsub)
      exact ⟨hchange.le, fun _ => ⟨i, j, hend.trans hi, hstart.trans hj, hbeats⟩⟩
    intro t ht hne
    obtain ⟨hnonneg, hrelated⟩ := moves_sumResultLog hmoves t ht
    exact ⟨lt_of_le_of_ne hnonneg hne.symm, hrelated hne⟩
  · rw [← settleDoorsLog_forget (List.length_map _).symm] at hdoor
    have hlast : net door.1.door [⟨0, 0, 0⟩] = 0 := by simp [net, incoming, outgoing]
    have hchange := hbooked.booked door hdoor
    rw [← hstakes door.1 (mem_settleDoorsLog hdoor), sub_self, add_zero] at hchange
    show net door.1.door (sumResultLog _) = _
    rw [net_sumResultLog, net_append, hlast, add_zero, hchange]

/-- Bets on the first and the fifth of five doors. -/
def twoDoors : BetDoorData :=
  LuaTable.ofKeys [1, 5] fun door => LuaTable.ofKeys [1, 2] fun _ => 10 * door

def twoTotals : LuaTable Door Int := LuaTable.ofKeys [1, 5] fun door => 20 * door

theorem fair_firstDraw :
    (∃ result, getDrawResult .c72 twoDoors twoTotals firstDraw none none = .ok result) ∧
      ∃ doors, (drawDoors .c72 twoDoors twoTotals firstDraw).1 =
          doors.map (fun door => (door.1, some door.2)) ∧
        Fair .c72 twoTotals firstDraw doors (drawDoors .c72 twoDoors twoTotals firstDraw).2 := by
  have hget : ∀ door people, twoDoors.get door = some people → (door = 1 ∨ door = 5) ∧
      people = LuaTable.ofKeys [1, 2] fun _ => 10 * door := by
    intro door people hpeople
    rw [twoDoors, LuaTable.get_ofKeys] at hpeople
    split_ifs at hpeople with hmem
    exact ⟨by simpa using hmem, (Option.some.inj hpeople).symm⟩
  refine getResult_fair .c72 twoDoors twoTotals firstDraw 2 (by decide +kernel) (by decide +kernel)
    ⟨by decide, fun door people hpeople => ?_, fun door people hpeople => ?_, fun door => ?_⟩
  · obtain ⟨rfl | rfl, rfl⟩ := hget door people hpeople <;> decide
  · obtain ⟨rfl | rfl, rfl⟩ := hget door people hpeople <;> decide
  · rw [twoTotals, twoDoors, LuaTable.get_ofKeys, LuaTable.get_ofKeys]
    split_ifs with hmem
    · simp only [List.mem_cons, List.not_mem_nil, or_false] at hmem
      obtain rfl | rfl := hmem <;> decide
    · rfl

end Main

end SdyServer.Pk10
