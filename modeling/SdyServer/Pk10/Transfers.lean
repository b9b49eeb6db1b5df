import SdyServer.Pk10.ResultSum

/-!
# Transfers between doors

`getResult` keeps a log of what each door takes from which lower one, for the clients to show. The
log is booked door by door: what a door has taken, less what the doors above it have taken from it,
is what it wins or loses in the end. Merging the entries of a pair of doors changes nothing of this.
-/

namespace SdyServer.Pk10

structure Transfer where
  change : Int
  startDoor : Door
  endDoor : Door
deriving DecidableEq, Repr

section Log

/-- The loop of one door over the lower ones, the lowest first, with its entries of the log. -/
def takeLowerLog (endDoor : Door) :
    Int → List (Door × Int) → Int × Int × List Int × List Transfer
  | totalBetChange, [] => (0, totalBetChange, [], [])
  | totalBetChange, (startDoor, remain) :: lower =>
      if totalBetChange > 0 ∧ remain > 0 then
        if totalBetChange > remain then
          let (coinChange, rest, remains, log) :=
            takeLowerLog endDoor (totalBetChange - remain) lower
          (remain + coinChange, rest, 0 :: remains, ⟨remain, startDoor, endDoor⟩ :: log)
        else if totalBetChange < remain then
          (totalBetChange, 0, (remain - totalBetChange) :: lower.map Prod.snd,
            [⟨totalBetChange, startDoor, endDoor⟩])
        else (remain, 0, 0 :: lower.map Prod.snd, [⟨totalBetChange, startDoor, endDoor⟩])
      else
        let (coinChange, rest, remains, log) := takeLowerLog endDoor totalBetChange lower
        (coinChange, rest, remain :: remains, log)

/-- The doors from the highest down with what remains of each, and the log. -/
def settleDoorsLog : List Info → List Int → List (Info × Int) × List Transfer
  | info :: tmp, remain :: remains =>
      let (won, totalBetChange, lower, log) :=
        takeLowerLog info.door (info.totalBet.getD 0) ((tmp.map Info.door).zip remains).reverse
      let coinChange :=
        if won = 0 then if remain = 0 then -totalBetChange else -(totalBetChange - remain) else won
      let (doors, rest) := settleDoorsLog tmp lower.reverse
      ((info, coinChange) :: doors, log ++ rest)
  | _, _ => ([], [])

def mergeTransfer (v : Transfer) : List Transfer → List Transfer
  | [] => [v]
  | v1 :: resultLog =>
      if v1.endDoor = v.endDoor ∧ v1.startDoor = v.startDoor then
        { v1 with change := v1.change + v.change } :: resultLog
      else v1 :: mergeTransfer v resultLog

/-- `sum_result_log`. -/
def sumResultLog (log : List Transfer) : List Transfer :=
  log.foldl (fun resultLog v => mergeTransfer v resultLog) []

/-- `result.doors` and `result.log` of a round without a banker. A single door has no change. -/
def doorsLog (betData : BetDoorData) (tmp : List Info) : List (Info × Option Int) × List Transfer :=
  if betData.size > 1 then
    let (doors, log) := settleDoorsLog tmp (tmp.map fun info => info.totalBet.getD 0)
    (doors.map fun door => (door.1, some door.2), sumResultLog (log ++ [⟨0, 0, 0⟩]))
  else (tmp.map fun info => (info, none), sumResultLog [⟨0, 0, 0⟩])

end Log

section Forget

theorem takeLowerLog_forget (endDoor : Door) (stake : Int) (lower : List (Door × Int)) :
    ((takeLowerLog endDoor stake lower).1, (takeLowerLog endDoor stake lower).2.1,
      (takeLowerLog endDoor stake lower).2.2.1) = takeLower stake (lower.map Prod.snd) := by
  induction lower generalizing stake with
  | nil => rfl
  | cons door lower ih =>
      rw [List.map_cons, takeLower_cons, takeLowerLog]
      split_ifs
      · rw [← ih]
      · rfl
      · rfl
      · rw [← ih]

/-- One door's turn, its coins and the rest. -/
theorem settleDoorsLog_cons (info : Info) (tmp : List Info) (remain : Int) (remains : List Int) :
    settleDoorsLog (info :: tmp) (remain :: remains) =
      let taken := takeLowerLog info.door (info.totalBet.getD 0)
        ((tmp.map Info.door).zip remains).reverse
      let settled := settleDoorsLog tmp taken.2.2.1.reverse
      ((info, if taken.1 = 0 then if remain = 0 then -taken.2.1 else -(taken.2.1 - remain)
        else taken.1) :: settled.1, taken.2.2.2 ++ settled.2) := rfl

theorem length_takeLower (stake : Int) (remains : List Int) :
    (takeLower stake remains).2.2.length = remains.length := by
  induction remains generalizing stake with
  | nil => rfl
  | cons remain remains ih =>
      rw [takeLower_cons]
      split_ifs
      · simp [ih]
      · rfl
      · rfl
      · simp [ih]

/-- Without the log it is the settlement of the doors. -/
theorem settleDoorsLog_forget {tmp : List Info} {remains : List Int}
    (hlength : tmp.length = remains.length) :
    (settleDoorsLog tmp remains).1 = settleDoors tmp remains := by
  induction tmp generalizing remains with
  | nil =>
      obtain rfl := List.length_eq_zero_iff.mp hlength.symm
      rfl
  | cons info tmp ih =>
      cases remains with
      | nil => cases hlength
      | cons remain remains =>
          rw [List.length_cons, List.length_cons, Nat.add_right_cancel_iff] at hlength
          have hforget := takeLowerLog_forget info.door (info.totalBet.getD 0)
            ((tmp.map Info.door).zip remains).reverse
          rw [List.map_reverse, List.map_snd_zip (by rw [List.length_map, hlength])] at hforget
          have hlower := length_takeLower (info.totalBet.getD 0) remains.reverse
          rw [settleDoorsLog_cons, settleDoors, ← hforget]
          rw [← hforget, List.length_reverse, ← hlength] at hlower
          exact congrArg _ (ih (by rw [List.length_reverse, hlower]))

theorem mem_settleDoorsLog {tmp : List Info} {remains : List Int} {door : Info × Int}
    (hdoor : door ∈ (settleDoorsLog tmp remains).1) : door.1 ∈ tmp := by
  induction tmp generalizing remains with
  | nil => simp [settleDoorsLog] at hdoor
  | cons info tmp ih =>
      cases remains with
      | nil => simp [settleDoorsLog] at hdoor
      | cons remain remains =>
          rw [settleDoorsLog_cons] at hdoor
          obtain rfl | hdoor := List.mem_cons.mp hdoor
          · exact List.mem_cons_self ..
          · exact List.mem_cons_of_mem _ (ih hdoor)

end Forget

section Booking

def incoming (door : Door) (log : List Transfer) : Int :=
  (log.map fun t => if t.endDoor = door then t.change else 0).sum

def outgoing (door : Door) (log : List Transfer) : Int :=
  (log.map fun t => if t.startDoor = door then t.change else 0).sum

/-- What a door has been given, less what has been taken from it. -/
def net (door : Door) (log : List Transfer) : Int := incoming door log - outgoing door log

theorem outgoing_cons (door : Door) (t : Transfer) (log : List Transfer) :
    outgoing door (t :: log) = (if t.startDoor = door then t.change else 0) + outgoing door log :=
  List.sum_cons

theorem incoming_eq_zero {door : Door} {log : List Transfer} (h : ∀ t ∈ log, t.endDoor ≠ door) :
    incoming door log = 0 := by
  refine List.sum_eq_zero (List.forall_mem_map.mpr fun t ht => if_neg (h t ht))

theorem outgoing_eq_zero {door : Door} {log : List Transfer} (h : ∀ t ∈ log, t.startDoor ≠ door) :
    outgoing door log = 0 := by
  refine List.sum_eq_zero (List.forall_mem_map.mpr fun t ht => if_neg (h t ht))

theorem net_append (door : Door) (log log' : List Transfer) :
    net door (log ++ log') = net door log + net door log' := by
  simp only [net, incoming, outgoing, List.map_append, List.sum_append]
  ring

/-- What a turn leaves of the lower doors is what they had less what the log takes from them. -/
structure TakenLog (endDoor : Door) (doors : List Door) (remain : Door → Int)
    (taken : Int × Int × List Int × List Transfer) : Prop where
  entries : ∀ t ∈ taken.2.2.2, 0 < t.change ∧ t.endDoor = endDoor ∧ t.startDoor ∈ doors
  won : (taken.2.2.2.map Transfer.change).sum = taken.1
  left : taken.2.2.1 = doors.map fun door => remain door - outgoing door taken.2.2.2

theorem takeLowerLog_spec (endDoor : Door) (stake : Int) {doors : List Door} (hnodup : doors.Nodup)
    (remain : Door → Int) :
    TakenLog endDoor doors remain
      (takeLowerLog endDoor stake (doors.map fun door => (door, remain door))) := by
  induction doors generalizing stake with
  | nil => exact ⟨by simp [takeLowerLog], rfl, rfl⟩
  | cons door doors ih =>
      rw [List.nodup_cons] at hnodup
      -- An entry that takes from this door takes nothing from those above it.
      have hfirst : ∀ change : Int, (doors.map fun other => remain other -
          outgoing other [⟨change, door, endDoor⟩]) = doors.map remain := by
        intro change
        refine List.map_congr_left fun other hother => ?_
        have hne : door ≠ other := fun h => hnodup.1 (h ▸ hother)
        simp [outgoing, hne]
      have hlater : ∀ log : List Transfer, (∀ t ∈ log, 0 < t.change ∧ t.endDoor = endDoor ∧
          t.startDoor ∈ doors) → outgoing door log = 0 := fun log hlog =>
        outgoing_eq_zero fun t ht h => hnodup.1 (h ▸ (hlog t ht).2.2)
      rw [List.map_cons, takeLowerLog]
      split_ifs with hpos hgt hlt
      · have htaken := ih (stake - remain door) hnodup.2
        rcases h : takeLowerLog endDoor (stake - remain door)
          (doors.map fun door => (door, remain door)) with ⟨coin, rest, remains, log⟩
        rw [h] at htaken
        obtain ⟨hentries, hwon, hleft⟩ := htaken
        dsimp only at hentries hwon hleft ⊢
        have hnone := hlater log hentries
        refine ⟨?_, by simp [hwon], ?_⟩
        · rw [List.forall_mem_cons]
          refine ⟨⟨hpos.2, rfl, List.mem_cons_self ..⟩, fun t ht => ?_⟩
          obtain ⟨hchange, hend, hstart⟩ := hentries t ht
          exact ⟨hchange, hend, List.mem_cons_of_mem _ hstart⟩
        · rw [List.map_cons, outgoing_cons, if_pos rfl, hnone, hleft]
          refine congrArg₂ _ (by ring) (List.map_congr_left fun other hother => ?_)
          have hne : door ≠ other := fun h => hnodup.1 (h ▸ hother)
          rw [outgoing_cons, if_neg hne, zero_add]
      · refine ⟨by simpa using hpos.1, by simp, ?_⟩
        rw [List.map_cons, hfirst, List.map_map]
        simp [outgoing, Function.comp_def]
      · have hequal : remain door = stake := by omega
        refine ⟨by simpa using hpos.1, by simp [hequal], ?_⟩
        rw [List.map_cons, hfirst, List.map_map]
        simp [outgoing, Function.comp_def, hequal]
      · have htaken := ih stake hnodup.2
        rcases h : takeLowerLog endDoor stake (doors.map fun door => (door, remain door)) with
          ⟨coin, rest, remains, log⟩
        rw [h] at htaken
        obtain ⟨hentries, hwon, hleft⟩ := htaken
        dsimp only at hentries hwon hleft ⊢
        refine ⟨fun t ht => ?_, hwon, ?_⟩
        · obtain ⟨hchange, hend, hstart⟩ := hentries t ht
          exact ⟨hchange, hend, List.mem_cons_of_mem _ hstart⟩
        · rw [List.map_cons, hlater log hentries, sub_zero, hleft]

/-- The doors of a settlement that starts with what remains of each: every entry is between a door
and a lower one, and what is booked of a door is what it wins or loses beside what it had lost
before. -/
structure Booked (tmp : List Info) (remain : Door → Int)
    (settled : List (Info × Int) × List Transfer) : Prop where
  entries : ∀ t ∈ settled.2, 0 < t.change ∧ ∃ winner loser, [winner, loser].Sublist tmp ∧
    t.endDoor = winner.door ∧ t.startDoor = loser.door
  booked : ∀ door ∈ settled.1, net door.1.door settled.2 =
    door.2 + (door.1.totalBet.getD 0 - remain door.1.door)

theorem settleDoorsLog_booked {tmp : List Info} (hnodup : (tmp.map Info.door).Nodup)
    {remain : Door → Int}
    (hstacked : Stacked (tmp.map fun info => info.totalBet.getD 0).reverse
      (tmp.map fun info => remain info.door).reverse) :
    Booked tmp remain (settleDoorsLog tmp (tmp.map fun info => remain info.door)) := by
  induction tmp generalizing remain with
  | nil => exact ⟨by simp [settleDoorsLog], by simp [settleDoorsLog]⟩
  | cons info tmp ih =>
      rw [List.map_cons, List.nodup_cons] at hnodup
      rw [List.map_cons, List.map_cons, List.reverse_cons, List.reverse_cons] at hstacked
      obtain ⟨hrest, ⟨hlow, hle⟩, hlost⟩ := stacked_append hstacked
      have hzip : ((tmp.map Info.door).zip (tmp.map fun info => remain info.door)).reverse =
          (tmp.map Info.door).reverse.map fun door => (door, remain door) := by
        rw [List.zip_map', ← List.map_reverse, ← List.map_reverse, List.map_map]
        rfl
      have htaken := takeLowerLog_spec info.door (info.totalBet.getD 0)
        (List.nodup_reverse.mpr hnodup.2) remain
      have hforget := takeLowerLog_forget info.door (info.totalBet.getD 0)
        ((tmp.map Info.door).reverse.map fun door => (door, remain door))
      rw [List.map_cons, settleDoorsLog_cons, hzip]
      rcases h : takeLowerLog info.door (info.totalBet.getD 0)
        ((tmp.map Info.door).reverse.map fun door => (door, remain door)) with
        ⟨won, left, lower, log⟩
      rw [h] at htaken hforget
      obtain ⟨hentries, hwon, hleft⟩ := htaken
      dsimp only at hentries hwon hleft hforget ⊢
      have hmap : ((tmp.map Info.door).reverse.map fun door => (door, remain door)).map Prod.snd =
          (tmp.map fun info => remain info.door).reverse := by
        simp [Function.comp_def]
      rw [hmap] at hforget
      have hlower : lower.reverse = tmp.map fun info => remain info.door -
          outgoing info.door log := by
        rw [hleft, ← List.map_reverse, List.reverse_reverse, List.map_map]
        rfl
      have hstill := hrest.takeLower (info.totalBet.getD 0)
      rw [← hforget] at hstill
      have hafter := @ih hnodup.2 (fun door => remain door - outgoing door log)
        (by rw [← hlower, List.reverse_reverse]; exact hstill)
      rw [← hlower] at hafter
      have hothers : ∀ other ∈ tmp, other.door ≠ info.door := fun other hother heq =>
        hnodup.1 (heq ▸ List.mem_map_of_mem hother)
      refine ⟨fun t ht => ?_, fun door hdoor => ?_⟩
      · obtain ht | ht := List.mem_append.mp ht
        · obtain ⟨hchange, hend, hstart⟩ := hentries t ht
          obtain ⟨loser, hloser, heq⟩ := List.mem_map.mp (List.mem_reverse.mp hstart)
          exact ⟨hchange, info, loser, (List.singleton_sublist.mpr hloser).cons_cons _,
            hend, heq.symm⟩
        · obtain ⟨hchange, winner, loser, hsub, hend, hstart⟩ := hafter.entries t ht
          exact ⟨hchange, winner, loser, hsub.cons _, hend, hstart⟩
      · rw [net_append]
        obtain rfl | hdoor := List.mem_cons.mp hdoor
        · -- the door itself: nothing later is booked of it, and it has won only if it had lost
          -- nothing
          have hnone : net info.door (settleDoorsLog tmp lower.reverse).2 = 0 := by
            rw [net, incoming_eq_zero, outgoing_eq_zero, sub_zero]
            · intro t ht heq
              obtain ⟨-, winner, loser, hsub, -, hstart⟩ := hafter.entries t ht
              exact hothers loser (hsub.subset (by simp)) (hstart ▸ heq)
            · intro t ht heq
              obtain ⟨-, winner, loser, hsub, hend, -⟩ := hafter.entries t ht
              exact hothers winner (hsub.subset (by simp)) (hend ▸ heq)
          have hwins : net info.door log = won := by
            rw [net, outgoing_eq_zero, sub_zero, ← hwon, incoming]
            · exact congrArg _ (List.map_congr_left fun t ht => if_pos (hentries t ht).2.1)
            · intro t ht heq
              obtain ⟨other, hother, hsame⟩ :=
                List.mem_map.mp (List.mem_reverse.mp (hentries t ht).2.2)
              exact hothers other hother (hsame.trans heq)
          have htotal := (takeLower_sum (info.totalBet.getD 0)
            (tmp.map fun info => remain info.door).reverse).2
          have hzero := takeLower_eq_zero (info.totalBet.getD 0)
            (tmp.map fun info => remain info.door).reverse
          rw [← hforget] at htotal hzero
          dsimp only at htotal hzero ⊢
          rw [hnone, hwins]
          by_cases hnothing : won = 0
          · rw [if_pos hnothing]
            split_ifs <;> omega
          · rw [if_neg hnothing]
            have hkept : ¬remain info.door < info.totalBet.getD 0 := fun hlt =>
              hnothing (hzero (hlost hlt))
            omega
        · have hmem := mem_settleDoorsLog hdoor
          have hgiven : net door.1.door log = -outgoing door.1.door log := by
            rw [net, incoming_eq_zero, zero_sub]
            exact fun t ht heq => hothers door.1 hmem (heq.symm.trans (hentries t ht).2.1)
          rw [hgiven, hafter.booked door hdoor]
          ring

end Booking

section Merge

theorem net_cons (door : Door) (t : Transfer) (log : List Transfer) :
    net door (t :: log) = net door [t] + net door log := net_append door [t] log

theorem net_mergeTransfer (door : Door) (v : Transfer) (resultLog : List Transfer) :
    net door (mergeTransfer v resultLog) = net door resultLog + net door [v] := by
  induction resultLog with
  | nil => simp [mergeTransfer, net, incoming, outgoing]
  | cons v1 resultLog ih =>
      rw [mergeTransfer]
      split_ifs with hsame
      · rw [net_cons, net_cons door v1]
        simp only [net, incoming, outgoing, List.map_cons, List.map_nil,
          List.sum_singleton, hsame.1,
          hsame.2]
        split_ifs <;> ring
      · rw [net_cons, net_cons door v1 resultLog, ih, add_assoc]

/-- **Merging** keeps what is booked of every door. -/
theorem net_sumResultLog (door : Door) (log : List Transfer) :
    net door (sumResultLog log) = net door log := by
  have hrun : ∀ resultLog : List Transfer,
      net door (log.foldl (fun resultLog v => mergeTransfer v resultLog) resultLog) =
        net door resultLog + net door log := by
    induction log with
    | nil => simp [net, incoming, outgoing]
    | cons v log ih =>
        intro resultLog
        rw [List.foldl_cons, ih, net_mergeTransfer, net_cons door v log, add_assoc]
  rw [sumResultLog, hrun]
  simp [net, incoming, outgoing]

/-- A transfer that moves something moves it forward, between doors that are related. -/
def Moves (R : Door → Door → Prop) (t : Transfer) : Prop :=
  0 ≤ t.change ∧ (t.change ≠ 0 → R t.endDoor t.startDoor)

theorem moves_mergeTransfer {R : Door → Door → Prop} {v : Transfer} (hv : Moves R v)
    {resultLog : List Transfer} (hlog : ∀ t ∈ resultLog, Moves R t) :
    ∀ t ∈ mergeTransfer v resultLog, Moves R t := by
  induction resultLog with
  | nil => simpa [mergeTransfer] using hv
  | cons v1 resultLog ih =>
      rw [List.forall_mem_cons] at hlog
      rw [mergeTransfer]
      split_ifs with hsame
      · rw [List.forall_mem_cons]
        refine ⟨⟨add_nonneg hlog.1.1 hv.1, fun hne => ?_⟩, hlog.2⟩
        by_cases hzero : v1.change = 0
        · have hrelated := hv.2 fun h => hne (by simp [hzero, h])
          rwa [← hsame.1, ← hsame.2] at hrelated
        · exact hlog.1.2 hzero
      · exact List.forall_mem_cons.mpr ⟨hlog.1, ih hlog.2⟩

theorem moves_sumResultLog {R : Door → Door → Prop} {log : List Transfer}
    (hlog : ∀ t ∈ log, Moves R t) : ∀ t ∈ sumResultLog log, Moves R t := by
  refine List.foldlRecOn (motive := fun resultLog => ∀ t ∈ resultLog, Moves R t) log _
    (fun _ ht => absurd ht List.not_mem_nil) fun resultLog hresult v hv => ?_
  exact moves_mergeTransfer (hlog v hv) hresult

end Merge

end SdyServer.Pk10
