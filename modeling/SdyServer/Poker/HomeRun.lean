import Mathlib.Algebra.Order.BigOperators.Group.List
import SdyServer.Daboluo.ScoreZeroSum
import SdyServer.Poker.PairScore

/-!
# The home run

A round is balanced when every pair is scored oppositely from its two sides, the totals sum to zero
and each total is the sum of its ordinary and special part. A home run unbalances it: the winner's
total is doubled and his ordinary part is not.
-/

namespace SdyServer.Poker

open Daboluo (Uid Seat Dealt CurCards Totals Scores meets Formed)

/-- A room at the moment its hands are compared: the submissions are those of dealt players, on
seats of their own. -/
structure Showdown where
  room : Room
  dealt : ∀ k ∈ room.curCards.keys, k ∈ room.cards.keys
  seat_inj : ∀ entry ∈ room.cards.entries, ∀ entry' ∈ room.cards.entries,
    entry.2.seat = entry'.2.seat → entry.1 = entry'.1
  formed : ∀ entry ∈ room.curCards.entries, Formed entry.2

namespace Showdown

variable (s : Showdown)

def seatOf (k : Uid) : Seat := ((s.room.cards.get k).map Dealt.seat).getD 0

/-- Two players who submitted `v` and `vv` and meet. -/
structure Scored (k : Uid) (v : CurCards) (kk : Uid) (vv : CurCards) : Prop where
  left : (k, v) ∈ s.room.curCards.entries
  right : (kk, vv) ∈ s.room.curCards.entries
  meets : meets s.room.banker k kk = true

structure HomeRun (k : Uid) (v : CurCards) : Prop where
  ordinary : v.spType = none
  banker : s.room.banker = none
  full : s.room.curCards.size = s.room.roomInfo.minCount
  three : 3 ≤ s.room.curCards.size
  sweeps : ∀ kk vv, (kk, vv) ∈ s.room.curCards.entries → kk ≠ k →
    vv.spType = none ∧ Sweeps s.room.dyj s.room.roomInfo.danse v vv

/-- The scores of the round, after `calculate_score` and the doubling block. -/
def scoreRound (clientTime : Nat) : Lua Scores := do
  let (scores, _) ← calculateScore s.room clientTime
  doubleLosers s.room scores

structure Balanced (scores : Scores) : Prop where
  pairs : ∀ k v kk vv, s.Scored k v kk vv → ∃ x,
    scores.against k (s.seatOf kk) = some x ∧ scores.against kk (s.seatOf k) = some (-x)
  zero : scores.sumTotals = 0
  parts : ∀ k ∈ s.room.curCards.keys, ∃ totals, scores.totals.get k = some totals ∧
    totals.totalScore = totals.normalAdd + totals.specialAdd

/-- No pair that meets is an unfair one, no player who sweeps another has left the room, and nobody
makes a home run. -/
structure Fair : Prop where
  pairs : ∀ k v kk vv, s.Scored k v kk vv → PairFair v vv
  present : ∀ k v kk vv, s.Scored k v kk vv → v.spType = none → vv.spType = none →
    Sweeps s.room.dyj s.room.roomInfo.danse v vv → k ∈ s.room.users.keys
  noHomeRun : ∀ k v, (k, v) ∈ s.room.curCards.entries → ¬s.HomeRun k v

end Showdown

section Loop

variable {s : Showdown} {k kk : Uid} {v vv : CurCards}

theorem exists_dealt (hkey : kk ∈ s.room.curCards.keys) :
    ∃ dealt, s.room.cards.get kk = some dealt ∧ dealt.seat = s.seatOf kk := by
  obtain ⟨dealt, hget⟩ := (LuaTable.mem_keys_iff _).mp (s.dealt kk hkey)
  exact ⟨dealt, hget, by simp [Showdown.seatOf, hget]⟩

theorem seatOf_spec (hmem : (kk, vv) ∈ s.room.curCards.entries) :
    ∃ dealt, s.room.cards.get kk = some dealt ∧ dealt.seat = s.seatOf kk :=
  exists_dealt (List.mem_map_of_mem hmem)

theorem nodup_seats (s : Showdown) :
    (s.room.curCards.entries.map fun entry => s.seatOf entry.1).Nodup := by
  refine s.room.curCards.nodup_map_key fun k hk kk hkk hseat => ?_
  obtain ⟨dealt, hdealt, hds⟩ := exists_dealt hk
  obtain ⟨dealt', hdealt', hds'⟩ := exists_dealt hkk
  exact s.seat_inj _ ((LuaTable.get_eq_some_iff _).mp hdealt) _
    ((LuaTable.get_eq_some_iff _).mp hdealt') (by rw [hds, hds']; exact hseat)

/-- What `k` gains from one opponent. -/
def gain (s : Showdown) (k : Uid) (v : CurCards) (opponent : Uid × CurCards) : Int :=
  if meets s.room.banker k opponent.1 then
    match pairScore s.room.dyj s.room.roomInfo.danse v opponent.2 with
    | .ok x => x
    | .error _ => 0
  else 0

def ColumnDone (s : Showdown) (k : Uid) (v : CurCards) (opponent : Uid × CurCards)
    (column : Option (List Int)) : Prop :=
  meets s.room.banker k opponent.1 = true →
    ∃ x, Passes s.room k v opponent.2 x ∧ column.bind (Lua.nth · 7) = some x

theorem turn (hk : (k, v) ∈ s.room.curCards.entries) (hkk : (kk, vv) ∈ s.room.curCards.entries)
    {tally tally' : Tally} (hok : scoreAgainst s.room k v tally (kk, vv) = .ok tally') :
    tally'.totalScore = tally.totalScore + gain s k v (kk, vv) ∧
      tally'.normalAdd + tally'.specialAdd = tally.normalAdd + tally.specialAdd +
      gain s k v (kk, vv) ∧
      ((∀ seat, seat ≠ s.seatOf kk → tally'.userScores.get seat = tally.userScores.get seat) ∧
        ColumnDone s k v (kk, vv) (tally'.userScores.get (s.seatOf kk))) := by
  obtain ⟨dealt, hdealt, hseat⟩ := seatOf_spec hkk
  cases hmeets : meets s.room.banker k kk with
  | false =>
      obtain ⟨hcolumns, htotal, hparts, -⟩ := scoreAgainst_skip hmeets hok
      have hgain : gain s k v (kk, vv) = 0 := by simp [gain, hmeets]
      refine ⟨by rw [htotal, hgain, add_zero], by rw [hparts, hgain, add_zero], ?_, fun h => ?_⟩
      · intro seat _
        rw [hcolumns]
      · rw [hmeets] at h
        cases h
  | true =>
      obtain ⟨x, hadds⟩ := scoreAgainst_adds (s.formed _ hk) (s.formed _ hkk) hdealt hmeets hok
      obtain ⟨scoreArr, hcolumn, hlast⟩ := hadds.column
      have hgain : gain s k v (kk, vv) = x := by simp [gain, hmeets, hadds.passes.1]
      rw [hseat] at hcolumn
      refine ⟨by rw [hadds.total, hgain], by rw [hadds.parts, hgain], ?_, fun _ => ?_⟩
      · intro seat hne
        rw [hcolumn, LuaTable.get_set_of_ne _ _ (Ne.symm hne)]
      · refine ⟨x, hadds.passes, ?_⟩
        rw [hcolumn, LuaTable.get_set_self]
        exact hlast

theorem loop (hk : (k, v) ∈ s.room.curCards.entries) {tally tally' : Tally}
    (hok : s.room.curCards.entries.foldlM (scoreAgainst s.room k v) tally = .ok tally') :
    tally'.totalScore = tally.totalScore + (s.room.curCards.entries.map (gain s k v)).sum ∧
      tally'.normalAdd + tally'.specialAdd =
        tally.normalAdd + tally.specialAdd + (s.room.curCards.entries.map (gain s k v)).sum ∧
      ∀ entry ∈ s.room.curCards.entries,
        ColumnDone s k v entry (tally'.userScores.get (s.seatOf entry.1)) := by
  refine ⟨?_, ?_, ?_⟩
  · exact Lua.foldlM_ok_sum Tally.totalScore (gain s k v)
      (fun entry hentry _ _ hturn => (turn hk hentry hturn).1) hok
  · exact Lua.foldlM_ok_sum (fun tally => tally.normalAdd + tally.specialAdd) (gain s k v)
      (fun entry hentry _ _ hturn => (turn hk hentry hturn).2.1) hok
  · exact (Lua.foldlM_ok_fill (fun tally seat => tally.userScores.get seat)
      (fun entry => s.seatOf entry.1) (ColumnDone s k v) (nodup_seats s)
      (fun entry hentry _ _ hturn => (turn hk hentry hturn).2.2) hok).2

/-- The sweep of a player stands at the end when he swept everybody he met. -/
theorem loop_swat (hk : (k, v) ∈ s.room.curCards.entries) (hsp : v.spType = none)
    {tally tally' : Tally}
    (hok : s.room.curCards.entries.foldlM (scoreAgainst s.room k v) tally = .ok tally') :
    tally'.peopleNum = tally.peopleNum + s.room.curCards.size ∧
      (tally'.curSwat = 1 ↔ tally.curSwat = 1 ∧ ∀ entry ∈ s.room.curCards.entries,
        meets s.room.banker k entry.1 = true → entry.2.spType = none ∧
          Sweeps s.room.dyj s.room.roomInfo.danse v entry.2) := by
  have hturn : ∀ entry ∈ s.room.curCards.entries, ∀ t t', scoreAgainst s.room k v t entry = .ok t' →
      t'.peopleNum = t.peopleNum + 1 ∧ (t'.curSwat = 1 ↔ t.curSwat = 1 ∧
        (meets s.room.banker k entry.1 = true → entry.2.spType = none ∧
          Sweeps s.room.dyj s.room.roomInfo.danse v entry.2)) := by
    rintro ⟨kk, vv⟩ hkk t t' hok
    obtain ⟨dealt, hdealt, -⟩ := seatOf_spec hkk
    cases hmeets : meets s.room.banker k kk with
    | false =>
        obtain ⟨-, -, -, hswat, hpeople⟩ := scoreAgainst_skip hmeets hok
        exact ⟨hpeople hsp, by simp [hswat]⟩
    | true =>
        obtain ⟨x, hadds⟩ := scoreAgainst_adds (s.formed _ hk) (s.formed _ hkk) hdealt hmeets hok
        exact ⟨hadds.people hsp, by simp [hadds.swat hsp]⟩
  refine ⟨?_, Lua.foldlM_ok_flag (fun tally => tally.curSwat = 1) _
    (fun entry hentry t t' h => (hturn entry hentry t t' h).2) hok⟩
  have hsum := Lua.foldlM_ok_sum (fun tally => (tally.peopleNum : Int)) (fun _ => 1)
    (fun entry hentry t t' h => by simp [(hturn entry hentry t t' h).1]) hok
  simp only [List.map_const', List.sum_replicate, nsmul_eq_mul, mul_one] at hsum
  rw [LuaTable.size]
  omega

theorem homeRun_iff_meets (hbanker : s.room.banker = none) :
    (∀ entry ∈ s.room.curCards.entries, meets s.room.banker k entry.1 = true →
        entry.2.spType = none ∧ Sweeps s.room.dyj s.room.roomInfo.danse v entry.2) ↔
      ∀ kk vv, (kk, vv) ∈ s.room.curCards.entries → kk ≠ k →
        vv.spType = none ∧ Sweeps s.room.dyj s.room.roomInfo.danse v vv := by
  simp [meets, hbanker]

theorem sum_gain_pos (hk : (k, v) ∈ s.room.curCards.entries) (hrun : s.HomeRun k v)
    (hpass : ∀ entry ∈ s.room.curCards.entries, meets s.room.banker k entry.1 = true →
      ∃ x, Passes s.room k v entry.2 x) :
    0 < (s.room.curCards.entries.map (gain s k v)).sum := by
  have hother : ∀ entry ∈ s.room.curCards.entries, entry.1 ≠ k → 0 < gain s k v entry := by
    rintro ⟨kk, vv⟩ hkk hne
    have hmeets : meets s.room.banker k kk = true := by simp [meets, hrun.banker, hne]
    obtain ⟨hsp', hsweeps⟩ := hrun.sweeps kk vv hkk hne
    obtain ⟨x, hx, -⟩ := hpass (kk, vv) hkk hmeets
    have hpos :=
      pairScore_pos_of_sweeps (s.formed _ hk) (s.formed _ hkk) hrun.ordinary hsp' hsweeps hx
    simpa [gain, hmeets, hx] using hpos
  have hnonneg : ∀ x ∈ s.room.curCards.entries.map (gain s k v), 0 ≤ x := by
    intro x hx
    obtain ⟨entry, hentry, rfl⟩ := List.mem_map.1 hx
    by_cases hsame : entry.1 = k
    · simp [gain, meets, hsame]
    · exact (hother entry hentry hsame).le
  have htwo : 2 ≤ s.room.curCards.entries.length := by
    have hthree := hrun.three
    rw [LuaTable.size] at hthree
    omega
  obtain ⟨entry, hentry, hne⟩ := Daboluo.exists_other s.room.curCards.nodupKeys htwo k
  calc
    0 < gain s k v entry := hother entry hentry hne
    _ ≤ (s.room.curCards.entries.map (gain s k v)).sum :=
      List.single_le_sum hnonneg _ (List.mem_map.2 ⟨entry, hentry, rfl⟩)

end Loop

section Board

variable {s : Showdown} {k kk : Uid} {v vv : CurCards}

structure PlayerDone (s : Showdown) (player : Uid × CurCards)
    (row : Option (LuaTable Seat (List Int)) × Option Totals) : Prop where
  passes : ∀ entry ∈ s.room.curCards.entries, meets s.room.banker player.1 entry.1 = true →
    ∃ x, Passes s.room player.1 player.2 entry.2 x
  columns : ¬s.HomeRun player.1 player.2 → ∀ entry ∈ s.room.curCards.entries,
    ColumnDone s player.1 player.2 entry (row.1.bind (·.get (s.seatOf entry.1)))
  totals : ∃ totals, row.2 = some totals ∧
    (s.HomeRun player.1 player.2 → totals.totalScore ≠ totals.normalAdd + totals.specialAdd) ∧
    (¬s.HomeRun player.1 player.2 → totals.totalScore = totals.normalAdd + totals.specialAdd ∧
      totals.totalScore = (s.room.curCards.entries.map (gain s player.1 player.2)).sum)

theorem scorePlayer_inv (hk : (k, v) ∈ s.room.curCards.entries) {board board' : Board}
    (hok : scorePlayer s.room board (k, v) = .ok board') :
    ∃ userScores totals, board'.datas = board.datas.set k userScores ∧
      board'.totals = board.totals.set k totals ∧
      PlayerDone s (k, v) (some userScores, some totals) ∧
      (¬s.HomeRun k v → board'.allSwat = board.allSwat) := by
  cases hsp : v.spType with
  | some x =>
      have hno : ¬s.HomeRun k v := fun hrun => by simpa [hsp] using hrun.ordinary
      simp only [scorePlayer, hsp] at hok
      obtain ⟨tally, hloop, hok⟩ := Lua.bind_eq_ok.mp hok
      cases hok
      have hagainst : scoreAgainst s.room k v = scoreSpecial s.room k x := by
        simp only [scoreAgainst, hsp]
      rw [← hagainst] at hloop
      obtain ⟨htotal, hparts, hcolumns⟩ := loop hk hloop
      dsimp only at htotal hparts
      refine ⟨_, _, rfl, rfl,
        ⟨?_, fun _ => hcolumns, _, rfl, fun hrun => absurd hrun hno, fun _ => ?_⟩,
        fun _ => rfl⟩
      · intro entry hentry hmeets
        exact (hcolumns entry hentry hmeets).imp fun _ h => h.1
      · dsimp only
        omega
  | none =>
      simp only [scorePlayer, hsp] at hok
      obtain ⟨tally, hloop, hok⟩ := Lua.bind_eq_ok.mp hok
      have hagainst : scoreAgainst s.room k v = scoreOrdinary s.room k v := by
        simp only [scoreAgainst, hsp]
      rw [← hagainst] at hloop
      obtain ⟨htotal, hparts, hcolumns⟩ := loop hk hloop
      obtain ⟨hpeople, hswat⟩ := loop_swat hk hsp hloop
      dsimp only at htotal hparts hpeople hswat
      have hpasses : ∀ entry ∈ s.room.curCards.entries, meets s.room.banker k entry.1 = true →
          ∃ x, Passes s.room k v entry.2 x := fun entry hentry hmeets =>
        (hcolumns entry hentry hmeets).imp fun _ h => h.1
      split_ifs at hok with hcond
      · obtain ⟨hone, hfull, hthree, hbanker⟩ := hcond
        have hrun : s.HomeRun k v := by
          refine ⟨hsp, hbanker, by omega, by omega, ?_⟩
          exact (homeRun_iff_meets hbanker).1 (hswat.1 hone).2
        obtain ⟨user, -, hok⟩ := Lua.bind_eq_ok.mp hok
        cases hok
        have hpos := sum_gain_pos hk hrun hpasses
        refine ⟨_, _, rfl, rfl, ⟨hpasses, fun h => absurd hrun h, _, rfl, fun _ => ?_,
          fun h => absurd hrun h⟩, fun h => absurd hrun h⟩
        dsimp only
        omega
      · cases hok
        have hno : ¬s.HomeRun k v := by
          intro hrun
          have hfull := hrun.full
          have hthree := hrun.three
          refine hcond
            ⟨hswat.2 ⟨rfl, (homeRun_iff_meets hrun.banker).2 hrun.sweeps⟩, by omega, by omega,
            hrun.banker⟩
        refine ⟨_, _, rfl, rfl, ⟨hpasses, fun _ => hcolumns, _, rfl, fun hrun => absurd hrun hno,
          fun _ => ?_⟩, fun _ => rfl⟩
        dsimp only
        omega

/-- The loop over the players fills one row of the board after the other. -/
theorem board_inv {l : List (Uid × CurCards)} (hl : ∀ entry ∈ l, entry ∈ s.room.curCards.entries)
    (hnodup : (l.map Prod.fst).Nodup) {board board' : Board}
    (hok : l.foldlM (scorePlayer s.room) board = .ok board') :
    ∀ player ∈ l, PlayerDone s player (board'.datas.get player.1, board'.totals.get player.1) := by
  refine (Lua.foldlM_ok_fill (fun board k => (board.datas.get k, board.totals.get k)) Prod.fst
    (PlayerDone s) hnodup ?_ hok).2
  rintro ⟨k, v⟩ hk t t' hplayer
  obtain ⟨userScores, totals, hdatas, htotals, hdone, -⟩ := scorePlayer_inv (hl _ hk) hplayer
  dsimp only
  rw [hdatas, htotals]
  refine ⟨fun kk hne => ?_, ?_⟩
  · rw [LuaTable.get_set_of_ne _ _ (Ne.symm hne), LuaTable.get_set_of_ne _ _ (Ne.symm hne)]
  · rw [LuaTable.get_set_self, LuaTable.get_set_self]
    exact hdone

theorem board_sum (hno : ∀ k v, (k, v) ∈ s.room.curCards.entries → ¬s.HomeRun k v)
    {l : List (Uid × CurCards)} (hl : ∀ entry ∈ l, entry ∈ s.room.curCards.entries)
    (hnodup : (l.map Prod.fst).Nodup) {board board' : Board}
    (hfresh : ∀ entry ∈ l, board.totals.get entry.1 = none)
    (hok : l.foldlM (scorePlayer s.room) board = .ok board') :
    (board'.totals.entries.map fun entry => entry.2.totalScore).sum =
        (board.totals.entries.map fun entry => entry.2.totalScore).sum +
          (l.map fun player => (s.room.curCards.entries.map (gain s player.1 player.2)).sum).sum ∧
      board'.allSwat = board.allSwat := by
  induction l generalizing board with
  | nil =>
      cases hok
      simp
  | cons player rest ih =>
      obtain ⟨k, v⟩ := player
      rw [List.foldlM_cons] at hok
      obtain ⟨board₁, hplayer, hrest⟩ := Lua.bind_eq_ok.mp hok
      have hk := hl _ (List.mem_cons_self ..)
      obtain ⟨userScores, totals, -, htotals, hdone, hswat⟩ := scorePlayer_inv hk hplayer
      obtain ⟨totals', hsame, -, hgain⟩ := hdone.totals
      cases hsame
      rw [List.map_cons, List.nodup_cons] at hnodup
      have hfresh' : ∀ entry ∈ rest, board₁.totals.get entry.1 = none := by
        intro entry hentry
        rw [htotals, LuaTable.get_set_of_ne]
        · exact hfresh entry (List.mem_cons_of_mem _ hentry)
        · rintro rfl
          exact hnodup.1 (List.mem_map.mpr ⟨entry, hentry, rfl⟩)
      obtain ⟨hsum, hsame⟩ :=
        ih (fun entry h => hl entry (List.mem_cons_of_mem _ h)) hnodup.2 hfresh' hrest
      have hnone : board.totals.get k = none := hfresh _ (List.mem_cons_self ..)
      refine ⟨?_, hsame.trans (hswat (hno k v hk))⟩
      rw [hsum, htotals, LuaTable.sum_entries_set, hnone, List.map_cons, List.sum_cons,
        (hgain (hno k v hk)).2]
      simp only [Option.map_none, Option.getD_none]
      omega

theorem calculateScore_inv {clientTime time : Nat} {scores : Scores}
    (hok : calculateScore s.room clientTime = .ok (scores, time)) :
    (∀ player ∈ s.room.curCards.entries,
        PlayerDone s player (scores.datas.get player.1, scores.totals.get player.1)) ∧
      ((∀ k v, (k, v) ∈ s.room.curCards.entries → ¬s.HomeRun k v) →
        scores.sumTotals = (s.room.curCards.entries.map fun player =>
          (s.room.curCards.entries.map (gain s player.1 player.2)).sum).sum ∧
        scores.allSwat = some (-1)) := by
  obtain ⟨board, hboard, hok⟩ := Lua.bind_eq_ok.mp hok
  cases hok
  refine ⟨board_inv (fun _ h => h) s.room.curCards.nodupKeys hboard, fun hno => ?_⟩
  obtain ⟨hsum, hswat⟩ :=
    board_sum hno (fun _ h => h) s.room.curCards.nodupKeys (fun _ _ => rfl) hboard
  refine ⟨?_, hswat⟩
  rw [Scores.sumTotals, hsum]
  simp

theorem scorePlayer_ok (hk : (k, v) ∈ s.room.curCards.entries)
    (hpass : ∀ kk vv, s.Scored k v kk vv → ∃ x, Passes s.room k v vv x) (hno : ¬s.HomeRun k v)
    (board : Board) : ∃ board', scorePlayer s.room board (k, v) = .ok board' := by
  have hbody : ∀ entry ∈ s.room.curCards.entries, ∀ tally,
      ∃ tally', scoreAgainst s.room k v tally entry = .ok tally' := by
    rintro ⟨kk, vv⟩ hkk tally
    obtain ⟨dealt, hdealt, -⟩ := seatOf_spec hkk
    exact scoreAgainst_ok hdealt tally fun hmeets => hpass kk vv ⟨hk, hkk, hmeets⟩
  cases hsp : v.spType with
  | some x =>
      obtain ⟨tally, hloop⟩ := Lua.foldlM_ok_of_body hbody
        { shootLen := board.shootLen, clientTime := board.clientTime + 5 }
      simp only [scoreAgainst, hsp] at hloop
      simp [scorePlayer, hsp, hloop]
  | none =>
      obtain ⟨tally, hloop⟩ := Lua.foldlM_ok_of_body hbody
        { shootLen := board.shootLen, clientTime := board.clientTime }
      obtain ⟨hpeople, hswat⟩ := loop_swat hk hsp hloop
      simp only [scoreAgainst, hsp] at hloop
      dsimp only at hpeople hswat
      simp only [scorePlayer, hsp, hloop, Lua.ok_bind]
      rw [if_neg]
      · exact ⟨_, rfl⟩
      · rintro ⟨hone, hfull, hthree, hbanker⟩
        exact hno ⟨hsp, hbanker, by omega, by omega, (homeRun_iff_meets hbanker).1 (hswat.1 hone).2⟩

theorem calculateScore_ok (hpass : ∀ k v kk vv, s.Scored k v kk vv → ∃ x, Passes s.room k v vv x)
    (hno : ∀ k v, (k, v) ∈ s.room.curCards.entries → ¬s.HomeRun k v) (clientTime : Nat) :
    ∃ scores time, calculateScore s.room clientTime = .ok (scores, time) := by
  have hbody : ∀ player ∈ s.room.curCards.entries, ∀ board,
      ∃ board', scorePlayer s.room board player = .ok board' := by
    rintro ⟨k, v⟩ hk board
    exact scorePlayer_ok hk (hpass k v) (hno k v hk) board
  obtain ⟨board, hboard⟩ := Lua.foldlM_ok_of_body hbody { clientTime }
  simp only [calculateScore, hboard, Lua.ok_bind]
  exact ⟨_, _, rfl⟩

end Board

section Doubling

def imbalance (scores : Scores) (k : Uid) : Int :=
  ((scores.totals.get k).map fun totals =>
    totals.totalScore - totals.normalAdd - totals.specialAdd).getD 0

/-- The doubling block adds the same to a total and to its ordinary part. -/
theorem doublePlayer_imbalance {swat : Option Seat} {swatUserId : Option Uid}
    {scores scores' : Scores}
    {player : Uid × LuaTable Seat (List Int)}
    (hok : doublePlayer swat swatUserId scores player = .ok scores') (k : Uid) :
    imbalance scores' k = imbalance scores k := by
  obtain ⟨kk, vv⟩ := player
  unfold doublePlayer at hok
  dsimp only at hok
  split_ifs at hok with hwinner
  · cases hok
    rfl
  · obtain ⟨scoreArr, -, hok⟩ := Lua.bind_eq_ok.mp hok
    obtain ⟨score, -, hok⟩ := Lua.bind_eq_ok.mp hok
    obtain ⟨totals, htotals, hok⟩ := Lua.bind_eq_ok.mp hok
    cases hok
    rw [Lua.need_eq_ok] at htotals
    unfold imbalance
    rw [LuaTable.get_set]
    split_ifs with hsame
    · subst hsame
      rw [htotals]
      simp only [Option.map_some, Option.getD_some]
      omega
    · rfl

theorem doubleLosers_imbalance {room : Room} {scores scores' : Scores}
    (hok : doubleLosers room scores = .ok scores') (k : Uid) :
    imbalance scores' k = imbalance scores k := by
  unfold doubleLosers at hok
  split_ifs at hok
  · have hsum := Lua.foldlM_ok_sum (fun scores => imbalance scores k) (fun _ => 0)
      (fun player _ t t' h => by rw [doublePlayer_imbalance h k, add_zero]) hok
    simpa using hsum
  · cases hok
    rfl

end Doubling

section Balance

variable {s : Showdown}

theorem Showdown.Scored.symm {k kk : Uid} {v vv : CurCards} (h : s.Scored k v kk vv) :
    s.Scored kk vv k v := by
  refine ⟨h.right, h.left, ?_⟩
  have hmeets := h.meets
  simp only [Daboluo.meets] at hmeets ⊢
  aesop

theorem Showdown.Balanced.noHomeRun {scores : Scores} (hbalanced : s.Balanced scores)
    {clientTime : Nat}
    (hok : s.scoreRound clientTime = .ok scores) (k : Uid) (v : CurCards)
    (hk : (k, v) ∈ s.room.curCards.entries) : ¬s.HomeRun k v := by
  intro hrun
  obtain ⟨⟨scores₀, time⟩, hcalc, hdouble⟩ := Lua.bind_eq_ok.mp hok
  obtain ⟨totals₀, htotals₀, hne, -⟩ := ((calculateScore_inv hcalc).1 _ hk).totals
  have himb := doubleLosers_imbalance hdouble k
  have hne' : imbalance scores₀ k ≠ 0 := by
    dsimp only at htotals₀
    rw [imbalance, htotals₀]
    simp only [Option.map_some, Option.getD_some]
    have := hne hrun
    omega
  rw [← himb, imbalance] at hne'
  obtain ⟨totals, htotals, hparts⟩ := hbalanced.parts k (List.mem_map.2 ⟨_, hk, rfl⟩)
  simp only [htotals, Option.map_some, Option.getD_some] at hne'
  omega

theorem against_eq {clientTime : Nat} {scores : Scores} (hok : s.scoreRound clientTime = .ok scores)
    (hno : ∀ k v, (k, v) ∈ s.room.curCards.entries → ¬s.HomeRun k v) :
    (∀ k v kk vv, s.Scored k v kk vv →
        ∃ x, Passes s.room k v vv x ∧ scores.against k (s.seatOf kk) = some x) ∧
      scores.sumTotals = (s.room.curCards.entries.map fun player =>
        (s.room.curCards.entries.map (gain s player.1 player.2)).sum).sum ∧
      ∀ k ∈ s.room.curCards.keys, ∃ totals, scores.totals.get k = some totals ∧
        totals.totalScore = totals.normalAdd + totals.specialAdd := by
  obtain ⟨⟨scores₀, time⟩, hcalc, hdouble⟩ := Lua.bind_eq_ok.mp hok
  obtain ⟨hdone, hrest⟩ := calculateScore_inv hcalc
  obtain ⟨hsum, hswat⟩ := hrest hno
  dsimp only at hdouble
  rw [doubleLosers, if_neg fun h => h hswat] at hdouble
  cases hdouble
  refine ⟨fun k v kk vv hscored => ?_, hsum, fun k hk => ?_⟩
  · obtain ⟨x, hpass, hx⟩ :=
      (hdone _ hscored.left).columns (hno k v hscored.left) _ hscored.right hscored.meets
    rw [Option.bind_assoc] at hx
    exact ⟨x, hpass, hx⟩
  · obtain ⟨⟨k, v⟩, hmem, rfl⟩ := List.mem_map.1 hk
    obtain ⟨totals, htotals, -, hparts⟩ := (hdone _ hmem).totals
    exact ⟨totals, htotals, (hparts (hno k v hmem)).1⟩

theorem sum_gain_eq_zero (hpair : ∀ k v kk vv, s.Scored k v kk vv → ∃ x,
    Passes s.room k v vv x ∧ pairScore s.room.dyj s.room.roomInfo.danse vv v = .ok (-x)) :
    (s.room.curCards.entries.map fun player =>
      (s.room.curCards.entries.map (gain s player.1 player.2)).sum).sum = 0 := by
  refine List.sum_sum_eq_zero_of_antisymm s.room.curCards.entries
    (fun player opponent => gain s player.1 player.2 opponent) ?_
  rintro ⟨k, v⟩ hk ⟨kk, vv⟩ hkk
  by_cases hmeets : meets s.room.banker k kk = true
  · have hscored : s.Scored k v kk vv := ⟨hk, hkk, hmeets⟩
    obtain ⟨x, hpass, hx'⟩ := hpair k v kk vv hscored
    simp [gain, hmeets, hscored.symm.meets, hpass.1, hx']
  · have hmeets' : ¬meets s.room.banker kk k = true := fun h =>
      hmeets (Showdown.Scored.symm ⟨hkk, hk, h⟩).meets
    simp [gain, hmeets, hmeets']

/-- **The home run rule.** A round is scored without an error and comes out balanced exactly when no
unfair pair meets, no sweeping player has left and nobody makes a home run. -/
theorem scoreRound_balanced_iff (s : Showdown) (clientTime : Nat) :
    (∃ scores, s.scoreRound clientTime = .ok scores ∧ s.Balanced scores) ↔ s.Fair := by
  constructor
  · rintro ⟨scores, hok, hbalanced⟩
    have hno := hbalanced.noHomeRun hok
    obtain ⟨hagainst, -, -⟩ := against_eq hok hno
    refine ⟨fun k v kk vv hscored => ?_, fun k v kk vv hscored hsp hsp' hsweeps => ?_, hno⟩
    · obtain ⟨x, hpass, hx⟩ := hagainst k v kk vv hscored
      obtain ⟨y, hpass', hy⟩ := hagainst kk vv k v hscored.symm
      obtain ⟨z, hz, hz'⟩ := hbalanced.pairs k v kk vv hscored
      have hxz : x = z := Option.some.inj (hx.symm.trans hz)
      have hyz : y = -z := Option.some.inj (hy.symm.trans hz')
      subst hxz hyz
      exact (pairScore_antisymm_iff (s.formed _ hscored.left) (s.formed _ hscored.right)).1
        ⟨x, hpass.1, hpass'.1⟩
    · obtain ⟨x, hpass, -⟩ := hagainst k v kk vv hscored
      exact hpass.2 hsp hsp' hsweeps
  · intro hfair
    have hpair : ∀ k v kk vv, s.Scored k v kk vv → ∃ x, Passes s.room k v vv x ∧
        pairScore s.room.dyj s.room.roomInfo.danse vv v = .ok (-x) := by
      intro k v kk vv hscored
      obtain ⟨x, hx, hx'⟩ := (pairScore_antisymm_iff (s.formed _ hscored.left)
        (s.formed _ hscored.right)).2 (hfair.pairs k v kk vv hscored)
      exact ⟨x, ⟨hx, hfair.present k v kk vv hscored⟩, hx'⟩
    obtain ⟨scores, time, hcalc⟩ := calculateScore_ok (fun k v kk vv hscored =>
      (hpair k v kk vv hscored).imp fun _ h => h.1) hfair.noHomeRun clientTime
    have hswat := ((calculateScore_inv hcalc).2 hfair.noHomeRun).2
    have hok : s.scoreRound clientTime = .ok scores := by
      rw [Showdown.scoreRound, hcalc, Lua.ok_bind]
      dsimp only
      rw [doubleLosers, if_neg fun h => h hswat]
    obtain ⟨hagainst, hsum, hparts⟩ := against_eq hok hfair.noHomeRun
    refine ⟨scores, hok, fun k v kk vv hscored => ?_, ?_, hparts⟩
    · obtain ⟨x, hpass, hx⟩ := hagainst k v kk vv hscored
      obtain ⟨y, hpass', hy⟩ := hagainst kk vv k v hscored.symm
      obtain ⟨z, hz, hz'⟩ := hpair k v kk vv hscored
      have hxz : x = z := Except.ok.inj (hpass.1.symm.trans hz.1)
      have hyz : y = -z := Except.ok.inj (hpass'.1.symm.trans hz')
      subst hxz hyz
      exact ⟨x, hx, hy⟩
    · rw [hsum]
      exact sum_gain_eq_zero hpair

end Balance

section Example

def dealtCards (cards : List (Int × Int)) : List Daboluo.Card :=
  cards.map fun (type, value) => { type, value }

def winner : CurCards :=
  { cType := some [9, 8, 4]
    cards := some (dealtCards [(4, 9), (4, 10), (4, 11), (4, 12), (4, 13), (1, 1), (1, 8), (2, 8),
      (3, 8), (4, 8), (1, 7), (2, 7), (3, 7)]) }

def loser : CurCards :=
  { cType := some [5, 2, 1]
    cards :=
      some (dealtCards [(1, 2), (2, 3), (3, 4), (1, 5), (2, 6), (2, 1), (3, 1), (1, 3), (2, 5),
      (4, 7), (2, 2), (1, 4), (1, 6)]) }

def loser' : CurCards :=
  { cType := some [2, 1, 1]
    cards :=
      some (dealtCards [(3, 2), (4, 2), (3, 5), (1, 9), (1, 11), (4, 1), (3, 3), (2, 4), (3, 6),
      (1, 10), (4, 5), (4, 6), (1, 12)]) }

def homeRunTable : LuaTable Uid CurCards := ⟨[(1, winner), (2, loser), (3, loser')], by decide⟩

def homeRunRound : Showdown where
  room := {
    roomInfo := { minCount := 3 }
    users := ⟨[(1, { id := 1, seat := some 1 }), (2, { id := 2, seat := some 2 }),
      (3, { id := 3, seat := some 3 })], by decide⟩
    seat := ⟨[(1, 1), (2, 2), (3, 3)], by decide⟩
    cards :=
      ⟨[(1, ⟨[], none, none, 1⟩), (2, ⟨[], none, none, 2⟩), (3, ⟨[], none, none, 3⟩)], by decide⟩
    curCards := homeRunTable }
  dealt := by decide
  seat_inj := by decide
  formed := by
    intro entry hentry
    simp only [homeRunTable, List.mem_cons, List.not_mem_nil, or_false] at hentry
    rcases hentry with rfl | rfl | rfl
    · exact .ordinary _ [9, 8, 4] rfl ⟨rfl, rfl, by decide, by decide, by decide⟩
    · exact .ordinary _ [5, 2, 1] rfl ⟨rfl, rfl, by decide, by decide, by decide⟩
    · exact .ordinary _ [2, 1, 1] rfl ⟨rfl, rfl, by decide, by decide, by decide⟩

theorem not_balanced_homeRunRound :
    ¬∃ scores, homeRunRound.scoreRound 0 = .ok scores ∧ homeRunRound.Balanced scores := by
  rintro ⟨scores, hok, hbalanced⟩
  have htotals : (homeRunRound.scoreRound 0).toOption.map (·.totals.get 1) =
      some (some ⟨128, 0, 64⟩) := by
    rfl
  obtain ⟨totals, hget, hparts⟩ := hbalanced.parts 1 (by decide)
  rw [hok] at htotals
  simp only [Except.toOption, Option.map_some, hget, Option.some.injEq] at htotals
  subst htotals
  exact absurd hparts (by decide)

end Example

end SdyServer.Poker
