import SdyServer.Daboluo.PairScore

/-!
# When scoring is zero-sum

The loops of `calculate_score` fill the board with the scores of the pairs. The board is zero-sum
exactly when every pair that meets is a fair one and the loops do not stumble over a player who has
left.
-/

namespace SdyServer.Daboluo

/-- A room at the moment its hands are compared: the submissions are those of dealt players, on
seats of their own. -/
structure Showdown where
  room : Room
  curCards : LuaTable Uid CurCards
  cards : LuaTable Uid Dealt
  curCards_eq : room.curCards = some curCards
  cards_eq : room.cards = some cards
  dealt : ∀ k ∈ curCards.keys, k ∈ cards.keys
  seat_inj : ∀ entry ∈ cards.entries, ∀ entry' ∈ cards.entries,
    entry.2.seat = entry'.2.seat → entry.1 = entry'.1
  formed : ∀ entry ∈ curCards.entries, Formed entry.2

namespace Showdown

def seatOf (s : Showdown) (k : Uid) : Seat := ((s.cards.get k).map Dealt.seat).getD 0

/-- Two players who submitted `v` and `vv` and meet. -/
structure Scored (s : Showdown) (k : Uid) (v : CurCards) (kk : Uid) (vv : CurCards) : Prop where
  left : (k, v) ∈ s.curCards.entries
  right : (kk, vv) ∈ s.curCards.entries
  meets : meets s.room.banker k kk = true

end Showdown

/-- `datas[k][seat][7]`. -/
def Scores.against (scores : Scores) (k : Uid) (seat : Seat) : Option Int := do
  let userScores ← scores.datas.get k
  Lua.nth (← userScores.get seat) 7

/-- The sum of `totals[k].total_score` over all players. -/
def Scores.sumTotals (scores : Scores) : Int :=
  (scores.totals.entries.map fun entry => entry.2.totalScore).sum

/-- The round is scored without an error, every pair oppositely from its two sides, and the totals
sum to zero. -/
def ZeroSum (s : Showdown) (clientTime : Nat) : Prop :=
  ∃ scores time, calculateScore s.room clientTime = .ok (scores, time) ∧
    (∀ k v kk vv, s.Scored k v kk vv → ∃ x,
      scores.against k (s.seatOf kk) = some x ∧ scores.against kk (s.seatOf k) = some (-x)) ∧
    scores.sumTotals = 0

/-- No pair that meets is an unfair one, and no player who sweeps another has left the room. -/
structure Fair (s : Showdown) : Prop where
  pairs : ∀ k v kk vv, s.Scored k v kk vv → PairFair s.room.roomInfo.danse v vv
  present : ∀ k v kk vv, s.Scored k v kk vv → v.spType = none → vv.spType = none →
    Sweeps s.room.roomInfo.danse v vv → k ∈ s.room.users.keys

section Loops

variable (s : Showdown)

/-- What `k` gains from one opponent. -/
def gain (k : Uid) (v : CurCards) (opponent : Uid × CurCards) : Int :=
  if meets s.room.banker k opponent.1 then
    match pairScore s.room.roomInfo.danse v opponent.2 with
    | .ok x => x
    | .error _ => 0
  else 0

variable {s}

theorem exists_dealt {kk : Uid} (hkey : kk ∈ s.curCards.keys) :
    ∃ dealt, s.cards.get kk = some dealt ∧ dealt.seat = s.seatOf kk := by
  obtain ⟨dealt, hget⟩ := (LuaTable.mem_keys_iff _).mp (s.dealt kk hkey)
  exact ⟨dealt, hget, by simp [Showdown.seatOf, hget]⟩

theorem seatOf_spec {kk : Uid} {vv : CurCards} (hmem : (kk, vv) ∈ s.curCards.entries) :
    ∃ dealt, s.cards.get kk = some dealt ∧ dealt.seat = s.seatOf kk :=
  exists_dealt (List.mem_map_of_mem hmem)

theorem nodup_seats (s : Showdown) :
    (s.curCards.entries.map fun entry => s.seatOf entry.1).Nodup := by
  refine s.curCards.nodup_map_key fun k hk kk hkk hseat => ?_
  obtain ⟨dealt, hdealt, hds⟩ := exists_dealt hk
  obtain ⟨dealt', hdealt', hds'⟩ := exists_dealt hkk
  exact s.seat_inj _ ((LuaTable.get_eq_some_iff _).mp hdealt) _
    ((LuaTable.get_eq_some_iff _).mp hdealt') (by rw [hds, hds']; exact hseat)

/-- One turn of the loop over the opponents, for submissions of a showdown. -/
theorem turn_inv {k kk : Uid} {v vv : CurCards} (hk : (k, v) ∈ s.curCards.entries)
    (hkk : (kk, vv) ∈ s.curCards.entries) {tally tally' : Tally}
    (hok : scoreAgainst s.room s.cards k v tally (kk, vv) = .ok tally') :
    tally'.totalScore = tally.totalScore + gain s k v (kk, vv) ∧
      (∀ seat, seat ≠ s.seatOf kk → tally'.userScores.get seat = tally.userScores.get seat) ∧
      (meets s.room.banker k kk = true → ∃ x, Passes s.room k v vv x ∧
        (tally'.userScores.get (s.seatOf kk)).bind (Lua.nth · 7) = some x) := by
  obtain ⟨dealt, hdealt, hseat⟩ := seatOf_spec hkk
  have hlen : v.spType = none → vv.spType = none → ∀ pair,
      compareScore s.room.roomInfo.danse v vv = .ok pair → pair.scoreArr.length = 7 :=
    fun hsp hsp' pair hpair => length_scoreArr (s.formed _ hk) (s.formed _ hkk) hsp hsp' hpair
  rcases scoreAgainst_inv hdealt hlen hok with ⟨hmeets, htotal, hscores⟩ |
    ⟨hmeets, x, scoreArr, hpass, htotal, hscores, hnth⟩
  · refine ⟨by simp [gain, hmeets, htotal], fun seat _ => by rw [hscores], fun h => ?_⟩
    rw [hmeets] at h
    cases h
  · refine ⟨by simp [gain, hmeets, hpass.1, htotal], ?_, fun _ => ⟨x, hpass, ?_⟩⟩
    · intro seat hne
      rw [hscores, LuaTable.get_set_of_ne _ _ (by rw [hseat]; exact Ne.symm hne)]
    · rw [hscores, ← hseat, LuaTable.get_set_self]
      exact hnth

theorem loop_inv {k : Uid} {v : CurCards} (hk : (k, v) ∈ s.curCards.entries) {tally tally' : Tally}
    (hok : s.curCards.entries.foldlM (scoreAgainst s.room s.cards k v) tally = .ok tally') :
    tally'.totalScore = tally.totalScore + (s.curCards.entries.map (gain s k v)).sum ∧
      ∀ kk vv, (kk, vv) ∈ s.curCards.entries → meets s.room.banker k kk = true →
        ∃ x, Passes s.room k v vv x ∧
          (tally'.userScores.get (s.seatOf kk)).bind (Lua.nth · 7) = some x := by
  refine ⟨?_, ?_⟩
  · exact Lua.foldlM_ok_sum Tally.totalScore (gain s k v)
      (fun entry hentry _ _ hturn => (turn_inv hk hentry hturn).1) hok
  · have hcolumns := (Lua.foldlM_ok_fill (fun (tally : Tally) seat => tally.userScores.get seat)
      (fun entry => s.seatOf entry.1)
      (fun entry column => meets s.room.banker k entry.1 = true →
        ∃ x, Passes s.room k v entry.2 x ∧ column.bind (Lua.nth · 7) = some x)
      (nodup_seats s) (fun entry hentry _ _ hturn => (turn_inv hk hentry hturn).2) hok).2
    exact fun kk vv hmem => hcolumns (kk, vv) hmem

theorem scorePlayer_inv {k : Uid} {v : CurCards} {board board' : Board}
    (hok : scorePlayer s.room s.curCards s.cards board (k, v) = .ok board') :
    ∃ start tally, s.curCards.entries.foldlM (scoreAgainst s.room s.cards k v) start = .ok tally ∧
      start.totalScore = 0 ∧ board'.datas = board.datas.set k tally.userScores ∧
      board'.totals = board.totals.set k ⟨tally.totalScore, tally.specialAdd, tally.normalAdd⟩ := by
  cases hsp : v.spType with
  | none =>
      simp only [scorePlayer, hsp] at hok
      obtain ⟨tally, hloop, hok⟩ := Lua.bind_eq_ok.mp hok
      refine ⟨_, tally, by simpa only [scoreAgainst, hsp] using hloop, rfl, ?_⟩
      split_ifs at hok
      · obtain ⟨user, -, hok⟩ := Lua.bind_eq_ok.mp hok
        cases hok
        exact ⟨rfl, rfl⟩
      · cases hok
        exact ⟨rfl, rfl⟩
  | some x =>
      simp only [scorePlayer, hsp] at hok
      obtain ⟨tally, hloop, hok⟩ := Lua.bind_eq_ok.mp hok
      cases hok
      exact ⟨_, tally, by simpa only [scoreAgainst, hsp] using hloop, rfl, rfl, rfl⟩

def RowDone (s : Showdown) (datas : LuaTable Uid (LuaTable Seat (List Int))) (k : Uid)
    (v : CurCards) : Prop :=
  ∀ kk vv, (kk, vv) ∈ s.curCards.entries → meets s.room.banker k kk = true →
    ∃ x, Passes s.room k v vv x ∧ (do
      let userScores ← datas.get k
      Lua.nth (← userScores.get (s.seatOf kk)) 7) = some x

/-- One player of the loop fills his row of the board and leaves the others alone. -/
theorem row_inv {k : Uid} {v : CurCards} (hk : (k, v) ∈ s.curCards.entries) {board board' : Board}
    (hok : scorePlayer s.room s.curCards s.cards board (k, v) = .ok board') :
    (∀ k', k' ≠ k → board'.datas.get k' = board.datas.get k') ∧ RowDone s board'.datas k v := by
  obtain ⟨start, tally, hloop, -, hdatas, -⟩ := scorePlayer_inv hok
  obtain ⟨-, hcolumns⟩ := loop_inv hk hloop
  refine ⟨fun k' hne => ?_, fun kk vv hkk hmeets => ?_⟩
  · rw [hdatas, LuaTable.get_set_of_ne _ _ (Ne.symm hne)]
  · obtain ⟨x, hpass, hx⟩ := hcolumns kk vv hkk hmeets
    refine ⟨x, hpass, ?_⟩
    rw [hdatas, LuaTable.get_set_self]
    exact hx

/-- The loop over the players adds their totals, each under his own key. -/
theorem board_sum {l : List (Uid × CurCards)} (hl : ∀ entry ∈ l, entry ∈ s.curCards.entries)
    (hnodup : (l.map Prod.fst).Nodup) {board board' : Board}
    (hfresh : ∀ entry ∈ l, entry.1 ∉ board.totals.keys)
    (hok : l.foldlM (scorePlayer s.room s.curCards s.cards) board = .ok board') :
    (board'.totals.entries.map fun entry => entry.2.totalScore).sum =
      (board.totals.entries.map fun entry => entry.2.totalScore).sum +
        (l.map fun player => (s.curCards.entries.map (gain s player.1 player.2)).sum).sum := by
  induction l generalizing board with
  | nil =>
      cases hok
      simp
  | cons player rest ih =>
      obtain ⟨k, v⟩ := player
      rw [List.foldlM_cons] at hok
      obtain ⟨board₁, hplayer, hrest⟩ := Lua.bind_eq_ok.mp hok
      obtain ⟨start, tally, hloop, hstart, -, htotals⟩ := scorePlayer_inv hplayer
      obtain ⟨htotal, -⟩ := loop_inv (hl _ (List.mem_cons_self ..)) hloop
      rw [List.map_cons, List.nodup_cons] at hnodup
      have hfresh' : ∀ entry ∈ rest, entry.1 ∉ board₁.totals.keys := by
        intro entry hentry hmem
        rw [htotals, LuaTable.mem_keys_set] at hmem
        rcases hmem with hsame | hmem
        · exact hnodup.1 (List.mem_map.mpr ⟨entry, hentry, hsame⟩)
        · exact hfresh entry (List.mem_cons_of_mem _ hentry) hmem
      rw [ih (fun entry h => hl entry (List.mem_cons_of_mem _ h)) hnodup.2 hfresh' hrest, htotals,
        LuaTable.entries_set_of_notMem _ _ (hfresh _ (List.mem_cons_self ..)), List.map_append,
        List.sum_append, List.map_cons, List.map_cons, List.sum_cons, List.sum_cons, htotal, hstart]
      simp only [List.map_nil, List.sum_nil]
      omega

theorem calculateScore_inv {clientTime time : Nat} {scores : Scores}
    (hok : calculateScore s.room clientTime = .ok (scores, time)) :
    scores.sumTotals = (s.curCards.entries.map fun player =>
        (s.curCards.entries.map (gain s player.1 player.2)).sum).sum ∧
      ∀ k v kk vv, s.Scored k v kk vv →
        ∃ x, Passes s.room k v vv x ∧ scores.against k (s.seatOf kk) = some x := by
  simp only [calculateScore, s.curCards_eq, s.cards_eq, Lua.need_some, Lua.ok_bind,
    Option.getD_some] at hok
  obtain ⟨board, hboard, hok⟩ := Lua.bind_eq_ok.mp hok
  cases hok
  refine ⟨?_, ?_⟩
  · rw [Scores.sumTotals, board_sum (fun _ h => h) s.curCards.nodupKeys (by simp) hboard]
    simp
  · have hrows := (Lua.foldlM_ok_fill (fun (board : Board) k => board.datas.get k) Prod.fst
      (fun player row => ∀ kk vv, (kk, vv) ∈ s.curCards.entries →
        meets s.room.banker player.1 kk = true → ∃ x, Passes s.room player.1 player.2 vv x ∧ (do
          let userScores ← row
          Lua.nth (← userScores.get (s.seatOf kk)) 7) = some x)
      s.curCards.nodupKeys (fun _ hplayer _ _ hok => row_inv hplayer hok) hboard).2
    intro k v kk vv hscored
    exact hrows (k, v) hscored.left kk vv hscored.right hscored.meets

/-- One turn of the ordinary loop keeps the sweep alive only against an opponent it swept. -/
theorem scoreOrdinary_swat {room : Room} {cards : LuaTable Uid Dealt} {k kk : Uid} {v vv : CurCards}
    {tally tally' : Tally} (hok : scoreOrdinary room cards k v tally (kk, vv) = .ok tally') :
    tally'.peopleNum = tally.peopleNum + 1 ∧
      (tally'.curSwat = 1 → tally.curSwat = 1 ∧ (meets room.banker k kk = true →
        vv.spType = none ∧ Sweeps room.roomInfo.danse v vv)) := by
  cases hmeets : meets room.banker k kk with
  | false =>
      simp only [scoreOrdinary, hmeets, Bool.false_eq_true, if_false, Lua.pure_eq_ok,
        Except.ok.injEq] at hok
      subst hok
      exact ⟨rfl, fun h => ⟨h, fun h => by cases h⟩⟩
  | true =>
      cases hvv : vv.spType with
      | some y =>
          simp only [scoreOrdinary, hmeets, if_true, hvv] at hok
          obtain ⟨z, -, hok⟩ := Lua.bind_eq_ok.mp hok
          obtain ⟨dealt, -, hok⟩ := Lua.bind_eq_ok.mp hok
          cases hok
          exact ⟨rfl, fun h => by cases h⟩
      | none =>
          simp only [scoreOrdinary, hmeets, if_true, hvv] at hok
          obtain ⟨dealt, -, hok⟩ := Lua.bind_eq_ok.mp hok
          obtain ⟨pair, hpair, hok⟩ := Lua.bind_eq_ok.mp hok
          cases hswat : pair.swat with
          | false =>
              simp only [hswat, Bool.false_eq_true, if_false] at hok
              cases hok
              exact ⟨rfl, fun h => by cases h⟩
          | true =>
              simp only [hswat, if_true] at hok
              obtain ⟨user, -, hok⟩ := Lua.bind_eq_ok.mp hok
              cases hok
              exact ⟨rfl, fun h => ⟨h, fun _ => ⟨rfl, pair, hpair, hswat⟩⟩⟩

theorem loop_swat {room : Room} {cards : LuaTable Uid Dealt} {k : Uid} {v : CurCards}
    {l : List (Uid × CurCards)} {tally tally' : Tally}
    (hok : l.foldlM (scoreOrdinary room cards k v) tally = .ok tally') :
    tally'.peopleNum = tally.peopleNum + l.length ∧
      (tally'.curSwat = 1 → tally.curSwat = 1 ∧ ∀ kk vv, (kk, vv) ∈ l →
        meets room.banker k kk = true → vv.spType = none ∧ Sweeps room.roomInfo.danse v vv) := by
  induction l generalizing tally with
  | nil =>
      cases hok
      exact ⟨rfl, fun h => ⟨h, fun _ _ h => by simp at h⟩⟩
  | cons entry rest ih =>
      obtain ⟨kk, vv⟩ := entry
      rw [List.foldlM_cons] at hok
      obtain ⟨tally₁, hturn, hrest⟩ := Lua.bind_eq_ok.mp hok
      obtain ⟨hnum, hswat⟩ := scoreOrdinary_swat hturn
      obtain ⟨hnum', hswat'⟩ := ih hrest
      refine ⟨by rw [hnum', hnum, List.length_cons]; omega, fun h => ?_⟩
      obtain ⟨h₁, hall⟩ := hswat' h
      obtain ⟨h₀, hthis⟩ := hswat h₁
      refine ⟨h₀, fun kk' vv' hmem hmeets => ?_⟩
      rcases List.mem_cons.mp hmem with heq | hmem
      · cases heq
        exact hthis hmeets
      · exact hall kk' vv' hmem hmeets

theorem exists_other {l : List (Uid × CurCards)} (hnodup : (l.map Prod.fst).Nodup)
    (hlen : 2 ≤ l.length) (k : Uid) : ∃ entry ∈ l, entry.1 ≠ k := by
  match l, hlen with
  | x :: y :: rest, _ =>
      by_cases hx : x.1 = k
      · refine ⟨y, by simp, fun hy => ?_⟩
        simp [hx, hy] at hnodup
      · exact ⟨x, by simp, hx⟩

theorem scorePlayer_ok {k : Uid} {v : CurCards} (hk : (k, v) ∈ s.curCards.entries)
    (hpass : ∀ kk vv, s.Scored k v kk vv → ∃ x, Passes s.room k v vv x) (board : Board) :
    ∃ board', scorePlayer s.room s.curCards s.cards board (k, v) = .ok board' := by
  have hbody : ∀ entry ∈ s.curCards.entries, ∀ tally,
      ∃ tally', scoreAgainst s.room s.cards k v tally entry = .ok tally' := by
    rintro ⟨kk, vv⟩ hkk tally
    obtain ⟨dealt, hdealt, -⟩ := seatOf_spec hkk
    exact scoreAgainst_ok hdealt tally fun hmeets => hpass kk vv ⟨hk, hkk, hmeets⟩
  cases hsp : v.spType with
  | some x =>
      obtain ⟨tally, hloop⟩ := Lua.foldlM_ok_of_body hbody
        { shootLen := board.shootLen, clientTime := board.clientTime + 5 }
      simp only [scoreAgainst, hsp] at hloop
      simp [scorePlayer, hsp, hloop]
  | none =>
      obtain ⟨tally, hloop⟩ := Lua.foldlM_ok_of_body hbody
        { shootLen := board.shootLen, clientTime := board.clientTime }
      simp only [scoreAgainst, hsp] at hloop
      simp only [scorePlayer, hsp, hloop, Lua.ok_bind]
      split_ifs with hall
      · obtain ⟨hswat, -, hpeople, hbanker⟩ := hall
        obtain ⟨hnum, hswept⟩ := loop_swat hloop
        obtain ⟨-, hswept⟩ := hswept hswat
        have hlen : 2 ≤ s.curCards.entries.length := by
          simp only at hnum
          omega
        obtain ⟨⟨kk, vv⟩, hkk, hne⟩ := exists_other s.curCards.nodupKeys hlen k
        have hmeets : meets s.room.banker k kk = true := by simp [meets, hbanker, hne]
        obtain ⟨hsp', hsweeps⟩ := hswept kk vv hkk hmeets
        obtain ⟨x, -, hpresent⟩ := hpass kk vv ⟨hk, hkk, hmeets⟩
        obtain ⟨user, huser⟩ := (LuaTable.mem_keys_iff _).mp (hpresent hsp hsp' hsweeps)
        simp [huser]
      · simp

theorem calculateScore_ok
    (hpass : ∀ k v kk vv, s.Scored k v kk vv → ∃ x, Passes s.room k v vv x) (clientTime : Nat) :
    ∃ scores time, calculateScore s.room clientTime = .ok (scores, time) := by
  have hbody : ∀ player ∈ s.curCards.entries, ∀ board,
      ∃ board', scorePlayer s.room s.curCards s.cards board player = .ok board' := by
    rintro ⟨k, v⟩ hk board
    exact scorePlayer_ok hk (fun kk vv hscored => hpass k v kk vv hscored) board
  obtain ⟨board, hboard⟩ := Lua.foldlM_ok_of_body hbody { clientTime }
  simp only [calculateScore, s.curCards_eq, s.cards_eq, Lua.need_some, Lua.ok_bind,
    Option.getD_some, hboard]
  exact ⟨_, _, rfl⟩

end Loops

theorem Showdown.Scored.symm {s : Showdown} {k kk : Uid} {v vv : CurCards}
    (h : s.Scored k v kk vv) : s.Scored kk vv k v := by
  refine ⟨h.right, h.left, ?_⟩
  have := h.meets
  simp only [Daboluo.meets] at this ⊢
  aesop

/-- **Zero-sum scoring.** A round is scored without an error, with opposite scores inside every pair
and totals that sum to zero, exactly when no unfair pair meets and no sweeping player has left. -/
theorem calculateScore_zeroSum_iff (s : Showdown) (clientTime : Nat) :
    ZeroSum s clientTime ↔ Fair s := by
  constructor
  · rintro ⟨scores, time, hok, hanti, -⟩
    obtain ⟨-, hcolumns⟩ := calculateScore_inv hok
    refine ⟨?_, ?_⟩
    · intro k v kk vv hscored
      obtain ⟨x, hpass, hx⟩ := hcolumns k v kk vv hscored
      obtain ⟨y, hpass', hy⟩ := hcolumns kk vv k v hscored.symm
      obtain ⟨z, hz, hz'⟩ := hanti k v kk vv hscored
      have hxz : x = z := Option.some.inj (hx.symm.trans hz)
      have hyz : y = -z := Option.some.inj (hy.symm.trans hz')
      subst hxz hyz
      exact (pairScore_antisymm_iff (s.formed _ hscored.left) (s.formed _ hscored.right)).mp
        ⟨x, hpass.1, hpass'.1⟩
    · intro k v kk vv hscored hsp hsp' hsweeps
      obtain ⟨x, hpass, -⟩ := hcolumns k v kk vv hscored
      exact hpass.2 hsp hsp' hsweeps
  · intro hfair
    have hpair : ∀ k v kk vv, s.Scored k v kk vv → ∃ x,
        Passes s.room k v vv x ∧ pairScore s.room.roomInfo.danse vv v = .ok (-x) := by
      intro k v kk vv hscored
      obtain ⟨x, hx, hx'⟩ := (pairScore_antisymm_iff (s.formed _ hscored.left)
        (s.formed _ hscored.right)).mpr (hfair.pairs k v kk vv hscored)
      exact ⟨x, ⟨hx, hfair.present k v kk vv hscored⟩, hx'⟩
    obtain ⟨scores, time, hok⟩ := calculateScore_ok (fun k v kk vv hscored =>
      (hpair k v kk vv hscored).imp fun _ h => h.1) clientTime
    obtain ⟨hsum, hcolumns⟩ := calculateScore_inv hok
    refine ⟨scores, time, hok, ?_, ?_⟩
    · intro k v kk vv hscored
      obtain ⟨x, hpass, hx⟩ := hcolumns k v kk vv hscored
      obtain ⟨y, hpass', hy⟩ := hcolumns kk vv k v hscored.symm
      obtain ⟨z, hz, hz'⟩ := hpair k v kk vv hscored
      have hxz : x = z := Except.ok.inj (hpass.1.symm.trans hz.1)
      have hyz : y = -z := Except.ok.inj (hpass'.1.symm.trans hz')
      subst hxz hyz
      exact ⟨x, hx, hy⟩
    · rw [hsum]
      refine List.sum_sum_eq_zero_of_antisymm s.curCards.entries
        (fun player opponent => gain s player.1 player.2 opponent) ?_
      rintro ⟨k, v⟩ hk ⟨kk, vv⟩ hkk
      by_cases hmeets : meets s.room.banker k kk = true
      · have hscored : s.Scored k v kk vv := ⟨hk, hkk, hmeets⟩
        obtain ⟨x, hpass, hx'⟩ := hpair k v kk vv hscored
        simp [gain, hmeets, hscored.symm.meets, hpass.1, hx']
      · have hmeets' : ¬ meets s.room.banker kk k = true := fun h =>
          hmeets (Showdown.Scored.symm ⟨hkk, hk, h⟩).meets
        simp [gain, hmeets, hmeets']

def duel (danse : Bool) (v vv : CurCards) (hv : Formed v) (hvv : Formed vv) : Showdown :=
  let curCards : LuaTable Uid CurCards := ⟨[(1, v), (2, vv)], by simp⟩
  let cards : LuaTable Uid Dealt :=
    ⟨[(1, ⟨copy v.cards, v.spType, none, 1⟩), (2, ⟨copy vv.cards, vv.spType, none, 2⟩)], by simp⟩
  { room := {
      roomInfo := { danse }
      users := ⟨[(1, { id := 1, seat := some 1 }), (2, { id := 2, seat := some 2 })], by decide⟩
      cards := some cards
      curCards := some curCards }
    curCards := curCards
    cards := cards
    curCards_eq := rfl
    cards_eq := rfl
    dealt := by simp [curCards, cards, LuaTable.keys]
    seat_inj := by simp [cards]
    formed := by
      intro entry hentry
      simp only [curCards, List.mem_cons, List.not_mem_nil, or_false] at hentry
      rcases hentry with rfl | rfl
      · exact hv
      · exact hvv }

def oneSuit (values : List Int) : List Card := values.map fun value => { type := 4, value }

/-- A straight flush against a four of a kind in the bottom rows of a one-suit room. -/
def oneSuitDuel : Showdown :=
  duel true
    { cType := some [9, 6, 1], cards := some (oneSuit [1, 2, 3, 4, 5, 1, 3, 5, 7, 9, 2, 4, 6]) }
    { cType := some [8, 6, 1], cards := some (oneSuit [6, 6, 6, 6, 8, 2, 4, 7, 9, 10, 1, 3, 5]) }
    (.ordinary _ [9, 6, 1] rfl ⟨rfl, rfl, by decide, by decide, by decide⟩)
    (.ordinary _ [8, 6, 1] rfl ⟨rfl, rfl, by decide, by decide, by decide⟩)

def dragonDuel : Showdown :=
  duel false { spType := some 12 } { spType := some (-1) } (.special 12 52 rfl rfl)
    (.special (-1) 20 rfl rfl)

theorem calculateScore_not_zeroSum : ¬ ZeroSum oneSuitDuel 0 ∧ ¬ ZeroSum dragonDuel 0 := by
  constructor
  · rintro ⟨scores, time, hok, -⟩
    have herror : calculateScore oneSuitDuel.room 0 = .error .arithmeticOnNil := rfl
    rw [herror] at hok
    cases hok
  · rintro ⟨scores, time, hok, hanti, -⟩
    have hleft : (calculateScore dragonDuel.room 0).toOption.map (·.1.against 1 2) =
        some (some 52) := rfl
    have hright : (calculateScore dragonDuel.room 0).toOption.map (·.1.against 2 1) =
        some (some 20) := rfl
    rw [hok] at hleft hright
    obtain ⟨x, hx, hx'⟩ := hanti 1 { spType := some 12 } 2 { spType := some (-1) }
      ⟨by simp [dragonDuel, duel], by simp [dragonDuel, duel], rfl⟩
    have h₁ : some x = some 52 := hx.symm.trans (Option.some.inj hleft)
    have h₂ : some (-x) = some 20 := hx'.symm.trans (Option.some.inj hright)
    simp only [Option.some.injEq] at h₁ h₂
    omega

end SdyServer.Daboluo
