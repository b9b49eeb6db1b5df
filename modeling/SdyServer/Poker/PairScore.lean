import SdyServer.Daboluo.PairScore
import SdyServer.Poker.Score

/-!
# One pair of thirteen cards

What the two runs of a pair make of it, once from each side. Every row ends in a point for one side
or in a tie, and the other side sees the opposite.
-/

namespace SdyServer.Poker

open Daboluo (Uid Seat Dealt CurCards PairTally bump danseRank rowStart copy meets
  specialScore getSpecialScoreSmall ThreeRows Formed)

section Rows

/-- What one row does to the tally, when `res` says who wins it with a hand of type `com`. -/
def rowResult (dyj danse : Bool) (i : Nat) (com : Int) (res : Option Bool) (tally : PairTally) :
    PairTally :=
  match res with
  | some true => { addScore dyj danse i com 1 tally with swated := false }
  | some false => { addScore dyj danse i com (-1) tally with swat := false }
  | none => { tally with swat := false, swated := false }

variable {dyj danse : Bool} {i : Nat} {com : Int} {res : Option Bool} {tally : PairTally}

theorem getNomalScore_nonneg {value : Int} (hvalue : getNomalScore dyj i com danse = some value) :
    0 ≤ value := by
  unfold getNomalScore at hvalue
  grind

theorem addScore_flip (dyj danse : Bool) (i : Nat) (com jj : Int) (tally : PairTally) :
    addScore dyj danse i com (-jj) tally.flip = (addScore dyj danse i com jj tally).flip := by
  unfold addScore
  cases getNomalScore dyj i com danse with
  | none =>
      simp only [PairTally.flip, Daboluo.bump_map_neg, PairTally.mk.injEq, and_self,
        true_and, and_true]
      omega
  | some value =>
      have hneg : value * -jj = -(value * jj) := Int.mul_neg ..
      simp only [PairTally.flip, hneg, Daboluo.bump_map_neg, PairTally.mk.injEq, and_self, true_and,
        and_true]
      omega

theorem rowResult_flip :
    rowResult dyj danse i com (res.map (!·)) tally.flip =
    (rowResult dyj danse i com res tally).flip := by
  rcases res with _ | _ | _
  · rfl
  · have h := addScore_flip dyj danse i com (-1) tally
    rw [neg_neg] at h
    simp only [rowResult, Option.map_some, Bool.not_false, h]
    rfl
  · have h := addScore_flip dyj danse i com 1 tally
    simp only [rowResult, Option.map_some, Bool.not_true, h]
    rfl

theorem length_addScore (jj : Int) :
    (addScore dyj danse i com jj tally).scoreArr.length = tally.scoreArr.length := by
  unfold addScore
  cases getNomalScore dyj i com danse <;> simp [bump]

theorem length_rowResult :
    (rowResult dyj danse i com res tally).scoreArr.length = tally.scoreArr.length := by
  rcases res with _ | _ | _
  · rfl
  · exact length_addScore (-1)
  · exact length_addScore 1

/-- Only a row that is won keeps the sweep alive. It earns a point at least, and ends the other
side's sweep. -/
theorem rowResult_swat (hswat : (rowResult dyj danse i com res tally).swat = true) :
    tally.swat = true ∧ tally.totalScore < (rowResult dyj danse i com res tally).totalScore ∧
      (rowResult dyj danse i com res tally).swated = false := by
  rcases res with _ | _ | _
  · cases hswat
  · cases hswat
  · simp only [rowResult] at hswat ⊢
    unfold addScore at hswat ⊢
    cases hvalue : getNomalScore dyj i com danse with
    | none =>
        simp only [hvalue] at hswat
        exact ⟨hswat, Int.lt_succ _, trivial⟩
    | some value =>
        have hpos := getNomalScore_nonneg hvalue
        simp only [hvalue] at hswat
        refine ⟨hswat, ?_, trivial⟩
        dsimp only
        omega

end Rows

section CompareScore

variable {v vv : CurCards} {a b : List Daboluo.Card} {types types' : List Int}

/-- One row of a pair has one result, which the two runs see from their sides. -/
theorem compareRow_eq (dyj danse : Bool) (hv : ThreeRows v a types)
    (hvv : ThreeRows vv b types') {i : Nat}
    (hi : i ∈ [1, 2, 3]) :
    ∃ com res, (∀ tally, compareRow dyj danse v vv tally i =
      .ok (rowResult dyj danse i com res tally)) ∧
      ∀ tally, compareRow dyj danse vv v tally i =
        .ok (rowResult dyj danse i com (res.map (!·)) tally) := by
  obtain ⟨t, ht⟩ := hv.type hi
  obtain ⟨t', ht'⟩ := hvv.type hi
  simp only [compareRow, hv.types_eq, hvv.types_eq, hv.cards_eq, hvv.cards_eq, ht, ht',
    Lua.need_some,
    Lua.ok_bind, Lua.pure_eq_ok, copy, Option.getD_some, ne_eq, Option.some.injEq]
  by_cases heq : t = t'
  · subst heq
    simp only [not_true_eq_false, if_false]
    cases hfn : Daboluo.compare (if t = 11 then 4 else t) with
    | none => exact ⟨t, none, fun _ => rfl, fun _ => rfl⟩
    | some fn =>
        obtain ⟨res, hab, hba⟩ := Daboluo.compare_swaps hfn (Daboluo.rowStart_cases i) hv.complete
          hvv.complete (hv.fits i hi t ht) (hvv.fits i hi t ht')
        refine ⟨t, res, fun tally => ?_, fun tally => ?_⟩
        · simp only [hab, Lua.ok_bind]
          rcases res with _ | _ | _ <;> rfl
        · simp only [hba, Lua.ok_bind]
          rcases res with _ | _ | _ <;> rfl
  · have hrank : (if danse then danseRank t else t) ≠ if danse then danseRank t' else t' := by
      unfold danseRank
      split_ifs <;> omega
    simp only [heq, Ne.symm heq, not_false_eq_true, if_true]
    rcases lt_or_gt_of_ne hrank with hlt | hgt
    · refine ⟨t', some false, fun tally => ?_, fun tally => ?_⟩
      · rw [if_neg (not_lt.mpr hlt.le), if_pos hlt]
        rfl
      · rw [if_pos hlt]
        rfl
    · refine ⟨t, some true, fun tally => ?_, fun tally => ?_⟩
      · rw [if_pos hgt]
        rfl
      · rw [if_neg (not_lt.mpr hgt.le), if_pos hgt]
        rfl

/-- A pair is scored without an error, oppositely from its two sides, and a sweep wins. -/
theorem compareScore_eq (dyj danse : Bool) (hv : ThreeRows v a types)
    (hvv : ThreeRows vv b types') :
    ∃ pair, compareScore dyj danse v vv = .ok pair ∧ compareScore dyj danse vv v = .ok pair.flip ∧
      pair.scoreArr.length = 7 ∧
      (pair.swat = true → 0 < pair.totalScore ∧ pair.swated = false) := by
  obtain ⟨c₁, r₁, h₁, h₁'⟩ := compareRow_eq dyj danse hv hvv (i := 1) (by decide)
  obtain ⟨c₂, r₂, h₂, h₂'⟩ := compareRow_eq dyj danse hv hvv (i := 2) (by decide)
  obtain ⟨c₃, r₃, h₃, h₃'⟩ := compareRow_eq dyj danse hv hvv (i := 3) (by decide)
  refine ⟨rowResult dyj danse 3 c₃ r₃ (rowResult dyj danse 2 c₂ r₂
    (rowResult dyj danse 1 c₁ r₁ PairTally.start)), ?_, ?_, ?_, fun hswat => ?_⟩
  · simp [compareScore, h₁, h₂, h₃]
  · have hstart : PairTally.start.flip = PairTally.start := rfl
    rw [← rowResult_flip, ← rowResult_flip, ← rowResult_flip, hstart]
    simp [compareScore, h₁', h₂', h₃']
  · rw [length_rowResult, length_rowResult, length_rowResult]
    rfl
  · obtain ⟨hswat₂, hlt₃, hend⟩ := rowResult_swat hswat
    obtain ⟨hswat₁, hlt₂, -⟩ := rowResult_swat hswat₂
    obtain ⟨-, hlt₁, -⟩ := rowResult_swat hswat₁
    exact ⟨hlt₁.trans (hlt₂.trans hlt₃), hend⟩

end CompareScore

section PairScore

theorem sweepScore_flip (pair : PairTally) : sweepScore pair.flip = -sweepScore pair := by
  obtain ⟨scoreArr, totalScore, swat, swated⟩ := pair
  cases swat <;> cases swated <;> simp [sweepScore, PairTally.flip]

def pairScore (dyj danse : Bool) (v vv : CurCards) : Lua Int :=
  match v.spType, vv.spType with
  | none, none => do return sweepScore (← compareScore dyj danse v vv)
  | none, some y => do return -(← Lua.need .arithmeticOnNil (getSpecialScoreSmall y))
  | some x, y? => specialScore x y?

/-- `v` wins all three rows against `vv`. -/
def Sweeps (dyj danse : Bool) (v vv : CurCards) : Prop :=
  ∃ pair, compareScore dyj danse v vv = .ok pair ∧ pair.swat = true

/-- The pairs whose two sides agree: no six-of-a-kind tie, and no dragon against a six of a kind. -/
def PairFair (v vv : CurCards) : Prop :=
  match v.spType, vv.spType with
  | some x, some y => ¬(x = y ∧ x < 0) ∧ ¬(12 ≤ x ∧ y < 0) ∧ ¬(12 ≤ y ∧ x < 0)
  | _, _ => True

variable {dyj danse : Bool} {v vv : CurCards}

/-- A pair is scored oppositely from its two sides exactly when it is a fair one. -/
theorem pairScore_antisymm_iff (hv : Formed v) (hvv : Formed vv) :
    (∃ x, pairScore dyj danse v vv = .ok x ∧ pairScore dyj danse vv v = .ok (-x)) ↔
      PairFair v vv := by
  rcases hv with ⟨a, types, hsp, hrows⟩ | ⟨x, sx, hsp, hsx⟩
  · rcases hvv with ⟨b, types', hsp', hrows'⟩ | ⟨y, sy, hsp', hsy⟩
    · obtain ⟨pair, hpair, hpair', -⟩ := compareScore_eq dyj danse hrows hrows'
      simp only [pairScore, PairFair, hsp, hsp', iff_true]
      exact ⟨sweepScore pair, by simp [hpair], by simp [hpair', sweepScore_flip]⟩
    · simp [pairScore, PairFair, hsp, hsp', specialScore, hsy]
  · rcases hvv with ⟨b, types', hsp', hrows'⟩ | ⟨y, sy, hsp', hsy⟩
    · simp [pairScore, PairFair, hsp, hsp', specialScore, hsx]
    · simp only [pairScore, PairFair, hsp, hsp']
      exact Daboluo.specialScore_antisymm_iff hsx hsy

theorem pairScore_pos_of_sweeps (hv : Formed v) (hvv : Formed vv) (hsp : v.spType = none)
    (hsp' : vv.spType = none) (hsweeps : Sweeps dyj danse v vv) {x : Int}
    (hx : pairScore dyj danse v vv = .ok x) : 0 < x := by
  obtain ⟨pair, hpair, hswat⟩ := hsweeps
  rcases hv with ⟨a, types, -, hrows⟩ | ⟨y, sy, hy, -⟩
  · rcases hvv with ⟨b, types', -, hrows'⟩ | ⟨y, sy, hy, -⟩
    · obtain ⟨pair', hpair', -, -, hwin⟩ := compareScore_eq dyj danse hrows hrows'
      cases hpair.symm.trans hpair'
      obtain ⟨hpos, hend⟩ := hwin hswat
      simp only [pairScore, hsp, hsp', hpair, Lua.ok_bind, Lua.pure_eq_ok, sweepScore, hswat, hend,
        if_true, Bool.false_eq_true, if_false, Except.ok.injEq] at hx
      omega
    · rw [hsp'] at hy
      cases hy
  · rw [hsp] at hy
    cases hy

end PairScore

section Turn

/-- The loop over the opponents, of whichever kind the player's own submission asks for. -/
def scoreAgainst (room : Room) (k : Uid) (v : CurCards) : Tally → Uid × CurCards → Lua Tally :=
  match v.spType with
  | none => scoreOrdinary room k v
  | some x => scoreSpecial room k x

/-- A pair that the loop gets through: the score exists, and a player who sweeps is in the room. -/
def Passes (room : Room) (k : Uid) (v vv : CurCards) (x : Int) : Prop :=
  pairScore room.dyj room.roomInfo.danse v vv = .ok x ∧
    (v.spType = none → vv.spType = none → Sweeps room.dyj room.roomInfo.danse v vv →
      k ∈ room.users.keys)

structure Adds (room : Room) (k : Uid) (v vv : CurCards) (seat : Seat)
    (tally tally' : Tally) (x : Int) :
    Prop where
  passes : Passes room k v vv x
  total : tally'.totalScore = tally.totalScore + x
  parts : tally'.normalAdd + tally'.specialAdd = tally.normalAdd + tally.specialAdd + x
  column : ∃ scoreArr, tally'.userScores = tally.userScores.set seat scoreArr ∧
    Lua.nth scoreArr 7 = some x
  swat : v.spType = none → (tally'.curSwat = 1 ↔ tally.curSwat = 1 ∧ vv.spType = none ∧
    Sweeps room.dyj room.roomInfo.danse v vv)
  people : v.spType = none → tally'.peopleNum = tally.peopleNum + 1

variable {room : Room} {k kk : Uid} {v vv : CurCards} {dealt : Dealt} {tally tally' : Tally}

theorem length_scoreArr (hv : Formed v) (hvv : Formed vv) (hsp : v.spType = none)
    (hsp' : vv.spType = none) {dyj danse : Bool} {pair : PairTally}
    (hok : compareScore dyj danse v vv = .ok pair) : pair.scoreArr.length = 7 := by
  rcases hv with ⟨a, types, -, hrows⟩ | ⟨x, sx, hx, -⟩
  · rcases hvv with ⟨b, types', -, hrows'⟩ | ⟨y, sy, hy, -⟩
    · obtain ⟨pair', hok', -, hlen, -⟩ := compareScore_eq dyj danse hrows hrows'
      cases hok.symm.trans hok'
      exact hlen
    · simp [hsp'] at hy
  · simp [hsp] at hx

theorem scoreAgainst_skip (hmeets : meets room.banker k kk = false)
    (hok : scoreAgainst room k v tally (kk, vv) = .ok tally') :
    tally'.userScores = tally.userScores ∧ tally'.totalScore = tally.totalScore ∧
      tally'.normalAdd + tally'.specialAdd = tally.normalAdd + tally.specialAdd ∧
      tally'.curSwat = tally.curSwat ∧
      (v.spType = none → tally'.peopleNum = tally.peopleNum + 1) := by
  cases hv : v.spType <;>
    simp only [scoreAgainst, hv, scoreOrdinary, scoreSpecial, hmeets, Bool.false_eq_true, if_false,
      Lua.pure_eq_ok, Except.ok.injEq] at hok <;>
    subst hok <;> exact ⟨rfl, rfl, rfl, rfl, fun h => by cases h <;> rfl⟩

theorem scoreAgainst_adds (hv : Formed v) (hvv : Formed vv)
    (hdealt : room.cards.get kk = some dealt)
    (hmeets : meets room.banker k kk = true)
    (hok : scoreAgainst room k v tally (kk, vv) = .ok tally') :
    ∃ x, Adds room k v vv dealt.seat tally tally' x := by
  cases hsp : v.spType with
  | some y =>
      simp only [scoreAgainst, hsp, scoreSpecial, hmeets, if_true, hdealt, Lua.need_some,
        Lua.ok_bind] at hok
      obtain ⟨x, hx, hok⟩ := Lua.bind_eq_ok.mp hok
      cases hok
      have hpass : Passes room k v vv x :=
        ⟨by simp only [pairScore, hsp, hx], fun h => by simp [hsp] at h⟩
      exact ⟨x, hpass, rfl, by dsimp only; omega, ⟨_, rfl, rfl⟩, fun h => by simp [hsp] at h,
        fun h => by simp [hsp] at h⟩
  | none =>
      cases hsp' : vv.spType with
      | some y =>
          simp only [scoreAgainst, hsp, scoreOrdinary, hmeets, if_true, hsp', hdealt, Lua.need_some,
            Lua.ok_bind] at hok
          obtain ⟨x, hx, hok⟩ := Lua.bind_eq_ok.mp hok
          cases hok
          have hpass : Passes room k v vv (-x) :=
            ⟨by simp only [pairScore, hsp, hsp', hx, Lua.ok_bind, Lua.pure_eq_ok],
              fun _ h => by simp [hsp'] at h⟩
          exact ⟨-x, hpass, rfl, by dsimp only; omega, ⟨_, rfl, rfl⟩, fun _ => by simp [hsp'],
            fun _ => rfl⟩
      | none =>
          simp only [scoreAgainst, hsp, scoreOrdinary, hmeets, if_true, hsp', hdealt, Lua.need_some,
            Lua.ok_bind] at hok
          obtain ⟨pair, hpair, hok⟩ := Lua.bind_eq_ok.mp hok
          have hseven := length_scoreArr hv hvv hsp hsp' hpair
          have hscore : pairScore room.dyj room.roomInfo.danse v vv = .ok (sweepScore pair) := by
            simp only [pairScore, hsp, hsp', hpair, Lua.ok_bind, Lua.pure_eq_ok]
          have hlast : Lua.nth (pair.scoreArr.set 6 (sweepScore pair)) 7 =
              some (sweepScore pair) := by
            simp [Lua.nth, hseven]
          have hsweeps : Sweeps room.dyj room.roomInfo.danse v vv ↔ pair.swat = true := by
            constructor
            · rintro ⟨pair', hpair', hswat⟩
              cases hpair.symm.trans hpair'
              exact hswat
            · exact fun hswat => ⟨pair, hpair, hswat⟩
          refine ⟨sweepScore pair, ?_⟩
          cases hswat : pair.swat with
          | false =>
              simp only [hswat, Bool.false_eq_true, if_false, Lua.pure_eq_ok, Lua.ok_bind,
                Except.ok.injEq] at hok
              subst hok
              refine ⟨⟨hscore, fun _ _ h => ?_⟩,
                rfl, by dsimp only; omega, ⟨_, rfl, hlast⟩, fun _ => ?_,
                fun _ => rfl⟩
              · rw [hsweeps, hswat] at h
                cases h
              · simp [hsweeps, hswat]
          | true =>
              simp only [hswat, if_true] at hok
              obtain ⟨user, huser, hok⟩ := Lua.bind_eq_ok.mp hok
              cases hok
              refine ⟨⟨hscore, fun _ _ _ => ?_⟩,
                rfl, by dsimp only; omega, ⟨_, rfl, hlast⟩, fun _ => ?_,
                fun _ => rfl⟩
              · rw [Lua.need_eq_ok] at huser
                exact (LuaTable.mem_keys_iff _).2 ⟨user, huser⟩
              · simp [hsp', hsweeps, hswat]

theorem scoreAgainst_ok (hdealt : room.cards.get kk = some dealt) (tally : Tally)
    (hpass : meets room.banker k kk = true → ∃ x, Passes room k v vv x) :
    ∃ tally', scoreAgainst room k v tally (kk, vv) = .ok tally' := by
  cases hmeets : meets room.banker k kk with
  | false =>
      cases hsp : v.spType <;> simp [scoreAgainst, hsp, scoreOrdinary, scoreSpecial, hmeets]
  | true =>
      obtain ⟨x, hscore, hpresent⟩ := hpass hmeets
      cases hsp : v.spType with
      | some y =>
          simp only [pairScore, hsp] at hscore
          simp [scoreAgainst, hsp, scoreSpecial, hmeets, hdealt, hscore]
      | none =>
          cases hsp' : vv.spType with
          | some y =>
              simp only [pairScore, hsp, hsp'] at hscore
              obtain ⟨z, hz, -⟩ := Lua.bind_eq_ok.mp hscore
              simp [scoreAgainst, hsp, scoreOrdinary, hmeets, hsp', hdealt, hz]
          | none =>
              simp only [pairScore, hsp, hsp'] at hscore
              obtain ⟨pair, hpair, -⟩ := Lua.bind_eq_ok.mp hscore
              cases hswat : pair.swat with
              | false => simp [scoreAgainst, hsp, scoreOrdinary, hmeets, hsp', hdealt, hpair, hswat]
              | true =>
                  obtain ⟨user, huser⟩ :=
                    (LuaTable.mem_keys_iff _).mp (hpresent hsp hsp' ⟨pair, hpair, hswat⟩)
                  simp [scoreAgainst, hsp, scoreOrdinary, hmeets, hsp', hdealt, hpair, hswat, huser]

end Turn

end SdyServer.Poker
