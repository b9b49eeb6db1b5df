import SdyServer.Daboluo.CompareSwap
import SdyServer.Daboluo.Score

/-!
# One pair, scored from both sides

A pair of players is scored twice, once from each side. `PairFair` is exactly when the two runs give
opposite scores, for ordinary and special hands alike.
-/

namespace SdyServer.Daboluo

section Flip

def PairTally.flip (tally : PairTally) : PairTally :=
  ⟨tally.scoreArr.map (-·), -tally.totalScore, tally.swated, tally.swat⟩

theorem bump_map_neg (scoreArr : List Int) (i : Nat) (x : Int) :
    bump (scoreArr.map (-·)) i (-x) = (bump scoreArr i x).map (-·) := by
  have hget : (scoreArr.map (-·)).getD (i - 1) 0 = -scoreArr.getD (i - 1) 0 := by
    simp only [List.getD_eq_getElem?_getD, List.getElem?_map]
    cases scoreArr[i - 1]? <;> simp
  rw [bump, bump, hget, List.map_set]
  congr 1
  omega

theorem getNomalScore_ok {i : Nat} {cards : List Card} (hcards : cards.length = 13) (com : Int)
    (danse : Bool) : ∃ value, getNomalScore i com danse cards = .ok value := by
  unfold getNomalScore
  simp only [valueAt_eq (show 0 < 11 by decide) (show 11 ≤ cards.length by omega),
    valueAt_eq (show 0 < 12 by decide) (show 12 ≤ cards.length by omega),
    valueAt_eq (show 0 < 13 by decide) (show 13 ≤ cards.length by omega), Lua.ok_bind,
    Lua.pure_eq_ok]
  split_ifs <;> exact ⟨_, rfl⟩

theorem addScore_flip {i : Nat} {cards : List Card} (hcards : cards.length = 13) (com : Int)
    (danse : Bool) (jj : Int) (tally : PairTally) :
    ∃ tally', addScore danse i cards com (some jj) tally = .ok tally' ∧
      addScore danse i cards com (some (-jj)) tally.flip = .ok tally'.flip ∧
      tally'.scoreArr.length = tally.scoreArr.length := by
  obtain ⟨value, hvalue⟩ := getNomalScore_ok (i := i) hcards com danse
  cases value with
  | none =>
      simp only [addScore, Lua.need_some, Lua.ok_bind, hvalue, Lua.pure_eq_ok]
      refine ⟨_, rfl, ?_, by simp [bump]⟩
      simp only [PairTally.flip, bump_map_neg, Except.ok.injEq, PairTally.mk.injEq,
        and_self, true_and,
        and_true]
      omega
  | some value =>
      simp only [addScore, Lua.need_some, Lua.ok_bind, hvalue, Lua.pure_eq_ok]
      refine ⟨_, rfl, ?_, by simp [bump]⟩
      have hneg : value * -jj = -(value * jj) := Int.mul_neg ..
      simp only [PairTally.flip, hneg, bump_map_neg, Except.ok.injEq, PairTally.mk.injEq, and_self,
        true_and, and_true]
      omega

end Flip

/-- An ordinary submission: thirteen cards in three sorted rows that fit their declared types. -/
structure ThreeRows (v : CurCards) (cards : List Card) (types : List Int) : Prop where
  cards_eq : v.cards = some cards
  types_eq : v.cType = some types
  length_cards : cards.length = 13
  length_types : types.length = 3
  fits : ∀ i ∈ [1, 2, 3], ∀ t ∈ Lua.nth types i, RowFits (rowStart i) t cards

section CompareScore

variable {v vv : CurCards} {a b : List Card} {types types' : List Int} {danse : Bool}

theorem ThreeRows.type (hv : ThreeRows v a types) {i : Nat} (hi : i ∈ [1, 2, 3]) :
    ∃ t, Lua.nth types i = some t := by
  have hlen := hv.length_types
  match types, hlen with
  | [b, m, t], _ =>
      simp only [List.mem_cons, List.not_mem_nil, or_false] at hi
      rcases hi with rfl | rfl | rfl
      · exact ⟨b, rfl⟩
      · exact ⟨m, rfl⟩
      · exact ⟨t, rfl⟩

theorem ThreeRows.complete (hv : ThreeRows v a types) : Complete a := by
  refine ⟨hv.length_cards, ?_⟩
  obtain ⟨t, ht⟩ := hv.type (i := 1) (by decide)
  have hsorted := (hv.fits 1 (by decide) t ht).sorted
  have hlen := hv.length_cards
  clear hv
  match a, hlen with
  | x :: y :: rest, _ => exact List.rel_of_pairwise_cons hsorted (List.mem_cons_self ..)

theorem rowStart_cases (i : Nat) : rowStart i = 1 ∨ rowStart i = 6 ∨ rowStart i = 11 := by
  unfold rowStart
  split_ifs <;> simp

theorem compareRow_flip (hv : ThreeRows v a types) (hvv : ThreeRows vv b types')
    (htypes : danse = false ∨ types = types') {i : Nat} (hi : i ∈ [1, 2, 3]) (tally : PairTally) :
    ∃ tally', compareRow danse v vv tally i = .ok tally' ∧
      compareRow danse vv v tally.flip i = .ok tally'.flip ∧
      tally'.scoreArr.length = tally.scoreArr.length := by
  obtain ⟨t, ht⟩ := hv.type hi
  obtain ⟨t', ht'⟩ := hvv.type hi
  -- whichever side wins the row, its own cards are scored
  have hwin : ∀ com, ∃ tally', addScore danse i a com (some 1) tally = .ok tally' ∧
      addScore danse i a com (some (-1)) tally.flip = .ok tally'.flip ∧
      tally'.scoreArr.length = tally.scoreArr.length :=
    fun com => addScore_flip hv.length_cards com danse 1 tally
  have hlose : ∀ com, ∃ tally', addScore danse i b com (some (-1)) tally = .ok tally' ∧
      addScore danse i b com (some 1) tally.flip = .ok tally'.flip ∧
      tally'.scoreArr.length = tally.scoreArr.length :=
    fun com => addScore_flip hvv.length_cards com danse (-1) tally
  simp only [compareRow, hv.types_eq, hvv.types_eq, hv.cards_eq, hvv.cards_eq, ht, ht',
    Lua.need_some,
    Lua.ok_bind, Lua.pure_eq_ok, copy, Option.getD_some, ne_eq, Option.some.injEq]
  by_cases heq : t = t'
  · subst heq
    simp only [not_true_eq_false, if_false]
    cases hfn : compare (if t = 11 then 4 else t) with
    | none => exact ⟨{ tally with swat := false, swated := false }, rfl, rfl, rfl⟩
    | some fn =>
        obtain ⟨res, hab, hba⟩ := compare_swaps hfn (rowStart_cases i) hv.complete hvv.complete
          (hv.fits i hi t ht) (hvv.fits i hi t ht')
        simp only [hab, hba, Lua.ok_bind]
        rcases res with _ | _ | _
        · exact ⟨{ tally with swat := false, swated := false }, rfl, rfl, rfl⟩
        · obtain ⟨tally', hok, hok', hlen⟩ := hlose t
          simp only [hok, hok', Lua.ok_bind, Option.map_some, Bool.not_false]
          exact ⟨_, rfl, rfl, hlen⟩
        · obtain ⟨tally', hok, hok', hlen⟩ := hwin t
          simp only [hok, hok', Lua.ok_bind, Option.map_some, Bool.not_true]
          exact ⟨_, rfl, rfl, hlen⟩
  · have hdanse : danse = false := by
      rcases htypes with h | h
      · exact h
      · subst h
        exact absurd (Option.some.inj (ht.symm.trans ht')) heq
    subst hdanse
    simp only [heq, Ne.symm heq, not_false_eq_true, if_true, Bool.false_eq_true, if_false]
    rcases lt_or_gt_of_ne heq with hlt | hgt
    · obtain ⟨tally', hok, hok', hlen⟩ := hlose t'
      have hnot : ¬ t > t' := not_lt.mpr hlt.le
      simp only [hnot, hlt, if_true, if_false, hok, hok', Lua.ok_bind]
      exact ⟨_, rfl, rfl, hlen⟩
    · obtain ⟨tally', hok, hok', hlen⟩ := hwin t
      have hnot : ¬ t < t' := not_lt.mpr hgt.le
      simp only [hnot, hgt, if_true, if_false, hok, hok', Lua.ok_bind]
      exact ⟨_, rfl, rfl, hlen⟩

theorem compareScore_flip (hv : ThreeRows v a types) (hvv : ThreeRows vv b types')
    (htypes : danse = false ∨ types = types') :
    ∃ pair, compareScore danse v vv = .ok pair ∧ compareScore danse vv v = .ok pair.flip ∧
      pair.scoreArr.length = 7 := by
  obtain ⟨t₁, h₁, h₁', hlen₁⟩ := compareRow_flip hv hvv htypes (i := 1) (by decide) PairTally.start
  obtain ⟨t₂, h₂, h₂', hlen₂⟩ := compareRow_flip hv hvv htypes (i := 2) (by decide) t₁
  obtain ⟨t₃, h₃, h₃', hlen₃⟩ := compareRow_flip hv hvv htypes (i := 3) (by decide) t₂
  have hstart : PairTally.start.flip = PairTally.start := rfl
  rw [hstart] at h₁'
  refine ⟨t₃, ?_, ?_, ?_⟩
  · simp [compareScore, h₁, h₂, h₃]
  · simp [compareScore, h₁', h₂', h₃']
  · rw [hlen₃, hlen₂, hlen₁]
    rfl

/-- In a one-suit room a row with two different types raises: `add_score` is called with its
arguments one place off. -/
theorem types_eq_of_compareScore_ok (hv : ThreeRows v a types) (hvv : ThreeRows vv b types')
    {pair : PairTally} (hok : compareScore true v vv = .ok pair) : types = types' := by
  have hrow : ∀ i ∈ [1, 2, 3], Lua.nth types i = Lua.nth types' i := by
    intro i hi
    obtain ⟨tally, tally', hok⟩ := Lua.foldlM_ok_body hok i hi
    by_contra hne
    obtain ⟨t, ht⟩ := hv.type hi
    obtain ⟨t', ht'⟩ := hvv.type hi
    rw [ht, ht'] at hne
    simp only [compareRow, hv.types_eq, hvv.types_eq, ht, ht', Lua.need_some,
      Lua.ok_bind, if_pos hne,
      if_true, Option.map_some, addScore, Lua.need_none, Lua.error_bind, Lua.pure_eq_ok] at hok
    have hrank : danseRank t ≠ danseRank t' := by
      have hne' : t ≠ t' := fun h => hne (congrArg some h)
      unfold danseRank
      split_ifs <;> omega
    rcases lt_or_gt_of_ne hrank with hlt | hgt
    · rw [if_neg (not_lt.mpr hlt.le), if_pos hlt] at hok
      cases hok
    · rw [if_pos hgt] at hok
      cases hok
  have hlen := hv.length_types
  have hlen' := hvv.length_types
  clear hv hvv
  match types, types', hlen, hlen' with
  | [b, m, t], [b', m', t'], _, _ =>
      have h₁ := hrow 1 (by decide)
      have h₂ := hrow 2 (by decide)
      have h₃ := hrow 3 (by decide)
      simp only [Lua.nth] at h₁ h₂ h₃
      simp_all

end CompareScore

/-- What a player may have submitted: three rows, or a special hand of a scored type. -/
inductive Formed (v : CurCards) : Prop
  | ordinary (cards : List Card) (types : List Int) (hsp : v.spType = none)
      (hrows : ThreeRows v cards types)
  | special (x score : Int) (hsp : v.spType = some x) (hscore : getSpecialScoreSmall x = some score)

section PairScore

def PairTally.score (pair : PairTally) : Int :=
  pair.totalScore + (if pair.swat then 3 else 0) - (if pair.swated then 3 else 0)

theorem PairTally.score_flip (pair : PairTally) : pair.flip.score = -pair.score := by
  obtain ⟨scoreArr, totalScore, swat, swated⟩ := pair
  cases swat <;> cases swated <;> simp [PairTally.score, PairTally.flip] <;> omega

def pairScore (danse : Bool) (v vv : CurCards) : Lua Int :=
  match v.spType, vv.spType with
  | none, none => do return (← compareScore danse v vv).score
  | none, some y => do return -(← Lua.need .arithmeticOnNil (getSpecialScoreSmall y))
  | some x, y? => specialScore x y?

/-- `v` wins all three rows against `vv`. -/
def Sweeps (danse : Bool) (v vv : CurCards) : Prop :=
  ∃ pair, compareScore danse v vv = .ok pair ∧ pair.swat = true

/-- The loop over the opponents, of whichever kind the player's own submission asks for. -/
def scoreAgainst (room : Room) (cards : LuaTable Uid Dealt) (k : Uid) (v : CurCards) :
    Tally → Uid × CurCards → Lua Tally :=
  match v.spType with
  | none => scoreOrdinary room cards k v
  | some x => scoreSpecial room cards k x

/-- A pair that the loop gets through: the score exists, and a player who sweeps is in the room. -/
def Passes (room : Room) (k : Uid) (v vv : CurCards) (x : Int) : Prop :=
  pairScore room.roomInfo.danse v vv = .ok x ∧
    (v.spType = none → vv.spType = none → Sweeps room.roomInfo.danse v vv →
      k ∈ room.users.keys)

variable {room : Room} {cards : LuaTable Uid Dealt} {k kk : Uid} {v vv : CurCards} {dealt : Dealt}

/-- What one turn of the loop does to the running score and to the opponents' columns. -/
theorem scoreAgainst_inv (hdealt : cards.get kk = some dealt) {tally tally' : Tally}
    (hlen : v.spType = none → vv.spType = none → ∀ pair,
      compareScore room.roomInfo.danse v vv = .ok pair → pair.scoreArr.length = 7)
    (hok : scoreAgainst room cards k v tally (kk, vv) = .ok tally') :
    (meets room.banker k kk = false ∧ tally'.totalScore = tally.totalScore ∧
        tally'.userScores = tally.userScores) ∨
      (meets room.banker k kk = true ∧ ∃ x scoreArr, Passes room k v vv x ∧
        tally'.totalScore = tally.totalScore + x ∧
        tally'.userScores = tally.userScores.set dealt.seat scoreArr ∧
        Lua.nth scoreArr 7 = some x) := by
  cases hmeets : meets room.banker k kk with
  | false =>
      left
      cases hv : v.spType <;>
        simp only [scoreAgainst, hv, scoreOrdinary, scoreSpecial, hmeets,
          Bool.false_eq_true, if_false,
          Lua.pure_eq_ok, Except.ok.injEq] at hok <;>
        subst hok <;> exact ⟨rfl, rfl, rfl⟩
  | true =>
      right
      refine ⟨rfl, ?_⟩
      cases hv : v.spType with
      | some x =>
          simp only [scoreAgainst, hv, scoreSpecial, hmeets, if_true, hdealt, Lua.need_some,
            Lua.ok_bind] at hok
          obtain ⟨y, hy, hok⟩ := Lua.bind_eq_ok.mp hok
          cases hok
          exact ⟨y, _, ⟨by simp only [pairScore, hv, hy], fun h => by simp [hv] at h⟩,
            rfl, rfl, rfl⟩
      | none =>
          cases hvv : vv.spType with
          | some y =>
              simp only [scoreAgainst, hv, scoreOrdinary, hmeets, if_true, hvv, hdealt,
                Lua.need_some,
                Lua.ok_bind] at hok
              obtain ⟨z, hz, hok⟩ := Lua.bind_eq_ok.mp hok
              cases hok
              refine ⟨-z, _, ⟨by simp only [pairScore, hv, hvv, hz, Lua.ok_bind, Lua.pure_eq_ok],
                fun _ h => by simp [hvv] at h⟩, rfl, rfl, rfl⟩
          | none =>
              simp only [scoreAgainst, hv, scoreOrdinary, hmeets, if_true, hvv, hdealt,
                Lua.need_some,
                Lua.ok_bind] at hok
              obtain ⟨pair, hpair, hok⟩ := Lua.bind_eq_ok.mp hok
              have hseven := hlen hv hvv pair hpair
              have hscore : pairScore room.roomInfo.danse v vv = .ok pair.score := by
                simp only [pairScore, hv, hvv, hpair, Lua.ok_bind, Lua.pure_eq_ok]
              have hlast : ∀ z, Lua.nth (pair.scoreArr.set 6 z) 7 = some z := by
                intro z
                simp [Lua.nth, hseven]
              cases hswat : pair.swat with
              | false =>
                  simp only [hswat, Bool.false_eq_true, if_false, Lua.pure_eq_ok, Lua.ok_bind,
                    Except.ok.injEq] at hok
                  subst hok
                  refine ⟨pair.score, _, ⟨hscore, ?_⟩, ?_, rfl, ?_⟩
                  · rintro _ _ ⟨pair', hpair', hswat'⟩
                    cases hpair.symm.trans hpair'
                    simp [hswat] at hswat'
                  · simp [PairTally.score, hswat]
                  · rw [hlast]
                    simp [PairTally.score, hswat]
              | true =>
                  simp only [hswat, if_true] at hok
                  obtain ⟨user, huser, hok⟩ := Lua.bind_eq_ok.mp hok
                  cases hok
                  refine ⟨pair.score, _, ⟨hscore, fun _ _ _ => ?_⟩, ?_, rfl, ?_⟩
                  · rw [LuaTable.mem_keys_iff]
                    cases hget : room.users.get k with
                    | none => simp [hget] at huser
                    | some user' => exact ⟨user', rfl⟩
                  · simp [PairTally.score, hswat]
                  · rw [hlast]
                    simp [PairTally.score, hswat]

theorem scoreAgainst_ok (hdealt : cards.get kk = some dealt) (tally : Tally)
    (hpass : meets room.banker k kk = true → ∃ x, Passes room k v vv x) :
    ∃ tally', scoreAgainst room cards k v tally (kk, vv) = .ok tally' := by
  cases hmeets : meets room.banker k kk with
  | false =>
      cases hv : v.spType <;>
        simp [scoreAgainst, hv, scoreOrdinary, scoreSpecial, hmeets]
  | true =>
      obtain ⟨x, hscore, hpresent⟩ := hpass hmeets
      cases hv : v.spType with
      | some y =>
          simp only [pairScore, hv] at hscore
          simp [scoreAgainst, hv, scoreSpecial, hmeets, hdealt, hscore]
      | none =>
          cases hvv : vv.spType with
          | some y =>
              simp only [pairScore, hv, hvv] at hscore
              obtain ⟨z, hz, -⟩ := Lua.bind_eq_ok.mp hscore
              simp [scoreAgainst, hv, scoreOrdinary, hmeets, hvv, hdealt, hz]
          | none =>
              simp only [pairScore, hv, hvv] at hscore
              obtain ⟨pair, hpair, -⟩ := Lua.bind_eq_ok.mp hscore
              cases hswat : pair.swat with
              | false => simp [scoreAgainst, hv, scoreOrdinary, hmeets, hvv, hdealt, hpair, hswat]
              | true =>
                  obtain ⟨user, huser⟩ :=
                    (LuaTable.mem_keys_iff _).mp (hpresent hv hvv ⟨pair, hpair, hswat⟩)
                  simp [scoreAgainst, hv, scoreOrdinary, hmeets, hvv, hdealt, hpair, hswat, huser]

end PairScore

/-- The pairs whose two sides agree: no two types on one row of a one-suit room, no six-of-a-kind
tie, and no dragon against a six of a kind. -/
def PairFair (danse : Bool) (v vv : CurCards) : Prop :=
  match v.spType, vv.spType with
  | none, none => danse = false ∨ v.cType = vv.cType
  | some x, some y => ¬ (x = y ∧ x < 0) ∧ ¬ (12 ≤ x ∧ y < 0) ∧ ¬ (12 ≤ y ∧ x < 0)
  | _, _ => True

section Antisymmetry

variable {danse : Bool} {v vv : CurCards} {a b : List Card} {types types' : List Int}

theorem getSpecialScoreSmall_pos {x score : Int} (hscore : getSpecialScoreSmall x = some score) :
    0 < score ∧ x ≠ 0 := by
  unfold getSpecialScoreSmall at hscore
  split_ifs at hscore <;> cases hscore <;> omega

theorem specialScore_antisymm_iff {x y sx sy : Int} (hx : getSpecialScoreSmall x = some sx)
    (hy : getSpecialScoreSmall y = some sy) :
    (∃ z, specialScore x (some y) = .ok z ∧ specialScore y (some x) = .ok (-z)) ↔
      ¬ (x = y ∧ x < 0) ∧ ¬ (12 ≤ x ∧ y < 0) ∧ ¬ (12 ≤ y ∧ x < 0) := by
  obtain ⟨hsx, hx0⟩ := getSpecialScoreSmall_pos hx
  obtain ⟨hsy, hy0⟩ := getSpecialScoreSmall_pos hy
  have hvalue : ∀ {p q sp sq : Int}, getSpecialScoreSmall p = some sp →
      getSpecialScoreSmall q = some sq → specialScore p (some q) =
        if p = q then (if p < 0 then .error .indexNil else .ok 0)
        else if p ≥ 12 ∧ p > q then .ok sp
        else if p > 0 ∧ q < 0 then .ok (-sq)
        else if p < 0 ∧ p < q then .ok sp
        else if q ≥ 12 ∧ q > p then .ok (-sq)
        else if q > 0 ∧ p < 0 then .ok sp
        else if q < 0 ∧ q < p then .ok (-sq)
        else .ok 0 := by
    intro p q sp sq hp hq
    simp [specialScore, hp, hq]
  rw [hvalue hx hy, hvalue hy hx]
  by_cases heq : x = y
  · subst heq
    by_cases hneg : x < 0
    · simp [hneg]
    · simp [hneg]
  · have hcollapse : ∀ p q : Int,
        (∃ z, (Except.ok p : Lua Int) = .ok z ∧ (Except.ok q : Lua Int) = .ok (-z)) ↔ q = -p := by
      simp
    rw [if_neg heq, if_neg (Ne.symm heq)]
    split_ifs <;> rw [hcollapse] <;> omega

theorem fair_of_compareScore_ok (hv : ThreeRows v a types) (hvv : ThreeRows vv b types')
    {pair : PairTally} (hok : compareScore danse v vv = .ok pair) :
    danse = false ∨ v.cType = vv.cType := by
  cases danse with
  | false => exact Or.inl rfl
  | true =>
      right
      rw [hv.types_eq, hvv.types_eq, types_eq_of_compareScore_ok hv hvv hok]

theorem compareScore_flip_of_fair (hv : ThreeRows v a types) (hvv : ThreeRows vv b types')
    (hfair : danse = false ∨ v.cType = vv.cType) :
    ∃ pair, compareScore danse v vv = .ok pair ∧ compareScore danse vv v = .ok pair.flip ∧
      pair.scoreArr.length = 7 := by
  refine compareScore_flip hv hvv (hfair.imp_right fun h => ?_)
  rw [hv.types_eq, hvv.types_eq] at h
  exact Option.some.inj h

theorem length_scoreArr (hv : Formed v) (hvv : Formed vv) (hsp : v.spType = none)
    (hsp' : vv.spType = none) {pair : PairTally} (hok : compareScore danse v vv = .ok pair) :
    pair.scoreArr.length = 7 := by
  rcases hv with ⟨a, types, -, hrows⟩ | ⟨x, sx, hx, -⟩
  · rcases hvv with ⟨b, types', -, hrows'⟩ | ⟨y, sy, hy, -⟩
    · obtain ⟨pair', hok', -, hlen⟩ :=
        compareScore_flip_of_fair hrows hrows' (fair_of_compareScore_ok hrows hrows' hok)
      cases hok.symm.trans hok'
      exact hlen
    · simp [hsp'] at hy
  · simp [hsp] at hx

/-- A pair is scored oppositely from its two sides exactly when it is a fair one. -/
theorem pairScore_antisymm_iff (hv : Formed v) (hvv : Formed vv) :
    (∃ x, pairScore danse v vv = .ok x ∧ pairScore danse vv v = .ok (-x)) ↔
    PairFair danse v vv := by
  rcases hv with ⟨a, types, hsp, hrows⟩ | ⟨x, sx, hsp, hsx⟩
  · rcases hvv with ⟨b, types', hsp', hrows'⟩ | ⟨y, sy, hsp', hsy⟩
    · simp only [pairScore, PairFair, hsp, hsp']
      constructor
      · rintro ⟨x, hx, -⟩
        obtain ⟨pair, hpair, -⟩ := Lua.bind_eq_ok.mp hx
        exact fair_of_compareScore_ok hrows hrows' hpair
      · intro hfair
        obtain ⟨pair, hpair, hpair', -⟩ := compareScore_flip_of_fair hrows hrows' hfair
        exact ⟨pair.score, by simp [hpair], by simp [hpair', PairTally.score_flip]⟩
    · simp [pairScore, PairFair, hsp, hsp', specialScore, hsy]
  · rcases hvv with ⟨b, types', hsp', hrows'⟩ | ⟨y, sy, hsp', hsy⟩
    · simp [pairScore, PairFair, hsp, hsp', specialScore, hsx]
    · simp only [pairScore, PairFair, hsp, hsp']
      exact specialScore_antisymm_iff hsx hsy

end Antisymmetry

end SdyServer.Daboluo
