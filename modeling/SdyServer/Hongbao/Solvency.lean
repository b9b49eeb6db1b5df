import Mathlib.Algebra.Order.BigOperators.Group.List
import SdyServer.Hongbao.Ledger

/-!
# The banker can pay

Every accepted bet reserves a part of the banker's stake, and freezes coins of the bettor. The
reservation is the most the bet can win and the frozen coins are the most it can lose, in every
branch of `getResult`: a packet shows at most one of the points a bet can name, unless it is
special, and a special packet pays no such bet.
-/

namespace SdyServer.Hongbao

section Statement

structure Book where
  room : Room
  accepted : List BetCall

/-- A request in its turn: `logic.beter` up to its call, and what follows the answer. -/
def Book.bet (book : Book) (request : BetRequest × Answer) : Book :=
  match beter book.room request.1 with
  | (room, .call bet) =>
      { room := (beterAnswered room bet request.2).1,
        accepted := if request.2 = .ok then book.accepted ++ [bet] else book.accepted }
  | (room, _) => { book with room }

/-- The bets of the round that `beter_start` opens in a room. -/
def Room.book (room : Room) (requests : List (BetRequest × Answer)) : Book :=
  requests.foldl Book.bet ⟨beterStart room, []⟩

def reservation (bet : BetCall) : ℚ := (bankerReduceCoin bet.toBetRequest).toOption.getD 0

def Book.of (book : Book) (uid : Uid) : List BetCall :=
  book.accepted.filter fun bet => bet.uid = uid

def Book.reserved (book : Book) (uid : Uid) : ℚ := ((book.of uid).map reservation).sum

def Book.frozen (book : Book) (uid : Uid) : ℚ := ((book.of uid).map BetCall.gameCoin).sum

/-- The stake less the reservations is what is left of it, and whatever packets are dealt, no bettor
loses more than his frozen coins or wins more than his reservations, the banker loses no more than
his stake, and what he has left is not negative, before and after the commission. -/
structure Solvent (book : Book) : Prop where
  surplus : book.room.bankerSurplusCoin =
    book.room.bankerGameCoin - (book.accepted.map reservation).sum
  covered : 0 ≤ book.room.bankerSurplusCoin
  bettors : ∀ banker hongbao playes result,
    getResult banker hongbao book.room.totalBetData playes = .ok result →
    ∀ v ∈ result, v.isBanker = false →
      -v.coinChange ≤ book.frozen v.uid ∧ v.coinChange ≤ book.reserved v.uid
  banker : ∀ banker hongbao playes result,
    getResult banker hongbao book.room.totalBetData playes = .ok result →
    ∀ v ∈ result, v.isBanker = true → -v.coinChange ≤ book.room.bankerGameCoin
  settled : ∀ banker packets players room settlement,
    settle { book.room with banker, packets, players } = .ok (room, settlement) →
    0 ≤ room.bankerGameCoin ∧ 0 ≤ settlement.bankerGameCoin

end Statement

section Points

def specialPoints (value : Value) : List (Value × Nat) :=
  [baozi, manniu, daoshun, zhengshun, duizi, jinniu].filterMap fun f => f value

theorem specialPoint_tag {cfg : List String} {tag : Nat} {value : Value} {found : Value × Nat}
    (h : specialPoint cfg tag value = some found) : found.2 = tag := by
  unfold specialPoint at h
  split_ifs at h
  cases h
  rfl

theorem tag_of_mem_specialPoints {value : Value} {found : Value × Nat}
    (h : found ∈ specialPoints value) : 11 ≤ found.2 ∧ found.2 ≤ 16 := by
  obtain ⟨f, hf, hfound⟩ := List.mem_filterMap.mp h
  simp only [List.mem_cons, List.not_mem_nil, or_false] at hf
  rcases hf with rfl | rfl | rfl | rfl | rfl | rfl
  all_goals
    have htag := specialPoint_tag hfound
    omega

theorem niuniu_tag {value : Value} {found : Value × Nat} (h : niuniu value = .ok (some found)) :
    found.2 ≤ 10 := by
  unfold niuniu at h
  obtain ⟨total, -, h⟩ := Lua.bind_eq_ok.mp h
  split_ifs at h with hzero hten
  · cases h
  · cases h
    exact le_refl 10
  · cases h
    exact (Nat.mod_lt _ (by decide)).le

theorem nodup_classes {tag : Nat} (htag : tag ≤ 10) : (classes tag).Nodup := by
  interval_cases tag <;> decide

theorem classes_special {tag : Nat} (hlow : 11 ≤ tag) (hhigh : tag ≤ 16) : classes tag = [9] := by
  interval_cases tag <;> rfl

theorem countP_le_one {l : List Nat} (hl : l.Nodup) (sub : Option Int) :
    (l.countP fun (h : Nat) => sub = some (h : Int)) ≤ 1 := by
  cases sub with
  | none => simp
  | some tag =>
      by_cases hneg : tag < 0
      · have hzero : (l.countP fun (h : Nat) => some tag = some (h : Int)) = 0 := by
          rw [List.countP_eq_zero]
          intro h _
          simp only [Option.some.injEq, decide_eq_true_eq]
          omega
        omega
      · have hcount : (l.countP fun (h : Nat) => some tag = some (h : Int)) =
            l.count tag.toNat := by
          rw [List.count]
          apply List.countP_congr
          intro h _
          simp only [Option.some.injEq, decide_eq_true_eq, beq_iff_eq]
          omega
        rw [hcount]
        exact List.nodup_iff_count_le_one.mp hl _

/-- What a packet shows: a special packet leads with its special point and the class of special
points, and any other shows one point and each class once. -/
theorem getSizeDanShuangData_spec {value : Value} {dxds : List Nat} {cow : List Point}
    (h : getSizeDanShuangData value = .ok (dxds, some cow)) {point : Point}
    (hpoint : Lua.elem cow 1 = .ok point) (sub : Option Int) :
    (point.pointType > 10 ∧ dxds.head? = some 9) ∨
      (point.pointType ≤ 10 ∧ (cow.countP fun p => sub = some (p.pointType : Int)) ≤ 1 ∧
        (dxds.countP fun (h : Nat) => sub = some (h : Int)) ≤ 1) := by
  unfold getSizeDanShuangData at h
  obtain ⟨table, htable, h⟩ := Lua.bind_eq_ok.mp h
  split_ifs at h with hempty
  · cases h
  cases h
  unfold getCowData at htable
  obtain ⟨found, hfound, htable⟩ := Lua.bind_eq_ok.mp htable
  cases htable
  cases hspecial : specialPoints value with
  | cons first rest =>
      left
      have htag := tag_of_mem_specialPoints (hspecial ▸ List.mem_cons_self .. :
        first ∈ specialPoints value)
      have hlist : ([baozi, manniu, daoshun, zhengshun, duizi, jinniu].filterMap fun f => f value) =
          first :: rest := hspecial
      simp only [hlist, List.cons_append, List.map_cons] at hpoint ⊢
      cases hpoint
      refine ⟨by simp only; omega, ?_⟩
      simp [List.flatMap_cons, classes_special htag.1 htag.2]
  | nil =>
      right
      have hlist : ([baozi, manniu, daoshun, zhengshun, duizi, jinniu].filterMap fun f => f value) =
          [] := hspecial
      simp only [hlist, List.nil_append] at hpoint hempty ⊢
      cases found with
      | none => exact absurd rfl hempty
      | some found =>
          have htag := niuniu_tag hfound
          cases hpoint
          refine ⟨htag, ?_, ?_⟩
          · exact (List.countP_le_length).trans (by simp)
          · simpa using countP_le_one (nodup_classes htag) sub

end Points

section Bounds

/-- A bet that `logic.beter` has let through: it has a price on both sides and a positive value. -/
structure Priced (bet : BetCall) : Prop where
  reserved : ∃ coin, bankerReduceCoin bet.toBetRequest = .ok coin
  frozen : betGameCoin bet.toBetRequest = .ok bet.gameCoin
  positive : 0 < bet.betValue

def totalBetOf (bet : BetCall) : TotalBet where
  type := bet.betType
  subType := bet.betSubType
  value := bet.betValue
  gameCoin := bet.gameCoin

theorem Priced.price {bet : BetCall} (hpriced : Priced bet) :
    (bet.betType = 1 ∧ reservation bet = 16 * bet.betValue ∧ bet.gameCoin = 16 * bet.betValue) ∨
    (bet.betType = 2 ∧ reservation bet = bet.betValue ∧ bet.gameCoin = bet.betValue) ∨
    (bet.betType = 4 ∧ reservation bet = 17 / 2 * bet.betValue ∧ bet.gameCoin = bet.betValue) ∨
    (bet.betType = 3 ∧ bet.gameCoin = bet.betValue ∧
      ∃ rate, getRate 3 bet.betSubType = .ok (some rate) ∧ reservation bet =
      rate * bet.betValue) := by
  obtain ⟨⟨coin, hcoin⟩, hfrozen, -⟩ := hpriced
  have hreserved : reservation bet = coin := by simp [reservation, hcoin, Except.toOption]
  have htyped := bet.typed
  rw [hreserved]
  obtain h | h | h | h : bet.betType = 1 ∨ bet.betType = 2 ∨ bet.betType = 4 ∨ bet.betType = 3 := by
    omega
  · left
    simp only [bankerReduceCoin, betGameCoin, h, getMaxRate] at hcoin hfrozen
    norm_num at hcoin hfrozen
    exact ⟨h, hcoin.symm, hfrozen.symm⟩
  · right; left
    simp only [bankerReduceCoin, betGameCoin, h, getMaxRate] at hcoin hfrozen
    norm_num at hcoin hfrozen
    exact ⟨h, hcoin.symm, hfrozen.symm⟩
  · right; right; left
    simp only [bankerReduceCoin, betGameCoin, h, getMaxRate] at hcoin hfrozen
    norm_num at hcoin hfrozen
    exact ⟨h, hcoin.symm, hfrozen.symm⟩
  · right; right; right
    simp only [bankerReduceCoin, betGameCoin, h] at hcoin hfrozen
    norm_num at hfrozen
    obtain ⟨rate?, hrate, hcoin⟩ := Lua.bind_eq_ok.mp hcoin
    obtain ⟨rate, hsome, hcoin⟩ := Lua.bind_eq_ok.mp hcoin
    rw [Lua.need_eq_ok] at hsome
    cases hcoin
    exact ⟨h, hfrozen.symm, rate, hsome ▸ hrate, rfl⟩

theorem mem_of_getRate {betType : Int} {pointType : Option Int} {rate : ℚ}
    (h : getRate betType pointType = .ok (some rate)) :
    ∃ config, getCategoryRate betType = some config ∧ rate ∈ config := by
  unfold getRate at h
  obtain ⟨config, hconfig, h⟩ := Lua.bind_eq_ok.mp h
  refine ⟨config, Lua.need_eq_ok.mp hconfig, ?_⟩
  split_ifs at h
  · simp only [Lua.pure_eq_ok, Except.ok.injEq] at h
    exact List.mem_of_mem_head? h
  · simp only [Lua.pure_eq_ok, Except.ok.injEq] at h
    unfold atInt Lua.nth at h
    split_ifs at h
    exact List.mem_of_getElem? h

theorem getRate_bounds {betType : Int} {pointType : Option Int} {rate : ℚ}
    (h : getRate betType pointType = .ok (some rate)) :
    0 ≤ rate ∧ (betType = 1 → rate ≤ 16) ∧ (betType = 2 → rate ≤ 1) ∧
    (betType = 4 → rate = 17 / 2) := by
  obtain ⟨config, hconfig, hmem⟩ := mem_of_getRate h
  unfold getCategoryRate at hconfig
  split at hconfig
  · cases hconfig
    have hall : ∀ rate ∈ [(5 : ℚ), 5, 5, 5, 5, 6, 7, 8, 9, 10, 11, 12, 13, 14, 15, 16],
        0 ≤ rate ∧ rate ≤ 16 := by decide +kernel
    exact ⟨(hall rate hmem).1, fun _ => (hall rate hmem).2, fun h => by omega, fun h => by omega⟩
  · cases hconfig
    rw [List.mem_singleton.mp hmem]
    exact ⟨zero_le_one, fun h => by omega, fun _ => le_refl 1, fun h => by omega⟩
  · cases hconfig
    have hall : ∀ rate ∈ [(1 : ℚ), 1, 1, 1, 2, 4, 4, 2, 5], 0 ≤ rate := by decide +kernel
    exact ⟨hall rate hmem, fun h => by omega, fun h => by omega, fun h => by omega⟩
  · cases hconfig
    rw [List.mem_singleton.mp hmem]
    exact ⟨by norm_num, fun h => by omega, fun h => by omega, fun _ => rfl⟩
  · cases hconfig

/-- A bet on the cow wins or loses its value at a rate, or moves nothing. -/
theorem cowChange_cases {v : TotalBet} {banker user : Point} {change : ℚ}
    (h : cowChange v banker user = .ok change) :
    change = 0 ∨ ∃ pointType rate, getRate v.type pointType = .ok (some rate) ∧
      (change = rate * v.value ∨ change = -(rate * v.value)) := by
  unfold cowChange at h
  obtain ⟨rate?, hrate?, h⟩ := Lua.bind_eq_ok.mp h
  obtain ⟨rate, hsome, h⟩ := Lua.bind_eq_ok.mp h
  rw [Lua.need_eq_ok] at hsome
  subst hsome
  have hlose : ∀ change, (do
      let bankerRate ← Lua.need .arithmeticOnNil (← getRate v.type (some (banker.pointType : Int)))
      return if v.type = 1 then -bankerRate * v.value else -rate * v.value : Lua ℚ) = .ok change →
      change = 0 ∨ ∃ pointType rate, getRate v.type pointType = .ok (some rate) ∧
        (change = rate * v.value ∨ change = -(rate * v.value)) := by
    intro change h
    obtain ⟨bankerRate?, hbankerRate?, h⟩ := Lua.bind_eq_ok.mp h
    obtain ⟨bankerRate, hsome, h⟩ := Lua.bind_eq_ok.mp h
    rw [Lua.need_eq_ok] at hsome
    subst hsome
    cases h
    right
    split_ifs
    · exact ⟨_, bankerRate, hbankerRate?, .inr (neg_mul ..)⟩
    · exact ⟨_, rate, hrate?, .inr (neg_mul ..)⟩
  simp only [Lua.need_some, Lua.ok_bind] at h
  by_cases hbanker : banker.pointType > user.pointType
  · rw [if_pos hbanker] at h
    exact hlose change h
  by_cases hlow : user.pointType = 1 ∨ user.pointType = 2
  · rw [if_neg hbanker, if_pos hlow] at h
    exact hlose change h
  by_cases huser : banker.pointType < user.pointType
  · rw [if_neg hbanker, if_neg hlow, if_pos huser] at h
    cases h
    exact .inr ⟨_, rate, hrate?, .inl rfl⟩
  rw [if_neg hbanker, if_neg hlow, if_neg huser] at h
  obtain ⟨bankerValue, -, h⟩ := Lua.bind_eq_ok.mp h
  obtain ⟨userValue, -, h⟩ := Lua.bind_eq_ok.mp h
  by_cases hmore : bankerValue > userValue
  · rw [if_pos hmore] at h
    exact hlose change h
  by_cases hless : bankerValue < userValue
  · rw [if_neg hmore, if_pos hless] at h
    cases h
    exact .inr ⟨_, rate, hrate?, .inl rfl⟩
  · rw [if_neg hmore, if_neg hless] at h
    cases h
    exact .inl rfl

theorem cowChange_bounds {v : TotalBet} {banker user : Point} {change bound : ℚ}
    (h : cowChange v banker user = .ok change) (hvalue : 0 ≤ v.value) (hbound : 0 ≤ bound)
    (hrate : ∀ pointType rate, getRate v.type pointType = .ok (some rate) → 0 ≤ rate ∧
      rate ≤ bound) :
    -change ≤ bound * v.value ∧ change ≤ bound * v.value := by
  have hvalue' : (0 : ℚ) ≤ v.value := by exact_mod_cast hvalue
  have hboth := mul_nonneg hbound hvalue'
  obtain rfl | ⟨pointType, rate, hok, hchange⟩ := cowChange_cases h
  · exact ⟨by linarith, hboth⟩
  · obtain ⟨hpos, hle⟩ := hrate pointType rate hok
    have hwin : 0 ≤ rate * v.value ∧ rate * v.value ≤ bound * v.value :=
      ⟨mul_nonneg hpos hvalue', mul_le_mul_of_nonneg_right hle hvalue'⟩
    obtain rfl | rfl := hchange
    · exact ⟨by linarith, hwin.2⟩
    · exact ⟨by linarith, by linarith⟩

theorem specialPointChange_cases {cow : List Point} {point : Point} {v : TotalBet} {change : ℚ}
    (h : specialPointChange cow point v = .ok change) :
    ∃ (hits : ℕ) (rate : ℚ), hits = (if point.pointType > 10 then 0
        else cow.countP fun p => v.subType = some (p.pointType : Int)) ∧
      getRate v.type none = .ok (some rate) ∧
      change = if hits = 0 then -(v.value : ℚ) else hits * (rate * v.value) := by
  unfold specialPointChange at h
  by_cases hnamed : (!(v.subType.any cowNamed)) = true
  · rw [if_pos hnamed] at h
    cases h
  · rw [if_neg hnamed] at h
    obtain ⟨rate?, hrate?, h⟩ := Lua.bind_eq_ok.mp h
    obtain ⟨rate, hsome, h⟩ := Lua.bind_eq_ok.mp h
    rw [Lua.need_eq_ok] at hsome
    subst hsome
    cases h
    exact ⟨_, rate, rfl, hrate?, rfl⟩

theorem specialPointChange_bounds {cow : List Point} {point : Point} {v : TotalBet} {change : ℚ}
    (h : specialPointChange cow point v = .ok change) (htype : v.type = 4) (hvalue : 0 ≤ v.value)
    (hhits : point.pointType ≤ 10 →
      (cow.countP fun p => v.subType = some (p.pointType : Int)) ≤ 1) :
    -change ≤ v.value ∧ change ≤ 17 / 2 * v.value := by
  have hvalue' : (0 : ℚ) ≤ v.value := by exact_mod_cast hvalue
  obtain ⟨hits, rate, hdef, hrate?, rfl⟩ := specialPointChange_cases h
  have hrate := (getRate_bounds hrate?).2.2.2 htype
  have hone : hits ≤ 1 := by
    rw [hdef]
    split_ifs with hspecial
    · exact zero_le_one
    · exact hhits (not_lt.mp hspecial)
  interval_cases hits
  · rw [if_pos rfl]
    exact ⟨by linarith, by linarith⟩
  · rw [if_neg one_ne_zero, hrate]
    push_cast
    exact ⟨by linarith, by linarith⟩

theorem dxdsChange_cases {dxds : List Nat} {v : TotalBet} {isFirst : Bool} {change : ℚ}
    (h : dxdsChange dxds v isFirst = .ok change) :
    ∃ (maxDxds hits : ℕ), dxds.head? = some maxDxds ∧
      hits = (if maxDxds = 9 then (if v.subType = some 9 then 1 else 0)
        else dxds.countP fun (h : Nat) => v.subType = some (h : Int)) ∧
      ((hits = 0 ∧ (change = -(v.value : ℚ) * (1 / 2) ∨ change = -v.value)) ∨
        hits ≠ 0 ∧ ∃ rate, getRate v.type v.subType = .ok (some rate) ∧
          change = hits * (rate * v.value)) := by
  unfold dxdsChange at h
  obtain ⟨maxDxds, hmax, h⟩ := Lua.bind_eq_ok.mp h
  have hhead : dxds.head? = some maxDxds := by
    simpa [Lua.elem, Lua.nth, List.head?_eq_getElem?] using hmax
  have hcount : ((do let a ← dxds; pure (a : Int) : List Int).countP fun h => v.subType = some h) =
      dxds.countP fun (h : Nat) => v.subType = some (h : Int) := by
    rw [bind_pure_comp, List.map_eq_map, List.countP_map]
    rfl
  simp only [hcount] at h
  refine ⟨maxDxds, _, hhead, rfl, ?_⟩
  generalize (if maxDxds = 9 then (if v.subType = some 9 then 1 else 0)
    else dxds.countP fun (h : Nat) => v.subType = some (h : Int)) = hits at h ⊢
  by_cases hnamed : (!isFirst && !(v.subType.any dxdsNamed)) = true
  · rw [if_pos hnamed] at h
    cases h
  rw [if_neg hnamed] at h
  by_cases hzero : hits = 0
  · rw [if_pos hzero] at h
    cases h
    left
    split_ifs
    · exact ⟨hzero, .inl rfl⟩
    · exact ⟨hzero, .inr rfl⟩
  · rw [if_neg hzero] at h
    obtain ⟨rate?, hrate?, h⟩ := Lua.bind_eq_ok.mp h
    obtain ⟨rate, hsome, h⟩ := Lua.bind_eq_ok.mp h
    rw [Lua.need_eq_ok] at hsome
    subst hsome
    cases h
    exact .inr ⟨hzero, rate, hrate?, rfl⟩

theorem dxdsChange_bounds {dxds : List Nat} {v : TotalBet} {isFirst : Bool} {change rate : ℚ}
    (h : dxdsChange dxds v isFirst = .ok change) (hvalue : 0 ≤ v.value)
    (hrate : getRate v.type v.subType = .ok (some rate))
    (hhits : dxds.head? ≠ some 9 →
      (dxds.countP fun (h : Nat) => v.subType = some (h : Int)) ≤ 1) :
    -change ≤ v.value ∧ change ≤ rate * v.value := by
  have hvalue' : (0 : ℚ) ≤ v.value := by exact_mod_cast hvalue
  have hpos := mul_nonneg (getRate_bounds hrate).1 hvalue'
  obtain ⟨maxDxds, hits, hhead, hdef, ⟨-, rfl | rfl⟩ | ⟨hsome, rate', hrate', rfl⟩⟩ :=
    dxdsChange_cases h
  · exact ⟨by linarith, by linarith⟩
  · exact ⟨by linarith, by linarith⟩
  · have hone : hits ≤ 1 := by
      rw [hdef]
      split_ifs with hnine
      · exact le_refl 1
      · exact zero_le_one
      · exact hhits (by rw [hhead]; simpa using hnine)
    have hhit : hits = 1 := by omega
    rw [hrate, Except.ok.injEq, Option.some.injEq] at hrate'
    rw [hhit, ← hrate']
    push_cast
    exact ⟨by linarith, by linarith⟩

def OneKind (bets : List BetCall) : Prop := bets.length ≤ 1 ∨ ∀ bet ∈ bets, bet.betType = 4

def Shows (dxds : List Nat) (cow : List Point) (point : Point) : Prop :=
  ∀ sub : Option Int, (point.pointType > 10 ∧ dxds.head? = some 9) ∨
    (point.pointType ≤ 10 ∧ (cow.countP fun p => sub = some (p.pointType : Int)) ≤ 1 ∧
      (dxds.countP fun (h : Nat) => sub = some (h : Int)) ≤ 1)

theorem sum_pointChanges {cow : List Point} {point : Point} {dxds : List Nat}
    (hshows : Shows dxds cow point) {bets : List BetCall} {changes : List ℚ}
    (hpriced : ∀ bet ∈ bets, Priced bet) (hkind : ∀ bet ∈ bets, bet.betType = 4)
    (hchanges : List.Forall₂ (fun v change => specialPointChange cow point v = .ok change)
      (bets.map totalBetOf) changes) :
    -changes.sum ≤ (bets.map BetCall.gameCoin).sum ∧
      changes.sum ≤ (bets.map reservation).sum := by
  induction bets generalizing changes with
  | nil =>
      cases hchanges
      simp
  | cons bet bets ih =>
      obtain ⟨change, rest, hchange, hrest, rfl⟩ := List.forall₂_cons_left_iff.mp hchanges
      have hfirst := hpriced bet (List.mem_cons_self ..)
      have htype := hkind bet (List.mem_cons_self ..)
      obtain ⟨hlow, hhigh⟩ := ih (fun b hb => hpriced b (List.mem_cons_of_mem _ hb))
        (fun b hb => hkind b (List.mem_cons_of_mem _ hb)) hrest
      have hbounds := specialPointChange_bounds hchange htype hfirst.positive.le fun hpoint => by
        rcases hshows bet.betSubType with ⟨hspecial, -⟩ | ⟨-, hcow, -⟩
        · omega
        · exact hcow
      have hprice : reservation bet = 17 / 2 * bet.betValue ∧ bet.gameCoin = bet.betValue := by
        rcases hfirst.price with ⟨h, -⟩ | ⟨h, -⟩ | ⟨-, h⟩ | ⟨h, -⟩
        · omega
        · omega
        · exact h
        · omega
      simp only [List.map_cons, List.sum_cons, hprice.1, hprice.2]
      have hvalue : (totalBetOf bet).value = bet.betValue := rfl
      rw [hvalue] at hbounds
      exact ⟨by linarith, by linarith⟩

/-- **Every branch is covered.** A player loses at most his frozen coins and wins at most his
reservations. -/
theorem userChange_bounds {banker point : Point} {dxds : List Nat} {cow : List Point}
    {bets : List BetCall} {change : ℚ} {total : Int} (hpriced : ∀ bet ∈ bets, Priced bet)
    (hkind : OneKind bets) (hshows : Shows dxds cow point)
    (h : userChange banker dxds cow point (bets.map totalBetOf) = .ok (change, total)) :
    -change ≤ (bets.map BetCall.gameCoin).sum ∧ change ≤ (bets.map reservation).sum := by
  cases bets with
  | nil => cases h
  | cons bet bets =>
      have hfirst := hpriced bet (List.mem_cons_self ..)
      have hvalue : 0 ≤ (totalBetOf bet).value := hfirst.positive.le
      unfold userChange at h
      obtain ⟨first, helem, h⟩ := Lua.bind_eq_ok.mp h
      cases helem
      by_cases hfour : bet.betType = 4
      · -- Several points may be bet on, and each bet is decided by itself.
        have hall : ∀ b ∈ bet :: bets, b.betType = 4 := by
          rcases hkind with hlength | hall
          · have hnil : bets = [] := by simpa using hlength
            subst hnil
            intro b hb
            rw [List.mem_singleton.mp hb]
            exact hfour
          · exact hall
        have htype : (totalBetOf bet).type = 4 := hfour
        rw [if_neg (by rw [htype]; decide), if_pos htype] at h
        obtain ⟨changes, hchanges, h⟩ := Lua.bind_eq_ok.mp h
        cases h
        exact sum_pointChanges hshows hpriced hall (Lua.mapM_ok_forall₂ hchanges)
      · -- Any other bet is the only one.
        have hnil : bets = [] := by
          rcases hkind with hlength | hall
          · simpa using hlength
          · exact absurd (hall bet (List.mem_cons_self ..)) hfour
        subst hnil
        rw [List.map_singleton, List.map_singleton, List.sum_singleton, List.sum_singleton]
        rcases hfirst.price with ⟨htype, hreserved, hfrozen⟩ | ⟨htype, hreserved, hfrozen⟩ |
          ⟨htype, -⟩ | ⟨htype, hfrozen, rate, hrate, hreserved⟩
        · have htype' : (totalBetOf bet).type = 1 := htype
          rw [if_pos (Or.inl htype')] at h
          obtain ⟨change', hchange, h⟩ := Lua.bind_eq_ok.mp h
          cases h
          have hbounds := cowChange_bounds hchange hvalue (by norm_num : (0 : ℚ) ≤ 16)
            fun pointType rate hrate => by
              rw [htype'] at hrate
              exact ⟨(getRate_bounds hrate).1, (getRate_bounds hrate).2.1 rfl⟩
          rw [hreserved, hfrozen]
          exact hbounds
        · have htype' : (totalBetOf bet).type = 2 := htype
          rw [if_pos (Or.inr htype')] at h
          obtain ⟨change', hchange, h⟩ := Lua.bind_eq_ok.mp h
          cases h
          have hbounds := cowChange_bounds hchange hvalue zero_le_one fun pointType rate hrate => by
            rw [htype'] at hrate
            exact ⟨(getRate_bounds hrate).1, (getRate_bounds hrate).2.2.1 rfl⟩
          rw [one_mul] at hbounds
          rw [hreserved, hfrozen]
          exact hbounds
        · exact absurd htype hfour
        · have htype' : (totalBetOf bet).type = 3 := htype
          rw [if_neg (by rw [htype']; decide), if_neg (by rw [htype']; decide), if_pos htype'] at h
          obtain ⟨change', hchange, h⟩ := Lua.bind_eq_ok.mp h
          have hbounds := dxdsChange_bounds hchange hvalue (by rw [htype']; exact hrate)
            fun hnine => by
              rcases hshows bet.betSubType with ⟨-, hspecial⟩ | ⟨-, -, hdxds⟩
              · exact absurd hspecial hnine
              · exact hdxds
          rw [hreserved, hfrozen]
          obtain ⟨rest, hrest, h⟩ := Lua.bind_eq_ok.mp h
          cases hrest
          cases h
          rw [List.reverse_nil, List.sum_nil, add_zero]
          exact hbounds

end Bounds

section Book

/-- The records of the room are the accepted bets, priced and of one kind per player, and the
reservations have been taken off what the round had opened with. -/
structure BookInv (room : Room) (book : Book) : Prop where
  stake : book.room.bankerGameCoin = room.bankerGameCoin
  surplus : book.room.bankerSurplusCoin =
    room.bankerSurplusCoin - (book.accepted.map reservation).sum
  covered : 0 ≤ room.bankerSurplusCoin → 0 ≤ book.room.bankerSurplusCoin
  bets : ∀ uid, ((book.room.betData.getD ∅).get uid).getD [] =
    (book.of uid).map fun bet => ⟨bet.betType, bet.betSubType, bet.betValue⟩
  totals : ∀ uid, ((book.room.totalBetData.getD ∅).get uid).getD [] = (book.of uid).map totalBetOf
  priced : ∀ bet ∈ book.accepted, Priced bet
  kinds : ∀ uid, OneKind (book.of uid)

theorem BookInv.opening (room : Room) : BookInv room ⟨beterStart room, []⟩ where
  stake := rfl
  surplus := by simp [beterStart]
  covered := fun h => h
  bets := fun uid => rfl
  totals := fun uid => rfl
  priced := fun bet hbet => absurd hbet List.not_mem_nil
  kinds := fun uid => Or.inl (Nat.zero_le 1)

/-- What `logic.beter` has checked when it calls the service. -/
theorem beterCheck_priced {room : Room} {betData : LuaTable Uid (List Bet)} {req : BetRequest}
    {bet : BetCall} (h : beterCheck room betData req = .ok (.call bet)) :
    Priced bet ∧ bet.surplusCoin = room.bankerSurplusCoin - reservation bet ∧
      0 ≤ bet.surplusCoin := by
  unfold beterCheck at h
  split at h
  case h_1 => cases h
  case h_2 hfree =>
    obtain ⟨⟨low, high⟩, hrange, h⟩ := Lua.bind_eq_ok.mp h
    dsimp only at h
    split_ifs at h with hlimits
    · cases h
    obtain ⟨coin, hcoin, h⟩ := Lua.bind_eq_ok.mp h
    split_ifs at h with hsurplus
    · cases h
    obtain ⟨gameCoin, hgame, h⟩ := Lua.bind_eq_ok.mp h
    cases h
    have hlow : 0 < low := by
      have hconfig := Lua.need_eq_ok.mp hrange
      unfold hbBetRangeConfig at hconfig
      split at hconfig
      all_goals cases hconfig
      all_goals decide
    have hpositive : 0 < req.betValue := by omega
    refine ⟨⟨⟨coin, hcoin⟩, hgame, hpositive⟩, ?_, not_lt.mp hsurplus⟩
    simp [reservation, hcoin, Except.toOption]

theorem addTotalBet_of_new {bet : BetCall} {bets : List BetCall}
    (hnew : ∀ b ∈ bets, b.betSubType ≠ bet.betSubType) :
    addTotalBet bet (bets.map totalBetOf) = (bets ++ [bet]).map totalBetOf := by
  have hfresh : ∀ v ∈ bets.map totalBetOf, ¬(v.type = bet.betType ∧
      v.subType = bet.betSubType) := by
    intro v hv hsame
    obtain ⟨b, hb, rfl⟩ := List.mem_map.mp hv
    exact hnew b hb hsame.2
  rw [Desk.addTotalBet_eq_append hfresh, List.map_append]
  rfl

theorem Book.of_append (room : Room) (accepted : List BetCall) (bet : BetCall) (uid : Uid) :
    Book.of ⟨room, accepted ++ [bet]⟩ uid =
      if bet.uid = uid then Book.of ⟨room, accepted⟩ uid ++
      [bet] else Book.of ⟨room, accepted⟩ uid := by
  unfold Book.of
  split_ifs with huid
  · simp [huid]
  · simp [huid]

theorem BookInv.accept {room : Room} {book : Book} (hinv : BookInv room book) {bet : BetCall}
    {betData : LuaTable Uid (List Bet)} (hdata : betData = book.room.betData.getD ∅)
    (hcheck : beterCheck { book.room with betData := some betData } betData bet.toBetRequest =
      .ok (.call bet)) :
    BookInv room ⟨recordBet { book.room with betData := some betData } betData bet,
      book.accepted ++ [bet]⟩ := by
  obtain ⟨hpriced, hsurplus, hcovered⟩ := beterCheck_priced hcheck
  obtain ⟨-, hfree, -⟩ := beterCheck_call hcheck
  have hconflict : ∀ b ∈ book.of bet.uid,
      b.betType = 4 ∧ bet.betType = 4 ∧ b.betSubType ≠ bet.betSubType := by
    intro b hb
    have hmem : (⟨b.betType, b.betSubType, b.betValue⟩ : Bet) ∈ (betData.get bet.uid).getD [] := by
      rw [hdata, hinv.bets]
      exact List.mem_map.mpr ⟨b, hb, rfl⟩
    exact betConflict_eq_none (hfree _ hmem)
  refine ⟨hinv.stake, ?_, fun _ => hcovered, ?_, ?_, ?_, ?_⟩
  · have hbefore := hinv.surplus
    simp only [recordBet, List.map_append, List.map_singleton, List.sum_append, List.sum_singleton]
    rw [hsurplus]
    linarith
  · intro uid
    rw [Book.of_append]
    simp only [recordBet, Option.getD_some, LuaTable.get_set]
    split_ifs with huid
    · subst huid
      rw [Option.getD_some, hdata, hinv.bets, List.map_append, List.map_singleton]
      rfl
    · rw [hdata, hinv.bets]
      rfl
  · intro uid
    rw [Book.of_append]
    simp only [recordBet, Option.getD_some, LuaTable.get_set]
    split_ifs with huid
    · subst huid
      rw [Option.getD_some, hinv.totals]
      exact addTotalBet_of_new fun b hb => (hconflict b hb).2.2
    · rw [hinv.totals]
      rfl
  · intro b hb
    rcases List.mem_append.mp hb with hb | hb
    · exact hinv.priced b hb
    · rw [List.mem_singleton.mp hb]
      exact hpriced
  · intro uid
    rw [Book.of_append]
    split_ifs with huid
    · subst huid
      cases hothers : book.of bet.uid with
      | nil =>
          left
          have hempty : Book.of ⟨recordBet { book.room with betData := some betData } betData bet,
            book.accepted⟩ bet.uid = [] := hothers
          simp [hempty]
      | cons first rest =>
          right
          have hfour := (hconflict first (hothers ▸ List.mem_cons_self ..)).2.1
          intro b hb
          rcases List.mem_append.mp hb with hb | hb
          · exact (hconflict b hb).1
          · rw [List.mem_singleton.mp hb]
            exact hfour
    · exact hinv.kinds uid

/-- A request that is not accepted at most turns `g.bet_data` into a table. -/
theorem BookInv.keep {room : Room} {book : Book} (hinv : BookInv room book) :
    BookInv room
      ⟨{ book.room with betData := some (book.room.betData.getD ∅) }, book.accepted⟩ :=
  ⟨hinv.stake, hinv.surplus, hinv.covered, hinv.bets, hinv.totals, hinv.priced, hinv.kinds⟩

/-- What a round opens with, what a request that is not accepted keeps and what an accepted bet
keeps, holds of every book. -/
theorem Room.book_induction (room : Room) {requests : List (BetRequest × Answer)} {P : Book → Prop}
    (hopen : P ⟨beterStart room, []⟩)
    (hkeep : ∀ book, P book →
      P ⟨{ book.room with betData := some (book.room.betData.getD ∅) }, book.accepted⟩)
    (haccept : ∀ book bet, bet.toBetRequest ∈ requests.map Prod.fst →
      beterCheck { book.room with betData := some (book.room.betData.getD ∅) }
        (book.room.betData.getD ∅) bet.toBetRequest = .ok (.call bet) → P book →
      P ⟨recordBet { book.room with betData := some (book.room.betData.getD ∅) }
        (book.room.betData.getD ∅) bet, book.accepted ++ [bet]⟩) :
    P (room.book requests) := by
  have hbet : ∀ book, P book → ∀ request ∈ requests, P (book.bet request) := by
    intro book hbook request hrequest
    unfold Book.bet beter
    dsimp only
    cases hcheck : beterCheck { book.room with betData := some (book.room.betData.getD ∅) }
        (book.room.betData.getD ∅) request.1 with
    | error error => exact hkeep book hbook
    | ok next =>
        cases next with
        | done => exact hkeep book hbook
        | raised error => exact hkeep book hbook
        | refused text msgId => exact hkeep book hbook
        | call bet =>
            have hreq := (beterCheck_call hcheck).1
            cases hanswer : request.2 with
            | ok =>
                have hrecord := haccept book bet (hreq ▸ List.mem_map_of_mem hrequest)
                  (hreq ▸ hcheck) hbook
                unfold beterAnswered
                dsimp only
                rw [if_pos rfl]
                split_ifs
                · exact hrecord
                · exact hrecord
            | _ => exact hkeep book hbook
  exact List.foldlRecOn requests Book.bet hopen hbet

theorem Room.book_inv (room : Room) (requests : List (BetRequest × Answer)) :
    BookInv room (room.book requests) :=
  room.book_induction (BookInv.opening room) (fun _ hinv => hinv.keep)
    fun _ _ _ hcheck hinv => hinv.accept rfl hcheck

end Book

section Results

theorem userResult_change {hongbao : LuaTable Uid Packet} {playes : List Uid} {banker : Point}
    {entry : Uid × List TotalBet} {people : PlayerResult}
    (h : userResult hongbao playes banker entry = .ok people) :
    ∃ dxds cow point, Shows dxds cow point ∧
      userChange banker dxds cow point entry.2 = .ok (people.coinChange, people.totalBetValue) := by
  unfold userResult at h
  obtain ⟨packet, -, h⟩ := Lua.bind_eq_ok.mp h
  obtain ⟨⟨dxds, cow?⟩, hdata, h⟩ := Lua.bind_eq_ok.mp h
  obtain ⟨cow, hcow, h⟩ := Lua.bind_eq_ok.mp h
  obtain ⟨point, hpoint, h⟩ := Lua.bind_eq_ok.mp h
  obtain ⟨⟨coinChange, totalBetValue⟩, hchange, h⟩ := Lua.bind_eq_ok.mp h
  dsimp only at h hcow hchange
  rw [Lua.need_eq_ok] at hcow
  rw [hcow] at hdata
  split at h
  · cases h
  · cases h
    exact ⟨dxds, cow, point, getSizeDanShuangData_spec hdata hpoint, hchange⟩

theorem reservation_nonneg {bet : BetCall} (hpriced : Priced bet) : 0 ≤ reservation bet := by
  have hvalue : (0 : ℚ) < bet.betValue := by exact_mod_cast hpriced.positive
  rcases hpriced.price with ⟨-, h, -⟩ | ⟨-, h, -⟩ | ⟨-, h, -⟩ | ⟨-, -, rate, hrate, h⟩
  · rw [h]
    linarith
  · rw [h]
    linarith
  · rw [h]
    linarith
  · rw [h]
    exact mul_nonneg (getRate_bounds hrate).1 hvalue.le

theorem sum_reserved_le {keys : List Uid} (hnodup : keys.Nodup) {accepted : List BetCall}
    (hpriced : ∀ bet ∈ accepted, Priced bet) :
    (keys.map fun uid => ((accepted.filter fun bet => bet.uid = uid).map reservation).sum).sum ≤
      (accepted.map reservation).sum := by
  induction accepted with
  | nil => simp
  | cons bet accepted ih =>
      have hrest := ih fun b hb => hpriced b (List.mem_cons_of_mem _ hb)
      have hnonneg := reservation_nonneg (hpriced bet (List.mem_cons_self ..))
      have hsplit : ∀ uid, (((bet :: accepted).filter fun b => b.uid = uid).map reservation).sum =
          (if uid = bet.uid then reservation bet else 0) +
            ((accepted.filter fun b => b.uid = uid).map reservation).sum := by
        intro uid
        by_cases huid : bet.uid = uid
        · simp [huid]
        · have huid' : ¬uid = bet.uid := fun h => huid h.symm
          simp [huid, huid']
      have hcount : (keys.map fun uid => if uid = bet.uid then reservation bet else 0).sum ≤
          reservation bet := by
        rw [List.sum_map_ite_eq]
        have hone := List.nodup_iff_count_le_one.mp hnodup bet.uid
        interval_cases List.count bet.uid keys
        · simpa using hnonneg
        · simp
      simp only [hsplit, List.sum_map_add, List.map_cons, List.sum_cons]
      exact add_le_add hcount hrest

theorem BookInv.totals_of_mem {room : Room} {book : Book} (hinv : BookInv room book)
    {table : LuaTable Uid (List TotalBet)} (htable : book.room.totalBetData = some table)
    {entry : Uid × List TotalBet} (hentry : entry ∈ table.entries) :
    entry.2 = (book.of entry.1).map totalBetOf := by
  have htotals := hinv.totals entry.1
  rw [htable, Option.getD_some, (LuaTable.get_eq_some_iff table).mpr hentry, Option.getD_some]
    at htotals
  exact htotals

theorem BookInv.people_bounds {room : Room} {book : Book} (hinv : BookInv room book)
    {table : LuaTable Uid (List TotalBet)} (htable : book.room.totalBetData = some table)
    {packets : LuaTable Uid Packet} {players : List Uid} {point : Point}
    {entry : Uid × List TotalBet} (hentry : entry ∈ table.entries) {people : PlayerResult}
    (h : userResult packets players point entry = .ok people) :
    -people.coinChange ≤ book.frozen entry.1 ∧ people.coinChange ≤ book.reserved entry.1 := by
  obtain ⟨dxds, cow, max, hshows, hchange⟩ := userResult_change h
  rw [hinv.totals_of_mem htable hentry] at hchange
  refine userChange_bounds (fun bet hbet => ?_) (hinv.kinds entry.1) hshows hchange
  exact hinv.priced bet (List.mem_of_mem_filter hbet)

theorem BookInv.sum_changes_le {room : Room} {book : Book} (hinv : BookInv room book)
    {table : LuaTable Uid (List TotalBet)} (htable : book.room.totalBetData = some table)
    {packets : LuaTable Uid Packet} {players : List Uid} {point : Point}
    {peoples : List PlayerResult}
    (hpeoples : (table.entries.mapM fun entry => userResult packets players point entry) =
      .ok peoples) :
    (peoples.map PlayerResult.coinChange).sum ≤ (book.accepted.map reservation).sum := by
  have hone : ∀ (entries : List (Uid × List TotalBet)) (peoples : List PlayerResult),
      (∀ entry ∈ entries, entry ∈ table.entries) →
      List.Forall₂ (fun entry people => userResult packets players point entry = .ok people)
        entries peoples →
      (peoples.map PlayerResult.coinChange).sum ≤
        ((entries.map Prod.fst).map book.reserved).sum := by
    intro entries
    induction entries with
    | nil =>
        intro peoples _ hpeoples
        cases hpeoples
        exact le_refl _
    | cons entry entries ih =>
        intro peoples hmem hpeoples
        obtain ⟨people, rest, hpeople, hrest, rfl⟩ := List.forall₂_cons_left_iff.mp hpeoples
        have hfirst := (hinv.people_bounds htable (hmem entry (List.mem_cons_self ..)) hpeople).2
        have hothers := ih rest (fun e he => hmem e (List.mem_cons_of_mem _ he)) hrest
        rw [List.map_cons, List.map_cons, List.map_cons, List.sum_cons, List.sum_cons]
        exact add_le_add hfirst hothers
  calc (peoples.map PlayerResult.coinChange).sum
      ≤ ((table.entries.map Prod.fst).map book.reserved).sum :=
        hone table.entries peoples (fun _ h => h) (Lua.mapM_ok_forall₂ hpeoples)
    _ ≤ (book.accepted.map reservation).sum := sum_reserved_le table.nodup_keys hinv.priced

theorem foldl_bankerCoinAfter {peoples : List PlayerResult}
    (hplain : ∀ people ∈ peoples, people.isBanker = false) (coin : ℚ) :
    peoples.foldl bankerCoinAfter coin = coin := by
  induction peoples with
  | nil => rfl
  | cons people peoples ih =>
      have hfirst : bankerCoinAfter coin people = coin := by
        simp [bankerCoinAfter, hplain people (List.mem_cons_self ..)]
      rw [List.foldl_cons, hfirst]
      exact ih fun p hp => hplain p (List.mem_cons_of_mem _ hp)

theorem round2_nonneg {x : ℚ} (hx : 0 ≤ x) : 0 ≤ round2 x := by
  have hcents : (0 : ℤ) ≤ ⌊x * 100⌋ := Int.floor_nonneg.mpr (by linarith)
  have hcents' : (0 : ℚ) ≤ (⌊x * 100⌋ : ℤ) := by exact_mod_cast hcents
  unfold round2
  dsimp only
  split_ifs
  · linarith
  · linarith

/-- A banker who loses no more than he has keeps something that is not negative. -/
theorem bankerCoinAfter_nonneg {coin : ℚ} {v : PlayerResult} (hcoin : 0 ≤ coin)
    (hloss : -v.coinChange ≤ coin) : 0 ≤ bankerCoinAfter coin v := by
  unfold bankerCoinAfter
  split_ifs
  · exact hcoin
  · unfold pumpOf
    by_cases hwin : v.coinChange > 0
    · rw [if_pos hwin]
      have hrate : (if v.isBanker then hbBankerWinPumpRate else hbUserWinPumpRate) ≤ 1 := by
        split_ifs
        · norm_num [hbBankerWinPumpRate]
        · norm_num [hbUserWinPumpRate]
      have hkept := mul_le_mul_of_nonneg_left hrate hwin.le
      rw [mul_one] at hkept
      exact add_nonneg hcoin (round2_nonneg (sub_nonneg.mpr hkept))
    · rw [if_neg hwin]
      apply round2_nonneg
      rw [abs_of_nonpos (not_lt.mp hwin)]
      linarith

theorem robBankerPump_le {coin : ℚ} (betPeoples : Nat) : robBankerPump coin betPeoples ≤ coin := by
  unfold robBankerPump
  split_ifs with hfew
  · exact le_refl _
  · exact not_lt.mp hfew

theorem BookInv.solvent {room : Room} {book : Book} (hinv : BookInv room book)
    (heven : room.bankerSurplusCoin = room.bankerGameCoin) (hstake : 0 ≤ room.bankerGameCoin) :
    Solvent book := by
  have hsurplus : book.room.bankerSurplusCoin =
      book.room.bankerGameCoin - (book.accepted.map reservation).sum := by
    rw [hinv.surplus, heven, hinv.stake]
  have hcovered : 0 ≤ book.room.bankerSurplusCoin := hinv.covered (heven ▸ hstake)
  have hbettors : ∀ banker hongbao playes result,
      getResult banker hongbao book.room.totalBetData playes = .ok result →
      ∀ v ∈ result, v.isBanker = false →
        -v.coinChange ≤ book.frozen v.uid ∧ v.coinChange ≤ book.reserved v.uid := by
    intro banker hongbao playes result hresult v hv hplain
    obtain ⟨banker, table, packets, players, point, peoples, total, -, htable, hpeoples, rfl⟩ :=
      getResult_spec hresult
    rcases List.mem_append.mp hv with hv | hv
    · obtain ⟨entry, hentry, hok⟩ :=
        (Lua.mem_of_mapM_ok hpeoples v).mp (List.mem_of_mem_filter hv)
      rw [(userResult_spec hok).1]
      exact hinv.people_bounds htable hentry hok
    · rw [List.mem_singleton.mp hv] at hplain
      cases hplain
  have hbanker : ∀ banker hongbao playes result,
      getResult banker hongbao book.room.totalBetData playes = .ok result →
      ∀ v ∈ result, v.isBanker = true → -v.coinChange ≤ book.room.bankerGameCoin := by
    intro banker hongbao playes result hresult v hv hself
    obtain ⟨banker, table, packets, players, point, peoples, total, -, htable, hpeoples, rfl⟩ :=
      getResult_spec hresult
    rcases List.mem_append.mp hv with hv | hv
    · obtain ⟨entry, -, hok⟩ :=
        (Lua.mem_of_mapM_ok hpeoples v).mp (List.mem_of_mem_filter hv)
      rw [(userResult_spec hok).2] at hself
      cases hself
    · rw [List.mem_singleton.mp hv, neg_neg]
      have hpaid := hinv.sum_changes_le htable hpeoples
      linarith
  refine ⟨hsurplus, hcovered, hbettors, hbanker, ?_⟩
  intro banker packets players room' settlement hsettle
  unfold settle at hsettle
  obtain ⟨result, hresult, hsettle⟩ := Lua.bind_eq_ok.mp hsettle
  obtain ⟨bankerId, -, hsettle⟩ := Lua.bind_eq_ok.mp hsettle
  cases hsettle
  have hcoin : 0 ≤ result.foldl bankerCoinAfter book.room.bankerGameCoin := by
    have hloss := hbanker _ _ _ _ hresult
    obtain ⟨banker, table, packets, players, point, peoples, total, -, -, hpeoples, rfl⟩ :=
      getResult_spec hresult
    have hplain : ∀ people ∈ peoples.filter fun people => people.uid ≠ banker,
        people.isBanker = false := by
      intro people hpeople
      obtain ⟨entry, -, hok⟩ :=
        (Lua.mem_of_mapM_ok hpeoples people).mp (List.mem_of_mem_filter hpeople)
      exact (userResult_spec hok).2
    rw [List.foldl_append, List.foldl_cons, List.foldl_nil, foldl_bankerCoinAfter hplain]
    exact bankerCoinAfter_nonneg (hinv.stake ▸ hstake)
      (hloss _ (List.mem_append_right _ (List.mem_singleton_self _)) rfl)
  exact ⟨hcoin, round2_nonneg (sub_nonneg.mpr (robBankerPump_le _))⟩

end Results

section Main

/-- **The banker can pay** whatever is dealt, in every round that opens with his whole stake
free. -/
theorem solvent_iff (room : Room) (requests : List (BetRequest × Answer)) :
    Solvent (room.book requests) ↔
      room.bankerSurplusCoin = room.bankerGameCoin ∧ 0 ≤ room.bankerGameCoin := by
  have hinv := room.book_inv requests
  constructor
  · intro hsolvent
    have hsurplus := hsolvent.surplus
    rw [hinv.surplus, hinv.stake] at hsurplus
    have heven : room.bankerSurplusCoin = room.bankerGameCoin := by linarith
    have hreserved : 0 ≤ ((room.book requests).accepted.map reservation).sum := by
      apply List.sum_nonneg
      intro coin hcoin
      obtain ⟨bet, hbet, rfl⟩ := List.mem_map.mp hcoin
      exact reservation_nonneg (hinv.priced bet hbet)
    have hcovered := hsolvent.covered
    rw [hinv.surplus] at hcovered
    exact ⟨heven, by linarith⟩
  · rintro ⟨heven, hstake⟩
    exact hinv.solvent heven hstake

/-- A round with one bet, whose return is refused, up to the moment before the next round opens. -/
def staleRun : List Event :=
  [.setBankerType (some 2), .robBanker 1 1000, .resume 0 .ok [], .resume 0 .ok [], .resume 0 .ok [],
    .betting 2 ⟨some 2, none, some 10⟩, .resumeBet .ok] ++
    countDown 62 ++ [.resume 0 (.b002 "") []] ++ countDown 21

def staleBet : BetRequest := ⟨3, 2, none, 10, by decide, by decide⟩

/-- Five coins on the first of size and parity. -/
def dxdsBet (uid : Uid) : BetRequest := ⟨uid, 3, some 1, 5, by decide, by decide⟩

/-- Five coins against the banker. -/
def bankerBet (uid : Uid) : BetRequest := ⟨uid, 2, none, 5, by decide, by decide⟩

/-- After a return that was refused the next round opens with less than the stake. -/
theorem not_solvent_staleRun :
    (Run.exec step (World.fresh {}) staleRun).frames = [.startFreeze] ∧
      ¬Solvent ((Run.exec step (World.fresh {}) staleRun).room.book [(staleBet, .ok)]) := by
  have hroom : (Run.exec step (World.fresh {}) staleRun).frames = [.startFreeze] ∧
      (Run.exec step (World.fresh {}) staleRun).room.bankerSurplusCoin = 990 ∧
      (Run.exec step (World.fresh {}) staleRun).room.bankerGameCoin = 1000 := by decide +kernel
  refine ⟨hroom.1, fun hsolvent => ?_⟩
  have hinv := (Run.exec step (World.fresh {}) staleRun).room.book_inv [(staleBet, .ok)]
  have hsurplus := hsolvent.surplus
  rw [hinv.surplus, hinv.stake, hroom.2.1, hroom.2.2] at hsurplus
  linarith

end Main

end SdyServer.Hongbao
