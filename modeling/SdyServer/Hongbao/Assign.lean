import SdyServer.Hongbao.Chosen
import SdyServer.Hongbao.Enough

/-!
# Who gets which packet

A controlled assignment deals every player one packet, and the values sum to the money, exactly as
long as the chosen values leave something for everybody else. The values are chosen without regard
to the money, and what they leave is computed in doubles: it may come to a little more than whole
cents, which cannot be split.
-/

namespace SdyServer.Hongbao.Cheat

open Rounding

section Statement

/-- Packets with these values. -/
def packetsOf (l : List (Uid × ℤ)) : List (Uid × Packet) :=
  l.map fun entry => (entry.1, newPacket (some (format2 entry.2)))

/-- The banker and every bettor have one packet, each of at least a cent, and they sum to the
money. -/
def Complete (banker : Uid) (bettors : List Uid) (money : ℤ) (packets : LuaTable Uid Packet) :
    Prop :=
  ∃ l : List (Uid × ℤ), packets.entries = packetsOf l ∧ (l.map Prod.fst).Perm (banker :: bettors) ∧
    (∀ entry ∈ l, 1 ≤ entry.2) ∧ (l.map Prod.snd).sum = 100 * money

/-- The class that a bettor on size and parity has betted on. -/
def dxdsSub (bets : List Bet) : Option ℤ :=
  bets.head?.bind fun bet => if bet.type = 3 then some (bet.subType.getD 0) else none

/-- The bettors that a value is chosen for. -/
def chosenFor (entries : List (Uid × List Bet)) : List Uid :=
  (entries.filter fun entry => (dxdsSub entry.2).isSome).map Prod.fst

/-- Values that can be chosen for them, in cents. -/
def Picks (most : ℤ) (entries : List (Uid × List Bet)) (values : List ℤ) : Prop :=
  List.Forall₂ (fun s c => DxdsValue s most c) (entries.filterMap fun entry => dxdsSub entry.2)
    values

/-- The sum of values in cents, as it is computed in the order of `pairs`. -/
def cashOf (values : List ℤ) : ℚ :=
  values.foldl (fun cash (c : ℤ) => double (cash + double (c / 100))) 0

/-- What is left of the money after the values of the banker and of bettors, as it is computed. -/
def offOf (money banker : ℤ) (values : List ℤ) : ℚ :=
  double (double (money - double (banker / 100)) - cashOf values)

/-- The values that can be chosen at the first attempt, in cents: that of the banker, or zero where
none is chosen for him, and those of the bettors. -/
def Choice (room : Room) (entries : List (Uid × List Bet)) (banker : ℤ) (values : List ℤ) : Prop :=
  if room.userCt = some 0 then BankerValue 3 banker ∧ values = []
  else if room.bankerCt = some 0 then banker = 0 ∧ Picks 1 entries values
  else if (chosenFor entries).length = entries.length then banker = 0 ∧ Picks 2 entries values
  else BankerValue 2 banker ∧ Picks 2 entries values

/-- Whatever is chosen, what is left is enough for those without a chosen value. -/
def LeavesEnough (room : Room) (entries : List (Uid × List Bet)) : Prop :=
  ∀ banker values, Choice room entries banker values →
    Enough (double (offOf (2 * (entries.length + 1)) banker values * 100))
      (200 * (entries.length + 1) - banker - values.sum)
      (entries.length + 1 - values.length - if banker = 0 then 0 else 1)

/-- The bets of a player as `logic.beter` leaves them: one on size and parity is the only one. -/
def Admitted (bets : List Bet) : Prop := ∀ s ∈ dxdsSub bets, DxdsBet bets s

/-- A room in which the packets are about to be dealt. -/
structure Ready (room : Room) (banker : Uid) (betData : LuaTable Uid (List Bet))
    (players : List Uid) :
    Prop where
  bankerIs : room.banker = some banker
  betsAre : room.betData = some betData
  playersAre : room.players = some players
  all : players.Perm (banker :: betData.keys)
  notBettor : banker ∉ betData.keys
  admitted : ∀ entry ∈ betData.entries, Admitted entry.2

end Statement

section Chosen

/-- The chosen packets and their sum, with the values in cents. -/
structure Chosen (most : ℤ) (entries : List (Uid × List Bet)) (chosen : LuaTable Uid Value × ℚ)
    (l : List (Uid × ℤ)) : Prop where
  packets : chosen.1.entries = l.map fun entry => (entry.1, format2 entry.2)
  keys : l.map Prod.fst = chosenFor entries
  picks : Picks most entries (l.map Prod.snd)
  cash : chosen.2 = cashOf (l.map Prod.snd)

theorem DxdsBet.head {bets : List Bet} {s : ℤ} (hbets : DxdsBet bets s) :
    ∃ bet, bets.head? = some bet ∧ bet.type = 3 := by
  obtain ⟨bet, rfl, htype, -⟩ := hbets
  exact ⟨bet, rfl, htype⟩

theorem DxdsBet.sub_bounds {bets : List Bet} {s : ℤ} (hbets : DxdsBet bets s) : 1 ≤ s ∧ s ≤ 9 := by
  obtain ⟨_, -, -, -, hs, hs'⟩ := hbets
  exact ⟨hs, hs'⟩

theorem useEventTurn_of_none {ge : Option ℤ} {chosen : LuaTable Uid Value × ℚ}
    {entry : Uid × List Bet} (hsub : dxdsSub entry.2 = none) :
    useEventTurn ge chosen entry = pure chosen := by
  unfold useEventTurn
  unfold dxdsSub at hsub
  cases hhead : entry.2.head? with
  | none => rfl
  | some bet =>
      rw [hhead, Option.bind_some] at hsub
      split_ifs at hsub with htype
      exact if_neg htype

/-- What a turn makes of a value. -/
def chooseFor (chosen : LuaTable Uid Value × ℚ) (uid : Uid) (c : ℤ) : LuaTable Uid Value × ℚ :=
  (chosen.1.set uid (format2 c), double (chosen.2 + double (c / 100)))

theorem useEventTurn_spec {ge : Option ℤ} (hge : 1 ≤ ge.getD 1) (hge' : ge.getD 1 ≤ 3)
    (chosen : LuaTable Uid Value × ℚ) {entry : Uid × List Bet} {s : ℤ} (hbets : DxdsBet entry.2 s) :
    Roll.Always (useEventTurn ge chosen entry) fun next => ∃ c, DxdsValue s (ge.getD 1) c ∧
      next = chooseFor chosen entry.1 c := by
  obtain ⟨bet, hhead, htype⟩ := hbets.head
  obtain ⟨hs, hs'⟩ := hbets.sub_bounds
  unfold useEventTurn
  rw [hhead]
  dsimp only
  rw [if_pos htype]
  refine (getIgnoreDxdsTag_spec hbets).bind fun tag htag => ?_
  obtain ⟨hlow, hhigh⟩ := (openTags_spec hs hs').1 tag htag
  rw [if_pos (by omega)]
  refine (getDxdsValue_spec hlow (by split_ifs at hhigh <;> omega) hge hge').bind
    fun value? ⟨c, hc, hvalue⟩ => ?_
  subst hvalue
  refine (Roll.Always.lift (P := (· = format2 c)) (Lua.need_some ..) rfl).bind
    fun value hvalue => ?_
  subst hvalue
  refine (Roll.Always.lift (P := (· = (c : ℚ) / 100)) (need_tonumber c) rfl).bind
    fun coin hcoin => .pure ?_
  exact ⟨c, ⟨tag, htag, hc⟩, by rw [hcoin, chooseFor]⟩

theorem can_useEventTurn {ge : Option ℤ} (hge : 0 ≤ ge.getD 1) (hge' : ge.getD 1 ≤ 3)
    (chosen : LuaTable Uid Value × ℚ) {entry : Uid × List Bet} {s : ℤ} (hbets : DxdsBet entry.2 s)
    {c : ℤ} (hc : DxdsValue s (ge.getD 1) c) :
    Roll.Can (useEventTurn ge chosen entry) (chooseFor chosen entry.1 c) := by
  obtain ⟨bet, hhead, htype⟩ := hbets.head
  obtain ⟨hs, hs'⟩ := hbets.sub_bounds
  obtain ⟨tag, htag, hvalue⟩ := hc
  obtain ⟨hlow, hhigh⟩ := (openTags_spec hs hs').1 tag htag
  unfold useEventTurn
  rw [hhead]
  dsimp only
  rw [if_pos htype]
  refine (can_getIgnoreDxdsTag hbets htag).bind ?_
  rw [if_pos (by omega)]
  refine (can_getDxdsValue hlow (by split_ifs at hhigh <;> omega) hge hge' hvalue).bind
    ((Roll.Can.lift (Lua.need_some ..)).bind ?_)
  exact Roll.Can.bind (Roll.Can.lift (need_tonumber c)) (.pure _)

section Turn

variable {most : ℤ} {seen : List (Uid × List Bet)} {chosen : LuaTable Uid Value × ℚ}
  {l : List (Uid × ℤ)} {entry : Uid × List Bet}

theorem Chosen.nil (most : ℤ) : Chosen most [] (∅, 0) [] := ⟨rfl, rfl, .nil, rfl⟩

theorem Chosen.skip (hl : Chosen most seen chosen l) (hsub : dxdsSub entry.2 = none) :
    Chosen most (seen ++ [entry]) chosen l := by
  refine ⟨hl.packets, ?_, ?_, hl.cash⟩
  · rw [hl.keys, chosenFor, chosenFor, List.filter_append]
    simp [hsub]
  · have hpicks := hl.picks
    unfold Picks at hpicks ⊢
    rw [List.filterMap_append]
    simpa [hsub] using hpicks

/-- Every bettor comes once. -/
theorem Chosen.choose (hl : Chosen most seen chosen l) {s c : ℤ} (hsub : dxdsSub entry.2 = some s)
    (hc : DxdsValue s most c) (hnew : entry.1 ∉ seen.map Prod.fst) :
    Chosen most (seen ++ [entry]) (chooseFor chosen entry.1 c) (l ++ [(entry.1, c)]) := by
  have hkeys : entry.1 ∉ chosen.1.keys := by
    intro hkey
    rw [LuaTable.keys, hl.packets, List.map_map] at hkey
    have hkey' : entry.1 ∈ l.map Prod.fst := hkey
    rw [hl.keys] at hkey'
    obtain ⟨other, hother, heq⟩ := List.mem_map.mp hkey'
    exact hnew (heq ▸ List.mem_map_of_mem (List.mem_of_mem_filter hother))
  refine ⟨?_, ?_, ?_, ?_⟩
  · rw [chooseFor, LuaTable.entries_set_of_notMem _ _ hkeys, hl.packets, List.map_append]
    rfl
  · rw [List.map_append, hl.keys, chosenFor, chosenFor, List.filter_append]
    simp [hsub]
  · have hpicks := hl.picks
    unfold Picks at hpicks ⊢
    rw [List.filterMap_append, List.map_append]
    refine List.rel_append hpicks ?_
    simp [hsub, hc]
  · rw [chooseFor, hl.cash, List.map_append, cashOf, cashOf, List.foldl_append]
    rfl

end Turn

variable {betData : LuaTable Uid (List Bet)} {ge : Option ℤ}

theorem notMem_seen {seen rest : List (Uid × List Bet)} {entry : Uid × List Bet}
    (hentries : betData.entries = seen ++ entry :: rest) : entry.1 ∉ seen.map Prod.fst := by
  have hnodup := betData.nodupKeys
  rw [hentries, List.map_append, List.map_cons, List.nodup_append] at hnodup
  exact fun hmem => hnodup.2.2 _ hmem _ (List.mem_cons_self ..) rfl

theorem useEvent_spec (hadmitted : ∀ entry ∈ betData.entries, Admitted entry.2)
    (hge : 1 ≤ ge.getD 1)
    (hge' : ge.getD 1 ≤ 3) :
    Roll.Always (useEvent betData ge) fun chosen => ∃ l, Chosen
    (ge.getD 1) betData.entries chosen l := by
  unfold useEvent
  refine (Roll.Always.random (by norm_num)).bind fun _ _ => ?_
  refine Roll.Always.foldlM (fun seen chosen => ∃ l, Chosen (ge.getD 1) seen chosen l) ?_
    ⟨[], .nil _⟩
  rintro seen entry rest hentries chosen ⟨l, hl⟩
  cases hsub : dxdsSub entry.2 with
  | none =>
      rw [useEventTurn_of_none hsub]
      exact .pure ⟨l, hl.skip hsub⟩
  | some s =>
      have hbets := hadmitted entry (hentries ▸ by simp) s hsub
      refine (useEventTurn_spec hge hge' chosen hbets).mono ?_
      rintro next ⟨c, hc, rfl⟩
      exact ⟨_, hl.choose hsub hc (notMem_seen hentries)⟩

/-- Any values that the bets leave open may be chosen. -/
theorem can_useEvent (hadmitted : ∀ entry ∈ betData.entries, Admitted entry.2) (hge : 0 ≤ ge.getD 1)
    (hge' : ge.getD 1 ≤ 3) {values : List ℤ} (hpicks : Picks (ge.getD 1) betData.entries values) :
    ∃ chosen l, Roll.Can (useEvent betData ge) chosen ∧
      Chosen (ge.getD 1) betData.entries chosen l ∧ l.map Prod.snd = values := by
  suffices hturns : ∀ rest seen, betData.entries = seen ++ rest → ∀ values,
      Picks (ge.getD 1) rest values → ∀ chosen l, Chosen (ge.getD 1) seen chosen l →
        ∃ chosen' l', Roll.Can (rest.foldlM (useEventTurn ge) chosen) chosen' ∧
          Chosen (ge.getD 1) betData.entries chosen' l' ∧
            l'.map Prod.snd = l.map Prod.snd ++ values by
    obtain ⟨chosen, l, hcan, hl, hvalues⟩ := hturns _ [] rfl values hpicks _ _ (.nil _)
    exact ⟨chosen, l, (Roll.Can.random (v := 1) (by norm_num) (by norm_num)).bind hcan, hl, hvalues⟩
  intro rest
  induction rest with
  | nil =>
      intro seen hentries values hpicks chosen l hl
      rw [List.append_nil] at hentries
      rw [Picks, List.filterMap_nil, List.forall₂_nil_left_iff] at hpicks
      exact ⟨chosen, l, .pure _, hentries ▸ hl, by rw [hpicks, List.append_nil]⟩
  | cons entry rest ih =>
      intro seen hentries values hpicks chosen l hl
      have hentries' : betData.entries = seen ++ [entry] ++ rest := by simp [hentries]
      cases hsub : dxdsSub entry.2 with
      | none =>
          rw [Picks,
            List.filterMap_cons_none (f := fun entry : Uid × List Bet => dxdsSub entry.2) hsub]
            at hpicks
          obtain ⟨chosen', l', hcan, hl', hvalues⟩ :=
            ih _ hentries' values hpicks chosen l (hl.skip hsub)
          refine ⟨chosen', l', ?_, hl', hvalues⟩
          rw [List.foldlM_cons, useEventTurn_of_none hsub]
          exact (Roll.Can.pure _).bind hcan
      | some s =>
          rw [Picks,
            List.filterMap_cons_some (f := fun entry : Uid × List Bet => dxdsSub entry.2) hsub,
            List.forall₂_cons_left_iff] at hpicks
          obtain ⟨c, values, hc, hpicks, rfl⟩ := hpicks
          have hbets := hadmitted entry (hentries ▸ by simp) s hsub
          obtain ⟨chosen', l', hcan, hl', hvalues⟩ := ih _ hentries' values hpicks _ _
            (hl.choose hsub hc (notMem_seen hentries))
          refine ⟨chosen', l', ?_, hl', ?_⟩
          · rw [List.foldlM_cons]
            exact (can_useEventTurn hge hge' chosen hbets hc).bind hcan
          · rw [hvalues, List.map_append, List.append_assoc]
            rfl

end Chosen

section Left

theorem sum_bounds {values : List ℤ} (hvalues : ∀ c ∈ values, 0 ≤ c ∧ c ≤ 432) :
    (0 : ℚ) ≤ values.sum ∧ (values.sum : ℚ) ≤ 432 * values.length := by
  have hlow := List.sum_nonneg fun c hc => (hvalues c hc).1
  have hhigh := List.sum_le_card_nsmul values 432 fun c hc => (hvalues c hc).2
  rw [nsmul_eq_mul, mul_comm] at hhigh
  exact ⟨by exact_mod_cast hlow, by exact_mod_cast hhigh⟩

/-- Adding the values up leaves the rounding small. -/
theorem cashOf_near {values : List ℤ} (hvalues : ∀ c ∈ values, 0 ≤ c ∧ c ≤ 432)
    (hmany : values.length ≤ 2 ^ 20) :
    |cashOf values - (values.sum : ℚ) / 100| ≤ values.length / 2 ^ 30 := by
  induction values using List.reverseRecOn with
  | nil => simp [cashOf]
  | append_singleton values c ih =>
      rw [List.forall_mem_append, List.forall_mem_singleton] at hvalues
      obtain ⟨hvalues, hc, hc'⟩ := hvalues
      rw [List.length_append, List.length_singleton] at hmany
      have hbefore := ih hvalues (by omega)
      obtain ⟨hsum, hsum'⟩ := sum_bounds hvalues
      have hlength : (values.length : ℚ) + 1 ≤ 2 ^ 20 := by exact_mod_cast hmany
      have hcoin : |double (c / 100) - c / 100| ≤ c / 100 / 2 ^ 53 :=
        abs_double_sub_le_of_nonneg (by positivity)
      have hcash : cashOf (values ++ [c]) = double (cashOf values + double (c / 100)) := by
        rw [cashOf, cashOf, List.foldl_append]
        rfl
      have hround := abs_double_sub_le (cashOf values + double (c / 100))
      have hc0 : (0 : ℚ) ≤ c := by exact_mod_cast hc
      have hc1 : (c : ℚ) ≤ 432 := by exact_mod_cast hc'
      have hlarge : |cashOf values + double (c / 100)| ≤ 2 ^ 23 - 5 := by
        rw [abs_le] at hbefore hcoin ⊢
        constructor <;> linarith
      rw [hcash, List.sum_append, List.sum_singleton, List.length_append, List.length_singleton,
        Int.cast_add, Nat.cast_add, Nat.cast_one]
      have hround' := hround.trans (div_le_div_of_nonneg_right hlarge (by norm_num))
      rw [abs_le] at hbefore hcoin hround' ⊢
      constructor <;> linarith

theorem about_offOf {money banker : ℤ} {values : List ℤ} (hmoney : 0 ≤ money)
    (hmoney' : money ≤ 2 ^ 22)
    (hbanker : 0 ≤ banker) (hbanker' : banker ≤ 432) (hvalues : ∀ c ∈ values, 0 ≤ c ∧ c ≤ 432)
    (hmany : values.length ≤ 2 ^ 20) :
    About (offOf money banker values) (100 * money - banker - values.sum) := by
  have hcash := cashOf_near hvalues hmany
  obtain ⟨hsum, hsum'⟩ := sum_bounds hvalues
  have hlength : (values.length : ℚ) ≤ 2 ^ 20 := by exact_mod_cast hmany
  have hmoney0 : (0 : ℚ) ≤ money := by exact_mod_cast hmoney
  have hmoney1 : (money : ℚ) ≤ 2 ^ 22 := by exact_mod_cast hmoney'
  have hbanker0 : (0 : ℚ) ≤ banker := by exact_mod_cast hbanker
  have hbanker1 : (banker : ℚ) ≤ 432 := by exact_mod_cast hbanker'
  have hcoin : |double (banker / 100) - banker / 100| ≤ banker / 100 / 2 ^ 53 :=
    abs_double_sub_le_of_nonneg (by positivity)
  have hfirst := abs_double_sub_le (money - double (banker / 100))
  have hsecond := abs_double_sub_le (double (money - double (banker / 100)) - cashOf values)
  have hthird := abs_double_sub_le (offOf money banker values * 100)
  have hpart : (values.length : ℚ) / 2 ^ 30 ≤ 1 / 2 ^ 10 := by
    rw [div_le_iff₀ (by norm_num)]
    linarith
  have hround : ∀ {x y : ℚ}, |x - y| ≤ |y| / 2 ^ 53 → |y| ≤ 2 ^ 32 → |x - y| ≤ 1 / 2 ^ 21 := by
    intro x y h hy
    refine h.trans ?_
    rw [div_le_iff₀ (by norm_num)]
    linarith
  rw [abs_le] at hcash hcoin
  have hfirst' := abs_le.1 (hround hfirst (by rw [abs_le]; constructor <;> linarith))
  have hsecond' := abs_le.1 (hround hsecond (by rw [abs_le]; constructor <;> linarith))
  have hthird' := abs_le.1 (hround hthird (by
    rw [offOf, abs_le]
    constructor <;> linarith))
  have hoff : offOf money banker values =
      double (double (money - double (banker / 100)) - cashOf values) :=
    rfl
  rw [← hoff] at hsecond'
  constructor
  · rw [abs_le, Int.cast_sub, Int.cast_sub, Int.cast_mul, Int.cast_ofNat]
    constructor <;> linarith
  · have hsmall : |((100 * money - banker - values.sum : ℤ) : ℚ)| ≤ ((2 ^ 40 : ℤ) : ℚ) := by
      rw [abs_le, Int.cast_sub, Int.cast_sub, Int.cast_mul, Int.cast_ofNat, Int.cast_pow,
        Int.cast_ofNat]
      constructor <;> linarith
    exact_mod_cast hsmall

end Left

section Fill

/-- What is dealt sums to the money in packets of at least a cent, each to one player. -/
theorem complete_iff {banker : Uid} {bettors : List Uid} {money : ℤ} {packets : LuaTable Uid Packet}
    {l : List (Uid × ℤ)} (hpackets : packets.entries = packetsOf l)
    (hperm : (l.map Prod.fst).Perm (banker :: bettors)) :
    Complete banker bettors money packets ↔
      (∀ v ∈ l.map Prod.snd, 1 ≤ v) ∧ (l.map Prod.snd).sum = 100 * money := by
  have hinj : Function.Injective packetsOf := by
    refine List.map_injective_iff.mpr fun a b hab => ?_
    simp only [newPacket, Prod.mk.injEq, Packet.mk.injEq, Option.some.injEq, and_true] at hab
    exact Prod.ext hab.1 (format2_injective hab.2)
  constructor
  · rintro ⟨l', hl', -, hpos, hsum⟩
    obtain rfl : l = l' := hinj (hpackets.symm.trans hl')
    exact ⟨List.forall_mem_map.mpr hpos, hsum⟩
  · rintro ⟨hpos, hsum⟩
    exact ⟨l, hpackets, hperm, List.forall_mem_map.mp hpos, hsum⟩

theorem keys_of_packetsOf {packets : LuaTable Uid Packet} {l : List (Uid × ℤ)}
    (hpackets : packets.entries = packetsOf l) : packets.keys = l.map Prod.fst := by
  rw [LuaTable.keys, hpackets, packetsOf, List.map_map]
  rfl

theorem entries_set_packet {packets : LuaTable Uid Packet} {l : List (Uid × ℤ)}
    (hpackets : packets.entries = packetsOf l) {uid : Uid} (hnew : uid ∉ l.map Prod.fst) (c : ℤ) :
    (packets.set uid (newPacket (some (format2 c)))).entries = packetsOf (l ++ [(uid, c)]) := by
  rw [LuaTable.entries_set_of_notMem _ _ (by rwa [keys_of_packetsOf hpackets]), hpackets, packetsOf,
    packetsOf, List.map_append]
  rfl

/-- The chosen packets come after those already dealt. -/
theorem addPackets_entries {packets : LuaTable Uid Packet} {users : LuaTable Uid Value}
    {l l' : List (Uid × ℤ)} (hpackets : packets.entries = packetsOf l)
    (husers : users.entries = l'.map fun entry => (entry.1, format2 entry.2))
    (hnodup : ((l ++ l').map Prod.fst).Nodup) :
    (addPackets packets users).entries = packetsOf (l ++ l') := by
  rw [addPackets, husers]
  clear husers
  induction l' generalizing packets l with
  | nil => simpa using hpackets
  | cons entry l' ih =>
      have hnodup' : ((l ++ [entry] ++ l').map Prod.fst).Nodup := by simpa using hnodup
      have hnew : entry.1 ∉ l.map Prod.fst := by
        rw [List.append_assoc, List.map_append, List.nodup_append] at hnodup'
        exact fun hmem => hnodup'.2.2 _ hmem _ (by simp) rfl
      rw [List.map_cons, List.foldl_cons, ih (entries_set_packet hpackets hnew entry.2) hnodup']
      simp

/-- The players without a packet get the values in turn. -/
theorem fillUp_entries {players : List Uid} (hnodup : players.Nodup) {packets : LuaTable Uid Packet}
    {l : List (Uid × ℤ)} (hpackets : packets.entries = packetsOf l) {values : List ℤ}
    (hlength : (players.filter fun uid => uid ∉ l.map Prod.fst).length = values.length) :
    (fillUp players packets (values.map format2)).entries =
      packetsOf (l ++ (players.filter fun uid => uid ∉ l.map Prod.fst).zip values) := by
  induction players generalizing packets l values with
  | nil => simpa [fillUp] using hpackets
  | cons uid players ih =>
      rw [List.nodup_cons] at hnodup
      have hget : (packets.get uid).isSome ↔ uid ∈ l.map Prod.fst := by
        rw [← keys_of_packetsOf hpackets, LuaTable.mem_keys_iff, Option.isSome_iff_exists]
      by_cases hmem : uid ∈ l.map Prod.fst
      · rw [List.filter_cons_of_neg (by simpa using hmem)] at hlength ⊢
        rw [fillUp, if_pos (hget.mpr hmem)]
        exact ih hnodup.2 hpackets hlength
      · rw [List.filter_cons_of_pos (by simpa using hmem)] at hlength ⊢
        rw [fillUp, if_neg (fun h => hmem (hget.mp h))]
        cases values with
        | nil => simp at hlength
        | cons v values =>
            -- the packet that was just dealt is nobody's who comes later
            have hfilter : (players.filter fun other => other ∉ (l ++ [(uid, v)]).map Prod.fst) =
                players.filter fun other => other ∉ l.map Prod.fst := by
              refine List.filter_congr fun other hother => ?_
              have hne : other ≠ uid := fun h => hnodup.1 (h ▸ hother)
              simp [hne]
            rw [List.length_cons, List.length_cons, Nat.add_right_cancel_iff, ← hfilter] at hlength
            have hrest := ih hnodup.2 (entries_set_packet hpackets hmem v) hlength
            rw [hfilter] at hrest
            simpa using hrest

/-- Filling up with as many values as packets are missing gives every player one, and the packets
are complete as far as the values allow. -/
theorem exists_fill {banker : Uid} {bettors players : List Uid} {money : ℤ}
    (hplayers : players.Perm (banker :: bettors)) (hnodup : (banker :: bettors).Nodup)
    {packets : LuaTable Uid Packet} {l : List (Uid × ℤ)} (hpackets : packets.entries = packetsOf l)
    (hl : l.map Prod.fst ⊆ banker :: bettors) (hpos : ∀ entry ∈ l, 1 ≤ entry.2) {values : List ℤ}
    (hlength : l.length + values.length = bettors.length + 1) :
    ∃ packets', fillPlayers players packets (some (values.map format2)) = .ok packets' ∧
      (Complete banker bettors money packets' ↔
        (∀ v ∈ values, 1 ≤ v) ∧ (l.map Prod.snd).sum + values.sum = 100 * money) := by
  have hall := hplayers.nodup_iff.mpr hnodup
  have hkeys : (l.map Prod.fst).Nodup := keys_of_packetsOf hpackets ▸ packets.nodup_keys
  have hmissing : (l.map Prod.fst ++ players.filter fun uid => uid ∉ l.map Prod.fst).Perm
      players := by
    have hdealt : (players.filter fun uid => uid ∈ l.map Prod.fst).Perm (l.map Prod.fst) := by
      refine (List.perm_ext_iff_of_nodup (hall.filter _) hkeys).mpr fun uid => ?_
      rw [List.mem_filter, decide_eq_true_eq]
      exact ⟨And.right, fun hmem => ⟨hplayers.mem_iff.mpr (hl hmem), hmem⟩⟩
    refine (hdealt.symm.append_right _).trans ?_
    simpa using List.filter_append_perm (fun uid => decide (uid ∈ l.map Prod.fst)) players
  have hcount : (players.filter fun uid => uid ∉ l.map Prod.fst).length = values.length := by
    have hlen := hmissing.length_eq
    rw [List.length_append, List.length_map, hplayers.length_eq, List.length_cons] at hlen
    omega
  refine ⟨_, rfl, ?_⟩
  rw [complete_iff (fillUp_entries hall hpackets hcount)]
  · rw [List.map_append, List.map_snd_zip hcount.ge, List.sum_append, List.forall_mem_append,
      List.forall_mem_map]
    exact ⟨fun h => ⟨h.1.2, h.2⟩, fun h => ⟨⟨hpos, h.1⟩, h.2⟩⟩
  · rw [List.map_append, List.map_fst_zip hcount.le]
    exact hmissing.trans hplayers

end Fill

end SdyServer.Hongbao.Cheat
