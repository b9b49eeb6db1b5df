import SdyServer.Hongbao.Assign
import SdyServer.Hongbao.Solvency

/-!
# When every packet can be dealt

Every packet of a round can be dealt exactly as long as whatever may be chosen at the first attempt
leaves enough for the others. A second attempt does not help: the most that can be chosen is the
same.
-/

namespace SdyServer.Hongbao.Cheat

open Rounding

section Picks

variable {entries : List (Uid × List Bet)} {most : ℤ} {values : List ℤ}

theorem Picks.length (hpicks : Picks most entries values) :
    values.length = (chosenFor entries).length := by
  rw [← List.Forall₂.length_eq hpicks, chosenFor, List.length_map]
  clear hpicks
  induction entries with
  | nil => rfl
  | cons entry entries ih => cases hsub : dxdsSub entry.2 <;> simp [hsub, ih]

/-- The most for everybody. -/
def largest (entries : List (Uid × List Bet)) : List ℤ :=
  (entries.filterMap fun entry => dxdsSub entry.2).map mostFor

theorem sub_bounds (hadmitted : ∀ entry ∈ entries, Admitted entry.2) :
    ∀ s ∈ entries.filterMap fun entry => dxdsSub entry.2, 1 ≤ s ∧ s ≤ 9 := by
  intro s hs
  obtain ⟨entry, hentry, hsub⟩ := List.mem_filterMap.mp hs
  exact (hadmitted entry hentry s hsub).sub_bounds

theorem picks_largest (hadmitted : ∀ entry ∈ entries, Admitted entry.2) (most : ℤ) :
    Picks most entries (largest entries) := by
  unfold Picks largest
  rw [List.forall₂_map_right_iff, List.forall₂_same]
  exact fun s hs => dxdsValue_largest (sub_bounds hadmitted s hs).1
    (sub_bounds hadmitted s hs).2 most

theorem Picks.bounds (hpicks : Picks most entries values)
    (hadmitted : ∀ entry ∈ entries, Admitted entry.2) (hmost : most ≤ 2) :
    (∀ c ∈ values, 1 ≤ c ∧ c ≤ 432) ∧ values.sum ≤ (largest entries).sum := by
  have hbounds := sub_bounds hadmitted
  unfold Picks at hpicks
  unfold largest
  generalize (entries.filterMap fun entry => dxdsSub entry.2) = subs at hpicks hbounds ⊢
  induction hpicks with
  | nil => simp
  | @cons s c subs values hvalue _ ih =>
      rw [List.forall_mem_cons] at hbounds
      obtain ⟨hlow, hhigh⟩ := hvalue.bounds hbounds.1.1 hbounds.1.2 hmost
      obtain ⟨hall, hsum⟩ := ih hbounds.2
      have hleast : mostFor s ≤ 432 := by unfold mostFor; split_ifs <;> norm_num
      rw [List.forall_mem_cons, List.map_cons, List.sum_cons, List.sum_cons]
      exact ⟨⟨⟨hlow, hhigh.trans hleast⟩, hall⟩, add_le_add hhigh hsum⟩

end Picks

section Left

variable {money banker : ℤ} {values : List ℤ}

theorem double_money (hmoney : 0 ≤ money) (hmoney' : money ≤ 2 ^ 22) : double money = money :=
  double_intCast (by rw [abs_of_nonneg hmoney]; omega)

/-- Where no value is chosen for the banker. -/
theorem offOf_zero (hmoney : 0 ≤ money) (hmoney' : money ≤ 2 ^ 22) (values : List ℤ) :
    offOf money 0 values = double (money - cashOf values) := by
  rw [offOf, Int.cast_zero, zero_div, double_zero, sub_zero, double_money hmoney hmoney']

/-- Where none is chosen for a bettor. -/
theorem offOf_nil (money banker : ℤ) :
    offOf money banker [] = double (money - double (banker / 100)) := by
  rw [offOf, cashOf, List.foldl_nil, sub_zero, double_double]

end Left

section Branches

variable {room : Room} {banker : Uid} {betData : LuaTable Uid (List Bet)} {players : List Uid}
  {money : ℤ} {people : ℕ}

theorem Ready.nodup (hready : Ready room banker betData players) :
    (banker :: betData.keys).Nodup :=
  List.nodup_cons.mpr ⟨hready.notBettor, betData.nodup_keys⟩

theorem chosenFor_subset (entries : List (Uid × List Bet)) :
    chosenFor entries ⊆ entries.map Prod.fst :=
  List.map_subset _ (List.filter_subset_self _)

theorem chosenFor_length_le (betData : LuaTable Uid (List Bet)) :
    (chosenFor betData.entries).length ≤ betData.size := by
  rw [chosenFor, List.length_map]
  exact List.length_filter_le ..

/-- All of them have betted on size and parity when a value is chosen for everybody. -/
theorem allDxds_iff (betData : LuaTable Uid (List Bet)) :
    allDxds betData = true ↔ (chosenFor betData.entries).length = betData.size := by
  have hsub : ∀ bets : List Bet, (dxdsSub bets).isSome ↔ bets.head?.map Bet.type = some 3 := by
    intro bets
    unfold dxdsSub
    cases bets.head? with
    | none => simp
    | some bet => by_cases htype : bet.type = 3 <;> simp [htype]
  rw [chosenFor, List.length_map, LuaTable.size, List.length_filter_eq_length_iff, allDxds,
    List.all_eq_true]
  simp only [decide_eq_true_eq, hsub]

theorem chosenFor_of_all (hall : allDxds betData = true) :
    chosenFor betData.entries = betData.keys := by
  have hlength := (allDxds_iff betData).mp hall
  rw [chosenFor, List.length_map, LuaTable.size, List.length_filter_eq_length_iff] at hlength
  rw [chosenFor, List.filter_eq_self.mpr hlength]
  rfl

section Chosen

variable {most : ℤ} {chosen : LuaTable Uid Value × ℚ} {l : List (Uid × ℤ)}

theorem Chosen.size_eq (hl : Chosen most betData.entries chosen l) : chosen.1.size = l.length := by
  rw [LuaTable.size, hl.packets, List.length_map]

theorem Chosen.length_eq (hl : Chosen most betData.entries chosen l) :
    l.length = (chosenFor betData.entries).length := by
  rw [← hl.keys, List.length_map]

/-- The packets of the chosen values, after those that are dealt already. -/
theorem Chosen.add (hl : Chosen most betData.entries chosen l) {packets : LuaTable Uid Packet}
    {before : List (Uid × ℤ)} (hpackets : packets.entries = packetsOf before)
    (hbefore : (before.map Prod.fst).Nodup)
    (hapart : ∀ uid ∈ before.map Prod.fst, uid ∉ betData.keys) :
    (addPackets packets chosen.1).entries = packetsOf (before ++ l) := by
  refine addPackets_entries hpackets hl.packets ?_
  rw [List.map_append, hl.keys, List.nodup_append]
  refine ⟨hbefore, betData.nodup_keys.sublist (List.filter_sublist.map _), ?_⟩
  rintro uid huid other hother rfl
  exact hapart uid huid (chosenFor_subset _ hother)

theorem Chosen.positive (hl : Chosen most betData.entries chosen l)
    (hready : Ready room banker betData players) (hmost : most ≤ 2) : ∀ entry ∈ l, 1 ≤ entry.2 :=
  fun _ hentry => ((hl.picks.bounds hready.admitted hmost).1 _ (List.mem_map_of_mem hentry)).1

/-- What the chosen values leave, but for a rounding. -/
theorem about_of_picks {values : List ℤ} (hready : Ready room banker betData players)
    (hpicks : Picks most betData.entries values) (hmost : most ≤ 2) (hmoney : 0 ≤ money)
    (hmoney' : money ≤ 2 ^ 22) (hsize : betData.size ≤ 2 ^ 20) {c : ℤ} (hc : 0 ≤ c)
    (hc' : c ≤ 432) :
    About (offOf money c values) (100 * money - c - values.sum) := by
  refine about_offOf hmoney hmoney' hc hc' (fun v hv => ?_) ?_
  · obtain ⟨hlow, hhigh⟩ := (hpicks.bounds hready.admitted hmost).1 v hv
    exact ⟨by omega, hhigh⟩
  · rw [hpicks.length]
    exact (chosenFor_length_le betData).trans hsize

end Chosen

theorem set_empty_packet (uid : Uid) (c : ℤ) :
    ((∅ : LuaTable Uid Packet).set uid (newPacket (some (format2 c)))).entries =
      packetsOf [(uid, c)] :=
  entries_set_packet (l := []) rfl List.not_mem_nil c

/-- The packets are complete whatever is drawn exactly where what is left is enough for the
others. -/
theorem fill_iff (hready : Ready room banker betData players) {packets : LuaTable Uid Packet}
    {l : List (Uid × ℤ)} (hpackets : packets.entries = packetsOf l)
    (hl : l.map Prod.fst ⊆ banker :: betData.keys) (hpos : ∀ entry ∈ l, 1 ≤ entry.2) {size : ℕ}
    (hsize : 1 ≤ size) (htop : size ≤ 2 ^ 21) (hlength : l.length + size = betData.size + 1)
    {off : ℚ}
    (habout : About off (100 * money - (l.map Prod.snd).sum)) :
    Roll.Always
        (do
          let redpackets ← randomRedPacket double off size
          (fillPlayers players packets redpackets : Lua _))
        (Complete banker betData.keys money) ↔
      Enough (double (off * 100)) (100 * money - (l.map Prod.snd).sum) size := by
  have hfill : ∀ values : List ℤ, values.length = size →
      ∃ packets', fillPlayers players packets (some (values.map format2)) = .ok packets' ∧
        (Complete banker betData.keys money packets' ↔
          (∀ v ∈ values, 1 ≤ v) ∧ (l.map Prod.snd).sum + values.sum = 100 * money) :=
    fun values hvalues => exists_fill hready.all hready.nodup hpackets hl hpos
      (by rw [hvalues, hlength, LuaTable.length_keys])
  constructor
  · intro halways
    by_contra hfew
    obtain ⟨values, hcan, hvalues, v, hv, hbad⟩ := habout.randomRedPacket_fails hsize htop hfew
    obtain ⟨packets', hok, hcomplete⟩ := hfill values hvalues
    have hdealt := (Roll.Can.lift hok).of_always (hcan.always_of_bind halways)
    have hlow := (hcomplete.mp hdealt).1 v hv
    omega
  · intro henough
    refine (habout.randomRedPacket_spec hsize henough).bind ?_
    rintro _ ⟨values, rfl, hvalues⟩
    obtain ⟨packets', hok, hcomplete⟩ := hfill values hvalues.length
    refine .lift hok (hcomplete.mpr ⟨hvalues.positive, ?_⟩)
    rw [hvalues.sum]
    ring

/-- With the banker alone controlled, the bettors share what his value leaves. -/
theorem assign_banker (hready : Ready room banker betData players)
    (hbanker : room.bankerCt ≠ some 0)
    (huser : room.userCt = some 0) (hmany : 1 ≤ betData.size) (htop : betData.size ≤ 2 ^ 20)
    (hmoney : 0 ≤ money) (hmoney' : money ≤ 2 ^ 22) :
    Roll.Always (assignRedPacket room money (betData.size + 1))
    (Complete banker betData.keys money) ↔
      ∀ c, BankerValue 3 c →
        Enough (double (offOf money c [] * 100)) (100 * money - c) betData.size := by
  have hassign : assignRedPacket room money (betData.size + 1) = (do
      let picked ← pickBanker none
      let redpackets ← randomRedPacket double (double (money - picked.2)) betData.size
      (fillPlayers players ((∅ : LuaTable Uid Packet).set banker (newPacket (some picked.1)))
        redpackets : Lua _)) := by
    unfold assignRedPacket
    rw [hready.betsAre, hready.playersAre, hready.bankerIs]
    show (if _ then _ else if _ then _ else _) = _
    rw [if_neg (fun h => h.2 huser), if_pos hbanker]
    rfl
  have hfill : ∀ c, BankerValue 3 c →
      (Roll.Always
          (do
            let redpackets ← randomRedPacket double (double (money - double ((c : ℚ) / 100)))
              betData.size
            (fillPlayers players
              ((∅ : LuaTable Uid Packet).set banker (newPacket (some (format2 c))))
              redpackets : Lua _))
          (Complete banker betData.keys money) ↔
        Enough (double (offOf money c [] * 100)) (100 * money - c) betData.size) := by
    intro c hc
    obtain ⟨hlow, hhigh⟩ := hc.bounds le_rfl
    have habout := @about_offOf _ c [] hmoney hmoney' (by omega) hhigh (by simp) (by simp)
    rw [offOf_nil, List.sum_nil, sub_zero] at habout
    rw [offOf_nil]
    have hlength : [(banker, c)].length + betData.size = betData.size + 1 := by simp [add_comm]
    have hiff := fill_iff hready (set_empty_packet banker c) (by simp) (by simpa using hlow) hmany
      (by omega) hlength (by simpa using habout)
    simpa using hiff
  rw [hassign]
  constructor
  · intro halways c hc
    have hcan := @can_pickBanker none (by simp) (by simp) c hc
    exact (hfill c hc).mp (hcan.always_of_bind halways)
  · intro henough
    refine (pickBanker_spec (by simp) (by simp)).bind ?_
    rintro _ ⟨c, hc, rfl⟩
    exact (hfill c hc).mpr (henough c hc)

/-- With the bettors alone controlled, the banker is one of those who share what is left. -/
theorem assign_users (hready : Ready room banker betData players) (hbanker : room.bankerCt = some 0)
    (htop : betData.size ≤ 2 ^ 20) (hmoney : 0 ≤ money) (hmoney' : money ≤ 2 ^ 22) :
    Roll.Always (assignRedPacket room money (betData.size + 1))
    (Complete banker betData.keys money) ↔
      ∀ values, Picks 1 betData.entries values →
        Enough (double (offOf money 0 values * 100)) (100 * money - values.sum)
          (betData.size + 1 - values.length) := by
  have hassign : assignRedPacket room money (betData.size + 1) = (do
      let chosen ← useEvent betData none
      let redpackets ← randomRedPacket double (double (money - chosen.2))
        (betData.size + 1 - chosen.1.size)
      (fillPlayers players (addPackets ∅ chosen.1) redpackets : Lua _)) := by
    unfold assignRedPacket
    rw [hready.betsAre, hready.playersAre]
    show (if _ then _ else if _ then _ else _) = _
    rw [if_neg (fun h => h.1 hbanker), if_neg (fun h => h hbanker)]
  have hfill : ∀ chosen l, Chosen 1 betData.entries chosen l →
      (Roll.Always
          (do
            let redpackets ← randomRedPacket double (double (money - chosen.2))
              (betData.size + 1 - chosen.1.size)
            (fillPlayers players (addPackets ∅ chosen.1) redpackets : Lua _))
          (Complete banker betData.keys money) ↔
        Enough (double (offOf money 0 (l.map Prod.snd) * 100)) (100 * money - (l.map Prod.snd).sum)
          (betData.size + 1 - (l.map Prod.snd).length)) := by
    intro chosen l hl
    have hnone : (∅ : LuaTable Uid Packet).entries = packetsOf [] := rfl
    have hle := chosenFor_length_le betData
    have habout :=
      about_of_picks hready hl.picks (by norm_num) hmoney hmoney' htop le_rfl (by norm_num)
    rw [offOf_zero hmoney hmoney', ← hl.cash, sub_zero] at habout
    rw [offOf_zero hmoney hmoney', ← hl.cash, hl.size_eq, List.length_map]
    rw [← hl.length_eq] at hle
    refine fill_iff hready (hl.add hnone List.nodup_nil (by simp)) ?_
      (hl.positive hready (by norm_num))
      (by omega) (by omega) (by rw [List.nil_append]; omega) habout
    rw [List.nil_append, hl.keys]
    exact List.subset_cons_of_subset _ (chosenFor_subset _)
  rw [hassign]
  constructor
  · intro halways values hpicks
    obtain ⟨chosen, l, hcan, hl, rfl⟩ :=
      @can_useEvent _ none hready.admitted (by simp) (by simp) _ hpicks
    exact (hfill chosen l hl).mp (hcan.always_of_bind halways)
  · intro henough
    refine (useEvent_spec hready.admitted (by simp) (by simp)).bind ?_
    rintro chosen ⟨l, hl⟩
    exact (hfill chosen l hl).mpr (henough _ hl.picks)

section Twice

variable (hready : Ready room banker betData players) (hmoney : 0 ≤ money)
    (hmoney' : money ≤ 2 ^ 22)

include hready hmoney hmoney'

/-- Where every choice leaves a cent the values are chosen once. -/
theorem pickUsers_spec (htop : betData.size ≤ 2 ^ 20)
    (henough : ∀ values, Picks 2 betData.entries values → 1 ≤ 100 * money - values.sum) :
    Roll.Always (pickUsers betData money) fun picked => ∃ l cash,
      Chosen 2 betData.entries (picked.1, cash) l ∧ picked.2 = offOf money 0 (l.map Prod.snd) := by
  refine (useEvent_spec hready.admitted (by simp) (by simp)).bind ?_
  rintro chosen ⟨l, hl⟩
  have hl' : Chosen 2 betData.entries chosen l := hl
  have habout := about_of_picks hready hl'.picks le_rfl hmoney hmoney' htop le_rfl (by norm_num)
  have hpos := henough _ hl'.picks
  rw [hl'.cash, ← offOf_zero hmoney hmoney', if_neg]
  · exact .pure ⟨l, chosen.2, hl', rfl⟩
  · intro hnone
    have := habout.nonpos hnone
    omega

/-- Where some choice leaves none, so does one at the last attempt. -/
theorem can_pickUsers {values : List ℤ} (hpicks : Picks 2 betData.entries values)
    (hfew : 100 * money - values.sum ≤ 0) :
    ∃ most chosen l, Roll.Can (pickUsers betData money) (chosen.1, offOf money 0 (l.map Prod.snd)) ∧
      Chosen most betData.entries chosen l ∧ most ≤ 2 ∧ 100 * money - (l.map Prod.snd).sum ≤ 0 := by
  obtain ⟨first, l, hcan, hl, rfl⟩ :=
    @can_useEvent _ (some 2) hready.admitted (by simp) (by simp) values hpicks
  have hl' : Chosen 2 betData.entries first l := hl
  by_cases hnone : double (money - first.2) ≤ 0
  · obtain ⟨second, l', hcan', hl'', hlargest⟩ := @can_useEvent _ none hready.admitted (by simp)
      (by simp) _ (picks_largest hready.admitted _)
    refine ⟨1, second, l', hcan.bind ?_, hl'', by norm_num, ?_⟩
    · rw [if_pos hnone, offOf_zero hmoney hmoney', ← hl''.cash]
      exact hcan'.bind (.pure _)
    · have hle := (hl'.picks.bounds hready.admitted le_rfl).2
      rw [hlargest]
      omega
  · refine ⟨2, first, l, hcan.bind ?_, hl', le_rfl, hfew⟩
    rw [if_neg hnone, offOf_zero hmoney hmoney', ← hl'.cash]
    exact .pure _

/-- With everybody controlled, the banker is dealt what the bettors leave. -/
theorem assign_all (htop : betData.size ≤ 2 ^ 20) (hbanker : room.bankerCt ≠ some 0)
    (huser : room.userCt ≠ some 0)
    (hall : allDxds betData = true) :
    Roll.Always (assignRedPacket room money people) (Complete banker betData.keys money) ↔
      ∀ values, Picks 2 betData.entries values → 1 ≤ 100 * money - values.sum := by
  have hassign : assignRedPacket room money people = (do
      let picked ← pickUsers betData money
      return addPackets ((∅ : LuaTable Uid Packet).set banker
        (newPacket (some (format2 (toCents picked.2))))) picked.1) := by
    unfold assignRedPacket
    rw [hready.betsAre, hready.playersAre, hready.bankerIs]
    show (if _ then if _ then _ else _ else _) = _
    rw [if_pos ⟨hbanker, huser⟩, if_pos hall]
    rfl
  have hcomplete : ∀ most chosen l, Chosen most betData.entries chosen l → most ≤ 2 →
      (Complete banker betData.keys money (addPackets ((∅ : LuaTable Uid Packet).set banker
          (newPacket (some (format2 (toCents (offOf money 0 (l.map Prod.snd))))))) chosen.1) ↔
        1 ≤ 100 * money - (l.map Prod.snd).sum) := by
    intro most chosen l hl hmost
    have habout := about_of_picks hready hl.picks hmost hmoney hmoney' htop le_rfl (by norm_num)
    rw [habout.toCents_eq, complete_iff (hl.add (set_empty_packet banker _) (List.nodup_singleton _)
      (by simpa using hready.notBettor)) (by simp [hl.keys, chosenFor_of_all hall])]
    simp only [List.cons_append, List.nil_append, List.map_cons, List.forall_mem_cons,
      List.forall_mem_map, List.sum_cons, sub_zero]
    exact ⟨fun h => h.1.1, fun hleft => ⟨⟨hleft, hl.positive hready hmost⟩, by ring⟩⟩
  rw [hassign]
  constructor
  · intro halways values hpicks
    by_contra! hfew
    obtain ⟨most, chosen, l, hcan, hl, hmost, hnone⟩ :=
      can_pickUsers hready hmoney hmoney' hpicks (by omega)
    have hdealt := (Roll.Can.pure _).of_always (hcan.always_of_bind (f := fun _ => pure _) halways)
    have hpos := (hcomplete most chosen l hl hmost).mp hdealt
    omega
  · intro henough
    refine (pickUsers_spec hready hmoney hmoney' htop henough).bind ?_
    rintro ⟨users, off⟩ ⟨l, cash, hl, rfl⟩
    exact .pure ((hcomplete 2 (users, cash) l hl le_rfl).mpr (henough _ hl.picks))

/-- Where every choice leaves enough the values are chosen once. -/
theorem pickBoth_spec (htop : betData.size ≤ 2 ^ 20)
    (henough : ∀ c values, BankerValue 2 c → Picks 2 betData.entries values →
      1 ≤ 100 * money - c - values.sum) :
    Roll.Always (pickBoth betData money) fun picked => ∃ c l cash, BankerValue 2 c ∧
      Chosen 2 betData.entries (picked.2.1, cash) l ∧ picked.1 = format2 c ∧
        picked.2.2 = offOf money c (l.map Prod.snd) := by
  refine (pickBanker_spec (by simp) (by simp)).bind ?_
  rintro _ ⟨c, hc, rfl⟩
  refine (useEvent_spec hready.admitted (by simp) (by simp)).bind ?_
  rintro chosen ⟨l, hl⟩
  have hc' : BankerValue 2 c := hc
  have hl' : Chosen 2 betData.entries chosen l := hl
  obtain ⟨hlow, hhigh⟩ := hc'.bounds (by norm_num)
  have habout := about_of_picks hready hl'.picks le_rfl hmoney hmoney' htop (by omega) hhigh
  have hpos := henough c _ hc' hl'.picks
  dsimp only
  rw [hl'.cash, ← offOf, if_neg]
  · exact .pure ⟨c, l, chosen.2, hc', hl', rfl, rfl⟩
  · intro hnone
    have := habout.nonpos hnone
    omega

/-- Where some choice does not leave enough, some choice at the last attempt does not either. -/
theorem can_pickBoth (htop : betData.size ≤ 2 ^ 20) {size : ℕ} (hsize : 1 ≤ size) {c : ℤ}
    {values : List ℤ} (hc : BankerValue 2 c) (hpicks : Picks 2 betData.entries values)
    (hfew : ¬Enough (double (offOf money c values * 100)) (100 * money - c - values.sum) size) :
    ∃ most c' chosen l, Roll.Can (pickBoth betData money)
        (format2 c', chosen.1, offOf money c' (l.map Prod.snd)) ∧
      Chosen most betData.entries chosen l ∧ most ≤ 2 ∧ 1 ≤ c' ∧ c' ≤ 432 ∧
        ¬Enough (double (offOf money c' (l.map Prod.snd) * 100))
          (100 * money - c' - (l.map Prod.snd).sum) size := by
  have hbanker := @can_pickBanker (some 2) (by simp) (by simp) c hc
  obtain ⟨first, l, hcan, hl, rfl⟩ :=
    @can_useEvent _ (some 2) hready.admitted (by simp) (by simp) values hpicks
  have hl' : Chosen 2 betData.entries first l := hl
  obtain ⟨hlow, hhigh⟩ := hc.bounds (by norm_num)
  by_cases hnone : offOf money c (l.map Prod.snd) ≤ 0
  · have hbanker' := @can_pickBanker (some 1) (by simp) (by simp) 432 (bankerValue_largest _)
    obtain ⟨second, l', hcan', hl'', hlargest⟩ := @can_useEvent _ none hready.admitted (by simp)
      (by simp) _ (picks_largest hready.admitted _)
    refine ⟨1, 432, second, l', hbanker.bind (hcan.bind ?_),
      hl'', by norm_num, by norm_num, le_rfl, ?_⟩
    · dsimp only
      rw [hl'.cash, ← offOf, if_pos hnone]
      refine hbanker'.bind (hcan'.bind ?_)
      rw [hl''.cash]
      exact .pure _
    · have habout := about_of_picks hready hl'.picks le_rfl hmoney hmoney' htop (by omega) hhigh
      have hzero := habout.nonpos hnone
      have hle := (hl'.picks.bounds hready.admitted le_rfl).2
      intro henough
      have hpos := henough.pos hsize
      rw [hlargest] at hpos
      omega
  · refine ⟨2, c, first, l, hbanker.bind (hcan.bind ?_), hl', le_rfl, hlow, hhigh, hfew⟩
    dsimp only
    rw [hl'.cash, ← offOf, if_neg hnone]
    exact .pure _

/-- Beside the packets that are chosen, the others share what these leave. -/
theorem fill_both_iff (htop : betData.size ≤ 2 ^ 20) (hall : allDxds betData ≠ true) {most c : ℤ}
    {chosen : LuaTable Uid Value × ℚ} {l : List (Uid × ℤ)}
    (hl : Chosen most betData.entries chosen l) (hmost : most ≤ 2) (hlow : 1 ≤ c)
    (hhigh : c ≤ 432) :
    Roll.Always
        (do
          let redpackets ← randomRedPacket double (offOf money c (l.map Prod.snd))
            (betData.size + 1 - chosen.1.size - 1)
          (fillPlayers players (addPackets ((∅ : LuaTable Uid Packet).set banker
            (newPacket (some (format2 c)))) chosen.1) redpackets : Lua _))
        (Complete banker betData.keys money) ↔
      Enough (double (offOf money c (l.map Prod.snd) * 100))
        (100 * money - c - (l.map Prod.snd).sum)
        (betData.size + 1 - (l.map Prod.snd).length - 1) := by
  have hsome : (chosenFor betData.entries).length < betData.size :=
    lt_of_le_of_ne (chosenFor_length_le betData) (fun h => hall ((allDxds_iff betData).mpr h))
  have habout := about_of_picks hready hl.picks hmost hmoney hmoney' htop (by omega) hhigh
  have hlength := hl.length_eq
  rw [hl.size_eq, List.length_map]
  have hsum : (([(banker, c)] ++ l).map Prod.snd).sum = c + (l.map Prod.snd).sum := by simp
  rw [sub_sub, ← hsum] at habout ⊢
  refine fill_iff hready (hl.add (set_empty_packet banker c) (List.nodup_singleton _)
    (by simpa using hready.notBettor)) ?_ ?_ (by omega) (by omega)
    (by rw [List.length_append, List.length_singleton]; omega) habout
  · rw [List.map_append, hl.keys]
    exact List.cons_subset_cons _ (chosenFor_subset _)
  · rw [List.singleton_append, List.forall_mem_cons]
    exact ⟨hlow, hl.positive hready hmost⟩

/-- With everybody controlled and some who bet on something else, these share what is left. -/
theorem assign_both (htop : betData.size ≤ 2 ^ 20) (hbanker : room.bankerCt ≠ some 0)
    (huser : room.userCt ≠ some 0) (hall : allDxds betData ≠ true) :
    Roll.Always (assignRedPacket room money (betData.size + 1))
    (Complete banker betData.keys money) ↔
      ∀ c values, BankerValue 2 c → Picks 2 betData.entries values →
        Enough (double (offOf money c values * 100)) (100 * money - c - values.sum)
          (betData.size + 1 - values.length - 1) := by
  have hassign : assignRedPacket room money (betData.size + 1) = (do
      let picked ← pickBoth betData money
      let redpackets ← randomRedPacket double picked.2.2 (betData.size + 1 - picked.2.1.size - 1)
      (fillPlayers players (addPackets ((∅ : LuaTable Uid Packet).set banker
        (newPacket (some picked.1))) picked.2.1) redpackets : Lua _)) := by
    unfold assignRedPacket
    rw [hready.betsAre, hready.playersAre, hready.bankerIs]
    show (if _ then if _ then _ else _ else _) = _
    rw [if_pos ⟨hbanker, huser⟩, if_neg hall]
    rfl
  have hsize : ∀ values, Picks 2 betData.entries values →
      1 ≤ betData.size + 1 - values.length - 1 := by
    intro values hpicks
    have hsome : (chosenFor betData.entries).length < betData.size :=
      lt_of_le_of_ne (chosenFor_length_le betData) (fun h => hall ((allDxds_iff betData).mpr h))
    rw [hpicks.length]
    omega
  rw [hassign]
  constructor
  · intro halways c values hc hpicks
    by_contra hfew
    obtain ⟨most, c', chosen, l, hcan, hl, hmost, hlow, hhigh, hfew'⟩ :=
      can_pickBoth hready hmoney hmoney' htop (hsize values hpicks) hc hpicks hfew
    have hlength : (l.map Prod.snd).length = values.length := by
      rw [List.length_map, hl.length_eq, hpicks.length]
    rw [← hlength] at hfew'
    exact hfew' ((fill_both_iff hready hmoney hmoney' htop hall hl hmost hlow hhigh).mp
      (hcan.always_of_bind halways))
  · intro henough
    have hpos : ∀ c values, BankerValue 2 c → Picks 2 betData.entries values →
        1 ≤ 100 * money - c - values.sum := fun c values hc hpicks =>
      (henough c values hc hpicks).pos (hsize values hpicks)
    refine (pickBoth_spec hready hmoney hmoney' htop hpos).bind ?_
    rintro ⟨value, users, off⟩ ⟨c, l, cash, hc, hl, rfl, rfl⟩
    obtain ⟨hlow, hhigh⟩ := hc.bounds (by norm_num)
    exact (@fill_both_iff _ _ _ _ _ hready hmoney hmoney' htop hall 2 c (users, cash) l hl le_rfl
      hlow hhigh).mpr (henough c _ hc hl.picks)

end Twice

end Branches

section Rounds

/-- Who sits in the room while the bets are open, and what is controlled. -/
structure Seated (room : Room) (banker : Uid) (book : Book) : Prop where
  bankerIs : book.room.banker = some banker
  notBettor : banker ∉ (book.room.betData.getD ∅).keys
  seats : ∃ players, book.room.players = some players ∧
    players.Perm (banker :: (book.room.betData.getD ∅).keys)
  bankerCt : book.room.bankerCt = room.bankerCt
  userCt : book.room.userCt = room.userCt

theorem Seated.keep {room : Room} {banker : Uid} {book : Book} (h : Seated room banker book) :
    Seated room banker
      ⟨{ book.room with betData := some (book.room.betData.getD ∅) }, book.accepted⟩ :=
  ⟨h.bankerIs, h.notBettor, h.seats, h.bankerCt, h.userCt⟩

theorem Seated.record {room : Room} {banker : Uid} {book : Book} (h : Seated room banker book)
    {bet : BetCall} (hother : bet.uid ≠ banker) (accepted : List BetCall) :
    Seated room banker ⟨recordBet { book.room with betData := some (book.room.betData.getD ∅) }
      (book.room.betData.getD ∅) bet, accepted⟩ := by
  obtain ⟨players, hplayers, hperm⟩ := h.seats
  refine ⟨h.bankerIs, ?_, ⟨players.insert bet.uid, by simp [recordBet, hplayers], ?_⟩, h.bankerCt,
    h.userCt⟩
  · simp only [recordBet, Option.getD_some, LuaTable.mem_keys_set]
    rintro (heq | hkey)
    · exact hother heq.symm
    · exact h.notBettor hkey
  · simp only [recordBet, Option.getD_some, LuaTable.keys_set]
    by_cases hkey : bet.uid ∈ (book.room.betData.getD ∅).keys
    · rw [if_pos hkey, List.insert_of_mem (hperm.mem_iff.mpr (List.mem_cons_of_mem _ hkey))]
      exact hperm
    · have hnew : bet.uid ∉ players := by
        rw [hperm.mem_iff, List.mem_cons, not_or]
        exact ⟨hother, hkey⟩
      rw [if_neg hkey, List.insert_of_not_mem hnew]
      refine (hperm.cons _).trans ?_
      rw [← List.cons_append]
      exact (List.perm_append_singleton _ _).symm

theorem Room.book_seated {room : Room} {banker : Uid} (hbanker : room.banker = some banker)
    (hplayers : room.players = some [banker]) {requests : List (BetRequest × Answer)}
    (hothers : ∀ request ∈ requests, request.1.uid ≠ banker) :
    Seated room banker (room.book requests) := by
  refine room.book_induction ⟨hbanker, List.not_mem_nil, ⟨[banker], hplayers, .refl _⟩, rfl, rfl⟩
    (fun _ h => h.keep) fun book bet hbet _ h => h.record ?_ _
  obtain ⟨request, hrequest, hsame⟩ := List.mem_map.mp hbet
  rw [← hsame]
  exact hothers request hrequest

/-- A bet on size and parity excludes any other of the same player, and names a class. -/
theorem admitted_of_book {room : Room} {book : Book} (hinv : BookInv room book)
    {entry : Uid × List Bet} (hentry : entry ∈ (book.room.betData.getD ∅).entries) :
    Admitted entry.2 := by
  have hbets : entry.2 = (book.of entry.1).map
      fun bet => ⟨bet.betType, bet.betSubType, bet.betValue⟩ := by
    rw [← hinv.bets, ((book.room.betData.getD ∅).get_eq_some_iff).mpr hentry]
    rfl
  intro s hs
  rw [Option.mem_def, dxdsSub, hbets] at hs
  rw [hbets]
  have hkinds := hinv.kinds entry.1
  have hmem : ∀ bet ∈ book.of entry.1, bet ∈ book.accepted :=
    fun bet hbet => List.mem_of_mem_filter hbet
  cases hof : book.of entry.1 with
  | nil => simp [hof] at hs
  | cons bet bets =>
      rw [hof] at hs hkinds hmem
      simp only [List.map_cons, List.head?_cons, Option.bind_some] at hs
      split_ifs at hs with htype
      have hnil : bets = [] := by
        obtain hone | hfour := hkinds
        · simpa using hone
        · have := hfour bet (List.mem_cons_self ..)
          omega
      obtain ⟨coin, hcoin⟩ := (hinv.priced bet (hmem bet (List.mem_cons_self ..))).reserved
      have hnamed := dxdsNamed_of_rate hcoin htype
      cases hsub : bet.betSubType with
      | none => simp [hsub] at hnamed
      | some sub =>
          rw [hsub, Option.any_some, dxdsNamed, Bool.and_eq_true, decide_eq_true_eq,
            decide_eq_true_eq] at hnamed
          rw [hsub, Option.getD_some, Option.some.injEq] at hs
          subst hs hnil
          exact ⟨_, rfl, htype, hsub, hnamed⟩

theorem ready_of_book {room : Room} {banker : Uid} (hbanker : room.banker = some banker)
    (hplayers : room.players = some [banker]) {requests : List (BetRequest × Answer)}
    (hothers : ∀ request ∈ requests, request.1.uid ≠ banker)
    (hsome : 1 ≤ (room.book requests).room.betPeoples) :
    ∃ players, Ready (room.book requests).room banker ((room.book requests).room.betData.getD ∅)
      players := by
  have hseated := Room.book_seated hbanker hplayers hothers
  obtain ⟨players, hseats, hperm⟩ := hseated.seats
  refine ⟨players, hseated.bankerIs, ?_, hseats, hperm, hseated.notBettor,
    fun entry hentry => admitted_of_book (room.book_inv requests) hentry⟩
  cases hdata : (room.book requests).room.betData with
  | some betData => rfl
  | none =>
      rw [Room.betPeoples, hdata] at hsome
      exact absurd hsome (by decide)

end Rounds

section Main

/-- **Everybody gets a packet** whatever is drawn, exactly as long as whatever is chosen at the
first attempt leaves enough. The bets are those that `logic.beter` has let through, in any order. -/
theorem assignRedPacket_complete_iff (room : Room) (banker : Uid)
    (hbanker : room.banker = some banker)
    (hplayers : room.players = some [banker]) (requests : List (BetRequest × Answer))
    (hothers : ∀ request ∈ requests, request.1.uid ≠ banker)
    (hon : room.bankerCt = some 1 ∨ room.userCt = some 1)
    (hfive : 5 ≤ (room.book requests).room.betPeoples)
    (htop : (room.book requests).room.betPeoples ≤ 2 ^ 20) :
    Roll.Always
        (assignRedPacket (room.book requests).room (2 * ((room.book requests).room.betPeoples + 1))
          ((room.book requests).room.betPeoples + 1))
        (Complete banker ((room.book requests).room.betData.getD ∅).keys
          (2 * ((room.book requests).room.betPeoples + 1))) ↔
      LeavesEnough (room.book requests).room
      ((room.book requests).room.betData.getD ∅).entries := by
  have hseated := Room.book_seated hbanker hplayers hothers
  obtain ⟨players, hready⟩ := ready_of_book hbanker hplayers hothers (by omega)
  rw [← hseated.bankerCt, ← hseated.userCt] at hon
  unfold Room.betPeoples at hfive htop ⊢
  generalize (room.book requests).room = dealt at *
  generalize dealt.betData.getD ∅ = betData at *
  have hpeople : betData.entries.length = betData.size := rfl
  have hcents : (100 : ℤ) * (2 * (betData.size + 1)) = 200 * (betData.size + 1) := by ring
  have hmoney : (0 : ℤ) ≤ 2 * (betData.size + 1) := by omega
  have hmoney' : (2 * (betData.size + 1) : ℤ) ≤ 2 ^ 22 := by omega
  unfold LeavesEnough Choice
  rw [hpeople, ← hcents]
  by_cases huser : dealt.userCt = some 0
  · have hctBanker : dealt.bankerCt ≠ some 0 := by
      obtain h | h := hon
      · rw [h]
        decide
      · rw [huser] at h
        cases h
    simp only [if_pos huser]
    rw [assign_banker hready hctBanker huser (by omega) htop hmoney hmoney']
    constructor
    · rintro henough c _ ⟨hc, rfl⟩
      simpa [hc.ne_zero le_rfl] using henough c hc
    · intro henough c hc
      simpa [hc.ne_zero le_rfl] using henough c [] ⟨hc, rfl⟩
  simp only [if_neg huser]
  by_cases hctBanker : dealt.bankerCt = some 0
  · simp only [if_pos hctBanker]
    rw [assign_users hready hctBanker htop hmoney hmoney']
    constructor
    · rintro henough _ values ⟨rfl, hpicks⟩
      simpa using henough values hpicks
    · intro henough values hpicks
      simpa using henough 0 values ⟨rfl, hpicks⟩
  simp only [if_neg hctBanker]
  by_cases hall : allDxds betData = true
  · have hlength := (allDxds_iff betData).mp hall
    simp only [if_pos hlength]
    rw [assign_all hready hmoney hmoney' htop hctBanker huser hall]
    -- the banker's is the one packet that is not chosen
    have hone : ∀ values, Picks 2 betData.entries values →
        betData.size + 1 - values.length - (if (0 : ℤ) = 0 then 0 else 1) = 1 := by
      intro values hpicks
      rw [hpicks.length, hlength, if_pos rfl]
      omega
    constructor
    · rintro henough _ values ⟨rfl, hpicks⟩
      have hpos := henough values hpicks
      rw [hone values hpicks, sub_zero]
      refine ⟨.inr rfl, ?_⟩
      split_ifs <;> push_cast <;> omega
    · intro henough values hpicks
      have hpos := (henough 0 values ⟨rfl, hpicks⟩).pos (by rw [hone values hpicks])
      rwa [sub_zero] at hpos
  · have hsome : (chosenFor betData.entries).length ≠ betData.size := fun h =>
      hall ((allDxds_iff betData).mpr h)
    simp only [if_neg hsome]
    rw [assign_both hready hmoney hmoney' htop hctBanker huser hall]
    constructor
    · rintro henough c values ⟨hc, hpicks⟩
      simpa [hc.ne_zero (by norm_num)] using henough c values hc hpicks
    · intro henough c values hc hpicks
      simpa [hc.ne_zero (by norm_num)] using henough c values ⟨hc, hpicks⟩

/-- Bettors on the same class. -/
def dxdsRequests (n : ℕ) : List (BetRequest × Answer) :=
  (List.range' 1 n).map fun uid => (dxdsBet uid, .ok)

def ctRoom (bankerCt userCt : Option Int) : Room :=
  { info := {}, bankerCt, userCt, banker := some 0, bankerGameCoin := 1000,
    bankerSurplusCoin := 1000,
    players := some [0] }

/-- Of 26 yuan no value leaves more than it should. -/
theorem off_le : ∀ c < 433, double (offOf 26 (c : ℕ) [] * 100) ≤ ((2600 - (c : ℕ) : ℤ) : ℚ) := by
  decide +kernel

theorem complete_ctRoom :
    Roll.Always
      (assignRedPacket ((ctRoom (some 1) (some 0)).book (dxdsRequests 12)).room
        (2 * (((ctRoom (some 1) (some 0)).book (dxdsRequests 12)).room.betPeoples + 1))
        (((ctRoom (some 1) (some 0)).book (dxdsRequests 12)).room.betPeoples + 1))
      (Complete 0 (((ctRoom (some 1) (some 0)).book (dxdsRequests 12)).room.betData.getD ∅).keys
        (2 * (((ctRoom (some 1) (some 0)).book (dxdsRequests 12)).room.betPeoples + 1))) := by
  refine (assignRedPacket_complete_iff (ctRoom (some 1) (some 0)) 0 rfl rfl (dxdsRequests 12)
    (by decide)
    (.inl rfl) (by decide +kernel) (by decide +kernel)).mpr ?_
  have hsize :
      (((ctRoom (some 1) (some 0)).book (dxdsRequests 12)).room.betData.getD ∅).entries.length =
      12 := by decide +kernel
  intro c values hchoice
  rw [Choice, if_pos (by decide +kernel)] at hchoice
  obtain ⟨hc, rfl⟩ := hchoice
  obtain ⟨hlow, hhigh⟩ := hc.bounds le_rfl
  obtain ⟨n, rfl⟩ := Int.eq_ofNat_of_zero_le (by omega : 0 ≤ c)
  have hle := off_le n (by omega)
  rw [hsize, if_neg (by omega)]
  refine ⟨.inl ?_, ?_⟩
  · simpa using hle
  · split_ifs <;> simp <;> omega

/-- With the banker controlled, 3.45 may be chosen of 12 yuan, and the product of 8.55 and 100 is
more than 855. With the bettors controlled, 4.32 may be chosen five times. -/
theorem not_complete_ctRoom :
    (¬Roll.Always (assignRedPacket ((ctRoom (some 1) (some 0)).book (dxdsRequests 5)).room 12 6)
      (Complete 0 [1, 2, 3, 4, 5] 12)) ∧
    ¬Roll.Always (assignRedPacket ((ctRoom (some 0) (some 1)).book (dxdsRequests 5)).room 12 6)
      (Complete 0 [1, 2, 3, 4, 5] 12) := by
  have hbook : ∀ ct : Option Int × Option Int, ct ∈ [(some 1, some 0), (some 0, some 1)] →
      (((ctRoom ct.1 ct.2).book (dxdsRequests 5)).room.betData.getD ∅).keys = [1, 2, 3, 4, 5] ∧
        (((ctRoom ct.1 ct.2).book (dxdsRequests 5)).room.betData.getD ∅).entries.filterMap
          (fun entry => dxdsSub entry.2) = [1, 1, 1, 1, 1] := by decide +kernel
  obtain ⟨hkeys, -⟩ := hbook (some 1, some 0) (by decide)
  obtain ⟨hkeys', hsubs⟩ := hbook (some 0, some 1) (by decide)
  obtain ⟨_, hready⟩ := @ready_of_book (ctRoom (some 1) (some 0)) 0 rfl rfl (dxdsRequests 5)
    (by decide) (by decide +kernel)
  obtain ⟨_, hready'⟩ := @ready_of_book (ctRoom (some 0) (some 1)) 0 rfl rfl (dxdsRequests 5)
    (by decide) (by decide +kernel)
  have hsize : (((ctRoom (some 1) (some 0)).book (dxdsRequests 5)).room.betData.getD ∅).size =
      5 := by
    rw [← LuaTable.length_keys, hkeys]
    rfl
  have hsize' : (((ctRoom (some 0) (some 1)).book (dxdsRequests 5)).room.betData.getD ∅).size =
      5 := by
    rw [← LuaTable.length_keys, hkeys']
    rfl
  constructor
  · have hiff := @assign_banker _ _ _ _ 12 hready (by decide +kernel) (by decide +kernel) (by omega)
      (by omega) (by norm_num) (by norm_num)
    rw [hkeys, hsize] at hiff
    have hvalue : BankerValue 3 345 :=
      ⟨13, by norm_num, by norm_num, by rw [if_pos (by norm_num)]; decide⟩
    refine fun halways => absurd (hiff.mp halways 345 hvalue) ?_
    have hlt : ((855 : ℤ) : ℚ) < double (offOf 12 345 [] * 100) := by decide +kernel
    rintro ⟨hle | hone, -⟩
    · exact absurd hlt (not_lt.mpr hle)
    · exact absurd hone (by decide)
  · have hiff := @assign_users _ _ _ _ 12 hready' (by decide +kernel) (by omega) (by norm_num)
      (by norm_num)
    rw [hkeys', hsize'] at hiff
    refine fun halways => absurd ((hiff.mp halways [432, 432, 432, 432, 432] ?_).pos (by decide))
      (by decide)
    have hvalue : DxdsValue 1 1 432 := dxdsValue_largest le_rfl (by norm_num) 1
    rw [Picks, hsubs]
    simp [hvalue]

end Main

end SdyServer.Hongbao.Cheat
