import SdyServer.Pk10.Result

/-!
# What a round moves

Between doors that play against each other nothing is won that is not lost. The argument is that the
losses pile up from below: a door loses something only once every lower door has nothing left, and
such a door finds nothing to win. As long as whole coins are added, the entries of the players add
up to their shares.
-/

namespace SdyServer.Pk10

section Doors

/-- Totals and remains, the lowest door first: above a door that still has something, nobody has
lost anything. -/
def Stacked : List Int → List Int → Prop
  | total :: totals, remain :: remains =>
      (min 0 total ≤ remain ∧ remain ≤ total) ∧ (0 < remain → remains = totals) ∧
        Stacked totals remains
  | [], [] => True
  | _, _ => False

theorem stacked_self (totals : List Int) : Stacked totals totals := by
  induction totals with
  | nil => trivial
  | cons total totals ih => exact ⟨⟨min_le_right 0 total, le_refl total⟩, fun _ => rfl, ih⟩

theorem takeLower_of_nonpos {stake : Int} (hstake : stake ≤ 0) (remains : List Int) :
    takeLower stake remains = (0, stake, remains) := by
  induction remains with
  | nil => rfl
  | cons remain remains ih =>
      have hnot : ¬(stake > 0 ∧ remain > 0) := fun h => absurd h.1 (by omega)
      simp [takeLower, hnot, ih]

theorem takeLower_cons (stake remain : Int) (remains : List Int) :
    takeLower stake (remain :: remains) =
      if stake > 0 ∧ remain > 0 then
        if stake > remain then
          let taken := takeLower (stake - remain) remains
          (remain + taken.1, taken.2.1, 0 :: taken.2.2)
        else if stake < remain then (stake, 0, (remain - stake) :: remains)
        else (remain, 0, 0 :: remains)
      else
        let taken := takeLower stake remains
        (taken.1, taken.2.1, remain :: taken.2.2) := rfl

theorem takeLower_sum (stake : Int) (remains : List Int) :
    (takeLower stake remains).1 = remains.sum - (takeLower stake remains).2.2.sum ∧
      (takeLower stake remains).1 + (takeLower stake remains).2.1 = stake := by
  induction remains generalizing stake with
  | nil => simp [takeLower]
  | cons remain remains ih =>
      rw [takeLower_cons]
      split_ifs with hpos hgt hlt
      · obtain ⟨hwon, hleft⟩ := ih (stake - remain)
        simp only [List.sum_cons]
        exact ⟨by linarith, by linarith⟩
      · simp only [List.sum_cons]
        exact ⟨by ring, by ring⟩
      · simp only [List.sum_cons]
        exact ⟨by ring, by omega⟩
      · obtain ⟨hwon, hleft⟩ := ih stake
        simp only [List.sum_cons]
        exact ⟨by linarith, hleft⟩

theorem takeLower_bounds (stake : Int) (hstake : 0 ≤ stake) (remains : List Int) :
    0 ≤ (takeLower stake remains).1 ∧ 0 ≤ (takeLower stake remains).2.1 := by
  induction remains generalizing stake with
  | nil => exact ⟨le_refl 0, hstake⟩
  | cons remain remains ih =>
      rw [takeLower_cons]
      split_ifs with hpos hgt hlt
      · obtain ⟨hwon, hleft⟩ : 0 ≤ (takeLower (stake - remain) remains).1 ∧
            0 ≤ (takeLower (stake - remain) remains).2.1 := ih _ (by omega)
        exact ⟨add_nonneg hpos.2.le hwon, hleft⟩
      · exact ⟨hstake, le_refl 0⟩
      · exact ⟨hpos.2.le, le_refl 0⟩
      · exact ih stake hstake

/-- The losses still pile up from below after a door has taken its winnings. -/
theorem Stacked.takeLower {totals remains : List Int} (hstacked : Stacked totals remains)
    (stake : Int) : Stacked totals (takeLower stake remains).2.2 := by
  induction remains generalizing totals stake with
  | nil => exact hstacked
  | cons remain remains ih =>
      cases totals with
      | nil => exact hstacked.elim
      | cons total totals =>
          obtain ⟨⟨hlow, hle⟩, hfull, hrest⟩ := hstacked
          rw [takeLower_cons]
          split_ifs with hpos hgt hlt
          · exact ⟨⟨min_le_left 0 total, by omega⟩, fun h => absurd h (lt_irrefl 0),
              ih hrest _⟩
          · exact ⟨⟨by omega, by omega⟩, fun _ => hfull hpos.2, hrest⟩
          · exact ⟨⟨min_le_left 0 total, by omega⟩, fun h => absurd h (lt_irrefl 0),
              hrest⟩
          · refine ⟨⟨hlow, hle⟩, fun hremain => ?_, ih hrest stake⟩
            -- A door that is passed over with something left has met a stake that is used up.
            have hstake : stake ≤ 0 := by
              by_contra h
              exact hpos ⟨by omega, hremain⟩
            simpa [takeLower_of_nonpos hstake] using hfull hremain

theorem takeLower_eq_zero (stake : Int) (remains : List Int)
    (hremains : ∀ remain ∈ remains, remain ≤ 0) : (takeLower stake remains).1 = 0 := by
  induction remains with
  | nil => rfl
  | cons remain remains ih =>
      have hnot : ¬(stake > 0 ∧ remain > 0) :=
        fun h => absurd (hremains remain (List.mem_cons_self ..)) (by omega)
      simpa [takeLower, hnot] using ih fun r hr => hremains r (List.mem_cons_of_mem _ hr)

/-- The highest door, seen from below: it has lost something only when nobody else has anything. -/
theorem stacked_append {totals remains : List Int} {total remain : Int}
    (hstacked : Stacked (totals ++ [total]) (remains ++ [remain])) :
    Stacked totals remains ∧ (min 0 total ≤ remain ∧ remain ≤ total) ∧
      (remain < total → ∀ r ∈ remains, r ≤ 0) := by
  induction totals generalizing remains with
  | nil =>
      cases remains with
      | nil => exact ⟨trivial, hstacked.1, fun _ r hr => absurd hr List.not_mem_nil⟩
      | cons r remains =>
          have h := hstacked.2.2
          cases remains with
          | nil => exact h.elim
          | cons _ _ => exact h.elim
  | cons t totals ih =>
      cases remains with
      | nil =>
          have h := hstacked.2.2
          cases totals with
          | nil => exact h.elim
          | cons _ _ => exact h.elim
      | cons r remains =>
          obtain ⟨hbound, hfull, hrest⟩ := hstacked
          obtain ⟨hlower, htop, hlost⟩ := ih hrest
          refine ⟨⟨hbound, fun hr => (List.append_inj' (hfull hr) rfl).1, hlower⟩, htop, ?_⟩
          intro hlt x hx
          rcases List.mem_cons.mp hx with rfl | hx
          · by_contra hpos
            have heq := (List.append_inj' (hfull (by omega)) rfl).2
            simp only [List.cons.injEq, and_true] at heq
            omega
          · exact hlost hlt x hx

/-- What a door loses is bounded by its stake, and so is what it wins. -/
def Bounded (door : Info × Int) : Prop :=
  (0 ≤ door.1.totalBet.getD 0 → |door.2| ≤ door.1.totalBet.getD 0) ∧
    (door.1.totalBet.getD 0 < 0 → door.2 = 0)

theorem settleDoors_cons {info : Info} {tmp : List Info} {remain : Int} {remains : List Int}
    (hstacked :
      Stacked ((tmp.map fun info => info.totalBet.getD 0).reverse ++ [info.totalBet.getD 0])
      (remains.reverse ++ [remain])) :
    ∃ coinChange lower,
      settleDoors (info :: tmp) (remain :: remains) =
        (info, coinChange) :: settleDoors tmp lower.reverse ∧
      Bounded (info, coinChange) ∧
      Stacked (tmp.map fun info => info.totalBet.getD 0).reverse lower ∧
      coinChange + (info.totalBet.getD 0 - remain) = remains.sum - lower.sum := by
  obtain ⟨hrest, ⟨hlow, hle⟩, hlost⟩ := stacked_append hstacked
  have hlower := hrest.takeLower (info.totalBet.getD 0)
  obtain ⟨hsum, hleft⟩ := takeLower_sum (info.totalBet.getD 0) remains.reverse
  have hbounds := fun h => takeLower_bounds (info.totalBet.getD 0) h remains.reverse
  have hzero := takeLower_eq_zero (info.totalBet.getD 0) remains.reverse
  rcases htake : takeLower (info.totalBet.getD 0) remains.reverse with ⟨won, left, lower⟩
  simp only [htake, List.sum_reverse] at hlower hsum hleft hbounds hzero
  refine ⟨if won = 0 then if remain = 0 then -left else -(left - remain) else won, lower,
    by simp only [settleDoors, htake], ⟨fun htotal => ?_, fun htotal => ?_⟩, hlower, ?_⟩
  · have hwon := hbounds htotal
    simp only at htotal ⊢
    rw [abs_le]
    split_ifs <;> omega
  · simp only [takeLower_of_nonpos htotal.le, Prod.mk.injEq] at htake
    simp only at htotal ⊢
    split_ifs <;> omega
  · -- A door that wins something has lost nothing before.
    by_cases hwon : won = 0
    · simp only [hwon, if_true]
      split_ifs <;> omega
    · have hkept : remain = info.totalBet.getD 0 := by
        by_contra hne
        exact hwon (hzero (hlost (by omega)))
      simp only [hwon, if_false]
      omega

theorem settleDoors_spec (tmp : List Info) (remains : List Int)
    (hstacked : Stacked (tmp.map fun info => info.totalBet.getD 0).reverse remains.reverse) :
    (settleDoors tmp remains).map Prod.fst = tmp ∧
    (∀ door ∈ settleDoors tmp remains, Bounded door) ∧
      ((settleDoors tmp remains).map Prod.snd).sum =
        remains.sum - (tmp.map fun info => info.totalBet.getD 0).sum := by
  induction tmp generalizing remains with
  | nil =>
      cases remains with
      | nil => simp [settleDoors]
      | cons remain remains =>
          rw [List.reverse_cons] at hstacked
          cases hrev : remains.reverse with
          | nil => rw [hrev] at hstacked; exact hstacked.elim
          | cons _ _ => rw [hrev] at hstacked; exact hstacked.elim
  | cons info tmp ih =>
      cases remains with
      | nil =>
          rw [List.map_cons, List.reverse_cons] at hstacked
          cases hrev : (tmp.map fun info => info.totalBet.getD 0).reverse with
          | nil => rw [hrev] at hstacked; exact hstacked.elim
          | cons _ _ => rw [hrev] at hstacked; exact hstacked.elim
      | cons remain remains =>
          rw [List.map_cons, List.reverse_cons, List.reverse_cons] at hstacked
          obtain ⟨coinChange, lower, heq, hbounded, hlower, hsum⟩ := settleDoors_cons hstacked
          obtain ⟨hfst, hall, hrest⟩ := ih lower.reverse (by rwa [List.reverse_reverse])
          rw [heq]
          refine ⟨by simp [hfst], ?_, ?_⟩
          · intro door hdoor
            rcases List.mem_cons.mp hdoor with rfl | hdoor
            · exact hbounded
            · exact hall door hdoor
          · rw [List.sum_reverse] at hrest
            simp only [List.map_cons, List.sum_cons, hrest]
            omega

/-- **The doors play for nothing but their stakes.** Every door stays within its stake, and together
they win what they lose. -/
theorem settleDoors_fresh (tmp : List Info) :
    let doors := settleDoors tmp (tmp.map fun info => info.totalBet.getD 0)
    doors.map Prod.fst = tmp ∧ (∀ door ∈ doors, Bounded door) ∧ (doors.map Prod.snd).sum = 0 := by
  have h := settleDoors_spec tmp (tmp.map fun info => info.totalBet.getD 0) (stacked_self _)
  rwa [sub_self] at h

end Doors

section Shares

def sumShares (shares : List Share) : ℚ := (shares.map Share.coinChange).sum

theorem sumShares_append (shares shares' : List Share) :
    sumShares (shares ++ shares') = sumShares shares + sumShares shares' := by
  simp [sumShares]

theorem sumShares_map (people : List (Uid × Int)) (f : Int → Int) :
    sumShares (people.map fun entry => ⟨entry.1, entry.2, f entry.2⟩) =
      ((people.map fun entry => f entry.2).sum : Int) := by
  induction people with
  | nil => rfl
  | cons entry people ih =>
      simp only [sumShares, List.map_cons, List.sum_cons] at ih ⊢
      rw [ih]
      push_cast
      ring

theorem sum_map_neg {α : Type*} (f : α → Int) (l : List α) :
    (l.map fun x => -f x).sum = -(l.map f).sum := by
  rw [List.sum_neg, List.map_map]
  rfl

/-- Whole stakes add up to a change that is the whole total. -/
theorem sumShares_whole {people : List (Uid × Int)} {coinChange total : Int}
    (htotal : (people.map Prod.snd).sum = total) (hall : total = |coinChange|) :
    sumShares (people.map fun entry =>
      ⟨entry.1, entry.2, if coinChange ≥ 0 then entry.2 else -entry.2⟩) = coinChange := by
  obtain hsign | hsign := le_or_gt 0 coinChange
  · have h := sumShares_map people id
    simp only [id] at h
    simp only [ge_iff_le, hsign, if_true]
    rw [h, htotal, hall, abs_of_nonneg hsign]
  · have h := sumShares_map people Neg.neg
    simp only [Int.cast_neg] at h
    simp only [ge_iff_le, not_le.mpr hsign, if_false]
    rw [h, sum_map_neg Prod.snd, htotal, hall, abs_of_neg hsign, neg_neg]

end Shares

section Users

def changeOf (users : LuaTable Uid UserResult) (uid : Uid) : ℚ :=
  ((users.get uid).map UserResult.coinChange).getD 0

def sumUsers (users : LuaTable Uid UserResult) : ℚ :=
  (users.entries.map fun entry => entry.2.coinChange).sum

def ownShares (uid : Uid) (shares : List Share) : ℚ :=
  sumShares (shares.filter fun share => share.uid = uid)

theorem sumUsers_set (users : LuaTable Uid UserResult) (uid : Uid) (user : UserResult) :
    sumUsers (users.set uid user) = sumUsers users - changeOf users uid + user.coinChange :=
  LuaTable.sum_entries_set (fun entry : Uid × UserResult => entry.2.coinChange) users uid user

theorem sumUsers_addUser (users : LuaTable Uid UserResult) (share : Share) :
    sumUsers (addUser id users share) = sumUsers users + share.coinChange := by
  rw [addUser, sumUsers_set, changeOf]
  cases users.get share.uid with
  | none => simp
  | some user =>
      simp only [Option.map_some, Option.getD_some, id]
      ring

theorem changeOf_addUser (users : LuaTable Uid UserResult) (share : Share) (uid : Uid) :
    changeOf (addUser id users share) uid =
      changeOf users uid + if share.uid = uid then share.coinChange else 0 := by
  rw [changeOf, addUser, LuaTable.get_set]
  split_ifs with huid
  · subst huid
    rw [changeOf]
    cases users.get share.uid with
    | none => simp
    | some user => simp
  · simp [changeOf]

theorem sumUsers_foldl (shares : List Share) (users : LuaTable Uid UserResult) :
    sumUsers (shares.foldl (addUser id) users) = sumUsers users + sumShares shares := by
  induction shares generalizing users with
  | nil => simp [sumShares]
  | cons share shares ih =>
      rw [List.foldl_cons, ih, sumUsers_addUser]
      simp only [sumShares, List.map_cons, List.sum_cons]
      ring

theorem changeOf_foldl (shares : List Share) (users : LuaTable Uid UserResult) (uid : Uid) :
    changeOf (shares.foldl (addUser id) users) uid = changeOf users uid + ownShares uid shares := by
  induction shares generalizing users with
  | nil => simp [ownShares, sumShares]
  | cons share shares ih =>
      rw [List.foldl_cons, ih, changeOf_addUser]
      by_cases huid : share.uid = uid
      · simp [ownShares, sumShares, huid, add_assoc]
      · simp [ownShares, huid]

/-- Every change is a number of whole coins. -/
def WholeCoins (users : LuaTable Uid UserResult) : Prop :=
  ∀ uid user, users.get uid = some user → ∃ n : ℤ, user.coinChange = n

theorem WholeCoins.set {users : LuaTable Uid UserResult} (hwhole : WholeCoins users) (uid : Uid)
    {user : UserResult} (huser : ∃ n : ℤ, user.coinChange = n) :
    WholeCoins (users.set uid user) := by
  intro uid' user' huser'
  rw [LuaTable.get_set] at huser'
  split_ifs at huser'
  · cases huser'
    exact huser
  · exact hwhole uid' user' huser'

theorem WholeCoins.foldl {users : LuaTable Uid UserResult} (hwhole : WholeCoins users)
    {shares : List Share} (hshares : ∀ share ∈ shares, ∃ n : ℤ, share.coinChange = n) :
    WholeCoins (shares.foldl (addUser id) users) := by
  induction shares generalizing users with
  | nil => exact hwhole
  | cons share shares ih =>
      obtain ⟨hfirst, hrest⟩ := List.forall_mem_cons.mp hshares
      refine ih (hwhole.set share.uid ?_) hrest
      cases hold : users.get share.uid with
      | none => exact hfirst
      | some old =>
          obtain ⟨m, hm⟩ := hwhole _ _ hold
          obtain ⟨n, hn⟩ := hfirst
          exact ⟨m + n, by simp [hm, hn]⟩

/-- The details are those of the users. -/
def DetailsOk (result : Result) : Prop := ∀ uid, uid ∈ result.details.keys ↔ uid ∈ result.users.keys

variable (round : ℚ → ℚ)

theorem DetailsOk.addShare {result : Result} (hok : DetailsOk result) (door : Door)
    (share : Share) :
    DetailsOk (result.addShare round door share) := by
  intro uid
  simp only [Result.addShare, addDetail, Pk10.addUser, LuaTable.mem_keys_set]
  exact or_congr_right (hok uid)

theorem addDoor_users (result : Result) (door : Door × List Share) :
    (result.addDoor round door).users = door.2.foldl (addUser round) result.users := by
  unfold Result.addDoor
  induction door.2 generalizing result with
  | nil => rfl
  | cons share shares ih => exact ih _

theorem DetailsOk.addDoor {result : Result} (hok : DetailsOk result) (door : Door × List Share) :
    DetailsOk (result.addDoor round door) := by
  unfold Result.addDoor
  induction door.2 generalizing result with
  | nil => exact hok
  | cons share shares ih => exact ih (hok.addShare round door.1 share)

theorem foldl_addDoor_users (doors : List (Door × List Share)) (result : Result) :
    (doors.foldl (Result.addDoor round) result).users =
      (doors.flatMap Prod.snd).foldl (addUser round) result.users := by
  induction doors generalizing result with
  | nil => rfl
  | cons door doors ih =>
      rw [List.foldl_cons, ih, addDoor_users, List.flatMap_cons, List.foldl_append]

theorem foldl_addDoor_details (doors : List (Door × List Share)) {result : Result}
    (hok : DetailsOk result) : DetailsOk (doors.foldl (Result.addDoor round) result) := by
  induction doors generalizing result with
  | nil => exact hok
  | cons door doors ih => exact ih (hok.addDoor round door)

end Users

end SdyServer.Pk10
