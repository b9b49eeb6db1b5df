import SdyServer.Daboluo.Machine
import SdyServer.Lib.Roll

/-!
# Shuffling and dealing

The deck is built from the room's settings, emptied into the shuffled one at random, and dealt from
its end. The draw of a card does not look whether there is one: the read of its suit raises.
-/

namespace SdyServer.Daboluo

section Shuffle

/-- The inner loop: the thirteen cards of a suit. -/
def suitCards (type : Int) : List Card :=
  (List.range 13).map fun (j : Nat) => { type, value := j + 1 }

/-- `tempCard`: a room of one suit has thirteen spades for each place, the others all four suits,
more of them for five and six places. -/
def freshDeck (roomInfo : RoomInfo) : List Card :=
  if roomInfo.danse then (List.replicate roomInfo.maxCount (suitCards 4)).flatten
  else
    suitCards 1 ++ suitCards 2 ++
      (suitCards 3 ++ if roomInfo.maxCount = 6 then suitCards 3 else []) ++
      (suitCards 4 ++ if roomInfo.maxCount ≥ 5 then suitCards 4 else []) ++
      if roomInfo.variety then [{ type := 5, value := 15 }, { type := 5, value := 16 }] else []

/-- `t[i], t[j] = t[j], t[i]`, positions counted from one. -/
def swap (cards : List Card) (i j : Nat) : List Card :=
  match Lua.nth cards i, Lua.nth cards j with
  | some a, some b => (cards.set (i - 1) b).set (j - 1) a
  | _, _ => cards

theorem length_swap (cards : List Card) (i j : Nat) : (swap cards i j).length = cards.length := by
  unfold swap
  split
  · simp
  · rfl

def shuffleLoop (tempCard allCards : List Card) : Roll (List Card) :=
  if _h : 0 < tempCard.length then do
    let key ← Roll.random 1 tempCard.length
    shuffleLoop (swap tempCard key.toNat tempCard.length).dropLast
      (allCards ++ (Lua.nth tempCard key.toNat).toList)
  else pure allCards
termination_by tempCard.length
decreasing_by
  rw [List.length_dropLast, length_swap]
  omega

/-- `logic.shuffle_card`. -/
def shuffleCard (roomInfo : RoomInfo) : Roll (List Card) := shuffleLoop (freshDeck roomInfo) []

/-- A swap with the last card leaves the card that was taken at the end. -/
theorem swap_perm {cards : List Card} {key : Nat} (hpos : 0 < key) (hle : key ≤ cards.length) :
    ∃ card, Lua.nth cards key = some card ∧
      (card :: (swap cards key cards.length).dropLast).Perm cards := by
  have hkey : key - 1 < cards.length := by omega
  have hlast : cards.length - 1 < cards.length := by omega
  have hnth : Lua.nth cards key = some cards[key - 1] := by
    rw [Lua.nth, if_neg (by omega), List.getElem?_eq_getElem hkey]
  have hend : Lua.nth cards cards.length = some cards[cards.length - 1] := by
    rw [Lua.nth, if_neg (by omega), List.getElem?_eq_getElem hlast]
  have hswap : swap cards key cards.length =
      (cards.set (key - 1) cards[cards.length - 1]).set (cards.length - 1) cards[key - 1] := by
    rw [swap, hnth, hend]
  have hne : swap cards key cards.length ≠ [] := by
    rw [← List.length_pos_iff, length_swap]
    omega
  have htaken : (swap cards key cards.length).getLast hne = cards[key - 1] := by
    simp [List.getLast_eq_getElem, hswap]
  refine ⟨_, hnth, (List.perm_append_singleton _ _).symm.trans ?_⟩
  rw [← htaken, List.dropLast_concat_getLast, hswap]
  exact List.set_set_perm hkey hlast

/-- Whatever numbers are drawn, the loop moves every card once. -/
theorem shuffleLoop_perm (n : Nat) (tempCard allCards : List Card) (hn : tempCard.length = n) :
    Roll.Always (shuffleLoop tempCard allCards) fun shuffled => shuffled.Perm
    (allCards ++ tempCard) := by
  induction n generalizing tempCard allCards with
  | zero =>
      rw [shuffleLoop, dif_neg (by omega)]
      refine .pure ?_
      rw [List.eq_nil_of_length_eq_zero hn, List.append_nil]
  | succ n ih =>
      rw [shuffleLoop, dif_pos (by omega)]
      refine (Roll.Always.random (by omega)).bind fun key hkey => ?_
      obtain ⟨card, hcard, hperm⟩ := @swap_perm tempCard key.toNat (by omega) (by omega)
      refine (ih _ _ ?_).mono fun shuffled hshuffled => hshuffled.trans ?_
      · rw [List.length_dropLast, length_swap, hn]
        omega
      · rw [hcard, Option.toList_some, List.append_assoc, List.singleton_append]
        exact hperm.append_left allCards

theorem shuffleCard_perm (roomInfo : RoomInfo) :
    Roll.Always (shuffleCard roomInfo) fun deck => deck.Perm (freshDeck roomInfo) :=
  shuffleLoop_perm _ _ _ rfl

theorem length_suitCards (type : Int) : (suitCards type).length = 13 := by simp [suitCards]

end Shuffle

section Dealing

/-- `logic.getOneCard`: the last card, nil from an empty deck. -/
def getOneCard (cards : List Card) : Option Card × List Card := (cards.getLast?, cards.dropLast)

/-- The loop over the cards of a hand: a card is read after it was drawn. -/
def dealHand : Nat → List Card × List Card → Lua (List Card × List Card)
  | 0, hand => .ok hand
  | n + 1, (userCard, cards) => do
      let (obj, cards) := getOneCard cards
      let obj ← Lua.need .indexNil obj
      dealHand n (userCard ++ [obj], cards)

/-- What dealing has written: the hands, the deck that is left and `g.more_card`. -/
structure Table where
  cards : LuaTable Uid Dealt := ∅
  deck : List Card
  moreCard : Option (List Card) := none

variable (roomInfo : RoomInfo) (checkSpecial : List Card → Option Int × Option (List Card))

def dealSeat (table : Table) (entry : Seat × Uid) : Lua Table :=
  if entry.2 > 0 then do
    let (userCard, deck) ← dealHand roomInfo.cardNum ([], table.deck)
    let (spType, spCards) := if roomInfo.cardNum = 13 then checkSpecial userCard else (none, none)
    return {
      cards := table.cards.set entry.2 { userCard, spType, spCards, seat := entry.1 }
      deck
      moreCard := if roomInfo.cardNum = 17 ∨ roomInfo.variety then some deck else table.moreCard }
  else .ok table

/-- The loop over the seats, in the order of the table. -/
def dealSeats (table : Table) (entries : List (Seat × Uid)) : Lua Table :=
  entries.foldlM (dealSeat roomInfo checkSpecial) table

/-- `logic.room_deal_card`: the hands as they are dealt, with what is left of the deck. -/
def shuffleAndDeal (seats : LuaTable Seat Uid) : Roll Table := do
  let deck ← shuffleCard roomInfo
  dealSeats roomInfo checkSpecial { deck } seats.entries

end Dealing

section Hands

/-- A hand is the end of the deck, drawn card by card. -/
theorem dealHand_eq {n : Nat} {cards : List Card} (hn : n ≤ cards.length) (userCard : List Card) :
    dealHand n (userCard, cards) = .ok
      (userCard ++ (cards.drop (cards.length - n)).reverse, cards.take (cards.length - n)) := by
  induction n generalizing userCard cards with
  | zero => simp [dealHand]
  | succ n ih =>
      obtain rfl | ⟨rest, card, rfl⟩ := List.eq_nil_or_concat' cards
      · simp at hn
      · rw [List.length_append, List.length_singleton] at hn ⊢
        have hleft : rest.length + 1 - (n + 1) = rest.length - n := by omega
        simp only [dealHand, getOneCard, List.getLast?_append, List.getLast?_singleton,
          Option.some_or,
          Lua.need_some, Lua.ok_bind, List.dropLast_concat]
        rw [ih (by omega), hleft, List.drop_append_of_le_length (by omega),
          List.take_append_of_le_length (by omega)]
        simp

/-- The first draw from an empty deck raises. -/
theorem dealHand_error {n : Nat} {cards : List Card} (hn : cards.length < n)
    (userCard : List Card) :
    dealHand n (userCard, cards) = .error .indexNil := by
  induction n generalizing userCard cards with
  | zero => omega
  | succ n ih =>
      obtain rfl | ⟨rest, card, rfl⟩ := List.eq_nil_or_concat' cards
      · rfl
      · rw [List.length_append, List.length_singleton] at hn
        simp only [dealHand, getOneCard, List.getLast?_append, List.getLast?_singleton,
          Option.some_or,
          Lua.need_some, Lua.ok_bind, List.dropLast_concat]
        exact ih (by omega) _

variable {roomInfo : RoomInfo} {checkSpecial : List Card → Option Int × Option (List Card)}
  {table table' : Table} {entry : Seat × Uid} {entries seen : List (Seat × Uid)} {deck : List Card}

/-- The users that are dealt to, seat by seat. -/
def seatedUids (entries : List (Seat × Uid)) : List Uid := (entries.map Prod.snd).filter (0 < ·)

theorem seatedUids_cons (entry : Seat × Uid) (entries : List (Seat × Uid)) :
    seatedUids (entry :: entries) = if entry.2 > 0 then entry.2 ::
    seatedUids entries else seatedUids entries := by
  simp only [seatedUids, List.map_cons, List.filter_cons, decide_eq_true_eq]

theorem seatedUids_append (entries entries' : List (Seat × Uid)) :
    seatedUids (entries ++ entries') = seatedUids entries ++ seatedUids entries' := by
  simp [seatedUids]

/-- What a seat is dealt, where the deck has enough cards. -/
theorem dealSeat_eq (hseated : entry.2 > 0) (henough : roomInfo.cardNum ≤ table.deck.length) :
    ∃ dealt, dealSeat roomInfo checkSpecial table entry = .ok {
        cards := table.cards.set entry.2 dealt
        deck := table.deck.take (table.deck.length - roomInfo.cardNum)
        moreCard := if roomInfo.cardNum = 17 ∨ roomInfo.variety then
            some (table.deck.take (table.deck.length - roomInfo.cardNum)) else table.moreCard } ∧
      dealt.userCard = (table.deck.drop (table.deck.length - roomInfo.cardNum)).reverse := by
  simp only [dealSeat, if_pos hseated, dealHand_eq henough, Lua.ok_bind, List.nil_append]
  exact ⟨_, rfl, rfl⟩

/-- The deck lasts exactly when it has a hand for every seat. -/
theorem dealSeats_ok_iff (entries : List (Seat × Uid)) (table : Table)
    (hpos : 0 < roomInfo.cardNum) :
    (∃ table', dealSeats roomInfo checkSpecial table entries = .ok table') ↔
      (seatedUids entries).length * roomInfo.cardNum ≤ table.deck.length := by
  induction entries generalizing table with
  | nil => exact ⟨fun _ => by simp [seatedUids], fun _ => ⟨table, rfl⟩⟩
  | cons entry rest ih =>
      have hcons : dealSeats roomInfo checkSpecial table (entry :: rest) =
          dealSeat roomInfo checkSpecial table entry >>=
              fun table => dealSeats roomInfo checkSpecial table rest :=
        List.foldlM_cons ..
      rw [hcons, seatedUids_cons]
      by_cases hseated : entry.2 > 0
      · rw [if_pos hseated, List.length_cons, Nat.succ_mul]
        by_cases henough : roomInfo.cardNum ≤ table.deck.length
        · obtain ⟨dealt, hdealt, -⟩ :=
            @dealSeat_eq roomInfo checkSpecial table entry hseated henough
          rw [hdealt, Lua.ok_bind, ih, List.length_take]
          omega
        · have hraise : dealSeat roomInfo checkSpecial table entry = .error .indexNil := by
            rw [dealSeat, if_pos hseated, dealHand_error (by omega)]
            rfl
          rw [hraise]
          constructor
          · rintro ⟨table', htable'⟩
            cases htable'
          · intro h
            omega
      · rw [if_neg hseated, dealSeat, if_neg hseated, Lua.ok_bind]
        exact ih table

/-- The cards in the hands of the users. -/
def hands (cards : LuaTable Uid Dealt) : List Card :=
  cards.entries.flatMap fun entry => entry.2.userCard

/-- What the seats that were seen have been dealt from the deck. -/
structure DealtOut (roomInfo : RoomInfo) (deck : List Card) (seen : List (Seat × Uid))
    (table : Table) :
    Prop where
  left : table.deck.length + (seatedUids seen).length * roomInfo.cardNum = deck.length
  users : ∀ uid, uid ∈ table.cards.keys ↔ uid ∈ seatedUids seen
  full : ∀ uid dealt, table.cards.get uid = some dealt → dealt.userCard.length = roomInfo.cardNum
  perm : (seatedUids seen).Nodup → (hands table.cards ++ table.deck).Perm deck

theorem DealtOut.start (deck : List Card) : DealtOut roomInfo deck [] { deck } :=
  ⟨by simp [seatedUids], by simp [seatedUids], by simp, fun _ => by simp [hands]⟩

theorem DealtOut.dealSeat (hdealt : DealtOut roomInfo deck seen table)
    (hstep : dealSeat roomInfo checkSpecial table entry = .ok table') :
    DealtOut roomInfo deck (seen ++ [entry]) table' := by
  have hlast : seatedUids [entry] = if entry.2 > 0 then [entry.2] else [] :=
    seatedUids_cons entry []
  by_cases hseated : entry.2 > 0
  · rw [if_pos hseated] at hlast
    by_cases henough : roomInfo.cardNum ≤ table.deck.length
    · obtain ⟨dealt, hdealt', hcards⟩ :=
        @dealSeat_eq roomInfo checkSpecial table entry hseated henough
      rw [hdealt'] at hstep
      cases hstep
      refine ⟨?_, fun uid => ?_, fun uid dealt' hget => ?_, fun hnodup => ?_⟩
      · have hleft := hdealt.left
        rw [seatedUids_append, hlast, List.length_append, List.length_singleton, Nat.succ_mul,
          List.length_take]
        omega
      · rw [LuaTable.mem_keys_set, hdealt.users, seatedUids_append, hlast, List.mem_append,
          List.mem_singleton, or_comm]
      · rw [LuaTable.get_set] at hget
        by_cases huid : entry.2 = uid
        · rw [if_pos huid, Option.some.injEq] at hget
          rw [← hget, hcards, List.length_reverse, List.length_drop]
          omega
        · rw [if_neg huid] at hget
          exact hdealt.full uid dealt' hget
      · rw [seatedUids_append, hlast, List.nodup_append] at hnodup
        have hnew : entry.2 ∉ table.cards.keys := fun hmem =>
          hnodup.2.2 _ ((hdealt.users _).1 hmem) _ (List.mem_singleton_self _) rfl
        have hhands : hands (table.cards.set entry.2 dealt) = hands table.cards ++
            dealt.userCard := by
          simp [hands, LuaTable.entries_set_of_notMem _ _ hnew]
        have hsplit :
            (dealt.userCard ++ table.deck.take (table.deck.length - roomInfo.cardNum)).Perm
            table.deck := by
          rw [hcards]
          refine (List.Perm.append_right _ (List.reverse_perm _)).trans
            (List.perm_append_comm.trans ?_)
          rw [List.take_append_drop]
        refine List.Perm.trans ?_ (hdealt.perm hnodup.1)
        rw [hhands, List.append_assoc]
        exact hsplit.append_left _
    · rw [SdyServer.Daboluo.dealSeat, if_pos hseated, dealHand_error (by omega)] at hstep
      cases hstep
  · rw [SdyServer.Daboluo.dealSeat, if_neg hseated] at hstep
    cases hstep
    rw [if_neg hseated] at hlast
    have hsame : seatedUids (seen ++ [entry]) = seatedUids seen := by
      rw [seatedUids_append, hlast, List.append_nil]
    exact ⟨hsame ▸ hdealt.left, hsame ▸ hdealt.users, hdealt.full, hsame ▸ hdealt.perm⟩

theorem DealtOut.dealSeats (hdealt : DealtOut roomInfo deck seen table)
    (hrun : dealSeats roomInfo checkSpecial table entries = .ok table') :
    DealtOut roomInfo deck (seen ++ entries) table' := by
  induction entries generalizing seen table with
  | nil =>
      cases hrun
      rwa [List.append_nil]
  | cons entry rest ih =>
      rw [SdyServer.Daboluo.dealSeats, List.foldlM_cons] at hrun
      obtain ⟨next, hnext, hrest⟩ := Lua.bind_eq_ok.1 hrun
      have hdone := ih (hdealt.dealSeat hnext) hrest
      rwa [List.append_assoc, List.singleton_append] at hdone

/-- The hands and the rest of the deck are the deck exactly when no user sat twice. -/
theorem DealtOut.perm_iff (hdealt : DealtOut roomInfo deck seen table)
    (hpos : 0 < roomInfo.cardNum) :
    (hands table.cards ++ table.deck).Perm deck ↔ (seatedUids seen).Nodup := by
  refine ⟨fun hperm => ?_, hdealt.perm⟩
  have hlength : (hands table.cards).length = table.cards.keys.length * roomInfo.cardNum := by
    have hfull : table.cards.entries.map (fun entry => entry.2.userCard.length) =
        table.cards.entries.map fun _ => roomInfo.cardNum := List.map_congr_left fun entry hmem =>
      hdealt.full entry.1 entry.2 ((LuaTable.get_eq_some_iff _).2 hmem)
    rw [hands, List.length_flatMap, hfull, List.map_const', List.sum_replicate_nat,
      LuaTable.length_keys,
      LuaTable.size]
  have hall := hperm.length_eq
  rw [List.length_append, hlength, ← hdealt.left, Nat.add_comm, Nat.add_left_cancel_iff] at hall
  have hsub : table.cards.keys.Subperm (seatedUids seen) :=
    List.subperm_of_subset table.cards.nodup_keys fun uid => (hdealt.users uid).1
  have heq := hsub.perm_of_length_le (Nat.le_of_mul_le_mul_right hall.ge hpos)
  exact heq.nodup_iff.1 table.cards.nodup_keys

/-- The step machine's dealing is this one, the shuffled deck given. -/
theorem roomDealCard_eq (hrun : dealSeats roomInfo checkSpecial table entries = .ok table') :
    roomDealCard roomInfo checkSpecial table.deck table.cards entries = table'.cards := by
  induction entries generalizing table with
  | nil =>
      cases hrun
      rfl
  | cons entry rest ih =>
      rw [dealSeats, List.foldlM_cons] at hrun
      obtain ⟨next, hnext, hrest⟩ := Lua.bind_eq_ok.1 hrun
      rw [roomDealCard, ← ih hrest]
      by_cases hseated : entry.2 > 0
      · by_cases henough : roomInfo.cardNum ≤ table.deck.length
        · rw [dealSeat, if_pos hseated, dealHand_eq henough] at hnext
          rw [if_pos hseated, if_neg (by omega)]
          cases hnext
          rfl
        · rw [dealSeat, if_pos hseated, dealHand_error (by omega)] at hnext
          cases hnext
      · rw [dealSeat, if_neg hseated] at hnext
        cases hnext
        rw [if_neg hseated]

end Hands

section Conservation

variable {roomInfo : RoomInfo} (checkSpecial : List Card → Option Int × Option (List Card))
  {seats : LuaTable Seat Uid}

/-- Every seated user has a full hand, and the hands and the rest of the cards are the deck. -/
structure FairDeal (roomInfo : RoomInfo) (seats : LuaTable Seat Uid) (table : Table) : Prop where
  full : ∀ uid ∈ seatedUids seats.entries, ∃ dealt,
    table.cards.get uid = some dealt ∧ dealt.userCard.length = roomInfo.cardNum
  conserved : (hands table.cards ++ table.deck).Perm (freshDeck roomInfo)

/-- Dealing is fair when the deck has a hand for every seat and no user sits twice. -/
theorem shuffleAndDeal_fair_iff (hpos : 0 < roomInfo.cardNum) :
    Roll.Always (shuffleAndDeal roomInfo checkSpecial seats) (FairDeal roomInfo seats) ↔
      (seatedUids seats.entries).length * roomInfo.cardNum ≤ (freshDeck roomInfo).length ∧
        (seatedUids seats.entries).Nodup := by
  constructor
  · intro halways
    obtain ⟨deck, between, hdeck, hperm⟩ := shuffleCard_perm roomInfo fun _ => 0
    obtain ⟨table, rest, htable, hfair⟩ := halways fun _ => 0
    rw [shuffleAndDeal, Roll.bind_of_ok hdeck] at htable
    obtain ⟨table', htable', hrest⟩ := Lua.bind_eq_ok.1 htable
    cases hrest
    refine ⟨?_, ?_⟩
    · rw [← hperm.length_eq]
      exact (dealSeats_ok_iff _ { deck } hpos).1 ⟨_, htable'⟩
    · have hdealt := (DealtOut.start deck).dealSeats htable'
      exact (hdealt.perm_iff hpos).1 (hfair.conserved.trans hperm.symm)
  · rintro ⟨henough, hnodup⟩
    refine (shuffleCard_perm roomInfo).bind fun deck hperm => ?_
    rw [← hperm.length_eq] at henough
    obtain ⟨table, htable⟩ :=
      (@dealSeats_ok_iff roomInfo checkSpecial seats.entries { deck } hpos).2 henough
    have hdealt := (DealtOut.start deck).dealSeats htable
    refine .lift htable ⟨fun uid hmem => ?_, (hdealt.perm hnodup).trans hperm⟩
    obtain ⟨dealt, hget⟩ := (LuaTable.mem_keys_iff _).1 ((hdealt.users uid).2 hmem)
    exact ⟨dealt, hget, hdealt.full uid dealt hget⟩

theorem length_freshDeck (hmax : roomInfo.maxCount = 3) :
    (freshDeck roomInfo).length =
      if roomInfo.danse then 39 else if roomInfo.variety then 54 else 52 := by
  cases hdanse : roomInfo.danse <;> cases hvariety : roomInfo.variety <;>
    simp [freshDeck, hdanse, hvariety, hmax, length_suitCards]

/-- **Dealing conserves the deck unless a user sits on two seats or three play with one suit.** The
shuffle always conserves it. The second hand of a user takes the place of the first one, and the
thirteen cards that a room of one suit has for each place do not make hands of seventeen. -/
theorem shuffleAndDeal_conserves_iff (hcard : roomInfo.cardNum = 17) (hmax : roomInfo.maxCount = 3)
    (hmin : roomInfo.minCount = 3)
    (hseats : ∀ seat ∈ seats.keys, 1 ≤ seat ∧ seat ≤ roomInfo.minCount) :
    (Roll.Always (shuffleCard roomInfo) (fun deck => deck.Perm (freshDeck roomInfo)) ∧
        Roll.Always (shuffleAndDeal roomInfo checkSpecial seats) (FairDeal roomInfo seats)) ↔
      (seatedUids seats.entries).Nodup ∧
        (roomInfo.danse = true → (seatedUids seats.entries).length ≤ 2) := by
  have hseat : ∀ seat : Int, 1 ≤ seat ∧ seat ≤ 3 → seat ∈ [1, 2, 3] := fun seat hseat => by
    simp only [List.mem_cons, List.not_mem_nil, or_false]
    omega
  have hsub : seats.keys ⊆ [1, 2, 3] := fun seat hmem => hseat seat (by
    have := hseats seat hmem
    rwa [hmin] at this)
  have hthree : (seatedUids seats.entries).length ≤ 3 := calc
    (seatedUids seats.entries).length ≤ (seats.entries.map Prod.snd).length :=
      List.length_filter_le ..
    _ = seats.keys.length := by rw [List.length_map, LuaTable.length_keys, LuaTable.size]
    _ ≤ 3 := (List.subperm_of_subset seats.nodup_keys hsub).length_le
  rw [shuffleAndDeal_fair_iff checkSpecial (by omega), length_freshDeck hmax, hcard]
  constructor
  · rintro ⟨-, henough, hnodup⟩
    refine ⟨hnodup, fun hdanse => ?_⟩
    rw [if_pos hdanse] at henough
    change (seatedUids seats.entries).length * 17 ≤ 39 at henough
    omega
  · rintro ⟨hnodup, htwo⟩
    refine ⟨shuffleCard_perm roomInfo, ?_, hnodup⟩
    split_ifs with hdanse
    · have := htwo hdanse
      omega
    · omega
    · omega

/-- Users on the three seats of a table. -/
def threeSeats (a b c : Uid) : LuaTable Seat Uid := ⟨[(1, a), (2, b), (3, c)], by simp⟩

theorem shuffleAndDeal_conserves_iff_threeSeats :
    (Roll.Always (shuffleCard {}) (fun deck => deck.Perm (freshDeck {})) ∧
        Roll.Always (shuffleAndDeal {} (fun _ => (none, none)) (threeSeats 7 8 9))
          (FairDeal {} (threeSeats 7 8 9))) ↔
      (seatedUids (threeSeats 7 8 9).entries).Nodup ∧
        (({} : RoomInfo).danse = true → (seatedUids (threeSeats 7 8 9).entries).length ≤ 2) :=
  shuffleAndDeal_conserves_iff (fun _ => (none, none)) rfl rfl rfl (by decide)

theorem shuffleAndDeal_not_conserved :
    ¬∀ seats : LuaTable Seat Uid, (∀ seat ∈ seats.keys, 1 ≤ seat ∧ seat ≤ 3) →
      Roll.Always (shuffleAndDeal { danse := true } (fun _ => (none, none)) seats)
        (FairDeal { danse := true } seats) := by
  intro h
  have hthree := (shuffleAndDeal_fair_iff _ (by decide)).1 (h (threeSeats 7 8 9) (by decide))
  exact absurd hthree.1 (by decide)

end Conservation

end SdyServer.Daboluo
