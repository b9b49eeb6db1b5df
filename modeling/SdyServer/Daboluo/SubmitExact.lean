import SdyServer.Daboluo.DeclaredTypes
import SdyServer.Daboluo.DelCards
import SdyServer.Daboluo.SubmitSound

/-!
# Which submissions hold dealt cards only

Two holes let other hands through. A row that is declared as type 1 is not looked at, so that it may
be short; and what the dealt cards do not account for is deleted a second time, by the `left_card`
that the client sends along. A message uses one of them when its rows are what they are declared to
be and each of its cards is in the deal or in its own `left_card`.
-/

namespace SdyServer.Daboluo

/-- A room without jokers in which `user` holds dealt cards and submissions are recorded. -/
structure Dealing where
  room : Room
  user : User
  cards : LuaTable Uid Dealt
  curCards : LuaTable Uid CurCards
  dealt : Dealt
  variety_eq : room.roomInfo.variety = false
  cards_eq : room.cards = some cards
  curCards_eq : room.curCards = some curCards
  get_eq : cards.get user.id = some dealt
  plain : ∀ c ∈ dealt.userCard, Plain c

/-- If the message is recorded as an ordinary hand, the hand has thirteen cards and all of them were
dealt to the user. -/
def OnlyDealt (s : Dealing) (data : ChoiceMsg) : Prop :=
  ∀ room' seatid entry,
    choicePokerType s.room s.user data = .ok (room', .isRightPokerType seatid) →
    room'.curCards.bind (·.get s.user.id) = some entry → entry.spType = none →
    ∃ hand, entry.cards = some hand ∧ hand.length = 13 ∧ hand.Subperm s.dealt.userCard

section Statement

/-- The generator of a declared type finds something in a row. -/
def Generates (n : Int) (row : List Card) : Prop :=
  ∃ group rows, tGroup (11 - n) = some group ∧ group row = .ok rows ∧ rows ≠ []

/-- A row of five is what it is declared to be. Type 1 fits any row, and each other type only a
complete one; where a row has jokers, or codes that are no cards, its generator decides. -/
def FitsFive (t : Option Int) (row : List Card) : Prop :=
  t = some 1 ∨ row.length = 5 ∧ ∃ n, t = some n ∧ (2 ≤ n ∧ n ≤ 10) ∧
    if ∀ c ∈ row, InDeck c then IsRow n row else Generates n row

/-- The same for the row of three. -/
def FitsThree (t : Option Int) (row : List Card) : Prop :=
  t = some 1 ∨ row.length = 3 ∧
    (t = some 2 ∧ (if ∀ c ∈ row, InDeck c then ¬(values row).Nodup else yiduiThree row ≠ []) ∨
      (t = some 3 ∨ t = some 4 ∨ t = some 11) ∧
        if ∀ c ∈ row, InDeck c then ∀ c ∈ row, ∀ d ∈ row, c.value = d.value else santiao row ≠ [])

/-- As multisets: each card of `cards` is one of `others`, where a joker is as good as another. -/
structure Covered (cards others : List Card) : Prop where
  known : ∀ c ∈ cards, c.type ≤ 5
  ordinary : ∀ t v, t < 5 → cards.countP (isKind t v) ≤ others.countP (isKind t v)
  jokers : cards.countP isJoker ≤ others.countP isJoker

/-- The cards of `left_card`. -/
def ChoiceMsg.leftCards (data : ChoiceMsg) : List Card := cardsDecode (data.leftCard.getD [])

/-- The messages that use one of the two holes. -/
structure SlipsThrough (dealt : List Card) (data : ChoiceMsg) (types : List Int)
    (hand : List Card) :
    Prop where
  ordinary : data.special = none
  complete : data.sptype = none → types.length = 3
  top : FitsThree (Lua.nth types 3) ((hand.drop 10).take 3)
  middle : FitsFive (Lua.nth types 2) ((hand.drop 5).take 5)
  bottom : FitsFive (Lua.nth types 1) (hand.take 5)
  covered : Covered hand (dealt ++ data.leftCards)
  hole : hand.length < 13 ∧ Lua.nth types 3 = some 1 ∨ ¬Covered hand dealt

end Statement

section Rows

variable {row : List Card} {t : Option Int}

theorem tGroup_short {n : Int} {group : List Card → Lua (List Five)}
    (hgroup : tGroup n = some group)
    (hshort : row.length < 5) : group row = .ok [] := by
  unfold tGroup at hgroup
  split at hgroup <;> cases hgroup
  · simp [wutong, hshort]
  · simp [tonghuashun, hshort]
  · simp [sitiao, hshort]
  · simp [hulu, hshort]
  · simp [tonghua, hshort]
  · simp [shunzi, hshort]
  · simp [santiaoFive, hshort]
  · simp [liangdui, hshort]
  · simp [yiduiFive, hshort]
  · simp [wulongFive, hshort]

theorem tGroup_eq_none {n : Int} (hn : ¬(1 ≤ n ∧ n ≤ 10)) : tGroup n = none := by
  unfold tGroup
  split <;> first | omega | rfl

theorem checkFive_generates {n : Int} (hn : n ≠ 1) :
    checkFive (some n) row = .ok true ↔ Generates n row := by
  unfold checkFive
  rw [Lua.need_some, Lua.ok_bind, if_neg (by omega)]
  cases hgroup : tGroup (11 - n) with
  | none => simp [Generates, hgroup, Lua.need]
  | some group =>
      rw [Lua.need_some, Lua.ok_bind]
      cases hrows : group row with
      | error e => simp [Generates, hgroup, hrows]
      | ok rows => simp [Generates, hgroup, hrows]

theorem checkFive_iff (hlength : row.length ≤ 5) : checkFive t row = .ok true ↔ FitsFive t row := by
  cases t with
  | none => simp [checkFive, FitsFive, Lua.need]
  | some n =>
      by_cases hone : n = 1
      · subst hone
        exact iff_of_true rfl (.inl rfl)
      rw [FitsFive, or_iff_right (by simpa using hone), checkFive_generates hone]
      constructor
      · rintro ⟨group, rows, hgroup, hrows, hne⟩
        have hfive : row.length = 5 := by
          by_contra hshort
          rw [tGroup_short hgroup (by omega), Except.ok.injEq] at hrows
          exact hne hrows.symm
        have hn : 2 ≤ n ∧ n ≤ 10 := by
          by_contra hn
          rw [tGroup_eq_none (by omega)] at hgroup
          cases hgroup
        refine ⟨hfive, n, rfl, hn, ?_⟩
        split_ifs with hdeck
        · have hpass := (checkFive_generates hone).2 ⟨group, rows, hgroup, hrows, hne⟩
          rw [checkFive_eq hdeck hfive (by omega), Except.ok.injEq] at hpass
          exact of_decide_eq_true hpass
        · exact ⟨group, rows, hgroup, hrows, hne⟩
      · rintro ⟨hfive, m, hm, hn, hfits⟩
        cases hm
        split_ifs at hfits with hdeck
        · rw [← checkFive_generates hone, checkFive_eq hdeck hfive (by omega)]
          exact congrArg Except.ok (decide_eq_true hfits)
        · exact hfits

theorem checkThree_pair_iff (hlength : row.length = 3) :
    yiduiThree row ≠ [] ↔
      if ∀ c ∈ row, InDeck c then ¬(values row).Nodup else yiduiThree row ≠ [] := by
  split_ifs with hdeck
  · have heq := checkThree_eq (noJokers_of_inDeck hdeck) hlength (t := 2) (.inr (.inl rfl))
    change Except.ok (decide ((yiduiThree row).length ≠ 0)) = _ at heq
    rw [Except.ok.injEq, decide_eq_decide, Ne, List.length_eq_zero_iff] at heq
    exact heq.trans (by simp [TopRow])
  · exact Iff.rfl

theorem checkThree_trips_iff (hlength : row.length = 3) :
    santiao row ≠ [] ↔
      if ∀ c ∈ row, InDeck c then ∀ c ∈ row, ∀ d ∈ row, c.value =
      d.value else santiao row ≠ [] := by
  split_ifs with hdeck
  · have heq := checkThree_eq (noJokers_of_inDeck hdeck) hlength (t := 4) (.inr (.inr (.inl rfl)))
    change Except.ok (decide ((santiao row).length ≠ 0)) = _ at heq
    rw [Except.ok.injEq, decide_eq_decide, Ne, List.length_eq_zero_iff] at heq
    exact heq.trans (by simp [TopRow])
  · exact Iff.rfl

theorem checkThree_iff (hlength : row.length ≤ 3) :
    checkThree t row = .ok true ↔ FitsThree t row := by
  have hpair : row.length < 3 → yiduiThree row = [] := fun h => by rw [yiduiThree, if_pos h]
  have htrips : row.length < 3 → santiao row = [] := fun h => by rw [santiao, if_pos h]
  by_cases hone : t = some 1
  · subst hone
    exact iff_of_true rfl (.inl rfl)
  rw [FitsThree, or_iff_right hone]
  by_cases htwo : t = some 2
  · subst htwo
    have hcheck : checkThree (some 2) row = .ok (decide ((yiduiThree row).length ≠ 0)) := rfl
    rw [hcheck, Except.ok.injEq, decide_eq_true_eq, Ne, List.length_eq_zero_iff]
    constructor
    · intro hne
      have hthree : row.length = 3 := by
        by_contra h
        exact hne (hpair (by omega))
      exact ⟨hthree, .inl ⟨rfl, (checkThree_pair_iff hthree).1 hne⟩⟩
    · rintro ⟨hthree, ⟨-, hfits⟩ | ⟨h, -⟩⟩
      · exact (checkThree_pair_iff hthree).2 hfits
      · simp at h
  by_cases htype : t = some 3 ∨ t = some 4 ∨ t = some 11
  · have hcheck : checkThree t row = .ok (decide ((santiao row).length ≠ 0)) := by
      rcases htype with rfl | rfl | rfl <;> rfl
    rw [hcheck, Except.ok.injEq, decide_eq_true_eq, Ne, List.length_eq_zero_iff]
    constructor
    · intro hne
      have hthree : row.length = 3 := by
        by_contra h
        exact hne (htrips (by omega))
      exact ⟨hthree, .inr ⟨htype, (checkThree_trips_iff hthree).1 hne⟩⟩
    · rintro ⟨hthree, ⟨h, -⟩ | ⟨-, hfits⟩⟩
      · exact absurd h htwo
      · exact (checkThree_trips_iff hthree).2 hfits
  · rw [not_or, not_or] at htype
    obtain ⟨hthree, hfour, heleven⟩ := htype
    have hcheck : checkThree t row = .error .callNil := by
      unfold checkThree
      simp only [hfour, heleven, or_self, if_false, hone]
      rfl
    rw [hcheck]
    simp [hthree, hfour, heleven, htwo]

theorem checkPaiType_iff {types : List Int} {hand : List Card} :
    checkPaiType (some hand) (some types) = .ok true ↔
      FitsThree (Lua.nth types 3) ((hand.drop 10).take 3) ∧
        FitsFive (Lua.nth types 2) ((hand.drop 5).take 5) ∧
          FitsFive (Lua.nth types 1) (hand.take 5) := by
  rw [← checkThree_iff (List.length_take_le ..), ← checkFive_iff (List.length_take_le ..),
    ← checkFive_iff (List.length_take_le ..)]
  unfold checkPaiType
  rw [Lua.need_some, Lua.ok_bind, Lua.need_some, Lua.ok_bind]
  generalize checkThree (Lua.nth types 3) ((hand.drop 10).take 3) = top
  generalize checkFive (Lua.nth types 2) ((hand.drop 5).take 5) = middle
  generalize checkFive (Lua.nth types 1) (hand.take 5) = bottom
  rcases top with e | _ | _ <;> rcases middle with e | _ | _ <;> simp

end Rows

section Cards

variable {cards others : List Card}

/-- Cards of no suit are never deleted. -/
theorem countP_delCards_unknown (a b : List Card) :
    (delCards (some a) (some b)).countP (fun c => 5 < c.type) = a.countP fun c => 5 < c.type := by
  have hsame : ∀ c d, sameCard c d = true → decide (5 < c.type) = false ∧
      decide (5 < d.type) = false := by
    intro c d hhit
    obtain ⟨hd, -, htype⟩ := sameCard_eq_true.1 hhit
    exact ⟨decide_eq_false (by omega), decide_eq_false (by omega)⟩
  have hboth : ∀ c d, bothJokers c d = true → decide (5 < c.type) = false ∧
      decide (5 < d.type) = false := by
    intro c d hhit
    obtain ⟨hc, hd⟩ := bothJokers_eq_true.1 hhit
    exact ⟨decide_eq_false (by omega), decide_eq_false (by omega)⟩
  rw [delCards_eq, List.countP_reverse, (countP_delPass_of_miss hboth _ _).1,
    (countP_delPass_of_miss hsame _ _).1, List.countP_reverse]

theorem delCards_nil_iff :
    cards = [] ↔ cards.countP (fun c => 5 < c.type) = 0 ∧
      (∀ t v, t < 5 → cards.countP (isKind t v) = 0) ∧ cards.countP isJoker = 0 := by
  constructor
  · rintro rfl
    exact ⟨rfl, fun _ _ _ => rfl, rfl⟩
  · rintro ⟨hknown, hordinary, hjokers⟩
    refine List.eq_nil_iff_forall_not_mem.2 fun c hc => ?_
    rw [List.countP_eq_zero] at hknown hjokers
    have h5 : ¬5 < c.type := by simpa using hknown c hc
    have hjoker : ¬c.type = 5 := by simpa [isJoker] using hjokers c hc
    have hkind := List.countP_eq_zero.1 (hordinary c.type c.value (by omega)) c hc
    simp [isKind] at hkind

/-- **Two deletions leave nothing of what is covered by both lists together.** -/
theorem delCards_delCards_eq_nil_iff {a b c : List Card} :
    delCards (some (delCards (some a) (some b))) (some c) = [] ↔ Covered a (b ++ c) := by
  rw [delCards_nil_iff, countP_delCards_unknown, countP_delCards_unknown, List.countP_eq_zero,
    countP_delCards_jokers, countP_delCards_jokers]
  constructor
  · rintro ⟨hknown, hordinary, hjokers⟩
    refine ⟨fun d hd => ?_, fun t v ht => ?_, ?_⟩
    · simpa using hknown d hd
    · have h := hordinary t v ht
      rw [countP_delCards ht, countP_delCards ht] at h
      rw [List.countP_append]
      omega
    · rw [List.countP_append]
      omega
  · rintro ⟨hknown, hordinary, hjokers⟩
    rw [List.countP_append] at hjokers
    refine ⟨fun d hd => by simpa using hknown d hd, fun t v ht => ?_, by omega⟩
    have h := hordinary t v ht
    rw [List.countP_append] at h
    rw [countP_delCards ht, countP_delCards ht]
    omega

theorem delCards_nil (a : List Card) : delCards (some a) (some []) = a := by
  have hpass : ∀ hit (l : List Card), delPass hit l [] = (l, []) := fun hit l =>
    delPass_of_no_hit (by simp)
  rw [delCards_eq, hpass, hpass, List.reverse_reverse]

/-- Ordinary cards cover what is a part of them. -/
theorem covered_iff_subperm {dealt : List Card} (hcards : ∀ c ∈ cards, c.suit = none ∧ c.old = none)
    (hdealt : ∀ d ∈ dealt, Plain d) : Covered cards dealt ↔ cards.Subperm dealt := by
  rw [← delCards_eq_nil_iff hcards hdealt, ← delCards_nil (delCards (some cards) (some dealt)),
    delCards_delCards_eq_nil_iff, List.append_nil]

theorem unmatched_eq_nil_iff {data : ChoiceMsg} {hand dealt : List Card}
    (hhand : data.hand = some hand) :
    data.unmatched dealt = [] ↔ Covered hand (dealt ++ data.leftCards) := by
  rw [← delCards_delCards_eq_nil_iff, ChoiceMsg.unmatched, hhand, ChoiceMsg.leftCards]
  cases data.leftCard with
  | none =>
      change _ ↔ delCards (some (delCards (some hand) (some dealt))) (some []) = []
      rw [delCards_nil]
  | some leftCard => exact Iff.rfl

end Cards

section Main

theorem checkChoice_eq_ok_none_iff (s : Dealing) {data : ChoiceMsg} (hord : data.special = none) :
    checkChoice s.room s.user data = .ok none ↔
      (data.sptype = none → data.ctype.map List.length = some 3) ∧
        data.unmatched s.dealt.userCard = [] ∧ checkPaiType data.hand data.ctype = .ok true := by
  by_cases hbad : data.sptype = none ∧
      (data.ctype = none ∨ data.ctype.map List.length ≠ some 3 ∨ data.arr = none)
  · simp only [checkChoice, if_pos hbad, Lua.pure_eq_ok, Except.ok.injEq, reduceCtorEq, false_iff]
    rintro ⟨hcomplete, -, htypes⟩
    have hthree := hcomplete hbad.1
    rcases hbad.2 with hnone | hlen | harr
    · simp [hnone] at hthree
    · exact hlen hthree
    · obtain ⟨types, -, hcards⟩ := Lua.bind_eq_ok.mp htypes
      simp [ChoiceMsg.hand, harr] at hcards
  · have hcomplete : data.sptype = none → data.ctype.map List.length = some 3 := by
      intro hsp
      by_contra hlen
      exact hbad ⟨hsp, Or.inr (Or.inl hlen)⟩
    simp only [checkChoice, if_neg hbad, s.cards_eq, Lua.need_some, Lua.ok_bind, s.get_eq, hord,
      s.variety_eq, ne_eq, not_true_eq_false, false_and, if_false, true_and, if_true,
      Lua.pure_eq_ok, List.length_pos_iff]
    by_cases hmatched : data.unmatched s.dealt.userCard = []
    · simp only [hmatched, not_true_eq_false, if_false, true_and]
      constructor
      · intro h
        obtain ⟨pass, hpass, h⟩ := Lua.bind_eq_ok.mp h
        cases pass with
        | true => exact ⟨hcomplete, hpass⟩
        | false => cases h
      · intro h
        rw [h.2]
        rfl
    · simp [hmatched]

theorem choicePokerType_recorded_iff (s : Dealing) {data : ChoiceMsg} {room' : Room}
    {seatid : Option Seat} :
    choicePokerType s.room s.user data = .ok (room', .isRightPokerType seatid) ↔
      checkChoice s.room s.user data = .ok none ∧ seatid = s.user.seat ∧
        room' = { s.room with curCards := some (s.curCards.set s.user.id
          { (s.curCards.get s.user.id).getD {} with
            spType := data.special
            cType := data.ctype
            cards := data.hand
            leftCard := data.leftCard
            varietyPos := data.varietyPos }) } := by
  cases hcheck : checkChoice s.room s.user data with
  | error e => simp [choicePokerType, hcheck]
  | ok verdict =>
      cases verdict with
      | some reply => simp [choicePokerType, hcheck]
      | none =>
          simp only [choicePokerType, hcheck, Lua.ok_bind, s.curCards_eq, Lua.need_some,
            Lua.pure_eq_ok, Except.ok.injEq, Prod.mk.injEq, Reply.isRightPokerType.injEq, true_and]
          constructor
          · rintro ⟨hroom, hseat⟩
            exact ⟨hseat.symm, hroom.symm⟩
          · rintro ⟨hseat, hroom⟩
            exact ⟨hroom.symm, hseat.symm⟩

/-- An incomplete hand lacks cards of its third row, which fits type 1 only then. -/
theorem top_of_short {hand : List Card} {types : List Int} (hshort : hand.length < 13)
    (htop : FitsThree (Lua.nth types 3) ((hand.drop 10).take 3)) : Lua.nth types 3 = some 1 := by
  refine htop.resolve_right fun h => ?_
  have hthree := h.1
  rw [List.length_take, List.length_drop] at hthree
  omega

/-- **Accepted hands are dealt hands** for exactly the messages that use neither hole. -/
theorem choicePokerType_onlyDealt_iff (s : Dealing) (data : ChoiceMsg) :
    OnlyDealt s data ↔ ¬∃ types hand, data.ctype = some types ∧ data.hand = some hand ∧
      SlipsThrough s.dealt.userCard data types hand := by
  constructor
  · rintro honly ⟨types, hand, htypes, hhand, hslip⟩
    have hpass : checkChoice s.room s.user data = .ok none := by
      refine (checkChoice_eq_ok_none_iff s hslip.ordinary).2 ⟨fun hsp => ?_, ?_, ?_⟩
      · rw [htypes, Option.map_some, hslip.complete hsp]
      · exact (unmatched_eq_nil_iff hhand).2 hslip.covered
      · rw [hhand, htypes]
        exact checkPaiType_iff.2 ⟨hslip.top, hslip.middle, hslip.bottom⟩
    obtain ⟨hand', hcards, hlength, hsub⟩ :=
      honly _ _ _ ((choicePokerType_recorded_iff s).mpr ⟨hpass, rfl, rfl⟩)
        (LuaTable.get_set_self ..) hslip.ordinary
    have hhand' : data.hand = some hand' := hcards
    rw [hhand, Option.some.injEq] at hhand'
    subst hhand'
    rcases hslip.hole with ⟨hshort, -⟩ | huncovered
    · omega
    · exact huncovered ((covered_iff_subperm (hand_bare hhand) s.plain).2 hsub)
  · intro hslip room' seatid entry hok hentry hord
    obtain ⟨hpass, -, rfl⟩ := (choicePokerType_recorded_iff s).mp hok
    have hget : entry = _ := (Option.some.inj
      ((LuaTable.get_set_self ..).symm.trans hentry)).symm
    subst hget
    have hspecial : data.special = none := hord
    obtain ⟨hcomplete, hmatched, hpai⟩ := (checkChoice_eq_ok_none_iff s hspecial).mp hpass
    obtain ⟨hand, hhand⟩ := exists_hand_of_typesPass hpai
    obtain ⟨types, htypes⟩ : ∃ types, data.ctype = some types := by
      obtain ⟨types, hneed, -⟩ := Lua.bind_eq_ok.mp hpai
      cases h : data.ctype with
      | none => simp [h, Lua.need] at hneed
      | some types' => exact ⟨types', rfl⟩
    rw [hhand, htypes, checkPaiType_iff] at hpai
    obtain ⟨htop, hmiddle, hbottom⟩ := hpai
    by_contra hwrong
    refine hslip ⟨types, hand, htypes, hhand, hspecial, fun hsp => ?_, htop, hmiddle, hbottom,
      (unmatched_eq_nil_iff hhand).1 hmatched, ?_⟩
    · simpa [htypes] using hcomplete hsp
    · by_contra hright
      rw [not_or, not_and, not_not] at hright
      refine hwrong ⟨hand, hhand, ?_, (covered_iff_subperm (hand_bare hhand) s.plain).1 hright.2⟩
      have hlong : ¬hand.length < 13 := fun h => hright.1 h (top_of_short h htop)
      have := length_hand hhand
      omega

def lowDeal : Dealing :=
  let dealt : Dealt :=
    ⟨cardsDecode [18, 19, 20, 21, 22, 23, 24, 25, 26, 27, 28, 29, 30, 34, 35, 36, 37],
      none, none, 1⟩
  let user : User := { id := 1, seat := some 1 }
  { room := {
      roomInfo := {}
      gameStep := .dealCard
      users := ⟨[(1, user)], by decide⟩
      cards := some ⟨[(1, dealt)], by simp⟩
      curCards := some ∅ }
    user := user
    cards := ⟨[(1, dealt)], by simp⟩
    curCards := ∅
    dealt := dealt
    variety_eq := rfl
    cards_eq := rfl
    curCards_eq := rfl
    get_eq := rfl
    plain := by decide }

def forgedAces : ChoiceMsg where
  ctype := some [10, 10, 4]
  arr := some (List.replicate 13 78)
  leftCard := some (List.replicate 13 78)

def emptyHand : ChoiceMsg where
  ctype := some [1, 1, 1]
  arr := some []

theorem choicePokerType_not_onlyDealt :
    ¬ OnlyDealt lowDeal forgedAces ∧ ¬ OnlyDealt lowDeal emptyHand := by
  constructor
  · intro honly
    obtain ⟨hand, hcards, -, hsub⟩ := honly _ (some 1)
      { cType := some [10, 10, 4], cards := forgedAces.hand, leftCard := forgedAces.leftCard }
      rfl rfl rfl
    cases hcards
    have hmem : { type := 4, value := 13 } ∈ lowDeal.dealt.userCard := hsub.subset (by decide)
    exact absurd hmem (by decide)
  · intro honly
    obtain ⟨hand, hcards, hlen, -⟩ := honly _ (some 1)
      { cType := some [1, 1, 1], cards := some [] } rfl rfl rfl
    cases hcards
    cases hlen

end Main

end SdyServer.Daboluo
