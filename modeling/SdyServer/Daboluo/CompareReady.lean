import SdyServer.Daboluo.Machine
import SdyServer.Daboluo.SubmitSound

/-!
# What the comparison starts from

The transition to the comparison only asks that every dealt player has an entry. Along the runs in
which no message creates an incomplete entry, and none writes one while hands are compared, all
entries are complete when the comparison starts and stay as they are until the round is over.
-/

namespace SdyServer.Daboluo

/-- An entry that can be compared: a special type, or three declared types with thirteen cards. -/
def CompleteEntry (entry : CurCards) : Prop :=
  entry.spType ≠ none ∨
    (∀ i ∈ [1, 2, 3], (entry.cType.bind (Lua.nth · i)).isSome) ∧
      entry.cards.map List.length = some 13

instance (entry : CurCards) : Decidable (CompleteEntry entry) :=
  inferInstanceAs (Decidable (_ ∨ _))

def Comparing (room : Room) : Prop := room.gameStep = .compare ∨ room.gameStep = .over

instance (room : Room) : Decidable (Comparing room) := inferInstanceAs (Decidable (_ ∨ _))

/-- The entry of `g.cur_cards` under a uid. -/
def Room.entry (room : Room) (uid : Uid) : Option CurCards := (room.curCards.getD ∅).get uid

section Frame

structure SameTable (room room' : Room) : Prop where
  gameStep : room'.gameStep = room.gameStep
  curCards : room'.curCards = room.curCards

theorem SameTable.refl (room : Room) : SameTable room room := ⟨rfl, rfl⟩

variable (room : Room) (user : User)

theorem someoneStand_same : SameTable room (someoneStand room user) := by
  unfold someoneStand
  split <;> exact ⟨rfl, rfl⟩

theorem postLeave_same : SameTable room (postLeave room user) := by
  unfold postLeave
  split <;> split_ifs <;> exact ⟨rfl, rfl⟩

theorem tryStand_same : SameTable room (tryStand room user) := by
  unfold tryStand
  split_ifs
  · exact .refl room
  · exact someoneStand_same room user

theorem sit_same (seatid : Seat) : SameTable room (sit room user seatid) := by
  unfold sit
  split_ifs
  · exact .refl room
  · exact .refl room
  · exact ⟨rfl, rfl⟩

theorem disconnect_same : SameTable room (disconnect room user) := by
  simp only [disconnect]
  split_ifs
  · exact ⟨rfl, rfl⟩
  · obtain ⟨hstep, hcur⟩ := postLeave_same { room with realUser := max (room.realUser - 1) 0 } user
    exact ⟨hstep, hcur⟩

theorem takeSeat_same : SameTable room (takeSeat room user) := by
  simp only [takeSeat]
  split_ifs
  · exact .refl room
  · split <;> exact ⟨rfl, rfl⟩

theorem login_same (uid : Uid) (isRobot : Bool) : SameTable room (login room uid isRobot) := by
  obtain ⟨hstep, hcur⟩ := takeSeat_same { room with
    users := room.users.set uid
      { (room.users.get uid).getD { id := uid, isRobot } with offline := false }
    realUser := if isRobot then room.realUser else room.realUser + 1
    robotUser := if isRobot then room.robotUser + 1 else room.robotUser }
    { (room.users.get uid).getD { id := uid, isRobot } with offline := false }
  exact ⟨hstep, hcur⟩

theorem ofUser_same {uid : Uid} {handler : User → Room}
    (h : ∀ user, SameTable room (handler user)) :
    SameTable room (ofUser room uid handler) := by
  unfold ofUser
  split
  · exact h _
  · exact .refl room

theorem checkReadyFrom_same (seats : List (Seat × Uid)) :
    SameTable room (checkReadyFrom room seats).1 := by
  induction seats generalizing room with
  | nil => exact .refl room
  | cons entry rest ih =>
      obtain ⟨seat, uid⟩ := entry
      unfold checkReadyFrom
      cases room.users.get uid with
      | none => exact .refl room
      | some user =>
          simp only
          split_ifs
          · exact ih room
          · obtain ⟨hstep, hcur⟩ :=
              ih { room with users := room.users.set uid { user with ready := true } }
            exact ⟨hstep, hcur⟩
          · exact ih room

end Frame

section Entries

theorem Arrangement.length_cards {arr : Arrangement} (hrest : arr.rest.length ≠ 3) :
    arr.cards.length = 13 := by
  simp [Arrangement.cards, Lua.length_tableSort, hrest]

theorem choose_mem {found : List Arrangement} {first : Arrangement}
    (hfirst : Lua.nth found 1 = some first) :
    choose first (Lua.nth found 2) (Lua.nth found 3) ∈ found := by
  have hmem : ∀ {i : Nat} {arr : Arrangement}, Lua.nth found i = some arr → arr ∈ found := by
    intro i arr h
    unfold Lua.nth at h
    split_ifs at h
    exact List.mem_of_getElem? h
  have hgetD : ∀ i, (Lua.nth found i).getD first ∈ found := by
    intro i
    cases h : Lua.nth found i with
    | none => exact hmem hfirst
    | some arr => exact hmem h
  unfold choose
  simp only
  split_ifs
  · exact hgetD 2
  · exact hgetD 3
  · exact hmem hfirst

/-- An automatic submission is complete, unless it leaves exactly three cards over. -/
theorem choicePokerAuto_complete {roomInfo : RoomInfo} {dealt : Dealt} {entry : CurCards}
    (hrest : ∀ found, happydoggyGroupCards dealt.userCard roomInfo.danse = .ok found →
      ∀ arr ∈ found, arr.rest.length ≠ 3)
    (hok : choicePokerAuto roomInfo dealt = .ok entry) : CompleteEntry entry := by
  unfold choicePokerAuto at hok
  cases hsp : dealt.spType with
  | some spType =>
      rw [hsp] at hok
      cases hok
      exact Or.inl (by simp)
  | none =>
      rw [hsp] at hok
      obtain ⟨found, hfound, hok⟩ := Lua.bind_eq_ok.mp hok
      obtain ⟨first, hfirst, hok⟩ := Lua.bind_eq_ok.mp hok
      cases hok
      have hnth : Lua.nth found 1 = some first := by
        unfold Lua.elem at hfirst
        cases h : Lua.nth found 1 with
        | none => simp [h] at hfirst
        | some arr => simpa [h] using hfirst
      refine Or.inr ⟨?_, ?_⟩
      · simp [Arrangement.types, Lua.nth]
      · simp [Arrangement.length_cards (hrest found hfound _ (choose_mem hnth))]

theorem nth_isSome_of_checkPaiType {hand : Option (List Card)} {types : Option (List Int)}
    (hpass : checkPaiType hand types = .ok true) :
    ∀ i ∈ [1, 2, 3], (types.bind (Lua.nth · i)).isSome := by
  unfold checkPaiType at hpass
  obtain ⟨types', htypes, hpass⟩ := Lua.bind_eq_ok.mp hpass
  obtain ⟨cards, -, hpass⟩ := Lua.bind_eq_ok.mp hpass
  obtain ⟨top, htop, hpass⟩ := Lua.bind_eq_ok.mp hpass
  cases htypes' : types with
  | none => simp [htypes'] at htypes
  | some types'' =>
      have : types'' = types' := by simpa [htypes'] using htypes
      subst this
      have hthree : (Lua.nth types'' 3).isSome := by
        cases h : Lua.nth types'' 3 with
        | none => simp [h, checkThree] at htop
        | some t => rfl
      have hfive : ∀ {i : Nat} {row : List Card} {b : Bool},
          checkFive (Lua.nth types'' i) row = .ok b → (Lua.nth types'' i).isSome := by
        intro i row b h
        cases hi : Lua.nth types'' i with
        | none => simp [hi, checkFive] at h
        | some t => rfl
      cases top with
      | false => cases hpass
      | true =>
          simp only [if_true] at hpass
          obtain ⟨middle, hmiddle, hpass⟩ := Lua.bind_eq_ok.mp hpass
          cases middle with
          | false => cases hpass
          | true =>
              simp only [if_true] at hpass
              intro i hi
              simp only [List.mem_cons, List.not_mem_nil, or_false] at hi
              rcases hi with rfl | rfl | rfl
              · exact hfive hpass
              · exact hfive hmiddle
              · exact hthree

end Entries

section Messages

variable {room room' : Room} {user : User} {data : ChoiceMsg}

theorem typesPass_of_checkChoice (hord : data.special = none)
    (hpass : checkChoice room user data = .ok none) :
    checkPaiType data.hand data.ctype = .ok true := by
  simp only [checkChoice, hord, ne_eq, not_true_eq_false, false_and, if_false, if_true,
    Lua.pure_eq_ok] at hpass
  split_ifs at hpass
  · simp at hpass
  · obtain ⟨cards, -, hpass⟩ := Lua.bind_eq_ok.mp hpass
    cases hget : cards.get user.id with
    | none => simp [hget] at hpass
    | some dealt =>
        simp only [hget] at hpass
        split_ifs at hpass
        · simp at hpass
        · obtain ⟨pass, htypes, hpass⟩ := Lua.bind_eq_ok.mp hpass
          cases pass with
          | true => exact htypes
          | false => simp at hpass

/-- What a submission does to the room: nothing, or it passed the checks and is recorded. -/
theorem choicePokerType_inv {reply : Reply}
    (hok : choicePokerType room user data = .ok (room', reply)) :
    room' = room ∨ checkChoice room user data = .ok none ∧
      ∃ curCards entry, room.curCards = some curCards ∧
        room' = { room with curCards := some (curCards.set user.id entry) } ∧
        entry.spType = data.special ∧ entry.cType = data.ctype ∧ entry.cards = data.hand := by
  unfold choicePokerType at hok
  obtain ⟨verdict, hcheck, hok⟩ := Lua.bind_eq_ok.mp hok
  cases verdict with
  | some refusal =>
      cases hok
      exact Or.inl rfl
  | none =>
      obtain ⟨curCards, hcur, hok⟩ := Lua.bind_eq_ok.mp hok
      cases hok
      refine Or.inr ⟨hcheck, curCards, _, ?_, rfl, rfl, rfl, rfl⟩
      cases h : room.curCards with
      | none => simp [h] at hcur
      | some table => simpa [h] using hcur

theorem happydogggySequence_inv {hpArr : Option (List Int)}
    (hok : happydogggySequence room user hpArr = .ok room') :
    ∃ curCards entry, room.curCards = some curCards ∧
      room' = { room with curCards := some (curCards.set user.id entry) } ∧
      entry = { (curCards.get user.id).getD {} with hparr := hpArr } := by
  unfold happydogggySequence at hok
  obtain ⟨curCards, hcur, hok⟩ := Lua.bind_eq_ok.mp hok
  cases hok
  refine ⟨curCards, _, ?_, rfl, rfl⟩
  cases h : room.curCards with
  | none => simp [h] at hcur
  | some table => simpa [h] using hcur

end Messages

/-- The steps that keep the submissions in order: a hand submitted before the comparison has a
special type or at least thirteen codes, `happydogggy_sequence` comes from a player who has an
entry, neither passes its checks while hands are compared, and no hand whose automatic arrangement
leaves exactly three cards over is waiting. -/
def Orderly (room : Room) : Event → Prop
  | .choicePokerType uid data => ∀ user ∈ room.users.get uid,
      checkChoice room user data = .ok none → ¬ Comparing room ∧
        (room.gameStep = .dealCard → data.special ≠ none ∨ 13 ≤ (data.arr.getD []).length)
  | .happydogggySequence uid _ => ∀ user ∈ room.users.get uid,
      ¬ Comparing room ∧ (room.gameStep = .dealCard → (room.entry user.id).isSome)
  | .tick _ => room.gameStep = .dealCard → ∀ entry ∈ (room.cards.getD ∅).entries,
      ∀ found ∈ (happydoggyGroupCards entry.2.userCard room.roomInfo.danse).toOption,
        ∀ arr ∈ found, arr.rest.length ≠ 3
  | _ => True

def EntriesComplete (room : Room) : Prop :=
  room.gameStep = .dealCard → ∀ uid entry, room.entry uid = some entry → CompleteEntry entry

theorem EntriesComplete.of_same {room room' : Room} (hinv : EntriesComplete room)
    (hsame : SameTable room room') : EntriesComplete room' := by
  intro hstep uid entry hentry
  rw [hsame.gameStep] at hstep
  rw [Room.entry, hsame.curCards] at hentry
  exact hinv hstep uid entry hentry

theorem EntriesComplete.set {room : Room} (hinv : EntriesComplete room)
    {curCards : LuaTable Uid CurCards} (hcur : room.curCards = some curCards) (uid : Uid)
    {entry : CurCards} (hentry : room.gameStep = .dealCard → CompleteEntry entry) :
    EntriesComplete { room with curCards := some (curCards.set uid entry) } := by
  intro hstep uid' entry' hget
  by_cases huid : uid = uid'
  · subst huid
    have : entry = entry' := by
      simpa [Room.entry] using hget
    exact this ▸ hentry hstep
  · refine hinv hstep uid' entry' ?_
    simpa [Room.entry, hcur, LuaTable.get_set_of_ne _ _ huid] using hget

section Ticks

variable {room : Room} {curCards : LuaTable Uid CurCards} {robotDraw : Uid → Nat}

theorem dealLoop_submitted {entries : List (Uid × Dealt)} {hasNil : Bool} {uid : Uid}
    {entry : CurCards}
    (h : dealLoop room curCards robotDraw hasNil entries = .submitted uid entry) :
    ∃ dealt, (uid, dealt) ∈ entries ∧ choicePokerAuto room.roomInfo dealt = .ok entry := by
  induction entries generalizing hasNil with
  | nil => simp [dealLoop] at h
  | cons head rest ih =>
      obtain ⟨k, dealt⟩ := head
      unfold dealLoop at h
      split at h
      · cases h
      · simp only at h
        split_ifs at h
        · cases hauto : choicePokerAuto room.roomInfo dealt with
          | error e => simp [hauto] at h
          | ok entry' =>
              simp only [hauto, DealOutcome.submitted.injEq] at h
              obtain ⟨rfl, rfl⟩ := h
              exact ⟨dealt, List.mem_cons_self .., hauto⟩
        · obtain ⟨dealt', hmem, hauto⟩ := ih h
          exact ⟨dealt', List.mem_cons_of_mem _ hmem, hauto⟩

theorem dealLoop_done {entries : List (Uid × Dealt)} {hasNil : Bool}
    (h : dealLoop room curCards robotDraw hasNil entries = .done false) :
    hasNil = false ∧ ∀ head ∈ entries, (curCards.get head.1).isSome := by
  induction entries generalizing hasNil with
  | nil =>
      simp only [dealLoop, DealOutcome.done.injEq] at h
      exact ⟨h, by simp⟩
  | cons head rest ih =>
      obtain ⟨k, dealt⟩ := head
      unfold dealLoop at h
      split at h
      · cases h
      · simp only at h
        split_ifs at h
        · split at h <;> cases h
        · obtain ⟨hnil, hrest⟩ := ih h
          rw [Bool.or_eq_false_iff] at hnil
          refine ⟨hnil.1, fun head hmem => ?_⟩
          rcases List.mem_cons.mp hmem with rfl | hmem
          · simpa using hnil.2
          · exact hrest head hmem

/-- What a tick does to the submissions: nothing, it goes to a step without them, it opens them, it
submits for one player, or it closes them because every dealt player has an entry. -/
inductive TickEffect (room room' : Room) : Prop
  | same (hsame : SameTable room room')
  | away (hdeal : room'.gameStep ≠ .dealCard) (hcompare : room'.gameStep ≠ .compare)
  | opened (hstep : room'.gameStep = .dealCard) (hcur : room'.curCards = some ∅)
  | submitted (uid : Uid) (entry : CurCards) (dealt : Dealt) (hstep : room.gameStep = .dealCard)
      (hmem : (uid, dealt) ∈ (room.cards.getD ∅).entries)
      (hauto : choicePokerAuto room.roomInfo dealt = .ok entry)
      (hstep' : room'.gameStep = .dealCard)
      (hcur : room'.curCards = some ((room.curCards.getD ∅).set uid entry))
  | closed (hstep : room.gameStep = .dealCard) (hstep' : room'.gameStep = .compare)
      (hcur : room'.curCards = room.curCards) (hcards : room'.cards = room.cards)
      (hall : ∀ uid ∈ (room.cards.getD ∅).keys, (room.entry uid).isSome)

theorem stepNone_effect (input : TickInput) : TickEffect room (stepNone room input) := by
  have hready : SameTable room (checkReady room).1 := checkReadyFrom_same room room.seat.entries
  unfold stepNone
  split
  · rcases hcheck : checkReady room with ⟨room₁, ready⟩
    rw [hcheck] at hready
    simp only
    split
    · exact .away (by simp [gameStart]) (by simp [gameStart])
    · exact .same hready
  · exact .same (.refl room)

theorem stepDealCard_effect (input : TickInput) (hstep : room.gameStep = .dealCard) :
    TickEffect room (stepDealCard room input) := by
  unfold stepDealCard
  simp only
  split
  · exact .same (.refl room)
  · rename_i uid entry hloop
    obtain ⟨dealt, hmem, hauto⟩ := dealLoop_submitted hloop
    exact .submitted uid entry dealt hstep hmem hauto hstep rfl
  · exact .same (.refl room)
  · rename_i hloop
    refine .closed hstep rfl rfl rfl fun uid huid => ?_
    obtain ⟨head, hmem, rfl⟩ := List.mem_map.mp huid
    exact (dealLoop_done hloop).2 head hmem

theorem stepCompare_effect (input : TickInput) :
    TickEffect room (stepCompare room input) := by
  unfold stepCompare
  split
  · refine .same ?_
    unfold compareStart
    simp only
    split_ifs
    · exact ⟨rfl, rfl⟩
    · split <;> exact ⟨rfl, rfl⟩
  · split_ifs
    · exact .same (.refl room)
    · exact .away (by simp) (by simp)

theorem foldl_leave_gameStep (leave : Room → Uid → Room)
    (hleave : ∀ room uid, SameTable room (leave room uid)) (uids : List Uid) (room : Room) :
    (uids.foldl leave room).gameStep = room.gameStep := by
  induction uids generalizing room with
  | nil => rfl
  | cons uid rest ih => rw [List.foldl_cons, ih, (hleave room uid).gameStep]

theorem gameOver_gameStep (input : TickInput) : (gameOver room input).gameStep = .none := by
  simp only [gameOver]
  refine (foldl_leave_gameStep _ (fun room uid => ?_) input.leavers _).trans rfl
  split
  · exact postLeave_same room _
  · exact .refl room

theorem stepOver_effect (input : TickInput) : TickEffect room (stepOver room input) := by
  unfold stepOver
  split_ifs
  · exact .same (.refl room)
  · exact .away (by simp [gameOver_gameStep]) (by simp [gameOver_gameStep])
  · exact .same (.refl room)

theorem run_effect (room : Room) (input : TickInput) : TickEffect room (run room input) := by
  have hlift : ∀ {room' : Room}, TickEffect { room with gameTime := room.gameTime + 1 } room' →
      TickEffect room room' := by
    intro room' heffect
    cases heffect with
    | same hsame => exact .same ⟨hsame.gameStep, hsame.curCards⟩
    | away hdeal hcompare => exact .away hdeal hcompare
    | opened hstep hcur => exact .opened hstep hcur
    | submitted uid entry dealt hstep hmem hauto hstep' hcur =>
        exact .submitted uid entry dealt hstep hmem hauto hstep' hcur
    | closed hstep hstep' hcur hcards hall => exact .closed hstep hstep' hcur hcards hall
  apply hlift
  simp only [run]
  split
  · exact stepNone_effect input
  · simp only [stepSkip]
    split
    · exact .same ⟨rfl, rfl⟩
    · exact .opened rfl rfl
  · exact stepDealCard_effect input ‹_›
  · exact stepCompare_effect input
  · exact stepOver_effect input

end Ticks

theorem step_entriesComplete {room : Room} {event : Event} (hinv : EntriesComplete room)
    (horderly : Orderly room event) : EntriesComplete (step room event) := by
  cases event with
  | tick input =>
      cases run_effect room input with
      | same hsame => exact hinv.of_same hsame
      | away hdeal _ => exact fun hstep => absurd hstep hdeal
      | opened _ hcur =>
          intro _ uid entry hentry
          simp [Room.entry, step, hcur] at hentry
      | submitted uid entry dealt hstep hmem hauto hstep' hcur =>
          have hcomplete : CompleteEntry entry := by
            refine choicePokerAuto_complete (fun found hfound => ?_) hauto
            exact horderly hstep (uid, dealt) hmem found (by simp [hfound, Except.toOption])
          intro _ uid' entry' hget
          simp only [Room.entry, step, hcur, Option.getD_some, LuaTable.get_set] at hget
          split_ifs at hget
          · cases hget
            exact hcomplete
          · exact hinv hstep uid' entry' hget
      | closed _ hstep' => exact fun hstep => by simp [step, hstep'] at hstep
  | choicePokerType uid data =>
      simp only [step, ofUser]
      cases huser : room.users.get uid with
      | none => exact hinv
      | some user =>
          simp only
          cases hok : choicePokerType room user data with
          | error e => exact hinv
          | ok result =>
              obtain ⟨room', reply⟩ := result
              rcases choicePokerType_inv hok with rfl |
                ⟨hpass, curCards, entry, hcur, rfl, hsp, htype, hcards⟩
              · exact hinv
              · refine hinv.set hcur user.id fun hstep => ?_
                obtain ⟨-, hhand⟩ := horderly user huser hpass
                by_cases hord : data.special = none
                · have htypes := typesPass_of_checkChoice hord hpass
                  obtain ⟨hand, hhand'⟩ := exists_hand_of_typesPass htypes
                  have hlong : 13 ≤ (data.arr.getD []).length :=
                    (hhand hstep).resolve_left fun h => h hord
                  refine Or.inr ⟨htype ▸ nth_isSome_of_checkPaiType htypes, ?_⟩
                  rw [hcards, hhand', Option.map_some, length_hand hhand']
                  simp [hlong]
                · exact Or.inl (hsp ▸ hord)
  | happydogggySequence uid hpArr =>
      simp only [step, ofUser]
      cases huser : room.users.get uid with
      | none => exact hinv
      | some user =>
          simp only
          cases hok : happydogggySequence room user hpArr with
          | error e => exact hinv
          | ok room' =>
              obtain ⟨curCards, entry, hcur, rfl, rfl⟩ := happydogggySequence_inv hok
              refine hinv.set hcur user.id fun hstep => ?_
              obtain ⟨old, hold⟩ := Option.isSome_iff_exists.mp ((horderly user huser).2 hstep)
              have hget : curCards.get user.id = some old := by
                simpa [Room.entry, hcur] using hold
              rw [hget, Option.getD_some]
              exact hinv hstep user.id old hold
  | tryStand uid => exact hinv.of_same (ofUser_same room (tryStand_same room))
  | stand uid => exact hinv.of_same (ofUser_same room (someoneStand_same room))
  | sit uid seatid => exact hinv.of_same (ofUser_same room fun user => sit_same room user seatid)
  | ready uid => exact hinv.of_same (ofUser_same room fun _ => ⟨rfl, rfl⟩)
  | disconnect uid => exact hinv.of_same (ofUser_same room (disconnect_same room))
  | login uid isRobot => exact hinv.of_same (login_same room uid isRobot)

def Event.isMessage : Event → Bool
  | .tick _ => false
  | _ => true

/-- When the comparison starts, every dealt player has a complete entry, and no client message
changes an entry until the round is over. -/
structure StartsFinal (room room' : Room) (event : Event) : Prop where
  complete : room.gameStep ≠ .compare → room'.gameStep = .compare →
    ∀ uid ∈ (room'.cards.getD ∅).keys, ∃ entry, room'.entry uid = some entry ∧ CompleteEntry entry
  final : Comparing room → event.isMessage = true → room'.curCards = room.curCards

/-- A message leaves the step alone, and the entries too unless it is a submission that is recorded
or a `happydogggy_sequence`. -/
theorem message_effect {room : Room} {event : Event} (hmessage : event.isMessage = true)
    (horderly : Orderly room event) :
    (step room event).gameStep = room.gameStep ∧
      (Comparing room → (step room event).curCards = room.curCards) := by
  have hsame : ∀ {room' : Room}, SameTable room room' →
      room'.gameStep = room.gameStep ∧ (Comparing room → room'.curCards = room.curCards) :=
    fun h => ⟨h.gameStep, fun _ => h.curCards⟩
  cases event with
  | tick input => cases hmessage
  | choicePokerType uid data =>
      simp only [step, ofUser]
      cases huser : room.users.get uid with
      | none => exact hsame (.refl room)
      | some user =>
          simp only
          cases hok : choicePokerType room user data with
          | error e => exact hsame (.refl room)
          | ok result =>
              obtain ⟨room', reply⟩ := result
              rcases choicePokerType_inv hok with rfl | ⟨hpass, curCards, entry, -, rfl, -⟩
              · exact hsame (.refl room')
              · exact ⟨rfl, fun hcomparing => absurd hcomparing (horderly user huser hpass).1⟩
  | happydogggySequence uid hpArr =>
      simp only [step, ofUser]
      cases huser : room.users.get uid with
      | none => exact hsame (.refl room)
      | some user =>
          simp only
          cases hok : happydogggySequence room user hpArr with
          | error e => exact hsame (.refl room)
          | ok room' =>
              obtain ⟨curCards, entry, -, rfl, -⟩ := happydogggySequence_inv hok
              exact ⟨rfl, fun hcomparing => absurd hcomparing (horderly user huser).1⟩
  | tryStand uid => exact hsame (ofUser_same room (tryStand_same room))
  | stand uid => exact hsame (ofUser_same room (someoneStand_same room))
  | sit uid seatid => exact hsame (ofUser_same room fun user => sit_same room user seatid)
  | ready uid => exact hsame (ofUser_same room fun _ => ⟨rfl, rfl⟩)
  | disconnect uid => exact hsame (ofUser_same room (disconnect_same room))
  | login uid isRobot => exact hsame (login_same room uid isRobot)

theorem step_startsFinal {room : Room} {event : Event} (hinv : EntriesComplete room)
    (horderly : Orderly room event) : StartsFinal room (step room event) event := by
  refine ⟨fun hbefore hafter => ?_, fun hcomparing hmessage =>
    (message_effect hmessage horderly).2 hcomparing⟩
  cases hmessage : event.isMessage with
  | true =>
      rw [(message_effect hmessage horderly).1] at hafter
      exact absurd hafter hbefore
  | false =>
      cases event with
      | tick input =>
          cases run_effect room input with
          | same hsame => exact absurd (hsame.gameStep.symm.trans hafter) hbefore
          | away _ hcompare => exact absurd hafter hcompare
          | opened hstep _ => exact absurd (hstep.symm.trans hafter) (by decide)
          | submitted _ _ _ _ _ _ hstep' _ => exact absurd (hstep'.symm.trans hafter) (by decide)
          | closed hstep _ hcur hcards hall =>
              intro uid huid
              have huid' : uid ∈ (room.cards.getD ∅).keys := by
                have : (step room (.tick input)).cards = room.cards := hcards
                rwa [this] at huid
              obtain ⟨entry, hentry⟩ := Option.isSome_iff_exists.mp (hall uid huid')
              have hentry' : (step room (.tick input)).entry uid = some entry := by
                have : (step room (.tick input)).curCards = room.curCards := hcur
                rw [Room.entry, this]
                exact hentry
              exact ⟨entry, hentry', hinv hstep uid entry hentry⟩
      | _ => cases hmessage

/-- **The comparison starts from complete, final submissions** at every step of every orderly
run. -/
theorem comparison_startsFinal (roomInfo : RoomInfo) (events : List Event) (event : Event)
    (horderly : Run.Along step Orderly (Room.fresh roomInfo) (events ++ [event])) :
    StartsFinal (Run.exec step (Room.fresh roomInfo) events)
      (Run.exec step (Room.fresh roomInfo) (events ++ [event])) event := by
  have hinit : EntriesComplete (Room.fresh roomInfo) := by
    intro hstep
    cases hstep
  have hinv : EntriesComplete (Run.exec step (Room.fresh roomInfo) events) :=
    Run.invariant (fun _ _ h ho => step_entriesComplete h ho) events _ hinit horderly.of_append
  rw [Run.exec_append, Run.exec_cons, Run.exec_nil]
  exact step_startsFinal hinv (Run.Along.last horderly)

instance (room : Room) (event : Event) : Decidable (Orderly room event) :=
  match event with
  | .choicePokerType .. => inferInstanceAs (Decidable (∀ user ∈ _, _ → _ ∧ (_ → _ ∨ _)))
  | .happydogggySequence .. => inferInstanceAs (Decidable (∀ user ∈ _, _ ∧ (_ → _)))
  | .tick _ => inferInstanceAs (Decidable (_ → ∀ entry ∈ _, ∀ found ∈ _, ∀ arr ∈ _, _))
  | .tryStand _ | .stand _ | .sit .. | .ready _ | .disconnect _ | .login .. => isTrue trivial

/-- A tick in a room for two, with the diamonds for the first seat and the clubs for the second. -/
def plainTick : Event :=
  .tick {
    robotDraw := fun _ => 2
    deck := cardsDecode ((List.range' 34 13 ++ List.range' 18 13).map Int.ofNat)
    checkSpecial := fun _ => (none, none)
    scoreTime := 0
    leavers := [] }

def dealtToTwo : List Event :=
  [.login 1 false, .login 2 false, .ready 1, .ready 2, plainTick, plainTick, plainTick, plainTick]

/-- Two straight flushes and a top row of singles, of the suit whose lowest code is given. -/
def twoStraights (low : Nat) : ChoiceMsg where
  ctype := some [9, 9, 1]
  arr := some ((List.range' low 13).map Int.ofNat)

def thirteenCards : RoomInfo where
  cardNum := 13

def bothSubmit : List Event :=
  dealtToTwo ++ [.choicePokerType 1 (twoStraights 18), .choicePokerType 2 (twoStraights 34)]

theorem comparison_startsFinal_bothSubmit :
    (Run.exec step (Room.fresh thirteenCards) (bothSubmit ++ [plainTick])).gameStep = .compare ∧
      StartsFinal (Run.exec step (Room.fresh thirteenCards) bothSubmit)
        (Run.exec step (Room.fresh thirteenCards) (bothSubmit ++ [plainTick])) plainTick :=
  ⟨by decide +kernel, comparison_startsFinal thirteenCards bothSubmit plainTick (by decide +kernel)⟩

/-- Both players only send `happydogggy_sequence`. -/
def bothSequence : List Event :=
  dealtToTwo ++ [.happydogggySequence 1 none, .happydogggySequence 2 none]

def lateChoice : Event := .choicePokerType 1 { ctype := some [1, 1, 1], arr := some [] }

/-- The two players who only sent `happydogggy_sequence` are compared with nothing submitted, and a
submission of no cards is recorded while hands are compared. -/
theorem comparison_not_startsFinal :
    ¬ StartsFinal (Run.exec step (Room.fresh thirteenCards) bothSequence)
        (Run.exec step (Room.fresh thirteenCards) (bothSequence ++ [plainTick])) plainTick ∧
      ¬ StartsFinal (Run.exec step (Room.fresh thirteenCards) (bothSequence ++ [plainTick]))
        (Run.exec step (Room.fresh thirteenCards) (bothSequence ++ [plainTick] ++ [lateChoice]))
        lateChoice := by
  have hempty : (Run.exec step (Room.fresh thirteenCards) (bothSequence ++ [plainTick])).entry 1 =
      some {} := by decide +kernel
  constructor
  · intro h
    obtain ⟨entry, hentry, hcomplete⟩ := h.complete (by decide +kernel) (by decide +kernel) 1
      (by decide +kernel)
    cases hempty.symm.trans hentry
    exact absurd hcomplete (by decide)
  · intro h
    have hfinal := h.final (by decide +kernel) rfl
    have hafter : (Run.exec step (Room.fresh thirteenCards)
        (bothSequence ++ [plainTick] ++ [lateChoice])).entry 1 =
          some { cType := some [1, 1, 1], cards := some [] } := by decide +kernel
    rw [Room.entry, hfinal] at hafter
    exact absurd (hempty.symm.trans hafter) (by decide)

end SdyServer.Daboluo
