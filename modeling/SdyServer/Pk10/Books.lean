import Mathlib.Algebra.Order.BigOperators.Group.List
import Mathlib.Algebra.Order.Ring.Int
import SdyServer.Pk10.Rounds

/-!
# The books of the bets

An accepted bet is written into five tables by hand: the totals of the doors, the players on each
door, the bets of each player, the details of each player and, with a banker, what may still be bet
on each door. The tables agree after any calls. A banker is covered as long as no bet takes the
total of its door below zero: amounts come from the client, and only the upper bound is checked.
-/

namespace SdyServer.Pk10

section Books

/-- An entry of `g.user_bet_door_details`. -/
structure DoorDetails where
  doorTotalBetValue : Int := 0
  doorInfoList : LuaTable Door Int := ∅

/-- The room with `g.user_bet_door_details`. -/
structure Books where
  room : Room
  userBetDoorDetails : Option (LuaTable Uid DoorDetails) := none

def addDoorDetails (details : LuaTable Uid DoorDetails) (uid : Uid) (door : Door) (betValue : Int) :
    LuaTable Uid DoorDetails :=
  let user := (details.get uid).getD {}
  details.set uid {
    doorTotalBetValue := user.doorTotalBetValue + betValue,
    doorInfoList := addTotal user.doorInfoList door betValue }

namespace Books

/-- `logic.beter_start`. -/
def beterStart (room : Room) : Books := { room := Pk10.beterStart room }

/-- `logic.beter` with the answer to its call. -/
def beter (books : Books) (bet : BetRequest × Answer) : Books :=
  match Pk10.beter books.room bet.1 with
  | (room, .call req) =>
      match beterAnswered room req bet.2, req.betType with
      | (room, .done), some door =>
          { room,
            userBetDoorDetails :=
              some (addDoorDetails (books.userBetDoorDetails.getD ∅) req.uid door req.betValue) }
      | (room, _), _ => { books with room }
  | (room, _) => { books with room }

variable (books : Books)

def totals : LuaTable Door Int := books.room.totalBetValueList.getD ∅

def doorData : BetDoorData := books.room.betDoorData.getD ∅

def betData : LuaTable Uid (List Bet) := books.room.betData.getD ∅

def details : LuaTable Uid DoorDetails := books.userBetDoorDetails.getD ∅

def total (door : Door) : Int := (books.totals.get door).getD 0

def betsOn (door : Door) (bets : List Bet) : Int :=
  ((bets.filter fun bet => bet.type = door).map Bet.value).sum

def seatCount : Nat := getSeatCount books.room.info.calculatedBits

def average : Int := ⌊books.room.bankerGameCoin / (books.seatCount - 1)⌋

/-- Some table has an entry for the door. -/
def Recorded (door : Door) : Prop :=
  door ∈ books.totals.keys ∨ door ∈ books.doorData.keys ∨
    (∃ uid bets, books.betData.get uid = some bets ∧ ∃ bet ∈ bets, bet.type = door) ∨
    ∃ uid user, books.details.get uid = some user ∧ door ∈ user.doorInfoList.keys

structure SumsAgree (door : Door) : Prop where
  people : books.total door = sumPeople ((books.doorData.get door).getD ∅)
  bets : books.total door = (books.betData.entries.map fun entry => betsOn door entry.2).sum
  details : books.total door =
    (books.details.entries.map fun entry => (entry.2.doorInfoList.get door).getD 0).sum

/-- What the books promise a banker. His loss is what `getResult` takes from him, whatever is
drawn. -/
structure Covers (banker : Uid) : Prop where
  surplus : ∀ i ∈ List.range' 1 books.seatCount, books.room.bankerSeat ≠ some (i : Door) →
    (books.room.bankerSurplusCoinList.bind fun list => list.get (i : Door)) =
        some (books.average - books.total i) ∧
      0 ≤ books.average - books.total i
  seat : ∀ seat, books.room.bankerSeat = some seat → ¬books.Recorded seat
  doors : ∀ door, books.Recorded door → ∃ i ∈ List.range' 1 books.seatCount, door = (i : Door)
  loss : ∀ kj, ∃ computed, { books.room with kjHao := .text kj }.computed = .ok computed ∧
    -changeOf computed.users banker ≤ books.room.bankerGameCoin

structure Agree : Prop where
  sums : ∀ door, books.SumsAgree door
  banker : ∀ banker, books.room.banker = some banker → books.Covers banker

/-- With a banker, a bet that is accepted does not take the total of its door below zero. -/
def KeepsAbove (bet : BetRequest × Answer) : Prop :=
  books.room.banker.isSome → (Pk10.beter books.room bet.1).2 = .call bet.1 → bet.2 = .ok →
    ∀ door, bet.1.betType = some door → 0 ≤ books.total door + bet.1.betValue

end Books

end Books

section Seat

/-- A banker's seat is one of the doors. -/
def Room.HasSeat (room : Room) : Prop :=
  room.banker.isSome →
    ∃ i ∈ List.range' 1 (getSeatCount room.info.calculatedBits), room.bankerSeat = some (i : Door)

structure SameSeat (room room' : Room) : Prop where
  info : room'.info = room.info
  seat : room'.banker = none ∨ room'.banker = room.banker ∧ room'.bankerSeat = room.bankerSeat

theorem SameSeat.refl (room : Room) : SameSeat room room := ⟨rfl, Or.inr ⟨rfl, rfl⟩⟩

theorem SameSeat.trans {room room' room'' : Room} (h : SameSeat room room')
    (h' : SameSeat room' room'') : SameSeat room room'' where
  info := h'.info.trans h.info
  seat := by
    obtain hnone | ⟨hbanker, hseat⟩ := h'.seat
    · exact Or.inl hnone
    · rw [hbanker, hseat]
      exact h.seat

theorem SameSeat.hasSeat {room room' : Room} (h : SameSeat room room') (hseat : room.HasSeat) :
    room'.HasSeat := by
  intro hbanker
  obtain hnone | ⟨hsame, hsameSeat⟩ := h.seat
  · rw [hnone] at hbanker
    cases hbanker
  · rw [h.info, hsameSeat]
    exact hseat (hsame ▸ hbanker)

theorem sameSeat_downBankerAnswered (room : Room) (answer : Answer) :
    SameSeat room (downBankerAnswered room answer) := by
  cases answer with
  | ok => exact ⟨rfl, Or.inl rfl⟩
  | b002 dec => exact SameSeat.refl room
  | error dec => exact SameSeat.refl room

theorem sameSeat_gameRoundOver (room : Room) : SameSeat room (gameRoundOver room) :=
  ⟨rfl, Or.inr ⟨rfl, rfl⟩⟩

theorem sameSeat_resultStored (room : Room) : SameSeat room (resultStored room).1 := by
  unfold resultStored
  cases room.banker with
  | none => exact sameSeat_gameRoundOver room
  | some banker =>
      dsimp only
      split_ifs
      · exact SameSeat.refl room
      · exact sameSeat_gameRoundOver room
      · exact SameSeat.refl room

theorem sameSeat_resultPaid (room : Room) : SameSeat room (resultPaid room).1 := by
  unfold resultPaid
  split_ifs
  · exact SameSeat.refl room
  · exact sameSeat_resultStored room

theorem sameSeat_resume (room : Room) (answer : Answer) (frame : Frame) :
    SameSeat room (resume room answer frame).1 := by
  cases frame with
  | down uid coin => exact sameSeat_downBankerAnswered room answer
  | result userAccts =>
      cases answer with
      | ok => exact sameSeat_resultPaid room
      | b002 dec => exact sameSeat_gameRoundOver room
      | error dec => exact sameSeat_gameRoundOver room
  | resultDown uid coin =>
      exact (sameSeat_downBankerAnswered room answer).trans (sameSeat_gameRoundOver _)

theorem sameSeat_downBankerCmd (room : Room) (uid : Uid) :
    SameSeat room (downBankerCmd room uid).1 := by
  unfold downBankerCmd
  split_ifs <;> exact SameSeat.refl room

theorem sameSeat_enter (room : Room) (status : GameStep) :
    SameSeat room (enter room status).1 := by
  unfold enter
  split_ifs
  · exact SameSeat.refl room
  · have hstep : SameSeat room { room with gameStep := status } := ⟨rfl, Or.inr ⟨rfl, rfl⟩⟩
    refine hstep.trans ?_
    unfold stepRun
    split
    · exact ⟨rfl, Or.inr ⟨rfl, rfl⟩⟩
    · split <;> exact SameSeat.refl _
    · unfold bipai
      split_ifs
      · exact SameSeat.refl _
      · split
        · exact ⟨rfl, Or.inr ⟨rfl, rfl⟩⟩
        · exact SameSeat.refl _
    · unfold result
      dsimp only
      split_ifs
      · exact ⟨rfl, Or.inr ⟨rfl, rfl⟩⟩
      · refine SameSeat.trans ?_ (sameSeat_resultPaid _)
        exact ⟨rfl, Or.inr ⟨rfl, rfl⟩⟩
      · exact ⟨rfl, Or.inr ⟨rfl, rfl⟩⟩
    · exact SameSeat.refl _

end Seat

section Beter

/-- What a call leaves to the account service. -/
theorem beter_cases (room : Room) (req : BetRequest) :
    ∃ next, Pk10.beter room req = ({ room with betData := some (room.betData.getD ∅) }, next) ∧
      ∀ req', next = .call req' → req' = req ∧ (room.banker.isSome →
        ∃ list door surplus, room.bankerSurplusCoinList = some list ∧ req.betType = some door ∧
          list.get door = some surplus ∧ req.betValue ≤ surplus) := by
  unfold Pk10.beter
  dsimp only
  split_ifs with hbanker hseat
  · refine ⟨_, rfl, fun req' h => ?_⟩
    cases h
    exact ⟨rfl, fun h => by simp [Option.isNone_iff_eq_none.mp hbanker] at h⟩
  · exact ⟨_, rfl, fun req' h => by cases h⟩
  · split
    next error herror => exact ⟨_, rfl, fun req' h => by cases h⟩
    next list surplus hsurplus =>
      split_ifs with hover
      · exact ⟨_, rfl, fun req' h => by cases h⟩
      · refine ⟨_, rfl, fun req' h => ?_⟩
        cases h
        obtain ⟨list', hlist, hrest⟩ := Lua.bind_eq_ok.mp hsurplus
        obtain ⟨surplus', hget, heq⟩ := Lua.bind_eq_ok.mp hrest
        cases heq
        have hsome := Lua.need_eq_ok.mp hget
        cases hdoor : req.betType with
        | none =>
            rw [hdoor] at hsome
            cases hsome
        | some door =>
            rw [hdoor] at hsome
            exact ⟨rfl,
              fun _ => ⟨list, door, surplus, Lua.need_eq_ok.mp hlist, rfl, hsome, by omega⟩⟩

/-- Once `beter` has let the bet through, nothing keeps it from being taken off the surplus. -/
theorem exists_reduceSurplus {room : Room} {req : BetRequest}
    (hcovered : room.banker.isSome → ∃ list door surplus, room.bankerSurplusCoinList = some list ∧
      req.betType = some door ∧ list.get door = some surplus ∧ req.betValue ≤ surplus) :
    ∃ kept, (∀ betData, reduceSurplus { room with betData } req =
        .ok { room with betData, bankerSurplusCoinList := kept }) ∧
      (room.banker = none → kept = room.bankerSurplusCoinList) ∧
      (room.banker.isSome → ∃ list door surplus, room.bankerSurplusCoinList = some list ∧
        req.betType = some door ∧ list.get door = some surplus ∧ req.betValue ≤ surplus ∧
        kept = some (list.set door (surplus - req.betValue))) := by
  by_cases hbanker : room.banker.isSome
  · obtain ⟨list, door, surplus, hlist, hdoor, hget, hle⟩ := hcovered hbanker
    refine ⟨some (list.set door (surplus - req.betValue)), fun betData => ?_,
      fun hnone => absurd hbanker (by simp [hnone]),
      fun _ => ⟨list, door, surplus, hlist, hdoor, hget, hle, rfl⟩⟩
    have hnot : ¬room.banker.isNone := by simpa using Option.isSome_iff_ne_none.mp hbanker
    have hsurplus : surplusOf { room with betData } req.betType = .ok (list, surplus) :=
      Lua.bind_eq_ok.mpr ⟨list, Lua.need_eq_ok.mpr hlist, Lua.bind_eq_ok.mpr
        ⟨surplus, Lua.need_eq_ok.mpr (by rw [hdoor]; exact hget), rfl⟩⟩
    rw [reduceSurplus, if_neg hnot, hsurplus, hdoor]
    rfl
  · refine ⟨room.bankerSurplusCoinList, fun betData => ?_, fun _ => rfl, fun h => absurd h hbanker⟩
    have hnone : room.banker.isNone := by simpa using hbanker
    simp only [reduceSurplus, if_pos hnone]
    rfl

namespace Books

/-- What no call changes. -/
structure SameBanker (room room' : Room) : Prop where
  info : room'.info = room.info
  banker : room'.banker = room.banker
  bankerSeat : room'.bankerSeat = room.bankerSeat
  bankerGameCoin : room'.bankerGameCoin = room.bankerGameCoin

/-- A call that is not accepted leaves at most an empty list of bets. -/
structure Rejected (books books' : Books) : Prop where
  same : SameBanker books.room books'.room
  surplus : books'.room.bankerSurplusCoinList = books.room.bankerSurplusCoinList
  totals : books'.totals = books.totals
  doorData : books'.doorData = books.doorData
  betData : books'.betData = books.betData ∨
    ∃ uid, books'.betData = books.betData.set uid ((books.betData.get uid).getD [])
  details : books'.details = books.details

structure Accepted (books : Books) (bet : BetRequest × Answer) (door : Door) (books' : Books) :
    Prop where
  call : (Pk10.beter books.room bet.1).2 = .call bet.1
  answer : bet.2 = .ok
  named : bet.1.betType = some door
  same : SameBanker books.room books'.room
  surplus : books.room.banker.isSome → ∃ list surplus,
    books.room.bankerSurplusCoinList = some list ∧ list.get door = some surplus ∧
      bet.1.betValue ≤ surplus ∧
      books'.room.bankerSurplusCoinList = some (list.set door (surplus - bet.1.betValue))
  totals : books'.totals = addTotal books.totals door bet.1.betValue
  doorData : books'.doorData = addDoorBet books.doorData door bet.1.uid bet.1.betValue
  betData : books'.betData = books.betData.set bet.1.uid
    ((books.betData.get bet.1.uid).getD [] ++ [⟨door, bet.1.betValue⟩])
  details : books'.details = addDoorDetails books.details bet.1.uid door bet.1.betValue

theorem rejected_kept (books : Books) :
    Rejected books { books with
      room := { books.room with betData := some (books.room.betData.getD ∅) } } :=
  ⟨⟨rfl, rfl, rfl, rfl⟩, rfl, rfl, rfl, Or.inl rfl, rfl⟩

theorem beter_spec (books : Books) (bet : BetRequest × Answer) :
    Rejected books (books.beter bet) ∨ ∃ door, Accepted books bet door (books.beter bet) := by
  obtain ⟨req, answer⟩ := bet
  obtain ⟨next, heq, hcall⟩ := beter_cases books.room req
  unfold beter
  dsimp only
  rw [heq]
  cases next with
  | done => exact Or.inl (rejected_kept books)
  | raised error => exact Or.inl (rejected_kept books)
  | refused text msgId => exact Or.inl (rejected_kept books)
  | call req' =>
      obtain ⟨rfl, hcovered⟩ := hcall req' rfl
      cases answer with
      | b002 dec => exact Or.inl (rejected_kept books)
      | error dec => exact Or.inl (rejected_kept books)
      | ok =>
          obtain ⟨kept, hreduce, hsame, hkept⟩ := exists_reduceSurplus hcovered
          simp only [beterAnswered, hreduce]
          cases hdoor : req'.betType with
          | none =>
              -- Only without a banker does a bet without a door come this far.
              have hnone : books.room.banker = none := by
                by_contra hbanker
                obtain ⟨-, door, -, -, hdoor', -⟩ := hkept (Option.isSome_iff_ne_none.mpr hbanker)
                cases hdoor.symm.trans hdoor'
              rw [hsame hnone]
              exact Or.inl ⟨⟨rfl, rfl, rfl, rfl⟩, rfl, rfl, rfl, Or.inr ⟨req'.uid, rfl⟩, rfl⟩
          | some door =>
              refine Or.inr
                ⟨door, by rw [heq], rfl, hdoor, ⟨rfl, rfl, rfl, rfl⟩, fun hbanker => ?_, rfl,
                rfl, ?_, rfl⟩
              · obtain ⟨list, door', surplus, hlist, hdoor', hget, hle, hkept⟩ := hkept hbanker
                rw [hdoor, Option.some_inj] at hdoor'
                subst hdoor'
                exact ⟨list, surplus, hlist, hget, hle, hkept⟩
              · simp only [betData, recordBet, LuaTable.set_set, LuaTable.get_set_self,
                  Option.getD_some]

end Books

end Beter

section Agreement

theorem getD_addTotal (totals : LuaTable Door Int) (door door' : Door) (betValue : Int) :
    ((addTotal totals door betValue).get door').getD 0 =
      (totals.get door').getD 0 + if door = door' then betValue else 0 := by
  rw [addTotal, LuaTable.get_set]
  split_ifs with h
  · rw [h, Option.getD_some]
  · rw [add_zero]

namespace Books

/-- The tables agree, and with a banker the surplus tells what may still be bet on a door. -/
structure Inv (books : Books) : Prop where
  synced : Synced books.doorData books.totals
  bets : ∀ door, books.total door =
    (books.betData.entries.map fun entry => betsOn door entry.2).sum
  details : ∀ door, books.total door =
    (books.details.entries.map fun entry => (entry.2.doorInfoList.get door).getD 0).sum
  seat : books.room.HasSeat
  surplus : books.room.banker.isSome → ∃ list, books.room.bankerSurplusCoinList = some list ∧
    (∀ door, list.get door =
      if (∃ i ∈ List.range' 1 books.seatCount, door = (i : Door)) ∧
        books.room.bankerSeat ≠ some door
      then some (books.average - books.total door) else none) ∧
    ∀ door, books.Recorded door → (list.get door).isSome

theorem betsOn_append (door door' : Door) (bets : List Bet) (betValue : Int) :
    betsOn door (bets ++ [⟨door', betValue⟩]) =
      betsOn door bets + if door' = door then betValue else 0 := by
  rw [betsOn, List.filter_append, List.map_append, List.sum_append, ← betsOn]
  split_ifs with h <;> simp [h]

theorem SameBanker.hasSeat {room room' : Room} (h : SameBanker room room') (hseat : room.HasSeat) :
    room'.HasSeat :=
  SameSeat.hasSeat ⟨h.info, Or.inr ⟨h.banker, h.bankerSeat⟩⟩ hseat

theorem SameBanker.seatCount {books books' : Books} (h : SameBanker books.room books'.room) :
    books'.seatCount = books.seatCount := by
  rw [Books.seatCount, h.info, Books.seatCount]

theorem SameBanker.average {books books' : Books} (h : SameBanker books.room books'.room) :
    books'.average = books.average := by
  rw [Books.average, h.bankerGameCoin, h.seatCount, Books.average]

theorem Rejected.recorded {books books' : Books} (h : Rejected books books') {door : Door}
    (hrecorded : books'.Recorded door) : books.Recorded door := by
  obtain hkey | hkey | ⟨uid, bets, hget, bet, hmem, htype⟩ | huser := hrecorded
  · exact Or.inl (h.totals ▸ hkey)
  · exact Or.inr (Or.inl (h.doorData ▸ hkey))
  · refine Or.inr (Or.inr (Or.inl ?_))
    obtain heq | ⟨uid', heq⟩ := h.betData
    · exact ⟨uid, bets, heq ▸ hget, bet, hmem, htype⟩
    · rw [heq, LuaTable.get_set] at hget
      split_ifs at hget with huid
      · rw [Option.some_inj] at hget
        cases hold : books.betData.get uid' with
        | none =>
            rw [hold, Option.getD_none] at hget
            rw [← hget] at hmem
            cases hmem
        | some old =>
            rw [hold, Option.getD_some] at hget
            exact ⟨uid', old, hold, bet, hget ▸ hmem, htype⟩
      · exact ⟨uid, bets, hget, bet, hmem, htype⟩
  · exact Or.inr (Or.inr (Or.inr (h.details ▸ huser)))

theorem Rejected.total {books books' : Books} (h : Rejected books books') (door : Door) :
    books'.total door = books.total door := by
  rw [Books.total, h.totals, Books.total]

theorem Rejected.inv {books books' : Books} (h : Rejected books books') (hinv : Inv books) :
    Inv books' := by
  refine ⟨?_, fun door => ?_, fun door => ?_, h.same.hasSeat hinv.seat, fun hbanker => ?_⟩
  · rw [h.doorData, h.totals]
    exact hinv.synced
  · rw [h.total, hinv.bets]
    obtain heq | ⟨uid, heq⟩ := h.betData
    · rw [heq]
    · have hsum :=
        LuaTable.sum_entries_update (fun entry => betsOn door entry.2) books.betData uid []
        id 0 rfl fun value => (add_zero _).symm
      rw [heq, ← add_zero (books.betData.entries.map _).sum, ← hsum]
      rfl
  · rw [h.total, h.details, hinv.details]
  · rw [h.same.banker] at hbanker
    obtain ⟨list, hlist, hget, hsome⟩ := hinv.surplus hbanker
    refine ⟨list, h.surplus.trans hlist, fun door => ?_,
      fun door hdoor => hsome door (h.recorded hdoor)⟩
    rw [h.same.seatCount, h.same.bankerSeat, h.same.average, h.total]
    exact hget door

theorem Accepted.recorded {books books' : Books} {bet : BetRequest × Answer} {door door' : Door}
    (h : Accepted books bet door books') (hrecorded : books'.Recorded door') :
    books.Recorded door' ∨ door' = door := by
  by_cases hsame : door' = door
  · exact Or.inr hsame
  refine Or.inl ?_
  obtain hkey | hkey | ⟨uid, bets, hget, bet', hmem, htype⟩ | ⟨uid, user, hget, hkey⟩ := hrecorded
  · rw [h.totals] at hkey
    exact Or.inl (((LuaTable.mem_keys_set ..).mp hkey).resolve_left hsame)
  · rw [h.doorData] at hkey
    exact Or.inr (Or.inl (((LuaTable.mem_keys_set ..).mp hkey).resolve_left hsame))
  · refine Or.inr (Or.inr (Or.inl ?_))
    rw [h.betData, LuaTable.get_set] at hget
    split_ifs at hget with huid
    · cases hget
      obtain hmem | hmem := List.mem_append.mp hmem
      · cases hold : books.betData.get bet.1.uid with
        | none =>
            rw [hold] at hmem
            cases hmem
        | some old =>
            rw [hold] at hmem
            exact ⟨_, old, hold, bet', hmem, htype⟩
      · rw [List.mem_singleton.mp hmem] at htype
        exact absurd htype.symm hsame
    · exact ⟨uid, bets, hget, bet', hmem, htype⟩
  · refine Or.inr (Or.inr (Or.inr ?_))
    rw [h.details, addDoorDetails, LuaTable.get_set] at hget
    split_ifs at hget with huid
    · cases hget
      have hkey := ((LuaTable.mem_keys_set ..).mp hkey).resolve_left hsame
      cases hold : books.details.get bet.1.uid with
      | none =>
          rw [hold] at hkey
          cases hkey
      | some old =>
          rw [hold] at hkey
          exact ⟨_, old, hold, hkey⟩
    · exact ⟨uid, user, hget, hkey⟩

theorem Accepted.total {books books' : Books} {bet : BetRequest × Answer} {door : Door}
    (h : Accepted books bet door books') (door' : Door) :
    books'.total door' = books.total door' + if door = door' then bet.1.betValue else 0 := by
  rw [Books.total, h.totals, getD_addTotal, Books.total]

theorem Accepted.inv {books books' : Books} {bet : BetRequest × Answer} {door : Door}
    (h : Accepted books bet door books') (hinv : Inv books) : Inv books' := by
  refine ⟨?_, fun door' => ?_, fun door' => ?_, h.same.hasSeat hinv.seat, fun hbanker => ?_⟩
  · rw [h.doorData, h.totals]
    exact addDoorBet_synced hinv.synced door bet.1.uid bet.1.betValue
  · rw [h.total, hinv.bets, h.betData]
    exact (LuaTable.sum_entries_update (fun entry => betsOn door' entry.2) books.betData
      bet.1.uid []
      (· ++ [⟨door, bet.1.betValue⟩]) _ rfl fun bets => betsOn_append door' door bets _).symm
  · rw [h.total, hinv.details, h.details]
    exact (LuaTable.sum_entries_update (fun entry => (entry.2.doorInfoList.get door').getD 0)
      books.details bet.1.uid {}
        (fun user => ⟨_, addTotal user.doorInfoList door bet.1.betValue⟩) _ rfl
      fun user => getD_addTotal user.doorInfoList door door' _).symm
  · rw [h.same.banker] at hbanker
    obtain ⟨list, hlist, hget, hsome⟩ := hinv.surplus hbanker
    obtain ⟨list', surplus, hlist', hsurplus, -, hafter⟩ := h.surplus hbanker
    rw [hlist, Option.some_inj] at hlist'
    subst hlist'
    refine ⟨_, hafter, fun door' => ?_, fun door' hdoor => ?_⟩
    · rw [h.same.seatCount, h.same.bankerSeat, h.same.average, h.total, LuaTable.get_set]
      by_cases hsame : door = door'
      · subst hsame
        rw [if_pos rfl, if_pos rfl]
        rw [hget] at hsurplus
        split_ifs at hsurplus ⊢
        · rw [Option.some_inj] at hsurplus ⊢
          omega
      · rw [if_neg hsame, if_neg hsame, add_zero]
        exact hget door'
    · rw [LuaTable.get_set]
      split_ifs with hsame
      · rfl
      · exact hsome door' ((h.recorded hdoor).resolve_right (Ne.symm hsame))

theorem Inv.beter {books : Books} (hinv : Inv books) (bet : BetRequest × Answer) :
    Inv (books.beter bet) := by
  obtain h | ⟨door, h⟩ := books.beter_spec bet
  · exact h.inv hinv
  · exact h.inv hinv

theorem get_getAverageBetValueList (calculatedBits : CalculatedBits) (bankerSeat : Option Door)
    (coin : ℚ) (door : Door) :
    (getAverageBetValueList calculatedBits bankerSeat coin).get door =
      if (∃ i ∈ List.range' 1 (getSeatCount calculatedBits), door = (i : Door)) ∧
          bankerSeat ≠ some door
      then some ⌊coin / (getSeatCount calculatedBits - 1)⌋ else none := by
  rw [getAverageBetValueList, LuaTable.get_ofKeys]
  refine if_congr ?_ rfl rfl
  simp only [List.mem_filter, List.mem_map, decide_eq_true_eq]
  refine and_congr ⟨?_, ?_⟩ ne_comm
  · rintro ⟨i, hi, rfl⟩
    exact ⟨i, hi, rfl⟩
  · rintro ⟨i, hi, rfl⟩
    exact ⟨i, hi, rfl⟩

theorem Inv.beterStart {room : Room} (hseat : room.HasSeat) : Inv (Books.beterStart room) where
  synced := fun _ => rfl
  bets := fun _ => rfl
  details := fun _ => rfl
  seat := hseat
  surplus := fun hbanker => by
    refine ⟨_, if_pos hbanker, fun door => ?_, fun door hdoor => ?_⟩
    · have htotal : (Books.beterStart room).total door = 0 := rfl
      rw [htotal, sub_zero]
      exact get_getAverageBetValueList ..
    · obtain hkey | hkey | ⟨uid, bets, hget, -⟩ | ⟨uid, user, hget, -⟩ := hdoor
      · cases hkey
      · cases hkey
      · cases hget
      · cases hget

/-- With a banker, every total is between nothing and what may be bet on the door. -/
def Bounded (books : Books) : Prop :=
  books.room.banker.isSome → ∀ door, 0 ≤ books.total door ∧ books.total door ≤ books.average

theorem bounded_beterStart {room : Room} (hcoin : room.banker.isSome → 0 ≤ room.bankerGameCoin) :
    (Books.beterStart room).Bounded := by
  intro hbanker door
  have hcount : (1 : ℚ) ≤ getSeatCount room.info.calculatedBits := by
    cases room.info.calculatedBits <;> decide
  exact ⟨le_refl 0, Int.floor_nonneg.mpr (div_nonneg (hcoin hbanker) (sub_nonneg.mpr hcount))⟩

theorem Inv.bounded_beter {books : Books} (hinv : Inv books) (hbounded : books.Bounded)
    {bet : BetRequest × Answer} (habove : books.KeepsAbove bet) : (books.beter bet).Bounded := by
  intro hbanker door'
  obtain h | ⟨door, h⟩ := books.beter_spec bet
  · rw [h.same.banker] at hbanker
    rw [h.total, h.same.average]
    exact hbounded hbanker door'
  · rw [h.same.banker] at hbanker
    rw [h.total, h.same.average]
    split_ifs with hsame
    · subst hsame
      obtain ⟨list, surplus, hlist, hsurplus, hle, -⟩ := h.surplus hbanker
      obtain ⟨list', hlist', hget, -⟩ := hinv.surplus hbanker
      rw [hlist, Option.some_inj] at hlist'
      subst hlist'
      rw [hget] at hsurplus
      split_ifs at hsurplus
      rw [Option.some_inj] at hsurplus
      exact ⟨habove hbanker h.call h.answer door h.named, by omega⟩
    · rw [add_zero]
      exact hbounded hbanker door'

end Books

end Agreement

section Loss

namespace Books

variable {books : Books}

/-- All doors but the banker's are played against him. -/
theorem length_others {round : Round} {i : Nat}
    (hi : i ∈ List.range' 1 (getSeatCount round.room.info.calculatedBits))
    (hseat : round.room.bankerSeat = some (i : Door)) :
    round.others.length = getSeatCount round.room.info.calculatedBits - 1 := by
  have hothers : round.others.map Info.door =
      ((List.range' 1 (getSeatCount round.room.info.calculatedBits)).erase i).map
        fun (j : Nat) => (j : Door) := by
    rw [List.Nodup.erase_eq_filter List.nodup_range', Round.others, Round.doors, doorInfos,
      List.filter_map, List.map_map, hseat]
    refine congrArg₂ _ rfl (List.filter_congr fun j _ => ?_)
    rw [Bool.eq_iff_iff]
    simp [doorInfo]
  rw [← List.length_map Info.door, hothers, List.length_map, List.length_erase_of_mem hi,
    List.length_range']

theorem sum_le_coin {seatCount : Nat} (hcount : 1 < seatCount) (coin : ℚ) :
    (((seatCount - 1 : Nat) * ⌊coin / (seatCount - 1)⌋ : Int) : ℚ) ≤ coin := by
  have hpos : (0 : ℚ) < (seatCount : ℚ) - 1 := by
    rw [sub_pos]
    exact_mod_cast hcount
  have hcast : (((seatCount - 1 : Nat) : Int) : ℚ) = (seatCount : ℚ) - 1 := by
    push_cast [Nat.cast_sub hcount.le]
    ring
  calc (((seatCount - 1 : Nat) * ⌊coin / (seatCount - 1)⌋ : Int) : ℚ)
      = (seatCount - 1) * ⌊coin / (seatCount - 1)⌋ := by rw [Int.cast_mul, hcast]
    _ ≤ (seatCount - 1) * (coin / (seatCount - 1)) :=
        mul_le_mul_of_nonneg_left (Int.floor_le _) hpos.le
    _ = coin := mul_div_cancel₀ coin hpos.ne'

theorem Inv.loss (hinv : Inv books) (hbounded : books.Bounded) {banker : Uid}
    (hbanker : books.room.banker = some banker) (kj : Draw) :
    ∃ computed, { books.room with kjHao := .text kj }.computed = .ok computed ∧
      -changeOf computed.users banker ≤ books.room.bankerGameCoin := by
  have hsome : books.room.banker.isSome := by rw [hbanker]; rfl
  obtain ⟨i, hi, hseat⟩ := hinv.seat hsome
  let round : Round := ⟨{ books.room with kjHao := .text kj }, kj, rfl, hinv.synced⟩
  have hseated : round.room.seated := fun seat h =>
    ⟨hsome, i, hi, Option.some_inj.mp (h.symm.trans hseat)⟩
  obtain ⟨computed, hcomputed⟩ := @exists_computed round.room kj rfl hinv.synced hseated
    (Or.inl (by rw [show round.room.bankerSeat = _ from hseat]; rfl))
  refine ⟨computed, hcomputed, ?_⟩
  obtain ⟨result, hresult, rfl⟩ := round.exists_outcome hcomputed
  obtain ⟨bankerInfo, hinfo⟩ : ∃ bankerInfo, round.bankerInfo = some bankerInfo := by
    rw [← Option.isSome_iff_exists, Round.bankerInfo, List.find?_isSome]
    exact ⟨_, List.mem_map_of_mem hi, by simp [round, hseat, doorInfo]⟩
  rw [hinfo, show round.room.banker = _ from hbanker] at hresult
  cases hresult
  have hchange : changeOf ((bankerOutcome (round.room.betDoorData.getD ∅) round.tmp bankerInfo
      banker).fill (getSeatCount round.room.info.calculatedBits)).users banker =
        -((round.tmp.map (bankerDoorChange bankerInfo)).sum : Int) :=
    changeOf_bankerOutcome_banker ..
  rw [hchange, neg_neg]
  -- Each door takes at most the average from the banker, as its total is not below zero.
  have hdoor : ∀ change ∈ round.tmp.map (bankerDoorChange bankerInfo), change ≤ books.average := by
    rw [List.forall_mem_map]
    intro info hmem
    have htotal := totalBet_of_mem_doorInfos
      (List.mem_of_mem_filter (round.tmp_perm.mem_iff.mp hmem))
    obtain ⟨hlow, hhigh⟩ := hbounded hsome info.door
    have heq : info.totalBet.getD 0 = books.total info.door := congrArg (·.getD 0) htotal
    rw [bankerDoorChange, heq]
    split_ifs
    · omega
    · exact hhigh
  have hsum := List.sum_le_card_nsmul _ _ hdoor
  rw [List.length_map, round.tmp_perm.length_eq, length_others hi hseat, nsmul_eq_mul] at hsum
  have hcount : 1 < getSeatCount books.room.info.calculatedBits := by
    cases books.room.info.calculatedBits <;> decide
  calc (((round.tmp.map (bankerDoorChange bankerInfo)).sum : Int) : ℚ)
      ≤ (((books.seatCount - 1 : Nat) * books.average : Int) : ℚ) := by exact_mod_cast hsum
    _ ≤ books.room.bankerGameCoin := sum_le_coin hcount _

theorem Inv.agree (hinv : Inv books) (hbounded : books.Bounded) : books.Agree where
  sums := fun door => by
    refine ⟨?_, hinv.bets door, hinv.details door⟩
    rw [total, hinv.synced door]
    cases books.doorData.get door <;> rfl
  banker := fun banker hbanker => by
    have hsome : books.room.banker.isSome := by rw [hbanker]; rfl
    obtain ⟨list, hlist, hget, hrecorded⟩ := hinv.surplus hsome
    have hplayed : ∀ door, books.Recorded door →
        (∃ i ∈ List.range' 1 books.seatCount, door = (i : Door)) ∧
          books.room.bankerSeat ≠ some door := by
      intro door hdoor
      by_contra hnot
      have hsome := hrecorded door hdoor
      rw [hget, if_neg hnot] at hsome
      cases hsome
    refine ⟨fun i hi hseat => ?_, fun seat hseat hdoor => (hplayed seat hdoor).2 hseat,
      fun door hdoor => (hplayed door hdoor).1, hinv.loss hbounded hbanker⟩
    rw [hlist, Option.bind_some, hget, if_pos ⟨⟨i, hi, rfl⟩, hseat⟩]
    have hle := (hbounded hsome i).2
    exact ⟨rfl, by omega⟩

end Books

end Loss

section Main

theorem sameSeat_startJob (room : Room) (job : Job) : SameSeat room (startJob room job).1 := by
  cases job with
  | rob uid coin => exact SameSeat.refl room
  | bet req round =>
      obtain ⟨next, heq, -⟩ := beter_cases room req
      simp only [startJob, heq]
      split_ifs
      · exact SameSeat.refl room
      · exact ⟨rfl, Or.inr ⟨rfl, rfl⟩⟩

theorem hasSeat_robBankerAnswered {room : Room} (hseat : room.HasSeat) (uid : Uid) (coin : ℚ)
    (saizi : Nat × Nat) (answer : Answer) :
    (robBankerAnswered room uid coin saizi answer).HasSeat := by
  cases answer with
  | ok =>
      intro _
      obtain ⟨i, hi, hbanker⟩ := exists_getBankerSeat room.info.calculatedBits saizi
      exact ⟨i, hi, congrArg some hbanker⟩
  | b002 dec => exact hseat
  | error dec => exact hseat

theorem sameSeat_beterAnswered (room : Room) (req : BetRequest) (answer : Answer) :
    SameSeat room (beterAnswered room req answer).1 := by
  cases answer with
  | b002 dec => exact SameSeat.refl room
  | error dec => exact SameSeat.refl room
  | ok =>
      simp only [beterAnswered]
      split
      · exact SameSeat.refl room
      next betData _ =>
        split
        · exact ⟨rfl, Or.inr ⟨rfl, rfl⟩⟩
        next kept hreduce =>
          have hkept : SameSeat room kept := by
            unfold reduceSurplus at hreduce
            split_ifs at hreduce
            · cases hreduce
              exact ⟨rfl, Or.inr ⟨rfl, rfl⟩⟩
            · obtain ⟨⟨list, surplus⟩, -, hreduce⟩ := Lua.bind_eq_ok.mp hreduce
              obtain ⟨door, -, hreduce⟩ := Lua.bind_eq_ok.mp hreduce
              cases hreduce
              exact ⟨rfl, Or.inr ⟨rfl, rfl⟩⟩
          split
          · exact hkept.trans ⟨rfl, Or.inr ⟨rfl, rfl⟩⟩
          · exact hkept.trans ⟨rfl, Or.inr ⟨rfl, rfl⟩⟩

theorem World.hasSeat_start {world : World} (hseat : world.room.HasSeat) (job : Job) :
    (world.start job).room.HasSeat :=
  (sameSeat_startJob world.room job).hasSeat hseat

theorem World.hasSeat_enqueue {world : World} (hseat : world.room.HasSeat) (job : Job) :
    (world.enqueue job).room.HasSeat := by
  unfold World.enqueue
  split_ifs
  · exact hseat
  · exact World.hasSeat_start hseat job

theorem hasSeat_step {world : World} (hseat : world.room.HasSeat) (event : Event) :
    (step world event).room.HasSeat := by
  cases event with
  | poll cj =>
      have h : SameSeat world.room (updateCjData world.room cj) := by
        unfold updateCjData updateCjAnswered
        cases cj.data with
        | none => split_ifs <;> exact ⟨rfl, Or.inr ⟨rfl, rfl⟩⟩
        | some data => split_ifs <;> exact ⟨rfl, Or.inr ⟨rfl, rfl⟩⟩
      exact h.hasSeat hseat
  | enter round status => exact (sameSeat_enter world.room status).hasSeat hseat
  | reconn status number => exact hseat
  | robBanker uid coin =>
      simp only [step]
      split_ifs
      · exact World.hasSeat_enqueue hseat _
      · exact hseat
  | downBanker uid => exact (sameSeat_downBankerCmd world.room uid).hasSeat hseat
  | betting uid betType betValue =>
      simp only [step]
      split
      · exact hseat
      · exact World.hasSeat_enqueue hseat _
  | dequeue =>
      simp only [step]
      split
      · exact World.hasSeat_start hseat _
      · exact hseat
  | resumeJob answer saizi =>
      simp only [step]
      split
      · exact hseat
      next job _ =>
        cases job with
        | rob uid coin => cases answer <;> exact hasSeat_robBankerAnswered hseat uid coin saizi _
        | bet req round =>
            have h := (sameSeat_beterAnswered world.room req answer).hasSeat hseat
            cases answer <;> exact h
  | resume index answer =>
      simp only [step]
      split
      · exact hseat
      next frame _ =>
        have h := (sameSeat_resume world.room answer frame).hasSeat hseat
        cases answer <;> exact h
  | setOffline uid isOffline => exact hseat

/-- **The books of the bets agree**, and cover the banker, after any calls from the start of a round
whose banker has coins, as long as no bet takes the total of its door below zero. -/
theorem beter_agree (info : RoomInfo) (events : List Event) (bets : List (BetRequest × Answer))
    (hcoin : (Run.exec step (World.fresh info) events).room.banker.isSome →
      0 ≤ (Run.exec step (World.fresh info) events).room.bankerGameCoin)
    (habove : Run.Along Books.beter Books.KeepsAbove
      (Books.beterStart (Run.exec step (World.fresh info) events).room) bets) :
    (Run.exec Books.beter
      (Books.beterStart (Run.exec step (World.fresh info) events).room) bets).Agree := by
  have hseat : (Run.exec step (World.fresh info) events).room.HasSeat := by
    refine @Run.invariant _ _ step (fun _ _ => True) (fun world => world.room.HasSeat)
      (fun world event hseat _ => hasSeat_step hseat event) events (World.fresh info) ?_
      (Run.Along.of_forall (fun _ _ => trivial) ..)
    intro h
    cases h
  have hinv := Run.invariant
    (fun (books : Books) bet (h : books.Inv ∧ books.Bounded) (hcond : books.KeepsAbove bet) =>
      ⟨h.1.beter bet, h.1.bounded_beter h.2 hcond⟩) bets _
    ⟨Books.Inv.beterStart hseat, Books.bounded_beterStart hcoin⟩ habove
  exact hinv.1.agree hinv.2

/-- A banker with ten thousand coins on the second of two doors. -/
def bankerSeated : List Event := [.robBanker 9 10000, .resumeJob .ok (1, 1)]

/-- The third bet is refused: nothing more may be bet on the door. -/
def fullDoor : List (BetRequest × Answer) :=
  [(⟨7, some 1, 6000, false⟩, .ok), (⟨8, some 1, 4000, true⟩, .ok), (⟨8, some 1, 1, false⟩, .ok)]

theorem beter_agree_fullDoor :
    (Run.exec Books.beter
      (Books.beterStart (Run.exec step (World.fresh {}) bankerSeated).room) fullDoor).Agree := by
  refine beter_agree {} bankerSeated fullDoor (by decide +kernel)
    ⟨fun _ _ _ door hdoor => ?_, fun _ _ _ door hdoor => ?_, fun _ _ _ door hdoor => ?_, trivial⟩
  · cases hdoor
    decide +kernel
  · cases hdoor
    decide +kernel
  · cases hdoor
    decide +kernel

/-- A bet of minus twenty thousand coins is within the bound, and costs the banker twice what he has
when his door beats it. -/
theorem beter_not_agree : ¬∀ info events bets, (Run.exec Books.beter
    (Books.beterStart (Run.exec step (World.fresh info) events).room) bets).Agree := by
  intro hall
  have hagree := hall {} bankerSeated [(⟨7, some 1, -20000, false⟩, .ok)]
  obtain ⟨computed, hcomputed, hloss⟩ := (hagree.banker 9 (by decide +kernel)).loss firstDraw
  rw [show
    (Run.exec Books.beter (Books.beterStart (Run.exec step (World.fresh {}) bankerSeated).room)
    [(⟨7, some 1, -20000, false⟩, .ok)]).room.bankerGameCoin = 10000 by decide +kernel] at hloss
  have hchange : ({ (Run.exec Books.beter
      (Books.beterStart (Run.exec step (World.fresh {}) bankerSeated).room)
      [(⟨7, some 1, -20000, false⟩, .ok)]).room with kjHao := .text firstDraw }.computed.map
        fun (result : Result) => changeOf result.users 9) = .ok (-20000) := by decide +kernel
  rw [hcomputed] at hchange
  have hpaid : changeOf computed.users 9 = -20000 := Except.ok.inj hchange
  rw [hpaid] at hloss
  norm_num at hloss

end Main

end SdyServer.Pk10
