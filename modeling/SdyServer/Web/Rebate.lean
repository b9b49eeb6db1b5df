import Mathlib.Data.List.Sort
import SdyServer.Lib.LuaTable
import SdyServer.Lib.Run
import SdyServer.User.Booking

/-!
# The daily rebate

A timer asks for the rebates of the last day to be returned: at most ten rows that are not returned
yet are read, and each is paid by the owner of its room. A paid row is then marked by its room and
its player alone, so that the rows of other days are marked with it.

The amount and the rate are the doubles that are read, and their product is one too.
-/

namespace SdyServer.Web

open Rounding (double)

abbrev RoomId := Nat

/-- The columns of `t_ct_hb_daily_rebate` that a return leaves alone. -/
structure Rebate where
  id : Nat
  roomId : RoomId
  uid : CustNo
  time : Int
  totalAmount : ℚ
  rateValue : ℚ
deriving DecidableEq

namespace Rebate

/-- `string.format("%0.2f", v.total_amount * v.rate_value)`. -/
def value (rebate : Rebate) : ℚ := round2 (double (rebate.totalAmount * rebate.rateValue))

def userAccts (rebate : Rebate) (gameOwner : CustNo) : List UserAcct :=
  [⟨some .defray, rebate.value, some gameOwner⟩, ⟨some .profit, rebate.value, some rebate.uid⟩]

structure Row extends Rebate where
  rebateValue : ℚ
  isReturn : Int
deriving DecidableEq

/-- The rows; `id` is the primary key. -/
structure Table where
  rows : List Row
  nodup : (rows.map fun row => row.id).Nodup

/-- What `get_game_room_status` brings. Its own error text is put together with a nil when the
service cannot be read, which raises. -/
inductive Status where
  | ok (gameOwner : CustNo)
  | error
  | raised
deriving DecidableEq, Repr

/-- One run of `request_return_daily_rebate`: its time and the noon of its day, the order in which
rows of one time are read, and the answers at each row's turn. -/
structure Request where
  now : Int
  noon : Int
  rank : Nat → Nat
  status : Nat → Status
  answer : Nat → Answer

structure Payment where
  id : Nat
  userAccts : List UserAcct
deriving DecidableEq

/-- `before` are the rows that were returned before the first run, `log` what has been paid
since. -/
structure State where
  table : Table
  before : List Nat := []
  log : List Payment := []

section Model

/-- `startTime` and `endTime`: before noon, the day before the last. -/
def Request.window (request : Request) : Int × Int :=
  let endTime := if request.noon > request.now then request.noon - 86400 else request.noon
  (endTime - 86400, endTime)

def Request.listed (request : Request) (row : Row) : Bool :=
  row.isReturn = 0 ∧ request.window.1 < row.time ∧ row.time ≤ request.window.2

def Request.earlier (request : Request) (a b : Row) : Prop :=
  a.time < b.time ∨ a.time = b.time ∧ request.rank a.id ≤ request.rank b.id

instance (request : Request) : DecidableRel request.earlier := fun _ _ => instDecidableOr

/-- `request_return_daily_rebate_list`. -/
def Table.returnList (table : Table) (request : Request) : List Row :=
  ((table.rows.filter request.listed).insertionSort request.earlier).take 10

def Row.update (roomId : RoomId) (uid : CustNo) (rebateValue : ℚ) (isReturn : Int) (row : Row) :
    Row :=
  if row.roomId = roomId ∧ row.uid = uid then { row with rebateValue, isReturn } else row

theorem Row.toRebate_update (roomId : RoomId) (uid : CustNo) (rebateValue : ℚ) (isReturn : Int)
    (row : Row) : (row.update roomId uid rebateValue isReturn).toRebate = row.toRebate := by
  unfold Row.update
  split_ifs <;> rfl

/-- `update_daily_rebate`. -/
def Table.updateDailyRebate (table : Table) (roomId : RoomId) (uid : CustNo) (rebateValue : ℚ)
    (isReturn : Int) : Table where
  rows := table.rows.map (Row.update roomId uid rebateValue isReturn)
  nodup := by
    have hid : (fun row : Row => (row.update roomId uid rebateValue isReturn).id) =
        fun row => row.id :=
      funext fun row => congrArg Rebate.id (row.toRebate_update ..)
    rw [List.map_map]
    exact (congrArg (fun f => (table.rows.map f).Nodup) hid).mpr table.nodup

def State.paid (state : State) (row : Row) (gameOwner : CustNo) : State :=
  { state with
    table := state.table.updateDailyRebate row.roomId row.uid row.value 1,
    log := state.log ++ [⟨row.id, row.userAccts gameOwner⟩] }

def State.pay (state : State) (request : Request) (row : Row) (gameOwner : CustNo) : State :=
  match request.answer row.id with
  | .ok => state.paid row gameOwner
  | _ => state

/-- The loop over the rows that were read. `arrRoomInfo` keeps the rooms that are known. -/
def State.returnRows (request : Request) : LuaTable RoomId CustNo → State → List Row → State
  | _, state, [] => state
  | arrRoomInfo, state, row :: rows =>
      match arrRoomInfo.get row.roomId with
      | some gameOwner => returnRows request arrRoomInfo (state.pay request row gameOwner) rows
      | none =>
          match request.status row.id with
          | .ok gameOwner =>
              returnRows request (arrRoomInfo.set row.roomId gameOwner)
                (state.pay request row gameOwner) rows
          | .error => returnRows request arrRoomInfo state rows
          | .raised => state

/-- `request_return_daily_rebate`. -/
def State.requestReturnDailyRebate (state : State) (request : Request) : State :=
  state.returnRows request ∅ (state.table.returnList request)

/-- The rows that are returned at the start have been paid once. -/
def State.start (table : Table) : State where
  table := table
  before := (table.rows.filter fun row => row.isReturn = 1).map fun row => row.id

end Model

section Statement

def State.timesPaid (state : State) (id : Nat) : Nat :=
  (state.before ++ state.log.map Payment.id).count id

/-- Entries that move `total_amount * rate_value` from an owner to the player of the row: the same
whole number of cents is taken and given, and it is a nearest one but for the error of a double. -/
def PaidBy (rebate : Rebate) (userAccts : List UserAcct) : Prop :=
  ∃ gameOwner, ∃ coin ∈ wholeCents,
    userAccts = [⟨some .defray, coin, some gameOwner⟩, ⟨some .profit, coin, some rebate.uid⟩] ∧
      |coin - rebate.totalAmount * rebate.rateValue| ≤
        1 / 200 + |rebate.totalAmount * rebate.rateValue| / 2 ^ 53

/-- A row is marked as returned when it has been paid once, and each payment moves the rebate of its
own row, to the player of that row. -/
structure State.Settled (state : State) : Prop where
  marked : ∀ row ∈ state.table.rows, row.isReturn = 1 ↔ state.timesPaid row.id = 1
  rebate : ∀ payment ∈ state.log, ∃ row ∈ state.table.rows,
    payment.id = row.id ∧ row.PaidBy payment.userAccts

/-- The rows whose room is known when their turn comes, with the owner of the room. -/
def Request.attended (request : Request) : LuaTable RoomId CustNo → List Row → List (Row × CustNo)
  | _, [] => []
  | arrRoomInfo, row :: rows =>
      match arrRoomInfo.get row.roomId with
      | some gameOwner => (row, gameOwner) :: attended request arrRoomInfo rows
      | none =>
          match request.status row.id with
          | .ok gameOwner =>
              (row, gameOwner) :: attended request (arrRoomInfo.set row.roomId gameOwner) rows
          | .error => attended request arrRoomInfo rows
          | .raised => []

/-- The rows that are read, whose room is known and whose payment the service accepts. -/
def State.served (state : State) (request : Request) : List (Row × CustNo) :=
  (request.attended ∅ (state.table.returnList request)).filter fun entry =>
    request.answer entry.1.id = .ok

/-- With a row that is served, all rows of its room and its player that are not returned are
served. -/
def State.ServesTogether (state : State) (request : Request) : Prop :=
  ∀ entry ∈ state.served request, ∀ row ∈ state.table.rows, row.isReturn ≠ 1 →
    row.roomId = entry.1.roomId → row.uid = entry.1.uid →
      row ∈ (state.served request).map Prod.fst

end Statement

section Step

theorem returnRows_eq (request : Request) (arrRoomInfo : LuaTable RoomId CustNo) (state : State)
    (rows : List Row) :
    State.returnRows request arrRoomInfo state rows =
      (request.attended arrRoomInfo rows).foldl
        (fun state entry => state.pay request entry.1 entry.2) state := by
  induction rows generalizing arrRoomInfo state with
  | nil => rfl
  | cons row rows ih =>
      unfold State.returnRows Request.attended
      cases arrRoomInfo.get row.roomId with
      | some gameOwner => exact ih ..
      | none =>
          cases request.status row.id with
          | ok gameOwner => exact ih ..
          | error => exact ih ..
          | raised => rfl

/-- A run pays the rows that are served, one after the other. -/
theorem requestReturn_eq (state : State) (request : Request) :
    state.requestReturnDailyRebate request =
      (state.served request).foldl (fun state entry => state.paid entry.1 entry.2) state := by
  rw [State.requestReturnDailyRebate, returnRows_eq, State.served, List.foldl_filter]
  refine congrArg (fun f => List.foldl f state _) (funext fun state => funext fun entry => ?_)
  unfold State.pay
  cases request.answer entry.1.id <;> simp

theorem attended_sublist (request : Request) (arrRoomInfo : LuaTable RoomId CustNo)
    (rows : List Row) :
    ((request.attended arrRoomInfo rows).map Prod.fst).Sublist rows := by
  induction rows generalizing arrRoomInfo with
  | nil => exact List.Sublist.slnil
  | cons row rows ih =>
      unfold Request.attended
      cases arrRoomInfo.get row.roomId with
      | some gameOwner => exact (ih arrRoomInfo).cons_cons row
      | none =>
          cases request.status row.id with
          | ok gameOwner => exact (ih _).cons_cons row
          | error => exact (ih arrRoomInfo).cons row
          | raised => exact List.nil_sublist _

theorem served_sublist (state : State) (request : Request) :
    ((state.served request).map Prod.fst).Sublist (state.table.returnList request) :=
  (List.filter_sublist.map _).trans (attended_sublist ..)

theorem mem_returnList {table : Table} {request : Request} {row : Row}
    (hrow : row ∈ table.returnList request) : row ∈ table.rows ∧ row.isReturn = 0 := by
  have hmem := (List.mem_insertionSort _).mp (List.mem_of_mem_take hrow)
  rw [List.mem_filter, Request.listed] at hmem
  exact ⟨hmem.1, (of_decide_eq_true hmem.2).1⟩

theorem nodup_served (state : State) (request : Request) :
    (((state.served request).map Prod.fst).map fun row => row.id).Nodup := by
  refine List.Nodup.sublist ((served_sublist state request).map _) ?_
  have hperm := ((state.table.rows.filter request.listed).perm_insertionSort
    request.earlier).map fun row => row.id
  refine List.Nodup.sublist ((List.take_sublist _ _).map _) (hperm.nodup_iff.mpr ?_)
  exact List.Nodup.sublist (List.filter_sublist.map _) state.table.nodup

/-- A row after the updates of the rows that were paid. -/
def Row.marked (entries : List (Row × CustNo)) (row : Row) : Row :=
  entries.foldl (fun row entry => row.update entry.1.roomId entry.1.uid entry.1.value 1) row

theorem Row.toRebate_marked (entries : List (Row × CustNo)) (row : Row) :
    (row.marked entries).toRebate = row.toRebate := by
  induction entries generalizing row with
  | nil => rfl
  | cons entry entries ih => exact (ih _).trans (row.toRebate_update ..)

theorem Row.isReturn_marked (entries : List (Row × CustNo)) (row : Row) :
    (row.marked entries).isReturn =
      if ∃ entry ∈ entries, row.roomId = entry.1.roomId ∧ row.uid = entry.1.uid then 1
      else row.isReturn := by
  induction entries generalizing row with
  | nil => simp [Row.marked]
  | cons entry entries ih =>
      have hrebate := row.toRebate_update entry.1.roomId entry.1.uid entry.1.value 1
      have hroom := congrArg Rebate.roomId hrebate
      have huid := congrArg Rebate.uid hrebate
      have hstep : row.marked (entry :: entries) =
          (row.update entry.1.roomId entry.1.uid entry.1.value 1).marked entries := rfl
      rw [hstep, ih, hroom, huid]
      simp only [List.exists_mem_cons_iff]
      by_cases hsame : row.roomId = entry.1.roomId ∧ row.uid = entry.1.uid
      · simp [Row.update, hsame]
      · rw [Row.update, if_neg hsame]
        exact if_congr (or_iff_right hsame).symm rfl rfl

theorem foldl_paid (entries : List (Row × CustNo)) (state : State) :
    (entries.foldl (fun state entry => state.paid entry.1 entry.2) state).before = state.before ∧
      (entries.foldl (fun state entry => state.paid entry.1 entry.2) state).log =
        state.log ++ entries.map (fun entry => ⟨entry.1.id, entry.1.userAccts entry.2⟩) ∧
      (entries.foldl (fun state entry => state.paid entry.1 entry.2) state).table.rows =
        state.table.rows.map (Row.marked entries) := by
  induction entries generalizing state with
  | nil => exact ⟨rfl, (List.append_nil _).symm, (List.map_id _).symm⟩
  | cons entry entries ih =>
      obtain ⟨hbefore, hlog, hrows⟩ := ih (state.paid entry.1 entry.2)
      refine ⟨hbefore, ?_, ?_⟩
      · rw [List.foldl_cons, hlog, State.paid, List.append_assoc]
        rfl
      · rw [List.foldl_cons, hrows, State.paid, Table.updateDailyRebate, List.map_map]
        rfl

end Step

section Invariant

/-- No row is paid twice, and what has been paid is marked. -/
structure Inv (state : State) : Prop where
  once : ∀ row ∈ state.table.rows, state.timesPaid row.id ≤ 1
  marked : ∀ row ∈ state.table.rows, state.timesPaid row.id ≠ 0 → row.isReturn = 1
  rebate : ∀ payment ∈ state.log, ∃ row ∈ state.table.rows, ∃ gameOwner,
    payment = ⟨row.id, row.userAccts gameOwner⟩

theorem paidBy_userAccts (rebate : Rebate) (gameOwner : CustNo) :
    rebate.PaidBy (rebate.userAccts gameOwner) := by
  refine ⟨gameOwner, rebate.value, round2_mem _, rfl, ?_⟩
  have hcents := abs_round2_sub_le (double (rebate.totalAmount * rebate.rateValue))
  have hdouble := Rounding.abs_double_sub_le (rebate.totalAmount * rebate.rateValue)
  have htri := abs_sub_le rebate.value (double (rebate.totalAmount * rebate.rateValue))
    (rebate.totalAmount * rebate.rateValue)
  change |rebate.value - _| ≤ _ at hcents
  linarith

variable {state : State} (request : Request)

theorem Inv.settled_rebate (hinv : Inv state) : ∀ payment ∈ state.log, ∃ row ∈ state.table.rows,
    payment.id = row.id ∧ row.PaidBy payment.userAccts := by
  intro payment hpayment
  obtain ⟨row, hrow, gameOwner, rfl⟩ := hinv.rebate payment hpayment
  exact ⟨row, hrow, rfl, row.paidBy_userAccts gameOwner⟩

theorem mem_served {entry : Row × CustNo} (hentry : entry ∈ state.served request) :
    entry.1 ∈ state.table.rows ∧ entry.1.isReturn = 0 :=
  mem_returnList ((served_sublist state request).subset (List.mem_map_of_mem hentry))

/-- A row is known by its key. -/
theorem Table.eq_of_id {table : Table} {row row' : Row} (hrow : row ∈ table.rows)
    (hrow' : row' ∈ table.rows) (hid : row.id = row'.id) : row = row' :=
  List.inj_on_of_nodup_map table.nodup hrow hrow' hid

theorem mem_rows_requestReturn {row' : Row}
    (hrow' : row' ∈ (state.requestReturnDailyRebate request).table.rows) :
    ∃ row ∈ state.table.rows, row.marked (state.served request) = row' := by
  rw [requestReturn_eq, (foldl_paid ..).2.2] at hrow'
  exact List.mem_map.mp hrow'

/-- A run adds one payment for each row that is served. -/
theorem timesPaid_requestReturn {row : Row} (hrow : row ∈ state.table.rows) :
    (state.requestReturnDailyRebate request).timesPaid row.id =
      state.timesPaid row.id + if row ∈ (state.served request).map Prod.fst then 1 else 0 := by
  obtain ⟨hbefore, hlog, -⟩ := foldl_paid (state.served request) state
  rw [State.timesPaid, requestReturn_eq, hbefore, hlog, List.map_append, List.map_map,
    ← List.append_assoc, List.count_append, ← State.timesPaid]
  have hids : (state.served request).map (Payment.id ∘ fun entry =>
      ⟨entry.1.id, entry.1.userAccts entry.2⟩) =
        ((state.served request).map Prod.fst).map fun row => row.id := by
    rw [List.map_map]
    rfl
  rw [hids, (nodup_served state request).count]
  refine congrArg _ (if_congr ⟨fun hid => ?_, fun hmem => List.mem_map_of_mem hmem⟩ rfl rfl)
  obtain ⟨other, hother, hid⟩ := List.mem_map.mp hid
  obtain ⟨entry, hentry, rfl⟩ := List.mem_map.mp hother
  rw [← Table.eq_of_id (mem_served request hentry).1 hrow hid]
  exact hother

theorem Inv.requestReturn (hinv : Inv state) : Inv (state.requestReturnDailyRebate request) where
  once := fun row' hrow' => by
    obtain ⟨row, hrow, rfl⟩ := mem_rows_requestReturn request hrow'
    rw [row.toRebate_marked, timesPaid_requestReturn request hrow]
    split_ifs with hserved
    · obtain ⟨entry, hentry, rfl⟩ := List.mem_map.mp hserved
      have hzero : state.timesPaid entry.1.id = 0 := by
        by_contra hpaid
        have hmarked := hinv.marked entry.1 hrow hpaid
        rw [(mem_served request hentry).2] at hmarked
        cases hmarked
      omega
    · exact hinv.once row hrow
  marked := fun row' hrow' hpaid => by
    obtain ⟨row, hrow, rfl⟩ := mem_rows_requestReturn request hrow'
    rw [row.toRebate_marked, timesPaid_requestReturn request hrow] at hpaid
    rw [row.isReturn_marked]
    split_ifs at hpaid with hserved
    · obtain ⟨entry, hentry, rfl⟩ := List.mem_map.mp hserved
      exact if_pos ⟨entry, hentry, rfl, rfl⟩
    · rw [hinv.marked row hrow hpaid]
      exact ite_self 1
  rebate := fun payment hpayment => by
    obtain ⟨-, hlog, hrows⟩ := foldl_paid (state.served request) state
    rw [requestReturn_eq] at hpayment ⊢
    rw [hlog] at hpayment
    rw [hrows]
    obtain ⟨row, hrow, gameOwner, rfl⟩ : ∃ row ∈ state.table.rows, ∃ gameOwner,
        payment = ⟨row.id, row.userAccts gameOwner⟩ := by
      obtain hold | hnew := List.mem_append.mp hpayment
      · exact hinv.rebate payment hold
      · obtain ⟨entry, hentry, rfl⟩ := List.mem_map.mp hnew
        exact ⟨entry.1, (mem_served request hentry).1, entry.2, rfl⟩
    refine ⟨_, List.mem_map_of_mem hrow, gameOwner, ?_⟩
    rw [row.toRebate_marked]

theorem timesPaid_start {table : Table} {row : Row} (hrow : row ∈ table.rows) :
    (State.start table).timesPaid row.id = if row.isReturn = 1 then 1 else 0 := by
  have hnodup : (State.start table).before.Nodup :=
    List.Nodup.sublist (List.filter_sublist.map _) table.nodup
  rw [State.timesPaid, show (State.start table).log = [] from rfl, List.map_nil, List.append_nil,
    hnodup.count]
  refine if_congr ⟨fun hid => ?_, fun hreturn => ?_⟩ rfl rfl
  · obtain ⟨other, hother, hid⟩ := List.mem_map.mp hid
    obtain ⟨hother, hreturn⟩ := List.mem_filter.mp hother
    rw [← Table.eq_of_id hother hrow hid]
    exact of_decide_eq_true hreturn
  · exact List.mem_map_of_mem (List.mem_filter.mpr ⟨hrow, decide_eq_true hreturn⟩)

theorem settled_start (table : Table) : (State.start table).Settled where
  marked := fun row hrow => by
    rw [@timesPaid_start table row hrow]
    split_ifs with hreturn <;> simp [hreturn]
  rebate := fun payment hpayment => by cases hpayment

theorem Inv.start (table : Table) : Inv (State.start table) where
  once := fun row hrow => by
    rw [@timesPaid_start table row hrow]
    split_ifs <;> omega
  marked := fun row hrow hpaid => by
    rw [@timesPaid_start table row hrow] at hpaid
    by_contra hreturn
    exact hpaid (if_neg hreturn)
  rebate := fun payment hpayment => by cases hpayment

/-- Where nothing is marked that has not been paid, a run leaves it so just when it serves together
what it marks together. -/
theorem Inv.settled_requestReturn_iff (hinv : Inv state) (hsettled : state.Settled) :
    (state.requestReturnDailyRebate request).Settled ↔ state.ServesTogether request := by
  have hnext := hinv.requestReturn request
  have hfirst : ∀ row ∈ state.table.rows, row.isReturn ≠ 1 → state.timesPaid row.id = 0 := by
    intro row hrow hreturn
    by_contra hpaid
    exact hreturn (hinv.marked row hrow hpaid)
  constructor
  · intro hafter entry hentry row hrow hreturn hroom huid
    have hmem : row.marked (state.served request) ∈
        (state.requestReturnDailyRebate request).table.rows := by
      rw [requestReturn_eq, (foldl_paid ..).2.2]
      exact List.mem_map_of_mem hrow
    have hmarked : (row.marked (state.served request)).isReturn = 1 := by
      rw [row.isReturn_marked]
      exact if_pos ⟨entry, hentry, hroom, huid⟩
    have hpaid := (hafter.marked _ hmem).mp hmarked
    rw [row.toRebate_marked, timesPaid_requestReturn request hrow, hfirst row hrow hreturn] at hpaid
    by_contra hserved
    rw [if_neg hserved] at hpaid
    cases hpaid
  · intro htogether
    refine ⟨fun row' hrow' => ⟨fun hmarked => ?_, fun hpaid => ?_⟩, hnext.settled_rebate⟩
    · obtain ⟨row, hrow, rfl⟩ := mem_rows_requestReturn request hrow'
      rw [row.isReturn_marked] at hmarked
      rw [row.toRebate_marked, timesPaid_requestReturn request hrow]
      by_cases hreturn : row.isReturn = 1
      · -- A row that was returned before is not read again.
        rw [(hsettled.marked row hrow).mp hreturn, if_neg]
        intro hserved
        obtain ⟨entry, hentry, rfl⟩ := List.mem_map.mp hserved
        rw [(mem_served request hentry).2] at hreturn
        cases hreturn
      · rw [hfirst row hrow hreturn]
        split_ifs at hmarked with hsame
        · obtain ⟨entry, hentry, hroom, huid⟩ := hsame
          rw [if_pos (htogether entry hentry row hrow hreturn hroom huid)]
        · exact absurd hmarked hreturn
    · exact hnext.marked row' hrow' (by omega)

end Invariant

section Main

/-- **A row is returned when it has been paid once**, at the start and after every run, exactly in
the sequences of runs that serve with each row what its update marks. -/
theorem rebates_settled_iff (table : Table) (requests : List Request) :
    (∀ n, (Run.exec State.requestReturnDailyRebate (State.start table) (requests.take n)).Settled) ↔
      Run.Along State.requestReturnDailyRebate State.ServesTogether (State.start table) requests :=
  Run.forall_take_iff (fun _ request hinv => hinv.requestReturn request)
    (fun _ request hinv hsettled => hinv.settled_requestReturn_iff request hsettled) requests _
    (Inv.start table) (settled_start table)

/-- Two days of one player in one room. -/
def twoDays : Table where
  rows := [⟨⟨1, 5, 7, 50000, 1000, 3 / 1000⟩, 0, 0⟩, ⟨⟨2, 5, 7, 100000, 2000, 3 / 1000⟩, 0, 0⟩]
  nodup := by decide

def firstNoon : Request where
  now := 86400
  noon := 86400
  rank := fun key => key
  status := fun _ => .ok 9
  answer := fun _ => .ok

/-- The first day is paid, and the second is marked with it. -/
theorem rebates_not_settled : ¬∀ table requests,
    (Run.exec State.requestReturnDailyRebate (State.start table) requests).Settled := by
  intro hall
  have hsettled := hall twoDays [firstNoon]
  have hmarked := hsettled.marked ⟨⟨2, 5, 7, 100000, 2000, 3 / 1000⟩, 3, 1⟩ (by decide +kernel)
  have hpaid := hmarked.mp rfl
  exact absurd hpaid (by decide +kernel)

end Main

end Rebate

end SdyServer.Web
