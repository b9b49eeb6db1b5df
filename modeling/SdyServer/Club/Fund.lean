import SdyServer.Lib.Lua
import Mathlib.Algebra.BigOperators.Group.List.Basic

/-!
# The club fund

Creating a room in a club costs cards of its fund, and a member fills the fund up from his own
money. Both write with the version of the row that was read, and both find out that they cannot go
on after they have written.

What an operation does is what it has written when it returns.
-/

namespace SdyServer.Club

section Operations

/-- `Club_Config.Club_RoleType`. -/
def creater : Int := 100

def manager : Int := 10

def senior : Int := 1

def ordinary : Int := 0

/-- `Club_Config.Club_MemberStatus`. -/
def normal : Int := 0

def del : Int := -1

def suspend : Int := -10

/-- A row of `d_club`, as `logic.get` reads it. -/
structure ClubRow where
  id : Nat
  fund : Int
  version : Nat
deriving DecidableEq, Repr

structure Member where
  roletype : Int
  status : Int
deriving DecidableEq, Repr

/-- A task of type `add_money` that is queued for a user. -/
structure Task where
  uid : Nat
  money : Int
deriving DecidableEq, Repr

/-- The fund that was written into the row, the tasks that were queued, and the fund records. -/
structure Effects where
  written : Option Int := none
  tasks : List Task := []
  records : List Int := []
deriving DecidableEq, Repr

/-- A message for the client, or a fund. -/
inductive Reply where
  | refused (message : String)
  | fund (fund : Int)
deriving DecidableEq, Repr

/-- `logic.update_fund`, which gives up after its first turn. `rec` is how many rows the update has
matched, none where the database fails; the answer `none` is false. -/
def updateFund (club : Option ClubRow) (fund : Int) (rec : Option Nat) :
    Effects × Lua (Option Int) :=
  match club with
  | none => ({}, .ok none)
  | some club =>
      match rec with
      | none => ({}, .error .indexNil)
      | some rec =>
          if rec ≥ 1 then ({ written := some (club.fund + fund) }, .ok (some (club.fund + fund)))
          else ({}, .ok none)

/-- The end of `logic.check`, which reads the club again. -/
def allowed (again : Option ClubRow) : Lua Reply :=
  match again with
  | none => .error .indexNil
  | some club => .ok (.fund club.fund)

/-- May the member enter a room of the club? -/
def checkRoom (club : Option ClubRow) (member : Member) (channel : String)
    (applyStatus : Option Int) :
    Lua Reply :=
  if channel = "xzj" then
    if member.roletype < senior ∧ applyStatus ≠ some 1 then .ok (.refused "暂无权进入房间，需审核")
    else allowed club
  else if channel = "dyj" ∨ channel = "dd" ∨ channel = "zm" then allowed club
  else .ok (.refused "暂无权进入房间，需审核")

/-- `logic.check`. -/
def check (club : Option ClubRow) (member : Option Member) (channel : String)
    (applyStatus : Option Int)
    (card : Int) (roomid : Option Int) (rec : Option Nat) (again : Option ClubRow) :
    Effects × Lua Reply :=
  match club with
  | none => ({}, .ok (.refused "俱乐部不存在"))
  | some club =>
      match member with
      | none => ({}, .ok (.refused "你不是该俱乐部成员"))
      | some member =>
          if member.status = suspend then ({}, .ok (.refused "你已被管理员禁赛"))
          else if card > 0 then
            if club.fund < card then ({}, .ok (.refused "俱乐部基金不足，请补充~"))
            else
              let updated := updateFund (some club) (-card) rec
              match updated.2 with
              | .error e => (updated.1, .error e)
              | .ok none => (updated.1, .ok (.refused "俱乐部基金不足，请补充~"))
              | .ok (some _) =>
                  if manager > member.roletype then
                    (updated.1, .ok (.refused "只有创建人或管理员才能创建房间"))
                  else (updated.1, allowed again)
          else if roomid.any (· > 0) then ({}, checkRoom again member channel applyStatus)
          else ({}, .ok (.refused "未知请求"))

/-- `logic.add_club_fund`. -/
def addClubFund (uid : Nat) (userMoney : Option Int) (club : Option ClubRow) (fund : Int)
    (rec : Option Nat)
    (newFund : Option Int) : Effects × Lua Reply :=
  match userMoney with
  | none => ({}, .ok (.refused "用户不存在"))
  | some userMoney =>
      if userMoney < fund then ({}, .ok (.refused "用户钻石不足"))
      else
        let tasks := [{ uid, money := -fund }]
        let updated := updateFund club fund rec
        match updated.2 with
        | .error e => ({ updated.1 with tasks }, .error e)
        | .ok none => ({ updated.1 with tasks }, .ok (.refused "更新俱乐部基金不足"))
        | .ok (some _) =>
            ({ updated.1 with tasks, records := [fund] }, .ok (.fund (newFund.getD fund)))

end Operations

section Unchanged

variable {club again : Option ClubRow} {member : Option Member} {channel : String}
  {applyStatus roomid newFund userMoney : Option Int} {card fund : Int}
    {rec : Option Nat} {uid : Nat}

/-- The fund is what it was: nothing was written, or what had been read. -/
def Effects.keepsFund (effects : Effects) (club : Option ClubRow) : Prop :=
  ∀ written, effects.written = some written → ∃ row, club = some row ∧ written = row.fund

/-- The tasks that were queued for the user leave him his money. -/
def Effects.keepsMoney (effects : Effects) (uid : Nat) : Prop :=
  ((effects.tasks.filter fun task => task.uid = uid).map Task.money).sum = 0

@[simp]
theorem Effects.keepsFund_empty (club : Option ClubRow) : Effects.keepsFund {} club :=
  fun _ h => absurd h (by simp)

/-- A member who may not create rooms asks for one that the fund can pay, and the fund is
updated. -/
def PaysInVain (club : Option ClubRow) (member : Option Member) (card : Int) (rec : Option Nat) :
    Prop :=
  ∃ row m n, club = some row ∧ member = some m ∧ rec = some n ∧ m.status ≠ suspend ∧ 0 < card ∧
    card ≤ row.fund ∧ 1 ≤ n ∧ m.roletype < manager

/-- A user who has the money fills up the fund of a club that is not there, or whose row another
update has changed. -/
def QueuesInVain (userMoney : Option Int) (club : Option ClubRow) (fund : Int) (rec : Option Nat) :
    Prop :=
  (∃ money, userMoney = some money ∧ fund ≤ money) ∧ (club = none ∨ rec = some 0) ∧ fund ≠ 0

theorem check_room (hcard : ¬card > 0) :
    (check club member channel applyStatus card roomid rec again).1 = {} := by
  cases club with
  | none => rfl
  | some row =>
      cases member with
      | none => rfl
      | some m =>
          simp only [check, if_neg hcard]
          split_ifs <;> rfl

theorem check_keepsFund_iff :
    (∀ message, (check club member channel applyStatus card roomid rec again).2 =
      .ok (.refused message) →
        (check club member channel applyStatus card roomid rec again).1.keepsFund club) ↔
      ¬PaysInVain club member card rec := by
  constructor
  · rintro hkeeps ⟨row, m, n, rfl, rfl, rfl, hstatus, hcard, hfund, hn, hrole⟩
    have hcheck : check (some row) (some m) channel applyStatus card roomid (some n) again =
        ({ written := some (row.fund + -card) }, .ok (.refused "只有创建人或管理员才能创建房间")) := by
      simp only [check, if_neg hstatus, if_pos hcard, if_neg (not_lt.2 hfund),
        updateFund, if_pos hn,
        if_pos hrole]
    rw [hcheck] at hkeeps
    obtain ⟨row', hrow', hwritten⟩ := hkeeps _ rfl _ rfl
    cases hrow'
    omega
  · intro hvain message hrefused
    by_cases hcard : card > 0
    · cases club with
      | none => exact Effects.keepsFund_empty _
      | some row =>
          cases member with
          | none => exact Effects.keepsFund_empty _
          | some m =>
              by_cases hstatus : m.status = suspend
              · simp [check, hstatus]
              · by_cases hfund : row.fund < card
                · simp [check, hstatus, hcard, hfund]
                · cases rec with
                  | none => simp [check, hstatus, hcard, hfund, updateFund]
                  | some n =>
                      by_cases hn : n ≥ 1
                      · -- the fund is written: whoever is refused now may not create rooms
                        have hrole : ¬manager > m.roletype := fun hrole => hvain
                          ⟨row, m, n, rfl, rfl, rfl, hstatus, hcard, not_lt.1 hfund, hn, hrole⟩
                        cases again with
                        | none =>
                            simp [check, hstatus, hcard, hfund, updateFund, hn, hrole,
                              allowed] at hrefused
                        | some row' =>
                            simp [check, hstatus, hcard, hfund, updateFund, hn, hrole,
                              allowed] at hrefused
                      · simp [check, hstatus, hcard, hfund, updateFund, hn]
    · rw [check_room hcard]
      exact Effects.keepsFund_empty club

theorem addClubFund_keeps_iff :
    (∀ message, (addClubFund uid userMoney club fund rec newFund).2 = .ok (.refused message) →
        (addClubFund uid userMoney club fund rec newFund).1.keepsFund club ∧
          (addClubFund uid userMoney club fund rec newFund).1.keepsMoney uid) ↔
      ¬QueuesInVain userMoney club fund rec := by
  cases userMoney with
  | none => simp [addClubFund, QueuesInVain, Effects.keepsMoney]
  | some money =>
      by_cases hfund : money < fund
      · simp [addClubFund, QueuesInVain, hfund, Effects.keepsMoney]
      · have hle := not_lt.1 hfund
        cases club with
        | none => simp [addClubFund, updateFund, hfund, QueuesInVain, hle, Effects.keepsFund,
              Effects.keepsMoney]
        | some row =>
            cases rec with
            | none => simp [addClubFund, updateFund, hfund, QueuesInVain]
            | some n =>
                cases n with
                | zero => simp [addClubFund, updateFund, hfund, QueuesInVain, hle,
                      Effects.keepsFund, Effects.keepsMoney]
                | succ n => simp [addClubFund, updateFund, hfund, QueuesInVain]

/-- **Fund operations are all or nothing unless a room is paid for in vain, or a task is queued for
a fund that is not updated.** -/
theorem fund_allOrNothing_iff (club again : Option ClubRow) (member : Option Member)
    (channel : String)
    (applyStatus roomid newFund userMoney : Option Int) (card fund : Int) (rec : Option Nat)
    (uid : Nat) :
    ((∀ message, (check club member channel applyStatus card roomid rec again).2 =
      .ok (.refused message) →
        (check club member channel applyStatus card roomid rec again).1.keepsFund club) ↔
      ¬PaysInVain club member card rec) ∧
    ((∀ message, (addClubFund uid userMoney club fund rec newFund).2 = .ok (.refused message) →
        (addClubFund uid userMoney club fund rec newFund).1.keepsFund club ∧
          (addClubFund uid userMoney club fund rec newFund).1.keepsMoney uid) ↔
      ¬QueuesInVain userMoney club fund rec) :=
  ⟨check_keepsFund_iff, addClubFund_keeps_iff⟩

/-- An ordinary member asks for a room and is refused after its cards were taken from the fund, and
a user's money is taken for a club that was dissolved. -/
theorem fund_not_allOrNothing :
    (check (some ⟨1, 100, 0⟩) (some ⟨ordinary, normal⟩) "dyj" none 4 none (some 1)
      (some ⟨1, 96, 1⟩)).2 =
        .ok (.refused "只有创建人或管理员才能创建房间") ∧
      ¬(check (some ⟨1, 100, 0⟩) (some ⟨ordinary, normal⟩) "dyj" none 4 none (some 1)
        (some ⟨1, 96, 1⟩)).1.keepsFund (some ⟨1, 100, 0⟩) ∧
      (addClubFund 7 (some 50) none 30 (some 0) none).2 = .ok (.refused "更新俱乐部基金不足") ∧
      ¬(addClubFund 7 (some 50) none 30 (some 0) none).1.keepsMoney 7 := by
  refine ⟨rfl, fun hkeeps => ?_, rfl, by unfold Effects.keepsMoney; decide⟩
  obtain ⟨row, hrow, hwritten⟩ := hkeeps 96 rfl
  cases hrow
  exact absurd hwritten (by decide)

end Unchanged

end SdyServer.Club
