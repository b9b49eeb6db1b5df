import SdyServer.Lib.Lua
import SdyServer.Lib.Run
import SdyServer.Lib.Rows
import SdyServer.Club.Fund

/-!
# Club members

A club is founded by its creater, members come in when their application is passed, their role or
status is set by the creater or a manager, and they quit. A member who is gone keeps his row, with
the status −1, and the club's row counts those who are left.

What an argument of a call holds is up to the client. The statements are put together as text, and
an integer column takes what the database makes of the literal. A text with a quote would leave its
literal and change the statement; texts have none here.
-/

namespace SdyServer.Club

section Tables

/-- A value that is written into a statement: an integer, or any other number or a string without a
quote. A float with an integral value counts as the integer, which it equals in Lua and as which the
column takes it. -/
inductive Literal where
  | int (n : Int)
  | text (literal : String)
deriving DecidableEq, Repr

/-- An argument of a call: nil or false, a value that `table.concat` refuses, or a literal. -/
inductive Argument where
  | falsy
  | unprintable
  | literal (literal : Literal)
deriving DecidableEq, Repr

/-- What a four-byte integer column takes for a literal, none where the statement is refused, and
whether two names are the same under the table's collation. -/
structure Database where
  take : Literal → Option Int
  take_int : ∀ n : Int, -2 ^ 31 ≤ n → n < 2 ^ 31 → take (.int n) = some n
  sameName : String → String → Bool

/-- A row of `d_club`. -/
structure ClubInfo where
  id : Nat
  creater : Nat
  name : String
  areaid : Nat
  memberCount : Int
  maxMemberCount : Int
  status : Int
deriving DecidableEq, Repr

/-- A row of `d_club_member`. -/
structure MemberRow where
  id : Nat
  clubid : Nat
  uid : Nat
  roletype : Int
  status : Int
deriving DecidableEq, Repr

/-- A row of `d_club_apply`. -/
structure Apply where
  id : Nat
  clubid : Nat
  uid : Nat
  roomid : Option Int
  status : Int
deriving DecidableEq, Repr

/-- The tables, and the ids that the next rows get. -/
structure Tables where
  areas : List Nat
  clubs : List ClubInfo := []
  members : List MemberRow := []
  applies : List Apply := []
  nextClub : Nat := 1
  nextMember : Nat := 1
  nextApply : Nat := 1
deriving DecidableEq, Repr

/-- The row with a member's club and user that is not deleted. -/
def Tables.member? (tables : Tables) (clubid uid : Nat) : Option MemberRow :=
  tables.members.find? fun row => row.status ≠ del ∧ row.clubid = clubid ∧ row.uid = uid

def Tables.updateClub (tables : Tables) (clubid : Nat) (change : ClubInfo → ClubInfo) : Tables :=
  { tables with clubs := Rows.update ClubInfo.id clubid change tables.clubs }

def Tables.updateMember (tables : Tables) (id : Nat) (change : MemberRow → MemberRow) : Tables :=
  { tables with members := Rows.update MemberRow.id id change tables.members }

def Tables.updateApply (tables : Tables) (id : Nat) (change : Apply → Apply) : Tables :=
  { tables with applies := Rows.update Apply.id id change tables.applies }

/-- `insert into d_club_apply`. -/
def Tables.addApply (tables : Tables) (clubid uid : Nat) (roomid : Option Int) : Tables :=
  let row := ⟨tables.nextApply, clubid, uid, roomid, 0⟩
  { tables with applies := tables.applies ++ [row], nextApply := tables.nextApply + 1 }

/-- `insert into d_club_member`. -/
def Tables.addMember (tables : Tables) (clubid uid : Nat) (roletype : Int) : Tables :=
  let row := ⟨tables.nextMember, clubid, uid, roletype, normal⟩
  { tables with members := tables.members ++ [row], nextMember := tables.nextMember + 1 }

/-- `insert into d_club`. -/
def Tables.addClub (tables : Tables) (uid : Nat) (name : String) (areaid : Nat) : Tables :=
  let club := ⟨tables.nextClub, uid, name, areaid, 1, 500, normal⟩
  { tables with clubs := tables.clubs ++ [club], nextClub := tables.nextClub + 1 }

end Tables

section Calls

/-- `Club_Config.Club_Buttons_Auth`. -/
inductive Button where
  | getMember
  | dissolve
  | fundManager
  | setting
  | applyMsg
  | records
  | modifyAuth
deriving DecidableEq, Repr

/-- What a call answers: a message of its error, the id of the new club, nothing, the role that was
asked for, or a message. -/
inductive Answer where
  | refused (message : String)
  | created (clubid : Nat)
  | nothing
  | role (roletype : Argument)
  | said (message : String)
deriving DecidableEq, Repr

/-- `check_authority`. -/
def checkAuthority (tables : Tables) (uid clubid : Nat) (button : Button) : Bool :=
  match tables.member? clubid uid with
  | none => false
  | some row =>
      if row.roletype = creater then true
      else if row.roletype = manager then
        [Button.getMember, .dissolve, .fundManager, .setting, .applyMsg,
          .modifyAuth].contains button
      else if row.roletype = senior then [Button.getMember].contains button
      else if row.roletype = ordinary then [Button.getMember].contains button
      else false

/-- `logic.create_club`. -/
def createClub (db : Database) (tables : Tables) (uid : Nat) (name : String) (areaid : Nat) :
    Tables × Lua Answer :=
  if tables.clubs.any fun club => club.status = normal ∧ club.creater = uid then
    (tables, .ok (.refused "亲，你只能创建一个俱乐部哦"))
  else if tables.clubs.any fun club => club.status = normal ∧ db.sameName club.name name then
    (tables, .ok (.refused "亲，该名称已被占用哦"))
  else if !tables.areas.contains areaid then (tables, .ok (.refused "地区ID不存在"))
  else
    ((tables.addClub uid name areaid).addMember tables.nextClub uid creater,
      .ok (.created tables.nextClub))

/-- `logic.apply_in_club`. -/
def applyInClub (tables : Tables) (uid clubid : Nat) : Tables × Lua Answer :=
  if (tables.member? clubid uid).isSome then (tables, .ok (.refused "亲，你已是该俱乐部成员"))
  else if tables.applies.any fun row => row.status = 0 ∧ row.clubid = clubid ∧ row.uid = uid then
    (tables, .ok (.refused "已申请，待管理员审核"))
  else (tables.addApply clubid uid none, .ok .nothing)

/-- `logic.apply_in_club_room`. `recent` is whether the user has asked for the room in the last
thirty seconds. -/
def applyInClubRoom (tables : Tables) (uid clubid : Nat) (roomid : Int) (recent : Bool) :
    Tables × Lua Answer :=
  if recent then (tables, .ok (.refused "请求过于频繁"))
  else (tables.addApply clubid uid (some roomid), .ok .nothing)

/-- The end of a verification: its record is added, and the application gets the status. -/
def recordVerify (db : Database) (tables : Tables) (applyid : Nat) (status : Argument)
    (recorded : Bool) :
    Tables × Lua Answer :=
  if !recorded then (tables, .error .indexNil)
  else
    match status with
    | .falsy => (tables, .error .indexNil)
    | .unprintable => (tables, .error .badArgument)
    | .literal status =>
        match db.take status with
        | none => (tables, .error .indexNil)
        | some status => (tables.updateApply applyid ({ · with status }), .ok .nothing)

/-- `logic.verify_in_club_room`. `expired` is whether the application is older than thirty
seconds. -/
def verifyInClubRoom (db : Database) (tables : Tables) (applyid : Nat) (status : Argument)
    (recorded expired : Bool) : Tables × Lua Answer :=
  if recorded ∧ expired then
    (tables.updateApply applyid ({ · with status := -2 }), .ok (.refused "请求已过期"))
  else recordVerify db tables applyid status recorded

/-- `logic.verify_in_club`. `recorded` is whether the insert of the record goes through. -/
def verifyInClub (db : Database) (tables : Tables) (uid applyid : Nat) (status : Argument)
    (recorded expired : Bool) : Tables × Lua Answer :=
  match tables.applies.find? fun row => row.status = 0 ∧ row.id = applyid with
  | none => (tables, .ok (.refused "没有该申请ID"))
  | some apply =>
      if !tables.members.any fun row =>
          row.status ≠ del ∧ row.clubid = apply.clubid ∧ row.uid = uid ∧ row.roletype ≥ manager then
        (tables, .ok (.refused "无权审核该俱乐部申请"))
      else if apply.roomid.any (· > 0) then verifyInClubRoom db tables applyid status
        recorded expired
      else if (tables.member? apply.clubid apply.uid).isSome then
        (tables, .ok (.refused "该俱乐部已存在该成员"))
      else
        match tables.clubs.find? fun club => club.status = normal ∧ club.id = apply.clubid with
        | none => (tables, .ok (.refused "俱乐部已不存在"))
        | some club =>
            if club.memberCount ≥ club.maxMemberCount then (tables, .ok (.refused "俱乐部已满员"))
            else if status = .literal (.int 1) then
              recordVerify db ((tables.addMember apply.clubid apply.uid ordinary).updateClub
                  apply.clubid fun club =>
                { club with memberCount := club.memberCount + 1 }) applyid status recorded
            else recordVerify db tables applyid status recorded

/-- The update at the end of `logic.set_member_roletype`. -/
def setMember (db : Database) (tables : Tables) (clubid id : Nat) (roletype status : Argument) :
    Tables × Lua Answer :=
  match status with
  | .unprintable => (tables, .error .badArgument)
  | .literal literal =>
      match db.take literal with
      | none => (tables, .error .indexNil)
      | some status =>
          let updated := tables.updateMember id ({ · with status })
          (if literal = .int del then
            updated.updateClub clubid fun club => { club with memberCount := club.memberCount - 1 }
          else updated, .ok (.role roletype))
  | .falsy =>
      match roletype with
      | .falsy => (tables, .ok (.role roletype))
      | .unprintable => (tables, .error .badArgument)
      | .literal literal =>
          match db.take literal with
          | none => (tables, .error .indexNil)
          | some taken =>
              (tables.updateMember id ({ · with roletype := taken }), .ok (.role roletype))

/-- `logic.set_member_roletype`. -/
def setMemberRoletype (db : Database) (tables : Tables) (uid clubid setUid : Nat)
    (roletype status : Argument) :
    Tables × Lua Answer :=
  match tables.member? clubid uid with
  | none => (tables, .ok (.refused "亲，你不是该俱乐部成员"))
  | some row =>
      if !checkAuthority tables uid clubid .modifyAuth then (tables, .ok (.refused "权限不足"))
      else
        match tables.member? clubid setUid with
        | none => (tables, .ok (.refused "亲，设置人员不是该俱乐部成员"))
        | some set =>
            if set.roletype ≥ row.roletype then (tables, .ok (.refused "亲，你无权设置该成员"))
            else setMember db tables clubid set.id roletype status

/-- `logic.quit_club`. -/
def quitClub (tables : Tables) (uid clubid : Nat) : Tables × Lua Answer :=
  match tables.member? clubid uid with
  | none => (tables, .ok (.refused "亲，你不是该俱乐部成员"))
  | some row =>
      if row.roletype = creater then
        (tables.updateClub clubid ({ · with status := del }), .ok (.said "解散俱乐部成功"))
      else
        ((tables.updateMember row.id ({ · with status := del })).updateClub clubid fun club =>
          { club with memberCount := club.memberCount - 1 }, .ok (.said "退出俱乐部成功"))

end Calls

end SdyServer.Club
