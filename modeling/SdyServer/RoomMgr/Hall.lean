import Mathlib.Logic.Function.Basic
import SdyServer.Lib.LuaTable
import SdyServer.Lib.Run

/-!
# The hall

The hall knows every user who is logged in and every room. That a user is in a room is recorded
three times: in the members of the room, in their number, and in the room id of his object. A login
gives a user a new object, and closes the connection of the old one; the service of a room, told of
a closed connection, may have the hall remove the user before it answers.
-/

namespace SdyServer.RoomMgr

abbrev Uid := Nat

abbrev RoomId := Nat

abbrev Fd := Nat

abbrev Ref := Nat

structure User where
  uid : Uid
  fd : Option Fd := none
  roomid : Option RoomId := none
deriving DecidableEq, Repr

/-- A room, with the names of its members. `hasAgent` says whether its service runs. -/
structure Room where
  members : LuaTable Uid String := ∅
  memberCount : Int := 0
  hasAgent : Bool := false
  clubid : Option Nat := none

/-- The fields of `g` and `rooms.all`. A connection has a user once he is logged in; `fresh` is the
next object. -/
structure Hall where
  user : Ref → User := fun _ => { uid := 0 }
  fresh : Ref := 0
  conns : LuaTable Fd (Option Ref) := ∅
  users : LuaTable Uid Ref := ∅
  rooms : LuaTable RoomId Room := ∅

structure ExitData where
  roomid : RoomId
  id : Uid
  round : Nat := 0
  managersend : Bool := false
  needkillroom : Bool := false
deriving DecidableEq, Repr

namespace Hall

def modify (hall : Hall) (ref : Ref) (f : User → User) : Hall :=
  { hall with user := Function.update hall.user ref (f (hall.user ref)) }

def setRoom (hall : Hall) (roomid : RoomId) (room : Room) : Hall :=
  { hall with rooms := hall.rooms.set roomid room }

section Leaving

/-- The end of `mgr.exit_member`: the service of an empty room is killed, but not that of a club's
room whose game has not begun. -/
def killAgent (hall : Hall) (data : ExitData) : Hall :=
  match hall.rooms.get data.roomid with
  | none => hall
  | some room =>
      if data.managersend = true ∧ room.clubid = none then hall
      else if room.memberCount = 0 ∧ room.hasAgent = true then
        if data.round = 0 ∧ room.clubid ≠ none ∧ data.needkillroom = false then hall
        else hall.setRoom data.roomid
          { room with hasAgent := false, memberCount := 0, clubid := none }
      else hall

def exitMember (hall : Hall) (data : ExitData) : Hall :=
  match hall.users.get data.id, hall.rooms.get data.roomid with
  | some ref, some room =>
      if (room.members.get data.id).isSome then
        let hall := hall.modify ref fun user => { user with roomid := none }
        let hall := hall.setRoom data.roomid { room with
          members := room.members.erase (hall.user ref).uid, memberCount := room.memberCount - 1 }
        hall.killAgent data
      else hall.killAgent data
  | _, _ => hall.killAgent data

/-- What `g.close_conn` does for the user of the connection. `exit` is what the service of his room
sends before it answers. -/
def closeOwn (hall : Hall) (ref : Ref) (exit : Option ExitData) : Hall :=
  match (hall.user ref).roomid with
  | none => { hall with users := hall.users.erase (hall.user ref).uid }
  | some roomid =>
      if (hall.rooms.get roomid).any Room.hasAgent then
        match exit with
        | some data => hall.exitMember data
        | none => hall
      else hall

def closeConn (hall : Hall) (fd : Fd) (exit : Option ExitData) : Hall :=
  match hall.conns.get fd with
  | none => hall
  | some none => { hall with conns := hall.conns.erase fd }
  | some (some ref) =>
      let hall :=
        if (hall.user ref).fd = some fd then
          (hall.closeOwn ref exit).modify ref fun user => { user with fd := none }
        else hall
      { hall with conns := hall.conns.erase fd }

def closeUser (hall : Hall) (ref : Ref) : Hall :=
  match (hall.user ref).fd with
  | none => hall
  | some fd => (hall.closeConn fd none).modify ref fun user => { user with fd := none }

def leaveRoom (hall : Hall) (ref : Ref) : Hall :=
  match (hall.user ref).roomid with
  | none => hall
  | some roomid =>
      match hall.rooms.get roomid with
      | none => hall
      | some room => hall.setRoom roomid { room with
          memberCount := if (room.members.get (hall.user ref).uid).isSome then room.memberCount - 1
            else room.memberCount
          members := room.members.erase (hall.user ref).uid }

def clearUserRoominfo (hall : Hall) (uid : Uid) : Hall :=
  match hall.users.get uid with
  | none => hall
  | some ref =>
      ((hall.leaveRoom ref).modify ref fun user => { user with roomid := none }).closeUser ref

/-- One turn of the loop of `mgr.force_quit_room`. -/
def quitUser (hall : Hall) (uid : Uid) : Hall :=
  match hall.users.get uid with
  | none => hall
  | some ref => (hall.modify ref fun user => { user with roomid := none }).closeUser ref

def forceQuitRoom (hall : Hall) (roomid : RoomId) : Hall :=
  match hall.rooms.get roomid with
  | none => hall
  | some room => (room.members.keys.foldl quitUser hall).setRoom roomid {}

end Leaving

section Coming

/-- The end of `mgr.login`: the new object takes the place of the old one. -/
def enterHall (hall : Hall) (fd : Fd) (uid : Uid) : Hall :=
  let new := { hall with
    fresh := hall.fresh + 1
    users := hall.users.set uid hall.fresh }.modify hall.fresh fun _ => { uid, fd := some fd }
  match hall.conns.get fd with
  | none => new
  | some _ => { new with conns := hall.conns.set fd (some hall.fresh) }

/-- `mgr.login`, once the account service has confirmed the user. -/
def login (hall : Hall) (fd : Fd) (uid : Uid) (exit : Option ExitData) : Hall :=
  match hall.users.get uid with
  | none => hall.enterHall fd uid
  | some old =>
      match (hall.user old).fd with
      | none => hall.enterHall fd uid
      | some oldFd =>
          if oldFd = fd then hall else (hall.closeConn oldFd exit).enterHall fd uid

/-- A user joins a room, and is counted unless his object is in it already. A missing name leaves no
member. -/
def join (hall : Hall) (ref : Ref) (roomid : RoomId) (room : Room) (name : Option String) : Hall :=
  let members := match name with
    | some name => room.members.set (hall.user ref).uid name
    | none => room.members.erase (hall.user ref).uid
  if (hall.user ref).roomid = some roomid then hall.setRoom roomid { room with members }
  else (hall.setRoom roomid { room with members, memberCount := room.memberCount + 1 }).modify ref
    fun user => { user with roomid := some roomid }

def online (hall : Hall) (fd : Fd) : Option Ref :=
  (hall.conns.get fd).join.filter fun ref => (hall.user ref).fd.isSome

/-- `mgr.enter_room` and `_enter_room`. `userName` is the answer of the account service, none when
it fails. When the service of the room does not start, the connection is closed and all else goes
on. -/
def enterRoom (hall : Hall) (fd : Fd) (roomid : RoomId) (userName : Option (Option String))
    (started : Bool) : Hall :=
  match hall.online fd with
  | none => hall
  | some ref =>
      let room := (hall.rooms.get roomid).getD {}
      let hall := hall.setRoom roomid room
      match userName with
      | none => hall
      | some name =>
          if room.hasAgent || started then hall.join ref roomid { room with hasAgent := true } name
          else (hall.closeUser ref).join ref roomid room name

/-- How `mgr.enter_room_daboluo` goes on once it has looked for a room. -/
inductive EnterResult where
  | noAccount
  | poor
  | noAgent
  | ok (name : Option String)
deriving DecidableEq, Repr

/-- `mgr.enter_room_daboluo`, for a room that it has found with nobody in it. -/
def enterRoomDaboluo (hall : Hall) (fd : Fd) (found : Option RoomId) (result : EnterResult) :
    Hall :=
  match hall.online fd with
  | none => hall
  | some ref =>
      match found.bind fun roomid => (hall.rooms.get roomid).map fun room => (roomid, room) with
      | none => hall.closeUser ref
      | some (roomid, room) =>
          if ¬room.memberCount < 1 then hall
          else match result with
            | .noAccount => hall
            | .poor => hall.closeUser ref
            | .noAgent => if room.hasAgent then hall else hall.closeUser ref
            | .ok name => hall.join ref roomid { room with hasAgent := true } name

end Coming

inductive Event where
  | open (fd : Fd)
  | login (fd : Fd) (uid : Uid) (exit : Option ExitData)
  | enterRoom (fd : Fd) (roomid : RoomId) (userName : Option (Option String)) (started : Bool)
  | enterRoomDaboluo (fd : Fd) (found : Option RoomId) (result : EnterResult)
  | exitMember (data : ExitData)
  | clearUserRoominfo (uid : Uid)
  | forceQuitRoom (roomid : RoomId)
  | closeConn (fd : Fd) (exit : Option ExitData)
deriving DecidableEq, Repr

def step (hall : Hall) : Event → Hall
  | .open fd => { hall with conns := hall.conns.set fd none }
  | .login fd uid exit => hall.login fd uid exit
  | .enterRoom fd roomid userName started => hall.enterRoom fd roomid userName started
  | .enterRoomDaboluo fd found result => hall.enterRoomDaboluo fd found result
  | .exitMember data => hall.exitMember data
  | .clearUserRoominfo uid => hall.clearUserRoominfo uid
  | .forceQuitRoom roomid => hall.forceQuitRoom roomid
  | .closeConn fd exit => hall.closeConn fd exit

end Hall

end SdyServer.RoomMgr
