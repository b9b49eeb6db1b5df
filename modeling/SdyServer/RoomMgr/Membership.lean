import SdyServer.RoomMgr.Hall

/-!
# Membership

The members of a room, their number and the room ids of the users agree as long as nobody joins a
room while his object names another one, nobody is given a new object while the old one is in a
room, and every member has a name.
-/

namespace SdyServer.RoomMgr.Hall

variable {hall hall' : Hall}

section Statement

/-- The number of members is right, and a user's object names the room that has him. -/
structure Membership (hall : Hall) : Prop where
  count : ∀ roomid room, hall.rooms.get roomid = some room →
    room.memberCount = room.members.size ∧ 0 ≤ room.memberCount
  inverse : ∀ uid ref roomid, hall.users.get uid = some ref →
    ((hall.user ref).roomid = some roomid ↔
      ∃ room, hall.rooms.get roomid = some room ∧ (room.members.get uid).isSome = true)

/-- Whether a login leaves no room behind: the old object is in none, the login is refused, or the
service of the room has the user removed when his connection is closed. -/
def leavesNoRoom (hall : Hall) (fd : Fd) (uid : Uid) (exit : Option ExitData) : Bool :=
  (hall.users.get uid).all fun old =>
    (hall.user old).roomid.all fun roomid =>
      (hall.user old).fd.any fun oldFd =>
        oldFd = fd || (hall.conns.get oldFd = some (some old) &&
          (hall.rooms.get roomid).any Room.hasAgent &&
          exit.any fun data => data.id = uid && data.roomid = roomid)

/-- Whether a user may join a room: he has a name, and his object names no other room. -/
def mayJoin (hall : Hall) (ref : Ref) (roomid : RoomId) (name : Option String) : Bool :=
  name.isSome && (hall.user ref).roomid.all fun old => old = roomid

def clean (hall : Hall) : Event → Bool
  | .login fd uid exit => hall.leavesNoRoom fd uid exit
  | .enterRoom fd roomid userName started => (hall.online fd).all fun ref =>
      userName.all fun name => hall.mayJoin ref roomid name &&
        (((hall.rooms.get roomid).any Room.hasAgent) || started)
  | .enterRoomDaboluo fd found result => (hall.online fd).all fun ref =>
      match found, result with
      | some roomid, .ok name => hall.mayJoin ref roomid name
      | _, _ => true
  | _ => true

end Statement

section Registry

theorem user_modify (hall : Hall) (ref ref' : Ref) (f : User → User) :
    (hall.modify ref f).user ref' = if ref' = ref then f (hall.user ref) else hall.user ref' :=
  Function.update_apply ..

/-- The object of a user carries his uid, and a connection belongs to a user's own object unless it
is closed. -/
structure Registry (hall : Hall) : Prop where
  uid : ∀ uid ref, hall.users.get uid = some ref → (hall.user ref).uid = uid
  known : ∀ uid ref, hall.users.get uid = some ref → ref < hall.fresh
  conn : ∀ fd ref, hall.conns.get fd = some (some ref) → ref < hall.fresh ∧
    ((hall.user ref).fd = some fd ∧ hall.users.get (hall.user ref).uid = some ref ∨
      (hall.user ref).fd = none)

def inRoom (hall : Hall) (uid : Uid) (roomid : RoomId) : Prop :=
  ∃ ref, hall.users.get uid = some ref ∧ (hall.user ref).roomid = some roomid

theorem inRoom_of_get {uid : Uid} {ref : Ref} (href : hall.users.get uid = some ref)
    (roomid : RoomId) : hall.inRoom uid roomid ↔ (hall.user ref).roomid = some roomid := by
  unfold inRoom
  rw [href]
  simp

def SameObject (user user' : User) : Prop :=
  user'.uid = user.uid ∧ (user'.fd = user.fd ∨ user'.fd = none)

theorem SameObject.refl (user : User) : SameObject user user := ⟨rfl, Or.inl rfl⟩

theorem sameObject_clear (user : User) : SameObject user { user with roomid := none } :=
  ⟨rfl, Or.inl rfl⟩

theorem sameObject_hangUp (user : User) : SameObject user { user with fd := none } :=
  ⟨rfl, Or.inr rfl⟩

theorem SameObject.modify {ref ref' : Ref} {f : User → User} {user : User}
    (huser : SameObject user (hall.user ref')) (hf : ∀ user, SameObject user (f user)) :
    SameObject user ((hall.modify ref f).user ref') := by
  rw [user_modify]
  split_ifs with href
  · subst href
    obtain ⟨huid, hfd⟩ := hf (hall.user ref')
    refine ⟨huid.trans huser.1, ?_⟩
    rcases hfd with hfd | hfd
    · rw [hfd]
      exact huser.2
    · exact Or.inr hfd
  · exact huser

theorem Registry.modify (hreg : Registry hall) {ref : Ref} {f : User → User}
    (hf : ∀ user, SameObject user (f user)) : Registry (hall.modify ref f) := by
  have hsame : ∀ ref', SameObject (hall.user ref') ((hall.modify ref f).user ref') :=
    fun ref' => (SameObject.refl _).modify hf
  refine ⟨fun uid ref' href' => ?_, hreg.known, fun fd ref' href' => ?_⟩
  · rw [(hsame ref').1]
    exact hreg.uid uid ref' href'
  · obtain ⟨hlt, hconn⟩ := hreg.conn fd ref' href'
    refine ⟨hlt, ?_⟩
    rw [(hsame ref').1]
    rcases (hsame ref').2 with hfd | hfd
    · rw [hfd]
      exact hconn
    · exact Or.inr hfd

theorem Registry.clear (hreg : Registry hall) (ref : Ref) :
    Registry (hall.modify ref fun user => { user with roomid := none }) :=
  hreg.modify sameObject_clear

theorem Registry.hangUp (hreg : Registry hall) (ref : Ref) :
    Registry (hall.modify ref fun user => { user with fd := none }) :=
  hreg.modify sameObject_hangUp

theorem Registry.setRoom (hreg : Registry hall) (roomid : RoomId) (room : Room) :
    Registry (hall.setRoom roomid room) := ⟨hreg.uid, hreg.known, hreg.conn⟩

theorem Registry.eraseConn (hreg : Registry hall) (fd : Fd) :
    Registry { hall with conns := hall.conns.erase fd } := by
  refine ⟨hreg.uid, hreg.known, fun fd' ref href => ?_⟩
  rw [LuaTable.get_erase] at href
  split_ifs at href
  exact hreg.conn fd' ref href

theorem Registry.forget (hreg : Registry hall) {ref : Ref}
    (hown : hall.users.get (hall.user ref).uid = some ref) :
    Registry ({ hall with users := hall.users.erase (hall.user ref).uid }.modify ref
      fun user => { user with fd := none }) := by
  have huser : ∀ ref', (({ hall with users := hall.users.erase (hall.user ref).uid }.modify ref
      fun user => { user with fd := none }).user ref') =
      if ref' = ref then { hall.user ref with fd := none } else hall.user ref' :=
    fun ref' => user_modify ..
  refine ⟨fun uid ref' href' => ?_, fun uid ref' href' => ?_, fun fd ref' href' => ?_⟩
  · have href'' : (hall.users.erase (hall.user ref).uid).get uid = some ref' := href'
    rw [LuaTable.get_erase] at href''
    split_ifs at href''
    rw [huser]
    split_ifs with hsame
    · subst hsame
      exact hreg.uid uid ref' href''
    · exact hreg.uid uid ref' href''
  · have href'' : (hall.users.erase (hall.user ref).uid).get uid = some ref' := href'
    rw [LuaTable.get_erase] at href''
    split_ifs at href''
    exact hreg.known uid ref' href''
  · obtain ⟨hlt, hconn⟩ := hreg.conn fd ref' href'
    refine ⟨hlt, ?_⟩
    rw [huser]
    split_ifs with hsame
    · exact Or.inr rfl
    · refine hconn.imp_left fun h => ⟨h.1, ?_⟩
      have hget := h.2
      show (hall.users.erase (hall.user ref).uid).get (hall.user ref').uid = some ref'
      rw [LuaTable.get_erase, if_neg]
      · exact hget
      · intro huid
        rw [← huid, hown, Option.some.injEq] at hget
        exact hsame hget.symm

theorem killAgent_eq (hall : Hall) (data : ExitData) :
    hall.killAgent data = hall ∨ ∃ room, hall.rooms.get data.roomid = some room ∧
      room.memberCount = 0 ∧ hall.killAgent data = hall.setRoom data.roomid
        { room with hasAgent := false, memberCount := 0, clubid := none } := by
  unfold killAgent
  cases hroom : hall.rooms.get data.roomid with
  | none => exact Or.inl rfl
  | some room =>
      dsimp only
      split_ifs with hclub hempty
      · exact Or.inl rfl
      · exact Or.inl rfl
      · exact Or.inr ⟨room, rfl, hempty.1, rfl⟩
      · exact Or.inl rfl

theorem killAgent_conns (hall : Hall) (data : ExitData) :
    (hall.killAgent data).conns = hall.conns := by
  rcases hall.killAgent_eq data with h | ⟨room, -, -, h⟩
  · rw [h]
  · rw [h]
    rfl

/-- A user is removed from the room, or the room's service is killed at most. -/
theorem exitMember_eq (hall : Hall) (data : ExitData) :
    (∃ ref room, hall.users.get data.id = some ref ∧ hall.rooms.get data.roomid = some room ∧
        (room.members.get data.id).isSome = true ∧
        hall.exitMember data =
          ((hall.modify ref fun user => { user with roomid := none }).setRoom
            data.roomid { room with
            members := room.members.erase (hall.user ref).uid
            memberCount := room.memberCount - 1 }).killAgent data) ∨
      hall.exitMember data = hall.killAgent data ∧
        ∀ ref room, hall.users.get data.id = some ref → hall.rooms.get data.roomid = some room →
          room.members.get data.id = none := by
  unfold exitMember
  cases href : hall.users.get data.id with
  | none => exact Or.inr ⟨rfl, fun _ _ h => by simp at h⟩
  | some ref =>
      cases hroom : hall.rooms.get data.roomid with
      | none => exact Or.inr ⟨rfl, fun _ _ _ h => by simp at h⟩
      | some room =>
          by_cases hmem : (room.members.get data.id).isSome = true
          · refine Or.inl ⟨ref, room, rfl, rfl, hmem, ?_⟩
            dsimp only
            rw [if_pos hmem, user_modify, if_pos rfl]
          · refine Or.inr ⟨?_, fun _ room' _ hroom' => ?_⟩
            · dsimp only
              rw [if_neg hmem]
            · cases hroom'
              simpa using hmem

theorem exitMember_conns (hall : Hall) (data : ExitData) :
    (hall.exitMember data).conns = hall.conns := by
  rcases hall.exitMember_eq data with ⟨ref, room, -, -, -, h⟩ | ⟨h, -⟩
  · rw [h, killAgent_conns]
    rfl
  · rw [h, killAgent_conns]

/-- What closing a connection does: nothing, or it hangs up a user. He is forgotten when he is in no
room, and when he is in one its service may remove somebody. -/
theorem closeConn_cases (hall : Hall) (fd : Fd) (exit : Option ExitData) :
    hall.conns.get fd = none ∧ hall.closeConn fd exit = hall ∨
      ∃ hung, hall.closeConn fd exit = { hung with conns := hall.conns.erase fd } ∧
        (hung = hall ∨ ∃ ref, hall.conns.get fd = some (some ref) ∧ (hall.user ref).fd = some fd ∧
          ((hall.user ref).roomid = none ∧
              hung = { hall with users := hall.users.erase (hall.user ref).uid }.modify ref
                (fun user => { user with fd := none }) ∨
            hung = hall.modify ref (fun user => { user with fd := none }) ∨
            ∃ data, exit = some data ∧
              hung = (hall.exitMember data).modify ref fun user => { user with fd := none })) := by
  unfold closeConn
  rcases hconn : hall.conns.get fd with _ | _ | ref
  · exact Or.inl ⟨rfl, rfl⟩
  · exact Or.inr ⟨hall, rfl, Or.inl rfl⟩
  · right
    dsimp only
    by_cases hfd : (hall.user ref).fd = some fd
    · rw [if_pos hfd]
      unfold closeOwn
      cases hroomid : (hall.user ref).roomid with
      | none => exact ⟨_, rfl, Or.inr ⟨ref, rfl, hfd, Or.inl ⟨hroomid, rfl⟩⟩⟩
      | some roomid =>
          dsimp only
          split_ifs
          · cases exit with
            | none => exact ⟨_, rfl, Or.inr ⟨ref, rfl, hfd, Or.inr (Or.inl rfl)⟩⟩
            | some data =>
                refine ⟨_, ?_, Or.inr ⟨ref, rfl, hfd, Or.inr (Or.inr ⟨data, rfl, rfl⟩)⟩⟩
                simp only [modify, exitMember_conns]
          · exact ⟨_, rfl, Or.inr ⟨ref, rfl, hfd, Or.inr (Or.inl rfl)⟩⟩
    · rw [if_neg hfd]
      exact ⟨hall, rfl, Or.inl rfl⟩

end Registry

section Invariant

def room (hall : Hall) (roomid : RoomId) : Room := (hall.rooms.get roomid).getD {}

def isMember (hall : Hall) (uid : Uid) (roomid : RoomId) : Prop :=
  ((hall.room roomid).members.get uid).isSome = true

theorem room_of_get {roomid : RoomId} {room : Room} (hroom : hall.rooms.get roomid = some room) :
    hall.room roomid = room := by
  rw [Hall.room, hroom, Option.getD_some]

theorem room_setRoom (hall : Hall) (roomid roomid' : RoomId) (room : Room) :
    (hall.setRoom roomid room).room roomid' = if roomid' =
    roomid then room else hall.room roomid' := by
  unfold Hall.room setRoom
  rw [LuaTable.get_set]
  simp only [eq_comm (a := roomid)]
  split_ifs <;> rfl

theorem get_of_isMember {uid : Uid} {roomid : RoomId} (hmem : hall.isMember uid roomid) :
    hall.rooms.get roomid = some (hall.room roomid) := by
  unfold isMember Hall.room at *
  cases hroom : hall.rooms.get roomid with
  | none =>
      rw [hroom] at hmem
      simp at hmem
  | some room => rfl

/-- `Membership` with what it takes to carry it through a run. -/
structure HallInv (hall : Hall) : Prop extends Registry hall where
  count : ∀ roomid, (hall.room roomid).memberCount = (hall.room roomid).members.size
  inverse : ∀ uid roomid, hall.isMember uid roomid ↔ hall.inRoom uid roomid

theorem HallInv.membership (hinv : HallInv hall) : Membership hall := by
  refine ⟨fun roomid room hroom => ?_, fun uid ref roomid href => ?_⟩
  · have hcount := hinv.count roomid
    rw [room_of_get hroom] at hcount
    rw [hcount]
    exact ⟨rfl, Int.natCast_nonneg _⟩
  · rw [← inRoom_of_get href, ← hinv.inverse]
    constructor
    · intro hmem
      exact ⟨_, get_of_isMember hmem, hmem⟩
    · rintro ⟨room, hroom, hmem⟩
      rwa [isMember, room_of_get hroom]

theorem HallInv.congr (hinv : HallInv hall) (hreg : Registry hall')
    (hrooms : hall'.rooms = hall.rooms)
    (hin : ∀ uid roomid, hall'.inRoom uid roomid ↔ hall.inRoom uid roomid) : HallInv hall' := by
  have hroom : ∀ roomid, hall'.room roomid = hall.room roomid := by
    intro roomid
    rw [Hall.room, hrooms]
    rfl
  refine ⟨hreg, fun roomid => ?_, fun uid roomid => ?_⟩
  · rw [hroom]
    exact hinv.count roomid
  · rw [hin, isMember, hroom]
    exact hinv.inverse uid roomid

theorem inRoom_modify (hall : Hall) (ref : Ref) {f : User → User}
    (hf : ∀ user, (f user).roomid = user.roomid) (uid : Uid) (roomid : RoomId) :
    (hall.modify ref f).inRoom uid roomid ↔ hall.inRoom uid roomid := by
  have hroomid : ∀ ref', ((hall.modify ref f).user ref').roomid = (hall.user ref').roomid := by
    intro ref'
    rw [user_modify]
    split_ifs with href
    · rw [hf, href]
    · rfl
  unfold inRoom
  simp only [hroomid]
  rfl

/-- A user whose room id is cleared is in no room, and nobody else moves. -/
theorem Registry.inRoom_clear (hreg : Registry hall) {uid : Uid} {ref : Ref}
    (href : hall.users.get uid = some ref) (uid' : Uid) (roomid : RoomId) :
    (hall.modify ref fun user => { user with roomid := none }).inRoom uid' roomid ↔
      uid' ≠ uid ∧ hall.inRoom uid' roomid := by
  have huser := fun ref' => user_modify hall ref ref' fun user => { user with roomid := none }
  constructor
  · rintro ⟨ref', href', hroomid⟩
    rw [huser] at hroomid
    split_ifs at hroomid with hsame
    refine ⟨?_, ref', href', hroomid⟩
    rintro rfl
    exact hsame (Option.some.inj (href'.symm.trans href))
  · rintro ⟨hne, ref', href', hroomid⟩
    refine ⟨ref', href', ?_⟩
    rw [huser, if_neg]
    · exact hroomid
    · rintro rfl
      exact hne ((hreg.uid uid' ref' href').symm.trans (hreg.uid uid ref' href))

/-- A member leaves: he is taken out of the table, out of the number and out of his object. -/
theorem HallInv.leave (hinv : HallInv hall) {uid : Uid} {ref : Ref} {roomid : RoomId} {room : Room}
    (href : hall.users.get uid = some ref) (hroom : hall.rooms.get roomid = some room)
    (hmem : (room.members.get uid).isSome = true) :
    HallInv ((hall.modify ref fun user => { user with roomid := none }).setRoom roomid { room with
      members := room.members.erase uid
      memberCount := room.memberCount - 1 }) := by
  have hin :
      ∀ uid' roomid', ((hall.modify ref fun user => { user with roomid := none }).setRoom roomid
      { room with members := room.members.erase uid, memberCount := room.memberCount - 1 }).inRoom
        uid' roomid' ↔ uid' ≠ uid ∧ hall.inRoom uid' roomid' :=
    hinv.toRegistry.inRoom_clear href
  have hroom' := room_of_get hroom
  refine ⟨(hinv.toRegistry.clear ref).setRoom _ _, ?_, ?_⟩
  · intro roomid'
    rw [room_setRoom]
    split_ifs with hsame
    · show room.memberCount - 1 = ((room.members.erase uid).size : Int)
      have hcount := hinv.count roomid
      rw [hroom'] at hcount
      rw [LuaTable.size_erase, hcount, if_pos hmem]
    · exact hinv.count roomid'
  · intro uid' roomid'
    rw [hin, isMember, room_setRoom]
    split_ifs with hsame
    · subst hsame
      show ((room.members.erase uid).get uid').isSome = true ↔ _
      rw [LuaTable.get_erase, ← hinv.inverse, isMember, hroom']
      split_ifs with huid
      · simp [huid]
      · simp [Ne.symm huid]
    · have hother := hinv.inverse uid' roomid'
      refine hother.trans ⟨fun hin' => ⟨?_, hin'⟩, fun h => h.2⟩
      -- he would be in two rooms
      rintro rfl
      rw [inRoom_of_get href] at hin'
      have hthis := (hinv.inverse uid' roomid).1 (by rwa [isMember, hroom'])
      rw [inRoom_of_get href, hin', Option.some.injEq] at hthis
      exact hsame hthis

end Invariant

section Closing

def Shrinks (hall hall' : Hall) : Prop :=
  ∀ uid roomid, hall'.inRoom uid roomid → hall.inRoom uid roomid

/-- The members of a room and their number are all that matters of it. -/
theorem HallInv.setRoom (hinv : HallInv hall) {roomid : RoomId} {room : Room}
    (hmembers : room.members = (hall.room roomid).members)
    (hcount : room.memberCount = (hall.room roomid).memberCount) :
    HallInv (hall.setRoom roomid room) := by
  refine ⟨hinv.toRegistry.setRoom _ _, fun roomid' => ?_, fun uid roomid' => ?_⟩
  · rw [room_setRoom]
    split_ifs
    · rw [hmembers, hcount]
      exact hinv.count roomid
    · exact hinv.count roomid'
  · refine Iff.trans ?_ (hinv.inverse uid roomid')
    rw [isMember, isMember, room_setRoom]
    split_ifs with hsame
    · rw [hsame, hmembers]
    · rfl

theorem HallInv.killAgent (hinv : HallInv hall) (data : ExitData) :
    HallInv (hall.killAgent data) := by
  rcases hall.killAgent_eq data with hsame | ⟨room, hroom, hzero, hkill⟩
  · rw [hsame]
    exact hinv
  · rw [hkill]
    apply hinv.setRoom
    · rw [room_of_get hroom]
    · rw [room_of_get hroom, hzero]

theorem killAgent_inRoom (hall : Hall) (data : ExitData) (uid : Uid) (roomid : RoomId) :
    (hall.killAgent data).inRoom uid roomid ↔ hall.inRoom uid roomid := by
  rcases hall.killAgent_eq data with h | ⟨room, -, -, h⟩
  · rw [h]
  · rw [h]
    rfl

theorem HallInv.exitMember (hinv : HallInv hall) (data : ExitData) :
    HallInv (hall.exitMember data) ∧ Shrinks hall (hall.exitMember data) ∧
      ¬(hall.exitMember data).inRoom data.id data.roomid := by
  rcases hall.exitMember_eq data with ⟨ref, room, href, hroom, hmem, hexit⟩ | ⟨hexit, hout⟩
  · have hleave := hinv.leave href hroom hmem
    rw [← hinv.uid _ _ href] at hleave
    have hin : ∀ uid roomid, (hall.exitMember data).inRoom uid roomid ↔
        uid ≠ data.id ∧ hall.inRoom uid roomid := by
      intro uid roomid
      rw [hexit, killAgent_inRoom]
      exact hinv.toRegistry.inRoom_clear href uid roomid
    refine ⟨?_, fun uid roomid h => ((hin uid roomid).1 h).2, fun h => ((hin _ _).1 h).1 rfl⟩
    rw [hexit]
    exact hleave.killAgent data
  · rw [hexit]
    refine ⟨hinv.killAgent data, fun uid roomid => (killAgent_inRoom ..).1, ?_⟩
    rw [killAgent_inRoom]
    intro hin
    have hmem := (hinv.inverse _ _).2 hin
    obtain ⟨ref, href, -⟩ := hin
    have hnone := hout ref _ href (get_of_isMember hmem)
    rw [isMember, hnone] at hmem
    cases hmem

theorem inRoom_hangUp (hall : Hall) (ref : Ref) (uid : Uid) (roomid : RoomId) :
    (hall.modify ref fun user => { user with fd := none }).inRoom uid roomid ↔
      hall.inRoom uid roomid :=
  inRoom_modify hall ref (f := fun user => { user with fd := none }) (fun _ => rfl) uid roomid

theorem HallInv.hangUp (hinv : HallInv hall) (ref : Ref) :
    HallInv (hall.modify ref fun user => { user with fd := none }) :=
  hinv.congr (hinv.toRegistry.hangUp ref) rfl (inRoom_hangUp hall ref)

theorem inRoom_forget {ref : Ref}
    (hown : hall.users.get (hall.user ref).uid = some ref) (hout : (hall.user ref).roomid = none)
    (uid : Uid) (roomid : RoomId) :
    ({ hall with users := hall.users.erase (hall.user ref).uid }.modify ref
      fun user => { user with fd := none }).inRoom uid roomid ↔ hall.inRoom uid roomid := by
  rw [inRoom_hangUp]
  unfold inRoom
  simp only [LuaTable.get_erase]
  split_ifs with huid
  · rw [← huid, hown]
    simp [hout]
  · rfl

theorem Registry.own (hreg : Registry hall) {fd : Fd} {ref : Ref}
    (hconn : hall.conns.get fd = some (some ref)) (hfd : (hall.user ref).fd.isSome = true) :
    (hall.user ref).fd = some fd ∧ hall.users.get (hall.user ref).uid = some ref := by
  rcases (hreg.conn fd ref hconn).2 with hown | hnone
  · exact hown
  · rw [hnone] at hfd
    cases hfd

/-- A connection that is closed without an exit leaves the rooms and who is in them alone. -/
theorem Registry.closeConn_none (hreg : Registry hall) (fd : Fd) :
    Registry (hall.closeConn fd none) ∧ (hall.closeConn fd none).rooms = hall.rooms ∧
      ∀ uid roomid, (hall.closeConn fd none).inRoom uid roomid ↔ hall.inRoom uid roomid := by
  rcases hall.closeConn_cases fd none with ⟨-, h⟩ | ⟨hung, h, hhung⟩
  · rw [h]
    exact ⟨hreg, rfl, fun _ _ => Iff.rfl⟩
  · rw [h]
    rcases hhung with rfl | ⟨ref, hconn, hfd, ⟨hout, rfl⟩ | rfl | ⟨data, hdata, -⟩⟩
    · exact ⟨hreg.eraseConn fd, rfl, fun _ _ => Iff.rfl⟩
    · have hown := (hreg.own hconn (by rw [hfd]; rfl)).2
      exact ⟨(hreg.forget hown).eraseConn fd, rfl, inRoom_forget hown hout⟩
    · exact ⟨(hreg.hangUp ref).eraseConn fd, rfl, inRoom_hangUp hall ref⟩
    · cases hdata

theorem HallInv.closeConn (hinv : HallInv hall) (fd : Fd) (exit : Option ExitData) :
    HallInv (hall.closeConn fd exit) ∧ Shrinks hall (hall.closeConn fd exit) := by
  have hclosed := hinv.toRegistry.closeConn_none fd
  rcases hall.closeConn_cases fd exit with ⟨-, h⟩ | ⟨hung, h, hhung⟩
  · rw [h]
    exact ⟨hinv, fun _ _ h => h⟩
  · rw [h]
    rcases hhung with rfl | ⟨ref, hconn, hfd, ⟨hout, rfl⟩ | rfl | ⟨data, -, rfl⟩⟩
    · exact ⟨hinv.congr (hinv.toRegistry.eraseConn fd) rfl fun _ _ => Iff.rfl, fun _ _ h => h⟩
    · have hown := (hinv.toRegistry.own hconn (by rw [hfd]; rfl)).2
      have hin := inRoom_forget hown hout
      exact ⟨hinv.congr ((hinv.toRegistry.forget hown).eraseConn fd) rfl hin,
        fun uid roomid => (hin uid roomid).1⟩
    · have hin := inRoom_hangUp hall ref
      exact ⟨hinv.congr ((hinv.toRegistry.hangUp ref).eraseConn fd) rfl hin,
        fun uid roomid => (hin uid roomid).1⟩
    · obtain ⟨hexit, hshrinks, -⟩ := hinv.exitMember data
      have hreg := (hexit.hangUp ref).toRegistry.eraseConn fd
      have hin := inRoom_hangUp (hall.exitMember data) ref
      rw [← exitMember_conns hall data]
      exact ⟨hexit.congr hreg rfl hin, fun uid roomid h => hshrinks _ _ ((hin uid roomid).1 h)⟩

theorem HallInv.closeUser (hinv : HallInv hall) (ref : Ref) : HallInv (hall.closeUser ref) := by
  unfold Hall.closeUser
  split
  · exact hinv
  · exact (hinv.closeConn _ none).1.hangUp ref

end Closing

section Emptying

theorem HallInv.clearUserRoominfo (hinv : HallInv hall) (uid : Uid) :
    HallInv (hall.clearUserRoominfo uid) := by
  unfold Hall.clearUserRoominfo
  cases href : hall.users.get uid with
  | none => exact hinv
  | some ref =>
      have huid := hinv.uid uid ref href
      apply HallInv.closeUser
      unfold leaveRoom
      cases hroomid : (hall.user ref).roomid with
      | none =>
          refine hinv.congr (hinv.toRegistry.clear ref) rfl fun uid' roomid => ?_
          rw [hinv.toRegistry.inRoom_clear href]
          refine ⟨fun h => h.2, fun h => ⟨?_, h⟩⟩
          rintro rfl
          rw [inRoom_of_get href, hroomid] at h
          cases h
      | some roomid =>
          have hmem := (hinv.inverse uid roomid).2 ((inRoom_of_get href roomid).2 hroomid)
          have hroom := get_of_isMember hmem
          rw [isMember] at hmem
          dsimp only
          rw [hroom]
          dsimp only
          rw [huid, if_pos hmem]
          exact hinv.leave href hroom hmem

theorem Registry.quitUser (hreg : Registry hall) (uid : Uid) :
    Registry (hall.quitUser uid) ∧ (hall.quitUser uid).rooms = hall.rooms ∧
      ∀ uid' roomid, (hall.quitUser uid).inRoom uid' roomid ↔
        uid' ≠ uid ∧ hall.inRoom uid' roomid := by
  unfold Hall.quitUser
  cases href : hall.users.get uid with
  | none =>
      refine ⟨hreg, rfl, fun uid' roomid => ⟨fun h => ⟨?_, h⟩, fun h => h.2⟩⟩
      rintro rfl
      obtain ⟨ref, href', -⟩ := h
      rw [href] at href'
      cases href'
  | some ref =>
      have hclear := hreg.inRoom_clear href
      dsimp only
      unfold closeUser
      split
      · exact ⟨hreg.clear ref, rfl, hclear⟩
      · obtain ⟨hreg', hrooms, hin⟩ := (hreg.clear ref).closeConn_none ‹_›
        refine ⟨hreg'.hangUp ref, hrooms, fun uid' roomid => ?_⟩
        rw [inRoom_hangUp, hin, hclear]

theorem Registry.foldl_quitUser (hreg : Registry hall) (uids : List Uid) :
    Registry (uids.foldl Hall.quitUser hall) ∧ (uids.foldl Hall.quitUser hall).rooms = hall.rooms ∧
      ∀ uid' roomid, (uids.foldl Hall.quitUser hall).inRoom uid' roomid ↔
        uid' ∉ uids ∧ hall.inRoom uid' roomid := by
  induction uids generalizing hall with
  | nil => exact ⟨hreg, rfl, fun _ _ => by simp⟩
  | cons uid uids ih =>
      obtain ⟨hreg', hrooms, hin⟩ := hreg.quitUser uid
      obtain ⟨hreg'', hrooms', hin'⟩ := ih hreg'
      refine ⟨hreg'', hrooms'.trans hrooms, fun uid' roomid => ?_⟩
      rw [List.foldl_cons, hin', hin, List.mem_cons, not_or]
      tauto

theorem HallInv.forceQuitRoom (hinv : HallInv hall) (roomid : RoomId) :
    HallInv (hall.forceQuitRoom roomid) := by
  unfold Hall.forceQuitRoom
  cases hroom : hall.rooms.get roomid with
  | none => exact hinv
  | some room =>
      obtain ⟨hreg, hrooms, hin⟩ := hinv.toRegistry.foldl_quitUser room.members.keys
      have hkeys : ∀ uid, uid ∈ room.members.keys ↔ hall.inRoom uid roomid := by
        intro uid
        rw [← hinv.inverse, isMember, room_of_get hroom, LuaTable.mem_keys_iff,
          Option.isSome_iff_exists]
      have hother : ∀ roomid', (room.members.keys.foldl quitUser hall).room roomid' =
          hall.room roomid' := by
        intro roomid'
        rw [Hall.room, hrooms]
        rfl
      refine ⟨hreg.setRoom _ _, fun roomid' => ?_, fun uid roomid' => ?_⟩
      · rw [room_setRoom, hother]
        split_ifs
        · rfl
        · exact hinv.count roomid'
      · refine Iff.trans ?_ (hin uid roomid').symm
        rw [isMember, room_setRoom, hother, hkeys]
        split_ifs with hsame
        · rw [hsame]
          simp
        · refine (hinv.inverse uid roomid').trans ⟨fun h => ⟨fun hthis => hsame ?_, h⟩,
            fun h => h.2⟩
          obtain ⟨ref, href, hroomid⟩ := h
          rw [inRoom_of_get href, hroomid] at hthis
          exact Option.some.inj hthis

end Emptying

section Coming

theorem closeConn_conns (hall : Hall) (fd fd' : Fd) (exit : Option ExitData) :
    (hall.closeConn fd exit).conns.get fd' = if fd = fd' then none else hall.conns.get fd' := by
  rcases hall.closeConn_cases fd exit with ⟨hnone, h⟩ | ⟨hung, h, -⟩
  · rw [h]
    split_ifs with hsame
    · rw [← hsame, hnone]
    · rfl
  · rw [h]
    exact LuaTable.get_erase ..

theorem killAgent_user (hall : Hall) (data : ExitData) :
    (hall.killAgent data).user = hall.user := by
  rcases hall.killAgent_eq data with h | ⟨room, -, -, h⟩
  · rw [h]
  · rw [h]
    rfl

theorem sameObject_exitMember (hall : Hall) (data : ExitData) (ref : Ref) :
    SameObject (hall.user ref) ((hall.exitMember data).user ref) := by
  rcases hall.exitMember_eq data with ⟨ref', room, -, -, -, h⟩ | ⟨h, -⟩
  · rw [h, killAgent_user]
    exact (SameObject.refl _).modify sameObject_clear
  · rw [h, killAgent_user]
    exact SameObject.refl _

theorem sameObject_closeConn (hall : Hall) (fd : Fd) (exit : Option ExitData) (ref : Ref) :
    SameObject (hall.user ref) ((hall.closeConn fd exit).user ref) := by
  rcases hall.closeConn_cases fd exit with ⟨-, h⟩ | ⟨hung, h, hhung⟩
  · rw [h]
    exact SameObject.refl _
  · rw [h]
    rcases hhung with rfl | ⟨ref', -, -, ⟨-, rfl⟩ | rfl | ⟨data, -, rfl⟩⟩
    · exact SameObject.refl _
    · exact (SameObject.refl (hall.user ref)).modify sameObject_hangUp
    · exact (SameObject.refl _).modify sameObject_hangUp
    · exact (hall.sameObject_exitMember data ref).modify sameObject_hangUp

/-- The service of his room removes a user whose connection is closed. -/
theorem HallInv.closeConn_exit (hinv : HallInv hall) {fd : Fd} {ref : Ref} {data : ExitData}
    (hconn : hall.conns.get fd = some (some ref)) (hfd : (hall.user ref).fd = some fd)
    (hroomid : (hall.user ref).roomid = some data.roomid)
    (hagent : (hall.rooms.get data.roomid).any Room.hasAgent = true) :
    ¬(hall.closeConn fd (some data)).inRoom data.id data.roomid := by
  have hclose : hall.closeConn fd (some data) =
      { (hall.exitMember data).modify ref fun user => { user with fd := none } with
        conns := (hall.exitMember data).conns.erase fd } := by
    unfold Hall.closeConn closeOwn
    rw [hconn]
    dsimp only
    rw [if_pos hfd, hroomid]
    dsimp only
    rw [if_pos hagent]
    rfl
  have hin := inRoom_hangUp (hall.exitMember data) ref data.id data.roomid
  rw [hclose]
  exact fun h => (hinv.exitMember data).2.2 (hin.1 h)

/-- Whoever has no object in a room, and no open connection, may be given a new object. -/
theorem HallInv.enterHall (hinv : HallInv hall) (fd : Fd) {uid : Uid}
    (hout : ∀ roomid, ¬hall.inRoom uid roomid)
    (hclosed : ∀ fd' ref, hall.conns.get fd' = some (some ref) → (hall.user ref).uid = uid →
      (hall.user ref).fd = none) : HallInv (hall.enterHall fd uid) := by
  have huser : ∀ ref, (hall.enterHall fd uid).user ref =
      if ref = hall.fresh then { uid, fd := some fd } else hall.user ref := by
    intro ref
    unfold Hall.enterHall
    split <;> exact user_modify hall hall.fresh ref fun _ => { uid, fd := some fd }
  have husers : (hall.enterHall fd uid).users = hall.users.set uid hall.fresh := by
    unfold Hall.enterHall
    split <;> rfl
  have hfresh : (hall.enterHall fd uid).fresh = hall.fresh + 1 := by
    unfold Hall.enterHall
    split <;> rfl
  have hrooms : (hall.enterHall fd uid).rooms = hall.rooms := by
    unfold Hall.enterHall
    split <;> rfl
  have hconns : ∀ fd' ref, (hall.enterHall fd uid).conns.get fd' = some (some ref) →
      fd' = fd ∧ ref = hall.fresh ∨ hall.conns.get fd' = some (some ref) := by
    intro fd' ref hconn
    unfold Hall.enterHall at hconn
    split at hconn
    · exact Or.inr hconn
    · rw [LuaTable.get_set] at hconn
      split_ifs at hconn with hsame
      · cases hconn
        exact Or.inl ⟨hsame.symm, rfl⟩
      · exact Or.inr hconn
  have hold : ∀ uid' ref, hall.users.get uid' = some ref → ref ≠ hall.fresh :=
    fun uid' ref href => Nat.ne_of_lt (hinv.known uid' ref href)
  refine hinv.congr ⟨fun uid' ref href => ?_, fun uid' ref href => ?_,
    fun fd' ref hconn => ?_⟩ hrooms
    fun uid' roomid => ?_
  · rw [husers, LuaTable.get_set] at href
    rw [huser]
    split_ifs at href with hsame
    · cases href
      rw [if_pos rfl, ← hsame]
    · rw [if_neg (hold uid' ref href)]
      exact hinv.uid uid' ref href
  · rw [husers, LuaTable.get_set] at href
    rw [hfresh]
    split_ifs at href with hsame
    · cases href
      exact Nat.lt_succ_self _
    · exact Nat.lt_succ_of_lt (hinv.known uid' ref href)
  · rw [hfresh, huser, husers]
    rcases hconns fd' ref hconn with ⟨rfl, rfl⟩ | hconn'
    · rw [if_pos rfl]
      exact ⟨Nat.lt_succ_self _, Or.inl ⟨rfl, LuaTable.get_set_self ..⟩⟩
    · obtain ⟨hlt, hown⟩ := hinv.conn fd' ref hconn'
      rw [if_neg (Nat.ne_of_lt hlt)]
      refine ⟨Nat.lt_succ_of_lt hlt, ?_⟩
      by_cases huid : (hall.user ref).uid = uid
      · exact Or.inr (hclosed fd' ref hconn' huid)
      · rw [LuaTable.get_set_of_ne _ _ (Ne.symm huid)]
        exact hown
  · by_cases huid : uid' = uid
    · subst huid
      have href : (hall.enterHall fd uid').users.get uid' = some hall.fresh := by
        rw [husers, LuaTable.get_set_self]
      rw [inRoom_of_get href, huser, if_pos rfl]
      simp [hout]
    · unfold inRoom
      rw [husers, LuaTable.get_set_of_ne _ _ (Ne.symm huid)]
      constructor
      · rintro ⟨ref, href, hroomid⟩
        rw [huser, if_neg (hold uid' ref href)] at hroomid
        exact ⟨ref, href, hroomid⟩
      · rintro ⟨ref, href, hroomid⟩
        refine ⟨ref, href, ?_⟩
        rw [huser, if_neg (hold uid' ref href)]
        exact hroomid

theorem HallInv.login (hinv : HallInv hall) {fd : Fd} {uid : Uid} {exit : Option ExitData}
    (hclean : hall.leavesNoRoom fd uid exit = true) : HallInv (hall.login fd uid exit) := by
  unfold leavesNoRoom at hclean
  unfold Hall.login
  cases hold : hall.users.get uid with
  | none =>
      refine hinv.enterHall fd (fun roomid hin => ?_) fun fd' ref hconn huid => ?_
      · obtain ⟨ref, href, -⟩ := hin
        rw [hold] at href
        cases href
      · rcases (hinv.conn fd' ref hconn).2 with ⟨-, hown⟩ | hnone
        · rw [huid, hold] at hown
          cases hown
        · exact hnone
  | some old =>
      rw [hold, Option.all_some] at hclean
      -- whose connections are open is known from the old object
      have hopen : ∀ fd' ref, hall.conns.get fd' = some (some ref) → (hall.user ref).uid = uid →
          (hall.user ref).fd = none ∨ ref = old ∧ (hall.user old).fd = some fd' := by
        intro fd' ref hconn huid
        rcases (hinv.conn fd' ref hconn).2 with ⟨hfd, hown⟩ | hnone
        · rw [huid, hold, Option.some.injEq] at hown
          subst hown
          exact Or.inr ⟨rfl, hfd⟩
        · exact Or.inl hnone
      dsimp only
      cases holdFd : (hall.user old).fd with
      | none =>
          rw [holdFd] at hclean
          refine hinv.enterHall fd (fun roomid hin => ?_) fun fd' ref hconn huid => ?_
          · rw [inRoom_of_get hold] at hin
            rw [hin] at hclean
            cases hclean
          · rcases hopen fd' ref hconn huid with hnone | ⟨-, hfd⟩
            · exact hnone
            · rw [holdFd] at hfd
              cases hfd
      | some oldFd =>
          dsimp only
          split_ifs with hsame
          · exact hinv
          · obtain ⟨hclosed, hshrinks⟩ := hinv.closeConn oldFd exit
            refine hclosed.enterHall fd (fun roomid hin => ?_) fun fd' ref hconn huid => ?_
            · have hroomid := (inRoom_of_get hold roomid).1 (hshrinks uid roomid hin)
              rw [hroomid, holdFd] at hclean
              cases exit with
              | none => simp [hsame] at hclean
              | some data =>
                  simp only [Option.all_some, Option.any_some, hsame, decide_false, Bool.false_or,
                    Bool.and_eq_true, decide_eq_true_eq] at hclean
                  obtain ⟨⟨hconn, hagent⟩, rfl, rfl⟩ := hclean
                  exact hinv.closeConn_exit hconn holdFd hroomid hagent hin
            · obtain ⟨huid', hfd⟩ := hall.sameObject_closeConn oldFd exit ref
              rw [closeConn_conns] at hconn
              split_ifs at hconn with hother
              rcases hopen fd' ref hconn (huid'.symm.trans huid) with hnone | ⟨-, holdFd'⟩
              · rw [hnone] at hfd
                exact hfd.elim id id
              · rw [holdFd, Option.some.injEq] at holdFd'
                exact absurd holdFd' hother

theorem mem_set_iff (members : LuaTable Uid String) (uid uid' : Uid) (name : String) :
    ((members.set uid name).get uid').isSome = true ↔
      uid' = uid ∨ (members.get uid').isSome = true := by
  rw [LuaTable.get_set]
  split_ifs with huid
  · simp [huid]
  · simp [Ne.symm huid]

theorem sameObject_enter (roomid : RoomId) (user : User) :
    SameObject user { user with roomid := some roomid } := ⟨rfl, Or.inl rfl⟩

/-- A user of no room whose room id is set is in that room, and nobody else moves. -/
theorem Registry.inRoom_enter (hreg : Registry hall) {ref : Ref} {roomid : RoomId}
    (hown : hall.users.get (hall.user ref).uid = some ref) (hout : (hall.user ref).roomid = none)
    (uid' : Uid) (roomid' : RoomId) :
    (hall.modify ref fun user => { user with roomid := some roomid }).inRoom uid' roomid' ↔
      uid' = (hall.user ref).uid ∧ roomid' = roomid ∨ hall.inRoom uid' roomid' := by
  have huser :=
    fun ref' => user_modify hall ref ref' fun user => { user with roomid := some roomid }
  constructor
  · rintro ⟨ref', href', hroomid⟩
    rw [huser] at hroomid
    split_ifs at hroomid with hsame
    · left
      subst hsame
      exact ⟨(hreg.uid uid' ref' href').symm, (Option.some.inj hroomid).symm⟩
    · exact Or.inr ⟨ref', href', hroomid⟩
  · rintro (⟨rfl, rfl⟩ | ⟨ref', href', hroomid⟩)
    · refine ⟨ref, hown, ?_⟩
      rw [huser, if_pos rfl]
    · refine ⟨ref', href', ?_⟩
      rw [huser, if_neg]
      · exact hroomid
      · rintro rfl
        rw [hout] at hroomid
        cases hroomid

/-- A named user joins a room. His object names it already or names none. -/
theorem HallInv.join (hinv : HallInv hall) {ref : Ref} {roomid : RoomId} {room : Room}
    (name : String)
    (hown : hall.users.get (hall.user ref).uid = some ref)
    (hmembers : room.members = (hall.room roomid).members)
    (hcount : room.memberCount = (hall.room roomid).memberCount)
    (hold : ∀ old, (hall.user ref).roomid = some old → old = roomid) :
    HallInv (hall.join ref roomid room (some name)) := by
  have hmem : ∀ uid', (((room.members.set (hall.user ref).uid name).get uid').isSome = true) ↔
      uid' = (hall.user ref).uid ∨ hall.inRoom uid' roomid := by
    intro uid'
    rw [mem_set_iff, ← hinv.inverse, isMember, hmembers]
  have hsize := LuaTable.size_set room.members (hall.user ref).uid name
  have hthis := hinv.inverse (hall.user ref).uid roomid
  rw [isMember, ← hmembers, inRoom_of_get hown] at hthis
  unfold Hall.join
  dsimp only
  split_ifs with hroomid
  · rw [if_pos (hthis.2 hroomid)] at hsize
    refine ⟨hinv.toRegistry.setRoom _ _, fun roomid' => ?_, fun uid' roomid' => ?_⟩
    · rw [room_setRoom]
      split_ifs
      · dsimp only
        rw [hsize, hcount, hinv.count, hmembers, add_zero]
      · exact hinv.count roomid'
    · show _ ↔ hall.inRoom uid' roomid'
      rw [isMember, room_setRoom]
      split_ifs with hsame
      · rw [hsame, hmem]
        refine ⟨fun h => h.elim (fun huid => ?_) id, Or.inr⟩
        rw [huid, inRoom_of_get hown]
        exact hroomid
      · exact hinv.inverse uid' roomid'
  · have hout : (hall.user ref).roomid = none := by
      cases h : (hall.user ref).roomid with
      | none => rfl
      | some old => exact absurd (h.trans (congrArg some (hold old h))) hroomid
    rw [if_neg fun h => hroomid (hthis.1 h)] at hsize
    refine ⟨(hinv.toRegistry.setRoom _ _).modify (sameObject_enter roomid), fun roomid' => ?_,
      fun uid' roomid' => ?_⟩
    · show ((hall.setRoom roomid _).room roomid').memberCount =
        ((hall.setRoom roomid _).room roomid').members.size
      rw [room_setRoom]
      split_ifs
      · dsimp only
        rw [hsize, hcount, hinv.count, hmembers]
      · exact hinv.count roomid'
    · refine Iff.trans ?_ (hinv.toRegistry.inRoom_enter hown hout uid' roomid').symm
      show ((((hall.setRoom roomid _).room roomid').members.get uid').isSome = true) ↔ _
      rw [room_setRoom]
      split_ifs with hsame
      · rw [hsame, hmem]
        simp
      · rw [or_iff_right fun h => hsame h.2]
        exact hinv.inverse uid' roomid'

theorem mayJoin_iff {ref : Ref} {roomid : RoomId} {name : Option String} :
    hall.mayJoin ref roomid name = true ↔
      name.isSome = true ∧ ∀ old, (hall.user ref).roomid = some old → old = roomid := by
  rw [mayJoin, Bool.and_eq_true]
  refine and_congr_right fun _ => ?_
  cases (hall.user ref).roomid <;> simp

theorem HallInv.online (hinv : HallInv hall) {fd : Fd} {ref : Ref}
    (honline : hall.online fd = some ref) :
    hall.users.get (hall.user ref).uid = some ref := by
  rw [Hall.online, Option.filter_eq_some_iff, Option.join_eq_some_iff] at honline
  exact (hinv.toRegistry.own honline.1 honline.2).2

theorem HallInv.enterRoom (hinv : HallInv hall) {fd : Fd} {roomid : RoomId}
    {userName : Option (Option String)} {started : Bool}
    (hclean : hall.clean (.enterRoom fd roomid userName started) = true) :
    HallInv (hall.enterRoom fd roomid userName started) := by
  unfold Hall.enterRoom
  simp only [clean] at hclean
  cases honline : hall.online fd with
  | none => exact hinv
  | some ref =>
      have hown := hinv.online honline
      have hcreate : HallInv (hall.setRoom roomid (hall.room roomid)) := hinv.setRoom rfl rfl
      dsimp only
      cases userName with
      | none => exact hcreate
      | some name =>
          rw [honline, Option.all_some, Option.all_some, Bool.and_eq_true, mayJoin_iff] at hclean
          obtain ⟨⟨hname, hold⟩, hstarted⟩ := hclean
          obtain ⟨name, rfl⟩ := Option.isSome_iff_exists.1 hname
          have hstart : (((hall.rooms.get roomid).getD {}).hasAgent || started) = true := by
            rw [Bool.or_eq_true] at hstarted ⊢
            refine hstarted.imp_left fun hagent => ?_
            cases hroom : hall.rooms.get roomid with
            | none =>
                rw [hroom] at hagent
                cases hagent
            | some room =>
                rw [hroom] at hagent
                exact hagent
          dsimp only
          rw [if_pos hstart]
          apply hcreate.join name hown
          · rw [room_setRoom, if_pos rfl]
            rfl
          · rw [room_setRoom, if_pos rfl]
            rfl
          · exact hold

theorem HallInv.enterRoomDaboluo (hinv : HallInv hall) {fd : Fd} {found : Option RoomId}
    {result : EnterResult} (hclean : hall.clean (.enterRoomDaboluo fd found result) = true) :
    HallInv (hall.enterRoomDaboluo fd found result) := by
  unfold Hall.enterRoomDaboluo
  simp only [clean] at hclean
  cases honline : hall.online fd with
  | none => exact hinv
  | some ref =>
      have hown := hinv.online honline
      rw [honline, Option.all_some] at hclean
      dsimp only
      cases found with
      | none => exact hinv.closeUser ref
      | some roomid =>
          cases hroom : hall.rooms.get roomid with
          | none =>
              simp only [Option.bind_some, hroom, Option.map_none]
              exact hinv.closeUser ref
          | some room =>
              simp only [Option.bind_some, hroom, Option.map_some]
              split
              · exact hinv
              · cases result with
                | noAccount => exact hinv
                | poor => exact hinv.closeUser ref
                | noAgent =>
                    dsimp only
                    split_ifs
                    · exact hinv
                    · exact hinv.closeUser ref
                | ok name =>
                    obtain ⟨hname, hold⟩ := mayJoin_iff.1 hclean
                    obtain ⟨name, rfl⟩ := Option.isSome_iff_exists.1 hname
                    apply hinv.join name hown
                    · rw [room_of_get hroom]
                    · rw [room_of_get hroom]
                    · exact hold

end Coming

section Run

theorem HallInv.step (hinv : HallInv hall) {event : Event} (hclean : hall.clean event = true) :
    HallInv (hall.step event) := by
  cases event with
  | «open» fd =>
      refine hinv.congr ⟨hinv.uid, hinv.known, fun fd' ref hconn => ?_⟩ rfl fun _ _ => Iff.rfl
      have hconn' : (hall.conns.set fd none).get fd' = some (some ref) := hconn
      rw [LuaTable.get_set] at hconn'
      split_ifs at hconn'
      · cases hconn'
      · exact hinv.conn fd' ref hconn'
  | login fd uid exit => exact hinv.login hclean
  | enterRoom fd roomid userName started => exact hinv.enterRoom hclean
  | enterRoomDaboluo fd found result => exact hinv.enterRoomDaboluo hclean
  | exitMember data => exact (hinv.exitMember data).1
  | clearUserRoominfo uid => exact hinv.clearUserRoominfo uid
  | forceQuitRoom roomid => exact hinv.forceQuitRoom roomid
  | closeConn fd exit => exact (hinv.closeConn fd exit).1

/-- The hall as `room_config.init_room` leaves it. -/
def init (roomids : List RoomId) : Hall := { rooms := LuaTable.ofKeys roomids fun _ => {} }

theorem room_init (roomids : List RoomId) (roomid : RoomId) :
    (Hall.init roomids).room roomid = {} := by
  unfold Hall.room Hall.init
  rw [LuaTable.get_ofKeys]
  split_ifs <;> rfl

theorem HallInv.init (roomids : List RoomId) : HallInv (Hall.init roomids) := by
  have hnone : ∀ uid, (Hall.init roomids).users.get uid = none := fun _ => rfl
  refine ⟨⟨fun _ _ href => ?_, fun _ _ href => ?_, fun _ _ hconn => ?_⟩, fun roomid => ?_,
    fun uid roomid => ?_⟩
  · cases href
  · cases href
  · cases hconn
  · rw [room_init]
    rfl
  · rw [isMember, room_init, inRoom, hnone]
    simp

/-- Two users come, one leaves with his connection, and the room is closed on the other. -/
def visit : List Event :=
  [.open 1, .login 1 100 none, .enterRoom 1 8 (some (some "a")) true,
    .open 2, .login 2 200 none, .enterRoom 2 8 (some (some "b")) true,
    .open 3, .login 3 200 (some { roomid := 8, id := 200 }),
    .closeConn 1 (some { roomid := 8, id := 100, round := 1 }),
    .open 4, .login 4 100 none, .enterRoomDaboluo 4 (some 900001) (.ok (some "a")),
    .forceQuitRoom 900001, .clearUserRoominfo 200]

/-- The service of the room keeps a user whose connection is replaced. -/
def relogin : List Event :=
  [.open 1, .login 1 100 none, .enterRoom 1 8 (some (some "a")) true,
    .open 2, .login 2 100 none, .enterRoom 2 8 (some (some "a")) true]

end Run

end SdyServer.RoomMgr.Hall
