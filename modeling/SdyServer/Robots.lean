import Mathlib.Logic.Function.Basic
import SdyServer.Lib.LuaTable
import SdyServer.Lib.Run

/-!
# Robots

The robots of all rooms are kept in one pool. A room that wants one asks the pool which are free,
signs one of them in, and only then has it marked; a room that lets one go has the mark taken off
before it forgets the robot. All of these wait for answers, so that two rooms can sign in the same
robot, and a robot that is leaving is free while its room still has it.
-/

namespace SdyServer.Robots

abbrev Account := Nat

abbrev RoomId := Nat

abbrev UserId := Nat

/-- A user in `room_robots`. -/
structure Robot where
  account : Account
  isRun : Bool
deriving DecidableEq, Repr

/-- Where a handler waits: `login` for the pool (which may have to read the table first), for the
two requests to the account service, for the mark, and for the number of people; `post_leave` for
the mark and for the number of people; `update_local_cache` for the table. -/
inductive Handler where
  | asking (room : RoomId)
  | reading (room : RoomId)
  | answered (room : RoomId) (freeRobots : List Account)
  | loggingIn (room : RoomId) (account : Account)
  | joining (room : RoomId) (account : Account) (id : UserId)
  | marking (room : RoomId) (account : Account) (id : UserId)
  | marked (room : RoomId) (account : Account) (id : UserId)
  | updating
  | leaving (room : RoomId) (account : Account) (id : UserId)
  | left (room : RoomId) (id : UserId)
  | counting (room : RoomId) (id : UserId)
  | refreshing
deriving DecidableEq, Repr

/-- `robots` of the pool with their `is_run`, which is nil at first, and `room_robots` of every
room. -/
structure State where
  robots : LuaTable Account Bool := ∅
  roomRobots : RoomId → LuaTable UserId Robot := fun _ => ∅
  handlers : LuaTable Nat Handler := ∅

/-- `postLeave` names the robot that the loop comes to first, `postLeaveUid` is that of a pk10 room
with an argument; `execute` is the pool at work on a message, `read` the answer of its table. -/
inductive Event where
  | login (h : Nat) (room : RoomId)
  | postLeave (h : Nat) (room : RoomId) (id : UserId)
  | postLeaveUid (h : Nat) (room : RoomId) (uid : UserId)
  | updateLocalCache (h : Nat)
  | execute (h : Nat)
  | read (h : Nat) (rows : List Account)
  | choose (h : Nat) (key : Nat)
  | loggedIn (h : Nat) (id : Option UserId)
  | resume (h : Nat)
  | fail (h : Nat)
deriving DecidableEq, Repr

section Pool

/-- `set_robot_run`. -/
def setRobotRun (robots : LuaTable Account Bool) (account : Account) (isRun : Bool) :
    LuaTable Account Bool :=
  match robots.get account with
  | some _ => robots.set account isRun
  | none => robots

/-- `db_mgr.get_robots` of the accounts in the table. -/
def getRobots (rows : List Account) : LuaTable Account Bool := LuaTable.ofKeys rows fun _ => false

/-- `update_local_cache` once the table is read: the robots that are known keep their state. -/
def localRobots (robots : LuaTable Account Bool) (rows : List Account) : LuaTable Account Bool :=
  LuaTable.ofKeys rows fun account => (robots.get account).getD false

def freeRobots (robots : LuaTable Account Bool) : List Account :=
  (robots.entries.filter fun robot => !robot.2).map Prod.fst

end Pool

/-- A login that the pool has answered, and that has not had its robot marked, may still take it. -/
def Handler.offers (account : Account) : Handler → Bool
  | .answered _ freeRobots => account ∈ freeRobots
  | .loggingIn _ account' => account' = account
  | .joining _ account' _ => account' = account
  | .marking _ account' _ => account' = account
  | _ => false

namespace State

section Model

def suspend (s : State) (h : Nat) (handler : Handler) : State :=
  { s with handlers := s.handlers.set h handler }

def finish (s : State) (h : Nat) : State := { s with handlers := s.handlers.erase h }

def setRoom (s : State) (room : RoomId) (robots : LuaTable UserId Robot) : State :=
  { s with roomRobots := Function.update s.roomRobots room robots }

/-- The end of the selection of `post_leave`. -/
def leave (s : State) (h : Nat) (room : RoomId) (id : UserId) (robot : Robot) : State :=
  (s.setRoom room ((s.roomRobots room).set id { robot with isRun := false })).suspend h
    (.leaving room robot.account id)

/-- The pool takes up the message of a handler. -/
def execute (s : State) (h : Nat) : Handler → State
  | .asking room =>
      if s.robots.size = 0 then s.suspend h (.reading room)
      else s.suspend h (.answered room (freeRobots s.robots))
  | .marking room account id =>
      { s with robots := setRobotRun s.robots account true }.suspend h (.marked room account id)
  | .leaving room account id =>
      { s with robots := setRobotRun s.robots account false }.suspend h (.left room id)
  | _ => s

def read (s : State) (h : Nat) (rows : List Account) : Handler → State
  | .reading room =>
      { s with robots := getRobots rows }.suspend h (.answered room (freeRobots (getRobots rows)))
  | .refreshing => { s with robots := localRobots s.robots rows }.finish h
  | _ => s

def choose (s : State) (h : Nat) (key : Nat) : Handler → State
  | .answered room freeRobots =>
      if freeRobots = [] then s.finish h
      else match freeRobots[key]? with
        | none => s
        | some account => s.suspend h (.loggingIn room account)
  | _ => s

def loggedIn (s : State) (h : Nat) (id : Option UserId) : Handler → State
  | .loggingIn room account =>
      match id with
      | none => s.finish h
      | some id => s.suspend h (.joining room account id)
  | _ => s

/-- The other answers. -/
def resume (s : State) (h : Nat) : Handler → State
  | .joining room account id => s.suspend h (.marking room account id)
  | .marked room account id =>
      (s.setRoom room ((s.roomRobots room).set id ⟨account, true⟩)).suspend h .updating
  | .updating => s.finish h
  | .left room id => s.suspend h (.counting room id)
  | .counting room id => (s.setRoom room ((s.roomRobots room).erase id)).finish h
  | _ => s

def step (s : State) : Event → State
  | .login h room => if (s.handlers.get h).isSome then s else s.suspend h (.asking room)
  | .postLeave h room id =>
      if (s.handlers.get h).isSome then s
      else match (s.roomRobots room).get id with
        | some robot => if robot.isRun then s.leave h room id robot else s
        | none => s
  | .postLeaveUid h room uid =>
      if (s.handlers.get h).isSome then s
      else match (s.roomRobots room).get uid with
        | some robot => s.leave h room uid robot
        | none => s
  | .updateLocalCache h => if (s.handlers.get h).isSome then s else s.suspend h .refreshing
  | .execute h => (s.handlers.get h).elim s (s.execute h)
  | .read h rows => (s.handlers.get h).elim s (s.read h rows)
  | .choose h key => (s.handlers.get h).elim s (s.choose h key)
  | .loggedIn h id => (s.handlers.get h).elim s (s.loggedIn h id)
  | .resume h => (s.handlers.get h).elim s (s.resume h)
  | .fail h => s.finish h

end Model

section Statement

variable (s : State)

def InRoom (room : RoomId) (account : Account) : Prop :=
  ∃ id robot, (s.roomRobots room).get id = some robot ∧ robot.account = account

/-- No account is in two rooms, and one that is not marked as running is in none. -/
structure Exclusive : Prop where
  one : ∀ account room room', s.InRoom room account → s.InRoom room' account → room = room'
  free : ∀ account, s.robots.get account = some false → ∀ room, ¬s.InRoom room account

/-- The handlers other than `h` are not on their way to have the robot marked. -/
def OnlyOffered (h : Nat) (account : Account) : Prop :=
  ∀ entry ∈ s.handlers.entries, entry.1 ≠ h → entry.2.offers account = false

instance (h : Nat) (account : Account) : Decidable (s.OnlyOffered h account) :=
  inferInstanceAs (Decidable (∀ _ ∈ _, _))

/-- A robot is marked as running for one login while no other one that the pool has answered may
still take it, and the pool knows it. None that the pool knows is marked as free again. -/
def FitsExecute (h : Nat) : Handler → Prop
  | .marking _ account _ => (s.robots.get account).isSome ∧ s.OnlyOffered h account
  | .leaving _ account _ => s.robots.get account = none
  | _ => True

instance (h : Nat) : ∀ handler, Decidable (s.FitsExecute h handler)
  | .marking .. => inferInstanceAs (Decidable (_ ∧ _))
  | .leaving .. => inferInstanceAs (Decidable (_ = _))
  | .asking _ | .reading _ | .answered .. | .loggingIn .. | .joining .. | .marked .. | .updating
  | .left .. | .counting .. | .refreshing => isTrue trivial

/-- What `get_free_robots` reads replaces the pool while no robot is running. What
`update_local_cache` reads has all that are. -/
def FitsRead (rows : List Account) : Handler → Prop
  | .reading _ => ∀ robot ∈ s.robots.entries, robot.2 = false
  | .refreshing => ∀ robot ∈ s.robots.entries, robot.2 = true → robot.1 ∈ rows
  | _ => True

instance (rows : List Account) : ∀ handler, Decidable (s.FitsRead rows handler)
  | .reading _ | .refreshing => inferInstanceAs (Decidable (∀ _ ∈ _, _))
  | .asking _ | .answered .. | .loggingIn .. | .joining .. | .marking .. | .marked .. | .updating
  | .leaving .. | .left .. | .counting .. => isTrue trivial

def Fits : Event → Prop
  | .execute h => ∀ handler ∈ s.handlers.get h, s.FitsExecute h handler
  | .read h rows => ∀ handler ∈ s.handlers.get h, s.FitsRead rows handler
  | _ => True

instance : ∀ event, Decidable (s.Fits event)
  | .execute _ | .read .. => inferInstanceAs (Decidable (∀ _ ∈ _, _))
  | .login .. | .postLeave .. | .postLeaveUid .. | .updateLocalCache _ | .choose .. | .loggedIn ..
  | .resume _ | .fail _ => isTrue trivial

end Statement

section Invariant

variable (s : State)

/-- A room has a robot, or is about to enter it. -/
def Holds (room : RoomId) (account : Account) : Prop :=
  s.InRoom room account ∨ ∃ h id, s.handlers.get h = some (.marked room account id)

def Offered (account : Account) : Prop :=
  ∃ h handler, s.handlers.get h = some handler ∧ handler.offers account = true

/-- No robot is held by two rooms. One that is held is marked as running, and no login may take
it. -/
structure Inv : Prop where
  one : ∀ account room room', s.Holds room account → s.Holds room' account → room = room'
  running : ∀ account room, s.Holds room account → s.robots.get account = some true
  offered : ∀ account room, s.Holds room account → ¬s.Offered account

variable {s} {s' : State}

theorem Inv.exclusive (hinv : Inv s) : s.Exclusive where
  one := fun account room room' h h' => hinv.one account room room' (Or.inl h) (Or.inl h')
  free := fun account hfree room h => by
    have hrun := hinv.running account room (Or.inl h)
    rw [hfree] at hrun
    cases hrun

/-- The pool stays as it is, no room comes to hold a robot and no login to be offered one. -/
structure Keeps (s s' : State) : Prop where
  robots : s'.robots = s.robots
  holds : ∀ room account, s'.Holds room account → s.Holds room account
  offered : ∀ account, s'.Offered account → s.Offered account

theorem Keeps.inv (h : Keeps s s') (hinv : Inv s) : Inv s' where
  one := fun account room room' hroom hroom' =>
    hinv.one account room room' (h.holds _ _ hroom) (h.holds _ _ hroom')
  running := fun account room hroom => h.robots ▸ hinv.running account room (h.holds _ _ hroom)
  offered := fun account room hroom hoffered =>
    hinv.offered account room (h.holds _ _ hroom) (h.offered account hoffered)

theorem Keeps.refl (s : State) : Keeps s s := ⟨rfl, fun _ _ h => h, fun _ h => h⟩

theorem Keeps.trans {s'' : State} (h : Keeps s s') (h' : Keeps s' s'') : Keeps s s'' where
  robots := h'.robots.trans h.robots
  holds := fun _ _ hholds => h.holds _ _ (h'.holds _ _ hholds)
  offered := fun _ hoffered => h.offered _ (h'.offered _ hoffered)

theorem holds_suspend {h : Nat} {handler : Handler} {room : RoomId} {account : Account}
    (hholds : (s.suspend h handler).Holds room account) :
    s.Holds room account ∨ ∃ id, handler = .marked room account id := by
  obtain hroom | ⟨h', id, hget⟩ := hholds
  · exact Or.inl (Or.inl hroom)
  · rw [suspend, LuaTable.get_set] at hget
    split_ifs at hget
    · exact Or.inr ⟨id, Option.some_inj.mp hget⟩
    · exact Or.inl (Or.inr ⟨h', id, hget⟩)

theorem offered_suspend {h : Nat} {handler : Handler} {account : Account}
    (hoffered : (s.suspend h handler).Offered account) :
    handler.offers account = true ∨
      ∃ h' handler', h' ≠ h ∧ s.handlers.get h' = some handler' ∧
      handler'.offers account = true := by
  obtain ⟨h', handler', hget, hoffers⟩ := hoffered
  rw [suspend, LuaTable.get_set] at hget
  split_ifs at hget with hsame
  · cases hget
    exact Or.inl hoffers
  · exact Or.inr ⟨h', handler', Ne.symm hsame, hget, hoffers⟩

/-- A handler goes on to wait for something that is no mark. -/
theorem keeps_suspend (s : State) (h : Nat) {handler : Handler}
    (hmarked : ∀ room account id, handler ≠ .marked room account id)
    (hoffers : ∀ account, handler.offers account = true → s.Offered account) :
    Keeps s (s.suspend h handler) where
  robots := rfl
  holds := fun room account hholds => by
    obtain hold | ⟨id, hid⟩ := holds_suspend hholds
    · exact hold
    · exact absurd hid (hmarked room account id)
  offered := fun account hoffered => by
    obtain hnew | ⟨h', handler', -, hget, hold⟩ := offered_suspend hoffered
    · exact hoffers account hnew
    · exact ⟨h', handler', hget, hold⟩

theorem keeps_finish (s : State) (h : Nat) : Keeps s (s.finish h) where
  robots := rfl
  holds := fun room account hholds => by
    obtain hroom | ⟨h', id, hget⟩ := hholds
    · exact Or.inl hroom
    · rw [finish, LuaTable.get_erase] at hget
      split_ifs at hget
      exact Or.inr ⟨h', id, hget⟩
  offered := fun account hoffered => by
    obtain ⟨h', handler, hget, hoffers⟩ := hoffered
    rw [finish, LuaTable.get_erase] at hget
    split_ifs at hget
    exact ⟨h', handler, hget, hoffers⟩

theorem inRoom_setRoom {room room' : RoomId} {robots : LuaTable UserId Robot} {account : Account}
    (hroom : (s.setRoom room robots).InRoom room' account) :
    s.InRoom room' account ∨
      room' = room ∧ ∃ id robot, robots.get id = some robot ∧ robot.account = account := by
  obtain ⟨id, robot, hget, haccount⟩ := hroom
  simp only [setRoom, Function.update_apply] at hget
  split_ifs at hget with hsame
  · exact Or.inr ⟨hsame, id, robot, hget, haccount⟩
  · exact Or.inl ⟨id, robot, hget, haccount⟩

/-- A room's table is written with robots that the room holds. -/
theorem keeps_setRoom {room : RoomId} {robots : LuaTable UserId Robot}
    (hrobots : ∀ id robot, robots.get id = some robot → s.Holds room robot.account) :
    Keeps s (s.setRoom room robots) where
  robots := rfl
  holds := fun room' account hholds => by
    obtain hroom | hmarked := hholds
    · obtain hroom | ⟨rfl, id, robot, hget, rfl⟩ := inRoom_setRoom hroom
      · exact Or.inl hroom
      · exact hrobots id robot hget
    · exact Or.inr hmarked
  offered := fun _ hoffered => hoffered

theorem keeps_leave {h : Nat} {room : RoomId} {id : UserId} {robot : Robot}
    (hget : (s.roomRobots room).get id = some robot) : Keeps s (s.leave h room id robot) := by
  refine (keeps_setRoom fun id' robot' hget' => ?_).trans
    (keeps_suspend _ h (by simp) (by simp [Handler.offers]))
  rw [LuaTable.get_set] at hget'
  split_ifs at hget'
  · cases hget'
    exact Or.inl ⟨id, robot, hget, rfl⟩
  · exact Or.inl ⟨id', robot', hget', rfl⟩

theorem keeps_choose {h : Nat} (key : Nat) {handler : Handler}
    (hhandler : s.handlers.get h = some handler) : Keeps s (s.choose h key handler) := by
  unfold choose
  split
  next room freeRobots =>
    split_ifs
    · exact keeps_finish s h
    · split
      · exact Keeps.refl s
      next account hkey =>
        refine keeps_suspend s h (by simp) fun account' hoffers => ⟨h, _, hhandler, ?_⟩
        obtain rfl : account = account' := of_decide_eq_true hoffers
        exact decide_eq_true (List.mem_of_getElem? hkey)
  · exact Keeps.refl s

theorem keeps_loggedIn {h : Nat} (id : Option UserId) {handler : Handler}
    (hhandler : s.handlers.get h = some handler) : Keeps s (s.loggedIn h id handler) := by
  unfold loggedIn
  split
  · split
    · exact keeps_finish s h
    · exact keeps_suspend s h (by simp) fun account' hoffers => ⟨h, _, hhandler, hoffers⟩
  · exact Keeps.refl s

theorem keeps_resume {h : Nat} {handler : Handler} (hhandler : s.handlers.get h = some handler) :
    Keeps s (s.resume h handler) := by
  cases handler with
  | joining room account id =>
      exact keeps_suspend s h (by simp) fun account' hoffers => ⟨h, _, hhandler, hoffers⟩
  | marked room account id =>
      refine (keeps_setRoom fun id' robot hget => ?_).trans
        (keeps_suspend _ h (by simp) (by simp [Handler.offers]))
      rw [LuaTable.get_set] at hget
      split_ifs at hget
      · cases hget
        exact Or.inr ⟨h, id, hhandler⟩
      · exact Or.inl ⟨id', robot, hget, rfl⟩
  | updating => exact keeps_finish s h
  | left room id => exact keeps_suspend s h (by simp) (by simp [Handler.offers])
  | counting room id =>
      refine (keeps_setRoom fun id' robot hget => ?_).trans (keeps_finish _ h)
      rw [LuaTable.get_erase] at hget
      split_ifs at hget
      exact Or.inl ⟨id', robot, hget, rfl⟩
  | asking room => exact Keeps.refl s
  | reading room => exact Keeps.refl s
  | answered room freeRobots => exact Keeps.refl s
  | loggingIn room account => exact Keeps.refl s
  | marking room account id => exact Keeps.refl s
  | leaving room account id => exact Keeps.refl s
  | refreshing => exact Keeps.refl s

theorem get_setRobotRun (robots : LuaTable Account Bool) (account account' : Account)
    (isRun : Bool) :
    (setRobotRun robots account isRun).get account' =
      if account = account' then (robots.get account).map fun _ => isRun
      else robots.get account' := by
  unfold setRobotRun
  cases hget : robots.get account with
  | some old => rw [LuaTable.get_set, Option.map_some]
  | none =>
      split_ifs with hsame
      · rw [← hsame, hget, Option.map_none]
      · rfl

theorem mem_freeRobots {robots : LuaTable Account Bool} {account : Account}
    (hmem : account ∈ freeRobots robots) : robots.get account = some false := by
  obtain ⟨robot, hrobot, rfl⟩ := List.mem_map.mp hmem
  obtain ⟨hentry, hfree⟩ := List.mem_filter.mp hrobot
  have hfalse : robot.2 = false := by simpa using hfree
  rw [← hfalse]
  exact (LuaTable.get_eq_some_iff _).mpr hentry

/-- The pool answers: what it says is free is held by nobody. -/
theorem Inv.answer (hinv : Inv s) (h : Nat) (room : RoomId) :
    Inv (s.suspend h (.answered room (freeRobots s.robots))) := by
  have hholds : ∀ room' account, (s.suspend h (.answered room (freeRobots s.robots))).Holds
      room' account →
      s.Holds room' account := by
    intro room' account hhold
    obtain hold | ⟨id, hid⟩ := holds_suspend hhold
    · exact hold
    · cases hid
  refine ⟨fun account room₁ room₂ h₁ h₂ => ?_, fun account room' hhold => ?_,
    fun account room' hhold hoffered => ?_⟩
  · exact hinv.one account room₁ room₂ (hholds _ _ h₁) (hholds _ _ h₂)
  · exact hinv.running account room' (hholds _ _ hhold)
  · obtain hnew | ⟨h', handler, -, hget, hoffers⟩ := offered_suspend hoffered
    · have hfree := mem_freeRobots (of_decide_eq_true hnew)
      rw [hinv.running account room' (hholds _ _ hhold)] at hfree
      cases hfree
    · exact hinv.offered account room' (hholds _ _ hhold) ⟨h', handler, hget, hoffers⟩

/-- The pool is changed, and what is held is still running in it. -/
theorem Inv.setRobots (hinv : Inv s) {robots : LuaTable Account Bool}
    (hrunning : ∀ account room, s.Holds room account → robots.get account = some true) :
    Inv { s with robots } :=
  ⟨hinv.one, hrunning, hinv.offered⟩

theorem Inv.mark (hinv : Inv s) {h : Nat} {room : RoomId} {account : Account} {id : UserId}
    (hhandler : s.handlers.get h = some (.marking room account id))
    (hknown : (s.robots.get account).isSome) (honly : s.OnlyOffered h account) :
    Inv ({ s with robots := setRobotRun s.robots account true }.suspend h
      (.marked room account id)) := by
  have hnobody : ∀ room', ¬s.Holds room' account := fun room' hhold =>
    hinv.offered account room' hhold ⟨h, _, hhandler, decide_eq_true rfl⟩
  have hholds : ∀ room' account', ({ s with robots := setRobotRun s.robots account true }.suspend h
      (.marked room account id)).Holds room' account' →
        s.Holds room' account' ∨ room' = room ∧ account' = account := by
    intro room' account' hhold
    obtain hold | ⟨id', heq⟩ := holds_suspend hhold
    · exact Or.inl hold
    · cases heq
      exact Or.inr ⟨rfl, rfl⟩
  refine ⟨fun account' room₁ room₂ h₁ h₂ => ?_, fun account' room' hhold => ?_,
    fun account' room' hhold hoffered => ?_⟩
  · obtain hold₁ | ⟨rfl, rfl⟩ := hholds _ _ h₁
    · obtain hold₂ | ⟨rfl, rfl⟩ := hholds _ _ h₂
      · exact hinv.one account' room₁ room₂ hold₁ hold₂
      · exact absurd hold₁ (hnobody room₁)
    · obtain hold₂ | ⟨rfl, -⟩ := hholds _ _ h₂
      · exact absurd hold₂ (hnobody room₂)
      · rfl
  · refine (get_setRobotRun s.robots account account' true).trans ?_
    obtain ⟨isRun, hget⟩ := Option.isSome_iff_exists.mp hknown
    obtain hold | ⟨-, rfl⟩ := hholds _ _ hhold
    · rw [if_neg fun hsame : account = account' => hnobody room' (hsame ▸ hold)]
      exact hinv.running account' room' hold
    · rw [if_pos rfl, hget, Option.map_some]
  · obtain hnew | ⟨h', handler, hne, hget, hoffers⟩ := offered_suspend hoffered
    · cases hnew
    · obtain hold | ⟨-, rfl⟩ := hholds _ _ hhold
      · exact hinv.offered account' room' hold ⟨h', handler, hget, hoffers⟩
      · have hnot := honly _ ((LuaTable.get_eq_some_iff _).mp hget) hne
        rw [hoffers] at hnot
        cases hnot

theorem Inv.execute (hinv : Inv s) {h : Nat} {handler : Handler}
    (hhandler : s.handlers.get h = some handler) (hfits : s.FitsExecute h handler) :
    Inv (s.execute h handler) := by
  cases handler with
  | asking room =>
      simp only [State.execute]
      split_ifs
      · exact (keeps_suspend s h (by simp) (by simp [Handler.offers])).inv hinv
      · exact hinv.answer h room
  | marking room account id => exact hinv.mark hhandler hfits.1 hfits.2
  | leaving room account id =>
      have hsame : setRobotRun s.robots account false = s.robots := by
        unfold setRobotRun
        rw [show s.robots.get account = none from hfits]
      simp only [State.execute, hsame]
      exact (keeps_suspend s h (by simp) (by simp [Handler.offers])).inv hinv
  | reading room => exact hinv
  | answered room freeRobots => exact hinv
  | loggingIn room account => exact hinv
  | joining room account id => exact hinv
  | marked room account id => exact hinv
  | updating => exact hinv
  | left room id => exact hinv
  | counting room id => exact hinv
  | refreshing => exact hinv

theorem Inv.mem_entries (hinv : Inv s) {room : RoomId} {account : Account}
    (hhold : s.Holds room account) : (account, true) ∈ s.robots.entries :=
  (LuaTable.get_eq_some_iff _).mp (hinv.running account room hhold)

theorem Inv.read (hinv : Inv s) {h : Nat} {rows : List Account} {handler : Handler}
    (hfits : s.FitsRead rows handler) : Inv (s.read h rows handler) := by
  cases handler with
  | reading room =>
      -- nothing runs, so nobody holds anything
      refine (hinv.setRobots fun account room' hhold => ?_).answer h room
      cases hfits _ (hinv.mem_entries hhold)
  | refreshing =>
      refine (keeps_finish _ h).inv (hinv.setRobots fun account room hhold => ?_)
      rw [localRobots, LuaTable.get_ofKeys, if_pos (hfits _ (hinv.mem_entries hhold) rfl),
        hinv.running account room hhold, Option.getD_some]
  | asking room => exact hinv
  | answered room freeRobots => exact hinv
  | loggingIn room account => exact hinv
  | joining room account id => exact hinv
  | marking room account id => exact hinv
  | marked room account id => exact hinv
  | updating => exact hinv
  | leaving room account id => exact hinv
  | left room id => exact hinv
  | counting room id => exact hinv

theorem Inv.step (hinv : Inv s) {event : Event} (hfits : s.Fits event) : Inv (s.step event) := by
  have hnew : ∀ h handler, (∀ room account id, handler ≠ .marked room account id) →
      (∀ account, handler.offers account = false) →
      Inv (if (s.handlers.get h).isSome then s else s.suspend h handler) := by
    intro h handler hmarked hoffers
    split_ifs
    · exact hinv
    · exact (keeps_suspend s h hmarked fun account h => by simp [hoffers account] at h).inv hinv
  cases event with
  | login h room => exact hnew h _ (by simp) fun _ => rfl
  | updateLocalCache h => exact hnew h _ (by simp) fun _ => rfl
  | postLeave h room id =>
      simp only [State.step]
      split_ifs
      · exact hinv
      · split
        next robot hget =>
          split_ifs
          · exact (keeps_leave hget).inv hinv
          · exact hinv
        · exact hinv
  | postLeaveUid h room uid =>
      simp only [State.step]
      split_ifs
      · exact hinv
      · split
        next robot hget => exact (keeps_leave hget).inv hinv
        · exact hinv
  | execute h =>
      simp only [State.step]
      cases hhandler : s.handlers.get h with
      | none => exact hinv
      | some handler => exact hinv.execute hhandler (hfits handler hhandler)
  | read h rows =>
      simp only [State.step]
      cases hhandler : s.handlers.get h with
      | none => exact hinv
      | some handler => exact hinv.read (hfits handler hhandler)
  | choose h key =>
      simp only [State.step]
      cases hhandler : s.handlers.get h with
      | none => exact hinv
      | some handler => exact (keeps_choose key hhandler).inv hinv
  | loggedIn h id =>
      simp only [State.step]
      cases hhandler : s.handlers.get h with
      | none => exact hinv
      | some handler => exact (keeps_loggedIn id hhandler).inv hinv
  | resume h =>
      simp only [State.step]
      cases hhandler : s.handlers.get h with
      | none => exact hinv
      | some handler => exact (keeps_resume hhandler).inv hinv
  | fail h => exact (keeps_finish s h).inv hinv

end Invariant

section Main

/-- Before the first room has asked for a robot. -/
def start : State := {}

theorem not_holds_start (room : RoomId) (account : Account) : ¬start.Holds room account := by
  rintro (⟨id, robot, hget, -⟩ | ⟨h, id, hget⟩)
  · cases hget
  · cases hget

theorem inv_start : Inv start where
  one := fun account room _ h => absurd h (not_holds_start room account)
  running := fun account room h => absurd h (not_holds_start room account)
  offered := fun account room h => absurd h (not_holds_start room account)

/-- **A robot plays in one room at a time** in every run in which the logins that may take one robot
do not overlap at its mark, no robot is let go, and no running one is lost or read anew. -/
theorem robots_exclusive (events : List Event) (hfits : Run.Along step Fits start events) :
    (Run.exec step start events).Exclusive :=
  (@Run.invariant _ _ step Fits Inv (fun _ _ hinv hcond => hinv.step hcond) events start inv_start
    hfits).exclusive

/-- Two rooms log in at the same time: the second one asks while the first may still draw either
robot. The pool then reads a table with one robot more. -/
def twoRooms : List Event :=
  [.login 1 1, .execute 1, .read 1 [7, 8], .login 2 2, .execute 2, .choose 1 0, .choose 2 1,
    .loggedIn 1 (some 70), .loggedIn 2 (some 80), .resume 1, .resume 2, .execute 2, .execute 1,
    .updateLocalCache 3, .resume 1, .resume 2, .read 3 [7, 8, 9], .login 4 2, .execute 4]

theorem robots_exclusive_twoRooms : (Run.exec step start twoRooms).Exclusive :=
  robots_exclusive twoRooms (by decide)

/-- `post_leave` breaks it: the mark is taken off while the room still has the robot. -/
theorem not_exclusive_of_leaving {s : State} {h : Nat} {room : RoomId} {account : Account}
    {id : UserId}
    (hhandler : s.handlers.get h = some (.leaving room account id)) (hroom : s.InRoom room account)
    (hknown : (s.robots.get account).isSome) : ¬(s.step (.execute h)).Exclusive := by
  obtain ⟨isRun, hget⟩ := Option.isSome_iff_exists.mp hknown
  intro hexclusive
  refine hexclusive.free account ?_ room ?_
  · simp only [step, hhandler, Option.elim_some, execute, suspend]
    rw [get_setRobotRun, if_pos rfl, hget, Option.map_some]
  · simp only [step, hhandler, Option.elim_some, execute]
    exact hroom

/-- Two rooms ask while the robot is free. -/
def sameRobot : List Event :=
  [.login 1 1, .execute 1, .read 1 [7], .choose 1 0, .login 2 2, .execute 2, .choose 2 0,
    .loggedIn 1 (some 70), .loggedIn 2 (some 70), .resume 1, .resume 2, .execute 1, .execute 2,
    .resume 1, .resume 2]

theorem not_robots_exclusive : ¬∀ events, (Run.exec step start events).Exclusive := by
  intro hall
  have hone := (hall sameRobot).one 7 1 2 ⟨70, ⟨7, true⟩, by decide, rfl⟩
    ⟨70, ⟨7, true⟩, by decide, rfl⟩
  exact absurd hone (by decide)

end Main

end State

end SdyServer.Robots
