import SdyServer.RoomMgr.Hall

/-!
# The number of connections

The watchdog counts its connections by hand. Opening one waits for the gate before it is entered;
closing one looks it up, waits for the gate and perhaps for the service of a room, and then takes it
out and counts down without looking again. Kicking a connection off makes the gate report it closed,
so two handlers of one connection can wait at the same time.
-/

namespace SdyServer.RoomMgr

abbrev ConnRef := Nat

/-- What a caller of `g.close_conn` does next: `mgr.login` enters its new object. -/
inductive After where
  | done
  | login (fd : Fd) (uid : Uid) (ref : Ref)
deriving DecidableEq, Repr

/-- Where a handler is suspended: at the gate's accept or kick, at the service of the user's room,
or at `update_cache_conns`. -/
inductive Handler where
  | accepting (fd : Fd)
  | kicking (fd : Fd) (a : ConnRef) (after : After)
  | disconnecting (fd : Fd) (a : ConnRef) (after : After)
  | updating (after : After)
deriving DecidableEq, Repr

/-- The fields of `g` that the handlers use. Users and connections are objects, and `rooms` says
whether the service of a room runs. -/
structure Watchdog where
  user : Ref → User := fun _ => { uid := 0 }
  freshUser : Ref := 0
  connUser : ConnRef → Option Ref := fun _ => none
  freshConn : ConnRef := 0
  conns : LuaTable Fd ConnRef := ∅
  users : LuaTable Uid Ref := ∅
  rooms : LuaTable RoomId Bool := ∅
  onlineNum : Int := 0
  handlers : LuaTable Nat Handler := ∅

/-- `close` is any call of `g.close_conn`: by `SOCKET.close`, `SOCKET.error` or a handler of the
hall. Handlers outside this model change users and rooms as they like. A call may raise instead of
returning. -/
inductive Event where
  | open (id : Nat) (fd : Fd)
  | close (id : Nat) (fd : Option Fd)
  | login (id : Nat) (fd : Fd) (uid : Uid)
  | resume (id : Nat) (ok : Bool)
  | setUser (ref : Ref) (user : User)
  | setUsers (uid : Uid) (ref : Option Ref)
  | setRoom (roomid : RoomId) (running : Option Bool)
deriving DecidableEq, Repr

namespace Watchdog

section Model

def suspend (w : Watchdog) (id : Nat) (handler : Handler) : Watchdog :=
  { w with handlers := w.handlers.set id handler }

def finish (w : Watchdog) (id : Nat) : Watchdog :=
  { w with handlers := w.handlers.erase id }

def modify (w : Watchdog) (ref : Ref) (f : User → User) : Watchdog :=
  { w with user := Function.update w.user ref (f (w.user ref)) }

/-- `g.users[uid] = user` and `g.conns[fd].user = user`, which raises without a connection. -/
def enterUser (w : Watchdog) (id : Nat) (fd : Fd) (uid : Uid) (ref : Ref) : Watchdog :=
  let w := { w with users := w.users.set uid ref }.finish id
  match w.conns.get fd with
  | none => w
  | some a => { w with connUser := Function.update w.connUser a (some ref) }

def goOn (w : Watchdog) (id : Nat) : After → Watchdog
  | .done => w.finish id
  | .login fd uid ref => w.enterUser id fd uid ref

/-- `g.close_conn` up to the gate. -/
def closeConn (w : Watchdog) (id : Nat) (fd : Option Fd) (after : After) : Watchdog :=
  match fd.bind fun fd => (w.conns.get fd).map fun a => (fd, a) with
  | none => w.goOn id after
  | some (fd, a) => w.suspend id (.kicking fd a after)

def remove (w : Watchdog) (id : Nat) (fd : Fd) (after : After) : Watchdog :=
  { w with onlineNum := w.onlineNum - 1, conns := w.conns.erase fd }.suspend id (.updating after)

def hangUp (w : Watchdog) (a : ConnRef) : Watchdog :=
  match w.connUser a with
  | none => w
  | some ref => w.modify ref fun user => { user with fd := none }

/-- The user of the connection, if it is still his. -/
def ownUser (w : Watchdog) (fd : Fd) (a : ConnRef) : Option User :=
  ((w.connUser a).map w.user).filter fun user => user.fd = some fd

/-- `g.close_conn` after the gate. A room that is gone raises. -/
def kicked (w : Watchdog) (id : Nat) (fd : Fd) (a : ConnRef) (after : After) : Watchdog :=
  match w.ownUser fd a with
  | none => w.remove id fd after
  | some user =>
      match user.roomid with
      | none => ({ w with users := w.users.erase user.uid }.hangUp a).remove id fd after
      | some roomid =>
          match w.rooms.get roomid with
          | none => w.finish id
          | some true => w.suspend id (.disconnecting fd a after)
          | some false => (w.hangUp a).remove id fd after

/-- `SOCKET.open` after the gate. -/
def accepted (w : Watchdog) (id : Nat) (fd : Fd) : Watchdog :=
  { w with
    connUser := Function.update w.connUser w.freshConn none, freshConn := w.freshConn + 1,
    conns := w.conns.set fd w.freshConn, onlineNum := w.onlineNum + 1 }.finish id

/-- `mgr.login` once the account service has confirmed the user. -/
def login (w : Watchdog) (id : Nat) (fd : Fd) (uid : Uid) : Watchdog :=
  let new :=
    { w with freshUser := w.freshUser + 1 }.modify w.freshUser fun _ => { uid, fd := some fd }
  match w.users.get uid with
  | none => new.enterUser id fd uid w.freshUser
  | some old =>
      if (w.user old).fd = some fd then w
      else new.closeConn id (w.user old).fd (.login fd uid w.freshUser)

def resume (w : Watchdog) (id : Nat) : Handler → Watchdog
  | .accepting fd => w.accepted id fd
  | .kicking fd a after => w.kicked id fd a after
  | .disconnecting fd a after => (w.hangUp a).remove id fd after
  | .updating after => w.goOn id after

def step (w : Watchdog) : Event → Watchdog
  | .open id fd => if (w.handlers.get id).isSome then w else w.suspend id (.accepting fd)
  | .close id fd => if (w.handlers.get id).isSome then w else w.closeConn id fd .done
  | .login id fd uid => if (w.handlers.get id).isSome then w else w.login id fd uid
  | .resume id ok =>
      match w.handlers.get id with
      | none => w
      | some handler => if ok then w.resume id handler else w.finish id
  | .setUser ref user => { w with user := Function.update w.user ref user }
  | .setUsers uid ref => { w with users := match ref with
      | none => w.users.erase uid
      | some ref => w.users.set uid ref }
  | .setRoom roomid running => { w with rooms := match running with
      | none => w.rooms.erase roomid
      | some running => w.rooms.set roomid running }

end Model

section Statement

/-- The rooms of the configuration, before anybody has come. -/
def start (rooms : LuaTable RoomId Bool) : Watchdog := { rooms }

def Counted (w : Watchdog) : Prop := w.onlineNum = w.conns.size

/-- Whether `g.close_conn` takes the connection out as soon as the gate has answered. -/
def removesAtOnce (w : Watchdog) (fd : Fd) (a : ConnRef) : Prop :=
  ∀ user roomid, w.ownUser fd a = some user → user.roomid = some roomid →
    w.rooms.get roomid = some false

/-- What a handler that goes on is about to do fits the connections: it opens one that is not there,
or takes out one that is. -/
def Fits (w : Watchdog) : Handler → Prop
  | .accepting fd => w.conns.get fd = none
  | .kicking fd a _ => w.removesAtOnce fd a → (w.conns.get fd).isSome
  | .disconnecting fd _ _ => (w.conns.get fd).isSome
  | .updating _ => True

def Steady (w : Watchdog) : Event → Prop
  | .resume id true => ∀ handler, w.handlers.get id = some handler → w.Fits handler
  | _ => True

instance (w : Watchdog) (fd : Fd) (a : ConnRef) : Decidable (w.removesAtOnce fd a) :=
  decidable_of_iff (∀ user ∈ w.ownUser fd a, ∀ roomid ∈ user.roomid, w.rooms.get roomid =
    some false)
    ⟨fun h user roomid huser hroom => h user huser roomid hroom,
      fun h user huser roomid hroom => h user roomid huser hroom⟩

instance (w : Watchdog) : (handler : Handler) → Decidable (w.Fits handler)
  | .accepting _ => inferInstanceAs (Decidable (_ = _))
  | .kicking .. => inferInstanceAs (Decidable (_ → _))
  | .disconnecting .. => inferInstanceAs (Decidable (_ = _))
  | .updating _ => isTrue trivial

instance (w : Watchdog) : (event : Event) → Decidable (w.Steady event)
  | .resume id true =>
      inferInstanceAs (Decidable (∀ handler ∈ w.handlers.get id, w.Fits handler))
  | .resume _ false => isTrue trivial
  | .open .. => isTrue trivial
  | .close .. => isTrue trivial
  | .login .. => isTrue trivial
  | .setUser .. => isTrue trivial
  | .setUsers .. => isTrue trivial
  | .setRoom .. => isTrue trivial

end Statement

section Count

/-- The connections and their number stay as they are. -/
structure SameCount (w w' : Watchdog) : Prop where
  onlineNum : w'.onlineNum = w.onlineNum
  conns : w'.conns = w.conns

variable {w w' : Watchdog}

theorem SameCount.refl (w : Watchdog) : SameCount w w := ⟨rfl, rfl⟩

theorem SameCount.trans {w'' : Watchdog} (h : SameCount w w') (h' : SameCount w' w'') :
    SameCount w w'' :=
  ⟨h'.onlineNum.trans h.onlineNum, h'.conns.trans h.conns⟩

theorem SameCount.counted (h : SameCount w w') (hcounted : w.Counted) : w'.Counted := by
  rw [Counted, h.onlineNum, h.conns]
  exact hcounted

theorem sameCount_enterUser (w : Watchdog) (id : Nat) (fd : Fd) (uid : Uid) (ref : Ref) :
    SameCount w (w.enterUser id fd uid ref) := by
  unfold enterUser
  dsimp only
  split <;> exact ⟨rfl, rfl⟩

theorem sameCount_goOn (w : Watchdog) (id : Nat) (after : After) :
    SameCount w (w.goOn id after) := by
  cases after with
  | done => exact ⟨rfl, rfl⟩
  | login fd uid ref => exact sameCount_enterUser w id fd uid ref

theorem sameCount_closeConn (w : Watchdog) (id : Nat) (fd : Option Fd) (after : After) :
    SameCount w (w.closeConn id fd after) := by
  unfold closeConn
  split
  · exact sameCount_goOn w id after
  · exact ⟨rfl, rfl⟩

theorem sameCount_login (w : Watchdog) (id : Nat) (fd : Fd) (uid : Uid) :
    SameCount w (w.login id fd uid) := by
  unfold login
  dsimp only
  split
  · have h := sameCount_enterUser
      ({ w with freshUser := w.freshUser + 1 }.modify w.freshUser fun _ => { uid, fd := some fd })
        id fd
      uid w.freshUser
    exact ⟨h.onlineNum, h.conns⟩
  next old _ =>
    split_ifs
    · exact SameCount.refl w
    · have h := sameCount_closeConn
        ({ w with freshUser := w.freshUser + 1 }.modify w.freshUser fun _ => { uid, fd := some fd })
          id
        (w.user old).fd (.login fd uid w.freshUser)
      exact ⟨h.onlineNum, h.conns⟩

theorem sameCount_hangUp (w : Watchdog) (a : ConnRef) : SameCount w (w.hangUp a) := by
  unfold hangUp
  split <;> exact ⟨rfl, rfl⟩

/-- A connection that is there is taken out and counted down together. -/
theorem Counted.remove (hcounted : w.Counted) {fd : Fd} (hfd : (w.conns.get fd).isSome) (id : Nat)
    (after : After) : (w.remove id fd after).Counted := by
  have hsize := LuaTable.size_erase w.conns fd
  rw [if_pos hfd, ← hcounted] at hsize
  exact hsize.symm

theorem Counted.kicked (hcounted : w.Counted) {fd : Fd} {a : ConnRef} {after : After}
    (hfits : w.Fits (.kicking fd a after)) (id : Nat) : (w.kicked id fd a after).Counted := by
  unfold Watchdog.kicked
  split
  next hown =>
    refine hcounted.remove (hfits fun user roomid huser => ?_) id after
    rw [hown] at huser
    cases huser
  next user hown =>
    split
    next hroom =>
      have hhang := sameCount_hangUp { w with users := w.users.erase user.uid } a
      have hsame : SameCount w ({ w with users := w.users.erase user.uid }.hangUp a) :=
        ⟨hhang.onlineNum, hhang.conns⟩
      refine (hsame.counted hcounted).remove ?_ id after
      rw [hsame.conns]
      refine hfits fun user' roomid huser hroomid => ?_
      rw [hown, Option.some_inj] at huser
      rw [← huser, hroom] at hroomid
      cases hroomid
    next roomid hroom =>
      split
      · exact hcounted
      · exact hcounted
      next hrunning =>
        have hsame := sameCount_hangUp w a
        refine (hsame.counted hcounted).remove ?_ id after
        rw [hsame.conns]
        refine hfits fun user' roomid' huser hroomid => ?_
        rw [hown, Option.some_inj] at huser
        rw [← huser, hroom, Option.some_inj] at hroomid
        rw [← hroomid]
        exact hrunning

theorem Counted.accepted (hcounted : w.Counted) {fd : Fd} (hfd : w.conns.get fd = none) (id : Nat) :
    (w.accepted id fd).Counted := by
  have hsize := LuaTable.size_set w.conns fd w.freshConn
  rw [hfd, ← hcounted] at hsize
  exact hsize.symm

theorem Counted.resume (hcounted : w.Counted) {handler : Handler} (hfits : w.Fits handler)
    (id : Nat) :
    (w.resume id handler).Counted := by
  cases handler with
  | accepting fd => exact hcounted.accepted hfits id
  | kicking fd a after => exact hcounted.kicked hfits id
  | disconnecting fd a after =>
      have hsame := sameCount_hangUp w a
      refine (hsame.counted hcounted).remove ?_ id after
      rw [hsame.conns]
      exact hfits
  | updating after => exact (sameCount_goOn w id after).counted hcounted

theorem Counted.step (hcounted : w.Counted) {event : Event} (hsteady : w.Steady event) :
    (w.step event).Counted := by
  cases event with
  | «open» id fd =>
      simp only [Watchdog.step]
      split_ifs <;> exact hcounted
  | close id fd =>
      simp only [Watchdog.step]
      split_ifs
      · exact hcounted
      · exact (sameCount_closeConn w id fd .done).counted hcounted
  | login id fd uid =>
      simp only [Watchdog.step]
      split_ifs
      · exact hcounted
      · exact (sameCount_login w id fd uid).counted hcounted
  | resume id ok =>
      simp only [Watchdog.step]
      split
      · exact hcounted
      next handler hhandler =>
        cases ok with
        | true => exact hcounted.resume (hsteady handler hhandler) id
        | false => exact hcounted
  | setUser ref user => exact hcounted
  | setUsers uid ref => exact hcounted
  | setRoom roomid running => exact hcounted

end Count

section Main

/-- **The counter is right** whenever no handler is suspended, after every run in which a handler
that goes on finds the connection it takes out, and none under the one it opens. -/
theorem onlineNum_eq_size (rooms : LuaTable RoomId Bool) (events : List Event)
    (hsteady : Run.Along step Steady (start rooms) events) :
    (Run.exec step (start rooms) events).handlers.entries = [] →
      (Run.exec step (start rooms) events).onlineNum =
        (Run.exec step (start rooms) events).conns.size :=
  fun _ => @Run.invariant _ _ step Steady Counted (fun _ _ hcounted hcond => hcounted.step hcond)
    events (start rooms) rfl hsteady

/-- A user in the hall signs in again over a second connection and the first one is kicked, while a
third one is opened. The first is reported closed after it has been taken out, and the second hangs
up. -/
def openedAndClosed : List Event :=
  [.open 1 5, .open 2 6, .resume 2 true, .resume 1 true, .login 3 5 7, .login 4 6 7, .open 5 8,
    .resume 4 true, .resume 5 true, .close 6 (some 5), .close 7 (some 6), .resume 4 true,
    .resume 7 true, .resume 7 true]

theorem onlineNum_eq_size_openedAndClosed :
    (Run.exec step (start ∅) openedAndClosed).onlineNum =
      (Run.exec step (start ∅) openedAndClosed).conns.size ∧
    (Run.exec step (start ∅) openedAndClosed).conns.keys = [8] :=
  ⟨onlineNum_eq_size ∅ openedAndClosed (by decide) (by decide), by decide⟩

/-- A user in a room signs in again: the old connection is kicked, and reported closed while the
service of the room is told. -/
def kickedTwice : List Event :=
  [.open 1 5, .resume 1 true, .login 2 5 7, .setUser 0 ⟨7, some 5, some 100⟩, .open 3 6,
    .resume 3 true, .login 4 6 7, .resume 4 true, .close 5 (some 5), .resume 4 true, .resume 4 true,
    .resume 5 true, .resume 5 true]

theorem not_onlineNum_eq_size : ¬∀ rooms events,
    (Run.exec step (start rooms) events).handlers.entries = [] →
      (Run.exec step (start rooms) events).onlineNum =
        (Run.exec step (start rooms) events).conns.size := by
  intro hall
  have hcounted := hall ((∅ : LuaTable RoomId Bool).set 100 true) kickedTwice (by decide)
  exact absurd hcounted (by decide)

end Main

end Watchdog

end SdyServer.RoomMgr
