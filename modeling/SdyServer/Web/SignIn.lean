import SdyServer.Lib.LuaTable
import SdyServer.Lib.Run

/-!
# Signing in

A user signs in once a day for a reward. The request looks up his row, looks it up again, writes it
and pays, and it waits after every one of these steps, so that requests of one user can overlap and
midnight can pass in between.
-/

namespace SdyServer.Web

/-- A row of `t_ct_user_qiandao`. `time` and `time_string` repeat `last_time`. -/
structure Row where
  name : String
  qiandaoNum : Nat
  lastTime : Nat
deriving DecidableEq, Repr

/-- The rows of one user. Whether the table takes a second row for him is up to its keys. -/
structure Table where
  rows : List Row := []
  uniqueUid : Bool
deriving DecidableEq, Repr

/-- The data that `get_user_qiandao` answers; `hasRow` stands for `data.uid`. -/
structure Qiandao where
  hasRow : Bool
  qiandaoNum : Nat
  isSignIn : Bool
deriving DecidableEq, Repr

section Qiandao

def midnight (now : Nat) : Nat := now - now % 86400

/-- `get_user_qiandao`, from the rows it was answered. -/
def getUserQiandao (rows : List Row) (now : Nat) : Qiandao :=
  match rows.head? with
  | none => ⟨false, 0, false⟩
  | some row =>
      let time1 := midnight now
      let time2 := time1 + 86400
      let isSignIn := decide (time1 ≤ row.lastTime ∧ row.lastTime < time2)
      let qiandaoNum := if isSignIn = false ∧ 7 ≤ row.qiandaoNum then 0 else row.qiandaoNum
      ⟨true, if row.lastTime + 86400 < time1 then 0 else qiandaoNum, isSignIn⟩

inductive Sql where
  | insert (row : Row)
  | update (row : Row)
deriving DecidableEq, Repr

/-- `set_user_qiandao`, up to its statement. A failed look-up counts as no row. -/
def setUserQiandao (rows : Option (List Row)) (now : Nat) (name : String) : Sql :=
  match rows.map fun rows => getUserQiandao rows now with
  | none => .insert ⟨name, 1, now⟩
  | some data =>
      if data.hasRow then
        let qiandaoNum :=
          if data.isSignIn then data.qiandaoNum
          else if data.qiandaoNum + 1 > 7 then data.qiandaoNum + 1 - 7
          else data.qiandaoNum + 1
        .update ⟨name, qiandaoNum, now⟩
      else .insert ⟨name, 1, now⟩

/-- What a statement does, and the rows it affects. The connection is opened with
`CLIENT_FOUND_ROWS` (`client_flags = 260047`), so that an update counts the rows it finds. -/
def Table.execute (table : Table) : Sql → Table × Option Nat
  | .insert row =>
      if table.uniqueUid = true ∧ table.rows ≠ [] then (table, none)
      else ({ table with rows := table.rows ++ [row] }, some 1)
  | .update row =>
      ({ table with rows := table.rows.map fun _ => row }, some table.rows.length)

end Qiandao

/-- Where a request of `set_user_sign_in` stands. -/
inductive Request where
  | selecting (name : String)
  | selected (name : String) (rows : Option (List Row))
  | selectingAgain (name : String) (data : Qiandao)
  | selectedAgain (name : String) (data : Qiandao) (rows : Option (List Row))
  | writing (data : Qiandao) (sql : Sql)
  | written (data : Qiandao) (affected : Option Nat)
  | paying (day : Nat)
deriving DecidableEq, Repr

/-- A reward sent to the account service: on which date, for which day, and the extra coins. -/
structure Reward where
  date : Nat
  day : Nat
  bonus : Option Nat
deriving DecidableEq, Repr

structure Answer where
  day : Nat
  stored : Option Nat
deriving DecidableEq, Repr

structure State where
  now : Nat
  table : Table
  requests : LuaTable Nat Request := ∅
  issued : List Reward := []
  answers : List Answer := []

inductive Event where
  | tick (seconds : Nat)
  | request (id : Nat) (name : String)
  | execute (id : Nat) (ok : Bool)
  | resume (id : Nat) (bounsType : Nat)
  | paid (id : Nat)
deriving DecidableEq, Repr

section Step

def signInConfig : List Nat := [18, 28, 38, 58, 68, 78, 88]

def date (now : Nat) : Nat := now / 86400

def State.set (state : State) (id : Nat) (request : Request) : State :=
  { state with requests := state.requests.set id request }

def State.finish (state : State) (id : Nat) : State :=
  { state with requests := state.requests.erase id }

def State.execute (state : State) (id : Nat) (ok : Bool) : State :=
  match state.requests.get id with
  | some (.selecting name) =>
      state.set id (.selected name (if ok then some state.table.rows else none))
  | some (.selectingAgain name data) =>
      state.set id (.selectedAgain name data (if ok then some state.table.rows else none))
  | some (.writing data sql) =>
      if ok then
        let (table, affected) := state.table.execute sql
        { state with table }.set id (.written data affected)
      else state.set id (.written data none)
  | _ => state

def rewardDay (data : Qiandao) : Nat :=
  let qiandaoNum := data.qiandaoNum + 1
  if qiandaoNum ≤ 7 then qiandaoNum else 1

def rewardBonus (data : Qiandao) (bounsType : Nat) : Option Nat :=
  if data.qiandaoNum + 1 = 7 then some (signInConfig.getD (bounsType - 1) 0) else none

/-- `set_user_sign_in` goes on with the answer of the database. -/
def State.resume (state : State) (id : Nat) (bounsType : Nat) : State :=
  match state.requests.get id with
  | some (.selected _ none) => state.finish id
  | some (.selected name (some rows)) =>
      let data := getUserQiandao rows state.now
      if data.isSignIn then state.finish id else state.set id (.selectingAgain name data)
  | some (.selectedAgain name data rows) =>
      state.set id (.writing data (setUserQiandao rows state.now name))
  | some (.written data affected) =>
      if affected = some 1 then
        let reward : Reward := ⟨date state.now, rewardDay data, rewardBonus data bounsType⟩
        { state with issued := state.issued ++ [reward] }.set id (.paying (rewardDay data))
      else state.finish id
  | _ => state

def step (state : State) : Event → State
  | .tick seconds => { state with now := state.now + seconds }
  | .request id name =>
      if (state.requests.get id).isSome then state else state.set id (.selecting name)
  | .execute id ok => state.execute id ok
  | .resume id bounsType => state.resume id bounsType
  | .paid id =>
      match state.requests.get id with
      | some (.paying day) =>
          let answer : Answer := ⟨day, state.table.rows.head?.map Row.qiandaoNum⟩
          { state with answers := state.answers ++ [answer] }.finish id
      | _ => state

end Step

end SdyServer.Web
