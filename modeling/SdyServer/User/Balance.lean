import Mathlib.Algebra.BigOperators.Group.List.Basic
import Mathlib.Algebra.Order.Ring.Int
import Mathlib.Logic.Function.Basic
import SdyServer.Lib.Run

/-!
# Balances

`update_coin`, `update_money` and `update_point` add an amount to one column of the row of a user.
The new value is computed from a cached copy of the row and written under the version of the copy; a
copy that is out of date is read again, five times at most. The copies are shared: several calls may
be suspended over one copy, and each of them changes it when it is resumed.

A copy is good when it is the row as it was at the version it names. The history of the row is not
stored anywhere, so it is quantified in the invariant.
-/

namespace SdyServer

section Rows

inductive Column where
  | coin
  | money
  | point
deriving DecidableEq, Repr

/-- The columns of a row of `d_user`, or the fields of a cached copy. -/
structure UserRow where
  userCoin : Int
  userMoney : Int
  userPoint : Int
  version : Nat
deriving DecidableEq, Repr

def UserRow.get (row : UserRow) : Column → Int
  | .coin => row.userCoin
  | .money => row.userMoney
  | .point => row.userPoint

def UserRow.set (row : UserRow) (value : Int) : Column → UserRow
  | .coin => { row with userCoin := value }
  | .money => { row with userMoney := value }
  | .point => { row with userPoint := value }

@[simp]
theorem UserRow.get_set (row : UserRow) (value : Int) (column column' : Column) :
    (row.set value column).get column' = if column = column' then value else row.get column' := by
  cases column <;> cases column' <;> rfl

/-- What a successful call does to the copy: the amount is added, and the version is counted up. -/
def UserRow.add (row : UserRow) (column : Column) (amount : Int) : UserRow :=
  { row.set (row.get column + amount) column with version := row.version + 1 }

theorem UserRow.get_add (row : UserRow) (column column' : Column) (amount : Int) :
    (row.add column amount).get column' =
      row.get column' + if column = column' then amount else 0 := by
  cases column <;> cases column' <;> simp [UserRow.add, UserRow.set, UserRow.get]

/-- `db_mgr.update` with the version in its condition. -/
def updateSafe (row : UserRow) (column : Column) (value : Int) (version : Nat) : UserRow × Bool :=
  if row.version = version then ({ row.set value column with version := version + 1 }, true)
  else (row, false)

end Rows

section World

/-- What a call waits for: a statement the database has not run yet, or an answer on its way. -/
inductive Wait where
  | update (value : Int) (version : Nat)
  | updated (version : Nat) (done : Bool)
  | select
  | selected (info : UserRow)
deriving DecidableEq, Repr

/-- A call of one of the three functions, over the copy `user`, in the turn `i` of its loop. -/
structure UpdateCall where
  user : Nat
  column : Column
  amount : Int
  i : Nat
  wait : Wait
deriving DecidableEq, Repr

/-- The row, the cached copies, the calls that are suspended, and what the others returned. -/
structure Bank where
  row : UserRow
  users : List UserRow := []
  calls : List UpdateCall := []
  returned : List (Column × Int × Bool) := []
deriving DecidableEq, Repr

inductive BankEvent where
  /-- Some agent reads the row into a new copy. -/
  | load
  | call (user : Nat) (column : Column) (amount : Int)
  | execute (index : Nat)
  | resume (index : Nat)
deriving DecidableEq, Repr

/-- The statement a turn of the loop sends. -/
def UpdateCall.send (call : UpdateCall) (user : UserRow) (i : Nat) : UpdateCall :=
  { call with i, wait := .update (user.get call.column + call.amount) user.version }

def Bank.execute (bank : Bank) (index : Nat) (call : UpdateCall) : Bank :=
  match call.wait with
  | .update value version =>
      { bank with
        row := (updateSafe bank.row call.column value version).1
        calls := bank.calls.set index { call with
          wait := .updated version (updateSafe bank.row call.column value version).2 } }
  | .select => { bank with calls := bank.calls.set index { call with wait := .selected bank.row } }
  | _ => bank

def Bank.resume (bank : Bank) (index : Nat) (call : UpdateCall) : Bank :=
  match call.wait with
  | .updated _ true =>
      { bank with
        users := bank.users.modify call.user fun user => user.add call.column call.amount
        calls := bank.calls.eraseIdx index
        returned := bank.returned ++ [(call.column, call.amount, true)] }
  | .updated _ false => { bank with calls := bank.calls.set index { call with wait := .select } }
  | .selected info =>
      let users := bank.users.set call.user info
      if call.i < 5 then
        { bank with users, calls := bank.calls.set index (call.send info (call.i + 1)) }
      else
        { bank with
          users
          calls := bank.calls.eraseIdx index
          returned := bank.returned ++ [(call.column, call.amount, false)] }
  | _ => bank

def Bank.step (bank : Bank) : BankEvent → Bank
  | .load => { bank with users := bank.users ++ [bank.row] }
  | .call user column amount =>
      match bank.users[user]? with
      | none => bank
      | some info =>
          { bank with
            calls := bank.calls ++
              [UpdateCall.send ⟨user, column, amount, 1, .select⟩ info 1] }
  | .execute index =>
      match bank.calls[index]? with
      | none => bank
      | some call => bank.execute index call
  | .resume index =>
      match bank.calls[index]? with
      | none => bank
      | some call => bank.resume index call

def Bank.inStep (bank : Bank) : BankEvent → Bool
  | .resume index =>
      match bank.calls[index]? with
      | none => true
      | some call =>
          match call.wait with
          | .updated version true => (bank.users[call.user]?).any fun user => user.version = version
          | _ => true
  | _ => true

def Bank.paid (bank : Bank) (column : Column) : Int :=
  (bank.returned.map fun entry => if entry.1 = column ∧ entry.2.2 = true then entry.2.1 else 0).sum

end World

section Invariant

variable {history : Nat → UserRow} {row row' init : UserRow} {bank : Bank}

def Known (history : Nat → UserRow) (row user : UserRow) : Prop :=
  user.version ≤ row.version ∧ history user.version = user

/-- What a suspended call knows: a statement that was computed from a good copy, the step of the
history that is its own, or a row that was read. -/
def UpdateCall.Sound (history : Nat → UserRow) (row : UserRow) (call : UpdateCall) : Prop :=
  match call.wait with
  | .update value version =>
      version ≤ row.version ∧ value = (history version).get call.column + call.amount
  | .updated version true =>
      version < row.version ∧
        history (version + 1) = (history version).add call.column call.amount
  | .selected info => Known history row info
  | _ => True

def UpdateCall.added (column : Column) (call : UpdateCall) : Int :=
  match call.wait with
  | .updated _ true => if call.column = column then call.amount else 0
  | _ => 0

structure Bank.Sound (history : Nat → UserRow) (init : UserRow) (bank : Bank) : Prop where
  row : history bank.row.version = bank.row
  users : ∀ user ∈ bank.users, Known history bank.row user
  calls : ∀ call ∈ bank.calls, call.Sound history bank.row
  balance : ∀ column, bank.row.get column =
    init.get column + bank.paid column + (bank.calls.map (UpdateCall.added column)).sum

def Bank.Balanced (init : UserRow) (bank : Bank) : Prop := ∃ history, bank.Sound history init

def extend (history : Nat → UserRow) (row : UserRow) : Nat → UserRow :=
  Function.update history row.version row

theorem extend_of_le (hrow : row'.version = row.version + 1) {version : Nat}
    (hle : version ≤ row.version) : extend history row' version = history version :=
  Function.update_of_ne (by omega) _ _

theorem Known.extend {user : UserRow} (hknown : Known history row user)
    (hrow : row'.version = row.version + 1) : Known (extend history row') row' user :=
  ⟨by have := hknown.1; omega, by rw [extend_of_le hrow hknown.1]; exact hknown.2⟩

theorem UpdateCall.Sound.extend {call : UpdateCall} (hsound : call.Sound history row)
    (hrow : row'.version = row.version + 1) : call.Sound (extend history row') row' := by
  unfold UpdateCall.Sound at hsound ⊢
  split at hsound
  · obtain ⟨hle, hvalue⟩ := hsound
    rw [extend_of_le hrow hle]
    exact ⟨by omega, hvalue⟩
  · obtain ⟨hlt, hstep⟩ := hsound
    have hle : _ ≤ row.version := Nat.le_of_lt hlt
    rw [extend_of_le hrow hle, extend_of_le hrow (Nat.succ_le_of_lt hlt)]
    exact ⟨by omega, hstep⟩
  · exact Known.extend hsound hrow
  · trivial

theorem Bank.sound_start (row : UserRow) : Bank.Sound (fun _ => row) row { row } where
  row := rfl
  users := fun user huser => absurd huser List.not_mem_nil
  calls := fun call hcall => absurd hcall List.not_mem_nil
  balance := fun column => by simp [Bank.paid]

theorem sum_map_set {α : Type} (f : α → Int) {l : List α} {index : Nat} {a : α}
    (ha : l[index]? = some a) (b : α) :
    ((l.set index b).map f).sum = (l.map f).sum - f a + f b := by
  induction l generalizing index with
  | nil => cases ha
  | cons head rest ih =>
      cases index with
      | zero =>
          cases ha
          simp only [List.set_cons_zero, List.map_cons, List.sum_cons]
          omega
      | succ index =>
          have hrest := @ih index (by simpa using ha)
          simp only [List.set_cons_succ, List.map_cons, List.sum_cons, hrest]
          omega

theorem sum_map_eraseIdx {α : Type} (f : α → Int) {l : List α} {index : Nat} {a : α}
    (ha : l[index]? = some a) : ((l.eraseIdx index).map f).sum = (l.map f).sum - f a := by
  induction l generalizing index with
  | nil => cases ha
  | cons head rest ih =>
      cases index with
      | zero =>
          cases ha
          simp only [List.eraseIdx_cons_zero, List.map_cons, List.sum_cons]
          omega
      | succ index =>
          have hrest := @ih index (by simpa using ha)
          simp only [List.eraseIdx_cons_succ, List.map_cons, List.sum_cons, hrest]
          omega

theorem Bank.Sound.rewait (hsound : bank.Sound history init) {index : Nat} {call call' : UpdateCall}
    (hcall : bank.calls[index]? = some call) (hnew : call'.Sound history bank.row)
    (hadded : ∀ column, call'.added column = call.added column) {users : List UserRow}
    (husers : ∀ user ∈ users, Known history bank.row user) :
    Bank.Sound history init { bank with users, calls := bank.calls.set index call' } where
  row := hsound.row
  users := husers
  calls := by
    intro c hc
    rcases List.mem_or_eq_of_mem_set hc with hc | rfl
    · exact hsound.calls c hc
    · exact hnew
  balance := by
    intro column
    rw [sum_map_set _ hcall, hadded]
    have hbalance := hsound.balance column
    simp only [Bank.paid] at hbalance ⊢
    omega

theorem Bank.Sound.execute (hsound : bank.Sound history init) {index : Nat} {call : UpdateCall}
    (hcall : bank.calls[index]? = some call) :
    ∃ history', (bank.execute index call).Sound history' init := by
  have hold := hsound.calls call (List.mem_of_getElem? hcall)
  unfold Bank.execute
  cases hwait : call.wait with
  | update value version =>
      simp only [UpdateCall.Sound, hwait] at hold
      obtain ⟨hle, rfl⟩ := hold
      dsimp only
      by_cases hversion : bank.row.version = version
      · -- The statement was computed from the row as it is, and the history goes on.
        subst hversion
        have hrow : updateSafe bank.row call.column
            ((history bank.row.version).get call.column + call.amount) bank.row.version =
            (bank.row.add call.column call.amount, true) := by
          rw [hsound.row]
          simp [updateSafe, UserRow.add]
        rw [hrow]
        have hnext : (bank.row.add call.column call.amount).version = bank.row.version + 1 := rfl
        refine ⟨extend history (bank.row.add call.column call.amount), ?_, ?_, ?_, ?_⟩
        · exact Function.update_self ..
        · exact fun user huser => (hsound.users user huser).extend hnext
        · intro c hc
          rcases List.mem_or_eq_of_mem_set hc with hc | rfl
          · exact (hsound.calls c hc).extend hnext
          · refine ⟨by rw [hnext]; omega, ?_⟩
            rw [extend_of_le hnext (Nat.le_refl bank.row.version), hsound.row]
            exact Function.update_self ..
        · intro column
          have hbalance := hsound.balance column
          rw [sum_map_set _ hcall]
          have hbefore : call.added column = 0 := by simp [UpdateCall.added, hwait]
          rw [hbefore, UserRow.get_add]
          simp only [Bank.paid, UpdateCall.added] at hbalance ⊢
          omega
      · have hrow : updateSafe bank.row call.column
            ((history version).get call.column + call.amount) version = (bank.row, false) := by
          simp [updateSafe, hversion]
        rw [hrow]
        refine ⟨history, hsound.rewait hcall ?_ (fun column => by simp [UpdateCall.added, hwait])
          hsound.users⟩
        trivial
  | select =>
      refine ⟨history, hsound.rewait hcall ?_ (fun column => by simp [UpdateCall.added, hwait])
        hsound.users⟩
      exact ⟨Nat.le_refl _, hsound.row⟩
  | updated version done => exact ⟨history, hsound⟩
  | selected info => exact ⟨history, hsound⟩

theorem Known.of_mem_modify {users : List UserRow} (hknown : ∀ user ∈ users, Known history row user)
    {index : Nat} {f : UserRow → UserRow}
    (hf : ∀ user, users[index]? = some user → Known history row (f user)) :
    ∀ user ∈ users.modify index f, Known history row user := by
  intro user huser
  obtain ⟨i, hi⟩ := List.mem_iff_getElem?.mp huser
  rw [List.getElem?_modify] at hi
  split_ifs at hi with hindex
  · subst hindex
    obtain ⟨old, hold, rfl⟩ := Option.map_eq_some_iff.mp hi
    exact hf old hold
  · simp only [id_map'] at hi
    exact hknown user (List.mem_of_getElem? hi)

theorem Known.of_mem_set {users : List UserRow} (hknown : ∀ user ∈ users, Known history row user)
    {index : Nat} {info : UserRow} (hinfo : Known history row info) :
    ∀ user ∈ users.set index info, Known history row user := by
  intro user huser
  rcases List.mem_or_eq_of_mem_set huser with huser | rfl
  · exact hknown user huser
  · exact hinfo

theorem Bank.Sound.finish (hsound : bank.Sound history init) {index : Nat} {call : UpdateCall}
    (hcall : bank.calls[index]? = some call) {users : List UserRow}
    (husers : ∀ user ∈ users, Known history bank.row user) {done : Bool}
    (hadded : ∀ column, call.added column =
      if call.column = column ∧ done = true then call.amount else 0) :
    Bank.Sound history init { bank with
      users, calls := bank.calls.eraseIdx index
      returned := bank.returned ++ [(call.column, call.amount, done)] } where
  row := hsound.row
  users := husers
  calls := fun c hc => hsound.calls c (List.mem_of_mem_eraseIdx hc)
  balance := by
    intro column
    have hbalance := hsound.balance column
    rw [sum_map_eraseIdx _ hcall, hadded]
    simp only [Bank.paid, List.map_append, List.sum_append, List.map_singleton,
      List.sum_singleton] at hbalance ⊢
    omega

theorem Bank.Sound.resume (hsound : bank.Sound history init) {index : Nat} {call : UpdateCall}
    (hcall : bank.calls[index]? = some call) (hstep : bank.inStep (.resume index) = true) :
    (bank.resume index call).Sound history init := by
  have hold := hsound.calls call (List.mem_of_getElem? hcall)
  unfold Bank.resume
  cases hwait : call.wait with
  | update value version => exact hsound
  | select => exact hsound
  | updated version done =>
      cases done with
      | false =>
          refine hsound.rewait hcall ?_ (fun column => by simp [UpdateCall.added, hwait])
            hsound.users
          trivial
      | true =>
          simp only [UpdateCall.Sound, hwait] at hold
          simp only [Bank.inStep, hcall, hwait] at hstep
          refine hsound.finish hcall (Known.of_mem_modify hsound.users fun user huser => ?_)
            fun column => by simp [UpdateCall.added, hwait]
          -- The copy is still the one the statement was computed from.
          rw [huser, Option.any_some, decide_eq_true_eq] at hstep
          obtain ⟨-, hknown⟩ := hsound.users user (List.mem_of_getElem? huser)
          rw [← hstep, hknown] at hold
          exact ⟨hold.1, hold.2⟩
  | selected info =>
      simp only [UpdateCall.Sound, hwait] at hold
      dsimp only
      split_ifs
      · refine hsound.rewait hcall ?_
          (fun column => by simp [UpdateCall.added, UpdateCall.send, hwait])
          (Known.of_mem_set hsound.users hold)
        exact ⟨hold.1, by rw [hold.2]; rfl⟩
      · exact hsound.finish hcall (Known.of_mem_set hsound.users hold)
          fun column => by simp [UpdateCall.added, hwait]

theorem Bank.Sound.load (hsound : bank.Sound history init) :
    (bank.step .load).Sound history init where
  row := hsound.row
  users := by
    intro user huser
    rcases List.mem_append.mp huser with huser | huser
    · exact hsound.users user huser
    · rw [List.mem_singleton.mp huser]
      exact ⟨Nat.le_refl _, hsound.row⟩
  calls := hsound.calls
  balance := hsound.balance

theorem Bank.Sound.call (hsound : bank.Sound history init) {user : Nat} {info : UserRow}
    (hinfo : bank.users[user]? = some info) (column : Column) (amount : Int) :
    Bank.Sound history init { bank with
      calls := bank.calls ++ [UpdateCall.send ⟨user, column, amount, 1, .select⟩ info 1] } where
  row := hsound.row
  users := hsound.users
  calls := by
    intro c hc
    rcases List.mem_append.mp hc with hc | hc
    · exact hsound.calls c hc
    · rw [List.mem_singleton.mp hc]
      obtain ⟨hle, hknown⟩ := hsound.users info (List.mem_of_getElem? hinfo)
      exact ⟨hle, by rw [hknown]; rfl⟩
  balance := by
    intro column'
    have hbalance := hsound.balance column'
    simp only [Bank.paid, List.map_append, List.sum_append, List.map_singleton,
      List.sum_singleton] at hbalance ⊢
    simp only [UpdateCall.added, UpdateCall.send] at hbalance ⊢
    omega

theorem Bank.Balanced.step (hbalanced : bank.Balanced init) {event : BankEvent}
    (hstep : bank.inStep event = true) : (bank.step event).Balanced init := by
  obtain ⟨history, hsound⟩ := hbalanced
  unfold Bank.Balanced
  cases event with
  | load => exact ⟨history, hsound.load⟩
  | call user column amount =>
      simp only [Bank.step]
      cases hinfo : bank.users[user]? with
      | none => exact ⟨history, hsound⟩
      | some info => exact ⟨history, hsound.call hinfo column amount⟩
  | execute index =>
      simp only [Bank.step]
      cases hcall : bank.calls[index]? with
      | none => exact ⟨history, hsound⟩
      | some call => exact hsound.execute hcall
  | resume index =>
      simp only [Bank.step]
      cases hcall : bank.calls[index]? with
      | none => exact ⟨history, hsound⟩
      | some call => exact ⟨history, hsound.resume hcall hstep⟩

end Invariant

section Runs

/-- **No update is lost.** In a run in which every successful call finds its copy at the version it
had sent, whenever no call is under way the row holds what it held at first and the amounts of the
calls that returned true. -/
theorem balance_eq_paid (row : UserRow) (events : List BankEvent)
    (halong : Run.Along Bank.step (fun bank event => bank.inStep event = true) { row } events)
    (hquiet : (Run.exec Bank.step { row } events).calls = []) (column : Column) :
    (Run.exec Bank.step { row } events).row.get column =
      row.get column + (Run.exec Bank.step { row } events).paid column := by
  have hstart : Bank.Balanced row { row } := ⟨_, Bank.sound_start row⟩
  obtain ⟨history, hsound⟩ := Run.invariant
    (fun (bank : Bank) event (hbalanced : bank.Balanced row) hstep => hbalanced.step hstep) events _
    hstart halong
  have hbalance := hsound.balance column
  rw [hquiet, List.map_nil, List.sum_nil, add_zero] at hbalance
  exact hbalance

/-- Two calls over one copy, one after the other, and a third over another copy that is out of date
and is read again. -/
def turnRun : List BankEvent :=
  [.load, .load, .call 0 .coin 10, .execute 0, .resume 0, .call 0 .money 5, .execute 0, .resume 0,
    .call 1 .coin 100, .execute 0, .resume 0, .execute 0, .resume 0, .execute 0, .resume 0]

theorem balance_eq_paid_turnRun :
    (Run.Along Bank.step (fun bank event => bank.inStep event = true) { row := ⟨0, 0, 0, 0⟩ }
        turnRun ∧
      (Run.exec Bank.step { row := ⟨0, 0, 0, 0⟩ } turnRun).calls = []) ∧
    (Run.exec Bank.step { row := ⟨0, 0, 0, 0⟩ } turnRun).row.get .coin =
      (⟨0, 0, 0, 0⟩ : UserRow).get .coin +
        (Run.exec Bank.step { row := ⟨0, 0, 0, 0⟩ } turnRun).paid .coin := by
  have halong : Run.Along Bank.step (fun bank event => bank.inStep event = true)
      { row := ⟨0, 0, 0, 0⟩ } turnRun := by decide
  have hquiet : (Run.exec Bank.step { row := ⟨0, 0, 0, 0⟩ } turnRun).calls = [] := by decide
  exact ⟨⟨halong, hquiet⟩, balance_eq_paid ⟨0, 0, 0, 0⟩ turnRun halong hquiet .coin⟩

/-- The second call over a copy reads the row again after the first has written it and before the
first goes on, which then counts its amount in the copy twice and puts the copy one version ahead. A
call over another copy brings the row to that version. -/
def lostRun : List BankEvent :=
  [.load, .call 0 .coin 10, .call 0 .coin 1, .execute 0, .execute 1, .resume 1,
    .execute 1, .resume 1,
    .resume 0, .execute 0, .resume 0, .load, .call 1 .coin 100, .execute 0, .resume 0,
    .call 0 .coin 5, .execute 0, .resume 0]

theorem balance_ne_paid :
    (Run.exec Bank.step { row := ⟨0, 0, 0, 0⟩ } lostRun).calls = [] ∧
      (Run.exec Bank.step { row := ⟨0, 0, 0, 0⟩ } lostRun).row.get .coin = 26 ∧
      (Run.exec Bank.step { row := ⟨0, 0, 0, 0⟩ } lostRun).paid .coin = 116 := by
  decide

end Runs

end SdyServer
