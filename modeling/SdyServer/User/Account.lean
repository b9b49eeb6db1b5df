import Mathlib.Algebra.Order.Floor.Ring
import Mathlib.Data.Rat.Floor
import Mathlib.Algebra.BigOperators.Group.List.Basic
import Mathlib.Tactic.Linarith
import Mathlib.Tactic.Ring
import SdyServer.Lib.Lua

/-!
# The account service

A game moves coins by sending batches of `userAccts` to the account service, and room diamonds by
three calls of their own. The service applies a call it answers ok exactly once, so the accepted
calls are the books: what a customer has frozen in a game, and how many room-diamond deposits are
open, are functions of the log of accepted calls.
-/

namespace SdyServer

abbrev CustNo := Nat

/-- The `type` of an entry: 0, 1, 2, 3, 6 and 7 in this order. -/
inductive AcctType where
  | freeze
  | giveBack
  | win
  | lose
  | profit
  | defray
deriving DecidableEq, Repr

/-- An entry of `userAccts`. `operatGameResultAcct` passes over one without a type. -/
structure UserAcct where
  type : Option AcctType
  coin : ℚ
  custNo : Option CustNo
deriving DecidableEq, Repr

inductive ServiceCall where
  | freezeRoomGold
  | returnRoomGold
  | reduceRoomGold
  | operatGameResultAcct (userAccts : List UserAcct)
deriving DecidableEq, Repr

/-- What a call gives back: ok, the code for an empty account, or any other failure. -/
inductive Answer where
  | ok
  | b002 (dec : String)
  | error (dec : String)
deriving DecidableEq, Repr

def Answer.dec : Answer → String
  | .b002 dec => dec
  | .error dec => dec
  | .ok => ""

/-- `msg == "B002" and text or dec`. -/
def failText (text : String) : Answer → String
  | .b002 _ => text
  | answer => answer.dec

/-- How a piece of a handler between two calls ends: an error message to the client is a text and a
message id. -/
inductive Next (φ : Type) where
  | done
  | raised (error : LuaError)
  | refused (text : String) (msgId : String)
  | call (frame : φ)

def Next.frame? {φ : Type} : Next φ → Option φ
  | .call frame => some frame
  | _ => none

/-- `string.format("%.2f", x)`: the nearest whole cent of the number that is held, the even one of
two that are equally near. Where the code holds a double, `x` is that double. -/
def round2 (x : ℚ) : ℚ :=
  let cents := ⌊x * 100⌋
  let rest := x * 100 - cents
  if rest < 1 / 2 ∨ rest = 1 / 2 ∧ cents % 2 = 0 then cents / 100 else (cents + 1) / 100

theorem round2_of_cents (n : ℤ) : round2 (n / 100) = n / 100 := by
  have hcents : (n : ℚ) / 100 * 100 = n := by ring
  simp [round2, hcents]

section Held

def UserAcct.held (custNo : CustNo) (acct : UserAcct) : ℚ :=
  if acct.custNo = some custNo then
    match acct.type with
    | some .freeze => acct.coin
    | some .giveBack => -acct.coin
    | _ => 0
  else 0

def batchHeld (custNo : CustNo) (userAccts : List UserAcct) : ℚ :=
  (userAccts.map (UserAcct.held custNo)).sum

def ServiceCall.held (custNo : CustNo) : ServiceCall → ℚ
  | .operatGameResultAcct userAccts => batchHeld custNo userAccts
  | _ => 0

def heldBy (log : List ServiceCall) (custNo : CustNo) : ℚ :=
  (log.map (ServiceCall.held custNo)).sum

@[simp]
theorem heldBy_nil (custNo : CustNo) : heldBy [] custNo = 0 := rfl

@[simp]
theorem heldBy_append_singleton (log : List ServiceCall) (call : ServiceCall) (custNo : CustNo) :
    heldBy (log ++ [call]) custNo = heldBy log custNo + call.held custNo := by
  simp [heldBy]

@[simp]
theorem batchHeld_nil (custNo : CustNo) : batchHeld custNo [] = 0 := rfl

@[simp]
theorem batchHeld_cons (custNo : CustNo) (acct : UserAcct) (rest : List UserAcct) :
    batchHeld custNo (acct :: rest) = acct.held custNo + batchHeld custNo rest := by
  simp [batchHeld]

@[simp]
theorem batchHeld_append (custNo : CustNo) (accts accts' : List UserAcct) :
    batchHeld custNo (accts ++ accts') = batchHeld custNo accts + batchHeld custNo accts' := by
  simp [batchHeld]

@[simp]
theorem UserAcct.held_freeze (uid : CustNo) (custNo : Option CustNo) (coin : ℚ) :
    UserAcct.held uid ⟨some .freeze, coin, custNo⟩ = if custNo = some uid then coin else 0 := rfl

@[simp]
theorem UserAcct.held_giveBack (uid : CustNo) (custNo : Option CustNo) (coin : ℚ) :
    UserAcct.held uid ⟨some .giveBack, coin, custNo⟩ = if custNo = some uid then -coin else 0 := rfl

theorem UserAcct.held_eq_zero {custNo : CustNo} {acct : UserAcct}
    (hfreeze : acct.type ≠ some .freeze) (hback : acct.type ≠ some .giveBack) :
    acct.held custNo = 0 := by
  unfold UserAcct.held
  split
  · split
    · exact absurd ‹_› hfreeze
    · exact absurd ‹_› hback
    · rfl
  · rfl

/-- Entries that neither freeze nor give back move nothing into or out of the game. -/
theorem batchHeld_eq_zero {custNo : CustNo} {accts : List UserAcct}
    (h : ∀ acct ∈ accts, acct.type ≠ some .freeze ∧ acct.type ≠ some .giveBack) :
    batchHeld custNo accts = 0 := by
  apply List.sum_eq_zero
  intro x hx
  obtain ⟨acct, hacct, rfl⟩ := List.mem_map.mp hx
  exact UserAcct.held_eq_zero (h acct hacct).1 (h acct hacct).2

end Held

section WinLoss

def UserAcct.winLoss (acct : UserAcct) : ℚ :=
  match acct.type with
  | some .win => acct.coin
  | some .lose => -acct.coin
  | _ => 0

def UserAcct.commission (acct : UserAcct) : ℚ :=
  if acct.type = some .defray then round2 acct.coin else 0

def sumFor (custNo : CustNo) (f : UserAcct → ℚ) (userAccts : List UserAcct) : ℚ :=
  (userAccts.map fun acct => if acct.custNo = some custNo then f acct else 0).sum

/-- A win or a loss as it is booked, in whole cents. -/
def UserAcct.booked (acct : UserAcct) : ℚ :=
  match acct.type with
  | some .win => round2 acct.coin
  | some .lose => -round2 acct.coin
  | _ => 0

def batchWinLoss (userAccts : List UserAcct) : ℚ := (userAccts.map UserAcct.booked).sum

theorem sumFor_append (custNo : CustNo) (f : UserAcct → ℚ) (accts accts' : List UserAcct) :
    sumFor custNo f (accts ++ accts') = sumFor custNo f accts + sumFor custNo f accts' := by
  simp [sumFor]

theorem batchWinLoss_append (accts accts' : List UserAcct) :
    batchWinLoss (accts ++ accts') = batchWinLoss accts + batchWinLoss accts' := by
  simp [batchWinLoss]

theorem sumFor_eq_zero {custNo : CustNo} {f : UserAcct → ℚ} {accts : List UserAcct}
    (h : ∀ acct ∈ accts, f acct = 0) : sumFor custNo f accts = 0 := by
  apply List.sum_eq_zero
  intro x hx
  obtain ⟨acct, hacct, rfl⟩ := List.mem_map.mp hx
  simp [h acct hacct]

theorem batchWinLoss_eq_zero {accts : List UserAcct} (h : ∀ acct ∈ accts, acct.booked = 0) :
    batchWinLoss accts = 0 := by
  apply List.sum_eq_zero
  intro x hx
  obtain ⟨acct, hacct, rfl⟩ := List.mem_map.mp hx
  exact h acct hacct

end WinLoss

section Escrow

def ServiceCall.escrow : ServiceCall → ℤ
  | .freezeRoomGold => 1
  | .returnRoomGold => -1
  | .reduceRoomGold => -1
  | .operatGameResultAcct _ => 0

def openEscrow (log : List ServiceCall) : ℤ := (log.map ServiceCall.escrow).sum

@[simp]
theorem openEscrow_nil : openEscrow [] = 0 := rfl

@[simp]
theorem openEscrow_append_singleton (log : List ServiceCall) (call : ServiceCall) :
    openEscrow (log ++ [call]) = openEscrow log + call.escrow := by
  simp [openEscrow]

end Escrow

end SdyServer
