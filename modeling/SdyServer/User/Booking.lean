import Mathlib.Algebra.BigOperators.Fin
import Mathlib.Algebra.Group.Subgroup.ZPowers.Basic
import SdyServer.Lib.Rounding
import SdyServer.User.Account

/-!
# Booking a batch

What the account service does with a batch: an entry of type 0 moves coins of a customer into the
games and one of type 1 back, and the other types change his balance alone. Every amount is
formatted to cents on its way.
-/

namespace SdyServer

/-- What a customer has at hand and in the games. -/
structure Account where
  balance : ℚ
  game : ℚ

section Booking

def Account.total (account : Account) : ℚ := account.balance + account.game

def Account.book (account : Account) (coin : ℚ) : AcctType → Account
  | .freeze => ⟨account.balance - coin, account.game + coin⟩
  | .giveBack => ⟨account.balance + coin, account.game - coin⟩
  | .win | .profit => ⟨account.balance + coin, account.game⟩
  | .lose | .defray => ⟨account.balance - coin, account.game⟩

/-- One entry of `operatGameResultAcct`. -/
def bookAcct (accounts : CustNo → Account) (acct : UserAcct) : CustNo → Account :=
  match acct.type, acct.custNo with
  | some type, some custNo =>
      Function.update accounts custNo ((accounts custNo).book (round2 acct.coin) type)
  | _, _ => accounts

/-- What a batch that is answered ok does. -/
def bookAccts (accounts : CustNo → Account) (userAccts : List UserAcct) : CustNo → Account :=
  userAccts.foldl bookAcct accounts

/-- The entry as it is sent. -/
def UserAcct.rounded (acct : UserAcct) : UserAcct := { acct with coin := round2 acct.coin }

/-- What an entry adds to all that the customers have. -/
def UserAcct.net (acct : UserAcct) : ℚ :=
  match acct.type with
  | some .win | some .profit => round2 acct.coin
  | some .lose | some .defray => -round2 acct.coin
  | _ => 0

end Booking

section Effects

variable (accounts : CustNo → Account)

theorem bookAcct_game (acct : UserAcct) (uid : CustNo) :
    (bookAcct accounts acct uid).game = (accounts uid).game + acct.rounded.held uid := by
  obtain ⟨type, coin, custNo⟩ := acct
  cases type with
  | none =>
      have hheld : UserAcct.held uid ⟨none, round2 coin, custNo⟩ = 0 :=
        UserAcct.held_eq_zero (by simp) (by simp)
      simp [bookAcct, UserAcct.rounded, hheld]
  | some type =>
      cases custNo with
      | none => simp [bookAcct, UserAcct.held, UserAcct.rounded]
      | some custNo =>
          by_cases huid : uid = custNo
          · subst huid
            cases type <;>
              simp [bookAcct, Account.book, UserAcct.held, UserAcct.rounded, sub_eq_add_neg]
          · have huid' : custNo ≠ uid := fun h => huid h.symm
            simp [bookAcct, UserAcct.held, UserAcct.rounded, huid, huid']

/-- **The game balance** of a customer changes by what the batch freezes for him and gives back. -/
theorem bookAccts_game (userAccts : List UserAcct) (uid : CustNo) :
    (bookAccts accounts userAccts uid).game =
      (accounts uid).game + batchHeld uid (userAccts.map UserAcct.rounded) := by
  unfold bookAccts
  induction userAccts generalizing accounts with
  | nil => simp
  | cons acct userAccts ih =>
      rw [List.foldl_cons, ih, bookAcct_game, List.map_cons, batchHeld_cons, add_assoc]

theorem Account.total_book (account : Account) (coin : ℚ) (type : AcctType) :
    (account.book (round2 coin) type).total = account.total + UserAcct.net ⟨type, coin, none⟩ := by
  cases type <;> simp only [Account.book, Account.total, UserAcct.net] <;> ring

theorem bookAcct_total {customers : Finset CustNo} {acct : UserAcct}
    (hcustomer : ∃ custNo ∈ customers, acct.custNo = some custNo) :
    ∑ uid ∈ customers, (bookAcct accounts acct uid).total =
      ∑ uid ∈ customers, (accounts uid).total + acct.net := by
  obtain ⟨type, coin, custNo⟩ := acct
  obtain ⟨custNo, hmem, rfl⟩ := hcustomer
  cases type with
  | none => simp [bookAcct, UserAcct.net]
  | some type =>
      have hupdate : (fun uid => (bookAcct accounts ⟨type, coin, custNo⟩ uid).total) =
          Function.update (fun uid => (accounts uid).total) custNo
            ((accounts custNo).total + UserAcct.net ⟨type, coin, custNo⟩) := by
        funext uid
        by_cases huid : uid = custNo
        · subst huid
          simp only [bookAcct, Function.update_self]
          exact Account.total_book (accounts uid) coin type
        · simp [bookAcct, huid]
      rw [hupdate, Finset.sum_update_of_mem hmem, Finset.sdiff_singleton_eq_erase,
        ← Finset.add_sum_erase _ _ hmem]
      ring

/-- **All that the customers have** changes by what the entries add. -/
theorem bookAccts_total {customers : Finset CustNo} {userAccts : List UserAcct}
    (hcustomers : ∀ acct ∈ userAccts, ∃ custNo ∈ customers, acct.custNo = some custNo) :
    ∑ uid ∈ customers, (bookAccts accounts userAccts uid).total =
      ∑ uid ∈ customers, (accounts uid).total + (userAccts.map UserAcct.net).sum := by
  unfold bookAccts
  induction userAccts generalizing accounts with
  | nil => simp
  | cons acct userAccts ih =>
      rw [List.forall_mem_cons] at hcustomers
      rw [List.foldl_cons, ih _ hcustomers.2, bookAcct_total accounts hcustomers.1, List.map_cons,
        List.sum_cons, add_assoc]

end Effects

section Cents

/-- The amounts that are whole cents. -/
abbrev wholeCents : AddSubgroup ℚ := AddSubgroup.zmultiples (1 / 100)

theorem mem_wholeCents_iff {x : ℚ} : x ∈ wholeCents ↔ ∃ n : ℤ, x = n / 100 := by
  rw [AddSubgroup.mem_zmultiples_iff]
  refine exists_congr fun n => ?_
  rw [zsmul_eq_mul, mul_one_div, eq_comm]

theorem round2_mem (x : ℚ) : round2 x ∈ wholeCents := by
  unfold round2
  dsimp only
  split_ifs
  · exact mem_wholeCents_iff.mpr ⟨_, rfl⟩
  · exact mem_wholeCents_iff.mpr ⟨⌊x * 100⌋ + 1, by push_cast; rfl⟩

theorem round2_eq_fixed (x : ℚ) : round2 x = Rounding.fixed 2 x := by
  have hunit : x / (1 / 10 ^ 2) = x * 100 := by rw [div_div_eq_mul_div, div_one]; norm_num
  rw [Rounding.fixed, Rounding.nearest, hunit, Rounding.nearestInt, round2]
  split_ifs <;> push_cast <;> ring

theorem abs_round2_sub_le (x : ℚ) : |round2 x - x| ≤ 1 / 200 := by
  rw [round2_eq_fixed]
  exact (Rounding.abs_nearest_sub_le (by norm_num) x).trans (by norm_num)

theorem round2_of_mem {x : ℚ} (hx : x ∈ wholeCents) : round2 x = x := by
  obtain ⟨n, rfl⟩ := mem_wholeCents_iff.mp hx
  exact round2_of_cents n

theorem intCast_mem_wholeCents (n : ℤ) : (n : ℚ) ∈ wholeCents :=
  mem_wholeCents_iff.mpr ⟨n * 100, by push_cast; ring⟩

theorem mul_intCast_mem_wholeCents {x : ℚ} (hx : x ∈ wholeCents) (n : ℤ) : x * n ∈ wholeCents := by
  rw [mul_comm, ← zsmul_eq_mul]
  exact zsmul_mem hx n

theorem abs_mem_wholeCents {x : ℚ} (hx : x ∈ wholeCents) : |x| ∈ wholeCents := by
  obtain h | h := abs_choice x
  · rwa [h]
  · rw [h]
    exact neg_mem hx

end Cents

end SdyServer
