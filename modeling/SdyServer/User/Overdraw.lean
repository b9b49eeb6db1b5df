import SdyServer.User.Balance

/-!
# Overdrafts

`room_logic.user_update_coin` cuts what it takes down to the cached balance and leaves the rest to
`update_coin`, whose first turn therefore never writes a negative balance. A later turn takes the
same amount from a balance that was read again.

Everything else that happens to the row and to the cached copies is left open.
-/

namespace SdyServer

section Calls

/-- The amount that `user_update_coin` hands on, from the cached balance and what it is asked
for. -/
def clampCoin (userCoin coin : Int) : Int := if userCoin + coin < 0 then -userCoin else coin

/-- What is taken is the smaller one of what was asked for and of what was cached. -/
theorem clampCoin_eq (userCoin coin : Int) : clampCoin userCoin coin = -min (-coin) userCoin := by
  unfold clampCoin
  split_ifs <;> omega

/-- A call of `user_update_coin`: the call of `update_coin` that it makes, what it was asked for,
the balance it found in the copy, and the one that its last turn computed from. -/
structure CoinCall extends UpdateCall where
  coin : Int
  cached : Int
  read : Int
deriving DecidableEq, Repr

/-- The row, the cached copies, the calls that are suspended, and what the others returned. -/
structure Purse where
  row : UserRow
  users : List UserRow := []
  calls : List CoinCall := []
  returned : List (Column × Int × Bool) := []
deriving DecidableEq, Repr

inductive PurseEvent where
  | userUpdateCoin (user : Nat) (coin : Int)
  | execute (index : Nat)
  | resume (index : Nat)
  /-- Another update of the row. -/
  | other (row : UserRow)
  /-- What anybody else does to the copies. -/
  | copies (users : List UserRow)
deriving DecidableEq, Repr

/-- A turn of the loop. -/
def CoinCall.send (call : CoinCall) (user : UserRow) (i : Nat) : CoinCall :=
  { call with toUpdateCall := call.toUpdateCall.send user i, read := user.userCoin }

def Purse.execute (purse : Purse) (index : Nat) (call : CoinCall) : Purse :=
  match call.wait with
  | .update value version =>
      { purse with
        row := (updateSafe purse.row call.column value version).1
        calls := purse.calls.set index { call with
          wait := .updated version (updateSafe purse.row call.column value version).2 } }
  | .select =>
      { purse with calls := purse.calls.set index { call with wait := .selected purse.row } }
  | _ => purse

def Purse.resume (purse : Purse) (index : Nat) (call : CoinCall) : Purse :=
  match call.wait with
  | .updated _ true =>
      { purse with
        users := purse.users.modify call.user fun user => user.add call.column call.amount
        calls := purse.calls.eraseIdx index
        returned := purse.returned ++ [(call.column, call.amount, true)] }
  | .updated _ false => { purse with calls := purse.calls.set index { call with wait := .select } }
  | .selected info =>
      if call.i < 5 then
        { purse with
          users := purse.users.set call.user info
          calls := purse.calls.set index (call.send info (call.i + 1)) }
      else
        { purse with
          users := purse.users.set call.user info
          calls := purse.calls.eraseIdx index
          returned := purse.returned ++ [(call.column, call.amount, false)] }
  | _ => purse

/-- `room_logic.user_update_coin`, up to the first statement that `update_coin` sends. -/
def Purse.userUpdateCoin (purse : Purse) (user : Nat) (coin : Int) (info : UserRow) : Purse :=
  let call : CoinCall :=
    { user, column := .coin, amount := clampCoin info.userCoin coin, i := 1, wait := .select
      coin, cached := info.userCoin, read := info.userCoin }
  { purse with calls := purse.calls ++ [call.send info 1] }

def Purse.step (purse : Purse) : PurseEvent → Purse
  | .userUpdateCoin user coin =>
      match purse.users[user]? with
      | none => purse
      | some info => purse.userUpdateCoin user coin info
  | .execute index =>
      match purse.calls[index]? with
      | none => purse
      | some call => purse.execute index call
  | .resume index =>
      match purse.calls[index]? with
      | none => purse
      | some call => purse.resume index call
  | .other row => { purse with row }
  | .copies users => { purse with users }

/-- The step ends a call with true. -/
def Purse.returnsTrue (purse : Purse) : PurseEvent → Bool
  | .resume index =>
      match purse.calls[index]? with
      | none => false
      | some call =>
          match call.wait with
          | .updated _ true => true
          | _ => false
  | _ => false

/-- Other updates keep the balance from getting negative. A later turn of a call that takes effect
finds a balance that covers what it takes: what it was asked for, or the balance that was cached if
that was less. -/
def Purse.covered (purse : Purse) : PurseEvent → Bool
  | .other row => 0 ≤ row.userCoin
  | .execute index =>
      match purse.calls[index]? with
      | none => true
      | some call =>
          match call.wait with
          | .update _ version =>
              decide (purse.row.version ≠ version) || decide (call.i = 1) ||
                decide (min (-call.coin) call.cached ≤ call.read)
          | _ => true
  | _ => true

/-- What the calls are to `update_coin`. -/
def Purse.bank (purse : Purse) : Bank :=
  ⟨purse.row, purse.users, purse.calls.map CoinCall.toUpdateCall, purse.returned⟩

end Calls

section Refinement

variable (purse : Purse)

/-- Running the statements and resuming is what the calls of `update_coin` do. -/
theorem Purse.bank_execute (index : Nat) :
    (purse.step (.execute index)).bank = purse.bank.step (.execute index) := by
  simp only [Purse.step, Bank.step, Purse.bank, List.getElem?_map]
  cases purse.calls[index]? with
  | none => rfl
  | some call =>
      simp only [Option.map_some, Purse.execute, Bank.execute]
      cases call.wait <;> simp only [List.map_set]

theorem Purse.bank_resume (index : Nat) :
    (purse.step (.resume index)).bank = purse.bank.step (.resume index) := by
  simp only [Purse.step, Bank.step, Purse.bank, List.getElem?_map]
  cases purse.calls[index]? with
  | none => rfl
  | some call =>
      simp only [Option.map_some, Purse.resume, Bank.resume]
      cases hwait : call.wait with
      | updated version done =>
          cases done <;> simp only [List.map_set, List.eraseIdx_map]
      | selected info =>
          by_cases hturn : call.i < 5
          · simp only [if_pos hturn, List.map_set, CoinCall.send]
          · simp only [if_neg hturn, List.eraseIdx_map]
      | _ => rfl

theorem Purse.bank_userUpdateCoin {user : Nat} {info : UserRow}
    (hinfo : purse.users[user]? = some info)
    (coin : Int) : (purse.step (.userUpdateCoin user coin)).bank =
      purse.bank.step (.call user .coin (clampCoin info.userCoin coin)) := by
  simp [Purse.step, Bank.step, Purse.bank, Purse.userUpdateCoin, hinfo, CoinCall.send]

end Refinement

section Overdraft

variable {purse : Purse} {call : CoinCall}

/-- What a call that waits for its update has computed. -/
structure CoinCall.Sound (call : CoinCall) : Prop where
  column : call.column = .coin
  amount : call.amount = clampCoin call.cached call.coin
  turn : 1 ≤ call.i
  first : call.i = 1 → call.read = call.cached
  value : ∀ value version, call.wait = .update value version → value = call.read + call.amount

theorem CoinCall.Sound.again (hsound : call.Sound) (info : UserRow) :
    (call.send info (call.i + 1)).Sound where
  column := hsound.column
  amount := hsound.amount
  turn := Nat.le_add_left ..
  first := fun h => absurd (Nat.succ.inj h) (Nat.one_le_iff_ne_zero.1 hsound.turn)
  value := fun value version hwait => by
    simp only [CoinCall.send, UpdateCall.send, Wait.update.injEq, hsound.column,
      UserRow.get] at hwait
    exact hwait.1.symm

/-- A call that waits for anything else. -/
theorem CoinCall.Sound.wait (hsound : call.Sound) {wait : Wait}
    (hwait : ∀ value version, wait ≠ .update value version) :
    ({ call with wait } : CoinCall).Sound :=
  ⟨hsound.column, hsound.amount, hsound.turn, hsound.first,
    fun value version h => absurd h (hwait value version)⟩

def Purse.Sound (purse : Purse) : Prop := ∀ call ∈ purse.calls, call.Sound

theorem Purse.Sound.set (hsound : purse.Sound) (hcall : call.Sound) (index : Nat) :
    ∀ call' ∈ purse.calls.set index call, call'.Sound := fun call' hmem =>
  (List.mem_or_eq_of_mem_set hmem).elim (hsound call') fun heq => heq ▸ hcall

theorem Purse.Sound.erase (hsound : purse.Sound) (index : Nat) :
    ∀ call' ∈ purse.calls.eraseIdx index, call'.Sound := fun call' hmem =>
  hsound call' (List.mem_of_mem_eraseIdx hmem)

theorem Purse.Sound.step (hsound : purse.Sound) (event : PurseEvent) :
    (purse.step event).Sound := by
  cases event with
  | userUpdateCoin user coin =>
      rw [Purse.step]
      split
      · exact hsound
      · rename_i info hinfo
        intro call hmem
        rcases List.mem_append.1 hmem with hmem | hmem
        · exact hsound call hmem
        · rw [List.mem_singleton] at hmem
          subst hmem
          refine ⟨rfl, rfl, le_rfl, fun _ => rfl, fun value version hwait => ?_⟩
          simp only [CoinCall.send, UpdateCall.send, Wait.update.injEq, UserRow.get] at hwait
          exact hwait.1.symm
  | execute index =>
      rw [Purse.step]
      split
      · exact hsound
      · rename_i call hcall
        have hmem : call.Sound := hsound call (List.mem_of_getElem? hcall)
        unfold Purse.execute
        split
        · exact hsound.set (hmem.wait (by simp)) index
        · exact hsound.set (hmem.wait (by simp)) index
        · exact hsound
  | resume index =>
      rw [Purse.step]
      split
      · exact hsound
      · rename_i call hcall
        have hmem : call.Sound := hsound call (List.mem_of_getElem? hcall)
        unfold Purse.resume
        split
        · exact hsound.erase index
        · exact hsound.set (hmem.wait (by simp)) index
        · split_ifs
          · exact hsound.set (hmem.again _) index
          · exact hsound.erase index
        · exact hsound
  | other row => exact hsound
  | copies users => exact hsound

/-- What an update that takes effect writes is not negative when the balance covers it. -/
theorem CoinCall.Sound.covers (hsound : call.Sound) {value : Int} {version : Nat}
    (hwait : call.wait = .update value version) :
    0 ≤ value ↔ call.i = 1 ∨ min (-call.coin) call.cached ≤ call.read := by
  rw [hsound.value value version hwait, hsound.amount, clampCoin_eq]
  constructor
  · intro h
    exact .inr (by omega)
  · rintro (hturn | hcovers)
    · have := hsound.first hturn
      omega
    · omega

/-- The covered steps are those that keep the balance from getting negative. -/
theorem Purse.Sound.step_iff (hsound : purse.Sound) (hrow : 0 ≤ purse.row.userCoin)
    (event : PurseEvent) :
    0 ≤ (purse.step event).row.userCoin ↔ purse.covered event = true := by
  cases event with
  | userUpdateCoin user coin =>
      rw [Purse.step]
      split
      · exact iff_of_true hrow rfl
      · exact iff_of_true hrow rfl
  | execute index =>
      rw [Purse.step, Purse.covered]
      cases hcall : purse.calls[index]? with
      | none => exact iff_of_true hrow rfl
      | some call =>
          have hmem : call.Sound := hsound call (List.mem_of_getElem? hcall)
          simp only [Purse.execute]
          cases hwait : call.wait with
          | update value version =>
              simp only [hmem.column, updateSafe, Bool.or_eq_true, decide_eq_true_eq, or_assoc]
              by_cases hversion : purse.row.version = version
              · rw [if_pos hversion]
                exact (hmem.covers hwait).trans (or_iff_right (not_not.2 hversion)).symm
              · rw [if_neg hversion]
                exact iff_of_true hrow (.inl hversion)
          | _ => exact iff_of_true hrow rfl
  | resume index =>
      have hsame : (purse.step (.resume index)).row = purse.row := by
        rw [Purse.step]
        split
        · rfl
        · unfold Purse.resume
          split
          · rfl
          · rfl
          · split_ifs <;> rfl
          · rfl
      rw [hsame]
      exact iff_of_true hrow rfl
  | other row => exact decide_eq_true_iff.symm
  | copies users => exact iff_of_true hrow rfl

end Overdraft

section Runs

/-- **No call of `user_update_coin` overdraws while its later turns are covered.** In such a run the
balance is not negative at the end of any call that returns true. The covered runs are those in
which it gets negative nowhere. -/
theorem userUpdateCoin_covered (row : UserRow) (users : List UserRow) (hrow : 0 ≤ row.userCoin)
    (events : List PurseEvent) :
    (Run.Along Purse.step (fun purse event => purse.covered event = true) { row, users } events →
        ∀ n event, events[n]? = some event →
          (Run.exec Purse.step { row, users } (events.take n)).returnsTrue event = true →
          0 ≤ (Run.exec Purse.step { row, users } (events.take (n + 1))).row.userCoin) ∧
      ((∀ n, 0 ≤ (Run.exec Purse.step { row, users } (events.take n)).row.userCoin) ↔
        Run.Along Purse.step (fun purse event => purse.covered event = true)
        { row, users } events) := by
  have hstart : Purse.Sound { row, users } := fun call hmem => absurd hmem List.not_mem_nil
  have hexact := @Run.forall_take_iff _ _ Purse.step (fun purse event => purse.covered event = true)
    Purse.Sound (fun purse => 0 ≤ purse.row.userCoin) (fun _ event hsound => hsound.step event)
    (fun _ event hsound hgood => hsound.step_iff hgood event) events _ hstart hrow
  exact ⟨fun halong n event _ _ => hexact.2 halong (n + 1), hexact⟩

/-- A call over a copy that is out of date, which finds enough when it reads the row again. -/
def reloadRun (balance : Int) : List PurseEvent :=
  [.userUpdateCoin 0 (-80), .other ⟨balance, 0, 0, 1⟩, .execute 0, .resume 0, .execute 0, .resume 0,
    .execute 0, .resume 0]

theorem userUpdateCoin_covered_reload :
    Run.Along Purse.step (fun purse event => purse.covered event = true)
        { row := ⟨100, 0, 0, 0⟩, users := [⟨100, 0, 0, 0⟩] } (reloadRun 90) ∧
      (∀ n event, (reloadRun 90)[n]? = some event →
        (Run.exec Purse.step { row := ⟨100, 0, 0, 0⟩, users := [⟨100, 0, 0, 0⟩] }
          ((reloadRun 90).take n)).returnsTrue event = true →
        0 ≤ (Run.exec Purse.step { row := ⟨100, 0, 0, 0⟩, users := [⟨100, 0, 0, 0⟩] }
          ((reloadRun 90).take (n + 1))).row.userCoin) ∧
      ∀ n, 0 ≤ (Run.exec Purse.step { row := ⟨100, 0, 0, 0⟩, users := [⟨100, 0, 0, 0⟩] }
        ((reloadRun 90).take n)).row.userCoin := by
  have hcovered : Run.Along Purse.step (fun purse event => purse.covered event = true)
      { row := ⟨100, 0, 0, 0⟩, users := [⟨100, 0, 0, 0⟩] } (reloadRun 90) := by decide
  obtain ⟨hcalls, hruns⟩ :=
    userUpdateCoin_covered ⟨100, 0, 0, 0⟩ [⟨100, 0, 0, 0⟩] (by decide) (reloadRun 90)
  exact ⟨hcovered, hcalls hcovered, hruns.2 hcovered⟩

/-- The amount is clamped to the balance of the copy and then taken from the ten that are left. -/
theorem userUpdateCoin_overdraws :
    ¬∀ (row : UserRow) (users : List UserRow) (events : List PurseEvent), 0 ≤ row.userCoin →
      (∀ other, PurseEvent.other other ∈ events → 0 ≤ other.userCoin) →
        ∀ n event, events[n]? = some event →
          (Run.exec Purse.step { row, users } (events.take n)).returnsTrue event = true →
          0 ≤ (Run.exec Purse.step { row, users } (events.take (n + 1))).row.userCoin := by
  intro h
  have hothers : ∀ other, PurseEvent.other other ∈ reloadRun 10 → 0 ≤ other.userCoin := by
    simp [reloadRun]
  exact absurd (h ⟨100, 0, 0, 0⟩ [⟨100, 0, 0, 0⟩] (reloadRun 10) (by decide) hothers 7 (.resume 0)
    (by decide) (by decide)) (by decide)

end Runs

end SdyServer
