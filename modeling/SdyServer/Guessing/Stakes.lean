import SdyServer.Guessing.Room

/-!
# The stakes of a game

A stake is frozen when the bet is placed and given back by whatever settles the game. As long as no
bet and no settlement gets in the way of a settlement, and the bettors are there when one of them
quits, every stake is given back once and the loser pays the winner once.
-/

namespace SdyServer.Guessing

variable {a b : Uid} {room : Room}

section Statement

def issued (type : AcctType) (userAccts : List UserAcct) : List (Uid × ℚ) :=
  userAccts.filterMap fun acct =>
    if acct.type = some type then acct.custNo.map fun uid => (uid, acct.coin) else none

def OneResult (userAccts : List UserAcct) : Prop :=
  issued .win userAccts = [] ∧ issued .lose userAccts = [] ∨
    ∃ winner loser coin, issued .win userAccts = [(winner, coin)] ∧
      issued .lose userAccts = [(loser, coin)]

/-- No stake is given back twice, and every one by the end of the game. -/
structure SettledOnce (room : Room) : Prop where
  once : (issued .giveBack room.userAccts).Subperm (issued .freeze room.userAccts)
  complete : room.gameStep = .gameOver →
    (issued .giveBack room.userAccts).Perm (issued .freeze room.userAccts)
  result : OneResult room.userAccts

/-- A room of two players whose calls to the account service succeed. -/
def ofTwo (a b : Uid) : Event → Bool
  | .login uid _ => uid = a || uid = b
  | .betting uid _ => uid = a || uid = b
  | .punch uid _ => uid = a || uid = b
  | .quitGame uid => uid = a || uid = b
  | .answer _ _ reply => reply = .ok
  | _ => true

def pending (tasks : List Task) : List (Uid × ℚ) :=
  tasks.filterMap fun task =>
    match task with
    | .freezing uid betValue => some (uid, betValue)
    | _ => none

/-- Whether the next tick closes the game, by a flow or with a winner. -/
def closes (room : Room) (random : Uid → Fin 3) (reversed : Bool) : Bool :=
  match room.gameStep with
  | .betEnd => room.betData.size ≠ 2
  | .punchesEnd => room.betData.size = 2 &&
      (getGuessingResult
        (getPunchDataList (fillPunches room random room.players.keys) reversed)).2 =
          some .someoneWin
  | _ => false

/-- Coins are frozen once for a user, while bets are taken and nobody is quitting. A settlement
begins when no coins are being frozen and no other one is under way, and finds the bettors in the
room if it is one of a user who quits. -/
def clean (room : Room) : Event → Bool
  | .answer index balAmt _ =>
      match room.tasks[index]? with
      | some (.asking uid betValue) =>
          betValue < 1 || betValue > balAmt.getD 0 ||
            ((room.gameStep = .betStart || room.gameStep = .betEnd) &&
              (room.betData.get uid).isNone &&
              !((pending room.tasks).map Prod.fst).contains uid && !room.tasks.contains .quitting)
      | _ => true
  | .quitGame _ =>
      !room.inPlay ||
        ((pending room.tasks).isEmpty && !room.tasks.contains .quitting && room.gameStep ≠ .flow &&
          room.betData.keys.all fun uid => (room.users.get uid).isSome)
  | .tick random reversed =>
      !closes room random reversed ||
        ((pending room.tasks).isEmpty && !room.tasks.contains .quitting)
  | _ => true

end Statement

section Invariant

def Room.stakes (room : Room) : List (Uid × ℚ) :=
  room.betData.entries.flatMap fun entry => entry.2.map fun coin => (entry.1, coin)

def GameStep.ended : GameStep → Bool
  | .result => true
  | .flow => true
  | .gameOver => true
  | _ => false

structure Books (a b : Uid) (room : Room) : Prop where
  users : ∀ uid ∈ room.users.keys, uid = a ∨ uid = b
  bettors : ∀ uid ∈ room.betData.keys, uid = a ∨ uid = b
  punchers : ∀ uid ∈ room.punchesData.keys, uid = a ∨ uid = b
  waiting : ∀ uid betValue, .asking uid betValue ∈ room.tasks ∨
    .freezing uid betValue ∈ room.tasks →
    uid = a ∨ uid = b
  players : room.players.keys = room.betData.keys
  single : ∀ entry ∈ room.betData.entries, ∃ coin, entry.2 = [coin]
  frozen : (issued .freeze room.userAccts).Perm (room.stakes ++ pending room.tasks)
  distinct : (room.betData.keys ++ (pending room.tasks).map Prod.fst).Nodup

/-- What the steps of the game say about the bets and the result. Two users who punch before the
bets are looked at bring the game to the end of the punches without their bets. -/
structure Course (room : Room) : Prop where
  playing : room.gameStep = .punchesStart ∨ room.gameStep = .waitResult → room.betData.size = 2
  punched : room.gameStep = .punchesEnd → room.betData.size = 2 ∨ 2 ≤ room.punchesData.size
  tie : room.gameStep = .waitResult → room.outcomeStatus = some .tie

/-- Nothing has been given back. A flow that has begun has no coins being frozen. -/
structure Open (room : Room) : Prop where
  returned : issued .giveBack room.userAccts = []
  win : issued .win room.userAccts = []
  lose : issued .lose room.userAccts = []
  tasks : ∀ task ∈ room.tasks, (∃ uid coin, task = .asking uid coin) ∨ ∃ uid coin, task =
    .freezing uid coin
  ended : room.gameStep.ended = true →
    room.gameStep = .gameOver ∧ issued .freeze room.userAccts = [] ∨
      room.gameStep = .flow ∧ pending room.tasks = []
  idle : room.gameStep = .none → issued .freeze room.userAccts = []

structure Closed (room : Room) : Prop where
  pending : pending room.tasks = []
  returned : (issued .giveBack room.userAccts).Perm (issued .freeze room.userAccts)
  result : OneResult room.userAccts
  locked : room.gameStep.ended = true ∨ .quitting ∈ room.tasks ∧ room.gameStep ≠ .none

structure StakeInv (a b : Uid) (room : Room) : Prop where
  books : Books a b room
  course : Course room
  phase : Open room ∨ Closed room

theorem StakeInv.settledOnce (hinv : StakeInv a b room) : SettledOnce room := by
  rcases hinv.phase with hopen | hclosed
  · refine ⟨?_, fun hover => ?_, Or.inl ⟨hopen.win, hopen.lose⟩⟩
    · rw [hopen.returned]
      exact List.nil_subperm
    · have hended : room.gameStep.ended = true := by
        rw [hover]
        rfl
      rcases hopen.ended hended with ⟨-, hnone⟩ | ⟨hflow, -⟩
      · rw [hopen.returned, hnone]
      · rw [hover] at hflow
        exact absurd hflow (by simp)
  · exact ⟨hclosed.returned.subperm, fun _ => hclosed.returned, hclosed.result⟩

end Invariant

section Entries

theorem issued_append (type : AcctType) (accts accts' : List UserAcct) :
    issued type (accts ++ accts') = issued type accts ++ issued type accts' :=
  List.filterMap_append ..

theorem issued_filterMap (type type' : AcctType) (uids : List Uid) (coin : Uid → Option ℚ) :
    issued type (uids.filterMap fun uid => (coin uid).map fun coin => userAcct type' coin uid) =
      if type' = type then uids.filterMap fun uid => (coin uid).map fun coin => (uid, coin) else
      [] := by
  induction uids with
  | nil => simp [issued]
  | cons uid uids ih =>
      cases hcoin : coin uid with
      | none => simpa [List.filterMap_cons, hcoin] using ih
      | some value =>
          rw [List.filterMap_cons, List.filterMap_cons, hcoin]
          simp only [Option.map_some]
          rw [← List.singleton_append, issued_append, ih]
          by_cases htype : type' = type
          · simp [issued, userAcct, htype]
          · simp [issued, userAcct, htype]

theorem length_le_two {uids : List Uid} (hnodup : uids.Nodup)
    (htwo : ∀ uid ∈ uids, uid = a ∨ uid = b) :
    uids.length ≤ 2 := by
  have hsub : uids ⊆ [a, b] := fun uid hmem => by simpa using htwo uid hmem
  exact (List.subperm_of_subset hnodup hsub).length_le

theorem eq_pair_of_nodup {uids : List Uid} (hnodup : uids.Nodup) (hlength : uids.length = 2)
    (htwo : ∀ uid ∈ uids, uid = a ∨ uid = b) : a ≠ b ∧ (uids = [a, b] ∨ uids = [b, a]) := by
  obtain ⟨x, y, rfl⟩ := List.length_eq_two.1 hlength
  have hne : x ≠ y := by simpa using hnodup
  rcases htwo x (by simp) with rfl | rfl
  · rcases htwo y (by simp) with rfl | rfl
    · exact absurd rfl hne
    · exact ⟨hne, Or.inl rfl⟩
  · rcases htwo y (by simp) with rfl | rfl
    · exact ⟨hne.symm, Or.inr rfl⟩
    · exact absurd rfl hne

theorem oneResult_of_two {accts : List UserAcct} {uids : List Uid} (hnodup : uids.Nodup)
    (hlength : uids.length = 2) {winner : Uid} (hwinner : winner ∈ uids) {wins : Uid → Prop}
    [DecidablePred wins] (hwins : ∀ uid, wins uid ↔ winner = uid) (coin : ℚ)
    (hwin : issued .win accts = []) (hlose : issued .lose accts = []) :
    OneResult
    (accts ++ uids.map fun uid => userAcct (if wins uid then .win else .lose) coin uid) := by
  obtain ⟨x, y, rfl⟩ := List.length_eq_two.1 hlength
  have hne : x ≠ y := by simpa using hnodup
  have hwinner' : winner = x ∨ winner = y := by simpa using hwinner
  right
  rcases hwinner' with rfl | rfl
  · refine ⟨winner, y, coin, ?_, ?_⟩
    · rw [issued_append, hwin]
      simp [issued, userAcct, hwins, hne]
    · rw [issued_append, hlose]
      simp [issued, userAcct, hwins, hne]
  · refine ⟨winner, x, coin, ?_, ?_⟩
    · rw [issued_append, hwin]
      simp [issued, userAcct, hwins, hne.symm]
    · rw [issued_append, hlose]
      simp [issued, userAcct, hwins, hne.symm]

theorem issued_results (uids : List Uid) (wins : Uid → Prop) [DecidablePred wins] (coin : ℚ)
    {type : AcctType} (hwin : type ≠ .win) (hlose : type ≠ .lose) :
    issued type (uids.map fun uid => userAcct (if wins uid then .win else .lose) coin uid) =
    [] := by
  rw [issued, List.filterMap_map, List.filterMap_eq_nil_iff]
  intro uid _
  have hne : (if wins uid then AcctType.win else .lose) ≠ type := by
    split_ifs
    · exact hwin.symm
    · exact hlose.symm
  simp [userAcct, hne]

theorem stake_of_entry {entry : Uid × List ℚ} (hmem : entry ∈ room.betData.entries) :
    room.stake entry.1 = entry.2.head? := by
  have hget : room.betData.get entry.1 = some entry.2 := room.betData.get_eq_some_iff.2 hmem
  rw [Room.stake, hget, Option.bind_some]

theorem flatMap_eq_filterMap {entries : List (Uid × List ℚ)} {stake : Uid → Option ℚ}
    (h : ∀ entry ∈ entries, ∃ coin, entry.2 = [coin] ∧ stake entry.1 = some coin) :
    (entries.flatMap fun entry => entry.2.map fun coin => (entry.1, coin)) =
      entries.filterMap fun entry => (stake entry.1).map fun coin => (entry.1, coin) := by
  induction entries with
  | nil => rfl
  | cons entry entries ih =>
      obtain ⟨coin, hcoin, hstake⟩ := h entry List.mem_cons_self
      rw [List.flatMap_cons, List.filterMap_cons, hcoin, hstake,
        ih fun entry' hmem => h entry' (List.mem_cons_of_mem _ hmem)]
      rfl

theorem stakes_eq (hsingle : ∀ entry ∈ room.betData.entries, ∃ coin, entry.2 = [coin]) :
    room.stakes = room.betData.keys.filterMap fun uid => (room.stake uid).map
    fun coin => (uid, coin) := by
  have h : ∀ entry ∈ room.betData.entries, ∃ coin, entry.2 = [coin] ∧ room.stake entry.1 =
      some coin := by
    intro entry hmem
    obtain ⟨coin, hcoin⟩ := hsingle entry hmem
    refine ⟨coin, hcoin, ?_⟩
    rw [stake_of_entry hmem, hcoin, List.head?_cons]
  rw [Room.stakes, flatMap_eq_filterMap h, LuaTable.keys, List.filterMap_map]
  rfl

theorem stake_isSome_iff (hsingle : ∀ entry ∈ room.betData.entries, ∃ coin, entry.2 = [coin])
    (uid : Uid) :
    (room.stake uid).isSome = true ↔ uid ∈ room.betData.keys := by
  rw [LuaTable.mem_keys_iff]
  constructor
  · intro h
    cases hget : room.betData.get uid with
    | none =>
        rw [Room.stake, hget] at h
        exact absurd h (by simp)
    | some bets => exact ⟨bets, rfl⟩
  · rintro ⟨bets, hget⟩
    obtain ⟨coin, hcoin⟩ := hsingle (uid, bets) (room.betData.get_eq_some_iff.1 hget)
    dsimp only at hcoin
    rw [Room.stake, hget, hcoin]
    rfl

/-- Going over the users instead of the bettors finds the same stakes when all bettors are there. -/
theorem stakes_perm_users (hsingle : ∀ entry ∈ room.betData.entries, ∃ coin, entry.2 = [coin])
    (hthere : ∀ uid ∈ room.betData.keys, uid ∈ room.users.keys) :
    (room.users.keys.filterMap fun uid => (room.stake uid).map fun coin => (uid, coin)).Perm
      room.stakes := by
  have hperm : (room.users.keys.filter fun uid => decide (uid ∈ room.betData.keys)).Perm
      room.betData.keys := by
    rw [List.perm_ext_iff_of_nodup (room.users.nodup_keys.filter _) room.betData.nodup_keys]
    intro uid
    rw [List.mem_filter, decide_eq_true_eq]
    exact ⟨And.right, fun h => ⟨hthere uid h, h⟩⟩
  rw [stakes_eq hsingle]
  refine List.Perm.trans ?_ (hperm.filterMap _)
  rw [List.filterMap_filter]
  refine List.Perm.of_eq (List.filterMap_congr fun uid _ => ?_)
  by_cases hmem : uid ∈ room.betData.keys
  · simp [hmem]
  · have hnone : room.stake uid = none := by
      rw [← Option.not_isSome_iff_eq_none, stake_isSome_iff hsingle]
      exact hmem
    simp [hmem, hnone]

end Entries

section Changes

theorem pending_append (tasks tasks' : List Task) :
    pending (tasks ++ tasks') = pending tasks ++ pending tasks' :=
  List.filterMap_append ..

theorem Books.frame (hbooks : Books a b room) {room' : Room} (hbets : room'.betData = room.betData)
    (hplayers : room'.players = room.players)
    (hfreeze : issued .freeze room'.userAccts = issued .freeze room.userAccts)
    (hpending : (pending room'.tasks).Perm (pending room.tasks))
    (husers : ∀ uid ∈ room'.users.keys, uid = a ∨ uid = b)
    (hpunchers : ∀ uid ∈ room'.punchesData.keys, uid = a ∨ uid = b)
    (hwaiting : ∀ uid betValue,
      .asking uid betValue ∈ room'.tasks ∨ .freezing uid betValue ∈ room'.tasks →
      uid = a ∨ uid = b) :
    Books a b room' := by
  refine ⟨husers, ?_, hpunchers, hwaiting, ?_, ?_, ?_, ?_⟩
  · rw [hbets]
    exact hbooks.bettors
  · rw [hplayers, hbets]
    exact hbooks.players
  · rw [hbets]
    exact hbooks.single
  · rw [hfreeze, Room.stakes, hbets]
    exact hbooks.frozen.trans (hpending.symm.append_left _)
  · rw [hbets]
    exact ((hpending.map _).append_left _).nodup_iff.2 hbooks.distinct

theorem StakeInv.neutral (hinv : StakeInv a b room) {room' : Room} (hbooks : Books a b room')
    (hcourse : Course room') (haccts : room'.userAccts = room.userAccts)
    (hpending : pending room.tasks = [] → pending room'.tasks = [])
    (htasks : ∀ task ∈ room'.tasks, task ∈ room.tasks ∨ ∃ uid coin, task = .asking uid coin)
    (hquit : .quitting ∈ room.tasks → .quitting ∈ room'.tasks)
    (hstep : room'.gameStep = room.gameStep ∨
      room.gameStep.ended = false ∧ room'.gameStep.ended = false ∧ room'.gameStep ≠ .none) :
    StakeInv a b room' := by
  refine ⟨hbooks, hcourse, ?_⟩
  rcases hinv.phase with hopen | hclosed
  · left
    refine ⟨?_, ?_, ?_, fun task hmem => ?_, fun hended => ?_, fun hidle => ?_⟩
    · rw [haccts]
      exact hopen.returned
    · rw [haccts]
      exact hopen.win
    · rw [haccts]
      exact hopen.lose
    · exact (htasks task hmem).elim (hopen.tasks task) Or.inl
    · rcases hstep with hsame | ⟨-, hnot, -⟩
      · rw [hsame] at hended ⊢
        rw [haccts]
        exact (hopen.ended hended).imp_right fun ⟨hflow, hnone⟩ => ⟨hflow, hpending hnone⟩
      · rw [hended] at hnot
        exact absurd hnot (by simp)
    · rcases hstep with hsame | ⟨-, -, hne⟩
      · rw [haccts]
        exact hopen.idle (hsame.symm.trans hidle)
      · exact absurd hidle hne
  · right
    refine ⟨hpending hclosed.pending, ?_, ?_, ?_⟩
    · rw [haccts]
      exact hclosed.returned
    · rw [haccts]
      exact hclosed.result
    · rcases hstep with hsame | ⟨hnot, -, hne⟩
      · rw [hsame]
        exact hclosed.locked.imp_right fun ⟨hmem, hne⟩ => ⟨hquit hmem, hne⟩
      · rcases hclosed.locked with hended | ⟨hmem, -⟩
        · rw [hended] at hnot
          exact absurd hnot (by simp)
        · exact Or.inr ⟨hquit hmem, hne⟩

theorem StakeInv.setGameStep (hinv : StakeInv a b room) {gameStep : GameStep} {limitTime : Nat}
    (hold : room.gameStep.ended = false) (hnew : gameStep.ended = false) (hne : gameStep ≠ .none)
    (hcourse : Course (room.setGameStep gameStep limitTime)) :
    StakeInv a b (room.setGameStep gameStep limitTime) := by
  have hbooks := hinv.books
  exact hinv.neutral (hbooks.frame rfl rfl rfl (List.Perm.refl _) hbooks.users hbooks.punchers
    hbooks.waiting) hcourse rfl id (fun _ => Or.inl) id (Or.inr ⟨hold, hnew, hne⟩)

/-- The game is over: everything was settled before, or there was nothing to settle. -/
theorem StakeInv.over (hinv : StakeInv a b room)
    (hend : Open room → issued .freeze room.userAccts = [])
    {tasks : List Task} (htasks : tasks ⊆ room.tasks)
    (hpending : (pending tasks).Perm (pending room.tasks)) (gameTime limitTime : Nat) :
    StakeInv a b { room with gameStep := .gameOver, gameTime, limitTime, tasks } := by
  have hbooks := hinv.books
  refine ⟨hbooks.frame rfl rfl rfl hpending hbooks.users hbooks.punchers
    fun uid coin hmem => hbooks.waiting uid coin (hmem.imp (htasks ·) (htasks ·)), ⟨?_, ?_, ?_⟩, ?_⟩
  · simp
  · simp
  · simp
  · rcases hinv.phase with hopen | hclosed
    · exact Or.inl ⟨hopen.returned, hopen.win, hopen.lose,
        fun task hmem => hopen.tasks task (htasks hmem),
        fun _ => Or.inl ⟨rfl, hend hopen⟩, fun _ => hend hopen⟩
    · have hnone : pending tasks = [] := by
        rw [hclosed.pending] at hpending
        exact hpending.eq_nil
      exact Or.inr ⟨hnone, hclosed.returned, hclosed.result, Or.inl rfl⟩

theorem StakeInv.settle (hinv : StakeInv a b room) (hopen : Open room)
    (hpending : pending room.tasks = []) {room' : Room} {accts : List UserAcct} {task : Task}
    (hbets : room'.betData = room.betData) (hplayers : room'.players = room.players)
    (husers : room'.users = room.users)
    (hpunchers : ∀ uid ∈ room'.punchesData.keys, uid = a ∨ uid = b)
    (hcourse : Course room') (haccts : room'.userAccts = room.userAccts ++ accts)
    (htasks : room'.tasks = room.tasks ++ [task])
    (htask : (∀ uid coin, task ≠ .asking uid coin) ∧ ∀ uid coin, task ≠ .freezing uid coin)
    (hlocked : room'.gameStep.ended = true ∨ task = .quitting ∧ room'.gameStep ≠ .none)
    (hreturned : (issued .giveBack accts).Perm room.stakes) (hfreeze : issued .freeze accts = [])
    (hresult : OneResult (room.userAccts ++ accts)) : StakeInv a b room' := by
  have hnone : pending room'.tasks = [] := by
    rw [htasks, pending_append, hpending, List.nil_append]
    cases task with
    | freezing uid coin => exact absurd rfl (htask.2 uid coin)
    | _ => rfl
  have hfreeze' : issued .freeze room'.userAccts = issued .freeze room.userAccts := by
    rw [haccts, issued_append, hfreeze, List.append_nil]
  have hstakes : (issued .freeze room.userAccts).Perm room.stakes := by
    simpa [hpending] using hinv.books.frozen
  refine ⟨?_, hcourse, Or.inr ⟨hnone, ?_, ?_, ?_⟩⟩
  · refine hinv.books.frame hbets hplayers hfreeze' ?_ ?_ hpunchers ?_
    · rw [hnone, hpending]
    · rw [husers]
      exact hinv.books.users
    · intro uid coin hmem
      apply hinv.books.waiting uid coin
      rw [htasks] at hmem
      simpa [(htask.1 uid coin).symm, (htask.2 uid coin).symm] using hmem
  · rw [hfreeze', haccts, issued_append, hopen.returned, List.nil_append]
    exact hreturned.trans hstakes.symm
  · rw [haccts]
    exact hresult
  · rw [htasks]
    refine hlocked.imp_right fun ⟨hquit, hne⟩ => ⟨?_, hne⟩
    rw [hquit]
    simp

end Changes

end SdyServer.Guessing
