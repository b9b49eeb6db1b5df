import SdyServer.Guessing.Games

/-!
# The punches

A wrong fist is reported and kept, and so is the fist of a visitor without a stake. In the runs in
which the phase, or an earlier punch, keeps those away, and in which no third stake is kept, a game
that its fists settle is settled between the two bettors and by the rule of the game.
-/

namespace SdyServer.Guessing

variable {room : Room}

section Statement

def Fist.valid (fist : Fist) : Bool := fist = fistScissors || fist = fistRock || fist = fistPaper

/-- The rule of the game. -/
def Beats (fist other : Fist) : Prop :=
  fist = fistRock ∧ other = fistScissors ∨ fist = fistScissors ∧ other = fistPaper ∨
    fist = fistPaper ∧ other = fistRock

/-- A punch with a wrong fist, or of a user without a stake. -/
def wrongPunch (room : Room) : Event → Bool
  | .punch uid fist => !fist.valid || (room.betData.get uid).isNone
  | _ => false

def Refused (room : Room) (event : Event) : Prop :=
  wrongPunch room event = true → (step room event).punchesData = room.punchesData

/-- The two bettors have punched, and the winner is the one whose fist beats the other. -/
def Decided (room : Room) : Prop :=
  ∃ winner loser fist other, room.winner = some winner ∧ room.betData.keys.Perm [winner, loser] ∧
    room.punchesData.entries.Perm [(winner, fist), (loser, other)] ∧ Beats fist other

/-- The punch comes at the wrong time, or for the second time, or is no wrong one. -/
def punchKept (room : Room) : Event → Bool
  | .punch uid fist =>
      (room.gameStep ≠ .betEnd && room.gameStep ≠ .punchesStart) ||
        (room.punchesData.get uid).isSome ||
        !wrongPunch room (.punch uid fist)
  | _ => true

/-- No stake of a third user is kept. -/
def twoStakes (room : Room) : Event → Bool
  | .answer index _ reply =>
      match room.tasks[index]? with
      | some (.freezing uid _) =>
          reply ≠ .ok || (room.betData.get uid).isSome || room.betData.size < 2
      | _ => true
  | _ => true

end Statement

section Invariant

structure Fair (room : Room) : Prop where
  players : room.players.keys = room.betData.keys
  two : room.betData.size ≤ 2
  punchers : room.punchesData.keys ⊆ room.betData.keys
  fists : ∀ entry ∈ room.punchesData.entries, entry.2.valid = true
  playing : room.gameStep = .punchesStart ∨ room.gameStep = .punchesEnd ∨ room.gameStep =
    .waitResult →
    room.betData.size = 2
  tie : room.gameStep = .waitResult → room.outcomeStatus = some .tie
  decided : room.gameStep = .result → Decided room

theorem size_eq_of_keys {α β : Type*} {t : LuaTable Uid α} {t' : LuaTable Uid β}
    (hkeys : t.keys = t'.keys) :
    t.size = t'.size := by
  rw [← LuaTable.length_keys, hkeys, LuaTable.length_keys]

/-- The invariant reads the bettors and not their stakes. -/
theorem Fair.frame (hfair : Fair room) {room' : Room}
    (hbets : room'.betData.keys = room.betData.keys)
    (hplayers : room'.players.keys = room.players.keys)
    (hpunches : room'.punchesData = room.punchesData)
    (hwinner : room'.winner = room.winner) (houtcome : room'.outcomeStatus = room.outcomeStatus)
    (hstep : room'.gameStep = room.gameStep ∨ room'.gameStep ≠ .waitResult ∧
      room'.gameStep ≠ .result ∧
      (room'.gameStep = .punchesStart ∨ room'.gameStep = .punchesEnd → room.betData.size = 2)) :
    Fair room' := by
  have hsize : room'.betData.size = room.betData.size := size_eq_of_keys hbets
  refine ⟨?_, ?_, ?_, ?_, fun hplay => ?_, fun hwait => ?_, fun hresult => ?_⟩
  · rw [hplayers, hbets]
    exact hfair.players
  · rw [hsize]
    exact hfair.two
  · rw [hpunches, hbets]
    exact hfair.punchers
  · rw [hpunches]
    exact hfair.fists
  · rw [hsize]
    rcases hstep with hsame | ⟨hwait, -, hpunching⟩
    · rw [hsame] at hplay
      exact hfair.playing hplay
    · rcases hplay with hplay | hplay | hplay
      · exact hpunching (Or.inl hplay)
      · exact hpunching (Or.inr hplay)
      · exact absurd hplay hwait
  · rw [houtcome]
    rcases hstep with hsame | ⟨hnot, -, -⟩
    · exact hfair.tie (hsame ▸ hwait)
    · exact absurd hwait hnot
  · rcases hstep with hsame | ⟨-, hnot, -⟩
    · obtain ⟨winner, loser, fist, other, hwon, hkeys, hentries, hbeats⟩ :=
        hfair.decided (hsame ▸ hresult)
      refine ⟨winner, loser, fist, other, hwinner.trans hwon, ?_, ?_, hbeats⟩
      · rw [hbets]
        exact hkeys
      · rw [hpunches]
        exact hentries
    · exact absurd hresult hnot

theorem Fair.setGameStep (hfair : Fair room) {gameStep : GameStep} {limitTime : Nat}
    (hwait : gameStep ≠ .waitResult) (hresult : gameStep ≠ .result)
    (hplay : gameStep = .punchesStart ∨ gameStep = .punchesEnd → room.betData.size = 2) :
    Fair (room.setGameStep gameStep limitTime) :=
  hfair.frame rfl rfl rfl rfl rfl (Or.inr ⟨hwait, hresult, hplay⟩)

theorem Fair.gameOver (hfair : Fair room) (limitTime : Option Nat) :
    Fair (room.gameOver limitTime) := by
  cases limitTime with
  | none => exact hfair.frame rfl rfl rfl rfl rfl (Or.inr
        ⟨by simp [Room.gameOver], by simp [Room.gameOver],
      by simp [Room.gameOver]⟩)
  | some limitTime => exact hfair.setGameStep (by simp) (by simp) (by simp)

theorem Fair.call (hfair : Fair room) (userAccts : List UserAcct) (task : Task) :
    Fair (room.call userAccts task) :=
  hfair.frame rfl rfl rfl rfl rfl (Or.inl rfl)

end Invariant

section Clients

theorem Fair.keepPunch (hfair : Fair room) {uid : Uid} {fist : Fist}
    (hphase : ¬(room.gameStep ≠ .betEnd ∧ room.gameStep ≠ .punchesStart))
    (hpunched : ¬(room.punchesData.get uid).isSome = true)
    (hkept : punchKept room (.punch uid fist) = true) : Fair (keepPunch room uid fist) := by
  have hright : (room.gameStep ≠ .betEnd ∧ room.gameStep ≠ .punchesStart) ∨
      fist.valid = true ∧ (room.betData.get uid).isSome = true := by
    simpa [punchKept, wrongPunch, Option.not_isSome_iff_eq_none.1 hpunched] using hkept
  obtain ⟨hvalid, hstake⟩ := hright.resolve_left hphase
  have hbettor : uid ∈ room.betData.keys :=
    (LuaTable.mem_keys_iff _).2 (Option.isSome_iff_exists.1 hstake)
  refine ⟨hfair.players, hfair.two, ?_, ?_, hfair.playing, hfair.tie, fun hresult => ?_⟩
  · intro uid' hmem
    rcases (LuaTable.mem_keys_set ..).1 hmem with rfl | hold
    · exact hbettor
    · exact hfair.punchers hold
  · intro entry hmem
    have hnew : uid ∉ room.punchesData.keys := by
      rw [← LuaTable.get_eq_none_iff]
      simpa using hpunched
    have hmem' : entry ∈ (room.punchesData.set uid fist).entries := hmem
    rw [LuaTable.entries_set_of_notMem _ _ hnew] at hmem'
    rcases List.mem_append.1 hmem' with hold | hlast
    · exact hfair.fists entry hold
    · rw [List.mem_singleton.1 hlast]
      exact hvalid
  · have hnot := (not_ended_of_punching hphase).1
    rw [show room.gameStep = .result from hresult] at hnot
    exact absurd hnot (by simp [GameStep.ended])

theorem Fair.punchStored (hfair : Fair room) : Fair (punchStored room) := by
  unfold Guessing.punchStored
  split_ifs with hsize
  · refine hfair.setGameStep (by simp) (by simp) fun _ => ?_
    have hle := LuaTable.size_le_of_keys_subset hfair.punchers
    exact le_antisymm hfair.two (hsize.symm.le.trans hle)
  · exact hfair

theorem Fair.punch (hfair : Fair room) {uid : Uid} {fist : Fist}
    (hkept : punchKept room (.punch uid fist) = true) : Fair (punch room uid fist) := by
  unfold Guessing.punch
  split_ifs with hphase hpunched hformat
  · exact hfair
  · exact hfair
  · exact (hfair.keepPunch hphase hpunched hkept).punchStored
  · exact hfair.keepPunch hphase hpunched hkept

theorem Fair.keepBet (hfair : Fair room) {uid : Uid}
    (htwo : (room.betData.get uid).isSome = true ∨ room.betData.size < 2) (betValue : ℚ) :
    Fair (keepBet room uid betValue) := by
  have hplaced : ∀ bets, Fair { room with betData := room.betData.set uid bets
                                          players := room.players.set uid () } := by
    intro bets
    by_cases hmem : uid ∈ room.betData.keys
    · have hbets : (room.betData.set uid bets).keys = room.betData.keys := by
        rw [LuaTable.keys_set, if_pos hmem]
      have hplayers : (room.players.set uid ()).keys = room.players.keys := by
        rw [LuaTable.keys_set, hfair.players, if_pos hmem]
      exact hfair.frame hbets hplayers rfl rfl rfl (Or.inl rfl)
    · have hone : room.betData.size < 2 := by
        refine htwo.resolve_left fun hstake => hmem ?_
        exact (LuaTable.mem_keys_iff _).2 (Option.isSome_iff_exists.1 hstake)
      have hkeys : (room.betData.set uid bets).keys = room.betData.keys ++ [uid] := by
        rw [LuaTable.keys_set, if_neg hmem]
      have hidle : ¬(room.gameStep = .punchesStart ∨ room.gameStep = .punchesEnd ∨
          room.gameStep = .waitResult) := fun hplay => hone.ne (hfair.playing hplay)
      refine ⟨?_, ?_, ?_, hfair.fists, fun hplay => absurd hplay hidle, hfair.tie,
        fun hresult => ?_⟩
      · show (room.players.set uid ()).keys = (room.betData.set uid bets).keys
        rw [LuaTable.keys_set, hfair.players, if_neg hmem, hkeys]
      · show (room.betData.set uid bets).size ≤ 2
        rw [← LuaTable.length_keys, hkeys, List.length_append, LuaTable.length_keys,
          List.length_singleton]
        omega
      · show room.punchesData.keys ⊆ (room.betData.set uid bets).keys
        rw [hkeys]
        exact fun _ hpunch => List.mem_append_left _ (hfair.punchers hpunch)
      · obtain ⟨winner, loser, _, _, _, hperm, _⟩ := hfair.decided hresult
        have hsize : room.betData.size = 2 := (LuaTable.length_keys _).symm.trans hperm.length_eq
        exact absurd hsize hone.ne
  exact hplaced _

theorem Fair.bettingFrozen (hfair : Fair room) {uid : Uid}
    (htwo : (room.betData.get uid).isSome = true ∨ room.betData.size < 2) (betValue : ℚ) :
    Fair (bettingFrozen room uid betValue) := by
  have hkept := hfair.keepBet htwo betValue
  unfold Guessing.bettingFrozen betStored
  dsimp only
  split_ifs
  · exact hkept.setGameStep (by simp) (by simp) (by simp)
  · exact hkept
  · exact hkept

theorem Fair.bettingAsked (hfair : Fair room) (uid : Uid) (betValue : ℚ) (balAmt : Option ℚ) :
    Fair (bettingAsked room uid betValue balAmt) := by
  unfold Guessing.bettingAsked
  dsimp only
  split_ifs
  · exact hfair
  · exact hfair
  · exact hfair.call _ _

theorem Fair.answer (hfair : Fair room) {index : Nat} {balAmt : Option ℚ} {reply : Answer}
    (htwo : twoStakes room (.answer index balAmt reply) = true) :
    Fair (step room (.answer index balAmt reply)) := by
  dsimp only [Guessing.step]
  cases hget : room.tasks[index]? with
  | none => exact hfair
  | some task =>
      have hanswered : Fair { room with tasks := room.tasks.eraseIdx index } :=
        hfair.frame rfl rfl rfl rfl rfl (Or.inl rfl)
      cases task with
      | asking uid betValue => exact hanswered.bettingAsked uid betValue _
      | freezing uid betValue =>
          dsimp only [goOn]
          split_ifs with hok
          · refine hanswered.bettingFrozen ?_ betValue
            simpa [twoStakes, hget, hok] using htwo
          · exact hanswered
      | resulting =>
          dsimp only [goOn]
          split_ifs
          · exact hanswered.gameOver none
          · exact hanswered
      | flowing =>
          dsimp only [goOn]
          split_ifs
          · exact hanswered.gameOver none
          · exact hanswered
      | quitting =>
          dsimp only [goOn]
          split_ifs
          · exact hanswered.gameOver (some 5)
          · exact hanswered

theorem Fair.quit (hfair : Fair room) (uid : Uid) : Fair (quitGame room uid) := by
  unfold quitGame
  dsimp only
  split_ifs
  · exact hfair.gameOver (some 5)
  · exact hfair.call _ _
  · exact hfair.gameOver (some 5)

end Clients

section Ticks

variable {random : Uid → Fin 3} {reversed : Bool}

theorem getGuessingResult_of_valid (x y : Uid) {f g : Fist} (hf : f.valid = true)
    (hg : g.valid = true) :
    getGuessingResult [(x, f), (y, g)] = (none, some .tie) ∨
      getGuessingResult [(x, f), (y, g)] = (some x, some .someoneWin) ∧ Beats f g ∨
      getGuessingResult [(x, f), (y, g)] = (some y, some .someoneWin) ∧ Beats g f := by
  have hf' : f = fistScissors ∨ f = fistRock ∨ f = fistPaper := by
    simpa [Fist.valid, or_assoc] using hf
  have hg' : g = fistScissors ∨ g = fistRock ∨ g = fistPaper := by
    simpa [Fist.valid, or_assoc] using hg
  rcases hf' with rfl | rfl | rfl <;> rcases hg' with rfl | rfl | rfl <;>
    simp [getGuessingResult, Beats, fistScissors, fistRock, fistPaper]

/-- Once the system has punched, the punches are those of the bettors. -/
theorem Fair.fillPunches (hfair : Fair room) (hstep : room.gameStep ≠ .result)
    (random : Uid → Fin 3) : Fair (fillPunches room random room.players.keys) := by
  refine ⟨hfair.players, hfair.two, fun uid hmem => ?_, fun entry hmem => ?_, hfair.playing,
    hfair.tie, fun hresult => absurd hresult hstep⟩
  · rcases (mem_fillPunches room random _ uid).1 hmem with hplayer | hpunch
    · exact hfair.players ▸ hplayer
    · exact hfair.punchers hpunch
  · have hget := (LuaTable.get_eq_some_iff _).2 hmem
    unfold Guessing.fillPunches at hget
    dsimp only at hget
    rw [LuaTable.get_foldl_set fun uid => Fist.int ((random uid).val + 1)] at hget
    split_ifs at hget with hfilled
    · have hrandom : ∀ fist : Fin 3, (Fist.int (fist.val + 1)).valid = true := by decide
      rw [← Option.some.inj hget]
      exact hrandom (random entry.1)
    · exact hfair.fists entry (LuaTable.get_eq_some_iff _ |>.1 hget)

/-- When all players have punched, the punches are those of the two bettors. -/
theorem Fair.punches (hfair : Fair room) (hsize : room.betData.size = 2)
    (hall : ∀ uid ∈ room.players.keys, uid ∈ room.punchesData.keys) (reversed : Bool) :
    ∃ x y f g, getPunchDataList room reversed = [(x, f), (y, g)] ∧ f.valid = true ∧
      g.valid = true ∧ room.betData.keys.Perm [x, y] ∧
      room.punchesData.entries.Perm [(x, f), (y, g)] := by
  have hperm := (perm_getPunchDataList room reversed).symm
  have hkeys : room.betData.keys.Perm ((getPunchDataList room reversed).map Prod.fst) := by
    have hsame : room.betData.keys.Perm room.punchesData.keys := by
      rw [List.perm_ext_iff_of_nodup room.betData.nodup_keys room.punchesData.nodup_keys]
      intro uid
      exact ⟨fun hmem => hall uid (hfair.players ▸ hmem), fun hmem => hfair.punchers hmem⟩
    exact hsame.trans (hperm.map Prod.fst)
  have hlength : (getPunchDataList room reversed).length = 2 := by
    rw [← List.length_map Prod.fst, ← hkeys.length_eq, LuaTable.length_keys, hsize]
  obtain ⟨⟨x, f⟩, ⟨y, g⟩, hlist⟩ := List.length_eq_two.1 hlength
  rw [hlist] at hperm hkeys
  exact ⟨x, y, f, g, hlist, hfair.fists (x, f) (hperm.mem_iff.2 (by simp)),
    hfair.fists (y, g) (hperm.mem_iff.2 (by simp)), hkeys, hperm⟩

theorem Fair.push (hfair : Fair room) (hsize : room.betData.size = 2)
    (hall : ∀ uid ∈ room.players.keys, uid ∈ room.punchesData.keys) :
    Fair (pushGuessingResult room reversed) := by
  obtain ⟨x, y, f, g, hlist, hf, hg, hkeys, hentries⟩ := hfair.punches hsize hall reversed
  unfold pushGuessingResult
  dsimp only
  rw [hlist]
  split_ifs with hraise hwin
  · exact hfair
  · have hnotTie : (getGuessingResult [(x, f), (y, g)]).2 ≠ some .tie := by
      rw [hwin]
      simp
    unfold gameResult
    dsimp only [Room.waitResult, Room.setGameStep]
    rw [if_neg hnotTie]
    refine ⟨hfair.players, hfair.two, hfair.punchers, hfair.fists, fun _ => hsize,
      by simp [Room.call], fun _ => ?_⟩
    rcases getGuessingResult_of_valid x y hf hg with htie | ⟨hwinner, hbeats⟩ | ⟨hwinner, hbeats⟩
    · exact absurd (congrArg Prod.snd htie) hnotTie
    · exact ⟨x, y, f, g, congrArg Prod.fst hwinner, hkeys, hentries, hbeats⟩
    · exact ⟨y, x, g, f, congrArg Prod.fst hwinner, hkeys.trans (List.Perm.swap y x []),
        hentries.trans (List.Perm.swap (y, g) (x, f) []), hbeats⟩
  · refine ⟨hfair.players, hfair.two, hfair.punchers, hfair.fists, fun _ => hsize, fun _ => ?_,
      by simp [Room.waitResult, Room.setGameStep]⟩
    rcases getGuessingResult_of_valid x y hf hg with htie | ⟨hwinner, -⟩ | ⟨hwinner, -⟩
    · exact congrArg Prod.snd htie
    · exact absurd (congrArg Prod.snd hwinner) hwin
    · exact absurd (congrArg Prod.snd hwinner) hwin

theorem Fair.punchesEnd (hfair : Fair room) (hstep : room.gameStep = .punchesEnd) :
    Fair (punchesEnd room random reversed) := by
  unfold Guessing.punchesEnd
  split_ifs with hnobody
  · exact hfair
  · refine (hfair.fillPunches (by simp [hstep]) random).push (hfair.playing (Or.inr (Or.inl hstep)))
      fun uid hmem => ?_
    exact (mem_fillPunches room random _ uid).2 (Or.inl hmem)

/-- Only a draw waits for its result, and it is played again. -/
theorem Fair.waitResult (hfair : Fair room) (hstep : room.gameStep = .waitResult) :
    Fair (gameResult room) := by
  have hsize : room.betData.size = 2 := hfair.playing (Or.inr (Or.inr hstep))
  unfold gameResult
  dsimp only
  rw [if_pos (hfair.tie hstep)]
  exact ⟨hfair.players, hfair.two, by simp [Room.punchStart, Room.setGameStep],
    by simp [Room.punchStart, Room.setGameStep], fun _ => hsize, by
      simp [Room.punchStart, Room.setGameStep],
    by simp [Room.punchStart, Room.setGameStep]⟩

theorem Fair.flow (hfair : Fair room) : Fair (gameFlowBureau room) := by
  have hflowing : Fair room.flowBureau := hfair.setGameStep (by simp) (by simp) (by simp)
  unfold gameFlowBureau flowReturns
  dsimp only
  split_ifs
  · exact hflowing.gameOver none
  · exact hflowing.call _ _

theorem Fair.stepFun (hfair : Fair room) : Fair (stepFun room random reversed) := by
  unfold Guessing.stepFun
  cases hstep : room.gameStep with
  | betStart =>
      dsimp only
      split_ifs
      · exact hfair
      · exact hfair.setGameStep (by simp) (by simp) (by simp)
  | betEnd =>
      dsimp only
      split_ifs
      · exact hfair
      · unfold beterEnd
        split_ifs with hsize
        · exact hfair.flow
        · exact hfair.setGameStep (by simp) (by simp) fun _ => not_not.1 hsize
  | punchesStart =>
      dsimp only
      split_ifs
      · exact hfair
      · exact hfair.setGameStep (by simp) (by simp) fun _ => hfair.playing (Or.inl hstep)
  | punchesEnd =>
      dsimp only
      split_ifs
      · exact hfair
      · exact hfair.punchesEnd hstep
  | waitResult =>
      dsimp only
      split_ifs
      · exact hfair
      · exact hfair.waitResult hstep
  | none => exact hfair
  | result => exact hfair
  | flow => exact hfair
  | gameOver => exact hfair

theorem Fair.tick (hfair : Fair room) : Fair (run room random reversed) := by
  have hticked : Fair { room with gameTime := room.gameTime + 1 } :=
    hfair.frame rfl rfl rfl rfl rfl (Or.inl rfl)
  unfold run
  dsimp only
  split_ifs
  · exact hticked.stepFun
  · exact hticked

end Ticks

section Runs

theorem Fair.step (hfair : Fair room) {event : Event} (hkept : punchKept room event = true)
    (htwo : twoStakes room event = true) : Fair (step room event) := by
  cases event with
  | login uid memberCount =>
      have hentered : Fair { room with users := room.users.set uid () } :=
        hfair.frame rfl rfl rfl rfl rfl (Or.inl rfl)
      dsimp only [Guessing.step, login, gameStart]
      split_ifs
      · exact hentered.setGameStep (by simp) (by simp) (by simp)
      · exact hentered
  | leave uid => exact hfair.frame rfl rfl rfl rfl rfl (Or.inl rfl)
  | betting uid betValue =>
      dsimp only [Guessing.step, betting]
      split_ifs
      · exact hfair
      · exact hfair
      · exact hfair.frame rfl rfl rfl rfl rfl (Or.inl rfl)
  | punch uid fist => exact hfair.punch hkept
  | quitGame uid => exact hfair.quit uid
  | tick random reversed => exact hfair.tick
  | answer index balAmt reply => exact hfair.answer htwo

theorem punchesData_punch {uid : Uid} {fist : Fist}
    (hphase : ¬(room.gameStep ≠ .betEnd ∧ room.gameStep ≠ .punchesStart))
    (hpunched : ¬(room.punchesData.get uid).isSome = true) :
    (punch room uid fist).punchesData = room.punchesData.set uid fist := by
  unfold punch punchStored
  rw [if_neg hphase, if_neg hpunched]
  dsimp only
  split_ifs
  · rfl
  · rfl
  · rfl

/-- A wrong punch that gets through is kept. -/
theorem refused_iff_punchKept (room : Room) (event : Event) :
    Refused room event ↔ punchKept room event = true := by
  cases event with
  | punch uid fist =>
      by_cases hwrong : wrongPunch room (.punch uid fist) = true
      · have hkept : punchKept room (.punch uid fist) = true ↔
            (room.gameStep ≠ .betEnd ∧ room.gameStep ≠ .punchesStart) ∨
              (room.punchesData.get uid).isSome = true := by
          simp [punchKept, hwrong]
        rw [hkept]
        by_cases hphase : room.gameStep ≠ .betEnd ∧ room.gameStep ≠ .punchesStart
        · refine ⟨fun _ => Or.inl hphase, fun _ _ => ?_⟩
          dsimp only [Guessing.step, punch]
          rw [if_pos hphase]
        by_cases hpunched : (room.punchesData.get uid).isSome = true
        · refine ⟨fun _ => Or.inr hpunched, fun _ _ => ?_⟩
          dsimp only [Guessing.step, punch]
          rw [if_neg hphase, if_pos hpunched]
        · refine ⟨fun hrefused => ?_, fun h => absurd h (not_or.2 ⟨hphase, hpunched⟩)⟩
          have hsame : room.punchesData.set uid fist = room.punchesData :=
            (punchesData_punch hphase hpunched).symm.trans (hrefused hwrong)
          rw [← hsame, LuaTable.get_set_self] at hpunched
          exact absurd rfl hpunched
      · have hright : wrongPunch room (.punch uid fist) = false := by simpa using hwrong
        exact ⟨fun _ => by simp [punchKept, hright], fun _ h => absurd h hwrong⟩
  | _ => exact ⟨fun _ => rfl, fun _ h => absurd h (by simp [wrongPunch])⟩

theorem Fair.start : Fair {} :=
  ⟨rfl, by simp, by simp, by simp, by simp, by simp, by simp⟩

def punched (fist other : Fist) : List Event :=
  [.login 1 1, .login 2 2] ++ bet 1 5 ++ bet 2 8 ++
    [.tick (fun _ => ⟨0, by decide⟩) false, .punch 1 fist, .punch 2 other,
      .tick (fun _ => ⟨0, by decide⟩) false]

end Runs

end SdyServer.Guessing
