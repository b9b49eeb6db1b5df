import SdyServer.Guessing.Stakes

/-!
# Whole games

What the clients, the answers of the account service and the timer do to the stakes, one after
another, and the games that come out of them.
-/

namespace SdyServer.Guessing

variable {a b : Uid} {room : Room}

section Clients

theorem StakeInv.gameStart (hinv : StakeInv a b room) (memberCount : Nat) :
    StakeInv a b (gameStart room memberCount) := by
  unfold Guessing.gameStart
  split_ifs with hstart
  · refine hinv.setGameStep ?_ rfl (by simp) ⟨?_, ?_, ?_⟩
    · rw [hstart.1]
      rfl
    · simp [Room.setGameStep]
    · simp [Room.setGameStep]
    · simp [Room.setGameStep]
  · exact hinv

theorem StakeInv.enter (hinv : StakeInv a b room) {uid : Uid} (huid : uid = a ∨ uid = b) :
    StakeInv a b { room with users := room.users.set uid () } := by
  have hbooks := hinv.books
  have husers : ∀ uid' ∈ (room.users.set uid ()).keys, uid' = a ∨ uid' = b := by
    intro uid' hmem
    rcases (LuaTable.mem_keys_set ..).1 hmem with rfl | hold
    · exact huid
    · exact hbooks.users uid' hold
  exact hinv.neutral
    (hbooks.frame rfl rfl rfl (List.Perm.refl _) husers hbooks.punchers hbooks.waiting)
    ⟨hinv.course.playing, hinv.course.punched, hinv.course.tie⟩ rfl id
      (fun _ => Or.inl) id (Or.inl rfl)

theorem StakeInv.leave (hinv : StakeInv a b room) (uid : Uid) :
    StakeInv a b (postLeave room uid) := by
  have hbooks := hinv.books
  have husers : ∀ uid' ∈ (room.users.erase uid).keys, uid' = a ∨ uid' = b := by
    intro uid' hmem
    obtain ⟨value, hget⟩ := (LuaTable.mem_keys_iff _).1 hmem
    rw [LuaTable.get_erase] at hget
    split_ifs at hget with heq
    exact hbooks.users uid' ((LuaTable.mem_keys_iff _).2 ⟨value, hget⟩)
  exact hinv.neutral
    (hbooks.frame rfl rfl rfl (List.Perm.refl _) husers hbooks.punchers hbooks.waiting)
    ⟨hinv.course.playing, hinv.course.punched, hinv.course.tie⟩ rfl id
      (fun _ => Or.inl) id (Or.inl rfl)

theorem StakeInv.betting (hinv : StakeInv a b room) {uid : Uid} (huid : uid = a ∨ uid = b)
    (betValue : ℚ) : StakeInv a b (betting room uid betValue) := by
  have hbooks := hinv.books
  have hpending : pending (room.tasks ++ [.asking uid betValue]) = pending room.tasks := by
    rw [pending_append]
    exact List.append_nil _
  unfold Guessing.betting
  split_ifs
  · exact hinv
  · exact hinv
  · refine hinv.neutral (hbooks.frame rfl rfl rfl (List.Perm.of_eq hpending) hbooks.users
      hbooks.punchers ?_) ⟨hinv.course.playing, hinv.course.punched, hinv.course.tie⟩ rfl ?_ ?_ ?_
      (Or.inl rfl)
    · intro uid' coin hmem
      rcases hmem with hmem | hmem
      · rcases List.mem_append.1 hmem with hold | hnew
        · exact hbooks.waiting uid' coin (Or.inl hold)
        · cases List.mem_singleton.1 hnew
          exact huid
      · rcases List.mem_append.1 hmem with hold | hnew
        · exact hbooks.waiting uid' coin (Or.inr hold)
        · cases List.mem_singleton.1 hnew
    · exact hpending.trans
    · intro task hmem
      refine (List.mem_append.1 hmem).imp_right fun hnew => ?_
      exact ⟨uid, betValue, List.mem_singleton.1 hnew⟩
    · exact List.mem_append_left _

theorem not_ended_of_punching (hstep : ¬(room.gameStep ≠ .betEnd ∧ room.gameStep ≠ .punchesStart)) :
    room.gameStep.ended = false ∧ room.gameStep ≠ .punchesEnd := by
  by_cases hend : room.gameStep = .betEnd
  · rw [hend]
    exact ⟨rfl, by simp⟩
  · rw [Decidable.not_not.1 fun hstart => hstep ⟨hend, hstart⟩]
    exact ⟨rfl, by simp⟩

theorem StakeInv.keepPunch (hinv : StakeInv a b room) {uid : Uid} (huid : uid = a ∨ uid = b)
    (fist : Fist) (hstep : room.gameStep ≠ .punchesEnd) :
    StakeInv a b (keepPunch room uid fist) := by
  have hbooks := hinv.books
  have hpunchers : ∀ uid' ∈ (room.punchesData.set uid fist).keys, uid' = a ∨ uid' = b := by
    intro uid' hmem
    rcases (LuaTable.mem_keys_set ..).1 hmem with rfl | hold
    · exact huid
    · exact hbooks.punchers uid' hold
  exact hinv.neutral
    (hbooks.frame rfl rfl rfl (List.Perm.refl _) hbooks.users hpunchers hbooks.waiting)
    ⟨hinv.course.playing, fun hend => absurd hend hstep, hinv.course.tie⟩ rfl id
      (fun _ => Or.inl) id
    (Or.inl rfl)

theorem StakeInv.punchStored (hinv : StakeInv a b room)
    (hnot : room.punchesData.size = 2 → room.gameStep.ended = false) :
    StakeInv a b (punchStored room) := by
  unfold Guessing.punchStored
  split_ifs with hsize
  · refine hinv.setGameStep (hnot hsize) rfl (by simp) ⟨?_, fun _ => Or.inr hsize.ge, ?_⟩
    · simp [Room.setGameStep]
    · simp [Room.setGameStep]
  · exact hinv

theorem StakeInv.punch (hinv : StakeInv a b room) {uid : Uid} (huid : uid = a ∨ uid = b)
    (fist : Fist) : StakeInv a b (punch room uid fist) := by
  unfold Guessing.punch
  split_ifs with hstep hpunched hformat
  · exact hinv
  · exact hinv
  · obtain ⟨hnot, hend⟩ := not_ended_of_punching hstep
    exact (hinv.keepPunch huid fist hend).punchStored fun _ => hnot
  · exact hinv.keepPunch huid fist (not_ended_of_punching hstep).2

end Clients

section Answers

theorem perm_of_getElem? {tasks : List Task} {index : Nat} {task : Task}
    (hget : tasks[index]? = some task) :
    tasks.Perm (task :: tasks.eraseIdx index) := by
  obtain ⟨hlt, rfl⟩ := List.getElem?_eq_some_iff.1 hget
  exact (List.getElem_cons_eraseIdx_perm hlt).symm

theorem pending_perm {tasks tasks' : List Task} (hperm : tasks.Perm tasks') :
    (pending tasks).Perm (pending tasks') :=
  hperm.filterMap _

theorem StakeInv.asked (hinv : StakeInv a b room) {index : Nat} {uid : Uid} {betValue : ℚ}
    (hget : room.tasks[index]? = some (.asking uid betValue)) :
    StakeInv a b { room with tasks := room.tasks.eraseIdx index } := by
  have hbooks := hinv.books
  have hperm := perm_of_getElem? hget
  have hpending : (pending (room.tasks.eraseIdx index)).Perm (pending room.tasks) :=
    (pending_perm hperm).symm
  have hsub : room.tasks.eraseIdx index ⊆ room.tasks := List.eraseIdx_subset
  refine hinv.neutral (hbooks.frame rfl rfl rfl hpending hbooks.users hbooks.punchers
    fun uid coin hmem => hbooks.waiting uid coin (hmem.imp (hsub ·) (hsub ·)))
    ⟨hinv.course.playing, hinv.course.punched, hinv.course.tie⟩ rfl ?_
      (fun _ hmem => Or.inl (hsub hmem))
    ?_ (Or.inl rfl)
  · intro hnone
    rw [hnone] at hpending
    exact hpending.eq_nil
  · intro hmem
    simpa using hperm.mem_iff.1 hmem

theorem StakeInv.freeze (hinv : StakeInv a b room) {uid : Uid} {betValue : ℚ}
    (huid : uid = a ∨ uid = b)
    (hstep : room.gameStep = .betStart ∨ room.gameStep = .betEnd)
    (hbet : uid ∉ room.betData.keys) (hpending : uid ∉ (pending room.tasks).map Prod.fst)
    (hquit : .quitting ∉ room.tasks) :
    StakeInv a b (room.call [userAcct .freeze betValue uid] (.freezing uid betValue)) := by
  have hbooks := hinv.books
  have hnot : room.gameStep.ended = false := by
    rcases hstep with h | h <;> rw [h] <;> rfl
  have hnone : room.gameStep ≠ .none := by
    rcases hstep with h | h <;> rw [h] <;> simp
  have hopen : Open room := by
    rcases hinv.phase with hopen | hclosed
    · exact hopen
    · rcases hclosed.locked with h | ⟨h, -⟩
      · rw [hnot] at h
        exact absurd h (by simp)
      · exact absurd h hquit
  have hissued : ∀ type, type ≠ .freeze →
      issued type (room.userAccts ++ [userAcct .freeze betValue uid]) =
          issued type room.userAccts := by
    intro type hne
    rw [issued_append]
    simp [issued, userAcct, hne.symm]
  refine ⟨⟨hbooks.users, hbooks.bettors, hbooks.punchers, ?_, hbooks.players,
    hbooks.single, ?_, ?_⟩,
    ⟨hinv.course.playing, hinv.course.punched, hinv.course.tie⟩,
    Or.inl ⟨?_, ?_, ?_, ?_, fun h => ?_, fun h => ?_⟩⟩
  · intro uid' coin hmem
    rcases hmem with hmem | hmem
    · rcases List.mem_append.1 hmem with hold | hnew
      · exact hbooks.waiting uid' coin (Or.inl hold)
      · cases List.mem_singleton.1 hnew
    · rcases List.mem_append.1 hmem with hold | hnew
      · exact hbooks.waiting uid' coin (Or.inr hold)
      · cases List.mem_singleton.1 hnew
        exact huid
  · show (issued .freeze (room.userAccts ++ _)).Perm (room.stakes ++ pending (room.tasks ++ _))
    rw [issued_append, pending_append, ← List.append_assoc]
    exact hbooks.frozen.append_right _
  · show (room.betData.keys ++ (pending (room.tasks ++ _)).map Prod.fst).Nodup
    rw [pending_append, List.map_append, ← List.append_assoc]
    refine List.Nodup.append hbooks.distinct (List.nodup_singleton _) ?_
    intro uid' hmem hnew
    cases List.mem_singleton.1 hnew
    exact (List.mem_append.1 hmem).elim hbet hpending
  · exact (hissued _ (by simp)).trans hopen.returned
  · exact (hissued _ (by simp)).trans hopen.win
  · exact (hissued _ (by simp)).trans hopen.lose
  · intro task hmem
    rcases List.mem_append.1 hmem with hold | hnew
    · exact hopen.tasks task hold
    · exact Or.inr ⟨uid, betValue, List.mem_singleton.1 hnew⟩
  · rw [show room.gameStep.ended = true from h] at hnot
    exact absurd hnot (by simp)
  · exact absurd h hnone

theorem mem_keys_of_size {α : Type*} {t : LuaTable Uid α} (htwo : ∀ uid ∈ t.keys, uid = a ∨ uid = b)
    (hsize : 2 ≤ t.size) {uid : Uid} (huid : uid = a ∨ uid = b) : uid ∈ t.keys := by
  have hlength : t.keys.length = 2 :=
    le_antisymm (length_le_two t.nodup_keys htwo) ((LuaTable.length_keys t).symm ▸ hsize)
  obtain ⟨-, hkeys | hkeys⟩ := eq_pair_of_nodup t.nodup_keys hlength htwo
  · rw [hkeys]
    simpa using huid
  · rw [hkeys]
    simpa using huid.symm

/-- Once the coins are frozen the bet is kept, in a game that is not over. -/
theorem StakeInv.place (hinv : StakeInv a b room) {index : Nat} {uid : Uid} {betValue : ℚ}
    (hget : room.tasks[index]? = some (.freezing uid betValue)) :
    room.gameStep.ended = false ∧
      StakeInv a b (keepBet { room with tasks := room.tasks.eraseIdx index } uid betValue) := by
  have hbooks := hinv.books
  have hperm := perm_of_getElem? hget
  have hpending :
      (pending room.tasks).Perm ((uid, betValue) :: pending (room.tasks.eraseIdx index)) :=
    pending_perm hperm
  have hmem : (uid, betValue) ∈ pending room.tasks := hpending.mem_iff.2 List.mem_cons_self
  have hsub : room.tasks.eraseIdx index ⊆ room.tasks := List.eraseIdx_subset
  have huid : uid = a ∨ uid = b :=
    hbooks.waiting uid betValue (Or.inr (hperm.mem_iff.2 List.mem_cons_self))
  have hnew : uid ∉ room.betData.keys := by
    intro hold
    exact (List.nodup_append.1 hbooks.distinct).2.2 uid hold uid (List.mem_map_of_mem hmem) rfl
  have hfrozen : issued .freeze room.userAccts ≠ [] := by
    intro hnil
    have h := hbooks.frozen
    rw [hnil] at h
    have hnil' := h.nil_eq
    rw [eq_comm, List.append_eq_nil_iff] at hnil'
    rw [hnil'.2] at hmem
    exact absurd hmem List.not_mem_nil
  have hopen : Open room := by
    rcases hinv.phase with hopen | hclosed
    · exact hopen
    · rw [hclosed.pending] at hmem
      exact absurd hmem List.not_mem_nil
  have hnot : room.gameStep.ended = false := by
    rw [← Bool.not_eq_true]
    intro h
    rcases hopen.ended h with ⟨-, hnone⟩ | ⟨-, hnone⟩
    · exact hfrozen hnone
    · rw [hnone] at hmem
      exact absurd hmem List.not_mem_nil
  have hsize : room.betData.size ≠ 2 := fun h => hnew (mem_keys_of_size hbooks.bettors h.ge huid)
  have hbets : (room.betData.get uid).getD [] ++ [betValue] = [betValue] := by
    rw [(LuaTable.get_eq_none_iff _).2 hnew]
    rfl
  have hentries : (room.betData.set uid [betValue]).entries = room.betData.entries ++
      [(uid, [betValue])] :=
    room.betData.entries_set_of_notMem _ hnew
  have hkeys : (room.betData.set uid [betValue]).keys = room.betData.keys ++ [uid] := by
    rw [LuaTable.keys_set, if_neg hnew]
  have hkept : StakeInv a b { room with tasks := room.tasks.eraseIdx index
                                        betData := room.betData.set uid [betValue]
                                        players := room.players.set uid () } := by
    refine ⟨⟨hbooks.users, ?_, hbooks.punchers, ?_, ?_, ?_, ?_, ?_⟩, ⟨?_, ?_, hinv.course.tie⟩,
      Or.inl ⟨hopen.returned, hopen.win, hopen.lose, fun task h => hopen.tasks task (hsub h),
        fun h => absurd h (by simp [hnot]), hopen.idle⟩⟩
    · intro uid' h
      rcases (LuaTable.mem_keys_set ..).1 h with rfl | hold
      · exact huid
      · exact hbooks.bettors uid' hold
    · exact fun uid' coin h => hbooks.waiting uid' coin (h.imp (hsub ·) (hsub ·))
    · show (room.players.set uid ()).keys = (room.betData.set uid [betValue]).keys
      rw [LuaTable.keys_set, hbooks.players, if_neg hnew, hkeys]
    · intro entry h
      rw [hentries] at h
      rcases List.mem_append.1 h with hold | hlast
      · exact hbooks.single entry hold
      · rw [List.mem_singleton.1 hlast]
        exact ⟨betValue, rfl⟩
    · show (issued .freeze room.userAccts).Perm
        ((room.betData.set uid [betValue]).entries.flatMap _ ++ pending (room.tasks.eraseIdx index))
      rw [hentries, List.flatMap_append, List.append_assoc]
      exact hbooks.frozen.trans (hpending.append_left _)
    · show ((room.betData.set uid [betValue]).keys ++
        (pending (room.tasks.eraseIdx index)).map Prod.fst).Nodup
      rw [hkeys, List.append_assoc]
      exact ((hpending.map Prod.fst).append_left _).nodup_iff.1 hbooks.distinct
    · exact fun h => absurd (hinv.course.playing h) hsize
    · exact fun h => Or.inr ((hinv.course.punched h).resolve_left hsize)
  refine ⟨hnot, ?_⟩
  unfold keepBet
  dsimp only
  rw [hbets]
  exact hkept

theorem StakeInv.betStored (hinv : StakeInv a b room)
    (hnot : room.betData.size = 2 → room.gameStep.ended = false) :
    StakeInv a b (betStored room) := by
  unfold Guessing.betStored
  split_ifs with hsize
  · refine hinv.setGameStep (hnot hsize) rfl (by simp) ⟨?_, ?_, ?_⟩
    · simp [Room.setGameStep]
    · simp [Room.setGameStep]
    · simp [Room.setGameStep]
  · exact hinv

theorem StakeInv.accepted (hinv : StakeInv a b room) {index : Nat} {task : Task}
    (hget : room.tasks[index]? = some task)
    (htask : (∀ uid coin, task ≠ .asking uid coin) ∧ ∀ uid coin, task ≠ .freezing uid coin)
    (limitTime : Option Nat) :
    StakeInv a b ({ room with tasks := room.tasks.eraseIdx index }.gameOver limitTime) := by
  have hperm := perm_of_getElem? hget
  have hmem : task ∈ room.tasks := hperm.mem_iff.2 List.mem_cons_self
  have hsub : room.tasks.eraseIdx index ⊆ room.tasks := List.eraseIdx_subset
  have hnot : ¬Open room := by
    intro hopen
    rcases hopen.tasks task hmem with ⟨uid, coin, h⟩ | ⟨uid, coin, h⟩
    · exact htask.1 uid coin h
    · exact htask.2 uid coin h
  have hpending : (pending (room.tasks.eraseIdx index)).Perm (pending room.tasks) := by
    have h := pending_perm hperm
    cases task with
    | freezing uid coin => exact absurd rfl (htask.2 uid coin)
    | _ => exact h.symm
  cases limitTime with
  | none => exact hinv.over (absurd · hnot) hsub hpending _ _
  | some limitTime => exact hinv.over (absurd · hnot) hsub hpending _ _

theorem StakeInv.answer (hinv : StakeInv a b room) {index : Nat} {balAmt : Option ℚ}
    (hclean : clean room (.answer index balAmt .ok) = true) :
    StakeInv a b (step room (.answer index balAmt .ok)) := by
  dsimp only [Guessing.step]
  cases hget : room.tasks[index]? with
  | none => exact hinv
  | some task =>
      cases task with
      | asking uid betValue =>
          have hasked := hinv.asked hget
          have hperm := perm_of_getElem? hget
          dsimp only [goOn, bettingAsked]
          rw [if_pos rfl]
          split_ifs with hmin hmax
          · exact hasked
          · exact hasked
          · have hok : ((room.gameStep = .betStart ∨ room.gameStep = .betEnd) ∧
                room.betData.get uid = none) ∧ uid ∉ (pending room.tasks).map Prod.fst ∧
                .quitting ∉ room.tasks := by
              simpa [clean, hget, hmin, hmax, and_assoc] using hclean
            obtain ⟨⟨hstep, hbet⟩, hpending, hquit⟩ := hok
            have huid :=
              hinv.books.waiting uid betValue (Or.inl (hperm.mem_iff.2 List.mem_cons_self))
            refine hasked.freeze huid hstep ((LuaTable.get_eq_none_iff _).1 hbet) ?_ ?_
            · exact fun h => hpending (((pending_perm hperm).map Prod.fst).mem_iff.2 h)
            · exact fun h => hquit (hperm.mem_iff.2 (List.mem_cons_of_mem _ h))
      | freezing uid betValue =>
          obtain ⟨hnot, hkept⟩ := hinv.place hget
          dsimp only [goOn, bettingFrozen]
          rw [if_pos rfl]
          split_ifs
          · exact hkept.betStored fun _ => hnot
          · exact hkept
      | resulting => exact hinv.accepted hget (by simp) none
      | flowing => exact hinv.accepted hget (by simp) none
      | quitting => exact hinv.accepted hget (by simp) (some 5)

end Answers

section Quitting

theorem StakeInv.open_of_inPlay (hinv : StakeInv a b room) (hplay : room.inPlay = true)
    (hflow : room.gameStep ≠ .flow) (hquit : .quitting ∉ room.tasks) : Open room := by
  rcases hinv.phase with hopen | hclosed
  · exact hopen
  · rcases hclosed.locked with hended | ⟨hmem, -⟩
    · unfold Room.inPlay at hplay
      cases hstep : room.gameStep <;> simp_all [GameStep.ended]
    · exact absurd hmem hquit

theorem issued_quitResults (uid : Uid) {type : AcctType} (hwin : type ≠ .win)
    (hlose : type ≠ .lose) :
    issued type (quitResults room uid) = [] := by
  unfold quitResults
  cases room.other uid with
  | none => rfl
  | some winner =>
      dsimp only
      split_ifs
      · exact issued_results _ _ _ hwin hlose
      · rfl

theorem oneResult_quit (hbooks : Books a b room) {accts : List UserAcct}
    (hwin : issued .win accts = [])
    (hlose : issued .lose accts = []) (uid : Uid) : OneResult (accts ++ quitResults room uid) := by
  unfold quitResults
  cases hother : room.other uid with
  | none =>
      dsimp only
      rw [List.append_nil]
      exact Or.inl ⟨hwin, hlose⟩
  | some winner =>
      dsimp only
      split_ifs with hcoin
      · have hwinner := List.mem_of_getLast? hother
        rw [List.mem_filter, decide_eq_true_eq] at hwinner
        have hthere : uid ∈ room.users.keys := by
          by_contra hnot
          rw [Room.quitCoin, if_neg hnot] at hcoin
          exact lt_irrefl _ hcoin
        have hlength : room.users.keys.length = 2 := by
          have hpair : [winner, uid].Nodup := by simpa using hwinner.2
          have hle : [winner, uid].length ≤ room.users.keys.length :=
            (List.subperm_of_subset hpair (by simp [hwinner.1, hthere])).length_le
          exact le_antisymm (length_le_two room.users.nodup_keys hbooks.users) hle
        exact oneResult_of_two room.users.nodup_keys hlength hwinner.1
          (fun _ => Iff.rfl) _ hwin hlose
      · rw [List.append_nil]
        exact Or.inl ⟨hwin, hlose⟩

theorem StakeInv.quit (hinv : StakeInv a b room) {uid : Uid}
    (hclean : clean room (.quitGame uid) = true) :
    StakeInv a b (quitGame room uid) := by
  have hbooks := hinv.books
  unfold quitGame
  split_ifs with hplay
  · have hok : (pending room.tasks = [] ∧ .quitting ∉ room.tasks) ∧ room.gameStep ≠ .flow ∧
        ∀ uid ∈ room.betData.keys, (room.users.get uid).isSome = true := by
      simpa [clean, hplay, and_assoc] using hclean
    obtain ⟨⟨hpending, hquit⟩, hflow, hthere⟩ := hok
    have hopen := hinv.open_of_inPlay hplay hflow hquit
    have hthere' : ∀ uid ∈ room.betData.keys, uid ∈ room.users.keys := by
      intro uid hmem
      obtain ⟨value, hget⟩ := Option.isSome_iff_exists.1 (hthere uid hmem)
      exact (LuaTable.mem_keys_iff _).2 ⟨value, hget⟩
    have hreturns : ∀ type, issued type (quitReturns room) =
        if .giveBack = type then
          room.users.keys.filterMap fun uid => (room.stake uid).map fun coin => (uid, coin)
        else [] :=
      fun type => issued_filterMap type .giveBack room.users.keys room.stake
    have hgiven : (issued .giveBack (quitReturns room ++ quitResults room uid)).Perm
        room.stakes := by
      rw [issued_append, issued_quitResults uid (by simp) (by simp), List.append_nil,
        hreturns, if_pos rfl]
      exact stakes_perm_users hbooks.single hthere'
    dsimp only
    split_ifs with hnone
    · refine hinv.over (fun _ => ?_) (List.Subset.refl _) (List.Perm.refl _) 0 5
      rw [hnone] at hgiven
      have hstakes : room.stakes = [] := hgiven.symm.eq_nil
      have hfrozen := hbooks.frozen
      rw [hstakes, hpending] at hfrozen
      exact hfrozen.eq_nil
    · refine hinv.settle hopen hpending rfl rfl rfl hbooks.punchers
        ⟨hinv.course.playing, hinv.course.punched, hinv.course.tie⟩ rfl rfl (by simp)
        (Or.inr ⟨rfl, ?_⟩) hgiven ?_ ?_
      · unfold Room.inPlay at hplay
        exact (of_decide_eq_true hplay).1
      · rw [issued_append, hreturns, issued_quitResults uid (by simp) (by simp)]
        rfl
      · rw [← List.append_assoc]
        refine oneResult_quit hbooks ?_ ?_ uid
        · rw [issued_append, hopen.win, hreturns]
          rfl
        · rw [issued_append, hopen.lose, hreturns]
          rfl
  · refine hinv.over (fun hopen => ?_) (List.Subset.refl _) (List.Perm.refl _) 0 5
    unfold Room.inPlay at hplay
    by_cases hidle : room.gameStep = .none
    · exact hopen.idle hidle
    · have hended : room.gameStep = .result ∨ room.gameStep = .gameOver := by
        simpa [hidle, or_iff_not_imp_left] using hplay
      rcases hopen.ended (by rcases hended with h | h <;> rw [h] <;> rfl) with ⟨-, hnone⟩
        | ⟨hflow, -⟩
      · exact hnone
      · rw [hflow] at hended
        simp at hended

end Quitting

section Ticks

variable {random : Uid → Fin 3} {reversed : Bool}

/-- A flow begins with nothing given back. -/
theorem StakeInv.flowBureau (hinv : StakeInv a b room) (hopen : Open room)
    (hpending : pending room.tasks = []) :
    StakeInv a b room.flowBureau ∧ Open room.flowBureau := by
  have hbooks := hinv.books
  have hflowing : Open room.flowBureau :=
    ⟨hopen.returned, hopen.win, hopen.lose, hopen.tasks, fun _ => Or.inr ⟨rfl, hpending⟩,
      by simp [Room.flowBureau, Room.setGameStep]⟩
  refine ⟨⟨hbooks.frame rfl rfl rfl (List.Perm.refl _) hbooks.users hbooks.punchers hbooks.waiting,
    ⟨?_, ?_, ?_⟩, Or.inl hflowing⟩, hflowing⟩
  · simp [Room.flowBureau, Room.setGameStep]
  · simp [Room.flowBureau, Room.setGameStep]
  · simp [Room.flowBureau, Room.setGameStep]

theorem StakeInv.flowReturns (hinv : StakeInv a b room) (hopen : Open room)
    (hpending : pending room.tasks = []) (hstep : room.gameStep = .flow) :
    StakeInv a b (flowReturns room) := by
  have hbooks := hinv.books
  have hreturns : (room.betData.entries.filterMap fun entry =>
      entry.2.head?.map fun coin => userAcct .giveBack coin entry.1) =
      room.betData.keys.filterMap fun uid =>
        (room.stake uid).map fun coin => userAcct .giveBack coin uid := by
    rw [LuaTable.keys, List.filterMap_map]
    refine List.filterMap_congr fun entry hmem => ?_
    rw [Function.comp_apply, stake_of_entry hmem]
  have hissued : ∀ type, issued type (room.betData.entries.filterMap fun entry =>
      entry.2.head?.map fun coin => userAcct .giveBack coin entry.1) =
      if .giveBack = type then room.stakes else [] := by
    intro type
    rw [hreturns, stakes_eq hbooks.single]
    exact issued_filterMap type .giveBack room.betData.keys room.stake
  have hgiven := hissued .giveBack
  rw [if_pos rfl] at hgiven
  unfold Guessing.flowReturns
  dsimp only
  split_ifs with hnone
  · refine hinv.over (fun _ => ?_) (List.Subset.refl _) (List.Perm.refl _) _ _
    have hstakes : room.stakes = [] := by
      rw [← hgiven]
      exact congrArg (issued .giveBack) hnone
    have hfrozen := hbooks.frozen
    rw [hstakes, hpending] at hfrozen
    exact hfrozen.eq_nil
  · refine hinv.settle hopen hpending rfl rfl rfl hbooks.punchers ⟨?_, ?_, ?_⟩ rfl rfl (by simp)
      (Or.inl ?_) (List.Perm.of_eq hgiven) (hissued .freeze) (Or.inl ⟨?_, ?_⟩)
    · simp [Room.call, hstep]
    · simp [Room.call, hstep]
    · simp [Room.call, hstep]
    · simp [Room.call, hstep, GameStep.ended]
    · rw [issued_append, hopen.win]
      exact hissued .win
    · rw [issued_append, hopen.lose]
      exact hissued .lose

theorem getGuessingResult_cases {punches : List (Uid × Fist)} (hlength : 2 ≤ punches.length) :
    getGuessingResult punches = (none, some .tie) ∨
      ∃ winner ∈ punches.map Prod.fst, getGuessingResult punches =
      (some winner, some .someoneWin) := by
  match punches with
  | [] => simp at hlength
  | [_] => simp at hlength
  | luser :: ruser :: rest =>
      dsimp only [getGuessingResult]
      split_ifs
      · exact Or.inr ⟨ruser.1, by simp, rfl⟩
      · exact Or.inl rfl
      · exact Or.inr ⟨luser.1, by simp, rfl⟩

theorem StakeInv.flow (hinv : StakeInv a b room) (hopen : Open room)
    (hpending : pending room.tasks = []) : StakeInv a b (gameFlowBureau room) := by
  obtain ⟨hflowing, hopen'⟩ := hinv.flowBureau hopen hpending
  exact hflowing.flowReturns hopen' hpending rfl

theorem mem_fillPunches (room : Room) (random : Uid → Fin 3) (uids : List Uid) (uid : Uid) :
    uid ∈ (fillPunches room random uids).punchesData.keys ↔
      uid ∈ uids ∨ uid ∈ room.punchesData.keys := by
  unfold fillPunches
  dsimp only
  rw [LuaTable.mem_keys_foldl_set fun uid => Fist.int ((random uid).val + 1), List.mem_filter,
    Option.isNone_iff_eq_none, LuaTable.get_eq_none_iff]
  tauto

theorem perm_getPunchDataList (room : Room) (reversed : Bool) :
    (getPunchDataList room reversed).Perm room.punchesData.entries := by
  unfold getPunchDataList
  split_ifs
  · exact List.reverse_perm _
  · exact List.Perm.refl _

theorem length_getPunchDataList :
    (getPunchDataList room reversed).length = room.punchesData.size :=
  (perm_getPunchDataList room reversed).length_eq

theorem players_of_not_raised {punches : List (Uid × Fist)}
    (hnot : ¬(punches.any fun punch => (room.players.get punch.1).isNone) = true) :
    ∀ punch ∈ punches, punch.1 ∈ room.players.keys := by
  intro punch hmem
  by_contra hnone
  refine hnot (List.any_eq_true.2 ⟨punch, hmem, ?_⟩)
  rw [(LuaTable.get_eq_none_iff _).2 hnone]
  rfl

theorem Books.two_le_punches (hbooks : Books a b room)
    (hall : ∀ uid ∈ room.players.keys, uid ∈ room.punchesData.keys)
    (hsize : room.betData.size = 2) :
    2 ≤ (getPunchDataList room reversed).length := by
  rw [length_getPunchDataList, ← hsize]
  refine LuaTable.size_le_of_keys_subset fun uid hmem => hall uid ?_
  rw [hbooks.players]
  exact hmem

theorem Books.size_of_punches (hbooks : Books a b room)
    (hpunched : room.betData.size = 2 ∨ 2 ≤ room.punchesData.size)
    (hplayers : ∀ punch ∈ getPunchDataList room reversed, punch.1 ∈ room.players.keys) :
    room.betData.size = 2 := by
  rcases hpunched with hsize | hpunches
  · exact hsize
  · have hsub : room.punchesData.keys ⊆ room.betData.keys := by
      intro uid hmem
      obtain ⟨punch, hpunch, rfl⟩ := List.mem_map.1 hmem
      rw [← hbooks.players]
      exact hplayers punch ((perm_getPunchDataList room reversed).mem_iff.2 hpunch)
    have hge := LuaTable.size_le_of_keys_subset hsub
    have hle := length_le_two room.betData.nodup_keys hbooks.bettors
    rw [LuaTable.length_keys] at hle
    exact le_antisymm hle (hpunches.trans hge)

theorem StakeInv.result (hinv : StakeInv a b room) (hopen : Open room)
    (hpending : pending room.tasks = []) (hsize : room.betData.size = 2) {winner : Uid}
    (hwinner : winner ∈ room.players.keys) {gameTime limitTime : Nat} :
    StakeInv a b (gameResult { room with winner := some winner, outcomeStatus := some .someoneWin,
                                         gameStep := .waitResult, gameTime, limitTime }) := by
  have hbooks := hinv.books
  have hkeys := hbooks.players
  have hreturns : ∀ type, issued type (room.players.keys.filterMap fun uid =>
      (room.stake uid).map fun coin => userAcct .giveBack coin uid) =
      if .giveBack = type then room.stakes else [] := by
    intro type
    rw [hkeys, stakes_eq hbooks.single]
    exact issued_filterMap type .giveBack room.betData.keys room.stake
  unfold gameResult
  dsimp only
  rw [if_neg (by simp)]
  refine hinv.settle hopen hpending rfl rfl rfl hbooks.punchers ⟨?_, ?_, ?_⟩ rfl rfl (by simp)
    (Or.inl rfl) ?_ ?_ ?_
  · simp [Room.call]
  · simp [Room.call]
  · simp [Room.call]
  · rw [issued_append, issued_results _ _ _ (by simp) (by simp), List.append_nil]
    exact List.Perm.of_eq ((hreturns .giveBack).trans (if_pos rfl))
  · rw [issued_append, issued_results _ _ _ (by simp) (by simp), List.append_nil]
    exact hreturns .freeze
  · rw [← List.append_assoc]
    have hwin : issued .win (room.userAccts ++ room.players.keys.filterMap fun uid =>
        (room.stake uid).map fun coin => userAcct .giveBack coin uid) = [] := by
      rw [issued_append, hopen.win]
      exact hreturns .win
    have hlose : issued .lose (room.userAccts ++ room.players.keys.filterMap fun uid =>
        (room.stake uid).map fun coin => userAcct .giveBack coin uid) = [] := by
      rw [issued_append, hopen.lose]
      exact hreturns .lose
    have hlength : room.players.keys.length = 2 := by
      rw [hkeys, LuaTable.length_keys, hsize]
    exact oneResult_of_two room.players.nodup_keys hlength hwinner
      (fun uid => Option.some_inj) _ hwin hlose

/-- The punches of all players say who has won. -/
theorem StakeInv.push (hinv : StakeInv a b room) (hstep : room.gameStep.ended = false)
    (hpunched : room.betData.size = 2 ∨ 2 ≤ room.punchesData.size)
    (hall : ∀ uid ∈ room.players.keys, uid ∈ room.punchesData.keys)
    (hclean : room.betData.size = 2 →
      (getGuessingResult (getPunchDataList room reversed)).2 = some .someoneWin →
        pending room.tasks = [] ∧ .quitting ∉ room.tasks) :
    StakeInv a b (pushGuessingResult room reversed) := by
  have hbooks := hinv.books
  unfold pushGuessingResult
  dsimp only
  split_ifs with hraise hwin
  · exact hinv
  · have hplayers := players_of_not_raised hraise
    have hsize := hbooks.size_of_punches hpunched hplayers
    obtain ⟨hpending, hquit⟩ := hclean hsize hwin
    have hopen : Open room := by
      refine hinv.phase.resolve_right fun hclosed => ?_
      rcases hclosed.locked with hended | ⟨hmem, -⟩
      · rw [hstep] at hended
        exact absurd hended (by simp)
      · exact hquit hmem
    rcases getGuessingResult_cases (hbooks.two_le_punches hall hsize) with htie
      | ⟨winner, hmem, hresult⟩
    · rw [htie] at hwin
      exact absurd hwin (by simp)
    · obtain ⟨punch, hpunch, rfl⟩ := List.mem_map.1 hmem
      rw [hresult]
      exact hinv.result hopen hpending hsize (hplayers punch hpunch)
  · have hplayers := players_of_not_raised hraise
    have hsize := hbooks.size_of_punches hpunched hplayers
    rcases getGuessingResult_cases (hbooks.two_le_punches hall hsize) with htie
      | ⟨winner, -, hresult⟩
    · exact hinv.neutral
        (hbooks.frame rfl rfl rfl (List.Perm.refl _) hbooks.users hbooks.punchers hbooks.waiting)
        ⟨fun _ => hsize, by simp [Room.waitResult,
          Room.setGameStep], fun _ => congrArg Prod.snd htie⟩
        rfl id (fun _ => Or.inl) id
        (Or.inr ⟨hstep, rfl, by simp [Room.waitResult, Room.setGameStep]⟩)
    · rw [hresult] at hwin
      exact absurd rfl hwin

theorem StakeInv.fillPunches (hinv : StakeInv a b room) {uids : List Uid}
    (huids : ∀ uid ∈ uids, uid = a ∨ uid = b) : StakeInv a b (fillPunches room random uids) := by
  have hbooks := hinv.books
  refine hinv.neutral
    (hbooks.frame rfl rfl rfl (List.Perm.refl _) hbooks.users (fun uid hmem => ?_) hbooks.waiting)
    ⟨hinv.course.playing, fun hend => ?_, hinv.course.tie⟩ rfl id (fun _ => Or.inl) id (Or.inl rfl)
  · exact ((mem_fillPunches room random uids uid).1 hmem).elim (huids uid) (hbooks.punchers uid)
  · refine (hinv.course.punched hend).imp_right fun hsize => hsize.trans ?_
    exact LuaTable.size_le_of_keys_subset
      fun uid h => (mem_fillPunches room random uids uid).2 (Or.inr h)

theorem StakeInv.punchesEnd (hinv : StakeInv a b room) (hstep : room.gameStep = .punchesEnd)
    (hclean : closes room random reversed = true → pending room.tasks = [] ∧
      .quitting ∉ room.tasks) :
    StakeInv a b (punchesEnd room random reversed) := by
  have hbooks := hinv.books
  unfold Guessing.punchesEnd
  split_ifs with hnobody
  · exact hinv
  · have hfilled : StakeInv a b (Guessing.fillPunches room random room.players.keys) :=
      hinv.fillPunches fun uid hmem => hbooks.bettors uid (hbooks.players ▸ hmem)
    refine hfilled.push ?_ (hfilled.course.punched hstep) ?_ fun hsize hwin => ?_
    · show room.gameStep.ended = false
      rw [hstep]
      rfl
    · exact fun uid hmem => (mem_fillPunches room random _ uid).2 (Or.inl hmem)
    · exact hclean (by simpa [closes, hstep] using ⟨hsize, hwin⟩)

theorem StakeInv.waitResult (hinv : StakeInv a b room) (hstep : room.gameStep = .waitResult) :
    StakeInv a b (gameResult room) := by
  have hbooks := hinv.books
  have hcleared : StakeInv a b { room with punchesData := ∅ } := by
    refine hinv.neutral (hbooks.frame rfl rfl rfl (List.Perm.refl _) hbooks.users ?_ hbooks.waiting)
      ⟨hinv.course.playing, fun h => ?_, hinv.course.tie⟩ rfl id (fun _ => Or.inl) id (Or.inl rfl)
    · simp
    · rw [show room.gameStep = .punchesEnd from h] at hstep
      exact absurd hstep (by simp)
  unfold gameResult
  dsimp only
  rw [if_pos (hinv.course.tie hstep)]
  refine hcleared.setGameStep ?_ rfl (by simp)
    ⟨fun _ => hinv.course.playing (Or.inr hstep), ?_, ?_⟩
  · show room.gameStep.ended = false
    rw [hstep]
    rfl
  · simp [Room.setGameStep]
  · simp [Room.setGameStep]

theorem StakeInv.stepFun (hinv : StakeInv a b room)
    (hclean : closes room random reversed = true → pending room.tasks = [] ∧
      .quitting ∉ room.tasks) :
    StakeInv a b (stepFun room random reversed) := by
  unfold Guessing.stepFun
  cases hstep : room.gameStep with
  | betStart =>
      dsimp only
      split_ifs
      · exact hinv
      · refine hinv.setGameStep (by rw [hstep]; rfl) rfl (by simp) ⟨?_, ?_, ?_⟩
        · simp [Room.setGameStep]
        · simp [Room.setGameStep]
        · simp [Room.setGameStep]
  | betEnd =>
      dsimp only
      split_ifs
      · exact hinv
      · unfold beterEnd
        split_ifs with hsize
        · obtain ⟨hpending, hquit⟩ := hclean (by simp [closes, hstep, hsize])
          refine hinv.flow (hinv.open_of_inPlay ?_ ?_ hquit) hpending
          · simp [Room.inPlay, hstep]
          · simp [hstep]
        · refine hinv.setGameStep
            (by rw [hstep]; rfl) rfl (by simp) ⟨fun _ => not_not.1 hsize, ?_, ?_⟩
          · simp [Room.setGameStep]
          · simp [Room.setGameStep]
  | punchesStart =>
      dsimp only
      split_ifs
      · exact hinv
      · refine hinv.setGameStep (by rw [hstep]; rfl) rfl (by simp)
          ⟨?_, fun _ => Or.inl (hinv.course.playing (Or.inl hstep)), ?_⟩
        · simp [Room.setGameStep]
        · simp [Room.setGameStep]
  | punchesEnd =>
      dsimp only
      split_ifs
      · exact hinv
      · exact hinv.punchesEnd hstep hclean
  | waitResult =>
      dsimp only
      split_ifs
      · exact hinv
      · exact hinv.waitResult hstep
  | none => exact hinv
  | result => exact hinv
  | flow => exact hinv
  | gameOver => exact hinv

theorem StakeInv.ticked (hinv : StakeInv a b room) :
    StakeInv a b { room with gameTime := room.gameTime + 1 } := by
  have hbooks := hinv.books
  exact hinv.neutral
    (hbooks.frame rfl rfl rfl (List.Perm.refl _) hbooks.users hbooks.punchers hbooks.waiting)
    ⟨hinv.course.playing, hinv.course.punched, hinv.course.tie⟩ rfl id (fun _ => Or.inl) id
    (Or.inl rfl)

theorem clean_of_closes (hclean : clean room (.tick random reversed) = true)
    (hcloses : closes room random reversed = true) :
    pending room.tasks = [] ∧ .quitting ∉ room.tasks := by
  simpa [clean, hcloses] using hclean

theorem StakeInv.tick (hinv : StakeInv a b room)
    (hclean : clean room (.tick random reversed) = true) :
    StakeInv a b (run room random reversed) := by
  unfold run
  dsimp only
  split_ifs
  · exact hinv.ticked.stepFun fun hcloses => clean_of_closes hclean hcloses
  · exact hinv.ticked

end Ticks

section Runs

theorem StakeInv.step (hinv : StakeInv a b room) {event : Event} (htwo : ofTwo a b event = true)
    (hclean : clean room event = true) : StakeInv a b (step room event) := by
  cases event with
  | login uid memberCount => exact (hinv.enter (by simpa [ofTwo] using htwo)).gameStart memberCount
  | leave uid => exact hinv.leave uid
  | betting uid betValue => exact hinv.betting (by simpa [ofTwo] using htwo) betValue
  | punch uid fist => exact hinv.punch (by simpa [ofTwo] using htwo) fist
  | quitGame uid => exact hinv.quit hclean
  | tick random reversed => exact hinv.tick hclean
  | answer index balAmt reply =>
      have hok : reply = .ok := by simpa [ofTwo] using htwo
      subst hok
      exact hinv.answer hclean

theorem StakeInv.start (a b : Uid) : StakeInv a b {} :=
  ⟨⟨by simp, by simp, by simp, by simp, rfl, by simp, List.Perm.refl _, List.nodup_nil⟩,
    ⟨by simp, by simp, by simp⟩,
    Or.inl ⟨rfl, rfl, rfl, by simp, by simp [GameStep.ended], fun _ => rfl⟩⟩

def bet (uid : Uid) (betValue : ℚ) : List Event :=
  [.betting uid betValue, .answer 0 (some 100) .ok, .answer 0 none .ok]

end Runs

end SdyServer.Guessing
