import Mathlib.Data.List.TakeWhile
import SdyServer.Guessing.Stored

/-!
# Stakes and the database

A bet, a punch or the punches of the system that come back from the database when the game is over
take it up again, and while one `punch_end` waits the next tick starts another. Without these the
stakes are settled once, whatever waits.
-/

namespace SdyServer.Guessing

namespace Stored

variable {a b : Uid} {room room' : Room} {world : World}

section Statement

def ofTwo (a b : Uid) : Event → Bool
  | .base event => Guessing.ofTwo a b event
  | .held event => Guessing.ofTwo a b event
  | _ => true

def Query.isFilling : Query → Bool
  | .filling _ _ _ => true
  | _ => false

/-- A step as in `Room`, and no tick runs `punch_end` while another one waits. -/
def cleanStep (world : World) (event : Guessing.Event) : Bool :=
  clean world.toRoom event &&
    match event with
    | .tick _ _ => world.gameStep ≠ .punchesEnd || !world.held.any Query.isFilling
    | _ => true

/-- What comes back from the database does not take up a game that is over, nor settle one that a
user who quits is settling. -/
def cleanAnswer (room : Room) (again : Bool) : Query → Bool
  | .betKept => room.betData.size ≠ 2 || !room.gameStep.ended
  | .punched => room.punchesData.size ≠ 2 || !room.gameStep.ended
  | .filling uids random reversed =>
      (again && (fill room random reversed uids).isSome) ||
        (!room.gameStep.ended &&
          ((getGuessingResult (getPunchDataList (fillPunches room random uids) reversed)).2 ≠
            some .someoneWin || !room.tasks.contains .quitting))
  | _ => true

def clean (world : World) : Event → Bool
  | .base event => cleanStep world event
  | .held event => cleanStep world event
  | .queried index again =>
      match world.held[index]? with
      | some query => cleanAnswer world.toRoom again query
      | none => true
  | .raised _ => true

end Statement

section Invariant

/-- A `punch_end` that waits: both have bet, and whoever has not punched is still to come. -/
structure Filling (a b : Uid) (room : Room) (uids : List Uid) : Prop where
  bets : room.betData.size = 2
  step : room.gameStep ≠ .waitResult
  left : ∀ uid ∈ uids, uid = a ∨ uid = b
  covered : ∀ uid, uid = a ∨ uid = b → uid ∈ uids ∨ uid ∈ room.punchesData.keys

/-- A flow that has not come to its returns. -/
structure Flowing (room : Room) : Prop where
  unsettled : Open room
  step : room.gameStep = .flow

def Fits (a b : Uid) (room : Room) : Query → Prop
  | .filling uids _ _ => Filling a b room uids
  | .flowing => Flowing room
  | _ => True

/-- What settles the game once the database answers. -/
def Query.settles : Query → Bool
  | .filling _ _ _ => true
  | .flowing => true
  | _ => false

structure StoredInv (a b : Uid) (world : World) : Prop where
  stake : StakeInv a b world.toRoom
  fits : ∀ query ∈ world.held, Fits a b world.toRoom query
  once : (world.held.filter Query.settles).length ≤ 1

/-- Nothing that a waiting `punch_end` relies on is lost. -/
structure Grows (room room' : Room) : Prop where
  bets : room.betData.keys ⊆ room'.betData.keys
  punches : room.punchesData.keys ⊆ room'.punchesData.keys
  step : room'.gameStep = .waitResult → room.gameStep = .waitResult

theorem Grows.of_eq (hbets : room'.betData = room.betData)
    (hpunches : room'.punchesData = room.punchesData)
    (hstep : room'.gameStep = .waitResult → room.gameStep = .waitResult) : Grows room room' :=
  ⟨hbets ▸ List.Subset.refl _, hpunches ▸ List.Subset.refl _, hstep⟩

theorem Filling.grow {uids : List Uid} (hfilling : Filling a b room uids) (hbooks : Books a b room')
    (hgrows : Grows room room') : Filling a b room' uids := by
  refine ⟨?_, fun h => hfilling.step (hgrows.step h), hfilling.left, fun uid huid => ?_⟩
  · have hge := LuaTable.size_le_of_keys_subset hgrows.bets
    have hle := length_le_two room'.betData.nodup_keys hbooks.bettors
    rw [LuaTable.length_keys] at hle
    rw [hfilling.bets] at hge
    exact le_antisymm hle hge
  · exact (hfilling.covered uid huid).imp_right (hgrows.punches ·)

theorem Flowing.pending_eq_nil (hflowing : Flowing room) : pending room.tasks = [] := by
  have hended : room.gameStep.ended = true := by
    rw [hflowing.step]
    rfl
  rcases hflowing.unsettled.ended hended with ⟨hover, -⟩ | ⟨-, hpending⟩
  · rw [hflowing.step] at hover
    exact absurd hover (by simp)
  · exact hpending

theorem Flowing.frame (hflowing : Flowing room) (haccts : room'.userAccts = room.userAccts)
    (hstep : room'.gameStep = room.gameStep) (hpending : pending room'.tasks = [])
    (htasks : ∀ task ∈ room'.tasks, task ∈ room.tasks ∨ ∃ uid coin, task = .asking uid coin) :
    Flowing room' := by
  have hopen := hflowing.unsettled
  have hflow : room'.gameStep = .flow := hstep.trans hflowing.step
  refine ⟨⟨?_, ?_, ?_, fun task hmem => ?_, fun _ => Or.inr ⟨hflow, hpending⟩, fun hidle => ?_⟩,
    hflow⟩
  · rw [haccts]
    exact hopen.returned
  · rw [haccts]
    exact hopen.win
  · rw [haccts]
    exact hopen.lose
  · exact (htasks task hmem).elim (hopen.tasks task) Or.inl
  · rw [hflow] at hidle
    exact absurd hidle (by simp)

/-- One rule for all steps: what still waits fits the new room, and so does what waits now. -/
theorem StoredInv.apply (hinv : StoredInv a b world) {held : List Query}
    (hheld : held.Sublist world.held)
    {query : Option Query} (hstake : StakeInv a b room')
    (hgrows : held.any Query.isFilling = true → Grows world.toRoom room')
    (hflowing : Flowing world.toRoom → .flowing ∈ held → Flowing room')
    (hquery : ∀ new ∈ query, Fits a b room' new ∧
      (new.settles = true → held.filter Query.settles = [])) :
    StoredInv a b ({ world with held }.apply (room', query)) := by
  have honce : (held.filter Query.settles).length ≤ 1 :=
    ((hheld.filter _).length_le).trans hinv.once
  have hold : ∀ old ∈ held, Fits a b room' old := by
    intro old hmem
    have hfits := hinv.fits old (hheld.subset hmem)
    cases old with
    | filling uids random reversed =>
        exact hfits.grow hstake.books (hgrows (List.any_eq_true.2 ⟨_, hmem, rfl⟩))
    | flowing => exact hflowing hfits hmem
    | entered memberCount => trivial
    | betKept => trivial
    | punched => trivial
  cases query with
  | none =>
      refine ⟨hstake, fun old hmem => hold old ?_, ?_⟩
      · simpa [World.apply] using hmem
      · simpa [World.apply] using honce
  | some new =>
      obtain ⟨hfits, hnone⟩ := hquery new rfl
      refine ⟨hstake, fun old hmem => ?_, ?_⟩
      · rcases List.mem_append.1 hmem with hmem | hmem
        · exact hold old hmem
        · rw [List.mem_singleton.1 hmem]
          exact hfits
      · show ((held ++ [new]).filter Query.settles).length ≤ 1
        rw [List.filter_append]
        by_cases hnew : new.settles = true
        · rw [hnone hnew, List.filter_cons_of_pos hnew]
          exact le_rfl
        · rw [List.filter_cons_of_neg hnew, List.filter_nil, List.append_nil]
          exact honce

end Invariant

section Steps

theorem Grows.gameStart (memberCount : Nat) (hgrows : Grows room room') :
    Grows room (gameStart room' memberCount) := by
  unfold Guessing.gameStart
  split_ifs
  · exact ⟨hgrows.bets, hgrows.punches, by simp [Room.betStart, Room.setGameStep]⟩
  · exact hgrows

theorem Grows.betStored (hgrows : Grows room room') : Grows room (betStored room') := by
  unfold Guessing.betStored
  split_ifs
  · exact ⟨hgrows.bets, hgrows.punches, by simp [Room.betEnd, Room.setGameStep]⟩
  · exact hgrows

theorem Grows.punchStored (hgrows : Grows room room') : Grows room (punchStored room') := by
  unfold Guessing.punchStored
  split_ifs
  · exact ⟨hgrows.bets, hgrows.punches, by simp [Room.punchEnd, Room.setGameStep]⟩
  · exact hgrows

theorem Grows.keepPunch (uid : Uid) (fist : Fist) : Grows room (keepPunch room uid fist) :=
  ⟨List.Subset.refl _, fun _ hmem => (LuaTable.mem_keys_set ..).2 (Or.inr hmem), id⟩

theorem Grows.keepBet (tasks : List Task) (uid : Uid) (betValue : ℚ) :
    Grows room (keepBet { room with tasks } uid betValue) :=
  ⟨fun _ hmem => (LuaTable.mem_keys_set ..).2 (Or.inr hmem), List.Subset.refl _, id⟩

theorem Grows.fillPunches (random : Uid → Fin 3) (uids : List Uid) :
    Grows room (fillPunches room random uids) :=
  ⟨List.Subset.refl _, fun uid hmem => (mem_fillPunches room random uids uid).2 (Or.inr hmem), id⟩

theorem Grows.flowReturns (hgrows : Grows room room') : Grows room (flowReturns room') := by
  unfold Guessing.flowReturns
  dsimp only
  split_ifs
  · exact ⟨hgrows.bets, hgrows.punches, by simp [Room.gameOver]⟩
  · exact ⟨hgrows.bets, hgrows.punches, hgrows.step⟩

theorem Grows.stepFun (hwait : room.gameStep ≠ .waitResult) (hend : room.gameStep ≠ .punchesEnd)
    (random : Uid → Fin 3) (reversed : Bool) : Grows room (stepFun room random reversed) := by
  unfold Guessing.stepFun
  cases hstep : room.gameStep with
  | betStart =>
      dsimp only
      split_ifs
      · exact .of_eq rfl rfl id
      · exact .of_eq rfl rfl (by simp [Room.betEnd, Room.setGameStep])
  | betEnd =>
      dsimp only
      split_ifs
      · exact .of_eq rfl rfl id
      · unfold beterEnd
        split_ifs
        · exact Grows.flowReturns (.of_eq rfl rfl (by simp [Room.flowBureau, Room.setGameStep]))
        · exact .of_eq rfl rfl (by simp [Room.punchStart, Room.setGameStep])
  | punchesStart =>
      dsimp only
      split_ifs
      · exact .of_eq rfl rfl id
      · exact .of_eq rfl rfl (by simp [Room.punchEnd, Room.setGameStep])
  | punchesEnd => exact absurd hstep hend
  | waitResult => exact absurd hstep hwait
  | none => exact .of_eq rfl rfl id
  | result => exact .of_eq rfl rfl id
  | flow => exact .of_eq rfl rfl id
  | gameOver => exact .of_eq rfl rfl id

theorem Grows.answer (index : Nat) (balAmt : Option ℚ) (reply : Answer) :
    Grows room (Guessing.step room (.answer index balAmt reply)) := by
  dsimp only [Guessing.step]
  cases room.tasks[index]? with
  | none => exact .of_eq rfl rfl id
  | some task =>
      cases task with
      | asking uid betValue =>
          dsimp only [goOn, bettingAsked]
          split_ifs <;> exact .of_eq rfl rfl id
      | freezing uid betValue =>
          have hkept := @Grows.keepBet room (room.tasks.eraseIdx index) uid betValue
          dsimp only [goOn, bettingFrozen]
          split_ifs
          · exact hkept.betStored
          · exact hkept
          · exact .of_eq rfl rfl id
      | resulting =>
          dsimp only [goOn]
          split_ifs
          · exact .of_eq rfl rfl (by simp [Room.gameOver])
          · exact .of_eq rfl rfl id
      | flowing =>
          dsimp only [goOn]
          split_ifs
          · exact .of_eq rfl rfl (by simp [Room.gameOver])
          · exact .of_eq rfl rfl id
      | quitting =>
          dsimp only [goOn]
          split_ifs
          · exact .of_eq rfl rfl (by simp [Room.gameOver, Room.setGameStep])
          · exact .of_eq rfl rfl id

theorem Grows.base (hwait : room.gameStep ≠ .waitResult) {event : Guessing.Event}
    (htick : ∀ random reversed, event = .tick random reversed → room.gameStep ≠ .punchesEnd) :
    Grows room (Guessing.step room event) := by
  cases event with
  | login uid memberCount => exact Grows.gameStart memberCount (.of_eq rfl rfl id)
  | leave uid => exact .of_eq rfl rfl id
  | betting uid betValue =>
      dsimp only [Guessing.step, betting]
      split_ifs <;> exact .of_eq rfl rfl id
  | punch uid fist =>
      dsimp only [Guessing.step, punch]
      split_ifs
      · exact .of_eq rfl rfl id
      · exact .of_eq rfl rfl id
      · exact (Grows.keepPunch uid fist).punchStored
      · exact Grows.keepPunch uid fist
  | quitGame uid =>
      dsimp only [Guessing.step, quitGame]
      split_ifs
      · exact .of_eq rfl rfl (by simp [Room.gameOver, Room.setGameStep])
      · exact .of_eq rfl rfl id
      · exact .of_eq rfl rfl (by simp [Room.gameOver, Room.setGameStep])
  | tick random reversed =>
      dsimp only [Guessing.step, run]
      split_ifs
      · have hgrows := @Grows.stepFun { room with gameTime := room.gameTime + 1 } hwait
          (htick random reversed rfl) random reversed
        exact ⟨hgrows.bets, hgrows.punches, hgrows.step⟩
      · exact .of_eq rfl rfl id
  | answer index balAmt reply => exact Grows.answer index balAmt reply

theorem stepFun_flow (hstep : room.gameStep = .flow) (random : Uid → Fin 3) (reversed : Bool) :
    stepFun room random reversed = room := by
  unfold stepFun
  rw [hstep]

theorem Flowing.answer (hflowing : Flowing room) {index : Nat} {balAmt : Option ℚ}
    (hclean : Guessing.clean room (.answer index balAmt .ok) = true) :
    Flowing (Guessing.step room (.answer index balAmt .ok)) := by
  have hsub : room.tasks.eraseIdx index ⊆ room.tasks := List.eraseIdx_subset
  dsimp only [Guessing.step]
  cases hget : room.tasks[index]? with
  | none => exact hflowing
  | some task =>
      have hperm := perm_of_getElem? hget
      rcases hflowing.unsettled.tasks task (hperm.mem_iff.2 List.mem_cons_self) with
        ⟨uid, betValue, rfl⟩ | ⟨uid, betValue, rfl⟩
      · have hasked : Flowing { room with tasks := room.tasks.eraseIdx index } := by
          refine hflowing.frame rfl rfl ?_ fun task hmem => Or.inl (hsub hmem)
          have hpending := pending_perm hperm
          rw [hflowing.pending_eq_nil] at hpending
          exact hpending.symm.eq_nil
        dsimp only [goOn, bettingAsked]
        rw [if_pos rfl]
        split_ifs with hmin hmax
        · exact hasked
        · exact hasked
        · have hstep := hflowing.step
          simp [Guessing.clean, hget, hmin, hmax, hstep] at hclean
      · have hmem : (uid, betValue) ∈ pending room.tasks :=
          (pending_perm hperm).mem_iff.2 List.mem_cons_self
        rw [hflowing.pending_eq_nil] at hmem
        exact absurd hmem List.not_mem_nil

/-- While a flow has not come to its returns, nothing that is clean settles the game or starts it
again. -/
theorem Flowing.base (hflowing : Flowing room) {event : Guessing.Event}
    (htwo : Guessing.ofTwo a b event = true) (hclean : Guessing.clean room event = true) :
    Flowing (Guessing.step room event) := by
  have hstep := hflowing.step
  have hpending := hflowing.pending_eq_nil
  cases event with
  | login uid memberCount =>
      dsimp only [Guessing.step, login, gameStart]
      rw [if_neg fun h => absurd (hstep.symm.trans h.1) (by simp)]
      exact hflowing.frame rfl rfl hpending fun _ => Or.inl
  | leave uid => exact hflowing.frame rfl rfl hpending fun _ => Or.inl
  | betting uid betValue =>
      dsimp only [Guessing.step, betting]
      rw [if_pos (by simp [hstep])]
      exact hflowing
  | punch uid fist =>
      dsimp only [Guessing.step, punch]
      rw [if_pos (by simp [hstep])]
      exact hflowing
  | quitGame uid => simp [Guessing.clean, Room.inPlay, hstep] at hclean
  | tick random reversed =>
      have hticked : Flowing { room with gameTime := room.gameTime + 1 } :=
        hflowing.frame rfl rfl hpending fun _ => Or.inl
      dsimp only [Guessing.step, run]
      split_ifs
      · rw [@stepFun_flow { room with gameTime := room.gameTime + 1 } hstep]
        exact hticked
      · exact hticked
  | answer index balAmt reply =>
      have hok : reply = .ok := by simpa [Guessing.ofTwo] using htwo
      subst hok
      exact hflowing.answer hclean

end Steps

section Held

theorem cleanStep_iff {event : Guessing.Event} (hclean : cleanStep world event = true) :
    Guessing.clean world.toRoom event = true ∧
      ∀ random reversed, event = .tick random reversed → world.gameStep = .punchesEnd →
        world.held.any Query.isFilling = false := by
  unfold cleanStep at hclean
  rw [Bool.and_eq_true] at hclean
  refine ⟨hclean.1, ?_⟩
  rintro random reversed rfl hend
  simpa [hend] using hclean.2

theorem StoredInv.grows_base (hinv : StoredInv a b world) {event : Guessing.Event}
    (hclean : cleanStep world event = true) (hany : world.held.any Query.isFilling = true) :
    Grows world.toRoom (Guessing.step world.toRoom event) := by
  obtain ⟨query, hmem, hquery⟩ := List.any_eq_true.1 hany
  cases query with
  | filling uids random reversed =>
      refine Grows.base (hinv.fits _ hmem).step fun random' reversed' heq hend => ?_
      have hnone := (cleanStep_iff hclean).2 random' reversed' heq hend
      rw [hnone] at hany
      exact absurd hany (by simp)
  | _ => exact absurd hquery (by simp [Query.isFilling])

theorem StoredInv.base (hinv : StoredInv a b world) {event : Guessing.Event}
    (htwo : Guessing.ofTwo a b event = true) (hclean : cleanStep world event = true) :
    StoredInv a b (world.apply (Guessing.step world.toRoom event, none)) :=
  hinv.apply (List.Sublist.refl _) (hinv.stake.step htwo (cleanStep_iff hclean).1)
    (hinv.grows_base hclean) (fun hflowing _ => hflowing.base htwo (cleanStep_iff hclean).1)
      (by simp)

theorem fill_eq_some {random : Uid → Fin 3} {reversed : Bool} {uids : List Uid} {query : Query}
    (hfill : fill room random reversed uids = some (room', some query)) :
    ∃ uid rest, uids.dropWhile (fun uid => (room.punchesData.get uid).isSome) = uid :: rest ∧
      room' = fillPunches room random [uid] ∧ query = .filling rest random reversed := by
  unfold fill at hfill
  cases hdrop : uids.dropWhile fun uid => (room.punchesData.get uid).isSome with
  | nil =>
      rw [hdrop] at hfill
      cases hfill
  | cons uid rest =>
      rw [hdrop] at hfill
      cases hfill
      exact ⟨uid, rest, rfl, rfl, rfl⟩

/-- Where `punch_end` waits, the players that it has not come to are still to come. -/
theorem Filling.next {random : Uid → Fin 3} {uids rest : List Uid} {uid : Uid}
    (hfilling : Filling a b room uids)
    (hdrop : uids.dropWhile (fun uid => (room.punchesData.get uid).isSome) = uid :: rest) :
    Filling a b (fillPunches room random [uid]) rest := by
  have hsplit := List.takeWhile_append_dropWhile
    (p := fun uid => (room.punchesData.get uid).isSome) (l := uids)
  rw [hdrop] at hsplit
  refine ⟨hfilling.bets, hfilling.step, fun other hmem => hfilling.left other ?_,
    fun other hother => ?_⟩
  · rw [← hsplit]
    simp [hmem]
  · rw [mem_fillPunches]
    rcases hfilling.covered other hother with hmem | hpunched
    · rw [← hsplit, List.mem_append, List.mem_cons] at hmem
      rcases hmem with hmem | rfl | hmem
      · have hsome := List.mem_takeWhile_imp hmem
        exact Or.inr (Or.inr ((LuaTable.mem_keys_iff _).2 (Option.isSome_iff_exists.1 hsome)))
      · exact Or.inr (Or.inl (List.mem_singleton_self other))
      · exact Or.inl hmem
    · exact Or.inr (Or.inr hpunched)

/-- `punch_end` goes on to the next player and waits there. -/
theorem StoredInv.fill (hinv : StoredInv a b world) {held : List Query}
    (hheld : held.Sublist world.held) (gameTime : Nat) {random : Uid → Fin 3} {reversed : Bool}
    {uids : List Uid} {query : Query} (hfilling : Filling a b world.toRoom uids)
    (hnone : held.filter Query.settles = [])
    (hfill : fill { world.toRoom with gameTime } random reversed uids = some (room', some query)) :
    StoredInv a b ({ world with held }.apply (room', some query)) := by
  obtain ⟨uid, rest, hdrop, rfl, rfl⟩ := fill_eq_some hfill
  have hbooks := hinv.stake.books
  have hclock : StakeInv a b { world.toRoom with gameTime } :=
    hinv.stake.neutral (hbooks.frame rfl rfl rfl (List.Perm.refl _) hbooks.users hbooks.punchers
      hbooks.waiting) ⟨hinv.stake.course.playing, hinv.stake.course.punched, hinv.stake.course.tie⟩
      rfl id (fun _ => Or.inl) id (Or.inl rfl)
  have huid : uid = a ∨ uid = b := hfilling.left uid (mem_of_dropWhile hdrop)
  have hfilling' : Filling a b { world.toRoom with gameTime } uids :=
    ⟨hfilling.bets, hfilling.step, hfilling.left, hfilling.covered⟩
  have hgrows := @Grows.fillPunches { world.toRoom with gameTime } random [uid]
  refine hinv.apply hheld (hclock.fillPunches (by simpa using huid))
    (fun _ => ⟨hgrows.bets, hgrows.punches, hgrows.step⟩)
    (fun hflowing _ => hflowing.frame rfl rfl hflowing.pending_eq_nil fun _ => Or.inl) ?_
  rintro new ⟨⟩
  exact ⟨hfilling'.next hdrop, fun _ => hnone⟩

/-- A `punch_end` that finds somebody who has not punched finds both bets. -/
theorem filling_of_punchesEnd (hinv : StakeInv a b room)
    (hend : room.gameStep = .punchesEnd) {uid : Uid}
    {rest : List Uid}
    (hdrop : room.players.keys.dropWhile (fun uid => (room.punchesData.get uid).isSome) =
      uid :: rest) : Filling a b room room.players.keys := by
  have hbooks := hinv.books
  have hleft : ∀ uid ∈ room.players.keys, uid = a ∨ uid = b := by
    rw [hbooks.players]
    exact hbooks.bettors
  have hbets : room.betData.size = 2 := by
    refine (hinv.course.punched hend).resolve_right fun hpunches => ?_
    have hpunched :=
      mem_keys_of_size hbooks.punchers hpunches (hleft uid (mem_of_dropWhile hdrop))
    have hnot := (filter_of_dropWhile hdrop).1
    rw [Option.isSome_iff_exists.2 ((LuaTable.mem_keys_iff _).1 hpunched)] at hnot
    exact absurd hnot (by simp)
  refine ⟨hbets, by simp [hend], hleft, fun uid huid => Or.inl ?_⟩
  rw [hbooks.players]
  exact mem_keys_of_size hbooks.bettors hbets.ge huid

theorem StoredInv.holdTick (hinv : StoredInv a b world) {random : Uid → Fin 3} {reversed : Bool}
    {query : Query} (hclean : cleanStep world (.tick random reversed) = true)
    (hhold : holdTick { world.toRoom with gameTime := world.gameTime + 1 } random reversed =
      some (room', some query)) :
    StoredInv a b (world.apply (room', some query)) := by
  obtain ⟨hsteps, hfilling⟩ := cleanStep_iff hclean
  have hticked := hinv.stake.ticked
  have hbooks := hinv.stake.books
  unfold Stored.holdTick at hhold
  split_ifs at hhold with htime hflow hend
  · cases hhold
    obtain ⟨hpending, hquit⟩ := clean_of_closes hsteps
      (by simpa [closes, show world.gameStep = .betEnd from hflow.1] using hflow.2)
    have hopen : Open world.toRoom := by
      refine hinv.stake.open_of_inPlay ?_ ?_ hquit
      · simp [Room.inPlay, show world.gameStep = .betEnd from hflow.1]
      · simp [show world.gameStep = .betEnd from hflow.1]
    obtain ⟨hstake, hopen'⟩ := hticked.flowBureau
      ⟨hopen.returned, hopen.win, hopen.lose, hopen.tasks, hopen.ended, hopen.idle⟩ hpending
    refine hinv.apply (List.Sublist.refl _) hstake
      (fun _ => .of_eq rfl rfl (by simp [Room.flowBureau, Room.setGameStep]))
      (fun _ _ => ⟨hopen', rfl⟩) ?_
    rintro new ⟨⟩
    refine ⟨⟨hopen', rfl⟩, fun _ => List.filter_eq_nil_iff.2 fun old hmem hsettles => ?_⟩
    have hfits := hinv.fits old hmem
    cases old with
    | filling uids random reversed => exact hflow.2 hfits.bets
    | flowing => exact absurd (hflow.1.symm.trans hfits.step) (by simp)
    | _ => exact absurd hsettles (by simp [Query.settles])
  · obtain ⟨uid, rest, hdrop, -, -⟩ := fill_eq_some hhold
    refine hinv.fill (List.Sublist.refl _) _ (filling_of_punchesEnd hinv.stake hend hdrop)
      (List.filter_eq_nil_iff.2 fun old hmem hsettles => ?_) hhold
    have hnone := hfilling random reversed rfl hend
    have hfits := hinv.fits old hmem
    cases old with
    | filling uids random reversed =>
        exact absurd hnone (by simpa using ⟨_, hmem, rfl⟩)
    | flowing => exact absurd (hend.symm.trans hfits.step) (by simp)
    | _ => exact absurd hsettles (by simp [Query.settles])

theorem StoredInv.held (hinv : StoredInv a b world) {event : Guessing.Event}
    (htwo : Guessing.ofTwo a b event = true) (hclean : cleanStep world event = true) :
    StoredInv a b (step world (.held event)) := by
  have hpending := fun hflowing : Flowing world.toRoom => hflowing.pending_eq_nil
  dsimp only [step]
  cases hhold : hold world.toRoom event with
  | none => exact hinv.base htwo hclean
  | some piece =>
      rw [Option.getD_some]
      cases event with
      | login uid memberCount =>
          cases hhold
          exact hinv.apply (List.Sublist.refl _)
            (hinv.stake.enter (by simpa [Guessing.ofTwo] using htwo)) (fun _ => .of_eq rfl rfl id)
            (fun hflowing _ => hflowing.frame rfl rfl (hpending hflowing) fun _ => Or.inl)
            (by simp [Fits, Query.settles])
      | punch uid fist =>
          simp only [hold] at hhold
          split_ifs at hhold with hphase hpunched hformat
          cases hhold
          obtain ⟨hnot, hend⟩ := not_ended_of_punching hphase
          refine hinv.apply (List.Sublist.refl _)
            (hinv.stake.keepPunch (by simpa [Guessing.ofTwo] using htwo) fist hend)
            (fun _ => Grows.keepPunch uid fist) (fun hflowing _ => ?_)
              (by simp [Fits, Query.settles])
          rw [hflowing.step] at hnot
          exact absurd hnot (by simp [GameStep.ended])
      | tick random reversed =>
          obtain ⟨room', query, rfl, -⟩ := queried_hold hhold
          exact hinv.holdTick hclean hhold
      | answer index balAmt reply =>
          simp only [hold] at hhold
          split at hhold
          · rename_i uid betValue hget
            split_ifs at hhold with hok
            cases hhold
            obtain ⟨hnot, hkept⟩ := hinv.stake.place hget
            refine hinv.apply (List.Sublist.refl _) hkept
              (fun _ => Grows.keepBet _ uid betValue) (fun hflowing _ => ?_)
              (by simp [Fits, Query.settles])
            rw [hflowing.step] at hnot
            exact absurd hnot (by simp [GameStep.ended])
          · cases hhold
      | leave uid => cases hhold
      | betting uid betValue => cases hhold
      | quitGame uid => cases hhold

theorem perm_of_held {index : Nat} {query : Query} (hget : world.held[index]? = some query) :
    world.held.Perm (query :: world.held.eraseIdx index) := by
  obtain ⟨hlt, rfl⟩ := List.getElem?_eq_some_iff.1 hget
  exact (List.getElem_cons_eraseIdx_perm hlt).symm

theorem StoredInv.nothing_settles (hinv : StoredInv a b world) {index : Nat} {query : Query}
    (hget : world.held[index]? = some query) (hsettles : query.settles = true) :
    (world.held.eraseIdx index).filter Query.settles = [] := by
  have hperm := (perm_of_held hget).filter Query.settles
  have honce := hinv.once
  rw [hperm.length_eq, List.filter_cons_of_pos hsettles, List.length_cons] at honce
  exact List.length_eq_zero_iff.1 (by omega)

/-- What settles the game is the only thing held that does. -/
theorem StoredInv.finished (hinv : StoredInv a b world) {index : Nat} {query : Query}
    (hget : world.held[index]? = some query) (hsettles : query.settles = true)
    (hstake : StakeInv a b room') :
    StoredInv a b ({ world with held := world.held.eraseIdx index }.apply (room', none)) := by
  have hvacuous : ∀ query ∈ world.held.eraseIdx index, query.settles = false := by
    simpa using hinv.nothing_settles hget hsettles
  refine hinv.apply (List.eraseIdx_sublist _ _) hstake (fun hany => ?_) (fun _ hmem => ?_) (by simp)
  · obtain ⟨query, hmem, hquery⟩ := List.any_eq_true.1 hany
    have hnot := hvacuous query hmem
    cases query with
    | filling uids random reversed => exact absurd hnot (by simp [Query.settles])
    | _ => exact absurd hquery (by simp [Query.isFilling])
  · exact absurd (hvacuous _ hmem) (by simp [Query.settles])

/-- Nobody's coins are being frozen once both have bet. -/
theorem pending_of_both (hbooks : Books a b room) (hsize : room.betData.size = 2) :
    pending room.tasks = [] := by
  refine List.eq_nil_iff_forall_not_mem.2 fun entry hmem => ?_
  have htask : ∃ task ∈ room.tasks, task = .freezing entry.1 entry.2 := by
    obtain ⟨task, htask, hentry⟩ := List.mem_filterMap.1 hmem
    cases task with
    | freezing uid betValue =>
        cases hentry
        exact ⟨_, htask, rfl⟩
    | _ => cases hentry
  obtain ⟨task, htask, rfl⟩ := htask
  have huid := hbooks.waiting entry.1 entry.2 (Or.inr htask)
  have hbet := mem_keys_of_size hbooks.bettors hsize.ge huid
  exact (List.nodup_append.1 hbooks.distinct).2.2 _ hbet _ (List.mem_map_of_mem hmem) rfl

/-- `punch_end` comes to its end when the game is not over. -/
theorem Filling.push {random : Uid → Fin 3} {reversed : Bool} {uids : List Uid}
    (hfilling : Filling a b room uids) (hinv : StakeInv a b room)
    (hnot : room.gameStep.ended = false)
    (hquit : (getGuessingResult (getPunchDataList (fillPunches room random uids) reversed)).2 =
      some .someoneWin → .quitting ∉ room.tasks) :
    StakeInv a b (pushGuessingResult (fillPunches room random uids) reversed) := by
  have hbooks := hinv.books
  have hpending : pending room.tasks = [] := pending_of_both hbooks hfilling.bets
  refine (hinv.fillPunches hfilling.left).push hnot (Or.inl hfilling.bets) (fun uid hmem => ?_)
    fun _ hwin => ⟨hpending, hquit hwin⟩
  rw [mem_fillPunches]
  exact hfilling.covered uid (hbooks.bettors uid (hbooks.players ▸ hmem))

theorem StoredInv.filling (hinv : StoredInv a b world) {index : Nat} {again : Bool}
    {uids : List Uid}
    {random : Uid → Fin 3} {reversed : Bool}
    (hget : world.held[index]? = some (.filling uids random reversed))
    (hclean : cleanAnswer world.toRoom again (.filling uids random reversed) = true) :
    StoredInv a b ({ world with held := world.held.eraseIdx index }.apply
      (queried world.toRoom again (.filling uids random reversed))) := by
  have hheld : (world.held.eraseIdx index).Sublist world.held := List.eraseIdx_sublist _ _
  have hnone := hinv.nothing_settles hget rfl
  have hfilling : Filling a b world.toRoom uids := hinv.fits _ (List.mem_of_getElem? hget)
  have hpushed : (again && (Stored.fill world.toRoom random reversed uids).isSome) = false →
      StakeInv a b (pushGuessingResult (fillPunches world.toRoom random uids) reversed) := by
    intro hdone
    have hok : world.gameStep.ended = false ∧
        ((getGuessingResult (getPunchDataList (fillPunches world.toRoom random uids) reversed)).2 =
          some .someoneWin → .quitting ∉ world.tasks) := by
      simpa [cleanAnswer, hdone, or_iff_not_imp_left] using hclean
    exact hfilling.push hinv.stake hok.1 hok.2
  simp only [queried]
  split_ifs with hraise hagain
  · exact hinv.finished hget rfl hinv.stake
  · cases hfill : Stored.fill world.toRoom random reversed uids with
    | none => exact hinv.finished hget rfl (hpushed (by simp [hfill]))
    | some piece =>
        obtain ⟨room', query⟩ := piece
        cases query with
        | none => exact absurd hfill (by unfold Stored.fill; split <;> simp)
        | some query => exact hinv.fill hheld world.gameTime hfilling hnone hfill
  · exact hinv.finished hget rfl (hpushed (by simp [hagain]))

theorem StoredInv.queried (hinv : StoredInv a b world) {index : Nat} {again : Bool}
    (hclean : clean world (.queried index again) = true) :
    StoredInv a b (step world (.queried index again)) := by
  have hheld : (world.held.eraseIdx index).Sublist world.held := List.eraseIdx_sublist _ _
  dsimp only [step]
  cases hget : world.held[index]? with
  | none => exact hinv
  | some query =>
      have hanswer : cleanAnswer world.toRoom again query = true := by
        simpa [clean, hget] using hclean
      cases query with
      | entered memberCount =>
          refine hinv.apply hheld (hinv.stake.gameStart memberCount)
            (fun _ => Grows.gameStart memberCount (.of_eq rfl rfl id))
              (fun hflowing _ => ?_) (by simp)
          unfold gameStart
          rw [if_neg fun h => absurd (hflowing.step.symm.trans h.1) (by simp)]
          exact hflowing
      | betKept =>
          have hnot : world.betData.size = 2 → world.gameStep.ended = false := by
            simpa [cleanAnswer, or_iff_not_imp_left] using hanswer
          refine hinv.apply hheld (hinv.stake.betStored hnot)
            (fun _ => Grows.betStored (.of_eq rfl rfl id)) (fun hflowing _ => ?_) (by simp)
          unfold betStored
          rw [if_neg fun h => absurd (hnot h) (by simp [hflowing.step, GameStep.ended])]
          exact hflowing
      | punched =>
          have hnot : world.punchesData.size = 2 → world.gameStep.ended = false := by
            simpa [cleanAnswer, or_iff_not_imp_left] using hanswer
          refine hinv.apply hheld (hinv.stake.punchStored hnot)
            (fun _ => Grows.punchStored (.of_eq rfl rfl id)) (fun hflowing _ => ?_) (by simp)
          unfold punchStored
          rw [if_neg fun h => absurd (hnot h) (by simp [hflowing.step, GameStep.ended])]
          exact hflowing
      | filling uids random reversed => exact hinv.filling hget hanswer
      | flowing =>
          have hflowing : Flowing world.toRoom := hinv.fits _ (List.mem_of_getElem? hget)
          exact hinv.finished hget rfl
            (hinv.stake.flowReturns hflowing.unsettled hflowing.pending_eq_nil hflowing.step)

end Held

section Runs

theorem StoredInv.step (hinv : StoredInv a b world) {event : Event} (htwo : ofTwo a b event = true)
    (hclean : clean world event = true) : StoredInv a b (step world event) := by
  cases event with
  | base event =>
      have hbase := hinv.base htwo hclean
      simpa [Stored.step, World.apply] using hbase
  | held event => exact hinv.held htwo hclean
  | queried index again => exact hinv.queried hclean
  | raised index =>
      have hnone : ∀ new ∈ (none : Option Query), Fits a b world.toRoom new ∧
          (new.settles = true → (world.held.eraseIdx index).filter Query.settles = []) := by simp
      have hraised := hinv.apply (List.eraseIdx_sublist world.held index) hinv.stake
        (fun _ => .of_eq rfl rfl id) (fun hflowing _ => hflowing) hnone
      simpa [Stored.step, World.apply] using hraised

/-- **In a game without interference every stake is settled once**, wherever its handlers wait. -/
theorem settledOnce_of_clean (a b : Uid) (events : List Event)
    (halong : Run.Along step (fun world event => ofTwo a b event = true ∧ clean world event = true)
      {} events) :
    SettledOnce (Run.exec step {} events).toRoom :=
  (Run.invariant
    (fun (world : World) _ (hinv : StoredInv a b world) h => hinv.step h.1 h.2) events _
    ⟨StakeInv.start a b, by simp, by simp⟩ halong).stake.settledOnce

/-- The first bet comes back from the database during the second one, and the system punches for
both players and waits after each. -/
def wholeGame : List Event :=
  [.base (.login 1 1), .held (.login 2 2), .queried 0 false, .base (.betting 1 5),
    .base (.answer 0 (some 100) .ok), .held (.answer 0 none .ok),
    .base (.betting 2 8), .base (.answer 0 (some 100) .ok), .queried 0 false,
    .base (.answer 0 none .ok), .base (.tick (fun _ => 0) false)] ++
    List.replicate 30 (.base (.tick (fun _ => 0) false)) ++
    [.held (.tick (fun uid => if uid = 1 then 1 else 0) false), .queried 0 true, .queried 0 false,
      .base (.answer 0 none .ok)]

theorem settledOnce_wholeGame :
    Run.Along step (fun world event => ofTwo 1 2 event = true ∧ clean world event = true) {}
        wholeGame ∧
      (Run.exec step {} wholeGame).gameStep = .gameOver ∧
      issued .win (Run.exec step {} wholeGame).userAccts = [(1, 8)] ∧
      SettledOnce (Run.exec step {} wholeGame).toRoom := by
  have halong : Run.Along step
      (fun world event => ofTwo 1 2 event = true ∧ clean world event = true) {} wholeGame := by
    decide +kernel
  exact ⟨halong, by decide +kernel, by decide +kernel, settledOnce_of_clean 1 2 wholeGame halong⟩

/-- A user bets twice before the first bet is kept, and then the other one quits. -/
def twoBets : List Event :=
  [.base (.login 1 1), .base (.login 2 2), .base (.betting 1 5), .base (.betting 1 5),
    .base (.answer 0 (some 100) .ok), .base (.answer 0 (some 100) .ok),
    .base (.answer 0 none .ok), .base (.answer 0 none .ok), .base (.quitGame 2),
    .base (.answer 0 none .ok)]

/-- While `punch_end` waits for the database the next tick runs it again. -/
def twoPunchEnds : List Event :=
  [.base (.login 1 1), .base (.login 2 2)] ++ (bet 1 5).map .base ++ (bet 2 8).map .base ++
    [.base (.tick (fun _ => 0) false), .base (.punch 1 fistRock)] ++
    List.replicate 30 (.base (.tick (fun _ => 0) false)) ++
    [.held (.tick (fun _ => 0) false), .base (.tick (fun _ => 0) false), .queried 0 false,
      .base (.answer 0 none .ok), .base (.answer 0 none .ok)]

theorem not_settledOnce_twoBets :
    (Run.exec step {} twoBets).gameStep = .gameOver ∧
      issued .freeze (Run.exec step {} twoBets).userAccts = [(1, 5), (1, 5)] ∧
      issued .giveBack (Run.exec step {} twoBets).userAccts = [(1, 5)] ∧
      issued .win (Run.exec step {} twoPunchEnds).userAccts = [(1, 8), (1, 8)] ∧
      ¬∀ (a b : Uid) (events : List Event),
        Run.Along step (fun _ event => ofTwo a b event = true) {} events →
          SettledOnce (Run.exec step {} events).toRoom := by
  have hover : (Run.exec step {} twoBets).gameStep = .gameOver := by decide +kernel
  have hfreeze : issued .freeze (Run.exec step {} twoBets).userAccts = [(1, 5), (1, 5)] := by
    decide +kernel
  have hback : issued .giveBack (Run.exec step {} twoBets).userAccts = [(1, 5)] := by decide +kernel
  refine ⟨hover, hfreeze, hback, by decide +kernel, fun hall => ?_⟩
  have hperm := (hall 1 2 twoBets (by decide +kernel)).complete hover
  rw [hfreeze, hback] at hperm
  exact absurd hperm.length_eq (by simp)

end Runs

end Stored

end SdyServer.Guessing
