import SdyServer.Guessing.Games

/-!
# The handlers at the database

A login, a bet, a punch, the punches of the system and a flow are stored before their handler goes
on, and the room goes on in the meantime: with messages, answers and ticks. A handler that the
database answers at once does a step of `Room`.
-/

namespace SdyServer.Guessing

namespace Stored

section Model

/-- Where a handler waits for the database: `login` at `handleRoomUser`, and at `addStepData`
`betting`, `punch`, `punch_end` with the players it has not come to, and `game_flow_bureau`. -/
inductive Query where
  | entered (memberCount : Nat)
  | betKept
  | punched
  | filling (uids : List Uid) (random : Uid → Fin 3) (reversed : Bool)
  | flowing

/-- A room, and where the handler waits that has just run. -/
abbrev Piece := Room × Option Query

/-- `punch_end` up to the database, at the next player who has not punched. -/
def fill (room : Room) (random : Uid → Fin 3) (reversed : Bool) (uids : List Uid) : Option Piece :=
  match uids.dropWhile fun uid => (room.punchesData.get uid).isSome with
  | [] => none
  | uid :: rest => some (fillPunches room random [uid], some (.filling rest random reversed))

/-- A tick whose handler calls the database. -/
def holdTick (room : Room) (random : Uid → Fin 3) (reversed : Bool) : Option Piece :=
  if room.gameTime = 8 ∨ room.gameTime < 1 then none
  else if room.gameStep = .betEnd ∧ room.betData.size ≠ 2 then
    some (room.flowBureau, some .flowing)
  else if room.gameStep = .punchesEnd then fill room random reversed room.players.keys
  else none

/-- What a handler does until it calls the database, if it does. -/
def hold (room : Room) : Event → Option Piece
  | .login uid memberCount =>
      some ({ room with users := room.users.set uid () }, some (.entered memberCount))
  | .punch uid fist =>
      if room.gameStep ≠ .betEnd ∧ room.gameStep ≠ .punchesStart then none
      else if (room.punchesData.get uid).isSome then none
      else if fist.formats then some (keepPunch room uid fist, some .punched)
      else none
  | .tick random reversed => holdTick { room with gameTime := room.gameTime + 1 } random reversed
  | .answer index _ reply =>
      match room.tasks[index]? with
      | some (.freezing uid betValue) =>
          if reply = .ok ∧ betValue.isInt then
            some (keepBet { room with tasks := room.tasks.eraseIdx index } uid betValue,
              some .betKept)
          else none
      | _ => none
  | _ => none

/-- The database has answered; `again` says whether `punch_end` waits for it at the next player too.
There it raises when the punches are gone. -/
def queried (room : Room) (again : Bool) : Query → Piece
  | .entered memberCount => (gameStart room memberCount, none)
  | .betKept => (betStored room, none)
  | .punched => (punchStored room, none)
  | .filling uids random reversed =>
      if room.punchesData.size = 0 ∧ uids ≠ [] then (room, none)
      else
        let finished := pushGuessingResult (fillPunches room random uids) reversed
        if again then (fill room random reversed uids).getD (finished, none) else (finished, none)
  | .flowing => (flowReturns room, none)

/-- The room, and the handlers held at the database. -/
structure World extends Room where
  held : List Query := []

/-- `base` is a step of `Room`. A handler is held at the database, the database answers the query at
an index, or the query raises. -/
inductive Event where
  | base (event : Guessing.Event)
  | held (event : Guessing.Event)
  | queried (index : Nat) (again : Bool)
  | raised (index : Nat)

def World.apply (world : World) (piece : Piece) : World :=
  { toRoom := piece.1, held := world.held ++ piece.2.toList }

def step (world : World) : Event → World
  | .base event => { world with toRoom := Guessing.step world.toRoom event }
  | .held event =>
      world.apply ((hold world.toRoom event).getD (Guessing.step world.toRoom event, none))
  | .queried index again =>
      match world.held[index]? with
      | none => world
      | some query =>
          { world with held := world.held.eraseIdx index }.apply (queried world.toRoom again query)
  | .raised index => { world with held := world.held.eraseIdx index }

end Model

section Machine

variable {room : Room} {random : Uid → Fin 3} {reversed : Bool}

theorem filter_of_dropWhile {p : Uid → Bool} {uid : Uid} {uids rest : List Uid}
    (hdrop : uids.dropWhile p = uid :: rest) :
    p uid = false ∧
      uids.filter (fun uid => !p uid) = uid :: rest.filter fun uid => !p uid := by
  induction uids with
  | nil => cases hdrop
  | cons head uids ih =>
      rw [List.dropWhile_cons] at hdrop
      split_ifs at hdrop with hhead
      · obtain ⟨huid, hfilter⟩ := ih hdrop
        refine ⟨huid, ?_⟩
        rw [List.filter_cons_of_neg (by simp [hhead]), hfilter]
      · cases hdrop
        refine ⟨by simpa using hhead, ?_⟩
        rw [List.filter_cons_of_pos (by simpa using hhead)]

theorem mem_of_dropWhile {p : Uid → Bool} {uid : Uid} {uids rest : List Uid}
    (hdrop : uids.dropWhile p = uid :: rest) : uid ∈ uids := by
  have hsub := (List.dropWhile_sublist p (l := uids)).subset
  rw [hdrop] at hsub
  exact hsub List.mem_cons_self

/-- Punching for the next player, and then for the rest. -/
theorem fillPunches_next {uids rest : List Uid} {uid : Uid} (hnodup : uids.Nodup)
    (hdrop : uids.dropWhile (fun uid => (room.punchesData.get uid).isSome) = uid :: rest) :
    fillPunches (fillPunches room random [uid]) random rest = fillPunches room random uids := by
  have hnone : ∀ room : Room, (fun uid => (room.punchesData.get uid).isNone) =
      fun uid => !(room.punchesData.get uid).isSome := by
    intro room
    funext uid
    simp
  obtain ⟨huid, hfilter⟩ := filter_of_dropWhile hdrop
  have hmem : uid ∉ rest := by
    have hsub : (uid :: rest).Sublist uids := hdrop ▸ List.dropWhile_sublist _
    exact (List.nodup_cons.1 (hnodup.sublist hsub)).1
  have hone : [uid].filter (fun uid => (room.punchesData.get uid).isNone) = [uid] := by
    simpa using huid
  have hrest : rest.filter (fun other =>
      ((room.punchesData.set uid (.int ((random uid).val + 1))).get other).isNone) =
      rest.filter fun other => (room.punchesData.get other).isNone := by
    refine List.filter_congr fun other hother => ?_
    have hne : uid ≠ other := fun heq => hmem (heq ▸ hother)
    rw [LuaTable.get_set_of_ne _ _ hne]
  unfold fillPunches
  dsimp only
  rw [hone, List.foldl_cons, List.foldl_nil, hrest, hnone, hfilter, List.foldl_cons]

theorem queried_fill (hnodup : room.players.keys.Nodup) {piece : Piece}
    (hfill : fill room random reversed room.players.keys = some piece) :
    ∃ room' query, piece = (room', some query) ∧
      queried room' false query = (punchesEnd room random reversed, none) := by
  unfold fill at hfill
  cases hdrop : room.players.keys.dropWhile fun uid => (room.punchesData.get uid).isSome with
  | nil =>
      rw [hdrop] at hfill
      cases hfill
  | cons uid rest =>
      rw [hdrop] at hfill
      cases hfill
      refine ⟨_, _, rfl, ?_⟩
      have hmem : uid ∈ room.players.keys := mem_of_dropWhile hdrop
      have hplayers : room.players.size ≠ 0 := by
        rw [← LuaTable.length_keys]
        exact List.length_pos_of_mem hmem |>.ne'
      have hpunches : (fillPunches room random [uid]).punchesData.size ≠ 0 := by
        rw [← LuaTable.length_keys]
        have huid :=
          (mem_fillPunches room random [uid] uid).2 (Or.inl (List.mem_singleton_self uid))
        exact (List.length_pos_of_mem huid).ne'
      simp only [queried, punchesEnd]
      rw [if_neg fun h => hpunches h.1, if_neg hplayers, fillPunches_next hnodup hdrop]
      rfl

theorem queried_hold {event : Guessing.Event} {piece : Piece}
    (hhold : hold room event = some piece) :
    ∃ room' query, piece = (room', some query) ∧
      queried room' false query = (Guessing.step room event, none) := by
  cases event with
  | login uid memberCount =>
      cases hhold
      exact ⟨_, _, rfl, rfl⟩
  | punch uid fist =>
      simp only [hold] at hhold
      split_ifs at hhold with hphase hpunched hformat
      cases hhold
      refine ⟨_, _, rfl, ?_⟩
      simp only [queried, Guessing.step, punch]
      rw [if_neg hphase, if_neg hpunched, if_pos hformat]
  | tick random reversed =>
      simp only [hold, holdTick] at hhold
      split_ifs at hhold with htime hflow hend <;> push Not at htime
      · cases hhold
        refine ⟨_, _, rfl, ?_⟩
        have hstep : room.gameStep = .betEnd := hflow.1
        have hsize : room.betData.size ≠ 2 := hflow.2
        simp only [queried, Guessing.step, run, stepFun, beterEnd, hstep]
        rw [if_pos ⟨by simp, htime.1⟩, if_neg htime.2.not_gt, if_pos hsize]
        rfl
      · obtain ⟨room', query, hpiece, hqueried⟩ :=
          @queried_fill { room with gameTime := room.gameTime + 1 } _ _
            room.players.nodup_keys _ hhold
        have hstep : room.gameStep = .punchesEnd := hend
        refine ⟨room', query, hpiece, hqueried.trans ?_⟩
        simp only [Guessing.step, run, stepFun, hstep]
        rw [if_pos ⟨by simp, htime.1⟩, if_neg htime.2.not_gt]
  | answer index balAmt reply =>
      simp only [hold] at hhold
      split at hhold
      · rename_i uid betValue hget
        split_ifs at hhold with hok
        cases hhold
        refine ⟨_, _, rfl, ?_⟩
        simp only [queried, Guessing.step, hget, goOn, bettingFrozen]
        rw [if_pos hok.1, if_pos hok.2]
      · cases hhold
  | leave uid => cases hhold
  | betting uid betValue => cases hhold
  | quitGame uid => cases hhold

/-- **Held or not, a handler does the same.** One that the database answers at once is a step of
`Room`. -/
theorem queried_held (world : World) (event : Guessing.Event) :
    step (step world (.held event)) (.queried world.held.length false) =
      step world (.base event) := by
  cases hhold : hold world.toRoom event with
  | none => simp [step, hhold, World.apply]
  | some piece =>
      obtain ⟨room', query, rfl, hqueried⟩ := queried_hold hhold
      have hheld : (world.held ++ [query]).eraseIdx world.held.length = world.held := by
        rw [List.eraseIdx_append_of_length_le le_rfl, Nat.sub_self]
        exact List.append_nil _
      simp [step, hhold, World.apply, hqueried, hheld]

end Machine

end Stored

end SdyServer.Guessing
