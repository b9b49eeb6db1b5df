import SdyServer.Hongbao.Failure

/-!
# The handlers at the database

A database call suspends the handler that makes it as well. What a handler still has to do once the
database has answered is a query here, and the room goes on in the meantime: with messages, answers
and ticks. An answer of the account service or a tick whose handler is not held at the database is a
step of `Machine`, in which the database answers at once.
-/

namespace SdyServer.Hongbao

namespace Stored

section Model

/-- Where a handler waits for the database with something left to do: `rob_banker` before it starts
the game, `down_banker` before it clears the banker, `send_packet` for the room's `zhuangxian` and
again before the step goes on, `game_result` at `addResultLog`, before it sets the banker's coins,
and at `handleResult` up to `query_room_info`, `game_flow_bureau` before it returns the bets and at
`query_room_info`. -/
inductive Query where
  | robbed
  | down (startFailed : Bool)
  | zhuangxian
  | sent
  | resultLog (settlement : Settlement)
  | booked (settlement : Settlement)
  | handleResult (user : Uid) (rewards : List (Uid × ℚ))
  | flow (user : Option Uid)
  | flowPaid (user : Uid)
deriving DecidableEq, Repr

inductive Wait where
  | service (frame : Frame)
  | query (query : Query)
deriving DecidableEq, Repr

/-- A room, and what its handler waits for next. -/
abbrev Piece := Room × Option Wait

def piece (slice : Slice) : Piece := (slice.1, slice.2.frame?.map .service)

/-- What a handler does between an accepted call and the database, where it has something left to do
then. -/
def hold (room : Room) : Frame → Option (Room × Query)
  | .robCoin uid coin =>
      some ({ room with
        banker := some uid, bankerGameCoin := coin, bankerSurplusCoin := coin,
        players := some ((room.players.getD []).insert uid) }, .robbed)
  | .down _ _ startFailed => some (room, .down startFailed)
  | .resultCoin settlement => some (room, .booked settlement)
  | .reward user _ _ rest => some (room, .handleResult user rest)
  | .flowReturn user => some (room, .flow user)
  | .flowCoin user _ => some (room, .flowPaid user)
  | _ => none

/-- A step that is due and calls the database before it has done anything else. -/
def holdRun (room : Room) : Option (Room × Query) :=
  match room.gameStep with
  | .send => some (room, .zhuangxian)
  | .waitResult =>
      match settle { room with gameTime := 0, gameStep := .result } with
      | .ok (room, settlement) => some (room, .resultLog settlement)
      | .error _ => none
  | _ => none

/-- The database has answered. `values` are the packets drawn, `rewards` the task rewards that are
granted now. -/
def queried (room : Room) (values : Uid → Option Value) (rewards : List (Uid × ℚ)) : Query → Piece
  | .robbed => piece (gameStart room (room.bankerType ≠ some 2))
  | .down startFailed => piece (downBankerAnswered room startFailed .ok)
  | .zhuangxian =>
      match sendPacket room values with
      | .ok room => (room, if room.banker.any room.isPlayer then some (.query .sent) else none)
      | .error _ => (room, none)
  | .sent => ({ room with gameTime := 0, gameStep := .qiang }, none)
  | .resultLog settlement => (room, some (.service (.resultReduce settlement)))
  | .booked settlement =>
      ({ room with
          bankerGameCoin := settlement.bankerGameCoin,
          bankerSurplusCoin := settlement.bankerGameCoin },
        some (.query (.handleResult settlement.user [])))
  | .handleResult user rest => piece (payRewards room user (rest ++ rewards))
  | .flow user => piece (flowReturnAnswered room user .ok)
  | .flowPaid user => piece (flowCoinAnswered room user .ok)

/-- The room with everything that is under way, and the handlers held at the database. -/
structure World extends Hongbao.World where
  held : List Query := []

/-- `base` is a step of `Machine`. The call at an index is accepted and its handler held, a step is
due and its handler held, the database answers the query at an index, or the query raises. -/
inductive Event where
  | base (event : Hongbao.Event)
  | held (index : Nat)
  | heldTick
  | queried (index : Nat) (values : Uid → Option Value) (rewards : List (Uid × ℚ))
  | raised (index : Nat)

def World.apply (world : World) (piece : Piece) : World :=
  match piece with
  | (room, none) => { world with room }
  | (room, some (.service frame)) => { world with room, frames := world.frames ++ [frame] }
  | (room, some (.query query)) => { world with room, held := world.held ++ [query] }

def step (world : World) : Event → World
  | .base event => { world with toWorld := Hongbao.step world.toWorld event }
  | .held index =>
      match world.frames[index]? with
      | none => world
      | some frame =>
          match hold world.room frame with
          | none => world
          | some (room, query) =>
              { world with
                frames := world.frames.eraseIdx index,
                log := world.log ++ [frame.call world.room.info.gameOwner] }.apply
                  (room, some (.query query))
  | .heldTick =>
      if world.room.due then
        match holdRun { world.room with gameTime := world.room.gameTime + 1 } with
        | none => world
        | some (room, query) => world.apply (room, some (.query query))
      else world
  | .queried index values rewards =>
      match world.held[index]? with
      | none => world
      | some query =>
          { world with held := world.held.eraseIdx index }.apply
            (queried world.room values rewards query)
  | .raised index => { world with held := world.held.eraseIdx index }

end Model

section Machine

/-- **Held or not, a handler does the same.** One that the database answers at once, with the
settlement first setting the banker's coins, goes on as in `Machine`. -/
theorem queried_hold {room room' : Room} {frame : Frame} {query : Query}
    (hhold : hold room frame = some (room', query)) (values : Uid → Option Value)
    (rewards : List (Uid × ℚ)) (hrest : ∀ user uid coin rest, frame = .reward user uid coin rest →
      rewards = []) :
    queried room' values rewards query = piece (resume room .ok rewards frame) ∨
      ∃ settlement booked, query = .booked settlement ∧
        queried room' values rewards query =
          (booked, some (.query (.handleResult settlement.user []))) ∧
        queried booked values rewards (.handleResult settlement.user []) =
          piece (resume room .ok rewards frame) := by
  cases frame with
  | robCoin uid coin =>
      cases hhold
      exact Or.inl rfl
  | down uid coin startFailed =>
      cases hhold
      exact Or.inl rfl
  | resultCoin settlement =>
      cases hhold
      exact Or.inr ⟨settlement, _, rfl, rfl, rfl⟩
  | reward user uid coin rest =>
      cases hhold
      left
      rw [hrest user uid coin rest rfl]
      simp only [queried, List.append_nil]
      rfl
  | flowReturn user =>
      cases hhold
      exact Or.inl rfl
  | flowCoin user userAccts =>
      cases hhold
      exact Or.inl rfl
  | robFreeze uid coin => cases hhold
  | startFreeze => cases hhold
  | biaoFreeze uid coin => cases hhold
  | biaoReturn uid coin banker bankerCoin => cases hhold
  | biaoTopUp uid coin offsetCoin => cases hhold
  | resultReduce settlement => cases hhold

end Machine

end Stored

end SdyServer.Hongbao
