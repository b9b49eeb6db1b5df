import SdyServer.Lib.Run
import SdyServer.Poker.Score

/-!
# The compare step of thirteen cards

The first tick of the step is meant to show the hands, score the round and settle the coins, the
later ones wait for the clients. Between the two loops of the first tick the source reads a global
of the name of a local of the loop, and there is no such global.
-/

namespace SdyServer.Poker

open Daboluo (Uid Dealt CurCards)

/-- A room with the calls of `room_logic.user_update_coin`. -/
structure Game where
  room : Room
  calls : List (Uid × Int) := []

section Step

def andThen (outcome : Game × Lua Unit) (next : Game → Game × Lua Unit) : Game × Lua Unit :=
  match outcome with
  | (game, .ok _) => next game
  | (game, .error e) => (game, .error e)

/-- The reads of `user_data` for one player. A special hand shows the cards of its arrangement. -/
def userData (curCards : CurCards) (dealt : Dealt) : Lua (List Int) := do
  match curCards.spType with
  | none =>
      let _ ← Lua.need .indexNil curCards.cType
      return Daboluo.cardsEncode (← Lua.need .badArgument curCards.cards)
  | some _ => return Daboluo.cardsEncode (dealt.spCards.getD dealt.userCard)

/-- The loop over `g.cards` that shows the hands. -/
def showHands : List (Uid × Dealt) → Game → Game × Lua Unit
  | [], game => (game, .ok ())
  | (k, dealt) :: rest, game =>
      let game := { game with room := { game.room with
        clientTime := game.room.clientTime.map (· + 1) } }
      let shown := do
        let curCards ← Lua.need (.assertion s!"cur_cards == nil:{k}") (game.room.curCards.get k)
        userData curCards dealt
      match shown with
      | .ok _ => showHands rest game
      | .error e => (game, .error e)

/-- The global `cur_cards`, which nothing sets. -/
def globalCurCards : Option CurCards := none

/-- `if cur_cards.left_card then` after the loop. -/
def readLeftCard (game : Game) : Game × Lua Unit :=
  (game, do let _ ← Lua.need .indexNil globalCurCards)

def score (game : Game) : Game × Lua Unit :=
  match calculateScore game.room (game.room.clientTime.getD 0) with
  | .error e => (game, .error e)
  | .ok (scores, clientTime) =>
      match doubleLosers game.room scores with
      | .error e =>
          ({ game with room := { game.room with clientTime, scores := some scores } }, .error e)
      | .ok scores =>
          let clientTime := if scores.allSwat ≠ some (-1) then clientTime + 2 else clientTime
          ({ game with room := { game.room with clientTime, scores := some scores } }, .ok ())

/-- The loop that settles the coins, which every tick that does not wait runs. -/
def settle : List Uid → Game → Game × Lua Unit
  | [], game => (game, .ok ())
  | k :: rest, game =>
      match game.room.scores with
      | none => (game, .error .indexNil)
      | some scores =>
          if 0 < game.room.roomInfo.roomCoin then
            match scores.totals.get k with
            | none => (game, .error .indexNil)
            | some totals =>
                let coin := totals.totalScore * game.room.roomInfo.roomCoin
                if (game.room.users.get k).any fun user => !user.isRobot && !user.forceQuit then
                  settle rest { game with calls := game.calls ++ [(k, coin)] }
                else settle rest game
          else settle rest game

def stepCompare (game : Game) : Game × Lua Unit :=
  match game.room.clientTime with
  | none =>
      let game := { game with room := { game.room with clientTime := some 0 } }
      andThen (andThen (andThen (showHands game.room.cards.entries game) readLeftCard) score)
        fun game => settle game.room.cards.keys game
  | some clientTime =>
      if game.room.gameTime < clientTime then (game, .ok ())
      else
        let game := { game with room := { game.room with
          clientTime := none, gameStep := .over, gameTime := 0 } }
        settle game.room.cards.keys game

/-- A tick of the timer during the compare step, or what the other handlers do to the users
meanwhile. -/
inductive Event where
  | tick
  | users (users : LuaTable Uid User)

structure Timer extends Game where
  errors : List LuaError := []

def step (timer : Timer) : Event → Timer
  | .users users => { timer with room := { timer.room with users } }
  | .tick =>
      let game : Game :=
        { timer.toGame with room := { timer.room with gameTime := timer.room.gameTime + 1 } }
      if game.room.gameStep = .compare then
        match stepCompare game with
        | (game, .ok _) => { timer with toGame := game }
        | (game, .error e) => { toGame := game, errors := timer.errors ++ [e] }
      else { timer with toGame := game }

end Step

section Settlement

/-- The game as `step_deal_card` hands it over. -/
def compareStart (room : Room) : Timer :=
  { room := { room with gameStep := .compare, gameTime := 0, clientTime := none, scores := none } }

/-- The compare step is over, raised nothing, and settled the score of everybody who is not exempt
exactly once. -/
structure SettledOnce (timer : Timer) : Prop where
  finished : timer.room.gameStep = .over
  clean : timer.errors = []
  once : ∀ k ∈ timer.room.cards.keys,
    ((timer.room.users.get k).any fun user => !user.isRobot && !user.forceQuit) = true →
      ∃ scores totals, timer.room.scores = some scores ∧ scores.totals.get k = some totals ∧
        timer.calls.filter (fun call => call.1 = k) =
          [(k, totals.totalScore * timer.room.roomInfo.roomCoin)]

theorem showHands_eq (entries : List (Uid × Dealt)) (game : Game) :
    ∃ clientTime, (showHands entries game).1 =
      { game with room := { game.room with clientTime } } := by
  induction entries generalizing game with
  | nil => exact ⟨game.room.clientTime, rfl⟩
  | cons entry rest ih =>
      obtain ⟨k, dealt⟩ := entry
      unfold showHands
      dsimp only
      split
      · obtain ⟨clientTime, h⟩ := ih { game with room := { game.room with
          clientTime := game.room.clientTime.map (· + 1) } }
        exact ⟨clientTime, h⟩
      · exact ⟨_, rfl⟩

theorem stepCompare_raises {game : Game} (hfirst : game.room.clientTime = none) :
    ∃ e clientTime, stepCompare game =
      ({ game with room := { game.room with clientTime } }, .error e) := by
  unfold stepCompare
  rw [hfirst]
  dsimp only
  obtain ⟨clientTime, h⟩ := showHands_eq game.room.cards.entries
    { game with room := { game.room with clientTime := some 0 } }
  cases hshown : showHands game.room.cards.entries
      { game with room := { game.room with clientTime := some 0 } } with
  | mk shown result =>
      rw [hshown] at h
      dsimp only at h
      subst h
      cases result with
      | error e => exact ⟨e, clientTime, rfl⟩
      | ok u => exact ⟨.indexNil, clientTime, rfl⟩

theorem settle_none (keys : List Uid) {game : Game} (hscores : game.room.scores = none) :
    (settle keys game).1 = game := by
  cases keys with
  | nil => rfl
  | cons k rest => rw [settle, hscores]

theorem stepCompare_wait {game : Game} {clientTime : Nat}
    (hclient : game.room.clientTime = some clientTime)
    (hscores : game.room.scores = none) :
    (stepCompare game).1.room.scores = none ∧ (stepCompare game).1.calls = game.calls := by
  unfold stepCompare
  rw [hclient]
  dsimp only
  split_ifs
  · exact ⟨hscores, rfl⟩
  · rw [settle_none]
    · exact ⟨hscores, rfl⟩
    · exact hscores

/-- The round has no scores and no settlement, and the step is at its first tick or has raised. -/
structure Stuck (timer : Timer) : Prop where
  scores : timer.room.scores = none
  calls : timer.calls = []
  stuck : timer.errors ≠ [] ∨ timer.room.gameStep = .compare ∧ timer.room.clientTime = none

theorem Stuck.tick {timer : Timer} (hstuck : Stuck timer) : Stuck (step timer .tick) := by
  unfold step
  dsimp only
  split_ifs with hcompare
  · generalize hgame : ({ timer.toGame with
      room := { timer.room with gameTime := timer.room.gameTime + 1 } } : Game) = game
    have hscores : game.room.scores = none := hgame ▸ hstuck.scores
    have hcalls : game.calls = [] := hgame ▸ hstuck.calls
    cases hclient : game.room.clientTime with
    | none =>
        obtain ⟨e, clientTime, h⟩ := stepCompare_raises hclient
        rw [h]
        exact ⟨hscores, hcalls, Or.inl (by simp)⟩
    | some clientTime =>
        have herrors : timer.errors ≠ [] := by
          rcases hstuck.stuck with h | ⟨-, h⟩
          · exact h
          · have hclient' : timer.room.clientTime = some clientTime := by
              rw [← hclient, ← hgame]
            rw [h] at hclient'
            cases hclient'
        obtain ⟨hscores', hcalls'⟩ := stepCompare_wait hclient hscores
        rw [hcalls] at hcalls'
        cases hresult : stepCompare game with
        | mk game' result =>
            rw [hresult] at hscores' hcalls'
            cases result with
            | ok u => exact ⟨hscores', hcalls', Or.inl herrors⟩
            | error e => exact ⟨hscores', hcalls', Or.inl (by simp)⟩
  · exact ⟨hstuck.scores, hstuck.calls, hstuck.stuck⟩

theorem Stuck.step {timer : Timer} (hstuck : Stuck timer) (event : Event) :
    Stuck (Poker.step timer event) := by
  cases event with
  | tick => exact hstuck.tick
  | users users => exact ⟨hstuck.scores, hstuck.calls, hstuck.stuck⟩

theorem stuck_exec (room : Room) (events : List Event) :
    Stuck (Run.exec Poker.step (compareStart room) events) :=
  Run.invariant (fun (timer : Timer) event (h : Stuck timer) _ => h.step event) events _
    ⟨rfl, rfl, Or.inr ⟨rfl, rfl⟩⟩ (Run.Along.of_forall (fun _ _ => trivial) events _)

theorem Stuck.not_settledOnce {timer : Timer} (hstuck : Stuck timer) : ¬SettledOnce timer := by
  intro hsettled
  rcases hstuck.stuck with herrors | ⟨hcompare, -⟩
  · exact herrors hsettled.clean
  · have hover := hsettled.finished
    rw [hcompare] at hover
    cases hover

/-- **No round is settled.** The compare step raises in its first tick, and coins are never
updated. -/
theorem never_settledOnce (room : Room) (events : List Event) :
    ¬SettledOnce (Run.exec Poker.step (compareStart room) events) ∧
      (Run.exec Poker.step (compareStart room) events).calls = [] :=
  ⟨(stuck_exec room events).not_settledOnce, (stuck_exec room events).calls⟩

/-- Two players for 10 coins a point, one with a straight of all cards. -/
def specialRoom : Room where
  roomInfo := { minCount := 2, roomCoin := 10 }
  users := ⟨[(1, { id := 1, seat := some 1 }), (2, { id := 2, seat := some 2 })], by decide⟩
  seat := ⟨[(1, 1), (2, 2)], by decide⟩
  cards := ⟨[(1, ⟨[], some 12, none, 1⟩), (2, ⟨[], some 1, none, 2⟩)], by decide⟩
  curCards := ⟨[(1, { spType := some 12 }), (2, { spType := some 1 })], by decide⟩

theorem not_settledOnce_specialRoom :
    ¬SettledOnce (Run.exec Poker.step (compareStart specialRoom) [.tick, .tick, .tick]) := by
  have herrors : (Run.exec Poker.step (compareStart specialRoom) [.tick, .tick, .tick]).errors =
      [.indexNil, .indexNil] := by
    decide
  intro hsettled
  rw [hsettled.clean] at herrors
  cases herrors

end Settlement

end SdyServer.Poker
