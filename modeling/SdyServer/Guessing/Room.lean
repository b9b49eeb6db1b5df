import SdyServer.User.Account
import SdyServer.Lib.LuaTable
import SdyServer.Lib.Run

/-!
# The guessing room

Two players bet and play rock, paper, scissors for the stake of the loser. Bets, the settlement, a
flow and a player who quits all look at the game, wait for the account service and then act, and the
clients and the timer go on in the meantime. The database answers at once here; in `Stored` it may
take its time.
-/

namespace SdyServer.Guessing

abbrev Uid := CustNo

inductive GameStep where
  | none
  | betStart
  | betEnd
  | punchesStart
  | punchesEnd
  | waitResult
  | result
  | flow
  | gameOver
deriving DecidableEq, Repr

/-- The `fist` of a message: a whole number, the text of one, or anything else. -/
inductive Fist where
  | int (n : Int)
  | numeral (text : String)
  | other (json : String)
deriving DecidableEq, Repr

/-- `string.format` takes the text of a whole number for `%d` as well, and raises for anything
else. -/
def Fist.formats : Fist → Bool
  | .int _ => true
  | .numeral _ => true
  | .other _ => false

inductive OutcomeStatus where
  | tie
  | someoneWin
deriving DecidableEq, Repr

inductive Task where
  | asking (uid : Uid) (betValue : ℚ)
  | freezing (uid : Uid) (betValue : ℚ)
  | resulting
  | flowing
  | quitting
deriving DecidableEq, Repr

/-- `userAccts` are the entries of all calls so far. -/
structure Room where
  gameStep : GameStep := .none
  gameTime : Nat := 0
  limitTime : Nat := 0
  users : LuaTable Uid Unit := ∅
  betData : LuaTable Uid (List ℚ) := ∅
  players : LuaTable Uid Unit := ∅
  punchesData : LuaTable Uid Fist := ∅
  winner : Option Uid := none
  outcomeStatus : Option OutcomeStatus := none
  userAccts : List UserAcct := []
  tasks : List Task := []

def timeGuessingBet : Nat := 60

def timeGuessingPunches : Nat := 30

def timeGuessingWaitResult : Nat := 5

def fistScissors : Fist := .int 1

def fistRock : Fist := .int 2

def fistPaper : Fist := .int 3

section Steps

variable (room : Room)

def Room.setGameStep (gameStep : GameStep) (limitTime : Nat) : Room :=
  { room with gameStep, gameTime := 0, limitTime }

def Room.betStart : Room := room.setGameStep .betStart timeGuessingBet

def Room.betEnd : Room := room.setGameStep .betEnd 0

def Room.punchStart : Room := room.setGameStep .punchesStart timeGuessingPunches

def Room.punchEnd : Room := room.setGameStep .punchesEnd 0

def Room.waitResult : Room := room.setGameStep .waitResult timeGuessingWaitResult

def Room.flowBureau : Room := room.setGameStep .flow timeGuessingWaitResult

def Room.gameOver : Option Nat → Room
  | some limitTime => room.setGameStep .gameOver limitTime
  | none => { room with gameStep := .gameOver }

def Room.call (userAccts : List UserAcct) (task : Task) : Room :=
  { room with userAccts := room.userAccts ++ userAccts, tasks := room.tasks ++ [task] }

end Steps

def userAcct (type : AcctType) (coin : ℚ) (uid : Uid) : UserAcct := ⟨some type, coin, some uid⟩

section Betting

variable (room : Room)

/-- `cmd.betting` and `logic.betting` up to the account of the user. -/
def betting (uid : Uid) (betValue : ℚ) : Room :=
  if room.gameStep ≠ .betStart then room
  else if (room.betData.get uid).isSome then room
  else { room with tasks := room.tasks ++ [.asking uid betValue] }

/-- `betting` once the account is known; one that is not known has no coins. -/
def bettingAsked (uid : Uid) (betValue : ℚ) (balAmt : Option ℚ) : Room :=
  let maxBetValue := balAmt.getD 0
  if betValue < 1 then room
  else if betValue > maxBetValue then room
  else room.call [userAcct .freeze betValue uid] (.freezing uid betValue)

def keepBet (uid : Uid) (betValue : ℚ) : Room :=
  { room with
    betData := room.betData.set uid ((room.betData.get uid).getD [] ++ [betValue]),
    players := room.players.set uid () }

/-- `betting` after `addStepData`. -/
def betStored : Room := if room.betData.size = 2 then room.betEnd else room

/-- `betting` once the coins are frozen. The text of a bet that is not a whole number raises, after
the bet is kept. -/
def bettingFrozen (uid : Uid) (betValue : ℚ) : Room :=
  let room := keepBet room uid betValue
  if betValue.isInt then betStored room else room

end Betting

section Punches

/-- `getGuessingResult` of the first two punches. -/
def getGuessingResult : List (Uid × Fist) → Option Uid × Option OutcomeStatus
  | luser :: ruser :: _ =>
      if (luser.2 = fistScissors ∧ ruser.2 = fistRock) ∨
          (luser.2 = fistRock ∧ ruser.2 = fistPaper) ∨
          (luser.2 = fistPaper ∧ ruser.2 = fistScissors) then
        (some ruser.1, some .someoneWin)
      else if luser.2 = ruser.2 then (none, some .tie)
      else (some luser.1, some .someoneWin)
  | _ => (none, none)

variable (room : Room)

def keepPunch (uid : Uid) (fist : Fist) : Room :=
  { room with punchesData := room.punchesData.set uid fist }

/-- `punch` after `addStepData`. -/
def punchStored : Room := if room.punchesData.size = 2 then room.punchEnd else room

/-- `cmd.punch` and `logic.punch`: a wrong fist is reported and kept. -/
def punch (uid : Uid) (fist : Fist) : Room :=
  if room.gameStep ≠ .betEnd ∧ room.gameStep ≠ .punchesStart then room
  else if (room.punchesData.get uid).isSome then room
  else
    let room := keepPunch room uid fist
    if fist.formats then punchStored room else room

/-- The loop of `punch_end`: the system punches for those of the users who have not punched. -/
def fillPunches (random : Uid → Fin 3) (uids : List Uid) : Room :=
  { room with
    punchesData := (uids.filter fun uid => (room.punchesData.get uid).isNone).foldl
      (fun punchesData uid => punchesData.set uid (.int ((random uid).val + 1))) room.punchesData }

/-- `reversed` says in which order `pairs` goes. -/
def getPunchDataList (reversed : Bool) : List (Uid × Fist) :=
  if reversed then room.punchesData.entries.reverse else room.punchesData.entries

end Punches

section Settlement

variable (room : Room)

/-- The first stake of `uid`, which is the one that all settlements read. -/
def Room.stake (uid : Uid) : Option ℚ := (room.betData.get uid).bind List.head?

def Room.transferCoin : ℚ :=
  match room.betData.entries.find? fun entry => room.winner ≠ some entry.1 with
  | some entry => entry.2.headD 0
  | none => 0

def gameResult : Room :=
  let room : Room := { room with gameStep := .result }
  if room.outcomeStatus = some .tie then { room with punchesData := ∅ }.punchStart
  else
    let returns := room.players.keys.filterMap fun uid =>
      (room.stake uid).map fun coin => userAcct .giveBack coin uid
    let results := room.players.keys.map fun uid =>
      userAcct (if room.winner = some uid then .win else .lose) room.transferCoin uid
    room.call (returns ++ results) .resulting

/-- `game_flow_bureau` after `addStepData`. -/
def flowReturns : Room :=
  let returns := room.betData.entries.filterMap fun entry =>
    entry.2.head?.map fun coin => userAcct .giveBack coin entry.1
  if returns = [] then room.gameOver none else room.call returns .flowing

def gameFlowBureau : Room := flowReturns room.flowBureau

/-- Whether `quit_game` settles. -/
def Room.inPlay : Bool :=
  room.gameStep ≠ .none ∧ room.gameStep ≠ .result ∧ room.gameStep ≠ .gameOver

/-- The user that `quit_game` lets win: the last one that is not the caller. -/
def Room.other (uid : Uid) : Option Uid :=
  (room.users.keys.filter fun other => other ≠ uid).getLast?

/-- What the caller of `quit_game` loses. -/
def Room.quitCoin (uid : Uid) : ℚ := if uid ∈ room.users.keys then (room.stake uid).getD 0 else 0

def quitReturns : List UserAcct :=
  room.users.keys.filterMap fun uid => (room.stake uid).map fun coin => userAcct .giveBack coin uid

def quitResults (uid : Uid) : List UserAcct :=
  match room.other uid with
  | some winner =>
      if 0 < room.quitCoin uid then
        room.users.keys.map fun user =>
          userAcct (if winner = user then .win else .lose) (room.quitCoin uid) user
      else []
  | none => []

def quitGame (uid : Uid) : Room :=
  if room.inPlay then
    let userAccts := quitReturns room ++ quitResults room uid
    if userAccts = [] then room.gameOver (some 5) else room.call userAccts .quitting
  else room.gameOver (some 5)

end Settlement

section Machine

inductive Event where
  | login (uid : Uid) (memberCount : Nat)
  | leave (uid : Uid)
  | betting (uid : Uid) (betValue : ℚ)
  | punch (uid : Uid) (fist : Fist)
  | quitGame (uid : Uid)
  | tick (random : Uid → Fin 3) (reversed : Bool)
  | answer (index : Nat) (balAmt : Option ℚ) (reply : Answer)

variable (room : Room)

def gameStart (memberCount : Nat) : Room :=
  if room.gameStep = .none ∧ memberCount = 2 then room.betStart else room

/-- `_login` and `logic.login`. -/
def login (uid : Uid) (memberCount : Nat) : Room :=
  gameStart { room with users := room.users.set uid () } memberCount

def postLeave (uid : Uid) : Room := { room with users := room.users.erase uid }

def beterEnd : Room := if room.betData.size ≠ 2 then gameFlowBureau room else room.punchStart

/-- With a punch of somebody who is no player it raises. -/
def pushGuessingResult (reversed : Bool) : Room :=
  let punches := getPunchDataList room reversed
  if punches.any fun punch => (room.players.get punch.1).isNone then room
  else
    let (winner, outcomeStatus) := getGuessingResult punches
    let room := { room with winner, outcomeStatus }.waitResult
    if outcomeStatus = some .someoneWin then gameResult room else room

/-- `logic.punch_end`. Without players it raises. -/
def punchesEnd (random : Uid → Fin 3) (reversed : Bool) : Room :=
  if room.players.size = 0 then room
  else pushGuessingResult (fillPunches room random room.players.keys) reversed

def stepFun (random : Uid → Fin 3) (reversed : Bool) : Room :=
  match room.gameStep with
  | .betStart => if room.gameTime < room.limitTime then room else room.betEnd
  | .betEnd => if room.gameTime < 1 then room else beterEnd room
  | .punchesStart => if room.gameTime < room.limitTime then room else room.punchEnd
  | .punchesEnd => if room.gameTime < 1 then room else punchesEnd room random reversed
  | .waitResult => if room.gameTime < room.limitTime then room else gameResult room
  | _ => room

/-- `cmd.run`. It compares the time, and not the step, with `step_guess_game_over`. -/
def run (random : Uid → Fin 3) (reversed : Bool) : Room :=
  let room : Room := { room with gameTime := room.gameTime + 1 }
  if room.gameStep ≠ .none ∧ room.gameTime ≠ 8 then stepFun room random reversed else room

def goOn (balAmt : Option ℚ) (reply : Answer) : Task → Room
  | .asking uid betValue => bettingAsked room uid betValue (if reply = .ok then balAmt else none)
  | .freezing uid betValue => if reply = .ok then bettingFrozen room uid betValue else room
  | .resulting => if reply = .ok then room.gameOver none else room
  | .flowing => if reply = .ok then room.gameOver none else room
  | .quitting => if reply = .ok then room.gameOver (some 5) else room

def step : Event → Room
  | .login uid memberCount => login room uid memberCount
  | .leave uid => postLeave room uid
  | .betting uid betValue => betting room uid betValue
  | .punch uid fist => punch room uid fist
  | .quitGame uid => quitGame room uid
  | .tick random reversed => run room random reversed
  | .answer index balAmt reply =>
      match room.tasks[index]? with
      | some task => goOn { room with tasks := room.tasks.eraseIdx index } balAmt reply task
      | none => room

end Machine

end SdyServer.Guessing
