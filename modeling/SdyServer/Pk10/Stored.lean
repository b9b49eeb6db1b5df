import SdyServer.Pk10.Rounds

/-!
# The handlers at the draw cache and at the database

A tick and a reconnection ask the draw cache, and a settlement stores its details one after another
before the round ends. The room goes on in the meantime: with messages, answers and other ticks. A
handler that is answered at once does a step of `Machine`.
-/

namespace SdyServer.Pk10

namespace Stored

section Model

/-- Where a handler waits: `update_cj_data` and `reconn` for the draw cache, and `addResultLog` for
the database, with the details it has not come to. -/
inductive Query where
  | draw
  | number
  | detail (rest : Nat)
deriving DecidableEq, Repr

structure World extends Pk10.World where
  held : List Query := []

/-- `base` is a step of `Machine`. A tick asks the cache, a reconnection asks it, a settlement comes
to its details, the cache answers either of them, the database answers, or the query raises. -/
inductive Event where
  | base (event : Pk10.Event)
  | poll
  | reconn (status : GameStep)
  | held (event : Pk10.Event)
  | drawn (index : Nat) (cj : CjData)
  | numbered (index : Nat) (number : Option Nat)
  | stored (index : Nat)
  | raised (index : Nat)

/-- `addResultLog` from the first of the details that are left to the next answer of the database,
and the end of the settlement. -/
def World.store (world : World) : Nat → World
  | 0 => { world with toWorld := world.toWorld.apply (resultStored world.room) }
  | rest + 1 =>
      if world.room.kjHao = .emptyTable then
        { world with toWorld := world.toWorld.apply (world.room, .raised .badArgument) }
      else { world with held := world.held ++ [.detail rest] }

/-- How many details `core.handleResult` stores. -/
def detailCount (room : Room) : Nat := (room.result.map fun result => result.details.size).getD 0

/-- A settlement up to its details, when they are next: its call is accepted, or it has none. -/
def settled (world : Pk10.World) : Pk10.Event → Option Pk10.World
  | .enter round .result =>
      let room := { world.room with gameStep := .result }
      if world.room.gameStep = .result ∨ room.paidUsers.any room.stopsAt ∨
          resultAccts room ≠ [] then
        none
      else some { world with
        clock := round,
        room := { room with bankerGameCoin := room.newBankerCoin, result := room.settledResult } }
  | .resume index .ok =>
      match world.frames[index]? with
      | some (.result userAccts) =>
          some ({ world with frames := world.frames.eraseIdx index }.book .ok
            (Frame.result userAccts).call)
      | _ => none
  | _ => none

def step (world : World) : Event → World
  | .base event => { world with toWorld := Pk10.step world.toWorld event }
  | .poll =>
      if world.room.gameStep = .kaijiang then { world with held := world.held ++ [.draw] }
      else { world with room := { world.room with isKj := false } }
  | .reconn status =>
      { world with
        room := { world.room with gameStep := status }, held := world.held ++ [.number] }
  | .held event =>
      match settled world.toWorld event with
      | none => { world with toWorld := Pk10.step world.toWorld event }
      | some called => { world with toWorld := called }.store (detailCount called.room)
  | .drawn index cj =>
      match world.held[index]? with
      | some .draw =>
          { toWorld := world.toWorld.drawAnswered cj, held := world.held.eraseIdx index }
      | _ => world
  | .numbered index number =>
      match world.held[index]? with
      | some .number =>
          { world with
            room := { world.room with round := some (number.getD 0) },
            held := world.held.eraseIdx index }
      | _ => world
  | .stored index =>
      match world.held[index]? with
      | some (.detail rest) => { world with held := world.held.eraseIdx index }.store rest
      | _ => world
  | .raised index => { world with held := world.held.eraseIdx index }

def World.fresh (info : RoomInfo) : World := { Pk10.World.fresh info with }

end Model

section Machine

@[simp]
theorem eraseIdx_append (held : List Query) (query : Query) :
    (held ++ [query]).eraseIdx held.length = held := by
  rw [List.eraseIdx_append_of_length_le le_rfl, Nat.sub_self]
  exact List.append_nil _

/-- The cache that answers at once. -/
theorem drawn_poll (world : World) (cj : CjData) :
    step (step world .poll) (.drawn world.held.length cj) = step world (.base (.poll cj)) := by
  by_cases hstep : world.room.gameStep = .kaijiang
  · simp [step, hstep, ← poll_of_kaijiang hstep cj]
  · simp [step, hstep, ← poll_of_ne hstep cj]

theorem numbered_reconn (world : World) (status : GameStep) (number : Option Nat) :
    step (step world (.reconn status)) (.numbered world.held.length number) =
      step world (.base (.reconn status number)) := by
  simp [step, Pk10.step, reconn]

theorem exec_stored_length (world : World) (n : Nat) :
    Run.exec step world (List.replicate n (.stored world.held.length)) = world := by
  induction n with
  | zero => rfl
  | succ n ih =>
      have hstep : step world (.stored world.held.length) = world := by simp [step]
      rw [List.replicate_succ, Run.exec_cons, hstep, ih]

/-- The database that answers at once for each detail. -/
theorem exec_store (world : World) (rest : Nat) :
    Run.exec step (world.store rest) (List.replicate rest (.stored world.held.length)) =
      { world with
        toWorld := world.toWorld.apply
          (if world.room.kjHao = .emptyTable ∧ rest ≠ 0 then (world.room, .raised .badArgument)
          else resultStored world.room) } := by
  induction rest with
  | zero => simp [World.store]
  | succ rest ih =>
      by_cases hkj : world.room.kjHao = .emptyTable
      · rw [World.store, if_pos hkj, if_pos ⟨hkj, rest.succ_ne_zero⟩]
        exact exec_stored_length
          { world with toWorld := world.toWorld.apply (world.room, .raised .badArgument) } _
      · have hstep : step (world.store (rest + 1)) (.stored world.held.length) =
            world.store rest := by
          simp [World.store, hkj, step]
        rw [List.replicate_succ, Run.exec_cons, hstep, ih, if_neg fun h => hkj h.1,
          if_neg fun h => hkj h.1]

theorem apply_resultPaid (world : World) :
    { world with
      toWorld := world.toWorld.apply
        (if world.room.kjHao = .emptyTable ∧ detailCount world.room ≠ 0 then
          (world.room, .raised .badArgument)
        else resultStored world.room) } =
      { world with toWorld := world.toWorld.apply (resultPaid world.room) } := by
  have hdetails : (detailCount world.room ≠ 0) =
      ((world.room.result.any fun result => result.details.size ≠ 0) = true) := by
    unfold detailCount
    cases world.room.result with
    | none => simp
    | some result => simp
  simp only [hdetails, resultPaid]

theorem step_settled {world called : Pk10.World} {event : Pk10.Event}
    (hsettled : settled world event = some called) :
    Pk10.step world event = called.apply (resultPaid called.room) := by
  cases event with
  | enter round status =>
      cases status with
      | result =>
          simp only [settled] at hsettled
          split_ifs at hsettled with hcase
          push Not at hcase
          obtain ⟨hstep, hgoes, hnone⟩ := hcase
          cases hsettled
          have henter : enter world.room .result =
              result { world.room with gameStep := .result } := by
            rw [enter, if_neg hstep]
            rfl
          rw [result_eq_resultPaid hgoes hnone] at henter
          simp only [Pk10.step, henter]
          rfl
      | _ => cases hsettled
  | resume index answer =>
      cases answer with
      | ok =>
          simp only [settled] at hsettled
          split at hsettled
          next userAccts hframe =>
              cases hsettled
              simp only [Pk10.step, hframe]
              rfl
          next => cases hsettled
      | _ => cases hsettled
  | _ => cases hsettled

/-- **Held or not, a settlement does the same.** One whose details are all stored at once is a step
of `Machine`. -/
theorem stored_held (world : World) (event : Pk10.Event) : ∃ n,
    Run.exec step (step world (.held event)) (List.replicate n (.stored world.held.length)) =
      step world (.base event) := by
  cases hsettled : settled world.toWorld event with
  | none => exact ⟨0, by simp [step, hsettled]⟩
  | some called =>
      refine ⟨detailCount called.room, ?_⟩
      have hexec := exec_store { world with toWorld := called } (detailCount called.room)
      rw [apply_resultPaid { world with toWorld := called }] at hexec
      simp only [step, hsettled, step_settled hsettled]
      exact hexec

end Machine

section Statement

def PaysOwnRound (world : World) : Event → Prop
  | .base event | .held event => Pk10.PaysOwnRound world.toWorld event
  | _ => True

/-- The timer goes through the phases, and a reconnection finds the phase the timer is in. The cache
and the database may answer at any time, or never. -/
def Orderly (world : World) : Event → Prop
  | .base event | .held event => Pk10.Orderly world.toWorld event
  | .reconn status => status = world.room.gameStep
  | _ => True

instance decidableOrderly (world : World) : ∀ event, Decidable (Orderly world event)
  | .base event | .held event => Pk10.decidableOrderly world.toWorld event
  | .reconn _ => inferInstanceAs (Decidable (_ = _))
  | .poll | .drawn _ _ | .numbered _ _ | .stored _ | .raised _ => isTrue trivial

end Statement

section Invariant

theorem inv_store {world : World} (hinv : Inv world.toWorld) (rest : Nat) :
    Inv (world.store rest).toWorld := by
  cases rest with
  | zero => exact hinv.apply (outside_resultStored world.room)
  | succ rest =>
      simp only [World.store]
      split_ifs
      · exact hinv.apply (Outside.refl world.room)
      · exact hinv

/-- What a settlement changes before it comes to its details. -/
theorem inv_settled {world called : Pk10.World} {event : Pk10.Event} (hinv : Inv world)
    (hcond : Pk10.Orderly world event) (hsettled : settled world event = some called) :
    Inv called := by
  cases event with
  | enter round status =>
      cases status with
      | result =>
          obtain ⟨hround, -, -, -⟩ := hcond
          simp only [settled] at hsettled
          split_ifs at hsettled
          cases hsettled
          refine ⟨hinv.doors, hinv.totals, fun bet hbet => ?_, hinv.jobs_of_enter hround,
            fun hstep => (by cases hstep), fun hstep => (by cases hstep), hinv.seated⟩
          rcases hround with heq | ⟨-, hnone | ⟨hstart, -⟩⟩
          · exact (hinv.tags bet hbet).trans heq.symm
          · have hnil : world.placed = [] := by
              apply placed_eq_nil
              rw [← hinv.doors]
              exact hnone
            exact absurd (hnil ▸ hbet : bet ∈ []) List.not_mem_nil
          · cases hstart
      | _ => cases hsettled
  | resume index answer =>
      cases answer with
      | ok =>
          simp only [settled] at hsettled
          split at hsettled
          next userAccts hframe =>
              cases hsettled
              exact (hinv.of_frames _ world.log).book .ok _
          next => cases hsettled
      | _ => cases hsettled
  | _ => cases hsettled

theorem inv_step {world : World} {event : Event} (hinv : Inv world.toWorld)
    (hcond : Orderly world event) : Inv (step world event).toWorld := by
  cases event with
  | base event => exact hinv.step hcond
  | poll =>
      simp only [step]
      split_ifs with hstep
      · exact hinv
      · exact poll_of_ne hstep ⟨none, 0⟩ ▸ hinv.poll ⟨none, 0⟩
  | reconn status =>
      have hstatus : status = world.room.gameStep := hcond
      subst hstatus
      exact { hinv with }
  | held event =>
      simp only [step]
      split
      next => exact hinv.step hcond
      next called hsettled => exact inv_store (inv_settled hinv hcond hsettled) _
  | drawn index cj =>
      simp only [step]
      split
      · exact hinv.drawAnswered cj
      · exact hinv
  | numbered index number =>
      simp only [step]
      split
      · exact { hinv with }
      · exact hinv
  | stored index =>
      simp only [step]
      split
      next rest _ =>
          exact @inv_store { world with held := world.held.eraseIdx index } hinv rest
      next => exact hinv
  | raised index => exact hinv

end Invariant

section Runs

/-- A round in which two ticks wait for the draw, and the later one is answered first. -/
def slowRound : List Event :=
  .base (.enter 1 .betStart) :: (twoBets 2 3).map .base ++
    [.base (.enter 1 .waitKaijiang), .base (.enter 1 .kaijiang), .poll, .poll,
      .drawn 1 ⟨some firstDraw, 100⟩, .drawn 0 ⟨some firstDraw, 100⟩, .base (.enter 1 .bipai)]

/-- A second round whose draw does not come: the comparison raises on the empty `g.kj_hao`. -/
def missedDraw : List Event :=
  firstRound.map .base ++ [.base (.enter 1 .result), .base (.resume 0 .ok),
    .base (.enter 2 .betStart)] ++ (twoBets 4 5).map .base ++
    [.base (.enter 2 .waitKaijiang), .base (.enter 2 .kaijiang), .base (.enter 2 .bipai)]

end Runs

end Stored

end SdyServer.Pk10
