import SdyServer.Hongbao.SerialRun

/-!
# The room diamonds

A round costs the room diamonds: they are frozen when it starts and taken or returned when it ends.
A rob freezes them before it has the banker's coins, and a round that is not preceded by a rob
freezes them itself. A rob whose round starts at once does both.
-/

namespace SdyServer.Hongbao

/-- A round is under way from the moment the banker can be challenged until it is settled or called
off. -/
def inRound : GameStep → Bool
  | .none | .result => false
  | _ => true

namespace Desk

variable {F : Faults} {d d' : Desk}

def deposits (d : Desk) : ℤ :=
  match d.frame with
  | some (.robCoin ..) | some (.resultReduce _) | some (.flowReturn _) => 1
  | _ => if inRound d.step then 1 else 0

def Escrowed (d : Desk) : Prop := openEscrow d.log = d.deposits

/-- All calls succeed, no settlement raises, and no rob starts its round at once. -/
def escrowFaults : Faults where
  fail _ := False
  raise := False
  robStart := False

instance (frame : Frame) : Decidable (escrowFaults.fail frame) := inferInstanceAs (Decidable False)

instance : Decidable escrowFaults.raise := inferInstanceAs (Decidable False)

instance : Decidable escrowFaults.robStart := inferInstanceAs (Decidable False)

theorem Idle.inRound_eq (hidle : d.Idle) : inRound d.step = false := by
  rcases hidle with h | h <;> rw [h] <;> rfl

theorem deposits_of_closing {user : Uid} {coin : ℚ} (hclosing : Closing user coin d.frame) :
    d.deposits = if inRound d.step then 1 else 0 := by
  unfold deposits
  cases hframe : d.frame with
  | none => rfl
  | some frame =>
      rw [hframe] at hclosing
      cases hclosing <;> rfl

/-- **Every move keeps the deposits.** -/
theorem Escrowed.move (hesc : d.Escrowed) (hinv : d.Inv) (hmove : Move escrowFaults d d') :
    d'.Escrowed := by
  unfold Escrowed at hesc ⊢
  cases hmove with
  | stay => exact hesc
  | robAsked uid coin hframe hbanker =>
      rw [hesc]
      simp [deposits, hframe]
  | robFrozen uid coin hframe =>
      obtain ⟨hidle, -⟩ := hinv.waits _ hframe
      simp [hesc, deposits, hframe, hidle.inRound_eq, ServiceCall.escrow]
  | robbed uid coin owner hframe =>
      simp [hesc, deposits, hframe, inRound, Frame.call, ServiceCall.escrow]
  | robStarted uid coin owner hfault hframe => exact hfault.elim
  | biaoAsked uid coin hframe hstep hbanker =>
      rw [hesc]
      simp [deposits, hframe]
  | biaoFrozen uid coin owner hframe =>
      simp [hesc, deposits, hframe, Frame.call, ServiceCall.escrow]
  | biaoDone uid coin banker bankerCoin owner hframe =>
      simp [hesc, deposits, hframe, Frame.call, ServiceCall.escrow]
  | topUpAsked uid coin hframe hstep hbanker =>
      rw [hesc]
      simp [deposits, hframe]
  | toppedUp uid coin offsetCoin owner hframe =>
      simp [hesc, deposits, hframe, Frame.call, ServiceCall.escrow]
  | downAsked uid hframe hidle hbanker =>
      rw [hesc]
      simp [deposits, hframe]
  | downed uid coin startFailed owner hframe =>
      obtain ⟨hidle, -⟩ := hinv.waits _ hframe
      have hstep : inRound (if startFailed then GameStep.none else d.step) = false := by
        cases startFailed
        · exact hidle.inRound_eq
        · rfl
      simp [hesc, deposits, hframe, hstep, hidle.inRound_eq, Frame.call, ServiceCall.escrow]
  | failed frame hfault hframe => exact hfault.elim
  | downFailed uid coin hfault hframe => exact hfault.elim
  | startFailed banker hfault hframe hbanker => exact hfault.elim
  | started hframe =>
      obtain ⟨hidle, -⟩ := hinv.waits _ hframe
      have hbet : inRound .bet = true := rfl
      simp [hesc, deposits, hframe, hidle.inRound_eq, hbet, ServiceCall.escrow]
  | opened hframe hstep =>
      rw [hesc]
      simp [deposits, hframe, hstep, inRound]
  | advanced step hframe hstep hclosed =>
      have hsame : inRound step = inRound d.step := by
        revert hstep
        cases d.step <;> cases step <;> simp [follows, inRound]
      rw [hesc]
      simp [deposits, hframe, hsame]
  | dealt keys hframe hstep hnodup hkeys =>
      rw [hesc]
      simp [deposits, hframe, hstep, inRound]
  | queued req hstep hbanker => exact hesc
  | betTried req queue next hfree hreq hnext => exact hesc
  | betFailed bet hbet => exact hesc
  | betDone bet hbet =>
      have hframe := hinv.frame_eq_none (hinv.betting (.inl (by simp [hbet])))
      simp [record, hesc, deposits, hframe, BetCall.call, ServiceCall.escrow]
  | settling settlement coin hframe hstep huser hbatch =>
      rw [hesc]
      simp [deposits, hframe, hstep, inRound]
  | settleRaised hfault hframe hstep => exact hfault.elim
  | reduced settlement hframe =>
      obtain ⟨hstep, -⟩ := hinv.waits _ hframe
      simp [hesc, deposits, hframe, hstep, inRound, ServiceCall.escrow]
  | settled settlement frame hframe hnext =>
      rw [deposits_of_closing hnext]
      simp [hesc, deposits, hframe, ServiceCall.escrow]
  | rewarded user uid reward rest frame log hframe hnext hheld hescrow =>
      rw [deposits_of_closing hnext]
      show openEscrow log = _
      rw [hescrow, hesc]
      simp [deposits, hframe]
  | flowing hframe hstep =>
      rw [hesc]
      simp [deposits, hframe, hstep, inRound]
  | flowReturned user hframe =>
      obtain ⟨hstep, -⟩ := hinv.waits _ hframe
      by_cases haccts : d.flowAccts = [] <;>
        simp [hesc, deposits, hframe, haccts, hstep, inRound, ServiceCall.escrow]
  | flowed user userAccts frame hframe hnext =>
      rw [deposits_of_closing hnext]
      simp [hesc, deposits, hframe, ServiceCall.escrow]
  | roundOver hframe hstep hbanker =>
      rw [hesc]
      simp [deposits, hframe, hstep, inRound]
  | overDown banker hframe hstep hbanker =>
      rw [hesc]
      simp [deposits, hframe]
  | overStart banker hframe hstep hbanker =>
      rw [hesc]
      simp [deposits, hframe]

end Desk

section Runs

theorem fresh_escrowed (info : RoomInfo) : (World.fresh info).desk.Escrowed := rfl

/-- **The room-diamond escrow.** In a serial run in which all calls succeed, no settlement raises
and no rob starts its round at once, exactly one deposit is open while a round is in progress and
none otherwise. -/
theorem escrow_balanced (info : RoomInfo) (events : List Event)
    (halong : Run.Along step (fun w e => Serial w e ∧ Permits Desk.escrowFaults w e)
      (World.fresh info) events)
    (hquiet : (Run.exec step (World.fresh info) events).frames = []) :
    openEscrow (Run.exec step (World.fresh info) events).log =
      if inRound (Run.exec step (World.fresh info) events).room.gameStep then 1 else 0 := by
  obtain ⟨-, hesc⟩ := serial_invariant Desk.escrowFaults fresh_escrowed
    (fun d d' hinv hmove hesc => Desk.Escrowed.move hesc hinv hmove) info events halong
  rw [World.desk_of_idle hquiet] at hesc
  exact hesc

def biaoRun : List Event :=
  [.setBankerType (some 1), .robBanker 1 100, .resume 0 .ok [], .resume 0 .ok [],
    .biaoBanker 2 200, .resume 0 .ok [], .resume 0 .ok []]

theorem escrow_balanced_biaoRun :
    (Run.Along step (fun w e => Serial w e ∧ Permits Desk.escrowFaults w e) (World.fresh {})
      biaoRun ∧ (Run.exec step (World.fresh {}) biaoRun).frames = []) ∧
    openEscrow (Run.exec step (World.fresh {}) biaoRun).log =
      if inRound (Run.exec step (World.fresh {}) biaoRun).room.gameStep then 1 else 0 := by
  have halong : Run.Along step (fun w e => Serial w e ∧ Permits Desk.escrowFaults w e)
      (World.fresh {}) biaoRun := by decide +kernel
  have hquiet : (Run.exec step (World.fresh {}) biaoRun).frames = [] := by decide +kernel
  exact ⟨⟨halong, hquiet⟩, escrow_balanced {} biaoRun halong hquiet⟩

def directRun : List Event :=
  [.setBankerType (some 2), .robBanker 1 100, .resume 0 .ok [], .resume 0 .ok [], .resume 0 .ok []]

/-- The rob has frozen the room diamonds, and so has the start of the round. -/
theorem escrow_not_balanced :
    (Run.exec step (World.fresh {}) directRun).frames = [] ∧
      (Run.exec step (World.fresh {}) directRun).room.gameStep = .bet ∧
      openEscrow (Run.exec step (World.fresh {}) directRun).log = 2 := by
  decide +kernel

end Runs

end SdyServer.Hongbao
