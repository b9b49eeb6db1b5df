import SdyServer.Hongbao.Ledger

/-!
# Bets and packets

Bets are recorded only while betting is open, and the packets are dealt to the banker and to those
who have bet. Both rest on the bets being through when betting closes: a bet looks at the step when
it arrives, not when its coins are frozen.
-/

namespace SdyServer.Hongbao

namespace Desk

variable {F : Faults} {d d' : Desk}

def anyFaults : Faults where
  fail _ := True
  raise := True
  robStart := True

theorem Move.records_closed (hmove : Move F d d') (hinv : d.Inv) (hstep : d.step ≠ .bet) :
    (d'.bets = d.bets ∧ d'.totals = d.totals) ∨ (d'.bets = ∅ ∧ d'.totals = ∅) := by
  cases hmove with
  | betDone bet hbet => exact absurd (hinv.betting (.inl (by simp [hbet]))) hstep
  | started | opened | roundOver | overDown | overStart => exact .inr ⟨rfl, rfl⟩
  | _ => exact .inl ⟨rfl, rfl⟩

theorem Inv.packets_settled (hinv : d.Inv) (hstep : d.step = .waitResult) :
    ∃ keys, d.packets = some keys ∧ (∀ uid ∈ d.totals.keys, uid ∈ keys) ∧
      keys.length = d.totals.keys.length + 1 := by
  have hopen : betsOpen d.step = true := by rw [hstep]; rfl
  obtain ⟨keys, hpackets, hnodup, hkeys⟩ := hinv.dealt (.inr hstep)
  obtain ⟨banker, hbanker⟩ := hinv.banker_isSome (by simp [Idle, hstep])
  refine ⟨keys, hpackets, fun uid huid => (hkeys uid).mpr (.inr huid), ?_⟩
  have hnot : banker ∉ d.totals.keys := by
    rw [hinv.totals hopen]
    exact fun h => hinv.bettors hopen banker h hbanker
  have hperm : keys.Perm (banker :: d.totals.keys) := by
    rw [List.perm_ext_iff_of_nodup hnodup (List.nodup_cons.mpr ⟨hnot, d.totals.nodup_keys⟩)]
    intro uid
    rw [hkeys uid, hbanker, List.mem_cons, Option.some.injEq, eq_comm]
  exact hperm.length_eq

end Desk

section Runs

theorem permits_any (world : World) (event : Event) : Permits Desk.anyFaults world event := by
  cases event with
  | resume index answer rewards => exact fun frame _ => ⟨fun _ => trivial, fun _ _ => trivial⟩
  | tick values => exact fun _ _ _ => trivial
  | _ => trivial

theorem serial_sound (info : RoomInfo) (events : List Event)
    (halong : Run.Along step Serial (World.fresh info) events) :
    (Run.exec step (World.fresh info) events).Sound := by
  have hkeeps : ∀ w e, w.Sound → Serial w e → (step w e).Sound := by
    intro w e hsound hserial
    obtain ⟨htidy, hmove⟩ := step_move hsound.tidy hsound.inv hserial (permits_any w e)
    exact ⟨htidy, hsound.inv.move hmove⟩
  obtain ⟨htidy, hinv⟩ := World.fresh_inv info
  exact Run.invariant hkeeps events (World.fresh info) ⟨htidy, hinv⟩ halong

/-- The entries of `g.bet_data` and of `g.total_bet_data`. -/
def Room.bettors (room : Room) : List (Uid × List Bet) := (room.betData.getD ∅).entries

def Room.totals (room : Room) : List (Uid × List TotalBet) := (room.totalBetData.getD ∅).entries

/-- **Bets close with betting.** In a serial run, an event outside of the betting step adds no
entry, and when the round comes to be settled everyone with a record has a packet, with one more for
the banker. -/
theorem bets_closed (info : RoomInfo) (events : List Event) (event : Event)
    (halong : Run.Along step Serial (World.fresh info) (events ++ [event])) :
    ((Run.exec step (World.fresh info) events).room.gameStep ≠ .bet →
      (∀ entry ∈ (Run.exec step (World.fresh info) (events ++ [event])).room.bettors,
        entry ∈ (Run.exec step (World.fresh info) events).room.bettors) ∧
      ∀ entry ∈ (Run.exec step (World.fresh info) (events ++ [event])).room.totals,
        entry ∈ (Run.exec step (World.fresh info) events).room.totals) ∧
    ((Run.exec step (World.fresh info) events).room.gameStep = .waitResult →
      ∃ packets, (Run.exec step (World.fresh info) events).room.packets = some packets ∧
        (∀ entry ∈ (Run.exec step (World.fresh info) events).room.totals,
          entry.1 ∈ packets.keys) ∧
        packets.size = (Run.exec step (World.fresh info) events).room.totals.length + 1) := by
  have hsound := serial_sound info events halong.of_append
  have hserial := halong.last
  rw [Run.exec_append]
  generalize Run.exec step (World.fresh info) events = world at *
  obtain ⟨-, hmove⟩ := step_move hsound.tidy hsound.inv hserial (permits_any world event)
  constructor
  · intro hstep
    have hrecords := hmove.records_closed hsound.inv hstep
    show (∀ entry ∈ (step world event).desk.bets.entries, entry ∈ world.desk.bets.entries) ∧
      ∀ entry ∈ (step world event).desk.totals.entries, entry ∈ world.desk.totals.entries
    rcases hrecords with ⟨hbets, htotals⟩ | ⟨hbets, htotals⟩ <;> simp [hbets, htotals]
  · intro hstep
    obtain ⟨keys, hpackets, hmem, hlength⟩ := hsound.inv.packets_settled hstep
    obtain ⟨packets, hsome, rfl⟩ := Option.map_eq_some_iff.mp hpackets
    refine ⟨packets, hsome, fun entry hentry => hmem entry.1 (List.mem_map_of_mem hentry), ?_⟩
    rw [LuaTable.length_keys, LuaTable.length_keys] at hlength
    exact hlength

def roundRun : List Event :=
  [.setBankerType (some 1), .robBanker 1 100000, .resume 0 .ok [], .resume 0 .ok []] ++
    countDown 11 ++
    (List.range 5).flatMap (fun u => [.betting (u + 2) ⟨some 2, none, some 10⟩, .resumeBet .ok]) ++
    countDown 116

theorem bets_closed_roundRun :
    Run.Along step Serial (World.fresh {}) (roundRun ++ countDown 1) ∧
      (Run.exec step (World.fresh {}) roundRun).room.gameStep = .waitResult ∧
      ∃ packets, (Run.exec step (World.fresh {}) roundRun).room.packets = some packets ∧
        (∀ entry ∈ (Run.exec step (World.fresh {}) roundRun).room.totals,
          entry.1 ∈ packets.keys) ∧
        packets.size = (Run.exec step (World.fresh {}) roundRun).room.totals.length + 1 := by
  have halong : Run.Along step Serial (World.fresh {}) (roundRun ++ countDown 1) := by
    decide +kernel
  have hstep : (Run.exec step (World.fresh {}) roundRun).room.gameStep = .waitResult := by
    decide +kernel
  exact ⟨halong, hstep, (bets_closed {} roundRun _ halong).2 hstep⟩

/-- Five bets are through and a sixth waits for its coins while betting closes, the packets are
dealt and taken. -/
def lateRun : List Event :=
  [.setBankerType (some 1), .robBanker 1 100000, .resume 0 .ok [], .resume 0 .ok []] ++
    countDown 11 ++
    (List.range 5).flatMap (fun u => [.betting (u + 2) ⟨some 2, none, some 10⟩, .resumeBet .ok]) ++
    [.betting 7 ⟨some 2, none, some 10⟩] ++ countDown 76

/-- The sixth bet is recorded in the step in which packets are taken, has none itself, and there are
as many packets as bettors when the round comes to be settled. -/
theorem bets_not_closed :
    ((Run.exec step (World.fresh {}) lateRun).room.gameStep = .qiang ∧
      7 ∉ (Run.exec step (World.fresh {}) lateRun).room.totals.map Prod.fst ∧
      7 ∈ (Run.exec step (World.fresh {}) (lateRun ++ [.resumeBet .ok])).room.totals.map
        Prod.fst) ∧
    ((Run.exec step (World.fresh {}) (lateRun ++ [.resumeBet .ok] ++
        countDown 21)).room.gameStep = .waitResult ∧
      7 ∉ ((Run.exec step (World.fresh {}) (lateRun ++ [.resumeBet .ok] ++
        countDown 21)).room.packets.getD ∅).keys ∧
      ((Run.exec step (World.fresh {}) (lateRun ++ [.resumeBet .ok] ++
        countDown 21)).room.packets.getD ∅).size =
        (Run.exec step (World.fresh {}) (lateRun ++ [.resumeBet .ok] ++
          countDown 21)).room.totals.length) := by
  decide +kernel

end Runs

end SdyServer.Hongbao
