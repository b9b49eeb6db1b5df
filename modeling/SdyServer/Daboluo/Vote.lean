import Mathlib.Data.List.Perm.Subperm
import Mathlib.Data.List.ReduceOption
import Mathlib.Data.List.TakeWhile
import SdyServer.Daboluo.RealUsers

/-!
# Votes on leaving

The loops of a vote go through the seats from the first one on and end at a seat that is free. They
see every seated user as long as no seat is free below one that is taken.
-/

namespace SdyServer.Daboluo

/-- The room was closed with the votes of all, or the votes of all were cleared. -/
def VoteEnd.Fair : VoteEnd → Prop
  | .closed agreed => agreed = true
  | .cleared all => all = true

instance : DecidablePred VoteEnd.Fair
  | .closed agreed => inferInstanceAs (Decidable (agreed = true))
  | .cleared all => inferInstanceAs (Decidable (all = true))

namespace Agent

variable {agent agent' : Agent}

section Statement

/-- The seats from 1 up to the number of users that are seated are all taken, by users there are. -/
def inRow (agent : Agent) : Bool :=
  ((List.range agent.seat.size).all fun (i : Nat) => (agent.seat.get ((i : ℚ) + 1)).isSome) &&
    agent.seat.entries.all fun entry => (agent.users.get entry.2).isSome

/-- Whether `cmd.quit_room` calls a vote. -/
def callsVote (agent : Agent) (ref : Ref) : Bool :=
  agent.isPrivate && decide (agent.askQuitTime = 0 ∧
    (agent.gameStep ≠ .none ∨ agent.round > 0) ∧ (agent.member ref).seat ≠ none)

/-- What a vote needs: whenever it is called, voted in or runs out, the seats are taken in a row. -/
def voteReady (agent : Agent) : Event → Bool
  | .agreeQuit _ _ => agent.askQuitTime = 0 || agent.inRow
  | .quitRoom fd => (agent.conns.get fd).all fun ref => !agent.callsVote ref || agent.inRow
  | .tick => agent.askQuitTime ≠ 1 || agent.inRow
  | _ => true

end Statement

section Row

theorem mem_seatRow (hrow : agent.inRow = true) {s : ℚ} {id : Id}
    (hs : agent.seat.get s = some id) :
    id ∈ agent.seatRow := by
  have htaken : ∀ i < agent.seat.size, (agent.seat.get ((i : ℚ) + 1)).isSome = true := by
    intro i hi
    unfold inRow at hrow
    rw [Bool.and_eq_true, List.all_eq_true] at hrow
    exact hrow.1 i (List.mem_range.mpr hi)
  -- As many seats are taken as there are numbers in the row, so that no other one is.
  have hnumber : ∃ i : Nat, i < agent.seat.size ∧ s = (i : ℚ) + 1 := by
    let numbers := (List.range agent.seat.size).map fun (i : Nat) => (i : ℚ) + 1
    have hnodup : numbers.Nodup := by
      apply List.Nodup.map _ List.nodup_range
      intro i j hij
      simpa using hij
    have hsub : numbers ⊆ agent.seat.keys := by
      intro number hnumber
      obtain ⟨i, hi, rfl⟩ := List.mem_map.mp hnumber
      exact (LuaTable.mem_keys_iff _).mpr
        (Option.isSome_iff_exists.mp (htaken i (List.mem_range.mp hi)))
    have hperm := (hnodup.subperm hsub).perm_of_length_le (by simp [numbers, LuaTable.length_keys])
    have hmem : s ∈ numbers := hperm.mem_iff.mpr ((LuaTable.mem_keys_iff _).mpr ⟨id, hs⟩)
    obtain ⟨i, hi, rfl⟩ := List.mem_map.mp hmem
    exact ⟨i, List.mem_range.mp hi, rfl⟩
  obtain ⟨i, hi, rfl⟩ := hnumber
  have hall : ((List.range agent.seat.size).map fun (i : Nat) =>
      agent.seat.get ((i : ℚ) + 1)).takeWhile Option.isSome =
      (List.range agent.seat.size).map fun (i : Nat) => agent.seat.get ((i : ℚ) + 1) := by
    rw [List.takeWhile_eq_self_iff]
    intro o ho
    obtain ⟨j, hj, rfl⟩ := List.mem_map.mp ho
    exact htaken j (List.mem_range.mp hj)
  unfold seatRow
  rw [hall, List.reduceOption_mem_iff, List.mem_map]
  exact ⟨i, List.mem_range.mpr hi, hs⟩

theorem user_of_seat (hrow : agent.inRow = true) {s : ℚ} {id : Id}
    (hs : agent.seat.get s = some id) :
    ∃ ref, agent.users.get id = some ref := by
  unfold inRow at hrow
  rw [Bool.and_eq_true, List.all_eq_true, List.all_eq_true] at hrow
  exact Option.isSome_iff_exists.mp (hrow.2 (s, id) ((LuaTable.get_eq_some_iff _).mp hs))

theorem allSeated_of {p : Member → Bool}
    (h : ∀ s id, agent.seat.get s = some id →
      ∃ ref, agent.users.get id = some ref ∧ p (agent.member ref) = true) :
    agent.allSeated p = true := by
  unfold allSeated
  rw [List.all_eq_true]
  intro entry hentry
  obtain ⟨ref, href, hp⟩ := h entry.1 entry.2 ((LuaTable.get_eq_some_iff _).mpr hentry)
  rw [href]
  exact hp

theorem allSeated_of_count (hrow : agent.inRow = true)
    (hcount : ((agent.seatRow.filterMap agent.users.get).map agent.member).countP Member.agreeQuit ≥
      ((agent.seatRow.filterMap agent.users.get).map agent.member).length) :
    agent.allSeated Member.agreeQuit = true := by
  have hall := List.countP_eq_length.mp (le_antisymm List.countP_le_length hcount)
  apply allSeated_of
  intro s id hs
  obtain ⟨ref, href⟩ := user_of_seat hrow hs
  refine ⟨ref, href, hall _ (List.mem_map.mpr ⟨ref, ?_, rfl⟩)⟩
  exact List.mem_filterMap.mpr ⟨id, mem_seatRow hrow hs, href⟩

theorem seat_of_mem_seatRow {id : Id} (hid : id ∈ agent.seatRow) :
    ∃ s, agent.seat.get s = some id := by
  unfold seatRow at hid
  rw [List.reduceOption_mem_iff] at hid
  obtain ⟨i, -, hi⟩ := List.mem_map.mp ((List.takeWhile_prefix _).subset hid)
  exact ⟨_, hi⟩

theorem clearVotes_votes (hrow : agent.inRow = true) :
    agent.clearVotes.votes = agent.votes ++ [.cleared true] := by
  have hseated : (agent.seatRow.takeWhile fun id => (agent.users.get id).isSome) =
      agent.seatRow := by
    rw [List.takeWhile_eq_self_iff]
    intro id hid
    obtain ⟨s, hs⟩ := seat_of_mem_seatRow hid
    exact Option.isSome_iff_exists.mpr (user_of_seat hrow hs)
  unfold clearVotes
  dsimp only
  congr 3
  apply allSeated_of
  intro s id hs
  obtain ⟨ref, href⟩ := user_of_seat hrow hs
  refine ⟨ref, href, ?_⟩
  have hany : (agent.seatRow.any fun id => decide (agent.users.get id = some ref)) = true :=
    List.any_eq_true.mpr ⟨id, mem_seatRow hrow hs, by simpa using href⟩
  dsimp only
  rw [hseated, hany]
  simp

end Row

section Steps

def VotesFair (agent : Agent) : Prop := ∀ vote ∈ agent.votes, vote.Fair

theorem VotesFair.append (hfair : agent.VotesFair) {vote : VoteEnd}
    (hvotes : agent'.votes = agent.votes ++ [vote]) (hvote : vote.Fair) : agent'.VotesFair := by
  intro v hv
  rw [hvotes] at hv
  rcases List.mem_append.mp hv with hv | hv
  · exact hfair v hv
  · rw [List.mem_singleton.mp hv]
    exact hvote

theorem VotesFair.of_eq (hfair : agent.VotesFair) (hvotes : agent'.votes = agent.votes) :
    agent'.VotesFair := by
  unfold VotesFair
  rw [hvotes]
  exact hfair

theorem inRow_congr (hseat : agent'.seat = agent.seat) (husers : agent'.users = agent.users) :
    agent'.inRow = agent.inRow := by
  unfold inRow
  rw [hseat, husers]

theorem seat_agreeQuit (agent : Agent) (ref : Ref) (status : Bool) :
    (agent.agreeQuit ref status).seat = agent.seat := by
  unfold agreeQuit
  dsimp only
  split_ifs <;> rfl

theorem VotesFair.agreeQuit (hfair : agent.VotesFair) (ref : Ref) (status : Bool)
    (hready : agent.askQuitTime = 0 ∨ agent.inRow = true) :
    (agent.agreeQuit ref status).VotesFair := by
  unfold Agent.agreeQuit
  dsimp only
  split_ifs with hask hstatus hraises hcount
  · exact hfair
  · exact hfair.of_eq rfl
  · have hrow : inRow (agent.modify ref fun user => { user with agreeQuit := true }) = true :=
      hready.resolve_left hask
    exact hfair.append rfl (allSeated_of_count hrow hcount)
  · exact hfair.of_eq rfl
  · exact hfair.append (clearVotes_votes (hready.resolve_left hask)) rfl

theorem VotesFair.askQuit (hfair : agent.VotesFair) (ref : Ref) (entries : List (Id × Ref))
    (hrow : agent.inRow = true) : (agent.askQuit ref entries).VotesFair := by
  induction entries generalizing agent with
  | nil => exact hfair.of_eq rfl
  | cons entry rest ih =>
      have hagreed := hfair.agreeQuit entry.2 true (Or.inr hrow)
      have hrow' : (agent.agreeQuit entry.2 true).inRow = true := by
        rw [inRow_congr (seat_agreeQuit ..) (Quiet.agreeQuit ..).users]
        exact hrow
      unfold Agent.askQuit
      dsimp only
      split_ifs
      · exact hagreed
      · exact ih hagreed hrow'
      · exact ih hfair hrow

theorem votes_someoneStand (agent : Agent) (ref : Ref) :
    (agent.someoneStand ref).votes = agent.votes := by
  unfold someoneStand
  split <;> rfl

theorem votes_takeSeat (agent : Agent) (ref : Ref) : (agent.takeSeat ref).votes = agent.votes := by
  unfold takeSeat
  split_ifs
  · rfl
  · split <;> rfl

theorem votes_postLeave (agent : Agent) (ref : Ref) :
    (agent.postLeave ref).votes = agent.votes := by
  have hclear : (agent.clearUser ref).votes = agent.votes := by
    unfold clearUser
    split_ifs
    · rfl
    · rw [votes_someoneStand]
      rfl
  have hleave : ((agent.clearUser ref).leaveAgent ref).votes = (agent.clearUser ref).votes := by
    unfold leaveAgent
    split_ifs <;> rfl
  rw [← hclear, ← hleave]
  unfold postLeave clearConn
  split <;> rfl

theorem votes_login (agent : Agent) (fd : Fd) (id : Id) (n : Nat) :
    (agent.login fd id n).votes = agent.votes := by
  have henter : (agent.enter id (.number n)).1.votes = agent.votes := by
    unfold enter
    split <;> rfl
  unfold login
  dsimp only
  split_ifs
  · show (takeSeat _ _).votes = _
    rw [votes_takeSeat]
    exact henter
  · rw [votes_takeSeat]
    exact henter

theorem VotesFair.quitRoom (hfair : agent.VotesFair) {ref : Ref}
    (hready : agent.callsVote ref = true → agent.inRow = true) :
    (agent.quitRoom ref).VotesFair := by
  unfold Agent.quitRoom
  split_ifs with hprivate hasked hvote
  · exact hfair
  · have hrow : agent.inRow = true := by
      apply hready
      unfold callsVote
      rw [hprivate, Bool.true_and, decide_eq_true_eq]
      exact ⟨by omega, hvote⟩
    have hasks : VotesFair { agent with askQuitTime := askTime } := hfair
    exact hasks.askQuit ref _ hrow
  · exact hfair.of_eq (votes_postLeave agent ref)
  · exact hfair
  · exact hfair.of_eq (votes_postLeave agent ref)

theorem VotesFair.step (hfair : agent.VotesFair) {event : Event}
    (hready : agent.voteReady event = true) : (agent.step event).VotesFair := by
  cases event with
  | login fd id n => exact hfair.of_eq (votes_login agent fd id n)
  | addRobot n => exact hfair.of_eq (votes_takeSeat ..)
  | sit fd seatid =>
      refine ofConn_keeps hfair fun ref _ => hfair.of_eq ?_
      unfold Agent.sit
      split_ifs <;> rfl
  | tryStand fd =>
      refine ofConn_keeps hfair fun ref _ => hfair.of_eq ?_
      unfold Agent.tryStand
      split_ifs
      · rfl
      · exact votes_someoneStand agent ref
  | stand fd => exact ofConn_keeps hfair fun ref _ => hfair.of_eq (votes_someoneStand agent ref)
  | disconnect fd =>
      apply hfair.of_eq
      simp only [Agent.step, Agent.disconnect]
      split
      · rfl
      · split_ifs
        · rfl
        · rw [votes_postLeave]
  | quitRoom fd =>
      refine ofConn_keeps hfair fun ref hget => hfair.quitRoom fun hcalls => ?_
      simpa [voteReady, hget, hcalls] using hready
  | agreeQuit fd status =>
      refine ofConn_keeps hfair fun ref _ => hfair.agreeQuit ref status ?_
      simpa [voteReady] using hready
  | leave id =>
      apply hfair.of_eq
      simp only [Agent.step, Agent.leave]
      split
      · rfl
      · exact votes_postLeave agent _
  | gameOver => exact hfair
  | advance gameStep round cards => exact hfair
  | tick =>
      have hcleared : agent.askQuitTime = 1 → agent.clearVotes.VotesFair := by
        intro hone
        refine hfair.append (clearVotes_votes ?_) rfl
        simpa [voteReady, hone] using hready
      simp only [Agent.step, Agent.tick]
      split_ifs with hnone hone hraises
      · exact hfair
      · exact hcleared hone
      · exact (hcleared hone).of_eq rfl
      · exact hfair

end Steps

section Runs

/-- **Votes are unanimous.** In a run in which the seats are taken in a row at every vote, a vote
closes the room only when every seated user has agreed, and when it is refused or runs out the votes
of all of them are cleared. -/
theorem votes_fair (minCount : Nat) (isPrivate : Bool) (events : List Event)
    (halong : Run.Along step (fun agent event => agent.voteReady event = true)
      { minCount, isPrivate } events) :
    ∀ vote ∈ (Run.exec step { minCount, isPrivate } events).votes, vote.Fair := by
  have hstart : VotesFair { minCount, isPrivate } := fun vote hvote => absurd hvote List.not_mem_nil
  exact Run.invariant (fun agent event (hfair : VotesFair agent) hready => hfair.step hready) events
    _ hstart halong

/-- Two users play; a vote is refused by the second, and another one is agreed to by both. -/
def agreedVote : List Event :=
  [.login 1 (.text 10) 10, .login 2 (.text 20) 20, .advance .skip 1 [], .quitRoom 1,
    .agreeQuit 2 false, .quitRoom 1, .agreeQuit 2 true]

theorem votes_fair_agreedVote :
    Run.Along step (fun agent event => agent.voteReady event = true)
        { minCount := 3, isPrivate := true } agreedVote ∧
      ∀ vote ∈ (Run.exec step { minCount := 3, isPrivate := true } agreedVote).votes,
          vote.Fair := by
  have halong : Run.Along step (fun agent event => agent.voteReady event = true)
      { minCount := 3, isPrivate := true } agreedVote := by decide +kernel
  exact ⟨halong, votes_fair 3 true agreedVote halong⟩

/-- The first of three users has stood up; the second calls a vote, and his own one closes the
room. -/
def emptyFirstSeat : List Event :=
  [.login 1 (.text 10) 10, .login 2 (.text 20) 20, .login 3 (.text 30) 30, .advance .skip 1 [],
    .stand 1, .quitRoom 2]

/-- The second of three users has stood up; the third refuses the vote that the first has called,
and the votes behind the free seat stay. -/
def emptySecondSeat : List Event :=
  [.login 1 (.text 10) 10, .login 2 (.text 20) 20, .login 3 (.text 30) 30, .advance .skip 1 [],
    .quitRoom 3, .stand 2, .agreeQuit 1 false]

theorem votes_not_fair :
    (Run.exec step { minCount := 3, isPrivate := true } emptyFirstSeat).votes = [.closed false] ∧
      (Run.exec step { minCount := 3, isPrivate := true } emptySecondSeat).votes =
          [.cleared false] := by
  decide +kernel

end Runs

end Agent

end SdyServer.Daboluo
