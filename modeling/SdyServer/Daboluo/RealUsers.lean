import Mathlib.Algebra.BigOperators.Group.List.Basic
import SdyServer.Daboluo.SeatMap

/-!
# The count of the players

`g.real_user` counts the connections that are not a robot's. A login counts one up. A lost
connection counts one down, and so does a user who leaves, so that the count is right only where a
connection that is lost leaves its user in the room, and where whoever leaves is still connected.
-/

namespace SdyServer.Daboluo.Agent

variable {agent agent' : Agent}

section Statement

def connected (agent : Agent) : Nat :=
  agent.conns.entries.countP fun entry => !(agent.member entry.2).isRobot

def RealCount (agent : Agent) : Prop :=
  agent.realUser = agent.connected ∧ 0 ≤ agent.realUser

instance (agent : Agent) : Decidable agent.RealCount :=
  inferInstanceAs (Decidable (_ ∧ _))

def isReal (agent : Agent) (fd : Fd) : Bool :=
  (agent.conns.get fd).any fun ref => !(agent.member ref).isRobot

/-- Whether a user who leaves takes one real connection with him, or none if he is a robot. -/
def leavesOne (agent : Agent) (ref : Ref) : Bool :=
  (agent.member ref).fd.any agent.isReal != (agent.member ref).isRobot

/-- The loop of a login that shows the seats gets past the seat of the user himself. -/
def showsSelf (agent : Agent) (id : Id) (n : Nat) : Bool :=
  match agent.users.get id with
  | some ref => (agent.member ref).seat.isSome ||
      agent.seat.entries.all fun entry => entry.2 ≠ (agent.member ref).id
  | none => agent.seat.entries.all fun entry => entry.2 ≠ .number n

/-- Whether `cmd.quit_room` makes the user leave. -/
def quits (agent : Agent) (ref : Ref) : Bool :=
  if agent.isPrivate then
    decide (agent.askQuitTime = 0 ∧
      ¬((agent.gameStep ≠ .none ∨ agent.round > 0) ∧ (agent.member ref).seat ≠ none))
  else decide (¬(agent.gameStep = .dealCard ∧ (agent.member ref).seat ≠ none))

/-- What the count needs: a login brings a new connection of a user who is no robot and gets past
the seats, a lost connection is that of a user who stays, and who leaves is still connected. -/
def counted (agent : Agent) : Event → Bool
  | .login fd id n => !agent.isReal fd &&
      (agent.users.get id).all (fun ref => !(agent.member ref).isRobot) &&
      agent.seat.entries.all agent.showsSeat && agent.showsSelf id n
  | .addRobot n => !agent.isReal (-n)
  | .disconnect fd => (agent.conns.get fd).any fun ref => !(agent.member ref).isRobot &&
      (decide ((agent.member ref).seat ≠ none ∧
        (agent.isPrivate = true ∨ agent.gameStep ≠ .none)) ||
        (agent.member ref).fd.any fun fd' => fd' ≠ fd && agent.isReal fd')
  | .quitRoom fd => (agent.conns.get fd).all fun ref => !agent.quits ref || agent.leavesOne ref
  | .leave id => (agent.users.get id).all agent.leavesOne
  | _ => true

end Statement

section Frame

structure Quiet (agent agent' : Agent) : Prop where
  conns : agent'.conns = agent.conns
  users : agent'.users = agent.users
  realUser : agent'.realUser = agent.realUser
  fresh : agent'.fresh = agent.fresh
  isRobot : ∀ ref, (agent'.member ref).isRobot = (agent.member ref).isRobot

theorem Quiet.refl (agent : Agent) : Quiet agent agent := ⟨rfl, rfl, rfl, rfl, fun _ => rfl⟩

theorem Quiet.trans {agent'' : Agent} (h : Quiet agent agent') (h' : Quiet agent' agent'') :
    Quiet agent agent'' :=
  ⟨h'.conns.trans h.conns, h'.users.trans h.users, h'.realUser.trans h.realUser,
    h'.fresh.trans h.fresh, fun ref => (h'.isRobot ref).trans (h.isRobot ref)⟩

theorem Quiet.modify (agent : Agent) (ref : Ref) {f : Member → Member}
    (hf : ∀ user, (f user).isRobot = user.isRobot) : Quiet agent (agent.modify ref f) := by
  refine ⟨rfl, rfl, rfl, rfl, fun ref' => ?_⟩
  rw [member_modify]
  split_ifs with href
  · subst href
    exact hf _
  · rfl

theorem Quiet.someoneSit (agent : Agent) (seat : ℚ) (ref : Ref) :
    Quiet agent (agent.someoneSit seat ref) := by
  obtain ⟨hconns, husers, hreal, hfresh, hrobot⟩ :=
    Quiet.modify { agent with seat := agent.seat.set seat (agent.member ref).id } ref
      (f := fun user => { user with seat := some seat }) fun _ => rfl
  exact ⟨hconns, husers, hreal, hfresh, hrobot⟩

theorem Quiet.someoneStand (agent : Agent) (ref : Ref) : Quiet agent (agent.someoneStand ref) := by
  unfold Agent.someoneStand
  split
  · exact Quiet.refl agent
  · next seat _ =>
      obtain ⟨hconns, husers, hreal, hfresh, hrobot⟩ :=
        Quiet.modify { agent with seat := agent.seat.erase seat } ref
          (f := fun user => { user with seat := none }) fun _ => rfl
      exact ⟨hconns, husers, hreal, hfresh, hrobot⟩

theorem Quiet.takeSeat (agent : Agent) (ref : Ref) : Quiet agent (agent.takeSeat ref) := by
  unfold Agent.takeSeat
  split_ifs
  · exact Quiet.refl agent
  · split
    · exact Quiet.someoneSit agent _ ref
    · exact Quiet.refl agent

theorem Quiet.clearVotes (agent : Agent) : Quiet agent agent.clearVotes :=
  ⟨rfl, rfl, rfl, rfl, fun _ => rfl⟩

theorem Quiet.agreeQuit (agent : Agent) (ref : Ref) (status : Bool) :
    Quiet agent (agent.agreeQuit ref status) := by
  have hagreed := Quiet.modify agent ref (f := fun user => { user with agreeQuit := true })
    fun _ => rfl
  unfold Agent.agreeQuit
  dsimp only
  split_ifs
  · exact Quiet.refl agent
  · exact hagreed
  · exact hagreed.trans ⟨rfl, rfl, rfl, rfl, fun _ => rfl⟩
  · exact hagreed
  · exact Quiet.clearVotes agent

theorem Quiet.askQuit (agent : Agent) (ref : Ref) (entries : List (Id × Ref)) :
    Quiet agent (agent.askQuit ref entries) := by
  induction entries generalizing agent with
  | nil => exact Quiet.modify agent ref fun _ => rfl
  | cons entry rest ih =>
      unfold Agent.askQuit
      dsimp only
      split_ifs
      · exact Quiet.agreeQuit agent entry.2 true
      · exact (Quiet.agreeQuit agent entry.2 true).trans (ih _)
      · exact ih agent

end Frame

section Counting

def weight (agent : Agent) (ref : Ref) : Int := if (agent.member ref).isRobot then 0 else 1

def weightAt (agent : Agent) (fd : Fd) : Int := ((agent.conns.get fd).map agent.weight).getD 0

theorem weightAt_eq (agent : Agent) (fd : Fd) :
    agent.weightAt fd = if agent.isReal fd then 1 else 0 := by
  unfold weightAt isReal
  cases agent.conns.get fd with
  | none => rfl
  | some ref =>
      by_cases hrobot : (agent.member ref).isRobot = true <;> simp [weight, hrobot]

theorem connected_eq_sum (agent : Agent) :
    (agent.connected : Int) = (agent.conns.entries.map fun entry => agent.weight entry.2).sum := by
  unfold connected weight
  induction agent.conns.entries with
  | nil => rfl
  | cons entry rest ih =>
      rw [List.countP_cons, List.map_cons, List.sum_cons, ← ih]
      cases (agent.member entry.2).isRobot
      · simp [add_comm]
      · simp

structure RealInv (agent : Agent) : Prop where
  count : agent.realUser = agent.connected
  conns : ∀ fd ref, agent.conns.get fd = some ref → ref < agent.fresh
  users : ∀ id ref, agent.users.get id = some ref → ref < agent.fresh

theorem RealInv.quiet (hinv : RealInv agent) (hquiet : Quiet agent agent') : RealInv agent' where
  count := by
    rw [hquiet.realUser, hinv.count]
    unfold connected
    rw [hquiet.conns]
    simp only [hquiet.isRobot]
  conns := by
    intro fd ref href
    rw [hquiet.conns] at href
    rw [hquiet.fresh]
    exact hinv.conns fd ref href
  users := by
    intro id ref href
    rw [hquiet.users] at href
    rw [hquiet.fresh]
    exact hinv.users id ref href

theorem RealInv.start (minCount : Nat) (isPrivate : Bool) : RealInv { minCount, isPrivate } :=
  ⟨rfl, by simp, by simp⟩

theorem connected_erase {fd : Fd} (hconns : agent'.conns = agent.conns.erase fd)
    (hrobot : ∀ ref, (agent'.member ref).isRobot = (agent.member ref).isRobot) :
    (agent'.connected : Int) = agent.connected - agent.weightAt fd := by
  have hweight : agent'.weight = agent.weight := by
    funext ref
    unfold weight
    rw [hrobot]
  rw [connected_eq_sum, connected_eq_sum, hconns, hweight, LuaTable.sum_entries_erase]
  rfl

theorem connected_set {fd : Fd} {ref : Ref} (hconns : agent'.conns = agent.conns.set fd ref)
    (hrobot : ∀ fd' ref', agent.conns.get fd' = some ref' →
      (agent'.member ref').isRobot = (agent.member ref').isRobot) :
    (agent'.connected : Int) = agent.connected - agent.weightAt fd + agent'.weight ref := by
  have hsame : (agent.conns.entries.map fun entry => agent'.weight entry.2) =
      agent.conns.entries.map fun entry => agent.weight entry.2 := by
    apply List.map_congr_left
    intro entry hentry
    unfold weight
    rw [hrobot entry.1 entry.2 ((LuaTable.get_eq_some_iff _).mpr hentry)]
  have hat : ((agent.conns.get fd).map fun ref => agent'.weight ref).getD 0 =
      agent.weightAt fd := by
    unfold weightAt
    cases hget : agent.conns.get fd with
    | none => rfl
    | some ref' =>
        simp only [Option.map_some, Option.getD_some, weight]
        rw [hrobot fd ref' hget]
  rw [connected_eq_sum, connected_eq_sum, hconns, LuaTable.sum_entries_set, hsame, hat]

/-- The first part of `logic.post_leave` leaves the connections and the count alone. -/
theorem clearUser_spec (agent : Agent) (ref : Ref) :
    (agent.clearUser ref).conns = agent.conns ∧ (agent.clearUser ref).realUser = agent.realUser ∧
    (agent.clearUser ref).fresh = agent.fresh ∧
    (∀ ref', ((agent.clearUser ref).member ref').isRobot = (agent.member ref').isRobot ∧
      ((agent.clearUser ref).member ref').fd = (agent.member ref').fd) ∧
    ∀ id ref', (agent.clearUser ref).users.get id = some ref' → agent.users.get id = some ref' := by
  unfold Agent.clearUser
  split_ifs
  · refine ⟨rfl, rfl, rfl, fun ref' => ?_, fun id ref' href' => href'⟩
    rw [member_modify]
    split_ifs with href
    · subst href
      exact ⟨rfl, rfl⟩
    · exact ⟨rfl, rfl⟩
  · have hstood := Quiet.someoneStand ({ agent with
        users := agent.users.erase (agent.member ref).id.tonumber }.modify ref
          fun user => { user with id := user.id.tonumber }) ref
    refine ⟨hstood.conns, hstood.realUser, hstood.fresh, fun ref' => ?_, fun id ref' href' => ?_⟩
    · simp only [member_someoneStand, member_modify]
      split_ifs with href
      · subst href
        exact ⟨rfl, rfl⟩
      · exact ⟨rfl, rfl⟩
    · rw [hstood.users, users_modify, LuaTable.get_erase] at href'
      split_ifs at href'
      exact href'

theorem leaveAgent_spec (agent : Agent) (ref : Ref) :
    (agent.leaveAgent ref).conns = agent.conns ∧
    (agent.leaveAgent ref).realUser = agent.realUser - agent.weight ref ∧
    (agent.leaveAgent ref).fresh = agent.fresh ∧
    (∀ ref', ((agent.leaveAgent ref).member ref').isRobot = (agent.member ref').isRobot ∧
      ((agent.leaveAgent ref).member ref').fd = (agent.member ref').fd) ∧
    (agent.leaveAgent ref).users = agent.users := by
  unfold Agent.leaveAgent weight
  split_ifs
  · exact ⟨rfl, (sub_zero _).symm, rfl, fun _ => ⟨rfl, rfl⟩, rfl⟩
  · refine ⟨rfl, rfl, rfl, fun ref' => ?_, rfl⟩
    rw [member_modify]
    split_ifs with href
    · subst href
      exact ⟨rfl, rfl⟩
    · exact ⟨rfl, rfl⟩

theorem postLeave_spec (agent : Agent) (ref : Ref) :
    (agent.postLeave ref).conns = (match (agent.member ref).fd with
      | none => agent.conns
      | some fd => agent.conns.erase fd) ∧
    (agent.postLeave ref).realUser = agent.realUser - agent.weight ref ∧
    (agent.postLeave ref).fresh = agent.fresh ∧
    (∀ ref', ((agent.postLeave ref).member ref').isRobot = (agent.member ref').isRobot) ∧
    ∀ id ref', (agent.postLeave ref).users.get id = some ref' → agent.users.get id = some ref' := by
  obtain ⟨hconns, hreal, hfresh, hmember, husers⟩ := clearUser_spec agent ref
  obtain ⟨hconns', hreal', hfresh', hmember', husers'⟩ := leaveAgent_spec (agent.clearUser ref) ref
  have hweight : (agent.clearUser ref).weight ref = agent.weight ref := by
    unfold weight
    rw [(hmember ref).1]
  have hfd : (((agent.clearUser ref).leaveAgent ref).member ref).fd = (agent.member ref).fd :=
    (hmember' ref).2.trans (hmember ref).2
  have hrobot : ∀ ref', (((agent.clearUser ref).leaveAgent ref).member ref').isRobot =
      (agent.member ref').isRobot := fun ref' => (hmember' ref').1.trans (hmember ref').1
  have hknown : ∀ id ref', ((agent.clearUser ref).leaveAgent ref).users.get id = some ref' →
      agent.users.get id = some ref' := by
    intro id ref' href'
    rw [husers'] at href'
    exact husers id ref' href'
  rw [hreal, hweight] at hreal'
  unfold Agent.postLeave Agent.clearConn
  rw [hfd]
  cases (agent.member ref).fd with
  | none => exact ⟨hconns'.trans hconns, hreal', hfresh'.trans hfresh, hrobot, hknown⟩
  | some fd =>
      have hquiet := Quiet.modify { (agent.clearUser ref).leaveAgent ref with
        conns := ((agent.clearUser ref).leaveAgent ref).conns.erase fd } ref
        (f := fun user => { user with fd := none }) fun _ => rfl
      refine ⟨?_, hreal', hfresh'.trans hfresh, fun ref' => ?_, hknown⟩
      · exact congrArg (LuaTable.erase · fd) (hconns'.trans hconns)
      · exact (hquiet.isRobot ref').trans (hrobot ref')

theorem RealInv.postLeave (hinv : RealInv agent) {ref : Ref}
    (hleaves : agent.leavesOne ref = true) :
    RealInv (agent.postLeave ref) := by
  obtain ⟨hconns, hreal, hfresh, hrobot, husers⟩ := postLeave_spec agent ref
  have hknown : ∀ id ref', (agent.postLeave ref).users.get id = some ref' →
      ref' < (agent.postLeave ref).fresh := by
    intro id ref' href'
    rw [hfresh]
    exact hinv.users id ref' (husers id ref' href')
  unfold leavesOne at hleaves
  cases hfd : (agent.member ref).fd with
  | none =>
      rw [hfd] at hconns hleaves
      have hself : (agent.member ref).isRobot = true := by simpa using hleaves
      refine ⟨?_, ?_, hknown⟩
      · rw [hreal, hinv.count, weight, if_pos hself, sub_zero]
        unfold connected
        rw [hconns]
        simp only [hrobot]
      · intro fd ref' href'
        rw [hconns] at href'
        rw [hfresh]
        exact hinv.conns fd ref' href'
  | some fd =>
      rw [hfd] at hconns hleaves
      refine ⟨?_, ?_, hknown⟩
      · -- The connection that goes counts what the user counts.
        have hweight : agent.weightAt fd = agent.weight ref := by
          rw [weightAt_eq, weight]
          simp only [Option.any_some, bne_iff_ne, ne_eq] at hleaves
          cases hrob : (agent.member ref).isRobot <;> cases hr : agent.isReal fd <;> simp_all
        rw [hreal, hinv.count, connected_erase hconns hrobot, hweight]
      · intro fd' ref' href'
        rw [hconns, LuaTable.get_erase] at href'
        split_ifs at href'
        rw [hfresh]
        exact hinv.conns fd' ref' href'

theorem RealInv.disconnect (hinv : RealInv agent) {fd : Fd}
    (hcounted : agent.counted (.disconnect fd) = true) : RealInv (agent.disconnect fd) := by
  simp only [counted] at hcounted
  cases hget : agent.conns.get fd with
  | none =>
      rw [hget] at hcounted
      cases hcounted
  | some ref =>
      rw [hget] at hcounted
      simp only [Option.any_some, Bool.and_eq_true, Bool.not_eq_true', Bool.or_eq_true,
        decide_eq_true_eq] at hcounted
      obtain ⟨hreal, hstay⟩ := hcounted
      have hone : agent.weightAt fd = 1 := by simp [weightAt, hget, weight, hreal]
      have hcount : (connected { agent with
          conns := agent.conns.erase fd, realUser := max (agent.realUser - 1) 0 } : Int) =
          agent.connected - agent.weightAt fd := connected_erase rfl fun _ => rfl
      have hclosed : RealInv { agent with
          conns := agent.conns.erase fd, realUser := max (agent.realUser - 1) 0 } := by
        refine ⟨?_, ?_, hinv.users⟩
        · rw [hcount, hone]
          have hcount' := hinv.count
          have hnonneg : (0 : Int) ≤ agent.connected - 1 := by
            rw [← hone, ← hcount]
            exact Int.natCast_nonneg _
          simp only [hcount']
          exact max_eq_left hnonneg
        · intro fd' ref' href'
          rw [LuaTable.get_erase] at href'
          split_ifs at href'
          exact hinv.conns fd' ref' href'
      unfold Agent.disconnect
      rw [hget]
      dsimp only
      by_cases hseated : (agent.member ref).seat ≠ none ∧
          (agent.isPrivate = true ∨ agent.gameStep ≠ .none)
      · rw [if_pos hseated]
        exact hclosed.quiet (Quiet.modify _ ref fun _ => rfl)
      · rw [if_neg hseated]
        -- The object has another connection, which goes with it.
        rcases hstay with hstay | hother
        · exact absurd hstay hseated
        · refine hclosed.postLeave ?_
          unfold leavesOne
          dsimp only
          cases hfd : (agent.member ref).fd with
          | none =>
              rw [hfd] at hother
              cases hother
          | some fd' =>
              rw [hfd] at hother
              simp only [Option.any_some, Bool.and_eq_true, decide_eq_true_eq] at hother
              have hreal' : isReal { agent with
                  conns := agent.conns.erase fd, realUser := max (agent.realUser - 1) 0 } fd' =
                  true := by
                unfold isReal
                rw [LuaTable.get_erase, if_neg (Ne.symm hother.1)]
                exact hother.2
              simp [hreal', hreal]

theorem RealInv.open (hinv : RealInv agent) {fd : Fd} {ref : Ref}
    (hconns : agent'.conns = agent.conns.set fd ref) (hreal : agent.isReal fd = false)
    (hrobot : ∀ ref', ref' < agent.fresh →
      (agent'.member ref').isRobot = (agent.member ref').isRobot)
    (hcount : agent'.realUser = agent.realUser + agent'.weight ref)
    (hfresh : agent.fresh ≤ agent'.fresh) (href : ref < agent'.fresh)
    (husers : ∀ id ref', agent'.users.get id = some ref' → ref' < agent'.fresh) :
    RealInv agent' where
  count := by
    have hopen := connected_set hconns fun fd' ref' href' => hrobot ref' (hinv.conns fd' ref' href')
    rw [weightAt_eq, hreal] at hopen
    simp only [Bool.false_eq_true, if_false, sub_zero] at hopen
    rw [hopen, hcount, hinv.count]
  conns := by
    intro fd' ref' href'
    rw [hconns, LuaTable.get_set] at href'
    split_ifs at href'
    · cases href'
      exact href
    · exact lt_of_lt_of_le (hinv.conns fd' ref' href') hfresh
  users := husers

def Shown (agent : Agent) : Prop :=
  ∀ s id, agent.seat.get s = some id → agent.showsSeat (s, id) = true

theorem shown_iff : agent.Shown ↔ agent.seat.entries.all agent.showsSeat = true := by
  rw [List.all_eq_true]
  constructor
  · intro hshown entry hentry
    exact hshown entry.1 entry.2 ((LuaTable.get_eq_some_iff _).mpr hentry)
  · intro hall s id hs
    exact hall (s, id) ((LuaTable.get_eq_some_iff _).mp hs)

theorem showsSeat_iff {s : ℚ} {id : Id} : agent.showsSeat (s, id) = true ↔
    ∃ ref, agent.users.get id = some ref ∧ (agent.member ref).seat.isSome = true := by
  unfold showsSeat
  cases agent.users.get id <;> simp

theorem Shown.takeSeat (hshown : agent.Shown) {ref : Ref}
    (hown : agent.users.get (agent.member ref).id = some ref) : (agent.takeSeat ref).Shown := by
  unfold Agent.takeSeat
  split_ifs
  · exact hshown
  · split
    · next seat _ =>
        have hmember : ∀ ref', (agent.someoneSit seat ref).member ref' =
            if ref' = ref then { agent.member ref with seat := some seat } else agent.member ref' :=
          fun ref' => member_modify ..
        intro s id hs
        have hs' : (agent.seat.set seat (agent.member ref).id).get s = some id := hs
        rw [LuaTable.get_set] at hs'
        rw [showsSeat_iff]
        split_ifs at hs' with hsame
        · cases hs'
          exact ⟨ref, hown, by rw [hmember, if_pos rfl]; rfl⟩
        · obtain ⟨ref', href', hseat⟩ := showsSeat_iff.mp (hshown s id hs')
          refine ⟨ref', href', ?_⟩
          rw [hmember]
          split_ifs
          · rfl
          · exact hseat
    · exact hshown

/-- The users after `_login`, and the object with its seat. -/
theorem Shown.register (hshown : agent.Shown) {fd : Fd} {ref : Ref} {user : Member}
    (hmember : ∀ ref', agent'.member ref' = if ref' = ref then user else agent.member ref')
    (hseat : agent'.seat = agent.seat) (husers : agent'.users = agent.users)
    (hnew : ∀ id, agent.users.get id = some ref → user.seat = (agent.member ref).seat)
    (hself : user.seat.isSome = true ∨ ∀ s, agent.seat.get s ≠ some user.id) :
    (agent'.register fd ref).Shown := by
  intro s id hs
  have hs' : agent.seat.get s = some id := by rw [← hseat]; exact hs
  have hget : (agent'.register fd ref).users.get id =
      if user.id = id then some ref else agent.users.get id := by
    unfold Agent.register
    rw [hmember, if_pos rfl, husers, LuaTable.get_set]
  have hkeep : ∀ ref', (agent'.register fd ref).member ref' = agent'.member ref' := fun _ => rfl
  rw [showsSeat_iff, hget]
  split_ifs with hid
  · refine ⟨ref, rfl, ?_⟩
    rw [hkeep, hmember, if_pos rfl]
    rcases hself with hsome | hnone
    · exact hsome
    · exact absurd (hid ▸ hs') (hnone s)
  · obtain ⟨ref', href', hsome⟩ := showsSeat_iff.mp (hshown s id hs')
    refine ⟨ref', href', ?_⟩
    rw [hkeep, hmember]
    split_ifs with hsame
    · subst hsame
      rw [hnew id href']
      exact hsome
    · exact hsome

/-- What `cmd.login` does up to the count, for the object `ref`. -/
theorem RealInv.login_of (hinv : RealInv agent) {fd : Fd} {ref : Ref} {user : Member}
    (hreal : agent.isReal fd = false) (hshown : agent.Shown)
    (hmember : ∀ ref', agent'.member ref' = if ref' = ref then user else agent.member ref')
    (hsame : agent'.conns = agent.conns ∧ agent'.seat = agent.seat ∧ agent'.users = agent.users ∧
      agent'.realUser = agent.realUser)
    (hfresh : agent.fresh ≤ agent'.fresh) (href : ref < agent'.fresh)
    (hrobot : user.isRobot = false)
    (hold : ref < agent.fresh → (agent.member ref).isRobot = false)
    (hnew : ∀ id, agent.users.get id = some ref → user.seat = (agent.member ref).seat)
    (hself : user.seat.isSome = true ∨ ∀ s, agent.seat.get s ≠ some user.id) :
    RealInv (if ((agent'.register fd ref).takeSeat ref).seat.entries.all
        ((agent'.register fd ref).takeSeat ref).showsSeat then
      { (agent'.register fd ref).takeSeat ref with
        realUser := ((agent'.register fd ref).takeSeat ref).realUser + 1 }
    else (agent'.register fd ref).takeSeat ref) := by
  obtain ⟨hconns, hseat, husers, hcount⟩ := hsame
  have hown : (agent'.register fd ref).users.get ((agent'.register fd ref).member ref).id =
      some ref := LuaTable.get_set_self ..
  have hquiet := Quiet.takeSeat (agent'.register fd ref) ref
  have hconns' : ((agent'.register fd ref).takeSeat ref).conns = agent.conns.set fd ref := by
    rw [hquiet.conns, ← hconns]
    rfl
  have hrobot' : ∀ ref', (((agent'.register fd ref).takeSeat ref).member ref').isRobot =
      if ref' = ref then false else (agent.member ref').isRobot := by
    intro ref'
    rw [hquiet.isRobot]
    show (agent'.member ref').isRobot = _
    rw [hmember]
    split_ifs
    · exact hrobot
    · rfl
  rw [if_pos]
  · refine hinv.open hconns' hreal (fun ref' hlt => ?_) ?_ ?_ ?_ fun id ref' href' => ?_
    · rw [hrobot']
      split_ifs with hsame
      · subst hsame
        exact (hold hlt).symm
      · rfl
    · have hone : weight { (agent'.register fd ref).takeSeat ref with
          realUser := ((agent'.register fd ref).takeSeat ref).realUser + 1 } ref = 1 := by
        unfold weight
        rw [hrobot', if_pos rfl]
        rfl
      rw [hone]
      show ((agent'.register fd ref).takeSeat ref).realUser + 1 = _
      rw [hquiet.realUser, ← hcount]
      rfl
    · show _ ≤ ((agent'.register fd ref).takeSeat ref).fresh
      rw [hquiet.fresh]
      exact hfresh
    · show _ < ((agent'.register fd ref).takeSeat ref).fresh
      rw [hquiet.fresh]
      exact href
    · have href'' : (agent'.users.set (agent'.member ref).id ref).get id = some ref' := by
        have husers' := hquiet.users
        rw [← href']
        exact congrArg (LuaTable.get · id) husers'.symm
      show _ < ((agent'.register fd ref).takeSeat ref).fresh
      rw [hquiet.fresh]
      rw [LuaTable.get_set, husers] at href''
      split_ifs at href''
      · cases href''
        exact href
      · exact lt_of_lt_of_le (hinv.users id ref' href'') hfresh
  · exact shown_iff.mp ((hshown.register hmember hseat husers hnew hself).takeSeat hown)

theorem forall_ne_of_all {id : Id}
    (hall : (agent.seat.entries.all fun entry => entry.2 ≠ id) = true)
    (s : ℚ) : agent.seat.get s ≠ some id := by
  intro hs
  have hne := List.all_eq_true.mp hall (s, id) ((LuaTable.get_eq_some_iff _).mp hs)
  simp at hne

theorem RealInv.login (hinv : RealInv agent) {fd : Fd} {id : Id} {n : Nat}
    (hcounted : agent.counted (.login fd id n) = true) : RealInv (agent.login fd id n) := by
  simp only [counted, Bool.and_eq_true, Bool.not_eq_true'] at hcounted
  obtain ⟨⟨⟨hreal, hrobot⟩, hshown⟩, hself⟩ := hcounted
  rw [← shown_iff] at hshown
  unfold showsSelf at hself
  unfold Agent.login Agent.enter
  cases hget : agent.users.get id with
  | some ref =>
      rw [hget] at hrobot hself
      have hplain : (agent.member ref).isRobot = false := by simpa using hrobot
      refine hinv.login_of hreal hshown (fun ref' => member_modify ..) ⟨rfl, rfl, rfl, rfl⟩ le_rfl
        (hinv.users id ref hget) hplain (fun _ => hplain) (fun _ _ => rfl) ?_
      simp only [Bool.or_eq_true] at hself
      exact hself.imp (fun h => h) forall_ne_of_all
  | none =>
      rw [hget] at hself
      have hmember : ∀ ref', (({ agent with fresh := agent.fresh + 1 }.modify agent.fresh
          fun _ => { id := .number n }).modify agent.fresh
            fun user => { user with fd := some fd, offline := false }).member ref' =
          if ref' = agent.fresh then { id := .number n, fd := some fd } else agent.member ref' := by
        intro ref'
        simp only [member_modify]
        split_ifs <;> rfl
      exact hinv.login_of hreal hshown hmember ⟨rfl, rfl, rfl, rfl⟩ (Nat.le_succ _)
        (Nat.lt_succ_self _) rfl (fun hlt => absurd hlt (lt_irrefl _))
        (fun id' hid' => absurd (hinv.users id' _ hid') (lt_irrefl _))
        (Or.inr (forall_ne_of_all hself))

theorem RealInv.addRobot (hinv : RealInv agent) {n : Nat}
    (hcounted : agent.counted (.addRobot n) = true) : RealInv (agent.addRobot n) := by
  have hreal : agent.isReal (-n) = false := by simpa [counted] using hcounted
  unfold Agent.addRobot
  dsimp only
  generalize hnew : ({ agent with
    fresh := agent.fresh + 1, robotUser := agent.robotUser + 1 }.modify agent.fresh
      fun _ => { id := .number n, fd := some (-n), isRobot := true }).register (-n) agent.fresh =
        new
  have hmember : ∀ ref', new.member ref' = if ref' = agent.fresh then
      { id := .number n, fd := some (-n), isRobot := true } else agent.member ref' := by
    intro ref'
    rw [← hnew]
    simp only [Agent.register, member_modify]
  have hopen : RealInv new := by
    refine hinv.open (by rw [← hnew]; rfl) hreal (fun ref' hlt => ?_) ?_ ?_ ?_
      fun id ref' href' => ?_
    · rw [hmember, if_neg (ne_of_lt hlt)]
    · have hzero : new.weight agent.fresh = 0 := by simp [weight, hmember]
      rw [hzero, ← hnew]
      exact (add_zero _).symm
    · rw [← hnew]
      exact Nat.le_succ _
    · rw [← hnew]
      exact Nat.lt_succ_self _
    · have hfresh : new.fresh = agent.fresh + 1 := by rw [← hnew]; rfl
      have husers : new.users = agent.users.set (new.member agent.fresh).id agent.fresh := by
        rw [← hnew]
        rfl
      rw [hfresh]
      rw [husers, LuaTable.get_set] at href'
      split_ifs at href'
      · cases href'
        exact Nat.lt_succ_self _
      · exact Nat.lt_succ_of_lt (hinv.users id ref' href')
  exact hopen.quiet (Quiet.takeSeat new agent.fresh)

theorem RealInv.quitRoom (hinv : RealInv agent) {ref : Ref}
    (hleaves : agent.quits ref = true → agent.leavesOne ref = true) :
    RealInv (agent.quitRoom ref) := by
  unfold quits at hleaves
  unfold Agent.quitRoom
  split_ifs at hleaves ⊢ with hprivate hasked hvote hplaying
  · exact hinv
  · have hquiet := Quiet.askQuit { agent with askQuitTime := askTime } ref agent.users.entries
    exact hinv.quiet ⟨hquiet.conns, hquiet.users, hquiet.realUser, hquiet.fresh, hquiet.isRobot⟩
  · refine hinv.postLeave (hleaves ?_)
    rw [decide_eq_true_eq]
    exact ⟨by omega, hvote⟩
  · exact hinv
  · exact hinv.postLeave (hleaves (decide_eq_true hplaying))

theorem RealInv.step (hinv : RealInv agent) {event : Event}
    (hcounted : agent.counted event = true) :
    RealInv (agent.step event) := by
  cases event with
  | login fd id n => exact hinv.login hcounted
  | addRobot n => exact hinv.addRobot hcounted
  | sit fd seatid =>
      refine ofConn_keeps hinv fun ref _ => ?_
      unfold Agent.sit
      split_ifs
      · exact hinv
      · exact hinv
      · exact hinv.quiet (Quiet.someoneSit agent seatid ref)
  | tryStand fd =>
      refine ofConn_keeps hinv fun ref _ => ?_
      unfold Agent.tryStand
      split_ifs
      · exact hinv
      · exact hinv.quiet (Quiet.someoneStand agent ref)
  | stand fd => exact ofConn_keeps hinv fun ref _ => hinv.quiet (Quiet.someoneStand agent ref)
  | disconnect fd => exact hinv.disconnect hcounted
  | quitRoom fd =>
      refine ofConn_keeps hinv fun ref hget => hinv.quitRoom fun hquits => ?_
      simpa [counted, hget, hquits] using hcounted
  | agreeQuit fd status =>
      exact ofConn_keeps hinv fun ref _ => hinv.quiet (Quiet.agreeQuit agent ref status)
  | leave id =>
      simp only [Agent.step, Agent.leave]
      cases hget : agent.users.get id with
      | none => exact hinv
      | some ref =>
          refine hinv.postLeave ?_
          simpa [counted, hget] using hcounted
  | gameOver => exact hinv.quiet ⟨rfl, rfl, rfl, rfl, fun _ => rfl⟩
  | advance gameStep round cards => exact hinv.quiet ⟨rfl, rfl, rfl, rfl, fun _ => rfl⟩
  | tick =>
      have hcleared := hinv.quiet (Quiet.clearVotes agent)
      simp only [Agent.step, Agent.tick]
      split_ifs
      · exact hinv
      · exact hcleared
      · exact hcleared.quiet ⟨rfl, rfl, rfl, rfl, fun _ => rfl⟩
      · exact hinv.quiet ⟨rfl, rfl, rfl, rfl, fun _ => rfl⟩

end Counting

section Runs

/-- **The count of the players.** In a run in which every connection and every leave is counted
once, the count is the number of connections of real users in every state. -/
theorem realCount_of_counted (minCount : Nat) (isPrivate : Bool) (events : List Event)
    (halong : Run.Along step (fun agent event => agent.counted event = true)
      { minCount, isPrivate } events) :
    RealCount (Run.exec step { minCount, isPrivate } events) := by
  have hinv := Run.invariant (fun agent event (hinv : RealInv agent) hcounted => hinv.step hcounted)
    events _ (RealInv.start minCount isPrivate) halong
  refine ⟨hinv.count, ?_⟩
  rw [hinv.count]
  exact Int.natCast_nonneg _

/-- Two users and a robot come, one of the users loses his connection during the game, and the other
quits when it is over. -/
def playAndQuit : List Event :=
  [.login 1 (.text 10) 10, .login 2 (.text 20) 20, .addRobot 7, .advance .skip 1 [], .disconnect 2,
    .gameOver, .quitRoom 1]

theorem realCount_playAndQuit :
    Run.Along step (fun agent event => agent.counted event = true)
        { minCount := 3, isPrivate := false } playAndQuit ∧
      RealCount (Run.exec step { minCount := 3, isPrivate := false } playAndQuit) := by
  have halong : Run.Along step (fun agent event => agent.counted event = true)
      { minCount := 3, isPrivate := false } playAndQuit := by decide +kernel
  exact ⟨halong, realCount_of_counted 3 false playAndQuit halong⟩

/-- The only user of a public room loses his connection before a game has begun. -/
def comeAndGo : List Event := [.login 1 (.text 10) 10, .disconnect 1]

theorem not_realCount :
    (Run.exec step { minCount := 3, isPrivate := false } comeAndGo).realUser = -1 ∧
      ¬RealCount (Run.exec step { minCount := 3, isPrivate := false } comeAndGo) := by
  decide +kernel

end Runs

end SdyServer.Daboluo.Agent
