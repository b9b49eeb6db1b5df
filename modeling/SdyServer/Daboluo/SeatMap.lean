import Mathlib.Tactic.NormNum
import SdyServer.Daboluo.Agent

/-!
# The seat map

The seats name the users and every user names his seat. The two agree as long as no user is given a
second object while the first is still among the users, nobody sits down who has a seat, and the
number of a seat is an integer.
-/

namespace SdyServer.Daboluo.Agent

variable {agent agent' : Agent}

section Fields

@[simp]
theorem users_modify (agent : Agent) (ref : Ref) (f : Member → Member) :
    (agent.modify ref f).users = agent.users := rfl

theorem member_modify (agent : Agent) (ref ref' : Ref) (f : Member → Member) :
    (agent.modify ref f).member ref' =
      if ref' = ref then f (agent.member ref) else agent.member ref' :=
  Function.update_apply ..

theorem users_someoneStand (agent : Agent) (ref : Ref) :
    (agent.someoneStand ref).users = agent.users := by
  unfold someoneStand
  split <;> rfl

theorem minCount_someoneStand (agent : Agent) (ref : Ref) :
    (agent.someoneStand ref).minCount = agent.minCount := by
  unfold someoneStand
  split <;> rfl

theorem fresh_someoneStand (agent : Agent) (ref : Ref) :
    (agent.someoneStand ref).fresh = agent.fresh := by
  unfold someoneStand
  split <;> rfl

theorem member_someoneStand (agent : Agent) (ref ref' : Ref) :
    (agent.someoneStand ref).member ref' =
      if ref' = ref then { agent.member ref with seat := none } else agent.member ref' := by
  unfold someoneStand
  cases hseat : (agent.member ref).seat with
  | none =>
      by_cases href : ref' = ref
      · subst href
        rw [if_pos rfl]
        cases hmember : agent.member ref'
        simp_all
      · simp [href]
  | some seat => exact member_modify ..

theorem mem_seatids {s : ℚ} : s ∈ agent.seatids ↔ ∃ n : Nat, n < agent.minCount ∧ s = n + 1 := by
  simp only [seatids, List.mem_map, List.mem_range]
  constructor
  · rintro ⟨n, hn, rfl⟩
    exact ⟨n, hn, rfl⟩
  · rintro ⟨n, hn, rfl⟩
    exact ⟨n, hn, rfl⟩

end Fields

section Invariant

/-- The seat table and the seats of the users are inverse to each other. -/
structure SeatMap (agent : Agent) : Prop where
  inverse : ∀ s id, agent.seat.get s = some id ↔
    ∃ ref, agent.users.get id = some ref ∧ (agent.member ref).seat = some s
  single : ∀ s s' id, agent.seat.get s = some id → agent.seat.get s' = some id → s = s'
  present : ∀ s id, agent.seat.get s = some id → ∃ ref, agent.users.get id = some ref
  range : ∀ s id, agent.seat.get s = some id → 1 ≤ s ∧ s ≤ agent.minCount

/-- What keeps the two inverse: a user is found under the number of his id, and an object with a
seat is among the users. -/
structure SeatInv (agent : Agent) : Prop where
  inverse : ∀ s id, agent.seat.get s = some id ↔
    ∃ ref, agent.users.get id = some ref ∧ (agent.member ref).seat = some s
  integral : ∀ s id, agent.seat.get s = some id → s ∈ agent.seatids
  registered : ∀ ref s, (agent.member ref).seat = some s →
    agent.users.get (agent.member ref).id.tonumber = some ref
  keyed : ∀ id ref, agent.users.get id = some ref → id = (agent.member ref).id.tonumber
  known : ∀ id ref, agent.users.get id = some ref → ref < agent.fresh

theorem SeatInv.seatMap (hinv : SeatInv agent) : SeatMap agent where
  inverse := hinv.inverse
  single := by
    intro s s' id hs hs'
    obtain ⟨ref, href, hseat⟩ := (hinv.inverse s id).mp hs
    obtain ⟨ref', href', hseat'⟩ := (hinv.inverse s' id).mp hs'
    rw [href, Option.some.injEq] at href'
    subst href'
    rw [hseat, Option.some.injEq] at hseat'
    exact hseat'
  present := by
    intro s id hs
    obtain ⟨ref, href, -⟩ := (hinv.inverse s id).mp hs
    exact ⟨ref, href⟩
  range := by
    intro s id hs
    obtain ⟨n, hn, rfl⟩ := mem_seatids.mp (hinv.integral s id hs)
    have hcast : (n : ℚ) + 1 ≤ agent.minCount := by exact_mod_cast hn
    exact ⟨by simp, hcast⟩

theorem SeatInv.start (minCount : Nat) (isPrivate : Bool) : SeatInv { minCount, isPrivate } where
  inverse := by simp
  integral := by simp
  registered := by simp
  keyed := by simp
  known := by simp

/-- Only the seats, the users and the number and seat of each object matter. -/
theorem SeatInv.congr (hinv : SeatInv agent) (hcount : agent'.minCount = agent.minCount)
    (hseat : agent'.seat = agent.seat) (husers : ∀ id, agent'.users.get id = agent.users.get id)
    (hfresh : agent.fresh ≤ agent'.fresh)
    (hmember : ∀ ref, (agent'.member ref).seat = (agent.member ref).seat ∧
      (agent'.member ref).id.tonumber = (agent.member ref).id.tonumber) : SeatInv agent' where
  inverse := by
    intro s id
    simp only [hseat, husers, (hmember _).1]
    exact hinv.inverse s id
  integral := by
    intro s id hs
    rw [hseat] at hs
    have hmem := hinv.integral s id hs
    rw [mem_seatids] at hmem ⊢
    rwa [hcount]
  registered := by
    intro ref s hs
    rw [(hmember ref).1] at hs
    rw [(hmember ref).2, husers]
    exact hinv.registered ref s hs
  keyed := by
    intro id ref href
    rw [husers] at href
    rw [(hmember ref).2]
    exact hinv.keyed id ref href
  known := by
    intro id ref href
    rw [husers] at href
    exact lt_of_lt_of_le (hinv.known id ref href) hfresh

theorem SeatInv.modify (hinv : SeatInv agent) {ref : Ref} {f : Member → Member}
    (hf : ∀ user, (f user).seat = user.seat ∧ (f user).id.tonumber = user.id.tonumber) :
    SeatInv (agent.modify ref f) := by
  refine hinv.congr rfl rfl (fun _ => rfl) le_rfl fun ref' => ?_
  rw [member_modify]
  split_ifs with href
  · subst href
    exact hf _
  · exact ⟨rfl, rfl⟩

theorem SeatInv.unique (hinv : SeatInv agent) {id id' : Id} {ref : Ref}
    (hid : agent.users.get id = some ref) (hid' : agent.users.get id' = some ref) : id = id' :=
  (hinv.keyed id ref hid).trans (hinv.keyed id' ref hid').symm

theorem SeatInv.someoneStand (hinv : SeatInv agent) (ref : Ref) :
    SeatInv (agent.someoneStand ref) := by
  cases hseat : (agent.member ref).seat with
  | none =>
      unfold Agent.someoneStand
      rw [hseat]
      exact hinv
  | some seat =>
      have hreg := hinv.registered ref seat hseat
      have hseats : (agent.someoneStand ref).seat = agent.seat.erase seat := by
        unfold Agent.someoneStand
        rw [hseat]
        rfl
      have hown : agent.seat.get seat = some (agent.member ref).id.tonumber :=
        (hinv.inverse _ _).mpr ⟨ref, hreg, hseat⟩
      refine ⟨?_, ?_, ?_, ?_, ?_⟩
      · intro s id
        rw [hseats, users_someoneStand, LuaTable.get_erase]
        constructor
        · intro hs
          split_ifs at hs with hne
          obtain ⟨ref', href', hseat'⟩ := (hinv.inverse s id).mp hs
          refine ⟨ref', href', ?_⟩
          rw [member_someoneStand, if_neg]
          · exact hseat'
          · rintro rfl
            rw [hseat, Option.some.injEq] at hseat'
            exact hne hseat'
        · rintro ⟨ref', href', hseat'⟩
          rw [member_someoneStand] at hseat'
          split_ifs at hseat' with hsame
          have hs := (hinv.inverse s id).mpr ⟨ref', href', hseat'⟩
          rw [if_neg]
          · exact hs
          · rintro rfl
            rw [hown, Option.some.injEq] at hs
            rw [← hs, hreg, Option.some.injEq] at href'
            exact hsame href'.symm
      · intro s id hs
        rw [hseats, LuaTable.get_erase] at hs
        split_ifs at hs
        have hmem := hinv.integral s id hs
        rw [mem_seatids] at hmem ⊢
        rwa [minCount_someoneStand]
      · intro ref' s hs
        rw [users_someoneStand]
        rw [member_someoneStand] at hs ⊢
        split_ifs at hs ⊢ with hsame
        exact hinv.registered ref' s hs
      · intro id ref' href'
        rw [users_someoneStand] at href'
        rw [member_someoneStand]
        split_ifs with hsame
        · subst hsame
          exact hinv.keyed id ref' href'
        · exact hinv.keyed id ref' href'
      · intro id ref' href'
        rw [users_someoneStand] at href'
        rw [fresh_someoneStand]
        exact hinv.known id ref' href'

theorem SeatInv.someoneSit (hinv : SeatInv agent) {ref : Ref} {seat : ℚ}
    (hown : agent.users.get (agent.member ref).id = some ref)
    (hidle : (agent.member ref).seat = none)
    (hfree : agent.seat.get seat = none) (hseat : seat ∈ agent.seatids) :
    SeatInv (agent.someoneSit seat ref) := by
  have hkey := hinv.keyed _ _ hown
  have hmember : ∀ ref', (agent.someoneSit seat ref).member ref' =
      if ref' = ref then { agent.member ref with seat := some seat } else agent.member ref' :=
    fun ref' => member_modify ..
  have hseats : (agent.someoneSit seat ref).seat = agent.seat.set seat (agent.member ref).id := rfl
  have husers : (agent.someoneSit seat ref).users = agent.users := rfl
  refine ⟨?_, ?_, ?_, ?_, hinv.known⟩
  · intro s id
    rw [hseats, husers, LuaTable.get_set]
    constructor
    · intro hs
      split_ifs at hs with hsame
      · cases hs
        subst hsame
        exact ⟨ref, hown, by rw [hmember, if_pos rfl]⟩
      · obtain ⟨ref', href', hseat'⟩ := (hinv.inverse s id).mp hs
        refine ⟨ref', href', ?_⟩
        rw [hmember, if_neg]
        · exact hseat'
        · rintro rfl
          rw [hidle] at hseat'
          cases hseat'
    · rintro ⟨ref', href', hseat'⟩
      rw [hmember] at hseat'
      split_ifs at hseat' with hsame
      · cases hseat'
        subst hsame
        rw [if_pos rfl, hinv.unique hown href']
      · have hs := (hinv.inverse s id).mpr ⟨ref', href', hseat'⟩
        rw [if_neg]
        · exact hs
        · rintro rfl
          rw [hfree] at hs
          cases hs
  · intro s id hs
    rw [hseats, LuaTable.get_set] at hs
    split_ifs at hs with hsame
    · subst hsame
      exact hseat
    · exact hinv.integral s id hs
  · intro ref' s hs
    rw [husers]
    rw [hmember] at hs ⊢
    split_ifs at hs ⊢ with hsame
    · subst hsame
      rw [← hkey]
      exact hown
    · exact hinv.registered ref' s hs
  · intro id ref' href'
    rw [husers] at href'
    rw [hmember]
    split_ifs with hsame
    · subst hsame
      exact hinv.keyed id ref' href'
    · exact hinv.keyed id ref' href'

theorem SeatInv.unregister (hinv : SeatInv agent) {ref : Ref}
    (hidle : (agent.member ref).seat = none)
    (hown : ∀ ref', agent.users.get (agent.member ref).id.tonumber = some ref' → ref' = ref) :
    SeatInv { agent with users := agent.users.erase (agent.member ref).id.tonumber } := by
  have hother : ∀ {id : Id} {ref' : Ref} {s : ℚ}, agent.users.get id = some ref' →
      (agent.member ref').seat = some s → (agent.member ref).id.tonumber ≠ id := by
    rintro id ref' s href' hs rfl
    rw [hown ref' href', hidle] at hs
    cases hs
  refine ⟨?_, hinv.integral, ?_, ?_, ?_⟩
  · intro s id
    rw [hinv.inverse]
    constructor
    · rintro ⟨ref', href', hs⟩
      refine ⟨ref', ?_, hs⟩
      rw [LuaTable.get_erase, if_neg (hother href' hs)]
      exact href'
    · rintro ⟨ref', href', hs⟩
      rw [LuaTable.get_erase] at href'
      split_ifs at href'
      exact ⟨ref', href', hs⟩
  · intro ref' s hs
    have hreg := hinv.registered ref' s hs
    rw [LuaTable.get_erase, if_neg (hother hreg hs)]
    exact hreg
  · intro id ref' href'
    rw [LuaTable.get_erase] at href'
    split_ifs at href'
    exact hinv.keyed id ref' href'
  · intro id ref' href'
    rw [LuaTable.get_erase] at href'
    split_ifs at href'
    exact hinv.known id ref' href'

def Current (agent : Agent) (ref : Ref) : Prop :=
  ∀ ref', agent.users.get (agent.member ref).id.tonumber = some ref' → ref' = ref

theorem SeatInv.clearUser (hinv : SeatInv agent) {ref : Ref} (hcurrent : agent.Current ref) :
    SeatInv (agent.clearUser ref) := by
  unfold Agent.clearUser
  split_ifs
  · exact hinv.modify fun user => ⟨rfl, rfl⟩
  · have hstood := hinv.someoneStand ref
    have hidle : ((agent.someoneStand ref).member ref).seat = none := by
      rw [member_someoneStand, if_pos rfl]
    have hid : ((agent.someoneStand ref).member ref).id = (agent.member ref).id := by
      rw [member_someoneStand, if_pos rfl]
    have hgone := hstood.unregister hidle (by rwa [hid, users_someoneStand])
    refine hgone.congr ?_ ?_ (fun id => ?_) ?_ fun ref' => ?_
    · rw [minCount_someoneStand, minCount_someoneStand]
      rfl
    · unfold Agent.someoneStand
      simp only [member_modify, if_true]
      split <;> rfl
    · rw [users_someoneStand, hid]
      simp only [users_modify, users_someoneStand]
    · rw [fresh_someoneStand, fresh_someoneStand]
      exact le_rfl
    · simp only [member_someoneStand, member_modify]
      split_ifs
      · exact ⟨rfl, Id.tonumber_tonumber _⟩
      · exact ⟨rfl, rfl⟩

theorem SeatInv.leaveAgent (hinv : SeatInv agent) (ref : Ref) : SeatInv (agent.leaveAgent ref) := by
  unfold Agent.leaveAgent
  split_ifs
  · exact hinv.congr rfl rfl (fun _ => rfl) le_rfl fun _ => ⟨rfl, rfl⟩
  · have hreal : SeatInv { agent with realUser := agent.realUser - 1 } :=
      hinv.congr rfl rfl (fun _ => rfl) le_rfl fun _ => ⟨rfl, rfl⟩
    exact hreal.modify fun user => ⟨rfl, Id.tonumber_tostring _⟩

theorem SeatInv.clearConn (hinv : SeatInv agent) (ref : Ref) : SeatInv (agent.clearConn ref) := by
  unfold Agent.clearConn
  split
  · exact hinv
  · next fd _ =>
      have hclosed : SeatInv { agent with conns := agent.conns.erase fd } :=
        hinv.congr rfl rfl (fun _ => rfl) le_rfl fun _ => ⟨rfl, rfl⟩
      exact hclosed.modify fun user => ⟨rfl, rfl⟩

theorem SeatInv.postLeave (hinv : SeatInv agent) {ref : Ref} (hcurrent : agent.Current ref) :
    SeatInv (agent.postLeave ref) :=
  ((hinv.clearUser hcurrent).leaveAgent ref).clearConn ref

/-- A new object is put among the users, under a number that nobody there has. -/
theorem SeatInv.admit (hinv : SeatInv agent) {n : Nat}
    (habsent : agent.users.get (.number n) = none)
    {user : Member} (hid : user.id = .number n) (hidle : user.seat = none)
    (hcount : agent'.minCount = agent.minCount) (hseat : agent'.seat = agent.seat)
    (husers : agent'.users = agent.users.set (.number n) agent.fresh)
    (hfresh : agent'.fresh = agent.fresh + 1)
    (hmember : ∀ ref, agent'.member ref = if ref = agent.fresh then user else agent.member ref) :
    SeatInv agent' := by
  have hget : ∀ id, agent'.users.get id =
      if .number n = id then some agent.fresh else agent.users.get id := by
    intro id
    rw [husers, LuaTable.get_set]
  have hold : ∀ {id ref}, agent.users.get id = some ref →
      agent'.users.get id = some ref ∧ agent'.member ref = agent.member ref := by
    intro id ref href
    have hne : Id.number n ≠ id := by
      rintro rfl
      rw [habsent] at href
      cases href
    have hlt := hinv.known id ref href
    exact ⟨by rw [hget, if_neg hne, href], by rw [hmember, if_neg (Nat.ne_of_lt hlt)]⟩
  refine ⟨?_, ?_, ?_, ?_, ?_⟩
  · intro s id
    rw [hseat, hinv.inverse]
    constructor
    · rintro ⟨ref, href, hs⟩
      exact ⟨ref, (hold href).1, by rw [(hold href).2]; exact hs⟩
    · rintro ⟨ref, href, hs⟩
      rw [hget] at href
      split_ifs at href with hid'
      · cases href
        rw [hmember, if_pos rfl, hidle] at hs
        cases hs
      · exact ⟨ref, href, by rw [← (hold href).2]; exact hs⟩
  · intro s id hs
    rw [hseat] at hs
    have hmem := hinv.integral s id hs
    rw [mem_seatids] at hmem ⊢
    rwa [hcount]
  · intro ref s hs
    rw [hmember] at hs ⊢
    split_ifs at hs ⊢ with hnew
    · rw [hidle] at hs
      cases hs
    · exact (hold (hinv.registered ref s hs)).1
  · intro id ref href
    rw [hget] at href
    split_ifs at href with hid'
    · cases href
      rw [hmember, if_pos rfl, hid, ← hid']
      rfl
    · rw [(hold href).2]
      exact hinv.keyed id ref href
  · intro id ref href
    rw [hget] at href
    rw [hfresh]
    split_ifs at href
    · cases href
      exact Nat.lt_succ_self _
    · exact Nat.lt_succ_of_lt (hinv.known id ref href)

theorem SeatInv.takeSeat (hinv : SeatInv agent) {ref : Ref}
    (hown : agent.users.get (agent.member ref).id = some ref) : SeatInv (agent.takeSeat ref) := by
  unfold Agent.takeSeat
  split_ifs with hback
  · exact hinv
  · have hidle : (agent.member ref).seat = none := by
      cases hseat : (agent.member ref).seat with
      | none => rfl
      | some s =>
          have hs := (hinv.inverse s _).mpr ⟨ref, hown, hseat⟩
          refine absurd (List.any_eq_true.mpr ⟨s, hinv.integral s _ hs, ?_⟩) hback
          simpa using hs
    cases hfind : agent.seatids.find? fun seat => (agent.seat.get seat).isNone with
    | none => exact hinv
    | some seat =>
        have hfree := List.find?_some hfind
        exact hinv.someoneSit hown hidle (by simpa using hfree) (List.mem_of_find?_eq_some hfind)

end Invariant

section Steps

/-- The object a login is for: one the id finds, under its own id, or a new one for a number that
nobody has. -/
def admits (agent : Agent) (id : Id) (n : Nat) : Bool :=
  match agent.users.get id with
  | some ref => (agent.member ref).id = id
  | none => (agent.users.get (.number n)).isNone

def isCurrent (agent : Agent) (ref : Ref) : Bool :=
  (agent.users.get (agent.member ref).id.tonumber).all fun ref' => ref' = ref

/-- What the seat map needs: a login or a new robot takes nobody's place, who sits down has no seat
and is among the users, the number of his seat is an integer, and who leaves has not been
replaced. -/
def orderly (agent : Agent) : Event → Bool
  | .login _ id n => agent.admits id n
  | .addRobot n => (agent.users.get (.number n)).isNone
  | .sit fd seatid => (agent.conns.get fd).all fun ref =>
      seatid ≤ 0 ∨ seatid > agent.minCount ∨ (agent.seat.get seatid).isSome ∨
        (agent.users.get (agent.member ref).id = some ref ∧ (agent.member ref).seat = none ∧
          seatid.den = 1)
  | .disconnect fd => (agent.conns.get fd).all agent.isCurrent
  | .quitRoom fd => (agent.conns.get fd).all agent.isCurrent
  | _ => true

theorem isCurrent_iff {ref : Ref} : agent.isCurrent ref = true ↔ agent.Current ref := by
  unfold isCurrent Current
  cases agent.users.get (agent.member ref).id.tonumber <;> simp

/-- A new object under a number that nobody has is registered and takes a seat. -/
theorem SeatInv.enroll (hinv : SeatInv agent) {n : Nat}
    (habsent : agent.users.get (.number n) = none) (agent' : Agent) (user : Member)
    (hmember : ∀ ref, agent'.member ref = if ref = agent.fresh then user else agent.member ref)
    (hid : user.id = .number n) (hidle : user.seat = none)
    (hcount : agent'.minCount = agent.minCount) (hseat : agent'.seat = agent.seat)
    (husers : agent'.users = agent.users) (hfresh : agent'.fresh = agent.fresh + 1)
    (fd : Fd) : SeatInv ((agent'.register fd agent.fresh).takeSeat agent.fresh) := by
  have hown : (agent'.member agent.fresh).id = .number n := by
    rw [hmember, if_pos rfl]
    exact hid
  have hregister : SeatInv (agent'.register fd agent.fresh) := by
    refine hinv.admit habsent hid hidle hcount hseat ?_ hfresh hmember
    unfold Agent.register
    rw [hown, husers]
  refine hregister.takeSeat ?_
  show (agent'.users.set (agent'.member agent.fresh).id agent.fresh).get
    (agent'.member agent.fresh).id = some agent.fresh
  exact LuaTable.get_set_self ..

theorem SeatInv.login (hinv : SeatInv agent) (fd : Fd) {id : Id} {n : Nat}
    (hadmits : agent.admits id n = true) : SeatInv (agent.login fd id n) := by
  have hseated : SeatInv (((agent.enter id (.number n)).1.modify (agent.enter id (.number n)).2
      fun user => { user with fd := some fd, offline := false }).register fd
        (agent.enter id (.number n)).2 |>.takeSeat (agent.enter id (.number n)).2) := by
    unfold Agent.admits at hadmits
    unfold Agent.enter
    cases hget : agent.users.get id with
    | some ref =>
        rw [hget] at hadmits
        have hid : (agent.member ref).id = id := by simpa using hadmits
        dsimp only
        have hmodify : SeatInv (agent.modify ref
            fun user => { user with fd := some fd, offline := false }) :=
          hinv.modify fun user => ⟨rfl, rfl⟩
        have hown : ((agent.modify ref
            fun user => { user with fd := some fd, offline := false }).member ref).id = id := by
          rw [member_modify, if_pos rfl]
          exact hid
        have hregister : SeatInv ((agent.modify ref
            fun user => { user with fd := some fd, offline := false }).register fd ref) := by
          refine hmodify.congr rfl rfl (fun id' => ?_) le_rfl fun _ => ⟨rfl, rfl⟩
          unfold Agent.register
          rw [hown, LuaTable.get_set]
          split_ifs with hsame
          · subst hsame
            exact hget.symm
          · rfl
        refine hregister.takeSeat ?_
        unfold Agent.register
        rw [hown, LuaTable.get_set_self]
    | none =>
        rw [hget] at hadmits
        have habsent : agent.users.get (.number n) = none := by simpa using hadmits
        dsimp only
        have hnew : ∀ ref, (({ agent with fresh := agent.fresh + 1 }.modify agent.fresh
            fun _ => { id := .number n }).modify agent.fresh
              fun user => { user with fd := some fd, offline := false }).member ref =
            if ref = agent.fresh then { id := .number n, fd := some fd } else agent.member ref := by
          intro ref
          simp only [member_modify]
          split_ifs <;> rfl
        exact hinv.enroll habsent _ _ hnew rfl rfl rfl rfl rfl rfl fd
  unfold Agent.login
  dsimp only
  split_ifs
  · exact hseated.congr rfl rfl (fun _ => rfl) le_rfl fun _ => ⟨rfl, rfl⟩
  · exact hseated

theorem SeatInv.addRobot (hinv : SeatInv agent) {n : Nat}
    (habsent : agent.users.get (.number n) = none) : SeatInv (agent.addRobot n) := by
  unfold Agent.addRobot
  dsimp only
  have hnew : ∀ ref, ({ agent with
      fresh := agent.fresh + 1, robotUser := agent.robotUser + 1 }.modify agent.fresh
        fun _ => { id := .number n, fd := some (-n), isRobot := true }).member ref =
      if ref = agent.fresh then { id := .number n, fd := some (-n), isRobot := true }
      else agent.member ref := fun ref => member_modify ..
  exact hinv.enroll habsent _ _ hnew rfl rfl rfl rfl rfl rfl (-n)

theorem SeatInv.sit (hinv : SeatInv agent) {ref : Ref} {seatid : ℚ}
    (hsit : seatid ≤ 0 ∨ seatid > agent.minCount ∨ (agent.seat.get seatid).isSome ∨
      (agent.users.get (agent.member ref).id = some ref ∧ (agent.member ref).seat = none ∧
        seatid.den = 1)) : SeatInv (agent.sit ref seatid) := by
  unfold Agent.sit
  split_ifs with hrange htaken
  · exact hinv
  · exact hinv
  · rw [not_or, not_le, not_lt] at hrange
    obtain ⟨hpos, hle⟩ := hrange
    obtain h | h | h | ⟨hown, hidle, hint⟩ := hsit
    · exact absurd hpos (not_lt.mpr h)
    · exact absurd h (not_lt.mpr hle)
    · exact absurd h htaken
    · refine hinv.someoneSit hown hidle (by simpa using htaken) ?_
      -- A positive integer up to `min_count` is the number of a seat.
      have hseat : (seatid.num : ℚ) = seatid := by
        conv_rhs => rw [← Rat.num_div_den seatid, hint]
        simp
      rw [← hseat] at hpos hle
      have hpos' : 0 < seatid.num := by exact_mod_cast hpos
      have hle' : seatid.num ≤ agent.minCount := by exact_mod_cast hle
      obtain ⟨n, hn⟩ : ∃ n : Nat, seatid.num = n + 1 := ⟨(seatid.num - 1).toNat, by omega⟩
      refine mem_seatids.mpr ⟨n, by omega, ?_⟩
      rw [← hseat, hn]
      push_cast
      rfl

theorem SeatInv.tryStand (hinv : SeatInv agent) (ref : Ref) : SeatInv (agent.tryStand ref) := by
  unfold Agent.tryStand
  split_ifs
  · exact hinv
  · exact hinv.someoneStand ref

theorem SeatInv.disconnect (hinv : SeatInv agent) {fd : Fd}
    (hcurrent : ∀ ref, agent.conns.get fd = some ref → agent.Current ref) :
    SeatInv (agent.disconnect fd) := by
  have hclosed : SeatInv { agent with
      conns := agent.conns.erase fd, realUser := max (agent.realUser - 1) 0 } :=
    hinv.congr rfl rfl (fun _ => rfl) le_rfl fun _ => ⟨rfl, rfl⟩
  unfold Agent.disconnect
  dsimp only
  cases hget : agent.conns.get fd with
  | none => exact hclosed
  | some ref =>
      dsimp only
      split_ifs
      · exact hclosed.modify fun user => ⟨rfl, rfl⟩
      · exact hclosed.postLeave (hcurrent ref hget)

theorem SeatInv.clearVotes (hinv : SeatInv agent) : SeatInv agent.clearVotes :=
  hinv.congr rfl rfl (fun _ => rfl) le_rfl fun _ => ⟨rfl, rfl⟩

theorem SeatInv.agreeQuit (hinv : SeatInv agent) (ref : Ref) (status : Bool) :
    SeatInv (agent.agreeQuit ref status) := by
  have hagreed : SeatInv (agent.modify ref fun user => { user with agreeQuit := true }) :=
    hinv.modify fun user => ⟨rfl, rfl⟩
  unfold Agent.agreeQuit
  dsimp only
  split_ifs
  · exact hinv
  · exact hagreed
  · exact hagreed.congr rfl rfl (fun _ => rfl) le_rfl fun _ => ⟨rfl, rfl⟩
  · exact hagreed
  · exact hinv.clearVotes

theorem SeatInv.askQuit (hinv : SeatInv agent) (ref : Ref) (entries : List (Id × Ref)) :
    SeatInv (agent.askQuit ref entries) := by
  induction entries generalizing agent with
  | nil => exact hinv.modify fun user => ⟨rfl, rfl⟩
  | cons entry rest ih =>
      unfold Agent.askQuit
      dsimp only
      split_ifs
      · exact hinv.agreeQuit entry.2 true
      · exact ih (hinv.agreeQuit entry.2 true)
      · exact ih hinv

theorem SeatInv.quitRoom (hinv : SeatInv agent) {ref : Ref} (hcurrent : agent.Current ref) :
    SeatInv (agent.quitRoom ref) := by
  unfold Agent.quitRoom
  split_ifs
  · exact hinv
  · have hasked : SeatInv { agent with askQuitTime := askTime } :=
      hinv.congr rfl rfl (fun _ => rfl) le_rfl fun _ => ⟨rfl, rfl⟩
    exact hasked.askQuit ref _
  · exact hinv.postLeave hcurrent
  · exact hinv
  · exact hinv.postLeave hcurrent

theorem SeatInv.leave (hinv : SeatInv agent) (id : Id) : SeatInv (agent.leave id) := by
  unfold Agent.leave
  cases hget : agent.users.get id with
  | none => exact hinv
  | some ref =>
      refine hinv.postLeave fun ref' href' => ?_
      rw [← hinv.keyed id ref hget, hget, Option.some.injEq] at href'
      exact href'.symm

/-- A message keeps what its handler keeps for the object of the connection. -/
theorem ofConn_keeps {P : Agent → Prop} (hkept : P agent) {fd : Fd} {handler : Ref → Agent}
    (hhandler : ∀ ref, agent.conns.get fd = some ref → P (handler ref)) :
    P (agent.ofConn fd handler) := by
  unfold Agent.ofConn
  cases hget : agent.conns.get fd with
  | none => exact hkept
  | some ref => exact hhandler ref hget

theorem SeatInv.step (hinv : SeatInv agent) {event : Event}
    (horderly : agent.orderly event = true) :
    SeatInv (agent.step event) := by
  cases event with
  | login fd id n => exact hinv.login fd horderly
  | addRobot n => exact hinv.addRobot (Option.isNone_iff_eq_none.mp horderly)
  | sit fd seatid =>
      refine ofConn_keeps hinv fun ref hget => hinv.sit ?_
      simpa [orderly, hget] using horderly
  | tryStand fd => exact ofConn_keeps hinv fun ref _ => hinv.tryStand ref
  | stand fd => exact ofConn_keeps hinv fun ref _ => hinv.someoneStand ref
  | disconnect fd =>
      refine hinv.disconnect fun ref hget => isCurrent_iff.mp ?_
      simpa [orderly, hget] using horderly
  | quitRoom fd =>
      refine ofConn_keeps hinv fun ref hget => hinv.quitRoom (isCurrent_iff.mp ?_)
      simpa [orderly, hget] using horderly
  | agreeQuit fd status => exact ofConn_keeps hinv fun ref _ => hinv.agreeQuit ref status
  | leave id => exact hinv.leave id
  | gameOver => exact hinv.congr rfl rfl (fun _ => rfl) le_rfl fun _ => ⟨rfl, rfl⟩
  | advance gameStep round cards =>
      exact hinv.congr rfl rfl (fun _ => rfl) le_rfl fun _ => ⟨rfl, rfl⟩
  | tick =>
      simp only [Agent.step, Agent.tick]
      split_ifs
      · exact hinv
      · exact hinv.clearVotes
      · exact hinv.clearVotes.congr rfl rfl (fun _ => rfl) le_rfl fun _ => ⟨rfl, rfl⟩
      · exact hinv.congr rfl rfl (fun _ => rfl) le_rfl fun _ => ⟨rfl, rfl⟩

end Steps

section Runs

/-- **The seat map.** In an orderly run the seats and the users agree in every state. -/
theorem seatMap_of_orderly (minCount : Nat) (isPrivate : Bool) (events : List Event)
    (halong : Run.Along step (fun agent event => agent.orderly event = true)
      { minCount, isPrivate } events) :
    SeatMap (Run.exec step { minCount, isPrivate } events) := by
  refine SeatInv.seatMap ?_
  exact Run.invariant (fun agent event (hinv : SeatInv agent) horderly => hinv.step horderly) events
    _ (SeatInv.start minCount isPrivate) halong

/-- Two users come, one stands up and sits down elsewhere, a game is played during which the other
loses his connection, and he is made to leave when it is over. -/
def changeSeats : List Event :=
  [.login 1 (.text 10) 10, .login 2 (.text 20) 20, .stand 1, .sit 1 3, .advance .skip 1 [],
    .disconnect 2, .gameOver, .leave (.number 20)]

theorem seatMap_changeSeats :
    Run.Along step (fun agent event => agent.orderly event = true)
        { minCount := 3, isPrivate := false } changeSeats ∧
      SeatMap (Run.exec step { minCount := 3, isPrivate := false } changeSeats) := by
  have halong : Run.Along step (fun agent event => agent.orderly event = true)
      { minCount := 3, isPrivate := false } changeSeats := by decide +kernel
  exact ⟨halong, seatMap_of_orderly 3 false changeSeats halong⟩

def sitTwice : List Event := [.login 1 (.text 10) 10, .sit 1 2]

/-- A user who has lost his connection during the game comes back, under the text of his id and with
a new object. -/
def comeBack : List Event :=
  [.login 1 (.text 10) 10, .advance .skip 1 [], .disconnect 1, .login 2 (.text 10) 10]

theorem not_seatMap :
    ¬SeatMap (Run.exec step { minCount := 3, isPrivate := false } sitTwice) ∧
      ¬SeatMap (Run.exec step { minCount := 3, isPrivate := false } comeBack) := by
  constructor
  · intro hmap
    have htwo : (1 : ℚ) = 2 := hmap.single 1 2 (.number 10) (by decide +kernel) (by decide +kernel)
    norm_num at htwo
  · intro hmap
    obtain ⟨ref, href, hseat⟩ := (hmap.inverse 1 (.number 10)).mp (by decide +kernel)
    have hnew : (Run.exec step { minCount := 3, isPrivate := false } comeBack).users.get
        (.number 10) = some 1 := by decide +kernel
    rw [hnew] at href
    cases href
    exact absurd hseat (by decide +kernel)

end Runs

end SdyServer.Daboluo.Agent
