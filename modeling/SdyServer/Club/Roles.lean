import SdyServer.Club.Members

/-!
# Roles and the head count

The count of a club that is not dissolved is the number of its rows that are not deleted, and one of
them is the creater's. A member's role is weighed against the caller's before it is set, but the
role that he gets is not, and the count follows a status only where it is the integer −1. In the
runs without such a call both stay as they should.
-/

namespace SdyServer.Club

section Runs

/-- A call of one of the operations. -/
inductive Event where
  | createClub (uid : Nat) (name : String) (areaid : Nat)
  | applyInClub (uid clubid : Nat)
  | applyInClubRoom (uid clubid : Nat) (roomid : Int) (recent : Bool)
  | verifyInClub (uid applyid : Nat) (status : Argument) (recorded expired : Bool)
  | setMemberRoletype (uid clubid setUid : Nat) (roletype status : Argument)
  | quitClub (uid clubid : Nat)
deriving DecidableEq, Repr

/-- Who calls. -/
def Event.uid : Event → Nat
  | .createClub uid _ _ => uid
  | .applyInClub uid _ => uid
  | .applyInClubRoom uid _ _ _ => uid
  | .verifyInClub uid _ _ _ _ => uid
  | .setMemberRoletype uid _ _ _ _ => uid
  | .quitClub uid _ => uid

def Event.call (db : Database) (tables : Tables) : Event → Tables × Lua Answer
  | .createClub uid name areaid => Club.createClub db tables uid name areaid
  | .applyInClub uid clubid => Club.applyInClub tables uid clubid
  | .applyInClubRoom uid clubid roomid recent =>
      Club.applyInClubRoom tables uid clubid roomid recent
  | .verifyInClub uid applyid status recorded expired =>
      Club.verifyInClub db tables uid applyid status recorded expired
  | .setMemberRoletype uid clubid setUid roletype status =>
      Club.setMemberRoletype db tables uid clubid setUid roletype status
  | .quitClub uid clubid => Club.quitClub tables uid clubid

/-- The tables after a call, whether it has returned or raised. -/
def Tables.step (db : Database) (tables : Tables) (event : Event) : Tables :=
  (event.call db tables).1

end Runs

variable {db : Database} {t t' : Tables} {row set : MemberRow} {clubid uid : Nat}

section Properties

/-- The club is there and not dissolved. -/
def Tables.Live (t : Tables) (clubid : Nat) : Prop :=
  ∃ club ∈ t.clubs, club.id = clubid ∧ club.status = normal

/-- The club's rows that are not deleted. -/
def Tables.heads (t : Tables) (clubid : Nat) : Nat :=
  t.members.countP fun row => row.clubid = clubid ∧ row.status ≠ del

/-- The club's rows of a creater that are not deleted. -/
def Tables.creaters (t : Tables) (clubid : Nat) : Nat :=
  t.members.countP fun row => row.clubid = clubid ∧ row.status ≠ del ∧ row.roletype = creater

/-- Each club that is not dissolved counts its members right and has one creater. -/
structure Tables.Sound (t : Tables) : Prop where
  counted : ∀ club ∈ t.clubs, club.status = normal → club.memberCount = t.heads club.id
  oneCreater : ∀ club ∈ t.clubs, club.status = normal → t.creaters club.id = 1

/-- Whoever has another role than before in a club that is not dissolved, or a row that he did not
have, has a lesser role than the caller has there. -/
def GivesLess (t : Tables) (uid : Nat) (t' : Tables) : Prop :=
  ∀ row' ∈ t'.members, t.Live row'.clubid →
    (∃ row ∈ t.members, row.id = row'.id ∧ row.roletype = row'.roletype) ∨
      ∃ row, t.member? row'.clubid uid = some row ∧ row'.roletype < row.roletype

/-- A call is taken well: after it the clubs are sound, and it gave lesser roles only. -/
def Tables.TakesWell (db : Database) (tables : Tables) (event : Event) : Prop :=
  (tables.step db event).Sound ∧ GivesLess tables event.uid (tables.step db event)

/-- The caller's row and that of the member whose role or status he may set. -/
structure Tables.MayModify (t : Tables) (uid clubid setUid : Nat) (row set : MemberRow) : Prop where
  caller : t.member? clubid uid = some row
  authority : checkAuthority t uid clubid .modifyAuth = true
  member : t.member? clubid setUid = some set
  less : set.roletype < row.roletype

/-- A member's role or status may be set, and the call asks for a status that the column takes as −1
without being the integer −1, or for a role that is not less than the caller's. -/
def Event.Oversteps (db : Database) (t : Tables) : Event → Prop
  | .setMemberRoletype uid clubid setUid roletype status =>
      t.Live clubid ∧ ∃ row set, t.MayModify uid clubid setUid row set ∧
        ((∃ literal, status = .literal literal ∧ literal ≠ .int del ∧ db.take literal = some del) ∨
          status = .falsy ∧ ∃ literal taken, roletype = .literal literal ∧ db.take literal =
            some taken ∧
            row.roletype ≤ taken)
  | _ => False

end Properties

section Keyed

/-- The ids are all different, and a user has one row in a club that is not deleted. -/
structure Tables.Keyed (t : Tables) : Prop where
  clubIds : (t.clubs.map ClubInfo.id).Nodup
  memberIds : (t.members.map MemberRow.id).Nodup
  clubBound : ∀ club ∈ t.clubs, club.id < t.nextClub
  memberBound : ∀ row ∈ t.members, row.id < t.nextMember ∧ row.clubid < t.nextClub
  unique : ∀ row ∈ t.members, ∀ row' ∈ t.members, row.status ≠ del → row'.status ≠ del →
    row.clubid = row'.clubid → row.uid = row'.uid → row = row'

theorem Tables.member?_some (hrow : t.member? clubid uid = some row) :
    row ∈ t.members ∧ row.status ≠ del ∧ row.clubid = clubid ∧ row.uid = uid := by
  have hfound := List.find?_some hrow
  rw [decide_eq_true_eq] at hfound
  exact ⟨List.mem_of_find?_eq_some hrow, hfound⟩

theorem Tables.member?_none (hnone : t.member? clubid uid = none) (hrow : row ∈ t.members)
    (hlive : row.status ≠ del) (hclub : row.clubid = clubid) : row.uid ≠ uid := by
  intro huid
  have := List.find?_eq_none.1 hnone row hrow
  rw [decide_eq_true_eq] at this
  exact this ⟨hlive, hclub, huid⟩

theorem Tables.Keyed.member?_eq (hkeyed : t.Keyed) (hrow : row ∈ t.members)
    (hlive : row.status ≠ del) :
    t.member? row.clubid row.uid = some row := by
  cases hfound : t.member? row.clubid row.uid with
  | none => exact absurd rfl (Tables.member?_none hfound hrow hlive rfl)
  | some row' =>
      obtain ⟨hrow', hlive', hclub, huid⟩ := Tables.member?_some hfound
      rw [hkeyed.unique row' hrow' row hrow hlive' hlive hclub huid]

theorem Tables.Keyed.addClub (hkeyed : t.Keyed) (uid : Nat) (name : String) (areaid : Nat) :
    (t.addClub uid name areaid).Keyed := by
  refine ⟨?_, hkeyed.memberIds, ?_, fun row hrow => ?_, hkeyed.unique⟩
  · change ((t.clubs ++ [_]).map ClubInfo.id).Nodup
    rw [List.map_append, List.map_singleton, List.nodup_append]
    refine ⟨hkeyed.clubIds, List.nodup_singleton _, ?_⟩
    intro id hid id' hid'
    obtain ⟨club, hclub, rfl⟩ := List.mem_map.1 hid
    rw [List.mem_singleton.1 hid']
    exact (hkeyed.clubBound club hclub).ne
  · intro club hclub
    change club ∈ t.clubs ++ [_] at hclub
    show club.id < t.nextClub + 1
    rcases List.mem_append.1 hclub with hclub | hclub
    · have := hkeyed.clubBound club hclub
      omega
    · rw [List.mem_singleton.1 hclub]
      exact Nat.lt_succ_self _
  · obtain ⟨hid, hclub⟩ := hkeyed.memberBound row hrow
    exact ⟨hid, Nat.lt_succ_of_lt hclub⟩

theorem Tables.Keyed.addMember (hkeyed : t.Keyed) (hclub : clubid < t.nextClub)
    (hnew : ∀ row ∈ t.members, row.status ≠ del → row.clubid = clubid → row.uid ≠ uid)
    (roletype : Int) :
    (t.addMember clubid uid roletype).Keyed := by
  refine ⟨hkeyed.clubIds, ?_, hkeyed.clubBound, ?_, ?_⟩
  · change ((t.members ++ [_]).map MemberRow.id).Nodup
    rw [List.map_append, List.map_singleton, List.nodup_append]
    refine ⟨hkeyed.memberIds, List.nodup_singleton _, ?_⟩
    intro id hid id' hid'
    obtain ⟨row, hrow, rfl⟩ := List.mem_map.1 hid
    rw [List.mem_singleton.1 hid']
    exact (hkeyed.memberBound row hrow).1.ne
  · intro row hrow
    change row ∈ t.members ++ [_] at hrow
    show row.id < t.nextMember + 1 ∧ row.clubid < t.nextClub
    rcases List.mem_append.1 hrow with hrow | hrow
    · obtain ⟨hid, hclub⟩ := hkeyed.memberBound row hrow
      exact ⟨by omega, hclub⟩
    · rw [List.mem_singleton.1 hrow]
      exact ⟨Nat.lt_succ_self _, hclub⟩
  · intro row hrow row' hrow' hlive hlive' hsame huid
    rcases List.mem_append.1 hrow with hrow | hrow <;>
      rcases List.mem_append.1 hrow' with hrow' | hrow'
    · exact hkeyed.unique row hrow row' hrow' hlive hlive' hsame huid
    · rw [List.mem_singleton.1 hrow'] at hsame huid
      exact absurd huid (hnew row hrow hlive hsame)
    · rw [List.mem_singleton.1 hrow] at hsame huid
      exact absurd huid.symm (hnew row' hrow' hlive' hsame.symm)
    · rw [List.mem_singleton.1 hrow, List.mem_singleton.1 hrow']

theorem Tables.Keyed.updateClub (hkeyed : t.Keyed) {change : ClubInfo → ClubInfo}
    (hchange : ∀ club, (change club).id = club.id) : (t.updateClub clubid change).Keyed := by
  refine ⟨?_, hkeyed.memberIds, fun club hclub => ?_, hkeyed.memberBound, hkeyed.unique⟩
  · exact (Rows.map_update ClubInfo.id hchange).symm ▸ hkeyed.clubIds
  · obtain ⟨club', hclub', rfl⟩ := Rows.mem_update.1 hclub
    have hbound := hkeyed.clubBound club' hclub'
    split_ifs
    · rwa [hchange]
    · exact hbound

/-- A row that is not deleted is updated: it stays the row of its user in its club. -/
theorem Tables.Keyed.updateMember (hkeyed : t.Keyed) {change : MemberRow → MemberRow}
    (hrow : row ∈ t.members)
    (hlive : row.status ≠ del) (hid : ∀ row, (change row).id = row.id)
    (hclub : ∀ row, (change row).clubid = row.clubid) (huid : ∀ row, (change row).uid = row.uid) :
    (t.updateMember row.id change).Keyed := by
  have hold : ∀ new ∈ Rows.update MemberRow.id row.id change t.members, ∃ old ∈ t.members,
      new.id = old.id ∧ new.clubid = old.clubid ∧ new.uid = old.uid ∧
          (new.status ≠ del → old.status ≠ del) := by
    intro new hnew
    obtain ⟨old, hmem, rfl⟩ := Rows.mem_update.1 hnew
    refine ⟨old, hmem, ?_⟩
    by_cases hsame : old.id = row.id
    · rw [if_pos hsame, Rows.eq_of_ident_eq hkeyed.memberIds hmem hrow hsame]
      exact ⟨hid row, hclub row, huid row, fun _ => hlive⟩
    · rw [if_neg hsame]
      exact ⟨rfl, rfl, rfl, fun h => h⟩
  have hids : ((Rows.update MemberRow.id row.id change t.members).map MemberRow.id).Nodup :=
    (Rows.map_update MemberRow.id hid).symm ▸ hkeyed.memberIds
  refine ⟨hkeyed.clubIds, hids, hkeyed.clubBound, fun new hnew => ?_, ?_⟩
  · obtain ⟨old, hmem, hsame, hsameClub, -⟩ := hold new hnew
    rw [hsame, hsameClub]
    exact hkeyed.memberBound old hmem
  · intro new hnew new' hnew' hl hl' hc hu
    obtain ⟨old, hmem, hsame, hsameClub, hsameUid, hstays⟩ := hold new hnew
    obtain ⟨old', hmem', hsame', hsameClub', hsameUid', hstays'⟩ := hold new' hnew'
    have heq : old = old' := hkeyed.unique old hmem old' hmem' (hstays hl) (hstays' hl')
      (by rw [← hsameClub, ← hsameClub', hc]) (by rw [← hsameUid, ← hsameUid', hu])
    exact Rows.eq_of_ident_eq hids hnew hnew' (by rw [hsame, hsame', heq])

end Keyed

section Counts

theorem normal_ne_del : normal ≠ del := by decide

theorem Tables.heads_addMember (roletype : Int) (club : Nat) :
    (t.addMember clubid uid roletype).heads club = t.heads club + if clubid =
    club then 1 else 0 := by
  change (t.members ++ [_]).countP _ = _
  rw [List.countP_append, List.countP_singleton]
  congr 1
  by_cases hclub : clubid = club
  · rw [if_pos hclub, if_pos (decide_eq_true ⟨hclub, normal_ne_del⟩)]
  · rw [if_neg hclub, if_neg]
    rw [decide_eq_true_eq]
    exact fun h => hclub h.1

theorem Tables.creaters_addMember (roletype : Int) (club : Nat) :
    (t.addMember clubid uid roletype).creaters club =
      t.creaters club + if clubid = club ∧ roletype = creater then 1 else 0 := by
  change (t.members ++ [_]).countP _ = _
  rw [List.countP_append, List.countP_singleton]
  congr 1
  by_cases hclub : clubid = club ∧ roletype = creater
  · rw [if_pos hclub, if_pos (decide_eq_true ⟨hclub.1, normal_ne_del, hclub.2⟩)]
  · rw [if_neg hclub, if_neg]
    rw [decide_eq_true_eq]
    exact fun h => hclub ⟨h.1, h.2.2⟩

/-- No row is in a club that is not there yet. -/
theorem Tables.Keyed.count_nextClub (hkeyed : t.Keyed) :
    t.heads t.nextClub = 0 ∧ t.creaters t.nextClub = 0 := by
  have hnone : ∀ row ∈ t.members, row.clubid ≠ t.nextClub :=
    fun row hrow => (hkeyed.memberBound row hrow).2.ne
  constructor
  · refine List.countP_eq_zero.2 fun row hrow => ?_
    rw [decide_eq_true_eq]
    exact fun h => hnone row hrow h.1
  · refine List.countP_eq_zero.2 fun row hrow => ?_
    rw [decide_eq_true_eq]
    exact fun h => hnone row hrow h.1

/-- A row of the club that is not deleted gets a status: the heads go down by one if it is −1. -/
theorem Tables.Keyed.heads_setStatus (hkeyed : t.Keyed) (hrow : row ∈ t.members)
    (hlive : row.status ≠ del)
    (status : Int) (club : Nat) :
    (t.updateMember row.id ({ · with status })).heads club +
    (if row.clubid = club ∧ status = del then 1 else 0) =
      t.heads club := by
  have hcount := Rows.countP_update (fun row : MemberRow => { row with status })
    (fun row => decide (row.clubid = club ∧ row.status ≠ del)) hkeyed.memberIds hrow
  change (Rows.update _ _ _ _).countP _ + _ = t.members.countP _
  by_cases hclub : row.clubid = club
  · by_cases hdel : status = del
    · simp only [hclub, hlive, hdel, ne_eq, not_true_eq_false, not_false_eq_true,
        and_true, and_false,
        decide_true, decide_false, if_true, Bool.false_eq_true, if_false] at hcount ⊢
      omega
    · simp only [hclub, hlive, hdel, ne_eq, not_false_eq_true, and_true, and_false,
        decide_true, if_true, if_false] at hcount ⊢
      omega
  · simp only [hclub, false_and, decide_false, if_false, Bool.false_eq_true] at hcount ⊢
    omega

/-- The role of the row that gets a status is less than a creater's: the club keeps its creaters. -/
theorem Tables.creaters_setStatus (hkeyed : t.Keyed) (hrow : row ∈ t.members)
    (hrole : row.roletype ≠ creater)
    (status : Int) (club : Nat) :
    (t.updateMember row.id ({ · with status })).creaters club = t.creaters club := by
  refine Rows.countP_update_of_keep fun row' hrow' hid => ?_
  rw [Rows.eq_of_ident_eq hkeyed.memberIds hrow' hrow hid]
  simp only [hrole, and_false]

theorem Tables.heads_setRole (id : Nat) (roletype : Int) (club : Nat) :
    (t.updateMember id ({ · with roletype })).heads club = t.heads club :=
  Rows.countP_update_of_keep fun _ _ _ => rfl

theorem Tables.creaters_setRole_of_ne (hkeyed : t.Keyed) (hrow : row ∈ t.members)
    (hrole : row.roletype ≠ creater)
    {roletype : Int} {club : Nat} (hne : roletype ≠ creater ∨ row.clubid ≠ club) :
    (t.updateMember row.id ({ · with roletype })).creaters club = t.creaters club := by
  refine Rows.countP_update_of_keep fun row' hrow' hid => ?_
  rw [Rows.eq_of_ident_eq hkeyed.memberIds hrow' hrow hid]
  rcases hne with hne | hne
  · simp only [hrole, hne, and_false]
  · simp only [hne, false_and]

/-- The clubs that are not dissolved were none before, and their count and rows change alike. -/
theorem Tables.Sound.recount (hsound : t.Sound)
    (hclubs : ∀ club' ∈ t'.clubs, club'.status = normal → ∃ club ∈ t.clubs, club.id = club'.id ∧
      club.status = normal ∧ club'.memberCount - t'.heads club.id = club.memberCount -
      t.heads club.id ∧
        t'.creaters club.id = t.creaters club.id) : t'.Sound := by
  constructor
  · intro club' hclub' hlive'
    obtain ⟨club, hclub, hid, hlive, hcount, -⟩ := hclubs club' hclub' hlive'
    have := hsound.counted club hclub hlive
    rw [hid] at this hcount
    omega
  · intro club' hclub' hlive'
    obtain ⟨club, hclub, hid, hlive, -, hcreaters⟩ := hclubs club' hclub' hlive'
    rw [← hid, hcreaters]
    exact hsound.oneCreater club hclub hlive

/-- The count of one club changes as its rows do. -/
theorem Tables.Sound.recount_one (hsound : t.Sound) {change : ClubInfo → ClubInfo} {d : Int}
    (hclubs : t'.clubs = Rows.update ClubInfo.id clubid change t.clubs)
    (hchange : ∀ club, (change club).id = club.id ∧ (change club).status = club.status ∧
      (change club).memberCount = club.memberCount + d)
    (hheads : ∀ club, (t'.heads club : Int) = t.heads club + if clubid = club then d else 0)
    (hcreaters : ∀ club, t'.creaters club = t.creaters club) : t'.Sound := by
  refine hsound.recount fun club' hclub' hlive' => ?_
  rw [hclubs] at hclub'
  obtain ⟨club, hclub, hnew⟩ := Rows.mem_update.1 hclub'
  refine ⟨club, hclub, ?_⟩
  rw [hheads, hcreaters]
  by_cases hid : club.id = clubid
  · obtain ⟨hsame, hstatus, hcount⟩ := hchange club
    rw [if_pos hid] at hnew
    subst hnew
    rw [if_pos hid.symm]
    exact ⟨hsame.symm, hstatus ▸ hlive', by omega, rfl⟩
  · rw [if_neg hid] at hnew
    subst hnew
    rw [if_neg fun h => hid h.symm]
    exact ⟨rfl, hlive', by omega, rfl⟩

end Counts

section Steps

variable {setUid applyid : Nat} {roletype status : Argument} {recorded expired : Bool}

/-- The tables differ in nothing but the applications. -/
structure SameRows (t t' : Tables) : Prop where
  clubs : t'.clubs = t.clubs
  members : t'.members = t.members
  nextClub : t'.nextClub = t.nextClub
  nextMember : t'.nextMember = t.nextMember

theorem SameRows.refl (t : Tables) : SameRows t t := ⟨rfl, rfl, rfl, rfl⟩

theorem SameRows.keyed (hsame : SameRows t t') (hkeyed : t.Keyed) : t'.Keyed := by
  obtain ⟨hclubs, hmembers, hclub, hmember⟩ := hsame
  refine ⟨?_, ?_, ?_, ?_, ?_⟩
  · exact hclubs ▸ hkeyed.clubIds
  · exact hmembers ▸ hkeyed.memberIds
  · rw [hclubs, hclub]
    exact hkeyed.clubBound
  · rw [hmembers, hclub, hmember]
    exact hkeyed.memberBound
  · exact hmembers ▸ hkeyed.unique

theorem SameRows.sound (hsame : SameRows t t') (hsound : t.Sound) : t'.Sound := by
  refine hsound.recount fun club hclub hlive => ⟨club, hsame.clubs ▸ hclub, rfl, hlive, ?_, ?_⟩
  · rw [Tables.heads, Tables.heads, hsame.members]
  · rw [Tables.creaters, Tables.creaters, hsame.members]

/-- Nobody has another role than before. -/
theorem GivesLess.of_roles (hroles : ∀ row' ∈ t'.members, ∃ row ∈ t.members, row.id = row'.id ∧
    row.roletype = row'.roletype) : GivesLess t uid t' :=
  fun row' hrow' _ => .inl (hroles row' hrow')

theorem SameRows.givesLess (hsame : SameRows t t') : GivesLess t uid t' :=
  .of_roles fun row hrow => ⟨row, hsame.members ▸ hrow, rfl, rfl⟩

theorem GivesLess.of_sameRows {t'' : Tables} (hgives : GivesLess t uid t')
    (hsame : SameRows t' t'') :
    GivesLess t uid t'' :=
  fun row' hrow' hlive => hgives row' (hsame.members ▸ hrow') hlive

theorem recordVerify_same : SameRows t (recordVerify db t applyid status recorded).1 := by
  unfold recordVerify
  split
  · exact .refl t
  · split
    · exact .refl t
    · exact .refl t
    · split
      · exact .refl t
      · exact ⟨rfl, rfl, rfl, rfl⟩

/-- **What a founded club does**: it has one member, its creater. -/
theorem Tables.Keyed.found (hkeyed : t.Keyed) (uid : Nat) (name : String) (areaid : Nat) :
    ((t.addClub uid name areaid).addMember t.nextClub uid creater).Keyed :=
  (hkeyed.addClub uid name areaid).addMember (Nat.lt_succ_self _)
    (fun row hrow _ hclub => absurd hclub (hkeyed.memberBound row hrow).2.ne) creater

theorem Tables.Sound.found (hkeyed : t.Keyed) (hsound : t.Sound) (uid : Nat) (name : String)
    (areaid : Nat) :
    ((t.addClub uid name areaid).addMember t.nextClub uid creater).Sound := by
  have hheads : ∀ club, ((t.addClub uid name areaid).addMember t.nextClub uid creater).heads club =
      t.heads club + if t.nextClub = club then 1 else 0 := Tables.heads_addMember creater
  have hcreaters : ∀ club, ((t.addClub uid name areaid).addMember t.nextClub uid creater).creaters
      club =
      t.creaters club + if t.nextClub = club ∧ creater = creater then 1 else 0 :=
    Tables.creaters_addMember creater
  have hold : ∀ club ∈ t.clubs, t.nextClub ≠ club.id :=
    fun club hclub => (hkeyed.clubBound club hclub).ne'
  obtain ⟨hzero, hzero'⟩ := hkeyed.count_nextClub
  constructor
  · intro club hclub hlive
    rw [hheads]
    rcases List.mem_append.1 hclub with hclub | hclub
    · rw [if_neg (hold club hclub)]
      exact hsound.counted club hclub hlive
    · rw [List.mem_singleton.1 hclub, hzero, if_pos rfl]
      rfl
  · intro club hclub hlive
    rw [hcreaters]
    rcases List.mem_append.1 hclub with hclub | hclub
    · rw [if_neg fun h => hold club hclub h.1]
      exact hsound.oneCreater club hclub hlive
    · rw [List.mem_singleton.1 hclub, hzero', if_pos ⟨rfl, rfl⟩]

theorem GivesLess.found (hkeyed : t.Keyed) (uid : Nat) (name : String) (areaid : Nat) :
    GivesLess t uid ((t.addClub uid name areaid).addMember t.nextClub uid creater) := by
  intro row' hrow' hlive
  rcases List.mem_append.1 hrow' with hrow' | hrow'
  · exact .inl ⟨row', hrow', rfl, rfl⟩
  · rw [List.mem_singleton.1 hrow'] at hlive
    obtain ⟨club, hclub, hid, -⟩ := hlive
    exact absurd hid (hkeyed.clubBound club hclub).ne

/-- The tables after a member has come in. -/
def Tables.joined (t : Tables) (clubid uid : Nat) : Tables :=
  (t.addMember clubid uid ordinary).updateClub clubid fun club =>
    { club with memberCount := club.memberCount + 1 }

theorem Tables.Keyed.joined (hkeyed : t.Keyed) (hlive : t.Live clubid)
    (hnone : t.member? clubid uid = none) :
    (t.joined clubid uid).Keyed := by
  obtain ⟨club, hclub, rfl, -⟩ := hlive
  refine (hkeyed.addMember (hkeyed.clubBound club hclub)
    (fun row hrow hlive hsame => ?_) ordinary).updateClub
    fun _ => rfl
  exact Tables.member?_none hnone hrow hlive hsame

theorem Tables.Sound.joined (hsound : t.Sound) : (t.joined clubid uid).Sound := by
  have hheads : ∀ club, (t.joined clubid uid).heads club = t.heads club + if clubid =
      club then 1 else 0 :=
    Tables.heads_addMember ordinary
  have hcreaters : ∀ club, (t.joined clubid uid).creaters club = t.creaters club := by
    intro club
    have := @Tables.creaters_addMember t clubid uid ordinary club
    rw [if_neg fun h => absurd h.2 (by decide)] at this
    exact this
  refine hsound.recount_one rfl (fun _ => ⟨rfl, rfl, rfl⟩) (fun club => ?_) hcreaters
  rw [hheads]
  push_cast
  rfl

/-- Who lets a member in has a role of his own that is greater than his. -/
theorem GivesLess.joined (hkeyed : t.Keyed) {caller : Nat} (hrow : row ∈ t.members)
    (hlive : row.status ≠ del)
    (hclub : row.clubid = clubid) (huid : row.uid = caller) (hrole : manager ≤ row.roletype) :
    GivesLess t caller (t.joined clubid uid) := by
  intro row' hrow' _
  rcases List.mem_append.1 hrow' with hrow' | hrow'
  · exact .inl ⟨row', hrow', rfl, rfl⟩
  · rw [List.mem_singleton.1 hrow']
    refine .inr ⟨row, hclub ▸ huid ▸ hkeyed.member?_eq hrow hlive, ?_⟩
    have hless : ordinary < manager := by decide
    exact lt_of_lt_of_le hless hrole

theorem verifyInClubRoom_same :
    SameRows t (verifyInClubRoom db t applyid status recorded expired).1 := by
  unfold verifyInClubRoom
  split
  · exact ⟨rfl, rfl, rfl, rfl⟩
  · exact recordVerify_same

/-- A verification changes nothing but the applications, or someone comes in who was not there,
passed by a member who is a manager at least. -/
theorem verifyInClub_cases :
    SameRows t (verifyInClub db t uid applyid status recorded expired).1 ∨
      ∃ clubid uid' row, t.Live clubid ∧ t.member? clubid uid' = none ∧ row ∈ t.members ∧
      row.status ≠ del ∧
        row.clubid = clubid ∧ row.uid = uid ∧ manager ≤ row.roletype ∧
        SameRows (t.joined clubid uid')
        (verifyInClub db t uid applyid status recorded expired).1 := by
  unfold verifyInClub
  cases t.applies.find? fun row => row.status = 0 ∧ row.id = applyid with
  | none => exact .inl (.refl t)
  | some apply =>
      dsimp only
      split
      · exact .inl (.refl t)
      · rename_i hauth
        split
        · exact .inl verifyInClubRoom_same
        · split
          · exact .inl (.refl t)
          · rename_i hnone
            cases hclub : t.clubs.find? fun club => club.status = normal ∧
                club.id = apply.clubid with
            | none => exact .inl (.refl t)
            | some club =>
                dsimp only
                split
                · exact .inl (.refl t)
                · split
                  · refine .inr ?_
                    rw [Bool.not_eq_true', Bool.not_eq_false, List.any_eq_true] at hauth
                    obtain ⟨row, hrow, hcaller⟩ := hauth
                    rw [decide_eq_true_eq] at hcaller
                    obtain ⟨hlive, hsame, huid, hrole⟩ := hcaller
                    have hfound := List.find?_some hclub
                    rw [decide_eq_true_eq] at hfound
                    rw [Option.not_isSome_iff_eq_none] at hnone
                    exact ⟨apply.clubid, apply.uid, row,
                      ⟨club, List.mem_of_find?_eq_some hclub, hfound.2, hfound.1⟩, hnone, hrow,
                        hlive, hsame,
                      huid, hrole, recordVerify_same⟩
                  · exact .inl recordVerify_same

end Steps

section Changes

variable {setUid : Nat} {roletype status : Argument}

theorem Tables.Keyed.setStatus (hkeyed : t.Keyed) (hrow : row ∈ t.members)
    (hlive : row.status ≠ del)
    (status : Int) : (t.updateMember row.id ({ · with status })).Keyed :=
  hkeyed.updateMember hrow hlive (fun _ => rfl) (fun _ => rfl) fun _ => rfl

theorem Tables.Keyed.setRole (hkeyed : t.Keyed) (hrow : row ∈ t.members) (hlive : row.status ≠ del)
    (roletype : Int) : (t.updateMember row.id ({ · with roletype })).Keyed :=
  hkeyed.updateMember hrow hlive (fun _ => rfl) (fun _ => rfl) fun _ => rfl

theorem GivesLess.setStatus (id : Nat) (status : Int) :
    GivesLess t uid (t.updateMember id ({ · with status })) := by
  refine .of_roles fun row' hrow' => ?_
  obtain ⟨row, hrow, rfl⟩ := Rows.mem_update.1 hrow'
  refine ⟨row, hrow, ?_⟩
  split_ifs <;> exact ⟨rfl, rfl⟩

/-- A status that is not counted is set to another one than −1, or in a club that is dissolved. -/
theorem Tables.Sound.setStatus (hkeyed : t.Keyed) (hsound : t.Sound) (hrow : row ∈ t.members)
    (hlive : row.status ≠ del) (hrole : row.roletype ≠ creater) {status : Int}
    (hstatus : status ≠ del ∨ ¬t.Live row.clubid) :
    (t.updateMember row.id ({ · with status })).Sound := by
  refine hsound.recount fun club hclub hnormal => ⟨club, hclub, rfl, hnormal, ?_, ?_⟩
  · have hheads := hkeyed.heads_setStatus hrow hlive status club.id
    rw [if_neg, Nat.add_zero] at hheads
    · rw [hheads]
    · rintro ⟨hsame, hdel⟩
      rcases hstatus with hstatus | hstatus
      · exact hstatus hdel
      · exact hstatus ⟨club, hclub, hsame.symm, hnormal⟩
  · exact Tables.creaters_setStatus hkeyed hrow hrole status club.id

/-- A row of a club that is not dissolved is deleted, and the count stays. -/
theorem Tables.Sound.not_sound_delete (hkeyed : t.Keyed) (hsound : t.Sound) (hrow : row ∈ t.members)
    (hlive : row.status ≠ del) (hclub : t.Live row.clubid) :
    ¬(t.updateMember row.id ({ · with status := del })).Sound := by
  intro hsound'
  obtain ⟨club, hmem, hid, hnormal⟩ := hclub
  have hcount := hsound.counted club hmem hnormal
  have hcount' := hsound'.counted club hmem hnormal
  have hheads := hkeyed.heads_setStatus hrow hlive del club.id
  rw [if_pos ⟨hid.symm, rfl⟩] at hheads
  omega

/-- The tables after a member is deleted and counted off. -/
def Tables.removed (t : Tables) (clubid id : Nat) : Tables :=
  (t.updateMember id ({ · with status := del })).updateClub clubid fun club =>
    { club with memberCount := club.memberCount - 1 }

theorem Tables.Keyed.removed (hkeyed : t.Keyed) (hrow : row ∈ t.members) (hlive : row.status ≠ del)
    (clubid : Nat) : (t.removed clubid row.id).Keyed :=
  (hkeyed.setStatus hrow hlive del).updateClub fun _ => rfl

theorem Tables.Sound.removed (hkeyed : t.Keyed) (hsound : t.Sound) (hrow : row ∈ t.members)
    (hlive : row.status ≠ del) (hrole : row.roletype ≠ creater) :
    (t.removed row.clubid row.id).Sound := by
  refine hsound.recount_one (d := -1) rfl (fun _ => ⟨rfl, rfl, rfl⟩) (fun club => ?_) fun club => ?_
  · have hheads := hkeyed.heads_setStatus hrow hlive del club
    have hsame : (t.removed row.clubid row.id).heads club =
      (t.updateMember row.id ({ · with status := del })).heads club := rfl
    rw [hsame]
    by_cases hclub : row.clubid = club
    · rw [if_pos ⟨hclub, rfl⟩] at hheads
      rw [if_pos hclub]
      omega
    · rw [if_neg fun h => hclub h.1] at hheads
      rw [if_neg hclub]
      omega
  · exact Tables.creaters_setStatus hkeyed hrow hrole del club

theorem GivesLess.removed (clubid id : Nat) : GivesLess t uid (t.removed clubid id) :=
  GivesLess.setStatus id del

theorem Tables.Sound.setRole (hkeyed : t.Keyed) (hsound : t.Sound) (hrow : row ∈ t.members)
    (hrole : row.roletype ≠ creater) {roletype : Int}
    (hne : roletype ≠ creater ∨ ¬t.Live row.clubid) :
    (t.updateMember row.id ({ · with roletype })).Sound := by
  refine hsound.recount fun club hclub hnormal => ⟨club, hclub, rfl, hnormal, ?_, ?_⟩
  · rw [Tables.heads_setRole]
  · refine Tables.creaters_setRole_of_ne hkeyed hrow hrole (hne.imp_right fun hdead hsame => ?_)
    exact hdead ⟨club, hclub, hsame.symm, hnormal⟩

/-- A role is given by someone who has a greater one exactly if it is less than his. -/
theorem givesLess_setRole_iff (hkeyed : t.Keyed) {setUid : Nat}
    (hmay : t.MayModify uid clubid setUid row set)
    (roletype : Int) : GivesLess t uid (t.updateMember set.id ({ · with roletype })) ↔
      (t.Live clubid → roletype < row.roletype) := by
  obtain ⟨hset, -, hclub, -⟩ := Tables.member?_some hmay.member
  constructor
  · intro hgives hlive
    have hnew : (if set.id = set.id then { set with roletype } else set) ∈
        (t.updateMember set.id ({ · with roletype })).members := Rows.mem_update_of_mem hset
    rw [if_pos rfl] at hnew
    rcases hgives _ hnew (hclub.symm ▸ hlive) with ⟨old, hold, hid, hrole⟩ | ⟨row', hrow', hless⟩
    · rw [Rows.eq_of_ident_eq hkeyed.memberIds hold hset hid] at hrole
      exact lt_of_eq_of_lt hrole.symm hmay.less
    · change t.member? set.clubid uid = some row' at hrow'
      rw [hclub, hmay.caller, Option.some.injEq] at hrow'
      exact hrow' ▸ hless
  · intro hless row' hrow' hlive
    obtain ⟨old, hold, rfl⟩ := Rows.mem_update.1 hrow'
    by_cases hid : old.id = set.id
    · obtain rfl := Rows.eq_of_ident_eq hkeyed.memberIds hold hset hid
      rw [if_pos rfl] at hlive ⊢
      exact .inr ⟨row, by rw [← hmay.caller, ← hclub], hless (hclub ▸ hlive)⟩
    · rw [if_neg hid]
      exact .inl ⟨old, hold, rfl, rfl⟩

theorem Tables.Keyed.dissolved (hkeyed : t.Keyed) (clubid : Nat) :
    (t.updateClub clubid ({ · with status := del })).Keyed :=
  hkeyed.updateClub fun _ => rfl

theorem Tables.Sound.dissolved (hsound : t.Sound) (clubid : Nat) :
    (t.updateClub clubid ({ · with status := del })).Sound := by
  refine hsound.recount fun club' hclub' hnormal => ?_
  obtain ⟨club, hclub, rfl⟩ := Rows.mem_update.1 hclub'
  by_cases hid : club.id = clubid
  · rw [if_pos hid] at hnormal
    exact absurd hnormal.symm normal_ne_del
  · rw [if_neg hid] at hnormal ⊢
    exact ⟨club, hclub, rfl, hnormal, rfl, rfl⟩

theorem Tables.MayModify.le_creater (hmay : t.MayModify uid clubid setUid row set) :
    row.roletype ≤ creater := by
  have hauth := hmay.authority
  unfold checkAuthority at hauth
  rw [hmay.caller] at hauth
  dsimp only at hauth
  have hle : manager ≤ creater := by decide
  split_ifs at hauth with hcreater hmanager
  · exact hcreater.le
  · exact hmanager.le.trans hle
  · exact absurd hauth (by decide)
  · exact absurd hauth (by decide)

theorem Tables.MayModify.set_ne_creater (hmay : t.MayModify uid clubid setUid row set) :
    set.roletype ≠ creater :=
  (hmay.less.trans_le hmay.le_creater).ne

theorem setMemberRoletype_eq (hmay : t.MayModify uid clubid setUid row set) :
    setMemberRoletype db t uid clubid setUid roletype status =
    setMember db t clubid set.id roletype status := by
  unfold setMemberRoletype
  rw [hmay.caller]
  dsimp only
  rw [hmay.authority, if_neg (by decide), hmay.member]
  exact if_neg (not_le.2 hmay.less)

theorem setMemberRoletype_refused (hmay : ¬∃ row set, t.MayModify uid clubid setUid row set) :
    (setMemberRoletype db t uid clubid setUid roletype status).1 = t := by
  unfold setMemberRoletype
  cases hcaller : t.member? clubid uid with
  | none => rfl
  | some row =>
      dsimp only
      split
      · rfl
      · rename_i hauth
        cases hset : t.member? clubid setUid with
        | none => rfl
        | some set =>
            dsimp only
            split
            · rfl
            · rename_i hless
              rw [Bool.not_eq_true', Bool.not_eq_false] at hauth
              exact absurd ⟨row, set, hcaller, hauth, hset, not_le.1 hless⟩ hmay

theorem Tables.Keyed.setMember (hkeyed : t.Keyed) (hset : set ∈ t.members)
    (hlive : set.status ≠ del) :
    (setMember db t clubid set.id roletype status).1.Keyed := by
  unfold Club.setMember
  split
  · exact hkeyed
  · split
    · exact hkeyed
    · dsimp only
      split_ifs
      · exact (hkeyed.setStatus hset hlive _).updateClub fun _ => rfl
      · exact hkeyed.setStatus hset hlive _
  · split
    · exact hkeyed
    · exact hkeyed
    · split
      · exact hkeyed
      · exact hkeyed.setRole hset hlive _

theorem Database.take_del (db : Database) : db.take (.int del) = some del :=
  db.take_int del (by decide) (by decide)

/-- **A change of a member is taken well unless the caller oversteps.** -/
theorem setMember_iff (hkeyed : t.Keyed) (hsound : t.Sound)
    (hmay : t.MayModify uid clubid setUid row set) :
    ((setMember db t clubid set.id roletype status).1.Sound ∧
      GivesLess t uid (setMember db t clubid set.id roletype status).1) ↔
      ¬Event.Oversteps db t (.setMemberRoletype uid clubid setUid roletype status) := by
  obtain ⟨hset, hlive, hclub, -⟩ := Tables.member?_some hmay.member
  have hrole := hmay.set_ne_creater
  have hkept : t.Sound ∧ GivesLess t uid t := ⟨hsound, (SameRows.refl t).givesLess⟩
  cases status with
  | unprintable =>
      refine iff_of_true hkept ?_
      rintro ⟨-, _, _, -, ⟨_, hstatus, -⟩ | ⟨hstatus, -⟩⟩ <;> cases hstatus
  | literal literal =>
      cases htake : db.take literal with
      | none =>
          have heq : (setMember db t clubid set.id roletype (.literal literal)).1 = t := by
            simp only [Club.setMember, htake]
          rw [heq]
          refine iff_of_true hkept ?_
          rintro ⟨-, _, _, -, ⟨_, hstatus, -, htaken⟩ | ⟨hstatus, -⟩⟩
          · cases hstatus
            rw [htake] at htaken
            cases htaken
          · cases hstatus
      | some taken =>
          by_cases hint : literal = .int del
          · subst hint
            rw [db.take_del, Option.some.injEq] at htake
            subst htake
            have heq : (setMember db t clubid set.id roletype (.literal (.int del))).1 =
                t.removed clubid set.id := by
              simp only [Club.setMember, db.take_del, if_true]
              rfl
            rw [heq]
            refine iff_of_true ⟨?_, .removed clubid set.id⟩ ?_
            · exact hclub ▸ hsound.removed hkeyed hset hlive hrole
            · rintro ⟨-, _, _, -, ⟨_, hstatus, hne, -⟩ | ⟨hstatus, -⟩⟩
              · cases hstatus
                exact hne rfl
              · cases hstatus
          · have heq : (setMember db t clubid set.id roletype (.literal literal)).1 =
                t.updateMember set.id ({ · with status := taken }) := by
              simp only [Club.setMember, htake, if_neg hint]
            rw [heq]
            constructor
            · -- the row would be deleted and not be counted off
              rintro ⟨hsound', -⟩ ⟨hclubLive, _, _, -, ⟨_, hstatus, -, htaken⟩ | ⟨hstatus, -⟩⟩
              · cases hstatus
                rw [htake, Option.some.injEq] at htaken
                subst htaken
                exact hsound.not_sound_delete hkeyed hset hlive (hclub ▸ hclubLive) hsound'
              · cases hstatus
            · intro hwithin
              refine ⟨hsound.setStatus hkeyed hset hlive hrole ?_, .setStatus set.id taken⟩
              by_cases hdel : taken = del
              · refine .inr fun hclubLive => hwithin ⟨hclub ▸ hclubLive, row, set, hmay, .inl ?_⟩
                exact ⟨literal, rfl, hint, hdel ▸ htake⟩
              · exact .inl hdel
  | falsy =>
      cases roletype with
      | unprintable =>
          refine iff_of_true hkept ?_
          rintro ⟨-, _, _, -, ⟨_, hstatus, -⟩ | ⟨-, _, _, hrole, -⟩⟩
          · cases hstatus
          · cases hrole
      | falsy =>
          refine iff_of_true hkept ?_
          rintro ⟨-, _, _, -, ⟨_, hstatus, -⟩ | ⟨-, _, _, hrole, -⟩⟩
          · cases hstatus
          · cases hrole
      | literal literal =>
          cases htake : db.take literal with
          | none =>
              have heq : (setMember db t clubid set.id (.literal literal) .falsy).1 = t := by
                simp only [Club.setMember, htake]
              rw [heq]
              refine iff_of_true hkept ?_
              rintro ⟨-, _, _, -, ⟨_, hstatus, -⟩ | ⟨-, _, _, hrole, htaken, -⟩⟩
              · cases hstatus
              · cases hrole
                rw [htake] at htaken
                cases htaken
          | some taken =>
              have heq : (setMember db t clubid set.id (.literal literal) .falsy).1 =
                  t.updateMember set.id ({ · with roletype := taken }) := by
                simp only [Club.setMember, htake]
              rw [heq, givesLess_setRole_iff hkeyed hmay]
              constructor
              · rintro ⟨-, hless⟩ ⟨hclubLive, row', _, hmay',
                  ⟨_, hstatus, -⟩ | ⟨-, _, _, hrole', htaken, hle⟩⟩
                · cases hstatus
                · cases hrole'
                  rw [htake, Option.some.injEq] at htaken
                  have hrow : some row = some row' := hmay.caller.symm.trans hmay'.caller
                  cases hrow
                  have := hless hclubLive
                  omega
              · intro hwithin
                have hless : t.Live clubid → taken < row.roletype := fun hclubLive => by
                  by_contra hle
                  exact hwithin ⟨hclubLive, row, set, hmay,
                    .inr ⟨rfl, literal, taken, rfl, htake, not_lt.1 hle⟩⟩
                refine ⟨hsound.setRole hkeyed hset hrole ?_, hless⟩
                by_cases hclubLive : t.Live clubid
                · exact .inl ((hless hclubLive).trans_le hmay.le_creater).ne
                · exact .inr (hclub.symm ▸ hclubLive)

end Changes

section Exact

theorem Tables.Keyed.step (hkeyed : t.Keyed) (event : Event) : (t.step db event).Keyed := by
  cases event with
  | createClub uid name areaid =>
      show (createClub db t uid name areaid).1.Keyed
      unfold createClub
      split_ifs
      · exact hkeyed
      · exact hkeyed
      · exact hkeyed
      · exact hkeyed.found uid name areaid
  | applyInClub uid clubid =>
      show (applyInClub t uid clubid).1.Keyed
      unfold applyInClub
      split_ifs
      · exact hkeyed
      · exact hkeyed
      · exact SameRows.keyed (t := t) ⟨rfl, rfl, rfl, rfl⟩ hkeyed
  | applyInClubRoom uid clubid roomid recent =>
      show (applyInClubRoom t uid clubid roomid recent).1.Keyed
      unfold applyInClubRoom
      split_ifs
      · exact hkeyed
      · exact SameRows.keyed (t := t) ⟨rfl, rfl, rfl, rfl⟩ hkeyed
  | verifyInClub uid applyid status recorded expired =>
      rcases @verifyInClub_cases db t uid applyid status recorded expired with
        hsame | ⟨clubid, uid', row, hlive, hnone, -, -, -, -, -, hsame⟩
      · exact hsame.keyed hkeyed
      · exact hsame.keyed (hkeyed.joined hlive hnone)
  | setMemberRoletype uid clubid setUid roletype status =>
      show (setMemberRoletype db t uid clubid setUid roletype status).1.Keyed
      by_cases hmay : ∃ row set, t.MayModify uid clubid setUid row set
      · obtain ⟨row, set, hmay⟩ := hmay
        obtain ⟨hset, hlive, -⟩ := Tables.member?_some hmay.member
        rw [setMemberRoletype_eq hmay]
        exact hkeyed.setMember hset hlive
      · rw [setMemberRoletype_refused hmay]
        exact hkeyed
  | quitClub uid clubid =>
      show (quitClub t uid clubid).1.Keyed
      unfold quitClub
      cases hrow : t.member? clubid uid with
      | none => exact hkeyed
      | some row =>
          obtain ⟨hmem, hlive, -⟩ := Tables.member?_some hrow
          dsimp only
          split_ifs
          · exact hkeyed.dissolved clubid
          · exact hkeyed.removed hmem hlive clubid

/-- **A call is taken well unless the caller oversteps.** -/
theorem step_iff (hkeyed : t.Keyed) (hsound : t.Sound) (event : Event) :
    t.TakesWell db event ↔ ¬event.Oversteps db t := by
  have hkept : ∀ uid, t.Sound ∧ GivesLess t uid t :=
    fun uid => ⟨hsound, (SameRows.refl t).givesLess⟩
  cases event with
  | createClub uid name areaid =>
      refine iff_of_true ?_ (fun h => h)
      show (createClub db t uid name areaid).1.Sound ∧
        GivesLess t uid (createClub db t uid name areaid).1
      unfold createClub
      split_ifs
      · exact hkept uid
      · exact hkept uid
      · exact hkept uid
      · exact ⟨hsound.found hkeyed uid name areaid, .found hkeyed uid name areaid⟩
  | applyInClub uid clubid =>
      refine iff_of_true ?_ (fun h => h)
      have hsame : SameRows t (applyInClub t uid clubid).1 := by
        unfold applyInClub
        split_ifs <;> exact ⟨rfl, rfl, rfl, rfl⟩
      exact ⟨hsame.sound hsound, hsame.givesLess⟩
  | applyInClubRoom uid clubid roomid recent =>
      refine iff_of_true ?_ (fun h => h)
      have hsame : SameRows t (applyInClubRoom t uid clubid roomid recent).1 := by
        unfold applyInClubRoom
        split_ifs <;> exact ⟨rfl, rfl, rfl, rfl⟩
      exact ⟨hsame.sound hsound, hsame.givesLess⟩
  | verifyInClub uid applyid status recorded expired =>
      refine iff_of_true ?_ (fun h => h)
      rcases @verifyInClub_cases db t uid applyid status recorded expired with
        hsame | ⟨clubid, uid', row, -, -, hrow, hlive, hclub, huid, hrole, hsame⟩
      · exact ⟨hsame.sound hsound, hsame.givesLess⟩
      · exact ⟨hsame.sound hsound.joined,
          (GivesLess.joined hkeyed hrow hlive hclub huid hrole).of_sameRows hsame⟩
  | setMemberRoletype uid clubid setUid roletype status =>
      by_cases hmay : ∃ row set, t.MayModify uid clubid setUid row set
      · obtain ⟨row, set, hmay⟩ := hmay
        show ((setMemberRoletype db t uid clubid setUid roletype status).1.Sound ∧
          GivesLess t uid (setMemberRoletype db t uid clubid setUid roletype status).1) ↔ _
        rw [setMemberRoletype_eq hmay]
        exact setMember_iff hkeyed hsound hmay
      · refine iff_of_true ?_ fun ⟨_, row, set, hrow, _⟩ => hmay ⟨row, set, hrow⟩
        show (setMemberRoletype db t uid clubid setUid roletype status).1.Sound ∧
          GivesLess t uid (setMemberRoletype db t uid clubid setUid roletype status).1
        rw [setMemberRoletype_refused hmay]
        exact hkept uid
  | quitClub uid clubid =>
      refine iff_of_true ?_ (fun h => h)
      show (quitClub t uid clubid).1.Sound ∧ GivesLess t uid (quitClub t uid clubid).1
      unfold quitClub
      cases hrow : t.member? clubid uid with
      | none => exact hkept uid
      | some row =>
          obtain ⟨hmem, hlive, rfl, -⟩ := Tables.member?_some hrow
          dsimp only
          split_ifs with hrole
          · exact ⟨hsound.dissolved _, .of_roles fun row' hrow' => ⟨row', hrow', rfl, rfl⟩⟩
          · exact ⟨hsound.removed hkeyed hmem hlive hrole, .removed row.clubid row.id⟩

/-- The tables before the first club. -/
def Tables.start (areas : List Nat) : Tables := { areas }

theorem Tables.keyed_start (areas : List Nat) : (Tables.start areas).Keyed :=
  ⟨List.nodup_nil, List.nodup_nil, fun _ h => absurd h List.not_mem_nil,
    fun _ h => absurd h List.not_mem_nil,
    fun _ h => absurd h List.not_mem_nil⟩

theorem Tables.sound_start (areas : List Nat) : (Tables.start areas).Sound :=
  ⟨fun _ h => absurd h List.not_mem_nil, fun _ h => absurd h List.not_mem_nil⟩

/-- **Roles and head counts are kept in exactly the runs in which nobody oversteps.** -/
theorem roles_and_heads_iff (db : Database) (areas : List Nat) (events : List Event) :
    (∀ n event, events[n]? = some event →
      (Run.exec (Tables.step db) (.start areas) (events.take n)).TakesWell db event) ↔
      Run.Along (Tables.step db) (fun tables event => ¬event.Oversteps db tables)
      (.start areas) events :=
  @Run.forall_index_iff _ _ (Tables.step db) (fun tables event => ¬event.Oversteps db tables)
    (Tables.TakesWell db) Tables.Keyed Tables.Sound (fun _ event hkeyed => hkeyed.step event)
    (fun _ _ htaken => htaken.1)
      (fun _ event hkeyed hsound => step_iff hkeyed hsound event) events _
    (Tables.keyed_start areas) (Tables.sound_start areas)

/-- A database that refuses what is not an integer of the column. -/
def strictDatabase : Database where
  take
    | .int n => if -2 ^ 31 ≤ n ∧ n < 2 ^ 31 then some n else none
    | .text _ => none
  take_int _ hlow hhigh := if_pos ⟨hlow, hhigh⟩
  sameName := (· == ·)

/-- User 1 founds a club and lets user 2 in, whom he makes a creater. -/
def secondCreater : List Event :=
  [.createClub 1 "club" 1, .applyInClub 2 1, .verifyInClub 1 1 (.literal (.int 1)) true false,
    .setMemberRoletype 1 1 2 (.literal (.int creater)) .falsy]

/-- The caller's own role is given away: the club has two creaters. -/
theorem roles_not_kept :
    (Run.exec (Tables.step strictDatabase) (.start [1]) secondCreater).creaters 1 = 2 ∧
      ¬∀ (db : Database) (areas : List Nat) (events : List Event) n event, events[n]? = some event →
        (Run.exec (Tables.step db) (.start areas) (events.take n)).TakesWell db event := by
  have htwo : (Run.exec (Tables.step strictDatabase) (.start [1]) secondCreater).creaters 1 =
    2 := by decide
  refine ⟨htwo, fun h => ?_⟩
  have hone :=
    (h strictDatabase [1] secondCreater 3 _ rfl).1.oneCreater ⟨1, 1, "club", 1, 2, 500, 0⟩
    (by decide) rfl
  exact absurd (hone.symm.trans htwo) (by decide)

end Exact

end SdyServer.Club
