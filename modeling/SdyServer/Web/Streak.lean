import SdyServer.Web.SignIn

/-!
# The streak of sign-ins

When the requests of a user do not overlap and each of them is done within one day, the rewards
follow the calendar: one a day at most, counted from one to seven and from one again, and from one
after a missed day.
-/

namespace SdyServer.Web

section Statement

/-- The day that a reward on `today` counts, after the earlier ones. -/
def nextDay (issued : List Reward) (today : Nat) : Nat :=
  match issued.getLast? with
  | none => 1
  | some last => if last.date + 1 = today then last.day % 7 + 1 else 1

/-- One reward a day at most, each with the day that follows from the one before it, the extra coins
on the seventh day, and answers that tell the client what is stored. -/
structure Streak (issued : List Reward) (answers : List Answer) : Prop where
  once : issued.Pairwise fun a b => a.date ≠ b.date
  day : ∀ earlier reward later, issued = earlier ++ reward :: later →
    reward.day = nextDay earlier reward.date
  bonus : ∀ reward ∈ issued, reward.bonus.isSome = true ↔ reward.day = 7
  stored : ∀ answer ∈ answers, answer.stored = some answer.day

/-- What a run has to respect: a request begins when no other is under way, no day ends during a
request, and a look-up that fails the second time does not lead to a second row. -/
def clean (state : State) : Event → Bool
  | .tick seconds => state.requests.size = 0 || date (state.now + seconds) = date state.now
  | .request _ _ => state.requests.size = 0
  | .execute id ok =>
      match state.requests.get id with
      | some (.selectingAgain _ _) => ok || state.table.uniqueUid || state.table.rows.isEmpty
      | _ => true
  | _ => true

end Statement

section Calendar

theorem getUserQiandao_cons (row : Row) (rows : List Row) (now : Nat) :
    getUserQiandao (row :: rows) now =
      ⟨true,
        if date row.lastTime + 1 < date now then 0
        else if date row.lastTime ≠ date now ∧ 7 ≤ row.qiandaoNum then 0
        else row.qiandaoNum,
        decide (date row.lastTime = date now)⟩ := by
  have hsign : (midnight now ≤ row.lastTime ∧ row.lastTime < midnight now + 86400) ↔
      date row.lastTime = date now := by
    unfold midnight date
    omega
  have hold : row.lastTime + 86400 < midnight now ↔ date row.lastTime + 1 < date now := by
    unfold midnight date
    omega
  simp only [getUserQiandao, List.head?_cons, hsign, hold, decide_eq_false_iff_not, ne_eq]

end Calendar

section Invariant

def Recorded (rows : List Row) (issued : List Reward) : Prop :=
  match rows, issued.getLast? with
  | [], none => True
  | [row], some last => row.qiandaoNum = last.day ∧ date row.lastTime = last.date
  | _, _ => False

structure Claimed (data : Qiandao) (issued : List Reward) (today : Nat) : Prop where
  day : data.qiandaoNum + 1 = nextDay issued today
  new : ∀ reward ∈ issued, reward.date < today

def Fits (state : State) : Request → Prop
  | .selecting _ => Recorded state.table.rows state.issued
  | .selected _ rows => Recorded state.table.rows state.issued ∧
      (rows = none ∨ rows = some state.table.rows)
  | .selectingAgain _ data => Recorded state.table.rows state.issued ∧
      Claimed data state.issued (date state.now)
  | .selectedAgain _ data rows => Recorded state.table.rows state.issued ∧
      Claimed data state.issued (date state.now) ∧
      (rows = some state.table.rows ∨
        rows = none ∧ (state.table.uniqueUid = true ∨ state.table.rows = []))
  | .writing data sql => Recorded state.table.rows state.issued ∧
      Claimed data state.issued (date state.now) ∧
      ∃ name time, date time = date state.now ∧
        (sql = setUserQiandao (some state.table.rows) time name ∨
          sql = .insert ⟨name, 1, time⟩ ∧
            (state.table.uniqueUid = true ∨ state.table.rows = []))
  | .written data affected => Claimed data state.issued (date state.now) ∧
      (affected = some 1 ∧ (∃ row, state.table.rows = [row] ∧
          row.qiandaoNum = data.qiandaoNum + 1 ∧ date row.lastTime = date state.now) ∨
        affected ≠ some 1 ∧ Recorded state.table.rows state.issued)
  | .paying day => Recorded state.table.rows state.issued ∧
      state.table.rows.head?.map Row.qiandaoNum = some day

structure History (issued : List Reward) (today : Nat) : Prop where
  past : ∀ reward ∈ issued, reward.date ≤ today
  ordered : issued.Pairwise fun a b => a.date < b.date
  day : ∀ earlier reward later, issued = earlier ++ reward :: later →
    reward.day = nextDay earlier reward.date
  bonus : ∀ reward ∈ issued, reward.bonus.isSome = true ↔ reward.day = 7
  range : ∀ reward ∈ issued, 1 ≤ reward.day ∧ reward.day ≤ 7

structure SignInv (state : State) : Prop where
  history : History state.issued (date state.now)
  stored : ∀ answer ∈ state.answers, answer.stored = some answer.day
  alone : state.requests.entries = [] ∧ Recorded state.table.rows state.issued ∨
    ∃ id request, state.requests.entries = [(id, request)] ∧ Fits state request

end Invariant

section Lookup

variable {rows : List Row} {issued : List Reward} {now : Nat}

theorem nextDay_range (issued : List Reward) (today : Nat) :
    1 ≤ nextDay issued today ∧ nextDay issued today ≤ 7 := by
  unfold nextDay
  cases issued.getLast? with
  | none =>
      dsimp only
      omega
  | some last =>
      dsimp only
      split_ifs <;> omega

theorem recorded_cases (hrec : Recorded rows issued) :
    rows = [] ∧ issued = [] ∨ ∃ row last, rows = [row] ∧ issued.getLast? = some last ∧
      row.qiandaoNum = last.day ∧ date row.lastTime = last.date := by
  unfold Recorded at hrec
  match rows, hlast : issued.getLast? with
  | [], none => exact Or.inl ⟨rfl, List.getLast?_eq_none_iff.1 hlast⟩
  | [row], some last =>
      rw [hlast] at hrec
      exact Or.inr ⟨row, last, rfl, rfl, hrec⟩
  | [], some last =>
      rw [hlast] at hrec
      exact hrec.elim
  | [row], none =>
      rw [hlast] at hrec
      exact hrec.elim
  | _ :: _ :: _, none =>
      rw [hlast] at hrec
      exact hrec.elim
  | _ :: _ :: _, some _ =>
      rw [hlast] at hrec
      exact hrec.elim

theorem recorded_concat (row : Row) (issued : List Reward) (reward : Reward) :
    Recorded [row] (issued ++ [reward]) ↔
      row.qiandaoNum = reward.day ∧ date row.lastTime = reward.date := by
  unfold Recorded
  rw [List.getLast?_concat]

theorem claimed_of_recorded (hhist : History issued (date now)) (hrec : Recorded rows issued)
    (hnot : (getUserQiandao rows now).isSignIn = false) :
    Claimed (getUserQiandao rows now) issued (date now) := by
  rcases recorded_cases hrec with ⟨rfl, rfl⟩ | ⟨row, last, rfl, hlast, hnum, hdate⟩
  · exact ⟨rfl, fun _ h => absurd h List.not_mem_nil⟩
  · have hmem := List.mem_of_getLast? hlast
    have hrange := hhist.range last hmem
    have hpast := hhist.past last hmem
    rw [getUserQiandao_cons] at hnot ⊢
    rw [hdate] at hnot ⊢
    have hne : last.date ≠ date now := by simpa using hnot
    refine ⟨?_, ?_⟩
    · rw [nextDay, hlast, hnum]
      dsimp only
      split_ifs <;> omega
    · intro reward hreward
      obtain ⟨earlier, rfl⟩ := List.getLast?_eq_some_iff.1 hlast
      rcases List.mem_append.1 hreward with hearlier | hsame
      · have hlt := (List.pairwise_append.1 hhist.ordered).2.2 reward hearlier last
          (List.mem_singleton_self _)
        omega
      · rw [List.mem_singleton.1 hsame]
        omega

theorem execute_of_claimed {table : Table} {data : Qiandao} {sql : Sql}
    (hhist : History issued (date now)) (hrec : Recorded table.rows issued)
    (hclaimed : Claimed data issued (date now))
    (hsql : ∃ name time, date time = date now ∧
      (sql = setUserQiandao (some table.rows) time name ∨
        sql = .insert ⟨name, 1, time⟩ ∧ (table.uniqueUid = true ∨ table.rows = []))) :
    (table.execute sql).2 = some 1 ∧ (∃ row, (table.execute sql).1.rows = [row] ∧
        row.qiandaoNum = data.qiandaoNum + 1 ∧ date row.lastTime = date now) ∨
      (table.execute sql).2 ≠ some 1 ∧ (table.execute sql).1.rows = table.rows := by
  obtain ⟨name, time, htime, hsql⟩ := hsql
  obtain ⟨rows, uniqueUid⟩ := table
  dsimp only at hrec hsql ⊢
  rcases recorded_cases hrec with ⟨rfl, rfl⟩ | ⟨row, last, rfl, hlast, hnum, hdate⟩
  · have hinsert : sql = .insert ⟨name, 1, time⟩ := by
      rcases hsql with h | ⟨h, -⟩
      · exact h
      · exact h
    have hday : data.qiandaoNum + 1 = 1 := hclaimed.day
    subst hinsert
    refine Or.inl ⟨?_, ⟨name, 1, time⟩, ?_, hday.symm, htime⟩
    · simp [Table.execute]
    · simp [Table.execute]
  · rcases hsql with h | ⟨rfl, hunique⟩
    · have hnew := hclaimed.new last (List.mem_of_getLast? hlast)
      have hnot : (getUserQiandao [row] time).isSignIn = false := by
        rw [getUserQiandao_cons, hdate, htime]
        exact decide_eq_false (Nat.ne_of_lt hnew)
      have hday := (claimed_of_recorded (htime.symm ▸ hhist) hrec hnot).day
      have hrange := nextDay_range issued (date now)
      rw [htime, ← hclaimed.day] at hday
      have hupdate : sql = .update ⟨name, data.qiandaoNum + 1, time⟩ := by
        have hle : ¬(getUserQiandao [row] time).qiandaoNum + 1 > 7 := by
          rw [hday, hclaimed.day]
          omega
        have hrow : (getUserQiandao [row] time).hasRow = true := by rw [getUserQiandao_cons]
        rw [h, setUserQiandao, Option.map_some]
        dsimp only
        rw [if_pos hrow, hnot, if_neg Bool.false_ne_true, if_neg hle, hday]
      subst hupdate
      exact Or.inl ⟨rfl, _, rfl, rfl, htime⟩
    · have hunique' : uniqueUid = true := by simpa using hunique
      subst hunique'
      exact Or.inr ⟨by simp [Table.execute], by simp [Table.execute]⟩

end Lookup

section Step

variable {state : State} {id : Nat} {request : Request}

theorem get_of_entries {requests : LuaTable Nat Request} (h : requests.entries = [(id, request)])
    {id' : Nat} {request' : Request} (hget : requests.get id' = some request') :
    id' = id ∧ request' = request := by
  rw [LuaTable.get_eq_some_iff, h, List.mem_singleton] at hget
  exact ⟨congrArg Prod.fst hget, congrArg Prod.snd hget⟩

theorem entries_set {requests : LuaTable Nat Request}
    (h : requests.entries = [] ∨ ∃ request, requests.entries = [(id, request)])
    (request' : Request) :
    (requests.set id request').entries = [(id, request')] := by
  show LuaTable.setEntry id request' requests.entries = _
  rcases h with h | ⟨request, h⟩
  · rw [h]
    rfl
  · rw [h]
    simp [LuaTable.setEntry]

theorem entries_erase {requests : LuaTable Nat Request} (h : requests.entries = [(id, request)]) :
    (requests.erase id).entries = [] := by
  show requests.entries.filter _ = []
  rw [h]
  simp

theorem SignInv.set (state' : State) (hhist : History state'.issued (date state'.now))
    (hstored : ∀ answer ∈ state'.answers, answer.stored = some answer.day)
    (h : state'.requests.entries = [] ∨ ∃ request, state'.requests.entries = [(id, request)])
    {request' : Request} (hfits : Fits state' request') : SignInv (state'.set id request') :=
  ⟨hhist, hstored, Or.inr ⟨id, request', entries_set h request', hfits⟩⟩

theorem SignInv.finish (state' : State) (hhist : History state'.issued (date state'.now))
    (hstored : ∀ answer ∈ state'.answers, answer.stored = some answer.day)
    (h : state'.requests.entries = [(id, request)])
    (hrec : Recorded state'.table.rows state'.issued) : SignInv (state'.finish id) :=
  ⟨hhist, hstored, Or.inl ⟨entries_erase h, hrec⟩⟩

theorem SignInv.fits (hinv : SignInv state) (hget : state.requests.get id = some request) :
    state.requests.entries = [(id, request)] ∧ Fits state request := by
  rcases hinv.alone with ⟨hnone, -⟩ | ⟨id', request', hone, hfits⟩
  · rw [LuaTable.get_eq_some_iff, hnone] at hget
    exact absurd hget List.not_mem_nil
  · obtain ⟨rfl, rfl⟩ := get_of_entries hone hget
    exact ⟨hone, hfits⟩

theorem SignInv.execute (hinv : SignInv state) {ok : Bool}
    (hclean : clean state (.execute id ok) = true) : SignInv (state.execute id ok) := by
  unfold State.execute
  cases hget : state.requests.get id with
  | none => exact hinv
  | some request =>
      obtain ⟨hone, hfits⟩ := hinv.fits hget
      have hset : ∀ {request'}, Fits state request' → SignInv (state.set id request') :=
        SignInv.set state hinv.history hinv.stored (Or.inr ⟨request, hone⟩)
      cases request with
      | selecting name =>
          refine hset ⟨hfits, ?_⟩
          cases ok
          · exact Or.inl rfl
          · exact Or.inr rfl
      | selectingAgain name data =>
          refine hset ⟨hfits.1, hfits.2, ?_⟩
          cases ok
          · refine Or.inr ⟨rfl, ?_⟩
            simpa [clean, hget] using hclean
          · exact Or.inl rfl
      | writing data sql =>
          obtain ⟨hrec, hclaimed, hsql⟩ := hfits
          cases ok
          · exact hset ⟨hclaimed, Or.inr ⟨by simp, hrec⟩⟩
          · have hexec := execute_of_claimed hinv.history hrec hclaimed hsql
            let state' : State := { state with table := (state.table.execute sql).1 }
            have hfits : Fits state' (.written data (state.table.execute sql).2) := by
              refine ⟨hclaimed, hexec.imp_right fun ⟨haffected, hrows⟩ => ⟨haffected, ?_⟩⟩
              show Recorded (state.table.execute sql).1.rows state.issued
              rw [hrows]
              exact hrec
            exact SignInv.set state' hinv.history hinv.stored (Or.inr ⟨_, hone⟩) hfits
      | selected name rows => exact hinv
      | selectedAgain name data rows => exact hinv
      | written data affected => exact hinv
      | paying day => exact hinv

theorem History.issue {issued : List Reward} {today : Nat} (hhist : History issued today)
    {data : Qiandao}
    (hclaimed : Claimed data issued today) (bounsType : Nat) :
    History (issued ++ [⟨today, rewardDay data, rewardBonus data bounsType⟩]) today := by
  have hrange := nextDay_range issued today
  have hday : rewardDay data = nextDay issued today := by
    rw [rewardDay, hclaimed.day]
    exact if_pos hrange.2
  refine ⟨?_, ?_, ?_, ?_, ?_⟩
  · intro reward hreward
    rcases List.mem_append.1 hreward with h | h
    · exact hhist.past reward h
    · rw [List.mem_singleton.1 h]
  · rw [List.pairwise_append]
    refine ⟨hhist.ordered, List.pairwise_singleton .., fun a ha b hb => ?_⟩
    rw [List.mem_singleton.1 hb]
    exact hclaimed.new a ha
  · intro earlier reward later heq
    rcases List.eq_nil_or_concat later with rfl | ⟨later, last, rfl⟩
    · obtain ⟨rfl, hlast⟩ := List.append_inj' heq rfl
      cases hlast
      exact hday
    · have heq' : issued ++ [⟨today, rewardDay data, rewardBonus data bounsType⟩] =
          (earlier ++ reward :: later) ++ [last] := by
        rw [heq, List.append_assoc, List.cons_append, List.concat_eq_append]
      exact hhist.day earlier reward later (List.append_inj' heq' rfl).1
  · intro reward hreward
    rcases List.mem_append.1 hreward with h | h
    · exact hhist.bonus reward h
    · rw [List.mem_singleton.1 h]
      dsimp only
      rw [hday, rewardBonus, hclaimed.day]
      split_ifs with hseven
      · simp [hseven]
      · simp [hseven]
  · intro reward hreward
    rcases List.mem_append.1 hreward with h | h
    · exact hhist.range reward h
    · rw [List.mem_singleton.1 h]
      dsimp only
      rw [hday]
      exact hrange

theorem SignInv.resume (hinv : SignInv state) (bounsType : Nat) :
    SignInv (state.resume id bounsType) := by
  unfold State.resume
  cases hget : state.requests.get id with
  | none => exact hinv
  | some request =>
      obtain ⟨hone, hfits⟩ := hinv.fits hget
      have hset : ∀ {request'}, Fits state request' → SignInv (state.set id request') :=
        SignInv.set state hinv.history hinv.stored (Or.inr ⟨request, hone⟩)
      have hfinish : Recorded state.table.rows state.issued → SignInv (state.finish id) :=
        SignInv.finish state hinv.history hinv.stored hone
      cases request with
      | selected name rows =>
          obtain ⟨hrec, hrows⟩ := hfits
          rcases hrows with rfl | rfl
          · exact hfinish hrec
          · dsimp only
            split_ifs with hsign
            · exact hfinish hrec
            · have hnot : (getUserQiandao state.table.rows state.now).isSignIn = false := by
                simpa using hsign
              exact hset ⟨hrec, claimed_of_recorded hinv.history hrec hnot⟩
      | selectedAgain name data rows =>
          obtain ⟨hrec, hclaimed, hrows⟩ := hfits
          refine hset ⟨hrec, hclaimed, name, state.now, rfl, ?_⟩
          rcases hrows with rfl | ⟨rfl, hunique⟩
          · exact Or.inl rfl
          · exact Or.inr ⟨rfl, hunique⟩
      | written data affected =>
          obtain ⟨hclaimed, ⟨rfl, row, hrows, hnum, hdate⟩ | ⟨hne, hrec⟩⟩ := hfits
          · dsimp only
            rw [if_pos rfl]
            have hrange := nextDay_range state.issued (date state.now)
            have hday : rewardDay data = data.qiandaoNum + 1 := by
              rw [rewardDay, hclaimed.day]
              exact if_pos hrange.2
            let reward : Reward := ⟨date state.now, rewardDay data, rewardBonus data bounsType⟩
            let state' : State := { state with issued := state.issued ++ [reward] }
            have hfits : Fits state' (.paying (rewardDay data)) := by
              refine ⟨?_, ?_⟩
              · show Recorded state.table.rows (state.issued ++ [reward])
                rw [hrows, recorded_concat]
                exact ⟨hnum.trans hday.symm, hdate⟩
              · show state.table.rows.head?.map Row.qiandaoNum = _
                rw [hrows, List.head?_cons, Option.map_some, hnum, hday]
            exact SignInv.set state' (hinv.history.issue hclaimed bounsType) hinv.stored
              (Or.inr ⟨_, hone⟩) hfits
          · dsimp only
            rw [if_neg hne]
            exact hfinish hrec
      | selecting name => exact hinv
      | selectingAgain name data => exact hinv
      | writing data sql => exact hinv
      | paying day => exact hinv

theorem History.later {issued : List Reward} {today today' : Nat} (hhist : History issued today)
    (hle : today ≤ today') : History issued today' :=
  ⟨fun reward hreward => (hhist.past reward hreward).trans hle, hhist.ordered, hhist.day,
    hhist.bonus, hhist.range⟩

theorem Fits.tick {now : Nat} (hdate : date now = date state.now) (hfits : Fits state request) :
    Fits { state with now } request := by
  cases request with
  | selecting name => exact hfits
  | selected name rows => exact hfits
  | selectingAgain name data => exact ⟨hfits.1, hdate.symm ▸ hfits.2⟩
  | selectedAgain name data rows => exact ⟨hfits.1, hdate.symm ▸ hfits.2.1, hfits.2.2⟩
  | writing data sql =>
      obtain ⟨hrec, hclaimed, name, time, htime, hsql⟩ := hfits
      exact ⟨hrec, hdate.symm ▸ hclaimed, name, time, htime.trans hdate.symm, hsql⟩
  | written data affected =>
      obtain ⟨hclaimed, ⟨haffected, row, hrows, hnum, hrow⟩ | hrec⟩ := hfits
      · exact ⟨hdate.symm ▸ hclaimed,
          Or.inl ⟨haffected, row, hrows, hnum, hrow.trans hdate.symm⟩⟩
      · exact ⟨hdate.symm ▸ hclaimed, Or.inr hrec⟩
  | paying day => exact hfits

theorem SignInv.tick (hinv : SignInv state) {seconds : Nat}
    (hclean : clean state (.tick seconds) = true) : SignInv (step state (.tick seconds)) := by
  have hle : date state.now ≤ date (state.now + seconds) :=
    Nat.div_le_div_right (Nat.le_add_right _ _)
  refine ⟨hinv.history.later hle, hinv.stored, ?_⟩
  rcases hinv.alone with hnone | ⟨id, request, hone, hfits⟩
  · exact Or.inl hnone
  · have hsize : state.requests.size = 1 := congrArg List.length hone
    have hdate : date (state.now + seconds) = date state.now := by
      simpa [clean, hsize] using hclean
    exact Or.inr ⟨id, request, hone, hfits.tick hdate⟩

theorem SignInv.begins (hinv : SignInv state) {name : String}
    (hclean : clean state (.request id name) = true) : SignInv (step state (.request id name)) := by
  have hsize : state.requests.size = 0 := by simpa [clean] using hclean
  have hnone : state.requests.entries = [] := List.length_eq_zero_iff.1 hsize
  have hrec : Recorded state.table.rows state.issued := by
    rcases hinv.alone with ⟨-, hrec⟩ | ⟨id', request, hone, -⟩
    · exact hrec
    · rw [hnone] at hone
      exact absurd hone (by simp)
  dsimp only [Web.step]
  split_ifs
  · exact hinv
  · exact SignInv.set state hinv.history hinv.stored (Or.inl hnone) hrec

theorem SignInv.paid (hinv : SignInv state) : SignInv (step state (.paid id)) := by
  dsimp only [Web.step]
  cases hget : state.requests.get id with
  | none => exact hinv
  | some request =>
      obtain ⟨hone, hfits⟩ := hinv.fits hget
      cases request with
      | paying day =>
          let answer : Answer := ⟨day, state.table.rows.head?.map Row.qiandaoNum⟩
          let state' : State := { state with answers := state.answers ++ [answer] }
          have hstored : ∀ answer ∈ state'.answers, answer.stored = some answer.day := by
            intro answer' hmem
            rcases List.mem_append.1 hmem with h | h
            · exact hinv.stored answer' h
            · rw [List.mem_singleton.1 h]
              exact hfits.2
          exact SignInv.finish state' hinv.history hstored hone hfits.1
      | _ => exact hinv

theorem SignInv.step (hinv : SignInv state) {event : Event} (hclean : clean state event = true) :
    SignInv (step state event) := by
  cases event with
  | tick seconds => exact hinv.tick hclean
  | request id name => exact hinv.begins hclean
  | execute id ok => exact hinv.execute hclean
  | resume id bounsType => exact hinv.resume bounsType
  | paid id => exact hinv.paid

theorem SignInv.start (now : Nat) (uniqueUid : Bool) : SignInv { now, table := { uniqueUid } } :=
  ⟨⟨by simp, List.Pairwise.nil, by simp, by simp, by simp⟩, by simp, Or.inl ⟨rfl, trivial⟩⟩

end Step

section Runs

theorem SignInv.streak {state : State} (hinv : SignInv state) : Streak state.issued state.answers :=
  ⟨hinv.history.ordered.imp Nat.ne_of_lt, hinv.history.day, hinv.history.bonus, hinv.stored⟩

/-- **While the requests of a user do not overlap each other or midnight, his rewards are a
streak.** -/
theorem streak_of_clean (now : Nat) (uniqueUid : Bool) (events : List Event)
    (halong : Run.Along step (fun state event => clean state event = true)
      { now, table := { uniqueUid } } events) :
    let state := Run.exec step { now, table := { uniqueUid } } events
    Streak state.issued state.answers :=
  (Run.invariant (fun (state : State) _ (hinv : SignInv state) hclean => hinv.step hclean)
    events _ (SignInv.start now uniqueUid) halong).streak

def signIn (id bounsType seconds : Nat) : List Event :=
  [.request id "a", .execute id true, .resume id 1, .execute id true, .resume id 1,
    .execute id true,
    .resume id bounsType, .paid id, .tick seconds]

/-- The user signs in on eight days, misses one and signs in twice more. -/
def elevenDays : List Event :=
  (List.range 7).flatMap (fun i => signIn i 4 86400) ++ signIn 7 4 172800 ++ signIn 8 4 86400 ++
    signIn 9 4 60

theorem streak_elevenDays :
    Run.Along step (fun state event => clean state event = true)
        { now := 36000, table := { uniqueUid := false } } elevenDays ∧
      (Run.exec step { now := 36000, table := { uniqueUid := false } } elevenDays).issued.map
        Reward.day = [1, 2, 3, 4, 5, 6, 7, 1, 1, 2] ∧
      let state := Run.exec step { now := 36000, table := { uniqueUid := false } } elevenDays
      Streak state.issued state.answers := by
  have halong : Run.Along step (fun state event => clean state event = true)
      { now := 36000, table := { uniqueUid := false } } elevenDays := by decide +kernel
  exact ⟨halong, by decide +kernel, streak_of_clean 36000 false elevenDays halong⟩

def overlapping : List Event :=
  [.request 1 "a", .request 2 "a", .execute 1 true, .execute 2 true, .resume 1 1, .resume 2 1,
    .execute 1 true, .resume 1 1, .execute 1 true, .resume 1 1, .paid 1,
    .execute 2 true, .resume 2 1, .execute 2 true, .resume 2 1, .paid 2]

theorem not_streak_overlapping :
    (Run.exec step { now := 36000, table := { uniqueUid := true } } overlapping).issued =
        [⟨0, 1, none⟩, ⟨0, 1, none⟩] ∧
      ¬∀ (now : Nat) (uniqueUid : Bool) (events : List Event),
        Streak (Run.exec step { now, table := { uniqueUid } } events).issued
          (Run.exec step { now, table := { uniqueUid } } events).answers := by
  have hissued : (Run.exec step { now := 36000, table := { uniqueUid := true } } overlapping).issued
      =
      [⟨0, 1, none⟩, ⟨0, 1, none⟩] := by decide +kernel
  refine ⟨hissued, fun hall => ?_⟩
  have honce := (hall 36000 true overlapping).once
  rw [hissued] at honce
  simp at honce

end Runs

end SdyServer.Web
