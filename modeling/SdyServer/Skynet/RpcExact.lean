import SdyServer.Skynet.RpcMoves

/-!
# Calls over whole runs

Every step of a service keeps every call in its place, or moves it to the next one.
-/

namespace SdyServer.Rpc

namespace Node

variable {α : Type} {n : Node α} {hand : Option (Handle × CallId)} {loose loose' : CallId → Prop}
  {handle dest : Handle} {call : CallId} {co : Co} {session : Session} {m : Message α}

/-- Between the steps, nothing is in hand and every call has its place. -/
def Inv (n : Node α) : Prop := n.Ok none fun _ => False

section Steps

/-- What changes nothing about the requests. -/
theorem Ok.quiet (h : n.Ok none loose) (f : Service α → Service α)
    (hkeeps : Keeps (n.services handle) (f (n.services handle)))
    (hok : (f (n.services handle)).Ok n.trace handle)
    (hdead : (f (n.services handle)).deadService = (n.services handle).deadService)
    (hloose : ∀ call, loose call → loose' call ∨ call.1 = handle ∧
      ∀ co, (n.services handle).status co ≠ .calling call.2) : (n.modify handle f).Ok none
        loose' := by
  refine h.keep rfl (.inl rfl) hkeeps hok (fun dest hdest => .inl (hdead ▸ hdest))
    (fun call hcall => .inl hcall) ?_
  intro call hlost
  refine (hloose call hlost).imp_right fun hnone => ⟨hnone.1, fun co hcalling => ?_⟩
  exact absurd (hkeeps.calling co call.2 hcalling) (hnone.2 co)

theorem Inv.quiet (h : n.Inv) (f : Service α → Service α)
    (hkeeps : Keeps (n.services handle) (f (n.services handle)))
    (hok : (f (n.services handle)).Ok n.trace handle)
    (hdead : (f (n.services handle)).deadService = (n.services handle).deadService) :
    (n.modify handle f).Inv :=
  Ok.quiet h f hkeeps hok hdead fun _ hlost => hlost.elim

/-- A message of a session gives the coroutine that waits for it what it waits for. -/
theorem Ok.dispatchResponse (h : n.Ok none fun call => call = (handle, m.session))
    (hm : m.prototype = .response)
    (hvalue :
      (∃ value, m.value = some value ∧ .answered (handle, m.session) m.source value ∈ n.trace) ∨
      ∀ co dest, ¬Called n.trace (handle, m.session) co dest) :
        (n.rawDispatchMessage handle m).Inv := by
  have hs := h.services handle
  have hnone : (∀ co, (n.services handle).sessionIdCoroutine m.session ≠ some (.co co)) →
      ∀ call : CallId,
      call = (handle, m.session) → False ∨ call.1 = handle ∧
        ∀ co, (n.services handle).status co ≠ .calling call.2 := by
    rintro hnot call rfl
    refine .inr ⟨rfl, fun co hcalling => hnot co ((hs.waiter _ _).mpr ?_)⟩
    rw [hcalling]
    rfl
  unfold Node.rawDispatchMessage
  rw [hm]
  dsimp only
  cases hwaiter : (n.services handle).sessionIdCoroutine m.session with
  | none =>
      have hnot : ∀ co, (n.services handle).sessionIdCoroutine m.session ≠ some (.co co) := by
        rw [hwaiter]
        exact fun co heq => by cases heq
      dsimp only
      rw [modify_modify]
      exact h.quiet _ ((Keeps.setWaiter ..).trans (.raise _)) (hs.clearWaiter hnot).raise
        rfl (hnone hnot)
  | some waiter =>
      cases waiter with
      | brk =>
          have hnot : ∀ co, (n.services handle).sessionIdCoroutine m.session ≠ some (.co co) := by
            rw [hwaiter]
            exact fun co heq => by cases heq
          exact h.quiet _ (.setWaiter ..) (hs.clearWaiter hnot) rfl (hnone hnot)
      | co co =>
          have hsession := (hs.waiter _ _).mp hwaiter
          refine h.resumes _ rfl hs rfl rfl ((Keeps.setWaiter ..).trans (.resume ..)) hsession
            (.inl rfl) ?_
            fun call hcall => .inr hcall
          intro hcalling value hresult
          rcases hvalue with ⟨value', heq, hanswered⟩ | hnot
          · rw [hresult] at heq
            cases heq
            exact ⟨_, hanswered⟩
          · obtain ⟨⟨dest, -, hcall⟩, -⟩ := hs.calling co m.session hcalling
            exact absurd hcall (hnot co dest)

/-- An error without a session is about all the calls of its source, any other one about its own
session. -/
theorem errorDispatch_cases (s : Service α) (session : Session) (source : Handle) :
    (session = 0 ∧ (s.errorDispatch session source).deadService =
        Function.update s.deadService source true ∧
      (s.errorDispatch session source).errorQueue = s.errorQueue ++
        (List.range (s.sessionId + 1)).filter
          fun session => s.watchingSession session = some source) ∨
    (session ≠ 0 ∧ (s.errorDispatch session source).deadService = s.deadService ∧
      ((s.watchingSession session).isSome = true →
        (s.errorDispatch session source).errorQueue = s.errorQueue ++ [session]) ∧
      s.errorQueue ⊆ (s.errorDispatch session source).errorQueue) := by
  rw [Service.errorDispatch]
  split_ifs with hzero hwatch
  · exact .inl ⟨hzero, rfl, rfl⟩
  · exact .inr ⟨hzero, rfl, fun _ => rfl, List.subset_append_left ..⟩
  · exact .inr ⟨hzero, rfl, fun hwatch' => absurd hwatch' hwatch, List.Subset.refl _⟩

theorem errorQueue_errorDispatch (s : Service α) (session : Session) (source : Handle) :
    s.errorQueue ⊆ (s.errorDispatch session source).errorQueue := by
  rcases errorDispatch_cases s session source with ⟨-, -, herrors⟩ | ⟨-, -, -, herrors⟩
  · rw [herrors]
    exact List.subset_append_left ..
  · exact herrors

/-- Apart from that it does nothing. -/
theorem keeps_errorDispatch {s : Service α} {trace : List (Happened α)} (hs : s.Ok trace handle)
    (session : Session) (source : Handle) (work : List Work) :
    (s.errorDispatch session source).status = s.status ∧
      Keeps s { s.errorDispatch session source with work } ∧
        ({ s.errorDispatch session source with work } : Service α).Ok trace handle := by
  have herrors := errorQueue_errorDispatch s session source
  rw [Service.errorDispatch] at herrors ⊢
  split_ifs at herrors ⊢ with hzero hwatch
  all_goals
    exact ⟨rfl, .of_eq (.inl rfl) rfl rfl (Nat.le_refl _)
      rfl rfl rfl rfl rfl fun _ _ _ hmem => herrors hmem,
      hs.of_eq (.inl rfl) rfl rfl rfl (Nat.le_refl _) rfl rfl (.refl _)⟩

/-- A call that the error is about is found for the error queue. -/
theorem mem_errorQueue_of_tells (h : n.Ok hand loose)
    (hcall : Called n.trace (handle, session) co dest) (htells : Tells m (handle, session) dest)
    {co' : Co} (hcalling : (n.services handle).status co' = .calling session) :
    session ∈ ((n.services handle).errorDispatch m.session m.source).errorQueue := by
  have hs := h.services handle
  have hne : session ≠ 0 := h.session_ne hcall
  obtain ⟨⟨dest', hwatch, hcall'⟩, -⟩ := hs.calling co' session hcalling
  rcases errorDispatch_cases (n.services handle) m.session m.source with
    ⟨hzero, -, herrors⟩ | ⟨hnz, -, herrors, -⟩
  · have hsource : m.source = dest := by
      rcases htells with ⟨-, hsession⟩ | ⟨-, -, hsource⟩
      · exact absurd (hsession.symm.trans hzero) hne
      · exact hsource
    rw [herrors]
    refine List.mem_append_right _ (List.mem_filter.mpr ⟨?_, ?_⟩)
    · have hwaits : ((n.services handle).status co').session = some session := by
        rw [hcalling]
        rfl
      exact List.mem_range.mpr (Nat.lt_succ_of_le (hs.session_le hwaits))
    · rw [hwatch, (h.receiver hcall hcall').2, hsource]
      exact decide_eq_true rfl
  · have hsession : m.session = session := by
      rcases htells with ⟨-, hsession⟩ | ⟨-, hzero, -⟩
      · exact hsession
      · exact absurd hzero hnz
    subst hsession
    rw [herrors (by rw [hwatch]; rfl)]
    exact List.mem_append_right _ (List.mem_singleton_self _)

/-- An error puts the calls that it is about into the error queue. -/
theorem Ok.dispatchError
    (h : n.Ok none fun call => call.1 = handle ∧ ∃ co dest, Called n.trace call co dest ∧
      Tells m call dest)
    (hm : m.prototype = .error) (hdown : m.session = 0 → (n.services m.source).life = .exited) :
    (n.rawDispatchMessage handle m).Inv := by
  obtain ⟨hstatus, hkeeps, hok⟩ := keeps_errorDispatch (h.services handle) m.session m.source
    (.wakeup :: .errors :: (n.services handle).work)
  unfold Node.rawDispatchMessage
  rw [hm]
  dsimp only
  refine h.keep rfl (.inl rfl) hkeeps hok ?_ (fun call hcall => .inl hcall) ?_
  · intro dest hdest
    change ((n.services handle).errorDispatch m.session m.source).deadService dest = true at hdest
    rcases errorDispatch_cases (n.services handle) m.session m.source with
      ⟨hzero, hdead, -⟩ | ⟨-, hdead, -⟩
    · rw [hdead] at hdest
      by_cases heq : dest = m.source
      · rw [heq]
        exact .inr (hdown hzero)
      · rw [Function.update_of_ne heq] at hdest
        exact .inl hdest
    · rw [hdead] at hdest
      exact .inl hdest
  · rintro ⟨caller, session⟩ ⟨heq, co, dest, hcall, htells⟩
    have heq : caller = handle := heq
    subst heq
    refine .inr ⟨rfl, fun co' hcalling => ?_⟩
    change ((n.services caller).errorDispatch m.session m.source).status co' =
      .calling session at hcalling
    rw [hstatus] at hcalling
    exact mem_errorQueue_of_tells h hcall htells hcalling

theorem Ok.dispatchLua
    (h : n.Ok (if m.session = 0 then none else some (handle, (m.source, m.session)))
      fun call => call = (m.source, m.session)) (hm : m.prototype = .lua) :
    (n.rawDispatchMessage handle m).Inv := by
  unfold Node.rawDispatchMessage
  rw [hm]
  dsimp only
  by_cases hlives : (n.services handle).alive = true
  · rw [if_pos hlives]
    exact h.take (.inl hlives)
  · rw [if_neg hlives]
    exact h.noteLate.take (.inr (List.mem_append_right _ (List.mem_singleton_self _)))

theorem Ok.dispatchUnknown
    (h : n.Ok (if m.session = 0 then none else some (handle, (m.source, m.session)))
      fun call => call = (m.source, m.session)) (hm : m.prototype = .unknown) :
    (n.rawDispatchMessage handle m).Inv := by
  unfold Node.rawDispatchMessage
  rw [hm]
  dsimp only
  split_ifs with hzero
  · rw [if_pos hzero] at h
    have hinv : n.Inv := h.tighten fun call co dest heq hcall _ _ => by
      rw [heq] at hcall
      exact h.session_ne hcall hzero
    exact hinv.quiet _ (.raise _) (hinv.services handle).raise rfl
  · exact (h.tighten fun call co dest heq _ _ _ => .inr heq).pushError hzero

/-- A message is taken. -/
theorem Inv.rawDispatchMessage (h : n.Inv) {queue : List (Message α)}
    (hqueue : (n.services handle).queue = m :: queue) :
    ((n.modify handle fun s => { s with queue }).rawDispatchMessage handle m).Inv := by
  have hmem : m ∈ (n.services handle).queue := by
    rw [hqueue]
    exact List.mem_cons_self
  have hpop : m.prototype.isRequest = false →
      (n.modify handle fun s => { s with queue }).Ok none fun call =>
      call.1 = handle ∧ ∃ co dest, Called n.trace call co dest ∧ Tells m call dest := by
    intro hrequest
    refine (Ok.pop h hqueue fun _ hnone => by cases hnone).tighten
      fun call co dest hlost _ _ _ => hlost.resolve_left ?_
    rw [requests_iff, hrequest]
    exact fun hfalse => by cases hfalse.1
  have htake : m.prototype.isRequest = true → (n.modify handle fun s => { s with queue }).Ok
      (if m.session = 0 then none else some (handle, (m.source, m.session)))
      fun call => call = (m.source, m.session) := by
    intro hrequest
    refine (Ok.pop h hqueue ?_).tighten ?_
    · intro x hx
      split_ifs at hx
      cases hx
      exact ⟨rfl, requests_iff.mpr ⟨hrequest, rfl⟩⟩
    · rintro call co dest (hrequests | ⟨-, co', dest', -, htells⟩) - - -
      · exact (requests_iff.mp hrequests).2
      · rcases htells with ⟨hprototype | hprototype, -⟩ | ⟨hprototype, -⟩ <;>
          rw [hprototype] at hrequest <;>
          cases hrequest
  cases hm : m.prototype with
  | response =>
      refine Ok.dispatchResponse ((hpop (by rw [hm]; rfl)).tighten ?_) hm ?_
      · rintro ⟨caller, session⟩ co dest ⟨heq, co', dest', hcall, htells⟩ - - -
        have heq : caller = handle := heq
        subst heq
        rcases htells with ⟨-, hsession⟩ | ⟨hprototype, -⟩
        · rw [hsession]
        · rw [hm] at hprototype
          cases hprototype
      · exact (h.response handle m hmem hm).2
  | error =>
      refine Ok.dispatchError (hpop (by rw [hm]; rfl)) hm fun hzero => ?_
      by_cases heq : m.source = handle
      · rw [heq, services_modify_self, ← heq]
        exact h.down handle m hmem hm hzero
      · rw [services_modify_of_ne heq]
        exact h.down handle m hmem hm hzero
  | lua => exact (htake (by rw [hm]; rfl)).dispatchLua hm
  | unknown => exact (htake (by rw [hm]; rfl)).dispatchUnknown hm

theorem Inv.dispatchWakeup (h : n.Inv) : (n.dispatchWakeup handle).Inv := by
  have hs := h.services handle
  unfold Node.dispatchWakeup
  split
  · exact h
  · next co wakeupQueue hqueue =>
      have hs' : Service.Ok n.trace handle { n.services handle with wakeupQueue } :=
        hs.of_eq (.inl rfl) rfl rfl rfl (Nat.le_refl _) rfl rfl (.refl _)
      have hkeeps : Keeps (n.services handle) { n.services handle with wakeupQueue } :=
        .of_eq (.inl rfl) rfl rfl (Nat.le_refl _) rfl rfl rfl rfl rfl fun _ _ _ h => h
      have hquiet : (n.modify handle fun s => { s with wakeupQueue }).Inv :=
        h.quiet _ hkeeps hs' rfl
      dsimp only
      rw [services_modify_self]
      cases hsleep : (n.services handle).sleepSession co with
      | none => exact hquiet
      | some session =>
          dsimp only
          rw [modify_modify]
          have hstatus := hs.sleep co session hsleep
          have hsession : ((n.services handle).status co).session = some session := by
            rcases hstatus with hstatus | hstatus <;> rw [hstatus] <;> rfl
          refine Ok.resumes h _ rfl hs'
            rfl rfl (hkeeps.trans ((Keeps.setWaiter ..).trans (.resume ..))) hsession
            (.inr ⟨rfl, ?_⟩) (fun hcalling => ?_) fun _ hlost => hlost.elim
          · rcases hstatus with hstatus | hstatus <;> rw [hstatus] <;>
              exact fun hcalling => by cases hcalling
          · rcases hstatus with hstatus | hstatus <;> rw [hstatus] at hcalling <;> cases hcalling

theorem Inv.dispatchErrorQueue (h : n.Inv) : (n.dispatchErrorQueue handle).Inv := by
  have hs := h.services handle
  unfold Node.dispatchErrorQueue
  split
  · exact h
  · next session errorQueue hqueue =>
      have hs' : Service.Ok n.trace handle { n.services handle with errorQueue } :=
        hs.of_eq (.inl rfl) rfl rfl rfl (Nat.le_refl _) rfl rfl (.refl _)
      dsimp only
      have hkeep : (∀ co, (n.services handle).sessionIdCoroutine session ≠ some (.co co)) →
          (n.modify handle fun s => ({ s with errorQueue }.setWaiter session none).raise).Inv := by
        intro hnot
        refine h.quiet _ (.of_eq (.inl rfl) rfl rfl (Nat.le_refl _) rfl rfl rfl rfl rfl ?_)
          (hs'.clearWaiter hnot).raise rfl
        intro co session' hcalling hmem
        rw [hqueue] at hmem
        rcases List.mem_cons.mp hmem with rfl | hmem
        · refine absurd ((hs.waiter session' co).mpr ?_) (hnot co)
          change (n.services handle).status co = .calling session' at hcalling
          rw [hcalling]
          rfl
        · exact hmem
      cases hwaiter : (n.services handle).sessionIdCoroutine session with
      | none =>
          dsimp only
          rw [modify_modify]
          exact hkeep (by rw [hwaiter]; exact fun co heq => by cases heq)
      | some waiter =>
          cases waiter with
          | brk =>
              dsimp only
              rw [modify_modify]
              exact hkeep (by rw [hwaiter]; exact fun co heq => by cases heq)
          | co co =>
              have hsession := (hs.waiter _ _).mp hwaiter
              refine Ok.resumes h _ rfl hs' rfl rfl ?_ hsession (.inl rfl)
                (fun _ _ hresult => by cases hresult)
                fun _ hlost => hlost.elim
              have hresume :=
                Keeps.resume ({ n.services handle with errorQueue }.setWaiter session none) co
              refine ⟨hresume.life, hresume.queue, hresume.session, hresume.handled,
                hresume.handles,
                hresume.unresponse, hresume.calling, fun co' session' hcalling hmem => ?_⟩
              refine hresume.errors co' session' hcalling ?_
              rw [hqueue] at hmem
              rcases List.mem_cons.mp hmem with rfl | hmem
              · have hcalling' : (n.services handle).status co' = .calling session' :=
                  hresume.calling co' session' hcalling
                have heq : co' = co := hs.alone hsession (by rw [hcalling']; rfl)
                have hrun := status_resume
                  (s := { n.services handle with errorQueue }.setWaiter session' none) hsession
                rw [heq, hrun] at hcalling
                cases hcalling
              · exact hmem

/-- A coroutine that was forked begins. -/
theorem Inv.begin (h : n.Inv) {i : Nat} (hco : (n.services handle).forkQueue[i]? = some co) :
    ((n.modify handle fun s => { s with forkQueue := s.forkQueue.eraseIdx i }).resume handle co
      none).Inv := by
  have hs := h.services handle
  have hstatus : (n.services handle).status co = .ready := hs.forked.2 co (List.mem_of_getElem? hco)
  have hkeeps : Keeps (n.services handle)
      { n.services handle with forkQueue := (n.services handle).forkQueue.eraseIdx i } :=
    .of_eq (.inl rfl) rfl rfl (Nat.le_refl _) rfl rfl rfl rfl rfl fun _ _ _ h => h
  rw [resume_modify (by simp [hstatus])]
  exact h.quiet _ (hkeeps.trans (.resume ..)) (hs.begin hco) (deadService_resume ..)

/-- The messages of `skynet.send` have no session. -/
theorem Inv.send (h : n.Inv) (known : Bool) (value : α) :
    (n.push dest ⟨handle, if known then .lua else .unknown, 0, some value⟩).Inv := by
  refine Ok.push h (fun call hne => ?_) (fun hprototype => ?_) (fun hprototype => ?_)
    fun _ _ _ hlost => hlost.elim
  · simp [Message.requests, Ne.symm hne]
  · cases known <;> cases hprototype
  · cases known <;> cases hprototype

theorem Inv.fail (h : n.Inv) (hco : (n.services handle).status co = .running)
    (hnone : ∀ call, (n.services handle).handles call co = false) :
    (n.modify handle fun s => s.fail co).Inv :=
  h.quiet _ (.fail hnone) ((h.services handle).fail hco) rfl

theorem handles_of_response {s : Service α} (h : s.sessionResponse co = true) :
    s.handles call co = false := by
  simp [Service.handles, h]

theorem handles_of_request {s : Service α} (h : s.request co = none) :
    s.handles call co = false := by
  simp [Service.handles, h]

/-- `skynet.sleep` and `skynet.timeout` start a timer for a new session. -/
theorem Inv.timer (h : n.Inv) (f : Service α → Service α)
    (hkeeps : Keeps (n.services handle) (f (n.services handle)))
    (hok : (f (n.services handle)).Ok n.trace handle)
    (hdead : (f (n.services handle)).deadService = (n.services handle).deadService)
    (hsession : (f (n.services handle)).sessionId = (n.services handle).sessionId + 1) :
    ({ n with timers := n.timers ++ [(handle, (n.services handle).sessionId + 1)] }.modify handle
      f).Inv := by
  refine Ok.keep h rfl (.inl rfl) hkeeps hok (fun dest hdest => .inl (hdead ▸ hdest)) ?_
    fun _ hlost => hlost.elim
  intro call hcall
  rcases List.mem_append.mp hcall with hcall | hcall
  · exact .inl hcall
  · rw [List.mem_singleton.mp hcall]
    exact .inr ⟨rfl, Nat.lt_succ_self _, Nat.le_of_eq hsession.symm⟩

theorem Keeps.sleeps {s : Service α} {status : Status} (hnot : ∀ session, status ≠ .calling session)
    (hstop : status ≠ .stopped) :
    Keeps s (({ s.newsession with
      sleepSession := Function.update s.sleepSession co (some (s.sessionId + 1)) }.setWaiter
      (s.sessionId + 1) (some (.co co))).yield co status) :=
  .of_eq (.inr ⟨co, status, rfl, hnot, .inl hstop⟩) rfl rfl
    (Nat.le_succ _) rfl rfl rfl rfl rfl fun _ _ _ h => h

theorem Inv.sleep (h : n.Inv) (hco : (n.services handle).status co = .running) :
    (n.act handle co .sleep).Inv := by
  unfold Node.act
  exact h.timer _ (.sleeps (by simp) (by simp)) ((h.services handle).sleeps hco (.inl rfl)) rfl rfl

theorem Inv.wait
    (h : n.Inv) (hco : (n.services handle).status co = .running) : (n.act handle co .wait).Inv := by
  unfold Node.act
  exact h.quiet _ (.sleeps (by simp) (by simp)) ((h.services handle).sleeps hco (.inr rfl)) rfl

theorem Inv.timeout (h : n.Inv) : (n.timeout handle).Inv := by
  have hs := h.services handle
  have hnew : Keeps (n.services handle) (n.services handle).newsession :=
    .of_eq (.inl rfl) rfl rfl (Nat.le_succ _) rfl rfl rfl rfl rfl fun _ _ _ h => h
  have hs' : (n.services handle).newsession.Ok n.trace handle :=
    hs.of_eq (.inl rfl) rfl rfl rfl (Nat.le_succ _) rfl rfl (.refl _)
  unfold Node.timeout
  exact h.timer _ ((hnew.trans (.coCreate hs' (by simp))).trans (.setWaiter ..)) hs.timeout rfl rfl

theorem Inv.wakeup (h : n.Inv) (other : Co) : (n.act handle co (.wakeup other)).Inv := by
  have hs := h.services handle
  unfold Node.act
  by_cases hsleep : ((n.services handle).sleepSession other).isSome = true
  · refine h.quiet _ ?_ ?_ ?_ <;> simp only [hsleep, if_true]
    · exact .of_eq (.inl rfl) rfl rfl (Nat.le_refl _) rfl rfl rfl rfl rfl fun _ _ _ h => h
    · exact hs.of_eq (.inl rfl) rfl rfl rfl (Nat.le_refl _) rfl rfl (.refl _)
  · refine h.quiet _ ?_ ?_ ?_ <;> simp only [hsleep, if_false, Bool.false_eq_true]
    · exact .of_eq (.inl rfl) rfl rfl (Nat.le_refl _) rfl rfl rfl rfl rfl fun _ _ _ h => h
    · exact hs

theorem Inv.fork (h : n.Inv) : (n.act handle co .fork).Inv := by
  have hs := h.services handle
  have hcreate : Keeps (n.services handle) ((n.services handle).coCreate none .ready) :=
    .coCreate hs fun _ h => by cases h
  unfold Node.act
  refine h.quiet _ (hcreate.trans ?_) hs.fork rfl
  exact .of_eq (.inl rfl) rfl rfl (Nat.le_refl _) rfl rfl rfl rfl rfl fun _ _ _ h => h

/-- A coroutine that answers. -/
theorem Inv.setResponse (h : n.Inv) (hco : (n.services handle).status co = .running)
    (hhandles : (n.services handle).handles call co = true) :
    (n.modify handle fun s => s.setResponse co).Ok (some (handle, call))
    fun call' => call' = call := by
  refine (Ok.release h rfl ?_ (by rw [hco]; exact fun h => by cases h)
    rfl rfl rfl rfl rfl rfl (fun _ _ h => h) rfl
    (fun _ => handles_setResponse_self ..) (fun _ _ => handles_setResponse_of_ne)
      (fun _ _ => rfl) ?_).tighten ?_
  · exact (h.services handle).of_eq (.inl rfl) rfl rfl rfl (Nat.le_refl _) rfl rfl (.refl _)
  · rintro x hx
    cases hx
    exact ⟨rfl, hhandles⟩
  · exact fun call' _ _ hlost _ _ _ => handles_eq (request_of_handles hhandles).1 hlost

theorem request_session {s : Service α} (h : s.request co = some call) :
    s.sessionCoroutineId co = some call.2 := by
  unfold Service.request at h
  split at h
  · next hid =>
      cases h
      exact hid
  · cases h

theorem Inv.ret (h : n.Inv) (hco : (n.services handle).status co = .running) (value : α)
    (large : Bool) :
    (n.act handle co (.ret value large)).Inv := by
  have hs := h.services handle
  unfold Node.act
  dsimp only
  split_ifs with hzero hresponse
  · exact h
  · exact h.fail hco fun _ => handles_of_response hresponse
  · cases hrequest : (n.services handle).request co with
    | some call =>
        have hhandles : (n.services handle).handles call co = true := by
          simp [Service.handles, hrequest, hresponse]
        have hne : call.2 ≠ 0 := by
          intro hsession
          rw [request_session hrequest, hsession] at hzero
          exact hzero rfl
        have hhand := h.setResponse hco hhandles
        dsimp only
        split_ifs with hdead
        · refine (hhand.tighten fun _ _ _ heq _ _ _ => .inr heq).gone ?_
          by_cases heq : call.1 = handle
          · rw [heq, services_modify_self, ← heq]
            exact not_alive_of_exited (h.dead handle _ hdead)
          · rw [services_modify_of_ne heq]
            exact not_alive_of_exited (h.dead handle _ hdead)
        · exact (hhand.tighten fun _ _ _ heq _ _ _ => .inr heq).answer hne
    | none =>
        dsimp only
        rw [modify_modify]
        have hs' : ((n.services handle).setResponse co).Ok n.trace handle :=
          hs.of_eq (.inl rfl) rfl rfl rfl (Nat.le_refl _) rfl rfl (.refl _)
        have hset : ∀ call c, c ≠ co →
            ((n.services handle).setResponse co).handles call c =
                (n.services handle).handles call c :=
          fun _ _ => handles_setResponse_of_ne
        refine (Ok.release h rfl (hs'.fail hco) (by rw [hco]; exact fun h => by cases h)
          rfl rfl rfl rfl rfl rfl ?_ rfl
          (fun _ => handles_setResponse_self (n.services handle) co)
          hset
          (fun c hne => Function.update_of_ne hne ..) (fun _ hnone => by cases hnone)).tighten ?_
        · intro c session hcalling
          change Function.update (n.services handle).status co .stopped c =
            .calling session at hcalling
          by_cases heq : c = co
          · rw [heq, Function.update_self] at hcalling
            cases hcalling
          · rwa [Function.update_of_ne heq] at hcalling
        · intro call _ _ hlost
          rw [handles_of_request hrequest] at hlost
          cases hlost

theorem Inv.response (h : n.Inv) (hco : (n.services handle).status co = .running) :
    (n.act handle co .response).Inv := by
  unfold Node.act
  dsimp only
  cases hrequest : (n.services handle).request co with
  | some call =>
      dsimp only
      split_ifs with hresponse
      · exact h.fail hco fun _ => handles_of_response hresponse
      · refine Ok.promise h (by rw [hco]; exact fun h => by cases h) ?_
        simp [Service.handles, hrequest, hresponse]
  | none => exact h.fail hco fun _ => handles_of_request hrequest

theorem Inv.respond (h : n.Inv) (call : CallId) (ok large : Bool) (value : α) :
    (n.act handle co (.respond call ok large value)).Inv := by
  unfold Node.act
  dsimp only
  split_ifs with hmem hsend hok
  · exact ((Ok.unpromise h hmem).tighten fun _ _ _ heq _ _ _ => .inr heq).answer hsend.1
  · exact ((Ok.unpromise h hmem).tighten fun _ _ _ heq _ _ _ => .inr heq).pushError hsend.1
  · have hhand := Ok.unpromise h hmem
    refine hhand.drop.tighten fun call' co' dest' heq hcall halive _ => hsend ⟨?_, ?_⟩
    · rw [← heq]
      exact hhand.session_ne hcall
    · by_contra hdead
      have hgone := not_alive_of_exited (h.dead handle call.1 (by simpa using hdead))
      rw [heq] at halive
      by_cases heq' : call.1 = handle
      · rw [heq', services_modify_self] at halive
        rw [heq'] at hgone
        exact Bool.eq_false_iff.mp hgone halive
      · rw [services_modify_of_ne heq', hgone] at halive
        cases halive
  · exact h

/-- A coroutine that ends or raises leaves its request. -/
theorem Inv.leave (h : n.Inv) (hco : (n.services handle).status co = .running)
    {f : Service α → Service α}
    (hf : f = (fun s => (s.clear co).yield co .stopped) ∨ f = fun s => (s.clear co).fail co)
    {hand' : Option (Handle × CallId)}
    (hhand : ∀ x, hand' = some x → x.1 = handle ∧ (n.services handle).handles x.2 co = true) :
    (n.modify handle f).Ok hand' fun call => (n.services handle).handles call co = true := by
  have hs := h.services handle
  have hs' : ((n.services handle).clear co).Ok n.trace handle :=
    hs.of_eq (.inl rfl) rfl rfl rfl (Nat.le_refl _) rfl rfl (.refl _)
  have hcalling : ∀ c session, Function.update (n.services handle).status co .stopped c =
      .calling session →
      (n.services handle).status c = .calling session := by
    intro c session hcalling
    by_cases heq : c = co
    · rw [heq, Function.update_self] at hcalling
      cases hcalling
    · rwa [Function.update_of_ne heq] at hcalling
  rcases hf with rfl | rfl
  · exact Ok.release h rfl (hs.finish hco) (by rw [hco]; exact fun h => by cases h)
      rfl rfl rfl rfl rfl rfl hcalling rfl
      (fun _ => handles_clear_self ..) (fun _ _ => handles_clear_of_ne)
        (fun c hne => Function.update_of_ne hne ..) hhand
  · exact Ok.release h rfl (hs'.fail hco) (by rw [hco]; exact fun h => by cases h)
      rfl rfl rfl rfl rfl rfl hcalling rfl
      (fun _ => handles_clear_self ..) (fun _ _ => handles_clear_of_ne)
        (fun c hne => Function.update_of_ne hne ..) hhand

theorem Inv.finish (h : n.Inv) (hco : (n.services handle).status co = .running) :
    (n.act handle co .finish).Inv := by
  unfold Node.act
  dsimp only
  have hnone : ∀ x : Handle × CallId, none = some x →
      x.1 = handle ∧ (n.services handle).handles x.2 co = true := fun _ hnone => by cases hnone
  cases hrequest : (n.services handle).request co with
  | some call =>
      dsimp only
      split_ifs with hdone
      · refine (h.leave hco (.inl rfl) hnone).tighten fun call' co' dest' hhandles hcall _ _ => ?_
        rcases hdone with hresponse | hzero
        · rw [handles_of_response hresponse] at hhandles
          cases hhandles
        · refine (h.leave hco (.inl rfl) hnone).session_ne hcall ?_
          rw [handles_eq hrequest hhandles, hzero]
      · have hhandles : (n.services handle).handles call co = true := by
          simp [Service.handles, hrequest, not_or.mp hdone]
        have hthis : ∀ x, some (handle, call) = some x → x.1 = handle ∧
            (n.services handle).handles x.2 co = true := by
          rintro x hx
          cases hx
          exact ⟨rfl, hhandles⟩
        have hhand := h.leave hco (.inl rfl) hthis
        obtain ⟨co', hcall⟩ :=
          hhand.called handle call (not_or.mp hdone).2 (by rw [if_pos rfl]; omega)
        exact (hhand.tighten fun _ _ _ hlost _ _ _ => .inr (handles_eq hrequest hlost)).noteForgot
          hcall
  | none =>
      refine (h.leave hco (.inl rfl) hnone).tighten fun call' co' dest' hhandles _ _ _ => ?_
      rw [handles_of_request hrequest] at hhandles
      cases hhandles

theorem Inv.raise (h : n.Inv) (hco : (n.services handle).status co = .running) :
    (n.act handle co .raise).Inv := by
  unfold Node.act
  dsimp only
  have hnone : ∀ x : Handle × CallId, none = some x →
      x.1 = handle ∧ (n.services handle).handles x.2 co = true := fun _ hnone => by cases hnone
  have hleft := h.leave hco (.inr rfl) hnone
  cases hrequest : (n.services handle).request co with
  | some call =>
      dsimp only
      split_ifs with hzero
      · refine hleft.tighten fun call' co' dest' hhandles hcall _ _ => hleft.session_ne hcall ?_
        rw [handles_eq hrequest hhandles, hzero]
      · exact (hleft.tighten fun _ _ _ hlost _ _ _ => .inr (handles_eq hrequest hlost)).pushError
          hzero
  | none =>
      refine hleft.tighten fun call' co' dest' hhandles _ _ _ => ?_
      rw [handles_of_request hrequest] at hhandles
      cases hhandles

/-- A message that waits to be taken does not get in the way of what the others do. -/
theorem post_modify (n : Node α) (dest : Handle) (m : Message α) (handle : Handle)
    {f : Service α → Service α}
    (hf : ∀ s : Service α, f { s with queue := s.queue ++ [m] } =
      { f s with queue := (f s).queue ++ [m] }) :
    (n.post dest m).modify handle f = (n.modify handle f).post dest m := by
  unfold Node.post
  by_cases heq : handle = dest
  · subst heq
    rw [modify_modify, modify_modify]
    congr
    funext s
    exact hf s
  · simp only [modify, Function.update_of_ne heq, Function.update_of_ne (Ne.symm heq)]
    rw [Function.update_comm heq]

theorem act_call {known : Bool} {value : α} (hlives : (n.services dest).alive = true) :
    n.act handle co (.call dest known false value) =
      ((n.modify handle fun s => s.calls co dest).note
        (.called (handle, (n.services handle).sessionId + 1) co dest value)).post dest
          ⟨handle, if known then .lua else .unknown, (n.services handle).sessionId + 1,
            some value⟩ := by
  have hlives' : ((n.modify handle Service.newsession).services dest).alive = true := by
    by_cases heq : dest = handle
    · rw [heq, services_modify_self, ← heq]
      exact hlives
    · rwa [services_modify_of_ne heq]
  unfold Node.act
  dsimp only
  rw [if_neg Bool.false_ne_true, if_pos hlives', Node.push, if_pos hlives',
    post_modify _ _ _ _ fun _ => rfl,
    modify_modify]
  simp only [modify, note, post]
  rfl

/-- `n'` is `n` once the coroutine `co` of `handle` has called `dest`, but for the request that is
sent. -/
structure Calls (n n' : Node α) (handle : Handle) (co : Co) (call : CallId) (dest : Handle)
    (value : α) :
    Prop where
  fresh : call = (handle, (n.services handle).sessionId + 1)
  self : n'.services handle = (n.services handle).calls co dest
  other : ∀ other, other ≠ handle → n'.services other = n.services other
  trace : n'.trace = n.trace ++ [.called call co dest value]
  timers : n'.timers = n.timers

namespace Calls

variable {n' : Node α} {value : α}

theorem same {β : Type} (c : Calls n n' handle co call dest value) (f : Service α → β)
    (hf : f ((n.services handle).calls co dest) = f (n.services handle)) (other : Handle) :
    f (n'.services other) = f (n.services other) := by
  by_cases heq : other = handle
  · rw [heq, c.self, hf]
  · rw [c.other other heq]

theorem life (c : Calls n n' handle co call dest value) (other : Handle) :
    (n'.services other).life = (n.services other).life := c.same Service.life rfl other

theorem alive (c : Calls n n' handle co call dest value) (other : Handle) :
    (n'.services other).alive = (n.services other).alive := alive_congr (c.life other)

theorem queue (c : Calls n n' handle co call dest value) (other : Handle) :
    (n'.services other).queue = (n.services other).queue := c.same Service.queue rfl other

theorem sessionId_le (c : Calls n n' handle co call dest value) (other : Handle) :
    (n.services other).sessionId ≤ (n'.services other).sessionId := by
  by_cases heq : other = handle
  · rw [heq, c.self]
    exact Nat.le_succ _
  · exact Nat.le_of_eq (congrArg Service.sessionId (c.other other heq)).symm

theorem status_of_ne (c : Calls n n' handle co call dest value) {other : Handle} {co' : Co}
    (hne : other = handle → co' ≠ co) :
    (n'.services other).status co' = (n.services other).status co' := by
  by_cases heq : other = handle
  · rw [heq, c.self]
    exact Function.update_of_ne (hne heq) ..
  · rw [c.other other heq]

theorem status_self (c : Calls n n' handle co call dest value) :
    (n'.services handle).status co = .calling call.2 := by
  rw [c.self, c.fresh]
  exact Function.update_self ..

theorem mem_trace (c : Calls n n' handle co call dest value) {happened : Happened α}
    (hmem : happened ∈ n.trace) : happened ∈ n'.trace := by
  rw [c.trace]
  exact List.mem_append_left _ hmem

/-- The session is one that nobody has called with. -/
theorem unused (c : Calls n n' handle co call dest value) (h : n.Inv) (co' : Co) (dest' : Handle) :
    ¬Called n.trace call co' dest' := by
  intro hcall
  rw [c.fresh] at hcall
  exact Nat.not_succ_le_self _ ((h.services handle).called _ co' dest' hcall).2.1

theorem called_iff (c : Calls n n' handle co call dest value) (call' : CallId) (co' : Co)
    (dest' : Handle) :
    Called n'.trace call' co' dest' ↔
      Called n.trace call' co' dest' ∨ call' = call ∧ co' = co ∧ dest' = dest := by
  rw [c.trace, called_concat]
  simp [eq_comm]

theorem returned_iff (c : Calls n n' handle co call dest value) (call' : CallId) (co' : Co)
    (result : Option α) :
    .returned call' co' result ∈ n'.trace ↔ .returned call' co' result ∈ n.trace := by
  rw [c.trace]
  simp

theorem tokens_eq (c : Calls n n' handle co call dest value) (dest' : Handle) (call' : CallId) :
    tokens n' dest' call' = tokens n dest' call' := by
  refine tokens_congr (c.queue dest') (c.same (fun s => s.handled call') rfl dest')
    (c.same Service.unresponse rfl dest') ?_
  rw [c.trace, List.countP_append]
  simp [Happened.answers]

theorem tokens_eq_zero (c : Calls n n' handle co call dest value) (h : n.Inv) (dest' : Handle) :
    tokens n dest' call = 0 := by
  by_contra hpos
  obtain ⟨co', hcall⟩ := h.called dest' call (by rw [c.fresh]; exact Nat.succ_ne_zero _) (by omega)
  exact c.unused h co' dest' hcall

theorem services (c : Calls n n' handle co call dest value) (h : n.Inv)
    (hco : (n.services handle).status co = .running) (other : Handle) :
    (n'.services other).Ok n'.trace other := by
  by_cases heq : other = handle
  · rw [heq, c.self, c.trace, c.fresh]
    exact (h.services handle).calls hco value
  · rw [c.other other heq]
    refine (h.services other).congr (fun session co' dest' => ?_)
      fun session co' result => c.returned_iff ..
    rw [c.called_iff, or_iff_left]
    rintro ⟨hcall, -⟩
    rw [c.fresh] at hcall
    exact heq (congrArg Prod.fst hcall)

theorem once (c : Calls n n' handle co call dest value) (h : n.Inv) : n'.trace.Pairwise Apart := by
  rw [c.trace, List.pairwise_append]
  refine ⟨h.once, List.pairwise_singleton .., fun a ha b hb => ?_⟩
  rw [List.mem_singleton.mp hb]
  cases a with
  | called call' co' dest' value' =>
      rintro rfl
      exact c.unused h co' dest' ⟨value', ha⟩
  | _ => trivial

theorem response (c : Calls n n' handle co call dest value) (h : n.Inv) (other : Handle)
    (m : Message α)
    (hm : m ∈ (n'.services other).queue) (hprototype : m.prototype = .response) :
    m.session ≤ (n'.services other).sessionId ∧
      ((∃ value', m.value = some value' ∧ .answered (other, m.session) m.source value' ∈ n'.trace) ∨
        ∀ co' dest', ¬Called n'.trace (other, m.session) co' dest') := by
  rw [c.queue] at hm
  obtain ⟨hle, hrest⟩ := Ok.response h other m hm hprototype
  refine ⟨Nat.le_trans hle (c.sessionId_le other), hrest.imp ?_ ?_⟩
  · rintro ⟨value', hvalue, hanswered⟩
    exact ⟨value', hvalue, c.mem_trace hanswered⟩
  · intro hnot co' dest' hcall
    rcases (c.called_iff ..).mp hcall with hcall | ⟨hcall, -⟩
    · exact hnot co' dest' hcall
    · -- a response that waits is for a session that is already used
      obtain ⟨heq, hsession⟩ := Prod.ext_iff.mp (hcall.trans c.fresh)
      have heq : other = handle := heq
      have hsession : m.session = (n.services handle).sessionId + 1 := hsession
      rw [heq, hsession] at hle
      exact Nat.not_succ_le_self _ hle

theorem due (c : Calls n n' handle co call dest value) (h : n.Inv) (call' : CallId)
    (hcall' : call' ∈ n'.timers) :
    call'.2 ≤ (n'.services call'.1).sessionId ∧ ∀ co' dest', ¬Called n'.trace call' co' dest' := by
  rw [c.timers] at hcall'
  obtain ⟨hle, hnot⟩ := h.timers call' hcall'
  refine ⟨Nat.le_trans hle (c.sessionId_le call'.1), fun co' dest' hcall => ?_⟩
  rcases (c.called_iff ..).mp hcall with hcall | ⟨heq, -⟩
  · exact hnot co' dest' hcall
  · rw [heq, c.fresh] at hle
    exact Nat.not_succ_le_self _ hle

theorem token (c : Calls n n' handle co call dest value) (h : n.Inv) (dest' : Handle)
    (call' : CallId)
    (hne : call'.2 ≠ 0) :
    tokens n' dest' call' + (if some (dest, call) = some (dest', call') then 1 else 0) ≤ 1 := by
  have hold := h.token dest' call' hne
  rw [if_neg (Option.some_ne_none _).symm] at hold
  rw [c.tokens_eq]
  by_cases heq : call' = call
  · rw [heq, c.tokens_eq_zero h]
    split_ifs <;> omega
  · rw [if_neg fun hhand => heq (Prod.ext_iff.mp (Option.some_inj.mp hhand)).2.symm]
    exact hold

theorem called (c : Calls n n' handle co call dest value) (h : n.Inv) (dest' : Handle)
    (call' : CallId)
    (hne : call'.2 ≠ 0)
    (hpos : 0 < tokens n' dest' call' +
      (if some (dest, call) = some (dest', call') then 1 else 0)) :
    ∃ co', Called n'.trace call' co' dest' := by
  rw [c.tokens_eq] at hpos
  by_cases heq : some (dest, call) = some (dest', call')
  · cases heq
    exact ⟨co, (c.called_iff ..).mpr (.inr ⟨rfl, rfl, rfl⟩)⟩
  · rw [if_neg heq] at hpos
    obtain ⟨co', hcall⟩ := h.called dest' call' hne (by omega)
    exact ⟨co', (c.called_iff ..).mpr (.inl hcall)⟩

theorem returned (c : Calls n n' handle co call dest value) (h : n.Inv) (call' : CallId) (co' : Co)
    (result : Option α) (hmem : .returned call' co' result ∈ n'.trace) :
    ∃ dest', Called n'.trace call' co' dest' ∧
      ∀ value', result = some value' → .answered call' dest' value' ∈ n'.trace := by
  obtain ⟨dest', hcall, hanswered⟩ := h.returned call' co' result ((c.returned_iff ..).mp hmem)
  exact ⟨dest', (c.called_iff ..).mpr (.inl hcall),
    fun value' hvalue => c.mem_trace (hanswered value' hvalue)⟩

/-- A call that has its place keeps it. -/
theorem keeps_place (c : Calls n n' handle co call dest value) {call' : CallId} {dest' : Handle}
    (hplaced : Placed n call' dest') : Placed n' call' dest' := by
  refine hplaced.mono ?_ ?_ ?_ ?_ ?_ ?_ ?_
  · rw [c.queue]
    exact fun m hm _ => hm
  · intro co' hhandles hrun
    rw [c.same (fun s => s.handles call' co') rfl]
    refine ⟨hhandles, ?_⟩
    by_cases heq : dest' = handle ∧ co' = co
    · rw [heq.1, heq.2, c.status_self]
      exact fun hstop => by cases hstop
    · rwa [c.status_of_ne fun hdest hco' => heq ⟨hdest, hco'⟩]
  · rw [c.same Service.unresponse rfl]
    exact id
  · rw [Present, Present, c.alive]
    exact Or.imp_right c.mem_trace
  · rw [c.queue]
    exact fun m hm => hm
  · rw [c.same Service.errorQueue rfl]
    exact id
  · exact c.mem_trace

theorem placed (c : Calls n n' handle co call dest value) (h : n.Inv) (other : Handle)
    (session : Session)
    (co' : Co) (dest' : Handle) (hstatus : (n'.services other).status co' = .calling session)
    (hcall : Called n'.trace (other, session) co' dest')
    (hlives : (n'.services other).alive = true) :
    Placed n' (other, session) dest' ∨ (other, session) = call := by
  rw [c.alive] at hlives
  rcases (c.called_iff ..).mp hcall with hcall | ⟨heq, -⟩
  · -- an older call: its coroutine is not the one that calls now
    by_cases heq : other = handle ∧ co' = co
    · obtain ⟨rfl, rfl⟩ := heq
      rw [c.status_self] at hstatus
      cases hstatus
      refine absurd hcall ?_
      rw [show (other, call.2) = call by rw [c.fresh]]
      exact c.unused h co' dest'
    · rw [c.status_of_ne fun hother hco' => heq ⟨hother, hco'⟩] at hstatus
      exact .inl
        (c.keeps_place ((h.placed other session co' dest' hstatus hcall hlives).resolve_right id))
  · exact .inr heq

end Calls

/-- A new call, with its request in hand. -/
theorem Inv.calls (h : n.Inv) (hco : (n.services handle).status co = .running)
    (dest : Handle) (value : α)
    (hnew : call = (handle, (n.services handle).sessionId + 1)) :
    ((n.modify handle fun s => s.calls co dest).note (.called call co dest value)).Ok
    (some (dest, call))
      fun call' => call' = call := by
  have c : Calls n ((n.modify handle fun s => s.calls co dest).note (.called call co dest value))
      handle co
      call dest value :=
    { fresh := hnew
      self := by rw [services_note, services_modify_self]
      other := fun other hne => by rw [services_note, services_modify_of_ne hne]
      trace := rfl
      timers := rfl }
  exact
    { services := c.services h hco
      once := c.once h
      response := c.response h
      timers := c.due h
      token := c.token h
      called := c.called h
      returned := c.returned h
      down := fun other m hm => by
        rw [c.queue] at hm
        rw [c.life]
        exact h.down other m hm
      dead := fun other dest' => by
        rw [c.life, c.same Service.deadService rfl]
        exact h.dead other dest'
      placed := c.placed h }

theorem Inv.request (h : n.Inv) (hco : (n.services handle).status co = .running) (dest : Handle)
    (known large : Bool)
    (value : α) : (n.act handle co (.call dest known large value)).Inv := by
  cases large with
  | true => exact h
  | false =>
      by_cases hlives : (n.services dest).alive = true
      · rw [act_call hlives]
        refine (h.calls hco dest value rfl).post ?_ ?_ ?_ ?_
        · intro dest' call hne
          rw [if_neg (Option.some_ne_none _).symm]
          by_cases heq : dest' = dest ∧ call = (handle, (n.services handle).sessionId + 1)
          · obtain ⟨rfl, rfl⟩ := heq
            rw [if_pos (rfl : some _ = some _)]
            split_ifs <;> omega
          · rw [if_neg fun hself => heq ⟨hself.1, (requests_iff.mp hself.2).2⟩]
            exact Nat.zero_le _
        · cases known <;> exact fun hprototype => by cases hprototype
        · cases known <;> exact fun hprototype => by cases hprototype
        · rintro call co' dest' rfl hcall
          refine .inr (.inr ⟨?_, ?_⟩)
          · have hnew : Called ((n.modify handle fun s => s.calls co dest).note (.called
                (handle, (n.services handle).sessionId + 1) co dest value)).trace
                (handle, (n.services handle).sessionId + 1) co dest :=
              ⟨value, List.mem_append_right _ (List.mem_singleton_self _)⟩
            exact ((h.calls hco dest value rfl).receiver hnew hcall).2
          · exact requests_iff.mpr ⟨by cases known <;> rfl, rfl⟩
      · unfold Node.act
        dsimp only
        have hnew : (n.modify handle Service.newsession).Inv :=
          h.quiet _ (.of_eq (.inl rfl) rfl rfl (Nat.le_succ _) rfl rfl rfl rfl rfl fun _ _ _ h => h)
            ((h.services handle).of_eq (.inl rfl) rfl rfl rfl (Nat.le_succ _) rfl rfl (.refl _)) rfl
        rw [if_neg Bool.false_ne_true, if_neg]
        · exact hnew
        · by_cases heq : dest = handle
          · rw [heq, services_modify_self, ← heq]
            exact hlives
          · rwa [services_modify_of_ne heq]

/-- A timer is due. -/
theorem Inv.expire (h : n.Inv) {i : Nat} (hcall : n.timers[i]? = some call) :
    ({ n with timers := n.timers.eraseIdx i }.push call.1 ⟨0, .response, call.2, none⟩).Inv := by
  have hmem : call ∈ n.timers := List.mem_of_getElem? hcall
  have hless : Node.Ok { n with timers := n.timers.eraseIdx i } none fun _ => False := by
    refine Ok.keep h (Function.update_eq_self call.1 n.services).symm (.inl rfl) ?_
      (h.services call.1)
      (fun dest hdest => .inl hdest) (fun call' hcall' => .inl (List.mem_of_mem_eraseIdx hcall'))
      fun _ hlost => hlost.elim
    exact .of_eq (.inl rfl) rfl rfl (Nat.le_refl _) rfl rfl rfl rfl rfl fun _ _ _ h => h
  obtain ⟨hle, hnot⟩ := h.timers call hmem
  exact hless.push (fun _ _ => rfl) (fun _ => ⟨hle, .inr hnot⟩)
    (fun hprototype => by cases hprototype)
    fun _ _ _ hlost => hlost.elim

/-- A message for a service that has exited is dropped, and who sent it is told. -/
theorem Inv.discard (h : n.Inv) (hgone : (n.services handle).life = .exited)
    {queue : List (Message α)}
    (hqueue : (n.services handle).queue = m :: queue) :
    ((n.modify handle fun s => { s with queue }).pushError handle (m.source, 0)).Inv := by
  have hpop : (n.modify handle fun s => { s with queue }).Ok none fun call => m.requests call =
      true := by
    refine (Ok.pop h hqueue fun _ hnone => by cases hnone).tighten ?_
    rintro ⟨caller, session⟩ co dest (hrequests | ⟨heq, -⟩) - halive -
    · exact hrequests
    · have heq : caller = handle := heq
      subst heq
      rw [services_modify_self] at halive
      exact absurd halive (Bool.eq_false_iff.mp (not_alive_of_exited hgone))
  refine hpop.push (fun _ _ => rfl) (fun hprototype => by cases hprototype) (fun _ _ => ?_) ?_
  · rwa [services_modify_self]
  · intro call co dest hrequests hcall
    have hpos : 0 < (n.services handle).queue.countP (Message.requests call) := by
      rw [hqueue]
      exact List.countP_pos_iff.mpr ⟨m, List.mem_cons_self, hrequests⟩
    obtain ⟨co', hcall'⟩ :=
      h.called handle call (h.session_ne hcall) (by rw [tokens, Service.tokens]; omega)
    exact .inr ⟨by rw [(requests_iff.mp hrequests).2], .inr ⟨rfl, rfl, (h.receiver hcall hcall').2⟩⟩

section Gone

variable {s' : Service α} {f : Service α → Service α}

/-- What the service `s` is when it has exited. -/
def Gone (s s' : Service α) (co : Co) : Prop :=
  s' = { s with
    life := .exited
    forkQueue := []
    unresponse := []
    running := none
    status := Function.update s.status co .stopped }

theorem Gone.life (hgone : Gone (n.services handle) s' co) (hf : f (n.services handle) = s')
    {other : Handle} (hdown : (n.services other).life = .exited) :
    ((n.modify handle f).services other).life = .exited := by
  by_cases heq : other = handle
  · rw [heq, services_modify_self, hf, hgone]
  · rwa [services_modify_of_ne heq]

theorem Gone.queue (hgone : Gone (n.services handle) s' co) (hf : f (n.services handle) = s')
    (other : Handle) : ((n.modify handle f).services other).queue = (n.services other).queue :=
  apply_modify Service.queue (by rw [hf, hgone]) other

theorem Gone.sessionId (hgone : Gone (n.services handle) s' co) (hf : f (n.services handle) = s')
    (other : Handle) :
    ((n.modify handle f).services other).sessionId = (n.services other).sessionId :=
  apply_modify Service.sessionId (by rw [hf, hgone]) other

theorem Gone.tokens_le (hgone : Gone (n.services handle) s' co) (hf : f (n.services handle) = s')
    (dest : Handle) (call : CallId) :
    tokens (n.modify handle f) dest call ≤ tokens n dest call := by
  have hhandled : ((n.modify handle f).services dest).handled call =
      (n.services dest).handled call :=
    apply_modify (fun s => s.handled call) (by rw [hf, hgone]; rfl) dest
  have hcount : ((n.modify handle f).services dest).unresponse.count call ≤
      (n.services dest).unresponse.count call := by
    by_cases heq : dest = handle
    · rw [heq, services_modify_self, hf, hgone]
      exact Nat.zero_le _
    · exact Nat.le_of_eq (by rw [services_modify_of_ne heq])
  rw [Rpc.tokens, Rpc.tokens, Service.tokens, Service.tokens, hgone.queue hf, trace_modify,
    hhandled]
  omega

/-- The calls of the others keep their places, but for those that the service has. -/
theorem Gone.placed (hgone : Gone (n.services handle) s' co) (hf : f (n.services handle) = s')
    (hs : (n.services handle).Ok n.trace handle) {other : Handle}
    (hplaced : Placed n (other, session) dest) :
    Placed (n.modify handle f) (other, session) dest ∨
      (∃ co < (n.services handle).nextCo, (n.services handle).handles (other, session) co = true) ∨
        (other, session) ∈ (n.services handle).unresponse := by
  have hpresent : dest ≠ handle → Present n (other, session) dest →
      Present (n.modify handle f) (other, session) dest := by
    intro hdest
    rw [Present, Present, services_modify_of_ne hdest]
    exact id
  cases hplaced with
  | waits m hm hrequests => exact .inl (.waits m (by rwa [hgone.queue hf]) hrequests)
  | handled c' hhandles hrun hthere =>
      by_cases heq : dest = handle
      · rw [heq] at hhandles hrun
        exact .inr (.inl ⟨c', lt_nextCo hs hrun, hhandles⟩)
      · exact .inl (.handled c' (by rwa [services_modify_of_ne heq])
          (by rwa [services_modify_of_ne heq]) (hpresent heq hthere))
  | promised hmem hthere =>
      by_cases heq : dest = handle
      · rw [heq] at hmem
        exact .inr (.inr hmem)
      · exact .inl (.promised (by rwa [services_modify_of_ne heq]) (hpresent heq hthere))
  | answered m hm hsession hprototype =>
      exact .inl (.answered m (by rwa [hgone.queue hf]) hsession hprototype)
  | down m hm hzero hsource hprototype =>
      exact .inl (.down m (by rwa [hgone.queue hf]) hzero hsource hprototype)
  | failed hmem =>
      exact .inl (.failed (by rwa [apply_modify Service.errorQueue (by rw [hf, hgone])]))
  | forgot hmem => exact .inl (.forgot hmem)

/-- A service that exits leaves the requests that it has. -/
theorem Inv.gone (h : n.Inv) (hco : (n.services handle).status co = .running)
    (hgone : Gone (n.services handle) s' co) (hf : f (n.services handle) = s') :
    (n.modify handle f).Ok none fun call =>
      (∃ co < (n.services handle).nextCo, (n.services handle).handles call co = true) ∨
        call ∈ (n.services handle).unresponse := by
  constructor
  · intro other
    by_cases heq : other = handle
    · rw [heq, services_modify_self, hf, hgone]
      exact (h.services handle).exit hco
    · rw [services_modify_of_ne heq]
      exact h.services other
  · exact h.once
  · intro other m hm hprototype
    rw [hgone.queue hf] at hm
    rw [hgone.sessionId hf]
    exact Ok.response h other m hm hprototype
  · intro call hcall
    rw [hgone.sessionId hf]
    exact h.timers call hcall
  · intro dest call hne
    have hold := h.token dest call hne
    have hless := hgone.tokens_le hf dest call
    omega
  · intro dest call hne hpos
    have hless := hgone.tokens_le hf dest call
    exact h.called dest call hne (by omega)
  · exact h.returned
  · intro other m hm hprototype hzero
    rw [hgone.queue hf] at hm
    exact hgone.life hf (h.down other m hm hprototype hzero)
  · intro other dest hdead
    rw [apply_modify Service.deadService (by rw [hf, hgone])] at hdead
    exact hgone.life hf (h.dead other dest hdead)
  · intro other session c dest hstatus hcall hlives
    have hne : other ≠ handle := by
      rintro rfl
      rw [services_modify_self, hf, hgone] at hlives
      cases hlives
    rw [services_modify_of_ne hne] at hstatus hlives
    exact hgone.placed hf (h.services handle)
      ((h.placed other session c dest hstatus hcall hlives).resolve_right id)

end Gone

/-- Those who wait for what it has are told. -/
theorem Ok.postErrors (lives : Handle → Bool) (errors : List CallId) (h : n.Ok none loose)
    (hgone : (n.services handle).life = .exited)
    (hloose : ∀ call co dest, loose call → Called n.trace call co dest → loose' call ∨
      call ∈ errors ∧ lives call.1) :
    (errors.foldl (fun n call => if lives call.1 then n.post call.1 ⟨handle, .error, call.2, none⟩
      else n) n).Ok none
      loose' := by
  induction errors generalizing n loose with
  | nil =>
      refine h.tighten
        fun call co dest hlost hcall _ _ => (hloose call co dest hlost hcall).resolve_right ?_
      simp
  | cons error errors ih =>
      rw [List.foldl_cons]
      by_cases hlives : lives error.1 = true
      · rw [if_pos hlives]
        have hpost : (n.post error.1 ⟨handle, .error, error.2, none⟩).Ok none
            fun call => loose' call ∨ call ∈ errors ∧ lives call.1 := by
          refine h.post (fun _ _ _ => by simp [Message.requests, Prototype.isRequest])
            (fun hprototype => by cases hprototype) (fun _ _ => hgone) ?_
          intro call co dest hlost hcall
          rcases hloose call co dest hlost hcall with hlost | ⟨hmem, hlives'⟩
          · exact .inl (.inl hlost)
          · rcases List.mem_cons.mp hmem with rfl | hmem
            · exact .inr (.inl ⟨rfl, .inl ⟨.inr rfl, rfl⟩⟩)
            · exact .inl (.inr ⟨hmem, hlives'⟩)
        refine ih hpost ?_ fun call co dest hlost _ => hlost
        unfold Node.post
        by_cases heq : handle = error.1
        · rw [heq, services_modify_self, ← heq]
          exact hgone
        · rwa [services_modify_of_ne heq]
      · rw [if_neg hlives]
        refine ih h hgone
          fun call co dest hlost hcall => (hloose call co dest hlost hcall).imp_right ?_
        rintro ⟨hmem, hlives'⟩
        rcases List.mem_cons.mp hmem with rfl | hmem
        · exact absurd hlives' hlives
        · exact ⟨hmem, hlives'⟩

/-- The service may be ended before the others are told. -/
theorem modify_pushErrors {lives : Handle → Bool}
    (hlives : ∀ other, (n.services other).alive = lives other)
    (errors : List CallId) {f : Service α → Service α}
    (hf : ∀ (s : Service α) m, f { s with queue := s.queue ++ [m] } =
      { f s with queue := (f s).queue ++ [m] }) :
    (errors.foldl (fun n call => n.pushError handle call) n).modify handle f =
      errors.foldl
        (fun n call => if lives call.1 then n.post call.1 ⟨handle, .error, call.2, none⟩ else n)
        (n.modify handle f) := by
  induction errors generalizing n with
  | nil => rfl
  | cons error errors ih =>
      rw [List.foldl_cons, List.foldl_cons, pushError, push, hlives]
      by_cases hlive : lives error.1 = true
      · rw [if_pos hlive, if_pos hlive, ← post_modify _ _ _ _ fun s => hf s _]
        refine ih fun other => ?_
        rw [← hlives, post]
        by_cases heq : other = error.1
        · rw [heq, services_modify_self]
          exact alive_congr rfl
        · rw [services_modify_of_ne heq]
      · rw [if_neg hlive, if_neg hlive]
        exact ih hlives

theorem Inv.exit (h : n.Inv) (hco : (n.services handle).status co = .running) :
    (n.exit handle co).Inv := by
  unfold Node.exit
  rw [modify_pushErrors (fun other => rfl) _ fun _ _ => rfl]
  have hgone : (n.modify handle fun s =>
      { s with
        life := .exited
        forkQueue := []
        unresponse := []
        running := none
        status := Function.update s.status co .stopped }).Ok none fun call =>
          call ∈ (n.services handle).exitErrors ∧ (n.services call.1).alive = true := by
    refine (h.gone hco rfl rfl).tighten fun call c dest hlost hcall halive _ => ?_
    have hne := h.session_ne hcall
    have hlives : (n.services call.1).alive = true := by
      by_cases heq : call.1 = handle
      · rw [heq, services_modify_self] at halive
        cases halive
      · rwa [services_modify_of_ne heq] at halive
    refine ⟨?_, hlives⟩
    unfold Service.exitErrors
    rcases hlost with ⟨c', hlt, hhandles⟩ | hmem
    · refine List.mem_append_left _
        (List.mem_append_left _ (List.mem_filter.mpr ⟨?_, by simpa using hne⟩))
      exact List.mem_filterMap.mpr ⟨c', List.mem_range.mpr hlt, (request_of_handles hhandles).1⟩
    · refine List.mem_append_left _ (List.mem_append_right _ (List.mem_filter.mpr ⟨hmem, ?_⟩))
      have hknown : (n.services handle).deadService call.1 = false := by
        by_contra hdead
        have hgone := not_alive_of_exited (h.dead handle call.1 (by simpa using hdead))
        exact Bool.eq_false_iff.mp hgone hlives
      simp [hne, hknown]
  exact hgone.postErrors (fun other => (n.services other).alive) _ (by rw [services_modify_self])
    fun _ _ _ hlost _ => .inr hlost

theorem Inv.act (h : n.Inv) (hco : (n.services handle).running = some co) (a : Act α) :
    (n.act handle co a).Inv := by
  have hstatus := (h.services handle).running co hco
  cases a with
  | send dest known value => exact h.send known value
  | call dest known large value => exact h.request hstatus dest known large value
  | sleep => exact h.sleep hstatus
  | timeout => exact h.timeout
  | wait => exact h.wait hstatus
  | wakeup other => exact h.wakeup other
  | fork => exact h.fork
  | ret value large => exact h.ret hstatus value large
  | response => exact Inv.response h hstatus
  | respond call ok large value => exact h.respond call ok large value
  | exit => exact h.exit hstatus
  | finish => exact h.finish hstatus
  | raise => exact h.raise hstatus

section Launch

/-- What a service has that starts, but for its life. -/
theorem apply_launch {β : Type} (g : Service α → β) (hg : ∀ s : Service α, ∀ life,
    g { s with life } = g s) (other : Handle) :
    g ((n.modify handle fun s => { s with life := .alive }).services other) =
      g (n.services other) := apply_modify g (hg _ _) other

theorem exited_launch (hnew : (n.services handle).life = .unborn) {other : Handle}
    (hgone : (n.services other).life = .exited) :
    ((n.modify handle fun s => { s with life := .alive }).services other).life = .exited := by
  have hne : other ≠ handle := by
    rintro rfl
    rw [hnew] at hgone
    cases hgone
  rwa [services_modify_of_ne hne]

theorem tokens_launch (dest : Handle) (call : CallId) :
    tokens (n.modify handle fun s => { s with life := .alive }) dest call = tokens n dest call :=
  tokens_congr (apply_launch Service.queue (fun _ _ => rfl) dest)
    (apply_launch (fun s => s.handled call) (fun _ _ => rfl) dest)
    (apply_launch Service.unresponse (fun _ _ => rfl) dest) rfl

theorem placed_launch (hplaced : Placed n call dest) :
    Placed (n.modify handle fun s => { s with life := .alive }) call dest := by
  refine hplaced.mono ?_ ?_ ?_ ?_ ?_ ?_ id
  · rw [apply_launch Service.queue fun _ _ => rfl]
    exact fun m hm _ => hm
  · intro c hhandles hrun
    rw [apply_launch (fun s => s.handles call c) fun _ _ => rfl,
      apply_launch Service.status fun _ _ => rfl]
    exact ⟨hhandles, hrun⟩
  · rw [apply_launch Service.unresponse fun _ _ => rfl]
    exact id
  · refine Or.imp_left fun hthere => ?_
    by_cases heq : dest = handle
    · rw [heq, services_modify_self]
      rfl
    · rwa [services_modify_of_ne heq]
  · rw [apply_launch Service.queue fun _ _ => rfl]
    exact fun m hm => hm
  · rw [apply_launch Service.errorQueue fun _ _ => rfl]
    exact id

/-- A service that starts is one that nobody knows of. -/
theorem Inv.launch (h : n.Inv) (hnew : (n.services handle).life = .unborn)
    (hzero : (n.services handle).sessionId = 0) :
    (n.launch handle).Inv := by
  refine Inv.timeout ?_
  have hs := h.services handle
  constructor
  · intro other
    by_cases heq : other = handle
    · rw [heq, services_modify_self]
      exact hs.of_eq (.inl rfl) rfl rfl rfl (Nat.le_refl _) rfl rfl (.refl _)
    · rw [services_modify_of_ne heq]
      exact h.services other
  · exact h.once
  · intro other m hm
    rw [apply_launch Service.queue fun _ _ => rfl] at hm
    rw [apply_launch Service.sessionId fun _ _ => rfl]
    exact Ok.response h other m hm
  · intro call hcall
    rw [apply_launch Service.sessionId fun _ _ => rfl]
    exact h.timers call hcall
  · intro dest call
    rw [tokens_launch]
    exact h.token dest call
  · intro dest call
    rw [tokens_launch]
    exact h.called dest call
  · exact h.returned
  · intro other m hm hprototype hsession
    rw [apply_launch Service.queue fun _ _ => rfl] at hm
    exact exited_launch hnew (h.down other m hm hprototype hsession)
  · intro other dest hdead
    rw [apply_launch Service.deadService fun _ _ => rfl] at hdead
    exact exited_launch hnew (h.dead other dest hdead)
  · intro other session co dest hcalling hcall hlives
    rw [apply_launch Service.status fun _ _ => rfl] at hcalling
    have hne : other ≠ handle := by
      rintro rfl
      obtain ⟨hpos, hle, -⟩ := hs.called session co dest hcall
      rw [hzero] at hle
      exact Nat.not_lt.mpr hle hpos
    rw [services_modify_of_ne hne] at hlives
    exact .inl
      (placed_launch ((h.placed other session co dest hcalling hcall hlives).resolve_right id))

end Launch

/-- What `suspend` goes on with changes no service but for what is left to do. -/
theorem Inv.setWork (h : n.Inv) (work : List Work) :
    (n.modify handle fun s => { s with work }).Inv :=
  h.quiet _ (.of_eq (.inl rfl) rfl rfl (Nat.le_refl _) rfl rfl rfl rfl rfl fun _ _ _ h => h)
    ((h.services handle).of_eq (.inl rfl) rfl rfl rfl (Nat.le_refl _) rfl rfl (.refl _)) rfl

theorem Inv.step (h : n.Inv) (event : Event α) : (n.step event).Inv := by
  cases event with
  | launch handle =>
      unfold Node.step
      dsimp only
      split
      · next hnew hzero => exact h.launch hnew hzero
      · exact h
  | deliver handle =>
      unfold Node.step
      dsimp only
      split
      · next hqueue => exact h.rawDispatchMessage hqueue
      · exact h
  | work handle =>
      unfold Node.step
      dsimp only
      split
      · exact (h.setWork _).dispatchWakeup
      · exact (h.setWork _).dispatchErrorQueue
      · exact h
  | fork handle i =>
      unfold Node.step
      dsimp only
      split
      · next hco => exact h.begin hco
      · exact h
  | act handle a =>
      unfold Node.step
      dsimp only
      split
      · next co hco => exact h.act hco a
      · exact h
  | expire i =>
      unfold Node.step
      dsimp only
      split
      · next call hcall => exact h.expire hcall
      · exact h
  | drop handle =>
      unfold Node.step
      dsimp only
      split
      · next hgone hqueue => exact h.discard hgone hqueue
      · exact h

theorem inv_start : (start α).Inv where
  services := fun _ => Service.ok_new
  once := List.Pairwise.nil
  response := fun _ _ hm => by cases hm
  timers := fun _ hcall => by cases hcall
  token := by simp [start, tokens, Service.tokens, Service.handled]
  called := by simp [start, tokens, Service.tokens, Service.handled]
  returned := fun _ _ _ hmem => by cases hmem
  down := fun _ _ hm => by cases hm
  dead := fun _ _ hdead => by cases hdead
  placed := fun _ _ _ _ hstatus => by cases hstatus

theorem inv_run (events : List (Event α)) : (run events).Inv :=
  @Run.invariant _ _ Node.step (fun _ _ => True) Inv
    (fun _ event h _ => h.step event) events _ inv_start
    (Run.Along.of_forall (fun _ _ => trivial) events _)

end Steps

section Runs

/-- A service calls another one, which sleeps before it answers. -/
def aCall : List (Event Nat) :=
  [.launch 1, .launch 2, .expire 0, .deliver 1, .act 1 (.call 2 true false 7), .work 1, .work 1,
    .deliver 2, .act 2 .sleep]

end Runs

end Node

end SdyServer.Rpc
