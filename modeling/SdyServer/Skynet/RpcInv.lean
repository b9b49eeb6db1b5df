import SdyServer.Skynet.Rpc
import Mathlib.Data.List.Perm.Basic

/-!
# What a service knows of its calls

The session of a coroutine that waits is registered for it and for nobody else, whatever woke the
others up, so a message or an error resumes the coroutine that waits for it. A call is watched until
it returns.
-/

namespace SdyServer.Rpc

variable {α : Type}

/-- The session that a coroutine waits for. -/
def Status.session : Status → Option Session
  | .calling session => some session
  | .sleeping session => some session
  | .waiting session => some session
  | .timeout session => some session
  | _ => none

def Called (trace : List (Happened α)) (call : CallId) (co : Co) (dest : Handle) : Prop :=
  ∃ value, .called call co dest value ∈ trace

def Returned (trace : List (Happened α)) (call : CallId) : Prop :=
  ∃ co result, .returned call co result ∈ trace

theorem called_concat {trace : List (Happened α)} {happened : Happened α} {call : CallId} {co : Co}
    {dest : Handle} :
    Called (trace ++ [happened]) call co dest ↔
      Called trace call co dest ∨ ∃ value, happened = .called call co dest value := by
  simp [Called, exists_or, eq_comm]

theorem returned_concat {trace : List (Happened α)} {happened : Happened α} {call : CallId} :
    Returned (trace ++ [happened]) call ↔
      Returned trace call ∨ ∃ co result, happened = .returned call co result := by
  simp [Returned, exists_or, eq_comm]

/-- What the maps of a service say of its coroutines, and of the calls that were seen. -/
structure Service.Ok (trace : List (Happened α)) (handle : Handle) (s : Service α) : Prop where
  running : ∀ co, s.running = some co → s.status co = .running
  fresh : ∀ co, s.nextCo ≤ co → s.status co = .stopped
  waiter : ∀ session co, s.sessionIdCoroutine session = some (.co co) ↔ (s.status co).session =
    some session
  used : ∀ session, s.sessionIdCoroutine session ≠ none → session ≤ s.sessionId
  sleep : ∀ co session, s.sleepSession co = some session →
    s.status co = .sleeping session ∨ s.status co = .waiting session
  watching : ∀ session dest, s.watchingSession session = some dest → ∃ co, s.status co =
    .calling session
  calling : ∀ co session, s.status co = .calling session →
    (∃ dest, s.watchingSession session = some dest ∧ Called trace (handle, session) co dest) ∧
      ¬Returned trace (handle, session)
  called : ∀ session co dest, Called trace (handle, session) co dest →
    0 < session ∧ session ≤ s.sessionId ∧
      (s.status co = .calling session ∨ ∃ result, .returned (handle, session) co result ∈ trace)
  returned : ∀ session, Returned trace (handle, session) → session ≤ s.sessionId
  forked : s.forkQueue.Nodup ∧ ∀ co ∈ s.forkQueue, s.status co = .ready

namespace Service

/-- The service once its coroutine has called. -/
def calls (s : Service α) (co : Co) (dest : Handle) : Service α :=
  ({ s.newsession with
    watchingSession := Function.update s.watchingSession (s.sessionId + 1) (some dest) }.setWaiter
      (s.sessionId + 1)
      (some (.co co))).yield co (.calling (s.sessionId + 1))

variable {trace trace' : List (Happened α)} {handle : Handle} {s s' : Service α}

section Ok

theorem ok_new : Ok ([] : List (Happened α)) handle {} where
  running := by simp
  fresh := by simp
  waiter := by simp [Status.session]
  used := by simp
  sleep := by simp
  watching := by simp
  calling := by simp
  called := by simp [Called]
  returned := by simp [Returned]
  forked := by simp

/-- What is seen of other services changes nothing. -/
theorem Ok.congr (h : s.Ok trace handle)
    (hcalled : ∀ session co dest, Called trace' (handle, session) co dest ↔
      Called trace (handle, session) co dest)
    (hreturned : ∀ session co result,
      .returned (handle, session) co result ∈ trace' ↔
      .returned (handle, session) co result ∈ trace) :
    s.Ok trace' handle where
  running := h.running
  fresh := h.fresh
  waiter := h.waiter
  used := h.used
  sleep := h.sleep
  watching := h.watching
  calling := by
    intro co session hstatus
    obtain ⟨⟨dest, hwatch, hcall⟩, hnot⟩ := h.calling co session hstatus
    refine ⟨⟨dest, hwatch, (hcalled ..).mpr hcall⟩, ?_⟩
    rintro ⟨co', result, hmem⟩
    exact hnot ⟨co', result, (hreturned ..).mp hmem⟩
  called := by
    intro session co dest hcall
    obtain ⟨hpos, hle, hrest⟩ := h.called session co dest ((hcalled ..).mp hcall)
    refine ⟨hpos, hle, hrest.imp_right ?_⟩
    rintro ⟨result, hmem⟩
    exact ⟨result, (hreturned ..).mpr hmem⟩
  returned := by
    rintro session ⟨co, result, hmem⟩
    exact h.returned session ⟨co, result, (hreturned ..).mp hmem⟩
  forked := h.forked

/-- So do the fields that say nothing of who waits for what. -/
theorem Ok.of_eq (h : s.Ok trace handle) (hrunning : s'.running = s.running ∨ s'.running = none)
    (hnextCo : s'.nextCo = s.nextCo) (hstatus : s'.status = s.status)
    (hwaiter : s'.sessionIdCoroutine = s.sessionIdCoroutine) (hsession : s.sessionId ≤ s'.sessionId)
    (hsleep : s'.sleepSession = s.sleepSession) (hwatching : s'.watchingSession = s.watchingSession)
    (hfork : s'.forkQueue.Sublist s.forkQueue) : s'.Ok trace handle where
  running := by
    intro co hco
    rw [hstatus]
    rcases hrunning with hrunning | hrunning
    · exact h.running co (hrunning ▸ hco)
    · rw [hrunning] at hco
      cases hco
  fresh := by
    rw [hnextCo, hstatus]
    exact h.fresh
  waiter := by
    rw [hwaiter, hstatus]
    exact h.waiter
  used := by
    rw [hwaiter]
    exact fun session hused => Nat.le_trans (h.used session hused) hsession
  sleep := by
    rw [hsleep, hstatus]
    exact h.sleep
  watching := by
    rw [hwatching, hstatus]
    exact h.watching
  calling := by
    rw [hwatching, hstatus]
    exact h.calling
  called := by
    intro session co dest hcall
    rw [hstatus]
    obtain ⟨hpos, hle, hrest⟩ := h.called session co dest hcall
    exact ⟨hpos, Nat.le_trans hle hsession, hrest⟩
  returned := fun session hreturned => Nat.le_trans (h.returned session hreturned) hsession
  forked := by
    rw [hstatus]
    exact ⟨h.forked.1.sublist hfork, fun co hco => h.forked.2 co (hfork.subset hco)⟩

theorem Ok.raise (h : s.Ok trace handle) : s.raise.Ok trace handle :=
  h.of_eq (.inr rfl) rfl rfl rfl (Nat.le_refl _) rfl rfl (.refl _)

variable {co : Co} {session : Session} {dest : Handle}

theorem Ok.fail (h : s.Ok trace handle) (hco : s.status co = .running) :
    (s.fail co).Ok trace handle := by
  obtain ⟨hrunning, hfresh, hwaiter, hused, hsleep, hwatching,
    hcalling, hcalled, hreturned, hforked⟩ := h
  constructor <;>
    simp only [Service.fail, Service.raise, Function.update_apply] <;> grind [Status.session]

theorem Ok.finish (h : s.Ok trace handle) (hco : s.status co = .running) :
    ((s.clear co).yield co .stopped).Ok trace handle := by
  obtain ⟨hrunning, hfresh, hwaiter, hused, hsleep, hwatching,
    hcalling, hcalled, hreturned, hforked⟩ := h
  constructor <;>
    simp only [Service.yield, Service.clear, Function.update_apply] <;> grind [Status.session]

theorem Ok.exit (h : s.Ok trace handle) (hco : s.status co = .running) :
    Ok trace handle { s with
      life := .exited
      forkQueue := []
      unresponse := []
      running := none
      status := Function.update s.status co .stopped } := by
  obtain ⟨hrunning, hfresh, hwaiter, hused, hsleep, hwatching,
    hcalling, hcalled, hreturned, hforked⟩ := h
  constructor <;> simp only [Function.update_apply] <;> grind [Status.session]

/-- A coroutine for a request. -/
theorem Ok.create (h : s.Ok trace handle) (call : CallId) :
    Ok trace handle { s.coCreate (some call) .running with running := some s.nextCo } := by
  obtain ⟨hrunning, hfresh, hwaiter, hused, hsleep, hwatching,
    hcalling, hcalled, hreturned, hforked⟩ := h
  constructor <;> simp only [Service.coCreate, Function.update_apply] <;> grind [Status.session]

/-- Nobody waits for a session that has not been given out. -/
theorem Ok.unused (h : s.Ok trace handle) (co : Co) :
    (s.status co).session ≠ some (s.sessionId + 1) := by
  intro hsession
  have hwaiter := (h.waiter _ _).mpr hsession
  exact Nat.not_succ_le_self _ (h.used _ (by rw [hwaiter]; exact Option.some_ne_none _))

theorem Ok.fork (h : s.Ok trace handle) :
    Ok trace handle { s.coCreate none .ready with forkQueue := s.forkQueue ++ [s.nextCo] } := by
  obtain ⟨hrunning, hfresh, hwaiter, hused, hsleep, hwatching,
    hcalling, hcalled, hreturned, hforked⟩ := h
  constructor <;> simp only [Service.coCreate, Function.update_apply] <;> grind [Status.session,
    List.nodup_append]

theorem Ok.timeout (h : s.Ok trace handle) :
    ((s.newsession.coCreate none (.timeout (s.sessionId + 1))).setWaiter (s.sessionId + 1)
      (some (.co s.nextCo))).Ok trace handle := by
  have hunused := h.unused
  obtain ⟨hrunning, hfresh, hwaiter, hused, hsleep, hwatching,
    hcalling, hcalled, hreturned, hforked⟩ := h
  constructor <;> simp only [Service.newsession,
    Service.coCreate, Service.setWaiter, Function.update_apply] <;>
    grind [Status.session]

/-- `skynet.sleep` and `skynet.wait`. -/
theorem Ok.sleeps (h : s.Ok trace handle) (hco : s.status co = .running) {status : Status}
    (hstatus : status = .sleeping (s.sessionId + 1) ∨ status = .waiting (s.sessionId + 1)) :
    (({ s.newsession with sleepSession := Function.update s.sleepSession co (some (s.sessionId + 1))
      }.setWaiter
      (s.sessionId + 1) (some (.co co))).yield co status).Ok trace handle := by
  have hunused := h.unused
  obtain ⟨hrunning, hfresh, hwaiter, hused, hsleep, hwatching,
    hcalling, hcalled, hreturned, hforked⟩ := h
  constructor <;> simp only [Service.newsession,
    Service.yield, Service.setWaiter, Function.update_apply] <;>
    grind [Status.session]

/-- `skynet.call`. -/
theorem Ok.calls (h : s.Ok trace handle) (hco : s.status co = .running) (value : α) :
    (s.calls co dest).Ok (trace ++ [Happened.called (handle, s.sessionId + 1) co dest value])
    handle := by
  have hunused := h.unused
  obtain ⟨hrunning, hfresh, hwaiter, hused, hsleep, hwatching,
    hcalling, hcalled, hreturned, hforked⟩ := h
  constructor <;>
    simp only [Service.calls, Service.newsession, Service.yield, Service.setWaiter,
      Function.update_apply]
  · grind
  · grind
  · grind [Status.session]
  · grind
  · grind
  · grind
  · grind [called_concat, returned_concat, Status.session]
  · grind [called_concat]
  · grind [returned_concat]
  · grind

/-- Nobody else waits for the session of a coroutine. -/
theorem Ok.alone (h : s.Ok trace handle) (hsession : (s.status co).session = some session)
    {co' : Co}
    (hsession' : (s.status co').session = some session) : co' = co := by
  have hwaiter := (h.waiter session co).mpr hsession
  rw [(h.waiter session co').mpr hsession'] at hwaiter
  cases hwaiter
  rfl

theorem Ok.session_le (h : s.Ok trace handle) (hsession : (s.status co).session = some session) :
    session ≤ s.sessionId :=
  h.used session (by rw [(h.waiter session co).mpr hsession]; exact Option.some_ne_none _)

/-- A coroutine that sleeps, or that is new, goes on, whoever it is resumed by. -/
theorem Ok.wake (h : s.Ok trace handle) (hsession : (s.status co).session = some session)
    (hnot : s.status co ≠ .calling session) {waiter : Option Waiter}
    (hwaiter : waiter = none ∨ waiter = some .brk) :
    ((s.setWaiter session waiter).resume co).Ok trace handle := by
  have hstatus : s.status co = .sleeping session ∨ s.status co = .waiting session ∨
      s.status co = .timeout session := by
    cases hco : s.status co <;> simp_all [Status.session]
  have halone : ∀ co', (s.status co').session = some session → co' = co :=
    fun co' => h.alone hsession
  have hle := h.session_le hsession
  obtain ⟨hrunning, hfresh, hwaits, hused, hsleep, hwatching, hcalling, hcalled, hreturned,
    hforked⟩ := h
  rcases hstatus with hstatus | hstatus | hstatus
  all_goals
    constructor <;>
      simp only [Service.setWaiter, Service.resume, hstatus, Service.run, Function.update_apply] <;>
      grind [Status.session]

/-- A call returns. -/
theorem Ok.returns (h : s.Ok trace handle) (hstatus : s.status co = .calling session)
    (result : Option α) :
    ((s.setWaiter session none).resume co).Ok
    (trace ++ [Happened.returned (handle, session) co result]) handle := by
  have hsession : (s.status co).session = some session := by rw [hstatus, Status.session]
  have halone : ∀ co', (s.status co').session = some session → co' = co :=
    fun co' => h.alone hsession
  have hle := h.session_le hsession
  obtain ⟨hrunning, hfresh, hwaits, hused, hsleep, hwatching, hcalling, hcalled, hreturned,
    hforked⟩ := h
  constructor <;>
    simp only [Service.setWaiter, Service.resume, hstatus, Service.run, Function.update_apply]
  · grind
  · grind
  · grind [Status.session]
  · grind
  · grind
  · grind [Status.session]
  · grind [called_concat, returned_concat, Status.session]
  · grind [called_concat]
  · grind [returned_concat]
  · grind

/-- A session that no coroutine waits for is taken off the map. -/
theorem Ok.clearWaiter (h : s.Ok trace handle)
    (hnot : ∀ co, s.sessionIdCoroutine session ≠ some (.co co)) :
    (s.setWaiter session none).Ok trace handle := by
  obtain ⟨hrunning, hfresh, hwaits, hused, hsleep, hwatching, hcalling, hcalled, hreturned,
    hforked⟩ := h
  constructor <;> simp only [Service.setWaiter, Function.update_apply] <;> grind

/-- A coroutine that was forked begins. -/
theorem Ok.begin (h : s.Ok trace handle) {i : Nat} (hco : s.forkQueue[i]? = some co) :
    (Service.resume { s with forkQueue := s.forkQueue.eraseIdx i } co).Ok trace handle := by
  have hmem : co ∈ s.forkQueue := List.mem_of_getElem? hco
  have hstatus : s.status co = .ready := h.forked.2 co hmem
  have hrest : co ∉ s.forkQueue.eraseIdx i := by
    intro hco'
    obtain ⟨j, hne, hj⟩ := List.mem_eraseIdx_iff_getElem?.mp hco'
    exact hne
      ((List.getElem?_inj (List.getElem?_eq_some_iff.mp hj).1 h.forked.1).mp (hj.trans hco.symm))
  obtain ⟨hrunning, hfresh, hwaits, hused, hsleep, hwatching, hcalling, hcalled, hreturned,
    hforked⟩ := h
  constructor <;> simp only [Service.resume, hstatus, Service.run, Function.update_apply] <;>
    grind [Status.session, List.Nodup.eraseIdx, List.mem_of_mem_eraseIdx]

end Ok

end Service

end SdyServer.Rpc
